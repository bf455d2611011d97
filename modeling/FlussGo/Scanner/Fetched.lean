import FlussGo.Log.Format
import FlussGo.Scanner.Evolved
/-!
# The records of one fetch

The batch loop of the decoder, over the batches that the fetched bytes consist of.
-/
namespace FlussGo
open Outcome List BatchResult FetchedLog
/-- The batch decodes under a schema, as rows or else as an Arrow record. -/
def Decodes (reader : ArrowReader) (schema : Schema) (compacted : Bool) (p : Bytes) : Prop :=
  (∃ batch, decodeLogBatchRows schema p compacted = .ok batch) ∨
    (∃ e, decodeLogBatchRows schema p compacted = .err e) ∧
      ∃ fields batch, schema.arrowSchema = .ok fields ∧ decodeArrowLogBatch reader fields p = .ok batch
/-- A complete batch that decodes under every schema that its ID may be resolved to. -/
structure WellFormedBatch (reader : ArrowReader) (resolver : SchemaResolver) (path : TablePath) (compacted : Bool)
    (p : Bytes) : Prop where
  header : ∃ header, logBatchHeader p = .ok header
  decodes : ∀ k schema, resolver k path (batchSchemaID p) = .ok schema → Decodes reader schema compacted p
/-- The beginning of a batch whose end is missing. -/
def IncompleteBatch (tail : Bytes) : Prop :=
  ∃ p header, logBatchHeader p = .ok header ∧ tail <+: p ∧ tail.length < p.length

def batchOffsets (p : Bytes) : List Int := (List.range (batchCount p)).map fun (i : Nat) => (batchBase p).toInt + (i : Int)
/-- The offset after the last record of a batch. -/
def batchEnd (p : Bytes) : Int := (batchBase p).toInt + batchCount p

theorem mem_batchOffsets {p : Bytes} {o : Int} : o ∈ batchOffsets p ↔ (batchBase p).toInt ≤ o ∧ o < batchEnd p := by
  simp only [batchOffsets,batchEnd,mem_map,mem_range]
  constructor
  · rintro ⟨i,hi,rfl⟩
    omega
  · intro h
    exact ⟨(o - (batchBase p).toInt).toNat,by omega,by omega⟩

theorem batchOffsets_pairwise (p : Bytes) : (batchOffsets p).Pairwise (· < ·) := by
  rw [batchOffsets,pairwise_map]
  exact pairwise_lt_range.imp fun h => by omega

theorem batchOffsets_from_base (p : Bytes) :
    (batchOffsets p).filter (fun o => decide ((batchBase p).toInt ≤ o)) = batchOffsets p := by
  rw [filter_eq_self]
  intro o ho
  simpa using (mem_batchOffsets.mp ho).1

def BatchResult.offsets (r : BatchResult) : List Int := r.entries.map (·.offset)

section Batch
variable {reader : ArrowReader} {resolve : TablePath → Int → Except GoError Schema} {table : Table} {schema : Schema}
  {compacted : Bool} {p : Bytes} {bucket current : Int} {header : UInt8 × Nat × Nat} {r : BatchResult}

theorem Decodes.content (h : Decodes reader schema compacted p)
    (hh : logBatchHeader p = .ok header) : ∃ c, decodeContent reader schema p compacted = .ok c := by
  rcases h with ⟨batch,hb⟩ | ⟨⟨e,hr⟩,fields,batch,hf,hb⟩
  · exact ⟨_,by rw [decodeContent,hb]⟩
  rw [decodeContent,hr]
  dsimp only
  rw [hf,bind_ok,hb,mapErr_ok,bind_ok]
  cases hre : batch.record with
  | some record => exact ⟨_,rfl⟩
  | none =>
    obtain ⟨hc,hl⟩ := (decodeArrowLogBatch_eq_ok hb).empty hre
    obtain ⟨rows,hok⟩ := @decodeLogBatchRows_of_empty schema compacted p header hh hc hl
    rw [hr] at hok
    cases hok

theorem decodeEvolvedFetchedBatch_eq (hh : logBatchHeader p = .ok header) :
    (∀ schema, resolve table.path (batchSchemaID p) = .ok schema →
      decodeEvolvedFetchedBatch reader resolve table bucket current p compacted =
        (decodeFetchedBatch reader schema bucket current p compacted >>= evolveResult schema table.schema)) ∧
      ∀ e, resolve table.path (batchSchemaID p) = .error e →
        ∃ e', decodeEvolvedFetchedBatch reader resolve table bucket current p compacted = .err e' := by
  obtain ⟨magic,he,schemaOffset⟩ := header
  have hf := logBatchHeader_eq_ok hh
  obtain ⟨hs,rfl⟩ := hf.layout
  have hfi := hf.header
  rw [decodeEvolvedFetchedBatch,hh,bind_ok]
  dsimp only
  rw [readInt16,readLittle_ok (by omega),bind_ok,← batchSchemaID,pure_eq,bind_ok]
  refine ⟨fun schema hr => ?_,fun e hr => ?_⟩ <;> rw [hr]
  · rfl
  · exact ⟨_,rfl⟩

theorem ContentOf.offsets {c : BatchContent} (h : ContentOf schema p c) (hfit : OffsetsFit c.base.toInt c.count) :
    c.entries.map (·.offset) = batchOffsets p := by
  apply ext_getElem?
  intro i
  rw [getElem?_map,batchOffsets,getElem?_map,← h.base,← h.count]
  by_cases hi : i < c.count
  · have hlt : i < c.entries.length := c.entries_length ▸ hi
    rw [getElem?_range hi,getElem?_eq_getElem hlt]
    exact congrArg some (h.numbered.offset_eq hfit (getElem?_eq_getElem hlt))
  · rw [getElem?_eq_none (by rw [c.entries_length]; omega),getElem?_eq_none (by simpa using hi)]
    rfl
/-- One batch delivers its offsets from the current one on. -/
structure Delivers (current : Int) (p : Bytes) (r : BatchResult) : Prop where
  next : r.next = batchNext (batchBase p).toInt (batchCount p) current
  offsets : r.offsets = (batchOffsets p).filter (fun o => decide (current ≤ o))

private theorem delivers_of_content {c : BatchContent} (hc : ContentOf schema p c)
    (hfit : OffsetsFit c.base.toInt c.count) (hn : r.next = (c.trim bucket current).next)
    (ho : r.entries.map (·.offset) = (c.trim bucket current).entries.map (·.offset)) : Delivers current p r := by
  constructor
  · rw [hn,c.trim_next,hc.base,hc.count]
  · rw [offsets,ho,c.trim_entries_filter hc.numbered hc.backed hfit,← hc.offsets hfit,filter_map]
    rfl

theorem decodeEvolvedFetchedBatch_sat (hh : logBatchHeader p = .ok header)
    (hd : ∀ schema, resolve table.path (batchSchemaID p) = .ok schema → Decodes reader schema compacted p) :
    (decodeEvolvedFetchedBatch reader resolve table bucket current p compacted).Sat (Delivers current p) := by
  cases hre : resolve table.path (batchSchemaID p) with
  | error e =>
    obtain ⟨e',he'⟩ := (@decodeEvolvedFetchedBatch_eq reader _ _ compacted _ bucket current _ hh).2 _ hre
    rw [he']
    trivial
  | ok schema =>
    obtain ⟨c,hc⟩ := (hd schema hre).content hh
    have hco := decodeContent_eq_ok hc
    rw [(decodeEvolvedFetchedBatch_eq hh).1 _ hre,decodeFetchedBatch_eq,hc,bind_ok]
    by_cases hfit : OffsetsFit c.base.toInt c.count
    · rw [fetchedBatchOffsets_eq hfit,bind_ok,bind_ok]
      exact (evolveResult_sat (hco.backed.trim bucket current) table.schema).mono fun r hr =>
        delivers_of_content hco hfit hr.1 hr.2
    · rw [fetchedBatchOffsets_overflow hfit]
      trivial
/-- A result comes from a header, a resolved schema and a content that was trimmed and evolved. -/
theorem decodeEvolvedFetchedBatch_eq_ok (h : decodeEvolvedFetchedBatch reader resolve table bucket current p compacted = .ok r) :
    ∃ header schema c, logBatchHeader p = .ok header ∧ resolve table.path (batchSchemaID p) = .ok schema ∧
      decodeContent reader schema p compacted = .ok c ∧ OffsetsFit c.base.toInt c.count ∧
      evolveResult schema table.schema (c.trim bucket current) = .ok r := by
  have ⟨header,hh,_⟩ := of_bind h
  cases hr : resolve table.path (batchSchemaID p) with
  | error e =>
    obtain ⟨e',he'⟩ := (@decodeEvolvedFetchedBatch_eq reader _ _ compacted _ bucket current _ hh).2 _ hr
    rw [he'] at h
    cases h
  | ok schema =>
    rw [(decodeEvolvedFetchedBatch_eq hh).1 _ hr,decodeFetchedBatch_eq] at h
    obtain ⟨trimmed,ht,he⟩ := of_bind h
    obtain ⟨c,hc,ht⟩ := of_bind ht
    obtain ⟨_,ho,ht⟩ := of_bind ht
    cases ht
    exact ⟨header,schema,c,hh,rfl,hc,fetchedBatchOffsets_eq_ok ho,he⟩

theorem decodeEvolvedFetchedBatch_delivers
    (h : decodeEvolvedFetchedBatch reader resolve table bucket current p compacted = .ok r) : Delivers current p r := by
  obtain ⟨header,schema,c,_,_,hc,hfit,he⟩ := decodeEvolvedFetchedBatch_eq_ok h
  have hco := decodeContent_eq_ok hc
  have hs := (evolveResult_sat (hco.backed.trim bucket current) table.schema).of_ok he
  exact delivers_of_content hco hfit hs.1 hs.2
/-- A batch that is decoded from its base on is decoded from any offset on, to the same last records. -/
theorem decodeEvolvedFetchedBatch_from {whole : BatchResult}
    (h : decodeEvolvedFetchedBatch reader resolve table bucket (batchBase p).toInt p compacted = .ok whole) (current : Int) :
    ∃ r, decodeEvolvedFetchedBatch reader resolve table bucket current p compacted = .ok r ∧
      r.entries = whole.entries.filter (fun e => decide (current ≤ e.offset)) := by
  obtain ⟨header,schema,c,hh,hre,hc,hfit,hev⟩ := decodeEvolvedFetchedBatch_eq_ok h
  have hco := decodeContent_eq_ok hc
  have hw := (decodeEvolvedFetchedBatch_delivers h).offsets
  rw [← hco.base] at hev
  obtain ⟨r,hr,_,hen⟩ := evolveResult_trim hco.backed hev current
  refine ⟨r,?_,?_⟩
  · rw [(decodeEvolvedFetchedBatch_eq hh).1 _ hre,decodeFetchedBatch_eq,hc,bind_ok,fetchedBatchOffsets_eq hfit,
      bind_ok,bind_ok,hr]
  have hof := batchOffsets_from_base p ▸ hw
  have hn : ∀ (i : Nat) (e : LogEntry), whole.entries[i]? = some e → e.offset = c.base.toInt + i := by
    intro i e he
    have ho := congrArg (·[i]?) hof
    simp only [offsets,getElem?_map,he,Option.map_some,batchOffsets] at ho
    obtain ⟨k,hk,ho⟩ := Option.map_eq_some_iff.mp ho.symm
    obtain ⟨_,rfl⟩ := List.getElem?_eq_some_iff.mp hk
    rw [← ho,getElem_range,hco.base]
  have hl : whole.entries.length = c.count := by
    have := congrArg length hof
    simpa [offsets,batchOffsets,hco.count] using this
  rw [hen,filter_offset_eq_drop hn,trimStart]
  exact drop_min_length hl _
end Batch

section Sizes
variable {p tail rest : Bytes} {header : UInt8 × Nat × Nat}

theorem completeFetchedBatchSize_append (h : logBatchHeader p = .ok header) (rest : Bytes) :
    completeFetchedBatchSize (p ++ rest) = .ok (some p.length) := by
  obtain ⟨magic,he,schemaOffset⟩ := header
  have hf := logBatchHeader_eq_ok h
  have hh := hf.header
  have hv := hf.version
  have hs : (readLittle 4 (p ++ rest) 8 : Go Nat) = .ok (p.length - 12) := by
    rw [readLittle_ok (by rw [length_append]; omega),slice_append_left (by omega),hf.size]
  have hmin : logBatchV0HeaderSize = 48 := rfl
  rw [completeFetchedBatchSize,if_neg (by rw [length_append]; omega),hs,bind_ok]
  rw [if_neg (by omega),if_neg (by rw [length_append]; omega),show 12 + (p.length - 12) = p.length by omega]
  rfl

theorem completeFetchedBatchSize_incomplete (h : IncompleteBatch tail) : completeFetchedBatchSize tail = .ok none := by
  obtain ⟨p,⟨magic,he,schemaOffset⟩,hh,⟨rest,rfl⟩,hlt⟩ := h
  have hf := logBatchHeader_eq_ok hh
  have hfi := hf.header
  have hv := hf.version
  unfold completeFetchedBatchSize
  split
  · rfl
  have hs : (readLittle 4 tail 8 : Go Nat) = .ok ((tail ++ rest).length - 12) := by
    rw [readLittle_ok (by omega),← slice_append_left (by omega) rest,hf.size]
  have hmin : logBatchV0HeaderSize = 48 := rfl
  rw [hs,bind_ok]
  rw [if_neg (by omega),if_pos (by omega)]
  rfl
end Sizes

section Loop
/-- The batches one after the other, each from the offset that the one before it returned. -/
def decodeBatches (reader : ArrowReader) (resolver : SchemaResolver) (table : Table) (bucket : Int) (compacted : Bool) :
    Nat → Int → List Bytes → Go (List BatchResult)
  | _, _, [] => .ok []
  | k, current, p :: batches => do
    let r ← decodeEvolvedFetchedBatch reader (resolver k) table bucket current p compacted
    let rest ← decodeBatches reader resolver table bucket compacted (k + 1) r.next batches
    return r :: rest

variable {reader : ArrowReader} {resolver : SchemaResolver} {table : Table} {bucket : Int} {compacted : Bool}
  {batches : List Bytes} {tail : Bytes}
/-- The bytes of complete batches and an incomplete one are decoded batch by batch. -/
theorem decodeFetchedBatches_eq (hb : ∀ p ∈ batches, ∃ header, logBatchHeader p = .ok header)
    (ht : tail = [] ∨ IncompleteBatch tail) (k : Nat) (log : FetchedLog) :
    decodeFetchedBatches reader resolver table bucket ⟨compacted,true⟩ k log (batches.flatten ++ tail) =
      (decodeBatches reader resolver table bucket compacted k log.next batches >>= fun parts =>
        .ok (parts.foldl append log)) := by
  induction batches generalizing k log with
  | nil =>
    rw [decodeFetchedBatches,flatten_nil,nil_append,decodeBatches,bind_ok]
    split
    · rfl
    rename_i hem
    have hi := completeFetchedBatchSize_incomplete (ht.resolve_left (by simpa using hem))
    split
    next e he =>
      rw [hi] at he
      cases he
    next cause hc =>
      rw [hi] at hc
      cases hc
    · rfl
    next size hsi =>
      rw [hi] at hsi
      cases hsi
  | cons p batches ih =>
    obtain ⟨header,hh⟩ := hb p mem_cons_self
    have hs := completeFetchedBatchSize_append hh (batches.flatten ++ tail)
    have hr := ih fun q hq => hb q (mem_cons_of_mem _ hq)
    rw [flatten_cons,append_assoc,decodeFetchedBatches]
    split
    next hem =>
      rw [List.isEmpty_iff] at hem
      rw [hem] at hs
      cases hs
    · split
      next e he =>
        rw [hs] at he
        cases he
      next cause hc =>
        rw [hs] at hc
        cases hc
      next hn =>
        rw [hs] at hn
        cases hn
      rename_i size hsi
      obtain rfl := Option.some.inj (ok.inj (hs.symm.trans hsi))
      rw [take_left,drop_left,decodeBatches]
      cases decodeEvolvedFetchedBatch reader (resolver k) table bucket log.next p compacted with
      | err e => rfl
      | panic cause => rfl
      | ok r =>
        rw [bind_ok,bind_ok,hr,show (log.append r).next = r.next from rfl]
        cases decodeBatches reader resolver table bucket compacted (k + 1) r.next batches <;> rfl
/-- Every batch delivers from the offset that the batches before it lead to. -/
inductive DeliversAll : Int → List Bytes → List BatchResult → Prop
  | nil (current : Int) : DeliversAll current [] []
  | cons {current : Int} {p : Bytes} {r : BatchResult} {batches : List Bytes} {parts : List BatchResult} :
      Delivers current p r → DeliversAll r.next batches parts → DeliversAll current (p :: batches) (r :: parts)

theorem decodeBatches_sat (h : ∀ p ∈ batches, WellFormedBatch reader resolver table.path compacted p) (k : Nat)
    (current : Int) :
    (decodeBatches reader resolver table bucket compacted k current batches).Sat (DeliversAll current batches) := by
  induction batches generalizing k current with
  | nil => exact .nil current
  | cons p batches ih =>
    obtain ⟨header,hh⟩ := (h p mem_cons_self).header
    refine (decodeEvolvedFetchedBatch_sat hh ((h p mem_cons_self).decodes k)).bind fun r _ hr => ?_
    exact (ih (fun q hq => h q (mem_cons_of_mem _ hq)) (k + 1) r.next).bind fun parts _ hp => .cons hr hp
end Loop

section Order
variable {current o : Int} {p : Bytes} {r : BatchResult} {batches : List Bytes} {parts : List BatchResult}

theorem Delivers.mem_offsets (h : Delivers current p r) :
    o ∈ r.offsets ↔ (batchBase p).toInt ≤ o ∧ o < batchEnd p ∧ current ≤ o := by
  rw [h.offsets,mem_filter,mem_batchOffsets,decide_eq_true_eq,and_assoc]

theorem Delivers.pairwise (h : Delivers current p r) : r.offsets.Pairwise (· < ·) := by
  rw [h.offsets]
  exact (batchOffsets_pairwise p).filter _

theorem Delivers.next_eq (h : Delivers current p r) :
    r.next = if batchCount p = 0 then current else max current (batchEnd p) := h.next

theorem Delivers.lt_next (h : Delivers current p r) (ho : o ∈ r.offsets) : o < r.next := by
  have hmem := h.mem_offsets.mp ho
  have hc : batchCount p ≠ 0 := by
    intro hz
    simp only [batchEnd,hz] at hmem
    omega
  rw [h.next_eq,if_neg hc]
  omega
/-- A batch that moves the offset delivers the record before the new one. -/
theorem Delivers.last_mem (h : Delivers current p r) (hlt : current < r.next) : r.next - 1 ∈ r.offsets := by
  have hn := h.next_eq
  rw [h.mem_offsets]
  split at hn
  · omega
  next hc =>
    simp only [batchEnd] at *
    omega

theorem DeliversAll.length_eq (h : DeliversAll current batches parts) : parts.length = batches.length := by
  induction h with
  | nil => rfl
  | cons _ _ ih => simp [ih]

theorem DeliversAll.le_offset (h : DeliversAll current batches parts) (ho : o ∈ parts.flatMap offsets) :
    current ≤ o := by
  induction h with
  | nil => simp at ho
  | cons hr _ ih =>
    rcases mem_append.mp (flatMap_cons ▸ ho) with ho | ho
    · exact (hr.mem_offsets.mp ho).2.2
    · have hn := hr.next_eq
      have := ih ho
      split at hn <;> omega

theorem DeliversAll.pairwise (h : DeliversAll current batches parts) :
    (parts.flatMap offsets).Pairwise (· < ·) := by
  induction h with
  | nil => simp
  | cons hr hre ih =>
    rw [flatMap_cons,pairwise_append]
    refine ⟨hr.pairwise,ih,fun o ho o' ho' => ?_⟩
    have := hr.lt_next ho
    have := hre.le_offset ho'
    omega

theorem DeliversAll.covers (h : DeliversAll current batches parts) {i : Nat} (hp : batches[i]? = some p)
    (ho : o ∈ batchOffsets p) (hle : current ≤ o) : o ∈ parts.flatMap offsets ∨
      ∃ j < i, ∃ part, parts[j]? = some part ∧ ∃ o' ∈ part.offsets, o < o' := by
  induction h generalizing i with
  | nil => simp at hp
  | @cons current q r batches parts hr hre ih =>
    rw [flatMap_cons,mem_append]
    cases i with
    | zero =>
      cases hp
      have hmem := mem_batchOffsets.mp ho
      exact .inl (.inl (hr.mem_offsets.mpr ⟨hmem.1,hmem.2,hle⟩))
    | succ i =>
      by_cases hn : r.next ≤ o
      · rcases ih (by simpa using hp) hn with hmem | ⟨j,hj,part,hpa,hla⟩
        · exact .inl (.inr hmem)
        · exact .inr ⟨j + 1,by omega,part,by simpa using hpa,hla⟩
      · -- An earlier end lies beyond the offset, so the first batch delivered the record before that end.
        have hl := hr.last_mem (by omega)
        by_cases heq : o = r.next - 1
        · exact .inl (.inl (heq ▸ hl))
        · exact .inr ⟨0,by omega,r,rfl,r.next - 1,hl,by omega⟩

theorem DeliversAll.next_eq (h : DeliversAll current batches parts) (log : FetchedLog) (hlog : log.next = current) :
    (parts.foldl append log).next =
      ((batches.filter fun p => decide (batchCount p ≠ 0)).map batchEnd).foldl max current := by
  induction h generalizing log with
  | nil => exact hlog
  | @cons current q r batches parts hr _ ih =>
    rw [foldl_cons,ih (log.append r) rfl,hr.next_eq]
    by_cases hc : batchCount q = 0 <;> simp [hc]

theorem foldl_append_rows (parts : List BatchResult) (log : FetchedLog) :
    (parts.foldl append log).rows = log.rows ++ parts.flatMap (·.rows) := by
  induction parts generalizing log with
  | nil => simp
  | cons r parts ih => simp [ih,append]

theorem foldl_append_arrows (parts : List BatchResult) (log : FetchedLog) :
    (parts.foldl append log).arrows = log.arrows ++ parts.filterMap (·.arrow) := by
  induction parts generalizing log with
  | nil => simp
  | cons r parts ih => cases hr : r.arrow <;> simp [ih,append,hr]
/-- What a fetch from the offset `f` returns, with the results of its batches in order. -/
structure FetchDelivers (f : Int) (batches : List Bytes) (log : FetchedLog) (parts : List BatchResult) : Prop where
  rows : log.rows = parts.flatMap (·.rows)
  arrows : log.arrows = parts.filterMap (·.arrow)
  aligned : parts.length = batches.length
  atLeast : ∀ o ∈ parts.flatMap BatchResult.offsets, f ≤ o
  increasing : (parts.flatMap BatchResult.offsets).Pairwise (· < ·)
  covers : ∀ (i : Nat) (p : Bytes), batches[i]? = some p → ∀ o ∈ batchOffsets p, f ≤ o →
    o ∈ parts.flatMap BatchResult.offsets ∨ ∃ j < i, ∃ part, parts[j]? = some part ∧ ∃ o' ∈ part.offsets, o < o'
  next : log.next = ((batches.filter fun p => decide (batchCount p ≠ 0)).map batchEnd).foldl max f
end Order
/-- A fetch of well-formed batches fails with nothing delivered, or delivers in increasing order the offsets from
the fetched one on. -/
theorem decodeFetchedLogBatches_delivers (reader : ArrowReader) (resolver : SchemaResolver) (table : Table)
    (bucket f : Int) (compacted : Bool) (batches : List Bytes) (tail : Bytes)
    (hbatches : ∀ p ∈ batches, WellFormedBatch reader resolver table.path compacted p)
    (htail : tail = [] ∨ IncompleteBatch tail) :
    (∃ e, decodeFetchedLogBatchesWithResolver reader resolver table bucket f (batches.flatten ++ tail) ⟨compacted, true⟩ =
        .err ⟨⟨f, [], []⟩, e⟩) ∨
      ∃ log parts, decodeFetchedLogBatchesWithResolver reader resolver table bucket f (batches.flatten ++ tail)
        ⟨compacted, true⟩ = .ok log ∧ FetchDelivers f batches log parts := by
  have hsat := @decodeBatches_sat reader resolver table bucket compacted batches hbatches 0 f
  rw [decodeFetchedLogBatchesWithResolver,decodeFetchedBatches_eq (fun p hp => (hbatches p hp).header) htail]
  rcases hsat.ok_or_err with ⟨parts,hparts⟩ | ⟨e,herr⟩
  · have hall := hsat.of_ok hparts
    rw [hparts]
    refine .inr ⟨_,parts,rfl,?_⟩
    exact {
      rows := by rw [foldl_append_rows]; rfl
      arrows := by rw [foldl_append_arrows]; rfl
      aligned := hall.length_eq
      atLeast := fun o ho => hall.le_offset ho
      increasing := hall.pairwise
      covers := fun i p hp o ho hle => hall.covers hp ho hle
      next := hall.next_eq _ rfl }
  · rw [herr]
    exact .inl ⟨e,rfl⟩
/-- A log of numbers has one schema and no Arrow batches. -/
def noArrow : ArrowReader where
  read := fun _ _ => fail "no Arrow payload"
  conforms := by simp
  safe := by simp [fail]

def numberResolver : SchemaResolver := fun _ _ _ => .ok numberSchema
/-- The batch of the row `[1]` at a position of the log. -/
def numberBatchAt (base : Nat) : Bytes := littleBytes 8 base ++ (numberBatch true).drop 8

theorem decodeFetchedLogBatches_delivers_numbers :
    let table := (numberWriter none {}).table
    let batches := [4, 5, 5, 8].map numberBatchAt
    let tail := (numberBatchAt 9).take 20
    let decoded := decodeFetchedLogBatchesWithResolver noArrow numberResolver table 0 5 (batches.flatten ++ tail) ⟨true, true⟩
    (∃ e, decoded = .err ⟨⟨5, [], []⟩, e⟩) ∨ ∃ log parts, decoded = .ok log ∧ FetchDelivers 5 batches log parts := by
  have hheader : ∀ base ∈ [4, 5, 8, 9], (logBatchHeader (numberBatchAt base)).isOk = true ∧
      (decodeLogBatchRows numberSchema (numberBatchAt base) true).isOk = true := by decide +kernel
  refine decodeFetchedLogBatches_delivers noArrow numberResolver (numberWriter none {}).table 0 5 true _ _ ?_ (.inr ?_)
  · intro p hp
    obtain ⟨base,hbase,rfl⟩ := mem_map.mp hp
    obtain ⟨hok,hrows⟩ := hheader base (by
      simp only [mem_cons,not_mem_nil,or_false] at hbase ⊢
      omega)
    refine ⟨isOk_iff.mp hok,fun k schema hschema => .inl ?_⟩
    obtain rfl := Except.ok.inj hschema
    exact isOk_iff.mp hrows
  · obtain ⟨header,hok⟩ := isOk_iff.mp (hheader 9 (by simp)).1
    exact ⟨numberBatchAt 9,header,hok, take_prefix _ _,by decide⟩
/-- A batch is read back, and found whole among fetched bytes, exactly when it keeps the limit of the
decoder and every row comes back on its own; rows whose values fit do. -/
theorem rowBatch_readBack_iff (b : LogBatch) (schema : Schema) (compacted : Bool) (encoded : Bytes)
    (h : b.encodeRows schema compacted = .ok encoded) :
    ((decodeLogBatchRows schema encoded compacted = .ok (b.stored schema compacted) ∧
        completeFetchedBatchSize encoded = .ok (some encoded.length)) ↔
      encoded.length ≤ maxRowBytes ∧ ∀ record ∈ b.records, RowStored schema compacted record.value) ∧
    (encoded.length ≤ maxRowBytes → (∀ record ∈ b.records, fitsRow schema record.value = true) →
      ∀ record ∈ b.records, RowStored schema compacted record.value) := by
  refine ⟨?_,rowsStored_of_fits h⟩
  rw [← decodeLogBatchRows_stored_iff h]
  constructor
  · exact And.left
  intro hdecode
  obtain ⟨header,hheader,_⟩ := Outcome.of_bind hdecode
  have hsize := completeFetchedBatchSize_append hheader []
  rw [List.append_nil] at hsize
  exact ⟨hdecode,hsize⟩

def repeatedBatch (count : Nat) : LogBatch where
  magic := 0
  baseOffset := -1
  schemaID := 0
  appendOnly := true
  writerID := 1
  batchSequence := 0
  records := List.replicate count { value := [.int32 1], change := .append, offset := -1 }

private theorem encodeRecords_repeated (count : Nat) :
    ∃ records, encodeRecords numberSchema true (repeatedBatch count).records = .ok records ∧
      records.length = 7 * count := by
  induction count with
  | zero => exact ⟨[],rfl,rfl⟩
  | succ count ih =>
    obtain ⟨records,hr,hl⟩ := ih
    have hre : encodeRecord numberSchema true { value := [.int32 1], change := .append, offset := -1 } =
        .ok [3, 0, 0, 0, 0, 0, 1] := by decide
    refine ⟨[3, 0, 0, 0, 0, 0, 1] ++ records,?_,?_⟩
    · rw [repeatedBatch,replicate_succ,encodeRecords,hre,Outcome.bind_ok]
      rw [repeatedBatch] at hr
      rw [hr]
      rfl
    · rw [length_append,hl]
      simp
      omega

private theorem repeatedBatch_encodeRows (count : Nat) :
    ∃ encoded, (repeatedBatch count).encodeRows numberSchema true = .ok encoded ∧ encoded.length = 48 + 7 * count := by
  obtain ⟨records,hr,hl⟩ := encodeRecords_repeated count
  refine ⟨logBatchBytes (repeatedBatch count) (logBatchTail (repeatedBatch count) records),?_,?_⟩
  · rw [LogBatch.encodeRows,if_neg (by simp [repeatedBatch]),hr]
    rfl
  · simp only [logBatchBytes,logBatchTail,repeatedBatch,length_append,length_cons,littleBytes_length,
      hl]
    simp
    omega

theorem rowBatch_readBack_repeated : ∃ encoded,
    (repeatedBatch 3).encodeRows numberSchema true = .ok encoded ∧
      decodeLogBatchRows numberSchema encoded true = .ok ((repeatedBatch 3).stored numberSchema true) ∧
      completeFetchedBatchSize encoded = .ok (some encoded.length) := by
  obtain ⟨encoded,hencode,hlength⟩ := repeatedBatch_encodeRows 3
  have hm := maxRowBytes_eq
  obtain ⟨hiff,hrows⟩ := rowBatch_readBack_iff (repeatedBatch 3) numberSchema true encoded hencode
  exact ⟨encoded,hencode,hiff.mpr ⟨by omega,hrows (by omega) (by decide)⟩⟩
/-- Four million rows of seven bytes are encoded, and then not accepted under any schema. -/
theorem rowBatch_large_rejected : ∃ encoded,
    (repeatedBatch 4000000).encodeRows numberSchema true = .ok encoded ∧
      ∀ schema compacted batch, decodeLogBatchRows schema encoded compacted ≠ .ok batch := by
  obtain ⟨encoded,hencode,hlength⟩ := repeatedBatch_encodeRows 4000000
  have hm := maxRowBytes_eq
  refine ⟨encoded,hencode,(decodeLogBatchRows_encodeRows hencode ?_).2 (by omega)⟩
  intro record hrecord
  obtain rfl := List.eq_of_mem_replicate hrecord
  decide
end FlussGo
