import FlussGo.Lib.Keyed
import FlussGo.Scanner.Fetched
/-!
# Reading a log by resumed fetches

A fetch returns the bytes of the log from the batch of its offset on, cut anywhere. The scanner decodes
the complete batches and resumes from the offset after them.
-/
namespace FlussGo
open List Outcome
/-- The records of a fetch in the order of their offsets. -/
def FetchedLog.inOrder (log : FetchedLog) : List LogEntry :=
  sortByKey LogEntry.offset (log.rows.map (·.record.entry) ++ log.arrows.flatMap (·.batch.entries))
/-- A batch whose records can be decoded and evolved. -/
def Readable (reader : ArrowReader) (resolve : TablePath → Int → Except GoError Schema) (table : Table) (bucket : Int)
    (compacted : Bool) (p : Bytes) : Prop :=
  ∃ whole, decodeEvolvedFetchedBatch reader resolve table bucket (batchBase p).toInt p compacted = .ok whole
/-- Consecutive batches with records. -/
structure Continues (batches : List Bytes) : Prop where
  nonempty : ∀ p ∈ batches, batchCount p ≠ 0
  consecutive : batches.IsChain fun p q => batchEnd p = (batchBase q).toInt

structure ReadableLog (reader : ArrowReader) (resolve : TablePath → Int → Except GoError Schema) (table : Table)
    (bucket : Int) (compacted : Bool) where
  batches : List Bytes
  readable : ∀ p ∈ batches, Readable reader resolve table bucket compacted p
  continues : Continues batches

def batchEntries (reader : ArrowReader) (resolve : TablePath → Int → Except GoError Schema) (table : Table) (bucket : Int)
    (compacted : Bool) (p : Bytes) : List LogEntry :=
  match decodeEvolvedFetchedBatch reader resolve table bucket (batchBase p).toInt p compacted with
  | .ok whole => whole.entries
  | _ => []

namespace ReadableLog
variable {reader : ArrowReader} {resolve : TablePath → Int → Except GoError Schema} {table : Table} {bucket : Int}
  {compacted : Bool}

def entries (log : ReadableLog reader resolve table bucket compacted) : List LogEntry :=
  log.batches.flatMap (batchEntries reader resolve table bucket compacted)
/-- The batches from the one that contains an offset on. -/
def remaining (log : ReadableLog reader resolve table bucket compacted) (offset : Int) : List Bytes :=
  log.batches.dropWhile fun p => decide (batchEnd p ≤ offset)
/-- The first `limit` bytes of these batches. -/
def fetch (log : ReadableLog reader resolve table bucket compacted) (offset : Int) (limit : Nat) : Bytes :=
  (log.remaining offset).flatten.take limit
/-- Fetches with the given limits, each resumed from the offset that the one before it returned. -/
def read (log : ReadableLog reader resolve table bucket compacted) : Int → List Nat →
    Outcome FetchFailure (Int × List LogEntry)
  | offset, [] => .ok (offset, [])
  | offset, limit :: limits => do
    let fetched ← decodeFetchedFetchResponseWithResolver reader (fun _ => resolve) table bucket offset
      (log.fetch offset limit) compacted
    let (next, entries) ← log.read fetched.next limits
    return (next, fetched.inOrder ++ entries)
end ReadableLog

section Batches
variable {reader : ArrowReader} {resolve : TablePath → Int → Except GoError Schema} {table : Table} {bucket : Int}
  {compacted : Bool} {p : Bytes} {batches more : List Bytes}

theorem Readable.offsets (h : Readable reader resolve table bucket compacted p) :
    (batchEntries reader resolve table bucket compacted p).map (·.offset) = batchOffsets p := by
  obtain ⟨whole,hw⟩ := h
  have hd := (decodeEvolvedFetchedBatch_delivers hw).offsets
  rw [batchOffsets_from_base] at hd
  rw [batchEntries,hw]
  exact hd

theorem Readable.mem_offset (h : Readable reader resolve table bucket compacted p) {e : LogEntry}
    (he : e ∈ batchEntries reader resolve table bucket compacted p) : (batchBase p).toInt ≤ e.offset ∧ e.offset < batchEnd p := by
  rw [← mem_batchOffsets,← h.offsets]
  exact mem_map_of_mem he

theorem Readable.ascending (h : Readable reader resolve table bucket compacted p) :
    Ascending LogEntry.offset (batchEntries reader resolve table bucket compacted p) := by
  rw [Ascending,← pairwise_map (R := fun a b : Int => a < b),h.offsets]
  exact batchOffsets_pairwise p
/-- The registry answers every call in the same way, or the call fails. -/
def Consults (resolver : SchemaResolver) (resolve : TablePath → Int → Except GoError Schema) : Prop :=
  ∀ k path id, resolver k path id = resolve path id ∨ ∃ e, resolver k path id = .error e
/-- One readable batch: with the schema at hand its last records are delivered, otherwise the call fails. -/
theorem Readable.decode (h : Readable reader resolve table bucket compacted p)
    {answer : TablePath → Int → Except GoError Schema}
    (ha : answer table.path (batchSchemaID p) = resolve table.path (batchSchemaID p) ∨
      ∃ e, answer table.path (batchSchemaID p) = .error e) (current : Int) :
    (∃ e, decodeEvolvedFetchedBatch reader answer table bucket current p compacted = .err e ∧
        answer table.path (batchSchemaID p) ≠ resolve table.path (batchSchemaID p)) ∨
      ∃ r, decodeEvolvedFetchedBatch reader answer table bucket current p compacted = .ok r ∧ Delivers current p r ∧
        r.entries = (batchEntries reader resolve table bucket compacted p).filter fun e => decide (current ≤ e.offset) := by
  obtain ⟨whole,hw⟩ := h
  obtain ⟨hea,schema,_,hh,hre,_⟩ := decodeEvolvedFetchedBatch_eq_ok hw
  rcases ha with heq | ⟨e,he⟩
  · have hs : decodeEvolvedFetchedBatch reader answer table bucket current p compacted =
        decodeEvolvedFetchedBatch reader resolve table bucket current p compacted := by
      rw [(decodeEvolvedFetchedBatch_eq hh).1 _ hre,(decodeEvolvedFetchedBatch_eq hh).1 _ (heq.trans hre)]
    obtain ⟨r,hr,hen⟩ := decodeEvolvedFetchedBatch_from hw current
    refine .inr ⟨r,hs.trans hr,decodeEvolvedFetchedBatch_delivers hr,?_⟩
    rw [hen,batchEntries,hw]
  · obtain ⟨e',he'⟩ := (@decodeEvolvedFetchedBatch_eq reader answer table compacted p bucket current _ hh).2 e he
    refine .inl ⟨e',he',?_⟩
    rw [he,hre]
    simp

def lastEnd (current : Int) (batches : List Bytes) : Int := batches.foldl (fun _ p => batchEnd p) current

theorem base_lt_batchEnd (h : batchCount p ≠ 0) : (batchBase p).toInt < batchEnd p := by
  unfold batchEnd
  omega

theorem Continues.tail (h : Continues (p :: batches)) : Continues batches :=
  ⟨fun q hq => h.nonempty q (mem_cons_of_mem _ hq),h.consecutive.tail⟩

theorem Continues.pairwise (h : Continues batches) : batches.Pairwise fun p q => batchEnd p ≤ (batchBase q).toInt := by
  induction batches with
  | nil => exact .nil
  | cons p batches ih =>
    have hr := ih h.tail
    refine .cons (fun q hq => ?_) hr
    cases batches with
    | nil => simp at hq
    | cons first batches =>
      have hf : batchEnd p = (batchBase first).toInt := (isChain_cons_cons.mp h.consecutive).1
      rcases mem_cons.mp hq with rfl | hq
      · exact hf.le
      · have hlt := base_lt_batchEnd (h.nonempty first (by simp))
        have := (pairwise_cons.mp hr).1 q hq
        omega

theorem Continues.append_left (h : Continues (batches ++ more)) : Continues batches :=
  ⟨fun q hq => h.nonempty q (mem_append_left _ hq),h.consecutive.left_of_append⟩

theorem Continues.append_right (h : Continues (batches ++ more)) : Continues more :=
  ⟨fun q hq => h.nonempty q (mem_append_right _ hq),h.consecutive.right_of_append⟩

theorem Continues.le_lastEnd (h : Continues batches) (current : Int) (hp : p ∈ batches) :
    batchEnd p ≤ lastEnd current batches := by
  rcases eq_nil_or_concat' batches with rfl | ⟨init,last,rfl⟩
  · simp at hp
  have hl : lastEnd current (init ++ [last]) = batchEnd last := by simp [lastEnd]
  rw [hl]
  rcases mem_append.mp hp with hp | hp
  · have ho := (pairwise_append.mp h.pairwise).2.2 p hp last (by simp)
    have := base_lt_batchEnd (h.nonempty last (by simp))
    omega
  · rw [mem_singleton.mp hp]

theorem Continues.lastEnd_le (h : Continues (batches ++ more)) (current : Int) (hne : batches ≠ [])
    (hp : p ∈ more) : lastEnd current batches ≤ (batchBase p).toInt := by
  rcases eq_nil_or_concat' batches with rfl | ⟨init,last,rfl⟩
  · exact absurd rfl hne
  · have hl : lastEnd current (init ++ [last]) = batchEnd last := by simp [lastEnd]
    rw [hl]
    exact (pairwise_append.mp h.pairwise).2.2 last (by simp) p hp
/-- Consecutive batches that begin with the one of the current offset deliver everything from it on. -/
theorem decodeBatches_continues {resolver : SchemaResolver} (hres : Consults resolver resolve)
    (hre : ∀ p ∈ batches, Readable reader resolve table bucket compacted p) (hc : Continues batches)
    {current : Int} (hcu : ∀ p ∈ batches.head?, current < batchEnd p) (k : Nat) :
    (∃ e, decodeBatches reader resolver table bucket compacted k current batches = .err e ∧ resolver ≠ fun _ => resolve) ∨
      ∃ parts, decodeBatches reader resolver table bucket compacted k current batches = .ok parts ∧
        (∀ log : FetchedLog, log.next = current → (parts.foldl FetchedLog.append log).next = lastEnd current batches) ∧
        parts.flatMap BatchResult.entries =
          (batches.flatMap (batchEntries reader resolve table bucket compacted)).filter fun e => decide (current ≤ e.offset) := by
  induction batches generalizing current k with
  | nil => exact .inr ⟨[],rfl,fun log hlog => hlog,rfl⟩
  | cons p batches ih =>
    rcases (hre p mem_cons_self).decode (hres k table.path (batchSchemaID p)) current with
      ⟨e,he,hne⟩ | ⟨r,hr,hd,hen⟩
    · refine .inl ⟨e,by rw [decodeBatches,he]; rfl,?_⟩
      rintro rfl
      exact hne rfl
    have hlt := hcu p (by simp)
    have hn : r.next = batchEnd p := by
      rw [hd.next_eq,if_neg (hc.nonempty p mem_cons_self)]
      omega
    have hh : ∀ q ∈ batches.head?, batchEnd p = (batchBase q).toInt ∧ batchEnd p < batchEnd q := by
      intro q hq
      cases batches with
      | nil => simp at hq
      | cons first batches =>
        obtain rfl := Option.some.inj hq
        have hch := (isChain_cons_cons.mp hc.consecutive).1
        exact ⟨hch,hch ▸ base_lt_batchEnd (hc.nonempty first (by simp))⟩
    have hrest := @ih (fun q hq => hre q (mem_cons_of_mem _ hq)) hc.tail r.next
      (fun q hq => hn ▸ (hh q hq).2) (k + 1)
    rcases hrest with ⟨e,he,hne⟩ | ⟨parts,hp,hl,hf⟩
    · exact .inl ⟨e,by rw [decodeBatches,hr,bind_ok,he]; rfl,hne⟩
    refine .inr ⟨r :: parts,by rw [decodeBatches,hr,bind_ok,hp]; rfl,fun log _ => ?_,?_⟩
    · rw [foldl_cons,hl (log.append r) rfl,hn]
      rfl
    -- The later batches lie beyond this one, so both offsets select all of their records.
    rw [flatMap_cons,flatMap_cons,filter_append,hen,hf]
    congr 1
    apply filter_congr
    intro e he
    obtain ⟨q,hq,he⟩ := mem_flatMap.mp he
    have hof := (hre q (mem_cons_of_mem _ hq)).mem_offset he
    have ho := (pairwise_cons.mp hc.pairwise).1 q hq
    simp only [decide_eq_decide]
    omega
end Batches

section Fetches
variable {reader : ArrowReader} {resolve : TablePath → Int → Except GoError Schema} {table : Table} {bucket : Int}
  {compacted : Bool}
/-- Whatever the mix of rows and Arrow batches, their order by offset is the order of the batches. -/
theorem inOrder_of_parts {parts : List BatchResult} {log : FetchedLog} (hro : log.rows = parts.flatMap (·.rows))
    (ha : log.arrows = parts.filterMap (·.arrow)) (h : Ascending LogEntry.offset (parts.flatMap BatchResult.entries)) :
    log.inOrder = parts.flatMap BatchResult.entries := by
  apply sortByKey_eq _ h
  rw [hro,ha]
  clear hro ha h
  induction parts with
  | nil => exact .nil
  | cons r parts ih =>
    have har : ((r :: parts).filterMap (·.arrow)).flatMap (·.batch.entries) =
        r.arrow.toList.flatMap (·.batch.entries) ++ (parts.filterMap (·.arrow)).flatMap (·.batch.entries) := by
      cases hr : r.arrow <;> simp [hr]
    rw [har,flatMap_cons,flatMap_cons,map_append,BatchResult.entries,append_assoc,append_assoc]
    refine List.Perm.append_left _ (List.Perm.trans ?_ (List.Perm.append_left _ ih))
    rw [← append_assoc,← append_assoc]
    exact List.Perm.append_right _ perm_append_comm

namespace ReadableLog
variable (log : ReadableLog reader resolve table bucket compacted)

theorem ascending : Ascending LogEntry.offset log.entries := by
  rw [Ascending,entries,pairwise_flatMap]
  refine ⟨fun p hp => (log.readable p hp).ascending,?_⟩
  refine List.Pairwise.imp_of_mem (fun {p q} hp hq hle e he e' he' => ?_) log.continues.pairwise
  have := (log.readable p hp).mem_offset he
  have := (log.readable q hq).mem_offset he'
  omega

theorem header_of_mem {p : Bytes} (hp : p ∈ log.batches) : ∃ he, logBatchHeader p = .ok he := by
  obtain ⟨whole,hw⟩ := log.readable p hp
  obtain ⟨he,_,_,hh,_⟩ := decodeEvolvedFetchedBatch_eq_ok hw
  exact ⟨he,hh⟩
/-- The whole batches of a fetch, between the batches before its offset and the ones it does not reach. -/
structure Splits (offset : Int) (limit : Nat) (pre batches post : List Bytes) (tail : Bytes) : Prop where
  log_eq : log.batches = pre ++ (batches ++ post)
  fetch_eq : log.fetch offset limit = batches.flatten ++ tail
  tail : tail = [] ∨ IncompleteBatch tail
  before : ∀ p ∈ pre, batchEnd p ≤ offset
  head : ∀ p ∈ batches.head?, offset < batchEnd p
  short : batches = [] → ∀ n p, p ∈ (log.remaining offset).take n →
    limit < ((log.remaining offset).take n).flatten.length

theorem splits (offset : Int) (limit : Nat) :
    ∃ pre batches post tail, log.Splits offset limit pre batches post tail := by
  have hs : log.batches.takeWhile (fun p => decide (batchEnd p ≤ offset)) ++ log.remaining offset = log.batches :=
    takeWhile_append_dropWhile
  obtain ⟨tail,ht,hta⟩ := take_flatten (log.remaining offset) limit
  generalize hw : wholeBlocks (log.remaining offset) limit = whole at ht
  refine ⟨log.batches.takeWhile fun p => decide (batchEnd p ≤ offset),(log.remaining offset).take whole,
    (log.remaining offset).drop whole,tail,?_,ht,?_,?_,?_,?_⟩
  · rw [take_append_drop,hs]
  · refine hta.imp_right ?_
    rintro ⟨block,hb,hpr,hlt⟩
    obtain ⟨he,hh⟩ := log.header_of_mem (hs ▸ mem_append_right _ hb)
    exact ⟨block,he,hh,hpr,hlt⟩
  · intro p hp
    simpa using mem_takeWhile_imp hp
  · intro p hp
    have hhe : (log.remaining offset).head? = some p := by
      rw [head?_take] at hp
      split at hp
      · simp at hp
      · exact hp
    have hnot := head?_dropWhile_not (fun p => decide (batchEnd p ≤ offset)) log.batches
    rw [show log.batches.dropWhile _ = log.remaining offset from rfl,hhe] at hnot
    simpa using hnot
  · intro hem n p hp
    by_contra hle
    -- At least one batch fits into the limit, so one was taken.
    have hne : log.remaining offset ≠ [] := by
      intro hnil
      rw [hnil] at hp
      simp at hp
    have hpos : 0 < n := by
      by_contra hz
      rw [Nat.eq_zero_of_not_pos hz] at hp
      simp at hp
    have hl := length_pos_iff.mpr hne
    have hfit : ((log.remaining offset).take 1).flatten.length ≤ limit := by
      obtain ⟨first,rest,hc⟩ := exists_cons_of_ne_nil hne
      obtain ⟨n,rfl⟩ := Nat.exists_eq_add_of_lt hpos
      rw [hc] at hle ⊢
      simp only [Nat.zero_add,take_succ_cons,flatten_cons,length_append] at hle ⊢
      simp only [take_zero,flatten_nil,length_nil]
      omega
    have hone := le_wholeBlocks (show 1 ≤ (log.remaining offset).length from hl) hfit
    rcases take_eq_nil_iff.mp hem with hz | hnil
    · omega
    · exact hne hnil

section Split
variable {log} {offset : Int} {limit : Nat} {pre batches post : List Bytes} {tail : Bytes}

theorem Splits.mem (h : log.Splits offset limit pre batches post tail) {p : Bytes} (hp : p ∈ batches) :
    p ∈ log.batches :=
  h.log_eq ▸ mem_append_right _ (mem_append_left _ hp)

theorem Splits.continues (h : log.Splits offset limit pre batches post tail) : Continues (batches ++ post) :=
  (h.log_eq ▸ log.continues).append_right

theorem Splits.advances (h : log.Splits offset limit pre batches post tail) (hne : batches ≠ []) :
    offset < lastEnd offset batches := by
  obtain ⟨p,rest,rfl⟩ := exists_cons_of_ne_nil hne
  have hh := h.head p (by simp)
  have hl := h.continues.append_left.le_lastEnd offset mem_cons_self
  omega
/-- The records that the whole batches deliver are those of the log up to the end of these batches. -/
theorem Splits.between_eq (h : log.Splits offset limit pre batches post tail) :
    between LogEntry.offset offset (lastEnd offset batches) log.entries =
      (batches.flatMap (batchEntries reader resolve table bucket compacted)).filter fun e => decide (offset ≤ e.offset) := by
  have hpre : between LogEntry.offset offset (lastEnd offset batches)
      (pre.flatMap (batchEntries reader resolve table bucket compacted)) = [] := by
    apply between_eq_nil
    intro e he
    obtain ⟨p,hp,he⟩ := mem_flatMap.mp he
    have ho := (log.readable p (h.log_eq ▸ mem_append_left _ hp)).mem_offset he
    have hb := h.before p hp
    omega
  have hpo : between LogEntry.offset offset (lastEnd offset batches)
      (post.flatMap (batchEntries reader resolve table bucket compacted)) = [] := by
    apply between_eq_nil
    intro e he
    obtain ⟨p,hp,he⟩ := mem_flatMap.mp he
    have ho := (log.readable p (h.log_eq ▸ mem_append_right _ (mem_append_right _ hp))).mem_offset he
    by_cases hem : batches = []
    · rw [hem,lastEnd,foldl_nil]
      omega
    · have hl := h.continues.lastEnd_le offset hem hp
      omega
  rw [entries,h.log_eq,flatMap_append,flatMap_append,between_append_list,between_append_list,hpre,hpo,
    nil_append,append_nil]
  apply filter_congr
  intro e he
  obtain ⟨p,hp,he⟩ := mem_flatMap.mp he
  have ho := (log.readable p (h.mem hp)).mem_offset he
  have hl := h.continues.append_left.le_lastEnd offset hp
  simp only [decide_eq_decide]
  omega
end Split
/-- One fetch delivers the records up to the offset it returns, and advances if it has a whole batch. -/
theorem fetch_decodes {resolver : SchemaResolver} (hr : Consults resolver resolve) (offset : Int) (limit : Nat) :
    (∃ e, decodeFetchedFetchResponseWithResolver reader resolver table bucket offset (log.fetch offset limit) compacted =
        .err ⟨{ next := offset },e⟩ ∧ resolver ≠ fun _ => resolve) ∨
      ∃ fetched, decodeFetchedFetchResponseWithResolver reader resolver table bucket offset (log.fetch offset limit) compacted =
        .ok fetched ∧ offset ≤ fetched.next ∧ fetched.inOrder = between LogEntry.offset offset fetched.next log.entries ∧
        ∀ n p, p ∈ (log.remaining offset).take n → ((log.remaining offset).take n).flatten.length ≤ limit →
          offset < fetched.next := by
  obtain ⟨pre,batches,post,tail,hs⟩ := log.splits offset limit
  rw [decodeFetchedFetchResponseWithResolver,decodeFetchedLogBatchesWithResolver,hs.fetch_eq,
    decodeFetchedBatches_eq (fun p hp => log.header_of_mem (hs.mem hp)) hs.tail]
  rcases decodeBatches_continues hr (fun p hp => log.readable p (hs.mem hp)) hs.continues.append_left
    hs.head 0 with ⟨e,he,hne⟩ | ⟨parts,hpa,hn,hen⟩
  · rw [he]
    exact .inl ⟨e,rfl,hne⟩
  rw [hpa]
  refine .inr ⟨_,rfl,?_⟩
  rw [hn { next := offset } rfl]
  refine ⟨?_,?_,?_⟩
  · by_cases hem : batches = []
    · rw [hem]
      exact Int.le_refl _
    · exact (hs.advances hem).le
  · have hf := hen.trans hs.between_eq.symm
    rw [inOrder_of_parts (foldl_append_rows parts _) (foldl_append_arrows parts _) (hf ▸ log.ascending.between _ _),hf]
  · intro n p hp hl
    apply hs.advances
    intro hem
    have := hs.short hem n p hp
    omega

theorem fetch_succeeds (offset : Int) (limit : Nat) :
    ∃ fetched, decodeFetchedFetchResponseWithResolver reader (fun _ => resolve) table bucket offset (log.fetch offset limit)
        compacted = .ok fetched ∧ offset ≤ fetched.next ∧
      fetched.inOrder = between LogEntry.offset offset fetched.next log.entries ∧
      ∀ n p, p ∈ (log.remaining offset).take n → ((log.remaining offset).take n).flatten.length ≤ limit →
        offset < fetched.next := by
  have hc : Consults (fun _ => resolve) resolve := fun _ _ _ => .inl rfl
  rcases log.fetch_decodes hc offset limit with ⟨_,_,hne⟩ | hf
  · exact absurd rfl hne
  · exact hf

theorem read_eq (offset : Int) (limits : List Nat) :
    ∃ next, log.read offset limits = .ok (next, between LogEntry.offset offset next log.entries) ∧ offset ≤ next := by
  induction limits generalizing offset with
  | nil =>
    refine ⟨offset,?_,Int.le_refl _⟩
    rw [read,between_eq_nil]
    intro e _
    omega
  | cons limit limits ih =>
    obtain ⟨fetched,hf,hle,hi,_⟩ := log.fetch_succeeds offset limit
    obtain ⟨next,hr,hn⟩ := ih fetched.next
    refine ⟨next,?_,Int.le_trans hle hn⟩
    rw [read,hf,bind_ok,hr,bind_ok,hi,← between_append log.ascending hle hn]
    rfl
end ReadableLog
end Fetches
/-- Resumed fetches deliver the records of the uncut log from the first offset up to the last one returned, and a
fetch with a whole batch beyond its offset advances. -/
theorem readableLog_read (reader : ArrowReader) (resolve : TablePath → Int → Except GoError Schema) (table : Table)
    (bucket : Int) (compacted : Bool) (log : ReadableLog reader resolve table bucket compacted) (f : Int) (limits : List Nat) :
    (∃ next, log.read f limits = .ok (next, between LogEntry.offset f next log.entries) ∧ f ≤ next) ∧
      ∀ offset limit n p, p ∈ (log.remaining offset).take n → offset < batchEnd p →
        ((log.remaining offset).take n).flatten.length ≤ limit →
        ∃ fetched, decodeFetchedFetchResponseWithResolver reader (fun _ => resolve) table bucket offset
          (log.fetch offset limit) compacted = .ok fetched ∧ offset < fetched.next := by
  refine ⟨log.read_eq f limits,?_⟩
  intro offset limit n p hp _ hlimit
  obtain ⟨fetched,hfetched,_,_,hadvances⟩ := log.fetch_succeeds offset limit
  exact ⟨fetched,hfetched,hadvances n p hp hlimit⟩

def numberLog : ReadableLog noArrow (fun _ _ => .ok numberSchema) (numberWriter none {}).table 0 true where
  batches := [4, 5, 6].map numberBatchAt
  readable := by
    intro p hp
    obtain ⟨base,hbase,rfl⟩ := mem_map.mp hp
    have hok : ∀ base ∈ [4, 5, 6], (decodeEvolvedFetchedBatch noArrow (fun _ _ => .ok numberSchema) (numberWriter none {}).table 0
        (batchBase (numberBatchAt base)).toInt (numberBatchAt base) true).isOk = true := by decide +kernel
    exact isOk_iff.mp (hok base hbase)
  continues := {
    nonempty := by decide +kernel
    consecutive := by
      simp only [map_cons,map_nil,isChain_cons_cons,isChain_singleton]
      decide +kernel }

theorem readableLog_read_numbers :
    (∃ next, numberLog.read 5 [60, 20, 70] = .ok (next, between LogEntry.offset 5 next numberLog.entries) ∧ 5 ≤ next) ∧
      ∃ fetched, decodeFetchedFetchResponseWithResolver noArrow (fun _ _ _ => .ok numberSchema) (numberWriter none {}).table 0 5
        (numberLog.fetch 5 60) true = .ok fetched ∧ 5 < fetched.next := by
  have h := readableLog_read noArrow (fun _ _ => .ok numberSchema) (numberWriter none {}).table 0 true numberLog 5 [60, 20, 70]
  have hmem : numberBatchAt 5 ∈ (numberLog.remaining 5).take 1 := by decide +kernel
  exact ⟨h.1,h.2 5 60 1 (numberBatchAt 5) hmem (by decide +kernel) (by decide +kernel)⟩
end FlussGo
