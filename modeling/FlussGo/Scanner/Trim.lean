import FlussGo.Scanner.BatchContent
/-!
# Trimming and evolving a batch

Decoding a fetched batch is decoding its whole content and keeping the records from the current offset
on. Evolution changes values only, so it can be done before or after that.
-/
namespace FlussGo
open Outcome List ArrowLogBatch BitVec Int
/-- The whole of a decoded batch. -/
inductive BatchContent where
  | rows (batch : LogBatch)
  | arrow (batch : ArrowLogBatch) (record : ArrowRecord)

def BatchContent.base : BatchContent → BitVec 64
  | .rows batch => batch.baseOffset
  | .arrow batch _ => batch.baseOffset

def BatchContent.count : BatchContent → Nat
  | .rows batch => batch.records.length
  | .arrow _ record => record.numRows

def BatchContent.entries : BatchContent → List LogEntry
  | .rows batch => batch.records.map Record.entry
  | .arrow batch record => (List.range record.numRows).map (batch.entry record)

def decodeContent (reader : ArrowReader) (schema : Schema) (payload : Bytes) (compacted : Bool) : Go BatchContent :=
  match decodeLogBatchRows schema payload compacted with
  | .ok batch => .ok (.rows batch)
  | .panic cause => .panic cause
  | .err rowErr => do
    let fields ← schema.arrowSchema
    let batch ← (decodeArrowLogBatch reader fields payload).mapErr rowErr.join
    match batch.record with
    | none => .panic .nilDereference
    | some record => return .arrow batch record
/-- The number of records before the current offset. -/
def trimStart (base : Int) (count : Nat) (current : Int) : Nat := min (current - base).toNat count

theorem trimStart_le (base : Int) (count : Nat) (current : Int) :
    trimStart base count current ≤ count := Nat.min_le_right _ _

def batchNext (base : Int) (count : Nat) (current : Int) : Int := if count = 0 then current else max current (base + count)

def OffsetsFit (base : Int) (count : Nat) : Prop := count = 0 ∨ base + count ≤ maxInt64

instance (base : Int) (count : Nat) : Decidable (OffsetsFit base count) := inferInstanceAs (Decidable (_ ∨ _))

theorem fetchedBatchOffsets_eq {base current : Int} {count : Nat} (h : OffsetsFit base count) :
    fetchedBatchOffsets base count current = .ok (trimStart base count current, batchNext base count current) := by
  rw [fetchedBatchOffsets,if_neg (by omega)]
  by_cases hz : count = 0
  · rw [if_pos (by omega),trimStart,batchNext,if_pos hz,hz,Nat.min_zero]
    rfl
  · have hfit : base + count ≤ maxInt64 := h.resolve_left hz
    rw [if_neg (by omega),if_neg (by omega)]
    simp only [trimStart,batchNext,if_neg hz,ok.injEq,Prod.mk.injEq]
    constructor <;> split <;> (try split) <;> omega

theorem fetchedBatchOffsets_overflow {base current : Int} {count : Nat} (h : ¬ OffsetsFit base count) :
    fetchedBatchOffsets base count current = failf .malformedRecordBatch "log batch offset overflow" := by
  unfold OffsetsFit at h
  rw [fetchedBatchOffsets,if_neg (by omega),if_neg (by omega),if_pos (by omega)]

theorem fetchedBatchOffsets_eq_ok {base current : Int} {count : Nat} {r : Int × Int}
    (h : fetchedBatchOffsets base count current = .ok r) : OffsetsFit base count := by
  by_contra hfit
  rw [fetchedBatchOffsets_overflow hfit] at h
  simp at h
/-- The records of a batch from the current offset on. -/
def BatchContent.trim (bucket current : Int) : BatchContent → BatchResult
  | .rows batch =>
    { next := batchNext batch.baseOffset.toInt batch.records.length current
      rows := (batch.records.drop (trimStart batch.baseOffset.toInt batch.records.length current)).map (⟨bucket,·⟩) }
  | .arrow batch record =>
    let start := trimStart batch.baseOffset.toInt record.numRows current
    { next := batchNext batch.baseOffset.toInt record.numRows current
      arrow :=
        if start = record.numRows then none
        else if 0 < start then some ⟨bucket,sliceArrowLogBatch batch start record.numRows⟩
        else some ⟨bucket,batch⟩ }

theorem BatchContent.trim_next (c : BatchContent) (bucket current : Int) :
    (c.trim bucket current).next = batchNext c.base.toInt c.count current := by
  cases c <;> rfl

section Decode
private theorem sliceFrom_eq {α : Type} {values : List α} {start : Nat} (h : start ≤ values.length) :
    sliceFrom values start = .ok (values.drop start) := by
  rw [sliceFrom,if_pos (by omega),toNat_natCast]

open BatchContent
theorem decodeFetchedBatch_eq (reader : ArrowReader) (schema : Schema) (bucket current : Int) (p : Bytes)
    (compacted : Bool) : decodeFetchedBatch reader schema bucket current p compacted =
      (decodeContent reader schema p compacted >>= fun c =>
        fetchedBatchOffsets c.base.toInt c.count current >>= fun _ => .ok (c.trim bucket current)) := by
  unfold decodeContent decodeFetchedBatch
  cases decodeLogBatchRows schema p compacted with
  | panic cause => rfl
  | ok batch =>
    rw [bind_ok]
    dsimp only [BatchContent.base,BatchContent.count]
    by_cases hfit : OffsetsFit batch.baseOffset.toInt batch.records.length
    · rw [fetchedBatchOffsets_eq hfit,bind_ok,bind_ok]
      rw [sliceFrom_eq (trimStart_le _ _ _)]
      rfl
    · rw [fetchedBatchOffsets_overflow hfit]
      rfl
  | err rowErr =>
    dsimp only
    cases schema.arrowSchema with
    | err e => rfl
    | panic cause => rfl
    | ok fields =>
      rw [bind_ok,bind_ok]
      cases (decodeArrowLogBatch reader fields p).mapErr rowErr.join with
      | err e => rfl
      | panic cause => rfl
      | ok batch =>
        rw [bind_ok,bind_ok,numRows]
        cases batch.record with
        | none => rfl
        | some record =>
          dsimp only
          rw [bind_ok,pure_eq,bind_ok]
          dsimp only [BatchContent.base,BatchContent.count]
          by_cases hfit : OffsetsFit batch.baseOffset.toInt record.numRows
          · rw [fetchedBatchOffsets_eq hfit,bind_ok,bind_ok]
            dsimp only [BatchContent.trim]
            simp only [Nat.cast_inj,natCast_pos,toNat_natCast,pure_eq]
            split
            · rfl
            · split <;> rfl
          · rw [fetchedBatchOffsets_overflow hfit]
            rfl
end Decode

section Entries
/-- The records carry the consecutive offsets that start with the base. -/
def BatchContent.Numbered (c : BatchContent) : Prop :=
  ∀ (i : Nat) (e : LogEntry), c.entries[i]? = some e → e.offset = (c.base + BitVec.ofNat 64 i).toInt
/-- The record of an Arrow batch is the one that was checked against the schema. -/
def BatchContent.Backed (schema : Schema) : BatchContent → Prop
  | .rows _ => True
  | .arrow batch record => batch.record = some record ∧ record.numRows ≠ 0 ∧
      ∃ fields, schema.arrowSchema = .ok fields ∧ record.Conforms fields

variable {reader : ArrowReader} {schema : Schema} {compacted : Bool} {p : Bytes} {c : BatchContent} {bucket current : Int}

theorem BatchContent.entries_length (c : BatchContent) : c.entries.length = c.count := by
  cases c <;> simp [entries,count]
/-- What the bytes of a batch say about its content. -/
structure ContentOf (schema : Schema) (p : Bytes) (c : BatchContent) : Prop where
  base : c.base = batchBase p
  count : c.count = batchCount p
  numbered : c.Numbered
  backed : c.Backed schema

theorem decodeContent_eq_ok (hc : decodeContent reader schema p compacted = .ok c) : ContentOf schema p c := by
  unfold decodeContent at hc
  cases hro : decodeLogBatchRows schema p compacted with
  | panic cause =>
    rw [hro] at hc
    cases hc
  | ok batch =>
    rw [hro] at hc
    cases hc
    obtain ⟨hb,hcou,ho⟩ := decodeLogBatchRows_eq_ok hro
    refine ⟨hb,hcou,fun i e he => ?_,trivial⟩
    obtain ⟨record,hr,rfl⟩ := getElem?_map.symm.trans he |> Option.map_eq_some_iff.mp
    exact congrArg BitVec.toInt ((ho i record hr).trans (by rw [← hb]; rfl))
  | err rowErr =>
    rw [hro] at hc
    obtain ⟨fields,hf,hc⟩ := of_bind hc
    obtain ⟨batch,hba,hc⟩ := of_bind hc
    have hd := decodeArrowLogBatch_eq_ok (mapErr_eq_ok.mp hba)
    cases hr : batch.record with
    | none =>
      rw [hr] at hc
      cases hc
    | some record =>
      rw [hr] at hc
      cases hc
      obtain ⟨hrow,hco,hne⟩ := hd.record record hr
      refine ⟨hd.base,hrow,fun i e he => ?_,hr,hrow ▸ hne,fields,hf,hco⟩
      obtain ⟨k,hk,rfl⟩ := Option.map_eq_some_iff.mp (getElem?_map.symm.trans he)
      obtain ⟨_,hk⟩ := List.getElem?_eq_some_iff.mp hk
      rw [getElem_range] at hk
      rw [hk]
      rfl

theorem sliceArrowLogBatch_entry (batch : ArrowLogBatch) (record : ArrowRecord) {start stop k : Nat}
    (h : start + k < stop) :
    (sliceArrowLogBatch batch start stop).entry (record.newSlice start stop) k = batch.entry record (start + k) := by
  simp [entry,sliceArrowLogBatch,ArrowRecord.row,ArrowRecord.newSlice,getElem?_take_of_lt h,
    ofNat_add,add_assoc]

theorem sliceArrowLogBatch_entries {batch : ArrowLogBatch} {record : ArrowRecord} (hr : batch.record = some record)
    (start : Nat) : (sliceArrowLogBatch batch start record.numRows).entries = batch.entries.drop start := by
  have hs : (sliceArrowLogBatch batch start record.numRows).record = some (record.newSlice start record.numRows) := by
    simp [sliceArrowLogBatch,hr]
  rw [entries,entries,hs,hr]
  apply ext_getElem
  · simp [ArrowRecord.newSlice]
  · intro i hi hi'
    simp only [ArrowRecord.newSlice,length_map,length_range] at hi
    rw [getElem_map,getElem_drop,getElem_map,getElem_range,getElem_range]
    exact sliceArrowLogBatch_entry batch record (by omega)

theorem BatchContent.trim_entries (h : c.Backed schema) (bucket current : Int) :
    (c.trim bucket current).entries = c.entries.drop (trimStart c.base.toInt c.count current) := by
  cases c with
  | rows batch =>
    simp only [trim,BatchResult.entries,entries,base,count,
      Option.toList_none,flatMap_nil,append_nil,map_map,map_drop]
    rfl
  | arrow batch record =>
    have he : entries (.arrow batch record) = batch.entries := by
      simp [entries,ArrowLogBatch.entries,h.1]
    have hl : batch.entries.length = record.numRows := by simp [ArrowLogBatch.entries,h.1]
    rw [he]
    simp only [trim,BatchResult.entries,base,count,map_nil,nil_append]
    split
    next hall =>
      rw [hall,drop_eq_nil_of_le hl.le]
      rfl
    · split
      · simp [sliceArrowLogBatch_entries h.1]
      next hz =>
        rw [Nat.eq_zero_of_not_pos hz]
        simp

theorem filter_offset_eq_drop {es : List LogEntry} {base : Int}
    (h : ∀ (i : Nat) (e : LogEntry), es[i]? = some e → e.offset = base + i) (current : Int) :
    es.filter (fun e => decide (current ≤ e.offset)) = es.drop (current - base).toNat := by
  induction es generalizing base with
  | nil => simp
  | cons e es ih =>
    have hh : e.offset = base := by simpa using h 0 e rfl
    have hr := @ih (base + 1) fun i e' he' => by
      rw [h (i + 1) e' (by simpa using he')]
      push_cast
      ring
    by_cases hle : current ≤ base
    · rw [toNat_of_nonpos (by omega),drop_zero,filter_eq_self.mpr]
      intro e' he'
      obtain ⟨i,hi⟩ := mem_iff_getElem?.mp he'
      have := h i e' hi
      simp only [decide_eq_true_eq]
      omega
    · rw [filter_cons_of_neg (by simp [hh,hle]),hr,
        show (current - base).toNat = (current - (base + 1)).toNat + 1 by omega,drop_succ_cons]

theorem drop_min_length {α : Type} {xs : List α} {count : Nat} (h : xs.length = count) (n : Nat) :
    xs.drop (min n count) = xs.drop n := by
  by_cases hle : n ≤ count
  · rw [Nat.min_eq_left hle]
  · rw [Nat.min_eq_right (by omega),drop_eq_nil_of_le (by omega),drop_eq_nil_of_le (by omega)]

theorem BatchContent.Numbered.offset_eq (h : c.Numbered) (hfit : OffsetsFit c.base.toInt c.count) {i : Nat}
    {e : LogEntry} (he : c.entries[i]? = some e) : e.offset = c.base.toInt + i := by
  have hlt : i < c.count := by
    rw [← c.entries_length]
    exact (List.getElem?_eq_some_iff.mp he).1
  have hb : c.base.toInt + c.count ≤ maxInt64 := hfit.resolve_left (by omega)
  have hlow := le_toInt c.base
  simp only [maxInt64] at hb
  rw [h i e he,toInt_add,toInt_ofNat',add_bmod_bmod,bmod_eq_of_le (by omega) (by omega)]

theorem BatchContent.trim_entries_filter (hn : c.Numbered) (hb : c.Backed schema)
    (hfit : OffsetsFit c.base.toInt c.count) (bucket current : Int) :
    (c.trim bucket current).entries = c.entries.filter (fun e => decide (current ≤ e.offset)) := by
  rw [filter_offset_eq_drop (fun i e he => hn.offset_eq hfit he),c.trim_entries hb,trimStart]
  exact drop_min_length c.entries_length _
end Entries
end FlussGo
