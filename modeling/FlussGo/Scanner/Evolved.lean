import FlussGo.Scanner.Trim
/-!
# Trimmed batches after evolution

What one call of `decodeEvolvedFetchedBatch` delivers: the records of the batch from the current offset on,
the last ones of what it delivers from its base offset.
-/
namespace FlussGo
open Outcome List ArrowLogBatch
section Records
variable {source target : Schema}

theorem evolveRow_sat (source target : Schema) (row : Row) : (evolveRow source target row).Safe := by
  unfold evolveRow
  split
  · simp
  next hl =>
    refine Outcome.Sat.bind (mapColumns_sat (finds_matchColumn source target) target.columns) fun mapping _ hm => ?_
    exact evolveColumns_sat fun i hi => (not_not.mp hl).symm ▸ hm i hi

theorem evolveScanRecords_sat (source target : Schema) (records : List ScanRecord) :
    (evolveScanRecords source target records).Sat fun evolved =>
      evolved.map (·.record.entry.offset) = records.map (·.record.entry.offset) := by
  induction records with
  | nil => simp [evolveScanRecords]
  | cons r records ih =>
    refine (evolveRow_sat source target r.record.value).bind fun row _ _ => ih.bind fun rest _ hr => ?_
    rw [pure_eq,sat_ok,map_cons,map_cons,hr]
    rfl

theorem evolveScanRecords_drop {records evolved : List ScanRecord}
    (h : evolveScanRecords source target records = .ok evolved)
    (n : Nat) : evolveScanRecords source target (records.drop n) = .ok (evolved.drop n) := by
  induction records generalizing evolved n with
  | nil =>
    cases h
    simp [evolveScanRecords]
  | cons r records ih =>
    cases n with
    | zero => simpa using h
    | succ n =>
      obtain ⟨row,_,h⟩ := of_bind h
      obtain ⟨rest,hr,h⟩ := of_bind h
      cases h
      exact ih hr n
end Records

section Arrow
variable {source target : Schema} {batch : ArrowLogBatch} {record : ArrowRecord} {fields : List ArrowField}

theorem ArrowRecord.Conforms.newSlice (h : record.Conforms fields) (start : Nat) :
    (record.newSlice start record.numRows).Conforms fields := by
  constructor
  · simpa [ArrowRecord.newSlice,Function.comp_def] using h.types
  · intro column hc
    obtain ⟨whole,hw,rfl⟩ := mem_map.mp hc
    simp [ArrowRecord.newSlice,h.lengths whole hw]

theorem evolveArrowBatch_sat (hr : batch.record = some record) (hs : source.arrowSchema = .ok fields)
    (hc : record.Conforms fields) : (evolveArrowBatch batch source target).Sat fun evolved =>
      ∃ record', evolved = { batch with record := some record' } ∧ record'.numRows = record.numRows := by
  rcases (mapColumns_sat (finds_matchColumn source target) target.columns).ok_or_err with ⟨mapping,hm⟩ | ⟨e,herr⟩
  · rcases target.arrowSchema_sat.ok_or_err with ⟨targetFields,ht⟩ | ⟨e,herr⟩
    · rw [evolveArrowBatch_eq hr hs hc ht hm]
      exact ⟨_,rfl,rfl⟩
    · rw [evolveArrowBatch,show schemaColumnMapping source target = .ok mapping from hm,bind_ok,herr]
      trivial
  · rw [evolveArrowBatch,show schemaColumnMapping source target = .err e from herr]
    trivial

private theorem pickArray_newSlice (record : ArrowRecord) (start : Nat) (field : ArrowField) (index : Option Nat) :
    pickArray (record.newSlice start record.numRows) field index = { pickArray record field index with
        values := ((pickArray record field index).values.take record.numRows).drop start } := by
  cases index with
  | none => simp [pickArray,makeArrayOfNull,ArrowRecord.newSlice]
  | some i =>
    simp only [pickArray,ArrowRecord.newSlice,getD_eq_getElem?_getD,getElem?_map]
    cases record.columns[i]? with
    | none => simp [makeArrayOfNull]
    | some column => simp

theorem evolveArrowBatch_slice {evolved : ArrowLogBatch} (hr : batch.record = some record)
    (hs : source.arrowSchema = .ok fields) (hc : record.Conforms fields)
    (h : evolveArrowBatch batch source target = .ok evolved) (start : Nat) :
    evolveArrowBatch (sliceArrowLogBatch batch start record.numRows) source target =
      .ok (sliceArrowLogBatch evolved start record.numRows) := by
  obtain ⟨mapping,hm,hre⟩ := of_bind h
  obtain ⟨targetFields,ht,_⟩ := of_bind hre
  rw [evolveArrowBatch_eq hr hs hc ht hm] at h
  cases h
  have hsl : (sliceArrowLogBatch batch start record.numRows).record = some (record.newSlice start record.numRows) := by
    simp [sliceArrowLogBatch,hr]
  have hco : List.zipWith (pickArray (record.newSlice start record.numRows)) targetFields mapping =
      (List.zipWith (pickArray record) targetFields mapping).map fun column =>
        { column with values := (column.values.take record.numRows).drop start } := by
    rw [map_zipWith]
    congr 1
    funext field index
    exact pickArray_newSlice record start field index
  rw [evolveArrowBatch_eq hsl hs (hc.newSlice start) ht hm,hco]
  rfl
end Arrow
/-- The two evolution steps of `decodeEvolvedFetchedBatch`. -/
def evolveResult (source target : Schema) (r : BatchResult) : Go BatchResult := do
  let rows ← evolveScanRecords source target r.rows
  let arrow ← evolveScanArrow source target r.arrow
  return { next := r.next, rows := rows, arrow := arrow }

section Results
variable {source target : Schema} {c : BatchContent} {bucket current : Int}

private theorem ArrowLogBatch.entries_offsets {batch : ArrowLogBatch} {record record' : ArrowRecord}
    (hr : batch.record = some record) (hro : record'.numRows = record.numRows) :
    ({ batch with record := some record' } : ArrowLogBatch).entries.map (·.offset) = batch.entries.map (·.offset) := by
  simp [entries,hr,hro,Function.comp_def,entry]
/-- The Arrow batch of a result, where there is one, still fits its schema. -/
def BatchResult.Backed (schema : Schema) (r : BatchResult) : Prop :=
  ∀ bucket batch, r.arrow = some ⟨bucket,batch⟩ → ∃ record fields, batch.record = some record ∧
    schema.arrowSchema = .ok fields ∧ record.Conforms fields

theorem BatchContent.Backed.trim (h : c.Backed source) (bucket current : Int) :
    (c.trim bucket current).Backed source := by
  cases c with
  | rows batch =>
    intro _ _ hn
    cases hn
  | arrow batch record =>
    obtain ⟨hr,_,fields,hf,hc⟩ := h
    intro b sliced hs
    simp only [BatchContent.trim] at hs
    split at hs
    · cases hs
    split at hs
    · obtain ⟨_,rfl⟩ := ScanArrowBatch.mk.inj (Option.some.inj hs)
      exact ⟨_,fields,by rw [sliceArrowLogBatch,hr]; rfl,hf,hc.newSlice _⟩
    · obtain ⟨_,rfl⟩ := ScanArrowBatch.mk.inj (Option.some.inj hs)
      exact ⟨record,fields,hr,hf,hc⟩

theorem evolveResult_sat {r : BatchResult} (h : r.Backed source) (target : Schema) :
    (evolveResult source target r).Sat fun evolved =>
      evolved.next = r.next ∧ evolved.entries.map (·.offset) = r.entries.map (·.offset) := by
  refine (evolveScanRecords_sat source target r.rows).bind fun rows _ hro => ?_
  have ha : (evolveScanArrow source target r.arrow).Sat fun arrow =>
      (arrow.toList.flatMap (·.batch.entries)).map (·.offset) = (r.arrow.toList.flatMap (·.batch.entries)).map (·.offset) := by
    cases hr : r.arrow with
    | none => simp [evolveScanArrow]
    | some a =>
      obtain ⟨record,fields,hre,hf,hc⟩ := h a.bucket a.batch hr
      refine (evolveArrowBatch_sat hre hf hc).bind fun evolved _ he => ?_
      obtain ⟨record',rfl,hco⟩ := he
      simpa using entries_offsets hre hco
  refine ha.bind fun arrow _ ha => ⟨rfl,?_⟩
  simp only [BatchResult.entries,map_append,map_map]
  rw [ha]
  congr 1
/-- A batch evolves from any offset on when it evolves from its base, with the same last records. -/
theorem evolveResult_trim {whole : BatchResult} (hb : c.Backed source)
    (h : evolveResult source target (c.trim bucket c.base.toInt) = .ok whole) (current : Int) :
    ∃ r, evolveResult source target (c.trim bucket current) = .ok r ∧ r.next = batchNext c.base.toInt c.count current ∧
      r.entries = whole.entries.drop (trimStart c.base.toInt c.count current) := by
  have hst : trimStart c.base.toInt c.count c.base.toInt = 0 := by simp [trimStart]
  obtain ⟨rows,hr,h⟩ := of_bind h
  obtain ⟨arrow,ha,h⟩ := of_bind h
  cases h
  cases c with
  | rows batch =>
    simp only [BatchContent.base,BatchContent.count] at hst ⊢
    simp only [BatchContent.base,BatchContent.trim,hst,drop_zero] at hr ha
    cases ha
    have hd := evolveScanRecords_drop hr (trimStart batch.baseOffset.toInt batch.records.length current)
    rw [← map_drop] at hd
    refine ⟨⟨batchNext batch.baseOffset.toInt batch.records.length current,
      rows.drop (trimStart batch.baseOffset.toInt batch.records.length current),none⟩,?_,rfl,?_⟩
    · rw [evolveResult,BatchContent.trim]
      dsimp only
      rw [hd]
      rfl
    · simp [BatchResult.entries,map_drop]
  | arrow batch record =>
    obtain ⟨hre,hp,fields,hf,hc⟩ := hb
    simp only [BatchContent.base,BatchContent.count] at hst ⊢
    simp only [BatchContent.base,BatchContent.trim,hst,if_neg (Ne.symm hp),Nat.lt_irrefl,if_false] at hr ha
    cases hr
    obtain ⟨evolved,he,ha⟩ := of_bind ha
    cases ha
    obtain ⟨record',rfl,hco⟩ := (evolveArrowBatch_sat hre hf hc).of_ok he
    generalize hs : trimStart batch.baseOffset.toInt record.numRows current = start
    have hn : evolveScanRecords source target [] = .ok [] := rfl
    simp only [evolveResult,BatchContent.trim,hs,hn,bind_ok]
    have hle : start ≤ record.numRows := hs ▸ trimStart_le _ _ _
    split
    next hall =>
      refine ⟨_,rfl,rfl,?_⟩
      simp [BatchResult.entries,entries,hall,hco]
    split
    · have hsl := evolveArrowBatch_slice hre hf hc he start
      rw [evolveScanArrow,hsl]
      refine ⟨_,rfl,rfl,?_⟩
      have hen := @sliceArrowLogBatch_entries { batch with record := some record' } record' rfl start
      rw [hco] at hen
      simpa [BatchResult.entries] using hen
    next hz =>
      rw [evolveScanArrow,he]
      refine ⟨_,rfl,rfl,?_⟩
      simp [Nat.eq_zero_of_not_pos hz]
      rfl
end Results
end FlussGo
