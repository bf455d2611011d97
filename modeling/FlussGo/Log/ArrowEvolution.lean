import FlussGo.Log.Arrow
/-!
# Rows and Arrow batches under schema evolution

Both readers use one column mapping. They differ in what they do with the values: `evolveRow` rejects
a null in a required column, `evolveArrowBatch` only moves columns.
-/
namespace FlussGo
open List
variable {fields : List ArrowField}

open Outcome List Option
theorem arrowType_nullable (t : LogicalType) (nullable : Bool) :
    arrowType { t with nullable := nullable } = arrowType t := by
  cases t
  unfold arrowType
  rfl

theorem SameType.arrowType_eq {source target : Column} (h : SameType source target) :
    arrowType (logicalTypeForColumn source) = arrowType (logicalTypeForColumn target) := by
  rw [← arrowType_nullable _ false,h,arrowType_nullable]

theorem arrowField_eq_ok {name : String} {t : LogicalType} {field : ArrowField} (h : arrowField name t = .ok field) :
    arrowType t = .ok field.type := by
  obtain ⟨type,ht,h⟩ := of_bind h
  cases h
  exact ht

theorem arrowColumns_eq_ok {columns : List Column} (h : arrowColumns columns = .ok fields) :
    List.Forall₂ (fun column field => arrowType (logicalTypeForColumn column) = .ok field.type) columns fields := by
  induction columns generalizing fields with
  | nil =>
    cases h
    exact .nil
  | cons column columns ih =>
    obtain ⟨field,hf,h⟩ := of_bind h
    obtain ⟨rest,hr,h⟩ := of_bind h
    cases h
    exact .cons (arrowField_eq_ok (mapErr_eq_ok.mp hf)) (ih hr)

theorem Schema.arrowSchema_eq_ok {s : Schema} (h : s.arrowSchema = .ok fields) :
    List.Forall₂ (fun column field => arrowType (logicalTypeForColumn column) = .ok field.type) s.columns fields := by
  obtain ⟨_,h⟩ := of_seq h
  exact arrowColumns_eq_ok h

mutual
theorem arrowType_sat : ∀ t : LogicalType, (arrowType t).Safe
  | ⟨root,nullable,length,precision,scale,element,key,value,fields⟩ => by
    have hf := arrowFields_sat fields
    have he : ∀ e, element = some e → (arrowType e).Safe := by
      rintro e rfl
      exact arrowType_sat e
    have hkey : ∀ k, key = some k → (arrowType k).Safe := by
      rintro k rfl
      exact arrowType_sat k
    have hv : ∀ v, value = some v → (arrowType v).Safe := by
      rintro v rfl
      exact arrowType_sat v
    unfold arrowType
    cases dataTypeOfRoot root with
    | binary | decimal =>
      dsimp only
      split <;> simp
    | time =>
      dsimp only [arrowTimeType]
      split
      · simp
      split
      · simp
      · split
        · simp
        · split <;> simp
    | array =>
      cases element with
      | none => simp
      | some e => exact (he e rfl).bind fun _ _ _ => trivial
    | map =>
      cases key with
      | none => simp
      | some k =>
        cases value with
        | none => simp
        | some v => exact (hkey k rfl).bind fun _ _ _ => (hv v rfl).bind fun _ _ _ => trivial
    | row => exact hf.bind fun _ _ _ => trivial
    | _ => simp

theorem arrowFields_sat : ∀ fields : List LogicalField, (arrowFields fields).Safe
  | [] => by simp [arrowFields]
  | ⟨name,type,description,id⟩ :: fields => by
    unfold arrowFields
    exact (arrowType_sat type).mapErr.bind fun _ _ _ => (arrowFields_sat fields).bind fun _ _ _ => trivial
end

theorem arrowColumns_sat (columns : List Column) : (arrowColumns columns).Safe := by
  induction columns with
  | nil => simp [arrowColumns]
  | cons column columns ih =>
    have hf : (arrowField column.name (logicalTypeForColumn column)).Safe :=
      (arrowType_sat _).bind fun _ _ _ => trivial
    exact hf.mapErr.bind fun _ _ _ => ih.bind fun _ _ _ => trivial

theorem Schema.arrowSchema_sat (s : Schema) : s.arrowSchema.Safe :=
  s.validate_refuses.1.bind fun _ _ _ => arrowColumns_sat s.columns
/-- The value that a mapping takes from a row. -/
def pickValue (row : Row) : Option Nat → Value
  | none => .nil
  | some i => row.getD i .nil

section
variable {source target : Schema} {mapping : List (Option Nat)} {record : ArrowRecord} {fields : List ArrowField}

theorem evolveColumns_pick {row : Row} {targets : List Column} {result : Row}
    (hl : mapping.length = targets.length) (h : evolveColumns row targets mapping = .ok result) :
    result = mapping.map (pickValue row) := by
  induction targets generalizing mapping result with
  | nil =>
    obtain rfl := length_eq_zero_iff.mp hl
    exact (ok.inj h).symm
  | cons t targets ih =>
    cases mapping with
    | nil => simp at hl
    | cons index mapping =>
      obtain ⟨v,hv,h⟩ := of_bind h
      obtain ⟨vs,hvs,h⟩ := of_bind h
      cases h
      rw [map_cons,ih (by simpa using hl) hvs]
      congr 1
      cases index with
      | none => exact (ok.inj hv).symm
      | some i => simp [pickValue,List.getD,((evolveColumn_of_some v).mp hv).1]

def pickArray (record : ArrowRecord) (field : ArrowField) : Option Nat → ArrowArray
  | none => makeArrayOfNull field.type record.numRows
  | some i => record.columns.getD i (makeArrayOfNull field.type record.numRows)

theorem evolveArrowColumns_eq (hm : ∀ i, some i ∈ mapping → i < record.columns.length) :
    evolveArrowColumns record fields mapping = .ok (zipWith (pickArray record) fields mapping) := by
  induction fields generalizing mapping with
  | nil => simp [evolveArrowColumns]
  | cons field fields ih =>
    cases mapping with
    | nil => simp [evolveArrowColumns]
    | cons index mapping =>
      have hr := ih fun i hi => hm i (mem_cons_of_mem _ hi)
      cases index with
      | none => simp [evolveArrowColumns,hr,pickArray]
      | some i =>
        have hlt := hm i mem_cons_self
        simp [evolveArrowColumns,hr,pickArray,ArrowRecord.column,getElem?_eq_getElem hlt]

theorem schemaColumnMapping_lt (h : schemaColumnMapping source target = .ok mapping) (i : Nat) (hi : some i ∈ mapping) :
    i < source.columns.length :=
  (mapColumns_sat (finds_matchColumn source target) target.columns).of_ok h i hi

private theorem mapColumn_arrowType {find : Column → Option Nat} {t : Column} {i : Nat}
    (h : mapColumn source find t = .ok (some i)) : ∃ column, source.columns[i]? = some column ∧
      arrowType (logicalTypeForColumn column) = arrowType (logicalTypeForColumn t) := by
  cases hf : find t with
  | none =>
    have := ((mapColumn_of_none hf _).mp h).2
    cases this
  | some j =>
    obtain ⟨⟨column,hco,hc⟩,hj⟩ := (mapColumn_of_some hf _).mp h
    cases hj
    exact ⟨column,hco,SameType.arrowType_eq ((compatibleColumnType_iff column t).mp hc)⟩

private theorem pickArray_fits (hs : source.arrowSchema = .ok fields)
    (hr : record.Conforms fields) {find : Column → Option Nat} {t : Column} {field : ArrowField} {index : Option Nat}
    (hi : mapColumn source find t = .ok index) (hf : arrowType (logicalTypeForColumn t) = .ok field.type) :
    (pickArray record field index).values.length = record.numRows ∧ (pickArray record field index).type = field.type := by
  cases index with
  | none => simp [pickArray,makeArrayOfNull]
  | some i =>
    obtain ⟨column,hc,ht⟩ := mapColumn_arrowType hi
    have hle := (Schema.arrowSchema_eq_ok hs).length_eq
    have hlt : i < source.columns.length := (List.getElem?_eq_some_iff.mp hc).1
    have hltF : i < fields.length := hle ▸ hlt
    have hl : i < record.columns.length := hr.length_eq ▸ hltF
    have hp : pickArray record field (some i) = record.columns[i] := by
      simp [pickArray,getElem?_eq_getElem hl]
    rw [hp]
    refine ⟨hr.lengths _ (getElem_mem hl),?_⟩
    have hsa : record.columns[i].type = fields[i].type := by
      have := congrArg (·[i]?) hr.types
      simpa [hl,hltF] using this
    have ha := (forall₂_iff_get.mp (Schema.arrowSchema_eq_ok hs)).2 i hlt hltF
    rw [hsa]
    have hco : source.columns[i] = column := some.inj ((getElem?_eq_getElem hlt).symm.trans hc)
    simp only [get_eq_getElem,hco] at ha
    exact ok.inj (ha.symm.trans (ht.trans hf))

private theorem forall₂_zipWith {α β γ δ : Type} {R : α → β → Prop} {S : α → γ → Prop} {Q : β → δ → Prop}
    {f : β → γ → δ} {as : List α} {bs : List β} {cs : List γ} (hR : List.Forall₂ R as bs) (hS : List.Forall₂ S as cs)
    (h : ∀ a b c, R a b → S a c → Q b (f b c)) : List.Forall₂ Q bs (zipWith f bs cs) := by
  induction hR generalizing cs with
  | nil => exact .nil
  | cons hab _ ih =>
    cases hS with
    | cons hac hr => exact .cons (h _ _ _ hab hac) (ih hr)
/-- What the columns of the evolved batch are, once the mapping is known. -/
theorem evolveArrowBatch_eq {batch : ArrowLogBatch} {targetFields : List ArrowField}
    (hb : batch.record = some record) (hs : source.arrowSchema = .ok fields) (hr : record.Conforms fields)
    (ht : target.arrowSchema = .ok targetFields) (hm : schemaColumnMapping source target = .ok mapping) :
    evolveArrowBatch batch source target = .ok { batch with
      record := some ⟨targetFields,zipWith (pickArray record) targetFields mapping,record.numRows⟩ } := by
  have hmap := mapColumns_eq_ok hm
  have hc : evolveArrowColumns record targetFields mapping = .ok (zipWith (pickArray record) targetFields mapping) := by
    apply evolveArrowColumns_eq
    intro i hi
    rw [hr.length_eq,← (Schema.arrowSchema_eq_ok hs).length_eq]
    exact schemaColumnMapping_lt hm i hi
  have hfi : List.Forall₂ (fun field column => column.values.length = record.numRows ∧ column.type = field.type)
      targetFields (zipWith (pickArray record) targetFields mapping) :=
    forall₂_zipWith (Schema.arrowSchema_eq_ok ht) hmap fun t field index hf hin =>
      pickArray_fits hs hr hin hf
  rw [evolveArrowBatch,hm,bind_ok,ht,bind_ok,hb]
  dsimp only
  rw [hc,bind_ok,newRecordBatch_eq hfi]
  rfl

theorem row_zipWith_pickArray {targetFields : List ArrowField} {numRows k : Nat}
    (hl : mapping.length = targetFields.length) (hm : ∀ i, some i ∈ mapping → i < record.columns.length) :
    ArrowRecord.row ⟨targetFields,zipWith (pickArray record) targetFields mapping,numRows⟩ k =
      mapping.map (pickValue (record.row k)) := by
  unfold ArrowRecord.row
  rw [map_zipWith]
  induction mapping generalizing targetFields with
  | nil => simp
  | cons index mapping ih =>
    cases targetFields with
    | nil => simp at hl
    | cons field fields =>
      rw [zipWith_cons_cons,map_cons,ih (by simpa using hl) fun i hi => hm i (mem_cons_of_mem _ hi)]
      congr 1
      cases index with
      | none =>
        simp only [pickArray,makeArrayOfNull,pickValue,getD_eq_getElem?_getD,getElem?_replicate]
        split <;> rfl
      | some i =>
        have hlt := hm i mem_cons_self
        simp [pickArray,pickValue,hlt]
/-- No required target column takes its values from a source column that is null in the row. -/
def FillsRequired (row : Row) (targets : List Column) (mapping : List (Option Nat)) : Prop :=
  ∀ (j : Nat) (t : Column) (i : Nat), targets[j]? = some t → mapping[j]? = some (some i) → t.nullable = false →
    row[i]? ≠ some .nil

theorem evolveColumns_succeeds_iff {row : Row} {targets : List Column} (hl : mapping.length = targets.length)
    (hm : ∀ i, some i ∈ mapping → i < row.length) :
    (∃ result, evolveColumns row targets mapping = .ok result) ↔ FillsRequired row targets mapping := by
  induction targets generalizing mapping with
  | nil =>
    obtain rfl := length_eq_zero_iff.mp hl
    simp [evolveColumns,FillsRequired]
  | cons t targets ih =>
    cases mapping with
    | nil => simp at hl
    | cons index mapping =>
      have hre := ih (by simpa using hl) fun i hi => hm i (mem_cons_of_mem _ hi)
      have hh : (∃ v, evolveColumn row t index = .ok v) ↔
          ∀ i, index = some i → t.nullable = false → row[i]? ≠ some .nil := by
        cases index with
        | none => simp [evolveColumn]
        | some i =>
          have hlt := hm i mem_cons_self
          simp only [evolveColumn_of_some,getElem?_eq_getElem hlt,some.injEq]
          constructor
          · rintro ⟨v,hv,hn⟩ j hj hr
            obtain rfl := hj
            rw [getElem?_eq_getElem hlt,hv]
            intro hnil
            rw [hn (some.inj hnil)] at hr
            cases hr
          · intro h
            refine ⟨row[i],rfl,fun hnil => ?_⟩
            by_contra hr
            exact h i rfl (by simpa using hr) (by rw [getElem?_eq_getElem hlt,hnil])
      constructor
      · rintro ⟨result,h⟩
        obtain ⟨v,hv,h⟩ := of_bind h
        obtain ⟨vs,hvs,_⟩ := of_bind h
        intro j t' i ht hi
        cases j with
        | zero =>
          cases ht
          exact hh.mp ⟨v,hv⟩ i (some.inj hi)
        | succ j => exact hre.mp ⟨vs,hvs⟩ j t' i (by simpa using ht) (by simpa using hi)
      · intro h
        obtain ⟨v,hv⟩ := hh.mpr fun i hi => h 0 t i rfl (congrArg some hi)
        obtain ⟨vs,hvs⟩ := hre.mpr fun j t' i ht hi => h (j + 1) t' i (by simpa using ht) (by simpa using hi)
        exact ⟨v :: vs,bind_eq_ok.mpr ⟨v,hv,bind_eq_ok.mpr ⟨vs,hvs,rfl⟩⟩⟩
end

def heldRecord (fields : List ArrowField) (rows : List Row) : ArrowRecord where
  schema := fields
  columns := fields.mapIdx fun i field => ⟨field.type,rows.map fun row => row.getD i .nil⟩
  numRows := rows.length

theorem heldRecord_conforms (fields : List ArrowField) (rows : List Row) :
    (heldRecord fields rows).Conforms fields := by
  constructor
  · apply ext_getElem?
    intro i
    simp [heldRecord]
    cases fields[i]? <;> simp
  · intro column hc
    obtain ⟨i,hi,rfl⟩ := mem_mapIdx.mp hc
    simp [heldRecord]

theorem heldRecord_row {rows : List Row} {k : Nat} {row : Row} (hrow : rows[k]? = some row)
    (hlength : row.length = fields.length) : (heldRecord fields rows).row k = row := by
  apply ext_getElem?
  intro i
  by_cases hi : i < fields.length
  · simp [ArrowRecord.row,heldRecord,hrow,hi,hlength]
  · simp [ArrowRecord.row,heldRecord,getElem?_eq_none (Nat.not_lt.mp hi),hlength ▸ hi]
/-- The two ways to read the same rows agree. -/
structure ReadsAlike (source target : Schema) (rows : List Row) (batch : ArrowLogBatch) : Prop where
  succeeds : (∃ evolved, evolveArrowBatch batch source target = .ok evolved) ↔
    ∀ row ∈ rows, ∃ result, evolveRow source target row = .ok result
  values : ∀ evolved, evolveArrowBatch batch source target = .ok evolved → ∃ record, evolved.record = some record ∧
    record.numRows = rows.length ∧ ∀ (k : Nat) (row result : Row), rows[k]? = some row →
      evolveRow source target row = .ok result → record.row k = result
/-- No row has a null where the target requires a value. -/
def RequiredFilled (source target : Schema) (rows : List Row) : Prop :=
  ∀ mapping, schemaColumnMapping source target = .ok mapping → ∀ row ∈ rows, FillsRequired row target.columns mapping
/-- Rows and Arrow batches evolve alike exactly when no required target column takes a null. -/
theorem evolveArrowBatch_alike_iff (source target : Schema) (fields targetFields : List ArrowField) (rows : List Row)
    (batch : ArrowLogBatch) (hsource : source.arrowSchema = .ok fields) (htarget : target.arrowSchema = .ok targetFields)
    (hne : rows ≠ []) (hrows : ∀ row ∈ rows, row.length = source.columns.length)
    (hbatch : batch.record = some (heldRecord fields rows)) :
    ReadsAlike source target rows batch ↔ RequiredFilled source target rows := by
  have hfields := (Schema.arrowSchema_eq_ok hsource).length_eq
  have hevolve : ∀ row ∈ rows, evolveRow source target row =
      (schemaColumnMapping source target >>= evolveColumns row target.columns) := by
    intro row hrow
    rw [evolveRow,if_neg (by simpa using hrows row hrow)]
  rcases (mapColumns_sat (finds_matchColumn source target) target.columns).ok_or_err with ⟨mapping,hmapping⟩ | ⟨e,herr⟩
  · replace hmapping : schemaColumnMapping source target = .ok mapping := hmapping
    have hlength : mapping.length = target.columns.length := (mapColumns_eq_ok hmapping).length_eq.symm
    have harrow := evolveArrowBatch_eq hbatch hsource (heldRecord_conforms fields rows) htarget hmapping
    have hsucceeds : ∀ row ∈ rows, (∃ result, evolveRow source target row = .ok result) ↔
        FillsRequired row target.columns mapping := by
      intro row hrow
      rw [hevolve row hrow,hmapping]
      exact evolveColumns_succeeds_iff hlength fun i hi => (hrows row hrow).symm ▸ schemaColumnMapping_lt hmapping i hi
    constructor
    · intro halike mapping' hmapping' row hrow
      obtain rfl := ok.inj (hmapping.symm.trans hmapping')
      exact (hsucceeds row hrow).mp (halike.succeeds.mp ⟨_,harrow⟩ row hrow)
    intro hfilled
    refine ⟨⟨fun _ row hrow => (hsucceeds row hrow).mpr (hfilled mapping hmapping row hrow),fun _ => ⟨_,harrow⟩⟩,?_⟩
    intro evolved hevolved
    cases harrow.symm.trans hevolved
    refine ⟨_,rfl,rfl,fun k row result hk hresult => ?_⟩
    have hrow := mem_of_getElem? hk
    rw [hevolve row hrow,hmapping] at hresult
    rw [evolveColumns_pick hlength hresult,row_zipWith_pickArray,heldRecord_row hk ((hrows row hrow).trans hfields)]
    · rw [hlength,(Schema.arrowSchema_eq_ok htarget).length_eq]
    · intro i hi
      rw [(heldRecord_conforms fields rows).length_eq,← hfields]
      exact schemaColumnMapping_lt hmapping i hi
  · replace herr : schemaColumnMapping source target = .err e := herr
    have harrow : evolveArrowBatch batch source target = .err e := by rw [evolveArrowBatch,herr,bind_err]
    constructor
    · intro _ mapping hmapping
      rw [herr] at hmapping
      cases hmapping
    intro _
    refine ⟨⟨?_,fun hall => ?_⟩,?_⟩
    · rintro ⟨evolved,hevolved⟩
      rw [harrow] at hevolved
      cases hevolved
    · obtain ⟨row,hrow⟩ := exists_mem_of_ne_nil _ hne
      obtain ⟨result,hresult⟩ := hall row hrow
      rw [hevolve row hrow,herr] at hresult
      cases hresult
    · intro evolved hevolved
      rw [harrow] at hevolved
      cases hevolved
/-- Notes that may be missing, and the same column after it became required. -/
def noteSchema : Schema where
  columns := [{ name := "id", type := .int, id := 0 }, { name := "note", type := .string, nullable := true, id := 1 }]
  highestFieldID := 1

def requiredNoteSchema : Schema where
  columns := [{ name := "note", type := .string, id := 1 }, { name := "number", type := .int, id := 0 }]
  highestFieldID := 1

def noteFields : List ArrowField := [⟨"id",.int32,false⟩, ⟨"note",.string,true⟩]

def requiredNoteFields : List ArrowField := [⟨"note",.string,false⟩, ⟨"number",.int32,false⟩]

def noteBatch (rows : List Row) : ArrowLogBatch where
  magic := 0
  baseOffset := 0
  commitTime := 0
  schemaID := 1
  appendOnly := true
  writerID := 0
  batchSequence := 0
  record := some (heldRecord noteFields rows)
  changes := rows.map fun _ => .append

theorem evolveArrowBatch_alike_notes :
    ReadsAlike noteSchema requiredNoteSchema [[.int32 1, .string [65]]] (noteBatch [[.int32 1, .string [65]]]) := by
  refine (evolveArrowBatch_alike_iff noteSchema requiredNoteSchema noteFields requiredNoteFields [[.int32 1, .string [65]]]
    (noteBatch [[.int32 1, .string [65]]]) rfl rfl (by simp) (by simp [noteSchema]) rfl).mpr ?_
  intro mapping hmapping row hrow j t i ht hi _
  obtain rfl := mem_singleton.mp hrow
  obtain rfl : [some 1, some 0] = mapping := ok.inj hmapping
  rcases j with _ | _ | j
  · obtain rfl := some.inj (some.inj hi)
    simp
  · obtain rfl := some.inj (some.inj hi)
    simp
  · simp at hi
/-- A null of a column that became required: the Arrow reader returns it, the row reader fails. -/
theorem evolveArrowBatch_accepts_null :
    noteSchema.arrowSchema = .ok noteFields ∧ requiredNoteSchema.arrowSchema = .ok requiredNoteFields ∧
      (∃ evolved record, evolveArrowBatch (noteBatch [[.int32 1, .nil]]) noteSchema requiredNoteSchema = .ok evolved ∧
        evolved.record = some record ∧ record.row 0 = [.nil, .int32 1]) ∧
      (∃ err, evolveRow noteSchema requiredNoteSchema [.int32 1, .nil] = .err err ∧ err.sentinel = some .invalidSchema) ∧
      ¬ ReadsAlike noteSchema requiredNoteSchema [[.int32 1, .nil]] (noteBatch [[.int32 1, .nil]]) := by
  have hrow : ∃ err, evolveRow noteSchema requiredNoteSchema [.int32 1, .nil] = .err err ∧
      err.sentinel = some .invalidSchema := ⟨_,rfl,rfl⟩
  have harrow : ∃ evolved record, evolveArrowBatch (noteBatch [[.int32 1, .nil]]) noteSchema requiredNoteSchema = .ok evolved ∧
      evolved.record = some record ∧ record.row 0 = [.nil, .int32 1] := ⟨_,_,rfl,rfl,rfl⟩
  refine ⟨rfl,rfl,harrow,hrow,fun halike => ?_⟩
  obtain ⟨evolved,_,hevolved,_⟩ := harrow
  obtain ⟨result,hresult⟩ := halike.succeeds.mp ⟨evolved,hevolved⟩ _ mem_cons_self
  obtain ⟨err,herr,_⟩ := hrow
  cases hresult
end FlussGo
