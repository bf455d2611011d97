import FlussGo.Schema.Validate
/-!
# Schema evolution of rows

`schema_resolver.go`: the mapping from a writer schema to the schema of the reader. Columns are matched by
field ID when both schemas look as if their IDs were assigned, and by name otherwise.
-/
namespace FlussGo
open Option Schema
variable {α : Type} {p : α → Bool} {as : List α}

open Outcome List
mutual
def LogicalType.deepEqual : LogicalType → LogicalType → Bool
  | ⟨root,nullable,length,precision,scale,element,key,value,fields⟩,
    ⟨root',nullable',length',precision',scale',element',key',value',fields'⟩ =>
    decide (root = root') && decide (nullable = nullable') && decide (length = length') &&
      decide (precision = precision') && decide (scale = scale') && deepEqualPointers element element' &&
      deepEqualPointers key key' && deepEqualPointers value value' && deepEqualFields fields fields'

def deepEqualPointers : Option LogicalType → Option LogicalType → Bool
  | none, none => true
  | some t, some t' => t.deepEqual t'
  | _, _ => false

def deepEqualFields : List LogicalField → List LogicalField → Bool
  | [], [] => true
  | ⟨name,type,description,id⟩ :: fields, ⟨name',type',description',id'⟩ :: fields' =>
    decide (name = name') && type.deepEqual type' && decide (description = description') && decide (id = id') &&
      deepEqualFields fields fields'
  | _, _ => false
end

mutual
theorem LogicalType.deepEqual_iff : ∀ t t' : LogicalType, t.deepEqual t' = true ↔ t = t'
  | ⟨root,nullable,length,precision,scale,element,key,value,fields⟩,
    ⟨root',nullable',length',precision',scale',element',key',value',fields'⟩ => by
    simp only [LogicalType.deepEqual,Bool.and_eq_true,decide_eq_true_eq,LogicalType.mk.injEq,
      deepEqualPointers_iff element,deepEqualPointers_iff key,deepEqualPointers_iff value,deepEqualFields_iff fields,
      and_assoc]

theorem deepEqualPointers_iff : ∀ t t' : Option LogicalType, deepEqualPointers t t' = true ↔ t = t'
  | none, none => by simp [deepEqualPointers]
  | none, some _ => by simp [deepEqualPointers]
  | some _, none => by simp [deepEqualPointers]
  | some t, some t' => by simp [deepEqualPointers,LogicalType.deepEqual_iff t t']

theorem deepEqualFields_iff : ∀ fields fields' : List LogicalField, deepEqualFields fields fields' = true ↔
    fields = fields'
  | [], [] => by simp [deepEqualFields]
  | [], _ :: _ => by simp [deepEqualFields]
  | ⟨_,_,_,_⟩ :: _, [] => by simp [deepEqualFields]
  | ⟨name,type,description,id⟩ :: fields, ⟨name',type',description',id'⟩ :: fields' => by
    simp only [deepEqualFields,Bool.and_eq_true,decide_eq_true_eq,LogicalType.deepEqual_iff type,deepEqualFields_iff fields,
      cons.injEq,LogicalField.mk.injEq,and_assoc]
end

mutual
def logicalFieldIDsAreZero : LogicalType → Bool
  | ⟨_,_,_,_,_,element,key,value,fields⟩ =>
    fieldIDsAreZero fields && pointedIDsAreZero element && pointedIDsAreZero key && pointedIDsAreZero value

def pointedIDsAreZero : Option LogicalType → Bool
  | none => true
  | some t => logicalFieldIDsAreZero t

def fieldIDsAreZero : List LogicalField → Bool
  | [] => true
  | ⟨_,type,_,id⟩ :: fields => decide (id = 0) && logicalFieldIDsAreZero type && fieldIDsAreZero fields
end

def Schema.hasUnassignedFieldIDs (s : Schema) : Bool :=
  if s.highestFieldID ≠ 0 then false
  else s.columns.all fun column => decide (column.id = 0) && logicalFieldIDsAreZero (logicalTypeForColumn column)

def compatibleColumnType (source target : Column) : Bool :=
  { logicalTypeForColumn source with nullable := false }.deepEqual
    { logicalTypeForColumn target with nullable := false }
/-- The position that a Go map filled in list order holds for a key: that of the last match. -/
def lastIndex {α : Type} (p : α → Bool) : List α → Option Nat
  | [] => none
  | a :: as =>
    match lastIndex p as with
    | some i => some (i + 1)
    | none => if p a then some 0 else none
/-- The source column that a target column is mapped to by ID, and by name. -/
def Schema.sourceByID (source : Schema) (target : Column) : Option Nat :=
  lastIndex (fun column => decide (column.id = target.id)) source.columns

def Schema.sourceByName (source : Schema) (target : Column) : Option Nat :=
  lastIndex (fun column => decide (column.name = target.name)) source.columns
/-- The body of the column loop of `schemaColumnMapping`; the index -1 is `none`. -/
def mapColumn (source : Schema) (find : Column → Option Nat) (target : Column) : Go (Option Nat) :=
  match find target with
  | none =>
    if target.nullable = false then
      failf .invalidSchema s!"required column {target.name.quote} does not exist in writer schema"
    else .ok none
  | some index =>
    match source.columns[index]? with
    | none => .panic .outOfRange
    | some column =>
      if compatibleColumnType column target = false then
        failf .invalidSchema s!"column {target.name.quote} changed from {column.type.text} to {target.type.text}"
      else .ok (some index)

def mapColumns (source : Schema) (find : Column → Option Nat) : List Column → Go (List (Option Nat))
  | [] => .ok []
  | target :: targets => do
    let index ← mapColumn source find target
    let mapping ← mapColumns source find targets
    return index :: mapping
/-- Field IDs are trusted when neither schema looks unassigned. -/
def stableIDs (source target : Schema) : Bool := !source.hasUnassignedFieldIDs && !target.hasUnassignedFieldIDs

def schemaColumnMapping (source target : Schema) : Go (List (Option Nat)) :=
  mapColumns source (if stableIDs source target then source.sourceByID else source.sourceByName) target.columns
/-- The body of the column loop of `evolveRow`. -/
def evolveColumn (row : Row) (target : Column) : Option Nat → Go Value
  | none => .ok .nil
  | some index =>
    match row[index]? with
    | none => .panic .outOfRange
    | some v =>
      if v.isNil ∧ target.nullable = false then
        failf .invalidSchema s!"column {target.name.quote} evolved to NOT NULL"
      else .ok v

def evolveColumns (row : Row) : List Column → List (Option Nat) → Go Row
  | target :: targets, index :: mapping => do
    let v ← evolveColumn row target index
    let vs ← evolveColumns row targets mapping
    return v :: vs
  | _, _ => .ok []

def evolveRow (source target : Schema) (row : Row) : Go Row :=
  if row.length ≠ source.columns.length then
    failf .malformedRow s!"source row has {row.length} values for {source.columns.length} columns"
  else do
    let mapping ← schemaColumnMapping source target
    evolveColumns row target.columns mapping

theorem compatibleColumnType_iff (source target : Column) : compatibleColumnType source target = true ↔
    { logicalTypeForColumn source with nullable := false } = { logicalTypeForColumn target with nullable := false } :=
  LogicalType.deepEqual_iff _ _

theorem lastIndex_eq_none : lastIndex p as = none ↔ ∀ a ∈ as, p a = false := by
  induction as with
  | nil => simp [lastIndex]
  | cons a as ih =>
    rw [lastIndex]
    cases hl : lastIndex p as with
    | some i =>
      simp only [reduceCtorEq,false_iff]
      intro hall
      have := ih.mpr fun b hb => hall b (mem_cons_of_mem _ hb)
      rw [hl] at this
      cases this
    | none =>
      have hr := ih.mp hl
      cases hp : p a <;> simp_all

theorem lastIndex_eq_some {i : Nat} (h : lastIndex p as = some i) : ∃ a, as[i]? = some a ∧ p a = true := by
  induction as generalizing i with
  | nil => simp [lastIndex] at h
  | cons a as ih =>
    rw [lastIndex] at h
    cases hl : lastIndex p as with
    | some j =>
      rw [hl] at h
      cases h
      obtain ⟨b,hb,hp⟩ := ih hl
      exact ⟨b,by simpa using hb,hp⟩
    | none =>
      rw [hl] at h
      dsimp only at h
      split at h
      next hp =>
        cases h
        exact ⟨a,by simp,hp⟩
      · cases h
/-- A way to find source columns that names only positions of the schema. -/
def Finds (source : Schema) (find : Column → Option Nat) : Prop :=
  ∀ target i, find target = some i → i < source.columns.length

theorem lastIndex_lt {i : Nat} (h : lastIndex p as = some i) : i < as.length := by
  obtain ⟨a,ha,_⟩ := lastIndex_eq_some h
  exact (List.getElem?_eq_some_iff.mp ha).1

theorem finds_sourceByID (source : Schema) : Finds source source.sourceByID := fun _ _ h => lastIndex_lt h

theorem finds_sourceByName (source : Schema) : Finds source source.sourceByName := fun _ _ h => lastIndex_lt h

section
variable {source : Schema} {find : Column → Option Nat} {row : Row} {target : Column} {targets : List Column}

theorem mapColumn_of_none (h : find target = none) (index : Option Nat) :
    mapColumn source find target = .ok index ↔ target.nullable = true ∧ index = none := by
  rw [mapColumn,h]
  cases target.nullable <;> simp [@eq_comm _ none index]

theorem mapColumn_of_some {i : Nat} (h : find target = some i) (index : Option Nat) :
    mapColumn source find target = .ok index ↔
      (∃ column, source.columns[i]? = some column ∧ compatibleColumnType column target = true) ∧ index = some i := by
  rw [mapColumn,h]
  cases hco : source.columns[i]? with
  | none => simp [hco]
  | some column => cases hc : compatibleColumnType column target <;> simp [hco,hc,@eq_comm _ (some i)]

theorem evolveColumn_of_some {i : Nat} (v : Value) : evolveColumn row target (some i) = .ok v ↔
    row[i]? = some v ∧ (v = .nil → target.nullable = true) := by
  cases hv : row[i]? with
  | none => simp [evolveColumn,hv]
  | some w =>
    simp only [evolveColumn,hv,some.injEq]
    split
    next hnil =>
      simp only [failf_ne_ok,false_iff]
      rintro ⟨rfl,hn⟩
      rw [hn ((Value.isNil_iff w).mp hnil.1)] at hnil
      cases hnil.2
    next hnil =>
      rw [ok.injEq]
      refine ⟨fun h => ⟨h,fun hv => ?_⟩,fun h => h.1⟩
      by_contra hrequired
      exact hnil ⟨by rw [h,hv]; rfl,by simpa using hrequired⟩
/-- What becomes of one target column when source columns are found by `find`. -/
def ColumnEvolves (source : Schema) (find : Column → Option Nat) (row : Row) (target : Column) (v : Value) : Prop :=
  match find target with
  | none => target.nullable = true ∧ v = .nil
  | some i => (∃ column, source.columns[i]? = some column ∧ compatibleColumnType column target = true) ∧
      row[i]? = some v ∧ (v = .nil → target.nullable = true)

theorem columnEvolves_iff (v : Value) : ColumnEvolves source find row target v ↔
    ∃ index, mapColumn source find target = .ok index ∧ evolveColumn row target index = .ok v := by
  unfold ColumnEvolves
  cases hf : find target with
  | none => simp [mapColumn_of_none hf,evolveColumn,@eq_comm _ Value.nil]
  | some i => simp [mapColumn_of_some hf,evolveColumn_of_some]
/-- `evolveRow` after its check of the length, for any way to find source columns. -/
def evolveWith (source : Schema) (find : Column → Option Nat) (targets : List Column) (row : Row) : Go Row := do
  let mapping ← mapColumns source find targets
  evolveColumns row targets mapping

theorem evolveWith_eq_ok {result : Row} :
    evolveWith source find targets row = .ok result ↔ List.Forall₂ (ColumnEvolves source find row) targets result := by
  induction targets generalizing result with
  | nil => simp [evolveWith,mapColumns,evolveColumns,@eq_comm _ []]
  | cons target targets ih =>
    rw [List.forall₂_cons_left_iff]
    constructor
    · intro h
      obtain ⟨mapping,hm,h⟩ := of_bind h
      obtain ⟨index,hi,hm⟩ := of_bind hm
      obtain ⟨rest,hr,hm⟩ := of_bind hm
      cases hm
      obtain ⟨v,hv,h⟩ := of_bind h
      obtain ⟨vs,hvs,h⟩ := of_bind h
      exact ⟨v,vs,(columnEvolves_iff v).mpr ⟨index,hi,hv⟩,
        ih.mp (bind_eq_ok.mpr ⟨rest,hr,hvs⟩),(ok.inj h).symm⟩
    · rintro ⟨v,vs,hv,hvs,rfl⟩
      obtain ⟨index,hi,hv⟩ := (columnEvolves_iff v).mp hv
      obtain ⟨rest,hr,hvs⟩ := of_bind (ih.mpr hvs)
      refine bind_eq_ok.mpr ⟨index :: rest,?_,?_⟩
      · exact bind_eq_ok.mpr ⟨index,hi,bind_eq_ok.mpr ⟨rest,hr,rfl⟩⟩
      · exact bind_eq_ok.mpr ⟨v,hv,bind_eq_ok.mpr ⟨vs,hvs,rfl⟩⟩

theorem mapColumns_eq_ok {mapping : List (Option Nat)} (h : mapColumns source find targets = .ok mapping) :
    List.Forall₂ (fun target index => mapColumn source find target = .ok index) targets mapping := by
  induction targets generalizing mapping with
  | nil =>
    cases h
    exact .nil
  | cons target targets ih =>
    obtain ⟨index,hi,h⟩ := of_bind h
    obtain ⟨rest,hr,h⟩ := of_bind h
    cases h
    exact .cons hi (ih hr)

theorem mapColumns_sat (hf : Finds source find) (targets : List Column) :
    (mapColumns source find targets).Sat fun mapping => ∀ i, some i ∈ mapping → i < source.columns.length := by
  induction targets with
  | nil => simp [mapColumns]
  | cons target targets ih =>
    have hh : (mapColumn source find target).Sat fun index => ∀ i, index = some i → i < source.columns.length := by
      unfold mapColumn
      split
      · split <;> simp
      rename_i i hi
      rw [getElem?_eq_getElem (hf target i hi)]
      dsimp only
      split
      · simp
      · intro j hj
        cases hj
        exact hf target _ hi
    refine hh.bind fun index _ hin => ih.bind fun mapping _ hm i hi => ?_
    rcases mem_cons.mp hi with rfl | hi
    · exact hin i rfl
    · exact hm i hi

theorem evolveColumns_sat {mapping : List (Option Nat)}
    (hm : ∀ i, some i ∈ mapping → i < row.length) : (evolveColumns row targets mapping).Safe := by
  induction targets generalizing mapping with
  | nil => simp [evolveColumns]
  | cons target targets ih =>
    cases mapping with
    | nil => simp [evolveColumns]
    | cons index mapping =>
      have hh : (evolveColumn row target index).Safe := by
        cases index with
        | none => simp [evolveColumn]
        | some i =>
          simp only [evolveColumn,getElem?_eq_getElem (hm i mem_cons_self)]
          split <;> simp
      exact hh.bind fun v _ _ => (ih fun i hi => hm i (mem_cons_of_mem _ hi)).bind fun vs _ _ => trivial

theorem evolveWith_sat (hf : Finds source find) (targets : List Column) (hrow : row.length = source.columns.length) :
    (evolveWith source find targets row).Safe :=
  (mapColumns_sat hf targets).bind fun _ _ hm => evolveColumns_sat fun i hi => hrow ▸ hm i hi
end

def matchColumn (source target : Schema) : Column → Option Nat :=
  if stableIDs source target then source.sourceByID else source.sourceByName

theorem finds_matchColumn (source target : Schema) : Finds source (matchColumn source target) := by
  unfold matchColumn
  split
  · exact finds_sourceByID source
  · exact finds_sourceByName source

theorem evolveRow_eq {source target : Schema} {row : Row} (hrow : row.length = source.columns.length) :
    evolveRow source target row = evolveWith source (matchColumn source target) target.columns row := by
  rw [evolveRow,if_neg (by simpa using hrow)]
  rfl

mutual
def LogicalType.fieldIDs : LogicalType → List Int
  | ⟨_,_,_,_,_,element,key,value,fields⟩ =>
    nestedFieldIDs fields ++ pointedFieldIDs element ++ pointedFieldIDs key ++ pointedFieldIDs value

def pointedFieldIDs : Option LogicalType → List Int
  | none => []
  | some t => t.fieldIDs

def nestedFieldIDs : List LogicalField → List Int
  | [] => []
  | ⟨_,type,_,id⟩ :: fields => id :: (type.fieldIDs ++ nestedFieldIDs fields)
end

def Schema.fieldIDs (s : Schema) : List Int :=
  s.columns.flatMap fun column => column.id :: (logicalTypeForColumn column).fieldIDs
/-- The columns of a schema carry different IDs between 0 and the highest one. -/
structure Schema.AssignedIDs (s : Schema) : Prop where
  nodup : (s.columns.map (·.id)).Nodup
  nonneg : ∀ id ∈ s.fieldIDs, 0 ≤ id
  le_highest : ∀ id ∈ s.fieldIDs, id ≤ s.highestFieldID

mutual
theorem logicalFieldIDsAreZero_iff : ∀ t : LogicalType, logicalFieldIDsAreZero t = true ↔ ∀ id ∈ t.fieldIDs, id = 0
  | ⟨_,_,_,_,_,element,key,value,fields⟩ => by
    simp only [logicalFieldIDsAreZero,LogicalType.fieldIDs,Bool.and_eq_true,fieldIDsAreZero_iff fields,
      pointedIDsAreZero_iff element,pointedIDsAreZero_iff key,pointedIDsAreZero_iff value,mem_append,or_imp,
      forall_and]

theorem pointedIDsAreZero_iff : ∀ t : Option LogicalType, pointedIDsAreZero t = true ↔ ∀ id ∈ pointedFieldIDs t, id = 0
  | none => by simp [pointedIDsAreZero,pointedFieldIDs]
  | some t => by simp only [pointedIDsAreZero,pointedFieldIDs,logicalFieldIDsAreZero_iff t]

theorem fieldIDsAreZero_iff : ∀ fields : List LogicalField, fieldIDsAreZero fields = true ↔
    ∀ id ∈ nestedFieldIDs fields, id = 0
  | [] => by simp [fieldIDsAreZero,nestedFieldIDs]
  | ⟨_,type,_,id⟩ :: fields => by
    simp only [fieldIDsAreZero,nestedFieldIDs,Bool.and_eq_true,decide_eq_true_eq,logicalFieldIDsAreZero_iff type,
      fieldIDsAreZero_iff fields,mem_cons,mem_append,or_imp,forall_and,forall_eq,and_assoc]
end

theorem Schema.hasUnassignedFieldIDs_iff (s : Schema) :
    s.hasUnassignedFieldIDs = true ↔ s.highestFieldID = 0 ∧ ∀ id ∈ s.fieldIDs, id = 0 := by
  have hc : s.hasUnassignedFieldIDs = true ↔ s.highestFieldID = 0 ∧
      ∀ column ∈ s.columns, column.id = 0 ∧ ∀ id ∈ (logicalTypeForColumn column).fieldIDs, id = 0 := by
    unfold hasUnassignedFieldIDs
    split
    · simp_all
    · simp_all [logicalFieldIDsAreZero_iff]
  rw [hc]
  simp only [fieldIDs,forall_mem_flatMap,forall_mem_cons]

theorem Schema.AssignedIDs.hasUnassignedFieldIDs_iff {s : Schema} (h : s.AssignedIDs) :
    s.hasUnassignedFieldIDs = true ↔ s.highestFieldID = 0 := by
  rw [Schema.hasUnassignedFieldIDs_iff,and_iff_left_iff_imp]
  intro hz id hid
  have := h.nonneg id hid
  have := h.le_highest id hid
  omega
/-- The same type, apart from whether the column itself is nullable. -/
def SameType (source target : Column) : Prop :=
  { logicalTypeForColumn source with nullable := false } = { logicalTypeForColumn target with nullable := false }
/-- A row cannot be read with the target column: it is required but missing, has another type, or is
required while its value is null. -/
def Blocked (source : Schema) (row : Row) (target : Column) : Prop :=
  (target.nullable = false ∧ ∀ column ∈ source.columns, column.id ≠ target.id) ∨
    ∃ (i : Nat) (column : Column), source.columns[i]? = some column ∧ column.id = target.id ∧
      (¬ SameType column target ∨ (target.nullable = false ∧ row[i]? = some .nil))
/-- The value of a target column: that of the source column with its ID, or null. -/
def Carried (source : Schema) (row : Row) (target : Column) (v : Value) : Prop :=
  (∀ (i : Nat) (column : Column), source.columns[i]? = some column → column.id = target.id → row[i]? = some v) ∧
    ((∀ column ∈ source.columns, column.id ≠ target.id) → v = .nil)
/-- What evolving a row has to do. -/
structure EvolutionLaw (source target : Schema) (row : Row) : Prop where
  values : ∀ result, evolveRow source target row = .ok result → List.Forall₂ (Carried source row) target.columns result
  fails : (∃ err, evolveRow source target row = .err err) ↔ ∃ column ∈ target.columns, Blocked source row column
  safe : ∀ cause, evolveRow source target row ≠ .panic cause

section
variable {source target : Schema} {row : Row} {t : Column}

theorem sourceByID_eq_some (h : (source.columns.map (·.id)).Nodup) {i : Nat} :
    source.sourceByID t = some i ↔ ∃ column, source.columns[i]? = some column ∧ column.id = t.id := by
  constructor
  · intro hi
    obtain ⟨column,hc,hid⟩ := lastIndex_eq_some hi
    exact ⟨column,hc,by simpa using hid⟩
  rintro ⟨column,hc,hid⟩
  cases hl : source.sourceByID t with
  | none =>
    have := lastIndex_eq_none.mp hl column (mem_of_getElem? hc)
    simp [hid] at this
  | some j =>
    obtain ⟨column',hc',hid'⟩ := lastIndex_eq_some hl
    have hi : (source.columns.map (·.id))[i]? = some t.id := by simp [hc,hid]
    have hj : (source.columns.map (·.id))[j]? = some t.id := by simpa [hc'] using hid'
    have hlt : j < (source.columns.map (·.id)).length := (List.getElem?_eq_some_iff.mp hj).1
    rw [(getElem?_inj hlt h).mp (hj.trans hi.symm)]

theorem sourceByID_eq_none : source.sourceByID t = none ↔ ∀ column ∈ source.columns, column.id ≠ t.id := by
  rw [sourceByID,lastIndex_eq_none]
  simp

theorem columnEvolves_sourceByID (hids : (source.columns.map (·.id)).Nodup) (t : Column) (v : Value) :
    ColumnEvolves source source.sourceByID row t v ↔ ¬ Blocked source row t ∧ Carried source row t v := by
  unfold ColumnEvolves
  cases hf : source.sourceByID t with
  | none =>
    have hm := sourceByID_eq_none.mp hf
    have hno : ∀ (i : Nat) (column : Column), source.columns[i]? = some column → column.id ≠ t.id :=
      fun i column hc => hm column (mem_of_getElem? hc)
    constructor
    · rintro ⟨hn,rfl⟩
      refine ⟨?_,fun i column hc hid => absurd hid (hno i column hc),fun _ => rfl⟩
      rintro (⟨hr,_⟩ | ⟨i,column,hc,hid,_⟩)
      · rw [hn] at hr
        cases hr
      · exact hno i column hc hid
    · rintro ⟨hb,_,hnil⟩
      refine ⟨?_,hnil hm⟩
      by_contra hr
      exact hb (.inl ⟨by simpa using hr,hm⟩)
  | some i =>
    obtain ⟨column,hc,hid⟩ := (sourceByID_eq_some hids).mp hf
    have hu : ∀ (j : Nat) (column' : Column), source.columns[j]? = some column' → column'.id = t.id → j = i := by
      intro j column' hc' hid'
      have := (sourceByID_eq_some hids).mpr ⟨column',hc',hid'⟩
      rw [hf] at this
      exact (some.inj this).symm
    constructor
    · rintro ⟨⟨column',hc',hco⟩,hv,hn⟩
      obtain rfl := some.inj (hc.symm.trans hc')
      refine ⟨?_,fun j column' hc' hid' => hu j column' hc' hid' ▸ hv,fun hm => ?_⟩
      · rintro (⟨_,hm⟩ | ⟨j,column',hc',hid',hbad⟩)
        · exact hm column (mem_of_getElem? hc) hid
        have hj := hu j column' hc' hid'
        rw [hj] at hc' hbad
        rw [some.inj (hc'.symm.trans hc)] at hbad
        rcases hbad with ht | ⟨hr,hnil⟩
        · exact ht ((compatibleColumnType_iff column t).mp hco)
        · rw [hn (some.inj (hv.symm.trans hnil))] at hr
          cases hr
      · exact absurd hid (hm column (mem_of_getElem? hc))
    · rintro ⟨hb,hva,_⟩
      have hv := hva i column hc hid
      refine ⟨⟨column,hc,?_⟩,hv,?_⟩
      · rw [compatibleColumnType_iff]
        by_contra ht
        exact hb (.inr ⟨i,column,hc,hid,.inl ht⟩)
      · rintro rfl
        by_contra hr
        exact hb (.inr ⟨i,column,hc,hid,.inr ⟨by simpa using hr,hv⟩⟩)

theorem carried_exists (hids : (source.columns.map (·.id)).Nodup) (hrow : row.length = source.columns.length)
    (t : Column) : ∃ v, Carried source row t v := by
  cases hf : source.sourceByID t with
  | none =>
    refine ⟨.nil,fun i column hc hid => ?_,fun _ => rfl⟩
    exact absurd hid (sourceByID_eq_none.mp hf column (mem_of_getElem? hc))
  | some i =>
    obtain ⟨column,hc,hid⟩ := (sourceByID_eq_some hids).mp hf
    have hlt : i < row.length := hrow ▸ (List.getElem?_eq_some_iff.mp hc).1
    refine ⟨row[i],fun j column' hc' hid' => ?_,fun hm => ?_⟩
    · have := (sourceByID_eq_some hids).mpr ⟨column',hc',hid'⟩
      rw [hf] at this
      cases this
      exact getElem?_eq_getElem hlt
    · exact absurd hid (hm column (mem_of_getElem? hc))

theorem carried_unique (hids : (source.columns.map (·.id)).Nodup) {v w : Value} (hv : Carried source row t v)
    (hw : Carried source row t w) : v = w := by
  cases hf : source.sourceByID t with
  | none => rw [hv.2 (sourceByID_eq_none.mp hf),hw.2 (sourceByID_eq_none.mp hf)]
  | some i =>
    obtain ⟨column,hc,hid⟩ := (sourceByID_eq_some hids).mp hf
    exact some.inj ((hv.1 i column hc hid).symm.trans (hw.1 i column hc hid))

private theorem forall₂_exists {α β : Type} {R : α → β → Prop} {as : List α} (h : ∀ a ∈ as, ∃ b, R a b) :
    ∃ bs, List.Forall₂ R as bs := by
  induction as with
  | nil => exact ⟨[],.nil⟩
  | cons a as ih =>
    obtain ⟨b,hb⟩ := h a mem_cons_self
    obtain ⟨bs,hbs⟩ := ih fun a ha => h a (mem_cons_of_mem _ ha)
    exact ⟨b :: bs,.cons hb hbs⟩

theorem evolutionLaw_iff (hids : (source.columns.map (·.id)).Nodup) (hrow : row.length = source.columns.length) :
    EvolutionLaw source target row ↔ ∀ result, evolveRow source target row = .ok result ↔
      evolveWith source source.sourceByID target.columns row = .ok result := by
  have hs : (evolveRow source target row).Safe :=
    evolveRow_eq hrow ▸ evolveWith_sat (finds_matchColumn source target) target.columns hrow
  have hi : ∀ result, evolveWith source source.sourceByID target.columns row = .ok result ↔
      (∀ t ∈ target.columns, ¬ Blocked source row t) ∧ List.Forall₂ (Carried source row) target.columns result := by
    intro result
    have hc : ColumnEvolves source source.sourceByID row = fun t v => ¬ Blocked source row t ∧ Carried source row t v :=
      funext fun t => funext fun v => propext (columnEvolves_sourceByID hids t v)
    rw [evolveWith_eq_ok,hc,List.forall₂_and_left]
  constructor
  · intro hlaw result
    rw [hi]
    constructor
    · intro hok
      refine ⟨fun t ht hb => ?_,hlaw.values result hok⟩
      obtain ⟨err,herr⟩ := hlaw.fails.mpr ⟨t,ht,hb⟩
      rw [hok] at herr
      cases herr
    · rintro ⟨ho,hca⟩
      rcases hs.ok_or_err with ⟨result',hok⟩ | herr
      · rw [hok]
        have hu : Relator.RightUnique (Carried source row) := fun _ _ _ => carried_unique hids
        exact congrArg _ (hu.forall₂ (hlaw.values result' hok) hca)
      · obtain ⟨t,ht,hb⟩ := hlaw.fails.mp herr
        exact absurd hb (ho t ht)
  · intro heq
    refine ⟨fun result hok => ((hi result).mp ((heq result).mp hok)).2,⟨?_,?_⟩,hs.ne_panic⟩
    · rintro ⟨err,herr⟩
      by_contra ho
      obtain ⟨result,hr⟩ := forall₂_exists fun t (_ : t ∈ target.columns) => carried_exists hids hrow t
      have hok := (heq result).mpr ((hi result).mpr ⟨fun t ht hb => ho ⟨t,ht,hb⟩,hr⟩)
      rw [herr] at hok
      cases hok
    · rintro ⟨t,ht,hb⟩
      rcases hs.ok_or_err with ⟨result,hok⟩ | herr
      · exact absurd hb (((hi result).mp ((heq result).mp hok)).1 t ht)
      · exact herr

private def markedRow (n : Nat) : Row := (List.range n).map fun i => .bytes (zeros i)

private def marked : Option Nat → Value
  | none => .nil
  | some i => .bytes (zeros i)

private theorem marked_injective : Function.Injective marked := by
  intro index index' h
  cases index <;> cases index' <;> simp_all [marked]
  have := congrArg List.length h
  simpa using this

private theorem evolveColumns_marked {n : Nat} {targets : List Column} {mapping : List (Option Nat)}
    (hl : mapping.length = targets.length) (hm : ∀ i, some i ∈ mapping → i < n) :
    evolveColumns (markedRow n) targets mapping = .ok (mapping.map marked) := by
  induction targets generalizing mapping with
  | nil =>
    obtain rfl := length_eq_zero_iff.mp hl
    rfl
  | cons t targets ih =>
    cases mapping with
    | nil => simp at hl
    | cons index mapping =>
      have hh : evolveColumn (markedRow n) t index = .ok (marked index) := by
        cases index with
        | none => rfl
        | some i =>
          have hlt := hm i mem_cons_self
          rw [evolveColumn_of_some]
          simp [markedRow,marked,hlt]
      rw [evolveColumns,hh,bind_ok,ih (by simpa using hl) fun i hi => hm i (mem_cons_of_mem _ hi)]
      rfl

private theorem evolveWith_marked {find : Column → Option Nat} (hf : Finds source find) {targets : List Column}
    (mapping : List (Option Nat)) :
    evolveWith source find targets (markedRow source.columns.length) = .ok (mapping.map marked) ↔
      mapColumns source find targets = .ok mapping := by
  have hm : ∀ mapping', mapColumns source find targets = .ok mapping' →
      evolveColumns (markedRow source.columns.length) targets mapping' = .ok (mapping'.map marked) :=
    fun mapping' h => evolveColumns_marked (mapColumns_eq_ok h).length_eq.symm ((mapColumns_sat hf targets).of_ok h)
  constructor
  · intro h
    obtain ⟨mapping',hm',h⟩ := of_bind h
    rw [hm mapping' hm'] at h
    rw [hm',map_injective_iff.mpr marked_injective (ok.inj h)]
  · intro h
    exact bind_eq_ok.mpr ⟨mapping,h,hm mapping h⟩
/-- Matching by name gives the mapping that matching by ID gives. -/
def NamesMatchIDs (source target : Schema) : Prop := ∀ mapping,
  mapColumns source source.sourceByName target.columns = .ok mapping ↔
    mapColumns source source.sourceByID target.columns = .ok mapping

theorem Schema.AssignedIDs.highest_nonneg {s : Schema} (h : s.AssignedIDs) (hv : s.validate = .ok ()) :
    0 ≤ s.highestFieldID := by
  obtain ⟨column,hc⟩ := exists_mem_of_ne_nil _ ((s.validate_eq_ok.mp hv).nonempty)
  have hid : column.id ∈ s.fieldIDs := mem_flatMap.mpr ⟨column,hc,mem_cons_self⟩
  exact (h.nonneg _ hid).trans (h.le_highest _ hid)
/-- Rows evolve by field ID exactly when both schemas have an ID above 0 or names and IDs match alike. -/
theorem evolveRow_law_iff (source target : Schema) (hsource : source.validate = .ok ())
    (htarget : target.validate = .ok ())
    (hids : source.AssignedIDs) (hids' : target.AssignedIDs) :
    (∀ row : Row, row.length = source.columns.length → EvolutionLaw source target row) ↔
      (0 < source.highestFieldID ∧ 0 < target.highestFieldID) ∨ NamesMatchIDs source target := by
  have hstable : stableIDs source target = true ↔ 0 < source.highestFieldID ∧ 0 < target.highestFieldID := by
    have hnonneg := hids.highest_nonneg hsource
    have hnonneg' := hids'.highest_nonneg htarget
    have hzero := hids.hasUnassignedFieldIDs_iff
    have hzero' := hids'.hasUnassignedFieldIDs_iff
    simp only [stableIDs,Bool.and_eq_true,Bool.not_eq_true',← Bool.not_eq_true,hzero,hzero']
    omega
  constructor
  · intro hlaw
    by_cases hs : stableIDs source target = true
    · exact .inl (hstable.mp hs)
    refine .inr fun mapping => ?_
    have hmatch : matchColumn source target = source.sourceByName := if_neg hs
    have hlength : (markedRow source.columns.length).length = source.columns.length := by simp [markedRow]
    have hsame := (evolutionLaw_iff hids.nodup hlength).mp (hlaw _ hlength) (mapping.map marked)
    rw [evolveRow_eq hlength,hmatch,evolveWith_marked (finds_sourceByName source),
      evolveWith_marked (finds_sourceByID source)] at hsame
    exact hsame
  · intro h row hrow
    rw [evolutionLaw_iff hids.nodup hrow,evolveRow_eq hrow]
    by_cases hs : stableIDs source target = true
    · rw [matchColumn,if_pos hs]
      exact fun _ => Iff.rfl
    · have hnames : NamesMatchIDs source target := h.resolve_left fun hpos => hs (hstable.mpr hpos)
      rw [matchColumn,if_neg hs]
      intro result
      rw [evolveWith,evolveWith,bind_eq_ok,bind_eq_ok]
      exact exists_congr fun mapping => and_congr_left fun _ => hnames mapping
end
/-- A customer table before its column was renamed. -/
def customerSchema : Schema where
  columns := [{ name := "customer", type := .string, nullable := true, id := 0 }]

def renamedSchema : Schema where
  columns := [{ name := "client", type := .string, nullable := true, id := 0 }]

def orderLineSchema : Schema where
  columns := [{ name := "customer", type := .string, id := 0 }, { name := "amount", type := .int, nullable := true, id := 1 }]
  highestFieldID := 1

def renamedLineSchema : Schema where
  columns := [{ name := "amount", type := .int, nullable := true, id := 1 }, { name := "client", type := .string, id := 0 }]
  highestFieldID := 1

private theorem orderLineSchema_assigned : orderLineSchema.AssignedIDs :=
  ⟨by decide,by decide,by decide⟩

private theorem renamedLineSchema_assigned : renamedLineSchema.AssignedIDs :=
  ⟨by decide,by decide,by decide⟩

theorem evolveRow_law_orders :
    evolveRow orderLineSchema renamedLineSchema [.string [65], .int32 3] = .ok [.int32 3, .string [65]] ∧
      EvolutionLaw orderLineSchema renamedLineSchema [.string [65], .int32 3] :=
  ⟨rfl,(evolveRow_law_iff orderLineSchema renamedLineSchema (by decide) (by decide) orderLineSchema_assigned
    renamedLineSchema_assigned).mpr (.inl ⟨by decide,by decide⟩) _ rfl⟩
/-- A single column with the ID 0 is taken for one without an ID, and its rename loses the value. -/
theorem evolveRow_loses_renamed : customerSchema.validate = .ok () ∧ renamedSchema.validate = .ok () ∧
    customerSchema.AssignedIDs ∧ renamedSchema.AssignedIDs ∧
    evolveRow customerSchema renamedSchema [.string [65]] = .ok [.nil] ∧
    ¬ EvolutionLaw customerSchema renamedSchema [.string [65]] := by
  have hevolved : evolveRow customerSchema renamedSchema [.string [65]] = .ok [.nil] := rfl
  refine ⟨by decide,by decide,⟨by decide,by decide,by decide⟩,⟨by decide,by decide,by decide⟩,hevolved,fun hlaw => ?_⟩
  cases hlaw.values _ hevolved with
  | cons hvalue _ =>
    have := hvalue.1 0 _ rfl rfl
    cases this
/-- The middle schema has what the first and the last one share: no column was dropped and added again. -/
def KeepsShared (first middle last : Schema) : Prop :=
  ∀ t ∈ last.columns, ∀ column ∈ first.columns, column.id = t.id → ∃ column' ∈ middle.columns, column'.id = t.id

private theorem ColumnEvolves.trans {first middle last : Schema} {row row' : Row} {t : Column} {v : Value}
    (hk : KeepsShared first middle last) (ht : t ∈ last.columns)
    (h : List.Forall₂ (ColumnEvolves first first.sourceByID row) middle.columns row')
    (hv : ColumnEvolves middle middle.sourceByID row' t v) : ColumnEvolves first first.sourceByID row t v := by
  unfold ColumnEvolves at hv
  cases hf : middle.sourceByID t with
  | none =>
    rw [hf] at hv
    have hno : first.sourceByID t = none := by
      rw [sourceByID_eq_none]
      intro column hc hid
      obtain ⟨column',hc',hid'⟩ := hk t ht column hc hid
      exact sourceByID_eq_none.mp hf column' hc' hid'
    rw [ColumnEvolves,hno]
    exact hv
  | some j =>
    rw [hf] at hv
    obtain ⟨⟨column,hc,hco⟩,hr,hn⟩ := hv
    obtain ⟨column',hc',hid⟩ := lastIndex_eq_some hf
    obtain rfl := some.inj (hc.symm.trans hc')
    have he := (List.forall₂_iff_zip.mp h).2 (mem_of_getElem? (getElem?_zip_eq_some.mpr ⟨hc,hr⟩))
    have hs : first.sourceByID column = first.sourceByID t := by
      rw [sourceByID,of_decide_eq_true hid,sourceByID]
    unfold ColumnEvolves at he ⊢
    rw [hs] at he
    cases hi : first.sourceByID t with
    | none =>
      rw [hi] at he
      exact ⟨hn he.2,he.2⟩
    | some i =>
      rw [hi] at he
      obtain ⟨⟨source,hso,hcs⟩,hri,_⟩ := he
      refine ⟨⟨source,hso,?_⟩,hri,hn⟩
      rw [compatibleColumnType_iff] at hco hcs ⊢
      exact hcs.trans hco
/-- Reading rows through the versions in between gives what reading them at once gives. -/
theorem evolveRow_trans (first middle last : Schema) (hm : stableIDs first middle = true)
    (hl : stableIDs middle last = true) (hk : KeepsShared first middle last) (row row' result : Row)
    (h : evolveRow first middle row = .ok row') (h' : evolveRow middle last row' = .ok result) :
    evolveRow first last row = .ok result := by
  have hs : stableIDs first last = true := by
    simp only [stableIDs,Bool.and_eq_true] at hm hl ⊢
    exact ⟨hm.1,hl.2⟩
  have key : ∀ {source target : Schema} {row result : Row}, stableIDs source target = true →
      (evolveRow source target row = .ok result ↔ row.length = source.columns.length ∧
        List.Forall₂ (ColumnEvolves source source.sourceByID row) target.columns result) := by
    intro source target row result hs
    by_cases hr : row.length = source.columns.length
    · simp [evolveRow_eq hr,evolveWith_eq_ok,matchColumn,hs,hr]
    · simp [evolveRow,hr]
  rw [key hm] at h
  rw [key hl] at h'
  rw [key hs]
  refine ⟨h.1,?_⟩
  rw [List.forall₂_iff_zip] at h' ⊢
  refine ⟨h'.2.1,fun {t v} hmem => ?_⟩
  exact .trans hk (of_mem_zip hmem).1 h.2 (h'.2.2 hmem)

theorem evolveRow_trans_orders :
    evolveRow orderLineSchema orderLineSchema [.string [65], .int32 3] = .ok [.string [65], .int32 3] :=
  evolveRow_trans orderLineSchema renamedLineSchema orderLineSchema (by decide) (by decide)
    (by unfold KeepsShared; decide) _ [.int32 3, .string [65]] _ rfl rfl
end FlussGo
