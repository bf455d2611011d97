import FlussGo.Lib.Numbering
import FlussGo.Schema.Evolution
/-!
# Schemas in memory

Copying a `LogicalType` does not copy its nested types and fields. Of what it points to, the program only
changes field IDs: `cell` names the place that holds the ID of a field.
-/
namespace FlussGo
open List
mutual
/-- A `LogicalType` as it is stored. -/
structure TypeRef where
  root : Root
  nullable : Bool := false
  length : Int := 0
  precision : Int := 0
  scale : Int := 0
  element : Option TypeRef := none
  key : Option TypeRef := none
  value : Option TypeRef := none
  fields : List FieldRef := []

structure FieldRef where
  name : String
  type : TypeRef
  description : String := ""
  cell : Nat
end
/-- The IDs that the cells hold. -/
abbrev StoredIDs := Nat → Int

mutual
def TypeRef.load (ids : StoredIDs) : TypeRef → LogicalType
  | ⟨root,nullable,length,precision,scale,element,key,value,fields⟩ =>
    ⟨root,nullable,length,precision,scale,loadPointed ids element,loadPointed ids key,loadPointed ids value,
      loadFields ids fields⟩

def loadPointed (ids : StoredIDs) : Option TypeRef → Option LogicalType
  | none => none
  | some t => some (t.load ids)

def loadFields (ids : StoredIDs) : List FieldRef → List LogicalField
  | [] => []
  | ⟨name,type,description,cell⟩ :: fields => ⟨name,type.load ids,description,ids cell⟩ :: loadFields ids fields
end

mutual
/-- The cells of the fields below a type, a field before the fields inside it. -/
def TypeRef.cells : TypeRef → List Nat
  | ⟨_,_,_,_,_,element,key,value,fields⟩ =>
    fieldCells fields ++ pointedCells element ++ pointedCells key ++ pointedCells value

def pointedCells : Option TypeRef → List Nat
  | none => []
  | some t => t.cells

def fieldCells : List FieldRef → List Nat
  | [] => []
  | ⟨_,type,_,cell⟩ :: fields => cell :: (type.cells ++ fieldCells fields)
end

structure ColumnRef where
  name : String
  type : DataType
  nullable : Bool := false
  logicalType : Option TypeRef := none
  description : String := ""
  id : Int := 0

structure SchemaRef where
  columns : List ColumnRef
  primaryKey : List String := []
  bucketKey : List String := []
  partitionKey : List String := []
  autoIncrement : List String := []
  highestFieldID : Int := 0

def ColumnRef.load (ids : StoredIDs) (column : ColumnRef) : Column :=
  ⟨column.name,column.type,column.nullable,column.logicalType.map (·.load ids),column.description,column.id⟩

def SchemaRef.load (ids : StoredIDs) (s : SchemaRef) : Schema :=
  ⟨s.columns.map (·.load ids),s.primaryKey,s.bucketKey,s.partitionKey,s.autoIncrement,s.highestFieldID⟩
/-- `logicalTypeForColumn`: the copy still points to the nested types of the column. -/
def ColumnRef.typeRef (column : ColumnRef) : TypeRef :=
  match column.logicalType with
  | some t => t
  | none => { root := logicalRoot column.type, nullable := column.nullable }

def SchemaRef.cells (s : SchemaRef) : List Nat := s.columns.flatMap fun column => column.typeRef.cells

def SchemaRef.Unshared (s : SchemaRef) : Prop := s.cells.Nodup

instance (s : SchemaRef) : Decidable s.Unshared := inferInstanceAs (Decidable s.cells.Nodup)
/-- The counter of `JSON` and the memory that it writes to. -/
structure Numbering where
  next : Int
  ids : StoredIDs

mutual
def assignLogicalFieldIDs : TypeRef → Numbering → Numbering
  | ⟨_,_,_,_,_,element,key,value,fields⟩, n =>
    assignPointed value (assignPointed key (assignPointed element (assignFields fields n)))

def assignPointed : Option TypeRef → Numbering → Numbering
  | none, n => n
  | some t, n => assignLogicalFieldIDs t n
/-- The field loop of `assignLogicalFieldIDs`. -/
def assignFields : List FieldRef → Numbering → Numbering
  | [], n => n
  | ⟨_,type,_,cell⟩ :: fields, n =>
    assignFields fields (assignLogicalFieldIDs type ⟨n.next + 1,Function.update n.ids cell n.next⟩)
end

def Numbering.advance (n : Numbering) (cells : List Nat) : Numbering :=
  ⟨n.next + cells.length,numberFrom n.ids n.next cells⟩

theorem Numbering.advance_nil (n : Numbering) : n.advance [] = n := by
  simp [Numbering.advance,numberFrom]

theorem Numbering.advance_append (n : Numbering) (cells cells' : List Nat) :
    n.advance (cells ++ cells') = (n.advance cells).advance cells' := by
  simp only [Numbering.advance,numberFrom_append,length_append]
  congr 1
  push_cast
  omega

theorem Numbering.advance_cons (n : Numbering) (cell : Nat) (cells : List Nat) :
    n.advance (cell :: cells) = (Numbering.mk (n.next + 1) (Function.update n.ids cell n.next)).advance cells := by
  simp only [Numbering.advance,numberFrom,length_cons]
  congr 1
  push_cast
  omega

mutual
theorem assignLogicalFieldIDs_eq : ∀ (t : TypeRef) (n : Numbering), assignLogicalFieldIDs t n = n.advance t.cells
  | ⟨_,_,_,_,_,element,key,value,fields⟩, n => by
    simp only [assignLogicalFieldIDs,TypeRef.cells,Numbering.advance_append,assignFields_eq fields,assignPointed_eq element,
      assignPointed_eq key,assignPointed_eq value]

theorem assignPointed_eq : ∀ (t : Option TypeRef) (n : Numbering), assignPointed t n = n.advance (pointedCells t)
  | none, n => by rw [assignPointed,pointedCells,Numbering.advance_nil]
  | some t, n => by rw [assignPointed,pointedCells,assignLogicalFieldIDs_eq t]

theorem assignFields_eq : ∀ (fields : List FieldRef)
    (n : Numbering), assignFields fields n = n.advance (fieldCells fields)
  | [], n => by rw [assignFields,fieldCells,Numbering.advance_nil]
  | ⟨_,type,_,cell⟩ :: fields, n => by
    rw [assignFields,fieldCells,Numbering.advance_cons,Numbering.advance_append,assignLogicalFieldIDs_eq type,
      assignFields_eq fields]
end

section Load
variable (ids : StoredIDs)

mutual
@[simp] theorem TypeRef.load_fieldIDs : ∀ t : TypeRef, (t.load ids).fieldIDs = t.cells.map ids
  | ⟨_,_,_,_,_,element,key,value,fields⟩ => by
    simp only [TypeRef.load,LogicalType.fieldIDs,TypeRef.cells,map_append,loadFields_fieldIDs fields,
      loadPointed_fieldIDs element,loadPointed_fieldIDs key,loadPointed_fieldIDs value]

theorem loadPointed_fieldIDs : ∀ t : Option TypeRef, pointedFieldIDs (loadPointed ids t) = (pointedCells t).map ids
  | none => rfl
  | some t => by rw [loadPointed,pointedFieldIDs,pointedCells,TypeRef.load_fieldIDs t]

theorem loadFields_fieldIDs : ∀ fields :
    List FieldRef, nestedFieldIDs (loadFields ids fields) = (fieldCells fields).map ids
  | [] => rfl
  | ⟨_,type,_,cell⟩ :: fields => by
    simp only [loadFields,nestedFieldIDs,fieldCells,map_cons,map_append,TypeRef.load_fieldIDs type,
      loadFields_fieldIDs fields]
end

variable {ids} {ids' : StoredIDs}

mutual
theorem TypeRef.load_congr : ∀ t : TypeRef, (∀ cell ∈ t.cells, ids cell = ids' cell) → t.load ids = t.load ids'
  | ⟨_,_,_,_,_,element,key,value,fields⟩, h => by
    simp only [TypeRef.cells,mem_append,or_imp,forall_and] at h
    simp only [TypeRef.load,loadFields_congr fields h.1.1.1,loadPointed_congr element h.1.1.2,loadPointed_congr key h.1.2,
      loadPointed_congr value h.2]

theorem loadPointed_congr : ∀ t : Option TypeRef, (∀ cell ∈ pointedCells t, ids cell = ids' cell) →
    loadPointed ids t = loadPointed ids' t
  | none, _ => rfl
  | some t, h => by rw [loadPointed,loadPointed,TypeRef.load_congr t h]

theorem loadFields_congr : ∀ fields : List FieldRef, (∀ cell ∈ fieldCells fields, ids cell = ids' cell) →
    loadFields ids fields = loadFields ids' fields
  | [], _ => rfl
  | ⟨_,type,_,cell⟩ :: fields, h => by
    simp only [fieldCells,mem_cons,mem_append,or_imp,forall_and,forall_eq] at h
    simp only [loadFields,TypeRef.load_congr type h.2.1,loadFields_congr fields h.2.2,h.1]
end

variable (ids) in
@[simp] theorem logicalTypeForColumn_load (column : ColumnRef) :
    logicalTypeForColumn (column.load ids) = column.typeRef.load ids := by
  unfold logicalTypeForColumn ColumnRef.typeRef ColumnRef.load
  cases column.logicalType with
  | none => rfl
  | some t => rfl

variable (ids) in
theorem SchemaRef.load_fieldIDs (s : SchemaRef) :
    (s.load ids).fieldIDs = s.columns.flatMap fun column => column.id :: column.typeRef.cells.map ids := by
  simp only [Schema.fieldIDs,SchemaRef.load,flatMap_map,logicalTypeForColumn_load,TypeRef.load_fieldIDs]
  rfl

theorem SchemaRef.load_eq_iff (s : SchemaRef) : s.load ids = s.load ids' ↔ ∀ cell ∈ s.cells, ids cell = ids' cell := by
  constructor
  · intro h cell hce
    obtain ⟨column,hco,hce⟩ := mem_flatMap.mp hce
    have hc : s.columns.map (·.load ids) = s.columns.map (·.load ids') := congrArg Schema.columns h
    have hl : column.load ids = column.load ids' := map_inj_left.mp hc column hco
    have ht : column.typeRef.load ids = column.typeRef.load ids' := by
      rw [← logicalTypeForColumn_load,← logicalTypeForColumn_load,hl]
    have hids := congrArg LogicalType.fieldIDs ht
    rw [TypeRef.load_fieldIDs,TypeRef.load_fieldIDs] at hids
    exact map_inj_left.mp hids cell hce
  · intro h
    have hc : s.columns.map (·.load ids) = s.columns.map (·.load ids') := by
      apply map_congr_left
      intro column hco
      have hcel : ∀ cell ∈ column.typeRef.cells, ids cell = ids' cell := fun cell hce =>
        h cell (mem_flatMap.mpr ⟨column,hco,hce⟩)
      unfold ColumnRef.load
      unfold ColumnRef.typeRef at hcel
      cases ht : column.logicalType with
      | none => rfl
      | some t =>
        rw [ht] at hcel
        rw [Option.map_some,Option.map_some,t.load_congr hcel]
    rw [SchemaRef.load,SchemaRef.load,hc]
end Load

mutual
/-- The same type with every field ID cleared. -/
def LogicalType.withoutIDs : LogicalType → LogicalType
  | ⟨root,nullable,length,precision,scale,element,key,value,fields⟩ =>
    ⟨root,nullable,length,precision,scale,pointedWithoutIDs element,pointedWithoutIDs key,pointedWithoutIDs value,
      fieldsWithoutIDs fields⟩

def pointedWithoutIDs : Option LogicalType → Option LogicalType
  | none => none
  | some t => some t.withoutIDs

def fieldsWithoutIDs : List LogicalField → List LogicalField
  | [] => []
  | ⟨name,type,description,_⟩ :: fields => ⟨name,type.withoutIDs,description,0⟩ :: fieldsWithoutIDs fields
end

mutual
theorem TypeRef.load_withoutIDs (ids : StoredIDs) : ∀ t : TypeRef, (t.load ids).withoutIDs = t.load 0
  | ⟨_,_,_,_,_,element,key,value,fields⟩ => by
    simp only [TypeRef.load,LogicalType.withoutIDs,loadFields_withoutIDs ids fields,loadPointed_withoutIDs ids element,
      loadPointed_withoutIDs ids key,loadPointed_withoutIDs ids value]

theorem loadPointed_withoutIDs (ids : StoredIDs) : ∀ t :
    Option TypeRef, pointedWithoutIDs (loadPointed ids t) = loadPointed 0 t
  | none => rfl
  | some t => by rw [loadPointed,pointedWithoutIDs,loadPointed,TypeRef.load_withoutIDs ids t]

theorem loadFields_withoutIDs (ids : StoredIDs) : ∀ fields :
    List FieldRef, fieldsWithoutIDs (loadFields ids fields) = loadFields 0 fields
  | [] => rfl
  | ⟨_,type,_,cell⟩ :: fields => by
    rw [loadFields,fieldsWithoutIDs,loadFields,TypeRef.load_withoutIDs ids type,loadFields_withoutIDs ids fields]
    rfl
end

mutual
theorem LogicalType.withoutIDs_validate : ∀ t : LogicalType, t.withoutIDs.validate = t.validate
  | ⟨root,nullable,length,precision,scale,element,key,value,fields⟩ => by
    cases root with
    | integer => rfl
    | timestampWithoutTimeZone => rfl
    | named dataType =>
      cases dataType with
      | array =>
        cases element with
        | none => rfl
        | some e => exact LogicalType.withoutIDs_validate e
      | map =>
        cases key with
        | none => rfl
        | some k =>
          cases value with
          | none => rfl
          | some w =>
            simp only [LogicalType.withoutIDs,pointedWithoutIDs,LogicalType.validate,LogicalType.withoutIDs_validate k,
              LogicalType.withoutIDs_validate w]
      | row =>
        have hf := fieldsWithoutIDs_validate fields
        cases fields with
        | nil => rfl
        | cons f fields =>
          obtain ⟨name,type,description,id⟩ := f
          exact hf
      | _ => rfl

theorem fieldsWithoutIDs_validate : ∀ fields : List LogicalField,
    LogicalField.validateAll (fieldsWithoutIDs fields) = LogicalField.validateAll fields
  | [] => rfl
  | ⟨name,type,_,_⟩ :: fields => by
    simp only [fieldsWithoutIDs,LogicalField.validateAll,LogicalType.withoutIDs_validate type,fieldsWithoutIDs_validate fields]
end

theorem TypeRef.load_validate (t : TypeRef) (ids ids' : StoredIDs) :
    (t.load ids).validate = (t.load ids').validate := by
  rw [← LogicalType.withoutIDs_validate,← LogicalType.withoutIDs_validate (t.load ids'),t.load_withoutIDs,t.load_withoutIDs]
end FlussGo
