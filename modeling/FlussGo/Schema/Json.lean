import FlussGo.Schema.Storage
/-!
# Schema JSON

The structs that `encoding/json` reads and writes are modelled, and a codec stands for the text it makes of
them. `JSON` numbers the fields of a schema without field IDs in the memory of the schema it is called on.
-/
namespace FlussGo
open Outcome List SchemaRef Function
mutual
/-- `logicalTypeJSON`; a missing `nullable` stands for true. -/
structure LogicalTypeJSON where
  root : Root
  nullable : Option Bool := none
  length : Int := 0
  precision : Int := 0
  scale : Int := 0
  element : Option LogicalTypeJSON := none
  key : Option LogicalTypeJSON := none
  value : Option LogicalTypeJSON := none
  fields : List LogicalFieldJSON := []

structure LogicalFieldJSON where
  name : String
  type : LogicalTypeJSON
  description : String := ""
  id : Int
end

mutual
def LogicalType.marshalJSON : LogicalType → LogicalTypeJSON
  | ⟨root,nullable,length,precision,scale,element,key,value,fields⟩ =>
    ⟨root,if nullable then none else some false,length,precision,scale,marshalPointed element,marshalPointed key,
      marshalPointed value,marshalFields fields⟩

def marshalPointed : Option LogicalType → Option LogicalTypeJSON
  | none => none
  | some t => some t.marshalJSON

def marshalFields : List LogicalField → List LogicalFieldJSON
  | [] => []
  | ⟨name,type,description,id⟩ :: fields => ⟨name,type.marshalJSON,description,id⟩ :: marshalFields fields
end

mutual
def LogicalTypeJSON.unmarshalJSON : LogicalTypeJSON → LogicalType
  | ⟨root,nullable,length,precision,scale,element,key,value,fields⟩ =>
    ⟨root,nullable.getD true,length,precision,scale,unmarshalPointed element,unmarshalPointed key,
      unmarshalPointed value,unmarshalFields fields⟩

def unmarshalPointed : Option LogicalTypeJSON → Option LogicalType
  | none => none
  | some t => some t.unmarshalJSON

def unmarshalFields : List LogicalFieldJSON → List LogicalField
  | [] => []
  | ⟨name,type,description,id⟩ :: fields => ⟨name,type.unmarshalJSON,description,id⟩ :: unmarshalFields fields
end

mutual
@[simp] theorem LogicalType.unmarshalJSON_marshalJSON : ∀ t : LogicalType, t.marshalJSON.unmarshalJSON = t
  | ⟨_,nullable,_,_,_,element,key,value,fields⟩ => by
    simp only [LogicalType.marshalJSON,LogicalTypeJSON.unmarshalJSON,unmarshalPointed_marshalPointed element,
      unmarshalPointed_marshalPointed key,unmarshalPointed_marshalPointed value,unmarshalFields_marshalFields fields]
    cases nullable with
    | false => rfl
    | true => rfl

theorem unmarshalPointed_marshalPointed : ∀ t : Option LogicalType, unmarshalPointed (marshalPointed t) = t
  | none => rfl
  | some t => by rw [marshalPointed,unmarshalPointed,LogicalType.unmarshalJSON_marshalJSON t]

theorem unmarshalFields_marshalFields : ∀ fields : List LogicalField, unmarshalFields (marshalFields fields) = fields
  | [] => rfl
  | ⟨_,type,_,_⟩ :: fields => by
    rw [marshalFields,unmarshalFields,LogicalType.unmarshalJSON_marshalJSON type,unmarshalFields_marshalFields fields]
end

structure SchemaColumnJSON where
  name : String
  dataType : LogicalTypeJSON
  comment : String := ""
  id : Int

@[ext] structure SchemaJSON where
  version : Int
  columns : List SchemaColumnJSON
  primaryKey : List String
  autoIncrement : List String
  highestFieldID : Int
/-- The IDs of the columns and nested fields, in the order of the text. -/
def SchemaJSON.fieldIDs (s : SchemaJSON) : List Int :=
  s.columns.flatMap fun column => column.id :: column.dataType.unmarshalJSON.fieldIDs
/-- A `schemaColumnJSON` while `JSON` runs: its type still points into the schema. -/
structure SchemaColumnRef where
  name : String
  dataType : TypeRef
  comment : String
  id : Int

def SchemaColumnRef.marshal (ids : StoredIDs) (column : SchemaColumnRef) : SchemaColumnJSON :=
  ⟨column.name,(column.dataType.load ids).marshalJSON,column.comment,column.id⟩

def columnsJSON (assignIDs : Bool) : List ColumnRef → Numbering → List SchemaColumnRef × Numbering
  | [], n => ([], n)
  | column :: columns, n =>
    let logicalType := column.typeRef
    let (id, n') :=
      if assignIDs then (n.next, assignLogicalFieldIDs logicalType { n with next := n.next + 1 }) else (column.id, n)
    let (rest, last) := columnsJSON assignIDs columns n'
    (⟨column.name,logicalType,column.description,id⟩ :: rest, last)

namespace SchemaRef
/-- The columns that `JSON` collects, and the memory when it has numbered them all. -/
def numbered (s : SchemaRef) (ids : StoredIDs) : List SchemaColumnRef × Numbering :=
  columnsJSON (s.load ids).hasUnassignedFieldIDs s.columns ⟨0,ids⟩
/-- What `JSON` passes to `json.Marshal`, which reads the nested types only then. -/
def written (s : SchemaRef) (ids : StoredIDs) : SchemaJSON where
  version := 1
  columns := (s.numbered ids).1.map (·.marshal (s.numbered ids).2.ids)
  primaryKey := s.primaryKey
  autoIncrement := s.autoIncrement
  highestFieldID := if (s.load ids).hasUnassignedFieldIDs then (s.numbered ids).2.next - 1 else s.highestFieldID
end SchemaRef
/-- `encoding/json` on the structs of a schema: what was written of an accepted schema is read back. -/
structure SchemaCodec (Text : Type) where
  marshal : SchemaJSON → Text
  unmarshal : Text → Except GoError SchemaJSON
  unmarshal_marshal : ∀ (s : SchemaRef) (ids : StoredIDs), (s.load ids).validate = .ok () →
    unmarshal (marshal (s.written ids)) = .ok (s.written ids)

def structCodec : SchemaCodec SchemaJSON := ⟨id,.ok,fun _ _ _ => rfl⟩

namespace SchemaRef
/-- `Schema.JSON`, with the memory it leaves. -/
def json {Text : Type} (codec : SchemaCodec Text) (s : SchemaRef) (ids : StoredIDs) : Go Text × StoredIDs :=
  match (s.load ids).validate with
  | .err e => (.err e, ids)
  | .panic cause => (.panic cause, ids)
  | .ok () => (.ok (codec.marshal (s.written ids)), (s.numbered ids).2.ids)
end SchemaRef
/-- The column that `ParseSchemaJSON` makes of an accepted one. -/
def SchemaColumnJSON.toColumn (column : SchemaColumnJSON) : Column :=
  let dataType := column.dataType.unmarshalJSON
  ⟨column.name,dataTypeForLogicalType dataType,dataType.nullable,some dataType,column.comment,column.id⟩

def parseColumns : List SchemaColumnJSON → Go (List Column)
  | [] => .ok []
  | column :: columns => do
    column.dataType.unmarshalJSON.validate
    let rest ← parseColumns columns
    return column.toColumn :: rest

def parseSchemaJSON {Text : Type} (codec : SchemaCodec Text) (data : Text) : Go Schema :=
  match codec.unmarshal data with
  | .error e => .err (GoError.under .invalidSchema "" e)
  | .ok encoded => do
    let columns ← parseColumns encoded.columns
    let schema : Schema := {
      columns := columns
      primaryKey := encoded.primaryKey
      autoIncrement := encoded.autoIncrement
      highestFieldID := encoded.highestFieldID }
    schema.validate
    return schema

section Numbering
variable {columns : List ColumnRef} {n : Numbering}

private def cellsOf (columns : List ColumnRef) : List Nat := columns.flatMap fun column => column.typeRef.cells

private theorem columnsJSON_cons (column : ColumnRef) (columns : List ColumnRef) (n : Numbering) :
    columnsJSON true (column :: columns) n =
      let rest := columnsJSON true columns (Numbering.advance ⟨n.next + 1,n.ids⟩ column.typeRef.cells)
      (⟨column.name,column.typeRef,column.description,n.next⟩ :: rest.1, rest.2) := by
  rw [← assignLogicalFieldIDs_eq]
  rfl

theorem columnsJSON_false (columns : List ColumnRef) (n : Numbering) :
    columnsJSON false columns n = (columns.map fun column => ⟨column.name,column.typeRef,column.description,column.id⟩, n) := by
  induction columns with
  | nil => rfl
  | cons column columns ih =>
    simp only [columnsJSON,Bool.false_eq_true,if_false,ih,map_cons]

theorem columnsJSON_columns (assignIDs : Bool) (columns : List ColumnRef) (n : Numbering) :
    (columnsJSON assignIDs columns n).1.map (fun column => (column.name, column.dataType, column.comment)) =
      columns.map fun column => (column.name, column.typeRef, column.description) := by
  induction columns generalizing n with
  | nil => rfl
  | cons column columns ih => simp only [columnsJSON,map_cons,ih]

private theorem columnsJSON_next (columns : List ColumnRef) (n : Numbering) :
    (columnsJSON true columns n).2.next = n.next + columns.length + (cellsOf columns).length := by
  induction columns generalizing n with
  | nil => simp [columnsJSON,cellsOf]
  | cons column columns ih =>
    rw [columnsJSON_cons]
    simp only [ih,Numbering.advance,cellsOf,flatMap_cons,length_append,length_cons]
    push_cast
    omega

private theorem columnsJSON_frame {cell : Nat} (h : cell ∉ cellsOf columns) :
    (columnsJSON true columns n).2.ids cell = n.ids cell := by
  induction columns generalizing n with
  | nil => rfl
  | cons column columns ih =>
    rw [cellsOf,flatMap_cons,mem_append,not_or] at h
    rw [columnsJSON_cons]
    exact (ih h.2).trans (numberFrom_of_not_mem _ _ h.1)

private theorem columnsJSON_lt {cell : Nat} (h : cell ∈ cellsOf columns) :
    n.next < (columnsJSON true columns n).2.ids cell := by
  induction columns generalizing n with
  | nil => cases h
  | cons column columns ih =>
    rw [columnsJSON_cons]
    by_cases hl : cell ∈ cellsOf columns
    · have hih := ih (n := Numbering.advance ⟨n.next + 1,n.ids⟩ column.typeRef.cells) hl
      simp only [Numbering.advance] at hih ⊢
      omega
    · rw [cellsOf,flatMap_cons,mem_append] at h
      have hle := le_numberFrom n.ids (n.next + 1) (h.resolve_right hl)
      have hf := columnsJSON_frame (n := Numbering.advance ⟨n.next + 1,n.ids⟩ column.typeRef.cells) hl
      simp only [Numbering.advance] at hf ⊢
      omega

private theorem range_map_append (start : Int) (a b : Nat) : (range (a + b)).map (fun i : Nat => start + i) =
      (range a).map (fun i : Nat => start + i) ++ (range b).map fun i : Nat => start + a + i := by
  rw [range_add,map_append,map_map]
  congr 1
  apply map_congr_left
  intro i _
  simp only [comp_apply]
  push_cast
  omega

private theorem columnsJSON_range (h : (cellsOf columns).Nodup) :
    ((columnsJSON true columns n).1.flatMap fun column =>
        column.id :: column.dataType.cells.map (columnsJSON true columns n).2.ids) =
      (range (columns.length + (cellsOf columns).length)).map fun i : Nat => n.next + i := by
  induction columns generalizing n with
  | nil => rfl
  | cons column columns ih =>
    rw [cellsOf,flatMap_cons,nodup_append] at h
    obtain ⟨hh,hla,hd⟩ := h
    let m := Numbering.advance ⟨n.next + 1,n.ids⟩ column.typeRef.cells
    have hk : column.typeRef.cells.map (columnsJSON true columns m).2.ids = column.typeRef.cells.map m.ids := by
      apply map_congr_left
      intro cell hc
      exact columnsJSON_frame fun hmem => hd cell hc cell hmem rfl
    have hn : column.typeRef.cells.map m.ids =
        (range column.typeRef.cells.length).map fun i : Nat => n.next + 1 + i := map_numberFrom _ _ hh
    have hl : (column :: columns).length + (cellsOf (column :: columns)).length =
        1 + (column.typeRef.cells.length + (columns.length + (cellsOf columns).length)) := by
      simp only [cellsOf,flatMap_cons,length_append,length_cons]
      omega
    rw [columnsJSON_cons,hl,range_map_append,range_map_append]
    simp only [flatMap_cons]
    rw [ih (n := m) hla,hk,hn]
    simp [m,Numbering.advance]
end Numbering

section Calls
variable {Text : Type} {codec : SchemaCodec Text} {s : SchemaRef} {ids : StoredIDs}

private theorem json_eq (h : (s.load ids).validate = .ok ()) :
    s.json codec ids = (.ok (codec.marshal (s.written ids)), (s.numbered ids).2.ids) := by
  rw [json,h]

theorem SchemaRef.load_fieldIDs_length (s : SchemaRef) (ids : StoredIDs) :
    (s.load ids).fieldIDs.length = s.columns.length + s.cells.length := by
  rw [load_fieldIDs,cells]
  induction s.columns with
  | nil => rfl
  | cons column columns ih =>
    simp only [flatMap_cons,length_append,length_cons,length_map,ih]
    omega

private theorem numbered_of_unassigned (h : (s.load ids).hasUnassignedFieldIDs = true) :
    s.numbered ids = columnsJSON true s.columns ⟨0,ids⟩ := by
  rw [numbered,h]

private theorem numbered_of_assigned (h : (s.load ids).hasUnassignedFieldIDs = false) :
    s.numbered ids = (s.columns.map fun column => ⟨column.name,column.typeRef,column.description,column.id⟩, ⟨0,ids⟩) := by
  rw [numbered,h,columnsJSON_false]

private theorem numbered_columns (s : SchemaRef) (ids : StoredIDs) :
    (s.numbered ids).1.map (fun column => (column.name, column.dataType, column.comment)) =
      s.columns.map fun column => (column.name, column.typeRef, column.description) :=
  columnsJSON_columns _ _ _

private theorem written_fieldIDs (s : SchemaRef) (ids : StoredIDs) :
    (s.written ids).fieldIDs = (s.numbered ids).1.flatMap fun column =>
      column.id :: column.dataType.cells.map (s.numbered ids).2.ids := by
  simp only [SchemaJSON.fieldIDs,written,flatMap_map,SchemaColumnRef.marshal,
    LogicalType.unmarshalJSON_marshalJSON,TypeRef.load_fieldIDs]

private theorem written_highest (h : (s.load ids).hasUnassignedFieldIDs = true) :
    (s.written ids).highestFieldID = (s.load ids).fieldIDs.length - 1 := by
  rw [load_fieldIDs_length]
  simp only [written,h,if_true,numbered_of_unassigned h,columnsJSON_next]
  push_cast
  rw [Int.zero_add]
  rfl

private theorem written_range (h : (s.load ids).hasUnassignedFieldIDs = true) (hu : s.Unshared) :
    (s.written ids).fieldIDs = (range (s.load ids).fieldIDs.length).map Int.ofNat := by
  rw [written_fieldIDs,numbered_of_unassigned h,columnsJSON_range hu,load_fieldIDs_length]
  apply map_congr_left
  intro i _
  exact Int.zero_add _

private theorem written_columns (s : SchemaRef) (ids : StoredIDs) :
    (s.written ids).columns.map (fun column => (column.name, column.dataType.unmarshalJSON.withoutIDs, column.comment)) =
      (s.load ids).columns.map fun column => (column.name, (logicalTypeForColumn column).withoutIDs, column.description) := by
  have hc := congrArg (map fun x : String × TypeRef × String => (x.1, x.2.1.load 0, x.2.2)) (numbered_columns s ids)
  rw [map_map,map_map] at hc
  simp only [written,load,map_map]
  convert hc using 2
  · funext column
    simp [SchemaColumnRef.marshal,TypeRef.load_withoutIDs]
  · funext column
    simp only [comp_apply,logicalTypeForColumn_load,TypeRef.load_withoutIDs]
    rfl
end Calls
/-- A schema without field IDs is written with the numbers from 0 on in the order of the text, which has a
column or field before the fields inside its type. -/
theorem json_numbers_fields {Text : Type} (codec : SchemaCodec Text) (s : SchemaRef) (ids : StoredIDs)
    (hvalid : (s.load ids).validate = .ok ()) (hunassigned : (s.load ids).hasUnassignedFieldIDs = true)
    (hunshared : s.Unshared) :
    ∃ written : SchemaJSON, (s.json codec ids).1 = .ok (codec.marshal written) ∧
      written.columns.map (fun column => (column.name, column.dataType.unmarshalJSON.withoutIDs)) =
        (s.load ids).columns.map (fun column => (column.name, (logicalTypeForColumn column).withoutIDs)) ∧
      written.fieldIDs = (List.range (s.load ids).fieldIDs.length).map Int.ofNat ∧
      written.highestFieldID = (s.load ids).fieldIDs.length - 1 := by
  refine ⟨s.written ids,congrArg Prod.fst (json_eq hvalid),?_,written_range hunassigned hunshared,
    written_highest hunassigned⟩
  have hcolumns := congrArg (List.map fun x : String × LogicalType × String => (x.1, x.2.1)) (written_columns s ids)
  rw [map_map,map_map] at hcolumns
  exact hcolumns
/-- An array of rows beside an integer column. -/
def taggedSchema : SchemaRef where
  columns := [
    { name := "id", type := .int },
    { name := "tags", type := .array, logicalType := some {
        root := .named .array
        element := some {
          root := .named .row
          fields := [⟨"key",{ root := .named .string },"",0⟩, ⟨"count",{ root := .integer },"",1⟩] } } }]

theorem json_numbers_fields_nested :
    ∃ written : SchemaJSON, (taggedSchema.json structCodec 0).1 = .ok written ∧ written.fieldIDs = [0, 1, 2, 3] ∧
      written.highestFieldID = 3 := by
  obtain ⟨written,hjson,_,hids,hhighest⟩ := json_numbers_fields structCodec taggedSchema 0 rfl rfl (by decide)
  exact ⟨written,hjson,hids,hhighest⟩
/-- The memory after a number of calls of `JSON`. -/
def SchemaRef.afterCalls {Text : Type} (codec : SchemaCodec Text) (s : SchemaRef) (ids : StoredIDs) : Nat → StoredIDs
  | 0 => ids
  | calls + 1 => (s.json codec (s.afterCalls codec ids calls)).2
/-- Nothing is left to number below the columns. -/
def SchemaRef.Settled (s : SchemaRef) (ids : StoredIDs) : Prop :=
  (s.load ids).hasUnassignedFieldIDs = false ∨ s.cells = []

section Memory
variable {Text : Type} {codec : SchemaCodec Text} {s : SchemaRef} {ids : StoredIDs}

private theorem load_validate (ids' : StoredIDs) (h : (s.load ids).validate = .ok ()) :
    (s.load ids').validate = .ok () := by
  rw [Schema.validate_eq_ok] at h ⊢
  have hn : ∀ ids, (s.load ids).columns.map (·.name) = s.columns.map (·.name) := fun ids => map_map ..
  obtain ⟨hno,hnod,hc,hpr,hb,hp⟩ := h
  rw [hn] at hnod hpr hb hp
  refine ⟨?_,by rwa [hn],?_,by rwa [hn],by rwa [hn],by rwa [hn]⟩
  · intro hnil
    exact hno (map_eq_nil_iff.mpr (map_eq_nil_iff.mp hnil))
  intro column hco
  obtain ⟨stored,hs,rfl⟩ := mem_map.mp hco
  obtain ⟨hna,htr,ht⟩ := hc (stored.load ids) (mem_map_of_mem hs)
  refine ⟨hna,htr,?_⟩
  unfold Column.validateType ColumnRef.load at ht ⊢
  cases hl : stored.logicalType with
  | none =>
    rw [hl] at ht
    exact ht
  | some t =>
    rw [hl] at ht
    exact (t.load_validate ids' ids).trans ht

private theorem numbered_of_settled (h : s.Settled ids) : (s.numbered ids).2.ids = ids := by
  by_cases hu : (s.load ids).hasUnassignedFieldIDs = true
  · have hc : s.cells = [] := h.resolve_left (by simp [hu])
    rw [numbered_of_unassigned hu]
    funext cell
    apply columnsJSON_frame
    change cell ∉ s.cells
    simp [hc]
  · rw [numbered_of_assigned (by simpa using hu)]

private theorem afterCalls_of_settled (hv : (s.load ids).validate = .ok ()) (h : s.Settled ids) (calls : Nat) :
    s.afterCalls codec ids calls = ids := by
  induction calls with
  | zero => rfl
  | succ calls ih => rw [afterCalls,ih,json_eq hv,numbered_of_settled h]

private theorem numbered_pos (h : (s.load ids).hasUnassignedFieldIDs = true) {cell : Nat} (hc : cell ∈ s.cells) :
    0 < (s.numbered ids).2.ids cell := by
  rw [numbered_of_unassigned h]
  exact columnsJSON_lt hc

private theorem not_settled (h : ¬ s.Settled ids) :
    (s.load ids).hasUnassignedFieldIDs = true ∧ ∃ cell, cell ∈ s.cells := by
  rw [SchemaRef.Settled,not_or,Bool.not_eq_false] at h
  exact ⟨h.1,exists_mem_of_ne_nil _ h.2⟩

private theorem cell_mem_fieldIDs (s : SchemaRef) (ids : StoredIDs) {cell : Nat} (hc : cell ∈ s.cells) :
    ids cell ∈ (s.load ids).fieldIDs := by
  obtain ⟨column,hco,hc⟩ := mem_flatMap.mp hc
  rw [load_fieldIDs]
  exact mem_flatMap.mpr ⟨column,hco,mem_cons_of_mem _ (mem_map_of_mem hc)⟩
end Memory
/-- `JSON` leaves its schema as it was, and later calls give the same text, exactly when there is no nested
field to number. -/
theorem json_keeps_schema_iff {Text : Type} (codec : SchemaCodec Text) (s : SchemaRef) (ids : StoredIDs)
    (hvalid : (s.load ids).validate = .ok ()) :
    (s.load (s.json codec ids).2 = s.load ids ↔ s.Settled ids) ∧
      ((∀ calls, (s.json codec (s.afterCalls codec ids calls)).1 = (s.json codec ids).1) ↔ s.Settled ids) := by
  refine ⟨⟨fun hload => ?_,fun h => ?_⟩,fun hcalls => ?_,fun h calls => ?_⟩
  · by_contra hnot
    obtain ⟨hunassigned,cell,hcell⟩ := not_settled hnot
    rw [json_eq hvalid,SchemaRef.load_eq_iff] at hload
    have hpos := numbered_pos hunassigned hcell
    have hsame : (s.numbered ids).2.ids cell = ids cell := hload cell hcell
    rw [hsame,((s.load ids).hasUnassignedFieldIDs_iff.mp hunassigned).2 _ (cell_mem_fieldIDs s ids hcell)] at hpos
    cases hpos
  · rw [json_eq hvalid,numbered_of_settled h]
  · by_contra hnot
    obtain ⟨hunassigned,cell,hcell⟩ := not_settled hnot
    have hsecond := hcalls 1
    rw [SchemaRef.afterCalls,SchemaRef.afterCalls,json_eq hvalid,json_eq (load_validate _ hvalid)] at hsecond
    have hread := codec.unmarshal_marshal s ids hvalid
    rw [← ok.inj hsecond,codec.unmarshal_marshal s _ (load_validate _ hvalid)] at hread
    have hsame := congrArg SchemaJSON.highestFieldID (Except.ok.inj hread)
    have hassigned : (s.load (s.numbered ids).2.ids).hasUnassignedFieldIDs = false := by
      rw [← Bool.not_eq_true,Schema.hasUnassignedFieldIDs_iff]
      intro hzero
      have hpos := numbered_pos hunassigned hcell
      rw [hzero.2 _ (cell_mem_fieldIDs s _ hcell)] at hpos
      cases hpos
    have hzero : s.highestFieldID = 0 := ((s.load ids).hasUnassignedFieldIDs_iff.mp hunassigned).1
    have hcolumns : s.columns ≠ [] := by
      intro hnil
      rw [SchemaRef.cells,hnil] at hcell
      cases hcell
    have hlength := length_pos_of_mem hcell
    have hcount := length_pos_iff.mpr hcolumns
    rw [written_highest hunassigned,SchemaRef.written,hassigned,SchemaRef.load_fieldIDs_length] at hsame
    simp only [Bool.false_eq_true,if_false] at hsame
    omega
  · rw [afterCalls_of_settled hvalid h]

/-- The same schema with numbered columns. -/
def numberedSchema : SchemaRef := { taggedSchema with
  columns := zipWith (fun column id => { column with id := id }) taggedSchema.columns [0, 1]
  highestFieldID := 3 }

theorem json_keeps_schema_iff_numbered :
    let ids : StoredIDs := fun cell => cell + 2
    (numberedSchema.load ids).fieldIDs = [0, 1, 2, 3] ∧
      numberedSchema.load (numberedSchema.json structCodec ids).2 = numberedSchema.load ids ∧
      ∀ calls, (numberedSchema.json structCodec (numberedSchema.afterCalls structCodec ids calls)).1 =
        (numberedSchema.json structCodec ids).1 := by
  have hsettled : numberedSchema.Settled fun cell => cell + 2 := .inl (by decide)
  obtain ⟨hload,hcalls⟩ := json_keeps_schema_iff structCodec numberedSchema (fun cell => cell + 2) (by decide)
  exact ⟨by decide,hload.mpr hsettled,hcalls.mpr hsettled⟩
/-- The nested fields of the schema are numbered by the first call, and the second one then writes the
columns without numbers. -/
theorem json_changes_nested_schema :
    (taggedSchema.load 0).validate = .ok () ∧
      taggedSchema.load (taggedSchema.json structCodec 0).2 ≠ taggedSchema.load 0 ∧
      ∃ first second, (taggedSchema.json structCodec 0).1 = .ok first ∧
        (taggedSchema.json structCodec (taggedSchema.json structCodec 0).2).1 = .ok second ∧
        first.columns.map (·.id) = [0, 1] ∧ second.columns.map (·.id) = [0, 0] ∧
        first.highestFieldID = 3 ∧ second.highestFieldID = 0 := by
  refine ⟨rfl,?_,_,_,rfl,rfl,rfl,rfl,rfl,rfl⟩
  intro hload
  have hids := congrArg Schema.fieldIDs hload
  revert hids
  decide
/-- The types that `LogicalType.Validate` accepts only with parameters or nested types. -/
def DataType.parameterised : DataType → Bool
  | .char | .binary | .decimal | .array | .map | .row => true
  | _ => false
/-- The text of a schema, and the schema that is parsed from it, which is written again as it was wherever
its parts are stored. -/
structure RoundTrip {Text : Type} (codec : SchemaCodec Text) (s : SchemaRef) (ids : StoredIDs) (text : Text)
    (parsed : Schema) : Prop where
  json : (s.json codec ids).1 = .ok text
  parse : parseSchemaJSON codec text = .ok parsed
  again : ∀ (p : SchemaRef) ids', p.load ids' = parsed → (p.json codec ids').1 = .ok text
  columns : parsed.columns.map (fun column => (column.name, (logicalTypeForColumn column).withoutIDs, column.description)) =
    (s.load ids).columns.map fun column => (column.name, (logicalTypeForColumn column).withoutIDs, column.description)
  primaryKey : parsed.primaryKey = s.primaryKey
  autoIncrement : parsed.autoIncrement = s.autoIncrement
  fieldIDs : parsed.fieldIDs = (s.written ids).fieldIDs
  highest : parsed.highestFieldID = (s.written ids).highestFieldID

section RoundTrips
variable {Text : Type} {codec : SchemaCodec Text} {s : SchemaRef} {ids : StoredIDs}

theorem parseColumns_eq_ok (columns : List SchemaColumnJSON) (parsed : List Column) :
    parseColumns columns = .ok parsed ↔
      (∀ column ∈ columns, column.dataType.unmarshalJSON.validate = .ok ()) ∧ parsed = columns.map (·.toColumn) := by
  induction columns generalizing parsed with
  | nil => simp [parseColumns,eq_comm]
  | cons column columns ih =>
    rw [parseColumns,bind_unit_eq_ok,bind_eq_ok]
    simp only [ih,forall_mem_cons,map_cons]
    constructor
    · rintro ⟨ht,rest,⟨hr,rfl⟩,hp⟩
      exact ⟨⟨ht,hr⟩,(ok.inj hp).symm⟩
    · rintro ⟨⟨ht,hr⟩,rfl⟩
      exact ⟨ht,_,⟨hr,rfl⟩,rfl⟩

private def SchemaJSON.schema (w : SchemaJSON) : Schema where
  columns := w.columns.map (·.toColumn)
  primaryKey := w.primaryKey
  autoIncrement := w.autoIncrement
  highestFieldID := w.highestFieldID

private theorem parseSchemaJSON_eq_ok (hv : (s.load ids).validate = .ok ()) (parsed : Schema) :
    parseSchemaJSON codec (codec.marshal (s.written ids)) = .ok parsed ↔
      (∀ column ∈ (s.written ids).columns, column.dataType.unmarshalJSON.validate = .ok ()) ∧
        (s.written ids).schema.validate = .ok () ∧ parsed = (s.written ids).schema := by
  rw [parseSchemaJSON,codec.unmarshal_marshal s ids hv]
  constructor
  · intro h
    obtain ⟨columns,hc,h⟩ := of_bind h
    obtain ⟨ht,rfl⟩ := (parseColumns_eq_ok _ _).mp hc
    obtain ⟨hv,hp⟩ := of_seq h
    exact ⟨ht,hv,(ok.inj hp).symm⟩
  · rintro ⟨ht,hv,rfl⟩
    apply bind_eq_ok.mpr
    exact ⟨_,(parseColumns_eq_ok _ _).mpr ⟨ht,rfl⟩,bind_unit_eq_ok.mpr ⟨hv,rfl⟩⟩

private def Schema.asIs (s : Schema) : SchemaJSON where
  version := 1
  columns := s.columns.map fun column => ⟨column.name,(logicalTypeForColumn column).marshalJSON,column.description,column.id⟩
  primaryKey := s.primaryKey
  autoIncrement := s.autoIncrement
  highestFieldID := s.highestFieldID

private theorem asIs_columns (s : SchemaRef) (ids : StoredIDs) : (s.load ids).asIs.columns =
      s.columns.map fun column => ⟨column.name,(column.typeRef.load ids).marshalJSON,column.description,column.id⟩ := by
  simp only [Schema.asIs,load,map_map]
  apply map_congr_left
  intro column _
  simp only [comp_apply,logicalTypeForColumn_load]
  rfl

private theorem written_of_assigned (h : (s.load ids).hasUnassignedFieldIDs = false) :
    s.written ids = (s.load ids).asIs := by
  apply SchemaJSON.ext
  · rfl
  · rw [asIs_columns,written,numbered_of_assigned h,map_map]
    rfl
  · rfl
  · rfl
  · rw [written,h]
    rfl

private theorem written_of_single (h : (s.load ids).fieldIDs.length = 1)
    (hu : (s.load ids).hasUnassignedFieldIDs = true) : s.written ids = (s.load ids).asIs := by
  obtain ⟨hh,hz⟩ := (s.load ids).hasUnassignedFieldIDs_iff.mp hu
  have hla := written_highest hu
  rw [h] at hla
  rw [load_fieldIDs_length] at h
  have hsi : ∃ column, s.columns = [column] := by
    rw [← length_eq_one_iff]
    have hpos : s.columns.length ≠ 0 := by
      intro hl
      have hce : s.cells = [] := by rw [cells,length_eq_zero_iff.mp hl,flatMap_nil]
      rw [hl,hce] at h
      cases h
    omega
  obtain ⟨column,hc⟩ := hsi
  have hid : column.id = 0 := by
    apply hz
    rw [load_fieldIDs,hc]
    exact mem_cons_self
  have hs : s.Settled ids := by
    refine .inr (length_eq_zero_iff.mp ?_)
    rw [hc,length_singleton] at h
    omega
  apply SchemaJSON.ext
  · rfl
  · rw [asIs_columns,written,numbered_of_settled hs,numbered_of_unassigned hu,hc,columnsJSON_cons]
    simp only [columnsJSON,map_cons,map_nil,SchemaColumnRef.marshal,hid]
  · rfl
  · rfl
  · rw [hla]
    exact hh.symm

private theorem schema_fieldIDs (w : SchemaJSON) : w.schema.fieldIDs = w.fieldIDs := flatMap_map ..

private theorem asIs_fieldIDs (s : Schema) : s.asIs.fieldIDs = s.fieldIDs := by
  simp only [SchemaJSON.fieldIDs,Schema.asIs,flatMap_map,LogicalType.unmarshalJSON_marshalJSON]
  rfl

private theorem schema_asIs (s : SchemaRef) (ids : StoredIDs) : (s.written ids).schema.asIs = s.written ids := by
  apply SchemaJSON.ext
  · rfl
  · simp only [Schema.asIs,SchemaJSON.schema,written,map_map]
    apply map_congr_left
    intro column _
    simp only [comp_apply,SchemaColumnJSON.toColumn,logicalTypeForColumn,SchemaColumnRef.marshal,
      LogicalType.unmarshalJSON_marshalJSON]
  · rfl
  · rfl
  · rfl

private theorem schema_settles (hun : s.Unshared)
    (h : (s.written ids).schema.hasUnassignedFieldIDs = true) : (s.written ids).schema.fieldIDs.length = 1 := by
  obtain ⟨hh,hz⟩ := (s.written ids).schema.hasUnassignedFieldIDs_iff.mp h
  rw [schema_fieldIDs] at hz ⊢
  by_cases hu : (s.load ids).hasUnassignedFieldIDs = true
  · have hl : (s.written ids).highestFieldID = 0 := hh
    rw [written_highest hu] at hl
    rw [written_range hu hun,length_map,length_range]
    omega
  · rw [written_of_assigned (by simpa using hu)] at hh hz
    exfalso
    apply hu
    rw [Schema.hasUnassignedFieldIDs_iff]
    refine ⟨hh,fun id hid => hz id ?_⟩
    rw [asIs_fieldIDs]
    exact hid

private theorem written_again (hun : s.Unshared) {p : SchemaRef} {ids' : StoredIDs}
    (hl : p.load ids' = (s.written ids).schema) : p.written ids' = s.written ids := by
  have ha : p.written ids' = (p.load ids').asIs := by
    by_cases hu : (p.load ids').hasUnassignedFieldIDs = true
    · apply written_of_single _ hu
      rw [hl] at hu ⊢
      exact schema_settles hun hu
    · exact written_of_assigned (by simpa using hu)
  rw [ha,hl,schema_asIs]

private theorem plain_validate {dataType : DataType} (h : dataType.validate = .ok ()) (nullable : Bool) :
    (LogicalType.mk (logicalRoot dataType) nullable 0 0 0 none none none []).validate = .ok () ↔
      dataType.parameterised = false := by
  cases dataType <;> simp_all [logicalRoot,LogicalType.validate,DataType.parameterised,LogicalType.validateLength,
    LogicalType.validateDecimal,LogicalType.validateTemporal,DataType.validate]

private theorem written_validate (hv : (s.load ids).validate = .ok ()) :
    (∀ column ∈ (s.written ids).columns, column.dataType.unmarshalJSON.validate = .ok ()) ↔
      ∀ column ∈ s.columns, column.logicalType = none → column.type.parameterised = false := by
  have hw : (∀ column ∈ (s.written ids).columns, column.dataType.unmarshalJSON.validate = .ok ()) ↔
      ∀ column ∈ s.columns, (column.typeRef.load ids).validate = .ok () := by
    have hty := congrArg (map fun x : String × LogicalType × String => x.2.1.validate) (written_columns s ids)
    simp only [map_map,comp_def,LogicalType.withoutIDs_validate,load,logicalTypeForColumn_load] at hty
    rw [← forall_mem_map (f := fun column : SchemaColumnJSON => column.dataType.unmarshalJSON.validate) (P := (· = .ok ())),
      hty,forall_mem_map]
  rw [hw]
  apply forall₂_congr
  intro column hc
  have ht := (((s.load ids).validate_eq_ok).mp hv).columns _ (mem_map_of_mem hc) |>.type
  unfold Column.validateType ColumnRef.load at ht
  unfold ColumnRef.typeRef
  cases hl : column.logicalType with
  | none =>
    rw [hl] at ht
    simp only [forall_const]
    exact plain_validate ht _
  | some t =>
    rw [hl] at ht
    simp only [reduceCtorEq,false_imp_iff,iff_true]
    exact ht

private theorem schema_columns (s : SchemaRef) (ids : StoredIDs) : (s.written ids).schema.columns.map (fun column =>
        (column.name, (logicalTypeForColumn column).withoutIDs, column.description)) =
      (s.load ids).columns.map fun column => (column.name, (logicalTypeForColumn column).withoutIDs, column.description) := by
  rw [← written_columns,SchemaJSON.schema,map_map]
  rfl

private theorem schema_names (s : SchemaRef) (ids : StoredIDs) :
    (s.written ids).schema.columns.map (·.name) = (s.load ids).columns.map (·.name) := by
  have hn := congrArg (map Prod.fst) (schema_columns s ids)
  rw [map_map,map_map] at hn
  exact hn

private theorem schema_validate (hv : (s.load ids).validate = .ok ())
    (ht : ∀ column ∈ (s.written ids).columns, column.dataType.unmarshalJSON.validate = .ok ()) :
    (s.written ids).schema.validate = .ok () := by
  rw [Schema.validate_eq_ok] at hv ⊢
  have hn := schema_names s ids
  refine ⟨?_,by rw [hn]; exact hv.nodup,?_,by rw [hn]; exact hv.primaryKey,by simp [SchemaJSON.schema],
    by simp [SchemaJSON.schema]⟩
  · intro hnil
    rw [hnil,map_nil] at hn
    exact hv.nonempty (map_eq_nil_iff.mp hn.symm)
  · intro column hc
    obtain ⟨encoded,he,rfl⟩ := mem_map.mp hc
    have hna : encoded.toColumn.name ∈ (s.load ids).columns.map (·.name) := by
      rw [← hn]
      exact mem_map_of_mem hc
    obtain ⟨column,hs,hsa⟩ := mem_map.mp hna
    have hs := hv.columns column hs
    exact ⟨hsa ▸ hs.name_ne,hsa ▸ hs.trimmed,ht encoded he⟩
end RoundTrips
/-- The text of an accepted schema is parsed back to the same columns, types and keys, and written again
as it was, exactly when every column that has no logical type has a type without parameters. -/
theorem json_round_trips_iff {Text : Type} (codec : SchemaCodec Text) (s : SchemaRef) (ids : StoredIDs)
    (hvalid : (s.load ids).validate = .ok ()) (hunshared : s.Unshared) :
    (∃ text parsed, RoundTrip codec s ids text parsed) ↔
      ∀ column ∈ s.columns, column.logicalType = none → column.type.parameterised = false := by
  rw [← written_validate hvalid]
  constructor
  · rintro ⟨text,parsed,h⟩
    have htext : codec.marshal (s.written ids) = text := by
      have hjson := h.json
      rw [json_eq hvalid] at hjson
      exact ok.inj hjson
    have hparse := h.parse
    rw [← htext,parseSchemaJSON_eq_ok hvalid] at hparse
    exact hparse.1
  · intro htypes
    have hparsed := schema_validate hvalid htypes
    refine ⟨codec.marshal (s.written ids),(s.written ids).schema,congrArg Prod.fst (json_eq hvalid),?_,?_,
      schema_columns s ids,rfl,rfl,schema_fieldIDs _,rfl⟩
    · exact (parseSchemaJSON_eq_ok hvalid _).mpr ⟨htypes,hparsed,rfl⟩
    · intro p ids' hload
      rw [json_eq (hload.symm ▸ hparsed),written_again hunshared hload]

theorem json_round_trips_iff_nested : ∃ text parsed, RoundTrip structCodec taggedSchema 0 text parsed := by
  apply (json_round_trips_iff structCodec taggedSchema 0 rfl (by decide)).mpr
  decide
/-- A column of the type `CHAR` without a logical type is accepted and written, but not parsed. -/
theorem char_text_is_rejected :
    let s : SchemaRef := { columns := [{ name := "c", type := .char }] }
    (s.load 0).validate = .ok () ∧ s.Unshared ∧
      ∃ text, (s.json structCodec 0).1 = .ok text ∧ (parseSchemaJSON structCodec text).isErr = true :=
  ⟨rfl,by decide,_,rfl,by decide⟩
end FlussGo
