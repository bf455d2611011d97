import FlussGo.Schema.Model
import Mathlib.Data.List.Forall2
import Mathlib.Tactic.Tauto
/-!
# Schema and row validation

`Schema.Validate`, `LogicalType.Validate` and `Schema.ValidateRow`, with the texts of their errors, and tables
with their paths.
-/
namespace FlussGo
open List Outcome Prod
def DataType.validate : DataType → Go Unit
  | .other name => failf .invalidSchema s!"unsupported data type {name.quote}"
  | _ => .ok ()

def LogicalType.validateLength (t : LogicalType) : Go Unit :=
  if t.length < 1 then failf .invalidSchema s!"{t.root.text} length must be positive" else .ok ()

def LogicalType.validateDecimal (t : LogicalType) : Go Unit :=
  if t.precision < 1 ∨ 38 < t.precision ∨ t.scale < 0 ∨ t.precision < t.scale then
    failf .invalidSchema "invalid DECIMAL precision or scale"
  else .ok ()

def LogicalType.validateTemporal (t : LogicalType) : Go Unit :=
  if t.precision < 0 ∨ 9 < t.precision then
    failf .invalidSchema s!"invalid {t.root.text} precision"
  else .ok ()

mutual
def LogicalType.validate : LogicalType → Go Unit
  | ⟨root,nullable,length,precision,scale,element,key,value,fields⟩ =>
    match root with
    | .integer | .named .bool | .named .tinyInt | .named .smallInt | .named .bigInt | .named .float
    | .named .double | .named .date | .named .string | .named .bytes => .ok ()
    | .named .char | .named .binary =>
      LogicalType.validateLength ⟨root,nullable,length,precision,scale,element,key,value,fields⟩
    | .named .decimal =>
      LogicalType.validateDecimal ⟨root,nullable,length,precision,scale,element,key,value,fields⟩
    | .named .time | .timestampWithoutTimeZone | .named .timestampLTZ =>
      LogicalType.validateTemporal ⟨root,nullable,length,precision,scale,element,key,value,fields⟩
    | .named .array =>
      match element with
      | none => failf .invalidSchema "ARRAY element type is required"
      | some e => e.validate
    | .named .map =>
      match key, value with
      | some k, some v => do
        k.validate
        v.validate
      | _, _ => failf .invalidSchema "MAP key and value types are required"
    | .named .row =>
      match fields with
      | [] => failf .invalidSchema "ROW fields are required"
      | field :: rest => LogicalField.validateAll (field :: rest)
    | root => failf .invalidSchema s!"unsupported logical type {root.text.quote}"

def LogicalField.validateAll : List LogicalField → Go Unit
  | [] => .ok ()
  | ⟨name,type,_,_⟩ :: rest =>
    if name = "" then failf .invalidSchema "ROW field name is required" else do
      type.validate
      LogicalField.validateAll rest
end
/-- The type check of `validateColumns` for one column. -/
def Column.validateType (column : Column) : Go Unit :=
  match column.logicalType with
  | some t => t.validate
  | none => column.type.validate
/-- The loop of `validateColumns`; `seen` are the names of the columns before. -/
def validateColumns : List Column → List String → Go Unit
  | [], _ => .ok ()
  | column :: rest, seen =>
    if column.name = "" ∨ trimSpace column.name ≠ column.name then
      failf .invalidSchema "invalid column name"
    else if column.name ∈ seen then
      failf .invalidSchema s!"duplicate column {column.name.quote}"
    else do
      column.validateType
      validateColumns rest (column.name :: seen)

def validateSchemaKeys (columns : List Column) : List String → Go Unit
  | [] => .ok ()
  | key :: rest =>
    if columns.any (·.name = key) then validateSchemaKeys columns rest
    else failf .invalidSchema s!"key column {key.quote} does not exist"

def Schema.validate (s : Schema) : Go Unit :=
  match s.columns with
  | [] => failf .invalidSchema "schema has no columns"
  | _ => do
    validateColumns s.columns []
    validateSchemaKeys s.columns s.primaryKey
    validateSchemaKeys s.columns s.bucketKey
    validateSchemaKeys s.columns s.partitionKey
/-- `validUntypedValue`: only the dynamic type is checked. -/
def validUntypedValue : DataType → Value → Bool
  | .bool, .bool _ => true
  | .int, .int32 _ => true
  | .tinyInt, .int8 _ => true
  | .smallInt, .int16 _ => true
  | .bigInt, .int64 _ => true
  | .float, .float32 _ => true
  | .double, .float64 _ => true
  | .string, .string _ | .char, .string _ => true
  | .binary, .bytes _ | .bytes, .bytes _ => true
  | .decimal, .rat _ => true
  | .date, .time _ | .time, .time _ | .timestamp, .time _ | .timestampLTZ, .time _ => true
  | .array, .array _ => true
  | .map, v => (mapEntries v).isSome
  | .row, .row _ => true
  | _, _ => false

mutual
def validLogicalValue : LogicalType → Value → Bool
  | ⟨root,nullable,_,_,_,element,key,value,fields⟩, v =>
    if v.isNil then nullable else
      match dataTypeOfRoot root with
      | .array =>
        match v with
        | .array vs => validLogicalElements element vs
        | _ => false
      | .map =>
        match mapEntries v with
        | some entries =>
          validLogicalElements key (entries.map fst) && validLogicalElements value (entries.map snd)
        | none => false
      | .row =>
        match v with
        | .row vs => validLogicalRow fields vs
        | _ => false
      | kind => validUntypedValue kind v
/-- Array elements, map keys or map values; a nil type pointer accepts nothing. -/
def validLogicalElements : Option LogicalType → List Value → Bool
  | none, _ => false
  | some t, vs => vs.all fun v => validLogicalValue t v

def validLogicalRow : List LogicalField → List Value → Bool
  | [], [] => true
  | ⟨_,type,_,_⟩ :: fields, v :: vs => validLogicalValue type v && validLogicalRow fields vs
  | _, _ => false
end

theorem validLogicalValue_eq (t : LogicalType) (v : Value) : validLogicalValue t v = if v.isNil then t.nullable else
        match dataTypeForLogicalType t with
        | .array =>
          match v with
          | .array vs => validLogicalElements t.element vs
          | _ => false
        | .map =>
          match mapEntries v with
          | some entries =>
            validLogicalElements t.key (entries.map fst) && validLogicalElements t.value (entries.map snd)
          | none => false
        | .row =>
          match v with
          | .row vs => validLogicalRow t.fields vs
          | _ => false
        | kind => validUntypedValue kind v := by
  cases t
  unfold validLogicalValue
  rfl

def validateColumnValue (column : Column) (v : Value) : Go Unit :=
  if v.isNil then
    if column.nullable then .ok ()
    else failf .invalidRow s!"column {column.name.quote} is not nullable"
  else
    match column.logicalType with
    | none =>
      if validUntypedValue column.type v then .ok ()
      else failf .invalidRow s!"column {column.name.quote} expects {column.type.text}"
    | some t =>
      if validLogicalValue t v then .ok ()
      else failf .invalidRow s!"column {column.name.quote} expects {column.type.text}"

def Schema.selectedColumns (s : Schema) (columns : List String) : List String :=
  match columns with
  | [] => s.columns.map (·.name)
  | _ => columns
/-- Lookup in `columnsByName`; the callers have validated that names are distinct. -/
def Schema.columnByName (s : Schema) (name : String) : Option Column :=
  s.columns.find? (·.name = name)

def Schema.validateValues (s : Schema) : List String → Row → Go Unit
  | name :: names, v :: vs =>
    match s.columnByName name with
    | none => failf .invalidRow s!"unknown column {name.quote}"
    | some column => do
      validateColumnValue column v
      s.validateValues names vs
  | _, _ => .ok ()

def Schema.validateRow (s : Schema) (row : Row) (columns : List String) : Go Unit := do
  s.validate
  let names := s.selectedColumns columns
  if row.length ≠ names.length then
    failf .invalidRow s!"got {row.length} values for {names.length} columns"
  else s.validateValues names row

def Schema.validatePrimaryKey (s : Schema) (key : Row) : Go Unit := s.validateRow key s.primaryKey

structure Column.Valid (column : Column) : Prop where
  name_ne : column.name ≠ ""
  trimmed : trimSpace column.name = column.name
  type : column.validateType = .ok ()
/-- What `Schema.validate` accepts. -/
structure Schema.Valid (s : Schema) : Prop where
  nonempty : s.columns ≠ []
  nodup : (s.columns.map (·.name)).Nodup
  columns : ∀ column ∈ s.columns, column.Valid
  primaryKey : ∀ key ∈ s.primaryKey, key ∈ s.columns.map (·.name)
  bucketKey : ∀ key ∈ s.bucketKey, key ∈ s.columns.map (·.name)
  partitionKey : ∀ key ∈ s.partitionKey, key ∈ s.columns.map (·.name)

theorem validateColumns_eq_ok (columns : List Column) (seen : List String) : validateColumns columns seen = .ok () ↔
      (columns.map (·.name)).Nodup ∧ (∀ column ∈ columns, column.name ∉ seen) ∧ ∀ column ∈ columns, column.Valid := by
  induction columns generalizing seen with
  | nil => simp [validateColumns]
  | cons column columns ih =>
    have hst : validateColumns (column :: columns) seen = .ok () ↔
        column.Valid ∧ column.name ∉ seen ∧ validateColumns columns (column.name :: seen) = .ok () := by
      rw [validateColumns]
      split
      · simp only [failf_ne_ok,false_iff]
        rintro ⟨⟨hne,htr,_⟩,_⟩
        simp_all
      split
      · simp_all
      rename_i hna hse
      rw [bind_unit_eq_ok]
      constructor
      · rintro ⟨ht,hr⟩
        exact ⟨⟨by tauto,by tauto,ht⟩,hse,hr⟩
      · rintro ⟨hva,_,hr⟩
        exact ⟨hva.type,hr⟩
    rw [hst,ih]
    simp only [map_cons,nodup_cons,mem_cons,mem_map,not_or,forall_eq_or_imp]
    constructor
    · rintro ⟨hv,hs,hn,hd,ha⟩
      refine ⟨⟨?_,hn⟩,⟨hs,fun c hc => (hd c hc).2⟩,hv,ha⟩
      rintro ⟨c,hc,he⟩
      exact (hd c hc).1 he
    · rintro ⟨⟨hnot,hn⟩,⟨hs,hd⟩,hv,ha⟩
      exact ⟨hv,hs,hn,fun c hc => ⟨fun he => hnot ⟨c,hc,he⟩,hd c hc⟩,ha⟩

theorem validateSchemaKeys_eq_ok (columns : List Column) (keys : List String) :
    validateSchemaKeys columns keys = .ok () ↔ ∀ key ∈ keys, key ∈ columns.map (·.name) := by
  induction keys with
  | nil => simp [validateSchemaKeys]
  | cons key keys ih =>
    rw [validateSchemaKeys]
    split
    next hany =>
      simp_all
    next hany =>
      simp_all

theorem Schema.validate_eq_ok (s : Schema) : s.validate = .ok () ↔ s.Valid := by
  rw [Schema.validate]
  split
  next hnil =>
    simp only [failf_ne_ok,false_iff]
    exact fun h => h.nonempty hnil
  next hne =>
    simp only [bind_unit_eq_ok,validateColumns_eq_ok,validateSchemaKeys_eq_ok]
    constructor
    · rintro ⟨⟨hn,_,hv⟩,hp,hb,hpa⟩
      exact ⟨hne,hn,hv,hp,hb,hpa⟩
    · intro h
      exact ⟨⟨h.nodup,by simp,h.columns⟩,h.primaryKey,h.bucketKey,h.partitionKey⟩

theorem Schema.Valid.columnByName {s : Schema} (h : s.Valid) {column : Column} (hc : column ∈ s.columns) :
    s.columnByName column.name = some column := by
  have hn := h.nodup
  unfold Schema.columnByName
  generalize s.columns = columns at hc hn
  induction columns with
  | nil => simp at hc
  | cons c columns ih =>
    rw [map_cons,nodup_cons] at hn
    rcases mem_cons.mp hc with rfl | hmem
    · simp
    · have hne : c.name ≠ column.name := fun he => hn.1 (he ▸ mem_map_of_mem hmem)
      rw [find?_cons_of_neg (by simpa using hne)]
      exact ih hmem hn.2
/-- `ValidateRow` over all columns, once the names are known to be distinct. -/
def validateColumnValues : List Column → Row → Go Unit
  | column :: columns, v :: row => do
    validateColumnValue column v
    validateColumnValues columns row
  | _, _ => .ok ()

private theorem Schema.Valid.validateValues {s : Schema} (h : s.Valid) {columns : List Column}
    (hsub : ∀ column ∈ columns, column ∈ s.columns) (row : Row) :
    s.validateValues (columns.map (·.name)) row = validateColumnValues columns row := by
  induction columns generalizing row with
  | nil => cases row <;> rfl
  | cons column columns ih =>
    cases row with
    | nil => rfl
    | cons v row =>
      have hco := h.columnByName (hsub column mem_cons_self)
      rw [map_cons,Schema.validateValues,hco,validateColumnValues]
      simp only [ih fun c hc => hsub c (mem_cons_of_mem _ hc)]

theorem Schema.validateRow_all (s : Schema) (row : Row) : s.validateRow row [] = (do
      s.validate if row.length ≠ s.columns.length then
        failf .invalidRow s!"got {row.length} values for {s.columns.length} columns"
      else validateColumnValues s.columns row) := by
  rw [Schema.validateRow]
  cases hv : s.validate with
  | err e => rfl
  | panic p => rfl
  | ok u =>
    have hva := (s.validate_eq_ok).mp hv
    simp only [bind_ok,Schema.selectedColumns,length_map,
      hva.validateValues fun _ hc => hc]

theorem validateColumnValues_eq_ok {columns : List Column} {row : Row} (hl : row.length = columns.length) :
    validateColumnValues columns row = .ok () ↔
      List.Forall₂ (fun column v => validateColumnValue column v = .ok ()) columns row := by
  induction columns generalizing row with
  | nil => simp_all [validateColumnValues]
  | cons column columns ih =>
    cases row with
    | nil => simp at hl
    | cons v row =>
      rw [validateColumnValues,bind_unit_eq_ok,List.forall₂_cons,ih (by simpa using hl)]

theorem Schema.validateRow_eq_ok (s : Schema) (row : Row) : s.validateRow row [] = .ok () ↔
      s.Valid ∧ List.Forall₂ (fun column v => validateColumnValue column v = .ok ()) s.columns row := by
  rw [s.validateRow_all,bind_unit_eq_ok,s.validate_eq_ok]
  apply and_congr_right
  intro _
  constructor
  · intro h
    split at h
    · simp at h
    · exact (validateColumnValues_eq_ok (not_not.mp ‹_›)).mp h
  · intro h
    have hl := h.length_eq.symm
    rw [if_neg (not_not.mpr hl)]
    exact (validateColumnValues_eq_ok hl).mpr h

theorem validateColumnValue_eq_ok (column : Column) (v : Value) : validateColumnValue column v = .ok () ↔
      if v.isNil then column.nullable = true else match column.logicalType with
        | none => validUntypedValue column.type v = true
        | some t => validLogicalValue t v = true := by
  unfold validateColumnValue
  split
  · split <;> simp_all
  · cases column.logicalType <;> (dsimp only; split <;> simp_all)

section NoPanic
variable {c : Prop} [Decidable c] {x y : Go Unit} {f : Unit → Go Unit} {sentinel : Sentinel}
/-- The check does not panic, and its errors have this sentinel. -/
def Refuses (sentinel : Sentinel) (x : Go Unit) : Prop := x.Safe ∧ x.Errs fun e => e.sentinel = some sentinel

private theorem refuses_ok : Refuses sentinel (.ok ()) := ⟨trivial,errs_ok _ _⟩

private theorem refuses_failf (message : String) : Refuses sentinel (failf sentinel message) := ⟨trivial,errs_err rfl⟩

private theorem refuses_ite (hx : Refuses sentinel x) (hy : Refuses sentinel y) : Refuses sentinel (if c then x else y) := by
  split <;> assumption

private theorem Refuses.bind (hx : Refuses sentinel x) (hf : ∀ a, Refuses sentinel (f a)) : Refuses sentinel (x >>= f) :=
  ⟨hx.1.bind fun a _ _ => (hf a).1,hx.2.bind fun a => (hf a).2⟩

private theorem validateAll_refuses {fields : List LogicalField}
    (h : ∀ f ∈ fields, Refuses .invalidSchema f.type.validate) :
    Refuses .invalidSchema (LogicalField.validateAll fields) := by
  induction fields with
  | nil => exact refuses_ok
  | cons f fields ih =>
    obtain ⟨name,type,_,_⟩ := f
    rw [forall_mem_cons] at h
    exact refuses_ite (refuses_failf _) (h.1.bind fun _ => ih h.2)

private theorem LogicalType.validate_refuses (t : LogicalType) : Refuses .invalidSchema t.validate := by
  induction t using LogicalType.induction with
  | step t ih =>
    obtain ⟨he,hkey,hv,hf⟩ := ih
    obtain ⟨root,nullable,length,precision,scale,element,key,value,fields⟩ := t
    dsimp only at he hkey hv hf
    unfold LogicalType.validate
    split
    any_goals exact refuses_ok
    any_goals exact refuses_failf _
    any_goals exact refuses_ite (refuses_failf _) refuses_ok
    · split
      · exact refuses_failf _
      · exact he _ rfl
    · split
      · exact (hkey _ rfl).bind fun _ => hv _ rfl
      · exact refuses_failf _
    · split
      · exact refuses_failf _
      · exact validateAll_refuses hf

private theorem validateColumns_refuses (columns : List Column) :
    ∀ seen, Refuses .invalidSchema (validateColumns columns seen) := by
  induction columns with
  | nil => exact fun _ => refuses_ok
  | cons column columns ih =>
    intro seen
    have ht : Refuses .invalidSchema column.validateType := by
      unfold Column.validateType
      split
      · exact LogicalType.validate_refuses _
      · unfold DataType.validate
        split
        · exact refuses_failf _
        · exact refuses_ok
    exact refuses_ite (refuses_failf _) (refuses_ite (refuses_failf _) (ht.bind fun _ => ih _))

private theorem validateSchemaKeys_refuses (columns : List Column) (keys : List String) :
    Refuses .invalidSchema (validateSchemaKeys columns keys) := by
  induction keys with
  | nil => exact refuses_ok
  | cons key keys ih => exact refuses_ite ih (refuses_failf _)

theorem Schema.validate_refuses (s : Schema) : Refuses .invalidSchema s.validate := by
  have hk := validateSchemaKeys_refuses s.columns
  unfold Schema.validate
  split
  · exact refuses_failf _
  · exact (validateColumns_refuses _ _).bind fun _ => (hk _).bind fun _ => (hk _).bind fun _ => hk _

theorem validateColumnValue_refuses (column : Column) (v : Value) :
    Refuses .invalidRow (validateColumnValue column v) := by
  unfold validateColumnValue
  split
  · exact refuses_ite refuses_ok (refuses_failf _)
  · split <;> exact refuses_ite refuses_ok (refuses_failf _)

theorem Schema.validateRow_sat (s : Schema) (row : Row) (columns : List String) :
    (s.validateRow row columns).Safe := by
  have hv : ∀ names row, (s.validateValues names row).Safe := by
    intro names
    induction names with
    | nil => intro row; trivial
    | cons name names ih =>
      intro row
      cases row with
      | nil => trivial
      | cons v row =>
        rw [Schema.validateValues]
        split
        · exact sat_failf _ _ _
        · exact (validateColumnValue_refuses _ _).1.bind fun _ _ _ => ih row
  refine s.validate_refuses.1.bind fun _ _ _ => ?_
  dsimp only
  split
  · exact sat_failf _ _ _
  · exact hv _ _
end NoPanic

structure TablePath where
  database : String
  table : String
deriving DecidableEq

def TablePath.text (p : TablePath) : String := p.database ++ "." ++ p.table

def TablePath.validate (p : TablePath) : Go Unit :=
  if p.database = "" ∨ p.table = "" then failf .invalidConfig "table path requires database and table"
  else .ok ()
/-- A table and the name of one of its partitions, empty for the table itself. -/
structure PhysicalTablePath where
  tablePath : TablePath
  partition : String
deriving DecidableEq

def PhysicalTablePath.validate (p : PhysicalTablePath) : Go Unit := do
  p.tablePath.validate
  if p.partition ≠ "" ∧ trimSpace p.partition = "" then failf .invalidConfig "invalid partition name"
  else return ()

def PhysicalTablePath.text (p : PhysicalTablePath) : String :=
  if p.partition = "" then p.tablePath.text else p.tablePath.text ++ "(p=" ++ p.partition ++ ")"

inductive TableKind where
  | log
  | primaryKey
  | other (name : String)
deriving DecidableEq

structure Table where
  id : Int
  schemaID : Int
  path : TablePath
  kind : TableKind
  schema : Schema
  bucketCount : Int := 0
  /-- A nil map is `none`. -/
  properties : Option (List (String × String)) := none

def Table.property (t : Table) (key : String) : String :=
  (((t.properties.getD []).lookup key)).getD ""

def Table.requireLog (t : Table) : Go Unit :=
  if t.kind ≠ .log then failf .tableKind s!"{t.path.text} is not a log table" else .ok ()

def Table.requirePrimaryKey (t : Table) : Go Unit :=
  if t.kind ≠ .primaryKey then failf .tableKind s!"{t.path.text} is not a primary-key table" else .ok ()

def maxInt16 : Int := 32767
def maxInt32 : Int := 2147483647
def maxInt64 : Int := 9223372036854775807
end FlussGo
