import FlussGo.Log.ArrowEvolution
/-!
# Schemas through Arrow and back

`SchemaFromArrow` of `arrow.go`. Arrow has one string type, one timestamp type and four time units, and its
map keys are never null, so what comes back is not the schema but its `arrowForm`.
-/
namespace FlussGo
open LogicalField
variable {fields : List ArrowField}

open Outcome List
def precisionForUnit : TimeUnit → Int
  | .second => 0
  | .millisecond => 3
  | .microsecond => 6
  | .nanosecond => 9

def LogicalType.checked (t : LogicalType) : Go LogicalType := do
  t.validate
  return t

mutual
def logicalTypeFromArrow : ArrowField → Go LogicalType
  | ⟨_,type,nullable⟩ => logicalTypeOfArrow nullable type

def logicalTypeOfArrow (nullable : Bool) : ArrowType → Go LogicalType
  | .boolean => LogicalType.checked { root := .named .bool,nullable }
  | .int8 => LogicalType.checked { root := .named .tinyInt,nullable }
  | .int16 => LogicalType.checked { root := .named .smallInt,nullable }
  | .int32 => LogicalType.checked { root := .integer,nullable }
  | .int64 => LogicalType.checked { root := .named .bigInt,nullable }
  | .float32 => LogicalType.checked { root := .named .float,nullable }
  | .float64 => LogicalType.checked { root := .named .double,nullable }
  | .string => LogicalType.checked { root := .named .string,nullable }
  | .binary => LogicalType.checked { root := .named .bytes,nullable }
  | .date32 => LogicalType.checked { root := .named .date,nullable }
  | .fixedSizeBinary length => LogicalType.checked { root := .named .binary,nullable,length }
  | .decimal128 precision scale => LogicalType.checked { root := .named .decimal,nullable,precision,scale }
  | .time32 unit | .time64 unit =>
    LogicalType.checked { root := .named .time,nullable,precision := precisionForUnit unit }
  | .timestamp unit =>
    LogicalType.checked { root := .timestampWithoutTimeZone,nullable,precision := precisionForUnit unit }
  | .list element => do
    let element ← logicalTypeFromArrow element
    LogicalType.checked { root := .named .array,nullable,element := some element }
  | .map key value => do
    let key ← logicalTypeFromArrow key
    let value ← logicalTypeFromArrow value
    LogicalType.checked { root := .named .map,nullable,key := some { key with nullable := false },value := some value }
  | .struct nested => do
    let fields ← logicalFieldsFromArrow nested
    LogicalType.checked { root := .named .row,nullable,fields }

def logicalFieldsFromArrow : List ArrowField → Go (List LogicalField)
  | [] => .ok []
  | ⟨name,type,nullable⟩ :: rest => do
    let nested ← logicalTypeOfArrow nullable type
    let fields ← logicalFieldsFromArrow rest
    return { name,type := nested } :: fields
end

def columnsFromArrow : List ArrowField → Go (List Column)
  | [] => .ok []
  | field :: rest => do
    let t ← logicalTypeFromArrow field
    let columns ← columnsFromArrow rest
    return ⟨field.name,dataTypeForLogicalType t,field.nullable,some t,"",0⟩ :: columns
/-- `SchemaFromArrow`, of a schema that is not nil. -/
def schemaFromArrow (fields : List ArrowField) : Go Schema := do
  let columns ← columnsFromArrow fields
  let result : Schema := { columns }
  result.validate
  return result

def roundedPrecision (precision : Int) : Int :=
  if precision = 0 then 0 else if precision ≤ 3 then 3 else if precision ≤ 6 then 6 else 9

mutual
/-- What Arrow keeps of a logical type: `CHAR` reads as `STRING`, a local-zoned timestamp as a plain one, a time
precision is rounded up and a map key is not null. Lengths, decimals, names and nullability stay. -/
def LogicalType.arrowForm : LogicalType → LogicalType
  | ⟨root,nullable,length,precision,scale,element,key,value,fields⟩ =>
    match root with
    | .named .char => { root := .named .string,nullable }
    | .named .binary => { root,nullable,length }
    | .named .decimal => { root,nullable,precision,scale }
    | .named .time => { root,nullable,precision := roundedPrecision precision }
    | .timestampWithoutTimeZone | .named .timestampLTZ =>
      { root := .timestampWithoutTimeZone,nullable,precision := roundedPrecision precision }
    | .named .array => { root,nullable,element := LogicalType.arrowForm? element }
    | .named .map =>
      { root,nullable,value := LogicalType.arrowForm? value
        key := (LogicalType.arrowForm? key).map fun k => { k with nullable := false } }
    | .named .row => { root,nullable,fields := LogicalField.arrowForms fields }
    | root => { root,nullable }

def LogicalType.arrowForm? : Option LogicalType → Option LogicalType
  | none => none
  | some t => some t.arrowForm

def LogicalField.arrowForms : List LogicalField → List LogicalField
  | [] => []
  | ⟨name,type,_,_⟩ :: fields => { name,type := type.arrowForm } :: LogicalField.arrowForms fields
end

def Column.arrowForm (column : Column) : Column :=
  let t := (logicalTypeForColumn column).arrowForm
  { name := column.name,type := dataTypeForLogicalType t,nullable := t.nullable,logicalType := some t }
/-- The same columns in their order; Arrow has no keys. -/
def Schema.arrowForm (s : Schema) : Schema := { columns := s.columns.map Column.arrowForm }

open LogicalType
@[simp] theorem LogicalType.arrowForm_nullable (t : LogicalType) : t.arrowForm.nullable = t.nullable := by
  cases t
  unfold arrowForm
  split <;> rfl

@[simp] theorem LogicalType.validate_nullable (t : LogicalType) (nullable : Bool) :
    validate { t with nullable } = t.validate := by
  cases t
  unfold validate
  rfl
/-- The Arrow type of `t` reads back as `t.arrowForm`, which is valid and has that Arrow type. -/
structure LogicalType.Recovers (t : LogicalType) (type : ArrowType) : Prop where
  read : ∀ nullable, logicalTypeOfArrow nullable type = .ok { t.arrowForm with nullable }
  valid : t.arrowForm.validate = .ok ()
  same : arrowType t.arrowForm = .ok type

private theorem arrowUnit_round (precision : Int) :
    precisionForUnit (arrowUnit precision) = roundedPrecision precision ∧
      arrowUnit (roundedPrecision precision) = arrowUnit precision := by
  unfold arrowUnit roundedPrecision
  split
  · exact ⟨rfl,rfl⟩
  · split
    · exact ⟨rfl,rfl⟩
    · split <;> exact ⟨rfl,rfl⟩

private theorem roundedPrecision_valid (precision : Int) :
    ¬(roundedPrecision precision < 0 ∨ 9 < roundedPrecision precision) := by
  unfold roundedPrecision
  repeat' split
  all_goals decide

private theorem recovers_time {precision : Int} {type : ArrowType} (h : arrowTimeType precision = .ok type) :
    (∀ nullable, logicalTypeOfArrow nullable type =
      .ok { root := .named .time,nullable,precision := roundedPrecision precision }) ∧
      arrowTimeType (roundedPrecision precision) = .ok type := by
  unfold arrowTimeType at h
  split_ifs at h <;> cases h <;> simp only [*,roundedPrecision,if_true,if_false] <;> exact ⟨fun _ => rfl,rfl⟩

private theorem checked_eq {t : LogicalType} (h : t.validate = .ok ()) : t.checked = .ok t := by
  rw [checked,h]
  rfl

private theorem LogicalType.Recovers.field {t : LogicalType} {type : ArrowType} (h : t.Recovers type) (name : String) :
    logicalTypeFromArrow ⟨name,type,t.nullable⟩ = .ok t.arrowForm := by
  rw [logicalTypeFromArrow,h.read,← t.arrowForm_nullable]
  cases t.arrowForm
  rfl

private theorem recovers_fields {row : List LogicalField}
    (ih : ∀ f ∈ row, ∀ type, f.type.validate = .ok () → arrowType f.type = .ok type → f.type.Recovers type)
    (hv : validateAll row = .ok ()) (ha : arrowFields row = .ok fields) :
    logicalFieldsFromArrow fields = .ok (arrowForms row) ∧
      validateAll (arrowForms row) = .ok () ∧
        arrowFields (arrowForms row) = .ok fields := by
  induction row generalizing fields with
  | nil =>
    cases ha
    exact ⟨rfl,rfl,rfl⟩
  | cons f row ihr =>
    obtain ⟨name,type,_,_⟩ := f
    unfold validateAll at hv
    unfold arrowFields at ha
    obtain ⟨hn,hv⟩ := of_guard hv
    obtain ⟨ht,hv⟩ := of_seq hv
    obtain ⟨a,hat,ha⟩ := of_bind ha
    obtain ⟨rest,har,ha⟩ := of_bind ha
    cases ha
    have hr := ih _ mem_cons_self a ht (mapErr_eq_ok.mp hat)
    obtain ⟨h₁,h₂,h₃⟩ := ihr (fun f hf => ih f (mem_cons_of_mem _ hf)) hv har
    have hf := hr.field name
    rw [logicalTypeFromArrow] at hf
    refine ⟨?_,?_,?_⟩
    · simp [logicalFieldsFromArrow,hf,h₁,arrowForms]
    · simp [arrowForms,validateAll,hn,hr.valid,h₂]
    · simp [arrowForms,arrowFields,hr.same,h₃]

theorem LogicalType.recovers (t : LogicalType) :
    ∀ type, t.validate = .ok () → arrowType t = .ok type → t.Recovers type := by
  induction t using induction with
  | step t ih =>
    obtain ⟨he,hk,hw,hf⟩ := ih
    obtain ⟨root,nullable,length,precision,scale,element,key,value,row⟩ := t
    dsimp only at he hk hw hf
    intro type hv ha
    unfold validate at hv
    unfold arrowType at ha
    have hp := roundedPrecision_valid precision
    obtain ⟨hu,hu'⟩ := arrowUnit_round precision
    split at hv <;> dsimp only [dataTypeOfRoot] at ha
    any_goals (cases ha; exact ⟨fun _ => rfl,rfl,rfl⟩)
    case h_12 =>
      obtain ⟨hl,ha⟩ := of_guard ha
      cases ha
      have hc : ∀ n, validate { root := .named .binary,nullable := n,length } = .ok () := fun n => by
        simp [validate,validateLength,hl]
      exact ⟨fun n => checked_eq (hc n),hc _,by simp [arrowForm,arrowType,dataTypeOfRoot,hl]⟩
    case h_13 =>
      obtain ⟨hl,ha⟩ := of_guard ha
      cases ha
      exact ⟨fun n => checked_eq hv,hv,by simp [arrowForm,arrowType,dataTypeOfRoot,hl]⟩
    case h_14 =>
      obtain ⟨hr,hs⟩ := recovers_time ha
      exact ⟨hr,if_neg hp,hs⟩
    case h_20 => cases hv
    case h_15 | h_16 =>
      cases ha
      refine ⟨fun n => ?_,if_neg hp,?_⟩
      · rw [logicalTypeOfArrow,hu]
        exact checked_eq (if_neg hp)
      · exact congrArg (fun u => ok (ArrowType.timestamp u)) hu'
    case h_17 =>
      cases element with
      | none => cases ha
      | some e =>
        obtain ⟨a,hae,h⟩ := of_bind ha
        cases h
        have hr := he e rfl a hv hae
        refine ⟨fun n => ?_,hr.valid,?_⟩
        · rw [logicalTypeOfArrow,hr.field,bind_ok]
          exact checked_eq hr.valid
        · simp [arrowForm,arrowForm?,arrowType,dataTypeOfRoot,hr.same]
    case h_18 =>
      cases key with
      | none => cases ha
      | some k =>
        cases value with
        | none => cases ha
        | some w =>
          obtain ⟨hvk,hvw⟩ := of_seq hv
          obtain ⟨a,hak,h⟩ := of_bind ha
          obtain ⟨b,hb,h⟩ := of_bind h
          cases h
          have hrk := hk k rfl a hvk hak
          have hrw := hw w rfl b hvw hb
          have hc : ∀ n, validate
              { root := .named .map,nullable := n,value := some w.arrowForm
                key := some { k.arrowForm with nullable := false } } = .ok () := fun n => by
            simp [validate,hrk.valid,hrw.valid]
          refine ⟨fun n => ?_,hc _,?_⟩
          · rw [logicalTypeOfArrow,logicalTypeFromArrow,hrk.read,bind_ok,hrw.field,bind_ok]
            exact checked_eq (hc n)
          · simp [arrowForm,arrowForm?,arrowType,dataTypeOfRoot,arrowType_nullable,hrk.same,
              hrw.same]
    case h_19 =>
      obtain ⟨nested,har,h⟩ := of_bind ha
      cases h
      cases row with
      | nil => cases hv
      | cons f row =>
        obtain ⟨h₁,h₂,h₃⟩ := recovers_fields hf hv har
        obtain ⟨name,inner,_,_⟩ := f
        refine ⟨fun n => ?_,h₂,?_⟩
        · rw [logicalTypeOfArrow,h₁,bind_ok]
          exact checked_eq h₂
        · simp [arrowForm,arrowType,dataTypeOfRoot,h₃]

private theorem columns_recover {columns : List Column} (hl : ∀ column ∈ columns, column.logicalType.isSome)
    (hv : ∀ column ∈ columns, column.Valid) (h : arrowColumns columns = .ok fields) :
    columnsFromArrow fields = .ok (columns.map Column.arrowForm) ∧
      (∀ column ∈ columns, column.arrowForm.Valid) ∧ arrowColumns (columns.map Column.arrowForm) = .ok fields := by
  induction columns generalizing fields with
  | nil =>
    cases h
    exact ⟨rfl,by simp,rfl⟩
  | cons column columns ih =>
    obtain ⟨field,hf,h⟩ := of_bind h
    obtain ⟨rest,hr,h⟩ := of_bind h
    cases h
    obtain ⟨h₁,h₂,h₃⟩ := ih (fun c hc => hl c (mem_cons_of_mem _ hc)) (fun c hc => hv c (mem_cons_of_mem _ hc)) hr
    obtain ⟨type,ht,hf⟩ := of_bind (mapErr_eq_ok.mp hf)
    cases hf
    have hc := hv column mem_cons_self
    have hval : (logicalTypeForColumn column).validate = .ok () := by
      obtain ⟨t,hs⟩ := Option.isSome_iff_exists.mp (hl column mem_cons_self)
      simpa [Column.validateType,logicalTypeForColumn,hs] using hc.type
    have hrec := recovers _ type hval ht
    refine ⟨?_,forall_mem_cons.mpr ⟨⟨hc.name_ne,hc.trimmed,hrec.valid⟩,h₂⟩,?_⟩
    · simp [columnsFromArrow,hrec.field,h₁,Column.arrowForm]
    have hs : arrowField column.name (logicalTypeForColumn column).arrowForm =
        .ok ⟨column.name,type,(logicalTypeForColumn column).nullable⟩ := by
      simp [arrowField,hrec.same]
    rw [map_cons,arrowColumns,h₃]
    exact congrArg (fun x => mapErr _ x >>= fun f => ok (f :: rest)) hs
/-- A schema of logical types that converts to Arrow comes back as its `arrowForm`, and that converts to the
same Arrow schema. -/
theorem arrow_schema_round_trip {s : Schema} (hl : ∀ column ∈ s.columns, column.logicalType.isSome)
    (h : s.arrowSchema = .ok fields) :
    schemaFromArrow fields = .ok s.arrowForm ∧ s.arrowForm.arrowSchema = .ok fields := by
  obtain ⟨hv,h⟩ := of_seq h
  have hs := s.validate_eq_ok.mp hv
  obtain ⟨h₁,h₂,h₃⟩ := columns_recover hl hs.columns h
  have hn : s.arrowForm.columns.map (·.name) = s.columns.map (·.name) := by
    rw [Schema.arrowForm,map_map]
    rfl
  have hva : s.arrowForm.validate = .ok () := by
    refine s.arrowForm.validate_eq_ok.mpr ⟨?_,hn ▸ hs.nodup,?_,by simp [Schema.arrowForm],by simp [Schema.arrowForm],
      by simp [Schema.arrowForm]⟩
    · simpa [Schema.arrowForm] using hs.nonempty
    · simpa [Schema.arrowForm] using h₂
  refine ⟨?_,?_⟩
  · rw [schemaFromArrow,h₁,bind_ok]
    exact bind_unit_eq_ok.mpr ⟨hva,rfl⟩
  · exact bind_unit_eq_ok.mpr ⟨hva,h₃⟩

def zonedMap : Schema where
  columns := [⟨"m",.map,true,some
    { root := .named .map,nullable := true
      key := some { root := .named .char,nullable := true,length := 4 }
      value := some { root := .named .timestampLTZ,precision := 4 } },"",0⟩]

theorem arrow_schema_round_trip_map :
    schemaFromArrow [⟨"m",.map ⟨"key",.string,false⟩ ⟨"value",.timestamp .microsecond,false⟩,true⟩] =
      .ok zonedMap.arrowForm :=
  (arrow_schema_round_trip (by simp [zonedMap]) rfl).1
end FlussGo
