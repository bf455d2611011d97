import FlussGo.Go.Basic
import FlussGo.Lib.Bytes
import Mathlib.Data.Rat.Defs
/-!
# Schemas, logical types and row values

The data model of `model.go` and `logical_type.go`. A `Value` is what a Go `any` can hold when it
reaches the row codecs; a typed nil pointer is a value, a nil interface is `Value.nil`.
-/
namespace FlussGo
/-- `DataType`; `other` is a type name outside the supported list. -/
inductive DataType where
  | bool | char | int | tinyInt | smallInt | bigInt | float | double | string | binary | bytes
  | decimal | date | time | timestamp | timestampLTZ | array | map | row
  | other (name : String)
deriving DecidableEq

def DataType.text : DataType → String
  | .bool => "BOOLEAN"
  | .char => "CHAR"
  | .int => "INT"
  | .tinyInt => "TINYINT"
  | .smallInt => "SMALLINT"
  | .bigInt => "BIGINT"
  | .float => "FLOAT"
  | .double => "DOUBLE"
  | .string => "STRING"
  | .binary => "BINARY"
  | .bytes => "BYTES"
  | .decimal => "DECIMAL"
  | .date => "DATE"
  | .time => "TIME_WITHOUT_TIME_ZONE"
  | .timestamp => "TIMESTAMP"
  | .timestampLTZ => "TIMESTAMP_WITH_LOCAL_TIME_ZONE"
  | .array => "ARRAY"
  | .map => "MAP"
  | .row => "ROW"
  | .other name => name
/-- The root names of logical types. They are the names of the data types, except that `INT` is
written `INTEGER` and `TIMESTAMP` is written `TIMESTAMP_WITHOUT_TIME_ZONE`. -/
inductive Root where
  | integer
  | timestampWithoutTimeZone
  | named (dataType : DataType)
deriving DecidableEq

def Root.text : Root → String
  | .integer => "INTEGER"
  | .timestampWithoutTimeZone => "TIMESTAMP_WITHOUT_TIME_ZONE"
  | .named dataType => dataType.text

mutual
structure LogicalType where
  root : Root
  nullable : Bool := false
  length : Int := 0
  precision : Int := 0
  scale : Int := 0
  element : Option LogicalType := none
  key : Option LogicalType := none
  value : Option LogicalType := none
  fields : List LogicalField := []

structure LogicalField where
  name : String
  type : LogicalType
  description : String := ""
  id : Int := 0
end
/-- `P` holds of every type that stands directly inside `t`. -/
structure LogicalType.ForChildren (P : LogicalType → Prop) (t : LogicalType) : Prop where
  element : ∀ e ∈ t.element, P e
  key : ∀ k ∈ t.key, P k
  value : ∀ w ∈ t.value, P w
  fields : ∀ f ∈ t.fields, P f.type

mutual
theorem LogicalType.induction {P : LogicalType → Prop} (step : ∀ t : LogicalType, t.ForChildren P → P t) : ∀ t, P t
  | ⟨root,nullable,length,precision,scale,element,key,value,fields⟩ =>
    step ⟨root,nullable,length,precision,scale,element,key,value,fields⟩
      ⟨LogicalType.induction_option step element,LogicalType.induction_option step key,
        LogicalType.induction_option step value,LogicalType.induction_fields step fields⟩

theorem LogicalType.induction_option {P : LogicalType → Prop}
    (step : ∀ t : LogicalType, t.ForChildren P → P t) : ∀ (o : Option LogicalType), ∀ t ∈ o, P t
  | none, _, h => nomatch h
  | some e, _, h => Option.some.inj h ▸ LogicalType.induction step e

theorem LogicalType.induction_fields {P : LogicalType → Prop}
    (step : ∀ t : LogicalType, t.ForChildren P → P t) : ∀ (fields : List LogicalField), ∀ f ∈ fields, P f.type
  | [], _, h => nomatch h
  | ⟨_,type,_,_⟩ :: fields, f, h =>
    match List.mem_cons.mp h with
    | .inl he => he ▸ LogicalType.induction step type
    | .inr hm => LogicalType.induction_fields step fields f hm
end

def dataTypeOfRoot : Root → DataType
  | .integer => .int
  | .timestampWithoutTimeZone => .timestamp
  | .named dataType => dataType

def dataTypeForLogicalType (t : LogicalType) : DataType := dataTypeOfRoot t.root

def logicalRoot : DataType → Root
  | .int => .integer
  | .timestamp => .timestampWithoutTimeZone
  | dataType => .named dataType

structure Column where
  name : String
  type : DataType
  nullable : Bool := false
  logicalType : Option LogicalType := none
  description : String := ""
  id : Int := 0

structure Schema where
  columns : List Column
  primaryKey : List String := []
  bucketKey : List String := []
  partitionKey : List String := []
  autoIncrement : List String := []
  highestFieldID : Int := 0

def logicalTypeForColumn (column : Column) : LogicalType :=
  match column.logicalType with
  | some t => t
  | none => { root := logicalRoot column.type, nullable := column.nullable }
/-- What a Go `any` holds. Nil and empty slices are identified, a `*big.Rat` may be a nil pointer,
floats are their bit patterns, strings their bytes, and `other` is any remaining dynamic type. -/
inductive Value where
  | nil
  | bool (b : Bool)
  | int8 (v : BitVec 8)
  | int16 (v : BitVec 16)
  | int32 (v : BitVec 32)
  | int64 (v : BitVec 64)
  | float32 (bits : BitVec 32)
  | float64 (bits : BitVec 64)
  | string (s : Bytes)
  | bytes (b : Bytes)
  | rat (r : Option Rat)
  | time (t : Time)
  | array (vs : List Value)
  | map (entries : List (Value × Value))
  | stringMap (entries : List (Bytes × Value))
  | row (vs : List Value)
  | other (typeName : String)

abbrev Row := List Value

def Value.isNil : Value → Bool
  | .nil => true
  | _ => false

@[simp] theorem Value.isNil_iff (v : Value) : v.isNil = true ↔ v = .nil := by
  cases v <;> simp [Value.isNil]

def bytesLE : Bytes → Bytes → Bool
  | [], _ => true
  | _ :: _, [] => false
  | a :: as, b :: bs => if a = b then bytesLE as bs else decide (a.toNat < b.toNat)
/-- `mapEntries`: a Go map is read in the order of its sorted keys. -/
def mapEntries : Value → Option (List (Value × Value))
  | .map entries => some entries
  | .stringMap entries =>
    some ((entries.mergeSort fun a b => bytesLE a.1 b.1).map fun entry => (.string entry.1, entry.2))
  | _ => none
end FlussGo
