import FlussGo.Log.RecordBatch
import FlussGo.Schema.Evolution
/-!
# Arrow log batches

`arrow.go` and the reading half of `arrow_batch.go`. Of the Arrow library: a record batch has columns of
values with types, its constructor panics when they do not fit the schema, and the IPC reader is a parameter.
-/
namespace FlussGo
open List
inductive TimeUnit where
  | second
  | millisecond
  | microsecond
  | nanosecond
deriving DecidableEq

mutual
inductive ArrowType where
  | boolean
  | int8
  | int16
  | int32
  | int64
  | float32
  | float64
  | string
  | binary
  | date32
  | fixedSizeBinary (byteWidth : Int)
  | decimal128 (precision scale : Int)
  | time32 (unit : TimeUnit)
  | time64 (unit : TimeUnit)
  | timestamp (unit : TimeUnit)
  | list (element : ArrowField)
  | map (key value : ArrowField)
  | struct (fields : List ArrowField)

structure ArrowField where
  name : String
  type : ArrowType
  nullable : Bool
end

mutual
def ArrowType.equal : ArrowType → ArrowType → Bool
  | .boolean, .boolean | .int8, .int8 | .int16, .int16 | .int32, .int32 | .int64, .int64 | .float32, .float32
  | .float64, .float64 | .string, .string | .binary, .binary | .date32, .date32 => true
  | .fixedSizeBinary width, .fixedSizeBinary width' => decide (width = width')
  | .decimal128 precision scale, .decimal128 precision' scale' => decide (precision = precision' ∧ scale = scale')
  | .time32 unit, .time32 unit' => decide (unit = unit')
  | .time64 unit, .time64 unit' => decide (unit = unit')
  | .timestamp unit, .timestamp unit' => decide (unit = unit')
  | .list element, .list element' => element.equal element'
  | .map key value, .map key' value' => key.equal key' && value.equal value'
  | .struct fields, .struct fields' => ArrowField.equalAll fields fields'
  | _, _ => false

def ArrowField.equal : ArrowField → ArrowField → Bool
  | ⟨name,type,nullable⟩, ⟨name',type',nullable'⟩ => decide (name = name' ∧ nullable = nullable') && type.equal type'

def ArrowField.equalAll : List ArrowField → List ArrowField → Bool
  | [], [] => true
  | field :: fields, field' :: fields' => field.equal field' && ArrowField.equalAll fields fields'
  | _, _ => false
end

mutual
theorem ArrowType.equal_refl : ∀ t : ArrowType, t.equal t = true
  | .boolean | .int8 | .int16 | .int32 | .int64 | .float32 | .float64 | .string | .binary | .date32
  | .fixedSizeBinary _ | .decimal128 _ _ | .time32 _ | .time64 _ | .timestamp _ => by simp [ArrowType.equal]
  | .list element => by simp [ArrowType.equal,ArrowField.equal_refl element]
  | .map key value => by simp [ArrowType.equal,ArrowField.equal_refl key,ArrowField.equal_refl value]
  | .struct fields => by simp [ArrowType.equal,ArrowField.equalAll_refl fields]

theorem ArrowField.equal_refl : ∀ f : ArrowField, f.equal f = true
  | ⟨name,type,nullable⟩ => by simp [ArrowField.equal,ArrowType.equal_refl type]

theorem ArrowField.equalAll_refl : ∀ fields : List ArrowField, ArrowField.equalAll fields fields = true
  | [] => by simp [ArrowField.equalAll]
  | field :: fields => by simp [ArrowField.equalAll,ArrowField.equal_refl field,ArrowField.equalAll_refl fields]
end

def arrowUnit (precision : Int) : TimeUnit :=
  if precision = 0 then .second
  else if precision ≤ 3 then .millisecond
  else if precision ≤ 6 then .microsecond
  else .nanosecond

def arrowTimeType (precision : Int) : Go ArrowType :=
  if precision = 0 then .ok (.time32 .second)
  else if precision ≤ 3 then .ok (.time32 .millisecond)
  else if precision ≤ 6 then .ok (.time64 .microsecond)
  else if precision ≤ 9 then .ok (.time64 .nanosecond)
  else fail s!"invalid TIME precision {precision}"

mutual
def arrowType : LogicalType → Go ArrowType
  | ⟨root,_,length,precision,scale,element,key,value,fields⟩ =>
    match dataTypeOfRoot root with
    | .bool => .ok .boolean
    | .tinyInt => .ok .int8
    | .smallInt => .ok .int16
    | .int => .ok .int32
    | .bigInt => .ok .int64
    | .float => .ok .float32
    | .double => .ok .float64
    | .char | .string => .ok .string
    | .bytes => .ok .binary
    | .date => .ok .date32
    | .binary => if length < 1 then fail "BINARY length is required" else .ok (.fixedSizeBinary length)
    | .decimal =>
      if precision < 1 ∨ 38 < precision then fail "DECIMAL precision must be in [1, 38]"
      else .ok (.decimal128 precision scale)
    | .time => arrowTimeType precision
    | .timestamp | .timestampLTZ => .ok (.timestamp (arrowUnit precision))
    | .array =>
      match element with
      | none => fail "ARRAY element type is required"
      | some e => do
        let type ← arrowType e
        return .list ⟨"element",type,e.nullable⟩
    | .map =>
      match key, value with
      | some k, some v => do
        let keyType ← arrowType k
        let valueType ← arrowType v
        return .map ⟨"key",keyType,false⟩ ⟨"value",valueType,v.nullable⟩
      | _, _ => fail "MAP key and value types are required"
    | .row => do
      let nested ← arrowFields fields
      return .struct nested
    | .other _ => fail s!"unsupported Arrow conversion {root.text}"

def arrowFields : List LogicalField → Go (List ArrowField)
  | [] => .ok []
  | ⟨name,type,_,_⟩ :: fields => do
    let nested ← (arrowType type).mapErr (GoError.wrap s!"invalid ROW field {name.quote}: ")
    let rest ← arrowFields fields
    return ⟨name,nested,type.nullable⟩ :: rest
end

def arrowField (name : String) (t : LogicalType) : Go ArrowField := do
  let type ← arrowType t
  return ⟨name,type,t.nullable⟩

def arrowColumns : List Column → Go (List ArrowField)
  | [] => .ok []
  | column :: columns => do
    let field ← (arrowField column.name (logicalTypeForColumn column)).mapErr
      (GoError.under .invalidSchema s!"column {column.name.quote}: ")
    let fields ← arrowColumns columns
    return field :: fields

def Schema.arrowSchema (s : Schema) : Go (List ArrowField) := do
  s.validate
  arrowColumns s.columns
/-- `arrow.Array`; a null is `Value.nil`. -/
structure ArrowArray where
  type : ArrowType
  values : List Value
/-- `arrow.RecordBatch`. -/
structure ArrowRecord where
  schema : List ArrowField
  columns : List ArrowArray
  numRows : Nat

def ArrowRecord.row (r : ArrowRecord) (k : Nat) : Row := r.columns.map fun column => column.values.getD k .nil

def ArrowRecord.newSlice (r : ArrowRecord) (start stop : Nat) : ArrowRecord where
  schema := r.schema
  columns := r.columns.map fun column => { column with values := (column.values.take stop).drop start }
  numRows := stop - start

def ArrowRecord.column (r : ArrowRecord) (i : Nat) : Go ArrowArray :=
  match r.columns[i]? with
  | none => .panic .outOfRange
  | some column => .ok column

def makeArrayOfNull (type : ArrowType) (length : Nat) : ArrowArray := ⟨type,replicate length .nil⟩
/-- `array.NewRecordBatch`, which panics when the columns do not fit the schema. -/
def newRecordBatch (schema : List ArrowField) (columns : List ArrowArray) (rows : Nat) : Go ArrowRecord :=
  if columns.length ≠ schema.length then .panic .library
  else if (schema.zip columns).any fun c => decide (c.2.values.length < rows) || !c.1.type.equal c.2.type then
    .panic .library
  else .ok ⟨schema,columns,rows⟩

theorem newRecordBatch_eq {schema : List ArrowField} {columns : List ArrowArray} {rows : Nat}
    (h : List.Forall₂ (fun field column => column.values.length = rows ∧ column.type = field.type) schema columns) :
    newRecordBatch schema columns rows = .ok ⟨schema,columns,rows⟩ := by
  have hf : ∀ c ∈ schema.zip columns, c.2.values.length = rows ∧ c.2.type = c.1.type :=
    fun c hc => (forall₂_iff_zip.mp h).2 hc
  have hany : (schema.zip columns).any (fun c => decide (c.2.values.length < rows) || !c.1.type.equal c.2.type) = false := by
    rw [any_eq_false]
    intro c hc
    obtain ⟨hl,ht⟩ := hf c hc
    simp [hl,ht,ArrowType.equal_refl]
  rw [newRecordBatch,if_neg (by simp [h.length_eq]),if_neg (by simp [hany])]
/-- The columns of a record have the types of a schema and one value for each row. -/
structure ArrowRecord.Conforms (r : ArrowRecord) (schema : List ArrowField) : Prop where
  types : r.columns.map (·.type) = schema.map (·.type)
  lengths : ∀ column ∈ r.columns, column.values.length = r.numRows

theorem ArrowRecord.Conforms.length_eq {r : ArrowRecord} {schema : List ArrowField} (h : r.Conforms schema) :
    r.columns.length = schema.length := by
  simpa using congrArg length h.types
/-- The IPC reader of the Arrow library. -/
structure ArrowReader where
  read : List ArrowField → Bytes → Go ArrowRecord
  conforms : ∀ schema payload record, read schema payload = .ok record → record.Conforms schema
  safe : ∀ schema payload cause, read schema payload ≠ .panic cause

structure ArrowLogBatch where
  magic : UInt8
  baseOffset : BitVec 64
  commitTime : BitVec 64
  leaderEpoch : BitVec 32 := 0
  schemaID : BitVec 16
  appendOnly : Bool
  writerID : BitVec 64
  batchSequence : BitVec 32
  /-- A nil record is `none`. -/
  record : Option ArrowRecord
  changes : List ChangeType

def ArrowLogBatch.numRows (b : ArrowLogBatch) : Go Nat :=
  match b.record with
  | none => .panic .nilDereference
  | some record => .ok record.numRows

def sliceArrowLogBatch (b : ArrowLogBatch) (start stop : Nat) : ArrowLogBatch :=
  { b with
    baseOffset := b.baseOffset + BitVec.ofNat 64 start
    record := b.record.map (·.newSlice start stop)
    changes := (b.changes.take stop).drop start }
/-- Magic, header size and the positions of the checksum and the schema ID. -/
def arrowHeader (encoded : Bytes) : Go (UInt8 × Nat × Nat × Nat) :=
  if encoded.length < 13 ∨ maxRowBytes < encoded.length then failf .malformedRecordBatch "invalid Arrow batch length"
  else do
    let magic ← byteAt encoded 12
    if magic = 0 ∧ logBatchV0HeaderSize ≤ encoded.length then return (0, logBatchV0HeaderSize, 21, 25)
    else if magic = 1 ∧ logBatchV1HeaderSize ≤ encoded.length then return (1, logBatchV1HeaderSize, 25, 29)
    else failf .malformedRecordBatch "invalid Arrow batch header"
/-- The loop of `decodeArrowChanges` over the change bytes that remain. -/
def decodeChangeBytes : Bytes → Go (List ChangeType)
  | [] => .ok []
  | code :: codes =>
    match (changeTypeOfByte code).validate with
    | .ok () => do
      let changes ← decodeChangeBytes codes
      return changeTypeOfByte code :: changes
    | _ => failf .malformedRecordBatch "invalid Arrow change type"

def decodeArrowChanges (encoded : Bytes) (position count : Nat) (appendOnly : Bool) : Go (List ChangeType × Nat) :=
  if appendOnly then .ok (replicate count .append, position)
  else do
    let codes ← subslice encoded position (position + count)
    let changes ← decodeChangeBytes codes
    return (changes, position + count)

def decodeArrowPayload (reader : ArrowReader) (schema : List ArrowField) (payload : Bytes) : Go ArrowRecord :=
  if payload.isEmpty then failf .malformedRecordBatch "missing Arrow payload" else reader.read schema payload

def decodeArrowRecord (reader : ArrowReader) (schema : List ArrowField) (payload : Bytes) (count : Nat) :
    Go (Option ArrowRecord) :=
  if count = 0 then
    if payload.length ≠ 0 then failf .malformedRecordBatch "empty Arrow batch has trailing bytes" else .ok none
  else do
    let record ← decodeArrowPayload reader schema payload
    if record.numRows ≠ count then failf .malformedRecordBatch "Arrow row count mismatch" else return some record

def decodeArrowLogBatch (reader : ArrowReader) (schema : List ArrowField) (encoded : Bytes) : Go ArrowLogBatch := do
  let (magic, headerSize, crcOffset, schemaOffset) ← arrowHeader encoded
  let size ← readLittle 4 encoded 8
  let checksum ← readLittle 4 encoded crcOffset
  if size ≠ encoded.length - 12 ∨ checksum ≠ crc32c (encoded.drop schemaOffset) then
    failf .malformedRecordBatch "invalid Arrow batch length or checksum"
  else
    let lastOffset := schemaOffset + 3
    let count ← readLittle 4 encoded (lastOffset + 16)
    let attributes ← byteAt encoded (schemaOffset + 2)
    let appendOnly : Bool := attributes &&& 1 ≠ 0
    let changeBytes := if appendOnly then 0 else count
    if maxRowBytes < count ∨ encoded.length - headerSize < changeBytes then
      failf .malformedRecordBatch "invalid Arrow record count"
    else
      let (changes, position) ← decodeArrowChanges encoded headerSize count appendOnly
      let record ← decodeArrowRecord reader schema (encoded.drop position) count
      let baseOffset ← readLittle 8 encoded 0
      let commitTime ← readLittle 8 encoded 13
      let leaderEpoch ← readLeaderEpoch magic encoded
      let schemaID ← readLittle 2 encoded schemaOffset
      let writerID ← readLittle 8 encoded (lastOffset + 4)
      let batchSequence ← readLittle 4 encoded (lastOffset + 12)
      return {
        magic := magic, baseOffset := BitVec.ofNat 64 baseOffset, commitTime := BitVec.ofNat 64 commitTime
        leaderEpoch := BitVec.ofNat 32 leaderEpoch, schemaID := BitVec.ofNat 16 schemaID, appendOnly := appendOnly
        writerID := BitVec.ofNat 64 writerID, batchSequence := BitVec.ofNat 32 batchSequence, record := record
        changes := changes }

def evolveArrowColumns (record : ArrowRecord) : List ArrowField → List (Option Nat) → Go (List ArrowArray)
  | field :: fields, index :: mapping => do
    let column ← match index with
      | none => .ok (makeArrayOfNull field.type record.numRows)
      | some i => record.column i
    let columns ← evolveArrowColumns record fields mapping
    return column :: columns
  | _, _ => .ok []

def evolveArrowBatch (batch : ArrowLogBatch) (source target : Schema) : Go ArrowLogBatch := do
  let mapping ← schemaColumnMapping source target
  let targetSchema ← target.arrowSchema
  match batch.record with
  | none => .panic .nilDereference
  | some record =>
    let columns ← evolveArrowColumns record targetSchema mapping
    let evolved ← newRecordBatch targetSchema columns record.numRows
    return { batch with record := some evolved }
end FlussGo
