import FlussGo.Row.Value
/-!
# Rows

`row_codec.go`. Both encodings start with one null bit per column. An indexed row then reserves a
32-bit length for every variable-width column. Row, array and map codecs are tied together by recursion on
the logical type.
-/
namespace FlussGo
def rowNullBytes (schema : Schema) : Nat := (schema.columns.length + 7) / 8
/-- The number of columns whose length stands in the header of an indexed row. -/
def variableColumns (columns : List Column) : Nat :=
  columns.countP fun column => !indexedFixed (logicalTypeForColumn column)

def rowHeaderBytes (schema : Schema) (encoding : RowEncoding) : Nat :=
  match encoding with
  | .compacted => rowNullBytes schema
  | .indexed => rowNullBytes schema + 4 * variableColumns schema.columns
/-- Writes the length of a variable-width value of an indexed row into the header. -/
def putIndexedLength (encoding : RowEncoding) (t : LogicalType) (encoded : Bytes) (lengthPosition length : Nat) :
    Go (Bytes × Nat) :=
  if encoding = .indexed ∧ indexedFixed t = false then do
    let encoded ← putLittle 4 encoded lengthPosition length
    return (encoded, lengthPosition + 4)
  else return (encoded, lengthPosition)
/-- The column loop of `encodeRow` from column `i` on. -/
def encodeColumns (encoding : RowEncoding) :
    List (Column × (Value → Go Bytes)) → Row → Nat → Bytes → Nat → Go Bytes
  | [], _, _, encoded, _ => .ok encoded
  | _ :: _, [], _, _, _ => .panic .outOfRange
  | (column, encode) :: columns, v :: row, i, encoded, lengthPosition =>
    if v.isNil then do
      let encoded ← setBit 0 i encoded
      encodeColumns encoding columns row (i + 1) encoded lengthPosition
    else do
      let value ← (encode v).mapErr (GoError.wrap s!"fgo: column {column.name.quote}: ")
      let (encoded, lengthPosition) ←
        putIndexedLength encoding (logicalTypeForColumn column) encoded lengthPosition value.length
      if maxRowBytes < value.length + encoded.length then
        failf .malformedRow s!"row exceeds {maxRowBytes} bytes"
      else encodeColumns encoding columns row (i + 1) (encoded ++ value) lengthPosition

def encodeRowWith (schema : Schema) (encoding : RowEncoding) (encoders : List (Value → Go Bytes))
    (row : Row) : Go Bytes := do
  schema.validateRow row []
  encodeColumns encoding (schema.columns.zip encoders) row 0 (zeros (rowHeaderBytes schema encoding))
    (rowNullBytes schema)

def indexedValueLength (encoded : Bytes) (position : Nat) (t : LogicalType) (encoding : RowEncoding)
    (isNull : Bool) : Go (Int × Nat) :=
  if encoding = .indexed ∧ indexedFixed t = false ∧ isNull = false then do
    let length ← readLittle 4 encoded position
    return (length, position + 4)
  else return (-1, position)
/-- The column loop of `decodeRow` from column `i` on; it returns the values and the final cursor. -/
def decodeColumns (encoding : RowEncoding) (encoded : Bytes) :
    List (Column × (Bytes → Nat → Int → Go (Value × Nat))) → Nat → Nat → Nat → Go (Row × Nat)
  | [], _, position, _ => .ok ([], position)
  | (column, decode) :: columns, i, position, lengthPosition => do
    let isNull ← bitAt 0 i encoded
    let (length, lengthPosition) ←
      indexedValueLength encoded lengthPosition (logicalTypeForColumn column) encoding isNull
    if isNull then
      if column.nullable then do
        let (row, last) ← decodeColumns encoding encoded columns (i + 1) position lengthPosition
        return (.nil :: row, last)
      else failf .malformedRow s!"non-nullable column {column.name.quote} is null"
    else do
      let (value, next) ← (decode encoded position length).mapErr
        (GoError.under .malformedRow s!"column {column.name.quote}: ")
      let (row, last) ← decodeColumns encoding encoded columns (i + 1) next lengthPosition
      return (value :: row, last)

def decodeRowWith (schema : Schema) (encoding : RowEncoding)
    (decoders : List (Bytes → Nat → Int → Go (Value × Nat))) (encoded : Bytes) : Go Row := do
  schema.validate
  if maxRowBytes < encoded.length ∨ encoded.length < rowHeaderBytes schema encoding then
    failf .malformedRow "invalid row length"
  else do
    let (row, position) ← decodeColumns encoding encoded (schema.columns.zip decoders) 0
      (rowHeaderBytes schema encoding) (rowNullBytes schema)
    if position ≠ encoded.length then failf .malformedRow "trailing bytes" else return row

def fieldColumn (field : LogicalField) : Column where
  name := field.name
  type := dataTypeForLogicalType field.type
  nullable := field.type.nullable
  logicalType := some field.type
  description := field.description
  id := field.id

def nestedSchema (t : LogicalType) : Schema := { columns := t.fields.map fieldColumn }

mutual
/-- The bytes of an ARRAY, MAP or ROW value, which the column and element codecs then wrap. -/
def encodeNested (encoding : RowEncoding) : LogicalType → Value → Go Bytes
  | ⟨root,nullable,length,precision,scale,element,key,value,fields⟩, v =>
    match dataTypeOfRoot root with
    | .array => do
      let vs ← v.asArray
      encodeBinaryArray encoding element vs
    | .map => encodeBinaryMapWith (encodeBinaryArray encoding key) (encodeBinaryArray encoding value) v
    | .row => do
      let vs ← v.asRow
      encodeRowWith
        (nestedSchema ⟨root,nullable,length,precision,scale,element,key,value,fields⟩)
        encoding (fieldEncoders encoding fields) vs
    | _ => fail s!"unsupported array element type {root.text}"
/-- `encodeBinaryArray(*elementType, values, encoding)`. -/
def encodeBinaryArray (encoding : RowEncoding) : Option LogicalType → List Value → Go Bytes
  | none, _ => .panic .nilDereference
  | some t, values => encodeBinaryArrayWith t (writeArrayElementWith (encodeNested encoding t) t) values

def fieldEncoders (encoding : RowEncoding) : List LogicalField → List (Value → Go Bytes)
  | [] => []
  | ⟨_,type,_,_⟩ :: fields =>
    encodeRowValueWith encoding (encodeNested encoding type) type :: fieldEncoders encoding fields
end

mutual
def decodeNested (encoding : RowEncoding) : LogicalType → Bytes → Go Value
  | ⟨root,nullable,length,precision,scale,element,key,value,fields⟩, encoded =>
    match dataTypeOfRoot root with
    | .array => do
      let vs ← decodeBinaryArray encoding element encoded
      return .array vs
    | .map =>
      decodeBinaryMapWith (decodeBinaryArray encoding key) (decodeBinaryArray encoding value) encoded
    | .row => do
      let vs ← decodeRowWith
        (nestedSchema ⟨root,nullable,length,precision,scale,element,key,value,fields⟩)
        encoding (fieldDecoders encoding fields) encoded
      return .row vs
    | _ => fail s!"unsupported nested array element type {root.text}"
/-- `decodeBinaryArray(*elementType, encoded, encoding)`. -/
def decodeBinaryArray (encoding : RowEncoding) : Option LogicalType → Bytes → Go (List Value)
  | none, _ => .panic .nilDereference
  | some t, encoded => decodeBinaryArrayWith t (readArrayElementWith (decodeNested encoding t) t) encoded

def fieldDecoders (encoding : RowEncoding) :
    List LogicalField → List (Bytes → Nat → Int → Go (Value × Nat))
  | [] => []
  | ⟨_,type,_,_⟩ :: fields =>
    decodeRowValueWith encoding (decodeNested encoding type) type :: fieldDecoders encoding fields
end

def appendCompactedValue (dst : Bytes) (t : LogicalType) (v : Value) : Go Bytes :=
  appendCompactedWith (encodeNested .compacted t) dst t v

def encodeRowValue (encoding : RowEncoding) (t : LogicalType) (v : Value) : Go Bytes :=
  encodeRowValueWith encoding (encodeNested encoding t) t v

def decodeRowValue (encoding : RowEncoding) (t : LogicalType) (encoded : Bytes) (position : Nat)
    (length : Int) : Go (Value × Nat) :=
  decodeRowValueWith encoding (decodeNested encoding t) t encoded position length

def encodeRow (schema : Schema) (row : Row) (encoding : RowEncoding) : Go Bytes :=
  encodeRowWith schema encoding
    (schema.columns.map fun column => encodeRowValue encoding (logicalTypeForColumn column)) row

def decodeRow (schema : Schema) (encoded : Bytes) (encoding : RowEncoding) : Go Row :=
  decodeRowWith schema encoding
    (schema.columns.map fun column => decodeRowValue encoding (logicalTypeForColumn column)) encoded

theorem fieldEncoders_eq (encoding : RowEncoding) (fields : List LogicalField) :
    fieldEncoders encoding fields = (fields.map fieldColumn).map fun column =>
      encodeRowValue encoding (logicalTypeForColumn column) := by
  induction fields with
  | nil => rfl
  | cons f fs ih =>
    cases f
    rw [fieldEncoders,ih]
    rfl

theorem fieldDecoders_eq (encoding : RowEncoding) (fields : List LogicalField) :
    fieldDecoders encoding fields = (fields.map fieldColumn).map fun column =>
      decodeRowValue encoding (logicalTypeForColumn column) := by
  induction fields with
  | nil => rfl
  | cons f fs ih =>
    cases f
    rw [fieldDecoders,ih]
    rfl

theorem encodeNested_eq (encoding : RowEncoding) (t : LogicalType) (v : Value) : encodeNested encoding t v =
      match dataTypeForLogicalType t with
      | .array => v.asArray >>= encodeBinaryArray encoding t.element
      | .map => encodeBinaryMapWith (encodeBinaryArray encoding t.key) (encodeBinaryArray encoding t.value) v
      | .row => v.asRow >>= fun vs => encodeRow (nestedSchema t) vs encoding
      | _ => fail s!"unsupported array element type {t.root.text}" := by
  cases t
  rw [encodeNested,dataTypeForLogicalType]
  simp only [fieldEncoders_eq]
  rfl

theorem decodeNested_eq (encoding : RowEncoding) (t : LogicalType) (encoded : Bytes) :
    decodeNested encoding t encoded = match dataTypeForLogicalType t with
      | .array => decodeBinaryArray encoding t.element encoded >>= fun vs => .ok (.array vs)
      | .map =>
        decodeBinaryMapWith (decodeBinaryArray encoding t.key) (decodeBinaryArray encoding t.value) encoded
      | .row => decodeRow (nestedSchema t) encoded encoding >>= fun vs => .ok (.row vs)
      | _ => fail s!"unsupported nested array element type {t.root.text}" := by
  cases t
  rw [decodeNested,dataTypeForLogicalType]
  simp only [fieldDecoders_eq]
  rfl

def encodeCompactedRow (schema : Schema) (row : Row) : Go Bytes := encodeRow schema row .compacted
def decodeCompactedRow (schema : Schema) (encoded : Bytes) : Go Row := decodeRow schema encoded .compacted
def encodeIndexedRow (schema : Schema) (row : Row) : Go Bytes := encodeRow schema row .indexed
def decodeIndexedRow (schema : Schema) (encoded : Bytes) : Go Row := decodeRow schema encoded .indexed
/-- The column loop of `encodeKeyColumns`; the names have been checked against the schema. -/
def encodeKeyValues (schema : Schema) : List String → Row → Bytes → Go Bytes
  | [], _, encoded => .ok encoded
  | _ :: _, [], _ => .panic .outOfRange
  | name :: names, v :: values, encoded =>
    if v.isNil then failf .invalidRow s!"key column {name.quote} is null"
    else
      -- A name that is missing from the map yields the zero column.
      let column := (schema.columnByName name).getD { name := "", type := .other "" }
      do
        let encoded ← (appendCompactedValue encoded (logicalTypeForColumn column) v).mapErr
          (GoError.wrap s!"fgo: key column {name.quote}: ")
        encodeKeyValues schema names values encoded

def encodeKeyColumns (schema : Schema) (names : List String) (values : Row) : Go Bytes := do
  schema.validateRow values names
  let encoded ← encodeKeyValues schema names values []
  if maxRowBytes < encoded.length then failf .malformedRow s!"key exceeds {maxRowBytes} bytes"
  else return encoded

def encodePrimaryKey (schema : Schema) (key : Row) : Go Bytes := do
  schema.validatePrimaryKey key
  encodeKeyColumns schema schema.primaryKey key

def encodeLookupKey (schema : Schema) (key : Row) (version : Int) : Go Bytes :=
  if version ≠ 0 ∧ version ≠ 1 then failf .invalidConfig s!"unsupported Lookup version {version}"
  else encodePrimaryKey schema key

def encodePrefixKey (schema : Schema) (key : Row) : Go Bytes :=
  if key.length = 0 ∨ schema.primaryKey.length < key.length then
    failf .invalidRow s!"prefix has {key.length} values for {schema.primaryKey.length} primary-key columns"
  else encodeKeyColumns schema (schema.primaryKey.take key.length) key

def encodePrefixLookupKey (schema : Schema) (key : Row) (version : Int) : Go Bytes :=
  if version ≠ 0 ∧ version ≠ 1 then failf .invalidConfig s!"unsupported PrefixLookup version {version}"
  else encodePrefixKey schema key
/-- A number column, a string, an array and a nested row, all nullable. -/
def sampleSchema : Schema where
  columns :=
    let integer : LogicalType := { root := .integer, nullable := true }
    let text : LogicalType := { root := .named .string, nullable := true }
    [fieldColumn { name := "number", type := integer },
      fieldColumn { name := "name", type := text },
      fieldColumn { name := "values", type := { root := .named .array, nullable := true, element := some integer } },
      fieldColumn { name := "nested", type := { root := .named .row, nullable := true, fields := [
        { name := "number", type := integer }, { name := "label", type := text }] } }]

def sampleRow : Row :=
  [.int32 42, .string [102, 108, 117, 115, 115], .array [.int32 1, .nil, .int32 (-2)],
    .row [.int32 7, .string [103, 111]]]

def sampleCompacted : Bytes :=
  [0x00, 0x2a, 0x05, 0x66, 0x6c, 0x75, 0x73, 0x73, 0x18, 0x03, 0x00, 0x00, 0x00, 0x02, 0x00, 0x00, 0x00,
    0x01, 0x00, 0x00, 0x00, 0x00, 0x00, 0x00, 0x00, 0xfe, 0xff, 0xff, 0xff, 0x00, 0x00, 0x00, 0x00,
    0x05, 0x00, 0x07, 0x02, 0x67, 0x6f]

example : encodeCompactedRow sampleSchema sampleRow = .ok sampleCompacted := by decide
end FlussGo
