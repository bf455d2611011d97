import FlussGo.Row.Array
/-!
# Column values in the compacted and the indexed encoding

`row_value_codec.go`. Compacted values carry their own lengths; indexed values have a width given by
the type or a length kept in the row header.
-/
namespace FlussGo
def indexedFixed (t : LogicalType) : Bool :=
  match dataTypeForLogicalType t with
  | .bool | .tinyInt | .smallInt | .int | .bigInt | .float | .double | .date | .time | .timestamp
  | .timestampLTZ => true
  | .char | .binary => decide (0 < t.length)
  | .decimal => decide (0 < t.precision ∧ t.precision ≤ 18)
  | _ => false

def indexedLength (t : LogicalType) : Int :=
  match dataTypeForLogicalType t with
  | .bool | .tinyInt => 1
  | .smallInt => 2
  | .int | .float | .date | .time => 4
  | .bigInt | .double | .decimal => 8
  | .timestamp | .timestampLTZ => if 3 < t.precision then 12 else 8
  | .char | .binary => t.length
  | _ => -1

def appendCompactedTimestamp (dst : Bytes) (t : LogicalType) (x : Time) : Bytes :=
  let (millis, nanos) := timestampParts (dataTypeForLogicalType t) x
  let dst := appendVar64 dst millis.toNat
  if 3 < t.precision then appendVar32 dst nanos.toNat else dst

def appendCompactedDecimal (dst : Bytes) (t : LogicalType) (r : Option Rat) : Go Bytes := do
  let unscaled ← decimalUnscaled r t
  if t.precision ≤ 18 then return appendVar64 dst (BitVec.ofInt 64 unscaled).toNat
  else appendLengthBytes dst (signedBigEndian unscaled)

def appendCompactedWith (nested : Value → Go Bytes) (dst : Bytes) (t : LogicalType) (v : Value) : Go Bytes :=
  match dataTypeForLogicalType t with
  | .bool => do
    let b ← v.asBool
    return dst ++ [if b then 1 else 0]
  | .tinyInt => do
    let x ← v.asInt8
    return appendLittle dst x.toNat 1
  | .smallInt => do
    let x ← v.asInt16
    return appendLittle dst x.toNat 2
  | .int => do
    let x ← v.asInt32
    return appendVar32 dst x.toNat
  | .bigInt => do
    let x ← v.asInt64
    return appendVar64 dst x.toNat
  | .float => do
    let x ← v.asFloat32
    return appendLittle dst x.toNat 4
  | .double => do
    let x ← v.asFloat64
    return appendLittle dst x.toNat 8
  | .string | .char => do
    let s ← v.asString
    appendLengthBytes dst s
  | .bytes | .binary => do
    let b ← v.asBytes
    appendLengthBytes dst b
  | .date | .time => do
    let x ← v.asTime
    return appendVar32 dst (temporalInt (dataTypeForLogicalType t) x).toNat
  | .timestamp | .timestampLTZ => do
    let x ← v.asTime
    return appendCompactedTimestamp dst t x
  | .decimal => do
    let r ← v.asRat
    appendCompactedDecimal dst t r
  | .array | .map | .row => do
    let payload ← nested v
    appendLengthBytes dst payload
  | .other _ => fail s!"unsupported compacted type {t.root.text}"

def appendIndexedTimestamp (dst : Bytes) (t : LogicalType) (x : Time) : Bytes :=
  let (millis, nanos) := timestampParts (dataTypeForLogicalType t) x
  let dst := appendLittle dst millis.toNat 8
  if 3 < t.precision then appendLittle dst nanos.toNat 4 else dst

def appendIndexedDecimal (dst : Bytes) (t : LogicalType) (r : Option Rat) : Go Bytes := do
  let unscaled ← decimalUnscaled r t
  if t.precision ≤ 18 then return appendLittle dst (BitVec.ofInt 64 unscaled).toNat 8
  else return dst ++ signedBigEndian unscaled
/-- CHAR and BINARY values: zero-padded to the declared length, if there is one. -/
def appendIndexedBytes (dst : Bytes) (t : LogicalType) (b : Bytes) : Go Bytes :=
  if t.length = 0 then .ok (dst ++ b) else appendFixed dst b t.length

def appendIndexedWith (nested : Value → Go Bytes) (dst : Bytes) (t : LogicalType) (v : Value) : Go Bytes :=
  match dataTypeForLogicalType t with
  | .int => do
    let x ← v.asInt32
    return appendLittle dst x.toNat 4
  | .bigInt => do
    let x ← v.asInt64
    return appendLittle dst x.toNat 8
  | .date | .time => do
    let x ← v.asTime
    return appendLittle dst (temporalInt (dataTypeForLogicalType t) x).toNat 4
  | .timestamp | .timestampLTZ => do
    let x ← v.asTime
    return appendIndexedTimestamp dst t x
  | .string => do
    let s ← v.asString
    return dst ++ s
  | .char => do
    let s ← v.asString
    appendIndexedBytes dst t s
  | .bytes => do
    let b ← v.asBytes
    return dst ++ b
  | .binary => do
    let b ← v.asBytes
    appendIndexedBytes dst t b
  | .decimal => do
    let r ← v.asRat
    appendIndexedDecimal dst t r
  | .array | .map | .row => do
    let payload ← nested v
    return dst ++ payload
  | _ => appendCompactedWith nested dst t v

def encodeRowValueWith (encoding : RowEncoding) (nested : Value → Go Bytes) (t : LogicalType) (v : Value) :
    Go Bytes :=
  match encoding with
  | .compacted => appendCompactedWith nested [] t v
  | .indexed => appendIndexedWith nested [] t v
/-- A fixed-width little-endian word at the cursor. -/
def readWord (encoded : Bytes) (position width : Nat) : Go (Nat × Nat) := do
  let (value, next) ← readFixed encoded position width
  let word ← readLittle width value 0
  return (word, next)

def readCompactedTimestamp (encoded : Bytes) (position : Nat) (t : LogicalType) : Go (Value × Nat) := do
  let kind := dataTypeForLogicalType t
  let (millis, next) ← readVar encoded position 10
  if 3 < t.precision then
    let (nanos, next) ← (readVar encoded next 5).mapErr fun _ => newError "invalid timestamp nanos"
    if 999999 < nanos then fail "invalid timestamp nanos"
    else return (.time (timestampTime kind (BitVec.ofNat 64 millis) (BitVec.ofNat 32 nanos)), next)
  else return (.time (timestampTime kind (BitVec.ofNat 64 millis) 0), next)

def readCompactedDecimal (encoded : Bytes) (position : Nat) (t : LogicalType) : Go (Value × Nat) :=
  if t.precision ≤ 18 then do
    let (value, next) ← readVar encoded position 10
    return (.rat (some (scaledRat (BitVec.ofNat 64 value).toInt t.scale)), next)
  else do
    let (value, next) ← readLengthBytes encoded position
    return (.rat (some (scaledRat (signedBigInt value) t.scale)), next)

def readCompactedBool (encoded : Bytes) (position : Nat) : Go (Value × Nat) := do
  let (value, next) ← (readFixed encoded position 1).mapErr fun _ => newError "invalid boolean"
  let b ← byteAt value 0
  if 1 < b then fail "invalid boolean" else return (.bool (b == 1), next)

def readCompactedWith (nested : Bytes → Go Value) (t : LogicalType) (encoded : Bytes) (position : Nat) :
    Go (Value × Nat) :=
  match dataTypeForLogicalType t with
  | .bool => readCompactedBool encoded position
  | .tinyInt => do
    let (word, next) ← readWord encoded position 1
    return (.int8 (BitVec.ofNat 8 word), next)
  | .smallInt => do
    let (word, next) ← readWord encoded position 2
    return (.int16 (BitVec.ofNat 16 word), next)
  | .float => do
    let (word, next) ← readWord encoded position 4
    return (.float32 (BitVec.ofNat 32 word), next)
  | .double => do
    let (word, next) ← readWord encoded position 8
    return (.float64 (BitVec.ofNat 64 word), next)
  | .int => do
    let (value, next) ← readVar encoded position 5
    return (.int32 (BitVec.ofNat 32 value), next)
  | .bigInt => do
    let (value, next) ← readVar encoded position 10
    return (.int64 (BitVec.ofNat 64 value), next)
  | .string | .char => do
    let (value, next) ← readLengthBytes encoded position
    return (.string value, next)
  | .bytes | .binary => do
    let (value, next) ← readLengthBytes encoded position
    return (.bytes value, next)
  | .date | .time => do
    let (value, next) ← readVar encoded position 5
    return (.time (temporalTime (dataTypeForLogicalType t) (BitVec.ofNat 32 value)), next)
  | .timestamp | .timestampLTZ => readCompactedTimestamp encoded position t
  | .decimal => readCompactedDecimal encoded position t
  | .array | .map | .row => do
    let (value, next) ← readLengthBytes encoded position
    let decoded ← nested value
    return (decoded, next)
  | .other _ => fail s!"unsupported compacted type {t.root.text}"

def readIndexedVariableWith (nested : Bytes → Go Value) (t : LogicalType) (encoded : Bytes) (position : Nat)
    (length : Int) : Go (Value × Nat) := do
  let (value, next) ← readFixed encoded position length
  match dataTypeForLogicalType t with
  | .string | .char => return (.string value, next)
  | .bytes | .binary => return (.bytes value, next)
  | .decimal => return (.rat (some (scaledRat (signedBigInt value) t.scale)), next)
  | .array | .map | .row => do
    let decoded ← nested value
    return (decoded, next)
  | _ => fail s!"unsupported indexed variable type {t.root.text}"

def readIndexedTimestamp (encoded : Bytes) (position : Nat) (t : LogicalType) : Go (Value × Nat) := do
  let kind := dataTypeForLogicalType t
  let width := indexedLength t
  let (value, next) ← readFixed encoded position width
  let nanos ← if width = 12 then readLittle 4 value 8 else .ok 0
  let nanos := BitVec.ofNat 32 nanos
  if 999999 < nanos.toInt then fail "invalid timestamp nanos"
  else do
    let millis ← readLittle 8 value 0
    return (.time (timestampTime kind (BitVec.ofNat 64 millis) nanos), next)

def readIndexedFixedWith (nested : Bytes → Go Value) (t : LogicalType) (encoded : Bytes) (position : Nat) :
    Go (Value × Nat) :=
  match dataTypeForLogicalType t with
  | .int => do
    let (word, next) ← readWord encoded position 4
    return (.int32 (BitVec.ofNat 32 word), next)
  | .bigInt => do
    let (word, next) ← readWord encoded position 8
    return (.int64 (BitVec.ofNat 64 word), next)
  | .date | .time => do
    let (word, next) ← readWord encoded position 4
    return (.time (temporalTime (dataTypeForLogicalType t) (BitVec.ofNat 32 word)), next)
  | .timestamp | .timestampLTZ => readIndexedTimestamp encoded position t
  | .char => do
    let (value, next) ← readFixed encoded position t.length
    return (.string (trimZero value), next)
  | .binary => do
    let (value, next) ← readFixed encoded position t.length
    return (.bytes (trimZero value), next)
  | .decimal => do
    let (word, next) ← readWord encoded position 8
    return (.rat (some (scaledRat (BitVec.ofNat 64 word).toInt t.scale)), next)
  | _ => readCompactedWith nested t encoded position

def readIndexedWith (nested : Bytes → Go Value) (t : LogicalType) (encoded : Bytes) (position : Nat)
    (length : Int) : Go (Value × Nat) :=
  if indexedFixed t then readIndexedFixedWith nested t encoded position
  else readIndexedVariableWith nested t encoded position length

def decodeRowValueWith (encoding : RowEncoding) (nested : Bytes → Go Value) (t : LogicalType)
    (encoded : Bytes) (position : Nat) (length : Int) : Go (Value × Nat) :=
  match encoding with
  | .compacted => readCompactedWith nested t encoded position
  | .indexed => readIndexedWith nested t encoded position length
end FlussGo
