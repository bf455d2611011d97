import FlussGo.Row.Cursor
import FlussGo.Row.Temporal
import FlussGo.Row.Decimal
/-!
# Binary arrays and maps

`binary_array_codec.go`: a count, a null bitmap, one slot per element and, after an 8-byte
boundary, the variable-width values that slots point to. The codecs of nested types are parameters.
-/
namespace FlussGo
open Value
section Assertions
def Value.asBool : Value → Go Bool
  | .bool b => .ok b
  | _ => .panic .typeAssertion

def Value.asInt8 : Value → Go (BitVec 8)
  | .int8 x => .ok x
  | _ => .panic .typeAssertion

def Value.asInt16 : Value → Go (BitVec 16)
  | .int16 x => .ok x
  | _ => .panic .typeAssertion

def Value.asInt32 : Value → Go (BitVec 32)
  | .int32 x => .ok x
  | _ => .panic .typeAssertion

def Value.asInt64 : Value → Go (BitVec 64)
  | .int64 x => .ok x
  | _ => .panic .typeAssertion

def Value.asFloat32 : Value → Go (BitVec 32)
  | .float32 x => .ok x
  | _ => .panic .typeAssertion

def Value.asFloat64 : Value → Go (BitVec 64)
  | .float64 x => .ok x
  | _ => .panic .typeAssertion

def Value.asString : Value → Go Bytes
  | .string s => .ok s
  | _ => .panic .typeAssertion

def Value.asBytes : Value → Go Bytes
  | .bytes b => .ok b
  | _ => .panic .typeAssertion

def Value.asRat : Value → Go (Option Rat)
  | .rat r => .ok r
  | _ => .panic .typeAssertion

def Value.asTime : Value → Go Time
  | .time t => .ok t
  | _ => .panic .typeAssertion

def Value.asArray : Value → Go (List Value)
  | .array vs => .ok vs
  | _ => .panic .typeAssertion

def Value.asRow : Value → Go Row
  | .row vs => .ok vs
  | _ => .panic .typeAssertion

variable {v : Value}

theorem bind_as_eq_ok {α β : Type} {as : Go α} {held : α → Value} {f : α → Go β} {b : β}
    (has : ∀ {x}, as = .ok x ↔ v = held x) (h : as >>= f = .ok b) : ∃ x, v = held x ∧ f x = .ok b := by
  obtain ⟨x,hx,hf⟩ := Outcome.of_bind h
  exact ⟨x,has.mp hx,hf⟩

@[simp] theorem Value.asBool_eq_ok {b : Bool} : v.asBool = .ok b ↔ v = .bool b := by
  cases v <;> simp [asBool]

@[simp] theorem Value.asInt8_eq_ok {x : BitVec 8} : v.asInt8 = .ok x ↔ v = .int8 x := by
  cases v <;> simp [asInt8]

@[simp] theorem Value.asInt16_eq_ok {x : BitVec 16} : v.asInt16 = .ok x ↔ v = .int16 x := by
  cases v <;> simp [asInt16]

@[simp] theorem Value.asInt32_eq_ok {x : BitVec 32} : v.asInt32 = .ok x ↔ v = .int32 x := by
  cases v <;> simp [asInt32]

@[simp] theorem Value.asInt64_eq_ok {x : BitVec 64} : v.asInt64 = .ok x ↔ v = .int64 x := by
  cases v <;> simp [asInt64]

@[simp] theorem Value.asFloat32_eq_ok {x : BitVec 32} : v.asFloat32 = .ok x ↔ v = .float32 x := by
  cases v <;> simp [asFloat32]

@[simp] theorem Value.asFloat64_eq_ok {x : BitVec 64} : v.asFloat64 = .ok x ↔ v = .float64 x := by
  cases v <;> simp [asFloat64]

@[simp] theorem Value.asString_eq_ok {s : Bytes} : v.asString = .ok s ↔ v = .string s := by
  cases v <;> simp [asString]

@[simp] theorem Value.asBytes_eq_ok {b : Bytes} : v.asBytes = .ok b ↔ v = .bytes b := by
  cases v <;> simp [asBytes]

@[simp] theorem Value.asRat_eq_ok {r : Option Rat} : v.asRat = .ok r ↔ v = .rat r := by
  cases v <;> simp [asRat]

@[simp] theorem Value.asTime_eq_ok {t : Time} : v.asTime = .ok t ↔ v = .time t := by
  cases v <;> simp [asTime]

@[simp] theorem Value.asArray_eq_ok {vs : List Value} : v.asArray = .ok vs ↔ v = .array vs := by
  cases v <;> simp [asArray]

@[simp] theorem Value.asRow_eq_ok {vs : List Value} : v.asRow = .ok vs ↔ v = .row vs := by
  cases v <;> simp [asRow]
end Assertions

def align8 (n : Nat) : Nat := (n + 7) / 8 * 8

def arraySlotSize (t : LogicalType) : Nat :=
  match dataTypeForLogicalType t with
  | .bool | .tinyInt => 1
  | .smallInt => 2
  | .int | .float | .date | .time => 4
  | _ => 8
/-- `putOffsetSize`: the offset in the upper and the size in the lower half of the slot. -/
def putOffsetSize (encoded : Bytes) (slot offset size : Nat) : Go Bytes :=
  putLittle 8 encoded slot ((offset % 2 ^ 32) <<< 32 ||| size % 2 ^ 32)

def offsetSize (encoded : Bytes) (slot : Nat) : Go (Nat × Nat) := do
  let value ← readLittle 8 encoded slot
  return (value >>> 32, value % 2 ^ 32)

def appendArrayVariable (encoded : Bytes) (slot : Nat) (value : Bytes) (reserved : Nat) : Go Bytes :=
  if reserved < value.length ∨ maxRowBytes < reserved + encoded.length then
    fail "invalid array variable length"
  else putOffsetSize (encoded ++ (value ++ zeros (reserved - value.length))) slot encoded.length value.length

def arrayVariable (encoded : Bytes) (slot : Nat) : Go Bytes := do
  let (offset, size) ← offsetSize encoded slot
  let (value, _) ← readFixed encoded offset size
  return value
/-- The loop that packs short values: `packed |= uint64(part) << (8 * i)`. -/
def packInto : Bytes → Nat → Nat → Nat
  | [], _, packed => packed
  | part :: rest, i, packed => packInto rest (i + 1) (packed ||| part.toNat <<< (8 * i))

def appendPackedArrayBytes (encoded : Bytes) (slot : Nat) (value : Bytes) : Go Bytes :=
  if value.length ≤ 7 then
    putLittle 8 encoded slot (packInto value 0 ((value.length ||| 0x80) <<< 56))
  else appendArrayVariable encoded slot value (align8 value.length)

def unpackedArrayBytes (encoded : Bytes) (slot : Nat) : Go Bytes := do
  let packed ← readLittle 8 encoded slot
  if packed >>> 63 ≠ 0 then
    let length := packed >>> 56 &&& 0x7f
    if 7 < length then fail "invalid packed array length"
    else return (List.range length).map fun i => UInt8.ofNat (packed >>> (8 * i))
  else arrayVariable encoded slot
/-- Above precision 3 the slot holds the nanoseconds in place of a payload size. -/
def writeArrayTimestamp (t : LogicalType) (x : Time) (encoded : Bytes) (slot : Nat) : Go Bytes :=
  let (millis, nanos) := timestampParts (dataTypeForLogicalType t) x
  if t.precision ≤ 3 then putLittle 8 encoded slot millis.toNat
  else putOffsetSize (appendLittle encoded millis.toNat 8) slot encoded.length nanos.toNat

def writeArrayDecimal (t : LogicalType) (r : Option Rat) (encoded : Bytes) (slot : Nat) : Go Bytes := do
  let unscaled ← decimalUnscaled r t
  if t.precision ≤ 18 then putLittle 8 encoded slot (BitVec.ofInt 64 unscaled).toNat
  else appendArrayVariable encoded slot (signedBigEndian unscaled) 16

def writeArrayElementWith (nested : Value → Go Bytes) (t : LogicalType) (v : Value) (encoded : Bytes)
    (slot : Nat) : Go Bytes :=
  match dataTypeForLogicalType t with
  | .bool => do
    let b ← v.asBool
    if b then putLittle 1 encoded slot 1 else .ok encoded
  | .tinyInt => do
    let x ← v.asInt8
    putLittle 1 encoded slot x.toNat
  | .smallInt => do
    let x ← v.asInt16
    putLittle 2 encoded slot x.toNat
  | .int => do
    let x ← v.asInt32
    putLittle 4 encoded slot x.toNat
  | .date | .time => do
    let x ← v.asTime
    putLittle 4 encoded slot (temporalInt (dataTypeForLogicalType t) x).toNat
  | .float => do
    let x ← v.asFloat32
    putLittle 4 encoded slot x.toNat
  | .bigInt => do
    let x ← v.asInt64
    putLittle 8 encoded slot x.toNat
  | .double => do
    let x ← v.asFloat64
    putLittle 8 encoded slot x.toNat
  | .decimal => do
    let r ← v.asRat
    writeArrayDecimal t r encoded slot
  | .timestamp | .timestampLTZ => do
    let x ← v.asTime
    writeArrayTimestamp t x encoded slot
  | .string | .char => do
    let s ← v.asString
    appendPackedArrayBytes encoded slot s
  | .bytes | .binary => do
    let b ← v.asBytes
    appendPackedArrayBytes encoded slot b
  | .array | .map | .row => do
    let payload ← nested v
    appendArrayVariable encoded slot payload (align8 payload.length)
  | .other _ => fail s!"unsupported array element type {t.root.text}"

def readArrayDecimal (encoded : Bytes) (slot : Nat) (t : LogicalType) : Go Value :=
  if t.precision ≤ 18 then do
    let word ← readLittle 8 encoded slot
    return .rat (some (scaledRat (BitVec.ofNat 64 word).toInt t.scale))
  else do
    let value ← arrayVariable encoded slot
    return .rat (some (scaledRat (signedBigInt value) t.scale))

def readArrayTimestamp (encoded : Bytes) (slot : Nat) (t : LogicalType) : Go Value :=
  if t.precision ≤ 3 then do
    let word ← readLittle 8 encoded slot
    return .time (timestampTime (dataTypeForLogicalType t) (BitVec.ofNat 64 word) 0)
  else do
    let (offset, nanos) ← offsetSize encoded slot
    let (value, _) ← (readFixed encoded offset 8).mapErr fun _ => newError "invalid timestamp array value"
    if 999999 < nanos then fail "invalid timestamp array value" else do
      let word ← readLittle 8 value 0
      return .time (timestampTime (dataTypeForLogicalType t) (BitVec.ofNat 64 word) (BitVec.ofNat 32 nanos))

def readArrayElementWith (nested : Bytes → Go Value) (t : LogicalType) (encoded : Bytes) (slot : Nat) :
    Go Value :=
  if encoded.length < slot + arraySlotSize t then fail "truncated array slot"
  else
    match dataTypeForLogicalType t with
    | .bool => do
      let b ← byteAt encoded slot
      if 1 < b then fail "invalid boolean" else .ok (.bool (b == 1))
    | .tinyInt => do
      let word ← readLittle 1 encoded slot
      return .int8 (BitVec.ofNat 8 word)
    | .smallInt => do
      let word ← readLittle 2 encoded slot
      return .int16 (BitVec.ofNat 16 word)
    | .int => do
      let word ← readLittle 4 encoded slot
      return .int32 (BitVec.ofNat 32 word)
    | .float => do
      let word ← readLittle 4 encoded slot
      return .float32 (BitVec.ofNat 32 word)
    | .bigInt => do
      let word ← readLittle 8 encoded slot
      return .int64 (BitVec.ofNat 64 word)
    | .double => do
      let word ← readLittle 8 encoded slot
      return .float64 (BitVec.ofNat 64 word)
    | .date | .time => do
      let word ← readLittle 4 encoded slot
      return .time (temporalTime (dataTypeForLogicalType t) (BitVec.ofNat 32 word))
    | .decimal => readArrayDecimal encoded slot t
    | .timestamp | .timestampLTZ => readArrayTimestamp encoded slot t
    | .string | .char => do
      let value ← unpackedArrayBytes encoded slot
      return .string value
    | .bytes | .binary => do
      let value ← unpackedArrayBytes encoded slot
      return .bytes value
    | .array | .map | .row => do
      let value ← arrayVariable encoded slot
      nested value
    | .other _ => fail s!"unsupported array element type {t.root.text}"
/-- The bytes of the null bitmap of an array of `count` elements. -/
def arrayNullBytes (count : Nat) : Nat := (count + 31) / 32 * 4

def arrayFixedBytes (t : LogicalType) (count : Nat) : Nat :=
  align8 (4 + arrayNullBytes count + arraySlotSize t * count)
/-- The element loop of `encodeBinaryArray` from element `i` on; `base` is the position of slot 0. -/
def encodeElements (t : LogicalType) (write : Value → Bytes → Nat → Go Bytes) (base : Nat) :
    List Value → Nat → Bytes → Go Bytes
  | [], _, encoded => .ok encoded
  | v :: vs, i, encoded =>
    if v.isNil then
      if t.nullable then do
        let encoded ← setBit 4 i encoded
        encodeElements t write base vs (i + 1) encoded
      else fail s!"array element {i} is not nullable"
    else if validLogicalValue t v then do
      let encoded ← (write v encoded (base + arraySlotSize t * i)).mapErr (GoError.wrap s!"array element {i}: ")
      if maxRowBytes < encoded.length then fail "array exceeds allocation limit"
      else encodeElements t write base vs (i + 1) encoded
    else fail s!"array element {i} has invalid {t.root.text} value"

def encodeBinaryArrayWith (t : LogicalType) (write : Value → Bytes → Nat → Go Bytes)
    (values : List Value) : Go Bytes :=
  if maxRowBytes / 8 < values.length then fail "array element count exceeds allocation limit"
  else if maxRowBytes < arrayFixedBytes t values.length then
    fail "array fixed region exceeds allocation limit"
  else do
    let encoded ← putLittle 4 (zeros (arrayFixedBytes t values.length)) 0 values.length
    encodeElements t write (4 + arrayNullBytes values.length) values 0 encoded
/-- The element loop of `decodeBinaryArray`: `remaining` elements from element `i` on. -/
def decodeElements (t : LogicalType) (read : Bytes → Nat → Go Value) (base : Nat) (encoded : Bytes) :
    (remaining i : Nat) → Go (List Value)
  | 0, _ => .ok []
  | remaining + 1, i => do
    let isNull ← bitAt 4 i encoded
    if isNull then
      if t.nullable then do
        let values ← decodeElements t read base encoded remaining (i + 1)
        return .nil :: values
      else fail s!"non-nullable array element {i} is null"
    else do
      let value ← (read encoded (base + arraySlotSize t * i)).mapErr (GoError.wrap s!"array element {i}: ")
      let values ← decodeElements t read base encoded remaining (i + 1)
      return value :: values

def decodeBinaryArrayWith (t : LogicalType) (read : Bytes → Nat → Go Value) (encoded : Bytes) :
    Go (List Value) :=
  if encoded.length < 4 ∨ maxRowBytes < encoded.length then fail "invalid binary array length"
  else do
    let count ← readLittle 4 encoded 0
    if maxRowBytes / 8 < count then fail "array element count exceeds allocation limit"
    else if encoded.length < arrayFixedBytes t count then fail "truncated binary array"
    else decodeElements t read (4 + arrayNullBytes count) encoded count 0

def encodeBinaryMapWith (encodeKeys encodeValues : List Value → Go Bytes) (v : Value) : Go Bytes :=
  match mapEntries v with
  | none => fail "invalid map value"
  | some entries => do
    let keyBytes ← encodeKeys (entries.map Prod.fst)
    let valueBytes ← encodeValues (entries.map Prod.snd)
    return littleBytes 4 keyBytes.length ++ keyBytes ++ valueBytes

def decodeBinaryMapWith (decodeKeys decodeValues : Bytes → Go (List Value)) (encoded : Bytes) : Go Value :=
  if encoded.length < 4 then fail "truncated binary map"
  else do
    let keyLength ← readLittle 4 encoded 0
    if encoded.length - 4 < keyLength then fail "invalid binary map key length"
    else do
      let keyBytes ← subslice encoded 4 (4 + keyLength)
      let keys ← decodeKeys keyBytes
      let valueBytes ← subslice encoded (4 + keyLength) encoded.length
      let values ← decodeValues valueBytes
      if keys.length ≠ values.length then fail "binary map key/value count mismatch"
      else return .map (keys.zip values)
end FlussGo
