import FlussGo.Row.RoundTrip
/-!
# Row-oriented log batches

The batch layout of `record_batch.go`: a header of fixed fields, whose checksum covers everything
from the schema ID on, and length-delimited records of one change byte and one encoded row.
-/
namespace FlussGo
def logBatchV0HeaderSize : Nat := 48
def logBatchV1HeaderSize : Nat := 52
/-- `ChangeType`, with the codes that `Validate` rejects. -/
inductive ChangeType where
  | append
  | insert
  | updateBefore
  | updateAfter
  | delete
  | unsupported (code : UInt8)
deriving DecidableEq

def ChangeType.toByte : ChangeType → UInt8
  | .append => 0
  | .insert => 1
  | .updateBefore => 2
  | .updateAfter => 3
  | .delete => 4
  | .unsupported code => code

def changeTypeOfByte (code : UInt8) : ChangeType :=
  if code = 0 then .append
  else if code = 1 then .insert
  else if code = 2 then .updateBefore
  else if code = 3 then .updateAfter
  else if code = 4 then .delete
  else .unsupported code

def ChangeType.validate : ChangeType → Go Unit
  | .unsupported _ => failf .invalidRow "invalid change type"
  | _ => .ok ()
/-- `Record` without the key, which log batches do not carry. -/
structure Record where
  value : Row
  change : ChangeType
  timestamp : Time := Time.unix 0 0
  offset : BitVec 64

structure LogBatch where
  magic : UInt8
  baseOffset : BitVec 64
  commitTime : BitVec 64 := 0
  leaderEpoch : BitVec 32 := 0
  schemaID : BitVec 16
  appendOnly : Bool
  writerID : BitVec 64
  batchSequence : BitVec 32
  records : List Record

def rowEncoding (compacted : Bool) : RowEncoding := if compacted then .compacted else .indexed

def encodeLogRow (schema : Schema) (compacted : Bool) (row : Row) : Go Bytes :=
  if compacted then encodeCompactedRow schema row else encodeIndexedRow schema row

def decodeLogRow (schema : Schema) (compacted : Bool) (encoded : Bytes) : Go Row :=
  if compacted then decodeCompactedRow schema encoded else decodeIndexedRow schema encoded

theorem encodeLogRow_eq (schema : Schema) (compacted : Bool) (row : Row) :
    encodeLogRow schema compacted row = encodeRow schema row (rowEncoding compacted) := by
  cases compacted <;> rfl

theorem decodeLogRow_eq (schema : Schema) (compacted : Bool) (encoded : Bytes) :
    decodeLogRow schema compacted encoded = decodeRow schema encoded (rowEncoding compacted) := by
  cases compacted <;> rfl

def encodeRecord (schema : Schema) (compacted : Bool) (record : Record) : Go Bytes := do
  record.change.validate
  let row ← encodeLogRow schema compacted record.value
  return littleBytes 4 (1 + row.length) ++ record.change.toByte :: row

def encodeRecords (schema : Schema) (compacted : Bool) : List Record → Go Bytes
  | [] => .ok []
  | record :: records => do
    let encoded ← encodeRecord schema compacted record
    let rest ← encodeRecords schema compacted records
    return encoded ++ rest
/-- The part of a batch that its checksum covers. -/
def logBatchTail (b : LogBatch) (records : Bytes) : Bytes :=
  littleBytes 2 b.schemaID.toNat ++ (if b.appendOnly then 1 else 0) ::
    (littleBytes 4 (b.records.length - 1) ++ (littleBytes 8 b.writerID.toNat ++
      (littleBytes 4 b.batchSequence.toNat ++ (littleBytes 4 b.records.length ++ records))))

def logBatchBytes (b : LogBatch) (tail : Bytes) : Bytes :=
  let epoch := if b.magic = 1 then littleBytes 4 b.leaderEpoch.toNat else []
  littleBytes 8 b.baseOffset.toNat ++ (littleBytes 4 (13 + epoch.length + tail.length) ++
    b.magic :: (littleBytes 8 b.commitTime.toNat ++ (epoch ++ (littleBytes 4 (crc32c tail) ++ tail))))
/-- `LogBatch.EncodeRows`; the fields it puts at fixed offsets are written here in layout order. -/
def LogBatch.encodeRows (b : LogBatch) (schema : Schema) (compacted : Bool) : Go Bytes :=
  if b.magic ≠ 0 ∧ b.magic ≠ 1 then failf .malformedRecordBatch s!"unsupported log magic {b.magic}"
  else do
    let records ← encodeRecords schema compacted b.records
    return logBatchBytes b (logBatchTail b records)
/-- Magic, header size and position of the schema ID. -/
def logBatchHeader (encoded : Bytes) : Go (UInt8 × Nat × Nat) :=
  if encoded.length < 13 ∨ maxRowBytes < encoded.length then
    failf .malformedRecordBatch "invalid log batch length"
  else do
    let magic ← byteAt encoded 12
    if magic ≠ 0 ∧ magic ≠ 1 then failf .malformedRecordBatch s!"unsupported log magic {magic}"
    else
      let headerSize := if magic = 1 then logBatchV1HeaderSize else logBatchV0HeaderSize
      let crcOffset := if magic = 1 then 25 else 21
      let schemaOffset := if magic = 1 then 29 else 25
      let size ← readLittle 4 encoded 8
      if encoded.length < headerSize ∨ size ≠ encoded.length - 12 then
        failf .malformedRecordBatch "invalid log batch size"
      else
        let checksum ← readLittle 4 encoded crcOffset
        if checksum ≠ crc32c (encoded.drop schemaOffset) then
          failf .malformedRecordBatch "invalid log batch checksum"
        else return (magic, headerSize, schemaOffset)

def decodeLogRecord (schema : Schema) (batch : LogBatch) (encoded : Bytes) (position index : Nat)
    (compacted : Bool) : Go (Record × Nat) :=
  if encoded.length - position < 5 then failf .malformedRecordBatch "truncated log record"
  else do
    let length ← readLittle 4 encoded position
    if length < 1 ∨ encoded.length - (position + 4) < length then
      failf .malformedRecordBatch "invalid log record length"
    else
      let code ← byteAt encoded (position + 4)
      match (changeTypeOfByte code).validate with
      | .ok () =>
        let body ← subslice encoded (position + 5) (position + 4 + length)
        let row ← decodeLogRow schema compacted body
        let record : Record := {
          value := row, change := changeTypeOfByte code, offset := batch.baseOffset + BitVec.ofNat 64 index,
          timestamp := Time.unixMilli batch.commitTime.toInt }
        return (record, position + 4 + length)
      | _ => failf .malformedRecordBatch "invalid log change type"
/-- The record loop of `DecodeLogBatchRows`, over the number of records that remain. -/
def decodeLogRecords (schema : Schema) (batch : LogBatch) (encoded : Bytes) (compacted : Bool) :
    Nat → Nat → Nat → Go (List Record × Nat)
  | 0, _, position => .ok ([], position)
  | count + 1, index, position => do
    let (record, next) ← decodeLogRecord schema batch encoded position index compacted
    let (records, last) ← decodeLogRecords schema batch encoded compacted count (index + 1) next
    return (record :: records, last)
/-- Only a version 1 header has a leader epoch. -/
def readLeaderEpoch (magic : UInt8) (encoded : Bytes) : Go Nat :=
  if magic = 1 then readLittle 4 encoded 21 else .ok 0

def decodeLogBatchRows (schema : Schema) (encoded : Bytes) (compacted : Bool) : Go LogBatch := do
  let (magic, headerSize, schemaOffset) ← logBatchHeader encoded
  let lastOffset := schemaOffset + 3
  let count ← readLittle 4 encoded (lastOffset + 16)
  if (encoded.length - headerSize) / 5 < count then failf .malformedRecordBatch "invalid log record count"
  else
    let baseOffset ← readLittle 8 encoded 0
    let commitTime ← readLittle 8 encoded 13
    let leaderEpoch ← readLeaderEpoch magic encoded
    let schemaID ← readLittle 2 encoded schemaOffset
    let attributes ← byteAt encoded (schemaOffset + 2)
    let writerID ← readLittle 8 encoded (lastOffset + 4)
    let batchSequence ← readLittle 4 encoded (lastOffset + 12)
    let batch : LogBatch := {
      magic := magic, baseOffset := BitVec.ofNat 64 baseOffset, commitTime := BitVec.ofNat 64 commitTime,
      leaderEpoch := BitVec.ofNat 32 leaderEpoch, schemaID := BitVec.ofNat 16 schemaID,
      appendOnly := attributes &&& 1 ≠ 0, writerID := BitVec.ofNat 64 writerID,
      batchSequence := BitVec.ofNat 32 batchSequence, records := [] }
    let (records, position) ← decodeLogRecords schema batch encoded compacted count 0 headerSize
    if position ≠ encoded.length then failf .malformedRecordBatch "trailing log bytes"
    else return { batch with records := records }
end FlussGo
