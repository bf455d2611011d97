import FlussGo.Log.Arrow
/-!
# Decoding fetched log bytes

`log_scanner_decode.go`: fetched bytes are cut into batches, each batch is decoded as rows or as an Arrow
record, trimmed to the wanted offsets, and evolved to the schema of the table.
-/
namespace FlussGo
structure ScanRecord where
  bucket : Int
  record : Record

structure ScanArrowBatch where
  bucket : Int
  batch : ArrowLogBatch
/-- `resolveSchema` for the `k`-th batch of a fetch; the answer depends on the context and the cluster. -/
abbrev SchemaResolver := Nat → TablePath → Int → Except GoError Schema
/-- The size of the first batch, or `none` when its end is missing. -/
def completeFetchedBatchSize (encoded : Bytes) : Go (Option Nat) :=
  if encoded.length < 12 then .ok none
  else do
    let length ← readLittle 4 encoded 8
    let size := 12 + length
    if size < logBatchV0HeaderSize then failf .malformedRecordBatch "invalid fetched batch size"
    else if encoded.length < size then return none
    else return some size

def incompleteFetchedBatchError (encoded : Bytes) : GoError :=
  if encoded.length < 12 then errorf .malformedRecordBatch "truncated fetched batch"
  else errorf .malformedRecordBatch "invalid fetched batch size"
/-- The number of records to drop from a batch and the offset after it. -/
def fetchedBatchOffsets (base count current : Int) : Go (Int × Int) :=
  if count < 0 then failf .malformedRecordBatch "negative log batch record count"
  else if count = 0 then .ok (0, current)
  else if maxInt64 - count < base then failf .malformedRecordBatch "log batch offset overflow"
  else
    let last := base + count
    let start := if last ≤ current then count else if base < current then current - base else 0
    .ok (start, if current < last then last else current)

def sliceFrom {α : Type} (values : List α) (start : Int) : Go (List α) :=
  if 0 ≤ start ∧ start ≤ values.length then .ok (values.drop start.toNat) else .panic .outOfRange
/-- `errors.Join`, of which `errors.Is` finds the first sentinel here. -/
def GoError.join (e e' : GoError) : GoError := ⟨e.sentinel.or e'.sentinel,e.message ++ "\n" ++ e'.message⟩
/-- What one batch delivers: the offset after it, and its rows or its Arrow batch. -/
structure BatchResult where
  next : Int
  rows : List ScanRecord := []
  arrow : Option ScanArrowBatch := none

def decodeFetchedBatch (reader : ArrowReader) (schema : Schema) (bucket current : Int) (payload : Bytes)
    (compacted : Bool) : Go BatchResult :=
  match decodeLogBatchRows schema payload compacted with
  | .ok batch => do
    let (start, next) ← fetchedBatchOffsets batch.baseOffset.toInt batch.records.length current
    let records ← sliceFrom batch.records start
    return { next := next, rows := records.map fun record => ⟨bucket,record⟩ }
  | .panic cause => .panic cause
  | .err rowErr => do
    let fields ← schema.arrowSchema
    let batch ← (decodeArrowLogBatch reader fields payload).mapErr rowErr.join
    let count ← batch.numRows
    let (start, next) ← fetchedBatchOffsets batch.baseOffset.toInt count current
    if start = count then return { next := next }
    else if 0 < start then return { next := next, arrow := some ⟨bucket,sliceArrowLogBatch batch start.toNat count⟩ }
    else return { next := next, arrow := some ⟨bucket,batch⟩ }

def evolveScanRecords (source target : Schema) : List ScanRecord → Go (List ScanRecord)
  | [] => .ok []
  | ⟨bucket,record⟩ :: records => do
    let row ← evolveRow source target record.value
    let rest ← evolveScanRecords source target records
    return ⟨bucket,{ record with value := row }⟩ :: rest
/-- The Arrow half of the evolution of a batch. -/
def evolveScanArrow (source target : Schema) : Option ScanArrowBatch → Go (Option ScanArrowBatch)
  | none => .ok none
  | some ⟨bucket,batch⟩ => do
    let evolved ← evolveArrowBatch batch source target
    return some ⟨bucket,evolved⟩

def decodeEvolvedFetchedBatch (reader : ArrowReader) (resolve : TablePath → Int → Except GoError Schema) (table : Table)
    (bucket offset : Int) (payload : Bytes) (compacted : Bool) : Go BatchResult := do
  let (_, _, schemaOffset) ← logBatchHeader payload
  let schemaID ← readInt16 payload schemaOffset
  match resolve table.path schemaID with
  | .error e => .err (e.wrap s!"fgo: resolve log schema {schemaID}: ")
  | .ok writerSchema =>
    let result ← decodeFetchedBatch reader writerSchema bucket offset payload compacted
    let rows ← evolveScanRecords writerSchema table.schema result.rows
    let arrow ← evolveScanArrow writerSchema table.schema result.arrow
    return { next := result.next, rows := rows, arrow := arrow }

theorem completeFetchedBatchSize_eq_some {encoded : Bytes} {size : Nat}
    (h : completeFetchedBatchSize encoded = .ok (some size)) : logBatchV0HeaderSize ≤ size ∧ size ≤ encoded.length := by
  unfold completeFetchedBatchSize at h
  split at h
  · simp at h
  obtain ⟨length,_,h⟩ := Outcome.of_bind h
  dsimp only at h
  split at h
  · simp at h
  · split at h
    · simp at h
    · obtain rfl := Option.some.inj (Outcome.ok.inj h)
      omega
/-- The offset after the batches decoded so far, and their records. -/
structure FetchedLog where
  next : Int
  rows : List ScanRecord := []
  arrows : List ScanArrowBatch := []

def FetchedLog.append (log : FetchedLog) (result : BatchResult) : FetchedLog where
  next := result.next
  rows := log.rows ++ result.rows
  arrows := log.arrows ++ result.arrow.toList

structure FetchedLogDecodeOptions where
  compacted : Bool
  allowIncompleteTail : Bool := false
/-- The batch loop of `decodeFetchedLogBatchesWithResolver`; `k` batches came before. -/
def decodeFetchedBatches (reader : ArrowReader) (resolver : SchemaResolver) (table : Table) (bucket : Int)
    (options : FetchedLogDecodeOptions) (k : Nat) (log : FetchedLog) (encoded : Bytes) : Go FetchedLog :=
  if encoded.isEmpty then .ok log
  else
    match hsize : completeFetchedBatchSize encoded with
    | .err e => .err e
    | .panic cause => .panic cause
    | .ok none =>
      -- A fetch that is limited by bytes may end inside a batch.
      if options.allowIncompleteTail then .ok log else .err (incompleteFetchedBatchError encoded)
    | .ok (some size) => do
      let result ← decodeEvolvedFetchedBatch reader (resolver k) table bucket log.next (encoded.take size) options.compacted
      decodeFetchedBatches reader resolver table bucket options (k + 1) (log.append result) (encoded.drop size)
termination_by encoded.length
decreasing_by
  have := completeFetchedBatchSize_eq_some hsize
  simp only [List.length_drop,logBatchV0HeaderSize] at *
  omega
/-- What the decoder returns next to an error. -/
structure FetchFailure where
  log : FetchedLog
  error : GoError

def decodeFetchedLogBatchesWithResolver (reader : ArrowReader) (resolver : SchemaResolver) (table : Table)
    (bucket fetchOffset : Int) (encoded : Bytes) (options : FetchedLogDecodeOptions) : Outcome FetchFailure FetchedLog :=
  match decodeFetchedBatches reader resolver table bucket options 0 { next := fetchOffset } encoded with
  | .ok log => .ok log
  | .err e => .err ⟨{ next := fetchOffset },e⟩
  | .panic cause => .panic cause

def decodeFetchedFetchResponseWithResolver (reader : ArrowReader) (resolver : SchemaResolver) (table : Table)
    (bucket fetchOffset : Int) (encoded : Bytes) (compacted : Bool) : Outcome FetchFailure FetchedLog :=
  decodeFetchedLogBatchesWithResolver reader resolver table bucket fetchOffset encoded
    { compacted := compacted, allowIncompleteTail := true }
end FlussGo
