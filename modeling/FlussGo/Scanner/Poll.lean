import FlussGo.Lib.Run
import FlussGo.Scanner.Bounds
/-!
# Polling a log scanner

`Poll` visits the subscribed buckets one after the other. A visit fetches, decodes and cuts the log of one
bucket and stores the offset to continue from. Wakeup, Close and the caller's context act in between.
-/
namespace FlussGo
structure ScannerFetch where
  records : Bytes
  highWatermark : BitVec 64
  /-- Unset unless the server applied a filter. -/
  filteredEndOffset : Option (BitVec 64) := none

structure ScanResult where
  records : List ScanRecord := []
  arrowBatches : List ScanArrowBatch := []
  bucketErrors : List (Int × GoError) := []
  highWatermark : IDMap (BitVec 64) := ∅
  done : Bool := false

def fixedSchemaResolver (path : TablePath) (schemaID : Int) (schema : Schema) : SchemaResolver := fun _ p id =>
  if p ≠ path ∨ id ≠ schemaID then .error (errorf .invalidSchema s!"schema ID {id} is unavailable for {p.text}") else .ok schema
/-- The values of a row at the projected positions. -/
def projectValues (row : Row) : List Nat → Go Row
  | [] => .ok []
  | position :: projection =>
    match row[position]? with
    | none => .panic .outOfRange
    | some v => do
      let vs ← projectValues row projection
      return v :: vs

def projectRows (projection : List Nat) : List ScanRecord → Go (List ScanRecord)
  | [] => .ok []
  | ⟨bucket,record⟩ :: rows => do
    let row ← projectValues record.value projection
    let rest ← projectRows projection rows
    return ⟨bucket,{ record with value := row }⟩ :: rest

def projectColumnsOf (record : ArrowRecord) : List Nat → Go (List ArrowArray)
  | [] => .ok []
  | position :: projection =>
    match record.columns[position]? with
    | none => failf .invalidSchema s!"projected Arrow column {position} is unavailable"
    | some column => do
      let columns ← projectColumnsOf record projection
      return column :: columns

def projectArrows (fields : List ArrowField) (projection : List Nat) : List ScanArrowBatch → Go (List ScanArrowBatch)
  | [] => .ok []
  | ⟨bucket,batch⟩ :: arrows =>
    match batch.record with
    | none => .panic .nilDereference
    | some source => do
      let columns ← projectColumnsOf source projection
      let record ← newRecordBatch fields columns source.numRows
      let rest ← projectArrows fields projection arrows
      return ⟨bucket,{ batch with record := some record }⟩ :: rest

namespace LogScanner
variable (s : LogScanner)

def projectScanRows (rows : List ScanRecord) : Go (List ScanRecord) :=
  if s.projection.isEmpty then .ok rows else projectRows s.projection rows

def projectScanArrows (arrows : List ScanArrowBatch) : Go (List ScanArrowBatch) :=
  if s.projection.isEmpty then .ok arrows
  else do
    let fields ← s.schema.arrowSchema
    projectArrows fields s.projection arrows
/-- The table that fetched rows are evolved to; a server that projects sends the projected columns only. -/
def target : Table := if s.dynamic = false ∧ s.projection ≠ [] then { s.table with schema := s.schema } else s.table
/-- A backend that does not resolve schemas knows the schema of the table only. -/
def resolverFor (resolver : SchemaResolver) : SchemaResolver :=
  if s.dynamic then resolver else fixedSchemaResolver s.target.path s.target.schemaID s.target.schema
end LogScanner
/-- An error of one bucket, which the result lists, or an error that `Poll` returns. -/
inductive PollFailure where
  | bucket (error : GoError)
  | poll (error : GoError)
/-- The offset after a fetch whose server skipped filtered records. -/
def filteredNext (fetched : ScannerFetch) (offset next : Int) : Go Int :=
  match fetched.filteredEndOffset with
  | none => .ok next
  | some last =>
    if last.toInt < offset then
      failf .validation s!"filtered end offset {last.toInt} precedes fetch offset {offset}"
    else .ok (if next < last.toInt then last.toInt else next)
/-- `pollBucket` between the fetch and the bounds. -/
def LogScanner.decodeBucket (s : LogScanner) (reader : ArrowReader) (resolver : SchemaResolver) (bucket offset : Int)
    (fetched : ScannerFetch) : Outcome PollFailure FetchedLog :=
  match decodeFetchedFetchResponseWithResolver reader (s.resolverFor resolver) s.target bucket offset fetched.records
    s.compacted with
  | .err failure => .err (.bucket failure.error)
  | .panic cause => .panic cause
  | .ok log =>
    match filteredNext fetched offset log.next with
    | .err e => .err (.bucket e)
    | .panic cause => .panic cause
    | .ok next =>
      if s.dynamic = false then .ok { log with next := next }
      else
        match s.projectScanRows log.rows >>= fun rows => s.projectScanArrows log.arrows >>= fun arrows => .ok (rows, arrows) with
        | .ok (rows, arrows) => .ok ⟨next,rows,arrows⟩
        | .err e => .err (.poll e)
        | .panic cause => .panic cause
/-- One visit of a bucket, as it is recorded beside the result. -/
structure BucketScan where
  bucket : Int
  offset : Int
  /-- The delivered rows before the visit. -/
  scanned : Int
  decoded : FetchedLog
  take : BucketTake

structure PendingAdvance where
  bucket : Int
  previous : Int
  next : Int
  delivered : Int
/-- A `Poll` between two of its steps: the buckets to visit with their offsets, and what it has so far. -/
structure ActivePoll where
  queue : List (Int × Int)
  result : ScanResult := {}
  canceled : Option GoError := none
  pending : Option PendingAdvance := none
  scans : List BucketScan := []

structure PollReturn where
  outcome : Except GoError ScanResult
  scans : List BucketScan := []

structure PollState where
  scanner : ScannerState
  active : Option ActivePoll := none
  returned : List PollReturn := []

inductive PollEvent where
  | begin
  | visit (fetched : Except GoError ScannerFetch) (resolver : SchemaResolver)
  | advance
  | finish
  | wakeup
  | close
  | cancel (error : GoError)

def PollState.leave (σ : PollState) (outcome : Except GoError ScanResult) (scans : List BucketScan) : PollState :=
  { σ with active := none, returned := σ.returned ++ [⟨outcome,scans⟩] }

namespace LogScanner
variable (s : LogScanner)
/-- A bucket with its offset, unless the loop of `Poll` skips it. -/
def pollOffset (offsets : IDMap Int) (bucket : Int) : Option (Int × Int) :=
  match offsets.lookup bucket with
  | none => none
  | some offset =>
    match s.config.stop? bucket with
    | some stop => if stop ≤ offset then none else some (bucket, offset)
    | none => some (bucket, offset)

def pollable (offsets : IDMap Int) : List (Int × Int) := s.buckets.filterMap (s.pollOffset offsets)

def beginPoll (σ : PollState) : Option PollState :=
  if σ.active.isSome then none
  else if σ.scanner.closed then some (σ.leave (.error Sentinel.closed.error) [])
  else if σ.scanner.done then some (σ.leave (.ok { done := true }) [])
  else if σ.scanner.wakePending then
    some ({ σ with scanner := { σ.scanner with wakePending := false } }.leave (.error Sentinel.wakeup.error) [])
  else if σ.scanner.offset.keys.isEmpty then
    some (σ.leave (.error (errorf .invalidConfig "scanner has no subscriptions")) [])
  else some { σ with active := some { queue := s.pollable σ.scanner.offset } }
/-- The loop stops after a bucket when the scan is done. -/
def queueAfter (σ : ScannerState) (queue : List (Int × Int)) : List (Int × Int) := if σ.done then [] else queue
/-- The bucket's error is listed and the loop goes on. -/
def bucketFailed (σ : PollState) (a : ActivePoll) (bucket : Int) (queue : List (Int × Int)) (e : GoError) : PollState :=
  { σ with active := some { a with
      queue := queueAfter σ.scanner queue
      result := { a.result with bucketErrors := a.result.bucketErrors ++ [(bucket, e)] } } }

def recordFetchError (σ : PollState) (a : ActivePoll) (bucket : Int) (queue : List (Int × Int)) (e : GoError) : PollState :=
  match a.canceled with
  | some err => σ.leave (.error err) a.scans
  | none =>
    let σ' := { σ with scanner := { σ.scanner with wakePending := false } }
    if σ.scanner.closed then σ'.leave (.error Sentinel.closed.error) a.scans
    else if σ.scanner.wakePending then σ'.leave (.error Sentinel.wakeup.error) a.scans
    else bucketFailed σ' a bucket queue e
/-- The bucket's records join the result; its offset is stored in the next step. -/
def collect (σ : PollState) (a : ActivePoll) (bucket offset : Int) (queue : List (Int × Int)) (fetched : ScannerFetch)
    (log : FetchedLog) (t : BucketTake) : PollState :=
  { σ with active := some { a with
      queue := queue
      result := { a.result with
        records := a.result.records ++ t.rows
        arrowBatches := a.result.arrowBatches ++ t.arrows
        highWatermark := a.result.highWatermark.insert bucket fetched.highWatermark }
      pending := some ⟨bucket,offset,t.next,t.delivered⟩
      scans := a.scans ++ [⟨bucket,offset,σ.scanner.delivered,log,t⟩] } }
/-- `pollBucket` up to the store of the new offset. -/
def pollBucket (reader : ArrowReader) (σ : PollState) (fetched : Except GoError ScannerFetch) (resolver : SchemaResolver) :
    Option PollState :=
  match σ.active with
  | none => none
  | some a =>
    match a.pending, a.queue with
    | none, (bucket, offset) :: queue =>
      match fetched with
      | .error e => some (recordFetchError σ a bucket queue e)
      | .ok fetched =>
        match s.decodeBucket reader resolver bucket offset fetched with
        | .err (.bucket e) => some (bucketFailed σ a bucket queue e)
        | .err (.poll e) => some (σ.leave (.error e) a.scans)
        | .panic _ => none
        | .ok log =>
          match applyBounds s.config σ.scanner.delivered bucket log.rows log.arrows log.next with
          | .ok t => some (collect σ a bucket offset queue fetched log t)
          | _ => none
    | _, _ => none

def advanceOffset (σ : ScannerState) (p : PendingAdvance) : ScannerState :=
  ({ σ with
    offset := if σ.offset.lookup p.bucket = some p.previous then σ.offset.insert p.bucket p.next else σ.offset
    delivered := σ.delivered + p.delivered } : ScannerState).updateDone s.config

def advance (σ : PollState) : Option PollState :=
  match σ.active with
  | none => none
  | some a =>
    match a.pending with
    | none => none
    | some p =>
      let scanner := s.advanceOffset σ.scanner p
      some { σ with scanner := scanner, active := some { a with queue := queueAfter scanner a.queue, pending := none } }

def finish (σ : PollState) : Option PollState :=
  match σ.active with
  | none => none
  | some a =>
    match a.pending, a.queue with
    | none, [] => some (σ.leave (.ok { a.result with done := σ.scanner.done }) a.scans)
    | _, _ => none

def wakeup (σ : PollState) : PollState :=
  if σ.scanner.closed = false ∧ σ.scanner.done = false then
    { σ with scanner := { σ.scanner with wakePending := true } }
  else σ

def close (σ : PollState) : PollState := { σ with scanner := { σ.scanner with closed := true, offset := ∅ } }

def cancel (σ : PollState) (e : GoError) : Option PollState :=
  match σ.active with
  | none => none
  | some a => some { σ with active := some { a with canceled := a.canceled.or (some e) } }

def step (reader : ArrowReader) (σ : PollState) : PollEvent → Option PollState
  | .begin => s.beginPoll σ
  | .visit fetched resolver => s.pollBucket reader σ fetched resolver
  | .advance => s.advance σ
  | .finish => finish σ
  | .wakeup => some (wakeup σ)
  | .close => some (close σ)
  | .cancel e => cancel σ e
/-- The runs of a scanner from its state after creation. -/
def system (reader : ArrowReader) (created : ScannerState) : System PollState PollEvent where
  init σ := σ = { scanner := created }
  step σ e σ' := s.step reader σ e = some σ'
end LogScanner
end FlussGo
