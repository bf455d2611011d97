import FlussGo.Lib.Keyed
import FlussGo.Scanner.BatchContent
import FlussGo.Scanner.Create
/-!
# Row limit and stopping offsets

`log_scanner_bounds.go`: rows and Arrow batches of one bucket are merged by offset and cut where the
row limit or the stopping offset is reached.
-/
namespace FlussGo
def wrap64 (n : Int) : Int := n.bmod (2 ^ 64)

theorem wrap64_eq {n : Int} (hlow : -9223372036854775808 ≤ n) (hh : n ≤ maxInt64) : wrap64 n = n := by
  unfold maxInt64 at hh
  exact Int.bmod_eq_of_le (by omega) (by omega)
/-- A `scanSegment` with the row or the batch that its index refers to. -/
inductive ScanSegment where
  | row (record : ScanRecord)
  | arrow (batch : ScanArrowBatch)

def ScanSegment.offset : ScanSegment → Int
  | .row r => r.record.offset.toInt
  | .arrow a => a.batch.baseOffset.toInt

def ScanSegment.entries : ScanSegment → List LogEntry
  | .row r => [r.record.entry]
  | .arrow a => a.batch.entries

structure BoundedScan where
  bucket : Int
  stop : Int
  remaining : Int
  delivered : Int := 0
  next : Int
  rows : List ScanRecord := []
  arrows : List ScanArrowBatch := []

def LogScannerConfig.stop? (config : LogScannerConfig) (bucket : Int) : Option Int :=
  config.stoppingOffsets.bind (·.lookup bucket)
/-- The rest of the row limit, and the offset that a bucket ends at. -/
def scanBounds (config : LogScannerConfig) (delivered bucket : Int) : Int × Int :=
  (if 0 < config.rowLimit then config.rowLimit - delivered else maxInt64, (config.stop? bucket).getD maxInt64)

def orderedScanSegments (rows : List ScanRecord) (arrows : List ScanArrowBatch) : List ScanSegment :=
  sortByKey ScanSegment.offset (rows.map .row ++ arrows.map .arrow)

def BoundedScan.appendRow (b : BoundedScan) (r : ScanRecord) : BoundedScan :=
  if b.remaining ≤ 0 ∨ b.stop ≤ r.record.offset.toInt then b
  else { b with
    rows := b.rows ++ [r]
    remaining := b.remaining - 1
    delivered := b.delivered + 1
    next := wrap64 (r.record.offset.toInt + 1) }
/-- The number of rows of an Arrow batch that the bounds allow. -/
def BoundedScan.allowed (b : BoundedScan) (offset count : Int) : Int :=
  let allowed := if wrap64 (b.stop - offset) < count then wrap64 (b.stop - offset) else count
  if b.remaining < allowed then b.remaining else allowed

def BoundedScan.appendArrow (b : BoundedScan) (a : ScanArrowBatch) : Go BoundedScan := do
  let count ← a.batch.numRows
  let offset := a.batch.baseOffset.toInt
  let allowed := b.allowed offset count
  if allowed ≤ 0 then return b
  else
    return { b with
      arrows := b.arrows ++ [if allowed = count then a else ⟨b.bucket,sliceArrowLogBatch a.batch 0 allowed.toNat⟩]
      remaining := b.remaining - allowed
      delivered := b.delivered + allowed
      next := wrap64 (offset + allowed) }

def BoundedScan.appendSegments (b : BoundedScan) : List ScanSegment → Go BoundedScan
  | [] => .ok b
  | .row r :: segments => (b.appendRow r).appendSegments segments
  | .arrow a :: segments => do
    let b ← b.appendArrow a
    b.appendSegments segments

def scanResultRows (rows : List ScanRecord) : List ScanArrowBatch → Go Int
  | [] => .ok rows.length
  | a :: arrows => do
    let count ← a.batch.numRows
    let delivered ← scanResultRows rows arrows
    return delivered + count
/-- What a bucket contributes to a poll: its records, their number and the offset to continue from. -/
structure BucketTake where
  rows : List ScanRecord
  arrows : List ScanArrowBatch
  delivered : Int
  next : Int

def applyBounds (config : LogScannerConfig) (scanned bucket : Int) (rows : List ScanRecord) (arrows : List ScanArrowBatch)
    (decodedNext : Int) : Go BucketTake :=
  if config.rowLimit = 0 ∧ config.stoppingOffsets.isNone then do
    let delivered ← scanResultRows rows arrows
    return ⟨rows,arrows,delivered,decodedNext⟩
  else do
    let (remaining, stop) := scanBounds config scanned bucket
    let bounded ← BoundedScan.appendSegments
      { bucket := bucket, stop := stop, remaining := remaining, next := decodedNext } (orderedScanSegments rows arrows)
    return ⟨bounded.rows,bounded.arrows,bounded.delivered,if stop < bounded.next then stop else bounded.next⟩
end FlussGo
