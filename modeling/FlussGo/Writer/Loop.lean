import FlussGo.Lib.Run
import FlussGo.Writer.Options
import Mathlib.Logic.Function.Basic
/-!
# The scheduler loop of the writers

`appendWriterLoop` and `upsertWriterLoop` share everything but the way an item is put into an open
batch. A `LoopState` is the state of either loop with the executing batches and the history.
-/
namespace FlussGo
open Function
structure WriteResult where
  bucket : Int := 0
  baseOffset : Int := 0
  offsetKnown : Bool := false
  records : Nat := 0
  /-- The bits of the float32 that a KV response carries. -/
  pressure : BitVec 32 := 0
  pressureKnown : Bool := false
  err : Option GoError := none
/-- `bucketBatch` and `kvPendingBatch`; the records are those of the items. -/
structure Batch (ι τ : Type) where
  items : List ι
  targets : τ
  bytes : Int

@[ext] structure Started (ι τ : Type) where
  bucket : Int
  batch : Batch ι τ
  sequence : BitVec 32
/-- What a goroutine reports: a `writerAttemptResult` and, of a KV batch, the pressure. -/
structure AttemptResult where
  offset : Int := 0
  offsetKnown : Bool := false
  pressure : BitVec 32 := 0
  pressureKnown : Bool := false
  err : Option GoError := none

def BatchConfig.batchFull {ι τ : Type} (config : BatchConfig) (batch : Batch ι τ) : Bool :=
  decide (config.maxBatchRecords ≤ batch.items.length) || decide (config.maxBatchBytes ≤ batch.bytes)

def BatchConfig.batchFullWith {ι τ : Type} (config : BatchConfig) (batch : Batch ι τ) (size : Int) : Bool :=
  decide (config.maxBatchRecords ≤ batch.items.length) || decide (config.maxBatchBytes < batch.bytes + size)

structure LoopConfig where
  buckets : List Int
  maxConcurrentRequests : Int
  nodup : buckets.Nodup
  pos : 1 ≤ maxConcurrentRequests

structure LoopState (ι τ : Type) where
  batches : Int → Option (Batch ι τ) := fun _ => none
  pending : Int → List (Batch ι τ) := fun _ => []
  active : Int → Bool := fun _ => false
  sequences : Int → BitVec 32 := fun _ => 0
  poisoned : Int → Option GoError := fun _ => none
  inFlight : Int := 0
  timerArmed : Bool := false
  /-- The goroutines that have not delivered their completion. -/
  executing : List (Started ι τ) := []
  assigned : Int → List ι := fun _ => []
  /-- The batches that `flushBucket` took from the open ones. -/
  formed : Int → List (Batch ι τ) := fun _ => []
  started : List (Started ι τ) := []
  completed : List (ι × WriteResult) := []
/-- `completeBatch` and `completeKVBatch`: the result of every item of a batch. -/
abbrev CompleteBatch (ι τ : Type) := Batch ι τ → Int → AttemptResult → List (ι × WriteResult)
/-- The loop of both; `next` is the offset after an item. -/
def completeItems {ι : Type} (report : ι → Int → WriteResult) (next : ι → Int → Int) : Int → List ι → List (ι × WriteResult)
  | _, [] => []
  | offset, x :: xs => (x, report x offset) :: completeItems report next (next x offset) xs

section Items
variable {ι : Type} {report : ι → Int → WriteResult} {next : ι → Int → Int} {offset : Int} {xs : List ι}

theorem completeItems_items : (completeItems report next offset xs).map Prod.fst = xs := by
  induction xs generalizing offset with
  | nil => rfl
  | cons x xs ih => simp [completeItems,ih]

theorem completeItems_err {err : Option GoError} {r : ι × WriteResult} (h : r ∈ completeItems report next offset xs)
    (hr : ∀ x offset, (report x offset).err = err) : r.2.err = err := by
  induction xs generalizing offset with
  | nil => cases h
  | cons x xs ih =>
    rcases List.mem_cons.mp h with rfl | h
    · exact hr x offset
    · exact ih h
end Items

namespace LoopState
variable {ι τ : Type}
/-- The body of `dispatch` for a bucket with a batch to start. -/
def start (s : LoopState ι τ) (bucket : Int) (batch : Batch ι τ) (rest : List (Batch ι τ)) : LoopState ι τ :=
  { s with
    pending := update s.pending bucket rest
    active := update s.active bucket true
    inFlight := s.inFlight + 1
    executing := s.executing ++ [⟨bucket,batch,s.sequences bucket⟩]
    started := s.started ++ [⟨bucket,batch,s.sequences bucket⟩] }

def dispatchPass (c : LoopConfig) : List Int → LoopState ι τ → LoopState ι τ × Bool
  | [], s => (s, false)
  | bucket :: buckets, s =>
    if s.active bucket then dispatchPass c buckets s
    else
      match s.pending bucket with
      | [] => dispatchPass c buckets s
      | batch :: rest =>
        let s := s.start bucket batch rest
        if s.inFlight = c.maxConcurrentRequests then (s, true) else ((dispatchPass c buckets s).1, true)
/-- Passes until one starts nothing; every other one makes a bucket active. -/
def dispatchLoop (c : LoopConfig) : Nat → LoopState ι τ → LoopState ι τ
  | 0, s => s
  | n + 1, s =>
    if s.inFlight < c.maxConcurrentRequests then
      match dispatchPass c c.buckets s with
      | (s, true) => dispatchLoop c n s
      | (s, false) => s
    else s

def dispatch (c : LoopConfig) (s : LoopState ι τ) : LoopState ι τ := dispatchLoop c (c.buckets.length + 1) s

def complete (s : LoopState ι τ) (results : List (ι × WriteResult)) : LoopState ι τ :=
  { s with completed := s.completed ++ results }

def poisonedError (bucket : Int) (e : GoError) : GoError := e.under .writerState s!"bucket {bucket}: "

def takeBatch (s : LoopState ι τ) (bucket : Int) (batch : Batch ι τ) : LoopState ι τ :=
  { s with
    batches := update s.batches bucket none
    formed := update s.formed bucket (s.formed bucket ++ [batch]) }

def enqueue (s : LoopState ι τ) (bucket : Int) (batch : Batch ι τ) : LoopState ι τ :=
  { s with pending := update s.pending bucket (s.pending bucket ++ [batch]) }

def flushBucket (c : LoopConfig) (completeBatch : CompleteBatch ι τ) (bucket : Int) (s : LoopState ι τ) :
    LoopState ι τ × Option GoError :=
  match s.batches bucket with
  | none => (s, none)
  | some batch =>
    if batch.items.isEmpty then (s, none)
    else
      match s.poisoned bucket with
      | some e =>
        let poisoned := poisonedError bucket e
        ((s.takeBatch bucket batch).complete (completeBatch batch bucket { err := some poisoned }), some poisoned)
      | none => (dispatch c ((s.takeBatch bucket batch).enqueue bucket batch), none)

def setTimer (s : LoopState ι τ) (armed : Bool) : LoopState ι τ := { s with timerArmed := armed }

def armTimer (s : LoopState ι τ) (config : BatchConfig) : LoopState ι τ :=
  s.setTimer (s.timerArmed || decide (0 < config.batchTimeout))

def flushBuckets (c : LoopConfig) (completeBatch : CompleteBatch ι τ) :
    List Int → LoopState ι τ → LoopState ι τ × List GoError
  | [], s => (s, [])
  | bucket :: buckets, s =>
    let (s, e) := flushBucket c completeBatch bucket s
    let (s, errors) := flushBuckets c completeBatch buckets s
    (s, e.toList ++ errors)
/-- `queueAll`, with the joined errors as a list. -/
def queueAll (c : LoopConfig) (completeBatch : CompleteBatch ι τ) (s : LoopState ι τ) : LoopState ι τ × List GoError :=
  flushBuckets c completeBatch c.buckets (s.setTimer false)

def endExecution (s : LoopState ι τ) (index : Nat) (bucket : Int) : LoopState ι τ :=
  { s with
    active := update s.active bucket false
    inFlight := s.inFlight - 1
    executing := s.executing.eraseIdx index }

def poison (s : LoopState ι τ) (bucket : Int) (cause : GoError) : LoopState ι τ :=
  { s with
    poisoned := update s.poisoned bucket (some cause)
    pending := update s.pending bucket [] }

def advanceSequence (s : LoopState ι τ) (bucket : Int) : LoopState ι τ :=
  { s with sequences := update s.sequences bucket (s.sequences bucket + 1) }

def handleCompletion (c : LoopConfig) (completeBatch : CompleteBatch ι τ) (index : Nat) (e : Started ι τ)
    (result : AttemptResult) (s : LoopState ι τ) : LoopState ι τ :=
  let ended := s.endExecution index e.bucket
  match result.err with
  | some cause =>
    let failed := completeBatch e.batch e.bucket { err := some cause }
    let dropped := (s.pending e.bucket).flatMap fun batch =>
      completeBatch batch e.bucket { err := some (poisonedError e.bucket cause) }
    dispatch c ((ended.poison e.bucket cause).complete (failed ++ dropped))
  | none => dispatch c ((ended.advanceSequence e.bucket).complete (completeBatch e.batch e.bucket result))
/-- Puts an empty batch into the map, as `batch` and `newBatch` do. -/
def openBatch (s : LoopState ι τ) (bucket : Int) (targets : τ) : LoopState ι τ :=
  { s with batches := update s.batches bucket (some ⟨[],targets,0⟩) }

def assign (s : LoopState ι τ) (bucket : Int) (batch : Batch ι τ) (x : ι) (size : Int) : LoopState ι τ :=
  { s with
    batches := update s.batches bucket (some { batch with items := batch.items ++ [x], bytes := batch.bytes + size })
    assigned := update s.assigned bucket (s.assigned bucket ++ [x]) }

def startedAt (s : LoopState ι τ) (bucket : Int) : List (Started ι τ) := s.started.filter (·.bucket = bucket)

def openItems (s : LoopState ι τ) (bucket : Int) : List ι := ((s.batches bucket).map (·.items)).getD []
/-- What `add` may depend on: everything that completions do not change. -/
structure View (ι τ : Type) where
  batches : Int → Option (Batch ι τ)
  timerArmed : Bool
  assigned : Int → List ι
  formed : Int → List (Batch ι τ)

def view (s : LoopState ι τ) : View ι τ := ⟨s.batches,s.timerArmed,s.assigned,s.formed⟩
/-- A state with a given view in which nothing was started. -/
def ofView (v : View ι τ) : LoopState ι τ :=
  { batches := v.batches, timerArmed := v.timerArmed, assigned := v.assigned, formed := v.formed }
end LoopState
/-- What `add` is made of: flushing, opening empty batches, the timer, and for every item of `xs` in
turn either its assignment to an open batch or its completion. -/
inductive Ops {ι τ : Type} (c : LoopConfig) (targets : ι → τ) (completeBatch : CompleteBatch ι τ) :
    LoopState ι τ → List ι → LoopState ι τ → Prop
  | refl (s : LoopState ι τ) : Ops c targets completeBatch s [] s
  | flush {s s' : LoopState ι τ} {xs : List ι} (bucket : Int) : Ops c targets completeBatch s xs s' →
      Ops c targets completeBatch s xs (s'.flushBucket c completeBatch bucket).1
  | openBatch {s s' : LoopState ι τ} {xs : List ι} (bucket : Int) (t : τ) : Ops c targets completeBatch s xs s' →
      s'.openItems bucket = [] → Ops c targets completeBatch s xs (s'.openBatch bucket t)
  | timer {s s' : LoopState ι τ} {xs : List ι} (armed : Bool) : Ops c targets completeBatch s xs s' →
      Ops c targets completeBatch s xs (s'.setTimer armed)
  | assign {s s' : LoopState ι τ} {xs : List ι} {bucket : Int} {batch : Batch ι τ} {x : ι} (size : Int) :
      Ops c targets completeBatch s xs s' → bucket ∈ c.buckets → s'.batches bucket = some batch →
      targets x = batch.targets → Ops c targets completeBatch s (xs ++ [x]) (s'.assign bucket batch x size)
  | reject {s s' : LoopState ι τ} {xs : List ι} {x : ι} (result : WriteResult) : Ops c targets completeBatch s xs s' →
      Ops c targets completeBatch s (xs ++ [x]) (s'.complete [(x, result)])
/-- A loop: its configuration, the results of a batch, and the handling of an item whose context is
alive. `add` may depend on the view only, and does nothing but `Ops`; it is `none` where the code panics. -/
structure WriterLoop (ι τ φ : Type) where
  config : LoopConfig
  targets : ι → τ
  completeBatch : CompleteBatch ι τ
  completeBatch_items : ∀ batch bucket result, (completeBatch batch bucket result).map Prod.fst = batch.items
  front : φ
  add : φ → LoopState ι τ → ι → Option (φ × LoopState ι τ)
  add_ops : ∀ {front s x front' s'}, add front s x = some (front', s') → Ops config targets completeBatch s [x] s'
  add_view : ∀ front s x, (add front s x).map (fun r => (r.1, r.2.view)) =
    (add front (.ofView s.view) x).map (fun r => (r.1, r.2.view))

inductive Drain where
  | flush
  | close
/-- Where `run` is: in its select, in the completion loop of `flushAll`, about to record the error of
a close command, or returned. -/
inductive Mode where
  | running
  | draining (kind : Drain) (errors : List GoError)
  | closing (errors : List GoError)
  | stopped (closeErr : List GoError)

structure WriterState (ι τ φ : Type) where
  front : φ
  loop : LoopState ι τ := {}
  mode : Mode := .running
  replies : List (List GoError) := []
/-- `canceled` is the error of an item's context when `add` reads it. -/
inductive LoopEvent (ι : Type) where
  | item (x : ι) (canceled : Option GoError)
  | flush
  | close
  | timer
  | completion (index : Nat) (result : AttemptResult)
  | finish

namespace WriterLoop
variable {ι τ φ : Type} (w : WriterLoop ι τ φ)

def settle (s : WriterState ι τ φ) : WriterState ι τ φ :=
  match s.mode with
  | .draining kind errors =>
    if 0 < s.loop.inFlight then s
    else
      match kind with
      | .flush => { s with mode := .running, replies := s.replies ++ [errors] }
      | .close => { s with mode := .closing errors }
  | _ => s

def flushAll (s : WriterState ι τ φ) (kind : Drain) : WriterState ι τ φ :=
  let (loop, errors) := s.loop.queueAll w.config w.completeBatch
  settle { s with loop := loop, mode := .draining kind errors }
/-- One event; `none` when the loop cannot take it. -/
def step (s : WriterState ι τ φ) : LoopEvent ι → Option (WriterState ι τ φ)
  | .item x canceled =>
    match s.mode, canceled with
    | .running, some e => some { s with loop := s.loop.complete [(x, { err := some e })] }
    | .running, none => (w.add s.front s.loop x).map fun (front, loop) => { s with front := front, loop := loop }
    | _, _ => none
  | .flush =>
    match s.mode with
    | .running => some (w.flushAll s .flush)
    | _ => none
  | .close =>
    match s.mode with
    | .running => some (w.flushAll s .close)
    | _ => none
  | .timer =>
    match s.mode, s.loop.timerArmed with
    | .running, true => some { s with loop := (s.loop.queueAll w.config w.completeBatch).1 }
    | _, _ => none
  | .completion index result =>
    match s.loop.executing[index]? with
    | none => none
    | some e =>
      let loop := s.loop.handleCompletion w.config w.completeBatch index e result
      match s.mode with
      | .running => some { s with loop := loop }
      | .draining kind errors => some (settle { s with loop := loop, mode := .draining kind (errors ++ result.err.toList) })
      | _ => none
  | .finish =>
    match s.mode with
    | .closing errors => some { s with mode := .stopped errors }
    | _ => none

def initial : WriterState ι τ φ := { front := w.front }

def system : System (WriterState ι τ φ) (LoopEvent ι) where
  init s := s = w.initial
  step s e s' := w.step s e = some s'
end WriterLoop
end FlussGo
