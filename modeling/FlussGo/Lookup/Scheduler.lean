import FlussGo.Lib.Update
import FlussGo.Lookup.Keys
import FlussGo.Schema.Evolution
/-!
# The lookup scheduler

`Lookup` and `PrefixLookup` with their waits, the goroutine that gathers queued tasks into groups, the
workers that send one request for a batch of tasks, and `Close`. Every select may take any of its ready cases
and every context may be canceled at any time. A task is named by the order in which slots were taken.
-/
namespace FlussGo
def errNotFound : GoError := newError "fgo: record not found"

inductive LookupMode where
  | pointLookup
  | prefixLookup
deriving DecidableEq

structure LookupGroup where
  mode : LookupMode
  bucket : Int
deriving DecidableEq

structure RawLookupResult where
  value : Option Bytes := none
  rows : List Bytes := []
  err : Option GoError := none
deriving DecidableEq

structure LookupTask where
  ctx : Nat
  group : LookupGroup
  encoded : Bytes
  /-- What the first call of `complete` sent. -/
  result : Option RawLookupResult := none
deriving DecidableEq

structure LookupBatch where
  group : LookupGroup
  tasks : List Nat
deriving DecidableEq
/-- `LookupResult`, and `PrefixLookupResult` with its `rows`. -/
structure LookupResult where
  key : Row
  row : Option Row := none
  rows : List Row := []
  found : Bool := false
  bucket : Int := 0
  err : Option GoError := none

structure LookupKey where
  key : Row
  encoded : Bytes
  bucket : Int
/-- Where a call is. `lookupContextError` reads `closed` before it asks the context; the keys that
follow are those of the loop over the input. -/
inductive LookupPhase where
  | entering
  | enteringContext
  | encoding (rest : List Row)
  | checking (key : LookupKey) (rest : List Row)
  | checkingContext (key : LookupKey) (rest : List Row)
  /-- In the select on the slots. -/
  | choosing (key : LookupKey) (rest : List Row)
  /-- With a slot and a task, before the read lock. -/
  | holding (id : Nat) (key : LookupKey) (rest : List Row)
  /-- In the select on the queue, under the read lock. -/
  | sending (id : Nat) (key : LookupKey) (rest : List Row)
  /-- Off the read lock, before it completes the task that it does not queue. -/
  | dropping (id : Nat) (key : LookupKey) (rest : List Row) (err : GoError)
  | awaiting (index : Nat)
  | returned

def LookupPhase.sends : LookupPhase → Bool
  | .sending _ _ _ => true
  | _ => false

structure LookupCall where
  ctx : Nat
  mode : LookupMode
  keys : List Row
  phase : LookupPhase
  tasks : List (Option Nat) := []
  results : List LookupResult := []

inductive SchedulerPhase where
  | selecting
  /-- In the loop over the groups after the timer has fired. -/
  | ranging
  /-- In the select of `dispatchGroup`, with the tasks not yet sent. -/
  | dispatching (group : LookupGroup) (tasks : List Nat) (ranging : Bool)
  /-- The tasks that `completeLookupTasks` has still to complete before the queue is drained. -/
  | stopping (tasks : List Nat)
  | draining
  | waiting
  | finished
deriving DecidableEq

inductive WorkerPhase where
  | idle
  | filtering (group : LookupGroup) (todo active : List Nat)
  | requesting (group : LookupGroup) (active : List Nat) (attempt : Int)
  | backoff (group : LookupGroup) (active : List Nat) (attempt : Int)
  | completing (results : List (Nat × RawLookupResult))
  | exited
deriving DecidableEq

structure LookupRequest where
  group : LookupGroup
  tasks : List Nat
  keys : List Bytes
deriving DecidableEq

inductive LookupValues where
  | points (values : List (Option Bytes))
  | lists (values : List (List Bytes))
deriving DecidableEq

structure LookupReply where
  group : LookupGroup
  tasks : List Nat
  reply : Except GoError LookupValues

inductive LookupAnswer where
  | values (values : LookupValues)
  /-- An error, and what `writerRetryable` says of it. -/
  | failed (err : GoError) (retryable : Bool)

structure LookupState where
  tasks : List LookupTask := []
  calls : List LookupCall := []
  canceled : List (Nat × GoError) := []
  /-- `closed`; the context `life` is canceled under the same lock. -/
  closed : Bool := false
  /-- The number of tokens in the channel `slots`. -/
  slots : Int := 0
  queue : List Nat := []
  jobs : List LookupBatch := []
  jobsClosed : Bool := false
  groups : AList (fun _ : LookupGroup => List Nat) := ∅
  /-- `timerC` is not nil. -/
  timerArmed : Bool := false
  scheduler : SchedulerPhase := .selecting
  workers : List WorkerPhase
  done : Bool := false
  /-- Some call of `Close` has returned. -/
  closeReturned : Bool := false
  /-- The calls of `complete` that sent a result and released the slot. -/
  completions : List (Nat × RawLookupResult) := []
  requests : List LookupRequest := []
  replies : List LookupReply := []

inductive LookupCallEvent where
  | advance
  | takeSlot
  | canceled
  | lifeDone
  | send
  /-- The result of a task is received, with the failures of the schema resolver for its values. -/
  | result (unresolved : Nat → Option GoError)

inductive WorkerEvent where
  | take
  | filter
  /-- The backend returns; `expired` says whether the deadline of the request has passed. -/
  | answer (answer : LookupAnswer) (expired : Bool)
  /-- `waitContext` returns nil, or the error of the request's context. -/
  | retry
  | giveUp (expired : Bool)
  | complete

inductive LookupEvent where
  | call (ctx : Nat) (mode : LookupMode) (keys : List Row)
  | cancel (ctx : Nat) (err : GoError)
  | close
  | closeReturns
  | inCall (i : Nat) (e : LookupCallEvent)
  | inWorker (i : Nat) (e : WorkerEvent)
  | receive
  | timer
  | range (group : LookupGroup)
  | rangeEnd
  | dispatch
  | interrupt
  | stop (index : Nat)
  | drain
  | finish

section Results
def decodeLookupValueWithResolver (resolve : Int → Except GoError Schema) (table : Table) (value : Bytes) : Go Row :=
  if value.length < 2 then failf .malformedRow "lookup value omits schema ID"
  else do
    let schemaID ← readInt16 value 0
    match resolve schemaID with
    | .error err => .err (err.wrap s!"fgo: resolve lookup schema {schemaID}: ")
    | .ok schema => do
      let row ← decodeCompactedRow schema (value.drop 2)
      evolveRow schema table.schema row
/-- The rows decoded before the first failure, and the failure. -/
def decodeLookupRows (decode : Nat → Bytes → Go Row) : Nat → List Bytes → Go (List Row × Option GoError)
  | _, [] => .ok ([], none)
  | index, value :: values =>
    match decode index value with
    | .ok row => do
      let (rows, err) ← decodeLookupRows decode (index + 1) values
      return (row :: rows, err)
    | .err err => .ok ([], some err)
    | .panic cause => .panic cause

def awaitPointLookup (decode : Nat → Bytes → Go Row) (raw : RawLookupResult) (result : LookupResult) :
    Go LookupResult :=
  match raw.err, raw.value with
  | some err, _ => .ok { result with err := some err }
  | none, none => .ok { result with err := some errNotFound }
  | none, some value =>
    match decode 0 value with
    | .ok row => .ok { result with row := some row, found := true }
    | .err err => .ok { result with err := some err }
    | .panic cause => .panic cause

def awaitPrefixLookup (decode : Nat → Bytes → Go Row) (raw : RawLookupResult) (result : LookupResult) :
    Go LookupResult :=
  match raw.err with
  | some err => .ok { result with err := some err }
  | none => do
    let (rows, err) ← decodeLookupRows decode 0 raw.rows
    return { result with rows := result.rows ++ rows, err := err }

def awaitLookup (mode : LookupMode) (decode : Nat → Bytes → Go Row) (raw : RawLookupResult) (result : LookupResult) :
    Go LookupResult :=
  match mode with
  | .pointLookup => awaitPointLookup decode raw result
  | .prefixLookup => awaitPrefixLookup decode raw result

def completeLookupBatch {α : Type} (mismatch : Nat → Nat → String) (raw : α → RawLookupResult) (tasks : List Nat)
    (reply : Except GoError (List α)) : List (Nat × RawLookupResult) :=
  match reply with
  | .error err => tasks.map fun id => (id, { err := some err })
  | .ok values =>
    if values.length ≠ tasks.length then
      tasks.map fun id => (id, { err := some (errorf .validation (mismatch values.length tasks.length)) })
    else tasks.zip (values.map raw)

def completePointLookupBatch : List Nat → Except GoError (List (Option Bytes)) → List (Nat × RawLookupResult) :=
  completeLookupBatch (fun values keys => s!"lookup returned {values} values for {keys} keys")
    fun value => { value := value }

def completePrefixLookupBatch : List Nat → Except GoError (List (List Bytes)) → List (Nat × RawLookupResult) :=
  completeLookupBatch (fun lists keys => s!"prefix lookup returned {lists} lists for {keys} keys")
    fun rows => { rows := rows }

def LookupValues.raw : LookupValues → List RawLookupResult
  | .points values => values.map fun value => { value := value }
  | .lists values => values.map fun rows => { rows := rows }

def LookupValues.mode : LookupValues → LookupMode
  | .points _ => .pointLookup
  | .lists _ => .prefixLookup

def LookupReply.results (r : LookupReply) : List (Nat × RawLookupResult) :=
  match r.reply with
  | .ok (.points values) => completePointLookupBatch r.tasks (.ok values)
  | .ok (.lists values) => completePrefixLookupBatch r.tasks (.ok values)
  | .error err =>
    match r.group.mode with
    | .pointLookup => completePointLookupBatch r.tasks (.error err)
    | .prefixLookup => completePrefixLookupBatch r.tasks (.error err)
end Results

def Lookuper.encode (c : Lookuper) (mode : LookupMode) (key : Row) : Go (Bytes × Int) :=
  match mode with
  | .pointLookup => c.encodePoint key
  | .prefixLookup => c.encodePrefix key

namespace LookupCall

def refuse (call : LookupCall) (err : GoError) : LookupCall :=
  { call with
    phase := .returned
    results := call.keys.map fun key => { key := key, err := some err } }

def start (c : Lookuper) (ctx : Nat) (mode : LookupMode) (keys : List Row) : LookupCall :=
  let call : LookupCall := { ctx := ctx, mode := mode, keys := keys, phase := .entering }
  if keys.isEmpty then { call with phase := .returned }
  else if mode = .prefixLookup ∧ c.config.insertIfNotExists = true then
    call.refuse (errorf .invalidConfig "insert-if-not-exists does not support prefix lookup")
  else call
/-- A key of the loop is done with, without or with a task. -/
def skip (call : LookupCall) (result : LookupResult) (rest : List Row) : LookupCall :=
  { call with phase := .encoding rest, tasks := call.tasks ++ [none], results := call.results ++ [result] }

def queued (call : LookupCall) (id : Nat) (key : LookupKey) (rest : List Row) : LookupCall :=
  { call with
    phase := .encoding rest
    tasks := call.tasks ++ [some id]
    results := call.results ++ [{ key := key.key, bucket := key.bucket }] }

def fail (call : LookupCall) (key : LookupKey) (rest : List Row) (err : GoError) : LookupCall :=
  call.skip { key := key.key, bucket := key.bucket, err := some err } rest

def goto (call : LookupCall) (phase : LookupPhase) : LookupCall := { call with phase := phase }

def settle (call : LookupCall) (index : Nat) (result : LookupResult) : LookupCall :=
  { call with phase := .awaiting (index + 1), results := call.results.set index result }
end LookupCall

namespace LookupState
def contextErr (s : LookupState) (ctx : Nat) : Option GoError := s.canceled.lookup ctx
/-- `task.complete`: `sync.Once` lets the first call through. -/
def complete (s : LookupState) (id : Nat) (result : RawLookupResult) : LookupState :=
  match s.tasks[id]? with
  | some task =>
    if task.result.isSome then s
    else
      { s with
        tasks := s.tasks.set id { task with result := some result }
        slots := s.slots - 1
        completions := s.completions ++ [(id, result)] }
  | none => s

def setCall (s : LookupState) (i : Nat) (call : LookupCall) : LookupState := { s with calls := s.calls.set i call }

def setWorker (s : LookupState) (i : Nat) (phase : WorkerPhase) : LookupState :=
  { s with workers := s.workers.set i phase }

section Calls
def advance (c : Lookuper) (s : LookupState) (i : Nat) (call : LookupCall) : Option LookupState :=
  match call.phase with
  | .entering => some (s.setCall i (if s.closed then call.refuse Sentinel.closed.error else call.goto .enteringContext))
  | .enteringContext =>
    match s.contextErr call.ctx with
    | some err => some (s.setCall i (call.refuse err))
    | none => some (s.setCall i (call.goto (.encoding call.keys)))
  | .encoding [] => some (s.setCall i (call.goto (.awaiting 0)))
  | .encoding (key :: rest) =>
    match c.encode call.mode key with
    | .ok (encoded, bucket) => some (s.setCall i (call.goto (.checking ⟨key,encoded,bucket⟩ rest)))
    | .err err => some (s.setCall i (call.skip { key := key, err := some err } rest))
    | .panic _ => none
  | .checking key rest =>
    some (s.setCall i
      (if s.closed then call.fail key rest Sentinel.closed.error else call.goto (.checkingContext key rest)))
  | .checkingContext key rest =>
    match s.contextErr call.ctx with
    | some err => some (s.setCall i (call.fail key rest err))
    | none => some (s.setCall i (call.goto (.choosing key rest)))
  | .holding id key rest =>
    some (s.setCall i
      (call.goto (if s.closed then .dropping id key rest Sentinel.closed.error else .sending id key rest)))
  | .dropping id key rest err => some ((s.complete id { err := some err }).setCall i (call.fail key rest err))
  | .awaiting index =>
    match call.tasks[index]? with
    | none => some (s.setCall i (call.goto .returned))
    | some none => some (s.setCall i (call.goto (.awaiting (index + 1))))
    | some (some _) => none
  | _ => none

def takeSlot (c : Lookuper) (s : LookupState) (i : Nat) (call : LookupCall) : Option LookupState :=
  match call.phase with
  | .choosing key rest =>
    if s.slots < c.config.maxQueuedKeys then
      let task : LookupTask := { ctx := call.ctx, group := ⟨call.mode,key.bucket⟩, encoded := key.encoded }
      let s' : LookupState := { s with slots := s.slots + 1, tasks := s.tasks ++ [task] }
      some (s'.setCall i (call.goto (.holding s.tasks.length key rest)))
    else none
  | _ => none

def callCanceled (s : LookupState) (i : Nat) (call : LookupCall) (err : GoError) : Option LookupState :=
  match call.phase with
  | .choosing key rest => some (s.setCall i (call.fail key rest err))
  | .sending id key rest => some (s.setCall i (call.goto (.dropping id key rest err)))
  | .awaiting index =>
    match call.tasks[index]?, call.results[index]? with
    | some (some _), some result => some (s.setCall i (call.settle index { result with err := some err }))
    | _, _ => none
  | _ => none

def callClosed (s : LookupState) (i : Nat) (call : LookupCall) : Option LookupState :=
  match call.phase with
  | .choosing key rest => if s.closed then some (s.setCall i (call.fail key rest Sentinel.closed.error)) else none
  | _ => none

def send (c : Lookuper) (s : LookupState) (i : Nat) (call : LookupCall) : Option LookupState :=
  match call.phase with
  | .sending id key rest =>
    if (s.queue.length : Int) < c.config.maxQueuedKeys then
      some ({ s with queue := s.queue ++ [id] }.setCall i (call.queued id key rest))
    else none
  | _ => none
/-- The schema with the ID, unless resolving it fails. -/
def resolveSchema (schemas : Int → Schema) (failure : Option GoError) (schemaID : Int) : Except GoError Schema :=
  match failure with
  | some err => .error err
  | none => .ok (schemas schemaID)

def receiveResult (c : Lookuper) (schemas : Int → Schema) (s : LookupState) (i : Nat) (call : LookupCall)
    (unresolved : Nat → Option GoError) : Option LookupState :=
  match call.phase with
  | .awaiting index =>
    match call.tasks[index]?, call.results[index]? with
    | some (some id), some result =>
      match s.tasks[id]?.bind (·.result) with
      | some raw =>
        let decode := fun position => decodeLookupValueWithResolver (resolveSchema schemas (unresolved position)) c.table
        match awaitLookup call.mode decode raw result with
        | .ok result => some (s.setCall i (call.settle index result))
        | _ => none
      | none => none
    | _, _ => none
  | _ => none
end Calls

section Scheduler
def grouped (s : LookupState) (group : LookupGroup) : List Nat := tableList s.groups group

def allGrouped (s : LookupState) : List Nat := tableElements s.groups
/-- `dispatchGroup` from the test of its loop on. -/
def dispatchGroup (s : LookupState) (group : LookupGroup) (tasks : List Nat) (ranging : Bool) : LookupState :=
  if tasks.isEmpty then
    { s with groups := s.groups.erase group, scheduler := if ranging then .ranging else .selecting }
  else { s with scheduler := .dispatching group tasks ranging }

def receive (c : Lookuper) (s : LookupState) : Option LookupState :=
  match s.scheduler, s.queue with
  | .selecting, id :: queue =>
    match s.tasks[id]? with
    | none => none
    | some task =>
      match s.contextErr task.ctx with
      | some err => some ({ s with queue := queue }.complete id { err := some err })
      | none =>
        let tasks := s.grouped task.group ++ [id]
        let s := { s with queue := queue, groups := s.groups.insert task.group tasks }
        if c.config.maxBatchKeys ≤ tasks.length ∨ c.config.batchTimeout = 0 then
          some (s.dispatchGroup task.group tasks false)
        else some { s with timerArmed := true }
  | _, _ => none

def timer (s : LookupState) : Option LookupState :=
  match s.scheduler with
  | .selecting => if s.timerArmed then some { s with timerArmed := false, scheduler := .ranging } else none
  | _ => none

def range (s : LookupState) (group : LookupGroup) : Option LookupState :=
  match s.scheduler with
  | .ranging => if group ∈ s.groups then some (s.dispatchGroup group (s.grouped group) true) else none
  | _ => none

def rangeEnd (s : LookupState) : Option LookupState :=
  match s.scheduler with
  | .ranging => if s.groups.entries.isEmpty then some { s with scheduler := .selecting } else none
  | _ => none

def batchCount (c : Lookuper) (tasks : List Nat) : Nat :=
  if (tasks.length : Int) < c.config.maxBatchKeys then tasks.length else c.config.maxBatchKeys.toNat

def sendJob (s : LookupState) (group : LookupGroup) (batchTasks : List Nat) : LookupState :=
  { s with jobs := s.jobs ++ [⟨group,batchTasks⟩] }

def dispatch (c : Lookuper) (s : LookupState) : Option LookupState :=
  match s.scheduler with
  | .dispatching group tasks ranging =>
    if (s.jobs.length : Int) < c.config.maxInFlightRequests then
      let count := batchCount c tasks
      some ((s.sendJob group (tasks.take count)).dispatchGroup group (tasks.drop count) ranging)
    else none
  | _ => none
/-- `shutdown` begins; the group that was being sent is still listed with all its tasks. -/
def shutdown (s : LookupState) (batchTasks : List Nat) : LookupState :=
  { s with timerArmed := false, scheduler := .stopping (batchTasks ++ s.allGrouped) }

def interrupt (c : Lookuper) (s : LookupState) : Option LookupState :=
  if s.closed then
    match s.scheduler with
    | .selecting => some (s.shutdown [])
    | .dispatching _ tasks _ => some (s.shutdown (tasks.take (batchCount c tasks)))
    | _ => none
  else none
/-- One of the tasks is completed, in any order. -/
def stop (s : LookupState) (index : Nat) : Option LookupState :=
  match s.scheduler with
  | .stopping [] => some { s with scheduler := .draining }
  | .stopping tasks =>
    match tasks[index]? with
    | some id =>
      some { s.complete id { err := some Sentinel.closed.error } with scheduler := .stopping (tasks.eraseIdx index) }
    | none => none
  | _ => none

def drain (s : LookupState) : Option LookupState :=
  match s.scheduler, s.queue with
  | .draining, id :: queue => some ({ s with queue := queue }.complete id { err := some Sentinel.closed.error })
  | .draining, [] => some { s with jobsClosed := true, scheduler := .waiting }
  | _, _ => none

def finish (s : LookupState) : Option LookupState :=
  match s.scheduler with
  | .waiting => if s.workers.all (· == .exited) then some { s with done := true, scheduler := .finished } else none
  | _ => none
end Scheduler

section Workers
def take (s : LookupState) (i : Nat) : Option LookupState :=
  match s.jobs with
  | batch :: jobs => some ({ s with jobs := jobs }.setWorker i (.filtering batch.group batch.tasks []))
  | [] => if s.jobsClosed then some (s.setWorker i .exited) else none
/-- `retryLookup` returns, and the worker begins to complete the tasks. -/
def reply (s : LookupState) (i : Nat) (r : LookupReply) : LookupState :=
  { s with replies := s.replies ++ [r] }.setWorker i (.completing r.results)

def encodedLookupTasks (s : LookupState) (tasks : List Nat) : List Bytes :=
  tasks.map fun id => (s.tasks[id]?.map (·.encoded)).getD []

def attempt (c : Lookuper) (s : LookupState) (i : Nat) (group : LookupGroup) (active : List Nat) (number : Int) :
    LookupState :=
  if number ≤ c.config.maxAttempts then
    let request : LookupRequest := ⟨group,active,s.encodedLookupTasks active⟩
    { s with requests := s.requests ++ [request] }.setWorker i (.requesting group active number)
  else s.reply i ⟨group,active,.error (errorf .validation "unreachable lookup retry loop")⟩

def filter (c : Lookuper) (s : LookupState) (i : Nat) (group : LookupGroup) (todo active : List Nat) :
    Option LookupState :=
  match todo with
  | id :: todo =>
    match s.tasks[id]? with
    | none => none
    | some task =>
      match s.contextErr task.ctx with
      | some err => some ((s.complete id { err := some err }).setWorker i (.filtering group todo active))
      | none => some (s.setWorker i (.filtering group todo (active ++ [id])))
  | [] => some (if active.isEmpty then s.setWorker i .idle else s.attempt c i group active 1)
/-- The error of the request's context, which ends with its deadline or with `life`. -/
def requestErr (s : LookupState) (expired : Bool) : Option GoError :=
  if expired then some (newError "context deadline exceeded")
  else if s.closed then some Sentinel.canceled.error else none

def answer (c : Lookuper) (s : LookupState) (i : Nat) (group : LookupGroup) (active : List Nat) (number : Int)
    (answer : LookupAnswer) (expired : Bool) : Option LookupState :=
  match answer with
  | .values values => if values.mode = group.mode then some (s.reply i ⟨group,active,.ok values⟩) else none
  | .failed err retryable =>
    let mutation := group.mode == .pointLookup && c.config.insertIfNotExists
    if mutation || number == c.config.maxAttempts || !retryable || (s.requestErr expired).isSome then
      some (s.reply i ⟨group,active,.error err⟩)
    else some (s.setWorker i (.backoff group active number))
end Workers

section Steps
variable (c : Lookuper) (schemas : Int → Schema) (s : LookupState)

def workerStep (i : Nat) (phase : WorkerPhase) (e : WorkerEvent) : Option LookupState :=
  match e, phase with
  | .take, .idle => s.take i
  | .filter, .filtering group todo active => s.filter c i group todo active
  | .answer answer expired, .requesting group active number => s.answer c i group active number answer expired
  | .retry, .backoff group active number => some (s.attempt c i group active (number + 1))
  | .giveUp expired, .backoff group active _ =>
    (s.requestErr expired).map fun err => s.reply i ⟨group,active,.error err⟩
  | .complete, .completing ((id, result) :: results) => some ((s.complete id result).setWorker i (.completing results))
  | .complete, .completing [] => some (s.setWorker i .idle)
  | _, _ => none

def callStep (i : Nat) (call : LookupCall) (e : LookupCallEvent) : Option LookupState :=
  match e with
  | .advance => s.advance c i call
  | .takeSlot => s.takeSlot c i call
  | .canceled => (s.contextErr call.ctx).bind fun err => s.callCanceled i call err
  | .lifeDone => s.callClosed i call
  | .send => s.send c i call
  | .result unresolved => s.receiveResult c schemas i call unresolved
/-- `Close` up to its wait: the write lock excludes the calls under the read lock. -/
def close : Option LookupState := if s.calls.any (·.phase.sends) then none else some { s with closed := true }

def step (e : LookupEvent) : Option LookupState :=
  match e with
  | .call ctx mode keys => some { s with calls := s.calls ++ [LookupCall.start c ctx mode keys] }
  | .cancel ctx err =>
    if (s.contextErr ctx).isSome then none else some { s with canceled := s.canceled ++ [(ctx, err)] }
  | .close => s.close
  | .closeReturns => if s.closed && s.done then some { s with closeReturned := true } else none
  | .inCall i e => s.calls[i]?.bind fun call => s.callStep c schemas i call e
  | .inWorker i e => s.workers[i]?.bind fun phase => s.workerStep c i phase e
  | .receive => s.receive c
  | .timer => s.timer
  | .range group => s.range group
  | .rangeEnd => s.rangeEnd
  | .dispatch => s.dispatch c
  | .interrupt => s.interrupt c
  | .stop index => s.stop index
  | .drain => s.drain
  | .finish => s.finish
end Steps
end LookupState
/-- All interleavings of the calls, the scheduler, the workers and `Close` of one lookuper. -/
def Lookuper.system (c : Lookuper) (schemas : Int → Schema) : System LookupState LookupEvent where
  init s := s = { workers := List.replicate c.config.maxInFlightRequests.toNat .idle }
  step s e s' := s.step c schemas e = some s'
end FlussGo
