import FlussGo.Lookup.Scheduler
/-!
# What a step of a lookuper does

One inversion lemma for the step function, and what every step does to tasks, slots and completions.
-/
namespace FlussGo
open Option
/-- The task that a call holds with its slot and has not queued. -/
def LookupPhase.held : LookupPhase → List Nat
  | .holding id _ _ => [id]
  | .sending id _ _ => [id]
  | .dropping id _ _ _ => [id]
  | _ => []

namespace LookupState
variable {c : Lookuper} {schemas : Int → Schema} {s s' : LookupState}

def Pending (s : LookupState) (id : Nat) : Prop := ∃ task, s.tasks[id]? = some task ∧ task.result = none
/-- The error that a call of the lookuper returns by itself. -/
def Refuses (s : LookupState) (ctx : Nat) (err : GoError) : Prop :=
  (err = Sentinel.closed.error ∧ s.closed = true) ∨ s.contextErr ctx = some err
/-- The steps of a call that concern no task without a result. -/
inductive CallMoves (c : Lookuper) (schemas : Int → Schema) (s : LookupState) (call : LookupCall) : LookupCall → Prop
  | refuse {err : GoError} (hphase : call.phase = .entering ∨ call.phase = .enteringContext)
      (herr : s.Refuses call.ctx err) : CallMoves c schemas s call (call.refuse err)
  | entered (hphase : call.phase = .entering) : CallMoves c schemas s call (call.goto .enteringContext)
  | begun (hphase : call.phase = .enteringContext) : CallMoves c schemas s call (call.goto (.encoding call.keys))
  | encoded {key : Row} {rest : List Row} {encoded : Bytes} {bucket : Int} (hphase : call.phase = .encoding (key :: rest))
      (hencode : c.encode call.mode key = .ok (encoded, bucket)) :
      CallMoves c schemas s call (call.goto (.checking ⟨key,encoded,bucket⟩ rest))
  | unencoded {key : Row} {rest : List Row} {err : GoError} (hphase : call.phase = .encoding (key :: rest))
      (hencode : c.encode call.mode key = .err err) :
      CallMoves c schemas s call (call.skip { key := key, err := some err } rest)
  | checked {key : LookupKey} {rest : List Row} (hphase : call.phase = .checking key rest) :
      CallMoves c schemas s call (call.goto (.checkingContext key rest))
  | chooses {key : LookupKey} {rest : List Row} (hphase : call.phase = .checkingContext key rest) :
      CallMoves c schemas s call (call.goto (.choosing key rest))
  | fail {key : LookupKey} {rest : List Row} {err : GoError} (hphase : call.phase = .checking key rest ∨
        call.phase = .checkingContext key rest ∨ call.phase = .choosing key rest) (herr : s.Refuses call.ctx err) :
      CallMoves c schemas s call (call.fail key rest err)
  | await (hphase : call.phase = .encoding []) : CallMoves c schemas s call (call.goto (.awaiting 0))
  | pass {index : Nat} (hphase : call.phase = .awaiting index) (htask : call.tasks[index]? = some none) :
      CallMoves c schemas s call (call.goto (.awaiting (index + 1)))
  | canceled {index id : Nat} {result : LookupResult} {err : GoError} (hphase : call.phase = .awaiting index)
      (htask : call.tasks[index]? = some (some id)) (hresult : call.results[index]? = some result)
      (herr : s.contextErr call.ctx = some err) :
      CallMoves c schemas s call (call.settle index { result with err := some err })
  | received {index id : Nat} {task : LookupTask} {raw : RawLookupResult} {result result' : LookupResult}
      (unresolved : Nat → Option GoError) (hphase : call.phase = .awaiting index)
      (htask : call.tasks[index]? = some (some id)) (hresult : call.results[index]? = some result)
      (hid : s.tasks[id]? = some task) (hraw : task.result = some raw)
      (hawait : awaitLookup call.mode (fun position => decodeLookupValueWithResolver
        (resolveSchema schemas (unresolved position)) c.table) raw result = .ok result') :
      CallMoves c schemas s call (call.settle index result')
  | returns {index : Nat} (hphase : call.phase = .awaiting index) (htask : call.tasks[index]? = none) :
      CallMoves c schemas s call (call.goto .returned)
/-- The steps of a worker that complete nothing. -/
inductive WorkerMoves (c : Lookuper) (s : LookupState) (i : Nat) (phase : WorkerPhase) : LookupState → Prop
  | take {batch : LookupBatch} {jobs : List LookupBatch} (hphase : phase = .idle) (hjobs : s.jobs = batch :: jobs) :
      WorkerMoves c s i phase ({ s with jobs := jobs }.setWorker i (.filtering batch.group batch.tasks []))
  | exit (hphase : phase = .idle) (hjobs : s.jobs = []) (hclosed : s.jobsClosed = true) :
      WorkerMoves c s i phase (s.setWorker i .exited)
  | keep {group : LookupGroup} {id : Nat} {todo active : List Nat} (hphase : phase = .filtering group (id :: todo) active) :
      WorkerMoves c s i phase (s.setWorker i (.filtering group todo (active ++ [id])))
  | none {group : LookupGroup} (hphase : phase = .filtering group [] []) : WorkerMoves c s i phase (s.setWorker i .idle)
  | attempt {group : LookupGroup} {active : List Nat} {number : Int}
      (hphase : (phase = .filtering group [] active ∧ active ≠ [] ∧ number = 1) ∨
        phase = .backoff group active (number - 1)) :
      WorkerMoves c s i phase (s.attempt c i group active number)
  | reply {group : LookupGroup} {active : List Nat} {number : Int} {reply : Except GoError LookupValues}
      (hphase : phase = .requesting group active number ∨ phase = .backoff group active number)
      (hmode : ∀ values, reply = .ok values → values.mode = group.mode) :
      WorkerMoves c s i phase (s.reply i ⟨group,active,reply⟩)
  | backoff {group : LookupGroup} {active : List Nat} {number : Int} (hphase : phase = .requesting group active number)
      (hnumber : number ≠ c.config.maxAttempts) : WorkerMoves c s i phase (s.setWorker i (.backoff group active number))
  | idle (hphase : phase = .completing []) : WorkerMoves c s i phase (s.setWorker i .idle)
/-- The tasks that a scheduler interrupted by `life.Done()` completes besides the grouped ones. -/
def interrupted (c : Lookuper) : SchedulerPhase → Option (List Nat)
  | .selecting => some []
  | .dispatching _ tasks _ => some (tasks.take (batchCount c tasks))
  | _ => none
/-- The calls of `complete`, with what the completing goroutine does besides. -/
inductive Completes (c : Lookuper) (s : LookupState) (id : Nat) (raw : RawLookupResult) : LookupState → Prop
  | call {i : Nat} {call : LookupCall} {key : LookupKey} {rest : List Row} {err : GoError} (hcall : s.calls[i]? = some call)
      (hphase : call.phase = .dropping id key rest err) (hraw : raw = { err := some err }) :
      Completes c s id raw { s with calls := s.calls.set i (call.fail key rest err) }
  | receive {queue : List Nat} {task : LookupTask} {err : GoError} (hscheduler : s.scheduler = .selecting)
      (hqueue : s.queue = id :: queue) (hid : s.tasks[id]? = some task) (herr : s.contextErr task.ctx = some err)
      (hraw : raw = { err := some err }) : Completes c s id raw { s with queue := queue }
  | stop {tasks : List Nat} {index : Nat} (hscheduler : s.scheduler = .stopping tasks) (hid : tasks[index]? = some id)
      (hraw : raw = { err := some Sentinel.closed.error }) :
      Completes c s id raw { s with scheduler := .stopping (tasks.eraseIdx index) }
  | drain {queue : List Nat} (hscheduler : s.scheduler = .draining) (hqueue : s.queue = id :: queue)
      (hraw : raw = { err := some Sentinel.closed.error }) : Completes c s id raw { s with queue := queue }
  | filter {i : Nat} {group : LookupGroup} {todo active : List Nat} {task : LookupTask} {err : GoError}
      (hworker : s.workers[i]? = some (.filtering group (id :: todo) active)) (hid : s.tasks[id]? = some task)
      (herr : s.contextErr task.ctx = some err) (hraw : raw = { err := some err }) :
      Completes c s id raw { s with workers := s.workers.set i (.filtering group todo active) }
  | worker {i : Nat} {results : List (Nat × RawLookupResult)}
      (hworker : s.workers[i]? = some (.completing ((id, raw) :: results))) :
      Completes c s id raw { s with workers := s.workers.set i (.completing results) }
/-- The steps of the scheduler that complete nothing. -/
inductive SchedulerMoves (c : Lookuper) (s : LookupState) : LookupState → Prop
  | gather {id : Nat} {queue : List Nat} {task : LookupTask} (hscheduler : s.scheduler = .selecting)
      (hqueue : s.queue = id :: queue) (hid : s.tasks[id]? = some task) :
      SchedulerMoves c s { s with
        queue := queue, groups := s.groups.insert task.group (s.grouped task.group ++ [id]), timerArmed := true }
  | fill {id : Nat} {queue : List Nat} {task : LookupTask} (hscheduler : s.scheduler = .selecting)
      (hqueue : s.queue = id :: queue) (hid : s.tasks[id]? = some task) :
      SchedulerMoves c s { s with
        queue := queue, groups := s.groups.insert task.group (s.grouped task.group ++ [id])
        scheduler := .dispatching task.group (s.grouped task.group ++ [id]) false }
  | timer (hscheduler : s.scheduler = .selecting) (harmed : s.timerArmed = true) :
      SchedulerMoves c s { s with timerArmed := false, scheduler := .ranging }
  | range {group : LookupGroup} (hscheduler : s.scheduler = .ranging) (hgroup : group ∈ s.groups) :
      SchedulerMoves c s (s.dispatchGroup group (s.grouped group) true)
  | rangeEnd (hscheduler : s.scheduler = .ranging) (hgroups : s.groups.entries = []) :
      SchedulerMoves c s { s with scheduler := .selecting }
  | dispatch {group : LookupGroup} {tasks : List Nat} {ranging : Bool}
      (hscheduler : s.scheduler = .dispatching group tasks ranging) :
      SchedulerMoves c s ((s.sendJob group (tasks.take (batchCount c tasks))).dispatchGroup group
        (tasks.drop (batchCount c tasks)) ranging)
  | interrupt {batchTasks : List Nat} (hclosed : s.closed = true) (hscheduler : interrupted c s.scheduler = some batchTasks) :
      SchedulerMoves c s (s.shutdown batchTasks)
  | stopped (hscheduler : s.scheduler = .stopping []) : SchedulerMoves c s { s with scheduler := .draining }
  | drained (hscheduler : s.scheduler = .draining) (hqueue : s.queue = []) :
      SchedulerMoves c s { s with jobsClosed := true, scheduler := .waiting }
  | finish (hscheduler : s.scheduler = .waiting) (hworkers : ∀ phase ∈ s.workers, phase = .exited) :
      SchedulerMoves c s { s with done := true, scheduler := .finished }

inductive Moves (c : Lookuper) (schemas : Int → Schema) (s : LookupState) : LookupEvent → LookupState → Prop
  | call (ctx : Nat) (mode : LookupMode) (keys : List Row) :
      Moves c schemas s (.call ctx mode keys) { s with calls := s.calls ++ [LookupCall.start c ctx mode keys] }
  | cancel {ctx : Nat} (err : GoError) (hctx : s.contextErr ctx = none) :
      Moves c schemas s (.cancel ctx err) { s with canceled := s.canceled ++ [(ctx, err)] }
  | close (hsending : ∀ call ∈ s.calls, call.phase.sends = false) : Moves c schemas s .close { s with closed := true }
  | closeReturns (hdone : s.done = true) : Moves c schemas s .closeReturns { s with closeReturned := true }
  | callMoves {e : LookupEvent} {i : Nat} {call call' : LookupCall} (hcall : s.calls[i]? = some call)
      (hmoves : CallMoves c schemas s call call') : Moves c schemas s e (s.setCall i call')
  | lock {e : LookupEvent} {i id : Nat} {call : LookupCall} {key : LookupKey} {rest : List Row} (hcall : s.calls[i]? = some call)
      (hphase : call.phase = .holding id key rest) (hclosed : s.closed = false) :
      Moves c schemas s e (s.setCall i (call.goto (.sending id key rest)))
  | drop {e : LookupEvent} {i id : Nat} {call : LookupCall} {key : LookupKey} {rest : List Row} {err : GoError}
      (hcall : s.calls[i]? = some call) (hphase : call.phase = .holding id key rest ∨ call.phase = .sending id key rest)
      (herr : s.Refuses call.ctx err) : Moves c schemas s e (s.setCall i (call.goto (.dropping id key rest err)))
  | takeSlot {e : LookupEvent} {i : Nat} {call : LookupCall} {key : LookupKey} {rest : List Row} (hcall : s.calls[i]? = some call)
      (hphase : call.phase = .choosing key rest) (hroom : s.slots < c.config.maxQueuedKeys) :
      Moves c schemas s e { s with
        slots := s.slots + 1
        tasks := s.tasks ++ [{ ctx := call.ctx, group := ⟨call.mode,key.bucket⟩, encoded := key.encoded }]
        calls := s.calls.set i (call.goto (.holding s.tasks.length key rest)) }
  | send {e : LookupEvent} {i id : Nat} {call : LookupCall} {key : LookupKey} {rest : List Row} (hcall : s.calls[i]? = some call)
      (hphase : call.phase = .sending id key rest) :
      Moves c schemas s e { s with queue := s.queue ++ [id], calls := s.calls.set i (call.queued id key rest) }
  | scheduler {e : LookupEvent} {s' : LookupState} (h : SchedulerMoves c s s') : Moves c schemas s e s'
  | worker {e : LookupEvent} {i : Nat} {phase : WorkerPhase} {s' : LookupState} (hworker : s.workers[i]? = some phase)
      (h : WorkerMoves c s i phase s') : Moves c schemas s e s'
  | complete {e : LookupEvent} {id : Nat} {raw : RawLookupResult} {s' : LookupState} (h : Completes c s id raw s') :
      Moves c schemas s e (s'.complete id raw)

section Complete
variable {id : Nat} {raw : RawLookupResult}

theorem setCall_complete (i : Nat) (call : LookupCall) :
    (s.complete id raw).setCall i call = { s with calls := s.calls.set i call }.complete id raw := by
  unfold complete setCall
  dsimp only
  split
  · split <;> rfl
  · rfl

theorem setWorker_complete (i : Nat) (phase : WorkerPhase) :
    (s.complete id raw).setWorker i phase = { s with workers := s.workers.set i phase }.complete id raw := by
  unfold complete setWorker
  dsimp only
  split
  · split <;> rfl
  · rfl

theorem scheduler_complete (scheduler : SchedulerPhase) :
    { s.complete id raw with scheduler := scheduler } = { s with scheduler := scheduler }.complete id raw := by
  unfold complete
  dsimp only
  split
  · split <;> rfl
  · rfl
end Complete

section Inversion
variable {i : Nat} {call : LookupCall} {e : LookupEvent}

private theorem advance_moves (hc : s.calls[i]? = some call) (h : s.advance c i call = some s') :
    Moves c schemas s e s' := by
  unfold advance at h
  split at h
  next hp =>
    cases h
    split
    next hcl => exact .callMoves hc (.refuse (.inl hp) (.inl ⟨rfl,hcl⟩))
    next => exact .callMoves hc (.entered hp)
  next hp =>
    split at h
    next err herr =>
      cases h
      exact .callMoves hc (.refuse (.inr hp) (.inr herr))
    next =>
      cases h
      exact .callMoves hc (.begun hp)
  next hp =>
    cases h
    exact .callMoves hc (.await hp)
  next key rest hp =>
    split at h
    next encoded bucket he =>
      cases h
      exact .callMoves hc (.encoded hp he)
    next err he =>
      cases h
      exact .callMoves hc (.unencoded hp he)
    next => simp at h
  next key rest hp =>
    cases h
    split
    next hcl => exact .callMoves hc (.fail (.inl hp) (.inl ⟨rfl,hcl⟩))
    next => exact .callMoves hc (.checked hp)
  next key rest hp =>
    split at h
    next err herr =>
      cases h
      exact .callMoves hc (.fail (.inr (.inl hp)) (.inr herr))
    next =>
      cases h
      exact .callMoves hc (.chooses hp)
  next id key rest hp =>
    cases h
    split
    next hcl => exact .drop hc (.inl hp) (.inl ⟨rfl,hcl⟩)
    next hcl => exact .lock hc hp (by simpa using hcl)
  next id key rest err hp =>
    cases h
    rw [setCall_complete]
    exact .complete (.call hc hp rfl)
  next index hp =>
    split at h
    next ht =>
      cases h
      exact .callMoves hc (.returns hp ht)
    next ht =>
      cases h
      exact .callMoves hc (.pass hp ht)
    next => simp at h
  next => simp at h

private theorem callCanceled_moves {err : GoError} (hc : s.calls[i]? = some call)
    (herr : s.contextErr call.ctx = some err) (h : s.callCanceled i call err = some s') : Moves c schemas s e s' := by
  unfold callCanceled at h
  split at h
  next key rest hp =>
    cases h
    exact .callMoves hc (.fail (.inr (.inr hp)) (.inr herr))
  next id key rest hp =>
    cases h
    exact .drop hc (.inr hp) (.inr herr)
  next index hp =>
    split at h
    next id result ht hr =>
      cases h
      exact .callMoves hc (.canceled hp ht hr herr)
    next => simp at h
  next => simp at h

private theorem receiveResult_moves {unresolved : Nat → Option GoError} (hc : s.calls[i]? = some call)
    (h : s.receiveResult c schemas i call unresolved = some s') : Moves c schemas s e s' := by
  unfold receiveResult at h
  split at h
  next index hp =>
    split at h
    next id result ht hr =>
      split at h
      next raw hraw =>
        obtain ⟨task,hid,hraw⟩ := bind_eq_some_iff.mp hraw
        dsimp only at h
        split at h
        next result' ha =>
          cases h
          exact .callMoves hc (.received unresolved hp ht hr hid hraw ha)
        next => simp at h
      next => simp at h
    next => simp at h
  next => simp at h

private theorem callStep_moves {e' : LookupCallEvent} (hc : s.calls[i]? = some call)
    (h : s.callStep c schemas i call e' = some s') : Moves c schemas s e s' := by
  unfold callStep at h
  split at h
  next => exact advance_moves hc h
  next =>
    unfold takeSlot at h
    split at h
    next hp =>
      obtain ⟨hr,h⟩ := ite_none_right_eq_some.mp h
      cases h
      exact .takeSlot hc hp hr
    next => simp at h
  next =>
    obtain ⟨err,herr,h⟩ := bind_eq_some_iff.mp h
    exact callCanceled_moves hc herr h
  next =>
    unfold callClosed at h
    split at h
    next hp =>
      obtain ⟨hcl,h⟩ := ite_none_right_eq_some.mp h
      cases h
      exact .callMoves hc (.fail (.inr (.inr hp)) (.inl ⟨rfl,hcl⟩))
    next => simp at h
  next =>
    unfold send at h
    split at h
    next hp =>
      obtain ⟨_,h⟩ := ite_none_right_eq_some.mp h
      cases h
      exact .send hc hp
    next => simp at h
  next => exact receiveResult_moves hc h

private theorem receive_moves (h : s.receive c = some s') : Moves c schemas s e s' := by
  unfold receive at h
  split at h
  next id queue hs hq =>
    split at h
    next => simp at h
    rename_i task hid
    split at h
    next err herr =>
      cases h
      exact .complete (.receive hs hq hid herr rfl)
    next =>
      dsimp only at h
      split at h
      next =>
        cases h
        have hne : (s.grouped task.group ++ [id]).isEmpty = false := by simp
        rw [dispatchGroup,hne]
        exact .scheduler (.fill hs hq hid)
      next =>
        cases h
        exact .scheduler (.gather hs hq hid)
  next => simp at h

private theorem interrupt_moves (h : s.interrupt c = some s') : Moves c schemas s e s' := by
  unfold interrupt at h
  obtain ⟨hc,h⟩ := ite_none_right_eq_some.mp h
  split at h
  next hs =>
    cases h
    exact .scheduler (.interrupt hc (by rw [hs]; rfl))
  next hs =>
    cases h
    exact .scheduler (.interrupt hc (by rw [hs]; rfl))
  next => simp at h

private theorem stop_moves {index : Nat} (h : s.stop index = some s') : Moves c schemas s e s' := by
  unfold stop at h
  split at h
  next hs =>
    cases h
    exact .scheduler (.stopped hs)
  next tasks _ hs =>
    split at h
    next id hid =>
      cases h
      rw [scheduler_complete]
      exact .complete (.stop hs hid rfl)
    next => simp at h
  next => simp at h

private theorem drain_moves (h : s.drain = some s') : Moves c schemas s e s' := by
  unfold drain at h
  split at h
  next id queue hs hq =>
    cases h
    exact .complete (.drain hs hq rfl)
  next hs hq =>
    cases h
    exact .scheduler (.drained hs hq)
  next => simp at h

private theorem filter_moves {group : LookupGroup} {todo active : List Nat}
    (hw : s.workers[i]? = some (.filtering group todo active)) (h : s.filter c i group todo active = some s') :
    Moves c schemas s e s' := by
  unfold filter at h
  split at h
  next id todo =>
    split at h
    next => simp at h
    rename_i task hid
    split at h
    next err herr =>
      cases h
      rw [setWorker_complete]
      exact .complete (.filter hw hid herr rfl)
    next =>
      cases h
      exact .worker hw (.keep rfl)
  next =>
    cases h
    split
    next he =>
      obtain rfl := List.isEmpty_iff.mp he
      exact .worker hw (.none rfl)
    next hne => exact .worker hw (.attempt (.inl ⟨rfl,by simpa using hne,rfl⟩))

private theorem answer_moves {group : LookupGroup} {active : List Nat} {number : Int} {answer : LookupAnswer}
    {expired : Bool} (hw : s.workers[i]? = some (.requesting group active number))
    (h : s.answer c i group active number answer expired = some s') : Moves c schemas s e s' := by
  unfold LookupState.answer at h
  split at h
  next values =>
    obtain ⟨hm,h⟩ := ite_none_right_eq_some.mp h
    cases h
    refine .worker hw (.reply (.inl rfl) ?_)
    intro values' hv
    obtain rfl := Except.ok.inj hv
    exact hm
  next err retryable =>
    dsimp only at h
    split at h
    next =>
      cases h
      exact .worker hw (.reply (.inl rfl) (by simp))
    next hr =>
      cases h
      refine .worker hw (.backoff rfl ?_)
      simp only [Bool.or_eq_true,beq_iff_eq,not_or] at hr
      exact hr.1.1.2

private theorem workerStep_moves {phase : WorkerPhase} {e' : WorkerEvent} (hw : s.workers[i]? = some phase)
    (h : s.workerStep c i phase e' = some s') : Moves c schemas s e s' := by
  unfold workerStep at h
  split at h
  next =>
    unfold take at h
    split at h
    next batch jobs hj =>
      cases h
      exact .worker hw (.take rfl hj)
    next hj =>
      obtain ⟨hc,h⟩ := ite_none_right_eq_some.mp h
      cases h
      exact .worker hw (.exit rfl hj hc)
  next => exact filter_moves hw h
  next => exact answer_moves hw h
  next group active number =>
    cases h
    exact .worker hw (.attempt (.inr (by rw [Int.add_sub_cancel])))
  next group active number =>
    obtain ⟨err,_,rfl⟩ := map_eq_some_iff.mp h
    exact .worker hw (.reply (.inr rfl) (by simp))
  next id raw results =>
    cases h
    rw [setWorker_complete]
    exact .complete (.worker hw)
  next =>
    cases h
    exact .worker hw (.idle rfl)
  next => simp at h

theorem step_moves (h : s.step c schemas e = some s') : Moves c schemas s e s' := by
  cases e with
  | call ctx mode keys =>
    cases h
    exact .call ctx mode keys
  | cancel ctx err =>
    simp only [step] at h
    split at h
    next => simp at h
    next hn =>
      cases h
      exact .cancel err (by simpa using hn)
  | close =>
    simp only [step,close] at h
    split at h
    next => simp at h
    rename_i hse
    cases h
    refine .close fun call hc => ?_
    rw [← Bool.not_eq_true]
    exact fun hsen => hse (List.any_eq_true.mpr ⟨call,hc,hsen⟩)
  | closeReturns =>
    simp only [step] at h
    obtain ⟨hd,h⟩ := ite_none_right_eq_some.mp h
    cases h
    rw [Bool.and_eq_true] at hd
    exact .closeReturns hd.2
  | inCall i e =>
    obtain ⟨call,hc,h⟩ := bind_eq_some_iff.mp h
    exact callStep_moves hc h
  | inWorker i e =>
    obtain ⟨phase,hwo,h⟩ := bind_eq_some_iff.mp h
    exact workerStep_moves hwo h
  | receive => exact receive_moves h
  | timer =>
    simp only [step,timer] at h
    split at h
    next hs =>
      obtain ⟨ha,h⟩ := ite_none_right_eq_some.mp h
      cases h
      exact .scheduler (.timer hs ha)
    next => simp at h
  | range group =>
    simp only [step,range] at h
    split at h
    next hs =>
      obtain ⟨hgr,h⟩ := ite_none_right_eq_some.mp h
      cases h
      exact .scheduler (.range hs hgr)
    next => simp at h
  | rangeEnd =>
    simp only [step,rangeEnd] at h
    split at h
    next hs =>
      obtain ⟨hg,h⟩ := ite_none_right_eq_some.mp h
      cases h
      exact .scheduler (.rangeEnd hs (List.isEmpty_iff.mp hg))
    next => simp at h
  | dispatch =>
    simp only [step,dispatch] at h
    split at h
    next hs =>
      obtain ⟨_,h⟩ := ite_none_right_eq_some.mp h
      cases h
      exact .scheduler (.dispatch hs)
    next => simp at h
  | interrupt => exact interrupt_moves h
  | stop index => exact stop_moves h
  | drain => exact drain_moves h
  | finish =>
    simp only [step,finish] at h
    split at h
    next hs =>
      obtain ⟨hw,h⟩ := ite_none_right_eq_some.mp h
      cases h
      exact .scheduler (.finish hs (by simpa using hw))
    next => simp at h
end Inversion
end LookupState
end FlussGo
