import FlussGo.Lookup.Moves
/-!
# Slots, completions and the life of a lookuper

The tasks without a result are those that hold a slot. After `Close` nothing is left in the queue, in the
groups, among the jobs or with a worker.
-/
namespace FlussGo
open List Bool Option
namespace LookupState
variable {c : Lookuper} {schemas : Int → Schema} {s s' : LookupState} {e : LookupEvent} {id : Nat} {raw : RawLookupResult}

section Complete
/-- A call of `complete` sends the result of a pending task, and does nothing otherwise. -/
theorem complete_cases (s : LookupState) (id : Nat) (raw : RawLookupResult) :
    (∃ task, s.tasks[id]? = some task ∧ task.result = none ∧ s.complete id raw = { s with
      tasks := s.tasks.set id { task with result := some raw }
      slots := s.slots - 1
      completions := s.completions ++ [(id, raw)] }) ∨
    (¬s.Pending id ∧ s.complete id raw = s) := by
  unfold complete Pending
  cases hid : s.tasks[id]? with
  | none => exact .inr ⟨by simp,rfl⟩
  | some task =>
    cases hr : task.result with
    | some raw' =>
      refine .inr ⟨?_,by simp [hr]⟩
      rintro ⟨task',ht,hn⟩
      cases ht
      simp [hr] at hn
    | none => exact .inl ⟨task,rfl,hr,by simp [hr]⟩

theorem complete_frame {P : LookupState → Prop} (h : P s)
    (hf : ∀ tasks slots completions, P { s with tasks := tasks, slots := slots, completions := completions }) :
    P (s.complete id raw) := by
  rcases complete_cases s id raw with ⟨task,_,_,heq⟩ | ⟨_,heq⟩
  · rw [heq]
    exact hf _ _ _
  · rw [heq]
    exact h
end Complete

section Tasks
/-- What a step does to tasks and slots. -/
inductive TasksStep (c : Lookuper) (s s' : LookupState) : Prop
  | same (htasks : s'.tasks = s.tasks) (hslots : s'.slots = s.slots) (hcompletions : s'.completions = s.completions)
  | taken (task : LookupTask) (hnone : task.result = none) (hroom : s.slots < c.config.maxQueuedKeys)
      (htasks : s'.tasks = s.tasks ++ [task]) (hslots : s'.slots = s.slots + 1)
      (hcompletions : s'.completions = s.completions)
  | completed {id : Nat} {task : LookupTask} {raw : RawLookupResult} (hid : s.tasks[id]? = some task)
      (hnone : task.result = none) (htasks : s'.tasks = s.tasks.set id { task with result := some raw })
      (hslots : s'.slots = s.slots - 1) (hcompletions : s'.completions = s.completions ++ [(id, raw)])

private theorem Completes.tasksStep {s₁ : LookupState} (h : Completes c s id raw s₁) :
    TasksStep c s (s₁.complete id raw) := by
  have hsa : s₁.tasks = s.tasks ∧ s₁.slots = s.slots ∧ s₁.completions = s.completions := by
    cases h <;> exact ⟨rfl,rfl,rfl⟩
  obtain ⟨ht,hs,hc⟩ := hsa
  rcases complete_cases s₁ id raw with ⟨task,hid,hn,heq⟩ | ⟨_,heq⟩
  · rw [heq]
    rw [ht] at hid
    exact .completed hid hn (by rw [ht]) (by rw [hs]) (by rw [hc])
  · rw [heq]
    exact .same ht hs hc

theorem SchedulerMoves.frame (h : SchedulerMoves c s s') : TasksStep c s s' ∧ s'.tasks = s.tasks ∧ s'.calls = s.calls := by
  cases h with
  | range | dispatch =>
    unfold dispatchGroup
    split <;> exact ⟨.same rfl rfl rfl,rfl,rfl⟩
  | _ => exact ⟨.same rfl rfl rfl,rfl,rfl⟩

theorem WorkerMoves.frame {i : Nat} {phase : WorkerPhase} (h : WorkerMoves c s i phase s') :
    TasksStep c s s' ∧ s'.tasks = s.tasks ∧ s'.calls = s.calls := by
  cases h with
  | attempt =>
    unfold LookupState.attempt
    split <;> exact ⟨.same rfl rfl rfl,rfl,rfl⟩
  | _ => exact ⟨.same rfl rfl rfl,rfl,rfl⟩

theorem Moves.tasksStep (h : Moves c schemas s e s') : TasksStep c s s' := by
  cases h with
  | takeSlot hc hp hr => exact .taken _ rfl hr rfl rfl rfl
  | complete h => exact h.tasksStep
  | scheduler h | worker _ h => exact h.frame.1
  | _ => exact .same rfl rfl rfl

theorem TasksStep.task (h : TasksStep c s s') {task : LookupTask} (hid : s.tasks[id]? = some task) :
    ∃ result, s'.tasks[id]? = some { task with result := result } ∧ ∀ raw, task.result = some raw → result = some raw := by
  cases h with
  | same ht => exact ⟨task.result,by rw [ht,hid],fun _ hraw => hraw⟩
  | taken _ _ _ ht =>
    exact ⟨task.result,ht ▸ getElem?_append_of hid _,fun _ hraw => hraw⟩
  | @completed id' task' raw hid' hn ht =>
    by_cases heq : id = id'
    · subst heq
      rw [hid] at hid'
      cases hid'
      refine ⟨some raw,?_,by simp [hn]⟩
      rw [ht,getElem?_set_self (lt_of_getElem? hid)]
    · exact ⟨task.result,by rw [ht,getElem?_set_ne (Ne.symm heq),hid],fun _ hraw => hraw⟩
/-- The tokens in the channel are those of the pending tasks, and every completion is a task's result. -/
structure TaskInv (c : Lookuper) (s : LookupState) : Prop where
  slots_eq : s.slots = s.tasks.countP (·.result.isNone)
  slots_le : s.slots ≤ c.config.maxQueuedKeys
  released : s.slots = s.tasks.length - s.completions.length
  nodup : (s.completions.map Prod.fst).Nodup
  completed : ∀ id raw, (id, raw) ∈ s.completions ↔ ∃ task, s.tasks[id]? = some task ∧ task.result = some raw

theorem TaskInv.step (h : TaskInv c s) (hst : TasksStep c s s') : TaskInv c s' := by
  cases hst with
  | same ht hs hc =>
    exact ⟨by rw [hs,ht,h.slots_eq],by rw [hs]; exact h.slots_le,
      by rw [hs,ht,hc,h.released],by rw [hc]; exact h.nodup,
      by rw [hc,ht]; exact h.completed⟩
  | taken task hn hr ht hs hc =>
    refine ⟨?_,by omega,?_,by rw [hc]; exact h.nodup,?_⟩
    · rw [hs,ht,countP_append,h.slots_eq]
      simp [hn]
    · have := h.released
      rw [hs,ht,hc,length_append,length_singleton]
      omega
    intro id raw
    rw [hc,ht,h.completed]
    constructor
    · rintro ⟨task',hid,hraw⟩
      exact ⟨task',getElem?_append_of hid _,hraw⟩
    · rintro ⟨task',hid,hraw⟩
      rcases of_getElem?_concat hid with hid | ⟨-,rfl⟩
      · exact ⟨task',hid,hraw⟩
      · simp [hn] at hraw
  | @completed id task raw hid hn ht hs hc =>
    have hlt := lt_of_getElem? hid
    have hco := countP_set_of_getElem? (p := fun task => task.result.isNone) hid { task with result := some raw }
    simp only [hn,isNone_none,isNone_some,if_true,Bool.false_eq_true,if_false] at hco
    refine ⟨?_,by have := h.slots_le; omega,?_,?_,?_⟩
    · rw [hs,ht,h.slots_eq]
      omega
    · have := h.released
      rw [hs,ht,hc,length_set,length_append,length_singleton]
      omega
    · rw [hc,map_append,nodup_append]
      refine ⟨h.nodup,by simp,?_⟩
      intro id' hid' id'' hid'' heq
      obtain ⟨⟨_,raw'⟩,hmem,rfl⟩ := mem_map.mp hid'
      obtain rfl : id'' = id := by simpa using hid''
      obtain ⟨task',ht',hraw'⟩ := (h.completed _ _).mp hmem
      dsimp only at heq
      rw [heq,hid] at ht'
      cases ht'
      simp [hn] at hraw'
    · intro id' raw'
      rw [hc,ht,mem_append,h.completed,mem_singleton,Prod.mk.injEq]
      by_cases heq : id' = id
      · subst heq
        rw [getElem?_set_self hlt,hid]
        constructor
        · rintro (⟨task',ht',hraw'⟩ | ⟨_,rfl⟩)
          · cases ht'
            simp [hn] at hraw'
          · exact ⟨_,rfl,rfl⟩
        · rintro ⟨task',ht',hraw'⟩
          cases ht'
          exact .inr ⟨rfl,(some.inj hraw').symm⟩
      · rw [getElem?_set_ne (Ne.symm heq)]
        simp [heq]
end Tasks

section Life
def stops : SchedulerPhase → Bool
  | .stopping _ => true
  | .draining => true
  | .waiting => true
  | .finished => true
  | _ => false

def drained : SchedulerPhase → Bool
  | .waiting => true
  | .finished => true
  | _ => false
/-- The order in which the parts of a lookuper stop. -/
structure LifeInv (c : Lookuper) (s : LookupState) : Prop where
  sending : s.closed = true → ∀ call ∈ s.calls, call.phase.sends = false
  stops : stops s.scheduler = true → s.closed = true
  jobsClosed : s.jobsClosed = drained s.scheduler
  queue : drained s.scheduler = true → s.queue = []
  exited : WorkerPhase.exited ∈ s.workers → s.jobsClosed = true ∧ s.jobs = []
  finished : s.scheduler = .finished → ∀ phase ∈ s.workers, phase = .exited
  done : s.done = true → s.scheduler = .finished
  returned : s.closeReturned = true → s.done = true
  workers : s.workers.length = c.config.maxInFlightRequests.toNat

theorem CallMoves.sends {call call' : LookupCall} (h : CallMoves c schemas s call call') :
    call'.phase.sends = false := by
  cases h <;> rfl

variable (h : LifeInv c s)
include h

private theorem LifeInv.setCall (i : Nat) (call : LookupCall)
    (hs : s.closed = true → call.phase.sends = false) : LifeInv c { s with calls := s.calls.set i call } := by
  exact { h with sending := fun hc => forall_mem_set (h.sending hc) (hs hc) }

private theorem LifeInv.setWorker {i : Nat} {phase : WorkerPhase}
    (hw : s.workers[i]? = some phase) (phase' : WorkerPhase) (hp : phase ≠ .exited) (hp' : phase' ≠ .exited) :
    LifeInv c { s with workers := s.workers.set i phase' } := by
  have hmem := mem_of_getElem? hw
  refine { h with exited := ?_, finished := ?_, workers := ?_ }
  · intro he
    rcases mem_or_eq_of_mem_set he with he | heq
    · exact h.exited he
    · exact absurd heq.symm hp'
  · exact fun hf => absurd (h.finished hf _ hmem) hp
  · rw [length_set]
    exact h.workers

private theorem LifeInv.completes {s₁ : LookupState} (hc : Completes c s id raw s₁) : LifeInv c s₁ := by
  cases hc with
  | call hca hp hraw => exact h.setCall _ _ fun _ => rfl
  | receive hs | drain hs =>
    refine { h with queue := ?_ }
    intro hd
    simp [hs,drained] at hd
  | stop hs hid hraw =>
    refine { h with stops := ?_, jobsClosed := ?_, queue := ?_, finished := ?_, done := ?_ }
    · exact fun _ => h.stops (by rw [hs]; rfl)
    · rw [h.jobsClosed,hs]
      rfl
    · exact fun hd => absurd hd false_ne_true
    · exact fun hf => absurd hf (by simp)
    · intro hdo
      simp [h.done hdo] at hs
  | filter hw | worker hw => exact h.setWorker hw _ (by simp) (by simp)

private theorem LifeInv.schedule {groups : AList fun _ : LookupGroup => List Nat} {timerArmed : Bool} {queue : List Nat}
    {scheduler : SchedulerPhase} (hb : LookupState.stops s.scheduler = false)
    (ha : LookupState.stops scheduler = false) :
    LifeInv c { s with groups := groups, timerArmed := timerArmed, queue := queue, scheduler := scheduler } := by
  have hd : ∀ {phase}, LookupState.stops phase = false → drained phase = false := by
    intro phase hp
    cases phase <;> simp_all [LookupState.stops,drained]
  refine { h with stops := ?_, jobsClosed := ?_, queue := ?_, finished := ?_, done := ?_ }
  · simp [ha]
  · rw [h.jobsClosed,hd hb,hd ha]
  · simp [hd ha]
  · intro hf
    subst hf
    simp [LookupState.stops] at ha
  · intro hdo
    rw [h.done hdo] at hb
    simp [LookupState.stops] at hb

private theorem LifeInv.dispatchGroup {group : LookupGroup} {tasks : List Nat} {ranging : Bool}
    (hb : LookupState.stops s.scheduler = false) : LifeInv c (s.dispatchGroup group tasks ranging) := by
  unfold LookupState.dispatchGroup
  split
  · cases ranging <;> exact h.schedule hb rfl
  · exact h.schedule hb rfl

private theorem LifeInv.sendJob {group : LookupGroup} {tasks : List Nat}
    (hd : drained s.scheduler = false) : LifeInv c (s.sendJob group tasks) := by
  refine { h with exited := ?_ }
  intro he
  have := (h.exited he).1
  rw [h.jobsClosed,hd] at this
  exact absurd this false_ne_true

private theorem LifeInv.schedulerMoves (hm : SchedulerMoves c s s') : LifeInv c s' := by
  cases hm with
  | gather hs hq hid => exact h.schedule (by rw [hs]; rfl) (by rw [hs]; rfl)
  | fill hs | timer hs | rangeEnd hs => exact h.schedule (by rw [hs]; rfl) rfl
  | range hs hgr => exact h.dispatchGroup (by rw [hs]; rfl)
  | dispatch hs =>
    refine LifeInv.dispatchGroup (h.sendJob ?_) ?_
    · rw [hs]
      rfl
    · show LookupState.stops s.scheduler = false
      rw [hs]
      rfl
  | interrupt hc hs =>
    have hd : s.scheduler ≠ .finished := by
      intro hf
      simp [hf,interrupted] at hs
    have hdr : drained s.scheduler = false := by
      cases hp : s.scheduler <;> simp_all [interrupted,drained]
    refine { h with stops := ?_, jobsClosed := ?_, queue := ?_, finished := ?_, done := ?_ }
    · exact fun _ => hc
    · rw [LookupState.shutdown,h.jobsClosed,hdr]
      rfl
    · exact fun hfa => absurd hfa false_ne_true
    · exact fun hf => absurd hf (by simp [LookupState.shutdown])
    · exact fun h' => absurd (h.done h') hd
  | stopped hs =>
    refine { h with stops := ?_, jobsClosed := ?_, queue := ?_, finished := ?_, done := ?_ }
    · exact fun _ => h.stops (by rw [hs]; rfl)
    · rw [h.jobsClosed,hs]
      rfl
    · exact fun hfa => absurd hfa false_ne_true
    · exact fun hf => absurd hf (by simp)
    · intro hd
      simp [h.done hd] at hs
  | drained hs hq =>
    refine { h with stops := ?_, jobsClosed := rfl, queue := fun _ => hq, exited := ?_, finished := ?_, done := ?_ }
    · exact fun _ => h.stops (by rw [hs]; rfl)
    · intro he
      exact ⟨rfl,(h.exited he).2⟩
    · exact fun hf => absurd hf (by simp)
    · intro hd
      simp [h.done hd] at hs
  | finish hs hw =>
    refine { h with
      stops := ?_, jobsClosed := ?_, queue := ?_, finished := fun _ => hw, done := fun _ => rfl
      returned := fun _ => rfl }
    · exact fun _ => h.stops (by rw [hs]; rfl)
    · rw [h.jobsClosed,hs]
      rfl
    · exact fun _ => h.queue (by rw [hs]; rfl)

private theorem LifeInv.workerMoves {i : Nat} {phase : WorkerPhase}
    (hw : s.workers[i]? = some phase) (hm : WorkerMoves c s i phase s') : LifeInv c s' := by
  cases hm with
  | @take batch jobs hp hj =>
    subst hp
    have ho : WorkerPhase.exited ∉ s.workers := by
      intro he
      simp [(h.exited he).2] at hj
    have hn := h.setWorker hw (.filtering batch.group batch.tasks []) (by simp) (by simp)
    refine { hn with exited := ?_ }
    intro he
    rcases mem_or_eq_of_mem_set he with he | heq
    · exact absurd he ho
    · exact absurd heq (by simp)
  | exit hp hj hc =>
    subst hp
    refine { h with exited := fun _ => ⟨hc,hj⟩, finished := ?_, workers := ?_ }
    · exact fun hf => absurd (h.finished hf _ (mem_of_getElem? hw)) (by simp)
    · rw [LookupState.setWorker,length_set]
      exact h.workers
  | keep hp | none hp | backoff hp | idle hp => exact h.setWorker hw _ (by simp [hp]) (by simp)
  | attempt hp =>
    have hne : phase ≠ .exited := by
      rcases hp with ⟨rfl,_⟩ | rfl <;> simp
    unfold LookupState.attempt
    split
    · exact { h.setWorker hw (.requesting _ _ _) hne (by simp) with }
    · exact { h.setWorker hw (.completing _) hne (by simp) with }
  | reply hp hmo =>
    have hne : phase ≠ .exited := by
      rcases hp with rfl | rfl <;> simp
    exact { h.setWorker hw (.completing _) hne (by simp) with }

theorem LifeInv.step (hm : Moves c schemas s e s') : LifeInv c s' := by
  cases hm with
  | call ctx mode keys =>
    refine { h with sending := ?_ }
    intro hcl call hc
    rcases mem_append.mp hc with hc | hc
    · exact h.sending hcl call hc
    obtain rfl := mem_singleton.mp hc
    unfold LookupCall.start
    split
    · rfl
    · split <;> rfl
  | cancel err hctx => exact { h with }
  | close hs => exact { h with sending := fun _ => hs, stops := fun _ => rfl }
  | closeReturns hd => exact { h with returned := fun _ => hd }
  | callMoves hc hm => exact h.setCall _ _ fun _ => hm.sends
  | lock hc hp hcl => exact h.setCall _ _ fun ht => absurd (hcl.symm.trans ht) false_ne_true
  | drop hc hp herr => exact h.setCall _ _ fun _ => rfl
  | takeSlot hc hp hr => exact { h.setCall _ (LookupCall.goto _ (.holding _ _ _)) fun _ => rfl with }
  | send hc hp =>
    have ho : s.closed = false := by
      rw [← not_eq_true]
      intro hcl
      have := h.sending hcl _ (mem_of_getElem? hc)
      simp [hp,LookupPhase.sends] at this
    refine { h.setCall _ (LookupCall.queued _ _ _ _) fun _ => rfl with queue := ?_ }
    intro hdr
    have := h.stops (by cases hsc : s.scheduler <;> simp_all [drained,LookupState.stops])
    exact absurd (ho.symm.trans this) false_ne_true
  | scheduler hm => exact h.schedulerMoves hm
  | worker hw hm => exact h.workerMoves hw hm
  | complete hco =>
    have hn := h.completes hco
    exact complete_frame hn fun _ _ _ => { hn with }
end Life
end LookupState
end FlussGo
