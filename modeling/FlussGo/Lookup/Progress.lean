import FlussGo.Lookup.Places
/-!
# Every lookup task is completed

Calls, scheduler and workers lower a weight with every step they take, and one of them can take a step
as long as a task is pending.
-/
namespace FlussGo
open List LookupState Nat
/-- A step of the lookuper itself, not one that its users or their contexts take. -/
def LookupEvent.inner : LookupEvent → Bool
  | .call _ _ _ => false
  | .cancel _ _ => false
  | .close => false
  | .closeReturns => false
  | _ => true

namespace LookupState
variable {c : Lookuper} {schemas : Int → Schema} {s s' : LookupState} {e : LookupEvent} {id : Nat}
  {raw : RawLookupResult}

section Timer
/-- While tasks are grouped the timer is armed, except for those that are being sent. -/
structure TimerInv (s : LookupState) : Prop where
  selecting : s.scheduler = .selecting → s.groups.entries ≠ [] → s.timerArmed = true
  filling : ∀ group tasks, s.scheduler = .dispatching group tasks false → (s.groups.erase group).entries ≠ [] →
    s.timerArmed = true

private theorem erase_insert_entries {group : LookupGroup} {tasks : List Nat}
    (h : ((s.groups.insert group tasks).erase group).entries ≠ []) : s.groups.entries ≠ [] := by
  obtain ⟨⟨group',tasks'⟩,hmem⟩ := exists_mem_of_ne_nil _ h
  have hg' : group' ∈ (s.groups.insert group tasks).erase group :=
    AList.mem_keys.mpr (mem_keys.mpr ⟨tasks',hmem⟩)
  obtain ⟨hne,hg'⟩ := AList.mem_erase.mp hg'
  have hold := ((AList.mem_insert _).mp hg').resolve_left hne
  obtain ⟨tasks'',hmem'⟩ := mem_keys.mp (AList.mem_keys.mp hold)
  exact ne_nil_of_mem hmem'

private theorem TimerInv.dispatchGroup {group : LookupGroup} {tasks : List Nat} {ranging : Bool}
    (h : ranging = false → (s.groups.erase group).entries ≠ [] → s.timerArmed = true) :
    TimerInv (s.dispatchGroup group tasks ranging) := by
  unfold LookupState.dispatchGroup
  split
  · cases ranging with
    | false => exact ⟨fun _ => h rfl,by simp⟩
    | true => exact ⟨by simp,by simp⟩
  · refine ⟨by simp,?_⟩
    intro group' tasks' hs
    cases hs
    exact h rfl

theorem TimerInv.step (h : TimerInv s) (hm : Moves c schemas s e s') : TimerInv s' := by
  cases hm with
  | scheduler hm =>
    cases hm with
    | gather hs hq hid => exact ⟨fun _ _ => rfl,fun _ _ _ _ => rfl⟩
    | fill hs hq hid =>
      refine ⟨by simp,?_⟩
      intro group tasks hd hne
      cases hd
      exact h.selecting hs (erase_insert_entries hne)
    | timer | stopped | drained | finish => exact ⟨by simp,by simp⟩
    | range hs hgr => exact TimerInv.dispatchGroup (by simp)
    | rangeEnd hs hg => exact ⟨fun _ hne => absurd hg hne,by simp⟩
    | dispatch hs =>
      apply TimerInv.dispatchGroup
      intro hr
      subst hr
      exact h.filling _ _ hs
    | interrupt hcl hs => exact ⟨by simp [shutdown],by simp [shutdown]⟩
  | worker hwo hm =>
    cases hm with
    | attempt hp =>
      unfold attempt
      split <;> exact { h with }
    | _ => exact { h with }
  | @complete _ id raw s₁ hc =>
    have hn : TimerInv s₁ := by
      cases hc with
      | stop hs hid hraw => exact ⟨by simp,by simp⟩
      | _ => exact { h with }
    exact complete_frame hn fun _ _ _ => { hn with }
  | _ => exact { h with }
end Timer

section Weight
variable {i : Nat}
/-- The attempts that a worker may still make. -/
def attemptsLeft (c : Lookuper) (number : Int) : Nat := (c.config.maxAttempts - number).toNat

def workerWeight (c : Lookuper) : WorkerPhase → Nat
  | .idle => 1
  | .filtering _ todo active => 2 * todo.length + active.length + 5 + 2 * attemptsLeft c 0
  | .requesting _ active number => active.length + 4 + 2 * attemptsLeft c number
  | .backoff _ active number => active.length + 3 + 2 * attemptsLeft c number
  | .completing results => results.length + 2
  | .exited => 0

def batchWeight (c : Lookuper) (batch : LookupBatch) : Nat := 2 * batch.tasks.length + 5 + 2 * attemptsLeft c 0
/-- A grouped task pays for the batch that it may be alone in. -/
def groupedWeight (c : Lookuper) : Nat := 9 + 2 * attemptsLeft c 0

def schedulerWeight (c : Lookuper) (s : LookupState) : Nat :=
  match s.scheduler with
  | .selecting => (groupedWeight c + 2) * s.allGrouped.length + 10
  | .ranging => (groupedWeight c + 2) * s.allGrouped.length + 11
  | .dispatching group tasks _ =>
    groupedWeight c * (tasks.length + (tableElements (s.groups.erase group)).length) + 2 * s.allGrouped.length + 10
  | .stopping tasks => tasks.length + 4
  | .draining => 3
  | .waiting => 2
  | .finished => 1

def timerWeight (s : LookupState) : Nat := if s.timerArmed then 2 else 0

def queuedWeight (c : Lookuper) : Nat := groupedWeight c + 5

def keyWeight (c : Lookuper) : Nat := queuedWeight c + 9

def callWeight (c : Lookuper) (call : LookupCall) : Nat :=
  match call.phase with
  | .entering => keyWeight c * call.keys.length + call.tasks.length + 5
  | .enteringContext => keyWeight c * call.keys.length + call.tasks.length + 4
  | .encoding rest => keyWeight c * rest.length + call.tasks.length + 3
  | .checking _ rest => keyWeight c * rest.length + call.tasks.length + queuedWeight c + 10
  | .checkingContext _ rest => keyWeight c * rest.length + call.tasks.length + queuedWeight c + 9
  | .choosing _ rest => keyWeight c * rest.length + call.tasks.length + queuedWeight c + 8
  | .holding _ _ rest => keyWeight c * rest.length + call.tasks.length + queuedWeight c + 7
  | .sending _ _ rest => keyWeight c * rest.length + call.tasks.length + queuedWeight c + 6
  | .dropping _ _ rest _ => keyWeight c * rest.length + call.tasks.length + 5
  | .awaiting index => call.tasks.length - index + 2
  | .returned => 0

def weight (c : Lookuper) (s : LookupState) : Nat :=
  (s.calls.map (callWeight c)).sum + queuedWeight c * s.queue.length + schedulerWeight c s + s.timerWeight +
    (s.jobs.map (batchWeight c)).sum + (s.workers.map (workerWeight c)).sum

theorem weight_complete : (s.complete id raw).weight c = s.weight c := by
  rcases complete_cases s id raw with ⟨task,_,_,heq⟩ | ⟨_,heq⟩
  · rw [heq]
    rfl
  · rw [heq]

private theorem weight_setCall {call call' : LookupCall} (hc : s.calls[i]? = some call)
    (h : callWeight c call' < callWeight c call) : (s.setCall i call').weight c < s.weight c := by
  have hsum := sum_map_set (w := callWeight c) hc call'
  have hnew : (s.setCall i call').weight c = ((s.calls.set i call').map (callWeight c)).sum +
    queuedWeight c * s.queue.length + schedulerWeight c s + s.timerWeight + (s.jobs.map (batchWeight c)).sum +
    (s.workers.map (workerWeight c)).sum := rfl
  rw [hnew,weight]
  omega

private theorem weight_setWorker {phase phase' : WorkerPhase} (hw : s.workers[i]? = some phase)
    (h : workerWeight c phase' < workerWeight c phase) :
    { s with workers := s.workers.set i phase' }.weight c < s.weight c := by
  have hsum := sum_map_set (w := workerWeight c) hw phase'
  have hnew : { s with workers := s.workers.set i phase' }.weight c = (s.calls.map (callWeight c)).sum +
    queuedWeight c * s.queue.length + schedulerWeight c s + s.timerWeight + (s.jobs.map (batchWeight c)).sum +
    ((s.workers.set i phase').map (workerWeight c)).sum := rfl
  rw [hnew,weight]
  omega

private theorem callMoves_weight {call call' : LookupCall} (h : CallMoves c schemas s call call') :
    callWeight c call' < callWeight c call := by
  have hkey : keyWeight c = queuedWeight c + 9 := rfl
  cases h with
  | refuse hp _ => rcases hp with h | h <;> simp only [callWeight,h,LookupCall.refuse] <;> omega
  | entered h | begun h | checked h | chooses h | returns h => simp only [callWeight,h,LookupCall.goto]; omega
  | encoded h _ => simp only [callWeight,h,LookupCall.goto,length_cons,mul_succ]; omega
  | unencoded h _ =>
    simp only [callWeight,h,LookupCall.skip,length_cons,mul_succ,length_append,length_nil]
    omega
  | fail hp _ =>
    rcases hp with h | h | h <;>
      simp only [callWeight,h,LookupCall.fail,LookupCall.skip,length_append,length_cons,length_nil] <;>
      omega
  | await h => simp only [callWeight,h,LookupCall.goto,length_nil,mul_zero]; omega
  | pass h ht =>
    have := lt_of_getElem? ht
    simp only [callWeight,h,LookupCall.goto]
    omega
  | canceled h ht | received _ h ht =>
    have := lt_of_getElem? ht
    simp only [callWeight,h,LookupCall.settle]
    omega

private theorem length_completeLookupBatch {α : Type} {mismatch : Nat → Nat → String} {raw : α → RawLookupResult}
    {tasks : List Nat} {reply : Except GoError (List α)} :
    (completeLookupBatch mismatch raw tasks reply).length = tasks.length := by
  unfold completeLookupBatch
  split
  · simp
  split
  · simp
  next hl =>
    rw [length_zip,length_map]
    omega

theorem length_results (r : LookupReply) : r.results.length = r.tasks.length := by
  unfold LookupReply.results
  split
  · exact length_completeLookupBatch
  · exact length_completeLookupBatch
  · split <;> exact length_completeLookupBatch

private theorem workerMoves_weight {phase : WorkerPhase} (hb : BatchInv c s)
    (hw : s.workers[i]? = some phase) (hm : WorkerMoves c s i phase s') : s'.weight c < s.weight c := by
  have hlaw := hb.workers phase (mem_of_getElem? hw)
  have hl : ∀ number, 0 ≤ number → attemptsLeft c number ≤ attemptsLeft c 0 := by
    intro number hn
    unfold attemptsLeft
    omega
  cases hm with
  | @take batch jobs hp hj =>
    subst hp
    have hsum := sum_map_set (w := workerWeight c) hw (.filtering batch.group batch.tasks [])
    have hnew : ({ s with jobs := jobs }.setWorker i (.filtering batch.group batch.tasks [])).weight c =
      (s.calls.map (callWeight c)).sum + queuedWeight c * s.queue.length + schedulerWeight c s + s.timerWeight +
      (jobs.map (batchWeight c)).sum +
      ((s.workers.set i (.filtering batch.group batch.tasks [])).map (workerWeight c)).sum := rfl
    rw [hnew,weight,hj,map_cons,sum_cons]
    simp only [workerWeight,batchWeight,length_nil] at hsum ⊢
    omega
  | exit hp | none hp | idle hp => exact weight_setWorker hw (by simp only [hp,workerWeight]; omega)
  | keep hp =>
    refine weight_setWorker hw ?_
    simp only [hp,workerWeight,length_append,length_cons,length_nil]
    omega
  | @attempt group active number hp =>
    have hwe : active.length + 2 < workerWeight c phase ∧
        (number ≤ c.config.maxAttempts → active.length + 4 + 2 * attemptsLeft c number < workerWeight c phase) := by
      rcases hp with ⟨rfl,_,rfl⟩ | rfl
      · have := hl 1 (by decide)
        simp only [workerWeight,length_nil]
        omega
      · simp only [workerWeight,attemptsLeft]
        omega
    unfold attempt
    split
    next hn => exact weight_setWorker (s := { s with requests := _ }) hw (hwe.2 hn)
    next =>
      refine weight_setWorker (s := { s with replies := _ }) hw ?_
      rw [workerWeight,length_results]
      exact hwe.1
  | @reply group active number reply hp hmo =>
    refine weight_setWorker (s := { s with replies := _ }) hw ?_
    rw [workerWeight,length_results]
    rcases hp with rfl | rfl <;> simp only [workerWeight] <;> omega
  | backoff hp hn =>
    refine weight_setWorker hw ?_
    simp only [hp,workerWeight]
    omega

private theorem weight_scheduler (hc : s'.calls = s.calls) (hw : s'.workers = s.workers)
    (h : queuedWeight c * s'.queue.length + schedulerWeight c s' + s'.timerWeight + (s'.jobs.map (batchWeight c)).sum <
      queuedWeight c * s.queue.length + schedulerWeight c s + s.timerWeight + (s.jobs.map (batchWeight c)).sum) :
    s'.weight c < s.weight c := by
  rw [weight,weight,hc,hw]
  omega

private theorem allGrouped_erase (s : LookupState) (group : LookupGroup) :
    s.allGrouped.length = (s.grouped group).length + (tableElements (s.groups.erase group)).length :=
  length_tableElements_erase s.groups group

private theorem erase_insert_length (s : LookupState) (group : LookupGroup) (tasks : List Nat) :
    (tableElements ((s.groups.insert group tasks).erase group)).length = (tableElements (s.groups.erase group)).length := by
  have hnew := length_tableElements_erase (s.groups.insert group tasks) group
  rw [length_tableElements_insert,tableList_insert_self] at hnew
  omega

private theorem dispatchGroup_weight (group : LookupGroup) (tasks : List Nat) (ranging : Bool) :
    schedulerWeight c (s.dispatchGroup group tasks ranging) ≤
      groupedWeight c * (tasks.length + (tableElements (s.groups.erase group)).length) + 2 * s.allGrouped.length + 11 ∧
    (tasks ≠ [] → schedulerWeight c (s.dispatchGroup group tasks ranging) =
      groupedWeight c * (tasks.length + (tableElements (s.groups.erase group)).length) + 2 * s.allGrouped.length + 10) := by
  have hall := allGrouped_erase s group
  unfold dispatchGroup
  split
  next he =>
    obtain rfl := List.isEmpty_iff.mp he
    refine ⟨?_,fun hne => absurd rfl hne⟩
    have hw : schedulerWeight c
        { s with groups := s.groups.erase group, scheduler := if ranging then .ranging else .selecting } ≤
        (groupedWeight c + 2) * (tableElements (s.groups.erase group)).length + 11 := by
      cases ranging with
      | false => exact le_succ _
      | true => exact le_refl _
    rw [add_mul] at hw
    rw [length_nil,zero_add]
    omega
  next hne =>
    have heq : schedulerWeight c { s with scheduler := .dispatching group tasks ranging } =
      groupedWeight c * (tasks.length + (tableElements (s.groups.erase group)).length) + 2 * s.allGrouped.length + 10 := rfl
    exact ⟨by omega,fun _ => heq⟩

private theorem dispatchGroup_frame (s : LookupState) (group : LookupGroup) (tasks : List Nat) (ranging : Bool) :
    (s.dispatchGroup group tasks ranging).calls = s.calls ∧ (s.dispatchGroup group tasks ranging).workers = s.workers ∧
      (s.dispatchGroup group tasks ranging).queue = s.queue ∧
      (s.dispatchGroup group tasks ranging).timerWeight = s.timerWeight ∧
      (s.dispatchGroup group tasks ranging).jobs = s.jobs := by
  unfold dispatchGroup
  split <;> exact ⟨rfl,rfl,rfl,rfl,rfl⟩

private theorem dispatch_weight {tasks : List Nat} {ranging : Bool} (hpos : 0 < c.config.maxBatchKeys) (hb : BatchInv c s)
    (hs : s.scheduler = .dispatching group tasks ranging) :
    ((s.sendJob group (tasks.take (batchCount c tasks))).dispatchGroup group
      (tasks.drop (batchCount c tasks)) ranging).weight c < s.weight c := by
  have hg : groupedWeight c = 9 + 2 * attemptsLeft c 0 := rfl
  obtain ⟨hne,hgrou⟩ := hb.dispatching group tasks ranging hs
  have hco := batchCount_pos hpos hne
  obtain ⟨sent,hse⟩ : ∃ sent, sent = s.sendJob group (tasks.take (batchCount c tasks)) := ⟨_,rfl⟩
  rw [← hse]
  obtain ⟨hc,hw,hq,ht,hj⟩ :=
    dispatchGroup_frame sent group (tasks.drop (batchCount c tasks)) ranging
  have hwe := (dispatchGroup_weight (c := c) (s := sent) group (tasks.drop (batchCount c tasks)) ranging).1
  refine weight_scheduler (hc.trans (by rw [hse]; rfl)) (hw.trans (by rw [hse]; rfl)) ?_
  have hj' : (sent.jobs.map (batchWeight c)).sum =
      (s.jobs.map (batchWeight c)).sum + (2 * (tasks.take (batchCount c tasks)).length + 5 + 2 * attemptsLeft c 0) := by
    rw [hse,sendJob,map_append,List.sum_append]
    simp [batchWeight]
  have hold : schedulerWeight c s = groupedWeight c *
      (tasks.length + (tableElements (s.groups.erase group)).length) + 2 * s.allGrouped.length + 10 := by
    rw [schedulerWeight,hs]
  have hl : (tasks.take (batchCount c tasks)).length + (tasks.drop (batchCount c tasks)).length = tasks.length := by
    rw [← length_append,take_append_drop]
  have hta : 1 ≤ (tasks.take (batchCount c tasks)).length := by
    have := length_pos_iff.mpr hne
    rw [length_take]
    omega
  rw [hq,ht,hj,hj',hold]
  obtain ⟨hgr,hall,hq',ht'⟩ : sent.groups = s.groups ∧ sent.allGrouped = s.allGrouped ∧
      sent.queue = s.queue ∧ sent.timerWeight = s.timerWeight := by
    rw [hse]
    exact ⟨rfl,rfl,rfl,rfl⟩
  rw [hgr,hall,mul_add] at hwe
  rw [hq',ht']
  -- Every task of the batch pays for itself, and the first one for the batch.
  have hpay : 2 * (tasks.take (batchCount c tasks)).length + 6 + 2 * attemptsLeft c 0 <
      groupedWeight c * (tasks.take (batchCount c tasks)).length := by
    rw [hg,add_mul]
    have := mul_le_mul_left (2 * attemptsLeft c 0) hta
    omega
  rw [← hl,add_assoc,mul_add,mul_add]
  omega

private theorem interrupt_weight {batchTasks : List Nat} (hs : interrupted c s.scheduler = some batchTasks) :
    (s.shutdown batchTasks).weight c < s.weight c := by
  have hg : groupedWeight c = 9 + 2 * attemptsLeft c 0 := rfl
  refine weight_scheduler rfl rfl ?_
  have hnew : schedulerWeight c (s.shutdown batchTasks) = batchTasks.length + s.allGrouped.length + 4 := by
    show (batchTasks ++ s.allGrouped).length + 4 = _
    rw [length_append]
  have hold : batchTasks.length + s.allGrouped.length + 4 < schedulerWeight c s := by
    cases hp : s.scheduler with
    | selecting =>
      rw [hp] at hs
      cases hs
      rw [schedulerWeight,hp]
      simp only [length_nil,add_mul]
      omega
    | dispatching group tasks ranging =>
      rw [hp] at hs
      cases hs
      rw [schedulerWeight,hp,hg]
      have := length_take_le (batchCount c tasks) tasks
      have := length_take_le' (batchCount c tasks) tasks
      simp only [add_mul,mul_add]
      omega
    | _ => simp [hp,interrupted] at hs
  have hsa : (s.shutdown batchTasks).queue = s.queue ∧ (s.shutdown batchTasks).jobs = s.jobs ∧
    (s.shutdown batchTasks).timerWeight = 0 := ⟨rfl,rfl,rfl⟩
  rw [hnew,hsa.1,hsa.2.1,hsa.2.2]
  omega

private theorem schedulerMoves_weight (hpos : 0 < c.config.maxBatchKeys) (hb : BatchInv c s)
    (hm : SchedulerMoves c s s') : s'.weight c < s.weight c := by
  have hqu : queuedWeight c = groupedWeight c + 5 := rfl
  have hg : groupedWeight c = 9 + 2 * attemptsLeft c 0 := rfl
  cases hm with
  | @gather id queue task hs hq hid =>
    refine weight_scheduler rfl rfl ?_
    have hold := allGrouped_erase s task.group
    have hnew := length_tableElements_insert s.groups task.group (s.grouped task.group ++ [id])
    have ht : s.timerWeight ≤ 2 := by
      unfold timerWeight
      split <;> omega
    simp only [schedulerWeight,hs,allGrouped,hq,length_cons,length_append,length_nil] at hold hnew ⊢
    rw [hnew,show (tableElements s.groups).length = _ from hold]
    simp only [timerWeight,if_true,mul_add,mul_one]
    omega
  | @fill id queue task hs hq hid =>
    refine weight_scheduler rfl rfl ?_
    have hold := allGrouped_erase s task.group
    have hnew := length_tableElements_insert s.groups task.group (s.grouped task.group ++ [id])
    have he := erase_insert_length s task.group (s.grouped task.group ++ [id])
    simp only [schedulerWeight,hs,allGrouped,hq,length_cons,length_append,length_nil] at hold hnew ⊢
    rw [hnew,he,hold]
    simp only [timerWeight,mul_add,add_mul,mul_one]
    omega
  | timer hs ha =>
    refine weight_scheduler rfl rfl ?_
    simp only [schedulerWeight,hs,allGrouped,timerWeight,ha,if_true,Bool.false_eq_true,if_false]
    omega
  | @range group hs hgro =>
    have hne := hb.nonempty group hgro
    obtain ⟨_,hwe⟩ := dispatchGroup_weight (c := c) (s := s) group (s.grouped group) true
    have hall := allGrouped_erase s group
    obtain ⟨hc,hw,hq,ht,hj⟩ := dispatchGroup_frame s group (s.grouped group) true
    refine weight_scheduler hc hw ?_
    rw [hwe hne,hq,ht,hj,← hall]
    simp only [schedulerWeight,hs,add_mul]
    omega
  | rangeEnd hs hgr =>
    refine weight_scheduler rfl rfl ?_
    simp only [schedulerWeight,hs,allGrouped,timerWeight]
    omega
  | dispatch hs => exact dispatch_weight hpos hb hs
  | interrupt _ hs => exact interrupt_weight hs
  | stopped hs =>
    refine weight_scheduler rfl rfl ?_
    simp only [schedulerWeight,hs,timerWeight,length_nil]
    omega
  | drained hs | finish hs =>
    refine weight_scheduler rfl rfl ?_
    simp only [schedulerWeight,hs,timerWeight]
    omega

private theorem completes_weight {s₁ : LookupState} (h : Completes c s id raw s₁) : s₁.weight c < s.weight c := by
  have hpos : 0 < queuedWeight c := succ_pos _
  cases h with
  | @call i call key rest err hc hp hraw =>
    refine weight_setCall hc ?_
    simp only [callWeight,hp,LookupCall.fail,LookupCall.skip,length_append,length_cons,length_nil]
    omega
  | receive hs hq hid herr hraw =>
    refine weight_scheduler rfl rfl ?_
    rw [hq,length_cons,mul_succ]
    simp only [schedulerWeight,hs,timerWeight,allGrouped]
    omega
  | @stop tasks index hs hid hraw =>
    refine weight_scheduler rfl rfl ?_
    have hl := (perm_cons_eraseIdx hid).length_eq
    rw [length_cons] at hl
    simp only [schedulerWeight,hs,timerWeight]
    omega
  | drain hs hq hraw =>
    refine weight_scheduler rfl rfl ?_
    rw [hq,length_cons,mul_succ]
    simp only [schedulerWeight,hs,timerWeight]
    omega
  | filter hw | worker hw =>
    refine weight_setWorker hw ?_
    simp only [workerWeight,length_cons]
    omega

theorem weight_lt (hpos : 0 < c.config.maxBatchKeys) (hb : BatchInv c s) (hi : e.inner = true)
    (hm : Moves c schemas s e s') : s'.weight c < s.weight c := by
  cases hm with
  | call | cancel | close | closeReturns => simp [LookupEvent.inner] at hi
  | callMoves hc hm => exact weight_setCall hc (callMoves_weight hm)
  | lock hc hp | takeSlot hc hp =>
    refine weight_setCall hc ?_
    simp only [callWeight,hp,LookupCall.goto]
    omega
  | drop hc hp =>
    refine weight_setCall hc ?_
    rcases hp with hp | hp <;> simp only [callWeight,hp,LookupCall.goto] <;> omega
  | @send _ i id call key rest hc hp =>
    have hsum := sum_map_set (w := callWeight c) hc (call.queued id key rest)
    have hnew : { s with queue := s.queue ++ [id], calls := s.calls.set i (call.queued id key rest) }.weight c =
      ((s.calls.set i (call.queued id key rest)).map (callWeight c)).sum + queuedWeight c * (s.queue ++ [id]).length +
      schedulerWeight c s + s.timerWeight + (s.jobs.map (batchWeight c)).sum + (s.workers.map (workerWeight c)).sum := rfl
    have hl : callWeight c (call.queued id key rest) + queuedWeight c < callWeight c call := by
      simp only [callWeight,hp,LookupCall.queued,length_append,length_singleton]
      omega
    rw [hnew,weight,length_append,length_singleton,mul_succ]
    omega
  | scheduler hm => exact schedulerMoves_weight hpos hb hm
  | worker hw hm => exact workerMoves_weight hb hw hm
  | complete hco =>
    rw [weight_complete]
    exact completes_weight hco
end Weight

section Enabled
variable {i : Nat}
/-- All invariants of a lookuper. -/
structure LookupInv (c : Lookuper) (s : LookupState) : Prop where
  tasks : TaskInv c s
  life : LifeInv c s
  batches : BatchInv c s
  waits : WaitInv s
  timer : TimerInv s

theorem LookupInv.step (hpos : 0 < c.config.maxBatchKeys) (h : LookupInv c s) (hm : Moves c schemas s e s') :
    LookupInv c s' :=
  ⟨h.tasks.step hm.tasksStep,h.life.step hm,h.batches.step hpos hm,h.waits.step h.batches hm,
    h.timer.step hm⟩

private theorem lookupInv_initial (hv : c.config.Valid) :
    LookupInv c { workers := List.replicate c.config.maxInFlightRequests.toNat .idle } := by
  have hw : ∀ phase ∈ List.replicate c.config.maxInFlightRequests.toNat WorkerPhase.idle, phase = .idle :=
    fun phase hp => (mem_replicate.mp hp).2
  have hn : ∀ id, id ∉ List.flatMap WorkerPhase.tasks
      (List.replicate c.config.maxInFlightRequests.toNat WorkerPhase.idle) := by
    intro id hid
    obtain ⟨phase,hp,hid⟩ := mem_flatMap.mp hid
    rw [hw phase hp] at hid
    simp [WorkerPhase.tasks] at hid
  refine ⟨⟨rfl,hv.maxQueuedKeys.le,rfl,by simp,by simp⟩,?_,?_,?_,⟨by simp,by simp⟩⟩
  · refine ⟨by simp,by simp [stops],rfl,by simp [drained],?_,by simp,by simp,by simp,length_replicate⟩
    exact fun he => absurd (hw _ he) (by simp)
  · refine ⟨by simp,by simp [grouped,tableList],by simp,by simp,?_,by simp,by simp⟩
    intro phase hp
    rw [hw phase hp]
    trivial
  · refine ⟨by simp [waiting],by simp [waiting],by simp [waiting],?_,?_⟩
    · intro id hid
      rcases mem_taken.mp hid with hid | hid | hid | hid
      · simp [allGrouped,tableElements] at hid
      · simp [SchedulerPhase.tasks] at hid
      · simp at hid
      · exact absurd hid (hn id)
    · rintro id ⟨task,hid,_⟩
      simp at hid

theorem lookupInv_reachable (hv : c.config.Valid) (h : (c.system schemas).Reachable s) : LookupInv c s := by
  refine System.Reachable.invariant (P := LookupInv c) ?_ ?_ h
  · intro s hi
    obtain rfl := hi
    exact lookupInv_initial hv
  · intro s e s' _ hinv hs
    exact hinv.step hv.maxBatchKeys (step_moves hs)

def Enabled (c : Lookuper) (schemas : Int → Schema) (s : LookupState) : Prop :=
  ∃ e s', LookupEvent.inner e = true ∧ s.step c schemas e = some s'

private theorem enabled_of_worker {phase : WorkerPhase} {e : WorkerEvent} (hw : s.workers[i]? = some phase)
    (h : s.workerStep c i phase e = some s') : Enabled c schemas s := by
  refine ⟨.inWorker i e,s',rfl,?_⟩
  simp only [step,hw,Option.bind_some]
  exact h

private theorem enabled_of_call {call : LookupCall} {e : LookupCallEvent} (hc : s.calls[i]? = some call)
    (h : s.callStep c schemas i call e = some s') : Enabled c schemas s := by
  refine ⟨.inCall i e,s',rfl,?_⟩
  simp only [step,hc,Option.bind_some]
  exact h

private theorem worker_enabled {phase : WorkerPhase} (h : BatchInv c s) (hw : s.workers[i]? = some phase)
    (hp : phase ≠ .exited) (hj : phase = .idle → s.jobs ≠ []) : Enabled c schemas s := by
  have hlaw := h.workers phase (mem_of_getElem? hw)
  cases phase with
  | idle =>
    obtain ⟨batch,jobs,heq⟩ := exists_cons_of_ne_nil (hj rfl)
    exact enabled_of_worker (e := .take) hw (by simp only [workerStep,take,heq]; rfl)
  | filtering group todo active =>
    cases todo with
    | nil => exact enabled_of_worker (e := .filter) hw rfl
    | cons id todo =>
      obtain ⟨task,hid,_⟩ := hlaw.2 id (by simp)
      cases herr : s.contextErr task.ctx with
      | none | some => exact enabled_of_worker (e := .filter) hw (by simp only [workerStep,filter,hid,herr]; rfl)
  | requesting group active number =>
    have ha : s.workerStep c i (.requesting group active number) (.answer (.failed Sentinel.closed.error false) false) =
        some (s.reply i ⟨group,active,.error Sentinel.closed.error⟩) := by
      simp only [workerStep,answer,Bool.not_false,Bool.or_true,Bool.true_or,if_true]
    exact enabled_of_worker hw ha
  | backoff group active number => exact enabled_of_worker (e := .retry) hw rfl
  | completing results =>
    cases results with
    | nil | cons => exact enabled_of_worker (e := .complete) hw rfl
  | exited => exact absurd rfl hp

private theorem jobs_enabled (hv : c.config.Valid) (h : LookupInv c s) (hj : s.jobs ≠ []) : Enabled c schemas s := by
  have hl := h.life.workers
  have hpos := hv.maxInFlightRequests
  have hlt : 0 < s.workers.length := by omega
  refine worker_enabled h.batches (getElem?_eq_getElem hlt) ?_ fun _ => hj
  intro he
  exact hj (h.life.exited (he ▸ getElem_mem hlt)).2

private theorem scheduler_enabled (hv : c.config.Valid) (h : LookupInv c s)
    (hse : s.scheduler = .selecting → s.queue ≠ [] ∨ s.groups.entries ≠ [])
    (hd : drained s.scheduler = false) : Enabled c schemas s := by
  cases hs : s.scheduler with
  | selecting =>
    cases hq : s.queue with
    | nil =>
      have hg := (hse hs).resolve_left (by simp [hq])
      have ha := h.timer.selecting hs hg
      exact ⟨.timer,_,rfl,by simp only [step,timer,hs,ha,if_true]; rfl⟩
    | cons id queue =>
      have hp := h.waits.pending id (by simp [waiting,hq])
      obtain ⟨task,hid,_⟩ := hp
      cases herr : s.contextErr task.ctx with
      | some err => exact ⟨.receive,_,rfl,by simp only [step,receive,hs,hq,hid,herr]; rfl⟩
      | none =>
        by_cases hf : c.config.maxBatchKeys ≤ (s.grouped task.group ++ [id]).length ∨ c.config.batchTimeout = 0
        · exact ⟨.receive,_,rfl,by
            simp only [step,receive,hs,hq,hid,herr,if_pos hf]; rfl⟩
        · exact ⟨.receive,_,rfl,by
            simp only [step,receive,hs,hq,hid,herr,if_neg hf]; rfl⟩
  | ranging =>
    cases he : s.groups.entries with
    | nil => exact ⟨.rangeEnd,_,rfl,by simp only [step,rangeEnd,hs,he]; rfl⟩
    | cons entry entries =>
      have hgr : entry.1 ∈ s.groups := by
        refine AList.mem_keys.mpr (mem_keys.mpr ⟨entry.2,?_⟩)
        rw [he]
        exact mem_cons_self
      exact ⟨.range entry.1,_,rfl,by simp only [step,range,hs,if_pos hgr]; rfl⟩
  | dispatching group tasks ranging =>
    by_cases hr : (s.jobs.length : Int) < c.config.maxInFlightRequests
    · exact ⟨.dispatch,_,rfl,by simp only [step,dispatch,hs,if_pos hr]; rfl⟩
    · refine jobs_enabled hv h fun hnil => hr ?_
      rw [hnil]
      exact hv.maxInFlightRequests
  | stopping tasks =>
    cases tasks with
    | nil | cons => exact ⟨.stop 0,_,rfl,by simp only [step,stop,hs]; rfl⟩
  | draining =>
    cases hq : s.queue with
    | nil | cons => exact ⟨.drain,_,rfl,by simp only [step,drain,hs,hq]; rfl⟩
  | waiting | finished => simp [hs,drained] at hd

private theorem held_enabled (h : LookupInv c s) (hid : id ∈ s.calls.flatMap (·.phase.held)) : Enabled c schemas s := by
  obtain ⟨call,hmem,hheld⟩ := mem_flatMap.mp hid
  obtain ⟨i,hi,hcall⟩ := getElem_of_mem hmem
  have hcall : s.calls[i]? = some call := by rw [getElem?_eq_getElem hi,hcall]
  cases hphase : call.phase with
  | holding | dropping =>
    exact enabled_of_call (e := .advance) hcall (by simp only [callStep,advance,hphase]; rfl)
  | sending id' key rest =>
    have hroom : (s.queue.length : Int) < c.config.maxQueuedKeys := by
      have hle := length_le_countP (l := s.tasks) (p := fun task => task.result.isNone) h.waits.nodup (by
        intro id hid
        obtain ⟨task,htask,hnone⟩ := h.waits.pending id hid
        exact ⟨task,htask,by rw [hnone]; rfl⟩)
      have hslots := h.tasks.slots_eq
      have hmax := h.tasks.slots_le
      have hpos := length_pos_of_mem hid
      rw [waiting,length_append] at hle
      omega
    exact enabled_of_call (e := .send) hcall (by simp only [callStep,send,hphase,if_pos hroom]; rfl)
  | _ => simp [hphase,LookupPhase.held] at hheld

theorem enabled_of_pending (hv : c.config.Valid) (h : LookupInv c s) (hid : s.Pending id) : Enabled c schemas s := by
  rcases mem_covered.mp (h.waits.covered id hid) with hid | hid | hid | hid
  · rcases mem_append.mp hid with hid | hid
    · exact held_enabled h hid
    · have hne := ne_nil_of_mem hid
      refine scheduler_enabled hv h (fun _ => .inl hne) ?_
      rw [← Bool.not_eq_true]
      exact fun hd => hne (h.life.queue hd)
  · refine scheduler_enabled hv h (fun hs => .inr fun hnil => ?_) ?_
    · rw [scheduled,hs] at hid
      simp [allGrouped,tableElements,hnil] at hid
    · cases hs : s.scheduler with
      | waiting | finished => simp [scheduled,hs] at hid
      | _ => rfl
  · refine jobs_enabled hv h fun hnil => ?_
    simp [hnil] at hid
  · obtain ⟨phase,hmem,hid⟩ := mem_flatMap.mp hid
    obtain ⟨i,hi,hp⟩ := getElem_of_mem hmem
    have hw : s.workers[i]? = some phase := by rw [getElem?_eq_getElem hi,hp]
    refine worker_enabled h.batches hw ?_ ?_
    · rintro rfl
      simp [WorkerPhase.tasks] at hid
    · rintro rfl
      simp [WorkerPhase.tasks] at hid
/-- Whatever calls, scheduler, workers and backend do, all tasks get completed. -/
theorem tasks_completed (hv : c.config.Valid) (h : (c.system schemas).Reachable s) :
    (c.system schemas).Inevitable (fun e => e.inner = true) (fun s => ∀ id, ¬s.Pending id) s := by
  refine System.Reachable.inevitable (weight c) ?_ ?_ h
  · intro s e s' hr hi hs
    exact weight_lt hv.maxBatchKeys (lookupInv_reachable hv hr).batches hi (step_moves hs)
  · intro s hr
    by_cases hp : ∃ id, s.Pending id
    · obtain ⟨id,hid⟩ := hp
      exact .inr (enabled_of_pending hv (lookupInv_reachable hv hr) hid)
    · exact .inl (not_exists.mp hp)
end Enabled
end LookupState
end FlussGo
