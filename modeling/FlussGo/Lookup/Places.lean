import FlussGo.Lookup.Batches
/-!
# Where the tasks of a lookuper are

A pending task is with the call that made it, in the queue, with the scheduler, among the jobs or with
a worker.
-/
namespace FlussGo
open List
def SchedulerPhase.tasks : SchedulerPhase → List Nat
  | .dispatching _ tasks _ => tasks
  | .stopping tasks => tasks
  | _ => []

def WorkerPhase.tasks : WorkerPhase → List Nat
  | .filtering _ todo active => active ++ todo
  | .requesting _ active _ => active
  | .backoff _ active _ => active
  | .completing results => results.map Prod.fst
  | _ => []

namespace LookupState
variable {c : Lookuper} {schemas : Int → Schema} {s s' : LookupState} {e : LookupEvent} {id : Nat} {raw : RawLookupResult}

def waiting (s : LookupState) : List Nat := s.calls.flatMap (·.phase.held) ++ s.queue
/-- The tasks that the scheduler or a worker knows. -/
def taken (s : LookupState) : List Nat :=
  s.allGrouped ++ s.scheduler.tasks ++ s.jobs.flatMap (·.tasks) ++ s.workers.flatMap (·.tasks)

theorem mem_taken : id ∈ s.taken ↔ id ∈ s.allGrouped ∨ id ∈ s.scheduler.tasks ∨ id ∈ s.jobs.flatMap (·.tasks) ∨
    id ∈ s.workers.flatMap (·.tasks) := by
  simp only [taken,mem_append,or_assoc]
/-- The tasks that the scheduler has still to send or to complete: while it sends a group, what was
already sent is listed in the group and counts no longer. -/
def scheduled (s : LookupState) : List Nat :=
  match s.scheduler with
  | .selecting => s.allGrouped
  | .ranging => s.allGrouped
  | .dispatching group tasks _ => tasks ++ tableElements (s.groups.erase group)
  | .stopping tasks => tasks
  | _ => []
/-- The tasks that somebody is going to complete. -/
def covered (s : LookupState) : List Nat :=
  s.waiting ++ s.scheduled ++ s.jobs.flatMap (·.tasks) ++ s.workers.flatMap (·.tasks)

theorem mem_covered : id ∈ s.covered ↔ id ∈ s.waiting ∨ id ∈ s.scheduled ∨ id ∈ s.jobs.flatMap (·.tasks) ∨
    id ∈ s.workers.flatMap (·.tasks) := by
  simp only [covered,mem_append,or_assoc]

structure WaitInv (s : LookupState) : Prop where
  nodup : s.waiting.Nodup
  pending : ∀ id ∈ s.waiting, s.Pending id
  taken : ∀ id ∈ s.taken, id ∉ s.waiting
  bound : ∀ id ∈ s.taken, id < s.tasks.length
  covered : ∀ id, s.Pending id → id ∈ s.covered

theorem Pending.lt (h : s.Pending id) : id < s.tasks.length := by
  obtain ⟨task,hid,_⟩ := h
  exact (lt_of_getElem? hid)

section Frame
private theorem WaitInv.of_same (h : WaitInv s) (ht : s'.tasks = s.tasks) (hw : s'.waiting.Perm s.waiting)
    (hta : ∀ id ∈ s'.taken, id ∈ s.taken) (hc : ∀ id ∈ s.covered, id ∉ s.waiting → id ∈ s'.covered) : WaitInv s' := by
  have hp : ∀ id, s'.Pending id ↔ s.Pending id := by
    intro id
    rw [Pending,Pending,ht]
  refine ⟨hw.nodup_iff.mpr h.nodup,?_,?_,?_,?_⟩
  · exact fun id hid => (hp id).mpr (h.pending id (hw.mem_iff.mp hid))
  · exact fun id hid hmem => h.taken id (hta id hid) (hw.mem_iff.mp hmem)
  · rw [ht]
    exact fun id hid => h.bound id (hta id hid)
  · intro id hid
    by_cases hmem : id ∈ s.waiting
    · exact mem_covered.mpr (.inl (hw.mem_iff.mpr hmem))
    · exact hc id (h.covered id ((hp id).mp hid)) hmem

private theorem WaitInv.of_receive {queue : List Nat} (h : WaitInv s) (hq : s.queue = id :: queue)
    (ht : s'.tasks = s.tasks) (hca : s'.calls = s.calls) (hq' : s'.queue = queue)
    (hta : ∀ id' ∈ s'.taken, id' ∈ s.taken ∨ id' = id)
    (hc : ∀ id' ∈ s.covered, id' ∉ s.waiting ∨ id' = id → id' ∈ s'.covered) : WaitInv s' := by
  have hp : s.waiting.Perm (id :: s'.waiting) := by
    rw [waiting,waiting,hq,hca,hq']
    exact perm_middle
  have hn := nodup_cons.mp (hp.nodup_iff.mp h.nodup)
  have hpe : ∀ id, s'.Pending id ↔ s.Pending id := by
    intro id
    rw [Pending,Pending,ht]
  refine ⟨hn.2,?_,?_,?_,?_⟩
  · exact fun id' hid' => (hpe id').mpr (h.pending id' (hp.mem_iff.mpr (mem_cons_of_mem _ hid')))
  · intro id' hid' hmem
    rcases hta id' hid' with hold | rfl
    · exact h.taken id' hold (hp.mem_iff.mpr (mem_cons_of_mem _ hmem))
    · exact hn.1 hmem
  · intro id' hid'
    rw [ht]
    rcases hta id' hid' with hold | rfl
    · exact h.bound id' hold
    · exact (h.pending id' (hp.mem_iff.mpr mem_cons_self)).lt
  · intro id' hid'
    have hold := h.covered id' ((hpe id').mp hid')
    by_cases hmem : id' ∈ s.waiting
    · rcases mem_cons.mp (hp.mem_iff.mp hmem) with heq | hr
      · exact hc id' hold (.inr heq)
      · exact mem_covered.mpr (.inl hr)
    · exact hc id' hold (.inl hmem)

private theorem WaitInv.of_complete {s₁ : LookupState} (h : WaitInv s) (hta : s₁.tasks = s.tasks)
    (hwa : s.waiting.Perm (id :: s₁.waiting) ∨ (s₁.waiting = s.waiting ∧ id ∈ s.taken))
    (htak : ∀ id' ∈ s₁.taken, id' ∈ s.taken)
    (hco : ∀ id' ∈ s.covered, id' ≠ id → id' ∈ s₁.covered) : WaitInv (s₁.complete id raw) := by
  have hf : id ∉ s₁.waiting := by
    rcases hwa with hp | ⟨heq,hmem⟩
    · exact (nodup_cons.mp (hp.nodup_iff.mp h.nodup)).1
    · rw [heq]
      exact h.taken id hmem
  have hsub : ∀ id' ∈ s₁.waiting, id' ∈ s.waiting := by
    intro id' hid'
    rcases hwa with hp | ⟨heq,_⟩
    · exact hp.mem_iff.mpr (mem_cons_of_mem _ hid')
    · rwa [heq] at hid'
  have hno : s₁.waiting.Nodup := by
    rcases hwa with hp | ⟨heq,_⟩
    · exact (nodup_cons.mp (hp.nodup_iff.mp h.nodup)).2
    · rw [heq]
      exact h.nodup
  have hpe : ∀ id', id' ≠ id → ((s₁.complete id raw).Pending id' ↔ s.Pending id') := by
    intro id' hne
    rcases complete_cases s₁ id raw with ⟨task,_,_,heq⟩ | ⟨_,heq⟩
    · rw [heq,Pending,Pending,hta,getElem?_set_ne (Ne.symm hne)]
    · rw [heq,Pending,Pending,hta]
  have hd : ¬(s₁.complete id raw).Pending id := by
    rcases complete_cases s₁ id raw with ⟨task,hid,_,heq⟩ | ⟨hnot,heq⟩
    · rw [heq]
      rintro ⟨task',hid',hn⟩
      rw [getElem?_set_self (lt_of_getElem? hid)] at hid'
      cases hid'
      simp at hn
    · rw [heq]
      exact hnot
  have hl : (s₁.complete id raw).tasks.length = s.tasks.length := by
    rcases complete_cases s₁ id raw with ⟨task,_,_,heq⟩ | ⟨_,heq⟩
    · rw [heq,length_set,hta]
    · rw [heq,hta]
  have hpl : (s₁.complete id raw).waiting = s₁.waiting ∧ (s₁.complete id raw).taken = s₁.taken ∧
      (s₁.complete id raw).covered = s₁.covered := by
    rcases complete_cases s₁ id raw with ⟨task,_,_,heq⟩ | ⟨_,heq⟩ <;> rw [heq] <;> exact ⟨rfl,rfl,rfl⟩
  obtain ⟨hw,ht,hc⟩ := hpl
  refine ⟨by rwa [hw],?_,?_,?_,?_⟩
  · rw [hw]
    intro id' hid'
    have hne : id' ≠ id := fun heq => hf (heq ▸ hid')
    exact (hpe id' hne).mpr (h.pending id' (hsub id' hid'))
  · rw [hw,ht]
    exact fun id' hid' hmem => h.taken id' (htak id' hid') (hsub id' hmem)
  · rw [ht,hl]
    exact fun id' hid' => h.bound id' (htak id' hid')
  · intro id' hid'
    have hne : id' ≠ id := fun heq => hd (heq ▸ hid')
    rw [hc]
    exact hco id' (h.covered id' ((hpe id' hne).mp hid')) hne
end Frame

section Calls
variable {i : Nat} {call call' : LookupCall}

theorem waiting_setCall (hc : s.calls[i]? = some call) (call' : LookupCall) :
    (s.setCall i call').waiting.Perm (call'.phase.held ++ ((s.calls.eraseIdx i).flatMap (·.phase.held) ++ s.queue)) := by
  rw [waiting,← append_assoc]
  exact (flatMap_set_perm (fun call : LookupCall => call.phase.held) hc call').append_right _

theorem waiting_perm (hc : s.calls[i]? = some call) :
    s.waiting.Perm (call.phase.held ++ ((s.calls.eraseIdx i).flatMap (·.phase.held) ++ s.queue)) := by
  rw [waiting,← append_assoc]
  exact (flatMap_perm_eraseIdx (fun call : LookupCall => call.phase.held) hc).append_right _

theorem CallMoves.held (h : CallMoves c schemas s call call') : call.phase.held = [] ∧ call'.phase.held = [] := by
  cases h with
  | refuse hp => rcases hp with h | h <;> exact ⟨by rw [h]; rfl,rfl⟩
  | fail hp => rcases hp with h | h | h <;> exact ⟨by rw [h]; rfl,rfl⟩
  | entered h | begun h | encoded h | unencoded h | checked h | chooses h | await h | pass h | canceled h
  | received _ h | returns h => exact ⟨by rw [h]; rfl,rfl⟩

private theorem WaitInv.setCall (h : WaitInv s) (hc : s.calls[i]? = some call)
    (hh : call'.phase.held = call.phase.held) : WaitInv (s.setCall i call') := by
  have hw : (s.setCall i call').waiting = s.waiting := by
    show (s.calls.set i call').flatMap _ ++ s.queue = s.calls.flatMap _ ++ s.queue
    rw [flatMap_set_eq hc hh]
  refine h.of_same rfl (List.Perm.of_eq hw) (fun id hid => hid) ?_
  intro id hid _
  rcases mem_covered.mp hid with hmem | hmem
  · exact mem_covered.mpr (.inl (by rwa [hw]))
  · exact mem_covered.mpr (.inr hmem)
end Calls

section Workers
variable {i : Nat} {phase phase' : WorkerPhase}

private theorem taken_of_setWorker (hw : s.workers[i]? = some phase) (hsub : id ∈ phase'.tasks → id ∈ phase.tasks)
    (hid : id ∈ { s with workers := s.workers.set i phase' }.taken) : id ∈ s.taken := by
  rcases mem_taken.mp hid with hid | hid | hid | hid
  · exact mem_taken.mpr (.inl hid)
  · exact mem_taken.mpr (.inr (.inl hid))
  · exact mem_taken.mpr (.inr (.inr (.inl hid)))
  · refine mem_taken.mpr (.inr (.inr (.inr ?_)))
    rcases mem_flatMap_set hid with hid | hid
    · exact mem_flatMap.mpr ⟨phase,mem_of_getElem? hw,hsub hid⟩
    · exact hid

private theorem covered_setWorker (hw : s.workers[i]? = some phase) (hk : id ∈ phase.tasks → id ∈ phase'.tasks)
    (hid : id ∈ s.covered) : id ∈ { s with workers := s.workers.set i phase' }.covered := by
  rcases mem_covered.mp hid with hid | hid | hid | hid
  · exact mem_covered.mpr (.inl hid)
  · exact mem_covered.mpr (.inr (.inl hid))
  · exact mem_covered.mpr (.inr (.inr (.inl hid)))
  · refine mem_covered.mpr (.inr (.inr (.inr ?_)))
    rcases mem_flatMap_or_set hw phase' hid with hid | hid
    · exact mem_flatMap_set_self hw (hk hid)
    · exact hid

private theorem WaitInv.setWorker (h : WaitInv s) (hw : s.workers[i]? = some phase)
    (hs : ∀ id, id ∈ phase'.tasks ↔ id ∈ phase.tasks) : WaitInv { s with workers := s.workers.set i phase' } :=
  h.of_same rfl (List.Perm.refl _) (fun id hid => taken_of_setWorker hw (hs id).mp hid)
    fun id hid _ => covered_setWorker hw (hs id).mpr hid

private theorem WaitInv.ghosts (h : WaitInv s) (requests : List LookupRequest) (replies : List LookupReply) :
    WaitInv { s with requests := requests, replies := replies } :=
  h.of_same rfl (List.Perm.refl _) (fun _ hid => hid) fun _ hid _ => hid

private theorem mem_results_of_zip {α : Type} {mismatch : Nat → Nat → String} {raw : α → RawLookupResult}
    {tasks : List Nat} {reply : Except GoError (List α)} {id : Nat} :
    id ∈ (completeLookupBatch mismatch raw tasks reply).map Prod.fst ↔ id ∈ tasks := by
  unfold completeLookupBatch
  split
  · simp
  · split
    · simp
    next hl =>
      rw [map_fst_zip (by simp; omega)]

theorem results_tasks (r : LookupReply) (id : Nat) : id ∈ r.results.map Prod.fst ↔ id ∈ r.tasks := by
  unfold LookupReply.results
  split
  · exact mem_results_of_zip
  · exact mem_results_of_zip
  · split <;> exact mem_results_of_zip

private theorem WaitInv.workerMoves (h : WaitInv s) (hw : s.workers[i]? = some phase)
    (hm : WorkerMoves c s i phase s') : WaitInv s' := by
  cases hm with
  | @take batch jobs hp hj =>
    subst hp
    refine h.of_same rfl (List.Perm.refl _) ?_ ?_
    · intro id hid
      rcases mem_taken.mp hid with hid | hid | hid | hid
      · exact mem_taken.mpr (.inl hid)
      · exact mem_taken.mpr (.inr (.inl hid))
      · refine mem_taken.mpr (.inr (.inr (.inl ?_)))
        rw [hj]
        exact mem_append_right _ hid
      · rcases mem_flatMap_set hid with hid | hid
        · refine mem_taken.mpr (.inr (.inr (.inl ?_)))
          rw [hj]
          exact mem_append_left _ (by simpa [WorkerPhase.tasks] using hid)
        · exact mem_taken.mpr (.inr (.inr (.inr hid)))
    · intro id hid _
      rcases mem_covered.mp hid with hid | hid | hid | hid
      · exact mem_covered.mpr (.inl hid)
      · exact mem_covered.mpr (.inr (.inl hid))
      · rw [hj] at hid
        rcases mem_append.mp hid with hid | hid
        · refine mem_covered.mpr (.inr (.inr (.inr (mem_flatMap_set_self hw ?_))))
          simpa [WorkerPhase.tasks] using hid
        · exact mem_covered.mpr (.inr (.inr (.inl hid)))
      · rcases mem_flatMap_or_set hw (.filtering batch.group batch.tasks []) hid with hid | hid
        · simp [WorkerPhase.tasks] at hid
        · exact mem_covered.mpr (.inr (.inr (.inr hid)))
  | exit hp | keep hp | none hp | backoff hp | idle hp => exact h.setWorker hw (by simp [hp,WorkerPhase.tasks])
  | @attempt group active number hp =>
    have ht : ∀ id, id ∈ active ↔ id ∈ phase.tasks := by
      rcases hp with ⟨rfl,_⟩ | rfl <;> simp [WorkerPhase.tasks]
    unfold attempt
    split
    · exact (h.ghosts _ s.replies).setWorker hw ht
    · refine (h.ghosts s.requests _).setWorker hw fun id => ?_
      exact (results_tasks _ id).trans (ht id)
  | @reply group active number reply hp hmo =>
    have ht : ∀ id, id ∈ active ↔ id ∈ phase.tasks := by
      rcases hp with rfl | rfl <;> simp [WorkerPhase.tasks]
    refine (h.ghosts s.requests _).setWorker hw fun id => ?_
    exact (results_tasks _ id).trans (ht id)
end Workers

section Scheduler
variable {group : LookupGroup} {tasks : List Nat}

private theorem mem_erase_or_grouped (group : LookupGroup) {id : Nat} (h : id ∈ s.allGrouped) :
    id ∈ s.grouped group ∨ id ∈ tableElements (s.groups.erase group) := by
  obtain ⟨group',hid⟩ := mem_tableElements.mp h
  by_cases heq : group' = group
  · subst heq
    exact .inl hid
  · refine .inr (mem_tableElements.mpr ⟨group',?_⟩)
    rwa [tableList_erase_ne heq]

private theorem mem_of_mem_erase (h : id ∈ tableElements (s.groups.erase group)) : id ∈ s.allGrouped := by
  obtain ⟨group',hid⟩ := mem_tableElements.mp h
  by_cases heq : group' = group
  · subst heq
    simp at hid
  · rw [tableList_erase_ne heq] at hid
    exact mem_tableElements.mpr ⟨group',hid⟩

private theorem mem_insert_group {queue' : List Nat} (group : LookupGroup) :
    id ∈ tableElements (s.groups.insert group (s.grouped group ++ queue')) ↔ id ∈ s.allGrouped ∨ id ∈ queue' := by
  constructor
  · intro h
    obtain ⟨group',hid⟩ := mem_tableElements.mp h
    by_cases heq : group' = group
    · subst heq
      rw [tableList_insert_self] at hid
      rcases mem_append.mp hid with hid | hid
      · exact .inl (mem_tableElements.mpr ⟨group',hid⟩)
      · exact .inr hid
    · rw [tableList_insert_ne heq] at hid
      exact .inl (mem_tableElements.mpr ⟨group',hid⟩)
  · rintro (h | h)
    · obtain ⟨group',hid⟩ := mem_tableElements.mp h
      refine mem_tableElements.mpr ⟨group',?_⟩
      by_cases heq : group' = group
      · subst heq
        rw [tableList_insert_self]
        exact mem_append_left _ hid
      · rwa [tableList_insert_ne heq]
    · refine mem_tableElements.mpr ⟨group,?_⟩
      rw [tableList_insert_self]
      exact mem_append_right _ h

private theorem mem_erase_insert (group : LookupGroup) (tasks : List Nat) (h : id ∈ tableElements (s.groups.erase group)) :
    id ∈ tableElements ((s.groups.insert group tasks).erase group) := by
  obtain ⟨group',hid⟩ := mem_tableElements.mp h
  refine mem_tableElements.mpr ⟨group',?_⟩
  by_cases heq : group' = group
  · subst heq
    simp at hid
  · rw [tableList_erase_ne heq] at hid
    rw [tableList_erase_ne heq,tableList_insert_ne heq]
    exact hid

private theorem dispatchGroup_scheduled (ranging : Bool)
    (hid : id ∈ tasks ∨ id ∈ tableElements (s.groups.erase group)) :
    id ∈ (s.dispatchGroup group tasks ranging).scheduled := by
  unfold dispatchGroup
  split
  next he =>
    obtain rfl := List.isEmpty_iff.mp he
    have hid := hid.resolve_left (by simp)
    cases ranging <;> exact hid
  next => exact mem_append.mpr hid

private theorem dispatchGroup_taken {ranging : Bool} (hid : id ∈ (s.dispatchGroup group tasks ranging).allGrouped ∨
    id ∈ (s.dispatchGroup group tasks ranging).scheduler.tasks) : id ∈ s.allGrouped ∨ id ∈ tasks := by
  unfold dispatchGroup at hid
  split at hid
  next =>
    rcases hid with hid | hid
    · exact .inl (mem_of_mem_erase hid)
    · cases ranging <;> simp [SchedulerPhase.tasks] at hid
  next => exact hid

private theorem dispatchGroup_places (s : LookupState) (group : LookupGroup) (tasks : List Nat) (ranging : Bool) :
    (s.dispatchGroup group tasks ranging).tasks = s.tasks ∧ (s.dispatchGroup group tasks ranging).waiting = s.waiting ∧
      (s.dispatchGroup group tasks ranging).jobs = s.jobs ∧ (s.dispatchGroup group tasks ranging).workers = s.workers := by
  unfold dispatchGroup
  split <;> exact ⟨rfl,rfl,rfl,rfl⟩

private theorem WaitInv.schedule (h : WaitInv s) (ht : s'.tasks = s.tasks) (hw : s'.waiting = s.waiting)
    (hj : s'.jobs = s.jobs) (hwo : s'.workers = s.workers)
    (hta : ∀ id, id ∈ s'.allGrouped ∨ id ∈ s'.scheduler.tasks → id ∈ s.allGrouped ∨ id ∈ s.scheduler.tasks)
    (hs : ∀ id ∈ s.scheduled, id ∈ s'.scheduled) : WaitInv s' := by
  refine h.of_same ht (List.Perm.of_eq hw) ?_ ?_
  · intro id hid
    rw [mem_taken,hj,hwo] at hid
    rw [mem_taken]
    have := hta id
    tauto
  · intro id hid _
    rw [mem_covered] at hid
    rw [mem_covered,hw,hj,hwo]
    tauto

private theorem WaitInv.rephase (h : WaitInv s) (ht : s'.tasks = s.tasks) (hw : s'.waiting = s.waiting)
    (hj : s'.jobs = s.jobs) (hwo : s'.workers = s.workers) (hg : s'.allGrouped = s.allGrouped)
    (hl : s'.scheduler.tasks = s.scheduler.tasks) (hs : s.scheduled = s'.scheduled) : WaitInv s' :=
  h.schedule ht hw hj hwo (fun id hid => by rwa [hg,hl] at hid)
    fun id hid => by rwa [← hs]

private theorem WaitInv.dispatch {ranging : Bool} (h : WaitInv s) (hs : s.scheduler = .dispatching group tasks ranging) :
    WaitInv ((s.sendJob group (tasks.take (batchCount c tasks))).dispatchGroup group
      (tasks.drop (batchCount c tasks)) ranging) := by
  obtain ⟨ht,hwa,hj,hw⟩ := dispatchGroup_places
    (s.sendJob group (tasks.take (batchCount c tasks))) group (tasks.drop (batchCount c tasks)) ranging
  have hsp : ∀ id, id ∈ tasks ↔ id ∈ tasks.take (batchCount c tasks) ∨ id ∈ tasks.drop (batchCount c tasks) := by
    intro id
    rw [← mem_append,take_append_drop]
  have hse : ∀ id, id ∈ (s.sendJob group (tasks.take (batchCount c tasks))).jobs.flatMap (·.tasks) ↔
      id ∈ s.jobs.flatMap (·.tasks) ∨ id ∈ tasks.take (batchCount c tasks) := by
    intro id
    simp only [sendJob,flatMap_append,flatMap_cons,flatMap_nil,append_nil,mem_append]
  refine h.of_same ht (List.Perm.of_eq hwa) ?_ ?_
  · intro id hid
    rw [mem_taken,hj,hw,hse,← or_assoc] at hid
    rw [mem_taken,hs,SchedulerPhase.tasks,hsp]
    rcases hid with hid | hid
    · rcases dispatchGroup_taken hid with hid | hid
      · exact .inl hid
      · exact .inr (.inl (.inr hid))
    · rcases hid with (hid | hid) | hid
      · exact .inr (.inr (.inl hid))
      · exact .inr (.inl (.inl hid))
      · exact .inr (.inr (.inr hid))
  · intro id hid hwai
    rw [mem_covered,scheduled,hs] at hid
    rw [mem_covered,hj,hw,hse]
    rcases hid with hid | hid | hid | hid
    · exact absurd hid hwai
    · rcases mem_append.mp hid with hid | hid
      · rcases (hsp id).mp hid with hid | hid
        · exact .inr (.inr (.inl (.inr hid)))
        · exact .inr (.inl (dispatchGroup_scheduled ranging (.inl hid)))
      · exact .inr (.inl (dispatchGroup_scheduled ranging (.inr hid)))
    · exact .inr (.inr (.inl (.inl hid)))
    · exact .inr (.inr (.inr hid))

private theorem WaitInv.interrupt {batchTasks : List Nat} (hb : BatchInv c s) (h : WaitInv s)
    (hs : interrupted c s.scheduler = some batchTasks) : WaitInv (s.shutdown batchTasks) := by
  refine h.schedule rfl rfl rfl rfl ?_ ?_
  · intro id hid
    have hl : id ∈ batchTasks → id ∈ s.scheduler.tasks := by
      intro hmem
      cases hp : s.scheduler with
      | selecting =>
        rw [hp] at hs
        cases hs
        simp at hmem
      | dispatching group tasks ranging =>
        rw [hp] at hs
        cases hs
        exact mem_of_mem_take hmem
      | _ => simp [hp,interrupted] at hs
    rcases hid with hid | hid
    · exact .inl hid
    · rcases mem_append.mp hid with hid | hid
      · exact .inr (hl hid)
      · exact .inl hid
  · intro id hid
    show id ∈ batchTasks ++ s.allGrouped
    refine mem_append_right _ ?_
    cases hp : s.scheduler with
    | selecting => rwa [scheduled,hp] at hid
    | dispatching group tasks ranging =>
      rw [scheduled,hp] at hid
      rcases mem_append.mp hid with hid | hid
      · exact mem_tableElements.mpr ⟨group,(hb.dispatching group tasks ranging hp).2 id hid⟩
      · exact mem_of_mem_erase hid
    | _ => simp [hp,interrupted] at hs

private theorem WaitInv.schedulerMoves (hb : BatchInv c s) (h : WaitInv s) (hm : SchedulerMoves c s s') :
    WaitInv s' := by
  cases hm with
  | @gather id queue task hs hq hid =>
    refine h.of_receive hq rfl rfl rfl ?_ ?_
    · intro id' hid'
      rw [mem_taken,allGrouped,mem_insert_group,hs] at hid'
      rw [mem_taken,hs]
      simp only [mem_singleton] at hid'
      tauto
    · intro id' hid' hwai
      rw [mem_covered,scheduled,hs] at hid'
      rw [mem_covered,scheduled,hs]
      dsimp only at hid' ⊢
      rw [allGrouped,mem_insert_group,mem_singleton]
      tauto
  | @fill id queue task hs hq hid =>
    refine h.of_receive hq rfl rfl rfl ?_ ?_
    · intro id' hid'
      rw [mem_taken,allGrouped,mem_insert_group,SchedulerPhase.tasks,mem_append] at hid'
      have hg : id' ∈ s.grouped task.group → id' ∈ s.allGrouped := fun hmem => mem_tableElements.mpr ⟨_,hmem⟩
      rw [mem_taken]
      simp only [mem_singleton] at hid'
      tauto
    · intro id' hid' hwai
      rw [mem_covered,scheduled,hs] at hid'
      rw [mem_covered,scheduled]
      dsimp only at hid' ⊢
      have hsp : id' ∈ s.allGrouped → _ := mem_erase_or_grouped task.group
      have he : id' ∈ tableElements (s.groups.erase task.group) → _ :=
        mem_erase_insert task.group (s.grouped task.group ++ [id])
      rw [mem_append,mem_append,mem_singleton]
      tauto
  | timer hs | rangeEnd hs | stopped hs | drained hs | finish hs =>
    exact h.rephase rfl rfl rfl rfl rfl (by rw [hs]; rfl) (by rw [scheduled,hs]; rfl)
  | @range group hs hg =>
    obtain ⟨ht,hwa,hj,hw⟩ :=
      dispatchGroup_places s group (s.grouped group) true
    refine h.schedule ht hwa hj hw ?_ ?_
    · intro id hid
      rcases dispatchGroup_taken hid with hid | hid
      · exact .inl hid
      · exact .inl (mem_tableElements.mpr ⟨group,hid⟩)
    · intro id hid
      rw [scheduled,hs] at hid
      exact dispatchGroup_scheduled true (mem_erase_or_grouped group hid)
  | dispatch hs => exact h.dispatch hs
  | interrupt _ hs => exact h.interrupt hb hs
end Scheduler

section Steps
private theorem WaitInv.leaves {s₁ : LookupState} (h : WaitInv s) (hp : s.waiting.Perm (id :: s₁.waiting))
    (ht : s₁.tasks = s.tasks) (hta : s₁.taken = s.taken)
    (hr : ∀ id, id ∈ s.covered → id ∈ s.waiting ∨ id ∈ s₁.covered) : WaitInv (s₁.complete id raw) := by
  refine h.of_complete ht (.inl hp) (fun _ hid => hta ▸ hid) ?_
  intro id' hid' hne
  rcases hr id' hid' with hid' | hid'
  · exact mem_covered.mpr (.inl ((mem_cons.mp (hp.mem_iff.mp hid')).resolve_left hne))
  · exact hid'

private theorem WaitInv.dequeue {queue : List Nat} (h : WaitInv s) (hq : s.queue = id :: queue) :
    WaitInv ({ s with queue := queue }.complete id raw) := by
  have hp : s.waiting.Perm (id :: { s with queue := queue }.waiting) := by
    rw [waiting,hq]
    exact perm_middle
  exact h.leaves hp rfl rfl fun id hid => (mem_covered.mp hid).imp_right fun hid => mem_covered.mpr (.inr hid)

private theorem WaitInv.finishTask {i : Nat} {phase phase' : WorkerPhase} (h : WaitInv s)
    (hw : s.workers[i]? = some phase) (hid : id ∈ phase.tasks) (hsub : ∀ id' ∈ phase'.tasks, id' ∈ phase.tasks)
    (hr : ∀ id' ∈ phase.tasks, id' ≠ id → id' ∈ phase'.tasks) :
    WaitInv ({ s with workers := s.workers.set i phase' }.complete id raw) := by
  refine h.of_complete rfl (.inr ⟨rfl,?_⟩) ?_ ?_
  · exact mem_taken.mpr (.inr (.inr (.inr (mem_flatMap.mpr ⟨phase,mem_of_getElem? hw,hid⟩))))
  · exact fun id' hid' => taken_of_setWorker hw (hsub id') hid'
  · exact fun id' hid' hne => covered_setWorker hw (fun hmem => hr id' hmem hne) hid'

private theorem WaitInv.completes {s₁ : LookupState} (h : WaitInv s) (hc : Completes c s id raw s₁) :
    WaitInv (s₁.complete id raw) := by
  cases hc with
  | @call i call key rest err hca hp hraw =>
    have hold := waiting_perm hca
    have hnew := waiting_setCall hca (call.fail key rest err)
    rw [hp] at hold
    have hpe : s.waiting.Perm (id :: (s.setCall i (call.fail key rest err)).waiting) := hold.trans (hnew.symm.cons id)
    exact h.leaves hpe rfl rfl fun id hid => (mem_covered.mp hid).imp_right fun hid => mem_covered.mpr (.inr hid)
  | @receive queue task err hs hq hid herr hraw | @drain queue hs hq hraw => exact h.dequeue hq
  | @stop tasks index hs hid hraw =>
    refine h.of_complete rfl (.inr ⟨rfl,?_⟩) ?_ ?_
    · rw [mem_taken,hs]
      exact .inr (.inl (mem_of_getElem? hid))
    · intro id' hid'
      rw [mem_taken] at hid' ⊢
      rw [hs]
      have : id' ∈ tasks.eraseIdx index → id' ∈ tasks := mem_of_mem_eraseIdx
      exact hid'.imp_right (Or.imp_left this)
    · intro id' hid' hne
      rw [mem_covered,scheduled,hs] at hid'
      rw [mem_covered]
      have : id' ∈ tasks → id' ∈ tasks.eraseIdx index := by
        intro hmem
        exact (mem_cons.mp ((perm_cons_eraseIdx hid).mem_iff.mp hmem)).resolve_left hne
      exact hid'.imp_right (Or.imp_left this)
  | @filter i group todo active task err hw hid herr hraw =>
    refine h.finishTask hw (by simp [WorkerPhase.tasks]) ?_ ?_
    · intro id' hid'
      simp only [WorkerPhase.tasks,mem_append,mem_cons] at hid' ⊢
      tauto
    · intro id' hid' hne
      simp only [WorkerPhase.tasks,mem_append,mem_cons] at hid' ⊢
      tauto
  | @worker i results hw =>
    refine h.finishTask hw (by simp [WorkerPhase.tasks]) ?_ ?_
    · intro id' hid'
      simp only [WorkerPhase.tasks,map_cons,mem_cons] at hid' ⊢
      exact .inr hid'
    · intro id' hid' hne
      simp only [WorkerPhase.tasks,map_cons,mem_cons] at hid' ⊢
      exact hid'.resolve_left hne

private theorem WaitInv.takeSlot {i : Nat} {call : LookupCall} {key : LookupKey} {rest : List Row} {task : LookupTask}
    {slots : Int} (h : WaitInv s) (hc : s.calls[i]? = some call) (hph : call.phase = .choosing key rest)
    (hn : task.result = none) : WaitInv { s with
      slots := slots, tasks := s.tasks ++ [task]
      calls := s.calls.set i (call.goto (.holding s.tasks.length key rest)) } := by
  have hold := waiting_perm hc
  have hnew := waiting_setCall hc (call.goto (.holding s.tasks.length key rest))
  rw [hph] at hold
  have hp : (s.setCall i (call.goto (.holding s.tasks.length key rest))).waiting.Perm (s.tasks.length :: s.waiting) :=
    hnew.trans (hold.symm.cons _)
  have hk : ∀ id, id < s.tasks.length → (s.tasks ++ [task])[id]? = s.tasks[id]? := fun id hlt =>
    getElem?_append_left hlt
  refine ⟨?_,?_,?_,?_,?_⟩
  · refine hp.nodup_iff.mpr (nodup_cons.mpr ⟨fun hmem => ?_,h.nodup⟩)
    exact Nat.lt_irrefl _ (h.pending _ hmem).lt
  · intro id hid
    rcases mem_cons.mp (hp.mem_iff.mp hid) with rfl | hid
    · exact ⟨task,getElem?_concat_length,hn⟩
    · obtain ⟨task',ht',hn'⟩ := h.pending id hid
      exact ⟨task',(hk id (h.pending id hid).lt).trans ht',hn'⟩
  · intro id hid hmem
    rcases mem_cons.mp (hp.mem_iff.mp hmem) with rfl | hmem
    · exact Nat.lt_irrefl _ (h.bound _ hid)
    · exact h.taken id hid hmem
  · intro id hid
    have := h.bound id hid
    simp only [length_append,length_singleton]
    omega
  · rintro id ⟨task',ht',hn'⟩
    by_cases hlt : id < s.tasks.length
    · rcases mem_covered.mp (h.covered id ⟨task',(hk id hlt).symm.trans ht',hn'⟩) with hid | hid
      · exact mem_covered.mpr (.inl (hp.mem_iff.mpr (mem_cons_of_mem _ hid)))
      · exact mem_covered.mpr (.inr hid)
    · have hlen := lt_of_getElem? ht'
      simp only [length_append,length_singleton] at hlen
      obtain rfl : id = s.tasks.length := by omega
      exact mem_covered.mpr (.inl (hp.mem_iff.mpr mem_cons_self))

theorem WaitInv.step (hb : BatchInv c s) (h : WaitInv s) (hm : Moves c schemas s e s') : WaitInv s' := by
  cases hm with
  | call ctx mode keys =>
    have hh : (LookupCall.start c ctx mode keys).phase.held = [] := by
      unfold LookupCall.start
      split
      · rfl
      · split <;> rfl
    have hwa : { s with calls := s.calls ++ [LookupCall.start c ctx mode keys] }.waiting = s.waiting := by
      rw [waiting,waiting,flatMap_append,flatMap_cons,hh]
      simp
    refine h.of_same rfl (List.Perm.of_eq hwa) (fun _ hid => hid) ?_
    intro id hid hw
    exact mem_covered.mpr (.inr ((mem_covered.mp hid).resolve_left hw))
  | callMoves hc hm => exact h.setCall hc (hm.held.2.trans hm.held.1.symm)
  | lock hc hp hcl => exact h.setCall hc (by rw [hp]; rfl)
  | drop hc hp herr => exact h.setCall hc (by rcases hp with hp | hp <;> rw [hp] <;> rfl)
  | takeSlot hc hp hr => exact h.takeSlot hc hp rfl
  | @send _ i id call key rest hc hp =>
    have hold := waiting_perm hc
    have hnew := waiting_setCall hc (call.queued id key rest)
    rw [hp] at hold
    have hpe : { s with queue := s.queue ++ [id], calls := s.calls.set i (call.queued id key rest) }.waiting.Perm
        s.waiting := by
      have hs : { s with queue := s.queue ++ [id], calls := s.calls.set i (call.queued id key rest) }.waiting =
          (s.setCall i (call.queued id key rest)).waiting ++ [id] := (append_assoc ..).symm
      rw [hs]
      exact (perm_append_singleton _ _).trans ((hnew.cons id).trans hold.symm)
    refine h.of_same rfl hpe (fun _ hid => hid) ?_
    intro id hid hw
    exact mem_covered.mpr (.inr ((mem_covered.mp hid).resolve_left hw))
  | scheduler hm => exact h.schedulerMoves hb hm
  | worker hwo hm => exact h.workerMoves hwo hm
  | complete hco => exact h.completes hco
  | _ => exact h.of_same rfl (List.Perm.refl _) (fun _ hid => hid) fun _ hid _ => hid
end Steps
end LookupState
end FlussGo
