import FlussGo.Lookup.Tasks
/-!
# Batches of lookups

Every list of tasks holds tasks of one mode and one bucket, and one request has between one and
`MaxBatchKeys` of them.
-/
namespace FlussGo
open List
namespace LookupState
variable {c : Lookuper} {schemas : Int → Schema} {s s' : LookupState} {e : LookupEvent} {id : Nat} {raw : RawLookupResult}
  {group : LookupGroup} {tasks : List Nat}

def OfGroup (s : LookupState) (group : LookupGroup) (id : Nat) : Prop :=
  ∃ task, s.tasks[id]? = some task ∧ task.group = group

def KeysOf (s : LookupState) (tasks : List Nat) (keys : List Bytes) : Prop :=
  List.Forall₂ (fun id key => ∃ task, s.tasks[id]? = some task ∧ task.encoded = key) tasks keys

def Fits (c : Lookuper) (s : LookupState) (group : LookupGroup) (tasks : List Nat) : Prop :=
  (tasks.length : Int) ≤ c.config.maxBatchKeys ∧ ∀ id ∈ tasks, s.OfGroup group id

def WorkerLaw (c : Lookuper) (s : LookupState) : WorkerPhase → Prop
  | .filtering group todo active => Fits c s group (active ++ todo)
  | .requesting group active number => active ≠ [] ∧ Fits c s group active ∧ number ≤ c.config.maxAttempts
  | .backoff group active number => active ≠ [] ∧ Fits c s group active ∧ number < c.config.maxAttempts
  | .completing results => ∀ p ∈ results, ∃ r ∈ s.replies, p ∈ r.results
  | _ => True

structure BatchInv (c : Lookuper) (s : LookupState) : Prop where
  nonempty : ∀ group ∈ s.groups, s.grouped group ≠ []
  grouped : ∀ group, ∀ id ∈ s.grouped group, s.OfGroup group id
  dispatching : ∀ group tasks ranging, s.scheduler = .dispatching group tasks ranging →
    tasks ≠ [] ∧ ∀ id ∈ tasks, id ∈ s.grouped group
  jobs : ∀ batch ∈ s.jobs, batch.tasks ≠ [] ∧ Fits c s batch.group batch.tasks
  workers : ∀ phase ∈ s.workers, WorkerLaw c s phase
  requests : ∀ r ∈ s.requests, r.tasks ≠ [] ∧ Fits c s r.group r.tasks ∧ s.KeysOf r.tasks r.keys
  replies : ∀ r ∈ s.replies, Fits c s r.group r.tasks ∧ ∀ values, r.reply = .ok values → values.mode = r.group.mode

section Steps
variable {i : Nat} {phase : WorkerPhase}

theorem TasksStep.ofGroup (hs : TasksStep c s s') (h : s.OfGroup group id) : s'.OfGroup group id := by
  obtain ⟨task,hid,hg⟩ := h
  obtain ⟨result,hid',_⟩ := hs.task hid
  exact ⟨_,hid',hg⟩

theorem TasksStep.fits (hs : TasksStep c s s') (h : Fits c s group tasks) : Fits c s' group tasks :=
  ⟨h.1,fun id hid => hs.ofGroup (h.2 id hid)⟩

theorem TasksStep.keysOf {keys : List Bytes} (hs : TasksStep c s s') (h : s.KeysOf tasks keys) :
    s'.KeysOf tasks keys := by
  refine List.Forall₂.imp ?_ h
  rintro id key ⟨task,hid,hkey⟩
  obtain ⟨result,hid',_⟩ := hs.task hid
  exact ⟨_,hid',hkey⟩

private theorem TasksStep.workerLaw (hs : TasksStep c s s') (hre : s.replies ⊆ s'.replies)
    (h : WorkerLaw c s phase) : WorkerLaw c s' phase := by
  cases phase with
  | filtering group todo active => exact hs.fits h
  | requesting | backoff => exact ⟨h.1,hs.fits h.2.1,h.2.2⟩
  | completing results =>
    intro p hp
    obtain ⟨r,hr,hres⟩ := h p hp
    exact ⟨r,hre hr,hres⟩
  | _ => trivial

private theorem keysOf_encodedLookupTasks (h : ∀ id ∈ tasks, s.OfGroup group id) :
    s.KeysOf tasks (s.encodedLookupTasks tasks) := by
  rw [KeysOf,encodedLookupTasks,List.forall₂_map_right_iff,List.forall₂_same]
  intro id hid
  obtain ⟨task,ht,_⟩ := h id hid
  exact ⟨task,ht,by rw [ht]; rfl⟩

variable (h : BatchInv c s)
include h

private theorem BatchInv.tasksStep (hs : TasksStep c s s') (hgr : s'.groups = s.groups)
    (hsc : s'.scheduler = s.scheduler) (hj : s'.jobs = s.jobs) (hw : s'.workers = s.workers)
    (hreq : s'.requests = s.requests) (hre : s'.replies = s.replies) : BatchInv c s' := by
  have hg : s'.grouped = s.grouped := by
    funext group
    rw [LookupState.grouped,hgr,LookupState.grouped]
  refine ⟨?_,?_,?_,?_,?_,?_,?_⟩
  · rw [hgr,hg]
    exact h.nonempty
  · rw [hg]
    exact fun group id hid => hs.ofGroup (h.grouped group id hid)
  · rw [hg,hsc]
    exact h.dispatching
  · rw [hj]
    exact fun batch hb => ⟨(h.jobs batch hb).1,hs.fits (h.jobs batch hb).2⟩
  · rw [hw]
    exact fun phase hp => hs.workerLaw (by rw [hre]; exact List.Subset.refl _) (h.workers phase hp)
  · rw [hreq]
    intro r hr
    obtain ⟨hne,hf,hk⟩ := h.requests r hr
    exact ⟨hne,hs.fits hf,hs.keysOf hk⟩
  · rw [hre]
    exact fun r hr => ⟨hs.fits (h.replies r hr).1,(h.replies r hr).2⟩

private theorem BatchInv.complete : BatchInv c (s.complete id raw) := by
  rcases complete_cases s id raw with ⟨task,hid,hn,heq⟩ | ⟨_,heq⟩
  · rw [heq]
    exact h.tasksStep (.completed hid hn rfl rfl rfl) rfl rfl rfl rfl rfl rfl
  · rw [heq]
    exact h

private theorem BatchInv.setWorker (hp : WorkerLaw c s phase) :
    BatchInv c { s with workers := s.workers.set i phase } := by
  exact { h with workers := forall_mem_set h.workers hp }

private theorem BatchInv.reply {r : LookupReply} (hf : Fits c s r.group r.tasks)
    (hm : ∀ values, r.reply = .ok values → values.mode = r.group.mode) : BatchInv c (s.reply i r) := by
  have hn : BatchInv c { s with replies := s.replies ++ [r] } := by
    refine { h with workers := ?_, replies := ?_ }
    · intro phase hph
      have hs : TasksStep c s { s with replies := s.replies ++ [r] } := .same rfl rfl rfl
      exact hs.workerLaw (subset_append_left _ _) (h.workers phase hph)
    · exact forall_mem_concat h.replies ⟨hf,hm⟩
  exact hn.setWorker fun p hp => ⟨r,by simp,hp⟩

private theorem BatchInv.attempt {number : Int} (hne : tasks ≠ [])
    (hf : Fits c s group tasks) : BatchInv c (s.attempt c i group tasks number) := by
  unfold LookupState.attempt
  split
  next hn =>
    have hnex : BatchInv c { s with requests := s.requests ++ [⟨group,tasks,s.encodedLookupTasks tasks⟩] } := by
      exact { h with requests := forall_mem_concat h.requests ⟨hne,hf,keysOf_encodedLookupTasks hf.2⟩ }
    exact hnex.setWorker ⟨hne,hf,hn⟩
  next => exact h.reply hf (by simp)

private theorem BatchInv.workerMoves
    (hw : s.workers[i]? = some phase) (hmo : WorkerMoves c s i phase s') : BatchInv c s' := by
  have hlaw := h.workers phase (mem_of_getElem? hw)
  cases hmo with
  | @take batch jobs hp hj =>
    have hba := h.jobs batch (by rw [hj]; exact mem_cons_self)
    have hnex : BatchInv c { s with jobs := jobs } :=
      { h with jobs := fun b hb => h.jobs b (by rw [hj]; exact mem_cons_of_mem _ hb) }
    exact hnex.setWorker hba.2
  | exit | none | idle => exact h.setWorker trivial
  | @keep group id todo active hp =>
    subst hp
    refine h.setWorker ?_
    show Fits c s group ((active ++ [id]) ++ todo)
    rwa [append_assoc]
  | attempt hp =>
    rcases hp with ⟨rfl,hne,_⟩ | rfl
    · refine h.attempt hne ?_
      simpa only [WorkerLaw,append_nil] using hlaw
    · exact h.attempt hlaw.1 hlaw.2.1
  | reply hp hm =>
    rcases hp with rfl | rfl
    · exact h.reply hlaw.2.1 hm
    · exact h.reply hlaw.2.1 hm
  | backoff hp hn =>
    subst hp
    obtain ⟨hne,hf,hle⟩ := hlaw
    exact h.setWorker ⟨hne,hf,lt_of_le_of_ne hle hn⟩

private theorem BatchInv.dispatchGroup {ranging : Bool}
    (ht : ∀ id ∈ tasks, id ∈ s.grouped group) : BatchInv c (s.dispatchGroup group tasks ranging) := by
  unfold LookupState.dispatchGroup
  split
  next =>
    refine { h with nonempty := ?_, grouped := ?_, dispatching := ?_ }
    · intro group' hg'
      obtain ⟨hne,hmem⟩ := AList.mem_erase.mp hg'
      show tableList (s.groups.erase group) group' ≠ []
      rw [tableList_erase_ne hne]
      exact h.nonempty group' hmem
    · intro group' id hid
      by_cases heq : group' = group
      · subst heq
        simp [LookupState.grouped] at hid
      · refine h.grouped group' id ?_
        rwa [LookupState.grouped,tableList_erase_ne heq] at hid
    · intro group' tasks' ranging' hs
      cases ranging <;> simp at hs
  next hne =>
    refine { h with dispatching := ?_ }
    intro group' tasks' ranging' hs
    cases hs
    exact ⟨by simpa using hne,ht⟩

private theorem BatchInv.gather {task : LookupTask} (queue : List Nat)
    (hs : s.scheduler = .selecting) (hid : s.tasks[id]? = some task) :
    BatchInv c { s with queue := queue, groups := s.groups.insert task.group (s.grouped task.group ++ [id]) } := by
  refine { h with nonempty := ?_, grouped := ?_, dispatching := ?_ }
  · intro group hg
    show tableList (s.groups.insert task.group _) group ≠ []
    by_cases heq : group = task.group
    · subst heq
      simp
    · rw [tableList_insert_ne heq]
      exact h.nonempty group ((AList.mem_insert _).mp hg |>.resolve_left heq)
  · intro group id' hid'
    by_cases heq : group = task.group
    · subst heq
      simp only [LookupState.grouped,tableList_insert_self] at hid'
      rcases mem_append.mp hid' with hid' | hid'
      · exact h.grouped _ _ hid'
      · obtain rfl := mem_singleton.mp hid'
        exact ⟨task,hid,rfl⟩
    · refine h.grouped group id' ?_
      rwa [LookupState.grouped,tableList_insert_ne heq] at hid'
  · intro group tasks ranging hd
    simp [hs] at hd

omit h

theorem batchCount_le (hpos : 0 < c.config.maxBatchKeys) (tasks : List Nat) :
    (batchCount c tasks : Int) ≤ c.config.maxBatchKeys := by
  unfold batchCount
  split <;> omega

theorem batchCount_pos (hpos : 0 < c.config.maxBatchKeys) (hne : tasks ≠ []) : 0 < batchCount c tasks := by
  have := length_pos_iff.mpr hne
  unfold batchCount
  split <;> omega

private theorem BatchInv.schedulerMoves (hpos : 0 < c.config.maxBatchKeys) (h : BatchInv c s)
    (hm : SchedulerMoves c s s') : BatchInv c s' := by
  cases hm with
  | @gather id queue task hs hq hid => exact { h.gather queue hs hid with }
  | @fill id queue task hs hq hid =>
    refine { h.gather queue hs hid with dispatching := ?_ }
    intro group tasks ranging hd
    cases hd
    refine ⟨by simp,fun id hid => ?_⟩
    simpa only [LookupState.grouped,tableList_insert_self] using hid
  | timer | rangeEnd | stopped | drained | finish => exact { h with dispatching := by simp }
  | range hs hgro => exact h.dispatchGroup fun _ hid => hid
  | @dispatch group tasks ranging hs =>
    obtain ⟨hne,hg⟩ := h.dispatching group tasks ranging hs
    have hco := batchCount_pos hpos hne
    have hle := batchCount_le hpos tasks
    have hn : BatchInv c (s.sendJob group (tasks.take (batchCount c tasks))) := by
      refine { h with jobs := forall_mem_concat h.jobs ?_ }
      · refine ⟨?_,?_,fun id hid => h.grouped group id (hg id (mem_of_mem_take hid))⟩
        · rw [ne_eq,take_eq_nil_iff]
          exact not_or.mpr ⟨by omega,hne⟩
        · have := length_take_le (batchCount c tasks) tasks
          dsimp only
          omega
    exact hn.dispatchGroup fun id hid => hg id (mem_of_mem_drop hid)
  | interrupt hc hs => exact { h with dispatching := by simp [LookupState.shutdown] }

private theorem BatchInv.completes {s₁ : LookupState} (h : BatchInv c s) (hc : Completes c s id raw s₁) :
    BatchInv c s₁ := by
  cases hc with
  | call | receive | drain => exact { h with }
  | stop hs hid hraw => exact { h with dispatching := by simp }
  | filter hw hid herr hraw =>
    have hlaw := h.workers _ (mem_of_getElem? hw)
    refine h.setWorker ⟨?_,fun id hid => hlaw.2 id ?_⟩
    · have := hlaw.1
      simp only [length_append,length_cons] at this ⊢
      omega
    · rcases mem_append.mp hid with hid | hid
      · exact mem_append_left _ hid
      · exact mem_append_right _ (mem_cons_of_mem _ hid)
  | worker hw =>
    have hlaw := h.workers _ (mem_of_getElem? hw)
    exact h.setWorker fun p hp => hlaw p (mem_cons_of_mem _ hp)

theorem BatchInv.step (hpos : 0 < c.config.maxBatchKeys) (h : BatchInv c s) (hm : Moves c schemas s e s') :
    BatchInv c s' := by
  cases hm with
  | takeSlot hca hp hr => exact h.tasksStep (.taken _ rfl hr rfl rfl rfl) rfl rfl rfl rfl rfl rfl
  | scheduler hm => exact h.schedulerMoves hpos hm
  | worker hw hm => exact h.workerMoves hw hm
  | complete hc => exact (h.completes hc).complete
  | _ => exact { h with }
end Steps
end LookupState
end FlussGo
