import FlussGo.Go.Basic
import FlussGo.Lib.Run
import Mathlib.Algebra.BigOperators.Group.List.Basic
import Mathlib.Algebra.GroupWithZero.Nat
/-!
# The download scheduler

`runRemoteDownloads` starts jobs in order while two budgets allow it, and waits for results or for the end of the
context. The goroutines of the jobs and the context move between any two of its steps.
-/
namespace FlussGo
open List Option
structure DownloadLimits where
  maxConcurrentReads : Nat
  maxConcurrentBytes : Nat
/-- Where the scheduler stands: in `startReady`, in `awaitCompletion`, or behind `runRemoteDownloads`. -/
inductive DownloadPhase where
  | starting
  | awaiting
  | returned (err : Option GoError)
deriving DecidableEq
/-- The result of a job, whose size it carries. -/
structure RemoteDownloadResult where
  job : Nat
  err : Option GoError
deriving DecidableEq

structure RemoteDownloadScheduler where
  phase : DownloadPhase := .starting
  next : Nat := 0
  active : Int := 0
  activeBytes : Int := 0
  firstErr : Option GoError := none
  /-- The channel of the context is still selected on. -/
  contextDone : Bool := true
  ctxErr : Option GoError := none
  /-- The jobs whose goroutines have not sent a result. -/
  running : List Nat := []
  completed : List RemoteDownloadResult := []
  /-- The results received. -/
  finished : List RemoteDownloadResult := []
deriving DecidableEq

inductive DownloadEvent where
  | start
  | ready
  | finish (job : Nat) (err : Option GoError)
  | receive
  | contextDone
  | cancel (err : GoError)

section Model
variable (limits : DownloadLimits) (jobs : List Nat)

namespace RemoteDownloadScheduler
/-- The size of the job that `startReady` may start next. -/
def admitted (s : RemoteDownloadScheduler) : Option Nat :=
  jobs[s.next]?.filter fun size => s.firstErr.isNone && decide (s.active < limits.maxConcurrentReads) &&
    decide (size ≤ limits.maxConcurrentBytes - s.activeBytes)

def idleError (s : RemoteDownloadScheduler) : GoError :=
  s.firstErr.getD (errorf .validation "remote object exceeds concurrent byte budget")

def loop (s : RemoteDownloadScheduler) : RemoteDownloadScheduler :=
  { s with phase := if s.next < jobs.length ∨ s.active ≠ 0 then .starting else .returned s.firstErr }

def step (s : RemoteDownloadScheduler) : DownloadEvent → Option RemoteDownloadScheduler
  | .start => if s.phase = .starting then (s.admitted limits jobs).map fun (size : Nat) =>
      { s with
        next := s.next + 1
        active := s.active + 1
        activeBytes := s.activeBytes + size
        running := s.running ++ [s.next] }
    else none
  | .ready => if s.phase = .starting ∧ s.admitted limits jobs = none then
      some { s with phase := if s.active = 0 then .returned (some s.idleError) else .awaiting }
    else none
  | .finish job err => if job ∈ s.running then
      some { s with running := s.running.erase job, completed := s.completed ++ [⟨job,err⟩] }
    else none
  | .receive => if s.phase = .awaiting then s.completed.head?.map fun r => loop jobs
      { s with
        completed := s.completed.tail
        finished := r :: s.finished
        active := s.active - 1
        activeBytes := s.activeBytes - (jobs.getD r.job 0 : Nat)
        firstErr := s.firstErr.or r.err }
    else none
  | .contextDone => if s.phase = .awaiting ∧ s.contextDone = true ∧ s.ctxErr.isSome then
      some (loop jobs { s with firstErr := s.firstErr.or s.ctxErr, contextDone := false })
    else none
  | .cancel err => if s.ctxErr = none then some { s with ctxErr := some err } else none
end RemoteDownloadScheduler

def runRemoteDownloads : System RemoteDownloadScheduler DownloadEvent where
  init s := s = if jobs = [] then { phase := .returned none } else {}
  step s e s' := s.step limits jobs e = some s'
/-- The jobs started whose results have not been received. -/
def RemoteDownloadScheduler.inFlight (s : RemoteDownloadScheduler) : List Nat := s.running ++ s.completed.map (·.job)
/-- The scheduler's account of the jobs. -/
structure DownloadAccount (s : RemoteDownloadScheduler) : Prop where
  owned : (s.inFlight ++ s.finished.map (·.job)).Perm (range s.next)
  active : s.active = s.inFlight.length
  bytes : s.activeBytes = ((s.inFlight.map (jobs.getD · 0)).sum : Nat)
  active_le : s.active ≤ limits.maxConcurrentReads
  bytes_le : s.activeBytes ≤ limits.maxConcurrentBytes
  next_le : s.next ≤ jobs.length
  small : ∀ i < s.next, jobs.getD i 0 ≤ limits.maxConcurrentBytes
  succeeded : s.firstErr = none → ∀ r ∈ s.finished, r.err = none
  cause : s.firstErr ≠ none → s.ctxErr ≠ none ∨ ∃ r ∈ s.finished, r.err ≠ none

structure DownloadInv (s : RemoteDownloadScheduler) : Prop extends DownloadAccount limits jobs s where
  starting : s.phase = .starting → s.next < jobs.length ∨ s.active ≠ 0
  awaiting : s.phase = .awaiting → s.active ≠ 0
  returned : ∀ err, s.phase = .returned err → s.active = 0 ∧ (err = none → s.next = jobs.length ∧ s.firstErr = none) ∧
    (s.firstErr = none → err ≠ none → ∃ size ∈ jobs, limits.maxConcurrentBytes < size)
end Model

section Invariant
variable {limits : DownloadLimits} {jobs : List Nat} {s s' : RemoteDownloadScheduler}

open RemoteDownloadScheduler
private theorem admitted_eq_some {size : Nat} : s.admitted limits jobs = some size ↔ jobs[s.next]? = some size ∧
    s.firstErr = none ∧ s.active < limits.maxConcurrentReads ∧ size ≤ limits.maxConcurrentBytes - s.activeBytes := by
  simp [admitted,filter_eq_some_iff,and_assoc]

private theorem admitted_eq_none (h : s.admitted limits jobs = none) (he : s.firstErr = none)
    (hr : s.active < limits.maxConcurrentReads) (hn : s.next < jobs.length) :
    limits.maxConcurrentBytes < (jobs[s.next] : Int) + s.activeBytes := by
  by_contra hle
  have hs : s.admitted limits jobs = some jobs[s.next] :=
    admitted_eq_some.mpr ⟨getElem?_eq_getElem hn,he,hr,by omega⟩
  cases h.symm.trans hs

private theorem DownloadAccount.loop (h : DownloadAccount limits jobs s) : DownloadInv limits jobs (s.loop jobs) := by
  have hn := h.next_le
  refine { h with starting := fun hp => ?_, awaiting := fun hp => ?_, returned := fun err hp => ?_ } <;>
    simp only [RemoteDownloadScheduler.loop] at hp ⊢ <;> split at hp <;> cases hp
  case _ hw => exact hw
  case _ hw => exact ⟨by omega,fun he => ⟨by omega,he⟩,fun he hne => absurd he hne⟩

private theorem DownloadAccount.init (phase : DownloadPhase) : DownloadAccount limits jobs { phase } := by
  constructor <;> simp [inFlight]

theorem DownloadInv.init (h : (runRemoteDownloads limits jobs).init s) : DownloadInv limits jobs s := by
  cases jobs <;> cases h
  · exact { DownloadAccount.init (.returned none) with starting := by simp, awaiting := by simp, returned := by simp }
  · exact { DownloadAccount.init .starting with starting := by simp, awaiting := by simp, returned := by simp }

private theorem DownloadAccount.start {size : Nat} (h : DownloadAccount limits jobs s)
    (ha : s.admitted limits jobs = some size) : DownloadAccount limits jobs
      { s with next := s.next + 1, active := s.active + 1, activeBytes := s.activeBytes + size,
               running := s.running ++ [s.next] } := by
  obtain ⟨hn,he,hr,hb⟩ := admitted_eq_some.mp ha
  have hg : jobs.getD s.next 0 = size := by simp [getD_eq_getElem?_getD,hn]
  have hf : (s.running ++ [s.next] ++ s.completed.map (·.job)).Perm (s.next :: s.inFlight) := by
    rw [append_assoc]
    exact perm_middle
  have hact := h.active
  have hby := h.bytes
  constructor
  · rw [range_succ]
    exact (hf.append_right _).trans ((h.owned.cons _).trans (perm_append_singleton ..).symm)
  · change s.active + 1 = ((s.running ++ [s.next] ++ s.completed.map (·.job)).length : Int)
    rw [hf.length_eq,length_cons]
    omega
  · change s.activeBytes + size = (((s.running ++ [s.next] ++ s.completed.map (·.job)).map _).sum : Nat)
    rw [(hf.map _).sum_eq,map_cons,sum_cons,hg]
    omega
  · exact hr
  · change s.activeBytes + (size : Int) ≤ _
    omega
  · exact (lt_of_getElem? hn)
  · intro i hi
    rcases Nat.lt_succ_iff_lt_or_eq.mp hi with hi | rfl
    · exact h.small i hi
    · omega
  · exact h.succeeded
  · exact h.cause

private theorem finish_perm {job : Nat} (err : Option GoError) (h : job ∈ s.running) :
    (s.running.erase job ++ (s.completed ++ [RemoteDownloadResult.mk job err]).map (·.job)).Perm s.inFlight := by
  rw [map_append,← append_assoc]
  exact perm_append_comm.trans ((perm_cons_erase h).symm.append_right _)

private theorem DownloadAccount.receive {r : RemoteDownloadResult} {rest : List RemoteDownloadResult}
    (h : DownloadAccount limits jobs s) (hc : s.completed = r :: rest) : DownloadAccount limits jobs { s with
        completed := rest
        finished := r :: s.finished
        active := s.active - 1
        activeBytes := s.activeBytes - (jobs.getD r.job 0 : Nat)
        firstErr := s.firstErr.or r.err } := by
  have hf : s.inFlight.Perm (r.job :: (s.running ++ rest.map (·.job))) := by
    rw [inFlight,hc]
    exact perm_middle
  have ha := h.active
  have hb := h.bytes
  have hal := h.active_le
  have hbl := h.bytes_le
  rw [hf.length_eq,length_cons] at ha
  rw [(hf.map _).sum_eq,map_cons,sum_cons] at hb
  constructor
  · exact .trans perm_middle ((hf.append_right _).symm.trans h.owned)
  · change s.active - 1 = ((s.running ++ rest.map (·.job)).length : Int)
    omega
  · change s.activeBytes - _ = (((s.running ++ rest.map (·.job)).map _).sum : Nat)
    omega
  · change s.active - 1 ≤ _
    omega
  · change s.activeBytes - _ ≤ _
    omega
  · exact h.next_le
  · exact h.small
  · intro he
    obtain ⟨hfe,hre⟩ := or_eq_none_iff.mp he
    exact forall_mem_cons.mpr ⟨hre,h.succeeded hfe⟩
  · intro he
    cases hfe : s.firstErr with
    | none => exact .inr ⟨r,mem_cons_self,by simpa [hfe] using he⟩
    | some e => exact (h.cause (by simp [hfe])).imp_right fun ⟨q,hq,hqe⟩ => ⟨q,mem_cons_of_mem _ hq,hqe⟩

theorem DownloadInv.step {e : DownloadEvent} (hm : 1 ≤ limits.maxConcurrentReads) (h : DownloadInv limits jobs s)
    (hs : s.step limits jobs e = some s') : DownloadInv limits jobs s' := by
  cases e <;> simp only [RemoteDownloadScheduler.step,ite_none_right_eq_some,map_eq_some_iff,
    some.injEq] at hs
  case start =>
    obtain ⟨hp,size,ha,rfl⟩ := hs
    have hz : 0 ≤ s.active := h.active ▸ Int.natCast_nonneg _
    refine { h.start ha with starting := fun _ => .inr ?_, awaiting := fun hw => ?_, returned := fun err hw => ?_ }
    · simp only
      omega
    · cases hp.symm.trans hw
    · cases hp.symm.trans hw
  case ready =>
    obtain ⟨⟨hp,ha⟩,rfl⟩ := hs
    refine { h with starting := fun hw => ?_, awaiting := fun hw => ?_, returned := fun err hw => ?_ } <;>
      simp only at hw ⊢ <;> split at hw <;> cases hw
    case _ hz => exact hz
    case _ hz =>
      have hl := (h.starting hp).resolve_right (not_not.mpr hz)
      have hb := h.bytes
      rw [length_eq_zero_iff.mp (Int.ofNat_eq_zero.mp (h.active.symm.trans hz))] at hb
      refine ⟨hz,by simp,fun he _ => ⟨_,getElem_mem hl,?_⟩⟩
      have := admitted_eq_none ha he (by omega) hl
      simp only [map_nil,sum_nil] at hb
      omega
  case finish job err =>
    obtain ⟨hj,rfl⟩ := hs
    have hp := finish_perm err hj
    exact { h with
      owned := (hp.append_right _).trans h.owned
      active := h.active.trans (congrArg _ hp.length_eq.symm)
      bytes := h.bytes.trans (congrArg _ (hp.map _).sum_eq.symm) }
  case receive =>
    obtain ⟨-,r,hr,rfl⟩ := hs
    obtain ⟨rest,hc⟩ := head?_eq_some_iff.mp hr
    rw [hc]
    exact (h.receive hc).loop
  case contextDone =>
    obtain ⟨⟨-,-,hc⟩,rfl⟩ := hs
    refine DownloadAccount.loop { h with succeeded := fun he => ?_, cause := fun _ => .inl fun hn => ?_ }
    · exact h.succeeded (or_eq_none_iff.mp he).1
    · simp [show s.ctxErr = none from hn] at hc
  case cancel err =>
    obtain ⟨-,rfl⟩ := hs
    exact { h with cause := fun _ => .inl (by simp) }

theorem DownloadInv.reachable (hm : 1 ≤ limits.maxConcurrentReads) (h : (runRemoteDownloads limits jobs).Reachable s) :
    DownloadInv limits jobs s :=
  System.Reachable.invariant (fun _ => .init) (fun _ _ _ _ h hs => h.step hm hs) h
end Invariant

section Termination
variable {limits : DownloadLimits} {jobs : List Nat} {s s' : RemoteDownloadScheduler} {e : DownloadEvent}

open RemoteDownloadScheduler
/-- Every step takes a job or a result further, or ends a wait for the context. -/
def RemoteDownloadScheduler.rank (jobs : List Nat) (s : RemoteDownloadScheduler) : Nat :=
  4 * (jobs.length - s.next) + 3 * s.running.length + 2 * s.completed.length +
    (decide (s.phase = .starting)).toNat + 2 * s.contextDone.toNat + s.ctxErr.isNone.toNat

private theorem rank_loop (jobs : List Nat) (s : RemoteDownloadScheduler) :
    (s.loop jobs).rank jobs ≤ rank jobs { s with phase := .awaiting } + 1 := by
  have := Bool.toNat_le (decide ((s.loop jobs).phase = .starting))
  simp only [rank,loop] at this ⊢
  omega

private theorem or_of_ne_none {α : Type} {a b : Option α} (h : a ≠ none) : a.or b = a := by
  cases a <;> simp_all
/-- What a step does: it lowers the rank, keeps the first error, and starts no job, or the next one and only without
an error. -/
structure DownloadMove (jobs : List Nat) (s s' : RemoteDownloadScheduler) : Prop where
  rank : s'.rank jobs < s.rank jobs
  firstErr : s.firstErr ≠ none → s'.firstErr = s.firstErr
  starts : (s'.next = s.next ∧ ∀ job ∈ s'.running, job ∈ s.running) ∨
    s.firstErr = none ∧ s'.next = s.next + 1 ∧ s'.running = s.running ++ [s.next]

theorem step_move (h : s.step limits jobs e = some s') : DownloadMove jobs s s' := by
  cases e <;> simp only [RemoteDownloadScheduler.step,ite_none_right_eq_some,map_eq_some_iff,
    some.injEq] at h
  case start =>
    obtain ⟨-,size,ha,rfl⟩ := h
    have := (List.getElem?_eq_some_iff.mp (admitted_eq_some.mp ha).1).1
    refine ⟨?_,fun _ => rfl,.inr ⟨(admitted_eq_some.mp ha).2.1,rfl,rfl⟩⟩
    simp only [rank,length_append,length_singleton]
    omega
  case ready =>
    obtain ⟨⟨hp,-⟩,rfl⟩ := h
    refine ⟨?_,fun _ => rfl,.inl ⟨rfl,fun _ hj => hj⟩⟩
    simp only [rank,hp]
    split <;> simp
  case finish job err =>
    obtain ⟨hj,rfl⟩ := h
    have := length_pos_of_mem hj
    refine ⟨?_,fun _ => rfl,.inl ⟨rfl,fun _ => mem_of_mem_erase⟩⟩
    simp only [rank,length_append,length_singleton,length_erase_of_mem hj]
    omega
  case receive =>
    obtain ⟨hp,r,hr,rfl⟩ := h
    obtain ⟨rest,hc⟩ := head?_eq_some_iff.mp hr
    refine ⟨Nat.lt_of_le_of_lt (rank_loop jobs _) ?_,or_of_ne_none,.inl ⟨rfl,fun _ hj => hj⟩⟩
    simp only [rank,hp,hc,tail_cons,length_cons]
    omega
  case contextDone =>
    obtain ⟨⟨hp,hd,-⟩,rfl⟩ := h
    refine ⟨Nat.lt_of_le_of_lt (rank_loop jobs _) ?_,or_of_ne_none,.inl ⟨rfl,fun _ hj => hj⟩⟩
    simp only [rank,hp,hd,Bool.toNat_true,Bool.toNat_false]
    omega
  case cancel err =>
    obtain ⟨hn,rfl⟩ := h
    exact ⟨by simp [rank,hn],fun _ => rfl,.inl ⟨rfl,fun _ hj => hj⟩⟩

theorem DownloadInv.enabled (h : DownloadInv limits jobs s) (hr : ∀ err, s.phase ≠ .returned err) :
    ∃ e s', (∀ err, e ≠ .cancel err) ∧ s.step limits jobs e = some s' := by
  cases hp : s.phase with
  | returned err => exact absurd hp (hr err)
  | starting =>
    cases ha : s.admitted limits jobs with
    | none => exact ⟨.ready,_,by simp,if_pos ⟨hp,ha⟩⟩
    | some size => exact ⟨.start,_,by simp,by simp only [RemoteDownloadScheduler.step,if_pos hp,ha,map_some]; rfl⟩
  | awaiting =>
    cases hw : s.running with
    | cons job rest => exact ⟨.finish job none,_,by simp,if_pos (by simp [hw])⟩
    | nil =>
      cases hc : s.completed with
      | nil => exact absurd (by simp [h.active,inFlight,hw,hc]) (h.awaiting hp)
      | cons r rest => exact ⟨.receive,_,by simp,by simp only [RemoteDownloadScheduler.step,if_pos hp,hc,head?_cons,map_some]; rfl⟩

theorem downloads_scheduled (limits : DownloadLimits) (jobs : List Nat) (hm : 1 ≤ limits.maxConcurrentReads)
    (s : RemoteDownloadScheduler) (h : (runRemoteDownloads limits jobs).Reachable s) :
    -- the budgets; every started job is in flight or has ended, once
    (s.active = s.inFlight.length ∧ s.active ≤ limits.maxConcurrentReads ∧
      s.activeBytes = ((s.inFlight.map (jobs.getD · 0)).sum : Nat) ∧ s.activeBytes ≤ limits.maxConcurrentBytes ∧
      (s.inFlight ++ s.finished.map (·.job)).Perm (range s.next)) ∧
    -- jobs start in order, none after the first error
    (∀ e s', s.step limits jobs e = some s' → (s.firstErr ≠ none → s'.firstErr = s.firstErr) ∧
      ((s'.next = s.next ∧ ∀ job ∈ s'.running, job ∈ s.running) ∨
        s.firstErr = none ∧ s'.next = s.next + 1 ∧ s'.running = s.running ++ [s.next])) ∧
    -- the scheduler returns, without waiting for a cancellation
    (runRemoteDownloads limits jobs).Inevitable (fun _ => True) (fun t => ∃ err, t.phase = .returned err) s ∧
    ((∀ err, s.phase ≠ .returned err) → ∃ e s', (∀ err, e ≠ .cancel err) ∧ s.step limits jobs e = some s') ∧
    -- what it returns
    ∀ err, s.phase = .returned err → s.inFlight = [] ∧
      (err = none → ∀ i < jobs.length, ⟨i, none⟩ ∈ s.finished) ∧
      (s.ctxErr = none → (∀ r ∈ s.finished, r.err = none) →
        (err ≠ none ↔ ∃ size ∈ jobs, limits.maxConcurrentBytes < size)) := by
  have hi := DownloadInv.reachable hm h
  refine ⟨⟨hi.active,hi.active_le,hi.bytes,hi.bytes_le,hi.owned⟩,fun e s' hs =>
    ⟨(step_move hs).firstErr,(step_move hs).starts⟩,
    h.inevitable (rank jobs) (fun _ _ _ _ _ hs => (step_move hs).rank) fun t ht => ?_,hi.enabled,fun err hp => ?_⟩
  · by_cases hr : ∃ err, t.phase = .returned err
    · exact .inl hr
    · obtain ⟨e,s',-,hs⟩ := (DownloadInv.reachable hm ht).enabled (not_exists.mp hr)
      exact .inr ⟨e,s',trivial,hs⟩
  · obtain ⟨hz,hn,hb⟩ := hi.returned err hp
    have hf : s.inFlight = [] := length_eq_zero_iff.mp (Int.ofNat_eq_zero.mp (hi.active.symm.trans hz))
    refine ⟨hf,fun he i hl => ?_,fun hc hr => ⟨fun he => hb ?_ he,?_⟩⟩
    · obtain ⟨hx,hfe⟩ := hn he
      have ho := hi.owned
      rw [hf,nil_append] at ho
      obtain ⟨r,hr,rfl⟩ := mem_map.mp (ho.mem_iff.mpr (mem_range.mpr (hx ▸ hl)))
      have := hi.succeeded hfe r hr
      cases r
      cases this
      exact hr
    · by_contra hne
      rcases hi.cause hne with hx | ⟨r,hm,hx⟩
      · exact hx hc
      · exact hx (hr r hm)
    · rintro ⟨size,hm,hlt⟩ he
      obtain ⟨i,hl,rfl⟩ := mem_iff_getElem.mp hm
      have := hi.small i ((hn he).1 ▸ hl)
      simp only [getD_eq_getElem?_getD,getElem?_eq_getElem hl,Option.getD_some] at this
      omega
/-- Two jobs fill the first budget, the second one ends before the first, and a third one takes its place. -/
theorem downloads_scheduled_overtaken : ∃ s, (runRemoteDownloads ⟨2, 10⟩ [4, 5, 3]).Reachable s ∧
    s.finished = [⟨1, none⟩] ∧ s.inFlight = [0, 2] ∧ s.activeBytes = ((s.inFlight.map ([4, 5, 3].getD · 0)).sum : Nat) ∧
      (runRemoteDownloads ⟨2, 10⟩ [4, 5, 3]).Inevitable (fun _ => True) (fun t => ∃ err, t.phase = .returned err) s := by
  obtain ⟨s,h,hs⟩ := System.Reachable.of_foldlM_any (T := runRemoteDownloads ⟨2, 10⟩ [4, 5, 3]) (s := {})
    (RemoteDownloadScheduler.step ⟨2, 10⟩ [4, 5, 3]) [.start, .start, .ready, .finish 1 none, .receive, .start]
    (fun s => decide (s.finished = [⟨1,none⟩] ∧ s.inFlight = [0, 2])) rfl (fun _ _ _ _ h => h) (by decide +kernel)
  obtain ⟨hf,hi⟩ := of_decide_eq_true hs
  obtain ⟨⟨-,-,hb,-⟩,-,hr,-⟩ := downloads_scheduled ⟨2, 10⟩ [4, 5, 3] (by decide) s h
  exact ⟨s,h,hf,hi,hb,hr⟩
end Termination
end FlussGo
