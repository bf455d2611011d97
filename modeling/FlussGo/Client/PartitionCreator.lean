import FlussGo.Coalesce.Works
import FlussGo.Metadata.Response
import FlussGo.Schema.Partition
/-!
# Dynamic creation of partitions

`dynamicPartitionCreator` of `partition.go`: concurrent `Ensure` calls share the check and the creation of
a partition. A step is one critical section or one answer of the backend; the delays are left out.
-/
namespace FlussGo
open List Option
/-- A call of the backend and how it was answered. -/
inductive BackendCall where
  | checked (path : PhysicalTablePath) (err : Option GoError)
  | created (path : TablePath) (spec : PartitionSpec) (err : Option GoError)
deriving DecidableEq
/-- Where `ensure` is; `last` is the error that it would return if no attempt were left. -/
inductive EnsurePhase where
  | checking
  | creating (last : GoError)
  | retrying (attempt : Nat)
  | waiting (attempt : Nat) (last : GoError)
  | finished (err : Option GoError)
  | returned

structure EnsureWork where
  path : PhysicalTablePath
  spec : PartitionSpec
  phase : EnsurePhase

inductive EnsureCallPhase where
  | joining (spec : PartitionSpec)
  | awaiting (waiter : Nat)
  | returned (err : Option GoError)
deriving DecidableEq

structure EnsureCall where
  path : PhysicalTablePath
  phase : EnsureCallPhase
deriving DecidableEq

structure Creator where
  flights : Coalescer String Unit := newCoalescer _ _
  /-- The works, by the number of their shared call. -/
  works : List EnsureWork := []
  calls : List EnsureCall := []
  log : List BackendCall := []

inductive CreatorEvent where
  | begin (path : PhysicalTablePath) (partitionKeys : List String)
  | advance (call : Nat)
  /-- The backend answers the work. -/
  | answer (work : Nat) (err : Option GoError)
  /-- `waitContext` returns. -/
  | waited (work : Nat) (err : Option GoError)
  | finish (work : Nat)
  | flight (step : FlightStep)

def pendingPartitionMetadata (err : GoError) : Bool :=
  [Sentinel.unknownPartition, .noBucketLeader, .metadata].any fun sentinel => err.sentinel == some sentinel

def nextAttempt (metadataAttempts attempt : Nat) (last : GoError) : EnsurePhase :=
  if attempt ≤ metadataAttempts then .retrying attempt else .finished (some last)

def ensureBegin (path : PhysicalTablePath) (partitionKeys : List String) : Go EnsureCallPhase := do
  path.validate
  if path.partition = "" then return .returned none
  let spec ← partitionSpecFromName partitionKeys path.partition
  return .joining spec

namespace EnsureWork
/-- The call of the backend that the work waits for. -/
def request (w : EnsureWork) (err : Option GoError) : Option BackendCall :=
  match w.phase with
  | .checking => some (.checked w.path err)
  | .creating _ => some (.created w.path.tablePath w.spec err)
  | .retrying _ => some (.checked w.path err)
  | _ => none
/-- How `ensure` goes on after an answer of the backend. -/
def answered (metadataAttempts : Nat) (w : EnsureWork) : Option GoError → EnsurePhase
  | none =>
    match w.phase with
    | .creating last => nextAttempt metadataAttempts 1 last
    | _ => .finished none
  | some err =>
    match w.phase with
    | .checking =>
      let missing := err.sentinel == some .unknownPartition
      if !missing && !pendingPartitionMetadata err then .finished (some err)
      else if missing then .creating err
      else nextAttempt metadataAttempts 1 err
    | .retrying attempt =>
      if !pendingPartitionMetadata err || attempt == metadataAttempts then .finished (some err) else .waiting attempt err
    | _ => .finished (some (err.wrap ("fgo: create dynamic partition " ++ w.path.text ++ ": ")))
end EnsureWork

namespace Creator
variable (metadataAttempts : Nat)

def setWork (s : Creator) (id : Nat) (w : EnsureWork) (phase : EnsurePhase) : Creator :=
  { s with works := s.works.set id { w with phase } }

def setCall (s : Creator) (n : Nat) (c : EnsureCall) (phase : EnsureCallPhase) : Creator :=
  { s with calls := s.calls.set n { c with phase } }

def enter (s : Creator) (path : PhysicalTablePath) (spec : PartitionSpec) : Creator :=
  let flights := s.flights.enter (physicalTableKey path) false
  let works :=
    if flights.shared.length = s.flights.shared.length then s.works else s.works ++ [⟨path,spec,.checking⟩]
  { s with flights, works }

def begin (s : Creator) (path : PhysicalTablePath) (partitionKeys : List String) : Option Creator :=
  match ensureBegin path partitionKeys with
  | .ok phase => some { s with calls := s.calls ++ [⟨path,phase⟩] }
  | .err err => some { s with calls := s.calls ++ [⟨path,.returned (some err)⟩] }
  | .panic _ => none

def advance (s : Creator) (n : Nat) : Option Creator := do
  let c ← s.calls[n]?
  match c.phase with
  | .joining spec => some ((s.enter c.path spec).setCall n c (.awaiting s.flights.waiters.length))
  | .awaiting waiter => do
    let err ← s.flights.result waiter
    some (s.setCall n c (.returned err))
  | .returned _ => none

def answer (s : Creator) (id : Nat) (err : Option GoError) : Option Creator := do
  let w ← s.works[id]?
  let request ← w.request err
  some ({ s with log := s.log ++ [request] }.setWork id w (w.answered metadataAttempts err))

def waited (s : Creator) (id : Nat) (err : Option GoError) : Option Creator := do
  let w ← s.works[id]?
  match w.phase with
  | .waiting attempt last =>
    match err with
    | some err => some (s.setWork id w (.finished (some err)))
    | none => some (s.setWork id w (nextAttempt metadataAttempts (attempt + 1) last))
  | _ => none

def finish (s : Creator) (id : Nat) : Option Creator := do
  let w ← s.works[id]?
  match w.phase with
  | .finished err => do
    let flights ← s.flights.workReturns id () err
    some ({ s with flights }.setWork id w .returned)
  | _ => none

def step (s : Creator) : CreatorEvent → Option Creator
  | .begin path partitionKeys => s.begin path partitionKeys
  | .advance n => s.advance n
  | .answer id err => s.answer metadataAttempts id err
  | .waited id err => s.waited metadataAttempts id err
  | .finish id => s.finish id
  | .flight e => do
    let flights ← s.flights.step e.event
    some { s with flights }
end Creator
/-- All interleavings of the `Ensure` calls of one creator. -/
def creatorSystem (metadataAttempts : Nat) : System Creator CreatorEvent where
  init s := s = {}
  step s e s' := s.step metadataAttempts e = some s'
/-- Every call that begins is one for a path of the set. -/
def EnsuresIn (paths : Set PhysicalTablePath) (_ : Creator) (e : CreatorEvent) : Prop :=
  ∀ path partitionKeys, e = .begin path partitionKeys → path ∈ paths
/-- The backend has reported that the partition exists. -/
def Creator.Checked (s : Creator) (path : PhysicalTablePath) : Prop := BackendCall.checked path none ∈ s.log

def ensureKind : FlightKind String PhysicalTablePath EnsureWork EnsureCall where
  key := physicalTableKey
  subject := EnsureWork.path
  finished w := w.phase = .finished none
  about := EnsureCall.path
  awaits c waiter := c.phase = .awaiting waiter

structure EnsureInv (paths : Set PhysicalTablePath) (s : Creator) : Prop where
  called : ∀ c ∈ s.calls, c.path ∈ paths
  flights : ensureKind.Inv paths s.Checked s.flights s.works s.calls
  returned : ∀ c ∈ s.calls, c.phase = .returned none → c.path.partition = "" ∨ s.Checked c.path

section Steps
variable {paths : Set PhysicalTablePath} {metadataAttempts id n : Nat} {s s' : Creator} {err : Option GoError}

open EnsureWork
private theorem nextAttempt_ne (attempt : Nat) (last : GoError) :
    nextAttempt metadataAttempts attempt last ≠ .finished none := by
  unfold nextAttempt
  split <;> simp

private theorem answered_finished {w : EnsureWork} {request : BackendCall}
    (hr : w.request err = some request) (hf : w.answered metadataAttempts err = .finished none) :
    request = .checked w.path none := by
  cases err with
  | none =>
    cases hp : w.phase with
    | checking | retrying => simpa [EnsureWork.request,hp] using hr.symm
    | creating last =>
      simp only [answered,hp] at hf
      exact absurd hf (nextAttempt_ne 1 last)
    | waiting | finished | returned => simp [EnsureWork.request,hp] at hr
  | some err =>
    exfalso
    simp only [answered] at hf
    split at hf
    · split at hf
      · simp at hf
      split at hf
      · simp at hf
      · exact nextAttempt_ne 1 err hf
    · split at hf <;> simp at hf
    · simp at hf

variable (h : EnsureInv paths s)
include h

private theorem EnsureInv.setWork {w : EnsureWork} {phase : EnsurePhase}
    (hw : s.works[id]? = some w) (hph : phase = .finished none → s.Checked w.path) :
    EnsureInv paths (s.setWork id w phase) :=
  ⟨h.called,h.flights.setWork hw rfl hph,h.returned⟩

private theorem EnsureInv.setCall {c : EnsureCall} {phase : EnsureCallPhase} (hc : c ∈ s.calls)
    (ha : ∀ waiter, phase = .awaiting waiter → WaitsFor s.flights (s.works.map path) waiter c.path)
    (hr : phase = .returned none → c.path.partition = "" ∨ s.Checked c.path) : EnsureInv paths (s.setCall n c phase) :=
  ⟨forall_mem_set h.called (h.called c hc),h.flights.setCall ha,forall_mem_set h.returned hr⟩

private theorem EnsureInv.push {c : EnsureCall} (hc : c.path ∈ paths)
    (ha : ∀ waiter, c.phase ≠ .awaiting waiter) (hr : c.phase = .returned none → c.path.partition = "") :
    EnsureInv paths { s with calls := s.calls ++ [c] } :=
  ⟨forall_mem_concat h.called hc,h.flights.push ha,forall_mem_concat h.returned fun hp => .inl (hr hp)⟩

private theorem EnsureInv.log (request : BackendCall) : EnsureInv paths { s with log := s.log ++ [request] } := by
  have hk : ∀ path, s.Checked path → BackendCall.checked path none ∈ s.log ++ [request] :=
    fun _ => mem_append_left _
  exact ⟨h.called,h.flights.mono hk,fun c hc hp => (h.returned c hc hp).imp id (hk _)⟩

private theorem begin_ensure {path : PhysicalTablePath} {partitionKeys : List String} (hin : path ∈ paths)
    (hs : s.begin path partitionKeys = some s') : EnsureInv paths s' := by
  unfold Creator.begin at hs
  split at hs
  next phase hb =>
    cases hs
    obtain ⟨_,-,hb⟩ := Outcome.of_bind hb
    by_cases he : path.partition = ""
    · rw [if_pos he] at hb
      cases hb
      exact h.push hin (by simp) fun _ => he
    · rw [if_neg he] at hb
      obtain ⟨spec,-,hb⟩ := Outcome.of_bind hb
      cases hb
      exact h.push hin (by simp) (by simp)
  · cases hs
    exact h.push hin (by simp) (by simp)
  · simp at hs

private theorem EnsureInv.enter {path : PhysicalTablePath} (hk : Set.InjOn physicalTableKey paths)
    (hpath : path ∈ paths) (spec : PartitionSpec) : EnsureInv paths (s.enter path spec) ∧
      WaitsFor (s.enter path spec).flights ((s.enter path spec).works.map EnsureWork.path)
        s.flights.waiters.length path := by
  have hf : ¬ ensureKind.finished ⟨path,spec,.checking⟩ := by simp [ensureKind]
  obtain ⟨hinv,hwa⟩ := h.flights.enter (w := EnsureWork.mk path spec .checking) hk hpath hf
  exact ⟨⟨h.called,hinv,h.returned⟩,hwa⟩

private theorem advance_ensure (hk : Set.InjOn physicalTableKey paths) (hs : s.advance n = some s') :
    EnsureInv paths s' := by
  obtain ⟨c,hc,hs⟩ := bind_eq_some_iff.mp hs
  have hmem := mem_of_getElem? hc
  split at hs
  next spec hp =>
    cases hs
    obtain ⟨he,hwa⟩ := h.enter hk (h.called c hmem) spec
    refine he.setCall hmem ?_ (by simp)
    intro waiter hw
    obtain rfl := EnsureCallPhase.awaiting.inj hw
    exact hwa
  next waiter hp =>
    obtain ⟨err,hr,hs⟩ := bind_eq_some_iff.mp hs
    cases hs
    refine h.setCall hmem (by simp) fun hn => .inr ?_
    obtain rfl := EnsureCallPhase.returned.inj hn
    exact h.flights.result hmem hp hr
  · simp at hs

private theorem answer_ensure (hs : s.answer metadataAttempts id err = some s') : EnsureInv paths s' := by
  obtain ⟨w,hw,hs⟩ := bind_eq_some_iff.mp hs
  obtain ⟨request,hr,hs⟩ := bind_eq_some_iff.mp hs
  cases hs
  refine (h.log request).setWork hw fun hf => ?_
  rw [answered_finished hr hf]
  exact mem_append_right _ (mem_singleton.mpr rfl)

private theorem waited_ensure (hs : s.waited metadataAttempts id err = some s') : EnsureInv paths s' := by
  obtain ⟨w,hw,hs⟩ := bind_eq_some_iff.mp hs
  split at hs
  · split at hs
    · cases hs
      exact h.setWork hw (by simp)
    · cases hs
      exact h.setWork hw fun hf => absurd hf (nextAttempt_ne _ _)
  · simp at hs

private theorem finish_ensure (hs : s.finish id = some s') : EnsureInv paths s' := by
  obtain ⟨w,hw,hs⟩ := bind_eq_some_iff.mp hs
  split at hs
  next err hp =>
    obtain ⟨flights,hf,hs⟩ := bind_eq_some_iff.mp hs
    cases hs
    have hfin : err = none → ensureKind.finished w := by
      rintro rfl
      exact hp
    have hr : EnsureInv paths { s with flights } := ⟨h.called,h.flights.workReturns hw hfin hf,h.returned⟩
    exact hr.setWork hw (by simp)
  · simp at hs

theorem ensureInv_step {e : CreatorEvent} (hk : Set.InjOn physicalTableKey paths)
    (hg : EnsuresIn paths s e) (hs : s.step metadataAttempts e = some s') : EnsureInv paths s' := by
  cases e with
  | begin path partitionKeys => exact begin_ensure h (hg path partitionKeys rfl) hs
  | advance n => exact advance_ensure h hk hs
  | answer id err => exact answer_ensure h hs
  | waited id err => exact waited_ensure h hs
  | finish id => exact finish_ensure h hs
  | flight e =>
    obtain ⟨flights,hf,hs⟩ := bind_eq_some_iff.mp hs
    cases hs
    exact ⟨h.called,h.flights.flight hf,h.returned⟩

omit h

theorem ensureInv_reachable (hk : Set.InjOn physicalTableKey paths)
    (h : ((creatorSystem metadataAttempts).guarded (EnsuresIn paths)).Reachable s) : EnsureInv paths s := by
  refine System.Reachable.invariant (P := EnsureInv paths) ?_ ?_ h
  · rintro _ rfl
    exact ⟨by simp,.init,by simp⟩
  · rintro s e s' - hinv ⟨hs,hg⟩
    exact ensureInv_step hinv hk hg hs
end Steps
end FlussGo
