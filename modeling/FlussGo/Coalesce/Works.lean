import FlussGo.Coalesce.Values
/-!
# Works with a subject

Callers of a coalescer share works that run for a subject: a table, a partition. A caller gets the work of
its own subject when the key determines the subject.
-/
namespace FlussGo
open List Coalescer
variable {K A : Type}

def Returned.err {V : Type} : Returned V → Option GoError
  | .refused err => some err
  | .shared _ _ err => err
  | .left _ err => some err
/-- The error with which a `Do` call has returned. -/
def Coalescer.result {V : Type} (c : Coalescer K V) (waiter : Nat) : Option (Option GoError) :=
  match c.waiters[waiter]? with
  | some (.returned result) => some result.err
  | _ => none
/-- The steps of a coalescer that its works have no part in. -/
inductive FlightStep where
  | complete (work : Nat)
  | claim (waiter : Nat)
  | leave (waiter : Nat) (err : GoError)

def FlightStep.event {K V : Type} : FlightStep → CoalescerEvent K V
  | .complete work => .complete work
  | .claim waiter => .claim waiter
  | .leave waiter err => .leave waiter err

theorem FlightStep.event_ne {K V : Type} (e : FlightStep) :
    (∀ key disposer, (e.event : CoalescerEvent K V) ≠ .enter key disposer) ∧
      ∀ id value err, (e.event : CoalescerEvent K V) ≠ .workReturns id value err := by
  cases e <;> simp [FlightStep.event]
/-- The subjects of the works, in the order of the shared calls. What has succeeded is done. -/
structure Works (c : Coalescer K Unit) (subjects : List A) (key : A → K) (Done : A → Prop) : Prop where
  sharing : SharingInv c
  keys : c.shared.map SharedCall.key = subjects.map key
  done : c.Carries fun id _ => ∀ a, subjects[id]? = some a → Done a
/-- A `Do` call that goes through the work of this subject. -/
def WaitsFor (c : Coalescer K Unit) (subjects : List A) (waiter : Nat) (a : A) : Prop :=
  ∃ x, c.waiters[waiter]? = some x ∧ ∀ id, x.call = some id → subjects[id]? = some a
/-- The subjects after a `Do` call that created a work or joined one. -/
def entered (c c' : Coalescer K Unit) (subjects : List A) (a : A) : List A :=
  if c'.shared.length = c.shared.length then subjects else subjects ++ [a]

theorem forall_mem_entered {c c' : Coalescer K Unit} {works : List A} {w : A} {P : A → Prop} (h : ∀ v ∈ works, P v)
    (hw : P w) : ∀ v ∈ entered c c' works w, P v := by
  unfold entered
  split
  · exact h
  · exact forall_mem_concat h hw

theorem map_set_subject {W : Type} {f : W → A} {works : List W} {id : Nat} {w w' : W} (hw : works[id]? = some w)
    (hp : f w' = f w) : (works.set id w').map f = works.map f := by
  rw [map_set,hp]
  apply ext_getElem?
  intro i
  by_cases hi : id = i
  · subst hi
    rw [getElem?_set_self (by simpa using (lt_of_getElem? hw))]
    simp [hw]
  · rw [getElem?_set_ne hi]

section Works
variable {c c' : Coalescer K Unit} {subjects : List A} {key : A → K} {Done : A → Prop} {waiter : Nat} {a b : A}

theorem Works.mono {Done' : A → Prop} (h : Works c subjects key Done) (hd : ∀ a, Done a → Done' a) :
    Works c subjects key Done' :=
  ⟨h.sharing,h.keys,h.done.mono fun _ _ hold a ha => hd a (hold a ha)⟩

theorem Works.length (h : Works c subjects key Done) : c.shared.length = subjects.length := by
  have := congrArg List.length h.keys
  simpa using this

theorem works_newCoalescer (key : A → K) (Done : A → Prop) [DecidableEq K] :
    Works (newCoalescer K Unit) [] key Done :=
  ⟨sharingInv_reachable (.init rfl),rfl,by simp [Coalescer.Carries,newCoalescer]⟩

theorem Works.result (h : Works c subjects key Done) (hw : WaitsFor c subjects waiter a)
    (hr : c.result waiter = some none) : Done a := by
  obtain ⟨x,hx,hc⟩ := hw
  unfold Coalescer.result at hr
  split at hr
  next result hre =>
    cases hx.symm.trans hre
    cases result with
    | refused err | left _ err => simp [Returned.err] at hr
    | shared id value err =>
      obtain rfl : err = none := by simpa [Returned.err] using hr
      exact h.done.shared h.sharing hre a (hc id rfl)
  · simp at hr

theorem Works.registered (h : Works c subjects key Done) {k : K} {id : Nat} (hc : c.calls k = some id) :
    ∃ b, subjects[id]? = some b ∧ key b = k := by
  obtain ⟨call,hca,rfl⟩ := h.sharing.keys k id hc
  have hget : (subjects.map key)[id]? = some call.key := by
    rw [← h.keys]
    simp [hca]
  rw [getElem?_map] at hget
  exact Option.map_eq_some_iff.mp hget

private theorem getElem?_entered {id : Nat} (hid : subjects[id]? = some b) :
    (entered c c' subjects a)[id]? = some b := by
  unfold entered
  split
  · exact hid
  · exact getElem?_append_of hid _

variable [DecidableEq K]

theorem Works.step {e : CoalescerEvent K Unit} (h : Works c subjects key Done) (hs : c.step e = some c')
    (he : ∀ key disposer, e ≠ .enter key disposer)
    (hw : ∀ id value, e = .workReturns id value none → ∀ a, subjects[id]? = some a → Done a) :
    Works c' subjects key Done :=
  ⟨sharingInv_step h.sharing hs,(step_keys h.sharing hs he).trans h.keys,
    carries_step h.sharing h.done hw hs⟩

theorem Works.flight {e : FlightStep} (h : Works c subjects key Done) (hs : c.step e.event = some c') :
    Works c' subjects key Done :=
  h.step hs e.event_ne.1 fun id value heq => absurd heq (e.event_ne.2 id value none)

theorem WaitsFor.step {e : CoalescerEvent K Unit} (h : WaitsFor c subjects waiter a) (hs : SharingInv c)
    (hst : c.step e = some c') : WaitsFor c' subjects waiter a := by
  obtain ⟨x,hx,hc⟩ := h
  obtain ⟨y,hy,hsa⟩ := step_waiter hs hst hx
  exact ⟨y,hy,fun id hid => hc id (hsa ▸ hid)⟩

theorem Works.enter (h : Works c subjects key Done) (a : A) :
    Works (c.enter (key a) false) (entered c (c.enter (key a) false) subjects a) key Done := by
  have hs : c.step (.enter (key a) false) = some (c.enter (key a) false) := rfl
  refine ⟨sharingInv_step h.sharing hs,?_,?_⟩
  · unfold entered
    rcases enter_keys h.sharing (key a) false with ⟨hk,-⟩ | ⟨hk,-⟩
    · have hl : (c.enter (key a) false).shared.length = c.shared.length := by
        simpa using congrArg List.length hk
      rw [if_pos hl,hk,h.keys]
    · have hl : (c.enter (key a) false).shared.length = c.shared.length + 1 := by
        simpa using congrArg List.length hk
      rw [if_neg (by omega),hk,h.keys,map_append]
      rfl
  · intro id call' hc'
    rcases enter_getElem? hc' with ⟨call,waiters,hc,rfl⟩ | ⟨-,-,-,rfl⟩
    · have hold := h.done id call hc
      have hlt : id < subjects.length := h.length ▸ (lt_of_getElem? hc)
      have hba : ∀ b, (entered c (c.enter (key a) false) subjects a)[id]? = some b → subjects[id]? = some b := by
        intro b hb
        have hget := getElem?_eq_getElem hlt
        rw [getElem?_entered hget] at hb
        rw [hget,hb]
      exact ⟨fun value hv b hb => hold.returned value hv b (hba b hb),
        fun hd herr b hb => hold.completed hd herr b (hba b hb)⟩
    · exact ⟨by simp,by simp⟩

theorem WaitsFor.enter (h : WaitsFor c subjects waiter b) (hs : SharingInv c) (k : K) (a : A) :
    WaitsFor (c.enter k false) (entered c (c.enter k false) subjects a) waiter b := by
  have hst : c.step (.enter k false) = some (c.enter k false) := rfl
  obtain ⟨x,hx,hc⟩ := h.step hs hst
  exact ⟨x,hx,fun id hid => getElem?_entered (hc id hid)⟩
/-- A new `Do` call goes through a work of its own subject, if no other subject has its key. -/
theorem Works.waitsFor (h : Works c subjects key Done) (hkey : ∀ b ∈ subjects, key b = key a → b = a) :
    WaitsFor (c.enter (key a) false) (entered c (c.enter (key a) false) subjects a) c.waiters.length a := by
  obtain ⟨y,hy⟩ : ∃ y, (c.enter (key a) false).waiters[c.waiters.length]? = some y := by
    obtain ⟨y,hw⟩ := enter_waiters c (key a) false
    exact ⟨y,by rw [hw]; exact getElem?_concat_length⟩
  refine ⟨y,hy,fun id hid => ?_⟩
  rcases enter_keys h.sharing (key a) false with ⟨-,hj⟩ | ⟨hk,hc⟩
  · obtain ⟨b,hb,heq⟩ := h.registered (hj y hy id hid).1
    obtain rfl := hkey b (mem_of_getElem? hb) heq
    exact getElem?_entered hb
  · have hl : (c.enter (key a) false).shared.length = c.shared.length + 1 := by
      simpa using congrArg List.length hk
    obtain rfl : c.shared.length = id := Option.some.inj ((hc y hy).symm.trans hid)
    rw [entered,if_neg (by omega),h.length]
    exact getElem?_concat_length
end Works

/-- How works and the calls that wait for them are about subjects. -/
structure FlightKind (K A W C : Type) where
  key : A → K
  subject : W → A
  finished : W → Prop
  about : C → A
  awaits : C → Nat → Prop
/-- Every finished work has done its subject, and every waiting call waits for the work of its own. -/
structure FlightKind.Inv {W C : Type} (k : FlightKind K A W C) (known : Set A) (Done : A → Prop) (c : Coalescer K Unit)
    (works : List W) (calls : List C) : Prop where
  subjects : ∀ w ∈ works, k.subject w ∈ known
  shares : Works c (works.map k.subject) k.key Done
  finished : ∀ w ∈ works, k.finished w → Done (k.subject w)
  awaiting : ∀ x ∈ calls, ∀ waiter, k.awaits x waiter → WaitsFor c (works.map k.subject) waiter (k.about x)

namespace FlightKind
section Inv
variable {W C : Type} {k : FlightKind K A W C} {known : Set A} {Done : A → Prop} {c c' : Coalescer K Unit}
  {works : List W} {calls : List C} {id n : Nat} {w w' : W} {x : C}

variable (h : k.Inv known Done c works calls)
include h

theorem Inv.mono {Done' : A → Prop} (hd : ∀ a, Done a → Done' a) : k.Inv known Done' c works calls :=
  { h with shares := h.shares.mono hd, finished := fun w hw hf => hd _ (h.finished w hw hf) }

theorem Inv.setWork (hw : works[id]? = some w) (hs : k.subject w' = k.subject w)
    (hf : k.finished w' → Done (k.subject w)) : k.Inv known Done c (works.set id w') calls := by
  have hmap := map_set_subject hw hs
  refine ⟨forall_mem_set h.subjects ?_,?_,forall_mem_set h.finished ?_,?_⟩
  · rw [hs]
    exact h.subjects w (mem_of_getElem? hw)
  · rw [hmap]
    exact h.shares
  · rw [hs]
    exact hf
  · rw [hmap]
    exact h.awaiting

theorem Inv.setCall (hx : ∀ waiter, k.awaits x waiter → WaitsFor c (works.map k.subject) waiter (k.about x)) :
    k.Inv known Done c works (calls.set n x) :=
  { h with awaiting := forall_mem_set h.awaiting hx }

theorem Inv.push (hx : ∀ waiter, ¬ k.awaits x waiter) : k.Inv known Done c works (calls ++ [x]) :=
  { h with awaiting := forall_mem_concat h.awaiting fun waiter hw => absurd hw (hx waiter) }

theorem Inv.result {waiter : Nat} (hx : x ∈ calls) (ha : k.awaits x waiter)
    (hr : c.result waiter = some none) : Done (k.about x) := h.shares.result (h.awaiting x hx waiter ha) hr

omit h

private theorem map_entered (works : List W) (w : W) :
    (entered c c' works w).map k.subject = entered c c' (works.map k.subject) (k.subject w) := by
  unfold entered
  split <;> simp

variable [DecidableEq K]

theorem Inv.init : k.Inv known Done (newCoalescer K Unit) [] [] :=
  ⟨by simp,works_newCoalescer _ _,by simp,by simp⟩

theorem Inv.flight {e : FlightStep} (h : k.Inv known Done c works calls) (hs : c.step e.event = some c') :
    k.Inv known Done c' works calls :=
  { h with
    shares := h.shares.flight hs
    awaiting := fun x hx waiter ha => (h.awaiting x hx waiter ha).step h.shares.sharing hs }

theorem Inv.workReturns {err : Option GoError} (h : k.Inv known Done c works calls) (hw : works[id]? = some w)
    (hf : err = none → k.finished w) (hs : c.workReturns id () err = some c') : k.Inv known Done c' works calls := by
  have hst : c.step (.workReturns id () err) = some c' := hs
  refine ⟨h.subjects,h.shares.step hst (by simp) ?_,h.finished,?_⟩
  · intro id' value heq a ha
    cases heq
    obtain rfl : k.subject w = a := by simpa [hw] using ha
    exact h.finished w (mem_of_getElem? hw) (hf rfl)
  · exact fun x hx waiter ha => (h.awaiting x hx waiter ha).step h.shares.sharing hst
/-- A new `Do` call: its work is not finished, and it waits for a work of its own subject. -/
theorem Inv.enter (h : k.Inv known Done c works calls) (hk : Set.InjOn k.key known) (hw : k.subject w ∈ known)
    (hf : ¬ k.finished w) :
    k.Inv known Done (c.enter (k.key (k.subject w)) false)
        (entered c (c.enter (k.key (k.subject w)) false) works w) calls ∧
      WaitsFor (c.enter (k.key (k.subject w)) false)
        ((entered c (c.enter (k.key (k.subject w)) false) works w).map k.subject) c.waiters.length (k.subject w) := by
  refine ⟨⟨forall_mem_entered h.subjects hw,?_,forall_mem_entered h.finished fun hfin => absurd hfin hf,?_⟩,?_⟩
  · rw [map_entered]
    exact h.shares.enter _
  · rw [map_entered]
    exact fun x hx waiter ha => (h.awaiting x hx waiter ha).enter h.shares.sharing _ _
  · rw [map_entered]
    apply h.shares.waitsFor
    intro b hb heq
    obtain ⟨v,hv,rfl⟩ := mem_map.mp hb
    exact hk (h.subjects v hv) hw heq
end Inv
end FlightKind

section Flight
variable [DecidableEq K]
/-- Nobody is in a `Do` call for the key, and the coalescer is open. -/
structure Coalescer.Free (c : Coalescer K Unit) (key : K) : Prop where
  calls : c.calls key = none
  closed : c.closed = none
/-- A `Do` call that nobody joins: the work returns, and its error is that of the call. -/
theorem Coalescer.Free.flight {c : Coalescer K Unit} {key : K} (h : c.Free key) (err : Option GoError) :
    ∃ returned completed claimed, (c.enter key false).workReturns c.shared.length () err = some returned ∧
      returned.complete c.shared.length = some completed ∧ completed.claim c.waiters.length = some claimed ∧
      claimed.result c.waiters.length = some err ∧ claimed.Free key ∧
      claimed.shared.length = c.shared.length + 1 := by
  obtain ⟨hca,hc⟩ := h
  let call : SharedCall K Unit := {
    key, disposer := false, waiters := 1, value := (), worker := .returned () err, canceled := true }
  let calls := Function.update c.calls key (some c.shared.length)
  let returned : Coalescer K Unit := {
    c with shared := c.shared ++ [call], calls, waiters := c.waiters ++ [.waiting c.shared.length] }
  let completed : Coalescer K Unit := {
    returned with shared := c.shared ++ [call.finish none () err], calls := Function.update calls key none }
  let claimed : Coalescer K Unit := {
    completed with
    shared := c.shared ++ [{ call.finish none () err with claimed := true, waiters := 0 }]
    waiters := c.waiters ++ [.returned (.shared c.shared.length () err)] }
  have hr : (c.enter key false).workReturns c.shared.length () err = some returned := by
    simp [enter,hca,hc,workReturns,update,returned,call,calls]
  have hco : returned.complete c.shared.length = some completed := by
    simp [complete,unregister,update,returned,completed,call,calls,hc]
  have hcl : completed.claim c.waiters.length = some claimed := by
    simp [claim,releaseLocked,update,SharedCall.finish,SharedCall.outcome,
      returned,completed,claimed,call]
  exact ⟨returned,completed,claimed,hr,hco,hcl,by simp [result,claimed,Returned.err],
    ⟨by simp [claimed,completed],hc⟩,by simp [claimed]⟩
end Flight
end FlussGo
