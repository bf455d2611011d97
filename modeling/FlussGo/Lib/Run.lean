import Mathlib.Data.List.Basic
import Mathlib.Data.List.Induction
/-!
# Runs of transition systems

Systems given by labelled steps, the states they reach, and the rules for properties of all reachable
states.
-/
namespace FlussGo
open List Option
section Lists
variable {α : Type} {l : List α} {i : Nat} {x y : α}

theorem lt_of_getElem? (h : l[i]? = some x) : i < l.length := (List.getElem?_eq_some_iff.mp h).1

theorem getElem?_append_of (h : l[i]? = some x) (r : List α) : (l ++ r)[i]? = some x := by
  rw [List.getElem?_append_left (lt_of_getElem? h),h]

theorem of_getElem?_concat (h : (l ++ [y])[i]? = some x) : l[i]? = some x ∨ i = l.length ∧ x = y := by
  rw [List.getElem?_append] at h
  split at h
  · exact .inl h
  · obtain ⟨hz,hx⟩ := List.getElem?_eq_some_iff.mp h
    simp only [List.length_singleton] at hz
    exact .inr ⟨by omega,by simpa using hx.symm⟩
end Lists

structure System (σ α : Type) where
  init : σ → Prop
  step : σ → α → σ → Prop

namespace System
variable {σ τ α β : Type} {T : System σ α}

inductive Run (T : System σ α) : σ → List α → σ → Prop
  | nil (s : σ) : Run T s [] s
  | snoc {s s' s'' : σ} {es : List α} {e : α} : Run T s es s' → T.step s' e s'' → Run T s (es ++ [e]) s''

def Reachable (T : System σ α) (s : σ) : Prop := ∃ s₀ es, T.init s₀ ∧ T.Run s₀ es s

theorem Reachable.init {s : σ} (h : T.init s) : T.Reachable s := ⟨s,[],h,.nil s⟩

theorem Reachable.step {s s' : σ} {e : α} (h : T.Reachable s) (hs : T.step s e s') : T.Reachable s' := by
  obtain ⟨s₀,es,hi,hrun⟩ := h
  exact ⟨s₀,es ++ [e],hi,hrun.snoc hs⟩

theorem Run.reachable {s₀ s : σ} {es : List α} (hi : T.init s₀) (h : T.Run s₀ es s) : T.Reachable s :=
  ⟨s₀,es,hi,h⟩

theorem Run.append {s s' s'' : σ} {es es' : List α} (h : T.Run s es s') (h' : T.Run s' es' s'') :
    T.Run s (es ++ es') s'' := by
  induction h' with
  | nil =>
    rw [append_nil]
    exact h
  | snoc _ hs ih =>
    rw [← append_assoc]
    exact ih.snoc hs

theorem Run.of_foldlM {step : σ → α → Option σ} {s s' : σ} {es : List α} (h : es.foldlM step s = some s')
    (hs : ∀ t e t', e ∈ es → step t e = some t' → T.step t e t') : T.Run s es s' := by
  induction es using reverseRecOn generalizing s' with
  | nil =>
    cases h
    exact .nil s
  | append_singleton es e ih =>
    rw [foldlM_append] at h
    obtain ⟨t,ht,h⟩ := bind_eq_some_iff.mp h
    obtain ⟨t',ht',h⟩ := bind_eq_some_iff.mp h
    obtain rfl := some.inj h
    refine .snoc (ih ht fun u e' u' he' => hs u e' u' (mem_append_left _ he')) ?_
    exact hs t e t' (mem_append_right _ mem_cons_self) ht'

theorem Reachable.of_foldlM {step : σ → α → Option σ} {s s' : σ} {es : List α} (hi : T.init s)
    (h : es.foldlM step s = some s') (hs : ∀ t e t', e ∈ es → step t e = some t' → T.step t e t') : T.Reachable s' :=
  Run.reachable hi (.of_foldlM h hs)

theorem exists_of_any {o : Option σ} {p : σ → Bool} (h : o.any p = true) : ∃ s, o = some s ∧ p s = true := by
  cases o with
  | none => simp at h
  | some s => exact ⟨s,rfl,by simpa using h⟩
/-- A played list of events that ends in a state with a decidable property. -/
theorem Reachable.of_foldlM_any {s : σ} (step : σ → α → Option σ) (es : List α) (p : σ → Bool) (hi : T.init s)
    (hs : ∀ t e t', e ∈ es → step t e = some t' → T.step t e t') (h : (es.foldlM step s).any p = true) :
    ∃ s', T.Reachable s' ∧ p s' = true := by
  obtain ⟨s',hpl,hp⟩ := exists_of_any h
  exact ⟨s',.of_foldlM hi hpl hs,hp⟩
/-- Some run goes from one state to the other. -/
def Leads (T : System σ α) (s s' : σ) : Prop := ∃ es, T.Run s es s'

theorem Leads.refl (s : σ) : T.Leads s s := ⟨[],.nil s⟩

theorem Leads.step {s s' s'' : σ} {e : α} (h : T.Leads s s') (hs : T.step s' e s'') : T.Leads s s'' := by
  obtain ⟨es,hrun⟩ := h
  exact ⟨es ++ [e],hrun.snoc hs⟩

theorem Leads.trans {s s' s'' : σ} (h : T.Leads s s') (h' : T.Leads s' s'') : T.Leads s s'' := by
  obtain ⟨es,hrun⟩ := h
  obtain ⟨es',hrun'⟩ := h'
  exact ⟨es ++ es',hrun.append hrun'⟩

theorem Reachable.leads {s s' : σ} (h : T.Reachable s) (h' : T.Leads s s') : T.Reachable s' := by
  obtain ⟨s₀,es,hi,hrun⟩ := h
  obtain ⟨es',hrun'⟩ := h'
  exact Run.reachable hi (hrun.append hrun')
/-- What holds initially and is kept by every step from a reachable state holds of every reachable state. -/
theorem Reachable.invariant {P : σ → Prop} (hi : ∀ s, T.init s → P s)
    (hst : ∀ s e s', T.Reachable s → P s → T.step s e s' → P s') {s : σ} (h : T.Reachable s) : P s := by
  obtain ⟨s₀,es,h₀,hrun⟩ := h
  induction hrun with
  | nil => exact hi _ h₀
  | snoc hrun hs ih => exact hst _ _ _ (Run.reachable h₀ hrun) ih hs
/-- A projection that turns every step into a step or into no change maps reachable states to reachable states. -/
theorem Reachable.map {U : System τ β} (f : σ → τ) (hi : ∀ s, T.init s → U.init (f s))
    (hst : ∀ s e s', T.Reachable s → T.step s e s' → f s' = f s ∨ ∃ e', U.step (f s) e' (f s')) {s : σ}
    (h : T.Reachable s) : U.Reachable (f s) := by
  apply Reachable.invariant (P := fun s => U.Reachable (f s)) (fun s hs => .init (hi s hs)) _ h
  intro s e s' hr hu hs
  rcases hst s e s' hr hs with heq | ⟨e',hst'⟩
  · rw [heq]
    exact hu
  · exact hu.step hst'
/-- However the chosen kind of steps goes on, a state with the property is reached. -/
inductive Inevitable (T : System σ α) (C : α → Prop) (P : σ → Prop) : σ → Prop
  | now {s : σ} (h : P s) : Inevitable T C P s
  | later {s : σ} (hcan : ∃ e s', C e ∧ T.step s e s') (hall : ∀ e s', C e → T.step s e s' → Inevitable T C P s') :
      Inevitable T C P s
/-- Steps that lower a rank, and can be taken as long as the property does not hold. -/
theorem Reachable.inevitable {C : α → Prop} {P : σ → Prop} (rank : σ → Nat)
    (hl : ∀ s e s', T.Reachable s → C e → T.step s e s' → rank s' < rank s)
    (hcan : ∀ s, T.Reachable s → P s ∨ ∃ e s', C e ∧ T.step s e s') {s : σ} (h : T.Reachable s) :
    T.Inevitable C P s := by
  induction hn : rank s using Nat.strongRecOn generalizing s with
  | ind n ih =>
    rcases hcan s h with hp | hne
    · exact .now hp
    · refine .later hne fun e s' he hs => ?_
      exact ih (rank s') (hn ▸ hl s e s' h he hs) (h.step hs) rfl
/-- The runs whose steps all meet a condition on the state before them. -/
def guarded (T : System σ α) (C : σ → α → Prop) : System σ α where
  init := T.init
  step s e s' := T.step s e s' ∧ C s e
/-- A step function that refuses what a condition excludes. -/
def barred (bad : σ → α → Bool) (step : σ → α → Option σ) (s : σ) (e : α) : Option σ :=
  if bad s e then none else step s e

theorem guarded_of_barred {bad : σ → α → Bool} {step : σ → α → Option σ} {s s' : σ} {e : α}
    (hs : step s e = some s' → T.step s e s') (h : barred bad step s e = some s') :
    (T.guarded fun s e => bad s e = false).step s e s' := by
  unfold barred at h
  split at h
  · simp at h
  next hg => exact ⟨hs h,by simpa using hg⟩

theorem Reachable.of_guarded {C : σ → α → Prop} {s : σ} (h : (T.guarded C).Reachable s) : T.Reachable s := by
  refine Reachable.map (T := T.guarded C) (U := T) (fun s => s) (fun _ hs => hs) ?_ h
  intro s e s' _ hs
  exact .inr ⟨e,hs.1⟩
end System
end FlussGo
