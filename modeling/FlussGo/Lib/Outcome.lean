import Mathlib.Control.Basic
/-!
# Outcomes of Go calls

A call returns a value, returns an error, or stops the goroutine with a run-time panic.
`Outcome.Sat` excludes the panics and says nothing about the returned errors.
-/
namespace FlussGo
/-- The run-time panics that modelled code can raise. -/
inductive RuntimePanic where
  | nilDereference
  | typeAssertion
  | outOfRange
  | makeSlice
  /-- A panic that a library raises itself. -/
  | library
deriving DecidableEq

inductive Outcome (ε α : Type) where
  | ok (value : α)
  | err (error : ε)
  | panic (cause : RuntimePanic)
deriving DecidableEq

namespace Outcome
variable {ε α β γ : Type} {x : Outcome ε α} {P : α → Prop} {f : α → Outcome ε β} {p : ε → Prop} {b : β}

protected def bind : Outcome ε α → (α → Outcome ε β) → Outcome ε β
  | ok a, f => f a
  | err e, _ => err e
  | panic p, _ => panic p

def isOk : Outcome ε α → Bool
  | ok _ => true
  | _ => false

theorem isOk_iff : x.isOk = true ↔ ∃ a, x = ok a := by
  cases x <;> simp [isOk]

def isErr : Outcome ε α → Bool
  | err _ => true
  | _ => false

theorem isErr_iff : x.isErr = true ↔ ∃ e, x = err e := by
  cases x <;> simp [isErr]

instance : Monad (Outcome ε) where
  pure := ok
  bind := Outcome.bind

@[simp] theorem pure_eq (a : α) : (pure a : Outcome ε α) = ok a := rfl
@[simp] theorem bind_ok (a : α) (f : α → Outcome ε β) : (ok a >>= f) = f a := rfl
@[simp] theorem bind_err (e : ε) (f : α → Outcome ε β) : ((err e : Outcome ε α) >>= f) = err e := rfl
@[simp] theorem bind_panic (p : RuntimePanic) (f : α → Outcome ε β) : ((panic p : Outcome ε α) >>= f) = panic p := rfl

instance : LawfulMonad (Outcome ε) := LawfulMonad.mk' _
  (by intro α x; cases x <;> rfl)
  (by intro α β a f; rfl)
  (by intro α β γ x f g; cases x <;> rfl)

@[simp] theorem map_ok (f : α → β) (a : α) : f <$> (ok a : Outcome ε α) = ok (f a) := rfl
@[simp] theorem map_err (f : α → β) (e : ε) : f <$> (err e : Outcome ε α) = err e := rfl
@[simp] theorem map_panic (f : α → β) (p : RuntimePanic) : f <$> (panic p : Outcome ε α) = panic p := rfl

theorem bind_eq_ok : (x >>= f) = ok b ↔ ∃ a, x = ok a ∧ f a = ok b := by
  cases x <;> simp

theorem of_bind (h : (x >>= f) = ok b) : ∃ a, x = ok a ∧ f a = ok b := bind_eq_ok.mp h

theorem bind_unit_eq_ok {x : Outcome ε Unit} {f : Unit → Outcome ε β} :
    (x >>= f) = ok b ↔ x = ok () ∧ f () = ok b := by
  cases x <;> simp

theorem of_seq {x : Outcome ε Unit} {f : Unit → Outcome ε β} (h : (x >>= f) = ok b) : x = ok () ∧ f () = ok b :=
  bind_unit_eq_ok.mp h

theorem of_guard {c : Prop} [Decidable c] {e : ε} {a : α} (h : (if c then err e else x) = ok a) : ¬c ∧ x = ok a := by
  split at h
  · simp at h
  · exact ⟨‹_›,h⟩

theorem map_eq_ok {f : α → β} : f <$> x = ok b ↔ ∃ a, x = ok a ∧ f a = b := by
  cases x <;> simp

theorem bind_eq_err {e : ε} : (x >>= f) = err e ↔ x = err e ∨ ∃ a, x = ok a ∧ f a = err e := by
  cases x <;> simp
/-- Rewraps a returned error, as `fmt.Errorf` with `%w` does. -/
def mapErr (f : ε → ε) : Outcome ε α → Outcome ε α
  | ok a => ok a
  | err e => err (f e)
  | panic p => panic p

@[simp] theorem mapErr_ok (f : ε → ε) (a : α) : mapErr f (ok a : Outcome ε α) = ok a := rfl
@[simp] theorem mapErr_err (f : ε → ε) (e : ε) : mapErr f (err e : Outcome ε α) = err (f e) := rfl
@[simp] theorem mapErr_panic (f : ε → ε) (p : RuntimePanic) : mapErr f (panic p : Outcome ε α) = panic p := rfl

theorem mapErr_eq_ok {f : ε → ε} {a : α} : mapErr f x = ok a ↔ x = ok a := by
  cases x <;> simp
/-- The call does not panic, and a returned value satisfies `P`. -/
def Sat (x : Outcome ε α) (P : α → Prop) : Prop :=
  match x with
  | ok a => P a
  | err _ => True
  | panic _ => False
/-- The call does not panic. -/
abbrev Safe (x : Outcome ε α) : Prop := x.Sat fun _ => True

@[simp] theorem sat_ok (a : α) (P : α → Prop) : Sat (ok a : Outcome ε α) P ↔ P a := Iff.rfl
@[simp] theorem sat_err (e : ε) (P : α → Prop) : Sat (err e : Outcome ε α) P := trivial
@[simp] theorem sat_panic (p : RuntimePanic) (P : α → Prop) : Sat (panic p : Outcome ε α) P ↔ False := Iff.rfl

theorem Sat.bind {Q : β → Prop} (hx : Sat x P) (hf : ∀ a, x = ok a → P a → Sat (f a) Q) : Sat (x >>= f) Q := by
  cases x with
  | ok a => exact hf a rfl hx
  | err e => trivial
  | panic p => exact hx.elim

theorem Sat.mono {Q : α → Prop} (hx : Sat x P) (h : ∀ a, P a → Q a) : Sat x Q := by
  cases x with
  | ok a => exact h a hx
  | err e => trivial
  | panic p => exact hx.elim

theorem Sat.mapErr {f : ε → ε} (hx : Sat x P) : Sat (x.mapErr f) P := by
  cases x <;> simp_all

theorem Sat.of_ok {a : α} (hx : Sat x P) (h : x = ok a) : P a := by
  subst h
  exact hx

theorem Sat.ne_panic (hx : Sat x P) (p : RuntimePanic) : x ≠ panic p := by
  rintro rfl
  exact hx

theorem Sat.ok_or_err (hx : Sat x P) : (∃ a, x = ok a) ∨ ∃ e, x = err e := by
  cases x with
  | ok a => exact .inl ⟨a,rfl⟩
  | err e => exact .inr ⟨e,rfl⟩
  | panic p => exact hx.elim

section Panics
/-- The call ends in a run-time panic. -/
def Panics (x : Outcome ε α) : Prop := ∃ p, x = panic p

theorem not_panics_ok (a : α) : ¬(ok a : Outcome ε α).Panics := by
  simp [Panics]

theorem Sat.not_panics (hx : Sat x P) : ¬x.Panics := fun ⟨p,h⟩ => hx.ne_panic p h

theorem safe_iff : x.Safe ↔ ¬x.Panics := by
  cases x <;> simp [Panics]
/-- The call panics exactly when `bad` holds, and a returned value satisfies `P`. -/
def Exact (x : Outcome ε α) (bad : Prop) (P : α → Prop) : Prop := (x.Panics ↔ bad) ∧ ∀ a, x = ok a → P a

theorem Sat.exact {bad : Prop} (hx : Sat x P) (h : ¬bad) : x.Exact bad P :=
  ⟨iff_of_false hx.not_panics h,fun _ => hx.of_ok⟩

theorem Exact.bind {bad : Prop} {Q : β → Prop} (hx : x.Exact bad P) (hf : ∀ a, P a → (f a).Sat Q) :
    (x >>= f).Exact bad Q := by
  cases x with
  | ok a => exact (hf a (hx.2 a rfl)).exact fun h => not_panics_ok a (hx.1.mpr h)
  | err e => exact ⟨by simpa [Panics] using hx.1,by simp⟩
  | panic p => exact ⟨by simpa [Panics] using hx.1,by simp⟩

theorem Exact.mapErr {bad : Prop} {f : ε → ε} (hx : x.Exact bad P) : (x.mapErr f).Exact bad P := by
  cases x <;> simpa [Exact,Panics] using hx
/-- A loop whose iterations panic exactly at the bad elements, and else go on or return an error. -/
structure Iterates {σ : Type} (loop : List α → σ → Outcome ε β) (inv : List α → σ → Prop) (bad : α → Prop) : Prop where
  nil : ∀ s, (loop [] s).isOk = true
  step : ∀ {x xs s}, inv (x :: xs) s →
    ∃ next : Outcome ε σ, next.Exact (bad x) (inv xs) ∧ ∀ ys, loop (x :: ys) s = next >>= loop ys

variable {σ : Type} {loop : List α → σ → Outcome ε β} {inv : List α → σ → Prop} {bad : α → Prop} {xs : List α} {s : σ}
/-- The loop panics when the first element that it does not get past is bad. -/
theorem Iterates.panics_iff (h : Iterates loop inv bad) (hi : inv xs s) :
    (loop xs s).Panics ↔ ∃ n x, xs[n]? = some x ∧ bad x ∧ (loop (xs.take n) s).isOk = true := by
  induction xs generalizing s with
  | nil =>
    obtain ⟨b,hb⟩ := isOk_iff.mp (h.nil s)
    simp [hb,Panics]
  | cons x xs ih =>
    obtain ⟨next,⟨hbad,hinv⟩,hstep⟩ := h.step hi
    cases next with
    | ok s' =>
      rw [hstep,bind_ok,ih (hinv s' rfl)]
      constructor
      · rintro ⟨n,y,hn,hy,hok⟩
        exact ⟨n + 1,y,hn,hy,by rwa [List.take_succ_cons,hstep]⟩
      · rintro ⟨n,y,hn,hy,hok⟩
        cases n with
        | zero => exact absurd (hbad.mpr (Option.some.inj hn ▸ hy)) (not_panics_ok s')
        | succ n => exact ⟨n,y,hn,hy,by rwa [List.take_succ_cons,hstep] at hok⟩
    | err e =>
      refine iff_of_false (by simp [hstep,Panics]) ?_
      rintro ⟨n,y,hn,hy,hok⟩
      cases n with
      | zero => exact absurd (hbad.mpr (Option.some.inj hn ▸ hy)) (by simp [Panics])
      | succ n => simp [hstep,isOk] at hok
    | panic p => exact iff_of_true (by simp [hstep,Panics]) ⟨0,x,rfl,hbad.mp ⟨p,rfl⟩,h.nil s⟩

theorem Iterates.not_bad (h : Iterates loop inv bad) (hi : inv xs s) {b : β} (hok : loop xs s = ok b) :
    ∀ x ∈ xs, ¬bad x := by
  induction xs generalizing s with
  | nil => simp
  | cons x xs ih =>
    obtain ⟨next,⟨hbad,hinv⟩,hstep⟩ := h.step hi
    rw [hstep] at hok
    obtain ⟨s',rfl,hok⟩ := of_bind hok
    exact List.forall_mem_cons.mpr ⟨fun hx => not_panics_ok s' (hbad.mpr hx),ih (hinv s' rfl) hok⟩
end Panics
/-- Every error that the call may return satisfies `p`. -/
def Errs (x : Outcome ε α) (p : ε → Prop) : Prop := ∀ e, x = err e → p e

theorem errs_ok (a : α) (p : ε → Prop) : Errs (ok a : Outcome ε α) p := fun _ h => by simp at h

theorem errs_panic (cause : RuntimePanic) (p : ε → Prop) : Errs (panic cause : Outcome ε α) p := fun _ h => by simp at h

theorem errs_err {e : ε} (h : p e) : Errs (err e : Outcome ε α) p := fun _ heq => err.inj heq ▸ h

theorem Errs.bind (hx : x.Errs p) (hf : ∀ a, (f a).Errs p) : (x >>= f).Errs p := by
  cases x with
  | ok a => exact hf a
  | err e => exact fun e' h => hx e' (congrArg err (err.inj h))
  | panic cause => exact errs_panic cause p

theorem Errs.mapErr {f : ε → ε} (hf : ∀ e, p (f e)) : (x.mapErr f).Errs p := by
  cases x with
  | ok a => exact errs_ok a p
  | err e => exact errs_err (hf e)
  | panic cause => exact errs_panic cause p

theorem errs_ite {c : Prop} [Decidable c] {y : Outcome ε α} (hx : x.Errs p) (hy : y.Errs p) :
    (if c then x else y).Errs p := by
  split <;> assumption
end Outcome
end FlussGo
