import FlussGo.Coalesce.Calls
import FlussGo.Lib.Update
import Mathlib.Tactic.Common
/-!
# Sharing of one run of the work

An unfinished call that somebody waits for is the one registered under its key, its work is not canceled,
and everybody who returns through its completion returns the same outcome.
-/
namespace FlussGo
open List Option Coalescer SharedCall Function
variable {K V : Type}

def Waiter.waitsFor (id : Nat) : Waiter V → Bool
  | .waiting call => call == id
  | _ => false

namespace Coalescer
/-- The number of `Do` calls that wait for a shared call. -/
def waiting (c : Coalescer K V) (id : Nat) : Nat := c.waiters.countP (Waiter.waitsFor id)
end Coalescer
/-- What holds of every shared call. -/
structure CallInv (c : Coalescer K V) (id : Nat) (call : SharedCall K V) : Prop where
  counted : call.waiters = c.waiting id
  registered : c.calls call.key = some id ↔ call.completed = false ∧ 0 < call.waiters
  worker : call.completed = false ↔ call.worker = .running ∨ ∃ value err, call.worker = .returned value err
  canceled : call.worker = .running → call.canceled = true → call.waiters = 0 ∨ c.closed.isSome = true
  unclaimed : call.completed = false → call.claimed = false

def WaiterInv [Inhabited V] (c : Coalescer K V) : Waiter V → Prop
  | .waiting id => ∃ call, c.shared[id]? = some call
  | .disposing id _ => ∃ call, c.shared[id]? = some call ∧ call.completed = true
  | .returned (.shared id value err) =>
    ∃ call, c.shared[id]? = some call ∧ call.completed = true ∧ value = call.outcome.1 ∧ err = call.outcome.2
  | .returned _ => True

structure SharingInv [Inhabited V] (c : Coalescer K V) : Prop where
  calls : ∀ id call, c.shared[id]? = some call → CallInv c id call
  keys : ∀ key id, c.calls key = some id → ∃ call, c.shared[id]? = some call ∧ call.key = key
  waiters : ∀ w ∈ c.waiters, WaiterInv c w
/-- A step that changes one shared call, and nothing of the others. -/
structure Touches (c c' : Coalescer K V) (id : Nat) (call call' : SharedCall K V) : Prop where
  before : c.shared[id]? = some call
  shared : c'.shared = c.shared.set id call'
  key : call'.key = call.key
  settled : call.completed = true → call'.completed = true ∧ call'.value = call.value ∧ call'.err = call.err
  closed : c'.closed = c.closed
  others : ∀ key other, other ≠ id → (c'.calls key = some other ↔ c.calls key = some other)
  own : ∀ key, c'.calls key = some id → c.calls key = some id

section Invariant
variable {c c' : Coalescer K V} {id : Nat} {call call' : SharedCall K V}

theorem Touches.after (h : Touches c c' id call call') : c'.shared[id]? = some call' := by
  have hlt : id < c.shared.length := (List.getElem?_eq_some_iff.mp h.before).1
  rw [h.shared,getElem?_set_self hlt]

theorem Touches.other (h : Touches c c' id call call') {other : Nat} (hne : other ≠ id) :
    c'.shared[other]? = c.shared[other]? := by
  rw [h.shared,getElem?_set_ne (Ne.symm hne)]

variable [Inhabited V]

theorem Touches.outcome (h : Touches c c' id call call') (hc : call.completed = true) :
    call'.outcome = call.outcome := by
  obtain ⟨-,hv,herr⟩ := h.settled hc
  simp only [SharedCall.outcome,hv,herr]

theorem WaiterInv.mono {w : Waiter V} (hw : WaiterInv c w)
    (h : ∀ (id : Nat) before, c.shared[id]? = some before → ∃ now, c'.shared[id]? = some now ∧
      (before.completed = true → now.completed = true ∧ now.outcome = before.outcome)) : WaiterInv c' w := by
  cases w with
  | waiting other =>
    obtain ⟨before,hb⟩ := hw
    obtain ⟨now,hnow,-⟩ := h other before hb
    exact ⟨now,hnow⟩
  | disposing other err =>
    obtain ⟨before,hb,hc⟩ := hw
    obtain ⟨now,hnow,hs⟩ := h other before hb
    exact ⟨now,hnow,(hs hc).1⟩
  | returned result =>
    cases result with
    | refused err => trivial
    | left other err => trivial
    | shared other value err =>
      obtain ⟨before,hb,hc,hv,herr⟩ := hw
      obtain ⟨now,hnow,hs⟩ := h other before hb
      obtain ⟨hd,hsa⟩ := hs hc
      rw [← hsa] at hv herr
      exact ⟨now,hnow,hd,hv,herr⟩

theorem Touches.waiterInv (h : Touches c c' id call call') {w : Waiter V} (hw : WaiterInv c w) : WaiterInv c' w := by
  refine WaiterInv.mono hw fun other before hb => ?_
  by_cases hne : other = id
  · subst hne
    cases h.before.symm.trans hb
    exact ⟨call',h.after,fun hc => ⟨(h.settled hc).1,h.outcome hc⟩⟩
  · exact ⟨before,(h.other hne).trans hb,fun hc => ⟨hc,rfl⟩⟩

theorem Touches.inv (h : Touches c c' id call call') (hinv : SharingInv c)
    (hwa : ∀ other, other ≠ id → c'.waiting other = c.waiting other) (hc : CallInv c' id call')
    (hwai : ∀ w ∈ c'.waiters, w ∈ c.waiters ∨ WaiterInv c' w) : SharingInv c' where
  calls other now hnow := by
    by_cases hne : other = id
    · subst hne
      cases h.after.symm.trans hnow
      exact hc
    · rw [h.other hne] at hnow
      have hold := hinv.calls other now hnow
      exact ⟨hold.counted.trans (hwa other hne).symm,(h.others now.key other hne).trans hold.registered,
        hold.worker,by rw [h.closed]; exact hold.canceled,hold.unclaimed⟩
  keys key other hkey := by
    by_cases hne : other = id
    · subst hne
      obtain ⟨before,hb,hk⟩ := hinv.keys key other (h.own key hkey)
      cases h.before.symm.trans hb
      exact ⟨call',h.after,h.key.trans hk⟩
    · obtain ⟨now,hnow,hk⟩ := hinv.keys key other ((h.others key other hne).mp hkey)
      exact ⟨now,(h.other hne).trans hnow,hk⟩
  waiters w hw := by
    rcases hwai w hw with hold | hnew
    · exact h.waiterInv (hinv.waiters w hold)
    · exact hnew

theorem Touches.inv_quiet (h : Touches c c' id call call') (hinv : SharingInv c) (hw : c'.waiters = c.waiters)
    (hc : c'.waiting id = c.waiting id → CallInv c' id call') : SharingInv c' :=
  have hwa : ∀ other, c'.waiting other = c.waiting other := fun _ => by rw [waiting,waiting,hw]
  h.inv hinv (fun other _ => hwa other) (hc (hwa id)) fun _ hx => .inl (hw ▸ hx)
end Invariant

section Waiting
variable {c c' : Coalescer K V} {id w : Nat} {x y : Waiter V}

theorem waiting_set_self (hx : c.waiters[w]? = some (.waiting id)) (hy : y.waitsFor id = false) :
    (c.waiters.set w y).countP (Waiter.waitsFor id) = c.waiting id - 1 := by
  have := countP_set_of_getElem? (p := Waiter.waitsFor id) hx y
  simp only [hy] at this
  simp only [Waiter.waitsFor,beq_self_eq_true,if_true] at this
  unfold waiting
  simp only [Bool.false_eq_true,if_false] at this
  omega

theorem waiting_set_other {p : Waiter V → Bool} (hx : c.waiters[w]? = some x) (hpx : p x = p y) :
    (c.waiters.set w y).countP p = c.waiters.countP p := by
  have := countP_set_of_getElem? (p := p) hx y
  rw [hpx] at this
  omega

theorem waiting_pos (hx : c.waiters[w]? = some (.waiting id)) : 0 < c.waiting id :=
  countP_pos_iff.mpr ⟨_,mem_of_getElem? hx,by simp [Waiter.waitsFor]⟩

theorem waiting_append (c : Coalescer K V) (w : Waiter V) (id : Nat) :
    (c.waiters ++ [w]).countP (Waiter.waitsFor id) = c.waiting id + if w.waitsFor id then 1 else 0 := by
  rw [countP_append,countP_singleton]
  rfl
end Waiting

section Steps
variable {c c' : Coalescer K V} {id w : Nat} {call call' : SharedCall K V} {err : Option GoError} {key : K}

@[simp] theorem update_shared : (c.update id call).shared = c.shared.set id call := rfl
@[simp] theorem update_calls : (c.update id call).calls = c.calls := rfl
@[simp] theorem update_closed : (c.update id call).closed = c.closed := rfl
@[simp] theorem update_waiters : (c.update id call).waiters = c.waiters := rfl

theorem close_getElem? (h : (c.close err).shared[id]? = some call') : ∃ call, c.shared[id]? = some call ∧
      call' = { call with canceled := call.canceled || (c.closed.isNone && decide (c.calls call.key = some id)) } := by
  unfold close at h
  split at h
  next hc => exact ⟨call',h,by simp [hc]⟩
  rename_i hc
  rw [getElem?_mapIdx] at h
  obtain ⟨call,hget,rfl⟩ := map_eq_some_iff.mp h
  refine ⟨call,hget,?_⟩
  by_cases hca : c.calls call.key = some id <;> simp [hca,hc]

theorem close_getElem?_of (h : c.shared[id]? = some call) :
    ∃ canceled, (c.close err).shared[id]? = some { call with canceled } := by
  unfold close
  split
  · exact ⟨call.canceled,h⟩
  · simp only [getElem?_mapIdx,h,map_some]
    by_cases hc : c.calls call.key = some id
    · exact ⟨true,by simp [hc]⟩
    · exact ⟨call.canceled,by simp [hc]⟩

@[simp] theorem close_calls (c : Coalescer K V) (err : Option GoError) : (c.close err).calls = c.calls := by
  unfold close
  split <;> rfl

@[simp] theorem close_waiters (c : Coalescer K V) (err : Option GoError) : (c.close err).waiters = c.waiters := by
  unfold close
  split <;> rfl

theorem close_closed (c : Coalescer K V) (err : Option GoError) : (c.close err).closed.isSome = true := by
  unfold close
  split
  next hc =>
    simp [hc]
  · rfl

theorem touches_update (hca : c.shared[id]? = some call) (hsh : c'.shared = c.shared.set id call')
    (hc : c'.calls = c.calls) (hcl : c'.closed = c.closed) (hkey : call'.key = call.key)
    (hs : call.completed = true → call'.completed = true ∧ call'.value = call.value ∧ call'.err = call.err) :
    Touches c c' id call call' :=
  ⟨hca,hsh,hkey,hs,hcl,by simp [hc],by simp [hc]⟩

theorem workReturns_touches {value : V} (h : c.workReturns id value err = some c') : ∃ call, call.worker = .running ∧
      Touches c c' id call { call with worker := .returned value err, canceled := true } ∧
      c'.calls = c.calls ∧ c'.waiters = c.waiters := by
  obtain ⟨call,hc,h⟩ := bind_eq_some_iff.mp h
  split at h
  next hw =>
    cases h
    exact ⟨call,hw,touches_update hc rfl rfl rfl rfl (fun h => ⟨h,rfl,rfl⟩),rfl,rfl⟩
  · simp at h

theorem dispose_touches (h : c.dispose id = some c') : ∃ call, call.worker = .disposing ∧
      Touches c c' id call { call with worker := .ended, disposed := call.disposed ++ [call.value] } ∧
      c'.calls = c.calls ∧ c'.waiters = c.waiters := by
  obtain ⟨call,hc,h⟩ := bind_eq_some_iff.mp h
  split at h
  next hw =>
    cases h
    exact ⟨call,hw,touches_update hc rfl rfl rfl rfl (fun h => ⟨h,rfl,rfl⟩),rfl,rfl⟩
  · simp at h

theorem drop_touches (h : c.drop w = some c') : ∃ id err call, c.waiters[w]? = some (.disposing id err) ∧
      Touches c c' id call { call with disposed := call.disposed ++ [call.value] } ∧
      c'.calls = c.calls ∧ c'.waiters = c.waiters.set w (.returned (.left id err)) := by
  unfold Coalescer.drop at h
  split at h
  next id err hw =>
    obtain ⟨call,hc,h⟩ := bind_eq_some_iff.mp h
    cases h
    exact ⟨id,err,call,hw,touches_update hc rfl rfl rfl rfl (fun h => ⟨h,rfl,rfl⟩),rfl,rfl⟩
  · simp at h

variable [DecidableEq K]

@[simp] theorem unregister_shared (key : K) : (c.unregister id key).shared = c.shared := by
  unfold unregister
  split <;> rfl

@[simp] theorem unregister_closed (key : K) : (c.unregister id key).closed = c.closed := by
  unfold unregister
  split <;> rfl

@[simp] theorem unregister_waiters (key : K) : (c.unregister id key).waiters = c.waiters := by
  unfold unregister
  split <;> rfl

theorem unregister_calls_other {k : K} {other : Nat} (hne : other ≠ id) :
    (c.unregister id key).calls k = some other ↔ c.calls k = some other := by
  unfold unregister
  split
  next hc =>
    by_cases hk : k = key
    · subst hk
      simp [hc,Ne.symm hne]
    · simp [update_of_ne hk]
  · rfl

theorem unregister_calls_own : (c.unregister id key).calls key ≠ some id := by
  unfold unregister
  split
  · simp
  · assumption

theorem unregister_calls_sub {k : K} {other : Nat} (h : (c.unregister id key).calls k = some other) :
    c.calls k = some other := by
  by_cases hne : other = id
  · subst hne
    unfold unregister at h
    split at h
    · by_cases hk : k = key
      · subst hk
        simp at h
      · simpa [update_of_ne hk] using h
    · exact h
  · exact (unregister_calls_other hne).mp h

theorem touches_unregister (hcal : c.shared[id]? = some call) (hsh : c'.shared = c.shared.set id call')
    (hca : c'.calls = (c.unregister id call.key).calls) (hcl : c'.closed = c.closed) (hkey : call'.key = call.key)
    (hs : call.completed = true → call'.completed = true ∧ call'.value = call.value ∧ call'.err = call.err) :
    Touches c c' id call call' := by
  refine ⟨hcal,hsh,hkey,hs,hcl,?_,?_⟩
  · intro key other hne
    rw [hca]
    exact unregister_calls_other hne
  · intro key hc
    rw [hca] at hc
    exact unregister_calls_sub hc

theorem complete_touches [Inhabited V] (hinv : SharingInv c) (h : c.complete id = some c') :
    ∃ call value err, call.worker = .returned value err ∧ call.completed = false ∧
      Touches c c' id call (call.finish c.closed value err) ∧
      c'.calls = (c.unregister id call.key).calls ∧ c'.waiters = c.waiters := by
  obtain ⟨call,hc,h⟩ := bind_eq_some_iff.mp h
  split at h
  next value err hw =>
    cases h
    have ho : call.completed = false := (hinv.calls id call hc).worker.mpr (.inr ⟨value,err,hw⟩)
    refine ⟨call,value,err,hw,ho,?_,rfl,by simp⟩
    exact touches_unregister hc (by simp) rfl (by simp) rfl (by simp [ho])
  · simp at h

theorem claim_touches [Inhabited V] (h : c.claim w = some c') :
    ∃ id call, c.waiters[w]? = some (.waiting id) ∧ call.completed = true ∧
      Touches c c' id call { call with claimed := true, waiters := call.waiters - 1 } ∧
      c'.calls = c.calls ∧
      c'.waiters = c.waiters.set w (.returned (.shared id call.outcome.1 call.outcome.2)) := by
  unfold claim at h
  split at h
  next id hw =>
    obtain ⟨call,hc,h⟩ := bind_eq_some_iff.mp h
    split at h
    next hd =>
      have hr : c.releaseLocked id { call with claimed := true } =
          (c.update id { call with claimed := true, waiters := call.waiters - 1 }, false) := by
        unfold releaseLocked
        by_cases hl : call.waiters - 1 = 0 <;> simp [hl,hd]
      simp only [hr,some.injEq] at h
      subst h
      exact ⟨id,call,hw,hd,touches_update hc rfl rfl rfl rfl (fun h => ⟨h,rfl,rfl⟩),rfl,rfl⟩
    · simp at h
  · simp at h
/-- A waiter that leaves is not the last one, or the last one of an unfinished call, or the last one of
a finished call. -/
theorem leave_touches {err : GoError} (h : c.leave w err = some c') : ∃ id call, c.waiters[w]? = some (.waiting id) ∧
      (call.waiters - 1 ≠ 0 ∧ Touches c c' id call { call with waiters := call.waiters - 1 } ∧
          c'.calls = c.calls ∧ c'.waiters = c.waiters.set w (.returned (.left id err)) ∨
        call.waiters - 1 = 0 ∧ call.completed = false ∧
          Touches c c' id call { call with waiters := 0, canceled := true } ∧
          c'.calls = (c.unregister id call.key).calls ∧ c'.waiters = c.waiters.set w (.returned (.left id err)) ∨
        call.waiters - 1 = 0 ∧ call.completed = true ∧ Touches c c' id call { call with waiters := 0 } ∧
          c'.calls = c.calls ∧ c'.waiters = c.waiters.set w (if !call.claimed && call.succeeded && call.disposer then
            .disposing id err else .returned (.left id err))) := by
  unfold leave at h
  split at h
  next id hw =>
    obtain ⟨call,hc,h⟩ := bind_eq_some_iff.mp h
    refine ⟨id,call,hw,?_⟩
    by_cases hl : call.waiters - 1 = 0
    · rcases (Bool.eq_false_or_eq_true call.completed).symm with hd | hd
      · simp only [releaseLocked,hl,hd,ne_eq,not_true,if_false,Bool.not_false,if_true,Bool.false_eq_true,
          some.injEq] at h
        subst h
        exact .inr (.inl ⟨hl,hd,touches_unregister hc (by simp [hd]) rfl (by simp) rfl (fun h => ⟨h,rfl,rfl⟩),rfl,rfl⟩)
      · simp only [releaseLocked,hl,hd,ne_eq,not_true,if_false,Bool.not_true,Bool.false_eq_true,
          some.injEq] at h
        subst h
        exact .inr (.inr ⟨hl,hd,touches_update hc (by simp [hd]) rfl rfl rfl (fun h => ⟨h,rfl,rfl⟩),rfl,rfl⟩)
    · simp only [releaseLocked,ne_eq,hl,not_false_eq_true,if_true,Bool.false_eq_true,if_false,
        some.injEq] at h
      subst h
      exact .inl ⟨hl,touches_update hc rfl rfl rfl rfl (fun h => ⟨h,rfl,rfl⟩),rfl,rfl⟩
  · simp at h
/-- Once the coalescer is closed a step changes one shared call at most, and one that it completes gets
the close error. -/
theorem closed_step [Inhabited V] {e : CoalescerEvent K V} (hinv : SharingInv c) (hc : c.closed.isSome = true)
    (h : c.step e = some c') : c'.shared = c.shared ∧ c'.closed = c.closed ∨
      ∃ id call call', Touches c c' id call call' ∧
        (call'.completed = true → call.completed = true ∨ call'.err = c.closed) := by
  obtain ⟨err,herr⟩ := isSome_iff_exists.mp hc
  cases e with
  | enter key disposer =>
    cases h
    left
    simp [enter,herr]
  | workReturns id value err =>
    obtain ⟨call,-,ht,-⟩ := workReturns_touches h
    exact .inr ⟨id,call,_,ht,.inl⟩
  | complete id =>
    obtain ⟨call,value,err,-,-,ht,-⟩ := complete_touches hinv h
    exact .inr ⟨id,call,_,ht,fun _ => .inr (by simp [finish,hc])⟩
  | dispose id =>
    obtain ⟨call,-,ht,-⟩ := dispose_touches h
    exact .inr ⟨id,call,_,ht,.inl⟩
  | claim w =>
    obtain ⟨id,call,-,-,ht,-⟩ := claim_touches h
    exact .inr ⟨id,call,_,ht,.inl⟩
  | leave w err =>
    obtain ⟨id,call,-,⟨-,ht,-⟩ | ⟨-,-,ht,-⟩ | ⟨-,-,ht,-⟩⟩ := leave_touches h
    · exact .inr ⟨id,call,_,ht,.inl⟩
    · exact .inr ⟨id,call,_,ht,.inl⟩
    · exact .inr ⟨id,call,_,ht,.inl⟩
  | drop w =>
    obtain ⟨id,err,call,-,ht,-⟩ := drop_touches h
    exact .inr ⟨id,call,_,ht,.inl⟩
  | close err =>
    cases h
    left
    simp [close,herr]
end Steps

section Preservation
variable [Inhabited V] {c c' : Coalescer K V} {id w : Nat} {call call' : SharedCall K V} {err : GoError} {key : K}

private theorem workReturns_inv {value : V} {err : Option GoError} (hinv : SharingInv c)
    (h : c.workReturns id value err = some c') : SharingInv c' := by
  obtain ⟨call,hwo,ht,hc,hw⟩ := workReturns_touches h
  have hold := hinv.calls id call ht.before
  have ho : call.completed = false := hold.worker.mpr (.inl hwo)
  refine ht.inv_quiet hinv hw fun hwa => ⟨hold.counted.trans hwa.symm,?_,by simp [ho],by simp,hold.unclaimed⟩
  simpa only [hc] using hold.registered

private theorem dispose_inv (hinv : SharingInv c) (h : c.dispose id = some c') : SharingInv c' := by
  obtain ⟨call,hwo,ht,hc,hw⟩ := dispose_touches h
  have hold := hinv.calls id call ht.before
  have hd : call.completed = true := by
    by_contra ho
    have := hold.worker.mp (by simpa using ho)
    simp [hwo] at this
  refine ht.inv_quiet hinv hw fun hwa => ⟨hold.counted.trans hwa.symm,?_,by simp [hd],by simp,hold.unclaimed⟩
  simpa only [hc] using hold.registered

private theorem mem_waiters_set {ws : List (Waiter V)} {x y : Waiter V} (hws : ws = c.waiters.set w y)
    (hy : WaiterInv c' y) (hx : x ∈ ws) : x ∈ c.waiters ∨ WaiterInv c' x := by
  rw [hws] at hx
  rcases mem_or_eq_of_mem_set hx with hx | rfl
  · exact .inl hx
  · exact .inr hy

variable (hinv : SharingInv c)
include hinv

private theorem drop_inv (h : c.drop w = some c') : SharingInv c' := by
  obtain ⟨id,err,call,hw,ht,hca,hwa⟩ := drop_touches h
  have hold := hinv.calls id call ht.before
  have hc : ∀ other, c'.waiting other = c.waiting other := by
    intro other
    rw [waiting,hwa]
    exact waiting_set_other hw rfl
  apply ht.inv hinv (fun other _ => hc other)
  · refine ⟨hold.counted.trans (hc id).symm,?_,hold.worker,?_,hold.unclaimed⟩
    · simpa only [hca] using hold.registered
    · simpa only [ht.closed] using hold.canceled
  · exact fun x hx => mem_waiters_set hwa (by trivial) hx

private theorem waiting_length : c.waiting c.shared.length = 0 := by
  apply countP_eq_zero.mpr
  intro w hw hwa
  cases w with
  | waiting id =>
    obtain rfl : id = c.shared.length := by simpa [Waiter.waitsFor] using hwa
    obtain ⟨call,hc⟩ := hinv.waiters _ hw
    simp at hc
  | disposing | returned => simp [Waiter.waitsFor] at hwa

private theorem refused_inv : SharingInv { c with waiters := c.waiters ++ [.returned (.refused err)] } where
  calls id call hc := by
    have hold := hinv.calls id call hc
    refine ⟨?_,hold.registered,hold.worker,hold.canceled,hold.unclaimed⟩
    simp [waiting,Waiter.waitsFor,hold.counted]
  keys := hinv.keys
  waiters := forall_mem_concat hinv.waiters trivial

private theorem close_inv {err : Option GoError} : SharingInv (c.close err) where
  calls id call' hget' := by
    obtain ⟨call,hget,rfl⟩ := close_getElem? hget'
    have hold := hinv.calls id call hget
    refine ⟨?_,?_,hold.worker,fun _ _ => .inr (close_closed c err),hold.unclaimed⟩
    · simpa [waiting] using hold.counted
    · rw [close_calls]
      exact hold.registered
  keys key id hkey := by
    rw [close_calls] at hkey
    obtain ⟨call,hget,hkey⟩ := hinv.keys key id hkey
    obtain ⟨canceled,hget⟩ := close_getElem?_of hget
    exact ⟨_,hget,hkey⟩
  waiters w hw := by
    rw [close_waiters] at hw
    refine WaiterInv.mono (hinv.waiters w hw) fun id call hget => ?_
    obtain ⟨canceled,hget⟩ := close_getElem?_of hget
    exact ⟨_,hget,fun hd => ⟨hd,rfl⟩⟩

private theorem joined_inv (hc : c.calls key = some id) : SharingInv { c with
      shared := c.shared.modify id fun call => { call with waiters := call.waiters + 1 }
      waiters := c.waiters ++ [.waiting id] } := by
  obtain ⟨call,hget,rfl⟩ := hinv.keys key id hc
  have hold := hinv.calls id call hget
  have ho := hold.registered.mp hc
  have ht : Touches c { c with
      shared := c.shared.set id { call with waiters := call.waiters + 1 }
      waiters := c.waiters ++ [.waiting id] } id call { call with waiters := call.waiters + 1 } :=
    touches_update hget rfl rfl rfl rfl (fun h => ⟨h,rfl,rfl⟩)
  rw [modify_eq_set_getElem?,hget]
  apply ht.inv hinv
  · intro other hne
    rw [waiting,waiting_append]
    simp [Waiter.waitsFor,Ne.symm hne]
  · refine ⟨?_,?_,hold.worker,?_,hold.unclaimed⟩
    · rw [waiting,waiting_append,← hold.counted]
      simp [Waiter.waitsFor]
    · simp [hc,ho.1]
    · intro hr hca
      rcases hold.canceled hr hca with hz | hs
      · omega
      · exact .inr hs
  · intro w hw
    rcases mem_append.mp hw with hw | hw
    · exact .inl hw
    · obtain rfl := mem_singleton.mp hw
      exact .inr ⟨_,ht.after⟩

variable [DecidableEq K]

private theorem complete_inv (h : c.complete id = some c') : SharingInv c' := by
  obtain ⟨call,value,err,-,-,ht,hc,hw⟩ := complete_touches hinv h
  have hold := hinv.calls id call ht.before
  refine ht.inv_quiet hinv hw fun hwa => ⟨hold.counted.trans hwa.symm,?_,?_,?_,by simp [finish]⟩
  · simp only [finish,hc,Bool.true_eq_false,false_and,iff_false]
    exact unregister_calls_own
  · simp only [finish]
    split <;> simp
  · simp only [finish]
    split <;> simp

private theorem claim_inv (h : c.claim w = some c') : SharingInv c' := by
  obtain ⟨id,call,hw,hd,ht,hca,hwa⟩ := claim_touches h
  have hold := hinv.calls id call ht.before
  have hnot : ¬ c.calls call.key = some id := fun hc => by
    have := hold.registered.mp hc
    simp [hd] at this
  apply ht.inv hinv
  · intro other hne
    rw [waiting,hwa]
    exact waiting_set_other hw (by simp [Waiter.waitsFor,Ne.symm hne])
  · refine ⟨?_,?_,hold.worker,?_,by simp [hd]⟩
    · rw [waiting,hwa,waiting_set_self hw rfl,hold.counted]
    · simp [hca,hd,hnot]
    · intro hr
      have := hold.worker.mpr (.inl hr)
      simp [hd] at this
  · exact fun x hx => mem_waiters_set hwa ⟨_,ht.after,hd,rfl,rfl⟩ hx

private theorem leave_inv (h : c.leave w err = some c') : SharingInv c' := by
  obtain ⟨id,call,hw,hcas⟩ := leave_touches h
  have hs : ∀ {y : Waiter V}, CallInv c id call → c'.waiters = c.waiters.set w y → y.waitsFor id = false →
      call.waiters - 1 = c'.waiting id := by
    intro y hold hwa hy
    rw [waiting,hwa,waiting_set_self hw hy,hold.counted]
  have ho : ∀ {y : Waiter V}, c'.waiters = c.waiters.set w y → (∀ other, other ≠ id → y.waitsFor other = false) →
      ∀ other, other ≠ id → c'.waiting other = c.waiting other := by
    intro y hwa hy other hne
    rw [waiting,hwa]
    exact waiting_set_other hw (by rw [hy other hne]; simp [Waiter.waitsFor,Ne.symm hne])
  rcases hcas with ⟨hm,ht,hc,hwa⟩ | ⟨hl,hop,ht,hc,hwa⟩ |
    ⟨hl,hd,ht,hc,hwa⟩
  · have hold := hinv.calls id call ht.before
    apply ht.inv hinv (ho hwa fun _ _ => rfl)
    · refine ⟨hs hold hwa rfl,?_,hold.worker,?_,hold.unclaimed⟩
      · simp only [hc,hold.registered]
        exact and_congr_right fun _ => ⟨fun _ => by omega,fun _ => by omega⟩
      · intro hr hca
        rcases hold.canceled hr hca with hz | hcl
        · omega
        · exact .inr (ht.closed ▸ hcl)
    · exact fun x hx => mem_waiters_set hwa (by trivial) hx
  · have hold := hinv.calls id call ht.before
    apply ht.inv hinv (ho hwa fun _ _ => rfl)
    · refine ⟨hl.symm.trans (hs hold hwa rfl),?_,hold.worker,fun _ _ => .inl rfl,hold.unclaimed⟩
      simp only [hc,Nat.lt_irrefl,and_false,iff_false]
      exact unregister_calls_own
    · exact fun x hx => mem_waiters_set hwa (by trivial) hx
  · have hold := hinv.calls id call ht.before
    have hnot : ¬ c.calls call.key = some id := fun hcu => by
      have := hold.registered.mp hcu
      simp [hd] at this
    apply ht.inv hinv (ho hwa fun _ _ => by split <;> rfl)
    · refine ⟨hl.symm.trans (hs hold hwa (by split <;> rfl)),?_,hold.worker,fun _ _ => .inl rfl,
        hold.unclaimed⟩
      simp [hc,hnot]
    · refine fun x hx => mem_waiters_set hwa ?_ hx
      split
      · exact ⟨_,ht.after,hd⟩
      · trivial

private theorem created_inv {disposer : Bool} (hc : c.calls key = none) : SharingInv { c with
      shared := c.shared ++ [{ key, disposer, waiters := 1, value := default }]
      calls := update c.calls key (some c.shared.length)
      waiters := c.waiters ++ [.waiting c.shared.length] } := by
  constructor
  · intro id call hget
    rcases of_getElem?_concat hget with hget | ⟨rfl,rfl⟩
    · have hlt := lt_of_getElem? hget
      have hold := hinv.calls id call hget
      refine ⟨?_,?_,hold.worker,hold.canceled,hold.unclaimed⟩
      · rw [waiting,waiting_append,hold.counted]
        simp [Waiter.waitsFor,Nat.ne_of_gt hlt]
      · rw [← hold.registered]
        by_cases hkey : call.key = key
        · simp [hkey,hc,Nat.ne_of_gt hlt]
        · simp [update_of_ne hkey]
    · refine ⟨?_,by simp,by simp,by simp,by simp⟩
      rw [waiting,waiting_append,waiting_length hinv]
      simp [Waiter.waitsFor]
  · intro k id hk
    by_cases hkey : k = key
    · subst hkey
      simp only [update_self,some.injEq] at hk
      subst hk
      exact ⟨_,getElem?_concat_length,rfl⟩
    · simp only [update_of_ne hkey] at hk
      obtain ⟨call,hget,hk⟩ := hinv.keys k id hk
      exact ⟨call,getElem?_append_of hget _,hk⟩
  · refine forall_mem_concat (fun w hw => ?_) ⟨_,getElem?_concat_length⟩
    exact WaiterInv.mono (hinv.waiters w hw) fun id call hget => ⟨call,getElem?_append_of hget _,fun hd => ⟨hd,rfl⟩⟩

private theorem enter_inv {disposer : Bool} : SharingInv (c.enter key disposer) := by
  unfold enter
  split
  · exact refused_inv hinv
  · split
    next id hc => exact joined_inv hinv hc
    next hc => exact created_inv hinv hc

theorem sharingInv_step {e : CoalescerEvent K V} (h : c.step e = some c') : SharingInv c' := by
  cases e with
  | enter key disposer =>
    cases h
    exact enter_inv hinv
  | workReturns id value err => exact workReturns_inv hinv h
  | complete id => exact complete_inv hinv h
  | dispose id => exact dispose_inv hinv h
  | claim w => exact claim_inv hinv h
  | leave w err => exact leave_inv hinv h
  | drop w => exact drop_inv hinv h
  | close err =>
    cases h
    exact close_inv hinv

omit hinv

theorem sharingInv_reachable (h : (coalescerSystem K V).Reachable c) : SharingInv c := by
  refine System.Reachable.invariant (P := SharingInv) ?_ (fun _ _ _ _ hinv hs => sharingInv_step hinv hs) h
  rintro _ rfl
  exact ⟨by simp [newCoalescer],by simp [newCoalescer],by simp [newCoalescer]⟩
/-- A call that was unfinished when the coalescer closed ends with the close error. -/
theorem late_leads (hr : (coalescerSystem K V).Reachable c)
    (hle : (coalescerSystem K V).Leads c c') (hcl : c.closed = some err) (hca : c.shared[id]? = some call)
    (ho : call.completed = false) :
    c'.closed = some err ∧ ∃ now, c'.shared[id]? = some now ∧ (now.completed = true → now.err = some err) := by
  obtain ⟨es,hrun⟩ := hle
  induction hrun with
  | nil => exact ⟨hcl,call,hca,by simp [ho]⟩
  | snoc hrun hs ih =>
    obtain ⟨hmid,now,hnow,hl⟩ := ih
    have hinv := sharingInv_reachable (hr.leads ⟨_,hrun⟩)
    rcases closed_step hinv (by simp [hmid]) hs with ⟨hsa,hk⟩ | ⟨other,before,after,ht,hc⟩
    · exact ⟨hk.trans hmid,now,by rw [hsa]; exact hnow,hl⟩
    refine ⟨ht.closed.trans hmid,?_⟩
    by_cases hne : id = other
    · subst hne
      cases ht.before.symm.trans hnow
      refine ⟨after,ht.after,fun hd => ?_⟩
      rcases hc hd with hb | herr
      · exact (ht.settled hb).2.2.trans (hl hb)
      · exact herr.trans hmid
    · exact ⟨now,(ht.other hne).trans hnow,hl⟩
end Preservation
/-- The shared call through which a `Do` call went. -/
def Returned.call : Returned V → Option Nat
  | .refused _ => none
  | .shared call _ _ => some call
  | .left call _ => some call
/-- What callers of one coalescer rely on, in the state `c` and in the states that follow. -/
structure SharesOneRun [DecidableEq K] [Inhabited V] (c : Coalescer K V) : Prop where
  /-- The registered call of a key is unfinished and awaited, and every other unfinished call of that key
  has lost its waiters. -/
  oneCall : ∀ (key : K) (id : Nat), c.calls key = some id → ∃ call, c.shared[id]? = some call ∧ call.key = key ∧
    call.completed = false ∧ 0 < c.waiting id ∧
    ∀ (other : Nat) call', c.shared[other]? = some call' → call'.key = key → call'.completed = false → other ≠ id →
      c.waiting other = 0 ∧ c.calls call'.key ≠ some other
  sameOutcome : ∀ (id w w' : Nat) (value value' : V) (err err' : Option GoError),
    c.waiters[w]? = some (.returned (.shared id value err)) →
    c.waiters[w']? = some (.returned (.shared id value' err')) → err = err' ∧ (err = none → value = value')
  canceledAfter : ∀ (id : Nat) call, c.shared[id]? = some call → call.worker = .running → call.canceled = true →
    c.waiting id = 0 ∨ c.closed.isSome = true
  closedOutcome : ∀ (closeErr : GoError) (id : Nat) call, c.closed = some closeErr → c.shared[id]? = some call →
    call.completed = false →
    ∀ c', (coalescerSystem K V).Leads c c' → ∀ (w : Nat) result, c'.waiters[w]? = some (.returned result) →
      result.call = some id → result = .shared id default (some closeErr) ∨ ∃ err, result = .left id err
  /-- The return of the work of one call and its completion leave every other call as it is. -/
  lateCompletion : ∀ (id : Nat) c', (c.complete id = some c' ∨ ∃ value err, c.workReturns id value err = some c') →
    ∀ other : Nat, other ≠ id → c'.shared[other]? = c.shared[other]? ∧
      ∀ key, c.calls key = some other → c'.calls key = some other

theorem coalescer_shares_one_run [DecidableEq K] [Inhabited V] (c : Coalescer K V)
    (h : (coalescerSystem K V).Reachable c) : SharesOneRun c := by
  have hinv := sharingInv_reachable h
  constructor
  · intro key id hkey
    obtain ⟨call,hcall,rfl⟩ := hinv.keys key id hkey
    have hold := hinv.calls id call hcall
    obtain ⟨hopen,hpos⟩ := hold.registered.mp hkey
    refine ⟨call,hcall,rfl,hopen,hold.counted ▸ hpos,?_⟩
    intro other call' hcall' hkey' hopen' hne
    have hnot : c.calls call'.key ≠ some other := by
      rw [hkey',hkey]
      simpa using Ne.symm hne
    refine ⟨?_,hnot⟩
    have hold' := hinv.calls other call' hcall'
    by_contra hwaits
    apply hnot
    rw [← hold'.counted] at hwaits
    exact hold'.registered.mpr ⟨hopen',Nat.pos_of_ne_zero hwaits⟩
  · intro id w w' value value' err err' hw hw'
    obtain ⟨call,hcall,-,hvalue,herr⟩ := hinv.waiters _ (mem_of_getElem? hw)
    obtain ⟨call',hcall',-,hvalue',herr'⟩ := hinv.waiters _ (mem_of_getElem? hw')
    obtain rfl := some.inj (hcall.symm.trans hcall')
    exact ⟨herr.trans herr'.symm,fun _ => hvalue.trans hvalue'.symm⟩
  · intro id call hcall hrunning hcanceled
    have hold := hinv.calls id call hcall
    rw [← hold.counted]
    exact hold.canceled hrunning hcanceled
  · intro closeErr id call hclosed hcall hopen c' hleads w result hw hresult
    obtain ⟨-,now,hnow,hlate⟩ := late_leads h hleads hclosed hcall hopen
    cases result with
    | refused err => simp [Returned.call] at hresult
    | left other err =>
      cases hresult
      exact .inr ⟨err,rfl⟩
    | shared other value err =>
      cases hresult
      obtain ⟨last,hlast,hdone,hvalue,herr⟩ :=
        (sharingInv_reachable (h.leads hleads)).waiters _ (mem_of_getElem? hw)
      cases hnow.symm.trans hlast
      left
      rw [hvalue,herr]
      simp [SharedCall.outcome,hlate hdone]
  · intro id c' hstep other hne
    have htouch : ∃ call call', Touches c c' id call call' := by
      rcases hstep with hstep | ⟨value,err,hstep⟩
      · obtain ⟨call,value,err,-,-,htouch,-⟩ := complete_touches hinv hstep
        exact ⟨call,_,htouch⟩
      · obtain ⟨call,-,htouch,-⟩ := workReturns_touches hstep
        exact ⟨call,_,htouch⟩
    obtain ⟨call,call',htouch⟩ := htouch
    exact ⟨htouch.other hne,fun key => (htouch.others key other hne).mpr⟩
/-- The first call of the key is abandoned and replaced; it completes late, and `Close` comes before the
replacement, with two waiters, completes. -/
def replacedCall : List (CoalescerEvent Nat Nat) :=
  [.enter 7 true, .leave 0 Sentinel.canceled.error, .enter 7 true, .enter 7 true, .workReturns 0 5 none, .complete 0,
    .close none, .workReturns 1 6 none, .complete 1, .claim 1, .claim 2]

theorem coalescer_shares_one_run_replaced : ∃ c : Coalescer Nat Nat, (coalescerSystem Nat Nat).Reachable c ∧
    c.waiters = [.returned (.left 0 Sentinel.canceled.error), .returned (.shared 1 0 (some Sentinel.closed.error)),
      .returned (.shared 1 0 (some Sentinel.closed.error))] ∧ SharesOneRun c := by
  obtain ⟨c,hreach,hc⟩ := System.Reachable.of_foldlM_any (T := coalescerSystem Nat Nat) (s := newCoalescer Nat Nat)
    Coalescer.step replacedCall (fun c => decide (c.waiters = [.returned (.left 0 Sentinel.canceled.error),
      .returned (.shared 1 0 (some Sentinel.closed.error)), .returned (.shared 1 0 (some Sentinel.closed.error))]))
    rfl (fun _ _ _ _ h => h) (by decide +kernel)
  exact ⟨c,hreach,by simpa using hc,coalescer_shares_one_run c hreach⟩
end FlussGo
