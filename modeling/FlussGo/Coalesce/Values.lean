import FlussGo.Coalesce.Sharing
/-!
# What shared calls hand out

What holds of the values that works return holds of the values that waiters get; a `Do` call goes through
one shared call of its own key.
-/
namespace FlussGo
open List Option SharedCall Coalescer
variable {K V : Type}
/-- The values of a shared call: the one its work has just returned, and the one it was completed
with. -/
structure SharedCall.Carries (P : V → Prop) (call : SharedCall K V) : Prop where
  returned : ∀ value, call.worker = .returned value none → P value
  completed : call.completed = true → call.err = none → P call.value

def Coalescer.Carries (P : Nat → V → Prop) (c : Coalescer K V) : Prop :=
  ∀ (id : Nat) (call : SharedCall K V), c.shared[id]? = some call → call.Carries (P id)

section Steps
variable {P : Nat → V → Prop} {c c' : Coalescer K V} {id : Nat} {call call' : SharedCall K V}

theorem Coalescer.Carries.mono {Q : Nat → V → Prop} (h : c.Carries P) (hPQ : ∀ id value, P id value → Q id value) :
    c.Carries Q :=
  fun id call hc => ⟨fun value hw => hPQ id value ((h id call hc).returned value hw),
    fun hd herr => hPQ id call.value ((h id call hc).completed hd herr)⟩

private theorem Touches.carries (h : Touches c c' id call call') (hc : c.Carries P)
    (hca : call.Carries (P id) → call'.Carries (P id)) : c'.Carries P := by
  intro other now hnow
  by_cases hne : other = id
  · subst hne
    cases h.after.symm.trans hnow
    exact hca (hc other call h.before)
  · rw [h.other hne] at hnow
    exact hc other now hnow

private theorem finish_carries {closed err : Option GoError} {value : V} {P : V → Prop} (h : call.Carries P)
    (hw : call.worker = .returned value err) : (call.finish closed value err).Carries P where
  returned value' hvalue' := by
    simp only [finish] at hvalue'
    split at hvalue' <;> simp at hvalue'
  completed _ herr := by
    simp only [finish] at herr ⊢
    split at herr
    next hc =>
      simp [herr] at hc
    · subst herr
      exact h.returned value hw

private theorem close_carries {err : Option GoError} (hc : c.Carries P) : (c.close err).Carries P := by
  intro id call' hca'
  obtain ⟨call,hca,rfl⟩ := close_getElem? hca'
  have hold := hc id call hca
  exact ⟨hold.returned,hold.completed⟩

variable [DecidableEq K] [Inhabited V]

theorem enter_getElem? {key : K} {disposer : Bool} (h : (c.enter key disposer).shared[id]? = some call') :
    (∃ call waiters, c.shared[id]? = some call ∧ call' = { call with waiters }) ∨
      id = c.shared.length ∧ c.closed = none ∧ c.calls key = none ∧
        call' = { key, disposer, waiters := 1, value := default } := by
  unfold enter at h
  split at h
  · exact .inl ⟨call',call'.waiters,h,rfl⟩
  rename_i ho
  split at h
  next current hcu =>
    left
    simp only [getElem?_modify] at h
    obtain ⟨call,hc,rfl⟩ := map_eq_some_iff.mp h
    by_cases hid : current = id
    · exact ⟨call,call.waiters + 1,hc,by simp [hid]⟩
    · exact ⟨call,call.waiters,hc,by simp [hid]⟩
  next hn =>
    by_cases hlt : id < c.shared.length
    · rw [getElem?_append_left hlt] at h
      exact .inl ⟨call',call'.waiters,h,rfl⟩
    right
    obtain ⟨hl,hget⟩ := List.getElem?_eq_some_iff.mp h
    simp only [length_append,length_singleton] at hl
    have hid : id = c.shared.length := by omega
    subst hid
    simp only [getElem_concat_length] at hget
    exact ⟨rfl,ho,hn,hget.symm⟩

private theorem enter_carries {key : K} {disposer : Bool} (hc : c.Carries P) : (c.enter key disposer).Carries P := by
  intro id call' hca'
  rcases enter_getElem? hca' with ⟨call,waiters,hca,rfl⟩ | ⟨-,-,-,rfl⟩
  · have hold := hc id call hca
    exact ⟨hold.returned,hold.completed⟩
  · exact ⟨by simp,by simp⟩

theorem carries_step {e : CoalescerEvent K V} (hinv : SharingInv c) (hc : c.Carries P)
    (hwo : ∀ id value, e = .workReturns id value none → P id value) (h : c.step e = some c') : c'.Carries P := by
  cases e with
  | enter key disposer =>
    cases h
    exact enter_carries hc
  | workReturns id value err =>
    obtain ⟨call,-,ht,-⟩ := workReturns_touches h
    refine ht.carries hc fun hca => ⟨?_,hca.completed⟩
    intro value' hv'
    obtain ⟨rfl,rfl⟩ := hv'
    exact hwo id value rfl
  | complete id =>
    obtain ⟨call,value,err,hw,-,ht,-⟩ := complete_touches hinv h
    exact ht.carries hc fun hca => finish_carries hca hw
  | dispose id =>
    obtain ⟨call,-,ht,-⟩ := dispose_touches h
    exact ht.carries hc fun hca => ⟨by simp,hca.completed⟩
  | claim w =>
    obtain ⟨id,call,-,-,ht,-⟩ := claim_touches h
    exact ht.carries hc fun hca => ⟨hca.returned,hca.completed⟩
  | leave w err =>
    obtain ⟨id,call,-,⟨-,ht,-⟩ | ⟨-,-,ht,-⟩ | ⟨-,-,ht,-⟩⟩ := leave_touches h
    · exact ht.carries hc fun hca => ⟨hca.returned,hca.completed⟩
    · exact ht.carries hc fun hca => ⟨hca.returned,hca.completed⟩
    · exact ht.carries hc fun hca => ⟨hca.returned,hca.completed⟩
  | drop w =>
    obtain ⟨id,err,call,-,ht,-⟩ := drop_touches h
    exact ht.carries hc fun hca => ⟨hca.returned,hca.completed⟩
  | close err =>
    cases h
    exact close_carries hc

omit [DecidableEq K] in
theorem Coalescer.Carries.shared {w : Nat} {value : V} (hc : c.Carries P) (hinv : SharingInv c)
    (h : c.waiters[w]? = some (.returned (.shared id value none))) : P id value := by
  obtain ⟨call,hca,hd,hv,herr⟩ := hinv.waiters _ (mem_of_getElem? h)
  have hn : call.err = none := herr.symm
  simp only [outcome,hn,isSome_none,Bool.false_eq_true,if_false] at hv
  rw [hv]
  exact (hc id call hca).completed hd hn
end Steps
/-- The shared call through which a `Do` call goes. -/
def Waiter.call : Waiter V → Option Nat
  | .waiting call => some call
  | .disposing call _ => some call
  | .returned result => result.call

section Membership
variable {c c' : Coalescer K V} {id w : Nat} {call call' : SharedCall K V} {x y : Waiter V}

private theorem set_call (hx : c.waiters[w]? = some x) (hy : y.call = x.call) {v : Nat} {z : Waiter V}
    (hz : c.waiters[v]? = some z) : ∃ z', (c.waiters.set w y)[v]? = some z' ∧ z'.call = z.call := by
  by_cases hv : w = v
  · subst hv
    cases hx.symm.trans hz
    exact ⟨y,getElem?_set_self (lt_of_getElem? hx),hy⟩
  · exact ⟨z,by rw [getElem?_set_ne hv]; exact hz,rfl⟩

variable [DecidableEq K] [Inhabited V]

theorem enter_waiters (c : Coalescer K V) (key : K) (disposer : Bool) :
    ∃ y, (c.enter key disposer).waiters = c.waiters ++ [y] := by
  unfold enter
  split
  · exact ⟨_,rfl⟩
  · split
    · exact ⟨_,rfl⟩
    · exact ⟨_,rfl⟩

theorem step_waiter {e : CoalescerEvent K V} (hinv : SharingInv c) (h : c.step e = some c')
    (hx : c.waiters[w]? = some x) : ∃ y, c'.waiters[w]? = some y ∧ y.call = x.call := by
  have hs : c'.waiters = c.waiters → ∃ y, c'.waiters[w]? = some y ∧ y.call = x.call := by
    intro hw
    exact ⟨x,by rw [hw]; exact hx,rfl⟩
  cases e with
  | enter key disposer =>
    cases h
    obtain ⟨y,hy⟩ := enter_waiters c key disposer
    exact ⟨x,hy ▸ getElem?_append_of hx _,rfl⟩
  | workReturns id value err =>
    obtain ⟨call,-,-,-,hw⟩ := workReturns_touches h
    exact hs hw
  | complete id =>
    obtain ⟨call,value,err,-,-,-,-,hw⟩ := complete_touches hinv h
    exact hs hw
  | dispose id =>
    obtain ⟨call,-,-,-,hw⟩ := dispose_touches h
    exact hs hw
  | claim v =>
    obtain ⟨id,call,hv,-,-,-,hw⟩ := claim_touches h
    rw [hw]
    exact set_call hv (by rfl) hx
  | leave v err =>
    obtain ⟨id,call,hv,⟨-,-,-,hw⟩ | ⟨-,-,-,-,hw⟩ | ⟨-,-,-,-,hw⟩⟩ := leave_touches h
    · rw [hw]
      exact set_call hv (by rfl) hx
    · rw [hw]
      exact set_call hv (by rfl) hx
    · rw [hw]
      exact set_call hv (by split <;> rfl) hx
  | drop v =>
    obtain ⟨id,err,call,hv,-,-,hw⟩ := drop_touches h
    rw [hw]
    exact set_call hv (by rfl) hx
  | close err =>
    cases h
    exact hs (close_waiters c err)

theorem step_keys {e : CoalescerEvent K V} (hinv : SharingInv c) (h : c.step e = some c')
    (he : ∀ key disposer, e ≠ .enter key disposer) : c'.shared.map key = c.shared.map key := by
  have hto : ∀ {id : Nat} {call call' : SharedCall K V}, Touches c c' id call call' →
      c'.shared.map key = c.shared.map key := by
    intro id call call' ht
    apply ext_getElem?
    intro i
    by_cases hi : i = id
    · subst hi
      simp [ht.after,ht.before,ht.key]
    · simp [ht.other hi]
  cases e with
  | enter key disposer => exact absurd rfl (he key disposer)
  | workReturns id value err =>
    obtain ⟨call,-,ht,-⟩ := workReturns_touches h
    exact hto ht
  | complete id =>
    obtain ⟨call,value,err,-,-,ht,-⟩ := complete_touches hinv h
    exact hto ht
  | dispose id =>
    obtain ⟨call,-,ht,-⟩ := dispose_touches h
    exact hto ht
  | claim v =>
    obtain ⟨id,call,-,-,ht,-⟩ := claim_touches h
    exact hto ht
  | leave v err =>
    obtain ⟨id,call,-,⟨-,ht,-⟩ | ⟨-,-,ht,-⟩ | ⟨-,-,ht,-⟩⟩ := leave_touches h
    · exact hto ht
    · exact hto ht
    · exact hto ht
  | drop v =>
    obtain ⟨id,err,call,-,ht,-⟩ := drop_touches h
    exact hto ht
  | close err =>
    cases h
    unfold close
    split
    · rfl
    apply ext_getElem?
    intro i
    cases hget : c.shared[i]? with
    | none => simp [hget]
    | some call =>
      by_cases hc : c.calls call.key = some i <;> simp [hget,hc]
/-- A `Do` call joins the registered call of its key or creates one. -/
theorem enter_keys (hinv : SharingInv c) (key : K) (disposer : Bool) :
    (c.enter key disposer).shared.map SharedCall.key = c.shared.map SharedCall.key ∧
        (∀ y, (c.enter key disposer).waiters[c.waiters.length]? = some y → ∀ id, y.call = some id →
          c.calls key = some id ∧ (c.shared.map SharedCall.key)[id]? = some key) ∨
      (c.enter key disposer).shared.map SharedCall.key = c.shared.map SharedCall.key ++ [key] ∧
        (∀ y, (c.enter key disposer).waiters[c.waiters.length]? = some y → y.call = some c.shared.length) := by
  unfold enter
  split
  · left
    refine ⟨rfl,?_⟩
    intro y hy id hid
    simp only [getElem?_concat_length,some.injEq] at hy
    subst hy
    simp [Waiter.call,Returned.call] at hid
  · split
    next current hc =>
      left
      constructor
      · apply ext_getElem?
        intro i
        simp only [getElem?_map,getElem?_modify]
        cases c.shared[i]? with
        | none => rfl
        | some call =>
          by_cases hi : current = i <;> simp [hi]
      · intro y hy id hid
        simp only [getElem?_concat_length,some.injEq] at hy
        subst hy
        cases hid
        obtain ⟨call,hca,hkey⟩ := hinv.keys key current hc
        exact ⟨hc,by simp [hca,hkey]⟩
    · right
      refine ⟨by simp,?_⟩
      intro y hy
      simp only [getElem?_concat_length,some.injEq] at hy
      subst hy
      rfl
end Membership
end FlussGo
