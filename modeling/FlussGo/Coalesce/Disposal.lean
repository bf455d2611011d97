import FlussGo.Coalesce.Sharing
/-!
# Disposal of unclaimed values

The value of a call whose work succeeded goes to the waiters or to the disposer. `run` and the last
waiter that leaves each decide on their own whether to call the disposer; after `Close` they can both
decide to.
-/
namespace FlussGo
open List Waiter SharedCall Nat
variable {K V : Type}
/-- A `Do` call is about to pass the value of the shared call to the disposer. -/
def Waiter.disposesOf (id : Nat) : Waiter V → Bool
  | .disposing call _ => call == id
  | _ => false
/-- A `Do` call has returned through the completion of the shared call. -/
def Waiter.returnsFrom (id : Nat) : Waiter V → Bool
  | .returned (.shared call _ _) => call == id
  | _ => false
/-- The disposer calls that were made for the value of a call, and those that are decided. -/
def disposals (c : Coalescer K V) (id : Nat) (call : SharedCall K V) : Nat :=
  call.disposed.length + (match call.worker with | .disposing => 1 | _ => 0) +
    c.waiters.countP (Waiter.disposesOf id)

structure DisposalInv (c : Coalescer K V) (id : Nat) (call : SharedCall K V) : Prop where
  values : ∀ value ∈ call.disposed, value = call.value
  claimed : call.claimed = true ↔ 0 < c.waiters.countP (Waiter.returnsFrom id)
  unfinished : call.completed = false → disposals c id call = 0
  /-- The call was completed before `Close`. -/
  shared : call.disposer = true → call.completed = true → call.succeeded = true → call.err = none →
    disposals c id call = if call.claimed = true ∨ 0 < call.waiters then 0 else 1
  /-- The call was completed after `Close`. -/
  refused : call.disposer = true → call.completed = true → call.succeeded = true → call.err ≠ none →
    disposals c id call = 1
/-- The last waiter of a call that was completed after `Close` with a value that `run` disposes of leaves
through its own context. -/
def Coalescer.leavesLate (c : Coalescer K V) : CoalescerEvent K V → Bool
  | .leave w _ =>
    match c.waiters[w]? with
    | some (.waiting id) => c.shared[id]?.any fun call =>
        call.waiters - 1 == 0 && call.completed && call.succeeded && call.err.isSome && !call.claimed
    | _ => false
  | _ => false

def DisposedOnce (c : Coalescer K V) (e : CoalescerEvent K V) : Prop := c.leavesLate e = false

section Steps
variable {c c' : Coalescer K V} {id w : Nat} {call call' : SharedCall K V}

private theorem DisposalInv.transfer (h : DisposalInv c id call) (hv : ∀ value ∈ call'.disposed, value = call'.value)
    (hst : (call'.disposer, call'.waiters, call'.err, call'.completed, call'.claimed, call'.succeeded) =
      (call.disposer, call.waiters, call.err, call.completed, call.claimed, call.succeeded))
    (hr : c'.waiters.countP (returnsFrom id) = c.waiters.countP (returnsFrom id))
    (hd : disposals c' id call' = disposals c id call) : DisposalInv c' id call' := by
  simp only [Prod.mk.injEq] at hst
  obtain ⟨hdi,hw,herr,hc,hcl,hs⟩ := hst
  refine ⟨hv,?_,?_,?_,?_⟩
  · rw [hcl,hr]
    exact h.claimed
  · rw [hc,hd]
    exact h.unfinished
  · rw [hdi,hc,hs,herr,hd,hcl,hw]
    exact h.shared
  · rw [hdi,hc,hs,herr,hd]
    exact h.refused

def DisposalsHold (c : Coalescer K V) : Prop := ∀ id call, c.shared[id]? = some call → DisposalInv c id call

theorem Touches.disposal (h : Touches c c' id call call') (hinv : DisposalsHold c) (hd : ∀ other, other ≠ id →
      c'.waiters.countP (disposesOf other) = c.waiters.countP (disposesOf other))
    (hr : ∀ other, other ≠ id →
      c'.waiters.countP (returnsFrom other) = c.waiters.countP (returnsFrom other))
    (hc : DisposalInv c' id call') : DisposalsHold c' := by
  intro other now hnow
  by_cases hne : other = id
  · subst hne
    cases h.after.symm.trans hnow
    exact hc
  · rw [h.other hne] at hnow
    have hold := hinv other now hnow
    exact hold.transfer hold.values rfl (hr other hne) (by simp only [disposals,hd other hne])

private theorem disposed_append (h : DisposalInv c id call) :
    ∀ value ∈ call.disposed ++ [call.value], value = call.value := by
  intro value hv
  rcases mem_append.mp hv with hv | hv
  · exact h.values value hv
  · exact mem_singleton.mp hv

variable (hinv : DisposalsHold c)
include hinv

private theorem workReturns_disposal {value : V} {err : Option GoError}
    (h : c.workReturns id value err = some c') : DisposalsHold c' := by
  obtain ⟨call,hwo,ht,-,hw⟩ := workReturns_touches h
  have hold := hinv id call ht.before
  apply ht.disposal hinv (fun _ _ => by rw [hw]) (fun _ _ => by rw [hw])
  exact hold.transfer hold.values rfl (by rw [hw]) (by simp only [disposals,hw,hwo])

private theorem dispose_disposal (h : c.dispose id = some c') : DisposalsHold c' := by
  obtain ⟨call,hwo,ht,-,hw⟩ := dispose_touches h
  have hold := hinv id call ht.before
  apply ht.disposal hinv (fun _ _ => by rw [hw]) (fun _ _ => by rw [hw])
  refine hold.transfer (disposed_append hold) rfl (by rw [hw]) ?_
  simp only [disposals,hw,hwo,length_append,length_singleton]

private theorem drop_disposal (h : c.drop w = some c') : DisposalsHold c' := by
  obtain ⟨id,err,call,hw,ht,-,hwa⟩ := drop_touches h
  have hold := hinv id call ht.before
  have hr : ∀ other, c'.waiters.countP (returnsFrom other) = c.waiters.countP (returnsFrom other) := by
    intro other
    rw [hwa]
    exact waiting_set_other hw rfl
  apply ht.disposal hinv ?_ (fun other _ => hr other)
  · refine hold.transfer (disposed_append hold) rfl (hr id) ?_
    have hc := countP_set_of_getElem? (p := disposesOf id) hw (.returned (.left id err))
    simp only [disposesOf,beq_self_eq_true,if_true,Bool.false_eq_true,if_false,add_zero] at hc
    simp only [disposals,hwa,length_append,length_singleton]
    omega
  · intro other hne
    rw [hwa]
    exact waiting_set_other hw (by simp [disposesOf,Ne.symm hne])

private theorem close_disposal {err : Option GoError} : DisposalsHold (c.close err) := by
  intro id call' hc'
  obtain ⟨call,hc,rfl⟩ := close_getElem? hc'
  have hold := hinv id call hc
  exact hold.transfer hold.values rfl (by rw [close_waiters]) (by simp only [disposals,close_waiters])

omit hinv

private theorem append_waiting_counts (c : Coalescer K V) (x : Waiter V) (id : Nat) (hx : x.disposesOf id = false)
    (hx' : x.returnsFrom id = false) :
    (c.waiters ++ [x]).countP (disposesOf id) = c.waiters.countP (disposesOf id) ∧
      (c.waiters ++ [x]).countP (returnsFrom id) = c.waiters.countP (returnsFrom id) := by
  simp [countP_append,hx,hx']

variable [Inhabited V]

private theorem counts_length (hinv : SharingInv c) :
    c.waiters.countP (disposesOf c.shared.length) = 0 ∧ c.waiters.countP (returnsFrom c.shared.length) = 0 := by
  constructor
  · apply countP_eq_zero.mpr
    intro x hx hd
    cases x with
    | waiting | returned => simp [disposesOf] at hd
    | disposing id err =>
      obtain rfl : id = c.shared.length := by simpa [disposesOf] using hd
      obtain ⟨call,hc,-⟩ := hinv.waiters _ hx
      simp at hc
  · apply countP_eq_zero.mpr
    intro x hx hr
    cases x with
    | waiting | disposing => simp [returnsFrom] at hr
    | returned result =>
      cases result with
      | refused | left => simp [returnsFrom] at hr
      | shared id value err =>
        obtain rfl : id = c.shared.length := by simpa [returnsFrom] using hr
        obtain ⟨call,hc,-⟩ := hinv.waiters _ hx
        simp at hc

variable [DecidableEq K]
include hinv

private theorem enter_disposal {key : K} {disposer : Bool} (hs : SharingInv c) :
    DisposalsHold (c.enter key disposer) := by
  unfold Coalescer.enter
  split
  next err hcl =>
    intro id call hc
    have hold := hinv id call hc
    obtain ⟨hd,hr⟩ := append_waiting_counts c (.returned (.refused err)) id rfl rfl
    exact hold.transfer hold.values rfl hr (by simp only [disposals,hd])
  · split
    next joined hj =>
      obtain ⟨before,hb,rfl⟩ := hs.keys key joined hj
      have ho := ((hs.calls joined before hb).registered.mp hj).1
      intro id call hc
      obtain ⟨hd,hr⟩ := append_waiting_counts c (.waiting joined) id rfl rfl
      rw [getElem?_modify] at hc
      obtain ⟨old,hold',rfl⟩ := Option.map_eq_some_iff.mp hc
      have hold := hinv id old hold'
      by_cases hid : joined = id
      · subst hid
        obtain rfl := Option.some.inj (hb.symm.trans hold')
        simp only [if_true]
        refine ⟨hold.values,?_,?_,by simp [ho],by simp [ho]⟩
        · rw [hr]
          exact hold.claimed
        · intro hu
          simp only [disposals,hd]
          exact hold.unfinished hu
      · simp only [hid,if_false]
        exact hold.transfer hold.values rfl hr (by simp only [disposals,hd])
    · intro id call hc
      obtain ⟨hd,hr⟩ := append_waiting_counts c (.waiting c.shared.length) id rfl rfl
      rcases of_getElem?_concat hc with hc | ⟨rfl,rfl⟩
      · have hold := hinv id call hc
        exact hold.transfer hold.values rfl hr (by simp only [disposals,hd])
      obtain ⟨hno,hn⟩ := counts_length hs
      refine ⟨by simp,?_,?_,by simp,by simp⟩
      · rw [hr,hn]
        simp
      · intro _
        simp only [disposals,hd,hno]
        rfl

private theorem complete_disposal (hsh : SharingInv c) (h : c.complete id = some c') : DisposalsHold c' := by
  obtain ⟨call,value,err,hwo,ho,ht,-,hw⟩ := complete_touches hsh h
  have hold := hinv id call ht.before
  have hu := (hsh.calls id call ht.before).unclaimed ho
  have hn : call.disposed = [] ∧ c.waiters.countP (disposesOf id) = 0 := by
    have := hold.unfinished ho
    simp only [disposals,hwo] at this
    exact ⟨length_eq_zero_iff.mp (by omega),by omega⟩
  apply ht.disposal hinv (fun _ _ => by rw [hw]) (fun _ _ => by rw [hw])
  refine ⟨by simp [finish,hn.1],?_,by simp [finish],?_,?_⟩
  · rw [hw]
    exact hold.claimed
  · intro hd _ hs herr
    cases hc : c.closed with
    | some closeErr => simp [finish,hc] at herr
    | none =>
      simp only [finish] at hd hs
      by_cases hwa : call.waiters = 0
      · simp [disposals,finish,hn,hw,hu,hd,hs,hwa]
      · simp [disposals,finish,hn,hw,hu,hd,hs,hwa,pos_of_ne_zero hwa]
  · intro hd _ hs herr
    have hc : c.closed.isSome = true := by
      by_contra hc
      simp only [finish,Option.isNone_iff_eq_none] at hs
      simp [finish,hc,hs] at herr
    simp only [finish] at hd hs
    simp [disposals,finish,hn,hw,hu,hd,hs,hc]

private theorem claim_disposal (hsh : SharingInv c) (h : c.claim w = some c') : DisposalsHold c' := by
  obtain ⟨id,call,hw,hdo,ht,-,hwa⟩ := claim_touches h
  have hold := hinv id call ht.before
  have hpos : 0 < call.waiters := (hsh.calls id call ht.before).counted ▸ waiting_pos hw
  have hd : ∀ other, c'.waiters.countP (disposesOf other) = c.waiters.countP (disposesOf other) := by
    intro other
    rw [hwa]
    exact waiting_set_other hw rfl
  apply ht.disposal hinv (fun other _ => hd other)
  · intro other hne
    rw [hwa]
    exact waiting_set_other hw (by simp [returnsFrom,Ne.symm hne])
  have hsa : disposals c' id { call with claimed := true, waiters := call.waiters - 1 } = disposals c id call := by
    simp only [disposals,hd]
  refine ⟨hold.values,?_,by simp [hdo],?_,?_⟩
  · have hco := countP_set_of_getElem? (p := returnsFrom id) hw
      (.returned (.shared id call.outcome.1 call.outcome.2))
    simp only [returnsFrom,beq_self_eq_true,if_true,Bool.false_eq_true,if_false,add_zero] at hco
    rw [hwa,hco]
    simp
  · intro hdi hc hs herr
    rw [hsa,hold.shared hdi hc hs herr]
    simp [hpos]
  · rw [hsa]
    exact hold.refused

private theorem leave_disposal {err : GoError} (hsh : SharingInv c)
    (hg : DisposedOnce c (.leave w err)) (h : c.leave w err = some c') : DisposalsHold c' := by
  obtain ⟨id,call,hw,hca⟩ := leave_touches h
  have hr : ∀ {y : Waiter V}, c'.waiters = c.waiters.set w y → (∀ other, y.returnsFrom other = false) →
      ∀ other, c'.waiters.countP (returnsFrom other) = c.waiters.countP (returnsFrom other) := by
    intro y hwa hy other
    rw [hwa]
    exact waiting_set_other hw (hy other).symm
  have hdr : c'.waiters = c.waiters.set w (.returned (.left id err)) →
      ∀ other, c'.waiters.countP (disposesOf other) = c.waiters.countP (disposesOf other) := by
    intro hwa other
    rw [hwa]
    exact waiting_set_other hw rfl
  rcases hca with ⟨hm,ht,-,hwa⟩ | ⟨hl,hop,ht,-,hwa⟩ |
    ⟨hl,hdo,ht,-,hwa⟩
  · have hold := hinv id call ht.before
    have hsa : disposals c' id { call with waiters := call.waiters - 1 } = disposals c id call := by
      simp only [disposals,hdr hwa]
    apply ht.disposal hinv (fun other _ => hdr hwa other)
      (fun other _ => hr hwa (fun _ => rfl) other)
    refine ⟨hold.values,?_,by rw [hsa]; exact hold.unfinished,?_,by rw [hsa]; exact hold.refused⟩
    · rw [hr hwa fun _ => rfl]
      exact hold.claimed
    · intro hd hdo hs herr
      rw [hsa,hold.shared hd hdo hs herr]
      have : 0 < call.waiters - 1 ∧ 0 < call.waiters := by omega
      simp [this]
  · have hold := hinv id call ht.before
    apply ht.disposal hinv (fun other _ => hdr hwa other)
      (fun other _ => hr hwa (fun _ => rfl) other)
    refine ⟨hold.values,?_,?_,by simp [hop],by simp [hop]⟩
    · rw [hr hwa fun _ => rfl]
      exact hold.claimed
    · intro _
      simp only [disposals,hdr hwa]
      exact hold.unfinished hop
  · have hold := hinv id call ht.before
    have hpos : 0 < call.waiters := (hsh.calls id call ht.before).counted ▸ waiting_pos hw
    by_cases ho : (!call.claimed && call.succeeded && call.disposer) = true
    · -- The leaving waiter is the only one who disposes: run did not, as the coalescer was open.
      rw [if_pos ho] at hwa
      have hco := countP_set_of_getElem? (p := disposesOf id) hw (.disposing id err)
      simp only [disposesOf,beq_self_eq_true,if_true,Bool.false_eq_true,if_false,add_zero] at hco
      simp only [Bool.and_eq_true,Bool.not_eq_true'] at ho
      obtain ⟨⟨hu,hs⟩,hd⟩ := ho
      apply ht.disposal hinv ?_ (fun other _ => hr hwa (fun _ => rfl) other)
      · refine ⟨hold.values,?_,by simp [hdo],?_,?_⟩
        · rw [hr hwa fun _ => rfl]
          exact hold.claimed
        · intro _ _ _ herr
          have hn := hold.shared hd hdo hs herr
          simp only [hpos,or_true,if_true,disposals] at hn
          simp only [disposals,hwa,hu,lt_irrefl,Bool.false_eq_true,or_self,if_false]
          omega
        · intro _ _ _ herr
          have hla : call.err.isSome = true := Option.isSome_iff_ne_none.mpr herr
          simp [DisposedOnce,Coalescer.leavesLate,hw,ht.before,hl,hdo,hs,hla,hu] at hg
      · intro other hne
        rw [hwa]
        exact waiting_set_other hw (by simp [disposesOf,Ne.symm hne])
    · rw [if_neg ho] at hwa
      have hsa : disposals c' id { call with waiters := 0 } = disposals c id call := by
        simp only [disposals,hdr hwa]
      apply ht.disposal hinv (fun other _ => hdr hwa other)
        (fun other _ => hr hwa (fun _ => rfl) other)
      refine ⟨hold.values,?_,by rw [hsa]; exact hold.unfinished,?_,by rw [hsa]; exact hold.refused⟩
      · rw [hr hwa fun _ => rfl]
        exact hold.claimed
      intro hd hc hs herr
      have hcl : call.claimed = true := by
        simp only at hd hs
        simpa [hd,hs] using ho
      rw [hsa,hold.shared hd hc hs herr]
      simp [hcl]

omit hinv

theorem disposals_reachable (h : ((coalescerSystem K V).guarded DisposedOnce).Reachable c) : DisposalsHold c := by
  refine System.Reachable.invariant (P := DisposalsHold) ?_ ?_ h
  · rintro _ rfl
    intro id call hc
    simp [newCoalescer] at hc
  rintro c e c' hr hinv ⟨hs,hg⟩
  have hsh := sharingInv_reachable hr.of_guarded
  cases e with
  | enter key disposer =>
    cases hs
    exact enter_disposal hinv hsh
  | workReturns id value err => exact workReturns_disposal hinv hs
  | complete id => exact complete_disposal hinv hsh hs
  | dispose id => exact dispose_disposal hinv hs
  | claim w => exact claim_disposal hinv hsh hs
  | leave w err => exact leave_disposal hinv hsh hg hs
  | drop w => exact drop_disposal hinv hs
  | close err =>
    cases hs
    exact close_disposal hinv
end Steps
/-- `run` has ended and every `Do` call of the shared call has returned. -/
def Settled (c : Coalescer K V) (id : Nat) (call : SharedCall K V) : Prop :=
  call.worker = .ended ∧ ∀ x ∈ c.waiters, x.waitsFor id = false ∧ x.disposesOf id = false

instance [DecidableEq V] (c : Coalescer K V) (id : Nat) (call : SharedCall K V) : Decidable (Settled c id call) :=
  inferInstanceAs (Decidable (_ ∧ ∀ x ∈ _, _))
/-- The value went to a waiter and never to the disposer, or to no waiter and once to the disposer. -/
def GoesOnce (c : Coalescer K V) (id : Nat) (call : SharedCall K V) : Prop :=
  Waiter.returned (.shared id call.value none) ∈ c.waiters ∧ call.disposed = [] ∨
    (∀ value, Waiter.returned (.shared id value none) ∉ c.waiters) ∧ call.disposed = [call.value]

theorem coalescer_disposes_once [DecidableEq K] [Inhabited V] (c : Coalescer K V)
    (h : ((coalescerSystem K V).guarded DisposedOnce).Reachable c) (id : Nat) (call : SharedCall K V)
    (hcall : c.shared[id]? = some call) (hdisposer : call.disposer = true) (hsucceeded : call.succeeded = true)
    (hsettled : Settled c id call) : GoesOnce c id call := by
  have hshare := sharingInv_reachable h.of_guarded
  have hacc := disposals_reachable h id call hcall
  have hinv := hshare.calls id call hcall
  have hdone : call.completed = true := by
    by_contra hopen
    have := hinv.worker.mp (by simpa using hopen)
    simp [hsettled.1] at this
  have hwaiters : call.waiters = 0 := by
    rw [hinv.counted]
    exact countP_eq_zero.mpr fun x hx => by simp [(hsettled.2 x hx).1]
  have hdisposals : disposals c id call = call.disposed.length := by
    have hdrops : c.waiters.countP (Waiter.disposesOf id) = 0 :=
      countP_eq_zero.mpr fun x hx => by simp [(hsettled.2 x hx).2]
    simp [disposals,hsettled.1,hdrops]
  -- A Do call that returned through the completion has the error of the call.
  have hreturned : ∀ {value : V} {err : Option GoError}, Waiter.returned (.shared id value err) ∈ c.waiters →
      (value, err) = call.outcome := by
    intro value err hmem
    obtain ⟨call',hcall',-,hvalue,herr⟩ := hshare.waiters _ hmem
    obtain rfl := Option.some.inj (hcall.symm.trans hcall')
    rw [hvalue,herr]
  have honce : disposals c id call = 1 → call.disposed = [call.value] := by
    intro hone
    obtain ⟨value,hvalue⟩ := length_eq_one_iff.mp (hdisposals.symm.trans hone)
    rw [hvalue,hacc.values value (by simp [hvalue])]
  cases herr : call.err with
  | some err =>
    right
    refine ⟨fun value hmem => ?_,honce (hacc.refused hdisposer hdone hsucceeded (by simp [herr]))⟩
    have := hreturned hmem
    simp [SharedCall.outcome,herr] at this
  | none =>
    have hcount := hacc.shared hdisposer hdone hsucceeded herr
    by_cases hclaimed : call.claimed = true
    · left
      simp only [hclaimed,true_or,if_true] at hcount
      refine ⟨?_,length_eq_zero_iff.mp (hdisposals.symm.trans hcount)⟩
      obtain ⟨x,hx,hreturns⟩ := countP_pos_iff.mp (hacc.claimed.mp hclaimed)
      cases x with
      | waiting | disposing => simp [Waiter.returnsFrom] at hreturns
      | returned result =>
        cases result with
        | refused | left => simp [Waiter.returnsFrom] at hreturns
        | shared call' value err' =>
          obtain rfl : call' = id := by simpa [Waiter.returnsFrom] using hreturns
          obtain ⟨rfl,rfl⟩ : value = call.value ∧ err' = none := by
            simpa [SharedCall.outcome,herr] using hreturned hx
          exact hx
    · right
      simp only [hclaimed,hwaiters,lt_irrefl,or_self,if_false,Bool.false_eq_true] at hcount
      refine ⟨fun value hmem => hclaimed (hacc.claimed.mpr ?_),honce hcount⟩
      exact countP_pos_iff.mpr ⟨_,hmem,by simp [Waiter.returnsFrom]⟩

private def SettledWith (c : Coalescer Nat Nat) (id : Nat) (values : List Nat) (call : SharedCall Nat Nat) : Prop :=
  call.disposer = true ∧ call.succeeded = true ∧ Settled c id call ∧ call.disposed = values

private instance (c : Coalescer Nat Nat) (id : Nat) (values : List Nat) (call : SharedCall Nat Nat) :
    Decidable (SettledWith c id values call) :=
  inferInstanceAs (Decidable (_ ∧ _ ∧ _ ∧ _))
/-- One waiter claims the value of its call, and the last waiter of another call leaves after its work has
succeeded. -/
def claimedAndLeft : List (CoalescerEvent Nat Nat) :=
  [.enter 7 true, .enter 7 true, .workReturns 0 5 none, .complete 0, .claim 0, .leave 1 Sentinel.canceled.error,
    .enter 7 true, .workReturns 1 6 none, .complete 1, .leave 2 Sentinel.canceled.error, .drop 2]

theorem coalescer_disposes_once_claimed :
    ∃ c : Coalescer Nat Nat, ((coalescerSystem Nat Nat).guarded DisposedOnce).Reachable c ∧
      (∃ call ∈ c.shared[0]?, call.disposed = [] ∧ GoesOnce c 0 call) ∧
      ∃ call ∈ c.shared[1]?, call.disposed = [6] ∧ GoesOnce c 1 call := by
  obtain ⟨c,hreach,hc⟩ := System.Reachable.of_foldlM_any (T := (coalescerSystem Nat Nat).guarded DisposedOnce)
    (s := newCoalescer Nat Nat) (System.barred Coalescer.leavesLate Coalescer.step) claimedAndLeft
    (fun c => decide ((∃ call, call ∈ c.shared[0]? ∧ SettledWith c 0 [] call) ∧
      ∃ call, call ∈ c.shared[1]? ∧ SettledWith c 1 [6] call))
    rfl (fun _ _ _ _ h => System.guarded_of_barred id h) (by decide +kernel)
  obtain ⟨⟨call,hcall,hdisposer,hsucceeded,hsettled,hdisposed⟩,
    ⟨call',hcall',hdisposer',hsucceeded',hsettled',hdisposed'⟩⟩ := of_decide_eq_true hc
  exact ⟨c,hreach,
    ⟨call,hcall,hdisposed,coalescer_disposes_once c hreach 0 call hcall hdisposer hsucceeded hsettled⟩,
    ⟨call',hcall',hdisposed',coalescer_disposes_once c hreach 1 call' hcall' hdisposer' hsucceeded' hsettled'⟩⟩
/-- `Close` comes before the work succeeds, so `run` disposes of the value; its last waiter then leaves
through its context and disposes of it again. -/
def closedThenLeft : List (CoalescerEvent Nat Nat) :=
  [.enter 7 true, .close none, .workReturns 0 5 none, .complete 0, .leave 0 Sentinel.canceled.error, .dispose 0, .drop 0]

theorem coalescer_disposes_twice : ∃ c : Coalescer Nat Nat, (coalescerSystem Nat Nat).Reachable c ∧
    ∃ call ∈ c.shared[0]?, call.disposer = true ∧ call.succeeded = true ∧ Settled c 0 call ∧
      call.disposed = [5, 5] ∧ ¬ GoesOnce c 0 call := by
  obtain ⟨c,hreach,hc⟩ := System.Reachable.of_foldlM_any (T := coalescerSystem Nat Nat) (s := newCoalescer Nat Nat)
    Coalescer.step closedThenLeft
    (fun c => decide (∃ call, call ∈ c.shared[0]? ∧ SettledWith c 0 [5, 5] call)) rfl (fun _ _ _ _ h => h) (by decide +kernel)
  obtain ⟨call,hcall,hdisposer,hsucceeded,hsettled,hdisposed⟩ := of_decide_eq_true hc
  refine ⟨c,hreach,call,hcall,hdisposer,hsucceeded,hsettled,hdisposed,?_⟩
  rintro (⟨-,hnone⟩ | ⟨-,hone⟩)
  · simp [hdisposed] at hnone
  · simp [hdisposed] at hone
end FlussGo
