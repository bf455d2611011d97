import FlussGo.Transport.Replies
/-!
# Requests on one connection

What holds of the requests in every run: their IDs, their number, what they return and what becomes
of them when the connection fails.
-/
namespace FlussGo
open List System.Leads Prod
namespace Transport
variable {c : Connection} {s s' : State} {n : Nat} {r : Result} {id : Int} {err : Error}
/-- The call has written nothing and can only fail. -/
def Phase.early : Phase → Bool
  | .waiting => true
  | .slotted => true
  | .checked => true
  | .releasing result => result.err.isSome
  | .returned result => result.err.isSome
  | _ => false

structure LateInv (s : State) : Prop where
  closed : ∀ n ∈ s.late, s.closeErr ≠ none
  early : ∀ n ∈ s.late, (s.calls n).early = true
  silent : ∀ n ∈ s.late, ∀ w ∈ s.writes, w.call ≠ n
  writers : ∀ w ∈ s.writes, s.calls w.call ≠ .absent

theorem lateInv_initial : LateInv {} := by
  constructor <;> simp

theorem LateInv.same (hinv : LateInv s) (hc : s'.calls = s.calls) (hl : s'.late = s.late)
    (hwr : s'.writes = s.writes) (hcl : s.closeErr ≠ none → s'.closeErr ≠ none) : LateInv s' where
  closed n hn := hcl (hinv.closed n (hl ▸ hn))
  early n hn := hc ▸ hinv.early n (hl ▸ hn)
  silent n hn w hw := hinv.silent n (hl ▸ hn) w (hwr ▸ hw)
  writers w hw := hc ▸ hinv.writers w (hwr ▸ hw)

theorem LateInv.goto {p : Phase} (hinv : LateInv s) (hca : s'.calls = (s.goto n p).calls) (hl : s'.late = s.late)
    (hwr : ∀ w ∈ s'.writes, w ∈ s.writes ∨ w.call = n ∧ (s.calls n).early = false)
    (hcl : s.closeErr ≠ none → s'.closeErr ≠ none) (hp : p ≠ .absent)
    (he : s.closeErr ≠ none → (s.calls n).early = true → p.early = true) : LateInv s' where
  closed m hm := hcl (hinv.closed m (hl ▸ hm))
  early m hm := by
    rw [hl] at hm
    rw [hca]
    by_cases hmn : m = n
    · subst hmn
      rw [goto_calls_self]
      exact he (hinv.closed m hm) (hinv.early m hm)
    · rw [goto_calls_ne hmn]
      exact hinv.early m hm
  silent m hm w hw := by
    rw [hl] at hm
    rcases hwr w hw with hw | ⟨hc,hla⟩
    · exact hinv.silent m hm w hw
    · rintro rfl
      rw [← hc,hinv.early _ hm] at hla
      cases hla
  writers w hw := by
    rw [hca]
    by_cases hmn : w.call = n
    · rw [hmn,goto_calls_self]
      exact hp
    · rw [goto_calls_ne hmn]
      rcases hwr w hw with hw | ⟨hc,_⟩
      · exact hinv.writers w hw
      · exact absurd hc hmn

private theorem Move.early {p q : Phase} (h : Move s n p q) : q ≠ .absent ∧ (p.early = true → q.early = true) := by
  cases h <;> simp [Phase.early,Result.err]

private theorem validate_early {maxFrame : Int} {r : Request} {ctx : Option ContextError} :
    (validate maxFrame r ctx).early = true := by
  unfold validate
  split
  · rfl
  split
  · rfl
  split
  · rfl
  split <;> rfl

theorem LateInv.add (hinv : LateInv s) (hc : s.closeErr ≠ none) (he : (s.calls n).early = true)
    (hs : ∀ w ∈ s.writes, w.call ≠ n) : LateInv { s with late := n :: s.late } where
  closed _ _ := hc
  early m hm := by
    rcases mem_cons.mp hm with rfl | hm
    · exact he
    · exact hinv.early m hm
  silent m hm := by
    rcases mem_cons.mp hm with rfl | hm
    · exact hs
    · exact hinv.silent m hm
  writers := hinv.writers

theorem step_late {label : Label} (h : Step c s label s') (hinv : LateInv s) : LateInv s' := by
  have fails : ∀ {stage : FailStage}, s.closeErr ≠ none → (s.fail stage).1.closeErr ≠ none := by
    intro stage hne
    obtain ⟨err,herr⟩ := Option.ne_none_iff_exists'.mp hne
    rw [fail_closeErr herr]
    simp
  -- The steps of a call that is not early, and so not late.
  have later : ∀ {t : State} {n : Nat} {p : Phase}, (s.calls n).early = false →
      t.calls = (s.goto n p).calls → p ≠ .absent → t.late = s.late → t.writes = s.writes → t.closeErr = s.closeErr →
      LateInv t := by
    intro t n p hph hca hp hl hwr hc
    refine hinv.goto hca hl (fun w hw => .inl (hwr ▸ hw)) (by rw [hc]; exact fun h => h) hp fun _ h => ?_
    rw [hph] at h
    cases h
  cases h with
  | @call n hph =>
    have he : (validate c.maxFrame (c.requests n) (s.contexts n)).early = true := validate_early
    have hp : validate c.maxFrame (c.requests n) (s.contexts n) ≠ .absent := by
      intro ha
      rw [ha] at he
      cases he
    have hg : LateInv (s.goto n (validate c.maxFrame (c.requests n) (s.contexts n))) :=
      hinv.goto rfl rfl (fun w hw => .inl hw) (fun h => h) hp fun _ _ => he
    cases hc : s.closeErr with
    | none => exact hg
    | some err =>
      refine hg.add (show s.closeErr ≠ none by simp [hc]) (by rw [goto_calls_self]; exact he) ?_
      intro w hw hcal
      exact hinv.writers w hw (hcal ▸ hph)
  | takeSlot hph hro =>
    exact hinv.goto rfl rfl (fun w hw => .inl hw) (fun h => h) (by simp) fun _ _ => rfl
  | move hm =>
    exact hinv.goto rfl rfl (fun w hw => .inl hw) (fun h => h) hm.early.1 fun _ => hm.early.2
  | register _ ho | exhausted _ ho =>
    exact hinv.goto rfl rfl (fun w hw => .inl hw) (fun h => h) (by simp) fun hc => absurd ho hc
  | lock hph | cancelWrite hph | prepareFailed _ hph | prepare hph | receive hph | unregister hph =>
    exact later (by rw [hph]; rfl) rfl (by simp) rfl rfl rfl
  | write hph hwri ho herr =>
    refine later (by rw [hph]; rfl) rfl ?_ rfl rfl rfl
    split <;> simp
  | @finish n id total err finishErr hph hfi =>
    have he : (s.calls n).early = false := by rw [hph]; rfl
    refine hinv.goto rfl rfl ?_ (fun h => h) ?_ fun _ h => ?_
    · intro w hw
      rcases mem_append.mp hw with hw | hw
      · exact .inl hw
      · rw [mem_singleton] at hw
        subst hw
        exact .inr ⟨rfl,he⟩
    · intro ha
      have := (writeResult_keeps id total err finishErr).1
      rw [ha] at this
      cases this
    · rw [he] at h
      cases h
  | @failCall n id err stage hph hs =>
    have hf := fail_frame s stage
    refine hinv.goto (n := n) (p := .failing id err (s.fail stage).2) ?_ hf.late ?_ fails (by simp) fun _ => ?_
    · simp only [State.goto,hf.calls]
    · exact fun w hw => .inl (hf.writes ▸ hw)
    · simp [hph,Phase.early]
  | release hph =>
    refine hinv.goto rfl rfl (fun w hw => .inl hw) (fun h => h) (by simp) fun _ => ?_
    rw [hph]
    exact fun h => h
  | @failReader stage hr hs | @failCloser stage _ _ hcl hs =>
    have hf := fail_frame s stage
    exact hinv.same hf.calls hf.late hf.writes fails
  | _ => exact hinv.same rfl rfl rfl fun h => h

theorem reachable_late (h : c.system.Reachable s) : LateInv s := by
  refine System.Reachable.invariant (P := LateInv) ?_ ?_ h
  · rintro s rfl
    exact lateInv_initial
  · intro s label s' _ hinv hs
    exact step_late hs hinv
/-- The call waits for nothing but the connection. -/
def Phase.idle : Phase → Bool
  | .waiting => true
  | .slotted => true
  | .checked => true
  | .awaiting _ => true
  | .leaving _ _ => true
  | .releasing _ => true
  | _ => false

private theorem releasing_returns (h : s.calls n = .releasing r) :
    ∃ s', c.system.Leads s s' ∧ s'.calls n = .returned r :=
  ⟨_,(refl s).step (T := c.system) (.release h),goto_calls_self s n _⟩

private theorem leaving_returns (h : s.calls n = .leaving id r) :
    ∃ s', c.system.Leads s s' ∧ s'.calls n = .returned r := by
  let s₁ : State := { s.goto n (.releasing r) with pending := s.pending.filter (·.1 ≠ id) }
  have h₁ : c.system.step s .other s₁ := .unregister h
  obtain ⟨s₂,hl,hr⟩ := releasing_returns (c := c) (show s₁.calls n = _ from goto_calls_self s n _)
  exact ⟨s₂,((refl s).step h₁).trans hl,hr⟩

private theorem checked_returns (hc : s.closeErr = some err) (h : s.calls n = .checked) :
    ∃ s' r, c.system.Leads s s' ∧ s'.calls n = .returned r := by
  have h₁ : c.system.step s .other (s.goto n (.releasing (.terminal err))) :=
    .move (by rw [h]; exact .closedRegister hc)
  obtain ⟨s₂,hl,hr⟩ := releasing_returns (c := c) (goto_calls_self s n _)
  exact ⟨s₂,_,((refl s).step h₁).trans hl,hr⟩
/-- No call keeps waiting on a closed connection: it can return whatever the others do. -/
theorem closed_returns (hc : s.closeErr = some err) (h : (s.calls n).idle = true) :
    ∃ s' r, c.system.Leads s s' ∧ s'.calls n = .returned r := by
  cases hp : s.calls n with
  | waiting =>
    have h₁ : c.system.step s .other (s.goto n (.returned (.terminal err))) :=
      .move (by rw [hp]; exact .closedWait hc)
    exact ⟨_,_,(refl s).step h₁,goto_calls_self s n _⟩
  | slotted =>
    cases hctx : s.contexts n with
    | none =>
      have h₁ : c.system.step s .other (s.goto n .checked) := .move (by rw [hp]; exact .check hctx)
      obtain ⟨s₂,r,hl,hr⟩ := checked_returns (c := c) (s := s.goto n .checked) hc (goto_calls_self s n _)
      exact ⟨s₂,r,((refl s).step h₁).trans hl,hr⟩
    | some cause =>
      have h₁ : c.system.step s .other (s.goto n (.releasing (.context cause))) :=
        .move (by rw [hp]; exact .cancelSlot hctx)
      obtain ⟨s₂,hl,hr⟩ := releasing_returns (c := c) (goto_calls_self s n _)
      exact ⟨s₂,_,((refl s).step h₁).trans hl,hr⟩
  | checked => exact checked_returns hc hp
  | awaiting id =>
    have h₁ : c.system.step s .other (s.goto n (.leaving id (.terminal err))) :=
      .move (by rw [hp]; exact .closedAwait hc)
    obtain ⟨s₂,hl,hr⟩ := leaving_returns (c := c) (goto_calls_self s n _)
    exact ⟨s₂,_,((refl s).step h₁).trans hl,hr⟩
  | leaving id r =>
    obtain ⟨s₂,hl,hr⟩ := leaving_returns (c := c) hp
    exact ⟨s₂,r,hl,hr⟩
  | releasing r =>
    obtain ⟨s₂,hl,hr⟩ := releasing_returns (c := c) hp
    exact ⟨s₂,r,hl,hr⟩
  | _ => simp [hp,Phase.idle] at h

theorem closeErr_leads (hr : c.system.Reachable s) (h : c.system.Leads s s') (hc : s.closeErr = some err) :
    s'.closeErr = some err := by
  obtain ⟨labels,hrun⟩ := h
  induction hrun with
  | nil => exact hc
  | @snoc t t' labels label hrun hs ih =>
    have hr' := hr.leads ⟨labels,hrun⟩
    exact (step_grows hs (reachable_replies hr')).closeErr err ih

def Result.frame : Result → Option Nat
  | .response number _ => some number
  | .remote number _ _ => some number
  | .undecodable number _ => some number
  | _ => none

theorem ResultOk.delivered {number : Nat} (h : ResultOk c s n r) (hf : r.frame = some number) :
    ∃ reply, Delivered c s n number reply := by
  cases r with
  | response k bytes =>
    cases hf
    exact ⟨_,h.1⟩
  | remote k code message =>
    cases hf
    exact ⟨_,h⟩
  | undecodable k err =>
    cases hf
    obtain ⟨bytes,hd,_⟩ := h
    exact ⟨_,hd⟩
  | _ => cases hf
/-- What holds of the requests on a connection. -/
structure Disciplined (c : Connection) (s : State) : Prop where
  ids_positive : ∀ id n, (id, n) ∈ s.pending → 1 ≤ id ∧ id ≤ 2147483647 ∧ s.ids n = some id
  ids_distinct : (s.pending.map fst).Nodup
  limit : (s.pending.length : Int) ≤ c.maxInFlight
  results : ∀ n r, s.calls n = .returned r → ResultOk c s n r
  consumed : ∀ n m r r' number, s.calls n = .returned r → s.calls m = .returned r' → r.frame = some number →
    r'.frame = some number → n = m
  closed : s.closeErr ≠ none → s.pending = [] ∧
    ∀ n, (s.calls n).idle = true → ∃ s' r, c.system.Leads s s' ∧ s'.calls n = .returned r
  late : ∀ n ∈ s.late, (s.calls n).early = true ∧ ∀ w ∈ s.writes, w.call ≠ n
  terminal : ∀ s' err, c.system.Leads s s' → s.closeErr = some err → s'.closeErr = some err
/-- In every run IDs are positive and distinct, the limit holds, results come from the call's own frame,
the call itself or the terminal error, frames are consumed once, and a closed connection leaves no
request pending and lets no later one write. IDs can run out, with a limit above the number of IDs. -/
theorem connection_requests (c : Connection) (s : State) (h : c.system.Reachable s) : Disciplined c s := by
  have htable := reachable_table h
  have hreplies := reachable_replies h
  have hlate := reachable_late h
  have hresults : ∀ n r, s.calls n = .returned r → ResultOk c s n r := by
    intro n r hphase
    exact hreplies.results n r (by rw [hphase]; rfl)
  constructor
  case ids_positive =>
    intro id n hmem
    obtain ⟨hpos,hmax⟩ := htable.ids_range id n hmem
    exact ⟨hpos,hmax,hreplies.ids n id (htable.registered id n hmem)⟩
  case ids_distinct => exact htable.ids_nodup
  case limit => exact htable.pending_le
  case results => exact hresults
  case consumed =>
    intro n m r r' number hn hm hframe hframe'
    obtain ⟨_,_,_,_,_,_,hmem⟩ := (hresults n r hn).delivered hframe
    obtain ⟨_,_,_,_,_,_,hmem'⟩ := (hresults m r' hm).delivered hframe'
    exact congrArg snd (inj_on_of_nodup_map hreplies.deliveries_nodup hmem hmem' rfl)
  case closed =>
    intro hclosed
    obtain ⟨err,herr⟩ := Option.ne_none_iff_exists'.mp hclosed
    exact ⟨htable.closed hclosed,fun n hidle => closed_returns herr hidle⟩
  case late => exact fun n hn => ⟨hlate.early n hn,hlate.silent n hn⟩
  case terminal => exact fun s' err hleads herr => closeErr_leads h hleads herr

private theorem freeID_next {taken : List Int} {attempts : Nat} (ha : attempts ≠ 0)
    (hf : advanceID id ∉ taken) : freeID taken attempts id = some (advanceID id) := by
  obtain ⟨attempts,rfl⟩ := Nat.exists_eq_succ_of_ne_zero ha
  rw [freeID,if_neg (by simpa using hf)]

private theorem freeID_all_taken {taken : List Int} {attempts : Nat} (hid : 0 ≤ id ∧ id ≤ 2147483647)
    (ht : ∀ t, 1 ≤ t → t ≤ 2147483647 → t ∈ taken) : freeID taken attempts id = none := by
  induction attempts generalizing id with
  | zero => rfl
  | succ attempts ih =>
    have hr := advanceID_range hid
    rw [freeID,if_pos (by simpa using ht _ hr.1 hr.2)]
    exact ih ⟨by omega,hr.2⟩
/-- One slot more than there are IDs, and requests with an empty body. -/
def wideConnection : Connection where
  maxFrame := 64
  maxInFlight := 2147483648
  requests := fun _ => { apiKey := 1, version := 0, marshal := .ok [] }
  errorResponse := fun _ => .error ""
  maxFrame_pos := by decide
  maxInFlight_pos := by decide
/-- The first `count` calls are registered with the first `count` IDs, and nothing else has happened. -/
private structure Filled (count : Nat) (s : State) : Prop where
  calls : ∀ m, count ≤ m → s.calls m = .absent
  contexts : ∀ m, s.contexts m = none
  closeErr : s.closeErr = none
  slots : s.slots.length = count
  nextID : s.nextID = count
  pending : s.pending.length = count
  taken : ∀ id, id ∈ s.pending.map fst ↔ 1 ≤ id ∧ id ≤ count
  frames : s.frames = []
  writes : s.writes = []

private theorem filled_reachable (count : Nat) (h : count ≤ 2147483647) :
    ∃ s, wideConnection.system.Reachable s ∧ Filled count s := by
  induction count with
  | zero =>
    refine ⟨{},.init rfl,?_⟩
    constructor <;> simp
    omega
  | succ count ih =>
    obtain ⟨s,hre,hf⟩ := ih (by omega)
    have ha : advanceID s.nextID = count + 1 := by
      rw [hf.nextID,advanceID,if_neg (by omega)]
    have hfr : freeID (s.pending.map fst) idAttempts s.nextID = some (count + 1 : Int) := by
      rw [← ha]
      refine freeID_next (by decide) ?_
      rw [ha,hf.taken]
      omega
    obtain ⟨s',hl,hr⟩ := register_leads (T := wideConnection.system) (fun h => h)
      (hf.calls count le_rfl) (hf.contexts count) hf.closeErr rfl
      (by rw [hf.slots]; simp only [wideConnection]; omega) hfr
    refine ⟨s',hre.leads hl,?_⟩
    constructor
    case calls =>
      intro m hm
      rw [hr.others m (by omega)]
      exact hf.calls m (by omega)
    case contexts => exact fun m => hr.contexts ▸ hf.contexts m
    case closeErr => rw [hr.closeErr,hf.closeErr]
    case slots => rw [hr.slots,length_append,hf.slots,length_singleton]
    case nextID =>
      rw [hr.nextID]
      rfl
    case pending => rw [hr.pending,length_cons,hf.pending]
    case taken =>
      intro id
      rw [hr.pending,map_cons,mem_cons,hf.taken]
      omega
    case frames => rw [hr.frames,hf.frames]
    case writes => rw [hr.writes,hf.writes]
/-- When every ID is pending, the next request returns an error that is none of its own and not terminal:
nothing was read or written, no context has ended and the connection is open. -/
theorem connection_exhausted : ∃ s n taken, wideConnection.system.Reachable s ∧ s.calls n = .returned (.exhausted taken) ∧
    (Result.exhausted taken).err = some .exhausted ∧ s.closeErr = none ∧ (∀ m, s.contexts m = none) ∧ s.frames = [] ∧
    s.writes = [] ∧ validate wideConnection.maxFrame (wideConnection.requests n) none = .waiting ∧
    s.pending.length = 2147483647 := by
  obtain ⟨n,hn⟩ : ∃ n : Nat, n = 2147483647 := ⟨_,rfl⟩
  obtain ⟨s,hreach,hfilled⟩ := filled_reachable n (by omega)
  let s₁ : State := { s with calls := Function.update s.calls n .checked, slots := s.slots ++ [n] }
  have hleads : wideConnection.system.Leads s s₁ := checked_leads (fun h => h) (hfilled.calls n le_rfl)
    (hfilled.contexts n) hfilled.closeErr rfl (by rw [hfilled.slots]; simp only [wideConnection]; omega)
  have hfree : freeID (s₁.pending.map fst) idAttempts s₁.nextID = none := by
    refine freeID_all_taken ?_ fun t h₁ h₂ => (hfilled.taken t).mpr ⟨h₁,by omega⟩
    show 0 ≤ s.nextID ∧ s.nextID ≤ _
    rw [hfilled.nextID]
    omega
  let s₂ : State := { s₁.goto n (.releasing (.exhausted (s₁.pending.map fst))) with nextID := spentID s₁.nextID }
  have h₂ : wideConnection.system.step s₁ .other s₂ :=
    .exhausted (Function.update_self ..) hfilled.closeErr hfree
  let s₃ : State := { s₂.goto n (.returned (.exhausted (s₁.pending.map fst))) with slots := s₂.slots.erase n }
  have h₃ : wideConnection.system.step s₂ .other s₃ := .release (goto_calls_self s₁ _ _)
  exact ⟨s₃,n,_,((hreach.leads hleads).step h₂).step h₃,goto_calls_self s₂ _ _,rfl,hfilled.closeErr,
    hfilled.contexts,hfilled.frames,hfilled.writes,rfl,hfilled.pending.trans hn⟩
/-- The first request is registered with the first ID. -/
theorem connection_requests_first :
    ∃ s, s.pending = [(1, 0)] ∧ s.calls 0 = .registered 1 ∧ Disciplined wideConnection s := by
  obtain ⟨s,hleads,hregistered⟩ := register_leads (T := wideConnection.system) (fun h => h) (s := {}) (n := 0)
    rfl rfl rfl rfl (by simp [wideConnection]) (show freeID _ _ _ = some 1 from freeID_next (by decide) (by simp))
  exact ⟨s,hregistered.pending,hregistered.phase,
    connection_requests wideConnection s (System.Reachable.leads (.init rfl) hleads)⟩
end Transport
end FlussGo
