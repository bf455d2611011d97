import FlussGo.Scanner.Limits
/-!
# Wakeups

`Wakeup` leaves a flag that one `Poll` takes when it returns `ErrWakeup`. No other step of a poll takes
the flag while the scanner is open, so a wakeup is neither lost nor answered twice.
-/
namespace FlussGo
open Outcome List LogScanner PollReturn PollState
def PollReturn.isWakeup (ret : PollReturn) : Bool :=
  match ret.outcome with
  | .error e => e.sentinel == some .wakeup
  | .ok _ => false

def PollEvent.isWakeup : PollEvent → Bool
  | .wakeup => true
  | _ => false

section Errors
private def SchemaError (e : GoError) : Prop := e.sentinel = some .invalidSchema

private theorem schemaError_failf {α : Type} (message : String) :
    (failf .invalidSchema message : Go α).Errs SchemaError :=
  errs_err rfl

private theorem arrowSchema_errs (schema : Schema) : schema.arrowSchema.Errs SchemaError := by
  have hc : ∀ columns, (arrowColumns columns).Errs SchemaError := by
    intro columns
    induction columns with
    | nil => exact errs_ok _ _
    | cons column columns ih =>
      have hu : ∀ context e, SchemaError (GoError.under .invalidSchema context e) := fun _ _ => rfl
      exact (Outcome.Errs.mapErr (hu _)).bind fun _ => ih.bind fun _ => errs_ok _ _
  exact schema.validate_refuses.2.bind fun _ => hc _

private theorem projectScanArrows_errs (s : LogScanner) (arrows : List ScanArrowBatch) :
    (s.projectScanArrows arrows).Errs SchemaError := by
  have hc : ∀ record projection, (projectColumnsOf record projection).Errs SchemaError := by
    intro record projection
    induction projection with
    | nil => exact errs_ok _ _
    | cons position projection ih =>
      unfold projectColumnsOf
      split
      · exact schemaError_failf _
      · exact ih.bind fun _ => errs_ok _ _
  have ha : ∀ fields projection arrows, (projectArrows fields projection arrows).Errs SchemaError := by
    intro fields projection arrows
    induction arrows with
    | nil => exact errs_ok _ _
    | cons arrow arrows ih =>
      obtain ⟨bucket,batch⟩ := arrow
      unfold projectArrows
      split
      · exact errs_panic _ _
      · refine (hc _ _).bind fun _ => Outcome.Errs.bind ?_ fun _ => ih.bind fun _ => errs_ok _ _
        unfold newRecordBatch
        exact errs_ite (errs_panic _ _) (errs_ite (errs_panic _ _) (errs_ok _ _))
  unfold projectScanArrows
  exact errs_ite (errs_ok _ _) ((arrowSchema_errs _).bind fun _ => ha _ _ _)
/-- An error that ends a poll behind its fetch is one of the schema. -/
theorem LogScanner.decodeBucket_poll_error {s : LogScanner} {reader : ArrowReader} {resolver : SchemaResolver}
    {bucket offset : Int} {fetched : ScannerFetch} {e : GoError}
    (h : s.decodeBucket reader resolver bucket offset fetched = .err (.poll e)) : e.sentinel = some .invalidSchema := by
  unfold decodeBucket at h
  split at h
  · cases h
  · cases h
  split at h
  · cases h
  · cases h
  split at h
  · cases h
  split at h
  · cases h
  next hp =>
    obtain rfl := PollFailure.poll.inj (Outcome.err.inj h)
    have hr : ∀ rows, (s.projectScanRows rows).Errs SchemaError := by
      intro rows
      unfold projectScanRows
      exact errs_ite (errs_ok _ _) fun _ herr => absurd herr (projectRows_ne_err _ _ _)
    exact (hr _).bind (fun _ => (projectScanArrows_errs s _).bind fun _ => errs_ok _ _) _ hp
  · cases h
end Errors

section Steps
variable {s : LogScanner} {reader : ArrowReader} {σ σ' : PollState} {e : PollEvent}
/-- Why the caller's context has ended. -/
def PollState.cause (σ : PollState) : Option GoError := σ.active.bind ActivePoll.canceled
/-- What a step does to the flag and to the polls. -/
inductive WakeCase (σ σ' : PollState) (e : PollEvent) : Prop
  | same (hevent : e ≠ .wakeup) (hreturned : σ'.returned = σ.returned) (hactive : σ'.active.isSome = σ.active.isSome)
      (hwake : σ'.scanner.wakePending = σ.scanner.wakePending)
      (hcause : ∀ err, σ'.cause = some err → σ.cause = some err ∨ e = .cancel err)
  | begins (hevent : e ≠ .wakeup) (hreturned : σ'.returned = σ.returned) (hwake : σ.scanner.wakePending = false)
      (hscanner : σ'.scanner = σ.scanner) (hcause : σ'.cause = none)
  /-- The poll takes the flag. -/
  | woken (ret : PollReturn) (hevent : e ≠ .wakeup) (hret : ret.isWakeup = true) (hreturned : σ'.returned = σ.returned ++ [ret])
      (hwake : σ.scanner.wakePending = true) (htaken : σ'.scanner.wakePending = false) (hactive : σ'.active = none)
  /-- The poll leaves the flag, unless the scanner is closed. -/
  | returned (ret : PollReturn) (hevent : e ≠ .wakeup) (hreturned : σ'.returned = σ.returned ++ [ret])
      (hcanceled : ret.isWakeup = true → ∃ err, σ.cause = some err ∧ err.sentinel = some .wakeup)
      (hactive : σ'.active = none)
      (hholder : σ.active.isSome = true ∨ σ.scanner.closed = true ∨ σ.scanner.done = true ∨ σ.scanner.wakePending = false)
      (hwake : σ'.scanner.wakePending = σ.scanner.wakePending ∨
        σ.scanner.closed = true ∧ σ'.scanner.wakePending = false)
  | wakeup (hevent : e = .wakeup) (hreturned : σ'.returned = σ.returned) (hactive : σ'.active = σ.active)
      (hwake : σ.scanner.closed = false → σ.scanner.done = false → σ'.scanner.wakePending = true)

private theorem recordFetchError_wake {a : ActivePoll} {bucket : Int} {queue : List (Int × Int)} {err : GoError}
    (ha : σ.active = some a) (he : e ≠ .wakeup) : WakeCase σ (recordFetchError σ a bucket queue err) e := by
  have hh : σ.active.isSome = true := by rw [ha]; rfl
  unfold recordFetchError
  cases hc : a.canceled with
  | some cause =>
    refine .returned ⟨.error cause,a.scans⟩ he rfl (fun hret => ⟨cause,by simp [PollState.cause,ha,hc],?_⟩) rfl (.inl hh) (.inl rfl)
    simpa [isWakeup] using hret
  | none =>
    dsimp only
    split
    next hcl =>
      exact .returned _ he rfl (fun hret => by simp [isWakeup,Sentinel.error] at hret) rfl (.inl hh)
        (.inr ⟨hcl,rfl⟩)
    split
    next hw => exact .woken _ he rfl rfl hw rfl rfl
    next hw =>
      refine .same he rfl (by rw [hh]; rfl) ?_ fun err herr => .inl ?_
      · simpa [bucketFailed] using hw
      · rwa [PollState.cause,ha]

theorem LogScanner.step_wake (h : s.step reader σ e = some σ') : WakeCase σ σ' e := by
  cases e with
  | begin =>
    have he : PollEvent.begin ≠ .wakeup := by simp
    simp only [step,beginPoll] at h
    split at h
    · cases h
    split at h
    next hc =>
      cases h
      exact .returned _ he rfl (fun hret => by simp [isWakeup,Sentinel.error] at hret) rfl
        (.inr (.inl hc)) (.inl rfl)
    split at h
    next hd =>
      cases h
      exact .returned _ he rfl (fun hret => by simp [isWakeup] at hret) rfl (.inr (.inr (.inl hd)))
        (.inl rfl)
    split at h
    next hw =>
      cases h
      exact .woken _ he rfl rfl hw rfl rfl
    rename_i hw
    have hw : σ.scanner.wakePending = false := by simpa using hw
    split at h
    · cases h
      exact .returned _ he rfl (fun hret => by simp [isWakeup,errorf] at hret) rfl
        (.inr (.inr (.inr hw))) (.inl rfl)
    · cases h
      exact .begins he rfl hw rfl rfl
  | visit fetched resolver =>
    have he : PollEvent.visit fetched resolver ≠ .wakeup := by simp
    obtain ⟨a,bucket,offset,queue,ha,hp,hq,hca⟩ := pollBucket_cases h
    have hh : σ.active.isSome = true := by rw [ha]; rfl
    cases hca with
    | unfetched err => exact recordFetchError_wake ha he
    | undecoded | collected => exact .same he rfl (by rw [hh]; rfl) rfl fun err herr => .inl (by rwa [PollState.cause,ha])
    | unprojected herr =>
      refine .returned _ he rfl (fun hret => ?_) rfl (.inl hh) (.inl rfl)
      simp [isWakeup,decodeBucket_poll_error herr] at hret
  | advance =>
    obtain ⟨a,p,ha,_,rfl⟩ := advance_eq_some h
    exact .same (by simp) rfl (by rw [ha]; rfl) rfl fun err herr => .inl (by rwa [PollState.cause,ha])
  | finish =>
    obtain ⟨a,ha,_,rfl⟩ := finish_eq_some h
    exact .returned _ (by simp) rfl (fun hret => by simp [isWakeup] at hret) rfl (.inl (by rw [ha]; rfl)) (.inl rfl)
  | wakeup =>
    cases h
    unfold wakeup
    split
    · exact .wakeup rfl rfl rfl fun _ _ => rfl
    next ho => exact .wakeup rfl rfl rfl fun hc hd => absurd ⟨hc,hd⟩ ho
  | close =>
    cases h
    exact .same (by simp) rfl rfl rfl fun _ => .inl
  | cancel err =>
    obtain ⟨a,ha,rfl⟩ := cancel_eq_some h
    refine .same (by simp) rfl (by rw [ha]; rfl) rfl fun err' herr => ?_
    rcases Option.or_eq_some_iff.mp herr with hc | ⟨_,hc⟩
    · exact .inl (by rwa [PollState.cause,ha])
    · exact .inr (Option.some_inj.mp hc ▸ rfl)

def PlainlyCanceled (σ : PollState) : Prop := ∀ err, σ.cause = some err → err.sentinel ≠ some .wakeup

private theorem plainlyCanceled_of_none (h : σ.active = none) : PlainlyCanceled σ := by
  simp [PlainlyCanceled,cause,h]

private theorem plainlyCanceled_step (h : PlainlyCanceled σ) (hs : s.step reader σ e = some σ')
    (hca : ∀ err, e = .cancel err → err.sentinel ≠ some .wakeup) : PlainlyCanceled σ' := by
  cases step_wake hs with
  | same _ _ _ _ hc => exact fun err herr => (hc err herr).elim (h err) (hca err)
  | begins _ _ _ _ hc => simp [PlainlyCanceled,hc]
  | woken _ _ _ _ _ _ ha | returned _ _ _ _ ha => exact plainlyCanceled_of_none ha
  | wakeup _ _ ha _ => rwa [PlainlyCanceled,cause,ha]
end Steps

section Runs
variable {s : LogScanner} {reader : ArrowReader} {created : ScannerState} {σ σ₀ : PollState} {es : List PollEvent}

private theorem wakeups_counted (hcr : created.wakePending = false)
    (hrun : (s.system reader created).Run { scanner := created } es σ)
    (hc : ∀ err, PollEvent.cancel err ∈ es → err.sentinel ≠ some .wakeup) :
    PlainlyCanceled σ ∧
      σ.returned.countP isWakeup + (if σ.scanner.wakePending then 1 else 0) ≤ es.countP PollEvent.isWakeup := by
  induction hrun with
  | nil => exact ⟨plainlyCanceled_of_none rfl,by simp [hcr]⟩
  | @snoc σ σ' es e hrun hst ih =>
    obtain ⟨hp,hco⟩ := ih fun err herr => hc err (mem_append_left _ herr)
    refine ⟨plainlyCanceled_step hp hst fun err he => hc err (by simp [he]),?_⟩
    rw [countP_append]
    cases step_wake hst with
    | same _ hr _ hw _ | begins _ hr _ hw _ =>
      rw [hr,hw]
      omega
    | woken ret _ hret hr hw ht _ =>
      rw [hr,ht,countP_append,countP_singleton,hret]
      rw [hw] at hco
      simp only [if_true] at hco
      simp only [if_true,Bool.false_eq_true,if_false]
      omega
    | returned ret _ hr hca _ _ hw =>
      have hret : ret.isWakeup = false := by
        by_contra hret
        obtain ⟨err,herr,hs⟩ := hca (by simpa using hret)
        exact hp err herr hs
      rw [hr,countP_append,countP_singleton,hret]
      simp only [Bool.false_eq_true,if_false]
      rcases hw with hw | ⟨_,hw⟩
      · rw [hw]
        omega
      · rw [hw]
        simp only [Bool.false_eq_true,if_false]
        omega
    | wakeup he hr _ _ =>
      subst he
      rw [hr]
      have hone : [PollEvent.wakeup].countP PollEvent.isWakeup = 1 := rfl
      rw [hone]
      split <;> omega
/-- The number of the first poll that begins after this state. -/
def PollState.nextPoll (σ : PollState) : Nat := σ.returned.length + (if σ.active.isSome then 1 else 0)
/-- The flag is set, and the poll that is to take it has not returned. -/
private structure Owed (σ₀ σ : PollState) : Prop where
  wake : σ.scanner.wakePending = true
  closed : σ.scanner.closed = false
  done : σ.scanner.done = false
  later : σ₀.returned.length ≤ σ.returned.length
  next : σ.nextPoll = σ₀.nextPoll
/-- The poll that held the scanner, or the next one, returned `ErrWakeup`. -/
def Answered (σ₀ σ : PollState) : Prop :=
  ∃ i ret, σ₀.returned.length ≤ i ∧ i ≤ σ₀.nextPoll ∧ σ.returned[i]? = some ret ∧ ret.isWakeup = true
/-- The scanner was closed or done before that poll returned. -/
def Ended (T : System PollState PollEvent) (σ₀ : PollState) (es : List PollEvent) (σ : PollState) : Prop :=
  ∃ before after τ, es = before ++ after ∧ T.Run (LogScanner.wakeup σ₀) before τ ∧ T.Run τ after σ ∧
    τ.returned.length ≤ σ₀.nextPoll ∧ (τ.scanner.closed = true ∨ τ.scanner.done = true)

private theorem returned_grows {σ σ' : PollState} {e : PollEvent} (h : s.step reader σ e = some σ') :
    σ.returned <+: σ'.returned := by
  cases step_wake h with
  | same _ hr _ _ _ | begins _ hr _ _ _ => rw [hr]
  | woken _ _ _ hr _ _ _ | returned _ _ hr _ _ _ _ =>
    rw [hr]
    exact prefix_append _ _
  | wakeup _ hr _ _ => rw [hr]

private theorem owed_step {σ σ' : PollState} {e : PollEvent} (h : Owed σ₀ σ) (hs : s.step reader σ e = some σ') :
    Answered σ₀ σ' ∨ σ'.returned.length ≤ σ₀.nextPoll ∧
      (σ'.scanner.closed = false → σ'.scanner.done = false → Owed σ₀ σ') := by
  have hle : σ.returned.length ≤ σ₀.nextPoll := by
    rw [← h.next]
    exact Nat.le_add_right _ _
  cases step_wake hs with
  | same _ hr ha hw _ =>
    refine .inr ⟨by rwa [hr],fun hc hd => ⟨hw.trans h.wake,hc,hd,by rw [hr]; exact h.later,?_⟩⟩
    rw [nextPoll,hr,ha]
    exact h.next
  | begins _ _ hw _ _ =>
    rw [h.wake] at hw
    cases hw
  | woken ret _ hret hr _ _ _ =>
    exact .inl ⟨σ.returned.length,ret,h.later,hle,by rw [hr]; exact getElem?_concat_length,hret⟩
  | returned ret _ hr _ ha hho hw =>
    have hh : σ.active.isSome = true := by
      rcases hho with hh | hc | hd | hw
      · exact hh
      · rw [h.closed] at hc
        cases hc
      · rw [h.done] at hd
        cases hd
      · rw [h.wake] at hw
        cases hw
    have hw : σ'.scanner.wakePending = true := by
      rcases hw with hw | ⟨hc,_⟩
      · exact hw.trans h.wake
      · rw [h.closed] at hc
        cases hc
    have hn : σ'.returned.length = σ₀.nextPoll := by
      rw [← h.next,nextPoll,hr,hh]
      simp
    refine .inr ⟨hn.le,fun hc hd => ⟨hw,hc,hd,?_,?_⟩⟩
    · rw [hr,length_append]
      exact Nat.le_add_right_of_le h.later
    · rw [nextPoll,ha,hn]
      simp
  | wakeup _ hr ha hw =>
    refine .inr ⟨by rwa [hr],fun hc hd =>
      ⟨hw h.closed h.done,hc,hd,by rw [hr]; exact h.later,?_⟩⟩
    rw [nextPoll,hr,ha]
    exact h.next

private theorem wakeup_answered (hc : σ₀.scanner.closed = false) (hd : σ₀.scanner.done = false)
    (hrun : (s.system reader created).Run (wakeup σ₀) es σ) :
    Owed σ₀ σ ∨ Answered σ₀ σ ∨ Ended (s.system reader created) σ₀ es σ := by
  induction hrun with
  | nil =>
    rw [wakeup,if_pos ⟨hc,hd⟩]
    exact .inl ⟨rfl,hc,hd,Nat.le_refl _,rfl⟩
  | @snoc σ σ' es e hrun hs ih =>
    rcases ih with ho | ⟨i,ret,hle,hl,hget,hret⟩ | ⟨before,after,τ,rfl,hb,haf,hea,he⟩
    · rcases owed_step ho hs with ha | ⟨hea,hst⟩
      · exact .inr (.inl ha)
      by_cases he : σ'.scanner.closed = true ∨ σ'.scanner.done = true
      · exact .inr (.inr ⟨es ++ [e],[],σ',by simp,hrun.snoc hs,.nil _,hea,he⟩)
      · rw [not_or,Bool.not_eq_true,Bool.not_eq_true] at he
        exact .inl (hst he.1 he.2)
    · obtain ⟨rest,hr⟩ := returned_grows hs
      exact .inr (.inl ⟨i,ret,hle,hl,hr ▸ getElem?_append_of hget _,hret⟩)
    · exact .inr (.inr ⟨before,after ++ [e],τ,by rw [append_assoc],hb,haf.snoc hs,hea,he⟩)
end Runs
/-- No more polls return `ErrWakeup` than there were wakeups, and the poll that holds the scanner at a
wakeup or the next one returns it, unless the scanner is closed or done before. -/
theorem wakeups_reach_one_poll (backend : ScannerBackend) (table : Table) (start : ScanOffset)
    (options : List (Option LogScannerOption)) (s : LogScanner) (created : ScannerState) (reader : ArrowReader)
    (h : newLogScanner backend table start options = .ok (s, created)) :
    (∀ es σ, (s.system reader created).Run { scanner := created } es σ →
      (∀ err, PollEvent.cancel err ∈ es → err.sentinel ≠ some .wakeup) →
      σ.returned.countP PollReturn.isWakeup ≤ es.countP PollEvent.isWakeup) ∧
    ∀ σ₀, (s.system reader created).Reachable σ₀ → σ₀.scanner.closed = false → σ₀.scanner.done = false →
      ∀ es σ, (s.system reader created).Run (LogScanner.wakeup σ₀) es σ → σ₀.nextPoll < σ.returned.length →
        Answered σ₀ σ ∨ Ended (s.system reader created) σ₀ es σ := by
  constructor
  · intro es σ hrun hcancel
    have hcount := (wakeups_counted (newLogScanner_eq_ok h).2.2.2 hrun hcancel).2
    omega
  · intro σ₀ _ hclosed hdone es σ hrun hreturned
    rcases wakeup_answered hclosed hdone hrun with howed | hanswered
    · have hnext := howed.next
      rw [PollState.nextPoll] at hnext
      omega
    · exact hanswered
/-- The wakeup of a fetching poll is answered when its fetch fails. -/
theorem wakeups_reach_one_poll_numbers :
    let s := numberScanner [0] { rowLimit := 1 }
    let created : ScannerState := { offset := AList.insert 0 4 ∅ }
    let T := s.system noArrow created
    ∃ σ₀ σ es, T.Reachable σ₀ ∧ σ₀.active.isSome = true ∧ T.Run (LogScanner.wakeup σ₀) es σ ∧ σ₀.nextPoll < σ.returned.length ∧
      T.Run { scanner := created } (.begin :: .wakeup :: es) σ ∧ σ.returned.countP PollReturn.isWakeup = 1 ∧
      σ.returned.countP PollReturn.isWakeup ≤ (PollEvent.begin :: .wakeup :: es).countP PollEvent.isWakeup ∧
      (Answered σ₀ σ ∨ Ended T σ₀ es σ) := by
  intro s created T
  let failed : PollEvent := .visit (.error ⟨none,"canceled"⟩) numberResolver
  let es := failed :: pollOnce (numberBatchAt 4)
  have hfirst : (s.step noArrow { scanner := created } .begin).any (fun σ =>
      decide (σ.active.isSome = true ∧ σ.scanner.closed = false ∧ σ.scanner.done = false ∧ σ.nextPoll = 1) &&
        (es.foldlM (s.step noArrow) (LogScanner.wakeup σ)).any fun τ =>
          decide (1 < τ.returned.length ∧ τ.returned.countP PollReturn.isWakeup = 1)) = true := by decide +kernel
  obtain ⟨σ₀,hbegin,hseen⟩ := System.exists_of_any hfirst
  obtain ⟨hσ₀,hrest⟩ := Bool.and_eq_true_iff.mp hseen
  obtain ⟨hactive,hclosed,hdone,hnext⟩ := of_decide_eq_true hσ₀
  obtain ⟨σ,hplay,hσ⟩ := System.exists_of_any hrest
  obtain ⟨hreturned,hcount⟩ := of_decide_eq_true hσ
  have hopen : T.Run { scanner := created } [.begin] σ₀ := .snoc (.nil _) hbegin
  have hwoken : T.Run { scanner := created } [.begin, .wakeup] (LogScanner.wakeup σ₀) := .snoc hopen rfl
  have hrun : T.Run (LogScanner.wakeup σ₀) es σ := .of_foldlM hplay fun _ _ _ _ hstep => hstep
  have hall : T.Run { scanner := created } (.begin :: .wakeup :: es) σ := hwoken.append hrun
  have hreach : T.Reachable σ₀ := System.Run.reachable rfl hopen
  have hcreated : newLogScanner (numberScannerBackend (AList.insert 0 numberNode ∅) 4) (numberWriter none {}).table
      { kind := .fromEarliest } [some (withScanRowLimit 1)] = .ok (s, created) := rfl
  obtain ⟨hcounted,hanswered⟩ := wakeups_reach_one_poll _ _ _ _ s created noArrow hcreated
  refine ⟨σ₀,σ,es,hreach,hactive,hrun,hnext ▸ hreturned,hall,hcount,hcounted _ _ hall ?_,?_⟩
  · intro err herr
    simp [es,failed,pollOnce] at herr
  · exact hanswered σ₀ hreach hclosed hdone es σ hrun (hnext ▸ hreturned)
end FlussGo
