import FlussGo.Writer.Admission
/-!
# Closing completes everything

From every reachable state some run without new slots ends with the loop returned and every item that
has a slot completed.
-/
namespace FlussGo
open List LoopState WriterLoop
def LoopEvent.isCompletion {ι : Type} (e : LoopEvent ι) : Prop := ∃ index result, e = .completion index result

def Admission.drained (kind : Drain) (mode : Mode) : Prop :=
  match kind with
  | .flush => mode = .running
  | .close => ∃ errors, mode = .closing errors

/-- What `run` does with the errors of a flush or close. -/
def Drain.answer (replies : List (List GoError)) (errors : List GoError) : Drain → Mode × List (List GoError)
  | .flush => (.running, replies ++ [errors])
  | .close => (.closing errors, replies)
/-- Every item gets the error of its batch. -/
def CompleteBatch.Uniform {ι τ : Type} (completeBatch : CompleteBatch ι τ) : Prop :=
  ∀ batch bucket result, ∀ r ∈ completeBatch batch bucket result, r.2.err = result.err

namespace WriterLoop
variable {ι τ φ : Type} {w : WriterLoop ι τ φ} {kind : Drain} {s t : WriterState ι τ φ} {errors errors' : List GoError}
  {l l' l'' : LoopState ι τ}
/-- The loop has gone from `l` to `l'` without taking items, and reports an error exactly when one has failed. -/
structure Passes (w : WriterLoop ι τ φ) (l l' : LoopState ι τ) (errors : List GoError) : Prop where
  account : l'.account w.config = l.account w.config
  reports : w.completeBatch.Uniform → ∃ results, l'.completed = l.completed ++ results ∧
    (errors = [] ↔ ∀ r ∈ results, r.2.err = none)
/-- A flush or close is answered, and the loop is empty. -/
structure Drained (w : WriterLoop ι τ φ) (P : LoopState ι τ → List GoError → Prop) (kind : Drain)
    (replies : List (List GoError)) (t : WriterState ι τ φ) : Prop where
  held : t.loop.held w.config = 0
  answer : ∃ errors, P t.loop errors ∧ (t.mode, t.replies) = kind.answer replies errors

variable {P : LoopState ι τ → List GoError → Prop} {replies : List (List GoError)}

theorem Drained.mode (h : Drained w P kind replies t) : Admission.drained kind t.mode := by
  obtain ⟨errors,_,ha⟩ := h.answer
  cases kind with
  | flush => exact congrArg Prod.fst ha
  | close => exact ⟨errors,congrArg Prod.fst ha⟩

private theorem Passes.trans (h : Passes w l l' errors) (h' : Passes w l' l'' errors') :
    Passes w l l'' (errors ++ errors') := by
  refine ⟨h'.account.trans h.account,fun hu => ?_⟩
  obtain ⟨results,hc,hr⟩ := h.reports hu
  obtain ⟨results',hc',hr'⟩ := h'.reports hu
  exact ⟨results ++ results',by rw [hc',hc,append_assoc],by rw [append_eq_nil_iff,hr,hr',forall_mem_append]⟩

private theorem reports_batch (hu : w.completeBatch.Uniform) {batch : Batch ι τ} (hne : batch.items ≠ [])
    (bucket : Int) (result : AttemptResult) :
    result.err.toList = [] ↔ ∀ r ∈ w.completeBatch batch bucket result, r.2.err = none := by
  rw [Option.toList_eq_nil_iff]
  refine ⟨fun he r hr => (hu _ _ _ r hr).trans he,fun hall => ?_⟩
  rw [← w.completeBatch_items batch bucket result] at hne
  obtain ⟨r,hr⟩ := exists_mem_of_ne_nil _ fun h => hne (map_eq_nil_iff.mpr h)
  exact (hu _ _ _ r hr).symm.trans (hall r hr)

private theorem flushBucket_passes (h : l.Inv w.config w.targets) (bucket : Int) :
    Passes w l (l.flushBucket w.config w.completeBatch bucket).1 (l.flushBucket w.config w.completeBatch bucket).2.toList := by
  refine ⟨LoopState.account_flushBucket h.front w.completeBatch_items bucket,fun hu => ?_⟩
  have hno : ∃ results, l.completed = l.completed ++ results ∧ (([] : List GoError) = [] ↔ ∀ r ∈ results, r.2.err = none) :=
    ⟨[],(append_nil _).symm,by simp⟩
  unfold flushBucket
  split
  · exact hno
  split
  · exact hno
  rename_i hne
  split
  next e _ => exact ⟨_,rfl,reports_batch hu (by simpa using hne) bucket { err := some (poisonedError bucket e) }⟩
  · rw [dispatch_completed]
    exact hno

private theorem flushBuckets_passes (h : l.Inv w.config w.targets) (buckets : List Int) :
    Passes w l (l.flushBuckets w.config w.completeBatch buckets).1 (l.flushBuckets w.config w.completeBatch buckets).2 := by
  induction buckets generalizing l with
  | nil => exact ⟨rfl,fun _ => ⟨[],(append_nil _).symm,by simp [flushBuckets]⟩⟩
  | cons bucket _ ih => exact (flushBucket_passes h bucket).trans (ih (h.flushBucket w.completeBatch bucket))

private theorem handleCompletion_passes (h : l.Inv w.config w.targets) {index : Nat} {st : Started ι τ}
    (hst : l.executing[index]? = some st) (result : AttemptResult) :
    Passes w l (l.handleCompletion w.config w.completeBatch index st result) result.err.toList := by
  refine ⟨LoopState.account_handleCompletion h w.completeBatch_items hst result,fun hu => ?_⟩
  have hr := reports_batch hu (h.executing_formed (mem_of_getElem? hst)).2 st.bucket
  unfold handleCompletion
  split
  next cause he =>
    refine ⟨_,dispatch_completed _,?_⟩
    rw [he]
    refine ⟨fun hn => (by cases hn),fun hall => ?_⟩
    exact (hr { err := some cause }).mpr fun r hmem => hall r (mem_append_left _ hmem)
  · exact ⟨_,dispatch_completed _,hr result⟩

private theorem settle_drained (hinv : t.loop.Inv w.config w.targets) (hm : t.mode = .draining kind errors)
    (ho : ∀ b, t.loop.openItems b = []) (h : P t.loop errors) :
    settle t = t ∨ Drained w P kind t.replies (settle t) := by
  unfold settle
  rw [hm]
  dsimp only
  split
  · exact .inl rfl
  next hf =>
    have hh := (held_eq_zero hinv ho (Int.not_lt.mp hf)).1
    cases kind <;> exact .inr ⟨hh,errors,h,rfl⟩

theorem drain_inevitable (hP : ∀ {l errors index st} result, l.Inv w.config w.targets → l.executing[index]? = some st →
      P l errors → P (l.handleCompletion w.config w.completeBatch index st result) (errors ++ result.err.toList))
    (hr : w.system.Reachable t) (hm : t.mode = .draining kind errors) (h : P t.loop errors) :
    w.system.Inevitable LoopEvent.isCompletion (Drained w P kind t.replies) t := by
  induction hn : (t.loop.held w.config).card using Nat.strong_induction_on generalizing t errors with
  | _ n ih =>
    have hinv := reachable_inv hr
    have hmo := reachable_modeInv hr
    simp only [ModeInv,hm] at hmo
    apply System.Inevitable.later
    · have hlt : 0 < t.loop.executing.length := by
        have := hinv.run.inFlight_eq
        omega
      obtain ⟨t',hs⟩ : ∃ t', w.step t (.completion 0 {}) = some t' := by simp [step,getElem?_eq_getElem hlt,hm]
      exact ⟨_,t',⟨0,{},rfl⟩,hs⟩
    · rintro _ t' ⟨index,result,rfl⟩ hs
      cases step_cases hs with
      | completion _ hm' => cases hm.symm.trans hm'
      | @drain _ st _ _ _ hm' hst =>
        obtain ⟨rfl,rfl⟩ := Mode.draining.inj (hm.symm.trans hm')
        have hd := hP result hinv hst h
        have hr' := hr.step hs
        rcases settle_drained (t := {
            t with loop := t.loop.handleCompletion w.config w.completeBatch index st result, mode := .draining kind _ })
          (hinv.handleCompletion hst w.completeBatch result) rfl
          (fun b => (view_openItems (handleCompletion_view _ _ _ _) b).trans (hmo.1 b)) hd with
          heq | hdr
        · rw [heq] at hr' ⊢
          exact ih _ (hn ▸ handleCompletion_held hinv w.completeBatch_items hst result) hr' rfl hd rfl
        · exact .now hdr

theorem flushAll_inevitable (hr : w.system.Reachable s) (hm : s.mode = .running) (kind : Drain) :
    w.system.Inevitable LoopEvent.isCompletion (Drained w (Passes w s.loop) kind s.replies) (w.flushAll s kind) := by
  have hinv := reachable_inv hr
  have hr' : w.system.Reachable (w.flushAll s kind) := by
    cases kind with
    | flush => exact hr.step (e := .flush) (by simp [system,step,hm])
    | close => exact hr.step (e := .close) (by simp [system,step,hm])
  obtain ⟨ha,hre⟩ := flushBuckets_passes (hinv.setTimer false) w.config.buckets
  have hd : Passes w s.loop (s.loop.queueAll w.config w.completeBatch).1 _ := ⟨ha,hre⟩
  rcases settle_drained (t := { s with loop := _, mode := .draining kind _ }) (hinv.queueAll w.completeBatch) rfl
    (fun b => queueAll_openItems hinv.front b) hd with heq | hdr
  · have heq : w.flushAll s kind = _ := heq
    rw [heq] at hr' ⊢
    exact drain_inevitable (fun result hl hst h => h.trans (handleCompletion_passes hl hst result)) hr' rfl hd
  · exact .now hdr
end WriterLoop

namespace Admission
variable {ι τ φ : Type} {w : WriterLoop ι τ φ} {maxBuffered : Int} {s s' s'' : Admission ι τ φ}
  {errors : List GoError}
/-- A run of the loop: callers have not moved. -/
structure LoopMoves (w : WriterLoop ι τ φ) (maxBuffered : Int) (s s' : Admission ι τ φ) : Prop where
  leads : (w.admission maxBuffered).Leads s s'
  lock : s'.lock = s.lock
  closed : s'.closed = s.closed
  slotted : s'.slotted = s.slotted
  admitted : s'.admitted = s.admitted

theorem LoopMoves.refl (s : Admission ι τ φ) : LoopMoves w maxBuffered s s := ⟨.refl s,rfl,rfl,rfl,rfl⟩

theorem LoopMoves.trans (h : LoopMoves w maxBuffered s s') (h' : LoopMoves w maxBuffered s' s'') :
    LoopMoves w maxBuffered s s'' :=
  ⟨h.leads.trans h'.leads,h'.lock.trans h.lock,h'.closed.trans h.closed,h'.slotted.trans h.slotted,
    h'.admitted.trans h.admitted⟩
/-- With these items admitted, routing never fails on the item that the loop takes next. -/
def Routable (w : WriterLoop ι τ φ) (maxBuffered : Int) (admitted : List ι) : Prop :=
  ∀ s, (w.admission maxBuffered).Reachable s → s.admitted = admitted → ∀ x rest, s.queue = .item x :: rest →
    ∃ r, w.add s.writer.front s.writer.loop x = some r

private theorem moves_of_inevitable {writer : WriterState ι τ φ} {P : WriterState ι τ φ → Prop}
    (h : w.system.Inevitable LoopEvent.isCompletion P writer) : ∀ s : Admission ι τ φ, s.writer = writer →
      ∃ s', LoopMoves w maxBuffered s s' ∧ s'.queue = s.queue ∧ P s'.writer := by
  induction h with
  | now h => exact fun s hs => ⟨s,.refl s,rfl,hs ▸ h⟩
  | later hcan _ ih =>
    rintro s rfl
    obtain ⟨e,writer,he,hs⟩ := hcan
    obtain ⟨index,result,rfl⟩ := he
    obtain ⟨s',hm,hq,hp⟩ := ih _ writer ⟨index,result,rfl⟩ hs (s.moveLoop writer) rfl
    have hl : LoopMoves w maxBuffered s (s.moveLoop writer) :=
      ⟨(System.Leads.refl s).step (e := ()) (.completion hs),rfl,rfl,rfl,rfl⟩
    exact ⟨s',hl.trans hm,hq,hp⟩

private theorem flushAll_moves (hr : (w.admission maxBuffered).Reachable s) (hmo : s.writer.mode = .running)
    (kind : Drain) {command : Command ι} {rest : List (Command ι)} (hq : s.queue = command :: rest)
    (hs : w.step s.writer (command.event none) = some (w.flushAll s.writer kind)) :
    ∃ s', LoopMoves w maxBuffered s s' ∧ s'.queue = rest ∧ drained kind s'.writer.mode := by
  let next : Admission ι τ φ := { s.moveLoop (w.flushAll s.writer kind) with queue := rest }
  have hm : LoopMoves w maxBuffered s next :=
    ⟨(System.Leads.refl s).step (e := ()) (.command none hq hs),rfl,rfl,rfl,rfl⟩
  obtain ⟨s',hm',hre,hd⟩ :=
    moves_of_inevitable (flushAll_inevitable (writer_reachable hr) hmo kind) next rfl
  exact ⟨s',hm.trans hm',hre,hd.mode⟩

private theorem queue_moves {admitted : List ι} (hro : Routable w maxBuffered admitted)
    (hr : (w.admission maxBuffered).Reachable s) (ha : s.admitted = admitted) (hmo : s.writer.mode = .running) :
    ∃ s', LoopMoves w maxBuffered s s' ∧ s'.queue = [] ∧
      (s'.writer.mode = .running ∨ ∃ errors, s'.writer.mode = .closing errors) := by
  induction hq : s.queue generalizing s with
  | nil => exact ⟨s,.refl s,hq,.inl hmo⟩
  | cons command rest ih =>
    cases command with
    | item x =>
      obtain ⟨⟨front,loop⟩,hadd⟩ := hro s hr ha x rest hq
      let writer : WriterState ι τ φ := { s.writer with front := front, loop := loop, mode := .running }
      have hs : w.step s.writer (.item x none) = some writer := by
        simp only [step,hmo,hadd,Option.map_some,writer]
      have hm : LoopMoves w maxBuffered s { s.moveLoop writer with queue := rest } :=
        ⟨(System.Leads.refl s).step (e := ()) (.command none hq hs),rfl,rfl,rfl,rfl⟩
      obtain ⟨s',hm',hqu,hmo'⟩ := ih (hr.leads hm.leads) ha rfl rfl
      exact ⟨s',hm.trans hm',hqu,hmo'⟩
    | flush =>
      obtain ⟨next,hm,hre,hru⟩ :=
        flushAll_moves hr hmo .flush hq (by simp [step,hmo,Command.event])
      obtain ⟨s',hm',hqu,hmo'⟩ :=
        ih (hr.leads hm.leads) (hm.admitted.trans ha) hru hre
      exact ⟨s',hm.trans hm',hqu,hmo'⟩
    | close =>
      obtain ⟨next,hm,hre,hc⟩ :=
        flushAll_moves hr hmo .close hq (by simp [step,hmo,Command.event])
      have := (reachable_closeInv hr).last [] rest hq
      exact ⟨next,hm,hre.trans this,.inr hc⟩

private theorem idle_moves {admitted : List ι} (hro : Routable w maxBuffered admitted)
    (hr : (w.admission maxBuffered).Reachable s) (ha : s.admitted = admitted) :
    ∃ s', LoopMoves w maxBuffered s s' ∧ s'.queue = [] ∧ ∀ kind errors, s'.writer.mode ≠ .draining kind errors := by
  have hru : ∀ {s : Admission ι τ φ}, (w.admission maxBuffered).Reachable s → s.admitted = admitted →
      s.writer.mode = .running →
      ∃ s', LoopMoves w maxBuffered s s' ∧ s'.queue = [] ∧ ∀ kind errors, s'.writer.mode ≠ .draining kind errors := by
    intro s hr ha hm
    obtain ⟨s',hmo,hq,hm'⟩ := queue_moves hro hr ha hm
    refine ⟨s',hmo,hq,?_⟩
    rcases hm' with hm' | ⟨errors,hm'⟩ <;> simp [hm']
  have hc := reachable_closeInv hr
  cases hm : s.writer.mode with
  | running => exact hru hr ha hm
  | draining kind errors =>
    obtain ⟨next,hmo,hq,hd⟩ :=
      moves_of_inevitable (drain_inevitable (P := fun _ _ => True) (fun _ _ _ _ => trivial)
        (writer_reachable hr) hm trivial) s rfl
    replace hd := hd.mode
    cases kind with
    | flush =>
      obtain ⟨s',hmo',h⟩ := hru (hr.leads hmo.leads) (hmo.admitted.trans ha) hd
      exact ⟨s',hmo.trans hmo',h⟩
    | close =>
      obtain ⟨errors',hcl⟩ := hd
      refine ⟨next,hmo,hq.trans (hc.taken (by rw [hm]; rfl)),?_⟩
      simp [hcl]
  | closing | stopped => exact ⟨s,.refl s,hc.taken (by rw [hm]; rfl),by simp [hm]⟩

private theorem unlock_leads (hpos : 1 ≤ maxBuffered) (hq : s.queue = []) :
    ∃ s', (w.admission maxBuffered).Leads s s' ∧ s'.lock = none ∧ s'.admitted = s.admitted := by
  have hr : (s.queue.length : Int) < maxBuffered := by
    rw [hq]
    exact hpos
  cases hl : s.lock with
  | none => exact ⟨s,.refl s,hl,rfl⟩
  | some ho =>
    have one : ∀ {s' : Admission ι τ φ}, AdmissionStep w maxBuffered s s' → (w.admission maxBuffered).Leads s s' :=
      fun h => (System.Leads.refl s).step (e := ()) h
    cases ho with
    | append x =>
      cases hc : s.closed with
      | true => exact ⟨_,one (.appendClosed hl hc),rfl,rfl⟩
      | false => exact ⟨_,(one (.appendOpen hl hc)).step (e := ()) (.sendItem rfl hr),rfl,rfl⟩
    | sendItem x => exact ⟨_,one (.sendItem hl hr),rfl,rfl⟩
    | flush =>
      cases hc : s.closed with
      | true => exact ⟨_,one (.flushClosed hl hc),rfl,rfl⟩
      | false => exact ⟨_,(one (.flushOpen hl hc)).step (e := ()) (.sendFlush rfl hr),rfl,rfl⟩
    | sendFlush => exact ⟨_,one (.sendFlush hl hr),rfl,rfl⟩
    | close =>
      cases hc : s.closed with
      | true => exact ⟨_,one (.closeAgain hl hc),rfl,rfl⟩
      | false => exact ⟨_,(one (.closeOpen hl hc)).step (e := ()) (.sendClose rfl hr),rfl,rfl⟩
    | sendClose => exact ⟨_,one (.sendClose hl hr),rfl,rfl⟩

private theorem quiet_leads (hpos : 1 ≤ maxBuffered) (hr : Routable w maxBuffered s.admitted)
    (hre : (w.admission maxBuffered).Reachable s) :
    ∃ s', (w.admission maxBuffered).Leads s s' ∧ s'.lock = none ∧ s'.admitted = s.admitted ∧ s'.queue = [] ∧
      ∀ kind errors, s'.writer.mode ≠ .draining kind errors := by
  obtain ⟨s₁,hm,hq,_⟩ := idle_moves hr hre rfl
  obtain ⟨s₂,hl,hlo,ha⟩ := unlock_leads (w := w) hpos hq
  have hrea := (hre.leads hm.leads).leads hl
  obtain ⟨s₃,hm',hq',hmo⟩ := idle_moves hr hrea (ha.trans hm.admitted)
  exact ⟨s₃,(hm.leads.trans hl).trans hm'.leads,hm'.lock.trans hlo,
    hm'.admitted.trans (ha.trans hm.admitted),hq',hmo⟩

private theorem stopped_leads (hpos : 1 ≤ maxBuffered) (hro : Routable w maxBuffered s.admitted)
    (hr : (w.admission maxBuffered).Reachable s) :
    ∃ s' errors, (w.admission maxBuffered).Leads s s' ∧ s'.lock = none ∧ s'.admitted = s.admitted ∧
      s'.writer.mode = .stopped errors := by
  have hc : ∀ {s' : Admission ι τ φ} {errors : List GoError}, s'.writer.mode = .closing errors → s'.lock = none →
      AdmissionStep w maxBuffered s' (s'.moveLoop { s'.writer with mode := .stopped errors }) := by
    intro s' errors hmod hl
    exact .finish hl (by simp [step,hmod])
  obtain ⟨s₁,hle,hl,ha,hq,hmod⟩ := quiet_leads hpos hro hr
  have hre := hr.leads hle
  cases hm : s₁.writer.mode with
  | draining kind errors => exact absurd hm (hmod kind errors)
  | stopped errors => exact ⟨s₁,errors,hle,hl,ha,hm⟩
  | closing errors => exact ⟨_,errors,hle.step (e := ()) (hc hm hl),hl,ha,rfl⟩
  | running =>
    have hclose := reachable_closeInv hre
    have ho : s₁.closed = false := by
      rw [Bool.eq_false_iff]
      intro hclos
      rcases hclose.closed hclos with h | h | h
      · simp [hl] at h
      · simp [hq] at h
      · simp [hm,Mode.closes] at h
    have hroo : (s₁.queue.length : Int) < maxBuffered := by
      rw [hq]
      exact hpos
    have hs := ((hle.step (e := ()) (.lockClose hl)).step (e := ()) (.closeOpen rfl ho)).step (e := ())
      (.sendClose rfl hroo)
    obtain ⟨s₂,hmo,hqu,hmode₂⟩ := queue_moves hro (hr.leads hs) ha hm
    have hclo := (reachable_closeInv ((hr.leads hs).leads hmo.leads)).closed hmo.closed
    rcases hmode₂ with hru | ⟨errors,hcl⟩
    · rcases hclo with h | h | h
      · simp [hmo.lock] at h
      · simp [hqu] at h
      · simp [hru,Mode.closes] at h
    · exact ⟨_,errors,(hs.trans hmo.leads).step (e := ()) (hc hcl hmo.lock),hmo.lock,
        hmo.admitted.trans ha,rfl⟩

private theorem late_leads (hr : (w.admission maxBuffered).Reachable s)
    (hs : s.writer.mode = .stopped errors) (hlo : s.lock = none) :
    ∃ s', (w.admission maxBuffered).Leads s s' ∧ s'.writer.mode = .stopped errors ∧ s'.lock = none ∧
      s'.slotted = [] ∧ s'.admitted = s.admitted := by
  induction hsl : s.slotted generalizing s with
  | nil => exact ⟨s,.refl s,hs,hlo,hsl,rfl⟩
  | cons x rest ih =>
    have hc : s.closed = true := ((reachable_closeInv hr).sent (.inr (by rw [hs]; rfl))).1
    let locked : Admission ι τ φ := { s with slotted := [] ++ rest, lock := some (.append x) }
    have hloc : AdmissionStep w maxBuffered s locked := .lockAppend hlo hsl
    have hd : AdmissionStep w maxBuffered locked (locked.giveUp x errClosed) := .appendClosed rfl hc
    have hl : (w.admission maxBuffered).Leads s (locked.giveUp x errClosed) :=
      ((System.Leads.refl s).step (e := ()) hloc).step (e := ()) hd
    obtain ⟨s',hl',h⟩ := ih (hr.leads hl) hs rfl rfl
    exact ⟨s',hl.trans hl',h⟩
/-- From every reachable state the items that have a slot can all be completed, by closing the writer. -/
theorem close_completes (hpos : 1 ≤ maxBuffered) (hro : Routable w maxBuffered s.admitted)
    (hr : (w.admission maxBuffered).Reachable s) :
    ∃ s' errors, (w.admission maxBuffered).Leads s s' ∧ s'.writer.mode = .stopped errors ∧
      s'.admitted = s.admitted ∧ s'.completions.Perm s.admitted := by
  obtain ⟨s₁,errors,hl,hlo,had,hs⟩ := stopped_leads hpos hro hr
  obtain ⟨s₂,hl',hs',hlo',hsl,had'⟩ := late_leads (hr.leads hl) hs hlo
  have hre := hr.leads (hl.trans hl')
  have hadm := had'.trans had
  refine ⟨s₂,errors,hl.trans hl',hs',hadm,?_⟩
  have ha := accounted (by omega) hre
  have hp := ha.places
  have hq := (ha.returned errors hs').2.1
  have hh := (stopped_held (writer_reachable hre) hs').1
  rw [hsl,hlo',hq,hh] at hp
  rw [← hadm]
  apply Multiset.coe_eq_coe.mp
  rw [hp]
  simp [lockItems,queueItems]
end Admission
end FlussGo
