import FlussGo.Writer.LoopRun
import Mathlib.Algebra.BigOperators.Group.Finset.Basic
import Mathlib.Algebra.Order.Group.Multiset
import Mathlib.Tactic.Abel
/-!
# Conservation of items in the loop

Every item that the loop has taken is in one of the open, pending and executing batches or completed. When
the loop has returned, all are completed.
-/
namespace FlussGo
open List LoopState Function Option Prod
abbrev CompleteBatch.KeepsItems {ι τ : Type} (completeBatch : CompleteBatch ι τ) : Prop :=
  ∀ batch bucket result, (completeBatch batch bucket result).map fst = batch.items

namespace LoopState
variable {ι τ : Type} {c : LoopConfig} {targets : ι → τ} {completeBatch : CompleteBatch ι τ} {s s' : LoopState ι τ}
  {bucket : Int} {batch : Batch ι τ} {rest : List (Batch ι τ)}

def waitingAt (s : LoopState ι τ) (b : Int) : Multiset ι :=
  (s.openItems b : Multiset ι) + ((s.pending b).flatMap (·.items) : Multiset ι)

def executingItems (s : LoopState ι τ) : Multiset ι := (s.executing.flatMap (·.batch.items) : Multiset ι)

def held (c : LoopConfig) (s : LoopState ι τ) : Multiset ι :=
  ∑ b ∈ c.buckets.toFinset, s.waitingAt b + s.executingItems

def completedItems (s : LoopState ι τ) : Multiset ι := (s.completed.map fst : Multiset ι)

def account (c : LoopConfig) (s : LoopState ι τ) : Multiset ι := s.held c + s.completedItems

theorem account_initial : account c ({} : LoopState ι τ) = 0 := by
  simp [account,held,waitingAt,openItems,executingItems,completedItems]

private theorem account_change {t : LoopState ι τ} {l m : Multiset ι} (hmem : bucket ∈ c.buckets)
    (ho : ∀ b, b ≠ bucket → t.waitingAt b = s.waitingAt b)
    (hb : t.waitingAt bucket + t.executingItems + l = s.waitingAt bucket + s.executingItems + m)
    (hc : t.completedItems = s.completedItems) : t.account c + l = s.account c + m := by
  have hfin := mem_toFinset.mpr hmem
  have hr : ∑ b ∈ c.buckets.toFinset.erase bucket, t.waitingAt b = ∑ b ∈ c.buckets.toFinset.erase bucket, s.waitingAt b :=
    Finset.sum_congr rfl fun b hb' => ho b (Finset.ne_of_mem_erase hb')
  rw [account,held,account,held,← Finset.add_sum_erase _ t.waitingAt hfin,← Finset.add_sum_erase _ s.waitingAt hfin,hr,hc]
  generalize ∑ b ∈ c.buckets.toFinset.erase bucket, s.waitingAt b = rest
  have := congrArg (· + (rest + s.completedItems)) hb
  convert this using 1 <;> abel

@[simp] theorem account_complete (results : List (ι × WriteResult)) :
    (s.complete results).account c = s.account c + (results.map fst : Multiset ι) := by
  show s.held c + ((s.completed ++ results).map fst : Multiset ι) = _
  rw [account,completedItems,map_append,← Multiset.coe_add,add_assoc]

theorem account_start (hmem : bucket ∈ c.buckets) (hp : s.pending bucket = batch :: rest) :
    (s.start bucket batch rest).account c = s.account c := by
  have h := account_change (s := s) (t := s.start bucket batch rest) (l := 0) (m := 0) hmem
    (by intro b hb; simp [waitingAt,openItems,start,update_of_ne hb])
    (by
      simp only [waitingAt,openItems,executingItems,start,update_self,hp,flatMap_cons,flatMap_append,
        flatMap_nil,append_nil,← Multiset.coe_add]
      abel) rfl
  simpa using h

theorem Starts.account_eq (h : Starts c s s') : s'.account c = s.account c := by
  induction h with
  | refl => rfl
  | start _ hmem _ hp _ ih => rw [account_start hmem hp,ih]

@[simp] theorem account_dispatch (s : LoopState ι τ) : (dispatch c s).account c = s.account c :=
  (dispatch_starts s).account_eq

theorem FrontInv.open_mem (h : FrontInv c targets s) (ho : s.batches bucket = some batch) (hne : batch.items ≠ []) :
    bucket ∈ c.buckets := by
  by_contra hout
  have ha := h.assigned_eq bucket
  rw [h.outside bucket hout,openItems,ho] at ha
  exact hne (append_eq_nil_iff.mp ha.symm).2

theorem account_takeBatch (hmem : bucket ∈ c.buckets) (ho : s.batches bucket = some batch) :
    (s.takeBatch bucket batch).account c + (batch.items : Multiset ι) = s.account c := by
  have h := account_change (s := s) (t := s.takeBatch bucket batch) (l := (batch.items : Multiset ι)) (m := 0) hmem
    (by intro b hb; simp [waitingAt,openItems,takeBatch,update_of_ne hb])
    (by
      simp only [waitingAt,openItems,executingItems,takeBatch,update_self,ho,map_some,
        map_none,getD_some,getD_none,Multiset.coe_nil]
      abel) rfl
  rwa [add_zero] at h

theorem account_enqueue (hmem : bucket ∈ c.buckets) :
    (s.enqueue bucket batch).account c = s.account c + (batch.items : Multiset ι) := by
  have h := account_change (s := s) (t := s.enqueue bucket batch) (l := 0) (m := (batch.items : Multiset ι)) hmem
    (by intro b hb; simp [waitingAt,openItems,enqueue,update_of_ne hb])
    (by
      simp only [waitingAt,openItems,executingItems,enqueue,update_self,flatMap_append,flatMap_singleton,
        ← Multiset.coe_add]
      abel) rfl
  rwa [add_zero] at h

theorem account_flushBucket (h : FrontInv c targets s) (hi : completeBatch.KeepsItems) (bucket : Int) :
    (s.flushBucket c completeBatch bucket).1.account c = s.account c := by
  apply flushBucket_rule (P := fun l => l.account c = s.account c) fun _ => rfl
  · intro batch e ho hne _
    rw [account_complete,hi]
    exact account_takeBatch (h.open_mem ho hne) ho
  · intro batch ho hne _
    rw [account_dispatch,account_enqueue (h.open_mem ho hne)]
    exact account_takeBatch (h.open_mem ho hne) ho

theorem account_openBatch (he : s.openItems bucket = []) (t : τ) :
    (s.openBatch bucket t).account c = s.account c := by
  have hw : (s.openBatch bucket t).waitingAt = s.waitingAt := by
    funext b
    by_cases hb : b = bucket
    · subst hb
      simp only [waitingAt,he]
      simp [openItems,openBatch]
    · simp [waitingAt,openItems,openBatch,update_of_ne hb]
  rw [account,held,hw]
  rfl

theorem account_assign {x : ι} (hmem : bucket ∈ c.buckets) (ho : s.batches bucket = some batch) (size : Int) :
    (s.assign bucket batch x size).account c = s.account c + {x} := by
  have h := account_change (s := s) (t := s.assign bucket batch x size) (l := 0) (m := {x}) hmem
    (by intro b hb; simp [waitingAt,openItems,assign,update_of_ne hb])
    (by
      simp only [waitingAt,openItems,executingItems,assign,update_self,ho,map_some,
        getD_some,← Multiset.coe_add,Multiset.coe_singleton]
      abel) rfl
  rwa [add_zero] at h

theorem account_ops {xs : List ι} (h : Inv c targets s) (hi : completeBatch.KeepsItems)
    (hops : Ops c targets completeBatch s xs s') : s'.account c = s.account c + (xs : Multiset ι) := by
  induction hops with
  | refl => simp
  | flush bucket hops ih =>
    rw [account_flushBucket (h.ops hops).front hi]
    exact ih
  | openBatch bucket t _ he ih =>
    rw [account_openBatch he]
    exact ih
  | timer armed _ ih => exact ih
  | assign size _ hmem ho _ ih =>
    rw [account_assign hmem ho,ih,← Multiset.coe_add,Multiset.coe_singleton,add_assoc]
  | reject result _ ih =>
    rw [account_complete,ih,← Multiset.coe_add,add_assoc]
    rfl

theorem account_queueAll (h : Inv c targets s) (hi : completeBatch.KeepsItems) :
    (s.queueAll c completeBatch).1.account c = s.account c := by
  refine (queueAll_rule (P := fun l => Inv c targets l ∧ l.account c = s.account c) ⟨h.setTimer false,rfl⟩ ?_).2
  intro l bucket hl
  exact ⟨hl.1.flushBucket completeBatch bucket,(account_flushBucket hl.1.front hi bucket).trans hl.2⟩

section Completion
variable {index : Nat} {st : Started ι τ}

private theorem executingItems_endExecution (hst : s.executing[index]? = some st) :
    (s.endExecution index st.bucket).executingItems + (st.batch.items : Multiset ι) = s.executingItems := by
  obtain ⟨hlt,heq⟩ := List.getElem?_eq_some_iff.mp hst
  have hp := (getElem_cons_eraseIdx_perm hlt).flatMap_right fun e : Started ι τ => e.batch.items
  rw [heq] at hp
  have := Multiset.coe_eq_coe.mpr hp
  rw [flatMap_cons,← Multiset.coe_add] at this
  rw [executingItems,executingItems,← this,add_comm]
  rfl

private theorem account_succeed (hst : s.executing[index]? = some st) :
    ((s.endExecution index st.bucket).advanceSequence st.bucket).account c + (st.batch.items : Multiset ι) =
      s.account c := by
  rw [account,held,account,held,← executingItems_endExecution hst]
  show ∑ b ∈ _, s.waitingAt b + (s.endExecution index st.bucket).executingItems + s.completedItems + _ = _
  abel

private theorem account_fail (hmem : st.bucket ∈ c.buckets) (hst : s.executing[index]? = some st) (cause : GoError) :
    ((s.endExecution index st.bucket).poison st.bucket cause).account c + (st.batch.items : Multiset ι) +
      ((s.pending st.bucket).flatMap (·.items) : Multiset ι) = s.account c := by
  have h := account_change (s := s) (t := (s.endExecution index st.bucket).poison st.bucket cause)
    (l := (st.batch.items : Multiset ι) + ((s.pending st.bucket).flatMap (·.items) : Multiset ι)) (m := 0) hmem
    (by intro b hb; simp [waitingAt,openItems,poison,endExecution,update_of_ne hb])
    (by
      rw [← executingItems_endExecution hst]
      simp only [waitingAt,openItems,executingItems,poison,endExecution,update_self,flatMap_nil,
        Multiset.coe_nil]
      abel) rfl
  rwa [add_zero,← add_assoc] at h

theorem account_handleCompletion (h : Inv c targets s) (hi : completeBatch.KeepsItems)
    (hst : s.executing[index]? = some st) (result : AttemptResult) :
    (s.handleCompletion c completeBatch index st result).account c = s.account c := by
  unfold handleCompletion
  cases result.err with
  | none =>
    rw [account_dispatch,account_complete,hi]
    exact account_succeed hst
  | some cause =>
    have hd : ((s.pending st.bucket).flatMap fun batch =>
        completeBatch batch st.bucket { err := some (poisonedError st.bucket cause) }).map fst =
          (s.pending st.bucket).flatMap (·.items) := by
      rw [map_flatMap]
      exact flatMap_congr fun batch _ => hi batch st.bucket _
    rw [account_dispatch,account_complete,map_append,hi,hd,← Multiset.coe_add,← add_assoc]
    exact account_fail (h.executing_mem (mem_of_getElem? hst)) hst cause

theorem handleCompletion_held (h : Inv c targets s) (hi : completeBatch.KeepsItems)
    (hst : s.executing[index]? = some st) (result : AttemptResult) :
    ((s.handleCompletion c completeBatch index st result).held c).card < (s.held c).card := by
  have ha := congrArg Multiset.card (account_handleCompletion h hi hst result)
  have hpos := length_pos_iff.mpr (h.executing_formed (mem_of_getElem? hst)).2
  have hc := fun r => congrArg length (hi st.batch st.bucket r)
  have hl : s.completed.length + st.batch.items.length ≤
      (s.handleCompletion c completeBatch index st result).completed.length := by
    simp only [length_map] at hc
    unfold handleCompletion
    cases result.err <;> simp [complete,endExecution,poison,advanceSequence,hc]
  simp only [account,Multiset.card_add,completedItems,Multiset.coe_card,length_map] at ha
  omega
end Completion

theorem flushBucket_openItems_nil {b : Int} (h : s.openItems b = []) (bucket : Int) :
    (s.flushBucket c completeBatch bucket).1.openItems b = [] := by
  by_cases hb : b = bucket
  · subst hb
    exact flushBucket_openItems b s
  apply flushBucket_rule (P := fun l => l.openItems b = []) fun _ => h
  · intro batch e _ _ _
    simpa [openItems,complete,takeBatch,update_of_ne hb] using h
  · intro batch _ _ _
    rw [view_openItems (dispatch_view _)]
    simpa [openItems,enqueue,takeBatch,update_of_ne hb] using h

theorem queueAll_openItems (h : FrontInv c targets s) (b : Int) :
    (s.queueAll c completeBatch).1.openItems b = [] := by
  have key : ∀ (bs : List Int) (l : LoopState ι τ), (b ∈ bs ∨ l.openItems b = []) →
      (l.flushBuckets c completeBatch bs).1.openItems b = [] := by
    intro bs
    induction bs with
    | nil => exact fun l hl => hl.resolve_left not_mem_nil
    | cons b' bs ih =>
      intro l hl
      refine ih (l.flushBucket c completeBatch b').1 ?_
      by_cases hb : b = b'
      · subst hb
        exact .inr (flushBucket_openItems b l)
      · exact hl.imp (fun hmem => (mem_cons.mp hmem).resolve_left hb) fun he =>
          flushBucket_openItems_nil he b'
  apply key
  by_cases hmem : b ∈ c.buckets
  · exact .inl hmem
  · have ha := h.assigned_eq b
    rw [h.outside b hmem] at ha
    exact .inr (append_eq_nil_iff.mp ha.symm).2

theorem held_eq_zero (h : Inv c targets s) (ho : ∀ b, s.openItems b = []) (hf : s.inFlight ≤ 0) :
    s.held c = 0 ∧ s.executing = [] ∧ ∀ b ∈ c.buckets, s.pending b = [] := by
  have he : s.executing = [] := by
    have := h.run.inFlight_eq
    exact length_eq_zero_iff.mp (by omega)
  have hp : ∀ b ∈ c.buckets, s.pending b = [] := by
    intro b hb
    have hpos := c.pos
    rcases h.saturated (by omega) b hb with ha | hn
    · rw [h.run.active_iff b,he] at ha
      simp at ha
    · exact hn
  refine ⟨?_,he,hp⟩
  rw [held,executingItems,he,Finset.sum_eq_zero]
  · rfl
  · intro b hb
    rw [waitingAt,ho b,hp b (mem_toFinset.mp hb)]
    rfl

section Results
variable {results : List (ι × WriteResult)}

theorem flushBucket_completed (h : results <+: s.completed) (bucket : Int) :
    results <+: (s.flushBucket c completeBatch bucket).1.completed := by
  apply flushBucket_rule (P := fun l => results <+: l.completed) fun _ => h
  · exact fun _ _ _ _ _ => h.trans (prefix_append _ _)
  · intro batch _ _ _
    rw [dispatch_completed]
    exact h

theorem queueAll_completed (h : results <+: s.completed) : results <+: (s.queueAll c completeBatch).1.completed :=
  queueAll_rule (P := fun l => results <+: l.completed) h fun _ bucket hl => flushBucket_completed hl bucket

theorem ops_completed {xs : List ι} (h : results <+: s.completed) (hops : Ops c targets completeBatch s xs s') :
    results <+: s'.completed := by
  induction hops with
  | refl => exact h
  | flush bucket _ ih => exact flushBucket_completed ih bucket
  | openBatch _ _ _ _ ih | timer _ _ ih | assign _ _ _ _ _ ih => exact ih
  | reject result _ ih => exact ih.trans (prefix_append _ _)

theorem handleCompletion_completed (h : results <+: s.completed) (index : Nat) (st : Started ι τ)
    (result : AttemptResult) : results <+: (s.handleCompletion c completeBatch index st result).completed := by
  unfold handleCompletion
  cases result.err <;>
  · dsimp only
    rw [dispatch_completed]
    exact h.trans (prefix_append _ _)
end Results
end LoopState

namespace WriterLoop
variable {ι τ φ : Type} {w : WriterLoop ι τ φ} {s s' : WriterState ι τ φ} {e : LoopEvent ι}

def eventItems : LoopEvent ι → List ι
  | .item x _ => [x]
  | _ => []

theorem step_account (hinv : s.loop.Inv w.config w.targets) (h : w.step s e = some s') :
    s'.loop.account w.config = s.loop.account w.config + (eventItems e : Multiset ι) := by
  cases step_cases h with
  | canceled x err hm => exact account_complete _
  | add x hm hadd => exact account_ops hinv w.completeBatch_items (w.add_ops hadd)
  | flush | close =>
    rw [flushAll_loop,account_queueAll hinv w.completeBatch_items]
    exact (add_zero _).symm
  | timer hm ha => exact (account_queueAll hinv w.completeBatch_items).trans (add_zero _).symm
  | completion result hm hst =>
    exact (account_handleCompletion hinv w.completeBatch_items hst result).trans (add_zero _).symm
  | drain result hm hst =>
    rw [settle_loop]
    exact (account_handleCompletion hinv w.completeBatch_items hst result).trans (add_zero _).symm
  | finish hm => exact (add_zero _).symm

theorem step_completed (h : w.step s e = some s') : s.loop.completed <+: s'.loop.completed :=
  loop_invariant (P := fun l => s.loop.completed <+: l.completed) (fun _ _ hl => hl.trans (prefix_append _ _))
    (fun _ _ _ hl hops => ops_completed hl hops) (fun _ hl => queueAll_completed hl)
    (fun _ index st result hl _ => handleCompletion_completed hl index st result) h (prefix_refl _)
/-- What the mode says about the loop: `flushAll` has no open items and waits for batches in flight. -/
def ModeInv (s : WriterState ι τ φ) : Prop :=
  match s.mode with
  | .running => True
  | .draining _ _ => (∀ b, s.loop.openItems b = []) ∧ 0 < s.loop.inFlight
  | .closing _ | .stopped _ => (∀ b, s.loop.openItems b = []) ∧ s.loop.inFlight ≤ 0

private theorem settle_modeInv {kind : Drain} {errors : List GoError} (hm : s.mode = .draining kind errors)
    (ho : ∀ b, s.loop.openItems b = []) : ModeInv (settle s) := by
  unfold settle
  rw [hm]
  dsimp only
  split
  next hf =>
    rw [ModeInv,hm]
    exact ⟨ho,hf⟩
  next hf =>
    cases kind with
    | flush => trivial
    | close => exact ⟨ho,Int.not_lt.mp hf⟩

theorem step_modeInv (hinv : s.loop.Inv w.config w.targets) (hmo : ModeInv s) (h : w.step s e = some s') :
    ModeInv s' := by
  cases step_cases h with
  | canceled _ _ hm | add _ hm | timer hm | completion _ hm => simp only [ModeInv,hm]
  | flush | close => exact settle_modeInv rfl fun b => queueAll_openItems hinv.front b
  | drain result hm hst =>
    simp only [ModeInv,hm] at hmo
    refine settle_modeInv rfl fun b => ?_
    exact (view_openItems (handleCompletion_view _ _ _ _) b).trans (hmo.1 b)
  | finish hm =>
    simp only [ModeInv,hm] at hmo
    exact hmo

theorem reachable_modeInv (h : w.system.Reachable s) : ModeInv s := by
  refine System.Reachable.invariant (P := ModeInv) ?_ ?_ h
  · rintro s rfl
    trivial
  · intro s e s' hr hm hs
    exact step_modeInv (reachable_inv hr) hm hs

theorem stopped_held (h : w.system.Reachable s) {errors : List GoError} (hs : s.mode = .stopped errors) :
    s.loop.held w.config = 0 ∧ (∀ b, s.loop.openItems b = []) ∧ s.loop.executing = [] ∧
      ∀ b ∈ w.config.buckets, s.loop.pending b = [] := by
  have hm := reachable_modeInv h
  simp only [ModeInv,hs] at hm
  obtain ⟨hh,he,hp⟩ := held_eq_zero (reachable_inv h) hm.1 hm.2
  exact ⟨hh,hm.1,he,hp⟩
end WriterLoop
end FlussGo
