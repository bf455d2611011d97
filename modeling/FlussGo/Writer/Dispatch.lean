import FlussGo.Writer.Loop
/-!
# Dispatching batches

What `dispatch` does is a sequence of starts that ends when no bucket can be started. It leaves the
view alone, and so do completions.
-/
namespace FlussGo
open List Nat Function
namespace LoopState
variable {ι τ : Type} {c : LoopConfig} {completeBatch : CompleteBatch ι τ} {s s' : LoopState ι τ}
  {bucket : Int} {batch : Batch ι τ} {rest : List (Batch ι τ)}
/-- Batches started one after the other, each for an idle bucket and below the limit. -/
inductive Starts (c : LoopConfig) : LoopState ι τ → LoopState ι τ → Prop
  | refl (s : LoopState ι τ) : Starts c s s
  | start {s s' : LoopState ι τ} {bucket : Int} {batch : Batch ι τ} {rest : List (Batch ι τ)} : Starts c s s' →
      bucket ∈ c.buckets → s'.active bucket = false → s'.pending bucket = batch :: rest →
      s'.inFlight < c.maxConcurrentRequests → Starts c s (s'.start bucket batch rest)

theorem Starts.trans {s'' : LoopState ι τ} (h : Starts c s s') (h' : Starts c s' s'') : Starts c s s'' := by
  induction h' with
  | refl => exact h
  | start _ hmem hi hp hlt ih => exact ih.start hmem hi hp hlt

def Saturated (c : LoopConfig) (s : LoopState ι τ) : Prop :=
  s.inFlight < c.maxConcurrentRequests → ∀ b ∈ c.buckets, s.active b = true ∨ s.pending b = []
/-- The number of buckets without an executing batch, which every start decreases. -/
def idle (c : LoopConfig) (s : LoopState ι τ) : Nat := c.buckets.countP fun b => !s.active b

theorem idle_start_lt (hmem : bucket ∈ c.buckets) (hi : s.active bucket = false) :
    (s.start bucket batch rest).idle c < s.idle c := by
  have key : ∀ bs : List Int,
      bs.countP (fun b => !(s.start bucket batch rest).active b) ≤ bs.countP (fun b => !s.active b) ∧
        (bucket ∈ bs →
          bs.countP (fun b => !(s.start bucket batch rest).active b) < bs.countP (fun b => !s.active b)) := by
    intro bs
    induction bs with
    | nil => simp
    | cons b bs ih =>
      by_cases hb : b = bucket
      · subst hb
        simp only [countP_cons,start,update_self,hi]
        simp only [start] at ih
        simp
        omega
      · simp only [countP_cons,start,update_of_ne hb,mem_cons]
        simp only [start] at ih
        constructor
        · omega
        · intro hmem
          have := ih.2 (hmem.resolve_left fun h => hb h.symm)
          omega
  exact (key c.buckets).2 hmem

theorem Starts.idle_le (h : Starts c s s') : s'.idle c ≤ s.idle c := by
  induction h with
  | refl => exact le_refl _
  | start _ hmem hi _ _ ih => exact le_trans (le_of_lt (idle_start_lt hmem hi)) ih
/-- One pass: it starts batches, it reports whether it did, and if it did not then it could not. -/
theorem dispatchPass_spec (buckets : List Int) (hmem : ∀ b ∈ buckets, b ∈ c.buckets)
    (hlt : s.inFlight < c.maxConcurrentRequests) : Starts c s (dispatchPass c buckets s).1 ∧
      ((dispatchPass c buckets s).2 = true → (dispatchPass c buckets s).1.idle c < s.idle c) ∧
      ((dispatchPass c buckets s).2 = false →
        (dispatchPass c buckets s).1 = s ∧ ∀ b ∈ buckets, s.active b = true ∨ s.pending b = []) := by
  induction buckets generalizing s with
  | nil => exact ⟨.refl s,by simp [dispatchPass],by simp [dispatchPass]⟩
  | cons b bs ih =>
    have hr : ∀ b' ∈ bs, b' ∈ c.buckets := fun b' h => hmem b' (mem_cons_of_mem _ h)
    unfold dispatchPass
    split
    next ha =>
      obtain ⟨hs,hp,hi⟩ := ih hr hlt
      refine ⟨hs,hp,fun h => ⟨(hi h).1,?_⟩⟩
      intro b' hb'
      rcases mem_cons.mp hb' with rfl | hb'
      · exact .inl ha
      · exact (hi h).2 b' hb'
    next ha =>
      replace ha : s.active b = false := by simpa using ha
      cases hpe : s.pending b with
      | nil =>
        obtain ⟨hs,hp,hi⟩ := ih hr hlt
        refine ⟨hs,hp,fun h => ⟨(hi h).1,?_⟩⟩
        intro b' hb'
        rcases mem_cons.mp hb' with rfl | hb'
        · exact .inr hpe
        · exact (hi h).2 b' hb'
      | cons batch rest =>
        have hb : b ∈ c.buckets := hmem b (by simp)
        have hst : Starts c s (s.start b batch rest) := (Starts.refl s).start hb ha hpe hlt
        have hf : (s.start b batch rest).idle c < s.idle c := idle_start_lt hb ha
        dsimp only
        split
        · exact ⟨hst,fun _ => hf,by simp⟩
        rename_i hne
        have hlt' : (s.start b batch rest).inFlight < c.maxConcurrentRequests := by
          simp only [start] at hne ⊢
          omega
        obtain ⟨hs,_,_⟩ := ih hr hlt'
        exact ⟨hst.trans hs,fun _ => lt_of_le_of_lt hs.idle_le hf,by simp⟩

theorem dispatchLoop_spec (n : Nat) (h : s.idle c < n) :
    Starts c s (dispatchLoop c n s) ∧ Saturated c (dispatchLoop c n s) := by
  induction n generalizing s with
  | zero => omega
  | succ n ih =>
    unfold dispatchLoop
    split
    next hlt =>
      obtain ⟨hs,hp,hi⟩ := dispatchPass_spec c.buckets (fun _ h => h) hlt
      generalize dispatchPass c c.buckets s = pass at hs hp hi
      obtain ⟨s',started⟩ := pass
      cases started with
      | true =>
        have := hp rfl
        obtain ⟨hm,hsat⟩ := ih (s := s') (by dsimp only at this; omega)
        exact ⟨hs.trans hm,hsat⟩
      | false =>
        obtain ⟨heq,hn⟩ := hi rfl
        dsimp only at heq ⊢
        subst heq
        exact ⟨hs,fun _ => hn⟩
    next hge => exact ⟨.refl s,fun hlt => absurd hlt hge⟩

theorem dispatch_starts (s : LoopState ι τ) : Starts c s (dispatch c s) :=
  (dispatchLoop_spec _ (lt_succ_of_le countP_le_length)).1

theorem dispatch_saturated (s : LoopState ι τ) : Saturated c (dispatch c s) :=
  (dispatchLoop_spec _ (lt_succ_of_le countP_le_length)).2

theorem Starts.frame (h : Starts c s s') :
    s'.view = s.view ∧ s'.poisoned = s.poisoned ∧ s'.sequences = s.sequences ∧ s'.completed = s.completed := by
  induction h with
  | refl => exact ⟨rfl,rfl,rfl,rfl⟩
  | start _ _ _ _ _ ih => exact ih

@[simp] theorem dispatch_view (s : LoopState ι τ) : (dispatch c s).view = s.view := (dispatch_starts s).frame.1

@[simp] theorem dispatch_completed (s : LoopState ι τ) : (dispatch c s).completed = s.completed :=
  (dispatch_starts s).frame.2.2.2
/-- `flushBucket` does nothing, or it completes the open batch of a failed bucket, or it queues it. -/
theorem flushBucket_rule {P : LoopState ι τ → Prop} (hno : s.openItems bucket = [] → P s)
    (hf : ∀ batch e, s.batches bucket = some batch → batch.items ≠ [] → s.poisoned bucket = some e →
      P ((s.takeBatch bucket batch).complete (completeBatch batch bucket { err := some (poisonedError bucket e) })))
    (hq : ∀ batch, s.batches bucket = some batch → batch.items ≠ [] → s.poisoned bucket = none →
      P (dispatch c ((s.takeBatch bucket batch).enqueue bucket batch))) :
    P (s.flushBucket c completeBatch bucket).1 := by
  unfold flushBucket
  cases ho : s.batches bucket with
  | none => exact hno (by simp [openItems,ho])
  | some batch =>
    dsimp only
    split
    next he => exact hno (by simpa [openItems,ho] using he)
    rename_i hne
    rw [List.isEmpty_iff] at hne
    cases hp : s.poisoned bucket with
    | none => exact hq batch ho hne hp
    | some e => exact hf batch e ho hne hp

theorem queueAll_rule {P : LoopState ι τ → Prop} (h : P (s.setTimer false))
    (hf : ∀ l bucket, P l → P (l.flushBucket c completeBatch bucket).1) : P (s.queueAll c completeBatch).1 := by
  have key : ∀ (buckets : List Int) (l : LoopState ι τ), P l → P (l.flushBuckets c completeBatch buckets).1 := by
    intro buckets
    induction buckets with
    | nil => exact fun _ hl => hl
    | cons b bs ih => exact fun l hl => ih _ (hf l b hl)
  exact key c.buckets _ h
/-- The batch that `flushBucket` takes, if any, is the open one. -/
def View.flush (v : View ι τ) (bucket : Int) : View ι τ :=
  match v.batches bucket with
  | none => v
  | some batch =>
    if batch.items.isEmpty then v
    else { v with
      batches := update v.batches bucket none
      formed := update v.formed bucket (v.formed bucket ++ [batch]) }

@[simp] theorem flushBucket_view (bucket : Int) (s : LoopState ι τ) :
    (s.flushBucket c completeBatch bucket).1.view = s.view.flush bucket := by
  unfold flushBucket View.flush
  cases ho : s.batches bucket with
  | none => simp only [view,ho]
  | some batch =>
    simp only [view,ho]
    split
    · rfl
    · cases s.poisoned bucket with
      | none => exact dispatch_view _
      | some e => rfl

theorem view_openItems (h : s.view = s'.view) (bucket : Int) : s.openItems bucket = s'.openItems bucket := by
  rw [openItems,openItems,show s.batches = s'.batches from congrArg View.batches h]

theorem flushBucket_openItems (bucket : Int) (s : LoopState ι τ) :
    (s.flushBucket c completeBatch bucket).1.openItems bucket = [] := by
  have hv : (s.flushBucket c completeBatch bucket).1.batches = (s.view.flush bucket).batches :=
    congrArg View.batches (flushBucket_view bucket s)
  rw [openItems,hv]
  unfold View.flush
  cases ho : s.batches bucket with
  | none => simp [view,ho]
  | some batch =>
    simp only [view,ho]
    split
    next he =>
      simpa [ho] using he
    · simp

theorem flushBuckets_view (buckets : List Int) (s : LoopState ι τ) :
    (s.flushBuckets c completeBatch buckets).1.view = buckets.foldl View.flush s.view := by
  induction buckets generalizing s with
  | nil => rfl
  | cons b bs ih =>
    simp only [flushBuckets,foldl_cons]
    rw [ih,flushBucket_view]

def View.flushAll (c : LoopConfig) (v : View ι τ) : View ι τ :=
  c.buckets.foldl View.flush { v with timerArmed := false }

@[simp] theorem queueAll_view (s : LoopState ι τ) : (s.queueAll c completeBatch).1.view = s.view.flushAll c :=
  flushBuckets_view _ _

@[simp] theorem handleCompletion_view (index : Nat) (e : Started ι τ) (result : AttemptResult) (s : LoopState ι τ) :
    (s.handleCompletion c completeBatch index e result).view = s.view := by
  unfold handleCompletion
  cases result.err <;> exact dispatch_view _

section Congruence
variable (h : s.view = s'.view)
include h
/-- States with one view have one view after each of the operations of `add`. -/
theorem flushBucket_view_congr (c : LoopConfig) (completeBatch : CompleteBatch ι τ) (bucket : Int) :
    (s.flushBucket c completeBatch bucket).1.view = (s'.flushBucket c completeBatch bucket).1.view := by
  rw [flushBucket_view,flushBucket_view,h]

theorem openBatch_view_congr (bucket : Int) (t : τ) : (s.openBatch bucket t).view = (s'.openBatch bucket t).view := by
  obtain ⟨hb,ht,ha,hf⟩ := View.mk.inj h
  simp only [openBatch,view,hb,ht,ha,hf]

theorem assign_view_congr (bucket : Int) (batch : Batch ι τ) (x : ι) (size : Int) :
    (s.assign bucket batch x size).view = (s'.assign bucket batch x size).view := by
  obtain ⟨hb,ht,ha,hf⟩ := View.mk.inj h
  simp only [assign,view,hb,ht,ha,hf]

theorem armTimer_view_congr (config : BatchConfig) : (s.armTimer config).view = (s'.armTimer config).view := by
  obtain ⟨hb,ht,ha,hf⟩ := View.mk.inj h
  simp only [armTimer,setTimer,view,hb,ht,ha,hf]
end Congruence
end LoopState
end FlussGo
