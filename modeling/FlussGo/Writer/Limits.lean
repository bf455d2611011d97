import FlussGo.Writer.Conservation
import FlussGo.Writer.Ordering
/-!
# Batch limits

The loops close a batch by the sizes that were estimated when its items were queued. What they form
keeps the limits in those sizes; what is sent keeps them if the records are no larger.
-/
namespace FlussGo
open Outcome List Option LoopState Function AppendWriter
namespace LoopState
variable {ι τ : Type} {c : LoopConfig} {completeBatch : CompleteBatch ι τ} {P Q : Batch ι τ → Prop}
  {s s' : LoopState ι τ} {bucket : Int}
/-- One property of open batches and one of formed batches. -/
structure BatchLaws (P Q : Batch ι τ → Prop) (s : LoopState ι τ) : Prop where
  waiting : ∀ b batch, s.batches b = some batch → P batch
  formed : ∀ b, ∀ batch ∈ s.formed b, Q batch

theorem BatchLaws.initial : BatchLaws P Q ({} : LoopState ι τ) := ⟨by simp,by simp⟩

theorem BatchLaws.of_view (h : BatchLaws P Q s) (hv : s'.view = s.view) : BatchLaws P Q s' := by
  obtain ⟨hb,_,_,hf⟩ := View.mk.inj hv
  exact ⟨hb ▸ h.waiting,hf ▸ h.formed⟩

private theorem waiting_update {f : Int → Option (Batch ι τ)} {v : Option (Batch ι τ)}
    (hf : ∀ b batch, f b = some batch → P batch) (hv : ∀ batch, v = some batch → P batch) (bucket : Int) :
    ∀ b batch, update f bucket v b = some batch → P batch := by
  intro b batch hb
  by_cases heq : b = bucket
  · subst heq
    rw [update_self] at hb
    exact hv batch hb
  · rw [update_of_ne heq] at hb
    exact hf b batch hb

theorem BatchLaws.openBatch {t : τ} (h : BatchLaws P Q s) (he : P ⟨[],t,0⟩) (bucket : Int) :
    BatchLaws P Q (s.openBatch bucket t) :=
  ⟨waiting_update h.waiting (fun _ hb => some.inj hb ▸ he) bucket,h.formed⟩

theorem BatchLaws.assign {batch : Batch ι τ} {x : ι} {size : Int} (h : BatchLaws P Q s)
    (hba : P { batch with items := batch.items ++ [x], bytes := batch.bytes + size }) (bucket : Int) :
    BatchLaws P Q (s.assign bucket batch x size) :=
  ⟨waiting_update h.waiting (fun _ hb => some.inj hb ▸ hba) bucket,h.formed⟩

theorem BatchLaws.takeBatch {batch : Batch ι τ} (h : ∀ b batch, b ≠ bucket → s.batches b = some batch → P batch)
    (hf : ∀ b, ∀ batch ∈ s.formed b, Q batch) (hba : Q batch) : BatchLaws P Q (s.takeBatch bucket batch) := by
  constructor
  · intro b batch' hb
    by_cases heq : b = bucket
    · subst heq
      simp [takeBatch] at hb
    · simp only [LoopState.takeBatch,update_of_ne heq] at hb
      exact h b batch' heq hb
  · intro b batch' hb
    by_cases heq : b = bucket
    · subst heq
      simp only [takeBatch,update_self,mem_append,mem_singleton] at hb
      rcases hb with hb | rfl
      · exact hf b batch' hb
      · exact hba
    · simp only [LoopState.takeBatch,update_of_ne heq] at hb
      exact hf b batch' hb

theorem flushBucket_batchLaws (h : ∀ batch, s.batches bucket = some batch → batch.items ≠ [] →
      BatchLaws P Q (s.takeBatch bucket batch)) (hn : s.openItems bucket = [] → BatchLaws P Q s) :
    BatchLaws P Q (s.flushBucket c completeBatch bucket).1 := by
  apply flushBucket_rule (P := BatchLaws P Q) hn
  · exact fun batch _ ho hne _ => (h batch ho hne).of_view rfl
  · exact fun batch ho hne _ => (h batch ho hne).of_view (dispatch_view _)

variable (hform : ∀ batch, P batch → batch.items ≠ [] → Q batch)
include hform

theorem BatchLaws.flushBucket (h : BatchLaws P Q s) (bucket : Int) :
    BatchLaws P Q (s.flushBucket c completeBatch bucket).1 :=
  flushBucket_batchLaws (fun batch ho hne => .takeBatch (fun b batch _ => h.waiting b batch) h.formed
    (hform batch (h.waiting bucket batch ho) hne)) fun _ => h

theorem BatchLaws.queueAll (h : BatchLaws P Q s) : BatchLaws P Q (s.queueAll c completeBatch).1 :=
  queueAll_rule (P := BatchLaws P Q) ⟨h.waiting,h.formed⟩ fun _ bucket hl => hl.flushBucket hform bucket
end LoopState

namespace LoopState
variable {ι τ : Type} {c : LoopConfig} {completeBatch : CompleteBatch ι τ} {s s' : LoopState ι τ}

theorem Inv.started_formed {targets : ι → τ} (h : s.Inv c targets) {st : Started ι τ} (hst : st ∈ s.started) :
    st.batch ∈ s.formed st.bucket := by
  obtain ⟨dropped,hf,_⟩ := h.run.formed_eq st.bucket
  rw [hf]
  refine mem_append_left _ (mem_append_left _ (mem_map.mpr ⟨st,?_,rfl⟩))
  simpa [startedAt] using hst
/-- A bucket without open items still has none. -/
def StillEmpty (s s' : LoopState ι τ) : Prop := ∀ b, s.openItems b = [] → s'.openItems b = []

theorem queueAll_stillEmpty (s : LoopState ι τ) : s.StillEmpty (s.queueAll c completeBatch).1 :=
  queueAll_rule (P := s.StillEmpty) (fun _ h => h) fun _ bucket hl b h => flushBucket_openItems_nil (hl b h) bucket
end LoopState

namespace WriterLoop
variable {ι τ φ : Type} {w : WriterLoop ι τ φ} {A : ι → Prop} {s : WriterState ι τ φ}
/-- The runs in which every item that reaches the loop was admitted to its queue. -/
def admitting (w : WriterLoop ι τ φ) (A : ι → Prop) : System (WriterState ι τ φ) (LoopEvent ι) where
  init s := s = w.initial
  step s e s' := w.step s e = some s' ∧ ∀ x canceled, e = .item x canceled → A x

theorem admitting_reachable (h : (w.admitting A).Reachable s) : w.system.Reachable s := by
  refine System.Reachable.map (U := w.system) id ?_ ?_ h
  · exact fun s hs => hs
  · exact fun s e s' _ hst => .inr ⟨e,hst.1⟩

variable {P Q : Batch ι τ → Prop} {K : φ → LoopState ι τ → Prop}
/-- Laws of batches that adding an admitted item keeps, together with a property of the routing state
that can only fail by opening items. -/
theorem admitting_batchLaws (hform : ∀ batch, P batch → batch.items ≠ [] → Q batch) (hi : K w.front {})
    (hadd : ∀ front l x front' l', A x → l.BatchLaws P Q → K front l → w.add front l x = some (front', l') →
      l'.BatchLaws P Q ∧ K front' l')
    (he : ∀ front l l', K front l → l.StillEmpty l' → K front l') (h : (w.admitting A).Reachable s) :
    s.loop.BatchLaws P Q ∧ K s.front s.loop := by
  refine System.Reachable.invariant (P := fun s => s.loop.BatchLaws P Q ∧ K s.front s.loop) ?_ ?_ h
  · rintro s rfl
    exact ⟨.initial,hi⟩
  rintro s e s' _ ⟨hl,hk⟩ ⟨hs,ha⟩
  have hq : (s.loop.queueAll w.config w.completeBatch).1.BatchLaws P Q ∧
      K s.front (s.loop.queueAll w.config w.completeBatch).1 :=
    ⟨hl.queueAll hform,he _ _ _ hk (queueAll_stillEmpty s.loop)⟩
  have hc : ∀ index st result,
      (s.loop.handleCompletion w.config w.completeBatch index st result).BatchLaws P Q ∧
        K s.front (s.loop.handleCompletion w.config w.completeBatch index st result) := by
    intro index st result
    have hv : (s.loop.handleCompletion w.config w.completeBatch index st result).view = s.loop.view :=
      handleCompletion_view index st result s.loop
    exact ⟨hl.of_view hv,he _ _ _ hk fun b hb => (view_openItems hv b).trans hb⟩
  cases step_cases hs with
  | canceled x err hm => exact ⟨hl.of_view rfl,he _ _ _ hk fun _ hb => hb⟩
  | add x hm hx => exact hadd _ _ _ _ _ (ha x none rfl) hl hk hx
  | flush | close => simpa using hq
  | timer hm har => exact hq
  | completion result hm hst => exact hc _ _ result
  | drain result hm hst => simpa using hc _ _ result
  | finish hm => exact ⟨hl,hk⟩
end WriterLoop

section Within
variable {ι τ : Type} {config : BatchConfig} {size : ι → Int} {R : ι → Prop} {batch : Batch ι τ}
/-- A batch of items of one kind that keeps the limits of a writer in estimated sizes. -/
structure Within (config : BatchConfig) (size : ι → Int) (R : ι → Prop) (batch : Batch ι τ) : Prop where
  items : ∀ x ∈ batch.items, R x
  bytes_eq : batch.bytes = (batch.items.map size).sum
  records : (batch.items.length : Int) ≤ config.maxBatchRecords
  bytes : 1 < batch.items.length → batch.bytes ≤ config.maxBatchBytes

theorem Within.empty (hvalid : config.Valid) (t : τ) : Within config size R ⟨[],t,0⟩ where
  items := by simp
  bytes_eq := rfl
  records := hvalid.maxBatchRecords.le
  bytes := by simp

theorem Within.add {x : ι} (h : Within config size R batch) (hvalid : config.Valid) (hx : R x)
    (hr : batch.items = [] ∨ config.batchFullWith batch (size x) = false) :
    Within config size R { batch with items := batch.items ++ [x], bytes := batch.bytes + size x } := by
  have hpos := hvalid.maxBatchRecords
  have hf : batch.items ≠ [] →
      (batch.items.length : Int) < config.maxBatchRecords ∧ batch.bytes + size x ≤ config.maxBatchBytes := by
    intro hne
    have hr := hr.resolve_left hne
    simp only [BatchConfig.batchFullWith,Bool.or_eq_false_iff,decide_eq_false_iff_not,not_le,not_lt] at hr
    exact hr
  constructor
  · intro y hy
    rcases mem_append.mp hy with hy | hy
    · exact h.items y hy
    · exact mem_singleton.mp hy ▸ hx
  · simp [h.bytes_eq]
  · by_cases hne : batch.items = []
    · simp [hne]
      omega
    · have := (hf hne).1
      simp
      omega
  · intro hl
    apply (hf _).2
    intro hnil
    simp [hnil] at hl
end Within

namespace AppendWriter
variable {w : AppendWriter} {c : LoopConfig} {s s' : LoopState (AppendItem w) Unit} {front front' : AppendFront}
  {x : AppendItem w} {bucket : Int}
/-- An open batch, and what becomes of one. -/
abbrev Rows (w : AppendWriter) : Batch (AppendItem w) Unit → Prop :=
  Within w.config.toBatchConfig AppendItem.size RowItem

def Formed (w : AppendWriter) (batch : Batch (AppendItem w) Unit) : Prop :=
  w.Rows batch ∨ ∃ x, batch.items = [x] ∧ ArrowItem x
/-- A sticky writer has open items in its current bucket only. -/
def Sticky (w : AppendWriter) (front : AppendFront) (s : LoopState (AppendItem w) Unit) : Prop :=
  w.effectiveNoKeyAssigner = .sticky → ∀ b, s.openItems b ≠ [] →
    0 ≤ front.stickyIndex ∧ w.buckets[front.stickyIndex.toNat]? = some b

theorem Sticky.stillEmpty (h : w.Sticky front s) (he : s.StillEmpty s') : w.Sticky front s' :=
  fun hs b hb => h hs b fun hnil => hb (he b hnil)

theorem assignBucket_sticky (h : w.assignBucket front x = .ok (bucket, front')) (hx : x.bucket = none)
    (hs : w.effectiveNoKeyAssigner = .sticky) :
    0 ≤ front'.stickyIndex ∧ w.buckets[front'.stickyIndex.toNat]? = some bucket ∧
      (0 ≤ front.stickyIndex → front' = front) := by
  have hk : w.table.schema.bucketKey.isEmpty = true := by
    by_contra hne
    simp [effectiveNoKeyAssigner,hne] at hs
  rw [assignBucket,hx] at h
  rw [if_neg (by simp [hk]),if_neg (by rw [hs]; simp)] at h
  obtain ⟨b,hb,h⟩ := of_bind h
  cases h
  have hget : ∀ {i : Nat} {b : Int}, w.bucketAt i = .ok b → w.buckets[i]? = some b := by
    intro i b hb
    unfold bucketAt at hb
    cases hi : w.buckets[i]? with
    | none => simp [hi] at hb
    | some b' =>
      rw [hi] at hb
      rw [ok.inj hb]
  refine ⟨?_,hget hb,?_⟩
  · split
    · exact Int.le_refl 0
    · omega
  · intro hn
    rw [if_neg (by omega)]
/-- Routing a row keeps the property of sticky writers, and its bucket is the one with open items. -/
theorem assignBucket_keeps (h : w.assignBucket front x = .ok (bucket, front')) (hx : x.bucket = none)
    (hs : w.Sticky front s) :
    w.Sticky front' s ∧ (w.effectiveNoKeyAssigner = .sticky → ∀ b ≠ bucket, s.openItems b = []) := by
  constructor
  · intro hst b hb
    obtain ⟨hn,hget⟩ := hs hst b hb
    rw [(assignBucket_sticky h hx hst).2.2 hn]
    exact ⟨hn,hget⟩
  · intro hst b hb
    by_contra ho
    obtain ⟨hn,hget⟩ := hs hst b ho
    obtain ⟨_,hget',hsa⟩ := assignBucket_sticky h hx hst
    rw [hsa hn,hget] at hget'
    exact hb (some.inj hget')

section Add
variable (hvalid : w.config.toBatchConfig.Valid)
include hvalid

private theorem batch_laws (h : s.BatchLaws w.Rows w.Formed) (bucket : Int) :
    (s.batch bucket).1.BatchLaws w.Rows w.Formed ∧ (s.batch bucket).1.batches bucket = some (s.batch bucket).2 ∧
      w.Rows (s.batch bucket).2 ∧ (s.openItems bucket = [] → (s.batch bucket).2.items = []) ∧
      s.StillEmpty (s.batch bucket).1 := by
  unfold batch
  cases ho : s.batches bucket with
  | some batch =>
    refine ⟨h,ho,h.waiting bucket batch ho,?_,fun _ hb => hb⟩
    simp [openItems,ho]
  | none =>
    refine ⟨h.openBatch (.empty hvalid ()) bucket,by simp [openBatch],.empty hvalid (),fun _ => rfl,?_⟩
    intro b hb
    by_cases heq : b = bucket
    · subst heq
      simp [openItems,openBatch]
    · simpa [openItems,openBatch,update_of_ne heq] using hb
/-- The slot of a row: an open batch with room for it, in the only bucket that may have open items. -/
private structure Slot (w : AppendWriter) (front : AppendFront) (s : LoopState (AppendItem w) Unit) (x : AppendItem w)
    (bucket : Int) (batch : Batch (AppendItem w) Unit) : Prop where
  laws : s.BatchLaws w.Rows w.Formed
  rows : w.Rows batch
  room : batch.items = [] ∨ w.config.batchFullWith batch x.size = false
  sticky : w.effectiveNoKeyAssigner = .sticky →
    0 ≤ front.stickyIndex ∧ w.buckets[front.stickyIndex.toNat]? = some bucket ∧ ∀ b ≠ bucket, s.openItems b = []

private theorem availableBatch_slot {slot : Option (Int × Batch (AppendItem w) Unit)} {front₀ : AppendFront}
    (hlaw : s.BatchLaws w.Rows w.Formed) (hs : w.Sticky front₀ s) (hx : x.bucket = none)
    (has : w.assignBucket front₀ x = .ok (bucket, front))
    (h : w.availableBatch c front s bucket x = some (front', s', slot)) :
    (∀ b batch, slot = some (b, batch) → Slot w front' s' x b batch) ∧
      (slot = none → s'.BatchLaws w.Rows w.Formed ∧ w.Sticky front' s') := by
  have hform : ∀ batch, w.Rows batch → batch.items ≠ [] → w.Formed batch := fun _ hro _ => .inl hro
  obtain ⟨hla,_,hro,_,hsti⟩ := batch_laws hvalid hlaw bucket
  obtain ⟨hs',ho⟩ := assignBucket_keeps has hx hs
  have hc := assignBucket_sticky has hx
  unfold availableBatch at h
  dsimp only at h
  split at h
  next hroo =>
    cases h
    refine ⟨?_,by simp⟩
    intro b batch hsl
    cases hsl
    refine ⟨hla,hro,by simpa using hroo,fun hst => ?_⟩
    obtain ⟨hn,hget,_⟩ := hc hst
    exact ⟨hn,hget,fun b hb => hsti b (ho hst b hb)⟩
  · have hf : ((s.batch bucket).1.flushBucket c w.completeBatch bucket).1.BatchLaws w.Rows w.Formed :=
      hla.flushBucket hform bucket
    have he : ((s.batch bucket).1.flushBucket c w.completeBatch bucket).1.openItems bucket = [] :=
      flushBucket_openItems bucket _
    generalize hfl : ((s.batch bucket).1.flushBucket c w.completeBatch bucket).1 = flushed at h hf he
    split at h
    next ha =>
      obtain ⟨hl,_,hr,hem,_⟩ := batch_laws hvalid hf bucket
      cases h
      refine ⟨?_,by simp⟩
      intro b batch hsl
      cases hsl
      exact ⟨hl,hr,.inl (hem he),fun hst => absurd hst ha⟩
    next ha =>
      have hst : w.effectiveNoKeyAssigner = .sticky := not_not.mp ha
      -- Only the flushed bucket had open items.
      have hno : ∀ b, flushed.openItems b = [] := by
        intro b
        by_cases hb : b = bucket
        · exact hb ▸ he
        · rw [← hfl]
          exact flushBucket_openItems_nil (hsti b (ho hst b hb)) bucket
      split at h
      next next front₂ hne =>
        obtain ⟨hl,_,hr,hem,hstil⟩ := batch_laws hvalid hf next
        cases h
        refine ⟨?_,by simp⟩
        intro b batch hsl
        cases hsl
        refine ⟨hl,hr,.inl (hem (hno next)),fun hst => ?_⟩
        obtain ⟨hn,hget,_⟩ := assignBucket_sticky hne hx hst
        exact ⟨hn,hget,fun b _ => hstil b (hno b)⟩
      · cases h
        refine ⟨by simp,fun _ => ⟨hf.of_view rfl,?_⟩⟩
        exact fun _ b hb => absurd (hno b) hb
      · simp at h

private theorem addToBatch_laws {batch : Batch (AppendItem w) Unit} (hs : Slot w front s x bucket batch)
    (hx : RowItem x) : (w.addToBatch c front s bucket batch x).2.BatchLaws w.Rows w.Formed ∧
      w.Sticky (w.addToBatch c front s bucket batch x).1 (w.addToBatch c front s bucket batch x).2 := by
  have hform : ∀ batch, w.Rows batch → batch.items ≠ [] → w.Formed batch := fun _ hr _ => .inl hr
  have ha := hs.laws.assign (hs.rows.add hvalid hx hs.room) bucket
  have ho : ∀ b ≠ bucket, s.openItems b = [] → (s.assign bucket batch x x.size).openItems b = [] := by
    intro b hb he
    simpa [openItems,assign,update_of_ne hb] using he
  unfold addToBatch
  dsimp only
  split
  · refine ⟨ha.flushBucket hform bucket,?_⟩
    intro hst b hb
    obtain ⟨_,_,he⟩ := hs.sticky hst
    refine absurd ?_ hb
    by_cases heq : b = bucket
    · subst heq
      exact flushBucket_openItems b _
    · exact flushBucket_openItems_nil (ho b heq (he b heq)) bucket
  · refine ⟨⟨ha.waiting,ha.formed⟩,?_⟩
    intro hst b hb
    obtain ⟨hn,hget,he⟩ := hs.sticky hst
    by_cases heq : b = bucket
    · subst heq
      exact ⟨hn,hget⟩
    · exact absurd (ho b heq (he b heq)) hb

omit hvalid in
private theorem addArrow_laws (hl : s.BatchLaws w.Rows w.Formed) (hx : ArrowItem x) (bucket : Int) :
    (w.addArrow c s bucket x).BatchLaws w.Rows w.Formed ∧ s.StillEmpty (w.addArrow c s bucket x) := by
  have hform : ∀ batch, w.Rows batch → batch.items ≠ [] → w.Formed batch := fun _ hr _ => .inl hr
  have hf : (s.flushBucket c w.completeBatch bucket).1.BatchLaws w.Rows w.Formed := hl.flushBucket hform bucket
  have hs : s.StillEmpty (s.flushBucket c w.completeBatch bucket).1 :=
    fun b hb => flushBucket_openItems_nil hb bucket
  unfold addArrow
  generalize (s.flushBucket c w.completeBatch bucket).1 = flushed at hf hs
  constructor
  · refine flushBucket_batchLaws ?_ ?_
    · intro batch ho _
      have hba : batch.items = [x] := by
        simp only [assign,update_self] at ho
        rw [← some.inj ho]
        rfl
      refine .takeBatch ?_ hf.formed (.inr ⟨x,hba,hx⟩)
      intro b batch' hb hba'
      simp only [assign,openBatch,update_of_ne hb] at hba'
      exact hf.waiting b batch' hba'
    · intro he
      simp [openItems,assign] at he
  · intro b hb
    by_cases heq : b = bucket
    · subst heq
      exact flushBucket_openItems b _
    · apply flushBucket_openItems_nil
      simpa [openItems,assign,openBatch,update_of_ne heq] using hs b hb

theorem add_laws (hx : w.Admitted x) (hl : s.BatchLaws w.Rows w.Formed) (hs : w.Sticky front s)
    (h : w.add c front s x = some (front', s')) : s'.BatchLaws w.Rows w.Formed ∧ w.Sticky front' s' := by
  unfold add at h
  split at h
  · simp at h
  · cases h
    exact ⟨hl.of_view rfl,hs⟩
  rename_i bucket front₁ ha
  rcases hx.kind with hrow | har
  · rw [hrow.arrow] at h
    simp only [isSome_none,Bool.false_eq_true,if_false] at h
    split at h
    · simp at h
    next hsl =>
      cases h
      exact (availableBatch_slot hvalid hl hs hrow.bucket ha hsl).2 rfl
    next b batch hsl =>
      have hf := (availableBatch_slot hvalid hl hs hrow.bucket ha hsl).1 b batch rfl
      rw [← Prod.mk.eta (p := w.addToBatch c _ _ b batch x),some.injEq,Prod.mk.injEq] at h
      obtain ⟨rfl,rfl⟩ := h
      exact addToBatch_laws hvalid hf hrow
  · obtain ⟨rows,hr,_⟩ := har.arrow
    rw [hr] at h
    simp only [isSome_some,if_true,some.injEq,Prod.mk.injEq] at h
    obtain ⟨rfl,rfl⟩ := h
    obtain ⟨b,hb⟩ := har.bucket
    rw [assignBucket,hb] at ha
    cases ha
    obtain ⟨hl',hst⟩ := addArrow_laws (c := c) hl har bucket
    exact ⟨hl',hs.stillEmpty hst⟩
end Add

theorem formed_of_reachable (hw : w.Created) {s : WriterState (AppendItem w) Unit AppendFront}
    (h : ((w.loop hw).admitting w.Admitted).Reachable s) {b : Int} {batch : Batch (AppendItem w) Unit}
    (hba : batch ∈ s.loop.formed b) : w.Formed batch := by
  have hvalid := hw.facts.2.2
  have hl := WriterLoop.admitting_batchLaws (w := w.loop hw) (P := w.Rows) (Q := w.Formed) (K := w.Sticky)
    (fun _ hr _ => .inl hr) (fun _ b hb => absurd rfl hb)
    (fun _ _ _ _ _ hx hl hs hadd => add_laws hvalid hx hl hs hadd)
    (fun _ _ _ hs hst => hs.stillEmpty hst) h
  exact hl.1.formed b batch hba
end AppendWriter

namespace UpsertWriter
variable {w : UpsertWriter} {c : LoopConfig} {s : LoopState (UpsertItem w) (List Int)} {x : UpsertItem w}

def Admitted (w : UpsertWriter) (x : UpsertItem w) : Prop :=
  (∃ row future, w.upsertItem row future = .ok x) ∨ (∃ key future, w.deleteItem key future = .ok x) ∨
    ∃ columns values future, w.partialUpsertItem columns values future = .ok x
/-- The size that `enqueueMutation` gives an item. -/
def Sized (x : UpsertItem w) : Prop := x.size = x.record.key.length + (x.record.value.getD []).length + 8

private theorem mutationItem_sized {values : List (String × Value)} {value : Option Bytes} {targets : List Int}
    {future : Nat} (h : w.mutationItem values value targets future = .ok x) : Sized x := by
  obtain ⟨_,_,hv,hs⟩ := mutationItem_eq_ok h
  rw [Sized,hv,hs]

theorem Admitted.sized (h : w.Admitted x) : Sized x := by
  rcases h with ⟨row,future,h⟩ | ⟨key,future,h⟩ | ⟨columns,values,future,h⟩
  · rw [upsertItem] at h
    have h := (of_guard h).2
    obtain ⟨_,h⟩ := of_seq h
    obtain ⟨value,_,h⟩ := of_bind h
    exact mutationItem_sized h
  · obtain ⟨_,h⟩ := of_seq h
    exact mutationItem_sized h
  · obtain ⟨targets,_,h⟩ := of_bind h
    obtain ⟨value,_,h⟩ := of_bind h
    exact mutationItem_sized h

abbrev Mutations (w : UpsertWriter) : Batch (UpsertItem w) (List Int) → Prop :=
  Within w.config.toBatchConfig UpsertItem.size Sized

section Add
variable (hvalid : w.config.toBatchConfig.Valid)
include hvalid

private theorem newBatch_laws (h : s.BatchLaws w.Mutations w.Mutations) :
    (w.newBatch s x).1.BatchLaws w.Mutations w.Mutations ∧ w.Mutations (w.newBatch s x).2 :=
  ⟨h.openBatch (.empty hvalid x.targets) x.bucket,.empty hvalid x.targets⟩

private theorem compatibleBatch_laws (h : s.BatchLaws w.Mutations w.Mutations) :
    (w.compatibleBatch c s x).1.BatchLaws w.Mutations w.Mutations ∧ w.Mutations (w.compatibleBatch c s x).2 := by
  unfold compatibleBatch
  cases ho : s.batches x.bucket with
  | none => exact newBatch_laws hvalid h
  | some batch =>
    dsimp only
    split
    · exact newBatch_laws hvalid (h.flushBucket (fun _ hb _ => hb) x.bucket)
    · exact ⟨h,h.waiting x.bucket batch ho⟩

private theorem batchFor_laws (h : s.BatchLaws w.Mutations w.Mutations) :
    (w.batchFor c s x).1.BatchLaws w.Mutations w.Mutations ∧ w.Mutations (w.batchFor c s x).2 ∧
      ((w.batchFor c s x).2.items = [] ∨ w.config.batchFullWith (w.batchFor c s x).2 x.size = false) := by
  obtain ⟨hl,hb⟩ := compatibleBatch_laws (c := c) (x := x) hvalid h
  unfold batchFor
  dsimp only
  split
  · have hf : ((w.compatibleBatch c s x).1.flushBucket c w.completeBatch x.bucket).1.BatchLaws w.Mutations w.Mutations :=
      hl.flushBucket (fun _ hb _ => hb) x.bucket
    obtain ⟨hl',hb'⟩ := newBatch_laws (x := x) hvalid hf
    exact ⟨hl',hb',.inl rfl⟩
  next hr =>
    refine ⟨hl,hb,?_⟩
    simpa [or_iff_not_imp_left] using hr

theorem add_laws (hx : w.Admitted x) (h : s.BatchLaws w.Mutations w.Mutations) :
    (w.add c s x).BatchLaws w.Mutations w.Mutations := by
  obtain ⟨hl,hb,hr⟩ := batchFor_laws (c := c) (x := x) hvalid h
  have ha := hl.assign (hb.add hvalid hx.sized hr) x.bucket
  unfold add
  dsimp only
  split
  · exact ha.flushBucket (fun _ hb _ => hb) x.bucket
  · exact ⟨ha.waiting,ha.formed⟩
end Add

theorem formed_of_reachable (hw : w.Created) {s : WriterState (UpsertItem w) (List Int) Unit}
    (h : ((w.loop hw).admitting w.Admitted).Reachable s) {b : Int} {batch : Batch (UpsertItem w) (List Int)}
    (hb : batch ∈ s.loop.formed b) : w.Mutations batch := by
  have hla := WriterLoop.admitting_batchLaws (w := w.loop hw) (P := w.Mutations) (Q := w.Mutations)
    (K := fun _ _ => True) (fun _ hb _ => hb) trivial ?_ (fun _ _ _ _ _ => trivial) h
  · exact hla.1.formed b batch hb
  · intro _ l x _ l' hx hl _ hadd
    cases hadd
    exact ⟨add_laws hw.facts.2.2 hx hl,trivial⟩

def encodeBatch (w : UpsertWriter) (checksum : Bytes → BitVec 32) (items : List (UpsertItem w)) (sequence : BitVec 32) :
    Go Bytes :=
  let batch : KVBatch := {
    schemaID := BitVec.ofInt 16 w.table.schemaID, writerID := w.writerID, batchSequence := sequence
    records := items.map (·.record) }
  batch.encode checksum
end UpsertWriter

section Sizes
variable {w : AppendWriter} {x : AppendItem w}
private theorem RowItem.encoded (h : AppendWriter.RowItem x) :
    ∃ encoded, encodeLogRow w.table.schema true x.row = .ok encoded ∧ x.size = 5 + encoded.length := by
  obtain ⟨n,ha,hs⟩ := h.size
  rw [append] at ha
  have ha := (of_guard ha).2
  obtain ⟨_,ha⟩ := of_seq ha
  obtain ⟨encoded,he,ha⟩ := of_bind ha
  have hn := ok.inj ha
  exact ⟨encoded,he,by omega⟩

theorem AppendWriter.RowItem.encodes (h : AppendWriter.RowItem x) :
    (encodeLogRow w.table.schema true x.row).isOk = true := by
  obtain ⟨encoded,he,_⟩ := RowItem.encoded h
  exact isOk_iff.mpr ⟨encoded,he⟩

private theorem RowItem.size_eq (h : AppendWriter.RowItem x) : x.size = 5 + rowLength w.table.schema true x.row := by
  obtain ⟨encoded,he,hs⟩ := RowItem.encoded h
  rw [hs,rowLength,he]

theorem LogFormat.compactedRows_of_ne {format : LogFormat} (h : format ≠ .indexed) : format.compactedRows = true := by
  cases format with
  | indexed => exact absurd rfl h
  | _ => rfl

private theorem encodeBatch_length_le {items : List (AppendItem w)} {sequence : BitVec 32} {encoded : Bytes}
    (hi : ∀ x ∈ items, AppendWriter.RowItem x)
    (hle : w.config.format = .indexed →
      ∀ x ∈ items, rowLength w.table.schema false x.row ≤ rowLength w.table.schema true x.row)
    (h : w.encodeBatch (items.map (·.row)) sequence = .ok encoded) :
    (encoded.length : Int) ≤ logBatchV0HeaderSize + (items.map AppendItem.size).sum := by
  have hsize : ∀ x ∈ items, (5 + rowLength w.table.schema w.config.format.compactedRows x.row : Int) ≤ x.size := by
    intro x hx
    rw [RowItem.size_eq (hi x hx)]
    by_cases hf : w.config.format = .indexed
    · have := hle hf x hx
      rw [hf,show LogFormat.indexed.compactedRows = false from rfl]
      omega
    · rw [LogFormat.compactedRows_of_ne hf]
  rw [LogBatch.encodeRows_length h rfl,List.map_map,List.map_map]
  clear h hi hle
  induction items with
  | nil => rfl
  | cons x xs ih =>
    rw [forall_mem_cons] at hsize
    have hr := ih hsize.2
    simp only [map_cons,sum_cons,comp_def] at hr hsize ⊢
    omega

private theorem kvFrames_length_le_sizes {w : UpsertWriter} {items : List (UpsertItem w)}
    (h : ∀ x ∈ items, UpsertWriter.Sized x) (hk : ∀ x ∈ items, x.record.key.length ≤ maxRowBytes) :
    ((kvFrames (items.map (·.record))).length : Int) ≤ (items.map UpsertItem.size).sum := by
  have hm := maxRowBytes_eq
  induction items with
  | nil => exact Int.le_refl 0
  | cons x xs ih =>
    rw [forall_mem_cons] at h hk
    have hr := ih h.2 hk.2
    have hs : x.size = x.record.key.length + (x.record.value.getD []).length + 8 := h.1
    have hkey : (varBytes 10 x.record.key.length).length ≤ 4 := varBytes_length_le 10 (by decide) (by omega)
    simp only [kvFrames,map_cons,flatMap_cons,length_append,sum_cons,kvFrame,littleBytes_length,
      KVRecord.body,appendVar32,appendVar64,nil_append] at hr ⊢
    omega
end Sizes
/-- The requests that the loops send. Both limits hold for an upsert writer; for an append writer the
limit on bytes holds unless an indexed row is longer than the compacted one. -/
theorem writers_keep_batch_limits (a : AppendWriter) (ha : a.Created) (u : UpsertWriter) (hu : u.Created) :
    (∀ s, ((a.loop ha).admitting a.Admitted).Reachable s → ∀ st ∈ s.loop.started,
      (∀ x ∈ st.batch.items, x.arrow = none) →
      (st.batch.items.length : Int) ≤ a.config.maxBatchRecords ∧
      ∀ encoded, a.encodeBatch (st.batch.items.map (·.row)) st.sequence = .ok encoded → 1 < st.batch.items.length →
        (a.config.format = .indexed → ∀ x ∈ st.batch.items,
          rowLength a.table.schema false x.row ≤ rowLength a.table.schema true x.row) →
        (encoded.length : Int) ≤ a.config.maxBatchBytes + logBatchV0HeaderSize) ∧
    ∀ s, ((u.loop hu).admitting u.Admitted).Reachable s → ∀ st ∈ s.loop.started,
      (st.batch.items.length : Int) ≤ u.config.maxBatchRecords ∧
      ∀ checksum encoded, u.encodeBatch checksum st.batch.items st.sequence = .ok encoded → 1 < st.batch.items.length →
        (encoded.length : Int) ≤ u.config.maxBatchBytes + kvBatchHeaderSize := by
  constructor
  · intro s hs st hst hrows
    have hinv := WriterLoop.reachable_inv (WriterLoop.admitting_reachable hs)
    have hwithin : a.Rows st.batch := by
      rcases AppendWriter.formed_of_reachable ha hs (hinv.started_formed hst) with h | ⟨x,hx,harrow⟩
      · exact h
      · obtain ⟨rows,hsome,_⟩ := harrow.arrow
        rw [hrows x (by simp [hx])] at hsome
        simp at hsome
    refine ⟨hwithin.records,fun encoded hencoded hmany hshort => ?_⟩
    have hbytes := hwithin.bytes hmany
    rw [hwithin.bytes_eq] at hbytes
    have hlength := encodeBatch_length_le hwithin.items hshort hencoded
    omega
  · intro s hs st hst
    have hinv := WriterLoop.reachable_inv (WriterLoop.admitting_reachable hs)
    have hwithin := UpsertWriter.formed_of_reachable hu hs (hinv.started_formed hst)
    refine ⟨hwithin.records,fun checksum encoded hencoded hmany => ?_⟩
    have hbytes := hwithin.bytes hmany
    rw [hwithin.bytes_eq] at hbytes
    obtain ⟨rfl,hmax⟩ := KVBatch.encode_eq_ok.mp hencoded
    rw [kvBatchBytes_length] at hmax ⊢
    have hle := kvFrames_length_le_sizes hwithin.items fun x hx =>
      (key_length_le_kvFrames (mem_map_of_mem hx)).trans ((Nat.le_add_left _ _).trans hmax)
    dsimp only
    omega
/-- A writer of numbers in batches of at most two rows, and one that sends indexed rows. -/
def pairWriter : AppendWriter := numberWriter none { maxBatchRecords := 2 }

def indexedWriter : AppendWriter := numberWriter none { maxBatchBytes := 49, format := .indexed }

theorem pairWriter_created : pairWriter.Created := by
  refine ⟨numberBackend,pairWriter.table,[some (withAppendBatchLimits 1048576 2)],?_,rfl⟩
  intro option ho
  obtain rfl := some.inj (mem_singleton.mp ho)
  exact .batchLimits 1048576 2

theorem indexedWriter_created : indexedWriter.Created := by
  refine ⟨numberBackend,indexedWriter.table,
    [some (withAppendBatchLimits 49 1000), some (withAppendLogFormat .indexed)],?_,rfl⟩
  intro option ho
  rcases mem_cons.mp ho with h | h
  · cases h
    exact .batchLimits 49 1000
  · obtain rfl := some.inj (mem_singleton.mp h)
    exact .logFormat .indexed

private theorem no_bucket (w : AppendWriter) (b : Int) (h : none = some b) : b ∈ w.buckets :=
  absurd h.symm (some_ne_none b)

def numberItem (w : AppendWriter) (future : Nat) : AppendItem w where
  row := [.int32 1]
  size := 7
  future := future
  bucket_mem := no_bucket w
/-- The size of the request for a batch of several rows. -/
def AppendWriter.requestBytes {w : AppendWriter} (st : Started (AppendItem w) Unit) : Option Nat :=
  match w.encodeBatch (st.batch.items.map (·.row)) st.sequence with
  | .ok encoded => if 1 < st.batch.items.length ∧ st.batch.items.all (·.arrow.isNone) then some encoded.length else none
  | _ => none

private theorem requestBytes_eq_some {w : AppendWriter} {st : Started (AppendItem w) Unit} {n : Nat}
    (h : requestBytes st = some n) : 1 < st.batch.items.length ∧ (∀ x ∈ st.batch.items, x.arrow = none) ∧
      ∃ encoded, w.encodeBatch (st.batch.items.map (·.row)) st.sequence = .ok encoded ∧ encoded.length = n := by
  unfold requestBytes at h
  split at h
  next encoded he =>
    split at h
    next hr => exact ⟨hr.1,by simpa using hr.2,encoded,he,some.inj h⟩
    · simp at h
  · simp at h

private theorem numberRun_started {w : AppendWriter} (hw : w.Created)
    (hnu : ∀ future, w.Admitted (numberItem w future)) (count n : Nat)
    (h : (((List.range count).map fun i => LoopEvent.item (numberItem w i) none).foldlM (w.loop hw).step
      (w.loop hw).initial).any (fun s => s.loop.started.any (requestBytes · == some n)) = true) :
    ∃ s, ((w.loop hw).admitting w.Admitted).Reachable s ∧ ∃ st ∈ s.loop.started,
      requestBytes st = some n := by
  have hste : ∀ t e t', e ∈ (List.range count).map (fun i => LoopEvent.item (numberItem w i) none) →
      (w.loop hw).step t e = some t' → ((w.loop hw).admitting w.Admitted).step t e t' := by
    intro t e t' he hste
    refine ⟨hste,?_⟩
    rintro x canceled rfl
    obtain ⟨i,_,hi⟩ := mem_map.mp he
    obtain ⟨rfl,_⟩ := LoopEvent.item.inj hi
    exact hnu i
  obtain ⟨s,hs,hany⟩ := System.Reachable.of_foldlM_any (T := (w.loop hw).admitting w.Admitted) _ _ _ rfl hste h
  obtain ⟨st,hst,hn⟩ := any_eq_true.mp hany
  exact ⟨s,hs,st,hst,by simpa using hn⟩

theorem writers_keep_batch_limits_pair :
    ∃ s, ((pairWriter.loop pairWriter_created).admitting pairWriter.Admitted).Reachable s ∧
    ∃ st ∈ s.loop.started, (st.batch.items.length : Int) ≤ 2 ∧
      ∃ encoded, pairWriter.encodeBatch (st.batch.items.map (·.row)) st.sequence = .ok encoded ∧
        (encoded.length : Int) ≤ pairWriter.config.maxBatchBytes + logBatchV0HeaderSize := by
  obtain ⟨s,hs,st,hst,hn⟩ := numberRun_started pairWriter_created (fun future => .inl ⟨[.int32 1],future,rfl⟩) 2 62
    (by decide +kernel)
  obtain ⟨hmany,hrows,encoded,hencoded,_⟩ := requestBytes_eq_some hn
  obtain ⟨hrecords,hbytes⟩ := (writers_keep_batch_limits pairWriter pairWriter_created numberKeyWriter
    numberKeyWriter_created).1 s hs st hst hrows
  exact ⟨s,hs,st,hst,hrecords,encoded,hencoded,hbytes encoded hencoded hmany fun h => absurd h (by decide)⟩
/-- Seven indexed rows of ten bytes where the limit is 49: the estimates are those of compacted rows. -/
theorem indexed_rows_exceed_limit :
    ∃ s, ((indexedWriter.loop indexedWriter_created).admitting indexedWriter.Admitted).Reachable s ∧
      ∃ st ∈ s.loop.started, 1 < st.batch.items.length ∧ (∀ x ∈ st.batch.items, x.arrow = none) ∧
        ∃ encoded, indexedWriter.encodeBatch (st.batch.items.map (·.row)) st.sequence = .ok encoded ∧
          indexedWriter.config.maxBatchBytes + logBatchV0HeaderSize < (encoded.length : Int) := by
  obtain ⟨s,hs,st,hst,hn⟩ := numberRun_started indexedWriter_created (fun future => .inl ⟨[.int32 1],future,rfl⟩)
    7 118 (by decide +kernel)
  obtain ⟨hmany,hrows,encoded,hencoded,hlength⟩ := requestBytes_eq_some hn
  exact ⟨s,hs,st,hst,hmany,hrows,encoded,hencoded,by rw [hlength]; decide⟩
end FlussGo
