import FlussGo.Log.Format
import FlussGo.Writer.LoopRun
import FlussGo.Writer.Upsert
/-!
# Order of the batches of a bucket

The batches of a bucket are started in command order, one at a time; their sequences count from zero until
the 32-bit counter wraps. A failed bucket starts nothing any more, and the other buckets do not depend on it.
-/
namespace FlussGo
open List LoopState AppendWriter
variable {s : LoopState (AppendItem singleWriter) Unit} {c : LoopConfig}

namespace LoopState
variable {ι τ : Type} {c : LoopConfig} {targets : ι → τ} {completeBatch : CompleteBatch ι τ} {s s' : LoopState ι τ}
/-- The sequences of the batches started for a bucket, as signed numbers, are 0, 1, 2, … without repetition. -/
def SequencesCount (s : LoopState ι τ) (b : Int) : Prop :=
  (s.startedAt b).map (·.sequence.toInt) = (List.range (s.startedAt b).length).map Int.ofNat ∧
    ((s.startedAt b).map (·.sequence)).Nodup

private theorem toInt_ofNat_eq_iff (n : Nat) : (BitVec.ofNat 32 n).toInt = n ↔ n < 2 ^ 31 := by
  constructor
  · intro h
    have := BitVec.toInt_lt (x := BitVec.ofNat 32 n)
    omega
  · intro h
    rw [BitVec.toInt_ofNat',Int.bmod_eq_of_le (by omega) (by omega)]

theorem sequencesCount_iff (h : RunInv c s) (b : Int) : s.SequencesCount b ↔ (s.startedAt b).length ≤ 2 ^ 31 := by
  have hmap : (s.startedAt b).map (·.sequence.toInt) =
      (List.range (s.startedAt b).length).map fun n => (BitVec.ofNat 32 n).toInt := by
    have := congrArg (List.map BitVec.toInt) (h.started_sequences b)
    rwa [map_map,map_map] at this
  rw [SequencesCount,hmap,h.started_sequences b]
  constructor
  · intro hc
    by_contra hgt
    have hlt : 2 ^ 31 < (s.startedAt b).length := by omega
    have := map_inj_left.mp hc.1 (2 ^ 31) (mem_range.mpr hlt)
    exact absurd ((toInt_ofNat_eq_iff _).mp this) (by omega)
  · intro hle
    constructor
    · apply map_congr_left
      intro n hn
      exact (toInt_ofNat_eq_iff n).mpr (by have := mem_range.mp hn; omega)
    · refine List.Nodup.map_on ?_ nodup_range
      intro m hm n hn heq
      have := congrArg BitVec.toNat heq
      rw [mem_range] at hm hn
      simp only [BitVec.toNat_ofNat] at this
      omega

theorem Inv.inFlight_active (h : Inv c targets s) : s.inFlight = (c.buckets.countP s.active : Nat) := by
  have hp : (c.buckets.filter s.active).Perm (s.executing.map (·.bucket)) := by
    refine (perm_ext_iff_of_nodup (c.nodup.filter _) h.run.executing_nodup).mpr ?_
    intro b
    rw [mem_filter,h.run.active_iff b]
    refine ⟨fun hb => hb.2,fun hb => ⟨?_,hb⟩⟩
    obtain ⟨e,he,rfl⟩ := mem_map.mp hb
    exact h.executing_mem he
  rw [countP_eq_length_filter,hp.length_eq,length_map]
  exact h.run.inFlight_eq
/-- The items assigned to a bucket: those started, those of dropped batches, and those that wait. -/
theorem Inv.assigned_split (h : Inv c targets s) (b : Int) :
    ∃ dropped, s.assigned b = (s.startedAt b).flatMap (·.batch.items) ++ dropped ++
        (s.pending b).flatMap (·.items) ++ s.openItems b ∧ (s.poisoned b = none → dropped = []) := by
  obtain ⟨dropped,hf,hn⟩ := h.run.formed_eq b
  refine ⟨dropped.flatMap (·.items),?_,fun hb => by rw [hn hb]; rfl⟩
  rw [h.front.assigned_eq b,hf]
  simp [flatMap_append,flatMap_map]

theorem Inv.started_targets (h : Inv c targets s) {st : Started ι τ} (hst : st ∈ s.started) {x : ι}
    (hx : x ∈ st.batch.items) : targets x = st.batch.targets := by
  obtain ⟨dropped,hf,_⟩ := h.run.formed_eq st.bucket
  refine h.front.formed_targets st.bucket st.batch ?_ x hx
  rw [hf]
  refine mem_append_left _ (mem_append_left _ (mem_map.mpr ⟨st,?_,rfl⟩))
  simpa [startedAt] using hst
/-- What was started is determined by the batches: their bucket and their number are known. -/
theorem RunInv.startedAt_eq (h : RunInv c s) (b : Int) : s.startedAt b =
    ((s.startedAt b).map (·.batch)).zipIdx.map fun p => ⟨b,p.1,BitVec.ofNat 32 p.2⟩ := by
  apply ext_getElem
  · simp
  intro n hn _
  have hb : ((s.startedAt b)[n]).bucket = b := by
    have hmem : (s.startedAt b)[n] ∈ s.startedAt b := getElem_mem hn
    exact of_decide_eq_true (mem_filter.mp hmem).2
  have hseq : ((s.startedAt b)[n]).sequence = BitVec.ofNat 32 n := by
    have := congrArg (·[n]?) (h.started_sequences b)
    simpa [hn] using this
  simp only [getElem_map,getElem_zipIdx,Nat.zero_add]
  exact Started.ext hb rfl hseq
/-- Runs that formed the same batches started the same ones, up to how far they got. -/
theorem startedAt_comparable (h : RunInv c s) (h' : RunInv c s') {b : Int} (hf : s.formed b = s'.formed b)
    (hle : (s.startedAt b).length ≤ (s'.startedAt b).length) : s.startedAt b <+: s'.startedAt b := by
  obtain ⟨dropped,heq,_⟩ := h.formed_eq b
  obtain ⟨dropped',heq',_⟩ := h'.formed_eq b
  have hb : (s.startedAt b).map (·.batch) <+: (s'.startedAt b).map (·.batch) := by
    have hl : (s.startedAt b).map (·.batch) <+: s.formed b := by
      rw [heq,append_assoc]
      exact prefix_append _ _
    have hr : (s'.startedAt b).map (·.batch) <+: s.formed b := by
      rw [hf,heq',append_assoc]
      exact prefix_append _ _
    exact prefix_of_prefix_length_le hl hr (by simpa using hle)
  obtain ⟨more,hm⟩ := hb
  rw [h.startedAt_eq b,h'.startedAt_eq b,← hm,zipIdx_append,map_append]
  exact prefix_append _ _

theorem View.flush_assigned (v : View ι τ) (bucket : Int) : (v.flush bucket).assigned = v.assigned := by
  unfold View.flush
  split
  · rfl
  · split <;> rfl

theorem View.flushAll_assigned (v : View ι τ) : (v.flushAll c).assigned = v.assigned := by
  have key : ∀ (bs : List Int) (v : View ι τ), (bs.foldl View.flush v).assigned = v.assigned := by
    intro bs
    induction bs with
    | nil => exact fun _ => rfl
    | cons b bs ih => exact fun v => (ih _).trans (v.flush_assigned b)
  exact key c.buckets _

theorem queueAll_assigned (s : LoopState ι τ) : (s.queueAll c completeBatch).1.assigned = s.assigned :=
  (congrArg View.assigned (queueAll_view s)).trans s.view.flushAll_assigned

theorem ops_assigned {xs : List ι} (h : Ops c targets completeBatch s xs s') (b : Int) :
    ∃ ys, ys.Sublist xs ∧ s'.assigned b = s.assigned b ++ ys := by
  induction h with
  | refl => exact ⟨[],List.Sublist.refl _,by simp⟩
  | @flush s' _ bucket _ ih =>
    obtain ⟨ys,hsub,heq⟩ := ih
    refine ⟨ys,hsub,?_⟩
    rw [← heq]
    exact congrFun ((congrArg View.assigned (flushBucket_view bucket s')).trans (s'.view.flush_assigned bucket)) b
  | openBatch _ _ _ _ ih | timer _ _ ih => exact ih
  | @assign s' xs bucket batch x size _ _ _ _ ih =>
    obtain ⟨ys,hsub,heq⟩ := ih
    by_cases hb : b = bucket
    · subst hb
      exact ⟨ys ++ [x],hsub.append (List.Sublist.refl _),by simp [assign,heq]⟩
    · refine ⟨ys,hsub.trans (sublist_append_left _ _),?_⟩
      simpa only [assign,Function.update_of_ne hb] using heq
  | reject result _ ih =>
    obtain ⟨ys,hsub,heq⟩ := ih
    exact ⟨ys,hsub.trans (sublist_append_left _ _),heq⟩
end LoopState

namespace WriterLoop
variable {ι τ φ : Type} {w : WriterLoop ι τ φ} {s s' : WriterState ι τ φ}
/-- The item that an event takes from the queue with a live context. -/
def takenItem : LoopEvent ι → Option ι
  | .item x none => some x
  | _ => none

def taken (es : List (LoopEvent ι)) : List ι := es.filterMap takenItem

theorem step_assigned {e : LoopEvent ι} (h : w.step s e = some s') (b : Int) :
    ∃ ys, ys.Sublist (takenItem e).toList ∧ s'.loop.assigned b = s.loop.assigned b ++ ys := by
  have unchanged : s'.loop.assigned = s.loop.assigned →
      ∃ ys, ys.Sublist (takenItem e).toList ∧ s'.loop.assigned b = s.loop.assigned b ++ ys := by
    intro heq
    exact ⟨[],nil_sublist _,by rw [heq,append_nil]⟩
  cases step_cases h with
  | canceled | finish => exact unchanged rfl
  | add x hm hadd => exact ops_assigned (w.add_ops hadd) b
  | flush | close => exact unchanged (by rw [flushAll_loop,queueAll_assigned])
  | timer hm ha => exact unchanged (queueAll_assigned _)
  | completion result hm hst =>
    exact unchanged (congrArg LoopState.View.assigned (handleCompletion_view _ _ _ _))
  | drain result hm hst =>
    rw [settle_loop] at unchanged ⊢
    exact unchanged (congrArg LoopState.View.assigned (handleCompletion_view _ _ _ _))

theorem run_assigned {es : List (LoopEvent ι)} (h : w.system.Run w.initial es s) (b : Int) :
    (s.loop.assigned b).Sublist (taken es) := by
  induction h with
  | nil => exact List.Sublist.refl _
  | @snoc s' s'' es e _ hs ih =>
    obtain ⟨ys,hsub,heq⟩ := step_assigned hs b
    rw [heq,taken,filterMap_append]
    exact ih.append (by cases h : takenItem e <;> simpa [h] using hsub)
/-- What holds of the started batches in every reachable state. -/
structure Ordered (w : WriterLoop ι τ φ) (s : LoopState ι τ) : Prop where
  inFlight_eq : s.inFlight = (w.config.buckets.countP s.active : Nat)
  inFlight_le : s.inFlight ≤ w.config.maxConcurrentRequests
  one_executing : (s.executing.map (·.bucket)).Nodup
  started_prefix : ∀ b, (s.startedAt b).flatMap (·.batch.items) <+: s.assigned b
  /-- Of a bucket that has not failed, all other items still wait. -/
  started_exact : ∀ b, s.poisoned b = none →
    s.assigned b = (s.startedAt b).flatMap (·.batch.items) ++ (s.pending b).flatMap (·.items) ++ s.openItems b
  started_targets : ∀ st ∈ s.started, ∀ x ∈ st.batch.items, w.targets x = st.batch.targets

theorem ordered_of_inv (h : LoopState.Inv w.config w.targets s.loop) : w.Ordered s.loop where
  inFlight_eq := h.inFlight_active
  inFlight_le := h.run.inFlight_le
  one_executing := h.run.executing_nodup
  started_prefix b := by
    obtain ⟨dropped,heq,_⟩ := h.assigned_split b
    rw [heq,append_assoc,append_assoc]
    exact prefix_append _ _
  started_exact b hb := by
    obtain ⟨dropped,heq,hn⟩ := h.assigned_split b
    rw [heq,hn hb,append_nil]
  started_targets st hst x hx := h.started_targets hst hx
/-- After the failure of a batch no further batch of its bucket is started. -/
def FailureStops (w : WriterLoop ι τ φ) : Prop :=
  ∀ s s₁ s₂ index st result es, w.system.Reachable s → s.loop.executing[index]? = some st → result.err ≠ none →
    w.step s (.completion index result) = some s₁ → w.system.Run s₁ es s₂ →
    s₂.loop.startedAt st.bucket = s.loop.startedAt st.bucket

theorem failureStops (w : WriterLoop ι τ φ) : w.FailureStops := by
  intro s s₁ s₂ index st result es hr hst herr hs hrun
  have hf := failed_of_handleCompletion (reachable_inv hr).run hst herr w.completeBatch
  have hl : s₁.loop = s.loop.handleCompletion w.config w.completeBatch index st result := by
    cases step_cases hs with
    | completion _ _ hst' =>
      rw [hst] at hst'
      rw [Option.some.inj hst']
    | drain _ _ hst' =>
      rw [hst] at hst'
      rw [settle_loop,Option.some.inj hst']
  exact (run_failed (hl ▸ hf) hrun).started
/-- Two runs with the same commands and timer firings, whatever batches fail in either: every bucket
has the same open and formed batches in both, and one run has started a prefix of what the other has.
A bucket that has not failed starts what it forms, and waits only while the limit is reached or its
own last batch is executing. -/
def FailureIsolated (w : WriterLoop ι τ φ) : Prop :=
  (∀ es₁ es₂ s₁ s₂, w.system.Run w.initial es₁ s₁ → w.system.Run w.initial es₂ s₂ →
    es₁.filter frontEvent = es₂.filter frontEvent → ∀ b,
    s₁.loop.batches b = s₂.loop.batches b ∧ s₁.loop.formed b = s₂.loop.formed b ∧
      (s₁.loop.startedAt b <+: s₂.loop.startedAt b ∨ s₂.loop.startedAt b <+: s₁.loop.startedAt b)) ∧
  ∀ s, w.system.Reachable s → ∀ b, s.loop.poisoned b = none →
    s.loop.formed b = (s.loop.startedAt b).map (·.batch) ++ s.loop.pending b ∧
      (s.loop.inFlight < w.config.maxConcurrentRequests → b ∈ w.config.buckets →
        s.loop.active b = true ∨ s.loop.pending b = [])

theorem failureIsolated (w : WriterLoop ι τ φ) : w.FailureIsolated := by
  constructor
  · intro es₁ es₂ s₁ s₂ h₁ h₂ hes b
    have hi := (reachable_inv (System.Run.reachable rfl h₁)).run
    have hin := (reachable_inv (System.Run.reachable rfl h₂)).run
    have hv : s₁.loop.view = s₂.loop.view := by
      have := (run_view h₁).trans ((congrArg _ hes).trans (run_view h₂).symm)
      exact (Prod.mk.inj this).2
    obtain ⟨hba,_,_,hf⟩ := LoopState.View.mk.inj hv
    have hf := congrFun hf b
    refine ⟨congrFun hba b,hf,?_⟩
    rcases Nat.le_total (s₁.loop.startedAt b).length (s₂.loop.startedAt b).length with hle | hle
    · exact .inl (startedAt_comparable hi hin hf hle)
    · exact .inr (startedAt_comparable hin hi hf.symm hle)
  · intro s hr b hb
    have hinv := reachable_inv hr
    obtain ⟨dropped,hf,hn⟩ := hinv.run.formed_eq b
    refine ⟨?_,fun hlt hmem => hinv.saturated hlt b hmem⟩
    rw [hf,hn hb,append_nil]
/-- The order of batches in all runs: everything but the sequences holds in every state, and those of
a bucket count from zero exactly as long as at most 2 ^ 31 batches were started for it. -/
def OrderedRuns (w : WriterLoop ι τ φ) : Prop :=
  (∀ es s, w.system.Run w.initial es s → w.Ordered s.loop ∧ (∀ b, (s.loop.assigned b).Sublist (taken es)) ∧
    ∀ b, s.loop.SequencesCount b ↔ (s.loop.startedAt b).length ≤ 2 ^ 31) ∧
  w.FailureStops ∧ w.FailureIsolated

theorem orderedRuns (w : WriterLoop ι τ φ) : w.OrderedRuns := by
  refine ⟨?_,w.failureStops,w.failureIsolated⟩
  intro es s hrun
  have hinv := reachable_inv (System.Run.reachable rfl hrun)
  exact ⟨ordered_of_inv hinv,run_assigned hrun,sequencesCount_iff hinv.run⟩
end WriterLoop
/-- The loops of all writers that the package creates. -/
theorem writerLoops_ordered (a : AppendWriter) (ha : a.Created) (u : UpsertWriter) (hu : u.Created) :
    (a.loop ha).OrderedRuns ∧ (u.loop hu).OrderedRuns :=
  ⟨(a.loop ha).orderedRuns,(u.loop hu).orderedRuns⟩
/-- A writer of one number whose batches are single rows. -/
def singleWriter : AppendWriter := numberWriter none { maxBatchRecords := 1 }

theorem singleWriter_created : singleWriter.Created := by
  refine ⟨numberBackend,singleWriter.table,[some (withAppendBatchLimits 1048576 1)],?_,rfl⟩
  intro option ho
  obtain rfl := Option.some.inj (mem_singleton.mp ho)
  exact .batchLimits 1048576 1

def numberKeyWriter : UpsertWriter where
  table := {
    id := 9, schemaID := 0, path := ⟨"shop","numbers"⟩, kind := .primaryKey
    schema := { columns := [{ name := "number", type := .int }], primaryKey := ["number"] } }
  path := ⟨⟨"shop","numbers"⟩,""⟩
  config := {}
  tableID := 9
  partitionID := -1
  writerID := 0
  buckets := [0]

theorem numberKeyWriter_created : numberKeyWriter.Created := by
  refine ⟨numberBackend,numberKeyWriter.table,[],?_,rfl⟩
  intro option ho
  simp at ho

theorem writerLoops_ordered_number :
    (singleWriter.loop singleWriter_created).OrderedRuns ∧ (numberKeyWriter.loop numberKeyWriter_created).OrderedRuns :=
  writerLoops_ordered singleWriter singleWriter_created numberKeyWriter numberKeyWriter_created
/-- The loop waits, nothing is open, pending or executing, and `n` batches were started. -/
private structure Quiet (n : Nat) (s : WriterState (AppendItem singleWriter) Unit AppendFront) : Prop where
  mode : s.mode = .running
  sticky : s.front.stickyIndex ≤ 0
  batches : s.loop.batches 0 = none
  pending : s.loop.pending 0 = []
  active : s.loop.active 0 = false
  poisoned : s.loop.poisoned 0 = none
  inFlight : s.loop.inFlight = 0
  executing : s.loop.executing = []
  started : (s.loop.startedAt 0).length = n

def queuedNumber : AppendItem singleWriter where
  row := [.int32 1]
  size := 7
  future := 0
  bucket_mem := by simp

private theorem queuedNumber_bucket {front : AppendFront} (h : front.stickyIndex ≤ 0) :
    ∃ front', singleWriter.assignBucket front queuedNumber = .ok (0, front') ∧ front'.stickyIndex ≤ 0 := by
  obtain ⟨roundRobin,stickyIndex⟩ := front
  dsimp only at h
  by_cases hneg : stickyIndex < 0
  · refine ⟨⟨roundRobin,0⟩,?_,by simp⟩
    simp [assignBucket,queuedNumber,singleWriter,numberWriter,numberSchema,
      effectiveNoKeyAssigner,hneg]
    rfl
  · obtain rfl : stickyIndex = 0 := by omega
    exact ⟨⟨roundRobin,0⟩,rfl,by simp⟩

private theorem dispatch_single {batch : Batch (AppendItem singleWriter) Unit}
    (hc : c.buckets = [0]) (hmax : 1 < c.maxConcurrentRequests)
    (ha : s.active 0 = false) (hp : s.pending 0 = [batch]) (hf : s.inFlight = 0) :
    s.dispatch c = s.start 0 batch [] := by
  have h1 : (s.start 0 batch []).active 0 = true := by simp [start]
  have h2 : (s.start 0 batch []).inFlight = 1 := by simp [start,hf]
  have hpos : 0 < c.maxConcurrentRequests := by omega
  have hne : ¬ (1 : Int) = c.maxConcurrentRequests := by omega
  simp [dispatch,dispatchLoop,dispatchPass,hc,ha,hp,hf,h1,h2,hpos,hne,hmax]

private theorem dispatch_idle (hc : c.buckets = [0]) (hp : s.pending 0 = []) : s.dispatch c = s := by
  simp [dispatch,dispatchLoop,dispatchPass,hc,hp]

private def oneBatch : Batch (AppendItem singleWriter) Unit := ⟨[queuedNumber],(),7⟩

private def queueOne (s : LoopState (AppendItem singleWriter) Unit) : LoopState (AppendItem singleWriter) Unit :=
  (((s.openBatch 0 ()).assign 0 ⟨[],(),0⟩ queuedNumber 7).takeBatch 0 oneBatch).enqueue 0 oneBatch

private theorem add_queuedNumber {front : AppendFront}
    (hc : c.buckets = [0]) (hmax : 1 < c.maxConcurrentRequests) (hs : front.stickyIndex ≤ 0)
    (hb : s.batches 0 = none) (hpe : s.pending 0 = []) (hac : s.active 0 = false)
    (hp : s.poisoned 0 = none) (hf : s.inFlight = 0) : ∃ front', front'.stickyIndex ≤ 0 ∧
      singleWriter.add c front s queuedNumber = some (front', (queueOne s).start 0 oneBatch []) := by
  obtain ⟨front',has,hs'⟩ := queuedNumber_bucket hs
  refine ⟨front',hs',?_⟩
  have ha : singleWriter.availableBatch c front' s 0 queuedNumber =
      some (front', s.openBatch 0 (), some (0, ⟨[],(),0⟩)) := by
    simp [availableBatch,batch,hb]
  have hfl : (((s.openBatch 0 ()).assign 0 ⟨[],(),0⟩ queuedNumber 7).flushBucket c singleWriter.completeBatch 0).1 =
      dispatch c (queueOne s) := by
    simp [flushBucket,assign,openBatch,hp,queueOne,oneBatch]
  have hst : dispatch c (queueOne s) = (queueOne s).start 0 oneBatch [] := by
    refine dispatch_single (s := queueOne s) hc hmax hac ?_ hf
    simp [queueOne,enqueue,takeBatch,assign,openBatch,hpe]
  have hba : singleWriter.addToBatch c front' (s.openBatch 0 ()) 0 ⟨[],(),0⟩ queuedNumber =
      (singleWriter.advanceIfSticky front', dispatch c (queueOne s)) := by
    rw [← hfl]
    rfl
  rw [add,has]
  simp only [ha,hba,hst]
  rfl

private theorem quiet_step {n : Nat} {s : WriterState (AppendItem singleWriter) Unit AppendFront} (h : Quiet n s) :
    ∃ s' s'', (singleWriter.loop singleWriter_created).step s (.item queuedNumber none) = some s' ∧
      (singleWriter.loop singleWriter_created).step s' (.completion 0 {}) = some s'' ∧ Quiet (n + 1) s'' := by
  obtain ⟨front,loop,mode,replies⟩ := s
  obtain ⟨hm,hst,hb,hpe,ha,hp,hf,he,hs⟩ := h
  dsimp only at hm hst hb hpe ha hp hf he hs
  subst hm
  let w := singleWriter.loop singleWriter_created
  obtain ⟨front',hst',hadd⟩ := add_queuedNumber (c := w.config) rfl (by decide) hst
    hb hpe ha hp hf
  let st : Started (AppendItem singleWriter) Unit := ⟨0,oneBatch,loop.sequences 0⟩
  let ended := (((queueOne loop).start 0 oneBatch []).endExecution 0 0).advanceSequence 0
  have hc : handleCompletion w.config w.completeBatch 0 st {} ((queueOne loop).start 0 oneBatch []) =
      ended.complete (w.completeBatch oneBatch 0 {}) :=
    dispatch_idle rfl (by simp [complete,advanceSequence,endExecution,start])
  refine ⟨⟨front',(queueOne loop).start 0 oneBatch [],.running,replies⟩,
    ⟨front',ended.complete (w.completeBatch oneBatch 0 {}),.running,replies⟩,?_,?_,?_⟩
  · exact congrArg (Option.map _) hadd
  · have hget : ((queueOne loop).start 0 oneBatch []).executing[0]? = some st := by
      simp [queueOne,start,enqueue,takeBatch,assign,openBatch,
        he,st]
    simp only [WriterLoop.step,hget]
    rw [show handleCompletion (singleWriter.loop singleWriter_created).config _ 0 st _ _ = _ from hc]
  · constructor
    case mode => rfl
    case sticky => exact hst'
    case batches | pending | active =>
      simp [ended,queueOne,complete,advanceSequence,endExecution,start,
        enqueue,takeBatch]
    case poisoned => exact hp
    case inFlight =>
      show loop.inFlight + 1 - 1 = 0
      omega
    case executing =>
      show (loop.executing ++ [st]).eraseIdx 0 = []
      rw [he]
      rfl
    case started =>
      show ((loop.started ++ [st]).filter _).length = n + 1
      rw [filter_append,length_append]
      exact congrArg (· + 1) hs

private theorem quiet_reachable (n : Nat) : ∃ s, (singleWriter.loop singleWriter_created).system.Reachable s ∧
    Quiet n s := by
  induction n with
  | zero => exact ⟨_,.init rfl,by constructor <;> first | rfl | decide⟩
  | succ n ih =>
    obtain ⟨s,hr,hq⟩ := ih
    obtain ⟨s',s'',hi,hc,hq'⟩ := quiet_step hq
    exact ⟨s'',(hr.step hi).step hc,hq'⟩
/-- After 2 ^ 31 + 1 batches the last one carries the sequence -2 ^ 31. -/
theorem writerLoop_sequence_wraps :
    ∃ s, (singleWriter.loop singleWriter_created).system.Reachable s ∧ ¬ s.loop.SequencesCount 0 ∧
      ((s.loop.startedAt 0)[2 ^ 31]?).map (·.sequence.toInt) = some (-2147483648) := by
  obtain ⟨s,hreach,hquiet⟩ := quiet_reachable (2 ^ 31 + 1)
  have hinv := (WriterLoop.reachable_inv hreach).run
  have hlen := hquiet.started
  refine ⟨s,hreach,?_,?_⟩
  · rw [LoopState.sequencesCount_iff hinv,hlen]
    omega
  have hget := congrArg (·[2 ^ 31]?) (hinv.started_sequences 0)
  rw [hlen] at hget
  rw [getElem?_map,getElem?_map,getElem?_range (by omega),Option.map_some] at hget
  obtain ⟨st,hst,hseq⟩ := Option.map_eq_some_iff.mp hget
  rw [hst,Option.map_some,hseq]
  decide
end FlussGo
