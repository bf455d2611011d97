import FlussGo.Writer.Dispatch
import Mathlib.Data.List.InsertIdx
import Mathlib.Data.List.Nodup
import Mathlib.Data.List.Range
/-!
# Invariants of the scheduler loop

The invariant has two halves: `FrontInv` is about the view, that is about open and formed batches,
and `RunInv` about what was started, pends and executes.
-/
namespace FlussGo
open List LoopState Function
namespace LoopState
variable {ι τ : Type} {c : LoopConfig} {targets : ι → τ} {completeBatch : CompleteBatch ι τ} {s s' : LoopState ι τ}
  {bucket : Int} {batch : Batch ι τ} {rest : List (Batch ι τ)}

theorem startedAt_start_self :
    (s.start bucket batch rest).startedAt bucket = s.startedAt bucket ++ [⟨bucket,batch,s.sequences bucket⟩] := by
  simp [startedAt,start]

theorem startedAt_start_of_ne {b : Int} (h : b ≠ bucket) : (s.start bucket batch rest).startedAt b = s.startedAt b := by
  simp [startedAt,start,Ne.symm h]
/-- The scheduling half of the invariant. -/
structure RunInv (c : LoopConfig) (s : LoopState ι τ) : Prop where
  inFlight_eq : s.inFlight = s.executing.length
  inFlight_le : s.inFlight ≤ c.maxConcurrentRequests
  executing_nodup : (s.executing.map (·.bucket)).Nodup
  active_iff : ∀ b, s.active b = true ↔ b ∈ s.executing.map (·.bucket)
  executing_last : ∀ e ∈ s.executing, (s.startedAt e.bucket).getLast? = some e
  sequences_eq : ∀ b, s.poisoned b = none →
    ∃ n, (s.startedAt b).length = n + (s.active b).toNat ∧ s.sequences b = BitVec.ofNat 32 n
  started_sequences : ∀ b,
    (s.startedAt b).map (·.sequence) = (List.range (s.startedAt b).length).map (BitVec.ofNat 32)
  poisoned_idle : ∀ b e, s.poisoned b = some e → s.active b = false ∧ s.pending b = []
  /-- Only a failed bucket has formed batches that were never started. -/
  formed_eq : ∀ b, ∃ dropped, s.formed b = (s.startedAt b).map (·.batch) ++ dropped ++ s.pending b ∧
    (s.poisoned b = none → dropped = [])

theorem RunInv.initial : RunInv c ({} : LoopState ι τ) where
  inFlight_eq := rfl
  inFlight_le := Int.le_of_lt (Int.lt_of_lt_of_le Int.zero_lt_one c.pos)
  executing_nodup := nodup_nil
  active_iff b := by simp
  executing_last e he := by simp at he
  sequences_eq b _ := ⟨0,rfl,rfl⟩
  started_sequences b := rfl
  poisoned_idle b e he := by simp at he
  formed_eq b := ⟨[],rfl,fun _ => rfl⟩

section Run
variable (h : RunInv c s)
include h

theorem RunInv.not_poisoned {b : Int} (hpe : s.pending b ≠ []) : s.poisoned b = none := by
  cases hp : s.poisoned b with
  | none => rfl
  | some e => exact absurd (h.poisoned_idle b e hp).2 hpe

theorem RunInv.start (hi : s.active bucket = false) (hp : s.pending bucket = batch :: rest)
    (hlt : s.inFlight < c.maxConcurrentRequests) : RunInv c (s.start bucket batch rest) := by
  have hnot : bucket ∉ s.executing.map (·.bucket) := by
    intro hmem
    simp [(h.active_iff bucket).mpr hmem] at hi
  have hh : s.poisoned bucket = none := h.not_poisoned (by simp [hp])
  obtain ⟨n,hlen,hseq⟩ := h.sequences_eq bucket hh
  simp only [hi,Bool.toNat_false,Nat.add_zero] at hlen
  constructor
  case inFlight_eq =>
    have := h.inFlight_eq
    simp only [LoopState.start,length_append,length_singleton]
    omega
  case inFlight_le => exact hlt
  case executing_nodup =>
    simpa [LoopState.start] using List.Nodup.concat hnot h.executing_nodup
  case active_iff =>
    intro b
    by_cases hb : b = bucket
    · simp [LoopState.start,hb]
    · simpa [LoopState.start,update_of_ne hb,hb] using h.active_iff b
  case executing_last =>
    intro e he
    simp only [LoopState.start,mem_append,mem_singleton] at he
    rcases he with he | rfl
    · have hne : e.bucket ≠ bucket := fun heq => hnot (mem_map.mpr ⟨e,he,heq⟩)
      rw [startedAt_start_of_ne hne]
      exact h.executing_last e he
    · rw [startedAt_start_self]
      simp
  case sequences_eq =>
    intro b hb
    by_cases heq : b = bucket
    · subst heq
      exact ⟨n,by rw [startedAt_start_self]; simp [start,hlen],hseq⟩
    · rw [startedAt_start_of_ne heq]
      simpa only [LoopState.start,update_of_ne heq] using h.sequences_eq b hb
  case started_sequences =>
    intro b
    by_cases heq : b = bucket
    · subst heq
      rw [startedAt_start_self]
      simp only [map_append,length_append,length_singleton,range_succ,h.started_sequences b,hseq,hlen,
        map_cons,map_nil]
    · rw [startedAt_start_of_ne heq]
      exact h.started_sequences b
  case poisoned_idle =>
    intro b e hb
    have hne : b ≠ bucket := by
      rintro rfl
      simp [start,hh] at hb
    simpa only [LoopState.start,update_of_ne hne] using h.poisoned_idle b e hb
  case formed_eq =>
    intro b
    obtain ⟨dropped,hf,hn⟩ := h.formed_eq b
    by_cases heq : b = bucket
    · subst heq
      rw [startedAt_start_self]
      exact ⟨[],by simp [start,hf,hp,hn hh],fun _ => rfl⟩
    · rw [startedAt_start_of_ne heq]
      exact ⟨dropped,by simpa only [LoopState.start,update_of_ne heq] using hf,hn⟩

theorem RunInv.starts (hs : Starts c s s') : RunInv c s' := by
  induction hs with
  | refl => exact h
  | start _ _ hi hp hlt ih => exact ih.start hi hp hlt

theorem RunInv.dispatch : RunInv c (dispatch c s) := h.starts (dispatch_starts s)

theorem RunInv.complete (results : List (ι × WriteResult)) : RunInv c (s.complete results) := { h with }

theorem RunInv.setTimer (armed : Bool) : RunInv c (s.setTimer armed) := { h with }

theorem RunInv.openBatch (bucket : Int) (t : τ) : RunInv c (s.openBatch bucket t) := { h with }

theorem RunInv.assign (bucket : Int) (batch : Batch ι τ) (x : ι) (size : Int) :
    RunInv c (s.assign bucket batch x size) := { h with }

theorem RunInv.takeBatch {e : GoError} (hp : s.poisoned bucket = some e) : RunInv c (s.takeBatch bucket batch) := by
  refine { h with formed_eq := ?_ }
  intro b
  obtain ⟨dropped,hf,hn⟩ := h.formed_eq b
  by_cases heq : b = bucket
  · subst heq
    have hpe := (h.poisoned_idle b e hp).2
    refine ⟨dropped ++ [batch],?_,?_⟩
    · show update s.formed b _ b = (s.startedAt b).map _ ++ _ ++ s.pending b
      simp [hf,hpe]
    · intro hb
      simp [takeBatch,hp] at hb
  · refine ⟨dropped,?_,hn⟩
    show update s.formed bucket _ b = _
    rw [update_of_ne heq]
    exact hf

theorem RunInv.enqueue (hh : s.poisoned bucket = none) :
    RunInv c ((s.takeBatch bucket batch).enqueue bucket batch) := by
  refine { h with poisoned_idle := ?_, formed_eq := ?_ }
  · intro b e hb
    have hne : b ≠ bucket := by
      rintro rfl
      simp [LoopState.takeBatch,LoopState.enqueue,hh] at hb
    simpa only [LoopState.enqueue,LoopState.takeBatch,update_of_ne hne] using h.poisoned_idle b e hb
  · intro b
    obtain ⟨dropped,hf,hn⟩ := h.formed_eq b
    refine ⟨dropped,?_,hn⟩
    show update s.formed bucket _ b = (s.startedAt b).map _ ++ dropped ++ update s.pending bucket _ b
    by_cases heq : b = bucket
    · subst heq
      simp [hf,LoopState.takeBatch]
    · rw [update_of_ne heq,update_of_ne heq]
      exact hf

theorem RunInv.flushBucket (completeBatch : CompleteBatch ι τ) (bucket : Int) :
    RunInv c (s.flushBucket c completeBatch bucket).1 := by
  apply flushBucket_rule (P := RunInv c) fun _ => h
  · exact fun _ _ _ _ hp => (h.takeBatch hp).complete _
  · exact fun _ _ _ hp => (h.enqueue hp).dispatch

section Completion
variable {index : Nat} {e : Started ι τ}

private theorem executing_buckets_erase (he : s.executing[index]? = some e) :
    ((s.executing.eraseIdx index).map (·.bucket)).Nodup ∧
      ∀ b, b ∈ (s.executing.eraseIdx index).map (·.bucket) ↔ b ≠ e.bucket ∧ b ∈ s.executing.map (·.bucket) := by
  obtain ⟨hlt,heq⟩ := List.getElem?_eq_some_iff.mp he
  have her : (s.executing.eraseIdx index).map (·.bucket) = (s.executing.map (·.bucket)).erase e.bucket := by
    rw [← eraseIdx_map,← h.executing_nodup.erase_getElem index (by simpa using hlt)]
    simp [heq]
  rw [her]
  exact ⟨h.executing_nodup.erase _,fun b => h.executing_nodup.mem_erase_iff⟩

private theorem RunInv.ended (he : s.executing[index]? = some e) :
    (s.endExecution index e.bucket).inFlight = (s.endExecution index e.bucket).executing.length ∧
      (s.endExecution index e.bucket).inFlight ≤ c.maxConcurrentRequests ∧
      ∀ b, (s.endExecution index e.bucket).active b = true ↔
        b ∈ (s.endExecution index e.bucket).executing.map (·.bucket) := by
  obtain ⟨hlt,_⟩ := List.getElem?_eq_some_iff.mp he
  have hc := h.inFlight_eq
  have hle := h.inFlight_le
  simp only [endExecution]
  refine ⟨?_,by omega,?_⟩
  · rw [length_eraseIdx_of_lt hlt]
    omega
  intro b
  rw [(executing_buckets_erase h he).2 b]
  by_cases hb : b = e.bucket
  · simp [hb]
  · rw [update_of_ne hb,h.active_iff b]
    simp [hb]

theorem RunInv.executing_count (he : e ∈ s.executing) :
    s.poisoned e.bucket = none ∧ ∃ n, (s.startedAt e.bucket).length = n + 1 ∧ s.sequences e.bucket = BitVec.ofNat 32 n := by
  have ha : s.active e.bucket = true := (h.active_iff e.bucket).mpr (mem_map.mpr ⟨e,he,rfl⟩)
  have hh : s.poisoned e.bucket = none := by
    cases hp : s.poisoned e.bucket with
    | none => rfl
    | some cause => simp [(h.poisoned_idle e.bucket cause hp).1] at ha
  obtain ⟨n,hlen,hseq⟩ := h.sequences_eq e.bucket hh
  exact ⟨hh,n,by simpa [ha] using hlen,hseq⟩

theorem RunInv.succeed (he : s.executing[index]? = some e) :
    RunInv c ((s.endExecution index e.bucket).advanceSequence e.bucket) := by
  obtain ⟨hc,hle,ha⟩ := h.ended he
  have hmem : e ∈ s.executing := mem_of_getElem? he
  refine { h with
    inFlight_eq := hc, inFlight_le := hle, executing_nodup := (executing_buckets_erase h he).1
    active_iff := ha, executing_last := ?_, sequences_eq := ?_, poisoned_idle := ?_ }
  · intro e' he'
    exact h.executing_last e' (mem_of_mem_eraseIdx he')
  · intro b hb
    show ∃ n, (s.startedAt b).length = n + (update s.active e.bucket false b).toNat ∧
      update s.sequences e.bucket (s.sequences e.bucket + 1) b = _
    by_cases heq : b = e.bucket
    · obtain ⟨_,n,hlen,hseq⟩ := h.executing_count hmem
      subst heq
      refine ⟨n + 1,by simpa using hlen,?_⟩
      rw [update_self,hseq,BitVec.ofNat_add]
      rfl
    · rw [update_of_ne heq,update_of_ne heq]
      exact h.sequences_eq b hb
  · intro b cause hb
    have hi := h.poisoned_idle b cause hb
    have hne : b ≠ e.bucket := by
      rintro rfl
      simp [(h.executing_count hmem).1,advanceSequence,endExecution] at hb
    refine ⟨?_,hi.2⟩
    show update s.active e.bucket false b = false
    rw [update_of_ne hne]
    exact hi.1

theorem RunInv.fail (he : s.executing[index]? = some e) (cause : GoError) :
    RunInv c ((s.endExecution index e.bucket).poison e.bucket cause) := by
  obtain ⟨hc,hle,ha⟩ := h.ended he
  refine { h with
    inFlight_eq := hc, inFlight_le := hle, executing_nodup := (executing_buckets_erase h he).1
    active_iff := ha, executing_last := ?_, sequences_eq := ?_, poisoned_idle := ?_, formed_eq := ?_ }
  · intro e' he'
    exact h.executing_last e' (mem_of_mem_eraseIdx he')
  · intro b hb
    have hne : b ≠ e.bucket := by
      rintro rfl
      simp [poison] at hb
    show ∃ n, (s.startedAt b).length = n + (update s.active e.bucket false b).toNat ∧ s.sequences b = _
    rw [update_of_ne hne]
    exact h.sequences_eq b (by simpa [poison,update_of_ne hne,endExecution] using hb)
  · intro b cause' hb
    show update s.active e.bucket false b = false ∧ update s.pending e.bucket [] b = []
    by_cases heq : b = e.bucket
    · simp [heq]
    · rw [update_of_ne heq,update_of_ne heq]
      exact h.poisoned_idle b cause' (by simpa [poison,update_of_ne heq,endExecution] using hb)
  · intro b
    obtain ⟨dropped,hf,hn⟩ := h.formed_eq b
    show ∃ dropped, s.formed b = (s.startedAt b).map _ ++ dropped ++ update s.pending e.bucket [] b ∧
      (update s.poisoned e.bucket (some cause) b = none → dropped = [])
    by_cases heq : b = e.bucket
    · subst heq
      exact ⟨dropped ++ s.pending e.bucket,by simp [hf],by simp⟩
    · rw [update_of_ne heq,update_of_ne heq]
      exact ⟨dropped,hf,hn⟩

theorem RunInv.handleCompletion (he : s.executing[index]? = some e)
    (completeBatch : CompleteBatch ι τ) (result : AttemptResult) :
    RunInv c (s.handleCompletion c completeBatch index e result) := by
  unfold LoopState.handleCompletion
  cases result.err with
  | none => exact ((h.succeed he).complete _).dispatch
  | some cause => exact ((h.fail he cause).complete _).dispatch
end Completion
end Run
/-- The half of the invariant about open and formed batches. -/
structure FrontInv (c : LoopConfig) (targets : ι → τ) (s : LoopState ι τ) : Prop where
  assigned_eq : ∀ b, s.assigned b = (s.formed b).flatMap (·.items) ++ s.openItems b
  formed_ne : ∀ b, ∀ batch ∈ s.formed b, batch.items ≠ []
  outside : ∀ b ∉ c.buckets, s.assigned b = []
  formed_targets : ∀ b, ∀ batch ∈ s.formed b, ∀ x ∈ batch.items, targets x = batch.targets
  open_targets : ∀ b batch, s.batches b = some batch → ∀ x ∈ batch.items, targets x = batch.targets

theorem FrontInv.initial : FrontInv c targets ({} : LoopState ι τ) where
  assigned_eq b := rfl
  formed_ne b batch hb := by simp at hb
  outside b _ := rfl
  formed_targets b batch hb := by simp at hb
  open_targets b batch hb := by simp at hb

theorem FrontInv.of_view (h : FrontInv c targets s) (hv : s'.view = s.view) : FrontInv c targets s' := by
  obtain ⟨hb,_,ha,hf⟩ := View.mk.inj hv
  constructor
  · intro b
    rw [ha,hf,openItems,hb]
    exact h.assigned_eq b
  · rw [hf]
    exact h.formed_ne
  · rw [ha]
    exact h.outside
  · rw [hf]
    exact h.formed_targets
  · rw [hb]
    exact h.open_targets

theorem FrontInv.takeBatch (h : FrontInv c targets s) (ho : s.batches bucket = some batch) (hne : batch.items ≠ []) :
    FrontInv c targets (s.takeBatch bucket batch) := by
  have hmem : ∀ b, ∀ batch' ∈ (s.takeBatch bucket batch).formed b, batch' ∈ s.formed b ∨ batch' = batch := by
    intro b batch' hb'
    by_cases hb : b = bucket
    · subst hb
      simpa [takeBatch] using hb'
    · simp only [LoopState.takeBatch,update_of_ne hb] at hb'
      exact .inl hb'
  constructor
  · intro b
    have := h.assigned_eq b
    by_cases hb : b = bucket
    · subst hb
      simpa [takeBatch,openItems,ho] using this
    · simpa [LoopState.takeBatch,openItems,update_of_ne hb] using this
  · intro b batch' hb'
    rcases hmem b batch' hb' with hold | rfl
    · exact h.formed_ne b batch' hold
    · exact hne
  · exact h.outside
  · intro b batch' hb'
    rcases hmem b batch' hb' with hold | rfl
    · exact h.formed_targets b batch' hold
    · exact h.open_targets bucket batch' ho
  · intro b batch' hb'
    by_cases hb : b = bucket
    · simp [LoopState.takeBatch,hb] at hb'
    · simp only [LoopState.takeBatch,update_of_ne hb] at hb'
      exact h.open_targets b batch' hb'

theorem FrontInv.flushBucket (h : FrontInv c targets s) (completeBatch : CompleteBatch ι τ) (bucket : Int) :
    FrontInv c targets (s.flushBucket c completeBatch bucket).1 := by
  apply flushBucket_rule (P := FrontInv c targets) fun _ => h
  · exact fun _ _ ho hne _ => (h.takeBatch ho hne).of_view rfl
  · exact fun _ ho hne _ => (h.takeBatch ho hne).of_view (dispatch_view _)

theorem FrontInv.setTimer (h : FrontInv c targets s) (armed : Bool) :
    FrontInv c targets (s.setTimer armed) := { h with }

theorem FrontInv.openBatch (h : FrontInv c targets s) (he : s.openItems bucket = []) (t : τ) :
    FrontInv c targets (s.openBatch bucket t) := by
  refine { h with assigned_eq := ?_, open_targets := ?_ }
  · intro b
    have := h.assigned_eq b
    by_cases hb : b = bucket
    · subst hb
      rw [he] at this
      simpa [openBatch,openItems] using this
    · simpa [LoopState.openBatch,openItems,update_of_ne hb] using this
  · intro b batch hba
    by_cases hb : b = bucket
    · subst hb
      obtain rfl : ⟨[],t,0⟩ = batch := by simpa [openBatch] using hba
      simp
    · simp only [LoopState.openBatch,update_of_ne hb] at hba
      exact h.open_targets b batch hba

theorem FrontInv.assign {x : ι} (h : FrontInv c targets s) (hmem : bucket ∈ c.buckets)
    (ho : s.batches bucket = some batch) (ht : targets x = batch.targets) (size : Int) :
    FrontInv c targets (s.assign bucket batch x size) := by
  refine { h with assigned_eq := ?_, outside := ?_, open_targets := ?_ }
  · intro b
    have := h.assigned_eq b
    by_cases hb : b = bucket
    · subst hb
      simp only [openItems,ho] at this
      simp [assign,openItems,this]
    · simpa [LoopState.assign,openItems,update_of_ne hb] using this
  · intro b hb
    have hne : b ≠ bucket := by
      rintro rfl
      exact hb hmem
    simpa only [LoopState.assign,update_of_ne hne] using h.outside b hb
  · intro b batch' hb'
    by_cases hb : b = bucket
    · subst hb
      obtain rfl : { batch with items := batch.items ++ [x], bytes := batch.bytes + size } = batch' := by
        simpa [assign] using hb'
      intro y hy
      rcases mem_append.mp hy with hy | hy
      · exact h.open_targets b batch ho y hy
      · rw [mem_singleton.mp hy]
        exact ht
    · simp only [LoopState.assign,update_of_ne hb] at hb'
      exact h.open_targets b batch' hb'
/-- The whole invariant. -/
structure Inv (c : LoopConfig) (targets : ι → τ) (s : LoopState ι τ) : Prop where
  run : RunInv c s
  front : FrontInv c targets s
  saturated : Saturated c s

theorem Inv.initial : Inv c targets ({} : LoopState ι τ) := ⟨.initial,.initial,fun _ _ _ => .inr rfl⟩

variable (h : Inv c targets s)
include h

theorem Inv.complete (results : List (ι × WriteResult)) : Inv c targets (s.complete results) :=
  ⟨h.run.complete results,h.front.of_view rfl,h.saturated⟩

theorem Inv.setTimer (armed : Bool) : Inv c targets (s.setTimer armed) :=
  ⟨h.run.setTimer armed,h.front.setTimer armed,h.saturated⟩

theorem Inv.flushBucket (completeBatch : CompleteBatch ι τ) (bucket : Int) :
    Inv c targets (s.flushBucket c completeBatch bucket).1 := by
  refine ⟨h.run.flushBucket completeBatch bucket,h.front.flushBucket completeBatch bucket,?_⟩
  exact flushBucket_rule (P := Saturated c) (fun _ => h.saturated) (fun _ _ _ _ _ => h.saturated)
    fun _ _ _ _ => dispatch_saturated _

theorem Inv.queueAll (completeBatch : CompleteBatch ι τ) : Inv c targets (s.queueAll c completeBatch).1 :=
  queueAll_rule (h.setTimer false) fun _ bucket hl => hl.flushBucket completeBatch bucket

theorem Inv.handleCompletion {index : Nat} {e : Started ι τ}
    (he : s.executing[index]? = some e) (completeBatch : CompleteBatch ι τ) (result : AttemptResult) :
    Inv c targets (s.handleCompletion c completeBatch index e result) := by
  refine ⟨h.run.handleCompletion he completeBatch result,h.front.of_view (handleCompletion_view _ _ _ _),?_⟩
  unfold LoopState.handleCompletion
  cases result.err with
  | none | some => exact dispatch_saturated _

theorem Inv.ops {xs : List ι} (hops : Ops c targets completeBatch s xs s') : Inv c targets s' := by
  induction hops with
  | refl => exact h
  | flush bucket _ ih => exact ih.flushBucket completeBatch bucket
  | openBatch bucket t _ he ih =>
    exact ⟨ih.run.openBatch bucket t,ih.front.openBatch he t,ih.saturated⟩
  | timer armed _ ih => exact ih.setTimer armed
  | assign size _ hmem ho ht ih =>
    exact ⟨ih.run.assign _ _ _ size,ih.front.assign hmem ho ht size,ih.saturated⟩
  | reject result _ ih => exact ih.complete _

theorem Inv.executing_formed {e : Started ι τ} (he : e ∈ s.executing) :
    e.batch ∈ s.formed e.bucket ∧ e.batch.items ≠ [] := by
  obtain ⟨dropped,hf,_⟩ := h.run.formed_eq e.bucket
  have hmem : e.batch ∈ s.formed e.bucket := by
    rw [hf]
    exact mem_append_left _ (mem_append_left _
      (mem_map.mpr ⟨e,mem_of_getLast? (h.run.executing_last e he),rfl⟩))
  exact ⟨hmem,h.front.formed_ne e.bucket e.batch hmem⟩

theorem Inv.executing_mem {e : Started ι τ} (he : e ∈ s.executing) : e.bucket ∈ c.buckets := by
  by_contra hout
  obtain ⟨hmem,hne⟩ := h.executing_formed he
  have ha := h.front.assigned_eq e.bucket
  rw [h.front.outside _ hout] at ha
  have hnil := append_eq_nil_iff.mp ha.symm
  exact hne (flatMap_eq_nil_iff.mp hnil.1 e.batch hmem)
end LoopState
end FlussGo
