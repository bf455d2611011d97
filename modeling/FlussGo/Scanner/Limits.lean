import FlussGo.Scanner.PollInvariant
/-!
# Scans end at their bounds

A scan returns no more records than its row limit and none at or beyond a stopping offset, its offsets
never go back, and it is done exactly when a bound is reached.
-/
namespace FlussGo
open List Option LogScanner AList
/-- The row limit is used up, or every bucket has reached its stopping offset. -/
def BoundReached (s : LogScanner) (σ : ScannerState) : Prop :=
  (0 < s.config.rowLimit ∧ s.config.rowLimit ≤ σ.delivered) ∨
    (s.config.stoppingOffsets.isSome = true ∧ ∀ bucket ∈ s.buckets, ∃ offset stop, σ.offset.lookup bucket = some offset ∧
      s.config.stop? bucket = some stop ∧ stop ≤ offset)
/-- The records of one bucket in a result, in the order of their offsets. -/
def ScanResult.entriesOf (r : ScanResult) (bucket : Int) : List LogEntry :=
  sortByKey LogEntry.offset ((r.records.filter (·.bucket = bucket)).map (·.record.entry) ++
    (r.arrowBatches.filter (·.bucket = bucket)).flatMap (·.batch.entries))
/-- What a call of `Poll` returned of one bucket. -/
def PollReturn.entriesOf (ret : PollReturn) (bucket : Int) : List LogEntry :=
  match ret.outcome with
  | .ok result => result.entriesOf bucket
  | .error _ => []
/-- A result has the first decoded records of each visited bucket, those below its stopping offset and up to the offset
that is stored. -/
structure BucketReport (s : LogScanner) (result : ScanResult) (scan : BucketScan) : Prop where
  initial : result.entriesOf scan.bucket <+: scan.decoded.inOrder
  stopped : ∀ stop, s.config.stop? scan.bucket = some stop → ∀ e ∈ result.entriesOf scan.bucket, e.offset < stop
  complete : ∀ e ∈ scan.decoded.inOrder, (∀ stop, s.config.stop? scan.bucket = some stop → e.offset < stop) →
    e.offset < scan.take.next → e ∈ result.entriesOf scan.bucket

structure PollReport (s : LogScanner) (ret : PollReturn) : Prop where
  visited : ∀ result, ret.outcome = .ok result → ∀ scan ∈ ret.scans, BucketReport s result scan
  others : ∀ result, ret.outcome = .ok result → ∀ bucket, bucket ∉ ret.scans.map (·.bucket) → result.entriesOf bucket = []
  /-- A `Poll` that fails has stored no new offset. -/
  failed : ∀ e, ret.outcome = .error e → ∀ scan ∈ ret.scans, scan.take.next = scan.offset

structure BoundsHold (s : LogScanner) (σ : PollState) : Prop where
  limited : 0 < s.config.rowLimit → (σ.handedOut : Int) ≤ s.config.rowLimit
  counted : σ.active = none → (σ.handedOut : Int) = σ.scanner.delivered
  reports : ∀ ret ∈ σ.returned, PollReport s ret
  done : σ.scanner.closed = false → (σ.scanner.done = true ↔ BoundReached s σ.scanner)

structure StepBounds (s : LogScanner) (σ σ' : PollState) : Prop where
  /-- An offset moves forward to where a visit of the running `Poll` ended, and not past the stopping offset. -/
  moved : ∀ bucket offset offset', σ.scanner.offset.lookup bucket = some offset →
    σ'.scanner.offset.lookup bucket = some offset' → offset' = offset ∨ offset ≤ offset' ∧
      (∀ stop, s.config.stop? bucket = some stop → offset' ≤ stop) ∧
      ∃ a scan, σ'.active = some a ∧ scan ∈ a.scans ∧ scan.bucket = bucket ∧ scan.offset = offset ∧ scan.take.next = offset'
  done : σ.scanner.done = true → σ'.scanner.done = true
  reported : ∀ ret result, σ'.returned = σ.returned ++ [ret] → ret.outcome = .ok result → result.done = σ'.scanner.done

section Done
variable {s : LogScanner} {τ : ScannerState}

theorem LogScannerConfig.stop?_eq {config : LogScannerConfig} {stops : IDMap Int}
    (h : config.stoppingOffsets = some stops) (bucket : Int) : config.stop? bucket = stops.lookup bucket := by
  rw [LogScannerConfig.stop?,h]
  rfl

theorem updateDone_done_iff (hs : s.buckets ≠ []) (hk : ∀ bucket, bucket ∈ τ.offset ↔ bucket ∈ s.buckets) :
    (τ.updateDone s.config).done = true ↔ BoundReached s τ := by
  simp only [ScannerState.updateDone,Bool.or_eq_true,decide_eq_true_eq,BoundReached]
  refine or_congr Iff.rfl ?_
  cases hst : s.config.stoppingOffsets with
  | none => simp
  | some stops =>
    have hsto := LogScannerConfig.stop?_eq hst
    obtain ⟨first,hf⟩ := List.exists_mem_of_ne_nil _ hs
    have hne : τ.offset.keys.isEmpty = false := by
      rw [List.isEmpty_eq_false_iff]
      exact List.ne_nil_of_mem (mem_keys.mp ((hk first).mpr hf))
    simp only [hne,Bool.not_false,Bool.true_and,List.all_eq_true,Option.isSome_some,true_and,hsto]
    constructor
    · intro hall bucket hb
      obtain ⟨offset,ho⟩ := Option.isSome_iff_exists.mp (lookup_isSome.mpr ((hk bucket).mpr hb))
      have he := hall ⟨bucket,offset⟩ (mem_lookup_iff.mp ho)
      split at he
      next stop hl => exact ⟨offset,stop,ho,hl,of_decide_eq_true he⟩
      · cases he
    · rintro hall ⟨bucket,offset⟩ he
      have ho : τ.offset.lookup bucket = some offset := mem_lookup_iff.mpr he
      have hb := (hk bucket).mp (lookup_isSome.mp (by rw [ho]; rfl))
      obtain ⟨offset',stop,ho',hl,hle⟩ := hall bucket hb
      obtain rfl := Option.some.inj (ho.symm.trans ho')
      rw [hl]
      exact decide_eq_true hle
end Done

section Reports
variable {s : LogScanner} {result : ScanResult} {scans : List BucketScan}

private theorem filter_flatMap_owned {α : Type} (owner : α → Int) (part : BucketScan → List α)
    (ho : ∀ scan ∈ scans, ∀ x ∈ part scan, owner x = scan.bucket) (bucket : Int) :
    (scans.flatMap part).filter (owner · = bucket) = (scans.filter (·.bucket = bucket)).flatMap part := by
  induction scans with
  | nil => rfl
  | cons scan scans ih =>
    have hf := ho scan mem_cons_self
    rw [flatMap_cons,filter_append,ih fun scan' hs' => ho scan' (mem_cons_of_mem _ hs')]
    by_cases hb : scan.bucket = bucket
    · rw [filter_cons_of_pos (by simpa using hb),flatMap_cons]
      congr 1
      apply filter_eq_self.mpr
      intro x hx
      rw [decide_eq_true_eq,hf x hx,hb]
    · rw [filter_cons_of_neg (by simpa using hb)]
      convert nil_append _ using 2
      apply filter_eq_nil_iff.mpr
      intro x hx
      rw [decide_eq_true_eq,hf x hx]
      exact hb

private theorem filter_bucket_eq (hd : (scans.map (·.bucket)).Nodup) {scan : BucketScan} (hs : scan ∈ scans) :
    scans.filter (·.bucket = scan.bucket) = [scan] := by
  induction scans with
  | nil => cases hs
  | cons first scans ih =>
    obtain ⟨hf,hr⟩ := nodup_cons.mp hd
    rcases mem_cons.mp hs with rfl | hs
    · rw [filter_cons_of_pos (by simp)]
      congr 1
      apply filter_eq_nil_iff.mpr
      intro other ho heq
      exact hf (mem_map.mpr ⟨other,ho,of_decide_eq_true heq⟩)
    · rw [filter_cons_of_neg,ih hr hs]
      intro heq
      exact hf (mem_map.mpr ⟨scan,hs,(of_decide_eq_true heq).symm⟩)

private theorem Collected.filters (h : Collected result scans) (hsc : ∀ scan ∈ scans, ScanLaw s scan) (bucket : Int) :
    result.entriesOf bucket = sortByKey LogEntry.offset
      (((scans.filter (·.bucket = bucket)).flatMap (·.take.rows)).map (·.record.entry) ++
        ((scans.filter (·.bucket = bucket)).flatMap (·.take.arrows)).flatMap (·.batch.entries)) := by
  have hr := filter_flatMap_owned ScanRecord.bucket (·.take.rows) (fun scan hs => (hsc scan hs).owned.rows) bucket
  have ha := filter_flatMap_owned ScanArrowBatch.bucket (·.take.arrows) (fun scan hs => (hsc scan hs).owned.arrows)
    bucket
  rw [ScanResult.entriesOf,h.records,h.arrows,hr,ha]

theorem Collected.entriesOf (h : Collected result scans) (hs : ∀ scan ∈ scans, ScanLaw s scan)
    (hd : (scans.map (·.bucket)).Nodup) {scan : BucketScan} (hsc : scan ∈ scans) :
    result.entriesOf scan.bucket = scan.take.inOrder := by
  rw [h.filters hs,filter_bucket_eq hd hsc]
  simp [BucketTake.inOrder]

theorem Collected.entriesOf_other (h : Collected result scans) (hs : ∀ scan ∈ scans, ScanLaw s scan) {bucket : Int}
    (hb : bucket ∉ scans.map (·.bucket)) : result.entriesOf bucket = [] := by
  have he : scans.filter (·.bucket = bucket) = [] := by
    apply filter_eq_nil_iff.mpr
    intro scan hsc heq
    exact hb (decide_eq_true_eq.mp heq ▸ mem_map_of_mem hsc)
  rw [h.filters hs,he]
  rfl

theorem PollLaw.report {ret : PollReturn} (h : PollLaw s ret) : PollReport s ret where
  visited result hr scan hs := by
    have he := (h.collected result hr).entriesOf h.scans h.distinct hs
    have hlaw := (h.scans scan hs).law
    constructor
    · rw [he]
      exact hlaw.initial
    · rw [he]
      exact fun stop hst => (hlaw.stopped stop hst).1
    · rw [he]
      exact hlaw.complete
  others result hr bucket hbucket := (h.collected result hr).entriesOf_other h.scans hbucket
  failed := h.failed
end Reports

section State
variable {s : LogScanner} {created : ScannerState} {σ σ' : PollState} {reader : ArrowReader}
/-- The records handed out so far are within the limit, those of the running `Poll` included. -/
theorem PollInv.handedOut_le (h : PollInv s σ) (hpo : 0 < s.config.rowLimit) :
    (σ.handedOut : Int) ≤ s.config.rowLimit := by
  have hl := h.limited hpo
  cases ha : σ.active with
  | none =>
    rw [h.counted ha]
    exact hl
  | some a =>
    have hlaw := h.active a ha
    have hc := hlaw.counted
    have hsum : 0 ≤ (a.scans.map (·.take.delivered)).sum := by
      apply sum_nonneg
      intro n hn
      obtain ⟨scan,hs,rfl⟩ := mem_map.mp hn
      rw [(hlaw.scans scan hs).law.delivered]
      exact Int.natCast_nonneg _
    cases hp : a.pending with
    | none =>
      rw [hp] at hc
      simp only [map_none,getD_none] at hc
      omega
    | some p =>
      obtain ⟨scan,hla,rfl,hsc,_⟩ := hlaw.pending p hp
      have := (hlaw.scans scan (mem_of_getLast? hla)).law.limited hpo
      rw [hp] at hc
      simp only [map_some,getD_some] at hc
      omega

theorem PollInv.bounds (hc : Created s created) (h : PollInv s σ) : BoundsHold s σ where
  limited := h.handedOut_le
  counted := h.counted
  reports ret hret := (h.returned ret hret).report
  done hclosed := by
    rw [← updateDone_done_iff hc.subscribed (h.keys hclosed),h.done hclosed]
/-- What only an advance and Close change. -/
structure SameStore (σ σ' : PollState) : Prop where
  offset : σ'.scanner.offset = σ.scanner.offset
  delivered : σ'.scanner.delivered = σ.scanner.delivered
  done : σ'.scanner.done = σ.scanner.done
  closed : σ'.scanner.closed = σ.scanner.closed
  /-- A result that `Poll` returns says whether the scan is done. -/
  reported : ∀ ret result, σ'.returned = σ.returned ++ [ret] → ret.outcome = .ok result → result.done = σ.scanner.done

theorem SameStore.leave (σ : PollState) {outcome : Except GoError ScanResult} (scans : List BucketScan)
    (h : ∀ result, outcome = .ok result → result.done = σ.scanner.done) : SameStore σ (σ.leave outcome scans) where
  offset := rfl
  delivered := rfl
  done := rfl
  closed := rfl
  reported ret result hr hresult := by
    obtain rfl := singleton_inj.mp (append_cancel_left hr)
    exact h result hresult

theorem SameStore.of_returned (ho : σ'.scanner.offset = σ.scanner.offset)
    (hd : σ'.scanner.delivered = σ.scanner.delivered) (hdo : σ'.scanner.done = σ.scanner.done)
    (hc : σ'.scanner.closed = σ.scanner.closed) (hr : σ'.returned = σ.returned) : SameStore σ σ' where
  offset := ho
  delivered := hd
  done := hdo
  closed := hc
  reported ret _ hret := by simp [hr] at hret

private theorem SameStore.leave_error (σ : PollState) (e : GoError) (scans : List BucketScan) :
    SameStore σ (σ.leave (.error e) scans) := .leave σ scans fun _ hr => by cases hr

private theorem SameStore.begin (hs : s.beginPoll σ = some σ') : SameStore σ σ' := by
  unfold beginPoll at hs
  split at hs
  · cases hs
  split at hs
  · cases hs
    exact .leave_error σ _ []
  split at hs
  next hd =>
    cases hs
    refine .leave σ [] fun result hr => ?_
    obtain rfl := Except.ok.inj hr
    exact hd.symm
  split at hs
  · cases hs
    have hl := SameStore.leave_error { σ with scanner := { σ.scanner with wakePending := false } } Sentinel.wakeup.error []
    exact ⟨hl.offset,hl.delivered,hl.done,hl.closed,hl.reported⟩
  split at hs
  · cases hs
    exact .leave_error σ _ []
  · cases hs
    exact .of_returned rfl rfl rfl rfl rfl

private theorem SameStore.recordFetchError (σ : PollState) (a : ActivePoll) (bucket : Int) (queue : List (Int × Int))
    (e : GoError) : SameStore σ (recordFetchError σ a bucket queue e) := by
  have hw := fun err => SameStore.leave_error { σ with scanner := { σ.scanner with wakePending := false } } err a.scans
  unfold LogScanner.recordFetchError
  split
  · exact .leave_error σ _ _
  dsimp only
  split
  · exact ⟨rfl,rfl,rfl,rfl,(hw _).reported⟩
  · split
    · exact ⟨rfl,rfl,rfl,rfl,(hw _).reported⟩
    · exact .of_returned rfl rfl rfl rfl rfl

private theorem SameStore.visit {fetched : Except GoError ScannerFetch} {resolver : SchemaResolver}
    (hs : s.pollBucket reader σ fetched resolver = some σ') : SameStore σ σ' := by
  obtain ⟨a,bucket,offset,queue,_,_,_,hc⟩ := pollBucket_cases hs
  cases hc with
  | unfetched e => exact .recordFetchError σ a bucket queue e
  | undecoded | collected => exact .of_returned rfl rfl rfl rfl rfl
  | unprojected _ => exact .leave_error σ _ _

private theorem SameStore.finish (hs : finish σ = some σ') : SameStore σ σ' := by
  obtain ⟨a,_,_,rfl⟩ := finish_eq_some hs
  refine .leave σ _ fun result hr => ?_
  obtain rfl := Except.ok.inj hr
  rfl
/-- A step stores a new offset, drops them all, or leaves the stored state as it is. -/
inductive StoreStep (s : LogScanner) (σ : PollState) : PollState → Prop
  | advance {a : ActivePoll} {p : PendingAdvance} (ha : σ.active = some a) (hp : a.pending = some p) :
      StoreStep s σ { σ with
        scanner := s.advanceOffset σ.scanner p
        active := some { a with queue := LogScanner.queueAfter (s.advanceOffset σ.scanner p) a.queue, pending := none } }
  | close : StoreStep s σ (LogScanner.close σ)
  | same {σ' : PollState} (h : SameStore σ σ') : StoreStep s σ σ'

theorem LogScanner.step_store {e : PollEvent} (hs : s.step reader σ e = some σ') : StoreStep s σ σ' := by
  cases e with
  | begin => exact .same (.begin hs)
  | visit fetched resolver => exact .same (.visit hs)
  | advance =>
    obtain ⟨a,p,ha,hp,rfl⟩ := advance_eq_some hs
    exact .advance ha hp
  | finish => exact .same (.finish hs)
  | wakeup =>
    cases hs
    unfold wakeup
    split <;> exact .same (.of_returned rfl rfl rfl rfl rfl)
  | close =>
    cases hs
    exact .close
  | cancel e =>
    obtain ⟨a,_,rfl⟩ := cancel_eq_some hs
    exact .same (.of_returned rfl rfl rfl rfl rfl)

theorem PollInv.step_bounds (h : PollInv s σ) {e : PollEvent} (hst : s.step reader σ e = some σ') :
    StepBounds s σ σ' := by
  cases step_store hst with
  | same hs =>
    refine ⟨fun bucket offset offset' ho ho' => .inl ?_,fun hd => hs.done.trans hd,?_⟩
    · rw [hs.offset,ho] at ho'
      exact (some.inj ho').symm
    · intro ret result hret hr
      rw [hs.reported ret result hret hr,hs.done]
  | close =>
    refine ⟨fun bucket offset offset' _ ho' => ?_,fun hd => hd,fun ret _ hret => ?_⟩
    · simp [LogScanner.close] at ho'
    · simp [LogScanner.close] at hret
  | advance ha hp =>
    rename_i a p
    have hac := h.active a ha
    have had := h.advance_lookup ha hp
    have hd := hac.running (.inr (by rw [hp]; rfl))
    obtain ⟨scan,hla,rfl,_,hl⟩ := hac.pending p hp
    have hmem := mem_of_getLast? hla
    have hlaw := (hac.scans scan hmem).law
    refine ⟨fun bucket offset offset' ho ho' => ?_,fun ht => ?_,fun ret _ hret => ?_⟩
    · dsimp only at ho'
      rw [had bucket] at ho'
      split at ho'
      next hb =>
        obtain ⟨hc,rfl⟩ := hb
        cases ho'
        obtain rfl := some.inj ((hl hc).symm.trans ho)
        exact .inr ⟨hlaw.advances,fun stop hsto => (hlaw.stopped stop hsto).2,_,scan,rfl,hmem,rfl,rfl,rfl⟩
      · rw [ho] at ho'
        exact .inl (some.inj ho').symm
    · rw [hd] at ht
      cases ht
    · simp at hret
end State
/-- Every scan that starts at non-negative offsets keeps within its bounds. -/
theorem logScanner_keeps_bounds (reader : ArrowReader) (backend : ScannerBackend) (table : Table) (start : ScanOffset)
    (options : List (Option LogScannerOption)) (s : LogScanner) (created : ScannerState)
    (hcreated : newLogScanner backend table start options = .ok (s, created)) (hstops : StopsFit s)
    (hstarts : StartsFit created) (σ : PollState)
    (hreach : ((s.system reader created).guarded Undisturbed).Reachable σ) :
    BoundsHold s σ ∧ ∀ e σ', s.step reader σ e = some σ' → StepBounds s σ σ' := by
  have hnew := (newLogScanner_eq_ok hcreated).2.2.1
  have hinv := pollInv_reachable hnew hstops hstarts hreach
  exact ⟨hinv.bounds hnew,fun e σ' hstep => hinv.step_bounds hstep⟩

def numberScanner (buckets : List Int) (config : LogScannerConfig) : LogScanner where
  table := (numberWriter none {}).table
  path := ⟨⟨"shop","numbers"⟩,""⟩
  config := config
  partitionID := -1
  buckets := buckets
  schema := numberSchema
  projection := []
  compacted := true
  dynamic := false

def numberScannerBackend (buckets : IDMap ServerNode) (offset : Int) : ScannerBackend where
  metadata := fun _ => .ok (9, buckets)
  listOffset := fun _ _ _ => .ok offset
  dynamic := false

def numberNode : ServerNode := ⟨1,"localhost:9123",.tabletServer⟩

def pollOnce (records : Bytes) : List PollEvent :=
  [.begin, .visit (.ok ⟨records,0,none⟩) numberResolver, .advance, .finish]

private theorem pollOnce_undisturbed {records : Bytes} {e : PollEvent} (he : e ∈ pollOnce records) (σ : PollState) :
    Undisturbed σ e := by
  rintro err resolver a rfl
  simp [pollOnce] at he

private theorem newLogScanner_numbers (offset : Int) :
    newLogScanner (numberScannerBackend (insert 0 numberNode ∅) offset) (numberWriter none {}).table
      { kind := .fromEarliest } [some (withScanRowLimit 1)] =
      .ok (numberScanner [0] { rowLimit := 1 }, { offset := insert 0 offset ∅ }) := rfl

private theorem numberScanner_stopsFit (buckets : List Int) (limit : Int) :
    StopsFit (numberScanner buckets { rowLimit := limit }) := by
  rintro bucket stop hs
  cases hs

theorem logScanner_keeps_bounds_numbers :
    let s := numberScanner [0] { rowLimit := 1 }
    let created : ScannerState := { offset := AList.insert 0 4 ∅ }
    ∃ σ, ((s.system noArrow created).guarded Undisturbed).Reachable σ ∧ σ.handedOut = 1 ∧ σ.scanner.done = true ∧
      BoundsHold s σ ∧ ∀ e σ', s.step noArrow σ e = some σ' → StepBounds s σ σ' := by
  intro s created
  have hrun : (((pollOnce (numberBatchAt 4 ++ numberBatchAt 5)).foldlM (s.step noArrow) { scanner := created }).map fun σ =>
      (σ.handedOut, σ.scanner.done)) = some (1, true) := by decide +kernel
  obtain ⟨σ,hσ,hseen⟩ := map_eq_some_iff.mp hrun
  obtain ⟨hcount,hdone⟩ := Prod.mk.inj hseen
  have hreach : ((s.system noArrow created).guarded Undisturbed).Reachable σ :=
    .of_foldlM rfl hσ fun τ e τ' he hstep => ⟨hstep,pollOnce_undisturbed he τ⟩
  refine ⟨σ,hreach,hcount,hdone,?_⟩
  refine logScanner_keeps_bounds noArrow (numberScannerBackend (AList.insert 0 numberNode ∅) 4) (numberWriter none {}).table
    { kind := .fromEarliest } [some (withScanRowLimit 1)] s created (newLogScanner_numbers 4) (numberScanner_stopsFit _ _)
    ?_ σ hreach
  intro bucket offset hoffset
  rw [lookup_insert_eq] at hoffset
  split at hoffset
  · cases hoffset
    decide
  · simp at hoffset
/-- An Arrow batch of one row at the offset -1, as a writer sends it. -/
def numberArrowBatch : Bytes :=
  [255, 255, 255, 255, 255, 255, 255, 255, 37, 0, 0, 0, 0, 0, 0, 0, 0, 0, 0, 0, 0, 246, 109, 255, 224, 0, 0, 1, 0, 0, 0, 0,
    0, 0, 0, 0, 0, 0, 0, 0, 0, 0, 0, 0, 1, 0, 0, 0, 0]

def numberArrowReader : ArrowReader where
  read := fun fields _ => .ok (heldRecord fields [[.int32 1]])
  conforms := by
    intro fields payload record h
    cases h
    exact heldRecord_conforms fields _
  safe := by simp
/-- The distance of a negative offset to the default stopping offset overflows, and the record is skipped. -/
theorem logScanner_skips_negative_offset :
    let s := numberScanner [0] { rowLimit := 1 }
    let created : ScannerState := { offset := AList.insert 0 (-1) ∅ }
    newLogScanner (numberScannerBackend (AList.insert 0 numberNode ∅) (-1)) (numberWriter none {}).table
        { kind := .fromEarliest } [some (withScanRowLimit 1)] = .ok (s, created) ∧
      ∃ σ, ((s.system numberArrowReader created).guarded Undisturbed).Reachable σ ∧ σ.handedOut = 0 ∧
        ∃ ret ∈ σ.returned, ∃ scan ∈ ret.scans, ret.outcome.toBool = true ∧ scan.take.next = 0 ∧
          (ret.entriesOf scan.bucket).length = 0 ∧ ∃ e ∈ scan.decoded.inOrder, e.offset = -1 := by
  intro s created
  refine ⟨newLogScanner_numbers (-1),?_⟩
  have hrun : ((pollOnce numberArrowBatch).foldlM (s.step numberArrowReader) { scanner := created }).any (fun σ =>
      decide (σ.handedOut = 0 ∧ ∃ ret ∈ σ.returned, ∃ scan ∈ ret.scans, ret.outcome.toBool = true ∧ scan.take.next = 0 ∧
        (ret.entriesOf scan.bucket).length = 0 ∧ ∃ e ∈ scan.decoded.inOrder, e.offset = -1)) = true := by decide +kernel
  cases hσ : (pollOnce numberArrowBatch).foldlM (s.step numberArrowReader) { scanner := created } with
  | none =>
    rw [hσ] at hrun
    cases hrun
  | some σ =>
    rw [hσ,any_some] at hrun
    exact ⟨σ,.of_foldlM rfl hσ fun τ e τ' he hstep => ⟨hstep,pollOnce_undisturbed he τ⟩,of_decide_eq_true hrun⟩
end FlussGo
