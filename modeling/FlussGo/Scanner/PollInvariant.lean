import FlussGo.Scanner.Visit
/-!
# What holds between the steps of a scan

The stored offsets, the buckets that a `Poll` still visits, and what its result holds. A `Poll` must not fail
after one of its buckets has moved on, since it drops its result.
-/
namespace FlussGo
open List Option LogScanner ScannerState PollState AList
theorem lookup_insert_eq {α : Type} (m : IDMap α) (k k' : Int) (v : α) :
    (m.insert k v).lookup k' = if k' = k then some v else m.lookup k' := by
  split
  next heq =>
    rw [heq,lookup_insert]
  next hne => exact lookup_insert_ne hne

def ScanResult.entries (r : ScanResult) : List LogEntry :=
  r.records.map (·.record.entry) ++ r.arrowBatches.flatMap (·.batch.entries)
/-- The number of records that a call of `Poll` handed out. -/
def PollReturn.count (ret : PollReturn) : Nat :=
  match ret.outcome with
  | .ok result => result.entries.length
  | .error _ => 0

def PollState.handedOut (σ : PollState) : Nat := (σ.returned.map PollReturn.count).sum

structure ScanLaw (s : LogScanner) (scan : BucketScan) : Prop where
  law : TakeLaw s.config scan.scanned scan.bucket scan.offset scan.decoded.inOrder scan.take
  owned : scan.take.Owned scan.bucket
  after : ∀ e ∈ scan.decoded.inOrder, scan.offset ≤ e.offset
/-- A result holds what its visits took. -/
structure Collected (result : ScanResult) (scans : List BucketScan) : Prop where
  records : result.records = scans.flatMap (·.take.rows)
  arrows : result.arrowBatches = scans.flatMap (·.take.arrows)

structure PollLaw (s : LogScanner) (ret : PollReturn) : Prop where
  failed : ∀ e, ret.outcome = .error e → ∀ scan ∈ ret.scans, scan.take.next = scan.offset
  scans : ∀ scan ∈ ret.scans, ScanLaw s scan
  distinct : (ret.scans.map (·.bucket)).Nodup
  collected : ∀ result, ret.outcome = .ok result → Collected result ret.scans
/-- A `Poll` between its steps, after `handedOut` records of earlier ones. -/
structure ActiveLaw (s : LogScanner) (σ : ScannerState) (handedOut : Nat) (a : ActivePoll) : Prop where
  queued : ∀ bucket offset, (bucket, offset) ∈ a.queue → (0 ≤ offset ∧ offset ≤ maxInt64) ∧
    (∀ stop, s.config.stop? bucket = some stop → offset < stop) ∧
    (σ.closed = false → σ.offset.lookup bucket = some offset)
  distinct : (a.scans.map (·.bucket) ++ a.queue.map (·.1)).Nodup
  running : a.queue ≠ [] ∨ a.pending.isSome → σ.done = false
  scans : ∀ scan ∈ a.scans, ScanLaw s scan
  collected : Collected a.result a.scans
  pending : ∀ p, a.pending = some p → ∃ scan, a.scans.getLast? = some scan ∧
    p = ⟨scan.bucket,scan.offset,scan.take.next,scan.take.delivered⟩ ∧ scan.scanned = σ.delivered ∧
    (σ.closed = false → σ.offset.lookup scan.bucket = some scan.offset)
  counted : (handedOut + (a.scans.map (·.take.delivered)).sum : Int) = σ.delivered + (a.pending.map (·.delivered)).getD 0
  schema : a.scans ≠ [] → s.dynamic = true ∧ s.projection ≠ [] → ∃ fields, s.schema.arrowSchema = .ok fields

structure PollInv (s : LogScanner) (σ : PollState) : Prop where
  keys : σ.scanner.closed = false → ∀ bucket, bucket ∈ σ.scanner.offset ↔ bucket ∈ s.buckets
  dropped : σ.scanner.closed = true → σ.scanner.offset = ∅
  range : ∀ bucket offset, σ.scanner.offset.lookup bucket = some offset → 0 ≤ offset ∧ offset ≤ maxInt64
  done : σ.scanner.closed = false → σ.scanner.updateDone s.config = σ.scanner
  full : 0 < s.config.rowLimit → s.config.rowLimit ≤ σ.scanner.delivered → σ.scanner.done = true
  limited : 0 < s.config.rowLimit → σ.scanner.delivered ≤ s.config.rowLimit
  active : ∀ a, σ.active = some a → ActiveLaw s σ.scanner σ.handedOut a
  returned : ∀ ret ∈ σ.returned, PollLaw s ret
  counted : σ.active = none → (σ.handedOut : Int) = σ.scanner.delivered
/-- The fetch of a bucket does not fail in an interrupted `Poll` that has moved another bucket on. -/
def Undisturbed (σ : PollState) (e : PollEvent) : Prop :=
  ∀ err resolver a, e = .visit (.error err) resolver → σ.active = some a →
    a.canceled.isSome = true ∨ σ.scanner.closed = true ∨ σ.scanner.wakePending = true →
    ∀ scan ∈ a.scans, scan.take.next = scan.offset

section Frame
variable {s : LogScanner} {σ σ' : ScannerState} {n : Nat} {a : ActivePoll}

theorem LogScanner.queueAfter_sublist (σ : ScannerState) (queue : List (Int × Int)) :
    (queueAfter σ queue).Sublist queue := by
  unfold queueAfter
  split
  · exact nil_sublist _
  · exact List.Sublist.refl _

theorem ActiveLaw.frame (h : ActiveLaw s σ n a) (hdo : σ'.done = σ.done) (hd : σ'.delivered = σ.delivered)
    (ho : σ'.closed = false → σ.closed = false ∧ σ'.offset = σ.offset) : ActiveLaw s σ' n a where
  queued bucket offset hmem := by
    obtain ⟨hr,hst,hl⟩ := h.queued bucket offset hmem
    refine ⟨hr,hst,fun hc => ?_⟩
    rw [(ho hc).2]
    exact hl (ho hc).1
  distinct := h.distinct
  running hrunning := hdo.trans (h.running hrunning)
  scans := h.scans
  collected := h.collected
  pending p hp := by
    obtain ⟨scan,hla,heq,hs,hl⟩ := h.pending p hp
    refine ⟨scan,hla,heq,hs.trans hd.symm,fun hc => ?_⟩
    rw [(ho hc).2]
    exact hl (ho hc).1
  counted := hd ▸ h.counted
  schema := h.schema

theorem ActiveLaw.skip (h : ActiveLaw s σ n a) {p : Int × Int} {queue : List (Int × Int)}
    (hq : a.queue = p :: queue) (errors : List (Int × GoError)) : ActiveLaw s σ n
      { a with queue := queueAfter σ queue, result := { a.result with bucketErrors := errors } } where
  queued bucket offset hmem := by
    apply h.queued bucket offset
    rw [hq]
    exact mem_cons_of_mem _ ((queueAfter_sublist σ queue).subset hmem)
  distinct := by
    have hd := h.distinct
    rw [hq] at hd
    exact hd.sublist ((((queueAfter_sublist σ queue).cons p).map _).append_left _)
  running hrunning := by
    apply h.running
    rw [hq]
    exact .inl (cons_ne_nil _ _)
  scans := h.scans
  collected := ⟨h.collected.records,h.collected.arrows⟩
  pending p hp := h.pending p hp
  counted := h.counted
  schema := h.schema
end Frame

section Count
variable {s : LogScanner}

theorem TakeLaw.length_eq {config : LogScannerConfig} {scanned bucket offset : Int} {decoded : List LogEntry}
    {t : BucketTake} (h : TakeLaw config scanned bucket offset decoded t) :
    t.delivered = ((t.rows.map (·.record.entry) ++ t.arrows.flatMap (·.batch.entries)).length : Nat) := by
  rw [h.delivered,BucketTake.inOrder,(sortByKey_perm _ _).length_eq]

theorem ScanLaw.unmoved {scan : BucketScan} (h : ScanLaw s scan) (hm : scan.take.next = scan.offset) :
    scan.take.delivered = 0 := by
  have hem : scan.take.inOrder = [] := by
    rw [eq_nil_iff_forall_not_mem]
    intro e he
    have hb := h.law.below e he
    have ha := h.after e (h.law.initial.subset he)
    omega
  rw [h.law.delivered,hem]
  rfl

theorem unmoved_sum {scans : List BucketScan} (h : ∀ scan ∈ scans, ScanLaw s scan)
    (hm : ∀ scan ∈ scans, scan.take.next = scan.offset) : (scans.map (·.take.delivered)).sum = 0 := by
  apply sum_eq_zero
  intro n hn
  obtain ⟨scan,hs,rfl⟩ := mem_map.mp hn
  exact (h scan hs).unmoved (hm scan hs)

theorem Collected.length_eq {result : ScanResult} {scans : List BucketScan} (h : Collected result scans)
    (hs : ∀ scan ∈ scans, ScanLaw s scan) : (result.entries.length : Int) = (scans.map (·.take.delivered)).sum := by
  rw [ScanResult.entries,h.records,h.arrows]
  clear h
  induction scans with
  | nil => rfl
  | cons scan scans ih =>
    have ih := ih fun scan' hs' => hs scan' (mem_cons_of_mem _ hs')
    have hl := (hs scan mem_cons_self).law.length_eq
    simp only [flatMap_cons,map_append,flatMap_append,length_append,map_cons,sum_cons] at ih hl ⊢
    push_cast at ih hl ⊢
    omega
end Count

section Leave
variable {s : LogScanner} {σ : PollState} {scans : List BucketScan} {outcome : Except GoError ScanResult}

theorem PollState.leave_handedOut (σ : PollState) (outcome : Except GoError ScanResult) (scans : List BucketScan) :
    (σ.leave outcome scans).handedOut = σ.handedOut + (PollReturn.mk outcome scans).count := by
  simp [leave,handedOut]

theorem PollInv.leave (h : PollInv s σ) (hlaw : PollLaw s ⟨outcome,scans⟩)
    (hc : (σ.handedOut + (PollReturn.mk outcome scans).count : Int) = σ.scanner.delivered) :
    PollInv s (σ.leave outcome scans) where
  keys := h.keys
  dropped := h.dropped
  range := h.range
  done := h.done
  full := h.full
  limited := h.limited
  active a ha := by cases ha
  returned ret hret := by
    rcases mem_append.mp hret with hret | hret
    · exact h.returned ret hret
    · rw [mem_singleton.mp hret]
      exact hlaw
  counted _ := by
    rw [leave_handedOut]
    push_cast
    exact hc

theorem PollInv.leave_error (h : PollInv s σ) {e : GoError} (hm : ∀ scan ∈ scans, scan.take.next = scan.offset)
    (hs : ∀ scan ∈ scans, ScanLaw s scan) (hd : (scans.map (·.bucket)).Nodup)
    (hc : (σ.handedOut : Int) = σ.scanner.delivered) : PollInv s (σ.leave (.error e) scans) := by
  refine h.leave ⟨fun _ _ => hm,hs,hd,fun _ hr => by cases hr⟩ ?_
  simpa [PollReturn.count] using hc

theorem ActiveLaw.nodup {n : Nat} {a : ActivePoll} {τ : ScannerState} (h : ActiveLaw s τ n a) :
    (a.scans.map (·.bucket)).Nodup := h.distinct.sublist (sublist_append_left _ _)

theorem ActiveLaw.unmoved {n : Nat} {a : ActivePoll} {τ : ScannerState} (h : ActiveLaw s τ n a)
    (hp : a.pending = none) (hm : ∀ scan ∈ a.scans, scan.take.next = scan.offset) : (n : Int) = τ.delivered := by
  have hc := h.counted
  rw [unmoved_sum h.scans hm,hp] at hc
  simpa using hc

theorem PollInv.wake (h : PollInv s σ) (wake : Bool) :
    PollInv s { σ with scanner := { σ.scanner with wakePending := wake } } where
  keys := h.keys
  dropped := h.dropped
  range := h.range
  done hc := by
    have hd := congrArg ScannerState.done (h.done hc)
    simpa [ScannerState.updateDone] using hd
  full := h.full
  limited := h.limited
  active a ha := (h.active a ha).frame rfl rfl fun hc => ⟨hc,rfl⟩
  returned := h.returned
  counted := h.counted
end Leave

section Steps
variable {s : LogScanner} {reader : ArrowReader} {σ σ' : PollState} {created : ScannerState} {a : ActivePoll}
  {bucket offset : Int} {resolver : SchemaResolver} {queue : List (Int × Int)} {p : Int × Int}

private theorem filterMap_keys {f : Int → Option (Int × Int)} (hf : ∀ bucket p, f bucket = some p → p.1 = bucket)
    (buckets : List Int) : ((buckets.filterMap f).map (·.1)).Sublist buckets := by
  induction buckets with
  | nil => exact .slnil
  | cons bucket buckets ih =>
    rw [filterMap_cons]
    split
    · exact ih.cons bucket
    next p hp =>
      rw [map_cons,hf bucket p hp]
      exact ih.cons_cons bucket

theorem LogScanner.pollOffset_eq_some {offsets : IDMap Int} (h : s.pollOffset offsets bucket = some p) :
    p.1 = bucket ∧ offsets.lookup bucket = some p.2 ∧ ∀ stop, s.config.stop? bucket = some stop → p.2 < stop := by
  unfold pollOffset at h
  split at h
  · cases h
  rename_i offset ho
  split at h
  next stop hs =>
    split at h
    · cases h
    rename_i hlt
    cases h
    refine ⟨rfl,ho,fun stop' hs' => ?_⟩
    obtain rfl := some.inj (hs.symm.trans hs')
    exact Int.not_le.mp hlt
  next hn =>
    cases h
    refine ⟨rfl,ho,fun stop hs => ?_⟩
    rw [hn] at hs
    cases hs

theorem LogScanner.mem_pollable {offsets : IDMap Int} (h : (bucket, offset) ∈ s.pollable offsets) :
    offsets.lookup bucket = some offset ∧ ∀ stop, s.config.stop? bucket = some stop → offset < stop := by
  obtain ⟨b,_,hb⟩ := mem_filterMap.mp h
  obtain ⟨rfl,hl,hs⟩ := pollOffset_eq_some hb
  exact ⟨hl,hs⟩

theorem LogScanner.pollable_keys (s : LogScanner) (offsets : IDMap Int) :
    ((s.pollable offsets).map (·.1)).Sublist s.buckets :=
  filterMap_keys (fun _ _ hp => (pollOffset_eq_some hp).1) s.buckets

theorem PollInv.begin (hcr : Created s created) (h : PollInv s σ) (hs : s.beginPoll σ = some σ') : PollInv s σ' := by
  have hn : ∀ scan ∈ ([] : List BucketScan), scan.take.next = scan.offset := by simp
  have hlaw : ∀ scan ∈ ([] : List BucketScan), ScanLaw s scan := by simp
  unfold beginPoll at hs
  split at hs
  · cases hs
  rename_i hac
  have hc := h.counted (by simpa using hac)
  split at hs
  · cases hs
    exact h.leave_error hn hlaw nodup_nil hc
  split at hs
  · cases hs
    refine h.leave ⟨fun _ herr => (by cases herr),hlaw,nodup_nil,fun result hr => ?_⟩ ?_
    · obtain rfl := Except.ok.inj hr
      exact ⟨rfl,rfl⟩
    · simpa [PollReturn.count,ScanResult.entries] using hc
  split at hs
  · cases hs
    exact (h.wake false).leave_error hn hlaw nodup_nil hc
  split at hs
  · cases hs
    exact h.leave_error hn hlaw nodup_nil hc
  rename_i hcl hd _ _
  cases hs
  refine { h with active := fun a ha => ?_, counted := fun hn => by cases hn }
  cases ha
  constructor
  · intro bucket offset hmem
    obtain ⟨hl,hst⟩ := mem_pollable hmem
    exact ⟨h.range bucket offset hl,hst,fun _ => hl⟩
  · exact hcr.nodup.sublist (s.pollable_keys _)
  · intro _
    simpa using hd
  · exact hlaw
  · exact ⟨rfl,rfl⟩
  · intro p hp
    cases hp
  · simpa [handedOut] using hc
  · intro hsc
    exact absurd rfl hsc
/-- What a visit can do. -/
inductive VisitCase (s : LogScanner) (reader : ArrowReader) (resolver : SchemaResolver) (σ : PollState) (a : ActivePoll)
    (bucket offset : Int) (queue : List (Int × Int)) : Except GoError ScannerFetch → PollState → Prop
  | unfetched (e : GoError) :
      VisitCase s reader resolver σ a bucket offset queue (.error e) (LogScanner.recordFetchError σ a bucket queue e)
  | undecoded {fetched : ScannerFetch} {e : GoError} (h : s.decodeBucket reader resolver bucket offset fetched = .err (.bucket e)) :
      VisitCase s reader resolver σ a bucket offset queue (.ok fetched) (LogScanner.bucketFailed σ a bucket queue e)
  | unprojected {fetched : ScannerFetch} {e : GoError} (h : s.decodeBucket reader resolver bucket offset fetched = .err (.poll e)) :
      VisitCase s reader resolver σ a bucket offset queue (.ok fetched) (σ.leave (.error e) a.scans)
  | collected {fetched : ScannerFetch} {log : FetchedLog} {t : BucketTake}
      (h : s.decodeBucket reader resolver bucket offset fetched = .ok log)
      (ht : applyBounds s.config σ.scanner.delivered bucket log.rows log.arrows log.next = .ok t) :
      VisitCase s reader resolver σ a bucket offset queue (.ok fetched)
        (LogScanner.collect σ a bucket offset queue fetched log t)

theorem LogScanner.pollBucket_cases {fetched : Except GoError ScannerFetch}
    (h : s.pollBucket reader σ fetched resolver = some σ') :
    ∃ a bucket offset queue, σ.active = some a ∧ a.pending = none ∧ a.queue = (bucket, offset) :: queue ∧
      VisitCase s reader resolver σ a bucket offset queue fetched σ' := by
  unfold pollBucket at h
  split at h
  · cases h
  rename_i a ha
  split at h
  next bucket offset queue hp hq =>
    refine ⟨a,bucket,offset,queue,ha,hp,hq,?_⟩
    split at h
    · cases h
      exact .unfetched _
    split at h
    next hd =>
      cases h
      exact .undecoded hd
    next hd =>
      cases h
      exact .unprojected hd
    · cases h
    next hd =>
      split at h
      next ht =>
        cases h
        exact .collected hd ht
      · cases h
  · cases h

variable (h : PollInv s σ)
include h

theorem PollInv.bucketFailed (ha : σ.active = some a) (hq : a.queue = p :: queue)
    (bucket : Int) (e : GoError) : PollInv s (bucketFailed σ a bucket queue e) := by
  refine { h with active := fun a' ha' => ?_, counted := fun hn => by cases hn }
  cases ha'
  exact (h.active a ha).skip hq _

theorem PollInv.recordFetchError (ha : σ.active = some a) (hp : a.pending = none)
    (hq : a.queue = p :: queue) (bucket : Int) (e : GoError)
    (hm : a.canceled.isSome = true ∨ σ.scanner.closed = true ∨ σ.scanner.wakePending = true →
      ∀ scan ∈ a.scans, scan.take.next = scan.offset) :
    PollInv s (recordFetchError σ a bucket queue e) := by
  have hac := h.active a ha
  unfold LogScanner.recordFetchError
  split
  next hc =>
    have hu := hm (.inl (by rw [hc]; rfl))
    exact h.leave_error hu hac.scans hac.nodup (hac.unmoved hp hu)
  dsimp only
  split
  next hcl =>
    have hu := hm (.inr (.inl hcl))
    exact (h.wake false).leave_error hu hac.scans hac.nodup (hac.unmoved hp hu)
  · split
    next hw =>
      have hu := hm (.inr (.inr hw))
      exact (h.wake false).leave_error hu hac.scans hac.nodup (hac.unmoved hp hu)
    · exact (h.wake false).bucketFailed ha hq bucket e

def StopsFit (s : LogScanner) : Prop := ∀ bucket stop, s.config.stop? bucket = some stop → stop ≤ maxInt64
/-- The first bucket of the queue can be visited: what it decodes to is taken as the bounds say. -/
theorem PollInv.visit_law (hst : StopsFit s) (ha : σ.active = some a)
    (hq : a.queue = (bucket, offset) :: queue) {fetched : ScannerFetch} {log : FetchedLog} {t : BucketTake}
    (hlog : s.decodeBucket reader resolver bucket offset fetched = .ok log)
    (ht : applyBounds s.config σ.scanner.delivered bucket log.rows log.arrows log.next = .ok t) :
    ScanLaw s ⟨bucket,offset,σ.scanner.delivered,log,t⟩ := by
  have hac := h.active a ha
  obtain ⟨hr,hsto,_⟩ := hac.queued bucket offset (by rw [hq]; exact mem_cons_self)
  have hd := hac.running (.inl (by rw [hq]; exact cons_ne_nil _ _))
  have hli : 0 < s.config.rowLimit → σ.scanner.delivered < s.config.rowLimit := by
    intro hp
    by_contra hf
    have := h.full hp (Int.not_lt.mp hf)
    rw [hd] at this
    cases this
  obtain ⟨whole,hw⟩ := decodeBucket_eq_ok hlog
  obtain ⟨t',ht',hlaw,ho⟩ := hw.bucketLog.takes hr hli fun stop hs =>
    ⟨hsto stop hs,hst bucket stop hs⟩
  obtain rfl := Outcome.ok.inj (ht.symm.trans ht')
  obtain ⟨segments,hpe,hl⟩ := hw.bucketLog.laid
  refine ⟨hlaw,ho,fun e he => ?_⟩
  rw [FetchedLog.inOrder_of_laid hpe hl] at he
  exact (hl.mem_offset he).1

theorem PollInv.collect (hs : StopsFit s) (ha : σ.active = some a) (hpe : a.pending = none)
    (hq : a.queue = (bucket, offset) :: queue) {fetched : ScannerFetch} {log : FetchedLog}
    {t : BucketTake} (hlog : s.decodeBucket reader resolver bucket offset fetched = .ok log)
    (ht : applyBounds s.config σ.scanner.delivered bucket log.rows log.arrows log.next = .ok t) :
    PollInv s (LogScanner.collect σ a bucket offset queue fetched log t) := by
  have hac := h.active a ha
  have hsc := h.visit_law hs ha hq hlog ht
  refine { h with active := fun a' ha' => ?_, counted := fun hn => by cases hn }
  cases ha'
  constructor
  · intro b o hmem
    exact hac.queued b o (by rw [hq]; exact mem_cons_of_mem _ hmem)
  · have hd := hac.distinct
    rw [hq] at hd
    simpa using hd
  · intro _
    exact hac.running (.inl (by rw [hq]; exact cons_ne_nil _ _))
  · intro scan hmem
    rcases mem_append.mp hmem with hmem | hmem
    · exact hac.scans scan hmem
    · rw [mem_singleton.mp hmem]
      exact hsc
  · constructor
    · simp [hac.collected.records]
    · simp [hac.collected.arrows]
  · intro p hp
    cases hp
    refine ⟨⟨bucket,offset,σ.scanner.delivered,log,t⟩,by simp,rfl,rfl,fun hcl => ?_⟩
    exact (hac.queued bucket offset (by rw [hq]; exact mem_cons_self)).2.2 hcl
  · have hc := hac.counted
    simp only [hpe,map_none,getD_none,handedOut] at hc
    simp only [map_append,sum_append,map_cons,map_nil,sum_cons,sum_nil,map_some,
      getD_some,handedOut,LogScanner.collect]
    omega
  · intro _ hpr
    obtain ⟨whole,hw⟩ := LogScanner.decodeBucket_eq_ok hlog
    exact hw.schema hpr

theorem PollInv.visit (hc : Created s created) (hst : StopsFit s)
    {fetched : Except GoError ScannerFetch} (hg : Undisturbed σ (.visit fetched resolver))
    (hste : s.pollBucket reader σ fetched resolver = some σ') : PollInv s σ' := by
  obtain ⟨a,bucket,offset,queue,ha,hp,hq,hca⟩ := pollBucket_cases hste
  have hac := h.active a ha
  cases hca with
  | unfetched e => exact h.recordFetchError ha hp hq bucket e (hg e resolver a rfl ha)
  | undecoded _ => exact h.bucketFailed ha hq bucket _
  | unprojected herr =>
    obtain ⟨hpr,hs⟩ := decodeBucket_poll hc.projection herr
    -- An earlier bucket of this call would have needed the same Arrow schema.
    have he : a.scans = [] := by
      by_contra hsc
      obtain ⟨fields,hf⟩ := hac.schema hsc hpr
      exact hs fields hf
    have hu : ∀ scan ∈ a.scans, scan.take.next = scan.offset := by simp [he]
    exact h.leave_error hu hac.scans hac.nodup (hac.unmoved hp hu)
  | collected hlog ht => exact h.collect hst ha hp hq hlog ht

omit h

theorem LogScanner.finish_eq_some (h : finish σ = some σ') : ∃ a, σ.active = some a ∧ a.pending = none ∧
    σ' = σ.leave (.ok { a.result with done := σ.scanner.done }) a.scans := by
  unfold LogScanner.finish at h
  split at h
  · cases h
  next a ha =>
    split at h
    next hp hq => exact ⟨a,ha,hp,(some.inj h).symm⟩
    · cases h

theorem LogScanner.cancel_eq_some {e : GoError} (h : cancel σ e = some σ') : ∃ a, σ.active = some a ∧
    σ' = { σ with active := some { a with canceled := a.canceled.or (some e) } } := by
  unfold LogScanner.cancel at h
  split at h
  · cases h
  next a ha => exact ⟨a,ha,(some.inj h).symm⟩

theorem LogScanner.advance_eq_some (h : s.advance σ = some σ') : ∃ a p, σ.active = some a ∧ a.pending = some p ∧
    σ' = { σ with
      scanner := s.advanceOffset σ.scanner p
      active := some { a with queue := queueAfter (s.advanceOffset σ.scanner p) a.queue, pending := none } } := by
  unfold LogScanner.advance at h
  split at h
  · cases h
  next a ha =>
    split at h
    · cases h
    next p hp => exact ⟨a,p,ha,hp,(some.inj h).symm⟩

theorem PollInv.finish (h : PollInv s σ) (hs : finish σ = some σ') : PollInv s σ' := by
  obtain ⟨a,ha,hp,rfl⟩ := finish_eq_some hs
  have hac := h.active a ha
  refine h.leave ⟨fun _ herr => (by cases herr),hac.scans,hac.nodup,fun result hr => ?_⟩ ?_
  · obtain rfl := Except.ok.inj hr
    exact ⟨hac.collected.records,hac.collected.arrows⟩
  · have hc := hac.counted
    rw [← hac.collected.length_eq hac.scans,hp] at hc
    simpa [PollReturn.count,ScanResult.entries] using hc

theorem PollInv.close (h : PollInv s σ) : PollInv s (close σ) where
  keys hc := by cases hc
  dropped _ := rfl
  range bucket offset hlookup := by
    simp [LogScanner.close] at hlookup
  done hc := by cases hc
  full := h.full
  limited := h.limited
  active a ha := (h.active a ha).frame rfl rfl fun hc => (by cases hc)
  returned := h.returned
  counted := h.counted

theorem PollInv.cancel (h : PollInv s σ) {e : GoError} (hs : cancel σ e = some σ') : PollInv s σ' := by
  obtain ⟨a,ha,rfl⟩ := cancel_eq_some hs
  refine { h with active := fun a' ha' => ?_, counted := fun hn => by cases hn }
  cases ha'
  have hac := h.active a ha
  exact { hac with collected := hac.collected }

theorem ScannerState.updateDone_full {config : LogScannerConfig} {τ : ScannerState} (hp : 0 < config.rowLimit)
    (hf : config.rowLimit ≤ τ.delivered) : (τ.updateDone config).done = true := by
  simp [updateDone,hp,hf]

include h
/-- The stored offsets after an advance: the bucket of the last visit has moved on, unless Close has dropped them all. -/
theorem PollInv.advance_lookup (ha : σ.active = some a) {p : PendingAdvance}
    (hp : a.pending = some p) (bucket : Int) : (s.advanceOffset σ.scanner p).offset.lookup bucket =
      if σ.scanner.closed = false ∧ bucket = p.bucket then some p.next else σ.scanner.offset.lookup bucket := by
  obtain ⟨scan,_,rfl,_,hl⟩ := (h.active a ha).pending p hp
  simp only [advanceOffset,updateDone]
  cases hc : σ.scanner.closed with
  | false =>
    rw [if_pos (hl hc),lookup_insert_eq]
    simp
  | true =>
    rw [if_neg]
    · simp
    · rw [h.dropped hc]
      simp

private theorem PollInv.advance_active (ha : σ.active = some a) {p : PendingAdvance}
    (hp : a.pending = some p) : ActiveLaw s (s.advanceOffset σ.scanner p) σ.handedOut
      { a with queue := queueAfter (s.advanceOffset σ.scanner p) a.queue, pending := none } := by
  have hac := h.active a ha
  have had := h.advance_lookup ha hp
  have hq := queueAfter_sublist (s.advanceOffset σ.scanner p) a.queue
  obtain ⟨scan,hl,rfl,hsc,hlo⟩ := hac.pending p hp
  constructor
  · intro bucket offset hmem
    obtain ⟨hra,hst,hs⟩ := hac.queued bucket offset (hq.subset hmem)
    refine ⟨hra,hst,fun hcl => ?_⟩
    rw [had bucket,if_neg]
    · exact hs hcl
    · -- The queue has no bucket that was visited before.
      rintro ⟨_,rfl⟩
      have hd := (nodup_append.mp hac.distinct).2.2
      exact hd _ (mem_map_of_mem (mem_of_getLast? hl)) _ (mem_map_of_mem (hq.subset hmem)) rfl
  · exact hac.distinct.sublist ((hq.map _).append_left _)
  · intro hr
    unfold queueAfter at hr
    cases hdo : (s.advanceOffset σ.scanner ⟨scan.bucket,scan.offset,scan.take.next,scan.take.delivered⟩).done with
    | false => rfl
    | true => simp [hdo] at hr
  · exact hac.scans
  · exact ⟨hac.collected.records,hac.collected.arrows⟩
  · intro _ hn
    cases hn
  · have hc := hac.counted
    simp only [hp,map_some,getD_some,map_none,getD_none,advanceOffset,
      updateDone] at hc ⊢
    omega
  · exact hac.schema

theorem PollInv.advance (hs : s.advance σ = some σ') : PollInv s σ' := by
  obtain ⟨a,p,ha,hp,rfl⟩ := advance_eq_some hs
  have hac := h.active a ha
  have had := h.advance_lookup ha hp
  obtain ⟨scan,hla,rfl,hsca,hlo⟩ := hac.pending p hp
  have hmem := mem_of_getLast? hla
  have hsc := hac.scans scan hmem
  constructor
  · intro hc bucket
    rw [← h.keys hc,← lookup_isSome,← lookup_isSome]
    dsimp only
    rw [had bucket]
    split
    next hb =>
      rw [hb.2,hlo hc]
      rfl
    · exact Iff.rfl
  · intro hc
    have he := h.dropped hc
    simp only [advanceOffset,updateDone,he,lookup_empty]
    rw [if_neg (by simp)]
  · intro bucket offset ho
    dsimp only at ho
    rw [had bucket] at ho
    split at ho
    next hb =>
      cases ho
      have hst := h.range scan.bucket scan.offset (hlo hb.1)
      exact ⟨Int.le_trans hst.1 hsc.law.advances,hsc.owned.fits⟩
    · exact h.range bucket offset ho
  · intro _
    rfl
  · exact updateDone_full
  · intro hpo
    have hl := hsc.law.limited hpo
    rw [hsca] at hl
    exact hl
  · intro a' ha'
    cases ha'
    exact h.advance_active ha hp
  · exact h.returned
  · intro hn
    cases hn

theorem PollInv.step (hc : Created s created) (hst : StopsFit s) {e : PollEvent}
    (hg : Undisturbed σ e) (hs : s.step reader σ e = some σ') : PollInv s σ' := by
  cases e with
  | begin => exact h.begin hc hs
  | visit fetched resolver => exact h.visit hc hst hg hs
  | advance => exact h.advance hs
  | finish => exact h.finish hs
  | wakeup =>
    cases hs
    unfold wakeup
    split
    · exact h.wake true
    · exact h
  | close =>
    cases hs
    exact h.close
  | cancel e => exact h.cancel hs

omit h
/-- The start offsets are non-negative `int64` values. -/
def StartsFit (created : ScannerState) : Prop :=
  ∀ bucket offset, created.offset.lookup bucket = some offset → 0 ≤ offset ∧ offset ≤ maxInt64

theorem pollInv_init (hc : Created s created) (hs : StartsFit created) : PollInv s { scanner := created } where
  keys _ := hc.keys
  dropped hcl := by
    rw [hc.closed] at hcl
    cases hcl
  range := hs
  done _ := hc.done
  full hpositive hfull := by
    rw [← hc.done]
    exact updateDone_full hpositive hfull
  limited hpositive := by
    rw [hc.delivered]
    exact Int.le_of_lt hpositive
  active a ha := by cases ha
  returned ret hret := by cases hret
  counted _ := by
    rw [hc.delivered]
    rfl

theorem pollInv_reachable (hc : Created s created) (hsto : StopsFit s) (hst : StartsFit created)
    (hr : ((s.system reader created).guarded Undisturbed).Reachable σ) : PollInv s σ := by
  refine hr.invariant (P := PollInv s) ?_ ?_
  · rintro _ rfl
    exact pollInv_init hc hst
  · intro τ e τ' _ hinv hs
    exact hinv.step hc hsto hs.2 hs.1
end Steps
end FlussGo
