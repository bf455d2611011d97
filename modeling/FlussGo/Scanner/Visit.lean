import FlussGo.Scanner.Poll
import FlussGo.Scanner.Resume
import FlussGo.Scanner.Segments
/-!
# One visit of a bucket

What a visit decodes belongs to the bucket and lies one after the other from the fetched offset on. The
projection changes no offset, and the bounds then take the first of these records.
-/
namespace FlussGo
open Outcome List LogScanner ScanSegment FetchedLog
def ScanSegment.bucket : ScanSegment → Int
  | .row r => r.bucket
  | .arrow a => a.bucket
/-- An Arrow batch has a column for each column of the schema. -/
def ScanSegment.Wide (schema : Schema) : ScanSegment → Prop
  | .row _ => True
  | .arrow a => ∃ record, a.batch.record = some record ∧ record.columns.length = schema.columns.length

section Owned
variable {reader : ArrowReader} {table : Table} {bucket : Int}

private theorem evolveScanRecords_bucket {source target : Schema} {records evolved : List ScanRecord}
    (h : evolveScanRecords source target records = .ok evolved) (hr : ∀ r ∈ records, r.bucket = bucket) :
    ∀ r ∈ evolved, r.bucket = bucket := by
  induction records generalizing evolved with
  | nil =>
    cases h
    exact hr
  | cons r records ih =>
    obtain ⟨row,_,h⟩ := of_bind h
    obtain ⟨rest,hre,h⟩ := of_bind h
    cases h
    intro r' hr'
    rcases mem_cons.mp hr' with rfl | hr'
    · exact hr r mem_cons_self
    · exact ih hre (fun x hx => hr x (mem_cons_of_mem _ hx)) r' hr'

private theorem newRecordBatch_columns {schema : List ArrowField} {columns : List ArrowArray} {rows : Nat}
    {record : ArrowRecord}
    (h : newRecordBatch schema columns rows = .ok record) : record = ⟨schema,columns,rows⟩ ∧ columns.length = schema.length := by
  unfold newRecordBatch at h
  split at h
  · cases h
  next hl =>
    split at h
    · cases h
    · exact ⟨(ok.inj h).symm,not_not.mp hl⟩

private theorem evolveScanArrow_owned {source target : Schema} {arrow evolved : Option ScanArrowBatch}
    (h : evolveScanArrow source target arrow = .ok evolved) (har : ∀ a, arrow = some a → a.bucket = bucket)
    {a : ScanArrowBatch} (ha : evolved = some a) : a.bucket = bucket ∧ (ScanSegment.arrow a).Wide target := by
  cases arrow with
  | none =>
    cases h
    cases ha
  | some batch =>
    obtain ⟨result,hr,h⟩ := of_bind h
    cases h
    cases ha
    obtain ⟨mapping,_,hr⟩ := of_bind hr
    obtain ⟨fields,hf,hr⟩ := of_bind hr
    cases hre : batch.batch.record with
    | none =>
      rw [hre] at hr
      cases hr
    | some record =>
      rw [hre] at hr
      obtain ⟨columns,_,hr⟩ := of_bind hr
      obtain ⟨evolved,he,hr⟩ := of_bind hr
      cases hr
      obtain ⟨rfl,hl⟩ := newRecordBatch_columns he
      refine ⟨har batch rfl,_,rfl,?_⟩
      rw [hl,(Schema.arrowSchema_eq_ok hf).length_eq]

theorem decodeEvolvedFetchedBatch_owned {resolve : TablePath → Int → Except GoError Schema} {current : Int} {p : Bytes}
    {compacted : Bool} {r : BatchResult}
    (h : decodeEvolvedFetchedBatch reader resolve table bucket current p compacted = .ok r) :
    ∀ g ∈ r.segments, g.bucket = bucket ∧ g.Wide table.schema := by
  obtain ⟨_,schema,c,_,_,_,_,he⟩ := decodeEvolvedFetchedBatch_eq_ok h
  obtain ⟨rows,hro,he⟩ := of_bind he
  obtain ⟨arrow,har,he⟩ := of_bind he
  cases he
  intro g hg
  rcases mem_append.mp hg with hg | hg
  · obtain ⟨row,hrow,rfl⟩ := mem_map.mp hg
    refine ⟨evolveScanRecords_bucket hro (fun r hr => ?_) row hrow,trivial⟩
    cases c with
    | rows batch =>
      obtain ⟨_,_,rfl⟩ := mem_map.mp hr
      rfl
    | arrow batch record => cases hr
  · obtain ⟨a,ha,rfl⟩ := mem_map.mp hg
    refine evolveScanArrow_owned har (fun a' ha' => ?_) (Option.mem_toList.mp ha)
    cases c with
    | rows batch => cases ha'
    | arrow batch record =>
      simp only [BatchContent.trim] at ha'
      split at ha'
      · cases ha'
      · split at ha' <;> (obtain rfl := Option.some.inj ha'; rfl)

theorem decodeFetchedFetchResponse_owned {resolver : SchemaResolver} {offset : Int} {encoded : Bytes} {compacted : Bool}
    {fetched : FetchedLog}
    (h : decodeFetchedFetchResponseWithResolver reader resolver table bucket offset encoded compacted = .ok fetched) :
    ∀ g ∈ fetched.segments, g.bucket = bucket ∧ g.Wide table.schema := by
  apply decodeFetchedFetchResponse_induct
    (I := fun log => ∀ g ∈ log.segments, g.bucket = bucket ∧ g.Wide table.schema) _ (by simp [segments]) h
  intro k log p r hlog hr g hg
  have ho := decodeEvolvedFetchedBatch_owned hr
  simp only [segments,append,BatchResult.segments,map_append,mem_append] at hlog ho hg
  rcases hg with (hg | hg) | (hg | hg)
  · exact hlog g (.inl hg)
  · exact ho g (.inl hg)
  · exact hlog g (.inr hg)
  · exact ho g (.inr hg)
end Owned

def pickColumns (projection : List Nat) (row : Row) : Row := projection.map fun i => row.getD i .nil

def LogScanner.view (s : LogScanner) (e : LogEntry) : LogEntry :=
  if s.dynamic = true ∧ s.projection ≠ [] then { e with value := pickColumns s.projection e.value } else e
/-- The second segment is what the scanner returns of the first one. -/
structure SegmentView (s : LogScanner) (g g' : ScanSegment) : Prop where
  bucket : g'.bucket = g.bucket
  offset : g'.offset = g.offset
  entries : g'.entries = g.entries.map s.view

theorem SegmentView.count {s : LogScanner} {g g' : ScanSegment} (h : SegmentView s g g') : g'.count = g.count := by
  rw [← g'.entries_length,h.entries,length_map,g.entries_length]

section Projection
variable {s : LogScanner} {projection : List Nat}

private theorem projectValues_eq_ok {row projected : Row} (h : projectValues row projection = .ok projected) :
    projected = pickColumns projection row := by
  induction projection generalizing projected with
  | nil => exact (ok.inj h).symm
  | cons i projection ih =>
    rw [projectValues] at h
    split at h
    · cases h
    next v hv =>
      obtain ⟨vs,hvs,h⟩ := of_bind h
      cases h
      rw [ih hvs,pickColumns,pickColumns,map_cons,getD_eq_getElem?_getD,hv,Option.getD_some]

private theorem projectRows_views (hp : s.dynamic = true ∧ s.projection ≠ []) {rows projected : List ScanRecord}
    (h : projectRows s.projection rows = .ok projected) :
    List.Forall₂ (SegmentView s) (rows.map .row) (projected.map .row) := by
  induction rows generalizing projected with
  | nil =>
    cases h
    exact .nil
  | cons r rows ih =>
    obtain ⟨row,hrow,h⟩ := of_bind h
    obtain ⟨rest,hr,h⟩ := of_bind h
    cases h
    refine .cons ⟨rfl,rfl,?_⟩ (ih hr)
    obtain rfl := projectValues_eq_ok hrow
    simp only [entries,map_cons,map_nil,view,if_pos hp]
    rfl

private theorem projectColumnsOf_eq_ok {record : ArrowRecord} {columns : List ArrowArray}
    (h : projectColumnsOf record projection = .ok columns) (k : Nat) :
    columns.map (fun column => column.values.getD k .nil) = pickColumns projection (record.row k) := by
  induction projection generalizing columns with
  | nil =>
    cases h
    rfl
  | cons i projection ih =>
    rw [projectColumnsOf] at h
    split at h
    · simp at h
    rename_i column hc
    obtain ⟨rest,hr,h⟩ := of_bind h
    cases h
    rw [map_cons,ih hr,pickColumns,pickColumns,map_cons]
    congr 1
    simp [ArrowRecord.row,hc]

private theorem projectArrows_views (hp : s.dynamic = true ∧ s.projection ≠ []) {fields : List ArrowField}
    {arrows projected : List ScanArrowBatch} (h : projectArrows fields s.projection arrows = .ok projected) :
    List.Forall₂ (SegmentView s) (arrows.map .arrow) (projected.map .arrow) := by
  induction arrows generalizing projected with
  | nil =>
    cases h
    exact .nil
  | cons a arrows ih =>
    rw [projectArrows] at h
    split at h
    · cases h
    rename_i source hs
    obtain ⟨columns,hc,h⟩ := of_bind h
    obtain ⟨record,hr,h⟩ := of_bind h
    obtain ⟨rest,hre,h⟩ := of_bind h
    cases h
    obtain ⟨rfl,_⟩ := newRecordBatch_columns hr
    refine .cons ⟨rfl,rfl,?_⟩ (ih hre)
    simp only [entries,ArrowLogBatch.entries,hs,map_map]
    apply map_congr_left
    intro k _
    simp only [Function.comp_apply,view,if_pos hp,ArrowLogBatch.entry,LogEntry.mk.injEq,true_and]
    exact projectColumnsOf_eq_ok hc k

private theorem view_refl (hp : ¬ (s.dynamic = true ∧ s.projection ≠ [])) (segments : List ScanSegment) :
    List.Forall₂ (SegmentView s) segments segments := by
  apply List.forall₂_same.mpr
  intro g _
  refine ⟨rfl,rfl,?_⟩
  have hv : s.view = fun e => e := by
    funext e
    exact if_neg hp
  rw [hv,map_id']
/-- What `pollBucket` hands to the bounds: the decoded log as the scanner returns it. -/
structure DecodedBucket (s : LogScanner) (reader : ArrowReader) (resolver : SchemaResolver) (bucket offset : Int)
    (fetched : ScannerFetch) (log whole : FetchedLog) : Prop where
  decoded : decodeFetchedFetchResponseWithResolver reader (s.resolverFor resolver) s.target bucket offset fetched.records
    s.compacted = .ok whole
  next : filteredNext fetched offset whole.next = .ok log.next
  views : List.Forall₂ (SegmentView s) whole.segments log.segments
  schema : s.dynamic = true ∧ s.projection ≠ [] → ∃ fields, s.schema.arrowSchema = .ok fields

variable {reader : ArrowReader} {resolver : SchemaResolver} {bucket offset : Int} {fetched : ScannerFetch} {log : FetchedLog}

theorem LogScanner.decodeBucket_eq_ok (h : s.decodeBucket reader resolver bucket offset fetched = .ok log) :
    ∃ whole, DecodedBucket s reader resolver bucket offset fetched log whole := by
  unfold decodeBucket at h
  split at h
  · cases h
  · cases h
  rename_i whole hw
  refine ⟨whole,?_⟩
  split at h
  · cases h
  · cases h
  rename_i next hn
  split at h
  next hs =>
    cases h
    have hnot : ¬ (s.dynamic = true ∧ s.projection ≠ []) := fun hp => by simp [hs] at hp
    exact ⟨hw,hn,view_refl hnot _,fun hp => absurd hp hnot⟩
  next hd =>
    split at h
    next rows arrows hpr =>
      cases h
      obtain ⟨rows',hr,hpr⟩ := of_bind hpr
      obtain ⟨arrows',ha,hpr⟩ := of_bind hpr
      cases hpr
      by_cases he : s.projection = []
      · have hnot : ¬ (s.dynamic = true ∧ s.projection ≠ []) := fun hp => hp.2 he
        simp only [projectScanRows,projectScanArrows,he,isEmpty_nil,if_true] at hr ha
        cases hr
        cases ha
        exact ⟨hw,hn,view_refl hnot _,fun hp => absurd hp hnot⟩
      · have hp : s.dynamic = true ∧ s.projection ≠ [] := ⟨by simpa using hd,he⟩
        simp only [projectScanRows,projectScanArrows,List.isEmpty_iff,he,if_false] at hr ha
        obtain ⟨fields,hf,ha⟩ := of_bind ha
        exact ⟨hw,hn,rel_append (projectRows_views hp hr) (projectArrows_views hp ha),
          fun _ => ⟨fields,hf⟩⟩
    · cases h
    · cases h

private theorem projectValues_ne_err (row : Row) (projection : List Nat) (e : GoError) :
    projectValues row projection ≠ .err e := by
  induction projection with
  | nil => simp [projectValues]
  | cons i projection ih =>
    intro h
    rw [projectValues] at h
    split at h
    · cases h
    · rcases bind_eq_err.mp h with h | ⟨_,_,h⟩
      · exact ih h
      · cases h

theorem projectRows_ne_err (projection : List Nat) (rows : List ScanRecord) (e : GoError) :
    projectRows projection rows ≠ .err e := by
  induction rows with
  | nil => simp [projectRows]
  | cons r rows ih =>
    intro h
    rcases bind_eq_err.mp h with h | ⟨_,_,h⟩
    · exact projectValues_ne_err _ _ _ h
    · rcases bind_eq_err.mp h with h | ⟨_,_,h⟩
      · exact ih h
      · cases h

private theorem projectColumnsOf_ne_err {record : ArrowRecord} (h : ∀ i ∈ projection, i < record.columns.length)
    (e : GoError) : projectColumnsOf record projection ≠ .err e := by
  induction projection with
  | nil => simp [projectColumnsOf]
  | cons i projection ih =>
    intro herr
    rw [projectColumnsOf,getElem?_eq_getElem (h i mem_cons_self)] at herr
    rcases bind_eq_err.mp herr with herr | ⟨_,_,herr⟩
    · exact ih (fun j hj => h j (mem_cons_of_mem _ hj)) herr
    · cases herr

private theorem newRecordBatch_ne_err (schema : List ArrowField) (columns : List ArrowArray) (rows : Nat)
    (e : GoError) : newRecordBatch schema columns rows ≠ .err e := by
  unfold newRecordBatch
  split
  · simp
  · split <;> simp

private theorem projectArrows_ne_err {schema : Schema} (fields : List ArrowField)
    (hp : ∀ i ∈ projection, i < schema.columns.length) {arrows : List ScanArrowBatch}
    (ha : ∀ a ∈ arrows, (arrow a).Wide schema) (e : GoError) :
    projectArrows fields projection arrows ≠ .err e := by
  induction arrows with
  | nil => simp [projectArrows]
  | cons a arrows ih =>
    intro h
    obtain ⟨record,hr,hw⟩ := ha a mem_cons_self
    rw [projectArrows,hr] at h
    rcases bind_eq_err.mp h with h | ⟨_,_,h⟩
    · exact projectColumnsOf_ne_err (fun i hi => hw ▸ hp i hi) _ h
    rcases bind_eq_err.mp h with h | ⟨_,_,h⟩
    · exact newRecordBatch_ne_err _ _ _ _ h
    · rcases bind_eq_err.mp h with h | ⟨_,_,h⟩
      · exact ih (fun b hb => ha b (mem_cons_of_mem _ hb)) h
      · cases h
/-- A visit fails the whole `Poll` only when the projected columns have no Arrow schema. -/
theorem LogScanner.decodeBucket_poll (hpr : ∀ i ∈ s.projection, i < s.table.schema.columns.length) {e : GoError}
    (h : s.decodeBucket reader resolver bucket offset fetched = .err (.poll e)) :
    (s.dynamic = true ∧ s.projection ≠ []) ∧ ∀ fields, s.schema.arrowSchema ≠ .ok fields := by
  unfold decodeBucket at h
  split at h
  · cases h
  · cases h
  rename_i whole hw
  split at h
  · cases h
  · cases h
  split at h
  · cases h
  rename_i hd
  have hd : s.dynamic = true := by simpa using hd
  split at h
  · cases h
  next hp =>
    have ht : s.target = s.table := by simp [target,hd]
    by_cases he : s.projection = []
    · simp [projectScanRows,projectScanArrows,he] at hp
    refine ⟨⟨hd,he⟩,fun fields hf => ?_⟩
    simp only [projectScanRows,projectScanArrows,List.isEmpty_iff,he,if_false,hf,
      bind_ok] at hp
    rcases bind_eq_err.mp hp with herr | ⟨_,_,herr⟩
    · exact projectRows_ne_err _ _ _ herr
    rcases bind_eq_err.mp herr with herr | ⟨_,_,herr⟩
    · have ho := decodeFetchedFetchResponse_owned hw
      rw [ht] at ho
      refine projectArrows_ne_err fields hpr (fun a ha => ?_) _ herr
      exact (ho (.arrow a) (mem_append_right _ (mem_map_of_mem ha))).2
    · cases herr
  · cases h
end Projection

section Law
variable {s : LogScanner} {reader : ArrowReader} {resolver : SchemaResolver} {bucket offset scanned : Int}
  {fetched : ScannerFetch} {log whole : FetchedLog} {segments segments' : List ScanSegment}

private theorem Laid.of_views {low high : Int} (h : Laid low segments high)
    (hv : List.Forall₂ (SegmentView s) segments segments') : Laid low segments' high := by
  induction h generalizing segments' with
  | nil hle =>
    cases hv
    exact .nil hle
  | cons hlow hva _ ih =>
    cases hv with
    | cons hvi hv =>
      rename_i g _ _ g' _
      have hend : g'.offset + g'.count = g.offset + g.count := by rw [hvi.offset,hvi.count]
      refine .cons (hvi.offset ▸ hlow) ⟨hvi.count ▸ hva.positive,hend ▸ hva.fits⟩ ?_
      rw [hend]
      exact ih hv

theorem FetchedLog.inOrder_of_laid {low high : Int} (hp : log.segments.Perm segments)
    (h : Laid low segments high) : log.inOrder = segments.flatMap entries := by
  apply sortByKey_eq _ h.ascending
  rw [← segments_entries]
  exact hp.flatMap_right _

private theorem views_entries (h : List.Forall₂ (SegmentView s) segments segments') :
    segments'.flatMap entries = (segments.flatMap entries).map s.view := by
  induction h with
  | nil => rfl
  | cons hv _ ih => rw [flatMap_cons,flatMap_cons,map_append,hv.entries,ih]

private theorem views_bucket (h : List.Forall₂ (SegmentView s) segments segments')
    (ho : ∀ g ∈ segments, g.bucket = bucket) : ∀ g ∈ segments', g.bucket = bucket := by
  induction h with
  | nil => exact ho
  | cons hv _ ih =>
    intro g hg
    rcases mem_cons.mp hg with rfl | hg
    · exact hv.bucket.trans (ho _ mem_cons_self)
    · exact ih (fun g' hg' => ho g' (mem_cons_of_mem _ hg')) g hg

private theorem filteredNext_eq_ok {next next' : Int} (h : filteredNext fetched offset next = .ok next') :
    next ≤ next' ∧ (next ≤ maxInt64 → next' ≤ maxInt64) := by
  unfold filteredNext at h
  split at h
  · cases h
    exact ⟨Int.le_refl _,fun hle => hle⟩
  rename_i last _
  have h := (of_guard h).2
  cases h
  have hl : last.toInt ≤ 2 ^ (64 - 1) - 1 := BitVec.toInt_le
  unfold maxInt64
  split <;> omega
/-- The log of a bucket that a visit returns, as part of the decoded one. -/
structure BucketLog (s : LogScanner) (bucket offset : Int) (log whole : FetchedLog) : Prop where
  laid : ∃ segments, log.segments.Perm segments ∧ Laid offset segments log.next
  owned : ∀ g ∈ log.segments, g.bucket = bucket
  inOrder : log.inOrder = whole.inOrder.map s.view
  fits : offset ≤ maxInt64 → log.next ≤ maxInt64

theorem DecodedBucket.bucketLog (h : DecodedBucket s reader resolver bucket offset fetched log whole) :
    BucketLog s bucket offset log whole := by
  have hw := decodeFetchedFetchResponse_laid h.decoded
  obtain ⟨original,hp,hl⟩ := hw.laid
  obtain ⟨segments,hv,hp'⟩ := List.perm_comp_forall₂ hp.symm h.views
  have hn := filteredNext_eq_ok h.next
  have hl' := (hl.of_views hv).mono hn.1
  refine ⟨⟨segments,hp'.symm,hl'⟩,?_,?_,fun ho => hn.2 (hw.fits ho)⟩
  · exact views_bucket h.views fun g hg => (decodeFetchedFetchResponse_owned h.decoded g hg).1
  · rw [inOrder_of_laid hp'.symm hl',inOrder_of_laid hp hl,views_entries hv]
end Law

section Take
variable {b b' : BoundedScan} {segments : List ScanSegment}
/-- The records of a scan belong to its bucket, and its offset is an `int64`. -/
structure BoundedScan.Owned (b : BoundedScan) : Prop where
  rows : ∀ r ∈ b.rows, r.bucket = b.bucket
  arrows : ∀ a ∈ b.arrows, a.bucket = b.bucket
  fits : b.next ≤ maxInt64

theorem wrap64_le (n : Int) : wrap64 n ≤ maxInt64 := by
  have := Int.bmod_lt (x := n) (m := 2 ^ 64) (by decide)
  unfold wrap64 maxInt64
  omega

private theorem BoundedScan.Owned.appendRow (h : b.Owned) {r : ScanRecord} (hr : r.bucket = b.bucket) :
    (b.appendRow r).Owned ∧ (b.appendRow r).bucket = b.bucket := by
  unfold BoundedScan.appendRow
  split
  · exact ⟨h,rfl⟩
  refine ⟨⟨fun r' hr' => ?_,h.arrows,wrap64_le _⟩,rfl⟩
  rcases mem_append.mp hr' with hr' | hr'
  · exact h.rows r' hr'
  · rw [mem_singleton.mp hr']
    exact hr

private theorem BoundedScan.Owned.appendArrow (h : b.Owned) {a : ScanArrowBatch} (ha : a.bucket = b.bucket)
    (hb' : b.appendArrow a = .ok b') : b'.Owned ∧ b'.bucket = b.bucket := by
  obtain ⟨count,_,hb'⟩ := of_bind hb'
  dsimp only at hb'
  split at hb'
  · cases hb'
    exact ⟨h,rfl⟩
  cases hb'
  refine ⟨⟨h.rows,fun a' ha' => ?_,wrap64_le _⟩,rfl⟩
  rcases mem_append.mp ha' with ha' | ha'
  · exact h.arrows a' ha'
  · rw [mem_singleton.mp ha']
    split
    · exact ha
    · rfl

private theorem BoundedScan.Owned.appendSegments (h : b.Owned) (ho : ∀ g ∈ segments, g.bucket = b.bucket)
    (hb' : b.appendSegments segments = .ok b') : b'.Owned ∧ b'.bucket = b.bucket := by
  induction segments generalizing b with
  | nil =>
    cases hb'
    exact ⟨h,rfl⟩
  | cons g segments ih =>
    have hg := ho g mem_cons_self
    have hr : ∀ g' ∈ segments, g'.bucket = b.bucket := fun g' hg' => ho g' (mem_cons_of_mem _ hg')
    cases g with
    | row r =>
      obtain ⟨hn,hb⟩ := h.appendRow hg
      obtain ⟨hl,hs⟩ := ih hn (hb ▸ hr) hb'
      exact ⟨hl,hs.trans hb⟩
    | arrow a =>
      obtain ⟨b₁,hb₁,hb'⟩ := of_bind hb'
      obtain ⟨hn,hb⟩ := h.appendArrow hg hb₁
      obtain ⟨hl,hs⟩ := ih hn (hb ▸ hr) hb'
      exact ⟨hl,hs.trans hb⟩
/-- What a bucket contributes carries its ID. -/
structure BucketTake.Owned (bucket : Int) (t : BucketTake) : Prop where
  rows : ∀ r ∈ t.rows, r.bucket = bucket
  arrows : ∀ a ∈ t.arrows, a.bucket = bucket
  fits : t.next ≤ maxInt64

theorem applyBounds_owned {config : LogScannerConfig} {scanned bucket decodedNext : Int} {rows : List ScanRecord}
    {arrows : List ScanArrowBatch} {t : BucketTake} (h : applyBounds config scanned bucket rows arrows decodedNext = .ok t)
    (hro : ∀ r ∈ rows, r.bucket = bucket) (har : ∀ a ∈ arrows, a.bucket = bucket) (hf : decodedNext ≤ maxInt64) :
    t.Owned bucket := by
  unfold applyBounds at h
  split at h
  · obtain ⟨_,_,h⟩ := of_bind h
    cases h
    exact ⟨hro,har,hf⟩
  obtain ⟨bounded,hbo,h⟩ := of_bind h
  cases h
  have hst : BoundedScan.Owned ⟨bucket,(scanBounds config scanned bucket).2,(scanBounds config scanned bucket).1,0,
    decodedNext,[],[]⟩ := ⟨by simp,by simp,hf⟩
  have hs : ∀ g ∈ orderedScanSegments rows arrows, g.bucket = bucket := by
    intro g hg
    rcases mem_append.mp ((sortByKey_perm _ _).mem_iff.mp hg) with hg | hg
    · obtain ⟨r,hr,rfl⟩ := mem_map.mp hg
      exact hro r hr
    · obtain ⟨a,ha,rfl⟩ := mem_map.mp hg
      exact har a ha
  obtain ⟨ho,hb⟩ := hst.appendSegments hs hbo
  have hn := ho.fits
  refine ⟨fun r hr => (ho.rows r hr).trans hb,fun a ha => (ho.arrows a ha).trans hb,?_⟩
  dsimp only
  split <;> omega
end Take

theorem BucketLog.takes {s : LogScanner} {bucket offset scanned : Int} {log whole : FetchedLog}
    (h : BucketLog s bucket offset log whole) (ho : 0 ≤ offset ∧ offset ≤ maxInt64)
    (hli : 0 < s.config.rowLimit → scanned < s.config.rowLimit)
    (hs : ∀ stop, s.config.stop? bucket = some stop → offset < stop ∧ stop ≤ maxInt64) :
    ∃ t, applyBounds s.config scanned bucket log.rows log.arrows log.next = .ok t ∧
      TakeLaw s.config scanned bucket offset log.inOrder t ∧ t.Owned bucket := by
  obtain ⟨segments,hp,hl⟩ := h.laid
  obtain ⟨t,ht,hlaw⟩ := applyBounds_law hl hp ho hli hs
  refine ⟨t,ht,inOrder_of_laid hp hl ▸ hlaw,?_⟩
  have hrow : ∀ r ∈ log.rows, r.bucket = bucket := fun r hr =>
    h.owned (.row r) (mem_append_left _ (mem_map_of_mem hr))
  have har : ∀ a ∈ log.arrows, a.bucket = bucket := fun a ha =>
    h.owned (.arrow a) (mem_append_right _ (mem_map_of_mem ha))
  exact applyBounds_owned ht hrow har (h.fits ho.2)
end FlussGo
