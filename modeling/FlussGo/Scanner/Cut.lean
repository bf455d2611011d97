import FlussGo.Scanner.Bounds
import FlussGo.Scanner.Trim
/-!
# What the bounds take

The bounds take the first of the decoded records of a bucket, as many as the row limit and the stopping
offset allow, and continue right after the last one taken.
-/
namespace FlussGo
open Outcome List ScanSegment Option Int
def ScanSegment.count : ScanSegment → Nat
  | .row _ => 1
  | .arrow a => match a.batch.record with
    | none => 0
    | some record => record.numRows
/-- A segment has records, and their offsets do not overflow. -/
structure ScanSegment.Valid (s : ScanSegment) : Prop where
  positive : 0 < s.count
  fits : s.offset + s.count ≤ maxInt64
/-- Segments one after the other between two offsets. -/
inductive Laid : Int → List ScanSegment → Int → Prop
  | nil {low high : Int} : low ≤ high → Laid low [] high
  | cons {low high : Int} {s : ScanSegment} {segments : List ScanSegment} :
      low ≤ s.offset → s.Valid → Laid (s.offset + s.count) segments high → Laid low (s :: segments) high

section Segments
variable {s : ScanSegment} {segments : List ScanSegment} {low high : Int} {e : LogEntry}

theorem ScanSegment.entries_length (s : ScanSegment) : s.entries.length = s.count := by
  cases s with
  | row r => rfl
  | arrow a => cases h : a.batch.record <;> simp [entries,count,ArrowLogBatch.entries,h]

theorem ScanSegment.Valid.offset_eq (h : s.Valid) {i : Nat} (he : s.entries[i]? = some e) :
    e.offset = s.offset + i := by
  have hlt : i < s.count := s.entries_length ▸ (List.getElem?_eq_some_iff.mp he).1
  have hf := h.fits
  unfold maxInt64 at hf
  cases s with
  | row r =>
    obtain rfl : i = 0 := Nat.lt_one_iff.mp hlt
    cases he
    simp [Record.entry,offset]
  | arrow a =>
    cases hr : a.batch.record with
    | none => simp [count,hr] at hlt
    | some record =>
      simp only [entries,ArrowLogBatch.entries,hr,getElem?_map] at he
      obtain ⟨k,hk,rfl⟩ := map_eq_some_iff.mp he
      obtain ⟨_,rfl⟩ := List.getElem?_eq_some_iff.mp hk
      have hlow := BitVec.le_toInt a.batch.baseOffset
      simp only [offset] at hf ⊢
      rw [getElem_range,ArrowLogBatch.entry,BitVec.toInt_add,BitVec.toInt_ofNat',add_bmod_bmod,
        bmod_eq_of_le (by omega) (by omega)]

theorem ScanSegment.Valid.mem_offset (h : s.Valid) (he : e ∈ s.entries) :
    s.offset ≤ e.offset ∧ e.offset < s.offset + s.count := by
  obtain ⟨i,hi⟩ := mem_iff_getElem?.mp he
  have hlt : i < s.count := s.entries_length ▸ (List.getElem?_eq_some_iff.mp hi).1
  have := h.offset_eq hi
  omega

theorem ScanSegment.Valid.ascending (h : s.Valid) : Ascending LogEntry.offset s.entries := by
  rw [Ascending,pairwise_iff_getElem]
  intro i j hi hj hij
  rw [h.offset_eq (getElem?_eq_getElem hi),h.offset_eq (getElem?_eq_getElem hj)]
  omega

variable (h : Laid low segments high)
include h

theorem Laid.le : low ≤ high := by
  induction h with
  | nil hle => exact hle
  | cons hle hv _ ih =>
    omega

theorem Laid.mem_offset (he : e ∈ segments.flatMap entries) : low ≤ e.offset ∧ e.offset < high := by
  induction h with
  | nil => simp at he
  | cons hle hv hr ih =>
    have hh := hr.le
    rcases mem_append.mp (flatMap_cons ▸ he) with he | he
    · have := hv.mem_offset he
      omega
    · have := ih he
      omega

theorem Laid.ascending : Ascending LogEntry.offset (segments.flatMap entries) := by
  induction h with
  | nil => exact .nil
  | cons _ hv hr ih =>
    rw [Ascending,flatMap_cons,pairwise_append]
    refine ⟨hv.ascending,ih,fun e he e' he' => ?_⟩
    have := (hv.mem_offset he).2
    have := (hr.mem_offset he').1
    omega

theorem Laid.segments_ascending : Ascending offset segments ∧ ∀ s ∈ segments, low ≤ s.offset := by
  induction h with
  | nil => exact ⟨.nil,by simp⟩
  | cons hle hv _ ih =>
    have hp := hv.positive
    refine ⟨.cons (fun t ht => ?_) ih.1,fun t ht => ?_⟩
    · have := ih.2 t ht
      omega
    · rcases mem_cons.mp ht with rfl | ht
      · exact hle
      · have := ih.2 t ht
        omega

theorem Laid.valid (hs : s ∈ segments) : s.Valid := by
  induction h with
  | nil => simp at hs
  | cons _ hv _ ih =>
    rcases mem_cons.mp hs with rfl | hs
    · exact hv
    · exact ih hs

theorem Laid.mono {high' : Int} (hle : high ≤ high') : Laid low segments high' := by
  induction h with
  | nil hlow => exact .nil (le_trans hlow hle)
  | cons hlow hv _ ih => exact .cons hlow hv (ih hle)

omit h

theorem Laid.append {middle : Int} {more : List ScanSegment} (h : Laid low segments middle)
    (h' : Laid middle more high) : Laid low (segments ++ more) high := by
  induction h with
  | nil hle =>
    cases h' with
    | nil hle' => exact .nil (le_trans hle hle')
    | cons hlow hv hr => exact .cons (le_trans hle hlow) hv hr
  | cons hlow hv _ ih => exact .cons hlow hv (ih h')
end Segments
/-- The records that the bounds keep of a sequence. -/
def cut (remaining stop : Int) (es : List LogEntry) : List LogEntry :=
  (es.filter fun e => decide (e.offset < stop)).take remaining.toNat

def BoundedScan.entries (b : BoundedScan) : List LogEntry :=
  b.rows.map (·.record.entry) ++ b.arrows.flatMap (·.batch.entries)
/-- The scan has gone on by the records `taken`. -/
structure BoundedScan.Takes (b b' : BoundedScan) (taken : List LogEntry) : Prop where
  bucket : b'.bucket = b.bucket
  stop : b'.stop = b.stop
  remaining : b'.remaining = b.remaining - taken.length
  delivered : b'.delivered = b.delivered + taken.length
  entries : b'.entries.Perm (b.entries ++ taken)
  next : b'.next = (taken.getLast?.map (·.offset + 1)).getD b.next

theorem BoundedScan.Takes.refl (b : BoundedScan) : b.Takes b [] := ⟨rfl,rfl,by simp,by simp,by simp,rfl⟩

theorem BoundedScan.Takes.trans {b b' b'' : BoundedScan} {taken more : List LogEntry} (h : b.Takes b' taken)
    (h' : b'.Takes b'' more) : b.Takes b'' (taken ++ more) where
  bucket := h'.bucket.trans h.bucket
  stop := h'.stop.trans h.stop
  remaining := by
    rw [h'.remaining,h.remaining,length_append]
    push_cast
    omega
  delivered := by
    rw [h'.delivered,h.delivered,length_append]
    push_cast
    omega
  entries := by
    rw [← append_assoc]
    exact h'.entries.trans (h.entries.append_right more)
  next := by
    rw [h'.next,h.next,getLast?_append]
    cases more.getLast? <;> rfl

section Step
variable {b : BoundedScan} {s : ScanSegment}

open BoundedScan
theorem BoundedScan.appendRow_takes {r : ScanRecord} (hv : (ScanSegment.row r).Valid) :
    b.Takes (b.appendRow r) (cut b.remaining b.stop (ScanSegment.row r).entries) := by
  have ho : r.record.entry.offset = r.record.offset.toInt := rfl
  have hf : r.record.offset.toInt + 1 ≤ maxInt64 := by simpa [ScanSegment.offset,ScanSegment.count] using hv.fits
  have hlow := BitVec.le_toInt r.record.offset
  unfold appendRow
  split
  next hs =>
    have hn : cut b.remaining b.stop (ScanSegment.row r).entries = [] := by
      rcases hs with hz | hst
      · simp [cut,toNat_of_nonpos hz]
      · simp [cut,ScanSegment.entries,ho,hst]
    rw [hn]
    exact .refl b
  next hk =>
    rw [not_or] at hk
    have hone : cut b.remaining b.stop (ScanSegment.row r).entries = [r.record.entry] := by
      have hpos : 1 ≤ b.remaining.toNat := by omega
      simp [cut,ScanSegment.entries,ho,not_le.mp hk.2,take_of_length_le,hpos]
    rw [hone]
    refine ⟨rfl,rfl,rfl,rfl,?_,?_⟩
    · simp only [entries,map_append,map_cons,map_nil,append_assoc]
      exact List.Perm.append_left _ perm_append_comm
    · simpa [ho] using wrap64_eq (by omega) hf

theorem sliceArrowLogBatch_take {batch : ArrowLogBatch} {record : ArrowRecord} (hr : batch.record = some record)
    {stop : Nat} (hle : stop ≤ record.numRows) : (sliceArrowLogBatch batch 0 stop).entries = batch.entries.take stop := by
  have hs : (sliceArrowLogBatch batch 0 stop).record = some (record.newSlice 0 stop) := by
    simp [sliceArrowLogBatch,hr]
  rw [ArrowLogBatch.entries,ArrowLogBatch.entries,hs,hr]
  apply ext_getElem
  · simp [ArrowRecord.newSlice,hle]
  · intro i hi hi'
    simp only [ArrowRecord.newSlice,length_map,length_range] at hi
    rw [getElem_map,getElem_take,getElem_map,getElem_range,getElem_range]
    simpa using sliceArrowLogBatch_entry batch record (show 0 + i < stop by omega)

theorem ScanSegment.Valid.filter_lt (h : s.Valid) (stop : Int) :
    s.entries.filter (fun e => decide (e.offset < stop)) = s.entries.take (stop - s.offset).toNat := by
  have hs := take_append_drop (stop - s.offset).toNat s.entries
  have hb : (s.entries.take (stop - s.offset).toNat).filter (fun e => decide (e.offset < stop)) =
      s.entries.take (stop - s.offset).toNat := by
    rw [filter_eq_self]
    intro e he
    obtain ⟨i,hi⟩ := mem_iff_getElem?.mp he
    have hlt := (List.getElem?_eq_some_iff.mp hi).1
    rw [length_take] at hlt
    rw [getElem?_take_of_lt (by omega)] at hi
    have := h.offset_eq hi
    simp only [decide_eq_true_eq]
    omega
  have ha : (s.entries.drop (stop - s.offset).toNat).filter (fun e => decide (e.offset < stop)) = [] := by
    rw [filter_eq_nil_iff]
    intro e he
    obtain ⟨i,hi⟩ := mem_iff_getElem?.mp he
    rw [getElem?_drop] at hi
    have := h.offset_eq hi
    simp only [decide_eq_true_eq]
    omega
  calc s.entries.filter (fun e => decide (e.offset < stop))
      = (s.entries.take (stop - s.offset).toNat ++ s.entries.drop (stop - s.offset).toNat).filter
          (fun e => decide (e.offset < stop)) := by rw [hs]
    _ = s.entries.take (stop - s.offset).toNat := by rw [filter_append,hb,ha,append_nil]

theorem BoundedScan.allowed_eq {offset count : Int} (ho : 0 ≤ offset) (hf : offset + count ≤ maxInt64)
    (hc : 0 ≤ count)
    (hs : 0 ≤ b.stop ∧ b.stop ≤ maxInt64) : b.allowed offset count = min b.remaining (min (b.stop - offset) count) := by
  have hw : wrap64 (b.stop - offset) = b.stop - offset := wrap64_eq (by unfold maxInt64 at *; omega) (by omega)
  unfold allowed
  simp only [hw]
  split <;> split <;> omega

theorem BoundedScan.appendArrow_takes {a : ScanArrowBatch} (hv : (ScanSegment.arrow a).Valid)
    (ho : 0 ≤ (ScanSegment.arrow a).offset) (hs : 0 ≤ b.stop ∧ b.stop ≤ maxInt64) :
    ∃ b', b.appendArrow a = .ok b' ∧ b.Takes b' (cut b.remaining b.stop (ScanSegment.arrow a).entries) := by
  cases hr : a.batch.record with
  | none =>
    have := hv.positive
    simp [ScanSegment.count,hr] at this
  | some record =>
    have hro : a.batch.numRows = .ok record.numRows := by rw [ArrowLogBatch.numRows,hr]
    have hf : a.batch.baseOffset.toInt + record.numRows ≤ maxInt64 := by
      simpa [ScanSegment.offset,ScanSegment.count,hr] using hv.fits
    have hp : 0 < record.numRows := by simpa [ScanSegment.count,hr] using hv.positive
    have hl : a.batch.entries.length = record.numRows := by simp [ArrowLogBatch.entries,hr]
    have ha := @allowed_eq b a.batch.baseOffset.toInt record.numRows ho hf (by omega) hs
    have hta : cut b.remaining b.stop (ScanSegment.arrow a).entries =
        a.batch.entries.take (b.allowed a.batch.baseOffset.toInt record.numRows).toNat := by
      rw [cut,hv.filter_lt,take_take,ha]
      simp only [ScanSegment.entries,ScanSegment.offset]
      by_cases hle : (b.stop - a.batch.baseOffset.toInt) ≤ record.numRows
      · congr 1
        omega
      · rw [take_eq_take_iff,hl]
        omega
    rw [appendArrow,hro,bind_ok,hta]
    generalize hn : b.allowed a.batch.baseOffset.toInt record.numRows = allowed at *
    dsimp only
    rw [hn]
    split
    next hz => exact ⟨b,rfl,by rw [toNat_of_nonpos hz,take_zero]; exact .refl b⟩
    rename_i hpos
    have hle : allowed ≤ record.numRows := by omega
    have ht : (a.batch.entries.take allowed.toNat).length = allowed.toNat := by
      rw [length_take]
      omega
    have hk : (if allowed = (record.numRows : Int) then a else
        (⟨b.bucket,sliceArrowLogBatch a.batch 0 allowed.toNat⟩ : ScanArrowBatch)).batch.entries =
          a.batch.entries.take allowed.toNat := by
      split
      · rw [take_of_length_le (by omega)]
      · exact sliceArrowLogBatch_take hr (by omega)
    refine ⟨_,rfl,rfl,rfl,?_,?_,?_,?_⟩
    · rw [ht]
      simp only
      omega
    · rw [ht]
      simp only
      omega
    · simp only [entries,flatMap_append,flatMap_cons,flatMap_nil,append_nil,hk,
        append_assoc]
      exact .refl _
    have hla : (a.batch.entries.take allowed.toNat).getLast?.map (·.offset + 1) =
        some (a.batch.baseOffset.toInt + allowed) := by
      have hlt : allowed.toNat - 1 < a.batch.entries.length := by omega
      rw [getLast?_eq_getElem?,ht,getElem?_take_of_lt (by omega),getElem?_eq_getElem hlt,
        map_some]
      have := hv.offset_eq (show (ScanSegment.arrow a).entries[allowed.toNat - 1]? = _ from getElem?_eq_getElem hlt)
      rw [this]
      simp only [ScanSegment.offset]
      congr 1
      omega
    have hb : 0 ≤ a.batch.baseOffset.toInt := ho
    rw [hla]
    exact wrap64_eq (by omega) (by omega)
end Step

theorem cut_append (remaining stop : Int) (es es' : List LogEntry) : cut remaining stop (es ++ es') =
      cut remaining stop es ++ cut (remaining - (cut remaining stop es).length) stop es' := by
  rw [cut,cut,cut,filter_append,take_append,length_take]
  congr 2
  omega

theorem BoundedScan.appendSegments_takes {b : BoundedScan} {segments : List ScanSegment} {low high : Int}
    (h : Laid low segments high) (hlow : 0 ≤ low) (hs : 0 ≤ b.stop ∧ b.stop ≤ maxInt64) :
    ∃ b', b.appendSegments segments = .ok b' ∧ b.Takes b' (cut b.remaining b.stop (segments.flatMap ScanSegment.entries)) := by
  induction h generalizing b with
  | nil => exact ⟨b,rfl,by simpa [cut] using BoundedScan.Takes.refl b⟩
  | @cons low high s segments hle hv _ ih =>
    obtain ⟨b₁,hb₁,ht⟩ : ∃ b₁, b.appendSegments (s :: segments) = b₁.appendSegments segments ∧
        b.Takes b₁ (cut b.remaining b.stop s.entries) := by
      cases s with
      | row r => exact ⟨_,rfl,appendRow_takes hv⟩
      | arrow a =>
        obtain ⟨b₁,hb₁,ht⟩ := appendArrow_takes hv (by omega) hs
        exact ⟨b₁,by rw [appendSegments,hb₁,bind_ok],ht⟩
    obtain ⟨b',hb',ht'⟩ := @ih b₁ (by omega) (ht.stop.symm ▸ hs)
    refine ⟨b',hb₁.trans hb',?_⟩
    rw [flatMap_cons,cut_append,← ht.remaining]
    rw [ht.stop] at ht'
    exact ht.trans ht'
/-- The records of a bucket's share in the order of their offsets. -/
def BucketTake.inOrder (t : BucketTake) : List LogEntry :=
  sortByKey LogEntry.offset (t.rows.map (·.record.entry) ++ t.arrows.flatMap (·.batch.entries))
/-- What the bounds may do with the decoded records of one bucket that is read from an offset. -/
structure TakeLaw (config : LogScannerConfig) (scanned bucket offset : Int) (decoded : List LogEntry) (t : BucketTake) : Prop where
  initial : t.inOrder <+: decoded
  delivered : t.delivered = t.inOrder.length
  limited : 0 < config.rowLimit → scanned + t.delivered ≤ config.rowLimit
  stopped : ∀ stop, config.stop? bucket = some stop → (∀ e ∈ t.inOrder, e.offset < stop) ∧ t.next ≤ stop
  advances : offset ≤ t.next
  below : ∀ e ∈ t.inOrder, e.offset < t.next
  complete : ∀ e ∈ decoded, (∀ stop, config.stop? bucket = some stop → e.offset < stop) → e.offset < t.next → e ∈ t.inOrder

section Bounds
variable {segments : List ScanSegment} {low high : Int} {rows : List ScanRecord} {arrows : List ScanArrowBatch}
  {es : List LogEntry} {e : LogEntry}

theorem segments_entries (rows : List ScanRecord) (arrows : List ScanArrowBatch) :
    (rows.map row ++ arrows.map arrow).flatMap entries =
      rows.map (·.record.entry) ++ arrows.flatMap (·.batch.entries) := by
  rw [flatMap_append]
  congr 1
  · induction rows with
    | nil => rfl
    | cons r rows ih => simp [ih,entries]
  · induction arrows with
    | nil => rfl
    | cons a arrows ih => simp [ih,entries]

theorem scanResultRows_eq (h : ∀ a ∈ arrows, a.batch.record.isSome) :
    scanResultRows rows arrows = .ok ((rows.map (·.record.entry) ++ arrows.flatMap (·.batch.entries)).length : Nat) := by
  induction arrows with
  | nil => simp [scanResultRows]
  | cons a arrows ih =>
    obtain ⟨record,hr⟩ := isSome_iff_exists.mp (h a mem_cons_self)
    rw [scanResultRows,ArrowLogBatch.numRows,hr]
    rw [bind_ok,ih fun b hb => h b (mem_cons_of_mem _ hb),bind_ok]
    simp only [pure_eq,ok.injEq,length_append,flatMap_cons,ArrowLogBatch.entries,hr,
      length_map,length_range]
    push_cast
    omega

theorem cut_prefix (h : Ascending LogEntry.offset es) (remaining stop : Int) : cut remaining stop es <+: es := by
  refine ( take_prefix _ _).trans ?_
  induction es with
  | nil => simp
  | cons e es ih =>
    obtain ⟨hh,ht⟩ := pairwise_cons.mp h
    by_cases hlt : e.offset < stop
    · rw [filter_cons_of_pos (by simpa using hlt)]
      exact cons_prefix_cons.mpr ⟨rfl,ih ht⟩
    have hnil : (e :: es).filter (fun e => decide (e.offset < stop)) = [] := by
      rw [filter_eq_nil_iff]
      intro e' he'
      simp only [decide_eq_true_eq]
      rcases mem_cons.mp he' with rfl | he'
      · exact hlt
      · have := hh e' he'
        omega
    rw [hnil]
    exact nil_prefix

theorem mem_cut {remaining stop : Int} (h : e ∈ cut remaining stop es) : e ∈ es ∧ e.offset < stop := by
  have := mem_filter.mp (mem_of_mem_take h)
  exact ⟨this.1,by simpa using this.2⟩

theorem cut_length_le (remaining stop : Int) (es : List LogEntry) : (cut remaining stop es).length ≤ remaining.toNat :=
  length_take_le _ _
/-- Where something was taken, everything before the last record that was taken is taken too. -/
theorem mem_cut_of_le {remaining stop : Int} (h : Ascending LogEntry.offset es) {last : LogEntry}
    (hl : (cut remaining stop es).getLast? = some last) (he : e ∈ es) (hs : e.offset < stop) (hle : e.offset ≤ last.offset) :
    e ∈ cut remaining stop es := by
  have hf : Ascending LogEntry.offset (es.filter fun e => decide (e.offset < stop)) := List.Pairwise.filter _ h
  have hmem : e ∈ es.filter fun e => decide (e.offset < stop) := mem_filter.mpr ⟨he,by simpa using hs⟩
  rw [← take_append_drop remaining.toNat (es.filter _)] at hmem
  rcases mem_append.mp hmem with ht | hd
  · exact ht
  · rw [Ascending,← take_append_drop remaining.toNat (es.filter _),pairwise_append] at hf
    have := hf.2.2 last (mem_of_getLast? hl) e hd
    omega

theorem Laid.lt_maxInt64 (h : Laid low segments high) (he : e ∈ segments.flatMap entries) :
    e.offset < maxInt64 := by
  induction h with
  | nil => simp at he
  | cons _ hv _ ih =>
    rcases mem_append.mp (flatMap_cons ▸ he) with he | he
    · have := hv.mem_offset he
      have := hv.fits
      omega
    · exact ih he

variable {config : LogScannerConfig} {scanned bucket offset decodedNext : Int}

private theorem applyBounds_unbounded (hl : Laid offset segments decodedNext)
    (hpe : (rows.map row ++ arrows.map arrow).Perm segments)
    (hu : config.rowLimit = 0 ∧ config.stoppingOffsets.isNone) :
    ∃ t, applyBounds config scanned bucket rows arrows decodedNext = .ok t ∧
      TakeLaw config scanned bucket offset (segments.flatMap entries) t := by
  have hen := segments_entries rows arrows ▸ hpe.flatMap_right entries
  have hs : ∀ a ∈ arrows, a.batch.record.isSome := by
    intro a ha
    have hmem : arrow a ∈ segments := hpe.mem_iff.mp (mem_append_right _ (mem_map_of_mem ha))
    have hp := (hl.valid hmem).positive
    cases hr : a.batch.record with
    | none => simp [ScanSegment.count,hr] at hp
    | some record => rfl
  have hn : ∀ stop, config.stop? bucket ≠ some stop := by
    intro stop
    simp [LogScannerConfig.stop?,isNone_iff_eq_none.mp hu.2]
  have hi : ∀ delivered, BucketTake.inOrder ⟨rows,arrows,delivered,decodedNext⟩ = segments.flatMap entries :=
    fun _ => sortByKey_eq hen hl.ascending
  rw [applyBounds,if_pos hu,scanResultRows_eq hs]
  refine ⟨_,rfl,?_,?_,?_,?_,hl.le,?_,?_⟩
  · rw [hi]
  · rw [hi,hen.length_eq]
  · intro hli
    omega
  · intro stop hst
    exact absurd hst (hn stop)
  · intro e he
    rw [hi] at he
    exact (hl.mem_offset he).2
  · intro e he _ _
    rw [hi]
    exact he

private theorem applyBounds_bounded (hla : Laid offset segments decodedNext)
    (hpe : (rows.map ScanSegment.row ++ arrows.map ScanSegment.arrow).Perm segments)
    (hof : 0 ≤ offset ∧ offset ≤ maxInt64) (hli : 0 < config.rowLimit → scanned < config.rowLimit)
    (hstop : ∀ stop, config.stop? bucket = some stop → offset < stop ∧ stop ≤ maxInt64)
    (hb : ¬ (config.rowLimit = 0 ∧ config.stoppingOffsets.isNone)) :
    ∃ t, applyBounds config scanned bucket rows arrows decodedNext = .ok t ∧
      TakeLaw config scanned bucket offset (segments.flatMap ScanSegment.entries) t := by
  have ho : orderedScanSegments rows arrows = segments := sortByKey_eq hpe hla.segments_ascending.1
  rw [applyBounds,if_neg hb,ho]
  generalize hbo : scanBounds config scanned bucket = bounds
  obtain ⟨remaining,stop⟩ := bounds
  obtain ⟨hr,hstopE⟩ := Prod.mk.inj hbo
  have hre : 0 < remaining := by
    rw [← hr]
    split
    · have := hli (by omega)
      omega
    · decide
  have hst : config.stop? bucket = some stop ∨ (∀ s, config.stop? bucket ≠ some s) ∧ stop = maxInt64 := by
    rw [← hstopE]
    cases config.stop? bucket <;> simp
  have hsto : 0 ≤ stop ∧ stop ≤ maxInt64 ∧ offset ≤ stop := by
    rcases hst with hso | ⟨_,rfl⟩
    · have := hstop stop hso
      omega
    · omega
  obtain ⟨b',hb',hta⟩ := @BoundedScan.appendSegments_takes
    { bucket := bucket, stop := stop, remaining := remaining, next := decodedNext } _ _ _ hla hof.1
    ⟨hsto.1,hsto.2.1⟩
  dsimp only at hta ⊢
  rw [hb',bind_ok]
  generalize ht : cut remaining stop (segments.flatMap ScanSegment.entries) = taken at hta
  have ha := hla.ascending
  have hp : taken <+: segments.flatMap ScanSegment.entries := ht ▸ cut_prefix ha remaining stop
  have hi : ∀ delivered next, BucketTake.inOrder ⟨b'.rows,b'.arrows,delivered,next⟩ = taken :=
    fun _ _ => sortByKey_eq hta.entries (Ascending.sublist ha hp.sublist)
  have hlas : ∀ last, taken.getLast? = some last → offset ≤ last.offset ∧ last.offset < stop ∧ b'.next = last.offset + 1 := by
    intro last hl
    have hmem := mem_cut (ht ▸ mem_of_getLast? hl)
    refine ⟨(hla.mem_offset hmem.1).1,hmem.2,?_⟩
    rw [hta.next,hl]
    rfl
  refine ⟨_,rfl,?_,?_,?_,?_,?_,?_,?_⟩
  · rw [hi]
    exact hp
  · rw [hi,hta.delivered]
    simp
  · intro hpos
    have hlen := cut_length_le remaining stop (segments.flatMap ScanSegment.entries)
    rw [ht] at hlen
    simp only [hta.delivered]
    omega
  · intro s hs
    obtain rfl : s = stop := by
      rcases hst with hso | ⟨hno,_⟩
      · exact some.inj (hs.symm.trans hso)
      · exact absurd hs (hno s)
    refine ⟨fun e he => ?_,?_⟩
    · rw [hi,← ht] at he
      exact (mem_cut he).2
    · dsimp only
      split <;> omega
  · dsimp only
    cases hl : taken.getLast? with
    | none =>
      have hn : b'.next = decodedNext := by rw [hta.next,hl]; rfl
      have := hla.le
      split <;> omega
    | some last =>
      have := hlas last hl
      split <;> omega
  · intro e he
    rw [hi] at he
    dsimp only
    obtain ⟨last,hl⟩ := getLast?_isSome.mpr (ne_nil_of_mem he) |> isSome_iff_exists.mp
    have hle := Ascending.le_getLast (Ascending.sublist ha hp.sublist) hl he
    have := hlas last hl
    split <;> omega
  · intro e he hbe hn
    rw [hi,← ht]
    have hes : e.offset < stop := by
      rcases hst with hso | ⟨_,rfl⟩
      · exact hbe stop hso
      · exact hla.lt_maxInt64 he
    cases hl : taken.getLast? with
    | none =>
      -- Nothing was taken although the limit was not used up: nothing lies below the stopping offset.
      have hnil := getLast?_eq_none_iff.mp hl
      rw [hnil] at ht
      rcases take_eq_nil_iff.mp ht with hz | hem
      · omega
      · have := filter_eq_nil_iff.mp hem e he
        simp only [decide_eq_true_eq] at this
        exact absurd hes this
    | some last =>
      have hlastN := hlas last hl
      refine mem_cut_of_le ha (ht ▸ hl) he hes ?_
      dsimp only at hn
      split at hn <;> omega
/-- The bounds take an initial part of the decoded records and continue right after it. -/
theorem applyBounds_law (hl : Laid offset segments decodedNext)
    (hp : (rows.map row ++ arrows.map arrow).Perm segments)
    (ho : 0 ≤ offset ∧ offset ≤ maxInt64) (hli : 0 < config.rowLimit → scanned < config.rowLimit)
    (hs : ∀ stop, config.stop? bucket = some stop → offset < stop ∧ stop ≤ maxInt64) :
    ∃ t, applyBounds config scanned bucket rows arrows decodedNext = .ok t ∧
      TakeLaw config scanned bucket offset (segments.flatMap entries) t := by
  by_cases hb : config.rowLimit = 0 ∧ config.stoppingOffsets.isNone
  · exact applyBounds_unbounded hl hp hb
  · exact applyBounds_bounded hl hp ho hli hs hb
end Bounds
end FlussGo
