import FlussGo.Scanner.Cut
/-!
# The latest records of a bucket

A limit scan keeps the records with the highest offsets. The loop counts the others off in the order of the
segments, and the count may end inside an Arrow batch.
-/
namespace FlussGo
open Outcome List ScanSegment
def limitLatestSegments (skip : Int) : List ScanSegment → Go (List ScanRecord × List ScanArrowBatch)
  | [] => .ok ([], [])
  | .row r :: segments =>
    if 0 < skip then limitLatestSegments (skip - 1) segments
    else do
      let (rows, arrows) ← limitLatestSegments skip segments
      return (r :: rows, arrows)
  | .arrow a :: segments => do
    let count ← a.batch.numRows
    if count ≤ skip then limitLatestSegments (skip - count) segments
    else if 0 < skip then do
      let (rows, arrows) ← limitLatestSegments 0 segments
      return (rows, { a with batch := sliceArrowLogBatch a.batch skip.toNat count } :: arrows)
    else do
      let (rows, arrows) ← limitLatestSegments skip segments
      return (rows, a :: arrows)

def limitLatestLogRecords (rows : List ScanRecord) (arrows : List ScanArrowBatch) (limit : Int) :
    Go (List ScanRecord × List ScanArrowBatch) := do
  let total ← scanResultRows rows arrows
  if total - limit ≤ 0 then return (rows, arrows)
  else limitLatestSegments (total - limit) (orderedScanSegments rows arrows)
/-- A decoded segment: an Arrow batch has a record with one change for each row, and no offset overflows. -/
structure ScanSegment.Decoded (s : ScanSegment) : Prop where
  whole : ∀ a, s = .arrow a → ∃ record, a.batch.record = some record ∧ a.batch.changes.length = record.numRows
  fits : OffsetsFit s.offset s.count
/-- The `n` records with the highest offsets, each once. -/
def Latest (n : Nat) (es kept : List LogEntry) : Prop := ∃ dropped, (dropped ++ kept).Perm es ∧
  kept.length = min n es.length ∧ ∀ d ∈ dropped, ∀ e ∈ kept, d.offset < e.offset

def scanEntries (rows : List ScanRecord) (arrows : List ScanArrowBatch) : List LogEntry :=
  rows.map (·.record.entry) ++ arrows.flatMap (·.batch.entries)
/-- The rows, and the Arrow batches, each in increasing offset order. -/
def EachAscending (rows : List ScanRecord) (arrows : List ScanArrowBatch) : Prop :=
  Ascending LogEntry.offset (rows.map (·.record.entry)) ∧ Ascending LogEntry.offset (arrows.flatMap (·.batch.entries))

section Order
variable {s : ScanSegment} {segments : List ScanSegment}

theorem ScanSegment.Decoded.valid {e : LogEntry} (h : s.Decoded) (he : e ∈ s.entries) : s.Valid := by
  have hp : 0 < s.count := s.entries_length ▸ length_pos_of_mem he
  exact ⟨hp,h.fits.resolve_left (by omega)⟩

theorem ScanSegment.Valid.offset_mem (h : s.Valid) {offset : Int} (hl : s.offset ≤ offset)
    (hu : offset < s.offset + s.count) : offset ∈ s.entries.map LogEntry.offset := by
  have hi : (offset - s.offset).toNat < s.entries.length := by
    rw [s.entries_length]
    omega
  refine mem_map.mpr ⟨_,getElem_mem hi,?_⟩
  rw [h.offset_eq (getElem?_eq_getElem hi)]
  omega

theorem ScanSegment.Decoded.ascending (h : s.Decoded) : Ascending LogEntry.offset s.entries := by
  cases hs : s.entries with
  | nil => exact .nil
  | cons e es => exact hs ▸ (h.valid (e := e) (by simp [hs])).ascending
/-- Records of their own, in segments sorted by their first offsets, are sorted. -/
theorem entries_ascending (hd : ∀ s ∈ segments, s.Decoded) (hs : segments.Pairwise fun s t => s.offset ≤ t.offset)
    (hn : ((segments.flatMap entries).map LogEntry.offset).Nodup) :
    Ascending LogEntry.offset (segments.flatMap entries) := by
  induction segments with
  | nil => exact .nil
  | cons s segments ih =>
    rw [flatMap_cons,map_append,nodup_append] at hn
    obtain ⟨hst,hs⟩ := pairwise_cons.mp hs
    obtain ⟨hds,hd⟩ := forall_mem_cons.mp hd
    rw [Ascending,flatMap_cons,pairwise_append]
    refine ⟨hds.ascending,ih hd hs hn.2.1,fun e he e' he' => ?_⟩
    obtain ⟨t,ht,het⟩ := mem_flatMap.mp he'
    have hv := (hd t ht).valid het
    have hp := hv.positive
    have ho := (hds.valid he).mem_offset he
    have hot := hv.mem_offset het
    have hle := hst t ht
    -- Otherwise the first offset of the later segment lies in the earlier one.
    by_contra hlt
    obtain ⟨f,hf,hft⟩ := mem_map.mp (hv.offset_mem (Int.le_refl _) (by omega))
    exact hn.2.2 t.offset ((hds.valid he).offset_mem hle (by omega)) t.offset
      (mem_map.mpr ⟨f,mem_flatMap.mpr ⟨t,ht,hf⟩,hft⟩) rfl
end Order

section Skip
def ScanSegment.row? : ScanSegment → Option ScanRecord
  | .row r => some r
  | .arrow _ => none

def ScanSegment.arrow? : ScanSegment → Option ScanArrowBatch
  | .row _ => none
  | .arrow a => some a

variable {segments : List ScanSegment}

private theorem entries_parts (segments : List ScanSegment) :
    (scanEntries (segments.filterMap row?) (segments.filterMap arrow?)).Perm
      (segments.flatMap entries) := by
  induction segments with
  | nil => exact .nil
  | cons s segments ih =>
    cases s with
    | row r => exact ih.cons r.record.entry
    | arrow a =>
      simp only [scanEntries,filterMap_cons,row?,arrow?,flatMap_cons,entries] at ih ⊢
      rw [← append_assoc]
      exact (perm_append_comm.append_right _).trans ((append_assoc ..).symm ▸ ih.append_left _)

private theorem entries_parts_sublist (segments : List ScanSegment) :
    ((segments.filterMap row?).map (·.record.entry)).Sublist (segments.flatMap entries) ∧
      ((segments.filterMap arrow?).flatMap (·.batch.entries)).Sublist
        (segments.flatMap entries) := by
  induction segments with
  | nil => exact ⟨.slnil,.slnil⟩
  | cons s segments ih =>
    cases s with
    | row r => exact ⟨ih.1.cons_cons _,ih.2.cons _⟩
    | arrow a => exact ⟨ih.1.trans (sublist_append_right ..),(Sublist.refl _).append ih.2⟩

theorem limitLatestSegments_eq (hd : ∀ s ∈ segments, s.Decoded) (skip : Nat) : ∃ kept : List ScanSegment,
    limitLatestSegments skip segments = .ok (kept.filterMap row?, kept.filterMap arrow?) ∧
      kept.flatMap entries = (segments.flatMap entries).drop skip ∧
      ∀ a ∈ kept.filterMap arrow?, ∃ record, a.batch.record = some record ∧
        a.batch.changes.length = record.numRows := by
  induction segments generalizing skip with
  | nil => exact ⟨[],rfl,by simp,by simp⟩
  | cons s segments ih =>
    have hs := hd s mem_cons_self
    have ht := fun k => ih (fun t h => hd t (mem_cons_of_mem s h)) k
    cases s with
    | row r =>
      cases skip with
      | zero =>
        obtain ⟨kept,h,he,hw⟩ := ht 0
        refine ⟨.row r :: kept,?_,congrArg (r.record.entry :: ·) he,hw⟩
        change (limitLatestSegments (0 : Nat) segments >>= _) = _
        rw [h]
        rfl
      | succ skip =>
        obtain ⟨kept,h,he,hw⟩ := ht skip
        refine ⟨kept,?_,he,hw⟩
        rw [limitLatestSegments,if_pos (by omega),← h]
        congr 1
        omega
    | arrow a =>
      obtain ⟨record,hr,hc⟩ := hs.whole a rfl
      have hn : a.batch.numRows = .ok record.numRows := by rw [ArrowLogBatch.numRows,hr]
      have hl : a.batch.entries.length = record.numRows := by simp [ArrowLogBatch.entries,hr]
      rw [limitLatestSegments,hn,flatMap_cons,drop_append,entries,hl]
      change ∃ kept : List ScanSegment, ite .. = _ ∧ _
      by_cases hle : record.numRows ≤ skip
      · obtain ⟨kept,h,he,hw⟩ := ht (skip - record.numRows)
        refine ⟨kept,?_,?_,hw⟩
        · rw [if_pos (by omega),← h]
          congr 1
          omega
        · have hz : a.batch.entries.drop skip = [] := drop_eq_nil_of_le (hl ▸ hle)
          rw [he,hz,nil_append]
      · obtain ⟨kept,h,he,hw⟩ := ht 0
        rw [if_neg (by omega),show skip - record.numRows = 0 by omega,← he]
        cases skip with
        | zero =>
          refine ⟨.arrow a :: kept,?_,rfl,forall_mem_cons.mpr ⟨⟨record,hr,hc⟩,hw⟩⟩
          change (limitLatestSegments (0 : Nat) segments >>= _) = _
          rw [h]
          rfl
        | succ skip =>
          refine ⟨.arrow { a with batch := sliceArrowLogBatch a.batch (skip + 1) record.numRows } :: kept,?_,?_,
            forall_mem_cons.mpr ⟨⟨record.newSlice (skip + 1) record.numRows,?_,?_⟩,hw⟩⟩
          · rw [if_pos (by omega),show (0 : Int) = (0 : Nat) from rfl,h]
            rfl
          · rw [flatMap_cons,entries,sliceArrowLogBatch_entries hr]
          · simp [sliceArrowLogBatch,hr]
          · simp [sliceArrowLogBatch,ArrowRecord.newSlice,hc]
end Skip

theorem latest_of_drop {es merged kept : List LogEntry} (hm : merged.Perm es) (ha : Ascending LogEntry.offset merged)
    {n : Nat} (hk : kept.Perm (merged.drop (es.length - n))) : Latest n es kept := by
  refine ⟨merged.take (es.length - n),?_,?_,fun d hd e he => ?_⟩
  · exact ((hk.append_left _).trans (by rw [take_append_drop])).trans hm
  · rw [hk.length_eq,length_drop,hm.length_eq]
    omega
  · rw [← take_append_drop (es.length - n) merged,Ascending,pairwise_append] at ha
    exact ha.2.2 d hd e (hk.subset he)
/-- The result has the latest `n` records, and one change for each row of a batch. It is in order when records are
left out or the lists come in order; when nothing is left out the lists are returned as they are. -/
theorem limitLatest_keeps_highest (rows : List ScanRecord) (arrows : List ScanArrowBatch) (n : Nat)
    (hd : ∀ s ∈ rows.map ScanSegment.row ++ arrows.map ScanSegment.arrow, s.Decoded)
    (hn : ((scanEntries rows arrows).map LogEntry.offset).Nodup) :
    ∃ rows' arrows', limitLatestLogRecords rows arrows n = .ok (rows', arrows') ∧
      Latest n (scanEntries rows arrows) (scanEntries rows' arrows') ∧
      (∀ a ∈ arrows', ∃ record, a.batch.record = some record ∧ a.batch.changes.length = record.numRows) ∧
      (n < (scanEntries rows arrows).length ∨ EachAscending rows arrows → EachAscending rows' arrows') ∧
      ((scanEntries rows arrows).length ≤ n → rows' = rows ∧ arrows' = arrows) := by
  have hw : ∀ a ∈ arrows, ∃ record, a.batch.record = some record ∧ a.batch.changes.length = record.numRows :=
    fun a ha => (hd (.arrow a) (by simp [ha])).whole a rfl
  have hr : scanResultRows rows arrows = .ok ((scanEntries rows arrows).length : Nat) := scanResultRows_eq
    fun a ha => Option.isSome_iff_exists.mpr ((hw a ha).imp fun _ h => h.1)
  have hp := sortByKey_perm ScanSegment.offset (rows.map .row ++ arrows.map .arrow)
  have hm : ((orderedScanSegments rows arrows).flatMap ScanSegment.entries).Perm (scanEntries rows arrows) := by
    rw [scanEntries,← segments_entries]
    exact hp.flatMap_right _
  have ha := entries_ascending (fun s hs => hd s (hp.subset hs)) (sortByKey_pairwise ..)
    ((hm.map _).nodup_iff.mpr hn)
  rw [limitLatestLogRecords,hr]
  change ∃ rows' arrows', ite .. = _ ∧ _
  by_cases hle : (scanEntries rows arrows).length ≤ n
  · refine ⟨rows,arrows,by rw [if_pos (by omega)]; rfl,latest_of_drop hm ha ?_,hw,
      fun h => h.resolve_left (by omega),fun _ => ⟨rfl,rfl⟩⟩
    rw [Nat.sub_eq_zero_of_le hle]
    exact hm.symm
  · obtain ⟨kept,h,he,hwk⟩ := limitLatestSegments_eq (fun s hs => hd s (hp.subset hs))
      ((scanEntries rows arrows).length - n)
    refine ⟨_,_,?_,latest_of_drop hm ha (he ▸ entries_parts kept),hwk,fun _ => ?_,fun h => absurd h hle⟩
    · rw [if_neg (by omega),← h]
      congr 1
      omega
    · have hs := entries_parts_sublist kept
      have hk := ha.sublist (drop_sublist ((scanEntries rows arrows).length - n) _)
      exact ⟨hk.sublist (he ▸ hs.1),hk.sublist (he ▸ hs.2)⟩

def rowAt (offset : BitVec 64) : ScanRecord := ⟨0,{ value := [], change := .append, offset }⟩

private theorem rowAt_decoded {offset : BitVec 64} (h : offset.toInt + 1 ≤ maxInt64) :
    (row (rowAt offset)).Decoded where
  whole a ha := by cases ha
  fits := .inr h

def pairBatch : ScanArrowBatch where
  bucket := 0
  batch := ⟨0,0,0,0,0,true,0,0,some ⟨[],[],2⟩,[.append, .append]⟩
/-- Three records of which two are kept: the batch is cut. -/
theorem limitLatest_keeps_highest_of_three : ∃ rows' arrows',
    limitLatestLogRecords [rowAt 2] [pairBatch] 2 = .ok (rows', arrows') ∧
      Latest 2 (scanEntries [rowAt 2] [pairBatch]) (scanEntries rows' arrows') ∧ EachAscending rows' arrows' := by
  obtain ⟨rows',arrows',h,hl,-,ha,-⟩ := limitLatest_keeps_highest [rowAt 2] [pairBatch] 2
    (forall_mem_cons.mpr ⟨rowAt_decoded (by decide),forall_mem_cons.mpr
      ⟨⟨by rintro a ⟨⟩; exact ⟨_,rfl,rfl⟩,.inr (by decide)⟩,by simp⟩⟩) (by decide)
  exact ⟨rows',arrows',h,hl,ha (.inl (by decide))⟩
/-- As many rows as the limit are returned in the order given. -/
theorem limitLatest_unordered :
    (∀ s ∈ [rowAt 1, rowAt 0].map ScanSegment.row ++ [].map ScanSegment.arrow, s.Decoded) ∧
      ((scanEntries [rowAt 1, rowAt 0] []).map LogEntry.offset).Nodup ∧
      limitLatestLogRecords [rowAt 1, rowAt 0] [] 2 = .ok ([rowAt 1, rowAt 0], []) ∧
      ¬ EachAscending [rowAt 1, rowAt 0] [] := by
  refine ⟨forall_mem_cons.mpr ⟨rowAt_decoded (by decide),forall_mem_cons.mpr ⟨rowAt_decoded (by decide),by simp⟩⟩,
    by decide,rfl,?_⟩
  rintro ⟨h,-⟩
  exact absurd ((pairwise_cons.mp h).1 (rowAt 0).record.entry (by simp)) (by decide)
end FlussGo
