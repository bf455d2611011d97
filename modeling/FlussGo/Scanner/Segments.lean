import FlussGo.Scanner.Cut
import FlussGo.Scanner.Fetched
/-!
# The segments of a fetch

Whatever the bytes of a fetch are, the rows and Arrow batches that they decode to lie one after the
other between the fetched offset and the offset that is returned.
-/
namespace FlussGo
open Outcome List ScanSegment
section Batch
variable {reader : ArrowReader} {resolve : TablePath → Int → Except GoError Schema} {table : Table} {compacted : Bool}
  {p : Bytes} {bucket current : Int} {r : BatchResult}

def BatchResult.segments (r : BatchResult) : List ScanSegment := r.rows.map .row ++ r.arrow.toList.map .arrow

private theorem trim_arrow {source : Schema} {c : BatchContent} (hba : c.Backed source)
    (hfit : OffsetsFit c.base.toInt c.count) {a : ScanArrowBatch} (ha : (c.trim bucket current).arrow = some a) :
    (c.trim bucket current).rows = [] ∧ ∃ record, a.batch.record = some record ∧ 0 < record.numRows ∧
      a.batch.baseOffset.toInt + record.numRows ≤ maxInt64 := by
  cases c with
  | rows batch => cases ha
  | arrow batch record =>
    obtain ⟨hr,hc,_⟩ := hba
    simp only [BatchContent.base,BatchContent.count] at hfit
    have hb := hfit.resolve_left hc
    have hlow := BitVec.le_toInt batch.baseOffset
    refine ⟨rfl,?_⟩
    simp only [BatchContent.trim] at ha
    have hle := trimStart_le batch.baseOffset.toInt record.numRows current
    split at ha
    · cases ha
    rename_i hs
    split at ha
    · cases ha
      refine ⟨record.newSlice (trimStart batch.baseOffset.toInt record.numRows current) record.numRows,
        by rw [sliceArrowLogBatch,hr]; rfl,?_,?_⟩
      · simp only [ArrowRecord.newSlice]
        omega
      · simp only [sliceArrowLogBatch,ArrowRecord.newSlice]
        unfold maxInt64 at hb ⊢
        rw [BitVec.toInt_add,BitVec.toInt_ofNat',Int.add_bmod_bmod,Int.bmod_eq_of_le (by omega) (by omega)]
        omega
    · cases ha
      exact ⟨record,hr,Nat.pos_of_ne_zero hc,hb⟩

theorem decodeEvolvedFetchedBatch_arrow
    (h : decodeEvolvedFetchedBatch reader resolve table bucket current p compacted = .ok r) {a : ScanArrowBatch}
    (ha : r.arrow = some a) : r.rows = [] ∧ (arrow a).Valid := by
  obtain ⟨_,schema,c,_,_,hc,hfit,he⟩ := decodeEvolvedFetchedBatch_eq_ok h
  have hco := decodeContent_eq_ok hc
  obtain ⟨rows,hro,he⟩ := of_bind he
  obtain ⟨arrow,har,he⟩ := of_bind he
  cases he
  cases ht : (c.trim bucket current).arrow with
  | none =>
    rw [ht] at har
    cases har
    cases ha
  | some trimmed =>
    obtain ⟨hem,record,hre,hp,hfi⟩ := trim_arrow hco.backed hfit ht
    rw [hem] at hro
    cases hro
    rw [ht] at har
    obtain ⟨evolved,hb,har⟩ := of_bind har
    cases har
    cases ha
    obtain ⟨record₀,fields,hr,hf,hcon⟩ := hco.backed.trim bucket current _ _ ht
    cases hre.symm.trans hr
    obtain ⟨record',rfl,hs⟩ := (evolveArrowBatch_sat hr hf hcon).of_ok hb
    exact ⟨rfl,by simpa [ScanSegment.count,hs] using hp,by simpa [ScanSegment.offset,ScanSegment.count,hs] using hfi⟩

theorem decodeEvolvedFetchedBatch_lt
    (h : decodeEvolvedFetchedBatch reader resolve table bucket current p compacted = .ok r) {o : Int} (ho : o ∈ r.offsets) :
    current ≤ o ∧ o < r.next ∧ o < maxInt64 := by
  have hd := decodeEvolvedFetchedBatch_delivers h
  obtain ⟨_,_,c,_,_,hc,hfit,_⟩ := decodeEvolvedFetchedBatch_eq_ok h
  have hco := decodeContent_eq_ok hc
  have hmem := hd.mem_offsets.mp ho
  refine ⟨hmem.2.2,hd.lt_next ho,?_⟩
  rw [hco.base,hco.count] at hfit
  simp only [batchEnd] at hmem
  rcases hfit with hz | hb <;> omega

theorem decodeEvolvedFetchedBatch_next_le
    (h : decodeEvolvedFetchedBatch reader resolve table bucket current p compacted = .ok r) (hle : current ≤ maxInt64) :
    r.next ≤ maxInt64 := by
  obtain ⟨_,_,c,_,_,hc,hfit,_⟩ := decodeEvolvedFetchedBatch_eq_ok h
  have hco := decodeContent_eq_ok hc
  rw [hco.base,hco.count] at hfit
  rw [(decodeEvolvedFetchedBatch_delivers h).next_eq]
  split
  · exact hle
  next hcou =>
    have := hfit.resolve_left hcou
    simp only [batchEnd]
    omega

private theorem laid_rows {rows : List ScanRecord} {low high : Int} (hle : low ≤ high)
    (ha : Ascending LogEntry.offset (rows.map (·.record.entry)))
    (hmem : ∀ row ∈ rows, low ≤ row.record.offset.toInt ∧ row.record.offset.toInt < high ∧ row.record.offset.toInt < maxInt64) :
    Laid low (rows.map .row) high := by
  induction rows generalizing low with
  | nil => exact .nil hle
  | cons row rows ih =>
    have hrow := hmem row mem_cons_self
    obtain ⟨hh,ht⟩ := pairwise_cons.mp ha
    refine .cons hrow.1 ⟨Nat.one_pos,?_⟩ (ih ?_ ht fun row' hrow' => ?_)
    · simp only [ScanSegment.offset,ScanSegment.count]
      omega
    · simp only [ScanSegment.offset,ScanSegment.count]
      omega
    · have hlt := hh row'.record.entry (mem_map_of_mem hrow')
      have hr := hmem row' (mem_cons_of_mem _ hrow')
      simp only [Record.entry] at hlt
      simp only [ScanSegment.offset,ScanSegment.count]
      omega

theorem decodeEvolvedFetchedBatch_laid
    (h : decodeEvolvedFetchedBatch reader resolve table bucket current p compacted = .ok r) : Laid current r.segments r.next := by
  have hd := decodeEvolvedFetchedBatch_delivers h
  have hn : current ≤ r.next := by
    rw [hd.next_eq]
    split <;> omega
  have hlt := fun o ho => @decodeEvolvedFetchedBatch_lt reader resolve table compacted p bucket current r h o ho
  have hp := hd.pairwise
  cases ha : r.arrow with
  | none =>
    have he : r.entries = r.rows.map (·.record.entry) := by simp [BatchResult.entries,ha]
    simp only [BatchResult.segments,ha,Option.toList_none,map_nil,append_nil]
    rw [BatchResult.offsets,he] at hp
    refine laid_rows hn (pairwise_map.mp hp) fun row hrow => hlt _ ?_
    rw [BatchResult.offsets,he,map_map]
    exact mem_map_of_mem hrow
  | some a =>
    obtain ⟨hr,hv⟩ := decodeEvolvedFetchedBatch_arrow h ha
    have he : r.entries = (arrow a).entries := by
      simp [BatchResult.entries,ha,hr,entries]
    simp only [BatchResult.segments,ha,hr,map_nil,nil_append,Option.toList_some,map_cons]
    have hpo := hv.positive
    have hl := (arrow a).entries_length
    -- The first and the last row of the batch tell where it lies.
    have hat : ∀ i < (arrow a).count, current ≤ (arrow a).offset + i ∧
        (arrow a).offset + i < r.next := by
      intro i hi
      have hget := getElem?_eq_getElem (show i < (arrow a).entries.length by omega)
      have hb := hlt (arrow a).entries[i].offset (by
        rw [BatchResult.offsets,he]
        exact mem_map_of_mem (getElem_mem _))
      rw [hv.offset_eq hget] at hb
      exact ⟨hb.1,hb.2.1⟩
    have hf := hat 0 hpo
    have hla := hat ((arrow a).count - 1) (by omega)
    exact .cons (by omega) hv (.nil (by omega))
end Batch

section Loop
variable {reader : ArrowReader} {resolver : SchemaResolver} {table : Table} {bucket offset : Int}
  {fetched : FetchedLog} {encoded : Bytes}

def FetchedLog.segments (log : FetchedLog) : List ScanSegment := log.rows.map .row ++ log.arrows.map .arrow
/-- Decoded segments from an offset on. -/
structure FetchedLog.LaidFrom (offset : Int) (log : FetchedLog) : Prop where
  laid : ∃ segments, log.segments.Perm segments ∧ Laid offset segments log.next
  fits : offset ≤ maxInt64 → log.next ≤ maxInt64

theorem FetchedLog.LaidFrom.append {log : FetchedLog} {r : BatchResult} (h : log.LaidFrom offset)
    (hr : Laid log.next r.segments r.next) (hf : log.next ≤ maxInt64 → r.next ≤ maxInt64) :
    (log.append r).LaidFrom offset := by
  obtain ⟨segments,hp,hl⟩ := h.laid
  refine ⟨⟨segments ++ r.segments,?_,hl.append hr⟩,fun ho => hf (h.fits ho)⟩
  refine List.Perm.trans ?_ (hp.append_right r.segments)
  simp only [FetchedLog.segments,FetchedLog.append,BatchResult.segments,map_append,append_assoc]
  refine List.Perm.append_left _ ?_
  rw [← append_assoc,← append_assoc]
  exact List.Perm.append_right _ perm_append_comm

theorem decodeFetchedBatches_induct {I : FetchedLog → Prop} {options : FetchedLogDecodeOptions} {k : Nat}
    {log : FetchedLog} (hb : ∀ k log p r, I log →
      decodeEvolvedFetchedBatch reader (resolver k) table bucket log.next p options.compacted = .ok r → I (log.append r))
    (hlog : I log) (h : decodeFetchedBatches reader resolver table bucket options k log encoded = .ok fetched) : I fetched := by
  induction hn : encoded.length using Nat.strong_induction_on generalizing k log encoded with
  | _ n ih =>
    rw [decodeFetchedBatches] at h
    split at h
    · cases h
      exact hlog
    split at h
    · cases h
    · cases h
    · split at h
      · cases h
        exact hlog
      · cases h
    next size hs =>
      obtain ⟨r,hr,h⟩ := of_bind h
      have hbo := completeFetchedBatchSize_eq_some hs
      refine ih (encoded.drop size).length ?_ (hb k log _ r hlog hr) h rfl
      simp only [length_drop,logBatchV0HeaderSize] at hbo ⊢
      omega

theorem decodeFetchedFetchResponse_induct {I : FetchedLog → Prop} {compacted : Bool} (hb : ∀ k log p r, I log →
      decodeEvolvedFetchedBatch reader (resolver k) table bucket log.next p compacted = .ok r → I (log.append r))
    (hs : I { next := offset })
    (h : decodeFetchedFetchResponseWithResolver reader resolver table bucket offset encoded compacted = .ok fetched) :
    I fetched := by
  unfold decodeFetchedFetchResponseWithResolver decodeFetchedLogBatchesWithResolver at h
  split at h
  next log hlog =>
    cases h
    refine decodeFetchedBatches_induct (I := I) ?_ hs hlog
    exact hb
  · cases h
  · cases h
/-- A fetch from an offset on returns segments from that offset on, up to the offset it returns. -/
theorem decodeFetchedFetchResponse_laid {compacted : Bool}
    (h : decodeFetchedFetchResponseWithResolver reader resolver table bucket offset encoded compacted = .ok fetched) :
    fetched.LaidFrom offset := by
  have hs : FetchedLog.LaidFrom offset { next := offset } := ⟨⟨[],.nil,.nil (Int.le_refl _)⟩,fun hle => hle⟩
  refine decodeFetchedFetchResponse_induct (fun k log p r hlog hr => ?_) hs h
  exact hlog.append (decodeEvolvedFetchedBatch_laid hr) (decodeEvolvedFetchedBatch_next_le hr)
end Loop
end FlussGo
