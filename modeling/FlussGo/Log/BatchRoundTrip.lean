import FlussGo.Log.RecordBatch
import FlussGo.Row.Compacted
/-!
# Log batches decode to the records they were built from

A row keeps its change type and takes its offset and timestamp from the batch header; its values
come back at their stored resolution.
-/
namespace FlussGo
open HoldsAt
variable {schema : Schema} {compacted : Bool} {b : LogBatch} {encoded : Bytes}

open Outcome List
/-- What is stored of the records of a batch, the first of them at `index`. -/
def storedRecords (schema : Schema) (compacted : Bool) (baseOffset commitTime : BitVec 64) :
    Nat → List Record → List Record
  | _, [] => []
  | index, record :: records =>
    { value := storedRow (rowEncoding compacted) schema record.value
      change := record.change
      offset := baseOffset + BitVec.ofNat 64 index
      timestamp := Time.unixMilli commitTime.toInt } ::
      storedRecords schema compacted baseOffset commitTime (index + 1) records

theorem storedRecords_values (schema : Schema) (compacted : Bool) (baseOffset commitTime : BitVec 64) (index : Nat)
    (records : List Record) : (storedRecords schema compacted baseOffset commitTime index records).map (·.value) =
      records.map fun record => storedRow (rowEncoding compacted) schema record.value := by
  induction records generalizing index with
  | nil => rfl
  | cons record records ih => rw [storedRecords,map_cons,ih,map_cons]

section Records
variable {schema : Schema} {compacted : Bool} {encoded : Bytes}

theorem changeTypeOfByte_toByte {change : ChangeType} (h : change.validate = .ok ()) :
    changeTypeOfByte change.toByte = change := by
  cases change with
  | unsupported code => simp [ChangeType.validate] at h
  | _ => rfl

private theorem encodeRecord_eq_ok {record : Record} (h : encodeRecord schema compacted record = .ok encoded) :
    ∃ row, record.change.validate = .ok () ∧ encodeLogRow schema compacted record.value = .ok row ∧
      encoded = littleBytes 4 (1 + row.length) ++ record.change.toByte :: row := by
  rw [encodeRecord,bind_unit_eq_ok] at h
  obtain ⟨hc,h⟩ := h
  obtain ⟨row,hrow,h⟩ := of_bind h
  exact ⟨row,hc,hrow,(ok.inj h).symm⟩
/-- The row comes back from its bytes at the stored resolution. -/
def RowStored (schema : Schema) (compacted : Bool) (row : Row) : Prop :=
  ∀ encoded, encodeLogRow schema compacted row = .ok encoded →
    decodeLogRow schema compacted encoded = .ok (storedRow (rowEncoding compacted) schema row)

private theorem rowStored_iff {row : Row} (h : encodeLogRow schema compacted row = .ok encoded) :
    RowStored schema compacted row ↔
      decodeLogRow schema compacted encoded = .ok (storedRow (rowEncoding compacted) schema row) := by
  constructor
  · intro hs
    exact hs encoded h
  · intro hd encoded' h'
    rwa [← ok.inj (h.symm.trans h')]

theorem rowStored_of_fits {row : Row} (hfit : fitsRow schema row = true)
    (hmax : ∀ encoded, encodeLogRow schema compacted row = .ok encoded → encoded.length ≤ maxRowBytes) :
    RowStored schema compacted row := by
  intro encoded h
  have hl := hmax encoded h
  rw [encodeLogRow_eq] at h
  rw [decodeLogRow_eq]
  exact decodeRow_encodeRow (fun _ _ => roundTrips _ _) h hfit hl

private theorem decodeLogRecord_of_holdsAt {record : Record} {row : Bytes} {position : Nat}
    (hc : record.change.validate = .ok ())
    (hb : HoldsAt encoded position (littleBytes 4 (1 + row.length) ++ record.change.toByte :: row))
    (hmax : encoded.length ≤ maxRowBytes) (batch : LogBatch) (index : Nat) :
    decodeLogRecord schema batch encoded position index compacted = do
      let value ← decodeLogRow schema compacted row
      return (⟨value,record.change,Time.unixMilli batch.commitTime.toInt,
        batch.baseOffset + BitVec.ofNat 64 index⟩, position + (5 + row.length)) := by
  have hm := maxRowBytes_eq
  rw [append_iff,cons_iff,littleBytes_length] at hb
  obtain ⟨hl,hco,hbo⟩ := hb
  have hend := hbo.1
  have hby : (byteAt encoded (position + 4) : Go UInt8) = .ok record.change.toByte := by
    rw [byteAt,hco]
  have hsub : (subslice encoded (position + 5) (position + 4 + (1 + row.length)) : Go Bytes) = .ok row := by
    rw [show position + 4 + (1 + row.length) = position + 5 + row.length by omega,subslice_ok hend,hbo.2]
  rw [decodeLogRecord,if_neg (by omega),readLittle_of_holdsAt hl (by omega),bind_ok,
    if_neg (by omega),hby,bind_ok,changeTypeOfByte_toByte hc,hc]
  rw [hsub,bind_ok,show position + 4 + (1 + row.length) = position + (5 + row.length) by omega]

private theorem decodeLogRecords_of_holdsAt {records : List Record} (hmax : encoded.length ≤ maxRowBytes)
    (batch : LogBatch) :
    ∀ {b : Bytes} {position : Nat} (index last : Nat), encodeRecords schema compacted records = .ok b →
      HoldsAt encoded position b → (decodeLogRecords schema batch encoded compacted records.length index position =
        .ok (storedRecords schema compacted batch.baseOffset batch.commitTime index records, last) ↔
      last = position + b.length ∧ ∀ record ∈ records, RowStored schema compacted record.value) := by
  induction records with
  | nil =>
    intro b position index last h _
    cases h
    simp [decodeLogRecords,storedRecords,eq_comm]
  | cons record records ih =>
    intro b position index last h hb
    obtain ⟨first,hf,h⟩ := of_bind h
    obtain ⟨rest,hres,h⟩ := of_bind h
    cases h
    obtain ⟨row,hc,hrow,rfl⟩ := encodeRecord_eq_ok hf
    rw [append_iff] at hb
    have hh : HoldsAt encoded (position + (5 + row.length)) rest := by
      convert hb.2 using 1
      simp only [length_append,littleBytes_length,length_cons]
      omega
    have hn := ih (index + 1) last hres hh
    have hle : position + ((littleBytes 4 (1 + row.length) ++ record.change.toByte :: row) ++ rest).length =
        position + (5 + row.length) + rest.length := by
      simp only [length_append,littleBytes_length,length_cons]
      omega
    rw [length_cons,decodeLogRecords,decodeLogRecord_of_holdsAt hc hb.1 hmax,forall_mem_cons,
      rowStored_iff hrow,hle]
    constructor
    · intro h
      obtain ⟨⟨first,next⟩,hf,h⟩ := of_bind h
      obtain ⟨value,hv,hf⟩ := of_bind hf
      cases hf
      obtain ⟨⟨others,last'⟩,ho,h⟩ := of_bind h
      obtain ⟨hr,rfl⟩ := Prod.mk.inj (ok.inj h)
      obtain ⟨hre,rfl⟩ := cons.inj hr
      obtain ⟨hl,hs⟩ := hn.mp ho
      exact ⟨hl,by rw [hv,(Record.mk.inj hre).1],hs⟩
    · rintro ⟨hl,hv,hs⟩
      rw [hv,bind_ok,pure_eq,bind_ok]
      dsimp only
      rw [hn.mpr ⟨hl,hs⟩]
      rfl

private theorem encodeRecords_length {records : List Record} {b : Bytes}
    (h : encodeRecords schema compacted records = .ok b) : 5 * records.length ≤ b.length := by
  induction records generalizing b with
  | nil => simp
  | cons record records ih =>
    obtain ⟨first,hf,h⟩ := of_bind h
    obtain ⟨rest,hr,h⟩ := of_bind h
    cases h
    obtain ⟨row,_,_,rfl⟩ := encodeRecord_eq_ok hf
    have hle := ih hr
    simp only [length_append,littleBytes_length,length_cons]
    omega
end Records

section Header
variable {b : LogBatch} {tail encoded : Bytes}
/-- The extra header bytes of a version 1 batch. -/
def epochBytes (b : LogBatch) : Nat := if b.magic = 1 then 4 else 0
/-- Where the fields before the checksummed part stand. -/
structure Layout (b : LogBatch) (tail encoded : Bytes) : Prop where
  baseOffset : HoldsAt encoded 0 (littleBytes 8 b.baseOffset.toNat)
  size : HoldsAt encoded 8 (littleBytes 4 (encoded.length - 12))
  magic : encoded[12]? = some b.magic
  commitTime : HoldsAt encoded 13 (littleBytes 8 b.commitTime.toNat)
  leaderEpoch : b.magic = 1 → HoldsAt encoded 21 (littleBytes 4 b.leaderEpoch.toNat)
  checksum : HoldsAt encoded (21 + epochBytes b) (littleBytes 4 (crc32c tail))
  checked : HoldsAt encoded (25 + epochBytes b) tail
  length : encoded.length = 25 + epochBytes b + tail.length

theorem Layout.drop (h : Layout b tail encoded) : encoded.drop (25 + epochBytes b) = tail := h.checked.drop h.length

theorem layout_logBatchBytes (b : LogBatch) (tail : Bytes) : Layout b tail (logBatchBytes b tail) := by
  have hse := holdsAt_self (logBatchBytes b tail)
  have hl : (logBatchBytes b tail).length = 25 + epochBytes b + tail.length := by
    simp only [logBatchBytes,epochBytes,length_append,length_cons,littleBytes_length]
    split <;> simp <;> omega
  have hsi : 13 + (if b.magic = 1 then littleBytes 4 b.leaderEpoch.toNat else []).length + tail.length =
      (logBatchBytes b tail).length - 12 := by
    rw [hl,epochBytes]
    split <;> simp <;> omega
  generalize he : logBatchBytes b tail = encoded at *
  have hp : HoldsAt encoded 0 (logBatchBytes b tail) := by rw [he]; exact hse
  simp only [logBatchBytes,append_iff,cons_iff,littleBytes_length,hsi] at hp
  obtain ⟨hb,hs,hm,hc,hep,hcrc,ht⟩ := hp
  refine ⟨hb,hs,hm,hc,fun h1 => by simpa [h1] using hep,?_,?_,hl⟩
  · rw [epochBytes]
    split at hcrc <;> simp_all
  · rw [epochBytes]
    split at ht <;> simp_all

theorem logBatchHeader_of_layout (h : Layout b tail encoded) (hma : b.magic = 0 ∨ b.magic = 1)
    (ht : 23 ≤ tail.length) (hmax : encoded.length ≤ maxRowBytes) :
    logBatchHeader encoded = .ok (b.magic, 48 + epochBytes b, 25 + epochBytes b) := by
  have hm := maxRowBytes_eq
  have hl := h.length
  have hb : (byteAt encoded 12 : Go UInt8) = .ok b.magic := by rw [byteAt,h.magic]
  have hs : (if b.magic = 1 then logBatchV1HeaderSize else logBatchV0HeaderSize) = 48 + epochBytes b ∧
      (if b.magic = 1 then 25 else 21) = 21 + epochBytes b ∧ (if b.magic = 1 then 29 else 25) = 25 + epochBytes b := by
    rw [epochBytes]
    split <;> exact ⟨rfl,rfl,rfl⟩
  rw [logBatchHeader,if_neg (by omega),hb,bind_ok,if_neg (by rcases hma with h | h <;> simp [h])]
  simp only [hs.1,hs.2.1,hs.2.2]
  rw [readLittle_of_holdsAt h.size (by omega),bind_ok,if_neg (by omega),
    readLittle_of_holdsAt h.checksum (crc32c_lt tail),bind_ok,h.drop,if_neg (by simp)]
  rfl

private theorem logBatchHeader_of_length_gt (h : maxRowBytes < encoded.length) (r : UInt8 × Nat × Nat) :
    logBatchHeader encoded ≠ .ok r := by
  rw [logBatchHeader,if_pos (.inr h)]
  simp
end Header

def LogBatch.stored (b : LogBatch) (schema : Schema) (compacted : Bool) : LogBatch :=
  { b with
    leaderEpoch := if b.magic = 1 then b.leaderEpoch else 0
    records := storedRecords schema compacted b.baseOffset b.commitTime 0 b.records }
/-- A batch decodes to what is stored of it exactly when it keeps the size limit and its rows do. -/
theorem decodeLogBatchRows_stored_iff (h : b.encodeRows schema compacted = .ok encoded) :
    decodeLogBatchRows schema encoded compacted = .ok (b.stored schema compacted) ↔
      encoded.length ≤ maxRowBytes ∧ ∀ record ∈ b.records, RowStored schema compacted record.value := by
  rw [LogBatch.encodeRows] at h
  obtain ⟨hma,h⟩ := of_guard h
  have hma : b.magic = 0 ∨ b.magic = 1 := by
    by_contra hne
    exact hma (not_or.mp hne)
  obtain ⟨records,hr,h⟩ := of_bind h
  cases h
  have hm := maxRowBytes_eq
  have hl := layout_logBatchBytes b (logBatchTail b records)
  generalize hen : logBatchBytes b (logBatchTail b records) = encoded at *
  by_cases hmax : encoded.length ≤ maxRowBytes
  swap
  · constructor
    · intro hd
      obtain ⟨he,hh,_⟩ := of_bind hd
      exact absurd hh (logBatchHeader_of_length_gt (by omega) he)
    · exact fun hle => absurd hle.1 hmax
  have ht := hl.checked
  have hlen := hl.length
  have hta : (logBatchTail b records).length = 23 + records.length := by
    simp only [logBatchTail,length_append,length_cons,littleBytes_length]
    omega
  have hc := encodeRecords_length hr
  simp only [logBatchTail,append_iff,cons_iff,littleBytes_length] at ht
  obtain ⟨hsc,ha,_,hw,hs,hre,hb⟩ := ht
  have hep : readLeaderEpoch b.magic encoded = .ok (if b.magic = 1 then b.leaderEpoch else 0).toNat := by
    rw [readLeaderEpoch]
    split
    next h1 => exact readLittle_of_holdsAt (hl.leaderEpoch h1) (bitVec_lt 4 _)
    · rfl
  have hby : (byteAt encoded (25 + epochBytes b + 2) : Go UInt8) = .ok (if b.appendOnly then 1 else 0) := by
    rw [byteAt,ha]
  have hf : decide ((if b.appendOnly then (1 : UInt8) else 0) &&& 1 ≠ 0) = b.appendOnly := by
    cases b.appendOnly <;> rfl
  rw [decodeLogBatchRows,logBatchHeader_of_layout hl hma (by omega) hmax,bind_ok]
  dsimp only
  rw [readLittle_of_holdsAt hre (by omega),bind_ok,if_neg (by omega),
    readLittle_of_holdsAt hl.baseOffset (bitVec_lt 8 _),bind_ok,
    readLittle_of_holdsAt hl.commitTime (bitVec_lt 8 _),bind_ok,hep,bind_ok,
    readLittle_of_holdsAt hsc (bitVec_lt 2 _),bind_ok,hby,bind_ok,
    readLittle_of_holdsAt hw (bitVec_lt 8 _),bind_ok,
    readLittle_of_holdsAt hs (bitVec_lt 4 _),bind_ok,hf]
  simp only [ofNat_toNat]
  rw [show 25 + epochBytes b + 2 + 1 + 4 + 8 + 4 + 4 = 48 + epochBytes b by omega] at hb
  have hlo := fun batch last => decodeLogRecords_of_holdsAt hmax batch 0 last hr hb
  constructor
  · intro hd
    obtain ⟨⟨others,last⟩,ho,hd⟩ := of_bind hd
    have hd := (of_guard hd).2
    obtain rfl := (LogBatch.mk.inj (ok.inj hd)).2.2.2.2.2.2.2.2
    exact ⟨hmax,((hlo _ last).mp ho).2⟩
  · rintro ⟨_,hst⟩
    rw [(hlo _ _).mpr ⟨rfl,hst⟩,bind_ok,if_neg (by omega)]
    rfl

private theorem encodeRecord_length_le {records : List Record} {b : Bytes}
    (h : encodeRecords schema compacted records = .ok b) : ∀ record ∈ records, ∀ row,
      encodeLogRow schema compacted record.value = .ok row → row.length ≤ b.length := by
  induction records generalizing b with
  | nil => simp
  | cons record records ih =>
    obtain ⟨first,hf,h⟩ := of_bind h
    obtain ⟨rest,hre,h⟩ := of_bind h
    cases h
    obtain ⟨row,_,hrow,rfl⟩ := encodeRecord_eq_ok hf
    intro r hr row' hrow'
    simp only [length_append,length_cons]
    rcases mem_cons.mp hr with rfl | hr
    · obtain rfl := ok.inj (hrow.symm.trans hrow')
      omega
    · have hle := ih hre r hr row' hrow'
      omega
/-- The rows of a batch within the limit come back when their values fit what is stored of them. -/
theorem rowsStored_of_fits (h : b.encodeRows schema compacted = .ok encoded) (hmax : encoded.length ≤ maxRowBytes)
    (hfit : ∀ record ∈ b.records, fitsRow schema record.value = true) :
    ∀ record ∈ b.records, RowStored schema compacted record.value := by
  intro record hr
  apply rowStored_of_fits (hfit record hr)
  rw [LogBatch.encodeRows] at h
  have h := (of_guard h).2
  obtain ⟨records,hre,h⟩ := of_bind h
  cases h
  intro row hrow
  have hle := encodeRecord_length_le hre record hr row hrow
  have hl := (layout_logBatchBytes b (logBatchTail b records)).length
  simp only [logBatchTail,length_append,length_cons] at hl hmax
  omega

def rowLength (schema : Schema) (compacted : Bool) (row : Row) : Nat :=
  match encodeLogRow schema compacted row with
  | .ok encoded => encoded.length
  | _ => 0

private theorem encodeRecords_length_eq {records : List Record} {b : Bytes}
    (h : encodeRecords schema compacted records = .ok b) :
    b.length = (records.map fun record => 5 + rowLength schema compacted record.value).sum := by
  induction records generalizing b with
  | nil =>
    cases h
    rfl
  | cons record records ih =>
    obtain ⟨first,hf,h⟩ := of_bind h
    obtain ⟨rest,hr,h⟩ := of_bind h
    cases h
    obtain ⟨row,_,hrow,rfl⟩ := encodeRecord_eq_ok hf
    rw [map_cons,sum_cons,← ih hr,rowLength,hrow]
    simp only [length_append,littleBytes_length,length_cons]
    omega

theorem LogBatch.encodeRows_length (h : b.encodeRows schema compacted = .ok encoded) (hm : b.magic = 0) :
    encoded.length =
      logBatchV0HeaderSize + (b.records.map fun record => 5 + rowLength schema compacted record.value).sum := by
  rw [LogBatch.encodeRows,if_neg (by simp [hm])] at h
  obtain ⟨records,hr,h⟩ := of_bind h
  cases h
  rw [(layout_logBatchBytes b (logBatchTail b records)).length,epochBytes,if_neg (by simp [hm]),
    ← encodeRecords_length_eq hr]
  simp only [logBatchTail,length_append,length_cons,littleBytes_length,logBatchV0HeaderSize]
  omega
/-- A batch within the size limit decodes to what is stored of it, a larger one does not decode. -/
theorem decodeLogBatchRows_encodeRows (h : b.encodeRows schema compacted = .ok encoded)
    (hfit : ∀ record ∈ b.records, fitsRow schema record.value = true) :
    (encoded.length ≤ maxRowBytes → decodeLogBatchRows schema encoded compacted = .ok { b with
        leaderEpoch := if b.magic = 1 then b.leaderEpoch else 0
        records := storedRecords schema compacted b.baseOffset b.commitTime 0 b.records }) ∧
    (maxRowBytes < encoded.length → ∀ schema compacted batch, decodeLogBatchRows schema encoded compacted ≠ .ok batch) := by
  constructor
  · intro hmax
    exact (decodeLogBatchRows_stored_iff h).mpr ⟨hmax,rowsStored_of_fits h hmax hfit⟩
  · intro hgt schema compacted batch hd
    obtain ⟨he,hh,_⟩ := of_bind hd
    exact logBatchHeader_of_length_gt hgt he hh
end FlussGo
