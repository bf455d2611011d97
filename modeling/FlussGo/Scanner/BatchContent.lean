import FlussGo.Log.ArrowEvolution
import FlussGo.Scanner.Decode
/-!
# The content of a fetched batch

A batch is decoded as a whole, trimmed to the offsets that are wanted and then evolved. The three
stages are separated here.
-/
namespace FlussGo
open Outcome Prod Nat
/-- A record of the log, read from a row or from an Arrow batch. -/
structure LogEntry where
  offset : Int
  change : ChangeType
  timestamp : Time
  value : Row

def Record.entry (r : Record) : LogEntry := ⟨r.offset.toInt,r.change,r.timestamp,r.value⟩

def ArrowLogBatch.entry (b : ArrowLogBatch) (record : ArrowRecord) (k : Nat) : LogEntry where
  offset := (b.baseOffset + BitVec.ofNat 64 k).toInt
  change := b.changes.getD k .append
  timestamp := Time.unixMilli b.commitTime.toInt
  value := record.row k

def ArrowLogBatch.entries (b : ArrowLogBatch) : List LogEntry :=
  match b.record with
  | none => []
  | some record => (List.range record.numRows).map (b.entry record)

def BatchResult.entries (r : BatchResult) : List LogEntry :=
  r.rows.map (·.record.entry) ++ r.arrow.toList.flatMap (·.batch.entries)

section Header
/-- The fields of a header that a reader of the log relies on. -/
def batchBase (p : Bytes) : BitVec 64 := BitVec.ofNat 64 (littleNat (slice p 0 8))

def schemaStart (p : Bytes) : Nat := if p[12]? = some 1 then 29 else 25

def batchCount (p : Bytes) : Nat := littleNat (slice p (schemaStart p + 19) 4)

def batchSchemaID (p : Bytes) : Int := (BitVec.ofNat 16 (littleNat (slice p (schemaStart p) 2))).toInt

theorem readLittle_eq_ok {ε : Type} {width position n : Nat} {bs : Bytes}
    (h : (readLittle width bs position : Outcome ε Nat) = .ok n) :
    position + width ≤ bs.length ∧ n = littleNat (slice bs position width) := by
  unfold readLittle at h
  split at h
  next hfit => exact ⟨hfit,(ok.inj h).symm⟩
  · cases h

theorem byteAt_eq_ok {ε : Type} {bs : Bytes} {position : Nat} {b : UInt8}
    (h : (byteAt bs position : Outcome ε UInt8) = .ok b) : bs[position]? = some b := by
  unfold byteAt at h
  split at h
  next hb =>
    rw [hb,ok.inj h]
  · cases h
/-- What an accepted header says about the bytes. -/
structure Framed (p : Bytes) (magic : UInt8) (headerSize schemaOffset : Nat) : Prop where
  short : p.length ≤ maxRowBytes
  header : headerSize ≤ p.length
  size : littleNat (slice p 8 4) = p.length - 12
  byte : p[12]? = some magic
  layout : headerSize = schemaOffset + 23 ∧ schemaOffset = schemaStart p
  version : magic = 0 ∧ headerSize = 48 ∨ magic = 1 ∧ headerSize = 52

theorem logBatchHeader_eq_ok {p : Bytes} {magic : UInt8} {he schemaOffset : Nat}
    (h : logBatchHeader p = .ok (magic, he, schemaOffset)) : Framed p magic he schemaOffset := by
  unfold logBatchHeader at h
  obtain ⟨hl,h⟩ := of_guard h
  obtain ⟨m,hm,h⟩ := of_bind h
  have hb := byteAt_eq_ok hm
  obtain ⟨hma,h⟩ := of_guard h
  have hv : m = 0 ∨ m = 1 := by
    by_contra hne
    exact hma (not_or.mp hne)
  obtain ⟨size,hsiz,h⟩ := of_bind h
  obtain ⟨_,rfl⟩ := readLittle_eq_ok hsiz
  -- The sizes stay closed while the checks are read off.
  generalize hh : (if m = 1 then logBatchV1HeaderSize else logBatchV0HeaderSize) = size at h
  generalize hs : (if m = 1 then 29 else 25) = start at h
  obtain ⟨hf,h⟩ := of_guard h
  obtain ⟨checksum,_,h⟩ := of_bind h
  have h := (of_guard h).2
  obtain ⟨rfl,hsi⟩ := mk.inj (ok.inj h)
  cases hsi
  rw [not_or] at hl hf
  refine ⟨not_lt.mp hl.2,not_lt.mp hf.1,not_not.mp hf.2,hb,?_,?_⟩
  · rw [← hh,← hs]
    rcases hv with rfl | rfl <;> simp [schemaStart,hb,logBatchV0HeaderSize,logBatchV1HeaderSize]
  · rw [← hh]
    rcases hv with rfl | rfl <;> simp [logBatchV0HeaderSize,logBatchV1HeaderSize]

theorem arrowHeader_eq_ok {p : Bytes} {magic : UInt8} {he crcOffset schemaOffset : Nat}
    (h : arrowHeader p = .ok (magic, he, crcOffset, schemaOffset)) :
    p[12]? = some magic ∧ he = schemaOffset + 23 ∧ schemaOffset = schemaStart p := by
  unfold arrowHeader at h
  have h := (of_guard h).2
  obtain ⟨m,hm,h⟩ := of_bind h
  have hb := byteAt_eq_ok hm
  split at h
  next hz =>
    obtain ⟨rfl,hs⟩ := mk.inj (ok.inj h)
    obtain ⟨rfl,ho⟩ := mk.inj hs
    cases ho
    rw [hz.1] at hb
    simp [schemaStart,hb,logBatchV0HeaderSize]
  · split at h
    next hone =>
      obtain ⟨rfl,hs⟩ := mk.inj (ok.inj h)
      obtain ⟨rfl,ho⟩ := mk.inj hs
      cases ho
      rw [hone.1] at hb
      simp [schemaStart,hb,logBatchV1HeaderSize]
    · simp at h
end Header

section Decoded
variable {reader : ArrowReader} {schema : Schema} {compacted : Bool} {p : Bytes} {batch : LogBatch}
  {position count : Nat} {fields : List ArrowField}

theorem decodeLogRecord_offset {index next : Nat} {record : Record}
    (h : decodeLogRecord schema batch p position index compacted = .ok (record, next)) :
    record.offset = batch.baseOffset + BitVec.ofNat 64 index := by
  unfold decodeLogRecord at h
  have h := (of_guard h).2
  obtain ⟨length,_,h⟩ := of_bind h
  have h := (of_guard h).2
  obtain ⟨code,_,h⟩ := of_bind h
  split at h
  · obtain ⟨body,_,h⟩ := of_bind h
    obtain ⟨row,_,h⟩ := of_bind h
    cases h
    rfl
  · simp at h

theorem decodeLogRecords_offsets {index last : Nat} {records : List Record}
    (h : decodeLogRecords schema batch p compacted count index position = .ok (records, last)) :
    records.length = count ∧ ∀ (i : Nat) (record : Record), records[i]? = some record →
      record.offset = batch.baseOffset + BitVec.ofNat 64 (index + i) := by
  induction count generalizing index position last records with
  | zero =>
    cases h
    simp
  | succ count ih =>
    obtain ⟨⟨record,next⟩,hre,h⟩ := of_bind h
    obtain ⟨⟨rest,last'⟩,hres,h⟩ := of_bind h
    cases h
    obtain ⟨hl,ho⟩ := ih hres
    refine ⟨by simp [hl],fun i r hr => ?_⟩
    cases i with
    | zero =>
      cases hr
      exact decodeLogRecord_offset hre
    | succ i =>
      rw [ho i r (by simpa using hr),add_right_comm]
      rfl

theorem decodeLogBatchRows_eq_ok (h : decodeLogBatchRows schema p compacted = .ok batch) :
    batch.baseOffset = batchBase p ∧ batch.records.length = batchCount p ∧
      ∀ (i : Nat) (record : Record), batch.records[i]? = some record →
        record.offset = batchBase p + BitVec.ofNat 64 i := by
  unfold decodeLogBatchRows at h
  obtain ⟨⟨magic,he,schemaOffset⟩,hh,h⟩ := of_bind h
  have hf := logBatchHeader_eq_ok hh
  obtain ⟨count,hc,h⟩ := of_bind h
  obtain ⟨_,rfl⟩ := readLittle_eq_ok hc
  have h := (of_guard h).2
  obtain ⟨base,hb,h⟩ := of_bind h
  obtain ⟨_,rfl⟩ := readLittle_eq_ok hb
  obtain ⟨_,_,h⟩ := of_bind h
  obtain ⟨_,_,h⟩ := of_bind h
  obtain ⟨_,_,h⟩ := of_bind h
  obtain ⟨_,_,h⟩ := of_bind h
  obtain ⟨_,_,h⟩ := of_bind h
  obtain ⟨_,_,h⟩ := of_bind h
  obtain ⟨⟨records,position⟩,hr,h⟩ := of_bind h
  have h := (of_guard h).2
  cases h
  obtain ⟨hl,ho⟩ := decodeLogRecords_offsets hr
  refine ⟨rfl,?_,fun i record hre => ?_⟩
  · rw [hl,hf.layout.2]
    rfl
  · have := ho i record hre
    rwa [zero_add] at this

theorem decodeArrowChanges_length {encoded : Bytes} {last : Nat} {appendOnly : Bool} {changes : List ChangeType}
    (h : decodeArrowChanges encoded position count appendOnly = .ok (changes, last)) : changes.length = count := by
  unfold decodeArrowChanges at h
  split at h
  · cases h
    simp
  obtain ⟨codes,hc,h⟩ := of_bind h
  obtain ⟨decoded,hd,h⟩ := of_bind h
  obtain ⟨rfl,_⟩ := mk.inj (ok.inj h)
  have hl : ∀ (codes : Bytes) (changes : List ChangeType), decodeChangeBytes codes = .ok changes →
      changes.length = codes.length := by
    intro codes
    induction codes with
    | nil =>
      intro changes h
      cases h
      rfl
    | cons code codes ih =>
      intro changes h
      unfold decodeChangeBytes at h
      split at h
      · obtain ⟨rest,hr,h⟩ := of_bind h
        cases h
        simp [ih rest hr]
      · simp at h
  rw [hl codes decoded hd]
  unfold subslice at hc
  split at hc
  next hfit =>
    cases hc
    rw [slice_length _ _ _ (by omega)]
    omega
  · cases hc

theorem decodeArrowPayload_conforms {payload : Bytes} {record : ArrowRecord}
    (h : decodeArrowPayload reader fields payload = .ok record) : record.Conforms fields := by
  unfold decodeArrowPayload at h
  have h := (of_guard h).2
  exact reader.conforms _ _ _ h
/-- A record that holds rows conforms to the schema; a batch without rows has no record and no bytes. -/
theorem decodeArrowRecord_eq_ok {payload : Bytes} {result : Option ArrowRecord}
    (h : decodeArrowRecord reader fields payload count = .ok result) :
    (∀ record, result = some record → record.numRows = count ∧ record.Conforms fields ∧ count ≠ 0) ∧
      (result = none → count = 0 ∧ payload = []) := by
  unfold decodeArrowRecord at h
  split at h
  next hz =>
    obtain ⟨he,h⟩ := of_guard h
    cases h
    exact ⟨by simp,fun _ => ⟨hz,List.length_eq_zero_iff.mp (not_not.mp he)⟩⟩
  next hc =>
    obtain ⟨record,hre,h⟩ := of_bind h
    obtain ⟨hro,h⟩ := of_guard h
    cases h
    refine ⟨fun r hr => ?_,by simp⟩
    cases hr
    exact ⟨not_not.mp hro,decodeArrowPayload_conforms hre,hc⟩

structure ArrowDecoded (fields : List ArrowField) (p : Bytes) (batch : ArrowLogBatch) : Prop where
  base : batch.baseOffset = batchBase p
  changes : batch.changes.length = batchCount p
  record : ∀ record, batch.record = some record → record.numRows = batchCount p ∧ record.Conforms fields ∧ batchCount p ≠ 0
  empty : batch.record = none → batchCount p = 0 ∧ p.length ≤ schemaStart p + 23

theorem decodeArrowLogBatch_eq_ok {batch : ArrowLogBatch}
    (h : decodeArrowLogBatch reader fields p = .ok batch) : ArrowDecoded fields p batch := by
  unfold decodeArrowLogBatch at h
  obtain ⟨⟨magic,he,crcOffset,schemaOffset⟩,hh,h⟩ := of_bind h
  obtain ⟨_,hhe,rfl⟩ := arrowHeader_eq_ok hh
  obtain ⟨_,_,h⟩ := of_bind h
  obtain ⟨_,_,h⟩ := of_bind h
  have h := (of_guard h).2
  obtain ⟨count,hco,h⟩ := of_bind h
  obtain ⟨_,rfl⟩ := readLittle_eq_ok hco
  obtain ⟨attributes,_,h⟩ := of_bind h
  dsimp only at h
  generalize (if decide (attributes &&& 1 ≠ 0) = true then 0 else _) = changeBytes at h
  have h := (of_guard h).2
  obtain ⟨⟨changes,position⟩,hc,h⟩ := of_bind h
  obtain ⟨record,hre,h⟩ := of_bind h
  obtain ⟨base,hb,h⟩ := of_bind h
  obtain ⟨_,rfl⟩ := readLittle_eq_ok hb
  obtain ⟨_,_,h⟩ := of_bind h
  obtain ⟨_,_,h⟩ := of_bind h
  obtain ⟨_,_,h⟩ := of_bind h
  obtain ⟨_,_,h⟩ := of_bind h
  obtain ⟨_,_,h⟩ := of_bind h
  cases h
  obtain ⟨hs,hn⟩ := decodeArrowRecord_eq_ok hre
  refine ⟨rfl,decodeArrowChanges_length hc,hs,fun hr => ?_⟩
  obtain ⟨hz,hp⟩ := hn hr
  have hpo : position = he := by
    unfold decodeArrowChanges at hc
    split at hc
    · exact (mk.inj (ok.inj hc)).2.symm
    · obtain ⟨_,_,hc⟩ := of_bind hc
      obtain ⟨_,_,hc⟩ := of_bind hc
      rw [← (mk.inj (ok.inj hc)).2,hz,add_zero]
  refine ⟨hz,?_⟩
  have := List.drop_eq_nil_iff.mp hp
  omega
/-- A batch without rows is read as rows, so the record of an Arrow batch is never nil here. -/
theorem decodeLogBatchRows_of_empty {header : UInt8 × Nat × Nat} (hh : logBatchHeader p = .ok header)
    (hc : batchCount p = 0) (hl : p.length ≤ schemaStart p + 23) :
    ∃ batch, decodeLogBatchRows schema p compacted = .ok batch := by
  obtain ⟨magic,hea,schemaOffset⟩ := header
  have hf := logBatchHeader_eq_ok hh
  obtain ⟨hsi,rfl⟩ := hf.layout
  have hfi := hf.header
  have hr : ∀ {width position : Nat}, position + width ≤ schemaStart p + 23 →
      (readLittle width p position : Go Nat) = .ok (littleNat (slice p position width)) :=
    fun hle => readLittle_ok (by omega)
  have hs : 25 ≤ schemaStart p := by
    unfold schemaStart
    split <;> omega
  have he : ∃ epoch, readLeaderEpoch magic p = .ok epoch := by
    unfold readLeaderEpoch
    split
    · exact ⟨_,hr (by omega)⟩
    · exact ⟨0,rfl⟩
  obtain ⟨epoch,he⟩ := he
  have ha : (byteAt p (schemaStart p + 2) : Go UInt8) = .ok (p[schemaStart p + 2]) := byteAt_ok (by omega)
  rw [decodeLogBatchRows,hh,bind_ok]
  dsimp only
  rw [hr (by omega),bind_ok,show littleNat (slice p (schemaStart p + 3 + 16) 4) = 0 from hc]
  rw [if_neg (by omega),hr (by omega),bind_ok,hr (by omega),bind_ok,he,bind_ok,
    hr (by omega),bind_ok,ha,bind_ok,hr (by omega),bind_ok,hr (by omega),
    bind_ok,decodeLogRecords,bind_ok]
  rw [if_neg (by omega)]
  exact ⟨_,rfl⟩
end Decoded
end FlussGo
