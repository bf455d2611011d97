import FlussGo.Log.ArrowEvolution
import FlussGo.Scanner.Decode
import FlussGo.Writer.Requests
/-!
# Arrow batches decode to what they were built from

The header of an Arrow batch is that of a row batch, and nothing in it tells the two apart. What follows the header
of an Arrow batch does not read as a row.
-/
namespace FlussGo
open Outcome List ArrowLogBatch HoldsAt
def ArrowLogBatch.header (b : ArrowLogBatch) : LogBatch :=
  ⟨b.magic,b.baseOffset,b.commitTime,b.leaderEpoch,b.schemaID,b.appendOnly,b.writerID,b.batchSequence,[]⟩
/-- The rows of the record; a nil record has none. -/
def ArrowLogBatch.rows (b : ArrowLogBatch) : List Row :=
  match b.record with
  | none => []
  | some record => (range record.numRows).map record.row
/-- `EncodeArrowLogBatch`, with the payload that the library writes for the record. -/
def ArrowLogBatch.encode (write : ArrowCompressionType → ArrowRecord → Bytes) (b : ArrowLogBatch)
    (compression : ArrowCompressionType) : Go Bytes :=
  encodeArrowLogBatch (fun c _ => (b.record.map (write c)).getD []) b.header b.rows b.changes compression
/-- What comes back: an empty record as nil, and a change for each row. -/
def ArrowLogBatch.decoded (b : ArrowLogBatch) : ArrowLogBatch :=
  { b with
    leaderEpoch := if b.magic = 1 then b.leaderEpoch else 0
    record := if b.rows = [] then none else b.record
    changes := if b.appendOnly then replicate b.rows.length .append else b.changes }
/-- The parts of an encoded batch. -/
structure ArrowLogBatch.Encoded (write : ArrowCompressionType → ArrowRecord → Bytes) (b : ArrowLogBatch)
    (changes payload encoded : Bytes) : Prop where
  magic : b.magic = 0 ∨ b.magic = 1
  changed : arrowChanges b.appendOnly b.changes b.rows.length = .ok changes
  empty : b.rows = [] → payload = []
  written : b.rows ≠ [] → ∃ record c, b.record = some record ∧ payload = write c record
  layout : Layout b.header (arrowBatchTail b.header b.rows.length (changes ++ payload)) encoded
  length : encoded.length = 48 + epochBytes b.header + changes.length + payload.length
  fits : encoded.length ≤ maxRowBytes
  count : b.rows.length < 2 ^ 31

section Encoded
variable {write : ArrowCompressionType → ArrowRecord → Bytes} {b : ArrowLogBatch} {changes payload encoded : Bytes}
  {compression : ArrowCompressionType}

theorem ArrowLogBatch.encode_eq_ok (h : b.encode write compression = .ok encoded) :
    ∃ changes payload, b.Encoded write changes payload encoded := by
  unfold encode encodeArrowLogBatch at h
  obtain ⟨hm,h⟩ := of_guard h
  obtain ⟨count,hn,h⟩ := of_bind h
  obtain ⟨changes,hc,h⟩ := of_bind h
  obtain ⟨payload,hp,h⟩ := of_bind h
  unfold arrowRecordCount at hn
  obtain ⟨hlt,hn⟩ := of_guard hn
  cases hn
  have he : (if b.header.magic = 1 then logBatchV1HeaderSize else logBatchV0HeaderSize) = 48 + epochBytes b.header := by
    rw [epochBytes]
    split <;> rfl
  rw [he] at h
  have h := (of_guard h).2
  obtain ⟨hf,h⟩ := of_guard h
  cases h
  have hl := layout_logBatchBytes b.header (arrowBatchTail b.header b.rows.length (changes ++ payload))
  have ht : (arrowBatchTail b.header b.rows.length (changes ++ payload)).length =
      23 + changes.length + payload.length := by
    simp only [arrowBatchTail,length_append,length_cons,littleBytes_length]
    omega
  have hlen := hl.length
  rw [ht] at hlen
  have hw : encodeArrowPayload (fun c _ => (b.record.map (write c)).getD []) b.rows compression = .ok payload →
      (b.rows = [] → payload = []) ∧ (b.rows ≠ [] → ∃ c, payload = (b.record.map (write c)).getD []) := by
    intro hp
    unfold encodeArrowPayload at hp
    split at hp
    next hr => exact ⟨fun _ => (ok.inj hp).symm,fun hne => absurd (List.isEmpty_iff.mp hr) hne⟩
    next hr =>
      refine ⟨fun he => absurd (List.isEmpty_iff.mpr he) hr,fun _ => ⟨compression,?_⟩⟩
      cases compression <;> simp_all
  refine ⟨changes,payload,by_contra fun hne => hm (not_or.mp hne),hc,(hw hp).1,fun hne => ?_,hl,by omega,
    by omega,by omega⟩
  obtain ⟨c,hc⟩ := (hw hp).2 hne
  cases hr : b.record with
  | none => simp [rows,hr] at hne
  | some record => exact ⟨record,c,rfl,by simpa [hr] using hc⟩

theorem changeBytes_eq_ok {changes : List ChangeType} {bs : Bytes} (h : changeBytes changes = .ok bs) :
    bs = changes.map ChangeType.toByte ∧ changes = bs.map changeTypeOfByte ∧ decodeChangeBytes bs = .ok changes := by
  induction changes generalizing bs with
  | nil =>
    cases h
    exact ⟨rfl,rfl,rfl⟩
  | cons change changes ih =>
    obtain ⟨hc,h⟩ := of_seq h
    obtain ⟨rest,hr,h⟩ := of_bind h
    cases h
    obtain ⟨hb,hcs,hd⟩ := ih hr
    refine ⟨by rw [hb,map_cons],by rw [map_cons,changeTypeOfByte_toByte hc,← hcs],?_⟩
    rw [decodeChangeBytes,changeTypeOfByte_toByte hc,hc]
    dsimp only
    rw [hd]
    rfl
/-- The change bytes: none for an append-only batch, else one for each row. -/
theorem arrowChanges_eq_ok {appendOnly : Bool} {changes : List ChangeType} {count : Nat} {bs : Bytes}
    (h : arrowChanges appendOnly changes count = .ok bs) :
    if appendOnly then bs = [] else changes.length = count ∧ changeBytes changes = .ok bs := by
  unfold arrowChanges at h
  cases appendOnly with
  | true =>
    simp only [if_true] at h ⊢
    have h := (of_guard h).2
    split at h
    · simp at h
    · exact (ok.inj h).symm
  | false =>
    simp only [Bool.false_eq_true,if_false] at h ⊢
    split at h
    · simp at h
    next hl => exact ⟨not_not.mp hl,h⟩

namespace ArrowLogBatch
variable (h : b.Encoded write changes payload encoded)
include h

theorem Encoded.arrowHeader : arrowHeader encoded =
    .ok (b.magic, 48 + epochBytes b.header, 21 + epochBytes b.header, 25 + epochBytes b.header) := by
  have hl := h.length
  have hb : (byteAt encoded 12 : Go UInt8) = .ok b.magic := by rw [byteAt,h.layout.magic]; rfl
  have hf := h.fits
  rw [FlussGo.arrowHeader,if_neg (by omega),hb,bind_ok]
  rcases h.magic with hm | hm <;> simp [hm,epochBytes,header,logBatchV0HeaderSize,logBatchV1HeaderSize] at hl ⊢ <;> omega

theorem Encoded.body : HoldsAt encoded (48 + epochBytes b.header) (changes ++ payload) := by
  have ht := h.layout.checked
  simp only [arrowBatchTail,append_iff,cons_iff,littleBytes_length] at ht
  have hh := ht.2.2.2.2.2.2
  rw [show 25 + epochBytes b.header + 2 + 1 + 4 + 8 + 4 + 4 = 48 + epochBytes b.header by omega] at hh
  exact append_iff.mpr hh

theorem Encoded.changes_length : changes.length = if b.appendOnly then 0 else b.rows.length := by
  have hc := arrowChanges_eq_ok h.changed
  split at hc <;> split
  · rw [hc,length_nil]
  · contradiction
  · contradiction
  · rw [(changeBytes_eq_ok hc.2).1,length_map,hc.1]

theorem Encoded.decodeArrowChanges :
    decodeArrowChanges encoded (48 + epochBytes b.header) b.rows.length b.appendOnly =
      .ok (b.decoded.changes, 48 + epochBytes b.header + changes.length) := by
  have hc := arrowChanges_eq_ok h.changed
  have hl := h.changes_length
  have hh := (append_iff.mp h.body).1
  rw [FlussGo.decodeArrowChanges,decoded]
  cases ha : b.appendOnly <;> simp only [ha,Bool.false_eq_true,if_true,if_false] at hc hl ⊢
  · rw [← hl,subslice_ok hh.1,hh.2,bind_ok,(changeBytes_eq_ok hc.2).2.2]
    rfl
  · simp [hc]
end ArrowLogBatch
/-- The decoder reads the fields back and leaves the payload to the library, unless there are too many rows. -/
theorem ArrowLogBatch.Encoded.decode (he : b.Encoded write changes payload encoded) (reader : ArrowReader)
    (schema : List ArrowField) : decodeArrowLogBatch reader schema encoded =
      if maxRowBytes < b.rows.length then failf .malformedRecordBatch "invalid Arrow record count"
      else decodeArrowRecord reader schema payload b.rows.length >>= fun record => .ok { b.decoded with record } := by
  have hm := maxRowBytes_eq
  have hl := he.layout
  have hlen := he.length
  have hcount := he.count
  have hfit := he.fits
  have ht := hl.checked
  simp only [arrowBatchTail,append_iff,cons_iff,littleBytes_length] at ht
  obtain ⟨hsc,ha,_,hw,hq,hn,_⟩ := ht
  have hep : readLeaderEpoch b.magic encoded = .ok b.decoded.leaderEpoch.toNat := by
    rw [readLeaderEpoch,decoded]
    split
    next h1 => exact readLittle_of_holdsAt (hl.leaderEpoch h1) (bitVec_lt 4 _)
    · rfl
  have hby : (byteAt encoded (25 + epochBytes b.header + 2) : Go UInt8) = .ok (if b.appendOnly then 1 else 0) := by
    rw [byteAt,ha]
    rfl
  have hf : decide ((if b.appendOnly then (1 : UInt8) else 0) &&& 1 ≠ 0) = b.appendOnly := by
    cases b.appendOnly <;> rfl
  rw [decodeArrowLogBatch,he.arrowHeader,bind_ok]
  dsimp only
  rw [readLittle_of_holdsAt hl.size (by omega),bind_ok,readLittle_of_holdsAt hl.checksum (crc32c_lt _),bind_ok,hl.drop,
    if_neg (by simp),readLittle_of_holdsAt hn (by omega),bind_ok,hby,bind_ok,hf,← he.changes_length]
  by_cases hc : maxRowBytes < b.rows.length
  · rw [if_pos (.inl hc),if_pos hc]
  rw [if_neg (by omega),if_neg hc,he.decodeArrowChanges,bind_ok]
  dsimp only
  rw [(append_iff.mp he.body).2.drop (by omega),readLittle_of_holdsAt hl.baseOffset (bitVec_lt 8 _),
    readLittle_of_holdsAt hl.commitTime (bitVec_lt 8 _),hep,readLittle_of_holdsAt hsc (bitVec_lt 2 _),
    readLittle_of_holdsAt hw (bitVec_lt 8 _),readLittle_of_holdsAt hq (bitVec_lt 4 _)]
  simp only [bind_ok,ofNat_toNat]
  rfl
/-- A batch that was encoded comes back, unless it has more rows than the decoder allows. -/
theorem arrow_batch_decodes_iff (reader : ArrowReader) (write : ArrowCompressionType → ArrowRecord → Bytes)
    (b : ArrowLogBatch) (schema : List ArrowField)
    (hcodec : ∀ c record, b.record = some record → 0 < record.numRows →
      decodeArrowPayload reader schema (write c record) = .ok record)
    (compression : ArrowCompressionType) (encoded : Bytes) (h : b.encode write compression = .ok encoded) :
    decodeArrowLogBatch reader schema encoded = .ok b.decoded ↔ b.rows.length ≤ maxRowBytes := by
  obtain ⟨changes,payload,he⟩ := ArrowLogBatch.encode_eq_ok h
  rw [he.decode]
  by_cases hc : maxRowBytes < b.rows.length
  · rw [if_pos hc]
    exact iff_of_false (by simp) (by omega)
  have hrec : decodeArrowRecord reader schema payload b.rows.length = .ok b.decoded.record := by
    rw [decodeArrowRecord,ArrowLogBatch.decoded]
    by_cases hr : b.rows = []
    · simp [hr,he.empty hr]
    obtain ⟨record,c,hrec,rfl⟩ := he.written hr
    have hrows : b.rows.length = record.numRows := by simp [ArrowLogBatch.rows,hrec]
    have hpos := length_pos_of_ne_nil hr
    rw [if_neg (by omega),hcodec c record hrec (by omega),bind_ok,if_neg (by simp [hrows]),if_neg hr,hrec]
    rfl
  rw [if_neg hc,hrec]
  exact iff_of_true rfl (by omega)

def bareBatch (rows : Nat) : ArrowLogBatch := ⟨0,7,0,0,1,true,0,0,some ⟨[],[],rows⟩,[]⟩

def bareWrite (_ : ArrowCompressionType) (_ : ArrowRecord) : Bytes := [0xFF, 0xFF, 0xFF, 0xFF]

def bareReader : ArrowReader where
  read fields _ := .ok (heldRecord fields [[], []])
  conforms fields payload record h := by
    cases h
    exact heldRecord_conforms fields _
  safe := by simp

private theorem bareBatch_encodes {rows : Nat} (hr : 0 < rows) (hl : rows < 2 ^ 31) :
    ∃ encoded, (bareBatch rows).encode bareWrite .none = .ok encoded := by
  have hn : (bareBatch rows).rows.length = rows := by simp [bareBatch,ArrowLogBatch.rows]
  have he : (bareBatch rows).rows.isEmpty = false := by rw [isEmpty_eq_false_iff,← length_pos_iff,hn]; exact hr
  have ha : arrowChanges (bareBatch rows).header.appendOnly (bareBatch rows).changes rows = .ok [] := rfl
  rw [encode,encodeArrowLogBatch,if_neg (by simp [bareBatch,header]),arrowRecordCount,hn,
    if_neg (by omega),bind_ok,ha,bind_ok,encodeArrowPayload,he]
  simp only [Bool.false_eq_true,if_false,bind_ok]
  rw [if_neg (by omega),if_neg (of_decide_eq_false rfl)]
  exact ⟨_,rfl⟩

theorem arrow_batch_decodes_pair : ∃ encoded, (bareBatch 2).encode bareWrite .none = .ok encoded ∧
    decodeArrowLogBatch bareReader [] encoded = .ok (bareBatch 2).decoded := by
  obtain ⟨encoded,h⟩ := bareBatch_encodes (show 0 < 2 by decide) (by decide)
  refine ⟨encoded,h,(arrow_batch_decodes_iff bareReader bareWrite (bareBatch 2) [] ?_ .none encoded h).mpr (by decide)⟩
  rintro c _ ⟨⟩ _
  rfl
/-- One row more than the decoder allows, and no column. -/
theorem arrow_batch_exceeds_count : ∃ encoded, (bareBatch 16777217).encode bareWrite .none = .ok encoded ∧
    ∀ reader schema, decodeArrowLogBatch reader schema encoded =
      failf .malformedRecordBatch "invalid Arrow record count" := by
  obtain ⟨encoded,h⟩ := bareBatch_encodes (show 0 < 16777217 by decide) (by decide)
  obtain ⟨changes,payload,he⟩ := ArrowLogBatch.encode_eq_ok h
  refine ⟨encoded,h,fun reader schema => ?_⟩
  rw [he.decode,if_pos]
  simp [bareBatch,ArrowLogBatch.rows,maxRowBytes_eq]

private theorem body_word {changes payload : Bytes} (hm : [0xFF, 0xFF, 0xFF, 0xFF] <+: payload)
    (hc : (∀ x ∈ changes, x = 0) ∨ ∀ x ∈ changes, x ≠ 0) :
    littleNat ((changes ++ payload).take 4) = 0 ∨ maxRowBytes < littleNat ((changes ++ payload).take 4) := by
  obtain ⟨rest,rfl⟩ := hm
  have hpos : ∀ x : UInt8, x ≠ 0 → 0 < x.toNat := fun x hx => Nat.pos_of_ne_zero fun h => hx (UInt8.toNat.inj h)
  have hff : (0xFF : UInt8).toNat = 255 := rfl
  rw [maxRowBytes_eq]
  rcases changes with _ | ⟨x,_ | ⟨y,_ | ⟨z,_ | ⟨w,changes⟩⟩⟩⟩ <;>
    simp only [nil_append,cons_append,take_succ_cons,take_zero,littleNat,hff]
  case cons.cons.cons.cons =>
    rcases hc with hc | hc <;> simp only [forall_mem_cons] at hc
    · rw [hc.1,hc.2.1,hc.2.2.1,hc.2.2.2.1]
      exact .inl rfl
    · have := hpos x hc.1
      have := hpos y hc.2.1
      have := hpos z hc.2.2.1
      have := hpos w hc.2.2.2.1
      omega
  all_goals omega

namespace ArrowLogBatch
private theorem Encoded.change_bytes (h : b.Encoded write changes payload encoded)
    (hc : (∀ x ∈ b.changes, x = .append) ∨ ∀ x ∈ b.changes, x ≠ .append) :
    (∀ x ∈ changes, x = 0) ∨ ∀ x ∈ changes, x ≠ 0 := by
  have he := arrowChanges_eq_ok h.changed
  split at he
  · simp [he]
  obtain ⟨hb,hcs,-⟩ := changeBytes_eq_ok he.2
  refine hc.imp (fun hc x hx => ?_) fun hc x hx hz => ?_
  · rw [hb] at hx
    obtain ⟨y,hy,rfl⟩ := mem_map.mp hx
    rw [hc y hy]
    rfl
  · exact hc (changeTypeOfByte x) (hcs ▸ mem_map_of_mem hx) (by rw [hz]; rfl)

private theorem Encoded.not_record (h : b.Encoded write changes payload encoded)
    (hm : [0xFF, 0xFF, 0xFF, 0xFF] <+: payload) (hc : (∀ x ∈ b.changes, x = .append) ∨ ∀ x ∈ b.changes, x ≠ .append)
    (schema : Schema) (batch : LogBatch) (compacted : Bool) :
    ∃ e, decodeLogRecord schema batch encoded (48 + epochBytes b.header) 0 compacted = .err e := by
  have hl := h.length
  have hf := h.fits
  have hp := hm.length_le
  have hw := body_word hm (h.change_bytes hc)
  have hb := h.body
  rw [decodeLogRecord]
  split
  · exact ⟨_,rfl⟩
  have hs : slice encoded (48 + epochBytes b.header) 4 = (changes ++ payload).take 4 := by
    rw [← hb.2,slice,slice,take_take,Nat.min_eq_left]
    simp only [length_append,length_cons] at hp ⊢
    omega
  simp only [length_cons,length_nil] at hp
  rw [readLittle_ok (by omega),hs,bind_ok,if_pos (by omega)]
  exact ⟨_,rfl⟩
end ArrowLogBatch
/-- An encoded Arrow batch with rows is refused by the row decoder, so the Arrow decoder gets it. -/
theorem arrow_batch_never_reads_as_rows (write : ArrowCompressionType → ArrowRecord → Bytes)
    (hmarker : ∀ c record, 0 < record.numRows → [0xFF, 0xFF, 0xFF, 0xFF] <+: write c record)
    (b : ArrowLogBatch) (hrows : b.rows ≠ []) (hc : (∀ x ∈ b.changes, x = .append) ∨ ∀ x ∈ b.changes, x ≠ .append)
    (compression : ArrowCompressionType) (encoded : Bytes) (h : b.encode write compression = .ok encoded)
    (schema : Schema) (compacted : Bool) :
    ∃ rowErr, decodeLogBatchRows schema encoded compacted = .err rowErr ∧ ∀ reader bucket current, ∃ rest,
      decodeFetchedBatch reader schema bucket current encoded compacted = (schema.arrowSchema >>= fun fields =>
        (decodeArrowLogBatch reader fields encoded).mapErr rowErr.join >>= rest) := by
  obtain ⟨changes,payload,he⟩ := ArrowLogBatch.encode_eq_ok h
  have hm := maxRowBytes_eq
  have hl := he.layout
  have hlen := he.length
  have hcount := he.count
  obtain ⟨record,c,hr,rfl⟩ := he.written hrows
  have hn : b.rows.length = record.numRows := by simp [ArrowLogBatch.rows,hr]
  have hpos := length_pos_of_ne_nil hrows
  have ht := hl.checked
  have htl : 23 ≤ (arrowBatchTail b.header b.rows.length (changes ++ write c record)).length := by
    simp only [arrowBatchTail,length_append,length_cons,littleBytes_length]
    omega
  simp only [arrowBatchTail,HoldsAt.append_iff,HoldsAt.cons_iff,littleBytes_length] at ht
  obtain ⟨hsc,ha,_,hw,hq,hno,_⟩ := ht
  have hby : (byteAt encoded (25 + epochBytes b.header + 2) : Go UInt8) = .ok (if b.header.appendOnly then 1 else 0) := by
    rw [byteAt,ha]
  have hrow : ∃ rowErr, decodeLogBatchRows schema encoded compacted = .err rowErr := by
    rw [decodeLogBatchRows,logBatchHeader_of_layout hl he.magic htl he.fits,bind_ok]
    dsimp only
    rw [readLittle_of_holdsAt hno (by omega),bind_ok]
    split
    · exact ⟨_,rfl⟩
    have hep : ∃ epoch, readLeaderEpoch b.header.magic encoded = .ok epoch := by
      rw [readLeaderEpoch]
      split
      next h1 => exact ⟨_,readLittle_of_holdsAt (hl.leaderEpoch h1) (bitVec_lt 4 _)⟩
      · exact ⟨0,rfl⟩
    obtain ⟨epoch,hep⟩ := hep
    rw [readLittle_of_holdsAt hl.baseOffset (bitVec_lt 8 _),bind_ok,readLittle_of_holdsAt hl.commitTime (bitVec_lt 8 _),
      bind_ok,hep,bind_ok,readLittle_of_holdsAt hsc (bitVec_lt 2 _),bind_ok,hby,bind_ok,
      readLittle_of_holdsAt hw (bitVec_lt 8 _),bind_ok,readLittle_of_holdsAt hq (bitVec_lt 4 _),bind_ok]
    obtain ⟨n,hsucc⟩ := Nat.exists_eq_succ_of_ne_zero (Nat.ne_of_gt hpos)
    rw [hsucc,decodeLogRecords]
    obtain ⟨e,hrec⟩ := he.not_record (hmarker c record (by omega)) hc schema _ compacted
    rw [hrec]
    exact ⟨e,rfl⟩
  obtain ⟨rowErr,hrow⟩ := hrow
  refine ⟨rowErr,hrow,fun reader bucket current => ?_⟩
  rw [decodeFetchedBatch,hrow]
  exact ⟨_,rfl⟩

theorem arrow_batch_never_reads_as_rows_pair : ∃ encoded, (bareBatch 2).encode bareWrite .none = .ok encoded ∧
    ∃ rowErr, decodeLogBatchRows { columns := [] } encoded true = .err rowErr := by
  obtain ⟨encoded,h⟩ := bareBatch_encodes (show 0 < 2 by decide) (by decide)
  obtain ⟨rowErr,hrow,_⟩ := arrow_batch_never_reads_as_rows bareWrite (fun _ _ _ => prefix_rfl) (bareBatch 2)
    (by decide) (.inl (by decide)) .none encoded h { columns := [] } true
  exact ⟨encoded,h,rowErr,hrow⟩
end Encoded
end FlussGo
