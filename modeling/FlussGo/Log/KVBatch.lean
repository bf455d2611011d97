import FlussGo.Log.RecordBatch
import FlussGo.Row.Compacted
/-!
# Key-value batches

The layout of `KVBatch.Encode`: a header of fixed fields, whose checksum covers everything from the
schema ID on, and length-delimited records of a key length, a key and a row.
-/
namespace FlussGo
open Outcome List HoldsAt Option
def kvBatchHeaderSize : Nat := 28

structure KVRecord where
  key : Bytes
  /-- A delete has no value. -/
  value : Option Bytes

structure KVBatch where
  schemaID : BitVec 16
  writerID : BitVec 64
  batchSequence : BitVec 32
  records : List KVRecord

def KVRecord.body (record : KVRecord) : Bytes :=
  appendVar32 [] record.key.length ++ record.key ++ record.value.getD []

def kvFrame (body : Bytes) : Bytes := littleBytes 4 body.length ++ body
/-- The record loop of `KVBatch.Encode`; `size` bytes are already encoded. -/
def encodeKVRecords : Nat → List KVRecord → Go Bytes
  | _, [] => .ok []
  | size, record :: records =>
    if maxRowBytes < record.key.length ∨ maxRowBytes < (record.value.getD []).length then
      failf .malformedRecordBatch "KV record exceeds limit"
    else if maxRowBytes < record.body.length ∨ maxRowBytes < size + 4 + record.body.length then
      failf .malformedRecordBatch "KV batch exceeds limit"
    else do
      let rest ← encodeKVRecords (size + 4 + record.body.length) records
      return kvFrame record.body ++ rest
/-- The part of a batch that its checksum covers. -/
def kvBatchTail (b : KVBatch) (records : Bytes) : Bytes :=
  littleBytes 2 b.schemaID.toNat ++ 0 :: (littleBytes 8 b.writerID.toNat ++
    (littleBytes 4 b.batchSequence.toNat ++ (littleBytes 4 b.records.length ++ records)))

def kvBatchBytes (checksum : Bytes → BitVec 32) (tail : Bytes) : Bytes :=
  littleBytes 4 (5 + tail.length) ++ 0 :: (littleBytes 4 (checksum tail).toNat ++ tail)
/-- `KVBatch.Encode`; the fields it puts at fixed offsets are written here in layout order. -/
def KVBatch.encode (checksum : Bytes → BitVec 32) (b : KVBatch) : Go Bytes :=
  if 2 ^ 31 - 1 < b.records.length then failf .malformedRecordBatch "too many KV records"
  else do
    let records ← encodeKVRecords kvBatchHeaderSize b.records
    return kvBatchBytes checksum (kvBatchTail b records)

def decodeKVRecord (encoded : Bytes) (position : Nat) : Go (KVRecord × Nat) :=
  if encoded.length - position < 4 then failf .malformedRecordBatch "truncated KV record"
  else do
    let length ← readLittle 4 encoded position
    if length < 1 ∨ encoded.length - (position + 4) < length then
      failf .malformedRecordBatch "invalid KV record length"
    else
      let bodyEnd := position + 4 + length
      let (keyLength, keyStart) ← (readVar (encoded.take bodyEnd) (position + 4) 5).mapErr fun _ =>
        errorf .malformedRecordBatch "invalid KV key length"
      if bodyEnd - keyStart < keyLength then failf .malformedRecordBatch "invalid KV key length"
      else
        let keyEnd := keyStart + keyLength
        let key ← subslice encoded keyStart keyEnd
        if keyEnd ≠ bodyEnd then
          let value ← subslice encoded keyEnd bodyEnd
          return (⟨key,some value⟩, bodyEnd)
        else return (⟨key,none⟩, bodyEnd)
/-- The record loop of `DecodeKVBatch`, over the number of records that remain. -/
def decodeKVRecords (encoded : Bytes) : Nat → Nat → Go (List KVRecord × Nat)
  | 0, position => .ok ([], position)
  | count + 1, position => do
    let (record, next) ← decodeKVRecord encoded position
    let (records, last) ← decodeKVRecords encoded count next
    return (record :: records, last)

def decodeKVBatch (checksum : Bytes → BitVec 32) (encoded : Bytes) : Go KVBatch :=
  if encoded.length < kvBatchHeaderSize ∨ maxRowBytes < encoded.length ∨ encoded[4]? ≠ some 0 then
    failf .malformedRecordBatch "invalid KV batch header"
  else do
    let length ← readLittle 4 encoded 0
    let sum ← readLittle 4 encoded 5
    if length ≠ encoded.length - 4 ∨ sum ≠ (checksum (encoded.drop 9)).toNat then
      failf .malformedRecordBatch "invalid KV batch length or checksum"
    else
      let count ← readLittle 4 encoded 24
      if encoded.length / 5 < count then failf .malformedRecordBatch "invalid KV record count"
      else
        let schemaID ← readLittle 2 encoded 9
        let writerID ← readLittle 8 encoded 12
        let batchSequence ← readLittle 4 encoded 20
        let (records, position) ← decodeKVRecords encoded count kvBatchHeaderSize
        if position ≠ encoded.length then failf .malformedRecordBatch "trailing KV bytes"
        else return {
          schemaID := BitVec.ofNat 16 schemaID, writerID := BitVec.ofNat 64 writerID,
          batchSequence := BitVec.ofNat 32 batchSequence, records := records }

section Varint
theorem varBytes_length_le (fuel : Nat) : ∀ {value n : Nat}, 0 < n → value < 2 ^ (7 * n) →
    (varBytes fuel value).length ≤ n := by
  induction fuel with
  | zero => intro value n _ _; exact Nat.zero_le n
  | succ fuel ih =>
    intro value n hn hv
    rw [varBytes]
    split
    next hbig =>
      obtain ⟨n,rfl⟩ := Nat.exists_eq_succ_of_ne_zero hn.ne'
      rw [Nat.mul_succ,pow_add] at hv
      have hpos : 0 < n := by
        by_contra h0
        obtain rfl : n = 0 := by omega
        omega
      have hr : value >>> 7 < 2 ^ (7 * n) := by
        rw [Nat.shiftRight_eq_div_pow]
        exact Nat.div_lt_of_lt_mul (by rw [mul_comm]; exact hv)
      have hle := ih hpos hr
      rw [length_cons]
      omega
    · exact hn

private theorem readVarFrom_lt {encoded : Bytes} (remaining : Nat) : ∀ {i position acc value next : Nat},
    readVarFrom encoded remaining i position acc = .ok (value, next) → acc < 2 ^ (7 * i) →
    value < 2 ^ (7 * (i + (next - position))) := by
  induction remaining with
  | zero => intro i position acc value next h _; simp [readVarFrom] at h
  | succ remaining ih =>
    intro i position acc value next h hacc
    rw [readVarFrom] at h
    cases hp : encoded[position]? with
    | none => simp [hp] at h
    | some part =>
      rw [hp] at h
      dsimp only at h
      have hlow : (part &&& 0x7f).toNat < 2 ^ 7 := by
        rw [UInt8.toNat_and,show (0x7f : UInt8).toNat = 2 ^ 7 - 1 from rfl,Nat.and_two_pow_sub_one_eq_mod]
        exact Nat.mod_lt _ (by decide)
      have hs : ((part &&& 0x7f).toNat <<< (7 * i)) % 2 ^ 64 < 2 ^ (7 * (i + 1)) := by
        apply lt_of_le_of_lt (Nat.mod_le _ _)
        rw [Nat.shiftLeft_eq,Nat.mul_succ,pow_add,mul_comm (2 ^ (7 * i))]
        exact Nat.mul_lt_mul_of_pos_right hlow (Nat.two_pow_pos _)
      have hm : 2 ^ (7 * i) ≤ 2 ^ (7 * (i + 1)) := Nat.pow_le_pow_right (by decide) (by omega)
      have hv := Nat.or_lt_two_pow (lt_of_lt_of_le hacc hm) hs
      split at h
      · cases h
        rw [Nat.add_sub_cancel_left]
        exact hv
      · have hn := ((readVarFrom_sat encoded remaining _ _ _).of_ok h).1
        have hlt := ih h hv
        rwa [show i + 1 + (next - (position + 1)) = i + (next - position) by dsimp only at hn; omega] at hlt

private theorem readVarFrom_shift {encoded body : Bytes} {start : Nat}
    (hb : ∀ k, encoded[start + k]? = body[k]?) (remaining : Nat) : ∀ i position acc,
    readVarFrom encoded remaining i (start + position) acc =
      (fun r => (r.1, start + r.2)) <$> readVarFrom body remaining i position acc := by
  induction remaining with
  | zero => intro i position acc; rfl
  | succ remaining ih =>
    intro i position acc
    rw [readVarFrom,readVarFrom,hb]
    cases body[position]? with
    | none => rfl
    | some part =>
      dsimp only
      split
      · rfl
      · exact ih (i + 1) (position + 1) _
end Varint

section Records
variable {record : KVRecord} {encoded body : Bytes} {records : List KVRecord} {position : Nat} {bodies : List Bytes}
/-- The bytes of a record body: the key length, the key and the value. -/
def KVBody (body : Bytes) (record : KVRecord) : Prop :=
  ∃ lead, body = lead ++ record.key ++ record.value.getD [] ∧
    readVar body 0 5 = .ok (record.key.length, lead.length) ∧ record.value ≠ some []

open KVRecord
private theorem kvBody_body (hkey : record.key.length ≤ maxRowBytes)
    (hv : record.value ≠ some []) : KVBody record.body record := by
  have hm := maxRowBytes_eq
  refine ⟨varBytes 10 record.key.length,rfl,?_,hv⟩
  have hh : HoldsAt record.body 0 (varBytes 10 record.key.length) := by
    have hs := holdsAt_self record.body
    rw [body,append_assoc] at hs ⊢
    exact (append_iff.mp hs).1
  have hr : readVar record.body 0 5 = .ok (record.key.length, 0 + (varBytes 10 record.key.length).length) :=
    readVar_varBytes hh (by omega) (by omega) (by decide)
  rwa [Nat.zero_add] at hr

private theorem KVBody.length_pos (h : KVBody body record) : 0 < body.length := by
  obtain ⟨lead,hb,hr,_⟩ := h
  have hl := ((readVar_sat body 0 5).of_ok hr).1
  rw [hb]
  simp only [length_append]
  omega

private theorem KVBody.body_length_le (h : KVBody body record) : record.body.length ≤ body.length := by
  obtain ⟨lead,hb,hr,_⟩ := h
  have hl := ((readVar_sat body 0 5).of_ok hr).1
  have hlt := readVarFrom_lt 5 hr (by decide)
  have hle := varBytes_length_le 10 (n := lead.length) hl (by simpa using hlt)
  rw [hb]
  simp only [KVRecord.body,appendVar32,appendVar64,nil_append,length_append]
  omega

private theorem take_getElem?_body (h : HoldsAt encoded position body) (k : Nat) :
    (encoded.take (position + body.length))[position + k]? = body[k]? := by
  have hs := slice_getElem? encoded position body.length k
  rw [h.2] at hs
  rw [hs,getElem?_take]
  by_cases hk : k < body.length
  · rw [if_pos hk,if_pos (by omega)]
  · rw [if_neg hk,if_neg (by omega)]

private theorem readVar_body (h : HoldsAt encoded position body) :
    readVar (encoded.take (position + body.length)) position 5 =
      (fun r => (r.1, position + r.2)) <$> readVar body 0 5 :=
  readVarFrom_shift (take_getElem?_body h) 5 0 0 0

private theorem decodeKVRecord_of_holdsAt (h : HoldsAt encoded position (kvFrame body)) (hb : KVBody body record)
    (hlt : body.length < 2 ^ 32) :
    decodeKVRecord encoded position = .ok (record, position + (kvFrame body).length) := by
  have hpos := hb.length_pos
  obtain ⟨lead,hl,hre,hva⟩ := hb
  rw [kvFrame,append_iff,littleBytes_length] at h
  obtain ⟨hle,hh⟩ := h
  have hend := hh.1
  have hp : HoldsAt encoded (position + 4) (lead ++ (record.key ++ record.value.getD [])) := by
    rw [← append_assoc,← hl]
    exact hh
  obtain ⟨hkey,hr⟩ := append_iff.mp (append_iff.mp hp).2
  have hs : body.length = lead.length + record.key.length + (record.value.getD []).length := by
    rw [hl]
    simp only [length_append]
  rw [decodeKVRecord,if_neg (by omega),readLittle_of_holdsAt hle (by omega),bind_ok,
    if_neg (by omega)]
  dsimp only
  rw [readVar_body hh,hre,map_ok,mapErr_ok,bind_ok]
  rw [if_neg (by omega),subslice_ok hkey.1,hkey.2,bind_ok,kvFrame,length_append,littleBytes_length,
    ← Nat.add_assoc]
  cases hv : record.value with
  | none =>
    rw [hv] at hs
    simp only [getD_none,length_nil,Nat.add_zero] at hs
    rw [if_neg (by omega),← hv]
    rfl
  | some value =>
    rw [hv] at hs hr hva
    rw [getD_some] at hs hr
    have hne : 0 < value.length := length_pos_of_ne_nil fun hnil => hva (by rw [hnil])
    rw [if_pos (by omega),show position + 4 + body.length =
      position + 4 + lead.length + record.key.length + value.length by omega,subslice_ok hr.1,hr.2,
      bind_ok,← hv]
    rfl

private theorem slice_slice {bs : Bytes} {position length a n : Nat} (h : a + n ≤ length) :
    slice (slice bs position length) a n = slice bs (position + a) n := by
  simp only [slice,drop_take,drop_drop,take_take]
  rw [Nat.min_eq_left (by omega)]

private theorem split_at_key (body : Bytes) (lead n : Nat) :
    body = body.take lead ++ slice body lead n ++ body.drop (lead + n) := by
  rw [slice,append_assoc,← drop_drop,take_append_drop,take_append_drop]

private theorem decodeKVRecord_eq_ok {next : Nat} (h : decodeKVRecord encoded position = .ok (record, next)) :
    ∃ body, HoldsAt encoded position (kvFrame body) ∧ KVBody body record ∧ next = position + (kvFrame body).length := by
  rw [decodeKVRecord] at h
  obtain ⟨hf,h⟩ := of_guard h
  rw [readLittle_ok (by omega),bind_ok] at h
  generalize hle : littleNat (slice encoded position 4) = length at h
  obtain ⟨hra,h⟩ := of_guard h
  have hfi : position + 4 + length ≤ encoded.length := by omega
  -- The body is what the length field delimits.
  generalize hb : slice encoded (position + 4) length = body
  have hs : body.length = length := by rw [← hb,slice_length _ _ _ hfi]
  have hh : HoldsAt encoded (position + 4) body := ⟨by omega,by rw [hs,hb]⟩
  have hfr : HoldsAt encoded position (kvFrame body) := by
    rw [kvFrame,append_iff,littleBytes_length]
    refine ⟨⟨by rw [littleBytes_length]; omega,?_⟩,hh⟩
    have hf : (slice encoded position 4).length = 4 := slice_length _ _ _ (by omega)
    have hl := littleBytes_littleNat (slice encoded position 4)
    rw [hf,hle] at hl
    rw [littleBytes_length,hs,hl]
  have hend : (kvFrame body).length = 4 + length := by rw [kvFrame,length_append,littleBytes_length,hs]
  dsimp only at h
  rw [← hs,readVar_body hh] at h
  obtain ⟨⟨keyLength,keyStart⟩,hr,h⟩ := of_bind h
  obtain ⟨⟨n,lead⟩,hvar,hp⟩ := map_eq_ok.mp (mapErr_eq_ok.mp hr)
  cases hp
  have hlea := ((readVar_sat body 0 5).of_ok hvar).2
  dsimp only at h hlea
  obtain ⟨hk,h⟩ := of_guard h
  have hkey : lead + n ≤ body.length := by omega
  have hsl : slice encoded (position + 4 + lead) n = slice body lead n := by
    rw [← hb,slice_slice (by omega)]
  have hsp := split_at_key body lead n
  have hvar' : readVar body 0 5 = .ok ((slice body lead n).length, (body.take lead).length) := by
    rw [hvar,slice_length body lead n hkey,length_take,Nat.min_eq_left (by omega)]
  rw [subslice_ok (by omega),hsl,bind_ok] at h
  refine ⟨body,hfr,?_⟩
  split at h
  · have hre : slice encoded (position + 4 + lead + n) (body.length - (lead + n)) = body.drop (lead + n) := by
      rw [Nat.add_assoc (position + 4),← @slice_slice encoded (position + 4) length _ _ (by omega),hb]
      exact take_of_length_le (by rw [length_drop])
    rw [show position + 4 + body.length = position + 4 + lead + n + (body.length - (lead + n)) by omega,
      subslice_ok (by omega),hre,bind_ok] at h
    cases h
    refine ⟨⟨body.take lead,hsp,hvar',?_⟩,by omega⟩
    rw [Ne,some.injEq,drop_eq_nil_iff]
    omega
  · cases h
    rw [drop_eq_nil_of_le (by omega)] at hsp
    exact ⟨⟨body.take lead,hsp,hvar',by simp⟩,by omega⟩

private theorem decodeKVRecords_of_holdsAt (hlt : encoded.length < 2 ^ 32) (hb : List.Forall₂ KVBody bodies records) :
    ∀ {position : Nat}, HoldsAt encoded position (bodies.flatMap kvFrame) →
      decodeKVRecords encoded records.length position =
        .ok (records, position + (bodies.flatMap kvFrame).length) := by
  induction hb with
  | nil => intro position _; rfl
  | @cons body record bodies records hbo _ ih =>
    intro position h
    rw [flatMap_cons,append_iff] at h
    have hl : body.length < 2 ^ 32 := by
      have hend := h.1.1
      rw [kvFrame,length_append] at hend
      omega
    rw [length_cons,decodeKVRecords,decodeKVRecord_of_holdsAt h.1 hbo hl,bind_ok]
    dsimp only
    rw [ih h.2,bind_ok,flatMap_cons,length_append,Nat.add_assoc]
    rfl

private theorem decodeKVRecords_eq_ok : ∀ {count position last : Nat} {records : List KVRecord},
    decodeKVRecords encoded count position = .ok (records, last) → position ≤ encoded.length →
    records.length = count ∧ ∃ bodies, List.Forall₂ KVBody bodies records ∧
      HoldsAt encoded position (bodies.flatMap kvFrame) ∧ last = position + (bodies.flatMap kvFrame).length := by
  intro count
  induction count with
  | zero =>
    intro position last records h hp
    cases h
    exact ⟨rfl,[],.nil,⟨hp,rfl⟩,rfl⟩
  | succ count ih =>
    intro position last records h _
    obtain ⟨⟨record,next⟩,hr,h⟩ := of_bind h
    obtain ⟨⟨rest,last'⟩,hres,h⟩ := of_bind h
    cases h
    obtain ⟨body,hh,hbo,rfl⟩ := decodeKVRecord_eq_ok hr
    obtain ⟨hc,bodies,hb,hre,hl⟩ := ih hres hh.1
    refine ⟨by rw [length_cons,hc],body :: bodies,.cons hbo hb,?_,?_⟩
    · rw [flatMap_cons,append_iff]
      exact ⟨hh,hre⟩
    · rw [hl,flatMap_cons,length_append,Nat.add_assoc]

def kvFrames (records : List KVRecord) : Bytes := (records.map KVRecord.body).flatMap kvFrame

private theorem encodeKVRecords_eq_ok : ∀ {size : Nat} {out : Bytes}, size ≤ maxRowBytes →
    (encodeKVRecords size records = .ok out ↔ out = kvFrames records ∧ size + out.length ≤ maxRowBytes) := by
  induction records with
  | nil =>
    intro size out hs
    rw [encodeKVRecords,ok.injEq,eq_comm]
    constructor
    · rintro rfl
      exact ⟨rfl,hs⟩
    · exact And.left
  | cons record records ih =>
    intro size out hs
    have hfr : (kvFrame record.body).length = 4 + record.body.length := by
      rw [kvFrame,length_append,littleBytes_length]
    have hp : record.key.length + (record.value.getD []).length ≤ record.body.length := by
      simp only [body,length_append]
      omega
    have hf : kvFrames (record :: records) = kvFrame record.body ++ kvFrames records := rfl
    rw [encodeKVRecords]
    by_cases hfi : size + 4 + record.body.length ≤ maxRowBytes
    · rw [if_neg (by omega),if_neg (by omega)]
      constructor
      · intro h
        obtain ⟨rest,hr,h⟩ := of_bind h
        cases h
        obtain ⟨rfl,hle⟩ := (ih hfi).mp hr
        rw [length_append]
        exact ⟨hf.symm,by omega⟩
      · rintro ⟨rfl,hle⟩
        rw [hf,length_append] at hle
        rw [(ih hfi).mpr ⟨rfl,by omega⟩]
        rfl
    · constructor
      · intro h
        have h := (of_guard h).2
        rw [if_pos (by omega)] at h
        simp at h
      · rintro ⟨rfl,hle⟩
        rw [hf,length_append] at hle
        omega

private theorem kvFrames_length_le (h : List.Forall₂ KVBody bodies records) :
    (kvFrames records).length ≤ (bodies.flatMap kvFrame).length := by
  induction h with
  | nil => exact Nat.le_refl _
  | cons hb _ ih =>
    have hle := hb.body_length_le
    simp only [kvFrames,map_cons,flatMap_cons,length_append,kvFrame,littleBytes_length] at ih ⊢
    omega

private theorem kvBodies_bodies (hv : ∀ record ∈ records, record.value ≠ some [])
    (hmax : (kvFrames records).length ≤ maxRowBytes) : List.Forall₂ KVBody (records.map KVRecord.body) records := by
  induction records with
  | nil => exact .nil
  | cons record records ih =>
    have hf : (kvFrames (record :: records)).length = 4 + record.body.length + (kvFrames records).length := by
      simp only [kvFrames,map_cons,flatMap_cons,length_append,kvFrame,littleBytes_length]
    have hkey : record.key.length ≤ record.body.length := by
      simp only [body,length_append]
      omega
    apply List.Forall₂.cons (kvBody_body (by omega) (hv record mem_cons_self))
    exact ih (fun r hr => hv r (mem_cons_of_mem _ hr)) (by omega)

private theorem kvBodies_values (h : List.Forall₂ KVBody bodies records) :
    ∀ record ∈ records, record.value ≠ some [] := by
  induction h with
  | nil => simp
  | cons hb _ ih =>
    obtain ⟨_,_,_,hv⟩ := hb
    intro record hr
    rcases mem_cons.mp hr with rfl | hr
    · exact hv
    · exact ih record hr

theorem key_length_le_kvFrames (h : record ∈ records) : record.key.length ≤ (kvFrames records).length := by
  induction records with
  | nil => simp at h
  | cons first records ih =>
    simp only [kvFrames,map_cons,flatMap_cons,length_append,kvFrame,body] at ih ⊢
    rcases mem_cons.mp h with rfl | h
    · omega
    · have hle := ih h
      omega

private theorem kvFrames_count_le (records : List KVRecord) : 5 * records.length ≤ (kvFrames records).length := by
  induction records with
  | nil => exact Nat.zero_le _
  | cons record records ih =>
    have hpos : 0 < (varBytes 10 record.key.length).length := varBytes_length_pos (by decide)
    simp only [kvFrames,map_cons,flatMap_cons,length_append,kvFrame,littleBytes_length,body,
      appendVar32,appendVar64,nil_append,length_cons] at ih ⊢
    omega
end Records

section Batch
variable {checksum : Bytes → BitVec 32} {b : KVBatch} {encoded : Bytes}

theorem kvBatchBytes_length (b : KVBatch) (records : Bytes) :
    (kvBatchBytes checksum (kvBatchTail b records)).length = kvBatchHeaderSize + records.length := by
  simp only [kvBatchBytes,kvBatchTail,kvBatchHeaderSize,length_append,length_cons,littleBytes_length]
  omega

theorem KVBatch.encode_eq_ok : b.encode checksum = .ok encoded ↔
    encoded = kvBatchBytes checksum (kvBatchTail b (kvFrames b.records)) ∧ encoded.length ≤ maxRowBytes := by
  have hm := maxRowBytes_eq
  have hc := kvFrames_count_le b.records
  have hl : (kvBatchBytes checksum (kvBatchTail b (kvFrames b.records))).length =
      kvBatchHeaderSize + (kvFrames b.records).length := kvBatchBytes_length b _
  rw [KVBatch.encode]
  constructor
  · intro h
    have h := (of_guard h).2
    obtain ⟨records,hr,h⟩ := of_bind h
    obtain ⟨rfl,hle⟩ := (encodeKVRecords_eq_ok (by decide)).mp hr
    cases h
    exact ⟨rfl,by omega⟩
  · rintro ⟨rfl,hle⟩
    rw [if_neg (by omega),(encodeKVRecords_eq_ok (by decide)).mpr ⟨rfl,by omega⟩]
    rfl

private theorem decodeKVBatch_kvBatchBytes {bodies : List Bytes} (hb : List.Forall₂ KVBody bodies b.records)
    (h : encoded = kvBatchBytes checksum (kvBatchTail b (bodies.flatMap kvFrame))) (hmax : encoded.length ≤ maxRowBytes) :
    decodeKVBatch checksum encoded = .ok b := by
  have hm := maxRowBytes_eq
  have hl : encoded.length = kvBatchHeaderSize + (bodies.flatMap kvFrame).length := by
    rw [h,kvBatchBytes_length]
  have hc : 5 * b.records.length ≤ (bodies.flatMap kvFrame).length :=
    (kvFrames_count_le b.records).trans (kvFrames_length_le hb)
  have hs := holdsAt_self encoded
  have hsi : 5 + (kvBatchTail b (bodies.flatMap kvFrame)).length = encoded.length - 4 := by
    rw [h]
    simp only [kvBatchBytes,length_append,length_cons,littleBytes_length]
    omega
  nth_rewrite 2 [h] at hs
  simp only [kvBatchBytes,append_iff,cons_iff,littleBytes_length,hsi] at hs
  obtain ⟨hlen,hma,hsum,ht⟩ := hs
  have hd : encoded.drop 9 = kvBatchTail b (bodies.flatMap kvFrame) := by
    rw [← ht.2,slice,take_of_length_le (by rw [length_drop]; omega)]
  simp only [kvBatchTail,append_iff,cons_iff,littleBytes_length] at ht
  obtain ⟨hsc,_,hw,hse,hr,hf⟩ := ht
  have hh : kvBatchHeaderSize = 28 := rfl
  rw [show 0 + 4 + 1 + 4 + 2 + 1 + 8 + 4 + 4 = kvBatchHeaderSize from rfl] at hf
  rw [decodeKVBatch,if_neg (by rw [hma]; simp; omega),readLittle_of_holdsAt hlen (by omega),bind_ok,
    readLittle_of_holdsAt hsum (bitVec_lt 4 _),bind_ok,hd,if_neg (by simp),
    readLittle_of_holdsAt hr (by omega),bind_ok,if_neg (by omega),
    readLittle_of_holdsAt hsc (bitVec_lt 2 _),bind_ok,
    readLittle_of_holdsAt hw (bitVec_lt 8 _),bind_ok,
    readLittle_of_holdsAt hse (bitVec_lt 4 _),bind_ok,
    decodeKVRecords_of_holdsAt (by omega) hb hf,bind_ok]
  dsimp only
  rw [if_neg (by omega)]
  simp only [ofNat_toNat]
  rfl

private theorem decodeKVBatch_eq_ok (h : decodeKVBatch checksum encoded = .ok b) :
    ∃ bodies, List.Forall₂ KVBody bodies b.records ∧ encoded.length ≤ maxRowBytes ∧
      kvBatchHeaderSize ≤ encoded.length ∧ encoded.drop kvBatchHeaderSize = bodies.flatMap kvFrame := by
  rw [decodeKVBatch] at h
  obtain ⟨hhe,h⟩ := of_guard h
  obtain ⟨length,_,h⟩ := of_bind h
  obtain ⟨sum,_,h⟩ := of_bind h
  have h := (of_guard h).2
  obtain ⟨count,_,h⟩ := of_bind h
  have h := (of_guard h).2
  obtain ⟨schemaID,_,h⟩ := of_bind h
  obtain ⟨writerID,_,h⟩ := of_bind h
  obtain ⟨batchSequence,_,h⟩ := of_bind h
  obtain ⟨⟨records,position⟩,hr,h⟩ := of_bind h
  obtain ⟨hend,h⟩ := of_guard h
  cases h
  obtain ⟨_,bodies,hb,hh,hl⟩ := decodeKVRecords_eq_ok hr (by omega)
  refine ⟨bodies,hb,by omega,by omega,?_⟩
  rw [← hh.2,slice,take_of_length_le (by rw [length_drop]; omega)]
/-- Batches without empty values come back from their bytes, and what the decoder accepts is tiled by
record bodies and encodes to bytes that decode to the same batch. -/
theorem kvBatch_roundTrip (checksum : Bytes → BitVec 32) :
    (∀ (b : KVBatch) (encoded : Bytes), (∀ record ∈ b.records, record.value ≠ some []) →
      b.encode checksum = .ok encoded → decodeKVBatch checksum encoded = .ok b) ∧
    (∀ (schema : Schema) (row : Row) (value : Bytes), encodeCompactedRow schema row = .ok value → value ≠ []) ∧
    ∀ (encoded : Bytes) (b : KVBatch), decodeKVBatch checksum encoded = .ok b →
      (∃ header bodies, encoded = header ++ bodies.flatMap kvFrame ∧ header.length = kvBatchHeaderSize ∧
        List.Forall₂ KVBody bodies b.records) ∧
      ∃ again, b.encode checksum = .ok again ∧ decodeKVBatch checksum again = .ok b := by
  have hround : ∀ (b : KVBatch) (encoded : Bytes), (∀ record ∈ b.records, record.value ≠ some []) →
      b.encode checksum = .ok encoded → decodeKVBatch checksum encoded = .ok b := by
    intro b encoded hvalues h
    obtain ⟨hencoded,hmax⟩ := KVBatch.encode_eq_ok.mp h
    have hsize := hmax
    rw [hencoded,kvBatchBytes_length] at hsize
    exact decodeKVBatch_kvBatchBytes (kvBodies_bodies hvalues (by omega)) hencoded hmax
  refine ⟨hround,fun schema row value h => encodeCompactedRow_ne_nil h,?_⟩
  intro encoded b h
  obtain ⟨bodies,hbodies,hmax,hheader,hdrop⟩ := decodeKVBatch_eq_ok h
  refine ⟨⟨encoded.take kvBatchHeaderSize,bodies,?_,?_,hbodies⟩,?_⟩
  · rw [← hdrop,take_append_drop]
  · rw [length_take,Nat.min_eq_left hheader]
  have hle := kvFrames_length_le hbodies
  have hlength := congrArg List.length hdrop
  rw [length_drop] at hlength
  have hagain : b.encode checksum = .ok (kvBatchBytes checksum (kvBatchTail b (kvFrames b.records))) :=
    KVBatch.encode_eq_ok.mpr ⟨rfl,by rw [kvBatchBytes_length]; omega⟩
  exact ⟨_,hagain,hround b _ (kvBodies_values hbodies) hagain⟩
end Batch

def castagnoli (bs : Bytes) : BitVec 32 := BitVec.ofNat 32 (crc32c bs)

def sampleKVBatch : KVBatch where
  schemaID := 1
  writerID := 7
  batchSequence := 3
  records := [⟨[1],some sampleCompacted⟩, ⟨[2],none⟩]

theorem kvBatch_roundTrip_sample : ∃ encoded, sampleCompacted ≠ [] ∧
    sampleKVBatch.encode castagnoli = .ok encoded ∧ decodeKVBatch castagnoli encoded = .ok sampleKVBatch ∧
    ∃ header bodies, encoded = header ++ bodies.flatMap kvFrame ∧ header.length = kvBatchHeaderSize ∧
      List.Forall₂ KVBody bodies sampleKVBatch.records := by
  obtain ⟨hdecode,hvalue,htile⟩ := kvBatch_roundTrip castagnoli
  have hrow : sampleCompacted ≠ [] := hvalue sampleSchema sampleRow sampleCompacted (by decide)
  have hvalues : ∀ record ∈ sampleKVBatch.records, record.value ≠ some [] := by
    simpa [sampleKVBatch] using hrow
  have hencode : sampleKVBatch.encode castagnoli =
      .ok (kvBatchBytes castagnoli (kvBatchTail sampleKVBatch (kvFrames sampleKVBatch.records))) :=
    KVBatch.encode_eq_ok.mpr ⟨rfl,by rw [kvBatchBytes_length]; decide⟩
  have hread := hdecode sampleKVBatch _ hvalues hencode
  exact ⟨_,hrow,hencode,hread,(htile _ _ hread).1⟩
end FlussGo
