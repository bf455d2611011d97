import FlussGo.Row.Value
/-!
# Minimal integers and exact timestamps

The bytes of a large decimal against the shortest two's complement form, and the timestamp decoders
against the parts that they read.
-/
namespace FlussGo
open Outcome Int List
section Minimal
variable {bs : Bytes} {v : Int}
/-- The bytes are a two's complement form of `v`, most significant byte first. -/
def TwosComplement (bs : Bytes) (v : Int) : Prop :=
  bs ≠ [] ∧ -(256 ^ bs.length : Nat) ≤ 2 * v ∧ 2 * v < (256 ^ bs.length : Nat) ∧ v % (256 ^ bs.length : Nat) = bigNat bs

def ShortestForm (bs : Bytes) (v : Int) : Prop :=
  TwosComplement bs v ∧ ∀ bs', TwosComplement bs' v → bs.length ≤ bs'.length

theorem twosComplement_signedBigInt (h : bs ≠ []) : TwosComplement bs (signedBigInt bs) := by
  have hlt := bigNat_lt bs
  by_cases hs : 2 * bigNat bs < 256 ^ bs.length
  · rw [signedBigInt_of_lt hs]
    exact ⟨h,by omega,by omega,emod_eq_of_lt (by omega) (by omega)⟩
  · rw [signedBigInt_of_ge (by omega)]
    refine ⟨h,by omega,by omega,?_⟩
    rw [sub_emod_right]
    exact emod_eq_of_lt (by omega) (by omega)

private theorem bigNat_bigWord {w n : Nat} (h : n < 256 ^ w) : bigNat (bigWord w n) = n := by
  rw [bigNat,bigWord,reverse_reverse,littleNat_littleBytes_of_lt h]

private theorem shortestForm_iff (h : TwosComplement bs v) : ShortestForm bs v ↔
    (bs.length ≠ 1 → ¬(-(256 ^ (bs.length - 1) : Nat) ≤ 2 * v ∧ 2 * v < (256 ^ (bs.length - 1) : Nat))) := by
  have hpos := length_pos_iff.mpr h.1
  constructor
  · rintro ⟨_,hmin⟩ hone ⟨hlo,hhi⟩
    have hmod' := emod_lt_of_pos v (show (0 : Int) < (256 ^ (bs.length - 1) : Nat) by positivity)
    have hle := hmin (bigWord (bs.length - 1) (v % (256 ^ (bs.length - 1) : Nat)).toNat) (by
      refine ⟨?_,?_,?_,?_⟩
      · rw [← length_pos_iff,bigWord_length]
        omega
      · rwa [bigWord_length]
      · rwa [bigWord_length]
      · rw [bigWord_length,bigNat_bigWord (by omega)]
        omega)
    rw [bigWord_length] at hle
    omega
  · intro hfits
    refine ⟨h,fun bs' h' => ?_⟩
    by_contra hlt
    have hpos' := length_pos_iff.mpr h'.1
    have hpow : 256 ^ bs'.length ≤ 256 ^ (bs.length - 1) := Nat.pow_le_pow_right (by decide) (by omega)
    exact hfits (by omega) ⟨by have := h'.2.1; omega,by have := h'.2.2.1; omega⟩
/-- The bytes always represent the number, and they are the shortest that do unless the number is the
least one of its width. -/
theorem signedBigEndian_shortest_iff (v : Int) :
    signedBigInt (signedBigEndian v) = v ∧ TwosComplement (signedBigEndian v) v ∧
      (ShortestForm (signedBigEndian v) v ↔ ∀ k : Nat, v ≠ -2 ^ (8 * k + 7)) := by
  have hlen := signedBigEndian_length v
  have hform : TwosComplement (signedBigEndian v) v := by
    have h := twosComplement_signedBigInt (show signedBigEndian v ≠ [] by rw [← length_pos_iff]; omega)
    rwa [signedBigInt_signedBigEndian] at h
  refine ⟨signedBigInt_signedBigEndian v,hform,?_⟩
  rw [shortestForm_iff hform,hlen,Nat.add_sub_cancel]
  set q := bitLen v.natAbs / 8 with hq
  constructor
  · rintro h k rfl
    have habs : (-2 ^ (8 * k + 7) : Int).natAbs = 2 ^ (8 * k + 7) := by
      rw [natAbs_neg,natAbs_pow]
      rfl
    have hbits : bitLen (2 ^ (8 * k + 7)) = 8 * k + 8 := by
      apply Nat.le_antisymm
      · exact bitLen_le (Nat.pow_lt_pow_right (by decide) (by omega))
      · exact (le_bitLen_iff (by omega)).mpr (Nat.pow_le_pow_right (by decide) (by omega))
    rw [habs,hbits] at hq
    have hpow : 256 ^ q = 2 * 2 ^ (8 * k + 7) := by
      rw [pow_256,← pow_succ']
      congr 1
      omega
    refine h (by omega) ⟨?_,?_⟩
    · rw [hpow]
      push_cast
      omega
    · have hpos : (0 : Int) < 2 ^ (8 * k + 7) := by positivity
      rw [hpow]
      push_cast
      omega
  · rintro h hone ⟨hlo,hhi⟩
    have hge : 2 ^ (8 * q - 1) ≤ v.natAbs := (le_bitLen_iff (by omega)).mp (by omega)
    have hpow : 256 ^ q = 2 * 2 ^ (8 * q - 1) := by
      rw [pow_256,← pow_succ',Nat.sub_add_cancel (by omega)]
    refine h (q - 1) ?_
    have hexp : 8 * (q - 1) + 7 = 8 * q - 1 := by omega
    rw [hexp]
    have hcast : ((2 ^ (8 * q - 1) : Nat) : Int) = 2 ^ (8 * q - 1) := by push_cast; rfl
    rw [← hcast]
    omega
/-- `-128` takes one byte, and it is written in two. -/
theorem signedBigEndian_not_shortest :
    signedBigEndian (-128) = [0xFF, 0x80] ∧ TwosComplement [0x80] (-128) ∧ ¬ShortestForm (signedBigEndian (-128)) (-128) := by
  have hbytes : signedBigEndian (-128) = [0xFF, 0x80] := by decide
  have hshort : TwosComplement [0x80] (-128) := ⟨by simp,by decide,by decide,by decide⟩
  refine ⟨hbytes,hshort,fun h => ?_⟩
  have := h.2 _ hshort
  rw [hbytes] at this
  simp at this
end Minimal

section Timestamps
variable {kind : DataType} {t : LogicalType}
/-- The decoded value has the stored parts, and the nanoseconds lie inside a millisecond. -/
def HoldsParts (kind : DataType) (v : Value) (millis : BitVec 64) (nanos : Int) : Prop :=
  (0 ≤ nanos ∧ nanos ≤ 999999) ∧ ∃ x, v = .time x ∧ timestampParts kind x = (millis, BitVec.ofInt 32 nanos)

private theorem holdsParts_timestampTime (hk : kind = .timestamp ∨ kind = .timestampLTZ) (millis : BitVec 64) {nanos : Nat}
    (hn : nanos ≤ 999999) : HoldsParts kind (.time (timestampTime kind millis (BitVec.ofNat 32 nanos))) millis nanos := by
  refine ⟨by omega,_,rfl,?_⟩
  have hlo := millis.le_toInt
  have hhi := millis.toInt_lt
  conv_lhs => rw [← BitVec.ofInt_toInt (x := millis),← BitVec.ofInt_natCast]
  conv_rhs => rw [← BitVec.ofInt_toInt (x := millis)]
  generalize millis.toInt = m at hlo hhi
  rcases hk with rfl | rfl
  · rw [timestampTime_wall hlo hhi (by omega),timestampParts_wall]
    simp only [Time.milli,Time.wall]
    congr 2 <;> omega
  · rw [timestampTime_ltz hlo hhi (by omega),timestampParts_ltz]
    simp only [Time.milli]
    congr 2 <;> omega
/-- The parts that each decoder reads, for types that store nanoseconds. The compacted and the array
form keep the nanoseconds unsigned; the indexed form reads them as a signed word and accepts every
negative one, so it is exact just when the sign bit is clear. -/
theorem timestamps_decode_exactly_iff (hk : dataTypeForLogicalType t = .timestamp ∨ dataTypeForLogicalType t = .timestampLTZ)
    (hp : 3 < t.precision) (encoded : Bytes) (position slot next : Nat) (v : Value) :
    (readCompactedTimestamp encoded position t = .ok (v, next) → ∃ millis nanos middle,
      readVar encoded position 10 = .ok (millis, middle) ∧ readVar encoded middle 5 = .ok (nanos, next) ∧
      HoldsParts (dataTypeForLogicalType t) v (BitVec.ofNat 64 millis) nanos) ∧
    (readArrayTimestamp encoded slot t = .ok v → ∃ offset nanos value next,
      offsetSize encoded slot = .ok (offset, nanos) ∧ readFixed encoded offset 8 = .ok (value, next) ∧
      HoldsParts (dataTypeForLogicalType t) v (BitVec.ofNat 64 (littleNat value)) nanos) ∧
    (readIndexedTimestamp encoded position t = .ok (v, next) → ∃ value, readFixed encoded position 12 = .ok (value, next) ∧
      (HoldsParts (dataTypeForLogicalType t) v (BitVec.ofNat 64 (littleNat (slice value 0 8)))
        (BitVec.ofNat 32 (littleNat (slice value 8 4))).toInt ↔ 0 ≤ (BitVec.ofNat 32 (littleNat (slice value 8 4))).toInt)) := by
  refine ⟨?_,?_,?_⟩
  · intro h
    obtain ⟨⟨millis,middle⟩,hm,h⟩ := of_bind h
    dsimp only at h
    rw [if_pos hp] at h
    obtain ⟨⟨nanos,next'⟩,hn,h⟩ := of_bind h
    rw [mapErr_eq_ok] at hn
    obtain ⟨hle,h⟩ := of_guard h
    cases h
    exact ⟨millis,nanos,middle,hm,hn,holdsParts_timestampTime hk _ (by omega)⟩
  · intro h
    rw [readArrayTimestamp,if_neg (by omega)] at h
    obtain ⟨⟨offset,nanos⟩,ho,h⟩ := of_bind h
    obtain ⟨⟨value,next'⟩,hv,h⟩ := of_bind h
    rw [mapErr_eq_ok] at hv
    have hlen := (readFixed_sat encoded offset 8).of_ok hv
    dsimp only at h hlen
    obtain ⟨hle,h⟩ := of_guard h
    rw [readLittle_ok (by omega),bind_ok] at h
    cases h
    have hall : slice value 0 8 = value := by
      rw [slice,drop_zero,take_of_length_le (by omega)]
    exact ⟨offset,nanos,value,next',ho,hv,hall.symm ▸ holdsParts_timestampTime hk _ (by omega)⟩
  · intro h
    have hwidth : indexedLength t = 12 := by
      rcases hk with hk | hk <;> rw [indexedLength,hk] <;> exact if_pos hp
    obtain ⟨⟨value,next'⟩,hv,h⟩ := of_bind h
    rw [hwidth] at hv h
    have hlen := (readFixed_sat encoded position 12).of_ok hv
    dsimp only at h hlen
    rw [if_pos rfl,readLittle_ok (by omega),bind_ok] at h
    obtain ⟨hle,h⟩ := of_guard h
    rw [readLittle_ok (by omega),bind_ok] at h
    cases h
    refine ⟨value,hv,fun hheld => hheld.1.1,fun hnonneg => ?_⟩
    generalize BitVec.ofNat 32 (littleNat (slice value 8 4)) = nanos at hle hnonneg ⊢
    have hcast := BitVec.ofInt_toInt (x := nanos)
    obtain ⟨n,hn⟩ := eq_ofNat_of_zero_le hnonneg
    rw [hn,BitVec.ofInt_natCast] at hcast
    rw [hn]
    have := holdsParts_timestampTime hk (BitVec.ofNat 64 (littleNat (slice value 0 8))) (show n ≤ 999999 by omega)
    rwa [hcast] at this

def nanoTimestamp : LogicalType := { root := .named .timestampLTZ, precision := 6 }
/-- The millisecond before 1970, five nanoseconds in. -/
theorem timestamps_decode_exactly_before_epoch :
    ∃ value, readFixed (littleBytes 8 (2 ^ 64 - 1) ++ littleBytes 4 5) 0 12 = .ok (value, 12) ∧
      (HoldsParts .timestampLTZ (.time (timestampTime .timestampLTZ (-1) 5)) (BitVec.ofNat 64 (littleNat (slice value 0 8)))
        (BitVec.ofNat 32 (littleNat (slice value 8 4))).toInt ↔ 0 ≤ (BitVec.ofNat 32 (littleNat (slice value 8 4))).toInt) :=
  (timestamps_decode_exactly_iff (t := nanoTimestamp) (.inr rfl) (by decide) _ 0 0 12 _).2.2 rfl
/-- Four bytes that hold `-1` are accepted as nanoseconds, and the decoded instant has other parts. -/
theorem indexed_timestamp_accepts_negative :
    readIndexedTimestamp (littleBytes 8 0 ++ littleBytes 4 (2 ^ 32 - 1)) 0 nanoTimestamp =
      .ok (.time (timestampTime .timestampLTZ 0 (-1)), 12) ∧
      timestampParts .timestampLTZ (timestampTime .timestampLTZ 0 (-1)) = (-1, 999999) := by
  constructor
  · rfl
  · decide
end Timestamps
end FlussGo
