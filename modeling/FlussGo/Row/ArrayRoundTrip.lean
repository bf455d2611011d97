import FlussGo.Row.Stored
/-!
# Round trip of binary arrays and maps

An element write changes its own slot and the bytes after the buffer, so every later buffer reads it back.
-/
namespace FlussGo
open Nat Value
variable {slot start width reserved : Nat} {encoded encoded' value : Bytes}

open Outcome List
/-- `encoded'` differs from `encoded` in the slot and past its end only, and every later buffer that
keeps the slot and the bytes from `start` on has the property `P`. -/
structure SlotWrite (width start slot : Nat) (encoded encoded' : Bytes) (P : Bytes → Prop) : Prop where
  length_le : encoded.length ≤ encoded'.length
  frame : AgreeOn (fun i => i < slot ∨ slot + width ≤ i) encoded encoded'
  later : ∀ final, encoded'.length ≤ final.length →
    AgreeOn (fun i => (slot ≤ i ∧ i < slot + width) ∨ start ≤ i) encoded' final → P final

theorem SlotWrite.mono {P Q : Bytes → Prop} (h : SlotWrite width start slot encoded encoded' P)
    (hpq : ∀ final, encoded'.length ≤ final.length → P final → Q final) :
    SlotWrite width start slot encoded encoded' Q :=
  ⟨h.length_le,h.frame,fun final hl ha => hpq final hl (h.later final hl ha)⟩

theorem putLittle_eq_ok {ε : Type} {n : Nat} (h : (putLittle width encoded slot n : Outcome ε Bytes) = .ok encoded') :
    slot + width ≤ encoded.length ∧ encoded' = spliced width encoded slot n := by
  unfold putLittle at h
  split at h
  · exact ⟨‹_›,(ok.inj h).symm⟩
  · simp at h

theorem slotWrite_putLittle {n : Nat} (h : (putLittle width encoded slot n : Go Bytes) = .ok encoded')
    (hn : n < 256 ^ width) :
    SlotWrite width start slot encoded encoded' fun final => (readLittle width final slot : Go Nat) = .ok n := by
  obtain ⟨hlen,rfl⟩ := putLittle_eq_ok h
  refine ⟨(spliced_length n hlen).ge,agreeOn_spliced n hlen,fun final hl ha => ?_⟩
  have hh := (holdsAt_spliced n hlen).of_agreeOn ha hl fun i hi hi' => by
    rw [littleBytes_length] at hi'
    exact .inl ⟨hi,hi'⟩
  exact readLittle_of_holdsAt hh hn

theorem offsetSize_eq {offset size : Nat} (hs : size < 2 ^ 32)
    (h : (readLittle 8 encoded slot : Go Nat) = .ok (offset * 2 ^ 32 + size)) :
    offsetSize encoded slot = .ok (offset, size) := by
  rw [offsetSize,h,bind_ok,shiftRight_eq_div_pow,pure_eq]
  congr 2 <;> omega

theorem slotWrite_putOffsetSize {size : Nat} {tail : Bytes}
    (h : putOffsetSize (encoded ++ tail) slot encoded.length size = .ok encoded')
    (hsl : slot + 8 ≤ start) (hst : start ≤ encoded.length) (hmax : encoded.length ≤ maxRowBytes)
    (hsi : size < 2 ^ 32) : SlotWrite 8 start slot encoded encoded' fun final =>
      (readLittle 8 final slot : Go Nat) = .ok (encoded.length * 2 ^ 32 + size) ∧
        HoldsAt final encoded.length tail := by
  have hm := maxRowBytes_eq
  have hw : (encoded.length % 2 ^ 32) <<< 32 ||| size % 2 ^ 32 = encoded.length * 2 ^ 32 + size := by
    rw [mod_eq_of_lt (by omega),mod_eq_of_lt hsi,shiftLeft_eq,mul_comm,
      ← two_pow_add_eq_or_of_lt hsi]
  rw [putOffsetSize,hw] at h
  have hput : SlotWrite 8 start slot (encoded ++ tail) encoded' _ := slotWrite_putLittle h (by omega)
  obtain ⟨hlen,rfl⟩ := putLittle_eq_ok h
  refine ⟨?_,?_,fun final hl ha => ⟨hput.later final hl ha,?_⟩⟩
  · have := hput.length_le
    rw [length_append] at this
    omega
  · exact (agreeOn_append _ encoded tail).trans hput.frame (by simp)
  · have ht : HoldsAt (encoded ++ tail) encoded.length tail := by
      simpa using holdsAt_append_middle encoded tail []
    have hs := ht.of_agreeOn hput.frame hput.length_le fun i hi _ => .inr (by omega)
    exact hs.of_agreeOn ha hl fun i hi _ => .inr (by omega)

theorem appendArrayVariable_eq_ok (h : appendArrayVariable encoded slot value reserved = .ok encoded') :
    value.length ≤ reserved ∧ reserved + encoded.length ≤ maxRowBytes ∧
      putOffsetSize (encoded ++ (value ++ zeros (reserved - value.length))) slot encoded.length value.length =
        .ok encoded' := by
  unfold appendArrayVariable at h
  split at h
  · simp at h
  · exact ⟨by omega,by omega,h⟩
/-- The slot word of a variable value keeps its top bit clear, since offsets stay below 2^24. -/
theorem slotWrite_appendArrayVariable_word (h : appendArrayVariable encoded slot value reserved = .ok encoded')
    (hsl : slot + 8 ≤ start) (hs : start ≤ encoded.length) : SlotWrite 8 start slot encoded encoded' fun final =>
      (∃ word, (readLittle 8 final slot : Go Nat) = .ok word ∧ word < 2 ^ 63) ∧
        arrayVariable final slot = .ok value := by
  have hm := maxRowBytes_eq
  obtain ⟨hres,hmax,hput⟩ := appendArrayVariable_eq_ok h
  refine (slotWrite_putOffsetSize hput hsl hs (by omega) (by omega)).mono ?_
  rintro final _ ⟨hw,ht⟩
  refine ⟨⟨_,hw,by omega⟩,?_⟩
  have hv := (HoldsAt.append_iff.mp ht).1
  rw [arrayVariable,offsetSize_eq (by omega) hw,bind_ok]
  dsimp only
  rw [readFixed_of_holdsAt hv rfl]
  rfl

theorem slotWrite_appendArrayVariable (h : appendArrayVariable encoded slot value reserved = .ok encoded')
    (hsl : slot + 8 ≤ start) (hs : start ≤ encoded.length) :
    SlotWrite 8 start slot encoded encoded' fun final => arrayVariable final slot = .ok value :=
  (slotWrite_appendArrayVariable_word h hsl hs).mono fun _ _ hr => hr.2

theorem range_map_shiftRight (n x : Nat) :
    ((List.range n).map fun i => UInt8.ofNat (x >>> (8 * i))) = littleBytes n x := by
  induction n generalizing x with
  | zero => rfl
  | succ n ih =>
    rw [range_succ_eq_map,map_cons,map_map,littleBytes,← ih]
    congr 1
    · apply UInt8.toNat_inj.mp
      simp
    · apply map_congr_left
      intro i _
      simp only [Function.comp_apply,shiftRight_eq_div_pow]
      rw [Nat.div_div_eq_div_mul,Nat.succ_eq_add_one,mul_add,pow_add,mul_comm (2 ^ (8 * i))]
      rfl

theorem littleBytes_mod (width n : Nat) : littleBytes width (n % 256 ^ width) = littleBytes width n := by
  have h := littleBytes_littleNat (littleBytes width n)
  rwa [littleBytes_length,littleNat_littleBytes] at h

private theorem or_byte {hi lo i : Nat} (b : UInt8) (hi6 : i ≤ 6) (hlo : lo < 2 ^ (8 * i)) :
    hi * 2 ^ 56 + lo ||| b.toNat <<< (8 * i) = hi * 2 ^ 56 + (lo + b.toNat * 2 ^ (8 * i)) := by
  have hb : b.toNat < 2 ^ 8 := b.toNat_lt
  have hpow : 2 ^ 56 = 2 ^ (8 * i) * (2 ^ 8 * 2 ^ (48 - 8 * i)) := by
    rw [← pow_add,← pow_add]
    congr 1
    omega
  have hs : hi * 2 ^ 56 = 2 ^ (8 * i) * (2 ^ 8 * (hi * 2 ^ (48 - 8 * i))) := by
    rw [hpow]
    ring
  generalize hi * 2 ^ (48 - 8 * i) = q at hs
  calc hi * 2 ^ 56 + lo ||| b.toNat <<< (8 * i)
      = ((2 ^ 8 * q) <<< (8 * i) ||| lo) ||| b.toNat <<< (8 * i) := by
        rw [hs,two_pow_add_eq_or_of_lt hlo,shiftLeft_eq (2 ^ 8 * q),mul_comm (2 ^ 8 * q)]
    _ = (2 ^ 8 * q ||| b.toNat) <<< (8 * i) ||| lo := by
        rw [Nat.shiftLeft_or_distrib,Nat.or_assoc,Nat.or_comm lo,← Nat.or_assoc]
    _ = 2 ^ (8 * i) * (2 ^ 8 * q + b.toNat) + lo := by
        rw [← two_pow_add_eq_or_of_lt hb,shiftLeft_eq,mul_comm,two_pow_add_eq_or_of_lt hlo]
    _ = hi * 2 ^ 56 + (lo + b.toNat * 2 ^ (8 * i)) := by
        rw [hs]
        ring

theorem packInto_eq (value : Bytes) : ∀ (hi lo i : Nat), i + value.length ≤ 7 → lo < 2 ^ (8 * i) →
    packInto value i (hi * 2 ^ 56 + lo) = hi * 2 ^ 56 + (lo + littleNat value * 2 ^ (8 * i)) := by
  induction value with
  | nil => intro hi lo i _ _; simp [packInto,littleNat]
  | cons b value ih =>
    intro hi lo i hlen hlo
    rw [length_cons] at hlen
    have hb : b.toNat ≤ 255 := le_of_lt_succ b.toNat_lt
    have hpow : 2 ^ (8 * (i + 1)) = 256 * 2 ^ (8 * i) := by rw [mul_add,pow_add]; ring
    have hmul := mul_le_mul_right (2 ^ (8 * i)) hb
    rw [packInto,or_byte b (by omega) hlo,ih _ _ _ (by omega) (by omega),littleNat,hpow]
    ring

private theorem packed_eq (hv : value.length ≤ 7) :
    packInto value 0 ((value.length ||| 0x80) <<< 56) = (128 + value.length) * 2 ^ 56 + littleNat value := by
  have hor : value.length ||| 0x80 = 128 + value.length := by
    rw [Nat.or_comm]
    exact (two_pow_add_eq_or_of_lt (i := 7) (by omega) 1).symm
  have hp := packInto_eq value (128 + value.length) 0 0 (by omega) (by simp)
  rw [hor,shiftLeft_eq]
  simpa using hp

private theorem littleNat_short (hv : value.length ≤ 7) :
    256 ^ value.length * 256 ^ (7 - value.length) = 2 ^ 56 ∧ littleNat value < 2 ^ 56 := by
  have hpow : 256 ^ value.length * 256 ^ (7 - value.length) = 2 ^ 56 := by
    rw [← pow_add,Nat.add_sub_cancel' hv]
    norm_num
  refine ⟨hpow,(littleNat_lt value).trans_le ?_⟩
  rw [← hpow]
  exact Nat.le_mul_of_pos_right _ (by positivity)

private theorem packInto_lt (hv : value.length ≤ 7) :
    packInto value 0 ((value.length ||| 0x80) <<< 56) < 256 ^ 8 := by
  have hlt := (littleNat_short hv).2
  rw [packed_eq hv]
  omega

theorem unpackedArrayBytes_of_packed (hv : value.length ≤ 7)
    (h : (readLittle 8 encoded slot : Go Nat) = .ok (packInto value 0 ((value.length ||| 0x80) <<< 56))) :
    unpackedArrayBytes encoded slot = .ok value := by
  have hlt := littleNat_lt value
  obtain ⟨hpow,hs⟩ := littleNat_short hv
  rw [packed_eq hv] at h
  rw [unpackedArrayBytes,h,bind_ok,if_pos]
  · have hl : ((128 + value.length) * 2 ^ 56 + littleNat value) >>> 56 &&& 0x7f = value.length := by
      rw [shiftRight_eq_div_pow,show 0x7f = 2 ^ 7 - 1 from rfl,and_two_pow_sub_one_eq_mod]
      omega
    rw [hl,if_neg (by omega),range_map_shiftRight,pure_eq,← littleBytes_mod,← hpow]
    congr 1
    rw [add_mod,mul_comm (128 + value.length),mul_assoc,mul_mod_right,zero_add,mod_mod,
      mod_eq_of_lt hlt,littleBytes_littleNat]
  · rw [shiftRight_eq_div_pow]
    omega

theorem slotWrite_appendPackedArrayBytes (h : appendPackedArrayBytes encoded slot value = .ok encoded')
    (hsl : slot + 8 ≤ start) (hs : start ≤ encoded.length) :
    SlotWrite 8 start slot encoded encoded' fun final => unpackedArrayBytes final slot = .ok value := by
  unfold appendPackedArrayBytes at h
  split at h
  next hv =>
    exact (slotWrite_putLittle h (packInto_lt hv)).mono fun final _ hr => unpackedArrayBytes_of_packed hv hr
  · refine (slotWrite_appendArrayVariable_word h hsl hs).mono ?_
    rintro final _ ⟨⟨word,hw,hsm⟩,hr⟩
    rw [unpackedArrayBytes,hw,bind_ok,if_neg (by rw [shiftRight_eq_div_pow]; omega),hr]

section Element
variable {encoding : RowEncoding} {nested : Value → Go Bytes} {denested : Bytes → Go Value} {t : LogicalType}
  {start slot : Nat} {encoded encoded' : Bytes} {x : Time}

theorem ofNat_toNat {w : Nat} (x : BitVec w) : BitVec.ofNat w x.toNat = x := by simp

theorem bitVec_lt (width : Nat) (x : BitVec (8 * width)) : x.toNat < 256 ^ width := by
  rw [show (256 : Nat) = 2 ^ 8 from rfl,← pow_mul]
  exact x.isLt

theorem holdsAt_self (b : Bytes) : HoldsAt b 0 b := by
  simpa using holdsAt_append_middle [] b []

private theorem storedTime_millis {kind : DataType} (hk : kind = .timestamp ∨ kind = .timestampLTZ)
    (hf : TimeFits kind x) {precision : Int} (hp : precision ≤ 3) :
    timestampTime kind (timestampParts kind x).1 0 = storedTime kind precision x := by
  have h := timestampTime_timestampParts hk hf precision
  rwa [keptNanos,if_neg (by omega)] at h

private theorem storedTime_nanos {kind : DataType} (hk : kind = .timestamp ∨ kind = .timestampLTZ)
    (hf : TimeFits kind x) {precision : Int} (hp : 3 < precision) :
    timestampTime kind (timestampParts kind x).1 (timestampParts kind x).2 = storedTime kind precision x := by
  have h := timestampTime_timestampParts hk hf precision
  rwa [keptNanos,if_pos hp] at h

private theorem slotWrite_timestamp (hk : dataTypeForLogicalType t = .timestamp ∨ dataTypeForLogicalType t = .timestampLTZ)
    (hf : TimeFits (dataTypeForLogicalType t) x) (h : writeArrayTimestamp t x encoded slot = .ok encoded')
    (hsl : slot + 8 ≤ start) (hs : start ≤ encoded.length) (hmax : encoded.length ≤ maxRowBytes) :
    SlotWrite 8 start slot encoded encoded' fun final =>
      readArrayTimestamp final slot t = .ok (.time (storedTime (dataTypeForLogicalType t) t.precision x)) := by
  unfold writeArrayTimestamp at h
  dsimp only at h
  by_cases hp : t.precision ≤ 3
  · rw [if_pos hp] at h
    refine (slotWrite_putLittle h (bitVec_lt 8 _)).mono fun final _ hr => ?_
    rw [readArrayTimestamp,if_pos hp,hr,bind_ok,ofNat_toNat,storedTime_millis hk hf hp]
    rfl
  · have hn := (timestampParts_nanos_le (dataTypeForLogicalType t) x).1
    rw [if_neg hp,appendLittle] at h
    refine (slotWrite_putOffsetSize h hsl hs hmax (by omega)).mono ?_
    rintro final _ ⟨hw,ht⟩
    have hre : (readLittle 8 (littleBytes 8 (timestampParts (dataTypeForLogicalType t) x).1.toNat) 0 : Go Nat) =
        .ok (timestampParts (dataTypeForLogicalType t) x).1.toNat :=
      readLittle_of_holdsAt (holdsAt_self _) (bitVec_lt 8 _)
    rw [readArrayTimestamp,if_neg hp,offsetSize_eq (by omega) hw,bind_ok]
    dsimp only
    rw [readFixed_of_holdsAt ht (by simp),mapErr_ok,bind_ok]
    rw [if_neg (by omega),hre,bind_ok,ofNat_toNat,ofNat_toNat,
      storedTime_nanos hk hf (show 3 < t.precision by omega)]
    rfl

private theorem slotWrite_decimal {r : Option Rat} (h : writeArrayDecimal t r encoded slot = .ok encoded')
    (hsl : slot + 8 ≤ start) (hs : start ≤ encoded.length) :
    SlotWrite 8 start slot encoded encoded' fun final => readArrayDecimal final slot t = .ok (.rat r) := by
  obtain ⟨unscaled,hu,h⟩ := of_bind h
  have hr := (decimalUnscaled_eq_ok hu).1
  split at h
  next hp =>
    refine (slotWrite_putLittle h (bitVec_lt 8 _)).mono fun final _ hw => ?_
    rw [readArrayDecimal,if_pos hp,hw,bind_ok,ofNat_toNat,decimalUnscaled_toInt hu hp,hr]
    rfl
  next hp =>
    refine (slotWrite_appendArrayVariable h hsl hs).mono fun final _ hv => ?_
    rw [readArrayDecimal,if_neg hp,hv,bind_ok,signedBigInt_signedBigEndian,hr]
    rfl

private theorem slotWrite_bool {b : Bool} (hz : HoldsAt encoded slot (zeros 1))
    (h : (if b then putLittle 1 encoded slot 1 else .ok encoded : Go Bytes) = .ok encoded') :
    SlotWrite 1 start slot encoded encoded' fun final =>
      (byteAt final slot : Go UInt8) = .ok (if b then 1 else 0) := by
  have hb : ∀ (final : Bytes) (x : UInt8), HoldsAt final slot [x] → (byteAt final slot : Go UInt8) = .ok x := by
    intro final x hx
    rw [byteAt,(HoldsAt.cons_iff.mp hx).1]
  cases b with
  | true =>
    obtain ⟨hlen,rfl⟩ := putLittle_eq_ok h
    refine ⟨(spliced_length 1 hlen).ge,agreeOn_spliced 1 hlen,fun final hl ha => hb final 1 ?_⟩
    exact (holdsAt_spliced 1 hlen).of_agreeOn ha hl fun i hi hi' => .inl ⟨hi,hi'⟩
  | false =>
    obtain rfl : encoded = encoded' := ok.inj h
    exact ⟨Nat.le_refl _,AgreeOn.refl _ _,fun final hl ha =>
      hb final 0 (hz.of_agreeOn ha hl fun i hi hi' => .inl ⟨hi,hi'⟩)⟩

theorem storedBytes_element (encoding : RowEncoding) (root : Root) (length : Int) (b : Bytes) :
    storedBytes encoding false root length b = b := by
  simp [storedBytes,padded]

theorem slotWrite_element {v : Value}
    (h : writeArrayElementWith nested t v encoded slot = .ok encoded') (hfit : fits t v = true)
    (hn : ∀ b, nested v = .ok b → b.length ≤ maxRowBytes → denested b = .ok (stored encoding false t v))
    (hz : HoldsAt encoded slot (zeros (arraySlotSize t)))
    (hsl : slot + arraySlotSize t ≤ start) (hst : start ≤ encoded.length) (hmax : encoded.length ≤ maxRowBytes) :
    SlotWrite (arraySlotSize t) start slot encoded encoded' fun final =>
      readArrayElementWith denested t final slot = .ok (stored encoding false t v) := by
  -- It is enough to look behind the bounds check.
  suffices hs : SlotWrite (arraySlotSize t) start slot encoded encoded' fun final =>
      slot + arraySlotSize t ≤ final.length →
        readArrayElementWith denested t final slot = .ok (stored encoding false t v) from
    hs.mono fun final hl hre => hre (by have := hs.length_le; omega)
  unfold writeArrayElementWith at h
  unfold readArrayElementWith
  unfold arraySlotSize at hz hsl ⊢
  cases hk : dataTypeForLogicalType t with
  | bool =>
    simp only [hk] at h hz hsl ⊢
    obtain ⟨b,rfl,h⟩ := bind_as_eq_ok asBool_eq_ok h
    refine (slotWrite_bool hz h).mono fun final _ hr hl => ?_
    rw [if_neg (by omega),hr]
    cases b <;> simp
  | tinyInt | smallInt | int | bigInt | float | double =>
    simp only [hk] at h hsl ⊢
    obtain ⟨x,hx,h⟩ := of_bind h
    obtain rfl : v = _ := by simpa using hx
    refine (slotWrite_putLittle h x.isLt).mono fun final _ hr hl => ?_
    rw [if_neg (by omega),hr]
    simp
  | date | time =>
    simp only [hk] at h hsl ⊢
    obtain ⟨x,rfl,h⟩ := bind_as_eq_ok asTime_eq_ok h
    rw [fits_time,hk,decide_eq_true_eq] at hfit
    refine (slotWrite_putLittle h (bitVec_lt 4 _)).mono fun final _ hr hl => ?_
    rw [if_neg (by omega),hr,bind_ok,ofNat_toNat,temporalTime_temporalInt (by simp) hfit t.precision,stored_time,hk]
    rfl
  | timestamp | timestampLTZ =>
    simp only [hk] at h hsl ⊢
    obtain ⟨x,rfl,h⟩ := bind_as_eq_ok asTime_eq_ok h
    rw [fits_time,decide_eq_true_eq] at hfit
    refine (slotWrite_timestamp (by simp [hk]) hfit h hsl hst hmax).mono fun final _ hr hl => ?_
    rw [if_neg (by omega),hr,stored_time]
  | decimal =>
    simp only [hk] at h hsl ⊢
    obtain ⟨r,rfl,h⟩ := bind_as_eq_ok asRat_eq_ok h
    refine (slotWrite_decimal h hsl hst).mono fun final _ hr hl => ?_
    rw [if_neg (by omega),hr,stored_rat]
  | string | char | bytes | binary =>
    simp only [hk] at h hsl ⊢
    obtain ⟨b,hb,h⟩ := of_bind h
    obtain rfl : v = _ := by simpa using hb
    refine (slotWrite_appendPackedArrayBytes h hsl hst).mono fun final _ hr hl => ?_
    rw [if_neg (by omega),hr]
    simp [storedBytes_element]
  | array | map | row =>
    simp only [hk] at h hsl ⊢
    obtain ⟨payload,hp,h⟩ := of_bind h
    have hlen := (appendArrayVariable_eq_ok h).1
    have hle := (appendArrayVariable_eq_ok h).2.1
    refine (slotWrite_appendArrayVariable h hsl hst).mono fun final _ hr hl => ?_
    rw [if_neg (by omega),hr,bind_ok,hn payload hp (by omega)]
  | other name =>
    simp only [hk] at h
    simp at h
end Element

section Loop
variable {t : LogicalType} {base start i n : Nat} {encoded : Bytes}
/-- The buffer before element `i`, with `remaining` elements to come: their slots and null bits are
still clear. -/
structure ArrayState (t : LogicalType) (base start i remaining : Nat) (encoded : Bytes) : Prop where
  start_le : start ≤ encoded.length
  le_max : encoded.length ≤ maxRowBytes
  slots_le : base + arraySlotSize t * (i + remaining) ≤ start
  bitmap_lt : ∀ k < i + remaining, 4 + k / 8 < base
  zero : ∀ k, i ≤ k → k < i + remaining → HoldsAt encoded (base + arraySlotSize t * k) (zeros (arraySlotSize t))
  clear : ∀ k, i ≤ k → k < i + remaining → hasBit 4 encoded k = false
/-- What the elements from `i` on leave alone: the count, the slots and null bits before `i`, and
the bytes appended so far. -/
structure ArrayFrame (t : LogicalType) (base start i : Nat) (encoded final : Bytes) : Prop where
  length_le : encoded.length ≤ final.length
  bytes : AgreeOn (fun j => j < 4 ∨ (base ≤ j ∧ j < base + arraySlotSize t * i) ∨ start ≤ j) encoded final
  bits : ∀ k < i, hasBit 4 final k = hasBit 4 encoded k

theorem ArrayFrame.refl (t : LogicalType) (base start i : Nat) (encoded : Bytes) :
    ArrayFrame t base start i encoded encoded :=
  ⟨Nat.le_refl _,AgreeOn.refl _ _,fun _ _ => rfl⟩

private theorem slot_le (size : Nat) {k : Nat} (h : i < k) : size * i + size ≤ size * k := by
  rw [← mul_succ]
  exact mul_le_mul_left size h

private theorem ArrayState.slot_le_start (h : ArrayState t base start i (n + 1) encoded) :
    base + arraySlotSize t * i + arraySlotSize t ≤ start := by
  have hs := slot_le (arraySlotSize t) (show i < i + (n + 1) by omega)
  have := h.slots_le
  omega

private theorem ArrayState.withBit (h : ArrayState t base start i (n + 1) encoded) :
    ArrayState t base start (i + 1) n (withBit 4 i encoded) ∧
      ArrayFrame t base start i encoded (withBit 4 i encoded) := by
  have hbit := h.bitmap_lt i (by omega)
  have hs := h.slot_le_start
  have hlen := h.start_le
  have hin : 4 + i / 8 < encoded.length := by omega
  have ha := agreeOn_withBit 4 i encoded
  refine ⟨⟨?_,?_,?_,?_,?_,?_⟩,⟨?_,?_,?_⟩⟩
  · simpa using h.start_le
  · simpa using h.le_max
  · simpa [add_assoc,add_comm 1 n] using h.slots_le
  · intro k hk
    exact h.bitmap_lt k (by omega)
  · intro k hk hk'
    exact (h.zero k (by omega) (by omega)).of_agreeOn ha (by simp) fun j hj _ => by omega
  · intro k hk hk'
    rw [hasBit_withBit hin,h.clear k (by omega) (by omega)]
    simp
    omega
  · simp
  · exact ha.mono fun j hj => by omega
  · intro k hk
    rw [hasBit_withBit hin]
    simp
    omega

private theorem ArrayState.slotWrite {encoded' : Bytes} {P : Bytes → Prop}
    (h : ArrayState t base start i (n + 1) encoded)
    (hw : SlotWrite (arraySlotSize t) start (base + arraySlotSize t * i) encoded encoded' P)
    (hmax : encoded'.length ≤ maxRowBytes) :
    ArrayState t base start (i + 1) n encoded' ∧ ArrayFrame t base start i encoded encoded' := by
  have hlen := h.start_le
  have hstart := h.slot_le_start
  have hbits : ∀ k < i + (n + 1), hasBit 4 encoded' k = hasBit 4 encoded k := by
    intro k hk
    have hbit := h.bitmap_lt k hk
    exact hw.frame.hasBit_eq (.inl (by omega)) (by omega)
  refine ⟨⟨hlen.trans hw.length_le,hmax,?_,?_,?_,?_⟩,⟨hw.length_le,?_,fun k hk => hbits k (by omega)⟩⟩
  · simpa [add_assoc,add_comm 1 n] using h.slots_le
  · intro k hk
    exact h.bitmap_lt k (by omega)
  · intro k hk hk'
    refine (h.zero k (by omega) (by omega)).of_agreeOn hw.frame hw.length_le fun j hj _ => .inr ?_
    have := slot_le (arraySlotSize t) (show i < k by omega)
    omega
  · intro k hk hk'
    rw [hbits k (by omega),h.clear k (by omega) (by omega)]
  · have hbase := h.bitmap_lt 0 (by omega)
    exact hw.frame.mono fun j hj => by omega

private theorem ArrayFrame.trans_succ {a b c : Bytes} (hab : ArrayFrame t base start i a b)
    (hbc : ArrayFrame t base start (i + 1) b c) : ArrayFrame t base start i a c := by
  have hs := slot_le (arraySlotSize t) (lt_add_one i)
  refine ⟨hab.length_le.trans hbc.length_le,hab.bytes.trans (hbc.bytes.mono ?_) hab.length_le,?_⟩
  · intro j hj
    omega
  · intro k hk
    rw [hbc.bits k (by omega),hab.bits k hk]

variable {encoding : RowEncoding} {nested : Value → Go Bytes} {denested : Bytes → Go Value}

theorem decodeElements_encodeElements {vs : List Value} (hfit : ∀ v ∈ vs, fits t v = true)
    (hnested : ∀ v ∈ vs, ∀ b, nested v = .ok b → b.length ≤ maxRowBytes →
      denested b = .ok (stored encoding false t v)) :
    ∀ (i : Nat) (encoded final : Bytes), ArrayState t base start i vs.length encoded →
      encodeElements t (writeArrayElementWith nested t) base vs i encoded = .ok final →
      ArrayFrame t base start i encoded final ∧ final.length ≤ maxRowBytes ∧
        decodeElements t (readArrayElementWith denested t) base final vs.length i =
          .ok (vs.map fun v => stored encoding false t v) := by
  induction vs with
  | nil =>
    intro i encoded final hstate h
    obtain rfl : encoded = final := ok.inj h
    exact ⟨ArrayFrame.refl _ _ _ _ _,hstate.le_max,rfl⟩
  | cons v vs ih =>
    intro i encoded final hstate h
    have ih := ih (fun v hv => hfit v (mem_cons_of_mem _ hv))
      (fun v hv => hnested v (mem_cons_of_mem _ hv)) (i + 1)
    have hbit := hstate.bitmap_lt i (by simp)
    have hslot := hstate.slot_le_start
    have hstart := hstate.start_le
    rw [encodeElements] at h
    split at h
    next hnil =>
      rw [isNil_iff] at hnil
      subst hnil
      split at h
      next hnull =>
        rw [setBit_ok (by omega),bind_ok] at h
        obtain ⟨hnext,hframe⟩ := hstate.withBit
        obtain ⟨hlater,hmax,hdecode⟩ := ih _ _ hnext h
        have hlen := hlater.length_le
        have hset : hasBit 4 final i = true := by
          rw [hlater.bits i (lt_succ_self i),hasBit_withBit (by omega)]
          simp
        refine ⟨hframe.trans_succ hlater,hmax,?_⟩
        rw [length_cons,decodeElements,bitAt_ok (by rw [withBit_length] at hlen; omega),hset,
          bind_ok,if_pos rfl,if_pos hnull,hdecode]
        simp
      · simp at h
    · split at h
      · obtain ⟨encoded',hwrite,h⟩ := of_bind h
        rw [mapErr_eq_ok] at hwrite
        obtain ⟨hmax',h⟩ := of_guard h
        have hw := slotWrite_element hwrite (hfit v mem_cons_self)
          (hnested v mem_cons_self) (hstate.zero i (by omega) (by simp)) hslot hstart hstate.le_max
        obtain ⟨hnext,hframe⟩ := hstate.slotWrite hw (by omega)
        obtain ⟨hlater,hmax,hdecode⟩ := ih _ _ hnext h
        have hlen := hlater.length_le
        have hlen' := hw.length_le
        have hclear : hasBit 4 final i = false := by
          rw [hlater.bits i (lt_succ_self i),hw.frame.hasBit_eq (.inl (by omega)) (by omega)]
          exact hstate.clear i (by omega) (by simp)
        -- The later elements keep this slot and everything appended so far.
        have hread := hw.later final hlen (hlater.bytes.mono fun j hj => by
          have : arraySlotSize t * (i + 1) = arraySlotSize t * i + arraySlotSize t := mul_succ _ _
          omega)
        refine ⟨hframe.trans_succ hlater,hmax,?_⟩
        rw [length_cons,decodeElements,bitAt_ok (by omega),hclear,bind_ok,
          if_neg (by decide),hread,mapErr_ok,bind_ok,hdecode]
        simp
      · simp at h
end Loop

section Whole
theorem holdsAt_zeros {n position length : Nat} (h : position + length ≤ n) :
    HoldsAt (zeros n) position (zeros length) := by
  refine ⟨by simpa using h,?_⟩
  rw [zeros_length,slice,zeros,drop_replicate,take_replicate,zeros]
  congr 1
  omega

theorem align8_le (n : Nat) : n ≤ align8 n := by
  unfold align8
  omega

private theorem arrayState_initial {t : LogicalType} {count : Nat} (hmax : arrayFixedBytes t count ≤ maxRowBytes) :
    ArrayState t (4 + arrayNullBytes count) (arrayFixedBytes t count) 0 count
      (spliced 4 (zeros (arrayFixedBytes t count)) 0 count) := by
  have hf : 4 + arrayNullBytes count + arraySlotSize t * count ≤ arrayFixedBytes t count := align8_le _
  have h4 : 0 + 4 ≤ (zeros (arrayFixedBytes t count)).length := by
    rw [zeros_length]
    omega
  have hlen := spliced_length count h4
  have ha := agreeOn_spliced count h4
  rw [zeros_length] at hlen
  have hbi : ∀ k < 0 + count, 4 + k / 8 < 4 + arrayNullBytes count := by
    intro k hk
    unfold arrayNullBytes
    omega
  refine ⟨hlen.ge,hlen.le.trans hmax,by simpa using hf,hbi,?_,?_⟩
  · intro k _ hk
    have hs := slot_le (arraySlotSize t) (show k < count by omega)
    exact (holdsAt_zeros (by omega)).of_agreeOn ha (by rw [hlen,zeros_length]) fun j hj _ => .inr (by omega)
  · intro k _ hk
    have hb := hbi k hk
    rw [ha.hasBit_eq (.inr (by omega)) (by rw [zeros_length]; omega),hasBit_zeros]

theorem decodeBinaryArrayWith_encode {encoding : RowEncoding} {t : LogicalType} {nested : Value → Go Bytes}
    {denested : Bytes → Go Value} {vs : List Value} {encoded : Bytes}
    (h : encodeBinaryArrayWith t (writeArrayElementWith nested t) vs = .ok encoded) (hfit : ∀ v ∈ vs, fits t v = true)
    (hn : ∀ v ∈ vs, ∀ b, nested v = .ok b → b.length ≤ maxRowBytes → denested b = .ok (stored encoding false t v)) :
    encoded.length ≤ maxRowBytes ∧ decodeBinaryArrayWith t (readArrayElementWith denested t) encoded =
        .ok (vs.map fun v => stored encoding false t v) := by
  have hm := maxRowBytes_eq
  unfold encodeBinaryArrayWith at h
  obtain ⟨hc,h⟩ := of_guard h
  obtain ⟨hfi,h⟩ := of_guard h
  have hge : 4 + arrayNullBytes vs.length + arraySlotSize t * vs.length ≤ arrayFixedBytes t vs.length :=
    align8_le _
  have h4 : 0 + 4 ≤ (zeros (arrayFixedBytes t vs.length)).length := by
    rw [zeros_length]
    omega
  rw [putLittle_ok h4,bind_ok] at h
  have hs : ArrayState t _ _ 0 vs.length _ := arrayState_initial (by omega)
  obtain ⟨hf,hmax,hd⟩ := decodeElements_encodeElements hfit hn _ _ _ hs h
  have hlen := hs.start_le.trans hf.length_le
  have hh := (holdsAt_spliced vs.length h4).of_agreeOn hf.bytes hf.length_le
    fun j _ hj => .inl (by rw [littleBytes_length] at hj; omega)
  refine ⟨hmax,?_⟩
  rw [decodeBinaryArrayWith,if_neg (by omega),readLittle_of_holdsAt hh (by omega),bind_ok,
    if_neg (by omega),if_neg (by omega),hd]

theorem decodeBinaryMapWith_encode {encodeKeys encodeValues : List Value → Go Bytes}
    {decodeKeys decodeValues : Bytes → Go (List Value)} {storeKeys storeValues : List Value → List Value}
    {v : Value} {entries : List (Value × Value)} {encoded : Bytes} (hv : mapEntries v = some entries)
    (h : encodeBinaryMapWith encodeKeys encodeValues v = .ok encoded)
    (hke : ∀ b, encodeKeys (entries.map Prod.fst) = .ok b →
      b.length ≤ maxRowBytes ∧ decodeKeys b = .ok (storeKeys (entries.map Prod.fst)))
    (hva : ∀ b, encodeValues (entries.map Prod.snd) = .ok b →
      decodeValues b = .ok (storeValues (entries.map Prod.snd)))
    (hl : (storeKeys (entries.map Prod.fst)).length = (storeValues (entries.map Prod.snd)).length) :
    decodeBinaryMapWith decodeKeys decodeValues encoded =
      .ok (.map ((storeKeys (entries.map Prod.fst)).zip (storeValues (entries.map Prod.snd)))) := by
  have hm := maxRowBytes_eq
  rw [encodeBinaryMapWith,hv] at h
  obtain ⟨keyBytes,hk,h⟩ := of_bind h
  obtain ⟨valueBytes,hw,h⟩ := of_bind h
  have he : littleBytes 4 keyBytes.length ++ keyBytes ++ valueBytes = encoded := ok.inj h
  obtain ⟨hkl,hke⟩ := hke keyBytes hk
  have hh : HoldsAt encoded 0 (littleBytes 4 keyBytes.length) := by
    rw [← he,append_assoc]
    simpa using holdsAt_append_middle [] (littleBytes 4 keyBytes.length) (keyBytes ++ valueBytes)
  have hlen : encoded.length = 4 + keyBytes.length + valueBytes.length := by
    rw [← he]
    simp [add_assoc]
  have hs : slice encoded 4 keyBytes.length = keyBytes := by
    rw [← he]
    simpa using slice_append_middle (littleBytes 4 keyBytes.length) keyBytes valueBytes
  have hr : slice encoded (4 + keyBytes.length) valueBytes.length = valueBytes := by
    rw [← he]
    simpa using slice_append_middle (littleBytes 4 keyBytes.length ++ keyBytes) valueBytes []
  rw [decodeBinaryMapWith,if_neg (by omega),readLittle_of_holdsAt hh (by omega),bind_ok,
    if_neg (by omega),subslice_ok (by omega),bind_ok,hs,hke,bind_ok,hlen,
    subslice_ok (by omega),bind_ok,hr,hva valueBytes hw,bind_ok,
    if_neg (not_not.mpr hl)]
  rfl
end Whole
end FlussGo
