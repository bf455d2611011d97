import FlussGo.Lib.Outcome
import Mathlib.Data.List.Basic
import Mathlib.Data.Nat.Bitwise
import Mathlib.Data.Nat.Log
import Mathlib.Tactic.Ring
/-!
# Byte buffers

Little-endian words inside byte buffers, with the bounds checks that Go performs, the relation `AgreeOn`
between buffers that share the bytes of given positions, big-endian integers, bitmaps and CRC-32C.
-/
namespace FlussGo
open List Nat
abbrev Bytes := List UInt8

variable {bs b bs' : Bytes} {position width n length : Nat} {P : Nat → Prop}

def zeros (n : Nat) : Bytes := List.replicate n 0

@[simp] theorem zeros_length (n : Nat) : (zeros n).length = n := by simp [zeros]
/-- The low `width` bytes of a word, least significant byte first. -/
def littleBytes : Nat → Nat → Bytes
  | 0, _ => []
  | width + 1, n => UInt8.ofNat (n % 256) :: littleBytes width (n / 256)

def littleNat : Bytes → Nat
  | [] => 0
  | b :: bs => b.toNat + 256 * littleNat bs

@[simp] theorem littleBytes_length (width n : Nat) : (littleBytes width n).length = width := by
  induction width generalizing n with
  | zero => rfl
  | succ width ih => simp [littleBytes,ih]

theorem littleNat_lt (bs : Bytes) : littleNat bs < 256 ^ bs.length := by
  induction bs with
  | nil => simp [littleNat]
  | cons b bs ih =>
    have hb : b.toNat < 256 := b.toNat_lt
    simp only [littleNat,length_cons,pow_succ]
    omega

theorem littleNat_littleBytes (width n : Nat) : littleNat (littleBytes width n) = n % 256 ^ width := by
  induction width generalizing n with
  | zero => simp [littleBytes,littleNat,mod_one]
  | succ width ih =>
    have hb : (UInt8.ofNat (n % 256)).toNat = n % 256 := by
      rw [UInt8.toNat_ofNat']
      omega
    rw [littleBytes,littleNat,hb,ih,pow_succ,mul_comm (256 ^ width),mod_mul]

theorem littleNat_littleBytes_of_lt (h : n < 256 ^ width) : littleNat (littleBytes width n) = n := by
  rw [littleNat_littleBytes,mod_eq_of_lt h]

theorem littleBytes_littleNat (bs : Bytes) : littleBytes bs.length (littleNat bs) = bs := by
  induction bs with
  | nil => rfl
  | cons b bs ih =>
    have hb : b.toNat < 256 := b.toNat_lt
    have hmod : (b.toNat + 256 * littleNat bs) % 256 = b.toNat := by omega
    have hdiv : (b.toNat + 256 * littleNat bs) / 256 = littleNat bs := by omega
    simp only [length_cons,littleBytes,littleNat,hmod,hdiv,ih,UInt8.ofNat_toNat]
/-- The `length` bytes from `position` on, fewer when the buffer ends before. -/
def slice (bs : Bytes) (position length : Nat) : Bytes := (bs.drop position).take length

theorem slice_length (bs : Bytes) (position length : Nat) (h : position + length ≤ bs.length) :
    (slice bs position length).length = length := by
  simp only [slice,length_take,length_drop]
  omega

theorem slice_append_middle (pre body post : Bytes) : slice (pre ++ body ++ post) pre.length body.length = body := by
  simp [slice,append_assoc]

theorem slice_append_left (h : position + length ≤ bs.length) (rest : Bytes) :
    slice (bs ++ rest) position length = slice bs position length := by
  rw [slice,slice,drop_append_of_le_length (by omega),take_append_of_le_length (by rw [length_drop]; omega)]

theorem slice_getElem? (bs : Bytes) (position length i : Nat) :
    (slice bs position length)[i]? = if i < length then bs[position + i]? else none := by
  simp [slice,getElem?_take]

variable {ε : Type}

def subslice (bs : Bytes) (low high : Nat) : Outcome ε Bytes :=
  if low ≤ high ∧ high ≤ bs.length then .ok (slice bs low (high - low)) else .panic .outOfRange
/-- `binary.LittleEndian.UintN(bs[position:])`. -/
def readLittle (width : Nat) (bs : Bytes) (position : Nat) : Outcome ε Nat :=
  if position + width ≤ bs.length then .ok (littleNat (slice bs position width))
  else .panic .outOfRange
/-- `int16(binary.LittleEndian.Uint16(bs[position:]))`. -/
def readInt16 (bs : Bytes) (position : Nat) : Outcome ε Int := do
  let word ← readLittle 2 bs position
  return (BitVec.ofNat 16 word).toInt
/-- The buffer with the `width` bytes at `position` replaced by a word. -/
def spliced (width : Nat) (bs : Bytes) (position n : Nat) : Bytes :=
  bs.take position ++ littleBytes width n ++ bs.drop (position + width)
/-- `binary.LittleEndian.PutUintN(bs[position:], n)`. -/
def putLittle (width : Nat) (bs : Bytes) (position n : Nat) : Outcome ε Bytes :=
  if position + width ≤ bs.length then .ok (spliced width bs position n) else .panic .outOfRange

def byteAt (bs : Bytes) (position : Nat) : Outcome ε UInt8 :=
  match bs[position]? with
  | some b => .ok b
  | none => .panic .outOfRange

def orByte (bs : Bytes) (position : Nat) (mask : UInt8) : Outcome ε Bytes :=
  match bs[position]? with
  | some b => .ok (bs.set position (b ||| mask))
  | none => .panic .outOfRange

theorem subslice_ok (h : position + length ≤ bs.length) :
    (subslice bs position (position + length) : Outcome ε Bytes) = .ok (slice bs position length) := by
  rw [subslice,if_pos ⟨by omega,h⟩,Nat.add_sub_cancel_left]

theorem readLittle_ok (h : position + width ≤ bs.length) :
    (readLittle width bs position : Outcome ε Nat) = .ok (littleNat (slice bs position width)) :=
  if_pos h

theorem byteAt_ok (h : position < bs.length) : (byteAt bs position : Outcome ε UInt8) = .ok bs[position] := by
  simp [byteAt,getElem?_eq_getElem h]

theorem putLittle_ok (h : position + width ≤ bs.length) :
    (putLittle width bs position n : Outcome ε Bytes) = .ok (spliced width bs position n) :=
  if_pos h
/-- Two buffers hold the same bytes at the positions of `P` that the first one has. -/
def AgreeOn (P : Nat → Prop) (bs bs' : Bytes) : Prop :=
  ∀ i, P i → i < bs.length → bs'[i]? = bs[i]?

theorem AgreeOn.refl (P : Nat → Prop) (bs : Bytes) : AgreeOn P bs bs := fun _ _ _ => rfl

theorem AgreeOn.mono {Q : Nat → Prop} (h : AgreeOn P bs bs')
    (hpq : ∀ i, Q i → P i) : AgreeOn Q bs bs' := fun i hi hl => h i (hpq i hi) hl

theorem AgreeOn.trans {a c : Bytes} (hab : AgreeOn P a b)
    (hbc : AgreeOn P b c) (hl : a.length ≤ b.length) : AgreeOn P a c := by
  intro i hi hia
  rw [hbc i hi (by omega),hab i hi hia]

theorem AgreeOn.slice_eq (h : AgreeOn P bs bs') (hl : position + length ≤ bs.length)
    (hp : ∀ i, position ≤ i → i < position + length → P i) :
    slice bs' position length = slice bs position length := by
  apply ext_getElem?
  intro i
  rw [slice_getElem?,slice_getElem?]
  split
  · exact h (position + i) (hp _ (by omega) (by omega)) (by omega)
  · rfl

theorem agreeOn_append (P : Nat → Prop) (bs tail : Bytes) : AgreeOn P bs (bs ++ tail) := by
  intro i _ hl
  exact getElem?_append_left hl

theorem agreeOn_set (bs : Bytes) (position : Nat) (b : UInt8) : AgreeOn (· ≠ position) bs (bs.set position b) := by
  intro i hi _
  exact getElem?_set_ne (Ne.symm hi)

theorem spliced_length (n : Nat)
    (h : position + width ≤ bs.length) : (spliced width bs position n).length = bs.length := by
  simp only [spliced,length_append,length_take,littleBytes_length,length_drop]
  omega

theorem slice_spliced (n : Nat) (h : position + width ≤ bs.length) :
    slice (spliced width bs position n) position width = littleBytes width n := by
  have hp : (bs.take position).length = position := by
    rw [length_take]
    omega
  have hm := slice_append_middle (bs.take position) (littleBytes width n) (bs.drop (position + width))
  rwa [hp,littleBytes_length] at hm

theorem agreeOn_spliced (n : Nat) (h : position + width ≤ bs.length) :
    AgreeOn (fun i => i < position ∨ position + width ≤ i) bs (spliced width bs position n) := by
  intro i hi _
  have hp : (bs.take position).length = position := by
    rw [length_take]
    omega
  rcases hi with hi | hi
  · rw [spliced,append_assoc,getElem?_append_left (by omega),getElem?_take_of_lt hi]
  rw [spliced,getElem?_append_right (by simp only [length_append,hp,littleBytes_length]; omega),
    getElem?_drop]
  congr 1
  simp only [length_append,hp,littleBytes_length]
  omega
/-- The bytes `b` stand in the buffer at `position`. -/
def HoldsAt (bs : Bytes) (position : Nat) (b : Bytes) : Prop :=
  position + b.length ≤ bs.length ∧ slice bs position b.length = b

theorem holdsAt_append_middle (pre b post : Bytes) : HoldsAt (pre ++ b ++ post) pre.length b := by
  refine ⟨?_,slice_append_middle pre b post⟩
  simp only [length_append]
  omega

theorem holdsAt_iff : HoldsAt bs position b ↔ ∃ pre post, bs = pre ++ b ++ post ∧ pre.length = position := by
  constructor
  · rintro ⟨hlen,hb⟩
    refine ⟨bs.take position,bs.drop (position + b.length),?_,?_⟩
    · have hs : b ++ bs.drop (position + b.length) = bs.drop position := by
        rw [← drop_drop]
        exact (congrArg (· ++ _) hb.symm).trans (take_append_drop _ _)
      rw [append_assoc,hs,take_append_drop]
    · rw [length_take]
      omega
  · rintro ⟨pre,post,rfl,rfl⟩
    exact holdsAt_append_middle pre b post

theorem HoldsAt.append_iff {a : Bytes} :
    HoldsAt bs position (a ++ b) ↔ HoldsAt bs position a ∧ HoldsAt bs (position + a.length) b := by
  constructor
  · intro h
    obtain ⟨pre,post,rfl,rfl⟩ := holdsAt_iff.mp h
    constructor
    · exact holdsAt_iff.mpr ⟨pre,b ++ post,by simp [append_assoc],rfl⟩
    · exact holdsAt_iff.mpr ⟨pre ++ a,post,by simp [append_assoc],by simp⟩
  · rintro ⟨⟨hla,ha⟩,hlb,hb⟩
    have hs : slice bs position (a ++ b).length =
        slice bs position a.length ++ slice bs (position + a.length) b.length := by
      rw [slice,slice,slice,length_append,take_add,drop_drop]
    refine ⟨?_,by rw [hs,ha,hb]⟩
    rw [length_append]
    omega

theorem HoldsAt.cons_iff {x : UInt8} :
    HoldsAt bs position (x :: b) ↔ bs[position]? = some x ∧ HoldsAt bs (position + 1) b := by
  rw [show x :: b = [x] ++ b from rfl,HoldsAt.append_iff]
  apply and_congr_left
  intro _
  constructor
  · rintro ⟨_,hs⟩
    have hget := slice_getElem? bs position [x].length 0
    rw [hs] at hget
    simpa using hget.symm
  · intro hx
    obtain ⟨hlt,hget⟩ := List.getElem?_eq_some_iff.mp hx
    refine ⟨hlt,?_⟩
    simp only [slice,length_singleton,drop_eq_getElem_cons hlt,hget,take_succ_cons,take_zero]

theorem HoldsAt.of_agreeOn (h : HoldsAt bs position b) (ha : AgreeOn P bs bs') (hle : bs.length ≤ bs'.length)
    (hp : ∀ i, position ≤ i → i < position + b.length → P i) : HoldsAt bs' position b :=
  ⟨h.1.trans hle,(ha.slice_eq h.1 hp).trans h.2⟩

theorem holdsAt_spliced (n : Nat) (h : position + width ≤ bs.length) :
    HoldsAt (spliced width bs position n) position (littleBytes width n) := by
  refine ⟨?_,?_⟩
  · rw [littleBytes_length,spliced_length n h]
    exact h
  · rw [littleBytes_length,slice_spliced n h]

theorem HoldsAt.drop (h : HoldsAt bs position b) (hl : bs.length = position + b.length) : bs.drop position = b := by
  have hs := h.2
  rwa [slice,take_of_length_le (by rw [length_drop]; omega)] at hs

theorem readLittle_of_holdsAt (h : HoldsAt bs position (littleBytes width n)) (hn : n < 256 ^ width) :
    (readLittle width bs position : Outcome ε Nat) = .ok n := by
  obtain ⟨hlen,hs⟩ := h
  rw [littleBytes_length] at hlen hs
  rw [readLittle_ok hlen,hs,littleNat_littleBytes_of_lt hn]

def bigNat (bs : Bytes) : Nat := littleNat bs.reverse
/-- The big-endian bytes of `n` modulo `256 ^ width`. -/
def bigWord (width n : Nat) : Bytes := (littleBytes width n).reverse

@[simp] theorem bigWord_length (width n : Nat) : (bigWord width n).length = width := by
  simp [bigWord]
/-- The position of the highest set bit, counted from one. -/
def bitLen (n : Nat) : Nat := if n = 0 then 0 else n.log2 + 1
/-- The big-endian bytes of `n` without leading zeros. -/
def bigBytes (n : Nat) : Bytes := (littleBytes ((bitLen n + 7) / 8) n).reverse

@[simp] theorem bigBytes_length (n : Nat) : (bigBytes n).length = (bitLen n + 7) / 8 := by
  simp [bigBytes]

theorem bigNat_lt (bs : Bytes) : bigNat bs < 256 ^ bs.length := by
  simpa [bigNat] using littleNat_lt bs.reverse

theorem lt_two_pow_bitLen (n : Nat) : n < 2 ^ bitLen n := by
  unfold bitLen
  split
  · simp_all
  · exact lt_log2_self

theorem bitLen_le {n k : Nat} (h : n < 2 ^ k) : bitLen n ≤ k := by
  unfold bitLen
  split
  · exact zero_le k
  · exact (log2_lt ‹_›).mpr h

theorem pow_256 (k : Nat) : 256 ^ k = 2 ^ (8 * k) := by
  rw [pow_mul]
  norm_num

theorem le_bitLen_iff {n k : Nat} (hk : 0 < k) : k ≤ bitLen n ↔ 2 ^ (k - 1) ≤ n := by
  constructor
  · intro h
    by_contra hlt
    have := bitLen_le (Nat.lt_of_not_le hlt)
    omega
  · intro h
    have := (Nat.pow_lt_pow_iff_right (by decide : 1 < 2)).mp (h.trans_lt (lt_two_pow_bitLen n))
    omega

theorem bigNat_bigBytes (n : Nat) : bigNat (bigBytes n) = n := by
  rw [bigNat,bigBytes,reverse_reverse]
  apply littleNat_littleBytes_of_lt
  rw [pow_256]
  exact (lt_two_pow_bitLen n).trans_le (Nat.pow_le_pow_right (by decide) (by omega))

theorem littleNat_append (xs ys : Bytes) : littleNat (xs ++ ys) = littleNat xs + 256 ^ xs.length * littleNat ys := by
  induction xs with
  | nil => simp [littleNat]
  | cons b bs ih =>
    simp only [cons_append,littleNat,ih,length_cons]
    ring

theorem bigNat_cons (b : UInt8) (bs : Bytes) : bigNat (b :: bs) = b.toNat * 256 ^ bs.length + bigNat bs := by
  rw [bigNat,reverse_cons,littleNat_append]
  simp only [littleNat,length_reverse,bigNat]
  ring

theorem sign_iff (b : UInt8) (bs : Bytes) : 128 ≤ b.toNat ↔ 256 ^ (bs.length + 1) ≤ 2 * bigNat (b :: bs) := by
  have hlt := bigNat_lt bs
  rw [bigNat_cons,pow_succ]
  generalize 256 ^ bs.length = q at hlt ⊢
  constructor
  · intro h
    have hm := mul_le_mul_right q h
    omega
  · intro h
    by_contra hb
    have hm := mul_le_mul_right q (show b.toNat ≤ 127 by omega)
    omega

theorem bigBytes_length_eq {n w : Nat} (hlo : 2 ^ (8 * w - 1) ≤ n) (hhi : n < 2 ^ (8 * w))
    (hw : 0 < w) : (bigBytes n).length = w := by
  have hle := bitLen_le hhi
  have hge : 8 * w ≤ bitLen n := (le_bitLen_iff (by omega)).mpr hlo
  rw [bigBytes_length]
  omega
section Bitmap
variable {ε : Type} {base i : Nat} {bs : Bytes}

def bitMask (i : Nat) : UInt8 := UInt8.ofNat (2 ^ (i % 8))

def setBit (base i : Nat) (bs : Bytes) : Outcome ε Bytes := orByte bs (base + i / 8) (bitMask i)

def bitAt (base i : Nat) (bs : Bytes) : Outcome ε Bool := do
  let b ← byteAt bs (base + i / 8)
  return b &&& bitMask i != 0

def hasBit (base : Nat) (bs : Bytes) (i : Nat) : Bool :=
  (bs.getD (base + i / 8) 0).toNat.testBit (i % 8)

def withBit (base i : Nat) (bs : Bytes) : Bytes :=
  bs.set (base + i / 8) (bs.getD (base + i / 8) 0 ||| bitMask i)

theorem bitMask_toNat (i : Nat) : (bitMask i).toNat = 2 ^ (i % 8) := by
  have hlt : 2 ^ (i % 8) < 2 ^ 8 := Nat.pow_lt_pow_right (by decide) (Nat.mod_lt i (by decide))
  rw [bitMask,UInt8.toNat_ofNat']
  exact mod_eq_of_lt hlt

theorem and_bitMask (b : UInt8) (i : Nat) : (b &&& bitMask i != 0) = b.toNat.testBit (i % 8) := by
  rw [Bool.eq_iff_iff,bne_iff_ne,ne_eq,← UInt8.toNat_inj,UInt8.toNat_and,bitMask_toNat,and_two_pow]
  cases b.toNat.testBit (i % 8) <;> simp

theorem or_bitMask_testBit (b : UInt8) (i k : Nat) :
    (b ||| bitMask i).toNat.testBit k = (b.toNat.testBit k || decide (i % 8 = k)) := by
  rw [UInt8.toNat_or,bitMask_toNat,testBit_or,testBit_two_pow]

theorem and_sign (b : UInt8) : (b &&& 0x80 != 0) = decide (128 ≤ b.toNat) := by
  have hb : b.toNat < 256 := b.toNat_lt
  have h := and_bitMask b 7
  rw [show bitMask 7 = 0x80 from rfl] at h
  rw [h,testBit_eq_decide_div_mod_eq,decide_eq_decide,show 2 ^ (7 % 8) = 128 from rfl]
  omega

theorem bitAt_ok (h : base + i / 8 < bs.length) : (bitAt base i bs : Outcome ε Bool) = .ok (hasBit base bs i) := by
  rw [bitAt,byteAt_ok h,Outcome.bind_ok,Outcome.pure_eq,and_bitMask,hasBit,getD_eq_getElem _ _ h]

theorem setBit_ok (h : base + i / 8 < bs.length) :
    (setBit base i bs : Outcome ε Bytes) = .ok (withBit base i bs) := by
  simp [setBit,orByte,withBit,getElem?_eq_getElem h]

@[simp] theorem withBit_length (base i : Nat) (bs : Bytes) : (withBit base i bs).length = bs.length := by
  simp [withBit]

theorem agreeOn_withBit (base i : Nat) (bs : Bytes) :
    AgreeOn (· ≠ base + i / 8) bs (withBit base i bs) := agreeOn_set bs _ _

theorem hasBit_withBit (h : base + i / 8 < bs.length) (j : Nat) :
    hasBit base (withBit base i bs) j = (hasBit base bs j || decide (i = j)) := by
  by_cases hij : base + i / 8 = base + j / 8
  · have hdec : decide (i % 8 = j % 8) = decide (i = j) := by
      rw [decide_eq_decide]
      omega
    rw [hasBit,withBit,← hij,getD_eq_getElem _ _ (by simpa using h),getElem_set_self,
      or_bitMask_testBit,hdec,hasBit,← hij]
  · have hne : i ≠ j := fun he => hij (by rw [he])
    rw [hasBit,withBit,getD_eq_getElem?_getD,getElem?_set_ne hij,← getD_eq_getElem?_getD]
    simp [hasBit,hne]

theorem AgreeOn.hasBit_eq {P : Nat → Prop} {bs' : Bytes} (h : AgreeOn P bs bs') (hp : P (base + i / 8))
    (hl : base + i / 8 < bs.length) : hasBit base bs' i = hasBit base bs i := by
  simp only [hasBit,getD_eq_getElem?_getD,h _ hp hl]

theorem hasBit_zeros (base n i : Nat) : hasBit base (zeros n) i = false := by
  have hz : (zeros n).getD (base + i / 8) 0 = 0 := by
    rw [zeros,getD_eq_getElem?_getD,getElem?_replicate]
    split <;> rfl
  rw [hasBit,hz]
  exact zero_testBit _
end Bitmap

def crcBit (crc : Nat) : Nat := if crc % 2 = 1 then crc / 2 ^^^ 0x82f63b78 else crc / 2

def crcBits : Nat → Nat → Nat
  | 0, crc => crc
  | n + 1, crc => crcBits n (crcBit crc)

def crcByte (crc : Nat) (b : UInt8) : Nat := crcBits 8 (crc ^^^ b.toNat)
/-- `crc32.Checksum(bs, crc32.MakeTable(crc32.Castagnoli))`. -/
def crc32c (bs : Bytes) : Nat := bs.foldl crcByte 0xffffffff ^^^ 0xffffffff

private theorem crcBit_lt {crc : Nat} (h : crc < 2 ^ 32) : crcBit crc < 2 ^ 32 := by
  unfold crcBit
  split
  · exact xor_lt_two_pow (by omega) (by decide)
  · omega

private theorem crcBits_lt (n : Nat) {crc : Nat} (h : crc < 2 ^ 32) : crcBits n crc < 2 ^ 32 := by
  induction n generalizing crc with
  | zero => exact h
  | succ n ih => exact ih (crcBit_lt h)

theorem crc32c_lt (bs : Bytes) : crc32c bs < 2 ^ 32 := by
  have hf : ∀ (bs : Bytes) crc, crc < 2 ^ 32 → bs.foldl crcByte crc < 2 ^ 32 := by
    intro bs
    induction bs with
    | nil => intro crc h; exact h
    | cons b bs ih =>
      intro crc h
      have hb : b.toNat < 256 := b.toNat_lt
      exact ih _ (crcBits_lt 8 (xor_lt_two_pow h (by omega)))
  exact xor_lt_two_pow (hf bs _ (by decide)) (by decide)

example : crc32c [0x31, 0x32, 0x33, 0x34, 0x35, 0x36, 0x37, 0x38, 0x39] = 0xe3069283 := by
  decide +kernel
end FlussGo
