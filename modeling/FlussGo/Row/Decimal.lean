import FlussGo.Schema.Validate
import Mathlib.Data.Rat.Lemmas
import Mathlib.Tactic.FieldSimp
import Mathlib.Tactic.Positivity
/-!
# Decimals

A decimal is stored as the integer `value * 10^scale`, in 64 bits up to precision 18 and as
minimal two's complement bytes above.
-/
namespace FlussGo
open List Int
/-- Decimal digits of a natural number as `big.Int.String` writes it. -/
def decimalDigits (n : Nat) : Nat := Nat.log 10 n + 1

def decimalUnscaled (value : Option Rat) (t : LogicalType) : Go Int :=
  if t.precision < 1 ∨ t.scale < 0 then
    failf .invalidSchema "decimal precision and scale are required"
  else
    match value with
    | none => .panic .nilDereference
    | some r =>
      let scaled := r * (10 ^ t.scale.toNat : Nat)
      if scaled.den ≠ 1 then fail "decimal has more fractional digits than its scale"
      else if t.precision < decimalDigits scaled.num.natAbs then
        fail "decimal exceeds declared precision"
      else .ok scaled.num

def scaledRat (unscaled : Int) (scale : Int) : Rat := mkRat unscaled (10 ^ scale.toNat)

def signedBigEndian (value : Int) : Bytes :=
  if 0 ≤ value then
    match bigBytes value.toNat with
    | [] => [0]
    | b :: bs => if b &&& 0x80 != 0 then 0 :: b :: bs else b :: bs
  else
    let width := (bitLen value.natAbs + 8) / 8
    let bytes := bigBytes ((2 ^ (8 * width) : Nat) + value).toNat
    let bytes := if bytes.length < width then zeros (width - bytes.length) ++ bytes else bytes
    if bytes.headD 0 &&& 0x80 == 0 then bigBytes ((2 ^ (8 * (width + 1)) : Nat) + value).toNat
    else bytes

def signedBigInt : Bytes → Int
  | [] => 0
  | b :: bs =>
    if b &&& 0x80 != 0 then (bigNat (b :: bs) : Int) - (2 ^ (8 * (bs.length + 1)) : Nat)
    else bigNat (b :: bs)

theorem signedBigInt_of_lt {bs : Bytes} (h : 2 * bigNat bs < 256 ^ bs.length) : signedBigInt bs = bigNat bs := by
  cases bs with
  | nil => rfl
  | cons b bs =>
    have hs := sign_iff b bs
    rw [length_cons] at h
    rw [signedBigInt,and_sign,decide_eq_false (by omega)]
    simp

theorem signedBigInt_of_ge {bs : Bytes} (h : 256 ^ bs.length ≤ 2 * bigNat bs) :
    signedBigInt bs = bigNat bs - (256 ^ bs.length : Nat) := by
  cases bs with
  | nil => simp [bigNat,littleNat] at h
  | cons b bs =>
    have hs := sign_iff b bs
    rw [length_cons] at h
    rw [signedBigInt,and_sign,decide_eq_true (by omega),if_pos rfl,length_cons,pow_mul]
    norm_num

private theorem signedBigInt_nonneg (n : Nat) : signedBigInt (signedBigEndian n) = n := by
  rw [signedBigEndian,if_pos (natCast_nonneg n),toNat_natCast]
  have hn := bigNat_bigBytes n
  cases hb : bigBytes n with
  | nil =>
    rw [hb] at hn
    have h0 : n = 0 := hn.symm
    subst h0
    rfl
  | cons b bs =>
    rw [hb] at hn
    have hsi := sign_iff b bs
    have hlt := bigNat_lt (b :: bs)
    dsimp only
    rw [and_sign]
    by_cases hs : 128 ≤ b.toNat
    · rw [decide_eq_true hs,if_pos rfl]
      have hc : bigNat (0 :: b :: bs) = n := by
        rw [bigNat_cons,hn]
        simp
      rw [signedBigInt_of_lt,hc]
      rw [hc,length_cons,pow_succ]
      omega
    · rw [decide_eq_false hs,if_neg (by decide),signedBigInt_of_lt,hn]
      rw [length_cons]
      omega

private theorem signedBigEndian_neg {value : Int} (h : value < 0) :
    (signedBigEndian value).length = (bitLen value.natAbs + 8) / 8 ∧ signedBigInt (signedBigEndian value) = value := by
  rw [signedBigEndian,if_neg (by omega)]
  dsimp only
  set width := (bitLen value.natAbs + 8) / 8 with hwi
  have hw : 0 < width := by omega
  have hpos : value.natAbs ≠ 0 := by omega
  have hlt : value.natAbs < 2 ^ (8 * width - 1) :=
    (lt_two_pow_bitLen _).trans_le (Nat.pow_le_pow_right (by decide) (by omega))
  have hd : 2 ^ (8 * width) = 2 * 2 ^ (8 * width - 1) := by
    rw [← pow_succ',Nat.sub_add_cancel (by omega)]
  set n := ((2 ^ (8 * width) : Nat) + value).toNat with hn
  have hnv : (n : Int) = (2 ^ (8 * width) : Nat) + value := by omega
  have hlen := bigBytes_length_eq (n := n) (w := width) (by omega) (by omega) hw
  have hpow := pow_256 width
  have hsig : signedBigInt (bigBytes n) = value := by
    rw [signedBigInt_of_ge,bigNat_bigBytes,hlen,hpow]
    · omega
    · rw [bigNat_bigBytes,hlen,hpow]
      omega
  rw [if_neg (show ¬ (bigBytes n).length < width by omega)]
  cases hb : bigBytes n with
  | nil => simp [hb] at hlen; omega
  | cons b bs =>
    have hbs : bs.length + 1 = width := by rw [← hlen,hb,length_cons]
    have hs : 128 ≤ b.toNat := by
      rw [sign_iff b bs,← hb,bigNat_bigBytes,hbs,hpow]
      omega
    have hsi := and_sign b
    rw [decide_eq_true hs] at hsi
    have hz : (b &&& 0x80 == 0) = false := by simpa [bne] using hsi
    rw [headD_cons,hz,if_neg (by decide),← hb]
    exact ⟨hlen,hsig⟩

theorem signedBigInt_signedBigEndian (value : Int) : signedBigInt (signedBigEndian value) = value := by
  by_cases h : 0 ≤ value
  · obtain ⟨n,rfl⟩ := eq_ofNat_of_zero_le h
    exact signedBigInt_nonneg n
  · exact (signedBigEndian_neg (by omega)).2

private theorem signedBigEndian_length_nonneg (n : Nat) : (signedBigEndian n).length = bitLen n / 8 + 1 := by
  rw [signedBigEndian,if_pos (natCast_nonneg n),toNat_natCast]
  have hn := bigNat_bigBytes n
  have hlen := bigBytes_length n
  cases hb : bigBytes n with
  | nil =>
    rw [hb] at hn
    obtain rfl : n = 0 := hn.symm
    rfl
  | cons b bs =>
    rw [hb] at hn hlen
    have hsi := sign_iff b bs
    have htop : 128 ≤ b.toNat ↔ 8 * (bs.length + 1) ≤ bitLen n := by
      have hd : 2 ^ (8 * (bs.length + 1)) = 2 * 2 ^ (8 * (bs.length + 1) - 1) := by
        rw [← pow_succ',Nat.sub_add_cancel (by omega)]
      rw [hsi,hn,pow_256,hd,le_bitLen_iff (by omega)]
      omega
    rw [length_cons] at hlen
    dsimp only
    rw [and_sign]
    by_cases hs : 128 ≤ b.toNat
    · rw [decide_eq_true hs,if_pos rfl,length_cons,length_cons]
      omega
    · rw [decide_eq_false hs,if_neg (by decide),length_cons]
      omega

theorem signedBigEndian_length (value : Int) : (signedBigEndian value).length = bitLen value.natAbs / 8 + 1 := by
  by_cases h : 0 ≤ value
  · obtain ⟨n,rfl⟩ := eq_ofNat_of_zero_le h
    exact signedBigEndian_length_nonneg n
  · rw [(signedBigEndian_neg (by omega)).1]
    omega

theorem decimalUnscaled_eq_ok {value : Option Rat} {t : LogicalType} {unscaled : Int}
    (h : decimalUnscaled value t = .ok unscaled) :
    value = some (scaledRat unscaled t.scale) ∧ decimalDigits unscaled.natAbs ≤ t.precision := by
  unfold decimalUnscaled at h
  have h := (Outcome.of_guard h).2
  cases value with
  | none => simp at h
  | some r =>
    dsimp only at h
    split at h
    · simp at h
    split at h
    · simp at h
    rename_i hden hd
    have hnum := Outcome.ok.inj h
    rw [hnum] at hd
    refine ⟨?_,by omega⟩
    have hpow : ((10 ^ t.scale.toNat : Nat) : Rat) ≠ 0 := by positivity
    have hint : r * (10 ^ t.scale.toNat : Nat) = (unscaled : Rat) := by
      rw [← hnum]
      exact (Rat.den_eq_one_iff _).mp (not_not.mp hden) |>.symm
    rw [scaledRat,Rat.mkRat_eq_div,← hint]
    congr 1
    field_simp

theorem decimalUnscaled_toInt {value : Option Rat} {t : LogicalType} {unscaled : Int}
    (h : decimalUnscaled value t = .ok unscaled) (hp : t.precision ≤ 18) :
    (BitVec.ofInt 64 unscaled).toInt = unscaled := by
  have hd := (decimalUnscaled_eq_ok h).2
  have hlt : unscaled.natAbs < 10 ^ 18 :=
    (Nat.lt_pow_succ_log_self (by decide) _).trans_le
      (Nat.pow_le_pow_right (by decide) (by unfold decimalDigits at hd; omega))
  exact BitVec.toInt_ofInt_eq_self (by decide) (by omega) (by omega)
end FlussGo
