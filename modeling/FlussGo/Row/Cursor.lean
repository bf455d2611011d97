import FlussGo.Schema.Validate
import Mathlib.Data.List.DropRight
/-!
# Cursor reads, varints and length-prefixed bytes

The pieces of `row_codec.go` and `row_value_codec.go` that both row encodings are built from.
-/
namespace FlussGo
open UInt8 Nat List
variable {encoded : Bytes} {position value : Nat}

open Outcome
inductive RowEncoding where
  | compacted
  | indexed
deriving DecidableEq

def maxRowBytes : Nat := 16 * 2 ^ 20

theorem maxRowBytes_eq : maxRowBytes = 16777216 := rfl
/-- The largest object the Go runtime allocates on 64-bit Linux; `make` panics above it. -/
def maxAlloc : Int := 2 ^ 48

def readFixed (encoded : Bytes) (position : Nat) (length : Int) : Go (Bytes × Nat) :=
  if length < 0 ∨ encoded.length < position ∨ (encoded.length : Int) - position < length then
    fail "truncated value"
  else do
    let value ← subslice encoded position (position + length.toNat)
    return (value, position + length.toNat)

def appendLittle (dst : Bytes) (value width : Nat) : Bytes := dst ++ littleBytes width value
/-- The loop of `appendVar64`; the fuel is the longest encoding of a 64-bit word. -/
def varBytes : Nat → Nat → Bytes
  | 0, _ => []
  | fuel + 1, value =>
    if 0x7f < value then (UInt8.ofNat value ||| 0x80) :: varBytes fuel (value >>> 7)
    else [UInt8.ofNat value]

def appendVar64 (dst : Bytes) (value : Nat) : Bytes := dst ++ varBytes 10 value

def appendVar32 (dst : Bytes) (value : Nat) : Bytes := appendVar64 dst value
/-- The loop of `readVar`: `remaining` iterations are left and `i` are done. -/
def readVarFrom (encoded : Bytes) : (remaining i position value : Nat) → Go (Nat × Nat)
  | 0, _, _, _ => fail "overlong varint"
  | remaining + 1, i, position, value =>
    match encoded[position]? with
    | none => fail "truncated varint"
    | some part =>
      let value := value ||| ((part &&& 0x7f).toNat <<< (7 * i)) % 2 ^ 64
      if part &&& 0x80 == 0 then .ok (value, position + 1)
      else readVarFrom encoded remaining (i + 1) (position + 1) value

def readVar (encoded : Bytes) (position maximum : Nat) : Go (Nat × Nat) :=
  readVarFrom encoded maximum 0 position 0

def appendLengthBytes (dst value : Bytes) : Go Bytes :=
  if maxRowBytes < value.length then fail s!"value exceeds {maxRowBytes} bytes"
  else .ok (appendVar32 dst value.length ++ value)

def readLengthBytes (encoded : Bytes) (position : Nat) : Go (Bytes × Nat) := do
  let (length, next) ← (readVar encoded position 5).mapErr fun _ => newError "invalid byte length"
  if maxRowBytes < length ∨ encoded.length < next ∨ encoded.length - next < length then
    fail "invalid byte length"
  else do
    let value ← subslice encoded next (next + length)
    return (value, next + length)

def appendFixed (dst value : Bytes) (length : Int) : Go Bytes :=
  if length < 1 ∨ length < value.length then fail "fixed-width value exceeds declared length"
  else if maxAlloc < length then .panic .makeSlice
  else .ok (dst ++ value ++ zeros (length.toNat - value.length))

def trimZero (value : Bytes) : Bytes := value.rdropWhile (· == 0)

theorem readFixed_of_holdsAt {b : Bytes} {length : Int} (h : HoldsAt encoded position b) (hl : length = b.length) :
    readFixed encoded position length = .ok (b, position + b.length) := by
  obtain ⟨hlen,hs⟩ := h
  subst hl
  rw [readFixed,if_neg (by omega),Int.toNat_natCast,subslice_ok hlen,hs]
  rfl

theorem readFixed_sat (encoded : Bytes) (position : Nat) (length : Int) :
    (readFixed encoded position length).Sat fun r =>
      (r.1.length : Int) = length ∧ r.2 = position + r.1.length ∧ r.2 ≤ encoded.length := by
  unfold readFixed
  split
  · trivial
  · have hs := slice_length encoded position length.toNat (by omega)
    rw [subslice_ok (by omega),bind_ok,pure_eq,sat_ok]
    rw [hs]
    omega

theorem or_continuation (value : Nat) : ((ofNat value ||| 0x80) &&& 0x7f).toNat = value % 128 ∧
      ((ofNat value ||| 0x80) &&& 0x80 == 0) = false := by
  constructor
  · have h7f : (0x7f : UInt8).toNat = 2 ^ 7 - 1 := rfl
    have h80 : (0x80 : UInt8).toNat = 128 := rfl
    rw [UInt8.toNat_and,UInt8.toNat_or,h7f,h80,and_two_pow_sub_one_eq_mod,
      show 128 = 2 ^ 7 from rfl,or_mod_two_pow,mod_self,or_zero,toNat_ofNat']
    omega
  · have h := and_sign (ofNat value ||| 0x80)
    have hbit := or_bitMask_testBit (ofNat value) 7 7
    rw [show bitMask 7 = 0x80 from rfl] at hbit
    have hge : 128 ≤ (ofNat value ||| 0x80).toNat := by
      apply ge_two_pow_of_testBit (i := 7)
      rw [hbit]
      simp
    rw [decide_eq_true hge] at h
    simpa [bne] using h

theorem final_byte (h : value ≤ 0x7f) :
    (ofNat value &&& 0x7f).toNat = value ∧ (ofNat value &&& 0x80 == 0) = true := by
  have hv : (ofNat value).toNat = value := by
    rw [toNat_ofNat']
    omega
  constructor
  · have h7f : (0x7f : UInt8).toNat = 2 ^ 7 - 1 := rfl
    rw [UInt8.toNat_and,h7f,hv,and_two_pow_sub_one_eq_mod]
    omega
  · have hs := and_sign (ofNat value)
    rw [hv,decide_eq_false (by omega)] at hs
    simpa [bne] using hs

theorem varBytes_length_pos {fuel : Nat} (h : 0 < fuel) : 0 < (varBytes fuel value).length := by
  obtain ⟨fuel,rfl⟩ := exists_eq_succ_of_ne_zero h.ne'
  rw [varBytes]
  split <;> simp

theorem accumulate {i acc part : Nat} (hacc : acc < 2 ^ (7 * i)) (hfit : part * 2 ^ (7 * i) < 2 ^ 64) :
    acc ||| (part <<< (7 * i)) % 2 ^ 64 = acc + part * 2 ^ (7 * i) := by
  rw [Nat.shiftLeft_eq,Nat.mod_eq_of_lt hfit,Nat.or_comm,mul_comm,← Nat.two_pow_add_eq_or_of_lt hacc,
    add_comm]

theorem readVarFrom_varBytes (fuel : Nat) :
    ∀ {remaining i position value acc : Nat}, HoldsAt encoded position (varBytes fuel value) →
      value < 2 ^ (7 * fuel) → value < 2 ^ (7 * remaining) → 0 < fuel → 0 < remaining →
      acc < 2 ^ (7 * i) → acc + value * 2 ^ (7 * i) < 2 ^ 64 → readVarFrom encoded remaining i position acc =
        .ok (acc + value * 2 ^ (7 * i), position + (varBytes fuel value).length) := by
  induction fuel with
  | zero => intro _ _ _ _ _ _ _ _ h0; omega
  | succ fuel ih =>
    intro remaining i position value acc hh hf hrem _ hpos hacc hfit
    obtain ⟨remaining,rfl⟩ := exists_eq_succ_of_ne_zero hpos.ne'
    rw [varBytes] at hh ⊢
    split at hh
    next hbig =>
      obtain ⟨hget,hr⟩ := HoldsAt.cons_iff.mp hh
      obtain ⟨hlow,hc⟩ := or_continuation value
      -- The remaining bits go on above bit `7 * (i + 1)`.
      have hdiv : value >>> 7 = value / 128 := by rw [shiftRight_eq_div_pow]
      have hpow : 2 ^ (7 * (i + 1)) = 128 * 2 ^ (7 * i) := by rw [mul_add,pow_add]; ring
      have hsum : value % 128 * 2 ^ (7 * i) + value / 128 * 2 ^ (7 * (i + 1)) = value * 2 ^ (7 * i) := by
        rw [hpow,← mul_assoc,← add_mul,mul_comm (value / 128),mod_add_div]
      have hst : ∀ k, value < 2 ^ (7 * (k + 1)) → value / 128 < 2 ^ (7 * k) := by
        intro k hk
        rw [mul_add,pow_add] at hk
        exact Nat.div_lt_of_lt_mul (by rw [mul_comm]; exact hk)
      have hlt : ∀ k, value < 2 ^ (7 * (k + 1)) → 0 < k := by
        intro k hk
        by_contra h0
        have : k = 0 := by omega
        subst this
        omega
      rw [hdiv] at hr
      rw [readVarFrom,hget,if_pos hbig]
      simp only [hlow,hc,Bool.false_eq_true,if_false]
      rw [accumulate hacc (by omega),ih hr (hst fuel hf) (hst remaining hrem) (hlt fuel hf)
        (hlt remaining hrem) ?_ (by omega)]
      · rw [length_cons,hdiv]
        congr 2 <;> omega
      · have hmod : value % 128 * 2 ^ (7 * i) ≤ 127 * 2 ^ (7 * i) := mul_le_mul_right _ (by omega)
        omega
    next hs =>
      obtain ⟨hget,_⟩ := HoldsAt.cons_iff.mp hh
      obtain ⟨hlow,hc⟩ := final_byte (not_lt.mp hs)
      rw [readVarFrom,hget,if_neg hs]
      simp only [hlow,hc,if_true,length_singleton]
      rw [accumulate hacc (by omega)]

theorem readVar_varBytes {maximum : Nat} (h : HoldsAt encoded position (varBytes 10 value)) (hv : value < 2 ^ 64)
    (hmax : value < 2 ^ (7 * maximum)) (hpos : 0 < maximum) :
    readVar encoded position maximum = .ok (value, position + (varBytes 10 value).length) := by
  have hr : readVarFrom encoded maximum 0 position 0 =
      .ok (0 + value * 2 ^ (7 * 0), position + (varBytes 10 value).length) :=
    readVarFrom_varBytes 10 h (by omega) hmax (by decide) hpos (by simp) (by simpa using hv)
  simpa [readVar] using hr

theorem readVarFrom_sat (encoded : Bytes) (remaining : Nat) : ∀ i position value,
    (readVarFrom encoded remaining i position value).Sat fun r => position < r.2 ∧ r.2 ≤ encoded.length := by
  induction remaining with
  | zero => intro i position value; exact sat_fail _ _
  | succ remaining ih =>
    intro i position value
    rw [readVarFrom]
    cases hget : encoded[position]? with
    | none => exact sat_fail _ _
    | some part =>
      have hlt := (List.getElem?_eq_some_iff.mp hget).1
      dsimp only
      split
      · exact ⟨Nat.lt_succ_self _,hlt⟩
      · exact (ih _ _ _).mono fun r hr => ⟨by omega,hr.2⟩

theorem readVar_sat (encoded : Bytes) (position maximum : Nat) :
    (readVar encoded position maximum).Sat fun r => position < r.2 ∧ r.2 ≤ encoded.length :=
  readVarFrom_sat encoded maximum 0 position 0

theorem appendLengthBytes_eq_ok {dst value : Bytes} : appendLengthBytes dst value = .ok encoded ↔
      value.length ≤ maxRowBytes ∧ encoded = dst ++ varBytes 10 value.length ++ value := by
  unfold appendLengthBytes appendVar32 appendVar64
  split
  · simp only [fail_ne_ok,false_iff]
    rintro ⟨hl,_⟩
    omega
  · rw [ok.injEq,eq_comm]
    exact (and_iff_right (by omega)).symm

theorem readLengthBytes_of_holdsAt {value : Bytes} (h : HoldsAt encoded position (varBytes 10 value.length ++ value))
    (hl : value.length ≤ maxRowBytes) : readLengthBytes encoded position =
      .ok (value, position + (varBytes 10 value.length ++ value).length) := by
  obtain ⟨hvar,hb⟩ := HoldsAt.append_iff.mp h
  have hm := maxRowBytes_eq
  rw [readLengthBytes,readVar_varBytes hvar (by omega) (by omega) (by decide),mapErr_ok,
    bind_ok]
  obtain ⟨hlen,hs⟩ := hb
  dsimp only
  rw [if_neg (by omega),subslice_ok hlen,hs,length_append,bind_ok,pure_eq,add_assoc]

theorem readLengthBytes_sat (encoded : Bytes) (position : Nat) : (readLengthBytes encoded position).Sat fun r =>
      r.1.length ≤ maxRowBytes ∧ position < r.2 ∧ r.2 ≤ encoded.length := by
  refine ((readVar_sat encoded position 5).mapErr).bind fun r _ hr => ?_
  dsimp only
  split
  · exact sat_fail _ _
  · have hs := slice_length encoded r.2 r.1 (by omega)
    rw [subslice_ok (by omega),bind_ok,pure_eq,sat_ok]
    rw [hs]
    omega

theorem appendFixed_eq_ok {dst value : Bytes} {length : Int} : appendFixed dst value length = .ok encoded ↔
      1 ≤ length ∧ (value.length : Int) ≤ length ∧ length ≤ maxAlloc ∧
        encoded = dst ++ value ++ zeros (length.toNat - value.length) := by
  unfold appendFixed
  split
  · simp only [fail_ne_ok,false_iff]
    rintro ⟨h1,h2,_⟩
    omega
  split
  · simp only [reduceCtorEq,false_iff]
    rintro ⟨_,_,h3,_⟩
    omega
  · rw [ok.injEq,eq_comm]
    constructor
    · intro h
      exact ⟨by omega,by omega,by omega,h⟩
    · exact fun h => h.2.2.2

theorem trimZero_append_zeros (value : Bytes) (n : Nat) : trimZero (value ++ zeros n) = trimZero value := by
  induction n with
  | zero => simp [zeros]
  | succ n ih =>
    have hz : value ++ zeros (n + 1) = (value ++ zeros n) ++ [0] := by
      rw [zeros,replicate_succ',zeros,append_assoc]
    rw [hz,trimZero,rdropWhile_concat_pos _ _ _ (by rfl)]
    exact ih
end FlussGo
