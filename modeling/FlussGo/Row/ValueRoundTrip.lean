import FlussGo.Row.ArrayRoundTrip
/-!
# Round trip of column values

A column value is read back at the position where its bytes stand, whatever surrounds them.
-/
namespace FlussGo
open Outcome List Value
section Value
variable {encoding : RowEncoding} {nested : Value → Go Bytes} {denested : Bytes → Go Value} {t : LogicalType}
  {v : Value} {b encoded : Bytes} {position : Nat} {length : Int}

theorem readWord_of_holdsAt {width n : Nat} (h : HoldsAt encoded position (littleBytes width n))
    (hn : n < 256 ^ width) : readWord encoded position width = .ok (n, position + width) := by
  have hs : (readLittle width (littleBytes width n) 0 : Go Nat) = .ok n :=
    readLittle_of_holdsAt (holdsAt_self _) hn
  rw [readWord,readFixed_of_holdsAt h (by simp),bind_ok]
  dsimp only
  rw [hs,littleBytes_length]
  rfl

theorem readVar_32 {x : BitVec 32} (h : HoldsAt encoded position (varBytes 10 x.toNat)) :
    readVar encoded position 5 = .ok (x.toNat, position + (varBytes 10 x.toNat).length) := by
  have hx : x.toNat < 2 ^ 32 := x.isLt
  exact readVar_varBytes h (by omega) (by omega) (by decide)

theorem readVar_64 {x : BitVec 64} (h : HoldsAt encoded position (varBytes 10 x.toNat)) :
    readVar encoded position 10 = .ok (x.toNat, position + (varBytes 10 x.toNat).length) := by
  have hx : x.toNat < 2 ^ 64 := x.isLt
  exact readVar_varBytes h (by omega) (by omega) (by decide)

private theorem readCompactedTimestamp_of_holdsAt {x : Time}
    (hk : dataTypeForLogicalType t = .timestamp ∨ dataTypeForLogicalType t = .timestampLTZ)
    (hf : TimeFits (dataTypeForLogicalType t) x) (h : HoldsAt encoded position (appendCompactedTimestamp [] t x)) :
    readCompactedTimestamp encoded position t = .ok (.time (storedTime (dataTypeForLogicalType t) t.precision x),
        position + (appendCompactedTimestamp [] t x).length) := by
  have hs := timestampTime_timestampParts hk hf t.precision
  have hn := (timestampParts_nanos_le (dataTypeForLogicalType t) x).1
  unfold appendCompactedTimestamp at h ⊢
  dsimp only at h ⊢
  by_cases hp : 3 < t.precision
  · rw [if_pos hp,appendVar32,appendVar64,appendVar64,nil_append] at h
    rw [keptNanos,if_pos hp] at hs
    obtain ⟨hm,hr⟩ := HoldsAt.append_iff.mp h
    rw [readCompactedTimestamp,readVar_64 hm,bind_ok]
    dsimp only
    rw [if_pos hp,readVar_32 hr,mapErr_ok,bind_ok]
    rw [if_neg (by omega),ofNat_toNat,ofNat_toNat,hs,if_pos hp]
    simp [appendVar32,appendVar64,Nat.add_assoc]
  · rw [if_neg hp,appendVar64,nil_append] at h
    rw [keptNanos,if_neg hp] at hs
    rw [readCompactedTimestamp,readVar_64 h,bind_ok]
    dsimp only
    rw [if_neg hp,ofNat_toNat,hs,if_neg hp]
    simp [appendVar64]

private theorem readCompactedDecimal_of_holdsAt {r : Option Rat}
    (he : appendCompactedDecimal [] t r = .ok b) (h : HoldsAt encoded position b) :
    readCompactedDecimal encoded position t = .ok (.rat r, position + b.length) := by
  obtain ⟨unscaled,hu,he⟩ := of_bind he
  have hr := (decimalUnscaled_eq_ok hu).1
  split at he
  next hp =>
    obtain rfl : varBytes 10 (BitVec.ofInt 64 unscaled).toNat = b := ok.inj he
    rw [readCompactedDecimal,if_pos hp,readVar_64 h,bind_ok]
    dsimp only
    rw [ofNat_toNat,decimalUnscaled_toInt hu hp,← hr]
    rfl
  next hp =>
    obtain ⟨hl,rfl⟩ := appendLengthBytes_eq_ok.mp he
    rw [readCompactedDecimal,if_neg hp,readLengthBytes_of_holdsAt h hl,bind_ok]
    dsimp only
    rw [signedBigInt_signedBigEndian,← hr]
    rfl

private theorem readCompactedBool_of_holdsAt {x : Bool} (h : HoldsAt encoded position [if x then 1 else 0]) :
    readCompactedBool encoded position = .ok (.bool x, position + 1) := by
  rw [readCompactedBool,readFixed_of_holdsAt h (by simp),mapErr_ok,bind_ok]
  cases x <;> rfl

private theorem readLength_nested {payload : Bytes} {w : Value} (hl : payload.length ≤ maxRowBytes)
    (h : HoldsAt encoded position (varBytes 10 payload.length ++ payload)) (hw : denested payload = .ok w) : (do
      let (value, next) ← readLengthBytes encoded position let decoded ← denested value
      return (decoded, next) : Go (Value × Nat)) =
        .ok (w, position + (varBytes 10 payload.length ++ payload).length) := by
  rw [readLengthBytes_of_holdsAt h hl,bind_ok]
  dsimp only
  rw [hw]
  rfl

theorem readCompactedWith_of_holdsAt (hp : padded encoding true t.root t.length = false)
    (he : appendCompactedWith nested [] t v = .ok b) (hfit : fits t v = true)
    (hn : ∀ payload, nested v = .ok payload → payload.length ≤ maxRowBytes →
      denested payload = .ok (stored encoding true t v)) (h : HoldsAt encoded position b) :
    readCompactedWith denested t encoded position = .ok (stored encoding true t v, position + b.length) := by
  have hb : ∀ x, storedBytes encoding true t.root t.length x = x := by
    intro x
    rw [storedBytes,hp]
    rfl
  unfold appendCompactedWith at he
  unfold readCompactedWith
  cases hk : dataTypeForLogicalType t with
  | bool =>
    simp only [hk] at he ⊢
    obtain ⟨x,rfl,he⟩ := bind_as_eq_ok asBool_eq_ok he
    obtain rfl : [if x then 1 else 0] = b := ok.inj he
    rw [readCompactedBool_of_holdsAt h]
    simp
  | tinyInt | smallInt | float | double =>
    simp only [hk] at he ⊢
    obtain ⟨x,hx,he⟩ := of_bind he
    obtain rfl : v = _ := by simpa using hx
    obtain rfl : littleBytes _ x.toNat = b := ok.inj he
    rw [readWord_of_holdsAt h x.isLt]
    simp
  | int | bigInt =>
    simp only [hk] at he ⊢
    obtain ⟨x,hx,he⟩ := of_bind he
    obtain rfl : v = _ := by simpa using hx
    obtain rfl : varBytes 10 x.toNat = b := ok.inj he
    first | rw [readVar_32 h] | rw [readVar_64 h]
    simp
  | string | char | bytes | binary =>
    simp only [hk] at he ⊢
    obtain ⟨x,hx,he⟩ := of_bind he
    obtain rfl : v = _ := by simpa using hx
    obtain ⟨hl,rfl⟩ := appendLengthBytes_eq_ok.mp he
    rw [readLengthBytes_of_holdsAt h hl]
    simp [hb]
  | date | time =>
    simp only [hk] at he ⊢
    obtain ⟨x,rfl,he⟩ := bind_as_eq_ok asTime_eq_ok he
    rw [fits_time,hk,decide_eq_true_eq] at hfit
    cases he
    rw [readVar_32 h,bind_ok]
    rw [ofNat_toNat,temporalTime_temporalInt (by simp) hfit t.precision,stored_time,hk]
    rfl
  | timestamp | timestampLTZ =>
    simp only [hk] at he ⊢
    obtain ⟨x,rfl,he⟩ := bind_as_eq_ok asTime_eq_ok he
    rw [fits_time,decide_eq_true_eq] at hfit
    obtain rfl : appendCompactedTimestamp [] t x = b := ok.inj he
    rw [readCompactedTimestamp_of_holdsAt (by simp [hk]) hfit h,stored_time]
  | decimal =>
    simp only [hk] at he ⊢
    obtain ⟨r,rfl,he⟩ := bind_as_eq_ok asRat_eq_ok he
    rw [readCompactedDecimal_of_holdsAt he h,stored_rat]
  | array | map | row =>
    simp only [hk] at he ⊢
    obtain ⟨payload,hpay,he⟩ := of_bind he
    obtain ⟨hl,rfl⟩ := appendLengthBytes_eq_ok.mp he
    exact readLength_nested hl h (hn payload hpay hl)
  | other name =>
    simp only [hk] at he
    simp at he

private theorem readIndexedTimestamp_of_holdsAt {x : Time}
    (hk : dataTypeForLogicalType t = .timestamp ∨ dataTypeForLogicalType t = .timestampLTZ)
    (hf : TimeFits (dataTypeForLogicalType t) x) (h : HoldsAt encoded position (appendIndexedTimestamp [] t x)) :
    readIndexedTimestamp encoded position t = .ok (.time (storedTime (dataTypeForLogicalType t) t.precision x),
        position + (appendIndexedTimestamp [] t x).length) := by
  have hs := timestampTime_timestampParts hk hf t.precision
  have hn := (timestampParts_nanos_le (dataTypeForLogicalType t) x).2
  have hw : indexedLength t = if 3 < t.precision then 12 else 8 := by
    rcases hk with hk | hk <;> rw [indexedLength,hk]
  unfold appendIndexedTimestamp appendLittle at h ⊢
  dsimp only at h ⊢
  set millis := (timestampParts (dataTypeForLogicalType t) x).1
  set nanos := (timestampParts (dataTypeForLogicalType t) x).2
  by_cases hp : 3 < t.precision
  · rw [if_pos hp,nil_append] at h
    rw [keptNanos,if_pos hp] at hs
    rw [if_pos hp] at hw
    have hse := HoldsAt.append_iff.mp (holdsAt_self (littleBytes 8 millis.toNat ++ littleBytes 4 nanos.toNat))
    have hm : (readLittle 8 (littleBytes 8 millis.toNat ++ littleBytes 4 nanos.toNat) 0 : Go Nat) =
        .ok millis.toNat := readLittle_of_holdsAt hse.1 (bitVec_lt 8 millis)
    have hlow : (readLittle 4 (littleBytes 8 millis.toNat ++ littleBytes 4 nanos.toNat) 8 : Go Nat) =
        .ok nanos.toNat := readLittle_of_holdsAt hse.2 (bitVec_lt 4 nanos)
    rw [readIndexedTimestamp]
    rw [hw,readFixed_of_holdsAt h (by simp),bind_ok]
    dsimp only
    rw [if_pos rfl,hlow,bind_ok,ofNat_toNat,if_neg (by omega),hm,bind_ok,ofNat_toNat,hs]
    simp [hp]
  · rw [if_neg hp,nil_append] at h
    rw [keptNanos,if_neg hp] at hs
    rw [if_neg hp] at hw
    have hm : (readLittle 8 (littleBytes 8 millis.toNat) 0 : Go Nat) = .ok millis.toNat :=
      readLittle_of_holdsAt (holdsAt_self _) (bitVec_lt 8 millis)
    rw [readIndexedTimestamp]
    rw [hw,readFixed_of_holdsAt h (by simp),bind_ok]
    dsimp only
    rw [if_neg (by decide),bind_ok,if_neg (by decide),hm,bind_ok,ofNat_toNat,
      show BitVec.ofNat 32 0 = 0 from rfl,hs]
    simp [hp]

private theorem decimal_precision_pos {r : Option Rat} {unscaled : Int}
    (h : decimalUnscaled r t = .ok unscaled) : 0 < t.precision := by
  have hd := (decimalUnscaled_eq_ok h).2
  unfold decimalDigits at hd
  omega

theorem padded_indexed (hk : dataTypeForLogicalType t = .char ∨ dataTypeForLogicalType t = .binary) :
    padded .indexed true t.root t.length = decide (0 < t.length) := by
  unfold padded
  rcases hk with hk | hk <;> rw [dataTypeForLogicalType] at hk <;> simp [hk]

private theorem readIndexedBytes {x : Bytes}
    (hk : dataTypeForLogicalType t = .char ∨ dataTypeForLogicalType t = .binary)
    (he : appendIndexedBytes [] t x = .ok b) (h : HoldsAt encoded position b)
    (hl : indexedFixed t = false → length = b.length) :
    (indexedFixed t = true ∧ ∃ value, readFixed encoded position t.length = .ok (value, position + b.length) ∧
      trimZero value = storedBytes .indexed true t.root t.length x) ∨
    (indexedFixed t = false ∧ readFixed encoded position length =
      .ok (storedBytes .indexed true t.root t.length x, position + b.length)) := by
  have hpad := padded_indexed hk
  have hfi : indexedFixed t = decide (0 < t.length) := by
    rcases hk with hk | hk <;> rw [indexedFixed,hk]
  unfold appendIndexedBytes at he
  by_cases h0 : t.length = 0
  · rw [if_pos h0] at he
    obtain rfl : x = b := ok.inj he
    have hf : indexedFixed t = false := by simp [hfi,h0]
    refine .inr ⟨hf,?_⟩
    rw [storedBytes,hpad,h0]
    exact readFixed_of_holdsAt h (hl hf)
  · rw [if_neg h0] at he
    obtain ⟨h1,hx,_,rfl⟩ := appendFixed_eq_ok.mp he
    refine .inl ⟨by rw [hfi,decide_eq_true (by omega)],_,readFixed_of_holdsAt h ?_,?_⟩
    · simp
      omega
    · rw [trimZero_append_zeros,storedBytes,hpad,decide_eq_true (by omega)]
      rfl

theorem not_padded {inRow : Bool} (hk : dataTypeForLogicalType t ≠ .char ∧ dataTypeForLogicalType t ≠ .binary) :
    padded .indexed inRow t.root t.length = false := by
  unfold padded
  rw [dataTypeForLogicalType] at hk
  simp [hk.1,hk.2]

private theorem readIndexedWith_fixed (hf : indexedFixed t = true) :
    readIndexedWith denested t encoded position length = readIndexedFixedWith denested t encoded position :=
  if_pos hf

private theorem readIndexedWith_variable {value : Bytes} {next : Nat} (hf : indexedFixed t = false)
    (hr : readFixed encoded position length = .ok (value, next)) :
    readIndexedWith denested t encoded position length = match dataTypeForLogicalType t with
      | .string | .char => .ok (.string value, next)
      | .bytes | .binary => .ok (.bytes value, next)
      | .decimal => .ok (.rat (some (scaledRat (signedBigInt value) t.scale)), next)
      | .array | .map | .row => denested value >>= fun decoded => .ok (decoded, next)
      | _ => fail s!"unsupported indexed variable type {t.root.text}" := by
  rw [readIndexedWith,hf,if_neg (by decide),readIndexedVariableWith,hr]
  rfl

theorem readIndexedWith_of_holdsAt (he : appendIndexedWith nested [] t v = .ok b) (hfit : fits t v = true)
    (hn : ∀ payload, nested v = .ok payload → payload.length ≤ maxRowBytes →
      denested payload = .ok (stored .indexed true t v))
    (h : HoldsAt encoded position b) (hmax : b.length ≤ maxRowBytes)
    (hl : indexedFixed t = false → length = b.length) : readIndexedWith denested t encoded position length =
      .ok (stored .indexed true t v, position + b.length) := by
  unfold appendIndexedWith at he
  cases hk : dataTypeForLogicalType t with
  | int | bigInt =>
    simp only [hk] at he
    obtain ⟨x,hx,he⟩ := of_bind he
    obtain rfl : v = _ := by simpa using hx
    obtain rfl : littleBytes _ x.toNat = b := ok.inj he
    rw [readIndexedWith_fixed (by rw [indexedFixed,hk]),readIndexedFixedWith,hk]
    rw [readWord_of_holdsAt h x.isLt]
    simp
  | date | time =>
    simp only [hk] at he
    obtain ⟨x,rfl,he⟩ := bind_as_eq_ok asTime_eq_ok he
    rw [fits_time,hk,decide_eq_true_eq] at hfit
    obtain rfl : littleBytes 4 (temporalInt _ x).toNat = b := ok.inj he
    rw [readIndexedWith_fixed (by rw [indexedFixed,hk]),readIndexedFixedWith,hk]
    dsimp only
    rw [readWord_of_holdsAt h (bitVec_lt 4 _),bind_ok]
    rw [ofNat_toNat,temporalTime_temporalInt (by simp) hfit t.precision,stored_time,hk,littleBytes_length]
    rfl
  | timestamp | timestampLTZ =>
    simp only [hk] at he
    obtain ⟨x,rfl,he⟩ := bind_as_eq_ok asTime_eq_ok he
    rw [fits_time,decide_eq_true_eq] at hfit
    obtain rfl : appendIndexedTimestamp [] t x = b := ok.inj he
    rw [readIndexedWith_fixed (by rw [indexedFixed,hk]),readIndexedFixedWith,hk]
    rw [readIndexedTimestamp_of_holdsAt (by simp [hk]) hfit h,stored_time]
  | string | bytes =>
    have hf : indexedFixed t = false := by rw [indexedFixed,hk]
    simp only [hk] at he
    obtain ⟨x,hx,he⟩ := of_bind he
    obtain rfl : v = _ := by simpa using hx
    obtain rfl : x = b := ok.inj he
    rw [readIndexedWith_variable hf (readFixed_of_holdsAt h (hl hf)),hk]
    simp [storedBytes,not_padded,hk]
  | char | binary =>
    simp only [hk] at he
    obtain ⟨x,hx,he⟩ := of_bind he
    obtain rfl : v = _ := by simpa using hx
    rcases readIndexedBytes (by simp [hk]) he h hl with ⟨hf,value,hr,hv⟩ | ⟨hf,hr⟩
    · rw [readIndexedWith_fixed hf,readIndexedFixedWith,hk]
      simp [hr,← hv]
    · rw [readIndexedWith_variable hf hr,hk]
      simp
  | decimal =>
    simp only [hk] at he
    obtain ⟨r,rfl,hd⟩ := bind_as_eq_ok asRat_eq_ok he
    obtain ⟨unscaled,hu,he⟩ := of_bind hd
    have hpos := decimal_precision_pos hu
    have hr := (decimalUnscaled_eq_ok hu).1
    rw [stored_rat]
    split at he
    next hp =>
      obtain rfl : littleBytes 8 (BitVec.ofInt 64 unscaled).toNat = b := ok.inj he
      rw [readIndexedWith_fixed (by rw [indexedFixed,hk]; simp [hpos,hp]),readIndexedFixedWith,hk]
      dsimp only
      rw [readWord_of_holdsAt h (bitVec_lt 8 _),bind_ok]
      rw [ofNat_toNat,decimalUnscaled_toInt hu hp,← hr,littleBytes_length]
      rfl
    next hp =>
      have hf : indexedFixed t = false := by rw [indexedFixed,hk]; simp [hp]
      obtain rfl : signedBigEndian unscaled = b := ok.inj he
      rw [readIndexedWith_variable hf (readFixed_of_holdsAt h (hl hf)),hk]
      rw [signedBigInt_signedBigEndian,← hr]
  | array | map | row =>
    have hf : indexedFixed t = false := by rw [indexedFixed,hk]
    simp only [hk] at he
    obtain ⟨payload,hpay,he⟩ := of_bind he
    obtain rfl : payload = b := ok.inj he
    rw [readIndexedWith_variable hf (readFixed_of_holdsAt h (hl hf)),hk]
    rw [hn payload hpay hmax]
    rfl
  | bool | tinyInt | smallInt | float | double =>
    simp only [hk] at he
    rw [readIndexedWith_fixed (by rw [indexedFixed,hk]),readIndexedFixedWith,hk]
    exact readCompactedWith_of_holdsAt (not_padded (by simp [hk])) he hfit hn h
  | other name =>
    rw [appendCompactedWith,hk] at he
    simp at he

theorem decodeRowValueWith_of_holdsAt (he : encodeRowValueWith encoding nested t v = .ok b) (hfit : fits t v = true)
    (hn : ∀ payload, nested v = .ok payload → payload.length ≤ maxRowBytes →
      denested payload = .ok (stored encoding true t v))
    (h : HoldsAt encoded position b) (hmax : b.length ≤ maxRowBytes)
    (hl : encoding = .indexed → indexedFixed t = false → length = b.length) :
    decodeRowValueWith encoding denested t encoded position length =
      .ok (stored encoding true t v, position + b.length) := by
  cases encoding with
  | compacted => exact readCompactedWith_of_holdsAt (by simp [padded]) he hfit hn h
  | indexed => exact readIndexedWith_of_holdsAt he hfit hn h hmax (hl rfl)
end Value
end FlussGo
