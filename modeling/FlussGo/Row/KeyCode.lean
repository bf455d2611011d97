import FlussGo.Lib.PrefixCode
import FlussGo.Row.EncodeSafety
/-!
# Keys are uniquely decodable

The compacted values of one type form a prefix code. A key writes one value after the other, so key bytes
determine the key at its stored resolution.
-/
namespace FlussGo
open Outcome List
def columnBytes (column : Column) (v : Value) (b : Bytes) : Prop :=
  appendCompactedValue [] (logicalTypeForColumn column) v = .ok b
/-- The bytes of values whose dates and timestamps fit. -/
def keyCode (column : Column) (v : Value) (b : Bytes) : Prop :=
  columnBytes column v b ∧ fits (logicalTypeForColumn column) v = true
/-- What the bytes of a key column keep of a value. -/
def keyStored (column : Column) (v : Value) : Value := stored .compacted true (logicalTypeForColumn column) v

private theorem readCompacted_head {t : LogicalType} {v : Value} {b : Bytes} (h : appendCompactedValue [] t v = .ok b)
    (hfit : fits t v = true) (rest : Bytes) :
    readCompactedWith (decodeNested .compacted t) t (b ++ rest) 0 = .ok (stored .compacted true t v, b.length) := by
  have hr := readCompactedWith_of_holdsAt (show padded .compacted true t.root t.length = false by simp [padded]) h hfit
    (fun payload hp hmax => roundTrips .compacted t true v payload hp hfit hmax)
    (holdsAt_append_middle [] b rest)
  simpa using hr

theorem keyCode_prefixCode : PrefixCode keyCode keyStored where
  decode {column v u x y r s} hx hy h := by
    have hr := readCompacted_head hx.1 hx.2 r
    rw [h,readCompacted_head hy.1 hy.2 s] at hr
    obtain ⟨hs,hl⟩ := Prod.mk.inj (ok.inj hr)
    exact ⟨hs.symm,(append_inj h hl.symm).1⟩
  encode {column v u x y} hx hy h := by
    have hs : ∀ v, appendCompactedValue [] (logicalTypeForColumn column) (keyStored column v) =
        appendCompactedValue [] (logicalTypeForColumn column) v :=
      fun v => appendCompactedWith_stored (reencodes _ true v) []
    have heq := hs v
    rw [h,hs u,show appendCompactedValue _ _ v = _ from hx.1,show appendCompactedValue _ _ u = _ from hy.1] at heq
    exact (ok.inj heq).symm

private theorem appendLengthBytes_dst (dst value : Bytes) :
    appendLengthBytes dst value = (dst ++ ·) <$> appendLengthBytes [] value := by
  unfold appendLengthBytes
  split
  · rfl
  · simp [appendVar32,appendVar64]

theorem appendCompactedValue_dst (dst : Bytes) (t : LogicalType) (v : Value) :
    appendCompactedValue dst t v = (dst ++ ·) <$> appendCompactedValue [] t v := by
  have hb : ∀ {α : Type} (x : Go α) (f g : α → Go Bytes), (∀ a, f a = (dst ++ ·) <$> g a) →
      (x >>= f) = (dst ++ ·) <$> (x >>= g) := by
    intro α x f g h
    cases x with
    | ok a => exact h a
    | err e => rfl
    | panic p => rfl
  unfold appendCompactedValue appendCompactedWith
  cases hk : dataTypeForLogicalType t with
  | string | char | bytes | binary | array | map | row => exact hb _ _ _ fun a => appendLengthBytes_dst dst a
  | decimal =>
    refine hb _ _ _ fun r => hb _ _ _ fun unscaled => ?_
    split
    · simp [appendVar64]
    · exact appendLengthBytes_dst dst _
  | timestamp | timestampLTZ =>
    refine hb _ _ _ fun x => ?_
    simp only [appendCompactedTimestamp]
    split <;> simp [appendVar32,appendVar64]
  | other name => rfl
  | _ => exact hb _ _ _ fun a => by simp [appendLittle,appendVar32,appendVar64]
/-- The columns of a key, in key order. -/
def keyColumns (schema : Schema) (names : List String) : List Column := names.filterMap schema.columnByName
/-- What key bytes keep of a key whose columns have the given names. -/
def storedKey (schema : Schema) (names : List String) (key : Row) : Row :=
  storedColumns .compacted (keyColumns schema names) key

def fitsKey (schema : Schema) (names : List String) (key : Row) : Bool := fitsColumns (keyColumns schema names) key

theorem storedColumns_eq_zipWith {columns : List Column} {row : Row} (h : row.length = columns.length) :
    storedColumns .compacted columns row = List.zipWith keyStored columns row := by
  induction columns generalizing row with
  | nil => rw [length_eq_zero_iff.mp h]; rfl
  | cons column columns ih =>
    cases row with
    | nil => simp at h
    | cons v row =>
      rw [storedColumns,zipWith_cons_cons,ih (by simpa using h)]
      rfl

section
variable {schema : Schema} {names : List String} {key : Row} {encoded : Bytes}

private theorem encodeKeyValues_codewords {final : Bytes} (hlen : names.length = key.length)
    (hva : schema.validateValues names key = .ok ()) (h : encodeKeyValues schema names key encoded = .ok final) :
    ∃ b, final = encoded ++ b ∧ Codewords columnBytes (keyColumns schema names) key b := by
  induction names generalizing key encoded with
  | nil =>
    cases h
    rw [length_eq_zero_iff.mp hlen.symm]
    exact ⟨[],(append_nil _).symm,.nil⟩
  | cons name names ih =>
    cases key with
    | nil => simp at hlen
    | cons v key =>
      obtain ⟨column,hc,_,hr⟩ := validateValues_cons hva
      rw [encodeKeyValues] at h
      have h := (of_guard h).2
      simp only [hc,Option.getD_some] at h
      obtain ⟨encoded',hv,h⟩ := of_bind h
      rw [mapErr_eq_ok,appendCompactedValue_dst,map_eq_ok] at hv
      obtain ⟨x,hx,rfl⟩ := hv
      obtain ⟨b,rfl,hw⟩ := ih (by simpa using hlen) hr h
      rw [keyColumns,filterMap_cons_some hc]
      exact ⟨x ++ b,append_assoc ..,.cons hx hw⟩

theorem encodeKeyColumns_columns (hn : names ≠ []) (h : encodeKeyColumns schema names key = .ok encoded) :
    Codewords columnBytes (keyColumns schema names) key encoded := by
  obtain ⟨hva,h⟩ := of_seq h
  obtain ⟨final,hl,h⟩ := of_bind h
  have h := (of_guard h).2
  cases h
  obtain ⟨hlen,hv⟩ := validateValues_of_validateRow hva
  cases names with
  | nil => exact absurd rfl hn
  | cons name names =>
    obtain ⟨b,rfl,hw⟩ := encodeKeyValues_codewords hlen hv hl
    exact hw

private theorem fits_forall₂ {columns : List Column} {row : Row} (hlen : row.length = columns.length)
    (h : fitsColumns columns row = true) :
    List.Forall₂ (fun column v => fits (logicalTypeForColumn column) v = true) columns row := by
  induction columns generalizing row with
  | nil => rw [length_eq_zero_iff.mp hlen]; exact .nil
  | cons column columns ih =>
    cases row with
    | nil => simp at hlen
    | cons v row =>
      rw [fitsColumns,Bool.and_eq_true] at h
      exact .cons h.1 (ih (by simpa using hlen) h.2)

theorem encodeKeyColumns_codewords (hn : names ≠ []) (hfit : fitsKey schema names key = true)
    (h : encodeKeyColumns schema names key = .ok encoded) :
    Codewords keyCode (keyColumns schema names) key encoded := by
  have hw := encodeKeyColumns_columns hn h
  exact hw.restrict (fits_forall₂ hw.length_eq hfit)

theorem keyColumns_take (schema : Schema) (names : List String) (n : Nat) :
    keyColumns schema names = keyColumns schema (names.take n) ++ keyColumns schema (names.drop n) := by
  rw [keyColumns,keyColumns,keyColumns,← filterMap_append,take_append_drop]

theorem encodeKeyColumns_take {n : Nat} {lead : Bytes} (hn : names.take n ≠ [])
    (h : encodeKeyColumns schema names key = .ok encoded)
    (hl : encodeKeyColumns schema (names.take n) (key.take n) = .ok lead) : lead <+: encoded := by
  have hna : names ≠ [] := by
    rintro rfl
    simp at hn
  have hwo := encodeKeyColumns_columns hna h
  have hw := encodeKeyColumns_columns hn hl
  rw [keyColumns_take schema names n] at hwo
  obtain ⟨ys,zs,rfl,hs⟩ := hwo.split
  have ht : key.take (keyColumns schema (names.take n)).length = key.take n := by
    rw [← hw.length_eq,length_take]
    rcases Nat.le_total n key.length with hle | hle
    · rw [Nat.min_eq_left hle]
    · rw [Nat.min_eq_right hle,take_length,take_of_length_le hle]
  rw [ht] at hs
  have heq : lead = ys :=
    Codewords.encode (fun _ v => v)
      (fun _ _ _ _ _ hx hy hv => by
        subst hv
        exact ok.inj (hx.symm.trans hy)) hw hs rfl
  exact heq ▸ prefix_append lead zs
end
/-- Two keys have the same bytes exactly when they are equal at their stored resolution, no key
continues another one, and the bytes of a prefix begin those of a key exactly when the prefix equals
the leading values of the key. -/
theorem keyBytes_determine_keys (schema : Schema) (hkey : schema.primaryKey ≠ []) :
    (∀ k₁ k₂ e₁ e₂, encodePrimaryKey schema k₁ = .ok e₁ → encodePrimaryKey schema k₂ = .ok e₂ →
      fitsKey schema schema.primaryKey k₁ = true → fitsKey schema schema.primaryKey k₂ = true →
      (e₁ = e₂ ↔ storedKey schema schema.primaryKey k₁ = storedKey schema schema.primaryKey k₂) ∧
        (e₁ <+: e₂ → e₁ = e₂)) ∧
    ∀ p k ep ek, encodePrefixKey schema p = .ok ep → encodePrimaryKey schema k = .ok ek →
      fitsKey schema (schema.primaryKey.take p.length) p = true → fitsKey schema schema.primaryKey k = true →
      (ep <+: ek ↔ storedKey schema (schema.primaryKey.take p.length) p =
        storedKey schema (schema.primaryKey.take p.length) (k.take p.length)) := by
  have hwords : ∀ {k e}, encodePrimaryKey schema k = .ok e → fitsKey schema schema.primaryKey k = true →
      Codewords keyCode (keyColumns schema schema.primaryKey) k e :=
    fun h hfit => encodeKeyColumns_codewords hkey hfit (of_seq h).2
  constructor
  · intro k₁ k₂ e₁ e₂ h₁ h₂ hfit₁ hfit₂
    have hw₁ := hwords h₁ hfit₁
    have hw₂ := hwords h₂ hfit₂
    rw [storedKey,storedKey,storedColumns_eq_zipWith hw₁.length_eq,storedColumns_eq_zipWith hw₂.length_eq]
    exact ⟨Codewords.eq_iff keyCode_prefixCode hw₁ hw₂,Codewords.eq_of_isPrefix keyCode_prefixCode hw₁ hw₂⟩
  · intro p k ep ek hp hk hfitp hfitk
    unfold encodePrefixKey at hp
    obtain ⟨hlen,hp⟩ := of_guard hp
    have htake : schema.primaryKey.take p.length ≠ [] := by
      intro hnil
      have := congrArg List.length hnil
      rw [length_take,length_nil] at this
      omega
    have hwp := encodeKeyColumns_codewords htake hfitp hp
    have hwk := hwords hk hfitk
    have hsplit := keyColumns_take schema schema.primaryKey p.length
    have hk' := hwk.length_eq
    rw [hsplit] at hwk
    rw [hsplit,length_append] at hk'
    have hpl := hwp.length_eq
    have hiff := Codewords.isPrefix_iff keyCode_prefixCode hwp hwk
    rw [← hpl] at hiff
    rw [storedKey,storedKey,storedColumns_eq_zipWith hpl,storedColumns_eq_zipWith (by rw [length_take]; omega)]
    exact hiff

def orderSchema : Schema where
  columns := [{ name := "number", type := .int }, { name := "name", type := .string }]
  primaryKey := ["number", "name"]

theorem keyBytes_determine_orders :
    ([0x05, 0x01, 0x61] = ([0x05, 0x01, 0x62] : Bytes) ↔
      storedKey orderSchema orderSchema.primaryKey [.int32 5, .string [0x61]] =
        storedKey orderSchema orderSchema.primaryKey [.int32 5, .string [0x62]]) ∧
    ([0x05] <+: ([0x05, 0x01, 0x62] : Bytes) ↔
      storedKey orderSchema ["number"] [.int32 5] = storedKey orderSchema ["number"] [.int32 5]) :=
  have h := keyBytes_determine_keys orderSchema (by decide)
  ⟨(h.1 [.int32 5, .string [0x61]] [.int32 5, .string [0x62]] _ _ (by decide) (by decide) (by decide) (by decide)).1,
    h.2 [.int32 5] [.int32 5, .string [0x62]] _ _ (by decide) (by decide) (by decide) (by decide)⟩
end FlussGo
