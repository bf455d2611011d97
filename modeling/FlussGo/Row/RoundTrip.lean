import FlussGo.Row.ValueRoundTrip
/-!
# Round trip of rows

Each column changes its own null bit, at most one header length and the bytes after the buffer, so what it
wrote is found by the decoder's pass over the finished row.
-/
namespace FlussGo
open Outcome List Nat
section Loop
variable {encoding : RowEncoding} {nullBytes headerBytes i lp lp' : Nat} {column : Column} {columns : List Column}
  {encoded : Bytes}
/-- The buffer before column `i`: the null bits to come are clear and the header has room for the
lengths to come. -/
structure RowState (encoding : RowEncoding) (nullBytes headerBytes : Nat) (columns : List Column) (i : Nat)
    (encoded : Bytes) (lengthPosition : Nat) : Prop where
  header_le : headerBytes ≤ encoded.length
  null_le : nullBytes ≤ lengthPosition
  null_le_header : nullBytes ≤ headerBytes
  lengths_le : encoding = .indexed → lengthPosition + 4 * variableColumns columns ≤ headerBytes
  bitmap_lt : ∀ k < i + columns.length, k / 8 < nullBytes
  clear : ∀ k, i ≤ k → k < i + columns.length → hasBit 0 encoded k = false
/-- What the columns from `i` on leave alone. -/
structure RowFrame (nullBytes headerBytes i : Nat) (lengthPosition : Nat) (encoded final : Bytes) : Prop where
  length_le : encoded.length ≤ final.length
  bytes : AgreeOn (fun j => (nullBytes ≤ j ∧ j < lengthPosition) ∨ headerBytes ≤ j) encoded final
  bits : ∀ k < i, hasBit 0 final k = hasBit 0 encoded k

theorem RowFrame.refl (nullBytes headerBytes i lengthPosition : Nat) (encoded : Bytes) :
    RowFrame nullBytes headerBytes i lengthPosition encoded encoded :=
  ⟨le_refl _,AgreeOn.refl _ _,fun _ _ => rfl⟩

private theorem RowFrame.trans_succ {a b c : Bytes}
    (hab : RowFrame nullBytes headerBytes i lp a b) (hbc : RowFrame nullBytes headerBytes (i + 1) lp' b c)
    (hlp : lp ≤ lp') : RowFrame nullBytes headerBytes i lp a c := by
  refine ⟨hab.length_le.trans hbc.length_le,hab.bytes.trans (hbc.bytes.mono ?_) hab.length_le,?_⟩
  · intro j hj
    omega
  · intro k hk
    rw [hbc.bits k (by omega),hab.bits k hk]

private theorem variableColumns_le (column : Column) (columns : List Column) :
    variableColumns columns ≤ variableColumns (column :: columns) := by
  simp only [variableColumns,countP_cons]
  omega

theorem RowState.withBit (h : RowState encoding nullBytes headerBytes (column :: columns) i encoded lp) :
    RowState encoding nullBytes headerBytes columns (i + 1) (withBit 0 i encoded) lp ∧
      RowFrame nullBytes headerBytes i lp encoded (withBit 0 i encoded) := by
  have hbit := h.bitmap_lt i (by simp)
  have hh := h.header_le
  have hn := h.null_le_header
  have hin : 0 + i / 8 < encoded.length := by omega
  refine ⟨⟨by simpa using hh,h.null_le,hn,?_,?_,?_⟩,⟨by simp,?_,?_⟩⟩
  · intro he
    have := h.lengths_le he
    have := variableColumns_le column columns
    omega
  · intro k hk
    exact h.bitmap_lt k (by simp; omega)
  · intro k hk hk'
    rw [hasBit_withBit hin,h.clear k (by omega) (by simp; omega)]
    simp
    omega
  · exact (agreeOn_withBit 0 i encoded).mono fun j hj => by omega
  · intro k hk
    rw [hasBit_withBit hin]
    simp
    omega
/-- The header length of a value, where it has one. -/
structure LengthWritten (encoding : RowEncoding) (t : LogicalType) (headerBytes : Nat) (encoded : Bytes) (lp length : Nat)
    (encoded' : Bytes) (lp' : Nat) : Prop where
  length_eq : encoded'.length = encoded.length
  lp_le : lp ≤ lp'
  bytes : AgreeOn (fun j => j < lp ∨ headerBytes ≤ j) encoded encoded'
  written : ∀ isNull final, isNull = false → encoded'.length ≤ final.length →
    AgreeOn (fun j => lp ≤ j ∧ j < lp') encoded' final → length < 2 ^ 32 →
    ∃ n, indexedValueLength final lp t encoding isNull = .ok (n, lp') ∧
      (encoding = .indexed → indexedFixed t = false → n = length)

private theorem putIndexedLength_spec {length : Nat}
    {encoded' : Bytes} (h : RowState encoding nullBytes headerBytes (column :: columns) i encoded lp)
    (hput : putIndexedLength encoding (logicalTypeForColumn column) encoded lp length = .ok (encoded', lp')) :
    LengthWritten encoding (logicalTypeForColumn column) headerBytes encoded lp length encoded' lp' ∧
      (encoding = .indexed → lp' + 4 * variableColumns columns ≤ headerBytes) := by
  have hle := h.lengths_le
  simp only [variableColumns,countP_cons] at hle ⊢
  unfold putIndexedLength at hput
  by_cases hc : encoding = .indexed ∧ indexedFixed (logicalTypeForColumn column) = false
  · rw [if_pos hc] at hput
    obtain ⟨e,hw,he⟩ := of_bind hput
    cases he
    obtain ⟨hlen,rfl⟩ := putLittle_eq_ok hw
    have hl := hle hc.1
    simp only [hc.2,Bool.not_false,if_true] at hl
    refine ⟨⟨spliced_length _ hlen,by omega,(agreeOn_spliced length hlen).mono fun j hj => by omega,?_⟩,?_⟩
    · intro isNull final hn hfl ha hlt
      have hhe := (holdsAt_spliced length hlen).of_agreeOn ha hfl fun j hj hj' => by
        exact ⟨hj,hj'⟩
      refine ⟨length,?_,fun _ _ => rfl⟩
      rw [indexedValueLength,if_pos ⟨hc.1,hc.2,hn⟩,readLittle_of_holdsAt hhe (by omega)]
      rfl
    · intro _
      omega
  · rw [if_neg hc] at hput
    cases hput
    refine ⟨⟨rfl,le_refl _,AgreeOn.refl _ _,?_⟩,?_⟩
    · intro isNull final hn _ _ _
      refine ⟨-1,?_,fun he hf => absurd ⟨he,hf⟩ hc⟩
      rw [indexedValueLength,if_neg (fun hh => hc ⟨hh.1,hh.2.1⟩)]
      rfl
    · intro he
      have := hle he
      omega

private theorem RowState.value {length : Nat} {encoded' value : Bytes}
    (h : RowState encoding nullBytes headerBytes (column :: columns) i encoded lp)
    (hw : LengthWritten encoding (logicalTypeForColumn column) headerBytes encoded lp length encoded' lp')
    (hroom : encoding = .indexed → lp' + 4 * variableColumns columns ≤ headerBytes) :
    RowState encoding nullBytes headerBytes columns (i + 1) (encoded' ++ value) lp' ∧
      RowFrame nullBytes headerBytes i lp encoded (encoded' ++ value) := by
  have hhead := h.header_le
  have hnull := h.null_le
  have hnh := h.null_le_header
  have hlp := hw.lp_le
  have hle : encoded'.length ≤ (encoded' ++ value).length := by simp
  have hbytes : AgreeOn (fun j => j < lp ∨ headerBytes ≤ j) encoded (encoded' ++ value) :=
    hw.bytes.trans (agreeOn_append _ _ _) hw.length_eq.ge
  have hbits : ∀ k < i + (column :: columns).length, hasBit 0 (encoded' ++ value) k = hasBit 0 encoded k := by
    intro k hk
    have hb := h.bitmap_lt k hk
    exact hbytes.hasBit_eq (.inl (by omega)) (by omega)
  refine ⟨⟨?_,by omega,hnh,hroom,?_,?_⟩,⟨?_,?_,fun k hk => hbits k (by omega)⟩⟩
  · have := hw.length_eq
    omega
  · intro k hk
    exact h.bitmap_lt k (by simp; omega)
  · intro k hk hk'
    rw [hbits k (by simp; omega),h.clear k (by omega) (by simp; omega)]
  · have := hw.length_eq
    omega
  · exact hbytes.mono fun j hj => by omega

theorem RowState.setBit (h : RowState encoding nullBytes headerBytes (column :: columns) i encoded lp) :
    (FlussGo.setBit 0 i encoded : Go Bytes) = .ok (FlussGo.withBit 0 i encoded) := by
  have hbit := h.bitmap_lt i (by simp)
  have := h.header_le
  have := h.null_le_header
  exact setBit_ok (by omega)

theorem putIndexedLength_ok (h : RowState encoding nullBytes headerBytes (column :: columns) i encoded lp) (length : Nat) :
    ∃ encoded' lp', putIndexedLength encoding (logicalTypeForColumn column) encoded lp length = .ok (encoded', lp') ∧
      encoded'.length = encoded.length ∧
      ∀ value, RowState encoding nullBytes headerBytes columns (i + 1) (encoded' ++ value) lp' := by
  have hput : ∃ r, putIndexedLength encoding (logicalTypeForColumn column) encoded lp length = .ok r := by
    unfold putIndexedLength
    split
    next hc =>
      have hl := h.lengths_le hc.1
      have := h.header_le
      simp only [variableColumns,countP_cons,hc.2,Bool.not_false,if_true] at hl
      rw [putLittle_ok (by omega)]
      exact ⟨_,rfl⟩
    · exact ⟨_,rfl⟩
  obtain ⟨⟨encoded',lp'⟩,hput⟩ := hput
  obtain ⟨hw,hroom⟩ := putIndexedLength_spec h hput
  exact ⟨encoded',lp',hput,hw.length_eq,fun value => (h.value hw hroom).1⟩
end Loop
/-- The nested codecs of a type invert each other. -/
def RoundTrips (encoding : RowEncoding) (t : LogicalType) : Prop :=
  ∀ inRow v payload, encodeNested encoding t v = .ok payload → fits t v = true →
    payload.length ≤ maxRowBytes → decodeNested encoding t payload = .ok (stored encoding inRow t v)

section Row
variable {encoding : RowEncoding} {nullBytes headerBytes : Nat}

def encodersOf (encoding : RowEncoding) (columns : List Column) : List (Column × (Value → Go Bytes)) :=
  columns.map fun column => (column, encodeRowValue encoding (logicalTypeForColumn column))

def decodersOf (encoding : RowEncoding) (columns : List Column) :
    List (Column × (Bytes → Nat → Int → Go (Value × Nat))) :=
  columns.map fun column => (column, decodeRowValue encoding (logicalTypeForColumn column))

theorem decodeColumns_encodeColumns {columns : List Column} {row : Row}
    (hrow : List.Forall₂ (fun column v => validateColumnValue column v = .ok ()) columns row)
    (hfit : fitsColumns columns row = true)
    (hnested : ∀ column ∈ columns, RoundTrips encoding (logicalTypeForColumn column)) :
    ∀ (i : Nat) (encoded final : Bytes) (lp : Nat), RowState encoding nullBytes headerBytes columns i encoded lp →
      encodeColumns encoding (encodersOf encoding columns) row i encoded lp = .ok final → final.length ≤ maxRowBytes →
      RowFrame nullBytes headerBytes i lp encoded final ∧
        decodeColumns encoding final (decodersOf encoding columns) i encoded.length lp =
          .ok (storedColumns encoding columns row, final.length) := by
  induction hrow with
  | nil =>
    intro i encoded final lp hstate h _
    obtain rfl : encoded = final := ok.inj h
    exact ⟨RowFrame.refl _ _ _ _ _,rfl⟩
  | @cons column v columns row hv hrow ih =>
    intro i encoded final lp hstate h hmax
    rw [fitsColumns,Bool.and_eq_true] at hfit
    have ih := ih hfit.2 (fun c hc => hnested c (mem_cons_of_mem _ hc)) (i + 1)
    have hbit := hstate.bitmap_lt i (by simp)
    have hhead := hstate.header_le
    have hnh := hstate.null_le_header
    have hnull := hstate.null_le
    rw [encodersOf,map_cons,encodeColumns] at h
    split at h
    next hnil =>
      rw [Value.isNil_iff] at hnil
      subst hnil
      have hnullable : column.nullable = true := by
        rw [validateColumnValue_eq_ok] at hv
        exact hv
      rw [setBit_ok (by omega),bind_ok] at h
      obtain ⟨hnext,hframe⟩ := hstate.withBit
      obtain ⟨hlater,hdecode⟩ := ih _ final lp hnext h hmax
      have hlen := hlater.length_le
      rw [withBit_length] at hlen hdecode
      have hset : hasBit 0 final i = true := by
        rw [hlater.bits i (lt_succ_self i),hasBit_withBit (by omega)]
        simp
      refine ⟨hframe.trans_succ hlater (le_refl _),?_⟩
      rw [decodersOf,map_cons,decodeColumns,bitAt_ok (by omega),hset,bind_ok,
        indexedValueLength,if_neg (by simp),pure_eq,bind_ok]
      dsimp only
      rw [if_pos rfl,if_pos hnullable,← decodersOf,hdecode]
      simp [storedColumns]
    next hnil =>
      obtain ⟨value,hvalue,h⟩ := of_bind h
      rw [mapErr_eq_ok] at hvalue
      obtain ⟨⟨encoded',lp'⟩,hput,h⟩ := of_bind h
      obtain ⟨hw,hroom⟩ := putIndexedLength_spec hstate hput
      obtain ⟨hsize,h⟩ := of_guard h
      have hm := maxRowBytes_eq
      have hequal := hw.length_eq
      obtain ⟨hnext,hframe⟩ := hstate.value hw hroom
      obtain ⟨hlater,hdecode⟩ := ih _ final lp' hnext h hmax
      have hlen := hlater.length_le
      rw [length_append] at hlen hdecode
      have hclear : hasBit 0 final i = false := by
        rw [hlater.bits i (lt_succ_self i),
          ((hw.bytes.trans (agreeOn_append _ _ value) hequal.ge).hasBit_eq (.inl (by omega)) (by omega))]
        exact hstate.clear i (by omega) (by simp)
      obtain ⟨n,hn,hlength⟩ := hw.written false final rfl (by omega)
        (((agreeOn_append _ encoded' value).trans (hlater.bytes.mono fun j hj => .inl (by omega)) (by simp)))
        (by omega)
      have hheld : HoldsAt final encoded.length value := by
        have happend := holdsAt_append_middle encoded' value []
        rw [append_nil,hequal] at happend
        exact happend.of_agreeOn hlater.bytes hlater.length_le fun j hj _ => .inr (by omega)
      have hread := decodeRowValueWith_of_holdsAt hvalue hfit.1
        (fun payload hp hl => hnested column mem_cons_self true v payload hp hfit.1 hl)
        hheld (by omega) hlength
      refine ⟨hframe.trans_succ hlater hw.lp_le,?_⟩
      rw [decodersOf,map_cons,decodeColumns,bitAt_ok (by omega),hclear,bind_ok,hn,bind_ok]
      dsimp only
      rw [if_neg (by decide),decodeRowValue,hread,mapErr_ok,bind_ok]
      rw [← decodersOf,← hequal,hdecode]
      simp [storedColumns]

theorem rowState_initial (encoding : RowEncoding) (schema : Schema) :
    RowState encoding (rowNullBytes schema) (rowHeaderBytes schema encoding) schema.columns 0
      (zeros (rowHeaderBytes schema encoding)) (rowNullBytes schema) := by
  refine ⟨by simp,le_refl _,?_,?_,?_,fun k _ _ => hasBit_zeros _ _ _⟩
  · cases encoding <;> simp [rowHeaderBytes]
  · rintro rfl
    exact le_refl _
  · intro k hk
    unfold rowNullBytes
    omega

theorem decodeRow_encodeRow {schema : Schema} {row : Row} {encoded : Bytes}
    (hn : ∀ column ∈ schema.columns, RoundTrips encoding (logicalTypeForColumn column))
    (h : encodeRow schema row encoding = .ok encoded) (hfit : fitsRow schema row = true)
    (hmax : encoded.length ≤ maxRowBytes) :
    decodeRow schema encoded encoding = .ok (storedRow encoding schema row) := by
  rw [encodeRow,encodeRowWith,bind_unit_eq_ok,← map_prod_left_eq_zip] at h
  obtain ⟨hv,h⟩ := h
  obtain ⟨hva,hrow⟩ := (schema.validateRow_eq_ok row).mp hv
  obtain ⟨hf,hd⟩ := decodeColumns_encodeColumns hrow hfit hn 0 _ encoded _
    (rowState_initial encoding schema) h hmax
  have hlen := hf.length_le
  rw [zeros_length] at hlen hd
  rw [decodeRow,decodeRowWith,(schema.validate_eq_ok).mpr hva,bind_ok,if_neg (by omega),
    ← map_prod_left_eq_zip]
  change decodeColumns _ _ (decodersOf encoding schema.columns) _ _ _ >>= _ = _
  rw [hd,bind_ok]
  dsimp only
  rw [if_neg (not_not.mpr rfl)]
  rfl

private theorem decodeBinaryArray_encode {element : Option LogicalType} {vs : List Value} {encoded : Bytes}
    (hn : ∀ e ∈ element, RoundTrips encoding e)
    (h : encodeBinaryArray encoding element vs = .ok encoded) (hfit : fitsElements element vs = true) :
    encoded.length ≤ maxRowBytes ∧
      decodeBinaryArray encoding element encoded = .ok (storedElements encoding element vs) := by
  cases element with
  | none => simp [encodeBinaryArray] at h
  | some t =>
    have hvs : ∀ v ∈ vs, fits t v = true := by simpa [fitsElements] using hfit
    exact decodeBinaryArrayWith_encode h hvs fun v hv b hb hl => hn t rfl false v b hb (hvs v hv) hl

theorem roundTrips (encoding : RowEncoding) (t : LogicalType) : RoundTrips encoding t := by
  induction t using LogicalType.induction with
  | step t ih =>
    intro inRow v payload h hfit hmax
    rw [encodeNested_eq] at h
    rw [decodeNested_eq]
    cases hk : dataTypeForLogicalType t with
    | array =>
      simp only [hk] at h ⊢
      obtain ⟨vs,rfl,h⟩ := bind_as_eq_ok Value.asArray_eq_ok h
      rw [fits_array] at hfit
      rw [(decodeBinaryArray_encode ih.element h hfit).2,stored_array]
      rfl
    | map =>
      simp only [hk] at h ⊢
      cases he : mapEntries v with
      | none => simp [encodeBinaryMapWith,he] at h
      | some entries =>
        rw [fits_of_mapEntries t he,Bool.and_eq_true] at hfit
        rw [stored_of_mapEntries encoding inRow t he]
        exact decodeBinaryMapWith_encode he h
          (fun b hb => decodeBinaryArray_encode ih.key hb hfit.1)
          (fun b hb => (decodeBinaryArray_encode ih.value hb hfit.2).2) (by simp)
    | row =>
      simp only [hk] at h ⊢
      obtain ⟨vs,rfl,h⟩ := bind_as_eq_ok Value.asRow_eq_ok h
      rw [fits_row,fitsFields_eq] at hfit
      have hco : ∀ column ∈ (nestedSchema t).columns, RoundTrips encoding (logicalTypeForColumn column) := by
        intro column hc
        obtain ⟨f,hf,rfl⟩ := mem_map.mp hc
        exact ih.fields f hf
      rw [decodeRow_encodeRow hco h hfit hmax,stored_row,storedFields_eq]
      rfl
    | _ => simp [hk] at h
end Row
end FlussGo
