import FlussGo.Row.RoundTrip
/-!
# Decoding arbitrary bytes

Whatever the bytes, the decoders do not panic, keep the cursor inside the buffer, and return values
of the declared type only.
-/
namespace FlussGo
open Outcome List LogicalType
/-- A non-nil value of type `t`, at every nesting depth. -/
def HasType (t : LogicalType) (v : Value) : Prop := v.isNil = false ∧ validLogicalValue t v = true

def nestedKind : DataType → Bool
  | .array | .map | .row => true
  | _ => false

theorem hasType_scalar {t : LogicalType} {kind : DataType} {v : Value} (hk : dataTypeForLogicalType t = kind)
    (hn : nestedKind kind = false) (h : validUntypedValue kind v = true) : HasType t v := by
  have hnil : v.isNil = false := by
    cases v with
    | nil => cases kind <;> simp [validUntypedValue,mapEntries] at h
    | _ => rfl
  refine ⟨hnil,?_⟩
  rw [validLogicalValue_eq,hnil]
  cases kind <;> simp_all [nestedKind]

section Pieces
variable {denested : Bytes → Go Value} {t : LogicalType} {encoded : Bytes} {slot : Nat}

theorem readLittle_sat {width position : Nat} (h : position + width ≤ encoded.length) :
    (readLittle width encoded position : Go Nat).Safe := by
  rw [readLittle_ok h]
  trivial

theorem arrayVariable_sat (h : slot + 8 ≤ encoded.length) : (arrayVariable encoded slot).Safe := by
  rw [arrayVariable,offsetSize,readLittle_ok h,bind_ok,pure_eq,bind_ok]
  exact (readFixed_sat _ _ _).bind fun _ _ _ => trivial

theorem unpackedArrayBytes_sat (h : slot + 8 ≤ encoded.length) : (unpackedArrayBytes encoded slot).Safe := by
  rw [unpackedArrayBytes,readLittle_ok h,bind_ok]
  split
  · dsimp only
    split
    · exact sat_fail _ _
    · trivial
  · exact arrayVariable_sat h

private theorem readArrayTimestamp_sat (h : slot + 8 ≤ encoded.length) :
    (readArrayTimestamp encoded slot t).Sat fun v => ∃ x, v = .time x := by
  rw [readArrayTimestamp]
  split
  · exact (readLittle_sat h).bind fun _ _ _ => ⟨_,rfl⟩
  rw [offsetSize,readLittle_ok h,bind_ok,pure_eq,bind_ok]
  refine (readFixed_sat _ _ _).mapErr.bind fun r _ hr => ?_
  dsimp only
  split
  · exact sat_fail _ _
  · exact (readLittle_sat (by omega)).bind fun _ _ _ => ⟨_,rfl⟩

private theorem readArrayDecimal_sat (h : slot + 8 ≤ encoded.length) :
    (readArrayDecimal encoded slot t).Sat fun v => ∃ r, v = .rat r := by
  rw [readArrayDecimal]
  split
  · exact (readLittle_sat h).bind fun _ _ _ => ⟨_,rfl⟩
  · exact (arrayVariable_sat h).bind fun _ _ _ => ⟨_,rfl⟩

theorem readArrayElementWith_sat (hn : ∀ bs, (denested bs).Sat (HasType t)) (encoded : Bytes) (slot : Nat) :
    (readArrayElementWith denested t encoded slot).Sat (HasType t) := by
  unfold readArrayElementWith
  split
  · exact sat_fail _ _
  rename_i hlen
  rw [arraySlotSize] at hlen
  cases hk : dataTypeForLogicalType t with
  | bool =>
    simp only [hk] at hlen ⊢
    rw [byteAt_ok (by omega),bind_ok]
    split
    · exact sat_fail _ _
    · exact hasType_scalar hk rfl rfl
  | tinyInt | smallInt | int | float | bigInt | double | date | time =>
    simp only [hk] at hlen ⊢
    exact (readLittle_sat (by omega)).bind fun _ _ _ => hasType_scalar hk rfl rfl
  | decimal =>
    simp only [hk] at hlen ⊢
    refine (readArrayDecimal_sat (by omega)).mono ?_
    rintro _ ⟨r,rfl⟩
    exact hasType_scalar hk rfl rfl
  | timestamp | timestampLTZ =>
    simp only [hk] at hlen ⊢
    refine (readArrayTimestamp_sat (by omega)).mono ?_
    rintro _ ⟨x,rfl⟩
    exact hasType_scalar hk rfl rfl
  | string | char | bytes | binary =>
    simp only [hk] at hlen ⊢
    exact (unpackedArrayBytes_sat (by omega)).bind fun _ _ _ => hasType_scalar hk rfl rfl
  | array | map | row =>
    simp only [hk] at hlen ⊢
    exact (arrayVariable_sat (by omega)).bind fun bs _ _ => hn bs
  | other name => exact sat_fail _ _
/-- A value of type `t` whose encoding ends at `next`, inside the buffer. -/
def ReadTo (t : LogicalType) (encoded : Bytes) (position : Nat) (r : Value × Nat) : Prop :=
  HasType t r.1 ∧ position ≤ r.2 ∧ r.2 ≤ encoded.length

private theorem readWord_sat (encoded : Bytes) (position width : Nat) :
    (readWord encoded position width).Sat fun r => position ≤ r.2 ∧ r.2 ≤ encoded.length := by
  refine (readFixed_sat encoded position width).bind fun r _ hr => ?_
  exact (readLittle_sat (by omega)).bind fun _ _ _ => ⟨by dsimp only; omega,hr.2.2⟩

private theorem readCompactedBool_sat (encoded : Bytes) (position : Nat) :
    (readCompactedBool encoded position).Sat fun r =>
      (∃ b, r.1 = .bool b) ∧ position ≤ r.2 ∧ r.2 ≤ encoded.length := by
  refine (readFixed_sat encoded position 1).mapErr.bind fun r _ hr => ?_
  dsimp only
  rw [byteAt_ok (by omega),bind_ok]
  split
  · exact sat_fail _ _
  · exact ⟨⟨_,rfl⟩,by dsimp only; omega,hr.2.2⟩

private theorem readCompactedTimestamp_sat (encoded : Bytes) (position : Nat) :
    (readCompactedTimestamp encoded position t).Sat fun r =>
      (∃ x, r.1 = .time x) ∧ position ≤ r.2 ∧ r.2 ≤ encoded.length := by
  refine (readVar_sat encoded position 10).bind fun r _ hr => ?_
  dsimp only
  split
  · refine (readVar_sat encoded r.2 5).mapErr.bind fun r' _ hr' => ?_
    split
    · exact sat_fail _ _
    · exact ⟨⟨_,rfl⟩,by dsimp only; omega,hr'.2⟩
  · exact ⟨⟨_,rfl⟩,hr.1.le,hr.2⟩

private theorem readCompactedDecimal_sat (encoded : Bytes) (position : Nat) :
    (readCompactedDecimal encoded position t).Sat fun r =>
      (∃ x, r.1 = .rat x) ∧ position ≤ r.2 ∧ r.2 ≤ encoded.length := by
  rw [readCompactedDecimal]
  split
  · exact (readVar_sat encoded position 10).bind fun r _ hr => ⟨⟨_,rfl⟩,hr.1.le,hr.2⟩
  · exact (readLengthBytes_sat encoded position).bind fun r _ hr => ⟨⟨_,rfl⟩,hr.2.1.le,hr.2.2⟩

theorem readCompactedWith_sat (hn : ∀ bs, (denested bs).Sat (HasType t)) (encoded : Bytes) (position : Nat) :
    (readCompactedWith denested t encoded position).Sat (ReadTo t encoded position) := by
  unfold readCompactedWith
  cases hk : dataTypeForLogicalType t with
  | bool =>
    refine (readCompactedBool_sat encoded position).mono ?_
    rintro ⟨_,next⟩ ⟨⟨b,rfl⟩,hr⟩
    exact ⟨hasType_scalar hk rfl rfl,hr⟩
  | tinyInt | smallInt | float | double =>
    exact (readWord_sat encoded position _).bind fun r _ hr => ⟨hasType_scalar hk rfl rfl,hr⟩
  | int | bigInt | date | time =>
    exact (readVar_sat encoded position _).bind fun r _ hr => ⟨hasType_scalar hk rfl rfl,hr.1.le,hr.2⟩
  | string | char | bytes | binary =>
    exact (readLengthBytes_sat encoded position).bind fun r _ hr =>
      ⟨hasType_scalar hk rfl rfl,hr.2.1.le,hr.2.2⟩
  | timestamp | timestampLTZ =>
    refine (readCompactedTimestamp_sat encoded position).mono ?_
    rintro ⟨_,next⟩ ⟨⟨x,rfl⟩,hr⟩
    exact ⟨hasType_scalar hk rfl rfl,hr⟩
  | decimal =>
    refine (readCompactedDecimal_sat encoded position).mono ?_
    rintro ⟨_,next⟩ ⟨⟨x,rfl⟩,hr⟩
    exact ⟨hasType_scalar hk rfl rfl,hr⟩
  | array | map | row =>
    refine (readLengthBytes_sat encoded position).bind fun r _ hr => ?_
    exact (hn r.1).bind fun v _ hv => ⟨hv,hr.2.1.le,hr.2.2⟩
  | other name => exact sat_fail _ _
end Pieces

section Indexed
variable {denested : Bytes → Go Value} {t : LogicalType}

private theorem readIndexedVariableWith_sat (hn : ∀ bs, (denested bs).Sat (HasType t)) (encoded : Bytes)
    (position : Nat) (length : Int) :
    (readIndexedVariableWith denested t encoded position length).Sat (ReadTo t encoded position) := by
  refine (readFixed_sat encoded position length).bind fun r _ hr => ?_
  have hc : position ≤ r.2 ∧ r.2 ≤ encoded.length := ⟨by omega,hr.2.2⟩
  cases hk : dataTypeForLogicalType t with
  | string | char | bytes | binary | decimal =>
    exact ⟨hasType_scalar hk rfl rfl,hc⟩
  | array | map | row => exact (hn r.1).bind fun v _ hv => ⟨hv,hc⟩
  | _ => exact sat_fail _ _

private theorem readIndexedTimestamp_sat (hk : dataTypeForLogicalType t = .timestamp ∨ dataTypeForLogicalType t = .timestampLTZ)
    (encoded : Bytes) (position : Nat) : (readIndexedTimestamp encoded position t).Sat fun r =>
      (∃ x, r.1 = .time x) ∧ position ≤ r.2 ∧ r.2 ≤ encoded.length := by
  have hw : indexedLength t = 12 ∨ indexedLength t = 8 := by
    rcases hk with hk | hk <;> rw [indexedLength,hk] <;> dsimp only <;> split <;> simp
  refine (readFixed_sat encoded position (indexedLength t)).bind fun r _ hr => ?_
  dsimp only
  have hre : ∀ nanos : BitVec 32, (if 999999 < nanos.toInt then fail "invalid timestamp nanos"
      else do
        let millis ← readLittle 8 r.1 0
        return (.time (timestampTime (dataTypeForLogicalType t) (BitVec.ofNat 64 millis) nanos), r.2) :
      Go (Value × Nat)).Sat fun r => (∃ x, r.1 = .time x) ∧ position ≤ r.2 ∧ r.2 ≤ encoded.length := by
    intro nanos
    split
    · exact sat_fail _ _
    · exact (readLittle_sat (by omega)).bind fun _ _ _ => ⟨⟨_,rfl⟩,by dsimp only; omega,hr.2.2⟩
  split
  · exact (readLittle_sat (by omega)).bind fun nanos _ _ => hre _
  · rw [bind_ok]
    exact hre _

private theorem readIndexedFixedWith_sat (hn : ∀ bs, (denested bs).Sat (HasType t)) (encoded : Bytes)
    (position : Nat) : (readIndexedFixedWith denested t encoded position).Sat (ReadTo t encoded position) := by
  unfold readIndexedFixedWith
  cases hk : dataTypeForLogicalType t with
  | int | bigInt | date | time | decimal =>
    exact (readWord_sat encoded position _).bind fun r _ hr => ⟨hasType_scalar hk rfl rfl,hr⟩
  | timestamp | timestampLTZ =>
    refine (readIndexedTimestamp_sat (by simp [hk]) encoded position).mono ?_
    rintro ⟨_,next⟩ ⟨⟨x,rfl⟩,hr⟩
    exact ⟨hasType_scalar hk rfl rfl,hr⟩
  | char | binary =>
    exact (readFixed_sat encoded position _).bind fun r _ hr =>
      ⟨hasType_scalar hk rfl rfl,by dsimp only; omega,hr.2.2⟩
  | _ => exact readCompactedWith_sat hn encoded position
/-- Every column read returns a value of the column's type and keeps the cursor inside the row. -/
theorem decodeRowValueWith_sat (encoding : RowEncoding) (hn : ∀ bs, (denested bs).Sat (HasType t))
    (encoded : Bytes) (position : Nat) (length : Int) :
    (decodeRowValueWith encoding denested t encoded position length).Sat (ReadTo t encoded position) := by
  cases encoding with
  | compacted => exact readCompactedWith_sat hn encoded position
  | indexed =>
    rw [decodeRowValueWith,readIndexedWith]
    split
    · exact readIndexedFixedWith_sat hn encoded position
    · exact readIndexedVariableWith_sat hn encoded position length
end Indexed

section Containers
variable {denested : Bytes → Go Value} {t : LogicalType}

private theorem decodeElements_sat {base : Nat} {encoded : Bytes} (hn : ∀ bs, (denested bs).Sat (HasType t))
    (remaining : Nat) : ∀ i, (∀ k < i + remaining, 4 + k / 8 < encoded.length) →
      (decodeElements t (readArrayElementWith denested t) base encoded remaining i).Sat fun vs =>
        vs.length = remaining ∧ ∀ v ∈ vs, validLogicalValue t v = true := by
  induction remaining with
  | zero => intro i _; exact ⟨rfl,by simp⟩
  | succ n ih =>
    intro i hb
    have ih := ih (i + 1) fun k hk => hb k (by omega)
    rw [decodeElements,bitAt_ok (hb i (by omega)),bind_ok]
    split
    · split
      next hnu =>
        refine ih.bind fun vs _ hvs => ⟨by simp [hvs.1],?_⟩
        intro v hv
        rcases mem_cons.mp hv with rfl | hv
        · rw [validLogicalValue_eq]
          exact hnu
        · exact hvs.2 v hv
      · exact sat_fail _ _
    · refine (readArrayElementWith_sat hn encoded _).mapErr.bind fun v _ hv => ?_
      refine ih.bind fun vs _ hvs => ⟨by simp [hvs.1],?_⟩
      intro w hw
      rcases mem_cons.mp hw with rfl | hw
      · exact hv.2
      · exact hvs.2 w hw

private theorem decodeBinaryArrayWith_sat (hn : ∀ bs, (denested bs).Sat (HasType t)) (encoded : Bytes) :
    (decodeBinaryArrayWith t (readArrayElementWith denested t) encoded).Sat fun vs =>
      ∀ v ∈ vs, validLogicalValue t v = true := by
  rw [decodeBinaryArrayWith]
  split
  · exact sat_fail _ _
  rw [readLittle_ok (by omega),bind_ok]
  split
  · exact sat_fail _ _
  split
  · exact sat_fail _ _
  next hf =>
    refine (decodeElements_sat hn _ 0 fun k hk => ?_).mono fun vs hvs => hvs.2
    unfold arrayFixedBytes align8 arrayNullBytes at hf
    omega

private theorem decodeBinaryMapWith_sat {decodeKeys decodeValues : Bytes → Go (List Value)}
    {P Q : Value → Prop} (hk : ∀ bs, (decodeKeys bs).Sat fun vs => ∀ v ∈ vs, P v)
    (hv : ∀ bs, (decodeValues bs).Sat fun vs => ∀ v ∈ vs, Q v) (encoded : Bytes) :
    (decodeBinaryMapWith decodeKeys decodeValues encoded).Sat fun v =>
      ∃ entries, v = .map entries ∧ ∀ entry ∈ entries, P entry.1 ∧ Q entry.2 := by
  rw [decodeBinaryMapWith]
  split
  · exact sat_fail _ _
  rw [readLittle_ok (by omega),bind_ok]
  split
  · exact sat_fail _ _
  rename_i hlen
  rw [subslice_ok (by omega),bind_ok]
  refine (hk _).bind fun keys _ hke => ?_
  rw [subslice,if_pos ⟨by omega,Nat.le_refl _⟩,bind_ok]
  refine (hv _).bind fun values _ hva => ?_
  split
  · exact sat_fail _ _
  · refine ⟨_,rfl,fun entry he => ?_⟩
    have hmem := of_mem_zip he
    exact ⟨hke _ hmem.1,hva _ hmem.2⟩
end Containers

section Types
variable {t : LogicalType}

theorem root_of_kind {kind : DataType} (hk : dataTypeForLogicalType t = kind)
    (hn : nestedKind kind = true) : t.root = .named kind := by
  unfold dataTypeForLogicalType at hk
  cases hr : t.root with
  | integer | timestampWithoutTimeZone => rw [hr] at hk; subst hk; simp [dataTypeOfRoot,nestedKind] at hn
  | named d => rw [hr] at hk; rw [← hk]; rfl

theorem validate_array (h : t.validate = .ok ()) (hk : dataTypeForLogicalType t = .array) :
    ∃ e, t.element = some e ∧ e.validate = .ok () := by
  have hr := root_of_kind hk rfl
  obtain ⟨root,_,_,_,_,element,_,_,_⟩ := t
  subst hr
  cases element with
  | none => simp [validate] at h
  | some e => exact ⟨e,rfl,by simpa [validate] using h⟩

theorem validate_map (h : t.validate = .ok ()) (hk : dataTypeForLogicalType t = .map) :
    ∃ k w, t.key = some k ∧ t.value = some w ∧ k.validate = .ok () ∧ w.validate = .ok () := by
  have hr := root_of_kind hk rfl
  obtain ⟨root,_,_,_,_,_,key,value,_⟩ := t
  subst hr
  cases key with
  | none => simp [validate] at h
  | some k =>
    cases value with
    | none => simp [validate] at h
    | some w =>
      rw [validate,bind_unit_eq_ok] at h
      exact ⟨k,w,rfl,rfl,h.1,h.2⟩

theorem validateAll_mem {fields : List LogicalField} (h : LogicalField.validateAll fields = .ok ()) :
    ∀ f ∈ fields, f.type.validate = .ok () := by
  induction fields with
  | nil => simp
  | cons f fields ih =>
    obtain ⟨name,type,_,_⟩ := f
    rw [LogicalField.validateAll] at h
    have h := (of_guard h).2
    rw [bind_unit_eq_ok] at h
    intro g hg
    rcases mem_cons.mp hg with rfl | hg
    · exact h.1
    · exact ih h.2 g hg

theorem validate_row (h : t.validate = .ok ()) (hk : dataTypeForLogicalType t = .row) :
    ∀ f ∈ t.fields, f.type.validate = .ok () := by
  have hr := root_of_kind hk rfl
  obtain ⟨root,_,_,_,_,_,_,_,fields⟩ := t
  subst hr
  cases fields with
  | nil => simp
  | cons f fields =>
    apply validateAll_mem
    simpa [validate] using h
/-- The nested decoders of a type are safe on every input. -/
def NestedSafe (t : LogicalType) : Prop := ∀ encoding bs, (decodeNested encoding t bs).Sat (HasType t)

theorem nestedSafe_scalar (hk : nestedKind (dataTypeForLogicalType t) = false) : NestedSafe t := by
  intro encoding bs
  rw [decodeNested_eq]
  cases hd : dataTypeForLogicalType t <;> simp_all [nestedKind]

private theorem decodeBinaryArray_sat {element : Option LogicalType} {e : LogicalType} (he : element = some e)
    (hs : NestedSafe e) (encoding : RowEncoding) (bs : Bytes) :
    (decodeBinaryArray encoding element bs).Sat fun vs => ∀ v ∈ vs, validLogicalValue e v = true := by
  subst he
  exact decodeBinaryArrayWith_sat (hs encoding) bs

theorem dataTypeOfRoot_logicalRoot (d : DataType) : dataTypeOfRoot (logicalRoot d) = d := by
  cases d <;> rfl

theorem validateColumnValue_of_hasType {column : Column} {v : Value}
    (hc : nestedKind column.type = true → column.logicalType.isSome = true)
    (h : HasType (logicalTypeForColumn column) v) : validateColumnValue column v = .ok () := by
  rw [validateColumnValue_eq_ok,h.1]
  cases hl : column.logicalType with
  | some t =>
    have ht : logicalTypeForColumn column = t := by rw [logicalTypeForColumn,hl]
    simpa [ht] using h.2
  | none =>
    have hn : nestedKind column.type = false := by
      cases hk : nestedKind column.type with
      | false => rfl
      | true => simp [hl] at hc; rw [hk] at hc; simp at hc
    have hv := h.2
    rw [validLogicalValue_eq,h.1,logicalTypeForColumn,hl,dataTypeForLogicalType,dataTypeOfRoot_logicalRoot] at hv
    cases hd : column.type <;> simp_all [nestedKind]

section Columns
variable {encoding : RowEncoding} {encoded : Bytes} {nullBytes headerBytes : Nat}
/-- The column loop returns one accepted value per column and leaves the cursor inside the row. -/
theorem decodeColumns_sat {columns : List Column} (hs : ∀ column ∈ columns, NestedSafe (logicalTypeForColumn column) ∧
      (nestedKind column.type = true → column.logicalType.isSome = true)) :
    ∀ i position lp, headerBytes ≤ encoded.length → (∀ k < i + columns.length, k / 8 < encoded.length) →
      (encoding = .indexed → lp + 4 * variableColumns columns ≤ headerBytes) →
      (decodeColumns encoding encoded (decodersOf encoding columns) i position lp).Sat fun r =>
        List.Forall₂ (fun column v => validateColumnValue column v = .ok ()) columns r.1 := by
  induction columns with
  | nil => intro i position lp _ _ _; exact List.Forall₂.nil
  | cons column columns ih =>
    intro i position lp hh hb hle
    obtain ⟨hn,ht⟩ := hs column mem_cons_self
    have ih := ih fun c hc => hs c (mem_cons_of_mem _ hc)
    have hre : ∀ k < i + 1 + columns.length, k / 8 < encoded.length :=
      fun k hk => hb k (by simp; omega)
    simp only [variableColumns,countP_cons] at hle
    rw [decodersOf,map_cons,decodeColumns,bitAt_ok (by have := hb i (by simp); omega),bind_ok]
    have hlen : ∀ isNull, (indexedValueLength encoded lp (logicalTypeForColumn column) encoding isNull).Sat
        fun r => encoding = .indexed → r.2 + 4 * variableColumns columns ≤ headerBytes := by
      intro isNull
      unfold indexedValueLength
      split
      next hc =>
        have hl := hle hc.1
        simp only [hc.2.1,Bool.not_false,if_true] at hl
        rw [readLittle_ok (by omega)]
        intro _
        simp only [variableColumns]
        omega
      · intro he
        have hl := hle he
        simp only [variableColumns]
        omega
    refine (hlen _).bind fun r _ hr => ?_
    dsimp only
    split
    · split
      next hnu =>
        refine (ih (i + 1) position r.2 hh hre hr).bind fun r' _ hr' => List.Forall₂.cons ?_ hr'
        rw [validateColumnValue_eq_ok]
        exact hnu
      · exact sat_failf _ _ _
    · refine (decodeRowValueWith_sat encoding (hn encoding) encoded position r.1).mapErr.bind
        fun rv _ hrv => ?_
      exact (ih (i + 1) rv.2 r.2 hh hre hr).bind fun r' _ hr' =>
        List.Forall₂.cons (validateColumnValue_of_hasType ht hrv.1) hr'
end Columns

theorem decodeRow_sat {schema : Schema} (hs : ∀ column ∈ schema.columns, NestedSafe (logicalTypeForColumn column) ∧
      (nestedKind column.type = true → column.logicalType.isSome = true)) (encoding : RowEncoding) (encoded : Bytes) :
    (decodeRow schema encoded encoding).Sat fun row => schema.validateRow row [] = .ok () ∧
      decodeColumns encoding encoded (decodersOf encoding schema.columns) 0 (rowHeaderBytes schema encoding)
        (rowNullBytes schema) = .ok (row, encoded.length) := by
  have hh : rowNullBytes schema ≤ rowHeaderBytes schema encoding := by
    cases encoding <;> simp [rowHeaderBytes]
  rw [decodeRow,decodeRowWith,← map_prod_left_eq_zip]
  cases hv : schema.validate with
  | err e => exact sat_err _ _
  | panic p => exact absurd hv (schema.validate_refuses.1.ne_panic p)
  | ok u =>
    rw [bind_ok]
    split
    · exact sat_failf _ _ _
    have hc := @decodeColumns_sat encoding encoded (rowHeaderBytes schema encoding) _ hs 0 (rowHeaderBytes schema encoding)
      (rowNullBytes schema) (show rowHeaderBytes schema encoding ≤ encoded.length by omega)
      (fun k hk => by unfold rowNullBytes at hh; omega) (by rintro rfl; exact Nat.le_refl _)
    refine hc.bind fun r hr hrow => ?_
    dsimp only
    split
    · exact sat_failf _ _ _
    next hend =>
      have hend : r.2 = encoded.length := not_not.mp hend
      exact ⟨(schema.validateRow_eq_ok r.1).mpr ⟨(schema.validate_eq_ok).mp hv,hrow⟩,by rw [hr,← hend]⟩
end Types

section Main
variable {t : LogicalType}

theorem validateColumnValue_fieldColumn (f : LogicalField) (v : Value) :
    validateColumnValue (fieldColumn f) v = .ok () ↔ validLogicalValue f.type v = true := by
  rw [validateColumnValue_eq_ok]
  split
  next hnil =>
    rw [validLogicalValue_eq,if_pos hnil]
    rfl
  · rfl

theorem validLogicalRow_iff (fields : List LogicalField) (vs : List Value) : validLogicalRow fields vs = true ↔
      List.Forall₂ (fun column v => validateColumnValue column v = .ok ()) (fields.map fieldColumn) vs := by
  induction fields generalizing vs with
  | nil => cases vs <;> simp [validLogicalRow]
  | cons f fields ih =>
    cases vs with
    | nil => cases f; simp [validLogicalRow]
    | cons v vs =>
      have hv := validateColumnValue_fieldColumn f v
      cases f
      rw [validLogicalRow,Bool.and_eq_true,map_cons,List.forall₂_cons,ih,hv]

theorem hasType_array {e : LogicalType} {vs : List Value} (hk : dataTypeForLogicalType t = .array)
    (he : t.element = some e) (h : ∀ v ∈ vs, validLogicalValue e v = true) : HasType t (.array vs) := by
  refine ⟨rfl,?_⟩
  rw [validLogicalValue_eq,if_neg (by simp),hk,he]
  simpa [validLogicalElements] using h

theorem hasType_map {k w : LogicalType} {entries : List (Value × Value)} (hk : dataTypeForLogicalType t = .map)
    (hkey : t.key = some k) (hv : t.value = some w)
    (h : ∀ entry ∈ entries, validLogicalValue k entry.1 = true ∧ validLogicalValue w entry.2 = true) :
    HasType t (.map entries) := by
  refine ⟨rfl,?_⟩
  rw [validLogicalValue_eq,if_neg (by simp),hk,hkey,hv]
  simp only [mapEntries,validLogicalElements,all_map,Bool.and_eq_true,all_eq_true]
  exact ⟨fun entry he => (h entry he).1,fun entry he => (h entry he).2⟩

theorem hasType_row {vs : List Value} (hk : dataTypeForLogicalType t = .row)
    (h : validLogicalRow t.fields vs = true) : HasType t (.row vs) := by
  refine ⟨rfl,?_⟩
  rw [validLogicalValue_eq,if_neg (by simp),hk]
  exact h

theorem nestedSafe_of_validate (t : LogicalType) (h : t.validate = .ok ()) : NestedSafe t := by
  induction t using induction with
  | step t ih =>
    intro encoding bs
    cases hk : dataTypeForLogicalType t with
    | array =>
      obtain ⟨e,he,hva⟩ := validate_array h hk
      rw [decodeNested_eq,hk]
      exact (decodeBinaryArray_sat he (ih.element e he hva) encoding bs).bind fun vs _ hvs =>
        hasType_array hk he hvs
    | map =>
      obtain ⟨k,w,hkey,hv,hvk,hvw⟩ := validate_map h hk
      rw [decodeNested_eq,hk]
      refine (decodeBinaryMapWith_sat (decodeBinaryArray_sat hkey (ih.key k hkey hvk) encoding)
        (decodeBinaryArray_sat hv (ih.value w hv hvw) encoding) bs).mono ?_
      rintro _ ⟨entries,rfl,hen⟩
      exact hasType_map hk hkey hv hen
    | row =>
      rw [decodeNested_eq,hk]
      have hs : ∀ column ∈ (nestedSchema t).columns, NestedSafe (logicalTypeForColumn column) ∧
          (nestedKind column.type = true → column.logicalType.isSome = true) := by
        intro column hc
        obtain ⟨f,hf,rfl⟩ := mem_map.mp hc
        exact ⟨ih.fields f hf (validate_row h hk f hf),fun _ => rfl⟩
      refine (decodeRow_sat hs encoding bs).bind fun vs _ hvs => hasType_row hk ?_
      exact (validLogicalRow_iff _ _).mpr ((Schema.validateRow_eq_ok _ _).mp hvs.1).2
    | _ => exact nestedSafe_scalar (by rw [hk]; rfl) encoding bs
/-- The values of `row` were read from consecutive stretches of the buffer, from `position` to `last`;
nulls take no bytes. -/
inductive ReadFrom (encoding : RowEncoding) (encoded : Bytes) : List Column → Row → Nat → Nat → Prop where
  | done (position : Nat) : ReadFrom encoding encoded [] [] position position
  | null {column : Column} {columns : List Column} {row : Row} {position last : Nat}
      (rest : ReadFrom encoding encoded columns row position last) :
      ReadFrom encoding encoded (column :: columns) (.nil :: row) position last
  | value {column : Column} {columns : List Column} {v : Value} {row : Row} {position next last : Nat}
      (length : Int)
      (read : decodeRowValue encoding (logicalTypeForColumn column) encoded position length = .ok (v, next))
      (le : position ≤ next) (rest : ReadFrom encoding encoded columns row next last) :
      ReadFrom encoding encoded (column :: columns) (v :: row) position last

theorem readFrom_of_decodeColumns {encoding : RowEncoding} {encoded : Bytes} {columns : List Column}
    (hs : ∀ column ∈ columns, NestedSafe (logicalTypeForColumn column)) : ∀ {i position lp last : Nat} {row : Row},
      decodeColumns encoding encoded (decodersOf encoding columns) i position lp = .ok (row, last) →
      ReadFrom encoding encoded columns row position last := by
  induction columns with
  | nil =>
    intro i position lp last row h
    cases h
    exact .done _
  | cons column columns ih =>
    intro i position lp last row h
    have ih := @ih fun c hc => hs c (mem_cons_of_mem _ hc)
    obtain ⟨isNull,_,h⟩ := of_bind h
    obtain ⟨⟨length,lp'⟩,_,h⟩ := of_bind h
    dsimp only at h
    split at h
    · split at h
      · obtain ⟨⟨tail,last'⟩,ht,h⟩ := of_bind h
        cases h
        exact .null (ih ht)
      · simp at h
    · obtain ⟨⟨v,next⟩,hr,h⟩ := of_bind h
      rw [mapErr_eq_ok] at hr
      obtain ⟨⟨tail,last'⟩,ht,h⟩ := of_bind h
      cases h
      have hcu := (decodeRowValueWith_sat encoding (hs column mem_cons_self encoding) encoded position
        length).of_ok hr
      exact .value length hr hcu.2.1 (ih ht)
/-- On every input a decoder returns an error or a row that `ValidateRow` accepts, whose values were
read from consecutive stretches that end with the last byte. -/
theorem decodeRow_safe (schema : Schema) (encoding : RowEncoding) (encoded : Bytes)
    (hvalid : schema.validate = .ok ())
    (htyped : ∀ column ∈ schema.columns, column.type = .array ∨ column.type = .map ∨ column.type = .row →
      column.logicalType.isSome = true) :
    (∀ cause, decodeRow schema encoded encoding ≠ .panic cause) ∧
      ∀ row, decodeRow schema encoded encoding = .ok row →
        row.length = schema.columns.length ∧ schema.validateRow row [] = .ok () ∧
          ReadFrom encoding encoded schema.columns row (rowHeaderBytes schema encoding) encoded.length := by
  have hsafe : ∀ column ∈ schema.columns, NestedSafe (logicalTypeForColumn column) ∧
      (nestedKind column.type = true → column.logicalType.isSome = true) := by
    intro column hc
    have hn : nestedKind column.type = true → column.logicalType.isSome = true := by
      intro hk
      apply htyped column hc
      cases hd : column.type <;> simp_all [nestedKind]
    refine ⟨?_,hn⟩
    have hcolumn := (((schema.validate_eq_ok).mp hvalid).columns column hc).type
    unfold Column.validateType at hcolumn
    cases hl : column.logicalType with
    | some t =>
      rw [hl] at hcolumn
      rw [logicalTypeForColumn,hl]
      exact nestedSafe_of_validate t hcolumn
    | none =>
      apply nestedSafe_scalar
      rw [logicalTypeForColumn,hl,dataTypeForLogicalType,dataTypeOfRoot_logicalRoot]
      cases hk : nestedKind column.type with
      | false => rfl
      | true => simp [hl,hk] at hn
  have hsat := decodeRow_sat hsafe encoding encoded
  refine ⟨hsat.ne_panic,fun row hrow => ?_⟩
  obtain ⟨haccepted,hread⟩ := hsat.of_ok hrow
  exact ⟨((Schema.validateRow_eq_ok _ _).mp haccepted).2.length_eq.symm,haccepted,
    readFrom_of_decodeColumns (fun c hc => (hsafe c hc).1) hread⟩
end Main

theorem decodeRow_safe_sample :
    decodeRow sampleSchema sampleCompacted .compacted = .ok sampleRow ∧
      sampleSchema.validateRow sampleRow [] = .ok () ∧
      ReadFrom .compacted sampleCompacted sampleSchema.columns sampleRow 1 sampleCompacted.length := by
  have hdecode : decodeRow sampleSchema sampleCompacted .compacted = .ok sampleRow := by rfl
  have hsafe := (decodeRow_safe sampleSchema .compacted sampleCompacted (by decide) (by decide)).2 sampleRow hdecode
  exact ⟨hdecode,hsafe.2⟩
end FlussGo
