import FlussGo.Row.DecodeSafety
/-!
# Encoding accepted rows

Three kinds of values that `ValidateRow` accepts stop an encoder with a panic: a nil `*big.Rat`, a value of an
ARRAY or MAP column that has no logical type, and a value of a fixed-width indexed column that is wider than an
allocation. An encoder panics exactly when the first value that it does not encode is one of these.
-/
namespace FlussGo
open Outcome List Prod
/-- The first `n` elements of an array are written. -/
def encodedElements (encoding : RowEncoding) (t : LogicalType) (vs : List Value) (n : Nat) : Bool :=
  decide (vs.length ≤ maxRowBytes / 8 ∧ arrayFixedBytes t vs.length ≤ maxRowBytes) &&
    (encodeElements t (writeArrayElementWith (encodeNested encoding t) t) (4 + arrayNullBytes vs.length) (vs.take n) 0
      (spliced 4 (zeros (arrayFixedBytes t vs.length)) 0 vs.length)).isOk
/-- The first `n` columns of a row are written. -/
def encodedColumns (encoding : RowEncoding) (schema : Schema) (row : Row) (n : Nat) : Bool :=
  (encodeColumns encoding (encodersOf encoding (schema.columns.take n)) (row.take n) 0
    (zeros (rowHeaderBytes schema encoding)) (rowNullBytes schema)).isOk
/-- One of the values is a hazard, and those before it are encoded. -/
def reached (hazards : List Bool) (encoded : Nat → Bool) : Bool := hazards.zipIdx.any fun p => p.1 && encoded p.2

private theorem reached_iff {hazards : List Bool} {encoded : Nat → Bool} :
    reached hazards encoded = true ↔ ∃ n, hazards[n]? = some true ∧ encoded n = true := by
  simp [reached,mem_zipIdx_iff_getElem?]

private theorem reached_zipWith {α : Type} {f : α → Value → Bool} {as : List α} {vs : List Value} {encoded : Nat → Bool} :
    reached (zipWith f as vs) encoded = true ↔
      ∃ n p, (as.zip vs)[n]? = some p ∧ f p.1 p.2 = true ∧ encoded n = true := by
  simp only [reached_iff,getElem?_zipWith_eq_some,zip]
  grind

mutual
/-- The value makes an encoder panic, itself or at the first value in it that is not encoded. -/
def hazard (encoding : RowEncoding) (inRow : Bool) : LogicalType → Value → Bool
  | ⟨root,nullable,length,precision,scale,element,key,value,fields⟩, v =>
    match dataTypeOfRoot root with
    | .decimal =>
      match v with
      | .rat none => decide (1 ≤ precision ∧ 0 ≤ scale)
      | _ => false
    | .char =>
      match v with
      | .string s => padded encoding inRow root length && decide ((s.length : Int) ≤ length ∧ maxAlloc < length)
      | _ => false
    | .binary =>
      match v with
      | .bytes b => padded encoding inRow root length && decide ((b.length : Int) ≤ length ∧ maxAlloc < length)
      | _ => false
    | .array =>
      match v with
      | .array vs => hazardElements encoding element vs
      | _ => false
    | .map =>
      match mapEntries v with
      | some entries =>
        hazardElements encoding key (entries.map fst) ||
          (encodeBinaryArray encoding key (entries.map fst)).isOk &&
            hazardElements encoding value (entries.map snd)
      | none => false
    | .row =>
      match v with
      | .row vs =>
        let schema := nestedSchema ⟨root,nullable,length,precision,scale,element,key,value,fields⟩
        (schema.validateRow vs []).isOk &&
          reached (hazardFields encoding fields vs) (encodedColumns encoding schema vs)
      | _ => false
    | _ => false
/-- A missing element type is dereferenced even for an empty list. -/
def hazardElements (encoding : RowEncoding) : Option LogicalType → List Value → Bool
  | none, _ => true
  | some t, vs =>
    reached (vs.map fun v => validLogicalValue t v && hazard encoding false t v) (encodedElements encoding t vs)

def hazardFields (encoding : RowEncoding) : List LogicalField → List Value → List Bool
  | ⟨_,type,_,_⟩ :: fields, v :: vs => hazard encoding true type v :: hazardFields encoding fields vs
  | _, _ => []
end

def hazardRow (encoding : RowEncoding) (schema : Schema) (row : Row) : Bool :=
  (schema.validateRow row []).isOk &&
    reached (zipWith (fun column v => hazard encoding true (logicalTypeForColumn column) v) schema.columns row)
      (encodedColumns encoding schema row)
/-- The column of a key, as `encodeKeyColumns` finds it. -/
def keyColumn (schema : Schema) (name : String) : Column :=
  (schema.columnByName name).getD { name := "", type := .other "" }

def hazardKey (schema : Schema) (names : List String) (key : Row) : Bool :=
  (schema.validateRow key names).isOk &&
    reached (zipWith (fun name v => hazard .compacted true (logicalTypeForColumn (keyColumn schema name)) v) names key)
      fun n => (encodeKeyValues schema (names.take n) (key.take n) []).isOk

theorem hazard_eq (encoding : RowEncoding) (inRow : Bool) (t : LogicalType) (v : Value) : hazard encoding inRow t v =
      match dataTypeForLogicalType t with
      | .decimal =>
        match v with
        | .rat none => decide (1 ≤ t.precision ∧ 0 ≤ t.scale)
        | _ => false
      | .char =>
        match v with
        | .string s => padded encoding inRow t.root t.length &&
            decide ((s.length : Int) ≤ t.length ∧ maxAlloc < t.length)
        | _ => false
      | .binary =>
        match v with
        | .bytes b => padded encoding inRow t.root t.length &&
            decide ((b.length : Int) ≤ t.length ∧ maxAlloc < t.length)
        | _ => false
      | .array =>
        match v with
        | .array vs => hazardElements encoding t.element vs
        | _ => false
      | .map =>
        match mapEntries v with
        | some entries =>
          hazardElements encoding t.key (entries.map fst) ||
            (encodeBinaryArray encoding t.key (entries.map fst)).isOk &&
              hazardElements encoding t.value (entries.map snd)
        | none => false
      | .row =>
        match v with
        | .row vs => hazardRow encoding (nestedSchema t) vs
        | _ => false
      | _ => false := by
  have hfields : ∀ (fields : List LogicalField) (vs : List Value), hazardFields encoding fields vs =
      zipWith (fun column v => hazard encoding true (logicalTypeForColumn column) v) (fields.map fieldColumn) vs := by
    intro fields
    induction fields with
    | nil => intro vs; cases vs <;> rfl
    | cons f fields ih =>
      intro vs
      cases f
      cases vs with
      | nil => rfl
      | cons v vs =>
        rw [hazardFields,ih]
        rfl
  cases t
  unfold hazard
  simp only [hfields]
  rfl

theorem hazard_nil (encoding : RowEncoding) (inRow : Bool) (t : LogicalType) :
    hazard encoding inRow t .nil = false := by
  rw [hazard_eq]
  cases dataTypeForLogicalType t <;> rfl
section Scalars
variable {encoding : RowEncoding} {inRow : Bool} {t : LogicalType} {v : Value} {value encoded : Bytes}
  {slot start : Nat}

private theorem decimalUnscaled_panics (r : Option Rat) (t : LogicalType) :
    (decimalUnscaled r t).Panics ↔ r = none ∧ 1 ≤ t.precision ∧ 0 ≤ t.scale := by
  unfold decimalUnscaled
  split
  · exact iff_of_false (sat_failf _ _ fun _ => True).not_panics (by omega)
  cases r with
  | none => exact iff_of_true ⟨_,rfl⟩ ⟨rfl,by omega,by omega⟩
  | some r =>
    refine iff_of_false ?_ (by simp)
    dsimp only
    split
    · exact (sat_fail _ fun _ => True).not_panics
    · split
      · exact (sat_fail _ fun _ => True).not_panics
      · simp [Panics]

theorem appendLengthBytes_sat (dst value : Bytes) : (appendLengthBytes dst value).Safe := by
  unfold appendLengthBytes
  split
  · exact sat_fail _ _
  · trivial

theorem putLittle_sat {width n : Nat} (hs : slot + width ≤ start)
    (hl : start ≤ encoded.length) : (putLittle width encoded slot n : Go Bytes).Sat fun e => start ≤ e.length := by
  rw [putLittle_ok (by omega)]
  simpa [spliced_length n (show slot + width ≤ encoded.length by omega)] using hl

theorem appendArrayVariable_sat {reserved : Nat} (hs : slot + 8 ≤ start) (hl : start ≤ encoded.length) :
    (appendArrayVariable encoded slot value reserved).Sat fun e => start ≤ e.length := by
  unfold appendArrayVariable
  split
  · exact sat_fail _ _
  · exact putLittle_sat hs (by rw [length_append]; omega)

theorem appendPackedArrayBytes_sat (hs : slot + 8 ≤ start) (hl : start ≤ encoded.length) :
    (appendPackedArrayBytes encoded slot value).Sat fun e => start ≤ e.length := by
  unfold appendPackedArrayBytes
  split
  · exact putLittle_sat hs hl
  · exact appendArrayVariable_sat hs hl
end Scalars
/-- The dynamic type that each data type asserts. -/
def Shape (kind : DataType) (v : Value) : Prop :=
  match kind with
  | .bool => ∃ b, v = .bool b
  | .tinyInt => ∃ x, v = .int8 x
  | .smallInt => ∃ x, v = .int16 x
  | .int => ∃ x, v = .int32 x
  | .bigInt => ∃ x, v = .int64 x
  | .float => ∃ x, v = .float32 x
  | .double => ∃ x, v = .float64 x
  | .string | .char => ∃ s, v = .string s
  | .bytes | .binary => ∃ b, v = .bytes b
  | .decimal => ∃ r, v = .rat r
  | .date | .time | .timestamp | .timestampLTZ => ∃ x, v = .time x
  | .array => ∃ vs, v = .array vs
  | .map => ∃ entries, mapEntries v = some entries
  | .row => ∃ vs, v = .row vs
  | .other _ => False

theorem shape_of_untyped {kind : DataType} {v : Value} (h : validUntypedValue kind v = true) : Shape kind v := by
  cases kind <;> cases v <;> first | exact ⟨_,rfl⟩ | simp [validUntypedValue,mapEntries] at h

theorem shape_of_hasType {t : LogicalType} {v : Value} (h : HasType t v) : Shape (dataTypeForLogicalType t) v := by
  have hv := h.2
  rw [validLogicalValue_eq,h.1,if_neg (by decide)] at hv
  cases hk : dataTypeForLogicalType t with
  | array | row =>
    rw [hk] at hv
    cases v <;> first | exact ⟨_,rfl⟩ | simp at hv
  | map =>
    rw [hk] at hv
    cases hm : mapEntries v with
    | none => simp [hm] at hv
    | some entries => exact ⟨entries,hm⟩
  | _ =>
    rw [hk] at hv
    exact shape_of_untyped hv

section Values
variable {encoding : RowEncoding} {inRow : Bool} {t : LogicalType} {v : Value} {nested : Value → Go Bytes}

private theorem decimalUnscaled_exact (hk : dataTypeForLogicalType t = .decimal) (r : Option Rat) :
    (decimalUnscaled r t).Exact (hazard encoding inRow t (.rat r) = true) fun _ => True := by
  refine ⟨?_,fun _ _ => trivial⟩
  rw [hazard_eq,hk,decimalUnscaled_panics]
  cases r <;> simp

theorem writeArrayElementWith_exact (hsh : Shape (dataTypeForLogicalType t) v)
    (hn : nestedKind (dataTypeForLogicalType t) = true → (nested v).Exact (hazard encoding false t v = true) fun _ => True)
    {encoded : Bytes} {slot start : Nat} (hs : slot + arraySlotSize t ≤ start) (hl : start ≤ encoded.length) :
    (writeArrayElementWith nested t v encoded slot).Exact (hazard encoding false t v = true) fun e => start ≤ e.length := by
  unfold writeArrayElementWith
  unfold arraySlotSize at hs
  cases hk : dataTypeForLogicalType t with
  | array | map | row =>
    simp only [hk] at hs hn ⊢
    exact (hn rfl).bind fun payload _ => appendArrayVariable_sat hs hl
  | decimal =>
    simp only [hk] at hs hsh ⊢
    obtain ⟨r,rfl⟩ := hsh
    refine (decimalUnscaled_exact hk r).bind fun unscaled _ => ?_
    split
    · exact putLittle_sat hs hl
    · exact appendArrayVariable_sat hs hl
  | bool =>
    simp only [hk] at hs hsh ⊢
    obtain ⟨b,rfl⟩ := hsh
    refine Sat.exact ?_ (by simp [hazard_eq,hk])
    cases b with
    | true => exact putLittle_sat hs hl
    | false => exact hl
  | tinyInt | smallInt | int | float | bigInt | double | date | time =>
    simp only [hk] at hs hsh ⊢
    obtain ⟨x,rfl⟩ := hsh
    exact (putLittle_sat hs hl).exact (by simp [hazard_eq,hk])
  | timestamp | timestampLTZ =>
    simp only [hk] at hs hsh ⊢
    obtain ⟨x,rfl⟩ := hsh
    refine Sat.exact (x := writeArrayTimestamp t x encoded slot) ?_ (by simp [hazard_eq,hk])
    unfold writeArrayTimestamp
    dsimp only
    split
    · exact putLittle_sat hs hl
    · exact putLittle_sat hs (by rw [appendLittle,length_append]; omega)
  | string | char | bytes | binary =>
    simp only [hk] at hs hsh ⊢
    obtain ⟨x,rfl⟩ := hsh
    exact (appendPackedArrayBytes_sat hs hl).exact (by simp [hazard_eq,hk,padded])
  | other name => simp [hk,Shape] at hsh

theorem appendCompactedWith_exact (hs : Shape (dataTypeForLogicalType t) v)
    (hn : nestedKind (dataTypeForLogicalType t) = true → (nested v).Exact (hazard .compacted inRow t v = true) fun _ => True)
    (dst : Bytes) : (appendCompactedWith nested dst t v).Exact (hazard .compacted inRow t v = true) fun _ => True := by
  unfold appendCompactedWith
  cases hk : dataTypeForLogicalType t with
  | array | map | row =>
    simp only [hk] at hn ⊢
    exact (hn rfl).bind fun payload _ => appendLengthBytes_sat _ _
  | decimal =>
    simp only [hk] at hs ⊢
    obtain ⟨r,rfl⟩ := hs
    refine (decimalUnscaled_exact hk r).bind fun unscaled _ => ?_
    split
    · trivial
    · exact appendLengthBytes_sat _ _
  | string | char | bytes | binary =>
    simp only [hk] at hs ⊢
    obtain ⟨x,rfl⟩ := hs
    exact (appendLengthBytes_sat _ _).exact (by simp [hazard_eq,hk,padded])
  | other name => simp [hk,Shape] at hs
  | _ =>
    simp only [hk] at hs ⊢
    obtain ⟨x,rfl⟩ := hs
    exact Sat.exact trivial (by simp [hazard_eq,hk])

private theorem appendIndexedBytes_exact (hk : dataTypeForLogicalType t = .char ∨ dataTypeForLogicalType t = .binary)
    (b dst : Bytes) : (appendIndexedBytes dst t b).Exact
      ((padded .indexed true t.root t.length && decide ((b.length : Int) ≤ t.length ∧ maxAlloc < t.length)) = true)
      fun _ => True := by
  have hpos : (0 : Int) < maxAlloc := by decide
  rw [padded_indexed hk,Bool.and_eq_true,decide_eq_true_eq,decide_eq_true_eq]
  unfold appendIndexedBytes appendFixed
  split
  · exact Sat.exact trivial (by omega)
  split
  · exact (sat_fail _ _).exact (by omega)
  · split
    · exact ⟨iff_of_true ⟨_,rfl⟩ (by omega),fun _ _ => trivial⟩
    · exact Sat.exact trivial (by omega)

theorem appendIndexedWith_exact (hs : Shape (dataTypeForLogicalType t) v)
    (hn : nestedKind (dataTypeForLogicalType t) = true → (nested v).Exact (hazard .indexed true t v = true) fun _ => True)
    (dst : Bytes) : (appendIndexedWith nested dst t v).Exact (hazard .indexed true t v = true) fun _ => True := by
  unfold appendIndexedWith
  cases hk : dataTypeForLogicalType t with
  | array | map | row =>
    simp only [hk] at hn ⊢
    exact (hn rfl).bind fun payload _ => trivial
  | decimal =>
    simp only [hk] at hs ⊢
    obtain ⟨r,rfl⟩ := hs
    refine (decimalUnscaled_exact hk r).bind fun unscaled _ => ?_
    split <;> trivial
  | char | binary =>
    simp only [hk] at hs ⊢
    obtain ⟨x,rfl⟩ := hs
    rw [hazard_eq,hk]
    exact appendIndexedBytes_exact (by simp [hk]) x dst
  | int | bigInt | date | time | timestamp | timestampLTZ | string | bytes =>
    simp only [hk] at hs ⊢
    obtain ⟨x,rfl⟩ := hs
    exact Sat.exact trivial (by simp [hazard_eq,hk])
  | other name => simp [hk,Shape] at hs
  | bool | tinyInt | smallInt | float | double =>
    simp only [appendCompactedWith,hk] at hs ⊢
    obtain ⟨x,rfl⟩ := hs
    exact Sat.exact trivial (by simp [hazard_eq,hk])

theorem encodeRowValueWith_exact (hs : Shape (dataTypeForLogicalType t) v)
    (hn : nestedKind (dataTypeForLogicalType t) = true → (nested v).Exact (hazard encoding true t v = true) fun _ => True) :
    (encodeRowValueWith encoding nested t v).Exact (hazard encoding true t v = true) fun _ => True := by
  cases encoding with
  | compacted => exact appendCompactedWith_exact hs hn []
  | indexed => exact appendIndexedWith_exact hs hn []
end Values

section Containers
variable {encoding : RowEncoding}
/-- The encoders of nested values of the type panic on the hazards alone. -/
def EncodesExactly (t : LogicalType) : Prop := ∀ encoding inRow v, HasType t v →
  nestedKind (dataTypeForLogicalType t) = true →
    (encodeNested encoding t v).Exact (hazard encoding inRow t v = true) fun _ => True
/-- The room that the elements from the `i`-th on need in an array whose fixed part has `start` bytes. -/
def ElementRoom (t : LogicalType) (base start : Nat) (vs : List Value) (s : Nat × Bytes) : Prop :=
  base + arraySlotSize t * (s.1 + vs.length) ≤ start ∧ (∀ k < s.1 + vs.length, 4 + k / 8 < start) ∧ start ≤ s.2.length

theorem elementRoom_initial (t : LogicalType) (vs : List Value) :
    0 + 4 ≤ (zeros (arrayFixedBytes t vs.length)).length ∧
      ElementRoom t (4 + arrayNullBytes vs.length) (arrayFixedBytes t vs.length) vs
        (0, spliced 4 (zeros (arrayFixedBytes t vs.length)) 0 vs.length) := by
  have hfixed : 4 + arrayNullBytes vs.length + arraySlotSize t * vs.length ≤ arrayFixedBytes t vs.length := by
    unfold arrayFixedBytes align8
    omega
  have h4 : 0 + 4 ≤ (zeros (arrayFixedBytes t vs.length)).length := by
    rw [zeros_length]
    omega
  refine ⟨h4,by simpa using hfixed,fun k hk => ?_,by rw [spliced_length _ h4,zeros_length]⟩
  unfold arrayNullBytes at hfixed
  simp only at hk
  omega

private theorem encodeElements_iterates {t : LogicalType} (hex : EncodesExactly t) (base start : Nat) :
    Iterates (fun vs (s : Nat × Bytes) =>
        encodeElements t (writeArrayElementWith (encodeNested encoding t) t) base vs s.1 s.2)
      (ElementRoom t base start) fun v => (validLogicalValue t v && hazard encoding false t v) = true where
  nil _ := rfl
  step {v vs s} hroom := by
    obtain ⟨i,encoded⟩ := s
    obtain ⟨hs,hb,hl⟩ := hroom
    have hsu : i + (v :: vs).length = i + 1 + vs.length := by simp; omega
    simp only [hsu] at hs hb hl
    simp only [encodeElements]
    split
    next hnil =>
      have hgood : ¬(validLogicalValue t v && hazard encoding false t v) = true := by
        simp [(Value.isNil_iff v).mp hnil,hazard_nil]
      split
      · have hbit := hb i (by omega)
        refine ⟨.ok (i + 1, withBit 4 i encoded),Sat.exact ⟨hs,hb,by simpa using hl⟩ hgood,fun ys => ?_⟩
        rw [setBit_ok (by omega),bind_ok,bind_ok]
      · exact ⟨fail _,(sat_fail _ _).exact hgood,fun _ => rfl⟩
    next hnil =>
      split
      next hva =>
        have ht : HasType t v := ⟨Bool.eq_false_iff.mpr hnil,hva⟩
        have hsl : base + arraySlotSize t * i + arraySlotSize t ≤ start := by
          have := Nat.mul_le_mul_left (arraySlotSize t) (show i + 1 ≤ i + 1 + vs.length by omega)
          rw [Nat.mul_add,Nat.mul_one] at this
          omega
        have hw := writeArrayElementWith_exact (shape_of_hasType ht) (hex encoding false v ht) hsl hl
        refine ⟨(writeArrayElementWith (encodeNested encoding t) t v encoded (base + arraySlotSize t * i)).mapErr
            (GoError.wrap s!"array element {i}: ") >>= fun encoded =>
          if maxRowBytes < encoded.length then fail "array exceeds allocation limit" else .ok (i + 1, encoded),
          ?_,fun ys => ?_⟩
        · rw [hva,Bool.true_and]
          refine hw.mapErr.bind fun encoded' hl' => ?_
          split
          · exact sat_fail _ _
          · exact ⟨hs,hb,hl'⟩
        · rw [bind_assoc]
          congr 1
          funext encoded'
          split <;> rfl
      next hva => exact ⟨fail _,(sat_fail _ _).exact (by simp [hva]),fun _ => rfl⟩

variable (encoding) in
private theorem encodeBinaryArray_panics {element : Option LogicalType} (hex : ∀ e ∈ element, EncodesExactly e)
    (vs : List Value) : (encodeBinaryArray encoding element vs).Panics ↔ hazardElements encoding element vs = true := by
  cases element with
  | none => exact ⟨fun _ => rfl,fun _ => ⟨_,rfl⟩⟩
  | some t =>
    rw [encodeBinaryArray,encodeBinaryArrayWith,hazardElements,reached_iff]
    split
    next hc =>
      refine iff_of_false (sat_fail _ fun _ => True).not_panics ?_
      simp [encodedElements,show ¬vs.length ≤ maxRowBytes / 8 by omega]
    rename_i hc
    split
    next hf =>
      refine iff_of_false (sat_fail _ fun _ => True).not_panics ?_
      simp [encodedElements,show ¬arrayFixedBytes t vs.length ≤ maxRowBytes by omega]
    next hf =>
      obtain ⟨h4,hroom⟩ := elementRoom_initial t vs
      rw [putLittle_ok h4,bind_ok,(encodeElements_iterates (hex t rfl) _ _).panics_iff hroom]
      have hle : vs.length ≤ maxRowBytes / 8 ∧ arrayFixedBytes t vs.length ≤ maxRowBytes := by omega
      simp only [encodedElements,decide_eq_true hle,Bool.true_and,getElem?_map,Option.map_eq_some_iff]
      grind

variable (encoding) in
private theorem columnValue_exact {column : Column} {v : Value}
    (hex : ∀ t ∈ column.logicalType, EncodesExactly t) (hv : validateColumnValue column v = .ok ())
    (hnil : v.isNil = false) : Shape (dataTypeForLogicalType (logicalTypeForColumn column)) v ∧
      (nestedKind (dataTypeForLogicalType (logicalTypeForColumn column)) = true →
        (encodeNested encoding (logicalTypeForColumn column) v).Exact
          (hazard encoding true (logicalTypeForColumn column) v = true) fun _ => True) := by
  rw [validateColumnValue_eq_ok,hnil,if_neg (by decide)] at hv
  cases hl : column.logicalType with
  | some t =>
    rw [hl] at hv
    have ht : logicalTypeForColumn column = t := by rw [logicalTypeForColumn,hl]
    rw [ht]
    have htype : HasType t v := ⟨hnil,hv⟩
    exact ⟨shape_of_hasType htype,hex t hl encoding true v htype⟩
  | none =>
    rw [hl] at hv
    have ht : logicalTypeForColumn column = { root := logicalRoot column.type, nullable := column.nullable } := by
      rw [logicalTypeForColumn,hl]
    have hkind : dataTypeForLogicalType (logicalTypeForColumn column) = column.type := by
      rw [ht]
      exact dataTypeOfRoot_logicalRoot _
    have hshape := shape_of_untyped hv
    refine ⟨by rwa [hkind],fun hn => ⟨?_,fun _ _ => trivial⟩⟩
    rw [hazard_eq,encodeNested_eq,hkind]
    cases hd : column.type with
    | array =>
      rw [hd] at hshape
      obtain ⟨vs,rfl⟩ := hshape
      simp [ht,hazardElements,Value.asArray,encodeBinaryArray,Panics]
    | map =>
      rw [hd] at hshape
      obtain ⟨entries,he⟩ := hshape
      simp [ht,he,hazardElements,encodeBinaryMapWith,encodeBinaryArray,Panics]
    | row =>
      rw [hd] at hshape
      obtain ⟨vs,rfl⟩ := hshape
      rw [ht]
      exact ⟨fun hp => absurd hp (sat_err _ fun _ => True).not_panics,fun hz => Bool.noConfusion hz⟩
    | _ => rw [hkind,hd] at hn; simp [nestedKind] at hn
/-- The columns from the `i`-th on hold checked values and have their room in the header. -/
def ColumnRoom (encoding : RowEncoding) (nullBytes headerBytes : Nat) (ps : List (Column × Value))
    (s : Nat × Bytes × Nat) : Prop :=
  (∀ p ∈ ps, validateColumnValue p.1 p.2 = .ok () ∧ ∀ t ∈ p.1.logicalType, EncodesExactly t) ∧
    RowState encoding nullBytes headerBytes (ps.map fst) s.1 s.2.1 s.2.2

private theorem encodeColumns_iterates (nullBytes headerBytes : Nat) :
    Iterates (fun (ps : List (Column × Value)) (s : Nat × Bytes × Nat) =>
        encodeColumns encoding (encodersOf encoding (ps.map fst)) (ps.map snd) s.1 s.2.1 s.2.2)
      (ColumnRoom encoding nullBytes headerBytes)
      fun p => hazard encoding true (logicalTypeForColumn p.1) p.2 = true where
  nil _ := rfl
  step {p ps s} hroom := by
    obtain ⟨column,v⟩ := p
    obtain ⟨i,encoded,lp⟩ := s
    obtain ⟨hps,hs⟩ := hroom
    obtain ⟨hv,hex⟩ := hps _ mem_cons_self
    have hps' := fun p hp => hps p (mem_cons_of_mem _ hp)
    simp only [encodersOf,map_cons,encodeColumns]
    split
    next hnil =>
      refine ⟨.ok (i + 1, withBit 0 i encoded, lp),Sat.exact ⟨hps',hs.withBit.1⟩ ?_,fun ys => ?_⟩
      · simp [(Value.isNil_iff v).mp hnil,hazard_nil]
      · rw [hs.setBit,bind_ok,bind_ok]
    next hnil =>
      obtain ⟨hsh,hn⟩ := columnValue_exact encoding hex hv (Bool.eq_false_iff.mpr hnil)
      refine ⟨(encodeRowValue encoding (logicalTypeForColumn column) v).mapErr
            (GoError.wrap s!"fgo: column {column.name.quote}: ") >>= fun value =>
          putIndexedLength encoding (logicalTypeForColumn column) encoded lp value.length >>= fun r =>
          if maxRowBytes < value.length + r.1.length then failf .malformedRow s!"row exceeds {maxRowBytes} bytes"
          else .ok (i + 1, r.1 ++ value, r.2),
        (encodeRowValueWith_exact hsh hn).mapErr.bind fun value _ => ?_,fun ys => ?_⟩
      · obtain ⟨e,l,hput,-,hs'⟩ := putIndexedLength_ok hs value.length
        rw [hput,bind_ok]
        split
        · exact sat_failf _ _ _
        · exact ⟨hps',hs' value⟩
      · rw [bind_assoc]
        congr 1
        funext value
        rw [bind_assoc]
        congr 1
        funext r
        split <;> rfl

variable (encoding) in
private theorem columnRoom_of_validated {schema : Schema} {row : Row} (hok : schema.validateRow row [] = .ok ())
    (hex : ∀ column ∈ schema.columns, ∀ t ∈ column.logicalType, EncodesExactly t) :
    ColumnRoom encoding (rowNullBytes schema) (rowHeaderBytes schema encoding) (schema.columns.zip row)
      (0, zeros (rowHeaderBytes schema encoding), rowNullBytes schema) := by
  have hrow := ((schema.validateRow_eq_ok row).mp hok).2
  refine ⟨fun p hp => ⟨(forall₂_iff_zip.mp hrow).2 hp,hex p.1 (of_mem_zip hp).1⟩,?_⟩
  rw [map_fst_zip hrow.length_eq.le]
  exact rowState_initial encoding schema

theorem encodeRow_panics {schema : Schema} (row : Row)
    (hex : ∀ column ∈ schema.columns, ∀ t ∈ column.logicalType, EncodesExactly t) :
    (encodeRow schema row encoding).Panics ↔ hazardRow encoding schema row = true := by
  rw [encodeRow,encodeRowWith,← map_prod_left_eq_zip,hazardRow]
  cases hok : schema.validateRow row [] with
  | ok _ =>
    have hle := ((schema.validateRow_eq_ok row).mp hok).2.length_eq
    have hpa := (encodeColumns_iterates _ _).panics_iff (columnRoom_of_validated encoding hok hex)
    simp only [map_fst_zip hle.le,map_snd_zip hle.ge,map_take] at hpa
    rw [bind_ok,isOk,Bool.true_and,reached_zipWith]
    exact hpa
  | err e => simp [isOk,Panics]
  | panic p => exact absurd hok ((schema.validateRow_sat row []).ne_panic p)

theorem encodesExactly (t : LogicalType) : EncodesExactly t := by
  induction t using LogicalType.induction with
  | step t ih =>
    intro encoding inRow v htype hnested
    refine ⟨?_,fun _ _ => trivial⟩
    have hshape := shape_of_hasType htype
    rw [hazard_eq,encodeNested_eq]
    cases hk : dataTypeForLogicalType t with
    | array =>
      simp only [hk] at hshape ⊢
      obtain ⟨vs,rfl⟩ := hshape
      exact encodeBinaryArray_panics encoding ih.element vs
    | map =>
      simp only [hk] at hshape ⊢
      obtain ⟨entries,he⟩ := hshape
      have hkeys := encodeBinaryArray_panics encoding ih.key (entries.map fst)
      have hvalues := encodeBinaryArray_panics encoding ih.value (entries.map snd)
      simp only [he,encodeBinaryMapWith,Bool.or_eq_true,Bool.and_eq_true,← hkeys,← hvalues]
      cases encodeBinaryArray encoding t.key (entries.map fst) with
      | ok keyBytes => cases encodeBinaryArray encoding t.value (entries.map snd) <;> simp [Panics,isOk]
      | err e => simp [Panics,isOk]
      | panic p => simp [Panics]
    | row =>
      simp only [hk] at hshape ⊢
      obtain ⟨vs,rfl⟩ := hshape
      refine encodeRow_panics vs ?_
      intro column hc s hs
      obtain ⟨f,hf,rfl⟩ := mem_map.mp hc
      obtain rfl : f.type = s := Option.some.inj hs
      exact ih.fields f hf
    | _ => simp [hk,nestedKind] at hnested
/-- The values of an encoded row are no hazards. -/
theorem not_hazard_of_encodeRow {schema : Schema} {row : Row} {b : Bytes} (h : encodeRow schema row encoding = .ok b) :
    ∀ p ∈ schema.columns.zip row, hazard encoding true (logicalTypeForColumn p.1) p.2 = false := by
  rw [encodeRow,encodeRowWith,← map_prod_left_eq_zip] at h
  obtain ⟨hok,h⟩ := of_seq h
  have hle := ((schema.validateRow_eq_ok row).mp hok).2.length_eq
  have hnot := (encodeColumns_iterates _ _).not_bad (b := b)
    (columnRoom_of_validated encoding hok fun _ _ t _ => encodesExactly t)
  simp only [map_fst_zip hle.le,map_snd_zip hle.ge] at hnot
  exact fun p hp => Bool.eq_false_iff.mpr (hnot h p hp)
end Containers

section PrimaryKey
variable {schema : Schema} {names : List String} {values : Row}

theorem validateValues_cons {name : String} {v : Value}
    (h : schema.validateValues (name :: names) (v :: values) = .ok ()) :
    ∃ column, schema.columnByName name = some column ∧ validateColumnValue column v = .ok () ∧
      schema.validateValues names values = .ok () := by
  rw [Schema.validateValues] at h
  cases hc : schema.columnByName name with
  | none => simp [hc] at h
  | some column =>
    rw [hc] at h
    obtain ⟨hv,hr⟩ := of_seq h
    exact ⟨column,rfl,hv,hr⟩

theorem validateValues_of_validateRow (h : schema.validateRow values names = .ok ()) :
    (schema.selectedColumns names).length = values.length ∧
      schema.validateValues (schema.selectedColumns names) values = .ok () := by
  rw [Schema.validateRow,bind_unit_eq_ok] at h
  have h := h.2
  dsimp only at h
  split at h
  · simp at h
  · exact ⟨by omega,h⟩

private theorem validateValues_zip (h : schema.validateValues names values = .ok ()) : ∀ p ∈ names.zip values,
    ∃ column, schema.columnByName p.1 = some column ∧ validateColumnValue column p.2 = .ok () := by
  induction names generalizing values with
  | nil => simp
  | cons name names ih =>
    cases values with
    | nil => simp
    | cons v values =>
      obtain ⟨column,hc,hv,hr⟩ := validateValues_cons h
      exact forall_mem_cons.mpr ⟨⟨column,hc,hv⟩,ih hr⟩

private theorem encodeKeyValues_iterates :
    Iterates (fun (ps : List (String × Value)) => encodeKeyValues schema (ps.map fst) (ps.map snd))
      (fun ps _ => ∀ p ∈ ps, ∃ column, schema.columnByName p.1 = some column ∧ validateColumnValue column p.2 = .ok ())
      fun p => hazard .compacted true (logicalTypeForColumn (keyColumn schema p.1)) p.2 = true where
  nil _ := rfl
  step {p ps encoded} hroom := by
    obtain ⟨column,hc,hv⟩ := hroom p mem_cons_self
    rw [keyColumn,hc,Option.getD_some]
    simp only [map_cons,encodeKeyValues,hc,Option.getD_some]
    split
    next hnil => exact ⟨failf _ _,(sat_failf _ _ _).exact (by simp [(Value.isNil_iff _).mp hnil,hazard_nil]),fun _ => rfl⟩
    rename_i hnil
    obtain ⟨hsh,hn⟩ := columnValue_exact _ (fun t _ => encodesExactly t) hv (Bool.eq_false_iff.mpr hnil)
    refine ⟨(appendCompactedValue encoded (logicalTypeForColumn column) p.2).mapErr
      (GoError.wrap s!"fgo: key column {p.1.quote}: "),?_,fun _ => rfl⟩
    obtain ⟨hp,-⟩ := (appendCompactedWith_exact hsh hn encoded).mapErr
    exact ⟨hp,fun _ _ p hp => hroom p (mem_cons_of_mem _ hp)⟩

private theorem encodeKeyValues_panics (hok : schema.validateRow values names = .ok ()) :
    (encodeKeyValues schema names values []).Panics ↔ ∃ n p, (names.zip values)[n]? = some p ∧
      hazard .compacted true (logicalTypeForColumn (keyColumn schema p.1)) p.2 = true ∧
        (encodeKeyValues schema (names.take n) (values.take n) []).isOk = true := by
  obtain ⟨hlen,hv⟩ := validateValues_of_validateRow hok
  cases names with
  -- Without key columns the row is validated against all columns and nothing is written.
  | nil => simp [encodeKeyValues,Panics]
  | cons name names =>
    have hpa := encodeKeyValues_iterates.panics_iff (s := []) (validateValues_zip hv)
    simp only [map_fst_zip hlen.le,map_snd_zip hlen.ge,map_take] at hpa
    exact hpa

theorem encodeKeyColumns_panics (schema : Schema) (names : List String) (values : Row) :
    (encodeKeyColumns schema names values).Panics ↔ hazardKey schema names values = true := by
  rw [encodeKeyColumns,hazardKey]
  cases hok : schema.validateRow values names with
  | ok _ =>
    rw [bind_ok,isOk,Bool.true_and,reached_zipWith,← encodeKeyValues_panics hok]
    cases encodeKeyValues schema names values [] with
    | ok encoded =>
      rw [bind_ok]
      split <;> simp [Panics,failf]
    | err e => simp [Panics]
    | panic p => exact iff_of_true ⟨p,rfl⟩ ⟨p,rfl⟩
  | err e => simp [isOk,Panics]
  | panic p => exact absurd hok ((schema.validateRow_sat values names).ne_panic p)

theorem encodeKeyColumns_sat
    (hz : ∀ p ∈ names.zip values, hazard .compacted true (logicalTypeForColumn (keyColumn schema p.1)) p.2 = false) :
    (encodeKeyColumns schema names values).Safe := by
  rw [safe_iff,encodeKeyColumns_panics,hazardKey,Bool.and_eq_true,reached_zipWith]
  rintro ⟨_,n,p,hp,hbad,_⟩
  simp [hz p (mem_of_getElem? hp)] at hbad
end PrimaryKey
/-- An encoder panics exactly on the rows and keys that `ValidateRow` accepts and whose first value that is not
encoded is a hazard. -/
theorem encoders_panic_at_hazards (schema : Schema) (row key : Row) :
    ((∃ p, encodeCompactedRow schema row = .panic p) ↔ hazardRow .compacted schema row = true) ∧
    ((∃ p, encodeIndexedRow schema row = .panic p) ↔ hazardRow .indexed schema row = true) ∧
    ((∃ p, encodePrimaryKey schema key = .panic p) ↔ hazardKey schema schema.primaryKey key = true) := by
  refine ⟨encodeRow_panics row fun _ _ t _ => encodesExactly t,encodeRow_panics row fun _ _ t _ => encodesExactly t,?_⟩
  rw [encodePrimaryKey,Schema.validatePrimaryKey]
  cases hok : schema.validateRow key schema.primaryKey with
  | ok _ => exact encodeKeyColumns_panics schema schema.primaryKey key
  | err e => simp [hazardKey,hok,isOk]
  | panic p => exact absurd hok ((schema.validateRow_sat key schema.primaryKey).ne_panic p)
/-- A DECIMAL column without a logical type, whose values are never encoded, before a DECIMAL(10,2) column. -/
example :
    let schema : Schema := {
      columns := [
        { name := "a", type := .decimal, nullable := false },
        fieldColumn { name := "b", type := { root := .named .decimal, precision := 10, scale := 2 } }] }
    schema.validateRow [.rat (some 1), .rat none] [] = .ok () ∧
      hazardRow .compacted schema [.rat (some 1), .rat none] = false := by
  decide
/-- An ARRAY column without a logical type and a DECIMAL(10,2) key column. -/
def hazardSchema : Schema where
  columns := [
    { name := "tags", type := .array, nullable := true },
    fieldColumn { name := "price", type := { root := .named .decimal, precision := 10, scale := 2 } }]
  primaryKey := ["price"]

theorem encoders_panic_on_accepted_rows :
    hazardSchema.validate = .ok () ∧ hazardSchema.validateRow [.nil, .rat none] [] = .ok () ∧
      hazardSchema.validateRow [.array [], .rat (some 1)] [] = .ok () ∧
      hazardSchema.validatePrimaryKey [.rat none] = .ok () ∧
      encodeCompactedRow hazardSchema [.nil, .rat none] = .panic .nilDereference ∧
      encodeIndexedRow hazardSchema [.nil, .rat none] = .panic .nilDereference ∧
      encodeCompactedRow hazardSchema [.array [], .rat (some 1)] = .panic .nilDereference ∧
      encodePrimaryKey hazardSchema [.rat none] = .panic .nilDereference := by
  decide
end FlussGo
