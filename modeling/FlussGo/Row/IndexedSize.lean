import FlussGo.Row.EncodeSafety
import FlussGo.Row.Compacted
/-!
# Sizes of indexed rows

The size of the indexed encoding of a row, by recursion on its types. The indexed encoder checks what the
compacted one does not: a CHAR or BINARY value has at most its declared length, and the row with its fixed
widths and padding is within the limit.
-/
namespace FlussGo
open Outcome List Option Nat Prod

def encodingSize : Go Bytes → Option Nat
  | .ok b => some b.length
  | _ => none

def sumSizes : List (Option Nat) → Option Nat
  | [] => some 0
  | size :: sizes => do
    let n ← size
    let m ← sumSizes sizes
    some (n + m)
/-- A value that holds no other values. A CHAR or BINARY value that is longer than declared has no size. -/
def scalarSize (t : LogicalType) (v : Value) : Option Nat :=
  match dataTypeForLogicalType t, v with
  | .string, .string b | .bytes, .bytes b => some b.length
  | .char, .string b | .binary, .bytes b =>
    if t.length = 0 then some b.length else if (b.length : Int) ≤ t.length then some t.length.toNat else none
  | .decimal, .rat r =>
    if t.precision ≤ 18 then some 8
    else encodingSize (signedBigEndian <$> decimalUnscaled r t)
  | _, _ => some (indexedLength t).toNat

mutual
/-- The bytes of a value of an indexed row. -/
def indexedSize : LogicalType → Value → Option Nat
  | ⟨root,nullable,length,precision,scale,element,key,value,fields⟩, v =>
    match dataTypeOfRoot root with
    | .array =>
      match v with
      | .array vs => arraySize element vs
      | _ => none
    | .map =>
      match mapEntries v with
      | some entries => sumSizes [some 4, arraySize key (entries.map fst), arraySize value (entries.map snd)]
      | none => none
    | .row =>
      match v with
      | .row vs =>
        let schema := nestedSchema ⟨root,nullable,length,precision,scale,element,key,value,fields⟩
        sumSizes (some (rowHeaderBytes schema .indexed) :: fieldSizes fields vs)
      | _ => none
    | _ => scalarSize ⟨root,nullable,length,precision,scale,element,key,value,fields⟩ v
/-- An array whose elements hold no other values is the same in both encodings. -/
def arraySize : Option LogicalType → List Value → Option Nat
  | none, _ => none
  | some t, vs =>
    if nestedKind (dataTypeForLogicalType t) then
      sumSizes (some (arrayFixedBytes t vs.length) ::
        vs.map fun v => if v.isNil then some 0 else align8 <$> indexedSize t v)
    else encodingSize (encodeBinaryArray .compacted (some t) vs)

def fieldSizes : List LogicalField → List Value → List (Option Nat)
  | ⟨_,type,_,_⟩ :: fields, v :: vs => (if v.isNil then some 0 else indexedSize type v) :: fieldSizes fields vs
  | _, _ => []
end

def columnSize (column : Column) (v : Value) : Option Nat :=
  if v.isNil then some 0 else indexedSize (logicalTypeForColumn column) v

def indexedRowSize (schema : Schema) (row : Row) : Option Nat :=
  sumSizes (some (rowHeaderBytes schema .indexed) :: zipWith columnSize schema.columns row)

theorem indexedSize_eq (t : LogicalType) (v : Value) : indexedSize t v =
      match dataTypeForLogicalType t with
      | .array =>
        match v with
        | .array vs => arraySize t.element vs
        | _ => none
      | .map =>
        match mapEntries v with
        | some entries => sumSizes [some 4, arraySize t.key (entries.map fst), arraySize t.value (entries.map snd)]
        | none => none
      | .row =>
        match v with
        | .row vs => indexedRowSize (nestedSchema t) vs
        | _ => none
      | _ => scalarSize t v := by
  have hfields : ∀ (fields : List LogicalField) (vs : List Value),
      fieldSizes fields vs = zipWith columnSize (fields.map fieldColumn) vs := by
    intro fields
    induction fields with
    | nil => intro vs; cases vs <;> rfl
    | cons f fields ih =>
      intro vs
      cases f
      cases vs with
      | nil => rfl
      | cons v vs =>
        rw [fieldSizes,ih]
        rfl
  cases t
  unfold indexedSize
  simp only [hfields]
  rfl

/-- Up to the limit of a row, the encoding has this size. -/
def Sized (encoded : Go Bytes) (size : Option Nat) : Prop :=
  ∀ n ≤ maxRowBytes, encodingSize encoded = some n ↔ size = some n

theorem encodingSize_eq_some {x : Go Bytes} {n : Nat} : encodingSize x = some n ↔ ∃ b, x = .ok b ∧ b.length = n := by
  cases x <;> simp [encodingSize]

section Sized
variable {x : Go Bytes} {size : Option Nat} {f : Bytes → Go Bytes} {n m : Nat} {sizes : List (Option Nat)}

theorem Sized.ok {b : Bytes} (h : b.length = n) : Sized (.ok b) (some n) := h ▸ fun _ _ => Iff.rfl

theorem Sized.large (hx : x.isOk = false) (hs : ∀ n, size = some n → maxRowBytes < n) : Sized x size := by
  intro n hn
  refine iff_of_false ?_ fun h => absurd (hs n h) (by omega)
  cases x <;> simp_all [encodingSize,isOk]

theorem Sized.mapErr {g : GoError → GoError} (h : Sized x size) : Sized (x.mapErr g) size := by
  cases x <;> exact h

theorem Sized.limit {e : GoError} (h : Sized x size) (hm : ∀ n, size = some n → m ≤ n) :
    Sized (if maxRowBytes < m then .err e else x) size := by
  split
  · exact .large rfl fun n hn => lt_of_lt_of_le ‹_› (hm n hn)
  · exact h

theorem Sized.bind {g : Nat → Option Nat} (h : Sized x size) (hg : ∀ m n, g m = some n → m ≤ n)
    (hf : ∀ b, x = .ok b → Sized (f b) (g b.length)) : Sized (x >>= f) (size.bind g) := by
  intro n hn
  rw [bind_eq_some_iff,encodingSize_eq_some]
  constructor
  · rintro ⟨c,hc,rfl⟩
    obtain ⟨b,hb,hc⟩ := of_bind hc
    have hgb := (hf b hb _ hn).mp (encodingSize_eq_some.mpr ⟨c,hc,rfl⟩)
    exact ⟨b.length,(h _ ((hg _ _ hgb).trans hn)).mp (encodingSize_eq_some.mpr ⟨b,hb,rfl⟩),hgb⟩
  · rintro ⟨m,hs,hgm⟩
    obtain ⟨b,hb,rfl⟩ := encodingSize_eq_some.mp ((h m ((hg m n hgm).trans hn)).mpr hs)
    rw [hb,bind_ok]
    exact encodingSize_eq_some.mp ((hf b hb n hn).mpr hgm)

theorem le_of_sumSizes (h : sumSizes (some n :: sizes) = some m) : n ≤ m := by
  obtain ⟨k,-,hk⟩ := bind_eq_some_iff.mp h
  have := some.inj hk
  omega

theorem sumSizes_cons_cons : sumSizes (some n :: size :: sizes) = size.bind fun m => sumSizes (some (n + m) :: sizes) := by
  cases size with
  | none => rfl
  | some k => cases hs : sumSizes sizes <;> simp [sumSizes,hs,add_assoc]
end Sized

section Values
variable {t : LogicalType} {v : Value} {nested nested' : Value → Go Bytes} {b : Bytes}

private theorem appendIndexedBytes_sized (t : LogicalType) (b : Bytes) : Sized (appendIndexedBytes [] t b)
    (if t.length = 0 then some b.length else if (b.length : Int) ≤ t.length then some t.length.toNat else none) := by
  have hm : (maxRowBytes : Int) ≤ maxAlloc := by decide
  unfold appendIndexedBytes appendFixed
  by_cases h0 : t.length = 0
  · rw [if_pos h0,if_pos h0]
    exact .ok rfl
  rw [if_neg h0,if_neg h0]
  by_cases hb : (b.length : Int) ≤ t.length
  · rw [if_neg (by omega),if_pos hb]
    split
    · exact .large rfl fun n hn => by have := some.inj hn; omega
    · exact .ok (by simp; omega)
  · rw [if_pos (by omega),if_neg hb]
    exact .large rfl (by simp)

private theorem shape_of_compacted (hk : nestedKind (dataTypeForLogicalType t) = false)
    (h : appendCompactedWith nested [] t v = .ok b) : Shape (dataTypeForLogicalType t) v := by
  unfold appendCompactedWith at h
  generalize dataTypeForLogicalType t = kind at h hk
  cases kind <;> cases v <;> first | exact ⟨_,rfl⟩ | cases h | cases hk
/-- The values that hold no others. -/
theorem appendIndexedWith_sized (hk : nestedKind (dataTypeForLogicalType t) = false)
    (h : appendCompactedWith nested' [] t v = .ok b) : Sized (appendIndexedWith nested [] t v) (scalarSize t v) := by
  have hs := shape_of_compacted hk h
  unfold appendIndexedWith scalarSize
  cases hd : dataTypeForLogicalType t with
  | array | map | row => simp [hd,nestedKind] at hk
  | other name => simp [hd,Shape] at hs
  | int | bigInt | date | time =>
    simp only [hd] at hs ⊢
    obtain ⟨x,rfl⟩ := hs
    exact .ok (by simp [indexedLength,hd,appendLittle])
  | timestamp | timestampLTZ =>
    simp only [hd] at hs ⊢
    obtain ⟨x,rfl⟩ := hs
    refine Sized.ok (b := appendIndexedTimestamp [] t x) ?_
    simp only [appendIndexedTimestamp,indexedLength,hd]
    split <;> simp [appendLittle]
  | bool | tinyInt | smallInt | float | double =>
    simp only [hd,appendCompactedWith] at hs ⊢
    obtain ⟨x,rfl⟩ := hs
    exact .ok (by simp [indexedLength,hd,appendLittle])
  | string | bytes =>
    simp only [hd] at hs ⊢
    obtain ⟨x,rfl⟩ := hs
    exact .ok rfl
  | char | binary =>
    simp only [hd] at hs ⊢
    obtain ⟨x,rfl⟩ := hs
    exact appendIndexedBytes_sized t x
  | decimal =>
    simp only [hd] at hs ⊢
    obtain ⟨r,rfl⟩ := hs
    unfold appendCompactedWith at h
    simp only [hd] at h
    obtain ⟨unscaled,hu,-⟩ := of_bind (show appendCompactedDecimal [] t r = .ok b from h)
    show Sized (appendIndexedDecimal [] t r)
      (if t.precision ≤ 18 then some 8 else encodingSize (signedBigEndian <$> decimalUnscaled r t))
    rw [appendIndexedDecimal,hu,bind_ok]
    split
    · exact .ok (by simp [appendLittle])
    · exact .ok rfl
/-- A value of a column: one that holds others has the size of what it holds. -/
theorem encodeRowValue_sized (h : encodeRowValue .compacted t v = .ok b)
    (hn : ∀ b, encodeNested .compacted t v = .ok b → Sized (encodeNested .indexed t v) (indexedSize t v)) :
    Sized (encodeRowValue .indexed t v) (indexedSize t v) := by
  by_cases hk : nestedKind (dataTypeForLogicalType t) = true
  · have hc : encodeRowValue .compacted t v = encodeNested .compacted t v >>= appendLengthBytes [] := by
      unfold encodeRowValue encodeRowValueWith appendCompactedWith
      cases hd : dataTypeForLogicalType t <;> simp_all [nestedKind]
    have hi : encodeRowValue .indexed t v = encodeNested .indexed t v >>= fun payload => .ok payload := by
      unfold encodeRowValue encodeRowValueWith appendIndexedWith
      cases hd : dataTypeForLogicalType t <;> simp_all [nestedKind]
    rw [hc] at h
    obtain ⟨payload,hp,-⟩ := of_bind h
    rw [hi]
    simpa using (hn payload hp).bind (g := some) (f := .ok) (by simp) fun b _ => .ok rfl
  · have hs : indexedSize t v = scalarSize t v := by
      cases t
      unfold indexedSize
      split <;> simp_all [nestedKind,dataTypeForLogicalType]
    rw [hs]
    exact appendIndexedWith_sized (by simpa using hk) h
end Values

section Loops
variable {t : LogicalType}
/-- The nested values of the type. -/
def SizesNested (t : LogicalType) : Prop :=
  ∀ v b, encodeNested .compacted t v = .ok b → Sized (encodeNested .indexed t v) (indexedSize t v)

private theorem encodeColumns_sized {columns : List Column} {nullBytes headerBytes : Nat}
    (hn : ∀ column ∈ columns, SizesNested (logicalTypeForColumn column)) :
    ∀ (row : Row) (i : Nat) (encoded : Bytes) (lp : Nat) (i' : Nat) (encoded' : Bytes) (lp' : Nat) (b : Bytes),
      RowState .indexed nullBytes headerBytes columns i encoded lp →
      encodeColumns .compacted (encodersOf .compacted columns) row i' encoded' lp' = .ok b →
      Sized (encodeColumns .indexed (encodersOf .indexed columns) row i encoded lp)
        (sumSizes (some encoded.length :: zipWith columnSize columns row)) := by
  induction columns with
  | nil => exact fun _ _ _ _ _ _ _ _ _ _ => .ok rfl
  | cons column columns ih =>
    intro row i encoded lp i' encoded' lp' b hs hc
    have ih := ih fun c hc => hn c (mem_cons_of_mem _ hc)
    cases row with
    | nil => cases hc
    | cons v row =>
      rw [encodersOf,map_cons,encodeColumns] at hc ⊢
      rw [zipWith_cons_cons,sumSizes_cons_cons]
      split at hc
      next hnil =>
        obtain ⟨e,-,hc⟩ := of_bind hc
        rw [if_pos hnil,hs.setBit,bind_ok,columnSize,if_pos hnil]
        have hrest := ih row (i + 1) _ lp _ _ _ b hs.withBit.1 hc
        rw [withBit_length] at hrest
        exact hrest
      next hnil =>
        obtain ⟨value,hv,hc⟩ := of_bind hc
        rw [mapErr_eq_ok] at hv
        obtain ⟨⟨e,l⟩,-,hc⟩ := of_bind hc
        have hc := (of_guard hc).2
        rw [if_neg hnil,columnSize,if_neg hnil]
        refine (encodeRowValue_sized hv (hn column mem_cons_self v)).mapErr.bind
          (fun m n h => (le_add_left _ _).trans (le_of_sumSizes h)) fun c _ => ?_
        obtain ⟨e,l,hput,hlen,hs'⟩ := putIndexedLength_ok hs c.length
        have hrest := ih row (i + 1) (e ++ c) l _ _ _ b (hs' c) hc
        rw [length_append,hlen] at hrest
        rw [hput,bind_ok]
        dsimp only
        rw [hlen,add_comm c.length]
        exact .limit hrest fun n h => le_of_sumSizes h

private theorem appendArrayVariable_sized {encoded value : Bytes} {slot reserved : Nat} (hs : slot + 8 ≤ encoded.length)
    (hv : value.length ≤ reserved) :
    Sized (appendArrayVariable encoded slot value reserved) (some (encoded.length + reserved)) := by
  unfold appendArrayVariable
  split
  · exact .large rfl fun n hn => by have := some.inj hn; omega
  have hlen : (encoded ++ (value ++ zeros (reserved - value.length))).length = encoded.length + reserved := by
    simp
    omega
  rw [putOffsetSize,putLittle_ok (by omega)]
  exact .ok (by rw [spliced_length _ (by omega),hlen])

private theorem encodeElements_sized (hk : nestedKind (dataTypeForLogicalType t) = true) (hn : SizesNested t)
    {base start : Nat} (vs : List Value) : ∀ (i : Nat) (encoded : Bytes) (i' : Nat) (encoded' b : Bytes),
      ElementRoom t base start vs (i, encoded) →
      encodeElements t (writeArrayElementWith (encodeNested .compacted t) t) base vs i' encoded' = .ok b →
      Sized (encodeElements t (writeArrayElementWith (encodeNested .indexed t) t) base vs i encoded)
        (sumSizes (some encoded.length :: vs.map fun v => if v.isNil then some 0 else align8 <$> indexedSize t v)) := by
  have hw : ∀ (nested : Value → Go Bytes) v e slot, writeArrayElementWith nested t v e slot =
      nested v >>= fun payload => appendArrayVariable e slot payload (align8 payload.length) := by
    intro nested v e slot
    unfold writeArrayElementWith
    cases hd : dataTypeForLogicalType t <;> simp_all [nestedKind]
  have hsize : arraySlotSize t = 8 := by
    unfold arraySlotSize
    cases hd : dataTypeForLogicalType t <;> simp_all [nestedKind]
  induction vs with
  | nil => exact fun _ _ _ _ _ _ _ => .ok rfl
  | cons v vs ih =>
    intro i encoded i' encoded' b hroom hc
    obtain ⟨hs,hb,hl⟩ := hroom
    have hsu : i + (v :: vs).length = i + 1 + vs.length := by simp; omega
    simp only [hsu] at hs hb hl
    rw [encodeElements] at hc ⊢
    rw [map_cons,sumSizes_cons_cons]
    split at hc
    next hnil =>
      split at hc
      · obtain ⟨e,-,hc⟩ := of_bind hc
        have hbit := hb i (by omega)
        rw [if_pos hnil,if_pos ‹_›,setBit_ok (by omega),bind_ok,if_pos hnil]
        have hrest := ih (i + 1) (withBit 4 i encoded) _ _ b ⟨hs,hb,by simpa using hl⟩ hc
        rw [withBit_length] at hrest
        exact hrest
      · simp at hc
    next hnil =>
      split at hc
      next hva =>
        obtain ⟨e,he,hc⟩ := of_bind hc
        rw [mapErr_eq_ok,hw] at he
        obtain ⟨payload,hp,-⟩ := of_bind he
        have hc := (of_guard hc).2
        have hslot : base + arraySlotSize t * i + 8 ≤ start := by
          rw [hsize] at hs ⊢
          omega
        have hwrite := (hn v payload hp).bind
          (g := fun m => some (encoded.length + align8 m))
          (f := fun c => appendArrayVariable encoded (base + arraySlotSize t * i) c (align8 c.length))
          (fun m n h => by have := align8_le m; have := some.inj h; omega)
          fun c _ => appendArrayVariable_sized (by omega) (align8_le _)
        rw [if_neg hnil,if_pos hva,if_neg hnil,hw]
        convert hwrite.mapErr.bind (fun m n h => le_of_sumSizes h) fun e' he' => ?_ using 1
        · cases indexedSize t v <;> rfl
        rw [mapErr_eq_ok] at he'
        obtain ⟨c,-,he'⟩ := of_bind he'
        have hle : (appendArrayVariable encoded (base + arraySlotSize t * i) c (align8 c.length)).Sat _ :=
          appendArrayVariable_sat hslot hl
        rw [he'] at hle
        exact .limit (ih (i + 1) e' _ _ b ⟨hs,hb,hle⟩ hc) fun n h => le_of_sumSizes h
      · simp at hc

private theorem encodeBinaryArray_sized {element : Option LogicalType} (hn : ∀ e ∈ element, SizesNested e)
    {vs : List Value} {b : Bytes} (h : encodeBinaryArray .compacted element vs = .ok b) :
    Sized (encodeBinaryArray .indexed element vs) (arraySize element vs) := by
  cases element with
  | none => cases h
  | some t =>
    unfold arraySize
    split
    next hk =>
      rw [encodeBinaryArray,encodeBinaryArrayWith] at h ⊢
      split
      · rw [if_pos ‹_›] at h
        cases h
      rw [if_neg ‹_›] at h
      split
      · rw [if_pos ‹_›] at h
        cases h
      rw [if_neg ‹_›] at h
      obtain ⟨h4,hroom⟩ := elementRoom_initial t vs
      rw [putLittle_ok h4,bind_ok] at h ⊢
      have hs := encodeElements_sized hk (hn t rfl) vs _ _ _ _ _ hroom h
      rwa [spliced_length _ h4,zeros_length] at hs
    next hk =>
      have hw : encodeBinaryArray .indexed (some t) vs = encodeBinaryArray .compacted (some t) vs := by
        rw [encodeBinaryArray,encodeBinaryArray]
        congr 1
        funext v e slot
        unfold writeArrayElementWith
        cases hd : dataTypeForLogicalType t <;> simp_all [nestedKind]
      rw [hw]
      exact fun n _ => Iff.rfl

theorem encodeRow_sized {schema : Schema} {row : Row} {b : Bytes}
    (hn : ∀ column ∈ schema.columns, SizesNested (logicalTypeForColumn column))
    (h : encodeRow schema row .compacted = .ok b) :
    Sized (encodeRow schema row .indexed) (indexedRowSize schema row) := by
  rw [encodeRow,encodeRowWith,← map_prod_left_eq_zip] at h ⊢
  obtain ⟨hv,h⟩ := of_seq h
  rw [hv,bind_ok]
  have hs := encodeColumns_sized hn row _ _ _ _ _ _ b (rowState_initial .indexed schema) h
  rwa [zeros_length] at hs

theorem sizesNested (t : LogicalType) : SizesNested t := by
  induction t using LogicalType.induction with
  | step t ih =>
    intro v b h
    rw [encodeNested_eq] at h ⊢
    rw [indexedSize_eq]
    cases hk : dataTypeForLogicalType t with
    | array =>
      simp only [hk] at h ⊢
      obtain ⟨vs,rfl,h⟩ := bind_as_eq_ok Value.asArray_eq_ok h
      exact encodeBinaryArray_sized ih.element h
    | map =>
      simp only [hk,encodeBinaryMapWith] at h ⊢
      cases he : mapEntries v with
      | none => simp [he] at h
      | some entries =>
        rw [he] at h
        obtain ⟨keys,hkeys,h⟩ := of_bind h
        obtain ⟨values,hvalues,-⟩ := of_bind h
        dsimp only
        rw [sumSizes_cons_cons]
        refine (encodeBinaryArray_sized ih.key hkeys).bind
          (fun m n h => (le_add_left _ _).trans (le_of_sumSizes h)) fun k _ => ?_
        rw [sumSizes_cons_cons]
        refine (encodeBinaryArray_sized ih.value hvalues).bind
          (fun m n h => (le_add_left _ _).trans (le_of_sumSizes h)) fun w _ => ?_
        exact .ok (by simp [add_assoc])
    | row =>
      simp only [hk] at h ⊢
      obtain ⟨vs,rfl,h⟩ := bind_as_eq_ok Value.asRow_eq_ok h
      refine encodeRow_sized (fun column hc => ?_) h
      obtain ⟨f,hf,rfl⟩ := mem_map.mp hc
      exact ih.fields f hf
    | _ => simp [hk] at h
/-- The row is a row of nulls, which is not measured, or has an indexed size within the limit. -/
def FitsIndexed (schema : Schema) (row : Row) : Prop :=
  (∀ v ∈ row, v = .nil) ∨ ∃ n ≤ maxRowBytes, indexedRowSize schema row = some n

theorem encodeIndexedRow_isOk {schema : Schema} {row : Row} (h : (encodeCompactedRow schema row).isOk = true) :
    (encodeIndexedRow schema row).isOk = true ↔ FitsIndexed schema row := by
  obtain ⟨b,h⟩ := isOk_iff.mp h
  have hs := encodeRow_sized (fun column _ => sizesNested _) h
  obtain ⟨hv,-⟩ := of_seq h
  have hl := ((schema.validateRow_eq_ok row).mp hv).2.length_eq
  constructor
  · intro ho
    obtain ⟨final,hf⟩ := isOk_iff.mp ho
    have hc := (of_seq hf).2
    rw [← map_prod_left_eq_zip] at hc
    rcases (encodeColumns_length hc (by simp [hl])).2 with ⟨hall,-⟩ | ⟨-,hle⟩
    · exact .inl hall
    · exact .inr ⟨_,hle,(hs _ hle).mp (encodingSize_eq_some.mpr ⟨final,hf,rfl⟩)⟩
  · rintro (hall | ⟨n,hn,hsize⟩)
    · have hr : row = replicate (encodersOf .indexed schema.columns).length .nil :=
        eq_replicate_iff.mpr ⟨by simp [encodersOf,hl],hall⟩
      obtain ⟨final,hf⟩ := encodeColumns_nulls .indexed (encodersOf .indexed schema.columns) 0
        (zeros (rowHeaderBytes schema .indexed)) (rowNullBytes schema)
        (by simp [encodersOf,rowHeaderBytes,rowNullBytes]; omega)
      rw [← hr] at hf
      rw [encodeIndexedRow,encodeRow,encodeRowWith,hv,bind_ok,← map_prod_left_eq_zip]
      exact isOk_iff.mpr ⟨final,hf⟩
    · obtain ⟨final,hf,-⟩ := encodingSize_eq_some.mp ((hs n hn).mpr hsize)
      exact isOk_iff.mpr ⟨final,hf⟩
end Loops
end FlussGo
