import FlussGo.Row.RoundTrip
/-!
# Compacted and indexed rows

The encoder checks the row limit when it appends a value, so a compacted row of nulls is the one encoding that
can exceed what the decoder accepts. An indexed row pads CHAR(n) and BINARY(n) columns with zero bytes and the
decoder cuts trailing zeros off again.
-/
namespace FlussGo
open Outcome List
section Length
variable {encoding : RowEncoding} {encoded : Bytes} {row : Row} {lp : Nat}

private theorem orByte_length {encoded' : Bytes} {position : Nat} {mask : UInt8}
    (h : (orByte encoded position mask : Go Bytes) = .ok encoded') : encoded'.length = encoded.length := by
  unfold orByte at h
  split at h
  · rw [← ok.inj h,length_set]
  · simp at h

private theorem putIndexedLength_length {t : LogicalType} {encoded' : Bytes} {lp' length : Nat}
    (h : putIndexedLength encoding t encoded lp length = .ok (encoded', lp')) : encoded'.length = encoded.length := by
  unfold putIndexedLength at h
  split at h
  · obtain ⟨e,hw,he⟩ := of_bind h
    cases he
    obtain ⟨hlen,rfl⟩ := putLittle_eq_ok hw
    exact spliced_length _ hlen
  · cases h
    rfl
/-- A row with a value was measured when that value was appended; a row of nulls is its header. -/
theorem encodeColumns_length {columns : List (Column × (Value → Go Bytes))} {i : Nat} {final : Bytes}
    (h : encodeColumns encoding columns row i encoded lp = .ok final)
    (hl : row.length = columns.length) : encoded.length ≤ final.length ∧
    (((∀ v ∈ row, v = .nil) ∧ final.length = encoded.length) ∨
      ((∃ v ∈ row, v ≠ .nil) ∧ final.length ≤ maxRowBytes)) := by
  induction columns generalizing row i encoded lp with
  | nil =>
    have hrow : row = [] := length_eq_zero_iff.mp hl
    subst hrow
    rw [← ok.inj h]
    simp
  | cons column columns ih =>
    obtain ⟨column,encode⟩ := column
    cases row with
    | nil => simp at hl
    | cons v row =>
      have hl' : row.length = columns.length := by simpa using hl
      rw [encodeColumns] at h
      split at h
      next hnil =>
        rw [Value.isNil_iff] at hnil
        obtain ⟨encoded',hbit,h⟩ := of_bind h
        obtain ⟨hle,hc⟩ := ih h hl'
        rw [orByte_length hbit] at hle hc
        refine ⟨hle,?_⟩
        rcases hc with ⟨hall,hf⟩ | ⟨⟨w,hw,hne⟩,hf⟩
        · exact .inl ⟨by simpa [hnil] using hall,hf⟩
        · exact .inr ⟨⟨w,mem_cons_of_mem _ hw,hne⟩,hf⟩
      next hnil =>
        have hne : v ≠ .nil := fun hv => hnil ((Value.isNil_iff v).mpr hv)
        obtain ⟨value,_,h⟩ := of_bind h
        obtain ⟨⟨encoded',lp'⟩,hput,h⟩ := of_bind h
        dsimp only at h
        split at h
        · simp at h
        obtain ⟨hle,hc⟩ := ih h hl'
        have hsame := putIndexedLength_length hput
        rw [length_append] at hle hc
        refine ⟨by omega,.inr ⟨⟨v,mem_cons_self,hne⟩,?_⟩⟩
        rcases hc with ⟨_,hf⟩ | ⟨_,hf⟩
        · omega
        · exact hf
/-- An encoded row exceeds the limit exactly when it is a header of nulls that does. -/
theorem encodeRow_length_le {schema : Schema} (h : encodeRow schema row encoding = .ok encoded) :
    encoded.length ≤ maxRowBytes ↔ rowHeaderBytes schema encoding ≤ maxRowBytes ∨ ∃ v ∈ row, v ≠ .nil := by
  rw [encodeRow,encodeRowWith,bind_unit_eq_ok] at h
  have hrow := ((schema.validateRow_eq_ok row).mp h.1).2.length_eq
  have hlen := (encodeColumns_length h.2 (by simp [hrow])).2
  rw [zeros_length] at hlen
  rcases hlen with ⟨hall,hlen⟩ | ⟨hex,hlen⟩
  · rw [hlen]
    constructor
    · exact .inl
    · rintro (hle | ⟨v,hv,hne⟩)
      · exact hle
      · exact absurd (hall v hv) hne
  · exact ⟨fun _ => .inr hex,fun _ => hlen⟩

theorem encodeRow_length_ge {schema : Schema} (h : encodeRow schema row encoding = .ok encoded) :
    rowHeaderBytes schema encoding ≤ encoded.length := by
  rw [encodeRow,encodeRowWith,bind_unit_eq_ok] at h
  have hrow := ((schema.validateRow_eq_ok row).mp h.1).2.length_eq
  have hle := (encodeColumns_length h.2 (by simp [hrow])).1
  rwa [zeros_length] at hle
end Length

theorem encodeCompactedRow_ne_nil {schema : Schema} {row : Row} {encoded : Bytes}
    (h : encodeCompactedRow schema row = .ok encoded) : encoded ≠ [] := by
  have hle : rowHeaderBytes schema .compacted ≤ encoded.length := encodeRow_length_ge h
  rw [encodeCompactedRow,encodeRow,encodeRowWith,bind_unit_eq_ok] at h
  have hc := ((schema.validateRow_eq_ok row).mp h.1).1.nonempty
  have hpos := length_pos_of_ne_nil hc
  rw [rowHeaderBytes,rowNullBytes] at hle
  apply ne_nil_of_length_pos
  omega

theorem decodeRow_of_length_gt {encoding : RowEncoding} {schema : Schema} {encoded : Bytes}
    (h : maxRowBytes < encoded.length) (row : Row) : decodeRow schema encoded encoding ≠ .ok row := by
  intro hd
  rw [decodeRow,decodeRowWith,bind_unit_eq_ok,if_pos (.inl h)] at hd
  simp at hd
/-- A compacted row decodes to what is stored of it and that encodes to the same bytes, unless it
is a row of nulls whose bitmap alone exceeds the row limit. -/
theorem compactedRow_roundTrip (schema : Schema) (row : Row) (encoded : Bytes)
    (h : encodeCompactedRow schema row = .ok encoded) (hfit : fitsRow schema row = true) :
    (decodeCompactedRow schema encoded = .ok (storedRow .compacted schema row) ∧
      encodeCompactedRow schema (storedRow .compacted schema row) = .ok encoded) ↔
    (rowNullBytes schema ≤ maxRowBytes ∨ ∃ v ∈ row, v ≠ .nil) := by
  have hlength := encodeRow_length_le h
  rw [← show rowHeaderBytes schema .compacted = rowNullBytes schema from rfl,← hlength]
  constructor
  · rintro ⟨hdecode,_⟩
    by_contra hgt
    exact decodeRow_of_length_gt (by omega) _ hdecode
  · intro hmax
    refine ⟨decodeRow_encodeRow (fun _ _ => roundTrips _ _) h hfit hmax,?_⟩
    rw [encodeCompactedRow_storedRow]
    exact h

theorem compactedRow_roundTrip_sample :
    encodeCompactedRow sampleSchema sampleRow = .ok sampleCompacted ∧
      decodeCompactedRow sampleSchema sampleCompacted = .ok (storedRow .compacted sampleSchema sampleRow) := by
  have h : encodeCompactedRow sampleSchema sampleRow = .ok sampleCompacted := by decide
  exact ⟨h,((compactedRow_roundTrip sampleSchema sampleRow sampleCompacted h (by decide)).mpr
    (.inl (by decide))).1⟩

section Wide
def wideSchema (count : Nat) : Schema where
  columns := (List.range count).map fun i =>
    { name := String.ofList (List.replicate (i + 1) 'c'), type := .bool, nullable := true }

private theorem trimSpace_replicate (k : Nat) :
    trimSpace (String.ofList (replicate k 'c')) = String.ofList (replicate k 'c') := by
  have hd : ∀ k, (replicate k 'c').dropWhile isSpace = replicate k 'c' := by
    intro k
    cases k with
    | zero => rfl
    | succ k => exact dropWhile_cons_of_neg (by decide)
  rw [trimSpace,String.toList_ofList,trimSpaceChars,hd,reverse_replicate,hd,reverse_replicate]

private theorem wideSchema_valid {count : Nat} (h : 0 < count) : (wideSchema count).Valid where
  nonempty := by
    intro hnil
    have := congrArg length hnil
    simp [wideSchema] at this
    omega
  nodup := by
    rw [wideSchema,map_map]
    apply (nodup_range).map
    intro i j hij
    have hl := congrArg String.toList hij
    simpa using congrArg length hl
  columns := by
    intro column hc
    obtain ⟨i,_,rfl⟩ := mem_map.mp hc
    refine ⟨?_,trimSpace_replicate _,rfl⟩
    intro he
    have hl := congrArg String.toList he
    simp [replicate_succ] at hl
  primaryKey := by simp [wideSchema]
  bucketKey := by simp [wideSchema]
  partitionKey := by simp [wideSchema]

theorem encodeColumns_nulls (encoding : RowEncoding) (columns : List (Column × (Value → Go Bytes))) :
    ∀ (i : Nat) (encoded : Bytes) (lp : Nat), i + columns.length ≤ 8 * encoded.length →
      ∃ final, encodeColumns encoding columns (replicate columns.length .nil) i encoded lp = .ok final := by
  induction columns with
  | nil => intro i encoded lp _; exact ⟨encoded,rfl⟩
  | cons column columns ih =>
    intro i encoded lp hle
    rw [length_cons] at hle
    obtain ⟨final,hf⟩ := ih (i + 1) (withBit 0 i encoded) lp (by rw [withBit_length]; omega)
    refine ⟨final,?_⟩
    rw [length_cons,replicate_succ,encodeColumns,
      if_pos (show Value.nil.isNil = true from rfl),setBit_ok (by omega),bind_ok,hf]

theorem encodeCompactedRow_nulls {count : Nat} (h : 0 < count) :
    ∃ encoded, encodeCompactedRow (wideSchema count) (replicate count .nil) = .ok encoded ∧
      encoded.length = (count + 7) / 8 := by
  have hc : (wideSchema count).columns.length = count := by simp [wideSchema]
  have hva : (wideSchema count).validateRow (replicate count .nil) [] = .ok () := by
    rw [Schema.validateRow_eq_ok]
    refine ⟨wideSchema_valid h,forall₂_iff_get.mpr ⟨by simp [hc],?_⟩⟩
    intro i hi hi'
    simp [wideSchema,validateColumnValue,Value.isNil]
  obtain ⟨encoded,he⟩ := encodeColumns_nulls .compacted
    (encodersOf .compacted (wideSchema count).columns) 0
    (zeros (rowHeaderBytes (wideSchema count) .compacted)) (rowNullBytes (wideSchema count))
    (by simp [encodersOf,rowHeaderBytes,rowNullBytes,hc]; omega)
  have hlen : (encodersOf .compacted (wideSchema count).columns).length = count := by simp [encodersOf,hc]
  rw [hlen] at he
  have hr : encodeCompactedRow (wideSchema count) (replicate count .nil) = .ok encoded := by
    rw [encodeCompactedRow,encodeRow,encodeRowWith,hva,bind_ok,← map_prod_left_eq_zip]
    exact he
  refine ⟨encoded,hr,?_⟩
  rcases (encodeColumns_length he (by simp [hlen])).2 with ⟨_,hl⟩ | ⟨⟨v,hv,hne⟩,_⟩
  · rw [hl,zeros_length,rowHeaderBytes,rowNullBytes,hc]
  · exact absurd (eq_of_mem_replicate hv) hne
/-- 2^27 + 1 null columns encode to one byte more than the decoder accepts. -/
theorem compactedRow_wide_nulls_rejected :
    ∃ encoded, encodeCompactedRow (wideSchema (2 ^ 27 + 1)) (List.replicate (2 ^ 27 + 1) .nil) = .ok encoded ∧
      ∀ row, decodeCompactedRow (wideSchema (2 ^ 27 + 1)) encoded ≠ .ok row := by
  obtain ⟨encoded,h,hlen⟩ := encodeCompactedRow_nulls (show 0 < 2 ^ 27 + 1 by omega)
  refine ⟨encoded,h,fun row => decodeRow_of_length_gt ?_ row⟩
  rw [hlen,maxRowBytes_eq]
  omega
end Wide
/-- An indexed row decodes to what is stored of it as long as it is no longer than a row may be. -/
theorem indexedRow_roundTrip (schema : Schema) (row : Row) (encoded : Bytes)
    (h : encodeIndexedRow schema row = .ok encoded) (hfit : fitsRow schema row = true) :
    decodeIndexedRow schema encoded = .ok (storedRow .indexed schema row) ↔ encoded.length ≤ maxRowBytes := by
  constructor
  · intro hdecode
    by_contra hgt
    exact decodeRow_of_length_gt (by omega) _ hdecode
  · exact decodeRow_encodeRow (fun _ _ => roundTrips _ _) h hfit
/-- A CHAR(4) column beside the sample columns. -/
def paddedSchema : Schema where
  columns := fieldColumn { name := "code", type := { root := .named .char, length := 4 } } :: sampleSchema.columns

def paddedRow : Row := .string [103, 111] :: sampleRow

def paddedIndexed : Bytes :=
  [0x00, 0x05, 0x00, 0x00, 0x00, 0x18, 0x00, 0x00, 0x00, 0x0b, 0x00, 0x00, 0x00, 0x67, 0x6f, 0x00, 0x00,
    0x2a, 0x00, 0x00, 0x00, 0x66, 0x6c, 0x75, 0x73, 0x73, 0x03, 0x00, 0x00, 0x00, 0x02, 0x00, 0x00, 0x00,
    0x01, 0x00, 0x00, 0x00, 0x00, 0x00, 0x00, 0x00, 0xfe, 0xff, 0xff, 0xff, 0x00, 0x00, 0x00, 0x00,
    0x00, 0x02, 0x00, 0x00, 0x00, 0x07, 0x00, 0x00, 0x00, 0x67, 0x6f]

theorem indexedRow_roundTrip_padded :
    encodeIndexedRow paddedSchema paddedRow = .ok paddedIndexed ∧
      decodeIndexedRow paddedSchema paddedIndexed = .ok (storedRow .indexed paddedSchema paddedRow) := by
  have h : encodeIndexedRow paddedSchema paddedRow = .ok paddedIndexed := by decide
  exact ⟨h,(indexedRow_roundTrip paddedSchema paddedRow paddedIndexed h (by decide)).mpr (by decide)⟩

def binarySchema : Schema where
  columns := [fieldColumn { name := "key", type := { root := .named .binary, length := 2 } }]
/-- The BINARY(2) value `01 00` is accepted and comes back as `01`. -/
theorem indexedRow_trailing_zero_lost :
    encodeIndexedRow binarySchema [.bytes [1, 0]] = .ok [0, 1, 0] ∧
      fitsRow binarySchema [.bytes [1, 0]] = true ∧
      decodeIndexedRow binarySchema [0, 1, 0] = .ok [.bytes [1]] ∧
      decodeIndexedRow binarySchema [0, 1, 0] ≠ .ok (storedRow .compacted binarySchema [.bytes [1, 0]]) := by
  have hdecode : decodeIndexedRow binarySchema [0, 1, 0] = .ok [.bytes [1]] := by rfl
  refine ⟨by decide,by decide,hdecode,?_⟩
  rw [hdecode,storedRow,binarySchema,storedColumns,stored_bytes,storedBytes_compacted]
  simp [storedColumns]
end FlussGo
