import FlussGo.Row.Codec
/-!
# Values at their stored resolution

`stored` says what an encoding keeps of a value: temporal values at their stored precision, maps as
ordered entries, and everything else unchanged, except that a CHAR or BINARY column of declared
length loses its trailing zero bytes in an indexed row.
-/
namespace FlussGo
open List Prod
/-- CHAR and BINARY columns that an indexed row pads with zeros. -/
def padded (encoding : RowEncoding) (inRow : Bool) (root : Root) (length : Int) : Bool :=
  inRow && encoding == .indexed && (dataTypeOfRoot root == .char || dataTypeOfRoot root == .binary) &&
    decide (0 < length)

def storedBytes (encoding : RowEncoding) (inRow : Bool) (root : Root) (length : Int) (b : Bytes) : Bytes :=
  if padded encoding inRow root length then trimZero b else b

mutual
def stored (encoding : RowEncoding) (inRow : Bool) : LogicalType → Value → Value
  | ⟨root,_,length,precision,_,element,key,value,fields⟩, v =>
    match v with
    | .time x => .time (storedTime (dataTypeOfRoot root) precision x)
    | .string s => .string (storedBytes encoding inRow root length s)
    | .bytes b => .bytes (storedBytes encoding inRow root length b)
    | .array vs => .array (storedElements encoding element vs)
    | .row vs => .row (storedFields encoding fields vs)
    | v =>
      match mapEntries v with
      | some entries =>
        .map ((storedElements encoding key (entries.map fst)).zip
          (storedElements encoding value (entries.map snd)))
      | none => v

def storedElements (encoding : RowEncoding) : Option LogicalType → List Value → List Value
  | none, vs => vs
  | some t, vs => vs.map fun v => stored encoding false t v

def storedFields (encoding : RowEncoding) : List LogicalField → List Value → List Value
  | ⟨_,type,_,_⟩ :: fields, v :: vs => stored encoding true type v :: storedFields encoding fields vs
  | _, vs => vs
end

def storedColumns (encoding : RowEncoding) : List Column → Row → Row
  | column :: columns, v :: row =>
    stored encoding true (logicalTypeForColumn column) v :: storedColumns encoding columns row
  | _, row => row

def storedRow (encoding : RowEncoding) (schema : Schema) (row : Row) : Row :=
  storedColumns encoding schema.columns row

mutual
/-- Every date fits 32-bit epoch days and every timestamp 64-bit milliseconds. -/
def fits : LogicalType → Value → Bool
  | ⟨root,_,_,_,_,element,key,value,fields⟩, v =>
    match v with
    | .time x => decide (TimeFits (dataTypeOfRoot root) x)
    | .array vs => fitsElements element vs
    | .row vs => fitsFields fields vs
    | v =>
      match mapEntries v with
      | some entries => fitsElements key (entries.map fst) && fitsElements value (entries.map snd)
      | none => true

def fitsElements : Option LogicalType → List Value → Bool
  | none, _ => true
  | some t, vs => vs.all fun v => fits t v

def fitsFields : List LogicalField → List Value → Bool
  | ⟨_,type,_,_⟩ :: fields, v :: vs => fits type v && fitsFields fields vs
  | _, _ => true
end

def fitsColumns : List Column → Row → Bool
  | column :: columns, v :: row => fits (logicalTypeForColumn column) v && fitsColumns columns row
  | _, _ => true

def fitsRow (schema : Schema) (row : Row) : Bool := fitsColumns schema.columns row

theorem storedFields_eq (encoding : RowEncoding) (fields : List LogicalField) (vs : List Value) :
    storedFields encoding fields vs = storedColumns encoding (fields.map fieldColumn) vs := by
  induction fields generalizing vs with
  | nil => cases vs <;> rfl
  | cons f fields ih =>
    cases f
    cases vs with
    | nil => rfl
    | cons v vs =>
      rw [storedFields,ih]
      rfl

theorem fitsFields_eq (fields : List LogicalField) (vs : List Value) :
    fitsFields fields vs = fitsColumns (fields.map fieldColumn) vs := by
  induction fields generalizing vs with
  | nil => cases vs <;> rfl
  | cons f fields ih =>
    cases f
    cases vs with
    | nil => rfl
    | cons v vs =>
      rw [fitsFields,ih]
      rfl

section Constructors
variable (encoding : RowEncoding) (inRow : Bool) (t : LogicalType)

@[simp] theorem stored_scalar : (∀ b, stored encoding inRow t (.bool b) = .bool b) ∧
    (∀ x, stored encoding inRow t (.int8 x) = .int8 x) ∧ (∀ x, stored encoding inRow t (.int16 x) = .int16 x) ∧
    (∀ x, stored encoding inRow t (.int32 x) = .int32 x) ∧ (∀ x, stored encoding inRow t (.int64 x) = .int64 x) ∧
    (∀ x, stored encoding inRow t (.float32 x) = .float32 x) ∧ ∀ x, stored encoding inRow t (.float64 x) = .float64 x := by
  cases t
  exact ⟨fun _ => rfl,fun _ => rfl,fun _ => rfl,fun _ => rfl,fun _ => rfl,fun _ => rfl,fun _ => rfl⟩

@[simp] theorem stored_rat (r : Option Rat) : stored encoding inRow t (.rat r) = .rat r := by
  cases t
  rfl

@[simp] theorem stored_nil : stored encoding inRow t .nil = .nil := by
  cases t
  rfl

@[simp] theorem stored_time (x : Time) :
    stored encoding inRow t (.time x) = .time (storedTime (dataTypeForLogicalType t) t.precision x) := by
  cases t
  rfl

@[simp] theorem stored_string (s : Bytes) :
    stored encoding inRow t (.string s) = .string (storedBytes encoding inRow t.root t.length s) := by
  cases t
  rfl

@[simp] theorem stored_bytes (b : Bytes) :
    stored encoding inRow t (.bytes b) = .bytes (storedBytes encoding inRow t.root t.length b) := by
  cases t
  rfl

@[simp] theorem stored_array (vs : List Value) :
    stored encoding inRow t (.array vs) = .array (storedElements encoding t.element vs) := by
  cases t
  rfl

@[simp] theorem stored_row (vs : List Value) :
    stored encoding inRow t (.row vs) = .row (storedFields encoding t.fields vs) := by
  cases t
  rfl

theorem stored_of_mapEntries {v : Value} {entries : List (Value × Value)} (h : mapEntries v = some entries) :
    stored encoding inRow t v = .map ((storedElements encoding t.key (entries.map fst)).zip
      (storedElements encoding t.value (entries.map snd))) := by
  cases t
  cases v <;> simp_all [stored,mapEntries]

theorem fits_time (x : Time) : fits t (.time x) = decide (TimeFits (dataTypeForLogicalType t) x) := by
  cases t
  rfl

theorem fits_array (vs : List Value) : fits t (.array vs) = fitsElements t.element vs := by
  cases t
  rfl

theorem fits_row (vs : List Value) : fits t (.row vs) = fitsFields t.fields vs := by
  cases t
  rfl

theorem fits_of_mapEntries {v : Value} {entries : List (Value × Value)} (h : mapEntries v = some entries) :
    fits t v = (fitsElements t.key (entries.map fst) && fitsElements t.value (entries.map snd)) := by
  cases t
  cases v <;> simp_all [fits,mapEntries]
end Constructors

section Views
variable (encoding : RowEncoding) (inRow : Bool) (t : LogicalType) (v : Value)

@[simp] theorem stored_isNil : (stored encoding inRow t v).isNil = v.isNil := by
  cases t
  cases v <;> rfl

@[simp] theorem stored_asScalar : (stored encoding inRow t v).asBool = v.asBool ∧
    (stored encoding inRow t v).asInt8 = v.asInt8 ∧ (stored encoding inRow t v).asInt16 = v.asInt16 ∧
    (stored encoding inRow t v).asInt32 = v.asInt32 ∧ (stored encoding inRow t v).asInt64 = v.asInt64 ∧
    (stored encoding inRow t v).asFloat32 = v.asFloat32 ∧ (stored encoding inRow t v).asFloat64 = v.asFloat64 ∧
    (stored encoding inRow t v).asRat = v.asRat := by
  cases t
  cases v <;> exact ⟨rfl,rfl,rfl,rfl,rfl,rfl,rfl,rfl⟩

theorem stored_asTime :
    (stored encoding inRow t v).asTime = storedTime (dataTypeForLogicalType t) t.precision <$> v.asTime := by
  cases t
  cases v <;> rfl

theorem stored_asString :
    (stored encoding inRow t v).asString = storedBytes encoding inRow t.root t.length <$> v.asString := by
  cases t
  cases v <;> rfl

theorem stored_asBytes :
    (stored encoding inRow t v).asBytes = storedBytes encoding inRow t.root t.length <$> v.asBytes := by
  cases t
  cases v <;> rfl

theorem stored_asArray : (stored encoding inRow t v).asArray = storedElements encoding t.element <$> v.asArray := by
  cases t
  cases v <;> rfl

theorem stored_asRow : (stored encoding inRow t v).asRow = storedFields encoding t.fields <$> v.asRow := by
  cases t
  cases v <;> rfl

theorem stored_mapEntries : mapEntries (stored encoding inRow t v) = (mapEntries v).map fun entries =>
      (storedElements encoding t.key (entries.map fst)).zip
        (storedElements encoding t.value (entries.map snd)) := by
  cases t
  cases v <;> rfl
end Views

theorem validUntypedValue_stored (encoding : RowEncoding) (inRow : Bool) (t : LogicalType) (v : Value)
    (kind : DataType) : validUntypedValue kind (stored encoding inRow t v) = validUntypedValue kind v := by
  cases t
  cases v <;> cases kind <;> rfl

private theorem validLogicalElements_stored {encoding : RowEncoding} {element : Option LogicalType}
    (h : ∀ e ∈ element, ∀ inRow v, validLogicalValue e (stored encoding inRow e v) = validLogicalValue e v)
    (vs : List Value) :
    validLogicalElements element (storedElements encoding element vs) = validLogicalElements element vs := by
  cases element with
  | none => rfl
  | some e =>
    rw [storedElements,validLogicalElements,validLogicalElements,all_map]
    congr 1
    funext v
    exact h e rfl false v

private theorem validLogicalRow_stored {encoding : RowEncoding} {fields : List LogicalField}
    (h : ∀ f ∈ fields, ∀ inRow v,
      validLogicalValue f.type (stored encoding inRow f.type v) = validLogicalValue f.type v) (vs : List Value) :
    validLogicalRow fields (storedFields encoding fields vs) = validLogicalRow fields vs := by
  induction fields generalizing vs with
  | nil => cases vs <;> rfl
  | cons f fields ih =>
    cases vs with
    | nil => cases f; rfl
    | cons v vs =>
      have hf := h f mem_cons_self true v
      cases f
      rw [storedFields,validLogicalRow,validLogicalRow,hf,ih fun f hf => h f (mem_cons_of_mem _ hf)]

@[simp] theorem storedElements_length (encoding : RowEncoding) (element : Option LogicalType) (vs : List Value) :
    (storedElements encoding element vs).length = vs.length := by
  cases element <;> simp [storedElements]

theorem validLogicalValue_stored (encoding : RowEncoding) (t : LogicalType) : ∀ inRow v,
    validLogicalValue t (stored encoding inRow t v) = validLogicalValue t v := by
  induction t using LogicalType.induction with
  | step t ih =>
    intro inRow v
    have hu := validUntypedValue_stored encoding inRow t v
    have he := stored_mapEntries encoding inRow t v
    rw [validLogicalValue_eq,validLogicalValue_eq,stored_isNil]
    cases dataTypeForLogicalType t with
    | array =>
      cases v with
      | array vs =>
        simp only [stored_array,validLogicalElements_stored ih.element]
      | _ => cases t; rfl
    | map =>
      rw [he]
      cases mapEntries v with
      | none => rfl
      | some entries =>
        simp only [Option.map_some]
        rw [map_fst_zip,map_snd_zip,validLogicalElements_stored ih.key,validLogicalElements_stored ih.value]
        all_goals simp
    | row =>
      cases v with
      | row vs =>
        simp only [stored_row,validLogicalRow_stored ih.fields]
      | _ => cases t; rfl
    | _ => simp only [hu]

theorem storedColumns_length (encoding : RowEncoding) (columns : List Column) (row : Row) :
    (storedColumns encoding columns row).length = row.length := by
  induction columns generalizing row with
  | nil => cases row <;> rfl
  | cons column columns ih =>
    cases row with
    | nil => rfl
    | cons v row => rw [storedColumns,length_cons,ih,length_cons]

theorem validateColumnValue_stored (encoding : RowEncoding) (column : Column) (v : Value) :
    validateColumnValue column (stored encoding true (logicalTypeForColumn column) v) =
      validateColumnValue column v := by
  unfold validateColumnValue
  rw [stored_isNil]
  cases hl : column.logicalType with
  | none => simp only [validUntypedValue_stored]
  | some t =>
    have ht : logicalTypeForColumn column = t := by rw [logicalTypeForColumn,hl]
    simp only [ht,validLogicalValue_stored]

theorem validateRow_storedRow (encoding : RowEncoding) (schema : Schema) (row : Row) :
    schema.validateRow (storedRow encoding schema row) [] = schema.validateRow row [] := by
  have hv : ∀ columns row,
      validateColumnValues columns (storedColumns encoding columns row) = validateColumnValues columns row := by
    intro columns
    induction columns with
    | nil => intro row; cases row <;> rfl
    | cons column columns ih =>
      intro row
      cases row with
      | nil => rfl
      | cons v row =>
        rw [storedColumns,validateColumnValues,validateColumnValues,validateColumnValue_stored,ih]
  rw [schema.validateRow_all,schema.validateRow_all,storedRow,storedColumns_length,hv]

section Reencode
variable {t : LogicalType}

theorem storedBytes_compacted (inRow : Bool) (root : Root) (length : Int) (b : Bytes) :
    storedBytes .compacted inRow root length b = b := by
  simp [storedBytes,padded]

private theorem writeArrayTimestamp_stored {kind : DataType}
    (ht : dataTypeForLogicalType t = kind) (hk : kind = .timestamp ∨ kind = .timestampLTZ) (x : Time)
    (encoded : Bytes) (slot : Nat) :
    writeArrayTimestamp t (storedTime kind t.precision x) encoded slot = writeArrayTimestamp t x encoded slot := by
  simp only [writeArrayTimestamp,ht,timestampParts_storedTime hk]
  split
  · rfl
  · rw [keptNanos,if_pos (by omega)]

private theorem appendCompactedTimestamp_stored {kind : DataType}
    (ht : dataTypeForLogicalType t = kind) (hk : kind = .timestamp ∨ kind = .timestampLTZ) (dst : Bytes) (x : Time) :
    appendCompactedTimestamp dst t (storedTime kind t.precision x) = appendCompactedTimestamp dst t x := by
  simp only [appendCompactedTimestamp,ht,timestampParts_storedTime hk]
  split
  · rw [keptNanos,if_pos ‹_›]
  · rfl

theorem writeArrayElementWith_stored {nested : Value → Go Bytes} {v : Value}
    (hn : nested (stored .compacted false t v) = nested v) :
    writeArrayElementWith nested t (stored .compacted false t v) = writeArrayElementWith nested t v := by
  funext encoded slot
  unfold writeArrayElementWith
  cases hk : dataTypeForLogicalType t with
  | date | time => simp [hk,stored_asTime,temporalInt_storedTime]
  | timestamp | timestampLTZ => simp [hk,stored_asTime,writeArrayTimestamp_stored]
  | string | char => simp only [stored_asString,bind_map_left,storedBytes_compacted]
  | bytes | binary => simp only [stored_asBytes,bind_map_left,storedBytes_compacted]
  | array | map | row => simp only [hn]
  | _ => simp

theorem appendCompactedWith_stored {nested : Value → Go Bytes} {v : Value}
    (hn : nested (stored .compacted true t v) = nested v) (dst : Bytes) :
    appendCompactedWith nested dst t (stored .compacted true t v) = appendCompactedWith nested dst t v := by
  unfold appendCompactedWith
  cases hk : dataTypeForLogicalType t with
  | date | time => simp [hk,stored_asTime,temporalInt_storedTime]
  | timestamp | timestampLTZ => simp [hk,stored_asTime,appendCompactedTimestamp_stored]
  | string | char => simp only [stored_asString,bind_map_left,storedBytes_compacted]
  | bytes | binary => simp only [stored_asBytes,bind_map_left,storedBytes_compacted]
  | array | map | row => simp only [hn]
  | _ => simp
/-- The encoders of nested values do not distinguish a value from what is stored of it. -/
def Reencodes (t : LogicalType) : Prop :=
  ∀ inRow v, encodeNested .compacted t (stored .compacted inRow t v) = encodeNested .compacted t v

private theorem encodeBinaryArray_stored {element : Option LogicalType} (h : ∀ e ∈ element, Reencodes e)
    (vs : List Value) : encodeBinaryArray .compacted element (storedElements .compacted element vs) =
      encodeBinaryArray .compacted element vs := by
  cases element with
  | none => rfl
  | some t =>
    have hl : ∀ base vs i encoded,
        encodeElements t (writeArrayElementWith (encodeNested .compacted t) t) base
            (vs.map fun v => stored .compacted false t v) i encoded =
          encodeElements t (writeArrayElementWith (encodeNested .compacted t) t) base vs i encoded := by
      intro base vs
      induction vs with
      | nil => intro i encoded; rfl
      | cons v vs ih =>
        intro i encoded
        rw [map_cons,encodeElements,encodeElements,stored_isNil,validLogicalValue_stored,
          writeArrayElementWith_stored (h t rfl false v)]
        simp only [ih]
    simp only [encodeBinaryArray,storedElements,encodeBinaryArrayWith,length_map,hl]

private theorem encodeRow_stored {schema : Schema}
    (h : ∀ column ∈ schema.columns, Reencodes (logicalTypeForColumn column)) (row : Row) :
    encodeRow schema (storedRow .compacted schema row) .compacted = encodeRow schema row .compacted := by
  have hl : ∀ columns : List Column, (∀ column ∈ columns, Reencodes (logicalTypeForColumn column)) →
      ∀ row i encoded lengthPosition,
        encodeColumns .compacted (columns.map fun column =>
            (column, encodeRowValue .compacted (logicalTypeForColumn column)))
          (storedColumns .compacted columns row) i encoded lengthPosition =
        encodeColumns .compacted (columns.map fun column =>
            (column, encodeRowValue .compacted (logicalTypeForColumn column))) row i encoded lengthPosition := by
    intro columns
    induction columns with
    | nil => intro _ row i encoded lengthPosition; cases row <;> rfl
    | cons column columns ih =>
      intro hco row i encoded lengthPosition
      cases row with
      | nil => rfl
      | cons v row =>
        have hv : encodeRowValue .compacted (logicalTypeForColumn column)
            (stored .compacted true (logicalTypeForColumn column) v) =
            encodeRowValue .compacted (logicalTypeForColumn column) v :=
          appendCompactedWith_stored (hco column mem_cons_self true v) []
        simp only [storedColumns,map_cons,encodeColumns,stored_isNil,hv,
          ih fun c hc => hco c (mem_cons_of_mem _ hc)]
  simp only [encodeRow,encodeRowWith,validateRow_storedRow,← map_prod_left_eq_zip]
  simp only [storedRow,hl schema.columns h]

theorem reencodes (t : LogicalType) : Reencodes t := by
  induction t using LogicalType.induction with
  | step t ih =>
    intro inRow v
    rw [encodeNested_eq,encodeNested_eq]
    cases dataTypeForLogicalType t with
    | array =>
      rw [stored_asArray,bind_map_left]
      simp only [encodeBinaryArray_stored ih.element]
    | map =>
      rw [encodeBinaryMapWith,encodeBinaryMapWith,stored_mapEntries]
      cases mapEntries v with
      | none => rfl
      | some entries =>
        dsimp only [Option.map_some]
        rw [map_fst_zip (by simp),map_snd_zip (by simp),encodeBinaryArray_stored ih.key,
          encodeBinaryArray_stored ih.value]
    | row =>
      have hco : ∀ column ∈ (nestedSchema t).columns, Reencodes (logicalTypeForColumn column) := by
        intro column hc
        obtain ⟨f,hf,rfl⟩ := mem_map.mp hc
        exact ih.fields f hf
      rw [stored_asRow,bind_map_left]
      simp only [storedFields_eq]
      congr 1
      funext vs
      exact encodeRow_stored hco vs
    | _ => rfl

theorem encodeCompactedRow_storedRow (schema : Schema) (row : Row) :
    encodeCompactedRow schema (storedRow .compacted schema row) = encodeCompactedRow schema row :=
  encodeRow_stored (fun _ _ => reencodes _) row
end Reencode
end FlussGo
