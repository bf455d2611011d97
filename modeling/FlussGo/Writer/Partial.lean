import FlussGo.Writer.Ordering
/-!
# Partial upserts

`PartialUpsert` sends a full row with null placeholders for the columns that were left out. An auto-increment
column is always left out, and the encoder takes no null for it when it is NOT NULL.
-/
namespace FlussGo
open Outcome List Option
section Encode
def encodedLength : Go Bytes → Nat
  | .ok encoded => encoded.length
  | _ => 0
/-- The bytes of the values of a compacted row, each encoded on its own. -/
def valueBytes (columns : List Column) (row : Row) : Nat :=
  ((columns.zip row).map fun p =>
    if p.2.isNil then 0 else encodedLength (encodeRowValue .compacted (logicalTypeForColumn p.1) p.2)).sum

private theorem encodeColumns_isOk {columns : List Column} {row : Row} {i lp : Nat} {encoded : Bytes}
    (hl : row.length = columns.length) (hb : i + columns.length ≤ 8 * encoded.length)
    (he : ∀ p ∈ columns.zip row, p.2 ≠ .nil → (encodeRowValue .compacted (logicalTypeForColumn p.1) p.2).isOk = true)
    (hs : encoded.length + valueBytes columns row ≤ maxRowBytes) :
    (encodeColumns .compacted (encodersOf .compacted columns) row i encoded lp).isOk = true := by
  induction columns generalizing row i encoded with
  | nil => rfl
  | cons column columns ih =>
    cases row with
    | nil => simp at hl
    | cons v row =>
      rw [zip_cons_cons,forall_mem_cons] at he
      rw [valueBytes,zip_cons_cons,map_cons,sum_cons,← valueBytes] at hs
      rw [length_cons] at hb
      rw [encodersOf,map_cons,← encodersOf,encodeColumns]
      by_cases hnil : v.isNil = true
      · rw [if_pos hnil,setBit_ok (by omega),bind_ok]
        rw [if_pos hnil] at hs
        exact ih (by simpa using hl) (by rw [withBit_length]; omega) he.2 (by rw [withBit_length]; omega)
      · obtain ⟨value,hv⟩ := isOk_iff.mp (he.1 (fun h => hnil ((Value.isNil_iff v).mpr h)))
        rw [if_neg hnil,hv,encodedLength] at hs
        rw [if_neg hnil,hv,mapErr_ok,bind_ok,putIndexedLength,if_neg (by simp)]
        simp only [pure_eq,bind_ok]
        rw [if_neg (by omega)]
        exact ih (by simpa using hl) (by rw [length_append]; omega) he.2 (by rw [length_append]; omega)

theorem encodeCompactedRow_isOk {schema : Schema} {row : Row} (hv : schema.validateRow row [] = .ok ())
    (he : ∀ p ∈ schema.columns.zip row, p.2 ≠ .nil →
      (encodeRowValue .compacted (logicalTypeForColumn p.1) p.2).isOk = true)
    (hs : rowNullBytes schema + valueBytes schema.columns row ≤ maxRowBytes) :
    (encodeCompactedRow schema row).isOk = true := by
  have hl := ((schema.validateRow_eq_ok row).mp hv).2.length_eq
  rw [encodeCompactedRow,encodeRow,encodeRowWith,hv,bind_ok,← map_prod_left_eq_zip]
  apply encodeColumns_isOk hl.symm _ he
  · rwa [zeros_length]
  · rw [zeros_length,rowHeaderBytes,rowNullBytes]
    omega
end Encode

namespace UpsertWriter
variable {w : UpsertWriter} {columns : List String} {values : Row} {targets : List Int}
/-- What `validatePartial` accepts. -/
structure Selected (w : UpsertWriter) (columns : List String) (values : Row) : Prop where
  schema : w.table.schema.Valid
  nodup : columns.Nodup
  length : columns.length = values.length
  values : ∀ p ∈ columns.zip values, ∃ column, w.table.schema.columnByName p.1 = some column ∧
    validateColumnValue column p.2 = .ok ()
  primaryKey : ∀ name ∈ w.table.schema.primaryKey, name ∈ columns
  autoIncrement : ∀ name ∈ w.table.schema.autoIncrement, name ∉ columns
  omitted : ∀ column ∈ w.table.schema.columns, column.name ∉ columns →
    column.name ∉ w.table.schema.autoIncrement → column.nullable = true

private theorem validateValues_eq_ok {schema : Schema} {names : List String} {row : Row}
    (h : schema.validateValues names row = .ok ()) : ∀ p ∈ names.zip row,
      ∃ column, schema.columnByName p.1 = some column ∧ validateColumnValue column p.2 = .ok () := by
  induction names generalizing row with
  | nil => simp
  | cons name names ih =>
    cases row with
    | nil => simp
    | cons v row =>
      rw [Schema.validateValues] at h
      rw [zip_cons_cons,forall_mem_cons]
      cases hc : schema.columnByName name with
      | none => simp [hc] at h
      | some column =>
        simp only [hc,bind_unit_eq_ok] at h
        exact ⟨⟨column,rfl,h.1⟩,ih h.2⟩

private theorem partialTargets_eq_ok {selected : List String} (h : w.partialTargets selected columns = .ok targets) :
    targets = columns.map (fun name => (w.columnPosition name : Int)) ∧ columns.Nodup ∧
      ∀ name ∈ columns, name ∉ selected := by
  induction columns generalizing selected targets with
  | nil => simp_all [partialTargets]
  | cons name names ih =>
    rw [partialTargets] at h
    obtain ⟨hnew,h⟩ := of_guard h
    obtain ⟨rest,hr,h⟩ := of_bind h
    obtain ⟨rfl,hn,hs⟩ := ih hr
    simp only [mem_cons,not_or] at hs
    refine ⟨(ok.inj h).symm,nodup_cons.mpr ⟨fun hmem => (hs name hmem).1 rfl,hn⟩,?_⟩
    rw [forall_mem_cons]
    exact ⟨by simpa using hnew,fun name hmem => (hs name hmem).2⟩

private theorem validatePartialSelection_eq_ok {selected : List String}
    (h : w.validatePartialSelection selected = .ok ()) : (∀ name ∈ w.table.schema.primaryKey, name ∈ selected) ∧
      (∀ name ∈ w.table.schema.autoIncrement, name ∉ selected) ∧
      ∀ column ∈ w.table.schema.columns, column.name ∉ selected →
        column.name ∉ w.table.schema.autoIncrement → column.nullable = true := by
  unfold validatePartialSelection at h
  dsimp only at h
  split at h
  · simp at h
  rename_i hp
  split at h
  · simp at h
  rename_i ha
  split at h
  · simp at h
  rename_i ho
  have hkey : ∀ name ∈ w.table.schema.primaryKey, name ∈ selected := by simpa using hp
  refine ⟨hkey,by simpa using ha,fun column hc hout hnot => ?_⟩
  by_contra hnullable
  have hn := find?_eq_none.mp ho column hc
  have hk : column.name ∉ w.table.schema.primaryKey := fun hmem => hout (hkey _ hmem)
  simp [hout,hnot,hk,hnullable] at hn

theorem validatePartial_eq_ok (h : w.validatePartial columns values = .ok targets) :
    w.Selected columns values ∧ targets = columns.map fun name => (w.columnPosition name : Int) := by
  unfold validatePartial at h
  obtain ⟨ha,h⟩ := of_guard h
  rw [not_or,not_not] at ha
  obtain ⟨hrow,h⟩ := of_seq h
  obtain ⟨targets',ht,h⟩ := of_bind h
  obtain ⟨hs,h⟩ := of_seq h
  obtain ⟨rfl,hn,_⟩ := partialTargets_eq_ok ht
  obtain ⟨hkey,hau,ho⟩ := validatePartialSelection_eq_ok hs
  obtain ⟨hv,hrow⟩ := of_seq hrow
  have hna : w.table.schema.selectedColumns columns = columns := by
    cases columns with
    | nil => simp at ha
    | cons _ _ => rfl
  rw [hna,if_neg (by simpa using ha.2.symm)] at hrow
  exact ⟨⟨w.table.schema.validate_eq_ok.mp hv,hn,ha.2,validateValues_eq_ok hrow,hkey,hau,ho⟩,
    (ok.inj h).symm⟩

def NullableIncrements (w : UpsertWriter) : Prop :=
  ∀ column ∈ w.table.schema.columns, column.name ∈ w.table.schema.autoIncrement → column.nullable = true
/-- What a partial row is to hold: the given values at their stored resolution, and null elsewhere. -/
structure Placeholder (w : UpsertWriter) (columns : List String) (values row : Row) : Prop where
  length : row.length = w.table.schema.columns.length
  selected : ∀ (i : Nat) column v, w.table.schema.columns[i]? = some column → (column.name, v) ∈ columns.zip values →
    row[i]? = some (stored .compacted true (logicalTypeForColumn column) v)
  omitted : ∀ (i : Nat) column, w.table.schema.columns[i]? = some column → column.name ∉ columns → row[i]? = some .nil

namespace Selected
variable {column : Column} {v : Value} (h : w.Selected columns values)

include h

theorem value_of_mem (hv : (column.name, v) ∈ columns.zip values) :
    valueOf (rowValues columns values) column.name = v :=
  valueOf_of_mem (zip_fst_nodup h.nodup values) hv

theorem value_of_not_mem (hout : column.name ∉ columns) : valueOf (rowValues columns values) column.name = .nil := by
  apply valueOf_of_not_mem
  rwa [rowValues,map_fst_zip h.length.le]

theorem value_exists {name : String} (hn : name ∈ columns) : ∃ v, (name, v) ∈ columns.zip values := by
  obtain ⟨i,hi,rfl⟩ := mem_iff_getElem.mp hn
  have hlt : i < values.length := h.length ▸ hi
  refine ⟨values[i],?_⟩
  rw [← getElem_zip (h := by rw [length_zip]; omega)]
  exact getElem_mem _

theorem value_cases (column : Column) :
    (∃ v, (column.name, v) ∈ columns.zip values ∧ valueOf (rowValues columns values) column.name = v) ∨
      column.name ∉ columns ∧ valueOf (rowValues columns values) column.name = .nil := by
  by_cases hmem : column.name ∈ columns
  · obtain ⟨v,hv⟩ := h.value_exists hmem
    exact .inl ⟨v,hv,h.value_of_mem hv⟩
  · exact .inr ⟨hmem,h.value_of_not_mem hmem⟩

theorem validateRow_fullRow :
    w.table.schema.validateRow (w.fullRow columns values) [] = .ok () ↔ w.NullableIncrements := by
  rw [Schema.validateRow_eq_ok,fullRow,List.forall₂_map_right_iff,List.forall₂_same]
  constructor
  · intro hrow column hc ha
    have hva := hrow.2 column hc
    rw [h.value_of_not_mem (h.autoIncrement _ ha),validateColumnValue_eq_ok] at hva
    exact hva
  · refine fun hn => ⟨h.schema,fun column hc => ?_⟩
    rcases h.value_cases column with ⟨v,hv,hva⟩ | ⟨hout,hva⟩
    · obtain ⟨column',hna,hval⟩ := h.values _ hv
      rw [h.schema.columnByName hc] at hna
      cases hna
      rwa [hva]
    · rw [hva,validateColumnValue_eq_ok]
      by_cases ha : column.name ∈ w.table.schema.autoIncrement
      · exact hn column hc ha
      · exact h.omitted column hc hout ha

theorem targets_eq : List.Forall₂ (fun name (target : Int) => ∃ i : Nat, target = i ∧
    (w.table.schema.columns[i]?).map Column.name = some name) columns
      (columns.map fun name => (w.columnPosition name : Int)) := by
  rw [List.forall₂_map_right_iff,List.forall₂_same]
  intro name hna
  refine ⟨w.columnPosition name,rfl,?_⟩
  obtain ⟨v,hv⟩ := h.value_exists hna
  obtain ⟨column,hc,_⟩ := h.values _ hv
  cases hin : w.table.schema.columns.findIdx? (·.name = name) with
  | none =>
    have hn := findIdx?_eq_none_iff.mp hin column (mem_of_find?_eq_some hc)
    rw [find?_some hc] at hn
    simp at hn
  | some i =>
    obtain ⟨hi,hf,_⟩ := findIdx?_eq_some_iff_getElem.mp hin
    rw [columnPosition,hin,getD_some,getElem?_eq_getElem hi,map_some]
    exact congrArg some (by simpa using hf)
end Selected

private theorem storedColumns_map (f : Column → Value) (columns : List Column) :
    storedColumns .compacted columns (columns.map f) =
      columns.map fun column => stored .compacted true (logicalTypeForColumn column) (f column) := by
  induction columns with
  | nil => rfl
  | cons column columns ih => rw [map_cons,storedColumns,ih,map_cons]

private theorem fitsColumns_map {f : Column → Value} {columns : List Column}
    (h : ∀ column ∈ columns, fits (logicalTypeForColumn column) (f column) = true) :
    fitsColumns columns (columns.map f) = true := by
  induction columns with
  | nil => rfl
  | cons column columns ih =>
    rw [forall_mem_cons] at h
    rw [map_cons,fitsColumns,h.1,ih h.2]
    rfl

namespace Selected
variable (h : w.Selected columns values)

include h

theorem fullRow_encodes (hen : ∀ column ∈ w.table.schema.columns, ∀ v, (column.name, v) ∈ columns.zip values →
      v ≠ .nil → (encodeRowValue .compacted (logicalTypeForColumn column) v).isOk = true)
    (hs : rowNullBytes w.table.schema + valueBytes w.table.schema.columns (w.fullRow columns values) ≤ maxRowBytes) :
    (encodeCompactedRow w.table.schema (w.fullRow columns values)).isOk = true ↔ w.NullableIncrements := by
  rw [← h.validateRow_fullRow]
  constructor
  · intro hok
    obtain ⟨encoded,he⟩ := isOk_iff.mp hok
    rw [encodeCompactedRow,encodeRow,encodeRowWith,bind_unit_eq_ok] at he
    exact he.1
  · refine fun hval => encodeCompactedRow_isOk hval ?_ hs
    rintro ⟨column,v⟩ hp hne
    rw [fullRow,← map_prod_left_eq_zip] at hp
    obtain ⟨column',hc,heq⟩ := mem_map.mp hp
    obtain ⟨rfl,rfl⟩ := Prod.mk.inj heq
    rcases h.value_cases column' with ⟨v,hv,hva⟩ | ⟨_,hva⟩
    · rw [hva] at hne ⊢
      exact hen column' hc v hv hne
    · exact absurd hva hne

theorem fullRow_decodes {encoded : Bytes}
    (he : encodeCompactedRow w.table.schema (w.fullRow columns values) = .ok encoded)
    (hf : ∀ column ∈ w.table.schema.columns, ∀ v, (column.name, v) ∈ columns.zip values →
      fits (logicalTypeForColumn column) v = true) (hs : rowNullBytes w.table.schema ≤ maxRowBytes) :
    ∃ row, decodeCompactedRow w.table.schema encoded = .ok row ∧ w.Placeholder columns values row := by
  have hfit : fitsRow w.table.schema (w.fullRow columns values) = true := by
    apply fitsColumns_map
    intro column hc
    rcases h.value_cases column with ⟨v,hv,hva⟩ | ⟨_,hva⟩
    · rw [hva]
      exact hf column hc v hv
    · rw [hva]
      cases logicalTypeForColumn column
      rfl
  have hmax := (encodeRow_length_le he).mpr (.inl hs)
  refine ⟨_,decodeRow_encodeRow (fun _ _ => roundTrips _ _) he hfit hmax,?_⟩
  rw [storedRow,fullRow,storedColumns_map]
  refine ⟨by rw [length_map],fun i column v hi hv => ?_,fun i column hi hout => ?_⟩
  · rw [getElem?_map,hi,map_some,h.value_of_mem hv]
  · rw [getElem?_map,hi,map_some,h.value_of_not_mem hout,stored_nil]
end Selected

private theorem mutationItem_isOk (values : List (String × Value)) (value : Option Bytes) (targets : List Int)
    (future : Nat) :
    (w.mutationItem values value targets future).isOk = (w.mutationItem values none [] future).isOk := by
  unfold mutationItem
  cases encodePrimaryKey w.table.schema (w.table.schema.primaryKey.map (valueOf values)) with
  | err e => rfl
  | panic p => rfl
  | ok key =>
    simp only [bind_ok]
    cases encodeKeyColumns w.table.schema w.bucketNames (w.bucketNames.map (valueOf values)) with
    | err e => rfl
    | panic p => rfl
    | ok bucketKey =>
      simp only [bind_ok]
      split <;> rfl
end UpsertWriter
/-- The placeholder row of an accepted selection is encoded, and read back with the given values and
nulls, exactly when no auto-increment column is NOT NULL; the targets are the selected columns. -/
theorem partialUpsert_placeholder_iff (w : UpsertWriter) (columns : List String) (values : Row) (targets : List Int)
    (h : w.validatePartial columns values = .ok targets)
    (hencode : ∀ column ∈ w.table.schema.columns, ∀ v, (column.name, v) ∈ columns.zip values → v ≠ .nil →
      (encodeRowValue .compacted (logicalTypeForColumn column) v).isOk = true)
    (hsize : rowNullBytes w.table.schema + valueBytes w.table.schema.columns (w.fullRow columns values) ≤ maxRowBytes) :
    List.Forall₂ (fun name (target : Int) => ∃ i : Nat, target = i ∧
      (w.table.schema.columns[i]?).map Column.name = some name) columns targets ∧
    ((encodeCompactedRow w.table.schema (w.fullRow columns values)).isOk = true ↔ w.NullableIncrements) ∧
    ((∀ column ∈ w.table.schema.columns, ∀ v, (column.name, v) ∈ columns.zip values →
        fits (logicalTypeForColumn column) v = true) →
      ((∃ encoded row, encodeCompactedRow w.table.schema (w.fullRow columns values) = .ok encoded ∧
        decodeCompactedRow w.table.schema encoded = .ok row ∧ w.Placeholder columns values row) ↔
          w.NullableIncrements)) ∧
    ∀ future, (w.mutationItem (UpsertWriter.rowValues columns values) none [] future).isOk = true →
      ((w.partialUpsertItem columns values future).isOk = true ↔ w.NullableIncrements) := by
  obtain ⟨hselected,rfl⟩ := UpsertWriter.validatePartial_eq_ok h
  have hencodes := hselected.fullRow_encodes hencode hsize
  refine ⟨hselected.targets_eq,hencodes,fun hfits => ⟨?_,fun hnullable => ?_⟩,fun future hkey => ?_⟩
  · rintro ⟨encoded,_,hencoded,_⟩
    exact hencodes.mp (isOk_iff.mpr ⟨encoded,hencoded⟩)
  · obtain ⟨encoded,hencoded⟩ := isOk_iff.mp (hencodes.mpr hnullable)
    obtain ⟨row,hdecoded,hrow⟩ := hselected.fullRow_decodes hencoded hfits (by omega)
    exact ⟨encoded,row,hencoded,hdecoded,hrow⟩
  · rw [← hencodes,UpsertWriter.partialUpsertItem,h,bind_ok]
    cases encodeCompactedRow w.table.schema (w.fullRow columns values) with
    | ok encoded => rw [bind_ok,UpsertWriter.mutationItem_isOk,hkey]; simp [Outcome.isOk]
    | err e => rfl
    | panic p => rfl
/-- A writer for numbers that the server gives a serial. -/
def serialWriter (nullable : Bool) : UpsertWriter := { numberKeyWriter with
  table := { numberKeyWriter.table with
    schema := {
      columns := [{ name := "number", type := .int }, { name := "serial", type := .bigInt, nullable := nullable }]
      primaryKey := ["number"], autoIncrement := ["serial"] } } }

theorem serialWriter_created (nullable : Bool) : (serialWriter nullable).Created := by
  refine ⟨numberBackend,(serialWriter nullable).table,[],?_,?_⟩
  · intro option ho
    simp at ho
  · cases nullable <;> rfl

theorem partialUpsert_placeholder_serial : ∃ encoded row,
    encodeCompactedRow (serialWriter true).table.schema ((serialWriter true).fullRow ["number"] [.int32 7]) = .ok encoded ∧
      decodeCompactedRow (serialWriter true).table.schema encoded = .ok row ∧
      (serialWriter true).Placeholder ["number"] [.int32 7] row := by
  have hcolumns : ∀ (P : Column → Value → Prop), P { name := "number", type := .int } (.int32 7) →
      ∀ column ∈ (serialWriter true).table.schema.columns, ∀ v, (column.name, v) ∈ ["number"].zip [.int32 7] →
        P column v := by
    intro P hP column hcolumn v hv
    rcases mem_cons.mp hcolumn with rfl | hcolumn
    · obtain ⟨_,rfl⟩ := Prod.mk.inj (mem_singleton.mp hv)
      exact hP
    · obtain rfl := mem_singleton.mp hcolumn
      exact absurd (Prod.mk.inj (mem_singleton.mp hv)).1 (by decide)
  refine ((partialUpsert_placeholder_iff (serialWriter true) ["number"] [.int32 7] [0] (by decide +kernel)
    (hcolumns (fun column v => v ≠ .nil → _) fun _ => by decide) (by decide +kernel)).2.2.1
      (hcolumns (fun column v => _) (by decide))).mpr ?_
  intro column hcolumn hauto
  rcases mem_cons.mp hcolumn with rfl | hcolumn
  · exact absurd hauto (by decide)
  · exact mem_singleton.mp hcolumn ▸ rfl
/-- No number can be written when its serial is NOT NULL. -/
theorem serial_not_null_rejected : (serialWriter false).Created ∧
    (serialWriter false).validatePartial ["number"] [.int32 7] = .ok [0] ∧
    (encodeRowValue .compacted (logicalTypeForColumn { name := "number", type := .int }) (.int32 7)).isOk = true ∧
    (encodeCompactedRow (serialWriter false).table.schema
      ((serialWriter false).fullRow ["number"] [.int32 7])).isErr = true :=
  ⟨serialWriter_created false,by decide +kernel,by decide,by decide +kernel⟩
end FlussGo
