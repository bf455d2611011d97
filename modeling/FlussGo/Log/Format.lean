import FlussGo.Log.BatchRoundTrip
import FlussGo.Scanner.Create
import FlussGo.Writer.Append
/-!
# Writer and scanner formats

The `Format` option of an append writer and the table property `table.log.format` of a scanner choose the
row encoding. Rows come back when the two agree.
-/
namespace FlussGo
open List
section Plain
mutual
/-- No CHAR or BINARY stands in the type, at any depth. -/
def plain : LogicalType → Bool
  | ⟨root,_,_,_,_,element,key,value,fields⟩ =>
    dataTypeOfRoot root != .char && dataTypeOfRoot root != .binary && plainOption element && plainOption key &&
      plainOption value && plainFields fields

def plainOption : Option LogicalType → Bool
  | none => true
  | some t => plain t

def plainFields : List LogicalField → Bool
  | [] => true
  | ⟨_,type,_,_⟩ :: fields => plain type && plainFields fields
end

def Schema.plain (schema : Schema) : Bool := schema.columns.all fun column => FlussGo.plain (logicalTypeForColumn column)

private theorem plain_iff (t : LogicalType) :
    plain t = true ↔ dataTypeForLogicalType t ≠ .char ∧ dataTypeForLogicalType t ≠ .binary ∧
      t.ForChildren fun t => plain t = true := by
  have ho : ∀ o, plainOption o = true ↔ ∀ t ∈ o, plain t = true := by
    intro o
    cases o <;> simp [plainOption]
  have hfi : ∀ fields, plainFields fields = true ↔ ∀ f ∈ fields, plain f.type = true := by
    intro fields
    induction fields with
    | nil => simp [plainFields]
    | cons f fields ih =>
      cases f
      simp [plainFields,ih]
  cases t
  simp only [plain,Bool.and_eq_true,bne_iff_ne,ho,hfi,dataTypeForLogicalType]
  constructor
  · rintro ⟨⟨⟨⟨⟨hc,hb⟩,he⟩,hkey⟩,hv⟩,hf⟩
    exact ⟨hc,hb,he,hkey,hv,hf⟩
  · rintro ⟨hc,hb,he,hkey,hv,hf⟩
    exact ⟨⟨⟨⟨⟨hc,hb⟩,he⟩,hkey⟩,hv⟩,hf⟩

private theorem storedColumns_plain {columns : List Column} (h : ∀ column ∈ columns, ∀ v,
      stored .indexed true (logicalTypeForColumn column) v = stored .compacted true (logicalTypeForColumn column) v)
    (row : Row) : storedColumns .indexed columns row = storedColumns .compacted columns row := by
  induction columns generalizing row with
  | nil => rfl
  | cons column columns ih =>
    cases row with
    | nil => rfl
    | cons v row =>
      rw [storedColumns,storedColumns,h column mem_cons_self,ih fun c hc => h c (mem_cons_of_mem _ hc)]

private theorem stored_plain (t : LogicalType) (h : plain t = true) :
    ∀ inRow v, stored .indexed inRow t v = stored .compacted inRow t v := by
  induction t using LogicalType.induction with
  | step t ih =>
    obtain ⟨hcha,hbi,hch⟩ := (plain_iff t).mp h
    intro inRow v
    have hb : ∀ b, storedBytes .indexed inRow t.root t.length b = storedBytes .compacted inRow t.root t.length b := by
      intro b
      rw [storedBytes_compacted,storedBytes,not_padded ⟨hcha,hbi⟩]
      rfl
    have he : ∀ o : Option LogicalType, (∀ e ∈ o, plain e = true →
        ∀ inRow v, stored .indexed inRow e v = stored .compacted inRow e v) → (∀ e ∈ o, plain e = true) →
        ∀ vs, storedElements .indexed o vs = storedElements .compacted o vs := by
      intro o hih hp vs
      cases o with
      | none => rfl
      | some e =>
        simp only [storedElements]
        exact map_congr_left fun v _ => hih e rfl (hp e rfl) false v
    cases hm : mapEntries v with
    | some entries =>
      rw [stored_of_mapEntries _ _ _ hm,stored_of_mapEntries _ _ _ hm,
        he t.key ih.key hch.key,he t.value ih.value hch.value]
    | none =>
      cases v with
      | string s => rw [stored_string,stored_string,hb]
      | bytes b => rw [stored_bytes,stored_bytes,hb]
      | array vs => rw [stored_array,stored_array,he t.element ih.element hch.element]
      | row vs =>
        rw [stored_row,stored_row,storedFields_eq,storedFields_eq,storedColumns_plain]
        intro column hc v
        obtain ⟨f,hf,rfl⟩ := mem_map.mp hc
        exact ih.fields f hf (hch.fields f hf) true v
      | map | stringMap => simp [mapEntries] at hm
      | _ => cases t; rfl

theorem storedRow_plain {schema : Schema} (h : schema.plain = true) (compacted : Bool) (row : Row) :
    storedRow (rowEncoding compacted) schema row = storedRow .compacted schema row := by
  cases compacted with
  | true => rfl
  | false =>
    refine storedColumns_plain ?_ row
    intro column hc v
    exact stored_plain _ (all_eq_true.mp h column hc) true v
end Plain
/-- The writer's row encoding is the one a scanner of the table expects. -/
def formatsAgree (w : AppendWriter) : Bool := w.config.format.compactedRows == scannerCompacted w.table
/-- A scanner of the table decodes the bytes to the rows, at their stored resolution. -/
def ReadsBack (w : AppendWriter) (rows : List Row) (encoded : Bytes) : Prop :=
  ∃ batch, decodeLogBatchRows w.table.schema encoded (scannerCompacted w.table) = .ok batch ∧
    batch.records.map (·.value) = rows.map (storedRow .compacted w.table.schema)
/-- Batches of accepted rows within the batch size limit come back. -/
def WritesReadable (w : AppendWriter) : Prop :=
  ∀ rows sequence encoded, w.table.schema.plain = true →
    (∀ row ∈ rows, (∃ size, w.append row = .ok size) ∧ fitsRow w.table.schema row = true) →
    w.encodeBatch rows sequence = .ok encoded → (ReadsBack w rows encoded ↔ encoded.length ≤ maxRowBytes)

private theorem writesReadable_of_agree {w : AppendWriter} (ha : formatsAgree w = true) : WritesReadable w := by
  intro rows sequence encoded hp hro h
  rw [AppendWriter.encodeBatch,beq_iff_eq.mp ha] at h
  have hd := decodeLogBatchRows_encodeRows h (by
    intro record hr
    obtain ⟨row,hrow,rfl⟩ := mem_map.mp hr
    exact (hro row hrow).2)
  constructor
  · rintro ⟨batch,hb,_⟩
    by_contra hgt
    exact hd.2 (by omega) _ _ batch hb
  · intro hmax
    refine ⟨_,hd.1 hmax,?_⟩
    rw [storedRecords_values,map_map]
    exact map_congr_left fun row _ => storedRow_plain hp _ row
/-- An INT column and the batches of the row `[1]` in both encodings. -/
def numberSchema : Schema where
  columns := [{ name := "number", type := .int }]

def numberBatch (compacted : Bool) : Bytes :=
  [255, 255, 255, 255, 255, 255, 255, 255] ++
    (if compacted then [43, 0, 0, 0, 0, 0, 0, 0, 0, 0, 0, 0, 0, 83, 54, 6, 151]
      else [46, 0, 0, 0, 0, 0, 0, 0, 0, 0, 0, 0, 0, 182, 52, 150, 218]) ++
    [0, 0, 1, 0, 0, 0, 0, 0, 0, 0, 0, 0, 0, 0, 0, 0, 0, 0, 0, 1, 0, 0, 0] ++
    (if compacted then [3, 0, 0, 0, 0, 0, 1] else [6, 0, 0, 0, 0, 0, 1, 0, 0, 0])
/-- A writer with the given settings for a table of one number. -/
def numberWriter (properties : Option (List (String × String))) (config : AppendWriterConfig) : AppendWriter where
  table := {
    id := 9, schemaID := 0, path := ⟨"shop","numbers"⟩, kind := .log, schema := numberSchema
    properties := properties }
  path := ⟨⟨"shop","numbers"⟩,config.partition⟩
  config := config
  tableID := 9
  partitionID := -1
  writerID := 0
  buckets := [0]

private theorem encodeBatch_numberWriter (properties : Option (List (String × String))) (config : AppendWriterConfig) :
    (numberWriter properties config).encodeBatch [[.int32 1]] 0 = .ok (numberBatch config.format.compactedRows) := by
  rw [AppendWriter.encodeBatch]
  simp only [numberWriter]
  cases config.format.compactedRows <;> decide +kernel

private theorem append_numberWriter (properties : Option (List (String × String))) {config : AppendWriterConfig}
    (h : config.format ≠ .arrow) : (numberWriter properties config).append [.int32 1] = .ok 7 := by
  have hv : numberSchema.validateRow [.int32 1] [] = .ok () := by decide
  have he : encodeCompactedRow numberSchema [.int32 1] = .ok [0, 1] := by decide
  rw [AppendWriter.append,if_neg (show (numberWriter properties config).config.format ≠ .arrow from h)]
  simp only [numberWriter,hv,he,Outcome.bind_ok]
  rfl

private theorem decode_numberBatch (compacted : Bool) (batch : LogBatch) :
    decodeLogBatchRows numberSchema (numberBatch compacted) (!compacted) ≠ .ok batch := by
  have h : (decodeLogBatchRows numberSchema (numberBatch compacted) (!compacted)).isOk = false := by
    cases compacted <;> decide +kernel
  intro hok
  rw [hok] at h
  exact Bool.noConfusion h

private theorem not_indexed_of_arrow {s : String} (h : equalFold s LogFormat.arrow.text = true) :
    equalFold s LogFormat.indexed.text = false := by
  rw [equalFold,beq_iff_eq] at h
  rw [equalFold,h]
  decide

private theorem formatsAgree_arrow {w : AppendWriter} (h : validateAppendWriterFormat w.table w.config = .ok ())
    (ha : w.config.format = .arrow) : formatsAgree w = true := by
  rw [formatsAgree,ha,scannerCompacted,beq_iff_eq]
  change true = _
  unfold validateAppendWriterFormat at h
  split at h
  · simp at h
  obtain ⟨hc,h⟩ := Outcome.of_guard h
  by_cases he : logFormatProperty w.table = ""
  · rw [he]
    decide
  have hf : equalFold (logFormatProperty w.table) LogFormat.arrow.text = true := by
    by_contra hne
    rw [ha] at hc
    exact hc ⟨he,by decide,Bool.eq_false_iff.mpr hne⟩
  rw [not_indexed_of_arrow hf]
  rfl
/-- For a created writer: every writer with its format and a table of the same log format writes
batches that come back, up to the batch size limit, if and only if the formats agree. -/
theorem appendWriter_readable_iff (backend : WriterBackend) (table : Table) (options : List (Option AppendWriterOption))
    (w : AppendWriter) (h : newAppendWriter backend table options = .ok w) :
    (∀ w' : AppendWriter, w'.table.properties = table.properties → w'.config = w.config → WritesReadable w') ↔
      formatsAgree w = true := by
  obtain ⟨htable,_,_,_,hformat,_⟩ := newAppendWriter_eq_ok h
  have hsame : ∀ w' : AppendWriter, w'.table.properties = table.properties → w'.config = w.config →
      formatsAgree w' = formatsAgree w := by
    intro w' hproperties hconfig
    simp only [formatsAgree,scannerCompacted,logFormatProperty,Table.property,hproperties,hconfig,htable]
  constructor
  · intro hall
    by_contra hne
    have harrow : w.config.format ≠ .arrow := fun harrow => hne (formatsAgree_arrow (htable ▸ hformat) harrow)
    have hread := hall (numberWriter table.properties w.config) rfl rfl [[.int32 1]] 0
      (numberBatch w.config.format.compactedRows) (show numberSchema.plain = true by decide)
      (by
        intro row hrow
        obtain rfl := mem_singleton.mp hrow
        exact ⟨⟨7,append_numberWriter _ harrow⟩,show fitsRow numberSchema [.int32 1] = true by decide⟩)
      (encodeBatch_numberWriter table.properties w.config)
    obtain ⟨batch,hbatch,_⟩ := hread.mpr (by cases w.config.format.compactedRows <;> decide)
    have hscanner : scannerCompacted (numberWriter table.properties w.config).table = !w.config.format.compactedRows := by
      rw [← hsame (numberWriter table.properties w.config) rfl rfl,formatsAgree,beq_iff_eq] at hne
      change w.config.format.compactedRows ≠ _ at hne
      revert hne
      cases w.config.format.compactedRows <;> cases scannerCompacted (numberWriter table.properties w.config).table <;> simp
    rw [hscanner] at hbatch
    exact decode_numberBatch _ batch hbatch
  · intro hagree w' hproperties hconfig
    exact writesReadable_of_agree ((hsame w' hproperties hconfig).trans hagree)

def numberBackend : WriterBackend where
  metadata := fun _ => .ok (9, (∅ : IDMap ServerNode).insert 0 ⟨1,"tablet-1:9124",.tabletServer⟩)
  ensurePartition := fun _ _ => .ok ()
  initWriter := fun _ _ => .ok 0

theorem appendWriter_readable_number :
    newAppendWriter numberBackend (numberWriter none {}).table [] = .ok (numberWriter none {}) ∧
      WritesReadable (numberWriter none {}) := by
  have h : newAppendWriter numberBackend (numberWriter none {}).table [] = .ok (numberWriter none {}) := rfl
  exact ⟨h,(appendWriter_readable_iff numberBackend (numberWriter none {}).table [] (numberWriter none {}) h).mpr
    (by decide) (numberWriter none {}) rfl rfl⟩
/-- An auto writer of a table with `table.log.format=INDEXED` and an indexed writer of a table
without that property are created, accept the row `[1]` and send bytes that a scanner of the table
rejects. -/
theorem appendWriter_unreadable_formats :
    let indexed := some [("table.log.format", "INDEXED")]
    let auto : AppendWriterConfig := {}
    let chosen : AppendWriterConfig := { format := .indexed }
    (newAppendWriter numberBackend (numberWriter indexed auto).table []).isOk = true ∧
      (numberWriter indexed auto).append [.int32 1] = .ok 7 ∧
      (numberWriter indexed auto).encodeBatch [[.int32 1]] 0 = .ok (numberBatch true) ∧
      (decodeLogBatchRows numberSchema (numberBatch true) (scannerCompacted (numberWriter indexed auto).table)).isOk =
        false ∧
      (newAppendWriter numberBackend (numberWriter none chosen).table [some (withAppendLogFormat .indexed)]).isOk =
        true ∧
      (numberWriter none chosen).append [.int32 1] = .ok 7 ∧
      (numberWriter none chosen).encodeBatch [[.int32 1]] 0 = .ok (numberBatch false) ∧
      (decodeLogBatchRows numberSchema (numberBatch false) (scannerCompacted (numberWriter none chosen).table)).isOk =
        false := by
  decide +kernel
end FlussGo
