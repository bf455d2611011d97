import FlussGo.Writer.Create
/-!
# Creating log scanners

A `LogScanner` is the part that never changes after creation and a `ScannerState` what Poll, Wakeup and
Close change.
-/
namespace FlussGo
open List Outcome
inductive ScanOffsetKind where
  | fromOffset
  | fromEarliest
  | fromLatest
  | fromTimestamp
  | unknown (code : Nat)
deriving DecidableEq
/-- The zero time is `none`. -/
structure ScanOffset where
  kind : ScanOffsetKind
  offset : Int := 0
  timestamp : Option Time := none
deriving DecidableEq

def ScanOffset.validate (s : ScanOffset) : Go Unit :=
  match s.kind with
  | .fromOffset =>
    if s.offset < 0 ∨ s.timestamp.isSome then failf .invalidConfig "invalid explicit scan offset" else .ok ()
  | .fromEarliest | .fromLatest =>
    if s.offset ≠ 0 ∨ s.timestamp.isSome then failf .invalidConfig "symbolic scan offset has a value" else .ok ()
  | .fromTimestamp =>
    if s.timestamp.isNone ∨ s.offset ≠ 0 then failf .invalidConfig "scan timestamp is required" else .ok ()
  | .unknown code => failf .invalidConfig s!"unknown scan offset kind {code}"
/-- A scan predicate, as what compiling it against a schema does. -/
structure ScanPredicate where
  compile : Schema → Go Unit

structure LogScannerConfig where
  projection : List String := []
  partition : String := ""
  rowLimit : Int := 0
  /-- A nil map is `none`. -/
  stoppingOffsets : Option (IDMap Int) := none
  filter : Option ScanPredicate := none

abbrev LogScannerOption := LogScannerConfig → Go LogScannerConfig

def withScanProjection (columns : List String) : LogScannerOption := fun config =>
  if columns.isEmpty then failf .invalidConfig "projection is empty" else .ok { config with projection := columns }

def withScanFilter (predicate : ScanPredicate) : LogScannerOption := fun config =>
  .ok { config with filter := some predicate }

def withScanPartition (partition : String) : LogScannerOption := fun config => do
  (PhysicalTablePath.mk ⟨"d","t"⟩ partition).validate
  return { config with partition := partition }

def withScanPartitionSpec (schema : Schema) (spec : PartitionSpec) : LogScannerOption := fun config => do
  let partition ← schema.partitionName spec
  return { config with partition := partition }

def withScanRowLimit (limit : Int) : LogScannerOption := fun config =>
  if limit ≤ 0 then failf .invalidConfig "scan row limit must be positive" else .ok { config with rowLimit := limit }

def withScanStoppingOffsets (offsets : IDMap Int) : LogScannerOption := fun config =>
  if offsets.keys.isEmpty then failf .invalidConfig "stopping offsets are empty"
  else
    match offsets.entries.find? fun entry => entry.1 < 0 ∨ entry.2 < 0 with
    | some entry => failf .invalidConfig s!"invalid stopping offset for bucket {entry.1}"
    | none => .ok { config with stoppingOffsets := some offsets }

/-- The options of the package that `newLogScanner` and Poll depend on. -/
inductive LogScannerOption.Offered : LogScannerOption → Prop
  | projection (columns : List String) : Offered (withScanProjection columns)
  | filter (predicate : ScanPredicate) : Offered (withScanFilter predicate)
  | partition (name : String) : Offered (withScanPartition name)
  | partitionSpec (schema : Schema) (spec : PartitionSpec) : Offered (withScanPartitionSpec schema spec)
  | rowLimit (limit : Int) : Offered (withScanRowLimit limit)
  | stoppingOffsets (offsets : IDMap Int) : Offered (withScanStoppingOffsets offsets)
/-- A row limit of zero is none. -/
structure LogScannerConfig.Valid (config : LogScannerConfig) : Prop where
  rowLimit : 0 ≤ config.rowLimit
  stopping : ∀ stops, config.stoppingOffsets = some stops → ∀ entry ∈ stops.entries, 0 ≤ entry.1 ∧ 0 ≤ entry.2

theorem LogScannerOption.Offered.keeps_valid {option : LogScannerOption} (ho : Offered option)
    {config config' : LogScannerConfig} (hv : config.Valid) (h : option config = .ok config') : config'.Valid := by
  cases ho with
  | projection columns =>
    unfold withScanProjection at h
    have h := (of_guard h).2
    exact ok.inj h ▸ { hv with }
  | filter predicate => exact ok.inj h ▸ { hv with }
  | partition name =>
    obtain ⟨_,h⟩ := of_seq h
    exact ok.inj h ▸ { hv with }
  | partitionSpec schema spec =>
    obtain ⟨_,_,h⟩ := of_bind h
    exact ok.inj h ▸ { hv with }
  | rowLimit limit =>
    unfold withScanRowLimit at h
    split at h
    · simp at h
    · exact ok.inj h ▸ { hv with rowLimit := by dsimp only; omega }
  | stoppingOffsets offsets =>
    unfold withScanStoppingOffsets at h
    have h := (of_guard h).2
    split at h
    · simp at h
    rename_i hf
    cases h
    refine { hv with stopping := ?_ }
    rintro stops hs entry he
    cases hs
    simpa [not_or] using find?_eq_none.mp hf entry he

def scannerConfig (options : List (Option LogScannerOption)) : Go LogScannerConfig :=
  applyOptions "log scanner" options {}

variable {options : List (Option LogScannerOption)}

theorem scannerConfig_valid {config : LogScannerConfig}
    (ho : ∀ option, some option ∈ options → LogScannerOption.Offered option) (h : scannerConfig options = .ok config) :
    config.Valid :=
  applyOptions_invariant (fun option hmem _ _ hv hop => (ho option hmem).keeps_valid hv hop) ⟨le_refl _,by simp⟩ h
/-- What `newLogScanner` calls; `dynamic` says that the backend resolves schemas by ID. -/
structure ScannerBackend where
  metadata : PhysicalTablePath → Go (Int × IDMap ServerNode)
  listOffset : PhysicalTablePath → Int → ScanOffset → Go Int
  dynamic : Bool

structure LogScanner where
  table : Table
  path : PhysicalTablePath
  config : LogScannerConfig
  partitionID : Int
  buckets : List Int
  schema : Schema
  projection : List Nat
  compacted : Bool
  dynamic : Bool

structure ScannerState where
  offset : IDMap Int
  delivered : Int := 0
  done : Bool := false
  closed : Bool := false
  wakePending : Bool := false

def validateFilterLogFormat (table : Table) : Go Unit :=
  let format := logFormatProperty table
  if format = "" ∨ equalFold format LogFormat.arrow.text then .ok ()
  else failf .invalidConfig s!"scan filters require table.log.format=ARROW, table {table.path.text} uses {format}"

def scannerFilter (table : Table) (config : LogScannerConfig) : Go Unit :=
  match config.filter with
  | none => .ok ()
  | some predicate => do
    validateFilterLogFormat table
    predicate.compile table.schema
/-- The column loop of `projectSchema`; `seen` are the names before. -/
def projectColumns (schema : Schema) : List String → List String → Go (List Column)
  | [], _ => .ok []
  | name :: names, seen =>
    match schema.columnByName name with
    | none => failf .invalidSchema s!"projected column {name.quote} does not exist"
    | some column =>
      if seen.contains name then failf .invalidSchema s!"duplicate projected column {name.quote}"
      else do
        let columns ← projectColumns schema names (name :: seen)
        return column :: columns

def projectSchema (schema : Schema) (names : List String) : Go Schema := do
  schema.validate
  if names.isEmpty then failf .invalidSchema "projection has no columns"
  else
    let columns ← projectColumns schema names []
    return { columns := columns }
/-- The result schema and the projected positions. -/
def configureProjection (table : Table) (compacted : Bool) (projection : List String) : Go (Schema × List Nat) :=
  if projection.isEmpty then .ok (table.schema, [])
  else if compacted = false then failf .invalidConfig "indexed log format does not support projection"
  else do
    let schema ← projectSchema table.schema projection
    return (schema, projection.map fun name => table.schema.columns.findIdx (·.name = name))

def resolveOffset (backend : ScannerBackend) (path : PhysicalTablePath) (bucket : Int) (start : ScanOffset) : Go Int :=
  if start.kind = .fromOffset then .ok start.offset else backend.listOffset path bucket start

def initializeOffsets (backend : ScannerBackend) (path : PhysicalTablePath) (start : ScanOffset) :
    List Int → IDMap Int → Go (IDMap Int)
  | [], offsets => .ok offsets
  | bucket :: buckets, offsets => do
    let offset ← (resolveOffset backend path bucket start).mapErr (GoError.wrap s!"fgo: initialize bucket {bucket}: ")
    initializeOffsets backend path start buckets (offsets.insert bucket offset)

def validateStoppingOffsets (config : LogScannerConfig) (buckets : List Int) : Go Unit :=
  match config.stoppingOffsets with
  | none => .ok ()
  | some stops =>
    match buckets.find? (· ∉ stops) with
    | some bucket => failf .invalidConfig s!"stopping offset omitted bucket {bucket}"
    | none =>
      match stops.keys.find? (!buckets.contains ·) with
      | some bucket => failf .invalidConfig s!"stopping offset has unknown bucket {bucket}"
      | none => .ok ()
/-- `updateDoneLocked`: the row limit is used up, or every subscribed bucket has reached its stopping offset. -/
def ScannerState.updateDone (config : LogScannerConfig) (s : ScannerState) : ScannerState :=
  let limited : Bool := decide (0 < config.rowLimit ∧ config.rowLimit ≤ s.delivered)
  let stopped : Bool :=
    match config.stoppingOffsets with
    | none => false
    | some stops => !s.offset.keys.isEmpty && s.offset.entries.all fun entry =>
        match stops.lookup entry.1 with
        | some stop => decide (stop ≤ entry.2)
        | none => false
  { s with done := limited || stopped }
/-- The row encoding that a scanner decodes the log of a table with. -/
def scannerCompacted (table : Table) : Bool := !equalFold (logFormatProperty table) LogFormat.indexed.text

def newLogScanner (backend : ScannerBackend) (table : Table) (start : ScanOffset)
    (options : List (Option LogScannerOption)) : Go (LogScanner × ScannerState) := do
  table.schema.validate
  start.validate
  let config ← scannerConfig options
  scannerFilter table config
  let path : PhysicalTablePath := ⟨table.path,config.partition⟩
  let (physicalID, buckets) ← componentBuckets backend.metadata path table
  let (schema, projection) ← configureProjection table (scannerCompacted table) config.projection
  let offset ← initializeOffsets backend path start buckets ∅
  validateStoppingOffsets config buckets
  let scanner : LogScanner := {
    table := table, path := path, config := config
    partitionID := if path.partition = "" then -1 else physicalID
    buckets := buckets, schema := schema, projection := projection, compacted := scannerCompacted table
    dynamic := backend.dynamic }
  return (scanner, ({ offset := offset } : ScannerState).updateDone config)

variable {backend : ScannerBackend} {start : ScanOffset} {table : Table}

private theorem initializeOffsets_mem {path : PhysicalTablePath} {buckets : List Int} {offsets offsets' : IDMap Int}
    (h : initializeOffsets backend path start buckets offsets = .ok offsets') (bucket : Int) :
    bucket ∈ offsets' ↔ bucket ∈ offsets ∨ bucket ∈ buckets := by
  induction buckets generalizing offsets with
  | nil =>
    cases h
    simp
  | cons b buckets ih =>
    obtain ⟨offset,_,h⟩ := of_bind h
    rw [ih h,AList.mem_insert,mem_cons,or_assoc,or_left_comm]

private theorem projectColumns_mem {schema : Schema} {names seen : List String} {columns : List Column}
    (h : projectColumns schema names seen = .ok columns) : ∀ name ∈ names, (schema.columnByName name).isSome := by
  induction names generalizing seen columns with
  | nil => simp
  | cons name names ih =>
    rw [projectColumns] at h
    split at h
    · simp at h
    rename_i column hc
    have h := (of_guard h).2
    obtain ⟨rest,hr,_⟩ := of_bind h
    intro name' hn'
    rcases mem_cons.mp hn' with rfl | hn'
    · rw [hc]
      rfl
    · exact ih hr name' hn'

theorem configureProjection_lt {compacted : Bool} {names : List String} {schema : Schema} {projection : List Nat}
    (h : configureProjection table compacted names = .ok (schema, projection)) :
    ∀ i ∈ projection, i < table.schema.columns.length := by
  unfold configureProjection at h
  split at h
  · cases h
    simp
  have h := (of_guard h).2
  obtain ⟨projected,hp,h⟩ := of_bind h
  cases h
  obtain ⟨_,hp⟩ := of_seq hp
  have hp := (of_guard hp).2
  obtain ⟨columns,hco,_⟩ := of_bind hp
  intro i hi
  obtain ⟨name,hn,rfl⟩ := mem_map.mp hi
  obtain ⟨column,hc⟩ := Option.isSome_iff_exists.mp (projectColumns_mem hco name hn)
  rw [findIdx_lt_length]
  exact ⟨column,mem_of_find?_eq_some hc,by simpa using find?_some hc⟩

theorem validateStoppingOffsets_mem {config : LogScannerConfig} {buckets : List Int}
    (h : validateStoppingOffsets config buckets = .ok ()) {stops : IDMap Int} (hs : config.stoppingOffsets = some stops) :
    ∀ bucket ∈ buckets, bucket ∈ stops := by
  unfold validateStoppingOffsets at h
  rw [hs] at h
  dsimp only at h
  split at h
  · simp at h
  next hf =>
    intro bucket hb
    simpa using find?_eq_none.mp hf bucket hb
/-- What Poll relies on after the creation. -/
structure Created (s : LogScanner) (created : ScannerState) : Prop where
  nodup : s.buckets.Nodup
  subscribed : s.buckets ≠ []
  keys : ∀ bucket, bucket ∈ created.offset ↔ bucket ∈ s.buckets
  covered : ∀ stops, s.config.stoppingOffsets = some stops → ∀ bucket ∈ s.buckets, bucket ∈ stops
  projection : ∀ i ∈ s.projection, i < s.table.schema.columns.length
  delivered : created.delivered = 0
  closed : created.closed = false
  done : created.updateDone s.config = created

theorem newLogScanner_eq_ok {s : LogScanner} {created : ScannerState}
    (h : newLogScanner backend table start options = .ok (s, created)) : s.path = ⟨table.path,s.config.partition⟩ ∧
      (∃ physicalID, componentBuckets backend.metadata s.path table = .ok (physicalID, s.buckets)) ∧
      Created s created ∧ created.wakePending = false := by
  unfold newLogScanner at h
  obtain ⟨_,h⟩ := of_seq h
  obtain ⟨_,h⟩ := of_seq h
  obtain ⟨config,_,h⟩ := of_bind h
  obtain ⟨_,h⟩ := of_seq h
  obtain ⟨⟨physicalID,buckets⟩,hb,h⟩ := of_bind h
  obtain ⟨⟨schema,projection⟩,hp,h⟩ := of_bind h
  obtain ⟨offset,ho,h⟩ := of_bind h
  obtain ⟨hs,h⟩ := of_seq h
  cases h
  obtain ⟨hn,hne,_⟩ := componentBuckets_eq_ok hb
  refine ⟨rfl,⟨physicalID,hb⟩,⟨hn,hne,fun bucket => ?_,fun _ hso => validateStoppingOffsets_mem hs hso,
    configureProjection_lt hp,rfl,rfl,rfl⟩,rfl⟩
  simpa [ScannerState.updateDone] using initializeOffsets_mem ho bucket
end FlussGo
