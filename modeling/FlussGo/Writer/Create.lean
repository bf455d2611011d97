import FlussGo.Writer.Options
/-!
# Creating writers

`newAppendWriter` and `newUpsertWriter`. The backend is what they call: the metadata of a physical
path, the dynamic partition creator and the writer ID request.
-/
namespace FlussGo
open Outcome
structure WriterBackend where
  metadata : PhysicalTablePath → Go (Int × IDMap ServerNode)
  ensurePartition : PhysicalTablePath → List String → Go Unit
  initWriter : PhysicalTablePath → Int → Go (BitVec 64)

structure AppendWriter where
  table : Table
  path : PhysicalTablePath
  config : AppendWriterConfig
  tableID : Int
  partitionID : Int
  writerID : BitVec 64
  buckets : List Int

structure UpsertWriter where
  table : Table
  path : PhysicalTablePath
  config : UpsertWriterConfig
  tableID : Int
  partitionID : Int
  writerID : BitVec 64
  buckets : List Int

def validateAppendWriterTable (table : Table) : Go Unit := do
  table.requireLog
  table.schema.validate
  if table.schemaID < 0 ∨ maxInt16 < table.schemaID then failf .invalidSchema "schema ID exceeds log batch range"
  else return ()

def logFormatProperty (table : Table) : String := trimSpace (table.property "table.log.format")

def validateAppendWriterFormat (table : Table) (config : AppendWriterConfig) : Go Unit :=
  if config.arrowCompressionSet ∧ config.format ≠ .auto ∧ config.format ≠ .arrow then
    failf .invalidConfig "Arrow compression requires Arrow or auto format"
  else
    let configured := logFormatProperty table
    if configured ≠ "" ∧ config.format ≠ .auto ∧ equalFold configured config.format.text = false then
      failf .invalidConfig s!"writer format {config.format.text} does not match table.log.format {configured}"
    else .ok ()
/-- The ID check of an unpartitioned path and the sorted buckets, which every component starts with. -/
def componentBuckets (metadata : PhysicalTablePath → Go (Int × IDMap ServerNode)) (path : PhysicalTablePath)
    (table : Table) : Go (Int × List Int) := do
  let (physicalID, locations) ← metadata path
  if path.partition = "" ∧ physicalID ≠ table.id then
    failf .metadata s!"metadata table ID {physicalID} does not match opened table {table.id}"
  else
    let buckets ← sortedBuckets locations
    return (physicalID, buckets)
/-- `buckets[0]` of a list that `sortedBuckets` returned. -/
def firstBucket : List Int → Go Int
  | bucket :: _ => .ok bucket
  | [] => .panic .outOfRange

def newAppendWriter (backend : WriterBackend) (table : Table) (options : List (Option AppendWriterOption)) :
    Go AppendWriter := do
  validateAppendWriterTable table
  let config ← appendWriterConfig options
  validateAppendWriterFormat table config
  let path : PhysicalTablePath := ⟨table.path,config.partition⟩
  backend.ensurePartition path table.schema.partitionKey
  let (physicalID, buckets) ← componentBuckets backend.metadata path table
  if table.bucketCount ≠ 0 ∧ table.bucketCount ≠ buckets.length then
    failf .metadata s!"metadata has {buckets.length} of {table.bucketCount} buckets"
  else
    let first ← firstBucket buckets
    let writerID ← backend.initWriter path first
    return {
      table := table, path := path, config := config, tableID := table.id
      partitionID := if path.partition = "" then -1 else physicalID
      writerID := writerID, buckets := buckets }

def validateUpsertWriterTable (table : Table) : Go Unit := do
  table.requirePrimaryKey
  table.schema.validate
  if table.schemaID < 0 ∨ maxInt16 < table.schemaID then failf .invalidSchema "schema ID exceeds KV batch range"
  else if table.schema.primaryKey.isEmpty then failf .invalidSchema "primary-key table has no primary key"
  else
    match table.schema.bucketKey.find? fun name => !table.schema.primaryKey.contains name with
    | some name => failf .invalidSchema s!"bucket key {name.quote} is not part of the primary key"
    | none => return ()

def validateMergeMode (table : Table) (config : UpsertWriterConfig) : Go Unit :=
  if config.mergeMode = .overwrite ∧ table.properties.isSome ∧ trimSpace (table.property "table.merge-engine") = "" then
    failf .invalidConfig s!"KV overwrite requires table {table.path.text} to configure table.merge-engine"
  else .ok ()

def newUpsertWriter (backend : WriterBackend) (table : Table) (options : List (Option UpsertWriterOption)) :
    Go UpsertWriter := do
  validateUpsertWriterTable table
  let config ← upsertWriterConfig options
  validateMergeMode table config
  let path : PhysicalTablePath := ⟨table.path,config.partition⟩
  backend.ensurePartition path table.schema.partitionKey
  let (physicalID, buckets) ← componentBuckets backend.metadata path table
  let first ← firstBucket buckets
  let writerID ← backend.initWriter path first
  return {
    table := table, path := path, config := config, tableID := table.id
    partitionID := if path.partition = "" then -1 else physicalID
    writerID := writerID, buckets := buckets }

variable {w : AppendWriter} {table : Table}

theorem newAppendWriter_eq_ok {backend : WriterBackend} {options : List (Option AppendWriterOption)}
    (h : newAppendWriter backend table options = .ok w) :
    w.table = table ∧ w.path = ⟨table.path,w.config.partition⟩ ∧ validateAppendWriterTable table = .ok () ∧
      appendWriterConfig options = .ok w.config ∧ validateAppendWriterFormat table w.config = .ok () ∧
      (∃ physicalID, componentBuckets backend.metadata w.path table = .ok (physicalID, w.buckets)) ∧
      (table.bucketCount = 0 ∨ table.bucketCount = w.buckets.length) := by
  obtain ⟨ht,h⟩ := of_seq h
  obtain ⟨config,hc,h⟩ := of_bind h
  obtain ⟨hf,h⟩ := of_seq h
  obtain ⟨_,h⟩ := of_seq h
  obtain ⟨⟨physicalID,buckets⟩,hb,h⟩ := of_bind h
  obtain ⟨hco,h⟩ := of_guard h
  obtain ⟨first,_,h⟩ := of_bind h
  obtain ⟨writerID,_,h⟩ := of_bind h
  cases h
  exact ⟨rfl,rfl,ht,hc,hf,⟨physicalID,hb⟩,by dsimp only; omega⟩

theorem newUpsertWriter_eq_ok {backend : WriterBackend} {options : List (Option UpsertWriterOption)}
    {w : UpsertWriter} (h : newUpsertWriter backend table options = .ok w) :
    w.table = table ∧ w.path = ⟨table.path,w.config.partition⟩ ∧ validateUpsertWriterTable table = .ok () ∧
      upsertWriterConfig options = .ok w.config ∧
      ∃ physicalID, componentBuckets backend.metadata w.path table = .ok (physicalID, w.buckets) := by
  obtain ⟨ht,h⟩ := of_seq h
  obtain ⟨config,hc,h⟩ := of_bind h
  obtain ⟨_,h⟩ := of_seq h
  obtain ⟨_,h⟩ := of_seq h
  obtain ⟨⟨physicalID,buckets⟩,hb,h⟩ := of_bind h
  obtain ⟨first,_,h⟩ := of_bind h
  obtain ⟨writerID,_,h⟩ := of_bind h
  cases h
  exact ⟨rfl,rfl,ht,hc,physicalID,hb⟩

theorem componentBuckets_eq_ok {metadata : PhysicalTablePath → Go (Int × IDMap ServerNode)} {path : PhysicalTablePath}
    {physicalID : Int} {buckets : List Int} (h : componentBuckets metadata path table = .ok (physicalID, buckets)) :
    buckets.Nodup ∧ buckets ≠ [] ∧ ∀ b ∈ buckets, 0 ≤ b := by
  obtain ⟨⟨id,locations⟩,_,h⟩ := of_bind h
  have h := (of_guard h).2
  obtain ⟨ids,hs,h⟩ := of_bind h
  cases h
  obtain ⟨_,hlt,hne⟩ := sortedBuckets_eq_ok hs
  exact ⟨hlt.imp fun hab => Int.ne_of_lt hab,hne,sortedBuckets_nonneg hs⟩
/-- The writers that `newAppendWriter` returns for options of the package. -/
def AppendWriter.Created (w : AppendWriter) : Prop :=
  ∃ backend table options, (∀ option, some option ∈ options → AppendWriterOption.Offered option) ∧
    newAppendWriter backend table options = .ok w

def UpsertWriter.Created (w : UpsertWriter) : Prop :=
  ∃ backend table options, (∀ option, some option ∈ options → UpsertWriterOption.Offered option) ∧
    newUpsertWriter backend table options = .ok w

theorem AppendWriter.Created.facts (h : w.Created) : w.buckets.Nodup ∧ w.buckets ≠ [] ∧ w.config.Valid := by
  obtain ⟨backend,table,options,ho,h⟩ := h
  obtain ⟨_,_,_,hc,_,⟨physicalID,hb⟩,_⟩ := newAppendWriter_eq_ok h
  obtain ⟨hn,hne,_⟩ := componentBuckets_eq_ok hb
  exact ⟨hn,hne,(appendWriterConfig_valid ho hc).1⟩

theorem AppendWriter.Created.compression (h : w.Created) : ∀ code, w.config.arrowCompressionType ≠ .other code := by
  obtain ⟨backend,table,options,ho,h⟩ := h
  obtain ⟨_,_,_,hc,_⟩ := newAppendWriter_eq_ok h
  exact (appendWriterConfig_valid ho hc).2

theorem AppendWriter.Created.bucket_nonneg (h : w.Created) : ∀ b ∈ w.buckets, 0 ≤ b := by
  obtain ⟨backend,table,options,_,h⟩ := h
  obtain ⟨_,_,_,_,_,⟨physicalID,hb⟩,_⟩ := newAppendWriter_eq_ok h
  exact (componentBuckets_eq_ok hb).2.2

theorem UpsertWriter.Created.facts {w : UpsertWriter} (h : w.Created) :
    w.buckets.Nodup ∧ w.buckets ≠ [] ∧ w.config.Valid := by
  obtain ⟨backend,table,options,ho,h⟩ := h
  obtain ⟨_,_,_,hc,physicalID,hb⟩ := newUpsertWriter_eq_ok h
  obtain ⟨hn,hne,_⟩ := componentBuckets_eq_ok hb
  exact ⟨hn,hne,upsertWriterConfig_valid ho hc⟩
end FlussGo
