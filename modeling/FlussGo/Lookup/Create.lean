import FlussGo.Writer.Create
/-!
# Creating lookupers
-/
namespace FlussGo
open Outcome
structure LookupConfig where
  maxBatchKeys : Int := 1000
  maxInFlightRequests : Int := 8
  maxQueuedKeys : Int := 10000
  batchTimeout : Int := millisecond
  /-- `RetryPolicy.MaxAttempts`. -/
  maxAttempts : Int := 1
  partition : String := ""
  insertIfNotExists : Bool := false
  requestTimeout : Int := 30 * second
  acks : Int := -1

abbrev LookupOption := LookupConfig → Go LookupConfig

def withLookupBatchLimits (keys inFlightRequests : Int) : LookupOption := fun config =>
  if keys ≤ 0 ∨ inFlightRequests ≤ 0 then failf .invalidConfig "lookup limits must be positive"
  else .ok { config with maxBatchKeys := keys, maxInFlightRequests := inFlightRequests }

def withLookupQueue (keys batchTimeout : Int) : LookupOption := fun config =>
  if keys ≤ 0 ∨ batchTimeout < 0 then failf .invalidConfig "invalid lookup queue settings"
  else .ok { config with maxQueuedKeys := keys, batchTimeout := batchTimeout }

def withLookupRetryPolicy (maxAttempts : Int) : LookupOption := fun config =>
  if maxAttempts < 1 ∨ maxWriterAttempts < maxAttempts then
    failf .invalidConfig s!"lookup retry attempts must be in [1, {maxWriterAttempts}]"
  else .ok { config with maxAttempts := maxAttempts }

def withLookupRequestTimeout (timeout : Int) : LookupOption := fun config =>
  if timeout ≤ 0 ∨ maxInt32 < timeout.tdiv millisecond then failf .invalidConfig "invalid lookup timeout"
  else .ok { config with requestTimeout := timeout }

def withLookupPartition (partition : String) : LookupOption := fun config => do
  (PhysicalTablePath.mk ⟨"d","t"⟩ partition).validate
  return { config with partition := partition }

def withLookupInsertIfNotExists (timeout acks : Int) : LookupOption := fun config =>
  if timeout ≤ 0 ∨ maxInt32 < timeout.tdiv millisecond ∨ (acks ≠ 0 ∧ acks ≠ 1 ∧ acks ≠ -1) then
    failf .invalidConfig "invalid insert-if-not-exists request settings"
  else .ok { config with insertIfNotExists := true, requestTimeout := timeout, acks := acks }
/-- What the options check, and what the defaults satisfy. -/
structure LookupConfig.Valid (config : LookupConfig) : Prop where
  maxBatchKeys : 0 < config.maxBatchKeys
  maxInFlightRequests : 0 < config.maxInFlightRequests
  maxQueuedKeys : 0 < config.maxQueuedKeys
  batchTimeout : 0 ≤ config.batchTimeout
  maxAttempts : 1 ≤ config.maxAttempts
  requestTimeout : 0 < config.requestTimeout

theorem LookupConfig.valid_default : LookupConfig.Valid {} := by constructor <;> decide
/-- The options of the package for a lookuper. -/
inductive LookupOption.Offered : LookupOption → Prop
  | batchLimits (keys inFlightRequests : Int) : Offered (withLookupBatchLimits keys inFlightRequests)
  | queue (keys batchTimeout : Int) : Offered (withLookupQueue keys batchTimeout)
  | retryPolicy (maxAttempts : Int) : Offered (withLookupRetryPolicy maxAttempts)
  | requestTimeout (timeout : Int) : Offered (withLookupRequestTimeout timeout)
  | partition (name : String) : Offered (withLookupPartition name)
  | insertIfNotExists (timeout acks : Int) : Offered (withLookupInsertIfNotExists timeout acks)

theorem LookupOption.Offered.keeps_valid {option : LookupOption} (ho : Offered option) {config config' : LookupConfig}
    (hv : config.Valid) (h : option config = .ok config') : config'.Valid := by
  cases ho with
  | batchLimits keys inFlightRequests =>
    obtain ⟨hg,h⟩ := of_guard h
    cases h
    exact { hv with maxBatchKeys := by dsimp only; omega, maxInFlightRequests := by dsimp only; omega }
  | queue keys batchTimeout =>
    obtain ⟨hg,h⟩ := of_guard h
    cases h
    exact { hv with maxQueuedKeys := by dsimp only; omega, batchTimeout := by dsimp only; omega }
  | retryPolicy maxAttempts =>
    obtain ⟨hg,h⟩ := of_guard h
    cases h
    exact { hv with maxAttempts := by dsimp only; omega }
  | requestTimeout timeout =>
    obtain ⟨hg,h⟩ := of_guard h
    cases h
    exact { hv with requestTimeout := by dsimp only; omega }
  | partition name =>
    obtain ⟨_,h⟩ := of_seq h
    cases h
    exact { hv with }
  | insertIfNotExists timeout acks =>
    obtain ⟨hg,h⟩ := of_guard h
    cases h
    exact { hv with requestTimeout := by dsimp only; omega }

def lookupConfig (options : List (Option LookupOption)) : Go LookupConfig := do
  let config ← applyOptions "lookup" options {}
  if config.insertIfNotExists ∧ 1 < config.maxAttempts then
    failf .invalidConfig "insert-if-not-exists lookup retries are unsafe"
  else return config

theorem lookupConfig_valid {options : List (Option LookupOption)} {config : LookupConfig}
    (ho : ∀ option, some option ∈ options → LookupOption.Offered option) (h : lookupConfig options = .ok config) :
    config.Valid := by
  obtain ⟨config',ha,h⟩ := of_bind h
  have h := (of_guard h).2
  cases h
  exact applyOptions_invariant (P := LookupConfig.Valid)
    (fun option hmem _ _ hv hop => (ho option hmem).keeps_valid hv hop) LookupConfig.valid_default ha

def validateLookupInsertSchema (schema : Schema) (config : LookupConfig) : Go Unit :=
  if config.insertIfNotExists = false then .ok ()
  else
    match schema.columns.find? fun column => !column.nullable && !schema.primaryKey.contains column.name &&
        !schema.autoIncrement.contains column.name with
    | some column => failf .invalidSchema s!"insert-if-not-exists cannot fill required column {column.name.quote}"
    | none => .ok ()

structure Lookuper where
  table : Table
  path : PhysicalTablePath
  config : LookupConfig
  tableID : Int
  partitionID : Int
  buckets : List Int

def newLookuper (metadata : PhysicalTablePath → Go (Int × IDMap ServerNode)) (table : Table)
    (options : List (Option LookupOption)) : Go Lookuper := do
  table.requirePrimaryKey
  table.schema.validate
  let config ← lookupConfig options
  validateLookupInsertSchema table.schema config
  let path : PhysicalTablePath := ⟨table.path,config.partition⟩
  let (physicalID, buckets) ← componentBuckets metadata path table
  return {
    table := table, path := path, config := config, tableID := table.id
    partitionID := if path.partition = "" then -1 else physicalID
    buckets := buckets }

theorem newLookuper_eq_ok {metadata : PhysicalTablePath → Go (Int × IDMap ServerNode)} {table : Table}
    {options : List (Option LookupOption)} {lookuper : Lookuper} (h : newLookuper metadata table options = .ok lookuper) :
    lookuper.path = ⟨table.path,lookuper.config.partition⟩ ∧ lookupConfig options = .ok lookuper.config ∧
      ∃ physicalID, componentBuckets metadata lookuper.path table = .ok (physicalID, lookuper.buckets) := by
  unfold newLookuper at h
  obtain ⟨_,h⟩ := of_seq h
  obtain ⟨_,h⟩ := of_seq h
  obtain ⟨config,hc,h⟩ := of_bind h
  obtain ⟨_,h⟩ := of_seq h
  obtain ⟨⟨physicalID,buckets⟩,hb,h⟩ := of_bind h
  cases h
  exact ⟨rfl,hc,physicalID,hb⟩
/-- The lookupers that `newLookuper` returns for options of the package. -/
def Lookuper.Created (c : Lookuper) : Prop :=
  ∃ metadata table options, (∀ option, some option ∈ options → LookupOption.Offered option) ∧
    newLookuper metadata table options = .ok c

theorem Lookuper.Created.valid {c : Lookuper} (h : c.Created) : c.config.Valid := by
  obtain ⟨metadata,table,options,ho,h⟩ := h
  exact lookupConfig_valid ho (newLookuper_eq_ok h).2.1
end FlussGo
