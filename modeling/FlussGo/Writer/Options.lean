import FlussGo.Log.KVBatch
import FlussGo.Metadata.Response
import FlussGo.Schema.Partition
/-!
# Writer configuration

The configurations of both writers, the options that change them, and the checks each option makes.
Durations are nanoseconds.
-/
namespace FlussGo
open Outcome
def millisecond : Int := 1000000
def second : Int := 1000 * millisecond
def minute : Int := 60 * second

def maxWriterAttempts : Int := 100

structure WriterRetryPolicy where
  maxAttempts : Int
  backoff : Option (Int → Int)
/-- The loop that doubles the delay up to a second. -/
def defaultBackoffFrom : Nat → Int → Int
  | 0, delay => delay
  | n + 1, delay => if delay < second then defaultBackoffFrom n (delay * 2) else delay

def defaultWriterRetryPolicy : WriterRetryPolicy where
  maxAttempts := 1
  backoff := some fun attempt => min (defaultBackoffFrom (attempt - 1).toNat (100 * millisecond)) second

def validateWriterRetryPolicy (policy : WriterRetryPolicy) (acks : Int) : Go Unit :=
  if policy.maxAttempts < 1 ∨ maxWriterAttempts < policy.maxAttempts then
    failf .invalidConfig s!"writer retry attempts must be in [1, {maxWriterAttempts}]"
  else if 1 < policy.maxAttempts ∧ acks ≠ -1 then failf .invalidConfig "writer retries require acks=-1"
  else .ok ()

inductive NoKeyAssigner where
  | sticky
  | roundRobin
  | other (name : String)
deriving DecidableEq

inductive LogFormat where
  | auto
  | arrow
  | indexed
  | compacted
  | other (name : String)
deriving DecidableEq

def LogFormat.text : LogFormat → String
  | .auto => "auto"
  | .arrow => "arrow"
  | .indexed => "indexed"
  | .compacted => "compacted"
  | .other name => name

inductive ArrowCompressionType where
  | none
  | lz4
  | zstd
  | other (code : Int)
deriving DecidableEq
/-- The settings that both writers share. -/
structure BatchConfig where
  maxBatchBytes : Int := 1048576
  maxBatchRecords : Int := 1000
  maxBuffered : Int := 10000
  maxConcurrentRequests : Int := 4
  batchTimeout : Int := 5 * millisecond
  requestTimeout : Int := 30 * second
  acks : Int := -1
  retryPolicy : WriterRetryPolicy := defaultWriterRetryPolicy
  partition : String := ""

structure AppendWriterConfig extends BatchConfig where
  /-- The empty name stands for the default assigner. -/
  noKeyAssigner : NoKeyAssigner := .other ""
  format : LogFormat := .auto
  arrowCompressionType : ArrowCompressionType := .none
  arrowCompressionSet : Bool := false

inductive MergeMode where
  | default
  | overwrite
  | other (code : Int)
deriving DecidableEq

structure UpsertWriterConfig extends BatchConfig where
  backpressureMaxThrottle : Int := second
  mergeMode : MergeMode := .default

section Shared
variable (config : BatchConfig)
/-- `WithAppendBatchLimits` and `WithUpsertBatchLimits`, which differ in the header they leave room for. -/
def withBatchLimits (header : Nat) (kind : String) (bytes records : Int) : Go BatchConfig :=
  if bytes ≤ header ∨ (maxRowBytes : Int) < bytes ∨ records ≤ 0 then
    failf .invalidConfig s!"invalid {kind} batch limits"
  else .ok { config with maxBatchBytes := bytes, maxBatchRecords := records }

def withBuffer (kind : String) (records : Int) : Go BatchConfig :=
  if records ≤ 0 then failf .invalidConfig s!"{kind} buffer must be positive"
  else .ok { config with maxBuffered := records }

def withConcurrency (kind : String) (requests : Int) : Go BatchConfig :=
  if requests < 1 ∨ 64 < requests then failf .invalidConfig s!"{kind} concurrency must be in [1, 64]"
  else .ok { config with maxConcurrentRequests := requests }

def withBatchTimeout (kind : String) (timeout : Int) : Go BatchConfig :=
  if timeout < 0 then failf .invalidConfig s!"negative {kind} batch timeout"
  else .ok { config with batchTimeout := timeout }

def withRequest (kind : String) (timeout acks : Int) : Go BatchConfig :=
  if timeout ≤ 0 ∨ maxInt32 < timeout.tdiv millisecond ∨ (acks ≠ 0 ∧ acks ≠ 1 ∧ acks ≠ -1) then
    failf .invalidConfig s!"invalid {kind} request settings"
  else .ok { config with requestTimeout := timeout, acks := acks }

def withRetryPolicy (policy : WriterRetryPolicy) : Go BatchConfig := .ok { config with retryPolicy := policy }

def withPartition (partition : String) : Go BatchConfig := do
  (PhysicalTablePath.mk ⟨"d","t"⟩ partition).validate
  return { config with partition := partition }

def withPartitionSpec (schema : Schema) (spec : PartitionSpec) : Go BatchConfig := do
  let partition ← schema.partitionName spec
  return { config with partition := partition }
end Shared
/-- A nil option is `none`. -/
abbrev AppendWriterOption := AppendWriterConfig → Go AppendWriterConfig
abbrev UpsertWriterOption := UpsertWriterConfig → Go UpsertWriterConfig
/-- A setting of the shared part as an option of the append writer. -/
def appendOption (set : BatchConfig → Go BatchConfig) : AppendWriterOption := fun config => do
  let shared ← set config.toBatchConfig
  return { config with toBatchConfig := shared }

def upsertOption (set : BatchConfig → Go BatchConfig) : UpsertWriterOption := fun config => do
  let shared ← set config.toBatchConfig
  return { config with toBatchConfig := shared }

def withAppendBatchLimits (bytes records : Int) : AppendWriterOption :=
  appendOption (withBatchLimits · logBatchV0HeaderSize "log" bytes records)
def withAppendBuffer (records : Int) : AppendWriterOption := appendOption (withBuffer · "log" records)
def withAppendConcurrency (requests : Int) : AppendWriterOption := appendOption (withConcurrency · "log" requests)
def withAppendBatchTimeout (timeout : Int) : AppendWriterOption := appendOption (withBatchTimeout · "append" timeout)
def withAppendRequest (timeout acks : Int) : AppendWriterOption := appendOption (withRequest · "log" timeout acks)
def withAppendRetryPolicy (policy : WriterRetryPolicy) : AppendWriterOption := appendOption (withRetryPolicy · policy)
def withAppendPartition (partition : String) : AppendWriterOption := appendOption (withPartition · partition)

def withAppendPartitionSpec (schema : Schema) (spec : PartitionSpec) : AppendWriterOption :=
  appendOption (withPartitionSpec · schema spec)

def withAppendNoKeyAssigner (assigner : NoKeyAssigner) : AppendWriterOption := fun config =>
  match assigner with
  | .other name => failf .invalidConfig s!"unknown no-key assigner {name.quote}"
  | _ => .ok { config with noKeyAssigner := assigner }

def withAppendLogFormat (format : LogFormat) : AppendWriterOption := fun config =>
  match format with
  | .other name => failf .invalidConfig s!"unsupported log write format {name.quote}"
  | _ => .ok { config with format := format }

def withAppendArrowCompression (compression : ArrowCompressionType) : AppendWriterOption := fun config =>
  match compression with
  | .other code => failf .invalidConfig s!"unsupported Arrow compression {code}"
  | _ => .ok { config with arrowCompressionType := compression, arrowCompressionSet := true }

def withUpsertBatchLimits (bytes records : Int) : UpsertWriterOption :=
  upsertOption (withBatchLimits · kvBatchHeaderSize "KV" bytes records)
def withUpsertBuffer (records : Int) : UpsertWriterOption := upsertOption (withBuffer · "KV" records)
def withUpsertConcurrency (requests : Int) : UpsertWriterOption := upsertOption (withConcurrency · "KV" requests)
def withUpsertBatchTimeout (timeout : Int) : UpsertWriterOption := upsertOption (withBatchTimeout · "upsert" timeout)
def withUpsertRequest (timeout acks : Int) : UpsertWriterOption := upsertOption (withRequest · "KV" timeout acks)
def withUpsertRetryPolicy (policy : WriterRetryPolicy) : UpsertWriterOption := upsertOption (withRetryPolicy · policy)
def withUpsertPartition (partition : String) : UpsertWriterOption := upsertOption (withPartition · partition)

def withUpsertPartitionSpec (schema : Schema) (spec : PartitionSpec) : UpsertWriterOption :=
  upsertOption (withPartitionSpec · schema spec)

def withUpsertMergeMode (mode : MergeMode) : UpsertWriterOption := fun config =>
  match mode with
  | .other code => failf .invalidConfig s!"unsupported KV merge mode {code}"
  | _ => .ok { config with mergeMode := mode }

def withUpsertBackpressureMaxThrottle (maximum : Int) : UpsertWriterOption := fun config =>
  if maximum < 0 ∨ minute < maximum then
    failf .invalidConfig "KV backpressure throttle must be between zero and one minute"
  else .ok { config with backpressureMaxThrottle := maximum }
/-- The option loop that all constructors share. -/
def applyOptions {α : Type} (component : String) : List (Option (α → Go α)) → α → Go α
  | [], config => .ok config
  | none :: _, _ => failf .invalidConfig s!"nil {component} option"
  | some option :: options, config => do
    let config ← option config
    applyOptions component options config

theorem applyOptions_invariant {α : Type} {P : α → Prop} {component : String} {options : List (Option (α → Go α))}
    (hk : ∀ option, some option ∈ options → ∀ c c', P c → option c = .ok c' → P c') {config config' : α}
    (hp : P config) (h : applyOptions component options config = .ok config') : P config' := by
  induction options generalizing config with
  | nil =>
    cases h
    exact hp
  | cons o options ih =>
    cases o with
    | none => simp [applyOptions] at h
    | some option =>
      obtain ⟨next,hop,h⟩ := of_bind h
      apply ih (fun o ho => hk o (List.mem_cons_of_mem _ ho)) _ h
      exact hk option List.mem_cons_self config next hp hop

def appendWriterConfig (options : List (Option AppendWriterOption)) : Go AppendWriterConfig := do
  let config ← applyOptions "append writer" options {}
  validateWriterRetryPolicy config.retryPolicy config.acks
  return config

def upsertWriterConfig (options : List (Option UpsertWriterOption)) : Go UpsertWriterConfig := do
  let config ← applyOptions "upsert writer" options {}
  validateWriterRetryPolicy config.retryPolicy config.acks
  return config
/-- What every setting checks of the shared part, and what the defaults satisfy. -/
structure BatchConfig.Valid (config : BatchConfig) : Prop where
  maxBatchBytes : 0 < config.maxBatchBytes
  maxBatchRecords : 0 < config.maxBatchRecords
  maxBuffered : 0 < config.maxBuffered
  maxConcurrentRequests : 1 ≤ config.maxConcurrentRequests
  batchTimeout : 0 ≤ config.batchTimeout
  requestTimeout : 0 < config.requestTimeout
theorem BatchConfig.valid_default : BatchConfig.Valid {} := by constructor <;> decide

/-- A setting of the shared part that keeps it valid. -/
private def Keeps (set : BatchConfig → Go BatchConfig) : Prop :=
  ∀ shared shared', shared.Valid → set shared = .ok shared' → shared'.Valid

section Settings
variable {kind : String}

private theorem withBatchLimits_keeps {header : Nat} {bytes records : Int} :
    Keeps (withBatchLimits · header kind bytes records) := by
  intro shared shared' hv h
  obtain ⟨hg,h⟩ := of_guard h
  cases h
  exact { hv with maxBatchBytes := by dsimp only; omega, maxBatchRecords := by dsimp only; omega }

private theorem withBuffer_keeps {records : Int} : Keeps (withBuffer · kind records) := by
  intro shared shared' hv h
  obtain ⟨hg,h⟩ := of_guard h
  cases h
  exact { hv with maxBuffered := by dsimp only; omega }

private theorem withConcurrency_keeps {requests : Int} : Keeps (withConcurrency · kind requests) := by
  intro shared shared' hv h
  obtain ⟨hg,h⟩ := of_guard h
  cases h
  exact { hv with maxConcurrentRequests := by dsimp only; omega }

private theorem withBatchTimeout_keeps {timeout : Int} : Keeps (withBatchTimeout · kind timeout) := by
  intro shared shared' hv h
  obtain ⟨hg,h⟩ := of_guard h
  cases h
  exact { hv with batchTimeout := by dsimp only; omega }

private theorem withRequest_keeps {timeout acks : Int} : Keeps (withRequest · kind timeout acks) := by
  intro shared shared' hv h
  obtain ⟨hg,h⟩ := of_guard h
  cases h
  exact { hv with requestTimeout := by dsimp only; omega }

private theorem withRetryPolicy_keeps {policy : WriterRetryPolicy} : Keeps (withRetryPolicy · policy) := by
  intro shared shared' hv h
  cases h
  exact { hv with }

private theorem withPartition_keeps {partition : String} : Keeps (withPartition · partition) := by
  intro shared shared' hv h
  obtain ⟨_,h⟩ := of_seq h
  cases h
  exact { hv with }

private theorem withPartitionSpec_keeps {schema : Schema} {spec : PartitionSpec} :
    Keeps (withPartitionSpec · schema spec) := by
  intro shared shared' hv h
  obtain ⟨_,_,h⟩ := of_bind h
  cases h
  exact { hv with }
end Settings
/-- The options of the package for an append writer. -/
inductive AppendWriterOption.Offered : AppendWriterOption → Prop
  | batchLimits (bytes records : Int) : Offered (withAppendBatchLimits bytes records)
  | buffer (records : Int) : Offered (withAppendBuffer records)
  | concurrency (requests : Int) : Offered (withAppendConcurrency requests)
  | batchTimeout (timeout : Int) : Offered (withAppendBatchTimeout timeout)
  | request (timeout acks : Int) : Offered (withAppendRequest timeout acks)
  | retryPolicy (policy : WriterRetryPolicy) : Offered (withAppendRetryPolicy policy)
  | partition (name : String) : Offered (withAppendPartition name)
  | partitionSpec (schema : Schema) (spec : PartitionSpec) : Offered (withAppendPartitionSpec schema spec)
  | noKeyAssigner (assigner : NoKeyAssigner) : Offered (withAppendNoKeyAssigner assigner)
  | logFormat (format : LogFormat) : Offered (withAppendLogFormat format)
  | arrowCompression (compression : ArrowCompressionType) : Offered (withAppendArrowCompression compression)

inductive UpsertWriterOption.Offered : UpsertWriterOption → Prop
  | batchLimits (bytes records : Int) : Offered (withUpsertBatchLimits bytes records)
  | buffer (records : Int) : Offered (withUpsertBuffer records)
  | concurrency (requests : Int) : Offered (withUpsertConcurrency requests)
  | batchTimeout (timeout : Int) : Offered (withUpsertBatchTimeout timeout)
  | request (timeout acks : Int) : Offered (withUpsertRequest timeout acks)
  | retryPolicy (policy : WriterRetryPolicy) : Offered (withUpsertRetryPolicy policy)
  | partition (name : String) : Offered (withUpsertPartition name)
  | partitionSpec (schema : Schema) (spec : PartitionSpec) : Offered (withUpsertPartitionSpec schema spec)
  | mergeMode (mode : MergeMode) : Offered (withUpsertMergeMode mode)
  | backpressureMaxThrottle (maximum : Int) : Offered (withUpsertBackpressureMaxThrottle maximum)

theorem AppendWriterOption.Offered.keeps_valid {option : AppendWriterOption} (ho : Offered option)
    {config config' : AppendWriterConfig} (hv : config.Valid ∧ ∀ code, config.arrowCompressionType ≠ .other code)
    (h : option config = .ok config') : config'.Valid ∧ ∀ code, config'.arrowCompressionType ≠ .other code := by
  have hs : ∀ {set}, Keeps set → appendOption set config = .ok config' →
      config'.Valid ∧ ∀ code, config'.arrowCompressionType ≠ .other code := by
    intro set hk h
    obtain ⟨shared,hs,h⟩ := of_bind h
    cases h
    exact ⟨hk _ _ hv.1 hs,hv.2⟩
  cases ho with
  | batchLimits => exact hs withBatchLimits_keeps h
  | buffer => exact hs withBuffer_keeps h
  | concurrency => exact hs withConcurrency_keeps h
  | batchTimeout => exact hs withBatchTimeout_keeps h
  | request => exact hs withRequest_keeps h
  | retryPolicy => exact hs withRetryPolicy_keeps h
  | partition => exact hs withPartition_keeps h
  | partitionSpec => exact hs withPartitionSpec_keeps h
  | noKeyAssigner assigner =>
    cases assigner with
    | other name => simp [withAppendNoKeyAssigner] at h
    | _ => exact ok.inj h ▸ hv
  | logFormat format =>
    cases format with
    | other name => simp [withAppendLogFormat] at h
    | _ => exact ok.inj h ▸ hv
  | arrowCompression compression =>
    cases compression with
    | other code => simp [withAppendArrowCompression] at h
    | _ => exact ok.inj h ▸ ⟨hv.1,by simp⟩

theorem UpsertWriterOption.Offered.keeps_valid {option : UpsertWriterOption} (ho : Offered option)
    {config config' : UpsertWriterConfig} (hv : config.Valid) (h : option config = .ok config') : config'.Valid := by
  have hs : ∀ {set}, Keeps set → upsertOption set config = .ok config' → config'.Valid := by
    intro set hk h
    obtain ⟨shared,hs,h⟩ := of_bind h
    cases h
    exact hk _ _ hv hs
  cases ho with
  | batchLimits => exact hs withBatchLimits_keeps h
  | buffer => exact hs withBuffer_keeps h
  | concurrency => exact hs withConcurrency_keeps h
  | batchTimeout => exact hs withBatchTimeout_keeps h
  | request => exact hs withRequest_keeps h
  | retryPolicy => exact hs withRetryPolicy_keeps h
  | partition => exact hs withPartition_keeps h
  | partitionSpec => exact hs withPartitionSpec_keeps h
  | mergeMode mode =>
    cases mode with
    | other code => simp [withUpsertMergeMode] at h
    | _ => exact ok.inj h ▸ hv
  | backpressureMaxThrottle maximum =>
    unfold withUpsertBackpressureMaxThrottle at h
    have h := (of_guard h).2
    exact ok.inj h ▸ hv

theorem appendWriterConfig_valid {options : List (Option AppendWriterOption)} {config : AppendWriterConfig}
    (ho : ∀ option, some option ∈ options → AppendWriterOption.Offered option)
    (h : appendWriterConfig options = .ok config) : config.Valid ∧ ∀ code, config.arrowCompressionType ≠ .other code := by
  obtain ⟨config',ha,h⟩ := of_bind h
  obtain ⟨_,h⟩ := of_seq h
  cases h
  exact applyOptions_invariant (fun option hmem _ _ hv hop => (ho option hmem).keeps_valid hv hop)
    ⟨BatchConfig.valid_default,by simp⟩ ha

theorem upsertWriterConfig_valid {options : List (Option UpsertWriterOption)} {config : UpsertWriterConfig}
    (ho : ∀ option, some option ∈ options → UpsertWriterOption.Offered option)
    (h : upsertWriterConfig options = .ok config) : config.Valid := by
  obtain ⟨config',ha,h⟩ := of_bind h
  obtain ⟨_,h⟩ := of_seq h
  cases h
  exact applyOptions_invariant (P := fun c : UpsertWriterConfig => c.Valid)
    (fun option hmem _ _ hv hop => (ho option hmem).keeps_valid hv hop) BatchConfig.valid_default ha
end FlussGo
