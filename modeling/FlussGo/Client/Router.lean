import FlussGo.Coalesce.Works
import FlussGo.Metadata.Response
/-!
# The metadata router

`Router` of `metadata.go`: routes and refreshes of tables and partitions share their fetches through two
coalescers, and invalidations run beside them. A step is one critical section, the start of a fetch or its
end. Fetches are numbered in the order in which they start.
-/
namespace FlussGo
open Option Function
/-- The fetchers that a router has. -/
structure RouterConfig where
  fetch : Bool := true
  fetchPartition : Bool := true
/-- A table in the cache, with the numbers of the fetches that it and its partitions came from. -/
structure CachedTable where
  table : TableMetadata
  origin : Nat
  origins : String → Nat
/-- Where the work of a shared refresh is. -/
inductive WorkPhase (R : Type) where
  | starting
  /-- The fetch is next. -/
  | checked
  | fetching (fetch : Nat)
  | fetched (fetch : Nat) (result : Except GoError R)
  /-- The work of a partition waits for a refresh of its table. -/
  | awaiting (waiter : Nat)
  | refreshed
  | finished (err : Option GoError)
  | returned
/-- The fetch that the work has started and not yet put in the cache. -/
def WorkPhase.fetch {R : Type} : WorkPhase R → Option Nat
  | .fetching fetch => some fetch
  | .fetched fetch _ => some fetch
  | _ => none

structure TableWork where
  path : TablePath
  force : Bool
  phase : WorkPhase TableMetadata

structure PartitionWork where
  path : PhysicalTablePath
  force : Bool
  phase : WorkPhase PartitionMetadata

inductive RouterCall where
  | route (path : PhysicalTablePath) (bucket : Int)
  | refresh (path : TablePath)
  | refreshPhysical (path : PhysicalTablePath)
deriving DecidableEq

namespace RouterCall
def path : RouterCall → PhysicalTablePath
  | .route path _ => path
  | .refresh path => ⟨path,""⟩
  | .refreshPhysical path => path
/-- The bucket of a route; a refresh has none. -/
def bucket : RouterCall → Option Int
  | .route _ bucket => some bucket
  | _ => none
end RouterCall
/-- How a call ended. A leader carries the number of the fetch that its entry came from. -/
inductive CallResult where
  | leader (node : ServerNode) (count : Int) (origin : Nat)
  | done
  | failed (err : GoError)
deriving DecidableEq

inductive CallPhase where
  | lookup
  | hasTable
  | checkTable
  | joinTable (force : Bool)
  | awaitTable (waiter : Nat)
  | joinPartition
  | awaitPartition (waiter : Nat)
  | lookupRequired
  | returned (result : CallResult)
deriving DecidableEq
/-- The phases that only a call for a partition goes through. -/
def CallPhase.ofPartition : CallPhase → Bool
  | .hasTable => true
  | .checkTable => true
  | .joinPartition => true
  | _ => false

structure CallState where
  call : RouterCall
  /-- The number of fetches that had started when the path was last invalidated before the call. -/
  since : Nat
  phase : CallPhase
deriving DecidableEq

structure Router where
  tables : TablePath → Option CachedTable := fun _ => none
  flights : Coalescer TablePath Unit := newCoalescer _ _
  partitionFlights : Coalescer String Unit := newCoalescer _ _
  /-- The works of both coalescers, by the number of their shared call. -/
  tableWorks : List TableWork := []
  partitionWorks : List PartitionWork := []
  calls : List CallState := []
  /-- What the fetches that have started ask for. -/
  fetches : List PhysicalTablePath := []
  /-- The number of fetches that had started when a path was last invalidated. -/
  invalidated : PhysicalTablePath → Nat := fun _ => 0
  /-- The paths that a work found in the cache or put there, with the fetch that the entry came from. -/
  confirmed : List (PhysicalTablePath × Nat) := []

inductive RouterEvent where
  | begin (call : RouterCall)
  | advance (call : Nat)
  | invalidate (path : TablePath)
  | invalidatePhysical (path : PhysicalTablePath)
  | table (work : Nat)
  | tableAnswer (work : Nat) (result : Except GoError TableMetadata)
  | tableFlight (step : FlightStep)
  | partition (work : Nat)
  | partitionAnswer (work : Nat) (result : Except GoError PartitionMetadata)
  | partitionFlight (step : FlightStep)
/-- The path that an invalidation is for. -/
def RouterEvent.forgets : RouterEvent → Option PhysicalTablePath
  | .invalidate path => some ⟨path,""⟩
  | .invalidatePhysical path => some path
  | _ => none

namespace Router
def setCall (s : Router) (n : Nat) (c : CallState) (phase : CallPhase) : Router :=
  { s with calls := s.calls.set n { c with phase } }

def setTable (s : Router) (id : Nat) (w : TableWork) (phase : WorkPhase TableMetadata) : Router :=
  { s with tableWorks := s.tableWorks.set id { w with phase } }

def setPartition (s : Router) (id : Nat) (w : PartitionWork) (phase : WorkPhase PartitionMetadata) : Router :=
  { s with partitionWorks := s.partitionWorks.set id { w with phase } }

def confirm (s : Router) (path : PhysicalTablePath) (origin : Nat) : Router :=
  { s with confirmed := s.confirmed ++ [(path, origin)] }

def startFetch (s : Router) (path : PhysicalTablePath) : Router := { s with fetches := s.fetches ++ [path] }

def lookupPhysical (s : Router) (path : PhysicalTablePath) (bucket : Int) : Go (Option ServerNode × Int) :=
  match s.tables path.tablePath with
  | none => .ok (none, 0)
  | some t =>
    if path.partition = "" then
      routedBucket path.text bucket t.table.bucketCount t.table.buckets t.table.bucketDetails
    else
      match t.table.partitions.lookup (physicalTableKey path) with
      | none => .ok (none, 0)
      | some p => routedBucket path.text bucket p.bucketCount p.buckets p.bucketDetails
/-- The fetch that the cached entry of a path came from. -/
def origin (s : Router) (path : PhysicalTablePath) : Option Nat := do
  let t ← s.tables path.tablePath
  if path.partition = "" then some t.origin
  else if physicalTableKey path ∈ t.table.partitions then some (t.origins (physicalTableKey path))
  else none
/-- `Do` on the flights of tables; the caller is the last waiter. -/
def enterTable (s : Router) (path : TablePath) (force : Bool) : Router :=
  let flights := s.flights.enter path false
  let tableWorks :=
    if flights.shared.length = s.flights.shared.length then s.tableWorks else s.tableWorks ++ [⟨path,force,.starting⟩]
  { s with flights, tableWorks }

def enterPartition (s : Router) (path : PhysicalTablePath) (force : Bool) : Router :=
  let partitionFlights := s.partitionFlights.enter (physicalTableKey path) false
  let partitionWorks :=
    if partitionFlights.shared.length = s.partitionFlights.shared.length then s.partitionWorks
    else s.partitionWorks ++ [⟨path,force,.starting⟩]
  { s with partitionFlights, partitionWorks }
end Router

def refreshPhase (config : RouterConfig) (path : TablePath) (force : Bool) : CallPhase :=
  if !config.fetch then .returned (.failed (errorf .unknownTable path.text))
  else if force then .joinTable true
  else .checkTable
/-- How `refreshPhysical` goes on behind the validation of its path. -/
def refreshPhysicalPhase (config : RouterConfig) (path : PhysicalTablePath) : CallPhase :=
  if path.partition = "" then refreshPhase config path.tablePath true else .hasTable

def beginPhase (config : RouterConfig) : RouterCall → CallPhase
  | .route path _ =>
    match path.validate with
    | .err err => .returned (.failed err)
    | _ => .lookup
  | .refresh path => refreshPhase config path true
  | .refreshPhysical path =>
    match path.validate with
    | .err err => .returned (.failed err)
    | _ => refreshPhysicalPhase config path

namespace RouterCall
/-- How a call goes on when its refreshes have succeeded. -/
def afterRefresh (call : RouterCall) : CallPhase :=
  if call.bucket.isSome then .lookupRequired else .returned .done

def afterTable (call : RouterCall) : CallPhase :=
  if call.path.partition = "" then call.afterRefresh else .joinPartition
end RouterCall

namespace Router
variable (config : RouterConfig)

def begin (s : Router) (call : RouterCall) : Router :=
  { s with calls := s.calls ++ [{ call, since := s.invalidated call.path, phase := beginPhase config call }] }
/-- The call's turn after `lookupPhysical`; `missing` is what follows when there is no node. -/
def afterLookup (s : Router) (call : RouterCall) (missing : CallPhase) : Option CallPhase := do
  let bucket ← call.bucket
  match s.lookupPhysical call.path bucket with
  | .ok (some node, count) => do
    let origin ← s.origin call.path
    some (.returned (.leader node count origin))
  | .ok (none, _) => some missing
  | .err err => some (.returned (.failed err))
  | .panic _ => none

def advance (s : Router) (n : Nat) : Option Router := do
  let c ← s.calls[n]?
  let path := c.call.path
  match c.phase with
  | .lookup => do
    let phase ← s.afterLookup c.call (refreshPhysicalPhase config path)
    some (s.setCall n c phase)
  | .hasTable =>
    some (s.setCall n c (if (s.tables path.tablePath).isSome then .joinPartition
      else refreshPhase config path.tablePath false))
  | .checkTable =>
    some (s.setCall n c (if (s.tables path.tablePath).isSome then .joinPartition else .joinTable false))
  | .joinTable force =>
    some ((s.enterTable path.tablePath force).setCall n c (.awaitTable s.flights.waiters.length))
  | .awaitTable waiter => do
    let err ← s.flights.result waiter
    match err with
    | some err => some (s.setCall n c (.returned (.failed err)))
    | none => some (s.setCall n c c.call.afterTable)
  | .joinPartition =>
    some ((s.enterPartition path c.call.bucket.isNone).setCall n c (.awaitPartition s.partitionFlights.waiters.length))
  | .awaitPartition waiter => do
    let err ← s.partitionFlights.result waiter
    match err with
    | some err => some (s.setCall n c (.returned (.failed err)))
    | none => some (s.setCall n c c.call.afterRefresh)
  | .lookupRequired => do
    let bucket ← c.call.bucket
    let phase ← s.afterLookup c.call
      (.returned (.failed (errorf .unknownBucket s!"{path.text} bucket {bucket}")))
    some (s.setCall n c phase)
  | .returned _ => none

def invalidate (s : Router) (path : TablePath) : Router :=
  { s with
    tables := update s.tables path none
    invalidated := fun p => if p.tablePath = path then s.fetches.length else s.invalidated p }

def invalidatePhysical (s : Router) (path : PhysicalTablePath) : Router :=
  if path.partition = "" then s.invalidate path.tablePath
  else
    { s with
      tables := update s.tables path.tablePath ((s.tables path.tablePath).map fun t =>
        { t with table := { t.table with partitions := t.table.partitions.erase (physicalTableKey path) } })
      invalidated := update s.invalidated path s.fetches.length }
/-- The critical section in which a fetched table replaces the cached one. -/
def installTable (s : Router) (path : TablePath) (fetch : Nat) (table : TableMetadata) : Router :=
  { s with tables := update s.tables path (some ⟨table,fetch,fun _ => fetch⟩) }

def applyPhysicalMetadata (s : Router) (path : PhysicalTablePath) (t : CachedTable) (fetch : Nat)
    (partition : PartitionMetadata) : Router :=
  { s with
    tables := update s.tables path.tablePath (some
      { t with
        table := { t.table with partitions := t.table.partitions.insert (physicalTableKey path) partition }
        origins := update t.origins (physicalTableKey path) fetch }) }

def tableStep (s : Router) (id : Nat) : Option Router := do
  let w ← s.tableWorks[id]?
  match w.phase with
  | .starting =>
    match if w.force then none else s.tables w.path with
    | some t => some ((s.confirm ⟨w.path,""⟩ t.origin).setTable id w (.finished none))
    | none => some (s.setTable id w .checked)
  | .checked => some ((s.startFetch ⟨w.path,""⟩).setTable id w (.fetching s.fetches.length))
  | .fetched _ (.error err) => some (s.setTable id w (.finished (some err)))
  | .fetched fetch (.ok table) =>
    if table.path ≠ w.path then
      some (s.setTable id w (.finished (some
        (errorf .unknownTable ("refresh returned " ++ table.path.text ++ " for " ++ w.path.text)))))
    else some (((s.installTable w.path fetch table).confirm ⟨w.path,""⟩ fetch).setTable id w (.finished none))
  | .finished err => do
    let flights ← s.flights.workReturns id () err
    some ({ s with flights }.setTable id w .returned)
  | _ => none

def tableAnswer (s : Router) (id : Nat) (result : Except GoError TableMetadata) : Option Router := do
  let w ← s.tableWorks[id]?
  match w.phase with
  | .fetching fetch => some (s.setTable id w (.fetched fetch result))
  | _ => none
/-- The last check of `refreshPhysicalOnce`: the partition is in the cache. -/
def requirePartition (s : Router) (id : Nat) (w : PartitionWork) : Router :=
  match s.origin w.path with
  | some origin => (s.confirm w.path origin).setPartition id w (.finished none)
  | none => s.setPartition id w (.finished (some (errorf .unknownPartition w.path.text)))

def partitionStep (s : Router) (id : Nat) : Option Router := do
  let w ← s.partitionWorks[id]?
  match w.phase with
  | .starting =>
    match if w.force then none else s.origin w.path with
    | some origin => some ((s.confirm w.path origin).setPartition id w (.finished none))
    | none => some (s.setPartition id w .checked)
  | .checked =>
    if config.fetchPartition then
      some ((s.startFetch w.path).setPartition id w (.fetching s.fetches.length))
    else if !config.fetch then
      some (s.setPartition id w (.finished (some (errorf .unknownTable w.path.tablePath.text))))
    else some ((s.enterTable w.path.tablePath true).setPartition id w (.awaiting s.flights.waiters.length))
  | .fetched _ (.error err) => some (s.setPartition id w (.finished (some err)))
  | .fetched fetch (.ok partition) =>
    if physicalTableKey partition.path ≠ physicalTableKey w.path then
      some (s.setPartition id w (.finished (some
        (errorf .unknownPartition ("refresh returned " ++ partition.path.text ++ " for " ++ w.path.text)))))
    else
      match s.tables w.path.tablePath with
      | none => some (s.setPartition id w (.finished (some (errorf .unknownTable w.path.tablePath.text))))
      | some t => some ((s.applyPhysicalMetadata w.path t fetch partition).requirePartition id w)
  | .awaiting waiter => do
    let err ← s.flights.result waiter
    match err with
    | some err => some (s.setPartition id w (.finished (some err)))
    | none => some (s.setPartition id w .refreshed)
  | .refreshed => some (s.requirePartition id w)
  | .finished err => do
    let partitionFlights ← s.partitionFlights.workReturns id () err
    some ({ s with partitionFlights }.setPartition id w .returned)
  | _ => none

def partitionAnswer (s : Router) (id : Nat) (result : Except GoError PartitionMetadata) : Option Router := do
  let w ← s.partitionWorks[id]?
  match w.phase with
  | .fetching fetch => some (s.setPartition id w (.fetched fetch result))
  | _ => none

def tableFlight (s : Router) (e : FlightStep) : Option Router := do
  let flights ← s.flights.step e.event
  some { s with flights }

def partitionFlight (s : Router) (e : FlightStep) : Option Router := do
  let partitionFlights ← s.partitionFlights.step e.event
  some { s with partitionFlights }

def step (s : Router) : RouterEvent → Option Router
  | .begin call => some (s.begin config call)
  | .advance n => s.advance config n
  | .invalidate path => some (s.invalidate path)
  | .invalidatePhysical path => some (s.invalidatePhysical path)
  | .table id => s.tableStep id
  | .tableAnswer id result => s.tableAnswer id result
  | .tableFlight e => s.tableFlight e
  | .partition id => s.partitionStep config id
  | .partitionAnswer id result => s.partitionAnswer id result
  | .partitionFlight e => s.partitionFlight e
end Router
/-- All interleavings of the steps of one router. -/
def routerSystem (config : RouterConfig) : System Router RouterEvent where
  init s := s = {}
  step s e s' := s.step config e = some s'

section Steps
variable {config : RouterConfig} {s s' : Router} {id n : Nat} {c : CallState}

theorem Router.origin_eq_some {path : PhysicalTablePath} {origin : Nat} :
    s.origin path = some origin ↔ ∃ t, s.tables path.tablePath = some t ∧ (path.partition = "" ∧ origin = t.origin ∨
        path.partition ≠ "" ∧ physicalTableKey path ∈ t.table.partitions ∧
          origin = t.origins (physicalTableKey path)) := by
  unfold Router.origin
  cases ht : s.tables path.tablePath with
  | none => simp
  | some t =>
    by_cases hp : path.partition = ""
    · simp [hp,eq_comm]
    · by_cases hmem : physicalTableKey path ∈ t.table.partitions
      · simp [hp,hmem,eq_comm]
      · simp [hp,hmem]
/-- What a call may become in a step that leaves everything else alone. -/
structure CallMoves (s : Router) (c : CallState) (phase : CallPhase) : Prop where
  leader : ∀ node count origin, phase = .returned (.leader node count origin) → s.origin c.call.path = some origin
  done : phase = .returned .done → c.call.bucket = none ∧
    ((∃ waiter, c.phase = .awaitTable waiter ∧ s.flights.result waiter = some none ∧ c.call.path.partition = "") ∨
      ∃ waiter, c.phase = .awaitPartition waiter ∧ s.partitionFlights.result waiter = some none)
  awaits : (∀ waiter, phase ≠ .awaitTable waiter) ∧ ∀ waiter, phase ≠ .awaitPartition waiter
  partition : phase.ofPartition = true → c.phase.ofPartition = true ∨ c.call.path.partition ≠ ""

private theorem CallMoves.of_plain {phase : CallPhase} (hr : ∀ result, phase ≠ .returned result)
    (ha : (∀ waiter, phase ≠ .awaitTable waiter) ∧ ∀ waiter, phase ≠ .awaitPartition waiter)
    (hp : phase.ofPartition = true → c.phase.ofPartition = true ∨ c.call.path.partition ≠ "") : CallMoves s c phase :=
  ⟨fun _ _ _ h => absurd h (hr _),fun h => absurd h (hr _),ha,hp⟩

open CallPhase
private theorem CallMoves.of_failed (err : GoError) : CallMoves s c (.returned (.failed err)) :=
  ⟨by simp,by simp,by simp,by simp [ofPartition]⟩

private theorem refreshPhase_moves {path : TablePath} {force : Bool}
    (hf : force = true ∨ c.phase.ofPartition = true) : CallMoves s c (refreshPhase config path force) := by
  unfold refreshPhase
  split
  · exact .of_failed _
  split
  · exact .of_plain (by simp) (by simp) (by simp [ofPartition])
  next hc => exact .of_plain (by simp) (by simp) fun _ => .inl (hf.resolve_left hc)

private theorem refreshPhysicalPhase_moves (c : CallState) :
    CallMoves s c (refreshPhysicalPhase config c.call.path) := by
  unfold refreshPhysicalPhase
  split
  · exact refreshPhase_moves (.inl rfl)
  next hp => exact .of_plain (by simp) (by simp) fun _ => .inr hp

private theorem afterLookup_moves {missing phase : CallPhase} (hm : CallMoves s c missing)
    (h : s.afterLookup c.call missing = some phase) : CallMoves s c phase := by
  obtain ⟨bucket,hb,h⟩ := bind_eq_some_iff.mp h
  split at h
  · obtain ⟨origin,ho,h⟩ := bind_eq_some_iff.mp h
    cases h
    refine ⟨?_,by simp,by simp,by simp [ofPartition]⟩
    intro node' count' origin' heq
    simp only [returned.injEq,CallResult.leader.injEq] at heq
    rw [← heq.2.2]
    exact ho
  · cases h
    exact hm
  · cases h
    exact .of_failed _
  · simp at h

private theorem afterRefresh_moves (hd : (∃ waiter, c.phase = .awaitTable waiter ∧ s.flights.result waiter = some none ∧
    c.call.path.partition = "") ∨
      ∃ waiter, c.phase = .awaitPartition waiter ∧ s.partitionFlights.result waiter = some none) :
    CallMoves s c c.call.afterRefresh := by
  unfold RouterCall.afterRefresh
  split
  · exact .of_plain (by simp) (by simp) (by simp [ofPartition])
  next hb =>
    exact ⟨by simp,fun _ => ⟨by simpa using hb,hd⟩,by simp,by simp [ofPartition]⟩

theorem beginPhase_plain (config : RouterConfig) (call : RouterCall) :
    (∀ node count origin, beginPhase config call ≠ .returned (.leader node count origin)) ∧
      beginPhase config call ≠ .returned .done ∧
      ((∀ waiter, beginPhase config call ≠ .awaitTable waiter) ∧ ∀ waiter, beginPhase config call ≠ .awaitPartition waiter) ∧
      ((beginPhase config call).ofPartition = true → call.path.partition ≠ "") := by
  have hr : ∀ path, refreshPhase config path true = .joinTable true ∨
      ∃ err, refreshPhase config path true = .returned (.failed err) := by
    intro path
    unfold refreshPhase
    split
    · exact .inr ⟨_,rfl⟩
    · exact .inl rfl
  have hc : beginPhase config call = .lookup ∨ beginPhase config call = .joinTable true ∨
      (∃ err, beginPhase config call = .returned (.failed err)) ∨
      beginPhase config call = .hasTable ∧ call.path.partition ≠ "" := by
    cases call with
    | route path bucket =>
      simp only [beginPhase]
      split
      · exact .inr (.inr (.inl ⟨_,rfl⟩))
      · exact .inl rfl
    | refresh path => exact .inr ((hr path).imp id .inl)
    | refreshPhysical path =>
      simp only [beginPhase,refreshPhysicalPhase]
      split
      · exact .inr (.inr (.inl ⟨_,rfl⟩))
      · split
        · exact .inr ((hr path.tablePath).imp id .inl)
        next hp => exact .inr (.inr (.inr ⟨rfl,hp⟩))
  rcases hc with h | h | ⟨err,h⟩ | ⟨h,hp⟩
  · simp [h,ofPartition]
  · simp [h,ofPartition]
  · simp [h,ofPartition]
  · simp [h,hp]
/-- A phase in which a work has no fetch, waits for nobody and has not succeeded. -/
structure WorkPhase.Idle {R : Type} (phase : WorkPhase R) : Prop where
  fetch : phase.fetch = none
  awaiting : ∀ waiter, phase ≠ .awaiting waiter
  finished : phase ≠ .finished none

open WorkPhase
theorem WorkPhase.idle_failed {R : Type} (err : GoError) : (finished (R := R) (some err)).Idle :=
  ⟨rfl,by simp,by simp⟩

theorem WorkPhase.idle_checked {R : Type} : (checked (R := R)).Idle := ⟨rfl,by simp,by simp⟩

/-- What a work may do with its path alone: the router and its own phase afterwards. -/
inductive WorkMoves {R : Type} (s : Router) (path : PhysicalTablePath) (phase : WorkPhase R) : Router → WorkPhase R → Prop
  | idles {next : WorkPhase R} (h : next.Idle) : WorkMoves s path phase s next
  | finds {origin : Nat} (h : s.origin path = some origin) : WorkMoves s path phase (s.confirm path origin) (.finished none)
  | fetches : WorkMoves s path phase (s.startFetch path) (.fetching s.fetches.length)
  | answered {fetch : Nat} {result : Except GoError R} (h : phase = .fetching fetch) :
      WorkMoves s path phase s (.fetched fetch result)

inductive TableMoves (s : Router) (id : Nat) (w : TableWork) : Router → WorkPhase TableMetadata → Prop
  | works {t : Router} {next : WorkPhase TableMetadata} (h : WorkMoves s ⟨w.path,""⟩ w.phase t next) : TableMoves s id w t next
  | installs {fetch : Nat} {table : TableMetadata} (h : w.phase.fetch = some fetch) :
      TableMoves s id w ((s.installTable w.path fetch table).confirm ⟨w.path,""⟩ fetch) (.finished none)
  | returns {err : Option GoError} {flights : Coalescer TablePath Unit} (hw : w.phase = .finished err)
      (h : s.flights.workReturns id () err = some flights) : TableMoves s id w { s with flights } .returned

inductive PartitionMoves (s : Router) (id : Nat) (w : PartitionWork) : Router → WorkPhase PartitionMetadata → Prop
  | works {t : Router} {next : WorkPhase PartitionMetadata} (h : WorkMoves s w.path w.phase t next) :
      PartitionMoves s id w t next
  | joins : PartitionMoves s id w (s.enterTable w.path.tablePath true) (.awaiting s.flights.waiters.length)
  | applies {fetch : Nat} {partition : PartitionMetadata} {table : CachedTable} {t : Router}
      {next : WorkPhase PartitionMetadata} (hf : w.phase.fetch = some fetch) (ht : s.tables w.path.tablePath = some table)
      (h : WorkMoves (s.applyPhysicalMetadata w.path table fetch partition) w.path w.phase t next) :
      PartitionMoves s id w t next
  | returns {err : Option GoError} {partitionFlights : Coalescer String Unit} (hw : w.phase = .finished err)
      (h : s.partitionFlights.workReturns id () err = some partitionFlights) :
      PartitionMoves s id w { s with partitionFlights } .returned
/-- What a step of the router can do. -/
inductive RouterMoves (config : RouterConfig) (s : Router) (e : RouterEvent) : Router → Prop
  | begins {call : RouterCall} (he : e = .begin call) : RouterMoves config s e (s.begin config call)
  | advances {n : Nat} {c : CallState} {phase : CallPhase} (hc : s.calls[n]? = some c) (hm : CallMoves s c phase) :
      RouterMoves config s e (s.setCall n c phase)
  | joinsTable {n : Nat} {c : CallState} {force : Bool} (hc : s.calls[n]? = some c) : RouterMoves config s e
      ((s.enterTable c.call.path.tablePath force).setCall n c (.awaitTable s.flights.waiters.length))
  | joinsPartition {n : Nat} {c : CallState} (hc : s.calls[n]? = some c) : RouterMoves config s e
      ((s.enterPartition c.call.path c.call.bucket.isNone).setCall n c (.awaitPartition s.partitionFlights.waiters.length))
  | forgets {path : PhysicalTablePath} (he : e.forgets = some path) : RouterMoves config s e (s.invalidatePhysical path)
  | tableFlight {step : FlightStep} {flights : Coalescer TablePath Unit} (h : s.flights.step step.event = some flights) :
      RouterMoves config s e { s with flights }
  | partitionFlight {step : FlightStep} {partitionFlights : Coalescer String Unit}
      (h : s.partitionFlights.step step.event = some partitionFlights) : RouterMoves config s e { s with partitionFlights }
  | table {id : Nat} {w : TableWork} {t : Router} {phase : WorkPhase TableMetadata} (hw : s.tableWorks[id]? = some w)
      (hm : TableMoves s id w t phase) : RouterMoves config s e (t.setTable id w phase)
  | partition {id : Nat} {w : PartitionWork} {t : Router} {phase : WorkPhase PartitionMetadata}
      (hw : s.partitionWorks[id]? = some w) (hm : PartitionMoves s id w t phase) :
      RouterMoves config s e (t.setPartition id w phase)

variable {e : RouterEvent}

private theorem advance_moves (h : s.advance config n = some s') : RouterMoves config s e s' := by
  obtain ⟨c,hc,h⟩ := bind_eq_some_iff.mp h
  split at h
  · obtain ⟨phase,hp,h⟩ := bind_eq_some_iff.mp h
    exact some.inj h ▸ .advances hc (afterLookup_moves (refreshPhysicalPhase_moves c) hp)
  next hp =>
    have hpa : c.phase.ofPartition = true := by simp [hp,ofPartition]
    refine some.inj h ▸ .advances hc ?_
    split
    · exact .of_plain (by simp) (by simp) fun _ => .inl hpa
    · exact refreshPhase_moves (.inr hpa)
  next hp =>
    have hpa : c.phase.ofPartition = true := by simp [hp,ofPartition]
    refine some.inj h ▸ .advances hc ?_
    split
    · exact .of_plain (by simp) (by simp) fun _ => .inl hpa
    · exact .of_plain (by simp) (by simp) (by simp [ofPartition])
  · exact some.inj h ▸ .joinsTable hc
  next waiter hp =>
    obtain ⟨err,herr,h⟩ := bind_eq_some_iff.mp h
    split at h
    · exact some.inj h ▸ .advances hc (.of_failed _)
    refine some.inj h ▸ .advances hc ?_
    unfold RouterCall.afterTable
    split
    next hpa => exact afterRefresh_moves (.inl ⟨waiter,hp,herr,hpa⟩)
    next hpa => exact .of_plain (by simp) (by simp) fun _ => .inr hpa
  · exact some.inj h ▸ .joinsPartition hc
  next waiter hp =>
    obtain ⟨err,herr,h⟩ := bind_eq_some_iff.mp h
    split at h
    · exact some.inj h ▸ .advances hc (.of_failed _)
    · exact some.inj h ▸ .advances hc (afterRefresh_moves (.inr ⟨waiter,hp,herr⟩))
  · obtain ⟨bucket,-,h⟩ := bind_eq_some_iff.mp h
    obtain ⟨phase,hp,h⟩ := bind_eq_some_iff.mp h
    exact some.inj h ▸ .advances hc (afterLookup_moves (.of_failed _) hp)
  · simp at h

private theorem tableStep_moves (h : s.tableStep id = some s') : RouterMoves config s e s' := by
  obtain ⟨w,hw,h⟩ := bind_eq_some_iff.mp h
  split at h
  · split at h
    next t ht =>
      have hta : s.tables w.path = some t := by
        split at ht
        · simp at ht
        · exact ht
      exact some.inj h ▸ .table hw (.works (.finds (Router.origin_eq_some.mpr ⟨t,hta,.inl ⟨rfl,rfl⟩⟩)))
    · exact some.inj h ▸ .table hw (.works (.idles idle_checked))
  · exact some.inj h ▸ .table hw (.works .fetches)
  · exact some.inj h ▸ .table hw (.works (.idles (idle_failed _)))
  next hp =>
    split at h
    · exact some.inj h ▸ .table hw (.works (.idles (idle_failed _)))
    · exact some.inj h ▸ .table hw (.installs (by rw [hp]; rfl))
  next hp =>
    obtain ⟨flights,hf,h⟩ := bind_eq_some_iff.mp h
    exact some.inj h ▸ .table hw (.returns hp hf)
  · simp at h

private theorem requirePartition_moves {t : Router} {w : PartitionWork} (h : t.requirePartition id w = s')
    (hm : ∀ {t' phase}, WorkMoves t w.path w.phase t' phase → RouterMoves config s e (t'.setPartition id w phase)) :
    RouterMoves config s e s' := by
  subst h
  unfold Router.requirePartition
  split
  next ho => exact hm (.finds ho)
  · exact hm (.idles (idle_failed _))

private theorem partitionStep_moves (h : s.partitionStep config id = some s') : RouterMoves config s e s' := by
  obtain ⟨w,hw,h⟩ := bind_eq_some_iff.mp h
  split at h
  · split at h
    next ho =>
      refine some.inj h ▸ .partition hw (.works (.finds ?_))
      split at ho
      · simp at ho
      · exact ho
    · exact some.inj h ▸ .partition hw (.works (.idles idle_checked))
  · split at h
    · exact some.inj h ▸ .partition hw (.works .fetches)
    split at h
    · exact some.inj h ▸ .partition hw (.works (.idles (idle_failed _)))
    · exact some.inj h ▸ .partition hw .joins
  · exact some.inj h ▸ .partition hw (.works (.idles (idle_failed _)))
  next hp =>
    split at h
    · exact some.inj h ▸ .partition hw (.works (.idles (idle_failed _)))
    split at h
    · exact some.inj h ▸ .partition hw (.works (.idles (idle_failed _)))
    next ht => exact requirePartition_moves (some.inj h) fun hm => .partition hw (.applies (by rw [hp]; rfl) ht hm)
  · obtain ⟨err,herr,h⟩ := bind_eq_some_iff.mp h
    split at h
    · exact some.inj h ▸ .partition hw (.works (.idles (idle_failed _)))
    · exact some.inj h ▸ .partition hw (.works (.idles ⟨rfl,by simp,by simp⟩))
  · exact requirePartition_moves (some.inj h) fun hm => .partition hw (.works hm)
  next hp =>
    obtain ⟨flights,hf,h⟩ := bind_eq_some_iff.mp h
    exact some.inj h ▸ .partition hw (.returns hp hf)
  · simp at h

theorem Router.step_moves (h : s.step config e = some s') : RouterMoves config s e s' := by
  cases e with
  | begin call => exact some.inj h ▸ .begins rfl
  | advance n => exact advance_moves h
  | invalidate path =>
    have hm : RouterMoves config s (.invalidate path) (s.invalidatePhysical ⟨path,""⟩) := .forgets rfl
    rw [invalidatePhysical,if_pos rfl] at hm
    exact some.inj h ▸ hm
  | invalidatePhysical path => exact some.inj h ▸ .forgets rfl
  | table id => exact tableStep_moves h
  | tableAnswer | partitionAnswer =>
    obtain ⟨w,hw,h⟩ := bind_eq_some_iff.mp h
    split at h
    next hp =>
      cases h
      first
        | exact .table hw (.works (.answered hp))
        | exact .partition hw (.works (.answered hp))
    · simp at h
  | tableFlight step =>
    obtain ⟨flights,hf,h⟩ := bind_eq_some_iff.mp h
    exact some.inj h ▸ .tableFlight hf
  | partition id => exact partitionStep_moves h
  | partitionFlight step =>
    obtain ⟨flights,hf,h⟩ := bind_eq_some_iff.mp h
    exact some.inj h ▸ .partitionFlight hf

theorem Router.step_forgets {path : PhysicalTablePath} (he : e.forgets = some path) (h : s.step config e = some s') :
    s' = s.invalidatePhysical path := by
  cases e with
  | invalidate table =>
    obtain rfl := some.inj he
    rw [invalidatePhysical,if_pos rfl]
    exact (some.inj h).symm
  | invalidatePhysical table =>
    obtain rfl := some.inj he
    exact (some.inj h).symm
  | _ => simp [RouterEvent.forgets] at he

theorem Router.invalidatePhysical_eq (s : Router) (path : PhysicalTablePath) :
    ∃ tables invalidated, s.invalidatePhysical path = { s with tables, invalidated } := by
  unfold invalidatePhysical
  split
  · exact ⟨_,_,rfl⟩
  · exact ⟨_,_,rfl⟩
end Steps
end FlussGo
