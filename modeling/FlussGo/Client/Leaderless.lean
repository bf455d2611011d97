import FlussGo.Client.Origins
/-!
# Buckets without a leader

A route whose path is not cached fetches and returns the leader that it finds. A route for a bucket that
the cache lists without a leader returns an error, also after a leader was elected.
-/
namespace FlussGo
open Option Router FlightStep Function AList
/-- The cached bucket count, leaders and bucket details of a path. -/
def Router.entry (s : Router) (path : PhysicalTablePath) : Option (Int × IDMap ServerNode × IDMap BucketMetadata) := do
  let t ← s.tables path.tablePath
  if path.partition = "" then some (t.table.bucketCount, t.table.buckets, t.table.bucketDetails)
  else (t.table.partitions.lookup (physicalTableKey path)).map fun p => (p.bucketCount, p.buckets, p.bucketDetails)
/-- The cached entry of the path lists the bucket, and no leader for it. -/
def Router.Leaderless (s : Router) (path : PhysicalTablePath) (bucket : Int) : Prop :=
  ∃ count leaders details, s.entry path = some (count, leaders, details) ∧ leaders.lookup bucket = none ∧ bucket ∈ details
/-- The cached entry of the path has this leader for the bucket. -/
def Router.Led (s : Router) (path : PhysicalTablePath) (bucket : Int) (node : ServerNode) : Prop :=
  ∃ count leaders details, s.entry path = some (count, leaders, details) ∧ leaders.lookup bucket = some node
/-- What the fetchers of a router return. -/
structure MetadataAnswers where
  fetch : TablePath → Except GoError TableMetadata
  fetchPartition : PhysicalTablePath → Except GoError PartitionMetadata
/-- The fetchers report a leader of the bucket, in every snapshot that a route for it may fetch. -/
structure MetadataAnswers.Elected (answers : MetadataAnswers) (config : RouterConfig) (path : PhysicalTablePath)
    (bucket : Int) (node : ServerNode) : Prop where
  table : ∃ table, answers.fetch path.tablePath = .ok table ∧ table.path = path.tablePath ∧
    (path.partition = "" → table.buckets.lookup bucket = some node) ∧
    (∀ p, table.partitions.lookup (physicalTableKey path) = some p → p.buckets.lookup bucket = some node) ∧
    (config.fetchPartition = false → path.partition ≠ "" → physicalTableKey path ∈ table.partitions)
  partition : config.fetchPartition = true → path.partition ≠ "" → ∃ p, answers.fetchPartition path = .ok p ∧
    physicalTableKey p.path = physicalTableKey path ∧ p.buckets.lookup bucket = some node
/-- The steps of a call that runs alone, and of the works that it waits for. -/
def RouterEvent.Alone (answers : MetadataAnswers) (path : PhysicalTablePath) : RouterEvent → Prop
  | .advance _ | .table _ | .partition _ => True
  | .tableAnswer _ result => result = answers.fetch path.tablePath
  | .partitionAnswer _ result => result = answers.fetchPartition path
  | .tableFlight (.complete _) | .tableFlight (.claim _) => True
  | .partitionFlight (.complete _) | .partitionFlight (.claim _) => True
  | _ => False
/-- A route in a router that has nothing else to do. -/
def routeAlone (config : RouterConfig) (answers : MetadataAnswers) (tables : TablePath → Option CachedTable)
    (path : PhysicalTablePath) (bucket : Int) : System Router RouterEvent where
  init s := s = ({ tables := tables } : Router).begin config (.route path bucket)
  step s e s' := e.Alone answers path ∧ s.step config e = some s'

section Routed
variable {path : String} {bucket count : Int} {leaders : IDMap ServerNode} {details : IDMap BucketMetadata}

theorem routedBucket_leaderless (hle : leaders.lookup bucket = none) (hl : bucket ∈ details) :
    routedBucket path bucket count leaders details = failf .noBucketLeader s!"{path} bucket {bucket}" := by
  have hpos : 0 < details.keys.length := List.length_pos_of_mem (mem_keys.mp hl)
  rw [routedBucket,if_neg (fun h => h.2 hl)]
  rw [if_neg (by split <;> (try split) <;> omega),hle]

variable (path count details) in
theorem routedBucket_led {node : ServerNode} (hl : leaders.lookup bucket = some node) :
    ∃ routing, routedBucket path bucket count leaders details = .ok (some node, routing) := by
  have hpos : 0 < leaders.keys.length := List.length_pos_of_mem (mem_keys.mp (by
    rw [← lookup_isSome,hl]; rfl))
  rw [routedBucket,if_neg (by simp [hl])]
  rw [if_neg (by split <;> (try split) <;> omega),hl]
  exact ⟨_,rfl⟩
end Routed

section Lookup
variable {config : RouterConfig} {s : Router} {path : PhysicalTablePath} {bucket : Int}

theorem Router.lookupPhysical_eq : s.lookupPhysical path bucket = (s.entry path).elim (.ok (none, 0))
    fun (count, leaders, details) => routedBucket path.text bucket count leaders details := by
  unfold lookupPhysical entry
  cases s.tables path.tablePath with
  | none => rfl
  | some t =>
    by_cases hp : path.partition = ""
    · simp [hp]
    · cases hl : t.table.partitions.lookup (physicalTableKey path) <;> simp [hp,hl]

theorem Router.origin_isSome (s : Router) (path : PhysicalTablePath) :
    (s.origin path).isSome = (s.entry path).isSome := by
  unfold origin entry
  cases s.tables path.tablePath with
  | none => rfl
  | some t =>
    by_cases hp : path.partition = ""
    · simp [hp]
    · by_cases hmem : physicalTableKey path ∈ t.table.partitions
      · simp [hp,hmem,lookup_isSome.mpr hmem]
      · simp [hp,hmem,lookup_eq_none.mpr hmem]
/-- Whatever else runs, the route of a bucket without a leader ends with its first lookup. -/
theorem Router.Leaderless.advance {n : Nat} {c : CallState} (h : s.Leaderless path bucket) (hc : s.calls[n]? = some c)
    (hca : c.call = .route path bucket) (hp : c.phase = .lookup) :
    s.advance config n = some (s.setCall n c (.returned (.failed
      (errorf .noBucketLeader s!"{path.text} bucket {bucket}")))) := by
  obtain ⟨count,leaders,details,he,hl,hli⟩ := h
  have hlo : s.lookupPhysical path bucket = failf .noBucketLeader s!"{path.text} bucket {bucket}" := by
    rw [lookupPhysical_eq,he]
    exact routedBucket_leaderless hl hli
  simp [Router.advance,hc,hp,Router.afterLookup,hca,RouterCall.bucket,RouterCall.path,hlo,failf]
end Lookup

section Alone
variable {config : RouterConfig} {answers : MetadataAnswers} {tables : TablePath → Option CachedTable}
  {path : PhysicalTablePath} {bucket : Int} {s : Router} {force : Bool}

private theorem enter_shared {K : Type} [DecidableEq K] {c : Coalescer K Unit} {key : K} (h : c.Free key) :
    (c.enter key false).shared.length = c.shared.length + 1 := by
  simp [Coalescer.enter,h.calls,h.closed]

private theorem enterTable_free (s : Router) (path : PhysicalTablePath) (h : s.flights.Free path.tablePath)
    (force : Bool) : s.enterTable path.tablePath force = { s with
      flights := s.flights.enter path.tablePath false
      tableWorks := s.tableWorks ++ [⟨path.tablePath,force,.starting⟩] } := by
  simp [enterTable,enter_shared h]

private theorem enterPartition_free (s : Router) (path : PhysicalTablePath)
    (h : s.partitionFlights.Free (physicalTableKey path)) (force : Bool) : s.enterPartition path force = { s with
      partitionFlights := s.partitionFlights.enter (physicalTableKey path) false
      partitionWorks := s.partitionWorks ++ [⟨path,force,.starting⟩] } := by
  simp [enterPartition,enter_shared h]

section Flights
variable {T : System Router RouterEvent}
  (alone : ∀ {s s' : Router} {e : RouterEvent}, s.step config e = some s' → e.Alone answers path → T.step s e s')
include alone

variable (s) in
private theorem tableFlight_leads (works : List TableWork) {c : Coalescer TablePath Unit} {table : TableMetadata}
    (hf : c.Free path.tablePath) (hfl : s.flights = c.enter path.tablePath false)
    (hw : s.tableWorks = works ++ [⟨path.tablePath,force,.starting⟩]) (hl : c.shared.length = works.length)
    (hn : force = true ∨ s.tables path.tablePath = none) (ha : answers.fetch path.tablePath = .ok table)
    (ht : table.path = path.tablePath) :
    ∃ flights, flights.Free path.tablePath ∧ flights.result c.waiters.length = some none ∧
      flights.shared.length = works.length + 1 ∧ T.Leads s { s with
          tables := update s.tables path.tablePath (some ⟨table,s.fetches.length,fun _ => s.fetches.length⟩)
          fetches := s.fetches ++ [⟨path.tablePath,""⟩]
          tableWorks := works ++ [⟨path.tablePath,force,.returned⟩], flights
          confirmed := s.confirmed ++ [(⟨path.tablePath,""⟩, s.fetches.length)] } := by
  obtain ⟨returned,completed,claimed,hr,hc,hcl,hre,hf,hs⟩ := hf.flight none
  rw [hl] at hr hc hs
  let work (phase : WorkPhase TableMetadata) : List TableWork := works ++ [⟨path.tablePath,force,phase⟩]
  let checked : Router := { s with tableWorks := work .checked }
  let fetching : Router := {
    s with tableWorks := work (.fetching s.fetches.length), fetches := s.fetches ++ [⟨path.tablePath,""⟩] }
  let fetched : Router := { fetching with tableWorks := work (.fetched s.fetches.length (.ok table)) }
  let installed : Router := {
    fetching with
    tables := update s.tables path.tablePath (some ⟨table,s.fetches.length,fun _ => s.fetches.length⟩)
    tableWorks := work (.finished none)
    confirmed := s.confirmed ++ [(⟨path.tablePath,""⟩, s.fetches.length)] }
  have hch : s.step config (.table works.length) = some checked := by
    have hno : (if force then none else s.tables path.tablePath) = none := by
      rcases hn with rfl | h <;> simp [*]
    simp [step,tableStep,hw,hno,setTable,checked,work]
  have hfe : checked.step config (.table works.length) = some fetching := by
    simp [step,tableStep,setTable,startFetch,checked,fetching,work]
  have hfet : fetching.step config (.tableAnswer works.length (answers.fetch path.tablePath)) = some fetched := by
    simp [step,tableAnswer,setTable,fetching,fetched,work,ha]
  have hi : fetched.step config (.table works.length) = some installed := by
    simp [step,tableStep,setTable,installTable,confirm,fetched,fetching,installed,work,
      ht]
  have he : installed.step config (.table works.length) =
      some { installed with flights := returned, tableWorks := work .returned } := by
    simp [step,tableStep,setTable,fetching,installed,work,hfl,hr]
  refine ⟨claimed,hf,hre,hs,?_⟩
  have hco : { installed with flights := returned, tableWorks := work .returned }.step config
      (.tableFlight (.complete works.length)) =
        some { installed with flights := completed, tableWorks := work .returned } := by
    simp [step,tableFlight,event,Coalescer.step,hc]
  have hcla : { installed with flights := completed, tableWorks := work .returned }.step config
      (.tableFlight (.claim c.waiters.length)) =
        some { installed with flights := claimed, tableWorks := work .returned } := by
    simp [step,tableFlight,event,Coalescer.step,hcl]
  have hle : T.Leads s installed :=
    ((((System.Leads.refl s).step (alone hch trivial)).step (alone hfe trivial)).step (alone hfet rfl)).step
      (alone hi trivial)
  exact ((hle.step (alone he trivial)).step (alone hco trivial)).step (alone hcla trivial)

variable {node : ServerNode} {c : Coalescer String Unit} {works : List PartitionWork}
  (hfr : c.Free (physicalTableKey path)) (hf : s.partitionFlights = c.enter (physicalTableKey path) false)
  (hl : c.shared.length = works.length)
include hfr hf hl

variable (s) in
private theorem partitionFlight_ends (hw : s.partitionWorks = works ++ [⟨path,force,.finished none⟩]) :
    ∃ partitionFlights, partitionFlights.result c.waiters.length = some none ∧ T.Leads s
        { s with partitionWorks := works ++ [⟨path,force,.returned⟩], partitionFlights } := by
  obtain ⟨returned,completed,claimed,hr,hc,hcl,hre,_,_⟩ := hfr.flight none
  rw [hl] at hr hc
  let ended : Router := { s with partitionWorks := works ++ [⟨path,force,.returned⟩] }
  have he : s.step config (.partition works.length) = some { ended with partitionFlights := returned } := by
    simp [step,partitionStep,setPartition,hw,hf,hr,ended]
  have hco : { ended with partitionFlights := returned }.step config (.partitionFlight (.complete works.length)) =
      some { ended with partitionFlights := completed } := by
    simp [step,partitionFlight,event,Coalescer.step,hc]
  have hcla : { ended with partitionFlights := completed }.step config (.partitionFlight (.claim c.waiters.length)) =
      some { ended with partitionFlights := claimed } := by
    simp [step,partitionFlight,event,Coalescer.step,hcl]
  exact ⟨claimed,hre,(((System.Leads.refl s).step (alone he trivial)).step (alone hco trivial)).step (alone hcla trivial)⟩
/-- What a lone route has when the work of its partition has succeeded. -/
private structure Refreshed (s s' : Router) (path : PhysicalTablePath) (bucket : Int) (node : ServerNode) (waiter : Nat) :
    Prop where
  calls : s'.calls = s.calls
  result : s'.partitionFlights.result waiter = some none
  led : s'.Led path bucket node
  fetched : s.entry path = none ∨ s.fetches ≠ [] → s'.fetches ≠ []

variable (s works) in
private theorem partitionFlight_cached (hw : s.partitionWorks = works ++ [⟨path,false,.starting⟩])
    (hled : s.Led path bucket node) : ∃ s', T.Leads s s' ∧ Refreshed s s' path bucket node c.waiters.length := by
  obtain ⟨count,leaders,details,he,hle⟩ := hled
  obtain ⟨origin,ho⟩ := isSome_iff_exists.mp ((s.origin_isSome path).trans
    (by rw [he]; rfl))
  let found : Router := {
    s with
    confirmed := s.confirmed ++ [(path, origin)], partitionWorks := works ++ [⟨path,false,.finished none⟩] }
  have hfo : s.step config (.partition works.length) = some found := by
    simp [step,partitionStep,setPartition,confirm,hw,ho,found]
  obtain ⟨flights,hr,hen⟩ := partitionFlight_ends found alone hfr hf hl rfl
  refine ⟨_,((System.Leads.refl s).step (alone hfo trivial)).trans hen,rfl,hr,⟨count,leaders,details,he,hle⟩,?_⟩
  rintro (hn | hfe)
  · rw [he] at hn
    simp at hn
  · exact hfe

omit alone hfr hf hl in
private theorem partitionStep_checks (hw : s.partitionWorks = works ++ [⟨path,false,.starting⟩]) (he : s.entry path = none) :
    s.step config (.partition works.length) = some { s with partitionWorks := works ++ [⟨path,false,.checked⟩] } := by
  have ho : s.origin path = none := by
    rw [← not_isSome_iff_eq_none,origin_isSome,he]
    simp
  simp [step,partitionStep,setPartition,hw,ho]

variable (s works) in
private theorem partitionFlight_fetched {t : CachedTable} {p : PartitionMetadata}
    (hw : s.partitionWorks = works ++ [⟨path,false,.starting⟩]) (hn : path.partition ≠ "") (he : s.entry path = none)
    (ht : s.tables path.tablePath = some t)
    (hfe : config.fetchPartition = true) (han : answers.fetchPartition path = .ok p)
    (hkey : physicalTableKey p.path = physicalTableKey path) (hle : p.buckets.lookup bucket = some node) :
    ∃ s', T.Leads s s' ∧ Refreshed s s' path bucket node c.waiters.length := by
  let work (phase : WorkPhase PartitionMetadata) : List PartitionWork := works ++ [⟨path,false,phase⟩]
  let checked : Router := { s with partitionWorks := work .checked }
  let fetching : Router := { s with partitionWorks := work (.fetching s.fetches.length), fetches := s.fetches ++ [path] }
  let fetched : Router := { fetching with partitionWorks := work (.fetched s.fetches.length (.ok p)) }
  let applied : Router := fetched.applyPhysicalMetadata path t s.fetches.length p
  let installed : Router := {
    applied with partitionWorks := work (.finished none), confirmed := s.confirmed ++ [(path, s.fetches.length)] }
  have hc : s.step config (.partition works.length) = some checked := partitionStep_checks hw he
  have hfetching : checked.step config (.partition works.length) = some fetching := by
    simp [step,partitionStep,setPartition,startFetch,hfe,checked,fetching,work]
  have hfet : fetching.step config (.partitionAnswer works.length (answers.fetchPartition path)) = some fetched := by
    simp [step,partitionAnswer,setPartition,han,fetching,fetched,work]
  have ha : applied.origin path = some s.fetches.length := by
    apply origin_eq_some.mpr
    exact ⟨_,by simp [applied,applyPhysicalMetadata]; rfl,.inr ⟨hn,by simp,by simp⟩⟩
  have hi : fetched.step config (.partition works.length) = some installed := by
    have hr : applied.requirePartition works.length ⟨path,false,.fetched s.fetches.length (.ok p)⟩ =
        installed := by
      rw [requirePartition,ha]
      simp [confirm,setPartition,applyPhysicalMetadata,applied,fetched,fetching,installed,work]
    simp [step,partitionStep,hkey,ht,fetched,fetching,work]
    exact hr
  have hlea : T.Leads s installed :=
    ((((System.Leads.refl s).step (alone hc trivial)).step (alone hfetching trivial)).step (alone hfet rfl)).step
      (alone hi trivial)
  obtain ⟨flights,hre,hen⟩ := partitionFlight_ends installed alone hfr hf hl rfl
  refine ⟨_,hlea.trans hen,rfl,hre,⟨p.bucketCount,p.buckets,p.bucketDetails,?_,hle⟩,fun _ => ?_⟩
  · simp [entry,installed,applied,applyPhysicalMetadata,hn]
  · simp [installed,applied,applyPhysicalMetadata,fetched,fetching]

variable (s works) in
private theorem partitionFlight_table {table : TableMetadata}
    (hw : s.partitionWorks = works ++ [⟨path,false,.starting⟩]) (hn : path.partition ≠ "") (he : s.entry path = none)
    (hfree : s.flights.Free path.tablePath) (hle : s.flights.shared.length = s.tableWorks.length) (hfet : config.fetch = true)
    (hfe : config.fetchPartition = false) (han : answers.fetch path.tablePath = .ok table)
    (ht : table.path = path.tablePath) (hmem : physicalTableKey path ∈ table.partitions)
    (hlea : ∀ p, table.partitions.lookup (physicalTableKey path) = some p → p.buckets.lookup bucket = some node) :
    ∃ s', T.Leads s s' ∧ Refreshed s s' path bucket node c.waiters.length := by
  let work (phase : WorkPhase PartitionMetadata) : List PartitionWork := works ++ [⟨path,false,phase⟩]
  let checked : Router := { s with partitionWorks := work .checked }
  let awaiting : Router := {
    s with
    partitionWorks := work (.awaiting s.flights.waiters.length), flights := s.flights.enter path.tablePath false
    tableWorks := s.tableWorks ++ [⟨path.tablePath,true,.starting⟩] }
  have hc : s.step config (.partition works.length) = some checked := partitionStep_checks hw he
  have ha : checked.step config (.partition works.length) = some awaiting := by
    have hen := enterTable_free checked path hfree true
    simp [step,partitionStep,setPartition,hfe,hfet,hen,checked,awaiting,work]
  obtain ⟨flights,_,hfli,_,hlead⟩ := tableFlight_leads awaiting alone s.tableWorks hfree rfl rfl hle (.inl rfl) han ht
  let installed : Router := {
    awaiting with
    tables := update s.tables path.tablePath (some ⟨table,s.fetches.length,fun _ => s.fetches.length⟩)
    fetches := s.fetches ++ [⟨path.tablePath,""⟩]
    tableWorks := s.tableWorks ++ [⟨path.tablePath,true,.returned⟩], flights
    confirmed := s.confirmed ++ [(⟨path.tablePath,""⟩, s.fetches.length)] }
  let refreshed : Router := { installed with partitionWorks := work .refreshed }
  let found : Router := {
    installed with
    partitionWorks := work (.finished none), confirmed := installed.confirmed ++ [(path, s.fetches.length)] }
  have hr : installed.step config (.partition works.length) = some refreshed := by
    simp [step,partitionStep,setPartition,hfli,awaiting,installed,refreshed,work]
  have hca : refreshed.origin path = some s.fetches.length := by
    apply origin_eq_some.mpr
    exact ⟨_,update_self ..,.inr ⟨hn,hmem,rfl⟩⟩
  have hfo : refreshed.step config (.partition works.length) = some found := by
    have hwo : refreshed.partitionWorks[works.length]? = some ⟨path,false,.refreshed⟩ := by
      simp [refreshed,work]
    rw [step,partitionStep,hwo]
    simp only [bind_eq_bind,bind_some,requirePartition,hca]
    simp [confirm,setPartition,refreshed,installed,found,work]
  have hs : T.Leads s awaiting :=
    ((System.Leads.refl s).step (alone hc trivial)).step (alone ha trivial)
  obtain ⟨partitionFlights,hre,hend⟩ := partitionFlight_ends found alone hfr hf hl rfl
  obtain ⟨p,hp⟩ := isSome_iff_exists.mp (lookup_isSome.mpr hmem)
  refine ⟨_,(((hs.trans hlead).step (alone hr trivial)).step (alone hfo trivial)).trans hend,rfl,hre,
    ⟨p.bucketCount,p.buckets,p.bucketDetails,?_,hlea p hp⟩,fun _ => ?_⟩
  · simp [entry,found,installed,hn,hp]
  · simp [found,installed]
end Flights

private theorem alone_step {s' : Router} {e : RouterEvent} (hs : s.step config e = some s') (ha : e.Alone answers path) :
    (routeAlone config answers tables path bucket).step s e s' := ⟨ha,hs⟩

private def routeIn (path : PhysicalTablePath) (bucket : Int) (phase : CallPhase) : List CallState :=
  [⟨.route path bucket,0,phase⟩]
/-- How a lone route is to end: something was fetched and the leader is returned. -/
def RoutedTo (config : RouterConfig) (answers : MetadataAnswers) (tables : TablePath → Option CachedTable)
    (path : PhysicalTablePath) (bucket : Int) (node : ServerNode) : Prop :=
  ∃ s count origin, (routeAlone config answers tables path bucket).Reachable s ∧ s.fetches ≠ [] ∧
    s.calls = [⟨.route path bucket,0,.returned (.leader node count origin)⟩]

private theorem routed_of_required (hre : (routeAlone config answers tables path bucket).Reachable s)
    (hc : s.calls = routeIn path bucket .lookupRequired) (hled : s.Led path bucket node) (hf : s.fetches ≠ []) :
    RoutedTo config answers tables path bucket node := by
  obtain ⟨count,leaders,details,he,hl⟩ := hled
  obtain ⟨routing,hr⟩ := routedBucket_led path.text count details hl
  obtain ⟨origin,ho⟩ := isSome_iff_exists.mp ((s.origin_isSome path).trans
    (by rw [he]; rfl))
  have hlo : s.lookupPhysical path bucket = .ok (some node, routing) := by
    rw [lookupPhysical_eq,he]
    exact hr
  have hs : s.step config (.advance 0) =
      some { s with calls := routeIn path bucket (.returned (.leader node routing origin)) } := by
    simp [step,advance,hc,routeIn,afterLookup,RouterCall.bucket,RouterCall.path,hlo,ho,
      setCall]
  exact ⟨_,routing,origin,hre.step (alone_step hs trivial),hf,rfl⟩

private theorem routed_of_partition (hrea : (routeAlone config answers tables path bucket).Reachable s)
    (hc : s.calls = routeIn path bucket .joinPartition) (hn : path.partition ≠ "") (hfe : config.fetch = true)
    (he : answers.Elected config path bucket node) {t : CachedTable} (ht : s.tables path.tablePath = some t)
    (hled : s.entry path = none ∨ s.fetches ≠ [] ∧ s.Led path bucket node)
    (hfl : s.partitionFlights = newCoalescer String Unit) (hw : s.partitionWorks = [])
    (hfr : s.flights.Free path.tablePath) (hl : s.flights.shared.length = s.tableWorks.length) :
    RoutedTo config answers tables path bucket node := by
  have hnew : (newCoalescer String Unit).Free (physicalTableKey path) := ⟨rfl,rfl⟩
  let joined : Router := {
    s with
    calls := routeIn path bucket (.awaitPartition 0)
    partitionFlights := (newCoalescer String Unit).enter (physicalTableKey path) false
    partitionWorks := [⟨path,false,.starting⟩] }
  have hj : s.step config (.advance 0) = some joined := by
    have hent := enterPartition_free s path (hfl ▸ hnew) false
    simp [step,advance,hc,routeIn,RouterCall.bucket,RouterCall.path,hent,setCall,hfl,hw,
      joined,newCoalescer]
  obtain ⟨table,ha,hpat,_,hpa,hi⟩ := he.table
  obtain ⟨s',hlea,hr⟩ : ∃ s', (routeAlone config answers tables path bucket).Leads joined s' ∧
      Refreshed joined s' path bucket node 0 := by
    rcases hled with hen | ⟨_,hled⟩
    · cases hf : config.fetchPartition with
      | true =>
        obtain ⟨p,hp,hkey,hle⟩ := he.partition hf hn
        exact partitionFlight_fetched joined alone_step [] hnew rfl rfl rfl hn hen ht hf hp hkey hle
      | false =>
        exact partitionFlight_table joined alone_step [] hnew rfl rfl rfl hn hen hfr hl hfe hf
          ha hpat (hi hf hn) hpa
    · exact partitionFlight_cached joined alone_step [] hnew rfl rfl rfl hled
  have hre : s'.step config (.advance 0) = some { s' with calls := routeIn path bucket .lookupRequired } := by
    have hc' : s'.calls = routeIn path bucket (.awaitPartition 0) := hr.calls
    simp [step,advance,hc',routeIn,hr.result,RouterCall.afterRefresh,RouterCall.bucket,
      setCall]
  refine routed_of_required (((hrea.step (alone_step hj trivial)).leads hlea).step (alone_step hre trivial))
    rfl hr.led (hr.fetched ?_)
  exact hled.imp id fun h => h.1

private theorem routed_of_table (hf : config.fetch = true) (he : answers.Elected config path bucket node)
    (hne : force = true ∨ tables path.tablePath = none) (hr : (routeAlone config answers tables path bucket).Reachable
      { tables := tables, calls := routeIn path bucket (.joinTable force) }) :
    RoutedTo config answers tables path bucket node := by
  have hnew : (newCoalescer TablePath Unit).Free path.tablePath := ⟨rfl,rfl⟩
  obtain ⟨table,ha,ht,hl,hpa,_⟩ := he.table
  let joining : Router := { tables := tables, calls := routeIn path bucket (.joinTable force) }
  let joined : Router := {
    tables := tables, calls := routeIn path bucket (.awaitTable 0)
    flights := (newCoalescer TablePath Unit).enter path.tablePath false
    tableWorks := [⟨path.tablePath,force,.starting⟩] }
  have hj : joining.step config (.advance 0) = some joined := by
    have hen := enterTable_free joining path hnew force
    exact congrArg (fun r : Router => some (r.setCall 0 ⟨.route path bucket,0,.joinTable force⟩ (.awaitTable 0))) hen
  obtain ⟨flights,hfr,hre,hs,hle⟩ := tableFlight_leads (T := routeAlone config answers tables path bucket) joined
    alone_step [] hnew rfl rfl rfl hne ha ht
  let installed : Router := {
    joined with
    tables := update tables path.tablePath (some ⟨table,0,fun _ => 0⟩), fetches := [⟨path.tablePath,""⟩]
    tableWorks := [⟨path.tablePath,force,.returned⟩], flights, confirmed := [(⟨path.tablePath,""⟩, 0)] }
  have hi : (routeAlone config answers tables path bucket).Reachable installed :=
    (hr.step (alone_step hj trivial)).leads hle
  have hnex : installed.step config (.advance 0) =
      some { installed with calls := routeIn path bucket (RouterCall.route path bucket).afterTable } := by
    have hre : flights.result 0 = some none := hre
    simp [step,advance,installed,joined,routeIn,hre,setCall]
  have hr := hi.step (alone_step hnex trivial)
  by_cases hn : path.partition = ""
  · refine routed_of_required hr (by simp [RouterCall.afterTable,RouterCall.path,hn,RouterCall.afterRefresh,RouterCall.bucket])
      ⟨table.bucketCount,table.buckets,table.bucketDetails,?_,hl hn⟩ (by simp [installed])
    simp [entry,installed,hn]
  · refine routed_of_partition (t := ⟨table,0,fun _ => 0⟩) hr (by simp [RouterCall.afterTable,RouterCall.path,hn]) hn
      hf he (by simp [installed]) ?_ rfl rfl hfr hs
    cases hp : table.partitions.lookup (physicalTableKey path) with
    | none => exact .inl (by simp [entry,installed,hn,hp])
    | some p =>
      exact .inr ⟨by simp [installed],p.bucketCount,p.buckets,p.bucketDetails,by simp [entry,installed,hn,hp],
        hpa p hp⟩

private theorem routed_of_uncached (hf : config.fetch = true) (hp : path.validate = .ok ())
    (hen : ({ tables := tables } : Router).entry path = none) (he : answers.Elected config path bucket node) :
    RoutedTo config answers tables path bucket node := by
  let inPhase (phase : CallPhase) : Router := { tables := tables, calls := routeIn path bucket phase }
  have hs : (routeAlone config answers tables path bucket).Reachable (inPhase .lookup) :=
    .init (by simp [routeAlone,begin,beginPhase,hp,inPhase,routeIn])
  have hl : (inPhase .lookup).step config (.advance 0) = some (inPhase (refreshPhysicalPhase config path)) := by
    have hno : (inPhase .lookup).lookupPhysical path bucket = .ok (none, 0) := by
      rw [lookupPhysical_eq,show (inPhase .lookup).entry path = none from hen]
      rfl
    simp [inPhase,routeIn] at hno
    simp [step,advance,inPhase,routeIn,afterLookup,RouterCall.bucket,RouterCall.path,hno,setCall]
  have hr := hs.step (alone_step hl trivial)
  by_cases hn : path.partition = ""
  · rw [refreshPhysicalPhase,if_pos hn,refreshPhase,hf] at hr
    exact routed_of_table hf he (.inl rfl) hr
  rw [refreshPhysicalPhase,if_neg hn] at hr
  cases ht : tables path.tablePath with
  | some t =>
    have hj : (inPhase .hasTable).step config (.advance 0) = some (inPhase .joinPartition) := by
      simp [step,advance,inPhase,routeIn,RouterCall.path,ht,setCall]
    exact routed_of_partition (hr.step (alone_step hj trivial)) rfl hn hf he ht (.inl hen)
      rfl rfl ⟨rfl,rfl⟩ rfl
  | none =>
    have hc : (inPhase .hasTable).step config (.advance 0) = some (inPhase .checkTable) := by
      simp [step,advance,inPhase,routeIn,RouterCall.path,ht,setCall,refreshPhase,hf]
    have hj : (inPhase .checkTable).step config (.advance 0) = some (inPhase (.joinTable false)) := by
      simp [step,advance,inPhase,routeIn,RouterCall.path,ht,setCall]
    exact routed_of_table hf he (.inr ht)
      ((hr.step (alone_step hc trivial)).step (alone_step hj trivial))

variable (tables) in
private theorem unfetched_of_leaderless (h : ({ tables := tables } : Router).Leaderless path bucket)
    (hs : (routeAlone config answers tables path bucket).Reachable s) : s.fetches = [] := by
  have hinv : ∃ phase, (phase = .lookup ∨ ∃ result, phase = .returned result) ∧
      s = { tables := tables, calls := routeIn path bucket phase } := by
    refine System.Reachable.invariant (P := fun s : Router => ∃ phase, (phase = .lookup ∨ ∃ result, phase = .returned result) ∧
      s = { tables := tables, calls := routeIn path bucket phase }) ?_ ?_ hs
    · rintro _ rfl
      cases hp : path.validate with
      | err err => exact ⟨.returned (.failed err),.inr ⟨_,rfl⟩,by simp [begin,beginPhase,hp,routeIn]⟩
      | ok | panic => exact ⟨.lookup,.inl rfl,by simp [begin,beginPhase,hp,routeIn]⟩
    · rintro _ e s' - ⟨phase,hph,rfl⟩ ⟨ha,hst⟩
      -- there are no works and no flights, so the call is all that can move
      cases e with
      | advance n =>
        cases n with
        | succ n => simp [step,advance,routeIn] at hst
        | zero =>
          rcases hph with rfl | ⟨result,rfl⟩
          · have hf : ({ tables := tables, calls := routeIn path bucket .lookup } : Router).advance config 0 = some _ :=
              Router.Leaderless.advance h rfl rfl rfl
            cases hf.symm.trans hst
            exact ⟨_,.inr ⟨_,rfl⟩,rfl⟩
          · simp [step,advance,routeIn] at hst
      | table id => simp [step,tableStep] at hst
      | partition id => simp [step,partitionStep] at hst
      | tableAnswer id result => simp [step,tableAnswer] at hst
      | partitionAnswer id result => simp [step,partitionAnswer] at hst
      | tableFlight e =>
        cases e <;> simp [step,tableFlight,event,Coalescer.step,Coalescer.complete,Coalescer.claim,
          Coalescer.leave,newCoalescer] at hst
      | partitionFlight e =>
        cases e <;> simp [step,partitionFlight,event,Coalescer.step,Coalescer.complete,
          Coalescer.claim,Coalescer.leave,newCoalescer] at hst
      | _ => exact ha.elim
  obtain ⟨phase,_,rfl⟩ := hinv
  rfl
end Alone
/-- A route for a bucket without a cached leader finds the leader that was elected exactly when its path
is not cached. If the cache lists the bucket without a leader, the first lookup of the route fails in
whatever the router is doing, and nothing is fetched. -/
theorem routes_find_elected_iff (config : RouterConfig) (answers : MetadataAnswers)
    (tables : TablePath → Option CachedTable) (path : PhysicalTablePath) (bucket : Int) (node : ServerNode)
    (hfetch : config.fetch = true) (hpath : path.validate = .ok ())
    (hcached : ({ tables := tables } : Router).entry path = none ∨ ({ tables := tables } : Router).Leaderless path bucket)
    (helected : answers.Elected config path bucket node) :
    (RoutedTo config answers tables path bucket node ↔ ({ tables := tables } : Router).entry path = none) ∧
    ∀ (s : Router) (n : Nat) (c : CallState), s.Leaderless path bucket → s.calls[n]? = some c →
      c.call = .route path bucket → c.phase = .lookup →
      s.advance config n = some (s.setCall n c (.returned (.failed
        (errorf .noBucketLeader s!"{path.text} bucket {bucket}")))) := by
  refine ⟨⟨fun hrouted => ?_,fun hentry => routed_of_uncached hfetch hpath hentry helected⟩,
    fun s n c hleaderless => hleaderless.advance⟩
  rcases hcached with hentry | hleaderless
  · exact hentry
  · obtain ⟨s,_,_,hs,hfetches,_⟩ := hrouted
    exact absurd (unfetched_of_leaderless tables hleaderless hs) hfetches

private def itemsPath : PhysicalTablePath := ⟨⟨"shop","items"⟩,""⟩

private def itemsTable (leaders : IDMap ServerNode) : TableMetadata where
  path := itemsPath.tablePath
  id := 1
  schemaID := 1
  buckets := leaders
  bucketDetails := AList.singleton 0 ⟨0,none,[],[],none,none⟩
  bucketCount := 1

private def itemsLeader : ServerNode := ⟨2,"tablet",.tabletServer⟩

private def itemsAnswers : MetadataAnswers where
  fetch _ := .ok (itemsTable (AList.singleton 0 itemsLeader))
  fetchPartition _ := .error (newError "no partitions")

private theorem itemsAnswers_elected : itemsAnswers.Elected {} itemsPath 0 itemsLeader where
  table := ⟨_,rfl,rfl,fun _ => rfl,fun p hp => by simp [itemsTable] at hp,fun h => by simp at h⟩
  partition _ hname := absurd rfl hname

theorem routes_find_elected_uncached : RoutedTo {} itemsAnswers (fun _ => none) itemsPath 0 itemsLeader :=
  (routes_find_elected_iff {} itemsAnswers (fun _ => none) itemsPath 0 itemsLeader rfl (by decide) (.inl rfl)
    itemsAnswers_elected).1.mpr rfl

private def listsUnled (s : Router) : Bool :=
  (s.entry itemsPath).any fun (_, leaders, details) => (leaders.lookup 0).isNone && decide (0 ∈ details)
/-- A route fetches the table while bucket 0 has no leader; from then on no route for the bucket finds
the leader that has been elected. -/
theorem leaderless_routes_stay_stuck : ∃ s, (routerSystem {}).Reachable s ∧ s.Leaderless itemsPath 0 ∧
    ∃ answers node, answers.Elected {} itemsPath 0 node ∧ ¬RoutedTo {} answers s.tables itemsPath 0 node := by
  obtain ⟨s,hs,hleaderless⟩ := System.Reachable.of_foldlM_any (T := routerSystem {}) (Router.step {})
    [.begin (.route itemsPath 0), .advance 0, .advance 0, .table 0, .table 0, .tableAnswer 0 (.ok (itemsTable ∅)),
      .table 0, .table 0, .tableFlight (.complete 0), .tableFlight (.claim 0), .advance 0, .advance 0]
    listsUnled rfl (fun _ _ _ _ h => h) (by decide +kernel)
  obtain ⟨⟨count,leaders,details⟩,hentry,hlisted⟩ := System.exists_of_any hleaderless
  rw [Bool.and_eq_true,isNone_iff_eq_none,decide_eq_true_eq] at hlisted
  have hleaderless : s.Leaderless itemsPath 0 := ⟨count,leaders,details,hentry,hlisted⟩
  refine ⟨s,hs,hleaderless,itemsAnswers,itemsLeader,itemsAnswers_elected,?_⟩
  rintro ⟨s',_,_,hs',hfetches,_⟩
  exact hfetches (unfetched_of_leaderless s.tables hleaderless hs')
end FlussGo
