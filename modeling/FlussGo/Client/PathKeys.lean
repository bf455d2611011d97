import FlussGo.Client.Origins
import FlussGo.Client.PartitionCreator
/-!
# Refreshes and creations of one path

Refreshes of partitions and dynamic creations are shared under the text of their path. A call is served by
the work of its own path as long as the paths in use have different texts.
-/
namespace FlussGo
open List
/-- No name can be mistaken for the end of the one before it in the text of the path. -/
def PhysicalTablePath.Plain (path : PhysicalTablePath) : Prop :=
  '.' ∉ path.tablePath.database.toList ∧ '(' ∉ path.tablePath.table.toList

section Keys
variable {p q : PhysicalTablePath}

private theorem key_toList (p : PhysicalTablePath) : ∃ rest, rest.takeWhile (· ≠ '(') = [] ∧
    (physicalTableKey p).toList = p.tablePath.database.toList ++ '.' :: (p.tablePath.table.toList ++ rest) := by
  unfold physicalTableKey PhysicalTablePath.text TablePath.text
  split
  · exact ⟨[],rfl,by simp⟩
  · exact ⟨"(p=".toList ++ p.partition.toList ++ [')'],by simp,by simp⟩

private theorem takeWhile_part {sep : Char} {part rest : List Char} (h : sep ∉ part) :
    (part ++ rest).takeWhile (· ≠ sep) = part ++ rest.takeWhile (· ≠ sep) := by
  apply takeWhile_append_of_pos
  intro x hx
  exact decide_eq_true fun heq => h (heq ▸ hx)

theorem physicalTableKey_injOn : Set.InjOn physicalTableKey {p | p.Plain} := by
  intro p hp q hq hkey
  obtain ⟨rest,hr,hpk⟩ := key_toList p
  obtain ⟨rest',hr',hqk⟩ := key_toList q
  rw [hkey,hqk] at hpk
  have hd := congrArg (takeWhile (· ≠ '.')) hpk
  rw [takeWhile_part hp.1,takeWhile_part hq.1] at hd
  have hdb : q.tablePath.database.toList = p.tablePath.database.toList := by simpa using hd
  rw [hdb] at hpk
  have ht := congrArg (takeWhile (· ≠ '(')) (cons.inj (append_cancel_left hpk)).2
  rw [takeWhile_part hp.2,takeWhile_part hq.2,hr,hr',append_nil,append_nil] at ht
  refine physicalTableKey_inj ?_ hkey
  exact congrArg₂ TablePath.mk (String.toList_inj.mp hdb.symm) (String.toList_inj.mp ht.symm)
end Keys
/-- The path was put in the cache or found there, and its entry came from a fetch that covers it. -/
def Router.FetchedAndCached (s : Router) (path : PhysicalTablePath) : Prop :=
  ∃ origin, (path, origin) ∈ s.confirmed ∧ s.Fetched path origin

def Router.Confirmed (s : Router) (path : PhysicalTablePath) : Prop := ∃ origin, (path, origin) ∈ s.confirmed

def tableKind : FlightKind TablePath TablePath TableWork CallState where
  key := fun path => path
  subject := TableWork.path
  finished w := w.phase = .finished none
  about c := c.call.path.tablePath
  awaits c waiter := c.phase = .awaitTable waiter

def partitionKind : FlightKind String PhysicalTablePath PartitionWork CallState where
  key := physicalTableKey
  subject := PartitionWork.path
  finished w := w.phase = .finished none
  about c := c.call.path
  awaits c waiter := c.phase = .awaitPartition waiter

structure PathInv (paths : Set PhysicalTablePath) (s : Router) : Prop where
  called : ∀ c ∈ s.calls, c.call.path ∈ paths
  tables : tableKind.Inv Set.univ (fun path => s.Confirmed ⟨path,""⟩) s.flights s.tableWorks s.calls
  partitions : partitionKind.Inv paths s.Confirmed s.partitionFlights s.partitionWorks s.calls
  done : ∀ c ∈ s.calls, c.phase = .returned .done → s.Confirmed c.call.path
/-- Every call that begins is one for a path of the set. -/
def BeginsIn (paths : Set PhysicalTablePath) (_ : Router) (e : RouterEvent) : Prop :=
  ∀ call, e = .begin call → call.path ∈ paths

section Steps
variable {paths : Set PhysicalTablePath} {config : RouterConfig} {s s' : Router} {id n : Nat}

private theorem confirmed_confirm (s : Router) (path : PhysicalTablePath) (origin : Nat) :
    (s.confirm path origin).Confirmed path := ⟨origin,mem_append_right _ (mem_singleton.mpr rfl)⟩

variable (h : PathInv paths s)
include h

private theorem PathInv.of_same (hfl : s'.flights = s.flights)
    (hp : s'.partitionFlights = s.partitionFlights) (ht : s'.tableWorks = s.tableWorks)
    (hpa : s'.partitionWorks = s.partitionWorks) (hca : s'.calls = s.calls)
    (hco : ∀ entry ∈ s.confirmed, entry ∈ s'.confirmed) : PathInv paths s' := by
  have hk : ∀ path, s.Confirmed path → s'.Confirmed path := fun _ ⟨origin,hold⟩ => ⟨origin,hco _ hold⟩
  refine ⟨?_,?_,?_,?_⟩
  · rw [hca]
    exact h.called
  · rw [hfl,ht,hca]
    exact h.tables.mono fun path => hk _
  · rw [hp,hpa,hca]
    exact h.partitions.mono hk
  · rw [hca]
    exact fun c hc hd => hk _ (h.done c hc hd)

private theorem PathInv.setTable {w : TableWork} {phase : WorkPhase TableMetadata}
    (hw : s.tableWorks[id]? = some w) (hph : phase = .finished none → s.Confirmed ⟨w.path,""⟩) :
    PathInv paths (s.setTable id w phase) :=
  ⟨h.called,h.tables.setWork hw rfl hph,h.partitions,h.done⟩

private theorem PathInv.setPartition {w : PartitionWork} {phase : WorkPhase PartitionMetadata}
    (hw : s.partitionWorks[id]? = some w) (hph : phase = .finished none → s.Confirmed w.path) :
    PathInv paths (s.setPartition id w phase) :=
  ⟨h.called,h.tables,h.partitions.setWork hw rfl hph,h.done⟩

private theorem PathInv.confirm (path : PhysicalTablePath) (origin : Nat) : PathInv paths (s.confirm path origin) :=
  h.of_same rfl rfl rfl rfl rfl fun _ => mem_append_left _

private theorem PathInv.enterTable (path : TablePath) (force : Bool) : PathInv paths (s.enterTable path force) ∧
      WaitsFor (s.enterTable path force).flights ((s.enterTable path force).tableWorks.map TableWork.path)
        s.flights.waiters.length path := by
  have hf : ¬ tableKind.finished ⟨path,force,.starting⟩ := by simp [tableKind]
  obtain ⟨hinv,hwa⟩ := h.tables.enter (w := TableWork.mk path force .starting) (fun _ _ _ _ heq => heq) (Set.mem_univ _) hf
  exact ⟨⟨h.called,hinv,h.partitions,h.done⟩,hwa⟩

private theorem PathInv.enterPartition (hk : Set.InjOn physicalTableKey paths)
    {path : PhysicalTablePath} (hpath : path ∈ paths) (force : Bool) : PathInv paths (s.enterPartition path force) ∧
      WaitsFor (s.enterPartition path force).partitionFlights
        ((s.enterPartition path force).partitionWorks.map PartitionWork.path) s.partitionFlights.waiters.length path := by
  have hf : ¬ partitionKind.finished ⟨path,force,.starting⟩ := by simp [partitionKind]
  obtain ⟨hinv,hwa⟩ := h.partitions.enter (w := PartitionWork.mk path force .starting) hk hpath hf
  exact ⟨⟨h.called,h.tables,hinv,h.done⟩,hwa⟩

private theorem PathInv.setCall {c : CallState} {phase : CallPhase} (hc : c ∈ s.calls)
    (ht : ∀ waiter, phase = .awaitTable waiter →
      WaitsFor s.flights (s.tableWorks.map TableWork.path) waiter c.call.path.tablePath)
    (hp : ∀ waiter, phase = .awaitPartition waiter →
      WaitsFor s.partitionFlights (s.partitionWorks.map PartitionWork.path) waiter c.call.path)
    (hd : phase = .returned .done → s.Confirmed c.call.path) : PathInv paths (s.setCall n c phase) :=
  ⟨forall_mem_set h.called (h.called c hc),h.tables.setCall ht,h.partitions.setCall hp,forall_mem_set h.done hd⟩

private theorem CallMoves.confirmed {c : CallState} {phase : CallPhase} (hm : CallMoves s c phase)
    (hc : s.calls[n]? = some c) (hd : phase = .returned .done) : s.Confirmed c.call.path := by
  have hmem := mem_of_getElem? hc
  obtain ⟨-,⟨waiter,hp,hr,he⟩ | ⟨waiter,hp,hr⟩⟩ := hm.done hd
  · have hco : s.Confirmed ⟨c.call.path.tablePath,""⟩ := h.tables.result hmem hp hr
    rwa [← he] at hco
  · exact h.partitions.result hmem hp hr

private theorem begin_path {call : RouterCall} (hin : call.path ∈ paths) : PathInv paths (s.begin config call) := by
  obtain ⟨-,hd,⟨ht,hpa⟩,-⟩ := beginPhase_plain config call
  exact ⟨forall_mem_concat h.called hin,h.tables.push ht,h.partitions.push hpa,
    forall_mem_concat h.done fun hp => absurd hp hd⟩

private theorem WorkMoves.path {R : Type} {path : PhysicalTablePath} {phase next : WorkPhase R}
    (hm : WorkMoves s path phase s' next) : PathInv paths s' ∧ s'.tableWorks = s.tableWorks ∧
      s'.partitionWorks = s.partitionWorks ∧ (next = .finished none → s'.Confirmed path) := by
  cases hm with
  | idles hi => exact ⟨h,rfl,rfl,fun hf => absurd hf hi.finished⟩
  | finds => exact ⟨h.confirm _ _,rfl,rfl,fun _ => confirmed_confirm s _ _⟩
  | fetches => exact ⟨h.of_same rfl rfl rfl rfl rfl fun _ hold => hold,rfl,rfl,by simp⟩
  | answered => exact ⟨h,rfl,rfl,by simp⟩

theorem pathInv_step {e : RouterEvent} (hk : Set.InjOn physicalTableKey paths)
    (hg : BeginsIn paths s e) (hs : s.step config e = some s') : PathInv paths s' := by
  cases Router.step_moves hs with
  | begins he => exact begin_path h (hg _ he)
  | advances hc hm =>
    apply h.setCall (mem_of_getElem? hc)
    · exact fun waiter hp => absurd hp (hm.awaits.1 waiter)
    · exact fun waiter hp => absurd hp (hm.awaits.2 waiter)
    · exact fun hd => hm.confirmed h hc hd
  | joinsTable hc =>
    obtain ⟨he,hwa⟩ := h.enterTable _ _
    refine he.setCall (mem_of_getElem? hc) ?_ (by simp) (by simp)
    intro waiter hw
    obtain rfl := CallPhase.awaitTable.inj hw
    exact hwa
  | joinsPartition hc =>
    obtain ⟨he,hwa⟩ := h.enterPartition hk (h.called _ (mem_of_getElem? hc)) _
    refine he.setCall (mem_of_getElem? hc) (by simp) ?_ (by simp)
    intro waiter hw
    obtain rfl := CallPhase.awaitPartition.inj hw
    exact hwa
  | @forgets path =>
    obtain ⟨tables,invalidated,heq⟩ := s.invalidatePhysical_eq path
    exact heq ▸ h.of_same rfl rfl rfl rfl rfl fun _ hold => hold
  | tableFlight hf => exact ⟨h.called,h.tables.flight hf,h.partitions,h.done⟩
  | partitionFlight hf => exact ⟨h.called,h.tables,h.partitions.flight hf,h.done⟩
  | @table id w t phase hw hm =>
    cases hm with
    | works hm =>
      obtain ⟨ht,hsame,-,hf⟩ := hm.path h
      exact ht.setTable (hsame ▸ hw) hf
    | @installs fetch table =>
      have hi : PathInv paths (s.installTable w.path fetch table) := h.of_same rfl rfl rfl rfl rfl fun _ hold => hold
      exact (hi.confirm _ fetch).setTable hw fun _ => confirmed_confirm _ _ fetch
    | @returns err flights hp hfl =>
      have hfin : err = none → tableKind.finished w := by
        rintro rfl
        exact hp
      have hr : PathInv paths { s with flights } := ⟨h.called,h.tables.workReturns hw hfin hfl,h.partitions,h.done⟩
      exact hr.setTable hw (by simp)
  | @partition id w t phase hw hm =>
    cases hm with
    | works hm =>
      obtain ⟨ht,-,hsame,hf⟩ := hm.path h
      exact ht.setPartition (hsame ▸ hw) hf
    | joins => exact (h.enterTable _ true).1.setPartition hw (by simp)
    | @applies fetch partition table _ _ _ _ hm =>
      have ha : PathInv paths (s.applyPhysicalMetadata w.path table fetch partition) :=
        h.of_same rfl rfl rfl rfl rfl fun _ hold => hold
      obtain ⟨ht,-,hsame,hf⟩ := hm.path ha
      exact ht.setPartition (hsame ▸ hw) hf
    | @returns err partitionFlights hp hfl =>
      have hfin : err = none → partitionKind.finished w := by
        rintro rfl
        exact hp
      have hr : PathInv paths { s with partitionFlights } :=
        ⟨h.called,h.tables,h.partitions.workReturns hw hfin hfl,h.done⟩
      exact hr.setPartition hw (by simp)

omit h

theorem pathInv_reachable (hk : Set.InjOn physicalTableKey paths)
    (h : ((routerSystem config).guarded (BeginsIn paths)).Reachable s) : PathInv paths s := by
  refine System.Reachable.invariant (P := PathInv paths) ?_ ?_ h
  · rintro _ rfl
    exact ⟨by simp,.init,.init,by simp⟩
  · rintro s e s' - hinv ⟨hs,hg⟩
    exact pathInv_step hinv hk hg hs
end Steps

theorem paths_are_kept_apart (config : RouterConfig) (metadataAttempts : Nat) :
    Set.InjOn physicalTableKey {path | path.Plain} ∧ ∀ paths, Set.InjOn physicalTableKey paths →
      (∀ s, ((routerSystem config).guarded (BeginsIn paths)).Reachable s → ∀ c ∈ s.calls, ∀ path,
        c.call = .refreshPhysical path → c.phase = .returned .done → s.FetchedAndCached path) ∧
      ∀ s, ((creatorSystem metadataAttempts).guarded (EnsuresIn paths)).Reachable s → ∀ c ∈ s.calls,
        c.path.partition ≠ "" → c.phase = .returned none → s.Checked c.path := by
  refine ⟨physicalTableKey_injOn,fun paths hk => ⟨?_,?_⟩⟩
  · intro s h c hc path hcall hdone
    obtain ⟨origin,hconfirmed⟩ := (pathInv_reachable hk h).done c hc hdone
    rw [hcall] at hconfirmed
    exact ⟨origin,hconfirmed,(originInv_reachable h.of_guarded).confirmed _ hconfirmed⟩
  · intro s h c hc hname hreturned
    exact ((ensureInv_reachable hk h).returned c hc hreturned).resolve_left hname

private def innerDot : PhysicalTablePath := ⟨⟨"a","b.c"⟩,"x"⟩
private def outerDot : PhysicalTablePath := ⟨⟨"a.b","c"⟩,"x"⟩

private def tableFetched (call : Nat) (path : PhysicalTablePath) : List RouterEvent :=
  [.begin (.refreshPhysical path), .advance call, .advance call, .advance call, .table call, .table call,
    .tableAnswer call (.ok { path := path.tablePath }), .table call, .table call, .tableFlight (.complete call),
    .tableFlight (.claim call), .advance call]

private def partitionFetched (work : Nat) (path : PhysicalTablePath) : List RouterEvent :=
  [.partitionAnswer work (.ok ⟨path,1,∅,∅,1⟩), .partition work, .partition work, .partitionFlight (.complete work)]

private def ordersPart : PhysicalTablePath := ⟨⟨"a","orders"⟩,"x"⟩
private def itemsPart : PhysicalTablePath := ⟨⟨"a","items"⟩,"x"⟩
/-- A refresh and a creation, each beside one of another partition that has not ended. -/
theorem paths_are_kept_apart_beside :
    (∃ s, ((routerSystem {}).guarded (BeginsIn {p | p.Plain})).Reachable s ∧ s.FetchedAndCached ordersPart) ∧
      ∃ s, ((creatorSystem 3).guarded (EnsuresIn {p | p.Plain})).Reachable s ∧ s.Checked ordersPart := by
  obtain ⟨hk,h⟩ := paths_are_kept_apart {} 3
  obtain ⟨hrouter,hcreator⟩ := h _ hk
  have hplain : ordersPart.Plain ∧ itemsPart.Plain := ⟨⟨by decide,by decide⟩,by decide,by decide⟩
  constructor
  · obtain ⟨s,hreach,hs⟩ := System.Reachable.of_foldlM_any
      (T := (routerSystem {}).guarded (BeginsIn {p | p.Plain})) (s := {}) (Router.step {})
      (tableFetched 0 itemsPart ++ [.advance 0, .partition 0, .partition 0] ++ tableFetched 1 ordersPart ++
        [.advance 1, .partition 1, .partition 1] ++ partitionFetched 1 ordersPart ++
        [.partitionFlight (.claim 1), .advance 1])
      (fun s => decide (∃ c ∈ s.calls, c.call = .refreshPhysical ordersPart ∧ c.phase = .returned .done)) rfl
      (by
        refine fun _ e _ he hs => ⟨hs,?_⟩
        rintro call rfl
        have hcall : call = .refreshPhysical itemsPart ∨ call = .refreshPhysical ordersPart := by
          simpa [tableFetched,partitionFetched] using he
        rcases hcall with rfl | rfl
        · exact hplain.2
        · exact hplain.1)
      (by decide +kernel)
    obtain ⟨c,hc,hcall,hdone⟩ := of_decide_eq_true hs
    exact ⟨s,hreach,hrouter s hreach c hc ordersPart hcall hdone⟩
  · obtain ⟨s,hreach,hs⟩ := System.Reachable.of_foldlM_any
      (T := (creatorSystem 3).guarded (EnsuresIn {p | p.Plain})) (s := {}) (Creator.step 3)
      [.begin itemsPart ["k"], .advance 0, .begin ordersPart ["k"], .advance 1,
        .answer 1 (some (errorf .unknownPartition "x")), .answer 1 none, .answer 1 none, .finish 1,
        .flight (.complete 1), .flight (.claim 1), .advance 1]
      (fun s => decide (⟨ordersPart,.returned none⟩ ∈ s.calls)) rfl
      (by
        refine fun _ e _ he hs => ⟨hs,?_⟩
        rintro path keys rfl
        have hpath : path = itemsPart ∧ keys = ["k"] ∨ path = ordersPart ∧ keys = ["k"] := by simpa using he
        rcases hpath with ⟨rfl,-⟩ | ⟨rfl,-⟩
        · exact hplain.2
        · exact hplain.1)
      (by decide +kernel)
    exact ⟨s,hreach,hcreator s hreach _ (of_decide_eq_true hs) (by decide) rfl⟩
/-- `RefreshPhysical` and `Ensure` of one partition return nil although only the other one was fetched
and checked. -/
theorem paths_stand_in :
    innerDot ≠ outerDot ∧ innerDot.validate = .ok () ∧ outerDot.validate = .ok () ∧
      (∃ s, (routerSystem {}).Reachable s ∧ (∃ c ∈ s.calls, c.call = .refreshPhysical innerDot ∧ c.phase = .returned .done) ∧
        ¬ s.FetchedAndCached innerDot ∧ innerDot ∉ s.fetches ∧ s.origin innerDot = none) ∧
      ∃ s, (creatorSystem 3).Reachable s ∧ ⟨innerDot, .returned none⟩ ∈ s.calls ∧
        s.log = [.checked outerDot none] := by
  refine ⟨by decide,by decide +kernel,by decide +kernel,?_,?_⟩
  · obtain ⟨s,hreach,hs⟩ := System.Reachable.of_foldlM_any (T := routerSystem {}) (s := {}) (Router.step {})
      (tableFetched 0 outerDot ++ [.advance 0, .partition 0, .partition 0] ++ tableFetched 1 innerDot ++ [.advance 1] ++
        partitionFetched 0 outerDot ++ [.partitionFlight (.claim 1), .advance 1])
      (fun s => decide ((∃ c ∈ s.calls, c.call = .refreshPhysical innerDot ∧ c.phase = .returned .done) ∧
        innerDot ∉ s.confirmed.map Prod.fst ∧ innerDot ∉ s.fetches ∧ s.origin innerDot = none))
      rfl (fun _ _ _ _ h => h) (by decide +kernel)
    obtain ⟨hdone,hconfirmed,hfetches,horigin⟩ := of_decide_eq_true hs
    refine ⟨s,hreach,hdone,?_,hfetches,horigin⟩
    rintro ⟨origin,hmem,-⟩
    exact hconfirmed (mem_map.mpr ⟨_,hmem,rfl⟩)
  · obtain ⟨s,hreach,hs⟩ := System.Reachable.of_foldlM_any (T := creatorSystem 3) (s := {}) (Creator.step 3)
      [.begin outerDot ["k"], .advance 0, .begin innerDot ["k"], .advance 1, .answer 0 none, .finish 0,
        .flight (.complete 0), .flight (.claim 1), .advance 1]
      (fun s => decide (⟨innerDot,.returned none⟩ ∈ s.calls ∧ s.log = [.checked outerDot none]))
      rfl (fun _ _ _ _ h => h) (by decide +kernel)
    exact ⟨s,hreach,of_decide_eq_true hs⟩
end FlussGo
