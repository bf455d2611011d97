import FlussGo.Client.Origins
/-!
# Routes after an invalidation

Every cached entry, and every fetch that may become one, against the last invalidation of its path. An
invalidation does not see the fetches in flight.
-/
namespace FlussGo
open List Router FlussGo.System
/-- A fetch in flight may still install an entry of the path, or of one of its partitions if the path is a
table. -/
def Router.fetching (s : Router) (path : PhysicalTablePath) : Bool :=
  (s.tableWorks.any fun w => w.phase.fetch.isSome && w.path == path.tablePath) ||
    s.partitionWorks.any fun w => w.phase.fetch.isSome &&
      (w.path == path || path.partition == "" && w.path.tablePath == path.tablePath)
/-- An invalidation while a fetch of the path is in flight. -/
def Router.overtakes (s : Router) : RouterEvent → Bool
  | .invalidate path => s.fetching ⟨path,""⟩
  | .invalidatePhysical path => s.fetching path
  | _ => false

def InvalidatesIdle (s : Router) (e : RouterEvent) : Prop := s.overtakes e = false

structure FreshInv (s : Router) : Prop where
  supplied : Supplied (fun path fetch => s.invalidated path ≤ fetch) s
  since : ∀ c ∈ s.calls, c.since ≤ s.invalidated c.call.path
  leaders : ∀ c ∈ s.calls, ∀ node count origin, c.phase = .returned (.leader node count origin) → c.since ≤ origin
  started : ∀ path, s.invalidated path ≤ s.fetches.length

section Steps
variable {config : RouterConfig} {s s' : Router} {n : Nat} {path : PhysicalTablePath}

private theorem since_step (h : FreshInv s) (hs : CallsStep config s s')
    (hi : ∀ path, s.invalidated path ≤ s'.invalidated path) :
    ∀ c ∈ s'.calls, c.since ≤ s'.invalidated c.call.path := by
  have hold : ∀ c ∈ s.calls, c.since ≤ s'.invalidated c.call.path :=
    fun c hc => (h.since c hc).trans (hi c.call.path)
  have hset : ∀ {n : Nat} {c : CallState} (phase : CallPhase), s.calls[n]? = some c →
      ∀ c' ∈ s.calls.set n { c with phase }, c'.since ≤ s'.invalidated c'.call.path :=
    fun {_ c} _ hc => forall_mem_set hold (hold c (mem_of_getElem? hc))
  cases hs with
  | kept hca =>
    rw [hca]
    exact hold
  | began call hs' =>
    subst hs'
    exact forall_mem_concat hold (hi call.path)
  | moved n c phase hc hs' =>
    subst hs'
    exact hset phase hc
  | joinedTable _ _ _ hc hs' | joinedPartition _ _ hc hs' =>
    subst hs'
    exact hset _ hc

private theorem leaders_step (h : FreshInv s) (hs : CallsStep config s s') :
    ∀ c ∈ s'.calls, ∀ node count origin, c.phase = .returned (.leader node count origin) → c.since ≤ origin := by
  refine hs.leaders (Q := fun c origin => c.since ≤ origin) h.leaders ?_
  intro c hc phase origin ho
  exact (h.since c hc).trans (h.supplied.cached _ origin ho)

private theorem supplies_fresh {e : RouterEvent} (h : FreshInv s) (hst : s.step config e = some s')
    (he : e.forgets = none) : FreshInv s' := by
  have hs := supplied_step h.supplied hst fun _ path _ _ => h.started path
  have hi := hs.invalidated he
  have hc := step_calls hst
  refine ⟨?_,since_step h hc (by simp [hi]),leaders_step h hc,?_⟩
  · rw [hi]
    exact hs.supplied
  intro path
  rw [hi]
  have := h.started path
  rcases hs.fetches with hsa | ⟨fetched,hnew⟩
  · rw [hsa]
    exact this
  · rw [hnew,length_append]
    omega

private theorem fetching_table (hi : s.fetching path = false) {w : TableWork} (hw : w ∈ s.tableWorks)
    (hf : w.phase.fetch.isSome = true) {p : PhysicalTablePath} (hp : p.tablePath = w.path) : ¬ Covers path p := by
  intro hco
  have hpa : w.path = path.tablePath := by
    rw [← hp]
    exact (covers_iff.mp hco).elim (congrArg _) (·.2)
  have ht : s.fetching path = true := by
    rw [fetching,Bool.or_eq_true]
    exact .inl (any_eq_true.mpr ⟨w,hw,by simp [hf,hpa]⟩)
  simp [ht] at hi

private theorem fetching_partition (hi : s.fetching path = false) {w : PartitionWork}
    (hw : w ∈ s.partitionWorks) (hf : w.phase.fetch.isSome = true) : ¬ Covers path w.path := by
  intro hco
  have ht : s.fetching path = true := by
    rw [fetching,Bool.or_eq_true]
    exact .inr (any_eq_true.mpr ⟨w,hw,by simpa [hf] using covers_iff.mp hco⟩)
  simp [ht] at hi

private theorem invalidatePhysical_invalidated (s : Router) (path p : PhysicalTablePath) :
    Covers path p ∧ (s.invalidatePhysical path).invalidated p = s.fetches.length ∨
      ¬ Covers path p ∧ (s.invalidatePhysical path).invalidated p = s.invalidated p := by
  rw [covers_iff]
  unfold invalidatePhysical
  split
  next he =>
    by_cases hp : p.tablePath = path.tablePath
    · exact .inl ⟨.inr ⟨he,hp⟩,by simp [invalidate,hp]⟩
    · exact .inr ⟨by rintro (rfl | ⟨-,heq⟩); exacts [hp rfl,hp heq],by simp [invalidate,hp]⟩
  next hn =>
    by_cases hp : p = path
    · exact .inl ⟨.inl hp,by simp [hp]⟩
    · exact .inr ⟨by simp [hp,hn],by simp [Function.update_of_ne hp]⟩

private theorem invalidated_le (h : FreshInv s) (path p : PhysicalTablePath) :
    s.invalidated p ≤ (s.invalidatePhysical path).invalidated p := by
  rcases invalidatePhysical_invalidated s path p with ⟨-,hnow⟩ | ⟨-,hsame⟩
  · rw [hnow]
    exact h.started p
  · exact hsame.ge

private theorem invalidatePhysical_fresh (h : FreshInv s) (hi : s.fetching path = false) :
    FreshInv (s.invalidatePhysical path) := by
  have hle := invalidated_le h path
  have hm := invalidatePhysical_invalidated s path
  have ho := invalidatePhysical_origin s path
  obtain ⟨tables,invalidated,heq⟩ := s.invalidatePhysical_eq path
  rw [heq] at hle hm ho ⊢
  -- what the invalidation does not cover is as it was
  have hk : ∀ {p fetch}, ¬ Covers path p → s.invalidated p ≤ fetch → invalidated p ≤ fetch := by
    intro p fetch hn hold
    rcases hm p with ⟨hco,-⟩ | ⟨-,hsame⟩
    · exact absurd hco hn
    · exact hsame.trans_le hold
  have hc : CallsStep {} s { s with tables, invalidated } := .kept rfl
  refine ⟨⟨?_,?_,?_⟩,since_step h hc hle,leaders_step h hc,?_⟩
  · intro p origin hp
    obtain ⟨hold,hmi⟩ := ho p origin hp
    exact hk hmi (h.supplied.cached p origin hold)
  · intro w hw fetch hf p hp
    exact hk (fetching_table hi hw (by simp [hf]) hp) (h.supplied.tableWorks w hw fetch hf p hp)
  · intro w hw fetch hf
    exact hk (fetching_partition hi hw (by simp [hf])) (h.supplied.partitionWorks w hw fetch hf)
  · intro p
    rcases hm p with ⟨-,hnow⟩ | ⟨-,hsame⟩
    · exact hnow.le
    · exact hsame.trans_le (h.started p)

theorem freshInv_step {e : RouterEvent} (h : FreshInv s) (hg : InvalidatesIdle s e)
    (hs : s.step config e = some s') : FreshInv s' := by
  cases he : e.forgets with
  | none => exact supplies_fresh h hs he
  | some path =>
    rw [step_forgets he hs]
    apply invalidatePhysical_fresh h
    cases e <;> simp_all [InvalidatesIdle,overtakes,RouterEvent.forgets]

theorem freshInv_reachable (h : ((routerSystem config).guarded InvalidatesIdle).Reachable s) : FreshInv s := by
  refine System.Reachable.invariant (P := FreshInv) ?_ ?_ h
  · rintro _ rfl
    exact ⟨⟨by simp [origin],by simp,by simp⟩,by simp,by simp,by simp⟩
  · rintro s e s' - hinv ⟨hs,hg⟩
    exact freshInv_step hinv hg hs
end Steps
/-- A run in which the path is invalidated when `started` fetches have started, a route for it begins
later, and the route returns a leader from the fetch `origin`. -/
structure RoutedAfter (T : System Router RouterEvent) (path : PhysicalTablePath) (started origin : Nat) (s : Router) :
    Prop where
  run : ∃ before e invalidated between bucket begun c node count,
    T.Reachable before ∧ before.fetches.length = started ∧
      (e = .invalidate path.tablePath ∨ e = .invalidatePhysical path) ∧ T.step before e invalidated ∧
      T.Leads invalidated between ∧ T.step between (.begin (.route path bucket)) begun ∧ T.Leads begun s ∧
      s.calls[between.calls.length]? = some c ∧ c.phase = .returned (.leader node count origin)

section Runs
variable {config : RouterConfig} {s s' : Router}

private theorem invalidated_step {e : RouterEvent} (h : FreshInv s) (hs : s.step config e = some s')
    (path : PhysicalTablePath) : s.invalidated path ≤ s'.invalidated path := by
  cases he : e.forgets with
  | none => rw [(supplied_step h.supplied hs fun _ path _ _ => h.started path).invalidated he]
  | some p =>
    rw [step_forgets he hs]
    exact invalidated_le h p path

private theorem invalidated_leads (h : ((routerSystem config).guarded InvalidatesIdle).Reachable s)
    (hl : ((routerSystem config).guarded InvalidatesIdle).Leads s s') (path : PhysicalTablePath) :
    s.invalidated path ≤ s'.invalidated path := by
  obtain ⟨es,hrun⟩ := hl
  induction hrun with
  | nil => exact Nat.le_refl _
  | snoc hrun hs ih =>
    exact ih.trans (invalidated_step (freshInv_reachable (h.leads ⟨_,hrun⟩)) hs.1 path)

private theorem call_leads {n : Nat} {c : CallState} (hc : s.calls[n]? = some c)
    (hl : ((routerSystem config).guarded InvalidatesIdle).Leads s s') :
    ∃ phase, s'.calls[n]? = some { c with phase } := by
  obtain ⟨es,hrun⟩ := hl
  induction hrun with
  | nil => exact ⟨c.phase,hc⟩
  | snoc hrun hs ih =>
    obtain ⟨phase,hp⟩ := ih
    obtain ⟨phase',hp'⟩ := (step_calls hs.1).call hp
    exact ⟨phase',hp'⟩

private theorem invalidates {e : RouterEvent} {path : PhysicalTablePath}
    (he : e = .invalidate path.tablePath ∨ e = .invalidatePhysical path) (hs : s.step config e = some s') :
    s'.invalidated path = s.fetches.length := by
  obtain ⟨p,hp,hco⟩ : ∃ p, e.forgets = some p ∧ Covers p path := by
    rcases he with rfl | rfl
    · exact ⟨_,rfl,.inr rfl⟩
    · exact ⟨_,rfl,.inl rfl⟩
  rw [step_forgets hp hs]
  exact (invalidatePhysical_invalidated s p path).elim (·.2) fun h => absurd hco h.1
end Runs

theorem routes_come_from_later_fetches (config : RouterConfig) (path : PhysicalTablePath) (started origin : Nat)
    (s : Router)
    (h : RoutedAfter ((routerSystem config).guarded InvalidatesIdle) path started origin s) :
    started ≤ origin ∧ s.Fetched path origin := by
  obtain ⟨before,e,invalidated,between,bucket,begun,c,node,count,hbefore,hstarted,he,hinvalidate,hbetween,
    hbegin,hleads,hc,hleader⟩ := h.run
  have hinvalidated := hbefore.step hinvalidate
  have hreach := hinvalidated.leads hbetween
  have hs := (hreach.step hbegin).leads hleads
  have hbegun : begun = between.begin config (.route path bucket) := (Option.some.inj hbegin.1).symm
  subst hbegun
  obtain ⟨phase,hphase⟩ := call_leads (n := between.calls.length) (c :=
    { call := .route path bucket, since := between.invalidated path, phase := beginPhase config (.route path bucket) })
    getElem?_concat_length hleads
  cases hphase.symm.trans hc
  constructor
  · calc started = invalidated.invalidated path := by rw [invalidates he hinvalidate.1,hstarted]
      _ ≤ between.invalidated path := invalidated_leads hinvalidated hbetween path
      _ ≤ origin := (freshInv_reachable hs).leaders _ (mem_of_getElem? hc) node count origin hleader
  · exact (originInv_reachable hs.of_guarded).leaders _ (mem_of_getElem? hc) node count origin hleader

private theorem routedAfter_of_play {T : System Router RouterEvent} (step : Router → RouterEvent → Option Router)
    (hi : T.init {}) (hs : ∀ t e t', step t e = some t' → T.step t e t') (before between after : List RouterEvent)
    (e : RouterEvent) (path : PhysicalTablePath) (bucket : Int) (node : ServerNode) (count : Int) (started origin : Nat)
    (he : e = .invalidate path.tablePath ∨ e = .invalidatePhysical path)
    (hp : ((before.foldlM step {}).any fun s₀ => s₀.fetches.length == started &&
      (step s₀ e).any fun s₁ => (between.foldlM step s₁).any fun s₂ =>
        (step s₂ (.begin (.route path bucket))).any fun s₃ => (after.foldlM step s₃).any fun s =>
          s.calls[s₂.calls.length]?.any fun c => c.phase == .returned (.leader node count origin)) = true) :
    ∃ s, RoutedAfter T path started origin s := by
  obtain ⟨s₀,h₀,hp⟩ := exists_of_any hp
  obtain ⟨hst,hp⟩ := Bool.and_eq_true_iff.mp hp
  obtain ⟨s₁,h₁,hp⟩ := exists_of_any hp
  obtain ⟨s₂,h₂,hp⟩ := exists_of_any hp
  obtain ⟨s₃,h₃,hp⟩ := exists_of_any hp
  obtain ⟨s,h,hp⟩ := exists_of_any hp
  obtain ⟨c,hc,hl⟩ := exists_of_any hp
  refine ⟨s,⟨s₀,e,s₁,s₂,bucket,s₃,c,node,count,?_,by simpa using hst,he,hs _ _ _ h₁,?_,
    hs _ _ _ h₃,?_,hc,by simpa using hl⟩⟩
  · exact .of_foldlM hi h₀ fun t e t' _ => hs t e t'
  · exact ⟨between,.of_foldlM h₂ fun t e t' _ => hs t e t'⟩
  · exact ⟨after,.of_foldlM h fun t e t' _ => hs t e t'⟩

private def orders : TablePath := ⟨"db","orders"⟩

private def ordersLedBy (node : ServerNode) : TableMetadata where
  path := orders
  id := 1
  schemaID := 1
  buckets := AList.singleton 0 node
  bucketCount := 1

private def oldLeader : ServerNode := ⟨1,"old",.tabletServer⟩
private def newLeader : ServerNode := ⟨2,"new",.tabletServer⟩

private def fetched (id waiter : Nat) (table : TableMetadata) : List RouterEvent :=
  [.table id, .table id, .tableAnswer id (.ok table), .table id, .table id, .tableFlight (.complete id),
    .tableFlight (.claim waiter)]
/-- A route, an invalidation, and a second route that fetches again. -/
theorem routes_come_from_later_fetches_orders :
    ∃ s, RoutedAfter ((routerSystem {}).guarded InvalidatesIdle) ⟨orders, ""⟩ 1 1 s ∧ 1 ≤ 1 ∧
      s.Fetched ⟨orders, ""⟩ 1 := by
  obtain ⟨s,hs⟩ := routedAfter_of_play (T := (routerSystem {}).guarded InvalidatesIdle)
    (System.barred Router.overtakes (Router.step {})) rfl (fun _ _ _ h => System.guarded_of_barred id h)
    ([.begin (.route ⟨orders,""⟩ 0), .advance 0, .advance 0] ++ fetched 0 0 (ordersLedBy oldLeader) ++
      [.advance 0, .advance 0]) []
    ([.advance 1, .advance 1] ++ fetched 1 1 (ordersLedBy newLeader) ++ [.advance 1, .advance 1])
    (.invalidate orders) ⟨orders,""⟩ 0 newLeader 1 1 1 (.inl rfl) (by decide +kernel)
  exact ⟨s,hs,routes_come_from_later_fetches {} ⟨orders,""⟩ 1 1 s hs⟩
/-- A refresh has started its fetch when the table is invalidated; the route that begins afterwards joins
it and returns the leader that the fetch had found before. -/
theorem routes_join_earlier_fetches :
    ∃ started origin s, RoutedAfter (routerSystem {}) ⟨orders, ""⟩ started origin s ∧ origin < started := by
  obtain ⟨s,hs⟩ := routedAfter_of_play (T := routerSystem {}) (Router.step {}) rfl (fun _ _ _ h => h)
    [.begin (.refresh orders), .advance 0, .table 0, .table 0] []
    [.advance 1, .advance 1, .tableAnswer 0 (.ok (ordersLedBy oldLeader)), .table 0, .table 0, .tableFlight (.complete 0),
      .tableFlight (.claim 1), .advance 1, .advance 1]
    (.invalidate orders) ⟨orders,""⟩ 0 oldLeader 1 1 0 (.inl rfl) (by decide +kernel)
  exact ⟨1,0,s,hs,by decide⟩
end FlussGo
