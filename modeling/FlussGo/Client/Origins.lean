import FlussGo.Client.Router
/-!
# Where cached entries come from

An entry reaches the router's cache through the work that fetched it. A property of fetches that holds
when they start therefore holds of every cached entry, unless an invalidation changes it.
-/
namespace FlussGo
open List Option Router WorkPhase Function
theorem physicalTableKey_inj {p q : PhysicalTablePath} (ht : p.tablePath = q.tablePath)
    (hkey : physicalTableKey p = physicalTableKey q) : p = q := by
  obtain ⟨table,name⟩ := p
  obtain ⟨table',name'⟩ := q
  obtain rfl : table = table' := ht
  simp only [physicalTableKey,PhysicalTablePath.text] at hkey
  have hl := congrArg String.toList hkey
  by_cases hn : name = "" <;> by_cases hn' : name' = ""
  · rw [hn,hn']
  · simp [hn,hn',String.toList_append] at hl
  · simp [hn,hn',String.toList_append] at hl
  · simp only [hn,hn',if_false,String.toList_append,append_assoc] at hl
    have hi := append_cancel_left (append_cancel_left hl)
    rw [String.toList_inj.mp (append_cancel_right hi)]
/-- What is fetched supplies itself and, if it is a table, the partitions of the table. -/
def Covers (fetched path : PhysicalTablePath) : Prop :=
  fetched = path ∨ fetched = ⟨path.tablePath,""⟩
/-- Every cached entry, and every fetch that may still become one, has the property for its path. -/
structure Supplied (P : PhysicalTablePath → Nat → Prop) (s : Router) : Prop where
  cached : ∀ path origin, s.origin path = some origin → P path origin
  tableWorks : ∀ w ∈ s.tableWorks, ∀ fetch, w.phase.fetch = some fetch → ∀ path : PhysicalTablePath,
    path.tablePath = w.path → P path fetch
  partitionWorks : ∀ w ∈ s.partitionWorks, ∀ fetch, w.phase.fetch = some fetch → P w.path fetch

section Steps
variable {P : PhysicalTablePath → Nat → Prop} {config : RouterConfig} {s s' : Router} {id n origin : Nat}
  {p : PhysicalTablePath}

theorem Supplied.mono {Q : PhysicalTablePath → Nat → Prop} (h : Supplied P s)
    (hPQ : ∀ path fetch, P path fetch → Q path fetch) : Supplied Q s :=
  ⟨fun path origin ho => hPQ path origin (h.cached path origin ho),
    fun w hw fetch hf path hp => hPQ path fetch (h.tableWorks w hw fetch hf path hp),
    fun w hw fetch hf => hPQ w.path fetch (h.partitionWorks w hw fetch hf)⟩

private theorem Supplied.of_same (h : Supplied P s) (hta : s'.tables = s.tables)
    (ht : s'.tableWorks = s.tableWorks) (hp : s'.partitionWorks = s.partitionWorks) : Supplied P s' := by
  have ho : ∀ path, s'.origin path = s.origin path := by
    intro path
    unfold origin
    rw [hta]
  exact ⟨fun path origin hpa => h.cached path origin ((ho path).symm.trans hpa),by rw [ht]; exact h.tableWorks,
    by rw [hp]; exact h.partitionWorks⟩

private theorem Supplied.enterTable (h : Supplied P s) (path : TablePath) (force : Bool) :
    Supplied P (s.enterTable path force) :=
  { h with tableWorks := forall_mem_entered h.tableWorks (by simp [fetch]) }

private theorem Supplied.enterPartition (h : Supplied P s) (path : PhysicalTablePath) (force : Bool) :
    Supplied P (s.enterPartition path force) :=
  { h with partitionWorks := forall_mem_entered h.partitionWorks (by simp [fetch]) }

theorem installTable_origin {path : TablePath} {fetch : Nat} {table : TableMetadata}
    (h : (s.installTable path fetch table).origin p = some origin) :
    p.tablePath = path ∧ origin = fetch ∨ p.tablePath ≠ path ∧ s.origin p = some origin := by
  obtain ⟨t,ht,hc⟩ := origin_eq_some.mp h
  by_cases hp : p.tablePath = path
  · left
    simp only [installTable,hp,update_self,some.injEq] at ht
    subst ht
    exact ⟨hp,hc.elim (fun he => he.2) fun hn => hn.2.2⟩
  · right
    simp only [installTable,update_of_ne hp] at ht
    exact ⟨hp,origin_eq_some.mpr ⟨t,ht,hc⟩⟩

theorem applyPhysicalMetadata_origin {path : PhysicalTablePath} {t : CachedTable} {fetch : Nat}
    {partition : PartitionMetadata} (ht : s.tables path.tablePath = some t)
    (h : (s.applyPhysicalMetadata path t fetch partition).origin p = some origin) :
    p = path ∧ origin = fetch ∨ s.origin p = some origin := by
  obtain ⟨t',ht',hc⟩ := origin_eq_some.mp h
  by_cases hp : p.tablePath = path.tablePath
  · simp only [applyPhysicalMetadata,hp,update_self,some.injEq] at ht'
    subst ht'
    rcases hc with ⟨he,rfl⟩ | ⟨hn,hmem,rfl⟩
    · right
      exact origin_eq_some.mpr ⟨t,hp ▸ ht,.inl ⟨he,rfl⟩⟩
    · by_cases hkey : physicalTableKey p = physicalTableKey path
      · exact .inl ⟨physicalTableKey_inj hp hkey,by simp [hkey]⟩
      · right
        simp only [AList.mem_insert,hkey,false_or] at hmem
        exact origin_eq_some.mpr ⟨t,hp ▸ ht,.inr ⟨hn,hmem,by simp [update_of_ne hkey]⟩⟩
  · right
    simp only [applyPhysicalMetadata,update_of_ne hp] at ht'
    exact origin_eq_some.mpr ⟨t',ht',hc⟩
theorem invalidate_origin {path : TablePath} (h : (s.invalidate path).origin p = some origin) :
    s.origin p = some origin ∧ p.tablePath ≠ path := by
  obtain ⟨t,ht,hc⟩ := origin_eq_some.mp h
  by_cases hp : p.tablePath = path
  · simp [invalidate,hp] at ht
  · simp only [invalidate,update_of_ne hp] at ht
    exact ⟨Router.origin_eq_some.mpr ⟨t,ht,hc⟩,hp⟩

theorem covers_iff {path : PhysicalTablePath} :
    Covers path p ↔ p = path ∨ path.partition = "" ∧ p.tablePath = path.tablePath := by
  obtain ⟨table,name⟩ := path
  simp [Covers,eq_comm,and_comm]

variable (s) in
theorem invalidatePhysical_origin (path p : PhysicalTablePath) (origin : Nat)
    (h : (s.invalidatePhysical path).origin p = some origin) : s.origin p = some origin ∧ ¬ Covers path p := by
  rw [covers_iff]
  unfold invalidatePhysical at h
  split at h
  · obtain ⟨hold,hne⟩ := invalidate_origin h
    exact ⟨hold,by rintro (rfl | ⟨-,heq⟩); exacts [hne rfl,hne heq]⟩
  rename_i hn
  obtain ⟨t',ht',hc⟩ := origin_eq_some.mp h
  by_cases hp : p.tablePath = path.tablePath
  · simp only [hp,update_self] at ht'
    obtain ⟨t,ht,rfl⟩ := map_eq_some_iff.mp ht'
    rcases hc with ⟨he,rfl⟩ | ⟨ho,hmem,rfl⟩
    · refine ⟨origin_eq_some.mpr ⟨t,hp ▸ ht,.inl ⟨he,rfl⟩⟩,?_⟩
      rintro (rfl | ⟨he,-⟩)
      exacts [hn he,hn he]
    · obtain ⟨hne,hmem⟩ := AList.mem_erase.mp hmem
      refine ⟨origin_eq_some.mpr ⟨t,hp ▸ ht,.inr ⟨ho,hmem,rfl⟩⟩,?_⟩
      rintro (rfl | ⟨he,-⟩)
      exacts [hne rfl,hn he]
  · simp only [update_of_ne hp] at ht'
    refine ⟨origin_eq_some.mpr ⟨t',ht',hc⟩,?_⟩
    rintro (rfl | ⟨he,-⟩)
    exacts [hp rfl,hn he]
/-- One step: it starts at most one fetch, and what the works confirm has the property. -/
structure SuppliesStep (P : PhysicalTablePath → Nat → Prop) (e : RouterEvent) (s s' : Router) : Prop where
  supplied : Supplied P s'
  fetches : s'.fetches = s.fetches ∨ ∃ fetched, s'.fetches = s.fetches ++ [fetched]
  confirmed : s'.confirmed = s.confirmed ∨ ∃ path origin, s'.confirmed = s.confirmed ++ [(path, origin)] ∧ P path origin
  invalidated : e.forgets = none → s'.invalidated = s.invalidated

variable {e : RouterEvent}

private theorem SuppliesStep.of_same (h : Supplied P s') (hf : s'.fetches = s.fetches) (hc : s'.confirmed = s.confirmed)
    (hi : s'.invalidated = s.invalidated) : SuppliesStep P e s s' := ⟨h,.inl hf,.inl hc,fun _ => hi⟩

private theorem SuppliesStep.setTable {w : TableWork} {phase : WorkPhase TableMetadata} (h : SuppliesStep P e s s')
    (hp : ∀ fetch, phase.fetch = some fetch → ∀ path : PhysicalTablePath, path.tablePath = w.path → P path fetch) :
    SuppliesStep P e s (s'.setTable id w phase) :=
  { h with supplied := { h.supplied with tableWorks := forall_mem_set h.supplied.tableWorks hp } }

private theorem SuppliesStep.setPartition {w : PartitionWork} {phase : WorkPhase PartitionMetadata}
    (h : SuppliesStep P e s s') (hp : ∀ fetch, phase.fetch = some fetch → P w.path fetch) :
    SuppliesStep P e s (s'.setPartition id w phase) :=
  { h with supplied := { h.supplied with partitionWorks := forall_mem_set h.supplied.partitionWorks hp } }

private theorem WorkMoves.supplies {R : Type} {phase next : WorkPhase R} (hm : WorkMoves s p phase s' next)
    (h : Supplied P s) : SuppliesStep P e s s' ∧ ∀ fetch, next.fetch = some fetch →
      phase.fetch = some fetch ∨ fetch = s.fetches.length ∧ s'.fetches = s.fetches ++ [p] := by
  cases hm with
  | idles hi => exact ⟨.of_same h rfl rfl rfl,by simp [hi.fetch]⟩
  | finds ho => exact ⟨⟨h.of_same rfl rfl rfl,.inl rfl,.inr ⟨_,_,rfl,h.cached _ _ ho⟩,fun _ => rfl⟩,by simp [fetch]⟩
  | fetches => exact ⟨⟨h.of_same rfl rfl rfl,.inr ⟨_,rfl⟩,.inl rfl,fun _ => rfl⟩,fun _ hf => .inr ⟨(some.inj hf).symm,rfl⟩⟩
  | answered hp => exact ⟨.of_same h rfl rfl rfl,fun _ hf => .inl (hp ▸ hf)⟩

theorem supplied_step (h : Supplied P s) (hs : s.step config e = some s')
    (hst : ∀ fetched path, s'.fetches = s.fetches ++ [fetched] → Covers fetched path → P path s.fetches.length) :
    SuppliesStep P e s s' := by
  cases step_moves hs with
  | begins | advances | tableFlight | partitionFlight => exact .of_same (h.of_same rfl rfl rfl) rfl rfl rfl
  | joinsTable => exact .of_same ((h.enterTable _ _).of_same rfl rfl rfl) rfl rfl rfl
  | joinsPartition => exact .of_same ((h.enterPartition _ _).of_same rfl rfl rfl) rfl rfl rfl
  | @forgets path he =>
    have ho := fun p origin hp => h.cached p origin (invalidatePhysical_origin s path p origin hp).1
    obtain ⟨tables,invalidated,heq⟩ := s.invalidatePhysical_eq path
    rw [heq] at ho ⊢
    exact ⟨{ h with cached := ho },.inl rfl,.inl rfl,fun hn => by simp [he] at hn⟩
  | @table id w t phase hw hm =>
    have hwo := h.tableWorks w (mem_of_getElem? hw)
    cases hm with
    | works hm =>
      obtain ⟨ht,hf⟩ := hm.supplies h
      refine ht.setTable fun fetch hn path hp => ?_
      rcases hf fetch hn with hold | ⟨rfl,hnew⟩
      · exact hwo fetch hold path hp
      · exact hst _ path hnew (.inr (by rw [hp]))
    | @installs fetch table hf =>
      have hi : Supplied P ((s.installTable w.path fetch table).confirm ⟨w.path,""⟩ fetch) := by
        refine { h with cached := fun path origin ho => ?_ }
        rcases installTable_origin ho with ⟨hp,rfl⟩ | ⟨-,hold⟩
        · exact hwo origin hf path hp
        · exact h.cached path origin hold
      have ht : SuppliesStep P e s _ := ⟨hi,.inl rfl,.inr ⟨_,_,rfl,hwo fetch hf _ rfl⟩,fun _ => rfl⟩
      exact ht.setTable (by simp [WorkPhase.fetch])
    | @returns err flights =>
      have ht : SuppliesStep P e s { s with flights } := .of_same (h.of_same rfl rfl rfl) rfl rfl rfl
      exact ht.setTable (by simp [fetch])
  | @partition id w t phase hw hm =>
    have hwo := h.partitionWorks w (mem_of_getElem? hw)
    cases hm with
    | works hm =>
      obtain ⟨ht,hf⟩ := hm.supplies h
      refine ht.setPartition fun fetch hn => ?_
      rcases hf fetch hn with hold | ⟨rfl,hnew⟩
      · exact hwo fetch hold
      · exact hst _ w.path hnew (.inl rfl)
    | joins =>
      have ht : SuppliesStep P e s _ := .of_same (h.enterTable w.path.tablePath true) rfl rfl rfl
      exact ht.setPartition (by simp [fetch])
    | @applies fetch partition table _ _ hf ht hm =>
      have ha : Supplied P (s.applyPhysicalMetadata w.path table fetch partition) := by
        refine { h with cached := fun path origin ho => ?_ }
        rcases applyPhysicalMetadata_origin ht ho with ⟨rfl,rfl⟩ | hold
        · exact hwo origin hf
        · exact h.cached path origin hold
      obtain ⟨ht,hfe⟩ := hm.supplies ha
      refine SuppliesStep.setPartition (s := s) ⟨ht.supplied,ht.fetches,ht.confirmed,ht.invalidated⟩ fun fetch hn => ?_
      rcases hfe fetch hn with hold | ⟨rfl,hnew⟩
      · exact hwo fetch hold
      · exact hst _ w.path hnew (.inl rfl)
    | @returns err partitionFlights =>
      have ht : SuppliesStep P e s { s with partitionFlights } := .of_same (h.of_same rfl rfl rfl) rfl rfl rfl
      exact ht.setPartition (by simp [fetch])
/-- What a step does to the calls: one begins, or one moves on. -/
inductive CallsStep (config : RouterConfig) (s s' : Router) : Prop
  | kept (hcalls : s'.calls = s.calls)
  | began (call : RouterCall) (hs' : s' = s.begin config call)
  | moved (n : Nat) (c : CallState) (phase : CallPhase) (hc : s.calls[n]? = some c) (hs' : s' = s.setCall n c phase)
      (hmoves : CallMoves s c phase)
  | joinedTable (n : Nat) (c : CallState) (force : Bool) (hc : s.calls[n]? = some c)
      (hs' : s' = (s.enterTable c.call.path.tablePath force).setCall n c (.awaitTable s.flights.waiters.length))
  | joinedPartition (n : Nat) (c : CallState) (hc : s.calls[n]? = some c)
      (hs' : s' = (s.enterPartition c.call.path c.call.bucket.isNone).setCall n c
        (.awaitPartition s.partitionFlights.waiters.length))

theorem step_calls (hs : s.step config e = some s') : CallsStep config s s' := by
  cases step_moves hs with
  | begins => exact .began _ rfl
  | advances hc hm => exact .moved _ _ _ hc rfl hm
  | joinsTable hc => exact .joinedTable _ _ _ hc rfl
  | joinsPartition hc => exact .joinedPartition _ _ hc rfl
  | @forgets path =>
    obtain ⟨tables,invalidated,heq⟩ := s.invalidatePhysical_eq path
    exact heq ▸ .kept rfl
  | tableFlight | partitionFlight => exact .kept rfl
  | table hw hm =>
    cases hm with
    | works hm => cases hm <;> exact .kept rfl
    | installs | returns => exact .kept rfl
  | partition hw hm =>
    cases hm with
    | works hm | applies _ _ hm => cases hm <;> exact .kept rfl
    | joins | returns => exact .kept rfl
/-- A call keeps its place, its arguments and what it recorded when it began. -/
theorem CallsStep.call (h : CallsStep config s s') {c : CallState} (hc : s.calls[n]? = some c) :
    ∃ phase, s'.calls[n]? = some { c with phase } := by
  have hset : ∀ {m : Nat} {c₀ : CallState} (phase : CallPhase), s.calls[m]? = some c₀ →
      ∃ phase', (s.calls.set m { c₀ with phase })[n]? = some { c with phase := phase' } := by
    intro m c₀ phase hm
    by_cases hn : m = n
    · subst hn
      cases hc.symm.trans hm
      exact ⟨phase,getElem?_set_self (lt_of_getElem? hc)⟩
    · exact ⟨c.phase,by rw [getElem?_set_ne hn]; exact hc⟩
  cases h with
  | kept hca => exact ⟨c.phase,by rw [hca]; exact hc⟩
  | began call hs' =>
    exact ⟨c.phase,hs' ▸ getElem?_append_of hc _⟩
  | moved m c₀ phase hm hs' =>
    rw [hs']
    exact hset phase hm
  | joinedTable _ _ _ hm hs' | joinedPartition _ _ hm hs' =>
    rw [hs']
    exact hset _ hm
end Steps
/-- The fetch with this number has started and covers the path. -/
def Router.Fetched (s : Router) (path : PhysicalTablePath) (fetch : Nat) : Prop :=
  ∃ fetched, s.fetches[fetch]? = some fetched ∧ Covers fetched path

structure OriginInv (s : Router) : Prop where
  supplied : Supplied s.Fetched s
  confirmed : ∀ entry ∈ s.confirmed, s.Fetched entry.1 entry.2
  leaders : ∀ c ∈ s.calls, ∀ node count origin, c.phase = .returned (.leader node count origin) →
    s.Fetched c.call.path origin

section Origins
variable {config : RouterConfig} {s s' : Router}

theorem CallsStep.leaders {Q : CallState → Nat → Prop} (h : CallsStep config s s')
    (hQ : ∀ c ∈ s.calls, ∀ node count origin, c.phase = .returned (.leader node count origin) → Q c origin)
    (hmo : ∀ c ∈ s.calls, ∀ phase origin, s.origin c.call.path = some origin → Q { c with phase } origin) :
    ∀ c ∈ s'.calls, ∀ node count origin, c.phase = .returned (.leader node count origin) → Q c origin := by
  intro c' hc' node count origin hl
  cases h with
  | kept hca => exact hQ c' (hca ▸ hc') node count origin hl
  | began call hs' =>
    subst hs'
    rcases mem_append.mp hc' with hc' | hc'
    · exact hQ c' hc' node count origin hl
    · obtain rfl := mem_singleton.mp hc'
      exact absurd hl ((beginPhase_plain config call).1 node count origin)
  | moved n c phase hc hs' hm =>
    subst hs'
    rcases mem_or_eq_of_mem_set hc' with hc' | rfl
    · exact hQ c' hc' node count origin hl
    · exact hmo c (mem_of_getElem? hc) phase origin (hm.leader node count origin hl)
  | joinedTable _ _ _ _ hs' | joinedPartition _ _ _ hs' =>
    subst hs'
    rcases mem_or_eq_of_mem_set hc' with hc' | rfl
    · exact hQ c' hc' node count origin hl
    · simp at hl

private theorem Router.Fetched.append {path : PhysicalTablePath} {fetch : Nat} (h : s.Fetched path fetch)
    (hf : s'.fetches = s.fetches ∨ ∃ fetched, s'.fetches = s.fetches ++ [fetched]) : s'.Fetched path fetch := by
  obtain ⟨fetched,hget,hc⟩ := h
  refine ⟨fetched,?_,hc⟩
  rcases hf with hs | ⟨last,hnew⟩
  · rw [hs]
    exact hget
  · exact hnew ▸ getElem?_append_of hget _

theorem originInv_step {e : RouterEvent} (h : OriginInv s) (hst : s.step config e = some s') : OriginInv s' := by
  have hany : SuppliesStep (fun _ _ => True) e s s' := supplied_step ⟨by simp,by simp,by simp⟩ hst (by simp)
  have hk : ∀ path fetch, s.Fetched path fetch → s'.Fetched path fetch := fun _ _ hold => hold.append hany.fetches
  have hs : SuppliesStep s'.Fetched e s s' := by
    apply supplied_step (h.supplied.mono hk) hst
    intro fetched path hf hco
    exact ⟨fetched,by rw [hf]; exact getElem?_concat_length,hco⟩
  have hold : ∀ entry ∈ s.confirmed, s'.Fetched entry.1 entry.2 := fun entry he => hk _ _ (h.confirmed entry he)
  refine ⟨hs.supplied,?_,?_⟩
  · rcases hs.confirmed with hsa | ⟨path,origin,hnew,ho⟩
    · exact hsa ▸ hold
    · exact hnew ▸ forall_mem_concat hold ho
  · refine (step_calls hst).leaders (Q := fun c origin => s'.Fetched c.call.path origin) ?_ ?_
    · exact fun c hc node count origin hl => hk _ _ (h.leaders c hc node count origin hl)
    · exact fun c hc phase origin ho => hk _ _ (h.supplied.cached _ origin ho)

theorem originInv_reachable (h : (routerSystem config).Reachable s) : OriginInv s := by
  refine System.Reachable.invariant (P := OriginInv) ?_ (fun _ _ _ _ hinv hs => originInv_step hinv hs) h
  rintro _ rfl
  exact ⟨⟨by simp [origin],by simp,by simp⟩,by simp,by simp⟩
end Origins
end FlussGo
