import FlussGo.Lib.Recency
import FlussGo.Lib.Run
import FlussGo.Schema.Validate
import Mathlib.Data.List.Dedup
/-!
# Resolved schemas

The schema cache of `schema_resolver.go` with its readers. A step is one critical section of the cache, or the
return of `Do`.
-/
namespace FlussGo
open Outcome List Nat
structure SchemaCacheKey where
  path : TablePath
  id : Int
deriving DecidableEq

structure SchemaCacheEntry where
  schema : Schema
  used : Nat
/-- The cache and its history: the keys that were hit or stored, and what was stored, the latest first. -/
structure SchemaCache where
  max : Nat
  /-- `fetch != nil`. -/
  fetch : Bool
  entries : AList fun _ : SchemaCacheKey => SchemaCacheEntry := ∅
  clock : Nat := 0
  closed : Bool := false
  touches : List SchemaCacheKey := []
  stores : List (SchemaCacheKey × Schema) := []

abbrev EntryOrder := RangeOrder (Σ _ : SchemaCacheKey, SchemaCacheEntry)

namespace SchemaCache
variable (c : SchemaCache)

def touch (key : SchemaCacheKey) (schema : Schema) : SchemaCache :=
  let clock := (c.clock + 1) % 2 ^ 64
  { c with clock, entries := c.entries.insert key ⟨schema,clock⟩, touches := key :: c.touches }

def evictLocked (order : EntryOrder) : SchemaCache :=
  { c with entries := evict SchemaCacheEntry.used order c.max c.entries.keys.length c.entries }

def cached (key : SchemaCacheKey) : Go (Option Schema) × SchemaCache :=
  if c.closed then (.err Sentinel.closed.error, c)
  else match c.entries.lookup key with
    | some entry => (.ok (some entry.schema), c.touch key entry.schema)
    | none => (if c.fetch then .ok none else failf .invalidConfig "schema resolver is unavailable", c)
/-- `resolveSchema` up to its lookup. -/
def resolve (path : TablePath) (schemaID : Int) : Go (Option Schema) × SchemaCache :=
  match path.validate with
  | .err e => (.err e, c)
  | .panic p => (.panic p, c)
  | .ok () =>
    if schemaID < 0 then (failf .invalidSchema s!"negative schema ID {schemaID}", c) else c.cached ⟨path,schemaID⟩
/-- The critical section in which `fetchAndStore` and `store` end. -/
def keep (key : SchemaCacheKey) (schema : Schema) (order : EntryOrder) : Go Schema × SchemaCache :=
  if c.closed then (.err Sentinel.closed.error, c)
  else (.ok schema, { c.touch key schema with stores := (key, schema) :: c.stores }.evictLocked order)

def storeFetched (key : SchemaCacheKey) (answer : Except GoError Schema) (order : EntryOrder) : Go Schema × SchemaCache :=
  match answer with
  | .error e => (.err e, c)
  | .ok schema =>
    match schema.validate with
    | .ok () => c.keep key schema order
    | .err e => (.err e, c)
    | .panic p => (.panic p, c)

def store (path : TablePath) (schemaID : Int) (schema : Schema) (order : EntryOrder) : SchemaCache :=
  if schemaID < 0 ∨ !path.validate.isOk ∨ !schema.validate.isOk then c else (c.keep ⟨path,schemaID⟩ schema order).2
/-- What every operation keeps. The recency of the entries can be read off their stamps until the clock wraps. -/
structure Inv : Prop where
  size : c.entries.keys.length ≤ c.max
  latest : ∀ e ∈ c.entries.entries, c.stores.lookup e.1 = some e.2.schema
  touched : ∀ key, key ∈ c.touches ↔ key ∈ c.stores.map Prod.fst
  ranked : c.touches.length < 2 ^ 64 → c.clock = c.touches.length ∧
    ∃ ranked, Ranked SchemaCacheEntry.used c.entries ranked ∧ (∀ e ∈ ranked, e.2.used ≤ c.clock) ∧
      ranked.keys = (recency c.touches).take c.max

variable {c} {key : SchemaCacheKey} {schema : Schema} {order : EntryOrder}

private theorem Inv.touch_ranked (h : c.Inv) (hl : (c.touch key schema).touches.length < 2 ^ 64) :
    (c.touch key schema).clock = (c.touch key schema).touches.length ∧
      ∃ ranked, Ranked SchemaCacheEntry.used (c.touch key schema).entries ranked ∧
        (∀ e ∈ ranked, e.2.used ≤ (c.touch key schema).clock) ∧
        ranked.keys.take c.max = (recency (c.touch key schema).touches).take c.max := by
  obtain ⟨hc,ranked,hr,hb,hk⟩ := h.ranked (lt_of_succ_lt hl)
  have hcl : (c.clock + 1) % 2 ^ 64 = c.clock + 1 := mod_eq_of_lt (hc ▸ hl)
  refine ⟨hcl.trans (congrArg _ hc),_,hr.insert fun e he => ?_,fun e he => ?_,?_⟩
  · have := hb e he
    show _ < (c.clock + 1) % 2 ^ 64
    omega
  · rcases mem_cons.mp he with rfl | he
    · exact le_refl _
    · have := hb e ((kerase_sublist key ranked).subset he)
      show _ ≤ (c.clock + 1) % 2 ^ 64
      omega
  · rw [keys_cons,keys_kerase,hk]
    exact recency_take key c.touches c.max

private theorem Inv.found (h : c.Inv) {entry : SchemaCacheEntry} (he : c.entries.lookup key = some entry) :
    (key, entry.schema) ∈ c.stores := by
  obtain ⟨l,l',hl,-⟩ := lookup_eq_some_iff.mp (h.latest ⟨key,entry⟩ (AList.mem_lookup_iff.mp he))
  rw [hl]
  exact mem_append_right _ mem_cons_self

private theorem Inv.hit (h : c.Inv) {entry : SchemaCacheEntry} (he : c.entries.lookup key = some entry) :
    (c.touch key entry.schema).Inv := by
  have hmem := AList.mem_lookup_iff.mp he
  have hlen : (c.touch key entry.schema).entries.keys.length ≤ c.max := by
    have hk : key ∈ c.entries.keys := mem_keys_of_mem hmem
    have := h.size
    have := length_pos_of_mem hk
    rw [touch,AList.keys_insert,length_cons,length_erase_of_mem hk]
    omega
  refine ⟨hlen,fun e he => ?_,fun other => ?_,fun hl => ?_⟩
  · rcases mem_cons.mp he with rfl | he
    · exact h.latest ⟨key,entry⟩ hmem
    · exact h.latest e ((kerase_sublist key _).subset he)
  · have hst : key ∈ c.touches := (h.touched key).mpr (mem_map_of_mem (h.found he))
    refine Iff.trans ⟨fun ho => ?_,mem_cons_of_mem key⟩ (h.touched other)
    exact (mem_cons.mp ho).elim (· ▸ hst) id
  · obtain ⟨hc,ranked,hr,hb,hk⟩ := h.touch_ranked hl
    rw [take_of_length_le (by rw [keys,length_map,hr.length]; exact hlen)] at hk
    exact ⟨hc,ranked,hr,hb,hk⟩

private theorem Inv.stored (h : c.Inv) :
    ({ c.touch key schema with stores := (key, schema) :: c.stores }.evictLocked order).Inv := by
  obtain ⟨hs,hle⟩ := @evict_fits _ _ _ SchemaCacheEntry.used order c.max (c.touch key schema).entries
    (c.touch key schema).entries.keys.length (le_add_left _ _)
  refine ⟨hle,fun e he => ?_,fun other => ?_,fun hl => ?_⟩
  · rcases mem_cons.mp (hs he) with rfl | he
    · exact lookup_cons_self
    have hmem : e.1 ∈ (kerase key c.entries.entries).keys := mem_keys_of_mem he
    have hne : e.1 ≠ key := fun hk => notMem_keys_kerase key c.entries.nodupKeys (hk ▸ hmem)
    show lookup e.1 ((key, schema) :: c.stores) = _
    rw [lookup_cons,beq_false_of_ne hne]
    exact h.latest e ((kerase_sublist key _).subset he)
  · show other ∈ key :: c.touches ↔ other ∈ key :: c.stores.map Prod.fst
    rw [mem_cons,mem_cons,h.touched other]
  · obtain ⟨hc,ranked,hr,hb,hk⟩ := h.touch_ranked hl
    refine ⟨hc,ranked.take c.max,hr.evict (le_add_left _ _),fun e he => hb e (mem_of_mem_take he),?_⟩
    rw [keys,map_take]
    exact hk
/-- An operation keeps the invariant and what was stored, and answers with a schema that was stored under the key. -/
structure Serves (c : SchemaCache) (key : SchemaCacheKey) (answers : Schema → Prop) (c' : SchemaCache) : Prop where
  inv : c'.Inv
  stores : c.stores ⊆ c'.stores
  answer : ∀ schema, answers schema → (key, schema) ∈ c'.stores

private theorem Inv.same (h : c.Inv) {answers : Schema → Prop} (ha : ∀ schema, ¬ answers schema) :
    Serves c key answers c := ⟨h,Subset.refl _,fun schema hs => absurd hs (ha schema)⟩

theorem Inv.cached (h : c.Inv) (key : SchemaCacheKey) :
    Serves c key (fun schema => (c.cached key).1 = .ok (some schema)) (c.cached key).2 := by
  unfold SchemaCache.cached
  split
  · exact h.same (by simp)
  split
  next entry he =>
    refine ⟨h.hit he,Subset.refl _,fun schema hs => ?_⟩
    cases hs
    exact h.found he
  · exact h.same (by split <;> simp)

theorem Inv.resolve (h : c.Inv) (path : TablePath) (schemaID : Int) :
    Serves c ⟨path,schemaID⟩ (fun schema => (c.resolve path schemaID).1 = .ok (some schema)) (c.resolve path schemaID).2 := by
  unfold SchemaCache.resolve
  split
  · exact h.same (by simp)
  · exact h.same (by simp)
  · split
    · exact h.same (by simp)
    · exact h.cached ⟨path,schemaID⟩

theorem Inv.keep (h : c.Inv) (key : SchemaCacheKey) (schema : Schema) (order : EntryOrder) :
    Serves c key (fun schema' => (c.keep key schema order).1 = .ok schema') (c.keep key schema order).2 := by
  unfold SchemaCache.keep
  split
  · exact h.same (by simp)
  · refine ⟨h.stored,subset_cons_self _ _,fun schema' hs => ?_⟩
    cases hs
    exact mem_cons_self

theorem Inv.storeFetched (h : c.Inv) (key : SchemaCacheKey) (answer : Except GoError Schema) (order : EntryOrder) :
    Serves c key (fun schema => (c.storeFetched key answer order).1 = .ok schema) (c.storeFetched key answer order).2 := by
  unfold SchemaCache.storeFetched
  split
  · exact h.same (by simp)
  · split
    · exact h.keep key _ order
    · exact h.same (by simp)
    · exact h.same (by simp)
end SchemaCache

inductive ResolvePhase where
  /-- A call between its lookup and the end of `Do`. -/
  | missed
  | fetching
  | returned (result : Go Schema)

def ResolvePhase.after (miss : ResolvePhase) : Go (Option Schema) → ResolvePhase
  | .ok none => miss
  | .ok (some schema) => .returned (.ok schema)
  | .err e => .returned (.err e)
  | .panic p => .returned (.panic p)

structure SchemaTask where
  key : SchemaCacheKey
  phase : ResolvePhase
/-- A cache with every call of `resolveSchema` and every run of `fetchAndStore`. -/
structure SchemaReads where
  cache : SchemaCache
  tasks : List SchemaTask := []

def newSchemaCache (maxEntries : Nat) (fetch : Bool) : SchemaReads := { cache := { max := maxEntries, fetch } }

namespace SchemaReads
/-- One critical section of the cache, or one return of `Do`. -/
inductive Step (s : SchemaReads) : SchemaReads → Prop
  | resolve (path : TablePath) (schemaID : Int) :
    Step s ⟨(s.cache.resolve path schemaID).2,
      s.tasks ++ [⟨⟨path,schemaID⟩,.after .missed (s.cache.resolve path schemaID).1⟩]⟩
  /-- The run that `Do` starts for the key of a call, with its lookup. -/
  | run {call : Nat} {key : SchemaCacheKey} (hc : s.tasks[call]? = some ⟨key,.missed⟩) :
    Step s ⟨(s.cache.cached key).2,s.tasks ++ [⟨key,.after .fetching (s.cache.cached key).1⟩]⟩
  | fetched {run : Nat} {key : SchemaCacheKey} (hr : s.tasks[run]? = some ⟨key,.fetching⟩) (answer : Except GoError Schema)
    (order : EntryOrder) : Step s ⟨(s.cache.storeFetched key answer order).2,
      s.tasks.set run ⟨key,.returned (s.cache.storeFetched key answer order).1⟩⟩
  /-- `Do` returns what a run for its key has returned. -/
  | share {call run : Nat} {key : SchemaCacheKey} {result : Go Schema} (hc : s.tasks[call]? = some ⟨key,.missed⟩)
    (hr : s.tasks[run]? = some ⟨key,.returned result⟩) : Step s ⟨s.cache,s.tasks.set call ⟨key,.returned result⟩⟩
  /-- `Do` returns the error of its context or of a closed coalescer. -/
  | leave {call : Nat} {key : SchemaCacheKey} (hc : s.tasks[call]? = some ⟨key,.missed⟩) (e : GoError) :
    Step s ⟨s.cache,s.tasks.set call ⟨key,.returned (.err e)⟩⟩
  | store (path : TablePath) (schemaID : Int) (schema : Schema) (order : EntryOrder) :
    Step s ⟨s.cache.store path schemaID schema order,s.tasks⟩
  | close : Step s ⟨{ s.cache with closed := true },s.tasks⟩

def system : System SchemaReads Unit where
  init s := ∃ maxEntries fetch, s = newSchemaCache maxEntries fetch
  step s _ s' := Step s s'

structure Inv (s : SchemaReads) : Prop where
  cache : s.cache.Inv
  tasks : ∀ task ∈ s.tasks, ∀ schema, task.phase = .returned (.ok schema) → (task.key, schema) ∈ s.cache.stores

variable {s s' : SchemaReads}
/-- A step of the cache, and at most one task that is new or has moved on. -/
private theorem Inv.serve (h : s.Inv) {key : SchemaCacheKey} {answers : Schema → Prop} {cache : SchemaCache}
    (hs : s.cache.Serves key answers cache) {phase : ResolvePhase} {tasks : List SchemaTask}
    (hp : ∀ schema, phase = .returned (.ok schema) → answers schema)
    (ht : ∀ task ∈ tasks, task ∈ s.tasks ∨ task = ⟨key,phase⟩) : Inv ⟨cache,tasks⟩ := by
  refine ⟨hs.inv,fun task hmem schema hr => ?_⟩
  rcases ht task hmem with ho | rfl
  · exact hs.stores (h.tasks task ho schema hr)
  · exact hs.answer schema (hp schema hr)

private theorem mem_concat {α : Type} {l : List α} {a b : α} (h : b ∈ l ++ [a]) : b ∈ l ∨ b = a := by
  simpa using h

private theorem after_returned {miss : ResolvePhase} (hm : ∀ result, miss ≠ .returned result)
    {result : Go (Option Schema)} {schema : Schema} (h : miss.after result = .returned (.ok schema)) :
    result = .ok (some schema) := by
  cases result with
  | ok found =>
    cases found with
    | none => exact absurd h (hm _)
    | some schema' =>
      cases h
      rfl
  | err e | panic e => cases h

theorem Inv.step (h : s.Inv) (hs : Step s s') : s'.Inv := by
  have hst : ∀ key, s.cache.Serves key (fun schema => (key, schema) ∈ s.cache.stores) s.cache :=
    fun _ => ⟨h.cache,Subset.refl _,fun _ => id⟩
  cases hs with
  | resolve path schemaID =>
    exact h.serve (h.cache.resolve path schemaID) (fun _ => after_returned (by simp)) fun _ => mem_concat
  | @run _ key _ => exact h.serve (h.cache.cached key) (fun _ => after_returned (by simp)) fun _ => mem_concat
  | @fetched _ key _ answer order =>
    exact h.serve (h.cache.storeFetched key answer order) (fun _ => ResolvePhase.returned.inj) fun _ => mem_or_eq_of_mem_set
  | @share _ _ key _ _ hr =>
    exact h.serve (hst key) (h.tasks _ (mem_of_getElem? hr)) fun _ => mem_or_eq_of_mem_set
  | @leave _ key _ e => exact h.serve (hst key) (by simp) fun _ => mem_or_eq_of_mem_set
  | store path schemaID schema order =>
    unfold SchemaCache.store
    split
    · exact h
    · exact h.serve (h.cache.keep ⟨path,schemaID⟩ schema order) (fun _ => ResolvePhase.returned.inj) fun _ => .inl
  | close => exact ⟨⟨h.cache.size,h.cache.latest,h.cache.touched,h.cache.ranked⟩,h.tasks⟩

theorem inv_reachable (h : system.Reachable s) : s.Inv := by
  apply System.Reachable.invariant (P := Inv) _ (fun _ _ _ _ => Inv.step) h
  rintro _ ⟨maxEntries,fetch,rfl⟩
  refine ⟨⟨zero_le _,?_,?_,fun _ => ⟨rfl,[],⟨.refl _,.nil⟩,?_,take_nil.symm⟩⟩,?_⟩ <;> simp [newSchemaCache]
end SchemaReads

theorem schemaCache_keeps_latest (s : SchemaReads) (h : SchemaReads.system.Reachable s) :
    s.cache.entries.keys.length ≤ s.cache.max ∧
      (∀ key entry, s.cache.entries.lookup key = some entry → s.cache.stores.lookup key = some entry.schema) ∧
      (∀ task ∈ s.tasks, ∀ schema, task.phase = .returned (.ok schema) → (task.key, schema) ∈ s.cache.stores) ∧
      (recency s.cache.touches).Perm (s.cache.stores.map Prod.fst).dedup ∧
      (s.cache.touches.length < 2 ^ 64 →
        s.cache.entries.keys.Perm ((recency s.cache.touches).take s.cache.max)) := by
  have hi := SchemaReads.inv_reachable h
  refine ⟨hi.cache.size,fun key entry he => ?_,hi.tasks,?_,fun hl => ?_⟩
  · exact hi.cache.latest ⟨key,entry⟩ (AList.mem_lookup_iff.mp he)
  · apply (perm_ext_iff_of_nodup (recency_nodup _) (nodup_dedup _)).mpr
    intro key
    rw [mem_recency,mem_dedup,hi.cache.touched]
  · obtain ⟨-,ranked,hr,-,hk⟩ := hi.cache.ranked hl
    rw [← hk]
    exact (hr.perm.map Sigma.fst).symm

def countSchema : Schema := { columns := [{ name := "count", type := .int }] }

def countKey (id : Int) : SchemaCacheKey := ⟨⟨"shop","counts"⟩,id⟩
/-- A cache of two entries after one store and `n` hits of it. -/
def countReads (n : Nat) : SchemaReads where
  cache := {
    max := 2
    fetch := true
    entries := AList.insert (countKey 0) ⟨countSchema,(n + 1) % 2 ^ 64⟩ ∅
    clock := (n + 1) % 2 ^ 64
    touches := replicate (n + 1) (countKey 0)
    stores := [(countKey 0, countSchema)] }
  tasks := replicate n ⟨countKey 0,.returned (.ok countSchema)⟩

private theorem countReads_reachable (n : Nat) : SchemaReads.system.Reachable (countReads n) := by
  induction n with
  | zero => exact .step (e := ()) (.init ⟨2,true,rfl⟩) (.store ⟨"shop","counts"⟩ 0 countSchema ⟨id,.refl⟩)
  | succ n ih =>
    have hl : (countReads n).cache.entries.lookup (countKey 0) = some ⟨countSchema,(n + 1) % 2 ^ 64⟩ :=
      AList.lookup_insert _
    have hc : (countReads n).cache.cached (countKey 0) = (.ok (some countSchema), (countReads (n + 1)).cache) := by
      rw [SchemaCache.cached,if_neg (show ¬ (countReads n).cache.closed = true from Bool.false_ne_true),hl]
      simp only [SchemaCache.touch,countReads,AList.insert_insert,mod_add_mod,replicate_succ]
    have hs := SchemaReads.Step.resolve (s := countReads n) ⟨"shop","counts"⟩ 0
    rw [show (countReads n).cache.resolve ⟨"shop","counts"⟩ 0 = _ from hc] at hs
    have ht : (countReads (n + 1)).tasks = (countReads n).tasks ++ [⟨countKey 0,.returned (.ok countSchema)⟩] :=
      replicate_succ'
    exact ih.step (e := ()) (ht ▸ hs : SchemaReads.Step _ ⟨(countReads (n + 1)).cache,(countReads (n + 1)).tasks⟩)

/-- Three keys in a cache of two entries: the one that was stored second has not been hit and is dropped. -/
theorem schemaCache_keeps_latest_evicted : ∃ s, SchemaReads.system.Reachable s ∧ s.cache.max = 2 ∧
    s.cache.touches = [countKey 2, countKey 0, countKey 1, countKey 0] ∧
      s.cache.entries.keys.Perm [countKey 2, countKey 0] := by
  have h := countReads_reachable 0
  have h := h.step (e := ()) (.store ⟨"shop","counts"⟩ 1 countSchema ⟨id,.refl⟩)
  have h := h.step (e := ()) (.resolve ⟨"shop","counts"⟩ 0)
  have h := h.step (e := ()) (.store ⟨"shop","counts"⟩ 2 countSchema ⟨id,.refl⟩)
  exact ⟨_,h,rfl,rfl,(schemaCache_keeps_latest _ h).2.2.2.2 (by decide)⟩

private theorem recency_replicate (n : Nat) (key : SchemaCacheKey) : recency (replicate (n + 1) key) = [key] := by
  induction n with
  | zero => rfl
  | succ n ih => rw [replicate_succ,recency,ih,erase_cons_head]
/-- The stamps start again at zero after 2^64 touches: the entry that was stored last but one is dropped. -/
theorem schemaCache_clock_wraps : ∃ s, SchemaReads.system.Reachable s ∧
    ¬ s.cache.entries.keys.Perm ((recency s.cache.touches).take s.cache.max) := by
  have h := countReads_reachable (2 ^ 64 - 2)
  have h := h.step (e := ()) (.store ⟨"shop","counts"⟩ 1 countSchema ⟨id,.refl⟩)
  have h := h.step (e := ()) (.store ⟨"shop","counts"⟩ 2 countSchema ⟨id,.refl⟩)
  refine ⟨_,h,?_⟩
  show ¬ Perm [countKey 2,countKey 0] ((recency (countKey 2 :: countKey 1 :: replicate (2 ^ 64 - 2 + 1) (countKey 0))).take 2)
  rw [recency,recency,recency_replicate]
  decide
end FlussGo
