import FlussGo.Lookup.Create
import FlussGo.Scanner.Create
/-!
# The buckets of a component

Every component takes its bucket list from the leader map of a metadata response, requests carry the
number of all buckets. The two agree exactly when every bucket has a leader.
-/
namespace FlussGo
open Outcome AList
/-- Every bucket of the table has a leader in the response. -/
def AllLed (response : MetadataResponse) (path : TablePath) : Prop :=
  ∀ id ∈ response.bucketIDs path, id ∈ response.ledBucketIDs path
/-- The list names the buckets of the response, and a request to any of them carries its length as
routing bucket count. -/
def ExactBuckets (response : MetadataResponse) (m : TableMetadata) (buckets : List Int) : Prop :=
  (∀ id, id ∈ buckets ↔ id ∈ response.bucketIDs m.path) ∧
    ∀ id ∈ response.bucketIDs m.path, ∃ node,
      routedBucket m.path.text id m.bucketCount m.buckets m.bucketDetails = .ok (some node, buckets.length)

section Exact
variable {response : MetadataResponse} {path : TablePath} {m : TableMetadata}

private theorem tableMetadata_path (h : tableMetadataFromResponse response path = .ok m) : m.path = path := by
  obtain ⟨⟨coordinator,tablets⟩,_,h⟩ := of_bind h
  dsimp only at h
  split at h
  · simp at h
  · obtain ⟨⟨buckets,details⟩,_,h⟩ := of_bind h
    obtain ⟨partitions,_,h⟩ := of_bind h
    cases h
    rfl

private theorem exactBuckets_iff (hr : tableMetadataFromResponse response path = .ok m) {buckets : List Int}
    (hbu : sortedBuckets m.buckets = .ok buckets) : ExactBuckets response m buckets ↔ AllLed response path := by
  obtain ⟨hled,hall,hc⟩ := tableMetadataFromResponse_eq_ok hr
  obtain ⟨hp,_,_⟩ := sortedBuckets_eq_ok hbu
  have hmem : ∀ id, id ∈ buckets ↔ id ∈ response.ledBucketIDs path := fun id =>
    hp.mem_iff.trans (mem_keys.symm.trans (hled id))
  rw [ExactBuckets,tableMetadata_path hr]
  constructor
  · rintro ⟨he,_⟩ id hid
    exact (hmem id).mp ((he id).mpr hid)
  intro hle
  have hsub : ∀ id, id ∈ m.buckets ↔ id ∈ m.bucketDetails := by
    intro id
    rw [hled,hall]
    refine ⟨fun h => ?_,hle id⟩
    -- A bucket with a leader is one of the buckets.
    unfold MetadataResponse.ledBucketIDs at h
    unfold MetadataResponse.bucketIDs
    split at h
    · simp only [ledBucketIDs,List.mem_filterMap,Option.bind_eq_some_iff] at h
      obtain ⟨entry,hen,bucket,rfl,hb⟩ := h
      split at hb
      · exact List.mem_filterMap.mpr ⟨some bucket,hen,hb⟩
      · simp at hb
    · simp at h
  have hl : buckets.length = m.bucketDetails.keys.length := by
    rw [hp.length_eq]
    refine ((List.perm_ext_iff_of_nodup m.buckets.keys_nodup m.bucketDetails.keys_nodup).mpr fun id => ?_).length_eq
    rw [← mem_keys,← mem_keys,hsub]
  refine ⟨fun id => by rw [hmem,← hled,hsub,hall],fun id hid => ?_⟩
  have hin := (hall id).mpr hid
  obtain ⟨node,hn⟩ := Option.isSome_iff_exists.mp (lookup_isSome.mpr ((hsub id).mpr hin))
  have hpos : 0 < m.bucketDetails.keys.length := List.length_pos_of_mem (mem_keys.mp hin)
  refine ⟨node,?_⟩
  rw [routedBucket,hn,if_neg (by simp),if_neg (by omega),if_neg (by omega),hl,hc]

private theorem exactBuckets_component {request : PhysicalTablePath → Go MetadataResponse} {table : Table}
    (hre : request ⟨table.path,""⟩ = .ok response)
    (hr : tableMetadataFromResponse response table.path = .ok m) {physicalID : Int} {buckets : List Int}
    (h : componentBuckets (clientMetadata request) ⟨table.path,""⟩ table = .ok (physicalID, buckets)) :
    ExactBuckets response m buckets ↔ AllLed response table.path := by
  rw [componentBuckets,clientMetadata,hre,bind_ok,if_pos rfl,hr,bind_ok] at h
  obtain ⟨⟨id,locations⟩,hl,h⟩ := of_bind h
  cases hl
  have h := (of_guard h).2
  obtain ⟨sorted,hs,h⟩ := of_bind h
  cases h
  exact exactBuckets_iff hr hs
end Exact
/-- A component of an unpartitioned table that was created from an accepted response has exactly its
buckets if and only if all of them have a leader. -/
theorem component_buckets_exact_iff (request : PhysicalTablePath → Go MetadataResponse) (response : MetadataResponse)
    (table : Table) (m : TableMetadata) (hrequest : request ⟨table.path, ""⟩ = .ok response)
    (hresponse : tableMetadataFromResponse response table.path = .ok m) :
    (∀ backend options w, backend.metadata = clientMetadata request → newUpsertWriter backend table options = .ok w →
      w.config.partition = "" → (ExactBuckets response m w.buckets ↔ AllLed response table.path)) ∧
    (∀ backend options w, backend.metadata = clientMetadata request → newAppendWriter backend table options = .ok w →
      w.config.partition = "" → (ExactBuckets response m w.buckets ↔ AllLed response table.path)) ∧
    (∀ options l, newLookuper (clientMetadata request) table options = .ok l → l.config.partition = "" →
      (ExactBuckets response m l.buckets ↔ AllLed response table.path)) ∧
    ∀ backend start options scanner s, backend.metadata = clientMetadata request →
      newLogScanner backend table start options = .ok (scanner, s) → scanner.config.partition = "" →
      (∀ id, id ∈ s.offset ↔ id ∈ scanner.buckets) ∧
        (ExactBuckets response m scanner.buckets ↔ AllLed response table.path) := by
  refine ⟨?_,?_,?_,?_⟩
  · intro backend options w hbackend h hpartition
    obtain ⟨_,hpath,_,_,physicalID,hbuckets⟩ := newUpsertWriter_eq_ok h
    rw [hpath,hpartition,hbackend] at hbuckets
    exact exactBuckets_component hrequest hresponse hbuckets
  · intro backend options w hbackend h hpartition
    obtain ⟨_,hpath,_,_,_,⟨physicalID,hbuckets⟩,_⟩ := newAppendWriter_eq_ok h
    rw [hpath,hpartition,hbackend] at hbuckets
    exact exactBuckets_component hrequest hresponse hbuckets
  · intro options l h hpartition
    obtain ⟨hpath,_,physicalID,hbuckets⟩ := newLookuper_eq_ok h
    rw [hpath,hpartition] at hbuckets
    exact exactBuckets_component hrequest hresponse hbuckets
  · intro backend start options scanner s hbackend h hpartition
    obtain ⟨hpath,⟨physicalID,hbuckets⟩,hnew,_⟩ := newLogScanner_eq_ok h
    rw [hpath,hpartition,hbackend] at hbuckets
    exact ⟨hnew.keys,exactBuckets_component hrequest hresponse hbuckets⟩

def ordersPath : TablePath := ⟨"shop","orders"⟩
/-- Bucket 0 is led by tablet server 1, bucket 1 by `leader`. -/
def ordersResponse (leader : Option Int) : MetadataResponse where
  tabletServers := [some ⟨1,"tablet-1",9124⟩]
  tableMetadata := [{
    tablePath := ordersPath
    tableID := 9
    bucketMetadata := [some { bucketID := some 0, leaderID := some 1 }, some { bucketID := some 1, leaderID := leader }] }]

def ordersTable (kind : TableKind) (bucketCount : Int) : Table where
  id := 9
  schemaID := 1
  path := ordersPath
  kind := kind
  schema := { columns := [{ name := "id", type := .bigInt }], primaryKey := ["id"] }
  bucketCount := bucketCount

def ordersWriterBackend (leader : Option Int) : WriterBackend where
  metadata := clientMetadata fun _ => .ok (ordersResponse leader)
  ensurePartition := fun _ _ => .ok ()
  initWriter := fun _ _ => .ok 42

def ordersScannerBackend (leader : Option Int) : ScannerBackend where
  metadata := clientMetadata fun _ => .ok (ordersResponse leader)
  listOffset := fun _ _ _ => .ok 0
  dynamic := false

def tabletNode : ServerNode := ⟨1,"tablet-1:9124",.tabletServer⟩
/-- The metadata of a response in which both buckets are led. -/
def ordersMetadata : TableMetadata where
  path := ordersPath
  id := 9
  buckets := ((∅ : IDMap ServerNode).insert 0 tabletNode).insert 1 tabletNode
  bucketDetails := ((∅ : IDMap BucketMetadata).insert 0 ⟨0,some tabletNode,[],[],none,none⟩).insert 1
    ⟨1,some tabletNode,[],[],none,none⟩
  bucketCount := 2
  tablets := (∅ : IDMap ServerNode).insert 1 tabletNode

def ordersLookuper : Lookuper where
  table := ordersTable .primaryKey 2
  path := ⟨ordersPath,""⟩
  config := {}
  tableID := 9
  partitionID := -1
  buckets := [0, 1]

theorem component_buckets_exact_orders :
    newLookuper (clientMetadata fun _ => .ok (ordersResponse (some 1))) (ordersTable .primaryKey 2) [] =
        .ok ordersLookuper ∧
      ExactBuckets (ordersResponse (some 1)) ordersMetadata ordersLookuper.buckets := by
  have hlookuper : newLookuper (clientMetadata fun _ => .ok (ordersResponse (some 1))) (ordersTable .primaryKey 2) [] =
      .ok ordersLookuper := rfl
  have h := component_buckets_exact_iff (fun _ => .ok (ordersResponse (some 1))) (ordersResponse (some 1))
    (ordersTable .primaryKey 2) ordersMetadata rfl rfl
  exact ⟨hlookuper,(h.2.2.1 [] ordersLookuper hlookuper rfl).mpr (by unfold AllLed; decide)⟩
/-- While bucket 1 has no leader, every component is created with bucket 0 alone, and requests to it
still carry two as routing bucket count. -/
theorem component_omits_leaderless_bucket :
    (ordersResponse none).bucketIDs ordersPath = [0, 1] ∧
      (UpsertWriter.buckets <$> newUpsertWriter (ordersWriterBackend none) (ordersTable .primaryKey 2) []) = .ok [0] ∧
      (Lookuper.buckets <$> newLookuper (ordersWriterBackend none).metadata (ordersTable .primaryKey 2) []) = .ok [0] ∧
      (AppendWriter.buckets <$> newAppendWriter (ordersWriterBackend none) (ordersTable .log 0) []) = .ok [0] ∧
      ((fun r => (r.1.buckets, r.2.offset.keys)) <$> newLogScanner (ordersScannerBackend none) (ordersTable .log 2)
        ⟨.fromEarliest, 0, none⟩ []) = .ok ([0], [0]) ∧
      (tableMetadataFromResponse (ordersResponse none) ordersPath >>= fun m =>
        routedBucket ordersPath.text 0 m.bucketCount m.buckets m.bucketDetails) = .ok (some tabletNode, 2) := by
  decide
end FlussGo
