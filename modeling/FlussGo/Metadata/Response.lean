import FlussGo.Schema.Validate
import Mathlib.Data.List.AList
import Mathlib.Data.List.Sort
/-!
# Bucket lists and metadata responses

Key hashing, and `metadata_client.go`: what a metadata response says about the buckets of a table. `Buckets`
holds the buckets that have a leader and `BucketDetails` all of them.
-/
namespace FlussGo
open Outcome List
inductive ServerType where
  | coordinator
  | tabletServer
deriving DecidableEq

structure ServerNode where
  id : Int
  address : String
  serverType : ServerType
deriving DecidableEq
/-- A Go map from bucket or server IDs. -/
abbrev IDMap (α : Type) := AList fun _ : Int => α

def sortedBuckets (buckets : IDMap ServerNode) : Go (List Int) :=
  if buckets.keys.isEmpty then failf .metadata "table has no buckets"
  else
    match buckets.keys.find? (· < 0) with
    | some id => failf .metadata s!"invalid bucket {id}"
    | none => .ok (buckets.keys.insertionSort (· ≤ ·))

theorem sortedBuckets_eq_ok {buckets : IDMap ServerNode} {ids : List Int} (h : sortedBuckets buckets = .ok ids) :
    ids.Perm buckets.keys ∧ ids.Pairwise (· < ·) ∧ ids ≠ [] := by
  unfold sortedBuckets at h
  obtain ⟨hne,h⟩ := of_guard h
  split at h
  · simp at h
  cases h
  have hp := perm_insertionSort (· ≤ ·) buckets.keys
  have hs := pairwise_insertionSort (· ≤ ·) buckets.keys
  have hn := hp.nodup_iff.mpr buckets.keys_nodup
  refine ⟨hp,(hs.and hn).imp (by intro a b hab; omega),?_⟩
  intro hnil
  rw [hnil] at hp
  exact hne (by rw [nil_perm.mp hp]; rfl)

theorem sortedBuckets_nonneg {buckets : IDMap ServerNode} {ids : List Int} (h : sortedBuckets buckets = .ok ids) :
    ∀ id ∈ ids, 0 ≤ id := by
  have hp := (sortedBuckets_eq_ok h).1
  unfold sortedBuckets at h
  have h := (of_guard h).2
  split at h
  · simp at h
  rename_i hf
  intro id hid
  have := find?_eq_none.mp hf id (hp.mem_iff.mp hid)
  simpa using this

def rotateLeft32 (value : UInt32) (k : Nat) : UInt32 :=
  value <<< UInt32.ofNat k ||| value >>> UInt32.ofNat (32 - k)

def murmurMixHash (hash value : UInt32) : UInt32 :=
  let value := rotateLeft32 (value * 0xcc9e2d51) 15 * 0x1b873593
  rotateLeft32 (hash ^^^ value) 13 * 5 + 0xe6546b64

def murmurFinal (hash : UInt32) : UInt32 :=
  let hash := (hash ^^^ hash >>> 16) * 0x85ebca6b
  let hash := (hash ^^^ hash >>> 13) * 0xc2b2ae35
  hash ^^^ hash >>> 16
/-- The aligned words of a key, then its remaining bytes as signed 8-bit numbers. -/
def murmurWords : Bytes → UInt32 → UInt32
  | b0 :: b1 :: b2 :: b3 :: rest, hash =>
    murmurWords rest (murmurMixHash hash (UInt32.ofNat (littleNat [b0, b1, b2, b3])))
  | tail, hash => tail.foldl (fun hash b => murmurMixHash hash (b.toInt8.toInt32.toUInt32)) hash

def murmurBytes (value : Bytes) (seed : UInt32) : UInt32 :=
  murmurFinal (murmurWords value seed ^^^ UInt32.ofNat value.length)

def murmurInt (value : UInt32) : UInt32 :=
  let hash := murmurFinal (murmurMixHash 0 value ^^^ 4)
  if hash.toNat < 2 ^ 31 then hash else if hash.toNat = 2 ^ 31 then 0 else -hash
/-- The position of a key's bucket in a list of `bucketCount` buckets. -/
def flussBucket (key : Bytes) (bucketCount : Nat) : Go Nat :=
  if key.isEmpty ∨ bucketCount = 0 then
    failf .invalidConfig "bucket key and positive bucket count are required"
  else .ok ((murmurInt (murmurBytes key 42) % UInt32.ofNat bucketCount).toNat)

def keyBucket (buckets : List Int) (key : Bytes) : Go Int := do
  let position ← flussBucket key buckets.length
  match buckets[position]? with
  | some bucket => return bucket
  | none => .panic .outOfRange

theorem keyBucket_mem {buckets : List Int} {key : Bytes} {bucket : Int} (h : keyBucket buckets key = .ok bucket) :
    bucket ∈ buckets := by
  obtain ⟨position,_,h⟩ := of_bind h
  cases hget : buckets[position]? with
  | none => simp [hget] at h
  | some b =>
    simp only [hget] at h
    exact ok.inj h ▸ mem_of_getElem? hget

theorem flussBucket_lt {key : Bytes} {bucketCount position : Nat} (hc : bucketCount < 2 ^ 32)
    (h : flussBucket key bucketCount = .ok position) : position < bucketCount := by
  unfold flussBucket at h
  obtain ⟨hne,h⟩ := of_guard h
  cases h
  rw [UInt32.toNat_mod,UInt32.toNat_ofNat',Nat.mod_eq_of_lt hc]
  exact Nat.mod_lt _ (by omega)

example : flussBucket [0x66, 0x6c, 0x75, 0x73, 0x73] 17 = .ok 13 := by decide
structure PbServerNode where
  nodeID : Int
  host : String
  port : Int
/-- Unset optional fields are `none`. -/
structure PbBucketMetadata where
  bucketID : Option Int
  leaderID : Option Int := none
  replicaID : List Int := []
  isr : List Int := []
  leaderEpoch : Option Int := none
  bucketEpoch : Option Int := none

structure PbTableMetadata where
  tablePath : TablePath
  tableID : Int
  schemaID : Int := 0
  bucketMetadata : List (Option PbBucketMetadata)
  bucketCountEpoch : Option Int := none
  remoteDataDir : String := ""

structure PbPartitionMetadata where
  tableID : Int
  partitionID : Int
  partitionName : String
  bucketMetadata : List (Option PbBucketMetadata)
  bucketCount : Option Int := none

structure MetadataResponse where
  tabletServers : List (Option PbServerNode)
  coordinatorServer : Option PbServerNode := none
  tableMetadata : List PbTableMetadata
  partitionMetadata : List PbPartitionMetadata := []

structure BucketMetadata where
  id : Int
  leader : Option ServerNode
  replicas : List Int
  isr : List Int
  leaderEpoch : Option Int
  bucketEpoch : Option Int

structure PartitionMetadata where
  path : PhysicalTablePath
  id : Int
  buckets : IDMap ServerNode
  bucketDetails : IDMap BucketMetadata
  bucketCount : Int

structure TableMetadata where
  path : TablePath
  id : Int := 0
  schemaID : Int := 0
  buckets : IDMap ServerNode := ∅
  bucketDetails : IDMap BucketMetadata := ∅
  bucketCount : Int := 0
  bucketCountEpoch : Option Int := none
  remoteDataDirectory : String := ""
  partitions : AList fun _ : String => PartitionMetadata := ∅
  coordinator : Option ServerNode := none
  tablets : IDMap ServerNode := ∅

def joinHostPort (host : String) (port : Int) : String :=
  if host.toList.contains ':' then "[" ++ host ++ "]:" ++ toString port
  else host ++ ":" ++ toString port

def nodeFromProto (server : Option PbServerNode) (serverType : ServerType) : Go ServerNode :=
  match server with
  | none => failf .metadata "invalid server node"
  | some server =>
    if server.host = "" ∨ server.port ≤ 0 ∨ 65535 < server.port then failf .metadata "invalid server node"
    else .ok ⟨server.nodeID,joinHostPort server.host server.port,serverType⟩

def tabletServers : List (Option PbServerNode) → IDMap ServerNode → Go (IDMap ServerNode)
  | [], tablets => .ok tablets
  | server :: servers, tablets => do
    let node ← nodeFromProto server .tabletServer
    tabletServers servers (tablets.insert node.id node)
/-- The zero node of a response without coordinator is `none`. -/
def coordinatorServer : Option PbServerNode → Go (Option ServerNode)
  | none => .ok none
  | some server => do
    let node ← nodeFromProto (some server) .coordinator
    return some node

def metadataServers (response : MetadataResponse) : Go (Option ServerNode × IDMap ServerNode) := do
  let tablets ← tabletServers response.tabletServers ∅
  let coordinator ← coordinatorServer response.coordinatorServer
  return (coordinator, tablets)

def PbBucketMetadata.detail (bucket : PbBucketMetadata) (id : Int) (leader : Option ServerNode) : BucketMetadata where
  id := id
  leader := leader
  replicas := bucket.replicaID
  isr := bucket.isr
  leaderEpoch := bucket.leaderEpoch
  bucketEpoch := bucket.bucketEpoch
/-- The loop of `bucketMetadata`, with the maps built so far. -/
def bucketMetadataFrom (tablets : IDMap ServerNode) :
    List (Option PbBucketMetadata) → IDMap ServerNode → IDMap BucketMetadata →
      Go (IDMap ServerNode × IDMap BucketMetadata)
  | [], leaders, details => .ok (leaders, details)
  | none :: _, _, _ => failf .metadata "invalid bucket metadata"
  | some bucket :: buckets, leaders, details =>
    match bucket.bucketID with
    | none => failf .metadata "invalid bucket metadata"
    | some id =>
      if id < 0 then failf .metadata "invalid bucket metadata"
      else
        match bucket.leaderID with
        | none => bucketMetadataFrom tablets buckets leaders (details.insert id (bucket.detail id none))
        | some leaderID =>
          match tablets.lookup leaderID with
          | none => failf .noBucketLeader s!"bucket {id} leader {leaderID}"
          | some node =>
            bucketMetadataFrom tablets buckets (leaders.insert id node) (details.insert id (bucket.detail id (some node)))

def bucketMetadata (buckets : List (Option PbBucketMetadata)) (tablets : IDMap ServerNode) :
    Go (IDMap ServerNode × IDMap BucketMetadata) :=
  bucketMetadataFrom tablets buckets ∅ ∅

def physicalTableKey (path : PhysicalTablePath) : String := path.text

def partitionMetadataForTable (tableID : Int) (path : TablePath) (tablets : IDMap ServerNode) :
    List PbPartitionMetadata → (AList fun _ : String => PartitionMetadata) →
      Go (AList fun _ : String => PartitionMetadata)
  | [], result => .ok result
  | partition :: partitions, result =>
    if partition.tableID ≠ tableID then partitionMetadataForTable tableID path tablets partitions result
    else do
      let (buckets, details) ← bucketMetadata partition.bucketMetadata tablets
      let partitionPath : PhysicalTablePath := ⟨path,partition.partitionName⟩
      let count := partition.bucketCount.getD details.keys.length
      partitionMetadataForTable tableID path tablets partitions
        (result.insert (physicalTableKey partitionPath) ⟨partitionPath,partition.partitionID,buckets,details,count⟩)

def tableMetadataFromResponse (response : MetadataResponse) (path : TablePath) : Go TableMetadata := do
  let (coordinator, tablets) ← metadataServers response
  match response.tableMetadata.find? (·.tablePath = path) with
  | none => failf .unknownTable path.text
  | some item =>
    let (buckets, details) ← bucketMetadata item.bucketMetadata tablets
    let partitions ← partitionMetadataForTable item.tableID path tablets response.partitionMetadata ∅
    return {
      path := path, id := item.tableID, schemaID := item.schemaID, buckets := buckets, bucketDetails := details
      bucketCount := details.keys.length, bucketCountEpoch := item.bucketCountEpoch
      remoteDataDirectory := item.remoteDataDir, partitions := partitions, coordinator := coordinator
      tablets := tablets }

def partitionMetadataFromResponse (response : MetadataResponse) (path : PhysicalTablePath) : Go PartitionMetadata := do
  let (_, tablets) ← metadataServers response
  match response.partitionMetadata.find? (·.partitionName = path.partition) with
  | none => failf .unknownPartition path.text
  | some item =>
    let (buckets, details) ← bucketMetadata item.bucketMetadata tablets
    return ⟨path,item.partitionID,buckets,details,item.bucketCount.getD details.keys.length⟩
/-- `metadata` of the client backends, for the responses of the coordinator to a table or partition request. -/
def clientMetadata (request : PhysicalTablePath → Go MetadataResponse) (path : PhysicalTablePath) :
    Go (Int × IDMap ServerNode) := do
  let response ← request path
  if path.partition = "" then
    let m ← tableMetadataFromResponse response path.tablePath
    return (m.id, m.buckets)
  else
    let m ← partitionMetadataFromResponse response path
    return (m.id, m.buckets)
/-- The leader of a bucket and the bucket count that goes with a request to it. A bucket that is not
in the maps has no node yet. -/
def routedBucket (path : String) (bucket count : Int) (leaders : IDMap ServerNode) (details : IDMap BucketMetadata) :
    Go (Option ServerNode × Int) :=
  if leaders.lookup bucket = none ∧ bucket ∉ details then .ok (none, count)
  else
    let count := if count ≤ 0 then (if details.keys.length = 0 then leaders.keys.length else details.keys.length : Int)
      else count
    if count ≤ 0 then failf .metadata s!"{path} has no routing bucket count"
    else
      match leaders.lookup bucket with
      | some node => .ok (some node, count)
      | none => failf .noBucketLeader s!"{path} bucket {bucket}"

section Buckets
variable {tablets : IDMap ServerNode}

def bucketIDs (buckets : List (Option PbBucketMetadata)) : List Int :=
  buckets.filterMap fun bucket => bucket.bind (·.bucketID)
/-- The bucket IDs to which a response assigns a leader. -/
def ledBucketIDs (buckets : List (Option PbBucketMetadata)) : List Int :=
  buckets.filterMap fun bucket => bucket.bind fun bucket => if bucket.leaderID.isSome then bucket.bucketID else none

private theorem bucketMetadataFrom_mem {buckets : List (Option PbBucketMetadata)} {leaders leaders' : IDMap ServerNode}
    {details details' : IDMap BucketMetadata}
    (h : bucketMetadataFrom tablets buckets leaders details = .ok (leaders', details')) (id : Int) :
    (id ∈ leaders' ↔ id ∈ leaders ∨ id ∈ ledBucketIDs buckets) ∧
      (id ∈ details' ↔ id ∈ details ∨ id ∈ bucketIDs buckets) := by
  induction buckets generalizing leaders details with
  | nil =>
    cases h
    simp [ledBucketIDs,bucketIDs]
  | cons bucket buckets ih =>
    cases bucket with
    | none => simp [bucketMetadataFrom] at h
    | some bucket =>
      rw [bucketMetadataFrom] at h
      cases hid : bucket.bucketID with
      | none => simp [hid] at h
      | some bucketID =>
        simp only [hid] at h
        have h := (of_guard h).2
        cases hl : bucket.leaderID with
        | none =>
          simp only [hl] at h
          obtain ⟨hled,hall⟩ := ih h
          rw [hled,hall]
          simp [ledBucketIDs,bucketIDs,hid,hl,or_left_comm,or_assoc]
        | some leaderID =>
          simp only [hl] at h
          split at h
          · simp at h
          · obtain ⟨hled,hall⟩ := ih h
            rw [hled,hall]
            simp [ledBucketIDs,bucketIDs,hid,hl,or_left_comm,or_assoc]
end Buckets
/-- The bucket IDs that the response names for a table. -/
def MetadataResponse.bucketIDs (response : MetadataResponse) (path : TablePath) : List Int :=
  match response.tableMetadata.find? (·.tablePath = path) with
  | some item => FlussGo.bucketIDs item.bucketMetadata
  | none => []

def MetadataResponse.ledBucketIDs (response : MetadataResponse) (path : TablePath) : List Int :=
  match response.tableMetadata.find? (·.tablePath = path) with
  | some item => FlussGo.ledBucketIDs item.bucketMetadata
  | none => []

theorem tableMetadataFromResponse_eq_ok {response : MetadataResponse} {path : TablePath} {m : TableMetadata}
    (h : tableMetadataFromResponse response path = .ok m) : (∀ id, id ∈ m.buckets ↔ id ∈ response.ledBucketIDs path) ∧
      (∀ id, id ∈ m.bucketDetails ↔ id ∈ response.bucketIDs path) ∧ m.bucketCount = m.bucketDetails.keys.length := by
  obtain ⟨⟨coordinator,tablets⟩,_,h⟩ := of_bind h
  dsimp only at h
  split at h
  · simp at h
  rename_i item hi
  obtain ⟨⟨buckets,details⟩,hb,h⟩ := of_bind h
  obtain ⟨partitions,_,h⟩ := of_bind h
  cases h
  have hmem := bucketMetadataFrom_mem hb
  refine ⟨fun id => ?_,fun id => ?_,rfl⟩
  · simpa [MetadataResponse.ledBucketIDs,hi] using (hmem id).1
  · simpa [MetadataResponse.bucketIDs,hi] using (hmem id).2
end FlussGo
