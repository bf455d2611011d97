import FlussGo.Lookup.Create
import FlussGo.Row.KeyCode
import FlussGo.Writer.Upsert
/-!
# Keys and buckets of writers and lookupers

`Upsert`, `PartialUpsert`, `Delete` and `Lookup` collect the values of a key in different ways, and
then encode and hash the same values.
-/
namespace FlussGo
open Outcome List UpsertWriter
namespace Lookuper
variable (c : Lookuper)

def bucketNames : List String :=
  if c.table.schema.bucketKey.isEmpty then c.table.schema.primaryKey else c.table.schema.bucketKey

def bucketForValues (values : List (String × Value)) : Go Int := do
  let encoded ← encodeKeyColumns c.table.schema c.bucketNames (c.bucketNames.map (valueOf values))
  keyBucket c.buckets encoded

def encodePoint (key : Row) : Go (Bytes × Int) := do
  let encoded ← encodeLookupKey c.table.schema key 1
  let bucket ← c.bucketForValues (c.table.schema.primaryKey.zip key)
  return (encoded, bucket)

def encodePrefix (lead : Row) : Go (Bytes × Int) :=
  if lead.length < c.bucketNames.length then
    failf .invalidRow "prefix does not contain the complete bucket key"
  else if !c.bucketNames.isPrefixOf c.table.schema.primaryKey then
    failf .invalidSchema "bucket key is not a leading primary-key prefix"
  else do
    let encoded ← encodePrefixLookupKey c.table.schema lead 1
    let bucket ← c.bucketForValues (c.table.schema.primaryKey.zip lead)
    return (encoded, bucket)
end Lookuper

section Values
variable {names keyNames : List String} {row key lead : Row} {name : String} {v : Value}
/-- The values of a key among those of a row with the given column names. -/
def HasKey (names : List String) (row : Row) (keyNames : List String) (key : Row) : Prop :=
  List.Forall₂ (fun name v => (name, v) ∈ names.zip row) keyNames key

theorem HasKey.refl (h : key.length = keyNames.length) : HasKey keyNames key keyNames key := by
  rw [HasKey,List.forall₂_iff_zip]
  exact ⟨h.symm,fun hmem => hmem⟩

theorem HasKey.values (h : HasKey names row keyNames key) (hn : names.Nodup) :
    keyNames.map (valueOf (names.zip row)) = key := by
  induction h with
  | nil => rfl
  | cons hmem _ ih => rw [map_cons,valueOf_of_mem (zip_fst_nodup hn row) hmem,ih]

theorem HasKey.valueOf_eq (h : HasKey names row keyNames key) (hn : names.Nodup) (hkey : keyNames.Nodup)
    (hna : name ∈ keyNames) : valueOf (names.zip row) name = valueOf (keyNames.zip key) name := by
  obtain ⟨hlen,hmem⟩ := List.forall₂_iff_zip.mp h
  obtain ⟨i,hi,rfl⟩ := mem_iff_getElem.mp hna
  have hp : (keyNames[i], key[i]) ∈ keyNames.zip key := by
    rw [← getElem_zip (h := by rw [length_zip]; omega)]
    exact getElem_mem _
  rw [valueOf_of_mem (zip_fst_nodup hn row) (hmem hp),valueOf_of_mem (zip_fst_nodup hkey key) hp]

theorem hasKey_take (n : Nat) (hkey : key.length = keyNames.length) :
    HasKey keyNames key (keyNames.take n) (key.take n) := by
  rw [HasKey,List.forall₂_iff_zip]
  refine ⟨by simp [hkey],fun {name v} hmem => ?_⟩
  rw [List.zip,← take_zipWith] at hmem
  exact mem_of_mem_take hmem
end Values

theorem UpsertWriter.partialTargets_nodup {w : UpsertWriter} {selected names : List String} {targets : List Int}
    (h : w.partialTargets selected names = .ok targets) : names.Nodup ∧ ∀ name ∈ names, name ∉ selected := by
  induction names generalizing selected targets with
  | nil => simp
  | cons name names ih =>
    rw [partialTargets] at h
    obtain ⟨hf,h⟩ := of_guard h
    obtain ⟨rest,hr,_⟩ := of_bind h
    obtain ⟨hn,hout⟩ := ih hr
    refine ⟨nodup_cons.mpr ⟨fun hmem => hout name hmem mem_cons_self,hn⟩,?_⟩
    intro other ho
    rcases mem_cons.mp ho with rfl | hmem
    · simpa using hf
    · exact fun hs => hout other hmem (mem_cons_of_mem _ hs)
/-- A lookuper and a writer of one table with one bucket list. -/
structure SameTable (w : UpsertWriter) (c : Lookuper) : Prop where
  accepted : validateUpsertWriterTable w.table = .ok ()
  distinct : w.table.schema.primaryKey.Nodup
  schema : c.table.schema = w.table.schema
  buckets : c.buckets = w.buckets

namespace SameTable
variable {w : UpsertWriter} {c : Lookuper} {names : List String} {row key lead : Row} {r : Bytes × Int}
  (h : SameTable w c)
include h

private theorem facts : w.table.schema.validate = .ok () ∧ w.table.schema.primaryKey ≠ [] ∧
    ∀ name ∈ w.bucketNames, name ∈ w.table.schema.primaryKey := by
  obtain ⟨_,h⟩ := of_seq h.accepted
  obtain ⟨hv,h⟩ := of_seq h
  have h := (of_guard h).2
  obtain ⟨hkey,h⟩ := of_guard h
  refine ⟨hv,fun hnil => hkey (by rw [hnil]; rfl),?_⟩
  intro name hn
  unfold bucketNames at hn
  split at hn
  · exact hn
  · split at h
    · simp at h
    next hf =>
      simpa using find?_eq_none.mp hf name hn

private theorem bucketNames_eq : c.bucketNames = w.bucketNames := by
  rw [Lookuper.bucketNames,bucketNames,h.schema]
/-- What the writer queues for a row is what the lookuper asks for with the row's key. -/
theorem encodePoint_eq (hn : names.Nodup)
    (hkey : HasKey names row w.table.schema.primaryKey key) {value : Option Bytes} {targets : List Int} {future : Nat}
    {x : UpsertItem w} (hi : w.mutationItem (names.zip row) value targets future = .ok x) :
    c.encodePoint key = .ok (x.record.key, x.bucket) := by
  obtain ⟨hby,⟨bucketKey,hb,hbu⟩,_⟩ := mutationItem_eq_ok hi
  obtain ⟨_,_,hs⟩ := h.facts
  have hv : c.bucketNames.map (valueOf (w.table.schema.primaryKey.zip key)) =
      w.bucketNames.map (valueOf (names.zip row)) := by
    rw [h.bucketNames_eq]
    exact map_congr_left fun name hna => (hkey.valueOf_eq hn h.distinct (hs name hna)).symm
  rw [hkey.values hn] at hby
  have hl : encodeLookupKey c.table.schema key 1 = .ok x.record.key := by
    rw [h.schema]
    exact hby
  rw [Lookuper.encodePoint,hl,bind_ok,Lookuper.bucketForValues,h.schema,hv,h.bucketNames_eq,hb,
    bind_ok,h.buckets,hbu]
  rfl

private theorem length_of_valid (hv : w.table.schema.validatePrimaryKey key = .ok ()) :
    key.length = w.table.schema.primaryKey.length := by
  have hlen := (validateValues_of_validateRow hv).1
  cases hpk : w.table.schema.primaryKey with
  | nil => exact absurd hpk h.facts.2.1
  | cons name rest =>
    rw [hpk] at hlen
    exact hlen.symm

private theorem key_length (hp : c.encodePoint key = .ok r) : key.length = w.table.schema.primaryKey.length := by
  obtain ⟨encoded,he,_⟩ := of_bind hp
  rw [h.schema] at he
  have hb : encodePrimaryKey w.table.schema key = .ok encoded := he
  exact h.length_of_valid (of_seq hb).1

theorem encodePoint_of_delete {future : Nat} {x : UpsertItem w}
    (hi : w.deleteItem key future = .ok x) : c.encodePoint key = .ok (x.record.key, x.bucket) := by
  obtain ⟨hv,hi⟩ := of_seq hi
  exact h.encodePoint_eq h.distinct (.refl (h.length_of_valid hv)) hi

theorem deleteItem_of_encodePoint (hp : c.encodePoint key = .ok r)
    (future : Nat) : ∃ x, w.deleteItem key future = .ok x ∧ r = (x.record.key, x.bucket) := by
  have hkey := HasKey.refl (h.key_length hp)
  obtain ⟨encoded,he,hre⟩ := of_bind hp
  obtain ⟨bucket,hb,hr⟩ := of_bind hre
  obtain ⟨bucketKey,hbu,hb⟩ := of_bind hb
  rw [h.schema] at he
  rw [h.schema,h.bucketNames_eq] at hbu
  rw [h.buckets] at hb
  have hby : encodePrimaryKey w.table.schema key = .ok encoded := he
  have hv := (of_seq hby).1
  have hi : ∃ x, w.mutationItem (w.table.schema.primaryKey.zip key) none [] future = .ok x := by
    rw [mutationItem,hkey.values h.distinct,hby,bind_ok,hbu,bind_ok]
    split
    · exact ⟨_,rfl⟩
    next e heq =>
      rw [hb] at heq
      cases heq
    next p heq =>
      rw [hb] at heq
      cases heq
  obtain ⟨x,hi⟩ := hi
  refine ⟨x,?_,?_⟩
  · rw [deleteItem,hv]
    exact hi
  · exact ok.inj (hp.symm.trans (h.encodePoint_eq h.distinct hkey hi))

omit h

private theorem zip_take_left {names : List String} {lead : Row} {n : Nat} (h : lead.length = n) :
    (names.take n).zip lead = names.zip lead := by
  have ht : lead = lead.take n := by rw [← h,take_length]
  have hlen : (names.zip lead).length ≤ n := by
    rw [length_zip,h]
    exact Nat.min_le_right ..
  calc (names.take n).zip lead = (names.take n).zip (lead.take n) := by rw [← ht]
    _ = (names.zip lead).take n := take_zipWith.symm
    _ = names.zip lead := take_of_length_le hlen

private theorem encodePrefix_eq_ok (hl : c.encodePrefix lead = .ok r) :
    c.bucketNames.length ≤ lead.length ∧ c.bucketNames <+: c.table.schema.primaryKey ∧
      encodePrefixKey c.table.schema lead = .ok r.1 ∧
      c.bucketForValues (c.table.schema.primaryKey.zip lead) = .ok r.2 := by
  unfold Lookuper.encodePrefix at hl
  obtain ⟨hlen,hl⟩ := of_guard hl
  obtain ⟨hle,hl⟩ := of_guard hl
  obtain ⟨encoded,he,hl⟩ := of_bind hl
  obtain ⟨bucket,hb,hl⟩ := of_bind hl
  cases hl
  exact ⟨by omega, isPrefixOf_iff_prefix.mp (by simpa using hle),he,hb⟩
/-- A prefix that is accepted goes to the bucket of every key that extends it. -/
theorem encodePrefix_agrees (h : SameTable w c) {e b : Bytes} {bucket bucket' : Int}
    (hle : c.encodePrefix lead = .ok (e, bucket)) (hp : c.encodePoint key = .ok (b, bucket'))
    (he : key.take lead.length = lead) : bucket = bucket' ∧ e <+: b := by
  obtain ⟨hc,hl,hb,hbu⟩ := encodePrefix_eq_ok hle
  have hlen := h.key_length hp
  obtain ⟨encoded,hen,hre⟩ := of_bind hp
  obtain ⟨bucket'',hbu',hr⟩ := of_bind hre
  cases hr
  rw [h.schema] at hl hb hen
  have hn := h.distinct
  have ht : HasKey w.table.schema.primaryKey key (w.table.schema.primaryKey.take lead.length) lead := by
    have := hasKey_take lead.length hlen
    rw [he] at this
    exact this
  constructor
  · have hv : c.bucketNames.map (valueOf (w.table.schema.primaryKey.zip lead)) =
        c.bucketNames.map (valueOf (w.table.schema.primaryKey.zip key)) := by
      apply map_congr_left
      intro name hna
      have hmem : name ∈ w.table.schema.primaryKey.take lead.length :=
        (prefix_take_iff.mpr ⟨hl,hc⟩).subset hna
      rw [ht.valueOf_eq hn (hn.sublist (take_sublist ..)) hmem,zip_take_left rfl]
    rw [Lookuper.bucketForValues,h.schema] at hbu hbu'
    rw [hv,hbu'] at hbu
    exact (ok.inj hbu).symm
  · unfold encodePrefixKey at hb
    obtain ⟨hco,hb⟩ := of_guard hb
    refine encodeKeyColumns_take (n := lead.length) ?_ (of_seq hen).2 (he.symm ▸ hb)
    intro hnil
    have := congrArg List.length hnil
    rw [length_take,length_nil] at this
    omega
end SameTable
/-- All operations on one primary key send the same bytes to the same bucket. -/
theorem keyOperations_agree (w : UpsertWriter) (c : Lookuper) (h : SameTable w c) (key : Row) :
    (∀ row future x, HasKey (w.table.schema.columns.map (·.name)) row w.table.schema.primaryKey key →
      w.upsertItem row future = .ok x → c.encodePoint key = .ok (x.record.key, x.bucket)) ∧
    (∀ columns values future x, HasKey columns values w.table.schema.primaryKey key →
      w.partialUpsertItem columns values future = .ok x → c.encodePoint key = .ok (x.record.key, x.bucket)) ∧
    (∀ future x, w.deleteItem key future = .ok x → c.encodePoint key = .ok (x.record.key, x.bucket)) ∧
    (∀ r, c.encodePoint key = .ok r → ∀ future, ∃ x, w.deleteItem key future = .ok x ∧ r = (x.record.key, x.bucket)) ∧
    ∀ lead e b bucket bucket', c.encodePrefix lead = .ok (e, bucket) → key.take lead.length = lead →
      c.encodePoint key = .ok (b, bucket') → bucket = bucket' ∧ e <+: b := by
  refine ⟨?_,?_,fun future x => h.encodePoint_of_delete,fun r hpoint => h.deleteItem_of_encodePoint hpoint,
    fun lead e b bucket bucket' hlead hextends hpoint => h.encodePrefix_agrees hlead hpoint hextends⟩
  · intro row future x hkey hitem
    unfold UpsertWriter.upsertItem at hitem
    have hitem := (of_guard hitem).2
    obtain ⟨hvalid,hitem⟩ := of_seq hitem
    obtain ⟨value,_,hitem⟩ := of_bind hitem
    have hnodup := ((w.table.schema.validateRow_eq_ok row).mp hvalid).1.nodup
    exact h.encodePoint_eq hnodup hkey hitem
  · intro columns values future x hkey hitem
    obtain ⟨targets,hvalid,hitem⟩ := of_bind hitem
    obtain ⟨value,_,hitem⟩ := of_bind hitem
    unfold UpsertWriter.validatePartial at hvalid
    have hvalid := (of_guard hvalid).2
    obtain ⟨_,hvalid⟩ := of_seq hvalid
    obtain ⟨targets',htargets,_⟩ := of_bind hvalid
    exact h.encodePoint_eq (UpsertWriter.partialTargets_nodup htargets).1 hkey hitem

def orderTable : Table where
  id := 9
  schemaID := 0
  path := ⟨"shop","orders"⟩
  kind := .primaryKey
  schema := { orderSchema with bucketKey := ["number"] }

def orderWriter : UpsertWriter where
  table := orderTable
  path := ⟨orderTable.path,""⟩
  config := {}
  tableID := 9
  partitionID := -1
  writerID := 0
  buckets := [0, 1, 2]

def orderLookuper : Lookuper where
  table := orderTable
  path := ⟨orderTable.path,""⟩
  config := {}
  tableID := 9
  partitionID := -1
  buckets := [0, 1, 2]
/-- The row `[5, "b"]` as `Upsert` and, in either column order, `PartialUpsert` queue it. -/
def orderItem (targets : List Int) : UpsertItem orderWriter where
  record := ⟨[0x05, 0x01, 0x62],some [0x00, 0x05, 0x01, 0x62]⟩
  bucket := 0
  targets := targets
  size := 15
  future := 0
  bucket_mem := by decide

theorem orderOperations_agree :
    orderLookuper.encodePoint [.int32 5, .string [0x62]] = .ok ((orderItem []).record.key, (orderItem []).bucket) ∧
      orderLookuper.encodePoint [.int32 5, .string [0x62]] =
        .ok ((orderItem [1, 0]).record.key, (orderItem [1, 0]).bucket) := by
  have h : SameTable orderWriter orderLookuper := ⟨by decide,by decide,rfl,rfl⟩
  obtain ⟨hupsert, hpartial,_⟩ := keyOperations_agree orderWriter orderLookuper h [.int32 5, .string [0x62]]
  refine ⟨hupsert [.int32 5, .string [0x62]] 0 (orderItem []) ?_ rfl,
    hpartial ["name", "number"] [.string [0x62], .int32 5] 0 (orderItem [1, 0]) ?_ rfl⟩
  · exact .cons (by simp [orderWriter,orderTable,orderSchema]) (.cons (by simp [orderWriter,orderTable,orderSchema]) .nil)
  · exact .cons (by simp) (.cons (by simp) .nil)
end FlussGo
