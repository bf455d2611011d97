import FlussGo.Schema.Validate
import Mathlib.Data.List.AList
import Mathlib.Data.String.Basic
/-!
# Partition names

The name of a partition is its values in key order, joined with a separator that no value contains, so
specs and names determine each other.
-/
namespace FlussGo
def partitionValueSeparator : Char := '$'
/-- One value for every partition key. -/
abbrev PartitionSpec := AList fun _ : String => String

def partitionValues (spec : PartitionSpec) : List String → Go (List String)
  | [] => .ok []
  | key :: keys =>
    match spec.lookup key with
    | none => failf .invalidConfig s!"invalid value for partition key {key.quote}"
    | some value =>
      if value = "" ∨ partitionValueSeparator ∈ value.toList then
        failf .invalidConfig s!"invalid value for partition key {key.quote}"
      else do
        let values ← partitionValues spec keys
        return value :: values

def Schema.partitionName (s : Schema) (spec : PartitionSpec) : Go String :=
  if s.partitionKey.isEmpty then failf .invalidSchema "table is not partitioned"
  else if spec.keys.length ≠ s.partitionKey.length then
    failf .invalidConfig s!"partition spec has {spec.keys.length} values for {s.partitionKey.length} keys"
  else do
    let values ← partitionValues spec s.partitionKey
    return partitionValueSeparator.toString.intercalate values

def partitionSpecFrom : List (String × String) → PartitionSpec → Go PartitionSpec
  | [], spec => .ok spec
  | (key, value) :: rest, spec =>
    if key = "" ∨ value = "" then failf .invalidConfig "partition keys and values are required"
    else if key ∈ spec then failf .invalidConfig s!"duplicate partition key {key.quote}"
    else partitionSpecFrom rest (spec.insert key value)

def partitionSpecFromName (keys : List String) (name : String) : Go PartitionSpec :=
  if keys.isEmpty ∨ name = "" then failf .invalidConfig "partition keys and name are required"
  else
    let values := (name.toList.splitOn partitionValueSeparator).map String.ofList
    if values.length ≠ keys.length then
      failf .invalidConfig s!"partition name has {values.length} values for {keys.length} keys"
    else partitionSpecFrom (keys.zip values) ∅
/-- The loop of `PartitionNames` over the specs, with the set of names. -/
def Schema.uniqueNames (s : Schema) : List PartitionSpec → AList (fun _ : String => Unit) →
    Go (AList fun _ : String => Unit)
  | [], unique => .ok unique
  | spec :: specs, unique => do
    let name ← s.partitionName spec
    s.uniqueNames specs (unique.insert name ())

def Schema.partitionNames (s : Schema) (specs : List PartitionSpec) : Go (List String) :=
  if specs.isEmpty then failf .invalidConfig "partition specs are empty"
  else do
    let unique ← s.uniqueNames specs ∅
    return unique.keys.mergeSort fun a b => decide (a ≤ b)

section Names
open Outcome List
variable {s : Schema} {spec acc : PartitionSpec} {keys values : List String} {pairs : List (String × String)} {name : String}

def PartitionValue (value : String) : Prop := value ≠ "" ∧ partitionValueSeparator ∉ value.toList

theorem partitionValues_eq_ok : partitionValues spec keys = .ok values ↔
    Forall₂ (fun key value => spec.lookup key = some value ∧ PartitionValue value) keys values := by
  induction keys generalizing values with
  | nil =>
    rw [forall₂_nil_left_iff,partitionValues,ok.injEq]
    exact eq_comm
  | cons key keys ih =>
    rw [partitionValues,forall₂_cons_left_iff]
    cases hl : spec.lookup key with
    | none => simp
    | some value =>
      dsimp only
      by_cases hv : value = "" ∨ partitionValueSeparator ∈ value.toList
      · rw [if_pos hv]
        simp only [failf_ne_ok,false_iff]
        rintro ⟨v,vs,⟨hv',hp⟩,-⟩
        cases hv'
        exact hv.elim hp.1 hp.2
      · rw [if_neg hv,bind_eq_ok]
        rw [not_or] at hv
        constructor
        · rintro ⟨vs,hvs,h⟩
          cases h
          exact ⟨value,vs,⟨rfl,hv⟩,ih.mp hvs,rfl⟩
        · rintro ⟨v,vs,⟨hv',-⟩,hvs,rfl⟩
          cases hv'
          exact ⟨vs,ih.mpr hvs,rfl⟩

private def filled (acc : PartitionSpec) (pairs : List (String × String)) : PartitionSpec :=
  pairs.foldl (fun acc p => acc.insert p.1 p.2) acc

private theorem partitionSpecFrom_eq_ok : partitionSpecFrom pairs acc = .ok spec ↔
    (∀ p ∈ pairs, p.1 ≠ "" ∧ p.2 ≠ "") ∧ (pairs.map Prod.fst).Nodup ∧ (∀ key ∈ pairs.map Prod.fst, key ∉ acc) ∧
      spec = filled acc pairs := by
  induction pairs generalizing acc with
  | nil => simp only [partitionSpecFrom,filled,ok.injEq,foldl_nil,map_nil,nodup_nil,not_mem_nil,false_implies,implies_true,
      true_and,eq_comm]
  | cons p pairs ih =>
    rw [partitionSpecFrom]
    by_cases he : p.1 = "" ∨ p.2 = ""
    · rw [if_pos he]
      simp only [failf_ne_ok,false_iff]
      rintro ⟨hne,-⟩
      exact he.elim (hne p mem_cons_self).1 (hne p mem_cons_self).2
    rw [if_neg he]
    by_cases hm : p.1 ∈ acc
    · rw [if_pos hm]
      simp only [failf_ne_ok,false_iff]
      rintro ⟨-,-,hf,-⟩
      exact hf _ mem_cons_self hm
    rw [if_neg hm,ih]
    simp only [filled,forall_mem_cons,map_cons,nodup_cons,foldl_cons,AList.mem_insert,not_or]
    rw [not_or] at he
    constructor
    · rintro ⟨hne,hn,hf,rfl⟩
      exact ⟨⟨he,hne⟩,⟨fun hk => (hf _ hk).1 rfl,hn⟩,⟨hm,fun key hk => (hf key hk).2⟩,rfl⟩
    · rintro ⟨⟨-,hne⟩,⟨hp,hn⟩,⟨-,hf⟩,rfl⟩
      exact ⟨hne,hn,fun key hk => ⟨fun heq => hp (heq ▸ hk),hf key hk⟩,rfl⟩

private theorem filled_lookup_other {key : String} (hk : key ∉ pairs.map Prod.fst) :
    (filled acc pairs).lookup key = acc.lookup key := by
  induction pairs generalizing acc with
  | nil => rfl
  | cons p pairs ih =>
    rw [map_cons,mem_cons,not_or] at hk
    exact (ih hk.2).trans (AList.lookup_insert_ne hk.1)

private theorem filled_lookup (hn : (pairs.map Prod.fst).Nodup) : ∀ p ∈ pairs, (filled acc pairs).lookup p.1 = some p.2 := by
  induction pairs generalizing acc with
  | nil => simp
  | cons p pairs ih =>
    rw [map_cons,nodup_cons] at hn
    rw [forall_mem_cons]
    exact ⟨(filled_lookup_other hn.1).trans (AList.lookup_insert _),ih hn.2⟩

private theorem filled_length (hn : (pairs.map Prod.fst).Nodup) (hf : ∀ key ∈ pairs.map Prod.fst, key ∉ acc) :
    (filled acc pairs).keys.length = acc.keys.length + pairs.length := by
  induction pairs generalizing acc with
  | nil => rfl
  | cons p pairs ih =>
    rw [map_cons,nodup_cons] at hn
    rw [map_cons,forall_mem_cons] at hf
    have hr : (filled (acc.insert p.1 p.2) pairs).keys.length = _ := ih hn.2 fun key hk => by
      rw [AList.mem_insert,not_or]
      exact ⟨fun heq => hn.1 (heq ▸ hk),hf.2 key hk⟩
    rw [filled,foldl_cons,length_cons]
    rw [AList.keys_insert,length_cons,erase_of_not_mem hf.1] at hr
    exact hr.trans (by omega)

private theorem join_split (name : String) : partitionValueSeparator.toString.intercalate
    ((name.toList.splitOn partitionValueSeparator).map String.ofList) = name := by
  apply String.toList_inj.mp
  rw [String.toList_intercalate,map_map]
  have hid : String.toList ∘ String.ofList = id := funext fun cs => String.toList_ofList
  rw [hid,map_id]
  exact intercalate_splitOn _

private theorem split_join (hne : values ≠ []) (hv : ∀ v ∈ values, partitionValueSeparator ∉ v.toList) :
    ((partitionValueSeparator.toString.intercalate values).toList.splitOn partitionValueSeparator).map String.ofList =
      values := by
  have hs : splitOn partitionValueSeparator ([partitionValueSeparator].intercalate (values.map String.toList)) =
    values.map String.toList := splitOn_intercalate _ (by simpa using hv) (by simpa)
  rw [String.toList_intercalate]
  refine (congrArg (map String.ofList) hs).trans ?_
  rw [map_map]
  have hid : String.ofList ∘ String.toList = id := funext fun v => String.ofList_toList
  rw [hid,map_id]

private theorem separator_not_mem_split (sep : Char) (cs : List Char) : ∀ part ∈ cs.splitOn sep, sep ∉ part := by
  induction cs with
  | nil => simp
  | cons c cs ih =>
    rw [splitOn,splitOnP_cons_eq_if_modifyHead]
    split
    · rw [forall_mem_cons]
      exact ⟨not_mem_nil,ih⟩
    rename_i hc
    intro part hp
    rw [splitOn] at ih
    cases hs : splitOnP (· == sep) cs with
    | nil => simp [hs] at hp
    | cons first rest =>
      rw [hs] at ih hp
      rw [forall_mem_cons] at ih
      rcases mem_cons.mp hp with rfl | hp
      · rw [mem_cons,not_or]
        exact ⟨fun heq => hc (by simp [heq]),ih.1⟩
      · exact ih.2 part hp

theorem Schema.partitionName_eq_ok : s.partitionName spec = .ok name ↔ s.partitionKey ≠ [] ∧
    spec.keys.length = s.partitionKey.length ∧ ∃ values, name = partitionValueSeparator.toString.intercalate values ∧
      Forall₂ (fun key value => spec.lookup key = some value ∧ PartitionValue value) s.partitionKey values := by
  rw [Schema.partitionName]
  by_cases he : s.partitionKey.isEmpty
  · rw [if_pos he]
    simp [List.isEmpty_iff.mp he]
  rw [if_neg he]
  by_cases hl : spec.keys.length ≠ s.partitionKey.length
  · rw [if_pos hl]
    simp [hl]
  rw [if_neg hl,bind_eq_ok]
  simp only [partitionValues_eq_ok]
  rw [List.isEmpty_iff] at he
  refine ⟨?_,?_⟩
  · rintro ⟨values,hv,h⟩
    exact ⟨he,not_not.mp hl,values,(ok.inj h).symm,hv⟩
  · rintro ⟨-,-,values,rfl,hv⟩
    exact ⟨values,hv,rfl⟩

private theorem lookup_eq_none (hn : keys.Nodup) (hl : spec.keys.length = keys.length)
    (hin : ∀ key ∈ keys, spec.lookup key ≠ none) {key : String} (hk : key ∉ keys) : spec.lookup key = none := by
  have hsub : keys ⊆ spec.keys := by
    intro key hkey
    exact AList.mem_keys.mp (AList.lookup_isSome.mp (Option.isSome_iff_ne_none.mpr (hin key hkey)))
  have hp := (subperm_of_subset hn hsub).perm_of_length_le hl.le
  rw [AList.lookup_eq_none]
  exact fun hmem => hk (hp.mem_iff.mpr (AList.mem_keys.mp hmem))

private theorem partitionSpecFromName_of_values (hn : keys.Nodup) (hk : "" ∉ keys) (hne : keys ≠ [])
    (hv : Forall₂ (fun key value => spec.lookup key = some value ∧ PartitionValue value) keys values) :
    partitionSpecFromName keys (partitionValueSeparator.toString.intercalate values) = .ok (filled ∅ (keys.zip values)) := by
  obtain ⟨hlen,hzip⟩ := forall₂_iff_zip.mp hv
  have hval : ∀ v ∈ values, PartitionValue v := by
    rw [← map_snd_zip hlen.ge]
    rintro v hmem
    obtain ⟨p,hp,rfl⟩ := mem_map.mp hmem
    exact (hzip hp).2
  have hva : values ≠ [] := by
    rintro rfl
    exact hne (length_eq_zero_iff.mp hlen)
  have hna : partitionValueSeparator.toString.intercalate values ≠ "" := by
    obtain ⟨v,rest,rfl⟩ := exists_cons_of_ne_nil hva
    intro h
    have hj := congrArg String.toList h
    have hs := split_join hva fun v hmem => (hval v hmem).2
    rw [hj] at hs
    have he : v = "" := (cons.inj hs).1.symm
    exact (hval v mem_cons_self).1 he
  rw [partitionSpecFromName,if_neg (not_or.mpr ⟨by simpa using hne,hna⟩),split_join hva fun v hmem => (hval v hmem).2]
  rw [if_neg (by omega),partitionSpecFrom_eq_ok,map_fst_zip hlen.le]
  refine ⟨?_,hn,by simp,rfl⟩
  rintro ⟨key,value⟩ hmem
  exact ⟨fun h => hk (h ▸ (of_mem_zip hmem).1),(hzip hmem).2.1⟩

private theorem partitionName_of_specFromName (h : partitionSpecFromName s.partitionKey name = .ok spec) :
    s.partitionName spec = .ok name := by
  rw [partitionSpecFromName] at h
  obtain ⟨hne,h⟩ := of_guard h
  obtain ⟨hlen,h⟩ := of_guard h
  rw [not_or,List.isEmpty_iff] at hne
  rw [length_map] at hlen
  set values := (name.toList.splitOn partitionValueSeparator).map String.ofList with hv
  have hlen' : values.length = s.partitionKey.length := by rw [hv,length_map]; omega
  have hfst := map_fst_zip hlen'.ge
  obtain ⟨hp,hn,hf,rfl⟩ := partitionSpecFrom_eq_ok.mp h
  rw [Schema.partitionName_eq_ok]
  refine ⟨hne.1,?_,values,(join_split name).symm,forall₂_iff_zip.mpr ⟨hlen'.symm,fun {key value} hmem => ?_⟩⟩
  · rw [filled_length hn hf,length_zip]
    simp [hlen']
  · refine ⟨filled_lookup hn _ hmem,(hp _ hmem).2,?_⟩
    obtain ⟨part,hpa,rfl⟩ := mem_map.mp (of_mem_zip hmem).2
    rw [String.toList_ofList]
    exact separator_not_mem_split _ _ part hpa

private theorem Schema.uniqueNames_mem {specs : List PartitionSpec} {acc unique : AList fun _ : String => Unit}
    (h : s.uniqueNames specs acc = .ok unique) (n : String) :
    n ∈ unique ↔ n ∈ acc ∨ ∃ spec ∈ specs, s.partitionName spec = .ok n := by
  induction specs generalizing acc with
  | nil =>
    cases h
    simp
  | cons spec specs ih =>
    obtain ⟨name,hn,h⟩ := of_bind h
    rw [ih h,AList.mem_insert,exists_mem_cons_iff,hn,ok.injEq,@eq_comm _ name]
    tauto

private theorem Schema.partitionName_of_uniqueNames {specs : List PartitionSpec} {acc unique : AList fun _ : String => Unit}
    (h : s.uniqueNames specs acc = .ok unique) : ∀ spec ∈ specs, ∃ n, s.partitionName spec = .ok n := by
  induction specs generalizing acc with
  | nil => simp
  | cons spec specs ih =>
    obtain ⟨name,hn,h⟩ := of_bind h
    exact forall_mem_cons.mpr ⟨⟨name,hn⟩,ih h⟩

private theorem Schema.uniqueNames_ok {specs : List PartitionSpec} (h : ∀ spec ∈ specs, ∃ n, s.partitionName spec = .ok n)
    (acc : AList fun _ : String => Unit) : ∃ unique, s.uniqueNames specs acc = .ok unique := by
  induction specs generalizing acc with
  | nil => exact ⟨acc,rfl⟩
  | cons spec specs ih =>
    rw [forall_mem_cons] at h
    obtain ⟨⟨name,hn⟩,hr⟩ := h
    obtain ⟨unique,hu⟩ := ih hr (acc.insert name ())
    exact ⟨unique,by rw [uniqueNames,hn]; exact hu⟩

def SameSpec (spec spec' : PartitionSpec) : Prop := ∀ key, spec.lookup key = spec'.lookup key
/-- Specs and names determine each other, and the names of several specs are sorted without repetition. -/
theorem partition_names_determine_specs (s : Schema) (hn : s.partitionKey.Nodup) (hk : "" ∉ s.partitionKey) :
    (∀ spec n, s.partitionName spec = .ok n → ∃ spec', partitionSpecFromName s.partitionKey n = .ok spec' ∧ SameSpec spec' spec) ∧
    (∀ spec n, partitionSpecFromName s.partitionKey n = .ok spec → s.partitionName spec = .ok n) ∧
    (∀ spec spec' n, s.partitionName spec = .ok n → s.partitionName spec' = .ok n → SameSpec spec spec') ∧
    (∀ specs, (∃ names, s.partitionNames specs = .ok names) ↔ specs ≠ [] ∧ ∀ spec ∈ specs, ∃ n, s.partitionName spec = .ok n) ∧
    ∀ specs names, s.partitionNames specs = .ok names →
      names.Pairwise (· < ·) ∧ ∀ n, n ∈ names ↔ ∃ spec ∈ specs, s.partitionName spec = .ok n := by
  have hi : ∀ spec n, s.partitionName spec = .ok n → ∃ spec', partitionSpecFromName s.partitionKey n = .ok spec' ∧
      SameSpec spec' spec := by
    intro spec n h
    obtain ⟨hne,hlen,values,rfl,hv⟩ := Schema.partitionName_eq_ok.mp h
    refine ⟨_,partitionSpecFromName_of_values hn hk hne hv,fun key => ?_⟩
    obtain ⟨hl,hzip⟩ := forall₂_iff_zip.mp hv
    have hfst := map_fst_zip hl.le
    have hpa : ∀ key ∈ s.partitionKey, ∃ p ∈ s.partitionKey.zip values, p.1 = key :=
      fun key hmem => mem_map.mp (by rwa [hfst])
    by_cases hmem : key ∈ s.partitionKey
    · obtain ⟨p,hp,rfl⟩ := hpa key hmem
      rw [filled_lookup (hfst.symm ▸ hn) p hp,(hzip hp).1]
    · rw [filled_lookup_other (hfst.symm ▸ hmem),lookup_eq_none hn hlen ?_ hmem]
      · rfl
      · intro key hmem
        obtain ⟨p,hp,rfl⟩ := hpa key hmem
        simp [(hzip hp).1]
  refine ⟨hi,fun spec n => partitionName_of_specFromName,?_,?_,?_⟩
  · intro spec spec' n h h' key
    obtain ⟨found,hf,hsa⟩ := hi spec n h
    obtain ⟨found',hf',hsa'⟩ := hi spec' n h'
    cases ok.inj (hf.symm.trans hf')
    exact (hsa key).symm.trans (hsa' key)
  · intro specs
    rw [Schema.partitionNames]
    constructor
    · rintro ⟨names,h⟩
      obtain ⟨hne,h⟩ := of_guard h
      refine ⟨by simpa using hne,?_⟩
      obtain ⟨unique,hu,-⟩ := of_bind h
      exact Schema.partitionName_of_uniqueNames hu
    · rintro ⟨hne,hall⟩
      obtain ⟨unique,hu⟩ := Schema.uniqueNames_ok hall ∅
      rw [if_neg (by simpa using hne),hu]
      exact ⟨_,rfl⟩
  · intro specs names h
    rw [Schema.partitionNames] at h
    have h := (of_guard h).2
    obtain ⟨unique,hu,h⟩ := of_bind h
    cases h
    have hpe := mergeSort_perm unique.keys fun a b => decide (a ≤ b)
    have hs : (unique.keys.mergeSort fun a b => decide (a ≤ b)).Pairwise fun a b => decide (a ≤ b) = true :=
      pairwise_mergeSort (by simpa using fun a b c => le_trans) (by simpa using le_total) unique.keys
    refine ⟨?_,fun n => ?_⟩
    · refine (hs.and (hpe.nodup_iff.mpr unique.nodupKeys)).imp fun h => ?_
      exact lt_of_le_of_ne (of_decide_eq_true h.1) h.2
    · rw [hpe.mem_iff]
      exact (Schema.uniqueNames_mem hu n).trans (by simp)

theorem partition_names_determine_specs_pair :
    ∃ spec', partitionSpecFromName ["region", "day"] "eu$1" = .ok spec' ∧
      SameSpec spec' (((∅ : PartitionSpec).insert "day" "1").insert "region" "eu") :=
  (partition_names_determine_specs { columns := [], partitionKey := ["region", "day"] } (by decide) (by decide)).1 _ _ rfl
end Names
end FlussGo
