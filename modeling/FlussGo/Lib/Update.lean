import Mathlib.Algebra.BigOperators.Group.List.Basic
import Mathlib.Algebra.GroupWithZero.Nat
import Mathlib.Data.List.AList
/-!
# Lists and tables with one entry replaced

What a list collects from its entries after one of them was replaced, and the same for the lists that
a finite table holds.
-/
namespace FlussGo
open List AList
section Entries
variable {α β : Type} {l : List α} {i : Nat} {x y : α} {b : β} {f : α → List β}

theorem perm_cons_eraseIdx (h : l[i]? = some x) : l.Perm (x :: l.eraseIdx i) := by
  obtain ⟨hlt,rfl⟩ := List.getElem?_eq_some_iff.mp h
  exact (getElem_cons_eraseIdx_perm hlt).symm

theorem set_perm_of_getElem? (h : l[i]? = some x) (y : α) : (l.set i y).Perm (y :: l.eraseIdx i) :=
  List.set_perm_cons_eraseIdx (List.getElem?_eq_some_iff.mp h).1 y

theorem flatMap_perm_eraseIdx (f : α → List β) (h : l[i]? = some x) :
    (l.flatMap f).Perm (f x ++ (l.eraseIdx i).flatMap f) := (perm_cons_eraseIdx h).flatMap_right f

theorem flatMap_set_perm (f : α → List β) (h : l[i]? = some x) (y : α) :
    ((l.set i y).flatMap f).Perm (f y ++ (l.eraseIdx i).flatMap f) := (set_perm_of_getElem? h y).flatMap_right f

theorem flatMap_set_eq (h : l[i]? = some x) (hs : f y = f x) : (l.set i y).flatMap f = l.flatMap f := by
  obtain ⟨hlt,rfl⟩ := List.getElem?_eq_some_iff.mp h
  have hset : (l.map f).set i (f l[i]) = l.map f := by
    rw [← map_set,set_getElem_self]
  rw [flatMap_def,flatMap_def,map_set,hs,hset]

theorem forall_mem_set {P : α → Prop} (h : ∀ a ∈ l, P a) (hy : P y) : ∀ a ∈ l.set i y, P a := by
  intro a ha
  rcases mem_or_eq_of_mem_set ha with ha | rfl
  · exact h a ha
  · exact hy

theorem forall_mem_concat {P : α → Prop} (h : ∀ a ∈ l, P a) (hy : P y) : ∀ a ∈ l ++ [y], P a :=
  forall_mem_append.mpr ⟨h,forall_mem_singleton.mpr hy⟩

theorem mem_flatMap_set (h : b ∈ (l.set i y).flatMap f) : b ∈ f y ∨ b ∈ l.flatMap f := by
  obtain ⟨a,ha,hb⟩ := mem_flatMap.mp h
  rcases mem_or_eq_of_mem_set ha with ha | rfl
  · exact .inr (mem_flatMap.mpr ⟨a,ha,hb⟩)
  · exact .inl hb

theorem mem_flatMap_set_self (h : l[i]? = some x) (hb : b ∈ f y) : b ∈ (l.set i y).flatMap f :=
  (flatMap_set_perm f h y).mem_iff.mpr (mem_append_left _ hb)

theorem mem_flatMap_or_set (h : l[i]? = some x) (y : α) (hb : b ∈ l.flatMap f) : b ∈ f x ∨
    b ∈ (l.set i y).flatMap f := by
  rcases mem_append.mp ((flatMap_perm_eraseIdx f h).mem_iff.mp hb) with hb | hb
  · exact .inl hb
  · exact .inr ((flatMap_set_perm f h y).mem_iff.mpr (mem_append_right _ hb))

theorem sum_map_set {w : α → Nat} (h : l[i]? = some x) (y : α) :
    ((l.set i y).map w).sum + w x = (l.map w).sum + w y := by
  have hset := ((set_perm_of_getElem? h y).map w).sum_eq
  have hold := ((perm_cons_eraseIdx h).map w).sum_eq
  simp only [map_cons,sum_cons] at hset hold
  omega

theorem countP_set_of_getElem? {p : α → Bool} (h : l[i]? = some x) (y : α) :
    (l.set i y).countP p + (if p x = true then 1 else 0) = l.countP p + (if p y = true then 1 else 0) := by
  rw [(set_perm_of_getElem? h y).countP_eq,(perm_cons_eraseIdx h).countP_eq,countP_cons,countP_cons]
  omega
/-- Distinct positions with a property are at most as many as the entries with it. -/
theorem length_le_countP {p : α → Bool} {positions : List Nat} (hn : positions.Nodup)
    (h : ∀ i ∈ positions, ∃ a, l[i]? = some a ∧ p a = true) : positions.length ≤ l.countP p := by
  have hsub : positions ⊆ (l.zipIdx.filter fun e => p e.1).map Prod.snd := by
    intro i hi
    obtain ⟨a,ha,hp⟩ := h i hi
    refine mem_map.mpr ⟨(a, i),mem_filter.mpr ⟨?_,hp⟩,rfl⟩
    exact mem_zipIdx_iff_getElem?.mpr ha
  have hl : ((l.zipIdx.filter fun e => p e.1).map Prod.snd).length = l.countP p := by
    rw [length_map,← countP_eq_length_filter]
    conv_rhs => rw [← zipIdx_map_fst 0 l,countP_map]
    rfl
  rw [← hl]
  exact (subperm_of_subset hn hsub).length_le
end Entries

section Tables
variable {κ β : Type} [DecidableEq κ] {m : AList fun _ : κ => List β} {k k' : κ} {b : β} {l : List β}

def tableElements (m : AList fun _ : κ => List β) : List β := m.entries.flatMap (·.2)
/-- The list at a key, which is empty where there is none. -/
def tableList (m : AList fun _ : κ => List β) (k : κ) : List β := (m.lookup k).getD []

theorem mem_tableElements : b ∈ tableElements m ↔ ∃ k, b ∈ tableList m k := by
  constructor
  · intro h
    obtain ⟨⟨k,l⟩,hmem,hb⟩ := mem_flatMap.mp h
    refine ⟨k,?_⟩
    rw [tableList,Option.mem_def.mp (mem_lookup_iff.mpr hmem)]
    exact hb
  · rintro ⟨k,hb⟩
    unfold tableList at hb
    cases hk : m.lookup k with
    | none => simp [hk] at hb
    | some l =>
      rw [hk] at hb
      exact mem_flatMap.mpr ⟨⟨k,l⟩,mem_lookup_iff.mp hk,hb⟩

@[simp] theorem tableList_insert_self : tableList (m.insert k l) k = l := by
  rw [tableList,lookup_insert]
  rfl

theorem tableList_insert_ne (h : k' ≠ k) : tableList (m.insert k l) k' = tableList m k' := by
  rw [tableList,lookup_insert_ne h,tableList]

@[simp] theorem tableList_erase_self : tableList (m.erase k) k = [] := by
  rw [tableList,lookup_erase]
  rfl

theorem tableList_erase_ne (h : k' ≠ k) : tableList (m.erase k) k' = tableList m k' := by
  rw [tableList,lookup_erase_ne h,tableList]

theorem length_tableElements_erase (m : AList fun _ : κ => List β) (k : κ) :
    (tableElements m).length = (tableList m k).length + (tableElements (m.erase k)).length := by
  by_cases hk : k ∈ m
  · obtain ⟨l,l₁,l₂,hl₁,hen,her⟩ := exists_of_kerase (mem_keys.mp hk)
    have hl : m.lookup k = some l := mem_lookup_iff.mpr (by rw [hen]; simp)
    have he : (m.erase k).entries = l₁ ++ l₂ := her
    rw [tableElements,tableElements,hen,he,tableList,hl]
    simp only [flatMap_append,flatMap_cons,length_append,Option.getD_some]
    omega
  · have he : (m.erase k).entries = m.entries := kerase_of_notMem_keys hk
    rw [tableElements,tableElements,he,tableList,lookup_eq_none.mpr hk]
    simp

theorem length_tableElements_insert (m : AList fun _ : κ => List β) (k : κ) (l : List β) :
    (tableElements (m.insert k l)).length = l.length + (tableElements (m.erase k)).length := by
  show ((⟨k,l⟩ :: kerase k m.entries : List (Sigma fun _ : κ => List β)).flatMap (·.2)).length = _
  rw [flatMap_cons,length_append]
  rfl
end Tables
end FlussGo
