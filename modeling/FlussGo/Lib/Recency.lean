import Mathlib.Data.List.AList
import Mathlib.Data.List.MinMax
/-!
# Recency

Finite tables whose entries carry the time of their last use, the order of last use, and the loop that drops
the oldest entries of a table.
-/
namespace FlussGo
open List
variable {κ ν : Type} [DecidableEq κ]
/-- The distinct keys of a history; both have the latest key first. -/
def recency : List κ → List κ
  | [] => []
  | key :: touches => key :: (recency touches).erase key

theorem recency_nodup (touches : List κ) : (recency touches).Nodup := by
  induction touches with
  | nil => exact nodup_nil
  | cons key touches ih =>
    apply nodup_cons.mpr
    exact ⟨ih.not_mem_erase,ih.erase key⟩

theorem mem_recency {key : κ} {touches : List κ} : key ∈ recency touches ↔ key ∈ touches := by
  induction touches with
  | nil => rfl
  | cons last touches ih =>
    rw [recency,mem_cons,mem_cons,(recency_nodup touches).mem_erase_iff,ih]
    by_cases h : key = last <;> simp [h]

private theorem take_erase_take (l : List κ) (key : κ) (n : Nat) :
    ((l.take (n + 1)).erase key).take n = (l.erase key).take n := by
  induction l generalizing n with
  | nil => rfl
  | cons x l ih =>
    by_cases hx : x = key
    · subst hx
      simp [take_take]
    · cases n with
      | zero => rfl
      | succ n => simp [erase_cons_tail,hx,ih]

theorem recency_take (key : κ) (touches : List κ) (n : Nat) :
    (key :: ((recency touches).take n).erase key).take n = (recency (key :: touches)).take n := by
  cases n with
  | zero => rfl
  | succ n => rw [recency,take_succ_cons,take_succ_cons,take_erase_take]
/-- The order in which a `range` statement visits the entries of a map. -/
structure RangeOrder (α : Type) where
  visit : List α → List α
  perm : ∀ l, (visit l).Perm l

section Table
variable (used : ν → Nat) (order : RangeOrder (Σ _ : κ, ν)) (max : Nat)
/-- Delete the entry with the smallest stamp, the first one visited among equals, until the table fits. -/
def evict : Nat → (AList fun _ : κ => ν) → AList fun _ : κ => ν
  | 0, t => t
  | n + 1, t =>
    if max < t.keys.length then
      match (order.visit t.entries).argmin fun e => used e.2 with
      | some oldest => evict n (t.erase oldest.1)
      | none => t
    else t
/-- The entries of a table from the latest used to the oldest. -/
structure Ranked (t : AList fun _ : κ => ν) (ranked : List (Σ _ : κ, ν)) : Prop where
  perm : ranked.Perm t.entries
  latest : ranked.Pairwise fun a b => used b.2 < used a.2

variable {used order max} {t : AList fun _ : κ => ν} {ranked : List (Σ _ : κ, ν)}

omit [DecidableEq κ] in
theorem Ranked.length (h : Ranked used t ranked) : ranked.length = t.keys.length := by
  rw [AList.keys,List.keys,length_map,h.perm.length_eq]

omit [DecidableEq κ] in
theorem Ranked.nodup (h : Ranked used t ranked) : ranked.NodupKeys := (perm_nodupKeys h.perm).mpr t.nodupKeys

theorem Ranked.insert (h : Ranked used t ranked) {key : κ} {value : ν} (hn : ∀ e ∈ ranked, used e.2 < used value) :
    Ranked used (t.insert key value) (⟨key,value⟩ :: kerase key ranked) where
  perm := (h.perm.kerase h.nodup).cons _
  latest := by
    refine pairwise_cons.mpr ⟨fun e he => hn e ((kerase_sublist key ranked).subset he),?_⟩
    exact h.latest.sublist (kerase_sublist key ranked)

variable (used order) in
private theorem evict_round (n : Nat) (hm : max < t.keys.length) :
    ∃ oldest ∈ t.entries, (∀ e ∈ t.entries, used oldest.2 ≤ used e.2) ∧
      (t.erase oldest.1).keys.length = t.keys.length - 1 ∧
      evict used order max (n + 1) t = evict used order max n (t.erase oldest.1) := by
  have hp := order.perm t.entries
  rw [evict,if_pos hm]
  cases ha : (order.visit t.entries).argmin fun e => used e.2 with
  | none =>
    have hz := hp.length_eq
    rw [argmin_eq_none.mp ha] at hz
    rw [AList.keys,List.keys,length_map,← hz] at hm
    exact absurd hm (Nat.not_lt_zero max)
  | some oldest =>
    have ho := hp.mem_iff.mp (argmin_mem ha)
    refine ⟨oldest,ho,fun e he => ?_,?_,rfl⟩
    · exact le_of_mem_argmin (f := fun e : Σ _ : κ, ν => used e.2) (hp.mem_iff.mpr he) ha
    · exact AList.keys_erase oldest.1 t ▸ length_erase_of_mem (mem_keys_of_mem ho)

theorem evict_fits {n : Nat} (h : t.keys.length ≤ max + n) :
    (evict used order max n t).entries ⊆ t.entries ∧ (evict used order max n t).keys.length ≤ max := by
  induction n generalizing t with
  | zero => exact ⟨Subset.refl _,h⟩
  | succ n ih =>
    by_cases hm : max < t.keys.length
    · obtain ⟨oldest,-,-,hl,hr⟩ := evict_round used order n hm
      rw [hr]
      obtain ⟨hs,hle⟩ := ih (t := t.erase oldest.1) (by omega)
      exact ⟨fun e he => (kerase_sublist _ _).subset (hs he),hle⟩
    · rw [evict,if_neg hm]
      exact ⟨Subset.refl _,Nat.le_of_not_lt hm⟩

private theorem Ranked.erase_last {last oldest : Σ _ : κ, ν} (h : Ranked used t (ranked ++ [last])) (ho : oldest ∈ t.entries)
    (hl : ∀ e ∈ t.entries, used oldest.2 ≤ used e.2) : Ranked used (t.erase oldest.1) ranked := by
  obtain ⟨hr,-,hlast⟩ := pairwise_append.mp h.latest
  have hle : oldest = last := by
    rcases mem_append.mp (h.perm.mem_iff.mpr ho) with hmem | hmem
    · have := hlast oldest hmem last mem_cons_self
      have := hl last (h.perm.mem_iff.mp (by simp))
      omega
    · exact mem_singleton.mp hmem
  subst hle
  have hk : oldest.1 ∉ ranked.keys := by
    have hnd := h.nodup
    rw [NodupKeys,keys_append] at hnd
    exact fun hk => (nodup_append.mp hnd).2.2 _ hk _ (by simp) rfl
  refine ⟨?_,hr⟩
  have hp := h.perm.kerase (a := oldest.1) h.nodup
  rwa [kerase_append_right hk,kerase_cons_eq rfl,append_nil] at hp
/-- The loop keeps the latest used entries. -/
theorem Ranked.evict {n : Nat} (h : Ranked used t ranked) (hn : t.keys.length ≤ max + n) :
    Ranked used (evict used order max n t) (ranked.take max) := by
  induction n generalizing t ranked with
  | zero =>
    rw [take_of_length_le (h.length ▸ hn)]
    exact h
  | succ n ih =>
    have hlen := h.length
    by_cases hm : max < t.keys.length
    · obtain ⟨oldest,ho,hle,hl,hr⟩ := evict_round used order n hm
      rcases eq_nil_or_concat' ranked with rfl | ⟨init,last,rfl⟩
      · rw [← hlen] at hm
        exact absurd hm (Nat.not_lt_zero max)
      · rw [length_append,length_singleton] at hlen
        rw [hr,take_append_of_le_length (by omega)]
        exact ih (h.erase_last ho hle) (by omega)
    · rw [FlussGo.evict,if_neg hm,take_of_length_le (by omega)]
      exact h
end Table
end FlussGo
