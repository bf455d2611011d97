import Mathlib.Data.List.Nodup
import Mathlib.Logic.Function.Basic
/-!
# Numbering stored keys

Successive numbers are stored under the keys of a list. A key that occurs again is stored again.
-/
namespace FlussGo
open List Function
variable {κ : Type*} [DecidableEq κ] {ks : List κ}

def numberFrom (f : κ → Int) (next : Int) : List κ → κ → Int
  | [] => f
  | k :: ks => numberFrom (Function.update f k next) (next + 1) ks

theorem numberFrom_append (f : κ → Int) (next : Int) (ks ks' : List κ) :
    numberFrom f next (ks ++ ks') = numberFrom (numberFrom f next ks) (next + ks.length) ks' := by
  induction ks generalizing f next with
  | nil => simp [numberFrom]
  | cons k ks ih =>
    rw [cons_append,numberFrom,ih,numberFrom,length_cons]
    congr 1
    push_cast
    omega

theorem numberFrom_of_not_mem (f : κ → Int) (next : Int) {k : κ} (h : k ∉ ks) : numberFrom f next ks k = f k := by
  induction ks generalizing f next with
  | nil => rfl
  | cons k' ks ih =>
    rw [mem_cons,not_or] at h
    rw [numberFrom,ih _ _ h.2,update_of_ne h.1]

theorem le_numberFrom (f : κ → Int) (next : Int) {k : κ} (h : k ∈ ks) : next ≤ numberFrom f next ks k := by
  induction ks generalizing f next with
  | nil => cases h
  | cons k' ks ih =>
    rw [numberFrom]
    by_cases hl : k ∈ ks
    · have := ih (update f k' next) (next + 1) hl
      omega
    · obtain rfl : k = k' := (mem_cons.mp h).resolve_right hl
      apply Int.le_of_eq
      rw [numberFrom_of_not_mem _ _ hl,update_self]

theorem map_numberFrom (f : κ → Int) (next : Int) (h : ks.Nodup) :
    ks.map (numberFrom f next ks) = (range ks.length).map fun (i : Nat) => next + i := by
  induction ks generalizing f next with
  | nil => rfl
  | cons k ks ih =>
    rw [nodup_cons] at h
    rw [map_cons,length_cons,range_succ_eq_map,map_cons,numberFrom,numberFrom_of_not_mem _ _ h.1,
      update_self,ih _ _ h.2,map_map]
    congr 1
    · simp
    apply map_congr_left
    intro i _
    simp only [comp_apply]
    push_cast
    omega
end FlussGo
