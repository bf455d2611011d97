import Mathlib.Data.List.Sort
/-!
# Sequences ordered by a key

Stable sorting by an integer key, ranges of keys, and prefixes of a sequence that is given in blocks.
-/
namespace FlussGo
open List Int
variable {α : Type} {key : α → Int} {xs ys : List α}

def Ascending (key : α → Int) (xs : List α) : Prop := xs.Pairwise fun a b => key a < key b
/-- The elements with a key in `[low, high)`. -/
def between (key : α → Int) (low high : Int) (xs : List α) : List α :=
  xs.filter fun a => decide (low ≤ key a ∧ key a < high)

theorem Ascending.between (h : Ascending key xs) (low high : Int) : Ascending key (between key low high xs) :=
  List.Pairwise.filter _ h

theorem between_eq_nil {low high : Int} (h : ∀ a ∈ xs, key a < low ∨ high ≤ key a) : between key low high xs = [] := by
  rw [between,filter_eq_nil_iff]
  intro a ha
  have := h a ha
  rw [decide_eq_true_eq]
  omega

theorem between_append_list (low high : Int) (xs ys : List α) :
    between key low high (xs ++ ys) = between key low high xs ++ between key low high ys := filter_append ..

theorem between_append (h : Ascending key xs) {low middle high : Int} (hlow : low ≤ middle) (hhi : middle ≤ high) :
    between key low middle xs ++ between key middle high xs = between key low high xs := by
  induction xs with
  | nil => rfl
  | cons a xs ih =>
    obtain ⟨hh,ht⟩ := pairwise_cons.mp h
    have ih := ih ht
    unfold between at ih ⊢
    by_cases hf : key a < middle
    · rw [filter_cons,filter_cons_of_neg (by simp [hf]),filter_cons]
      have hiff : (low ≤ key a ∧ key a < middle) ↔ (low ≤ key a ∧ key a < high) := by omega
      simp only [hiff]
      split
      · rw [cons_append,ih]
      · exact ih
    · -- The first range ends before this element, so nothing of the rest lies in it.
      have hnil : xs.filter (fun b => decide (low ≤ key b ∧ key b < middle)) = [] := by
        rw [filter_eq_nil_iff]
        intro b hb
        have := hh b hb
        rw [decide_eq_true_eq]
        omega
      rw [filter_cons_of_neg (by simp [hf]),hnil,nil_append,filter_cons,filter_cons]
      rw [hnil,nil_append] at ih
      have hiff : (middle ≤ key a ∧ key a < high) ↔ (low ≤ key a ∧ key a < high) := by omega
      simp only [hiff,ih]

def sortByKey (key : α → Int) (xs : List α) : List α := xs.insertionSort fun a b => key a ≤ key b

theorem sortByKey_perm (key : α → Int) (xs : List α) : (sortByKey key xs).Perm xs := perm_insertionSort _ xs

theorem sortByKey_pairwise (key : α → Int) (xs : List α) : (sortByKey key xs).Pairwise fun a b => key a ≤ key b := by
  have : Std.Total fun a b : α => key a ≤ key b := ⟨fun a b => le_total (key a) (key b)⟩
  have : IsTrans α fun a b : α => key a ≤ key b := ⟨fun _ _ _ => le_trans⟩
  exact pairwise_insertionSort _ xs

theorem Ascending.sublist (h : Ascending key ys) (hsub : xs.Sublist ys) :
    Ascending key xs := List.Pairwise.sublist hsub h

theorem Ascending.le_getLast (h : Ascending key xs) {a last : α} (hl : xs.getLast? = some last) (ha : a ∈ xs) :
    key a ≤ key last := by
  obtain ⟨init,rfl⟩ := getLast?_eq_some_iff.mp hl
  rcases mem_append.mp ha with ha | ha
  · exact le_of_lt ((pairwise_append.mp h).2.2 a ha last (by simp))
  · rw [mem_singleton.mp ha]

theorem Ascending.eq_of_key (h : Ascending key xs) {a b : α} (ha : a ∈ xs) (hb : b ∈ xs) (hkey : key a = key b) :
    a = b := by
  obtain ⟨i,hi,rfl⟩ := getElem_of_mem ha
  obtain ⟨j,hj,rfl⟩ := getElem_of_mem hb
  have hlt := pairwise_iff_getElem.mp h
  rcases Nat.lt_trichotomy i j with hij | rfl | hij
  · exact absurd hkey (ne_of_lt (hlt i j hi hj hij))
  · rfl
  · exact absurd hkey.symm (ne_of_lt (hlt j i hj hi hij))

theorem sortByKey_eq (hp : xs.Perm ys) (hys : Ascending key ys) : sortByKey key xs = ys := by
  have hall := (sortByKey_perm key xs).trans hp
  refine List.Perm.eq_of_pairwise ?_ (sortByKey_pairwise key xs) (hys.imp le_of_lt) hall
  intro a b ha hb hab hba
  exact hys.eq_of_key (hall.mem_iff.mp ha) hb (le_antisymm hab hba)
/-- The number of whole blocks in the first `k` elements of their concatenation. -/
def wholeBlocks : List (List α) → Nat → Nat
  | [], _ => 0
  | block :: blocks, k => if block.length ≤ k then wholeBlocks blocks (k - block.length) + 1 else 0

theorem le_wholeBlocks {blocks : List (List α)} {n k : Nat} (hn : n ≤ blocks.length)
    (hk : (blocks.take n).flatten.length ≤ k) : n ≤ wholeBlocks blocks k := by
  induction blocks generalizing n k with
  | nil => exact hn
  | cons block blocks ih =>
    cases n with
    | zero => omega
    | succ n =>
      rw [take_succ_cons,flatten_cons,length_append] at hk
      rw [wholeBlocks,if_pos (by omega)]
      have := ih (by simpa using hn) (show (blocks.take n).flatten.length ≤ k - block.length by omega)
      omega
/-- A prefix of a concatenation consists of whole blocks and the beginning of the next one. -/
theorem take_flatten (blocks : List (List α)) (k : Nat) : ∃ tail,
    blocks.flatten.take k = (blocks.take (wholeBlocks blocks k)).flatten ++ tail ∧
      (tail = [] ∨ ∃ block ∈ blocks, tail <+: block ∧ tail.length < block.length) := by
  induction blocks generalizing k with
  | nil => exact ⟨[],by simp,.inl rfl⟩
  | cons block blocks ih =>
    rw [wholeBlocks]
    split
    next hle =>
      obtain ⟨tail,ht,hta⟩ := ih (k - block.length)
      refine ⟨tail,?_,hta.imp_right ?_⟩
      · rw [flatten_cons,take_append,take_of_length_le hle,ht,take_succ_cons,flatten_cons,
          append_assoc]
      · rintro ⟨b,hb,hr⟩
        exact ⟨b,mem_cons_of_mem _ hb,hr⟩
    next hlt =>
      refine ⟨block.take k,?_,.inr ⟨block,mem_cons_self, take_prefix _ _,?_⟩⟩
      · rw [flatten_cons,take_append_of_le_length (by omega)]
        rfl
      · rw [length_take]
        omega
end FlussGo
