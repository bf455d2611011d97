import Mathlib.Data.List.Infix
/-!
# Prefix codes

A family of codes whose codewords can be told apart at the head of any list. `key` is what a codeword keeps
of the value it encodes.
-/
namespace FlussGo
open List
variable {ι α β κ : Type}

structure PrefixCode (code : ι → α → List β → Prop) (key : ι → α → κ) : Prop where
  decode : ∀ {i a b x y r s}, code i a x → code i b y → x ++ r = y ++ s → key i a = key i b ∧ x = y
  encode : ∀ {i a b x y}, code i a x → code i b y → key i a = key i b → x = y
/-- Codewords of the codes `is` in turn. -/
inductive Codewords (code : ι → α → List β → Prop) : List ι → List α → List β → Prop
  | nil : Codewords code [] [] []
  | cons {i : ι} {is : List ι} {a : α} {as : List α} {x xs : List β} :
      code i a x → Codewords code is as xs → Codewords code (i :: is) (a :: as) (x ++ xs)

namespace Codewords
variable {code : ι → α → List β → Prop} {key : ι → α → κ} {is js : List ι} {as bs : List α} {xs ys : List β}

theorem length_eq (h : Codewords code is as xs) : as.length = is.length := by
  induction h with
  | nil => rfl
  | cons _ _ ih => rw [length_cons,length_cons,ih]

theorem split (h : Codewords code (is ++ js) as xs) :
    ∃ ys zs, xs = ys ++ zs ∧ Codewords code is (as.take is.length) ys := by
  induction is generalizing as xs with
  | nil => exact ⟨[],xs,rfl,.nil⟩
  | cons i is ih =>
    cases h with
    | cons ha hr =>
      obtain ⟨ys,zs,rfl,hl⟩ := ih hr
      exact ⟨_,zs,(append_assoc ..).symm,.cons ha hl⟩

theorem restrict {P : ι → α → Prop} (h : Codewords code is as xs) (hp : List.Forall₂ P is as) :
    Codewords (fun i a x => code i a x ∧ P i a) is as xs := by
  induction h with
  | nil => exact .nil
  | cons ha _ ih =>
    cases hp with
    | cons hi hr => exact .cons ⟨ha,hi⟩ (ih hr)

theorem decode (hc : PrefixCode code key) {r s : List β} (hx : Codewords code is as xs) (hy : Codewords code is bs ys)
    (h : xs ++ r = ys ++ s) : zipWith key is as = zipWith key is bs ∧ xs = ys := by
  induction hx generalizing bs ys with
  | nil =>
    cases hy with
    | nil => exact ⟨rfl,rfl⟩
  | cons ha _ ih =>
    cases hy with
    | cons hb hr =>
      rw [append_assoc,append_assoc] at h
      obtain ⟨hkey,rfl⟩ := hc.decode ha hb h
      obtain ⟨hk,rfl⟩ := ih hr (append_cancel_left h)
      rw [zipWith_cons_cons,zipWith_cons_cons,hkey,hk]
      exact ⟨rfl,rfl⟩

theorem encode (key : ι → α → κ) (hc : ∀ i a b x y, code i a x → code i b y → key i a = key i b → x = y)
    (hx : Codewords code is as xs) (hy : Codewords code is bs ys)
    (h : zipWith key is as = zipWith key is bs) : xs = ys := by
  induction hx generalizing bs ys with
  | nil =>
    cases hy with
    | nil => rfl
  | cons ha _ ih =>
    cases hy with
    | cons hb hr =>
      rw [zipWith_cons_cons,zipWith_cons_cons,cons.injEq] at h
      rw [hc _ _ _ _ _ ha hb h.1,ih hr h.2]
/-- The codewords of leading codes begin a list of codewords exactly when their values agree. -/
theorem isPrefix_iff (hc : PrefixCode code key) (hx : Codewords code is as xs) (hy : Codewords code (is ++ js) bs ys) :
    xs <+: ys ↔ zipWith key is as = zipWith key is (bs.take is.length) := by
  obtain ⟨lead,rest,rfl,hl⟩ := hy.split
  constructor
  · rintro ⟨r,hr⟩
    exact (decode hc hx hl hr).1
  · intro h
    rw [encode key (fun _ _ _ _ _ => hc.encode) hx hl h]
    exact prefix_append lead rest

theorem eq_iff (hc : PrefixCode code key) (hx : Codewords code is as xs) (hy : Codewords code is bs ys) :
    xs = ys ↔ zipWith key is as = zipWith key is bs := by
  constructor
  · rintro rfl
    exact (decode hc hx hy (r := []) (s := []) rfl).1
  · exact encode key (fun _ _ _ _ _ => hc.encode) hx hy

theorem eq_of_isPrefix (hc : PrefixCode code key) (hx : Codewords code is as xs) (hy : Codewords code is bs ys)
    (h : xs <+: ys) : xs = ys := by
  obtain ⟨r,hr⟩ := h
  exact (decode hc hx hy (s := []) (by rw [hr,append_nil])).2
end Codewords
end FlussGo
