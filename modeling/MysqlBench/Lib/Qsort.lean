import Mathlib

/-!
# `qsort`

What the C standard says about `qsort`: the result is a rearrangement, and if the comparison is
consistent it is ordered by it. Nothing else is fixed; a development that is correct for every `Qsort`
does not depend on the algorithm, or on what happens to equal elements. `Qsort.mergeSort` is one.
-/

namespace MysqlBench.Lib

/-- The comparisons that `qsort` asks for: the signs of the two directions are opposite, and the order
is transitive. -/
structure Consistent {α : Type} (cmp : α → α → Int) : Prop where
  opposite : ∀ a b, (cmp a b).sign = -(cmp b a).sign
  trans : ∀ a b c, cmp a b ≤ 0 → cmp b c ≤ 0 → cmp a c ≤ 0

theorem Consistent.total {α : Type} {cmp : α → α → Int} (h : Consistent cmp) (a b : α) :
    cmp a b ≤ 0 ∨ cmp b a ≤ 0 := by
  by_contra hcon
  push Not at hcon
  have hsign := h.opposite a b
  rw [Int.sign_eq_one_of_pos hcon.1, Int.sign_eq_one_of_pos hcon.2] at hsign
  exact absurd hsign (by decide)

structure Qsort (α : Type) where
  sort : (α → α → Int) → List α → List α
  perm : ∀ cmp l, (sort cmp l).Perm l
  ordered : ∀ cmp l, Consistent cmp → (sort cmp l).Pairwise fun a b => cmp a b ≤ 0

theorem pairwise_mergeSort_of_consistent {α : Type} (cmp : α → α → Int) (l : List α)
    (h : Consistent cmp) : (l.mergeSort fun a b => cmp a b ≤ 0).Pairwise fun a b => cmp a b ≤ 0 := by
  have hpair := @List.pairwise_mergeSort _ (fun a b => decide (cmp a b ≤ 0))
    (fun a b c hab hbc => by simpa using h.trans a b c (by simpa using hab) (by simpa using hbc))
    (fun a b => by simpa using h.total a b) l
  simpa using hpair

def Qsort.mergeSort (α : Type) : Qsort α where
  sort cmp l := l.mergeSort fun a b => cmp a b ≤ 0
  perm _ l := List.mergeSort_perm l _
  ordered := pairwise_mergeSort_of_consistent

def threeWay {κ : Type} [LinearOrder κ] (a b : κ) : Int := if b < a then 1 else if a < b then -1 else 0

theorem threeWay_nonpos {κ : Type} [LinearOrder κ] {a b : κ} : threeWay a b ≤ 0 ↔ a ≤ b := by
  unfold threeWay
  split_ifs with hgt hlt
  · simpa using hgt
  · simpa using hlt.le
  · simpa using not_lt.mp hgt

theorem consistent_threeWay {κ : Type} [LinearOrder κ] : Consistent (@threeWay κ _) where
  opposite a b := by
    unfold threeWay
    rcases lt_trichotomy a b with h | h | h
    · simp [h, h.not_gt]
    · simp [h]
    · simp [h, h.not_gt]
  trans a b c hab hbc := threeWay_nonpos.mpr (le_trans (threeWay_nonpos.mp hab) (threeWay_nonpos.mp hbc))

end MysqlBench.Lib
