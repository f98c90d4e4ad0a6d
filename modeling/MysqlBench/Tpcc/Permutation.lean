import MysqlBench.Lib.Shuffle
import MysqlBench.Tpcc.Load

/-!
# The permutation of the customers (`InitPermutation`, `GetPermutation`)

`InitPermutation` writes the numbers from one to `ORD_PER_DIST` into `nums` and exchanges each but the last
with a later one; `GetPermutation` reads `nums` from its beginning. Here the number of customers is any
`n`. The result is always a permutation (`permuteFrom_perm`), but since `j` is drawn from `i + 1` on, an
entry never stays where it is: the first one cannot (`permuteFrom_head`), so with two customers or more the
numbers in their own order are not among the results.
-/

namespace MysqlBench.Tpcc

open Lib

/-! ## The model -/

def permuteFrom : Nat → List Nat → List Int → List Int
  | _, [], nums => nums
  | i, j :: js, nums => permuteFrom (i + 1) js (swapInt nums i j)

def Drawn (n : Nat) (js : List Nat) : Prop :=
  js.length + 1 = n ∧ ∀ i j, js[i]? = some j → i + 1 ≤ j ∧ j ≤ n - 1

def initPermutationOf (n : Nat) (js : List Nat) : Permutation := ⟨permuteFrom 0 js (upTo n), 0⟩

def getPermutationOf (n : Nat) (p : Permutation) : Option (Int × Permutation) :=
  if n ≤ p.permCount then none
  else some (p.nums.getD p.permCount 0, { p with permCount := p.permCount + 1 })

def getPermutations (n : Nat) : Nat → Permutation → Option (List Int)
  | 0, _ => some []
  | k + 1, p => (getPermutationOf n p).bind fun r => (getPermutations n k r.2).map (r.1 :: ·)

/-! ## The shuffle -/

def reaches : Nat → List Nat → List Nat
  | _, [] => []
  | i, j :: js => (j - i) :: reaches (i + 1) js

variable {js : List Nat} {nums : List Int} {n : Nat}

theorem permuteFrom_eq {i : Nat}
    (h : ∀ k j, js[k]? = some j → i + k < j ∧ j < nums.length) :
    permuteFrom i js nums = shuffleFrom i (reaches i js) nums := by
  induction js generalizing i nums with
  | nil => rfl
  | cons j js ih =>
    obtain ⟨hij, hj⟩ := h 0 j rfl
    have hi : i < nums.length := by omega
    have hswap : swapInt nums i j = nums.swap i (i + (j - i)) := by
      rw [show i + (j - i) = j by omega, swapInt, List.getD_eq_getElem _ _ hi, List.getD_eq_getElem _ _ hj,
        List.swap_eq_of_lt hi hj]
    rw [permuteFrom, reaches, shuffleFrom, hswap]
    refine ih fun k j' hj' => ?_
    have := h (k + 1) j' hj'
    rw [List.length_swap]
    omega

theorem Drawn.permuteFrom_eq (h : Drawn n js) :
    permuteFrom 0 js (upTo n) = shuffleFrom 0 (reaches 0 js) (upTo n) := by
  refine Tpcc.permuteFrom_eq fun k j hj => ?_
  have := h.2 k j hj
  have := h.1
  rw [length_upTo]
  omega

theorem Drawn.permuteFrom_perm (h : Drawn n js) :
    (permuteFrom 0 js (upTo n)).Perm (upTo n) := by
  rw [h.permuteFrom_eq]
  exact shuffleFrom_perm _ _ _

theorem Drawn.permuteFrom_head (h : Drawn n js) (hn : 2 ≤ n) :
    (permuteFrom 0 js (upTo n)).head? ≠ (upTo n).head? := by
  cases js with
  | nil => exact absurd h.1 (by simp; omega)
  | cons j js =>
    obtain ⟨hj, hjn⟩ := h.2 0 j rfl
    have hlt : j < (upTo n).length := by rw [length_upTo]; omega
    obtain ⟨t, hswap⟩ := exists_swap_zero (List.getElem?_eq_getElem hlt)
    rw [h.permuteFrom_eq, reaches, Nat.sub_zero, shuffleFrom_cons hswap, List.head?_cons, List.head?_eq_getElem?,
      ← List.getElem?_eq_getElem hlt]
    intro heq
    have hzero : j = 0 := (List.getElem?_inj hlt (nodup_upTo n)).mp heq
    omega

/-! ## The calls -/

theorem getPermutations_eq (hlen : nums.length = n) (k : Nat) {c : Nat}
    (hc : c + k ≤ n) : getPermutations n k ⟨nums, c⟩ = some ((nums.drop c).take k) := by
  induction k generalizing c with
  | zero => rw [List.take_zero]; rfl
  | succ k ih =>
    have hlt : c < nums.length := by omega
    have hget : getPermutationOf n ⟨nums, c⟩ = some (nums[c], ⟨nums, c + 1⟩) := by
      rw [getPermutationOf, if_neg (by simp only; omega), List.getD_eq_getElem _ _ hlt]
    rw [getPermutations, hget, Option.bind_some, ih (by omega), Option.map_some,
      List.drop_eq_getElem_cons hlt, List.take_succ_cons]

theorem getPermutations_all (h : Drawn n js) :
    getPermutations n n (initPermutationOf n js) = some (initPermutationOf n js).nums := by
  have hlen : (permuteFrom 0 js (upTo n)).length = n := by rw [h.permuteFrom_perm.length_eq, length_upTo]
  rw [initPermutationOf, getPermutations_eq hlen n (by omega), List.drop_zero, List.take_of_length_le hlen.le]

/-- For every number of customers `nums` becomes a permutation, which the calls return entry by
entry; but only for one customer is every permutation among the results. An entry is always
exchanged with a later one, and never stays where it is. -/
theorem initPermutation_onto_iff {n : Nat} (hn : 0 < n) :
    (∀ js, Drawn n js → (initPermutationOf n js).nums.Perm (upTo n) ∧
      getPermutations n n (initPermutationOf n js) = some (initPermutationOf n js).nums) ∧
    ((∀ q : List Int, q.Perm (upTo n) → ∃ js, Drawn n js ∧
      getPermutations n n (initPermutationOf n js) = some q) ↔ n = 1) := by
  refine ⟨fun js h => ⟨h.permuteFrom_perm, getPermutations_all h⟩, fun honto => ?_, ?_⟩
  · by_contra hne
    obtain ⟨js, h, hget⟩ := honto (upTo n) (.refl _)
    rw [getPermutations_all h, Option.some.injEq] at hget
    exact h.permuteFrom_head (by omega) (congrArg List.head? hget)
  · rintro rfl q hq
    refine ⟨[], ⟨rfl, by simp⟩, ?_⟩
    rw [List.perm_singleton.mp hq]
    rfl

/-- The two customers in their own order are not a result. -/
theorem identity_not_drawn : ¬∃ js, Drawn 2 js ∧
    getPermutations 2 2 (initPermutationOf 2 js) = some [1, 2] := by
  rintro ⟨js, h, hget⟩
  rw [getPermutations_all h, Option.some.injEq] at hget
  exact h.permuteFrom_head (le_refl 2) (congrArg List.head? hget)

/-- Three customers, `j` being one and then two. -/
theorem initPermutation_onto_iff_three : Drawn 3 [1, 2] ∧
    getPermutations 3 3 (initPermutationOf 3 [1, 2]) = some [2, 3, 1] := by
  have h : Drawn 3 [1, 2] := ⟨rfl, fun i j hj => by
    match i, hj with
    | 0, hj => cases hj; decide
    | 1, hj => cases hj; decide⟩
  exact ⟨h, ((initPermutation_onto_iff (by decide)).1 _ h).2⟩

end MysqlBench.Tpcc
