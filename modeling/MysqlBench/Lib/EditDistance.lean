import Mathlib

/-!
# The edit distance

`editDistance` is the recursion on the first characters: one of them is deleted, inserted or put in the place of the
other, at no cost if they are the same. It is the least cost of a script (`Script`) that makes one list out of the
other, and as scripts can be read backwards, it obeys the same recursion on the last characters
(`editDistance_concat`), which is the one that a table of prefixes is filled by.
-/

namespace MysqlBench.Lib

variable {α : Type} [DecidableEq α] {xs ys : List α} {m n : Nat}

def editDistance : List α → List α → Nat
  | [], ys => ys.length
  | xs, [] => xs.length
  | x :: xs, y :: ys =>
    min (editDistance xs (y :: ys) + 1)
      (min (editDistance (x :: xs) ys + 1) (editDistance xs ys + if x = y then 0 else 1))
termination_by xs ys => xs.length + ys.length

@[simp] theorem editDistance_nil_left (ys : List α) : editDistance [] ys = ys.length := by rw [editDistance]

@[simp] theorem editDistance_nil_right (xs : List α) : editDistance xs [] = xs.length := by
  cases xs <;> simp [editDistance]

theorem editDistance_cons (x y : α) (xs ys : List α) : editDistance (x :: xs) (y :: ys) =
    min (editDistance xs (y :: ys) + 1)
      (min (editDistance (x :: xs) ys + 1) (editDistance xs ys + if x = y then 0 else 1)) := by
  rw [editDistance]

/-! ## Scripts -/

inductive Script : List α → List α → Nat → Prop
  | nil : Script [] [] 0
  | delete (x : α) {xs ys : List α} {n : Nat} : Script xs ys n → Script (x :: xs) ys (n + 1)
  | insert (y : α) {xs ys : List α} {n : Nat} : Script xs ys n → Script xs (y :: ys) (n + 1)
  | replace (x y : α) {xs ys : List α} {n : Nat} : Script xs ys n →
      Script (x :: xs) (y :: ys) (n + if x = y then 0 else 1)

theorem Script.deletes : (xs : List α) → Script xs [] xs.length
  | [] => .nil
  | x :: xs => .delete x (deletes xs)

theorem Script.inserts : (ys : List α) → Script [] ys ys.length
  | [] => .nil
  | y :: ys => .insert y (inserts ys)

theorem script_editDistance (xs ys : List α) : Script xs ys (editDistance xs ys) := by
  fun_induction editDistance xs ys with
  | case1 ys => exact .inserts ys
  | case2 xs => exact .deletes xs
  | case3 x xs y ys ih₁ ih₂ ih₃ =>
    rcases min_choice (editDistance xs (y :: ys) + 1)
      (min (editDistance (x :: xs) ys + 1) (editDistance xs ys + if x = y then 0 else 1)) with h | h
    · rw [h]
      exact .delete x ih₁
    · rw [h]
      rcases min_choice (editDistance (x :: xs) ys + 1) (editDistance xs ys + if x = y then 0 else 1) with h | h
      · rw [h]
        exact .insert y ih₂
      · rw [h]
        exact .replace x y ih₃

theorem editDistance_cons_le (x : α) (xs ys : List α) :
    editDistance (x :: xs) ys ≤ editDistance xs ys + 1 ∧ editDistance ys (x :: xs) ≤ editDistance ys xs + 1 := by
  cases ys with
  | nil => simp
  | cons y ys =>
    rw [editDistance_cons, editDistance_cons]
    omega

theorem Script.editDistance_le (h : Script xs ys n) : editDistance xs ys ≤ n := by
  induction h with
  | nil => simp
  | delete x _ ih => exact (editDistance_cons_le x _ _).1.trans (by omega)
  | insert y _ ih => exact (editDistance_cons_le y _ _).2.trans (by omega)
  | replace x y _ ih =>
    rw [editDistance_cons]
    omega

theorem Script.append {xs' ys' : List α} (h : Script xs ys m) (h' : Script xs' ys' n) :
    Script (xs ++ xs') (ys ++ ys') (m + n) := by
  induction h with
  | nil => simpa using h'
  | delete x _ ih => simpa [Nat.add_right_comm] using ih.delete x
  | insert y _ ih => simpa [Nat.add_right_comm] using ih.insert y
  | replace x y _ ih => simpa [Nat.add_right_comm] using ih.replace x y

theorem Script.reverse (h : Script xs ys n) : Script xs.reverse ys.reverse n := by
  induction h with
  | nil => exact .nil
  | delete x _ ih => simpa using ih.append (Script.nil.delete x)
  | insert y _ ih => simpa using ih.append (Script.nil.insert y)
  | replace x y _ ih => simpa using ih.append (Script.nil.replace x y)

theorem editDistance_reverse (xs ys : List α) : editDistance xs.reverse ys.reverse = editDistance xs ys := by
  apply le_antisymm
  · exact (script_editDistance xs ys).reverse.editDistance_le
  · simpa using (script_editDistance xs.reverse ys.reverse).reverse.editDistance_le

/-! ## Prefixes -/

theorem editDistance_concat (x y : α) (xs ys : List α) : editDistance (xs ++ [x]) (ys ++ [y]) =
    min (editDistance xs (ys ++ [y]) + 1)
      (min (editDistance (xs ++ [x]) ys + 1) (editDistance xs ys + if x = y then 0 else 1)) := by
  simp only [← editDistance_reverse xs, ← editDistance_reverse (xs ++ [x]), List.reverse_concat, editDistance_cons]

theorem editDistance_le (xs ys : List α) : editDistance xs ys ≤ max xs.length ys.length := by
  induction xs generalizing ys with
  | nil => simp
  | cons x xs ih =>
    cases ys with
    | nil => simp
    | cons y ys =>
      have hrest := ih ys
      rw [editDistance_cons, List.length_cons, List.length_cons]
      split <;> omega

end MysqlBench.Lib
