import Mathlib

/-!
# Loops with fuel

A loop is a step that goes on with a state or ends with a result. `loopFrom` runs it for a number of
steps; `Ends` says that it comes to an end, with enough of them, and how.
-/

namespace MysqlBench.Lib

variable {S R : Type} {step : S → S ⊕ R}

def loopFrom (step : S → S ⊕ R) : Nat → S → Option R
  | 0, _ => none
  | fuel + 1, s =>
    match step s with
    | .inl s' => loopFrom step fuel s'
    | .inr result => some result

def Ends (step : S → S ⊕ R) (s : S) (r : R) : Prop := ∃ fuel, loopFrom step fuel s = some r

theorem Ends.of_step {s s' : S} {r : R} (h : step s = .inl s') (hr : Ends step s' r) : Ends step s r := by
  obtain ⟨fuel, hfuel⟩ := hr
  refine ⟨fuel + 1, ?_⟩
  rw [loopFrom, h]
  exact hfuel

theorem Ends.of_end {s : S} {r : R} (h : step s = .inr r) : Ends step s r := by
  refine ⟨1, ?_⟩
  rw [loopFrom, h]

theorem Ends.unique {s : S} {r r' : R} (h : Ends step s r) (h' : Ends step s r') : r = r' := by
  obtain ⟨m, hm⟩ := h
  obtain ⟨n, hn⟩ := h'
  induction m generalizing n s with
  | zero => exact absurd hm (by simp [loopFrom])
  | succ m ih =>
    cases n with
    | zero => exact absurd hn (by simp [loopFrom])
    | succ n =>
      rw [loopFrom] at hm hn
      cases hs : step s with
      | inl s' =>
        rw [hs] at hm hn
        exact ih hm n hn
      | inr result =>
        rw [hs] at hm hn
        exact (Option.some.inj hm).symm.trans (Option.some.inj hn)

end MysqlBench.Lib
