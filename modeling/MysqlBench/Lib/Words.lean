import Mathlib.Data.Nat.Bitwise

/-!
# Machine words as sets of bits

A `w`-bit word is used in two ways by the code modelled here: as a row of a bitmap, tested
against all-ones and against masks of consecutive bits, and as the argument of a
find-first-set. Both are about the set `{i | x.getLsbD i}`, so everything below is stated with
`getLsbD`, and a caller never has to look inside a shift.
-/

namespace MysqlBench.Lib

variable {w : Nat}

def usub (w a b : Nat) : Nat := (a + 2 ^ w - b) % 2 ^ w

theorem usub_eq_sub {a b : Nat} (hb : b ≤ a) (ha : a < 2 ^ w) : usub w a b = a - b := by
  unfold usub
  rw [show a + 2 ^ w - b = (a - b) + 2 ^ w by omega, Nat.add_mod_right,
    Nat.mod_eq_of_lt (by omega)]

/-! ## Full words -/

theorem eq_allOnes_iff {x : BitVec w} :
    x = BitVec.allOnes w ↔ ∀ i, i < w → x.getLsbD i = true := by
  constructor
  · rintro rfl i hi
    simpa using hi
  · intro h
    refine BitVec.eq_of_getLsbD_eq fun i hi => ?_
    rw [h i hi]
    simpa using hi

theorem eq_zero_iff {x : BitVec w} : x = 0#w ↔ ∀ i, i < w → x.getLsbD i = false := by
  constructor
  · rintro rfl i _
    simp
  · intro h
    refine BitVec.eq_of_getLsbD_eq fun i hi => ?_
    rw [h i hi]
    simp

theorem exists_set_of_ne_zero {x : BitVec w} (h : x ≠ 0#w) :
    ∃ i, i < w ∧ x.getLsbD i = true := by
  by_contra hcon
  refine h (eq_zero_iff.mpr fun i hi => ?_)
  by_contra hb
  exact hcon ⟨i, hi, by simpa using hb⟩

/-! ## Runs of consecutive bits -/

/-- `n` ones at the bottom of a word, `bit` places up: the mask of the run `[bit, bit + n)`. -/
def runMask (w bit n : Nat) : BitVec w := BitVec.ofNat w (2 ^ n - 1) <<< bit

theorem getLsbD_runMask (bit n i : Nat) :
    (runMask w bit n).getLsbD i = decide (i < w ∧ bit ≤ i ∧ i < bit + n) := by
  unfold runMask
  rw [BitVec.getLsbD_shiftLeft, BitVec.getLsbD_ofNat, Nat.testBit_two_pow_sub_one]
  rw [Bool.eq_iff_iff]
  simp only [Bool.and_eq_true, Bool.not_eq_true', decide_eq_true_eq, decide_eq_false_iff_not]
  omega

theorem and_one_shiftLeft_eq_zero_iff {x : BitVec w} {i : Nat} (hi : i < w) :
    x &&& (1#w <<< i) = 0#w ↔ x.getLsbD i = false := by
  rw [eq_zero_iff]
  constructor
  · intro h
    have := h i hi
    simpa [hi, Nat.lt_of_le_of_lt (Nat.zero_le i) hi] using this
  · intro h j hj
    by_cases hij : j = i
    · subst hij; simp [h]
    · by_cases hlt : j < i
      · simp [hlt]
      · have : j - i ≠ 0 := by omega
        simp [BitVec.getLsbD_one, this]

end MysqlBench.Lib
