import MysqlBench.Lib.Words

/-!
# Bitmaps: rows of words read as one long row of bits

A bitmap is a list of `w`-bit words; bit `k` is bit `k % w` of word `k / w`. Words past the end
read as zero, so a bitmap denotes a set of naturals that is bounded by `w * length`. Every
update the modelled code makes is one of two: or-ing a run of consecutive bits into a word, or
clearing such a run. Each gets one equation here, in terms of the bits of the whole row.
-/

namespace MysqlBench.Lib

variable {w : Nat}

def word (r : List (BitVec w)) (i : Nat) : BitVec w := r.getD i 0#w

def bit (r : List (BitVec w)) (k : Nat) : Bool := (word r (k / w)).getLsbD (k % w)

def orWord (r : List (BitVec w)) (i : Nat) (m : BitVec w) : List (BitVec w) :=
  r.set i (word r i ||| m)

def clearWord (r : List (BitVec w)) (i : Nat) (m : BitVec w) : List (BitVec w) :=
  r.set i (word r i &&& ~~~m)

variable {r : List (BitVec w)} {i n b : Nat}

@[simp] theorem length_orWord (r : List (BitVec w)) (i : Nat) (m : BitVec w) :
    (orWord r i m).length = r.length := by simp [orWord]

@[simp] theorem length_clearWord (r : List (BitVec w)) (i : Nat) (m : BitVec w) :
    (clearWord r i m).length = r.length := by simp [clearWord]

theorem word_set (x : BitVec w) (hi : i < r.length) (j : Nat) :
    word (r.set i x) j = if j = i then x else word r j := by
  unfold word
  by_cases hj : j = i
  · subst hj; simp [hi]
  · simp [List.getD_eq_getElem?_getD, List.getElem?_set_ne (Ne.symm hj), hj]

theorem set_word (r : List (BitVec w)) (i : Nat) : r.set i (word r i) = r := by
  refine List.ext_getElem? fun j => ?_
  by_cases hj : i = j
  · subst hj
    cases h : r[i]? with
    | none => rw [List.getElem?_set_self', h]; rfl
    | some x => rw [List.getElem?_set_self', h]; simp [word, List.getD_eq_getElem?_getD, h]
  · rw [List.getElem?_set_ne hj]

theorem word_orWord (m : BitVec w) (hi : i < r.length) (j : Nat) :
    word (orWord r i m) j = if j = i then word r i ||| m else word r j := word_set _ hi j

theorem word_clearWord (m : BitVec w) (hi : i < r.length)
    (j : Nat) : word (clearWord r i m) j = if j = i then word r i &&& ~~~m else word r j :=
  word_set _ hi j

theorem word_of_length_le (h : r.length ≤ i) :
    word r i = 0#w := by
  unfold word
  simp [List.getD_eq_getElem?_getD, List.getElem?_eq_none h]

theorem word_replicate_zero (n i : Nat) : word (List.replicate n 0#w) i = 0#w := by
  unfold word
  by_cases h : i < n <;> simp [List.getD_eq_getElem?_getD, h]

@[simp] theorem bit_replicate_zero (n k : Nat) : bit (List.replicate n 0#w) k = false := by
  simp [bit, word_replicate_zero]

theorem bit_mul_add (r : List (BitVec w)) (i : Nat) {j : Nat} (hj : j < w) :
    bit r (i * w + j) = (word r i).getLsbD j := by
  have hw : 0 < w := by omega
  rw [bit, Nat.mul_comm i w, Nat.mul_add_div hw, Nat.div_eq_of_lt hj, Nat.add_zero,
    Nat.mul_add_mod, Nat.mod_eq_of_lt hj]

theorem word_eq_allOnes_iff :
    word r i = BitVec.allOnes w ↔ ∀ j, j < w → bit r (i * w + j) = true := by
  rw [eq_allOnes_iff]
  exact forall₂_congr fun j hj => by rw [bit_mul_add r i hj]

/-! ## The two updates -/

/-- Membership of bit `k` in the run of `n` bits that starts at bit `b` of word `i`, computed
from the word and the offset the way the code computes it. -/
theorem run_iff {k : Nat} (hbn : b + n ≤ w) (hw : 0 < w) :
    (k / w = i ∧ b ≤ k % w ∧ k % w < b + n) ↔ i * w + b ≤ k ∧ k < i * w + b + n := by
  have hk : k = w * (k / w) + k % w := (Nat.div_add_mod k w).symm
  have hm : k % w < w := Nat.mod_lt k hw
  constructor
  · rintro ⟨rfl, h1, h2⟩
    rw [Nat.mul_comm (k / w) w]
    omega
  · rintro ⟨h1, h2⟩
    have hi : k / w = i := by
      rw [Nat.div_eq_iff hw]
      constructor
      · omega
      · have : i * w + b + n ≤ i * w + w := by omega
        omega
    rw [hi, Nat.mul_comm w i] at hk
    exact ⟨hi, by omega, by omega⟩

theorem bit_orWord_run (hi : i < r.length) (hbn : b + n ≤ w)
    (hw : 0 < w) (k : Nat) :
    bit (orWord r i (runMask w b n)) k
      = (bit r k || decide (i * w + b ≤ k ∧ k < i * w + b + n)) := by
  have hm : k % w < w := Nat.mod_lt k hw
  have hrun := run_iff (i := i) (k := k) hbn hw
  rw [bit, word_orWord _ hi, bit]
  by_cases hk : k / w = i
  · rw [if_pos hk, BitVec.getLsbD_or, getLsbD_runMask, hk]
    congr 1
    exact decide_eq_decide.mpr ⟨fun h => hrun.mp ⟨hk, h.2⟩, fun h => ⟨hm, (hrun.mpr h).2⟩⟩
  · rw [if_neg hk, decide_eq_false (fun h => hk (hrun.mpr h).1), Bool.or_false]

theorem bit_clearWord_run (hi : i < r.length)
    (hbn : b + n ≤ w) (hw : 0 < w) (k : Nat) :
    bit (clearWord r i (runMask w b n)) k
      = (bit r k && !decide (i * w + b ≤ k ∧ k < i * w + b + n)) := by
  have hm : k % w < w := Nat.mod_lt k hw
  have hrun := run_iff (i := i) (k := k) hbn hw
  rw [bit, word_clearWord _ hi, bit]
  by_cases hk : k / w = i
  · rw [if_pos hk, BitVec.getLsbD_and, BitVec.getLsbD_not, getLsbD_runMask, hk,
      decide_eq_true hm, Bool.true_and]
    congr 2
    exact decide_eq_decide.mpr ⟨fun h => hrun.mp ⟨hk, h.2⟩, fun h => ⟨hm, (hrun.mpr h).2⟩⟩
  · rw [if_neg hk, decide_eq_false (fun h => hk (hrun.mpr h).1), Bool.not_false, Bool.and_true]

/-! ## Tests against a run -/

theorem and_run_eq_zero_iff (hbn : b + n ≤ w) :
    word r i &&& runMask w b n = 0#w ↔ ∀ j, b ≤ j → j < b + n → bit r (i * w + j) = false := by
  rw [eq_zero_iff]
  constructor
  · intro h j h1 h2
    have := h j (by omega)
    rw [BitVec.getLsbD_and, getLsbD_runMask] at this
    rw [bit_mul_add r i (by omega)]
    simpa [h1, h2, show j < w by omega] using this
  · intro h j hj
    rw [BitVec.getLsbD_and, getLsbD_runMask]
    by_cases hr : b ≤ j ∧ j < b + n
    · rw [← bit_mul_add r i hj, h j hr.1 hr.2, Bool.false_and]
    · rw [decide_eq_false (fun hc => hr hc.2), Bool.and_false]

theorem and_run_eq_run_iff (hbn : b + n ≤ w) :
    word r i &&& runMask w b n = runMask w b n ↔
      ∀ j, b ≤ j → j < b + n → bit r (i * w + j) = true := by
  constructor
  · intro h j h1 h2
    have hj : j < w := by omega
    have := congrArg (fun x => BitVec.getLsbD x j) h
    simp only [BitVec.getLsbD_and, getLsbD_runMask] at this
    rw [bit_mul_add r i hj]
    simpa [h1, h2, hj] using this
  · intro h
    refine BitVec.eq_of_getLsbD_eq fun j hj => ?_
    rw [BitVec.getLsbD_and, getLsbD_runMask]
    by_cases hr : b ≤ j ∧ j < b + n
    · rw [← bit_mul_add r i hj, h j hr.1 hr.2, Bool.true_and]
    · rw [decide_eq_false (fun hc => hr hc.2), Bool.and_false]

end MysqlBench.Lib
