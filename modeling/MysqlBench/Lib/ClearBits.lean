import Mathlib
import MysqlBench.Lib.Bitmap

/-!
# Counting the clear bits of a stretch

Code that sets a run of bits reports how many of them were clear. `clearIn` is the set of those
positions, for any row of bits, and its size is compared with the length of the stretch: they are
equal when the whole stretch was clear, and a stretch that is clear up to some position and set
from there on has as many clear bits as the position says. A word counts the other way round, by
taking the bits that are set off its mask one at a time; `card_setIn_run` says that what is left of
the length of the mask is the number of clear bits under it.
-/

namespace MysqlBench.Lib

/-! ## The clear positions of a stretch -/

def clearIn (f : Nat → Bool) (lo hi : Nat) : Finset Nat :=
  (Finset.Ico lo hi).filter fun k => f k = false

section

variable {f g : Nat → Bool} {lo hi : Nat}

theorem mem_clearIn {k : Nat} : k ∈ clearIn f lo hi ↔ (lo ≤ k ∧ k < hi) ∧ f k = false := by
  rw [clearIn, Finset.mem_filter, Finset.mem_Ico]

theorem card_clearIn_le (f : Nat → Bool) (lo hi : Nat) : (clearIn f lo hi).card ≤ hi - lo := by
  calc (clearIn f lo hi).card ≤ (Finset.Ico lo hi).card := Finset.card_filter_le _ _
    _ = hi - lo := Nat.card_Ico lo hi

theorem clearIn_congr (h : ∀ k, lo ≤ k → k < hi → f k = g k) : clearIn f lo hi = clearIn g lo hi := by
  refine Finset.filter_congr fun k hk => ?_
  obtain ⟨h₁, h₂⟩ := Finset.mem_Ico.mp hk
  rw [h k h₁ h₂]

theorem card_clearIn_eq_zero : (clearIn f lo hi).card = 0 ↔ ∀ k, lo ≤ k → k < hi → f k = true := by
  rw [Finset.card_eq_zero, Finset.eq_empty_iff_forall_notMem]
  constructor
  · intro h k h₁ h₂
    by_contra hf
    exact h k (mem_clearIn.mpr ⟨⟨h₁, h₂⟩, by simpa using hf⟩)
  · intro h k hk
    obtain ⟨⟨h₁, h₂⟩, hf⟩ := mem_clearIn.mp hk
    rw [h k h₁ h₂] at hf
    exact absurd hf (by simp)

theorem card_clearIn_split {j : Nat} (hj : j ≤ hi) (hclear : ∀ k, lo ≤ k → k < j → f k = false)
    (hset : ∀ k, j ≤ k → lo ≤ k → k < hi → f k = true) : (clearIn f lo hi).card = j - lo := by
  have heq : clearIn f lo hi = Finset.Ico lo j := by
    ext k
    rw [mem_clearIn, Finset.mem_Ico]
    constructor
    · rintro ⟨⟨h₁, h₂⟩, hf⟩
      refine ⟨h₁, ?_⟩
      by_contra hk
      rw [hset k (by omega) h₁ h₂] at hf
      exact absurd hf (by simp)
    · rintro ⟨h₁, h₂⟩
      exact ⟨⟨h₁, by omega⟩, hclear k h₁ h₂⟩
  rw [heq, Nat.card_Ico]

theorem card_clearIn_eq : (clearIn f lo hi).card = hi - lo ↔ ∀ k, lo ≤ k → k < hi → f k = false := by
  constructor
  · intro h k h₁ h₂
    have hall : clearIn f lo hi = Finset.Ico lo hi :=
      Finset.eq_of_subset_of_card_le (Finset.filter_subset _ _) (by rw [Nat.card_Ico, h])
    have hk : k ∈ clearIn f lo hi := by
      rw [hall]
      exact Finset.mem_Ico.mpr ⟨h₁, h₂⟩
    exact (mem_clearIn.mp hk).2
  · intro h
    exact card_clearIn_split (Nat.le_refl hi) h fun k h₁ _ h₂ => absurd h₂ (by omega)

end

/-! ## The set positions of a word -/

variable {w : Nat}

def setIn (x : BitVec w) : Finset Nat := (Finset.range w).filter fun i => x.getLsbD i = true

theorem mem_setIn {x : BitVec w} {i : Nat} : i ∈ setIn x ↔ x.getLsbD i = true := by
  rw [setIn, Finset.mem_filter, Finset.mem_range]
  exact ⟨fun h => h.2, fun h => ⟨BitVec.lt_of_getLsbD h, h⟩⟩

theorem setIn_zero : setIn (0#w) = ∅ := by
  refine Finset.eq_empty_of_forall_notMem fun i hi => ?_
  exact absurd (mem_setIn.mp hi) (by simp)

theorem card_setIn_run {r : List (BitVec w)} {i b n : Nat} (hbn : b + n ≤ w) :
    n - (setIn (word r i &&& runMask w b n)).card =
      (clearIn (bit r) (i * w + b) (i * w + b + n)).card := by
  -- the clear positions under the mask, as positions of the word
  have hclear : clearIn (bit r) (i * w + b) (i * w + b + n) =
      (clearIn (word r i).getLsbD b (b + n)).map (addLeftEmbedding (i * w)) := by
    ext k
    rw [Finset.mem_map, mem_clearIn]
    constructor
    · rintro ⟨⟨h₁, h₂⟩, hf⟩
      obtain ⟨j, rfl⟩ : ∃ j, k = i * w + j := ⟨k - i * w, by omega⟩
      rw [bit_mul_add r i (by omega)] at hf
      exact ⟨j, mem_clearIn.mpr ⟨⟨by omega, by omega⟩, hf⟩, rfl⟩
    · rintro ⟨j, hj, rfl⟩
      obtain ⟨⟨h₁, h₂⟩, hf⟩ := mem_clearIn.mp hj
      rw [addLeftEmbedding_apply, bit_mul_add r i (by omega)]
      exact ⟨⟨by omega, by omega⟩, hf⟩
  have hset : setIn (word r i &&& runMask w b n) =
      (Finset.Ico b (b + n)).filter fun j => ¬ (word r i).getLsbD j = false := by
    ext j
    rw [mem_setIn, BitVec.getLsbD_and, getLsbD_runMask, Finset.mem_filter, Finset.mem_Ico,
      Bool.and_eq_true, decide_eq_true_eq, Bool.not_eq_false]
    constructor
    · rintro ⟨hb, -, h⟩
      exact ⟨h, hb⟩
    · rintro ⟨h, hb⟩
      exact ⟨hb, by omega, h⟩
  have hsum := Finset.card_filter_add_card_filter_not (s := Finset.Ico b (b + n))
    (fun j => (word r i).getLsbD j = false)
  rw [hclear, hset, Finset.card_map]
  rw [Nat.card_Ico] at hsum
  unfold clearIn
  omega

end MysqlBench.Lib
