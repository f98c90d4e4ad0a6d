import MysqlBench.Lib.Words

/-!
# `lib/ffz.h` — find first zero

The portable `__ffs` halves the search window five times (six on a 64-bit long): if the low
half of the window is empty the word is shifted down past it. `ffz` is `__ffs` of the
complement. Some architectures replace the pair by one instruction, on x86_64 by `bsf` (`arch_ffz`). Wherever the word
has a clear bit they agree. On the word of all ones, which `find_next_zero` in `smalloc.c` can pass, the portable
functions answer 63 and `bsf` leaves its result undefined: the build that is modelled is the portable one.
-/

namespace MysqlBench.Fio

open MysqlBench.Lib

abbrev Ulong := BitVec 64

def ffsStep (k : Nat) (s : Ulong × Nat) : Ulong × Nat :=
  if s.1 &&& BitVec.ofNat 64 (2 ^ k - 1) = 0#64 then (s.1 >>> k, s.2 + k) else s

def ffs (word : Ulong) : Nat :=
  (ffsStep 1 (ffsStep 2 (ffsStep 4 (ffsStep 8 (ffsStep 16 (ffsStep 32 (word, 0))))))).2

def ffz (bitmask : Ulong) : Nat := ffs (~~~bitmask)

/-- The state of the search after the window has been narrowed to `k` bits: the word has been
shifted by `r`, nothing below `r` was set, and the lowest set bit is inside the window. -/
structure FfsInv (word : Ulong) (k : Nat) (s : Ulong × Nat) : Prop where
  shifted : s.1 = word >>> s.2
  below : ∀ i, i < s.2 → word.getLsbD i = false
  window : ∃ i, i < k ∧ s.1.getLsbD i = true

theorem low_bits_eq_zero_iff {x : Ulong} {k : Nat} (hk : k ≤ 64) :
    x &&& BitVec.ofNat 64 (2 ^ k - 1) = 0#64 ↔ ∀ i, i < k → x.getLsbD i = false := by
  have hm : ∀ i, (BitVec.ofNat 64 (2 ^ k - 1)).getLsbD i = decide (i < k) := by
    intro i
    rw [BitVec.getLsbD_ofNat, Nat.testBit_two_pow_sub_one, ← Bool.decide_and]
    exact decide_eq_decide.mpr ⟨fun h => h.2, fun h => ⟨by omega, h⟩⟩
  rw [eq_zero_iff]
  constructor
  · intro h i hi
    have := h i (by omega)
    simpa [hm, hi] using this
  · intro h i _
    by_cases hi : i < k
    · simp [h i hi]
    · simp [hm, hi]

theorem FfsInv.step {word : Ulong} {k : Nat} {s : Ulong × Nat} (hk : k ≤ 64)
    (h : FfsInv word (2 * k) s) : FfsInv word k (ffsStep k s) := by
  unfold ffsStep
  by_cases hz : s.1 &&& BitVec.ofNat 64 (2 ^ k - 1) = 0#64
  · rw [if_pos hz]
    have hlow := (low_bits_eq_zero_iff hk).mp hz
    refine ⟨?_, fun i hi => ?_, ?_⟩
    · show s.1 >>> k = word >>> (s.2 + k)
      rw [h.shifted, BitVec.shiftRight_add]
    · by_cases his : i < s.2
      · exact h.below i his
      · -- the new positions are the ones the mask has just found empty
        have hi' : i < s.2 + k := hi
        have := hlow (i - s.2) (by omega)
        rw [h.shifted, BitVec.getLsbD_ushiftRight] at this
        rwa [show s.2 + (i - s.2) = i by omega] at this
    · obtain ⟨i, hi, hb⟩ := h.window
      -- the set bit that is left is in the upper half
      have hik : k ≤ i := by
        by_contra hlt
        rw [hlow i (by omega)] at hb
        exact absurd hb (by simp)
      refine ⟨i - k, by omega, ?_⟩
      rw [BitVec.getLsbD_ushiftRight, show k + (i - k) = i by omega]
      exact hb
  · rw [if_neg hz]
    -- the lower half has a set bit
    refine ⟨h.shifted, h.below, ?_⟩
    by_contra hcon
    refine hz ((low_bits_eq_zero_iff hk).mpr fun i hi => ?_)
    by_contra hb
    exact hcon ⟨i, hi, by simpa using hb⟩

theorem ffs_spec {word : Ulong} (h : word ≠ 0#64) :
    word.getLsbD (ffs word) = true ∧ ∀ i, i < ffs word → word.getLsbD i = false := by
  have h0 : FfsInv word 64 (word, 0) :=
    ⟨by simp, fun i hi => absurd hi (by simp), exists_set_of_ne_zero h⟩
  have h1 : FfsInv word 1 _ :=
    (((((h0.step (k := 32) (by decide)).step (k := 16) (by decide)).step (k := 8)
      (by decide)).step (k := 4) (by decide)).step (k := 2) (by decide)).step (k := 1) (by decide)
  obtain ⟨i, hi, hb⟩ := h1.window
  obtain rfl : i = 0 := by omega
  refine ⟨?_, h1.below⟩
  rw [h1.shifted, BitVec.getLsbD_ushiftRight, Nat.add_zero] at hb
  exact hb

theorem ffs_lt {word : Ulong} (h : word ≠ 0#64) : ffs word < 64 := by
  by_contra hge
  have := (ffs_spec h).1
  rw [BitVec.getLsbD_of_ge _ _ (by omega)] at this
  exact absurd this (by simp)

theorem ffz_spec {x : Ulong} (h : x ≠ BitVec.allOnes 64) :
    ffz x < 64 ∧ x.getLsbD (ffz x) = false ∧ ∀ i, i < ffz x → x.getLsbD i = true := by
  have hne : ~~~x ≠ 0#64 := by
    intro hz
    apply h
    rw [← BitVec.not_not (b := x), hz]
    rfl
  have hlt : ffz x < 64 := ffs_lt hne
  obtain ⟨hset, hbelow⟩ := ffs_spec hne
  refine ⟨hlt, ?_, fun i hi => ?_⟩
  · rw [BitVec.getLsbD_not, Bool.and_eq_true, Bool.not_eq_true'] at hset
    exact hset.2
  · have := hbelow i hi
    rw [BitVec.getLsbD_not] at this
    have hi' : i < 64 := by
      have : i < ffz x := hi
      omega
    simpa [hi'] using this

theorem ffz_allOnes : ffz (BitVec.allOnes 64) = 63 := by decide

end MysqlBench.Fio
