import MysqlBench.Lib.Orbit
import MysqlBench.Lib.Pratt
import Mathlib.Data.Nat.Bitwise

/-!
# Galois shift registers

A register of `n` bits shifts right and, when the bit that falls out is set, flips the bits of
`mask`. The step is linear over xor, so `galoisMul`, which sums the iterates of its second
argument that the bits of the first select, commutes with it; and `2 ^ (n - 1)` is a unit of it.
Hence multiplying two iterates of the unit adds their counts (`galoisMul_iterate`), which makes
iterates of any count computable by `ladder`, and with them the test of a register's period.

As in `Lib/Pratt.lean` the functions are spelled with the operations the kernel evaluates.
-/

namespace MysqlBench.Lib

open Function

def galoisStep (mask w : Nat) : Nat :=
  Nat.xor (Nat.shiftRight w 1) (Nat.mul (Nat.land w 1) mask)

def galoisMul (mask n u v : Nat) : Nat :=
  Nat.rec 0 (fun i acc =>
    Nat.xor (galoisStep mask acc) (Nat.mul (Nat.land (Nat.shiftRight u i) 1) v)) n

def galoisIter (mask n e : Nat) : Nat :=
  ladder (fun u => galoisMul mask n u u) (galoisStep mask) (2 ^ (n - 1)) e

/-- The register returns to the unit after `2 ^ n - 1` steps, and not after the quotients of that
number by the given primes. -/
def galoisCheck (mask n : Nat) (primes : List Nat) : Bool :=
  Nat.beq (galoisIter mask n (2 ^ n - 1)) (2 ^ (n - 1)) &&
    primes.all fun p => !Nat.beq (galoisIter mask n ((2 ^ n - 1) / p)) (2 ^ (n - 1))

variable {mask w n : Nat}

theorem galoisStep_eq (mask w : Nat) :
    galoisStep mask w = (w >>> 1) ^^^ ((w &&& 1) * mask) := rfl

theorem galoisMul_succ (mask n u v : Nat) :
    galoisMul mask (n + 1) u v
      = galoisStep mask (galoisMul mask n u v) ^^^ (((u >>> n) &&& 1) * v) := rfl

/-! ## The step is linear and keeps to `n` bits -/

theorem galoisStep_zero (mask : Nat) : galoisStep mask 0 = 0 := by simp [galoisStep_eq]

theorem galoisStep_xor (mask u v : Nat) :
    galoisStep mask (u ^^^ v) = galoisStep mask u ^^^ galoisStep mask v := by
  have hbit : ((u ^^^ v) &&& 1) * mask = ((u &&& 1) * mask) ^^^ ((v &&& 1) * mask) := by
    rw [Nat.and_xor_distrib_right]
    simp only [Nat.and_one_is_mod]
    rcases Nat.mod_two_eq_zero_or_one u with hu | hu <;>
      rcases Nat.mod_two_eq_zero_or_one v with hv | hv <;> simp [hu, hv]
  simp only [galoisStep_eq]
  rw [Nat.shiftRight_xor_distrib, hbit]
  simp only [Nat.xor_assoc, Nat.xor_left_comm]

theorem galoisStep_digit (mask u v : Nat) :
    galoisStep mask ((u &&& 1) * v) = (u &&& 1) * galoisStep mask v := by
  rw [Nat.and_one_is_mod]
  rcases Nat.mod_two_eq_zero_or_one u with hu | hu
  · rw [hu, Nat.zero_mul, Nat.zero_mul, galoisStep_zero]
  · rw [hu, Nat.one_mul, Nat.one_mul]

theorem galoisStep_lt (hmask : mask < 2 ^ n) (hw : w < 2 ^ n) :
    galoisStep mask w < 2 ^ n := by
  rw [galoisStep_eq]
  refine Nat.xor_lt_two_pow (Nat.lt_of_le_of_lt (Nat.shiftRight_le w 1) hw) ?_
  rw [Nat.and_one_is_mod]
  rcases Nat.mod_two_eq_zero_or_one w with h | h
  · rw [h, Nat.zero_mul]; exact Nat.two_pow_pos n
  · rw [h, Nat.one_mul]; exact hmask

theorem galoisStep_iterate_lt (hmask : mask < 2 ^ n) (hw : w < 2 ^ n) (k : Nat) :
    (galoisStep mask)^[k] w < 2 ^ n := by
  induction k with
  | zero => exact hw
  | succ k ih => rw [iterate_succ_apply']; exact galoisStep_lt hmask ih

/-! ## Multiplication -/

theorem galoisMul_step (mask n u v : Nat) :
    galoisMul mask n u (galoisStep mask v) = galoisStep mask (galoisMul mask n u v) := by
  induction n with
  | zero => exact (galoisStep_zero mask).symm
  | succ n ih => rw [galoisMul_succ, galoisMul_succ, ih, galoisStep_xor, galoisStep_digit]

theorem xor_mul_two_pow {a i : Nat} (ha : a < 2 ^ i) (c : Nat) :
    a ^^^ c * 2 ^ i = a + c * 2 ^ i := by
  refine Nat.eq_of_testBit_eq fun j => ?_
  rw [Nat.testBit_xor, Nat.add_comm a, Nat.mul_comm c, Nat.testBit_two_pow_mul_add c ha,
    Nat.testBit_two_pow_mul]
  by_cases hj : j < i
  · simp [hj, Nat.not_le.mpr hj]
  · have hlt : a < 2 ^ j := Nat.lt_of_lt_of_le ha (Nat.pow_le_pow_right (by decide) (by omega))
    simp [hj, Nat.testBit_lt_two_pow hlt, Nat.not_lt.mp hj]

/-- With the unit as second argument the sum reassembles `u`: after `k` of `n` digits it holds
them at the top of the register, where nothing falls out yet. -/
theorem galoisMul_unit_digits (u : Nat) : ∀ (k : Nat), k ≤ n →
    galoisMul mask k u (2 ^ (n - 1)) = u % 2 ^ k * 2 ^ (n - k) := by
  intro k
  induction k with
  | zero => intro _; rw [pow_zero, Nat.mod_one, Nat.zero_mul]; rfl
  | succ k ih =>
    intro hk
    have hstep : galoisStep mask (u % 2 ^ k * 2 ^ (n - k)) = u % 2 ^ k * 2 ^ (n - (k + 1)) := by
      have h2 : u % 2 ^ k * 2 ^ (n - k) = 2 * (u % 2 ^ k * 2 ^ (n - (k + 1))) := by
        rw [show n - k = n - (k + 1) + 1 by omega, pow_succ]
        ring
      rw [galoisStep_eq, Nat.and_one_is_mod, h2, Nat.mul_mod_right, Nat.zero_mul, Nat.xor_zero,
        Nat.shiftRight_eq_div_pow, pow_one, Nat.mul_div_cancel_left _ (by decide)]
    have hlow : u % 2 ^ k * 2 ^ (n - (k + 1)) < 2 ^ (n - 1) := by
      calc u % 2 ^ k * 2 ^ (n - (k + 1)) < 2 ^ k * 2 ^ (n - (k + 1)) :=
            Nat.mul_lt_mul_of_pos_right (Nat.mod_lt _ (Nat.two_pow_pos k)) (Nat.two_pow_pos _)
        _ = 2 ^ (n - 1) := by rw [← pow_add]; congr 1; omega
    rw [galoisMul_succ, ih (by omega), hstep, xor_mul_two_pow hlow, Nat.and_one_is_mod,
      Nat.shiftRight_eq_div_pow, Nat.mod_pow_succ, Nat.add_mul,
      show n - 1 = k + (n - (k + 1)) by omega, pow_add]
    congr 1
    ring

theorem galoisMul_unit {u : Nat} (hu : u < 2 ^ n) :
    galoisMul mask n u (2 ^ (n - 1)) = u := by
  rw [galoisMul_unit_digits u n (Nat.le_refl n), Nat.mod_eq_of_lt hu, Nat.sub_self, pow_zero,
    Nat.mul_one]

theorem galoisMul_iterate (hmask : mask < 2 ^ n) (hn : 0 < n) (a b : Nat) :
    galoisMul mask n ((galoisStep mask)^[a] (2 ^ (n - 1))) ((galoisStep mask)^[b] (2 ^ (n - 1)))
      = (galoisStep mask)^[a + b] (2 ^ (n - 1)) := by
  have hunit : 2 ^ (n - 1) < 2 ^ n := Nat.pow_lt_pow_right (by decide) (by omega)
  induction b with
  | zero => exact galoisMul_unit (galoisStep_iterate_lt hmask hunit a)
  | succ b ih =>
    rw [iterate_succ_apply', galoisMul_step, ih, ← iterate_succ_apply' (galoisStep mask)]
    rfl

theorem galoisIter_eq (hmask : mask < 2 ^ n) (hn : 0 < n) (e : Nat) :
    galoisIter mask n e = (galoisStep mask)^[e] (2 ^ (n - 1)) := by
  refine ladder_spec (R := fun u k => u = (galoisStep mask)^[k] (2 ^ (n - 1))) rfl ?_ ?_ e
  · rintro _ k rfl
    exact galoisMul_iterate hmask hn k k
  · rintro _ k rfl
    exact (iterate_succ_apply' (galoisStep mask) k _).symm

/-! ## The period -/

/-- A register that passes the check for all primes that divide `2 ^ n - 1` runs through
`2 ^ n - 1` states before it repeats. -/
theorem minimalPeriod_of_galoisCheck {primes : List Nat} (hmask : mask < 2 ^ n)
    (hn : 0 < n) (hprimes : ∀ p, p.Prime → p ∣ 2 ^ n - 1 → p ∈ primes)
    (h : galoisCheck mask n primes = true) :
    minimalPeriod (galoisStep mask) (2 ^ (n - 1)) = 2 ^ n - 1 := by
  rw [galoisCheck, Bool.and_eq_true, List.all_eq_true] at h
  refine minimalPeriod_eq_of_prime_div ?_ fun p hp hdvd hiter => ?_
  · rw [← galoisIter_eq hmask hn]
    exact Nat.eq_of_beq_eq_true h.1
  · rw [← galoisIter_eq hmask hn] at hiter
    have hne := h.2 p (hprimes p hp hdvd)
    rw [hiter, Bool.not_eq_true'] at hne
    exact Nat.ne_of_beq_eq_false hne rfl

/-- A register that returns to a state other than zero does not pass through zero, which it would
not leave again. -/
theorem galoisStep_iterate_ne_zero
    (hper : 0 < minimalPeriod (galoisStep mask) w) (h0 : w ≠ 0) (k : Nat) :
    (galoisStep mask)^[k] w ≠ 0 := by
  intro hzero
  have hround := ((isPeriodicPt_minimalPeriod (galoisStep mask) w).mul_const (k + 1)).eq
  have hle : k ≤ minimalPeriod (galoisStep mask) w * (k + 1) := by
    calc k ≤ 1 * (k + 1) := by omega
      _ ≤ minimalPeriod (galoisStep mask) w * (k + 1) := Nat.mul_le_mul_right _ hper
  rw [← Nat.sub_add_cancel hle, iterate_add_apply, hzero,
    iterate_fixed (galoisStep_zero mask)] at hround
  exact h0 hround.symm

theorem minimalPeriod_of_maximal (hmask : mask < 2 ^ n) (hn : 0 < n)
    (hper : minimalPeriod (galoisStep mask) (2 ^ (n - 1)) = 2 ^ n - 1) (hw : w < 2 ^ n)
    (h0 : w ≠ 0) : minimalPeriod (galoisStep mask) w = 2 ^ n - 1 := by
  have hunit : 2 ^ (n - 1) < 2 ^ n := Nat.pow_lt_pow_right (by decide) (by omega)
  have hpos : 0 < 2 ^ n - 1 := by
    have : 1 < 2 ^ n := Nat.one_lt_two_pow (by omega)
    omega
  have hmem : (2 ^ (n - 1)) ∈ periodicPts (galoisStep mask) :=
    minimalPeriod_pos_iff_mem_periodicPts.mp (by rw [hper]; exact hpos)
  have hin : ∀ k, k < 2 ^ n - 1 →
      (galoisStep mask)^[k] (2 ^ (n - 1)) ∈ (Finset.range (2 ^ n)).erase 0 := by
    intro k _
    refine Finset.mem_erase.mpr ⟨?_, Finset.mem_range.mpr (galoisStep_iterate_lt hmask hunit k)⟩
    exact galoisStep_iterate_ne_zero (by rw [hper]; exact hpos) (Nat.two_pow_pos _).ne' k
  have hinj : Set.InjOn (fun k => (galoisStep mask)^[k] (2 ^ (n - 1))) (Set.Iio (2 ^ n - 1)) := by
    intro i hi j hj hij
    have := (iterate_eq_iff hper hpos).mp hij
    rwa [Nat.mod_eq_of_lt hi, Nat.mod_eq_of_lt hj] at this
  have hcard : ((Finset.range (2 ^ n)).erase 0).card = 2 ^ n - 1 := by
    rw [Finset.card_erase_of_mem (by simp), Finset.card_range]
  obtain ⟨k, -, rfl⟩ := surj_of_card hcard hin hinj
    (Finset.mem_erase.mpr ⟨h0, Finset.mem_range.mpr hw⟩)
  exact (minimalPeriod_apply_iterate hmem k).trans hper

end MysqlBench.Lib
