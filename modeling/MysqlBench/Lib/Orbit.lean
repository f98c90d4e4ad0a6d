import Mathlib.Data.Int.GCD
import Mathlib.Data.Nat.Factors
import Mathlib.Data.Nat.ModEq
import Mathlib.Dynamics.PeriodicPts.Lemmas
import Mathlib.Tactic.Ring

/-!
# Orbits of a map, and walking them in strides

A point of period `M` whose iterates by `M / p` differ from it for every prime `p` dividing `M`
has minimal period `M`; if the map stays inside a set of `M` points, its orbit is that set.

A walk that takes `s` steps at a time visits only `M / gcd M s` points before it repeats. Taking
one step more after each such round moves it to the next coset, and the `gcd M s` rounds tile the
whole orbit: `tile` is the number of steps made, and `tile_injOn` says no two are congruent. Only
whole rounds do: a walk that goes on to the first coset again enters it at another point, so it
returns to the last point of the first round before it returns to the first (`tile_overlap`).
-/

namespace MysqlBench.Lib

open Function

variable {α : Type} {f : α → α} {x : α} {M : Nat}

theorem minimalPeriod_eq_of_prime_div (hper : f^[M] x = x)
    (hne : ∀ p, p.Prime → p ∣ M → f^[M / p] x ≠ x) : minimalPeriod f x = M := by
  have hdvd : minimalPeriod f x ∣ M := IsPeriodicPt.minimalPeriod_dvd hper
  obtain ⟨c, hc⟩ := hdvd
  by_cases h1 : c = 1
  · rw [hc, h1, Nat.mul_one]
  · obtain ⟨p, hp, d, rfl⟩ := Nat.exists_prime_and_dvd h1
    have hquot : M / p = minimalPeriod f x * d := by
      rw [hc]
      exact Nat.div_eq_of_eq_mul_right hp.pos (by ring)
    refine absurd ?_ (hne p hp ⟨minimalPeriod f x * d, by rw [hc]; ring⟩)
    rw [hquot]
    exact (isPeriodicPt_minimalPeriod f x).mul_const d

theorem iterate_eq_iff (hper : minimalPeriod f x = M) (hM : 0 < M) {i j : Nat} :
    f^[i] x = f^[j] x ↔ i % M = j % M := by
  rw [← iterate_mod_minimalPeriod_eq (n := i), ← iterate_mod_minimalPeriod_eq (n := j), hper]
  constructor
  · intro h
    refine (iterate_injOn_Iio_minimalPeriod (f := f) (x := x)) ?_ ?_ h
    · rw [hper]; exact Nat.mod_lt _ hM
    · rw [hper]; exact Nat.mod_lt _ hM
  · intro h
    rw [h]

theorem surj_of_card {S : Finset α} {g : Nat → α} (hcard : S.card = M)
    (hin : ∀ k, k < M → g k ∈ S) (hinj : Set.InjOn g (Set.Iio M)) {y : α} (hy : y ∈ S) :
    ∃ k, k < M ∧ g k = y := by
  classical
  have himg : (Finset.range M).image g = S := by
    refine Finset.eq_of_subset_of_card_le (fun z hz => ?_) ?_
    · obtain ⟨k, hk, rfl⟩ := Finset.mem_image.mp hz
      exact hin k (Finset.mem_range.mp hk)
    · rw [Finset.card_image_of_injOn (fun a ha b hb => hinj (by simpa using ha) (by simpa using hb)),
        Finset.card_range, hcard]
  rw [← himg] at hy
  obtain ⟨k, hk, rfl⟩ := Finset.mem_image.mp hy
  exact ⟨k, Finset.mem_range.mp hk, rfl⟩

/-! ## Strides -/

def tile (s L k : Nat) : Nat := k * s + k / L

theorem tile_injOn {s : Nat} (hM : 0 < M) :
    Set.InjOn (fun k => tile s (M / M.gcd s) k % M) (Set.Iio M) := by
  intro k hk k' hk' h
  have hg : 0 < M.gcd s := Nat.gcd_pos_of_pos_left s hM
  have hgM : M.gcd s ∣ M := Nat.gcd_dvd_left M s
  have hM' : M = M.gcd s * (M / M.gcd s) := (Nat.mul_div_cancel' hgM).symm
  -- modulo the gcd the strides vanish, so the number of rounds is the same
  have hrounds : ∀ {j}, j < M → j / (M / M.gcd s) < M.gcd s := fun {j} hj =>
    Nat.div_lt_of_lt_mul (by rw [Nat.mul_comm]; exact hM' ▸ hj)
  have hstride : ∀ j, tile s (M / M.gcd s) j ≡ j / (M / M.gcd s) [MOD M.gcd s] := fun j => by
    have h0 : j * s ≡ 0 [MOD M.gcd s] :=
      (Nat.modEq_zero_iff_dvd.mpr (Dvd.dvd.mul_left (Nat.gcd_dvd_right M s) j))
    simpa [tile] using h0.add_right (j / (M / M.gcd s))
  have hmod : tile s (M / M.gcd s) k ≡ tile s (M / M.gcd s) k' [MOD M] := h
  have hround : k / (M / M.gcd s) = k' / (M / M.gcd s) := by
    have := ((hstride k).symm.trans (hmod.of_dvd hgM)).trans (hstride k')
    exact this.eq_of_lt_of_lt (hrounds hk) (hrounds hk')
  -- the rounds cancel, and `s` is invertible modulo their length
  have hks : k * s ≡ k' * s [MOD M] := by
    unfold tile at hmod
    rw [hround] at hmod
    exact Nat.ModEq.add_right_cancel' _ hmod
  have hkL : k % (M / M.gcd s) = k' % (M / M.gcd s) := Nat.ModEq.cancel_right_div_gcd hM hks
  calc k = M / M.gcd s * (k / (M / M.gcd s)) + k % (M / M.gcd s) := (Nat.div_add_mod _ _).symm
    _ = M / M.gcd s * (k' / (M / M.gcd s)) + k' % (M / M.gcd s) := by rw [hround, hkL]
    _ = k' := Nat.div_add_mod _ _

theorem tile_of_lt {s L k : Nat} (hk : k < L) : tile s L k = k * s := by
  rw [tile, Nat.div_eq_of_lt hk, Nat.add_zero]

theorem stride_dvd {s k : Nat} (hM : 0 < M) (h : k * s ≡ 0 [MOD M]) : M / M.gcd s ∣ k := by
  have h0 : k * s ≡ 0 * s [MOD M] := by rwa [Nat.zero_mul]
  exact (Nat.modEq_zero_iff_dvd).mp (Nat.ModEq.cancel_right_div_gcd hM h0)

theorem exists_stride_gcd {s : Nat} (hM : 0 < M) (hL : 1 < M / M.gcd s) :
    ∃ t, 0 < t ∧ t < M / M.gcd s ∧ t * s ≡ M.gcd s [MOD M] := by
  have hgM : M.gcd s < M := by
    refine Nat.lt_of_le_of_ne (Nat.gcd_le_left s hM) fun he => ?_
    rw [he, Nat.div_self hM] at hL
    exact Nat.lt_irrefl 1 hL
  obtain ⟨m, -, hm⟩ := Nat.exists_mul_mod_eq_gcd (n := s) (k := M) (by rwa [Nat.gcd_comm])
  rw [Nat.gcd_comm] at hm
  have hms : m * s ≡ M.gcd s [MOD M] := by
    show m * s % M = M.gcd s % M
    rw [Nat.mul_comm, hm, Nat.mod_eq_of_lt hgM]
  have hdvd : M ∣ M / M.gcd s * s := by
    rw [← Nat.mul_div_right_comm (Nat.gcd_dvd_left M s), Nat.mul_div_assoc _ (Nat.gcd_dvd_right M s)]
    exact ⟨s / M.gcd s, rfl⟩
  have htm : m % (M / M.gcd s) * s ≡ m * s [MOD M] := by
    have h0 : m / (M / M.gcd s) * (M / M.gcd s * s) ≡ 0 [MOD M] :=
      Nat.modEq_zero_iff_dvd.mpr (Dvd.dvd.mul_left hdvd _)
    have hsum := (h0.add_right (m % (M / M.gcd s) * s)).symm
    rw [Nat.zero_add, ← Nat.mul_assoc, ← Nat.add_mul, Nat.div_add_mod'] at hsum
    exact hsum
  refine ⟨m % (M / M.gcd s), Nat.pos_of_ne_zero fun h0 => ?_, Nat.mod_lt _ (by omega),
    htm.trans hms⟩
  -- no strides at all would make the gcd a multiple of `M`
  have hz : 0 ≡ M.gcd s [MOD M] := by
    have := htm.trans hms
    rwa [h0, Nat.zero_mul] at this
  have := Nat.le_of_dvd (Nat.gcd_pos_of_pos_left s hM) (Nat.modEq_zero_iff_dvd.mp hz.symm)
  omega

theorem tile_wrap {s t i : Nat} (hM : 0 < M) (ht : t * s ≡ M.gcd s [MOD M])
    (hi : i < M / M.gcd s) :
    tile s (M / M.gcd s) (M + i) ≡ (i + t) * s [MOD M] := by
  have hg : 0 < M.gcd s := Nat.gcd_pos_of_pos_left s hM
  have hM' : M = M / M.gcd s * M.gcd s := (Nat.div_mul_cancel (Nat.gcd_dvd_left M s)).symm
  have hdiv : (M + i) / (M / M.gcd s) = M.gcd s := by
    conv_lhs => rw [show M + i = M / M.gcd s * M.gcd s + i from congrArg (· + i) hM']
    rw [Nat.mul_add_div (by omega), Nat.div_eq_of_lt hi, Nat.add_zero]
  rw [tile, hdiv, Nat.add_mul, Nat.add_mul, Nat.add_assoc]
  have h0 : M * s ≡ 0 [MOD M] := Nat.modEq_zero_iff_dvd.mpr ⟨s, rfl⟩
  have hsum := h0.add ((ht.symm).add_left (i * s))
  rwa [Nat.zero_add] at hsum

/-- **A walk that starts within a coset overlaps itself.** Some strides after the whole tour it is
at the last point of the first round again, and it has not been at the first one since. -/
theorem tile_overlap {s : Nat} (hM : 0 < M) (hL : 1 < M / M.gcd s) :
    ∃ late, M / M.gcd s - 1 < late ∧ late < M + M / M.gcd s ∧
      tile s (M / M.gcd s) late ≡ tile s (M / M.gcd s) (M / M.gcd s - 1) [MOD M] ∧
      ∀ j, 0 < j → j ≤ late → ¬ tile s (M / M.gcd s) j ≡ 0 [MOD M] := by
  obtain ⟨t, ht0, htL, ht⟩ := exists_stride_gcd hM hL
  have hLM : M / M.gcd s ≤ M := Nat.div_le_self M _
  refine ⟨M + (M / M.gcd s - t - 1), by omega, by omega, ?_, fun j hj hlate hzero => ?_⟩
  · rw [tile_of_lt (by omega : M / M.gcd s - 1 < M / M.gcd s)]
    have := tile_wrap hM ht (show M / M.gcd s - t - 1 < M / M.gcd s by omega)
    rwa [show M / M.gcd s - t - 1 + t = M / M.gcd s - 1 by omega] at this
  · rcases Nat.lt_or_ge j M with hlt | hge
    · -- within the tour only the start is at the first point
      have hstart : tile s (M / M.gcd s) 0 = 0 := by simp [tile]
      have : j = 0 := tile_injOn hM hlt hM (by rw [← hstart] at hzero; exact hzero)
      omega
    · obtain ⟨i, rfl⟩ := Nat.exists_eq_add_of_le hge
      have hdvd := stride_dvd hM ((tile_wrap hM ht (show i < M / M.gcd s by omega)).symm.trans hzero)
      have := Nat.le_of_dvd (by omega) hdvd
      omega

end MysqlBench.Lib
