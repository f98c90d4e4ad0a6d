import Mathlib

/-!
# Buckets of logarithmic width

A histogram over the natural numbers whose buckets get wider with the values they hold: the numbers
with one leading bit are a group, and every group is cut into `2 ^ M` buckets of one width, by the `M`
bits behind the leading one. Below `2 ^ (M + 1)` the buckets hold one number each.

Everything follows from `logIndex_eq_iff`: the numbers of a bucket are an interval, of which both ends
are known. The index is monotone (`logIndex_mono`), every number of the interval has it
(`logIndex_bucketMid` for the middle), and the middle is as close to each of them as the bits kept
allow (`bucketMid_close`).
-/

namespace MysqlBench.Lib

variable {M : Nat}

/-! ## The bucket of a number -/

def logExp (M v : Nat) : Nat := Nat.log2 v - M

def logIndex (M v : Nat) : Nat := 2 ^ M * logExp M v + v / 2 ^ logExp M v

variable {v w e q : Nat}

theorem lt_two_pow_logExp (M v : Nat) : v < 2 ^ (logExp M v + (M + 1)) := by
  apply Nat.lt_of_lt_of_le Nat.lt_log2_self
  apply Nat.pow_le_pow_right (by decide)
  rw [logExp]
  omega

theorem two_pow_logExp_le (h : 0 < logExp M v) : 2 ^ (logExp M v + M) ≤ v := by
  have hv : v ≠ 0 := by
    rintro rfl
    simp [logExp] at h
  rw [logExp] at h
  rw [logExp, Nat.sub_add_cancel (by omega)]
  exact Nat.log2_self_le hv

theorem div_logExp_lt (M v : Nat) : v / 2 ^ logExp M v < 2 ^ (M + 1) := by
  rw [Nat.div_lt_iff_lt_mul (Nat.two_pow_pos _), ← pow_add, Nat.add_comm]
  exact lt_two_pow_logExp M v

theorem le_div_logExp (h : 0 < logExp M v) : 2 ^ M ≤ v / 2 ^ logExp M v := by
  rw [Nat.le_div_iff_mul_le (Nat.two_pow_pos _), ← pow_add, Nat.add_comm]
  exact two_pow_logExp_le h

theorem logExp_mono (h : v ≤ w) : logExp M v ≤ logExp M w := by
  apply Nat.sub_le_sub_right
  rw [Nat.log2_eq_log_two, Nat.log2_eq_log_two]
  exact Nat.log_mono_right h

/-- **A larger number is never in an earlier bucket.** -/
theorem logIndex_mono (h : v ≤ w) : logIndex M v ≤ logIndex M w := by
  rcases Nat.eq_or_lt_of_le (logExp_mono (M := M) h) with heq | hlt
  · rw [logIndex, logIndex, heq]
    exact Nat.add_le_add_left (Nat.div_le_div_right h) _
  · -- the groups between the two leading bits lie between the two indices
    have hv := div_logExp_lt M v
    have hw := le_div_logExp (Nat.lt_of_le_of_lt (Nat.zero_le _) hlt)
    have hgroup : 2 ^ M * (logExp M v + 1) ≤ 2 ^ M * logExp M w := Nat.mul_le_mul_left _ hlt
    rw [pow_succ'] at hv
    rw [Nat.mul_add, Nat.mul_one] at hgroup
    rw [logIndex, logIndex]
    omega

/-! ## The numbers of a bucket -/

def bucketExp (M i : Nat) : Nat := i / 2 ^ M - 1

def bucketLow (M i : Nat) : Nat := (i - 2 ^ M * bucketExp M i) * 2 ^ bucketExp M i

def bucketMid (M i : Nat) : Nat := bucketLow M i + 2 ^ bucketExp M i / 2

theorem bucketExp_eq (hq : q < 2 ^ (M + 1)) (he : 0 < e → 2 ^ M ≤ q) :
    bucketExp M (2 ^ M * e + q) = e := by
  have hpos := Nat.two_pow_pos M
  rw [bucketExp, Nat.mul_add_div hpos]
  rw [pow_succ'] at hq
  rcases Nat.eq_zero_or_pos e with rfl | hepos
  · have hdiv : q / 2 ^ M < 2 := (Nat.div_lt_iff_lt_mul hpos).mpr hq
    omega
  · have hdiv : q / 2 ^ M = 1 := Nat.div_eq_of_lt_le (by simpa using he hepos) (by omega)
    omega

theorem bucketExp_logIndex (M v : Nat) : bucketExp M (logIndex M v) = logExp M v :=
  bucketExp_eq (div_logExp_lt M v) le_div_logExp

theorem bucketLow_logIndex (M v : Nat) :
    bucketLow M (logIndex M v) = v / 2 ^ logExp M v * 2 ^ logExp M v := by
  rw [bucketLow, bucketExp_logIndex, logIndex, Nat.add_sub_cancel_left]

theorem bucket_lead (M i : Nat) : i - 2 ^ M * bucketExp M i < 2 ^ (M + 1) ∧
    (0 < bucketExp M i → 2 ^ M ≤ i - 2 ^ M * bucketExp M i) := by
  have hdiv := Nat.div_add_mod i (2 ^ M)
  have hmod := Nat.mod_lt i (Nat.two_pow_pos M)
  rw [pow_succ', bucketExp]
  cases hq : i / 2 ^ M with
  | zero =>
    rw [hq, Nat.mul_zero, Nat.zero_add] at hdiv
    simp only [Nat.zero_sub, Nat.mul_zero, Nat.sub_zero]
    exact ⟨by omega, fun h => absurd h (by decide)⟩
  | succ e =>
    rw [hq, Nat.mul_succ] at hdiv
    rw [Nat.succ_sub_one]
    exact ⟨by omega, fun _ => by omega⟩

theorem logExp_eq (hlo : q * 2 ^ e ≤ v) (hhi : v < (q + 1) * 2 ^ e)
    (hq : q < 2 ^ (M + 1)) (he : 0 < e → 2 ^ M ≤ q) : logExp M v = e := by
  have hup : v < 2 ^ (e + (M + 1)) := by
    calc v < (q + 1) * 2 ^ e := hhi
      _ ≤ 2 ^ (M + 1) * 2 ^ e := Nat.mul_le_mul_right _ hq
      _ = 2 ^ (e + (M + 1)) := by rw [← pow_add, Nat.add_comm]
  rcases Nat.eq_zero_or_pos v with rfl | hv
  · rcases Nat.eq_zero_or_pos e with rfl | hepos
    · simp [logExp]
    · have hpos := Nat.mul_pos (Nat.lt_of_lt_of_le (Nat.two_pow_pos M) (he hepos)) (Nat.two_pow_pos e)
      omega
  · have hlog : Nat.log2 v < e + (M + 1) := (Nat.log2_lt hv.ne').mpr hup
    rw [logExp]
    rcases Nat.eq_zero_or_pos e with rfl | hepos
    · omega
    · have hdown : e + M ≤ Nat.log2 v := by
        rw [Nat.le_log2 hv.ne', Nat.add_comm, pow_add]
        exact Nat.le_trans (Nat.mul_le_mul_right _ (he hepos)) hlo
      omega

/-- **The numbers of a bucket are an interval.** -/
theorem logIndex_eq_iff {i : Nat} :
    logIndex M v = i ↔ bucketLow M i ≤ v ∧ v < bucketLow M i + 2 ^ bucketExp M i := by
  constructor
  · rintro rfl
    rw [bucketLow_logIndex, bucketExp_logIndex]
    have hdiv := Nat.div_add_mod' v (2 ^ logExp M v)
    have hmod := Nat.mod_lt v (Nat.two_pow_pos (logExp M v))
    omega
  · rintro ⟨hlo, hhi⟩
    obtain ⟨hq, he⟩ := bucket_lead M i
    have hhi' : v < (i - 2 ^ M * bucketExp M i + 1) * 2 ^ bucketExp M i := by
      rw [Nat.add_mul, Nat.one_mul]
      exact hhi
    have hexp := logExp_eq hlo hhi' hq he
    have hquot : v / 2 ^ bucketExp M i = i - 2 ^ M * bucketExp M i := Nat.div_eq_of_lt_le hlo hhi'
    have hle : 2 ^ M * bucketExp M i ≤ i :=
      Nat.le_trans (Nat.mul_le_mul_left _ (Nat.sub_le _ _)) (Nat.mul_div_le i _)
    rw [logIndex, hexp, hquot]
    omega

theorem logIndex_bucketMid (i : Nat) : logIndex M (bucketMid M i) = i :=
  logIndex_eq_iff.mpr ⟨Nat.le_add_right _ _,
    Nat.add_lt_add_left (Nat.div_lt_self (Nat.two_pow_pos _) (by decide)) _⟩

/-! ## How close the middle is -/

theorem two_pow_half (h : 0 < e) : 2 ^ e / 2 + 2 ^ e / 2 = 2 ^ e := by
  obtain ⟨e, rfl⟩ := Nat.exists_eq_add_of_lt h
  rw [Nat.zero_add, pow_succ]
  omega

theorem bucketMid_close (M v : Nat) :
    |(bucketMid M (logIndex M v) : ℤ) - v| * 2 ^ (M + 1) ≤ v := by
  obtain ⟨hlo, hhi⟩ := (logIndex_eq_iff (M := M)).mp (rfl : logIndex M v = logIndex M v)
  rw [bucketMid]
  rw [bucketExp_logIndex] at hhi ⊢
  rcases Nat.eq_zero_or_pos (logExp M v) with he | he
  · rw [he] at hhi ⊢
    have heq : bucketLow M (logIndex M v) = v := by
      rw [pow_zero] at hhi
      omega
    simp [heq]
  · have hhalf := two_pow_half he
    have hdist : |((bucketLow M (logIndex M v) + 2 ^ logExp M v / 2 : Nat) : ℤ) - v| ≤
        (2 ^ logExp M v / 2 : Nat) := by
      rw [abs_le]
      omega
    have hlead : (2 ^ logExp M v / 2) * 2 ^ (M + 1) ≤ v := by
      calc 2 ^ logExp M v / 2 * 2 ^ (M + 1)
          = (2 ^ logExp M v / 2 + 2 ^ logExp M v / 2) * 2 ^ M := by rw [pow_succ]; ring
        _ = 2 ^ (logExp M v + M) := by rw [hhalf, ← pow_add]
        _ ≤ v := two_pow_logExp_le he
    calc |((bucketLow M (logIndex M v) + 2 ^ logExp M v / 2 : Nat) : ℤ) - v| * 2 ^ (M + 1)
        ≤ (2 ^ logExp M v / 2 : Nat) * 2 ^ (M + 1) := mul_le_mul_of_nonneg_right hdist (by positivity)
      _ ≤ v := by exact_mod_cast hlead

end MysqlBench.Lib
