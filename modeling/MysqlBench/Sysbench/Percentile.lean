import Mathlib

/-!
# Percentiles of a histogram (`sb_percentile.c`)

A histogram of counters, a total kept beside them, and the search for the bucket where the cumulative
count reaches the rank. Where a value falls is left open: any function into the buckets. The counters are
natural numbers, as are the 64-bit ones of the program up to `2 ^ 64 - 1` calls (`counters_fit`). The rank
`floor(total * percent / 100 + 0.5)` is exact here; the program computes it in doubles, which give the same
as long as the total is below `2 ^ 53` and neither the product nor the quotient is rounded over a half.

The total is the sum of the counters in every run (`sum_run`), so the search ends inside the histogram;
but it adds the first counter before it looks, and never stops at the first bucket
(`percentile_bucket_iff`).
-/

namespace MysqlBench.Sysbench

/-! ## The histogram -/

structure SbPercentile where
  size : Nat
  values : List Nat
  total : Nat
  length_values : values.length = size

def sbPercentileInit (size : Nat) : SbPercentile :=
  ⟨size, List.replicate size 0, 0, List.length_replicate⟩

theorem length_modify_succ {l : List Nat} {n k : Nat} (h : l.length = n) :
    (l.modify k (· + 1)).length = n := by
  rw [List.length_modify, h]

def sbPercentileUpdate (p : SbPercentile) (n : Nat) : SbPercentile :=
  ⟨p.size, p.values.modify n (· + 1), p.total + 1, length_modify_succ p.length_values⟩

def sbPercentileReset (p : SbPercentile) : SbPercentile :=
  ⟨p.size, List.replicate p.size 0, 0, List.length_replicate⟩

def percentileRank (total : Nat) (percent : ℚ) : Nat := ⌊total * percent / 100 + 1 / 2⌋₊

def searchBuckets (nmax : Nat) : Nat → Nat → List Nat → Nat
  | i, _, [] => i
  | i, ncur, count :: counts =>
    if nmax ≤ ncur + count then i else searchBuckets nmax (i + 1) (ncur + count) counts

/-- The bucket from which `sb_percentile_calculate` computes its result; `none` if nothing was counted. -/
def sbPercentileCalculate (p : SbPercentile) (percent : ℚ) : Option Nat :=
  if p.total = 0 then none
  else some (searchBuckets (percentileRank p.total percent) 1 (p.values.headD 0) p.values.tail)

/-! ## Runs -/

inductive PercentileCall (V : Type) where
  | update (value : V)
  | reset

variable {V : Type}

def percentileStep (bucket : V → Nat) (p : SbPercentile) : PercentileCall V → SbPercentile
  | .update value => sbPercentileUpdate p (bucket value)
  | .reset => sbPercentileReset p

def percentileRun (bucket : V → Nat) (size : Nat) (calls : List (PercentileCall V)) : SbPercentile :=
  calls.foldl (percentileStep bucket) (sbPercentileInit size)

theorem sum_modify_succ {l : List Nat} {k : Nat} (h : k < l.length) :
    (l.modify k (· + 1)).sum = l.sum + 1 := by
  induction l generalizing k with
  | nil => simp at h
  | cons c l ih =>
    cases k with
    | zero => simp [Nat.add_right_comm]
    | succ k =>
      simp only [List.length_cons, Nat.add_lt_add_iff_right] at h
      simp [ih h, Nat.add_assoc]

structure CountersAgree (size : Nat) (p : SbPercentile) : Prop where
  size_eq : p.size = size
  total_eq : p.values.sum = p.total

theorem CountersAgree.step {bucket : V → Nat} {size : Nat} (hbucket : ∀ v, bucket v < size) {p : SbPercentile}
    (h : CountersAgree size p) (c : PercentileCall V) : CountersAgree size (percentileStep bucket p c) := by
  cases c with
  | update v =>
    refine ⟨h.size_eq, ?_⟩
    have hlt : bucket v < p.values.length := by
      rw [p.length_values, h.size_eq]
      exact hbucket v
    show (p.values.modify (bucket v) (· + 1)).sum = p.total + 1
    rw [sum_modify_succ hlt, h.total_eq]
  | reset => exact ⟨h.size_eq, by simp [percentileStep, sbPercentileReset]⟩

/-- **The total is the sum of the counters**, across updates and resets. -/
theorem sum_run {bucket : V → Nat} {size : Nat} (hbucket : ∀ v, bucket v < size)
    (calls : List (PercentileCall V)) : CountersAgree size (percentileRun bucket size calls) := by
  have hfold : ∀ (calls : List (PercentileCall V)) (p : SbPercentile), CountersAgree size p →
      CountersAgree size (calls.foldl (percentileStep bucket) p) := by
    intro calls
    induction calls with
    | nil => exact fun p h => h
    | cons c calls ih => exact fun p h => ih _ (h.step hbucket c)
  exact hfold calls _ ⟨rfl, by simp [sbPercentileInit]⟩

theorem total_run_le (bucket : V → Nat) (size : Nat) (calls : List (PercentileCall V)) :
    (percentileRun bucket size calls).total ≤ calls.length := by
  induction calls using List.reverseRecOn with
  | nil => exact Nat.le_refl 0
  | append_singleton calls c ih =>
    rw [percentileRun, List.foldl_append, List.length_append, List.length_singleton]
    cases c with
    | update v => exact Nat.succ_le_succ ih
    | reset => exact Nat.zero_le _

theorem counters_fit {bucket : V → Nat} {size : Nat} (hbucket : ∀ v, bucket v < size)
    {calls : List (PercentileCall V)} (hcalls : calls.length < 2 ^ 64) :
    (percentileRun bucket size calls).total < 2 ^ 64 ∧
      ∀ count ∈ (percentileRun bucket size calls).values, count < 2 ^ 64 := by
  have htotal := (total_run_le bucket size calls).trans_lt hcalls
  refine ⟨htotal, fun count hcount => lt_of_le_of_lt ?_ htotal⟩
  rw [← (sum_run hbucket calls).total_eq]
  exact List.le_sum_of_mem hcount

/-! ## The search -/

def cumulative (values : List Nat) (i : Nat) : Nat := (values.take (i + 1)).sum

def LeastBucket (values : List Nat) (nmax i : Nat) : Prop :=
  nmax ≤ cumulative values i ∧ ∀ j < i, cumulative values j < nmax

theorem searchBuckets_spec {nmax : Nat} {counts : List Nat} {i ncur : Nat} (hlt : ncur < nmax)
    (hsum : nmax ≤ ncur + counts.sum) :
    ∃ j < counts.length, searchBuckets nmax i ncur counts = i + j ∧ nmax ≤ ncur + cumulative counts j ∧
      ∀ m < j, ncur + cumulative counts m < nmax := by
  induction counts generalizing i ncur with
  | nil =>
    simp at hsum
    omega
  | cons count counts ih =>
    rw [searchBuckets]
    by_cases hstop : nmax ≤ ncur + count
    · refine ⟨0, by simp, by rw [if_pos hstop, Nat.add_zero], by simpa [cumulative] using hstop, ?_⟩
      simp
    · rw [List.sum_cons, ← Nat.add_assoc] at hsum
      obtain ⟨j, hj, heq, hreach, hbelow⟩ := ih (i := i + 1) (Nat.lt_of_not_le hstop) hsum
      have hcons : ∀ m, ncur + cumulative (count :: counts) (m + 1) = ncur + count + cumulative counts m := by
        intro m
        simp [cumulative, Nat.add_assoc]
      refine ⟨j + 1, by simpa using hj, ?_, ?_, ?_⟩
      · rw [if_neg hstop, heq, Nat.add_right_comm, Nat.add_assoc]
      · rwa [hcons]
      · intro m hm
        cases m with
        | zero =>
          rw [cumulative, Nat.zero_add, List.take_succ_cons, List.take_zero, List.sum_singleton]
          exact Nat.lt_of_not_le hstop
        | succ m =>
          rw [hcons]
          exact hbelow m (Nat.lt_of_succ_lt_succ hm)

theorem one_le_searchBuckets (nmax : Nat) (counts : List Nat) {i : Nat} (hi : 1 ≤ i) (ncur : Nat) :
    1 ≤ searchBuckets nmax i ncur counts := by
  induction counts generalizing i ncur with
  | nil => exact hi
  | cons count counts ih =>
    rw [searchBuckets]
    split
    · exact hi
    · exact ih (Nat.le_succ_of_le hi) _

theorem percentileRank_le {percent : ℚ} (h : percent ≤ 100) (total : Nat) :
    percentileRank total percent ≤ total := by
  have hmul : (total : ℚ) * percent ≤ total * 100 := mul_le_mul_of_nonneg_left h (Nat.cast_nonneg total)
  have hlt : (total : ℚ) * percent / 100 + 1 / 2 < (total + 1 : Nat) := by
    push_cast
    linarith
  exact Nat.lt_succ_iff.mp ((Nat.floor_lt' (Nat.succ_ne_zero total)).mpr hlt)

/-- **The bucket of a percentile.** After any updates and resets, the search finds the least bucket
that reaches the rank exactly when the first bucket is below it: the loop starts with the second
one. -/
theorem percentile_bucket_iff (size : Nat) (bucket : V → Nat)
    (hbucket : ∀ v, bucket v < size) (calls : List (PercentileCall V)) (percent : ℚ)
    (hhi : percent ≤ 100) (htotal : 0 < (percentileRun bucket size calls).total) :
    (∃ i, sbPercentileCalculate (percentileRun bucket size calls) percent = some i ∧
      LeastBucket (percentileRun bucket size calls).values
        (percentileRank (percentileRun bucket size calls).total percent) i ∧ i < size) ↔
      (percentileRun bucket size calls).values.headD 0 <
        percentileRank (percentileRun bucket size calls).total percent := by
  obtain ⟨hsz, hsum⟩ := sum_run hbucket calls
  generalize percentileRun bucket size calls = p at *
  obtain ⟨n, values, total, hlen⟩ := p
  dsimp only at *
  have hrank := percentileRank_le hhi total
  cases values with
  | nil => simp at hsum; omega
  | cons count counts =>
    rw [sbPercentileCalculate, if_neg (by show ¬total = 0; omega)]
    have hcounts : counts.length + 1 = n := hlen
    simp only [List.headD_cons, List.tail_cons, List.sum_cons] at *
    constructor
    · intro h
      obtain ⟨i, hi, ⟨hreach, hbelow⟩, hlt⟩ := h
      -- the search starts behind the first bucket, so the first must not be the answer
      have hone := one_le_searchBuckets (percentileRank total percent) counts (Nat.le_refl 1) count
      rw [Option.some.inj hi] at hone
      have hfirst := hbelow 0 hone
      simpa [cumulative] using hfirst
    · intro hfirst
      obtain ⟨j, hj, heq, hreach, hbelow⟩ := searchBuckets_spec (i := 1) hfirst
        (show percentileRank total percent ≤ count + counts.sum by omega)
      have hcons : ∀ m, cumulative (count :: counts) (m + 1) = count + cumulative counts m := by
        intro m
        simp [cumulative]
      refine ⟨1 + j, by rw [heq], ⟨?_, ?_⟩, by omega⟩
      · rwa [Nat.add_comm, hcons]
      · intro m hm
        cases m with
        | zero => simpa [cumulative] using hfirst
        | succ m =>
          rw [hcons]
          exact hbelow m (by omega)

/-- Two values in the second of three buckets: their median is there. -/
theorem percentile_bucket_second :
    ∃ i, sbPercentileCalculate (percentileRun (fun _ : Unit => 1) 3 [.update (), .update ()]) 50 = some i ∧
      LeastBucket (percentileRun (fun _ : Unit => 1) 3 [.update (), .update ()]).values
        (percentileRank (percentileRun (fun _ : Unit => 1) 3 [.update (), .update ()]).total 50) i ∧
      i < 3 := by
  refine (percentile_bucket_iff 3 (fun _ : Unit => 1) (by decide) [.update (), .update ()] 50
    (by norm_num) (by decide)).mpr ?_
  decide +kernel

/-- One value in the first of two buckets: its maximum is looked up in the second. -/
theorem first_bucket_missed :
    sbPercentileCalculate (percentileRun (fun _ : Unit => 0) 2 [.update ()]) 100 = some 1 ∧
      LeastBucket (percentileRun (fun _ : Unit => 0) 2 [.update ()]).values
        (percentileRank (percentileRun (fun _ : Unit => 0) 2 [.update ()]).total 100) 0 := by
  refine ⟨by decide +kernel, by decide +kernel, ?_⟩
  simp

end MysqlBench.Sysbench
