import MysqlBench.Fio.Stat.Model
import MysqlBench.Lib.LogBuckets

/-!
# `stat.c` — the latency histogram

`plat_val_to_idx` and `plat_idx_to_val` are the two directions of a histogram with buckets of
logarithmic width, cut off at `FIO_IO_U_PLAT_NR` buckets. `platValToIdx_eq` and `platIdxToVal_eq` say
so, and what the header promises about accuracy is then a fact about such buckets
(`histogram_accurate`).

A latency reaches `plat_val_to_idx` as an `unsigned int`, while it was measured as an `unsigned long`.
`latency_ordered_iff` says which latencies are still ordered.
-/

namespace MysqlBench.Fio

open MysqlBench.Lib

/-- `plat_idx_to_val`; nothing if its assertion fails. The mean `base + (k + 0.5) * (1 << error_bits)`
is a `double` that the return cuts to an `unsigned int`: the division by two. -/
def platIdxToVal (idx : Nat) : Option Nat :=
  if idx < 1216 then
    if idx < 64 <<< 1 then some idx
    else
      let errorBits := (idx >>> 6) - 1
      let base := 1 <<< (errorBits + 6)
      let k := idx % 64
      some (base + (2 * k + 1) * (1 <<< errorBits) / 2)
  else none

/-! ## The two functions as buckets -/

theorem platValToIdx_eq (val : Nat) : platValToIdx val = min (logIndex 6 val) 1215 := by
  unfold platValToIdx
  dsimp only
  rcases Nat.lt_or_ge 6 (Nat.log2 val) with hbig | hsmall
  · rw [if_neg (by omega)]
    have hexp : logExp 6 val = Nat.log2 val - 6 := rfl
    have hpos : 0 < logExp 6 val := by omega
    have hlt := div_logExp_lt 6 val
    have hge := le_div_logExp hpos
    -- the mask takes the leading bit off
    have hoffset : 63 &&& val >>> logExp 6 val = val / 2 ^ logExp 6 val - 64 := by
      rw [Nat.shiftRight_eq_div_pow, Nat.and_comm, show 63 = 2 ^ 6 - 1 from rfl,
        Nat.and_two_pow_sub_one_eq_mod]
      omega
    have hindex : (logExp 6 val + 1) <<< 6 + (63 &&& val >>> logExp 6 val) = logIndex 6 val := by
      rw [hoffset, Nat.shiftLeft_eq, logIndex]
      omega
    rw [← hexp, hindex]
    split <;> omega
  · rw [if_pos hsmall]
    have hexp : logExp 6 val = 0 := Nat.sub_eq_zero_of_le hsmall
    have hval : val < 128 := by
      have := lt_two_pow_logExp 6 val
      rw [hexp] at this
      exact this
    rw [logIndex, hexp]
    omega

theorem platIdxToVal_eq {idx : Nat} (h : idx < 1216) :
    platIdxToVal idx = some (bucketMid 6 idx) := by
  rw [platIdxToVal, if_pos h]
  split
  · rename_i hsmall
    have hexp : bucketExp 6 idx = 0 := by
      rw [bucketExp]
      omega
    rw [bucketMid, bucketLow, hexp]
    simp
  · rename_i hbig
    have hshift : (idx >>> 6) - 1 = bucketExp 6 idx := by
      rw [Nat.shiftRight_eq_div_pow, bucketExp]
    obtain ⟨e, he⟩ : ∃ e, bucketExp 6 idx = e + 1 := by
      refine Nat.exists_eq_succ_of_ne_zero ?_
      rw [bucketExp]
      omega
    have hlead : idx - 2 ^ 6 * (e + 1) = 64 + idx % 64 := by
      rw [bucketExp] at he
      omega
    -- half of a power of two that is not one: the mean is an integer, and nothing is cut
    have hmean : 2 ^ (e + 1 + 6) + (2 * (idx % 64) + 1) * 2 ^ (e + 1) / 2 =
        (64 + idx % 64) * 2 ^ (e + 1) + 2 ^ (e + 1) / 2 := by
      rw [pow_succ 2 e, ← Nat.mul_assoc, Nat.mul_div_cancel _ (by decide),
        Nat.mul_div_cancel _ (by decide)]
      ring
    dsimp only
    rw [hshift, he, Nat.one_shiftLeft, Nat.one_shiftLeft, hmean, bucketMid, bucketLow, he, hlead]

theorem platValToIdx_lt (val : Nat) : platValToIdx val < 1216 := by
  rw [platValToIdx_eq]
  omega

theorem platValToIdx_mono {v w : Nat} (h : v ≤ w) : platValToIdx v ≤ platValToIdx w := by
  rw [platValToIdx_eq, platValToIdx_eq]
  exact min_le_min_right _ (logIndex_mono h)

theorem logIndex_lt_iff {v : Nat} : logIndex 6 v < 1216 ↔ v < 2 ^ 24 := by
  have hlow : logIndex 6 (2 ^ 24) = 1216 := by decide
  constructor
  · intro h
    by_contra hge
    have := logIndex_mono (M := 6) (Nat.le_of_not_lt hge)
    omega
  · intro h
    have hlast : logIndex 6 (2 ^ 24 - 1) = 1215 := by decide
    have := logIndex_mono (M := 6) (Nat.le_sub_one_of_lt h)
    omega

theorem platIdxToVal_range {i : Nat} (hi : i < 1216) :
    ∃ r, platIdxToVal i = some r ∧ r < 2 ^ 32 ∧ platValToIdx r = i := by
  have hback := logIndex_bucketMid (M := 6) i
  have hrange : bucketMid 6 i < 2 ^ 24 := by
    rw [← logIndex_lt_iff, hback]
    exact hi
  refine ⟨_, platIdxToVal_eq hi, by omega, ?_⟩
  rw [platValToIdx_eq, hback]
  omega

/-! ## Accuracy -/

/-- **Accuracy of the histogram.** The bucket of a value is monotone and one of the histogram's; up to
`2 ^ 24` a value and the one its bucket stands for differ by one part in 128; and the value that stands
for a bucket is counted in that bucket. -/
theorem histogram_accurate :
    (∀ v w, v ≤ w → w < 2 ^ 32 → platValToIdx v ≤ platValToIdx w) ∧
    (∀ v < 2 ^ 32, platValToIdx v < 1216) ∧
    (∀ v < 2 ^ 24, ∃ r, platIdxToVal (platValToIdx v) = some r ∧ |(r : ℤ) - v| * 2 ^ 7 ≤ v) ∧
    (∀ i < 1216, ∃ r, platIdxToVal i = some r ∧ r < 2 ^ 32 ∧ platValToIdx r = i) := by
  refine ⟨fun _ _ h _ => platValToIdx_mono h, fun v _ => platValToIdx_lt v, ?_,
    fun i hi => platIdxToVal_range hi⟩
  intro v hv
  refine ⟨_, platIdxToVal_eq (platValToIdx_lt v), ?_⟩
  have hkept : platValToIdx v = logIndex 6 v := by
    have := logIndex_lt_iff.mpr hv
    rw [platValToIdx_eq]
    omega
  rw [hkept]
  exact bucketMid_close 6 v

example : platIdxToVal (platValToIdx 1000000) = some 1003520 := by decide

/-! ## The order of latencies -/

def CountedIn (usec : BitVec 64) (i : Nat) : Prop :=
  ∃ hi : i < 1216, ∀ (ts : ThreadStat ℚ) (d : Fin 3), addClatPercentileSample ts usec d =
    { ts with plat := Function.update ts.plat d (bump (ts.plat d) ⟨i, hi⟩ 1) }

theorem countedIn_idx (usec : BitVec 64) : CountedIn usec (platValToIdx (usec.toNat % 2 ^ 32)) := by
  refine ⟨platValToIdx_lt _, fun ts d => ?_⟩
  rw [addClatPercentileSample, dif_pos (platValToIdx_lt _)]

theorem countedIn_iff {usec : BitVec 64} {i : Nat} :
    CountedIn usec i ↔ i = platValToIdx (usec.toNat % 2 ^ 32) := by
  constructor
  · intro h
    obtain ⟨hi, hcount⟩ := h
    obtain ⟨hj, hidx⟩ := countedIn_idx usec
    by_contra hne
    have hboth := (hcount initThreadStat 0).symm.trans (hidx initThreadStat 0)
    have hplat := congrArg (fun ts => ts.plat 0 ⟨i, hi⟩) hboth
    simp only [bump, initThreadStat, Function.update_self, Function.update_apply, Fin.mk.injEq,
      if_neg hne] at hplat
    exact absurd hplat (by decide)
  · rintro rfl
    exact countedIn_idx usec

/-- What a latency should do: no shorter one is counted behind it, and one beyond the tracked range is
counted in the last bucket. -/
structure LatencyOrdered (b : BitVec 64) : Prop where
  ordered : ∀ a ≤ b, ∀ i j, CountedIn a i → CountedIn b j → i ≤ j
  last : 2 ^ 24 ≤ b.toNat → CountedIn b 1215

theorem platValToIdx_eq_last_iff {v : Nat} : platValToIdx v = 1215 ↔ 127 * 2 ^ 17 ≤ v := by
  have hlow : platValToIdx (127 * 2 ^ 17) = 1215 := by decide
  constructor
  · intro h
    by_contra hlt
    have hbefore : platValToIdx (127 * 2 ^ 17 - 1) = 1214 := by decide
    have := platValToIdx_mono (Nat.le_sub_one_of_lt (Nat.lt_of_not_le hlt))
    omega
  · intro h
    have := platValToIdx_mono h
    have := platValToIdx_lt v
    omega

/-- **Latencies are ordered** as long as they fit the 32 bits of the parameter they pass through.
Beyond, a latency is counted where its lower half belongs, and that is right only in the last
bucket. -/
theorem latency_ordered_iff (b : BitVec 64) :
    LatencyOrdered b ↔ b.toNat < 2 ^ 32 ∨ 127 * 2 ^ 17 ≤ b.toNat % 2 ^ 32 := by
  constructor
  · intro h
    by_contra hcon
    push Not at hcon
    have hlast := countedIn_iff.mp (h.last (by omega))
    exact absurd (platValToIdx_eq_last_iff.mp hlast.symm) (by omega)
  · intro h
    constructor
    · intro a hab i j hi hj
      rw [countedIn_iff.mp hi, countedIn_iff.mp hj]
      rcases h with hsmall | hlast
      · have ha : a.toNat ≤ b.toNat := hab
        rw [Nat.mod_eq_of_lt hsmall, Nat.mod_eq_of_lt (Nat.lt_of_le_of_lt ha hsmall)]
        exact platValToIdx_mono ha
      · rw [platValToIdx_eq_last_iff.mpr hlast]
        exact Nat.le_of_lt_succ (platValToIdx_lt _)
    · intro hbig
      rw [countedIn_iff, eq_comm, platValToIdx_eq_last_iff]
      rcases h with hsmall | hlast
      · omega
      · exact hlast

/-- A latency of `2 ^ 32` microseconds, some 72 minutes, is counted as one of zero. -/
theorem long_latency_counted_as_zero :
    CountedIn (BitVec.ofNat 64 (2 ^ 32 - 1)) 1215 ∧ CountedIn (BitVec.ofNat 64 (2 ^ 32)) 0 ∧
      ¬LatencyOrdered (BitVec.ofNat 64 (2 ^ 32)) := by
  have hshort : CountedIn (BitVec.ofNat 64 (2 ^ 32 - 1)) 1215 := countedIn_iff.mpr (by decide)
  have hlong : CountedIn (BitVec.ofNat 64 (2 ^ 32)) 0 := countedIn_iff.mpr (by decide)
  refine ⟨hshort, hlong, fun h => ?_⟩
  exact absurd (h.ordered _ (by decide) _ _ hshort hlong) (by decide)

end MysqlBench.Fio
