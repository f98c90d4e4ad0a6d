import MysqlBench.Fio.Stat.Model
import Mathlib.Tactic.SplitIfs

/-!
# `reset_io_stats`

The two runs compared here record the same samples, one after a reset of statistics with a history
and one into fresh statistics. What the reset leaves over (`LeftOver`) is kept by every sample: a
minimum of zero, where fresh statistics start at the largest number, and the entries of the latency
histograms from the eighth on. So the runs agree if and only if there is nothing left over, and each
minimum is zero for another reason (`reset_forgets_iff`).
-/

namespace MysqlBench.Fio

/-! ## Two statistics -/

structure SameStats {R : Type} (ts ts' : ThreadStat R) : Prop where
  stat : ts.stat = ts'.stat
  map : ts.map = ts'.map
  latU : ts.latU = ts'.latU
  latM : ts.latM = ts'.latM
  plat : ts.plat = ts'.plat
  dir : ts.dir = ts'.dir
  totalSubmit : ts.u64 .totalSubmit = ts'.u64 .totalSubmit
  totalComplete : ts.u64 .totalComplete = ts'.u64 .totalComplete

structure LeftOver {R : Type} (latU : Fin 10 → BitVec 32) (latM : Fin 12 → BitVec 32)
    (ts ts' : ThreadStat R) : Prop where
  iops : ts.stat .iops = ts'.stat .iops
  stat : ∀ k, k ≠ .iops → ∀ d, ts.stat k d = { ts'.stat k d with minVal := 0 }
  map : ts.map = ts'.map
  latU : ∀ i, ts.latU i = ts'.latU i + latU i
  latM : ∀ i, ts.latM i = ts'.latM i + latM i
  plat : ts.plat = ts'.plat
  dir : ts.dir = ts'.dir
  u64 : ts.u64 = ts'.u64

section Compare

variable {R : Type} {latU : Fin 10 → BitVec 32} {latM : Fin 12 → BitVec 32} {ts ts' : ThreadStat R}

theorem leftOver_bumpMap (k : TsMap) (i : Fin 7) (x : BitVec 32) (h : LeftOver latU latM ts ts') :
    LeftOver latU latM (bumpMap k ts i x) (bumpMap k ts' i x) :=
  { h with map := by unfold bumpMap; dsimp only; rw [h.map] }

theorem leftOver_bumpU64 (f : TsU64) (h : LeftOver latU latM ts ts') :
    LeftOver latU latM (bumpU64 f ts) (bumpU64 f ts') :=
  { h with u64 := by unfold bumpU64; dsimp only; rw [h.u64] }

theorem bump_add {n : Nat} {a b c : Fin n → BitVec 32} (h : ∀ i, a i = b i + c i) (j : Fin n)
    (x : BitVec 32) (i : Fin n) : bump a j x i = bump b j x i + c i := by
  unfold bump
  by_cases hi : i = j
  · subst hi
    rw [Function.update_self, Function.update_self, h]
    ac_rfl
  · rw [Function.update_of_ne hi, Function.update_of_ne hi, h]

theorem leftOver_ioUMarkLatency (usec : BitVec 64) (h : LeftOver latU latM ts ts') :
    LeftOver latU latM (ioUMarkLatency ts usec) (ioUMarkLatency ts' usec) := by
  unfold ioUMarkLatency
  split_ifs
  · exact { h with latU := bump_add h.latU _ _ }
  · exact { h with latM := bump_add h.latM _ _ }

theorem sameStats_iff_of_leftOver (h : LeftOver latU latM ts ts') : SameStats ts ts' ↔
      (∀ k, k ≠ .iops → ∀ d, (ts'.stat k d).minVal = 0) ∧ (∀ i, latU i = 0) ∧ ∀ i, latM i = 0 := by
  constructor
  · intro hsame
    refine ⟨fun k hk d => ?_, fun i => ?_, fun i => ?_⟩
    · rw [← hsame.stat, h.stat k hk d]
    · have := h.latU i
      rwa [hsame.latU, BitVec.self_eq_add_right] at this
    · have := h.latM i
      rwa [hsame.latM, BitVec.self_eq_add_right] at this
  · rintro ⟨hmin, hu, hm⟩
    refine ⟨funext fun k => ?_, h.map, funext fun i => ?_, funext fun i => ?_, h.plat, h.dir,
      by rw [h.u64], by rw [h.u64]⟩
    · by_cases hk : k = .iops
      · rw [hk]
        exact h.iops
      · funext d
        rw [h.stat k hk d, ← hmin k hk d]
    · rw [h.latU, hu]
      exact BitVec.add_zero _
    · rw [h.latM, hm]
      exact BitVec.add_zero _

end Compare

section Record

variable {R : Type} [Zero R] [One R] [Add R] [Sub R] [Mul R] [Div R] [NatCast R] [DecidableEq R]

/-! ## Recording -/

inductive StatEvent
  | clat (d : Fin 3) (usec : BitVec 64)
  | slat (d : Fin 3) (usec : BitVec 64)
  | lat (d : Fin 3) (usec : BitVec 64)
  | bw (d : Fin 3) (rate : BitVec 64)
  | latency (usec : BitVec 64)
  | submit (nr : BitVec 32)
  | complete (nr : BitVec 32)
  | depth (curDepth nr : BitVec 32)
deriving Repr, DecidableEq

def record (ts : ThreadStat R) : StatEvent → ThreadStat R
  | .clat d usec => addClatSample ts d usec
  | .slat d usec => addSlatSample ts d usec
  | .lat d usec => addLatSample ts d usec
  | .bw d rate => addBwSample ts d rate
  | .latency usec => ioUMarkLatency ts usec
  | .submit nr => ioUMarkSubmit ts nr
  | .complete nr => ioUMarkComplete ts nr
  | .depth curDepth nr => ioUMarkDepth ts curDepth nr

def recordAll (ts : ThreadStat R) (es : List StatEvent) : ThreadStat R := es.foldl record ts

def freshStat (percentiles : BitVec 64) : ThreadStat R :=
  let ts : ThreadStat R := initThreadStat
  { ts with u64 := Function.update ts.u64 .clatPercentiles percentiles }

def StatEvent.sample (k : TsStat) (d : Fin 3) : StatEvent → Option (BitVec 64)
  | .clat d' usec => if k = .clat ∧ d = d' then some usec else none
  | .slat d' usec => if k = .slat ∧ d = d' then some usec else none
  | .lat d' usec => if k = .lat ∧ d = d' then some usec else none
  | .bw d' rate => if k = .bw ∧ d = d' then some rate else none
  | _ => none

/-! ## Recording after a reset -/

theorem addStatSample_minVal_zero (st : IoStat R) (x : BitVec 64) :
    addStatSample { st with minVal := 0 } x = { addStatSample st x with minVal := 0 } := by
  have hx : ¬x < 0 := by simp
  unfold addStatSample
  dsimp only
  rw [if_neg hx]
  split_ifs <;> rfl

theorem addSample_stat (k : TsStat) (ts : ThreadStat R) (d : Fin 3) (x : BitVec 64) (k' : TsStat)
    (d' : Fin 3) : (addSample k ts d x).stat k' d' =
      if k' = k ∧ d' = d then addStatSample (ts.stat k' d') x else ts.stat k' d' := by
  unfold addSample
  dsimp only
  by_cases hk : k' = k
  · subst hk
    by_cases hd : d' = d
    · subst hd
      simp
    · simp [hd]
  · simp [hk]

section Step

variable {latU : Fin 10 → BitVec 32} {latM : Fin 12 → BitVec 32} {ts ts' : ThreadStat R}

theorem leftOver_addSample {k : TsStat} (hk : k ≠ .iops) (d : Fin 3) (x : BitVec 64)
    (h : LeftOver latU latM ts ts') :
    LeftOver latU latM (addSample k ts d x) (addSample k ts' d x) := by
  refine { h with iops := ?_, stat := ?_ }
  · funext d'
    have hne : ¬(TsStat.iops = k ∧ d' = d) := fun hc => hk hc.1.symm
    rw [addSample_stat, addSample_stat, if_neg hne, if_neg hne, h.iops]
  · intro k' hk' d'
    rw [addSample_stat, addSample_stat, h.stat k' hk' d']
    split_ifs
    · exact addStatSample_minVal_zero _ _
    · rfl

theorem leftOver_addClatSample (d : Fin 3) (x : BitVec 64) (h : LeftOver latU latM ts ts') :
    LeftOver latU latM (addClatSample ts d x) (addClatSample ts' d x) := by
  have hs := leftOver_addSample (k := .clat) (by decide) d x h
  unfold addClatSample
  dsimp only
  rw [hs.u64]
  split_ifs
  · exact hs
  · unfold addClatPercentileSample
    split_ifs
    · exact { hs with plat := by dsimp only; rw [hs.plat] }
    · exact hs

theorem leftOver_record (e : StatEvent) (h : LeftOver latU latM ts ts') :
    LeftOver latU latM (record ts e) (record ts' e) := by
  cases e with
  | clat d usec => exact leftOver_addClatSample d usec h
  | slat d usec => exact leftOver_addSample (by decide) d usec h
  | lat d usec => exact leftOver_addSample (by decide) d usec h
  | bw d rate => exact leftOver_addSample (by decide) d rate h
  | latency usec => exact leftOver_ioUMarkLatency usec h
  | submit nr => exact leftOver_bumpU64 _ (leftOver_bumpMap _ _ _ h)
  | complete nr => exact leftOver_bumpU64 _ (leftOver_bumpMap _ _ _ h)
  | depth curDepth nr => exact leftOver_bumpMap _ _ _ h

end Step

theorem leftOver_recordAll {latU : Fin 10 → BitVec 32} {latM : Fin 12 → BitVec 32} :
    ∀ (es : List StatEvent) {ts ts' : ThreadStat R}, LeftOver latU latM ts ts' →
      LeftOver latU latM (recordAll ts es) (recordAll ts' es) := by
  intro es
  induction es with
  | nil => intro _ _ h; exact h
  | cons e es ih => intro _ _ h; exact ih (leftOver_record e h)

/-! ## The minima -/

theorem addStatSample_minVal (st : IoStat R) (x : BitVec 64) :
    (addStatSample st x).minVal = 0 ↔ st.minVal = 0 ∨ x = 0 := by
  have hmin : (addStatSample st x).minVal = if x < st.minVal then x else st.minVal := by
    unfold addStatSample
    dsimp only
    split_ifs <;> rfl
  rw [hmin]
  split_ifs with h
  · refine ⟨Or.inr, ?_⟩
    rintro (hz | hz)
    · rw [hz] at h
      exact absurd h (by simp)
    · exact hz
  · refine ⟨Or.inl, ?_⟩
    rintro (hz | rfl)
    · exact hz
    · exact BitVec.eq_of_toNat_eq (Nat.le_zero.mp (Nat.not_lt.mp h))

theorem addSample_minVal (k : TsStat) (ts : ThreadStat R) (d : Fin 3) (x : BitVec 64) (k' : TsStat)
    (d' : Fin 3) : ((addSample k ts d x).stat k' d').minVal = 0 ↔
      (ts.stat k' d').minVal = 0 ∨ (if k' = k ∧ d' = d then some x else none) = some 0 := by
  rw [addSample_stat]
  split_ifs
  · rw [addStatSample_minVal, Option.some_inj]
  · simp

theorem addClatSample_stat (ts : ThreadStat R) (d : Fin 3) (usec : BitVec 64) :
    (addClatSample ts d usec).stat = (addSample .clat ts d usec).stat := by
  unfold addClatSample addClatPercentileSample
  dsimp only
  split_ifs <;> rfl

theorem record_minVal (ts : ThreadStat R) (e : StatEvent) (k : TsStat) (d : Fin 3) :
    ((record ts e).stat k d).minVal = 0 ↔ (ts.stat k d).minVal = 0 ∨ e.sample k d = some 0 := by
  have hnone : ∀ {p : Prop}, p ↔ p ∨ (none : Option (BitVec 64)) = some 0 := by simp
  cases e with
  | clat d' usec =>
    rw [record, addClatSample_stat]
    exact addSample_minVal _ _ _ _ _ _
  | slat d' usec => exact addSample_minVal _ _ _ _ _ _
  | lat d' usec => exact addSample_minVal _ _ _ _ _ _
  | bw d' rate => exact addSample_minVal _ _ _ _ _ _
  | latency usec =>
    refine Iff.trans ?_ hnone
    unfold record ioUMarkLatency
    dsimp only
    split_ifs <;> exact Iff.rfl
  | submit nr => exact hnone
  | complete nr => exact hnone
  | depth curDepth nr => exact hnone

theorem recordAll_minVal (k : TsStat) (d : Fin 3) : ∀ (es : List StatEvent) (ts : ThreadStat R),
    ((recordAll ts es).stat k d).minVal = 0 ↔
      (ts.stat k d).minVal = 0 ∨ ∃ e ∈ es, e.sample k d = some 0 := by
  intro es
  induction es with
  | nil => intro ts; simp [recordAll]
  | cons e es ih =>
    intro ts
    have hcons : recordAll ts (e :: es) = recordAll (record ts e) es := rfl
    rw [hcons, ih, record_minVal, or_assoc]
    simp only [List.mem_cons, exists_eq_or_imp]

/-! ## The two runs -/

theorem record_u64 (ts : ThreadStat R) (e : StatEvent) {f : TsU64} (hs : f ≠ .totalSubmit)
    (hc : f ≠ .totalComplete) : (record ts e).u64 f = ts.u64 f := by
  cases e with
  | clat d usec =>
    unfold record addClatSample addClatPercentileSample
    dsimp only
    split_ifs <;> rfl
  | slat d usec => rfl
  | lat d usec => rfl
  | bw d rate => rfl
  | latency usec =>
    unfold record ioUMarkLatency
    dsimp only
    split_ifs <;> rfl
  | submit nr => exact Function.update_of_ne hs _ _
  | complete nr => exact Function.update_of_ne hc _ _
  | depth curDepth nr => rfl

theorem recordAll_u64 {f : TsU64} (hs : f ≠ .totalSubmit) (hc : f ≠ .totalComplete) :
    ∀ (es : List StatEvent) (ts : ThreadStat R), (recordAll ts es).u64 f = ts.u64 f := by
  intro es
  induction es with
  | nil => intro _; rfl
  | cons e es ih => intro ts; exact (ih (record ts e)).trans (record_u64 ts e hs hc)

def skipped {n : Nat} (a : Fin n → BitVec 32) (i : Fin n) : BitVec 32 :=
  if i.val < 7 then 0 else a i

theorem leftOver_reset (percentiles : BitVec 64) (history : List StatEvent) :
    LeftOver (skipped (recordAll (freshStat percentiles : ThreadStat R) history).latU)
      (skipped (recordAll (freshStat percentiles : ThreadStat R) history).latM)
      (resetIoStats (recordAll (freshStat percentiles : ThreadStat R) history))
      (freshStat percentiles) := by
  refine ⟨rfl, fun k hk d => ?_, rfl, fun i => ?_, fun i => ?_, rfl, rfl, funext fun f => ?_⟩
  · unfold freshStat initThreadStat
    dsimp only
    rw [if_neg hk]
    rfl
  · exact (BitVec.zero_add _).symm
  · exact (BitVec.zero_add _).symm
  · unfold resetIoStats
    dsimp only
    split_ifs with hf
    · rcases hf with rfl | rfl <;> rfl
    · rw [not_or] at hf
      exact recordAll_u64 hf.1 hf.2 history _

end Record

/-- Recording after a reset is recording into fresh statistics if and only if every array gets a
sample of zero in every direction, and the history has nothing in the entries of the latency
histograms that the reset skips. The reset sets the minima to zero, which only a sample of zero can
do in fresh statistics, and it clears these histograms with the bound of another one. -/
theorem reset_forgets_iff {R : Type} [Zero R] [One R] [Add R] [Sub R] [Mul R] [Div R] [NatCast R]
    [DecidableEq R] (percentiles : BitVec 64) (history later : List StatEvent) :
    SameStats (recordAll (resetIoStats (recordAll (freshStat percentiles : ThreadStat R) history))
        later)
      (recordAll (freshStat percentiles) later) ↔
    (∀ k, k ≠ .iops → ∀ d, ∃ e ∈ later, e.sample k d = some 0) ∧
      (∀ i : Fin 10, 7 ≤ i.val →
        (recordAll (freshStat percentiles : ThreadStat R) history).latU i = 0) ∧
      ∀ i : Fin 12, 7 ≤ i.val →
        (recordAll (freshStat percentiles : ThreadStat R) history).latM i = 0 := by
  have hskip : ∀ {n : Nat} (a : Fin n → BitVec 32),
      (∀ i, skipped a i = 0) ↔ ∀ i : Fin n, 7 ≤ i.val → a i = 0 := by
    intro n a
    refine forall_congr' fun i => ?_
    unfold skipped
    split_ifs with hi
    · exact ⟨fun _ h7 => absurd hi (Nat.not_lt.mpr h7), fun _ => rfl⟩
    · exact ⟨fun h _ => h, fun h => h (Nat.not_lt.mp hi)⟩
  rw [sameStats_iff_of_leftOver (leftOver_recordAll later (leftOver_reset percentiles history)),
    hskip, hskip]
  refine and_congr_left fun _ => forall_congr' fun k => forall_congr' fun hk =>
    forall_congr' fun d => ?_
  have hfresh : ¬((freshStat percentiles : ThreadStat R).stat k d).minVal = 0 := by
    unfold freshStat initThreadStat
    dsimp only
    rw [if_neg hk]
    exact (by decide : ¬BitVec.allOnes 64 = 0)
  rw [recordAll_minVal, or_iff_right hfresh]

/-- A read with a latency of 400 µs before the reset, and one of 300 µs after it. -/
theorem reset_keeps_minimum :
    let later : List StatEvent := [.clat 0 300, .latency 300]
    let reset := recordAll (resetIoStats (recordAll (freshStat 1 : ThreadStat ℚ)
      [.clat 0 400, .latency 400])) later
    let fresh := recordAll (freshStat 1 : ThreadStat ℚ) later
    (reset.stat .clat 0).minVal = 0 ∧ (fresh.stat .clat 0).minVal = 300 ∧
      reset.latU 7 = 2 ∧ fresh.latU 7 = 1 ∧ ¬SameStats reset fresh := by
  intro later reset fresh
  have hreset : (reset.stat .clat 0).minVal = 0 := by decide +kernel
  have hfresh : (fresh.stat .clat 0).minVal = 300 := by decide +kernel
  refine ⟨hreset, hfresh, by decide +kernel, by decide +kernel, fun hsame => ?_⟩
  rw [hsame.stat, hfresh] at hreset
  exact absurd hreset (by decide)

end MysqlBench.Fio
