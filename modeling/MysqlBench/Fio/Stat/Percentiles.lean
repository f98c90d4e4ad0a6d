import MysqlBench.Fio.Stat.Histogram
import MysqlBench.Lib.Qsort

/-!
# `stat.c` — percentiles of the histogram

`calc_clat_percentiles` sorts the percentages and walks the buckets once. The running sum of the counts
and the index `j` of the next percentage only grow; in each bucket a `while` loop hands out the value
of the bucket as long as the sum reaches the next percentage. Percentages and the products with them are
rational numbers here, where the code has `double`s.

The walk keeps one invariant: what has been handed out belongs to the first percentages
(`Assigned`), and no bucket so far reaches any of the others (`Ahead`). `percWhile_spec` is one bucket and
`percFor_spec` the walk; since the sum ends at the total and no percentage is above 100, nothing is
left over (`percentiles_exact`).
-/

namespace MysqlBench.Fio

open MysqlBench.Lib

/-! ## The code -/

def doubleCmp (fa fb : ℚ) : Int := threeWay fa fb

structure Percentiles where
  ovals : List Nat
  minv : Nat
  maxv : Nat
  isLast : Bool

def Percentiles.record (s : Percentiles) (v : Nat) (isLast : Bool) : Percentiles where
  ovals := s.ovals ++ [v]
  minv := if v < s.minv then v else s.minv
  maxv := if s.maxv < v then v else s.maxv
  isLast := isLast

/-- The `while` loop in bucket `i`, on the percentages from `j` on; nothing if an assertion fails. The
loop stops behind the last percentage, so the list is not empty. -/
def percWhile (nr i sum : Nat) : List ℚ → Percentiles → Option (List ℚ × Percentiles)
  | [], s => some ([], s)
  | p :: ps, s =>
    if p / 100 * nr ≤ sum then
      if p ≤ 100 then
        (platIdxToVal i).bind fun v =>
          if ps.isEmpty then some ([], s.record v true)
          else percWhile nr i sum ps (s.record v false)
      else none
    else some (p :: ps, s)

def percFor (nr : Nat) : List (BitVec 32) → Nat → Nat → List ℚ → Percentiles → Option Percentiles
  | [], _, _, _, s => some s
  | c :: cs, i, sum, ps, s =>
    if s.isLast then some s
    else (percWhile nr i ((sum + c.toNat) % 2 ^ 64) ps s).bind fun r =>
      percFor nr cs (i + 1) ((sum + c.toNat) % 2 ^ 64) r.1 r.2

/-- `calc_clat_percentiles`: the length it returns, and what it leaves in its arguments. -/
def calcClatPercentiles (qsort : Qsort ℚ) (ioUPlat : List (BitVec 32)) (nr : Nat) (plist : List ℚ) :
    Option (Nat × Percentiles) :=
  let s : Percentiles := ⟨[], 2 ^ 32 - 1, 0, false⟩
  let ps := (plist.take 20).takeWhile (· ≠ 0)
  if ps.length = 0 then some (0, s)
  else
    let sorted := if 1 < ps.length then qsort.sort doubleCmp ps else ps
    (percFor nr ioUPlat 0 0 sorted s).map fun s => (ps.length, s)

/-! ## What a percentile is -/

def cumulative (ioUPlat : List (BitVec 32)) (i : Nat) : Nat :=
  ((ioUPlat.take (i + 1)).map BitVec.toNat).sum

structure BucketOf (ioUPlat : List (BitVec 32)) (nr : Nat) (p : ℚ) (i : Nat) : Prop where
  lt : i < 1216
  reached : p / 100 * nr ≤ cumulative ioUPlat i
  first : ∀ k < i, (cumulative ioUPlat k : ℚ) < p / 100 * nr

def PercentileOf (ioUPlat : List (BitVec 32)) (nr : Nat) (p : ℚ) (v : Nat) : Prop :=
  ∃ i, BucketOf ioUPlat nr p i ∧ platIdxToVal i = some v

structure MinMax (ovals : List Nat) (minv maxv : Nat) : Prop where
  bound : ∀ v ∈ ovals, minv ≤ v ∧ v ≤ maxv
  attained : ovals ≠ [] → minv ∈ ovals ∧ maxv ∈ ovals

/-! ## The least and the greatest value -/

theorem MinMax.record {s : Percentiles} {v : Nat} (hv : v < 2 ^ 32) (isLast : Bool)
    (h : MinMax s.ovals s.minv s.maxv) (hempty : s.ovals = [] → s.minv = 2 ^ 32 - 1 ∧ s.maxv = 0) :
    MinMax (s.record v isLast).ovals (s.record v isLast).minv (s.record v isLast).maxv := by
  unfold Percentiles.record
  constructor
  · intro w hw
    rcases List.mem_append.mp hw with hw | hw
    · have := h.bound w hw
      dsimp only
      split_ifs <;> omega
    · rw [List.mem_singleton.mp hw]
      dsimp only
      split_ifs <;> omega
  · intro _
    dsimp only
    by_cases hnil : s.ovals = []
    · obtain ⟨hmin, hmax⟩ := hempty hnil
      simp only [hnil, hmin, hmax, List.nil_append, List.mem_singleton]
      split_ifs <;> omega
    · obtain ⟨hmin, hmax⟩ := h.attained hnil
      split_ifs <;> simp [hmin, hmax]

/-! ## The walk -/

section Walk

variable {ioUPlat : List (BitVec 32)} {nr : Nat}

structure Assigned (ioUPlat : List (BitVec 32)) (nr : Nat) (done : List ℚ) (s : Percentiles) :
    Prop where
  values : List.Forall₂ (PercentileOf ioUPlat nr) done s.ovals
  minMax : MinMax s.ovals s.minv s.maxv
  empty : s.ovals = [] → s.minv = 2 ^ 32 - 1 ∧ s.maxv = 0

def Ahead (ioUPlat : List (BitVec 32)) (nr i : Nat) (ps : List ℚ) : Prop :=
  ∀ p ∈ ps, ∀ k < i, (cumulative ioUPlat k : ℚ) < p / 100 * nr

theorem platIdxToVal_lt {i v : Nat} (h : platIdxToVal i = some v) : v < 2 ^ 32 := by
  have hi : i < 1216 := by
    by_contra hge
    rw [platIdxToVal, if_neg hge] at h
    exact absurd h (by simp)
  obtain ⟨r, hr, hlt, -⟩ := platIdxToVal_range hi
  rw [h, Option.some.injEq] at hr
  rw [hr]
  exact hlt

theorem Assigned.record {done : List ℚ} {s : Percentiles} {p : ℚ} {v : Nat}
    (h : Assigned ioUPlat nr done s) (hv : PercentileOf ioUPlat nr p v) (isLast : Bool) :
    Assigned ioUPlat nr (done ++ [p]) (s.record v isLast) where
  values := List.rel_append h.values (List.Forall₂.cons hv List.Forall₂.nil)
  minMax := by
    obtain ⟨i, -, hi⟩ := hv
    exact h.minMax.record (platIdxToVal_lt hi) isLast h.empty
  empty hnil := absurd hnil (by simp [Percentiles.record])

theorem Ahead.succ {i : Nat} {p : ℚ} {ps : List ℚ} (h : Ahead ioUPlat nr i (p :: ps))
    (hsorted : (p :: ps).Pairwise (· ≤ ·)) (hp : (cumulative ioUPlat i : ℚ) < p / 100 * nr) :
    Ahead ioUPlat nr (i + 1) (p :: ps) := by
  intro r hr k hk
  rcases Nat.lt_succ_iff_lt_or_eq.mp hk with hlt | rfl
  · exact h r hr k hlt
  · have hpr : p ≤ r := by
      rcases List.mem_cons.mp hr with rfl | hr
      · exact le_rfl
      · exact (List.pairwise_cons.mp hsorted).1 r hr
    calc (cumulative ioUPlat k : ℚ) < p / 100 * nr := hp
      _ ≤ r / 100 * nr := by gcongr

/-- **One bucket.** The loop hands out its value for the percentages that the sum reaches now. -/
theorem percWhile_spec {i : Nat} (hi : i < 1216) (ps : List ℚ) (hne : ps ≠ [])
    (hsorted : ps.Pairwise (· ≤ ·)) (hle : ∀ p ∈ ps, p ≤ 100) (hahead : Ahead ioUPlat nr i ps)
    (done : List ℚ) (s : Percentiles) (hs : Assigned ioUPlat nr done s) (hlast : s.isLast = false) :
    ∃ rest s' taken, percWhile nr i (cumulative ioUPlat i) ps s = some (rest, s') ∧
      ps = taken ++ rest ∧ Assigned ioUPlat nr (done ++ taken) s' ∧
      Ahead ioUPlat nr (i + 1) rest ∧ (s'.isLast = true ↔ rest = []) := by
  induction ps generalizing done s with
  | nil => exact absurd rfl hne
  | cons p ps ih =>
    rw [percWhile]
    by_cases hreach : p / 100 * nr ≤ cumulative ioUPlat i
    · -- `p` is reached in this bucket and, by `Ahead`, in none before it
      obtain ⟨v, hv, -⟩ := platIdxToVal_range hi
      have hperc : PercentileOf ioUPlat nr p v :=
        ⟨i, ⟨hi, hreach, hahead p List.mem_cons_self⟩, hv⟩
      rw [if_pos hreach, if_pos (hle p List.mem_cons_self), hv, Option.bind_some]
      cases ps with
      | nil =>
        refine ⟨[], s.record v true, [p], rfl, rfl, hs.record hperc true, ?_, by
          simp [Percentiles.record]⟩
        intro r hr
        exact absurd hr List.not_mem_nil
      | cons q ps =>
        rw [List.isEmpty_cons, if_neg Bool.false_ne_true]
        obtain ⟨rest, s', taken, hrun, htaken, hassigned, hrest⟩ := ih (List.cons_ne_nil q ps)
          (List.pairwise_cons.mp hsorted).2 (fun r hr => hle r (List.mem_cons_of_mem p hr))
          (fun r hr => hahead r (List.mem_cons_of_mem p hr)) _ _ (hs.record hperc false) rfl
        refine ⟨rest, s', p :: taken, hrun, by rw [htaken, List.cons_append], ?_, hrest⟩
        rw [List.append_assoc] at hassigned
        exact hassigned
    · -- the others are not below `p`, so they are ahead of this bucket as well
      rw [if_neg hreach]
      refine ⟨p :: ps, s, [], rfl, rfl, ?_, hahead.succ hsorted (not_le.mp hreach), ?_⟩
      · rw [List.append_nil]
        exact hs
      · simp [hlast]

theorem cumulative_lt {ioUPlat : List (BitVec 32)} (hlen : ioUPlat.length ≤ 1216) (i : Nat) :
    cumulative ioUPlat i < 2 ^ 64 := by
  have hsum : cumulative ioUPlat i ≤ (ioUPlat.take (i + 1)).length * 2 ^ 32 := by
    rw [cumulative, ← List.length_map BitVec.toNat, ← smul_eq_mul]
    apply List.sum_le_card_nsmul
    intro c hc
    obtain ⟨b, -, rfl⟩ := List.mem_map.mp hc
    exact b.isLt.le
  have htake : (ioUPlat.take (i + 1)).length ≤ 1216 := by
    rw [List.length_take]
    omega
  omega

/-- **The walk** from bucket `i` on: nothing that the last bucket reaches is left over. -/
theorem percFor_spec (hlen : ioUPlat.length = 1216) (cs : List (BitVec 32)) (i : Nat)
    (hcs : ioUPlat.drop i = cs) (hi : i + cs.length = 1216) (ps : List ℚ)
    (hsorted : ps.Pairwise (· ≤ ·)) (hle : ∀ p ∈ ps, p ≤ 100) (hahead : Ahead ioUPlat nr i ps)
    (done : List ℚ) (s : Percentiles) (hs : Assigned ioUPlat nr done s)
    (hlast : s.isLast = true ↔ ps = []) :
    ∃ s' rest taken, percFor nr cs i ((ioUPlat.take i).map BitVec.toNat).sum ps s = some s' ∧
      ps = taken ++ rest ∧ Assigned ioUPlat nr (done ++ taken) s' ∧
      Ahead ioUPlat nr 1216 rest := by
  induction cs generalizing i ps done s with
  | nil =>
    obtain rfl : i = 1216 := by simpa using hi
    refine ⟨s, ps, [], rfl, rfl, ?_, hahead⟩
    rw [List.append_nil]
    exact hs
  | cons c cs ih =>
    have hilt : i < ioUPlat.length := by
      rw [List.length_cons] at hi
      omega
    rw [List.drop_eq_getElem_cons hilt, List.cons.injEq] at hcs
    -- the sum of the counts does not wrap
    have hsum : (((ioUPlat.take i).map BitVec.toNat).sum + c.toNat) % 2 ^ 64 =
        cumulative ioUPlat i := by
      have hcum : ((ioUPlat.take i).map BitVec.toNat).sum + c.toNat = cumulative ioUPlat i := by
        rw [cumulative, List.take_add_one, List.getElem?_eq_getElem hilt, hcs.1]
        simp
      rw [hcum, Nat.mod_eq_of_lt (cumulative_lt hlen.le i)]
    rw [percFor]
    by_cases hnil : ps = []
    · rw [if_pos (hlast.mpr hnil)]
      refine ⟨s, [], [], rfl, hnil, ?_, fun r hr => absurd hr List.not_mem_nil⟩
      rw [List.append_nil]
      exact hs
    · rw [if_neg (mt hlast.mp hnil), hsum]
      obtain ⟨rest, s', taken, hrun, htaken, hassigned, hrest, hend⟩ := percWhile_spec
        (hlen ▸ hilt) ps hnil hsorted hle hahead done s hs (by simpa [hnil] using hlast)
      rw [htaken] at hsorted hle
      obtain ⟨s'', rest', taken', hfor, htaken', hfinal⟩ := ih (i + 1) hcs.2
        (by rw [List.length_cons] at hi; omega) rest (List.pairwise_append.mp hsorted).2.1
        (fun p hp => hle p (List.mem_append_right _ hp)) hrest _ s' hassigned hend
      refine ⟨s'', rest', taken ++ taken', ?_, ?_, ?_⟩
      · rw [hrun, Option.bind_some]
        exact hfor
      · rw [htaken, htaken', List.append_assoc]
      · rw [← List.append_assoc]
        exact hfinal

end Walk

/-! ## The percentiles -/

theorem takeWhile_percentages {ps : List ℚ} (hps : ∀ p ∈ ps, 0 < p ∧ p ≤ 100) (hlen : ps.length ≤ 20) :
    ((ps ++ List.replicate (20 - ps.length) 0).take 20).takeWhile (· ≠ 0) = ps := by
  rw [List.take_of_length_le (by simp [hlen])]
  rw [List.takeWhile_append_of_pos (fun p hp => by simpa using (hps p hp).1.ne')]
  cases 20 - ps.length <;> simp [List.replicate_succ]

theorem sorted_percentages (qsort : Qsort ℚ) (ps : List ℚ) :
    (if 1 < ps.length then qsort.sort doubleCmp ps else ps).Perm ps ∧
      (if 1 < ps.length then qsort.sort doubleCmp ps else ps).Pairwise (· ≤ ·) := by
  split
  · refine ⟨qsort.perm _ _, (qsort.ordered doubleCmp ps consistent_threeWay).imp ?_⟩
    intro a b h
    exact threeWay_nonpos.mp h
  · rename_i hlen
    refine ⟨List.Perm.refl ps, ?_⟩
    match ps with
    | [] => exact List.Pairwise.nil
    | [p] => exact List.pairwise_singleton _ p
    | p :: q :: ps =>
      simp only [List.length_cons] at hlen
      omega

/-- **Percentiles are exact on the histogram.** Each percentage gets its value, in the order of the
sorted percentages, and the least and the greatest of the values are noted. -/
theorem percentiles_exact (qsort : Qsort ℚ) (plat : Fin 1216 → BitVec 32) (nr : Nat)
    (hnr : ((List.ofFn plat).map BitVec.toNat).sum = nr) (ps : List ℚ)
    (hps : ∀ p ∈ ps, 0 < p ∧ p ≤ 100) (hlen : ps.length ≤ 20) :
    ∃ sorted s, sorted.Perm ps ∧ sorted.Pairwise (· ≤ ·) ∧
      calcClatPercentiles qsort (List.ofFn plat) nr (ps ++ List.replicate (20 - ps.length) 0) =
        some (ps.length, s) ∧
      s.ovals.length = ps.length ∧ List.Forall₂ (PercentileOf (List.ofFn plat) nr) sorted s.ovals ∧
      MinMax s.ovals s.minv s.maxv := by
  unfold calcClatPercentiles
  dsimp only
  rw [takeWhile_percentages hps hlen]
  by_cases hnil : ps = []
  · subst hnil
    exact ⟨[], _, List.Perm.refl _, List.Pairwise.nil, rfl, rfl, List.Forall₂.nil,
      ⟨fun v hv => absurd hv List.not_mem_nil, fun h => absurd rfl h⟩⟩
  rw [if_neg (by simpa using hnil)]
  obtain ⟨hperm, hsorted⟩ := sorted_percentages qsort ps
  generalize (if 1 < ps.length then qsort.sort doubleCmp ps else ps) = sorted at hperm hsorted ⊢
  have hsome : sorted ≠ [] := by
    intro h
    rw [h, List.nil_perm] at hperm
    exact hnil hperm
  have hle : ∀ p ∈ sorted, p ≤ 100 := fun p hp => (hps p (hperm.mem_iff.mp hp)).2
  have hstart : Assigned (List.ofFn plat) nr [] ⟨[], 2 ^ 32 - 1, 0, false⟩ :=
    ⟨List.Forall₂.nil, ⟨fun v hv => absurd hv List.not_mem_nil, fun h => absurd rfl h⟩,
      fun _ => ⟨rfl, rfl⟩⟩
  obtain ⟨s, rest, taken, hrun, htaken, hassigned, hahead⟩ := percFor_spec List.length_ofFn
    (List.ofFn plat) 0 List.drop_zero (by rw [Nat.zero_add, List.length_ofFn]) sorted hsorted hle
    (fun p _ k hk => absurd hk (Nat.not_lt_zero k)) [] _ hstart
    (by simpa using hsome)
  -- the last bucket holds the total, and no percentage asks for more
  have hall : cumulative (List.ofFn plat) 1215 = nr := by
    rw [cumulative, List.take_of_length_le List.length_ofFn.le, hnr]
  have hrest : rest = [] := by
    cases rest with
    | nil => rfl
    | cons p rest =>
      have hlt := hahead p List.mem_cons_self 1215 (by decide)
      have hp : p ≤ 100 := hle p (by rw [htaken]; simp)
      rw [hall] at hlt
      have hbound : p / 100 * nr ≤ 1 * nr := by
        apply mul_le_mul_of_nonneg_right _ (Nat.cast_nonneg nr)
        rw [div_le_one (by norm_num)]
        exact hp
      linarith
  rw [hrest, List.append_nil] at htaken
  rw [List.nil_append, ← htaken] at hassigned
  refine ⟨sorted, s, hperm, hsorted, ?_, ?_, hassigned.values, hassigned.minMax⟩
  · rw [List.take_zero, List.map_nil, List.sum_nil] at hrun
    rw [hrun, Option.map_some]
  · rw [← hassigned.values.length_eq, hperm.length_eq]

def fiveSamples (i : Fin 1216) : BitVec 32 := if i.val = 3 then 4 else if i.val = 200 then 1 else 0

theorem sum_fiveSamples : ((List.ofFn fiveSamples).map BitVec.toNat).sum = 5 := by
  have hsplit : ∀ i, (BitVec.toNat ∘ fiveSamples) i =
      (if i = ⟨3, by decide⟩ then 4 else 0) + if i = ⟨200, by decide⟩ then 1 else 0 := by
    intro i
    simp only [Function.comp_apply, fiveSamples, Fin.ext_iff]
    split_ifs with h3 h200
    · omega
    · rfl
    · rfl
    · rfl
  rw [List.map_ofFn, List.sum_ofFn, Finset.sum_congr rfl fun i _ => hsplit i, Finset.sum_add_distrib,
    Finset.sum_ite_eq', Finset.sum_ite_eq', if_pos (Finset.mem_univ _), if_pos (Finset.mem_univ _)]

/-- Three percentages, out of order. -/
theorem percentiles_exact_five : ((List.ofFn fiveSamples).map BitVec.toNat).sum = 5 ∧
    ∃ sorted s, sorted.Perm [100, 50, 80] ∧ sorted.Pairwise (· ≤ ·) ∧
      calcClatPercentiles (Qsort.mergeSort ℚ) (List.ofFn fiveSamples) 5
        ([100, 50, 80] ++ List.replicate (20 - [(100 : ℚ), 50, 80].length) 0) =
        some ([(100 : ℚ), 50, 80].length, s) ∧
      s.ovals.length = [(100 : ℚ), 50, 80].length ∧
      List.Forall₂ (PercentileOf (List.ofFn fiveSamples) 5) sorted s.ovals ∧
      MinMax s.ovals s.minv s.maxv :=
  ⟨sum_fiveSamples, percentiles_exact (Qsort.mergeSort ℚ) fiveSamples 5 sum_fiveSamples [100, 50, 80]
    (by norm_num) (by decide)⟩

end MysqlBench.Fio
