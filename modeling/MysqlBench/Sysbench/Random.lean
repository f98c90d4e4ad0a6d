import MysqlBench.Lib.Pratt
import MysqlBench.Lib.Progression
import MysqlBench.Sysbench.Fileio.Model

/-!
# Random numbers (`sysbench.c`)

The distributions, on the numbers that `sb_rnd` draws, and the generator of unique numbers. The
arguments are `int`s, the settings of the distributions are `unsigned int`s, and every operation is done
in the type that C gives it.

The distributions stay in their range (`random_in_range_iff`), except that the special one answers 0 for
a range of one number. The unique numbers walk through the residues of their range in steps of a prime
that is larger than the range (`sb_rand_uniq_enumerates`).
-/

namespace MysqlBench.Sysbench

open MysqlBench.Lib

def sbMaxRnd : Nat := 0x3fffffff

def uint32 (x : Int) : Nat := (x % 2 ^ 32).toNat

theorem uint32_eq {x : Int} (hlo : 0 ≤ x) (hhi : x < 2 ^ 32) : uint32 x = x.toNat := by
  rw [uint32, Int.emod_eq_of_lt hlo hhi]

/-! ## Distributions -/

structure RandSettings where
  iter : Nat
  pct : Nat
  res : Nat

def sbRandUniform (a b : Int) (r : Nat) : Int := int32 (a + Int.tmod r (int32 (b - a + 1)))

def sumDraws (t : Nat) : Nat → (Nat → Nat) → Int → Int
  | 0, _, sum => sum
  | n + 1, draws, sum => sumDraws t n (fun i => draws (i + 1)) (int32 (sum + (draws 0 % t : Nat)))

def meanFrom (a : Int) (iter : Nat) (sum : Int) : Int := int32 (a + (uint32 sum / iter : Nat))

def sbRandGaussian (s : RandSettings) (a b : Int) (draws : Nat → Nat) : Int :=
  meanFrom a s.iter (sumDraws (uint32 (b - a + 1)) s.iter draws 0)

def sbRandSpecial (s : RandSettings) (a b : Int) (draws : Nat → Nat) : Int :=
  if b ≤ a then 0
  else
    let t := uint32 (b - a + 1)
    let rangeSize := t * (100 / uint32 (100 - s.res)) % 2 ^ 32
    let res := draws 0 % rangeSize
    if res < t then meanFrom a s.iter (sumDraws t s.iter (fun i => draws (i + 1)) 0)
    else
      let d := t * s.pct % 2 ^ 32 / 100
      let d := if d < 1 then 1 else d
      let shift := uint32 ((t / 2 : Nat) - (t * s.pct % 2 ^ 32 / (100 * 2) : Nat))
      int32 (a + ((res % d + shift) % 2 ^ 32 : Nat))

structure RangeFits (s : RandSettings) (a b : Int) : Prop where
  lo : -2 ^ 31 ≤ a
  hi : b < 2 ^ 31
  ordered : a ≤ b
  iter : 1 ≤ s.iter
  pct : 1 ≤ s.pct ∧ s.pct ≤ 100
  res : s.res ≤ 99
  sums : (b - a + 1) * s.iter < 2 ^ 31
  products : (b - a + 1) * 100 < 2 ^ 32

section Ranges

variable {s : RandSettings} {a b : Int}

theorem sumDraws_bounds {t : Nat} (ht : 0 < t) (n : Nat) (draws : Nat → Nat) {sum : Int}
    (hsum : 0 ≤ sum) (hfit : sum + t * n < 2 ^ 31) :
    0 ≤ sumDraws t n draws sum ∧ sumDraws t n draws sum ≤ sum + (t - 1) * n := by
  induction n generalizing draws sum with
  | zero => exact ⟨hsum, by simp [sumDraws]⟩
  | succ n ih =>
    have hlt := Nat.mod_lt (draws 0) ht
    have hn : (0 : Int) ≤ t * n := by positivity
    push_cast at hfit
    rw [Int.mul_add, Int.mul_one] at hfit
    have hstep : int32 (sum + (draws 0 % t : Nat)) = sum + (draws 0 % t : Nat) :=
      int32_eq (by omega) (by omega)
    rw [sumDraws, hstep]
    obtain ⟨hlo, hhi⟩ := ih (fun i => draws (i + 1)) (show 0 ≤ sum + (draws 0 % t : Nat) by omega)
      (by omega)
    refine ⟨hlo, hhi.trans ?_⟩
    push_cast
    rw [Int.mul_add, Int.mul_one]
    omega

theorem meanFrom_inRange (h : RangeFits s a b) (draws : Nat → Nat) :
    meanFrom a s.iter (sumDraws (uint32 (b - a + 1)) s.iter draws 0) ∈ Set.Icc a b := by
  have hlo := h.lo
  have hhi := h.hi
  have hord := h.ordered
  have hiter := h.iter
  have hprod := h.products
  have ht : uint32 (b - a + 1) = (b - a + 1).toNat := uint32_eq (by omega) (by omega)
  have htcast : ((b - a + 1).toNat : Int) = b - a + 1 := Int.toNat_of_nonneg (by omega)
  rw [ht]
  obtain ⟨hsum0, hsum⟩ := sumDraws_bounds (t := (b - a + 1).toNat) (by omega) s.iter draws
    (le_refl (0 : Int)) (by rw [htcast, Int.zero_add]; exact h.sums)
  generalize sumDraws (b - a + 1).toNat s.iter draws 0 = sum at hsum0 hsum
  rw [htcast, Int.zero_add, Int.add_sub_cancel] at hsum
  have hle : (b - a) * s.iter ≤ (b - a + 1) * s.iter := by
    apply Int.mul_le_mul_of_nonneg_right <;> omega
  have hsums := h.sums
  have hmean : ((uint32 sum / s.iter : Nat) : Int) ≤ b - a := by
    rw [uint32_eq hsum0 (by omega), Int.natCast_ediv, Int.toNat_of_nonneg hsum0]
    exact Int.ediv_le_of_le_mul (by omega) hsum
  have hmean0 : (0 : Int) ≤ (uint32 sum / s.iter : Nat) := Int.natCast_nonneg _
  unfold meanFrom
  generalize ((uint32 sum / s.iter : Nat) : Int) = mean at hmean hmean0
  rw [int32_eq (by omega) (by omega), Set.mem_Icc]
  omega

theorem sbRandUniform_inRange (h : RangeFits s a b) (r : Nat) : sbRandUniform a b r ∈ Set.Icc a b := by
  have hlo := h.lo
  have hhi := h.hi
  have hord := h.ordered
  have hprod := h.products
  have hn : int32 (b - a + 1) = b - a + 1 := int32_eq (by omega) (by omega)
  unfold sbRandUniform
  rw [hn, Int.tmod_eq_emod_of_nonneg (Int.natCast_nonneg r)]
  have hmod0 := Int.emod_nonneg (r : Int) (show b - a + 1 ≠ 0 by omega)
  have hmod := Int.emod_lt_of_pos (r : Int) (show 0 < b - a + 1 by omega)
  rw [int32_eq (by omega) (by omega), Set.mem_Icc]
  omega

theorem sbRandGaussian_inRange (h : RangeFits s a b) (draws : Nat → Nat) :
    sbRandGaussian s a b draws ∈ Set.Icc a b := meanFrom_inRange h draws

theorem special_lt {t pct x : Nat} (ht : 2 ≤ t) (hpct : pct ≤ 100) :
    x % (if t * pct / 100 < 1 then 1 else t * pct / 100) + (t / 2 - t * pct / 200) < t ∧
      t * pct / 200 ≤ t / 2 := by
  have hle : t * pct ≤ t * 100 := Nat.mul_le_mul_left t hpct
  have hd : 0 < if t * pct / 100 < 1 then 1 else t * pct / 100 := by
    split_ifs <;> omega
  have hmod := Nat.mod_lt x hd
  split_ifs at hmod ⊢ <;> omega

theorem sbRandSpecial_inRange (h : RangeFits s a b) (hlt : a < b) (draws : Nat → Nat) :
    sbRandSpecial s a b draws ∈ Set.Icc a b := by
  have hlo := h.lo
  have hhi := h.hi
  have hprod := h.products
  have hpct := h.pct
  unfold sbRandSpecial
  rw [if_neg (by omega)]
  dsimp only
  split
  · exact meanFrom_inRange h _
  · have ht : uint32 (b - a + 1) = (b - a + 1).toNat := uint32_eq (by omega) (by omega)
    have htcast : ((b - a + 1).toNat : Int) = b - a + 1 := Int.toNat_of_nonneg (by omega)
    generalize draws 0 % (uint32 (b - a + 1) * (100 / uint32 (100 - s.res)) % 2 ^ 32) = x
    rw [ht]
    generalize (b - a + 1).toNat = t at htcast
    have hsmall : t * s.pct % 2 ^ 32 = t * s.pct := by
      apply Nat.mod_eq_of_lt
      have := Nat.mul_le_mul_left t hpct.2
      omega
    obtain ⟨hbound, hsub⟩ := @special_lt t s.pct x (by omega) hpct.2
    rw [hsmall, show 100 * 2 = 200 from rfl]
    rw [show ((t / 2 : Nat) : Int) - (t * s.pct / 200 : Nat) = ((t / 2 - t * s.pct / 200 : Nat) : Int) by
      omega, uint32_eq (by omega) (by omega), Int.toNat_natCast, Nat.mod_eq_of_lt (by omega)]
    rw [int32_eq (by omega) (by omega), Set.mem_Icc]
    omega

end Ranges

/-- **Random numbers stay in their range**, but for the special distribution on a range of one number,
which is 0 whatever the number is. -/
theorem random_in_range_iff (s : RandSettings) (a b : Int) (h : RangeFits s a b) (draws : Nat → Nat) :
    (sbRandUniform a b (draws 0) ∈ Set.Icc a b ∧ sbRandGaussian s a b draws ∈ Set.Icc a b ∧
      sbRandSpecial s a b draws ∈ Set.Icc a b) ↔ a < b ∨ a = 0 := by
  constructor
  · intro hall
    by_contra hcon
    push Not at hcon
    have hspecial := hall.2.2
    rw [sbRandSpecial, if_pos hcon.1] at hspecial
    have hord := h.ordered
    rw [Set.mem_Icc] at hspecial
    omega
  · intro hcond
    refine ⟨sbRandUniform_inRange h _, sbRandGaussian_inRange h draws, ?_⟩
    by_cases hlt : a < b
    · exact sbRandSpecial_inRange h hlt draws
    · have hord := h.ordered
      rw [sbRandSpecial, if_pos (by omega), Set.mem_Icc]
      omega

/-- The default settings, on the numbers from 1 to 10. -/
theorem random_in_range_ten : RangeFits ⟨12, 1, 75⟩ 1 10 ∧
    (sbRandUniform 1 10 123456789 ∈ Set.Icc 1 10 ∧
      sbRandGaussian ⟨12, 1, 75⟩ 1 10 (fun _ => 123456789) ∈ Set.Icc 1 10 ∧
      sbRandSpecial ⟨12, 1, 75⟩ 1 10 (fun _ => 123456789) ∈ Set.Icc 1 10) := by
  have hfits : RangeFits ⟨12, 1, 75⟩ 1 10 := by constructor <;> decide
  exact ⟨hfits, (random_in_range_iff _ 1 10 hfits fun _ => 123456789).mpr (by decide)⟩

/-- From 5 to 5, the special distribution gives 0. -/
theorem special_leaves_range : RangeFits ⟨12, 1, 75⟩ 5 5 ∧
    sbRandSpecial ⟨12, 1, 75⟩ 5 5 (fun _ => 0) = 0 ∧
    ¬sbRandSpecial ⟨12, 1, 75⟩ 5 5 (fun _ => 0) ∈ Set.Icc 5 5 := by
  refine ⟨by constructor <;> decide, rfl, fun h => ?_⟩
  exact absurd h.1 (by decide)

/-! ## Unique numbers -/

def largePrime : Nat := 2147483647

def largePrimeCert : List PrattEntry :=
  [⟨3, 2, [2]⟩, ⟨5, 2, [2, 2]⟩, ⟨7, 3, [2, 3]⟩, ⟨11, 2, [2, 5]⟩, ⟨31, 3, [2, 3, 5]⟩,
    ⟨151, 6, [2, 3, 5, 5]⟩, ⟨331, 3, [2, 3, 5, 11]⟩, ⟨largePrime, 7, [2, 3, 3, 7, 11, 31, 151, 331]⟩]

theorem largePrime_prime : largePrime.Prime := by
  have hcheck : prattCheck [2] largePrimeCert = true := by decide +kernel
  refine prattCheck_sound (fun q hq => ?_) hcheck ⟨largePrime, 7, [2, 3, 3, 7, 11, 31, 151, 331]⟩
    (by simp [largePrimeCert])
  rw [List.mem_singleton] at hq
  exact hq ▸ Nat.prime_two

/-- `sb_rand_uniq` with `rnd_seed`: the answer and the next seed. The divisor is converted to the type
of the seed. -/
def sbRandUniq (a b : Int) (rndSeed : Nat) : Int × Nat :=
  let res := int32 (rndSeed % (int32 (b - a + 1) % 2 ^ 64).toNat % 2 ^ 32 : Nat)
  (int32 (res + a), (rndSeed + largePrime) % 2 ^ 64)

/-- A call of `sb_rand_uniq` by a thread. The mutex makes each call one step, so an interleaving of the
threads is a list of calls. -/
structure UniqCall (T : Type) where
  thread : T
  a : Int
  b : Int

variable {T : Type}

def uniqStep (run : List Int × Nat) (c : UniqCall T) : List Int × Nat :=
  ((sbRandUniq c.a c.b run.2).1 :: run.1, (sbRandUniq c.a c.b run.2).2)

def uniqRun (calls : List (UniqCall T)) (rndSeed : Nat) : List Int × Nat :=
  calls.foldl uniqStep ([], rndSeed)

theorem sbRandUniq_seed (a b : Int) (seed : Nat) :
    (sbRandUniq a b seed).2 = (seed + largePrime) % 2 ^ 64 := rfl

theorem sbRandUniq_answer {a b : Int} (hlo : -2 ^ 31 ≤ a) (hhi : b < 2 ^ 31) (hab : a ≤ b)
    (hn : b - a + 1 < 2 ^ 31) (seed : Nat) :
    (sbRandUniq a b seed).1 = a + (seed % (b - a + 1).toNat : Nat) := by
  have hlt : seed % (b - a + 1).toNat < (b - a + 1).toNat := Nat.mod_lt _ (by omega)
  have hdiv : (int32 (b - a + 1) % 2 ^ 64).toNat = (b - a + 1).toNat := by
    rw [int32_eq (by omega) hn, Int.emod_eq_of_lt (by omega) (by omega)]
  have hres : int32 (seed % (b - a + 1).toNat : Nat) = (seed % (b - a + 1).toNat : Nat) :=
    int32_eq (by omega) (by omega)
  unfold sbRandUniq
  dsimp only
  rw [hdiv, Nat.mod_eq_of_lt (b := 2 ^ 32) (by omega), hres, int32_eq (by omega) (by omega)]
  omega

theorem next_multiple {p k m : Nat} (h : (k + 1 + m) * p < 2 ^ 64) :
    (k * p + p) % 2 ^ 64 = (k + 1) * p := by
  rw [← Nat.succ_mul]
  exact Nat.mod_eq_of_lt (Nat.lt_of_le_of_lt (Nat.mul_le_mul_right p (Nat.le_add_right _ _)) h)

theorem seed_eq (calls : List (UniqCall T)) (answers : List Int) (k : Nat)
    (h : (k + calls.length) * largePrime < 2 ^ 64) :
    (calls.foldl uniqStep (answers, k * largePrime)).2 = (k + calls.length) * largePrime := by
  induction calls generalizing answers k with
  | nil => rw [List.foldl_nil, List.length_nil, Nat.add_zero]
  | cons c calls ih =>
    have hlen : k + (c :: calls).length = k + 1 + calls.length := by
      rw [List.length_cons]
      omega
    rw [hlen] at h
    rw [List.foldl_cons, uniqStep, sbRandUniq_seed, next_multiple h, hlen, ih _ (k + 1) h]

/-- The answers are the residues of the multiples of the prime, if the seed of the last call has not
wrapped. -/
theorem answers_eq {a b : Int} (hlo : -2 ^ 31 ≤ a) (hhi : b < 2 ^ 31) (hab : a ≤ b)
    (hn : b - a + 1 < 2 ^ 31) (ts : List T) (answers : List Int) (k : Nat)
    (h : (k + ts.length) * largePrime < 2 ^ 64 + largePrime) :
    ((ts.map fun t => UniqCall.mk t a b).foldl uniqStep (answers, k * largePrime)).1 =
      ((List.range ts.length).map fun i =>
        a + ((k * largePrime + i * largePrime) % (b - a + 1).toNat : Nat)).reverse ++ answers := by
  induction ts generalizing answers k with
  | nil => simp
  | cons t ts ih =>
    cases ts with
    | nil => simp [uniqStep, sbRandUniq_answer hlo hhi hab hn]
    | cons t' rest =>
      have hlen : k + (t :: t' :: rest).length = k + 1 + (t' :: rest).length := by
        rw [List.length_cons]
        omega
      have hnext : (k + 1 + rest.length) * largePrime < 2 ^ 64 := by
        rw [hlen, List.length_cons, ← Nat.add_assoc, Nat.succ_mul] at h
        omega
      have hshift : ∀ i, (k + 1) * largePrime + i * largePrime =
          k * largePrime + (i + 1) * largePrime := by
        intro i
        rw [← Nat.add_mul, ← Nat.add_mul, Nat.add_right_comm, Nat.add_assoc]
      rw [hlen] at h
      rw [List.map_cons, List.foldl_cons, uniqStep, sbRandUniq_seed, next_multiple hnext,
        ih _ (k + 1) h, sbRandUniq_answer hlo hhi hab hn, @List.length_cons _ t, List.range_succ_eq_map,
        List.map_cons, List.map_map, List.reverse_cons, List.append_assoc, List.singleton_append]
      simp only [hshift, Function.comp_def, Nat.succ_eq_add_one, Nat.zero_mul, Nat.add_zero]

/-- **Unique numbers enumerate their range.** After any calls, by whichever threads, `n` more calls
for a range of `n` numbers answer each of them once, if no seed they use has wrapped. -/
theorem sb_rand_uniq_enumerates (a b : Int) (hlo : -2 ^ 31 ≤ a) (hhi : b < 2 ^ 31) (hab : a ≤ b)
    (hn : b - a + 1 < 2147483647) (before : List (UniqCall T)) (ts : List T)
    (hlen : (ts.length : Int) = b - a + 1)
    (hwrap : (before.length + ts.length) * largePrime < 2 ^ 64) :
    (uniqRun (ts.map fun t => UniqCall.mk t a b) (uniqRun before largePrime).2).1.Perm
      ((List.range (b - a + 1).toNat).map fun i : Nat => a + (i : Int)) := by
  have hts : ts.length = (b - a + 1).toNat := by omega
  have hseed : (uniqRun before largePrime).2 = (1 + before.length) * largePrime := by
    have hle := Nat.mul_le_mul_right largePrime
      (show 1 + before.length ≤ before.length + ts.length by omega)
    have h := seed_eq before [] 1 (Nat.lt_of_le_of_lt hle hwrap)
    rwa [Nat.one_mul] at h
  have hlast : (1 + before.length + ts.length) * largePrime < 2 ^ 64 + largePrime := by
    rw [Nat.add_assoc, Nat.add_comm 1, Nat.succ_mul]
    exact Nat.add_lt_add_right hwrap _
  rw [hseed, uniqRun, answers_eq hlo hhi hab (by omega) ts [] _ hlast, List.append_nil, hts]
  refine (List.reverse_perm _).trans ?_
  -- the prime does not divide the smaller number of the range, so the multiples meet every residue
  have hcop : Nat.Coprime (b - a + 1).toNat largePrime :=
    Nat.Coprime.symm (Nat.coprime_of_lt_prime (by omega) (by unfold largePrime; omega) largePrime_prime)
  have hperm := (progression_perm hcop ((1 + before.length) * largePrime)).map fun i : Nat => a + (i : Int)
  rwa [List.map_map] at hperm

/-- Two threads draw the numbers from 5 to 7. -/
theorem sb_rand_uniq_three :
    (uniqRun ([true, false, true].map fun t => UniqCall.mk t 5 7)
      (uniqRun [UniqCall.mk false 1 10] largePrime).2).1.Perm
        ((List.range 3).map fun i : Nat => 5 + (i : Int)) :=
  sb_rand_uniq_enumerates 5 7 (by decide) (by decide) (by decide) (by decide) [UniqCall.mk false 1 10]
    [true, false, true] rfl (by unfold largePrime; decide)

end MysqlBench.Sysbench
