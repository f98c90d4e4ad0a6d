import MysqlBench.Fio.Lfsr.Taps

/-!
# The register of `lib/lfsr.c` as a Galois register

With the states complemented, `__LFSR_NEXT` is the step of the Galois register whose flipped bits
are the row's taps: the code feeds back the complement of the bit that falls out, and the state it
can never leave is all ones instead of zero. So the code's register has one orbit, of all the
other states.
-/

namespace MysqlBench.Fio

open MysqlBench.Lib

def complement (n v : Nat) : Nat := 2 ^ n - (v + 1)

variable {n : Nat} {v : BitVec 64} {fl : FioLfsr}

theorem complement_lt (n v : Nat) : complement n v < 2 ^ n := by
  have := Nat.two_pow_pos n
  unfold complement
  omega

theorem complement_inj {u v : Nat} (hu : u < 2 ^ n) (hv : v < 2 ^ n)
    (h : complement n u = complement n v) : u = v := by
  unfold complement at h
  omega

theorem complement_ne_zero {v : Nat} (hne : v < 2 ^ n - 1) : complement n v ≠ 0 := by
  unfold complement
  omega

theorem testBit_complement {v : Nat} (hv : v < 2 ^ n) (i : Nat) :
    (complement n v).testBit i = (decide (i < n) && !v.testBit i) :=
  Nat.testBit_two_pow_sub_succ hv i

/-! ## One step -/

theorem getLsbD_feedback (v x : BitVec 64) (i : Nat) :
    (((v &&& 1#64) - 1#64) &&& x).getLsbD i = (!v.getLsbD 0 && x.getLsbD i) := by
  have hlow : v &&& 1#64 = if v.getLsbD 0 then 1#64 else 0#64 := by
    refine BitVec.eq_of_getLsbD_eq fun j _ => ?_
    rw [BitVec.getLsbD_and, BitVec.getLsbD_one]
    cases j with
    | zero => cases h : v.getLsbD 0 <;> rfl
    | succ j => cases v.getLsbD 0 <;> simp [BitVec.getLsbD_one]
  rw [hlow]
  cases v.getLsbD 0 with
  | true => simp
  | false =>
    show ((0#64 - 1#64) &&& x).getLsbD i = x.getLsbD i
    rw [show (0#64 - 1#64 : BitVec 64) = BitVec.allOnes 64 from rfl, BitVec.allOnes_and]

structure FioLfsr.Width (n : Nat) (fl : FioLfsr) : Prop where
  low : 3 ≤ n
  high : n ≤ 63
  cachedBit : fl.cachedBit = 1#64 <<< (n - 1)
  xormask : fl.xormask.toNat = tapMask n

theorem testBit_lfsrStep (h : fl.Width n) (v : BitVec 64)
    (i : Nat) : (lfsrStep fl v).toNat.testBit i
      = ((v.toNat.testBit (i + 1) || decide (i = n - 1)) ^^
          (!v.toNat.testBit 0 && (tapMask n).testBit i)) := by
  have hn := h.low
  have hn' := h.high
  have htop : (1#64 <<< (n - 1)).getLsbD i = decide (i = n - 1) := by
    rw [show (1#64 <<< (n - 1) : BitVec 64) = runMask 64 (n - 1) 1 from rfl, getLsbD_runMask]
    exact decide_eq_decide.mpr (by omega)
  rw [← h.xormask]
  simp only [BitVec.testBit_toNat]
  rw [lfsrStep, BitVec.getLsbD_xor, getLsbD_feedback, BitVec.getLsbD_or, h.cachedBit, htop,
    BitVec.getLsbD_ushiftRight, Nat.add_comm 1 i]

theorem lfsrStep_lt (h : fl.Width n)
    (hv : v.toNat < 2 ^ n) : (lfsrStep fl v).toNat < 2 ^ n := by
  have hn := h.low
  have hmask := (taps_maximal h.low h.high).2.1
  have hclear : ∀ {x i : Nat}, x < 2 ^ n → n ≤ i → x.testBit i = false := fun hx hi =>
    Nat.testBit_lt_two_pow (Nat.lt_of_lt_of_le hx (Nat.pow_le_pow_right (by decide) hi))
  refine Nat.lt_pow_two_of_testBit _ fun i hi => ?_
  rw [testBit_lfsrStep h v i, hclear hv (by omega), hclear hmask hi, decide_eq_false (by omega)]
  simp

theorem testBit_digit_mul (w m i : Nat) :
    ((w &&& 1) * m).testBit i = (w.testBit 0 && m.testBit i) := by
  rw [Nat.and_one_is_mod, Nat.testBit_zero]
  rcases Nat.mod_two_eq_zero_or_one w with h | h <;> simp [h]

/-- **The code's step is the Galois step of the complemented state.** -/
theorem lfsrStep_complement (h : fl.Width n)
    (hv : v.toNat < 2 ^ n) :
    complement n (lfsrStep fl v).toNat = galoisStep (tapMask n) (complement n v.toNat) := by
  have hn := h.low
  have hn' := h.high
  refine Nat.eq_of_testBit_eq fun i => ?_
  rw [galoisStep_eq, Nat.testBit_xor, Nat.testBit_shiftRight, testBit_digit_mul,
    testBit_complement hv, testBit_complement hv, testBit_complement (lfsrStep_lt h hv),
    decide_eq_true (show 0 < n by omega), Bool.true_and, Nat.add_comm 1 i]
  rcases Nat.lt_or_ge i n with hi | hi
  · rw [testBit_lfsrStep h v i, decide_eq_true hi, Bool.true_and]
    have htop : decide (i + 1 < n) = !decide (i = n - 1) := by
      rw [← decide_not]
      exact decide_eq_decide.mpr (by omega)
    rw [htop, ← Bool.not_or, Bool.or_comm (decide _), Bool.not_xor]
  · rw [decide_eq_false (show ¬ i < n by omega), decide_eq_false (show ¬ i + 1 < n by omega),
      Nat.testBit_lt_two_pow (Nat.lt_of_lt_of_le (taps_maximal h.low h.high).2.1
        (Nat.pow_le_pow_right (by decide) hi))]
    simp

/-! ## Many steps -/

theorem lfsrStep_iterate (h : fl.Width n)
    (hv : v.toNat < 2 ^ n) (k : Nat) :
    ((lfsrStep fl)^[k] v).toNat < 2 ^ n ∧
      complement n ((lfsrStep fl)^[k] v).toNat
        = (galoisStep (tapMask n))^[k] (complement n v.toNat) := by
  induction k with
  | zero => exact ⟨hv, rfl⟩
  | succ k ih =>
    rw [Function.iterate_succ_apply', Function.iterate_succ_apply', ← ih.2]
    exact ⟨lfsrStep_lt h ih.1, lfsrStep_complement h ih.1⟩

/-- Two counts of steps lead to the same state when they are congruent modulo the period, and
only then. -/
theorem lfsrStep_iterate_eq_iff (h : fl.Width n)
    (hv : v.toNat < 2 ^ n - 1) {i j : Nat} :
    ((lfsrStep fl)^[i] v).toNat = ((lfsrStep fl)^[j] v).toNat ↔
      i % (2 ^ n - 1) = j % (2 ^ n - 1) := by
  have hlt : v.toNat < 2 ^ n := by omega
  have hper := (taps_maximal h.low h.high).2.2 _ (complement_lt n v.toNat) (complement_ne_zero hv)
  rw [← iterate_eq_iff hper (by omega), ← (lfsrStep_iterate h hlt i).2,
    ← (lfsrStep_iterate h hlt j).2]
  constructor
  · intro he
    rw [he]
  · exact complement_inj (lfsrStep_iterate h hlt i).1 (lfsrStep_iterate h hlt j).1

theorem lfsrStep_iterate_lt (h : fl.Width n)
    (hv : v.toNat < 2 ^ n - 1) (k : Nat) : ((lfsrStep fl)^[k] v).toNat < 2 ^ n - 1 := by
  have hlt : v.toNat < 2 ^ n := by omega
  have hper := (taps_maximal h.low h.high).2.2 _ (complement_lt n v.toNat) (complement_ne_zero hv)
  obtain ⟨hk, hc⟩ := lfsrStep_iterate h hlt k
  by_contra hge
  -- all ones is complemented to zero
  have hzero : (galoisStep (tapMask n))^[k] (complement n v.toNat) = 0 := by
    rw [← hc, show ((lfsrStep fl)^[k] v).toNat = 2 ^ n - 1 by omega]
    unfold complement
    omega
  exact galoisStep_iterate_ne_zero (by omega) (complement_ne_zero hv) k hzero

end MysqlBench.Fio
