import MysqlBench.Fio.Lfsr.Register

/-!
# The generator hands out every value once

A round of `lfsr_next` steps the register `spin + 1` times. If that count is prime to the period,
the rounds visit every state; if not, `prepare_spin` has computed the length of the cycle they
would fall into, and one step more at its end moves them to the next coset. From the end of a cycle
(`AtBoundary`) both cases are `c + tile (spin + 1) L j` steps after `j + 1` rounds, for a constant
`c` (`lfsrRound_iterate`), so a period of rounds shows every legal state once, whatever the first
round did. `Fio/Lfsr/Reset.lean` says what happens from elsewhere.

`lfsr_next` skips the states past `max_val`. Since the calls only ever filter the sequence of
rounds (`lfsrCalls_filter`), they hand out the values that are left, in some order.
-/

namespace MysqlBench.Fio

open MysqlBench.Lib

/-! ## The cycle length -/

variable {max s spin : Nat} {fl : FioLfsr} {L n : Nat} {seed : BitVec 64} {nums : Nat}

/-- `y * i` is a multiple of the stride `s` exactly when `max * i` is, that is when `i` is a
multiple of `s / gcd`. -/
theorem spin_dvd_iff {i : Nat} (hs : 0 < s) :
    max % s * i % s = 0 ↔ s / max.gcd s ∣ i := by
  rw [Nat.mod_mul_mod, ← Nat.dvd_iff_mod_eq_zero]
  have hg : 0 < max.gcd s := Nat.gcd_pos_of_pos_right max hs
  have hcop : (s / max.gcd s).Coprime (max / max.gcd s) :=
    (Nat.coprime_div_gcd_div_gcd hg).symm
  constructor
  · intro h
    have h' : max.gcd s * (s / max.gcd s) ∣ max.gcd s * (max / max.gcd s * i) := by
      rw [← Nat.mul_assoc, Nat.mul_div_cancel' (Nat.gcd_dvd_left max s),
        Nat.mul_div_cancel' (Nat.gcd_dvd_right max s)]
      exact h
    exact hcop.dvd_of_dvd_mul_left (Nat.dvd_of_mul_dvd_mul_left hg h')
  · rintro ⟨c, rfl⟩
    refine ⟨max / max.gcd s * c, ?_⟩
    calc max * (s / max.gcd s * c)
        = max.gcd s * (max / max.gcd s) * (s / max.gcd s * c) := by
          rw [Nat.mul_div_cancel' (Nat.gcd_dvd_left max s)]
      _ = max.gcd s * (s / max.gcd s) * (max / max.gcd s * c) := by ring
      _ = s * (max / max.gcd s * c) := by rw [Nat.mul_div_cancel' (Nat.gcd_dvd_right max s)]

theorem spin_quotient (hs : 0 < s) :
    max / s * (s / max.gcd s) + max % s * (s / max.gcd s) / s = max / max.gcd s := by
  have hg : 0 < max.gcd s := Nat.gcd_pos_of_pos_right max hs
  have hsum : s * (max / s * (s / max.gcd s)) + max % s * (s / max.gcd s)
      = s * (max / max.gcd s) := by
    calc s * (max / s * (s / max.gcd s)) + max % s * (s / max.gcd s)
        = (s * (max / s) + max % s) * (s / max.gcd s) := by ring
      _ = max * (s / max.gcd s) := by rw [Nat.div_add_mod]
      _ = max.gcd s * (max / max.gcd s) * (s / max.gcd s) := by
          rw [Nat.mul_div_cancel' (Nat.gcd_dvd_left max s)]
      _ = max.gcd s * (s / max.gcd s) * (max / max.gcd s) := by ring
      _ = s * (max / max.gcd s) := by rw [Nat.mul_div_cancel' (Nat.gcd_dvd_right max s)]
  rw [← Nat.mul_add_div hs, hsum, Nat.mul_div_cancel_left _ hs]

theorem spinCycle_loop : ∀ (n i : Nat), i + n = spin + 1 → 0 < i →
    i ≤ (spin + 1) / max.gcd (spin + 1) →
    spinCycle (max / (spin + 1)) (max % (spin + 1)) spin n i
      = if (spin + 1) / max.gcd (spin + 1) ≤ spin then max / max.gcd (spin + 1) else 0 := by
  intro n
  induction n with
  | zero =>
    intro i hi _ hle
    rw [if_neg (by omega)]
    rfl
  | succ n ih =>
    intro i hi hpos hle
    rw [spinCycle]
    by_cases hdvd : (spin + 1) / max.gcd (spin + 1) ∣ i
    · obtain rfl : i = (spin + 1) / max.gcd (spin + 1) :=
        Nat.le_antisymm hle (Nat.le_of_dvd hpos hdvd)
      rw [if_pos ((spin_dvd_iff (by omega)).mpr hdvd), if_pos (by omega)]
      exact spin_quotient (by omega)
    · rw [if_neg (fun h => hdvd ((spin_dvd_iff (by omega)).mp h))]
      refine ih (i + 1) (by omega) (by omega) ?_
      rcases Nat.lt_or_eq_of_le hle with h | h
      · exact h
      · exact absurd (h ▸ Nat.dvd_refl i) hdvd

theorem spinCycle_eq (max spin : Nat) :
    spinCycle (max / (spin + 1)) (max % (spin + 1)) spin spin 1
      = if max.gcd (spin + 1) = 1 then 0 else max / max.gcd (spin + 1) := by
  have hg : 0 < max.gcd (spin + 1) := Nat.gcd_pos_of_pos_right max (by omega)
  have hle : max.gcd (spin + 1) ≤ spin + 1 := Nat.gcd_le_right max (by omega)
  rw [spinCycle_loop spin 1 (by omega) (by omega) (Nat.div_pos hle hg)]
  by_cases h1 : max.gcd (spin + 1) = 1
  · rw [if_pos h1, if_neg (by rw [h1, Nat.div_one]; omega)]
  · have : (spin + 1) / max.gcd (spin + 1) < spin + 1 := Nat.div_lt_self (by omega) (by omega)
    rw [if_pos (by omega), if_neg h1]

/-! ## Rounds -/

def FioLfsr.advanced (fl : FioLfsr) (p c : Nat) : FioLfsr :=
  { fl with lastVal := (lfsrStep fl)^[p] fl.lastVal, cycleLength := c }

@[simp] theorem FioLfsr.advanced_cycleLength (fl : FioLfsr) (p c : Nat) :
    (fl.advanced p c).cycleLength = c := rfl

theorem lfsrNextSpin_advanced (hspin : spin ≤ 15) (p c : Nat) :
    lfsrNextSpin (fl.advanced p c) spin = fl.advanced (p + (spin + 1)) c := by
  have hsteps : (lfsrStep fl)^[p + (spin + 1)] fl.lastVal
      = (lfsrStep fl)^[spin + 1] ((lfsrStep fl)^[p] fl.lastVal) := by
    rw [Nat.add_comm, Function.iterate_add_apply]
  unfold FioLfsr.advanced
  rw [lfsrNextSpin, if_pos hspin, hsteps]
  rfl

theorem lfsrRound_regular (hspin : fl.spin ≤ 15) {p c : Nat} (hc : c ≠ 1) :
    lfsrRound (fl.advanced p c) = fl.advanced (p + (fl.spin + 1)) (c - 1) := by
  rw [lfsrRound, FioLfsr.advanced_cycleLength]
  by_cases h0 : c = 0
  · subst h0
    rw [if_pos rfl]
    exact lfsrNextSpin_advanced hspin p 0
  · rw [if_neg h0, if_neg (show ¬ c - 1 = 0 by omega), ← lfsrNextSpin_advanced hspin]
    rfl

def lastSteps (spin : Nat) : Nat := if spin < 15 then spin + 2 else 0

theorem lfsrRound_last (fl : FioLfsr) (p : Nat) :
    lfsrRound (fl.advanced p 1) = fl.advanced (p + lastSteps fl.spin) fl.cachedCycleLength := by
  rw [lfsrRound, lastSteps, FioLfsr.advanced_cycleLength, if_neg (show ¬ (1 : Nat) = 0 by decide),
    if_pos (show (1 : Nat) - 1 = 0 from rfl)]
  show { lfsrNextSpin (fl.advanced p 1) (fl.spin + 1) with
    cycleLength := fl.cachedCycleLength } = _
  by_cases h : fl.spin < 15
  · rw [if_pos h, lfsrNextSpin_advanced (by omega)]
    rfl
  · rw [if_neg h, lfsrNextSpin, if_neg (by omega)]
    rfl

/-- A round of a cycle of length `L` that has made `i` of its rounds: the last of each cycle takes a
step more. -/
theorem lfsrRound_tile (hspin : fl.spin < 15) (hL : 0 < L)
    (hc : fl.cachedCycleLength = L) (a i : Nat) :
    lfsrRound (fl.advanced (a + tile (fl.spin + 1) L i) (L - i % L))
      = fl.advanced (a + tile (fl.spin + 1) L (i + 1)) (L - (i + 1) % L) := by
  have hr : i % L < L := Nat.mod_lt i hL
  have hi : L * (i / L) + (i % L + 1) = i + 1 := by
    rw [← Nat.add_assoc, Nat.div_add_mod]
  have hdiv : (i + 1) / L = i / L + (i % L + 1) / L := by rw [← hi, Nat.mul_add_div hL]
  have hmod : (i + 1) % L = (i % L + 1) % L := by rw [← hi, Nat.mul_add_mod]
  unfold tile
  rw [hdiv, hmod]
  by_cases hlast : i % L + 1 = L
  · rw [show L - i % L = 1 by omega, lfsrRound_last, hc, hlast, Nat.div_self hL, Nat.mod_self,
      Nat.sub_zero, lastSteps, if_pos hspin]
    congr 1
    rw [Nat.add_mul]
    omega
  · have hlt : i % L + 1 < L := by omega
    rw [lfsrRound_regular (by omega) (by omega), Nat.div_eq_of_lt hlt, Nat.mod_eq_of_lt hlt]
    congr 1
    rw [Nat.add_mul]
    omega

theorem lfsrRound_cycle (hspin : fl.spin < 15) (hL : 0 < L)
    (hc : fl.cachedCycleLength = L) (a i j : Nat) :
    lfsrRound^[j] (fl.advanced (a + tile (fl.spin + 1) L i) (L - i % L))
      = fl.advanced (a + tile (fl.spin + 1) L (i + j)) (L - (i + j) % L) := by
  induction j with
  | zero => rfl
  | succ j ih => rw [Function.iterate_succ_apply', ih, lfsrRound_tile hspin hL hc, Nat.add_assoc]

theorem lfsrRound_free (hspin : fl.spin ≤ 15) (a j : Nat) :
    lfsrRound^[j] (fl.advanced a 0) = fl.advanced (a + j * (fl.spin + 1)) 0 := by
  induction j with
  | zero => rw [Nat.zero_mul, Nat.add_zero]; rfl
  | succ j ih =>
    rw [Function.iterate_succ_apply', ih, lfsrRound_regular hspin (by decide), Nat.add_mul,
      Nat.one_mul, Nat.add_assoc]

structure FioLfsr.Ready (n spin : Nat) (fl : FioLfsr) : Prop extends fl.Width n where
  legal : fl.lastVal.toNat < 2 ^ n - 1
  spin_eq : fl.spin = spin
  spin_le : spin ≤ 15
  cached : fl.cachedCycleLength =
    if (2 ^ n - 1).gcd (spin + 1) = 1 then 0 else (2 ^ n - 1) / (2 ^ n - 1).gcd (spin + 1)
  cycle : fl.cycleLength = fl.cachedCycleLength + 1

theorem gcd_sixteen (hn : 0 < n) : (2 ^ n - 1).gcd 16 = 1 := by
  have hodd : Odd (2 ^ n - 1) := by
    refine Nat.Even.sub_odd (Nat.one_le_two_pow) ?_ odd_one
    exact (Nat.even_pow.mpr ⟨even_two, by omega⟩)
  exact (Nat.Coprime.pow_right 4 hodd.coprime_two_right)

structure FioLfsr.Running (n spin : Nat) (fl : FioLfsr) : Prop extends fl.Width n where
  spin_eq : fl.spin = spin
  spin_le : spin ≤ 15
  cached : fl.cachedCycleLength =
    if (2 ^ n - 1).gcd (spin + 1) = 1 then 0 else (2 ^ n - 1) / (2 ^ n - 1).gcd (spin + 1)
  cycle_le : fl.cycleLength ≤ fl.cachedCycleLength + 1
  cycle_pos : fl.cachedCycleLength ≠ 0 → fl.cycleLength ≠ 0

def FioLfsr.AtBoundary (fl : FioLfsr) : Prop :=
  fl.cachedCycleLength = 0 ∨ fl.cycleLength = 1 ∨ fl.cycleLength = fl.cachedCycleLength + 1

theorem FioLfsr.Ready.running (h : fl.Ready n spin) :
    fl.Running n spin :=
  { h.toWidth with
    spin_eq := h.spin_eq
    spin_le := h.spin_le
    cached := h.cached
    cycle_le := Nat.le_of_eq h.cycle
    cycle_pos := fun _ => by rw [h.cycle]; omega }

def strideLength (n spin : Nat) : Nat := (2 ^ n - 1) / (2 ^ n - 1).gcd (spin + 1)

theorem strideLength_pos (hn : 3 ≤ n) (spin : Nat) : 0 < strideLength n spin := by
  have h8 : 2 ^ 3 ≤ 2 ^ n := Nat.pow_le_pow_right (by decide) hn
  exact Nat.div_pos (Nat.gcd_le_left _ (by omega)) (Nat.gcd_pos_of_pos_left _ (by omega))

theorem FioLfsr.Running.spin_lt (h : fl.Running n spin)
    (hg : (2 ^ n - 1).gcd (spin + 1) ≠ 1) : spin < 15 := by
  rcases Nat.lt_or_eq_of_le h.spin_le with hlt | heq
  · exact hlt
  · rw [heq] at hg
    exact absurd (gcd_sixteen (Nat.lt_of_lt_of_le (by decide) h.low)) hg

theorem lfsrRound_iterate (h : fl.Running n spin)
    (hb : fl.AtBoundary) :
    ∃ c, ∀ j, j < 2 ^ n - 1 → (lfsrRound^[j + 1] fl).lastVal
      = (lfsrStep fl)^[c + tile (spin + 1) (strideLength n spin) j] fl.lastVal := by
  have hfl : ∀ c, fl.cycleLength = c → fl = fl.advanced 0 c := fun c hc => by
    rw [← hc]
    rfl
  obtain rfl := h.spin_eq
  have hspin := h.spin_le
  by_cases hg : (2 ^ n - 1).gcd (fl.spin + 1) = 1
  · have hc : fl.cachedCycleLength = 0 := by rw [h.cached, if_pos hg]
    have htile : ∀ j, j < 2 ^ n - 1 →
        tile (fl.spin + 1) (strideLength n fl.spin) j = j * (fl.spin + 1) := fun j hj => by
      rw [strideLength, hg, Nat.div_one, tile, Nat.div_eq_of_lt hj, Nat.add_zero]
    have hle := h.cycle_le
    rw [hc] at hle
    -- with no cycle only the increment of `prepare_spin` can be left
    rcases Nat.lt_or_eq_of_le hle with h0 | h1
    · refine ⟨fl.spin + 1, fun j hj => ?_⟩
      rw [htile j hj]
      conv_lhs =>
        rw [hfl 0 (by omega), Function.iterate_succ_apply, lfsrRound_regular hspin (by decide),
          lfsrRound_free hspin, Nat.zero_add]
      rfl
    · refine ⟨lastSteps fl.spin, fun j hj => ?_⟩
      rw [htile j hj]
      conv_lhs =>
        rw [hfl 1 h1, Function.iterate_succ_apply, lfsrRound_last, hc, lfsrRound_free hspin,
          Nat.zero_add]
      rfl
  · have hc : fl.cachedCycleLength = strideLength n fl.spin := by
      rw [h.cached, if_neg hg, strideLength]
    have hlt := h.spin_lt hg
    have hpos := strideLength_pos h.low fl.spin
    have hcycle : ∀ a j, lfsrRound^[j] (fl.advanced a (strideLength n fl.spin))
        = fl.advanced (a + tile (fl.spin + 1) (strideLength n fl.spin) j)
          (strideLength n fl.spin - j % strideLength n fl.spin) := fun a j => by
      have hrun := lfsrRound_cycle hlt hpos hc a 0 j
      simpa [tile] using hrun
    rcases hb with h0 | h1 | hfull
    · omega
    · refine ⟨fl.spin + 2, fun j _ => ?_⟩
      conv_lhs =>
        rw [hfl 1 h1, Function.iterate_succ_apply, lfsrRound_last, lastSteps, if_pos hlt, hc,
          hcycle, Nat.zero_add]
      rfl
    · refine ⟨fl.spin + 1, fun j _ => ?_⟩
      rw [hc] at hfull
      conv_lhs =>
        rw [hfl _ hfull, Function.iterate_succ_apply, lfsrRound_regular (by omega) (by omega),
          Nat.add_sub_cancel, hcycle, Nat.zero_add]
      rfl

/-! ## The sequence of rounds, and what the calls take from it -/

def Shows : FioLfsr → List Nat → Prop
  | _, [] => True
  | fl, v :: vs => (lfsrRound fl).lastVal.toNat = v ∧ Shows (lfsrRound fl) vs

theorem shows_iterate : ∀ (m : Nat) (fl : FioLfsr),
    Shows fl ((List.range m).map fun j => (lfsrRound^[j + 1] fl).lastVal.toNat) := by
  intro m
  induction m with
  | zero => intro fl; exact trivial
  | succ m ih =>
    intro fl
    rw [List.range_succ_eq_map, List.map_cons, List.map_map]
    exact ⟨rfl, ih (lfsrRound fl)⟩

theorem lfsrRound_numVals (fl : FioLfsr) (k : Nat) :
    lfsrRound { fl with numVals := k } = { lfsrRound fl with numVals := k } := by
  unfold lfsrRound lfsrNextSpin
  dsimp only
  split
  · split <;> rfl
  · split
    · split <;> rfl
    · split <;> rfl

theorem Shows.numVals (k : Nat) : ∀ {vs : List Nat}, Shows fl vs →
    Shows { fl with numVals := k } vs := by
  intro vs
  induction vs generalizing fl with
  | nil => intro _; exact trivial
  | cons v vs ih =>
    rintro ⟨hv, hvs⟩
    rw [Shows, lfsrRound_numVals]
    exact ⟨hv, ih hvs⟩

theorem lfsrRound_maxVal (fl : FioLfsr) :
    (lfsrRound fl).maxVal = fl.maxVal ∧ (lfsrRound fl).numVals = fl.numVals := by
  unfold lfsrRound lfsrNextSpin
  split
  · split <;> exact ⟨rfl, rfl⟩
  · split
    · split <;> exact ⟨rfl, rfl⟩
    · split <;> exact ⟨rfl, rfl⟩

theorem lfsrLoop_skip : ∀ (skip : List Nat) (fuel : Nat) {v : Nat} {fl : FioLfsr} {vs : List Nat},
    Shows fl (skip ++ v :: vs) → (∀ u ∈ skip, fl.maxVal < u) → v ≤ fl.maxVal →
    skip.length < fuel →
    ∃ fl', lfsrLoop fuel fl = some fl' ∧ fl'.lastVal.toNat = v ∧ Shows fl' vs ∧
      fl'.maxVal = fl.maxVal ∧ fl'.numVals = fl.numVals := by
  intro skip
  induction skip with
  | nil =>
    intro fuel v fl vs hshow _ hv hfuel
    obtain ⟨fuel, rfl⟩ := Nat.exists_eq_add_of_lt hfuel
    obtain ⟨hval, hrest⟩ := hshow
    refine ⟨lfsrRound fl, ?_, hval, hrest, lfsrRound_maxVal fl⟩
    rw [lfsrLoop, if_neg (by omega)]
  | cons u skip ih =>
    intro fuel v fl vs hshow hskip hv hfuel
    obtain ⟨fuel, rfl⟩ := Nat.exists_eq_add_of_lt hfuel
    obtain ⟨hval, hrest⟩ := hshow
    obtain ⟨hmax, hnum⟩ := lfsrRound_maxVal fl
    have hu : fl.maxVal < u := hskip u (by simp)
    rw [lfsrLoop, if_pos (by omega), ← hmax, ← hnum]
    refine ih _ hrest (fun x hx => ?_) (by omega) (by simp only [List.length_cons]; omega)
    rw [hmax]
    exact hskip x (by simp [hx])

/-- **The calls filter the rounds**: as many calls as there are values in range among those the
next rounds show return exactly these, in their order. -/
theorem lfsrCalls_filter (fuel : Nat) : ∀ (out : List Nat) {fl : FioLfsr} {vs : List Nat},
    Shows fl vs → vs.filter (fun v => decide (v ≤ fl.maxVal)) = out → vs.length < fuel →
    fl.numVals + out.length ≤ fl.maxVal + 1 → fl.maxVal + 1 < 2 ^ 64 →
    ∃ fl', lfsrCalls fuel out.length fl = some (out, fl') ∧
      fl'.maxVal = fl.maxVal ∧ fl'.numVals = fl.numVals + out.length := by
  intro out
  induction out with
  | nil => intro fl vs _ _ _ _ _; exact ⟨fl, rfl, rfl, rfl⟩
  | cons v out ih =>
    intro fl vs hshow hfilter hfuel hnum hmax
    obtain ⟨skip, rest, rfl, hskip, hv, hrest⟩ := List.filter_eq_cons_iff.mp hfilter
    simp only [List.length_append, List.length_cons] at hfuel hnum
    obtain ⟨fl', hloop, hval, hshow', hmax', hnum'⟩ :=
      lfsrLoop_skip skip fuel (hshow.numVals ((fl.numVals + 1) % 2 ^ 64))
        (fun u hu => by simpa using hskip u hu) (by simpa using hv) (by omega)
    have hnum'' : fl'.numVals = fl.numVals + 1 := hnum'.trans (Nat.mod_eq_of_lt (by omega))
    have hmax'' : fl'.maxVal = fl.maxVal := hmax'
    obtain ⟨fl'', hcalls, hmax3, hnum3⟩ := ih hshow' (by rw [hmax'']; exact hrest) (by omega)
      (by omega) (by omega)
    refine ⟨fl'', ?_, hmax3.trans hmax'', ?_⟩
    · rw [List.length_cons, lfsrCalls, lfsrNext, if_neg (by omega), hloop]
      simp only [Option.map_some, hcalls, hval]
    · rw [hnum3, hnum'', List.length_cons]
      omega

theorem rounds_perm (h : fl.Running n spin) (hb : fl.AtBoundary)
    (hlegal : fl.lastVal.toNat < 2 ^ n - 1) :
    ((List.range (2 ^ n - 1)).map fun j => (lfsrRound^[j + 1] fl).lastVal.toNat).Perm
      (List.range (2 ^ n - 1)) := by
  obtain ⟨c, hc⟩ := lfsrRound_iterate h hb
  have hpos : 0 < 2 ^ n - 1 := Nat.lt_of_le_of_lt (Nat.zero_le _) hlegal
  -- different rounds show different numbers, and there are as many rounds as numbers
  have hinj : ∀ i, i < 2 ^ n - 1 → ∀ j, j < 2 ^ n - 1 →
      (lfsrRound^[i + 1] fl).lastVal.toNat = (lfsrRound^[j + 1] fl).lastVal.toNat → i = j := by
    intro i hi j hj he
    rw [hc i hi, hc j hj, lfsrStep_iterate_eq_iff h.toWidth hlegal] at he
    exact tile_injOn hpos hi hj (Nat.ModEq.add_left_cancel' c he)
  refine (List.perm_ext_iff_of_nodup ?_ List.nodup_range).mpr fun v => ?_
  · exact List.Nodup.map_on (fun i hi j hj => hinj i (List.mem_range.mp hi) j (List.mem_range.mp hj))
      List.nodup_range
  · rw [List.mem_range, List.mem_map]
    constructor
    · rintro ⟨j, hj, rfl⟩
      rw [hc j (List.mem_range.mp hj)]
      exact lfsrStep_iterate_lt h.toWidth hlegal _
    · intro hv
      obtain ⟨k, hk, hkv⟩ := surj_of_card (S := Finset.range (2 ^ n - 1)) (Finset.card_range _)
        (g := fun j => (lfsrRound^[j + 1] fl).lastVal.toNat)
        (fun k hk => by
          rw [Finset.mem_range]
          show (lfsrRound^[k + 1] fl).lastVal.toNat < _
          rw [hc k hk]
          exact lfsrStep_iterate_lt h.toWidth hlegal _)
        (fun i hi j hj => hinj i hi j hj) (Finset.mem_range.mpr hv)
      exact ⟨k, List.mem_range.mpr hk, hkv⟩

/-! ## Initialisation -/

theorem findLfsrLoop_some {size : Nat} : ∀ (n i : Nat) {row : List Nat},
    findLfsrLoop size n i = some row →
    ∃ k, i ≤ k ∧ k < i + n ∧ size < 2 ^ k ∧ (i < k → 2 ^ (k - 1) ≤ size) ∧
      row = taps.getD k [] := by
  intro n
  induction n with
  | zero => intro i row h; exact absurd h (by simp [findLfsrLoop])
  | succ n ih =>
    intro i row h
    rw [findLfsrLoop] at h
    split at h
    · rename_i hlt
      exact ⟨i, Nat.le_refl i, by omega, hlt, fun hi => absurd hi (Nat.lt_irrefl i),
        (Option.some.inj h).symm⟩
    · rename_i hge
      obtain ⟨k, h1, h2, h3, hmin, h4⟩ := ih (i + 1) h
      refine ⟨k, by omega, by omega, h3, fun _ => ?_, h4⟩
      -- either the next width is taken, or it was too small as well
      rcases Nat.lt_or_eq_of_le h1 with hlt | rfl
      · exact hmin hlt
      · exact Nat.le_of_not_lt hge

theorem toNat_bitmask (h3 : 3 ≤ n) (h63 : n ≤ 63) :
    ((1#64 <<< (n - 1)) <<< 1 - 1#64 : BitVec 64).toNat = 2 ^ n - 1 := by
  have h : ∀ i : Fin 64, 3 ≤ i.val →
      ((1#64 <<< (i.val - 1)) <<< 1 - 1#64 : BitVec 64).toNat = 2 ^ i.val - 1 := by decide
  exact h ⟨n, by omega⟩ h3

theorem lfsrReset_legal (h : (lfsrReset fl seed).2 = 0) :
    (lfsrReset fl seed).1.lastVal.toNat < fl.bitmask.toNat := by
  have hle : (seed &&& fl.bitmask).toNat ≤ fl.bitmask.toNat := by
    rw [BitVec.toNat_and]
    exact Nat.and_le_right
  refine Nat.lt_of_le_of_ne hle fun he => ?_
  have hfull : seed &&& fl.bitmask = fl.bitmask := BitVec.eq_of_toNat_eq he
  exact absurd h (by simp [lfsrReset, hfull])

/-- A struct that `lfsr_init` accepts, whatever it held before. The register is the smallest one
that is large enough, of at least three bits. -/
theorem lfsrInit_ready {fl₀ : FioLfsr}
    (h : (lfsrInit fl₀ nums seed spin).2 = 0) :
    ∃ n, (lfsrInit fl₀ nums seed spin).1.Ready n spin ∧ nums ≤ 2 ^ n - 1 ∧
      (3 < n → 2 ^ (n - 1) ≤ nums) ∧
      (lfsrInit fl₀ nums seed spin).1.maxVal = usub 64 nums 1 ∧
      (lfsrInit fl₀ nums seed spin).1.numVals = 0 := by
  unfold lfsrInit at h ⊢
  cases hrow : findLfsr nums with
  | none => rw [hrow] at h; exact absurd h (by simp)
  | some row =>
    obtain ⟨n, h3, h63, hlt, hmin, rfl⟩ := findLfsrLoop_some _ _ hrow
    have hn : n ≤ 63 := by omega
    have hmask := toNat_bitmask h3 hn
    rw [hrow] at h
    dsimp only at h ⊢
    rw [(taps_maximal h3 hn).1] at h ⊢
    unfold prepareSpin at h ⊢
    by_cases hspin : 15 < spin
    · rw [if_pos hspin] at h
      exact absurd h (by simp)
    · rw [if_neg hspin] at h ⊢
      have hlegal := lfsrReset_legal h
      refine ⟨n, ⟨⟨h3, hn, rfl, rfl⟩, hmask ▸ hlegal, rfl, by omega, ?_, rfl⟩, by omega,
        hmin, rfl, rfl⟩
      rw [← spinCycle_eq, ← hmask]
      rfl

theorem usub_one (hpos : 1 ≤ nums) (hn : n ≤ 63) (hle : nums ≤ 2 ^ n - 1) :
    usub 64 nums 1 = nums - 1 := by
  have h64 : 2 ^ n ≤ 2 ^ 63 := Nat.pow_le_pow_right (by decide) hn
  exact usub_eq_sub hpos (by omega)

theorem filter_range_le {m : Nat} (hpos : 1 ≤ nums) (h : nums ≤ m) :
    (List.range m).filter (fun v => decide (v ≤ nums - 1)) = List.range nums := by
  obtain ⟨r, rfl⟩ := Nat.exists_eq_add_of_le h
  rw [List.range_add, List.filter_append, List.filter_eq_self.mpr, List.filter_eq_nil_iff.mpr,
    List.append_nil]
  · intro v hv
    obtain ⟨k, -, rfl⟩ := List.mem_map.mp hv
    simp only [decide_eq_true_eq]
    omega
  · intro v hv
    have := List.mem_range.mp hv
    exact decide_eq_true (by omega)

theorem lfsrCalls_perm {fuel : Nat} (h : fl.Running n spin)
    (hb : fl.AtBoundary) (hlegal : fl.lastVal.toNat < 2 ^ n - 1) (hpos : 1 ≤ nums)
    (hle : nums ≤ 2 ^ n - 1) (hmax : fl.maxVal = usub 64 nums 1) (hnum : fl.numVals = 0)
    (hfuel : 2 ^ 63 ≤ fuel) :
    ∃ out fl', lfsrCalls fuel nums fl = some (out, fl') ∧ out.Perm (List.range nums) ∧
      fl'.maxVal = nums - 1 ∧ fl'.numVals = nums := by
  rw [usub_one hpos h.high hle] at hmax
  have h63 : 2 ^ n ≤ 2 ^ 63 := Nat.pow_le_pow_right (by decide) h.high
  have hperm := (rounds_perm h hb hlegal).filter fun v => decide (v ≤ nums - 1)
  rw [filter_range_le hpos hle] at hperm
  have hlen := hperm.length_eq
  rw [List.length_range] at hlen
  obtain ⟨fl', hcalls, hmax', hnum'⟩ := lfsrCalls_filter fuel _
    (shows_iterate (2 ^ n - 1) fl) rfl
    (by rw [List.length_map, List.length_range]; omega)
    (by rw [hmax, hnum, hlen]; omega) (by rw [hmax]; omega)
  rw [hmax] at hcalls hnum'
  rw [hlen] at hcalls hnum'
  exact ⟨_, fl', hcalls, hperm, hmax'.trans hmax, by omega⟩

/-- **The generator is a permutation.** Whenever `lfsr_init` succeeds, `nums` calls of `lfsr_next`
return 0 and hand out the numbers below `nums`, each once, and the next call returns 1. A bound of
`2 ^ 63` on the rounds of a call is never reached; it is there to make the loop a function. -/
theorem lfsr_permutation {fl₀ : FioLfsr} {nums spin fuel : Nat} {seed : BitVec 64}
    (hpos : 1 ≤ nums) (hinit : (lfsrInit fl₀ nums seed spin).2 = 0) (hfuel : 2 ^ 63 ≤ fuel) :
    ∃ out fl', lfsrCalls fuel nums (lfsrInit fl₀ nums seed spin).1 = some (out, fl') ∧
      out.Perm (List.range nums) ∧ ∃ fl'', lfsrNext fuel fl' = some (fl'', none) := by
  obtain ⟨n, hready, hle, -, hmax, hnum⟩ := lfsrInit_ready hinit
  obtain ⟨out, fl', hcalls, hperm, hmax', hnum'⟩ := lfsrCalls_perm hready.running
    (.inr (.inr hready.cycle)) hready.legal hpos hle hmax hnum hfuel
  refine ⟨out, fl', hcalls, hperm, ⟨{ fl' with numVals := (fl'.numVals + 1) % 2 ^ 64 }, ?_⟩⟩
  rw [lfsrNext, if_pos (by omega)]

/-- Twenty values from a register of five bits, stepping three times for each. -/
theorem lfsr_permutation_twenty :
    ∃ out fl', lfsrCalls (2 ^ 63) 20 (lfsrInit ⟨0, 0, 0, 0, 0, 0, 0, 0⟩ 20 5#64 2).1
        = some (out, fl') ∧
      out.Perm (List.range 20) ∧ ∃ fl'', lfsrNext (2 ^ 63) fl' = some (fl'', none) :=
  lfsr_permutation (by decide) (by decide) (Nat.le_refl _)

end MysqlBench.Fio
