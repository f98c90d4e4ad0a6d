import MysqlBench.Fio.Lfsr.Permutation

/-!
# What `lfsr_reset` restarts

`lfsr_reset` sets the state of the register and the count of values, and leaves `cycle_length`, the
rounds that were left in the present cycle, as the calls before it made it. The walk that begins
at the new seed therefore takes its extra step too early: it leaves its first coset after a part of
a cycle, and when it comes back after all the others it enters at another point. It shows one state
twice before it has shown another one at all (`tile_overlap`).

So the calls after a reset hand out every value once from every seed when the reset came at the end
of a cycle (`lfsrCalls_perm`), and only then (`reset_restarts_iff`).
-/

namespace MysqlBench.Fio

open MysqlBench.Lib

def lfsrDraws (fuel : Nat) : Nat → FioLfsr → Option FioLfsr
  | 0, fl => some fl
  | k + 1, fl => (lfsrNext fuel fl).bind fun r => lfsrDraws fuel k r.1

/-- After a reset with any seed it accepts, `nums` calls hand out the numbers below `nums`, each
once. -/
def Restarts (fuel nums : Nat) (fl : FioLfsr) : Prop :=
  ∀ seed, (lfsrReset fl seed).2 = 0 →
    ∃ out fl', lfsrCalls fuel nums (lfsrReset fl seed).1 = some (out, fl') ∧
      out.Perm (List.range nums)

/-! ## What the calls keep -/

structure FioLfsr.Live (n spin max : Nat) (fl : FioLfsr) : Prop extends fl.Running n spin where
  legal : fl.lastVal.toNat < 2 ^ n - 1
  maxVal : fl.maxVal = max

variable {n spin max : Nat} {fl : FioLfsr}

variable {fuel : Nat} {v : BitVec 64} {nums : Nat}

theorem FioLfsr.advanced_zero (fl : FioLfsr) : fl.advanced 0 fl.cycleLength = fl := rfl

theorem FioLfsr.Live.advanced (h : fl.Live n spin max) (p : Nat) {c : Nat}
    (hle : c ≤ fl.cachedCycleLength + 1) (hpos : fl.cachedCycleLength ≠ 0 → c ≠ 0) :
    (fl.advanced p c).Live n spin max where
  low := h.low
  high := h.high
  cachedBit := h.cachedBit
  xormask := h.xormask
  spin_eq := h.spin_eq
  spin_le := h.spin_le
  cached := h.cached
  cycle_le := hle
  cycle_pos := hpos
  legal := lfsrStep_iterate_lt h.toWidth h.legal p
  maxVal := h.maxVal

theorem FioLfsr.Live.numVals (h : fl.Live n spin max) (k : Nat) :
    ({ fl with numVals := k } : FioLfsr).Live n spin max :=
  { low := h.low, high := h.high, cachedBit := h.cachedBit, xormask := h.xormask
    spin_eq := h.spin_eq, spin_le := h.spin_le, cached := h.cached, cycle_le := h.cycle_le
    cycle_pos := h.cycle_pos, legal := h.legal, maxVal := h.maxVal }

theorem FioLfsr.Live.round (h : fl.Live n spin max) : (lfsrRound fl).Live n spin max := by
  have hspin : fl.spin ≤ 15 := by rw [h.spin_eq]; exact h.spin_le
  have hle := h.cycle_le
  have hpos := h.cycle_pos
  rw [← fl.advanced_zero]
  by_cases h1 : fl.cycleLength = 1
  · rw [h1, lfsrRound_last]
    exact h.advanced _ (by omega) (fun hne => hne)
  · rw [lfsrRound_regular hspin h1]
    exact h.advanced _ (by omega) (fun hne => by have := hpos hne; omega)

theorem FioLfsr.Live.rounds (h : fl.Live n spin max) : ∀ k, (lfsrRound^[k] fl).Live n spin max := by
  intro k
  induction k with
  | zero => exact h
  | succ k ih => rw [Function.iterate_succ_apply']; exact ih.round

/-! ## The calls return -/

structure StopsAfter (fl : FioLfsr) (m : Nat) : Prop where
  skipped : ∀ j, j < m → fl.maxVal < (lfsrRound^[j + 1] fl).lastVal.toNat
  inRange : (lfsrRound^[m + 1] fl).lastVal.toNat ≤ fl.maxVal

theorem lfsrLoop_of_stops : ∀ {m fuel : Nat} {fl : FioLfsr}, StopsAfter fl m → m < fuel →
    lfsrLoop fuel fl = some (lfsrRound^[m + 1] fl) := by
  intro m
  induction m with
  | zero =>
    intro fuel fl h hfuel
    obtain ⟨fuel, rfl⟩ := Nat.exists_eq_add_of_lt hfuel
    have hshown := h.inRange
    rw [Function.iterate_one] at hshown
    rw [lfsrLoop, if_neg (by omega)]
    rfl
  | succ m ih =>
    intro fuel fl h hfuel
    obtain ⟨fuel, rfl⟩ := Nat.exists_eq_add_of_lt hfuel
    have hmax := (lfsrRound_maxVal fl).1
    have hout : fl.maxVal < (lfsrRound fl).lastVal.toNat := h.skipped 0 (by omega)
    rw [lfsrLoop, if_pos hout]
    refine ih ⟨fun j hj => ?_, ?_⟩ (by omega)
    · rw [hmax]
      exact h.skipped (j + 1) (by omega)
    · rw [hmax]
      exact h.inRange

theorem stops_of_lfsrLoop : ∀ {fuel : Nat} {fl fl' : FioLfsr}, lfsrLoop fuel fl = some fl' →
    ∃ m, StopsAfter fl m ∧ fl' = lfsrRound^[m + 1] fl := by
  intro fuel
  induction fuel with
  | zero => intro fl fl' h; exact absurd h (by simp [lfsrLoop])
  | succ fuel ih =>
    intro fl fl' h
    rw [lfsrLoop] at h
    split at h
    · rename_i hout
      obtain ⟨m, hm, rfl⟩ := ih h
      have hmax := (lfsrRound_maxVal fl).1
      refine ⟨m + 1, ⟨fun j hj => ?_, hmax ▸ hm.inRange⟩, rfl⟩
      cases j with
      | zero => exact hout
      | succ j => exact hmax ▸ hm.skipped j (by omega)
    · rename_i hin
      exact ⟨0, ⟨fun j hj => absurd hj (Nat.not_lt_zero j), Nat.le_of_not_lt hin⟩,
        (Option.some.inj h).symm⟩

theorem lfsrRound_countdown : ∀ {c : Nat} {fl : FioLfsr}, fl.spin ≤ 15 → fl.cycleLength = c + 1 →
    (lfsrRound^[c] fl).cycleLength = 1 := by
  intro c
  induction c with
  | zero => intro fl _ h; exact h
  | succ c ih =>
    intro fl hspin h
    rw [Function.iterate_succ_apply, ← fl.advanced_zero, lfsrRound_regular hspin (by omega)]
    exact ih hspin (by rw [FioLfsr.advanced_cycleLength]; omega)

theorem FioLfsr.Live.reaches_boundary (h : fl.Live n spin max) :
    ∃ r, r < 2 ^ n ∧ (lfsrRound^[r] fl).AtBoundary := by
  have hle := h.cycle_le
  by_cases h0 : fl.cachedCycleLength = 0
  · exact ⟨0, Nat.two_pow_pos n, .inl h0⟩
  · have hpos := h.cycle_pos h0
    have hcached : fl.cachedCycleLength ≤ 2 ^ n - 1 := by
      rw [h.cached]
      split
      · exact Nat.zero_le _
      · exact Nat.div_le_self _ _
    obtain ⟨c, hc⟩ := Nat.exists_eq_succ_of_ne_zero hpos
    have hspin : fl.spin ≤ 15 := by rw [h.spin_eq]; exact h.spin_le
    have := Nat.two_pow_pos n
    exact ⟨c, by omega, .inr (.inl (lfsrRound_countdown hspin hc))⟩

theorem FioLfsr.Live.shows_zero (h : fl.Live n spin max) :
    ∃ k, k + 1 < 2 ^ 64 ∧ (lfsrRound^[k + 1] fl).lastVal.toNat = 0 := by
  obtain ⟨r, hr, hb⟩ := h.reaches_boundary
  have hlive := h.rounds r
  have hpos : 0 < 2 ^ n - 1 := Nat.lt_of_le_of_lt (Nat.zero_le _) h.legal
  have hmem := (rounds_perm hlive.toRunning hb hlive.legal).mem_iff.mpr (List.mem_range.mpr hpos)
  obtain ⟨j, hj, hzero⟩ := List.mem_map.mp hmem
  have hj := List.mem_range.mp hj
  have h63 : 2 ^ n ≤ 2 ^ 63 := Nat.pow_le_pow_right (by decide) h.high
  refine ⟨j + r, by omega, ?_⟩
  rw [← hzero, show j + r + 1 = j + 1 + r by omega, Function.iterate_add_apply]

theorem FioLfsr.Live.stops (h : fl.Live n spin max) : ∃ m, m < 2 ^ 64 ∧ StopsAfter fl m := by
  obtain ⟨k, hk, hzero⟩ := h.shows_zero
  have hex : ∃ m, (lfsrRound^[m + 1] fl).lastVal.toNat ≤ fl.maxVal :=
    ⟨k, by rw [hzero]; exact Nat.zero_le _⟩
  have hfirst : Nat.find hex ≤ k := Nat.find_min' hex (by rw [hzero]; exact Nat.zero_le _)
  exact ⟨Nat.find hex, by omega, fun j hj => Nat.lt_of_not_le (Nat.find_min hex hj),
    Nat.find_spec hex⟩

theorem FioLfsr.Live.next (h : fl.Live n spin max) (hfuel : 2 ^ 64 ≤ fuel) :
    ∃ r, lfsrNext fuel fl = some r ∧ r.1.Live n spin max := by
  rw [lfsrNext]
  have hcounted := h.numVals ((fl.numVals + 1) % 2 ^ 64)
  split
  · exact ⟨_, rfl, hcounted⟩
  · obtain ⟨m, hm, hstops⟩ := hcounted.stops
    refine ⟨_, by rw [lfsrLoop_of_stops hstops (by omega)]; rfl, ?_⟩
    exact hcounted.rounds (m + 1)

theorem FioLfsr.Live.draws (hfuel : 2 ^ 64 ≤ fuel) : ∀ (k : Nat) {fl : FioLfsr},
    fl.Live n spin max → ∃ fl', lfsrDraws fuel k fl = some fl' ∧ fl'.Live n spin max := by
  intro k
  induction k with
  | zero => intro fl h; exact ⟨fl, rfl, h⟩
  | succ k ih =>
    intro fl h
    obtain ⟨r, hr, hlive⟩ := h.next hfuel
    rw [lfsrDraws, hr]
    exact ih hlive

/-! ## Resetting -/

theorem FioLfsr.Width.bitmask (h : fl.Width n) : fl.bitmask.toNat = 2 ^ n - 1 := by
  rw [FioLfsr.bitmask, h.cachedBit]
  exact toNat_bitmask h.low h.high

theorem FioLfsr.Live.reset (h : fl.Live n spin max) {seed : BitVec 64}
    (hok : (lfsrReset fl seed).2 = 0) : (lfsrReset fl seed).1.Live n spin max where
  low := h.low
  high := h.high
  cachedBit := h.cachedBit
  xormask := h.xormask
  spin_eq := h.spin_eq
  spin_le := h.spin_le
  cached := h.cached
  cycle_le := h.cycle_le
  cycle_pos := h.cycle_pos
  legal := h.toWidth.bitmask ▸ lfsrReset_legal hok
  maxVal := h.maxVal

theorem lfsrReset_of_legal (h : fl.Width n) (hv : v.toNat < 2 ^ n - 1) :
    lfsrReset fl v = ({ fl with numVals := 0, lastVal := v }, 0) := by
  have hmask : v &&& fl.bitmask = v := by
    refine BitVec.eq_of_toNat_eq ?_
    rw [BitVec.toNat_and, h.bitmask, Nat.and_two_pow_sub_one_of_lt_two_pow (by omega)]
  have hne : v ≠ fl.bitmask := fun he => by
    have := h.bitmask
    rw [← he] at this
    omega
  rw [lfsrReset, hmask]
  show (_, if v = fl.bitmask then 1 else 0) = _
  rw [if_neg hne]

theorem restarts_of_boundary (h : fl.Live n spin (usub 64 nums 1))
    (hb : fl.AtBoundary) (hle : nums ≤ 2 ^ n - 1) (hpos : 1 ≤ nums) (hfuel : 2 ^ 63 ≤ fuel) :
    Restarts fuel nums fl := by
  intro seed hok
  have hlive := h.reset hok
  obtain ⟨out, fl', hcalls, hperm, -⟩ := lfsrCalls_perm hlive.toRunning hb hlive.legal hpos hle
    hlive.maxVal rfl hfuel
  exact ⟨out, fl', hcalls, hperm⟩

/-! ## Resetting within a cycle -/

def shown (fl : FioLfsr) (m : Nat) : List Nat :=
  (List.range m).map fun j => (lfsrRound^[j + 1] fl).lastVal.toNat

theorem lfsrRound_iterate_numVals (k : Nat) : ∀ (m : Nat) (fl : FioLfsr),
    lfsrRound^[m] { fl with numVals := k } = { lfsrRound^[m] fl with numVals := k } := by
  intro m
  induction m with
  | zero => intro fl; rfl
  | succ m ih =>
    intro fl
    rw [Function.iterate_succ_apply, lfsrRound_numVals, ih, Function.iterate_succ_apply]

theorem shown_add (fl : FioLfsr) (a b : Nat) :
    shown fl (a + b) = shown fl a ++ shown (lfsrRound^[a] fl) b := by
  unfold shown
  rw [List.range_add, List.map_append, List.map_map]
  congr 1
  refine List.map_congr_left fun j _ => ?_
  show (lfsrRound^[a + j + 1] fl).lastVal.toNat = (lfsrRound^[j + 1] (lfsrRound^[a] fl)).lastVal.toNat
  rw [← Function.iterate_add_apply, show j + 1 + a = a + j + 1 by omega]

theorem shown_numVals (fl : FioLfsr) (k m : Nat) : shown { fl with numVals := k } m = shown fl m := by
  unfold shown
  refine List.map_congr_left fun j _ => ?_
  rw [lfsrRound_iterate_numVals]

theorem lfsrRound_iterate_maxVal (fl : FioLfsr) (m : Nat) :
    (lfsrRound^[m] fl).maxVal = fl.maxVal := by
  induction m with
  | zero => rfl
  | succ m ih => rw [Function.iterate_succ_apply', (lfsrRound_maxVal _).1, ih]

theorem StopsAfter.filter_shown {m : Nat} (h : StopsAfter fl m) :
    (shown fl (m + 1)).filter (fun v => decide (v ≤ fl.maxVal))
      = [(lfsrRound^[m + 1] fl).lastVal.toNat] := by
  have hnone : (shown fl m).filter (fun v => decide (v ≤ fl.maxVal)) = [] := by
    refine List.filter_eq_nil_iff.mpr fun v hv => ?_
    obtain ⟨j, hj, rfl⟩ := List.mem_map.mp hv
    have := h.skipped j (List.mem_range.mp hj)
    rw [decide_eq_true_eq]
    omega
  have hone : shown (lfsrRound^[m] fl) 1 = [(lfsrRound^[m + 1] fl).lastVal.toNat] := by
    rw [Function.iterate_succ_apply']
    rfl
  rw [shown_add, List.filter_append, hnone, hone, List.filter_singleton, decide_eq_true h.inRange]
  rfl

theorem lfsrCalls_shown : ∀ {k : Nat} {fl fl' : FioLfsr} {out : List Nat},
    lfsrCalls fuel k fl = some (out, fl') →
    ∃ m, out = (shown fl m).filter fun v => decide (v ≤ fl.maxVal) := by
  intro k
  induction k with
  | zero =>
    intro fl fl' out h
    obtain ⟨rfl, -⟩ : [] = out ∧ fl = fl' := by simpa [lfsrCalls] using h
    exact ⟨0, rfl⟩
  | succ k ih =>
    intro fl fl' out h
    rw [lfsrCalls, lfsrNext] at h
    by_cases hdone : fl.maxVal < fl.numVals
    · rw [if_pos hdone] at h
      exact absurd h (by simp)
    · rw [if_neg hdone] at h
      cases hloop : lfsrLoop fuel { fl with numVals := (fl.numVals + 1) % 2 ^ 64 } with
      | none => rw [hloop] at h; exact absurd h (by simp)
      | some fl₁ =>
        rw [hloop] at h
        -- the rounds of this call show one number that is in range, the last
        obtain ⟨m, hstops, rfl⟩ := stops_of_lfsrLoop hloop
        obtain ⟨⟨offs, fl₂⟩, hrest, hout⟩ := Option.map_eq_some_iff.mp h
        obtain ⟨rfl, rfl⟩ := Prod.mk.inj hout
        obtain ⟨m', rfl⟩ := ih hrest
        refine ⟨m + 1 + m', ?_⟩
        have hcall := hstops.filter_shown
        rw [← shown_numVals fl ((fl.numVals + 1) % 2 ^ 64), shown_add, List.filter_append, hcall,
          lfsrRound_iterate_maxVal, List.singleton_append]

/-- The calls cannot hand out every value once if the rounds show one value in range twice before
they show another. -/
theorem not_perm_of_overlap {x y j₁ j₂ : Nat} {fl' : FioLfsr} {out : List Nat}
    (hcalls : lfsrCalls fuel nums fl = some (out, fl')) (hmax : fl.maxVal = nums - 1)
    (hx : x < nums) (hy : y < nums) (hj : j₁ < j₂)
    (h₁ : (lfsrRound^[j₁ + 1] fl).lastVal.toNat = x)
    (h₂ : (lfsrRound^[j₂ + 1] fl).lastVal.toNat = x)
    (hlate : ∀ j, j ≤ j₂ → (lfsrRound^[j + 1] fl).lastVal.toNat ≠ y) :
    ¬ out.Perm (List.range nums) := by
  intro hperm
  obtain ⟨m, rfl⟩ := lfsrCalls_shown hcalls
  obtain ⟨hmem, -⟩ := List.mem_filter.mp (hperm.mem_iff.mpr (List.mem_range.mpr hy))
  obtain ⟨j, hjm, hshow⟩ := List.mem_map.mp hmem
  have hjm := List.mem_range.mp hjm
  have hafter : j₂ < j := Nat.lt_of_not_le fun hle => hlate j hle hshow
  -- both rounds that show `x` are among the first `m`
  have hnodup := hperm.nodup_iff.mpr List.nodup_range
  unfold shown at hnodup
  rw [List.filter_map] at hnodup
  have hin : ∀ i, i < m → (lfsrRound^[i + 1] fl).lastVal.toNat = x →
      i ∈ (List.range m).filter
        ((fun v => decide (v ≤ fl.maxVal)) ∘ fun j => (lfsrRound^[j + 1] fl).lastVal.toNat) := by
    intro i hi hix
    refine List.mem_filter.mpr ⟨List.mem_range.mpr hi, ?_⟩
    show decide ((lfsrRound^[i + 1] fl).lastVal.toNat ≤ fl.maxVal) = true
    exact decide_eq_true (by omega)
  have := List.inj_on_of_nodup_map hnodup (hin j₁ (by omega) h₁) (hin j₂ (by omega) h₂)
    (h₁.trans h₂.symm)
  omega

theorem lfsrStep_iterate_period (h : fl.Width n) (hv : v.toNat < 2 ^ n - 1)
    (k : Nat) : (lfsrStep fl)^[(2 ^ n - 1) * k] v = v := by
  refine BitVec.eq_of_toNat_eq ?_
  have := (lfsrStep_iterate_eq_iff h hv (i := (2 ^ n - 1) * k) (j := 0)).mpr (by simp)
  exact this

theorem lfsrStep_iterate_inj (h : fl.Width n) (k : Nat) {u : BitVec 64}
    (hu : u.toNat < 2 ^ n - 1) (hv : v.toNat < 2 ^ n - 1)
    (he : (lfsrStep fl)^[k] u = (lfsrStep fl)^[k] v) : u = v := by
  have hmul : (2 ^ n - 1 - 1) * k + k = (2 ^ n - 1) * k := by
    rw [← Nat.succ_mul]
    congr 1
    omega
  have hback := congrArg (lfsrStep fl)^[(2 ^ n - 1 - 1) * k] he
  rw [← Function.iterate_add_apply, ← Function.iterate_add_apply, hmul,
    lfsrStep_iterate_period h hu, lfsrStep_iterate_period h hv] at hback
  exact hback

theorem exists_step_in_range (h : fl.Width n) (hle : nums ≤ 2 ^ n - 1)
    (hhalf : 2 ^ n - 1 < nums + nums) (k : Nat) :
    ∃ w : BitVec 64, w.toNat < nums ∧ ((lfsrStep fl)^[k] w).toNat < nums := by
  have h63 : 2 ^ n ≤ 2 ^ 63 := Nat.pow_le_pow_right (by decide) h.high
  have hof : ∀ v, v < 2 ^ n - 1 → (BitVec.ofNat 64 v).toNat = v := fun v hv => by
    rw [BitVec.toNat_ofNat, Nat.mod_eq_of_lt (by omega)]
  let f : Nat → Nat := fun v => ((lfsrStep fl)^[k] (BitVec.ofNat 64 v)).toNat
  have hlegal : ∀ v, v < 2 ^ n - 1 → f v < 2 ^ n - 1 := fun v hv =>
    lfsrStep_iterate_lt h (by rw [hof v hv]; exact hv) k
  have hinj : Set.InjOn f (Finset.range nums) := fun u hu v hv he => by
    have hu : u < nums := Finset.mem_range.mp hu
    have hv : v < nums := Finset.mem_range.mp hv
    have := lfsrStep_iterate_inj h k (by rw [hof u (by omega)]; omega)
      (by rw [hof v (by omega)]; omega) (BitVec.eq_of_toNat_eq he)
    rw [← hof u (by omega), ← hof v (by omega), this]
  -- two parts of more than half of the numbers have one in common
  obtain ⟨x, hx⟩ := Finset.inter_nonempty_of_card_lt_card_add_card
    (s := Finset.range (2 ^ n - 1)) (t := (Finset.range nums).image f) (u := Finset.range nums)
    (fun x hx => by
      obtain ⟨v, hv, rfl⟩ := Finset.mem_image.mp hx
      have hv := Finset.mem_range.mp hv
      exact Finset.mem_range.mpr (hlegal v (by omega)))
    (Finset.range_subset_range.mpr hle)
    (by rw [Finset.card_image_of_injOn hinj]; simpa using hhalf)
  obtain ⟨himage, hrange⟩ := Finset.mem_inter.mp hx
  obtain ⟨v, hv, rfl⟩ := Finset.mem_image.mp himage
  have hv := Finset.mem_range.mp hv
  exact ⟨BitVec.ofNat 64 v, by rw [hof v (by omega)]; exact hv, Finset.mem_range.mp hrange⟩

theorem three_lt_of_strideLength (h3 : 3 ≤ n) (hg : (2 ^ n - 1).gcd (spin + 1) ≠ 1)
    (hL : 1 < strideLength n spin) : 3 < n := by
  rcases Nat.lt_or_eq_of_le h3 with hlt | rfl
  · exact hlt
  · have hprime : Nat.Prime 7 := by decide
    have hseven : (2 ^ 3 - 1).gcd (spin + 1) = 7 :=
      ((Nat.dvd_prime hprime).mp (Nat.gcd_dvd_left 7 (spin + 1))).resolve_left hg
    rw [strideLength, hseven] at hL
    exact absurd hL (by decide)

theorem FioLfsr.Live.within (h : fl.Live n spin max) (hb : ¬ fl.AtBoundary) :
    (2 ^ n - 1).gcd (spin + 1) ≠ 1 ∧ fl.cachedCycleLength = strideLength n spin ∧
      1 < fl.cycleLength ∧ fl.cycleLength ≤ strideLength n spin := by
  have hcached : fl.cachedCycleLength ≠ 0 := fun h0 => hb (.inl h0)
  have hg : (2 ^ n - 1).gcd (spin + 1) ≠ 1 := fun h1 => by
    have := h.cached
    rw [if_pos h1] at this
    exact hcached this
  have hL : fl.cachedCycleLength = strideLength n spin := by
    rw [h.cached, if_neg hg, strideLength]
  have hpos := h.cycle_pos hcached
  have hle := h.cycle_le
  have hc1 : fl.cycleLength ≠ 1 := fun h1 => hb (.inr (.inl h1))
  have hcL : fl.cycleLength ≠ fl.cachedCycleLength + 1 := fun h1 => hb (.inr (.inr h1))
  exact ⟨hg, hL, by omega, by omega⟩

theorem lfsrRound_from {L d : Nat} (hspin : fl.spin < 15) (hL : fl.cachedCycleLength = L)
    (hpos : 0 < fl.cycleLength) (hd : d + fl.cycleLength = L) (w : BitVec 64) (j : Nat) :
    (lfsrRound^[j] { fl with
        numVals := 0, lastVal := (lfsrStep fl)^[tile (fl.spin + 1) L d] w }).lastVal
      = (lfsrStep fl)^[tile (fl.spin + 1) L (d + j)] w := by
  have hspin' : ({ fl with numVals := 0, lastVal := w } : FioLfsr).spin < 15 := hspin
  have hrun := lfsrRound_cycle hspin' (show 0 < L by omega) hL 0 d j
  rw [Nat.mod_eq_of_lt (show d < L by omega), show L - d = fl.cycleLength by omega, Nat.zero_add,
    Nat.zero_add] at hrun
  exact congrArg FioLfsr.lastVal hrun

theorem not_restarts_within (h : fl.Live n spin (usub 64 nums 1))
    (hb : ¬ fl.AtBoundary) (hle : nums ≤ 2 ^ n - 1) (hmin : 3 < n → 2 ^ (n - 1) ≤ nums) :
    ¬ Restarts fuel nums fl := by
  obtain rfl := h.spin_eq
  obtain ⟨hg, hL, hc1, hcL⟩ := h.within hb
  have hM : 0 < 2 ^ n - 1 := Nat.lt_of_le_of_lt (Nat.zero_le _) h.legal
  have hlong : 1 < strideLength n fl.spin := by omega
  have hhalf : 2 ^ n - 1 < nums + nums := by
    have := hmin (three_lt_of_strideLength h.low hg hlong)
    have hn : n - 1 + 1 = n := Nat.sub_add_cancel (Nat.le_trans (by decide) h.low)
    have : 2 ^ n = 2 ^ (n - 1) * 2 := by rw [← Nat.pow_succ, Nat.succ_eq_add_one, hn]
    omega
  have hmax : fl.maxVal = nums - 1 := h.maxVal.trans (usub_one (by omega) h.high hle)
  obtain ⟨late, hlate, -, hagain, hmiss⟩ := tile_overlap (s := fl.spin + 1) hM hlong
  change strideLength n fl.spin - 1 < late at hlate
  obtain ⟨d, hd⟩ : ∃ d, d + fl.cycleLength = strideLength n fl.spin :=
    ⟨_, Nat.sub_add_cancel (by omega)⟩
  -- `w` is the first state of the cycle that is cut short, and the last one is in range with it
  obtain ⟨w, hw, hx⟩ := exists_step_in_range h.toWidth hle hhalf
    (tile (fl.spin + 1) (strideLength n fl.spin) (strideLength n fl.spin - 1))
  have hwlt : w.toNat < 2 ^ n - 1 := by omega
  have hseed := lfsrStep_iterate_lt h.toWidth hwlt (tile (fl.spin + 1) (strideLength n fl.spin) d)
  have hround := lfsrRound_from (h.toRunning.spin_lt hg) hL (by omega) hd w
  intro hrestarts
  obtain ⟨out, fl', hcalls, hperm⟩ := hrestarts _ (by rw [lfsrReset_of_legal h.toWidth hseed])
  rw [lfsrReset_of_legal h.toWidth hseed] at hcalls
  dsimp only at hcalls
  refine not_perm_of_overlap hcalls hmax hx hw
    (show strideLength n fl.spin - 2 - d < late - 1 - d by omega) ?_ ?_ (fun j hj he => ?_) hperm
  · rw [hround, show d + (strideLength n fl.spin - 2 - d + 1) = strideLength n fl.spin - 1 by omega]
  · rw [hround, show d + (late - 1 - d + 1) = late by omega]
    exact (lfsrStep_iterate_eq_iff h.toWidth hwlt).mpr hagain
  · rw [hround] at he
    have hzero := (lfsrStep_iterate_eq_iff h.toWidth hwlt (j := 0)).mp he
    exact hmiss (d + (j + 1)) (by omega) (by omega) hzero

/-- **When a reset restarts the permutation.** Whatever number of calls came after `lfsr_init`, they
all return; and from every accepted seed the `nums` calls after a reset hand out the numbers below
`nums`, each once, exactly if the calls before it ended at the end of a cycle of the spin, or made
none of its rounds, or the spin has no cycles. -/
theorem reset_restarts_iff {fl₀ : FioLfsr} {nums spin fuel : Nat} {seed : BitVec 64} (k : Nat)
    (hinit : (lfsrInit fl₀ nums seed spin).2 = 0) (hfuel : 2 ^ 64 ≤ fuel) :
    ∃ fl, lfsrDraws fuel k (lfsrInit fl₀ nums seed spin).1 = some fl ∧
      (Restarts fuel nums fl ↔ nums = 0 ∨ fl.AtBoundary) := by
  obtain ⟨n, hready, hle, hmin, hmax, -⟩ := lfsrInit_ready hinit
  obtain ⟨fl, hdraws, hlive⟩ := FioLfsr.Live.draws hfuel k
    (⟨hready.running, hready.legal, hmax⟩ : FioLfsr.Live n spin (usub 64 nums 1) _)
  refine ⟨fl, hdraws, fun hrestarts => ?_, ?_⟩
  · refine .inr (Classical.byContradiction fun hb => ?_)
    exact not_restarts_within hlive hb hle hmin hrestarts
  · rintro (rfl | hb)
    · intro seed' _
      exact ⟨[], _, rfl, List.Perm.refl _⟩
    · rcases Nat.eq_zero_or_pos nums with rfl | hpos
      · intro seed' _
        exact ⟨[], _, rfl, List.Perm.refl _⟩
      · exact restarts_of_boundary hlive hb hle hpos (by omega)

/-- Fifteen values in strides of three: after the five rounds of the first cycle a reset restarts
the permutation. -/
theorem reset_restarts_fifteen :
    ∃ fl, lfsrDraws (2 ^ 64) 5 (lfsrInit ⟨0, 0, 0, 0, 0, 0, 0, 0⟩ 15 0#64 2).1 = some fl ∧
      (Restarts (2 ^ 64) 15 fl ↔ 15 = 0 ∨ fl.AtBoundary) :=
  reset_restarts_iff 5 (by decide) (Nat.le_refl _)

/-- The same generator reset after one value: the walk leaves its first cycle one round early, and
fifteen calls hand out the value 7 twice and never the value 0. -/
theorem reset_within_cycle_repeats :
    ∃ fl out fl', lfsrDraws 100 1 (lfsrInit ⟨0, 0, 0, 0, 0, 0, 0, 0⟩ 15 0#64 2).1 = some fl ∧
      (lfsrReset fl 0#64).2 = 0 ∧
      lfsrCalls 100 15 (lfsrReset fl 0#64).1 = some (out, fl') ∧
      ¬ out.Perm (List.range 15) := by
  refine ⟨_, _, _, rfl, rfl, rfl, ?_⟩
  decide

end MysqlBench.Fio
