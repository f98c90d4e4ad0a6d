import MysqlBench.Fio.LatTarget.Model
import Mathlib.Algebra.Order.Ring.Nat
import Mathlib.Tactic.Ring

/-!
# Where the search for the queue depth ends

While no number overflows the search is in one of four phases (`Phase`), and in each of them the next
window brings it closer to the end, with one exception. A failure at `iodepth` itself is not told from
no failure at all, so that the search goes on doubling; if the depth below is the one it looks for it
then alternates between the two for ever (`not_done_of_succ_eq`). Depths of `2 ^ 31` and above
overflow on doubling. `latency_search_iff` says that there is nothing else.
-/

namespace MysqlBench.Fio

def DepthOk (iodepth : Nat) (td : LatTarget) : Prop :=
  1 ≤ td.qdLow ∧ td.qdLow ≤ td.qd ∧ td.qd ≤ iodepth

/-! ## The phases of the search -/

inductive Phase (iodepth threshold : Nat) (td : LatTarget) : Prop
  /-- No failure below `iodepth` so far. -/
  | ramp (hhigh : td.qdHigh = iodepth) (hend : td.endRun = false) (hdone : td.done = false)
      (hok : DepthOk iodepth td) (hlow : td.qdLow ≤ threshold)
      (hpow : 2 ^ 31 < iodepth → ∃ j, j ≤ 31 ∧ td.qd = 2 ^ j)
  /-- The depth is between one that meets the target and one that does not. -/
  | bisect (hhigh : td.qdHigh < iodepth) (hfit : td.qdHigh ≤ 2 ^ 31) (hend : td.endRun = false)
      (hdone : td.done = false) (hlow : 1 ≤ td.qdLow) (hmet : td.qdLow ≤ threshold)
      (hfail : threshold < td.qdHigh) (hmid : td.qd = (td.qdLow + td.qdHigh) / 2)
  /-- The window at the depth that was found. -/
  | final (hend : td.endRun = true) (hdone : td.done = false) (hlow : td.qdLow = td.qd)
      (hqd : td.qd = min threshold iodepth) (hup : rampUp iodepth td = td.qd)
  | finished (hdone : td.done = true) (hlow : td.qdLow = td.qd)
      (hqd : td.qd = min threshold iodepth)

variable {iodepth threshold : Nat} {td : LatTarget}

def remaining (iodepth : Nat) (td : LatTarget) : Nat :=
  if td.done then 0
  else if td.endRun then 1
  else if td.qdHigh < iodepth then 2 + (td.qdHigh - td.qdLow)
  else 2 + iodepth + 3 * (iodepth - td.qdLow) +
    if td.qd = td.qdLow then 2 else if td.qd = iodepth then 1 else 0

theorem Phase.depthOk (hD : 1 ≤ iodepth) (hT : 1 ≤ threshold) (h : Phase iodepth threshold td) :
    DepthOk iodepth td := by
  cases h with
  | ramp _ _ _ hok _ _ => exact hok
  | bisect hhigh _ _ _ hlow hmet hfail hmid =>
    refine ⟨hlow, ?_, ?_⟩ <;> omega
  | final _ _ hlow hqd _ =>
    refine ⟨?_, ?_, ?_⟩ <;> omega
  | finished _ hlow hqd =>
    refine ⟨?_, ?_, ?_⟩ <;> omega

theorem phase_init (hD : 1 ≤ iodepth) (hT : 1 ≤ threshold) :
    Phase iodepth threshold (latTargetInit iodepth) :=
  .ramp rfl rfl rfl ⟨le_rfl, le_rfl, hD⟩ hT fun _ => ⟨0, by decide, rfl⟩

/-! ## One window -/

theorem rampUp_double (hhigh : td.qdHigh = iodepth) (hfit : td.qd * 2 < 2 ^ 32) :
    rampUp iodepth td = min (td.qd * 2) iodepth := by
  unfold rampUp
  rw [if_neg (not_not.mpr hhigh), Nat.mod_eq_of_lt hfit]
  dsimp only
  split_ifs <;> omega

theorem rampUp_bisect (hhigh : td.qdHigh < iodepth) (hfit : td.qdHigh ≤ 2 ^ 31)
    (hqd : td.qd < td.qdHigh) : rampUp iodepth td = (td.qd + td.qdHigh) / 2 := by
  unfold rampUp
  rw [if_pos (Nat.ne_of_lt hhigh), Nat.mod_eq_of_lt (by omega)]
  dsimp only
  rw [if_neg (by omega)]

theorem latTargetSuccess_up (h : rampUp iodepth td ≠ td.qd) : latTargetSuccess iodepth td =
    { td with qdLow := td.qd, qd := rampUp iodepth td } := if_neg h

theorem latTargetSuccess_same (h : rampUp iodepth td = td.qd) (hend : td.endRun = false) :
    latTargetSuccess iodepth td = { td with qdLow := td.qd, endRun := true } := by
  unfold latTargetSuccess
  dsimp only
  rw [if_pos h, hend, if_neg Bool.false_ne_true, h]

theorem latTargetSuccess_done (h : rampUp iodepth td = td.qd) (hend : td.endRun = true) :
    latTargetSuccess iodepth td = { td with qdLow := td.qd, done := true } := by
  unfold latTargetSuccess
  dsimp only
  rw [if_pos h, hend, if_pos rfl, h]

theorem latTargetFailed_down (hlow : 1 ≤ td.qdLow) (hlt : td.qdLow < td.qd)
    (hfit : td.qd + td.qdLow < 2 ^ 32) : latTargetFailed td =
      { td with qdHigh := td.qd, qd := (td.qd + td.qdLow) / 2 } := by
  unfold latTargetFailed
  rw [if_neg (by omega), if_neg (by omega)]
  dsimp only
  rw [Nat.mod_eq_of_lt hfit]

theorem rampUp_congr {td td' : LatTarget} (hqd : td'.qd = td.qd) (hhigh : td'.qdHigh = td.qdHigh) :
    rampUp iodepth td' = rampUp iodepth td := by
  unfold rampUp
  rw [hqd, hhigh]

section Step

variable (hsafe : iodepth < 2 ^ 31 ∨ threshold < 2 ^ 31)

include hsafe

theorem pow_succ_of_met {qd : Nat} (hbig : 2 ^ 31 < iodepth) (hmet : qd ≤ threshold)
    (h : ∃ j, j ≤ 31 ∧ qd = 2 ^ j) : ∃ j, j ≤ 31 ∧ min (qd * 2) iodepth = 2 ^ j := by
  obtain ⟨j, -, rfl⟩ := h
  have hlt : j < 31 := (Nat.pow_lt_pow_iff_right (by decide)).mp (by omega : 2 ^ j < 2 ^ 31)
  have hle : 2 ^ (j + 1) ≤ 2 ^ 31 := Nat.pow_le_pow_right (by decide) hlt
  refine ⟨j + 1, hlt, ?_⟩
  rw [← Nat.pow_succ]
  omega

theorem phase_ramp_success (hhigh : td.qdHigh = iodepth) (hend : td.endRun = false)
    (hdone : td.done = false) (hok : DepthOk iodepth td)
    (hpow : 2 ^ 31 < iodepth → ∃ j, j ≤ 31 ∧ td.qd = 2 ^ j) (hmet : td.qd ≤ threshold) :
    Phase iodepth threshold (latTargetSuccess iodepth td) ∧
      remaining iodepth (latTargetSuccess iodepth td) < remaining iodepth td := by
  have hpow' : 2 ^ 31 < iodepth → ∃ j, j ≤ 31 ∧ min (td.qd * 2) iodepth = 2 ^ j :=
    fun hbig => pow_succ_of_met hsafe hbig hmet (hpow hbig)
  clear hpow
  obtain ⟨hlow, hle, hD⟩ := hok
  have hup := rampUp_double hhigh (show td.qd * 2 < 2 ^ 32 by omega)
  by_cases hsame : rampUp iodepth td = td.qd
  · rw [latTargetSuccess_same hsame hend]
    refine ⟨.final rfl hdone rfl ?_ ((rampUp_congr rfl rfl).trans hsame), ?_⟩
    · dsimp only
      omega
    · simp only [remaining, hdone, hend, hhigh, lt_irrefl, if_false, if_true, Bool.false_eq_true]
      omega
  · rw [latTargetSuccess_up hsame]
    rw [hup] at hsame ⊢
    refine ⟨.ramp hhigh hend hdone ⟨?_, ?_, ?_⟩ hmet hpow', ?_⟩
    · exact le_trans hlow hle
    · dsimp only
      omega
    · exact min_le_right _ _
    · simp only [remaining, hdone, hend, hhigh, lt_irrefl, if_false, Bool.false_eq_true, hsame]
      split_ifs <;> omega

end Step

theorem phase_ramp_failed (hhigh : td.qdHigh = iodepth) (hend : td.endRun = false)
    (hdone : td.done = false) (hok : DepthOk iodepth td) (hmet : td.qdLow ≤ threshold)
    (hpow : 2 ^ 31 < iodepth → ∃ j, j ≤ 31 ∧ td.qd = 2 ^ j) (hfail : threshold < td.qd) :
    Phase iodepth threshold (latTargetFailed td) ∧
      (threshold + 1 ≠ iodepth →
        remaining iodepth (latTargetFailed td) < remaining iodepth td) := by
  have hfit : td.qd ≤ 2 ^ 31 := by
    by_cases hbig : 2 ^ 31 < iodepth
    · obtain ⟨j, hj, hqd⟩ := hpow hbig
      rw [hqd]
      exact Nat.pow_le_pow_right (by decide) hj
    · exact le_trans hok.2.2 (Nat.not_lt.mp hbig)
  clear hpow
  obtain ⟨hlow, hle, hD⟩ := hok
  rw [latTargetFailed_down hlow (by omega) (by omega)]
  -- at `iodepth` itself the bound does not change, and the search takes this for no failure
  by_cases hqd : td.qd = iodepth
  · refine ⟨.ramp hqd hend hdone ⟨hlow, ?_, ?_⟩ hmet fun hbig => ?_, fun hne => ?_⟩
    · dsimp only
      omega
    · dsimp only
      omega
    · omega
    · simp only [remaining, hdone, hend, hhigh, hqd, lt_irrefl, if_false, Bool.false_eq_true]
      split_ifs <;> omega
  · refine ⟨.bisect ?_ hfit hend hdone hlow hmet hfail ?_, fun _ => ?_⟩
    · dsimp only
      omega
    · dsimp only
      omega
    · have hlt : td.qd < iodepth := by omega
      simp only [remaining, hdone, hend, hhigh, hlt, lt_irrefl, if_false, if_true,
        Bool.false_eq_true]
      omega

theorem phase_bisect_success (hhigh : td.qdHigh < iodepth) (hfit : td.qdHigh ≤ 2 ^ 31)
    (hend : td.endRun = false) (hdone : td.done = false) (hlow : 1 ≤ td.qdLow)
    (hfail : threshold < td.qdHigh) (hmid : td.qd = (td.qdLow + td.qdHigh) / 2)
    (hmet : td.qd ≤ threshold) :
    Phase iodepth threshold (latTargetSuccess iodepth td) ∧
      remaining iodepth (latTargetSuccess iodepth td) < remaining iodepth td := by
  have hup := rampUp_bisect hhigh hfit (show td.qd < td.qdHigh by omega)
  by_cases hsame : rampUp iodepth td = td.qd
  · rw [latTargetSuccess_same hsame hend]
    refine ⟨.final rfl hdone rfl ?_ ((rampUp_congr rfl rfl).trans hsame), ?_⟩
    · dsimp only
      omega
    · simp only [remaining, hdone, hend, hhigh, if_false, if_true, Bool.false_eq_true]
      omega
  · rw [latTargetSuccess_up hsame]
    rw [hup] at hsame ⊢
    refine ⟨.bisect hhigh hfit hend hdone ?_ hmet hfail rfl, ?_⟩
    · dsimp only
      omega
    · simp only [remaining, hdone, hend, hhigh, if_false, if_true, Bool.false_eq_true]
      omega

theorem phase_bisect_failed (hhigh : td.qdHigh < iodepth) (hfit : td.qdHigh ≤ 2 ^ 31)
    (hend : td.endRun = false) (hdone : td.done = false) (hlow : 1 ≤ td.qdLow)
    (hle : td.qdLow ≤ threshold) (hfail : threshold < td.qdHigh)
    (hmid : td.qd = (td.qdLow + td.qdHigh) / 2) (hmiss : threshold < td.qd) :
    Phase iodepth threshold (latTargetFailed td) ∧
      remaining iodepth (latTargetFailed td) < remaining iodepth td := by
  rw [latTargetFailed_down hlow (by omega) (by omega)]
  refine ⟨.bisect ?_ ?_ hend hdone hlow hle hmiss ?_, ?_⟩
  · dsimp only
    omega
  · dsimp only
    omega
  · dsimp only
    omega
  · have hlt : td.qd < iodepth := by omega
    simp only [remaining, hdone, hend, hhigh, hlt, if_false, if_true, Bool.false_eq_true]
    omega

/-- A window keeps the search in a phase, and brings it closer to the end unless the depth it looks
for is the one below `iodepth`. -/
theorem phase_step (hsafe : iodepth < 2 ^ 31 ∨ threshold < 2 ^ 31)
    (h : Phase iodepth threshold td) :
    Phase iodepth threshold (latWindow iodepth threshold td) ∧
      (threshold + 1 ≠ iodepth → td.done = false →
        remaining iodepth (latWindow iodepth threshold td) < remaining iodepth td) := by
  unfold latWindow latTargetCheck
  -- a window is a success or a failure; from the final phase on no failure is left
  by_cases hmet : td.qd ≤ threshold
  · rw [decide_eq_true hmet, if_pos rfl]
    cases h with
    | ramp hhigh hend hdone hok _ hpow =>
      rw [hdone, if_neg Bool.false_ne_true]
      have hstep := phase_ramp_success hsafe hhigh hend hdone hok hpow hmet
      exact ⟨hstep.1, fun _ _ => hstep.2⟩
    | bisect hhigh hfit hend hdone hlow hle hfail hmid =>
      rw [hdone, if_neg Bool.false_ne_true]
      have hstep := phase_bisect_success hhigh hfit hend hdone hlow hfail hmid hmet
      exact ⟨hstep.1, fun _ _ => hstep.2⟩
    | final hend hdone hlow hqd hup =>
      rw [hdone, if_neg Bool.false_ne_true, latTargetSuccess_done hup hend]
      refine ⟨.finished rfl rfl hqd, fun _ _ => ?_⟩
      simp only [remaining, hdone, hend, if_true, if_false, Bool.false_eq_true]
      omega
    | finished hdone hlow hqd =>
      rw [hdone, if_pos rfl]
      exact ⟨.finished hdone hlow hqd, fun _ hc => absurd hc Bool.noConfusion⟩
  · have hmiss : threshold < td.qd := Nat.not_le.mp hmet
    rw [decide_eq_false hmet, if_neg Bool.false_ne_true]
    cases h with
    | ramp hhigh hend hdone hok hle hpow =>
      rw [hdone, if_neg Bool.false_ne_true]
      have hstep := phase_ramp_failed hhigh hend hdone hok hle hpow hmiss
      exact ⟨hstep.1, fun hne _ => hstep.2 hne⟩
    | bisect hhigh hfit hend hdone hlow hle hfail hmid =>
      rw [hdone, if_neg Bool.false_ne_true]
      have hstep := phase_bisect_failed hhigh hfit hend hdone hlow hle hfail hmid hmiss
      exact ⟨hstep.1, fun _ _ => hstep.2⟩
    | final hend hdone hlow hqd hup => omega
    | finished hdone hlow hqd => omega

/-! ## Runs -/

section Run

variable (hsafe : iodepth < 2 ^ 31 ∨ threshold < 2 ^ 31) (hD : 1 ≤ iodepth) (hT : 1 ≤ threshold)

include hsafe hD hT

theorem phase_run (n : Nat) : Phase iodepth threshold (latRun iodepth threshold n) := by
  induction n with
  | zero => exact phase_init hD hT
  | succ n ih => exact (phase_step hsafe ih).1

theorem exists_done (hne : threshold + 1 ≠ iodepth) : ∀ (r n : Nat),
    remaining iodepth (latRun iodepth threshold n) ≤ r →
      ∃ m, (latRun iodepth threshold m).done = true := by
  intro r
  induction r with
  | zero =>
    intro n hr
    refine ⟨n, ?_⟩
    cases hdone : (latRun iodepth threshold n).done with
    | true => rfl
    | false =>
      have := (phase_step hsafe (phase_run hsafe hD hT n)).2 hne hdone
      omega
  | succ r ih =>
    intro n hr
    cases hdone : (latRun iodepth threshold n).done with
    | true => exact ⟨n, hdone⟩
    | false =>
      have := (phase_step hsafe (phase_run hsafe hD hT n)).2 hne hdone
      exact ih (n + 1) (by rw [latRun]; omega)

theorem qd_of_done {n : Nat} (h : (latRun iodepth threshold n).done = true) :
    (latRun iodepth threshold n).qd = min threshold iodepth := by
  cases phase_run hsafe hD hT n with
  | ramp _ _ hdone _ _ _ => exact absurd (h.symm.trans hdone) Bool.noConfusion
  | bisect _ _ _ hdone _ _ _ _ => exact absurd (h.symm.trans hdone) Bool.noConfusion
  | final _ hdone _ _ _ => exact absurd (h.symm.trans hdone) Bool.noConfusion
  | finished _ _ hqd => exact hqd

end Run

/-! ## The depth below `iodepth` -/

structure Ramping (iodepth : Nat) (td : LatTarget) : Prop where
  high : td.qdHigh = iodepth
  endRun : td.endRun = false
  done : td.done = false
  ok : DepthOk iodepth td
  low : td.qdLow < iodepth

theorem ramping_step (hfit : iodepth ≤ 2 ^ 31) (hlast : threshold + 1 = iodepth)
    (h : Ramping iodepth td) : Ramping iodepth (latWindow iodepth threshold td) := by
  obtain ⟨hhigh, hend, hdone, ⟨hlow, hle, hD⟩, hlt⟩ := h
  unfold latWindow latTargetCheck
  rw [hdone, if_neg Bool.false_ne_true]
  by_cases hmet : td.qd ≤ threshold
  · have hup := rampUp_double hhigh (show td.qd * 2 < 2 ^ 32 by omega)
    have hne : rampUp iodepth td ≠ td.qd := by
      rw [hup]
      omega
    rw [decide_eq_true hmet, if_pos rfl, latTargetSuccess_up hne]
    refine ⟨hhigh, hend, hdone, ⟨?_, ?_, ?_⟩, ?_⟩ <;> dsimp only <;> omega
  · -- the failure is at `iodepth`, which is what the upper bound was before
    rw [decide_eq_false hmet, if_neg Bool.false_ne_true,
      latTargetFailed_down hlow (by omega) (by omega)]
    refine ⟨?_, hend, hdone, ⟨hlow, ?_, ?_⟩, hlt⟩ <;> dsimp only <;> omega

theorem not_done_of_succ_eq (hfit : iodepth ≤ 2 ^ 31) (hT : 1 ≤ threshold)
    (hlast : threshold + 1 = iodepth) (n : Nat) : Ramping iodepth (latRun iodepth threshold n) := by
  induction n with
  | zero =>
    have h1 : 1 < iodepth := by omega
    exact ⟨rfl, rfl, rfl, ⟨le_rfl, le_rfl, h1.le⟩, h1⟩
  | succ n ih => exact ramping_step hfit hlast ih

/-! ## Depths that overflow -/

theorem qd_pow_two (hD : 2 ^ 31 ≤ iodepth) (hT : 2 ^ 31 ≤ threshold) : ∀ (n : Nat), n ≤ 31 →
    (latRun iodepth threshold n).qd = 2 ^ n ∧ (latRun iodepth threshold n).qdHigh = iodepth ∧
      (latRun iodepth threshold n).done = false := by
  intro n
  induction n with
  | zero => intro _; exact ⟨rfl, rfl, rfl⟩
  | succ n ih =>
    intro hn
    obtain ⟨hqd, hhigh, hdone⟩ := ih (by omega)
    have hpow : 2 ^ (n + 1) ≤ 2 ^ 31 := Nat.pow_le_pow_right (by decide) hn
    have hpos : 0 < 2 ^ n := Nat.pow_pos (by decide)
    rw [Nat.pow_succ] at hpow ⊢
    have hup := rampUp_double hhigh (by rw [hqd]; omega)
    have hmin : min (2 ^ n * 2) iodepth = 2 ^ n * 2 := min_eq_left (by omega)
    rw [hqd, hmin] at hup
    have hmet : (latRun iodepth threshold n).qd ≤ threshold := by
      rw [hqd]
      omega
    rw [latRun, latWindow, latTargetCheck, hdone, if_neg Bool.false_ne_true, decide_eq_true hmet,
      if_pos rfl, latTargetSuccess_up (by rw [hup, hqd]; omega)]
    exact ⟨hup, hhigh, hdone⟩

theorem qd_overflow (hD : 2 ^ 31 ≤ iodepth) (hT : 2 ^ 31 ≤ threshold) :
    (latRun iodepth threshold 32).qd = 0 := by
  obtain ⟨hqd, hhigh, hdone⟩ := qd_pow_two hD hT 31 le_rfl
  have hup : rampUp iodepth (latRun iodepth threshold 31) = 0 := by
    unfold rampUp
    rw [if_neg (not_not.mpr hhigh), hqd]
    exact if_neg (Nat.not_lt_zero _)
  have hmet : (latRun iodepth threshold 31).qd ≤ threshold := by rwa [hqd]
  rw [latRun, latWindow, latTargetCheck, hdone, if_neg Bool.false_ne_true, decide_eq_true hmet,
    if_pos rfl, latTargetSuccess_up (by rw [hup, hqd]; decide)]
  exact hup

/-- The search ends at the largest depth that meets the target and keeps its bounds, if and only if
that is not the depth below `iodepth` and no depth reaches `2 ^ 31`. An upper bound of `iodepth`
means that nothing has failed yet, but it is also what a failure at that depth leaves, and the
search goes up again. -/
theorem latency_search_iff (iodepth threshold : Nat) (hD : 1 ≤ iodepth) (hT : 1 ≤ threshold) :
    ((∃ n, (latRun iodepth threshold n).done = true ∧
        (latRun iodepth threshold n).qd = min threshold iodepth) ∧
      ∀ n, DepthOk iodepth (latRun iodepth threshold n)) ↔
    threshold + 1 ≠ iodepth ∧ (iodepth < 2 ^ 31 ∨ threshold < 2 ^ 31) := by
  constructor
  · rintro ⟨⟨n, hdone, -⟩, hok⟩
    have hsafe : iodepth < 2 ^ 31 ∨ threshold < 2 ^ 31 := by
      by_contra hbig
      rw [not_or, Nat.not_lt, Nat.not_lt] at hbig
      obtain ⟨hlow, hle, -⟩ := hok 32
      rw [qd_overflow hbig.1 hbig.2] at hle
      omega
    refine ⟨fun hlast => ?_, hsafe⟩
    have hramp := (not_done_of_succ_eq (by omega) hT hlast n).done
    exact absurd (hdone.symm.trans hramp) Bool.noConfusion
  · rintro ⟨hne, hsafe⟩
    refine ⟨?_, fun n => (phase_run hsafe hD hT n).depthOk hD hT⟩
    obtain ⟨n, hdone⟩ := exists_done hsafe hD hT hne _ 0 le_rfl
    exact ⟨n, hdone, qd_of_done hsafe hD hT hdone⟩

/-- With `iodepth=16` and a target that is met up to a depth of 5. -/
theorem latency_search_sixteen : (1 ≤ 16 ∧ 1 ≤ 5) ∧
    ∃ n, (latRun 16 5 n).done = true ∧ (latRun 16 5 n).qd = 5 :=
  ⟨by decide, ((latency_search_iff 16 5 (by decide) (by decide)).mpr (by decide)).1⟩

/-- With `iodepth=4` and a target that is met up to a depth of 3, the state after five windows comes
back after seven, and no window is the last. -/
theorem latency_search_cycle : latRun 4 3 5 = latRun 4 3 7 ∧ ∀ n, (latRun 4 3 n).done = false :=
  ⟨by decide, fun n => (not_done_of_succ_eq (by decide) (by decide) rfl n).done⟩

end MysqlBench.Fio
