import MysqlBench.Sysbench.DbStats.Model

/-!
# The memory test (`sb_memory.c`)

A thread gets one request after the other, each for one block, until the blocks handed out amount to
`memory_total_size`. The two counters that say how much this is are at the same time what the
cumulative reports print, and a cumulative report sets them back to zero. So a report in the middle of
the test makes it start over: from there on the whole amount is handed out once more
(`handed_of_finished`), and the test does what it was asked exactly if no cumulative report falls between
the first request and the last refusal (`memory_transfers_iff`).
-/

namespace MysqlBench.Sysbench

open Lib

/-! ## The test -/

inductive MemoryScope
  | global | local
deriving Repr, DecidableEq

inductive MemoryOper
  | none | read | write
deriving Repr, DecidableEq

/-- The settings. `memory_block_size` is an `ssize_t` and `memory_total_size` a `long long`. -/
structure MemoryConfig where
  blockSize : Nat
  totalSize : Int
  scope : MemoryScope
  oper : MemoryOper
  blockSize_pos : 0 < blockSize
  blockSize_lt : blockSize < 2 ^ 63
  totalSize_lt : totalSize < 2 ^ 63

structure MemoryTotals where
  totalOps : Nat
  totalBytes : Int
  lastBytes : Int

inductive MemoryRequest
  | null
  | memory (blockSize : Nat) (scope : MemoryScope) (oper : MemoryOper)
deriving Repr, DecidableEq

def memoryGetRequest (cfg : MemoryConfig) (g : MemoryTotals) : MemoryRequest × MemoryTotals :=
  if cfg.totalSize ≤ g.totalBytes then (.null, g)
  else
    (.memory cfg.blockSize cfg.scope cfg.oper,
      { g with totalOps := (g.totalOps + 1) % 2 ^ 32, totalBytes := int64 (g.totalBytes + cfg.blockSize) })

inductive MemoryReport
  /-- The bytes since the last report. -/
  | speed (bytes : Int)
  | operations (ops : Int)
deriving Repr, DecidableEq

def memoryPrintStats (g : MemoryTotals) : StatType → MemoryReport × MemoryTotals
  | .intermediate => (.speed (int64 (g.totalBytes - g.lastBytes)), { g with lastBytes := g.totalBytes })
  | .cumulative => (.operations (int32 g.totalOps), { g with totalOps := 0, totalBytes := 0 })

/-! ## Runs -/

/-- The test with the threads `T`. A thread is finished when it has got no request; `handed` counts the
requests that threads did get, and `printed` has the reports, the last first. -/
structure MemoryRun (T : Type) where
  totals : MemoryTotals
  finished : T → Bool
  handed : Nat
  printed : List MemoryReport

def memoryInit (T : Type) : MemoryRun T := ⟨⟨0, 0, 0⟩, fun _ => false, 0, []⟩

inductive MemoryAction (T : Type)
  | get (t : T)
  | report (type : StatType)
deriving DecidableEq

section Runs

variable {T : Type} [DecidableEq T]

def memoryStep (cfg : MemoryConfig) (s : MemoryRun T) : MemoryAction T → Option (MemoryRun T)
  | .get t =>
    if s.finished t then none
    else
      match memoryGetRequest cfg s.totals with
      | (.null, g) => some { s with totals := g, finished := Function.update s.finished t true }
      | (.memory _ _ _, g) => some { s with totals := g, handed := s.handed + 1 }
  | .report type =>
    let (line, g) := memoryPrintStats s.totals type
    some { s with totals := g, printed := line :: s.printed }

def MemoryReport.ops : MemoryReport → Int
  | .speed _ => 0
  | .operations n => n

def MemoryRun.opsPrinted (s : MemoryRun T) : Int := (s.printed.map MemoryReport.ops).sum

def MemoryConfig.asked (cfg : MemoryConfig) : Nat := cfg.totalSize.toNat ⌈/⌉ cfg.blockSize

def TransfersAsked (cfg : MemoryConfig) (s : MemoryRun T) : Prop :=
  s.handed = cfg.asked ∧ s.opsPrinted = cfg.asked

def ReportApart (s : MemoryRun T) (a : MemoryAction T) : Prop :=
  a = .report .cumulative → s.handed = 0 ∨ ∀ t, s.finished t = true

instance [Fintype T] (s : MemoryRun T) (a : MemoryAction T) : Decidable (ReportApart s a) :=
  inferInstanceAs (Decidable (_ → _))

/-! ## Steps -/

variable {s s' : MemoryRun T} {a : MemoryAction T}

theorem memoryStep_cases {cfg : MemoryConfig}
    (h : memoryStep cfg s a = some s') :
    (∃ t, a = .get t ∧ s.finished t = false ∧ cfg.totalSize ≤ s.totals.totalBytes ∧
      s' = { s with finished := Function.update s.finished t true }) ∨
    (∃ t, a = .get t ∧ s.finished t = false ∧ s.totals.totalBytes < cfg.totalSize ∧
      s' = { s with
        totals := { s.totals with
          totalOps := (s.totals.totalOps + 1) % 2 ^ 32
          totalBytes := int64 (s.totals.totalBytes + cfg.blockSize) }
        handed := s.handed + 1 }) ∨
    (a = .report .intermediate ∧
      s' = { s with
        totals := { s.totals with lastBytes := s.totals.totalBytes }
        printed := .speed (int64 (s.totals.totalBytes - s.totals.lastBytes)) :: s.printed }) ∨
    (a = .report .cumulative ∧
      s' = { s with
        totals := { s.totals with totalOps := 0, totalBytes := 0 }
        printed := .operations (int32 s.totals.totalOps) :: s.printed }) := by
  cases a with
  | get t =>
    rw [memoryStep] at h
    cases ht : s.finished t with
    | true => rw [if_pos ht] at h; exact absurd h (by simp)
    | false =>
      rw [if_neg (by simp [ht]), memoryGetRequest] at h
      by_cases hfull : cfg.totalSize ≤ s.totals.totalBytes
      · rw [if_pos hfull] at h
        exact Or.inl ⟨t, rfl, ht, hfull, (Option.some.inj h).symm⟩
      · rw [if_neg hfull] at h
        exact Or.inr (Or.inl ⟨t, rfl, ht, not_le.mp hfull, (Option.some.inj h).symm⟩)
  | report type =>
    cases type with
    | intermediate => exact Or.inr (Or.inr (Or.inl ⟨rfl, (Option.some.inj h).symm⟩))
    | cumulative => exact Or.inr (Or.inr (Or.inr ⟨rfl, (Option.some.inj h).symm⟩))

/-! ## From one report to the next -/

variable {cfg : MemoryConfig}

/-- A thread that is not refused yet is refused only after as many more requests as it takes from
nothing, however many reports are in between. -/
theorem handed_of_finished {n : Nat}
    (hn : ∀ k : Nat, cfg.totalSize ≤ int64 (k * cfg.blockSize) → n ≤ k) {t : T}
    (hbytes : s.totals.totalBytes = 0) (ht : s.finished t = false)
    (h : Reachable (memoryStep cfg) s s') (hdone : s'.finished t = true) : s.handed + n ≤ s'.handed := by
  -- `k` requests since the last report
  have hinv : ∃ k : Nat, s'.totals.totalBytes = int64 (k * cfg.blockSize) ∧ s.handed + k ≤ s'.handed ∧
      (s'.finished t = true → s.handed + n ≤ s'.handed) := by
    refine h.invariant (P := fun u => ∃ k : Nat, u.totals.totalBytes = int64 (k * cfg.blockSize) ∧
      s.handed + k ≤ u.handed ∧ (u.finished t = true → s.handed + n ≤ u.handed)) ?_ ?_
    · exact ⟨0, by rw [hbytes]; simp [int64], le_refl _, fun hf => absurd (ht.symm.trans hf) (by simp)⟩
    · rintro u a u' ⟨k, hk, hle, hfin⟩ hs
      obtain ⟨v, -, -, hfull, rfl⟩ | ⟨v, -, -, -, rfl⟩ | ⟨-, rfl⟩ | ⟨-, rfl⟩ := memoryStep_cases hs
      · refine ⟨k, hk, hle, fun _ => ?_⟩
        have hnk : n ≤ k := hn k (hk ▸ hfull)
        exact le_trans (Nat.add_le_add_left hnk _) hle
      · refine ⟨k + 1, ?_, Nat.succ_le_succ hle, fun hf => Nat.le_succ_of_le (hfin hf)⟩
        show int64 (u.totals.totalBytes + cfg.blockSize) = _
        rw [hk, int64_add_int64]
        push_cast
        ring_nf
      · exact ⟨k, hk, hle, hfin⟩
      · exact ⟨0, by simp [int64], le_trans (Nat.le_add_right _ _) hle, hfin⟩
  obtain ⟨k, -, -, hfin⟩ := hinv
  exact hfin hdone

theorem asked_le_iff (k : Nat) : cfg.asked ≤ k ↔ cfg.totalSize ≤ (k * cfg.blockSize : Nat) := by
  rw [MemoryConfig.asked, ceilDiv_le_iff_le_mul cfg.blockSize_pos, mul_comm, Int.toNat_le]

theorem asked_le (k : Nat) (h : cfg.totalSize ≤ int64 (k * cfg.blockSize)) : cfg.asked ≤ k := by
  have hle : int64 (k * cfg.blockSize) ≤ k * cfg.blockSize :=
    int64_le (mul_nonneg (Nat.cast_nonneg _) (Nat.cast_nonneg _))
  rw [asked_le_iff, Nat.cast_mul]
  exact le_trans h hle

theorem asked_lt (hwrap : 2 ^ 63 ≤ cfg.asked * cfg.blockSize) (k : Nat)
    (h : cfg.totalSize ≤ int64 (k * cfg.blockSize)) : cfg.asked + 1 ≤ k := by
  refine Nat.lt_of_le_of_ne (asked_le k h) fun heq => ?_
  subst heq
  have hpos : 0 < cfg.asked := by
    by_contra hzero
    rw [Nat.eq_zero_of_not_pos hzero, zero_mul] at hwrap
    exact absurd hwrap (by decide)
  have hbefore : ¬cfg.asked ≤ cfg.asked - 1 := by omega
  rw [asked_le_iff, not_le, Nat.sub_mul, one_mul] at hbefore
  have htotal := cfg.totalSize_lt
  have hblock := cfg.blockSize_lt
  rw [← Nat.cast_mul] at h
  generalize cfg.asked * cfg.blockSize = x at h hwrap hbefore
  unfold int64 at h
  rw [Int.bmod_def] at h
  split at h <;> omega

/-! ## Runs whose reports are apart -/

omit [DecidableEq T] in
theorem opsPrinted_cons (s : MemoryRun T) (line : MemoryReport) (g : MemoryTotals) :
    { s with totals := g, printed := line :: s.printed }.opsPrinted = line.ops + s.opsPrinted := by
  rw [MemoryRun.opsPrinted, List.map_cons, List.sum_cons, MemoryRun.opsPrinted]

/-- Nothing has been printed and the counters have it all, or all threads are finished and one report
has printed it all. -/
def Counted (cfg : MemoryConfig) (s : MemoryRun T) : Prop :=
  (s.opsPrinted = 0 ∧ s.totals.totalOps = s.handed % 2 ^ 32 ∧
    s.totals.totalBytes = int64 (s.handed * cfg.blockSize)) ∨
  ((∀ t, s.finished t = true) ∧ s.opsPrinted = int32 s.handed ∧ s.totals.totalOps = 0)

omit [DecidableEq T] in
theorem counted_init : Counted cfg (memoryInit T) :=
  Or.inl ⟨rfl, rfl, by simp [memoryInit, int64]⟩

theorem counted_step (h : Counted cfg s)
    (hok : ReportApart s a) (hs : memoryStep cfg s a = some s') : Counted cfg s' := by
  obtain ⟨t, -, ht, -, rfl⟩ | ⟨t, -, ht, -, rfl⟩ | ⟨-, rfl⟩ | ⟨rfl, rfl⟩ := memoryStep_cases hs
  · -- while a thread still runs the second case of the invariant is impossible
    obtain hcount | ⟨hfin, -⟩ := h
    · exact Or.inl hcount
    · exact absurd (ht.symm.trans (hfin t)) (by simp)
  · obtain ⟨hprinted, hops, hbytes⟩ | ⟨hfin, -⟩ := h
    · refine Or.inl ⟨hprinted, ?_, ?_⟩
      · show (s.totals.totalOps + 1) % 2 ^ 32 = (s.handed + 1) % 2 ^ 32
        rw [hops, Nat.mod_add_mod]
      · show int64 (s.totals.totalBytes + cfg.blockSize) = int64 ((s.handed + 1 : Nat) * cfg.blockSize)
        rw [hbytes, int64_add_int64, Nat.cast_succ, add_mul, one_mul]
    · exact absurd (ht.symm.trans (hfin t)) (by simp)
  · have hprinted := opsPrinted_cons s (.speed (int64 (s.totals.totalBytes - s.totals.lastBytes)))
      { s.totals with lastBytes := s.totals.totalBytes }
    rw [MemoryReport.ops, zero_add] at hprinted
    obtain ⟨hsum, hcount⟩ | ⟨hfin, hsum, hops⟩ := h
    · exact Or.inl ⟨hprinted.trans hsum, hcount⟩
    · exact Or.inr ⟨hfin, hprinted.trans hsum, hops⟩
  · have hprinted := opsPrinted_cons s (.operations (int32 s.totals.totalOps))
      { s.totals with totalOps := 0, totalBytes := 0 }
    rw [MemoryReport.ops] at hprinted
    obtain ⟨hsum, hops, -⟩ | ⟨hfin, hsum, hops⟩ := h
    · have hall := hprinted.trans (show _ = int32 s.handed by rw [hops, hsum, add_zero, int32_mod])
      -- clearing the counters is harmless if nothing was handed out yet or all threads are done
      obtain hzero | hfin := hok rfl
      · refine Or.inl ⟨hall.trans (by rw [hzero]; rfl), ?_, ?_⟩
        · show 0 = s.handed % 2 ^ 32
          rw [hzero, Nat.zero_mod]
        · show 0 = int64 (s.handed * cfg.blockSize)
          rw [hzero]
          simp [int64]
      · exact Or.inr ⟨hfin, hall, rfl⟩
    · exact Or.inr ⟨hfin, hprinted.trans (by rw [hops, hsum]; exact zero_add _), rfl⟩

theorem handed_le_step (hfits : cfg.asked * cfg.blockSize < 2 ^ 63) (hc : Counted cfg s) (h : s.handed ≤ cfg.asked)
    (hs : memoryStep cfg s a = some s') : s'.handed ≤ cfg.asked := by
  obtain ⟨t, -, -, -, rfl⟩ | ⟨t, -, ht, hmore, rfl⟩ | ⟨-, rfl⟩ | ⟨-, rfl⟩ := memoryStep_cases hs
  · exact h
  · obtain ⟨-, -, hbytes⟩ | ⟨hfin, -⟩ := hc
    · have hlt : s.handed * cfg.blockSize < 2 ^ 63 :=
        lt_of_le_of_lt (Nat.mul_le_mul_right _ h) hfits
      have hvalue : int64 (s.handed * cfg.blockSize) = (s.handed * cfg.blockSize : Nat) := by
        rw [← Nat.cast_mul]
        exact int64_eq (by omega) (by exact_mod_cast hlt)
      rw [hbytes, hvalue, ← not_le, ← asked_le_iff, not_le] at hmore
      exact hmore
    · exact absurd (ht.symm.trans (hfin t)) (by simp)
  · exact h
  · exact h

def ReportsApart (cfg : MemoryConfig) (run : List (MemoryAction T)) : Prop :=
  EachStep (memoryStep cfg) ReportApart (memoryInit T) run

end Runs

/-- After every run that has come to its end, with the report at the end of the test: the test has
done what it was asked if and only if the reports were apart from the requests, the operations fit
`%d` and the bytes a `long long`. A report sets the counter to zero by which the requests are handed
out. -/
theorem memory_transfers_iff {T : Type} [DecidableEq T] [Nonempty T] (cfg : MemoryConfig)
    (run : List (MemoryAction T)) (s : MemoryRun T)
    (hrun : runSteps (memoryStep cfg) (memoryInit T) (run ++ [.report .cumulative]) = some s)
    (hdone : ∀ t, s.finished t = true) :
    TransfersAsked cfg s ↔
      ReportsApart cfg run ∧ cfg.asked < 2 ^ 31 ∧ cfg.asked * cfg.blockSize < 2 ^ 63 := by
  obtain ⟨t⟩ := ‹Nonempty T›
  rw [runSteps_append] at hrun
  obtain ⟨s₁, hrun₁, hrest⟩ := Option.bind_eq_some_iff.mp hrun
  obtain ⟨s₂, hlast, hs⟩ := Option.bind_eq_some_iff.mp hrest
  obtain rfl := Option.some.inj hs
  have hreach : Reachable (memoryStep cfg) (memoryInit T) s₂ :=
    (Reachable.runSteps run .start hrun₁).step _ hlast
  obtain ⟨u, hu, -⟩ | ⟨u, hu, -⟩ | ⟨hr, -⟩ | ⟨-, hs₂⟩ := memoryStep_cases hlast
  · exact absurd hu (by simp)
  · exact absurd hu (by simp)
  · exact absurd hr (by simp)
  have hdone₁ : ∀ t, s₁.finished t = true := fun t => by rw [← hdone t, hs₂]
  -- a run whose reports are apart, up to its end
  have hcounted : ReportsApart cfg run → Counted cfg s₂ ∧
      (cfg.asked * cfg.blockSize < 2 ^ 63 → s₂.handed ≤ cfg.asked) := by
    intro hapart
    have hby := EachStep.reachableBy run hapart hrun₁ (ReachableBy.start)
    exact (hby.step _ (fun _ => Or.inr hdone₁) hlast).invariant
      (P := fun s => Counted cfg s ∧ (cfg.asked * cfg.blockSize < 2 ^ 63 → s.handed ≤ cfg.asked))
      ⟨counted_init, fun _ => Nat.zero_le _⟩ fun s a s' hinv hok hs =>
        ⟨counted_step hinv.1 hok hs, fun hfits => handed_le_step hfits hinv.1 (hinv.2 hfits) hs⟩
  have hprinted : Counted cfg s₂ → s₂.opsPrinted = int32 s₂.handed := by
    rintro (⟨hsum, hops, -⟩ | ⟨-, hsum, -⟩)
    · have hzero : s₂.totals.totalOps = 0 := by rw [hs₂]
      rw [hsum, ← int32_mod, ← hops, hzero]
      rfl
    · exact hsum
  constructor
  · rintro ⟨hhanded, hops⟩
    have hapart : ReportsApart cfg run := by
      by_contra hnot
      obtain ⟨s₃, a, s₄, h₃, hbad, hstep, h₄⟩ := exists_of_not_eachStep run hnot hrun₁ .start
      obtain ⟨rfl, hneither⟩ := Classical.not_imp.mp hbad
      obtain ⟨hsome, hleft⟩ := not_or.mp hneither
      obtain ⟨u, hu⟩ := not_forall.mp hleft
      -- the report starts the test over, for `u` at least
      obtain rfl := Option.some.inj hstep
      have hle := handed_of_finished asked_le rfl (Bool.not_eq_true _ ▸ hu) h₄ (hdone₁ u)
      have hsame : s₂.handed = s₁.handed := by rw [hs₂]
      dsimp only at hle
      omega
    have hfits : cfg.asked * cfg.blockSize < 2 ^ 63 := by
      by_contra hwrap
      have hle := handed_of_finished (asked_lt (not_lt.mp hwrap)) rfl rfl hreach (hdone t)
      rw [hhanded, memoryInit] at hle
      omega
    refine ⟨hapart, ?_, hfits⟩
    have hbound := (int32_bounds s₂.handed).2
    rw [← hprinted (hcounted hapart).1, hops] at hbound
    exact_mod_cast hbound
  · rintro ⟨hapart, hsmall, hfits⟩
    have hge := handed_of_finished asked_le rfl rfl hreach (hdone t)
    have hle := (hcounted hapart).2 hfits
    have hhanded : s₂.handed = cfg.asked := by
      rw [memoryInit] at hge
      omega
    refine ⟨hhanded, ?_⟩
    rw [hprinted (hcounted hapart).1, hhanded]
    exact int32_eq (by omega) (by exact_mod_cast hsmall)

/-- Nine bytes in blocks of four, for two threads and with an early report. -/
theorem memory_transfers_nine : ∃ s : MemoryRun Bool,
    runSteps (memoryStep ⟨4, 9, .global, .write, by decide, by decide, by decide⟩) (memoryInit Bool)
      ([.report .cumulative, .get true, .get false, .report .intermediate, .get true, .get true,
        .get false] ++ [.report .cumulative]) = some s ∧
    s.handed = 3 ∧ TransfersAsked ⟨4, 9, .global, .write, by decide, by decide, by decide⟩ s := by
  have hrun : ((runSteps (memoryStep ⟨4, 9, .global, .write, by decide, by decide, by decide⟩)
      (memoryInit Bool)
      ([.report .cumulative, .get true, .get false, .report .intermediate, .get true, .get true,
        .get false] ++ [.report .cumulative])).map fun s =>
      (s.handed, s.finished true, s.finished false)) = some (3, true, true) := by decide +kernel
  obtain ⟨s, hs, hobs⟩ := Option.map_eq_some_iff.mp hrun
  obtain ⟨hhanded, hfin⟩ := Prod.mk.inj hobs
  obtain ⟨htrue, hfalse⟩ := Prod.mk.inj hfin
  refine ⟨s, hs, hhanded, (memory_transfers_iff _ _ s hs fun t => ?_).mpr ?_⟩
  · cases t with
    | true => exact htrue
    | false => exact hfalse
  · refine ⟨?_, by decide +kernel, by decide +kernel⟩
    unfold ReportsApart
    decide +kernel

/-- A checkpoint after the first of two blocks: three are transferred. -/
theorem memory_transfers_again : ∃ s : MemoryRun Unit,
    runSteps (memoryStep ⟨4, 8, .global, .write, by decide, by decide, by decide⟩) (memoryInit Unit)
      ([.get (), .report .cumulative, .get (), .get (), .get ()] ++ [.report .cumulative]) = some s ∧
    s.finished () = true ∧ s.handed = 3 ∧ s.opsPrinted = 3 ∧
    ¬TransfersAsked ⟨4, 8, .global, .write, by decide, by decide, by decide⟩ s := by
  refine ⟨_, rfl, rfl, rfl, by decide +kernel, fun h => ?_⟩
  exact absurd h.1 (by decide +kernel)

end MysqlBench.Sysbench
