import MysqlBench.Sysbench.DbStats.Model

/-!
# No query is lost

What the reports have printed, what a report has added up and not yet printed, and what stands in the
records should together be all calls. While a cumulative report is between its section for a thread and
its reset of that thread, it *holds* the record: what stands there has been added up already, and is
going to be thrown away. So the equation leaves out records that are held (`Balanced`), and it is kept by
every step that does not touch a record held by another (`Undisturbed`). A query in between is counted
and then thrown away unseen; a second report in between prints the record once more.
-/

namespace MysqlBench.Sysbench

open Lib

/-! ## What should be printed -/

def QueryType.counts : StatCounter → QueryType → Bool
  | .readOps, .read | .writeOps, .write | .otherOps, .other | .otherOps, .commit
  | .transactions, .commit => true
  | _, _ => false

def DbCall.counts (k : StatCounter) (c : DbCall) : Bool :=
  let (type, errno) := match c with
    | .query text errno => (dbGetQueryType text, errno)
    | .execute stmt errno => (dbGetQueryType stmt.query, errno)
  match errno with
  | .none => type.counts k
  | .deadlock => k == .deadlocks
  | .failed => false

section Account

variable {n : Nat} {R : Type}

def totalPrinted (s : DbStats n R) (k : StatCounter) : Int := (s.printed.map fun p => p k).sum

variable {k : StatCounter} {st acc : DbThreadStat} {t : Fin n}

theorem totalPrinted_cons {s s' : DbStats n R} {p : StatCounter → Int}
    (h : s'.printed = p :: s.printed) (k : StatCounter) :
    totalPrinted s' k = p k + totalPrinted s k := by
  rw [totalPrinted, totalPrinted, h, List.map_cons, List.sum_cons]

def PrintedAll (s : DbStats n R) : Prop :=
  ∀ k, totalPrinted s k = s.executed.countP (DbCall.counts k)

/-! ## Holding a record -/

def ReportPc.Holds (t : Nat) : ReportPc → Prop
  | .idle => False
  | .summing .intermediate _ _ => False
  | .summing .cumulative i _ => t < i
  | .resetting i => i ≤ t

def ReportPc.pending (k : StatCounter) : ReportPc → Nat
  | .summing .cumulative _ acc => acc k
  | _ => 0

theorem ReportPc.pending_resetting (k : StatCounter) (i : Nat) :
    (ReportPc.resetting i).pending k = 0 := rfl

def FreeFor (s : DbStats n R) (t : Nat) (r : R) : Prop := ∀ u, u ≠ r → ¬(s.reporters u).Holds t

/-- The step touches no record that another thread's report holds, no counter overflows, and what is
printed fits `%d`. -/
def Undisturbed (s : DbStats n R) : StatsAction n R → Prop
  | .call t c => (∃ k, c.counts k = true) →
      (∀ r, ¬(s.reporters r).Holds t) ∧ ∀ k, s.threadStats t k + 1 < 2 ^ 64
  | .begin _ _ => True
  | .next r =>
    match s.reporters r with
    | .idle => True
    | .summing .intermediate _ _ => True
    | .summing .cumulative i acc =>
      (∀ t : Fin n, t = i → FreeFor s i r ∧ ∀ k, acc k + s.threadStats t k < 2 ^ 64) ∧
        (n ≤ i → ∀ k, acc k < 2 ^ 31)
    | .resetting i => FreeFor s i r

instance ReportPc.decidableHolds (t : Nat) : ∀ pc : ReportPc, Decidable (pc.Holds t)
  | .idle => isFalse id
  | .summing .intermediate _ _ => isFalse id
  | .summing .cumulative i _ => inferInstanceAs (Decidable (t < i))
  | .resetting i => inferInstanceAs (Decidable (i ≤ t))

instance decidableUndisturbed [Fintype R] [DecidableEq R] (s : DbStats n R) :
    DecidablePred (Undisturbed s) := by
  intro a
  unfold Undisturbed FreeFor
  cases a with
  | call t c => infer_instance
  | begin r type => infer_instance
  | next r =>
    dsimp only
    cases s.reporters r with
    | idle => infer_instance
    | summing type i acc => cases type <;> infer_instance
    | resetting i => infer_instance

/-! ## One record -/

theorem increment_apply (h : st k + 1 < 2 ^ 64)
    (j : StatCounter) : increment k st j = st j + if j = k then 1 else 0 := by
  unfold increment
  by_cases hj : j = k
  · subst hj
    rw [Function.update_self, if_pos rfl, Nat.mod_eq_of_lt h]
  · rw [Function.update_of_ne hj, if_neg hj, Nat.add_zero]

theorem dbUpdateThreadStats_apply (h : ∀ k, st k + 1 < 2 ^ 64) (type : QueryType)
    (k : StatCounter) :
    dbUpdateThreadStats type st k = st k + if type.counts k then 1 else 0 := by
  cases type with
  | read => rw [dbUpdateThreadStats, increment_apply (h _)]; cases k <;> rfl
  | write => rw [dbUpdateThreadStats, increment_apply (h _)]; cases k <;> rfl
  | other => rw [dbUpdateThreadStats, increment_apply (h _)]; cases k <;> rfl
  | commit =>
    have hother := increment_apply (h .otherOps)
    have htrans : increment .otherOps st .transactions + 1 < 2 ^ 64 := by
      rw [hother]
      exact h .transactions
    rw [dbUpdateThreadStats, increment_apply htrans, hother]
    cases k <;> rfl

theorem DbCall.run_apply {c : DbCall}
    (h : (∃ k, c.counts k = true) → ∀ k, st k + 1 < 2 ^ 64) (k : StatCounter) :
    c.run st k = st k + if c.counts k then 1 else 0 := by
  have hdeadlock : st .deadlocks + 1 < 2 ^ 64 →
      increment .deadlocks st k = st k + if k == .deadlocks then 1 else 0 := by
    intro hlt
    rw [increment_apply hlt]
    cases k <;> rfl
  have hquery : ∀ type : QueryType, (∃ k, type.counts k = true) := by
    intro type
    cases type with
    | read => exact ⟨.readOps, rfl⟩
    | write => exact ⟨.writeOps, rfl⟩
    | commit => exact ⟨.otherOps, rfl⟩
    | other => exact ⟨.otherOps, rfl⟩
  cases c with | _ _ errno =>
    cases errno with
    | none => exact dbUpdateThreadStats_apply (h (hquery _)) _ k
    | deadlock => exact hdeadlock (h ⟨.deadlocks, rfl⟩ _)
    | failed => rfl

theorem addStat_eq (h : acc k + st k < 2 ^ 64) :
    addStat acc st k = acc k + st k := Nat.mod_eq_of_lt h

theorem printStat_eq (h : acc k < 2 ^ 31) :
    printStat acc k = acc k := int32_eq (by omega) (by omega)

/-! ## The equation -/

def Held (s : DbStats n R) (t : Nat) : Prop := ∃ r, (s.reporters r).Holds t

open Classical in
noncomputable def unheld (s : DbStats n R) (k : StatCounter) (t : Fin n) : Nat :=
  if Held s t then 0 else s.threadStats t k

theorem unheld_of_held {s : DbStats n R} (h : Held s t) (k : StatCounter) :
    unheld s k t = 0 := if_pos h

theorem unheld_of_not_held {s : DbStats n R} {t : Fin n} (h : ¬Held s t) (k : StatCounter) :
    unheld s k t = s.threadStats t k := if_neg h

theorem unheld_congr_at {s s' : DbStats n R}
    (hheld : Held s' t ↔ Held s t) (hstats : s'.threadStats t k = s.threadStats t k) :
    unheld s' k t = unheld s k t := by
  by_cases h : Held s t
  · rw [unheld_of_held h, unheld_of_held (hheld.mpr h)]
  · rw [unheld_of_not_held h, unheld_of_not_held (mt hheld.mp h), hstats]

theorem unheld_congr {s s' : DbStats n R} {t : Fin n} (hheld : Held s' t ↔ Held s t)
    (hstats : s'.threadStats t = s.threadStats t) (k : StatCounter) :
    unheld s' k t = unheld s k t := unheld_congr_at hheld (by rw [hstats])

structure Balanced [Fintype R] (s : DbStats n R) : Prop where
  exclusive : ∀ (t : Fin n) (r u : R), (s.reporters r).Holds t → (s.reporters u).Holds t → r = u
  balance : ∀ k, totalPrinted s k +
    ((∑ r, (s.reporters r).pending k + ∑ t, unheld s k t : Nat) : Int) =
      s.executed.countP (DbCall.counts k)

theorem balanced_init [Fintype R] : Balanced (dbStatsInit n R) where
  exclusive _ _ _ h := h.elim
  balance k := by
    have hzero : ∀ t : Fin n, unheld (dbStatsInit n R) k t = 0 :=
      fun t => unheld_of_not_held (fun ⟨_, h⟩ => h) k
    simp only [hzero]
    simp [totalPrinted, dbStatsInit, ReportPc.pending]

/-! ## Steps -/

variable [DecidableEq R] [Fintype R] {s s' : DbStats n R} {r : R} {pc : ReportPc}

attribute [local grind =] Function.update_apply

theorem sum_pending (hpc : s'.reporters = Function.update s.reporters r pc) (k : StatCounter) :
    ∑ u, (s'.reporters u).pending k + (s.reporters r).pending k =
      ∑ u, (s.reporters u).pending k + pc.pending k := by
  have hchange := sum_change (f := fun u => (s.reporters u).pending k)
    (g := fun u => (s'.reporters u).pending k) r fun u hu => by
      rw [hpc, Function.update_of_ne hu]
  rw [hchange, hpc, Function.update_self]

theorem Balanced.move (h : Balanced s) (hpc : s'.reporters = Function.update s.reporters r pc)
    (hstats : s'.threadStats = s.threadStats) (hexecuted : s'.executed = s.executed)
    (hholds : ∀ t : Fin n, pc.Holds t ↔ (s.reporters r).Holds t)
    (hprinted : ∀ k, totalPrinted s' k + pc.pending k =
      totalPrinted s k + (s.reporters r).pending k) : Balanced s' := by
  have hsame : ∀ (u : R) (t : Fin n), (s'.reporters u).Holds t ↔ (s.reporters u).Holds t := by
    rw [hpc]
    grind
  refine ⟨fun t u v hu hv => h.exclusive t u v ((hsame u t).mp hu) ((hsame v t).mp hv), fun k => ?_⟩
  have hunheld : ∀ t, unheld s' k t = unheld s k t :=
    fun t => unheld_congr (exists_congr fun u => hsame u t) (by rw [hstats]) k
  have hpending := sum_pending hpc k
  have hbalance := h.balance k
  have hprint := hprinted k
  rw [hexecuted]
  simp only [hunheld]
  push_cast at hbalance ⊢
  zify at hpending
  linarith

theorem Balanced.hold (h : Balanced s) (t : Fin n)
    (hpc : s'.reporters = Function.update s.reporters r pc)
    (hstats : s'.threadStats = s.threadStats) (hexecuted : s'.executed = s.executed)
    (hprinted : s'.printed = s.printed) (hfree : ∀ u, ¬(s.reporters u).Holds t)
    (hholds : ∀ u : Fin n, pc.Holds u ↔ (s.reporters r).Holds u ∨ u = t)
    (hpending : ∀ k, pc.pending k = (s.reporters r).pending k + s.threadStats t k) :
    Balanced s' := by
  have hexclusive := h.exclusive
  -- only `r` holds the record now, and nothing else has changed hands
  have hheld : ∀ u : Fin n, Held s' u ↔ Held s u ∨ u = t := by
    unfold Held
    rw [hpc]
    refine fun u => ⟨by grind, ?_⟩
    rintro (⟨v, hv⟩ | rfl)
    · exact ⟨v, by grind⟩
    · exact ⟨r, by grind⟩
  refine ⟨fun u v w hv hw => ?_, fun k => ?_⟩
  · rw [hpc] at hv hw
    grind
  · have hchange := sum_change (f := fun u => unheld s k u) (g := fun u => unheld s' k u) t
      fun u hu => unheld_congr ((hheld u).trans (or_iff_left hu)) (by rw [hstats]) k
    have hzero : unheld s' k t = 0 := unheld_of_held ((hheld t).mpr (Or.inr rfl)) k
    have hvalue : unheld s k t = s.threadStats t k := unheld_of_not_held (fun ⟨u, hu⟩ => hfree u hu) k
    have hsum := sum_pending hpc k
    rw [hpending k] at hsum
    have hbalance := h.balance k
    have hprint : totalPrinted s' k = totalPrinted s k := by rw [totalPrinted, hprinted]; rfl
    rw [hexecuted, hprint, ← hbalance]
    simp only [hzero, hvalue] at hchange
    congr 2
    omega

theorem Balanced.release (h : Balanced s) (t : Fin n)
    (hpc : s'.reporters = Function.update s.reporters r pc)
    (hstats : s'.threadStats = Function.update s.threadStats t zeroStat)
    (hexecuted : s'.executed = s.executed) (hprinted : s'.printed = s.printed)
    (hmine : (s.reporters r).Holds t) (hholds : ∀ u : Fin n, u ≠ t → (pc.Holds u ↔ (s.reporters r).Holds u))
    (hgone : ¬pc.Holds t) (hpending : ∀ k, pc.pending k = (s.reporters r).pending k) :
    Balanced s' := by
  have hexclusive := h.exclusive
  have hsame : ∀ (v : R) (u : Fin n), u ≠ t → ((s'.reporters v).Holds u ↔ (s.reporters v).Holds u) := by
    rw [hpc]
    grind
  -- nobody else held it
  have hfree : ¬Held s' t := by
    unfold Held
    rw [hpc]
    grind
  refine ⟨fun u v w hv hw => ?_, fun k => ?_⟩
  · have hut : u ≠ t := fun hut => hfree ⟨v, hut ▸ hv⟩
    exact h.exclusive u v w ((hsame v u hut).mp hv) ((hsame w u hut).mp hw)
  · have hunheld : ∀ u, unheld s' k u = unheld s k u := by
      intro u
      by_cases hut : u = t
      · subst hut
        rw [unheld_of_not_held hfree, unheld_of_held ⟨r, hmine⟩, hstats, Function.update_self]
        rfl
      · exact unheld_congr (exists_congr fun v => hsame v u hut)
          (by rw [hstats, Function.update_of_ne hut]) k
    have hsum := sum_pending hpc k
    rw [hpending k] at hsum
    have hprint : totalPrinted s' k = totalPrinted s k := by rw [totalPrinted, hprinted]; rfl
    rw [hexecuted, hprint, ← h.balance k]
    simp only [hunheld]
    congr 3
    omega

omit [DecidableEq R] in
theorem Balanced.call (h : Balanced s) (t : Fin n) (c : DbCall) (hok : Undisturbed s (.call t c)) :
    Balanced (countCall s t c) := by
  have hrun := fun k => DbCall.run_apply (fun hc => (hok hc).2) k
  have hself : (countCall s t c).threadStats t = c.run (s.threadStats t) := Function.update_self ..
  refine ⟨h.exclusive, fun k => ?_⟩
  have hbalance := h.balance k
  have hchange := sum_change (f := fun u => unheld s k u) (g := fun u => unheld (countCall s t c) k u) t
    fun u hu => @unheld_congr n R s (countCall s t c) u Iff.rfl (Function.update_of_ne hu ..) k
  have hcount : (countCall s t c).executed.countP (DbCall.counts k) =
      s.executed.countP (DbCall.counts k) + if c.counts k then 1 else 0 := List.countP_cons
  have hafter : unheld (countCall s t c) k t = unheld s k t + if c.counts k then 1 else 0 := by
    cases hc : c.counts k with
    | false =>
      refine unheld_congr_at Iff.rfl ?_
      rw [hself, hrun k, hc]
      rfl
    | true =>
      -- nobody holds the record
      have hnot : ¬Held s t := fun ⟨r, hr⟩ => (hok ⟨k, hc⟩).1 r hr
      rw [unheld_of_not_held hnot, @unheld_of_not_held n R (countCall s t c) t hnot, hself, hrun k, hc]
  rw [hcount]
  have hprint : totalPrinted (countCall s t c) k = totalPrinted s k := rfl
  have hpending : ∑ r, ((countCall s t c).reporters r).pending k = ∑ r, (s.reporters r).pending k := rfl
  rw [hprint, hpending]
  push_cast at hbalance ⊢
  rw [hafter] at hchange
  zify at hchange
  linarith

theorem Balanced.next (h : Balanced s) (hok : Undisturbed s (.next r)) (hs : reportStep s r = some s') :
    Balanced s' := by
  unfold reportStep at hs
  rw [Undisturbed] at hok
  cases hpc : s.reporters r with
  | idle =>
    rw [hpc] at hs
    exact absurd hs (by simp)
  | summing type i acc =>
    rw [hpc] at hs hok
    dsimp only at hs
    by_cases hi : i < n
    · rw [dif_pos hi] at hs
      obtain rfl := Option.some.inj hs
      -- only a cumulative report takes the counters of a thread
      cases type with
      | intermediate =>
        exact h.move rfl rfl rfl (fun t => by rw [hpc]; rfl) fun k => by rw [hpc]; rfl
      | cumulative =>
        obtain ⟨hfree, hfits⟩ := hok.1 ⟨i, hi⟩ rfl
        refine h.hold ⟨i, hi⟩ rfl rfl rfl rfl (fun u hu => ?_) (fun u => ?_) fun k => ?_
        · by_cases hur : u = r
          · subst hur
            rw [hpc] at hu
            exact absurd hu (Nat.lt_irrefl i)
          · exact hfree u hur hu
        · rw [hpc, Fin.ext_iff]
          exact Nat.lt_succ_iff_lt_or_eq
        · rw [hpc, ReportPc.pending, ReportPc.pending, addStat_eq (hfits k)]
    · rw [dif_neg hi] at hs
      cases type with
      | intermediate =>
        obtain rfl := Option.some.inj hs
        exact h.move rfl rfl rfl (fun t => by rw [hpc]; rfl) fun k => by rw [hpc]; rfl
      | cumulative =>
        obtain rfl := Option.some.inj hs
        -- what was summed up is printed, and the counters of all threads are still to be cleared
        refine h.move rfl rfl rfl (fun t => ?_) fun k => ?_
        · rw [hpc]
          exact iff_of_true (Nat.zero_le _) (lt_of_lt_of_le t.isLt (Nat.not_lt.mp hi))
        · rw [hpc, totalPrinted_cons rfl, printStat_eq (hok.2 (Nat.not_lt.mp hi) k),
            ReportPc.pending_resetting, ReportPc.pending, Nat.cast_zero, add_zero, add_comm]
  | resetting i =>
    rw [hpc] at hs hok
    dsimp only at hs
    by_cases hi : i < n
    · rw [dif_pos hi] at hs
      obtain rfl := Option.some.inj hs
      -- the counters that are cleared here have been printed
      refine h.release ⟨i, hi⟩ rfl rfl rfl rfl ?_ (fun u hu => ?_) ?_ fun k => ?_
      · rw [hpc]
        exact Nat.le_refl i
      · rw [hpc]
        have hne : (u : Nat) ≠ i := fun he => hu (Fin.ext he)
        exact ⟨fun hle => Nat.le_of_succ_le hle, fun hle => lt_of_le_of_ne hle hne.symm⟩
      · exact Nat.not_succ_le_self i
      · rw [hpc]
        rfl
    · rw [dif_neg hi] at hs
      obtain rfl := Option.some.inj hs
      refine h.move rfl rfl rfl (fun t => ?_) fun k => by rw [hpc]; rfl
      rw [hpc]
      exact iff_of_false id fun hle => hi (lt_of_le_of_lt hle t.isLt)

theorem balanced_step {a : StatsAction n R} (h : Balanced s) (hok : Undisturbed s a)
    (hs : statsStep s a = some s') : Balanced s' := by
  cases a with
  | call t c =>
    obtain rfl := Option.some.inj hs
    exact h.call t c hok
  | begin r type =>
    rw [statsStep] at hs
    cases hpc : s.reporters r with
    | idle =>
      rw [hpc] at hs
      obtain rfl := Option.some.inj hs
      refine h.move rfl rfl rfl (fun t => ?_) fun k => ?_
      · rw [hpc]
        cases type <;> exact iff_of_false (fun hn => absurd hn (by simp [ReportPc.Holds])) id
      · rw [hpc]
        cases type <;> rfl
    | summing => rw [hpc] at hs; exact absurd hs (by simp)
    | resetting => rw [hpc] at hs; exact absurd hs (by simp)
  | next r => exact h.next hok hs

end Account

/-- When a report has printed its values, no other is under way, and no step has touched a record
that another report held, then every operation has been printed once. A record is added up in one
section and set to zero in another pass, and what is counted in between is lost. -/
theorem db_stats_account {n : Nat} {R : Type} [Fintype R] [DecidableEq R] {s : DbStats n R}
    (h : ReachableBy statsStep Undisturbed (dbStatsInit n R) s) (r : R)
    (hlast : s.reporters r = .resetting 0) (hothers : ∀ u, u ≠ r → s.reporters u = .idle) :
    PrintedAll s := by
  have hbal : Balanced s := h.invariant balanced_init fun _ _ _ hb hok hs => balanced_step hb hok hs
  intro k
  have hunheld : ∀ t, unheld s k t = 0 := fun t =>
    unheld_of_held ⟨r, by rw [hlast]; exact Nat.zero_le _⟩ k
  have hpending : ∀ u, (s.reporters u).pending k = 0 := by
    intro u
    by_cases hu : u = r
    · rw [hu, hlast]
      rfl
    · rw [hothers u hu]
      rfl
  have hbalance := hbal.balance k
  simpa only [hunheld, hpending, Finset.sum_const_zero, Nat.add_zero, Nat.cast_zero, add_zero] using
    hbalance

/-- Two threads work, and an intermediate report of one reporter runs in between the sections of a cumulative
one of the other. -/
def twoReports : List (StatsAction 2 Bool) :=
  let first := (Fin.last 0).castSucc
  let second := Fin.last 1
  [.call first (.query "select 1".toList .none), .begin false .cumulative, .begin true .intermediate,
    .call second (.query "update t".toList .none), .next true, .next false,
    .call second (.query "select 2".toList .none), .next true, .next false, .next true, .next false]

theorem db_stats_account_twoReports : ∃ s : DbStats 2 Bool,
    ReachableBy statsStep Undisturbed (dbStatsInit 2 Bool) s ∧
      totalPrinted s .readOps = 2 ∧ totalPrinted s .writeOps = 1 ∧ PrintedAll s := by
  obtain ⟨s, hs, hlast, hother, hread, hwrite⟩ : ∃ s, runSteps statsStep (dbStatsInit 2 Bool) twoReports = some s ∧
      s.reporters false = .resetting 0 ∧ s.reporters true = .idle ∧
      totalPrinted s .readOps = 2 ∧ totalPrinted s .writeOps = 1 :=
    ⟨_, rfl, rfl, rfl, by decide +kernel, by decide +kernel⟩
  have heach : EachStep statsStep Undisturbed (dbStatsInit 2 Bool) twoReports := by decide +kernel
  have hreach := EachStep.reachableBy twoReports heach hs .start
  refine ⟨s, hreach, hread, hwrite, db_stats_account hreach false hlast fun u hu => ?_⟩
  cases u with
  | false => exact absurd rfl hu
  | true => exact hother

/-- A query between the section of a report for its thread and the reset is never printed. -/
theorem db_stats_lost_query : ∃ s : DbStats 1 Unit,
    runSteps statsStep (dbStatsInit 1 Unit)
      [.begin () .cumulative, .next (), .call 0 (.query "select 1".toList .none), .next (), .next (),
        .next (), .begin () .cumulative, .next (), .next ()] = some s ∧
    s.reporters () = .resetting 0 ∧ s.executed = [.query "select 1".toList .none] ∧
    totalPrinted s .readOps = 0 ∧ ¬PrintedAll s := by
  refine ⟨_, rfl, rfl, rfl, by decide +kernel, fun h => ?_⟩
  exact absurd (h .readOps) (by decide +kernel)

end MysqlBench.Sysbench
