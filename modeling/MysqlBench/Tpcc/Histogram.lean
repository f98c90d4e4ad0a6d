import Mathlib

/-!
# The response times (`rthist.c`)

Two arrays of counters for every kind of transaction: `hist_inc` counts in `cur_hist`, and `hist_ckp` moves
what is there to `total_hist` and says where ninety-nine hundredths of it lie. What the counters hold is read
off the calls: those since the last checkpoint of the kind are in `cur_hist`, those before it in `total_hist`
(`cur_run`, `total_run`).

The scan of `hist_ckp` goes up and keeps the first bucket that reaches the threshold (`ckpLoop_spec`), that
of `hist_report` goes down and keeps the last one that it may (`reportLoop_spec`). Counters are natural
numbers: with counts below 2³¹/100 neither `total*99` nor `tmp*10` overflows.
-/

namespace MysqlBench.Tpcc

structure Hist where
  total : Nat → Nat → Nat
  cur : Nat → Nat → Nat

def setEntry (f : Nat → Nat → Nat) (t i v : Nat) : Nat → Nat → Nat :=
  fun t' i' => if t' = t ∧ i' = i then v else f t' i'

def histInit : Hist := ⟨fun _ _ => 0, fun _ _ => 0⟩

variable (recs : Nat)

def histBucket (i : Nat) : Nat := if recs ≤ i then recs - 1 else i

def histInc (h : Hist) (t i : Nat) : Hist :=
  { h with cur := setEntry h.cur t (histBucket recs i) (h.cur t (histBucket recs i) + 1) }

/-! ## The checkpoint -/

def sumLoop (f : Nat → Nat) (n : Nat) : Nat := (List.range n).foldl (fun total i => total + f i) 0

structure CkpState where
  tmp : Nat
  line : Nat
  lineSet : Bool
  hist : Hist

def ckpRound (t total : Nat) (s : CkpState) (i : Nat) : CkpState :=
  let tmp := s.tmp + s.hist.cur t i
  let hist := { s.hist with total := setEntry s.hist.total t i (s.hist.total t i + s.hist.cur t i) }
  let hist := { hist with cur := setEntry hist.cur t i 0 }
  if total * 99 / 100 ≤ tmp ∧ s.lineSet = false then ⟨tmp, i, true, hist⟩ else ⟨tmp, s.line, s.lineSet, hist⟩

def ckpLoop (t total : Nat) (h : Hist) (n : Nat) : CkpState :=
  (List.range n).foldl (ckpRound t total) ⟨0, recs, false, h⟩

def histCkp (h : Hist) (t : Nat) : Nat × Hist :=
  let s := ckpLoop recs t (sumLoop (h.cur t) recs) h recs
  (s.line, s.hist)

def below (f : Nat → Nat) (n : Nat) : Nat := ∑ i ∈ Finset.range n, f i

theorem sumLoop_eq (f : Nat → Nat) (n : Nat) : sumLoop f n = below f n := by
  induction n with
  | zero => rfl
  | succ n ih =>
    rw [sumLoop, List.range_succ, List.foldl_append, below, Finset.sum_range_succ]
    exact congrArg (· + f n) ih

/-- After `n` rounds: `tmp` is what has been gone through, the line is the first bucket that reached the
threshold if one has, and the entries of `t` below `n` have moved. -/
structure CkpSpec (t total : Nat) (h : Hist) (n : Nat) (s : CkpState) : Prop where
  tmp : s.tmp = below (h.cur t) n
  unset : s.lineSet = false → s.line = recs ∧ ∀ i < n, below (h.cur t) (i + 1) < total * 99 / 100
  set : s.lineSet = true → s.line < n ∧ total * 99 / 100 ≤ below (h.cur t) (s.line + 1) ∧
    ∀ i < s.line, below (h.cur t) (i + 1) < total * 99 / 100
  total : ∀ t' i, s.hist.total t' i = h.total t' i + if t' = t ∧ i < n then h.cur t i else 0
  cur : ∀ t' i, s.hist.cur t' i = if t' = t ∧ i < n then 0 else h.cur t' i

theorem ckpLoop_spec (t total : Nat) (h : Hist) (n : Nat) : CkpSpec recs t total h n (ckpLoop recs t total h n) := by
  induction n with
  | zero => exact ⟨rfl, fun _ => ⟨rfl, by simp⟩, fun hs => absurd hs Bool.false_ne_true, by simp [ckpLoop], by simp [ckpLoop]⟩
  | succ n ih =>
    have hround : ckpLoop recs t total h (n + 1) = ckpRound t total (ckpLoop recs t total h n) n := by
      rw [ckpLoop, List.range_succ, List.foldl_append]
      rfl
    rw [hround]
    generalize ckpLoop recs t total h n = s at ih
    obtain ⟨htmp, hunset, hset, htotal, hcur⟩ := ih
    have hn : s.hist.cur t n = h.cur t n := by simp [hcur]
    have hbelow : below (h.cur t) (n + 1) = s.tmp + s.hist.cur t n := by
      rw [htmp, hn]
      exact Finset.sum_range_succ _ _
    have htotal' : ∀ t' i, setEntry s.hist.total t n (s.hist.total t n + s.hist.cur t n) t' i =
        h.total t' i + if t' = t ∧ i < n + 1 then h.cur t i else 0 := by
      intro t' i
      rw [hn, setEntry, htotal, htotal]
      grind
    have hcur' : ∀ t' i, setEntry s.hist.cur t n 0 t' i = if t' = t ∧ i < n + 1 then 0 else h.cur t' i := by
      intro t' i
      rw [setEntry, hcur]
      grind
    simp only [ckpRound]
    split
    · -- the line is crossed in this bucket for the first time
      rename_i hreach
      refine ⟨hbelow.symm, fun hs => absurd hs Bool.noConfusion, fun _ => ?_, htotal', hcur'⟩
      exact ⟨Nat.lt_succ_self n, hbelow ▸ hreach.1, (hunset hreach.2).2⟩
    · rename_i hreach
      refine ⟨hbelow.symm, fun hs => ⟨(hunset hs).1, fun i hi => ?_⟩, fun hs => ?_, htotal', hcur'⟩
      · have hs : s.lineSet = false := hs
        cases Nat.lt_succ_iff_lt_or_eq.mp hi with
        | inl hi => exact (hunset hs).2 i hi
        | inr hi =>
          rw [hi, hbelow]
          exact not_le.mp fun hle => hreach ⟨hle, hs⟩
      · exact ⟨Nat.lt_succ_of_lt (hset hs).1, (hset hs).2⟩

theorem CkpSpec.isLeast {recs t n : Nat} (hn : 0 < n) {h : Hist} {s : CkpState}
    (hs : CkpSpec recs t (below (h.cur t) n) h n s) :
    IsLeast {b | b < n ∧ below (h.cur t) n * 99 / 100 ≤ below (h.cur t) (b + 1)} s.line := by
  cases hset : s.lineSet with
  | true =>
    obtain ⟨hlt, hreach, hfirst⟩ := hs.set hset
    exact ⟨⟨hlt, hreach⟩, fun b hb => not_lt.mp fun hlt => absurd hb.2 (not_le.mpr (hfirst b hlt))⟩
  | false =>
    have hlast := (hs.unset hset).2 (n - 1) (Nat.sub_lt hn Nat.one_pos)
    rw [Nat.sub_add_cancel hn] at hlast
    omega

theorem histCkp_eq (h : Hist) (t : Nat) :
    histCkp recs h t = ((ckpLoop recs t (below (h.cur t) recs) h recs).line,
      (ckpLoop recs t (below (h.cur t) recs) h recs).hist) := by
  rw [← sumLoop_eq, histCkp]

/-! ## The report -/

def reportLoop (f : Nat → Nat) (total : Nat) : Nat → Nat → Nat → Nat
  | 0, _, line => line
  | i + 1, tmp, line =>
    let tmp := tmp + f i
    reportLoop f total i tmp (if tmp * 10 ≤ total then i else line)

def histReport (h : Hist) (t : Nat) : Nat :=
  reportLoop (h.total t) (sumLoop (h.total t) recs) recs 0 recs

def upwards (f : Nat → Nat) (l : Nat) : Nat := ∑ i ∈ Finset.Ico l recs, f i

theorem upwards_eq (f : Nat → Nat) {i : Nat} (h : i < recs) : upwards recs f i = upwards recs f (i + 1) + f i := by
  rw [upwards, Finset.sum_eq_sum_Ico_succ_bot h, Nat.add_comm]
  rfl

theorem reportLoop_spec (f : Nat → Nat) (total : Nat) {i tmp line : Nat} (hi : i ≤ recs)
    (htmp : tmp = upwards recs f i) (hline : upwards recs f line * 10 ≤ total)
    (hleast : ∀ l, i ≤ l → upwards recs f l * 10 ≤ total → line ≤ l) :
    IsLeast {l | upwards recs f l * 10 ≤ total} (reportLoop f total i tmp line) := by
  induction i generalizing tmp line with
  | zero => exact ⟨hline, fun l hl => hleast l (Nat.zero_le l) hl⟩
  | succ i ih =>
    have heq : tmp + f i = upwards recs f i := by rw [htmp, ← upwards_eq recs f hi]
    rw [reportLoop]
    refine ih (by omega) heq ?_ fun l hl hle => ?_
    · split
      · rwa [← heq]
      · exact hline
    · split
      · exact hl
      · rename_i hno
        refine hleast l (Nat.lt_of_le_of_ne hl fun hil => hno ?_) hle
        rwa [heq, hil]

theorem histReport_spec (h : Hist) (t : Nat) :
    IsLeast {l | upwards recs (h.total t) l * 10 ≤ below (h.total t) recs} (histReport recs h t) := by
  unfold histReport
  rw [sumLoop_eq]
  have hzero : upwards recs (h.total t) recs = 0 := by simp [upwards]
  refine reportLoop_spec recs _ _ le_rfl hzero.symm (by simp [hzero]) fun l hl _ => hl

/-! ## Runs -/

inductive HistCall where
  | inc (transaction i : Nat)
  | ckp (transaction : Nat)
  deriving DecidableEq

def histRun : List HistCall → Hist
  | [] => histInit
  | .inc t i :: calls => histInc recs (histRun calls) t i
  | .ckp t :: calls => (histCkp recs (histRun calls) t).2

def HistCall.countsIn (t : Nat) (bs : Finset Nat) : HistCall → Bool
  | .inc t' i => t' = t ∧ histBucket recs i ∈ bs
  | .ckp _ => false

def samples (t : Nat) (bs : Finset Nat) (calls : List HistCall) : Nat := calls.countP (HistCall.countsIn recs t bs)

def sinceCkp (t : Nat) (calls : List HistCall) : List HistCall := calls.takeWhile (· ≠ .ckp t)

def beforeCkp (t : Nat) (calls : List HistCall) : List HistCall := calls.dropWhile (· ≠ .ckp t)

theorem samples_since_before (t : Nat) (bs : Finset Nat) (calls : List HistCall) :
    samples recs t bs calls = samples recs t bs (sinceCkp t calls) + samples recs t bs (beforeCkp t calls) := by
  rw [samples, samples, samples, ← List.countP_append, sinceCkp, beforeCkp, List.takeWhile_append_dropWhile]

theorem sum_samples (t : Nat) (bs : Finset Nat) (calls : List HistCall) :
    ∑ b ∈ bs, samples recs t {b} calls = samples recs t bs calls := by
  induction calls with
  | nil => simp [samples]
  | cons c calls ih =>
    have hc : ∑ b ∈ bs, (if c.countsIn recs t {b} then 1 else 0) = if c.countsIn recs t bs then 1 else 0 := by
      cases c with
      | inc t' i => by_cases ht : t' = t <;> simp [HistCall.countsIn, ht]
      | ckp t' => simp [HistCall.countsIn]
    simp only [samples, List.countP_cons, Finset.sum_add_distrib] at ih ⊢
    rw [ih, hc]

theorem hist_run (calls : List HistCall) (t : Nat) {b : Nat} (hb : b < recs) :
    (histRun recs calls).cur t b = samples recs t {b} (sinceCkp t calls) ∧
      (histRun recs calls).total t b = samples recs t {b} (beforeCkp t calls) := by
  induction calls with
  | nil => exact ⟨rfl, rfl⟩
  | cons c calls ih =>
    cases c with
    | inc t' i =>
      have hsince : sinceCkp t (.inc t' i :: calls) = .inc t' i :: sinceCkp t calls := by simp [sinceCkp]
      have hbefore : beforeCkp t (.inc t' i :: calls) = beforeCkp t calls := by simp [beforeCkp]
      rw [hsince, hbefore]
      rw [histRun, histInc]
      refine ⟨?_, ih.2⟩
      simp only [setEntry]
      rw [samples, List.countP_cons, ← samples, ← ih.1]
      -- the sample belongs to this transaction and this bucket, or to another one
      by_cases hin : t = t' ∧ b = histBucket recs i
      · simp [HistCall.countsIn, hin]
      · have hnot : HistCall.countsIn recs t {b} (.inc t' i) = false := by
          simp only [HistCall.countsIn, Finset.mem_singleton, decide_eq_false_iff_not]
          exact fun h => hin ⟨h.1.symm, h.2.symm⟩
        rw [if_neg hin, hnot]
        rfl
    | ckp t' =>
      have hspec := ckpLoop_spec recs t' (below ((histRun recs calls).cur t') recs) (histRun recs calls) recs
      rw [histRun, histCkp_eq recs, hspec.total, hspec.cur]
      -- a checkpoint moves the samples of its own transaction only
      by_cases ht : t = t'
      · have hsince : sinceCkp t (.ckp t' :: calls) = [] := by simp [sinceCkp, ht]
        have hbefore : samples recs t {b} (beforeCkp t (.ckp t' :: calls)) = samples recs t {b} calls := by
          simp [beforeCkp, ht, samples, HistCall.countsIn]
        rw [hsince, hbefore, samples_since_before recs t {b} calls, ← ih.1, ← ih.2]
        simp [ht, hb, samples, Nat.add_comm]
      · have hsince : samples recs t {b} (sinceCkp t (.ckp t' :: calls)) = samples recs t {b} (sinceCkp t calls) := by
          simp [sinceCkp, Ne.symm ht, samples, HistCall.countsIn]
        have hbefore : beforeCkp t (.ckp t' :: calls) = beforeCkp t calls := by
          simp [beforeCkp, Ne.symm ht]
        rw [hsince, hbefore]
        simpa [ht] using ih

theorem below_cur (calls : List HistCall) (t : Nat) {n : Nat} (hn : n ≤ recs) :
    below ((histRun recs calls).cur t) n = samples recs t (Finset.range n) (sinceCkp t calls) := by
  rw [← sum_samples recs]
  exact Finset.sum_congr rfl fun b hb => (hist_run recs calls t ((Finset.mem_range.mp hb).trans_le hn)).1

/-- After any calls, for every kind of transaction: the counters hold the number of calls of `hist_inc`; the
line of `hist_ckp` is the first bucket up to which ninety-nine hundredths of those since the last checkpoint
lie; and the line of `hist_report` is the first one from which on there lies at most a tenth of the others. -/
theorem hist_counts {recs : Nat} (hpos : 0 < recs) (calls : List HistCall) (t : Nat) :
    (∀ b < recs, (histRun recs calls).total t b + (histRun recs calls).cur t b = samples recs t {b} calls) ∧
      IsLeast {b | b < recs ∧ samples recs t (Finset.range recs) (sinceCkp t calls) * 99 / 100 ≤
        samples recs t (Finset.range (b + 1)) (sinceCkp t calls)} (histCkp recs (histRun recs calls) t).1 ∧
      IsLeast {l | samples recs t (Finset.Ico l recs) (beforeCkp t calls) * 10 ≤
        samples recs t (Finset.range recs) (beforeCkp t calls)} (histReport recs (histRun recs calls) t) := by
  refine ⟨fun b hb => ?_, ?_, ?_⟩
  · obtain ⟨hcur, htotal⟩ := hist_run recs calls t hb
    rw [hcur, htotal, samples_since_before recs t {b} calls, Nat.add_comm]
  · have hleast := (ckpLoop_spec recs t _ (histRun recs calls) recs).isLeast hpos
    rw [histCkp_eq]
    refine (Set.ext fun b => and_congr_right fun hb => ?_) ▸ hleast
    rw [below_cur recs calls t le_rfl, below_cur recs calls t hb]
  · have hsum : ∀ bs ⊆ Finset.range recs, ∑ b ∈ bs, (histRun recs calls).total t b =
        samples recs t bs (beforeCkp t calls) := by
      intro bs hbs
      rw [← sum_samples]
      exact Finset.sum_congr rfl fun b hb => (hist_run recs calls t (Finset.mem_range.mp (hbs hb))).2
    have hleast := histReport_spec recs (histRun recs calls) t
    have hupwards : ∀ l, upwards recs ((histRun recs calls).total t) l =
        samples recs t (Finset.Ico l recs) (beforeCkp t calls) :=
      fun l => hsum _ fun b hb => Finset.mem_range.mpr (Finset.mem_Ico.mp hb).2
    simp only [hupwards] at hleast
    rwa [below, hsum _ (Finset.Subset.refl _)] at hleast

def histRecs : Nat := 20 * 1000

/-- A response time of five milliseconds before a checkpoint and one beyond the last bucket after it. -/
theorem hist_counts_two : (histRun histRecs [.inc 0 70000, .ckp 0, .inc 0 5]).total 0 5 +
    (histRun histRecs [.inc 0 70000, .ckp 0, .inc 0 5]).cur 0 5 =
      samples histRecs 0 {5} [.inc 0 70000, .ckp 0, .inc 0 5] :=
  (hist_counts (by decide) [.inc 0 70000, .ckp 0, .inc 0 5] 0).1 5 (by decide)

end MysqlBench.Tpcc
