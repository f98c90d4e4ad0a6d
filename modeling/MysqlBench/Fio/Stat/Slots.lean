import MysqlBench.Fio.Stat.Net

/-!
# `stat.c` — the slots of the report

`__show_run_stats` reports one `struct thread_stat` per job, or per group for the jobs that ask for it.
A first loop over the jobs counts the slots, a second one fills them, and a third one adds each slot to
the statistics of the group it names.

The two loops decide differently whether a job opens a slot. The first one looks for the last job that
reported with its group, the second one for the last job of any kind. So they part where a job that
reports with its group follows one of the same group that does not: `slots_match_iff` says that the
count is right exactly if the first job of every group reports with it as soon as any job does.

Both sides are read off one prefix of the jobs at a time. `nrTs_concat` and `openedSlots_concat` say
when a further job opens a slot in the one and in the other loop, and `openedSlots_le` compares the
counts.
-/

namespace MysqlBench.Fio

open MysqlBench.Lib

/-! ## The loops -/

structure ReportedJob where
  groupid : BitVec 32
  groupid_lt : groupid.toNat < 2 ^ 31
  groupReporting : Bool
  name : List Byte
  description : Option (List Byte)
  threadNumber : BitVec 32
  pid : BitVec 32
  kbBase : BitVec 32
  unitBase : BitVec 32
  unifiedRwRep : BitVec 32
  clatPercentiles : BitVec 64
  percentilePrecision : BitVec 64
  percentileList : Fin 20 → ℚ
  continueOnError : BitVec 16
  totalErrCount : BitVec 64
  firstError : BitVec 32
  error : BitVec 32
  verror : List Byte
  latencyQd : BitVec 32
  latencyTarget : BitVec 64
  latencyPercentile : ℚ
  latencyWindow : BitVec 64
  ts : ThreadStat ℚ

def noGroup : BitVec 32 := BitVec.allOnes 32

structure SlotCount where
  nrTs : Nat
  lastTs : BitVec 32

def countSlot (s : SlotCount) (td : ReportedJob) : SlotCount :=
  if !td.groupReporting then { s with nrTs := s.nrTs + 1 }
  else if s.lastTs = td.groupid then s
  else ⟨s.nrTs + 1, td.groupid⟩

def countSlots (jobs : List ReportedJob) : SlotCount := jobs.foldl countSlot ⟨0, noGroup⟩

structure SlotCursor where
  j : Nat
  lastTs : BitVec 32
  idx : Nat

def moveCursor (c : SlotCursor) (td : ReportedJob) : SlotCursor :=
  if c.idx ≠ 0 ∧ (!td.groupReporting ∨ (td.groupReporting ∧ c.lastTs ≠ td.groupid)) then
    ⟨c.j + 1, td.groupid, 1⟩
  else ⟨c.j, td.groupid, c.idx + 1⟩

def slotCursor (jobs : List ReportedJob) : SlotCursor := jobs.foldl moveCursor ⟨0, noGroup, 0⟩

def firstMember (ts : ThreadStat ℚ) (td : ReportedJob) : ThreadStat ℚ :=
  { ts with
    str := fun
      | .name => td.name.take 127
      | .description => (td.description.map (List.take 255)).getD []
      | f => ts.str f
    u32 := fun
      | .threadNumber => td.threadNumber
      | .groupid => td.groupid
      | .pid => td.pid
      | .kbBase => td.kbBase
      | .unitBase => td.unitBase
      | .unifiedRwRep => td.unifiedRwRep
      | f => ts.u32 f }

def takeError (ts : ThreadStat ℚ) (td : ReportedJob) (error : BitVec 32) : ThreadStat ℚ :=
  { ts with
    u32 := Function.update ts.u32 .error error
    str := Function.update ts.str .verror (td.verror.take 127) }

def slotErrors (ts : ThreadStat ℚ) (td : ReportedJob) : ThreadStat ℚ :=
  let ts : ThreadStat ℚ := { ts with
    continueOnError := td.continueOnError
    u64 := Function.update ts.u64 .totalErrCount (ts.u64 .totalErrCount + td.totalErrCount)
    u32 := Function.update ts.u32 .firstError td.firstError }
  if ts.u32 .error = 0 then
    if td.error = 0 ∧ td.continueOnError ≠ 0 ∧ td.firstError ≠ 0 then takeError ts td td.firstError
    else if td.error ≠ 0 then takeError ts td td.error
    else ts
  else ts

def fillSlot (ts : ThreadStat ℚ) (td : ReportedJob) (idx : Nat) : ThreadStat ℚ :=
  let ts : ThreadStat ℚ := { ts with
    u64 := Function.update (Function.update ts.u64 .clatPercentiles td.clatPercentiles)
      .percentilePrecision td.percentilePrecision
    percentileList := td.percentileList
    u32 := Function.update ts.u32 .members (ts.u32 .members + 1) }
  let ts := if ts.u32 .groupid = noGroup then firstMember ts td else ts
  let ts := slotErrors ts td
  let ts : ThreadStat ℚ := { ts with
    u32 := Function.update ts.u32 .latencyDepth td.latencyQd
    u64 := Function.update (Function.update ts.u64 .latencyTarget td.latencyTarget)
      .latencyWindow td.latencyWindow
    latencyPercentile := td.latencyPercentile }
  sumThreadStats ts td.ts idx

def fillStep (s : SlotCursor × List (ThreadStat ℚ)) (td : ReportedJob) :
    Option (SlotCursor × List (ThreadStat ℚ)) :=
  let c := moveCursor s.1 td
  if c.j < s.2.length then some (c, s.2.modify c.j fun ts => fillSlot ts td c.idx) else none

def fillSlots (n : Nat) (jobs : List ReportedJob) : Option (SlotCursor × List (ThreadStat ℚ)) :=
  jobs.foldlM fillStep (⟨0, noGroup, 0⟩, List.replicate n initThreadStat)

def initGroupRunStat : GroupRunStats where
  dir k _ := if k = .minBw ∨ k = .minRun then BitVec.allOnes 64 else 0
  u32 _ := 0

def GroupRunStats.setDir (rs : GroupRunStats) (k : GsDir) (d : Fin 3) (v : BitVec 64) :
    GroupRunStats :=
  { rs with dir := Function.update rs.dir k (Function.update (rs.dir k) d v) }

def addDirection (ts : ThreadStat ℚ) (rs : GroupRunStats) (d : Fin 3) : GroupRunStats :=
  let runt := ts.dir .runtime d
  if runt = 0 then rs
  else
    let rs := if runt < rs.dir .minRun d ∨ rs.dir .minRun d = 0 then rs.setDir .minRun d runt else rs
    let rs := if rs.dir .maxRun d < runt then rs.setDir .maxRun d runt else rs
    let kb := ts.dir .ioBytes d / (rs.u32 .kbBase).setWidth 64
    let bw := kb * 1000 / runt
    let rs := if bw < rs.dir .minBw d then rs.setDir .minBw d bw else rs
    let rs := if rs.dir .maxBw d < bw then rs.setDir .maxBw d bw else rs
    rs.setDir .ioKb d (rs.dir .ioKb d + kb)

def addToGroup (rs : GroupRunStats) (ts : ThreadStat ℚ) : GroupRunStats :=
  let rs : GroupRunStats := { rs with
    u32 := fun
      | .kbBase => ts.u32 .kbBase
      | .unitBase => ts.u32 .unitBase
      | .unifiedRwRep => rs.u32 .unifiedRwRep + ts.u32 .unifiedRwRep
      | k => rs.u32 k }
  (List.finRange 3).foldl (addDirection ts) rs

def groupStep (runstats : List GroupRunStats) (ts : ThreadStat ℚ) : Option (List GroupRunStats) :=
  if (ts.u32 .groupid).toNat < runstats.length then
    some (runstats.modify (ts.u32 .groupid).toNat fun rs => addToGroup rs ts)
  else none

def lastGroup (jobs : List ReportedJob) : Nat := (jobs.getLast?.map fun td => td.groupid.toNat).getD 0

def runStats (jobs : List ReportedJob) : Option (List (ThreadStat ℚ) × List GroupRunStats) := do
  let filled ← fillSlots (countSlots jobs).nrTs jobs
  let groups ← filled.2.foldlM groupStep (List.replicate (lastGroup jobs + 1) initGroupRunStat)
  return (filled.2, groups)

/-! ## What the report should do -/

def slotsFrom (c : SlotCursor) : List ReportedJob → List Nat
  | [] => []
  | td :: tds => (moveCursor c td).j :: slotsFrom (moveCursor c td) tds

def slotsUsed (jobs : List ReportedJob) : List Nat := slotsFrom ⟨0, noGroup, 0⟩ jobs

def GroupsOrdered (jobs : List ReportedJob) : Prop :=
  jobs.Pairwise fun a b => a.groupid.toNat ≤ b.groupid.toNat

/-- The slots that are counted are the ones that are used, and the report is made with a group in each
of them. -/
structure SlotsMatch (jobs : List ReportedJob) : Prop where
  inside : ∀ j ∈ slotsUsed jobs, j < (countSlots jobs).nrTs
  used : ∀ i < (countSlots jobs).nrTs, i ∈ slotsUsed jobs
  reported : ∃ slots groups, runStats jobs = some (slots, groups) ∧
    slots.length = (countSlots jobs).nrTs ∧ ∀ ts ∈ slots, ts.u32 .groupid ≠ noGroup

def HeadsReport (jobs : List ReportedJob) : Prop :=
  ∀ td ∈ jobs, td.groupReporting = true → ∀ head,
    jobs.find? (fun x => x.groupid == td.groupid) = some head → head.groupReporting = true

/-! ## One more job -/

section Concat

variable {jobs : List ReportedJob} {td : ReportedJob}

theorem ReportedJob.groupid_ne (td : ReportedJob) : td.groupid ≠ noGroup := by
  intro h
  have hlt := td.groupid_lt
  rw [h] at hlt
  exact absurd hlt (by decide)

theorem countSlots_concat (jobs : List ReportedJob) (td : ReportedJob) :
    countSlots (jobs ++ [td]) = countSlot (countSlots jobs) td := List.foldl_concat ..

theorem slotCursor_concat (jobs : List ReportedJob) (td : ReportedJob) :
    slotCursor (jobs ++ [td]) = moveCursor (slotCursor jobs) td := List.foldl_concat ..

theorem groupsOrdered_concat : GroupsOrdered (jobs ++ [td]) ↔
    GroupsOrdered jobs ∧ ∀ x ∈ jobs, x.groupid.toNat ≤ td.groupid.toNat := by
  simp [GroupsOrdered, List.pairwise_append]

theorem eq_of_ordered {x y : ReportedJob} {g : BitVec 32} (hxy : x.groupid.toNat ≤ y.groupid.toNat)
    (hyg : y.groupid.toNat ≤ g.toNat) (hx : x.groupid = g) : y.groupid = g := by
  apply BitVec.eq_of_toNat_eq
  rw [← hx] at hyg ⊢
  omega

theorem countSlots_lastTs_eq_iff {g : BitVec 32} (hg : g ≠ noGroup) (hord : GroupsOrdered jobs)
    (hle : ∀ x ∈ jobs, x.groupid.toNat ≤ g.toNat) : (countSlots jobs).lastTs = g ↔
      ∃ x ∈ jobs, x.groupReporting = true ∧ x.groupid = g := by
  induction jobs using List.reverseRecOn with
  | nil => simpa [countSlots] using hg.symm
  | append_singleton jobs y ih =>
    obtain ⟨hord, hy⟩ := groupsOrdered_concat.mp hord
    have ih := ih hord fun x hx => hle x (List.mem_append_left _ hx)
    have hyg := hle y (List.mem_append_right _ (List.mem_singleton_self y))
    rw [countSlots_concat, countSlot]
    cases hrep : y.groupReporting with
    | false => simpa [List.mem_append, or_and_right, exists_or, hrep] using ih
    | true =>
      have hlast : (if (countSlots jobs).lastTs = y.groupid then countSlots jobs
          else ⟨(countSlots jobs).nrTs + 1, y.groupid⟩).lastTs = y.groupid := by
        split
        · assumption
        · rfl
      simp only [Bool.not_true, Bool.false_eq_true, if_false, hlast]
      constructor
      · intro h
        exact ⟨y, by simp, hrep, h⟩
      · intro h
        obtain ⟨x, hx, -, hxg⟩ := h
        rcases List.mem_append.mp hx with hx | hx
        · exact eq_of_ordered (hy x hx) hyg hxg
        · rwa [List.mem_singleton.mp hx] at hxg

theorem slotCursor_lastTs_eq_iff {g : BitVec 32} (hg : g ≠ noGroup) (hord : GroupsOrdered jobs)
    (hle : ∀ x ∈ jobs, x.groupid.toNat ≤ g.toNat) : (slotCursor jobs).lastTs = g ↔
      ∃ x ∈ jobs, x.groupid = g := by
  induction jobs using List.reverseRecOn with
  | nil => simpa [slotCursor] using hg.symm
  | append_singleton jobs y _ =>
    obtain ⟨-, hy⟩ := groupsOrdered_concat.mp hord
    have hyg := hle y (List.mem_append_right _ (List.mem_singleton_self y))
    have hlast : (slotCursor (jobs ++ [y])).lastTs = y.groupid := by
      rw [slotCursor_concat, moveCursor]
      split <;> rfl
    rw [hlast]
    constructor
    · intro h
      exact ⟨y, by simp, h⟩
    · intro h
      obtain ⟨x, hx, hxg⟩ := h
      rcases List.mem_append.mp hx with hx | hx
      · exact eq_of_ordered (hy x hx) hyg hxg
      · rwa [List.mem_singleton.mp hx] at hxg

theorem slotCursor_idx_eq_zero_iff : (slotCursor jobs).idx = 0 ↔ jobs = [] := by
  induction jobs using List.reverseRecOn with
  | nil => simp [slotCursor]
  | append_singleton jobs y _ =>
    rw [slotCursor_concat, moveCursor]
    split <;> simp

def openedSlots (jobs : List ReportedJob) : Nat :=
  if (slotCursor jobs).idx = 0 then 0 else (slotCursor jobs).j + 1

theorem openedSlots_eq_succ (jobs : List ReportedJob) (td : ReportedJob) :
    openedSlots (jobs ++ [td]) = (slotCursor (jobs ++ [td])).j + 1 := by
  rw [openedSlots, if_neg (mt slotCursor_idx_eq_zero_iff.mp (by simp))]

theorem nrTs_concat (h : GroupsOrdered (jobs ++ [td])) : (countSlots (jobs ++ [td])).nrTs =
    (countSlots jobs).nrTs + if td.groupReporting = true ∧
      ∃ x ∈ jobs, x.groupReporting = true ∧ x.groupid = td.groupid then 0 else 1 := by
  obtain ⟨hord, hle⟩ := groupsOrdered_concat.mp h
  have hlast := countSlots_lastTs_eq_iff td.groupid_ne hord hle
  rw [countSlots_concat, countSlot]
  cases td.groupReporting with
  | false => simp
  | true =>
    by_cases hseen : (countSlots jobs).lastTs = td.groupid
    · simp [hseen, hlast.mp hseen]
    · have hnone := mt hlast.mpr hseen
      simp [hseen, hnone]

theorem openedSlots_concat (h : GroupsOrdered (jobs ++ [td])) : openedSlots (jobs ++ [td]) =
    openedSlots jobs + if td.groupReporting = true ∧ ∃ x ∈ jobs, x.groupid = td.groupid then 0
      else 1 := by
  obtain ⟨hord, hle⟩ := groupsOrdered_concat.mp h
  have hlast := slotCursor_lastTs_eq_iff td.groupid_ne hord hle
  rw [openedSlots_eq_succ, slotCursor_concat, moveCursor, openedSlots]
  by_cases hempty : (slotCursor jobs).idx = 0
  · have hnil := slotCursor_idx_eq_zero_iff.mp hempty
    subst hnil
    simp [slotCursor]
  · rw [if_neg hempty]
    cases td.groupReporting with
    | false => simp [hempty]
    | true =>
      by_cases hsame : (slotCursor jobs).lastTs = td.groupid
      · simp [hempty, hsame, hlast.mp hsame]
      · have hnone := mt hlast.mpr hsame
        simp [hempty, hsame, hnone]

theorem headsReport_concat : HeadsReport (jobs ++ [td]) ↔ HeadsReport jobs ∧
    (td.groupReporting = true → ∀ head,
      jobs.find? (fun x => x.groupid == td.groupid) = some head → head.groupReporting = true) := by
  constructor
  · intro h
    refine ⟨fun x hx hrep head hhead => ?_, fun hrep head hhead => ?_⟩
    · exact h x (List.mem_append_left _ hx) hrep head (by rw [List.find?_append, hhead]; rfl)
    · exact h td (by simp) hrep head (by rw [List.find?_append, hhead]; rfl)
  · intro h
    obtain ⟨hjobs, htd⟩ := h
    intro x hx hrep head hhead
    rw [List.find?_append] at hhead
    cases hfind : jobs.find? (fun y => y.groupid == x.groupid) with
    | some y =>
      rw [hfind] at hhead
      obtain rfl : y = head := by simpa using hhead
      rcases List.mem_append.mp hx with hx | hx
      · exact hjobs x hx hrep y hfind
      · obtain rfl := List.mem_singleton.mp hx
        exact htd hrep y hfind
    | none =>
      -- the group has no job among the first ones, so it begins with the last one
      have hlast : x = td := by
        rcases List.mem_append.mp hx with hx | hx
        · exact absurd (List.find?_eq_none.mp hfind x hx) (by simp)
        · exact List.mem_singleton.mp hx
      subst hlast
      rw [hfind] at hhead
      obtain rfl : x = head := by simpa using hhead
      exact hrep

end Concat

/-! ## The two counts -/

variable {jobs : List ReportedJob} {n : Nat}

/-- **The counts compared.** The first loop never counts too few slots, and it counts the ones that are
opened if and only if the first job of each group reports. -/
theorem openedSlots_le (h : GroupsOrdered jobs) :
    openedSlots jobs ≤ (countSlots jobs).nrTs ∧
      (openedSlots jobs = (countSlots jobs).nrTs ↔ HeadsReport jobs) := by
  induction jobs using List.reverseRecOn with
  | nil => simp [openedSlots, slotCursor, countSlots, HeadsReport]
  | append_singleton jobs td ih =>
    obtain ⟨ihle, iheq⟩ := ih (groupsOrdered_concat.mp h).1
    rw [nrTs_concat h, openedSlots_concat h, headsReport_concat]
    by_cases hrep : td.groupReporting = true
    · by_cases hseen : ∃ x ∈ jobs, x.groupReporting = true ∧ x.groupid = td.groupid
      · -- neither loop opens a slot, and the head of the group is known from the earlier job
        obtain ⟨x, hx, hxrep, hxg⟩ := hseen
        rw [if_pos ⟨hrep, x, hx, hxg⟩, if_pos ⟨hrep, x, hx, hxrep, hxg⟩]
        refine ⟨ihle, iheq.trans ⟨fun hheads => ⟨hheads, fun _ head hhead => ?_⟩, And.left⟩⟩
        exact hheads x hx hxrep head (by rw [hxg]; exact hhead)
      · by_cases hgroup : ∃ x ∈ jobs, x.groupid = td.groupid
        · -- only the first loop opens one: the group began with a job that reports by itself
          rw [if_pos ⟨hrep, hgroup⟩, if_neg (fun hex => hseen hex.2)]
          refine ⟨by omega, fun heq => absurd heq (by omega), fun hheads => ?_⟩
          obtain ⟨x, hx, hxg⟩ := hgroup
          obtain ⟨head, hhead⟩ : ∃ head, jobs.find? (fun y => y.groupid == td.groupid) = some head :=
            Option.isSome_iff_exists.mp (List.find?_isSome.mpr ⟨x, hx, by simpa using hxg⟩)
          have hgrp := List.find?_some hhead
          exact absurd ⟨head, List.mem_of_find?_eq_some hhead, hheads.2 hrep head hhead,
            by simpa using hgrp⟩ hseen
        · rw [if_neg (fun hex => hgroup hex.2), if_neg (fun hex => hseen hex.2)]
          refine ⟨by omega, ?_⟩
          have hnone : jobs.find? (fun y => y.groupid == td.groupid) = none := by
            rw [List.find?_eq_none]
            intro x hx
            simpa using fun hxg => hgroup ⟨x, hx, hxg⟩
          rw [Nat.add_right_cancel_iff, iheq, hnone]
          simp
    · rw [if_neg (fun hex => hrep hex.1), if_neg (fun hex => hrep hex.1), Nat.add_right_cancel_iff, iheq]
      exact ⟨by omega, fun hheads => ⟨hheads, fun h => absurd h hrep⟩, And.left⟩

/-! ## The slots that are used -/

theorem slotsFrom_append (a b : List ReportedJob) (c : SlotCursor) :
    slotsFrom c (a ++ b) = slotsFrom c a ++ slotsFrom (a.foldl moveCursor c) b := by
  induction a generalizing c with
  | nil => rfl
  | cons td tds ih => simp [slotsFrom, ih]

theorem slotsUsed_concat (jobs : List ReportedJob) (td : ReportedJob) :
    slotsUsed (jobs ++ [td]) = slotsUsed jobs ++ [(slotCursor (jobs ++ [td])).j] := by
  rw [slotsUsed, slotsFrom_append, slotCursor_concat]
  rfl

theorem openedSlots_step (jobs : List ReportedJob) (td : ReportedJob) :
    openedSlots (jobs ++ [td]) = openedSlots jobs + 1 ∨
      0 < openedSlots jobs ∧ openedSlots (jobs ++ [td]) = openedSlots jobs := by
  rw [openedSlots_eq_succ, slotCursor_concat, moveCursor, openedSlots]
  by_cases hempty : (slotCursor jobs).idx = 0
  · have hnil := slotCursor_idx_eq_zero_iff.mp hempty
    subst hnil
    exact Or.inl rfl
  · rw [if_neg hempty]
    split
    · exact Or.inl rfl
    · exact Or.inr ⟨Nat.succ_pos _, rfl⟩

theorem mem_slotsUsed {i : Nat} :
    i ∈ slotsUsed jobs ↔ i < openedSlots jobs := by
  induction jobs using List.reverseRecOn with
  | nil => simp [slotsUsed, slotsFrom, openedSlots, slotCursor]
  | append_singleton jobs td ih =>
    have hcur := openedSlots_eq_succ jobs td
    have hstep := openedSlots_step jobs td
    simp only [slotsUsed_concat, List.mem_append, List.mem_singleton, ih]
    omega

/-! ## What is in them -/

theorem groupid_slotErrors (ts : ThreadStat ℚ) (td : ReportedJob) :
    (slotErrors ts td).u32 .groupid = ts.u32 .groupid := by
  unfold slotErrors takeError
  dsimp only
  split_ifs <;> simp

theorem groupid_fillSlot (ts : ThreadStat ℚ) (td : ReportedJob) (idx : Nat) :
    (fillSlot ts td idx).u32 .groupid =
      if ts.u32 .groupid = noGroup then td.groupid else ts.u32 .groupid := by
  by_cases h : ts.u32 .groupid = noGroup <;> simp [fillSlot, sumThreadStats, firstMember, groupid_slotErrors, h]

structure SlotsFilled (n : Nat) (jobs : List ReportedJob) (slots : List (ThreadStat ℚ)) : Prop where
  length : slots.length = n
  opened : ∀ i ts, slots[i]? = some ts → i < openedSlots jobs →
    ∃ td ∈ jobs, ts.u32 .groupid = td.groupid
  rest : ∀ i ts, slots[i]? = some ts → openedSlots jobs ≤ i → ts.u32 .groupid = noGroup

theorem fillSlots_concat (n : Nat) (jobs : List ReportedJob) (td : ReportedJob) :
    fillSlots n (jobs ++ [td]) = (fillSlots n jobs).bind fun s => fillStep s td := by
  rw [fillSlots, List.foldlM_append]
  simp [fillSlots]

theorem SlotsFilled.step {slots : List (ThreadStat ℚ)}
    (h : SlotsFilled n jobs slots) (td : ReportedJob) (idx : Nat) :
    SlotsFilled n (jobs ++ [td])
      (slots.modify (slotCursor (jobs ++ [td])).j fun ts => fillSlot ts td idx) := by
  have hcur := openedSlots_eq_succ jobs td
  have hstep := openedSlots_step jobs td
  constructor
  · rw [List.length_modify, h.length]
  · intro i ts hts hi
    rw [List.getElem?_modify, Option.map_eq_map, Option.map_eq_some_iff] at hts
    obtain ⟨old, hold, rfl⟩ := hts
    by_cases hj : (slotCursor (jobs ++ [td])).j = i
    · rw [if_pos hj, groupid_fillSlot]
      split
      · exact ⟨td, by simp, rfl⟩
      · rename_i hgroup
        have hopen : i < openedSlots jobs := by
          by_contra hcon
          exact hgroup (h.rest i old hold (by omega))
        obtain ⟨x, hx, hxg⟩ := h.opened i old hold hopen
        exact ⟨x, List.mem_append_left _ hx, hxg⟩
    · rw [if_neg hj]
      obtain ⟨x, hx, hxg⟩ := h.opened i old hold (by omega)
      exact ⟨x, List.mem_append_left _ hx, hxg⟩
  · intro i ts hts hi
    rw [List.getElem?_modify, Option.map_eq_map, Option.map_eq_some_iff] at hts
    obtain ⟨old, hold, rfl⟩ := hts
    rw [if_neg (by omega)]
    exact h.rest i old hold (by omega)

theorem fillSlots_filled (h : openedSlots jobs ≤ n) :
    ∃ slots, fillSlots n jobs = some (slotCursor jobs, slots) ∧ SlotsFilled n jobs slots := by
  induction jobs using List.reverseRecOn with
  | nil =>
    refine ⟨List.replicate n initThreadStat, rfl, List.length_replicate, ?_, ?_⟩
    · intro i ts _ hi
      exact absurd hi (Nat.not_lt_zero i)
    · intro i ts hts _
      rw [List.eq_of_mem_replicate (List.mem_of_getElem? hts)]
      rfl
  | append_singleton jobs td ih =>
    have hcur := openedSlots_eq_succ jobs td
    have hstep := openedSlots_step jobs td
    obtain ⟨slots, hfill, hfilled⟩ := ih (by omega)
    refine ⟨_, ?_, hfilled.step td (slotCursor (jobs ++ [td])).idx⟩
    rw [fillSlots_concat, hfill, Option.bind_some, fillStep, ← slotCursor_concat]
    rw [if_pos (by rw [hfilled.length]; omega)]

/-! ## The third loop -/

theorem groupStep_foldlM (slots : List (ThreadStat ℚ)) (runstats : List GroupRunStats) :
    (∃ groups, slots.foldlM groupStep runstats = some groups) ↔
      ∀ ts ∈ slots, (ts.u32 .groupid).toNat < runstats.length := by
  induction slots generalizing runstats with
  | nil => simp
  | cons ts slots ih =>
    rw [List.foldlM_cons, groupStep, List.forall_mem_cons]
    by_cases hlt : (ts.u32 .groupid).toNat < runstats.length
    · have hrest := ih (runstats.modify (ts.u32 .groupid).toNat fun rs => addToGroup rs ts)
      rw [List.length_modify] at hrest
      rw [if_pos hlt]
      simpa [hlt] using hrest
    · rw [if_neg hlt]
      simp [hlt]

theorem groupid_le_lastGroup (h : GroupsOrdered jobs) {td : ReportedJob}
    (htd : td ∈ jobs) : td.groupid.toNat ≤ lastGroup jobs := by
  induction jobs using List.reverseRecOn with
  | nil => exact absurd htd (List.not_mem_nil)
  | append_singleton jobs y _ =>
    rw [lastGroup, List.getLast?_concat]
    rcases List.mem_append.mp htd with hmem | hmem
    · exact (groupsOrdered_concat.mp h).2 td hmem
    · rw [List.mem_singleton.mp hmem]
      exact Nat.le_refl _

/-! ## When the slots match -/

/-- **The slots of the report match** exactly if, in each group where a job reports with the group,
the first job does. The first loop takes note of the group of a job only if the job reports with it,
the second loop always; so they disagree on a job that reports with its group after one that does
not. -/
theorem slots_match_iff (jobs : List ReportedJob) (h : GroupsOrdered jobs) :
    SlotsMatch jobs ↔ HeadsReport jobs := by
  obtain ⟨hle, heq⟩ := openedSlots_le h
  rw [← heq]
  constructor
  · intro hmatch
    apply Nat.le_antisymm hle
    by_contra hlt
    have hused := mem_slotsUsed.mp (hmatch.used (openedSlots jobs) (by omega))
    omega
  · intro hsame
    obtain ⟨slots, hfill, hfilled⟩ := fillSlots_filled hle
    have hgroup : ∀ ts ∈ slots, ∃ td ∈ jobs, ts.u32 .groupid = td.groupid := by
      intro ts hts
      obtain ⟨i, hi⟩ := List.mem_iff_getElem?.mp hts
      have hlen := (List.getElem?_eq_some_iff.mp hi).1
      rw [hfilled.length] at hlen
      exact hfilled.opened i ts hi (by omega)
    obtain ⟨groups, hgroups⟩ := (groupStep_foldlM slots
        (List.replicate (lastGroup jobs + 1) initGroupRunStat)).mpr (by
      intro ts hts
      obtain ⟨td, htd, hg⟩ := hgroup ts hts
      rw [hg, List.length_replicate]
      exact Nat.lt_succ_of_le (groupid_le_lastGroup h htd))
    constructor
    · intro j hj
      rw [← hsame]
      exact mem_slotsUsed.mp hj
    · intro i hi
      rw [mem_slotsUsed, hsame]
      exact hi
    · refine ⟨slots, groups, ?_, hfilled.length, ?_⟩
      · simp [runStats, hfill, hgroups]
      · intro ts hts
        obtain ⟨td, -, hg⟩ := hgroup ts hts
        rw [hg]
        exact td.groupid_ne

def plainJob (group : Nat) (hgroup : group < 2 ^ 31) (groupReporting : Bool) : ReportedJob where
  groupid := BitVec.ofNat 32 group
  groupid_lt := by rw [BitVec.toNat_ofNat]; omega
  groupReporting := groupReporting
  name := []
  description := none
  threadNumber := 0
  pid := 0
  kbBase := 1024
  unitBase := 0
  unifiedRwRep := 0
  clatPercentiles := 0
  percentilePrecision := 0
  percentileList := fun _ => 0
  continueOnError := 0
  totalErrCount := 0
  firstError := 0
  error := 0
  verror := []
  latencyQd := 0
  latencyTarget := 0
  latencyPercentile := 0
  latencyWindow := 0
  ts := initThreadStat

/-- Two groups, of which the first has a job of each kind. -/
theorem slots_match_mixed :
    GroupsOrdered [plainJob 0 (by decide) true, plainJob 0 (by decide) false,
      plainJob 0 (by decide) true, plainJob 1 (by decide) false] ∧
    SlotsMatch [plainJob 0 (by decide) true, plainJob 0 (by decide) false,
      plainJob 0 (by decide) true, plainJob 1 (by decide) false] := by
  have hord : GroupsOrdered [plainJob 0 (by decide) true, plainJob 0 (by decide) false,
      plainJob 0 (by decide) true, plainJob 1 (by decide) false] := by
    simp [GroupsOrdered, plainJob]
  refine ⟨hord, (slots_match_iff _ hord).mpr ?_⟩
  simp [HeadsReport, plainJob]

/-- A job that reports by itself and one that reports with their group: two slots are counted, both
jobs go to the first one, and the second is left with no group. -/
theorem slot_left_empty :
    (countSlots [plainJob 0 (by decide) false, plainJob 0 (by decide) true]).nrTs = 2 ∧
    slotsUsed [plainJob 0 (by decide) false, plainJob 0 (by decide) true] = [0, 0] ∧
    ¬SlotsMatch [plainJob 0 (by decide) false, plainJob 0 (by decide) true] := by
  have hcount : (countSlots [plainJob 0 (by decide) false, plainJob 0 (by decide) true]).nrTs = 2 := by
    decide
  have hused : slotsUsed [plainJob 0 (by decide) false, plainJob 0 (by decide) true] = [0, 0] := by
    decide
  refine ⟨hcount, hused, fun h => ?_⟩
  have hone := h.used 1 (by rw [hcount]; decide)
  rw [hused] at hone
  exact absurd hone (by decide)

end MysqlBench.Fio
