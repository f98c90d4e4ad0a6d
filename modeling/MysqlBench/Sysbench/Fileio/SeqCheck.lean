import MysqlBench.Sysbench.Fileio.Sequential
import Mathlib.Data.Nat.Count

/-!
# The check of sequential requests

With `--validate`, each request for data of a sequential test is compared with the one before it.
A request goes on in the file of the one before, or is the first in the next file (`requestAt_succ`);
both pass. After the last file comes the first again, and there the check always warns: the difference
of the file numbers is unsigned, and in a test of one file the position goes back.

So the check is silent until the files start over, and when that is follows from the settings alone
(`seq_check_silent_iff`): the requests of all files have been handed out, and for a test that writes, all
files have been synchronized as often as these writes ask for (`callsFor`). `Progress` counts the calls
in this way, with the files that are left of a series as the potential.
-/

namespace MysqlBench.Sysbench

/-! ## The check -/

def requestText (r : FileRequest) : String :=
  "file_id: " ++ toString (int32 r.fileId) ++ ", pos: " ++ toString (int32 r.pos) ++ "  size: " ++
    toString (int32 r.size)

def checkSeqReq (fileSize : Int) (prevReq : Option FileRequest) (r : FileRequest) : List String :=
  match prevReq with
  | none => []
  | some prev =>
    if 1 < ((r.fileId : Int) - prev.fileId) % 2 ^ 32 then
      ["Discovered too large file difference in seq requests!"]
    else if r.fileId = prev.fileId then
      if int64 (r.pos - prev.pos) ≠ prev.size then
        ["Discovered too large position difference in seq request!"]
      else []
    else if int64 (prev.pos + prev.size) ≠ fileSize ∨ r.pos ≠ 0 then
      ["Invalid file switch found!", "Old: " ++ requestText prev, "New: " ++ requestText r]
    else []

def checkAll (fileSize : Int) : Option FileRequest → List FileRequest → List String
  | _, [] => []
  | prevReq, r :: rs => checkSeqReq fileSize prevReq r ++ checkAll fileSize (some r) rs

/-- The warnings of `n` calls by one thread: a request for data is checked and becomes `prev_req`. -/
def seqWarnings (cfg : FileConfig) (maxRequests : Nat) : Nat → FileVars → Option FileRequest → List String
  | 0, _, _ => []
  | n + 1, st, prevReq =>
    let res := fileGetSeqRequest cfg maxRequests st
    ((data? res.1).elim [] (checkSeqReq cfg.fileSize prevReq)) ++
      seqWarnings cfg maxRequests n res.2 ((data? res.1).or prevReq)

theorem seqWarnings_eq (cfg : FileConfig) (maxRequests n : Nat) (st : FileVars)
    (prevReq : Option FileRequest) : seqWarnings cfg maxRequests n st prevReq =
      checkAll cfg.fileSize prevReq (seqRequests cfg maxRequests st (List.replicate n ())) := by
  induction n generalizing st prevReq with
  | zero => rfl
  | succ n ih =>
    rw [List.replicate_succ, seqRequests_cons, seqWarnings, ih]
    cases data? (fileGetSeqRequest cfg maxRequests st).1 with
    | none => rfl
    | some d => rfl

/-! ## The places of the requests -/

def perFile (cfg : FileConfig) : Nat := ((cfg.fileSize - 1) / unit cfg).toNat + 1

def requestAt (cfg : FileConfig) (k : Nat) : FileRequest :=
  ⟨seqOperation cfg, k / perFile cfg % cfg.numFiles, (k % perFile cfg : Nat) * unit cfg,
    seqSize cfg ((k % perFile cfg : Nat) * unit cfg)⟩

def AtRequest (cfg : FileConfig) (st : FileVars) (k : Nat) : Prop :=
  AtPlace cfg st (requestAt cfg k).fileId (requestAt cfg k).pos

def AtStart (r : FileRequest) : Prop := r.fileId = 0 ∧ r.pos = 0

section Places

variable {cfg : FileConfig} {st : FileVars} {k : Nat}

theorem unit_pos (hacc : Accepted cfg) (hfits : Fits cfg) : 0 < unit cfg := by
  unfold Fits at hfits
  unfold unit
  split_ifs at hfits ⊢
  · exact hfits.1
  · exact hacc.blockSize.1

/-- The requests of a file start before its end, and only after the last of them there is no room for a
whole one. -/
theorem mul_unit_lt_iff (hu : 0 < unit cfg) (hsize : 1 ≤ cfg.fileSize) (j : Nat) :
    j * unit cfg < cfg.fileSize ↔ j < perFile cfg := by
  have hq : 0 ≤ (cfg.fileSize - 1) / unit cfg := Int.ediv_nonneg (by omega) (le_of_lt hu)
  have hle := @Int.le_ediv_iff_mul_le j (cfg.fileSize - 1) (unit cfg) hu
  unfold perFile
  omega

theorem mod_succ_of_ne {m : Nat} (hne : k % m + 1 ≠ m) (hm : 0 < m) :
    (k + 1) % m = k % m + 1 ∧ (k + 1) / m = k / m := by
  have hlt := Nat.mod_lt k hm
  have hk : k + 1 = m * (k / m) + (k % m + 1) := by
    have := Nat.div_add_mod k m
    omega
  have hin : k % m + 1 < m := by omega
  rw [hk, Nat.mul_add_mod, Nat.mod_eq_of_lt hin, Nat.mul_add_div hm, Nat.div_eq_of_lt hin]
  exact ⟨rfl, rfl⟩

theorem mod_succ_of_eq {m : Nat} (heq : k % m + 1 = m) :
    (k + 1) % m = 0 ∧ (k + 1) / m = k / m + 1 := by
  have hk : k + 1 = m * (k / m + 1) := by
    have := Nat.div_add_mod k m
    rw [Nat.mul_succ]
    omega
  rw [hk, Nat.mul_mod_right, Nat.mul_div_cancel_left _ (by omega)]
  exact ⟨rfl, rfl⟩

theorem atStart_requestAt (hu : 0 < unit cfg) :
    AtStart (requestAt cfg k) ↔ perFile cfg * cfg.numFiles ∣ k := by
  have hper : 0 < perFile cfg := Nat.succ_pos _
  have hpos : ((k % perFile cfg : Nat) : Int) * unit cfg = 0 ↔ perFile cfg ∣ k := by
    rw [Nat.dvd_iff_mod_eq_zero, mul_eq_zero, Int.natCast_eq_zero]
    exact or_iff_left (ne_of_gt hu)
  unfold AtStart requestAt
  rw [hpos, ← Nat.dvd_iff_mod_eq_zero]
  constructor
  · rintro ⟨hfile, q, rfl⟩
    rw [Nat.mul_div_cancel_left _ hper] at hfile
    exact Nat.mul_dvd_mul_left _ hfile
  · rintro ⟨q, rfl⟩
    rw [Nat.mul_assoc, Nat.mul_div_cancel_left _ hper]
    exact ⟨Dvd.intro q rfl, Dvd.intro _ rfl⟩

section Fitting

variable (hacc : Accepted cfg) (hsize : 1 ≤ cfg.fileSize) (hfits : Fits cfg)

include hacc hsize hfits

theorem seqSize_in_file {j : Nat} (hj : j < perFile cfg) :
    if j + 1 = perFile cfg then j * unit cfg + seqSize cfg (j * unit cfg) = cfg.fileSize
    else seqSize cfg (j * unit cfg) = unit cfg ∧ (j + 1 : Nat) * unit cfg < cfg.fileSize := by
  have hu := unit_pos hacc hfits
  have hlt := (mul_unit_lt_iff hu hsize j).mpr hj
  have hnext := mul_unit_lt_iff hu hsize (j + 1)
  have hsucc : ((j + 1 : Nat) : Int) * unit cfg = j * unit cfg + unit cfg := by
    push_cast
    ring
  have hpos : 0 ≤ j * unit cfg := mul_nonneg (Int.natCast_nonneg j) (le_of_lt hu)
  split_ifs with hlast
  · obtain ⟨h1, hle, hdvd⟩ := seqSize_of_fits hacc hfits hpos hlt (Dvd.intro_left _ rfl)
    by_contra hne
    -- the next multiple of the unit is behind the end
    have hsub : unit cfg ∣ seqSize cfg (j * unit cfg) := (Int.dvd_add_right (Dvd.intro_left _ rfl)).mp (hdvd hne)
    have := Int.le_of_dvd (by omega) hsub
    omega
  · have hin := hnext.mpr (by omega)
    have hlim := hacc.fileSize_lt
    refine ⟨?_, hin⟩
    rw [seqSize_eq hacc hpos (by omega) fun _ => by omega, if_pos (by omega)]

theorem requestAt_inside (k : Nat) :
    (requestAt cfg k).fileId < cfg.numFiles ∧ 0 ≤ (requestAt cfg k).pos ∧ 1 ≤ (requestAt cfg k).size := by
  have hu := unit_pos hacc hfits
  have hpos : 0 ≤ ((k % perFile cfg : Nat) : Int) * unit cfg :=
    mul_nonneg (Int.natCast_nonneg _) (le_of_lt hu)
  have hlt := (mul_unit_lt_iff hu hsize _).mpr (Nat.mod_lt k (Nat.succ_pos _))
  exact ⟨Nat.mod_lt _ hacc.numFiles, hpos, (seqSize_of_fits hacc hfits hpos hlt (Dvd.intro_left _ rfl)).1⟩

theorem requestAt_succ (k : Nat) :
    ((requestAt cfg k).pos + (requestAt cfg k).size < cfg.fileSize ∧
      (requestAt cfg (k + 1)).fileId = (requestAt cfg k).fileId ∧
      (requestAt cfg (k + 1)).pos = (requestAt cfg k).pos + (requestAt cfg k).size) ∨
    ((requestAt cfg k).pos + (requestAt cfg k).size = cfg.fileSize ∧
      (requestAt cfg (k + 1)).fileId =
        (if (requestAt cfg k).fileId + 1 = cfg.numFiles then 0 else (requestAt cfg k).fileId + 1) ∧
      (requestAt cfg (k + 1)).pos = 0) := by
  have hper : 0 < perFile cfg := Nat.succ_pos _
  have hsizes := seqSize_in_file hacc hsize hfits (Nat.mod_lt k hper)
  unfold requestAt
  dsimp only
  split_ifs at hsizes with hlast
  · obtain ⟨hmod, hdiv⟩ := mod_succ_of_eq hlast
    rw [hmod, hdiv, Nat.cast_zero, zero_mul]
    refine .inr ⟨hsizes, ?_, rfl⟩
    split_ifs with hwrap
    · exact (mod_succ_of_eq hwrap).1
    · exact (mod_succ_of_ne hwrap hacc.numFiles).1
  · obtain ⟨hmod, hdiv⟩ := mod_succ_of_ne hlast hper
    obtain ⟨hs, hin⟩ := hsizes
    have hsucc : ((k % perFile cfg + 1 : Nat) : Int) * unit cfg = (k % perFile cfg : Nat) * unit cfg + unit cfg := by
      push_cast
      ring
    rw [hmod, hdiv, hs, ← hsucc]
    exact .inl ⟨hin, rfl, rfl⟩

theorem AtRequest.seqData (h : AtRequest cfg st k) :
    (seqData cfg st).1 = requestAt cfg k ∧ AtRequest cfg (seqData cfg st).2 (k + 1) := by
  obtain ⟨hfile, hpos, hone⟩ := requestAt_inside hacc hsize hfits k
  refine ⟨seqData_fst h, ?_⟩
  unfold AtRequest
  rcases requestAt_succ hacc hsize hfits k with ⟨hin, hsame, hnext⟩ | ⟨hend, hswitch, hnext⟩
  · rw [hsame, hnext]
    exact seqData_same_file h hfile hacc.fileSize_lt (by change 0 ≤ _ + (requestAt cfg k).size; omega) hin
  · rw [hswitch, hnext]
    exact seqData_next_file h hacc.fileSize_lt hsize hend

theorem checkSeqReq_requestAt (hnum : cfg.numFiles < 2 ^ 32) (k : Nat) :
    checkSeqReq cfg.fileSize (some (requestAt cfg k)) (requestAt cfg (k + 1)) = [] ↔
      ¬AtStart (requestAt cfg (k + 1)) := by
  have hlim := hacc.fileSize_lt
  obtain ⟨hfile, hpos, hone⟩ := requestAt_inside hacc hsize hfits k
  have hsucc := requestAt_succ hacc hsize hfits k
  generalize requestAt cfg k = prev at *
  generalize requestAt cfg (k + 1) = r at *
  unfold checkSeqReq AtStart
  dsimp only
  rcases hsucc with ⟨hin, hsame, hnext⟩ | ⟨hend, hswitch, hnext⟩
  · rw [hsame, hnext, int64_eq (by omega) (by omega), if_neg (by omega), if_pos rfl, if_neg (by omega)]
    simp only [true_iff]
    omega
  · rw [hnext, hend, int64_eq (by omega) hlim]
    split_ifs at hswitch with hwrap
    · rw [hswitch]
      by_cases hfirst : prev.fileId = 0
      · rw [hfirst, int64_eq (by omega) (by omega), if_neg (by decide), if_pos rfl, if_pos (by omega)]
        simp
      · rw [if_pos (by omega)]
        simp
    · rw [hswitch, if_neg (by omega), if_neg (by omega), if_neg (by simp)]
      simp

theorem checkAll_requestAt (hnum : cfg.numFiles < 2 ^ 32) (c k : Nat) :
    checkAll cfg.fileSize (some (requestAt cfg k)) ((List.range' (k + 1) c).map (requestAt cfg)) = [] ↔
      ∀ j ∈ List.range' (k + 1) c, ¬AtStart (requestAt cfg j) := by
  induction c generalizing k with
  | zero => simp [checkAll]
  | succ c ih =>
    rw [List.range'_succ, List.map_cons, checkAll, List.append_eq_nil_iff, ih,
      checkSeqReq_requestAt hacc hsize hfits hnum, List.forall_mem_cons]

end Fitting

end Places

/-! ## The calls -/

/-- After `k` requests for data the files are synchronized: their number is a multiple of
`file_fsync_freq`, as the unsigned counter `req_performed` has it. -/
def fsyncDue (cfg : FileConfig) (k : Nat) : Bool :=
  cfg.fsyncFreq ≠ 0 ∧ seqOperation cfg = .write ∧ k % 2 ^ 32 % cfg.fsyncFreq.toNat = 0

def fsyncSeries (cfg : FileConfig) (k : Nat) : Nat := Nat.count (fun j => fsyncDue cfg (j + 1)) k

/-- The calls up to the first `k` requests for data, and for the files to be synchronized after them. -/
def callsFor (cfg : FileConfig) (k : Nat) : Nat := k + cfg.numFiles * fsyncSeries cfg k

def fsyncsLeft (cfg : FileConfig) (st : FileVars) : Nat :=
  if st.isDirty && fsyncDue cfg st.reqPerformed then cfg.numFiles - st.fsyncedFile else 0

/-- What `n` calls have done, of which `k` were for data: the calls are those for `k` requests, less the
files that are left of a series that is due. After the end there may be more. -/
structure Progress (cfg : FileConfig) (maxRequests : Nat) (st : FileVars) (n k : Nat) : Prop where
  place : AtRequest cfg st k
  performed : st.reqPerformed = k % 2 ^ 32
  series : st.fsyncedFile < cfg.numFiles
  fresh : fsyncsLeft cfg st = 0 → st.fsyncedFile = 0
  bounded : 0 < maxRequests → k ≤ maxRequests
  calls_ge : callsFor cfg k ≤ n + fsyncsLeft cfg st
  calls_le : Running maxRequests st → n + fsyncsLeft cfg st ≤ callsFor cfg k

section Progress

variable {cfg : FileConfig} {maxRequests n k : Nat} {st : FileVars}

theorem fsyncDue_mod (cfg : FileConfig) (k : Nat) : fsyncDue cfg (k % 2 ^ 32) = fsyncDue cfg k := by
  unfold fsyncDue
  rw [Nat.mod_mod]

theorem callsFor_succ (cfg : FileConfig) (k : Nat) : callsFor cfg (k + 1) =
    callsFor cfg k + 1 + if fsyncDue cfg (k + 1) then cfg.numFiles else 0 := by
  unfold callsFor fsyncSeries
  rw [Nat.count_succ]
  split_ifs
  · rw [Nat.mul_succ]
    omega
  · simp only [Nat.add_zero]
    omega

theorem callsFor_mono (cfg : FileConfig) : Monotone (callsFor cfg) := by
  refine monotone_nat_of_le_succ fun k => ?_
  rw [callsFor_succ]
  omega

theorem progress_initVars (hnum : 1 ≤ cfg.numFiles) : Progress cfg maxRequests initVars 0 0 where
  place := by
    unfold AtRequest
    rw [requestAt]
    dsimp only
    rw [Nat.zero_div, Nat.zero_mod, Nat.zero_mod, Nat.cast_zero, zero_mul]
    exact atPlace_of_ne rfl rfl (Nat.ne_of_lt hnum)
  performed := rfl
  series := hnum
  fresh _ := rfl
  bounded _ := Nat.zero_le _
  calls_ge := by simp [callsFor, fsyncSeries]
  calls_le _ := by simp [fsyncsLeft, initVars]

theorem Progress.nextFsync (h : Progress cfg maxRequests st n k)
    (hdue : (st.isDirty && fsyncDue cfg st.reqPerformed) = true) :
    Progress cfg maxRequests (nextFsync cfg st).2 (n + 1) k := by
  have hseries := h.series
  have hleft : fsyncsLeft cfg st = cfg.numFiles - st.fsyncedFile := if_pos hdue
  have hge := h.calls_ge
  rw [hleft] at hge
  unfold Sysbench.nextFsync
  dsimp only
  split_ifs with hlast
  · -- the last file of the series
    have hnone : fsyncsLeft cfg { st with fsyncedFile := 0, isDirty := false } = 0 := rfl
    refine ⟨h.place.congr rfl rfl, h.performed, Nat.zero_lt_of_lt hseries, fun _ => rfl, h.bounded, ?_,
      fun hrun => ?_⟩
    · rw [hnone]
      omega
    · have hle := h.calls_le hrun
      rw [hnone]
      omega
  · have hless : fsyncsLeft cfg { st with fsyncedFile := st.fsyncedFile + 1 } =
        cfg.numFiles - (st.fsyncedFile + 1) := if_pos hdue
    refine ⟨h.place.congr rfl rfl, h.performed, ?_, ?_, h.bounded, ?_, fun hrun => ?_⟩
    · show st.fsyncedFile + 1 < cfg.numFiles
      omega
    · rw [hless]
      omega
    · rw [hless]
      omega
    · have hle := h.calls_le hrun
      rw [hless]
      omega

theorem seqData_isDirty (cfg : FileConfig) (st : FileVars) :
    (seqData cfg st).2.isDirty = (st.isDirty || seqOperation cfg == .write) := by
  unfold seqData rewind
  dsimp only
  split_ifs <;> rfl

section Fitting

variable (hacc : Accepted cfg) (hsize : 1 ≤ cfg.fileSize) (hfits : Fits cfg) (hlim : maxRequests < 2 ^ 32)

include hacc hsize hfits hlim

theorem Progress.seqData (h : Progress cfg maxRequests st n k)
    (hrun : Running maxRequests st) (hdue : ¬(st.isDirty && fsyncDue cfg st.reqPerformed) = true) :
    Progress cfg maxRequests (seqData cfg st).2 (n + 1) (k + 1) := by
  have hnum := hacc.numFiles
  have hnone : fsyncsLeft cfg st = 0 := if_neg hdue
  obtain ⟨hperformed, hfsynced⟩ := @seqData_reqPerformed cfg st
  have hcount : (Sysbench.seqData cfg st).2.reqPerformed = (k + 1) % 2 ^ 32 := by
    rw [hperformed, h.performed, Nat.mod_add_mod]
  have hfresh : (Sysbench.seqData cfg st).2.fsyncedFile = 0 := hfsynced.trans (h.fresh hnone)
  -- a write makes the files dirty, so that a series starts whenever it is due
  have hleft : fsyncsLeft cfg (Sysbench.seqData cfg st).2 =
      if fsyncDue cfg (k + 1) then cfg.numFiles else 0 := by
    unfold fsyncsLeft
    rw [hcount, fsyncDue_mod, hfresh, Nat.sub_zero, seqData_isDirty]
    cases hwrite : fsyncDue cfg (k + 1) with
    | false => rw [Bool.and_false]
    | true =>
      have hop : seqOperation cfg = .write := (of_decide_eq_true hwrite).2.1
      simp [hop]
  have hcalls : callsFor cfg (k + 1) = n + 1 + fsyncsLeft cfg (Sysbench.seqData cfg st).2 := by
    have hge := h.calls_ge
    have hle := h.calls_le hrun
    rw [callsFor_succ, hleft]
    omega
  refine ⟨(h.place.seqData hacc hsize hfits).2, hcount, by omega, fun _ => hfresh, fun hpos => ?_,
    le_of_eq hcalls, fun _ => le_of_eq hcalls.symm⟩
  have hk := h.bounded hpos
  have hless : st.reqPerformed < maxRequests := Nat.not_le.mp fun hle => hrun ⟨hpos, hle⟩
  rw [h.performed] at hless
  by_contra hover
  rw [Nat.mod_eq_of_lt (by omega)] at hless
  omega

theorem Progress.step (h : Progress cfg maxRequests st n k) :
    (data? (fileGetSeqRequest cfg maxRequests st).1 = some (requestAt cfg k) ∧
      Progress cfg maxRequests (fileGetSeqRequest cfg maxRequests st).2 (n + 1) (k + 1)) ∨
    (data? (fileGetSeqRequest cfg maxRequests st).1 = none ∧
      Progress cfg maxRequests (fileGetSeqRequest cfg maxRequests st).2 (n + 1) k) := by
  have hdue_iff : (st.isDirty && fsyncDue cfg st.reqPerformed) = true ↔ cfg.fsyncFreq ≠ 0 ∧
      seqOperation cfg = .write ∧ st.isDirty = true ∧ st.reqPerformed % cfg.fsyncFreq.toNat = 0 := by
    have hmod : st.reqPerformed % 2 ^ 32 = st.reqPerformed := by rw [h.performed, Nat.mod_mod]
    rw [fsyncDue, hmod, Bool.and_eq_true, decide_eq_true_iff]
    tauto
  unfold fileGetSeqRequest
  split_ifs with hend hsync
  · right
    have hnext : Progress cfg maxRequests st (n + 1) k :=
      ⟨h.place, h.performed, h.series, h.fresh, h.bounded, by have := h.calls_ge; omega,
        fun hrun => absurd hend hrun⟩
    unfold endRequest
    split_ifs
    · exact ⟨rfl, hnext.place.congr rfl rfl, hnext.performed, hnext.series, hnext.fresh, hnext.bounded,
        hnext.calls_ge, hnext.calls_le⟩
    · exact ⟨rfl, hnext⟩
  · exact .inr ⟨rfl, h.nextFsync (hdue_iff.mpr hsync)⟩
  · left
    refine ⟨?_, h.seqData hacc hsize hfits hlim hend (mt hdue_iff.mp hsync)⟩
    rw [← (h.place.seqData hacc hsize hfits).1]
    exact seqData_operation st

theorem Progress.calls (m : Nat) : ∀ {st : FileVars} {n k : Nat},
      Progress cfg maxRequests st n k → ∃ c st', Progress cfg maxRequests st' (n + m) (k + c) ∧
        seqRequests cfg maxRequests st (List.replicate m ()) =
          (List.range' k c).map (requestAt cfg) := by
  induction m with
  | zero => exact fun {st n k} h => ⟨0, st, h, rfl⟩
  | succ m ih =>
    intro st n k h
    rw [List.replicate_succ, seqRequests_cons]
    rcases h.step hacc hsize hfits hlim with ⟨hreq, hnext⟩ | ⟨hreq, hnext⟩
    · obtain ⟨c, st', hprog, hrest⟩ := ih hnext
      refine ⟨c + 1, st', ?_, ?_⟩
      · rw [Nat.add_right_comm n, Nat.add_right_comm k] at hprog
        exact hprog
      · rw [hreq, hrest]
        rfl
    · obtain ⟨c, st', hprog, hrest⟩ := ih hnext
      refine ⟨c, st', ?_, ?_⟩
      · rw [Nat.add_right_comm n] at hprog
        exact hprog
      · rw [hreq, hrest]
        rfl

end Fitting

theorem Progress.le_iff (h : Progress cfg maxRequests st n k) (N : Nat) :
    k ≤ N ↔ n ≤ callsFor cfg N ∨ 0 < maxRequests ∧ maxRequests ≤ N := by
  constructor
  · intro hk
    by_cases hend : 0 < maxRequests ∧ maxRequests ≤ st.reqPerformed
    · have hle := h.performed ▸ hend.2
      exact .inr ⟨hend.1, (hle.trans (Nat.mod_le _ _)).trans hk⟩
    · have := h.calls_le hend
      have := callsFor_mono cfg hk
      exact .inl (by omega)
  · rintro (hn | ⟨hpos, hmax⟩)
    · by_contra hk
      obtain ⟨j, rfl⟩ : ∃ j, k = j + 1 := ⟨k - 1, by omega⟩
      have hge := h.calls_ge
      have hmono := callsFor_mono cfg (show N ≤ j by omega)
      -- what is left is at most the series that the last request for data has made due
      have hleft : fsyncsLeft cfg st ≤ if fsyncDue cfg (j + 1) then cfg.numFiles else 0 := by
        unfold fsyncsLeft
        rw [h.performed, fsyncDue_mod]
        cases fsyncDue cfg (j + 1) with
        | false => simp
        | true => simp only [if_true]; split_ifs <;> omega
      rw [callsFor_succ] at hge
      omega
    · exact (h.bounded hpos).trans hmax

end Progress

/-- **The check is silent until the files start over.** With settings whose requests end exactly at the
size of a file, `n` calls of one thread cause no warning exactly if they are not more than what all
requests for the files take, with the calls that synchronize the files, or the test ends before. -/
theorem seq_check_silent_iff (p : Platform) (run : Bool) (a : FileArgs) (cfg : FileConfig)
    (hparse : parseArguments p run a = .ok cfg) (hsize : 1 ≤ cfg.fileSize) (hfits : Fits cfg)
    (maxRequests : BitVec 32) (n : Nat) :
    seqWarnings cfg maxRequests.toNat n initVars none = [] ↔
      n ≤ callsFor cfg (perFile cfg * cfg.numFiles) ∨
      0 < maxRequests.toNat ∧ maxRequests.toNat ≤ perFile cfg * cfg.numFiles := by
  have hacc := accepted_of_parse hparse
  have hnum := hacc.numFiles
  have hlim := maxRequests.isLt
  obtain ⟨c, st, hprog, hreqs⟩ := (@progress_initVars cfg maxRequests.toNat hnum).calls hacc hsize hfits
    hlim n
  rw [Nat.zero_add, Nat.zero_add] at hprog
  rw [← hprog.le_iff, seqWarnings_eq, hreqs]
  have hall : 0 < perFile cfg * cfg.numFiles := Nat.mul_pos (Nat.succ_pos _) hnum
  cases c with
  | zero => simp [checkAll]
  | succ c =>
    rw [List.range'_succ, List.map_cons]
    refine (checkAll_requestAt hacc hsize hfits (numFiles_lt_of_parse hparse) c 0).trans ?_
    simp only [atStart_requestAt (unit_pos hacc hfits), List.mem_range'_1]
    constructor
    · intro h
      by_contra hmany
      exact h _ ⟨by omega, by omega⟩ (dvd_refl _)
    · rintro hfew k ⟨hk, hlt⟩ hdvd
      have := Nat.le_of_dvd (by omega) hdvd
      omega

/-- A test that writes two files of two blocks and synchronizes them after every other write: the four
writes take eight calls. -/
theorem seq_check_silent_synced :
    parseArguments ⟨true, true, true⟩ true
        { smallArgs 2 64 with testMode := some "seqrewr", fsyncFreq := 2 } =
      .ok { smallConfig 2 64 32 with testMode := .rewrite, fsyncFreq := 2 } ∧
    seqWarnings { smallConfig 2 64 32 with testMode := .rewrite, fsyncFreq := 2 } 0 8 initVars none = [] := by
  have hparse : parseArguments ⟨true, true, true⟩ true
      { smallArgs 2 64 with testMode := some "seqrewr", fsyncFreq := 2 } =
      .ok { smallConfig 2 64 32 with testMode := .rewrite, fsyncFreq := 2 } := by decide +kernel
  refine ⟨hparse, ?_⟩
  exact (seq_check_silent_iff _ _ _ _ hparse (by decide) (by decide : (16 : Int) ∣ 32) 0 8).mpr
    (.inl (by decide))

/-- The fifth request is for the first file again, and in a test of one file of a block the second is. -/
theorem seq_check_warns_at_wrap :
    (parseArguments ⟨true, true, true⟩ true (smallArgs 2 64) = .ok (smallConfig 2 64 32) ∧
      Fits (smallConfig 2 64 32) ∧ seqWarnings (smallConfig 2 64 32) 0 5 initVars none =
        ["Discovered too large file difference in seq requests!"]) ∧
    (parseArguments ⟨true, true, true⟩ true (smallArgs 1 16) = .ok (smallConfig 1 16 16) ∧
      Fits (smallConfig 1 16 16) ∧ seqWarnings (smallConfig 1 16 16) 0 2 initVars none =
        ["Discovered too large position difference in seq request!"]) :=
  ⟨⟨parse_smallArgs, (by decide : (16 : Int) ∣ 32), by decide +kernel⟩,
    ⟨by decide +kernel, (by decide : (16 : Int) ∣ 16), by decide +kernel⟩⟩

end MysqlBench.Sysbench
