import MysqlBench.Sysbench.Fileio.Model
import Mathlib.Algebra.Order.Ring.Int
import Mathlib.Tactic.Linarith
import Mathlib.Tactic.Ring

/-!
# Coverage of the sequential tests

The requests for data should tile the first file, then the second, and so on, and start again after the
last (`Tiles`). A file is left only when the position hits its end exactly. With merged requests the
last one is cut to fit, so that this happens unless the size of a request overflows; without, it
happens if and only if the block size divides the size of a file. A test with `--max-requests` may end
before it gets there (`seq_tiles_iff`).
-/

namespace MysqlBench.Sysbench

/-! ## What the requests should be -/

/-- Requests that go on at position `pos` of `file`, through `numFiles` files of `fileSize` bytes. -/
def Tiles (fileSize : Int) (numFiles : Nat) : Nat → Int → List FileRequest → Prop
  | _, _, [] => True
  | file, pos, r :: rs => r.fileId = file ∧ r.pos = pos ∧ 1 ≤ r.size ∧ pos + r.size ≤ fileSize ∧
    if pos + r.size = fileSize then
      Tiles fileSize numFiles (if file + 1 = numFiles then 0 else file + 1) 0 rs
    else Tiles fileSize numFiles file (pos + r.size) rs

def data? (r : SbRequest) : Option FileRequest := r.filter fun r => r.operation ≠ .fsync

/-! ## Calls -/

section Calls

variable {T : Type} (cfg : FileConfig) (maxRequests : Nat)

def seqCalls (st : FileVars) : List T → List (T × SbRequest)
  | [] => []
  | t :: ts =>
    let (r, st') := fileGetSeqRequest cfg maxRequests st
    (t, r) :: seqCalls st' ts

def seqVars (st : FileVars) (ts : List T) : FileVars :=
  ts.foldl (fun st _ => (fileGetSeqRequest cfg maxRequests st).2) st

def seqRequests (st : FileVars) (ts : List T) : List FileRequest :=
  (seqCalls cfg maxRequests st ts).filterMap fun c => data? c.2

variable {cfg maxRequests}

theorem seqRequests_cons (st : FileVars) (t : T) (ts : List T) :
    seqRequests cfg maxRequests st (t :: ts) =
      (data? (fileGetSeqRequest cfg maxRequests st).1).toList ++
        seqRequests cfg maxRequests (fileGetSeqRequest cfg maxRequests st).2 ts := by
  unfold seqRequests
  rw [seqCalls, List.filterMap_cons]
  cases data? (fileGetSeqRequest cfg maxRequests st).1 <;> rfl

theorem seqRequests_append (ts us : List T) : ∀ (st : FileVars),
    seqRequests cfg maxRequests st (ts ++ us) = seqRequests cfg maxRequests st ts ++
      seqRequests cfg maxRequests (seqVars cfg maxRequests st ts) us := by
  induction ts with
  | nil => intro _; rfl
  | cons t ts ih =>
    intro st
    rw [List.cons_append, seqRequests_cons, seqRequests_cons, ih, List.append_assoc]
    rfl

def Running (maxRequests : Nat) (st : FileVars) : Prop :=
  ¬(0 < maxRequests ∧ maxRequests ≤ st.reqPerformed)

theorem seqData_operation (st : FileVars) : data? (some (seqData cfg st).1) =
    some (seqData cfg st).1 := by
  have hop : seqOperation cfg ≠ .fsync := by
    unfold seqOperation
    split_ifs <;> exact FileOp.noConfusion
  exact Option.filter_some_pos (decide_eq_true hop)

theorem seq_call_cases (st : FileVars) :
    (Running maxRequests st ∧
      fileGetSeqRequest cfg maxRequests st = (some (seqData cfg st).1, (seqData cfg st).2)) ∨
    (data? (fileGetSeqRequest cfg maxRequests st).1 = none ∧
      (fileGetSeqRequest cfg maxRequests st).2.position = st.position ∧
      (fileGetSeqRequest cfg maxRequests st).2.currentFile = st.currentFile ∧
      (fileGetSeqRequest cfg maxRequests st).2.reqPerformed = st.reqPerformed) := by
  unfold fileGetSeqRequest
  split_ifs with hend hsync
  · right
    unfold endRequest
    split_ifs <;> exact ⟨rfl, rfl, rfl, rfl⟩
  · right
    unfold nextFsync
    refine ⟨rfl, ?_⟩
    dsimp only
    split_ifs <;> exact ⟨rfl, rfl, rfl⟩
  · exact Or.inl ⟨hend, rfl⟩

end Calls

/-! ## Settings -/

structure Accepted (cfg : FileConfig) : Prop where
  numFiles : 1 ≤ cfg.numFiles
  totalSize : 0 < cfg.totalSize ∧ cfg.totalSize < 2 ^ 63
  fileSize : cfg.fileSize = cfg.totalSize / cfg.numFiles
  blockSize : 0 < cfg.blockSize ∧ cfg.blockSize < 2 ^ 31
  merged : 0 ≤ cfg.mergedRequests
  maxRequestSize : cfg.maxRequestSize =
    if 0 < cfg.mergedRequests then int32 (cfg.blockSize * cfg.mergedRequests) else cfg.blockSize

variable {p : Platform} {a : FileArgs} {cfg : FileConfig}

theorem ok_of_guard {V : Type} {c : Prop} [Decidable c] {e : String} {x : Except String V} {v : V}
    (h : (if c then .error e else x) = .ok v) : ¬c ∧ x = .ok v := by
  split_ifs at h with hc
  exact ⟨hc, h⟩

theorem parseArguments_ok {run : Bool}
    (h : parseArguments p run a = .ok cfg) : Accepted cfg ∧ cfg.numFiles < 2 ^ 32 := by
  unfold parseArguments at h
  simp only [bind, Except.bind] at h
  obtain ⟨hnum, h⟩ := ok_of_guard h
  obtain ⟨htotal, h⟩ := ok_of_guard h
  split at h
  · exact absurd h (by simp)
  split at h
  · exact absurd h (by simp)
  obtain ⟨hmerged, h⟩ := ok_of_guard h
  obtain ⟨hblock, h⟩ := ok_of_guard h
  split at h
  · exact absurd h (by simp)
  obtain ⟨-, h⟩ := ok_of_guard h
  split at h
  · exact absurd h (by simp)
  obtain ⟨-, h⟩ := ok_of_guard h
  obtain rfl := Except.ok.inj h
  have htotal := And.intro (Int.not_le.mp htotal) (int64_bounds a.totalSize).2
  have hblock := And.intro (Int.not_le.mp hblock) (int32_bounds a.blockSize).2
  refine ⟨⟨Nat.one_le_iff_ne_zero.mpr hnum, ?_, ?_, ?_, Int.not_lt.mp hmerged, ?_⟩, ?_⟩ <;> dsimp only
  · exact htotal
  · exact hblock
  · omega

theorem accepted_of_parse {run : Bool}
    (h : parseArguments p run a = .ok cfg) : Accepted cfg := (parseArguments_ok h).1

theorem numFiles_lt_of_parse {run : Bool}
    (h : parseArguments p run a = .ok cfg) : cfg.numFiles < 2 ^ 32 := (parseArguments_ok h).2

section Sizes

variable {cfg : FileConfig}

theorem Accepted.fileSize_lt (h : Accepted cfg) : cfg.fileSize < 2 ^ 63 := by
  have hle : cfg.totalSize / (cfg.numFiles : Int) ≤ cfg.totalSize :=
    Int.ediv_le_self _ (le_of_lt h.totalSize.1)
  have := h.totalSize.2
  rw [h.fileSize]
  omega

def unit (cfg : FileConfig) : Int :=
  if 0 < cfg.mergedRequests then cfg.maxRequestSize else cfg.blockSize

def Fits (cfg : FileConfig) : Prop :=
  if 0 < cfg.mergedRequests then
    0 < cfg.maxRequestSize ∧
      ((cfg.fileSize - 1) / cfg.maxRequestSize + 1) * cfg.maxRequestSize < 2 ^ 63
  else cfg.blockSize ∣ cfg.fileSize

def goodRequests (cfg : FileConfig) : Nat :=
  if 0 < cfg.mergedRequests then
    if cfg.maxRequestSize ≤ 0 then 0 else ((cfg.fileSize - 1) / cfg.maxRequestSize).toNat
  else (cfg.fileSize / cfg.blockSize).toNat

theorem Accepted.unit_bounds (h : Accepted cfg) : -2 ^ 31 ≤ unit cfg ∧ unit cfg < 2 ^ 31 := by
  unfold unit
  split_ifs with hm
  · rw [h.maxRequestSize, if_pos hm]
    exact int32_bounds _
  · have := h.blockSize
    omega

theorem seqSize_eq (hacc : Accepted cfg) {pos : Int} (hpos : 0 ≤ pos)
    (hfit : pos + unit cfg < 2 ^ 63)
    (hblock : ¬0 < cfg.mergedRequests → pos + unit cfg ≤ cfg.fileSize) :
    seqSize cfg pos = if pos + unit cfg ≤ cfg.fileSize then unit cfg else cfg.fileSize - pos := by
  have hu := hacc.unit_bounds
  unfold seqSize
  by_cases hm : 0 < cfg.mergedRequests
  · have hunit : unit cfg = cfg.maxRequestSize := if_pos hm
    rw [hunit] at hu hfit ⊢
    rw [if_pos hm, int64_eq (by omega) hfit]
  · rw [if_neg hm, if_pos (hblock hm)]
    exact (if_neg hm).symm

theorem seqSize_of_fits (hacc : Accepted cfg) (hfits : Fits cfg) {pos : Int} (hpos : 0 ≤ pos)
    (hlt : pos < cfg.fileSize) (hdvd : unit cfg ∣ pos) :
    1 ≤ seqSize cfg pos ∧ pos + seqSize cfg pos ≤ cfg.fileSize ∧
      (pos + seqSize cfg pos ≠ cfg.fileSize → unit cfg ∣ pos + seqSize cfg pos) := by
  have hsize := hacc.fileSize_lt
  obtain ⟨k, rfl⟩ := hdvd
  unfold Fits at hfits
  by_cases hm : 0 < cfg.mergedRequests
  · have hunit : unit cfg = cfg.maxRequestSize := if_pos hm
    rw [if_pos hm] at hfits
    rw [hunit] at hpos hlt ⊢
    obtain ⟨hmax, hover⟩ := hfits
    -- `pos` is at most the last multiple of the unit inside the file
    have hk : k ≤ (cfg.fileSize - 1) / cfg.maxRequestSize := by
      refine (Int.le_ediv_iff_mul_le hmax).mpr ?_
      rw [mul_comm]
      omega
    have hnext : cfg.maxRequestSize * k + cfg.maxRequestSize < 2 ^ 63 := by
      refine lt_of_le_of_lt ?_ hover
      have := mul_le_mul_of_nonneg_right (show k + 1 ≤ _ from add_le_add_left hk 1) (le_of_lt hmax)
      calc cfg.maxRequestSize * k + cfg.maxRequestSize = (k + 1) * cfg.maxRequestSize := by ring
        _ ≤ _ := this
    have heq := seqSize_eq hacc hpos (by rw [hunit]; exact hnext) fun hn => absurd hm hn
    rw [heq, hunit]
    -- a whole unit, or the rest of the file
    split_ifs with hle
    · refine ⟨hmax, hle, fun _ => ⟨k + 1, by ring⟩⟩
    · refine ⟨by omega, by omega, fun hne => absurd (by omega) hne⟩
  · have hunit : unit cfg = cfg.blockSize := if_neg hm
    rw [if_neg hm] at hfits
    rw [hunit] at hpos hlt ⊢
    have hb := hacc.blockSize.1
    have hle : cfg.blockSize * k + cfg.blockSize ≤ cfg.fileSize := by
      obtain ⟨m, hm'⟩ := hfits
      rw [hm'] at hlt ⊢
      have hkm : k < m := lt_of_mul_lt_mul_left hlt (le_of_lt hb)
      have := mul_le_mul_of_nonneg_left (show k + 1 ≤ m from hkm) (le_of_lt hb)
      calc cfg.blockSize * k + cfg.blockSize = cfg.blockSize * (k + 1) := by ring
        _ ≤ _ := this
    have hs : seqSize cfg (cfg.blockSize * k) = cfg.blockSize := if_neg hm
    rw [hs]
    exact ⟨hb, hle, fun _ => ⟨k + 1, by ring⟩⟩

theorem mul_unit_lt (hacc : Accepted cfg) (hsize : 1 ≤ cfg.fileSize) (hfits : ¬Fits cfg) {n : Nat}
    (hn : n ≤ goodRequests cfg) : 0 ≤ n * unit cfg ∧ n * unit cfg < cfg.fileSize ∧
      (0 < n → 0 < unit cfg) := by
  unfold goodRequests at hn
  unfold Fits at hfits
  by_cases hm : 0 < cfg.mergedRequests
  · have hunit : unit cfg = cfg.maxRequestSize := if_pos hm
    rw [if_pos hm] at hn
    rw [hunit]
    split_ifs at hn with hmax
    · obtain rfl : n = 0 := Nat.le_zero.mp hn
      refine ⟨?_, ?_, fun h => absurd h (lt_irrefl 0)⟩ <;> omega
    · have hmax : 0 < cfg.maxRequestSize := Int.not_le.mp hmax
      have hle : (n : Int) ≤ (cfg.fileSize - 1) / cfg.maxRequestSize := by
        have := Int.ediv_nonneg (show 0 ≤ cfg.fileSize - 1 by omega) (le_of_lt hmax)
        omega
      have hmul := (Int.le_ediv_iff_mul_le hmax).mp hle
      refine ⟨mul_nonneg (Int.natCast_nonneg n) (le_of_lt hmax), ?_, fun _ => hmax⟩
      omega
  · have hunit : unit cfg = cfg.blockSize := if_neg hm
    have hb := hacc.blockSize.1
    rw [if_neg hm] at hn hfits
    rw [hunit]
    have hle : (n : Int) ≤ cfg.fileSize / cfg.blockSize := by
      have := Int.ediv_nonneg (show 0 ≤ cfg.fileSize by omega) (le_of_lt hb)
      omega
    have hmul := (Int.le_ediv_iff_mul_le hb).mp hle
    refine ⟨mul_nonneg (Int.natCast_nonneg n) (le_of_lt hb), ?_, fun _ => hb⟩
    refine lt_of_le_of_ne hmul fun heq => hfits ⟨n, ?_⟩
    rw [← heq, mul_comm]

theorem seqSize_good (hacc : Accepted cfg) (hsize : 1 ≤ cfg.fileSize) (hfits : ¬Fits cfg) {n : Nat}
    (hn : n < goodRequests cfg) : seqSize cfg (n * unit cfg) = unit cfg ∧ 1 ≤ unit cfg ∧
      n * unit cfg + unit cfg = (n + 1 : Nat) * unit cfg := by
  have hlim := hacc.fileSize_lt
  obtain ⟨hpos, -, -⟩ := mul_unit_lt hacc hsize hfits (le_of_lt hn)
  obtain ⟨-, hlt, hunit⟩ := mul_unit_lt hacc hsize hfits (show n + 1 ≤ goodRequests cfg from hn)
  have hsucc : n * unit cfg + unit cfg = (n + 1 : Nat) * unit cfg := by
    push_cast
    ring
  rw [← hsucc] at hlt
  have heq := seqSize_eq hacc hpos (by omega) fun _ => le_of_lt hlt
  rw [if_pos (le_of_lt hlt)] at heq
  exact ⟨heq, hunit (Nat.succ_pos n), hsucc⟩

theorem seqSize_bad (hacc : Accepted cfg) (hsize : 1 ≤ cfg.fileSize) (hfits : ¬Fits cfg) {pos : Int}
    (hpos : pos = goodRequests cfg * unit cfg) :
    ¬(1 ≤ seqSize cfg pos ∧ pos + seqSize cfg pos ≤ cfg.fileSize) := by
  have hlim := hacc.fileSize_lt
  have hu := hacc.unit_bounds
  obtain ⟨h0, hlt, -⟩ := mul_unit_lt hacc hsize hfits (le_refl (goodRequests cfg))
  rw [← hpos] at h0 hlt
  unfold Fits at hfits
  unfold goodRequests at hpos
  by_cases hm : 0 < cfg.mergedRequests
  · have hunit : unit cfg = cfg.maxRequestSize := if_pos hm
    rw [if_pos hm] at hfits hpos
    rw [hunit] at hpos hu
    unfold seqSize
    rw [if_pos hm]
    by_cases hmax : cfg.maxRequestSize ≤ 0
    · -- a size that is not positive
      rw [int64_eq (by omega) (by omega), if_pos (by omega)]
      omega
    · -- the sum overflows, so that the request is not cut
      rw [if_neg hmax] at hpos
      have hq : 0 ≤ (cfg.fileSize - 1) / cfg.maxRequestSize :=
        Int.ediv_nonneg (by omega) (by omega)
      rw [Int.toNat_of_nonneg hq] at hpos
      have hover : 2 ^ 63 ≤ pos + cfg.maxRequestSize := by
        by_contra hno
        refine hfits ⟨by omega, ?_⟩
        rw [add_mul, one_mul, ← hpos]
        omega
      rw [int64_overflow hover (by omega), if_pos (by omega)]
      omega
  · have hunit : unit cfg = cfg.blockSize := if_neg hm
    have hb := hacc.blockSize.1
    rw [if_neg hm] at hpos
    rw [hunit] at hpos
    have hs : seqSize cfg pos = cfg.blockSize := if_neg hm
    rw [hs]
    -- the file has no room for one more block
    rintro ⟨-, hle⟩
    have hq : 0 ≤ cfg.fileSize / cfg.blockSize := Int.ediv_nonneg (by omega) (le_of_lt hb)
    rw [Int.toNat_of_nonneg hq] at hpos
    have hnext : cfg.fileSize / cfg.blockSize + 1 ≤ cfg.fileSize / cfg.blockSize := by
      refine (Int.le_ediv_iff_mul_le hb).mpr ?_
      rw [add_mul, one_mul, ← hpos]
      exact hle
    omega

end Sizes

/-! ## Places -/

section Places

variable {T : Type} {cfg : FileConfig} {maxRequests : Nat} {st st' : FileVars} {file : Nat} {pos : Int}

structure AtPlace (cfg : FileConfig) (st : FileVars) (file : Nat) (pos : Int) : Prop where
  file : (rewind cfg st).currentFile = file
  pos : (rewind cfg st).position = pos

theorem AtPlace.congr (h : AtPlace cfg st file pos) (hpos : st'.position = st.position)
    (hfile : st'.currentFile = st.currentFile) : AtPlace cfg st' file pos := by
  obtain ⟨h1, h2⟩ := h
  unfold rewind at h1 h2
  constructor <;> unfold rewind <;> rw [hfile]
  · split_ifs at h1 ⊢
    · exact h1
    · exact hfile.trans h1
  · split_ifs at h2 ⊢
    · exact h2
    · exact hpos.trans h2

theorem AtPlace.count (h : AtPlace cfg st file pos) (op : FileOp) :
    AtPlace cfg (countRequest op st) file pos := h.congr rfl rfl

theorem atPlace_of_ne (hfile : st.currentFile = file) (hpos : st.position = pos)
    (hne : file ≠ cfg.numFiles) : AtPlace cfg st file pos := by
  have hrew : rewind cfg st = st := if_neg (hfile ▸ hne)
  exact ⟨hrew.symm ▸ hfile, hrew.symm ▸ hpos⟩

theorem atPlace_of_eq (hfile : st.currentFile = cfg.numFiles) : AtPlace cfg st 0 0 := by
  have hrew : rewind cfg st = { st with position := 0, currentFile := 0 } := if_pos hfile
  exact ⟨hrew.symm ▸ rfl, hrew.symm ▸ rfl⟩

theorem seqData_fst (h : AtPlace cfg st file pos) :
    (seqData cfg st).1 = ⟨seqOperation cfg, file, pos, seqSize cfg pos⟩ := by
  obtain ⟨h1, h2⟩ := h.count (seqOperation cfg)
  unfold seqData
  dsimp only
  rw [h1, h2]

theorem seqData_same_file (h : AtPlace cfg st file pos) (hfile : file < cfg.numFiles)
    (hlim : cfg.fileSize < 2 ^ 63) (hpos : 0 ≤ pos + seqSize cfg pos)
    (hlt : pos + seqSize cfg pos < cfg.fileSize) :
    AtPlace cfg (seqData cfg st).2 file (pos + seqSize cfg pos) := by
  obtain ⟨h1, h2⟩ := h.count (seqOperation cfg)
  have hsum := int64_eq (show -2 ^ 63 ≤ pos + seqSize cfg pos by omega) (by omega)
  unfold seqData
  dsimp only
  rw [h2, hsum, if_neg (by omega)]
  exact atPlace_of_ne h1 rfl (by omega)

theorem seqData_next_file (h : AtPlace cfg st file pos) (hlim : cfg.fileSize < 2 ^ 63)
    (hsize : 1 ≤ cfg.fileSize) (hend : pos + seqSize cfg pos = cfg.fileSize) :
    AtPlace cfg (seqData cfg st).2 (if file + 1 = cfg.numFiles then 0 else file + 1) 0 := by
  obtain ⟨h1, h2⟩ := h.count (seqOperation cfg)
  have hsum := int64_eq (show -2 ^ 63 ≤ pos + seqSize cfg pos by omega) (by omega)
  unfold seqData
  dsimp only
  rw [h2, hsum, if_pos hend, h1]
  split_ifs with hlast
  · exact atPlace_of_eq hlast
  · exact atPlace_of_ne rfl rfl hlast

theorem seqData_reqPerformed : (seqData cfg st).2.reqPerformed = (st.reqPerformed + 1) % 2 ^ 32 ∧
    (seqData cfg st).2.fsyncedFile = st.fsyncedFile := by
  unfold seqData rewind
  dsimp only
  split_ifs <;> exact ⟨rfl, rfl⟩

theorem tiles_of_fits (hacc : Accepted cfg) (hsize : 1 ≤ cfg.fileSize) (hfits : Fits cfg) :
    ∀ (ts : List T) (st : FileVars) (file : Nat) (pos : Int), AtPlace cfg st file pos →
      file < cfg.numFiles → 0 ≤ pos → pos < cfg.fileSize → unit cfg ∣ pos →
      Tiles cfg.fileSize cfg.numFiles file pos (seqRequests cfg maxRequests st ts) := by
  intro ts
  induction ts with
  | nil => intro _ _ _ _ _ _ _ _; trivial
  | cons t ts ih =>
    intro st file pos hat hfile hpos hlt hdvd
    rw [seqRequests_cons]
    rcases @seq_call_cases cfg maxRequests st with
      ⟨-, hcall⟩ | ⟨hnone, hp, hf, -⟩
    · obtain ⟨h1, hle, hnext⟩ := seqSize_of_fits hacc hfits hpos hlt hdvd
      rw [hcall, seqData_operation, seqData_fst hat]
      refine ⟨rfl, rfl, h1, hle, ?_⟩
      dsimp only
      by_cases hend : pos + seqSize cfg pos = cfg.fileSize
      · rw [if_pos hend]
        have hfile' : (if file + 1 = cfg.numFiles then 0 else file + 1) < cfg.numFiles := by
          split_ifs <;> omega
        exact ih _ _ _ (seqData_next_file hat hacc.fileSize_lt hsize hend) hfile' le_rfl
          (by omega) (dvd_zero _)
      · rw [if_neg hend]
        exact ih _ _ _ (seqData_same_file hat hfile hacc.fileSize_lt (by omega) (by omega)) hfile
          (by omega) (by omega) (hnext hend)
    · rw [hnone]
      exact ih _ _ _ (hat.congr hp hf) hfile hpos hlt hdvd

theorem seqData_good (hacc : Accepted cfg) (hsize : 1 ≤ cfg.fileSize) (hfits : ¬Fits cfg) {n : Nat}
    (hn : n < goodRequests cfg) (hat : AtPlace cfg st 0 (n * unit cfg)) :
    (seqData cfg st).1 = ⟨seqOperation cfg, 0, n * unit cfg, unit cfg⟩ ∧
      AtPlace cfg (seqData cfg st).2 0 ((n + 1 : Nat) * unit cfg) ∧
      n * unit cfg + unit cfg < cfg.fileSize := by
  obtain ⟨hs, hunit, hsucc⟩ := seqSize_good hacc hsize hfits hn
  obtain ⟨h0, hlt, -⟩ := mul_unit_lt hacc hsize hfits (show n + 1 ≤ goodRequests cfg from hn)
  have hnext := seqData_same_file hat hacc.numFiles hacc.fileSize_lt
    (by rw [hs, hsucc]; exact h0) (by rw [hs, hsucc]; exact hlt)
  have hfst := seqData_fst hat
  rw [hs] at hnext hfst
  rw [hsucc] at hnext ⊢
  exact ⟨hfst, hnext, hlt⟩

theorem tiles_of_few (hacc : Accepted cfg) (hsize : 1 ≤ cfg.fileSize) (hfits : ¬Fits cfg)
    (hmax : 0 < maxRequests) (hlim : maxRequests < 2 ^ 32) (hfew : maxRequests ≤ goodRequests cfg) :
    ∀ (ts : List T) (st : FileVars), AtPlace cfg st 0 (st.reqPerformed * unit cfg) →
      Tiles cfg.fileSize cfg.numFiles 0 (st.reqPerformed * unit cfg)
        (seqRequests cfg maxRequests st ts) := by
  intro ts
  induction ts with
  | nil => intro _ _; trivial
  | cons t ts ih =>
    intro st hat
    rw [seqRequests_cons]
    rcases @seq_call_cases cfg maxRequests st with
      ⟨hrun, hcall⟩ | ⟨hnone, hp, hf, hreq⟩
    · have hn : st.reqPerformed < maxRequests := Nat.not_le.mp fun hle => hrun ⟨hmax, hle⟩
      obtain ⟨hfst, hnext, hlt⟩ := seqData_good hacc hsize hfits (lt_of_lt_of_le hn hfew) hat
      obtain ⟨-, hunit, hsucc⟩ := seqSize_good hacc hsize hfits (lt_of_lt_of_le hn hfew)
      have hcount : (seqData cfg st).2.reqPerformed = st.reqPerformed + 1 := by
        rw [seqData_reqPerformed.1, Nat.mod_eq_of_lt (by omega)]
      rw [hcall, seqData_operation, hfst]
      refine ⟨rfl, rfl, hunit, le_of_lt hlt, ?_⟩
      dsimp only
      rw [if_neg (ne_of_lt hlt), hsucc, ← hcount]
      rw [← hcount] at hnext
      exact ih _ hnext
    · rw [hnone, ← hreq]
      rw [← hreq] at hat
      exact ih _ (hat.congr hp hf)

/-! ## Settings that do not fit -/

theorem data_call (t : T) (hcall : fileGetSeqRequest cfg maxRequests st =
    (some (seqData cfg st).1, (seqData cfg st).2)) :
    seqRequests cfg maxRequests st [t] = [(seqData cfg st).1] ∧
      seqVars cfg maxRequests st [t] = (seqData cfg st).2 := by
  rw [seqRequests_cons, hcall, seqData_operation]
  exact ⟨rfl, congrArg Prod.snd hcall⟩

/-- After some calls for `fsync` the next request for data is handed out, by induction on the files
that are left in the series. -/
theorem exists_data_call (t : T) : ∀ (k : Nat) (st : FileVars), cfg.numFiles - st.fsyncedFile ≤ k →
    Running maxRequests st → st.fsyncedFile < cfg.numFiles → AtPlace cfg st file pos →
    ∃ (ts : List T) (st' : FileVars), seqRequests cfg maxRequests st ts = [(seqData cfg st').1] ∧
      seqVars cfg maxRequests st ts = (seqData cfg st').2 ∧ AtPlace cfg st' file pos ∧
      st'.reqPerformed = st.reqPerformed ∧ st'.fsyncedFile < cfg.numFiles := by
  intro k
  induction k with
  | zero => intro st hk _ hfile _; omega
  | succ k ih =>
    intro st hk hrun hfile hat
    by_cases hsync : cfg.fsyncFreq ≠ 0 ∧ seqOperation cfg = .write ∧ st.isDirty = true ∧
        st.reqPerformed % cfg.fsyncFreq.toNat = 0
    · have hcall : fileGetSeqRequest cfg maxRequests st = nextFsync cfg st := by
        unfold fileGetSeqRequest
        rw [if_neg hrun, if_pos hsync]
      by_cases hlast : st.fsyncedFile + 1 = cfg.numFiles
      · -- the series is complete, and nothing is dirty
        let st₁ : FileVars := { st with fsyncedFile := 0, isDirty := false }
        have hnext : nextFsync cfg st = (some (fsyncRequest st.fsyncedFile), st₁) := by
          unfold nextFsync
          rw [if_pos hlast]
        have hdata : fileGetSeqRequest cfg maxRequests st₁ =
            (some (seqData cfg st₁).1, (seqData cfg st₁).2) := by
          unfold fileGetSeqRequest
          rw [if_neg hrun, if_neg fun hc => Bool.noConfusion hc.2.2.1]
        obtain ⟨hreq, hvars⟩ := data_call t hdata
        refine ⟨[t, t], st₁, ?_, ?_, hat.congr rfl rfl, rfl, Nat.zero_lt_of_lt hfile⟩
        · rw [seqRequests_cons, hcall, hnext]
          exact hreq
        · rw [← hvars, seqVars, List.foldl_cons, hcall, hnext]
          rfl
      · let st₁ : FileVars := { st with fsyncedFile := st.fsyncedFile + 1 }
        have hnext : nextFsync cfg st = (some (fsyncRequest st.fsyncedFile), st₁) := by
          unfold nextFsync
          rw [if_neg hlast]
        have hfile' : st.fsyncedFile + 1 < cfg.numFiles := by omega
        have hk' : cfg.numFiles - (st.fsyncedFile + 1) ≤ k := by omega
        obtain ⟨ts, st', hreq, hvars, hplace⟩ := ih st₁ hk' hrun hfile' (hat.congr rfl rfl)
        refine ⟨t :: ts, st', ?_, ?_, hplace⟩
        · rw [seqRequests_cons, hcall, hnext]
          exact hreq
        · rw [← hvars, seqVars, List.foldl_cons, hcall, hnext]
          rfl
    · have hdata : fileGetSeqRequest cfg maxRequests st =
          (some (seqData cfg st).1, (seqData cfg st).2) := by
        unfold fileGetSeqRequest
        rw [if_neg hrun, if_neg hsync]
      obtain ⟨hreq, hvars⟩ := data_call t hdata
      exact ⟨[t], st, hreq, hvars, hat, rfl, hfile⟩

theorem exists_not_tiles (hacc : Accepted cfg) (hsize : 1 ≤ cfg.fileSize) (hfits : ¬Fits cfg)
    (hmany : 0 < maxRequests → goodRequests cfg < maxRequests) (hlim : maxRequests < 2 ^ 32) (t : T) :
    ∀ (k n : Nat) (st : FileVars), n + k = goodRequests cfg → AtPlace cfg st 0 (n * unit cfg) →
      (0 < maxRequests → st.reqPerformed = n) → st.fsyncedFile < cfg.numFiles →
      ∃ ts : List T, ¬Tiles cfg.fileSize cfg.numFiles 0 (n * unit cfg)
        (seqRequests cfg maxRequests st ts) := by
  intro k
  induction k with
  | zero =>
    intro n st hn hat hreq hfile
    -- fewer requests than the limit have been performed
    have hrun : Running maxRequests st := fun hend => by
      have h1 := hmany hend.1
      have h2 := hreq hend.1
      omega
    obtain ⟨ts, st', hdata, -, hplace, -⟩ := exists_data_call t _ st le_rfl hrun hfile hat
    refine ⟨ts, ?_⟩
    rw [hdata, seqData_fst hplace]
    rintro ⟨-, -, h1, hle, -⟩
    exact seqSize_bad hacc hsize hfits (by rw [← hn]; rfl) ⟨h1, hle⟩
  | succ k ih =>
    intro n st hn hat hreq hfile
    have hrun : Running maxRequests st := fun hend => by
      have h1 := hmany hend.1
      have h2 := hreq hend.1
      omega
    obtain ⟨ts, st', hdata, hvars, hplace, hcount, hfile'⟩ :=
      exists_data_call t _ st le_rfl hrun hfile hat
    obtain ⟨hfst, hnext, hlt⟩ := seqData_good hacc hsize hfits (show n < goodRequests cfg by omega)
      hplace
    have hreq' : 0 < maxRequests → (seqData cfg st').2.reqPerformed = n + 1 := fun hpos => by
      have h1 := hmany hpos
      rw [seqData_reqPerformed.1, hcount, hreq hpos, Nat.mod_eq_of_lt (by omega)]
    obtain ⟨us, hus⟩ := ih (n + 1) _ (by omega) hnext hreq'
      (by rw [seqData_reqPerformed.2]; exact hfile')
    -- a good request is taken off the front, and the bad one is found later
    refine ⟨ts ++ us, ?_⟩
    rw [seqRequests_append, hdata, hvars, hfst]
    rintro ⟨-, -, -, -, hrest⟩
    dsimp only at hrest
    obtain ⟨-, -, hsucc⟩ := seqSize_good hacc hsize hfits (show n < goodRequests cfg by omega)
    rw [if_neg (ne_of_lt hlt), hsucc] at hrest
    exact hus hrest

end Places

theorem checkRequest_of_tiles {cfg : FileConfig} (hlim : cfg.fileSize < 2 ^ 63) :
    ∀ (rs : List FileRequest) (file : Nat) (pos : Int), file < cfg.numFiles → 0 ≤ pos →
      Tiles cfg.fileSize cfg.numFiles file pos rs → ∀ r ∈ rs, checkRequest cfg r = .ok () := by
  intro rs
  induction rs with
  | nil => intro _ _ _ _ _ r hr; exact absurd hr List.not_mem_nil
  | cons r rs ih =>
    intro file pos hfile hpos h
    obtain ⟨hid, hp, h1, hle, hrest⟩ := h
    intro q hq
    rcases List.mem_cons.mp hq with rfl | hq
    · unfold checkRequest
      rw [hid, hp, int64_eq (by omega) (by omega), if_neg (by omega), if_neg (by omega)]
      rfl
    · by_cases hend : pos + r.size = cfg.fileSize
      · rw [if_pos hend] at hrest
        refine ih _ 0 ?_ le_rfl hrest q hq
        split_ifs <;> omega
      · rw [if_neg hend] at hrest
        exact ih file _ hfile (by omega) hrest q hq

/-- With settings that `parse_arguments` accepts, the requests for data tile the files and pass the
check in every sequence of calls if and only if they fit, or the test ends before the first that
does not. A file is left only when the position hits its end. -/
theorem seq_tiles_iff {T : Type} (t : T) {p : Platform} {run : Bool} {a : FileArgs}
    {cfg : FileConfig} (maxRequests : BitVec 32) (h : parseArguments p run a = .ok cfg)
    (hsize : 1 ≤ cfg.fileSize) :
    (∀ ts : List T,
      Tiles cfg.fileSize cfg.numFiles 0 0 (seqRequests cfg maxRequests.toNat initVars ts) ∧
      ∀ r ∈ seqRequests cfg maxRequests.toNat initVars ts, checkRequest cfg r = .ok ()) ↔
    Fits cfg ∨ (0 < maxRequests.toNat ∧ maxRequests.toNat ≤ goodRequests cfg) := by
  have hacc := accepted_of_parse h
  have hlim := maxRequests.isLt
  have hat : AtPlace cfg initVars 0 0 :=
    atPlace_of_ne rfl rfl (Nat.ne_of_lt hacc.numFiles)
  constructor
  · intro hall
    by_contra hno
    rw [not_or, not_and] at hno
    obtain ⟨ts, hts⟩ := exists_not_tiles hacc hsize hno.1 (fun hpos => Nat.not_le.mp (hno.2 hpos))
      hlim t (goodRequests cfg) 0 initVars (Nat.zero_add _) (by simpa using hat) (fun _ => rfl)
      hacc.numFiles
    rw [Nat.cast_zero, zero_mul] at hts
    exact hts (hall ts).1
  · intro hcond ts
    have htiles : Tiles cfg.fileSize cfg.numFiles 0 0
        (seqRequests cfg maxRequests.toNat initVars ts) := by
      by_cases hfits : Fits cfg
      · exact tiles_of_fits hacc hsize hfits ts initVars 0 0 hat hacc.numFiles le_rfl
          (lt_of_lt_of_le (by decide) hsize) (dvd_zero _)
      · obtain ⟨hpos, hfew⟩ := hcond.resolve_left hfits
        have hrun := tiles_of_few hacc hsize hfits hpos hlim hfew ts initVars
          (by simpa [initVars] using hat)
        simpa [initVars] using hrun
    exact ⟨htiles, checkRequest_of_tiles hacc.fileSize_lt _ 0 0 hacc.numFiles le_rfl htiles⟩

def smallArgs (fileNum : Int) (totalSize : Nat) : FileArgs :=
  ⟨fileNum, totalSize, some "seqrd", some "sync", 0, 16, some "", 100, true, false, "fsync", 3 / 2,
    "1.500000"⟩

def smallConfig (numFiles : Nat) (totalSize fileSize : Int) : FileConfig :=
  ⟨numFiles, totalSize, fileSize, .read, .sync, 0, 16, 16, .normal, 100, true, false, .all, 3 / 2⟩

theorem parse_smallArgs : parseArguments ⟨true, true, true⟩ true (smallArgs 2 64) =
    .ok (smallConfig 2 64 32) := by decide +kernel

theorem parse_smallArgs_uneven : parseArguments ⟨true, true, true⟩ true (smallArgs 1 24) =
    .ok (smallConfig 1 24 24) := by decide +kernel

/-- Two files of two blocks. -/
theorem seq_tiles_even :
    (parseArguments ⟨true, true, true⟩ true (smallArgs 2 64) = .ok (smallConfig 2 64 32)) ∧
    ∀ ts : List (Fin 4), Tiles 32 2 0 0 (seqRequests (smallConfig 2 64 32) 0 initVars ts) :=
  ⟨parse_smallArgs, fun ts => ((seq_tiles_iff 0 0 parse_smallArgs (by decide)).mpr
    (Or.inl (by decide : (16 : Int) ∣ 32)) ts).1⟩

/-- One file of a block and a half: the second request reaches behind its end. -/
theorem seq_tiles_uneven :
    (parseArguments ⟨true, true, true⟩ true (smallArgs 1 24) = .ok (smallConfig 1 24 24)) ∧
    seqRequests (smallConfig 1 24 24) 0 initVars [(), ()] =
      [⟨.read, 0, 0, 16⟩, ⟨.read, 0, 16, 16⟩] ∧
    checkRequest (smallConfig 1 24 24) ⟨.read, 0, 16, 16⟩ =
      .error "Too large position discovered in request!" ∧
    ¬Tiles 24 1 0 0 (seqRequests (smallConfig 1 24 24) 0 initVars [(), ()]) := by
  have hreq : seqRequests (smallConfig 1 24 24) 0 initVars [(), ()] =
      [⟨.read, 0, 0, 16⟩, ⟨.read, 0, 16, 16⟩] := by decide
  refine ⟨parse_smallArgs_uneven, hreq, rfl, ?_⟩
  rw [hreq]
  rintro ⟨-, -, -, -, -, -, -, hle, -⟩
  exact absurd hle (by decide)

end MysqlBench.Sysbench
