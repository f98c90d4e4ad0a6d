import MysqlBench.Sysbench.Fileio.Sequential
import MysqlBench.Sysbench.Random

/-!
# Random requests

Where a random request falls, and the balance of reads and writes of the test `rndrw`.

The position is a random number scaled to `total_size` and cut to a multiple of the block size. The code
then divides by the size of a file, as if the files were aligned to blocks and covered the whole size.
Where they do not, a request may start inside a block of its file, reach over the end of the file, or be
for a file that is not there. The draws are spread evenly over the total size, so it depends on the
settings alone whether one of them gets there (`AllDrawsInside`): bytes behind the last file do no harm
if they are so few that no draw is scaled to one of them.

The operation is chosen by comparing the counters of reads and writes with the ratio. One step keeps
`RatioHolds` (`rwStep_ratio`), as long as the counters, which are `int`s, do not overflow.
-/

namespace MysqlBench.Sysbench

/-! ## Positions -/

def rndPosition (cfg : FileConfig) (r : Nat) : Nat := r * cfg.totalSize.toNat / sbMaxRnd

def rndBlock (cfg : FileConfig) (r : Nat) : Nat :=
  rndPosition cfg r - rndPosition cfg r % cfg.blockSize.toNat

structure Inside (cfg : FileConfig) (req : FileRequest) : Prop where
  file : req.fileId < cfg.numFiles
  aligned : cfg.blockSize ∣ req.pos
  whole : req.pos + req.size ≤ cfg.fileSize
  executed : checkRequest cfg req = .ok ()

/-- Every call on the draw `r` returns, and a request for data that it hands out is inside a file. -/
def DrawInside (cfg : FileConfig) (r : Nat) : Prop :=
  ∀ (maxRequests : Nat) (below : Bool) (st : FileVars),
    ∃ res, fileGetRndRequest cfg maxRequests ⟨below, rndPosition cfg r⟩ st = some res ∧
      ∀ req, res.1 = some req → req.operation ≠ .fsync → Inside cfg req

/-- The block that starts at `x` of the total size is in one of `files` files of `file` bytes, which
starts where a block does and has all of it. -/
structure BlockInFile (file block files x : Nat) : Prop where
  number : x / file % 2 ^ 32 < files
  start : block ∣ x / file * file
  whole : x + block ≤ (x / file + 1) * file

section Blocks

variable {file block files x a y : Nat}

theorem blockInFile_of_dvd (hfile : 0 < file) (hdvd : block ∣ file) (hx : block ∣ x)
    (hlt : x < files * file) : BlockInFile file block files x := by
  obtain ⟨m, rfl⟩ := hdvd
  obtain ⟨k, rfl⟩ := hx
  have hblock : 0 < block := Nat.pos_of_mul_pos_right hfile
  have hm : 0 < m := Nat.pos_of_mul_pos_left hfile
  constructor
  · exact (Nat.mod_le _ _).trans_lt (Nat.div_lt_of_lt_mul (by rwa [Nat.mul_comm _ files]))
  · exact Dvd.dvd.mul_left (Dvd.intro m rfl) _
  · rw [Nat.mul_div_mul_left _ _ hblock, ← Nat.mul_succ, Nat.mul_left_comm]
    apply Nat.mul_le_mul_left
    rw [Nat.mul_comm]
    exact Nat.lt_mul_div_succ k hm

theorem not_blockInFile_of_le (hfile : 0 < file) (hle : files * file ≤ x) (hlt : x / file < 2 ^ 32) :
    ¬BlockInFile file block files x := by
  intro h
  have hid := h.number
  rw [Nat.mod_eq_of_lt hlt] at hid
  exact absurd ((Nat.le_div_iff_mul_le hfile).mpr hle) (Nat.not_le.mpr hid)

theorem blockInFile_of_whole (hblock : 0 < block) (hstart : block ∣ a * file) (hnumber : a < files)
    (hwhole : y + block ≤ file) : BlockInFile file block files (a * file + y) := by
  have hquot : (a * file + y) / file = a := by
    rw [Nat.mul_comm, Nat.mul_add_div (by omega), Nat.div_eq_of_lt (by omega), Nat.add_zero]
  constructor <;> rw [hquot]
  · exact (Nat.mod_le _ _).trans_lt hnumber
  · exact hstart
  · rw [Nat.succ_mul]
    omega

/-- If a file does not end with a block, neither the block at its end nor one that starts in the next
file is in one. -/
theorem not_blockInFile_of_not_dvd (hblock : 0 < block) (hdvd : ¬block ∣ file)
    (hstart : block ∣ a * file) (hlo : file - file % block ≤ y) (hhi : y < 2 * file) :
    ¬BlockInFile file block files (a * file + y) := by
  intro h
  have hmod : 0 < file % block := Nat.pos_of_ne_zero fun h0 => hdvd (Nat.dvd_of_mod_eq_zero h0)
  have hlt := Nat.mod_lt file hblock
  have hle := Nat.mod_le file block
  have hquot : (a * file + y) / file = a + y / file := by
    rw [Nat.mul_comm, Nat.mul_add_div (by omega)]
  rcases Nat.lt_or_ge y file with hfirst | hsecond
  · have hwhole := h.whole
    rw [hquot, Nat.div_eq_of_lt hfirst, Nat.add_zero, Nat.succ_mul] at hwhole
    omega
  · have hnext := h.start
    rw [hquot, Nat.div_eq_of_lt_le (by omega) (by omega : y < (1 + 1) * file), Nat.succ_mul] at hnext
    exact hdvd ((Nat.dvd_add_right hstart).mp hnext)

end Blocks

section Draws

variable {cfg : FileConfig} {r : Nat}

theorem rndData_eq (hacc : Accepted cfg) (hle : cfg.blockSize ≤ cfg.fileSize) (below : Bool)
    (st : FileVars) :
    (rndData cfg ⟨below, rndPosition cfg r⟩ st).1 =
      ⟨rndOperation cfg ⟨below, rndPosition cfg r⟩, rndBlock cfg r / cfg.fileSize.toNat % 2 ^ 32,
        (rndBlock cfg r % cfg.fileSize.toNat : Nat), cfg.blockSize⟩ := by
  have hB := hacc.blockSize
  have hblock : (rndPosition cfg r : Int) - rndPosition cfg r % cfg.blockSize = rndBlock cfg r := by
    have hmod := Nat.mod_le (rndPosition cfg r) cfg.blockSize.toNat
    rw [rndBlock, Nat.cast_sub hmod, Int.natCast_emod, Int.toNat_of_nonneg (by omega)]
  have hF : cfg.fileSize = (cfg.fileSize.toNat : Int) := (Int.toNat_of_nonneg (by omega)).symm
  unfold rndData
  dsimp only
  rw [hblock, hF, ← Int.natCast_ediv, ← Int.natCast_emod, Int.toNat_natCast, Int.toNat_natCast]

theorem rndOperation_ne_fsync (i : RndInput) : rndOperation cfg i ≠ .fsync := by
  unfold rndOperation
  split
  · exact FileOp.noConfusion
  · split_ifs <;> exact FileOp.noConfusion
  · exact FileOp.noConfusion

theorem drawInside_iff (hsize : cfg.fileSize ≠ 0) : DrawInside cfg r ↔
    ∀ below st, Inside cfg (rndData cfg ⟨below, rndPosition cfg r⟩ st).1 := by
  constructor
  · intro h below st
    -- a clean state without a limit asks for data; the request does not depend on the state
    obtain ⟨res, hcall, hin⟩ := h 0 below initVars
    have hdata : fileGetRndRequest cfg 0 ⟨below, rndPosition cfg r⟩ initVars =
        some (some (rndData cfg ⟨below, rndPosition cfg r⟩ initVars).1,
          (rndData cfg ⟨below, rndPosition cfg r⟩ initVars).2) := by
      simp [fileGetRndRequest, initVars, hsize]
    rw [hdata, Option.some.injEq] at hcall
    rw [← hcall] at hin
    exact hin _ rfl (rndOperation_ne_fsync _)
  · intro h maxRequests below st
    unfold fileGetRndRequest endRequest nextFsync
    rw [if_neg hsize]
    split_ifs
    · exact ⟨_, rfl, fun req hreq hop => absurd (Option.some.inj hreq ▸ rfl) hop⟩
    · exact ⟨_, rfl, fun req hreq => absurd hreq (by simp)⟩
    · exact ⟨_, rfl, fun req hreq hop => absurd (Option.some.inj hreq ▸ rfl) hop⟩
    · exact ⟨_, rfl, fun req hreq hop => absurd (Option.some.inj hreq ▸ rfl) hop⟩
    · exact ⟨_, rfl, fun req hreq _ => Option.some.inj hreq ▸ h below st⟩

theorem checkRequest_ok (hacc : Accepted cfg) {req : FileRequest} (hfile : req.fileId < cfg.numFiles)
    (hpos : 0 ≤ req.pos) (hsize : 0 ≤ req.size) (hwhole : req.pos + req.size ≤ cfg.fileSize) :
    checkRequest cfg req = .ok () := by
  have hF := hacc.fileSize_lt
  have hsum : int64 (req.pos + req.size) = req.pos + req.size := int64_eq (by omega) (by omega)
  unfold checkRequest
  rw [hsum, if_neg (by omega), if_neg (by omega)]
  rfl

theorem rndBlock_dvd (cfg : FileConfig) (r : Nat) : cfg.blockSize.toNat ∣ rndBlock cfg r :=
  Nat.dvd_sub_mod _

theorem drawInside_iff_block (hacc : Accepted cfg) (hle : cfg.blockSize ≤ cfg.fileSize) :
    DrawInside cfg r ↔
      BlockInFile cfg.fileSize.toNat cfg.blockSize.toNat cfg.numFiles (rndBlock cfg r) := by
  have hB := hacc.blockSize
  have hBcast : (cfg.blockSize.toNat : Int) = cfg.blockSize := Int.toNat_of_nonneg (by omega)
  have hFcast : (cfg.fileSize.toNat : Int) = cfg.fileSize := Int.toNat_of_nonneg (by omega)
  have hdiv := Nat.div_add_mod (rndBlock cfg r) cfg.fileSize.toNat
  have hdvd := rndBlock_dvd cfg r
  have haligned : cfg.blockSize.toNat ∣ rndBlock cfg r % cfg.fileSize.toNat ↔
      cfg.blockSize.toNat ∣ rndBlock cfg r / cfg.fileSize.toNat * cfg.fileSize.toNat := by
    rw [Nat.mul_comm]
    rw [← hdiv] at hdvd
    exact ⟨fun h => (Nat.dvd_add_left h).mp hdvd, fun h => (Nat.dvd_add_right h).mp hdvd⟩
  have hwhole : rndBlock cfg r % cfg.fileSize.toNat + cfg.blockSize.toNat ≤ cfg.fileSize.toNat ↔
      rndBlock cfg r + cfg.blockSize.toNat ≤
        (rndBlock cfg r / cfg.fileSize.toNat + 1) * cfg.fileSize.toNat := by
    rw [Nat.succ_mul, Nat.mul_comm]
    omega
  rw [drawInside_iff (by omega)]
  simp only [rndData_eq hacc hle]
  constructor
  · intro h
    obtain ⟨hfile, halign, hend, -⟩ := h true initVars
    dsimp only at hfile halign hend
    refine ⟨hfile, haligned.mp ?_, hwhole.mp (by omega)⟩
    rw [← hBcast] at halign
    exact Int.natCast_dvd_natCast.mp halign
  · intro h below st
    have hend : ((rndBlock cfg r % cfg.fileSize.toNat : Nat) : Int) + cfg.blockSize ≤ cfg.fileSize := by
      have := hwhole.mpr h.whole
      omega
    refine ⟨h.number, ?_, hend, checkRequest_ok hacc h.number (Int.natCast_nonneg _) (le_of_lt hB.1) hend⟩
    rw [← hBcast]
    exact Int.natCast_dvd_natCast.mpr (haligned.mpr h.start)

end Draws

/-! ## All draws -/

section Totals

variable {block files x size rnd : Nat}

theorem scaled_lt {r : Nat} (hr : r < rnd) (hx : x ≤ size) (h : (size - x) * rnd < size) :
    r * size / rnd < x := by
  apply Nat.div_lt_of_lt_mul
  have hdraw : r * size + size ≤ rnd * size := by
    rw [← Nat.succ_mul]
    exact Nat.mul_le_mul_right _ hr
  rw [Nat.sub_mul, Nat.mul_comm size] at h
  have := Nat.mul_le_mul_left rnd hx
  rw [Nat.mul_comm rnd x] at this ⊢
  omega

theorem scaled_lt_size {r : Nat} (hr : r < rnd) (hsize : 0 < size) : r * size / rnd < size :=
  scaled_lt hr le_rfl (by rwa [Nat.sub_self, Nat.zero_mul])

theorem le_scaled (hrnd : 0 < rnd) (hx : x ≤ size) (h : size ≤ (size - x) * rnd) :
    x ≤ (rnd - 1) * size / rnd := by
  rw [Nat.le_div_iff_mul_le hrnd]
  rw [Nat.sub_mul] at h
  have := Nat.mul_le_mul_right rnd hx
  have hmul : (rnd - 1) * size = size * rnd - size := by rw [Nat.sub_mul, Nat.one_mul, Nat.mul_comm]
  rw [hmul]
  omega

theorem exists_draw {lo : Nat} (hrnd : 0 < rnd) (hlo : lo ≤ (rnd - 1) * size / rnd) :
    ∃ r < rnd, lo ≤ r * size / rnd ∧ r * size / rnd ≤ lo + size / rnd := by
  -- the least draw that reaches `lo`
  have hex : ∃ r, lo ≤ r * size / rnd := ⟨_, hlo⟩
  classical
  refine ⟨Nat.find hex, ?_, Nat.find_spec hex, ?_⟩
  · have := Nat.find_min' hex hlo
    omega
  · rcases hr : Nat.find hex with - | r
    · simp
    · have hbefore : r * size / rnd < lo := Nat.lt_of_not_le (Nat.find_min hex (by omega))
      rw [Nat.div_lt_iff_lt_mul hrnd] at hbefore
      rw [Nat.succ_mul, Nat.add_comm lo, ← Nat.add_mul_div_right _ _ hrnd]
      apply Nat.div_le_div_right
      omega

/-- The settings with which every draw finds its block in a file. Either the files are made of whole
blocks, and no draw comes to the bytes behind the last. Or each draw comes to the whole blocks of a file
that starts where a block does: this is so for a single file if no draw comes to the block that its end
cuts, and else only for about twice as many files as there are draws, of which every other one is read. -/
def AllDrawsInside (size files block rnd : Nat) : Prop :=
  let file := size / files
  let stride := size / rnd / file
  block ∣ file ∧ size % files * rnd < size ∨
  block ∣ stride * file ∧ stride * (rnd - 1) < files ∧
    (rnd - 1) * (size - stride * file * rnd) / rnd < file - file % block

theorem le_sub_mod {y : Nat} (hx : block ∣ x) (h : x ≤ y) (hblock : 0 < block) :
    x ≤ y - y % block := by
  obtain ⟨k, rfl⟩ := hx
  have hk : k ≤ y / block := (Nat.le_div_iff_mul_le hblock).mpr (by rwa [Nat.mul_comm])
  have hdiv := Nat.div_add_mod y block
  have := Nat.mul_le_mul_left block hk
  omega

/-- The block of a draw, if the draws are `c` bytes and a little more apart, and `c` bytes are whole
blocks. -/
theorem scaled_block {c r : Nat} (hrnd : 0 < rnd) (hc : c * rnd ≤ size) (hdvd : block ∣ r * c) :
    r * size / rnd - r * size / rnd % block =
      r * c + (r * (size - c * rnd) / rnd - r * (size - c * rnd) / rnd % block) := by
  have hscaled : r * size / rnd = r * c + r * (size - c * rnd) / rnd := by
    obtain ⟨e, rfl⟩ := Nat.exists_eq_add_of_le hc
    rw [Nat.add_sub_cancel_left, Nat.mul_add, ← Nat.mul_assoc, Nat.mul_comm _ rnd,
      Nat.mul_add_div hrnd]
  obtain ⟨m, hm⟩ := hdvd
  rw [hscaled, hm, Nat.mul_add_mod, Nat.add_sub_assoc (Nat.mod_le _ _)]

theorem stride_of_blocks (hblock : 0 < block) (hrnd : 1 < rnd) {file : Nat} (hfile : 0 < file)
    (hsize : 0 < size)
    (hid : ∀ x < size, x / file < 2 ^ 32) (hdvd : ¬block ∣ file)
    (h : ∀ r < rnd, BlockInFile file block files (r * size / rnd - r * size / rnd % block)) :
    block ∣ size / rnd / file * file ∧ size / rnd / file * (rnd - 1) < files ∧
      (rnd - 1) * (size - size / rnd / file * file * rnd) / rnd < file - file % block := by
  have hsecond := h 1 hrnd
  rw [Nat.one_mul] at hsecond
  have hmod := Nat.mod_lt (size / rnd) hblock
  have hle := Nat.mod_le (size / rnd) block
  -- the file of the second draw
  have hstride : (size / rnd - size / rnd % block) / file = size / rnd / file := by
    have hwhole := hsecond.whole
    refine (Nat.div_eq_of_lt_le ?_ (by omega)).symm
    exact (Nat.div_mul_le_self _ _).trans (Nat.sub_le _ _)
  have hstart := hsecond.start
  rw [hstride] at hstart
  have hcut := Nat.mod_lt file hblock
  have hcut' := Nat.mod_le file block
  have hlt := Nat.lt_div_mul_add hfile (a := size / rnd)
  have hpos : size / rnd / file * file ≤ size / rnd := Nat.div_mul_le_self _ _
  generalize size / rnd / file = stride at *
  have hc : stride * file * rnd ≤ size := (Nat.le_div_iff_mul_le (by omega)).mp hpos
  have hspread : (size - stride * file * rnd) / rnd < file := by
    rw [Nat.div_lt_iff_lt_mul (by omega)] at hlt ⊢
    rw [Nat.add_mul] at hlt
    omega
  have hblocks : ∀ r < rnd, BlockInFile file block files (r * stride * file +
      (r * (size - stride * file * rnd) / rnd - r * (size - stride * file * rnd) / rnd % block)) := by
    intro r hr
    rw [Nat.mul_assoc, ← scaled_block (by omega) hc (hstart.mul_left r)]
    exact h r hr
  refine ⟨hstart, ?_, ?_⟩
  · have hlast := (hblocks (rnd - 1) (by omega)).number
    rw [Nat.mod_eq_of_lt, Nat.mul_comm (_ * _), Nat.mul_add_div hfile] at hlast
    · rw [Nat.mul_comm stride]
      exact (Nat.le_add_right _ _).trans_lt hlast
    · apply hid
      rw [Nat.mul_assoc, ← scaled_block (by omega) hc (hstart.mul_left _)]
      exact (Nat.sub_le _ _).trans_lt (scaled_lt_size (by omega) hsize)
  · by_contra hfar
    obtain ⟨r, hr, hlo, hhi⟩ := exists_draw (by omega) (Nat.le_of_not_lt hfar)
    have hmul : block ∣ r * stride * file := by
      rw [Nat.mul_assoc]
      exact hstart.mul_left r
    refine not_blockInFile_of_not_dvd hblock hdvd hmul (le_sub_mod (Nat.dvd_sub_mod _) hlo hblock) ?_
      (hblocks r hr)
    omega

theorem blocks_of_stride (hblock : 0 < block) (hrnd : 0 < rnd) {file stride : Nat}
    (hc : stride * file * rnd ≤ size) (hstart : block ∣ stride * file)
    (hnumber : stride * (rnd - 1) < files)
    (hwhole : (rnd - 1) * (size - stride * file * rnd) / rnd < file - file % block) {r : Nat}
    (hr : r < rnd) : BlockInFile file block files (r * size / rnd - r * size / rnd % block) := by
  rw [scaled_block hrnd hc (hstart.mul_left r), ← Nat.mul_assoc]
  have hmul : block ∣ r * stride * file := by
    rw [Nat.mul_assoc]
    exact hstart.mul_left r
  refine blockInFile_of_whole hblock hmul ?_ ?_
  · rw [Nat.mul_comm]
    exact (Nat.mul_le_mul_left _ (Nat.le_pred_of_lt hr)).trans_lt hnumber
  · -- the block starts before one that starts where the last whole block of the file ends
    have hle : r * (size - stride * file * rnd) / rnd ≤ (rnd - 1) * (size - stride * file * rnd) / rnd :=
      Nat.div_le_div_right (Nat.mul_le_mul_right _ (Nat.le_pred_of_lt hr))
    obtain ⟨m, hm⟩ : block ∣ _ := Nat.dvd_sub_mod (r * (size - stride * file * rnd) / rnd)
    obtain ⟨n, hn⟩ : block ∣ _ := Nat.dvd_sub_mod file
    have hmn : m < n := by
      refine Nat.lt_of_mul_lt_mul_left (a := block) ?_
      rw [← hm, ← hn]
      exact (Nat.sub_le _ _).trans_lt (hle.trans_lt hwhole)
    have := Nat.mul_le_mul_left block hmn
    rw [Nat.mul_succ] at this
    omega

theorem blocks_of_allDrawsInside (hblock : 0 < block) (hfile : 0 < size / files) (hrnd : 0 < rnd)
    (h : AllDrawsInside size files block rnd) {r : Nat} (hr : r < rnd) :
    BlockInFile (size / files) block files (r * size / rnd - r * size / rnd % block) := by
  rcases h with ⟨hdvd, hnear⟩ | ⟨hstart, hnumber, hwhole⟩
  · have hdiv := Nat.div_add_mod size files
    have hlt := scaled_lt hr (Nat.mul_div_le size files) (by
      rwa [show size - files * (size / files) = size % files by omega])
    exact blockInFile_of_dvd hfile hdvd (Nat.dvd_sub_mod _) ((Nat.sub_le _ _).trans_lt hlt)
  · have hc := (Nat.le_div_iff_mul_le hrnd).mp (Nat.div_mul_le_self (size / rnd) (size / files))
    exact blocks_of_stride hblock hrnd hc hstart hnumber hwhole hr

theorem allDrawsInside_of_blocks (hblock : 0 < block) (hfiles : 1 ≤ files) (hfile : 0 < size / files)
    (hrnd : 1 < rnd) (hlim : files < 2 ^ 31)
    (h : ∀ r < rnd, BlockInFile (size / files) block files (r * size / rnd - r * size / rnd % block)) :
    AllDrawsInside size files block rnd := by
  have hsize : 0 < size := Nat.pos_of_ne_zero (by rintro rfl; simp at hfile)
  have hdiv := Nat.div_add_mod size files
  have hmod := Nat.mod_lt size hfiles
  have hid : ∀ x < size, x / (size / files) < 2 ^ 32 := by
    intro x hx
    have hdouble : size ≤ size / files * (2 * files) := by
      have := Nat.le_mul_of_pos_right files hfile
      rw [Nat.mul_left_comm, Nat.mul_comm (size / files)]
      omega
    exact (Nat.div_lt_of_lt_mul (hx.trans_le hdouble)).trans (by omega)
  by_cases hdvd : block ∣ size / files
  · refine .inl ⟨hdvd, ?_⟩
    by_contra hfar
    -- the largest draw is behind the last file
    have hreach : files * (size / files) ≤ (rnd - 1) * size / rnd := by
      refine le_scaled (by omega) (Nat.mul_div_le size files) ?_
      rw [show size - files * (size / files) = size % files by omega]
      exact Nat.le_of_not_lt hfar
    refine not_blockInFile_of_le hfile (le_sub_mod (hdvd.mul_left files) hreach hblock) (hid _ ?_)
      (h (rnd - 1) (by omega))
    exact (Nat.sub_le _ _).trans_lt (scaled_lt_size (by omega) hsize)
  · exact .inr (stride_of_blocks hblock hrnd hfile hsize hid hdvd h)

variable {cfg : FileConfig}

theorem Accepted.toNat_fileSize (hacc : Accepted cfg) :
    cfg.fileSize.toNat = cfg.totalSize.toNat / cfg.numFiles := by
  obtain ⟨size, hsize⟩ := Int.eq_ofNat_of_zero_le (le_of_lt hacc.totalSize.1)
  rw [hacc.fileSize, hsize, ← Int.natCast_ediv]
  rfl

def SettingsInside (cfg : FileConfig) : Prop :=
  AllDrawsInside cfg.totalSize.toNat cfg.numFiles cfg.blockSize.toNat sbMaxRnd

instance decidableSettingsInside (cfg : FileConfig) : Decidable (SettingsInside cfg) := by
  unfold SettingsInside AllDrawsInside
  infer_instance

/-- **Random requests inside the files.** With settings that `parse_arguments` accepts and blocks that
are not larger than a file, every draw gives a request inside a file if the files are made of whole
blocks and no draw is scaled to a byte behind the last one, or the draws come to the whole blocks of the
files all the same.

There is no other way, for a number of files that an `int` has: each file has a descriptor, and these are
`int`s. A negative `file-num` is accepted and makes `num_files` larger than that. The numbers of the files
then wrap, and a draw behind the last one may come to the first ones again. -/
theorem rnd_inside_iff (p : Platform) (run : Bool) (a : FileArgs) (cfg : FileConfig)
    (hparse : parseArguments p run a = .ok cfg) (hle : cfg.blockSize ≤ cfg.fileSize) :
    (SettingsInside cfg → ∀ r < sbMaxRnd, DrawInside cfg r) ∧
      (cfg.numFiles < 2 ^ 31 → (∀ r < sbMaxRnd, DrawInside cfg r) → SettingsInside cfg) := by
  have hacc := accepted_of_parse hparse
  have hB := hacc.blockSize
  have hF := hacc.toNat_fileSize
  simp only [drawInside_iff_block hacc hle]
  rw [hF]
  constructor
  · intro h r hr
    exact blocks_of_allDrawsInside (by omega) (by omega) (by decide) h hr
  · intro hlim h
    exact allDrawsInside_of_blocks (by omega) hacc.numFiles (by omega) (by decide) hlim h

end Totals

def rndArgs (testMode : String) (fileNum : Int) (totalSize : Nat) (ratio : ℚ) : FileArgs :=
  ⟨fileNum, totalSize, some testMode, some "sync", 0, 16, some "", 0, true, false, "fsync", ratio, ""⟩

def rndConfig (testMode : TestMode) (numFiles : Nat) (totalSize fileSize : Int) (ratio : ℚ) : FileConfig :=
  ⟨numFiles, totalSize, fileSize, testMode, .sync, 0, 16, 16, .normal, 0, true, false, .all, ratio⟩

/-- One file of whole blocks and a byte. No draw is scaled to the last byte: there are half as many. -/
theorem rnd_inside_spare_byte :
    parseArguments ⟨true, true, true⟩ true (rndArgs "rndrd" 1 2147483649 1) =
        .ok (rndConfig .rndRead 1 2147483649 2147483649 1) ∧
      (∀ r < sbMaxRnd, DrawInside (rndConfig .rndRead 1 2147483649 2147483649 1) r) := by
  have hparse : parseArguments ⟨true, true, true⟩ true (rndArgs "rndrd" 1 2147483649 1) =
      .ok (rndConfig .rndRead 1 2147483649 2147483649 1) := by decide +kernel
  exact ⟨hparse, (rnd_inside_iff _ _ _ _ hparse (by decide)).1 (by decide)⟩

/-- One file of a block and a half: a request for its second block is rejected. Two files of one block,
and one byte more: a request for that byte is for a third file, and is not rejected. -/
theorem rnd_request_outside :
    (parseArguments ⟨true, true, true⟩ true (rndArgs "rndrd" 1 24 1) = .ok (rndConfig .rndRead 1 24 24 1) ∧
      (rndData (rndConfig .rndRead 1 24 24 1)
        ⟨false, rndPosition (rndConfig .rndRead 1 24 24 1) 715827882⟩ initVars).1 = ⟨.read, 0, 16, 16⟩ ∧
      checkRequest (rndConfig .rndRead 1 24 24 1) ⟨.read, 0, 16, 16⟩ =
        .error "Too large position discovered in request!" ∧
      ¬DrawInside (rndConfig .rndRead 1 24 24 1) 715827882) ∧
    (parseArguments ⟨true, true, true⟩ true (rndArgs "rndrd" 2 33 1) = .ok (rndConfig .rndRead 2 33 16 1) ∧
      (rndData (rndConfig .rndRead 2 33 16 1)
        ⟨false, rndPosition (rndConfig .rndRead 2 33 16 1) 1073741822⟩ initVars).1 = ⟨.read, 2, 0, 16⟩ ∧
      checkRequest (rndConfig .rndRead 2 33 16 1) ⟨.read, 2, 0, 16⟩ = .ok () ∧
      ¬DrawInside (rndConfig .rndRead 2 33 16 1) 1073741822) := by
  have hreject : (rndData (rndConfig .rndRead 1 24 24 1)
      ⟨false, rndPosition (rndConfig .rndRead 1 24 24 1) 715827882⟩ initVars).1 = ⟨.read, 0, 16, 16⟩ := by
    decide +kernel
  have hthird : (rndData (rndConfig .rndRead 2 33 16 1)
      ⟨false, rndPosition (rndConfig .rndRead 2 33 16 1) 1073741822⟩ initVars).1 = ⟨.read, 2, 0, 16⟩ := by
    decide +kernel
  refine ⟨⟨by decide +kernel, hreject, rfl, ?_⟩, ⟨by decide +kernel, hthird, rfl, ?_⟩⟩
  · intro h
    have hin := (drawInside_iff (by decide)).mp h false initVars
    rw [hreject] at hin
    exact absurd hin.whole (by decide)
  · intro h
    have hin := (drawInside_iff (by decide)).mp h false initVars
    rw [hthird] at hin
    exact absurd hin.file (by decide)

/-! ## Reads and writes -/

structure OpCounts where
  readOps : Int
  writeOps : Int
  reads : Nat
  writes : Nat

/-- The test `(double)(read_ops + 1) / (write_ops + 1) < file_rw_ratio`. The sums are `int`s; a division
by zero gives an infinity, or no number. -/
def belowRatio (ratio : ℚ) (c : OpCounts) : Bool :=
  if int32 (c.writeOps + 1) = 0 then int32 (c.readOps + 1) < 0
  else (int32 (c.readOps + 1) : ℚ) / int32 (c.writeOps + 1) < ratio

def countOps (req : SbRequest) (c : OpCounts) : OpCounts :=
  match req.map FileRequest.operation with
  | some .read => { c with readOps := int32 (c.readOps + 1), reads := c.reads + 1 }
  | some .write => { c with writeOps := int32 (c.writeOps + 1), writes := c.writes + 1 }
  | _ => c

/-- One thread gets a request on the draw `r` and executes it. Nothing is counted any more once a
division by zero has ended the process. -/
def rwStep (cfg : FileConfig) (maxRequests : Nat) (s : FileVars × OpCounts) (r : Nat) :
    FileVars × OpCounts :=
  match fileGetRndRequest cfg maxRequests ⟨belowRatio cfg.rwRatio s.2, rndPosition cfg r⟩ s.1 with
  | none => s
  | some res => (res.2, countOps res.1 s.2)

def rwRun (cfg : FileConfig) (maxRequests : Nat) (st : FileVars) (draws : List Nat) : FileVars × OpCounts :=
  draws.foldl (rwStep cfg maxRequests) (st, ⟨0, 0, 0, 0⟩)

def RatioHolds (r : ℚ) (c : OpCounts) : Prop := r * c.writes ≤ c.reads + 1 ∧ (c.reads : ℚ) < r * (c.writes + 1)

def Room (c : OpCounts) : Prop := c.reads + 1 < 2 ^ 31 ∧ c.writes + 1 < 2 ^ 31

instance decidableRoom (c : OpCounts) : Decidable (Room c) := inferInstanceAs (Decidable (_ ∧ _))

def CountsExact (c : OpCounts) : Prop := c.readOps = c.reads ∧ c.writeOps = c.writes

section Ratio

variable {cfg : FileConfig} {maxRequests : Nat}

theorem rwStep_cases (hmode : cfg.testMode = .rndRw) (s : FileVars × OpCounts) (r : Nat) :
    (rwStep cfg maxRequests s r).2 = s.2 ∨
    (rwStep cfg maxRequests s r).2 =
      if belowRatio cfg.rwRatio s.2 then { s.2 with readOps := int32 (s.2.readOps + 1), reads := s.2.reads + 1 }
      else { s.2 with writeOps := int32 (s.2.writeOps + 1), writes := s.2.writes + 1 } := by
  unfold rwStep fileGetRndRequest endRequest nextFsync
  dsimp only
  split_ifs with h1 h2 h3 h4 h5
  all_goals try exact Or.inl rfl
  all_goals
    refine Or.inr ?_
    simp [countOps, rndData, rndOperation, *]

theorem belowRatio_eq {c : OpCounts} (hexact : CountsExact c) (hroom : Room c) (ratio : ℚ) :
    belowRatio ratio c = true ↔ (c.reads : ℚ) + 1 < ratio * (c.writes + 1) := by
  obtain ⟨hr, hw⟩ := hexact
  obtain ⟨hrr, hrw⟩ := hroom
  have hpos : (0 : ℚ) < c.writes + 1 := by positivity
  unfold belowRatio
  rw [hr, hw, int32_eq (by omega) (by omega), int32_eq (by omega) (by omega), if_neg (by omega),
    decide_eq_true_iff]
  push_cast
  exact div_lt_iff₀ hpos

theorem rwStep_ratio (hmode : cfg.testMode = .rndRw) (hpos : 0 < cfg.rwRatio) {s : FileVars × OpCounts}
    (hexact : CountsExact s.2) (hroom : Room s.2) (h : RatioHolds cfg.rwRatio s.2) (r : Nat) :
    CountsExact (rwStep cfg maxRequests s r).2 ∧ RatioHolds cfg.rwRatio (rwStep cfg maxRequests s r).2 := by
  have hbelow := belowRatio_eq hexact hroom cfg.rwRatio
  obtain ⟨hr, hw⟩ := hexact
  obtain ⟨hrr, hrw⟩ := hroom
  obtain ⟨hlo, hhi⟩ := h
  rcases @rwStep_cases _ maxRequests hmode s r with heq | heq
  · rw [heq]
    exact ⟨⟨hr, hw⟩, hlo, hhi⟩
  rw [heq]
  -- below the ratio the next operation is a read, and one read more keeps the bound
  cases hb : belowRatio cfg.rwRatio s.2 with
  | true =>
    rw [if_pos rfl]
    refine ⟨⟨?_, hw⟩, ?_, ?_⟩
    · show int32 (s.2.readOps + 1) = (s.2.reads + 1 : Nat)
      rw [hr, int32_eq (by omega) (by omega), Nat.cast_succ]
    · show cfg.rwRatio * s.2.writes ≤ ((s.2.reads + 1 : Nat) : ℚ) + 1
      push_cast
      linarith
    · show ((s.2.reads + 1 : Nat) : ℚ) < cfg.rwRatio * (s.2.writes + 1)
      push_cast
      exact hbelow.mp hb
  | false =>
    -- the ratio is reached, so one more write is allowed
    have hnot : ¬(s.2.reads : ℚ) + 1 < cfg.rwRatio * (s.2.writes + 1) := by
      rw [← hbelow, hb]
      exact Bool.false_ne_true
    rw [if_neg Bool.false_ne_true]
    refine ⟨⟨hr, ?_⟩, ?_, ?_⟩
    · show int32 (s.2.writeOps + 1) = (s.2.writes + 1 : Nat)
      rw [hw, int32_eq (by omega) (by omega), Nat.cast_succ]
    · show cfg.rwRatio * ((s.2.writes + 1 : Nat) : ℚ) ≤ s.2.reads + 1
      push_cast
      exact not_lt.mp hnot
    · show (s.2.reads : ℚ) < cfg.rwRatio * (((s.2.writes + 1 : Nat) : ℚ) + 1)
      push_cast
      linarith

theorem rwRun_ratio (hmode : cfg.testMode = .rndRw) (hpos : 0 < cfg.rwRatio) (st : FileVars)
    (draws : List Nat) (hroom : ∀ n < draws.length, Room (rwRun cfg maxRequests st (draws.take n)).2) :
    CountsExact (rwRun cfg maxRequests st draws).2 ∧
      RatioHolds cfg.rwRatio (rwRun cfg maxRequests st draws).2 := by
  induction draws using List.reverseRecOn with
  | nil => exact ⟨⟨rfl, rfl⟩, by simp [rwRun], by simpa [rwRun] using hpos⟩
  | append_singleton draws r ih =>
    have hlast : Room (rwRun cfg maxRequests st draws).2 := by
      simpa using hroom draws.length (by simp)
    obtain ⟨hexact, hratio⟩ := ih (by
      intro n hn
      have h := hroom n (by rw [List.length_append]; omega)
      rwa [List.take_append_of_le_length (le_of_lt hn)] at h)
    rw [rwRun, List.foldl_append]
    exact rwStep_ratio hmode hpos hexact hlast hratio r

end Ratio

def evenStep (c : OpCounts) : OpCounts :=
  if belowRatio 1 c then { c with readOps := int32 (c.readOps + 1), reads := c.reads + 1 }
  else { c with writeOps := int32 (c.writeOps + 1), writes := c.writes + 1 }

theorem rwStep_even (s : FileVars × OpCounts) (r : Nat) :
    (rwStep (rndConfig .rndRw 1 16 16 1) 0 s r).2 = evenStep s.2 := by
  cases hb : belowRatio 1 s.2 <;>
    simp [rwStep, fileGetRndRequest, rndConfig, countOps, rndData, rndOperation, evenStep, hb]

theorem rwRun_succ (n : Nat) :
    (rwRun (rndConfig .rndRw 1 16 16 1) 0 initVars (List.replicate (n + 1) 0)).2 =
      evenStep (rwRun (rndConfig .rndRw 1 16 16 1) 0 initVars (List.replicate n 0)).2 := by
  rw [List.replicate_succ', rwRun, List.foldl_append]
  exact rwStep_even _ 0

theorem evenStep_twice {m : Nat} (h : m + 2 < 2 ^ 31) :
    evenStep (evenStep ⟨m, m, m, m⟩) = ⟨(m + 1 : Nat), (m + 1 : Nat), m + 1, m + 1⟩ := by
  have hwrite : belowRatio 1 ⟨m, m, m, m⟩ = false := by
    rw [Bool.eq_false_iff, Ne, belowRatio_eq ⟨rfl, rfl⟩ ⟨by dsimp only; omega, by dsimp only; omega⟩]
    simp
  have hread : belowRatio 1 ⟨m, (m + 1 : Nat), m, m + 1⟩ = true := by
    rw [belowRatio_eq ⟨rfl, rfl⟩ ⟨by dsimp only; omega, by dsimp only; omega⟩]
    simp
  have hsucc : int32 ((m : Int) + 1) = (m + 1 : Nat) := by
    rw [int32_eq (by omega) (by omega), Nat.cast_succ]
  have hfirst : evenStep ⟨m, m, m, m⟩ = ⟨m, (m + 1 : Nat), m, m + 1⟩ := by
    simp only [evenStep, hwrite, Bool.false_eq_true, if_false, hsucc]
  rw [hfirst, evenStep, if_pos hread, hsucc]

theorem rwRun_balanced (m : Nat) (h : m + 1 < 2 ^ 31) :
    (rwRun (rndConfig .rndRw 1 16 16 1) 0 initVars (List.replicate (2 * m) 0)).2 = ⟨m, m, m, m⟩ := by
  induction m with
  | zero => rfl
  | succ m ih =>
    rw [Nat.mul_succ, rwRun_succ, rwRun_succ, ih (by omega)]
    exact evenStep_twice h

theorem evenStep_overflow :
    evenStep (evenStep (evenStep (evenStep ⟨2147483646, 2147483646, 2147483646, 2147483646⟩))) =
      ⟨2147483647, -2147483647, 2147483647, 2147483649⟩ := by
  have h1 : evenStep ⟨2147483646, 2147483646, 2147483646, 2147483646⟩ =
      ⟨2147483646, 2147483647, 2147483646, 2147483647⟩ := by
    simp [evenStep, belowRatio, int32]
  have h2 : evenStep ⟨2147483646, 2147483647, 2147483646, 2147483647⟩ =
      ⟨2147483647, 2147483647, 2147483647, 2147483647⟩ := by
    simp [evenStep, belowRatio, int32]
    norm_num
  have h3 : evenStep ⟨2147483647, 2147483647, 2147483647, 2147483647⟩ =
      ⟨2147483647, -2147483648, 2147483647, 2147483648⟩ := by
    simp [evenStep, belowRatio, int32]
  have h4 : evenStep ⟨2147483647, -2147483648, 2147483647, 2147483648⟩ =
      ⟨2147483647, -2147483647, 2147483647, 2147483649⟩ := by
    simp [evenStep, belowRatio, int32]
    norm_num
  rw [h1, h2, h3, h4]

end MysqlBench.Sysbench
