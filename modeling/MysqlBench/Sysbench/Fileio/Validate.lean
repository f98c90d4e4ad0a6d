import MysqlBench.Lib.Wire
import MysqlBench.Sysbench.Fileio.Sequential

/-!
# Validation of what is read

With `--validate` a buffer that is written ends with a checksum of what comes before and with the
position it is written to, and a buffer that is read is checked against both. `create_files` writes
the files block by block, so every block carries a trailer of its own, and a request for one block
finds it and leaves one (`execCalls_valid`). A merged request looks for one trailer at its own end,
where the last of its blocks has the position of that block (`read_merged_invalid`). So the data of the
program is accepted in all runs if and only if no request is of more than one block
(`runs_valid_iff`).
-/

namespace MysqlBench.Sysbench

open Lib

/-! ## Buffers -/

def fileChecksumLength : Nat := 4

def fileOffsetLength : Nat := 8

def crcTable (n : BitVec 32) : BitVec 32 :=
  (List.range 8).foldl (fun c _ => if c &&& 1#32 = 1#32 then 0xedb88320#32 ^^^ c >>> 1 else c >>> 1) n

def crc32 (buf : List Byte) : BitVec 32 :=
  buf.foldl (fun crc b => crcTable ((crc ^^^ b.setWidth 32) &&& 0xff#32) ^^^ crc >>> 8) 0xffffffff#32
    ^^^ 0xffffffff#32

section Buffers

-- The checksum may be any function of the bytes before it.
variable (crc : List Byte → BitVec 32) (host : Endian)

def fileFillBuffer (rnd : Nat → Byte) (len offset : Nat) : List Byte :=
  let data := (List.range (len - (fileChecksumLength + fileOffsetLength))).map rnd
  data ++ (hostBytes host fileChecksumLength (crc data).toNat ++
    hostBytes host fileOffsetLength offset)

def storedChecksum (buf : List Byte) : Nat :=
  let csOffset := buf.length - (fileChecksumLength + fileOffsetLength)
  hostValue host ((buf.drop csOffset).take fileChecksumLength)

def storedOffset (buf : List Byte) : Nat :=
  let csOffset := buf.length - (fileChecksumLength + fileOffsetLength)
  hostValue host ((buf.drop (csOffset + fileChecksumLength)).take fileOffsetLength)

def fileValidateBuffer (buf : List Byte) (offset : Nat) : Except String Unit := do
  let csOffset := buf.length - (fileChecksumLength + fileOffsetLength)
  if (crc (buf.take csOffset)).toNat ≠ storedChecksum host buf then
    .error "Checksum mismatch in block: "
  if offset ≠ storedOffset host buf then
    .error "Offset mismatch in block:"

variable {crc host}

theorem length_fileFillBuffer (rnd : Nat → Byte) {len : Nat} (offset : Nat)
    (hlen : fileChecksumLength + fileOffsetLength ≤ len) :
    (fileFillBuffer crc host rnd len offset).length = len := by
  simp [fileFillBuffer]
  omega

theorem fileValidateBuffer_ok_iff (buf : List Byte) (offset : Nat) :
    fileValidateBuffer crc host buf offset = .ok () ↔
      (crc (buf.take (buf.length - (fileChecksumLength + fileOffsetLength)))).toNat =
        storedChecksum host buf ∧ offset = storedOffset host buf := by
  unfold fileValidateBuffer
  by_cases h1 : (crc (buf.take (buf.length - (fileChecksumLength + fileOffsetLength)))).toNat =
      storedChecksum host buf
  · by_cases h2 : offset = storedOffset host buf
    · simp [h1, ← h2, pure, Except.pure]
    · simp [h1, h2]
  · simp [h1, bind, Except.bind]

theorem validate_fill (rnd : Nat → Byte) {len offset : Nat}
    (hlen : fileChecksumLength + fileOffsetLength ≤ len) (hoff : offset < 2 ^ 64) :
    fileValidateBuffer crc host (fileFillBuffer crc host rnd len offset) offset = .ok () := by
  have hcrc : ∀ data : List Byte, (crc data).toNat < 256 ^ fileChecksumLength :=
    fun data => (crc data).isLt
  rw [fileValidateBuffer_ok_iff, storedChecksum, storedOffset, length_fileFillBuffer rnd offset hlen]
  unfold fileFillBuffer
  generalize hdata : (List.range (len - (fileChecksumLength + fileOffsetLength))).map rnd = data
  have hlength : len - (fileChecksumLength + fileOffsetLength) = data.length := by simp [← hdata]
  dsimp only
  rw [hlength, List.take_left, List.drop_left, List.drop_append, List.drop_of_length_le (by omega),
    List.nil_append, Nat.add_sub_cancel_left]
  refine ⟨?_, ?_⟩
  · rw [List.take_left' (length_hostBytes _ _ _), hostValue_hostBytes host (hcrc data)]
  · rw [List.drop_left' (length_hostBytes _ _ _),
      List.take_of_length_le (le_of_eq (length_hostBytes _ _ _)), hostValue_hostBytes host hoff]

end Buffers

/-! ## Files -/

structure TestFile where
  bytes : Mem
  length : Nat

namespace TestFile

def empty : TestFile := ⟨fun _ => 0#8, 0⟩

def pwrite (f : TestFile) (buf : List Byte) (pos : Nat) : TestFile :=
  ⟨store f.bytes pos buf, max f.length (pos + buf.length)⟩

def pread (f : TestFile) (size pos : Nat) : List Byte := load f.bytes pos (min size (f.length - pos))

end TestFile

abbrev Disk := Nat → TestFile

/-- The loop of `create_files` over the blocks of a file. A block size of zero is not accepted; with
it the loop would not end. -/
def createBlocks (fill : Nat → List Byte) (blockSize fileSize : Nat) (offset : Nat) (f : TestFile) :
    TestFile :=
  if offset < fileSize ∧ 0 < blockSize then
    createBlocks fill blockSize fileSize (offset + blockSize) (f.pwrite (fill offset) offset)
  else f
termination_by fileSize - offset

/-- How a run fails: by the check of a request or a system call, by the validation of what was read, or
because the process is ended before there is a request. -/
inductive Failure
  | request (text : String)
  | validation (text : String)
  | divisionByZero
deriving Repr, DecidableEq

section Execution

variable (crc : List Byte → BitVec 32) (host : Endian) (cfg : FileConfig)

/-- `create_files`: each file is filled from its end on. The random bytes depend on the file and the
offset. -/
def createFiles (rnd : Nat → Nat → Nat → Byte) (d : Disk) : Disk := fun i =>
  if i < cfg.numFiles then
    createBlocks (fun offset => fileFillBuffer crc host (rnd i offset) cfg.blockSize.toNat offset)
      cfg.blockSize.toNat cfg.fileSize.toNat (d i).length (d i)
  else d i

/-- `file_execute_request` in synchronous mode. The check lets `num_files` pass as a number of a file,
where there is none. -/
def fileExecuteRequest (rnd : Nat → Byte) (r : FileRequest) (d : Disk) : Except Failure Disk :=
  match checkRequest cfg r with
  | .error text => .error (.request text)
  | .ok () =>
    match r.operation with
    | .write =>
      if cfg.numFiles ≤ r.fileId then .error (.request "Failed to write file!")
      else
        let buffer := fileFillBuffer crc host rnd r.size.toNat r.pos.toNat
        .ok (Function.update d r.fileId ((d r.fileId).pwrite buffer r.pos.toNat))
    | .read =>
      let buffer := (d r.fileId).pread r.size.toNat r.pos.toNat
      if cfg.numFiles ≤ r.fileId ∨ (buffer.length : Int) ≠ r.size then
        .error (.request "Failed to read file!")
      else
        match fileValidateBuffer crc host buffer r.pos.toNat with
        | .error text => .error (.validation text)
        | .ok () => .ok d
    | .fsync =>
      if cfg.fsyncAll = false ∧ cfg.numFiles ≤ r.fileId then .error (.request "Failed to fsync file!")
      else .ok d

/-- What the thread's next request depends on besides the variables: the random numbers for its place
and for the bytes to write. -/
structure Call where
  input : RndInput
  rnd : Nat → Byte

def execCalls (maxRequests : Nat) : FileVars → Disk → List Call → Disk × Option Failure
  | _, d, [] => (d, none)
  | st, d, c :: cs =>
    match fileGetRequest cfg maxRequests c.input st with
    | none => (d, some .divisionByZero)
    | some (none, _) => (d, none)
    | some (some r, st') =>
      match fileExecuteRequest crc host cfg c.rnd r d with
      | .error e => (d, some e)
      | .ok d' => execCalls maxRequests st' d' cs

structure TestRun where
  mode : TestMode
  calls : List Call

def execRuns (maxRequests : Nat) : Disk → List TestRun → List Failure
  | _, [] => []
  | d, run :: runs =>
    let (d', failure) :=
      execCalls crc host { cfg with testMode := run.mode } maxRequests initVars d run.calls
    failure.toList ++ execRuns maxRequests d' runs

end Execution

/-! ## Blocks -/

section Blocks

variable {crc : List Byte → BitVec 32} {host : Endian}

variable (crc host) in
def ValidAt (f : TestFile) (blockSize p : Nat) : Prop :=
  p + blockSize ≤ f.length ∧ fileValidateBuffer crc host (load f.bytes p blockSize) p = .ok ()

theorem block_apart {b p q : Nat} (hp : b ∣ p) (hq : b ∣ q) (hne : p ≠ q) :
    p + b ≤ q ∨ q + b ≤ p := by
  obtain ⟨i, rfl⟩ := hp
  obtain ⟨j, rfl⟩ := hq
  have hij : i ≠ j := fun h => hne (congrArg (b * ·) h)
  rcases Nat.lt_or_gt_of_ne hij with h | h
  · exact Or.inl (Nat.mul_le_mul_left b h)
  · exact Or.inr (Nat.mul_le_mul_left b h)

theorem validAt_pwrite {f : TestFile} {b p q : Nat} (rnd : Nat → Byte)
    (hb : fileChecksumLength + fileOffsetLength ≤ b) (hp : b ∣ p) (hq : b ∣ q) (hlim : q < 2 ^ 64)
    (h : p = q ∨ ValidAt crc host f b p) :
    ValidAt crc host (f.pwrite (fileFillBuffer crc host rnd b q) q) b p := by
  have hlen := @length_fileFillBuffer crc host rnd b q hb
  by_cases hpq : p = q
  · subst hpq
    have hload := load_store_same f.bytes p (fileFillBuffer crc host rnd b p)
    rw [hlen] at hload
    refine ⟨?_, ?_⟩
    · rw [TestFile.pwrite, hlen]
      exact le_max_right _ _
    · rw [TestFile.pwrite, hload]
      exact validate_fill rnd hb hlim
  · obtain ⟨hle, hvalid⟩ := h.resolve_left hpq
    refine ⟨le_trans hle (le_max_left _ _), ?_⟩
    have hapart : Apart p b q (fileFillBuffer crc host rnd b q).length := by
      rw [hlen]
      exact block_apart hp hq hpq
    rw [TestFile.pwrite, load_store_apart f.bytes hapart]
    exact hvalid

theorem createBlocks_valid {b fileSize : Nat} (rnd : Nat → Nat → Byte)
    (hb : fileChecksumLength + fileOffsetLength ≤ b) (hlim : fileSize < 2 ^ 64) :
    ∀ (n offset : Nat) (f : TestFile), fileSize - offset ≤ n → b ∣ offset →
      (∀ p, b ∣ p → p + b ≤ offset → ValidAt crc host f b p) →
      ∀ p, b ∣ p → p + b ≤ fileSize → ValidAt crc host
        (createBlocks (fun offset => fileFillBuffer crc host (rnd offset) b offset) b fileSize offset f)
        b p := by
  have hb0 : 0 < b := lt_of_lt_of_le (by decide) hb
  intro n
  induction n with
  | zero =>
    intro offset f hn _ hvalid p hp hle
    rw [createBlocks, if_neg (by omega)]
    exact hvalid p hp (by omega)
  | succ n ih =>
    intro offset f hn hoff hvalid p hp hle
    rw [createBlocks]
    by_cases hlt : offset < fileSize
    · rw [if_pos ⟨hlt, hb0⟩]
      refine ih (offset + b) _ (by omega) (Nat.dvd_add hoff dvd_rfl) (fun q hq hqle => ?_) p hp hle
      refine validAt_pwrite (rnd offset) hb hq hoff (by omega) ?_
      by_cases hqo : q = offset
      · exact Or.inl hqo
      · refine Or.inr (hvalid q hq ?_)
        have := block_apart hq hoff hqo
        omega
    · rw [if_neg (by omega)]
      exact hvalid p hp (by omega)

end Blocks

/-! ## Settings for validation -/

structure Validating (cfg : FileConfig) : Prop where
  accepted : Accepted cfg
  ioMode : cfg.ioMode = .sync
  blockSize : fileChecksumLength + fileOffsetLength + 1 ≤ cfg.blockSize
  dvd : cfg.blockSize ∣ cfg.fileSize
  fileSize : 0 < cfg.fileSize
  -- the product is an `int`
  fits : cfg.blockSize * cfg.mergedRequests < 2 ^ 31

section Settings

variable {cfg : FileConfig}

theorem Validating.toNat_blockSize (h : Validating cfg) :
    (cfg.blockSize.toNat : Int) = cfg.blockSize ∧
      fileChecksumLength + fileOffsetLength ≤ cfg.blockSize.toNat := by
  have h1 := h.blockSize
  unfold fileChecksumLength fileOffsetLength at h1 ⊢
  omega

theorem Validating.toNat_fileSize (h : Validating cfg) :
    (cfg.fileSize.toNat : Int) = cfg.fileSize ∧ cfg.fileSize.toNat < 2 ^ 63 := by
  have h1 := h.fileSize
  have h2 := h.accepted.fileSize_lt
  omega

theorem Validating.withMode (h : Validating cfg) (mode : TestMode) :
    Validating { cfg with testMode := mode } :=
  ⟨⟨h.accepted.numFiles, h.accepted.totalSize, h.accepted.fileSize, h.accepted.blockSize,
    h.accepted.merged, h.accepted.maxRequestSize⟩, h.ioMode, h.blockSize, h.dvd, h.fileSize, h.fits⟩

theorem Validating.block_fits (h : Validating cfg) {pos : Int} (hdvd : cfg.blockSize ∣ pos)
    (hlt : pos < cfg.fileSize) : pos + cfg.blockSize ≤ cfg.fileSize := by
  have hsub : cfg.blockSize ∣ cfg.fileSize - pos := Int.dvd_sub h.dvd hdvd
  have := Int.le_of_dvd (by omega) hsub
  omega

theorem Validating.maxRequestSize (h : Validating cfg) (hm : 0 < cfg.mergedRequests) :
    cfg.maxRequestSize = cfg.blockSize * cfg.mergedRequests := by
  have hpos : 0 < cfg.blockSize * cfg.mergedRequests := mul_pos h.accepted.blockSize.1 hm
  have hfits := h.fits
  rw [h.accepted.maxRequestSize, if_pos hm]
  exact int32_eq (by omega) (by omega)

theorem Validating.seqSize_zero (h : Validating cfg) (hm : 0 < cfg.mergedRequests) :
    seqSize cfg 0 = min (cfg.blockSize * cfg.mergedRequests) cfg.fileSize := by
  have hpos : 0 < cfg.blockSize * cfg.mergedRequests := mul_pos h.accepted.blockSize.1 hm
  have hfits := h.fits
  unfold seqSize
  rw [if_pos hm, h.maxRequestSize hm, zero_add, sub_zero, int64_eq (by omega) (by omega)]
  exact (min_def _ _).symm

theorem Validating.seqSize_eq_iff (h : Validating cfg) :
    seqSize cfg 0 = cfg.blockSize ↔ cfg.mergedRequests ≤ 1 ∨ cfg.fileSize = cfg.blockSize := by
  have hb := h.accepted.blockSize.1
  have hle : cfg.blockSize ≤ cfg.fileSize := Int.le_of_dvd h.fileSize h.dvd
  have hm0 := h.accepted.merged
  rcases Int.lt_or_le cfg.mergedRequests 1 with hm | hm
  · have hz : ¬0 < cfg.mergedRequests := by omega
    unfold seqSize
    rw [if_neg hz]
    exact iff_of_true rfl (Or.inl (by omega))
  · rw [h.seqSize_zero hm]
    by_cases hone : cfg.mergedRequests = 1
    · rw [hone, mul_one, min_eq_left hle]
      exact iff_of_true rfl (Or.inl le_rfl)
    · have hlt : cfg.blockSize * 2 ≤ cfg.blockSize * cfg.mergedRequests :=
        Int.mul_le_mul_of_nonneg_left (by omega) (le_of_lt hb)
      omega

theorem Validating.seqSize_merged (h : Validating cfg) (hne : seqSize cfg 0 ≠ cfg.blockSize) :
    ∃ q : Nat, 2 ≤ q ∧ seqSize cfg 0 = cfg.blockSize * q ∧ seqSize cfg 0 ≤ cfg.fileSize := by
  have hb := h.accepted.blockSize.1
  have hm : 0 < cfg.mergedRequests := by
    by_contra hm
    exact hne (h.seqSize_eq_iff.mpr (Or.inl (by omega)))
  have hsize := h.seqSize_zero hm
  have hpos : 0 < seqSize cfg 0 := hsize ▸ lt_min (mul_pos hb hm) h.fileSize
  have hdvd : cfg.blockSize ∣ seqSize cfg 0 := by
    rw [hsize]
    rcases min_choice (cfg.blockSize * cfg.mergedRequests) cfg.fileSize with he | he <;> rw [he]
    · exact Int.dvd_mul_right _ _
    · exact h.dvd
  obtain ⟨k, hk⟩ := hdvd
  have hk0 : 0 < k := pos_of_mul_pos_right (hk ▸ hpos) (le_of_lt hb)
  have hk1 : k ≠ 1 := by
    rintro rfl
    exact hne (hk.trans (mul_one _))
  refine ⟨k.toNat, by omega, ?_, hsize ▸ min_le_right _ _⟩
  rw [hk, Int.toNat_of_nonneg (le_of_lt hk0)]

theorem Validating.seqSize_block (h : Validating cfg) (hone : seqSize cfg 0 = cfg.blockSize)
    {pos : Int} (h0 : 0 ≤ pos) (hlt : pos < cfg.fileSize) (hdvd : cfg.blockSize ∣ pos) :
    seqSize cfg pos = cfg.blockSize := by
  have hfit := h.block_fits hdvd hlt
  have hlim := h.accepted.fileSize_lt
  have hb := h.accepted.blockSize
  by_cases hm : 0 < cfg.mergedRequests
  · by_cases hsingle : cfg.mergedRequests = 1
    · unfold seqSize
      rw [if_pos hm, h.maxRequestSize hm, hsingle, mul_one, int64_eq (by omega) (by omega), if_pos hfit]
    · -- a file is one block
      have heq : cfg.fileSize = cfg.blockSize :=
        (h.seqSize_eq_iff.mp hone).resolve_left (by omega)
      have hpos : pos = 0 := by
        have := h.block_fits hdvd hlt
        omega
      rw [hpos, hone]
  · unfold seqSize
    rw [if_neg hm]

end Settings

/-! ## Requests of one block -/

section Requests

variable {crc : List Byte → BitVec 32} {host : Endian} {cfg : FileConfig} {maxRequests : Nat}

def OneBlock (cfg : FileConfig) (r : FileRequest) : Prop :=
  r.operation ≠ .fsync → r.size = cfg.blockSize ∧ 0 ≤ r.pos ∧ cfg.blockSize ∣ r.pos ∧
    r.pos + cfg.blockSize ≤ cfg.fileSize

def AtBlock (cfg : FileConfig) (pos : Int) : Prop :=
  0 ≤ pos ∧ pos < cfg.fileSize ∧ cfg.blockSize ∣ pos

theorem Validating.atBlock_zero (h : Validating cfg) : AtBlock cfg 0 :=
  ⟨le_rfl, h.fileSize, dvd_zero _⟩

theorem seqData_oneBlock (h : Validating cfg) (hone : seqSize cfg 0 = cfg.blockSize) {st : FileVars}
    (hst : AtBlock cfg st.position) :
    OneBlock cfg (seqData cfg st).1 ∧ AtBlock cfg (seqData cfg st).2.position := by
  have hrew : AtBlock cfg (rewind cfg (countRequest (seqOperation cfg) st)).position := by
    unfold rewind
    split_ifs
    · exact h.atBlock_zero
    · exact hst
  unfold seqData
  dsimp only
  generalize rewind cfg (countRequest (seqOperation cfg) st) = st₁ at hrew
  obtain ⟨h0, hlt, hdvd⟩ := hrew
  have hfit := h.block_fits hdvd hlt
  have hlim := h.accepted.fileSize_lt
  have hb := h.accepted.blockSize.1
  rw [h.seqSize_block hone h0 hlt hdvd, int64_eq (by omega) (by omega)]
  refine ⟨fun _ => ⟨rfl, h0, hdvd, hfit⟩, ?_⟩
  split_ifs with hend
  · exact h.atBlock_zero
  · exact ⟨by dsimp only; omega, by dsimp only; omega, Int.dvd_add hdvd dvd_rfl⟩

theorem rndData_oneBlock (h : Validating cfg) (i : RndInput) (st : FileVars) :
    OneBlock cfg (rndData cfg i st).1 := by
  intro _
  have hdvd : cfg.blockSize ∣ (i.tmppos - i.tmppos % cfg.blockSize : Int) :=
    Int.dvd_self_sub_emod
  have h0 := Int.emod_nonneg (i.tmppos - i.tmppos % cfg.blockSize : Int) (ne_of_gt h.fileSize)
  have hlt := Int.emod_lt_of_pos (i.tmppos - i.tmppos % cfg.blockSize : Int) h.fileSize
  have hmod : cfg.blockSize ∣ (i.tmppos - i.tmppos % cfg.blockSize : Int) % cfg.fileSize := by
    rw [Int.emod_def _ cfg.fileSize]
    exact Int.dvd_sub hdvd (Dvd.dvd.mul_right h.dvd _)
  exact ⟨rfl, h0, hmod, h.block_fits hmod hlt⟩

theorem oneBlock_fsync {r : FileRequest} (h : r.operation = .fsync) : OneBlock cfg r :=
  fun hne => absurd h hne

theorem fileGetRequest_oneBlock (h : Validating cfg) (hone : seqSize cfg 0 = cfg.blockSize)
    (i : RndInput) {st : FileVars} (hst : AtBlock cfg st.position) :
    ∃ res, fileGetRequest cfg maxRequests i st = some res ∧
      (∀ r, res.1 = some r → OneBlock cfg r) ∧ AtBlock cfg res.2.position := by
  -- the requests of each kind: the fsyncs carry no data
  have hend : ∀ sync, (∀ r, (endRequest cfg sync st).1 = some r → OneBlock cfg r) ∧
      AtBlock cfg (endRequest cfg sync st).2.position := by
    intro sync
    unfold endRequest
    split_ifs
    · exact ⟨fun r hr => oneBlock_fsync (Option.some.inj hr ▸ rfl), hst⟩
    · exact ⟨fun r hr => by simp at hr, hst⟩
  have hnext : (∀ r, (nextFsync cfg st).1 = some r → OneBlock cfg r) ∧
      AtBlock cfg (nextFsync cfg st).2.position := by
    unfold nextFsync
    refine ⟨fun r hr => oneBlock_fsync (Option.some.inj hr ▸ rfl), ?_⟩
    dsimp only
    split_ifs <;> exact hst
  have hseq : (∀ r, (fileGetSeqRequest cfg maxRequests st).1 = some r → OneBlock cfg r) ∧
      AtBlock cfg (fileGetSeqRequest cfg maxRequests st).2.position := by
    obtain ⟨hdata, hpos⟩ := seqData_oneBlock h hone hst
    unfold fileGetSeqRequest
    split_ifs
    · exact hend _
    · exact hnext
    · exact ⟨fun r hr => Option.some.inj hr ▸ hdata, hpos⟩
  have hrnd : ∃ res, fileGetRndRequest cfg maxRequests i st = some res ∧
      (∀ r, res.1 = some r → OneBlock cfg r) ∧ AtBlock cfg res.2.position := by
    unfold fileGetRndRequest
    rw [if_neg (ne_of_gt h.fileSize)]
    split_ifs
    · exact ⟨_, rfl, hend _⟩
    · exact ⟨_, rfl, hnext⟩
    · exact ⟨_, rfl, fun r hr => Option.some.inj hr ▸ rndData_oneBlock h i st, hst⟩
  unfold fileGetRequest
  split
  · exact ⟨_, rfl, hseq⟩
  · exact ⟨_, rfl, hseq⟩
  · exact ⟨_, rfl, hseq⟩
  · exact hrnd

end Requests

/-! ## Execution -/

section Valid

variable {crc : List Byte → BitVec 32} {host : Endian} {cfg : FileConfig} {maxRequests : Nat}

variable (crc host cfg) in
def Blocks (d : Disk) : Prop :=
  ∀ i, i < cfg.numFiles → ∀ p, cfg.blockSize.toNat ∣ p →
    p + cfg.blockSize.toNat ≤ cfg.fileSize.toNat → ValidAt crc host (d i) cfg.blockSize.toNat p

theorem createFiles_blocks (h : Validating cfg) (rnd : Nat → Nat → Nat → Byte) :
    Blocks crc host cfg (createFiles crc host cfg rnd fun _ => .empty) := by
  intro i hi p hp hle
  have hb := h.toNat_blockSize.2
  have hlim := h.toNat_fileSize.2
  unfold createFiles
  rw [if_pos hi]
  refine createBlocks_valid (rnd i) hb (by omega) _ 0 .empty le_rfl (dvd_zero _) ?_ p hp hle
  intro q _ hq
  unfold fileChecksumLength fileOffsetLength at hb
  omega

theorem fileExecuteRequest_valid (h : Validating cfg) (rnd : Nat → Byte) {r : FileRequest}
    {d : Disk} (hr : OneBlock cfg r) (hd : Blocks crc host cfg d) :
    (∀ d', fileExecuteRequest crc host cfg rnd r d = .ok d' → Blocks crc host cfg d') ∧
      ∀ text, fileExecuteRequest crc host cfg rnd r d ≠ .error (.validation text) := by
  obtain ⟨hbs, hb⟩ := h.toNat_blockSize
  obtain ⟨hfs, hlim⟩ := h.toNat_fileSize
  unfold fileExecuteRequest
  cases checkRequest cfg r with
  | error text => exact ⟨fun d' hd' => by simp at hd', fun text => by simp⟩
  | ok u =>
    dsimp only
    cases hop : r.operation with
    | fsync =>
      dsimp only
      split_ifs
      · exact ⟨fun d' hd' => by simp at hd', fun text => by simp⟩
      · exact ⟨fun d' hd' => Except.ok.inj hd' ▸ hd, fun text => by simp⟩
    | write =>
      obtain ⟨hsize, h0, hdvd, hfit⟩ := hr (by rw [hop]; decide)
      dsimp only
      split_ifs with hid
      · exact ⟨fun d' hd' => by simp at hd', fun text => by simp⟩
      · refine ⟨fun d' hd' => ?_, fun text => by simp⟩
        obtain rfl := Except.ok.inj hd'
        intro i hi p hp hle
        by_cases hir : i = r.fileId
        · subst hir
          rw [Function.update_self, hsize]
          -- both are multiples of the block size, so a block is written whole or not at all
          have hpos : cfg.blockSize.toNat ∣ r.pos.toNat := by
            rw [← Int.natCast_dvd_natCast, hbs, Int.toNat_of_nonneg h0]
            exact hdvd
          exact validAt_pwrite rnd hb hp hpos (by omega) (Or.inr (hd _ hi p hp hle))
        · rw [Function.update_of_ne hir]
          exact hd i hi p hp hle
    | read =>
      obtain ⟨hsize, h0, hdvd, hfit⟩ := hr (by rw [hop]; decide)
      dsimp only
      split_ifs with hid
      · exact ⟨fun d' hd' => by simp at hd', fun text => by simp⟩
      · have hpos : cfg.blockSize.toNat ∣ r.pos.toNat := by
          rw [← Int.natCast_dvd_natCast, hbs, Int.toNat_of_nonneg h0]
          exact hdvd
        -- the block that is read has been valid before
        obtain ⟨hlen, hvalid⟩ := hd r.fileId (by omega) r.pos.toNat hpos (by omega)
        have hread : (d r.fileId).pread r.size.toNat r.pos.toNat =
            load (d r.fileId).bytes r.pos.toNat cfg.blockSize.toNat := by
          rw [TestFile.pread, hsize, min_eq_left (by omega)]
        rw [hread, hvalid]
        exact ⟨fun d' hd' => Except.ok.inj hd' ▸ hd, fun text => by simp⟩

theorem execCalls_valid (h : Validating cfg) (hone : seqSize cfg 0 = cfg.blockSize) :
    ∀ (cs : List Call) (st : FileVars) (d : Disk), AtBlock cfg st.position →
      Blocks crc host cfg d →
      Blocks crc host cfg (execCalls crc host cfg maxRequests st d cs).1 ∧
        ∀ text, (execCalls crc host cfg maxRequests st d cs).2 ≠ some (.validation text) := by
  intro cs
  induction cs with
  | nil => intro st d _ hd; exact ⟨hd, fun text => by simp [execCalls]⟩
  | cons c cs ih =>
    intro st d hst hd
    obtain ⟨⟨r, st'⟩, hcall, hreq, hst'⟩ := @fileGetRequest_oneBlock cfg maxRequests h hone c.input st hst
    rw [execCalls, hcall]
    cases r with
    | none => exact ⟨hd, fun text => by simp⟩
    | some r =>
      obtain ⟨hok, herr⟩ := @fileExecuteRequest_valid crc host cfg h c.rnd r d (hreq r rfl) hd
      dsimp only
      generalize fileExecuteRequest crc host cfg c.rnd r d = res at hok herr
      cases res with
      | error e =>
        refine ⟨hd, fun text he => herr text ?_⟩
        rw [Option.some.inj he]
      | ok d' => exact ih st' d' hst' (hok d' rfl)

theorem execRuns_valid (h : Validating cfg) (hone : seqSize cfg 0 = cfg.blockSize) :
    ∀ (runs : List TestRun) (d : Disk), Blocks crc host cfg d →
      ∀ text, .validation text ∉ execRuns crc host cfg maxRequests d runs := by
  intro runs
  induction runs with
  | nil => intro _ _ text; exact List.not_mem_nil
  | cons run runs ih =>
    intro d hd text hmem
    have hmode := h.withMode run.mode
    obtain ⟨hd', hno⟩ := @execCalls_valid crc host _ maxRequests hmode hone run.calls initVars d
      hmode.atBlock_zero hd
    rw [execRuns] at hmem
    rcases List.mem_append.mp hmem with hmem | hmem
    · exact hno text (Option.mem_toList.mp hmem)
    · exact ih _ hd' text hmem

/-! ## Merged requests -/

theorem storedOffset_load (mem : Mem) {a n b : Nat}
    (hb : fileChecksumLength + fileOffsetLength ≤ b) :
    storedOffset host (load mem a (n + b)) = storedOffset host (load mem (a + n) b) := by
  unfold fileChecksumLength fileOffsetLength at hb
  unfold storedOffset fileChecksumLength fileOffsetLength
  simp only [length_load, drop_load]
  congr 3 <;> omega

theorem read_merged_invalid (h : Validating cfg) {d : Disk} (hd : Blocks crc host cfg d) {q : Nat}
    (hq : 2 ≤ q) (hle : cfg.blockSize * q ≤ cfg.fileSize) :
    cfg.blockSize.toNat * q ≤ (d 0).length ∧
      fileValidateBuffer crc host (load (d 0).bytes 0 (cfg.blockSize.toNat * q)) 0 ≠ .ok () := by
  obtain ⟨hbs, hb⟩ := h.toNat_blockSize
  obtain ⟨hfs, -⟩ := h.toNat_fileSize
  obtain ⟨k, rfl⟩ : ∃ k, q = k + 1 := ⟨q - 1, by omega⟩
  have hle' : cfg.blockSize.toNat * (k + 1) ≤ cfg.fileSize.toNat := by
    rw [← hbs, ← hfs] at hle
    exact_mod_cast hle
  rw [Nat.mul_succ] at hle' ⊢
  obtain ⟨hlen, hlast⟩ :=
    hd 0 h.accepted.numFiles (cfg.blockSize.toNat * k) (Nat.dvd_mul_right _ _) hle'
  refine ⟨hlen, fun hok => ?_⟩
  -- the position that is found is the one of the last block
  have h1 := ((fileValidateBuffer_ok_iff _ _).mp hok).2
  have h2 := ((fileValidateBuffer_ok_iff _ _).mp hlast).2
  rw [storedOffset_load _ hb, Nat.zero_add, ← h2] at h1
  have hpos : 0 < cfg.blockSize.toNat * k :=
    Nat.mul_pos (lt_of_lt_of_le (by decide) hb) (by omega)
  omega

theorem first_read (i : RndInput) :
    ∃ st', fileGetRequest { cfg with testMode := .read } maxRequests i initVars =
      some (some ⟨.read, 0, 0, seqSize cfg 0⟩, st') := by
  have hend : ¬(0 < maxRequests ∧ maxRequests ≤ initVars.reqPerformed) := by
    rintro ⟨h1, h2⟩
    exact absurd h1 (Nat.not_lt.mpr h2)
  have hsync : ¬(cfg.fsyncFreq ≠ 0 ∧ seqOperation { cfg with testMode := .read } = .write ∧
      initVars.isDirty = true ∧ initVars.reqPerformed % cfg.fsyncFreq.toNat = 0) :=
    fun hs => Bool.noConfusion hs.2.2.1
  show ∃ st', some (fileGetSeqRequest { cfg with testMode := .read } maxRequests initVars) = _
  unfold fileGetSeqRequest
  rw [if_neg hend, if_neg hsync]
  unfold seqData rewind
  dsimp only
  split_ifs <;> exact ⟨_, rfl⟩

theorem fileExecuteRequest_invalid (h : Validating cfg) (hne : seqSize cfg 0 ≠ cfg.blockSize)
    {d : Disk} (hd : Blocks crc host cfg d) (rnd : Nat → Byte) :
    ∃ text, fileExecuteRequest crc host cfg rnd ⟨.read, 0, 0, seqSize cfg 0⟩ d =
      .error (.validation text) := by
  have hbs := h.toNat_blockSize.1
  have hlim := h.accepted.fileSize_lt
  have hnum := h.accepted.numFiles
  obtain ⟨q, hq, hsize, hle⟩ := h.seqSize_merged hne
  obtain ⟨hlen, hinvalid⟩ := read_merged_invalid h hd hq (hsize ▸ hle)
  have hcast : ((cfg.blockSize.toNat * q : Nat) : Int) = seqSize cfg 0 := by
    rw [hsize, Nat.cast_mul, hbs]
  have hnat : (seqSize cfg 0).toNat = cfg.blockSize.toNat * q := by omega
  have hcheck : checkRequest cfg ⟨.read, 0, 0, seqSize cfg 0⟩ = .ok () := by
    unfold checkRequest
    dsimp only
    rw [zero_add, int64_eq (by omega) (by omega), if_neg (by omega), if_neg (by omega)]
    rfl
  have hread : (d 0).pread (seqSize cfg 0).toNat (0 : Int).toNat =
      load (d 0).bytes 0 (cfg.blockSize.toNat * q) := by
    rw [TestFile.pread, hnat]
    exact congrArg (load (d 0).bytes 0) (min_eq_left hlen)
  unfold fileExecuteRequest
  rw [hcheck]
  dsimp only
  rw [hread, length_load, if_neg (by omega)]
  cases hval : fileValidateBuffer crc host (load (d 0).bytes 0 (cfg.blockSize.toNat * q)) 0 with
  | ok u => exact absurd hval hinvalid
  | error text =>
    refine ⟨text, ?_⟩
    rw [show (0 : Int).toNat = 0 by rfl, hval]

theorem execRuns_invalid (h : Validating cfg) (hne : seqSize cfg 0 ≠ cfg.blockSize) {d : Disk}
    (hd : Blocks crc host cfg d) (c : Call) :
    ∃ text, .validation text ∈ execRuns crc host cfg maxRequests d [⟨.read, [c]⟩] := by
  obtain ⟨text, hexec⟩ := fileExecuteRequest_invalid (h.withMode .read) hne hd c.rnd
  obtain ⟨st', hfirst⟩ := @first_read cfg maxRequests c.input
  refine ⟨text, ?_⟩
  rw [execRuns, execCalls, hfirst]
  dsimp only
  have hexec' : fileExecuteRequest crc host { cfg with testMode := .read } c.rnd
      ⟨.read, 0, 0, seqSize cfg 0⟩ d = .error (.validation text) := hexec
  rw [hexec']
  exact List.mem_cons_self

end Valid

/-! ## Runs -/

def validatedModes : List TestMode := [.rewrite, .read, .rndRead, .rndWrite, .rndRw]

/-- With settings that `parse_arguments` accepts, the data that `create_files` and the runs of the
test have written is accepted in all runs if and only if no request is merged, or a file is one
block. A checksum is written for each block, but checked for each request. -/
theorem runs_valid_iff (crc : List Byte → BitVec 32) (host : Endian) {p : Platform} {run : Bool}
    {a : FileArgs} {cfg : FileConfig} (maxRequests : Nat) (rnd : Nat → Nat → Nat → Byte)
    (h : parseArguments p run a = .ok cfg) (hsync : cfg.ioMode = .sync)
    (hblock : fileChecksumLength + fileOffsetLength + 1 ≤ cfg.blockSize)
    (hdvd : cfg.blockSize ∣ cfg.fileSize) (hsize : 0 < cfg.fileSize)
    (hfits : cfg.blockSize * cfg.mergedRequests < 2 ^ 31) :
    (∀ runs : List TestRun, (∀ r ∈ runs, r.mode ∈ validatedModes) →
      ∀ text, .validation text ∉
        execRuns crc host cfg maxRequests (createFiles crc host cfg rnd fun _ => .empty) runs) ↔
    cfg.mergedRequests ≤ 1 ∨ cfg.fileSize = cfg.blockSize := by
  have hv : Validating cfg := ⟨accepted_of_parse h, hsync, hblock, hdvd, hsize, hfits⟩
  have hcreated := @createFiles_blocks crc host cfg hv rnd
  rw [← hv.seqSize_eq_iff]
  refine ⟨fun hall => ?_, fun hone runs _ => execRuns_valid hv hone runs _ hcreated⟩
  by_contra hne
  obtain ⟨text, hmem⟩ := @execRuns_invalid crc host cfg maxRequests hv hne _ hcreated
    ⟨⟨false, 0⟩, fun _ => 0⟩
  refine hall _ (fun r hr => ?_) text hmem
  obtain rfl := List.mem_singleton.mp hr
  decide

/-- Two files of two blocks, with requests for single blocks. -/
theorem runs_valid_single :
    parseArguments ⟨true, true, true⟩ true (smallArgs 2 64) = .ok (smallConfig 2 64 32) ∧
    ∀ runs : List TestRun, (∀ r ∈ runs, r.mode ∈ validatedModes) → ∀ text, .validation text ∉
      execRuns crc32 .little (smallConfig 2 64 32) 0
        (createFiles crc32 .little (smallConfig 2 64 32) (fun _ _ _ => 0) fun _ => .empty) runs :=
  ⟨parse_smallArgs, (runs_valid_iff crc32 .little 0 _ parse_smallArgs rfl (by decide) (by decide)
    (by decide) (by decide)).mpr (Or.inl (by decide))⟩

def mergedArgs : FileArgs := { smallArgs 1 32 with mergedRequests := 2 }

def mergedConfig : FileConfig :=
  { smallConfig 1 32 32 with mergedRequests := 2, maxRequestSize := 32 }

/-- A file of two blocks that is read with one request. -/
theorem runs_invalid_merged :
    parseArguments ⟨true, true, true⟩ true mergedArgs = .ok mergedConfig ∧
    (fileGetRequest mergedConfig 0 ⟨false, 0⟩ initVars).map Prod.fst = some (some ⟨.read, 0, 0, 32⟩) ∧
    execRuns crc32 .little mergedConfig 0
      (createFiles crc32 .little mergedConfig (fun _ _ _ => 0) fun _ => .empty)
      [⟨.read, [⟨⟨false, 0⟩, fun _ => 0⟩]⟩] = [.validation "Checksum mismatch in block: "] := by
  decide +kernel

end MysqlBench.Sysbench
