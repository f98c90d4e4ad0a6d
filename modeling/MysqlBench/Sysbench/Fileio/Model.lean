import Mathlib.Algebra.Field.Rat
import Mathlib.Algebra.Order.Ring.Rat
import Mathlib.Data.Int.Basic

/-!
# The fileio test of sysbench (`sb_fileio.c`)

The settings and their check, and the two functions that hand out requests: one after the other
through all files, or at random. Threads take requests in a critical section that is the whole
function, so that an interleaving is a sequence of calls. Sizes and positions are signed numbers of 64
bits, the block size and the number of merged requests are of 32 bits; arithmetic on them wraps.
-/

namespace MysqlBench.Sysbench

def int32 (x : Int) : Int := x.bmod (2 ^ 32)

def int64 (x : Int) : Int := x.bmod (2 ^ 64)

theorem int32_eq {x : Int} (hlo : -2 ^ 31 ≤ x) (hhi : x < 2 ^ 31) : int32 x = x :=
  Int.bmod_eq_of_le (by omega) (by omega)

theorem int32_mod (n : Nat) : int32 (n % 2 ^ 32 : Nat) = int32 n := by
  unfold int32
  rw [Int.natCast_emod]
  exact Int.emod_bmod ..

theorem int64_eq {x : Int} (hlo : -2 ^ 63 ≤ x) (hhi : x < 2 ^ 63) : int64 x = x :=
  Int.bmod_eq_of_le (by omega) (by omega)

theorem int64_add_int64 (x y : Int) : int64 (int64 x + y) = int64 (x + y) := Int.bmod_add_bmod

theorem int64_le {x : Int} (h : 0 ≤ x) : int64 x ≤ x := by
  unfold int64
  rw [Int.bmod_def]
  split <;> omega

theorem int64_overflow {x : Int} (hlo : 2 ^ 63 ≤ x) (hhi : x < 2 ^ 64) : int64 x = x - 2 ^ 64 := by
  unfold int64
  rw [Int.bmod_def, Int.emod_eq_of_lt (by omega) (by omega), if_neg (by omega)]
  rfl

theorem int32_bounds (x : Int) : -2 ^ 31 ≤ int32 x ∧ int32 x < 2 ^ 31 := by
  have h1 := Int.le_bmod (x := x) (m := 2 ^ 32) (by decide)
  have h2 := Int.bmod_lt (x := x) (m := 2 ^ 32) (by decide)
  unfold int32
  omega

theorem int64_bounds (x : Int) : -2 ^ 63 ≤ int64 x ∧ int64 x < 2 ^ 63 := by
  have h1 := Int.le_bmod (x := x) (m := 2 ^ 64) (by decide)
  have h2 := Int.bmod_lt (x := x) (m := 2 ^ 64) (by decide)
  unfold int64
  omega

/-! ## Settings -/

inductive TestMode
  | write | rewrite | read | rndRead | rndWrite | rndRw | mixed
deriving Repr, DecidableEq

inductive IoMode
  | sync | async | mmap
deriving Repr, DecidableEq

inductive FileFlags
  | normal | sync | dsync | directio
deriving Repr, DecidableEq

inductive FsyncMode
  | all | data
deriving Repr, DecidableEq

structure Platform where
  libaio : Bool
  mmap : Bool
  fdatasync : Bool

/-- The values of the options. `none` is an option that is not set; `rwRatioText` is the ratio as it
is printed. -/
structure FileArgs where
  fileNum : Int
  totalSize : Nat
  testMode : Option String
  ioMode : Option String
  mergedRequests : Int
  blockSize : Nat
  extraFlags : Option String
  fsyncFreq : Int
  fsyncEnd : Bool
  fsyncAll : Bool
  fsyncMode : String
  rwRatio : ℚ
  rwRatioText : String

structure FileConfig where
  numFiles : Nat
  totalSize : Int
  fileSize : Int
  testMode : TestMode
  ioMode : IoMode
  mergedRequests : Int
  blockSize : Int
  maxRequestSize : Int
  extraFlags : FileFlags
  fsyncFreq : Int
  fsyncEnd : Bool
  fsyncAll : Bool
  fsyncMode : FsyncMode
  rwRatio : ℚ
deriving DecidableEq

def parseTestMode (run : Bool) (mode : Option String) : Except String TestMode :=
  if run then
    match mode with
    | none => .error "Missing required argument: --file-test-mode"
    | some "seqwr" => .ok .write
    | some "seqrewr" => .ok .rewrite
    | some "seqrd" => .ok .read
    | some "rndrd" => .ok .rndRead
    | some "rndwr" => .ok .rndWrite
    | some "rndrw" => .ok .rndRw
    | some mode => .error ("Invalid IO operations mode: " ++ mode ++ ".")
  else .ok .read

def parseIoMode (p : Platform) (mode : Option String) : Except String IoMode :=
  match mode.getD "sync" with
  | "sync" => .ok .sync
  | "async" =>
    if p.libaio then .ok .async
    else .error "asynchronous I/O mode is unsupported on this platform."
  | "mmap" => if p.mmap then .ok .mmap else .error "mmap'ed I/O mode is unsupported on this platform."
  | mode => .error ("unknown I/O mode: " ++ mode)

def parseExtraFlags (mode : Option String) : Except String FileFlags :=
  match mode.getD "" with
  | "" => .ok .normal
  | "sync" => .ok .sync
  | "dsync" => .ok .dsync
  | "direct" => .ok .directio
  | mode => .error ("Invalid value for file-extra-flags: " ++ mode)

def parseFsyncMode (p : Platform) (mode : String) : Except String FsyncMode :=
  match mode with
  | "fsync" => .ok .all
  | "fdatasync" =>
    if p.fdatasync then .ok .data else .error "fdatasync() is unavailable on this platform"
  | mode => .error ("Invalid fsync mode: " ++ mode ++ ".")

/-- `parse_arguments`. The number of files is unsigned, so that only zero is refused. -/
def parseArguments (p : Platform) (run : Bool) (a : FileArgs) : Except String FileConfig := do
  let numFiles : Nat := (a.fileNum % 2 ^ 32).toNat
  if numFiles = 0 then
    .error ("Invalid value for file-num: " ++ toString (int32 numFiles))
  let totalSize := int64 a.totalSize
  if totalSize ≤ 0 then
    .error ("Invalid value for file-total-size: " ++ toString totalSize)
  let testMode ← parseTestMode run a.testMode
  let ioMode ← parseIoMode p a.ioMode
  let mergedRequests := int32 a.mergedRequests
  if mergedRequests < 0 then
    .error ("Invalid value for file-merged-requests: " ++ toString mergedRequests ++ ".")
  let blockSize := int32 a.blockSize
  if blockSize ≤ 0 then
    .error ("Invalid value for file-block-size: " ++ toString blockSize ++ ".")
  let maxRequestSize := if 0 < mergedRequests then int32 (blockSize * mergedRequests) else blockSize
  let extraFlags ← parseExtraFlags a.extraFlags
  let fsyncFreq := int32 a.fsyncFreq
  if fsyncFreq < 0 then
    .error ("Invalid value for file-fsync-freq: " ++ toString fsyncFreq ++ ".")
  let fsyncMode ← parseFsyncMode p a.fsyncMode
  if a.rwRatio < 0 then
    .error ("Invalid value file file-rw-ratio: " ++ a.rwRatioText ++ ".")
  .ok
    { numFiles, totalSize, fileSize := totalSize / numFiles, testMode, ioMode, mergedRequests,
      blockSize, maxRequestSize, extraFlags, fsyncMode, rwRatio := a.rwRatio
      -- `file-fsync-all` overrides the other two
      fsyncFreq := if a.fsyncAll then 0 else fsyncFreq
      fsyncEnd := !a.fsyncAll && a.fsyncEnd
      fsyncAll := a.fsyncAll }

/-! ## Requests -/

inductive FileOp
  | read | write | fsync
deriving Repr, DecidableEq

structure FileRequest where
  operation : FileOp
  fileId : Nat
  pos : Int
  size : Int
deriving Repr, DecidableEq

abbrev SbRequest := Option FileRequest

def fsyncRequest (fileId : Nat) : FileRequest := ⟨.fsync, fileId, 0, 0⟩

structure FileVars where
  position : Int
  currentFile : Nat
  fsyncedFile : Nat
  fsyncedFile2 : Nat
  reqPerformed : Nat
  isDirty : Bool
deriving Repr, DecidableEq

def initVars : FileVars := ⟨0, 0, 0, 0, 0, false⟩

def nextFsync (cfg : FileConfig) (st : FileVars) : SbRequest × FileVars :=
  (some (fsyncRequest st.fsyncedFile),
    if st.fsyncedFile + 1 = cfg.numFiles then { st with fsyncedFile := 0, isDirty := false }
    else { st with fsyncedFile := st.fsyncedFile + 1 })

def endRequest (cfg : FileConfig) (sync : Bool) (st : FileVars) : SbRequest × FileVars :=
  if cfg.fsyncEnd && sync && st.fsyncedFile2 < cfg.numFiles then
    (some (fsyncRequest st.fsyncedFile2), { st with fsyncedFile2 := st.fsyncedFile2 + 1 })
  else (none, st)

def countRequest (op : FileOp) (st : FileVars) : FileVars :=
  { st with reqPerformed := (st.reqPerformed + 1) % 2 ^ 32, isDirty := st.isDirty || op == .write }

def rewind (cfg : FileConfig) (st : FileVars) : FileVars :=
  if st.currentFile = cfg.numFiles then { st with position := 0, currentFile := 0 } else st

def seqSize (cfg : FileConfig) (position : Int) : Int :=
  if 0 < cfg.mergedRequests then
    if int64 (position + cfg.maxRequestSize) ≤ cfg.fileSize then cfg.maxRequestSize
    else cfg.fileSize - position
  else cfg.blockSize

def seqOperation (cfg : FileConfig) : FileOp :=
  if cfg.testMode = .write ∨ cfg.testMode = .rewrite then .write else .read

def seqData (cfg : FileConfig) (st : FileVars) : FileRequest × FileVars :=
  let op := seqOperation cfg
  let st := rewind cfg (countRequest op st)
  let size := seqSize cfg st.position
  let position := int64 (st.position + size)
  (⟨op, st.currentFile, st.position, size⟩,
    if position = cfg.fileSize then { st with currentFile := st.currentFile + 1, position := 0 }
    else { st with position := position })

def fileGetSeqRequest (cfg : FileConfig) (maxRequests : Nat) (st : FileVars) :
    SbRequest × FileVars :=
  if 0 < maxRequests ∧ maxRequests ≤ st.reqPerformed then
    endRequest cfg (seqOperation cfg == .write) st
  else if cfg.fsyncFreq ≠ 0 ∧ seqOperation cfg = .write ∧ st.isDirty = true ∧
      st.reqPerformed % cfg.fsyncFreq.toNat = 0 then
    nextFsync cfg st
  else
    let (r, st) := seqData cfg st
    (some r, st)

/-- What a random request depends on besides the variables: whether the reads so far are too few for
`file_rw_ratio`, and the random number scaled to `total_size`. -/
structure RndInput where
  belowRatio : Bool
  tmppos : Nat

def rndOperation (cfg : FileConfig) (i : RndInput) : FileOp :=
  match cfg.testMode with
  | .rndWrite => .write
  | .rndRw => if i.belowRatio then .read else .write
  | _ => .read

/-- The next random request for data, once the position has been divided by the size of a file. The
number of the file is cut to 32 bits. -/
def rndData (cfg : FileConfig) (i : RndInput) (st : FileVars) : FileRequest × FileVars :=
  let op := rndOperation cfg i
  let tmppos : Int := i.tmppos - i.tmppos % cfg.blockSize
  (⟨op, (tmppos / cfg.fileSize).toNat % 2 ^ 32, tmppos % cfg.fileSize, cfg.blockSize⟩,
    countRequest op st)

/-- `file_get_rnd_request`. A total size below the number of files gives files of no bytes, and then the
division by `file_size` ends the process: `none`. -/
def fileGetRndRequest (cfg : FileConfig) (maxRequests : Nat) (i : RndInput) (st : FileVars) :
    Option (SbRequest × FileVars) :=
  if 0 < maxRequests ∧ maxRequests ≤ st.reqPerformed then
    some (endRequest cfg
      (cfg.testMode == .rndWrite || cfg.testMode == .rndRw || cfg.testMode == .mixed) st)
  else if cfg.fsyncFreq ≠ 0 ∧ st.isDirty = true ∧ st.reqPerformed % cfg.fsyncFreq.toNat = 0 then
    some (nextFsync cfg st)
  else if cfg.fileSize = 0 then none
  else
    let (r, st) := rndData cfg i st
    some (some r, st)

def fileGetRequest (cfg : FileConfig) (maxRequests : Nat) (i : RndInput) (st : FileVars) :
    Option (SbRequest × FileVars) :=
  match cfg.testMode with
  | .write | .rewrite | .read => some (fileGetSeqRequest cfg maxRequests st)
  | _ => fileGetRndRequest cfg maxRequests i st

def checkRequest (cfg : FileConfig) (r : FileRequest) : Except String Unit := do
  if cfg.numFiles < r.fileId then
    .error ("Incorrect file id in request: " ++ toString r.fileId)
  if cfg.fileSize < int64 (r.pos + r.size) then
    .error "Too large position discovered in request!"

end MysqlBench.Sysbench
