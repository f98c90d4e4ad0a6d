import MysqlBench.Lib.Stdio
import MysqlBench.Fio.Ddir
import Mathlib.Logic.Function.Basic

/-!
# `iolog.c` — writing an I/O log and reading it back

`log_file` and `log_io_u` write one line per event, with the names of the actions taken from two
tables. `read_iolog2` reads the lines with `fgets` and `sscanf` and queues an `io_piece` for each,
except for an `add` line, which adds the file to the job. A job that writes no log (no
`write_iolog`, or its file not open yet) writes no lines; that case is left out.
-/

namespace MysqlBench.Fio

open MysqlBench.Lib

/-! ## Events -/

structure FileName where
  chars : List Char
  nonempty : chars ≠ []
  length_le : chars.length ≤ 256
  clean : ∀ c ∈ chars, isSpace c = false ∧ c ≠ '\x00'

inductive FileLogAct
  | add
  | open
  | close
deriving Repr, DecidableEq

def FileLogAct.value : FileLogAct → Nat
  | .add => 0
  | .open => 1
  | .close => 2

def Ddir.index : Ddir → Option Nat
  | .read => some 0
  | .write => some 1
  | .trim => some 2
  | .sync => some 3
  | .datasync => some 4
  | .syncFileRange => some 5
  | .wait => some 6
  | .inval => none

structure LogIoU where
  file : FileName
  ddir : Ddir
  offset : Nat
  buflen : Nat
  /-- one of the six directions that are queued to an engine -/
  logged : ddir ≠ .wait ∧ ddir ≠ .inval
  offset_lt : offset < 2 ^ 64
  buflen_lt : buflen < 2 ^ 32

inductive LogEvent
  | file (act : FileLogAct) (f : FileName)
  | io (u : LogIoU)

/-! ## Writing -/

def ioActs : List String :=
  ["read", "write", "sync", "datasync", "sync_file_range", "wait", "trim"]

def fileActs : List String := ["add", "open", "close"]

def ioAct (d : Ddir) : List Char := ((d.index.bind (ioActs[·]?)).getD "").toList

def fileAct (a : FileLogAct) : List Char := (fileActs.getD a.value "").toList

def logIoU (io : LogIoU) : List Char :=
  io.file.chars ++ ' ' :: (ioAct io.ddir ++
    ' ' :: (Nat.toDigits 10 io.offset ++ ' ' :: Nat.toDigits 10 io.buflen))

def logFile (f : FileName) (what : FileLogAct) : List Char := f.chars ++ ' ' :: fileAct what

def LogEvent.line : LogEvent → List Char
  | .file act f => logFile f act
  | .io u => logIoU u

def writeLog : List LogEvent → List Char
  | [] => []
  | ev :: evs => ev.line ++ '\n' :: writeLog evs

/-! ## Reading -/

structure ReplayPiece where
  ddir : Ddir
  offset : Nat
  len : Nat
  fileno : Option Nat
  /-- a union with `file_action` -/
  delay : Nat
deriving Repr, DecidableEq

structure Replay where
  /-- the names of `td->files` -/
  files : List (List Char)
  /-- `td->io_log_list` -/
  pieces : List ReplayPiece
  totalIoSize : Nat
  /-- `td->o.size` -/
  size : Nat
  /-- `td->o.max_bs`; the array ends at `DDIR_TRIM`, so that the index of a sync reaches its
  neighbours in the options -/
  maxBs : Ddir → Nat
  reads : Nat
  writes : Nat
  waits : Nat
  fileno : Option Nat
  fileAction : Nat
  offset : Nat
  bytes : Nat

structure Scanned where
  r : Nat
  fname : List Char
  act : List Char
  offset : Nat
  bytes : Nat
deriving Repr, DecidableEq

def scanLine (p : List Char) (offset bytes : Nat) : Scanned :=
  match scanWord 256 p with
  | none => ⟨0, [], [], offset, bytes⟩
  | some (fname, p) =>
      match scanWord 256 p with
      | none => ⟨1, fname, [], offset, bytes⟩
      | some (act, p) =>
          match scanUnsigned p with
          | none => ⟨2, fname, act, offset, bytes⟩
          | some (offset, p) =>
              match scanUnsigned p with
              | none => ⟨3, fname, act, offset, bytes⟩
              | some (bytes, _) => ⟨4, fname, act, offset, bytes % 2 ^ 32⟩

def readDdir (act : List Char) : Option Ddir :=
  if act = "wait".toList then some .wait
  else if act = "read".toList then some .read
  else if act = "write".toList then some .write
  else if act = "sync".toList then some .sync
  else if act = "datasync".toList then some .datasync
  else if act = "trim".toList then some .trim
  else none

def getFileno (files : List (List Char)) (fname : List Char) : Option Nat := files.idxOf? fname

/-- The name under which `add_file` stores a file; `dir` is the name that `set_name_idx` takes from
the option `directory`. -/
def storedName (dir : Option (List Char)) (fname : List Char) : List Char :=
  match dir with
  | some d => d ++ '/' :: fname
  | none => fname

def addFile (dir : Option (List Char)) (st : Replay) (fname : List Char) : Replay :=
  { st with files := st.files ++ [storedName dir fname], fileno := some st.files.length }

def queueIoPiece (st : Replay) (ipo : ReplayPiece) : Replay :=
  { st with pieces := st.pieces ++ [ipo], totalIoSize := (st.totalIoSize + ipo.len) % 2 ^ 64 }

def notePiece (st : Replay) (rw : Ddir) : Replay :=
  if rw = .wait then queueIoPiece st ⟨rw, 0, 0, some 0, st.offset⟩
  else
    let st := { st with
      maxBs := if rw ≠ .inval ∧ st.maxBs rw < st.bytes then Function.update st.maxBs rw st.bytes
        else st.maxBs
      size := (st.size + st.bytes) % 2 ^ 64 }
    queueIoPiece st ⟨rw, st.offset, st.bytes, st.fileno, st.fileAction⟩

def filterPiece (readOnly : Bool) (st : Replay) (rw : Ddir) : Replay :=
  match rw with
  | .read => notePiece { st with reads := st.reads + 1 } rw
  | .write => if readOnly then st else notePiece { st with writes := st.writes + 1 } rw
  | .wait => notePiece { st with waits := st.waits + 1 } rw
  | .inval => notePiece st rw
  | rw => if ddirSync rw then notePiece st rw else st

def iologLine (dir : Option (List Char)) (readOnly : Bool) (st : Replay) (line : List Char) :
    Replay :=
  let s := scanLine (cString line) st.offset st.bytes
  let st := { st with offset := s.offset, bytes := s.bytes }
  if s.r = 4 then
    match readDdir s.act with
    | none => st
    | some rw => filterPiece readOnly { st with fileno := getFileno st.files s.fname } rw
  else if s.r = 2 then
    if s.act = "add".toList then { addFile dir st s.fname with fileAction := FileLogAct.add.value }
    else if s.act = "open".toList then
      filterPiece readOnly { st with
        fileno := getFileno st.files s.fname, fileAction := FileLogAct.open.value } .inval
    else if s.act = "close".toList then
      filterPiece readOnly { st with
        fileno := getFileno st.files s.fname, fileAction := FileLogAct.close.value } .inval
    else st
  else st

/-- The job when `read_iolog2` starts: `free_release_files` drops its files. The last two arguments
are what the stack holds in `offset` and `bytes`. -/
def Replay.start (totalIoSize size : Nat) (maxBs : Ddir → Nat) (offset bytes : Nat) : Replay :=
  ⟨[], [], totalIoSize, size, maxBs, 0, 0, 0, some 0, 0, offset, bytes⟩

inductive ReplayDir
  | read
  | write
  | rw
deriving Repr, DecidableEq

/-- `read_iolog2`: the job after the loop, and the direction of the job unless it returns 1. -/
def readIolog2 (dir : Option (List Char)) (readOnly : Bool) (st : Replay) (f : List Char) :
    Replay × Option ReplayDir :=
  let st := (fgetsLines 4096 f).foldl (iologLine dir readOnly) st
  let st := if readOnly then { st with writes := 0 } else st
  let ret :=
    if st.reads = 0 ∧ st.writes = 0 ∧ st.waits = 0 then none
    else if st.reads ≠ 0 ∧ st.writes = 0 then some .read
    else if st.reads = 0 ∧ st.writes ≠ 0 then some .write
    else some .rw
  (st, ret)

end MysqlBench.Fio
