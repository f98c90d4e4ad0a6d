import MysqlBench.Lib.SqlText
import MysqlBench.Lib.Stdio
import MysqlBench.Sysbench.Fileio.Model

/-!
# Emulated prepared statements (`drv_mysql.c`, `db_driver.c`)

For a server without prepared statements, `mysql_drv_execute` builds the text of the query: it copies
the text of the statement and writes a bound value wherever it has a question mark. The buffer grows by
doubling; a value that does not fit is written again after that. The lengths are numbers of 32 bits, and
the room left is passed to `db_print_value` as an `int`.
-/

namespace MysqlBench.Sysbench

open Lib

/-! ## Bound values -/

abbrev CText := { s : List Char // '\x00' ∉ s }

structure DbTime where
  year : BitVec 32
  month : BitVec 32
  day : BitVec 32
  hour : BitVec 32
  minute : BitVec 32
  second : BitVec 32

/-- What the buffer of a bound value holds, by its type. Of a floating-point number, the text that `%f`
makes of it. -/
inductive DbValue
  | none
  | tinyint (x : BitVec 8)
  | smallint (x : BitVec 16)
  | int (x : BitVec 32)
  | bigint (x : BitVec 64)
  | float (printed : List Char)
  | double (printed : List Char)
  | time (tm : DbTime)
  | date (tm : DbTime)
  | datetime (tm : DbTime)
  | timestamp (tm : DbTime)
  | char (s : CText)
  | varchar (s : CText)

structure DbBind where
  value : DbValue
  isNull : Bool

def printInt (x : Int) : List Char :=
  if x < 0 then '-' :: Nat.toDigits 10 x.natAbs else Nat.toDigits 10 x.natAbs

def printQuoted (s : List Char) : List Char := '\x27' :: (s ++ ['\x27'])

def printDate (tm : DbTime) : List Char :=
  printInt tm.year.toInt ++ '-' :: (printInt tm.month.toInt ++ '-' :: printInt tm.day.toInt)

def printTime (tm : DbTime) : List Char :=
  printInt tm.hour.toInt ++ ':' :: (printInt tm.minute.toInt ++ ':' :: printInt tm.second.toInt)

def DbBind.printed (var : DbBind) : Option (List Char) :=
  if var.isNull then some "NULL".toList
  else
    match var.value with
    | .none => Option.none
    | .tinyint x => some (printInt x.toInt)
    | .smallint x => some (printInt x.toInt)
    | .int x => some (printInt x.toInt)
    | .bigint x => some (printInt x.toInt)
    | .float printed | .double printed => some printed
    | .char s | .varchar s => some (printQuoted s.val)
    | .date tm => some (printQuoted (printDate tm))
    | .time tm => some (printQuoted (printTime tm))
    | .datetime tm | .timestamp tm => some (printQuoted (printDate tm ++ ' ' :: printTime tm))

def snprintf (size : Nat) (text : List Char) : Int × List Char :=
  (if text.length < 2 ^ 31 then text.length else -1,
    if size = 0 then [] else text.take (size - 1) ++ ['\x00'])

def sizeOfInt (n : Int) : Nat := (n % 2 ^ 64).toNat

def dbPrintValue (var : DbBind) (buflen : Int) : Int × List Char :=
  match var.printed with
  | none => (if 0 < buflen then 0 else -1, [])
  | some text =>
    let (n, written) := snprintf (sizeOfInt buflen) text
    (if n < buflen then n else -1, written)

/-! ## The loop -/

/-- The variables of `mysql_drv_execute`. `rest` is the text of the statement from `i` on, and `buf` is
what has been written to the buffer. `inBounds` says whether all of that was within `buflen`. -/
structure ExecState where
  rest : List Char
  j : Nat
  buflen : Nat
  vcnt : Nat
  needRealloc : Bool
  buf : List Char
  inBounds : Bool

/-- How the function ends: it sends a query, it has got no memory, or it reads a value that was not
bound. -/
inductive ExecEnd
  | sent (query : List Char)
  | failed
  | unbound
deriving Repr, DecidableEq

structure ExecResult where
  how : ExecEnd
  inBounds : Bool
deriving Repr, DecidableEq

def writeAt (buf : List Char) (pos : Nat) (cs : List Char) : List Char :=
  buf.take pos ++ (cs ++ buf.drop (pos + cs.length))

def ExecState.write (st : ExecState) (cs : List Char) : ExecState :=
  { st with
    buf := writeAt st.buf st.j cs
    inBounds := st.inBounds && decide (st.j + cs.length ≤ st.buflen) }

/-- The reallocation at `again`. There is memory for every size but zero, for which `realloc` returns a
null pointer. -/
def ExecState.prepare (st : ExecState) : Option ExecState :=
  if st.buflen ≤ st.j + 1 ∨ st.needRealloc = true then
    let buflen := if 0 < st.buflen then st.buflen * 2 % 2 ^ 32 else 256
    if buflen = 0 then none else some { st with buflen := buflen, needRealloc := false }
  else some st

def ExecState.put (bound : List DbBind) (st : ExecState) (c : Char) (rest : List Char) :
    ExecState ⊕ ExecResult :=
  if c ≠ '?' then .inl { st.write [c] with j := st.j + 1, rest := rest }
  else
    match bound[st.vcnt]? with
    | none => .inr ⟨.unbound, st.inBounds⟩
    | some var =>
      let (n, written) := dbPrintValue var (int32 (st.buflen - st.j))
      if n < 0 then .inl { st.write written with needRealloc := true }
      else .inl { st.write written with j := st.j + n.toNat, vcnt := st.vcnt + 1, rest := rest }

def execStep (bound : List DbBind) (st : ExecState) : ExecState ⊕ ExecResult :=
  match st.rest with
  | [] => .inr ⟨.sent (cString (st.write ['\x00']).buf), (st.write ['\x00']).inBounds⟩
  | c :: rest =>
    match st.prepare with
    | none => .inr ⟨.failed, st.inBounds⟩
    | some st => st.put bound c rest

def execFrom (bound : List DbBind) : Nat → ExecState → Option ExecResult
  | 0, _ => none
  | fuel + 1, st =>
    match execStep bound st with
    | .inl st => execFrom bound fuel st
    | .inr result => some result

def mysqlDrvExecute (fuel : Nat) (query : CText) (bound : List DbBind) : Option ExecResult :=
  execFrom bound fuel ⟨query.val, 0, 0, 0, true, [], true⟩

end MysqlBench.Sysbench
