import MysqlBench.Lib.Interleave
import MysqlBench.Lib.Stdio
import MysqlBench.Sysbench.Fileio.Model

/-!
# Statistics of the database tests (`db_driver.c`)

Every thread counts its queries in a record of its own. A report adds up the records of all threads,
one after the other, prints the sums, and, if it is cumulative, sets the records to zero in a second
pass. A step is a section under the mutex of a record, the unlocked `deadlocks++`, or the unlocked reset
of a record. Reports come from the thread for checkpoints, the one for intermediate reports and, at the
end, the main thread; nothing keeps them apart.
-/

namespace MysqlBench.Sysbench

open Lib

/-! ## Queries -/

inductive QueryType
  | read | write | commit | other
deriving Repr, DecidableEq

inductive DbError
  | none | deadlock | failed
deriving Repr, DecidableEq

def startsWithNoCase (word query : List Char) : Bool :=
  (query.take word.length).map Char.toLower == word

def dbGetQueryType (query : List Char) : QueryType :=
  let query := query.dropWhile isSpace
  if startsWithNoCase "select".toList query then .read
  else if startsWithNoCase "insert".toList query || startsWithNoCase "update".toList query ||
      startsWithNoCase "delete".toList query then .write
  else if startsWithNoCase "commit".toList query || startsWithNoCase "unlock tables".toList query then
    .commit
  else .other

/-! ## Counters -/

inductive StatCounter
  | readOps | writeOps | otherOps | transactions | deadlocks
deriving Repr, DecidableEq

instance : Fintype StatCounter where
  elems := {.readOps, .writeOps, .otherOps, .transactions, .deadlocks}
  complete k := by cases k <;> decide

abbrev DbThreadStat := StatCounter → Nat

def zeroStat : DbThreadStat := fun _ => 0

def increment (k : StatCounter) (st : DbThreadStat) : DbThreadStat :=
  Function.update st k ((st k + 1) % 2 ^ 64)

def dbUpdateThreadStats (type : QueryType) (st : DbThreadStat) : DbThreadStat :=
  match type with
  | .read => increment .readOps st
  | .write => increment .writeOps st
  | .commit => increment .transactions (increment .otherOps st)
  | .other => increment .otherOps st

structure DbStmt where
  query : List Char

def DbStmt.type (stmt : DbStmt) : QueryType := dbGetQueryType stmt.query

inductive DbCall
  | query (query : List Char) (errno : DbError)
  | execute (stmt : DbStmt) (errno : DbError)

def dbQuery (query : List Char) (errno : DbError) (st : DbThreadStat) : DbThreadStat :=
  match errno with
  | .none => dbUpdateThreadStats (dbGetQueryType query) st
  | .deadlock => increment .deadlocks st
  | .failed => st

def dbExecute (stmt : DbStmt) (errno : DbError) (st : DbThreadStat) : DbThreadStat :=
  match errno with
  | .none => dbUpdateThreadStats stmt.type st
  | .deadlock => increment .deadlocks st
  | .failed => st

def DbCall.run : DbCall → DbThreadStat → DbThreadStat
  | .query text errno => dbQuery text errno
  | .execute stmt errno => dbExecute stmt errno

/-! ## Reports -/

inductive StatType
  | intermediate | cumulative
deriving Repr, DecidableEq

inductive ReportPc
  /-- Not in `db_print_stats`. -/
  | idle
  /-- Before the section for thread `i`; `acc` are the sums so far. -/
  | summing (type : StatType) (i : Nat) (acc : DbThreadStat)
  /-- In `db_reset_stats`, before the reset of thread `i`. -/
  | resetting (i : Nat)

/-- The records of `n` threads and the reports of the threads in `R`. `printed` has the values that the
cumulative reports have printed, the last first; `executed` observes the calls and is not read. -/
structure DbStats (n : Nat) (R : Type) where
  threadStats : Fin n → DbThreadStat
  reporters : R → ReportPc
  printed : List (StatCounter → Int)
  executed : List DbCall

def dbStatsInit (n : Nat) (R : Type) : DbStats n R := ⟨fun _ => zeroStat, fun _ => .idle, [], []⟩

inductive StatsAction (n : Nat) (R : Type)
  | call (t : Fin n) (c : DbCall)
  /-- A call of `db_print_stats`. -/
  | begin (r : R) (type : StatType)
  /-- The next step of a report. -/
  | next (r : R)

section Steps

variable {n : Nat} {R : Type}

def countCall (s : DbStats n R) (t : Fin n) (c : DbCall) : DbStats n R :=
  { s with
    threadStats := Function.update s.threadStats t (c.run (s.threadStats t))
    executed := c :: s.executed }

variable [DecidableEq R]

def addStat (acc st : DbThreadStat) : DbThreadStat := fun k => (acc k + st k) % 2 ^ 64

def printStat (acc : DbThreadStat) : StatCounter → Int := fun k => int32 (acc k)

def reportStep (s : DbStats n R) (r : R) : Option (DbStats n R) :=
  match s.reporters r with
  | .idle => none
  | .summing type i acc =>
    if h : i < n then
      some { s with
        reporters := Function.update s.reporters r
          (.summing type (i + 1) (addStat acc (s.threadStats ⟨i, h⟩))) }
    else
      match type with
      | .intermediate => some { s with reporters := Function.update s.reporters r .idle }
      | .cumulative =>
        some { s with
          reporters := Function.update s.reporters r (.resetting 0)
          printed := printStat acc :: s.printed }
  | .resetting i =>
    if h : i < n then
      some { s with
        threadStats := Function.update s.threadStats ⟨i, h⟩ zeroStat
        reporters := Function.update s.reporters r (.resetting (i + 1)) }
    else some { s with reporters := Function.update s.reporters r .idle }

def statsStep (s : DbStats n R) : StatsAction n R → Option (DbStats n R)
  | .call t c => some (countCall s t c)
  | .begin r type =>
    match s.reporters r with
    | .idle => some { s with reporters := Function.update s.reporters r (.summing type 0 zeroStat) }
    | _ => none
  | .next r => reportStep s r

end Steps

end MysqlBench.Sysbench
