import MysqlBench.Lib.Interleave

/-!
# `filelock.c`

Exclusive locks on files by name. Locks are kept in a list of entries, found by the hash of the name,
created by the first thread that wants one and freed by the last that gives it up. Each thread makes
one call after the other: `fio_lock_file` or `fio_trylock_file`, and `fio_unlock_file` if it has got
the lock. A step is a critical section under `filelock_lock`, or one operation on the mutex of an
entry.
-/

namespace MysqlBench.Fio

structure Filelock where
  hash : BitVec 32
  value : Nat
  references : Nat
deriving Repr, DecidableEq

inductive LockPc
  /-- Not in a call, and without a lock. -/
  | idle
  /-- Before `fio_mutex_down(&ff->lock)`, or waiting in it. -/
  | down (hash : BitVec 32) (ff : Nat)
  /-- Before `fio_mutex_down_trylock(&ff->lock)`. -/
  | tryDown (hash : BitVec 32) (ff : Nat)
  /-- After it has failed, before the second critical section. -/
  | raced (hash : BitVec 32) (ff : Nat)
  /-- With the lock. -/
  | holds (hash : BitVec 32)
deriving Repr, DecidableEq

def LockPc.hash? : LockPc → Option (BitVec 32)
  | idle => none
  | down h _ | tryDown h _ | raced h _ | holds h => some h

def LockPc.ptr? : LockPc → Option Nat
  | down _ ff | tryDown _ ff | raced _ ff => some ff
  | idle | holds _ => none

structure Filelocks (T : Type) where
  heap : Nat → Option Filelock
  list : List Nat
  pc : T → LockPc

def filelockInit (T : Type) : Filelocks T := ⟨fun _ => none, [], fun _ => .idle⟩

section Code

variable {T : Type}

def hashFind (w : Filelocks T) (hash : BitVec 32) : Option Nat :=
  w.list.find? fun ff => (w.heap ff).any fun e => e.hash = hash

def newEntry (w : Filelocks T) (hash : BitVec 32) (mem : Nat) : Filelocks T :=
  { w with heap := Function.update w.heap mem (some ⟨hash, 1, 0⟩), list := mem :: w.list }

def hashGet (w : Filelocks T) (hash : BitVec 32) (mem : Nat) : Option (Nat × Filelocks T) :=
  match hashFind w hash with
  | some ff => some (ff, w)
  | none => if (w.heap mem).isSome then none else some (mem, newEntry w hash mem)

def dropEntry (w : Filelocks T) (ff : Nat) : Filelocks T :=
  { w with heap := Function.update w.heap ff none, list := w.list.erase ff }

variable [DecidableEq T]

def change (w : Filelocks T) (t : T) (ff : Nat) (e : Filelock) (pc : LockPc) : Filelocks T :=
  { w with heap := Function.update w.heap ff (some e), pc := Function.update w.pc t pc }

@[simp] theorem change_heap (w : Filelocks T) (t : T) (ff : Nat) (e : Filelock) (pc : LockPc) :
    (change w t ff e pc).heap = Function.update w.heap ff (some e) := rfl

@[simp] theorem change_pc (w : Filelocks T) (t : T) (ff : Nat) (e : Filelock) (pc : LockPc) :
    (change w t ff e pc).pc = Function.update w.pc t pc := rfl

def takeReference (w : Filelocks T) (t : T) (hash : BitVec 32) (mem : Nat)
    (next : BitVec 32 → Nat → LockPc) : Option (Filelocks T) :=
  match w.pc t with
  | .idle => do
    let (ff, w) ← hashGet w hash mem
    let e ← w.heap ff
    some (change w t ff { e with references := e.references + 1 } (next hash ff))
  | _ => none

def mutexDown (w : Filelocks T) (t : T) (hash : BitVec 32) (ff : Nat) : Option (Filelocks T) := do
  let e ← w.heap ff
  if e.value = 0 then none else some (change w t ff { e with value := e.value - 1 } (.holds hash))

def mutexTryDown (w : Filelocks T) (t : T) (hash : BitVec 32) (ff : Nat) : Option (Filelocks T) := do
  let e ← w.heap ff
  if e.value = 0 then some (change w t ff e (.raced hash ff))
  else some (change w t ff { e with value := e.value - 1 } (.holds hash))

def tryAgain (w : Filelocks T) (t : T) (hash : BitVec 32) (ff : Nat) : Option (Filelocks T) := do
  let e ← w.heap ff
  if e.references ≠ 1 then some (change w t ff { e with references := e.references - 1 } .idle)
  else some (change w t ff e (.down hash ff))

def unlockFile (w : Filelocks T) (t : T) (hash : BitVec 32) : Option (Filelocks T) :=
  match hashFind w hash with
  | some ff => do
    let e ← w.heap ff
    let e := { e with references := e.references - 1, value := e.value + 1 }
    let w := change w t ff e .idle
    if e.references = 0 then some (dropEntry w ff) else some w
  | none => some { w with pc := Function.update w.pc t .idle }

/-- A step: the start of a call, with the memory that `smalloc` would return, or the next step of the
call that a thread is in. -/
inductive LockStep (T Name : Type)
  | lock (t : T) (fname : Name) (mem : Nat)
  | trylock (t : T) (fname : Name) (mem : Nat)
  | run (t : T)

/-- What a step does; `none` if it is not possible, because the thread is elsewhere or has to wait, or
because it would use memory that has been freed. -/
def filelockStep {Name : Type} (jhash : Name → BitVec 32) (w : Filelocks T) :
    LockStep T Name → Option (Filelocks T)
  | .lock t fname mem => takeReference w t (jhash fname) mem .down
  | .trylock t fname mem => takeReference w t (jhash fname) mem .tryDown
  | .run t =>
    match w.pc t with
    | .idle => none
    | .down hash ff => mutexDown w t hash ff
    | .tryDown hash ff => mutexTryDown w t hash ff
    | .raced hash ff => tryAgain w t hash ff
    | .holds hash => unlockFile w t hash

end Code

end MysqlBench.Fio
