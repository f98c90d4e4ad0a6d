import MysqlBench.Lib.Interleave
import MysqlBench.Lib.IntrusiveList

/-!
# The event queue of the `tx-rate` mode

A thread generates events in the elements of a ring and adds them to a list; the runners take them from
there. The list is linked through the elements of the ring, which are used again after `MAX_QUEUE_LEN`
events. A step is a section under `event_queue_mutex`, or an access to shared data outside of it. A
runner that waits for the condition may wake up at any time.
-/

namespace MysqlBench.Sysbench

open Lib

def maxQueueLen : Nat := 100000

structure QueueEvent where
  elem : Nat
  time : Nat
deriving Repr, DecidableEq

inductive GeneratorPc
  /-- Before `SB_LIST_INIT`. -/
  | init
  /-- Before the assignment of `event_time`. -/
  | write (i : Nat)
  /-- Before the section that adds the element; `time` has been assigned. -/
  | add (i time : Nat)
  /-- After it, before the test of `queue_is_full`. -/
  | check (i : Nat)
  | stopped
deriving Repr, DecidableEq

inductive TakerPc
  /-- Before the test of `queue_is_full`. -/
  | top
  /-- Before the section, or waiting for the condition in it. -/
  | lock
  /-- After it, before the assignment of `queue_time`. -/
  | took
  /-- After "Event queue is full." -/
  | stopped
deriving Repr, DecidableEq

structure TakenEvent (T : Type) where
  runner : T
  event : QueueEvent

structure AssignedTime (T : Type) where
  runner : T
  now : Nat
  queueTime : Nat

/-- The shared data, the generator and the runners. The last three fields observe, in order, the events
that have been added and taken and the assignments of `queue_time`; the code does not read them. -/
structure EventQueue (T : Type) where
  links : Links Nat
  eventTime : Nat → Nat
  eventQueueLength : Nat
  queueIsFull : Bool
  generator : GeneratorPc
  pc : T → TakerPc
  queueStartTime : T → Nat
  generated : List QueueEvent
  taken : List (TakenEvent T)
  assigned : List (AssignedTime T)

inductive QueueAction (T : Type)
  /-- `SB_LIST_INIT(&event_queue)`. -/
  | initList
  /-- `queue_array[i].event_time = ...`. -/
  | write (now : Nat)
  /-- The section of the generator. -/
  | add
  /-- The test of `queue_is_full` and the next index. -/
  | advance
  /-- The test of `queue_is_full` by a runner. -/
  | test (t : T)
  /-- The section of a runner, from its beginning or after it was woken up. -/
  | take (t : T)
  /-- `timers[thread_id].queue_time = ...`. -/
  | assign (t : T) (now : Nat)

def waitingTime (now start : Nat) : Nat := (now + 2 ^ 64 - start) % 2 ^ 64

section Steps

variable {T : Type}

def addEvent (s : EventQueue T) (i time : Nat) : EventQueue T :=
  { s with
    links := s.links.addTail i
    eventQueueLength := s.eventQueueLength + 1
    queueIsFull := s.queueIsFull || maxQueueLen ≤ s.eventQueueLength + 1
    generator := .check i
    generated := s.generated ++ [⟨i, time⟩] }

def nextIndex (i : Nat) : Nat := if maxQueueLen ≤ i + 1 then 0 else i + 1

variable [DecidableEq T]

def takeEvent (s : EventQueue T) (t : T) (i : Nat) : EventQueue T :=
  { s with
    links := s.links.delete i
    eventQueueLength := s.eventQueueLength - 1
    queueStartTime := Function.update s.queueStartTime t (s.eventTime i)
    taken := s.taken ++ [⟨t, i, s.eventTime i⟩] }

def takeSection (s : EventQueue T) (t : T) : EventQueue T :=
  if s.eventQueueLength = 0 then s
  else
    let s' := match s.links.next none with
      | some i => takeEvent s t i
      | none => s
    { s' with pc := Function.update s'.pc t .took }

def queueStep (s : EventQueue T) : QueueAction T → Option (EventQueue T)
  | .initList =>
    if s.generator = .init then some { s with links := s.links.init, generator := .write 0 } else none
  | .write now =>
    match s.generator with
    | .write i =>
      some { s with eventTime := Function.update s.eventTime i now, generator := .add i now }
    | _ => none
  | .add =>
    match s.generator with
    | .add i time => some (addEvent s i time)
    | _ => none
  | .advance =>
    match s.generator with
    | .check i =>
      some { s with generator := if s.queueIsFull then .stopped else .write (nextIndex i) }
    | _ => none
  | .test t =>
    if s.pc t = .top then
      some { s with pc := Function.update s.pc t (if s.queueIsFull then .stopped else .lock) }
    else none
  | .take t => if s.pc t = .lock then some (takeSection s t) else none
  | .assign t now =>
    if s.pc t = .took then
      some { s with
        pc := Function.update s.pc t .top
        assigned := s.assigned ++ [⟨t, now, waitingTime now (s.queueStartTime t)⟩] }
    else none

end Steps

def eventQueueInit {T : Type} (links : Links Nat) (eventTime : Nat → Nat) (queueStartTime : T → Nat) :
    EventQueue T :=
  ⟨links, eventTime, 0, false, .init, fun _ => .top, queueStartTime, [], [], []⟩

end MysqlBench.Sysbench
