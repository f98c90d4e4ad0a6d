import MysqlBench.Lib.Interleave
import MysqlBench.Sysbench.Fileio.Model

/-!
# Asynchronous I/O

A thread submits operations until its queue has the length of the backlog, and then waits for one of
them at least; at the end it waits for all. `io_getevents` is an action of the environment, which gives
a wait any of the operations that are in flight, between the number asked for and the backlog. Each
event that is returned is one step, because the counters it updates are shared and locked only for that
long. No operation fails.

`nrequests` counts the operations in flight and the events that the loop of `file_wait` has still to
look at (`AioThread.Ok`); every other fact follows from what the phases of a thread say about the two.
What has been counted is kept as a list, with the threads.
-/

namespace MysqlBench.Sysbench

open MysqlBench.Lib

/-! ## Counters -/

structure AioOper where
  type : FileOp
  len : Int
deriving Repr, DecidableEq

structure AioCounters where
  readOps : Int
  writeOps : Int
  otherOps : Int
  bytesRead : Nat
  bytesWritten : Nat
deriving Repr, DecidableEq

def uint64 (x : Int) : Nat := (x % 2 ^ 64).toNat

def AioCounters.add (c : AioCounters) (o : AioOper) : AioCounters :=
  match o.type with
  | .fsync => { c with otherOps := int32 (c.otherOps + 1) }
  | .read => { c with readOps := int32 (c.readOps + 1), bytesRead := uint64 (c.bytesRead + o.len) }
  | .write =>
    { c with writeOps := int32 (c.writeOps + 1), bytesWritten := uint64 (c.bytesWritten + o.len) }

def typeCount (ty : FileOp) (os : List AioOper) : Int := os.countP fun o => o.type = ty

def typeBytes (ty : FileOp) (os : List AioOper) : Int :=
  ((os.filter fun o => o.type = ty).map AioOper.len).sum

def tally (os : List AioOper) : AioCounters :=
  ⟨int32 (typeCount .read os), int32 (typeCount .write os), int32 (typeCount .fsync os),
    uint64 (typeBytes .read os), uint64 (typeBytes .write os)⟩

theorem int32_int32_add (x y : Int) : int32 (int32 x + y) = int32 (x + y) := Int.bmod_add_bmod

theorem uint64_add (x y : Int) : uint64 (uint64 x + y) = uint64 (x + y) := by
  unfold uint64
  rw [Int.toNat_of_nonneg (by omega), Int.emod_add_emod]

theorem tally_nil : tally [] = ⟨0, 0, 0, 0, 0⟩ := by decide

theorem tally_cons (o : AioOper) (os : List AioOper) : tally (o :: os) = (tally os).add o := by
  obtain ⟨ty, len⟩ := o
  cases ty <;>
    simp [tally, AioCounters.add, typeCount, typeBytes, int32_int32_add, uint64_add, Int.add_comm len]

/-! ## Threads -/

/-- Where a thread is: between calls, in `io_getevents`, in the loop over the events, or after
`file_thread_done`, of which `last` is a part. -/
inductive AioPhase
  | idle
  | waiting (nreq : Nat) (last : Bool)
  | events (todo : List AioOper) (last : Bool)
  | finished
deriving Repr, DecidableEq

structure AioThread where
  nrequests : Nat
  inFlight : List AioOper
  phase : AioPhase
  submitted : List AioOper

def fileSubmitOrWait (backlog : Nat) (th : AioThread) (o : AioOper) : AioThread :=
  let nrequests := (th.nrequests + 1) % 2 ^ 32
  ⟨nrequests, o :: th.inFlight, if nrequests < backlog then .idle else .waiting 1 false,
    o :: th.submitted⟩

def fileThreadDone (th : AioThread) : AioThread :=
  { th with phase := if 0 < th.nrequests then .waiting th.nrequests true else .finished }

def leave (last : Bool) : AioPhase := if last then .finished else .idle

def loop (last : Bool) (todo : List AioOper) : AioPhase :=
  if todo = [] then leave last else .events todo last

structure AioState (T : Type) where
  threads : T → AioThread
  counters : AioCounters
  counted : List (T × AioOper)

inductive AioAction (T : Type)
  | submit (t : T) (o : AioOper)
  | getevents (t : T) (events rest : List AioOper)
  | event (t : T)
  | done (t : T)

variable {T : Type} [DecidableEq T]

def AioState.set (s : AioState T) (t : T) (th : AioThread) : AioState T :=
  { s with threads := Function.update s.threads t th }

def aioStep (backlog : Nat) (s : AioState T) : AioAction T → Option (AioState T)
  | .submit t o =>
    match (s.threads t).phase with
    | .idle => some (s.set t (fileSubmitOrWait backlog (s.threads t) o))
    | _ => none
  | .getevents t events rest =>
    match (s.threads t).phase with
    | .waiting nreq last =>
      if nreq ≤ events.length ∧ events.length ≤ backlog ∧ (s.threads t).inFlight.Perm (events ++ rest) then
        some (s.set t { s.threads t with inFlight := rest, phase := loop last events })
      else none
    | _ => none
  | .event t =>
    match (s.threads t).phase with
    | .events (o :: todo) last =>
      some ⟨Function.update s.threads t
          { s.threads t with nrequests := ((s.threads t).nrequests + (2 ^ 32 - 1)) % 2 ^ 32,
                             phase := loop last todo },
        s.counters.add o, (t, o) :: s.counted⟩
    | _ => none
  | .done t =>
    match (s.threads t).phase with
    | .idle => some (s.set t (fileThreadDone (s.threads t)))
    | _ => none

def aioStart : AioState T := ⟨fun _ => ⟨0, [], .idle, []⟩, ⟨0, 0, 0, 0, 0⟩, []⟩

/-! ## The invariant -/

def AioPhase.todo : AioPhase → List AioOper
  | .events todo _ => todo
  | _ => []

def AioState.countedBy (s : AioState T) (t : T) : List AioOper :=
  (s.counted.filter fun c => c.1 = t).map Prod.snd

def PhaseOk (backlog inFlight : Nat) : AioPhase → Prop
  | .idle => inFlight < backlog
  | .waiting nreq last => 1 ≤ nreq ∧ nreq ≤ inFlight ∧ inFlight ≤ backlog ∧ (last = true → nreq = inFlight)
  | .events todo last => todo ≠ [] ∧ inFlight < backlog ∧ (last = true → inFlight = 0)
  | .finished => inFlight = 0

structure AioThread.Ok (backlog : Nat) (th : AioThread) (counted : List AioOper) : Prop where
  count : th.nrequests = th.inFlight.length + th.phase.todo.length
  limit : th.nrequests ≤ backlog
  phase : PhaseOk backlog th.inFlight.length th.phase
  accounted : th.submitted.Perm (th.inFlight ++ (th.phase.todo ++ counted))

structure AioOk (backlog : Nat) (s : AioState T) : Prop where
  threads : ∀ t, (s.threads t).Ok backlog (s.countedBy t)
  counters : s.counters = tally (s.counted.map Prod.snd)

section Invariant

variable {backlog : Nat} {th : AioThread} {counted : List AioOper}

theorem todo_loop (last : Bool) (todo : List AioOper) : (loop last todo).todo = todo := by
  unfold loop leave
  split_ifs with h <;> first | exact h.symm | rfl

theorem phaseOk_loop {inFlight : Nat} {last : Bool} (todo : List AioOper) (hlt : inFlight < backlog)
    (hlast : last = true → inFlight = 0) : PhaseOk backlog inFlight (loop last todo) := by
  unfold loop leave
  split_ifs with h hl
  · exact hlast hl
  · exact hlt
  · exact ⟨h, hlt, hlast⟩

theorem fileSubmitOrWait_ok (hmax : backlog < 2 ^ 31) (h : th.Ok backlog counted) (hidle : th.phase = .idle)
    (o : AioOper) : (fileSubmitOrWait backlog th o).Ok backlog counted := by
  obtain ⟨hcount, -, hphase, hacc⟩ := h
  rw [hidle] at hcount hphase hacc
  have hlt : th.inFlight.length < backlog := hphase
  simp only [AioPhase.todo, List.length_nil, Nat.add_zero, List.nil_append] at hcount hacc
  have hnext : (th.nrequests + 1) % 2 ^ 32 = th.inFlight.length + 1 := by omega
  unfold fileSubmitOrWait
  dsimp only
  rw [hnext]
  by_cases hroom : th.inFlight.length + 1 < backlog
  · rw [if_pos hroom]
    exact ⟨rfl, Nat.le_of_lt hroom, hroom, hacc.cons o⟩
  · rw [if_neg hroom]
    exact ⟨rfl, hlt, ⟨le_refl 1, Nat.le_add_left _ _, hlt, fun h => absurd h Bool.false_ne_true⟩,
      hacc.cons o⟩

theorem fileThreadDone_ok (h : th.Ok backlog counted) (hidle : th.phase = .idle) :
    (fileThreadDone th).Ok backlog counted := by
  obtain ⟨hcount, hlimit, hphase, hacc⟩ := h
  rw [hidle] at hcount hphase hacc
  have hlt : th.inFlight.length < backlog := hphase
  simp only [AioPhase.todo, List.length_nil, Nat.add_zero, List.nil_append] at hcount hacc
  unfold fileThreadDone
  by_cases hpos : 0 < th.nrequests
  · rw [if_pos hpos]
    exact ⟨hcount, hlimit, ⟨hpos, Nat.le_of_eq hcount, Nat.le_of_lt hlt, fun _ => hcount⟩, hacc⟩
  · rw [if_neg hpos]
    exact ⟨hcount, hlimit, show th.inFlight.length = 0 by omega, hacc⟩

theorem getevents_ok (h : th.Ok backlog counted) {nreq : Nat} {last : Bool}
    (hwait : th.phase = .waiting nreq last) {events rest : List AioOper} (hmin : nreq ≤ events.length)
    (hperm : th.inFlight.Perm (events ++ rest)) :
    AioThread.Ok backlog { th with inFlight := rest, phase := loop last events } counted := by
  obtain ⟨hcount, hlimit, hphase, hacc⟩ := h
  rw [hwait] at hcount hphase hacc
  obtain ⟨hone, -, hle, hlast⟩ := hphase
  have hlen := hperm.length_eq
  rw [List.length_append] at hlen
  simp only [AioPhase.todo, List.length_nil, Nat.add_zero, List.nil_append] at hcount hacc
  refine ⟨?_, hlimit, ?_, ?_⟩
  · dsimp only
    rw [todo_loop]
    omega
  · apply phaseOk_loop
    · dsimp only
      omega
    · intro hl
      have := hlast hl
      dsimp only
      omega
  · dsimp only
    rw [todo_loop, ← List.append_assoc]
    exact hacc.trans ((hperm.trans List.perm_append_comm).append_right counted)

theorem event_ok (hmax : backlog < 2 ^ 31) (h : th.Ok backlog counted) {o : AioOper} {todo : List AioOper}
    {last : Bool} (hev : th.phase = .events (o :: todo) last) :
    AioThread.Ok backlog { th with nrequests := (th.nrequests + (2 ^ 32 - 1)) % 2 ^ 32,
                                   phase := loop last todo } (o :: counted) := by
  obtain ⟨hcount, hlimit, hphase, hacc⟩ := h
  rw [hev] at hcount hphase hacc
  obtain ⟨-, hlt, hlast⟩ := hphase
  simp only [AioPhase.todo, List.length_cons, List.cons_append] at hcount hacc
  refine ⟨?_, ?_, phaseOk_loop todo hlt hlast, ?_⟩
  · dsimp only
    rw [todo_loop]
    omega
  · dsimp only
    omega
  · dsimp only
    rw [todo_loop]
    exact hacc.trans (List.perm_middle.symm.append_left _)

end Invariant

section Run

variable {backlog : Nat}

theorem countedBy_cons_self (s : AioState T) (t : T) (o : AioOper) (threads : T → AioThread)
    (c : AioCounters) : AioState.countedBy ⟨threads, c, (t, o) :: s.counted⟩ t = o :: s.countedBy t := by
  simp [AioState.countedBy]

theorem countedBy_cons_other (s : AioState T) {t t' : T} (hne : t ≠ t') (o : AioOper)
    (threads : T → AioThread) (c : AioCounters) :
    AioState.countedBy ⟨threads, c, (t', o) :: s.counted⟩ t = s.countedBy t := by
  simp [AioState.countedBy, hne.symm]

theorem AioOk.set {s : AioState T} (h : AioOk backlog s) {t : T} {th : AioThread}
    (hth : th.Ok backlog (s.countedBy t)) : AioOk backlog (s.set t th) := by
  refine ⟨fun t' => ?_, h.counters⟩
  show AioThread.Ok backlog (Function.update s.threads t th t') (s.countedBy t')
  by_cases heq : t' = t
  · rw [heq, Function.update_self]
    exact hth
  · rw [Function.update_of_ne heq]
    exact h.threads t'

theorem AioOk.step (hmax : backlog < 2 ^ 31) (s : AioState T) (a : AioAction T) (s' : AioState T)
    (h : AioOk backlog s) (hs : aioStep backlog s a = some s') : AioOk backlog s' := by
  cases a with
  | submit t o =>
    cases hphase : (s.threads t).phase <;> simp only [aioStep, hphase, reduceCtorEq, Option.some.injEq] at hs
    rw [← hs]
    exact h.set (fileSubmitOrWait_ok hmax (h.threads t) hphase o)
  | getevents t events rest =>
    cases hphase : (s.threads t).phase <;>
      simp only [aioStep, hphase, reduceCtorEq, Option.ite_none_right_eq_some, Option.some.injEq] at hs
    obtain ⟨⟨hmin, -, hperm⟩, hs⟩ := hs
    rw [← hs]
    exact h.set (getevents_ok (h.threads t) hphase hmin hperm)
  | event t =>
    cases hphase : (s.threads t).phase with
    | events todo last =>
      cases todo with
      | nil => simp [aioStep, hphase] at hs
      | cons o todo =>
        simp only [aioStep, hphase, Option.some.injEq] at hs
        rw [← hs]
        refine ⟨fun t' => ?_, ?_⟩
        · -- the thread of the event counts it, the others keep their counts
          by_cases heq : t' = t
          · rw [heq, countedBy_cons_self]
            dsimp only
            rw [Function.update_self]
            exact event_ok hmax (h.threads t) hphase
          · rw [countedBy_cons_other s heq]
            dsimp only
            rw [Function.update_of_ne heq]
            exact h.threads t'
        · rw [h.counters, List.map_cons, tally_cons]
    | idle => simp [aioStep, hphase] at hs
    | waiting nreq last => simp [aioStep, hphase] at hs
    | finished => simp [aioStep, hphase] at hs
  | done t =>
    cases hphase : (s.threads t).phase <;> simp only [aioStep, hphase, reduceCtorEq, Option.some.injEq] at hs
    rw [← hs]
    exact h.set (fileThreadDone_ok (h.threads t) hphase)

theorem aioOk_of_reachable (hpos : 1 ≤ backlog) (hmax : backlog < 2 ^ 31) {s : AioState T}
    (h : Reachable (aioStep backlog) aioStart s) : AioOk backlog s :=
  h.invariant ⟨fun _ => ⟨rfl, Nat.zero_le _, hpos, List.Perm.refl _⟩, tally_nil.symm⟩ (AioOk.step hmax)

end Run

/-- **Asynchronous accounting.** With any threads, in whichever order they take their steps: between
its calls `nrequests` of a thread is the number of its operations that were submitted and not returned,
and below the backlog; in the loop over the events it counts those not yet looked at, too; after
`file_thread_done` it is zero, and all operations have been returned and counted. What was submitted is
in flight, or returned and still to be looked at, or counted, each operation in one place; the counters
have each counted operation once. A wait never asks for more than is in flight. -/
theorem async_accounting (backlog : Nat) (hpos : 1 ≤ backlog) (hmax : backlog < 2 ^ 31) (s : AioState T)
    (h : Reachable (aioStep backlog) aioStart s) :
    (∀ t, (s.threads t).nrequests = (s.threads t).inFlight.length + (s.threads t).phase.todo.length ∧
      ((s.threads t).phase = .idle → (s.threads t).nrequests = (s.threads t).inFlight.length ∧
        (s.threads t).nrequests < backlog) ∧
      ((s.threads t).phase = .finished → (s.threads t).nrequests = 0 ∧
        (s.threads t).submitted.Perm (s.countedBy t)) ∧
      (∀ nreq last, (s.threads t).phase = .waiting nreq last →
        1 ≤ nreq ∧ nreq ≤ (s.threads t).inFlight.length ∧ (s.threads t).inFlight.length ≤ backlog) ∧
      (s.threads t).submitted.Perm
        ((s.threads t).inFlight ++ ((s.threads t).phase.todo ++ s.countedBy t))) ∧
    s.counters = tally (s.counted.map Prod.snd) := by
  have hok := aioOk_of_reachable hpos hmax h
  refine ⟨fun t => ?_, hok.counters⟩
  obtain ⟨hcount, -, hphase, hacc⟩ := hok.threads t
  refine ⟨hcount, fun hidle => ?_, fun hfin => ?_, fun nreq last hwait => ?_, hacc⟩
  · rw [hidle] at hcount hphase
    have hlen : (s.threads t).nrequests = (s.threads t).inFlight.length := hcount
    exact ⟨hlen, hlen ▸ hphase⟩
  · rw [hfin] at hcount hphase hacc
    have hnil : (s.threads t).inFlight = [] := List.length_eq_zero_iff.mp hphase
    rw [hnil] at hcount hacc
    exact ⟨hcount, hacc⟩
  · rw [hwait] at hphase
    exact ⟨hphase.1, hphase.2.1, hphase.2.2.1⟩

def twoOperations : List (AioAction Unit) :=
  [.submit () ⟨.read, 16⟩, .submit () ⟨.write, 32⟩, .getevents () [⟨.write, 32⟩] [⟨.read, 16⟩], .event (),
    .done (), .getevents () [⟨.read, 16⟩] [], .event ()]

/-- At the end of the thread both have been counted. -/
theorem async_accounting_two :
    ∃ s : AioState Unit, runSteps (aioStep 2) aioStart twoOperations = some s ∧
      s.counters = ⟨1, 1, 0, 16, 32⟩ ∧ (s.threads ()).nrequests = 0 ∧
      s.counters = tally (s.counted.map Prod.snd) := by
  have hrun : (runSteps (aioStep 2) aioStart twoOperations).any (fun s =>
      (s.threads ()).phase = .finished ∧ s.counters = ⟨1, 1, 0, 16, 32⟩) = true := by decide
  obtain ⟨s, hs, hend⟩ := (Option.any_eq_true _ _).mp hrun
  obtain ⟨hphase, hcounters⟩ := of_decide_eq_true hend
  have hacc := async_accounting 2 (by decide) (by decide) s (Reachable.runSteps _ .start hs)
  exact ⟨s, hs, hcounters, ((hacc.1 ()).2.2.1 hphase).1, hacc.2⟩

end MysqlBench.Sysbench
