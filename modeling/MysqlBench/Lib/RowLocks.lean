import MysqlBench.Lib.Interleave

/-!
# Clients of a server with row locks

Where `TwoPhase` has transactions whose every read takes a lock, here a client may also read without one.
A client's work (`Client`) is a sequence of plain selects, of statements that change rows, and of commits,
each going on with the next transaction. A select reads the latest committed database, with the client's own
changes, and never waits; a statement that changes rows takes the locks of the rows it finds and keeps them
until its transaction ends. `stepServer` runs any number of threads statement by statement in any order.

What a client has read may have changed by the time it acts on it; a statement that then finds no row is
executed all the same. `ServerMove` says what a step can do. Only a thread that nobody else disturbs is sure to
find what it has read: it leaves what its work leaves when it is simply done from beginning to end
(`Client.exec`, `finishes_alone`).
-/

set_option autoImplicit false

namespace MysqlBench.Lib

/-! ## Clients -/

/-- What is left of a client's work. A change carries a label and names the rows it finds; a commit carries
an entry for the log. `rollback` takes back the open transaction and ends the work. -/
inductive Client (D K L E : Type) where
  | done
  | rollback
  | select (next : D → Client D K L E)
  | change (label : L) (rows : D → List K) (f : D → D) (next : Client D K L E)
  | commit (entry : E) (next : Client D K L E)

namespace Client

variable {D K L E : Type}

/-- The work done alone, from a committed database and the database that the client sees: the database it
leaves. -/
def exec : Client D K L E → D → D → D
  | done, d, _ => d
  | rollback, d, _ => d
  | select next, d, view => (next view).exec d view
  | change _ _ f next, d, view => next.exec d (f view)
  | commit _ next, _, view => next.exec view view

end Client

/-! ## The server -/

/-- A client's call in progress: what is left of it, and the changes of its open transaction. The rows they
are about are locked, so they can be made to the committed database at any time until the commit. -/
structure Conn (D K L E : Type) where
  rest : Client D K L E
  own : D → D

structure Server (T D K L E : Type) where
  db : D
  locks : K → Option T
  conns : T → Option (Conn D K L E)
  log : List E

/-- What can happen next: a thread begins a call, its next statement is executed, or the server makes it
fail. -/
inductive ServerAction (T C : Type) where
  | call (t : T) (c : C)
  | statement (t : T)
  | fail (t : T)

section Server

variable {T D K L E C : Type}

def Server.initial (d : D) : Server T D K L E := ⟨d, fun _ => none, fun _ => none, []⟩

variable [DecidableEq T] [DecidableEq K]

def Server.put (s : Server T D K L E) (t : T) (x : Option (Conn D K L E)) : Server T D K L E :=
  { s with conns := Function.update s.conns t x }

def Server.free (s : Server T D K L E) (t : T) : Server T D K L E :=
  { s with locks := fun k => if s.locks k = some t then none else s.locks k }

def Server.lock (s : Server T D K L E) (t : T) (rows : List K) : Server T D K L E :=
  { s with locks := fun k => if k ∈ rows then some t else s.locks k }

def Server.MayLock (s : Server T D K L E) (t : T) (rows : List K) : Prop :=
  ∀ k ∈ rows, s.locks k = none ∨ s.locks k = some t

instance Server.decidableMayLock (s : Server T D K L E) (t : T) (rows : List K) :
    Decidable (s.MayLock t rows) :=
  inferInstanceAs (Decidable (∀ k ∈ rows, s.locks k = none ∨ s.locks k = some t))

def Server.statement (s : Server T D K L E) (t : T) (x : Conn D K L E) : Option (Server T D K L E) :=
  match x.rest with
  | .done => some ((s.free t).put t none)
  | .rollback => some ((s.free t).put t none)
  | .select next => some (s.put t (some { x with rest := next (x.own s.db) }))
  | .change _ rows f next =>
    if s.MayLock t (rows (x.own s.db)) then
      some ((s.lock t (rows (x.own s.db))).put t (some ⟨next, fun d => f (x.own d)⟩))
    else none
  | .commit e next =>
    some { (s.free t).put t (some ⟨next, id⟩) with db := x.own s.db, log := s.log ++ [e] }

def stepServer (work : C → Client D K L E) (s : Server T D K L E) :
    ServerAction T C → Option (Server T D K L E)
  | .call t c => if (s.conns t).isNone then some (s.put t (some ⟨work c, id⟩)) else none
  | .statement t => (s.conns t).bind (s.statement t)
  | .fail t => (s.conns t).map fun _ => (s.free t).put t none

inductive ServerMove (work : C → Client D K L E) (s : Server T D K L E) :
    ServerAction T C → Server T D K L E → Prop
  | call (t : T) (c : C) : ServerMove work s (.call t c) (s.put t (some ⟨work c, id⟩))
  | stop (t : T) (a : ServerAction T C) : ServerMove work s a ((s.free t).put t none)
  | select (t : T) (x : Conn D K L E) (next : D → Client D K L E) (h : s.conns t = some x)
      (hrest : x.rest = .select next) :
      ServerMove work s (.statement t) (s.put t (some ⟨next (x.own s.db), x.own⟩))
  | change (t : T) (x : Conn D K L E) (label : L) (rows : D → List K) (f : D → D)
      (next : Client D K L E) (h : s.conns t = some x) (hrest : x.rest = .change label rows f next)
      (hlock : s.MayLock t (rows (x.own s.db))) :
      ServerMove work s (.statement t)
        ((s.lock t (rows (x.own s.db))).put t (some ⟨next, fun d => f (x.own d)⟩))
  | commit (t : T) (x : Conn D K L E) (e : E) (next : Client D K L E) (h : s.conns t = some x)
      (hrest : x.rest = .commit e next) :
      ServerMove work s (.statement t)
        { (s.free t).put t (some ⟨next, id⟩) with db := x.own s.db, log := s.log ++ [e] }

theorem stepServer_move {work : C → Client D K L E} {s s' : Server T D K L E} {a : ServerAction T C}
    (h : stepServer work s a = some s') : ServerMove work s a s' := by
  cases a with
  | call t c =>
    obtain ⟨_, heq⟩ := Option.ite_none_right_eq_some.mp h
    exact Option.some.inj heq ▸ .call t c
  | statement t =>
    obtain ⟨x, hx, hst⟩ := Option.bind_eq_some_iff.mp h
    unfold Server.statement at hst
    cases hrest : x.rest with
    | done =>
      rw [hrest] at hst
      exact Option.some.inj hst ▸ .stop t _
    | rollback =>
      rw [hrest] at hst
      exact Option.some.inj hst ▸ .stop t _
    | select next =>
      rw [hrest] at hst
      exact Option.some.inj hst ▸ .select t x next hx hrest
    | change label rows f next =>
      rw [hrest] at hst
      obtain ⟨hlock, heq⟩ := Option.ite_none_right_eq_some.mp hst
      exact Option.some.inj heq ▸ .change t x label rows f next hx hrest hlock
    | commit e next =>
      rw [hrest] at hst
      exact Option.some.inj hst ▸ .commit t x e next hx hrest
  | fail t =>
    obtain ⟨x, _, heq⟩ := Option.map_eq_some_iff.mp h
    exact heq ▸ .stop t _

/-! ## A thread alone

No row is locked by another thread, so no statement waits. The induction is over what is left of the work, with
the server after a statement in the place of the server before it.
-/

/-- The statements of a thread, executed one behind the other, end its call and leave the database `d`. -/
def Server.Finishes (work : C → Client D K L E) (s : Server T D K L E) (t : T) (d : D) : Prop :=
  ∃ n s', runSteps (stepServer work) s (List.replicate n (.statement t)) = some s' ∧
    s'.conns t = none ∧ s'.db = d

theorem Server.Finishes.step {work : C → Client D K L E} {s s' : Server T D K L E} {t : T}
    {x : Conn D K L E} {d : D} (hx : s.conns t = some x) (hs : s.statement t x = some s')
    (h : s'.Finishes work t d) : s.Finishes work t d := by
  obtain ⟨n, s₁, hrun, hend⟩ := h
  refine ⟨n + 1, s₁, ?_, hend⟩
  rw [List.replicate_succ, runSteps, stepServer, hx, Option.bind_some, hs, Option.bind_some, hrun]

theorem finishes_alone (work : C → Client D K L E) {t : T} (c : Client D K L E) (own : D → D)
    (s : Server T D K L E) (hx : s.conns t = some ⟨c, own⟩)
    (hlocks : ∀ k, s.locks k = none ∨ s.locks k = some t) :
    s.Finishes work t (c.exec s.db (own s.db)) := by
  induction c generalizing own s with
  | done => exact .step hx rfl ⟨0, _, rfl, Function.update_self .., rfl⟩
  | rollback => exact .step hx rfl ⟨0, _, rfl, Function.update_self .., rfl⟩
  | select next ih => exact .step hx rfl (ih _ own _ (Function.update_self ..) hlocks)
  | change label rows f next ih =>
    have hmay : s.MayLock t (rows (own s.db)) := fun k _ => hlocks k
    refine .step hx (if_pos hmay) (ih (fun d => f (own d)) _ (Function.update_self ..) fun k => ?_)
    show (if k ∈ rows (own s.db) then some t else s.locks k) = none ∨
      (if k ∈ rows (own s.db) then some t else s.locks k) = some t
    split
    · exact .inr rfl
    · exact hlocks k
  | commit e next ih =>
    refine .step hx rfl (ih id _ (Function.update_self ..) fun k => .inl ?_)
    show (if s.locks k = some t then none else s.locks k) = none
    cases hlocks k with
    | inl h => rw [h, if_neg (by simp)]
    | inr h => rw [if_pos h]

end Server

/-! ## The connections and locks after a step -/

section Put

variable {T D K L E : Type} [DecidableEq T] {s : Server T D K L E} {t u : T} {k : K}

theorem Server.conns_put {x : Option (Conn D K L E)} {y : Conn D K L E}
    (h : (s.put t x).conns u = some y) : (u = t ∧ x = some y) ∨ (u ≠ t ∧ s.conns u = some y) := by
  by_cases hu : u = t
  · rw [hu] at h
    simp only [Server.put, Function.update_self] at h
    exact .inl ⟨hu, h⟩
  · simp only [Server.put, Function.update_of_ne hu] at h
    exact .inr ⟨hu, h⟩

theorem Server.locks_free (hu : u ≠ t) (h : s.locks k = some u) : (s.free t).locks k = some u := by
  simp only [Server.free, h]
  rw [if_neg fun heq => hu (Option.some.inj heq)]

end Put

section Lock

variable {T D K L E : Type} [DecidableEq K] {s : Server T D K L E} {t u : T} {k : K}

theorem Server.locks_lock {rows : List K} (hmay : s.MayLock t rows) (hu : u ≠ t)
    (h : s.locks k = some u) : (s.lock t rows).locks k = some u := by
  simp only [Server.lock]
  rw [if_neg fun hk => ?_, h]
  cases hmay k hk with
  | inl hnone => exact absurd (h.symm.trans hnone) (by simp)
  | inr ht => exact hu (Option.some.inj (h.symm.trans ht))

theorem Server.locks_lock_self {rows : List K} (h : k ∈ rows ∨ s.locks k = some t) :
    (s.lock t rows).locks k = some t := by
  simp only [Server.lock]
  by_cases hk : k ∈ rows
  · rw [if_pos hk]
  · rw [if_neg hk, h.resolve_left hk]

end Lock

end MysqlBench.Lib
