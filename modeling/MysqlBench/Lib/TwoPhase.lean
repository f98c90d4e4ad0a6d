import MysqlBench.Lib.Interleave

/-!
# Transactions under strict two-phase locking

A transaction is a program of statements on single rows of a keyed store (`Prog`): a row is read for
update or written, and each of the two first takes the lock of its row; the lock is kept until the
transaction commits or rolls back. `Prog.exec` runs a program alone. `stepTx` runs any number of
threads, each with at most one transaction open, statement by statement in any order: a transaction
sees the committed store with its own writes over it, a lock that another thread holds stops it, and at
any point the server may make it fail.

Three facts hold of every interleaving.

* The store is what the committed transactions give if they are executed one after another in the order
  of their commits, with the results they were committed with (`execAll_log`). The invariant behind it,
  `Tracks`, says that an open transaction is where its program would be if it were run alone from the
  committed store, or from any store that agrees with it on the rows the transaction has locked.
* What every write of every program keeps true of the rows stays true of them, committed or not
  (`values_ok`).
* If every program asks for its locks in one order of the rows, no circle of threads that wait for one
  another's locks can form (`not_waits_cycle`).
-/

set_option autoImplicit false

namespace MysqlBench.Lib

/-! ## Programs -/

/-- The statements that are left of a transaction. `pass` is a statement that touches no row other
transactions write. -/
inductive Prog (K V α : Type) where
  | commit (result : α)
  | rollback
  | pass (next : Prog K V α)
  | read (k : K) (next : V → Prog K V α)
  | write (k : K) (v : V) (next : Prog K V α)

namespace Prog

variable {K V α : Type}

/-- The program run alone: the store it leaves and its result, or nothing if it rolls back. -/
def exec [DecidableEq K] : Prog K V α → (K → V) → Option ((K → V) × α)
  | commit a, store => some (store, a)
  | rollback, _ => none
  | pass next, store => next.exec store
  | read k next, store => (next (store k)).exec store
  | write k v next, store => next.exec (Function.update store k v)

/-- Programs run one after another, each of which commits: the store they leave and their results. -/
def execAll [DecidableEq K] : List (Prog K V α) → (K → V) → Option ((K → V) × List α)
  | [], store => some (store, [])
  | p :: ps, store =>
    (p.exec store).bind fun r => (execAll ps r.1).map fun q => (q.1, r.2 :: q.2)

theorem execAll_snoc [DecidableEq K] {ps : List (Prog K V α)} {p : Prog K V α}
    {store store' store'' : K → V} {as : List α} {a : α} (h : execAll ps store = some (store', as))
    (hp : p.exec store' = some (store'', a)) :
    execAll (ps ++ [p]) store = some (store'', as ++ [a]) := by
  induction ps generalizing store as with
  | nil =>
    simp only [execAll, Option.some.injEq, Prod.mk.injEq] at h
    obtain ⟨rfl, rfl⟩ := h
    simp only [List.nil_append, execAll, hp, Option.bind_some, Option.map_some]
  | cons q ps ih =>
    simp only [execAll] at h
    obtain ⟨r, hr, hrest⟩ := Option.bind_eq_some_iff.mp h
    obtain ⟨r', hr', heq⟩ := Option.map_eq_some_iff.mp hrest
    simp only [Prod.mk.injEq] at heq
    obtain ⟨rfl, rfl⟩ := heq
    simp only [List.cons_append, execAll, hr, Option.bind_some, ih hr', Option.map_some]

def asks : Prog K V α → Option K
  | read k _ => some k
  | write k _ _ => some k
  | _ => none

def Keeps (P : K → V → Prop) : Prog K V α → Prop
  | commit _ => True
  | rollback => True
  | pass next => next.Keeps P
  | read k next => ∀ v, P k v → (next v).Keeps P
  | write k v next => P k v ∧ next.Keeps P

def Ascends {R : Type} [LinearOrder R] (rank : K → R) : WithBot R → Prog K V α → Prop
  | _, commit _ => True
  | _, rollback => True
  | b, pass next => next.Ascends rank b
  | b, read k next => b ≤ rank k ∧ ∀ v, (next v).Ascends rank (rank k)
  | b, write k _ next => b ≤ rank k ∧ next.Ascends rank (rank k)

end Prog

/-! ## The system -/

section System

variable {T K V α : Type}

structure Session (K V α : Type) where
  whole : Prog K V α
  rest : Prog K V α
  own : K → Option V

def Session.view (x : Session K V α) (store : K → V) : K → V := fun k => (x.own k).getD (store k)

section View

variable {x : Session K V α} {k : K}

theorem Session.view_of_own {store : K → V} (h : x.own k = none) : x.view store k = store k := by
  rw [Session.view, h, Option.getD_none]

theorem Session.view_congr {store store' : K → V} (h : store' k = store k) :
    x.view store' k = x.view store k := by
  rw [Session.view, Session.view, h]

theorem Session.view_write [DecidableEq K] (x : Session K V α) (rest : Prog K V α) (store : K → V) (k : K) (v : V) :
    Session.view ⟨x.whole, rest, Function.update x.own k (some v)⟩ store =
      Function.update (x.view store) k v := by
  funext j
  by_cases hj : j = k
  · rw [hj]
    simp only [Session.view, Function.update_self, Option.getD_some]
  · simp only [Session.view, Function.update_of_ne hj]

end View

/-- `log` lists the committed transactions with their results, in the order of their commits. -/
structure TxState (T K V α : Type) where
  store : K → V
  locks : K → Option T
  sessions : T → Option (Session K V α)
  log : List (Prog K V α × α)

def TxState.initial (store : K → V) : TxState T K V α := ⟨store, fun _ => none, fun _ => none, []⟩

/-- What can happen next: a thread begins a transaction, its next statement is executed, or the
server makes it fail. -/
inductive TxAction (T K V α : Type) where
  | begin (t : T) (p : Prog K V α)
  | statement (t : T)
  | fail (t : T)

variable [DecidableEq T] [DecidableEq K]

def TxState.close (s : TxState T K V α) (t : T) : TxState T K V α :=
  { s with
    locks := fun k => if s.locks k = some t then none else s.locks k
    sessions := Function.update s.sessions t none }

def TxState.put (s : TxState T K V α) (t : T) (x : Session K V α) : TxState T K V α :=
  { s with sessions := Function.update s.sessions t (some x) }

def TxState.putLocked (s : TxState T K V α) (t : T) (k : K) (x : Session K V α) :
    TxState T K V α :=
  { s.put t x with locks := Function.update s.locks k (some t) }

def TxState.MayLock (s : TxState T K V α) (t : T) (k : K) : Prop :=
  s.locks k = none ∨ s.locks k = some t

instance (s : TxState T K V α) (t : T) (k : K) : Decidable (s.MayLock t k) :=
  inferInstanceAs (Decidable (_ ∨ _))

def TxState.statement (s : TxState T K V α) (t : T) (x : Session K V α) :
    Option (TxState T K V α) :=
  match x.rest with
  | .commit a => some { s.close t with store := x.view s.store, log := s.log ++ [(x.whole, a)] }
  | .rollback => some (s.close t)
  | .pass next => some (s.put t { x with rest := next })
  | .read k next =>
    if s.MayLock t k then some (s.putLocked t k { x with rest := next (x.view s.store k) }) else none
  | .write k v next =>
    if s.MayLock t k then
      some (s.putLocked t k { x with rest := next, own := Function.update x.own k (some v) })
    else none

def stepTx (s : TxState T K V α) : TxAction T K V α → Option (TxState T K V α)
  | .begin t p =>
    if s.sessions t = none then some (s.put t ⟨p, p, fun _ => none⟩) else none
  | .statement t => (s.sessions t).bind (s.statement t)
  | .fail t => (s.sessions t).map fun _ => s.close t

inductive TxMove (s : TxState T K V α) : TxAction T K V α → TxState T K V α → Prop
  | begin (t : T) (p : Prog K V α) (h : s.sessions t = none) :
      TxMove s (.begin t p) (s.put t ⟨p, p, fun _ => none⟩)
  | commit (t : T) (x : Session K V α) (a : α) (h : s.sessions t = some x) (hrest : x.rest = .commit a) :
      TxMove s (.statement t)
        { s.close t with store := x.view s.store, log := s.log ++ [(x.whole, a)] }
  | rollback (t : T) (x : Session K V α) (h : s.sessions t = some x) (hrest : x.rest = .rollback) :
      TxMove s (.statement t) (s.close t)
  | pass (t : T) (x : Session K V α) (next : Prog K V α) (h : s.sessions t = some x)
      (hrest : x.rest = .pass next) : TxMove s (.statement t) (s.put t { x with rest := next })
  | read (t : T) (x : Session K V α) (k : K) (next : V → Prog K V α) (h : s.sessions t = some x)
      (hrest : x.rest = .read k next) (hlock : s.MayLock t k) :
      TxMove s (.statement t) (s.putLocked t k { x with rest := next (x.view s.store k) })
  | write (t : T) (x : Session K V α) (k : K) (v : V) (next : Prog K V α) (h : s.sessions t = some x)
      (hrest : x.rest = .write k v next) (hlock : s.MayLock t k) :
      TxMove s (.statement t)
        (s.putLocked t k { x with rest := next, own := Function.update x.own k (some v) })
  | fail (t : T) (x : Session K V α) (h : s.sessions t = some x) : TxMove s (.fail t) (s.close t)

theorem stepTx_move {s s' : TxState T K V α} {a : TxAction T K V α} (h : stepTx s a = some s') :
    TxMove s a s' := by
  cases a with
  | begin t p =>
    rw [stepTx] at h
    by_cases hnone : s.sessions t = none
    · rw [if_pos hnone] at h
      exact Option.some.inj h ▸ .begin t p hnone
    · rw [if_neg hnone] at h
      exact absurd h (by simp)
  | statement t =>
    obtain ⟨x, hx, hst⟩ := Option.bind_eq_some_iff.mp h
    unfold TxState.statement at hst
    cases hrest : x.rest with
    | commit a =>
      rw [hrest] at hst
      exact Option.some.inj hst ▸ .commit t x a hx hrest
    | rollback =>
      rw [hrest] at hst
      exact Option.some.inj hst ▸ .rollback t x hx hrest
    | pass next =>
      rw [hrest] at hst
      exact Option.some.inj hst ▸ .pass t x next hx hrest
    | read k next =>
      rw [hrest] at hst
      obtain ⟨hlock, heq⟩ := Option.ite_none_right_eq_some.mp hst
      exact Option.some.inj heq ▸ .read t x k next hx hrest hlock
    | write k v next =>
      rw [hrest] at hst
      obtain ⟨hlock, heq⟩ := Option.ite_none_right_eq_some.mp hst
      exact Option.some.inj heq ▸ .write t x k v next hx hrest hlock
  | fail t =>
    obtain ⟨x, hx, heq⟩ := Option.map_eq_some_iff.mp h
    exact heq ▸ .fail t x hx

end System

/-! ## The sessions and locks after a step -/

section Steps

variable {T K V α : Type} [DecidableEq T] {s : TxState T K V α} {t u : T} {y x : Session K V α} {k j : K}

theorem TxState.sessions_close
    (h : (s.close t).sessions u = some y) : u ≠ t ∧ s.sessions u = some y := by
  by_cases hu : u = t
  · rw [hu] at h
    simp only [TxState.close, Function.update_self] at h
    exact absurd h (by simp)
  · simp only [TxState.close, Function.update_of_ne hu] at h
    exact ⟨hu, h⟩

theorem TxState.sessions_put
    (h : (s.put t x).sessions u = some y) : (u = t ∧ y = x) ∨ (u ≠ t ∧ s.sessions u = some y) := by
  by_cases hu : u = t
  · rw [hu] at h
    simp only [TxState.put, Function.update_self, Option.some.injEq] at h
    exact .inl ⟨hu, h.symm⟩
  · simp only [TxState.put, Function.update_of_ne hu] at h
    exact .inr ⟨hu, h⟩

theorem TxState.locks_close (k : K) (hu : u ≠ t) :
    (s.close t).locks k = some u ↔ s.locks k = some u := by
  simp only [TxState.close]
  by_cases hk : s.locks k = some t
  · rw [if_pos hk, hk]
    exact ⟨fun h => absurd h (by simp), fun h => absurd (Option.some.inj h) hu.symm⟩
  · rw [if_neg hk]

variable [DecidableEq K]

theorem TxState.locks_putLocked (k : K)
    (hlock : s.MayLock t j) (hu : u ≠ t) :
    (s.putLocked t j x).locks k = some u ↔ s.locks k = some u := by
  simp only [TxState.putLocked]
  by_cases hk : k = j
  · rw [hk, Function.update_self]
    constructor
    · exact fun h => absurd (Option.some.inj h) hu.symm
    · intro h
      cases hlock with
      | inl hnone => exact absurd (h.symm.trans hnone) (by simp)
      | inr ht => exact absurd (Option.some.inj (h.symm.trans ht)) hu
  · rw [Function.update_of_ne hk]

theorem TxState.locks_putLocked_self (k : K) :
    (s.putLocked t j x).locks k = some t ↔ k = j ∨ s.locks k = some t := by
  simp only [TxState.putLocked]
  by_cases hk : k = j
  · rw [hk, Function.update_self]
    exact ⟨fun _ => .inl rfl, fun _ => rfl⟩
  · rw [Function.update_of_ne hk]
    exact ⟨.inr, fun h => h.resolve_left hk⟩

end Steps

/-! ## The committed transactions are serial -/

section Serial

variable {T K V α : Type} [DecidableEq K] {s s' : TxState T K V α} {t : T} {x : Session K V α} {k : K}

/-- The writes of an open transaction are to rows it has locked, and running its program alone, from
any store that agrees with the committed one on those rows, comes to where the transaction is. -/
structure Tracks (s : TxState T K V α) (t : T) (x : Session K V α) : Prop where
  locked : ∀ k, x.own k ≠ none → s.locks k = some t
  exec : ∀ store', (∀ k, s.locks k = some t → store' k = s.store k) →
    x.whole.exec store' = x.rest.exec (x.view store')

theorem Tracks.congr (h : Tracks s t x)
    (hlocks : ∀ k, s'.locks k = some t ↔ s.locks k = some t)
    (hstore : ∀ k, s.locks k = some t → s'.store k = s.store k) : Tracks s' t x := by
  refine ⟨fun k hk => (hlocks k).mpr (h.locked k hk), fun store' hagree => h.exec store' fun k hk => ?_⟩
  rw [hagree k ((hlocks k).mpr hk), hstore k hk]

theorem Tracks.begin (s : TxState T K V α) (t : T) (p : Prog K V α) :
    Tracks s t ⟨p, p, fun _ => none⟩ := ⟨fun _ h => absurd rfl h, fun _ _ => rfl⟩

theorem Tracks.pass {next : Prog K V α} (h : Tracks s t x) (hrest : x.rest = .pass next) : Tracks s t { x with rest := next } := by
  refine ⟨h.locked, fun store' hagree => (h.exec store' hagree).trans ?_⟩
  rw [hrest]
  rfl

structure Serial (start : K → V) (s : TxState T K V α) : Prop where
  tracks : ∀ t x, s.sessions t = some x → Tracks s t x
  log : Prog.execAll (s.log.map Prod.fst) start = some (s.store, s.log.map Prod.snd)

variable [DecidableEq T]

theorem Tracks.read
    {next : V → Prog K V α} (h : Tracks s t x) (hrest : x.rest = .read k next) :
    Tracks (s.putLocked t k { x with rest := next (x.view s.store k) }) t
      { x with rest := next (x.view s.store k) } := by
  refine ⟨fun j hj => (TxState.locks_putLocked_self j).mpr (.inr (h.locked j hj)),
    fun store' hagree => ?_⟩
  have hk : store' k = s.store k := hagree k ((TxState.locks_putLocked_self k).mpr (.inl rfl))
  rw [h.exec store' fun j hj => hagree j ((TxState.locks_putLocked_self j).mpr (.inr hj)), hrest,
    Prog.exec, Session.view_congr hk]
  rfl

theorem Tracks.write {v : V}
    {next : Prog K V α} (h : Tracks s t x) (hrest : x.rest = .write k v next) :
    Tracks (s.putLocked t k { x with rest := next, own := Function.update x.own k (some v) }) t
      { x with rest := next, own := Function.update x.own k (some v) } := by
  constructor
  · intro j hj
    rw [TxState.locks_putLocked_self]
    by_cases hjk : j = k
    · exact .inl hjk
    · exact .inr (h.locked j (by simpa only [Function.update_of_ne hjk] using hj))
  · intro store' hagree
    rw [Session.view_write, h.exec store' fun j hj =>
      hagree j ((TxState.locks_putLocked_self j).mpr (.inr hj)), hrest, Prog.exec]

theorem Serial.step {start : K → V} {a : TxAction T K V α}
    (h : Serial start s) (hmove : TxMove s a s') : Serial start s' := by
  -- In each case the transaction that moves is one of the lemmas above and the others keep theirs.
  cases hmove with
  | begin t p hnone =>
    refine ⟨fun u y hy => ?_, h.log⟩
    cases TxState.sessions_put hy with
    | inl hu =>
      rw [hu.1, hu.2]
      exact Tracks.begin _ t p
    | inr hu => exact (h.tracks u y hu.2).congr (fun _ => Iff.rfl) (fun _ _ => rfl)
  | commit t x a hx hrest =>
    have hexec : x.whole.exec s.store = some (x.view s.store, a) := by
      rw [(h.tracks t x hx).exec s.store fun _ _ => rfl, hrest, Prog.exec]
    refine ⟨fun u y hy => ?_, ?_⟩
    · obtain ⟨hu, hy'⟩ := TxState.sessions_close hy
      refine (h.tracks u y hy').congr (fun k => TxState.locks_close k hu) fun k hk => ?_
      refine Session.view_of_own (not_not.mp fun hown => hu ?_)
      exact Option.some.inj (hk.symm.trans ((h.tracks t x hx).locked k hown))
    · simp only [List.map_append, List.map_cons, List.map_nil]
      exact Prog.execAll_snoc h.log hexec
  | rollback t x hx hrest =>
    refine ⟨fun u y hy => ?_, h.log⟩
    obtain ⟨hu, hy'⟩ := TxState.sessions_close hy
    exact (h.tracks u y hy').congr (fun k => TxState.locks_close k hu) fun _ _ => rfl
  | pass t x next hx hrest =>
    refine ⟨fun u y hy => ?_, h.log⟩
    cases TxState.sessions_put hy with
    | inl hu =>
      rw [hu.1, hu.2]
      exact ((h.tracks t x hx).pass hrest).congr (fun _ => Iff.rfl) fun _ _ => rfl
    | inr hu => exact (h.tracks u y hu.2).congr (fun _ => Iff.rfl) (fun _ _ => rfl)
  | read t x k next hx hrest hlock =>
    refine ⟨fun u y hy => ?_, h.log⟩
    cases TxState.sessions_put hy with
    | inl hu =>
      rw [hu.1, hu.2]
      exact (h.tracks t x hx).read hrest
    | inr hu =>
      exact (h.tracks u y hu.2).congr (fun j => TxState.locks_putLocked j hlock hu.1) fun _ _ => rfl
  | write t x k v next hx hrest hlock =>
    refine ⟨fun u y hy => ?_, h.log⟩
    cases TxState.sessions_put hy with
    | inl hu =>
      rw [hu.1, hu.2]
      exact (h.tracks t x hx).write hrest
    | inr hu =>
      exact (h.tracks u y hu.2).congr (fun j => TxState.locks_putLocked j hlock hu.1) fun _ _ => rfl
  | fail t x hx =>
    refine ⟨fun u y hy => ?_, h.log⟩
    obtain ⟨hu, hy'⟩ := TxState.sessions_close hy
    exact (h.tracks u y hy').congr (fun k => TxState.locks_close k hu) fun _ _ => rfl

theorem execAll_log {start : K → V}
    (h : Reachable stepTx (TxState.initial start) s) :
    Prog.execAll (s.log.map Prod.fst) start = some (s.store, s.log.map Prod.snd) :=
  (h.invariant (P := Serial start) ⟨fun t x hx => absurd hx (by simp [TxState.initial]), rfl⟩
    fun _ _ _ hs hstep => hs.step (stepTx_move hstep)).log

end Serial

/-! ## The programs and what their writes keep true -/

section Programs

variable {T K V α : Type} {s s' : TxState T K V α} {t : T} {x : Session K V α} {ok : Prog K V α → Prop}
  {P : K → V → Prop}

def TxAction.Begins (ok : Prog K V α → Prop) : TxAction T K V α → Prop
  | .begin _ p => ok p
  | _ => True

structure Begun (ok : Prog K V α → Prop) (s : TxState T K V α) : Prop where
  sessions : ∀ t x, s.sessions t = some x → ok x.whole
  log : ∀ e ∈ s.log, ok e.1

structure ValuesOk (P : K → V → Prop) (s : TxState T K V α) : Prop where
  store : ∀ k, P k (s.store k)
  own : ∀ t x k v, s.sessions t = some x → x.own k = some v → P k v
  rest : ∀ t x, s.sessions t = some x → x.rest.Keeps P

theorem ValuesOk.view (h : ValuesOk P s) (hx : s.sessions t = some x) (k : K) : P k (x.view s.store k) := by
  cases hown : x.own k with
  | none =>
    rw [Session.view_of_own hown]
    exact h.store k
  | some v =>
    rw [Session.view, hown]
    exact h.own t x k v hx hown

variable [DecidableEq T]

theorem Begun.put (h : Begun ok s) (hsessions : s'.sessions = (s.put t x).sessions) (hlog : s'.log = s.log)
    (hx : ok x.whole) : Begun ok s' := by
  refine ⟨fun u y hy => ?_, hlog ▸ h.log⟩
  cases TxState.sessions_put (hsessions ▸ hy) with
  | inl hu => exact hu.2 ▸ hx
  | inr hu => exact h.sessions u y hu.2

theorem Begun.close (h : Begun ok s) (t : T) :
    Begun ok (s.close t) := ⟨fun u y hy => h.sessions u y (TxState.sessions_close hy).2, h.log⟩

theorem Begun.step [DecidableEq K] {a : TxAction T K V α}
    (h : Begun ok s) (hok : a.Begins ok) (hmove : TxMove s a s') : Begun ok s' := by
  cases hmove with
  | begin t p hnone => exact h.put rfl rfl hok
  | commit t x a hx hrest =>
    refine ⟨(h.close t).sessions, fun e he => ?_⟩
    cases List.mem_append.mp he with
    | inl he => exact h.log e he
    | inr he => exact List.mem_singleton.mp he ▸ h.sessions t x hx
  | rollback t x hx hrest => exact h.close t
  | pass t x next hx hrest => exact h.put rfl rfl (h.sessions t x hx)
  | read t x k next hx hrest hlock => exact h.put rfl rfl (h.sessions t x hx)
  | write t x k v next hx hrest hlock => exact h.put rfl rfl (h.sessions t x hx)
  | fail t x hx => exact h.close t

theorem log_begun [DecidableEq K] {start : K → V}
    (h : ReachableBy stepTx (fun _ a => a.Begins ok) (TxState.initial start) s) :
    ∀ e ∈ s.log, ok e.1 :=
  (h.invariant (P := Begun ok) ⟨fun _ _ hx => absurd hx (by simp [TxState.initial]),
      fun _ he => absurd he (by simp [TxState.initial])⟩
    fun _ _ _ hs hok hstep => hs.step hok (stepTx_move hstep)).log

theorem ValuesOk.put (h : ValuesOk P s) (hstore : s'.store = s.store)
    (hsessions : s'.sessions = (s.put t x).sessions) (hown : ∀ k v, x.own k = some v → P k v)
    (hrest : x.rest.Keeps P) : ValuesOk P s' := by
  refine ⟨fun k => hstore ▸ h.store k, fun u y k v hy hv => ?_, fun u y hy => ?_⟩
  · cases TxState.sessions_put (hsessions ▸ hy) with
    | inl hu => exact hown k v (hu.2 ▸ hv)
    | inr hu => exact h.own u y k v hu.2 hv
  · cases TxState.sessions_put (hsessions ▸ hy) with
    | inl hu => exact hu.2 ▸ hrest
    | inr hu => exact h.rest u y hu.2

theorem ValuesOk.close (h : ValuesOk P s) (t : T) :
    ValuesOk P (s.close t) :=
  ⟨h.store, fun u y k v hy hv => h.own u y k v (TxState.sessions_close hy).2 hv,
    fun u y hy => h.rest u y (TxState.sessions_close hy).2⟩

theorem ValuesOk.step [DecidableEq K] {a : TxAction T K V α}
    (h : ValuesOk P s) (hok : a.Begins (Prog.Keeps P)) (hmove : TxMove s a s') : ValuesOk P s' := by
  cases hmove with
  | begin t p hnone => exact h.put rfl rfl (fun _ _ hv => absurd hv (by simp)) hok
  | commit t x a hx hrest =>
    have hclosed := h.close t
    exact ⟨h.view hx, hclosed.own, hclosed.rest⟩
  | rollback t x hx hrest => exact h.close t
  | pass t x next hx hrest =>
    have hkeeps := h.rest t x hx
    rw [hrest] at hkeeps
    exact h.put rfl rfl (h.own t x · · hx) hkeeps
  | read t x k next hx hrest hlock =>
    have hkeeps := h.rest t x hx
    rw [hrest] at hkeeps
    exact h.put rfl rfl (h.own t x · · hx) (hkeeps _ (h.view hx k))
  | write t x k v next hx hrest hlock =>
    have hkeeps := h.rest t x hx
    rw [hrest] at hkeeps
    refine h.put rfl rfl (fun j w hw => ?_) hkeeps.2
    -- the written key holds the new value, the others what they held
    by_cases hj : j = k
    · rw [hj] at hw ⊢
      simp only [Function.update_self, Option.some.injEq] at hw
      exact hw ▸ hkeeps.1
    · simp only [Function.update_of_ne hj] at hw
      exact h.own t x j w hx hw
  | fail t x hx => exact h.close t

theorem values_ok [DecidableEq K] {start : K → V}
    (hstart : ∀ k, P k (start k))
    (h : ReachableBy stepTx (fun _ a => a.Begins (Prog.Keeps P)) (TxState.initial start) s) :
    ValuesOk P s :=
  h.invariant ⟨hstart, fun _ _ _ _ hx => absurd hx (by simp [TxState.initial]),
      fun _ _ hx => absurd hx (by simp [TxState.initial])⟩
    fun _ _ _ hs hok hstep => hs.step hok (stepTx_move hstep)

end Programs

/-! ## No circle of waiting threads -/

section Order

variable {T K V α : Type}

def Waits (s : TxState T K V α) (t u : T) : Prop :=
  ∃ x k, s.sessions t = some x ∧ x.rest.asks = some k ∧ s.locks k = some u ∧ u ≠ t

variable {R : Type} [LinearOrder R] (rank : K → R)

structure LocksBelow (s : TxState T K V α) : Prop where
  opened : ∀ k t, s.locks k = some t → s.sessions t ≠ none
  below : ∀ t x, s.sessions t = some x →
    ∃ b : WithBot R, x.rest.Ascends rank b ∧ ∀ k, s.locks k = some t → (rank k : WithBot R) ≤ b

variable {rank}

variable {s : TxState T K V α} {t : T} {x : Session K V α} {b : WithBot R} {k : K}

theorem Prog.Ascends.le_of_asks {p : Prog K V α} (h : p.Ascends rank b)
    (hasks : p.asks = some k) : b ≤ rank k := by
  cases p with
  | read j next =>
    rw [← Option.some.inj hasks]
    exact h.1
  | write j v next =>
    rw [← Option.some.inj hasks]
    exact h.1
  | commit a => exact absurd hasks (by simp [Prog.asks])
  | rollback => exact absurd hasks (by simp [Prog.asks])
  | pass next => exact absurd hasks (by simp [Prog.asks])

theorem rank_lt_of_waits (h : LocksBelow rank s) (hrank : Function.Injective rank)
    {u : T} {y : Session K V α} {j : K} (hx : s.sessions t = some x)
    (hj : x.rest.asks = some j) (hwait : Relation.TransGen (Waits s) t u) (hy : s.sessions u = some y)
    (hk : y.rest.asks = some k) (hblocked : s.locks k ≠ some u) : rank j < rank k := by
  induction hwait generalizing y k with
  | single hstep =>
    obtain ⟨x', j', hx', hj', hheld, _⟩ := hstep
    have hxx : x' = x := Option.some.inj (hx'.symm.trans hx)
    rw [hxx, hj] at hj'
    rw [← Option.some.inj hj'] at hheld
    obtain ⟨b, hb, hle⟩ := h.below _ y hy
    have hjk : rank j ≤ rank k := WithBot.coe_le_coe.mp ((hle j hheld).trans (hb.le_of_asks hk))
    refine lt_of_le_of_ne hjk fun heq => hblocked ?_
    rw [← hrank heq]
    exact hheld
  | tail _ hstep ih =>
    obtain ⟨z, i, hz, hi, hheld, hne⟩ := hstep
    have hrise : rank j < rank i := ih hz hi fun hself => hne (Option.some.inj (hheld.symm.trans hself))
    obtain ⟨b, hb, hle⟩ := h.below _ y hy
    have hik : rank i ≤ rank k := WithBot.coe_le_coe.mp ((hle i hheld).trans (hb.le_of_asks hk))
    exact hrise.trans_le hik

variable [DecidableEq T]

theorem LocksBelow.close (h : LocksBelow rank s) (t : T) :
    LocksBelow rank (s.close t) := by
  constructor
  · intro k u hk
    by_cases hu : u = t
    · simp only [TxState.close, hu] at hk
      by_cases hheld : s.locks k = some t
      · exact absurd hk (by rw [if_pos hheld]; simp)
      · exact absurd hk (by rw [if_neg hheld]; exact hheld)
    · simp only [TxState.close, Function.update_of_ne hu]
      exact h.opened k u ((TxState.locks_close k hu).mp hk)
  · intro u y hy
    obtain ⟨hu, hy'⟩ := TxState.sessions_close hy
    obtain ⟨b, hb, hle⟩ := h.below u y hy'
    exact ⟨b, hb, fun k hk => hle k ((TxState.locks_close k hu).mp hk)⟩

theorem LocksBelow.put (h : LocksBelow rank s) (hrest : x.rest.Ascends rank b)
    (hle : ∀ k, s.locks k = some t → (rank k : WithBot R) ≤ b) : LocksBelow rank (s.put t x) := by
  constructor
  · intro k u hk
    by_cases hu : u = t
    · simp [TxState.put, hu]
    · simp only [TxState.put, Function.update_of_ne hu]
      exact h.opened k u hk
  · intro u y hy
    cases TxState.sessions_put hy with
    | inl hu =>
      rw [hu.1, hu.2]
      exact ⟨b, hrest, hle⟩
    | inr hu => exact h.below u y hu.2

variable [DecidableEq K]

theorem LocksBelow.putLocked (h : LocksBelow rank s) (hlock : s.MayLock t k)
    (hle : ∀ j, s.locks j = some t → (rank j : WithBot R) ≤ b) (hb : b ≤ rank k)
    (hrest : x.rest.Ascends rank (rank k)) : LocksBelow rank (s.putLocked t k x) := by
  constructor
  · intro j u hj
    by_cases hu : u = t
    · simp [TxState.putLocked, TxState.put, hu]
    · simp only [TxState.putLocked, TxState.put, Function.update_of_ne hu]
      exact h.opened j u ((TxState.locks_putLocked j hlock hu).mp hj)
  · intro u y hy
    cases TxState.sessions_put hy with
    | inl hu =>
      rw [hu.1, hu.2]
      refine ⟨rank k, hrest, fun j hj => ?_⟩
      cases (TxState.locks_putLocked_self j).mp hj with
      | inl hjk => exact hjk ▸ le_rfl
      | inr hj => exact (hle j hj).trans hb
    | inr hu =>
      obtain ⟨b', hb', hle'⟩ := h.below u y hu.2
      exact ⟨b', hb', fun j hj => hle' j ((TxState.locks_putLocked j hlock hu.1).mp hj)⟩

theorem LocksBelow.step {s' : TxState T K V α} {a : TxAction T K V α} (h : LocksBelow rank s)
    (hok : a.Begins (Prog.Ascends rank ⊥)) (hmove : TxMove s a s') : LocksBelow rank s' := by
  cases hmove with
  | begin t p hnone => exact h.put hok fun k hk => absurd hnone (h.opened k t hk)
  | commit t x a hx hrest =>
    have hclosed := h.close t
    exact ⟨hclosed.opened, hclosed.below⟩
  | rollback t x hx hrest => exact h.close t
  | pass t x next hx hrest =>
    obtain ⟨b, hb, hle⟩ := h.below t x hx
    rw [hrest] at hb
    exact h.put hb hle
  | read t x k next hx hrest hlock =>
    obtain ⟨b, hb, hle⟩ := h.below t x hx
    rw [hrest] at hb
    exact h.putLocked hlock hle hb.1 (hb.2 _)
  | write t x k v next hx hrest hlock =>
    obtain ⟨b, hb, hle⟩ := h.below t x hx
    rw [hrest] at hb
    exact h.putLocked hlock hle hb.1 hb.2
  | fail t x hx => exact h.close t

theorem locks_below {start : K → V}
    (h : ReachableBy stepTx (fun _ a => a.Begins (Prog.Ascends rank ⊥)) (TxState.initial start) s) :
    LocksBelow rank s :=
  h.invariant ⟨fun _ _ hk => absurd hk (by simp [TxState.initial]),
      fun _ _ hx => absurd hx (by simp [TxState.initial])⟩
    fun _ _ _ hs hok hstep => hs.step hok (stepTx_move hstep)

/-- **Locks asked for in one order make no circle.** -/
theorem not_waits_cycle {start : K → V} (hrank : Function.Injective rank)
    (h : ReachableBy stepTx (fun _ a => a.Begins (Prog.Ascends rank ⊥)) (TxState.initial start) s)
    (t : T) : ¬Relation.TransGen (Waits s) t t := by
  intro hcycle
  -- The first thread of the circle waits itself, for the row it would then rank above.
  obtain ⟨u, ⟨x, k, hx, hk, hheld, hne⟩, _⟩ := Relation.TransGen.head'_iff.mp hcycle
  have hblocked : s.locks k ≠ some t := fun hself => hne (Option.some.inj (hheld.symm.trans hself))
  exact lt_irrefl _ (rank_lt_of_waits (locks_below h) hrank hx hk hcycle hx hk hblocked)

end Order

end MysqlBench.Lib
