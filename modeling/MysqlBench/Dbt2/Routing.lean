import MysqlBench.Lib.Interleave

/-!
# Routing of requests (`listener.c`, `transaction_queue.c`, `db_threadpool.c`)

The client process has a listener thread for each connection and a pool of workers with a connection to the
database each. A connection is a node with its socket. A listener reads a request into its node and puts the
node into the queue; it then takes whichever node comes back first, so that the nodes wander from listener to
listener. A worker takes a node from the queue, executes the request, answers on the socket of the node and
puts the node into the free list. Two semaphores count the lists, and two tables of counters tell how many
requests of each kind are queued and executing.

`step` has one action for each section under a mutex and each semaphore operation. `received`, `enqueued`,
`taken` and `answered` are not in the program: they keep what has happened. `init_listener` is one action
(`accept`): it has a new node, a new socket and a new thread. A listener sees that its connection is closed
when it reads from the socket of the node it has, so no request of that connection is under way then.
-/

namespace MysqlBench.Dbt2

open Lib

inductive Transaction where
  | delivery
  | newOrder
  | orderStatus
  | payment
  | stockLevel
  deriving DecidableEq

/-! ## The process -/

structure Request (S D : Type) where
  socket : S
  transaction : Transaction
  data : D
  deriving DecidableEq

structure Node (S D : Type) where
  s : S
  request : Request S D

/-- Where a listener is: there is no such thread, before `receive_transaction_data`, in
`enqueue_transaction` before the counter and before the queue, and in `get_node` before `sem_wait` and before
the list. -/
inductive Listener (N : Type) where
  | absent
  | receiving (n : N)
  | counting (n : N)
  | linking (n : N)
  | waiting
  | taking

/-- Where a worker is: in `dequeue_transaction` before `sem_wait`, before the queue and before the two
counters, before `process_transaction`, before `send_transaction_data`, before the counter, and before
`recycle_node`. -/
inductive Worker (N : Type) where
  | waiting
  | taking
  | uncounting (n : N)
  | counting (n : N)
  | processing (n : N)
  | sending (n : N)
  | finishing (n : N)
  | recycling (n : N)

/-- `L` and `W` are the listeners and the workers, `N` the addresses of nodes, `S` the sockets. -/
structure Client (L W N S D : Type) where
  node : N → Node S D
  allocated : N → Bool
  isOpen : S → Bool
  listener : L → Listener N
  worker : W → Worker N
  queue : List N
  free : List N
  queueLength : Nat
  freeCount : Nat
  queuedCounter : Transaction → Int
  executingCounter : Transaction → Int
  exited : Bool
  received : List (Request S D)
  enqueued : List (Request S D)
  taken : List (Request S D)
  answered : List (S × Request S D)

inductive Action (L W N S D : Type) where
  | accept (l : L) (n : N) (s : S)
  | receive (l : L) (transaction : Transaction) (data : D)
  | receiveError (l : L)
  | closed (l : L)
  | listen (l : L)
  | work (w : W)

section Step

variable {L W N S D : Type} [DecidableEq L] [DecidableEq W] [DecidableEq N] [DecidableEq S]

def Client.initial (node : N → Node S D) : Client L W N S D :=
  { node, allocated := fun _ => false, isOpen := fun _ => false, listener := fun _ => .absent,
    worker := fun _ => .waiting, queue := [], free := [], queueLength := 0, freeCount := 0,
    queuedCounter := fun _ => 0, executingCounter := fun _ => 0, exited := false, received := [],
    enqueued := [], taken := [], answered := [] }

def Client.setListener (s : Client L W N S D) (l : L) (pc : Listener N) : Client L W N S D :=
  { s with listener := Function.update s.listener l pc }

def Client.setWorker (s : Client L W N S D) (w : W) (pc : Worker N) : Client L W N S D :=
  { s with worker := Function.update s.worker w pc }

def Client.request (s : Client L W N S D) (n : N) : Request S D := (s.node n).request

def Client.kind (s : Client L W N S D) (n : N) : Transaction := (s.request n).transaction

def bump (counter : Transaction → Int) (t : Transaction) (by' : Int) : Transaction → Int :=
  Function.update counter t (counter t + by')

def Client.listen (s : Client L W N S D) (l : L) : Option (Client L W N S D) :=
  match s.listener l with
  | .counting n =>
    some ({ s with queuedCounter := bump s.queuedCounter (s.kind n) 1 }.setListener l (.linking n))
  | .linking n =>
    some ({ s with
      queue := s.queue ++ [n]
      queueLength := s.queueLength + 1
      enqueued := s.enqueued ++ [s.request n] }.setListener l .waiting)
  | .waiting =>
    if s.freeCount = 0 then none
    else some ({ s with freeCount := s.freeCount - 1 }.setListener l .taking)
  | .taking =>
    match s.free with
    | [] => some { s with exited := true }
    | n :: rest => some ({ s with free := rest }.setListener l (.receiving n))
  | _ => none

def Client.work (s : Client L W N S D) (w : W) : Option (Client L W N S D) :=
  match s.worker w with
  | .waiting =>
    if s.queueLength = 0 then none
    else some ({ s with queueLength := s.queueLength - 1 }.setWorker w .taking)
  | .taking =>
    match s.queue with
    | [] => some (s.setWorker w .waiting)
    | n :: rest =>
      some ({ s with queue := rest, taken := s.taken ++ [s.request n] }.setWorker w (.uncounting n))
  | .uncounting n =>
    some ({ s with queuedCounter := bump s.queuedCounter (s.kind n) (-1) }.setWorker w (.counting n))
  | .counting n =>
    some ({ s with executingCounter := bump s.executingCounter (s.kind n) 1 }.setWorker w (.processing n))
  | .processing n => some (s.setWorker w (.sending n))
  | .sending n =>
    some ({ s with answered := s.answered ++ [((s.node n).s, s.request n)] }.setWorker w (.finishing n))
  | .finishing n =>
    some ({ s with executingCounter := bump s.executingCounter (s.kind n) (-1) }.setWorker w (.recycling n))
  | .recycling n =>
    some ({ s with free := s.free ++ [n], freeCount := s.freeCount + 1 }.setWorker w .waiting)

def Client.accept (s : Client L W N S D) (l : L) (n : N) (sock : S) : Option (Client L W N S D) :=
  match s.listener l with
  | .absent =>
    if s.allocated n || s.isOpen sock then none
    else
      some ({ s with
        node := Function.update s.node n { s.node n with s := sock }
        allocated := Function.update s.allocated n true
        isOpen := Function.update s.isOpen sock true }.setListener l (.receiving n))
  | _ => none

def Client.receive (s : Client L W N S D) (l : L) (transaction : Transaction) (data : D) :
    Option (Client L W N S D) :=
  match s.listener l with
  | .receiving n =>
    let request := ⟨(s.node n).s, transaction, data⟩
    some ({ s with
      node := Function.update s.node n { s.node n with request }
      received := s.received ++ [request] }.setListener l (.counting n))
  | _ => none

def Client.closed (s : Client L W N S D) (l : L) : Option (Client L W N S D) :=
  match s.listener l with
  | .receiving n =>
    some ({ s with
      allocated := Function.update s.allocated n false
      isOpen := Function.update s.isOpen (s.node n).s false }.setListener l .absent)
  | _ => none

def Client.receiveError (s : Client L W N S D) (l : L) : Option (Client L W N S D) :=
  match s.listener l with
  | .receiving _ => some s
  | _ => none

def step (s : Client L W N S D) (a : Action L W N S D) : Option (Client L W N S D) :=
  if s.exited then none
  else
    match a with
    | .accept l n sock => s.accept l n sock
    | .receive l transaction data => s.receive l transaction data
    | .receiveError l => s.receiveError l
    | .closed l => s.closed l
    | .listen l => s.listen l
    | .work w => s.work w

/-! ## What a step can do -/

inductive Move (s : Client L W N S D) : Client L W N S D → Prop
  | accept (l : L) (n : N) (sock : S) (hpc : s.listener l = .absent) (hn : s.allocated n = false)
      (hsock : s.isOpen sock = false) :
      Move s ({ s with
        node := Function.update s.node n { s.node n with s := sock }
        allocated := Function.update s.allocated n true
        isOpen := Function.update s.isOpen sock true }.setListener l (.receiving n))
  | receive (l : L) (n : N) (r : Request S D) (hpc : s.listener l = .receiving n)
      (hr : r.socket = (s.node n).s) :
      Move s ({ s with
        node := Function.update s.node n { s.node n with request := r }
        received := s.received ++ [r] }.setListener l (.counting n))
  | closed (l : L) (n : N) (hpc : s.listener l = .receiving n) :
      Move s ({ s with
        allocated := Function.update s.allocated n false
        isOpen := Function.update s.isOpen (s.node n).s false }.setListener l .absent)
  | stay : Move s s
  | count (l : L) (n : N) (hpc : s.listener l = .counting n) :
      Move s ({ s with queuedCounter := bump s.queuedCounter (s.kind n) 1 }.setListener l (.linking n))
  | link (l : L) (n : N) (hpc : s.listener l = .linking n) :
      Move s ({ s with
        queue := s.queue ++ [n]
        queueLength := s.queueLength + 1
        enqueued := s.enqueued ++ [s.request n] }.setListener l .waiting)
  | waitFree (l : L) (hpc : s.listener l = .waiting) (hfree : s.freeCount ≠ 0) :
      Move s ({ s with freeCount := s.freeCount - 1 }.setListener l .taking)
  | exit (l : L) (hpc : s.listener l = .taking) (hfree : s.free = []) : Move s { s with exited := true }
  | getNode (l : L) (n : N) (rest : List N) (hpc : s.listener l = .taking) (hfree : s.free = n :: rest) :
      Move s ({ s with free := rest }.setListener l (.receiving n))
  | waitQueue (w : W) (hpc : s.worker w = .waiting) (hqueue : s.queueLength ≠ 0) :
      Move s ({ s with queueLength := s.queueLength - 1 }.setWorker w .taking)
  | null (w : W) (hpc : s.worker w = .taking) (hqueue : s.queue = []) : Move s (s.setWorker w .waiting)
  | dequeue (w : W) (n : N) (rest : List N) (hpc : s.worker w = .taking) (hqueue : s.queue = n :: rest) :
      Move s ({ s with queue := rest, taken := s.taken ++ [s.request n] }.setWorker w (.uncounting n))
  | uncount (w : W) (n : N) (hpc : s.worker w = .uncounting n) :
      Move s ({ s with queuedCounter := bump s.queuedCounter (s.kind n) (-1) }.setWorker w (.counting n))
  | begin (w : W) (n : N) (hpc : s.worker w = .counting n) :
      Move s ({ s with
        executingCounter := bump s.executingCounter (s.kind n) 1 }.setWorker w (.processing n))
  | process (w : W) (n : N) (hpc : s.worker w = .processing n) : Move s (s.setWorker w (.sending n))
  | send (w : W) (n : N) (hpc : s.worker w = .sending n) :
      Move s ({ s with
        answered := s.answered ++ [((s.node n).s, s.request n)] }.setWorker w (.finishing n))
  | finish (w : W) (n : N) (hpc : s.worker w = .finishing n) :
      Move s ({ s with
        executingCounter := bump s.executingCounter (s.kind n) (-1) }.setWorker w (.recycling n))
  | recycle (w : W) (n : N) (hpc : s.worker w = .recycling n) :
      Move s ({ s with free := s.free ++ [n], freeCount := s.freeCount + 1 }.setWorker w .waiting)

variable {s s' : Client L W N S D}

theorem move_of_listen {l : L} (h : s.listen l = some s') : Move s s' := by
  unfold Client.listen at h
  cases hpc : s.listener l with
  | counting n =>
    rw [hpc] at h
    exact Option.some.inj h ▸ .count l n hpc
  | linking n =>
    rw [hpc] at h
    exact Option.some.inj h ▸ .link l n hpc
  | waiting =>
    rw [hpc] at h
    obtain ⟨hfree, heq⟩ := Option.ite_none_left_eq_some.mp h
    exact Option.some.inj heq ▸ .waitFree l hpc hfree
  | taking =>
    simp only [hpc] at h
    split at h
    case h_1 hfree => exact Option.some.inj h ▸ .exit l hpc hfree
    case h_2 n rest hfree => exact Option.some.inj h ▸ .getNode l n rest hpc hfree
  | absent => simp [hpc] at h
  | receiving n => simp [hpc] at h

theorem move_of_work {w : W} (h : s.work w = some s') : Move s s' := by
  unfold Client.work at h
  cases hpc : s.worker w with
  | waiting =>
    rw [hpc] at h
    obtain ⟨hqueue, heq⟩ := Option.ite_none_left_eq_some.mp h
    exact Option.some.inj heq ▸ .waitQueue w hpc hqueue
  | taking =>
    simp only [hpc] at h
    split at h
    case h_1 hqueue => exact Option.some.inj h ▸ .null w hpc hqueue
    case h_2 n rest hqueue => exact Option.some.inj h ▸ .dequeue w n rest hpc hqueue
  | uncounting n =>
    rw [hpc] at h
    exact Option.some.inj h ▸ .uncount w n hpc
  | counting n =>
    rw [hpc] at h
    exact Option.some.inj h ▸ .begin w n hpc
  | processing n =>
    rw [hpc] at h
    exact Option.some.inj h ▸ .process w n hpc
  | sending n =>
    rw [hpc] at h
    exact Option.some.inj h ▸ .send w n hpc
  | finishing n =>
    rw [hpc] at h
    exact Option.some.inj h ▸ .finish w n hpc
  | recycling n =>
    rw [hpc] at h
    exact Option.some.inj h ▸ .recycle w n hpc

theorem step_move {a : Action L W N S D} (h : step s a = some s') : s.exited = false ∧ Move s s' := by
  unfold step at h
  obtain ⟨hexited, h⟩ := Option.ite_none_left_eq_some.mp h
  refine ⟨eq_false_of_ne_true hexited, ?_⟩
  cases a with
  | accept l n sock =>
    simp only [Client.accept] at h
    split at h
    case h_1 hpc =>
      obtain ⟨hnew, heq⟩ := Option.ite_none_left_eq_some.mp h
      obtain ⟨hn, hsock⟩ := Bool.or_eq_false_iff.mp (eq_false_of_ne_true hnew)
      exact Option.some.inj heq ▸ .accept l n sock hpc hn hsock
    case h_2 => exact absurd h (by simp)
  | receive l transaction data =>
    simp only [Client.receive] at h
    split at h
    case h_1 n hpc => exact Option.some.inj h ▸ .receive l n ⟨(s.node n).s, transaction, data⟩ hpc rfl
    case h_2 => exact absurd h (by simp)
  | receiveError l =>
    simp only [Client.receiveError] at h
    split at h
    case h_1 n hpc => exact Option.some.inj h ▸ .stay
    case h_2 => exact absurd h (by simp)
  | closed l =>
    simp only [Client.closed] at h
    split at h
    case h_1 n hpc => exact Option.some.inj h ▸ .closed l n hpc
    case h_2 => exact absurd h (by simp)
  | listen l => exact move_of_listen h
  | work w => exact move_of_work h

end Step

end MysqlBench.Dbt2
