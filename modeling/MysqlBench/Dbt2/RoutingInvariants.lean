import MysqlBench.Dbt2.Routing

/-!
# Requests are routed exactly once

The invariants of the routing, each kept by every step (`Move`).

* `Placed`: a node is in one place as long as it is allocated, and in none otherwise; the open sockets are
  those of the allocated nodes, one each.
* `Semaphores`: the value of a semaphore and the threads between its `sem_wait` and the list make up the
  length of the list. So whoever gets to a list finds a node.
* `Counters`: each counter is the number of nodes that count for it.
* `Logs`: requests leave the queue in the order in which they came in, and each is with a thread, in the queue
  or answered.

A node changes only while one listener has it and nobody else does, so what the others know about their
nodes stays true.
-/

set_option autoImplicit false

namespace MysqlBench.Dbt2

open Lib

/-! ## What a thread has -/

section Has

variable {N : Type}

@[simp] def Listener.node? : Listener N → Option N
  | .receiving n => some n
  | .counting n => some n
  | .linking n => some n
  | _ => none

@[simp] def Listener.pending? : Listener N → Option N
  | .counting n => some n
  | .linking n => some n
  | _ => none

@[simp] def Listener.counted? : Listener N → Option N
  | .linking n => some n
  | _ => none

@[simp] def Listener.isTaking : Listener N → Bool
  | .taking => true
  | _ => false

@[simp] def Worker.node? : Worker N → Option N
  | .waiting => none
  | .taking => none
  | .uncounting n => some n
  | .counting n => some n
  | .processing n => some n
  | .sending n => some n
  | .finishing n => some n
  | .recycling n => some n

@[simp] def Worker.unanswered? : Worker N → Option N
  | .uncounting n => some n
  | .counting n => some n
  | .processing n => some n
  | .sending n => some n
  | _ => none

@[simp] def Worker.counted? : Worker N → Option N
  | .uncounting n => some n
  | _ => none

@[simp] def Worker.executing? : Worker N → Option N
  | .processing n => some n
  | .sending n => some n
  | .finishing n => some n
  | _ => none

@[simp] def Worker.isTaking : Worker N → Bool
  | .taking => true
  | _ => false

theorem Listener.node?_of_pending? {pc : Listener N} {n : N} (h : pc.pending? = some n) :
    pc.node? = some n := by
  cases pc <;> first | exact h | exact absurd h (by simp [Listener.pending?])

theorem Worker.node?_of_unanswered? {pc : Worker N} {n : N} (h : pc.unanswered? = some n) :
    pc.node? = some n := by
  cases pc <;> first | exact h | exact absurd h (by simp [Worker.unanswered?])

theorem Worker.node?_of_executing? {pc : Worker N} {n : N} (h : pc.executing? = some n) :
    pc.node? = some n := by
  cases pc <;> first | exact h | exact absurd h (by simp [Worker.executing?])

end Has

section Tallies

variable {T P M : Type} [Fintype T] {f : P → Option M} {pc : T → P}

theorem tally_eq_zero {q : M → Bool} (h : ∀ t, f (pc t) = none) : tally f q pc = 0 :=
  threadCount_eq_zero.mpr fun t => by rw [h t]; rfl

theorem exists_of_tally_pos [DecidableEq M] {n : M} (h : 0 < tally f (· = n) pc) :
    ∃ t, f (pc t) = some n := by
  by_contra hnone
  refine absurd (threadCount_eq_zero.mpr fun t => ?_) h.ne'
  cases hf : f (pc t) with
  | none => rfl
  | some m =>
    have hmn : m ≠ n := fun heq => hnone ⟨t, heq ▸ hf⟩
    simpa using hmn

theorem eq_of_tally_le_one [DecidableEq T] [DecidableEq M] {n : M} (h : tally f (· = n) pc ≤ 1) {t u : T}
    (ht : f (pc t) = some n) (hu : f (pc u) = some n) : t = u :=
  eq_of_threadCount_le_one h (by simp [ht]) (by simp [hu])

end Tallies

/-! ## The invariants

Each of the four says how one part of the state hangs together with where the threads are.
-/

section States

variable {L W N S D : Type} [Fintype L] [Fintype W] {s : Client L W N S D} {n : N} {l : L}

structure Semaphores (s : Client L W N S D) : Prop where
  queue : s.queueLength + threadCount Worker.isTaking s.worker = s.queue.length
  free : s.freeCount + threadCount Listener.isTaking s.listener = s.free.length

theorem Semaphores.free_ne_nil (h : Semaphores s) (hpc : s.listener l = .taking) : s.free ≠ [] := by
  have hpos := @threadCount_pos _ _ _ Listener.isTaking s.listener l (by rw [hpc]; rfl)
  have hfree := h.free
  exact List.ne_nil_of_length_pos (by omega)

theorem Semaphores.queue_ne_nil (h : Semaphores s) {w : W} (hpc : s.worker w = .taking) : s.queue ≠ [] := by
  have hpos := @threadCount_pos _ _ _ Worker.isTaking s.worker w (by rw [hpc]; rfl)
  have hqueue := h.queue
  exact List.ne_nil_of_length_pos (by omega)

def Client.Known (s : Client L W N S D) (n : N) : Prop :=
  (∃ l, (s.listener l).pending? = some n) ∨ n ∈ s.queue ∨ ∃ w, (s.worker w).node? = some n

def Client.queuedBy (s : Client L W N S D) (q : N → Bool) : Nat :=
  tally Listener.counted? q s.listener + s.queue.countP q + tally Worker.counted? q s.worker

theorem Client.queuedBy_congr {q q' : N → Bool} (h : ∀ n, s.Known n → q n = q' n) :
    s.queuedBy q = s.queuedBy q' := by
  unfold Client.queuedBy
  rw [tally_congr fun l n hn => h n (.inl ⟨l, by cases hpc : s.listener l <;> simp_all⟩),
    tally_congr fun w n hn => h n (.inr (.inr ⟨w, by cases hpc : s.worker w <;> simp_all⟩)),
    List.countP_congr fun n hn => by rw [h n (.inr (.inl hn))]]

structure Counters (s : Client L W N S D) : Prop where
  queued : ∀ t, s.queuedCounter t = s.queuedBy fun n => s.kind n = t
  executing : ∀ t, s.executingCounter t = tally Worker.executing? (fun n => s.kind n = t) s.worker

variable [DecidableEq N]

def Client.copies (s : Client L W N S D) (n : N) : Nat :=
  tally Listener.node? (· = n) s.listener + s.queue.count n + tally Worker.node? (· = n) s.worker +
    s.free.count n

structure Placed (s : Client L W N S D) : Prop where
  copies : ∀ n, s.copies n = (s.allocated n).toNat
  sockets : ∀ m n, s.allocated m = true → s.allocated n = true → (s.node m).s = (s.node n).s → m = n
  opened : ∀ sock, s.isOpen sock = true ↔ ∃ n, s.allocated n = true ∧ (s.node n).s = sock

theorem Placed.allocated (h : Placed s) (hpos : 0 < s.copies n) : s.allocated n = true := by
  rw [h.copies] at hpos
  cases hn : s.allocated n with
  | true => rfl
  | false => exact absurd (hn ▸ hpos) (by decide)

theorem Placed.listener_allocated (h : Placed s) (hl : (s.listener l).node? = some n) :
    s.allocated n = true := by
  refine h.allocated ?_
  have := tally_pos (q := (· = n)) hl (by simp)
  unfold Client.copies
  omega

theorem Placed.copies_le (h : Placed s) (n : N) : s.copies n ≤ 1 := by
  rw [h.copies]
  exact Bool.toNat_le _

/-! ## The place of a node -/

inductive Place (L W : Type) where
  | listener (l : L)
  | queue (i : Nat)
  | worker (w : W)
  | free (i : Nat)

def Client.At (s : Client L W N S D) (n : N) : Place L W → Prop
  | .listener l => (s.listener l).node? = some n
  | .queue i => s.queue[i]? = some n
  | .worker w => (s.worker w).node? = some n
  | .free i => s.free[i]? = some n

def Client.copiesLike (s : Client L W N S D) (n : N) : Place L W → Nat
  | .listener _ => tally Listener.node? (· = n) s.listener
  | .queue _ => s.queue.count n
  | .worker _ => tally Worker.node? (· = n) s.worker
  | .free _ => s.free.count n

theorem Client.At.pos {p : Place L W} (h : s.At n p) : 0 < s.copiesLike n p := by
  cases p with
  | listener l => exact tally_pos h (by simp)
  | queue i => exact List.count_pos_iff.mpr (List.mem_of_getElem? h)
  | worker w => exact tally_pos h (by simp)
  | free i => exact List.count_pos_iff.mpr (List.mem_of_getElem? h)

theorem Placed.exists_at (h : Placed s) (hn : s.allocated n = true) : ∃ p, s.At n p := by
  have hcopies := h.copies n
  rw [hn, Client.copies] at hcopies
  by_cases hl : 0 < tally Listener.node? (· = n) s.listener
  · obtain ⟨l, hl⟩ := exists_of_tally_pos hl
    exact ⟨.listener l, hl⟩
  by_cases hw : 0 < tally Worker.node? (· = n) s.worker
  · obtain ⟨w, hw⟩ := exists_of_tally_pos hw
    exact ⟨.worker w, hw⟩
  by_cases hq : n ∈ s.queue
  · obtain ⟨i, hi⟩ := List.mem_iff_getElem?.mp hq
    exact ⟨.queue i, hi⟩
  by_cases hf : n ∈ s.free
  · obtain ⟨i, hi⟩ := List.mem_iff_getElem?.mp hf
    exact ⟨.free i, hi⟩
  rw [List.count_eq_zero.mpr hq, List.count_eq_zero.mpr hf] at hcopies
  have : true.toNat = 1 := rfl
  omega

theorem eq_of_count_le_one {l : List N} (h : ∀ n, l.count n ≤ 1) {i j : Nat} (hi : l[i]? = some n)
    (hj : l[j]? = some n) : i = j := by
  obtain ⟨hi, rfl⟩ := List.getElem?_eq_some_iff.mp hi
  obtain ⟨hj, heq⟩ := List.getElem?_eq_some_iff.mp hj
  exact ((List.nodup_iff_count_le_one.mpr h).getElem_inj_iff.mp heq).symm

section Unique

variable [DecidableEq L] [DecidableEq W]

theorem Placed.at_unique (h : Placed s) (p p' : Place L W) (hp : s.At n p) (hp' : s.At n p') :
    p = p' := by
  have hle := fun n => h.copies_le n
  simp only [Client.copies] at hle
  have hn := hle n
  have h₁ := hp.pos
  have h₂ := hp'.pos
  cases p with
  | listener l =>
    cases p' with
    | listener l' => rw [eq_of_tally_le_one (by omega) hp hp']
    | _ => simp only [Client.copiesLike] at h₁ h₂; omega
  | queue i =>
    cases p' with
    | queue j => rw [eq_of_count_le_one (fun m => by have := hle m; omega) hp hp']
    | _ => simp only [Client.copiesLike] at h₁ h₂; omega
  | worker w =>
    cases p' with
    | worker w' => rw [eq_of_tally_le_one (by omega) hp hp']
    | _ => simp only [Client.copiesLike] at h₁ h₂; omega
  | free i =>
    cases p' with
    | free j => rw [eq_of_count_le_one (fun m => by have := hle m; omega) hp hp']
    | _ => simp only [Client.copiesLike] at h₁ h₂; omega

theorem Placed.receiving (h : Placed s) (hpc : s.listener l = .receiving n) :
    n ∉ s.queue ∧ (∀ w, (s.worker w).node? ≠ some n) ∧
      ∀ l', (s.listener l').pending? ≠ some n := by
  have hat : s.At n (.listener l) := by rw [Client.At, hpc]; rfl
  refine ⟨fun hq => ?_, fun w hw => ?_, fun l' hl' => ?_⟩
  · obtain ⟨i, hi⟩ := List.mem_iff_getElem?.mp hq
    exact absurd (h.at_unique _ (.queue i) hat hi) (by simp)
  · exact absurd (h.at_unique _ (.worker w) hat hw) (by simp)
  · have hsame := h.at_unique _ (.listener l') hat (Listener.node?_of_pending? hl')
    cases hsame
    rw [hpc] at hl'
    exact absurd hl' (by simp)

end Unique

/-! ## All together -/

variable [DecidableEq S] [DecidableEq D]

structure Logs (s : Client L W N S D) : Prop where
  arrived : ∀ r, s.received.count r =
    s.enqueued.count r + tally Listener.pending? (fun n => s.request n = r) s.listener
  order : s.enqueued = s.taken ++ s.queue.map s.request
  served : ∀ r, s.taken.count r =
    (s.answered.map Prod.snd).count r + tally Worker.unanswered? (fun n => s.request n = r) s.worker
  socket : ∀ n, s.Known n → (s.request n).socket = (s.node n).s
  answered : ∀ p ∈ s.answered, p.2.socket = p.1

structure RoutingInv (s : Client L W N S D) : Prop where
  running : s.exited = false
  placed : Placed s
  semaphores : Semaphores s
  counters : Counters s
  logs : Logs s

theorem routingInv_initial (node : N → Node S D) : RoutingInv (Client.initial node : Client L W N S D) where
  running := rfl
  placed := by
    refine ⟨fun n => ?_, fun m n hm => absurd hm (by simp [Client.initial]), fun sock => ?_⟩
    · rw [Client.copies, tally_eq_zero fun _ => rfl, tally_eq_zero fun _ => rfl]
      rfl
    · simp [Client.initial]
  semaphores := by
    refine ⟨?_, ?_⟩
    · rw [threadCount_eq_zero.mpr fun _ => rfl]
      rfl
    · rw [threadCount_eq_zero.mpr fun _ => rfl]
      rfl
  counters := by
    refine ⟨fun t => ?_, fun t => ?_⟩
    · rw [Client.queuedBy, tally_eq_zero fun _ => rfl, tally_eq_zero fun _ => rfl]
      rfl
    · rw [tally_eq_zero fun _ => rfl]
      rfl
  logs := by
    refine ⟨fun r => ?_, rfl, fun r => ?_, fun n hn => ?_, List.forall_mem_nil _⟩
    · rw [tally_eq_zero fun _ => rfl]
      rfl
    · rw [tally_eq_zero fun _ => rfl]
      rfl
    · obtain ⟨l, hl⟩ | hq | ⟨w, hw⟩ := hn
      · exact absurd hl (by simp [Client.initial])
      · exact absurd hq List.not_mem_nil
      · exact absurd hw (by simp [Client.initial])

structure Routed (s : Client L W N S D) : Prop where
  running : s.exited = false
  /-- Connections and nodes. -/
  node : ∀ sock, s.isOpen sock = true → ∃! n, s.allocated n = true ∧ (s.node n).s = sock
  place : ∀ n, s.allocated n = true → ∃! p, s.At n p
  /-- The lists are as long as their semaphores promise. -/
  queueLength : s.queueLength ≤ s.queue.length
  freeCount : s.freeCount ≤ s.free.length
  queueFound : ∀ w, s.worker w = .taking → s.queue ≠ []
  freeFound : ∀ l, s.listener l = .taking → s.free ≠ []
  /-- A request that has arrived is with a listener or enqueued; what is enqueued is taken in that order; and
  what is taken is with a worker or answered, on the socket on which it arrived. -/
  arrived : ∀ r, s.received.count r =
    s.enqueued.count r + tally Listener.pending? (fun n => s.request n = r) s.listener
  order : s.enqueued = s.taken ++ s.queue.map s.request
  served : ∀ r, s.taken.count r =
    (s.answered.map Prod.snd).count r + tally Worker.unanswered? (fun n => s.request n = r) s.worker
  answered : ∀ p ∈ s.answered, p.2.socket = p.1
  /-- The counters. -/
  nonneg : ∀ t, 0 ≤ s.queuedCounter t ∧ 0 ≤ s.executingCounter t
  zero : (∀ l, (s.listener l).counted? = none) → s.queue = [] →
    (∀ w, (s.worker w).counted? = none ∧ (s.worker w).executing? = none) →
    ∀ t, s.queuedCounter t = 0 ∧ s.executingCounter t = 0

theorem RoutingInv.routed [DecidableEq L] [DecidableEq W] (h : RoutingInv s) : Routed s where
  running := h.running
  node := by
    intro sock hopen
    obtain ⟨n, hn, hsock⟩ := (h.placed.opened sock).mp hopen
    exact ⟨n, ⟨hn, hsock⟩, fun m hm => h.placed.sockets m n hm.1 hn (hm.2.trans hsock.symm)⟩
  place := by
    intro n hn
    obtain ⟨p, hp⟩ := h.placed.exists_at hn
    exact ⟨p, hp, fun p' hp' => h.placed.at_unique p' p hp' hp⟩
  queueLength := by
    have := h.semaphores.queue
    omega
  freeCount := by
    have := h.semaphores.free
    omega
  queueFound := fun _ => h.semaphores.queue_ne_nil
  freeFound := fun _ => h.semaphores.free_ne_nil
  arrived := h.logs.arrived
  order := h.logs.order
  served := h.logs.served
  answered := h.logs.answered
  nonneg := by
    intro t
    rw [h.counters.queued, h.counters.executing]
    exact ⟨Int.natCast_nonneg _, Int.natCast_nonneg _⟩
  zero := by
    intro hl hq hw t
    rw [h.counters.queued, h.counters.executing, Client.queuedBy, hq, tally_eq_zero hl,
      tally_eq_zero fun w => (hw w).1, tally_eq_zero fun w => (hw w).2]
    exact ⟨rfl, rfl⟩

end States

/-! ## What a step does to them -/

section Steps

variable {L W N S D : Type} [DecidableEq L] [DecidableEq W] [DecidableEq N] [DecidableEq S]
  {s s' : Client L W N S D} {m n : N}

-- What a thread has before and after its move decides how the tallies change (`tally_move`).
attribute [local grind] Listener.node? Listener.pending? Listener.counted? Listener.isTaking Worker.node?
  Worker.unanswered? Worker.counted? Worker.executing? Worker.isTaking
attribute [local grind =] Function.update_apply

theorem known_step (hmove : Move s s') (hm : s'.Known m) :
    s.Known m ∨ ∃ l, s.listener l = .receiving m ∧ (s'.request m).socket = (s'.node m).s := by
  unfold Client.Known Client.request at *
  cases hmove
  all_goals try simp only [Client.setListener, Client.setWorker] at hm ⊢
  all_goals grind

variable [Fintype L] [Fintype W]

theorem copies_step (h : ∀ n, s.copies n = (s.allocated n).toNat) (hmove : Move s s') (m : N) :
    s'.copies m = (s'.allocated m).toNat := by
  have hm := h m
  have hle := Bool.toNat_le (s.allocated m)
  unfold Client.copies at hm ⊢
  cases hmove
  case closed l n hpc =>
    have hpos := @tally_pos _ _ _ _ Listener.node? (· = m) s.listener l n
    simp only [Client.setListener]
    grind
  all_goals try simp only [Client.setListener, Client.setWorker]
  all_goals grind

theorem placed_step (h : Placed s) (hmove : Move s s') : Placed s' := by
  have hsockets := h.sockets
  have hopened := h.opened
  refine ⟨copies_step h.copies hmove, ?_, ?_⟩
  all_goals
    cases hmove
    case accept l n sock hpc hn hsock =>
      simp only [Client.setListener, Function.update_apply]
      grind
    case closed l n hpc =>
      have hn := h.listener_allocated (l := l) (n := n) (by rw [hpc]; rfl)
      simp only [Client.setListener]
      grind
    all_goals try simp only [Client.setListener, Client.setWorker]
    all_goals grind

theorem semaphores_step (h : Semaphores s) (hmove : Move s s') : Semaphores s' := by
  have hqueue := h.queue
  have hfree := h.free
  constructor
  all_goals
    cases hmove
    case null w hpc hnil => exact absurd hnil (h.queue_ne_nil hpc)
    all_goals try simp only [Client.setListener, Client.setWorker]
    all_goals grind

theorem request_stable (hplaced : Placed s) (hmove : Move s s') (hm : s.Known m) :
    s'.request m = s.request m := by
  cases hmove
  case accept l n sock hpc hn hsock =>
    show (Function.update s.node n { s.node n with s := sock } m).request = (s.node m).request
    grind
  case receive l n r hpc hr =>
    have hnot := hplaced.receiving hpc
    have hmn : m ≠ n := by
      unfold Client.Known at hm
      grind
    show (Function.update s.node n { s.node n with request := r } m).request = (s.node m).request
    rw [Function.update_of_ne hmn]
  all_goals rfl

theorem socket_stable (hplaced : Placed s) (hmove : Move s s') (hm : s.Known m) :
    (s'.node m).s = (s.node m).s := by
  cases hmove
  case accept l n sock hpc hn hsock =>
    have hallocated : s.allocated m = true := by
      refine hplaced.allocated ?_
      unfold Client.copies
      obtain ⟨l', hl'⟩ | hq | ⟨w, hw⟩ := hm
      · have := tally_pos (q := (· = m)) (Listener.node?_of_pending? hl') (by simp)
        omega
      · have := List.count_pos_iff.mpr hq
        omega
      · have := tally_pos (q := (· = m)) hw (by simp)
        omega
    show (Function.update s.node n { s.node n with s := sock } m).s = (s.node m).s
    grind
  case receive l n r hpc hr =>
    show (Function.update s.node n { s.node n with request := r } m).s = (s.node m).s
    grind
  all_goals rfl

/-! ### The counters -/

theorem bump_apply (counter : Transaction → Int) (t t' : Transaction) (b : Int) :
    bump counter t b t' = counter t' + if t = t' then b else 0 := by
  unfold bump
  by_cases h : t = t'
  · rw [h, Function.update_self, if_pos rfl]
  · rw [Function.update_of_ne (Ne.symm h), if_neg h, add_zero]

theorem kind_stable (hplaced : Placed s) (hmove : Move s s') (hn : s.Known n) :
    s'.kind n = s.kind n := by
  rw [Client.kind, Client.kind, request_stable hplaced hmove hn]

theorem queued_step (hplaced : Placed s) (h : Counters s) (hmove : Move s s') (t : Transaction) :
    s'.queuedCounter t = s'.queuedBy fun n => s'.kind n = t := by
  have hkind := fun n => kind_stable (n := n) hplaced hmove
  have ht : s.queuedCounter t = s.queuedBy fun n => s'.kind n = t := by
    rw [h.queued t]
    exact congrArg Nat.cast (Client.queuedBy_congr fun n hn => by rw [hkind n hn])
  -- From here on the kinds are fixed.
  generalize s'.kind = kind at ht hkind ⊢
  unfold Client.queuedBy at ht ⊢
  unfold Client.Known at hkind
  cases hmove
  all_goals try simp only [Client.setListener, Client.setWorker, bump_apply]
  all_goals grind

theorem executing_step (hplaced : Placed s) (h : Counters s) (hmove : Move s s') (t : Transaction) :
    s'.executingCounter t = tally Worker.executing? (fun n => s'.kind n = t) s'.worker := by
  have hkind := fun n => kind_stable (n := n) hplaced hmove
  have ht : s.executingCounter t = tally Worker.executing? (fun n => s'.kind n = t) s.worker := by
    rw [h.executing t]
    refine congrArg Nat.cast (tally_congr fun w n hn => ?_)
    rw [hkind n (.inr (.inr ⟨w, Worker.node?_of_executing? hn⟩))]
  generalize s'.kind = kind at ht hkind ⊢
  unfold Client.Known at hkind
  cases hmove
  all_goals try simp only [Client.setListener, Client.setWorker, bump_apply]
  all_goals grind

theorem counters_step (hplaced : Placed s) (h : Counters s) (hmove : Move s s') : Counters s' :=
  ⟨queued_step hplaced h hmove, executing_step hplaced h hmove⟩

/-! ### What happens to a request -/

variable [DecidableEq D]

theorem order_step (hplaced : Placed s) (h : Logs s) (hmove : Move s s') :
    s'.enqueued = s'.taken ++ s'.queue.map s'.request := by
  have hmap : s.enqueued = s.taken ++ s.queue.map s'.request := by
    rw [h.order, List.map_congr_left fun n hn => (request_stable hplaced hmove (.inr (.inl hn))).symm]
  generalize hrequest : s'.request = request at hmap ⊢
  cases hmove
  case link l n hpc =>
    have hn : s.request n = request n := congrFun hrequest n
    simp only [Client.setListener, List.map_append, List.map_singleton, hmap, hn, List.append_assoc]
  case dequeue w n rest hpc hqueue =>
    have hn : s.request n = request n := congrFun hrequest n
    rw [hqueue, List.map_cons] at hmap
    simp only [Client.setWorker, hmap, hn, List.append_assoc, List.singleton_append]
  all_goals exact hmap

theorem arrived_step (hplaced : Placed s) (h : Logs s) (hmove : Move s s') (r : Request S D) :
    s'.received.count r =
      s'.enqueued.count r + tally Listener.pending? (fun n => s'.request n = r) s'.listener := by
  have hr : s.received.count r =
      s.enqueued.count r + tally Listener.pending? (fun n => s'.request n = r) s.listener := by
    rw [h.arrived r]
    congr 1
    exact tally_congr fun l n hn => by rw [request_stable hplaced hmove (.inl ⟨l, hn⟩)]
  generalize hrequest : s'.request = request at hr ⊢
  cases hmove
  case receive l n r' hpc _ =>
    have hn : r' = request n := by
      rw [← hrequest]
      show r' = (Function.update s.node n { s.node n with request := r' } n).request
      rw [Function.update_self]
    simp only [Client.setListener]
    grind
  case link l n hpc =>
    have hn : s.request n = request n := congrFun hrequest n
    simp only [Client.setListener]
    grind
  all_goals try simp only [Client.setListener, Client.setWorker]
  all_goals grind

theorem served_step (hplaced : Placed s) (h : Logs s) (hmove : Move s s') (r : Request S D) :
    s'.taken.count r = (s'.answered.map Prod.snd).count r +
      tally Worker.unanswered? (fun n => s'.request n = r) s'.worker := by
  have hrequest := fun n => request_stable (m := n) hplaced hmove
  have hr : s.taken.count r = (s.answered.map Prod.snd).count r +
      tally Worker.unanswered? (fun n => s'.request n = r) s.worker := by
    rw [h.served r]
    congr 1
    refine tally_congr fun w n hn => ?_
    rw [hrequest n (.inr (.inr ⟨w, Worker.node?_of_unanswered? hn⟩))]
  generalize s'.request = request at hr hrequest ⊢
  unfold Client.Known at hrequest
  cases hmove
  all_goals try simp only [Client.setListener, Client.setWorker]
  all_goals grind

theorem socket_step (hplaced : Placed s) (h : Logs s) (hmove : Move s s') (n : N) (hn : s'.Known n) :
    (s'.request n).socket = (s'.node n).s := by
  cases known_step hmove hn with
  | inl hknown =>
    rw [request_stable hplaced hmove hknown, socket_stable hplaced hmove hknown]
    exact h.socket n hknown
  | inr hnew =>
    obtain ⟨_, _, hsocket⟩ := hnew
    exact hsocket

theorem answered_step (h : Logs s) (hmove : Move s s') : ∀ p ∈ s'.answered, p.2.socket = p.1 := by
  cases hmove
  case send w n hpc =>
    intro p hp
    cases List.mem_append.mp hp with
    | inl hp => exact h.answered p hp
    | inr hp =>
      rw [List.mem_singleton.mp hp]
      exact h.socket n (.inr (.inr ⟨w, by rw [hpc]; rfl⟩))
  all_goals exact h.answered

theorem logs_step (hplaced : Placed s) (h : Logs s) (hmove : Move s s') : Logs s' :=
  ⟨arrived_step hplaced h hmove, order_step hplaced h hmove, served_step hplaced h hmove,
    socket_step hplaced h hmove, answered_step h hmove⟩

theorem routingInv_step {a : Action L W N S D} (h : RoutingInv s) (hstep : step s a = some s') :
    RoutingInv s' := by
  obtain ⟨hrunning, hmove⟩ := step_move hstep
  refine ⟨?_, placed_step h.placed hmove, semaphores_step h.semaphores hmove,
    counters_step h.placed h.counters hmove, logs_step h.placed h.logs hmove⟩
  cases hmove
  case exit l hpc hnil => exact absurd hnil (h.semaphores.free_ne_nil hpc)
  all_goals exact hrunning

end Steps

/-- **Requests are routed once.** In every interleaving of any number of connections and workers, a
request that was received is with one thread, in the queue, or answered on the socket it came from,
and the counters are zero when nothing is under way. A node is never in two places, and the
semaphores let no thread to an empty list, so it does not matter that the listeners exchange their
nodes. -/
theorem requests_routed {L W N S D : Type} [DecidableEq L] [DecidableEq W] [DecidableEq N] [DecidableEq S]
    [DecidableEq D] [Fintype L] [Fintype W] (node : N → Node S D) (s : Client L W N S D)
    (h : Reachable step (Client.initial node) s) : Routed s :=
  (h.invariant (routingInv_initial node) fun _ _ _ hs hstep => routingInv_step hs hstep).routed

/-- Two connections send a request each, two workers answer them in turn, and each listener goes on with the
node of the other. -/
def twoRequests : List (Action Bool Bool Bool Bool Unit) :=
  [.accept false false false, .accept true true true, .receive false .payment (), .receive true .newOrder (),
    .listen false, .listen true, .listen true, .listen false] ++
    (List.replicate 8 [.work false, .work true]).flatten ++
    [.listen false, .listen true, .listen false, .listen true]

theorem requests_routed_two : ∃ s : Client Bool Bool Bool Bool Unit,
    Reachable step (Client.initial fun _ => ⟨true, ⟨true, .delivery, ()⟩⟩) s ∧
      s.answered = [(true, ⟨true, .newOrder, ()⟩), (false, ⟨false, .payment, ()⟩)] ∧
      (s.listener false).node? = some true ∧ Routed s := by
  have hrun : (runSteps step (Client.initial fun _ => ⟨true, ⟨true, .delivery, ()⟩⟩) twoRequests).map
      (fun s => (s.answered, (s.listener false).node?)) =
      some ([(true, ⟨true, .newOrder, ()⟩), (false, ⟨false, .payment, ()⟩)], some true) := by decide +kernel
  obtain ⟨s, hs, heq⟩ := Option.map_eq_some_iff.mp hrun
  obtain ⟨hanswered, hnode⟩ := Prod.mk.inj heq
  have hreach := Reachable.runSteps twoRequests .start hs
  exact ⟨s, hreach, hanswered, hnode, requests_routed _ s hreach⟩

end MysqlBench.Dbt2
