import MysqlBench.Sysbench.EventQueue.Model

/-!
# Events are taken once and in order

The list holds the events that have been generated and not yet taken, in their order (`Ring`). The
generator stops as soon as the list is as long as the ring, so as long as it goes on, the list has less
elements than the ring, and the element it uses next, which is the one of the event `MAX_QUEUE_LEN`
events ago, has been taken (`fresh_elem`). So the time of an event stays what it was until a runner has
read it, and every runner computes the waiting time of the event it took (`event_queue_right`).
-/

namespace MysqlBench.Sysbench

open Lib

/-! ## What should hold -/

section Right

variable {T : Type} [DecidableEq T]

def GeneratorPc.elem? : GeneratorPc → Option Nat
  | write i | add i _ => some i
  | init | check _ | stopped => none

def takenBy (s : EventQueue T) (t : T) : List (TakenEvent T) :=
  s.taken.filter fun e => e.runner = t

def assignedBy (s : EventQueue T) (t : T) : List (AssignedTime T) :=
  s.assigned.filter fun a => a.runner = t

def ComputedFrom (a : AssignedTime T) (e : TakenEvent T) : Prop :=
  a.queueTime = waitingTime a.now e.event.time

structure QueueRight (s : EventQueue T) : Prop where
  /-- The list, which is empty before its initialization, is as long as it is said to be, not too long,
  and without the element that is written or added next. -/
  list : ∃ l, (if s.generator = .init then l = [] else s.links.Represents l) ∧
    s.eventQueueLength = l.length ∧ l.length ≤ maxQueueLen ∧
    ∀ i, s.generator.elem? = some i → i ∉ l
  /-- The events are taken in the order in which they were generated, each once. -/
  order : ∃ rest, s.generated = s.taken.map TakenEvent.event ++ rest
  /-- A runner computes the waiting times of the events that it took, in their order, up to one that it
  has just taken. -/
  waiting : ∀ t, ∃ es last, List.Forall₂ ComputedFrom (assignedBy s t) es ∧
    takenBy s t = es ++ last ∧ last.length = if s.pc t = .took then 1 else 0

end Right

/-! ## The ring -/

theorem maxQueueLen_pos : 0 < maxQueueLen := by decide

section Ring

variable {T : Type}

def InTurn (events : List QueueEvent) : Prop :=
  events.map QueueEvent.elem = (List.range events.length).map (· % maxQueueLen)

theorem InTurn.append {events : List QueueEvent} (h : InTurn events) (time : Nat) :
    InTurn (events ++ [⟨events.length % maxQueueLen, time⟩]) := by
  unfold InTurn at h ⊢
  rw [List.map_append, h, List.length_append, List.length_singleton, List.range_succ, List.map_append]
  rfl

theorem fresh_elem {done rest : List QueueEvent} (h : InTurn (done ++ rest))
    (hlt : rest.length < maxQueueLen) :
    (done ++ rest).length % maxQueueLen ∉ rest.map QueueEvent.elem := by
  intro hmem
  obtain ⟨k, hk, hget⟩ := List.getElem_of_mem hmem
  rw [List.length_map] at hk
  have helem : ((done ++ rest).map QueueEvent.elem)[done.length + k]? =
      some ((done ++ rest).length % maxQueueLen) := by
    rw [List.map_append, List.getElem?_append_right (by simp), List.length_map,
      Nat.add_sub_cancel_left, List.getElem?_eq_getElem (by simpa using hk), hget]
  rw [h, List.length_append, List.getElem?_map, List.getElem?_range (by omega),
    Option.map_some] at helem
  have hmod : done.length + k ≡ done.length + rest.length [MOD maxQueueLen] :=
    Option.some.inj helem
  have hkr := Nat.ModEq.add_left_cancel' done.length hmod
  unfold Nat.ModEq at hkr
  rw [Nat.mod_eq_of_lt (by omega), Nat.mod_eq_of_lt hlt] at hkr
  omega

theorem nextIndex_mod (k : Nat) : nextIndex (k % maxQueueLen) = (k + 1) % maxQueueLen := by
  have hlt := Nat.mod_lt k maxQueueLen_pos
  have hsucc : (k + 1) % maxQueueLen = (k % maxQueueLen + 1) % maxQueueLen :=
    (Nat.mod_add_mod k maxQueueLen 1).symm
  rw [hsucc]
  unfold nextIndex
  split_ifs with h
  · rw [show k % maxQueueLen + 1 = maxQueueLen by omega, Nat.mod_self]
  · exact (Nat.mod_eq_of_lt (by omega)).symm

def GeneratorPc.At : GeneratorPc → (events : Nat) → Prop
  | init, events => events = 0
  | write i, events | add i _, events => i = events % maxQueueLen
  | check i, events => ∃ k, events = k + 1 ∧ i = k % maxQueueLen
  | stopped, _ => True

def GeneratorPc.Going : GeneratorPc → Prop
  | init | write _ | add _ _ => True
  | check _ | stopped => False

attribute [local grind] GeneratorPc.elem? GeneratorPc.At GeneratorPc.Going
attribute [local grind =] Function.update_apply

@[grind cases]
structure Ring (s : EventQueue T) (rest : List QueueEvent) : Prop where
  split : s.generated = s.taken.map TakenEvent.event ++ rest
  length : s.eventQueueLength = rest.length
  links : s.generator ≠ .init → s.links.Represents (rest.map QueueEvent.elem)
  times : ∀ e ∈ rest, s.eventTime e.elem = e.time
  inTurn : InTurn s.generated
  at_ : s.generator.At s.generated.length
  added : ∀ i time, s.generator = .add i time → s.eventTime i = time
  notFull : s.queueIsFull = false → rest.length < maxQueueLen
  bound : rest.length ≤ maxQueueLen
  going : s.generator.Going → s.queueIsFull = false

theorem ring_init (links : Links Nat) (eventTime : Nat → Nat) (queueStartTime : T → Nat) :
    Ring (eventQueueInit links eventTime queueStartTime) [] where
  split := rfl
  length := rfl
  links h := absurd rfl h
  times _ h := absurd h List.not_mem_nil
  inTurn := rfl
  at_ := rfl
  added _ _ h := GeneratorPc.noConfusion h
  notFull _ := maxQueueLen_pos
  bound := Nat.zero_le _
  going _ := rfl

theorem Ring.fresh {s : EventQueue T} {rest : List QueueEvent} (h : Ring s rest) {i : Nat}
    (hi : s.generator.elem? = some i) : i ∉ rest.map QueueEvent.elem := by
  have hfresh := fun hlt => @fresh_elem (s.taken.map TakenEvent.event) rest (h.split ▸ h.inTurn) hlt
  rw [← h.split] at hfresh
  cases hg : s.generator <;> grind

/-! ## Steps of the generator -/

variable {s : EventQueue T} {rest : List QueueEvent} {i time : Nat}

theorem Ring.rest_of_init (h : Ring s rest) (hg : s.generator = .init) : rest = [] := by
  have hat := h.at_
  rw [hg] at hat
  have hsplit := h.split
  rw [List.length_eq_zero_iff.mp hat] at hsplit
  exact (List.append_eq_nil_iff.mp hsplit.symm).2

theorem Ring.initList (h : Ring s rest) (hg : s.generator = .init) :
    Ring { s with links := s.links.init, generator := .write 0 } rest := by
  obtain rfl := h.rest_of_init hg
  have hinit := Links.represents_init s.links
  have hzero := Nat.zero_mod maxQueueLen
  constructor <;> grind

theorem Ring.write (h : Ring s rest) (hg : s.generator = .write i) (now : Nat) :
    Ring { s with eventTime := Function.update s.eventTime i now, generator := .add i now } rest := by
  have hfresh := h.fresh (show s.generator.elem? = some i by rw [hg]; rfl)
  constructor <;> grind

theorem Ring.add (h : Ring s rest) (hg : s.generator = .add i time) :
    Ring (addEvent s i time) (rest ++ [⟨i, time⟩]) := by
  have hfresh := h.fresh (show s.generator.elem? = some i by rw [hg]; rfl)
  have hlinks := h.links (by rw [hg]; exact GeneratorPc.noConfusion)
  have htime := h.added i time hg
  have hturn := h.inTurn.append time
  have hadd := hlinks.addTail hfresh
  unfold addEvent
  constructor <;> grind

theorem Ring.advance (h : Ring s rest) (hg : s.generator = .check i) :
    Ring { s with generator := if s.queueIsFull then .stopped else .write (nextIndex i) } rest := by
  have hnext := nextIndex_mod
  cases hfull : s.queueIsFull <;> constructor <;> grind

theorem Ring.movePc (h : Ring s rest) (pc : T → TakerPc) (assigned : List (AssignedTime T)) :
    Ring { s with pc, assigned } rest :=
  ⟨h.split, h.length, h.links, h.times, h.inTurn, h.at_, h.added, h.notFull, h.bound, h.going⟩

end Ring

/-! ## Steps of the runners -/

section Takers

variable {T : Type} [DecidableEq T] {s : EventQueue T} {rest : List QueueEvent}

theorem Ring.take {e : QueueEvent} (h : Ring s (e :: rest)) (t : T) :
    Ring (takeEvent s t e.elem) rest ∧ s.links.next none = some e.elem := by
  have hg : s.generator ≠ .init := fun hg => List.cons_ne_nil _ _ (h.rest_of_init hg)
  have hlinks := h.links hg
  have htime := h.times e List.mem_cons_self
  have hlen := h.length
  rw [List.length_cons] at hlen
  have hbound := h.bound
  rw [List.length_cons] at hbound
  refine ⟨⟨?_, ?_, fun _ => hlinks.delete_head, fun f hf => h.times f (List.mem_cons_of_mem _ hf),
    h.inTurn, h.at_, h.added, fun hfull => ?_, by omega, h.going⟩, hlinks.next_none⟩
  · rw [takeEvent, htime, h.split, List.map_append, List.append_assoc]
    rfl
  · show s.eventQueueLength - 1 = rest.length
    omega
  · have := h.notFull hfull
    rw [List.length_cons] at this
    omega

structure Runner (s : EventQueue T) (t : T) : Prop where
  waiting : ∃ es last, List.Forall₂ ComputedFrom (assignedBy s t) es ∧ takenBy s t = es ++ last ∧
    (s.pc t = .took → ∃ e, last = [e] ∧ s.queueStartTime t = e.event.time) ∧
    (s.pc t ≠ .took → last = [])

theorem Runner.congr {s s' : EventQueue T} {t : T} (h : Runner s t)
    (htaken : takenBy s' t = takenBy s t) (hassigned : assignedBy s' t = assignedBy s t)
    (hpc : s'.pc t = s.pc t) (hstart : s'.queueStartTime t = s.queueStartTime t) : Runner s' t := by
  obtain ⟨es, last, hall, hsplit, hlast⟩ := h.waiting
  refine ⟨es, last, hassigned ▸ hall, htaken.trans hsplit, ?_⟩
  rwa [hpc, hstart]

structure QueueOk (s : EventQueue T) : Prop where
  ring : ∃ rest, Ring s rest
  runners : ∀ t, Runner s t

theorem takeSection_cases (h : Ring s rest) (t : T) : takeSection s t = s ∨
    ∃ e rest', rest = e :: rest' ∧ s.eventTime e.elem = e.time ∧ takeSection s t =
      { takeEvent s t e.elem with pc := Function.update s.pc t .took } := by
  cases rest with
  | nil => exact Or.inl (if_pos h.length)
  | cons e rest =>
    have hne : s.eventQueueLength ≠ 0 := by
      rw [h.length]
      exact Nat.succ_ne_zero _
    refine Or.inr ⟨e, rest, rfl, h.times e List.mem_cons_self, ?_⟩
    unfold takeSection
    rw [if_neg hne, (h.take t).2]
    rfl

theorem QueueOk.generator {s s' : EventQueue T} (h : QueueOk s) (hring : ∃ rest, Ring s' rest)
    (htaken : s'.taken = s.taken) (hassigned : s'.assigned = s.assigned) (hpc : s'.pc = s.pc)
    (hstart : s'.queueStartTime = s.queueStartTime) : QueueOk s' := by
  refine ⟨hring, fun t => (h.runners t).congr ?_ ?_ (by rw [hpc]) (by rw [hstart])⟩
  · rw [takenBy, takenBy, htaken]
  · rw [assignedBy, assignedBy, hassigned]

theorem QueueOk.test (h : QueueOk s) {t : T} {p : TakerPc} (ht : s.pc t = .top) (hp : p ≠ .took) :
    QueueOk { s with pc := Function.update s.pc t p } := by
  obtain ⟨rest, hring⟩ := h.ring
  refine ⟨⟨rest, hring.movePc _ s.assigned⟩, fun u => ?_⟩
  by_cases hu : u = t
  · subst hu
    obtain ⟨es, last, hall, hsplit, hlast⟩ := (h.runners u).waiting
    refine ⟨es, last, hall, hsplit, fun htook => ?_, fun _ => hlast.2 (ht ▸ TakerPc.noConfusion)⟩
    exact absurd ((Function.update_self u p s.pc).symm.trans htook) hp
  · exact (h.runners u).congr rfl rfl (Function.update_of_ne hu ..) rfl

theorem QueueOk.take (h : QueueOk s) {t : T} (ht : s.pc t = .lock) : QueueOk (takeSection s t) := by
  obtain ⟨rest, hring⟩ := h.ring
  rcases takeSection_cases hring t with hs | ⟨e, rest', rfl, htime, hs⟩
  · rw [hs]
    exact h
  rw [hs]
  refine ⟨⟨rest', (hring.take t).1.movePc _ s.assigned⟩, fun u => ?_⟩
  by_cases hu : u = t
  · subst hu
    obtain ⟨es, last, hall, hsplit, hlast⟩ := (h.runners u).waiting
    obtain rfl := hlast.2 (ht ▸ TakerPc.noConfusion)
    rw [List.append_nil] at hsplit
    refine ⟨es, [⟨u, e.elem, s.eventTime e.elem⟩], hall, ?_, fun _ => ⟨_, rfl, ?_⟩, fun hne => ?_⟩
    · rw [← hsplit]
      simp [takenBy, takeEvent]
    · exact Function.update_self u (s.eventTime e.elem) s.queueStartTime
    · exact absurd (Function.update_self u .took s.pc) hne
  · refine (h.runners u).congr ?_ rfl (Function.update_of_ne hu ..) (Function.update_of_ne hu ..)
    simp [takenBy, takeEvent, Ne.symm hu]

theorem QueueOk.assign (h : QueueOk s) {t : T} (ht : s.pc t = .took) (now : Nat) :
    QueueOk { s with
      pc := Function.update s.pc t .top
      assigned := s.assigned ++ [⟨t, now, waitingTime now (s.queueStartTime t)⟩] } := by
  obtain ⟨rest, hring⟩ := h.ring
  refine ⟨⟨rest, hring.movePc _ _⟩, fun u => ?_⟩
  by_cases hu : u = t
  · subst hu
    obtain ⟨es, last, hall, hsplit, hlast⟩ := (h.runners u).waiting
    obtain ⟨e, rfl, hstart⟩ := hlast.1 ht
    refine ⟨es ++ [e], [], ?_, ?_, fun htook => ?_, fun _ => rfl⟩
    · have hmine : assignedBy { s with
          pc := Function.update s.pc u .top
          assigned := s.assigned ++ [⟨u, now, waitingTime now (s.queueStartTime u)⟩] } u =
          assignedBy s u ++ [⟨u, now, waitingTime now (s.queueStartTime u)⟩] := by
        simp [assignedBy]
      rw [hmine]
      refine List.rel_append hall (.cons ?_ .nil)
      show waitingTime now (s.queueStartTime u) = waitingTime now e.event.time
      rw [hstart]
    · rw [List.append_nil]
      exact hsplit
    · exact TakerPc.noConfusion ((Function.update_self u .top s.pc).symm.trans htook)
  · refine (h.runners u).congr rfl ?_ (Function.update_of_ne hu ..) rfl
    simp [assignedBy, Ne.symm hu]

/-! ## Runs -/

theorem queueOk_step {s s' : EventQueue T} {a : QueueAction T} (h : QueueOk s)
    (hs : queueStep s a = some s') : QueueOk s' := by
  obtain ⟨rest, hring⟩ := h.ring
  cases a with
  | initList =>
    rw [queueStep] at hs
    split_ifs at hs with hg
    obtain rfl := Option.some.inj hs
    exact h.generator ⟨_, hring.initList hg⟩ rfl rfl rfl rfl
  | write now =>
    rw [queueStep] at hs
    split at hs
    · rename_i i hg
      obtain rfl := Option.some.inj hs
      exact h.generator ⟨_, hring.write hg now⟩ rfl rfl rfl rfl
    · exact absurd hs (by simp)
  | add =>
    rw [queueStep] at hs
    split at hs
    · rename_i i time hg
      obtain rfl := Option.some.inj hs
      exact h.generator ⟨_, hring.add hg⟩ rfl rfl rfl rfl
    · exact absurd hs (by simp)
  | advance =>
    rw [queueStep] at hs
    split at hs
    · rename_i i hg
      obtain rfl := Option.some.inj hs
      exact h.generator ⟨_, hring.advance hg⟩ rfl rfl rfl rfl
    · exact absurd hs (by simp)
  | test t =>
    rw [queueStep] at hs
    by_cases ht : s.pc t = .top
    · rw [if_pos ht] at hs
      obtain rfl := Option.some.inj hs
      -- the test only moves the thread, whatever it finds
      refine h.test ht ?_
      split_ifs <;> exact TakerPc.noConfusion
    · rw [if_neg ht] at hs
      exact absurd hs (by simp)
  | take t =>
    rw [queueStep] at hs
    split_ifs at hs with ht
    obtain rfl := Option.some.inj hs
    exact h.take ht
  | assign t now =>
    rw [queueStep] at hs
    split_ifs at hs with ht
    obtain rfl := Option.some.inj hs
    exact h.assign ht now

theorem queueOk_init (links : Links Nat) (eventTime : Nat → Nat) (queueStartTime : T → Nat) :
    QueueOk (eventQueueInit links eventTime queueStartTime) :=
  ⟨⟨[], ring_init _ _ _⟩, fun _ => ⟨[], [], .nil, rfl, fun h => TakerPc.noConfusion h, fun _ => rfl⟩⟩

theorem QueueOk.right (h : QueueOk s) : QueueRight s := by
  obtain ⟨rest, hring⟩ := h.ring
  refine ⟨⟨rest.map QueueEvent.elem, ?_, ?_, ?_, fun i hi => hring.fresh hi⟩,
    ⟨rest, hring.split⟩, fun t => ?_⟩
  · split_ifs with hg
    · rw [hring.rest_of_init hg]
      rfl
    · exact hring.links hg
  · rw [hring.length, List.length_map]
  · rw [List.length_map]
    exact hring.bound
  · obtain ⟨es, last, hall, hsplit, htook, hnot⟩ := (h.runners t).waiting
    refine ⟨es, last, hall, hsplit, ?_⟩
    split_ifs with ht
    · obtain ⟨e, rfl, -⟩ := htook ht
      rfl
    · rw [hnot ht]
      rfl

end Takers

/-- The queue is right in every interleaving of the generator with any runners: the events are taken
once and in order, and each waiting time is that of its event, although the elements of the ring are
used again. -/
theorem event_queue_right {T : Type} [DecidableEq T] {links : Links Nat} {eventTime : Nat → Nat}
    {queueStartTime : T → Nat} {s : EventQueue T}
    (h : Reachable queueStep (eventQueueInit links eventTime queueStartTime) s) : QueueRight s :=
  (h.invariant (queueOk_init _ _ _) fun _ _ _ hok hs => queueOk_step hok hs).right

theorem neZero_two : NeZero 2 := ⟨by decide⟩

attribute [local instance] neZero_two in
def twoEvents : List (QueueAction (Fin 2)) :=
  [.test 1, .take 1, .initList, .test 0, .write 10, .take 0, .add, .advance, .take 0, .write 20, .add,
    .assign 0 15, .take 1, .assign 1 27]

theorem event_queue_right_two : ∃ s : EventQueue (Fin 2),
    runSteps queueStep (eventQueueInit ⟨fun _ => none, fun _ => none⟩ (fun _ => 0) fun _ => 0)
      twoEvents = some s ∧
    s.generated = [⟨0, 10⟩, ⟨1, 20⟩] ∧ s.taken.map (fun e => e.runner) = [0, 1] ∧
    s.assigned.map (fun a => a.queueTime) = [5, 7] ∧ QueueRight s := by
  have hrun : ((runSteps queueStep
      (eventQueueInit ⟨fun _ => none, fun _ => none⟩ (fun _ => 0) fun _ => 0) twoEvents).map fun s =>
      (s.generated, s.taken.map (fun e => e.runner), s.assigned.map (fun a => a.queueTime))) =
      some ([⟨0, 10⟩, ⟨1, 20⟩], [0, 1], [5, 7]) := by decide +kernel
  obtain ⟨s, hs, hobs⟩ := Option.map_eq_some_iff.mp hrun
  obtain ⟨hgen, hrest⟩ := Prod.mk.inj hobs
  obtain ⟨htaken, hassigned⟩ := Prod.mk.inj hrest
  exact ⟨s, hs, hgen, htaken, hassigned, event_queue_right (Reachable.runSteps _ .start hs)⟩

end MysqlBench.Sysbench
