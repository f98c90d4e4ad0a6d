import MysqlBench.Lib.Interleave

/-!
# The counters of the requests (`transaction_queue.c`, `db_threadpool.c`)

A message that arrives at the client has a number for its transaction, and with this number the counters are
indexed: before the message is put into the queue, twice after it has been taken from there, and when it has
been executed. Nothing looks at the number before `process_transaction` does, which comes between, so an index
is in range exactly if the number in the message is (`indices_in_range_iff`). The driver itself sends one that
is not: that of the integrity check.

The counters are an array of two rows, and an index that is too great for its row leads into the next one or
to whatever is behind the array.
-/

namespace MysqlBench.Dbt2

open Lib

def transactionMax : Int := 5

def integrity : Int := 10

def transactionCases : List Int := [integrity, 0, 1, 2, 3, 4]

/-- Where a message is: read by a listener, counted as queued, in the queue, taken by a worker, no longer
counted as queued, counted as executing, and answered. -/
inductive MessageStage where
  | received
  | counted
  | queued
  | taken
  | uncounted
  | executing
  | answered
  deriving DecidableEq

/-- The messages in the order in which they have been read. `memory` are the `int`s from the beginning of
`transaction_counter` on, and before it. -/
structure CounterState where
  codes : List Int
  stage : Nat → MessageStage
  queue : List Nat
  memory : Int → Int

def CounterState.initial (memory : Int → Int) : CounterState :=
  { codes := [], stage := fun _ => .received, queue := [], memory }

inductive CounterRow where
  | queued
  | executing

def counterIndex : CounterRow → Int → Int
  | .queued, code => code
  | .executing, code => transactionMax + code

def counterSection : MessageStage → Option (CounterRow × Int × MessageStage)
  | .received => some (.queued, 1, .counted)
  | .taken => some (.queued, -1, .uncounted)
  | .uncounted => some (.executing, 1, .executing)
  | .executing => some (.executing, -1, .answered)
  | _ => none

inductive CounterAction where
  | receive (code : Int)
  /-- A section with a counter, for the message with a number. -/
  | count (i : Nat)
  /-- The end of `enqueue_transaction`. -/
  | link (i : Nat)
  /-- The beginning of `dequeue_transaction`. -/
  | take

def CounterState.setStage (s : CounterState) (i : Nat) (stage : MessageStage) : CounterState :=
  { s with stage := Function.update s.stage i stage }

def counterStep (s : CounterState) : CounterAction → Option CounterState
  | .receive code => some { s with codes := s.codes ++ [code] }
  | .count i =>
    s.codes[i]?.bind fun code => (counterSection (s.stage i)).map fun (row, delta, stage) =>
      let k := counterIndex row code
      { s with memory := Function.update s.memory k (s.memory k + delta) }.setStage i stage
  | .link i =>
    if i < s.codes.length ∧ s.stage i = .counted then some ({ s with queue := s.queue ++ [i] }.setStage i .queued)
    else none
  | .take =>
    match s.queue with
    | [] => none
    | i :: queue => some ({ s with queue }.setStage i .taken)

/-! ## The indices -/

def CodeInRange (code : Int) : Prop := 0 ≤ code ∧ code < transactionMax

def SafeStep (s : CounterState) (a : CounterAction) (s' : CounterState) : Prop :=
  ∀ i code, a = .count i → s.codes[i]? = some code → CodeInRange code ∧
    ∀ row t, CodeInRange t → t ≠ code → s'.memory (counterIndex row t) = s.memory (counterIndex row t)

theorem counterIndex_inj {row row' : CounterRow} {t code : Int} (ht : CodeInRange t) (hcode : CodeInRange code)
    (h : counterIndex row t = counterIndex row' code) : t = code := by
  unfold CodeInRange transactionMax at ht hcode
  cases row <;> cases row' <;> simp only [counterIndex, transactionMax] at h <;> omega

theorem counterStep_count {s s' : CounterState} {i : Nat} {code : Int} (hcode : s.codes[i]? = some code)
    (h : counterStep s (.count i) = some s') : ∃ row v, s'.memory = Function.update s.memory (counterIndex row code) v := by
  rw [counterStep, hcode, Option.bind_some] at h
  obtain ⟨x, _, rfl⟩ := Option.map_eq_some_iff.mp h
  exact ⟨x.1, _, rfl⟩

theorem safeStep_of_codes {s s' : CounterState} {a : CounterAction} (hcodes : ∀ c ∈ s.codes, CodeInRange c)
    (h : counterStep s a = some s') : SafeStep s a s' := by
  rintro i code rfl hcode
  have hin := hcodes code (List.mem_of_getElem? hcode)
  obtain ⟨row, v, hmemory⟩ := counterStep_count hcode h
  refine ⟨hin, fun row' t ht hne => ?_⟩
  rw [hmemory]
  exact Function.update_of_ne (fun heq => hne (counterIndex_inj ht hin heq)) _ _

theorem reachable_received (memory : Int → Int) (ms : List Int) :
    Reachable counterStep (.initial memory) { CounterState.initial memory with codes := ms } := by
  induction ms using List.reverseRecOn with
  | nil => exact .start
  | append_singleton ms code ih => exact ih.step (.receive code) rfl

/-- Whatever happens while the messages `ms` arrive and are processed, all indices are in range and
no message changes the counters of another transaction, if and only if all the numbers are in range.
Nobody looks at the number of a transaction between the socket and the counters, which are indexed
by it as it comes. -/
theorem indices_in_range_iff (ms : List Int) :
    (∀ memory s a s', Reachable counterStep (.initial memory) s → s.codes <+: ms → counterStep s a = some s' →
      SafeStep s a s') ↔ ∀ code ∈ ms, CodeInRange code := by
  constructor
  · intro h code hcode
    obtain ⟨i, hi⟩ := List.mem_iff_getElem?.mp hcode
    have hstep := h (fun _ => 0) _ (.count i) _ (reachable_received _ ms) List.prefix_rfl
      (by rw [counterStep, hi, Option.bind_some]; rfl)
    exact (hstep i code rfl hi).1
  · intro h memory s a s' _ hcodes hstep
    exact safeStep_of_codes (fun c hc => h c (hcodes.subset hc)) hstep

/-- The integrity check of the driver has a case, and it is counted behind the array; and a message with the
number seven is counted as an order status request that is executing. -/
theorem integrity_out_of_range : integrity ∈ transactionCases ∧ ¬CodeInRange integrity ∧
    (∃ s', runSteps counterStep (.initial fun _ => 0) [.receive integrity, .count 0] = some s' ∧
      s'.memory (2 * transactionMax) = 1) ∧
    ∃ s', runSteps counterStep (.initial fun _ => 0) [.receive 7, .count 0] = some s' ∧
      s'.memory (counterIndex .executing 2) = 1 := by
  refine ⟨by decide, ?_, ⟨_, rfl, rfl⟩, ⟨_, rfl, rfl⟩⟩
  rintro ⟨_, h⟩
  exact absurd h (by decide)

end MysqlBench.Dbt2
