import Mathlib

/-!
# Messages over sockets (`_socket.c`, `client_interface.c`)

A message is sent and received as the bytes of a structure. One `send` or `recv` moves some of the bytes
that it is asked for, and `_send` and `_receive` repeat the call until all are through. What the calls
return is given (`Transfers`).

The loops do not end in the same way. `_receive` compares what it has got in all with the length of the
message. `_send` compares the last transfer with it, so after a short transfer the comparison fails for good:
when nothing is left it asks for 0 bytes more, gets 0, and reports a closed connection although everything
has been sent (`sendLoop_rest`).
-/

namespace MysqlBench.Dbt2

/-! ## Return codes (`common.h`) -/

def error : Int := 0
def errorSocketClosed : Int := 3

/-! ## The calls -/

structure Transfers where
  amount : Nat → Nat → Option Nat
  le : ∀ i n k, amount i n = some k → k ≤ n

structure Transfers.Working (t : Transfers) : Prop where
  moves : ∀ i n, 0 < n → ∃ k, t.amount i n = some (k + 1)
  zero : ∀ i, t.amount i 0 = some 0

def sendLoop (t : Transfers) (length i : Nat) (data wire : List UInt8) : Int × List UInt8 :=
  match h : t.amount i data.length with
  | none => (-1, wire)
  | some 0 => (0, wire)
  | some (k + 1) =>
    if k + 1 = length then ((k + 1 : Nat), wire ++ data.take (k + 1))
    else sendLoop t length (i + 1) (data.drop (k + 1)) (wire ++ data.take (k + 1))
termination_by data.length
decreasing_by
  have := t.le _ _ _ h
  simp only [List.length_drop]
  omega

def send (t : Transfers) (data wire : List UInt8) : Int × List UInt8 := sendLoop t data.length 0 data wire

def receiveLoop (t : Transfers) (length i remaining total : Nat) (data wire : List UInt8) :
    Int × List UInt8 × List UInt8 :=
  match h : t.amount i remaining with
  | none => (-1, data, wire)
  | some 0 => (0, data, wire)
  | some (k + 1) =>
    if total + (k + 1) = length then
      ((total + (k + 1) : Nat), data ++ wire.take (k + 1), wire.drop (k + 1))
    else
      receiveLoop t length (i + 1) (remaining - (k + 1)) (total + (k + 1)) (data ++ wire.take (k + 1))
        (wire.drop (k + 1))
termination_by remaining
decreasing_by
  have := t.le _ _ _ h
  omega

def receive (t : Transfers) (length : Nat) (wire : List UInt8) : Int × List UInt8 × List UInt8 :=
  receiveLoop t length 0 length 0 [] wire

def checkLength (length : Int) (size : Nat) : Int :=
  if length = -1 then error
  else if length = 0 then errorSocketClosed
  else if length ≠ size then error
  else length

def sendTransactionData (t : Transfers) (clientData wire : List UInt8) : Int × List UInt8 :=
  let r := send t clientData wire
  (checkLength r.1 clientData.length, r.2)

def receiveTransactionData (t : Transfers) (size : Nat) (wire : List UInt8) :
    Int × List UInt8 × List UInt8 :=
  let r := receive t size wire
  (checkLength r.1 size, r.2)

theorem checkLength_self {size : Nat} (h : 0 < size) : checkLength size size = size := by
  rw [checkLength, if_neg (by omega), if_neg (by omega), if_neg (by simp)]

/-! ## Sending -/

section Working

variable {t : Transfers}

theorem sendLoop_rest (h : t.Working) {length : Nat} (i : Nat) (data wire : List UInt8)
    (hlt : data.length < length) : sendLoop t length i data wire = (0, wire ++ data) := by
  induction hn : data.length using Nat.strong_induction_on generalizing i data wire with
  | _ n ih =>
    rw [sendLoop]
    cases data with
    | nil =>
      split
      case h_1 hamount => exact absurd (hamount.symm.trans (h.zero i)) (by simp)
      case h_2 => rw [List.append_nil]
      case h_3 k hamount => exact absurd (hamount.symm.trans (h.zero i)) (by simp)
    | cons b data =>
      obtain ⟨k, hk⟩ := h.moves i (b :: data).length (Nat.succ_pos _)
      have hle := t.le _ _ _ hk
      split
      case h_1 hamount => exact absurd (hamount.symm.trans hk) (by simp)
      case h_2 hamount => exact absurd (hamount.symm.trans hk) (by simp)
      case h_3 k' hamount =>
        obtain rfl : k' = k := by simpa using hamount.symm.trans hk
        have hdrop : ((b :: data).drop (k' + 1)).length < n := by
          rw [List.length_drop]
          omega
        rw [if_neg (by omega), ih _ hdrop (i + 1) _ _ (by omega) rfl, List.append_assoc,
          List.take_append_drop]

theorem send_eq (h : t.Working) {data : List UInt8} (hdata : data ≠ []) (wire : List UInt8) :
    send t data wire =
      (if t.amount 0 data.length = some data.length then (data.length : Int) else 0, wire ++ data) := by
  obtain ⟨k, hk⟩ := h.moves 0 data.length (List.length_pos_iff.mpr hdata)
  have hle := t.le _ _ _ hk
  rw [send, sendLoop]
  split
  case h_1 hamount => exact absurd (hamount.symm.trans hk) (by simp)
  case h_2 hamount => exact absurd (hamount.symm.trans hk) (by simp)
  case h_3 k' hamount =>
    obtain rfl : k' = k := by simpa using hamount.symm.trans hk
    rw [hk]
    by_cases hall : k' + 1 = data.length
    · rw [if_pos hall, if_pos (congrArg some hall), hall, List.take_length]
    · rw [if_neg hall, if_neg (fun heq => hall (Option.some.inj heq)), sendLoop_rest h, List.append_assoc,
        List.take_append_drop]
      rw [List.length_drop]
      omega

/-! ## Receiving -/

theorem receiveLoop_eq (h : t.Working) {length : Nat} (i total : Nat) (data rest following : List UInt8)
    (hrest : rest ≠ []) (htotal : total + rest.length = length) :
    receiveLoop t length i rest.length total data (rest ++ following) =
      ((length : Int), data ++ rest, following) := by
  induction hn : rest.length using Nat.strong_induction_on generalizing i total data rest with
  | _ n ih =>
    obtain ⟨k, hk⟩ := h.moves i n (hn ▸ List.length_pos_iff.mpr hrest)
    have hle := t.le _ _ _ hk
    rw [receiveLoop]
    split
    case h_1 hamount => exact absurd (hamount.symm.trans hk) (by simp)
    case h_2 hamount => exact absurd (hamount.symm.trans hk) (by simp)
    case h_3 k' hamount =>
      obtain rfl : k' = k := by simpa using hamount.symm.trans hk
      rw [List.take_append_of_le_length (by omega), List.drop_append_of_le_length (by omega)]
      by_cases hall : total + (k' + 1) = length
      · rw [if_pos hall, hall, List.take_of_length_le (by omega), List.drop_of_length_le (by omega)]
        rfl
      · have hdrop : (rest.drop (k' + 1)).length = n - (k' + 1) := by rw [List.length_drop, hn]
        rw [if_neg hall, ih (n - (k' + 1)) (by omega) (i + 1) (total + (k' + 1)) _ (rest.drop (k' + 1)) ?_
          (by omega) hdrop, List.append_assoc, List.take_append_drop]
        exact List.length_pos_iff.mp (by omega)

theorem receiveTransactionData_eq (h : t.Working) {msg : List UInt8} (hmsg : msg ≠ [])
    (following : List UInt8) :
    receiveTransactionData t msg.length (msg ++ following) = ((msg.length : Int), msg, following) := by
  have hrun : receive t msg.length (msg ++ following) = ((msg.length : Int), msg, following) :=
    receiveLoop_eq h 0 0 [] msg following hmsg (Nat.zero_add _)
  simp only [receiveTransactionData, hrun, checkLength_self (List.length_pos_iff.mpr hmsg)]

end Working

/-! ## From one side to the other -/

/-- The bytes of a message get through in every case, and the receiver returns its size. The sender
returns its size if and only if the first `send` takes the whole message, or the size is 3, the code
of a closed connection. Its loop compares the last transfer with the whole length. -/
theorem message_survives_iff (ts tr : Transfers) (hs : ts.Working) (hr : tr.Working) (msg : List UInt8)
    (hmsg : msg ≠ []) (following : List UInt8) :
    (sendTransactionData ts msg []).2 = msg ∧
      receiveTransactionData tr msg.length (msg ++ following) = ((msg.length : Int), msg, following) ∧
      ((sendTransactionData ts msg []).1 = msg.length ↔
        ts.amount 0 msg.length = some msg.length ∨ msg.length = 3) := by
  refine ⟨?_, receiveTransactionData_eq hr hmsg following, ?_⟩
  · rw [sendTransactionData, send_eq hs hmsg]
    rfl
  · by_cases hall : ts.amount 0 msg.length = some msg.length
    · simp only [sendTransactionData, send_eq hs hmsg, hall, if_true, true_or, iff_true]
      exact checkLength_self (List.length_pos_iff.mpr hmsg)
    · have hclosed : checkLength 0 msg.length = 3 := rfl
      simp only [sendTransactionData, send_eq hs hmsg, hall, if_false, false_or, hclosed]
      omega

def byteByByte : Transfers where
  amount := fun _ n => some (min 1 n)
  le := fun _ _ _ h => Option.some.inj h ▸ min_le_right 1 _

theorem working_byteByByte : byteByByte.Working :=
  ⟨fun _ n hn => ⟨0, by simp [byteByByte, Nat.min_eq_left hn]⟩, fun _ => rfl⟩

theorem message_survives_iff_two :
    (sendTransactionData byteByByte [7, 8] []).2 = [7, 8] ∧
      receiveTransactionData byteByByte [7, 8].length ([7, 8] ++ [9]) = (([7, 8].length : Int), [7, 8], [9]) ∧
      ((sendTransactionData byteByByte [7, 8] []).1 = [7, 8].length ↔
        byteByByte.amount 0 [7, 8].length = some [7, 8].length ∨ [7, 8].length = 3) :=
  message_survives_iff byteByByte byteByByte working_byteByByte working_byteByByte [7, 8] (by simp) [9]

/-- Two bytes in two transfers: both arrive, and the connection is reported as closed. -/
theorem send_two_bytes_reports_closed :
    byteByByte.Working ∧ sendTransactionData byteByByte [7, 8] [] = (errorSocketClosed, [7, 8]) ∧
      errorSocketClosed ≠ [7, 8].length := by
  refine ⟨working_byteByByte, ?_, by decide⟩
  rw [sendTransactionData, send_eq working_byteByByte (by simp)]
  rfl

end MysqlBench.Dbt2
