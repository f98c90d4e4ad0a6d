import Mathlib

/-!
# Inputs of the transactions (`input_data_generator.c`)

The inputs are drawn with `get_random`. A line of a new order comes from another warehouse, and a payment is
made by a customer of another warehouse, only on a branch that is seldom taken. The other warehouse is drawn
by leaving the home warehouse out: what is drawn from it on is moved up by one. For this there has to be one
number less to draw than there are warehouses. `generate_new_order_data` draws from all of them
(`remoteSupply_iff`), and `generate_payment_data` wraps around at the number of warehouses (`remotePayer_iff`).
-/

namespace MysqlBench.Dbt2

abbrev Gen := StateM (Nat → Nat)

def getRandom (max : Nat) : Gen Nat := fun rands => (rands 0 % max, fun n => rands (n + 1))

def getNurand (a x y : Nat) : Gen Nat := do
  let r ← getRandom (a + 1)
  let r' ← getRandom (y + 1)
  pure ((r ||| (x + r')) % (y - x + 1) + x)

/-- `no_order_line_t` as it is filled in. `remote` is not in the program: it is what was drawn on the branch
for another warehouse. -/
structure OrderLineData where
  olIId : Nat
  olSupplyWId : Nat
  olQuantity : Nat
  remote : Option Nat

structure NewOrderData where
  wId : Nat
  dId : Nat
  cId : Nat
  orderLine : List OrderLineData

def remoteSupply (wId r : Nat) : Nat := if wId ≤ r + 1 then r + 1 + 1 else r + 1

def chooseSupply (warehouses : Nat) (modeAltered : Bool) (wId : Nat) : Gen (Nat × Option Nat) := do
  if warehouses > 1 then
    let local? ← if modeAltered then pure true else do pure (decide ((← getRandom 100) > 0))
    if local? then pure (wId, none)
    else
      let r ← getRandom warehouses
      pure (remoteSupply wId r, some r)
  else pure (1, none)

def generateOrderLine (warehouses : Nat) (modeAltered : Bool) (wId : Nat) : Gen OrderLineData := do
  let olIId ← getNurand 8191 1 100000
  let (olSupplyWId, remote) ← chooseSupply warehouses modeAltered wId
  let q ← getRandom 10
  pure ⟨olIId, olSupplyWId, q + 1, remote⟩

def generateOrderLines (warehouses : Nat) (modeAltered : Bool) (wId : Nat) : Nat → Gen (List OrderLineData)
  | 0 => pure []
  | n + 1 => do
    let line ← generateOrderLine warehouses modeAltered wId
    let lines ← generateOrderLines warehouses modeAltered wId n
    pure (line :: lines)

def invalidateLast (invalid cnt : Nat) (lines : List OrderLineData) : List OrderLineData :=
  lines.mapIdx fun i l => if invalid = 0 ∧ i = cnt - 1 then { l with olIId := 0 } else l

def generateNewOrderData (warehouses : Nat) (modeAltered : Bool) (wId : Nat) : Gen NewOrderData := do
  let d ← getRandom 10
  let cId ← getNurand 1023 1 3000
  let cnt ← getRandom 10
  let lines ← generateOrderLines warehouses modeAltered wId (cnt + 6)
  let invalid ← getRandom 100
  pure ⟨wId, d + 1, cId, invalidateLast invalid (cnt + 6) lines⟩

structure PaymentData where
  wId : Nat
  dId : Nat
  cId : Nat
  cLast : Option Nat
  cWId : Nat
  cDId : Nat
  hAmount : Nat
  remote : Option Nat

def remotePayer (warehouses wId r : Nat) : Nat :=
  let cWId := if wId ≤ r + 1 then (r + 1 + 1) % warehouses else r + 1
  if cWId = 0 then 1 else cWId

def generatePaymentData (warehouses : Nat) (modeAltered : Bool) (wId : Nat) : Gen PaymentData := do
  let d ← getRandom 10
  let (cId, cLast) ← if (← getRandom 100) < 60 then do pure (0, some (← getNurand 255 0 999))
    else do pure (← getNurand 1023 1 3000, none)
  let home ← if modeAltered then pure true else do pure (decide ((← getRandom 100) < 85))
  let (cWId, cDId, remote) ← if home then pure (wId, d + 1, none) else do
    let cd ← getRandom 10
    if warehouses > 1 then
      let r ← getRandom (warehouses - 1)
      pure (remotePayer warehouses wId r, cd + 1, some r)
    else pure (1, cd + 1, none)
  let h ← getRandom 500000
  pure ⟨wId, d + 1, cId, cLast, cWId, cDId, h + 100, remote⟩

/-! ## The warehouses that are chosen -/

def Other (warehouses wId s : Nat) : Prop := 1 ≤ s ∧ s ≤ warehouses ∧ s ≠ wId

section Remote

variable {warehouses wId r : Nat} {modeAltered : Bool}

variable {rands : Nat → Nat} {l : OrderLineData}

theorem remoteSupply_iff (hw : 1 ≤ wId ∧ wId ≤ warehouses) (hr : r < warehouses) :
    Other warehouses wId (remoteSupply wId r) ↔ r + 1 ≠ warehouses := by
  unfold Other remoteSupply
  split <;> omega

theorem remotePayer_eq (hr : r < warehouses - 1) : remotePayer warehouses wId r =
    if wId ≤ r + 1 then if r + 2 = warehouses then 1 else r + 2 else r + 1 := by
  unfold remotePayer
  by_cases hlast : r + 2 = warehouses
  · by_cases hle : wId ≤ r + 1 <;> simp [hlast, hle]
  · rw [Nat.mod_eq_of_lt (by omega), if_neg hlast, if_neg (by split <;> omega)]

theorem remotePayer_iff (hw : 1 ≤ wId ∧ wId ≤ warehouses) (hr : r < warehouses - 1) :
    Other warehouses wId (remotePayer warehouses wId r) ↔ ¬(wId = 1 ∧ r + 2 = warehouses) := by
  rw [remotePayer_eq hr]
  unfold Other
  split
  · split <;> omega
  · omega

theorem chooseSupply_cases (rands : Nat → Nat) :
    chooseSupply warehouses modeAltered wId rands =
      if warehouses ≤ 1 then ((1, none), rands)
      else if modeAltered then ((wId, none), rands)
      else if rands 0 % 100 > 0 then ((wId, none), fun n => rands (n + 1))
      else ((remoteSupply wId (rands 1 % warehouses), some (rands 1 % warehouses)), fun n => rands (n + 2)) := by
  unfold chooseSupply
  by_cases hone : warehouses ≤ 1
  · rw [if_pos hone, if_neg (by omega)]
    rfl
  · rw [if_neg hone, if_pos (by omega)]
    cases modeAltered with
    | true => rfl
    | false =>
      by_cases hlocal : rands 0 % 100 > 0
      · simp [hlocal, getRandom, bind, StateT.bind, pure, StateT.pure]
      · simp [hlocal, getRandom, bind, StateT.bind, pure, StateT.pure]

theorem generateOrderLine_remote
    (h : (generateOrderLine warehouses modeAltered wId rands).1.remote = some r) :
    r < warehouses ∧ (generateOrderLine warehouses modeAltered wId rands).1.olSupplyWId = remoteSupply wId r := by
  have hchoose := @chooseSupply_cases warehouses wId modeAltered fun n => rands (n + 2)
  have hremote : (chooseSupply warehouses modeAltered wId fun n => rands (n + 2)).1.2 = some r := h
  show _ ∧ (chooseSupply warehouses modeAltered wId fun n => rands (n + 2)).1.1 = _
  rw [hchoose] at hremote ⊢
  split at hremote
  · cases hremote
  · split at hremote
    · cases hremote
    · split at hremote
      · cases hremote
      · rw [if_neg ‹_›, if_neg ‹_›, if_neg ‹_›]
        obtain rfl := Option.some.inj hremote
        exact ⟨Nat.mod_lt _ (by omega), rfl⟩

theorem generateOrderLines_mem {n : Nat}
    (h : l ∈ (generateOrderLines warehouses modeAltered wId n rands).1) :
    ∃ rands', l = (generateOrderLine warehouses modeAltered wId rands').1 := by
  induction n generalizing rands with
  | zero => cases h
  | succ n ih =>
    cases h with
    | head => exact ⟨rands, rfl⟩
    | tail _ h => exact ih h

theorem generateNewOrderData_mem
    (h : l ∈ (generateNewOrderData warehouses modeAltered wId rands).1.orderLine) :
    ∃ rands', let line := (generateOrderLine warehouses modeAltered wId rands').1
      l.remote = line.remote ∧ l.olSupplyWId = line.olSupplyWId := by
  obtain ⟨invalid, hlines⟩ : ∃ invalid, (generateNewOrderData warehouses modeAltered wId rands).1.orderLine =
      invalidateLast invalid (rands 3 % 10 + 6)
        (generateOrderLines warehouses modeAltered wId (rands 3 % 10 + 6) fun n => rands (n + 4)).1 := ⟨_, rfl⟩
  rw [hlines] at h
  obtain ⟨i, hi, rfl⟩ := List.mem_mapIdx.mp h
  obtain ⟨rands', hline⟩ := generateOrderLines_mem (List.getElem_mem hi)
  refine ⟨rands', ?_⟩
  rw [hline]
  split <;> exact ⟨rfl, rfl⟩

theorem exists_remote_line (wId r : Nat) (hW : 1 < warehouses) (hr : r < warehouses) : ∃ rands,
    ∃ l ∈ (generateNewOrderData warehouses false wId rands).1.orderLine,
      l.remote = some r ∧ l.olSupplyWId = remoteSupply wId r := by
  let rands (n : Nat) : Nat := if n = 7 then r else 0
  have hchoose := @chooseSupply_cases warehouses wId false fun n => rands (n + 6)
  rw [if_neg (by omega), if_neg (by decide), if_neg (by simp [rands]), show rands (1 + 6) = r from if_pos rfl,
    Nat.mod_eq_of_lt hr] at hchoose
  obtain ⟨invalid, ls, hlines⟩ : ∃ invalid ls, (generateNewOrderData warehouses false wId rands).1.orderLine =
      invalidateLast invalid (rands 3 % 10 + 6)
        ((generateOrderLine warehouses false wId fun n => rands (n + 4)).1 :: ls) := ⟨_, _, rfl⟩
  refine ⟨rands, (generateOrderLine warehouses false wId fun n => rands (n + 4)).1, ?_,
    congrArg (fun x => x.1.2) hchoose, congrArg (fun x => x.1.1) hchoose⟩
  rw [hlines, invalidateLast, List.mapIdx_cons, if_neg (by simp [rands])]
  exact List.mem_cons_self

theorem generatePaymentData_cases (rands : Nat → Nat) :
    let data := (generatePaymentData warehouses modeAltered wId rands).1
    (data.remote, data.cWId) =
      if modeAltered ∨ rands 4 % 100 < 85 then (none, wId)
      else if warehouses ≤ 1 then (none, 1)
      else (some (rands 6 % (warehouses - 1)), remotePayer warehouses wId (rands 6 % (warehouses - 1))) := by
  unfold generatePaymentData
  by_cases hname : rands 1 % 100 < 60 <;> by_cases hhome : rands 4 % 100 < 85 <;>
    by_cases hone : 1 < warehouses <;> cases modeAltered <;>
    simp [hname, hhome, hone, getRandom, getNurand, bind, StateT.bind, pure, StateT.pure]

theorem generatePaymentData_remote
    (h : (generatePaymentData warehouses modeAltered wId rands).1.remote = some r) :
    r < warehouses - 1 ∧
      (generatePaymentData warehouses modeAltered wId rands).1.cWId = remotePayer warehouses wId r := by
  have hcases := @generatePaymentData_cases warehouses wId modeAltered rands
  simp only [h] at hcases
  split at hcases
  · cases (Prod.mk.inj hcases).1
  · split at hcases
    · cases (Prod.mk.inj hcases).1
    · obtain ⟨hr, hc⟩ := Prod.mk.inj hcases
      obtain rfl := Option.some.inj hr
      exact ⟨Nat.mod_lt _ (by omega), hc⟩

theorem exists_remote_payment (warehouses wId r : Nat) (hr : r < warehouses - 1) : ∃ rands,
    (generatePaymentData warehouses false wId rands).1.remote = some r ∧
      (generatePaymentData warehouses false wId rands).1.cWId = remotePayer warehouses wId r := by
  refine ⟨fun n => if n = 6 then r else if n = 4 then 85 else 0, ?_⟩
  have hcases := @generatePaymentData_cases warehouses wId false fun n => if n = 6 then r else if n = 4 then 85 else 0
  rw [if_neg (by simp), if_neg (by omega), if_pos rfl, Nat.mod_eq_of_lt hr] at hcases
  exact Prod.mk.inj hcases

end Remote

/-- A line of a new order gets a warehouse that is there and is not the home warehouse unless the
greatest number was drawn, and each of them can be drawn: the draw is among all warehouses instead
of the others, and is stepped over the home warehouse. A customer's warehouse is always there, it is
the home warehouse for the greatest draw if that is the first one, and all others can be drawn only
for the last one. -/
theorem remote_warehouses_iff {warehouses wId : Nat} (hW : 1 < warehouses) (hw : 1 ≤ wId ∧ wId ≤ warehouses)
    (modeAltered : Bool) :
    (∀ rands, ∀ l ∈ (generateNewOrderData warehouses modeAltered wId rands).1.orderLine, ∀ r,
      l.remote = some r → (Other warehouses wId l.olSupplyWId ↔ r + 1 ≠ warehouses)) ∧
    (∀ s, Other warehouses wId s → ∃ rands, ∃ l ∈ (generateNewOrderData warehouses false wId rands).1.orderLine,
      l.remote.isSome ∧ l.olSupplyWId = s) ∧
    (∀ rands r, (generatePaymentData warehouses modeAltered wId rands).1.remote = some r →
      (Other warehouses wId (generatePaymentData warehouses modeAltered wId rands).1.cWId ↔
        ¬(wId = 1 ∧ r + 2 = warehouses))) ∧
    ((∀ s, Other warehouses wId s → ∃ rands, (generatePaymentData warehouses false wId rands).1.remote.isSome ∧
      (generatePaymentData warehouses false wId rands).1.cWId = s) ↔ wId = warehouses) := by
  refine ⟨fun rands l hl r hr => ?_, fun s hs => ?_, fun rands r hr => ?_, fun hall => ?_, fun hlast s hs => ?_⟩
  · obtain ⟨rands', hremote, hsupply⟩ := generateNewOrderData_mem hl
    obtain ⟨hlt, heq⟩ := generateOrderLine_remote (hremote ▸ hr)
    rw [hsupply, heq, remoteSupply_iff hw hlt]
  · obtain ⟨h₁, h₂, h₃⟩ := hs
    -- draws below the home warehouse stay, the others are moved up by one
    obtain ⟨r, hr, hrs⟩ : ∃ r < warehouses, remoteSupply wId r = s := by
      unfold remoteSupply
      by_cases hlt : s < wId
      · exact ⟨s - 1, by omega, by rw [if_neg (by omega)]; omega⟩
      · exact ⟨s - 2, by omega, by rw [if_pos (by omega)]; omega⟩
    obtain ⟨rands, l, hl, hremote, hs⟩ := exists_remote_line wId r hW hr
    exact ⟨rands, l, hl, by simp [hremote], hs.trans hrs⟩
  · obtain ⟨hlt, heq⟩ := generatePaymentData_remote hr
    rw [heq, remotePayer_iff hw hlt]
  · by_contra hne
    obtain ⟨rands, hsome, hs⟩ := hall warehouses ⟨by omega, le_rfl, Ne.symm hne⟩
    obtain ⟨r, hr⟩ := Option.isSome_iff_exists.mp hsome
    obtain ⟨hlt, heq⟩ := generatePaymentData_remote hr
    rw [heq, remotePayer_eq hlt] at hs
    split at hs
    · split at hs <;> omega
    · omega
  · obtain ⟨h₁, h₂, h₃⟩ := hs
    obtain ⟨rands, hr, hc⟩ := exists_remote_payment warehouses wId (s - 1) (by omega)
    refine ⟨rands, by simp [hr], ?_⟩
    rw [hc, remotePayer_eq (by omega), if_neg (by omega)]
    omega

/-- With two warehouses, a line from the third one and a payment by a customer of the home warehouse. -/
theorem wrong_remote_warehouses :
    (∃ rands, ∃ l ∈ (generateNewOrderData 2 false 1 rands).1.orderLine, l.remote = some 1 ∧ l.olSupplyWId = 3) ∧
    ∃ rands, (generatePaymentData 2 false 1 rands).1.remote = some 0 ∧
      (generatePaymentData 2 false 1 rands).1.cWId = 1 :=
  ⟨exists_remote_line 1 1 (by decide) (by decide), exists_remote_payment 2 1 0 (by decide)⟩

/-- The last of three warehouses. -/
theorem remote_warehouses_iff_last : ∃ rands,
    (generatePaymentData 3 false 3 rands).1.remote.isSome ∧ (generatePaymentData 3 false 3 rands).1.cWId = 2 :=
  (remote_warehouses_iff (by decide) (by decide) false).2.2.2.mpr rfl 2 (by unfold Other; decide)

end MysqlBench.Dbt2
