import MysqlBench.Tpcc.Delivery

/-!
# Deliveries that are tried again (`do_delivery`)

`do_delivery` calls `delivery` for one warehouse until it returns one, `MAX_RETRY` times at most. A call that
fails has committed the districts before the one it failed in, and the next call begins with the first
district again: if such a district has another order, that one is delivered too. What is delivered in a
district is counted by what has left `new_orders` (`Db.waiting`). One call takes at most one order of each
district (`waiting_delivery`), so the whole of `do_delivery` does if no failing call leaves an order behind
in a district it has delivered in (`RetriesClean`).
-/

namespace MysqlBench.Tpcc

open Lib

def maxRetry : Nat := 2000

/-- One call of `delivery`: the time, what `ol_total` holds at first and which statements are refused. -/
structure DeliveryTry where
  datetime : String
  olTotal : ℚ
  outside : Outside

def DeliveryTry.run (wId oCarrierId : Int) (t : DeliveryTry) (d : Db) : Int × Db :=
  delivery ⟨wId, oCarrierId, t.datetime, t.olTotal⟩ d t.outside

def deliveryTries (wId oCarrierId : Int) (tries : Nat → DeliveryTry) : Nat → Nat → Db → Int × Db
  | 0, _, d => (0, d)
  | n + 1, i, d =>
    let r := (tries i).run wId oCarrierId d
    if r.1 ≠ 0 then (1, r.2) else deliveryTries wId oCarrierId tries n (i + 1) r.2

def doDelivery (wId oCarrierId : Int) (tries : Nat → DeliveryTry) (d : Db) : Int × Db :=
  deliveryTries wId oCarrierId tries maxRetry 0 d

def Db.waiting (d : Db) (wId dId : Int) : Nat := (d.newOrderIds wId dId).length

theorem waiting_eq_countP (d : Db) (wId dId : Int) :
    d.waiting wId dId = d.newOrders.rows.countP fun r => r.noWId = wId ∧ r.noDId = dId := by
  rw [Db.waiting, Db.newOrderIds, List.length_map, List.countP_eq_length_filter]

theorem DeliveryEffect.waiting_le {a : DeliveryArgs} {k : Int × Int × Int} {cId : Int} {d d' : Db}
    (h : DeliveryEffect a k cId d d') (wId dId : Int) :
    d.waiting wId dId ≤ d'.waiting wId dId + if dId = k.2.1 then 1 else 0 := by
  have hsplit := List.countP_eq_countP_filter_add d.newOrders.rows
    (fun r => decide (r.noWId = wId ∧ r.noDId = dId)) fun r => !decide (r.key = k)
  rw [waiting_eq_countP, waiting_eq_countP, h.newOrders, hsplit]
  refine Nat.add_le_add_left ?_ _
  simp only [Bool.not_not]
  split
  · -- Of the rows with the key there is one.
    have hone := List.nodup_iff_count_le_one.mp d.newOrders.nodup k
    rw [List.count_eq_countP, List.countP_map, List.countP_eq_length_filter] at hone
    simp only [Function.comp_def, beq_eq_decide] at hone
    exact List.countP_le_length.trans hone
  · rename_i hne
    refine (List.countP_eq_zero.mpr fun r hr hd => hne ?_).le
    have hkey : r.key = k := by simpa using (List.mem_filter.mp hr).2
    rw [← hkey]
    exact (of_decide_eq_true hd).2.symm

theorem waiting_deliverDistricts {a : DeliveryArgs} {dIds : List Int} (hnodup : dIds.Nodup) (olTotal : ℚ)
    (d : Db) (o : Outside) (wId dId : Int) : d.waiting wId dId ≤
      (deliverDistricts a dIds olTotal d o).2.waiting wId dId + if dId ∈ dIds then 1 else 0 := by
  induction dIds generalizing olTotal d o with
  | nil => simp [deliverDistricts]
  | cons x rest ih =>
    rw [deliverDistricts]
    obtain ⟨hx, hrest⟩ := List.nodup_cons.mp hnodup
    cases hrun : deliverDistrict a x olTotal d o with
    | mk r o' =>
      cases r with
      | error e => exact Nat.le_add_right _ _
      | ok r =>
        have ih := ih hrest r.1 r.2 o'
        -- A district is served once in the loop.
        have hstep : d.waiting wId dId ≤ r.2.waiting wId dId + if dId = x then 1 else 0 := by
          cases gives_deliverDistrict ⟨o, o', hrun⟩ with
          | inl h => rw [h]; exact Nat.le_add_right _ _
          | inr h =>
            obtain ⟨noOId, cId, heffect⟩ := h
            exact heffect.waiting_le wId dId
        refine hstep.trans (le_trans (Nat.add_le_add_right ih _) ?_)
        by_cases hd : dId = x
        · simp [hd, hx]
        · simp [hd]

theorem waiting_delivery (a : DeliveryArgs) (d : Db) (o : Outside) (wId dId : Int) :
    d.waiting wId dId ≤ (delivery a d o).2.waiting wId dId + 1 := by
  refine (waiting_deliverDistricts (nodup_upTo _) _ d o wId dId).trans (Nat.add_le_add_left ?_ _)
  split <;> decide

/-- Whenever a call fails and another one follows, the districts it has delivered in have no order left. -/
def RetriesClean (wId oCarrierId : Int) (tries : Nat → DeliveryTry) : Nat → Nat → Db → Prop
  | 0, _, _ => True
  | n + 1, i, d =>
    let r := (tries i).run wId oCarrierId d
    r.1 = 0 → (0 < n → ∀ dId, r.2.waiting wId dId < d.waiting wId dId → r.2.waiting wId dId = 0) ∧
      RetriesClean wId oCarrierId tries n (i + 1) r.2

theorem waiting_deliveryTries {wId oCarrierId : Int} {tries : Nat → DeliveryTry} {n i : Nat} {d : Db}
    (h : RetriesClean wId oCarrierId tries n i d) (dId : Int) :
    d.waiting wId dId ≤ (deliveryTries wId oCarrierId tries n i d).2.waiting wId dId + 1 := by
  induction n generalizing i d with
  | zero => exact Nat.le_add_right _ _
  | succ n ih =>
    have hone : d.waiting wId dId ≤ ((tries i).run wId oCarrierId d).2.waiting wId dId + 1 :=
      waiting_delivery _ _ _ _ _
    rw [deliveryTries]
    by_cases hret : ((tries i).run wId oCarrierId d).1 = 0
    · obtain ⟨hclean, hrest⟩ := h hret
      have ih := ih hrest
      rw [if_neg (not_not.mpr hret)]
      rcases Nat.eq_zero_or_pos n with rfl | hn
      · -- no call follows
        exact hone
      by_cases hless : ((tries i).run wId oCarrierId d).2.waiting wId dId < d.waiting wId dId
      · have := hclean hn dId hless
        omega
      · omega
    · rw [if_pos hret]
      exact hone

/-- In every `do_delivery` whose failing calls leave no order behind in a district they have
delivered in, at most one order of each district is delivered, whatever statements fail. A call
commits after each district, so that what it has delivered before it fails stays delivered, and the
next call delivers again. -/
theorem do_delivery_once {wId oCarrierId : Int} {tries : Nat → DeliveryTry} {d : Db}
    (h : RetriesClean wId oCarrierId tries maxRetry 0 d) (dId : Int) :
    d.waiting wId dId ≤ (doDelivery wId oCarrierId tries d).2.waiting wId dId + 1 :=
  waiting_deliveryTries h dId

def twoWaiting : Db :=
  { Db.empty with
    newOrders := ⟨[⟨1, 1, 1⟩, ⟨2, 1, 1⟩], by decide⟩
    orders := ⟨[⟨1, 1, 1, 1, "", none, 0, 1⟩, ⟨2, 1, 1, 1, "", none, 0, 1⟩], by decide⟩ }

def secondRefused (i : Nat) : DeliveryTry :=
  ⟨"", 0, if i = 0 then [false, false, false, false, false, false, false, false, true] else [], fun _ => 0⟩

theorem do_delivery_twice : twoWaiting.waiting 1 1 = 2 ∧
    (doDelivery 1 1 secondRefused twoWaiting).1 = 1 ∧
    (doDelivery 1 1 secondRefused twoWaiting).2.waiting 1 1 = 0 := by
  decide

/-- The only refusal comes before anything has been delivered. -/
theorem do_delivery_once_refused : twoWaiting.waiting 1 1 ≤
    (doDelivery 1 1 (fun i => ⟨"", 0, if i = 0 then [true] else [], fun _ => 0⟩) twoWaiting).2.waiting 1 1 + 1 := by
  refine do_delivery_once (fun _ => ⟨fun _ dId hless => ?_, fun hret => ?_⟩) 1
  · exact absurd hless (lt_irrefl _)
  · exact absurd hret (by decide)

end MysqlBench.Tpcc
