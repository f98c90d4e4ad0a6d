import MysqlBench.Tpcc.Payment

/-!
# The delivery transaction (`delivery.c`)

For every district of a warehouse the oldest order that is not delivered yet is delivered: it leaves
`new_orders`, gets a carrier, its lines get a delivery date, and their sum is added to the customer's
balance. Every district is a transaction of its own, committed before the next begins; an error ends the
call and takes back only what was done for its district.

The sum goes into a variable that keeps its value from district to district and has none at first; a sum
over no lines is NULL and leaves it as it was.
-/

namespace MysqlBench.Tpcc

open Lib

/-- The arguments of `delivery`, the time of the call, and what `ol_total` holds at first. -/
structure DeliveryArgs where
  wId : Int
  oCarrierId : Int
  datetime : String
  olTotal : ℚ

/-! ## The statements -/

def Db.newOrderIds (d : Db) (wId dId : Int) : List Int :=
  (d.newOrders.rows.filter fun r => r.noWId = wId ∧ r.noDId = dId).map NewOrderRow.noOId

def selectOldest (wId dId : Int) : Txn Db TxError Int :=
  query fun d => some ((d.newOrderIds wId dId).min?.getD 0)

def deleteNewOrder (k : Int × Int × Int) : Txn Db TxError Unit :=
  change fun d => { d with newOrders := d.newOrders.delete fun r => r.key = k }

def selectOrderCustomer (k : Int × Int × Int) : Txn Db TxError Int :=
  query fun d => (d.orders.find k).map OrderRow.oCId

def Db.setCarrier (d : Db) (k : Int × Int × Int) (carrier : Int) : Db :=
  { d with
    orders := d.orders.update (fun r => r.key = k) (.setCarrier carrier) (OrderRow.key_setCarrier carrier) }

def updateCarrier (k : Int × Int × Int) (carrier : Int) : Txn Db TxError Unit :=
  change fun d => d.setCarrier k carrier

def Db.setDelivery (d : Db) (k : Int × Int × Int) (datetime : String) : Db :=
  { d with
    orderLine := d.orderLine.update (fun r => r.order = k) (.setDelivery datetime)
      (OrderLineRow.key_setDelivery datetime) }

def updateDelivery (k : Int × Int × Int) (datetime : String) : Txn Db TxError Unit :=
  change fun d => d.setDelivery k datetime

def Db.orderTotal (d : Db) (k : Int × Int × Int) : ℚ :=
  sumWhere d.orderLine.rows (fun r => r.order = k) OrderLineRow.olAmount

def selectTotal (k : Int × Int × Int) : Txn Db TxError (Option ℚ) :=
  query fun d => some (if ∃ r ∈ d.orderLine.rows, r.order = k then some (d.orderTotal k) else none)

def Db.addDelivery (d : Db) (k : Int × Int × Int) (amount : ℚ) : Db :=
  { d with
    customer := d.customer.update (fun r => r.key = k) (.addDelivery amount)
      (CustomerRow.key_addDelivery amount) }

def updateDelivered (k : Int × Int × Int) (amount : ℚ) : Txn Db TxError Unit :=
  change fun d => d.addDelivery k amount

/-! ## The transaction -/

def deliverOrder (a : DeliveryArgs) (dId noOId : Int) (olTotal : ℚ) : Txn Db TxError ℚ := do
  deleteNewOrder (a.wId, dId, noOId)
  let cId ← selectOrderCustomer (a.wId, dId, noOId)
  updateCarrier (a.wId, dId, noOId) a.oCarrierId
  updateDelivery (a.wId, dId, noOId) a.datetime
  let total ← selectTotal (a.wId, dId, noOId)
  updateDelivered (a.wId, dId, cId) (total.getD olTotal)
  commit
  pure (total.getD olTotal)

def deliverDistrict (a : DeliveryArgs) (dId : Int) (olTotal : ℚ) : Txn Db TxError ℚ := do
  let noOId ← selectOldest a.wId dId
  if noOId = 0 then pure olTotal else deliverOrder a dId noOId olTotal

def deliverDistricts (a : DeliveryArgs) : List Int → ℚ → Db → Outside → Int × Db
  | [], _, d, _ => (1, d)
  | dId :: rest, olTotal, d, o =>
    match deliverDistrict a dId olTotal d o with
    | (.ok (olTotal', d'), o') => deliverDistricts a rest olTotal' d' o'
    | (.error _, _) => (0, d)

def delivery (a : DeliveryArgs) (d : Db) (o : Outside) : Int × Db :=
  deliverDistricts a (upTo distPerWare) a.olTotal d o

/-! ## Its effect -/

structure DeliveryEffect (a : DeliveryArgs) (k : Int × Int × Int) (cId : Int) (d d' : Db) : Prop where
  oldest : ∃ n ∈ d.newOrders.rows, n.key = k ∧
    ∀ n' ∈ d.newOrders.rows, n'.noWId = n.noWId → n'.noDId = n.noDId → n.noOId ≤ n'.noOId
  newOrders : d'.newOrders = d.newOrders.delete fun r => r.key = k
  found : ∃ r ∈ d.orders.rows, r.key = k ∧ r.oCId = cId
  orders : d'.orders = (d.setCarrier k a.oCarrierId).orders
  orderLine : d'.orderLine = (d.setDelivery k a.datetime).orderLine
  balance : (∃ r ∈ d.orderLine.rows, r.order = k) → ∀ c, d'.balance c =
    (d.balance c).map fun b => if c = (k.1, k.2.1, cId) then b + d.orderTotal k else b
  keys : d'.customer.rows.map CustomerRow.key = d.customer.rows.map CustomerRow.key
  warehouse : d'.warehouse = d.warehouse
  district : d'.district = d.district
  history : d'.history = d.history

variable {d : Db} {dId noOId : Int} {a : DeliveryArgs} {olTotal olTotal' : ℚ} {d' : Db}

theorem orderTotal_setDelivery (d : Db) (k k' : Int × Int × Int) (datetime : String) :
    (d.setDelivery k datetime).orderTotal k' = d.orderTotal k' := by
  unfold Db.orderTotal Db.setDelivery Table.update
  rw [sumWhere_map]
  refine sumWhere_congr (fun r _ => ?_) fun r _ _ => ?_
  · split <;> rfl
  · split <;> rfl

theorem exists_line_setDelivery {d : Db} {k : Int × Int × Int} {datetime : String}
    (h : ∃ r ∈ d.orderLine.rows, r.order = k) : ∃ r ∈ (d.setDelivery k datetime).orderLine.rows, r.order = k := by
  obtain ⟨r, hr, hk⟩ := h
  refine ⟨r.setDelivery datetime, List.mem_map.mpr ⟨r, hr, ?_⟩, hk⟩
  rw [if_pos (by simpa using hk)]

theorem balance_addDelivery (d : Db) (k c : Int × Int × Int) (amount : ℚ) :
    (d.addDelivery k amount).balance c = (d.balance c).map fun b => if c = k then b + amount else b := by
  unfold Db.balance Db.addDelivery
  rw [Table.find_update, Option.map_map, Option.map_map]
  cases hfind : d.customer.find c with
  | none => rfl
  | some r =>
    have hkey : r.key = c := (Table.find_eq_some.mp hfind).2
    by_cases hc : c = k
    · simp [hkey, hc, CustomerRow.addDelivery]
    · simp [hkey, hc]

theorem exists_of_min? {wId : Int} (h : (d.newOrderIds wId dId).min?.getD 0 = noOId)
    (hne : noOId ≠ 0) : ∃ n ∈ d.newOrders.rows, n.key = (wId, dId, noOId) ∧
      ∀ n' ∈ d.newOrders.rows, n'.noWId = n.noWId → n'.noDId = n.noDId → n.noOId ≤ n'.noOId := by
  cases hmin : (d.newOrderIds wId dId).min? with
  | none =>
    rw [hmin] at h
    exact absurd h.symm hne
  | some m =>
    rw [hmin, Option.getD_some] at h
    obtain ⟨hmem, hle⟩ := List.min?_eq_some_iff.mp hmin
    obtain ⟨n, hn, hnm⟩ := List.mem_map.mp hmem
    obtain ⟨hrow, hdist⟩ := List.mem_filter.mp hn
    have hdist : n.noWId = wId ∧ n.noDId = dId := of_decide_eq_true hdist
    refine ⟨n, hrow, ?_, fun n' hn' hw hd => ?_⟩
    · rw [NewOrderRow.key, hdist.1, hdist.2, hnm, h]
    · rw [hnm]
      refine hle _ (List.mem_map_of_mem (List.mem_filter.mpr ⟨hn', ?_⟩))
      exact decide_eq_true ⟨hw.trans hdist.1, hd.trans hdist.2⟩

theorem gives_deliverOrder
    (h : (deliverOrder a dId noOId olTotal).Gives d olTotal' d')
    (hmin : (d.newOrderIds a.wId dId).min?.getD 0 = noOId) (hne : noOId ≠ 0) :
    ∃ cId, DeliveryEffect a (a.wId, dId, noOId) cId d d' := by
  have hdeleted := gives_change_bind h
  obtain ⟨cId, hfound, hcust⟩ := gives_query_bind hdeleted
  have hcarrier := gives_change_bind hcust
  have hdelivery := gives_change_bind hcarrier
  obtain ⟨total, hsum, htotal⟩ := gives_query_bind hdelivery
  have hdelivered := gives_change_bind htotal
  have hcommit := gives_change_bind hdelivered
  obtain ⟨_, rfl⟩ := Txn.gives_pure hcommit
  obtain ⟨r, hr, hc⟩ := Option.map_eq_some_iff.mp hfound
  obtain ⟨hmem, hkey⟩ := Table.find_eq_some.mp hr
  exact ⟨cId,
    { oldest := exists_of_min? hmin hne
      newOrders := rfl
      found := ⟨r, hmem, hkey, hc⟩
      orders := rfl
      orderLine := rfl
      balance := by
        intro hline c
        have htotal : total = some (d.orderTotal (a.wId, dId, noOId)) := by
          refine (Option.some.inj hsum).symm.trans ((if_pos ?_).trans ?_)
          · exact @exists_line_setDelivery d _ a.datetime hline
          · exact congrArg some (orderTotal_setDelivery d _ _ _)
        rw [balance_addDelivery, htotal]
        rfl
      keys := Table.map_key_update (CustomerRow.key_addDelivery _)
      warehouse := rfl
      district := rfl
      history := rfl }⟩

theorem gives_deliverDistrict
    (h : (deliverDistrict a dId olTotal).Gives d olTotal' d') :
    d' = d ∨ ∃ noOId cId, DeliveryEffect a (a.wId, dId, noOId) cId d d' := by
  obtain ⟨noOId, hmin, h₁⟩ := gives_query_bind h
  by_cases hzero : noOId = 0
  · rw [if_pos hzero] at h₁
    exact .inl (Txn.gives_pure h₁).2
  · rw [if_neg hzero] at h₁
    exact .inr ⟨noOId, gives_deliverOrder h₁ (Option.some.inj hmin) hzero⟩

theorem delivery_invariant {P : Db → Prop} (a : DeliveryArgs)
    (hstep : ∀ k cId d d', P d → DeliveryEffect a k cId d d' → P d') (hd : P d) (o : Outside) :
    P (delivery a d o).2 := by
  suffices hloop : ∀ (dIds : List Int) (olTotal : ℚ) (d : Db) (o : Outside), P d →
      P (deliverDistricts a dIds olTotal d o).2 from hloop _ _ d o hd
  intro dIds
  induction dIds with
  | nil => exact fun _ _ _ h => h
  | cons dId rest ih =>
    intro olTotal d o hd
    rw [deliverDistricts]
    cases hrun : deliverDistrict a dId olTotal d o with
    | mk r o' =>
      cases r with
      | error e => exact hd
      | ok r =>
        refine ih r.1 r.2 o' ?_
        cases gives_deliverDistrict ⟨o, o', hrun⟩ with
        | inl h => exact h ▸ hd
        | inr h =>
          obtain ⟨noOId, cId, heffect⟩ := h
          exact hstep _ cId d r.2 hd heffect

end MysqlBench.Tpcc
