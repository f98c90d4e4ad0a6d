import MysqlBench.Tpcc.NewOrder

/-!
# The payment transaction (`payment.c`)

A customer pays an amount, which is added to the year-to-date totals of a warehouse and a district, booked
on the customer's balance and kept as a row of `history`. The customer is given by number, or by last name,
and then it is the middle one of those with the name, ordered by first name.

`PaymentEffect` is what a payment that commits has done. Of the customers it says what happens to the
balances (`Db.balance`), which is all that is asked of them.
-/

namespace MysqlBench.Tpcc

open Lib

structure PaymentArgs where
  wId : Int
  dId : Int
  byname : Bool
  cWId : Int
  cDId : Int
  cId : Int
  cLast : String
  hAmount : ℚ
  datetime : String

/-- How the server compares names, and the order in which it returns rows ordered by first name. -/
structure Collation where
  same : String → String → Bool
  byFirst : List CustomerRow → List CustomerRow
  perm : ∀ rows, (byFirst rows).Perm rows

/-! ## The statements -/

def Db.addWarehouseYtd (d : Db) (wId : Int) (amount : ℚ) : Db :=
  { d with
    warehouse := d.warehouse.update (fun r => r.key = wId) (.addYtd amount)
      (WarehouseRow.key_addYtd amount) }

def updateWarehouseYtd (wId : Int) (amount : ℚ) : Txn Db TxError Unit :=
  change fun d => d.addWarehouseYtd wId amount

def selectWarehouse (wId : Int) : Txn Db TxError Unit :=
  query fun d => (d.warehouse.find wId).map fun _ => ()

def Db.addDistrictYtd (d : Db) (wId dId : Int) (amount : ℚ) : Db :=
  { d with
    district := d.district.update (fun r => r.key = (wId, dId)) (.addYtd amount)
      (DistrictRow.key_addYtd amount) }

def updateDistrictYtd (wId dId : Int) (amount : ℚ) : Txn Db TxError Unit :=
  change fun d => d.addDistrictYtd wId dId amount

def selectDistrictAddress (wId dId : Int) : Txn Db TxError Unit :=
  query fun d => (d.district.find (wId, dId)).map fun _ => ()

def Db.named (d : Db) (coll : Collation) (wId dId : Int) (cLast : String) : List CustomerRow :=
  d.customer.rows.filter fun r => decide (r.cWId = wId ∧ r.cDId = dId) && coll.same r.cLast cLast

def countByName (coll : Collation) (wId dId : Int) (cLast : String) : Txn Db TxError Nat :=
  query fun d => some (d.named coll wId dId cLast).length

def selectByName (coll : Collation) (wId dId : Int) (cLast : String) : Txn Db TxError (List Int) :=
  query fun d => some ((coll.byFirst (d.named coll wId dId cLast)).map CustomerRow.cId)

def fetchCId : Nat → List Int → Int → Txn Db TxError Int
  | 0, _, cId => pure cId
  | _ + 1, [], _ => Txn.throw .sqlerr
  | n + 1, next :: rest, _ => fetchCId n rest next

def customerByName (coll : Collation) (a : PaymentArgs) : Txn Db TxError Int := do
  let namecnt ← countByName coll a.cWId a.cDId a.cLast
  let ids ← selectByName coll a.cWId a.cDId a.cLast
  let namecnt := if namecnt % 2 = 1 then namecnt + 1 else namecnt
  fetchCId (namecnt / 2) ids a.cId

def payingCustomer (coll : Collation) (a : PaymentArgs) : Txn Db TxError Int :=
  if a.byname then customerByName coll a else pure a.cId

def selectCustomer (wId dId cId : Int) : Txn Db TxError (String × ℚ) :=
  query fun d => (d.customer.find (wId, dId, cId)).map fun r => (r.cCredit, r.cBalance)

def selectData (wId dId cId : Int) : Txn Db TxError String :=
  query fun d => (d.customer.find (wId, dId, cId)).map CustomerRow.cData

def Db.setBalance (d : Db) (wId dId cId : Int) (b : ℚ) : Db :=
  { d with
    customer := d.customer.update (fun r => r.key = (wId, dId, cId)) (.setBalance b)
      (CustomerRow.key_setBalance b) }

def Db.setBalanceData (d : Db) (wId dId cId : Int) (b : ℚ) (data : String) : Db :=
  { d with
    customer := d.customer.update (fun r => r.key = (wId, dId, cId)) (.setBalanceData b data)
      (CustomerRow.key_setBalanceData b data) }

/-- The new balance. The new text for a customer with bad credit is put together, but the parameter that
is bound is the old one. -/
def bookBalance (wId dId cId : Int) (cCredit : String) (cBalance : ℚ) : Txn Db TxError Unit :=
  if cCredit.toList.take 2 = ['B', 'C'] then do
    let cData ← selectData wId dId cId
    change fun d => d.setBalanceData wId dId cId cBalance cData
  else
    change fun d => d.setBalance wId dId cId cBalance

/-! ## The transaction -/

def PaymentArgs.history (a : PaymentArgs) (cId : Int) : HistoryRow :=
  { hCId := cId, hCDId := a.cDId, hCWId := a.cWId, hDId := a.dId, hWId := a.wId, hDate := a.datetime,
    hAmount := a.hAmount }

def paymentTxn (coll : Collation) (a : PaymentArgs) : Txn Db TxError Unit := do
  updateWarehouseYtd a.wId a.hAmount
  selectWarehouse a.wId
  updateDistrictYtd a.wId a.dId a.hAmount
  selectDistrictAddress a.wId a.dId
  let cId ← payingCustomer coll a
  let c ← selectCustomer a.cWId a.cDId cId
  bookBalance a.cWId a.cDId cId c.1 (c.2 + a.hAmount)
  insertHistory (a.history cId)
  commit

def payment (coll : Collation) (a : PaymentArgs) (d : Db) (o : Outside) : Int × Db :=
  match paymentTxn coll a d o with
  | (.ok (_, d'), _) => (1, d')
  | (.error _, _) => (0, d)

/-! ## Its effect -/

def Db.balance (d : Db) (k : Int × Int × Int) : Option ℚ := (d.customer.find k).map CustomerRow.cBalance

structure PaymentEffect (a : PaymentArgs) (cId : Int) (d d' : Db) : Prop where
  wareFound : ∃ r ∈ d.warehouse.rows, r.key = a.wId
  warehouse : d'.warehouse = (d.addWarehouseYtd a.wId a.hAmount).warehouse
  distFound : ∃ r ∈ d.district.rows, r.key = (a.wId, a.dId)
  district : d'.district = (d.addDistrictYtd a.wId a.dId a.hAmount).district
  balance : ∀ k, d'.balance k =
    (d.balance k).map fun b => if k = (a.cWId, a.cDId, cId) then b + a.hAmount else b
  history : d'.history = d.history ++ [a.history cId]
  newOrders : d'.newOrders = d.newOrders
  orders : d'.orders = d.orders
  orderLine : d'.orderLine = d.orderLine

def Db.middle (d : Db) (coll : Collation) (wId dId : Int) (cLast : String) : Option CustomerRow :=
  (coll.byFirst (d.named coll wId dId cLast))[((d.named coll wId dId cLast).length + 1) / 2 - 1]?

def Db.payer (d : Db) (coll : Collation) (a : PaymentArgs) : Int :=
  if a.byname then ((d.middle coll a.cWId a.cDId a.cLast).map CustomerRow.cId).getD a.cId else a.cId

def Db.afterPayment (d : Db) (a : PaymentArgs) (cId : Int) (b : ℚ) : Db :=
  { d with
    warehouse := (d.addWarehouseYtd a.wId a.hAmount).warehouse
    district := (d.addDistrictYtd a.wId a.dId a.hAmount).district
    customer := (d.setBalance a.cWId a.cDId cId b).customer
    history := d.history ++ [a.history cId] }

variable {cId c : Int} {d d' : Db} {coll : Collation} {a : PaymentArgs} {u : Unit}

theorem gives_fetchCId {n : Nat} {ids : List Int}
    (h : (fetchCId (n + 1) ids cId).Gives d c d') : ids[n]? = some c ∧ d' = d := by
  induction n generalizing ids cId with
  | zero =>
    cases ids with
    | nil => exact absurd h Txn.not_gives_throw
    | cons next rest =>
      obtain ⟨rfl, rfl⟩ := Txn.gives_pure h
      exact ⟨rfl, rfl⟩
  | succ n ih =>
    cases ids with
    | nil => exact absurd h Txn.not_gives_throw
    | cons next rest => exact ih h

theorem half_up (n : Nat) : (if n % 2 = 1 then n + 1 else n) / 2 = (n + 1) / 2 := by
  split <;> omega

theorem gives_payingCustomer
    (h : (payingCustomer coll a).Gives d c d') : c = d.payer coll a ∧ d' = d := by
  unfold payingCustomer at h
  unfold Db.payer
  by_cases hname : a.byname = true
  · rw [if_pos hname] at h ⊢
    obtain ⟨namecnt, hcount, h₁⟩ := gives_query_bind h
    obtain ⟨ids, hids, h₂⟩ := gives_query_bind h₁
    rw [← Option.some.inj hids, ← Option.some.inj hcount] at h₂
    simp only [half_up] at h₂
    rw [Db.middle, ← List.getElem?_map]
    cases hn : (d.named coll a.cWId a.cDId a.cLast).length with
    | zero =>
      have hnil : coll.byFirst (d.named coll a.cWId a.cDId a.cLast) = [] :=
        List.length_eq_zero_iff.mp ((coll.perm _).length_eq.trans hn)
      rw [hn] at h₂
      rw [hnil]
      exact Txn.gives_pure h₂
    | succ n =>
      rw [hn, show (n + 1 + 1) / 2 = n / 2 + 1 by omega] at h₂
      obtain ⟨hget, rfl⟩ := gives_fetchCId h₂
      rw [show (n + 1 + 1) / 2 - 1 = n / 2 by omega, hget]
      exact ⟨rfl, rfl⟩
  · rw [if_neg hname] at h ⊢
    exact Txn.gives_pure h

/-- Both branches set the balance of the one customer, who is there: the text that is written back is the
one that was read. -/
theorem gives_bookBalance {wId dId : Int} {cCredit : String} {b : ℚ}
    (h : (bookBalance wId dId cId cCredit b).Gives d u d') : d' = d.setBalance wId dId cId b := by
  unfold bookBalance at h
  split at h
  · obtain ⟨cData, hdata, h₁⟩ := gives_query_bind h
    obtain ⟨r, hr, rfl⟩ := Option.map_eq_some_iff.mp hdata
    obtain ⟨hmem, hkey⟩ := Table.find_eq_some.mp hr
    rw [gives_change h₁, Db.setBalanceData, Db.setBalance]
    congr 1
    refine Table.update_congr fun r' hr' hk => ?_
    obtain rfl := Table.eq_of_key hr' hmem ((of_decide_eq_true hk).trans hkey.symm)
    rfl
  · exact gives_change h

theorem gives_paymentTxn_eq
    (h : (paymentTxn coll a).Gives d u d') :
    (∃ r ∈ d.warehouse.rows, r.key = a.wId) ∧ (∃ r ∈ d.district.rows, r.key = (a.wId, a.dId)) ∧
      ∃ r, d.customer.find (a.cWId, a.cDId, d.payer coll a) = some r ∧
        d' = d.afterPayment a (d.payer coll a) (r.cBalance + a.hAmount) := by
  have hware := gives_change_bind h
  obtain ⟨_, hwfound, h₁⟩ := gives_query_bind hware
  have hdist := gives_change_bind h₁
  obtain ⟨_, hdfound, h₂⟩ := gives_query_bind hdist
  obtain ⟨cId, d₅, hname, h₅⟩ := Txn.gives_bind h₂
  obtain ⟨hcId, rfl⟩ := gives_payingCustomer hname
  obtain ⟨c, hc, h₆⟩ := gives_query_bind h₅
  obtain ⟨_, d₇, hbook, h₇⟩ := Txn.gives_bind h₆
  obtain rfl := gives_bookBalance hbook
  have hhist := gives_change_bind h₇
  obtain rfl := gives_change hhist
  obtain ⟨r, hr, rfl⟩ := Option.map_eq_some_iff.mp hc
  obtain ⟨w, hw, _⟩ := Option.map_eq_some_iff.mp hwfound
  obtain ⟨dist, hdistr, _⟩ := Option.map_eq_some_iff.mp hdfound
  -- The choice of the customer does not look at the tables that have changed before.
  have hcId : cId = d.payer coll a := hcId
  subst hcId
  exact ⟨Table.exists_of_find_update (WarehouseRow.key_addYtd _) hw,
    Table.exists_of_find_update (DistrictRow.key_addYtd _) hdistr, r, hr, rfl⟩

theorem gives_paymentTxn
    (h : (paymentTxn coll a).Gives d u d') : ∃ cId, PaymentEffect a cId d d' := by
  obtain ⟨hw, hdist, r, hr, rfl⟩ := gives_paymentTxn_eq h
  refine ⟨d.payer coll a, ⟨hw, rfl, hdist, rfl, fun k => ?_, rfl, rfl, rfl, rfl⟩⟩
  have hset : ∀ r' : CustomerRow, (r'.setBalance (r.cBalance + a.hAmount)).cBalance = r.cBalance + a.hAmount :=
    fun _ => rfl
  refine (Table.map_find_update (CustomerRow.key_setBalance _) hset (by rw [hr]; simp) k).trans ?_
  by_cases hk : k = (a.cWId, a.cDId, d.payer coll a)
  · rw [if_pos hk, Db.balance, hk, hr]
    simp
  · simp only [if_neg hk]
    exact Option.map_id'.symm

theorem payment_cases (coll : Collation) (a : PaymentArgs) (d : Db) (o : Outside) :
    (payment coll a d o).2 = d ∨ ∃ cId, PaymentEffect a cId d (payment coll a d o).2 := by
  unfold payment
  cases hrun : paymentTxn coll a d o with
  | mk r o' =>
    cases r with
    | ok r => exact .inr (gives_paymentTxn ⟨o, o', hrun⟩)
    | error e => exact .inl rfl

end MysqlBench.Tpcc
