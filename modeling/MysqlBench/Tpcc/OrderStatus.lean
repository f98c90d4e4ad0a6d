import MysqlBench.Tpcc.PaymentFrame

/-!
# The order status transaction (`ordstat.c`)

The name and the balance of a customer are read, then the latest order of the customer, then its lines. The
customer is given by number or by last name, as for a payment. But the statement by name selects no number:
the order is looked for with the number that is an argument of the call, whoever the rows have been fetched
of (`ordstat_eq`).
-/

namespace MysqlBench.Tpcc

open Lib

structure OrdstatArgs where
  wId : Int
  dId : Int
  byname : Bool
  cId : Int
  cLast : String

/-- What has been read: `c_balance`, `c_first` and `c_last`, which no fetch may have written; `o_id`,
`o_entry_d` and `o_carrier_id`; and the lines. -/
structure OrdstatResult where
  customer : Option (ℚ × String × String)
  order : Int × String × Int
  lines : List OrderLineRow

/-! ## The statements -/

def CustomerRow.status (r : CustomerRow) : ℚ × String × String := (r.cBalance, r.cFirst, r.cLast)

def selectStatusByName (coll : Collation) (wId dId : Int) (cLast : String) :
    Txn Db TxError (List (ℚ × String × String)) :=
  query fun d => some ((coll.byFirst (d.named coll wId dId cLast)).map CustomerRow.status)

def fetchStatus {α : Type} : Nat → List α → Option α → Txn Db TxError (Option α)
  | 0, _, row => pure row
  | _ + 1, [], _ => Txn.throw .sqlerr
  | n + 1, next :: rest, _ => fetchStatus n rest (some next)

def selectStatus (wId dId cId : Int) : Txn Db TxError (Option (ℚ × String × String)) :=
  query fun d => (d.customer.find (wId, dId, cId)).map fun r => some r.status

def customerStatus (coll : Collation) (a : OrdstatArgs) : Txn Db TxError (Option (ℚ × String × String)) :=
  if a.byname then do
    let namecnt ← countByName coll a.wId a.dId a.cLast
    let rows ← selectStatusByName coll a.wId a.dId a.cLast
    let namecnt := if namecnt % 2 = 1 then namecnt + 1 else namecnt
    fetchStatus (namecnt / 2) rows none
  else selectStatus a.wId a.dId a.cId

def Db.ordersOf (d : Db) (wId dId cId : Int) : List OrderRow :=
  d.orders.rows.filter fun r => r.oWId = wId ∧ r.oDId = dId ∧ r.oCId = cId

def Db.latestOrder (d : Db) (wId dId cId : Int) : Option OrderRow :=
  (d.ordersOf wId dId cId).find? fun r => some r.oId = ((d.ordersOf wId dId cId).map OrderRow.oId).max?

def OrderRow.status (r : OrderRow) : Int × String × Int := (r.oId, r.oEntryD, r.oCarrierId.getD 0)

def selectLatest (wId dId cId : Int) : Txn Db TxError (Int × String × Int) :=
  query fun d => (d.latestOrder wId dId cId).map OrderRow.status

def Db.linesOf (d : Db) (k : Int × Int × Int) : List OrderLineRow :=
  d.orderLine.rows.filter fun r => r.order = k

def selectLines (k : Int × Int × Int) : Txn Db TxError (List OrderLineRow) := query fun d => some (d.linesOf k)

/-! ## The transaction -/

def ordstatTxn (coll : Collation) (a : OrdstatArgs) : Txn Db TxError OrdstatResult := do
  let customer ← customerStatus coll a
  let order ← selectLatest a.wId a.dId a.cId
  let lines ← selectLines (a.wId, a.dId, order.1)
  commit
  pure ⟨customer, order, lines⟩

def ordstat (coll : Collation) (a : OrdstatArgs) (d : Db) (o : Outside) : Option OrdstatResult :=
  match ordstatTxn coll a d o with
  | (.ok (res, _), _) => some res
  | (.error _, _) => none

variable {d d' : Db} {coll : Collation} {a : OrdstatArgs} {wId dId cId : Int} {r : OrderRow}

theorem gives_fetchStatus {α : Type} {n : Nat} {rows : List α} {row c : Option α}
    (h : (fetchStatus (n + 1) rows row).Gives d c d') : c = rows[n]? ∧ d' = d := by
  induction n generalizing rows row with
  | zero =>
    cases rows with
    | nil => exact absurd h Txn.not_gives_throw
    | cons next rest => exact Txn.gives_pure h
  | succ n ih =>
    cases rows with
    | nil => exact absurd h Txn.not_gives_throw
    | cons next rest => exact ih h

theorem gives_customerStatus (hname : a.byname = true)
    {c : Option (ℚ × String × String)} (hn : d.named coll a.wId a.dId a.cLast ≠ [])
    (h : (customerStatus coll a).Gives d c d') :
    c = (d.middle coll a.wId a.dId a.cLast).map CustomerRow.status ∧ d' = d := by
  rw [customerStatus, if_pos hname] at h
  obtain ⟨namecnt, hcount, h₁⟩ := gives_query_bind h
  obtain ⟨rows, hrows, h₂⟩ := gives_query_bind h₁
  rw [← Option.some.inj hrows, ← Option.some.inj hcount] at h₂
  simp only [half_up] at h₂
  obtain ⟨n, hlen⟩ := Nat.exists_eq_succ_of_ne_zero (mt List.length_eq_zero_iff.mp hn)
  rw [hlen, show (n.succ + 1) / 2 = n / 2 + 1 by omega] at h₂
  rw [Db.middle, hlen, show (n.succ + 1) / 2 - 1 = n / 2 by omega, ← List.getElem?_map]
  exact gives_fetchStatus h₂

theorem latestOrder_mem (h : d.latestOrder wId dId cId = some r) :
    r ∈ d.orders.rows ∧ r.oCId = cId := by
  obtain ⟨hmem, hp⟩ := List.mem_filter.mp (List.mem_of_find?_eq_some h)
  exact ⟨hmem, (of_decide_eq_true hp).2.2⟩

theorem latestOrder_key (h : d.latestOrder wId dId cId = some r) :
    r.key = (wId, dId, r.oId) := by
  have hp := of_decide_eq_true (List.mem_filter.mp (List.mem_of_find?_eq_some h)).2
  rw [OrderRow.key, hp.1, hp.2.1]

theorem ordstat_eq (hname : a.byname = true) {o : Outside}
    (hn : d.named coll a.wId a.dId a.cLast ≠ []) {res : OrdstatResult} (h : ordstat coll a d o = some res) :
    res.customer = (d.middle coll a.wId a.dId a.cLast).map CustomerRow.status ∧
      ∃ r, d.latestOrder a.wId a.dId a.cId = some r ∧ res.order = r.status ∧ res.lines = d.linesOf r.key := by
  unfold ordstat at h
  cases hrun : ordstatTxn coll a d o with
  | mk x o' =>
    rw [hrun] at h
    cases x with
    | error e => exact absurd h (by simp)
    | ok x =>
      obtain rfl : x.1 = res := Option.some.inj h
      obtain ⟨c, d₁, hc, h₁⟩ := Txn.gives_bind (⟨o, o', hrun⟩ : (ordstatTxn coll a).Gives d x.1 x.2)
      obtain ⟨hc, rfl⟩ := gives_customerStatus hname hn hc
      obtain ⟨order, horder, h₂⟩ := gives_query_bind h₁
      obtain ⟨lines, hlines, h₃⟩ := gives_query_bind h₂
      obtain ⟨_, d₄, hcommit, h₄⟩ := Txn.gives_bind h₃
      obtain ⟨r, hr, rfl⟩ := Option.map_eq_some_iff.mp horder
      rw [(Txn.gives_pure h₄).1]
      refine ⟨hc, r, hr, rfl, ?_⟩
      rw [latestOrder_key hr]
      exact (Option.some.inj hlines).symm

/-- When a name is given that somebody has, the name and the balance are those of the customer in
the middle; and the order and the lines are those of the latest order of this customer exactly when
the number given with the name is theirs: the number of the customer is not fetched. -/
theorem ordstat_byname_iff {coll : Collation} {a : OrdstatArgs} (hname : a.byname = true) {d : Db}
    {o : Outside} (hn : d.named coll a.wId a.dId a.cLast ≠ []) {res : OrdstatResult}
    (h : ordstat coll a d o = some res) :
    ∃ c, d.middle coll a.wId a.dId a.cLast = some c ∧ res.customer = some c.status ∧
      ((∃ r, d.latestOrder a.wId a.dId c.cId = some r ∧ res.order = r.status ∧ res.lines = d.linesOf r.key) ↔
        a.cId = c.cId) := by
  obtain ⟨hcustomer, r, hr, horder, hlines⟩ := ordstat_eq hname hn h
  cases hmiddle : d.middle coll a.wId a.dId a.cLast with
  | none =>
    have := List.getElem?_eq_none_iff.mp hmiddle
    rw [(coll.perm _).length_eq] at this
    have := List.length_pos_iff.mpr hn
    omega
  | some c =>
    rw [hmiddle] at hcustomer
    refine ⟨c, rfl, hcustomer, fun ⟨r', hr', horder', _⟩ => ?_, fun hc => ⟨r, hc ▸ hr, horder, hlines⟩⟩
    -- The number decides the order in its district, and so the customer of the order.
    have hid : r.oId = r'.oId := congrArg Prod.fst (horder.symm.trans horder')
    have hkey : r.key = r'.key := by rw [latestOrder_key hr, latestOrder_key hr', hid]
    obtain ⟨hmem, hcust⟩ := latestOrder_mem hr
    obtain ⟨hmem', hcust'⟩ := latestOrder_mem hr'
    rw [← hcust, ← hcust', Table.eq_of_key hmem hmem' hkey]

def twoNames : Db :=
  { oneCustomer with
    customer := ⟨[customerSeven, { customerSeven with cId := 8, cLast := "ESEESEESE" }], by decide⟩
    orders := ⟨[⟨1, 1, 1, 7, "", none, 0, 1⟩, ⟨2, 1, 1, 8, "", none, 0, 1⟩], by decide⟩ }

/-- The name of customer seven with the number of customer eight. -/
theorem ordstat_other_order :
    (ordstat plainCollation ⟨1, 1, true, 8, "BARBARBAR"⟩ twoNames ⟨[], fun _ => 0⟩).map (fun res => res.order.1) =
      some 2 ∧
    (twoNames.middle plainCollation 1 1 "BARBARBAR").map CustomerRow.cId = some 7 ∧
    (twoNames.latestOrder 1 1 7).map OrderRow.oId = some 1 := by
  decide

/-- The name of customer seven with their own number. -/
theorem ordstat_byname_iff_own : ∃ res c, ordstat plainCollation ⟨1, 1, true, 7, "BARBARBAR"⟩ twoNames
    ⟨[], fun _ => 0⟩ = some res ∧ twoNames.middle plainCollation 1 1 "BARBARBAR" = some c ∧
    res.customer = some c.status := by
  obtain ⟨res, hres⟩ : ∃ res, ordstat plainCollation ⟨1, 1, true, 7, "BARBARBAR"⟩ twoNames
    ⟨[], fun _ => 0⟩ = some res := ⟨_, rfl⟩
  obtain ⟨c, hc, hstatus, _⟩ := ordstat_byname_iff rfl (by decide) hres
  exact ⟨res, c, hres, hc, hstatus⟩

end MysqlBench.Tpcc
