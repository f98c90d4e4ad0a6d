import MysqlBench.Lib.SelectionSort
import MysqlBench.Tpcc.Schema

/-!
# The new order transaction (`neword.c`)

A customer orders up to fifteen items. The order gets the next number of its district, which is
advanced, and a row in `new_orders`; the order lines are gone through in the order of their stock rows,
warehouse first, and each takes its quantity from stock. An item that does not exist ends the
transaction as a success of another kind: everything is rolled back.
-/

namespace MysqlBench.Tpcc

open Lib

/-- The arguments of `neword` and the time of the call. The arrays have `oOlCnt` entries. -/
structure NewOrderArgs where
  wId : Int
  dId : Int
  cId : Int
  oOlCnt : Nat
  oAllLocal : Int
  itemid : Nat → Int
  supware : Nat → Int
  qty : Nat → Int
  datetime : String

/-! ## The order of the lines -/

def NewOrderArgs.sortKey (a : NewOrderArgs) (n : Nat) : Int :=
  (((maxItems : Int) + 1) * a.supware n + a.itemid n).bmod (2 ^ 32)

def NewOrderArgs.olNumSeq (a : NewOrderArgs) : List Nat := selectionSort a.sortKey (List.range a.oOlCnt)

/-- The lines in question order from warehouses `1` to `numWare`, items that exist or the one number
that stands for an item that does not. -/
structure NewOrderArgs.InRange (numWare : Int) (a : NewOrderArgs) : Prop where
  supware : ∀ n < a.oOlCnt, 1 ≤ a.supware n ∧ a.supware n ≤ numWare
  itemid : ∀ n < a.oOlCnt, 1 ≤ a.itemid n ∧ a.itemid n ≤ maxItems + 1

variable {a : NewOrderArgs} {n : Nat} {numWare : Int} {olNumber : Int} {d d' : Db} {u : Unit}

theorem olNumSeq_perm (a : NewOrderArgs) : a.olNumSeq.Perm (List.range a.oOlCnt) :=
  selectionSort_perm a.sortKey _

theorem mem_olNumSeq : n ∈ a.olNumSeq ↔ n < a.oOlCnt := by
  rw [(olNumSeq_perm a).mem_iff, List.mem_range]

theorem length_olNumSeq (a : NewOrderArgs) : a.olNumSeq.length = a.oOlCnt := by
  rw [(olNumSeq_perm a).length_eq, List.length_range]

theorem NewOrderArgs.InRange.sortKey_eq (h : a.InRange numWare)
    (hware : numWare < 21474) (hn : n < a.oOlCnt) :
    a.sortKey n = 100001 * a.supware n + a.itemid n := by
  obtain ⟨hw₁, hw₂⟩ := h.supware n hn
  obtain ⟨hi₁, hi₂⟩ := h.itemid n hn
  have hmax : (maxItems : Int) = 100000 := rfl
  unfold NewOrderArgs.sortKey
  rw [hmax] at hi₂ ⊢
  exact Int.bmod_eq_of_le (by omega) (by omega)

/-- The keys compare as the pairs of warehouse and item: an item number is at least one and at most the
factor of the warehouse. -/
theorem toLex_le_of_sortKey (h : a.InRange numWare)
    (hware : numWare < 21474) {m : Nat} (hm : m < a.oOlCnt) (hn : n < a.oOlCnt)
    (hle : a.sortKey m ≤ a.sortKey n) :
    toLex (a.supware m, a.itemid m) ≤ toLex (a.supware n, a.itemid n) := by
  rw [h.sortKey_eq hware hm, h.sortKey_eq hware hn] at hle
  have him := h.itemid m hm
  have hin := h.itemid n hn
  have hmax : (maxItems : Int) = 100000 := rfl
  rw [hmax] at him hin
  rw [Prod.Lex.toLex_le_toLex]
  by_cases hlt : a.supware m < a.supware n
  · exact .inl hlt
  · have heq : a.supware m = a.supware n := by omega
    exact .inr ⟨heq, by simp only; omega⟩

theorem olNumSeq_pairwise (h : a.InRange numWare)
    (hware : numWare < 21474) :
    a.olNumSeq.Pairwise fun m n =>
      toLex (a.supware m, a.itemid m) ≤ toLex (a.supware n, a.itemid n) := by
  refine (selectionSort_pairwise a.sortKey _).imp_of_mem fun hm hn hle => ?_
  exact toLex_le_of_sortKey h hware (mem_olNumSeq.mp hm) (mem_olNumSeq.mp hn) hle

/-! ## The stock -/

def stockLeft (sQuantity olQuantity : Int) : Int :=
  if sQuantity > olQuantity then sQuantity - olQuantity else sQuantity - olQuantity + 91

theorem stockLeft_bounds {s q : Int} (hs : 1 ≤ s ∧ s ≤ 100) (hq : 1 ≤ q ∧ q ≤ 10) :
    1 ≤ stockLeft s q ∧ stockLeft s q ≤ 100 := by
  unfold stockLeft
  split <;> omega

/-! ## The statements -/

def selectCustomerWarehouse (wId dId cId : Int) : Txn Db TxError (ℚ × ℚ) :=
  query fun d => (d.warehouse.find wId).bind fun w =>
    (d.customer.find (wId, dId, cId)).map fun c => (c.cDiscount, w.wTax)

def selectDistrict (wId dId : Int) : Txn Db TxError (Int × ℚ) :=
  query fun d => (d.district.find (wId, dId)).map fun r => (r.dNextOId, r.dTax)

def Db.setNextOId (d : Db) (wId dId n : Int) : Db :=
  { d with
    district := d.district.update (fun r => r.key = (wId, dId)) (.setNextOId n)
      (DistrictRow.key_setNextOId n) }

def updateNextOId (wId dId dNextOId : Int) : Txn Db TxError Unit :=
  change fun d => d.setNextOId wId dId (dNextOId + 1)

def selectItem (iId : Int) : Txn Db TxError ℚ :=
  Txn.execute .sqlerr fun d =>
    match d.item.find iId with
    | some r => .ok (r.iPrice, d)
    | none => .error .invaliditem

def selectStock (wId iId : Int) : Txn Db TxError Int :=
  query fun d => (d.stock.find (wId, iId)).map fun r => r.sQuantity

def Db.setStock (d : Db) (wId iId sQuantity : Int) : Db :=
  { d with
    stock := d.stock.update (fun r => r.key = (wId, iId)) (.setQuantity sQuantity)
      (StockRow.key_setQuantity sQuantity) }

def updateStock (wId iId sQuantity : Int) : Txn Db TxError Unit :=
  change fun d => d.setStock wId iId sQuantity

def commit : Txn Db TxError Unit := change fun d => d

/-! ## The transaction -/

structure OrderTerms where
  oId : Int
  cDiscount : ℚ
  wTax : ℚ
  dTax : ℚ

variable {terms : OrderTerms}

/-- The row of the order line with number `olNumber`, which is entry `n` of the arrays. -/
def NewOrderArgs.line (a : NewOrderArgs) (terms : OrderTerms) (n : Nat) (olNumber : Int) (iPrice : ℚ) :
    OrderLineRow :=
  { olOId := terms.oId, olDId := a.dId, olWId := a.wId, olNumber := olNumber, olIId := a.itemid n,
    olSupplyWId := a.supware n, olDeliveryD := none, olQuantity := a.qty n,
    olAmount := a.qty n * iPrice * (1 + terms.wTax + terms.dTax) * (1 - terms.cDiscount) }

def NewOrderArgs.order (a : NewOrderArgs) (oId : Int) : OrderRow :=
  { oId := oId, oDId := a.dId, oWId := a.wId, oCId := a.cId, oEntryD := a.datetime, oCarrierId := none,
    oOlCnt := a.oOlCnt, oAllLocal := a.oAllLocal }

def NewOrderArgs.newOrder (a : NewOrderArgs) (oId : Int) : NewOrderRow :=
  { noOId := oId, noDId := a.dId, noWId := a.wId }

def newordLines (a : NewOrderArgs) (terms : OrderTerms) : List Nat → Int → Txn Db TxError Unit
  | [], _ => pure ()
  | n :: rest, olNumber => do
    let iPrice ← selectItem (a.itemid n)
    let sQuantity ← selectStock (a.supware n) (a.itemid n)
    updateStock (a.supware n) (a.itemid n) (stockLeft sQuantity (a.qty n))
    insertOrderLine (a.line terms n olNumber iPrice)
    newordLines a terms rest (olNumber + 1)

def newordTxn (a : NewOrderArgs) : Txn Db TxError Unit := do
  let cw ← selectCustomerWarehouse a.wId a.dId a.cId
  let dist ← selectDistrict a.wId a.dId
  updateNextOId a.wId a.dId dist.1
  insertOrder (a.order dist.1)
  insertNewOrder (a.newOrder dist.1)
  newordLines a ⟨dist.1, cw.1, cw.2, dist.2⟩ a.olNumSeq 1
  commit

def neword (a : NewOrderArgs) (d : Db) (o : Outside) : Int × Db :=
  match newordTxn a d o with
  | (.ok (_, d'), _) => (1, d')
  | (.error .invaliditem, _) => (1, d)
  | (.error .sqlerr, _) => (0, d)

/-! ## Its effect -/

structure LinesOf (a : NewOrderArgs) (oId olNumber : Int) (cnt : Nat) (lines : List OrderLineRow) :
    Prop where
  number : lines.map OrderLineRow.olNumber = (List.range cnt).map fun i : Nat => olNumber + (i : Int)
  order : ∀ l ∈ lines, l.order = (a.wId, a.dId, oId)
  undelivered : ∀ l ∈ lines, l.olDeliveryD = none

theorem LinesOf.cons {cnt : Nat}
    {lines : List OrderLineRow} (h : LinesOf a terms.oId (olNumber + 1) cnt lines) (n : Nat) (iPrice : ℚ) :
    LinesOf a terms.oId olNumber (cnt + 1) (a.line terms n olNumber iPrice :: lines) := by
  refine ⟨?_, fun l hl => ?_, fun l hl => ?_⟩
  · rw [List.map_cons, h.number, List.range_succ_eq_map, List.map_cons, List.map_map]
    congr 1
    · simp [NewOrderArgs.line]
    · refine List.map_congr_left fun i _ => ?_
      simp only [Function.comp_apply, Nat.succ_eq_add_one, Int.natCast_add, Int.natCast_one]
      omega
  · cases hl with
    | head => rfl
    | tail _ hl => exact h.order l hl
  · cases hl with
    | head => rfl
    | tail _ hl => exact h.undelivered l hl

theorem gives_selectItem {iId : Int} {iPrice : ℚ} (h : (selectItem iId).Gives d iPrice d') :
    (d.item.find iId).map ItemRow.iPrice = some iPrice ∧ d' = d := by
  have h := Txn.gives_execute h
  cases hfind : d.item.find iId with
  | none =>
    rw [hfind] at h
    exact absurd h (by simp)
  | some r =>
    rw [hfind] at h
    obtain ⟨hprice, hd⟩ := Prod.mk.inj (Except.ok.inj h)
    exact ⟨congrArg some hprice, hd.symm⟩

theorem gives_newordLines {seq : List Nat} (h : (newordLines a terms seq olNumber).Gives d u d') :
    d' = { d with stock := d'.stock, orderLine := d'.orderLine } ∧
      ∃ lines, d'.orderLine.rows = d.orderLine.rows ++ lines ∧
        LinesOf a terms.oId olNumber seq.length lines := by
  induction seq generalizing olNumber d with
  | nil =>
    obtain ⟨_, rfl⟩ := Txn.gives_pure h
    exact ⟨rfl, [], (List.append_nil _).symm, rfl, (fun _ hl => nomatch hl), fun _ hl => nomatch hl⟩
  | cons n rest ih =>
    obtain ⟨iPrice, d₁, hitem, h₁⟩ := Txn.gives_bind h
    have hd₁ := (gives_selectItem hitem).2
    obtain ⟨sQuantity, _, h₂⟩ := gives_query_bind h₁
    obtain ⟨_, d₄, hinsert, h₄⟩ := Txn.gives_bind (gives_change_bind h₂)
    obtain ⟨t, _, hrows, hd₄⟩ := gives_insertInto hinsert
    obtain ⟨hsame, lines, hlines, hof⟩ := ih h₄
    rw [hd₁] at hd₄ hrows
    rw [hd₄] at hsame hlines
    refine ⟨hsame, a.line terms n olNumber iPrice :: lines, ?_, hof.cons n iPrice⟩
    rw [hlines, hrows, List.append_assoc]
    rfl

/-- What a `neword` that commits has done to the database, the stock apart: the order has the number that
its district had. -/
structure NewordEffect (a : NewOrderArgs) (oId : Int) (lines : List OrderLineRow) (d d' : Db) : Prop where
  next : ∃ r ∈ d.district.rows, r.key = (a.wId, a.dId) ∧ r.dNextOId = oId
  district : d'.district = (d.setNextOId a.wId a.dId (oId + 1)).district
  orders : d'.orders.rows = d.orders.rows ++ [a.order oId]
  newOrders : d'.newOrders.rows = d.newOrders.rows ++ [a.newOrder oId]
  orderLine : d'.orderLine.rows = d.orderLine.rows ++ lines
  lines : LinesOf a oId 1 a.oOlCnt lines
  warehouse : d'.warehouse = d.warehouse
  customer : d'.customer = d.customer
  history : d'.history = d.history

theorem gives_newordTxn (h : (newordTxn a).Gives d u d') :
    ∃ oId lines, NewordEffect a oId lines d d' := by
  obtain ⟨cw, _, h₁⟩ := gives_query_bind h
  obtain ⟨dist, hfind, h₂⟩ := gives_query_bind h₁
  obtain ⟨_, d₄, horder, h₄⟩ := Txn.gives_bind (gives_change_bind h₂)
  obtain ⟨orders, _, horders, rfl⟩ := gives_insertInto horder
  obtain ⟨_, d₅, hnewOrder, h₅⟩ := Txn.gives_bind h₄
  obtain ⟨newOrders, _, hnewOrders, rfl⟩ := gives_insertInto hnewOrder
  obtain ⟨_, d₆, hlines, h₆⟩ := Txn.gives_bind h₅
  obtain ⟨hsame, lines, hrows, hof⟩ := gives_newordLines hlines
  obtain rfl := gives_change h₆
  obtain ⟨r, hr, heq⟩ := Option.map_eq_some_iff.mp hfind
  obtain ⟨hmem, hkey⟩ := Table.find_eq_some.mp hr
  rw [length_olNumSeq] at hof
  exact ⟨dist.1, lines,
    { next := ⟨r, hmem, hkey, congrArg Prod.fst heq⟩
      district := by rewrite [hsame]; rfl
      orders := by rw [hsame]; exact horders
      newOrders := by rw [hsame]; exact hnewOrders
      orderLine := hrows
      lines := hof
      warehouse := by rewrite [hsame]; rfl
      customer := by rewrite [hsame]; rfl
      history := by rewrite [hsame]; rfl }⟩

theorem neword_cases (a : NewOrderArgs) (d : Db) (o : Outside) :
    (neword a d o).2 = d ∨ ∃ oId lines, NewordEffect a oId lines d (neword a d o).2 := by
  unfold neword
  cases hrun : newordTxn a d o with
  | mk r o' =>
    cases r with
    | ok r => exact .inr (gives_newordTxn ⟨o, o', hrun⟩)
    | error e =>
      cases e with
      | sqlerr => exact .inl rfl
      | invaliditem => exact .inl rfl

end MysqlBench.Tpcc
