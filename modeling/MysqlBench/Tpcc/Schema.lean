import MysqlBench.Lib.Table
import MysqlBench.Lib.Transaction

/-!
# The TPC-C database

The tables of `create_table.sql` with their primary keys, and the way the programs execute a statement.
Columns that nothing here reads (names, addresses, texts, entry dates) are left out. Amounts are exact
numbers. Integer columns are unbounded: a value the server finds out of range is one more reason for it
to refuse a statement, and every statement may be refused.
-/

namespace MysqlBench.Tpcc

open Lib

/-! ## Sizes (`tpc.h`) -/

def maxItems : Nat := 100000
def custPerDist : Nat := 3000
def distPerWare : Nat := 10
def ordPerDist : Nat := 3000
def maxNumItems : Nat := 15

def upTo (n : Nat) : List Int := (List.range n).map fun i : Nat => (i : Int) + 1

theorem mem_upTo {n : Nat} {i : Int} : i ∈ upTo n ↔ 1 ≤ i ∧ i ≤ n := by
  unfold upTo
  rw [List.mem_map]
  constructor
  · rintro ⟨j, hj, rfl⟩
    have := List.mem_range.mp hj
    omega
  · rintro ⟨h₁, h₂⟩
    exact ⟨(i - 1).toNat, List.mem_range.mpr (by omega), by omega⟩

theorem length_upTo (n : Nat) : (upTo n).length = n := by
  rw [upTo, List.length_map, List.length_range]

theorem nodup_upTo (n : Nat) : (upTo n).Nodup := by
  refine List.nodup_range.map fun i j hij => ?_
  have hij : (i : Int) + 1 = j + 1 := hij
  omega

/-! ## Rows -/

structure WarehouseRow where
  wId : Int
  wTax : ℚ
  wYtd : ℚ
  deriving DecidableEq

structure DistrictRow where
  dId : Int
  dWId : Int
  dTax : ℚ
  dYtd : ℚ
  dNextOId : Int
  deriving DecidableEq

structure CustomerRow where
  cId : Int
  cDId : Int
  cWId : Int
  cFirst : String
  cLast : String
  cCredit : String
  cDiscount : ℚ
  cBalance : ℚ
  cDeliveryCnt : Int
  cData : String
  deriving DecidableEq

structure HistoryRow where
  hCId : Int
  hCDId : Int
  hCWId : Int
  hDId : Int
  hWId : Int
  hDate : String
  hAmount : ℚ
  deriving DecidableEq

structure NewOrderRow where
  noOId : Int
  noDId : Int
  noWId : Int
  deriving DecidableEq

structure OrderRow where
  oId : Int
  oDId : Int
  oWId : Int
  oCId : Int
  oEntryD : String
  oCarrierId : Option Int
  oOlCnt : Int
  oAllLocal : Int
  deriving DecidableEq

structure OrderLineRow where
  olOId : Int
  olDId : Int
  olWId : Int
  olNumber : Int
  olIId : Int
  olSupplyWId : Int
  olDeliveryD : Option String
  olQuantity : Int
  olAmount : ℚ
  deriving DecidableEq

structure ItemRow where
  iId : Int
  iPrice : ℚ
  deriving DecidableEq

structure StockRow where
  sIId : Int
  sWId : Int
  sQuantity : Int
  deriving DecidableEq

/-! ## Primary keys -/

def WarehouseRow.key (r : WarehouseRow) : Int := r.wId
def DistrictRow.key (r : DistrictRow) : Int × Int := (r.dWId, r.dId)
def CustomerRow.key (r : CustomerRow) : Int × Int × Int := (r.cWId, r.cDId, r.cId)
def NewOrderRow.key (r : NewOrderRow) : Int × Int × Int := (r.noWId, r.noDId, r.noOId)
def OrderRow.key (r : OrderRow) : Int × Int × Int := (r.oWId, r.oDId, r.oId)
def OrderLineRow.key (r : OrderLineRow) : Int × Int × Int × Int := (r.olWId, r.olDId, r.olOId, r.olNumber)
def ItemRow.key (r : ItemRow) : Int := r.iId
def StockRow.key (r : StockRow) : Int × Int := (r.sWId, r.sIId)

def OrderLineRow.order (r : OrderLineRow) : Int × Int × Int := (r.olWId, r.olDId, r.olOId)

/-! ## Updates of columns outside the key -/

def WarehouseRow.addYtd (amount : ℚ) (r : WarehouseRow) : WarehouseRow := { r with wYtd := r.wYtd + amount }

theorem WarehouseRow.key_addYtd (amount : ℚ) (r : WarehouseRow) : (r.addYtd amount).key = r.key := rfl

def DistrictRow.addYtd (amount : ℚ) (r : DistrictRow) : DistrictRow := { r with dYtd := r.dYtd + amount }

theorem DistrictRow.key_addYtd (amount : ℚ) (r : DistrictRow) : (r.addYtd amount).key = r.key := rfl

def DistrictRow.setNextOId (n : Int) (r : DistrictRow) : DistrictRow := { r with dNextOId := n }

theorem DistrictRow.key_setNextOId (n : Int) (r : DistrictRow) : (r.setNextOId n).key = r.key := rfl

def StockRow.setQuantity (q : Int) (r : StockRow) : StockRow := { r with sQuantity := q }

theorem StockRow.key_setQuantity (q : Int) (r : StockRow) : (r.setQuantity q).key = r.key := rfl

def CustomerRow.setBalance (b : ℚ) (r : CustomerRow) : CustomerRow := { r with cBalance := b }

theorem CustomerRow.key_setBalance (b : ℚ) (r : CustomerRow) : (r.setBalance b).key = r.key := rfl

def CustomerRow.setBalanceData (b : ℚ) (data : String) (r : CustomerRow) : CustomerRow :=
  { r with cBalance := b, cData := data }

theorem CustomerRow.key_setBalanceData (b : ℚ) (data : String) (r : CustomerRow) :
    (r.setBalanceData b data).key = r.key := rfl

def CustomerRow.addDelivery (amount : ℚ) (r : CustomerRow) : CustomerRow :=
  { r with cBalance := r.cBalance + amount, cDeliveryCnt := r.cDeliveryCnt + 1 }

theorem CustomerRow.key_addDelivery (amount : ℚ) (r : CustomerRow) : (r.addDelivery amount).key = r.key := rfl

def OrderRow.setCarrier (carrier : Int) (r : OrderRow) : OrderRow := { r with oCarrierId := some carrier }

theorem OrderRow.key_setCarrier (carrier : Int) (r : OrderRow) : (r.setCarrier carrier).key = r.key := rfl

def OrderLineRow.setDelivery (datetime : String) (r : OrderLineRow) : OrderLineRow :=
  { r with olDeliveryD := some datetime }

theorem OrderLineRow.key_setDelivery (datetime : String) (r : OrderLineRow) :
    (r.setDelivery datetime).key = r.key := rfl

/-! ## The database -/

structure Db where
  warehouse : Table WarehouseRow Int WarehouseRow.key
  district : Table DistrictRow (Int × Int) DistrictRow.key
  customer : Table CustomerRow (Int × Int × Int) CustomerRow.key
  history : List HistoryRow
  newOrders : Table NewOrderRow (Int × Int × Int) NewOrderRow.key
  orders : Table OrderRow (Int × Int × Int) OrderRow.key
  orderLine : Table OrderLineRow (Int × Int × Int × Int) OrderLineRow.key
  item : Table ItemRow Int ItemRow.key
  stock : Table StockRow (Int × Int) StockRow.key

def Db.empty : Db :=
  { warehouse := .empty, district := .empty, customer := .empty, history := [], newOrders := .empty,
    orders := .empty, orderLine := .empty, item := .empty, stock := .empty }

/-! ## Statements -/

variable {R K : Type} {r : R} {α β : Type} {f : Db → Option (α × Db)} {d d' : Db} {a : α} {b : β}
  {P : Db → Prop} {u : Unit}

inductive TxError where
  | sqlerr
  | invaliditem
  deriving DecidableEq

/-- A statement whose failure of any kind leads to `sqlerr`: `none` is a fetch without data or a key that
is there already. -/
def statement {α : Type} (f : Db → Option (α × Db)) : Txn Db TxError α :=
  Txn.execute .sqlerr fun d =>
    match f d with
    | some r => .ok r
    | none => .error .sqlerr

theorem gives_statement
    (h : (statement f).Gives d a d') : f d = some (a, d') := by
  have h := Txn.gives_execute h
  cases hf : f d with
  | none => rw [hf] at h; exact absurd h (by simp)
  | some r =>
    rw [hf] at h
    exact congrArg some (Except.ok.inj h)

theorem meets_statement {Q : α → Db → Prop}
    (h : ∀ d, P d → ∃ a d', f d = some (a, d') ∧ Q a d') : Txn.Meets P (statement f) Q := by
  refine Txn.meets_execute fun d hd => ?_
  obtain ⟨a, d', heq, hq⟩ := h d hd
  exact ⟨a, d', by rw [heq], hq⟩

def query {α : Type} (f : Db → Option α) : Txn Db TxError α := statement fun d => (f d).map fun a => (a, d)

theorem gives_query {f : Db → Option α} (h : (query f).Gives d a d') :
    f d = some a ∧ d' = d := by
  obtain ⟨a', ha, heq⟩ := Option.map_eq_some_iff.mp (gives_statement h)
  cases heq
  exact ⟨ha, rfl⟩

theorem gives_query_bind {f : Db → Option α} {k : α → Txn Db TxError β}
    (h : (query f >>= k).Gives d b d') : ∃ a, f d = some a ∧ (k a).Gives d b d' := by
  obtain ⟨a, d₁, ha, hk⟩ := Txn.gives_bind h
  obtain ⟨ha, rfl⟩ := gives_query ha
  exact ⟨a, ha, hk⟩

def change (f : Db → Db) : Txn Db TxError Unit := statement fun d => some ((), f d)

theorem gives_change {f : Db → Db} (h : (change f).Gives d u d') : d' = f d :=
  (Prod.mk.inj (Option.some.inj (gives_statement h))).2.symm

theorem gives_change_bind {f : Db → Db} {k : Unit → Txn Db TxError β}
    (h : (change f >>= k).Gives d b d') : (k ()).Gives (f d) b d' := by
  obtain ⟨_, d₁, hd, hk⟩ := Txn.gives_bind h
  obtain rfl := gives_change hd
  exact hk

theorem completes_change (f : Db → Db) (d : Db) : (change f).Completes d 1 () (f d) :=
  Txn.completes_execute rfl

theorem completes_query_bind {f : Db → Option α} {k : α → Txn Db TxError β} {n : Nat} (h : f d = some a)
    (hk : (k a).Completes d n b d') : (query f >>= k).Completes d (1 + n) b d' := by
  have hquery : (query f).Completes d 1 a d := Txn.completes_execute (by simp [h])
  exact hquery.bind hk

theorem completes_change_bind {f : Db → Db} {k : Unit → Txn Db TxError β} {n : Nat}
    (hk : (k ()).Completes (f d) n b d') : (change f >>= k).Completes d (1 + n) b d' :=
  (completes_change f d).bind hk

/-! ## Insertions -/

def insertInto {R K : Type} {key : R → K} [DecidableEq K] (get : Db → Table R K key)
    (set : Db → Table R K key → Db) (r : R) : Txn Db TxError Unit :=
  statement fun d => ((get d).insert r).map fun t => ((), set d t)

theorem gives_insertInto {key : R → K} [DecidableEq K] {get : Db → Table R K key}
    {set : Db → Table R K key → Db}
    (h : (insertInto get set r).Gives d u d') :
    ∃ t, key r ∉ (get d).rows.map key ∧ t.rows = (get d).rows ++ [r] ∧ d' = set d t := by
  obtain ⟨t, ht, heq⟩ := Option.map_eq_some_iff.mp (gives_statement h)
  obtain ⟨hfresh, hrows⟩ := Table.insert_eq_some.mp ht
  exact ⟨t, hfresh, hrows, (Prod.mk.inj heq).2.symm⟩

theorem meets_insertInto {key : R → K} [DecidableEq K] {get : Db → Table R K key}
    {set : Db → Table R K key → Db} {Q : Unit → Db → Prop}
    (hfresh : ∀ d, P d → key r ∉ (get d).rows.map key)
    (hpost : ∀ d t, P d → t.rows = (get d).rows ++ [r] → Q () (set d t)) :
    Txn.Meets P (insertInto get set r) Q := by
  refine meets_statement fun d hd => ?_
  obtain ⟨t, ht, hrows⟩ : ∃ t, (get d).insert r = some t ∧ t.rows = (get d).rows ++ [r] := by
    refine ⟨⟨_, Table.nodup_append_row (get d).nodup (hfresh d hd)⟩, ?_, rfl⟩
    exact Table.insert_eq_some.mpr ⟨hfresh d hd, rfl⟩
  exact ⟨(), set d t, by rw [ht]; rfl, hpost d t hd hrows⟩

def insertWarehouse : WarehouseRow → Txn Db TxError Unit :=
  insertInto Db.warehouse fun d t => { d with warehouse := t }

def insertDistrict : DistrictRow → Txn Db TxError Unit :=
  insertInto Db.district fun d t => { d with district := t }

def insertCustomer : CustomerRow → Txn Db TxError Unit :=
  insertInto Db.customer fun d t => { d with customer := t }

def insertHistory (r : HistoryRow) : Txn Db TxError Unit :=
  change fun d => { d with history := d.history ++ [r] }

def insertNewOrder : NewOrderRow → Txn Db TxError Unit :=
  insertInto Db.newOrders fun d t => { d with newOrders := t }

def insertOrder : OrderRow → Txn Db TxError Unit :=
  insertInto Db.orders fun d t => { d with orders := t }

def insertOrderLine : OrderLineRow → Txn Db TxError Unit :=
  insertInto Db.orderLine fun d t => { d with orderLine := t }

def insertItem : ItemRow → Txn Db TxError Unit :=
  insertInto Db.item fun d t => { d with item := t }

def insertStock : StockRow → Txn Db TxError Unit :=
  insertInto Db.stock fun d t => { d with stock := t }

end MysqlBench.Tpcc
