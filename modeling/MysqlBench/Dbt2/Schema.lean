import MysqlBench.Lib.Table

/-!
# The database of the transactions (`build_db.sh`)

The tables with the columns that the modelled statements read or write, and their primary keys. Texts are lists
of characters. In `build_db.sh` nearly every column outside the keys may be `NULL`. Here only `c_credit` and `c_data`
may: what the payment does depends on it. The other ones (the names, the balances and totals, `i_price`,
`d_next_o_id`) have a value in every row, as in the rows that `datagen` and the transactions write. Quantities in
stock are whole numbers, as `datagen` writes them.
-/

namespace MysqlBench.Dbt2

open Lib

structure WarehouseRow where
  wId : Int
  wName : List Char
  wYtd : ℚ
  deriving DecidableEq

structure DistrictRow where
  dWId : Int
  dId : Int
  dName : List Char
  dYtd : ℚ
  dNextOId : Int
  deriving DecidableEq

structure CustomerRow where
  cWId : Int
  cDId : Int
  cId : Int
  cFirst : List Char
  cLast : List Char
  cCredit : Option (List Char)
  cBalance : ℚ
  cYtdPayment : ℚ
  cData : Option (List Char)
  deriving DecidableEq

structure HistoryRow where
  hCId : Int
  hCDId : Int
  hCWId : Int
  hDId : Int
  hWId : Int
  hAmount : ℚ
  hData : List Char
  deriving DecidableEq

structure OrderRow where
  oId : Int
  oDId : Int
  oWId : Int
  oCId : Int
  oOlCnt : Int
  oAllLocal : Int
  deriving DecidableEq

structure NewOrderRow where
  noOId : Int
  noDId : Int
  noWId : Int
  deriving DecidableEq

structure OrderLineRow where
  olOId : Int
  olDId : Int
  olWId : Int
  olNumber : Int
  olIId : Int
  olSupplyWId : Int
  olQuantity : Int
  deriving DecidableEq

structure ItemRow where
  iId : Int
  iPrice : ℚ
  deriving DecidableEq

structure StockRow where
  sWId : Int
  sIId : Int
  sQuantity : Int
  deriving DecidableEq

def WarehouseRow.key (r : WarehouseRow) : Int := r.wId
def DistrictRow.key (r : DistrictRow) : Int × Int := (r.dWId, r.dId)
def CustomerRow.key (r : CustomerRow) : Int × Int × Int := (r.cWId, r.cDId, r.cId)
def OrderRow.key (r : OrderRow) : Int × Int × Int := (r.oWId, r.oDId, r.oId)
def NewOrderRow.key (r : NewOrderRow) : Int × Int × Int := (r.noWId, r.noDId, r.noOId)
def OrderLineRow.key (r : OrderLineRow) : Int × Int × Int × Int := (r.olWId, r.olDId, r.olOId, r.olNumber)
def ItemRow.key (r : ItemRow) : Int := r.iId
def StockRow.key (r : StockRow) : Int × Int := (r.sWId, r.sIId)

structure Db where
  warehouse : Table WarehouseRow Int WarehouseRow.key
  district : Table DistrictRow (Int × Int) DistrictRow.key
  customer : Table CustomerRow (Int × Int × Int) CustomerRow.key
  history : List HistoryRow
  orders : Table OrderRow (Int × Int × Int) OrderRow.key
  newOrder : Table NewOrderRow (Int × Int × Int) NewOrderRow.key
  orderLine : Table OrderLineRow (Int × Int × Int × Int) OrderLineRow.key
  item : Table ItemRow Int ItemRow.key
  stock : Table StockRow (Int × Int) StockRow.key

def printInt : Int → List Char
  | .ofNat n => Nat.toDigits 10 n
  | .negSucc n => '-' :: Nat.toDigits 10 (n + 1)

/-- What the statements with a last name in them depend on in the server: whether the text between the quotes is a
literal that denotes the text; the numbers that are found if it is not, and the statement is another one than was
meant; how names are compared and ordered. -/
structure Server where
  reads : List Char → Bool
  other : List Char → List Int
  same : List Char → List Char → Bool
  same_self : ∀ name, same name name
  exists_differs : ∀ name, ∃ name', ¬same name' name
  byFirst : List CustomerRow → List CustomerRow
  perm : ∀ rows, (byFirst rows).Perm rows

def Db.named (db : Db) (srv : Server) (wId dId : Int) (name : List Char) : List CustomerRow :=
  srv.byFirst (db.customer.rows.filter fun r => r.cWId = wId ∧ r.cDId = dId ∧ srv.same r.cLast name)

def Db.selectByName (db : Db) (srv : Server) (wId dId : Int) (cLast : List Char) : List Int :=
  if srv.reads cLast then (db.named srv wId dId cLast).map CustomerRow.cId else srv.other cLast

theorem mem_named {db : Db} {srv : Server} {wId dId : Int} {name : List Char} {r : CustomerRow} :
    r ∈ db.named srv wId dId name ↔
      r ∈ db.customer.rows ∧ r.cWId = wId ∧ r.cDId = dId ∧ srv.same r.cLast name := by
  rw [Db.named, (srv.perm _).mem_iff, List.mem_filter, decide_eq_true_eq]

theorem exists_cons_ne (name : List Char) : ∃ name', ¬decide (name' = name) = true := ⟨' ' :: name, by simp⟩

def plainServer : Server where
  reads name := '\x27' ∉ name ∧ '\x5c' ∉ name
  other _ := []
  same name name' := name = name'
  same_self _ := decide_eq_true rfl
  exists_differs := exists_cons_ne
  byFirst := id
  perm _ := .refl _

def Db.empty : Db := ⟨.empty, .empty, .empty, [], .empty, .empty, .empty, .empty, .empty⟩

end MysqlBench.Dbt2
