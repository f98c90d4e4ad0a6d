import MysqlBench.Tpcc.Schema

/-!
# The loader (`load.c`, `support.c`)

`LoadItems`, `LoadWare`, `LoadCust` and `LoadOrd` fill the tables for the warehouses from `min_ware` to
`max_ware`. Every insertion is executed by `try_stmt_execute`, which rolls back to the last commit when it
fails; the caller then goes to its `retry` label. What is done again is always what has been rolled back:
all the items, one warehouse with its stock and districts, the customers of one district, or the orders of
one district together with the permutation of the customers. So each of these is a `Txn` that is started
again until it ends (`Run.untilDone`), and the loops over warehouses and districts are outside.

The random draws are arbitrary. Those for the columns that the tables here leave out are left out too; as
nothing is known about the others, that takes no run away.
-/

namespace MysqlBench.Tpcc

open Lib

inductive LoadError where
  | refused
  | aborted
  deriving DecidableEq

def tryStmtExecute (stmt : Txn Db TxError Unit) : Txn Db LoadError Unit := stmt.mapError fun _ => .refused

/-! ## Random data -/

def randomNumber (min max : Int) : Txn Db LoadError Int := do
  let r ← Txn.draw
  pure (min + (r : Int) % (max - min + 1))

def alphanum : String := "0123456789ABCDEFGHIJKLMNOPQRSTUVWXYZabcdefghijklmnopqrstuvwxyz"

def alphaChars : Nat → Txn Db LoadError (List Char)
  | 0 => pure []
  | len + 1 => do
    let i ← randomNumber 0 61
    let str ← alphaChars len
    pure (alphanum.toList.getD i.toNat '0' :: str)

def makeAlphaString (x y : Int) : Txn Db LoadError String := do
  let len ← randomNumber x y
  let str ← alphaChars len.toNat
  pure (String.ofList str)

def nuRand (a x y : Nat) : Txn Db LoadError Nat := do
  let c ← Txn.draw
  let r ← randomNumber 0 a
  let s ← randomNumber x y
  pure ((((r.toNat ||| s.toNat) + c) % 2 ^ 32) % (y - x + 1) + x)

def nameParts : List String :=
  ["BAR", "OUGHT", "ABLE", "PRI", "PRES", "ESE", "ANTI", "CALLY", "ATION", "EING"]

def lastname (num : Nat) : String :=
  nameParts.getD (num / 100) "" ++ nameParts.getD (num / 10 % 10) "" ++ nameParts.getD (num % 10) ""

/-! ## The permutation of the customers -/

structure Permutation where
  nums : List Int
  permCount : Nat

def swapInt (nums : List Int) (i j : Nat) : List Int :=
  (nums.set i (nums.getD j 0)).set j (nums.getD i 0)

def shuffle : Nat → List Int → Txn Db LoadError (List Int)
  | 0, nums => pure nums
  | k + 1, nums => do
    let i := ordPerDist - 1 - (k + 1)
    let j ← randomNumber (i + 1) (ordPerDist - 1)
    shuffle k (swapInt nums i j.toNat)

def initPermutation : Txn Db LoadError Permutation := do
  let nums ← shuffle (ordPerDist - 1) (upTo ordPerDist)
  pure ⟨nums, 0⟩

def getPermutation (p : Permutation) : Txn Db LoadError (Int × Permutation) :=
  if ordPerDist ≤ p.permCount then Txn.throw .aborted
  else pure (p.nums.getD p.permCount 0, { p with permCount := p.permCount + 1 })

/-! ## Items, warehouses, stock and districts -/

def loadItem (iId : Int) : Txn Db LoadError Unit := do
  let price ← randomNumber 100 10000
  tryStmtExecute (insertItem { iId, iPrice := price / 100 })

def loadItems : Txn.Run Db := .untilDone (Txn.each (upTo maxItems) loadItem)

def stock (wId : Int) : Txn Db LoadError Unit :=
  Txn.each (upTo maxItems) fun sIId => do
    let sQuantity ← randomNumber 10 100
    tryStmtExecute (insertStock { sIId, sWId := wId, sQuantity })

def district (wId : Int) : Txn Db LoadError Unit :=
  Txn.each (upTo distPerWare) fun dId => do
    let tax ← randomNumber 10 20
    tryStmtExecute
      (insertDistrict { dId, dWId := wId, dTax := tax / 100, dYtd := 30000, dNextOId := 3001 })

def ware (wId : Int) : Txn Db LoadError Unit := do
  let tax ← randomNumber 10 20
  tryStmtExecute (insertWarehouse { wId, wTax := tax / 100, wYtd := 3000000 })
  stock wId
  district wId

def wares (minWare maxWare : Int) : List Int :=
  (List.range (maxWare - minWare + 1).toNat).map fun i : Nat => minWare + i

def loadWare (minWare maxWare : Int) : Txn.Run Db :=
  .each (wares minWare maxWare) fun wId => .untilDone (ware wId)

/-! ## Customers -/

def customerLast (cId : Int) : Txn Db LoadError String :=
  if cId ≤ 1000 then pure (lastname (cId - 1).toNat)
  else do
    let num ← nuRand 255 0 999
    pure (lastname num)

def loadCustomer (timestamp : String) (dId wId cId : Int) : Txn Db LoadError Unit := do
  let cFirst ← makeAlphaString 8 16
  let cLast ← customerLast cId
  let good ← randomNumber 0 1
  let discount ← randomNumber 0 50
  let cData ← makeAlphaString 300 500
  tryStmtExecute
    (insertCustomer
      { cId, cDId := dId, cWId := wId, cFirst, cLast, cCredit := if good ≠ 0 then "GC" else "BC",
        cDiscount := discount / 100, cBalance := -10, cDeliveryCnt := 0, cData })
  tryStmtExecute
    (insertHistory
      { hCId := cId, hCDId := dId, hCWId := wId, hDId := dId, hWId := wId, hDate := timestamp,
        hAmount := 10 })

def customer (timestamp : String) (dId wId : Int) : Txn Db LoadError Unit :=
  Txn.each (upTo custPerDist) (loadCustomer timestamp dId wId)

def districtsOf (ws : List Int) : List (Int × Int) := ws.flatMap fun w => (upTo distPerWare).map fun i => (w, i)

def loadCust (timestamp : String) (minWare maxWare : Int) : Txn.Run Db :=
  .each (districtsOf (wares minWare maxWare)) fun p => .untilDone (customer timestamp p.2 p.1)

/-! ## Orders -/

def lastDelivered : Int := 2100

def loadOrderLine (timestamp : String) (dId wId oId ol : Int) : Txn Db LoadError Unit := do
  let olIId ← randomNumber 1 maxItems
  let tmp ← randomNumber 10 10000
  if lastDelivered < oId then
    tryStmtExecute
      (insertOrderLine
        { olOId := oId, olDId := dId, olWId := wId, olNumber := ol, olIId, olSupplyWId := wId,
          olDeliveryD := none, olQuantity := 5, olAmount := 0 })
  else
    tryStmtExecute
      (insertOrderLine
        { olOId := oId, olDId := dId, olWId := wId, olNumber := ol, olIId, olSupplyWId := wId,
          olDeliveryD := some timestamp, olQuantity := 5, olAmount := tmp / 100 })

def loadOrderRow (timestamp : String) (dId wId oId oCId oCarrierId oOlCnt : Int) :
    Txn Db LoadError Unit :=
  if lastDelivered < oId then do
    tryStmtExecute
      (insertOrder
        { oId, oDId := dId, oWId := wId, oCId, oEntryD := timestamp, oCarrierId := none, oOlCnt,
          oAllLocal := 1 })
    tryStmtExecute (insertNewOrder { noOId := oId, noDId := dId, noWId := wId })
  else
    tryStmtExecute
      (insertOrder
        { oId, oDId := dId, oWId := wId, oCId, oEntryD := timestamp, oCarrierId := some oCarrierId,
          oOlCnt, oAllLocal := 1 })

def loadOrder (timestamp : String) (dId wId oId oCId : Int) : Txn Db LoadError Unit := do
  let oCarrierId ← randomNumber 1 10
  let oOlCnt ← randomNumber 5 15
  loadOrderRow timestamp dId wId oId oCId oCarrierId oOlCnt
  Txn.each (upTo oOlCnt.toNat) (loadOrderLine timestamp dId wId oId)

def loadOrders (timestamp : String) (dId wId : Int) : List Int → Permutation → Txn Db LoadError Unit
  | [], _ => pure ()
  | oId :: rest, p => do
    let drawn ← getPermutation p
    loadOrder timestamp dId wId oId drawn.1
    loadOrders timestamp dId wId rest drawn.2

def orders (timestamp : String) (dId wId : Int) : Txn Db LoadError Unit := do
  let p ← initPermutation
  loadOrders timestamp dId wId (upTo ordPerDist) p

def loadOrd (timestamp : String) (minWare maxWare : Int) : Txn.Run Db :=
  .each (districtsOf (wares minWare maxWare)) fun p => .untilDone (orders timestamp p.2 p.1)

def load (timestamp : String) (minWare maxWare : Int) : Txn.Run Db :=
  ((loadItems.andThen (loadWare minWare maxWare)).andThen (loadCust timestamp minWare maxWare)).andThen
    (loadOrd timestamp minWare maxWare)

end MysqlBench.Tpcc
