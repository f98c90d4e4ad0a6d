import MysqlBench.Dbt2.Schema

/-!
# The order status transaction (`dbc_order_status.c`, `funcs.c`)

A customer who comes with a last name should be the one in the middle of those with the name, by first names: with
`n` of them, at the position `n / 2` rounded up. The C program reads rows until it has read `n / 2` of them, or one if
there is only one. The function for PostgreSQL takes the entry with the index `n / 2`, which is the next row. So for an
even `n` the one is right, and for an odd `n` the other; they agree for one customer.
-/

namespace MysqlBench.Dbt2

open Lib

structure OrderStatusInput where
  cId : Int
  cWId : Int
  cDId : Int
  cLast : List Char

def skipRows : Nat → List Int → Option Int → Option Int
  | 0, _, current => current
  | _ + 1, [], _ => none
  | n + 1, id :: rest, _ => skipRows n rest (some id)

def nonspMiddle (ids : List Int) : Option Int :=
  if ids.length > 1 then skipRows (ids.length / 2) ids none else skipRows 1 ids none

def pgsqlMiddle (ids : List Int) : Option Int := ids[ids.length / 2]?

def Db.ordersOf (db : Db) (wId dId cId : Int) : List OrderRow :=
  db.orders.rows.filter fun r => r.oWId = wId ∧ r.oDId = dId ∧ r.oCId = cId

def Db.orderStatus3 (db : Db) (wId dId cId : Int) : Option OrderRow :=
  ((db.ordersOf wId dId cId).mergeSort fun r r' => r'.oId ≤ r.oId).head?

/-- `order_status`, with the way the number is taken: the number, and the order whose lines are read. -/
def orderStatus (middle : List Int → Option Int) (srv : Server) (a : OrderStatusInput) (db : Db) :
    Option (Int × Option OrderRow) :=
  (if a.cId = 0 then middle (db.selectByName srv a.cWId a.cDId a.cLast) else some a.cId).map fun myCId =>
    (myCId, db.orderStatus3 a.cWId a.cDId myCId)

/-! ## What is reported -/

def Reports (srv : Server) (a : OrderStatusInput) (db : Db) (result : Option (Int × Option OrderRow)) : Prop :=
  let rows := db.named srv a.cWId a.cDId a.cLast
  ∃ c order, rows[(rows.length + 1) / 2 - 1]? = some c ∧ result = some (c.cId, order) ∧
    (∀ o ∈ order, o ∈ db.ordersOf a.cWId a.cDId c.cId) ∧
    ∀ o ∈ db.ordersOf a.cWId a.cDId c.cId, ∃ o' ∈ order, o.oId ≤ o'.oId

theorem skipRows_succ (n : Nat) (ids : List Int) (current : Option Int) : skipRows (n + 1) ids current = ids[n]? := by
  induction n generalizing ids current with
  | zero => cases ids <;> rfl
  | succ n ih =>
    cases ids with
    | nil => rfl
    | cons id ids => exact ih ids (some id)

theorem nonspMiddle_eq (ids : List Int) : nonspMiddle ids = ids[max (ids.length / 2) 1 - 1]? := by
  unfold nonspMiddle
  split
  case isTrue hlen =>
    rw [show ids.length / 2 = (ids.length / 2 - 1) + 1 by omega, skipRows_succ]
    congr 1
    omega
  case isFalse hlen =>
    rw [skipRows_succ]
    congr 1
    omega

theorem orderStatus3_spec (db : Db) (wId dId cId : Int) :
    (∀ o ∈ db.orderStatus3 wId dId cId, o ∈ db.ordersOf wId dId cId) ∧
    ∀ o ∈ db.ordersOf wId dId cId, ∃ o' ∈ db.orderStatus3 wId dId cId, o.oId ≤ o'.oId := by
  unfold Db.orderStatus3
  generalize db.ordersOf wId dId cId = orders
  have hsorted : (orders.mergeSort fun r r' => r'.oId ≤ r.oId).Pairwise fun r r' => decide (r'.oId ≤ r.oId) := by
    apply List.pairwise_mergeSort
    · intro a b c hab hbc
      simp only [decide_eq_true_eq] at hab hbc ⊢
      omega
    · intro a b
      simp only [Bool.or_eq_true, decide_eq_true_eq]
      omega
  have hperm := orders.mergeSort_perm fun r r' => r'.oId ≤ r.oId
  simp only [← hperm.mem_iff]
  cases hrows : orders.mergeSort fun r r' => r'.oId ≤ r.oId with
  | nil => simp
  | cons o rows =>
    simp only [hrows, List.pairwise_cons, decide_eq_true_eq] at hsorted
    simp only [List.head?_cons, Option.mem_def, Option.some.injEq, forall_eq', exists_eq_left', List.mem_cons, true_or,
      true_and, forall_eq_or_imp, le_refl]
    exact hsorted.1

theorem named_index {db : Db} {srv : Server} {wId dId : Int} {name : List Char} {i j : Nat} {c c' : CustomerRow}
    (hi : (db.named srv wId dId name)[i]? = some c) (hj : (db.named srv wId dId name)[j]? = some c')
    (h : c.cId = c'.cId) : i = j := by
  have hnodup : (db.named srv wId dId name).Nodup := by
    rw [Db.named, (srv.perm _).nodup_iff]
    exact (List.Nodup.of_map _ db.customer.nodup).filter _
  obtain ⟨hc, hcw, hcd, -⟩ := mem_named.mp (List.mem_of_getElem? hi)
  obtain ⟨hc', hcw', hcd', -⟩ := mem_named.mp (List.mem_of_getElem? hj)
  have heq : c = c' := Table.eq_of_key hc hc' (by simp only [CustomerRow.key, *])
  subst heq
  exact (List.getElem?_inj (List.getElem?_eq_some_iff.mp hi).1 hnodup).mp (hi.trans hj.symm)

theorem reports_iff {srv : Server} {a : OrderStatusInput} {db : Db} {middle : List Int → Option Int} (i : Nat → Nat)
    (hmiddle : ∀ ids, middle ids = ids[i ids.length]?) (ha : a.cId = 0) {n : Nat} (hn : 1 ≤ n)
    (hlen : (db.named srv a.cWId a.cDId a.cLast).length = n) :
    (∀ other, Reports srv a db (orderStatus middle { srv with other } a db)) ↔
      srv.reads a.cLast ∧ i n = (n + 1) / 2 - 1 := by
  have hfound : ∀ other, orderStatus middle { srv with other } a db =
      (if srv.reads a.cLast then (db.named srv a.cWId a.cDId a.cLast)[i n]?.map CustomerRow.cId
        else (other a.cLast)[i (other a.cLast).length]?).map
      fun myCId => (myCId, db.orderStatus3 a.cWId a.cDId myCId) := by
    intro other
    rw [orderStatus, if_pos ha, hmiddle, Db.selectByName]
    split
    · rw [List.getElem?_map, List.length_map]
      exact hlen ▸ rfl
    · rfl
  simp only [hfound, Reports, hlen]
  constructor
  · intro h
    -- where the server reads something else, it may find nobody
    have hreads : srv.reads a.cLast := by
      by_contra hreads
      obtain ⟨c, order, -, hresult, -⟩ := h fun _ => []
      simp [hreads] at hresult
    obtain ⟨c, order, hc, hresult, -⟩ := h srv.other
    rw [if_pos hreads, Option.map_map, Option.map_eq_some_iff] at hresult
    obtain ⟨c', hc', heq⟩ := hresult
    exact ⟨hreads, named_index hc' hc (Prod.mk.inj heq).1⟩
  · rintro ⟨hreads, hi⟩ other
    have hlt : (n + 1) / 2 - 1 < (db.named srv a.cWId a.cDId a.cLast).length := by omega
    have hc := List.getElem?_eq_getElem hlt
    refine ⟨_, _, hc, ?_, orderStatus3_spec db a.cWId a.cDId _⟩
    rw [if_pos hreads, hi, hc]
    rfl

/-- The customer in the middle is reported by the C program for an even number of customers or a
single one, and by the function for PostgreSQL for an odd number, if the server reads the name as it
is. The one stops after half of the rows, rounded down; the other takes the row of this number, but
counts from zero. -/
theorem middle_customer_iff (srv : Server) (a : OrderStatusInput) (db : Db) (ha : a.cId = 0) (n : Nat) (hn : 1 ≤ n)
    (hlen : (db.named srv a.cWId a.cDId a.cLast).length = n) :
    ((∀ other, Reports srv a db (orderStatus nonspMiddle { srv with other } a db)) ↔
      srv.reads a.cLast ∧ (n % 2 = 0 ∨ n = 1)) ∧
    ((∀ other, Reports srv a db (orderStatus pgsqlMiddle { srv with other } a db)) ↔
      srv.reads a.cLast ∧ n % 2 = 1) := by
  have hpgsql : ∀ ids, pgsqlMiddle ids = ids[ids.length / 2]? := fun _ => rfl
  rw [reports_iff (fun n => max (n / 2) 1 - 1) nonspMiddle_eq ha hn hlen, reports_iff (· / 2) hpgsql ha hn hlen]
  exact ⟨and_congr_right fun _ => by omega, and_congr_right fun _ => by omega⟩

def namesake (cId : Int) : CustomerRow := ⟨1, 1, cId, [], ['B', 'A', 'R'], none, 0, 0, none⟩

theorem nodup_namesakes (ids : List Int) : ((ids.dedup.map namesake).map CustomerRow.key).Nodup := by
  rw [List.map_map]
  exact (ids.nodup_dedup).map fun x y h => (Prod.mk.inj (Prod.mk.inj h).2).2

def namesakes (ids : List Int) : Db := { Db.empty with customer := ⟨ids.dedup.map namesake, nodup_namesakes ids⟩ }

def byName : OrderStatusInput := ⟨0, 1, 1, ['B', 'A', 'R']⟩

theorem middle_of_two :
    (∀ other, Reports plainServer byName (namesakes [1, 2])
      (orderStatus nonspMiddle { plainServer with other } byName (namesakes [1, 2]))) ↔ True := by
  rw [(middle_customer_iff plainServer byName (namesakes [1, 2]) rfl 2 (by decide) rfl).1]
  decide

/-- Of three customers the first is taken and not the second, and of two the second and not the first. -/
theorem beside_the_middle :
    (orderStatus nonspMiddle plainServer byName (namesakes [1, 2, 3])).map Prod.fst = some 1 ∧
    ((namesakes [1, 2, 3]).named plainServer 1 1 ['B', 'A', 'R']).map CustomerRow.cId = [1, 2, 3] ∧
    (orderStatus pgsqlMiddle plainServer byName (namesakes [1, 2])).map Prod.fst = some 2 ∧
    ((namesakes [1, 2]).named plainServer 1 1 ['B', 'A', 'R']).map CustomerRow.cId = [1, 2] := by
  decide

end MysqlBench.Dbt2
