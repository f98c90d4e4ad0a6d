import MysqlBench.Lib.TwoPhase
import MysqlBench.Tpcc.NewOrder

/-!
# Concurrent new orders

`newordProg` is `neword` as a program on the rows it shares with other new orders: the row of its
district, whose value is `d_next_o_id`, and stock rows, whose value is `s_quantity`. Every statement is a
step of its own. The tables that new orders only read are `ReadOnly`; the rows a transaction inserts are
its result (`Placed`). Everything about interleavings is in the library; what is shown here of the program
is

* what it does when it runs alone (`exec_newordProg`): the order gets the number the district had, and
  the district the next one, from which the numbers of the committed orders follow one another
  (`orderIds_consecutive`);
* that its writes keep the stock between 1 and 100 (`keeps_newordProg`);
* that it asks for the row of its district first and then for stock rows in the order of warehouse and
  item, because `ol_num_seq` is sorted (`ascends_newordProg`).
-/

namespace MysqlBench.Tpcc

open Lib

/-! ## The program -/

inductive LockRow where
  | district (wId dId : Int)
  | stock (wId iId : Int)
  deriving DecidableEq

/-- What new orders read and do not write: the discount and tax found by customer, the tax of a district
and the price of an item. -/
structure ReadOnly where
  customerWarehouse : Int → Int → Int → Option (ℚ × ℚ)
  dTax : Int → Int → ℚ
  iPrice : Int → Option ℚ

structure Placed where
  order : OrderRow
  newOrder : NewOrderRow
  lines : List OrderLineRow

def newordLinesProg (env : ReadOnly) (a : NewOrderArgs) (terms : OrderTerms) :
    List Nat → Int → List OrderLineRow → Prog LockRow (Option Int) Placed
  | [], _, lines => .commit ⟨a.order terms.oId, a.newOrder terms.oId, lines⟩
  | n :: rest, olNumber, lines =>
    .pass (match env.iPrice (a.itemid n) with
      | none => .rollback
      | some iPrice => .read (.stock (a.supware n) (a.itemid n)) fun row =>
        match row with
        | none => .rollback
        | some sQuantity =>
          .write (.stock (a.supware n) (a.itemid n)) (some (stockLeft sQuantity (a.qty n)))
            (.pass (newordLinesProg env a terms rest (olNumber + 1)
              (lines ++ [a.line terms n olNumber iPrice]))))

def newordProg (env : ReadOnly) (a : NewOrderArgs) : Prog LockRow (Option Int) Placed :=
  .pass (match env.customerWarehouse a.wId a.dId a.cId with
    | none => .rollback
    | some cw => .read (.district a.wId a.dId) fun row =>
      match row with
      | none => .rollback
      | some dNextOId =>
        .write (.district a.wId a.dId) (some (dNextOId + 1))
          -- The two insertions, into `orders` and into `new_orders`.
          (.pass (.pass (newordLinesProg env a ⟨dNextOId, cw.1, cw.2, env.dTax a.wId a.dId⟩
            a.olNumSeq 1 []))))

def IsNeword (env : ReadOnly) (ok : NewOrderArgs → Prop) (p : Prog LockRow (Option Int) Placed) : Prop :=
  ∃ a, ok a ∧ p = newordProg env a

/-! ## The program alone -/

variable {env : ReadOnly} {a : NewOrderArgs} {terms : OrderTerms} {seq : List Nat}
  {store' : LockRow → Option Int} {r : Placed} {d : Db} {w : Int}

theorem exec_newordLinesProg
    {olNumber : Int} {lines : List OrderLineRow} {store : LockRow → Option Int}
    (h : (newordLinesProg env a terms seq olNumber lines).exec store = some (store', r)) :
    r.order = a.order terms.oId ∧ ∀ w d, store' (.district w d) = store (.district w d) := by
  induction seq generalizing olNumber lines store with
  | nil =>
    simp only [newordLinesProg, Prog.exec, Option.some.injEq, Prod.mk.injEq] at h
    obtain ⟨rfl, rfl⟩ := h
    exact ⟨rfl, fun _ _ => rfl⟩
  | cons n rest ih =>
    rw [newordLinesProg, Prog.exec] at h
    cases hprice : env.iPrice (a.itemid n) with
    | none =>
      rw [hprice] at h
      exact absurd h (by simp [Prog.exec])
    | some iPrice =>
      rw [hprice, Prog.exec] at h
      cases hrow : store (.stock (a.supware n) (a.itemid n)) with
      | none =>
        rw [hrow] at h
        exact absurd h (by simp [Prog.exec])
      | some sQuantity =>
        rw [hrow, Prog.exec, Prog.exec] at h
        obtain ⟨horder, hdist⟩ := ih h
        refine ⟨horder, fun w d => (hdist w d).trans ?_⟩
        exact Function.update_of_ne (by simp) _ _

theorem exec_newordProg {store : LockRow → Option Int} (h : (newordProg env a).exec store = some (store', r)) :
    ∃ oId, r.order = a.order oId ∧ store (.district a.wId a.dId) = some oId ∧
      ∀ w d, store' (.district w d) =
        if (w, d) = (a.wId, a.dId) then some (oId + 1) else store (.district w d) := by
  rw [newordProg, Prog.exec] at h
  cases hcw : env.customerWarehouse a.wId a.dId a.cId with
  | none =>
    rw [hcw] at h
    exact absurd h (by simp [Prog.exec])
  | some cw =>
    rw [hcw, Prog.exec] at h
    cases hrow : store (.district a.wId a.dId) with
    | none =>
      rw [hrow] at h
      exact absurd h (by simp [Prog.exec])
    | some oId =>
      rw [hrow, Prog.exec, Prog.exec, Prog.exec] at h
      obtain ⟨horder, hdist⟩ := exec_newordLinesProg h
      refine ⟨oId, horder, rfl, fun w d => (hdist w d).trans ?_⟩
      by_cases hwd : (w, d) = (a.wId, a.dId)
      · rw [if_pos hwd, (Prod.mk.inj hwd).1, (Prod.mk.inj hwd).2, Function.update_self]
      · rw [if_neg hwd]
        refine Function.update_of_ne (fun heq => hwd ?_) _ _
        rw [LockRow.district.inj heq |>.1, LockRow.district.inj heq |>.2]

/-! ## The statements on the tables

The transaction on the whole database, as far as it commits, is the program on the rows it locks. -/

def Db.readOnly (d : Db) : ReadOnly where
  customerWarehouse w dist c := (d.warehouse.find w).bind fun wr =>
    (d.customer.find (w, dist, c)).map fun cr => (cr.cDiscount, wr.wTax)
  dTax w dist := ((d.district.find (w, dist)).map DistrictRow.dTax).getD 0
  iPrice i := (d.item.find i).map ItemRow.iPrice

def Db.lockStore (d : Db) : LockRow → Option Int
  | .district w dist => (d.district.find (w, dist)).map DistrictRow.dNextOId
  | .stock w i => (d.stock.find (w, i)).map StockRow.sQuantity

theorem lockStore_updateStock {i q : Int} (hfound : d.lockStore (.stock w i) ≠ none) :
    (d.setStock w i q).lockStore = Function.update d.lockStore (.stock w i) (some q) := by
  funext k
  cases k with
  | district w' dist => exact (Function.update_of_ne (by simp) _ _).symm
  | stock w' i' =>
    have hset : ∀ r : StockRow, (r.setQuantity q).sQuantity = q := fun _ => rfl
    refine (Table.map_find_update (StockRow.key_setQuantity q) hset hfound (w', i')).trans ?_
    simp [Function.update_apply, Db.lockStore]

theorem lockStore_updateNextOId {dist n : Int}
    (hfound : d.lockStore (.district w dist) ≠ none) :
    (d.setNextOId w dist n).lockStore = Function.update d.lockStore (.district w dist) (some n) := by
  funext k
  cases k with
  | stock w' i => exact (Function.update_of_ne (by simp) _ _).symm
  | district w' dist' =>
    have hset : ∀ r : DistrictRow, (r.setNextOId n).dNextOId = n := fun _ => rfl
    refine (Table.map_find_update (DistrictRow.key_setNextOId n) hset hfound (w', dist')).trans ?_
    simp [Function.update_apply, Db.lockStore]

theorem exec_of_gives_newordLines {env : ReadOnly} {a : NewOrderArgs} {terms : OrderTerms}
    {seq : List Nat} {olNumber : Int} {d d' : Db} {u : Unit}
    (h : (newordLines a terms seq olNumber).Gives d u d') (henv : env.iPrice = d.readOnly.iPrice)
    (lines : List OrderLineRow) :
    ∃ lines', (newordLinesProg env a terms seq olNumber lines).exec d.lockStore =
        some (d'.lockStore, ⟨a.order terms.oId, a.newOrder terms.oId, lines ++ lines'⟩) ∧
      d'.orderLine.rows = d.orderLine.rows ++ lines' := by
  induction seq generalizing olNumber d lines with
  | nil =>
    obtain ⟨_, rfl⟩ := Txn.gives_pure h
    exact ⟨[], by rw [List.append_nil]; rfl, (List.append_nil _).symm⟩
  | cons n rest ih =>
    obtain ⟨iPrice, d₁, hitem, h₁⟩ := Txn.gives_bind h
    obtain ⟨hprice, rfl⟩ := gives_selectItem hitem
    obtain ⟨sQuantity, hquantity, h₂⟩ := gives_query_bind h₁
    obtain ⟨_, d₄, hinsert, h₄⟩ := Txn.gives_bind (gives_change_bind h₂)
    obtain ⟨t, _, hrows, rfl⟩ := gives_insertInto hinsert
    obtain ⟨lines', hexec, hlines⟩ := ih h₄ henv (lines ++ [a.line terms n olNumber iPrice])
    have hrow : d₁.lockStore (.stock (a.supware n) (a.itemid n)) = some sQuantity := hquantity
    refine ⟨a.line terms n olNumber iPrice :: lines', ?_, ?_⟩
    · rw [newordLinesProg, Prog.exec, henv, show d₁.readOnly.iPrice (a.itemid n) = some iPrice from hprice]
      simp only [Prog.exec, hrow]
      rw [← lockStore_updateStock (by rw [hrow]; simp)]
      rw [List.append_assoc] at hexec
      exact hexec
    · rw [hlines, show t.rows = d₁.orderLine.rows ++ [a.line terms n olNumber iPrice] from hrows,
        List.append_assoc]
      rfl

/-- What a new order does to the database when it commits, its program does to the rows it shares
with others, and it inserts what the program places. So the results about interleavings are about
`neword`. -/
theorem exec_of_gives_newordTxn {d' : Db} {u : Unit}
    (h : (newordTxn a).Gives d u d') :
    ∃ r, (newordProg d.readOnly a).exec d.lockStore = some (d'.lockStore, r) ∧
      d'.orders.rows = d.orders.rows ++ [r.order] ∧
      d'.newOrders.rows = d.newOrders.rows ++ [r.newOrder] ∧
      d'.orderLine.rows = d.orderLine.rows ++ r.lines := by
  obtain ⟨cw, hcw, h₁⟩ := gives_query_bind h
  obtain ⟨dist, hfind, h₂⟩ := gives_query_bind h₁
  obtain ⟨_, d₄, horder, h₄⟩ := Txn.gives_bind (gives_change_bind h₂)
  obtain ⟨orders, _, horders, rfl⟩ := gives_insertInto horder
  obtain ⟨_, d₅, hnewOrder, h₅⟩ := Txn.gives_bind h₄
  obtain ⟨newOrders, _, hnewOrders, rfl⟩ := gives_insertInto hnewOrder
  obtain ⟨_, d₆, hlines, h₆⟩ := Txn.gives_bind h₅
  obtain rfl := gives_change h₆
  obtain ⟨hsame, _⟩ := gives_newordLines hlines
  obtain ⟨r, hr, heq⟩ := Option.map_eq_some_iff.mp hfind
  have hrow : d.lockStore (.district a.wId a.dId) = some dist.1 := by
    simp [Db.lockStore, hr, ← heq]
  have htax : d.readOnly.dTax a.wId a.dId = dist.2 := by
    simp [Db.readOnly, hr, ← heq]
  obtain ⟨lines, hexec, hrows⟩ := @exec_of_gives_newordLines d.readOnly _ _ _ _ _ _ _ hlines rfl []
  refine ⟨⟨a.order dist.1, a.newOrder dist.1, lines⟩, ?_, ?_, ?_, hrows⟩
  · rw [newordProg, Prog.exec,
      show d.readOnly.customerWarehouse a.wId a.dId a.cId = some cw from hcw]
    simp only [Prog.exec, hrow, htax]
    rw [← lockStore_updateNextOId (by rw [hrow]; simp)]
    exact hexec
  · rw [hsame]
    exact horders
  · rw [hsame]
    exact hnewOrders

/-! ## The numbers of the orders -/

def orderIds (placed : List Placed) (w d : Int) : List Int :=
  (placed.filter fun r => r.order.oWId = w ∧ r.order.oDId = d).map fun r => r.order.oId

def ConsecutiveFrom : Option Int → List Int → Prop
  | none, ids => ids = []
  | some first, ids => ids = (List.range ids.length).map fun i : Nat => first + (i : Int)

theorem ConsecutiveFrom.cons {first : Int} {ids : List Int} (h : ConsecutiveFrom (some (first + 1)) ids) :
    ConsecutiveFrom (some first) (first :: ids) := by
  have h : ids = _ := h
  show first :: ids = (List.range (ids.length + 1)).map fun i : Nat => first + (i : Int)
  rw [List.range_succ_eq_map, List.map_cons, List.map_map]
  congr 1
  · simp
  · nth_rewrite 1 [h]
    refine List.map_congr_left fun i _ => ?_
    simp only [Function.comp_apply, Nat.succ_eq_add_one, Int.natCast_add, Int.natCast_one]
    omega

theorem orderIds_consecutive {env : ReadOnly} {ok : NewOrderArgs → Prop}
    {ps : List (Prog LockRow (Option Int) Placed)} (hps : ∀ p ∈ ps, IsNeword env ok p)
    {store store' : LockRow → Option Int} {rs : List Placed}
    (h : Prog.execAll ps store = some (store', rs)) (w d : Int) :
    ConsecutiveFrom (store (.district w d)) (orderIds rs w d) := by
  induction ps generalizing store rs with
  | nil =>
    simp only [Prog.execAll, Option.some.injEq, Prod.mk.injEq] at h
    rw [← h.2]
    cases store (.district w d) with
    | none => rfl
    | some first => rfl
  | cons p ps ih =>
    obtain ⟨a, _, rfl⟩ := hps p List.mem_cons_self
    obtain ⟨⟨store₁, r⟩, hr, hrest⟩ := Option.bind_eq_some_iff.mp h
    obtain ⟨⟨store₂, rs'⟩, hrs, heq⟩ := Option.map_eq_some_iff.mp hrest
    obtain ⟨rfl, rfl⟩ := Prod.mk.inj heq
    obtain ⟨oId, horder, hstore, hstore₁⟩ := exec_newordProg hr
    have hlater : ConsecutiveFrom (store₁ (.district w d)) (orderIds rs' w d) :=
      ih (fun q hq => hps q (List.mem_cons_of_mem _ hq)) hrs
    show ConsecutiveFrom (store (.district w d)) (orderIds (r :: rs') w d)
    rw [hstore₁ w d] at hlater
    -- the order of this transaction is in the district, or in another one
    by_cases hwd : (w, d) = (a.wId, a.dId)
    · rw [if_pos hwd] at hlater
      obtain ⟨rfl, rfl⟩ := Prod.mk.inj hwd
      have hids : orderIds (r :: rs') a.wId a.dId = oId :: orderIds rs' a.wId a.dId := by
        unfold orderIds
        rw [List.filter_cons_of_pos (by simp [horder, NewOrderArgs.order]), List.map_cons, horder]
        rfl
      rw [hstore, hids]
      exact hlater.cons
    · rw [if_neg hwd] at hlater
      have hids : orderIds (r :: rs') w d = orderIds rs' w d := by
        unfold orderIds
        rw [List.filter_cons_of_neg]
        simp only [horder, NewOrderArgs.order, decide_eq_true_eq]
        rintro ⟨rfl, rfl⟩
        exact hwd rfl
      rw [hids]
      exact hlater

/-! ## The stock -/

def StockOk : LockRow → Option Int → Prop
  | .district _ _, _ => True
  | .stock _ _, row => ∀ q, row = some q → 1 ≤ q ∧ q ≤ 100

def NewOrderArgs.QtyOk (a : NewOrderArgs) : Prop := ∀ n < a.oOlCnt, 1 ≤ a.qty n ∧ a.qty n ≤ 10

theorem keeps_newordLinesProg
    (hqty : ∀ n ∈ seq, 1 ≤ a.qty n ∧ a.qty n ≤ 10) (olNumber : Int) (lines : List OrderLineRow) :
    (newordLinesProg env a terms seq olNumber lines).Keeps StockOk := by
  induction seq generalizing olNumber lines with
  | nil => exact trivial
  | cons n rest ih =>
    rw [newordLinesProg, Prog.Keeps]
    cases env.iPrice (a.itemid n) with
    | none => exact trivial
    | some iPrice =>
      intro row hrow
      cases row with
      | none => exact trivial
      | some sQuantity =>
        refine ⟨fun q hq => ?_, ih (fun m hm => hqty m (List.mem_cons_of_mem _ hm)) _ _⟩
        rw [← Option.some.inj hq]
        exact stockLeft_bounds (hrow sQuantity rfl) (hqty n List.mem_cons_self)

theorem keeps_newordProg (hqty : a.QtyOk) :
    (newordProg env a).Keeps StockOk := by
  rw [newordProg, Prog.Keeps]
  cases env.customerWarehouse a.wId a.dId a.cId with
  | none => exact trivial
  | some cw =>
    intro row _
    cases row with
    | none => exact trivial
    | some dNextOId =>
      exact ⟨trivial, keeps_newordLinesProg (fun n hn => hqty n (mem_olNumSeq.mp hn)) _ _⟩

/-! ## The order of the locks -/

def LockRow.rank : LockRow → Nat ×ₗ (Int ×ₗ Int)
  | .district w d => toLex (0, toLex (w, d))
  | .stock w i => toLex (1, toLex (w, i))

theorem LockRow.rank_injective : Function.Injective LockRow.rank := by
  intro r r' h
  cases r with
  | district w d =>
    cases r' with
    | district w' d' => cases h; rfl
    | stock w' i' => cases h
  | stock w i =>
    cases r' with
    | district w' d' => cases h
    | stock w' i' => cases h; rfl

theorem ascends_newordLinesProg
    (hsorted : seq.Pairwise fun m n =>
      toLex (a.supware m, a.itemid m) ≤ toLex (a.supware n, a.itemid n))
    {b : WithBot (Nat ×ₗ (Int ×ₗ Int))}
    (hb : ∀ n ∈ seq, b ≤ (LockRow.stock (a.supware n) (a.itemid n)).rank) (olNumber : Int)
    (lines : List OrderLineRow) :
    (newordLinesProg env a terms seq olNumber lines).Ascends LockRow.rank b := by
  induction seq generalizing b olNumber lines with
  | nil => exact trivial
  | cons n rest ih =>
    rw [newordLinesProg, Prog.Ascends]
    cases env.iPrice (a.itemid n) with
    | none => exact trivial
    | some iPrice =>
      refine ⟨hb n List.mem_cons_self, fun row => ?_⟩
      cases row with
      | none => exact trivial
      | some sQuantity =>
        obtain ⟨hfirst, hrest⟩ := List.pairwise_cons.mp hsorted
        refine ⟨le_rfl, ih hrest (fun m hm => WithBot.coe_le_coe.mpr ?_) _ _⟩
        exact Prod.Lex.toLex_le_toLex.mpr (.inr ⟨rfl, hfirst m hm⟩)

theorem ascends_newordProg {numWare : Int} (h : a.InRange numWare)
    (hware : numWare < 21474) : (newordProg env a).Ascends LockRow.rank ⊥ := by
  rw [newordProg, Prog.Ascends]
  cases env.customerWarehouse a.wId a.dId a.cId with
  | none => exact trivial
  | some cw =>
    refine ⟨bot_le, fun row => ?_⟩
    cases row with
    | none => exact trivial
    | some dNextOId =>
      refine ⟨le_rfl, ascends_newordLinesProg (olNumSeq_pairwise h hware) (fun n _ => ?_) _ _⟩
      exact WithBot.coe_le_coe.mpr (Prod.Lex.toLex_le_toLex.mpr (.inl Nat.zero_lt_one))

/-! ## Any number of threads -/

section Threads

variable {T : Type} [DecidableEq T]

/-- In every interleaving of new orders, the committed orders of a district have consecutive numbers from
the one the district started with, and the districts and the stock are those of the committed
transactions one after another, in the order of their commits. If orders are for one to ten pieces and
the stock starts between 10 and 100, every stock row, written or committed, is between 1 and 100. -/
theorem neword_as_if_serial (env : ReadOnly) (ok : NewOrderArgs → Prop)
    (start : LockRow → Option Int) (s : TxState T LockRow (Option Int) Placed)
    (h : ReachableBy stepTx (fun _ act => act.Begins (IsNeword env ok)) (TxState.initial start) s) :
    (∀ w d, ConsecutiveFrom (start (.district w d)) (orderIds (s.log.map Prod.snd) w d)) ∧
    Prog.execAll (s.log.map Prod.fst) start = some (s.store, s.log.map Prod.snd) ∧
    ((∀ a, ok a → a.QtyOk) → (∀ w i q, start (.stock w i) = some q → 10 ≤ q ∧ q ≤ 100) →
      (∀ w i q, s.store (.stock w i) = some q → 1 ≤ q ∧ q ≤ 100) ∧
      ∀ t x w i q, s.sessions t = some x → x.own (.stock w i) = some (some q) → 1 ≤ q ∧ q ≤ 100) := by
  have hserial := execAll_log h.reachable
  refine ⟨fun w d => ?_, hserial, fun hqty hstock => ?_⟩
  · refine @orderIds_consecutive env ok _ (fun p hp => ?_) _ _ _ hserial w d
    obtain ⟨e, he, rfl⟩ := List.mem_map.mp hp
    exact log_begun h e he
  · have hstart : ∀ k, StockOk k (start k) := by
      intro k
      cases k with
      | district w d => exact trivial
      | stock w i => exact fun q hq => ⟨by have := hstock w i q hq; omega, (hstock w i q hq).2⟩
    have hvalues := values_ok hstart (h.mono fun _ act hact => by
      cases act with
      | begin t p =>
        obtain ⟨a, ha, rfl⟩ := hact
        exact keeps_newordProg (hqty a ha)
      | statement t => exact trivial
      | fail t => exact trivial)
    exact ⟨fun w i => hvalues.store (.stock w i),
      fun t x w i q hx hown => hvalues.own t x (.stock w i) (some q) hx hown q rfl⟩

/-- Two threads that place the same order of one line: the second begins while the first is under way,
and then has to wait for the district. -/
def twoOrders (env : ReadOnly) (a : NewOrderArgs) : List (TxAction Bool LockRow (Option Int) Placed) :=
  [.begin true (newordProg env a), .begin false (newordProg env a), .statement true, .statement false] ++
    List.replicate 9 (.statement true) ++ List.replicate 9 (.statement false)

def sampleReadOnly : ReadOnly := ⟨fun _ _ _ => some (0, 0), fun _ _ => 0, fun _ => some 1⟩

def sampleOrder : NewOrderArgs := ⟨1, 1, 1, 1, 1, fun _ => 7, fun _ => 1, fun _ => 6, "now"⟩

/-- An order that is placed alone. -/
theorem exec_of_gives_newordTxn_one : ∃ d d' r, (newordTxn sampleOrder).Gives d () d' ∧
    (newordProg d.readOnly sampleOrder).exec d.lockStore = some (d'.lockStore, r) := by
  let d : Db := { Db.empty with
    warehouse := .single ⟨1, 0, 0⟩, district := .single ⟨1, 1, 0, 0, 2⟩
    customer := .single ⟨1, 1, 1, "F", "L", "GC", 0, 0, 0, ""⟩
    item := .single ⟨7, 2⟩, stock := .single ⟨7, 1, 50⟩ }
  have hrun : ∃ d' o', newordTxn sampleOrder d ⟨[], fun _ => 0⟩ = (.ok ((), d'), o') := ⟨_, _, rfl⟩
  obtain ⟨d', o', hrun⟩ := hrun
  obtain ⟨r, hexec, -⟩ := exec_of_gives_newordTxn ⟨_, o', hrun⟩
  exact ⟨d, d', r, ⟨_, o', hrun⟩, hexec⟩

def sampleStart : LockRow → Option Int
  | .district _ _ => some 3001
  | .stock _ _ => some 19

theorem begins_twoOrders (env : ReadOnly) {ok : NewOrderArgs → Prop} {a : NewOrderArgs} (ha : ok a) :
    ∀ act ∈ twoOrders env a, act.Begins (IsNeword env ok) := by
  have hp : IsNeword env ok (newordProg env a) := ⟨a, ha, rfl⟩
  intro act hact
  cases act with
  | begin t p =>
    simp only [twoOrders, List.mem_append, List.mem_cons, List.mem_replicate, List.not_mem_nil, or_false,
      TxAction.begin.injEq, reduceCtorEq, and_false] at hact
    cases hact with
    | inl h => exact h.2 ▸ hp
    | inr h => exact h.2 ▸ hp
  | statement t => exact trivial
  | fail t => exact trivial

theorem neword_as_if_serial_two :
    ∃ s : TxState Bool LockRow (Option Int) Placed,
      orderIds (s.log.map Prod.snd) 1 1 = [3001, 3002] ∧ s.store (.stock 1 7) = some 7 ∧
      ConsecutiveFrom (sampleStart (.district 1 1)) (orderIds (s.log.map Prod.snd) 1 1) ∧
      ∀ w i q, s.store (.stock w i) = some q → 1 ≤ q ∧ q ≤ 100 := by
  have hrun : (runSteps stepTx (TxState.initial sampleStart) (twoOrders sampleReadOnly sampleOrder)).map
      (fun s => (orderIds (s.log.map Prod.snd) 1 1, s.store (.stock 1 7))) =
        some ([3001, 3002], some 7) := by decide +kernel
  obtain ⟨s, hs, heq⟩ := Option.map_eq_some_iff.mp hrun
  have hqty : sampleOrder.QtyOk := fun _ _ => ⟨(by decide : (1 : Int) ≤ 6), (by decide : (6 : Int) ≤ 10)⟩
  have hreach := EachStep.reachableBy _ (eachStep_of_forall _ _ (begins_twoOrders sampleReadOnly hqty)) hs
    .start
  obtain ⟨hids, _, hstock⟩ := neword_as_if_serial sampleReadOnly NewOrderArgs.QtyOk sampleStart s hreach
  refine ⟨s, (Prod.mk.inj heq).1, (Prod.mk.inj heq).2, hids 1 1, (hstock (fun _ h => h) ?_).1⟩
  intro w i q hq
  rw [← Option.some.inj hq]
  exact ⟨by decide, by decide⟩

/-- The sort gives a rearrangement of the lines in the order of warehouse and item, and no circle of
threads that wait for one another's locks forms in any interleaving of new orders. -/
theorem sorted_lines_no_deadlock (numWare : Int) (hware : numWare < 21474) :
    (∀ a : NewOrderArgs, a.InRange numWare →
      a.olNumSeq.Perm (List.range a.oOlCnt) ∧
      a.olNumSeq.Pairwise fun m n =>
        toLex (a.supware m, a.itemid m) ≤ toLex (a.supware n, a.itemid n)) ∧
    ∀ (env : ReadOnly) (start : LockRow → Option Int) (s : TxState T LockRow (Option Int) Placed),
      ReachableBy stepTx (fun _ act => act.Begins (IsNeword env (NewOrderArgs.InRange numWare)))
        (TxState.initial start) s →
      ∀ t, ¬Relation.TransGen (Waits s) t t := by
  refine ⟨fun a ha => ⟨olNumSeq_perm a, olNumSeq_pairwise ha hware⟩, fun env start s h t => ?_⟩
  refine not_waits_cycle LockRow.rank_injective (h.mono fun _ act hact => ?_) t
  cases act with
  | begin t p =>
    obtain ⟨a, ha, rfl⟩ := hact
    exact ascends_newordProg ha hware
  | statement t => exact trivial
  | fail t => exact trivial

/-- The second thread waits for the first, and there is no circle. -/
theorem sorted_lines_no_deadlock_two :
    ∃ s : TxState Bool LockRow (Option Int) Placed,
      s.locks (.district 1 1) = some true ∧
      (s.sessions false).map (fun x => x.rest.asks) = some (some (.district 1 1)) ∧
      ¬Relation.TransGen (Waits s) false false := by
  have hrun : (runSteps stepTx (TxState.initial sampleStart)
      ((twoOrders sampleReadOnly sampleOrder).take 5)).map
        (fun s => (s.locks (.district 1 1), (s.sessions false).map fun x => x.rest.asks)) =
          some (some true, some (some (.district 1 1))) := by decide +kernel
  obtain ⟨s, hs, heq⟩ := Option.map_eq_some_iff.mp hrun
  have hrange : sampleOrder.InRange 1 :=
    ⟨fun _ _ => ⟨(by decide : (1 : Int) ≤ 1), (by decide : (1 : Int) ≤ 1)⟩,
      fun _ _ => ⟨(by decide : (1 : Int) ≤ 7), (by decide : (7 : Int) ≤ 100000 + 1)⟩⟩
  have hreach := EachStep.reachableBy _ (eachStep_of_forall _ _ fun act hact =>
    begins_twoOrders sampleReadOnly hrange act (List.mem_of_mem_take hact)) hs .start
  exact ⟨s, (Prod.mk.inj heq).1, (Prod.mk.inj heq).2,
    (sorted_lines_no_deadlock 1 (by decide)).2 sampleReadOnly sampleStart s hreach false⟩

end Threads

end MysqlBench.Tpcc
