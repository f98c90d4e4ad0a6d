import MysqlBench.Dbt2.Schema

/-!
# The new order transaction (`dbc_new_order.c`, `new_order.sql`, `new_order_2.sql`)

An order of up to 15 lines is entered, and each line takes its quantity out of stock. A line names the warehouse
that supplies it, but both versions look the stock up in the warehouse of the order (`NEW_ORDER_8`, `in_w_id`). The
procedures moreover pass over a line whose item has no positive price, and find no quantity for a district outside
of 1 to 10. Each function gives the database that is committed, or `none` where the transaction is rolled back or
the program comes to an undefined operation.
-/

namespace MysqlBench.Dbt2

open Lib

structure LineInput where
  olIId : Int
  olSupplyWId : Int
  olQuantity : Int
  deriving DecidableEq

abbrev Items := Table ItemRow Int ItemRow.key

abbrev Rows := LineInput → Option (Int × Int)

structure NewOrderInput where
  wId : Int
  dId : Int
  cId : Int
  oAllLocal : Int
  lines : List LineInput
  count : 1 ≤ lines.length ∧ lines.length ≤ 15

def DistrictRow.count (r : DistrictRow) : DistrictRow := { r with dNextOId := r.dNextOId + 1 }
def StockRow.take (n : Int) (r : StockRow) : StockRow := { r with sQuantity := r.sQuantity - n }

theorem DistrictRow.key_count (r : DistrictRow) : r.count.key = r.key := rfl
theorem StockRow.key_take (n : Int) (r : StockRow) : (r.take n).key = r.key := rfl

def Db.placeOrder (db : Db) (a : NewOrderInput) (oId : Int) : Option Db :=
  let district := db.district.update (fun r => r.key = (a.wId, a.dId)) DistrictRow.count DistrictRow.key_count
  (db.newOrder.insert ⟨oId, a.dId, a.wId⟩).bind fun newOrder =>
    (db.orders.insert ⟨oId, a.dId, a.wId, a.cId, a.lines.length, a.oAllLocal⟩).map fun orders =>
      { db with district, newOrder, orders }

def Db.placeLine (db : Db) (a : NewOrderInput) (oId : Int) (l : LineInput) (i : Nat) (taken : Int) : Option Db :=
  let stock := db.stock.update (fun r => r.key = (a.wId, l.olIId)) (StockRow.take taken) (StockRow.key_take taken)
  (db.orderLine.insert ⟨oId, a.dId, a.wId, i + 1, l.olIId, l.olSupplyWId, l.olQuantity⟩).map fun orderLine =>
    { db with stock, orderLine }

/-- One round of the loop of `new_order` in C. A missing price or quantity is a null pointer given to `atof` or
`atoi`, and `s_dist` has 10 entries. -/
def nonspLine (a : NewOrderInput) (oId : Int) (db : Db) (x : LineInput × Nat) : Option Db :=
  let l := x.1
  if l.olIId = 0 then none
  else if (db.item.find l.olIId).isNone ∨ ¬(1 ≤ a.dId ∧ a.dId ≤ 10) then none
  else (db.stock.find (a.wId, l.olIId)).bind fun s =>
    db.placeLine a oId l x.2 (if s.sQuantity > l.olQuantity + 10 then l.olQuantity else l.olQuantity - 91)

/-- `new_order` in C. Without the district there is no `d_next_o_id` to print; the rows of the warehouse and of the
customer are not needed. -/
def newOrderNonsp (a : NewOrderInput) (db : Db) : Option Db :=
  (db.district.find (a.wId, a.dId)).bind fun r => (db.placeOrder a r.dNextOId).bind fun db =>
    a.lines.zipIdx.foldlM (nonspLine a r.dNextOId) db

def outSQuantity (a : NewOrderInput) (db : Db) (l : LineInput) : Option Int :=
  if 1 ≤ a.dId ∧ a.dId ≤ 10 then (db.stock.find (a.wId, l.olIId)).map StockRow.sQuantity else none

def mysqlLine (a : NewOrderInput) (oId : Int) (db : Db) (x : LineInput × Nat) : Option Db :=
  let l := x.1
  (db.item.find l.olIId).bind fun item =>
    if item.iPrice > 0 then
      db.placeLine a oId l x.2
        (if (outSQuantity a db l).any (· > l.olQuantity + 10) then l.olQuantity else l.olQuantity - 91)
    else some db

def newOrderMysql (a : NewOrderInput) (db : Db) : Option Db :=
  (db.warehouse.find a.wId).bind fun _ => (db.district.find (a.wId, a.dId)).bind fun r =>
    (db.customer.find (a.wId, a.dId, a.cId)).bind fun _ => (db.placeOrder a r.dNextOId).bind fun db =>
      a.lines.zipIdx.foldlM (mysqlLine a r.dNextOId) db

/-! ## What is taken out of stock -/

def leaves (s q : Int) : Int := if s > q + 10 then s - q else s - q + 91

/-- What the lines leave of a quantity in the row with the key `k`, if each takes from the row of `key` in its
turn. -/
def left (step : Int → Int → Int) (key : Rows) (lines : List LineInput) (k : Int × Int) (s : Int) : Int :=
  lines.foldl (fun s l => if key l = some k then step s l.olQuantity else s) s

def Db.quantity (db : Db) (k : Int × Int) : Option Int := (db.stock.find k).map StockRow.sQuantity

def Drawn (step : Int → Int → Int) (key : Rows) (lines : List LineInput) (db db' : Db) : Prop :=
  ∀ k, db'.quantity k = (db.quantity k).map (left step key lines k)

def LineInput.supply (l : LineInput) : Option (Int × Int) := some (l.olSupplyWId, l.olIId)

variable {a : NewOrderInput} {items : Items} {step step' : Int → Int → Int} {key key' : Rows} {lines : List LineInput}
  {round : Db → LineInput × Nat → Option Db} {db db₁ db' : Db} {k : Int × Int} {s oId : Int} {l : LineInput}

theorem placeLine_drawn {taken : Int} {i : Nat} (h : db.placeLine a oId l i taken = some db')
    (hkey : key l = some (a.wId, l.olIId))
    (htaken : ∀ s, db.quantity (a.wId, l.olIId) = some s → s - taken = step s l.olQuantity) :
    db'.item = db.item ∧ Drawn step key [l] db db' := by
  obtain ⟨orderLine, _, rfl⟩ := Option.map_eq_some_iff.mp h
  refine ⟨rfl, fun k => ?_⟩
  unfold Db.quantity at htaken ⊢
  dsimp only
  rw [Table.find_update]
  cases hfind : db.stock.find k with
  | none => rfl
  | some r =>
    obtain ⟨-, rfl⟩ := Table.find_eq_some.mp hfind
    simp only [left, hkey, Option.map_some, decide_eq_true_eq, List.foldl_cons, List.foldl_nil, Option.some.injEq,
      eq_comm (a := r.key)]
    split
    case isTrue hr => exact htaken r.sQuantity (by rw [hr, hfind]; rfl)
    case isFalse => rfl

theorem placeOrder_frame (h : db.placeOrder a oId = some db') :
    db'.item = db.item ∧ db'.stock = db.stock ∧ db'.orderLine = db.orderLine := by
  obtain ⟨newOrder, _, h⟩ := Option.bind_eq_some_iff.mp h
  obtain ⟨orders, _, rfl⟩ := Option.map_eq_some_iff.mp h
  exact ⟨rfl, rfl, rfl⟩

theorem drawn_foldlM
    (hround : ∀ db x db', db.item = items → round db x = some db' → db'.item = items ∧ Drawn step key [x.1] db db')
    {n : Nat} (hdb : db.item = items)
    (h : (lines.zipIdx n).foldlM round db = some db') : Drawn step key lines db db' := by
  induction lines generalizing n db with
  | nil =>
    intro k
    cases h
    cases db'.quantity k <;> rfl
  | cons l lines ih =>
    rw [List.zipIdx_cons, List.foldlM_cons] at h
    obtain ⟨db₁, hl, h⟩ := Option.bind_eq_some_iff.mp h
    obtain ⟨hitem, hdrawn⟩ := hround _ _ _ hdb hl
    intro k
    rw [ih hitem h k, hdrawn k, Option.map_map]
    rfl

def NewOrderInput.home (a : NewOrderInput) (l : LineInput) : Option (Int × Int) := some (a.wId, l.olIId)

def NewOrderInput.priced (a : NewOrderInput) (items : Items) (l : LineInput) : Option (Int × Int) :=
  if (items.find l.olIId).any (0 < ·.iPrice) then a.home l else none

theorem drawn_of_lines (horder : db.placeOrder a oId = some db₁)
    (hround : ∀ db₁ x db', db₁.item = db.item → round db₁ x = some db' →
      db'.item = db₁.item ∧ Drawn step key [x.1] db₁ db')
    (h : a.lines.zipIdx.foldlM round db₁ = some db') : Drawn step key a.lines db db' := by
  obtain ⟨hitem, hstock, -⟩ := placeOrder_frame horder
  have hdrawn := drawn_foldlM (fun db₁ x db' h₁ h => ⟨(hround db₁ x db' h₁ h).1.trans h₁, (hround db₁ x db' h₁ h).2⟩)
    hitem h
  unfold Drawn Db.quantity at hdrawn ⊢
  rwa [hstock] at hdrawn

theorem drawn_nonsp (h : newOrderNonsp a db = some db') : Drawn leaves a.home a.lines db db' := by
  obtain ⟨r, _, h⟩ := Option.bind_eq_some_iff.mp h
  obtain ⟨db₁, horder, h⟩ := Option.bind_eq_some_iff.mp h
  refine drawn_of_lines horder (fun db x db' _ hline => ?_) h
  simp only [nonspLine, Option.ite_none_left_eq_some] at hline
  obtain ⟨-, -, hline⟩ := hline
  obtain ⟨s, hs, hline⟩ := Option.bind_eq_some_iff.mp hline
  refine placeLine_drawn hline rfl fun s' hs' => ?_
  rw [Db.quantity, hs, Option.map_some, Option.some.injEq] at hs'
  unfold leaves
  grind

def NewOrderInput.mysqlLeaves (a : NewOrderInput) (s q : Int) : Int :=
  if 1 ≤ a.dId ∧ a.dId ≤ 10 then leaves s q else s - q + 91

theorem priced_eq_some :
    a.priced items l = some k ↔ (items.find l.olIId).any (0 < ·.iPrice) ∧ k = (a.wId, l.olIId) := by
  simp only [NewOrderInput.priced, NewOrderInput.home, Option.ite_none_right_eq_some, Option.some.injEq, eq_comm (a := k)]

theorem drawn_mysql (h : newOrderMysql a db = some db') :
    Drawn a.mysqlLeaves (a.priced db.item) a.lines db db' := by
  obtain ⟨_, _, h⟩ := Option.bind_eq_some_iff.mp h
  obtain ⟨r, _, h⟩ := Option.bind_eq_some_iff.mp h
  obtain ⟨_, _, h⟩ := Option.bind_eq_some_iff.mp h
  obtain ⟨db₁, horder, h⟩ := Option.bind_eq_some_iff.mp h
  refine drawn_of_lines horder (fun db₁ x db' hitem hline => ?_) h
  obtain ⟨item, hfind, hline⟩ := Option.bind_eq_some_iff.mp hline
  rw [hitem] at hfind
  have hpriced : a.priced db.item x.1 = if 0 < item.iPrice then a.home x.1 else none := by
    simp [NewOrderInput.priced, hfind]
  split at hline
  case isTrue hprice =>
    refine placeLine_drawn hline (by rw [hpriced, if_pos hprice]; rfl) fun s hs => ?_
    have hfound : outSQuantity a db₁ x.1 = if 1 ≤ a.dId ∧ a.dId ≤ 10 then some s else none := by
      rw [outSQuantity, ← hs]
      rfl
    rw [hfound]
    unfold NewOrderInput.mysqlLeaves leaves
    grind
  case isFalse hprice =>
    -- an item without a price leaves everything as it is
    cases hline
    refine ⟨rfl, fun k => ?_⟩
    rw [show left a.mysqlLeaves (a.priced db.item) [x.1] k = id by
      funext s
      simp [left, hpriced, hprice]]
    rw [Option.map_id, id]

theorem left_congr (hkey : ∀ l ∈ lines, key l = key' l) (hstep : step = step') (k : Int × Int) (s : Int) :
    left step key lines k s = left step' key' lines k s := by
  subst hstep
  unfold left
  apply List.foldl_ext
  intro s l hl
  rw [hkey l hl]

theorem left_cons (step : Int → Int → Int) (key : Rows) (l : LineInput)
    (lines : List LineInput) (k : Int × Int) (s : Int) : left step key (l :: lines) k s =
      left step key lines k (if key l = some k then step s l.olQuantity else s) := rfl

theorem left_of_untouched (h : ∀ l ∈ lines, key l ≠ some k) (s : Int) : left step key lines k s = s := by
  induction lines with
  | nil => rfl
  | cons l lines ih =>
    rw [List.forall_mem_cons] at h
    rw [left_cons, if_neg h.1, ih h.2]

theorem left_bound (key : Rows) (lines : List LineInput) (k : Int × Int) :
    ∃ (bound : Nat) (sum : Int) (n : Nat), ((∃ l ∈ lines, key l = some k) → 0 < n) ∧
      (∀ s : Int, bound < s → left leaves key lines k s = s - sum) ∧
      (∀ s : Int, s < -bound → left leaves key lines k s = s - sum + 91 * n) ∧
      ∀ s, left (fun s q => s - q + 91) key lines k s = s - sum + 91 * n := by
  induction lines with
  | nil => exact ⟨0, 0, 0, by simp, by simp [left], by simp [left], by simp [left]⟩
  | cons l lines ih =>
    obtain ⟨bound, sum, n, hn, hlarge, hsmall, hless⟩ := ih
    simp only [left_cons]
    by_cases hl : key l = some k
    · refine ⟨bound + 2 * l.olQuantity.natAbs + 101, sum + l.olQuantity, n + 1, by simp, ?_, ?_, ?_⟩
      all_goals
        intro s
        rw [if_pos hl]
      · intro hs
        rw [leaves, if_pos (by omega), hlarge _ (by omega)]
        omega
      · intro hs
        rw [leaves, if_neg (by omega), hsmall _ (by omega)]
        omega
      · rw [hless]
        omega
    · simp only [if_neg hl]
      exact ⟨bound, sum, n, by simpa [hl] using hn, hlarge, hsmall, hless⟩

theorem LineInput.supply_at (l : LineInput) (hl : l ∈ lines) :
    ∃ l' ∈ lines, l'.supply = some (l.olSupplyWId, l.olIId) := ⟨l, hl, rfl⟩

theorem exists_left_ne (h : ∃ l ∈ lines, key l = some k) : ∃ s, left leaves key lines k s ≠ s := by
  obtain ⟨bound, sum, n, hn, hlarge, hsmall, -⟩ := left_bound key lines k
  have hpos := hn h
  by_contra! hleft
  have h₁ := (hlarge _ (Int.lt_succ _)).symm.trans (hleft _)
  have h₂ := (hsmall (-bound - 1) (by omega)).symm.trans (hleft _)
  omega

theorem exists_left_ne_mysql (h : ∃ l ∈ lines, key l = some k) :
    ∃ s, left leaves key lines k s ≠ left (fun s q => s - q + 91) key lines k s := by
  obtain ⟨bound, sum, n, hn, hlarge, -, hless⟩ := left_bound key lines k
  have hpos := hn h
  refine ⟨bound + 1, ?_⟩
  rw [hlarge _ (Int.lt_succ _), hless]
  omega

/-! ## Databases on which an order is committed -/

structure Ready (a : NewOrderInput) (items : Items) (n : Nat) (db : Db) : Prop where
  item : db.item = items
  stock : ∀ l ∈ a.lines, (db.stock.find (a.wId, l.olIId)).isSome
  line : ∀ r ∈ db.orderLine.rows, r.olNumber ≤ n

theorem Ready.placeLine {n : Nat} (h : Ready a items n db) (oId taken : Int) (l : LineInput) :
    ∃ db', db.placeLine a oId l n taken = some db' ∧ Ready a items (n + 1) db' := by
  have hnew : ∀ r ∈ db.orderLine.rows, r.key ≠ (a.wId, a.dId, oId, (n : Int) + 1) := by
    intro r hr heq
    have hle := h.line r hr
    simp only [OrderLineRow.key, Prod.mk.injEq] at heq
    omega
  unfold Db.placeLine Table.insert
  rw [dif_neg (by simpa [OrderLineRow.key] using hnew)]
  refine ⟨_, rfl, h.item, fun l hl => ?_, ?_⟩
  · simpa [Table.find_update] using h.stock l hl
  · simp only [List.forall_mem_append, List.forall_mem_singleton]
    exact ⟨fun r hr => (h.line r hr).trans (by omega), by omega⟩

theorem Ready.foldlM
    (hround : ∀ n db, Ready a items n db → ∀ l ∈ a.lines, ∃ db', round db (l, n) = some db' ∧ Ready a items (n + 1) db')
    (hlines : ∀ l ∈ lines, l ∈ a.lines) {n : Nat} (h : Ready a items n db) :
    ∃ db', (lines.zipIdx n).foldlM round db = some db' := by
  induction lines generalizing n db with
  | nil => exact ⟨db, rfl⟩
  | cons l lines ih =>
    rw [List.forall_mem_cons] at hlines
    obtain ⟨db₁, hl, h₁⟩ := hround n db h l hlines.1
    obtain ⟨db', h'⟩ := ih hlines.2 h₁
    exact ⟨db', by rw [List.zipIdx_cons, List.foldlM_cons, hl]; exact h'⟩

theorem nodup_stockRows (ks : List (Int × Int)) (s : Int) :
    ((ks.dedup.map fun k => StockRow.mk k.1 k.2 s).map StockRow.key).Nodup := by
  rw [List.map_map]
  exact (List.map_id _).symm ▸ ks.nodup_dedup

def stockOf (ks : List (Int × Int)) (s : Int) : Table StockRow (Int × Int) StockRow.key :=
  ⟨ks.dedup.map fun k => ⟨k.1, k.2, s⟩, nodup_stockRows ks s⟩

theorem find_stockOf {ks : List (Int × Int)} (hk : k ∈ ks) (s : Int) :
    (stockOf ks s).find k = some ⟨k.1, k.2, s⟩ := by
  rw [Table.find_eq_some]
  exact ⟨List.mem_map_of_mem (List.mem_dedup.mpr hk), rfl⟩

def stocked (a : NewOrderInput) (items : Items) (k : Int × Int) (s : Int) : Db :=
  { Db.empty with
    warehouse := .single ⟨a.wId, [], 0⟩
    district := .single ⟨a.wId, a.dId, [], 0, 1⟩
    customer := .single ⟨a.wId, a.dId, a.cId, [], [], none, 0, 0, none⟩
    item := items
    stock := stockOf (k :: a.lines.map fun l => (a.wId, l.olIId)) s }

theorem find_district (a : NewOrderInput) (items : Items) (k : Int × Int) (s : Int) :
    (stocked a items k s).district.find (a.wId, a.dId) = some ⟨a.wId, a.dId, [], 0, 1⟩ :=
  Table.find_eq_some.mpr ⟨List.mem_cons_self, rfl⟩

theorem quantity_stocked (a : NewOrderInput) (items : Items) (k : Int × Int) (s : Int) :
    (stocked a items k s).quantity k = some s := by
  rw [Db.quantity, stocked, find_stockOf List.mem_cons_self]
  rfl

theorem ready_stocked (a : NewOrderInput) (items : Items) (k : Int × Int) (s : Int) :
    ∃ db, (stocked a items k s).placeOrder a 1 = some db ∧ Ready a items 0 db := by
  refine ⟨_, rfl, rfl, fun l hl => ?_, by simp [stocked, Db.empty, Table.empty]⟩
  have hmem : (a.wId, l.olIId) ∈ k :: a.lines.map fun l => (a.wId, l.olIId) :=
    List.mem_cons_of_mem _ (List.mem_map_of_mem hl)
  simp [stocked, find_stockOf hmem]

theorem commits_nonsp (k : Int × Int) (s : Int)
    (hitems : ∀ l ∈ a.lines, l.olIId ≠ 0 ∧ (items.find l.olIId).isSome) (hd : 1 ≤ a.dId ∧ a.dId ≤ 10) :
    ∃ db', newOrderNonsp a (stocked a items k s) = some db' := by
  have hround : ∀ n db, Ready a items n db → ∀ l ∈ a.lines,
      ∃ db', nonspLine a 1 db (l, n) = some db' ∧ Ready a items (n + 1) db' := by
    intro n db h l hl
    obtain ⟨r, hr⟩ := Option.isSome_iff_exists.mp (h.stock l hl)
    rw [nonspLine, if_neg (hitems l hl).1, if_neg (by simp [h.item, hd, Option.ne_none_iff_isSome.mpr (hitems l hl).2]), hr]
    exact h.placeLine ..
  obtain ⟨db, hdb, h⟩ := ready_stocked a items k s
  obtain ⟨db', h'⟩ := Ready.foldlM hround (fun _ => id) h
  refine ⟨db', ?_⟩
  rw [newOrderNonsp, find_district, Option.bind_some, hdb]
  exact h'

theorem of_commits_nonsp (h : newOrderNonsp a db = some db') :
    ∀ l ∈ a.lines, l.olIId ≠ 0 ∧ 1 ≤ a.dId ∧ a.dId ≤ 10 := by
  obtain ⟨r, _, h⟩ := Option.bind_eq_some_iff.mp h
  obtain ⟨db₁, -, h⟩ := Option.bind_eq_some_iff.mp h
  generalize 0 = n at h
  generalize a.lines = lines at h ⊢
  induction lines generalizing n db₁ with
  | nil => simp
  | cons l lines ih =>
    rw [List.zipIdx_cons, List.foldlM_cons] at h
    obtain ⟨db₂, hl, h⟩ := Option.bind_eq_some_iff.mp h
    simp only [nonspLine, Option.ite_none_left_eq_some, not_or, not_not] at hl
    exact List.forall_mem_cons.mpr ⟨⟨hl.1, hl.2.1.2⟩, ih db₂ (n + 1) h⟩

theorem commits_mysql (k : Int × Int) (s : Int) (hitems : ∀ l ∈ a.lines, (items.find l.olIId).isSome) :
    ∃ db', newOrderMysql a (stocked a items k s) = some db' := by
  have hround : ∀ n db, Ready a items n db → ∀ l ∈ a.lines,
      ∃ db', mysqlLine a 1 db (l, n) = some db' ∧ Ready a items (n + 1) db' := by
    intro n db h l hl
    obtain ⟨item, hitem⟩ := Option.isSome_iff_exists.mp (hitems l hl)
    rw [mysqlLine, h.item, hitem, Option.bind_some]
    split
    · exact h.placeLine ..
    · exact ⟨db, rfl, h.item, h.stock, fun r hr => (h.line r hr).trans (by omega)⟩
  obtain ⟨db, hdb, h⟩ := ready_stocked a items k s
  obtain ⟨db', h'⟩ := Ready.foldlM hround (fun _ => id) h
  have hwarehouse : (stocked a items k s).warehouse.find a.wId = some ⟨a.wId, [], 0⟩ :=
    Table.find_eq_some.mpr ⟨List.mem_cons_self, rfl⟩
  have hcustomer : (stocked a items k s).customer.find (a.wId, a.dId, a.cId) =
      some ⟨a.wId, a.dId, a.cId, [], [], none, 0, 0, none⟩ := Table.find_eq_some.mpr ⟨List.mem_cons_self, rfl⟩
  refine ⟨db', ?_⟩
  rw [newOrderMysql, hwarehouse, find_district, hcustomer, Option.bind_some, Option.bind_some, Option.bind_some, hdb]
  exact h'

theorem left_eq_left
    (h : Drawn step key a.lines (stocked a items k s) db') (h' : Drawn step' key' a.lines (stocked a items k s) db') :
    left step key a.lines k s = left step' key' a.lines k s := by
  have := (h k).symm.trans (h' k)
  rw [quantity_stocked] at this
  exact Option.some.inj this

/-! ## Both versions -/

abbrev NewOrderInput.Local (a : NewOrderInput) : Prop := ∀ l ∈ a.lines, l.olSupplyWId = a.wId

/-- The stock is drawn where the lines say, on every database with these items, if the lines are all
of the warehouse of the order, since the statements for the stock take that one and not
`ol_supply_w_id`. The C program rolls back where an item has the number 0, and the procedures need
items with a price and one of the ten districts. -/
theorem new_order_draws_iff (a : NewOrderInput) (items : Items)
    (hitems : ∀ l ∈ a.lines, (items.find l.olIId).isSome) :
    ((∀ db db', db.item = items → newOrderNonsp a db = some db' → Drawn leaves LineInput.supply a.lines db db') ↔
      (∃ l ∈ a.lines, l.olIId = 0) ∨ ¬(1 ≤ a.dId ∧ a.dId ≤ 10) ∨ a.Local) ∧
    ((∀ db db', db.item = items → newOrderMysql a db = some db' → Drawn leaves LineInput.supply a.lines db db') ↔
      (1 ≤ a.dId ∧ a.dId ≤ 10) ∧ a.Local ∧ ∀ l ∈ a.lines, (items.find l.olIId).any (0 < ·.iPrice)) := by
  refine ⟨⟨fun h => ?_, ?_⟩, fun h => ?_, ?_⟩
  · by_contra! hnot
    obtain ⟨hzero, hd, hlocal⟩ := hnot
    simp only [NewOrderInput.Local, not_forall] at hlocal
    obtain ⟨l, hl, hne⟩ := hlocal
    -- a quantity that the line would change at its own warehouse, where nothing is drawn
    obtain ⟨s, hs⟩ := exists_left_ne (l.supply_at hl)
    obtain ⟨db', hdb'⟩ := commits_nonsp _ s (fun l hl => ⟨hzero l hl, hitems l hl⟩) hd
    rw [left_eq_left (h _ _ rfl hdb') (drawn_nonsp hdb')] at hs
    exact hs (left_of_untouched (by simp [NewOrderInput.home, Ne.symm hne]) s)
  · rintro (⟨l, hl, hzero⟩ | hd | hlocal) db db' - hdb' k
    · exact absurd hzero (of_commits_nonsp hdb' l hl).1
    · obtain ⟨l, hl⟩ := List.exists_mem_of_length_pos a.count.1
      exact absurd (of_commits_nonsp hdb' l hl).2 hd
    · rw [drawn_nonsp hdb' k]
      congr 1
      funext s
      exact left_congr (fun l hl => by rw [LineInput.supply, hlocal l hl]; rfl) rfl k s
  · have hpriced : ∀ l ∈ a.lines, l.olSupplyWId = a.wId ∧ (items.find l.olIId).any (0 < ·.iPrice) := by
      intro l hl
      by_contra hnot
      obtain ⟨s, hs⟩ := exists_left_ne (l.supply_at hl)
      obtain ⟨db', hdb'⟩ := commits_mysql (l.olSupplyWId, l.olIId) s hitems
      rw [left_eq_left (h _ _ rfl hdb') (drawn_mysql hdb')] at hs
      refine hs (left_of_untouched (fun l' _ hl' => hnot ?_) s)
      obtain ⟨hany, heq⟩ := priced_eq_some.mp hl'
      rw [Prod.mk.injEq] at heq
      exact ⟨heq.1, heq.2 ▸ hany⟩
    refine ⟨?_, fun l hl => (hpriced l hl).1, fun l hl => (hpriced l hl).2⟩
    by_contra hd
    obtain ⟨l, hl⟩ := List.exists_mem_of_length_pos a.count.1
    obtain ⟨s, hs⟩ := exists_left_ne_mysql (l.supply_at hl)
    obtain ⟨db', hdb'⟩ := commits_mysql (l.olSupplyWId, l.olIId) s hitems
    rw [left_eq_left (h _ _ rfl hdb') (drawn_mysql hdb')] at hs
    refine hs (left_congr (fun l hl => ?_) (funext₂ fun _ _ => if_neg hd) _ s)
    exact priced_eq_some.mpr ⟨(hpriced l hl).2, by rw [(hpriced l hl).1]⟩
  · rintro ⟨hd, hlocal, hprice⟩ db db' rfl hdb' k
    rw [drawn_mysql hdb' k]
    congr 1
    funext s
    refine left_congr (fun l hl => ?_) (funext₂ fun _ _ => if_pos hd) k s
    exact priced_eq_some.mpr ⟨hprice l hl, by rw [hlocal l hl]⟩

def remoteOrder : NewOrderInput := ⟨1, 1, 1, 0, [⟨1, 2, 5⟩], by decide⟩

def oneItem : Items := .single ⟨1, 1⟩

theorem remote_order_draws : ((∀ db db', db.item = oneItem → newOrderNonsp remoteOrder db = some db' →
    Drawn leaves LineInput.supply remoteOrder.lines db db') ↔ False) := by
  rw [(new_order_draws_iff remoteOrder oneItem (by decide)).1]
  decide

/-- Both versions take the quantity from the home warehouse, and nothing from the one that supplies the line. -/
theorem drawn_at_home : ∃ db', newOrderNonsp remoteOrder (stocked remoteOrder oneItem (2, 1) 50) = some db' ∧
    newOrderMysql remoteOrder (stocked remoteOrder oneItem (2, 1) 50) = some db' ∧
    db'.quantity (1, 1) = some 45 ∧ db'.quantity (2, 1) = some 50 := by
  refine ⟨_, rfl, ?_, ?_, ?_⟩ <;> rfl

end MysqlBench.Dbt2
