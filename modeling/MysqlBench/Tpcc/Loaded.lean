import MysqlBench.Tpcc.Permutation

/-!
# What the loader leaves

Each part of the loader fills tables that no other part touches, so the statement about a part carries
along anything (`J`) that does not depend on those tables. What the tables of a part hold while they are
filled is said in terms of the keys that are in already (`WareTables`, `CustTables`, `OrdTables`): every
insertion finds its key missing and adds it, a loop adds its list of keys, and `settles_load` puts the parts
together. `Loaded` reads the outcome as the requirements on a freshly loaded database.
-/

namespace MysqlBench.Tpcc

open Lib

/-! ## Draws -/

variable {J : Db → Prop}

variable {min max : Int} {R K : Type} {r : R} {rows rows' : List R}

theorem meets_randomNumber (h : min ≤ max) :
    Txn.Meets J (randomNumber min max) fun n d => J d ∧ min ≤ n ∧ n ≤ max := by
  refine (Txn.meets_draw fun n d hd => (hd : (fun _ => J) n d)).bind fun r => Txn.meets_pure fun d hd => ?_
  have h₁ := Int.emod_nonneg (r : Int) (show max - min + 1 ≠ 0 by omega)
  have h₂ := Int.emod_lt_of_pos (r : Int) (show 0 < max - min + 1 by omega)
  exact ⟨hd, by omega, by omega⟩

theorem meets_randomNumber_any : Txn.Meets J (randomNumber min max) fun _ => J :=
  (Txn.meets_draw fun n d hd => (hd : (fun _ => J) n d)).bind fun _ => Txn.meets_pure fun _ hd => hd

theorem meets_alphaChars (len : Nat) : Txn.Meets J (alphaChars len) fun _ => J := by
  induction len with
  | zero => exact Txn.meets_pure fun _ hd => hd
  | succ len ih =>
    exact meets_randomNumber_any.bind fun _ => ih.bind fun _ => Txn.meets_pure fun _ hd => hd

theorem meets_makeAlphaString {x y : Int} : Txn.Meets J (makeAlphaString x y) fun _ => J :=
  meets_randomNumber_any.bind fun _ => (meets_alphaChars _).bind fun _ => Txn.meets_pure fun _ hd => hd

theorem meets_nuRand {a x y : Nat} : Txn.Meets J (nuRand a x y) fun _ => J :=
  (Txn.meets_draw fun n d hd => (hd : (fun _ => J) n d)).bind fun _ =>
    meets_randomNumber_any.bind fun _ => meets_randomNumber_any.bind fun _ =>
      Txn.meets_pure fun _ hd => hd

theorem meets_customerLast {cId : Int} : Txn.Meets J (customerLast cId) fun _ => J := by
  unfold customerLast
  split
  · exact Txn.meets_pure fun _ hd => hd
  · exact meets_nuRand.bind fun _ => Txn.meets_pure fun _ hd => hd

/-! ## The permutation -/

theorem meets_shuffle (k : Nat) (hk : k < ordPerDist) (nums : List Int) :
    Txn.Meets J (shuffle k nums) fun nums' d => J d ∧ ∃ js, js.length = k ∧
      (∀ i j, js[i]? = some j → ordPerDist - k + i ≤ j ∧ j ≤ ordPerDist - 1) ∧
      nums' = permuteFrom (ordPerDist - 1 - k) js nums := by
  induction k generalizing nums with
  | zero => exact Txn.meets_pure fun d hd => ⟨hd, [], rfl, by simp, rfl⟩
  | succ k ih =>
    refine (meets_randomNumber (by omega)).bind fun j => ?_
    intro d o ⟨hd, hmin, hmax⟩
    refine (ih (by omega) _).mono (fun _ h => h) (fun nums' d' h => ?_) d o hd
    obtain ⟨hd', js, hlen, hjs, rfl⟩ := h
    refine ⟨hd', j.toNat :: js, congrArg (· + 1) hlen, fun i j' hj' => ?_, ?_⟩
    · cases i with
      | zero =>
        rw [List.getElem?_cons_zero, Option.some.injEq] at hj'
        omega
      | succ i =>
        have := hjs i j' hj'
        omega
    · rw [permuteFrom, show ordPerDist - 1 - (k + 1) + 1 = ordPerDist - 1 - k by omega]

theorem meets_initPermutation : Txn.Meets J initPermutation fun p d =>
    J d ∧ ∃ js, Drawn ordPerDist js ∧ p = initPermutationOf ordPerDist js := by
  refine (meets_shuffle (ordPerDist - 1) (by decide) _).bind fun nums => Txn.meets_pure fun d h => ?_
  obtain ⟨hd, js, hlen, hjs, rfl⟩ := h
  refine ⟨hd, js, ⟨by rw [hlen]; rfl, fun i j hj => ?_⟩, rfl⟩
  have hone : ordPerDist - (ordPerDist - 1) = 1 := rfl
  have := hjs i j hj
  omega

theorem meets_getPermutation {p : Permutation} (h : p.permCount < ordPerDist) :
    Txn.Meets J (getPermutation p) fun drawn d =>
      J d ∧ drawn = (p.nums.getD p.permCount 0, { p with permCount := p.permCount + 1 }) := by
  unfold getPermutation
  rw [if_neg (by omega)]
  exact Txn.meets_pure fun d hd => ⟨hd, rfl⟩

/-! ## Loops that insert -/

theorem meets_tryInsert {key : R → K} [DecidableEq K] {get : Db → Table R K key}
    {set : Db → Table R K key → Db} {P : Db → Prop} {Q : Unit → Db → Prop}
    (hfresh : ∀ d, P d → key r ∉ (get d).rows.map key)
    (hpost : ∀ d t, P d → t.rows = (get d).rows ++ [r] → Q () (set d t)) :
    Txn.Meets P (tryStmtExecute (insertInto get set r)) Q :=
  (meets_insertInto hfresh hpost).mapError _

theorem map_append_row {f : R → K} {ks : List K}
    (h : rows.map f = ks) (hrows : rows' = rows ++ [r]) : rows'.map f = ks ++ [f r] := by
  rw [hrows, List.map_append, h]
  rfl

theorem forall_append_row {P : R → Prop}
    (h : ∀ x ∈ rows, P x) (hrows : rows' = rows ++ [r]) (hr : P r) : ∀ x ∈ rows', P x := by
  intro x hx
  rw [hrows, List.mem_append, List.mem_singleton] at hx
  cases hx with
  | inl hx => exact h x hx
  | inr hx => exact hx ▸ hr

/-! ## Items -/

theorem settles_loadItems (hJ : ∀ d t, J d → J { d with item := t }) :
    Txn.Run.Settles (fun d => J d ∧ d.item.rows.map ItemRow.key = []) loadItems
      fun d => J d ∧ d.item.rows.map ItemRow.key = upTo maxItems := by
  have hnew : ([] ++ (upTo maxItems).map id).Nodup := by
    rw [List.nil_append, List.map_id]
    exact nodup_upTo _
  have hloop : Txn.Meets _ (Txn.each (upTo maxItems) loadItem) _ :=
    Txn.meets_each_adds (I := fun ks d => J d ∧ d.item.rows.map ItemRow.key = ks) hnew
      fun ks iId hfresh => meets_randomNumber_any.bind fun price => meets_tryInsert
        (fun d hd => by rw [hd.2]; exact hfresh) fun d t hd hrows => ⟨hJ d t hd.1, map_append_row hd.2 hrows⟩
  rw [List.nil_append, List.map_id] at hloop
  exact Txn.Run.settles_untilDone hloop

/-! ## Warehouses with their stock and districts -/

structure WareTables (ws : List Int) (ss ds : List (Int × Int))
    (warehouse : Table WarehouseRow Int WarehouseRow.key)
    (stock : Table StockRow (Int × Int) StockRow.key)
    (district : Table DistrictRow (Int × Int) DistrictRow.key) : Prop where
  wares : warehouse.rows.map WarehouseRow.key = ws
  wYtd : ∀ r ∈ warehouse.rows, r.wYtd = 3000000
  stock : stock.rows.map StockRow.key = ss
  districts : district.rows.map DistrictRow.key = ds
  dYtd : ∀ r ∈ district.rows, r.dYtd = 30000
  nextOId : ∀ r ∈ district.rows, r.dNextOId = 3001

def stockOf (ws : List Int) : List (Int × Int) := ws.flatMap fun w => (upTo maxItems).map fun i => (w, i)

theorem flatMap_snoc {α β : Type} (l : List α) (a : α) (f : α → List β) :
    (l ++ [a]).flatMap f = l.flatMap f ++ f a := by
  rw [List.flatMap_append, List.flatMap_singleton]

theorem nodup_pairs_snoc {ws : List Int} {w : Int} (hws : (ws ++ [w]).Nodup) (n : Nat) :
    ((ws.flatMap fun w => (upTo n).map fun i => (w, i)) ++ (upTo n).map fun i => (w, i)).Nodup := by
  rw [← flatMap_snoc ws w fun w => (upTo n).map fun i => (w, i)]
  exact hws.product (nodup_upTo n)

section Ware

variable {ws : List Int} {wId : Int} {ss ds : List (Int × Int)}

theorem meets_stock (hJ : ∀ d t, J d → J { d with stock := t }) (hws : (ws ++ [wId]).Nodup) (ws' : List Int) :
    Txn.Meets (fun d => J d ∧ WareTables ws' (stockOf ws) ds d.warehouse d.stock d.district) (stock wId)
      fun _ d => J d ∧ WareTables ws' (stockOf (ws ++ [wId])) ds d.warehouse d.stock d.district := by
  rw [stockOf, stockOf, flatMap_snoc]
  refine Txn.meets_each_adds
    (I := fun ss d => J d ∧ WareTables ws' ss ds d.warehouse d.stock d.district) (nodup_pairs_snoc hws _)
    fun ss sIId hfresh => meets_randomNumber_any.bind fun q => ?_
  exact meets_tryInsert (fun d hd => hd.2.stock ▸ hfresh) fun d t hd hrows =>
    ⟨hJ d t hd.1, { hd.2 with stock := map_append_row hd.2.stock hrows }⟩

theorem meets_district (hJ : ∀ d t, J d → J { d with district := t }) (hws : (ws ++ [wId]).Nodup)
    (ws' : List Int) :
    Txn.Meets (fun d => J d ∧ WareTables ws' ss (districtsOf ws) d.warehouse d.stock d.district)
      (district wId)
      fun _ d => J d ∧ WareTables ws' ss (districtsOf (ws ++ [wId])) d.warehouse d.stock d.district := by
  rw [districtsOf, districtsOf, flatMap_snoc]
  refine Txn.meets_each_adds
    (I := fun ds d => J d ∧ WareTables ws' ss ds d.warehouse d.stock d.district) (nodup_pairs_snoc hws _)
    fun ds dId hfresh => meets_randomNumber_any.bind fun tax => ?_
  exact meets_tryInsert (fun d hd => hd.2.districts ▸ hfresh) fun d t hd hrows =>
    ⟨hJ d t hd.1, { hd.2 with
      districts := map_append_row hd.2.districts hrows
      dYtd := forall_append_row hd.2.dYtd hrows rfl
      nextOId := forall_append_row hd.2.nextOId hrows rfl }⟩

def Db.HasWares (ws : List Int) (d : Db) : Prop :=
  WareTables ws (stockOf ws) (districtsOf ws) d.warehouse d.stock d.district

structure KeepsWares (J : Db → Prop) : Prop where
  warehouse : ∀ d t, J d → J { d with warehouse := t }
  stock : ∀ d t, J d → J { d with stock := t }
  district : ∀ d t, J d → J { d with district := t }

theorem meets_ware (hJ : KeepsWares J) (hws : (ws ++ [wId]).Nodup) :
    Txn.Meets (fun d => J d ∧ d.HasWares ws) (ware wId) fun _ d => J d ∧ d.HasWares (ws ++ [wId]) := by
  refine meets_randomNumber_any.bind fun tax => ?_
  refine (meets_tryInsert (Q := fun _ d =>
    J d ∧ WareTables (ws ++ [wId]) (stockOf ws) (districtsOf ws) d.warehouse d.stock d.district)
    (fun d h => ?_) fun d t h hrows => ⟨hJ.warehouse d t h.1, ?_⟩).bind fun _ => ?_
  · rw [h.2.wares]
    exact Txn.notMem_of_nodup_snoc hws
  · exact { h.2 with
      wares := map_append_row h.2.wares hrows
      wYtd := forall_append_row h.2.wYtd hrows rfl }
  · exact (meets_stock hJ.stock hws _).bind fun _ => meets_district hJ.district hws _

end Ware

theorem nodup_wares (minWare maxWare : Int) : (wares minWare maxWare).Nodup := by
  refine List.nodup_range.map fun i j hij => ?_
  have hij : minWare + (i : Int) = minWare + j := hij
  omega

theorem settles_loadWare (hJ : KeepsWares J) (minWare maxWare : Int) :
    Txn.Run.Settles (fun d => J d ∧ d.HasWares []) (loadWare minWare maxWare)
      fun d => J d ∧ d.HasWares (wares minWare maxWare) :=
  Txn.Run.settles_each (I := fun done d => J d ∧ d.HasWares done) (nodup_wares minWare maxWare)
    fun _ _ hws => Txn.Run.settles_untilDone (meets_ware hJ hws)

/-! ## Customers with their history -/

def HistoryRow.customer (r : HistoryRow) : Int × Int × Int := (r.hCWId, r.hCDId, r.hCId)

structure CustTables (cs hs : List (Int × Int × Int))
    (customer : Table CustomerRow (Int × Int × Int) CustomerRow.key) (history : List HistoryRow) :
    Prop where
  customers : customer.rows.map CustomerRow.key = cs
  balance : ∀ r ∈ customer.rows, r.cBalance = -10
  histories : history.map HistoryRow.customer = hs
  home : ∀ r ∈ history, (r.hWId, r.hDId) = (r.hCWId, r.hCDId)
  amount : ∀ r ∈ history, r.hAmount = 10

def perDistrict (n : Nat) (ps : List (Int × Int)) : List (Int × Int × Int) :=
  ps.flatMap fun p => (upTo n).map fun i => (p.1, p.2, i)

theorem perDistrict_snoc (n : Nat) (ps : List (Int × Int)) (p : Int × Int) :
    perDistrict n (ps ++ [p]) = perDistrict n ps ++ (upTo n).map fun i => (p.1, p.2, i) := flatMap_snoc ..

theorem mem_perDistrict {n : Nat} {ps : List (Int × Int)} {w i j : Int} :
    (w, i, j) ∈ perDistrict n ps ↔ (w, i) ∈ ps ∧ j ∈ upTo n := by
  unfold perDistrict
  rw [List.mem_flatMap]
  constructor
  · rintro ⟨p, hp, hj⟩
    obtain ⟨k, hk, heq⟩ := List.mem_map.mp hj
    cases heq
    exact ⟨hp, hk⟩
  · rintro ⟨hp, hj⟩
    exact ⟨(w, i), hp, List.mem_map.mpr ⟨j, hj, rfl⟩⟩

theorem nodup_perDistrict_snoc {ps : List (Int × Int)} {p : Int × Int} (hps : (ps ++ [p]).Nodup) (n : Nat) :
    (perDistrict n ps ++ (upTo n).map fun i => (p.1, p.2, i)).Nodup := by
  have hpairs : (((ps ++ [p]).flatMap fun p => (upTo n).map (Prod.mk p)).map
      fun q => (q.1.1, q.1.2, q.2)).Nodup := (hps.product (nodup_upTo n)).map fun q q' hq => by grind
  rw [List.map_flatMap] at hpairs
  rw [← perDistrict_snoc, perDistrict]
  simpa only [List.map_map, Function.comp_def] using hpairs

def Db.HasCustomers (ps : List (Int × Int)) (d : Db) : Prop :=
  CustTables (perDistrict custPerDist ps) (perDistrict custPerDist ps) d.customer d.history

section Customers

variable {timestamp : String} {cs : List (Int × Int × Int)} {w i c : Int}

structure KeepsCustomers (J : Db → Prop) : Prop where
  customer : ∀ d t, J d → J { d with customer := t }
  history : ∀ d t, J d → J { d with history := t }

theorem meets_loadCustomer (hJ : KeepsCustomers J) (hfresh : (w, i, c) ∉ cs) :
    Txn.Meets (fun d => J d ∧ CustTables cs cs d.customer d.history) (loadCustomer timestamp i w c)
      fun _ d => J d ∧ CustTables (cs ++ [(w, i, c)]) (cs ++ [(w, i, c)]) d.customer d.history := by
  refine meets_makeAlphaString.bind fun _ => meets_customerLast.bind fun _ =>
    meets_randomNumber_any.bind fun _ => meets_randomNumber_any.bind fun _ =>
    meets_makeAlphaString.bind fun _ => ?_
  refine (meets_tryInsert
    (Q := fun _ d => J d ∧ CustTables (cs ++ [(w, i, c)]) cs d.customer d.history)
    (fun d h => ?_) fun d t h hrows => ⟨hJ.customer d t h.1, ?_⟩).bind fun _ => ?_
  · rw [h.2.customers]
    exact hfresh
  · exact { h.2 with
      customers := map_append_row h.2.customers hrows
      balance := forall_append_row h.2.balance hrows rfl }
  · refine (meets_statement fun d h => ⟨_, _, rfl, hJ.history d _ h.1, ?_⟩).mapError _
    exact { h.2 with
      histories := map_append_row h.2.histories rfl
      home := forall_append_row h.2.home rfl rfl
      amount := forall_append_row h.2.amount rfl rfl }

theorem meets_customer (hJ : KeepsCustomers J) {ps : List (Int × Int)} {p : Int × Int}
    (hps : (ps ++ [p]).Nodup) :
    Txn.Meets (fun d => J d ∧ d.HasCustomers ps) (customer timestamp p.2 p.1)
      fun _ d => J d ∧ d.HasCustomers (ps ++ [p]) := by
  unfold Db.HasCustomers
  rw [perDistrict_snoc]
  exact Txn.meets_each_adds (I := fun cs d => J d ∧ CustTables cs cs d.customer d.history)
    (nodup_perDistrict_snoc hps _) fun _ _ => meets_loadCustomer hJ

end Customers

theorem nodup_districtsOf {ws : List Int} (h : ws.Nodup) : (districtsOf ws).Nodup := h.product (nodup_upTo _)

theorem settles_loadCust (hJ : KeepsCustomers J) (timestamp : String) (minWare maxWare : Int) :
    Txn.Run.Settles (fun d => J d ∧ d.HasCustomers []) (loadCust timestamp minWare maxWare)
      fun d => J d ∧ d.HasCustomers (districtsOf (wares minWare maxWare)) :=
  Txn.Run.settles_each (I := fun done d => J d ∧ d.HasCustomers done)
    (nodup_districtsOf (nodup_wares minWare maxWare))
    fun _ _ hps => Txn.Run.settles_untilDone (meets_customer hJ hps)

/-! ## Orders -/

def OrderRow.customer (r : OrderRow) : Int × Int × Int := (r.oWId, r.oDId, r.oCId)

structure OrdTables (ks cs : List (Int × Int × Int)) (upto : OrderRow → Int)
    (orders : Table OrderRow (Int × Int × Int) OrderRow.key)
    (newOrders : Table NewOrderRow (Int × Int × Int) NewOrderRow.key)
    (orderLine : Table OrderLineRow (Int × Int × Int × Int) OrderLineRow.key) : Prop where
  keys : orders.rows.map OrderRow.key = ks
  customers : (orders.rows.map OrderRow.customer).Perm cs
  undelivered : newOrders.rows.map NewOrderRow.key = ks.filter fun k => lastDelivered < k.2.2
  carrier : ∀ o ∈ orders.rows, o.oCarrierId = none ↔ lastDelivered < o.oId
  olCnt : ∀ o ∈ orders.rows, 1 ≤ o.oOlCnt
  lines : ∀ o ∈ orders.rows, ∀ n,
    (∃ l ∈ orderLine.rows, l.order = o.key ∧ l.olNumber = n) ↔ 1 ≤ n ∧ n ≤ upto o
  owned : ∀ l ∈ orderLine.rows, l.order ∈ ks
  delivery : ∀ l ∈ orderLine.rows, l.olDeliveryD = none ↔ lastDelivered < l.olOId
  amount : ∀ l ∈ orderLine.rows, if lastDelivered < l.olOId then l.olAmount = 0 else 0 < l.olAmount

theorem OrdTables.perm {ks cs cs' : List (Int × Int × Int)} {upto : OrderRow → Int}
    {orders : Table OrderRow (Int × Int × Int) OrderRow.key}
    {newOrders : Table NewOrderRow (Int × Int × Int) NewOrderRow.key}
    {orderLine : Table OrderLineRow (Int × Int × Int × Int) OrderLineRow.key}
    (h : OrdTables ks cs upto orders newOrders orderLine) (hperm : cs.Perm cs') :
    OrdTables ks cs' upto orders newOrders orderLine :=
  { h with customers := h.customers.trans hperm }

section Orders

variable {ks cs : List (Int × Int × Int)} {upto : OrderRow → Int}
  {orders orders' : Table OrderRow (Int × Int × Int) OrderRow.key}
  {newOrders newOrders' : Table NewOrderRow (Int × Int × Int) NewOrderRow.key}
  {orderLine orderLine' : Table OrderLineRow (Int × Int × Int × Int) OrderLineRow.key}

variable {r : OrderRow} {n : Int} {l : OrderLineRow}

theorem OrdTables.insertOrder (h : OrdTables ks cs upto orders newOrders orderLine)
    (hfresh : r.key ∉ ks) (horders : orders'.rows = orders.rows ++ [r])
    (hnew : newOrders'.rows.map NewOrderRow.key =
      newOrders.rows.map NewOrderRow.key ++ if lastDelivered < r.oId then [r.key] else [])
    (hcarrier : r.oCarrierId = none ↔ lastDelivered < r.oId) (hcnt : 1 ≤ r.oOlCnt) :
    OrdTables (ks ++ [r.key]) (cs ++ [r.customer]) (fun o => if o = r then 0 else upto o) orders'
      newOrders' orderLine where
  keys := map_append_row h.keys horders
  customers := by
    rw [horders, List.map_append]
    exact h.customers.append_right _
  undelivered := by
    rw [hnew, h.undelivered, List.filter_append]
    congr 1
    have hkey : r.key.2.2 = r.oId := rfl
    by_cases hr : lastDelivered < r.oId <;> simp [hkey, hr]
  carrier := forall_append_row h.carrier horders hcarrier
  olCnt := forall_append_row h.olCnt horders hcnt
  lines := by
    intro o ho n
    by_cases hor : o = r
    · subst hor
      rw [if_pos rfl]
      constructor
      · rintro ⟨l, hl, horder, _⟩
        exact absurd (horder ▸ h.owned l hl) hfresh
      · intro hn
        omega
    · rw [if_neg hor]
      rw [horders, List.mem_append, List.mem_singleton] at ho
      exact h.lines o (ho.resolve_right hor) n
  owned := fun l hl => List.mem_append_left _ (h.owned l hl)
  delivery := h.delivery
  amount := h.amount

theorem OrdTables.insertOrderLine
    (h : OrdTables ks cs (fun o => if o = r then n else upto o) orders newOrders orderLine)
    (hr : r ∈ orders.rows) (hn : 0 ≤ n) (horder : l.order = r.key)
    (hnumber : l.olNumber = n + 1) (hlines : orderLine'.rows = orderLine.rows ++ [l])
    (hdelivery : l.olDeliveryD = none ↔ lastDelivered < l.olOId)
    (hamount : if lastDelivered < l.olOId then l.olAmount = 0 else 0 < l.olAmount) :
    OrdTables ks cs (fun o => if o = r then n + 1 else upto o) orders newOrders orderLine' where
  keys := h.keys
  customers := h.customers
  undelivered := h.undelivered
  carrier := h.carrier
  olCnt := h.olCnt
  lines := by
    intro o ho m
    have hold := h.lines o ho m
    have hsplit : (∃ x ∈ orderLine'.rows, x.order = o.key ∧ x.olNumber = m) ↔
        (∃ x ∈ orderLine.rows, x.order = o.key ∧ x.olNumber = m) ∨ (r.key = o.key ∧ n + 1 = m) := by
      simp only [hlines, List.mem_append, List.mem_singleton, or_and_right, exists_or, exists_eq_left,
        horder, hnumber]
    rw [hsplit, hold]
    by_cases hor : o = r
    · rw [if_pos hor, if_pos hor]
      have hkey : r.key = o.key := by rw [hor]
      simp only [hkey, true_and]
      omega
    · rw [if_neg hor, if_neg hor]
      have hkey : r.key ≠ o.key := fun heq => hor (Table.eq_of_key ho hr heq.symm)
      simp only [hkey, false_and, or_false]
  owned := forall_append_row h.owned hlines
    (horder.symm ▸ h.keys ▸ List.mem_map_of_mem hr)
  delivery := forall_append_row h.delivery hlines hdelivery
  amount := forall_append_row h.amount hlines hamount

theorem OrdTables.line_fresh
    (h : OrdTables ks cs (fun o => if o = r then n else upto o) orders newOrders orderLine)
    (hr : r ∈ orders.rows) (horder : l.order = r.key) (hnumber : l.olNumber = n + 1) :
    l.key ∉ orderLine.rows.map OrderLineRow.key := by
  intro hmem
  obtain ⟨x, hx, heq⟩ := List.mem_map.mp hmem
  obtain ⟨h₁, heq⟩ := Prod.mk.inj heq
  obtain ⟨h₂, heq⟩ := Prod.mk.inj heq
  obtain ⟨h₃, h₄⟩ := Prod.mk.inj heq
  have hxorder : x.order = r.key := by rw [← horder, OrderLineRow.order, h₁, h₂, h₃]; rfl
  have hle := ((h.lines r hr (n + 1)).mp ⟨x, hx, hxorder, h₄.trans hnumber⟩).2
  rw [if_pos rfl] at hle
  omega

theorem OrdTables.complete
    (h : OrdTables ks cs (fun o => if o = r then r.oOlCnt else o.oOlCnt) orders newOrders orderLine) :
    OrdTables ks cs OrderRow.oOlCnt orders newOrders orderLine := by
  have hupto : (fun o : OrderRow => if o = r then r.oOlCnt else o.oOlCnt) = OrderRow.oOlCnt := by
    funext o
    by_cases hor : o = r
    · rw [if_pos hor, hor]
    · rw [if_neg hor]
  exact hupto ▸ h

variable {timestamp : String} {w i : Int}

structure KeepsOrders (J : Db → Prop) : Prop where
  orders : ∀ d t, J d → J { d with orders := t }
  newOrders : ∀ d t, J d → J { d with newOrders := t }
  orderLine : ∀ d t, J d → J { d with orderLine := t }

theorem meets_loadOrderLine (hJ : KeepsOrders J) (hn : 0 ≤ n) :
    Txn.Meets
      (fun d => (J d ∧ r ∈ d.orders.rows) ∧
        OrdTables ks cs (fun o => if o = r then n else upto o) d.orders d.newOrders d.orderLine)
      (loadOrderLine timestamp r.oDId r.oWId r.oId (n + 1))
      fun _ d => (J d ∧ r ∈ d.orders.rows) ∧
        OrdTables ks cs (fun o => if o = r then n + 1 else upto o) d.orders d.newOrders d.orderLine := by
  refine meets_randomNumber_any.bind fun item => (meets_randomNumber (by decide)).bind fun tmp => ?_
  by_cases hlast : lastDelivered < r.oId
  · simp only [if_pos hlast]
    refine meets_tryInsert (fun d h => h.1.2.line_fresh h.1.1.2 rfl rfl)
      fun d t h hrows => ⟨⟨hJ.orderLine d t h.1.1.1, h.1.1.2⟩, ?_⟩
    exact h.1.2.insertOrderLine h.1.1.2 hn rfl rfl hrows (by simp [hlast]) (by simp [hlast])
  · simp only [if_neg hlast]
    refine meets_tryInsert (fun d h => h.1.2.line_fresh h.1.1.2 rfl rfl)
      fun d t h hrows => ⟨⟨hJ.orderLine d t h.1.1.1, h.1.1.2⟩, ?_⟩
    refine h.1.2.insertOrderLine h.1.1.2 hn rfl rfl hrows (by simp [hlast]) ?_
    have htmp : (0 : ℚ) < tmp := by
      have := h.2.1
      exact_mod_cast (by omega : (0 : Int) < tmp)
    rw [if_neg hlast]
    show (0 : ℚ) < tmp / 100
    linarith

theorem meets_loadOrderRow (hJ : KeepsOrders J) {carrier : Int}
    (hr : r = { oId := r.oId, oDId := r.oDId, oWId := r.oWId, oCId := r.oCId, oEntryD := timestamp,
                oCarrierId := if lastDelivered < r.oId then none else some carrier, oOlCnt := r.oOlCnt,
                oAllLocal := 1 })
    (hfresh : r.key ∉ ks) (hcnt : 1 ≤ r.oOlCnt) :
    Txn.Meets (fun d => J d ∧ OrdTables ks cs upto d.orders d.newOrders d.orderLine)
      (loadOrderRow timestamp r.oDId r.oWId r.oId r.oCId carrier r.oOlCnt)
      fun _ d => (J d ∧ r ∈ d.orders.rows) ∧
        OrdTables (ks ++ [r.key]) (cs ++ [r.customer]) (fun o => if o = r then 0 else upto o) d.orders
          d.newOrders d.orderLine := by
  have hcarrier : r.oCarrierId = none ↔ lastDelivered < r.oId := by
    rw [hr]
    by_cases hlast : lastDelivered < r.oId <;> simp [hlast]
  have hmem : ∀ {rows rows' : List OrderRow}, rows' = rows ++ [r] → r ∈ rows' :=
    fun h => h ▸ List.mem_append_right _ (List.mem_singleton_self r)
  unfold loadOrderRow
  by_cases hlast : lastDelivered < r.oId
  · rw [if_pos hlast] at hr ⊢
    rw [← hr]
    -- Between the two insertions the order is there and its row in `new_orders` is not.
    refine (meets_tryInsert
      (Q := fun _ d => J d ∧ ∃ orders, d.orders.rows = orders.rows ++ [r] ∧
        OrdTables ks cs upto orders d.newOrders d.orderLine)
      (fun d h => h.2.keys.symm ▸ hfresh)
      fun d t h hrows => ⟨hJ.orders d t h.1, d.orders, hrows, h.2⟩).bind fun _ => ?_
    refine meets_tryInsert (fun d h => ?_) fun d t h hrows => ?_
    · obtain ⟨_, orders, _, htables⟩ := h
      rw [htables.undelivered]
      exact fun hmem => hfresh (List.mem_filter.mp hmem).1
    · obtain ⟨hd, orders, horders, htables⟩ := h
      refine ⟨⟨hJ.newOrders d t hd, hmem horders⟩, htables.insertOrder hfresh horders ?_ hcarrier hcnt⟩
      rw [if_pos hlast]
      exact map_append_row rfl hrows
  · rw [if_neg hlast] at hr ⊢
    rw [← hr]
    refine meets_tryInsert (fun d h => h.2.keys.symm ▸ hfresh)
      fun d t h hrows => ⟨⟨hJ.orders d t h.1, hmem hrows⟩, h.2.insertOrder hfresh hrows ?_ hcarrier hcnt⟩
    rw [if_neg hlast, List.append_nil]

def loadedOrder (timestamp : String) (w i o c carrier cnt : Int) : OrderRow :=
  { oId := o, oDId := i, oWId := w, oCId := c, oEntryD := timestamp,
    oCarrierId := if lastDelivered < o then none else some carrier, oOlCnt := cnt, oAllLocal := 1 }

theorem eq_length_of_upTo {n : Nat} {b : Int} {done rest : List Int} (h : upTo n = done ++ b :: rest) :
    b = (done.length : Int) + 1 := by
  have hget := congrArg (fun l => l[done.length]?) h
  simp only [upTo, List.getElem?_map, List.getElem?_append_right le_rfl, Nat.sub_self,
    List.getElem?_cons_zero, Option.map_eq_some_iff] at hget
  obtain ⟨j, hj, rfl⟩ := hget
  rw [(List.getElem?_eq_some_iff.mp hj).2.symm, List.getElem_range]

theorem meets_orderLines (hJ : KeepsOrders J) (hcnt : 1 ≤ r.oOlCnt) :
    Txn.Meets
      (fun d => (J d ∧ r ∈ d.orders.rows) ∧
        OrdTables ks cs (fun o => if o = r then 0 else o.oOlCnt) d.orders d.newOrders d.orderLine)
      (Txn.each (upTo r.oOlCnt.toNat) (loadOrderLine timestamp r.oDId r.oWId r.oId))
      fun _ d => J d ∧ OrdTables ks cs OrderRow.oOlCnt d.orders d.newOrders d.orderLine := by
  have hloop := @Txn.meets_each _ _ _
    (fun done d => (J d ∧ r ∈ d.orders.rows) ∧
      OrdTables ks cs (fun o => if o = r then (done.length : Int) else o.oOlCnt) d.orders d.newOrders
        d.orderLine)
    (loadOrderLine timestamp r.oDId r.oWId r.oId) (upTo r.oOlCnt.toNat) fun done b rest hdone => ?_
  · refine hloop.mono (fun d hd => hd) fun _ d hd => ⟨hd.1.1, ?_⟩
    have htables := hd.2
    rw [length_upTo, Int.toNat_of_nonneg (by omega)] at htables
    exact htables.complete
  · rw [eq_length_of_upTo hdone]
    simp only [List.length_append, List.length_singleton, Nat.cast_add, Nat.cast_one]
    exact meets_loadOrderLine hJ (Int.natCast_nonneg _)

theorem meets_loadOrder (hJ : KeepsOrders J) {o c : Int} (hfresh : (w, i, o) ∉ ks) :
    Txn.Meets (fun d => J d ∧ OrdTables ks cs OrderRow.oOlCnt d.orders d.newOrders d.orderLine)
      (loadOrder timestamp i w o c)
      fun _ d => J d ∧
        OrdTables (ks ++ [(w, i, o)]) (cs ++ [(w, i, c)]) OrderRow.oOlCnt d.orders d.newOrders
          d.orderLine := by
  refine meets_randomNumber_any.bind fun carrier => (meets_randomNumber (by decide)).bind fun cnt => ?_
  intro d out ⟨hd, hmin, _⟩
  have hcnt : 1 ≤ (loadedOrder timestamp w i o c carrier cnt).oOlCnt := show 1 ≤ cnt by omega
  exact ((meets_loadOrderRow hJ rfl hfresh hcnt).bind fun _ => meets_orderLines hJ hcnt) d out hd

theorem meets_loadOrders (hJ : KeepsOrders J) {nums rest : List Int} {n : Nat}
    (hlen : n + rest.length = nums.length) (hnums : nums.length = ordPerDist)
    (hnew : (ks ++ rest.map fun o => (w, i, o)).Nodup) :
    Txn.Meets (fun d => J d ∧ OrdTables ks cs OrderRow.oOlCnt d.orders d.newOrders d.orderLine)
      (loadOrders timestamp i w rest ⟨nums, n⟩)
      fun _ d => J d ∧ OrdTables (ks ++ rest.map fun o => (w, i, o))
        (cs ++ (nums.drop n).map fun c => (w, i, c)) OrderRow.oOlCnt d.orders d.newOrders d.orderLine := by
  induction rest generalizing n ks cs with
  | nil =>
    refine Txn.meets_pure fun d hd => ?_
    rw [List.drop_eq_nil_of_le (show nums.length ≤ n from hlen.ge), List.map_nil, List.append_nil, List.append_nil]
    exact hd
  | cons o rest ih =>
    rw [List.length_cons] at hlen
    have hlt : n < nums.length := by omega
    rw [List.map_cons, List.append_cons] at hnew ⊢
    rw [List.drop_eq_getElem_cons hlt, List.map_cons, List.append_cons cs, ← List.getD_eq_getElem _ 0 hlt]
    have hfresh := Txn.notMem_of_nodup_snoc hnew.of_append_left
    refine (meets_getPermutation (hnums ▸ hlt)).bind fun drawn => ?_
    intro d out ⟨hd, hdrawn⟩
    subst hdrawn
    have hlen : n + 1 + rest.length = nums.length := by omega
    exact ((meets_loadOrder hJ hfresh).bind fun _ => ih hlen hnew) d out hd

end Orders

def Db.HasOrders (ps : List (Int × Int)) (d : Db) : Prop :=
  OrdTables (perDistrict ordPerDist ps) (perDistrict custPerDist ps) OrderRow.oOlCnt d.orders d.newOrders
    d.orderLine

theorem meets_orders (hJ : KeepsOrders J) {timestamp : String} {ps : List (Int × Int)} {p : Int × Int}
    (hps : (ps ++ [p]).Nodup) :
    Txn.Meets (fun d => J d ∧ d.HasOrders ps) (orders timestamp p.2 p.1)
      fun _ d => J d ∧ d.HasOrders (ps ++ [p]) := by
  refine meets_initPermutation.bind fun perm => ?_
  intro d out ⟨hd, js, hjs, hperm⟩
  obtain ⟨nums, hnums, rfl⟩ : ∃ nums, nums.Perm (upTo ordPerDist) ∧ perm = ⟨nums, 0⟩ :=
    ⟨_, hjs.permuteFrom_perm, hperm⟩
  have hlen : (upTo ordPerDist).length = nums.length := hnums.length_eq.symm
  have hrun := @meets_loadOrders J _ (perDistrict custPerDist ps) timestamp _ _ hJ nums (upTo ordPerDist) 0
    ((Nat.zero_add _).trans hlen) (hlen.symm.trans (length_upTo _)) (nodup_perDistrict_snoc hps ordPerDist)
  refine hrun.mono (fun _ h => h) (fun _ d hd => ⟨hd.1, ?_⟩) d out hd
  have hsame : ordPerDist = custPerDist := rfl
  rw [hsame] at hnums
  rw [Db.HasOrders, perDistrict_snoc, perDistrict_snoc]
  have hcustomers := (hnums.map fun c => (p.1, p.2, c)).append_left (perDistrict custPerDist ps)
  exact hd.2.perm hcustomers

theorem settles_loadOrd (hJ : KeepsOrders J) (timestamp : String) (minWare maxWare : Int) :
    Txn.Run.Settles (fun d => J d ∧ d.HasOrders []) (loadOrd timestamp minWare maxWare)
      fun d => J d ∧ d.HasOrders (districtsOf (wares minWare maxWare)) :=
  Txn.Run.settles_each (I := fun done d => J d ∧ d.HasOrders done)
    (nodup_districtsOf (nodup_wares minWare maxWare))
    fun _ _ hps => Txn.Run.settles_untilDone (meets_orders hJ hps)

/-! ## The whole load -/

structure Db.Filled (ws : List Int) (d : Db) : Prop where
  items : d.item.rows.map ItemRow.key = upTo maxItems
  wares : d.HasWares ws
  customers : d.HasCustomers (districtsOf ws)
  orders : d.HasOrders (districtsOf ws)

theorem hasWares_empty : Db.empty.HasWares [] :=
  ⟨rfl, List.forall_mem_nil _, rfl, rfl, List.forall_mem_nil _, List.forall_mem_nil _⟩

theorem hasCustomers_empty : Db.empty.HasCustomers [] :=
  ⟨rfl, List.forall_mem_nil _, rfl, List.forall_mem_nil _, List.forall_mem_nil _⟩

theorem hasOrders_empty : Db.empty.HasOrders [] :=
  ⟨rfl, .nil, rfl, List.forall_mem_nil _, List.forall_mem_nil _, List.forall_mem_nil _,
    List.forall_mem_nil _, List.forall_mem_nil _, List.forall_mem_nil _⟩

theorem settles_load (timestamp : String) (minWare maxWare : Int) :
    Txn.Run.Settles (· = Db.empty) (load timestamp minWare maxWare) fun d =>
      d.Filled (wares minWare maxWare) := by
  -- Each part carries along the tables that are full already and those that are empty still.
  have hitems : Txn.Run.Settles (· = Db.empty) loadItems fun d =>
      (d.item.rows.map ItemRow.key = upTo maxItems ∧ d.HasCustomers [] ∧ d.HasOrders []) ∧ d.HasWares [] := by
    refine (@settles_loadItems (fun d => d.HasWares [] ∧ d.HasCustomers [] ∧ d.HasOrders [])
      fun _ _ h => h).mono ?_ fun d h => ⟨⟨h.2, h.1.2⟩, h.1.1⟩
    rintro _ rfl
    exact ⟨⟨hasWares_empty, hasCustomers_empty, hasOrders_empty⟩, rfl⟩
  have hwares := @settles_loadWare
    (fun d => d.item.rows.map ItemRow.key = upTo maxItems ∧ d.HasCustomers [] ∧ d.HasOrders [])
    ⟨fun _ _ h => h, fun _ _ h => h, fun _ _ h => h⟩ minWare maxWare
  have hcust := @settles_loadCust
    (fun d => d.item.rows.map ItemRow.key = upTo maxItems ∧ d.HasWares (wares minWare maxWare) ∧
      d.HasOrders [])
    ⟨fun _ _ h => h, fun _ _ h => h⟩ timestamp minWare maxWare
  have hord := @settles_loadOrd
    (fun d => d.item.rows.map ItemRow.key = upTo maxItems ∧ d.HasWares (wares minWare maxWare) ∧
      d.HasCustomers (districtsOf (wares minWare maxWare)))
    ⟨fun _ _ h => h, fun _ _ h => h, fun _ _ h => h⟩ timestamp minWare maxWare
  have hthree := ((hitems.andThen hwares).mono (fun _ h => h) ?_).andThen hcust
  · refine ((hthree.mono (fun _ h => h) ?_).andThen hord).mono (fun _ h => h) ?_
    · exact fun d h => ⟨⟨h.1.1, h.1.2.1, h.2⟩, h.1.2.2⟩
    · exact fun d h => ⟨h.1.1, h.1.2.1, h.1.2.2, h.2⟩
  · exact fun d h => ⟨⟨h.1.1, h.2, h.1.2.2⟩, h.1.2.1⟩

/-! ## The requirements -/

structure Loaded (ws : List Int) (d : Db) : Prop where
  items : d.item.rows.map ItemRow.key = upTo maxItems
  warehouses : d.warehouse.rows.map WarehouseRow.key = ws
  stock : d.stock.rows.map StockRow.key = stockOf ws
  districts : d.district.rows.map DistrictRow.key = districtsOf ws
  customers : d.customer.rows.map CustomerRow.key = perDistrict custPerDist (districtsOf ws)
  history : d.history.map HistoryRow.customer = perDistrict custPerDist (districtsOf ws)
  orders : d.orders.rows.map OrderRow.key = perDistrict ordPerDist (districtsOf ws)
  orderCustomers : ∀ p ∈ districtsOf ws,
    ((d.orders.rows.filter fun o => (o.oWId, o.oDId) = p).map OrderRow.oCId).Perm (upTo custPerDist)
  lines : ∀ o ∈ d.orders.rows, ∀ n, (∃ l ∈ d.orderLine.rows, l.order = o.key ∧ l.olNumber = n) ↔
    1 ≤ n ∧ n ≤ o.oOlCnt
  owned : ∀ l ∈ d.orderLine.rows, ∃ o ∈ d.orders.rows, o.key = l.order
  newOrders : d.newOrders.rows.map NewOrderRow.key =
    (perDistrict ordPerDist (districtsOf ws)).filter fun k => 2100 < k.2.2
  carrier : ∀ o ∈ d.orders.rows, o.oCarrierId = none ↔ 2100 < o.oId
  delivery : ∀ l ∈ d.orderLine.rows, l.olDeliveryD = none ↔ 2100 < l.olOId
  nextOId : ∀ r ∈ d.district.rows, r.dNextOId = ordPerDist + 1

theorem filter_perDistrict {n : Nat} {ps : List (Int × Int)} (hps : ps.Nodup) {p : Int × Int}
    (hp : p ∈ ps) :
    ((perDistrict n ps).filter fun k => (k.1, k.2.1) = p).map (fun k => k.2.2) = upTo n := by
  induction ps with
  | nil => exact absurd hp List.not_mem_nil
  | cons q ps ih =>
    have hhead : ((upTo n).map fun i => (q.1, q.2, i)).filter (fun k => (k.1, k.2.1) = p) =
        if q = p then (upTo n).map fun i => (q.1, q.2, i) else [] := by
      by_cases hqp : q = p <;> simp [List.filter_map, Function.comp_def, hqp]
    have hcons : perDistrict n (q :: ps) = ((upTo n).map fun i => (q.1, q.2, i)) ++ perDistrict n ps := rfl
    rw [hcons, List.filter_append, hhead, List.map_append]
    rw [List.nodup_cons] at hps
    by_cases hqp : q = p
    · have hnone : (perDistrict n ps).filter (fun k => (k.1, k.2.1) = p) = [] := by
        rw [List.filter_eq_nil_iff]
        intro k hk hkp
        exact hps.1 (hqp ▸ of_decide_eq_true hkp ▸ (mem_perDistrict.mp hk).1)
      rw [if_pos hqp, hnone, List.map_nil, List.append_nil, List.map_map]
      exact List.map_id _
    · rw [if_neg hqp, List.map_nil, List.nil_append]
      exact ih hps.2 ((List.mem_cons.mp hp).resolve_left (Ne.symm hqp))

theorem Db.Filled.loaded {ws : List Int} (hws : ws.Nodup) {d : Db} (h : d.Filled ws) : Loaded ws d where
  items := h.items
  warehouses := h.wares.wares
  stock := h.wares.stock
  districts := h.wares.districts
  customers := h.customers.customers
  history := h.customers.histories
  orders := h.orders.keys
  orderCustomers := by
    intro p hp
    have hperm := (h.orders.customers.filter fun k => (k.1, k.2.1) = p).map fun k => k.2.2
    rw [filter_perDistrict (nodup_districtsOf hws) hp, List.filter_map, List.map_map] at hperm
    exact hperm
  lines := h.orders.lines
  owned := fun l hl => List.mem_map.mp (h.orders.keys.symm ▸ h.orders.owned l hl)
  newOrders := h.orders.undelivered
  carrier := h.orders.carrier
  delivery := h.orders.delivery
  nextOId := h.wares.nextOId

/-- Whatever is drawn and refused, the loader ends, and however often it had to start again, the
database is as required when it does. What is done again after a failure is always what has been
rolled back. -/
theorem load_fills_tables (timestamp : String) (minWare maxWare : Int) (o : Outside) :
    (∃ n d o', load timestamp minWare maxWare n Db.empty o = some (d, o')) ∧
      ∀ n d o', load timestamp minWare maxWare n Db.empty o = some (d, o') →
        Loaded (wares minWare maxWare) d := by
  have hload := settles_load timestamp minWare maxWare
  constructor
  · obtain ⟨d, o', hrun, _⟩ := hload.ends (o.pending + 1) Db.empty o rfl (Nat.lt_succ_self _)
    exact ⟨_, d, o', hrun⟩
  · intro n d o' hrun
    exact (hload.post n Db.empty o d o' rfl hrun).loaded (nodup_wares minWare maxWare)

end MysqlBench.Tpcc
