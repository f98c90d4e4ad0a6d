import MysqlBench.Tpcc.Delivery

/-!
# The orders stay consistent

The consistency conditions 2 to 7 of TPC-C tie the tables `district`, `orders`, `new_orders` and
`order_line` together (`OrderSide`). Each of the three programs that write them is known by its effect when
it commits, so what is left is that an effect keeps the conditions: `orderSide_neword` places an order one
past the greatest, `orderSide_delivery` takes away the least undelivered one, and a payment changes nothing
that the conditions speak about. A call that fails leaves the database, or what it had committed of it.
-/

namespace MysqlBench.Tpcc

open Lib

/-! ## The conditions -/

def Db.ordered (d : Db) (wId dId : Int) : Set Int := {i | ∃ o ∈ d.orders.rows, o.key = (wId, dId, i)}

def Db.pending (d : Db) (wId dId : Int) : Set Int :=
  {i | ∃ n ∈ d.newOrders.rows, n.key = (wId, dId, i)}

structure OrderSide (d : Db) : Prop where
  /-- Condition 2. -/
  next : ∀ r ∈ d.district.rows, IsGreatest (d.ordered r.dWId r.dId) (r.dNextOId - 1)
  newest : ∀ r ∈ d.district.rows, (d.pending r.dWId r.dId).Nonempty →
    IsGreatest (d.pending r.dWId r.dId) (r.dNextOId - 1)
  /-- Condition 3. -/
  contiguous : ∀ r ∈ d.district.rows, (d.pending r.dWId r.dId).OrdConnected
  /-- Conditions 4 and 6. -/
  lines : ∀ o ∈ d.orders.rows, ∀ n, (∃ l ∈ d.orderLine.rows, l.order = o.key ∧ l.olNumber = n) ↔
    1 ≤ n ∧ n ≤ o.oOlCnt
  /-- Condition 5. -/
  carrier : ∀ o ∈ d.orders.rows, o.oCarrierId = none ↔ o.oId ∈ d.pending o.oWId o.oDId
  /-- Condition 7. -/
  delivered : ∀ l ∈ d.orderLine.rows, ∃ o ∈ d.orders.rows, o.key = l.order ∧
    (l.olDeliveryD = none ↔ o.oCarrierId = none)

/-! ## New orders -/

section NewOrder

variable {a : NewOrderArgs} {oId : Int} {ls : List OrderLineRow} {d d' : Db}

theorem NewordEffect.mem_ordered (h : NewordEffect a oId ls d d') {w dist i : Int} :
    i ∈ d'.ordered w dist ↔ i ∈ d.ordered w dist ∨ (w, dist, i) = (a.wId, a.dId, oId) := by
  unfold Db.ordered
  simp only [Set.mem_ofPred_eq, h.orders, List.mem_append, List.mem_singleton, or_and_right, exists_or,
    exists_eq_left]
  exact or_congr Iff.rfl eq_comm

theorem NewordEffect.mem_pending (h : NewordEffect a oId ls d d') {w dist i : Int} :
    i ∈ d'.pending w dist ↔ i ∈ d.pending w dist ∨ (w, dist, i) = (a.wId, a.dId, oId) := by
  unfold Db.pending
  simp only [Set.mem_ofPred_eq, h.newOrders, List.mem_append, List.mem_singleton, or_and_right, exists_or,
    exists_eq_left]
  exact or_congr Iff.rfl eq_comm

/-- A district of the new order has its number, and then the next, and the number is added to its orders;
the other districts stay. -/
theorem NewordEffect.district_cases (h : NewordEffect a oId ls d d') {r : DistrictRow}
    (hr : r ∈ d'.district.rows) : ∃ r₀ ∈ d.district.rows, r.dWId = r₀.dWId ∧ r.dId = r₀.dId ∧
      ((r₀.dNextOId = oId ∧ r.dNextOId = oId + 1 ∧
          d'.ordered r₀.dWId r₀.dId = insert oId (d.ordered r₀.dWId r₀.dId) ∧
          d'.pending r₀.dWId r₀.dId = insert oId (d.pending r₀.dWId r₀.dId)) ∨
        (r.dNextOId = r₀.dNextOId ∧ d'.ordered r₀.dWId r₀.dId = d.ordered r₀.dWId r₀.dId ∧
          d'.pending r₀.dWId r₀.dId = d.pending r₀.dWId r₀.dId)) := by
  rw [h.district] at hr
  obtain ⟨r₀, hr₀, heq⟩ := List.mem_map.mp hr
  by_cases hkey : r₀.key = (a.wId, a.dId)
  · obtain ⟨r₁, hr₁, hkey₁, hnext⟩ := h.next
    have hsame : r₀ = r₁ := Table.eq_of_key hr₀ hr₁ (hkey.trans hkey₁.symm)
    obtain ⟨hw, hdist⟩ := Prod.mk.inj hkey
    rw [if_pos (by simpa using hkey)] at heq
    refine ⟨r₀, hr₀, heq ▸ rfl, heq ▸ rfl, .inl ⟨hsame ▸ hnext, heq ▸ rfl, ?_, ?_⟩⟩ <;> ext i
    · simp [h.mem_ordered, hw, hdist, or_comm]
    · simp [h.mem_pending, hw, hdist, or_comm]
  · rw [if_neg (by simpa using hkey)] at heq
    have hother : ∀ i, ¬(r₀.dWId, r₀.dId, i) = (a.wId, a.dId, oId) := by
      simp only [DistrictRow.key, Prod.mk.injEq] at hkey ⊢
      tauto
    refine ⟨r₀, hr₀, heq ▸ rfl, heq ▸ rfl, .inr ⟨heq ▸ rfl, ?_, ?_⟩⟩ <;> ext i
    · rw [h.mem_ordered, or_iff_left (hother i)]
    · rw [h.mem_pending, or_iff_left (hother i)]

theorem NewordEffect.fresh (h : NewordEffect a oId ls d d') (hd : OrderSide d) :
    oId ∉ d.ordered a.wId a.dId := by
  obtain ⟨r, hr, hkey, hnext⟩ := h.next
  obtain ⟨hw, hdist⟩ := Prod.mk.inj hkey
  have hgreatest := hd.next r hr
  rw [hw, hdist, hnext] at hgreatest
  intro hmem
  have := hgreatest.2 hmem
  omega

theorem NewordEffect.order_ne (h : NewordEffect a oId ls d d') (hd : OrderSide d) {l : OrderLineRow}
    (hl : l ∈ d.orderLine.rows) : l.order ≠ (a.wId, a.dId, oId) := by
  obtain ⟨o, ho, hkey, _⟩ := hd.delivered l hl
  exact fun heq => h.fresh hd ⟨o, ho, hkey.trans heq⟩

theorem LinesOf.exists_number {cnt : Nat} (h : LinesOf a oId 1 cnt ls) (n : Int) :
    (∃ l ∈ ls, l.olNumber = n) ↔ 1 ≤ n ∧ n ≤ cnt := by
  rw [← List.mem_map, h.number, List.mem_map]
  constructor
  · rintro ⟨i, hi, rfl⟩
    have := List.mem_range.mp hi
    omega
  · intro hn
    exact ⟨(n - 1).toNat, List.mem_range.mpr (by omega), by omega⟩

theorem isGreatest_insert {s : Set Int} (hle : ∀ i ∈ s, i ≤ oId - 1) :
    IsGreatest (insert oId s) (oId + 1 - 1) := by
  refine ⟨.inl (by omega), fun i hi => ?_⟩
  cases hi with
  | inl hi => omega
  | inr hi => have := hle i hi; omega

theorem ordConnected_insert {s : Set Int} (hs : s.OrdConnected) (hg : s.Nonempty → IsGreatest s (oId - 1)) :
    (insert oId s).OrdConnected := by
  refine Set.ordConnected_def.mpr fun x hx y hy z ⟨hxz, hzy⟩ => ?_
  by_cases hz : z = oId
  · exact .inl hz
  have hy' : y ≤ oId := hy.elim le_of_eq fun hy => by have := (hg ⟨y, hy⟩).2 hy; omega
  cases hx with
  | inl hx => omega
  | inr hx => exact .inr (hs.out hx (hg ⟨x, hx⟩).1 ⟨hxz, by omega⟩)

theorem orderSide_neword (h : NewordEffect a oId ls d d') (hd : OrderSide d) : OrderSide d' := by
  have hold : ∀ o ∈ d.orders.rows, o.key ≠ (a.wId, a.dId, oId) := fun o ho heq => h.fresh hd ⟨o, ho, heq⟩
  constructor
  case next =>
    intro r hr
    -- the district of the order gets one more number, the others stay
    obtain ⟨r₀, hr₀, hw, hdist, ⟨hnext, hnext', ho, _⟩ | ⟨hnext, ho, _⟩⟩ := h.district_cases hr
    all_goals rw [hw, hdist, ho]
    · exact hnext' ▸ isGreatest_insert fun i hi => hnext ▸ (hd.next r₀ hr₀).2 hi
    · exact hnext ▸ hd.next r₀ hr₀
  case newest =>
    intro r hr hne
    obtain ⟨r₀, hr₀, hw, hdist, ⟨hnext, hnext', _, hp⟩ | ⟨hnext, _, hp⟩⟩ := h.district_cases hr
    all_goals rw [hw, hdist, hp] at hne ⊢
    · exact hnext' ▸ isGreatest_insert fun i hi => hnext ▸ (hd.newest r₀ hr₀ ⟨i, hi⟩).2 hi
    · exact hnext ▸ hd.newest r₀ hr₀ hne
  case contiguous =>
    intro r hr
    obtain ⟨r₀, hr₀, hw, hdist, ⟨hnext, _, _, hp⟩ | ⟨_, _, hp⟩⟩ := h.district_cases hr
    all_goals rw [hw, hdist, hp]
    · exact ordConnected_insert (hd.contiguous r₀ hr₀) fun hne => hnext ▸ hd.newest r₀ hr₀ hne
    · exact hd.contiguous r₀ hr₀
  case lines =>
    intro o ho n
    rw [h.orders] at ho
    simp only [h.orderLine, List.mem_append, or_and_right, exists_or]
    cases List.mem_append.mp ho with
    | inl ho =>
      rw [or_iff_left, hd.lines o ho n]
      -- the new lines belong to an order that was not there before
      rintro ⟨l, hl, horder, _⟩
      exact hold o ho (horder.symm.trans (h.lines.order l hl))
    | inr ho =>
      rw [List.mem_singleton.mp ho, or_iff_right]
      · refine Iff.trans ⟨?_, ?_⟩ (h.lines.exists_number n)
        · rintro ⟨l, hl, _, hn⟩
          exact ⟨l, hl, hn⟩
        · rintro ⟨l, hl, hn⟩
          exact ⟨l, hl, h.lines.order l hl, hn⟩
      · rintro ⟨l, hl, horder, _⟩
        exact h.order_ne hd hl horder
  case carrier =>
    intro o ho
    rw [h.orders] at ho
    rw [h.mem_pending]
    cases List.mem_append.mp ho with
    | inl ho => exact (hd.carrier o ho).trans (or_iff_left (hold o ho)).symm
    | inr ho =>
      rw [List.mem_singleton.mp ho]
      exact ⟨fun _ => .inr rfl, fun _ => rfl⟩
  case delivered =>
    intro l hl
    rw [h.orderLine] at hl
    simp only [h.orders, List.mem_append]
    cases List.mem_append.mp hl with
    | inl hl =>
      obtain ⟨o, ho, hkey, hiff⟩ := hd.delivered l hl
      exact ⟨o, .inl ho, hkey, hiff⟩
    | inr hl =>
      refine ⟨a.order oId, .inr (List.mem_singleton.mpr rfl), (h.lines.order l hl).symm, ?_⟩
      exact ⟨fun _ => rfl, fun _ => h.lines.undelivered l hl⟩

end NewOrder

/-! ## Deliveries -/

section Delivery

variable {a : DeliveryArgs} {k : Int × Int × Int} {cId : Int} {d d' : Db}

theorem DeliveryEffect.mem_pending (h : DeliveryEffect a k cId d d') {w dist i : Int} :
    i ∈ d'.pending w dist ↔ i ∈ d.pending w dist ∧ (w, dist, i) ≠ k := by
  unfold Db.pending
  simp only [Set.mem_ofPred_eq, h.newOrders]
  constructor
  · rintro ⟨n, hn, hkey⟩
    obtain ⟨hn, hne⟩ := Table.mem_delete.mp hn
    exact ⟨⟨n, hn, hkey⟩, hkey ▸ of_decide_eq_false hne⟩
  · rintro ⟨⟨n, hn, hkey⟩, hne⟩
    exact ⟨n, Table.mem_delete.mpr ⟨hn, decide_eq_false (hkey ▸ hne)⟩, hkey⟩

theorem carrier_cases (o : OrderRow) (k : Int × Int × Int) (carrier : Int) :
    let o' := if decide (o.key = k) then o.setCarrier carrier else o
    o'.key = o.key ∧ o'.oOlCnt = o.oOlCnt ∧
      ((o.key = k ∧ o'.oCarrierId = some carrier) ∨ (o.key ≠ k ∧ o'.oCarrierId = o.oCarrierId)) := by
  by_cases hkey : o.key = k
  · rw [if_pos (by simpa using hkey)]
    exact ⟨rfl, rfl, .inl ⟨hkey, rfl⟩⟩
  · rw [if_neg (by simpa using hkey)]
    exact ⟨rfl, rfl, .inr ⟨hkey, rfl⟩⟩

theorem date_cases (l : OrderLineRow) (k : Int × Int × Int) (datetime : String) :
    let l' := if decide (l.order = k) then l.setDelivery datetime else l
    l'.order = l.order ∧ l'.olNumber = l.olNumber ∧
      ((l.order = k ∧ l'.olDeliveryD = some datetime) ∨ (l.order ≠ k ∧ l'.olDeliveryD = l.olDeliveryD)) := by
  by_cases hkey : l.order = k
  · rw [if_pos (by simpa using hkey)]
    exact ⟨rfl, rfl, .inl ⟨hkey, rfl⟩⟩
  · rw [if_neg (by simpa using hkey)]
    exact ⟨rfl, rfl, .inr ⟨hkey, rfl⟩⟩

theorem DeliveryEffect.order_cases (h : DeliveryEffect a k cId d d') {o : OrderRow}
    (ho : o ∈ d'.orders.rows) : ∃ o₀ ∈ d.orders.rows, o.key = o₀.key ∧ o.oOlCnt = o₀.oOlCnt ∧
      ((o₀.key = k ∧ o.oCarrierId = some a.oCarrierId) ∨
        (o₀.key ≠ k ∧ o.oCarrierId = o₀.oCarrierId)) := by
  rw [h.orders] at ho
  obtain ⟨o₀, ho₀, rfl⟩ := List.mem_map.mp ho
  exact ⟨o₀, ho₀, carrier_cases o₀ k a.oCarrierId⟩

theorem DeliveryEffect.exists_order (h : DeliveryEffect a k cId d d') {o₀ : OrderRow}
    (ho₀ : o₀ ∈ d.orders.rows) : ∃ o ∈ d'.orders.rows, o.key = o₀.key ∧ o.oOlCnt = o₀.oOlCnt ∧
      ((o₀.key = k ∧ o.oCarrierId = some a.oCarrierId) ∨
        (o₀.key ≠ k ∧ o.oCarrierId = o₀.oCarrierId)) := by
  rw [h.orders]
  exact ⟨_, List.mem_map_of_mem ho₀, carrier_cases o₀ k a.oCarrierId⟩

theorem DeliveryEffect.line_cases (h : DeliveryEffect a k cId d d') {l : OrderLineRow}
    (hl : l ∈ d'.orderLine.rows) : ∃ l₀ ∈ d.orderLine.rows, l.order = l₀.order ∧
      l.olNumber = l₀.olNumber ∧
      ((l₀.order = k ∧ l.olDeliveryD = some a.datetime) ∨
        (l₀.order ≠ k ∧ l.olDeliveryD = l₀.olDeliveryD)) := by
  rw [h.orderLine] at hl
  obtain ⟨l₀, hl₀, rfl⟩ := List.mem_map.mp hl
  exact ⟨l₀, hl₀, date_cases l₀ k a.datetime⟩

theorem DeliveryEffect.exists_line (h : DeliveryEffect a k cId d d') {l₀ : OrderLineRow}
    (hl₀ : l₀ ∈ d.orderLine.rows) : ∃ l ∈ d'.orderLine.rows, l.order = l₀.order ∧
      l.olNumber = l₀.olNumber := by
  rw [h.orderLine]
  obtain ⟨horder, hnumber, _⟩ := date_cases l₀ k a.datetime
  exact ⟨_, List.mem_map_of_mem hl₀, horder, hnumber⟩

theorem DeliveryEffect.mem_ordered (h : DeliveryEffect a k cId d d') {w dist i : Int} :
    i ∈ d'.ordered w dist ↔ i ∈ d.ordered w dist := by
  constructor
  · rintro ⟨o, ho, hkey⟩
    obtain ⟨o₀, ho₀, hsame, _⟩ := h.order_cases ho
    exact ⟨o₀, ho₀, hsame ▸ hkey⟩
  · rintro ⟨o₀, ho₀, hkey⟩
    obtain ⟨o, ho, hsame, _⟩ := h.exists_order ho₀
    exact ⟨o, ho, hsame.trans hkey⟩

theorem DeliveryEffect.lt_of_pending (h : DeliveryEffect a k cId d d') {w dist i j : Int}
    (hi : i ∈ d'.pending w dist) (hk : (w, dist, j) = k) : j < i := by
  obtain ⟨⟨n', hn', hkey'⟩, hne⟩ := h.mem_pending.mp hi
  obtain ⟨n, _, hkey, hleast⟩ := h.oldest
  rw [← hk] at hkey hne
  simp only [NewOrderRow.key, Prod.mk.injEq] at hkey hkey'
  have hle := hleast n' hn' (hkey'.1.trans hkey.1.symm) (hkey'.2.1.trans hkey.2.1.symm)
  rw [hkey.2.2, hkey'.2.2] at hle
  exact lt_of_le_of_ne hle fun heq => hne (by rw [heq])

theorem orderSide_delivery (h : DeliveryEffect a k cId d d') (hd : OrderSide d) : OrderSide d' := by
  have hordered : ∀ w dist, d'.ordered w dist = d.ordered w dist :=
    fun w dist => Set.ext fun i => h.mem_ordered
  constructor
  case next =>
    intro r hr
    rw [h.district] at hr
    rw [hordered]
    exact hd.next r hr
  case newest =>
    rintro r hr ⟨i, hi⟩
    rw [h.district] at hr
    have hnewest := hd.newest r hr ⟨i, (h.mem_pending.mp hi).1⟩
    refine ⟨h.mem_pending.mpr ⟨hnewest.1, fun hk => ?_⟩, fun j hj => hnewest.2 (h.mem_pending.mp hj).1⟩
    -- the order delivered is the oldest, so it is not the newest unless it is the only one
    have hlt := h.lt_of_pending hi hk
    have hle := hnewest.2 (h.mem_pending.mp hi).1
    omega
  case contiguous =>
    intro r hr
    rw [h.district] at hr
    refine Set.ordConnected_def.mpr fun x hx y hy z hz => ?_
    have hconn := (hd.contiguous r hr).out (h.mem_pending.mp hx).1 (h.mem_pending.mp hy).1 hz
    refine h.mem_pending.mpr ⟨hconn, fun hk => ?_⟩
    -- nor is it between two that are still pending
    have hlt := h.lt_of_pending hx hk
    have hle : x ≤ z := hz.1
    omega
  case lines =>
    intro o ho n
    obtain ⟨o₀, ho₀, hkey, hcnt, _⟩ := h.order_cases ho
    rw [hkey, hcnt, ← hd.lines o₀ ho₀ n]
    have hcases := fun l (hl : l ∈ d'.orderLine.rows) => h.line_cases hl
    have hexists := fun l (hl : l ∈ d.orderLine.rows) => h.exists_line hl
    grind
  case carrier =>
    intro o ho
    obtain ⟨o₀, ho₀, hkey, _, hcases⟩ := h.order_cases ho
    have hcarrier := hd.carrier o₀ ho₀
    simp only [OrderRow.key, Prod.mk.injEq] at hkey
    rw [h.mem_pending, hkey.1, hkey.2.1, hkey.2.2]
    change o₀.key = k ∧ _ ∨ o₀.key ≠ k ∧ _ at hcases
    grind [OrderRow.key]
  case delivered =>
    intro l hl
    obtain ⟨l₀, hl₀, horder, _, hlcases⟩ := h.line_cases hl
    obtain ⟨o₀, ho₀, hkey, hiff⟩ := hd.delivered l₀ hl₀
    obtain ⟨o, ho, hkey', _, hocases⟩ := h.exists_order ho₀
    refine ⟨o, ho, hkey'.trans (hkey.trans horder.symm), ?_⟩
    grind

end Delivery

/-! ## Payments -/

theorem orderSide_payment {a : PaymentArgs} {cId : Int} {d d' : Db} (h : PaymentEffect a cId d d')
    (hd : OrderSide d) : OrderSide d' := by
  have hdist : ∀ r ∈ d'.district.rows, ∃ r₀ ∈ d.district.rows, r.dWId = r₀.dWId ∧ r.dId = r₀.dId ∧
      r.dNextOId = r₀.dNextOId := by
    intro r hr
    rw [h.district] at hr
    obtain ⟨r₀, hr₀, heq⟩ := List.mem_map.mp hr
    refine ⟨r₀, hr₀, ?_⟩
    rw [← heq]
    split <;> exact ⟨rfl, rfl, rfl⟩
  have hordered : d'.ordered = d.ordered := by
    unfold Db.ordered
    rw [h.orders]
  have hpending : d'.pending = d.pending := by
    unfold Db.pending
    rw [h.newOrders]
  constructor
  case lines => rw [h.orders, h.orderLine]; exact hd.lines
  case carrier => rw [h.orders, hpending]; exact hd.carrier
  case delivered => rw [h.orders, h.orderLine]; exact hd.delivered
  all_goals
    intro r hr
    obtain ⟨r₀, hr₀, hw, hd', hnext⟩ := hdist r hr
    simp only [hordered, hpending, hw, hd', hnext]
  · exact hd.next r₀ hr₀
  · exact hd.newest r₀ hr₀
  · exact hd.contiguous r₀ hr₀

/-! ## Sequences of calls -/

inductive Call where
  | neword (a : NewOrderArgs) (h : 1 ≤ a.oOlCnt ∧ a.oOlCnt ≤ maxNumItems)
  | payment (coll : Collation) (a : PaymentArgs)
  | delivery (a : DeliveryArgs)

def Call.run (d : Db) (o : Outside) : Call → Db
  | .neword a _ => (Tpcc.neword a d o).2
  | .payment coll a => (Tpcc.payment coll a d o).2
  | .delivery a => (Tpcc.delivery a d o).2

def runCalls : Db → List (Call × Outside) → Db
  | d, [] => d
  | d, c :: cs => runCalls (c.1.run d c.2) cs

theorem Call.invariant {P : Db → Prop}
    (hneword : ∀ a oId ls d d', 1 ≤ a.oOlCnt → P d → NewordEffect a oId ls d d' → P d')
    (hpayment : ∀ a cId d d', P d → PaymentEffect a cId d d' → P d')
    (hdelivery : ∀ a k cId d d', P d → DeliveryEffect a k cId d d' → P d') (c : Call) {d : Db} (hd : P d)
    (o : Outside) : P (c.run d o) := by
  cases c with
  | neword a h =>
    cases neword_cases a d o with
    | inl hsame =>
      rw [Call.run, hsame]
      exact hd
    | inr heffect =>
      obtain ⟨oId, ls, heffect⟩ := heffect
      exact hneword a oId ls d _ h.1 hd heffect
  | payment coll a =>
    cases payment_cases coll a d o with
    | inl hsame =>
      rw [Call.run, hsame]
      exact hd
    | inr heffect =>
      obtain ⟨cId, heffect⟩ := heffect
      exact hpayment a cId d _ hd heffect
  | delivery a => exact delivery_invariant a (fun k cId d d' => hdelivery a k cId d d') hd o

theorem runCalls_invariant {P : Db → Prop}
    (hneword : ∀ a oId ls d d', 1 ≤ a.oOlCnt → P d → NewordEffect a oId ls d d' → P d')
    (hpayment : ∀ a cId d d', P d → PaymentEffect a cId d d' → P d')
    (hdelivery : ∀ a k cId d d', P d → DeliveryEffect a k cId d d' → P d') {d : Db} (hd : P d)
    (cs : List (Call × Outside)) : P (runCalls d cs) := by
  induction cs generalizing d with
  | nil => exact hd
  | cons c cs ih => exact ih (c.1.invariant hneword hpayment hdelivery hd c.2)

/-- **The orders stay consistent.** After every sequence of calls of the three programs that write,
whichever of their statements are refused: a call that fails leaves nothing behind but what it has
committed, and each commit keeps the conditions. -/
theorem order_side_runCalls (d : Db) (hd : OrderSide d) (cs : List (Call × Outside)) :
    OrderSide (runCalls d cs) :=
  runCalls_invariant (fun _ _ _ _ _ _ hd h => orderSide_neword h hd)
    (fun _ _ _ _ hd h => orderSide_payment h hd) (fun _ _ _ _ _ hd h => orderSide_delivery h hd) hd cs

def sampleDb : Db where
  warehouse := .single ⟨1, 0, 0⟩
  district := .single ⟨1, 1, 0, 0, 2⟩
  customer := .single ⟨1, 1, 1, "F", "L", "GC", 0, 0, 0, ""⟩
  history := []
  newOrders := .empty
  orders := .single ⟨1, 1, 1, 1, "", some 3, 1, 1⟩
  orderLine := .single ⟨1, 1, 1, 1, 7, 1, some "", 5, 0⟩
  item := .single ⟨7, 2⟩
  stock := .single ⟨7, 1, 50⟩

theorem orderSide_sampleDb : OrderSide sampleDb := by
  have hpending : ∀ w dist, sampleDb.pending w dist = ∅ := by
    intro w dist
    simp [Db.pending, sampleDb, Table.empty]
  have hordered : sampleDb.ordered 1 1 = {1} := by
    ext i
    simp [Db.ordered, sampleDb, OrderRow.key, eq_comm]
  constructor
  case next =>
    intro r hr
    rw [List.mem_singleton.mp hr]
    show IsGreatest (sampleDb.ordered 1 1) (2 - 1)
    rw [hordered]
    exact isGreatest_singleton
  case newest => exact fun r _ hne => absurd hne (by simp [hpending])
  case contiguous => exact fun r _ => hpending r.dWId r.dId ▸ Set.ordConnected_empty
  case lines =>
    intro o ho n
    rw [List.mem_singleton.mp ho]
    simp only [sampleDb, Table.rows_single, List.mem_singleton, exists_eq_left,
      OrderLineRow.order, OrderRow.key, true_and]
    omega
  case carrier =>
    intro o ho
    rw [List.mem_singleton.mp ho, hpending]
    simp
  case delivered =>
    intro l hl
    rw [List.mem_singleton.mp hl]
    exact ⟨_, List.mem_singleton.mpr rfl, rfl, by simp⟩

/-- An order for the item in stock is placed and delivered. -/
theorem order_side_runCalls_two :
    ∃ cs : List (Call × Outside),
      (runCalls sampleDb cs).orders.rows.map (fun o => (o.oId, o.oCarrierId)) =
        [(1, some 3), (2, some 5)] ∧ OrderSide (runCalls sampleDb cs) := by
  refine ⟨[(.neword ⟨1, 1, 1, 1, 1, fun _ => 7, fun _ => 1, fun _ => 6, "now"⟩ ⟨by decide, by decide⟩,
    ⟨[], fun _ => 0⟩), (.delivery ⟨1, 5, "now", 0⟩, ⟨[], fun _ => 0⟩)], ?_,
    order_side_runCalls sampleDb orderSide_sampleDb _⟩
  decide +kernel

end MysqlBench.Tpcc
