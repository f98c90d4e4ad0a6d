import MysqlBench.Tpcc.PaymentFrame
import MysqlBench.Tpcc.Totals

/-!
# Customer balances

Condition 10 of TPC-C asks that a customer's balance is what has been delivered to the customer less what
the customer has paid. A delivery adds the total of the order to the balance, as it should; a payment adds
its amount too, where it should take it off. So from one database to a later one the balance moves by the
deliveries plus the payments (`BalanceMoves`), and since the loader starts with the balance at minus the
payments although it has delivered some orders already, the condition comes down to an equation between the
payments since the load and what the loader delivered.
-/

namespace MysqlBench.Tpcc

open Lib

/-! ## The condition -/

def Db.ordersLine (d : Db) (c : Int × Int × Int) (l : OrderLineRow) : Prop :=
  ∃ o ∈ d.orders.rows, o.key = l.order ∧ o.customer = c

instance (d : Db) (c : Int × Int × Int) (l : OrderLineRow) : Decidable (d.ordersLine c l) :=
  inferInstanceAs (Decidable (∃ o ∈ d.orders.rows, o.key = l.order ∧ o.customer = c))

def Db.delivered (d : Db) (c : Int × Int × Int) : ℚ :=
  sumWhere d.orderLine.rows (fun l => l.olDeliveryD.isSome && decide (d.ordersLine c l)) OrderLineRow.olAmount

def Db.paid (d : Db) (c : Int × Int × Int) : ℚ :=
  sumWhere d.history (fun r => r.customer = c) HistoryRow.hAmount

def BalancesAddUp (d : Db) : Prop := ∀ r ∈ d.customer.rows, r.cBalance = d.delivered r.key - d.paid r.key

theorem balancesAddUp_iff {d : Db} :
    BalancesAddUp d ↔ ∀ c b, d.balance c = some b → b = d.delivered c - d.paid c := by
  constructor
  · intro h c b hb
    obtain ⟨r, hr, rfl⟩ := Option.map_eq_some_iff.mp hb
    obtain ⟨hmem, rfl⟩ := Table.find_eq_some.mp hr
    exact h r hmem
  · intro h r hr
    refine h r.key _ ?_
    rw [Db.balance, Table.find_eq_some.mpr ⟨hr, rfl⟩]
    rfl

/-! ## How the calls move the balances -/

/-- The orders are consistent and have lines, and every balance has moved from what it was in `d₀` by the
deliveries and the payments since. -/
structure BalanceMoves (d₀ d : Db) : Prop where
  side : OrderSide d
  olCnt : ∀ o ∈ d.orders.rows, 1 ≤ o.oOlCnt
  balance : ∀ c, d.balance c =
    (d₀.balance c).map fun b => b + (d.delivered c - d₀.delivered c) + (d.paid c - d₀.paid c)

section Calls

variable {d₀ d d' : Db}

variable {a : DeliveryArgs} {cId oId : Int} {ls : List OrderLineRow} {k : Int × Int × Int}

theorem BalanceMoves.refl (hside : OrderSide d) (hcnt : ∀ o ∈ d.orders.rows, 1 ≤ o.oOlCnt) :
    BalanceMoves d d := by
  refine ⟨hside, hcnt, fun c => ?_⟩
  simp

theorem BalanceMoves.balance_step (h : BalanceMoves d₀ d) {c : Int × Int × Int} {m : ℚ}
    (hbalance : d'.balance c = (d.balance c).map fun b => b + m)
    (hm : m = (d'.delivered c - d.delivered c) + (d'.paid c - d.paid c)) :
    d'.balance c =
      (d₀.balance c).map fun b => b + (d'.delivered c - d₀.delivered c) + (d'.paid c - d₀.paid c) := by
  rw [hbalance, h.balance c, Option.map_map]
  congr 1
  funext b
  rw [Function.comp_apply, hm]
  ring

theorem paid_of_history (h : d'.history = d.history) (c : Int × Int × Int) : d'.paid c = d.paid c := by
  rw [Db.paid, h]
  rfl

theorem BalanceMoves.payment {a : PaymentArgs} (h : PaymentEffect a cId d d')
    (hd : BalanceMoves d₀ d) : BalanceMoves d₀ d' := by
  have hdelivered : ∀ c, d'.delivered c = d.delivered c := by
    intro c
    rw [Db.delivered, h.orderLine]
    refine sumWhere_congr (fun l _ => ?_) fun _ _ _ => rfl
    have hiff : d'.ordersLine c l ↔ d.ordersLine c l := by
      rw [Db.ordersLine, h.orders]
      exact Iff.rfl
    simp only [hiff]
  have hpaid : ∀ c, d'.paid c = d.paid c + if c = (a.cWId, a.cDId, cId) then a.hAmount else 0 := by
    intro c
    rw [Db.paid, Db.paid, h.history, sumWhere_append, sumWhere_cons, sumWhere_nil, add_zero]
    have hrow : (a.history cId).customer = (a.cWId, a.cDId, cId) := rfl
    by_cases hc : c = (a.cWId, a.cDId, cId)
    · have hamount : (a.history cId).hAmount = a.hAmount := rfl
      simp [hrow, hc, hamount]
    · simp [hrow, hc, Ne.symm hc]
  refine ⟨orderSide_payment h hd.side, h.orders ▸ hd.olCnt, fun c => ?_⟩
  refine hd.balance_step (m := if c = (a.cWId, a.cDId, cId) then a.hAmount else 0) ?_ ?_
  · rw [h.balance c]
    congr 1
    funext b
    split <;> simp
  · rw [hdelivered, hpaid]
    ring

theorem delivered_neword {a : NewOrderArgs}
    (h : NewordEffect a oId ls d d') (hd : OrderSide d) (c : Int × Int × Int) :
    d'.delivered c = d.delivered c := by
  rw [Db.delivered, h.orderLine, sumWhere_append]
  have hnew : sumWhere ls (fun l => l.olDeliveryD.isSome && decide (d'.ordersLine c l))
      OrderLineRow.olAmount = 0 := by
    refine sumWhere_eq_zero _ fun l hl => ?_
    rw [h.lines.undelivered l hl]
    rfl
  rw [hnew, add_zero]
  refine sumWhere_congr (fun l hl => ?_) fun _ _ _ => rfl
  -- The order that came in is not the order of a line that was there.
  have hiff : d'.ordersLine c l ↔ d.ordersLine c l := by
    simp only [Db.ordersLine, h.orders, List.mem_append, List.mem_singleton, or_and_right, exists_or,
      exists_eq_left]
    have hne : (a.order oId).key ≠ l.order := fun heq => h.order_ne hd hl heq.symm
    simp [hne]
  simp only [hiff]

theorem BalanceMoves.neword {a : NewOrderArgs}
    (h : NewordEffect a oId ls d d') (hcnt : 1 ≤ a.oOlCnt) (hd : BalanceMoves d₀ d) :
    BalanceMoves d₀ d' := by
  refine ⟨orderSide_neword h hd.side, forall_append_row hd.olCnt h.orders ?_, fun c => ?_⟩
  · show (1 : Int) ≤ (a.oOlCnt : Int)
    exact_mod_cast hcnt
  · refine hd.balance_step (m := 0) ?_ ?_
    · simp only [Db.balance, h.customer, add_zero, Option.map_id']
    · rw [delivered_neword h hd.side, paid_of_history h.history]
      ring

theorem OrderSide.undelivered (h : OrderSide d)
    (hk : ∃ n ∈ d.newOrders.rows, n.key = k) {l : OrderLineRow} (hl : l ∈ d.orderLine.rows)
    (hlk : l.order = k) : l.olDeliveryD = none := by
  obtain ⟨o, ho, hkey, hiff⟩ := h.delivered l hl
  obtain ⟨n, hn, hnk⟩ := hk
  refine hiff.mpr ((h.carrier o ho).mpr ⟨n, hn, ?_⟩)
  rw [hnk, ← hlk, ← hkey]
  rfl

theorem ordersLine_delivery
    (h : DeliveryEffect a k cId d d') (c : Int × Int × Int) (l : OrderLineRow) :
    d'.ordersLine c l ↔ d.ordersLine c l := by
  have hsame : ∀ r : OrderRow,
      (if decide (r.key = k) = true then r.setCarrier a.oCarrierId else r).key = r.key ∧
        (if decide (r.key = k) = true then r.setCarrier a.oCarrierId else r).customer = r.customer := by
    intro r
    split <;> exact ⟨rfl, rfl⟩
  rw [Db.ordersLine, h.orders]
  constructor
  · rintro ⟨o, ho, hkey, hcust⟩
    obtain ⟨r, hr, rfl⟩ := List.mem_map.mp ho
    exact ⟨r, hr, (hsame r).1 ▸ hkey, (hsame r).2 ▸ hcust⟩
  · rintro ⟨r, hr, hkey, hcust⟩
    exact ⟨_, List.mem_map.mpr ⟨r, hr, rfl⟩, (hsame r).1.trans hkey, (hsame r).2.trans hcust⟩

theorem delivered_delivery
    (h : DeliveryEffect a k cId d d') (hd : OrderSide d) (c : Int × Int × Int) :
    d'.delivered c = d.delivered c + if c = (k.1, k.2.1, cId) then d.orderTotal k else 0 := by
  have hpending : ∃ n ∈ d.newOrders.rows, n.key = k := by
    obtain ⟨n, hn, hnk, _⟩ := h.oldest
    exact ⟨n, hn, hnk⟩
  -- a line of the order belongs to the order's customer and to nobody else
  have howner : ∀ l : OrderLineRow, l.order = k → (d.ordersLine c l ↔ c = (k.1, k.2.1, cId)) := by
    intro l hlk
    obtain ⟨r, hr, hrk, hrc⟩ := h.found
    have hcust : r.customer = (k.1, k.2.1, cId) := by rw [← hrk, ← hrc]; rfl
    constructor
    · rintro ⟨o, ho, hkey, rfl⟩
      rw [Table.eq_of_key ho hr (hkey.trans (hlk.trans hrk.symm)), hcust]
    · rintro rfl
      exact ⟨r, hr, hrk.trans hlk.symm, hcust⟩
  have hlines : d'.delivered c = sumWhere d.orderLine.rows
      (fun l => (l.olDeliveryD.isSome || decide (l.order = k)) && decide (d.ordersLine c l))
      OrderLineRow.olAmount := by
    rw [Db.delivered, h.orderLine]
    refine (sumWhere_map d.orderLine.rows _ _ _).trans (sumWhere_congr (fun l _ => ?_) fun l _ _ => ?_)
    · have hiff := ordersLine_delivery h c
      by_cases hl : l.order = k
      · have hset : d'.ordersLine c (l.setDelivery a.datetime) ↔ d.ordersLine c l := hiff _
        have hsome : (l.setDelivery a.datetime).olDeliveryD = some a.datetime := rfl
        simp only [hl, decide_true, if_true, Bool.or_true, Bool.true_and, hset, hsome, Option.isSome_some]
      · simp [hl, hiff]
    · split <;> rfl
  have hsplit : sumWhere d.orderLine.rows
      (fun l => (l.olDeliveryD.isSome || decide (l.order = k)) && decide (d.ordersLine c l))
      OrderLineRow.olAmount = d.delivered c + sumWhere d.orderLine.rows
        (fun l => decide (l.order = k) && decide (d.ordersLine c l)) OrderLineRow.olAmount := by
    -- the lines of a pending order had no delivery date
    refine sumWhere_or _ fun l hl => ⟨Bool.and_or_distrib_right .., ?_⟩
    by_cases hlk : l.order = k
    · rw [hd.undelivered hpending hl hlk]
      rfl
    · simp [hlk]
  rw [hlines, hsplit]
  congr 1
  by_cases hc : c = (k.1, k.2.1, cId)
  · rw [if_pos hc, Db.orderTotal]
    refine sumWhere_congr (fun l _ => ?_) fun _ _ _ => rfl
    by_cases hl : l.order = k
    · simp [hl, (howner l hl).mpr hc]
    · simp [hl]
  · rw [if_neg hc]
    refine sumWhere_eq_zero _ fun l _ => ?_
    by_cases hl : l.order = k
    · have hnot : ¬d.ordersLine c l := fun hmine => hc ((howner l hl).mp hmine)
      simp [hnot]
    · simp [hl]

theorem BalanceMoves.delivery
    (h : DeliveryEffect a k cId d d') (hd : BalanceMoves d₀ d) : BalanceMoves d₀ d' := by
  have hline : ∃ r ∈ d.orderLine.rows, r.order = k := by
    obtain ⟨r, hr, hrk, _⟩ := h.found
    obtain ⟨l, hl, hlk, _⟩ := (hd.side.lines r hr 1).mpr ⟨le_rfl, hd.olCnt r hr⟩
    exact ⟨l, hl, hlk.trans hrk⟩
  refine ⟨orderSide_delivery h hd.side, fun o ho => ?_, fun c => ?_⟩
  · rw [h.orders] at ho
    obtain ⟨r, hr, rfl⟩ := List.mem_map.mp ho
    have hcnt := hd.olCnt r hr
    split <;> exact hcnt
  · refine hd.balance_step (m := if c = (k.1, k.2.1, cId) then d.orderTotal k else 0) ?_ ?_
    · rw [h.balance hline c]
      congr 1
      funext b
      split <;> simp
    · rw [delivered_delivery h hd.side, paid_of_history h.history]
      ring

theorem BalanceMoves.runCalls (hd : BalanceMoves d₀ d) (cs : List (Call × Outside)) :
    BalanceMoves d₀ (runCalls d cs) :=
  runCalls_invariant (fun _ _ _ _ _ hcnt hd h => hd.neword h hcnt) (fun _ _ _ _ hd h => hd.payment h)
    (fun _ _ _ _ _ hd h => hd.delivery h) hd cs

end Calls

/-! ## The payments of some calls -/

def Call.pays (c : Int × Int × Int) (d : Db) (o : Outside) : Call → ℚ
  | .payment coll a =>
    if (Tpcc.payment coll a d o).1 = 1 ∧ (a.cWId, a.cDId, d.payer coll a) = c then a.hAmount else 0
  | _ => 0

/-- What some calls pay for customer `c`, each on the database that the calls before it have left. -/
def paidBy (c : Int × Int × Int) : Db → List (Call × Outside) → ℚ
  | _, [] => 0
  | d, call :: cs => call.1.pays c d call.2 + paidBy c (call.1.run d call.2) cs

section Payments

variable {c : Int × Int × Int}

theorem paid_afterPayment (d : Db) (a : PaymentArgs) (cId : Int) (b : ℚ) :
    (d.afterPayment a cId b).paid c = d.paid c + if (a.cWId, a.cDId, cId) = c then a.hAmount else 0 := by
  have hhistory : (d.afterPayment a cId b).history = d.history ++ [a.history cId] := rfl
  have hrow : (a.history cId).customer = (a.cWId, a.cDId, cId) := rfl
  have hamount : (a.history cId).hAmount = a.hAmount := rfl
  rw [Db.paid, Db.paid, hhistory, sumWhere_append, sumWhere_cons, sumWhere_nil, add_zero, hrow, hamount]
  simp only [decide_eq_true_eq]

theorem paid_run (call : Call) (d : Db) (o : Outside) : (call.run d o).paid c = d.paid c + call.pays c d o := by
  cases call with
  | neword a h =>
    have hpays : (Call.neword a h).pays c d o = 0 := rfl
    rw [hpays, add_zero, Call.run]
    cases neword_cases a d o with
    | inl hsame => rw [hsame]
    | inr heffect =>
      obtain ⟨oId, ls, heffect⟩ := heffect
      exact paid_of_history heffect.history c
  | payment coll a =>
    rw [Call.pays, Call.run]
    cases payment_eq coll a d o with
    | inl hfailed => simp [hfailed]
    | inr hpaid =>
      obtain ⟨-, -, r, -, hpaid⟩ := hpaid
      rw [hpaid, paid_afterPayment]
      simp
  | delivery a =>
    have hpays : (Call.delivery a).pays c d o = 0 := rfl
    rw [hpays, add_zero, Call.run]
    refine @delivery_invariant _ (fun d' : Db => d'.paid c = d.paid c) a ?_ rfl o
    exact fun _ _ _ _ hd h => (paid_of_history h.history c).trans hd

theorem paid_runCalls (d : Db) (cs : List (Call × Outside)) : (runCalls d cs).paid c = d.paid c + paidBy c d cs := by
  induction cs generalizing d with
  | nil => rw [paidBy, add_zero, runCalls]
  | cons call cs ih => rw [runCalls, paidBy, ih, paid_run, add_assoc]

end Payments

/-! ## What the loader writes -/

section Load

variable {ws : List Int} {d : Db}

theorem Db.Filled.mem_ordered (h : d.Filled ws) {w i j : Int} (hp : (w, i) ∈ districtsOf ws) :
    j ∈ d.ordered w i ↔ 1 ≤ j ∧ j ≤ ordPerDist := by
  have hmem : j ∈ d.ordered w i ↔ (w, i, j) ∈ d.orders.rows.map OrderRow.key := List.mem_map.symm
  rw [hmem, h.orders.keys, mem_perDistrict, mem_upTo]
  exact and_iff_right hp

theorem Db.Filled.mem_pending (h : d.Filled ws) {w i j : Int} (hp : (w, i) ∈ districtsOf ws) :
    j ∈ d.pending w i ↔ lastDelivered < j ∧ j ≤ ordPerDist := by
  have hmem : j ∈ d.pending w i ↔ (w, i, j) ∈ d.newOrders.rows.map NewOrderRow.key := List.mem_map.symm
  rw [hmem, h.orders.undelivered, List.mem_filter, mem_perDistrict, mem_upTo, decide_eq_true_eq]
  unfold lastDelivered
  constructor
  · rintro ⟨⟨_, _, hle⟩, hlt⟩
    exact ⟨hlt, hle⟩
  · rintro ⟨hlt, hle⟩
    exact ⟨⟨hp, by omega, hle⟩, hlt⟩

theorem Db.Filled.district_mem (h : d.Filled ws) {r : DistrictRow} (hr : r ∈ d.district.rows) :
    (r.dWId, r.dId) ∈ districtsOf ws := h.wares.districts ▸ List.mem_map_of_mem hr

theorem Db.Filled.orderSide (h : d.Filled ws) : OrderSide d := by
  have hnext : ∀ r ∈ d.district.rows, r.dNextOId - 1 = ordPerDist := by
    intro r hr
    rw [h.wares.nextOId r hr]
    rfl
  constructor
  case next =>
    intro r hr
    rw [hnext r hr]
    refine ⟨(h.mem_ordered (h.district_mem hr)).mpr ⟨by decide, le_rfl⟩, fun j hj => ?_⟩
    exact ((h.mem_ordered (h.district_mem hr)).mp hj).2
  case newest =>
    intro r hr _
    rw [hnext r hr]
    refine ⟨(h.mem_pending (h.district_mem hr)).mpr ⟨by decide, le_rfl⟩, fun j hj => ?_⟩
    exact ((h.mem_pending (h.district_mem hr)).mp hj).2
  case contiguous =>
    intro r hr
    refine ⟨fun i hi j hj m hm => ?_⟩
    have hi := (h.mem_pending (h.district_mem hr)).mp hi
    have hj := (h.mem_pending (h.district_mem hr)).mp hj
    exact (h.mem_pending (h.district_mem hr)).mpr ⟨hi.1.trans_le hm.1, hm.2.trans hj.2⟩
  case lines => exact h.orders.lines
  case carrier =>
    intro o ho
    have hkey : o.key ∈ perDistrict ordPerDist (districtsOf ws) := h.orders.keys ▸ List.mem_map_of_mem ho
    obtain ⟨hp, hj⟩ := mem_perDistrict.mp hkey
    rw [h.orders.carrier o ho, h.mem_pending hp]
    exact (and_iff_left (mem_upTo.mp hj).2).symm
  case delivered =>
    intro l hl
    obtain ⟨o, ho, hkey⟩ := List.mem_map.mp (h.orders.keys.symm ▸ h.orders.owned l hl)
    refine ⟨o, ho, hkey, ?_⟩
    rw [h.orders.delivery l hl, h.orders.carrier o ho]
    rw [show l.olOId = o.oId from (Prod.mk.inj (Prod.mk.inj hkey).2).2.symm]

theorem Db.Filled.paid (h : d.Filled ws) {c : Int × Int × Int}
    (hc : c ∈ d.customer.rows.map CustomerRow.key) : d.paid c = 10 := by
  have hsame : d.history.map HistoryRow.customer = d.customer.rows.map CustomerRow.key :=
    h.customers.histories.trans h.customers.customers.symm
  have hcount : (d.history.map HistoryRow.customer).count c = 1 := by
    rw [hsame]
    exact List.count_eq_one_of_mem d.customer.nodup hc
  have hcountP : d.history.countP (fun r => r.customer = c) = 1 := by
    rw [← hcount, List.count, List.countP_map]
    exact List.countP_congr fun r _ => by simp
  rw [Db.paid, sumWhere_eq_countP _ h.customers.amount, hcountP]
  norm_num

theorem Db.Filled.balance (h : d.Filled ws) (c : Int × Int × Int) :
    d.balance c = if c ∈ d.customer.rows.map CustomerRow.key then some (-10) else none := by
  unfold Db.balance
  by_cases hc : c ∈ d.customer.rows.map CustomerRow.key
  · obtain ⟨r, hr, rfl⟩ := List.mem_map.mp hc
    rw [if_pos hc, Table.find_eq_some.mpr ⟨hr, rfl⟩, Option.map_some, h.customers.balance r hr]
  · have hnone : d.customer.find c = none :=
      Table.find_eq_none.mpr fun r hr heq => hc (List.mem_map.mpr ⟨r, hr, heq⟩)
    rw [if_neg hc, hnone]
    rfl

theorem Db.Filled.addUp_iff (h : d.Filled ws) (cs : List (Call × Outside)) :
    BalancesAddUp (runCalls d cs) ↔ ∀ c ∈ d.customer.rows.map CustomerRow.key,
      2 * paidBy c d cs = d.delivered c := by
  have hmoves := (BalanceMoves.refl h.orderSide h.orders.olCnt).runCalls cs
  rw [balancesAddUp_iff]
  refine forall_congr' fun c => ?_
  rw [hmoves.balance c, h.balance c, paid_runCalls]
  by_cases hc : c ∈ d.customer.rows.map CustomerRow.key
  · have hpaid := h.paid hc
    rw [if_pos hc, Option.map_some]
    constructor
    · intro h _
      have := h _ rfl
      linarith
    · intro h b hb
      have := h hc
      rw [← Option.some.inj hb]
      linarith
  · simp [hc]

theorem Db.Filled.exists_delivered (h : d.Filled ws) {w i : Int} (hp : (w, i) ∈ districtsOf ws) :
    ∃ c ∈ d.customer.rows.map CustomerRow.key, 0 < d.delivered c := by
  obtain ⟨o, ho, hkey⟩ := (h.mem_ordered hp).mpr (show (1 : Int) ≤ 1 ∧ 1 ≤ (ordPerDist : Int) by decide)
  have hmem : o.customer ∈ d.customer.rows.map CustomerRow.key := by
    rw [h.customers.customers]
    exact h.orders.customers.subset (List.mem_map_of_mem ho)
  obtain ⟨l, hl, hlo, _⟩ := (h.orders.lines o ho 1).mpr ⟨le_rfl, h.orders.olCnt o ho⟩
  have hdate : l.olDeliveryD ≠ none := by
    rw [ne_eq, h.orders.delivery l hl]
    rw [show l.olOId = 1 from (Prod.mk.inj (Prod.mk.inj (hlo.trans hkey)).2).2]
    decide
  refine ⟨o.customer, hmem, List.sum_pos _ (fun x hx => ?_) ?_⟩
  · obtain ⟨l', hl', rfl⟩ := List.mem_map.mp hx
    obtain ⟨hl', hcond⟩ := List.mem_filter.mp hl'
    have hnot : ¬lastDelivered < l'.olOId := by
      rw [← h.orders.delivery l' hl', ← ne_eq, Option.ne_none_iff_isSome]
      exact (Bool.and_eq_true_iff.mp hcond).1
    have hamount := h.orders.amount l' hl'
    rw [if_neg hnot] at hamount
    exact hamount
  · refine List.ne_nil_of_mem (List.mem_map_of_mem (List.mem_filter.mpr ⟨hl, ?_⟩))
    exact Bool.and_eq_true_iff.mpr
      ⟨Option.ne_none_iff_isSome.mp hdate, decide_eq_true ⟨o, ho, hlo.symm, rfl⟩⟩

end Load

/-- **Balances.** After the load and any calls, the balances add up if and only if every customer has since
paid half of what the loader had delivered to the customer: only then do the two errors, of the loader and of
`payment`, cancel. -/
theorem balances_add_up_iff (timestamp : String) (minWare maxWare : Int) (n : Nat) (o o' : Outside) (d : Db)
    (hload : load timestamp minWare maxWare n Db.empty o = some (d, o')) (cs : List (Call × Outside)) :
    BalancesAddUp (runCalls d cs) ↔ ∀ c ∈ d.customer.rows.map CustomerRow.key,
      2 * paidBy c d cs = d.delivered c :=
  ((settles_load timestamp minWare maxWare).post n Db.empty o d o' rfl hload).addUp_iff cs

/-- One warehouse, and a payment by the first customer. -/
theorem balances_add_up_iff_one : ∃ n o d o', load "" 1 1 n Db.empty o = some (d, o') ∧
    (BalancesAddUp (runCalls d [(.payment plainCollation ⟨1, 1, false, 1, 1, 1, "", 5, ""⟩, ⟨[], fun _ => 0⟩)]) ↔
      ∀ c ∈ d.customer.rows.map CustomerRow.key,
        2 * paidBy c d [(.payment plainCollation ⟨1, 1, false, 1, 1, 1, "", 5, ""⟩, ⟨[], fun _ => 0⟩)] =
          d.delivered c) := by
  obtain ⟨n, o, d, o', hload⟩ := exists_load_one
  exact ⟨n, o, d, o', hload, balances_add_up_iff "" 1 1 n o o' d hload _⟩

/-- One warehouse, as loaded. -/
theorem not_balancesAddUp_load_one :
    ∃ n o d o', load "" 1 1 n Db.empty o = some (d, o') ∧ ¬BalancesAddUp d := by
  obtain ⟨n, o, d, o', hload⟩ := exists_load_one
  have hfilled := (settles_load "" 1 1).post n Db.empty o d o' rfl hload
  refine ⟨n, o, d, o', hload, fun hadd => ?_⟩
  obtain ⟨c, hc, hpos⟩ := hfilled.exists_delivered (show ((1 : Int), (1 : Int)) ∈ districtsOf (wares 1 1) by decide)
  have hzero := (hfilled.addUp_iff []).mp hadd c hc
  rw [paidBy, mul_zero] at hzero
  exact absurd hzero (ne_of_lt hpos)

/-! ## From the load on -/

/-- Whatever is refused, the loader ends; and whatever is called and refused then, the orders stay
consistent and every balance moves by what is delivered and paid. -/
theorem consistent_from_load (timestamp : String) (minWare maxWare : Int) (o : Outside) :
    (∃ n d o', load timestamp minWare maxWare n Db.empty o = some (d, o')) ∧
      ∀ n d o', load timestamp minWare maxWare n Db.empty o = some (d, o') → ∀ cs,
        OrderSide (runCalls d cs) ∧ ∀ c, (runCalls d cs).balance c = (d.balance c).map fun b =>
          b + ((runCalls d cs).delivered c - d.delivered c) + ((runCalls d cs).paid c - d.paid c) := by
  have hload := settles_load timestamp minWare maxWare
  constructor
  · obtain ⟨d, o', hrun, _⟩ := hload.ends (o.pending + 1) Db.empty o rfl (Nat.lt_succ_self _)
    exact ⟨_, d, o', hrun⟩
  · intro n d o' hrun cs
    have hfilled := hload.post n Db.empty o d o' rfl hrun
    have hmoves := (BalanceMoves.refl hfilled.orderSide hfilled.orders.olCnt).runCalls cs
    exact ⟨hmoves.side, hmoves.balance⟩

end MysqlBench.Tpcc
