import MysqlBench.Tpcc.Loaded
import MysqlBench.Tpcc.OrderSide

/-!
# Year-to-date totals

A payment adds its amount to a warehouse, to one of its districts and to the history, so the three totals of
a warehouse keep their differences (`YtdOffset`). The loader decides what the differences are: it gives each
district 30000 and each customer a payment of 10, which agree, but the warehouse ten times as much as its
districts have.
-/

namespace MysqlBench.Tpcc

open Lib

/-! ## The totals -/

def Db.districtYtd (d : Db) (w : Int) : ℚ := sumWhere d.district.rows (fun r => r.dWId = w) DistrictRow.dYtd

def Db.historyTotal (d : Db) (w : Int) : ℚ := sumWhere d.history (fun r => r.hWId = w) HistoryRow.hAmount

def YtdAgree (d : Db) : Prop :=
  ∀ r ∈ d.warehouse.rows, r.wYtd = d.districtYtd r.wId ∧ r.wYtd = d.historyTotal r.wId

/-- The warehouses are `ws`; each is ahead of its districts by `offset`, and they are level with the
history. -/
structure YtdOffset (ws : List Int) (offset : ℚ) (d : Db) : Prop where
  wares : d.warehouse.rows.map WarehouseRow.key = ws
  ahead : ∀ r ∈ d.warehouse.rows, r.wYtd = d.districtYtd r.wId + offset
  level : ∀ r ∈ d.warehouse.rows, d.districtYtd r.wId = d.historyTotal r.wId

theorem YtdOffset.agree_iff {ws : List Int} {offset : ℚ} {d : Db} (h : YtdOffset ws offset d)
    (hoffset : offset ≠ 0) : YtdAgree d ↔ ws = [] := by
  rw [← h.wares, List.map_eq_nil_iff]
  constructor
  · intro hagree
    refine List.eq_nil_iff_forall_not_mem.mpr fun r hr => hoffset ?_
    have hahead := h.ahead r hr
    rw [(hagree r hr).1] at hahead
    linarith
  · intro hnil r hr
    exact absurd (hnil ▸ hr) List.not_mem_nil

/-! ## The calls keep the differences -/

section Calls

variable {ws : List Int} {offset : ℚ} {d d' : Db}

theorem districtYtd_addDistrictYtd {w i : Int} (amount : ℚ) (h : ∃ r ∈ d.district.rows, r.key = (w, i))
    (w' : Int) :
    (d.addDistrictYtd w i amount).districtYtd w' = d.districtYtd w' + if w = w' then amount else 0 := by
  obtain ⟨r, hr, hkey⟩ := h
  have hsum := sumWhere_update_key d.district.nodup hr (fun s => s.dWId = w') DistrictRow.dYtd amount
  have hw : r.dWId = w := (Prod.mk.inj hkey).1
  rw [hkey] at hsum
  simp only [hw, decide_eq_true_eq] at hsum
  rw [Db.districtYtd, Db.districtYtd, ← hsum]
  refine (sumWhere_map d.district.rows _ _ _).trans (sumWhere_congr (fun s _ => ?_) fun s _ _ => ?_)
  · by_cases hs : s.key = (w, i) <;> simp [hs, DistrictRow.addYtd]
  · by_cases hs : s.key = (w, i) <;> simp [hs, DistrictRow.addYtd]

theorem YtdOffset.payment {a : PaymentArgs} {cId : Int} (h : PaymentEffect a cId d d')
    (hd : YtdOffset ws offset d) : YtdOffset ws offset d' := by
  have hdist : ∀ w, d'.districtYtd w = d.districtYtd w + if a.wId = w then a.hAmount else 0 := by
    intro w
    rw [← districtYtd_addDistrictYtd _ h.distFound, Db.districtYtd, h.district]
    rfl
  have hhist : ∀ w, d'.historyTotal w = d.historyTotal w + if a.wId = w then a.hAmount else 0 := by
    intro w
    rw [Db.historyTotal, Db.historyTotal, h.history, sumWhere_append, sumWhere_cons, sumWhere_nil, add_zero]
    by_cases hw : a.wId = w <;> simp [hw, PaymentArgs.history]
  -- the warehouse row moves by the amount, as district and history do
  have hrow : ∀ r ∈ d'.warehouse.rows, ∃ r₀ ∈ d.warehouse.rows, r.wId = r₀.wId ∧
      r.wYtd = r₀.wYtd + if a.wId = r₀.wId then a.hAmount else 0 := by
    intro r hr
    rw [h.warehouse] at hr
    obtain ⟨r₀, hr₀, rfl⟩ := List.mem_map.mp hr
    refine ⟨r₀, hr₀, ?_⟩
    by_cases hkey : r₀.key = a.wId
    · have hw : a.wId = r₀.wId := hkey.symm
      simp [hkey, hw, WarehouseRow.addYtd]
    · have hw : ¬a.wId = r₀.wId := fun heq => hkey heq.symm
      simp [hkey, hw]
  constructor
  · rw [h.warehouse, ← hd.wares]
    exact Table.map_key_update (WarehouseRow.key_addYtd _)
  · intro r hr
    obtain ⟨r₀, hr₀, hw, hytd⟩ := hrow r hr
    rw [hytd, hd.ahead r₀ hr₀, hw, hdist]
    ring
  · intro r hr
    obtain ⟨r₀, hr₀, hw, _⟩ := hrow r hr
    rw [hw, hdist, hhist, hd.level r₀ hr₀]

theorem YtdOffset.of_eq (hd : YtdOffset ws offset d) (hwarehouse : d'.warehouse = d.warehouse)
    (hdistrict : ∀ w, d'.districtYtd w = d.districtYtd w) (hhistory : d'.history = d.history) :
    YtdOffset ws offset d' := by
  have hhist : ∀ w, d'.historyTotal w = d.historyTotal w := by
    intro w
    rw [Db.historyTotal, hhistory]
    rfl
  constructor
  · rw [hwarehouse, hd.wares]
  · intro r hr
    rw [hwarehouse] at hr
    rw [hdistrict, hd.ahead r hr]
  · intro r hr
    rw [hwarehouse] at hr
    rw [hdistrict, hhist, hd.level r hr]

theorem YtdOffset.neword {a : NewOrderArgs} {oId : Int} {ls : List OrderLineRow}
    (h : NewordEffect a oId ls d d') (hd : YtdOffset ws offset d) : YtdOffset ws offset d' := by
  refine hd.of_eq h.warehouse (fun w => ?_) h.history
  rw [Db.districtYtd, h.district]
  refine (sumWhere_map d.district.rows _ _ _).trans (sumWhere_congr (fun r _ => ?_) fun r _ _ => ?_)
  · split <;> rfl
  · split <;> rfl

theorem YtdOffset.delivery {a : DeliveryArgs} {k : Int × Int × Int} {cId : Int}
    (h : DeliveryEffect a k cId d d') (hd : YtdOffset ws offset d) : YtdOffset ws offset d' :=
  hd.of_eq h.warehouse (fun w => by rw [Db.districtYtd, h.district]; rfl) h.history

theorem YtdOffset.runCalls (hd : YtdOffset ws offset d) (cs : List (Call × Outside)) :
    YtdOffset ws offset (runCalls d cs) :=
  runCalls_invariant (fun _ _ _ _ _ _ hd h => hd.neword h) (fun _ _ _ _ hd h => hd.payment h)
    (fun _ _ _ _ _ hd h => hd.delivery h) hd cs

end Calls

/-! ## What the loader writes -/

theorem sumWhere_eq_countP {R : Type} {rows : List R} {f : R → ℚ} {c : ℚ} (p : R → Bool)
    (h : ∀ r ∈ rows, f r = c) : sumWhere rows p f = rows.countP p * c := by
  induction rows with
  | nil => simp
  | cons r rows ih =>
    rw [sumWhere_cons, ih fun s hs => h s (List.mem_cons_of_mem _ hs), List.countP_cons,
      h r List.mem_cons_self]
    cases p r with
    | true => simp; ring
    | false => simp

theorem countP_perDistrict (n : Nat) (ps : List (Int × Int)) (w : Int) :
    (perDistrict n ps).countP (fun k => k.1 = w) = n * ps.countP fun p => p.1 = w := by
  induction ps with
  | nil => rfl
  | cons p ps ih =>
    have hcons : perDistrict n (p :: ps) = ((upTo n).map fun i => (p.1, p.2, i)) ++ perDistrict n ps := rfl
    have hhead : ((upTo n).map fun i => (p.1, p.2, i)).countP (fun k => k.1 = w) =
        if p.1 = w then n else 0 := by
      rw [List.countP_map]
      by_cases hp : p.1 = w <;> simp [Function.comp_def, hp, length_upTo]
    rw [hcons, List.countP_append, ih, hhead, List.countP_cons]
    by_cases hp : p.1 = w <;> simp [hp, Nat.mul_add, Nat.add_comm]

theorem countP_districtsOf (ws : List Int) (w : Int) :
    (districtsOf ws).countP (fun p => p.1 = w) = distPerWare * ws.count w := by
  induction ws with
  | nil => rfl
  | cons w' ws ih =>
    have hcons : districtsOf (w' :: ws) = ((upTo distPerWare).map fun i => (w', i)) ++ districtsOf ws := rfl
    have hhead : ((upTo distPerWare).map fun i => (w', i)).countP (fun p => p.1 = w) =
        if w' = w then distPerWare else 0 := by
      rw [List.countP_map]
      by_cases hw : w' = w <;> simp [Function.comp_def, hw, length_upTo]
    rw [hcons, List.countP_append, ih, hhead, List.count_cons]
    by_cases hw : w' = w <;> simp [hw, Nat.mul_add, Nat.add_comm]

theorem Db.Filled.ytdOffset {ws : List Int} (hws : ws.Nodup) {d : Db} (h : d.Filled ws) :
    YtdOffset ws 2700000 d := by
  have hcount : ∀ r ∈ d.warehouse.rows, ws.count r.wId = 1 := by
    intro r hr
    exact List.count_eq_one_of_mem hws (h.wares.wares ▸ List.mem_map_of_mem hr)
  have hdistrict : ∀ r ∈ d.warehouse.rows, d.districtYtd r.wId = 300000 := by
    intro r hr
    have hkeys := congrArg (List.countP fun p => p.1 = r.wId) h.wares.districts
    rw [List.countP_map, countP_districtsOf, hcount r hr] at hkeys
    have hkeys : d.district.rows.countP (fun x => x.dWId = r.wId) = distPerWare * 1 := hkeys
    rw [Db.districtYtd, sumWhere_eq_countP _ h.wares.dYtd, hkeys]
    norm_num [distPerWare]
  have hhistory : ∀ r ∈ d.warehouse.rows, d.historyTotal r.wId = 300000 := by
    intro r hr
    have hkeys := congrArg (List.countP fun k => k.1 = r.wId) h.customers.histories
    rw [List.countP_map, countP_perDistrict, countP_districtsOf, hcount r hr] at hkeys
    have hhome : d.history.countP (fun x => x.hWId = r.wId) = custPerDist * (distPerWare * 1) := by
      rw [← hkeys]
      refine List.countP_congr fun x hx => ?_
      rw [(Prod.mk.inj (h.customers.home x hx)).1]
      exact Iff.rfl
    rw [Db.historyTotal, sumWhere_eq_countP _ h.customers.amount, hhome]
    norm_num [custPerDist, distPerWare]
  refine ⟨h.wares.wares, fun r hr => ?_, fun r hr => ?_⟩
  · rw [h.wares.wYtd r hr, hdistrict r hr]
    norm_num
  · rw [hdistrict r hr, hhistory r hr]

theorem wares_eq_nil {minWare maxWare : Int} : wares minWare maxWare = [] ↔ maxWare < minWare := by
  rw [wares, List.map_eq_nil_iff, List.range_eq_nil]
  omega

/-- After the load and any calls a warehouse is ahead by 2700000, so the totals agree only where
there is no warehouse. The loader starts the warehouse with ten times what its districts add up to,
and a payment adds the same to all totals. -/
theorem ytd_agree_iff_no_warehouse (timestamp : String) (minWare maxWare : Int) (n : Nat) (o o' : Outside)
    (d : Db) (hload : load timestamp minWare maxWare n Db.empty o = some (d, o'))
    (cs : List (Call × Outside)) :
    (YtdAgree (runCalls d cs) ↔ maxWare < minWare) ∧
      ∀ r ∈ (runCalls d cs).warehouse.rows,
        r.wYtd = (runCalls d cs).districtYtd r.wId + 2700000 ∧
          (runCalls d cs).districtYtd r.wId = (runCalls d cs).historyTotal r.wId := by
  have hfilled := (settles_load timestamp minWare maxWare).post n Db.empty o d o' rfl hload
  have hoffset := (hfilled.ytdOffset (nodup_wares minWare maxWare)).runCalls cs
  refine ⟨(hoffset.agree_iff (by norm_num)).trans wares_eq_nil, fun r hr => ?_⟩
  exact ⟨hoffset.ahead r hr, hoffset.level r hr⟩

theorem exists_load_one : ∃ n o d o', load "" 1 1 n Db.empty o = some (d, o') := by
  obtain ⟨d, o', hrun, _⟩ := (settles_load "" 1 1).ends 1 Db.empty ⟨[], fun _ => 0⟩ rfl (by decide)
  exact ⟨1, _, d, o', hrun⟩

theorem ytd_agree_iff_no_warehouse_one : ∃ n o d o', load "" 1 1 n Db.empty o = some (d, o') ∧
    ((YtdAgree (runCalls d []) ↔ (1 : Int) < 1) ∧
      ∀ r ∈ (runCalls d []).warehouse.rows,
        r.wYtd = (runCalls d []).districtYtd r.wId + 2700000 ∧
          (runCalls d []).districtYtd r.wId = (runCalls d []).historyTotal r.wId) := by
  obtain ⟨n, o, d, o', hload⟩ := exists_load_one
  exact ⟨n, o, d, o', hload, ytd_agree_iff_no_warehouse "" 1 1 n o o' d hload []⟩

/-- One warehouse, as loaded. -/
theorem not_ytdAgree_load_one : ∃ n o d o', load "" 1 1 n Db.empty o = some (d, o') ∧ ¬YtdAgree d := by
  obtain ⟨n, o, d, o', hload⟩ := exists_load_one
  have hfilled := (settles_load "" 1 1).post n Db.empty o d o' rfl hload
  refine ⟨n, o, d, o', hload, fun hagree => ?_⟩
  have hnil := ((hfilled.ytdOffset (nodup_wares 1 1)).agree_iff (by norm_num)).mp hagree
  exact absurd (wares_eq_nil.mp hnil) (by decide)

end MysqlBench.Tpcc
