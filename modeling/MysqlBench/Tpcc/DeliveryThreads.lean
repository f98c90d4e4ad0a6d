import MysqlBench.Lib.RowLocks
import MysqlBench.Tpcc.Delivery

/-!
# Deliveries at the same time

Several threads call `delivery` (`thread_main`). The oldest order of a district is found by a select that
takes no lock, and only then taken out of `new_orders`. `deliverFrom` is the loop of `delivery` as the server
meets it, statement by statement; a thread alone on the server leaves what `delivery` leaves
(`exec_deliveryClient`).

A delete that finds no row is not an error, and its row count is not looked at. So two threads can read the
same order, and the one that has to wait for the other's lock goes on when it gets it, deletes nothing, and
credits the customer again (`order_delivered_twice`). If every delete finds its row, an order is credited at
most once: while a thread is between its delete and its commit it holds the lock of a row of `new_orders`
that is still there for everyone else, and once it has committed the row is gone for good (`Exclusive`).
-/

namespace MysqlBench.Tpcc

open Lib

/-! ## The statements of a delivery -/

inductive DeliveryRow where
  | newOrder (k : Int × Int × Int)
  | order (k : Int × Int × Int)
  | line (k : Int × Int × Int × Int)
  | customer (k : Int × Int × Int)
  deriving DecidableEq

inductive DeliveryStmt where
  | deleteNewOrder (k : Int × Int × Int)
  | updateCarrier
  | updateDelivery
  | updateCustomer (k : Int × Int × Int) (amount : ℚ)

structure Credit where
  order : Int × Int × Int
  cId : Int
  amount : ℚ

def Credit.customer (e : Credit) : Int × Int × Int := (e.order.1, e.order.2.1, e.cId)

abbrev DeliveryClient : Type := Client Db DeliveryRow DeliveryStmt Credit

def Db.deleteNewOrder (d : Db) (k : Int × Int × Int) : Db :=
  { d with newOrders := d.newOrders.delete fun r => r.key = k }

def lockedRows {R K : Type} {key : R → K} (t : Table R K key) (p : R → Bool) (lock : K → DeliveryRow) :
    List DeliveryRow :=
  (t.rows.filter p).map fun r => lock (key r)

def creditOrder (k : Int × Int × Int) (cId : Int) (olTotal : ℚ) (next : ℚ → DeliveryClient) :
    DeliveryClient :=
  .select fun d =>
    let sum := if ∃ r ∈ d.orderLine.rows, r.order = k then some (d.orderTotal k) else none
    let total := sum.getD olTotal
    .change (.updateCustomer (k.1, k.2.1, cId) total)
      (fun d => lockedRows d.customer (fun r => r.key = (k.1, k.2.1, cId)) .customer)
      (fun d => d.addDelivery (k.1, k.2.1, cId) total)
      (.commit ⟨k, cId, total⟩ (next total))

def takeOrder (a : DeliveryArgs) (k : Int × Int × Int) (olTotal : ℚ) (next : ℚ → DeliveryClient) :
    DeliveryClient :=
  .change (.deleteNewOrder k) (fun d => lockedRows d.newOrders (fun r => r.key = k) .newOrder)
    (fun d => d.deleteNewOrder k)
    (.select fun d =>
      match d.orders.find k with
      | none => .rollback
      | some r =>
        .change .updateCarrier (fun d => lockedRows d.orders (fun r => r.key = k) .order)
          (fun d => d.setCarrier k a.oCarrierId)
          (.change .updateDelivery (fun d => lockedRows d.orderLine (fun r => r.order = k) .line)
            (fun d => d.setDelivery k a.datetime)
            (creditOrder k r.oCId olTotal next)))

def deliverFrom (a : DeliveryArgs) : List Int → ℚ → DeliveryClient
  | [], _ => .done
  | dId :: rest, olTotal =>
    .select fun d =>
      let noOId := (d.newOrderIds a.wId dId).min?.getD 0
      if noOId = 0 then deliverFrom a rest olTotal
      else takeOrder a (a.wId, dId, noOId) olTotal fun total => deliverFrom a rest total

def deliveryClient (a : DeliveryArgs) : DeliveryClient := deliverFrom a (upTo distPerWare) a.olTotal

/-! ## Done alone -/

theorem exec_takeOrder (a : DeliveryArgs) (dId noOId : Int) (olTotal : ℚ) (next : ℚ → DeliveryClient)
    (d : Db) (draws : Nat → Nat) :
    (deliverOrder a dId noOId olTotal d ⟨[], draws⟩).2 = ⟨[], draws⟩ ∧
      (takeOrder a (a.wId, dId, noOId) olTotal next).exec d d =
        match (deliverOrder a dId noOId olTotal d ⟨[], draws⟩).1 with
        | .ok (total, d') => (next total).exec d' d'
        | .error _ => d := by
  unfold deliverOrder Tpcc.deleteNewOrder selectOrderCustomer updateCarrier updateDelivery selectTotal
    updateDelivered commit change query statement
  cases hfind : d.orders.find (a.wId, dId, noOId) with
  | none =>
    have hfind' : (d.deleteNewOrder (a.wId, dId, noOId)).orders.find (a.wId, dId, noOId) = none := hfind
    simp only [takeOrder, Client.exec, hfind', hfind, bind, Txn.bind, Txn.execute, Option.map_none,
      and_self]
  | some r =>
    have hfind' : (d.deleteNewOrder (a.wId, dId, noOId)).orders.find (a.wId, dId, noOId) = some r := hfind
    simp only [takeOrder, creditOrder, Client.exec, hfind', hfind, bind, Txn.bind, Txn.execute, pure,
      Txn.pure, Option.map_some, true_and]
    rfl

theorem exec_deliverFrom (a : DeliveryArgs) (dIds : List Int) (olTotal : ℚ) (d : Db) (draws : Nat → Nat) :
    (deliverFrom a dIds olTotal).exec d d = (deliverDistricts a dIds olTotal d ⟨[], draws⟩).2 := by
  induction dIds generalizing olTotal d with
  | nil => rfl
  | cons dId rest ih =>
    rw [deliverFrom, Client.exec, deliverDistricts]
    unfold deliverDistrict selectOldest query statement
    simp only [bind, Txn.bind, Txn.execute, Option.map_some]
    by_cases hzero : (d.newOrderIds a.wId dId).min?.getD 0 = 0
    · simp only [if_pos hzero]
      exact ih olTotal d
    · simp only [if_neg hzero]
      obtain ⟨hout, hexec⟩ := exec_takeOrder a dId ((d.newOrderIds a.wId dId).min?.getD 0) olTotal
        (fun total => deliverFrom a rest total) d draws
      rw [hexec]
      cases hrun : deliverOrder a dId ((d.newOrderIds a.wId dId).min?.getD 0) olTotal d ⟨[], draws⟩ with
      | mk r o' =>
        rw [hrun] at hout
        obtain rfl := hout
        cases r with
        | error e => rfl
        | ok r => exact ih r.1 r.2

/-- A call that nobody disturbs does what `delivery` does, in one go and as a thread alone on the
server. So the interleavings are those of the program that the other results are about. -/
theorem exec_deliveryClient {T : Type} [DecidableEq T] (t : T) (a : DeliveryArgs) (d : Db)
    (draws : Nat → Nat) :
    (deliveryClient a).exec d d = (delivery a d ⟨[], draws⟩).2 ∧
      ∃ s, stepServer deliveryClient (Server.initial d) (.call t a) = some s ∧
        s.Finishes deliveryClient t (delivery a d ⟨[], draws⟩).2 := by
  have hexec : (deliveryClient a).exec d d = (delivery a d ⟨[], draws⟩).2 := exec_deliverFrom a _ _ d draws
  refine ⟨hexec, _, rfl, ?_⟩
  rw [← hexec]
  exact finishes_alone deliveryClient _ id _ (Function.update_self ..) fun _ => .inl rfl

/-! ## What is written by whom -/

/-- A client whose open transaction has deleted the rows `held` of `new_orders` and credited `credit`: it
deletes and credits once before it commits, and commits what it has credited for the row it has deleted. -/
def Sound : Option (Int × Int × Int) → Option ((Int × Int × Int) × ℚ) → DeliveryClient → Prop
  | _, _, .done => True
  | _, _, .rollback => True
  | held, credit, .select next => ∀ d, Sound held credit (next d)
  | held, credit, .change (.deleteNewOrder k) rows f next =>
    held = none ∧ (∀ d, rows d = lockedRows d.newOrders (fun r => r.key = k) .newOrder) ∧
      (∀ d, f d = d.deleteNewOrder k) ∧ Sound (some k) credit next
  | held, credit, .change (.updateCustomer c amount) _ f next =>
    credit = none ∧ (∀ d, f d = d.addDelivery c amount) ∧ Sound held (some (c, amount)) next
  | held, credit, .change _ _ f next =>
    (∀ d, (f d).newOrders = d.newOrders ∧ (f d).customer = d.customer) ∧ Sound held credit next
  | held, credit, .commit e next =>
    held = some e.order ∧ credit = some (e.customer, e.amount) ∧ Sound none none next

theorem sound_takeOrder (a : DeliveryArgs) (k : Int × Int × Int) (olTotal : ℚ) {next : ℚ → DeliveryClient}
    (hnext : ∀ total, Sound none none (next total)) : Sound none none (takeOrder a k olTotal next) := by
  refine ⟨rfl, fun _ => rfl, fun _ => rfl, fun d => ?_⟩
  cases hfind : d.orders.find k with
  | none =>
    simp only [hfind]
    exact trivial
  | some r =>
    simp only [hfind]
    exact ⟨fun _ => ⟨rfl, rfl⟩, fun _ => ⟨rfl, rfl⟩, fun _ => ⟨rfl, fun _ => rfl, rfl, rfl, hnext _⟩⟩

theorem sound_deliverFrom (a : DeliveryArgs) (dIds : List Int) (olTotal : ℚ) :
    Sound none none (deliverFrom a dIds olTotal) := by
  induction dIds generalizing olTotal with
  | nil => exact trivial
  | cons dId rest ih =>
    intro d
    by_cases hzero : (d.newOrderIds a.wId dId).min?.getD 0 = 0
    · simp only [if_pos hzero]
      exact ih olTotal
    · simp only [if_neg hzero]
      exact sound_takeOrder a _ olTotal ih

abbrev DeliveryConn : Type := Conn Db DeliveryRow DeliveryStmt Credit

structure OpenConn (held : Option (Int × Int × Int)) (credit : Option ((Int × Int × Int) × ℚ))
    (x : DeliveryConn) : Prop where
  rest : Sound held credit x.rest
  newOrders : ∀ d, (x.own d).newOrders = (held.elim d d.deleteNewOrder).newOrders
  customer : ∀ d, (x.own d).customer = (credit.elim d fun c => d.addDelivery c.1 c.2).customer

theorem OpenConn.begin {c : DeliveryClient} (h : Sound none none c) : OpenConn none none ⟨c, id⟩ :=
  ⟨h, fun _ => rfl, fun _ => rfl⟩

section Conn

variable {held : Option (Int × Int × Int)} {credit : Option ((Int × Int × Int) × ℚ)} {x : DeliveryConn}

theorem OpenConn.select (h : OpenConn held credit x) {next : Db → DeliveryClient}
    (hrest : x.rest = .select next) (d : Db) : OpenConn held credit ⟨next d, x.own⟩ := by
  have hsound := h.rest
  rw [hrest] at hsound
  exact ⟨hsound d, h.newOrders, h.customer⟩

theorem OpenConn.change (h : OpenConn held credit x) {label : DeliveryStmt} {rows : Db → List DeliveryRow}
    {f : Db → Db} {next : DeliveryClient} (hrest : x.rest = .change label rows f next) :
    (∃ credit', OpenConn held credit' ⟨next, fun d => f (x.own d)⟩) ∨
      ∃ k, held = none ∧ label = .deleteNewOrder k ∧
        (∀ d, rows d = lockedRows d.newOrders (fun r => r.key = k) .newOrder) ∧
        OpenConn (some k) credit ⟨next, fun d => f (x.own d)⟩ := by
  have hsound := h.rest
  rw [hrest] at hsound
  cases label with
  | deleteNewOrder k =>
    obtain ⟨rfl, hrows, hf, hnext⟩ := hsound
    refine .inr ⟨k, rfl, rfl, hrows, hnext, fun d => ?_, fun d => ?_⟩
    · show (f (x.own d)).newOrders = _
      rw [hf, Db.deleteNewOrder, h.newOrders d]
      rfl
    · show (f (x.own d)).customer = _
      rw [hf]
      exact h.customer d
  | updateCustomer c amount =>
    obtain ⟨rfl, hf, hnext⟩ := hsound
    refine .inl ⟨some (c, amount), hnext, fun d => ?_, fun d => ?_⟩
    · show (f (x.own d)).newOrders = _
      rw [hf]
      exact h.newOrders d
    · show (f (x.own d)).customer = _
      rw [hf, Db.addDelivery, h.customer d]
      rfl
  | updateCarrier =>
    obtain ⟨hf, hnext⟩ := hsound
    exact .inl ⟨credit, hnext, fun d => (hf _).1.trans (h.newOrders d),
      fun d => (hf _).2.trans (h.customer d)⟩
  | updateDelivery =>
    obtain ⟨hf, hnext⟩ := hsound
    exact .inl ⟨credit, hnext, fun d => (hf _).1.trans (h.newOrders d),
      fun d => (hf _).2.trans (h.customer d)⟩

theorem OpenConn.commit (h : OpenConn held credit x) {e : Credit} {next : DeliveryClient}
    (hrest : x.rest = .commit e next) :
    held = some e.order ∧ credit = some (e.customer, e.amount) ∧ OpenConn none none ⟨next, id⟩ := by
  have hsound := h.rest
  rw [hrest] at hsound
  exact ⟨hsound.1, hsound.2.1, .begin hsound.2.2⟩

end Conn

/-! ## At most once -/

section Threads

variable {T : Type}

abbrev DeliveryServer (T : Type) : Type := Server T Db DeliveryRow DeliveryStmt Credit

def deletesFind (s : DeliveryServer T) : ServerAction T DeliveryArgs → Bool
  | .statement t =>
    match s.conns t with
    | some x =>
      match x.rest with
      | .change (.deleteNewOrder _) rows _ _ => !(rows (x.own s.db)).isEmpty
      | _ => true
    | none => true
  | _ => true

def creditAll (d : Db) (log : List Credit) : Db := log.foldl (fun d e => d.addDelivery e.customer e.amount) d

variable {d₀ : Db} {s s' : DeliveryServer T} {t : T} {x : DeliveryConn}

theorem creditAll_snoc {d : Db} {log : List Credit} (h : d.customer = (creditAll d₀ log).customer)
    (e : Credit) : (d.addDelivery e.customer e.amount).customer = (creditAll d₀ (log ++ [e])).customer := by
  rw [creditAll, List.foldl_append, Db.addDelivery, h]
  rfl

/-- The connection is open, and if its transaction has deleted a row then it has the lock of the row, which
is there for everyone else. -/
def Holds (s : DeliveryServer T) (t : T) (x : DeliveryConn) : Prop :=
  ∃ held credit, OpenConn held credit x ∧ ∀ k, held = some k →
    s.locks (.newOrder k) = some t ∧ ∃ r ∈ s.db.newOrders.rows, r.key = k

theorem Holds.mono (h : Holds s t x)
    (hlocks : ∀ k, s.locks k = some t → s'.locks k = some t)
    (hrows : ∀ r ∈ s.db.newOrders.rows, s.locks (.newOrder r.key) = some t → r ∈ s'.db.newOrders.rows) :
    Holds s' t x := by
  obtain ⟨held, credit, hopen, hheld⟩ := h
  refine ⟨held, credit, hopen, fun k hk => ?_⟩
  obtain ⟨hlock, r, hr, rfl⟩ := hheld k hk
  exact ⟨hlocks _ hlock, r, hrows r hr hlock, rfl⟩

theorem Holds.begin (s : DeliveryServer T) (t : T) {c : DeliveryClient} (h : Sound none none c) :
    Holds s t ⟨c, id⟩ := ⟨none, none, .begin h, fun _ hk => absurd hk (by simp)⟩

structure Exclusive (d₀ : Db) (s : DeliveryServer T) : Prop where
  conns : ∀ t x, s.conns t = some x → Holds s t x
  gone : ∀ e ∈ s.log, ∀ r ∈ s.db.newOrders.rows, r.key ≠ e.order
  once : (s.log.map Credit.order).Nodup
  customer : s.db.customer = (creditAll d₀ s.log).customer

theorem exclusive_initial (d₀ : Db) : Exclusive d₀ (Server.initial d₀ : DeliveryServer T) :=
  ⟨fun _ _ h => absurd h (by simp [Server.initial]), List.forall_mem_nil _, List.nodup_nil, rfl⟩

variable [DecidableEq T]

theorem Exclusive.put {y : Option DeliveryConn}
    (h : Exclusive d₀ s) (hdb : s'.db = s.db) (hlog : s'.log = s.log) (hconns : s'.conns = s.conns)
    (hlocks : ∀ u k, u ≠ t → s.locks k = some u → s'.locks k = some u)
    (hy : ∀ x, y = some x → Holds s' t x) : Exclusive d₀ (s'.put t y) := by
  constructor
  case conns =>
    intro u x hx
    cases Server.conns_put hx with
    | inl hu =>
      obtain ⟨rfl, hyx⟩ := hu
      exact hy x hyx
    | inr hu =>
      refine (h.conns u x (hconns ▸ hu.2)).mono (fun k hk => hlocks u k hu.1 hk) fun r hr _ => ?_
      show r ∈ s'.db.newOrders.rows
      rw [hdb]
      exact hr
  all_goals
    simp only [Server.put, hdb, hlog]
  case gone => exact h.gone
  case once => exact h.once
  case customer => exact h.customer

theorem exclusive_change {label : DeliveryStmt}
    {rows : Db → List DeliveryRow} {f : Db → Db} {next : DeliveryClient} (h : Exclusive d₀ s)
    (hx : s.conns t = some x) (hrest : x.rest = .change label rows f next)
    (hlock : s.MayLock t (rows (x.own s.db))) (hfind : deletesFind s (.statement t) = true) :
    Exclusive d₀ ((s.lock t (rows (x.own s.db))).put t (some ⟨next, fun d => f (x.own d)⟩)) := by
  refine h.put rfl rfl rfl (fun u k hu hk => Server.locks_lock hlock hu hk) fun y hy => ?_
  cases hy
  obtain ⟨held, credit, hopen, hheld⟩ := h.conns t x hx
  cases hopen.change hrest with
  | inl hnext =>
    obtain ⟨credit', hnext⟩ := hnext
    refine ⟨held, credit', hnext, fun k hk => ?_⟩
    exact ⟨Server.locks_lock_self (.inr (hheld k hk).1), (hheld k hk).2⟩
  | inr hnext =>
    obtain ⟨k, rfl, rfl, hrows, hnext⟩ := hnext
    refine ⟨some k, credit, hnext, fun k' hk' => ?_⟩
    cases hk'
    -- The delete has found its row, so the row is there and its lock is now the thread's.
    have hfound : lockedRows s.db.newOrders (fun r => r.key = k) .newOrder ≠ [] := by
      simp only [deletesFind, hx, hrest, hrows, hopen.newOrders, Option.elim_none] at hfind
      simpa using hfind
    obtain ⟨row, hrow⟩ := List.exists_mem_of_ne_nil _ hfound
    obtain ⟨r, hr, rfl⟩ := List.mem_map.mp hrow
    obtain ⟨hmem, hkey⟩ := List.mem_filter.mp hr
    obtain rfl := of_decide_eq_true hkey
    refine ⟨Server.locks_lock_self (.inl ?_), r, hmem, rfl⟩
    rw [hrows, hopen.newOrders]
    exact hrow

theorem exclusive_commit {e : Credit}
    {next : DeliveryClient} (h : Exclusive d₀ s) (hx : s.conns t = some x)
    (hrest : x.rest = .commit e next) :
    Exclusive d₀
      { (s.free t).put t (some ⟨next, id⟩) with db := x.own s.db, log := s.log ++ [e] } := by
  obtain ⟨held, credit, hopen, hheld⟩ := h.conns t x hx
  obtain ⟨rfl, rfl, hnext⟩ := hopen.commit hrest
  obtain ⟨hlocked, r₀, hr₀, hr₀k⟩ := hheld _ rfl
  have hmem : ∀ r, r ∈ (x.own s.db).newOrders.rows ↔ r ∈ s.db.newOrders.rows ∧ r.key ≠ e.order := by
    intro r
    rw [hopen.newOrders]
    exact Table.mem_delete.trans (and_congr_right fun _ => by simp)
  constructor
  case conns =>
    intro u y hy
    cases Server.conns_put hy with
    | inl hu =>
      obtain ⟨rfl, hyx⟩ := hu
      cases hyx
      exact .begin _ _ hnext.rest
    | inr hu =>
      -- another thread holds the lock of another row, which is still there
      refine (h.conns u y hu.2).mono (fun k hk => Server.locks_free hu.1 hk) fun r hr hrlock => ?_
      refine (hmem r).mpr ⟨hr, fun hkey => hu.1 ?_⟩
      rw [hkey, hlocked] at hrlock
      exact (Option.some.inj hrlock).symm
  case gone =>
    intro e' he' r hr
    obtain ⟨hr, hne⟩ := (hmem r).mp hr
    cases List.mem_append.mp he' with
    | inl he' => exact h.gone e' he' r hr
    | inr he' => exact List.mem_singleton.mp he' ▸ hne
  case once =>
    show ((s.log ++ [e]).map Credit.order).Nodup
    -- an order that was committed before has no row left that could be locked
    refine Table.nodup_append_row h.once fun hold => ?_
    obtain ⟨e', he', heq⟩ := List.mem_map.mp hold
    exact h.gone e' he' r₀ hr₀ (hr₀k.trans heq.symm)
  case customer =>
    show (x.own s.db).customer = (creditAll d₀ (s.log ++ [e])).customer
    rw [hopen.customer]
    exact creditAll_snoc h.customer e

theorem exclusive_step {a : ServerAction T DeliveryArgs}
    (h : Exclusive d₀ s) (hfind : deletesFind s a = true)
    (hstep : stepServer deliveryClient s a = some s') : Exclusive d₀ s' := by
  cases stepServer_move hstep with
  | call t c =>
    refine h.put rfl rfl rfl (fun _ _ _ hk => hk) fun x hx => ?_
    cases hx
    exact .begin _ _ (sound_deliverFrom c _ _)
  | stop t a =>
    exact h.put rfl rfl rfl (fun u k hu hk => Server.locks_free hu hk) fun x hx => absurd hx (by simp)
  | select t x next hx hrest =>
    refine h.put rfl rfl rfl (fun _ _ _ hk => hk) fun y hy => ?_
    cases hy
    obtain ⟨held, credit, hopen, hheld⟩ := h.conns t x hx
    exact ⟨held, credit, hopen.select hrest _, hheld⟩
  | change t x label rows f next hx hrest hlock => exact exclusive_change h hx hrest hlock hfind
  | commit t x e next hx hrest => exact exclusive_commit h hx hrest

end Threads

/-- In every interleaving in which each delete finds its row, no order is credited twice; and the
log of the credits is what has happened to the customers. The condition is needed: the oldest order
is selected without a lock, and a delete that finds no row is not noticed. -/
theorem credited_at_most_once {T : Type} [DecidableEq T] (d₀ : Db) (s : DeliveryServer T)
    (h : ReachableBy (stepServer deliveryClient) (fun s a => deletesFind s a = true) (Server.initial d₀) s) :
    (s.log.map Credit.order).Nodup ∧ s.db.customer = (creditAll d₀ s.log).customer := by
  have hinv := h.invariant (exclusive_initial d₀) fun _ _ _ hs hok hstep => exclusive_step hs hok hstep
  exact ⟨hinv.once, hinv.customer⟩

def oneOrderDb : Db where
  warehouse := .single ⟨1, 0, 0⟩
  district := .single ⟨1, 1, 0, 0, 2⟩
  customer := .single ⟨1, 1, 1, "F", "L", "GC", 0, 0, 0, ""⟩
  history := []
  newOrders := .single ⟨1, 1, 1⟩
  orders := .single ⟨1, 1, 1, 1, "", none, 1, 1⟩
  orderLine := .single ⟨1, 1, 1, 1, 7, 1, none, 5, 30⟩
  item := .single ⟨7, 6⟩
  stock := .single ⟨7, 1, 50⟩

def oneDelivery : DeliveryArgs := ⟨1, 3, "now", 0⟩

def twoOrdersDb : Db where
  warehouse := .single ⟨1, 0, 0⟩
  district := .single ⟨1, 1, 0, 0, 2⟩
  customer := ⟨[⟨1, 1, 1, "F", "L", "GC", 0, 0, 0, ""⟩, ⟨1, 1, 2, "F", "L", "GC", 0, 0, 0, ""⟩], by decide⟩
  history := []
  newOrders := ⟨[⟨1, 1, 1⟩, ⟨1, 1, 2⟩], by decide⟩
  orders := ⟨[⟨1, 1, 1, 1, "", none, 1, 1⟩, ⟨1, 1, 2, 1, "", none, 1, 1⟩], by decide⟩
  orderLine := ⟨[⟨1, 1, 1, 1, 7, 1, none, 5, 30⟩, ⟨1, 1, 2, 1, 7, 1, none, 5, 40⟩], by decide⟩
  item := .single ⟨7, 6⟩
  stock := .single ⟨7, 1, 50⟩

def inTurnSteps : List (ServerAction Bool DeliveryArgs) :=
  .call false oneDelivery :: .call true { oneDelivery with wId := 2 } ::
    (List.replicate 8 [.statement false, .statement true]).flatten

theorem credited_at_most_once_in_turn : ∃ s : DeliveryServer Bool,
    ReachableBy (stepServer deliveryClient) (fun s a => deletesFind s a = true)
        (Server.initial twoOrdersDb) s ∧
      s.log.map Credit.order = [(1, 1, 1), (2, 1, 1)] ∧ (s.log.map Credit.order).Nodup ∧
      s.db.customer = (creditAll twoOrdersDb s.log).customer := by
  have hrun : (runSteps (stepServer deliveryClient) (Server.initial twoOrdersDb) inTurnSteps).map
      (fun s => s.log.map Credit.order) = some [(1, 1, 1), (2, 1, 1)] := by decide +kernel
  obtain ⟨s, hs, hlog⟩ := Option.map_eq_some_iff.mp hrun
  have heach : EachStep (stepServer deliveryClient) (fun s a => deletesFind s a = true)
      (Server.initial twoOrdersDb) inTurnSteps := by decide +kernel
  have hreach := EachStep.reachableBy inTurnSteps heach hs .start
  exact ⟨s, hreach, hlog, credited_at_most_once twoOrdersDb s hreach⟩

def twiceSteps : List (ServerAction Bool DeliveryArgs) :=
  [.call false oneDelivery, .call true oneDelivery, .statement false, .statement true] ++
    List.replicate 7 (.statement false) ++ List.replicate 7 (.statement true)

/-- One order of 30 is credited twice. -/
theorem order_delivered_twice : ∃ s : DeliveryServer Bool,
    Reachable (stepServer deliveryClient) (Server.initial oneOrderDb) s ∧
      s.log.map Credit.order = [(1, 1, 1), (1, 1, 1)] ∧
      s.db.customer.rows.map (fun r => (r.cBalance, r.cDeliveryCnt)) = [(60, 2)] := by
  have hrun : (runSteps (stepServer deliveryClient) (Server.initial oneOrderDb) twiceSteps).map
      (fun s => (s.log.map Credit.order, s.db.customer.rows.map fun r => (r.cBalance, r.cDeliveryCnt))) =
      some ([(1, 1, 1), (1, 1, 1)], [(60, 2)]) := by decide +kernel
  obtain ⟨s, hs, heq⟩ := Option.map_eq_some_iff.mp hrun
  exact ⟨s, Reachable.runSteps twiceSteps .start hs, (Prod.mk.inj heq).1, (Prod.mk.inj heq).2⟩

end MysqlBench.Tpcc
