import MysqlBench.Tpcc.Payment

/-!
# What a payment changes

A payment that returns one has done exactly what `Db.afterPayment` says, to the rows of one warehouse, one
district and one customer, and one that returns zero has done nothing (`payment_eq`). The customer is the
right one except in one case: if nobody has the name that was given, no row is fetched, `c_id` keeps the
value of the argument, and the payment is booked on the customer with that number.

The text `c_data` of a customer with bad credit should begin with a record of the payment. The record is put
together in `c_new_data`, but it is `c_data` that is written back, so the text stays as it is
(`cData_afterPayment`).
-/

namespace MysqlBench.Tpcc

open Lib

/-! ## The rows of a payment -/

theorem payment_eq (coll : Collation) (a : PaymentArgs) (d : Db) (o : Outside) :
    payment coll a d o = (0, d) ∨ (∃ r ∈ d.warehouse.rows, r.key = a.wId) ∧
      (∃ r ∈ d.district.rows, r.key = (a.wId, a.dId)) ∧
      ∃ r, d.customer.find (a.cWId, a.cDId, d.payer coll a) = some r ∧
        payment coll a d o = (1, d.afterPayment a (d.payer coll a) (r.cBalance + a.hAmount)) := by
  unfold payment
  cases hrun : paymentTxn coll a d o with
  | mk r o' =>
    cases r with
    | ok r =>
      obtain ⟨hw, hdist, c, hc, heq⟩ := gives_paymentTxn_eq ⟨o, o', hrun⟩
      exact .inr ⟨hw, hdist, c, hc, by rw [← heq]⟩
    | error e => exact .inl rfl

/-- The payment is on the books of customer `cId`, who is there, and nowhere else: the totals of the
warehouse and the district, the balance of the customer and one row of `history`. -/
def Booked (a : PaymentArgs) (cId : Int) (d d' : Db) : Prop :=
  (∃ r ∈ d.warehouse.rows, r.key = a.wId) ∧ (∃ r ∈ d.district.rows, r.key = (a.wId, a.dId)) ∧
    ∃ r, d.customer.find (a.cWId, a.cDId, cId) = some r ∧ d' = d.afterPayment a cId (r.cBalance + a.hAmount)

/-! ## When a payment is made -/

section Statements

variable {coll : Collation} {a : PaymentArgs} {d : Db} {r : CustomerRow}

def paymentStatements (a : PaymentArgs) (r : CustomerRow) : Nat :=
  4 + ((if a.byname then 2 else 0) + (1 + ((if r.cCredit.toList.take 2 = ['B', 'C'] then 2 else 1) + 2)))

theorem completes_fetchCId {n : Nat} {ids : List Int} {cId c : Int} (h : ids[n]? = some c) :
    (fetchCId (n + 1) ids cId).Completes d 0 c d := by
  induction n generalizing ids cId with
  | zero =>
    cases ids with
    | nil => simp at h
    | cons next rest =>
      obtain rfl : next = c := by simpa using h
      exact Txn.completes_pure _ _
  | succ n ih =>
    cases ids with
    | nil => simp at h
    | cons next rest => exact ih (by simpa using h)

theorem completes_customerByName : (customerByName coll a).Completes d (1 + (1 + 0))
    (((d.middle coll a.cWId a.cDId a.cLast).map CustomerRow.cId).getD a.cId) d := by
  refine completes_query_bind rfl ?_
  refine completes_query_bind rfl ?_
  simp only [half_up]
  rw [Db.middle, ← List.getElem?_map]
  have hlen := (coll.perm (d.named coll a.cWId a.cDId a.cLast)).length_eq
  cases hn : (d.named coll a.cWId a.cDId a.cLast).length with
  | zero =>
    have hnil : coll.byFirst (d.named coll a.cWId a.cDId a.cLast) = [] :=
      List.length_eq_zero_iff.mp (hlen.trans hn)
    rw [hnil]
    exact Txn.completes_pure _ _
  | succ n =>
    rw [show (n + 1 + 1) / 2 = n / 2 + 1 by omega, Nat.add_sub_cancel]
    -- there are enough rows, since the count and the cursor see the same ones
    cases hget : ((coll.byFirst (d.named coll a.cWId a.cDId a.cLast)).map CustomerRow.cId)[n / 2]? with
    | none =>
      rw [List.getElem?_eq_none_iff, List.length_map] at hget
      omega
    | some c => exact completes_fetchCId hget

theorem completes_payingCustomer :
    (payingCustomer coll a).Completes d (if a.byname then 2 else 0) (d.payer coll a) d := by
  unfold payingCustomer Db.payer
  split
  · exact completes_customerByName
  · exact Txn.completes_pure _ _

theorem completes_bookBalance {wId dId cId : Int} {b : ℚ}
    (hr : d.customer.find (wId, dId, cId) = some r) :
    ∃ d', (bookBalance wId dId cId r.cCredit b).Completes d
      (if r.cCredit.toList.take 2 = ['B', 'C'] then 1 + 1 else 1) () d' := by
  unfold bookBalance
  split
  · refine ⟨d.setBalanceData wId dId cId b r.cData, completes_query_bind (congrArg (Option.map _) hr) ?_⟩
    exact completes_change _ _
  · exact ⟨_, completes_change _ _⟩

theorem completes_paymentTxn (hw : ∃ r ∈ d.warehouse.rows, r.key = a.wId)
    (hd : ∃ r ∈ d.district.rows, r.key = (a.wId, a.dId))
    (hr : d.customer.find (a.cWId, a.cDId, d.payer coll a) = some r) :
    ∃ d', (paymentTxn coll a).Completes d (paymentStatements a r) () d' := by
  obtain ⟨w, hw⟩ := hw
  obtain ⟨dist, hd⟩ := hd
  have hware : ((d.addWarehouseYtd a.wId a.hAmount).warehouse.find a.wId).map (fun _ => ()) = some () := by
    rw [Db.addWarehouseYtd, Table.find_update, Table.find_eq_some.mpr hw]
    rfl
  have hdist : (((d.addWarehouseYtd a.wId a.hAmount).addDistrictYtd a.wId a.dId a.hAmount).district.find
      (a.wId, a.dId)).map (fun _ => ()) = some () := by
    rw [Db.addDistrictYtd, Table.find_update]
    show Option.map _ ((d.district.find (a.wId, a.dId)).map _) = _
    rw [Table.find_eq_some.mpr hd]
    rfl
  obtain ⟨d', hbook⟩ := @completes_bookBalance
    ((d.addWarehouseYtd a.wId a.hAmount).addDistrictYtd a.wId a.dId a.hAmount) r a.cWId a.cDId
    (d.payer coll a) (r.cBalance + a.hAmount) hr
  have hcount : paymentStatements a r = 1 + (1 + (1 + (1 + ((if a.byname then 2 else 0) + (1 +
      ((if r.cCredit.toList.take 2 = ['B', 'C'] then 2 else 1) + (1 + 1))))))) := by
    unfold paymentStatements
    omega
  rw [hcount]
  refine ⟨{ d' with history := d'.history ++ [a.history (d.payer coll a)] }, completes_change_bind ?_⟩
  refine completes_query_bind hware ?_
  refine completes_change_bind ?_
  refine completes_query_bind hdist ?_
  refine completes_payingCustomer.bind ?_
  refine completes_query_bind (congrArg (Option.map _) hr) ?_
  refine hbook.bind ?_
  refine completes_change_bind ?_
  exact completes_change _ _

end Statements

theorem payment_commits_iff (coll : Collation) (a : PaymentArgs) (d : Db) (o : Outside) :
    (payment coll a d o).1 = 1 ↔ (∃ r ∈ d.warehouse.rows, r.key = a.wId) ∧
      (∃ r ∈ d.district.rows, r.key = (a.wId, a.dId)) ∧
      ∃ r, d.customer.find (a.cWId, a.cDId, d.payer coll a) = some r ∧
        true ∉ o.refusals.take (paymentStatements a r) := by
  constructor
  · intro h
    cases payment_eq coll a d o with
    | inl h0 => simp [h0] at h
    | inr hdone =>
      obtain ⟨hw, hd, r, hr, -⟩ := hdone
      refine ⟨hw, hd, r, hr, fun hrefused => ?_⟩
      obtain ⟨d', hcompl⟩ := completes_paymentTxn hw hd hr
      obtain ⟨e, o', heq⟩ := hcompl.refused o hrefused
      simp [payment, heq] at h
  · rintro ⟨hw, hd, r, hr, ho⟩
    obtain ⟨d', hcompl⟩ := completes_paymentTxn hw hd hr
    obtain ⟨o', heq, -⟩ := hcompl.done o ho
    rw [payment, heq]

/-! ## The frame -/

/-- The case in which a payment is wrong: nobody has the name that was given, but the warehouse, the
district and a customer with the number `c_id` of the arguments are there, and no statement is refused. -/
def NobodyPays (coll : Collation) (a : PaymentArgs) (d : Db) (o : Outside) : Prop :=
  a.byname ∧ d.named coll a.cWId a.cDId a.cLast = [] ∧
    (∃ r ∈ d.warehouse.rows, r.key = a.wId) ∧ (∃ r ∈ d.district.rows, r.key = (a.wId, a.dId)) ∧
    ∃ r, d.customer.find (a.cWId, a.cDId, a.cId) = some r ∧
      true ∉ o.refusals.take (paymentStatements a r)

theorem payer_of_nobody {coll : Collation} {a : PaymentArgs} {d : Db}
    (h : d.named coll a.cWId a.cDId a.cLast = []) : d.payer coll a = a.cId := by
  have hnil : coll.byFirst (d.named coll a.cWId a.cDId a.cLast) = [] := by
    rw [← List.length_eq_zero_iff, (coll.perm _).length_eq, h, List.length_nil]
  unfold Db.payer Db.middle
  rw [hnil]
  split <;> rfl

theorem nobodyPays_iff (coll : Collation) (a : PaymentArgs) (d : Db) (o : Outside) :
    NobodyPays coll a d o ↔
      a.byname ∧ d.named coll a.cWId a.cDId a.cLast = [] ∧ (payment coll a d o).1 = 1 := by
  unfold NobodyPays
  refine and_congr_right fun _ => and_congr_right fun hnobody => ?_
  rw [payment_commits_iff, payer_of_nobody hnobody]

/-- **What a payment touches.** For every database, arguments and pattern of failures, the right customer
has paid or nothing has changed, except when nobody has the name and the number happens to be one of a
customer. -/
theorem payment_frame_iff (coll : Collation) (a : PaymentArgs) (d : Db) (o : Outside) :
    (((payment coll a d o).1 = 1 → ∃ cId, Booked a cId d (payment coll a d o).2 ∧
        if a.byname then (d.middle coll a.cWId a.cDId a.cLast).map CustomerRow.cId = some cId
        else cId = a.cId) ∧
      ((payment coll a d o).1 = 0 ∨ a.byname ∧ d.named coll a.cWId a.cDId a.cLast = [] →
        (payment coll a d o).2 = d)) ↔
    ¬NobodyPays coll a d o := by
  rw [nobodyPays_iff]
  -- a history row is inserted, so a booked payment is never invisible
  have hlen : ∀ cId b, d.afterPayment a cId b ≠ d := fun cId b heq => by
    have := congrArg (fun d : Db => d.history.length) heq
    simp [Db.afterPayment] at this
  cases payment_eq coll a d o with
  | inl h => simp [h]
  | inr h =>
    obtain ⟨hw, hdist, r, hr, h⟩ := h
    rw [h]
    simp only [hlen, true_implies, imp_false, not_or, and_true, Int.one_ne_zero, not_false_eq_true, true_and]
    constructor
    · exact fun hp => hp.2
    · intro hname
      refine ⟨⟨d.payer coll a, ⟨hw, hdist, r, hr, rfl⟩, ?_⟩, hname⟩
      unfold Db.payer
      split
      · rename_i hby
        have hlt : 0 < (d.named coll a.cWId a.cDId a.cLast).length := by
          refine List.length_pos_iff.mpr fun hnil => hname ⟨hby, hnil⟩
        cases hmiddle : d.middle coll a.cWId a.cDId a.cLast with
        | none =>
          have := List.getElem?_eq_none_iff.mp hmiddle
          rw [(coll.perm _).length_eq] at this
          omega
        | some cId => rfl
      · rfl

def plainCollation : Collation := ⟨fun s t => s = t, fun rows => rows, fun _ => .refl _⟩

def customerSeven : CustomerRow := ⟨7, 1, 1, "ANN", "BARBARBAR", "BC", 0, 0, 0, "text"⟩

def oneCustomer : Db :=
  { Db.empty with
    warehouse := .single ⟨1, 0, 0⟩
    district := .single ⟨1, 1, 0, 0, 1⟩
    customer := .single customerSeven }

/-- Nobody is called so, and customer seven has paid. -/
theorem nobody_pays : oneCustomer.named plainCollation 1 1 "ESEESEESE" = [] ∧
    (payment plainCollation ⟨1, 1, true, 1, 1, 7, "ESEESEESE", 5, ""⟩ oneCustomer ⟨[], fun _ => 0⟩).1 = 1 ∧
    (payment plainCollation ⟨1, 1, true, 1, 1, 7, "ESEESEESE", 5, ""⟩ oneCustomer ⟨[], fun _ => 0⟩).2.history =
      [⟨7, 1, 1, 1, 1, "", 5⟩] := by
  decide

/-! ## The text of a customer with bad credit -/

def Db.cData (d : Db) (k : Int × Int × Int) : Option String := (d.customer.find k).map CustomerRow.cData

theorem cData_afterPayment (d : Db) (a : PaymentArgs) (cId : Int) (b : ℚ) (k : Int × Int × Int) :
    (d.afterPayment a cId b).cData k = d.cData k := by
  unfold Db.cData Db.afterPayment Db.setBalance
  rw [Table.find_update, Option.map_map]
  congr 1
  funext r
  rw [Function.comp_apply]
  split <;> rfl

/-- What `%7.2f` prints of an amount, and the bytes `%12c` and `%24c` print, which are given the addresses
of two arrays. -/
structure RecordPrint where
  money : ℚ → List Char
  ofDatetime : Char
  ofData : Char

def printInt (width : Nat) (n : Int) : List Char := (toString n).toList.leftpad width ' '

def paymentRecord (p : RecordPrint) (a : PaymentArgs) (cId : Int) : List Char :=
  '|' :: (' ' :: printInt 4 cId ++ ' ' :: printInt 2 a.cDId ++ ' ' :: printInt 4 a.cWId ++
    ' ' :: printInt 2 a.dId ++ ' ' :: printInt 4 a.wId ++ ' ' :: '$' :: p.money a.hAmount ++
    ' ' :: [p.ofDatetime].leftpad 12 ' ' ++ ' ' :: [p.ofData].leftpad 24 ' ').takeWhile (· ≠ '\x00')

inductive Payments (coll : Collation) (k : Int × Int × Int) : Db → List (PaymentArgs × RecordPrint) → Db → Prop
  | none (d : Db) : Payments coll k d [] d
  | pay {d d₁ d' : Db} {calls : List (PaymentArgs × RecordPrint)} (a : PaymentArgs) (p : RecordPrint)
      (o : Outside) : (a.cWId, a.cDId, d.payer coll a) = k → payment coll a d o = (1, d₁) →
      Payments coll k d₁ calls d' → Payments coll k d ((a, p) :: calls) d'

theorem Payments.cData {coll : Collation} {k : Int × Int × Int} {d d' : Db}
    {calls : List (PaymentArgs × RecordPrint)} (h : Payments coll k d calls d') : d'.cData k = d.cData k := by
  induction h with
  | none => rfl
  | @pay d d₁ d' calls a p o _ hpay _ ih =>
    rw [ih]
    cases payment_eq coll a d o with
    | inl h => exact absurd (hpay.symm.trans h) (by simp)
    | inr h =>
      obtain ⟨_, _, r, _, h⟩ := h
      rw [(Prod.mk.inj (hpay.symm.trans h)).2, cData_afterPayment]

def records (k : Int × Int × Int) (calls : List (PaymentArgs × RecordPrint)) : List Char :=
  (calls.reverse.map fun c => paymentRecord c.2 c.1 k.2.2).flatten

theorem records_eq_nil {k : Int × Int × Int} {calls : List (PaymentArgs × RecordPrint)} :
    records k calls = [] ↔ calls = [] := by
  simp only [records, List.flatten_eq_nil_iff, List.forall_mem_map, List.mem_reverse]
  constructor
  · intro h
    exact List.eq_nil_iff_forall_not_mem.mpr fun c hc => absurd (h c hc) (List.cons_ne_nil _ _)
  · rintro rfl
    simp

theorem take_append_eq_iff {α : Type} {n : Nat} {l text : List α} (hlen : text.length ≤ n) :
    (l ++ text).take n = text ↔ l = [] ∨ text.length = n ∧ text <+: l ++ text := by
  constructor
  · intro h
    by_cases hn : text.length = n
    · have hprefix := List.take_prefix n (l ++ text)
      rw [h] at hprefix
      exact .inr ⟨hn, hprefix⟩
    · have := congrArg List.length h
      rw [List.length_take, List.length_append] at this
      exact .inl (List.length_eq_zero_iff.mp (by omega))
  · rintro (rfl | ⟨rfl, hprefix⟩)
    · exact List.take_of_length_le hlen
    · exact (List.prefix_iff_eq_take.mp hprefix).symm

/-- After any payments of a customer with bad credit the text is the records and then the old text,
cut off at 500 characters, only if there was none, or if the text begins with what the records and
it would give. The update writes back the text that was selected, and not the new one. -/
theorem cData_records_iff {coll : Collation} {k : Int × Int × Int} {d d' : Db} {r : CustomerRow}
    {calls : List (PaymentArgs × RecordPrint)} (hr : d.customer.find k = some r)
    (_ : r.cCredit.toList.take 2 = ['B', 'C']) (hlen : r.cData.toList.length ≤ 500)
    (hrun : Payments coll k d calls d') :
    d'.cData k = some (String.ofList ((records k calls ++ r.cData.toList).take 500)) ↔
      calls = [] ∨ r.cData.toList.length = 500 ∧ r.cData.toList <+: records k calls ++ r.cData.toList := by
  rw [← records_eq_nil (k := k), ← take_append_eq_iff hlen, hrun.cData, Db.cData, hr, Option.map_some,
    Option.some.injEq]
  constructor
  · intro h
    have h := congrArg String.toList h
    rw [String.toList_ofList] at h
    exact h.symm
  · intro h
    rw [h, String.ofList_toList]

def onePayment : List (PaymentArgs × RecordPrint) :=
  [(⟨1, 1, false, 1, 1, 7, "", 5, ""⟩, ⟨fun _ => "   5.00".toList, 'a', 'b'⟩)]

theorem payments_one : ∃ d', Payments plainCollation (1, 1, 7) oneCustomer onePayment d' :=
  ⟨_, .pay _ _ ⟨[], fun _ => 0⟩ rfl rfl (.none _)⟩

/-- The text stays, where it should begin with the record. -/
theorem record_lost : ∃ d', Payments plainCollation (1, 1, 7) oneCustomer onePayment d' ∧
    d'.cData (1, 1, 7) = some "text" ∧
    String.ofList ((records (1, 1, 7) onePayment ++ "text".toList).take 500) ≠ "text" := by
  obtain ⟨d', hrun⟩ := payments_one
  refine ⟨d', hrun, hrun.cData.trans rfl, fun h => ?_⟩
  obtain ⟨rest, hrest⟩ : ∃ rest, records (1, 1, 7) onePayment = '|' :: rest := ⟨_, rfl⟩
  have h := congrArg (fun s => s.toList.head?) h
  simp [hrest] at h

/-- After a payment the text is not what it should be: it is not empty of payments, and too short. -/
theorem cData_records_iff_one : ∃ d', Payments plainCollation (1, 1, 7) oneCustomer onePayment d' ∧
    d'.cData (1, 1, 7) ≠
      some (String.ofList ((records (1, 1, 7) onePayment ++ customerSeven.cData.toList).take 500)) := by
  obtain ⟨d', hrun⟩ := payments_one
  refine ⟨d', hrun, fun h => ?_⟩
  have hiff := @cData_records_iff plainCollation _ _ _ customerSeven _ rfl (by decide) (by decide) hrun
  rcases hiff.mp h with hnone | ⟨hlen, -⟩
  · exact List.cons_ne_nil _ _ hnone
  · exact absurd hlen (by decide)

end MysqlBench.Tpcc
