import MysqlBench.Dbt2.Escape
import MysqlBench.Dbt2.Schema

/-!
# The payment transaction (`dbc_payment.c`, `funcs.c`)

A payment in a district of a warehouse is made by a customer of a district and warehouse that may be others. If the
customer comes with a last name, `PAYMENT_5` looks the name up where the payment is made, and the later statements
take the number it finds as the number of a customer where the customer belongs.

For a customer with bad credit the payment is to be noted before the old text of `c_data`. The note is printed into
`my_c_data`, and then the old text is escaped into the same array, from its start. Only if there is no old text does
the note stay, in the C program; `escape_str` of the function for PostgreSQL does not look for a null pointer.

The two versions have the same statements, and `Version` has what they do differently. `payment` gives the database
that is committed, or `none` where it returns an error or comes to an undefined operation.
-/

namespace MysqlBench.Dbt2

open Lib

structure PaymentInput where
  wId : Int
  dId : Int
  cId : Int
  cWId : Int
  cDId : Int
  cLast : List Char
  hAmount : ℚ

structure Escaping where
  char : Char → List Char
  lexFrom_char : ∀ c raw value text, lexFrom (.inside .single raw value) (char c ++ text) =
    lexFrom (.inside .single (raw ++ char c) (value ++ [c])) text

def Escaping.text (e : Escaping) (s : List Char) : List Char := (s.takeWhile (· ≠ '\x00')).flatMap e.char

/-- What differs: the row of `PAYMENT_5` that is taken, the escaping, and what is in `my_c_data` if `c_data` is
`NULL`. -/
structure Version where
  pick : List Int → Option Int
  pick_mem : ∀ ids i, pick ids = some i → i ∈ ids
  pick_single : ∀ i, pick [i] = some i
  escape : Escaping
  onNull : List Char → Option (List Char)

def readLiteral (text : List Char) : Option (List Char) :=
  match lexFrom .outside ('\x27' :: (text ++ ['\x27'])) with
  | [.str _ value] => some value
  | _ => none

structure AmountFormat where
  print : ℚ → List Char
  plain : ∀ x, ∀ c ∈ print x, c ≠ '\x27' ∧ c ≠ '\x5c'

def note (fmt : AmountFormat) (a : PaymentInput) (myCId : Int) : List Char :=
  [myCId, a.cDId, a.cWId, a.dId, a.wId].flatMap (fun n => printInt n ++ [' ']) ++ fmt.print a.hAmount ++ [' ']

def WarehouseRow.pay (amount : ℚ) (r : WarehouseRow) : WarehouseRow := { r with wYtd := r.wYtd + amount }
def DistrictRow.pay (amount : ℚ) (r : DistrictRow) : DistrictRow := { r with dYtd := r.dYtd + amount }

def CustomerRow.pay (amount : ℚ) (data : Option (List Char)) (r : CustomerRow) : CustomerRow :=
  { r with cBalance := r.cBalance - amount, cYtdPayment := r.cYtdPayment + 1, cData := data }

theorem WarehouseRow.key_pay (amount : ℚ) (r : WarehouseRow) : (r.pay amount).key = r.key := rfl
theorem DistrictRow.key_pay (amount : ℚ) (r : DistrictRow) : (r.pay amount).key = r.key := rfl
theorem CustomerRow.key_pay (amount : ℚ) (data : Option (List Char)) (r : CustomerRow) :
    (r.pay amount data).key = r.key := rfl

def CustomerRow.Good (r : CustomerRow) : Prop := r.cCredit.any (·.head? = some 'G')

instance CustomerRow.decidableGood (r : CustomerRow) : Decidable r.Good := inferInstanceAs (Decidable (_ = _))

namespace Version

def payer (v : Version) (srv : Server) (a : PaymentInput) (db : Db) : Option CustomerRow :=
  (if a.cId = 0 then v.pick (db.selectByName srv a.wId a.dId a.cLast) else some a.cId).bind fun myCId =>
    db.customer.find (a.cWId, a.cDId, myCId)

def myCData (v : Version) (fmt : AmountFormat) (a : PaymentInput) (c : CustomerRow) : Option (List Char) :=
  match c.cData with
  | some old => some (v.escape.text old)
  | none => v.onNull (note fmt a c.cId)

def newData (v : Version) (fmt : AmountFormat) (a : PaymentInput) (c : CustomerRow) : Option (Option (List Char)) :=
  if c.Good then some c.cData
  else (v.myCData fmt a c).bind fun text => if Fits sizeofMyCData text then (readLiteral text).map some else none

def hData (v : Version) (w : WarehouseRow) (d : DistrictRow) : Option (List Char) :=
  if Fits sizeofMyName (v.escape.text w.wName) ∧ Fits sizeofMyName (v.escape.text d.dName) then
    readLiteral (v.escape.text w.wName ++ "    ".toList ++ v.escape.text d.dName)
  else none

/-- `payment`. Without the warehouse or the district one version has no name to put into `PAYMENT_8`, and the other
gives up; without a credit likewise. -/
def payment (v : Version) (srv : Server) (fmt : AmountFormat) (a : PaymentInput) (db : Db) : Option Db :=
  (db.warehouse.find a.wId).bind fun w => (db.district.find (a.wId, a.dId)).bind fun d =>
    (v.payer srv a db).bind fun c => if c.cCredit.isNone then none else
      (v.newData fmt a c).bind fun data => (v.hData w d).map fun hData =>
        { db with
          warehouse := db.warehouse.update (fun r => r.key = a.wId) (.pay a.hAmount) (WarehouseRow.key_pay a.hAmount)
          district := db.district.update (fun r => r.key = (a.wId, a.dId)) (.pay a.hAmount)
            (DistrictRow.key_pay a.hAmount)
          customer := db.customer.update (fun r => r.key = (a.cWId, a.cDId, c.cId)) (.pay a.hAmount data)
            (CustomerRow.key_pay a.hAmount data)
          history := db.history ++ [⟨c.cId, a.cDId, a.cWId, a.dId, a.wId, a.hAmount, hData⟩] }

end Version

def dbt2Escaping : Escaping := ⟨escapeChar, lexFrom_escapeChar⟩

def pgEscapeChar (c : Char) : List Char := if c = '\x27' ∨ c = '\x5c' ∨ c = ')' then ['\x5c', c] else [c]

theorem lexFrom_pgEscapeChar (c : Char) (raw value text : List Char) :
    lexFrom (.inside .single raw value) (pgEscapeChar c ++ text) =
      lexFrom (.inside .single (raw ++ pgEscapeChar c) (value ++ [c])) text := by
  unfold pgEscapeChar
  split_ifs with hc
  · rcases hc with rfl | rfl | rfl <;> exact lexFrom_inside_escape .single raw value _ _
  · rw [not_or, not_or] at hc
    exact lexFrom_inside_char .single raw value _ hc.2.1 hc.1

theorem mem_of_head? (ids : List Int) (i : Int) (h : ids.head? = some i) : i ∈ ids := List.mem_of_head? h
theorem mem_of_middle (ids : List Int) (i : Int) (h : ids[ids.length / 2]? = some i) : i ∈ ids :=
  List.mem_of_getElem? h

def nonsp : Version := ⟨List.head?, mem_of_head?, fun _ => rfl, dbt2Escaping, some⟩

theorem middle_single (i : Int) : [i][[i].length / 2]? = some i := by simp

def pgsql : Version :=
  ⟨fun ids => ids[ids.length / 2]?, mem_of_middle, middle_single, ⟨pgEscapeChar, lexFrom_pgEscapeChar⟩, fun _ => none⟩

/-! ## What a payment changes -/

section

variable {v : Version} {srv : Server} {fmt : AmountFormat} {a : PaymentInput} {db db' : Db} {c : CustomerRow}

theorem key_of_payer (h : v.payer srv a db = some c) :
    db.customer.find c.key = some c ∧ c.key = (a.cWId, a.cDId, c.cId) := by
  obtain ⟨myCId, -, hfind⟩ := Option.bind_eq_some_iff.mp h
  have hkey := (Table.find_eq_some.mp hfind).2
  rw [hkey]
  simp only [CustomerRow.key, Prod.mk.injEq] at hkey
  simp [hfind, hkey]

theorem payment_cases (h : v.payment srv fmt a db = some db') : ∃ c data, v.payer srv a db = some c ∧
    v.newData fmt a c = some data ∧
    (∀ k, db'.customer.find k = if k = c.key then some (c.pay a.hAmount data) else db.customer.find k) ∧
    ∃ hData, db'.history = db.history ++ [⟨c.cId, a.cDId, a.cWId, a.dId, a.wId, a.hAmount, hData⟩] := by
  obtain ⟨w, _, h⟩ := Option.bind_eq_some_iff.mp h
  obtain ⟨d, _, h⟩ := Option.bind_eq_some_iff.mp h
  obtain ⟨c, hc, h⟩ := Option.bind_eq_some_iff.mp h
  obtain ⟨-, h⟩ := Option.ite_none_left_eq_some.mp h
  obtain ⟨data, hdata, h⟩ := Option.bind_eq_some_iff.mp h
  obtain ⟨hData, _, rfl⟩ := Option.map_eq_some_iff.mp h
  refine ⟨c, data, hc, hdata, fun k => ?_, hData, rfl⟩
  rw [← (key_of_payer hc).2]
  exact Table.find_update_key (CustomerRow.key_pay a.hAmount data) (key_of_payer hc).1 k

/-- The payment is charged to one customer of the district and of the name that were given, and booked so. -/
def Charged (srv : Server) (a : PaymentInput) (db db' : Db) : Prop :=
  ∃ c, db.customer.find c.key = some c ∧ c.cWId = a.cWId ∧ c.cDId = a.cDId ∧ srv.same c.cLast a.cLast ∧
    db'.customer.find c.key ≠ some c ∧ (∀ k, k ≠ c.key → db'.customer.find k = db.customer.find k) ∧
    ∃ h, db'.history = db.history ++ [h] ∧ (h.hCWId, h.hCDId, h.hCId) = c.key

theorem pay_ne (amount : ℚ) (data : Option (List Char)) (c : CustomerRow) : c.pay amount data ≠ c := by
  intro h
  have := congrArg CustomerRow.cYtdPayment h
  simp [CustomerRow.pay] at this

theorem charged_iff (h : v.payment srv fmt a db = some db') (hc : v.payer srv a db = some c) :
    Charged srv a db db' ↔ srv.same c.cLast a.cLast := by
  obtain ⟨c', data, hc', -, hfind, hData, hhistory⟩ := payment_cases h
  cases hc.symm.trans hc'
  obtain ⟨hmem, hkey⟩ := key_of_payer hc
  constructor
  · rintro ⟨c', hfind', -, -, hsame, hne, -⟩
    rw [hfind c'.key] at hne
    split at hne
    · next heq =>
      rw [heq, hmem] at hfind'
      cases hfind'
      exact hsame
    · exact absurd hfind' hne
  · intro hsame
    refine ⟨c, hmem, (Prod.mk.inj hkey).1, (Prod.mk.inj (Prod.mk.inj hkey).2).1, hsame, ?_, fun k hk => ?_, _, hhistory,
      hkey.symm⟩
    · rw [hfind, if_pos rfl]
      exact fun h => pay_ne _ _ _ (Option.some.inj h)
    · rw [hfind, if_neg hk]

/-! ## Payment by name -/

def firstCustomer (wId dId : Int) (name : List Char) : CustomerRow := ⟨wId, dId, 1, [], name, some ['G'], 0, 0, none⟩

def payable (a : PaymentInput) (customer : Table CustomerRow (Int × Int × Int) CustomerRow.key) : Db :=
  { Db.empty with
    warehouse := .single ⟨a.wId, [], 0⟩
    district := .single ⟨a.wId, a.dId, [], 0, 1⟩
    customer }

theorem not_charged {customer : Table CustomerRow (Int × Int × Int) CustomerRow.key} {name : List Char}
    (ha : a.cId = 0) (hselect : (payable a customer).selectByName srv a.wId a.dId a.cLast = [1])
    (hmem : firstCustomer a.cWId a.cDId name ∈ customer.rows) (hname : ¬srv.same name a.cLast) :
    ∃ db', v.payment srv fmt a (payable a customer) = some db' ∧ ¬Charged srv a (payable a customer) db' := by
  have hpayer : v.payer srv a (payable a customer) = some (firstCustomer a.cWId a.cDId name) := by
    rw [Version.payer, if_pos ha, hselect, v.pick_single, Option.bind_some]
    exact Table.find_eq_some.mpr ⟨hmem, rfl⟩
  have hwarehouse : (payable a customer).warehouse.find a.wId = some ⟨a.wId, [], 0⟩ :=
    Table.find_eq_some.mpr ⟨List.mem_cons_self, rfl⟩
  have hdistrict : (payable a customer).district.find (a.wId, a.dId) = some ⟨a.wId, a.dId, [], 0, 1⟩ :=
    Table.find_eq_some.mpr ⟨List.mem_cons_self, rfl⟩
  have hpayment : ∃ db', v.payment srv fmt a (payable a customer) = some db' := by
    rw [Version.payment, hwarehouse, hdistrict, hpayer]
    exact ⟨_, rfl⟩
  obtain ⟨db', h⟩ := hpayment
  exact ⟨db', h, fun hcharged => hname ((charged_iff h hpayer).mp hcharged)⟩

theorem selectByName_first {wId dId : Int} {cLast : List Char} (hread : srv.reads cLast)
    (hrows : (db.customer.rows.filter fun r => r.cWId = wId ∧ r.cDId = dId ∧ srv.same r.cLast cLast) =
      [firstCustomer wId dId cLast]) : db.selectByName srv wId dId cLast = [1] := by
  rw [Db.selectByName, if_pos hread, Db.named, hrows, List.perm_singleton.mp (srv.perm _)]
  rfl

/-- A payment by name is charged to a customer of the name exactly if it is made where the customer
belongs, and the server reads the name as it is: the number is looked up where the payment is made.
-/
theorem payment_by_name_iff (v : Version) (srv : Server) (fmt : AmountFormat) (a : PaymentInput) (ha : a.cId = 0) :
    (∀ other db db', v.payment { srv with other } fmt a db = some db' → Charged srv a db db') ↔
      a.wId = a.cWId ∧ a.dId = a.cDId ∧ srv.reads a.cLast := by
  constructor
  · intro h
    -- a customer with another name, who must not be charged
    obtain ⟨y, hy⟩ := srv.exists_differs a.cLast
    have hselect : ∀ other customer, firstCustomer a.cWId a.cDId y ∈ customer.rows →
        (payable a customer).selectByName { srv with other } a.wId a.dId a.cLast ≠ [1] := by
      intro other customer hmem hselect
      have hnot : ∃ db', v.payment { srv with other } fmt a (payable a customer) = some db' ∧ _ :=
        not_charged ha hselect hmem hy
      obtain ⟨db', hdb', hnot⟩ := hnot
      exact hnot (h _ _ _ hdb')
    have hreads : srv.reads a.cLast := by
      by_contra hreads
      exact hselect (fun _ => [1]) (.single (firstCustomer a.cWId a.cDId y)) List.mem_cons_self (if_neg hreads)
    suffices hhome : a.wId = a.cWId ∧ a.dId = a.cDId from ⟨hhome.1, hhome.2, hreads⟩
    by_contra haway
    have hnodup : ([firstCustomer a.wId a.dId a.cLast, firstCustomer a.cWId a.cDId y].map CustomerRow.key).Nodup := by
      simpa [firstCustomer, CustomerRow.key] using haway
    refine hselect srv.other ⟨_, hnodup⟩ (by simp) (selectByName_first hreads ?_)
    simp [payable, firstCustomer, srv.same_self, eq_comm (a := a.cWId), eq_comm (a := a.cDId)]
    grind
  · rintro ⟨hw, hd, hreads⟩ other db db' h
    obtain ⟨c, _, hc, -⟩ := payment_cases h
    refine (charged_iff h hc).mpr ?_
    obtain ⟨myCId, hpick, hfind⟩ := Option.bind_eq_some_iff.mp hc
    rw [if_pos ha, Db.selectByName, if_pos hreads] at hpick
    obtain ⟨r, hr, rfl⟩ := List.mem_map.mp (v.pick_mem _ _ hpick)
    obtain ⟨hmem, hrw, hrd, hsame⟩ := mem_named.mp hr
    have hfind' : db.customer.find (a.cWId, a.cDId, r.cId) = some r :=
      Table.find_eq_some.mpr ⟨hmem, by rw [← hw, ← hd, ← hrw, ← hrd]; rfl⟩
    cases hfind.symm.trans hfind'
    exact hsame

/-! ## Bad credit -/

theorem read_escaped (e : Escaping) (s : List Char) :
    readLiteral (e.text s) = some (s.takeWhile (· ≠ '\x00')) := by
  unfold readLiteral Escaping.text
  generalize s.takeWhile (· ≠ '\x00') = s
  have hopen : lexFrom .outside ('\x27' :: (s.flatMap e.char ++ ['\x27'])) =
    lexFrom (.inside .single ['\x27'] []) (s.flatMap e.char ++ ['\x27']) := rfl
  rw [hopen, lexFrom_flatMap e.lexFrom_char]
  rfl

theorem selfDenoting_of_plain {s : List Char} (h : ∀ c ∈ s, c ≠ '\x27' ∧ c ≠ '\x5c') : SelfDenoting s := by
  induction s with
  | nil => trivial
  | cons c s ih =>
    rw [List.forall_mem_cons] at h
    exact (selfDenoting_char h.1.1 h.1.2 s).mpr (ih h.2)

theorem plain_printInt (n : Int) : ∀ c ∈ printInt n, c ≠ '\x27' ∧ c ≠ '\x5c' := by
  have hdigits : ∀ n : Nat, ∀ c ∈ Nat.toDigits 10 n, c ≠ '\x27' ∧ c ≠ '\x5c' := by
    intro n c hc
    have hdigit := Nat.isDigit_of_mem_toDigits (by omega) (by omega) hc
    exact ⟨by rintro rfl; exact absurd hdigit (by decide), by rintro rfl; exact absurd hdigit (by decide)⟩
  cases n with
  | ofNat n => exact hdigits n
  | negSucc n => exact List.forall_mem_cons.mpr ⟨by decide, hdigits (n + 1)⟩

theorem read_note (fmt : AmountFormat) (a : PaymentInput) (myCId : Int) :
    readLiteral (note fmt a myCId) = some (note fmt a myCId) := by
  have hspace : ∀ c ∈ [' '], c ≠ '\x27' ∧ c ≠ '\x5c' := by simp
  have hplain : ∀ c ∈ note fmt a myCId, c ≠ '\x27' ∧ c ≠ '\x5c' := by
    unfold note
    simp only [List.forall_mem_append, List.mem_flatMap, forall_exists_index, and_imp]
    exact ⟨⟨fun c n _ hc => (List.mem_append.mp hc).elim (plain_printInt n c) (hspace c), fmt.plain _⟩, hspace⟩
  have hlex := (lexFrom_inside_iff (note fmt a myCId) ['\x27'] [] [] []).mpr
    ⟨selfDenoting_of_plain hplain, by simp, rfl⟩
  rw [readLiteral, show lexFrom .outside ('\x27' :: (note fmt a myCId ++ ['\x27'])) = _ from hlex]
  rfl

def Recorded (fmt : AmountFormat) (a : PaymentInput) (c : CustomerRow) (db' : Db) : Prop :=
  (db'.customer.find c.key).map CustomerRow.cData = some (some (note fmt a c.cId ++ c.cData.getD []))

theorem recorded_iff (h : v.payment srv fmt a db = some db') (hc : v.payer srv a db = some c) (hbad : ¬c.Good) :
    ∃ text, v.myCData fmt a c = some text ∧
      (Recorded fmt a c db' ↔ readLiteral text = some (note fmt a c.cId ++ c.cData.getD [])) := by
  obtain ⟨c', data, hc', hdata, hfind, -⟩ := payment_cases h
  cases hc.symm.trans hc'
  rw [Version.newData, if_neg hbad] at hdata
  obtain ⟨text, htext, hdata⟩ := Option.bind_eq_some_iff.mp hdata
  obtain ⟨-, hdata⟩ := Option.ite_none_right_eq_some.mp hdata
  obtain ⟨value, hvalue, rfl⟩ := Option.map_eq_some_iff.mp hdata
  refine ⟨text, htext, ?_⟩
  rw [Recorded, hfind, if_pos rfl, hvalue]
  simp [CustomerRow.pay]

theorem not_recorded (h : v.payment srv fmt a db = some db') (hc : v.payer srv a db = some c) (hbad : ¬c.Good)
    {old : List Char} (hold : c.cData = some old) : ¬Recorded fmt a c db' := by
  obtain ⟨text, htext, hiff⟩ := recorded_iff h hc hbad
  rw [Version.myCData, hold] at htext
  cases htext
  rw [hiff, read_escaped, hold, Option.some.injEq]
  intro heq
  have hle := (List.takeWhile_sublist (l := old) (· ≠ '\x00')).length_le
  have hlen := congrArg List.length heq
  simp only [note, Option.getD_some, List.length_append, List.length_singleton] at hlen
  omega

/-- With bad credit the C program stores the note only if there was no text, and the function for
PostgreSQL never does: the old text is escaped into the array that the note was printed into. -/
theorem bad_credit_recorded_iff (srv : Server) (fmt : AmountFormat) (a : PaymentInput) (db db' : Db) (c : CustomerRow) :
    (nonsp.payment srv fmt a db = some db' → nonsp.payer srv a db = some c → ¬c.Good →
      (Recorded fmt a c db' ↔ c.cData = none)) ∧
    (pgsql.payment srv fmt a db = some db' → pgsql.payer srv a db = some c → ¬c.Good → ¬Recorded fmt a c db') := by
  refine ⟨fun h hc hbad => ⟨fun hrec => ?_, fun hnone => ?_⟩, fun h hc hbad => ?_⟩
  · by_contra hne
    obtain ⟨old, hold⟩ := Option.ne_none_iff_exists'.mp hne
    exact not_recorded h hc hbad hold hrec
  · obtain ⟨text, htext, hiff⟩ := recorded_iff h hc hbad
    rw [Version.myCData, hnone] at htext
    cases htext
    rw [hiff, read_note, hnone, Option.getD_none, List.append_nil]
  · cases hdata : c.cData with
    | some old => exact not_recorded h hc hbad hdata
    | none =>
      obtain ⟨text, htext, -⟩ := recorded_iff h hc hbad
      rw [Version.myCData, hdata] at htext
      cases htext

end

/-! ## Runs -/

theorem plain_one (_ : ℚ) : ∀ c ∈ ['1'], c ≠ '\x27' ∧ c ≠ '\x5c' := by simp

def printOne : AmountFormat := ⟨fun _ => ['1'], plain_one⟩

def awayPayment : PaymentInput := ⟨1, 1, 0, 2, 1, ['B', 'A', 'R'], 1⟩

theorem away_payment_charges :
    (∀ other db db', nonsp.payment { plainServer with other } printOne awayPayment db = some db' →
      Charged plainServer awayPayment db db') ↔ False := by
  rw [payment_by_name_iff nonsp plainServer printOne awayPayment rfl]
  simp [awayPayment]

theorem nodup_two : ([firstCustomer 1 1 ['B', 'A', 'R'], firstCustomer 2 1 ['E', 'S', 'E']].map CustomerRow.key).Nodup := by
  decide

def twoCustomers : Db :=
  payable awayPayment ⟨[firstCustomer 1 1 ['B', 'A', 'R'], firstCustomer 2 1 ['E', 'S', 'E']], nodup_two⟩

/-- The customer BAR of warehouse 1 is found, and customer ESE of warehouse 2 pays. -/
theorem other_customer_charged :
    (∃ db', nonsp.payment plainServer printOne awayPayment twoCustomers = some db' ∧
      ¬Charged plainServer awayPayment twoCustomers db') ∧
    ∃ db', pgsql.payment plainServer printOne awayPayment twoCustomers = some db' ∧
      ¬Charged plainServer awayPayment twoCustomers db' := by
  have hmem : firstCustomer 2 1 ['E', 'S', 'E'] ∈ twoCustomers.customer.rows := by decide
  exact ⟨not_charged rfl rfl hmem (by decide), not_charged rfl rfl hmem (by decide)⟩

def numberPayment : PaymentInput := ⟨1, 1, 1, 1, 1, [], 1⟩

def badCustomer (data : Option (List Char)) : CustomerRow := ⟨1, 1, 1, [], [], some ['B', 'C'], 0, 0, data⟩

def badCustomerDb (data : Option (List Char)) : Db := payable numberPayment (.single (badCustomer data))

def badCredit : Db := badCustomerDb (some ['o', 'l', 'd'])

/-- The C program with a NULL in `c_data`, and the function for PostgreSQL with a text. -/
theorem bad_credit_recorded_null :
    (∃ db', nonsp.payment plainServer printOne numberPayment (badCustomerDb none) = some db' ∧
      Recorded printOne numberPayment (badCustomer none) db') ∧
    ∃ db', pgsql.payment plainServer printOne numberPayment badCredit = some db' ∧
      ¬Recorded printOne numberPayment (badCustomer (some ['o', 'l', 'd'])) db' := by
  constructor
  · obtain ⟨db', h⟩ : ∃ db', nonsp.payment plainServer printOne numberPayment (badCustomerDb none) = some db' :=
      Option.isSome_iff_exists.mp (by decide)
    exact ⟨db', h, ((bad_credit_recorded_iff plainServer printOne numberPayment (badCustomerDb none) db' _).1 h rfl
      (by decide)).mpr rfl⟩
  · obtain ⟨db', h⟩ : ∃ db', pgsql.payment plainServer printOne numberPayment badCredit = some db' :=
      Option.isSome_iff_exists.mp (by decide)
    exact ⟨db', h, (bad_credit_recorded_iff plainServer printOne numberPayment badCredit db' _).2 h rfl (by decide)⟩

/-- The note is lost. -/
theorem old_data_kept :
    (nonsp.payment plainServer printOne numberPayment badCredit).map (fun db' => db'.customer.rows.map CustomerRow.cData) =
      some [some ['o', 'l', 'd']] ∧
    (pgsql.payment plainServer printOne numberPayment badCredit).map (fun db' => db'.customer.rows.map CustomerRow.cData) =
      some [some ['o', 'l', 'd']] ∧
    note printOne numberPayment 1 = "1 1 1 1 1 1 ".toList := by
  refine ⟨?_, ?_, ?_⟩ <;> decide

end MysqlBench.Dbt2
