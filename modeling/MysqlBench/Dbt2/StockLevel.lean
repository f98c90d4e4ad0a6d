import MysqlBench.Dbt2.Schema

/-!
# The stock level transaction (`dbc_stock_level.c`, `stock_level.sql`, `funcs.c`)

The lines of the last twenty orders of a district are counted whose item is low on stock. All three versions
count the rows of a join of `order_line`, `stock` and `district`; as the keys of `stock` and `district` are fixed
by a line, each line is counted once at most (`stockLevel2_eq`). The two versions in C fill in the same text, with
the district before the warehouse. The function for PostgreSQL gives them the other way round.

Both print the text into `query[256]` without a look at its length. Of the 256 characters the text alone takes 224 in
the C program and 238 in the function for PostgreSQL, whose last line is indented with blanks; the five numbers share
the rest (`QueryFits`). The text of `STOCK_LEVEL_1` is short, and always fits.
-/

namespace MysqlBench.Dbt2

open Lib

def lowStockRow (dId dWId threshold lo hi : Int) (l : OrderLineRow) (s : StockRow) (r : DistrictRow) : Prop :=
  r.dId = dId ∧ r.dWId = dWId ∧ r.dId = l.olDId ∧ r.dWId = l.olWId ∧ l.olIId = s.sIId ∧ l.olWId = s.sWId ∧
    s.sQuantity < threshold ∧ lo ≤ l.olOId ∧ l.olOId ≤ hi

instance decidableLowStockRow (dId dWId threshold lo hi : Int) (l : OrderLineRow) (s : StockRow) (r : DistrictRow) :
    Decidable (lowStockRow dId dWId threshold lo hi l s r) :=
  inferInstanceAs (Decidable (_ ∧ _))

/-- `STOCK_LEVEL_2`: `SELECT count(*) FROM order_line, stock, district WHERE …`, with its numbers in the order of
the text. -/
def Db.stockLevel2 (db : Db) (dId dWId threshold lo hi : Int) : Nat :=
  (db.orderLine.rows.flatMap fun l => db.stock.rows.flatMap fun s =>
    db.district.rows.filter fun r => lowStockRow dId dWId threshold lo hi l s r).length

def Db.stockLevel1 (db : Db) (dWId dId : Int) : Option Int := (db.district.find (dWId, dId)).map DistrictRow.dNextOId

def sprintfInts : List (List Char) → List Int → List Char
  | part :: parts, n :: ns => part ++ printInt n ++ sprintfInts parts ns
  | parts, _ => parts.flatten

def stockLevel2Parts (indent : String) : List (List Char) :=
  ["SELECT count(*)\nFROM order_line, stock, district\nWHERE d_id = ", "\n  AND d_w_id = ",
    "\n  AND d_id = ol_d_id\n  AND d_w_id = ol_w_id\n  AND ol_i_id = s_i_id\n  AND ol_w_id = s_w_id" ++
      "\n  AND s_quantity < ",
    "\n  AND ol_o_id BETWEEN (", ")\n" ++ indent ++ "AND (", ")"].map String.toList

def nonspIndent : String := "\t\t  "

def pgsqlIndent : String := "                  "

def QueryFits (indent : String) (dId dWId threshold dNextOId : Int) : Prop :=
  -2 ^ 31 ≤ dNextOId - 20 ∧
    (sprintfInts (stockLevel2Parts indent) [dId, dWId, threshold, dNextOId - 20, dNextOId - 1]).length < 256

instance decidableQueryFits (indent : String) (dId dWId threshold dNextOId : Int) :
    Decidable (QueryFits indent dId dWId threshold dNextOId) := inferInstanceAs (Decidable (_ ∧ _))

def Db.stockLevel2Printed (db : Db) (indent : String) (dId dWId threshold dNextOId : Int) : Option Nat :=
  if QueryFits indent dId dWId threshold dNextOId then
    some (db.stockLevel2 dId dWId threshold (dNextOId - 20) (dNextOId - 1))
  else none

/-- `stock_level` of `dbc_stock_level.c`, with `low_stock` for its result; nothing as well if there is no such
district, and it returns -1. -/
def stockLevelNonsp (db : Db) (wId dId threshold : Int) : Option Nat :=
  (db.stockLevel1 wId dId).bind fun dNextOId => db.stockLevel2Printed nonspIndent dId wId threshold dNextOId

/-- The procedure of MySQL. If there is no such district the bounds are `NULL`, and nothing is between them. -/
def stockLevelMysql (db : Db) (inWId inDId inThreshold : Int) : Nat :=
  match db.stockLevel1 inWId inDId with
  | none => 0
  | some tmpDNextOId => db.stockLevel2 inDId inWId inThreshold (tmpDNextOId - 20) (tmpDNextOId - 1)

def stockLevelPgsql (db : Db) (wId dId threshold : Int) : Option Nat :=
  (db.stockLevel1 wId dId).bind fun dNextOId => db.stockLevel2Printed pgsqlIndent wId dId threshold dNextOId

/-! ## What is counted -/

def Db.lowLines (db : Db) (wId dId threshold lo hi : Int) : Nat :=
  db.orderLine.rows.countP fun l => l.olWId = wId ∧ l.olDId = dId ∧ lo ≤ l.olOId ∧ l.olOId ≤ hi ∧
    ∃ s ∈ db.stock.rows, s.key = (wId, l.olIId) ∧ s.sQuantity < threshold

theorem length_flatMap_ite {α β : Type} {l : List α} {f : α → List β} {p : α → Prop} [DecidablePred p]
    (h : ∀ a ∈ l, (f a).length = if p a then 1 else 0) : (l.flatMap f).length = l.countP (p ·) := by
  induction l with
  | nil => rfl
  | cons a l ih =>
    rw [List.forall_mem_cons] at h
    rw [List.flatMap_cons, List.length_append, h.1, ih h.2, List.countP_cons]
    simp only [decide_eq_true_eq]
    omega

theorem stockLevel2_eq (db : Db) (dId dWId threshold lo hi : Int) : db.stockLevel2 dId dWId threshold lo hi =
    if (db.district.find (dWId, dId)).isSome then db.lowLines dWId dId threshold lo hi else 0 := by
  -- for a line and a stock row at most one district joins
  have hdistrict : ∀ l s, (db.district.rows.filter fun r => lowStockRow dId dWId threshold lo hi l s r).length =
      if ∃ r ∈ db.district.rows, r.key = (dWId, dId) ∧ s.key = (dWId, l.olIId) ∧ l.olWId = dWId ∧ l.olDId = dId ∧
        lo ≤ l.olOId ∧ l.olOId ≤ hi ∧ s.sQuantity < threshold then 1 else 0 := by
    intro l s
    rw [← db.district.length_filter_key]
    congr 1
    apply List.filter_congr
    intro r _
    simp only [lowStockRow, DistrictRow.key, StockRow.key, Prod.mk.injEq]
    grind
  -- and for a line at most one stock row
  have hstock : ∀ l, (db.stock.rows.flatMap fun s => db.district.rows.filter fun r =>
      lowStockRow dId dWId threshold lo hi l s r).length =
      if ∃ s ∈ db.stock.rows, s.key = (dWId, l.olIId) ∧ (∃ r ∈ db.district.rows, r.key = (dWId, dId)) ∧
        l.olWId = dWId ∧ l.olDId = dId ∧ lo ≤ l.olOId ∧ l.olOId ≤ hi ∧ s.sQuantity < threshold then 1 else 0 := by
    intro l
    rw [length_flatMap_ite fun s _ => hdistrict l s, List.countP_eq_length_filter, ← db.stock.length_filter_key]
    congr 1
    apply List.filter_congr
    grind
  rw [Db.stockLevel2, length_flatMap_ite fun l _ => hstock l]
  cases hfind : db.district.find (dWId, dId) with
  | none =>
    rw [Table.find_eq_none] at hfind
    rw [if_neg (by simp), List.countP_eq_zero]
    grind
  | some r =>
    rw [Table.find_eq_some] at hfind
    rw [Option.isSome_some, if_pos rfl, Db.lowLines]
    apply List.countP_congr
    grind

/-! ## The room for the numbers -/

theorem length_sprintfInts {parts : List (List Char)} {ns : List Int} (h : ns.length ≤ parts.length) :
    (sprintfInts parts ns).length = parts.flatten.length + (ns.map fun n => (printInt n).length).sum := by
  induction parts generalizing ns with
  | nil =>
    rw [List.length_eq_zero_iff.mp (Nat.le_zero.mp h)]
    rfl
  | cons part parts ih =>
    cases ns with
    | nil => rfl
    | cons n ns =>
      rw [sprintfInts, List.length_append, List.length_append, ih (Nat.le_of_succ_le_succ h), List.flatten_cons,
        List.length_append, List.map_cons, List.sum_cons]
      omega

theorem queryFits_iff (dId dWId threshold dNextOId : Int) :
    let digits := ([dId, dWId, threshold, dNextOId - 20, dNextOId - 1].map fun n => (printInt n).length).sum
    (QueryFits nonspIndent dId dWId threshold dNextOId ↔ -2 ^ 31 ≤ dNextOId - 20 ∧ digits ≤ 31) ∧
      (QueryFits pgsqlIndent dId dWId threshold dNextOId ↔ -2 ^ 31 ≤ dNextOId - 20 ∧ digits ≤ 17) := by
  have hnonsp : (stockLevel2Parts nonspIndent).flatten.length = 224 := by decide +kernel
  have hpgsql : (stockLevel2Parts pgsqlIndent).flatten.length = 238 := by decide +kernel
  intro digits
  have hlength : ∀ indent, (sprintfInts (stockLevel2Parts indent)
      [dId, dWId, threshold, dNextOId - 20, dNextOId - 1]).length = (stockLevel2Parts indent).flatten.length + digits :=
    fun _ => length_sprintfInts (by simp [stockLevel2Parts])
  rw [QueryFits, QueryFits, hlength, hlength, hnonsp, hpgsql]
  omega

/-! ## The three versions -/

def oneLine (wId dId threshold dNextOId : Int) : Db :=
  let line : OrderLineRow := ⟨dNextOId - 1, dId, wId, 1, 1, wId, 1⟩
  { Db.empty with
    district := .single ⟨wId, dId, [], 0, dNextOId⟩
    orderLine := .single line
    stock := .single ⟨wId, 1, threshold - 1⟩ }

theorem find_oneLine (wId dId threshold dNextOId : Int) :
    (oneLine wId dId threshold dNextOId).district.find (wId, dId) = some ⟨wId, dId, [], 0, dNextOId⟩ := by
  rw [Table.find_eq_some]
  exact ⟨List.mem_cons_self, rfl⟩

theorem lowLines_oneLine (wId dId threshold dNextOId : Int) :
    (oneLine wId dId threshold dNextOId).lowLines wId dId threshold (dNextOId - 20) (dNextOId - 1) = 1 := by
  simp [oneLine, Db.lowLines, Table.single, StockRow.key]
  omega

section Versions

variable {db : Db} {wId dId : Int} {r : DistrictRow}

theorem stockLevelNonsp_eq (h : db.district.find (wId, dId) = some r) (threshold : Int) :
    stockLevelNonsp db wId dId threshold = if QueryFits nonspIndent dId wId threshold r.dNextOId then
      some (db.lowLines wId dId threshold (r.dNextOId - 20) (r.dNextOId - 1)) else none := by
  rw [stockLevelNonsp, Db.stockLevel1, h, Option.map_some, Option.bind_some, Db.stockLevel2Printed, stockLevel2_eq, h]
  rfl

theorem stockLevelPgsql_eq (h : db.district.find (wId, dId) = some r) (threshold : Int) :
    stockLevelPgsql db wId dId threshold = if QueryFits pgsqlIndent wId dId threshold r.dNextOId then
      some (if (db.district.find (dId, wId)).isSome then
        db.lowLines dId wId threshold (r.dNextOId - 20) (r.dNextOId - 1) else 0) else none := by
  rw [stockLevelPgsql, Db.stockLevel1, h, Option.map_some, Option.bind_some, Db.stockLevel2Printed, stockLevel2_eq]

end Versions

/-- In every district there is, the procedure of MySQL counts the lines of the last twenty order numbers whose item is
low on stock. So does the C program, as long as the text of its query fits. The function for PostgreSQL does so where
the text fits and the district has the number of its warehouse; elsewhere it counts the lines of another district. -/
theorem stock_level_agree_iff (wId dId threshold dNextOId : Int) :
    (∀ (db : Db) r, db.district.find (wId, dId) = some r → r.dNextOId = dNextOId →
      let low := db.lowLines wId dId threshold (dNextOId - 20) (dNextOId - 1)
      (stockLevelNonsp db wId dId threshold = some low ↔ QueryFits nonspIndent dId wId threshold dNextOId) ∧
        stockLevelMysql db wId dId threshold = low) ∧
    ((∀ (db : Db) r, db.district.find (wId, dId) = some r → r.dNextOId = dNextOId →
        stockLevelPgsql db wId dId threshold =
          some (db.lowLines wId dId threshold (dNextOId - 20) (dNextOId - 1))) ↔
      wId = dId ∧ QueryFits pgsqlIndent wId dId threshold dNextOId) := by
  refine ⟨fun db r h hnext => ⟨?_, ?_⟩, fun h => ?_, ?_⟩
  · subst hnext
    rw [stockLevelNonsp_eq h]
    split
    · exact iff_of_true rfl ‹_›
    · exact iff_of_false (by simp) ‹_›
  · subst hnext
    simp only [stockLevelMysql, Db.stockLevel1, h, Option.map_some, stockLevel2_eq, Option.isSome_some, if_true]
  · have hlow := h _ _ (find_oneLine wId dId threshold dNextOId) rfl
    rw [stockLevelPgsql_eq (find_oneLine ..), lowLines_oneLine] at hlow
    obtain ⟨hfits, hlow⟩ := Option.ite_none_right_eq_some.mp hlow
    refine ⟨?_, hfits⟩
    by_contra hne
    have hnone : (oneLine wId dId threshold dNextOId).district.find (dId, wId) = none := by
      rw [Table.find_eq_none]
      simp [oneLine, Table.single, DistrictRow.key, hne]
    rw [hnone] at hlow
    simp at hlow
  · rintro ⟨rfl, hfits⟩ db r h rfl
    rw [stockLevelPgsql_eq h, if_pos hfits, h]
    rfl

/-- District 1 of warehouse 1. -/
theorem stock_level_agree_first :
    stockLevelNonsp (oneLine 1 1 10 3001) 1 1 10 = some 1 ∧ stockLevelMysql (oneLine 1 1 10 3001) 1 1 10 = 1 ∧
    stockLevelPgsql (oneLine 1 1 10 3001) 1 1 10 = some 1 := by
  obtain ⟨hothers, hpgsql⟩ := stock_level_agree_iff 1 1 10 3001
  obtain ⟨hnonsp, hmysql⟩ := hothers (oneLine 1 1 10 3001) _ (find_oneLine ..) rfl
  rw [lowLines_oneLine] at hnonsp hmysql
  refine ⟨hnonsp.mpr (by decide +kernel), hmysql, ?_⟩
  rw [hpgsql.mpr ⟨rfl, by decide +kernel⟩ _ _ (find_oneLine ..) rfl, lowLines_oneLine]

/-- District 2 of warehouse 1: a line is low on stock, and the function for PostgreSQL does not see it. -/
theorem pgsql_counts_elsewhere :
    stockLevelNonsp (oneLine 1 2 10 2) 1 2 10 = some 1 ∧ stockLevelMysql (oneLine 1 2 10 2) 1 2 10 = 1 ∧
    stockLevelPgsql (oneLine 1 2 10 2) 1 2 10 = some 0 := by
  refine ⟨?_, ?_, ?_⟩ <;> decide +kernel

end MysqlBench.Dbt2
