import MysqlBench.Tpcc.Inputs
import MysqlBench.Tpcc.Load

/-!
# The original items (`LoadItems`, `Stock`)

A tenth of the items, and of the stock of a warehouse, are to have the word `original` in their data. Both
functions mark them in an array `orig` of `MAXITEMS + 1` entries on the stack: the entries are cleared, as
many different ones as there are items to mark are drawn and set, and then the rows are made for the items
from one on. Only the first tenth of the entries is cleared, and the entry of no item, at zero, can be drawn:
the rows with the word are a tenth if what was left of the stack makes up for it (`originals_iff`).

The number of items is a parameter here. A marking that ends sets one entry after another that was not set
(`card_markLoop`), which is all that has to be known about the draws.
-/

namespace MysqlBench.Tpcc

/-! ## The marks -/

def clearOrig (maxItems : Nat) (orig : Nat → Nat) : Nat → Nat :=
  (List.range (maxItems / 10)).foldl (fun orig i => Function.update orig i 0) orig

def markOne (maxItems : Nat) (orig : Nat → Nat) : List Nat → Option ((Nat → Nat) × List Nat)
  | [] => none
  | rand :: rest =>
    let pos := randomBetween 0 maxItems rand
    if orig pos ≠ 0 then markOne maxItems orig rest else some (Function.update orig pos 1, rest)

def markLoop (maxItems : Nat) : Nat → (Nat → Nat) → List Nat → Option (Nat → Nat)
  | 0, orig, _ => some orig
  | n + 1, orig, rands => (markOne maxItems orig rands).bind fun r => markLoop maxItems n r.1 r.2

def markOrig (maxItems : Nat) (orig : Nat → Nat) (rands : List Nat) : Option (Nat → Nat) :=
  markLoop maxItems (maxItems / 10) (clearOrig maxItems orig) rands

theorem clearOrig_eq (maxItems : Nat) (orig : Nat → Nat) (i : Nat) :
    clearOrig maxItems orig i = if i < maxItems / 10 then 0 else orig i := by
  unfold clearOrig
  generalize maxItems / 10 = n
  induction n with
  | zero => rfl
  | succ n ih =>
    rw [List.range_succ, List.foldl_append, List.foldl_cons, List.foldl_nil, Function.update_apply, ih]
    grind

def setUpTo (n : Nat) (orig : Nat → Nat) : Finset Nat := (Finset.range (n + 1)).filter fun i => orig i ≠ 0

theorem card_markOne {n : Nat} {orig orig' : Nat → Nat} {rands rands' : List Nat}
    (h : markOne n orig rands = some (orig', rands')) : (setUpTo n orig').card = (setUpTo n orig).card + 1 := by
  induction rands with
  | nil => exact absurd h (by simp [markOne])
  | cons rand rest ih =>
    rw [markOne] at h
    split at h
    · exact ih h
    · rename_i hfree
      obtain ⟨rfl, _⟩ := Prod.mk.inj (Option.some.inj h)
      have hle := (randomBetween_range (Nat.zero_le n) rand).2
      have hnew : setUpTo n (Function.update orig (randomBetween 0 n rand) 1) =
          insert (randomBetween 0 n rand) (setUpTo n orig) := by
        ext i
        simp only [setUpTo, Finset.mem_filter, Finset.mem_range, Finset.mem_insert, Function.update_apply]
        grind
      have hnot : randomBetween 0 n rand ∉ setUpTo n orig := fun hin => hfree (Finset.mem_filter.mp hin).2
      rw [hnew, Finset.card_insert_of_notMem hnot]

theorem card_markLoop {n k : Nat} {orig orig' : Nat → Nat} {rands : List Nat}
    (h : markLoop n k orig rands = some orig') : (setUpTo n orig').card = (setUpTo n orig).card + k := by
  induction k generalizing orig rands with
  | zero => rw [← Option.some.inj h, Nat.add_zero]
  | succ k ih =>
    obtain ⟨r, hr, hrest⟩ := Option.bind_eq_some_iff.mp h
    rw [ih hrest, card_markOne (show markOne n orig rands = some (r.1, r.2) from hr), Nat.add_right_comm,
      Nat.add_assoc]

def freeDrawn (n : Nat) (orig : Nat → Nat) (rands : List Nat) : List Nat :=
  ((rands.map (randomBetween 0 n)).filter fun i => orig i = 0).eraseDups

theorem freeDrawn_cons (n : Nat) (orig : Nat → Nat) (rand : Nat) (rest : List Nat) :
    freeDrawn n orig (rand :: rest) = if orig (randomBetween 0 n rand) ≠ 0 then freeDrawn n orig rest
      else randomBetween 0 n rand :: freeDrawn n (Function.update orig (randomBetween 0 n rand) 1) rest := by
  unfold freeDrawn
  rw [List.map_cons, List.filter_cons]
  by_cases h : orig (randomBetween 0 n rand) = 0
  · rw [if_pos (by simpa using h), if_neg (not_not.mpr h), List.eraseDups_cons, List.filter_filter]
    congr 3
    funext i
    simp only [Function.update_apply]
    grind
  · rw [if_neg (by simpa using h), if_pos h]

theorem freeDrawn_markOne {n : Nat} {orig orig' : Nat → Nat} {rands rands' : List Nat}
    (h : markOne n orig rands = some (orig', rands')) :
    ∃ pos, orig' = Function.update orig pos 1 ∧ freeDrawn n orig rands = pos :: freeDrawn n orig' rands' := by
  induction rands with
  | nil => exact absurd h (by simp [markOne])
  | cons rand rest ih =>
    rw [markOne] at h
    rw [freeDrawn_cons]
    split at h
    · rw [if_pos ‹_›]
      exact ih h
    · rw [if_neg ‹_›]
      obtain ⟨rfl, rfl⟩ := Prod.mk.inj (Option.some.inj h)
      exact ⟨_, rfl, rfl⟩

theorem markLoop_ne_zero {n k : Nat} {orig orig' : Nat → Nat} {rands : List Nat}
    (h : markLoop n k orig rands = some orig') (i : Nat) :
    orig' i ≠ 0 ↔ orig i ≠ 0 ∨ i ∈ (freeDrawn n orig rands).take k := by
  induction k generalizing orig rands with
  | zero => simp [← Option.some.inj h]
  | succ k ih =>
    obtain ⟨r, hr, hrest⟩ := Option.bind_eq_some_iff.mp h
    obtain ⟨pos, hpos, hdrawn⟩ := freeDrawn_markOne (show markOne n orig rands = some (r.1, r.2) from hr)
    rw [ih hrest, hdrawn, List.take_succ_cons, List.mem_cons, hpos, Function.update_apply]
    by_cases hi : i = pos
    · simp [hi]
    · simp [hi]

/-! ## The rows -/

def dataText (randLen : Nat) (rands : Nat → Nat) : List Char :=
  (List.range (randomBetween 26 50 randLen)).map fun i =>
    alphanum.toList.getD (randomBetween 0 61 (rands i)) '0'

def writeChars : Nat → List Char → List Char → List Char
  | _, [], text => text
  | pos, c :: cs, text => writeChars (pos + 1) cs (text.set pos c)

/-- `i_data` of an item and `s_data` of a stock row, whose lines are the same. -/
def rowData (orig : Nat → Nat) (id : Nat) (text : List Char) (randPos : Nat) : List Char :=
  if orig id ≠ 0 then writeChars (randomBetween 0 (text.length - 8) randPos) "original".toList text else text

theorem writeChars_eq {cs : List Char} {pos : Nat} {text : List Char} (h : pos + cs.length ≤ text.length) :
    writeChars pos cs text = text.take pos ++ cs ++ text.drop (pos + cs.length) := by
  induction cs generalizing pos text with
  | nil => simp [writeChars]
  | cons c cs ih =>
    rw [List.length_cons] at h
    have hlt : pos < text.length := by omega
    rw [writeChars, ih (by rw [List.length_set]; omega), List.drop_set_of_lt (by omega),
      List.set_eq_take_append_cons_drop, if_pos hlt, List.take_append, List.length_take, Nat.min_eq_left hlt.le,
      List.take_of_length_le (by rw [List.length_take]; omega)]
    rw [List.length_cons, show pos + 1 + cs.length = pos + (cs.length + 1) by omega]
    simp

theorem rowData_original (orig : Nat → Nat) {id : Nat} (hid : orig id ≠ 0) (randLen : Nat) (rands : Nat → Nat)
    (randPos : Nat) : ∃ before after, before.length + 8 + after.length = (dataText randLen rands).length ∧
      rowData orig id (dataText randLen rands) randPos = before ++ "original".toList ++ after := by
  have hlen : 26 ≤ (dataText randLen rands).length := by
    rw [dataText, List.length_map, List.length_range]
    exact (randomBetween_range (by decide) randLen).1
  generalize dataText randLen rands = text at hlen ⊢
  have hpos := (randomBetween_range (Nat.zero_le (text.length - 8)) randPos).2
  have height : "original".toList.length = 8 := rfl
  rw [rowData, if_pos hid, writeChars_eq (by omega)]
  refine ⟨_, _, ?_, rfl⟩
  rw [List.length_take, List.length_drop]
  omega

def originals (maxItems : Nat) (orig : Nat → Nat) : Finset Nat :=
  (Finset.Icc 1 maxItems).filter fun id => orig id ≠ 0

def leftovers (maxItems : Nat) (orig : Nat → Nat) : Finset Nat :=
  (Finset.Icc (maxItems / 10) maxItems).filter fun i => orig i ≠ 0

theorem card_originals (n : Nat) (orig : Nat → Nat) :
    (setUpTo n orig).card = (originals n orig).card + if orig 0 = 0 then 0 else 1 := by
  have hsplit : Finset.range (n + 1) = insert 0 (Finset.Icc 1 n) := by
    ext i
    simp only [Finset.mem_range, Finset.mem_insert, Finset.mem_Icc]
    omega
  have hzero : 0 ∉ originals n orig := by simp [originals]
  rw [setUpTo, hsplit, Finset.filter_insert]
  by_cases h : orig 0 = 0
  · rw [if_neg (not_not.mpr h), if_pos h]
    rfl
  · rw [if_pos h, if_neg h]
    exact Finset.card_insert_of_notMem hzero

theorem setUpTo_clearOrig (n : Nat) (orig : Nat → Nat) : setUpTo n (clearOrig n orig) = leftovers n orig := by
  ext i
  simp only [setUpTo, leftovers, Finset.mem_filter, Finset.mem_range, Finset.mem_Icc, clearOrig_eq]
  grind

/-- For every number of items that is a multiple of ten, whatever the array holds and the draws are, if the
marking ends: the word is inside the text of every marked row and of no other; and a tenth of the items are
marked exactly if one entry was left over when the entry at zero is among the free ones that are drawn first, and
none when it is not. -/
theorem originals_iff {maxItems : Nat} (hten : 10 ∣ maxItems) {orig orig' : Nat → Nat} {rands : List Nat}
    (h : markOrig maxItems orig rands = some orig') :
    ((originals maxItems orig').card = maxItems / 10 ∧ ∀ id randLen rands randPos,
      if orig' id ≠ 0 then ∃ before after, before.length + 8 + after.length = (dataText randLen rands).length ∧
        rowData orig' id (dataText randLen rands) randPos = before ++ "original".toList ++ after
      else rowData orig' id (dataText randLen rands) randPos = dataText randLen rands) ↔
    maxItems = 0 ∨ (leftovers maxItems orig).card =
      if 0 ∈ (freeDrawn maxItems (clearOrig maxItems orig) rands).take (maxItems / 10) then 1 else 0 := by
  have hdata : ∀ id randLen rands randPos,
      if orig' id ≠ 0 then ∃ before after, before.length + 8 + after.length = (dataText randLen rands).length ∧
        rowData orig' id (dataText randLen rands) randPos = before ++ "original".toList ++ after
      else rowData orig' id (dataText randLen rands) randPos = dataText randLen rands := by
    intro id randLen rands randPos
    split
    · exact rowData_original orig' ‹_› randLen rands randPos
    · rw [rowData, if_neg ‹_›]
  have hcard := card_markLoop h
  rw [setUpTo_clearOrig, card_originals] at hcard
  rw [and_iff_left hdata]
  by_cases hzero : maxItems = 0
  · simp [hzero, originals]
  · -- the entry at zero is cleared, so it is set only if it is drawn
    have hset := markLoop_ne_zero h 0
    rw [clearOrig_eq, if_pos (by omega)] at hset
    simp only [ne_eq, not_true_eq_false, false_or] at hset
    by_cases hdrawn : orig' 0 = 0
    · rw [if_neg (fun hin => hset.mpr hin hdrawn)]
      rw [if_pos hdrawn] at hcard
      omega
    · rw [if_pos (hset.mp hdrawn)]
      rw [if_neg hdrawn] at hcard
      omega

/-- The array all zero and the item six drawn: of ten items one is original. -/
theorem originals_iff_six : (originals 10 (Function.update (fun _ => 0) 6 1)).card = 1 := by
  have hleft : (leftovers 10 fun _ => 0).card = 0 := by decide
  have hdrawn : 0 ∉ (freeDrawn 10 (clearOrig 10 fun _ => 0) [6]).take (10 / 10) := by decide
  have hrun : markOrig 10 (fun _ => 0) [6] = some (Function.update (fun _ => 0) 6 1) := by
    simp [markOrig, markLoop, markOne, randomBetween, clearOrig]
  exact ((originals_iff (by decide) hrun).mpr (Or.inr (by rw [hleft, if_neg hdrawn]))).1

/-- The array all zero and a draw of the entry at zero: of ten items none is original. -/
theorem none_original : ∃ orig', markOrig 10 (fun _ => 0) [0] = some orig' ∧ (originals 10 orig').card ≠ 10 / 10 := by
  refine ⟨Function.update (fun _ => 0) 0 1, ?_, by decide⟩
  simp [markOrig, markLoop, markOne, randomBetween, clearOrig]

end MysqlBench.Tpcc
