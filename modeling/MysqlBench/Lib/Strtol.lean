import Mathlib
import MysqlBench.Lib.Stdio

/-!
# Numbers in texts: `strtol` and `strstr`

A text is the list of its characters, without the NUL. `strtol` skips white space, takes a sign and,
for base 16, a `0x`, and reads digits as long as there are any; a value beyond 64 bits is replaced by
the nearest one that fits, and `errno` says so. The lemmas are about texts that begin with decimal
digits (`strtol_digits`).
-/

namespace MysqlBench.Lib

/-! ## Digits -/

def digitValue (c : Char) : Nat :=
  if c.isDigit then c.toNat - '0'.toNat
  else if c.isLower then c.toNat - 'a'.toNat + 10
  else if c.isUpper then c.toNat - 'A'.toNat + 10
  else 36

def isDigitOf (base : Nat) (c : Char) : Bool := digitValue c < base

def digitsValue (base : Nat) (ds : List Char) : Nat := ds.foldl (fun n c => base * n + digitValue c) 0

/-! ## `strtol` -/

def skipSign : List Char → Bool × List Char
  | '-' :: s => (true, s)
  | '+' :: s => (false, s)
  | s => (false, s)

def skipHexMark (base : Nat) (s : List Char) : List Char :=
  match s with
  | '0' :: x :: d :: t =>
    if base = 16 ∧ (x = 'x' ∨ x = 'X') ∧ isDigitOf 16 d = true then d :: t else s
  | s => s

def strtolExact (base : Nat) (s : List Char) : Int :=
  let r := skipSign (s.dropWhile isSpace)
  let n := digitsValue base ((skipHexMark base r.2).takeWhile (isDigitOf base))
  if r.1 then -n else n

/-- `strtol(s, NULL, base)` with a `long` of 64 bits, and whether it sets `errno` to `ERANGE`. -/
def strtol (base : Nat) (s : List Char) : Int × Bool :=
  let v := strtolExact base s
  if v < -2 ^ 63 then (-2 ^ 63, true)
  else if 2 ^ 63 ≤ v then (2 ^ 63 - 1, true)
  else (v, false)

def wrap64 (v : Int) : Int := v.bmod (2 ^ 64)

def strstr (needle : List Char) : List Char → Option Nat
  | [] => if needle.isEmpty then some 0 else none
  | c :: s => if needle.isPrefixOf (c :: s) then some 0 else (strstr needle s).map (· + 1)

/-! ## Decimal texts -/

def EndsNumber (rest : List Char) : Prop :=
  ∀ c ∈ rest.head?, isDigitOf 10 c = false ∧ isSpace c = false ∧ c ≠ '-' ∧ c ≠ '+'

theorem isDigitOf_ten {c : Char} (h : c.isDigit = true) : isDigitOf 10 c = true := by
  have hval : 48 ≤ c.val ∧ c.val ≤ 57 := by simpa [Char.isDigit] using h
  have hle : c.toNat ≤ 57 := hval.2
  have hge : 48 ≤ c.toNat := hval.1
  simp only [isDigitOf, digitValue, h, if_true, decide_eq_true_eq]
  rw [show '0'.toNat = 48 from rfl]
  omega

theorem skipSign_eq {s : List Char} (h : ∀ c ∈ s.head?, c ≠ '-' ∧ c ≠ '+') : skipSign s = (false, s) := by
  cases s with
  | nil => rfl
  | cons c s =>
    obtain ⟨hminus, hplus⟩ := h c rfl
    unfold skipSign
    split
    · rename_i heq
      exact absurd (List.cons.inj heq).1 hminus
    · rename_i heq
      exact absurd (List.cons.inj heq).1 hplus
    · rfl

theorem skipHexMark_ten (s : List Char) : skipHexMark 10 s = s := by
  unfold skipHexMark
  split
  · rw [if_neg (by simp)]
  · rfl

theorem strtolExact_digits {ds rest : List Char} (hds : ∀ c ∈ ds, c.isDigit = true)
    (hrest : EndsNumber rest) : strtolExact 10 (ds ++ rest) = digitsValue 10 ds := by
  have hhead : ∀ c ∈ (ds ++ rest).head?, isSpace c = false ∧ c ≠ '-' ∧ c ≠ '+' := by
    intro c hc
    cases ds with
    | nil => exact (hrest c hc).2
    | cons d ds =>
      obtain rfl : d = c := by simpa using hc
      have hd := hds d List.mem_cons_self
      refine ⟨isSpace_of_isDigit hd, ?_, ?_⟩
      · rintro rfl
        exact absurd hd (by decide)
      · rintro rfl
        exact absurd hd (by decide)
  have hspace : (ds ++ rest).dropWhile isSpace = ds ++ rest := by
    cases h : ds ++ rest with
    | nil => rfl
    | cons c s => exact List.dropWhile_cons_of_neg (by simp [(hhead c (by rw [h]; rfl)).1])
  have htake : (ds ++ rest).takeWhile (isDigitOf 10) = ds := by
    rw [List.takeWhile_append_of_pos fun c hc => isDigitOf_ten (hds c hc)]
    cases rest with
    | nil => simp
    | cons c s => rw [List.takeWhile_cons_of_neg (by simp [(hrest c rfl).1]), List.append_nil]
  unfold strtolExact
  dsimp only
  rw [hspace, skipSign_eq fun c hc => (hhead c hc).2, skipHexMark_ten, htake]
  rfl

theorem strtol_digits {ds rest : List Char} (hds : ∀ c ∈ ds, c.isDigit = true)
    (hrest : EndsNumber rest) : strtol 10 (ds ++ rest) =
      if digitsValue 10 ds < 2 ^ 63 then ((digitsValue 10 ds : Int), false)
      else (2 ^ 63 - 1, true) := by
  unfold strtol
  rw [strtolExact_digits hds hrest]
  dsimp only
  rw [if_neg (by omega)]
  by_cases h : digitsValue 10 ds < 2 ^ 63
  · rw [if_neg (by omega), if_pos h]
  · rw [if_pos (by omega), if_neg h]

theorem strstr_eq_none {needle s : List Char} {c : Char} (hc : c ∈ needle) (hs : c ∉ s) :
    strstr needle s = none := by
  induction s with
  | nil =>
    cases needle with
    | nil => exact absurd hc List.not_mem_nil
    | cons d needle => rfl
  | cons d s ih =>
    have hpre : needle.isPrefixOf (d :: s) = false := by
      rw [Bool.eq_false_iff]
      intro h
      exact hs ((List.isPrefixOf_iff_prefix.mp h).subset hc)
    rw [strstr, hpre, ih fun h => hs (List.mem_cons_of_mem d h)]
    rfl

/-! ## 64-bit results -/

theorem wrap64_congr {a b : Nat} (h : a % 2 ^ 64 = b % 2 ^ 64) : wrap64 a = wrap64 b := by
  rw [wrap64, wrap64, ← Int.emod_bmod a, ← Int.emod_bmod b]
  exact_mod_cast congrArg (fun n : Nat => (n : Int).bmod (2 ^ 64)) h

theorem wrap64_eq_self_iff {v : Int} (h : 0 ≤ v) : wrap64 v = v ↔ v < 2 ^ 63 := by
  unfold wrap64
  constructor
  · intro heq
    have := Int.bmod_lt (x := v) (m := 2 ^ 64) (by decide)
    omega
  · intro hlt
    rw [Int.bmod_def]
    omega

end MysqlBench.Lib
