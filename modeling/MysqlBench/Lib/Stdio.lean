import Mathlib.Data.List.TakeWhile
import Mathlib.Data.Nat.Digits.Defs

/-!
# Reading lines: `fgets` and the conversions of `sscanf`

A stream is the list of its characters. `fgets` cuts a line off it, `scanWord` is the conversion
`%Ns` and `scanUnsigned` the conversion `%llu` (which takes a sign, wraps a negated value and
saturates a large one). Each conversion skips white space first and returns what is left.

The lemmas say what the conversions make of text that `fprintf` wrote: a word without white space
comes back as it is, a number printed in decimal comes back as its value.
-/

namespace MysqlBench.Lib

def isSpace (c : Char) : Bool :=
  c = ' ' || c = '\t' || c = '\n' || c = '\x0b' || c = '\x0c' || c = '\r'

/-! ## Lines -/

def fgets (n : Nat) (s : List Char) : Option (List Char × List Char) :=
  if s = [] ∨ n ≤ 1 then none
  else
    let line := s.takeWhile (· ≠ '\n')
    let line := (if line.length < s.length then line ++ ['\n'] else line).take (n - 1)
    some (line, s.drop line.length)

theorem fgets_lt {n : Nat} {s line rest : List Char} (h : fgets n s = some (line, rest)) :
    rest.length < s.length := by
  unfold fgets at h
  split at h
  · exact absurd h (by simp)
  · rename_i hs
    push Not at hs
    obtain ⟨hs, hn⟩ := hs
    have hpos := List.length_pos_iff.mpr hs
    simp only [Option.some.injEq, Prod.mk.injEq] at h
    obtain ⟨rfl, rfl⟩ := h
    rw [List.length_drop, List.length_take]
    split
    · rw [List.length_append, List.length_singleton]
      omega
    · omega

def fgetsLines (n : Nat) (s : List Char) : List (List Char) :=
  match _h : fgets n s with
  | none => []
  | some (line, rest) => line :: fgetsLines n rest
termination_by s.length
decreasing_by exact fgets_lt _h

theorem fgetsLines_nil (n : Nat) : fgetsLines n [] = [] := by
  rw [fgetsLines]
  rfl

theorem takeWhile_append_stop {p : Char → Bool} {w : List Char} {c : Char} {rest : List Char}
    (hw : ∀ x ∈ w, p x = true) (hc : p c = false) : (w ++ c :: rest).takeWhile p = w := by
  rw [List.takeWhile_append_of_pos hw, List.takeWhile_cons_of_neg (by simp [hc]), List.append_nil]

theorem fgetsLines_cons {n : Nat} {line rest : List Char} (hline : ∀ c ∈ line, c ≠ '\n')
    (hlen : line.length + 1 < n) :
    fgetsLines n (line ++ '\n' :: rest) = (line ++ ['\n']) :: fgetsLines n rest := by
  have htake : (line ++ '\n' :: rest).takeWhile (· ≠ '\n') = line :=
    takeWhile_append_stop (fun c hc => by simpa using hline c hc) (by simp)
  have hget : fgets n (line ++ '\n' :: rest) = some (line ++ ['\n'], rest) := by
    unfold fgets
    rw [if_neg (by simp; omega), htake]
    dsimp only
    rw [if_pos (by simp), List.take_of_length_le (by simp; omega), List.append_cons line '\n' rest, List.drop_left]
  rw [fgetsLines]
  split
  · rename_i h
    rw [hget] at h
    exact absurd h (by simp)
  · rename_i l r h
    rw [hget] at h
    obtain ⟨rfl, rfl⟩ : line ++ ['\n'] = l ∧ rest = r := by simpa using h
    rfl

def cString (s : List Char) : List Char := s.takeWhile (· ≠ '\x00')

theorem cString_eq {s : List Char} (h : ∀ c ∈ s, c ≠ '\x00') : cString s = s :=
  List.takeWhile_eq_self_iff.mpr fun c hc => by simpa using h c hc

/-! ## Conversions -/

def scanWord (width : Nat) (s : List Char) : Option (List Char × List Char) :=
  let s := s.dropWhile isSpace
  let w := (s.takeWhile fun c => !isSpace c).take width
  if w = [] then none else some (w, s.drop w.length)

def strtoull (negative : Bool) (digits : List Char) : Nat :=
  let v := Nat.ofDigitChars 10 digits 0
  if 2 ^ 64 ≤ v then 2 ^ 64 - 1 else if negative then (2 ^ 64 - v) % 2 ^ 64 else v

def scanUnsigned (s : List Char) : Option (Nat × List Char) :=
  let s := s.dropWhile isSpace
  let (negative, s) := match s with
    | '-' :: t => (true, t)
    | '+' :: t => (false, t)
    | s => (false, s)
  let digits := s.takeWhile Char.isDigit
  if digits = [] then none else some (strtoull negative digits, s.drop digits.length)

theorem dropWhile_isSpace {w rest : List Char} (hne : w ≠ []) (hw : ∀ c ∈ w, isSpace c = false) :
    (w ++ rest).dropWhile isSpace = w ++ rest := by
  cases w with
  | nil => exact absurd rfl hne
  | cons c w => exact List.dropWhile_cons_of_neg (by simp [hw c List.mem_cons_self])

theorem scanWord_append {width : Nat} {w : List Char} {c : Char} {rest : List Char} (hne : w ≠ [])
    (hlen : w.length ≤ width) (hw : ∀ x ∈ w, isSpace x = false) (hc : isSpace c = true) :
    scanWord width (w ++ c :: rest) = some (w, c :: rest) := by
  have htake : (w ++ c :: rest).takeWhile (fun x => !isSpace x) = w :=
    takeWhile_append_stop (fun x hx => by simp [hw x hx]) (by simp [hc])
  unfold scanWord
  dsimp only
  rw [dropWhile_isSpace hne hw, htake, List.take_of_length_le hlen, if_neg hne, List.drop_left]

@[simp] theorem scanWord_space (width : Nat) (s : List Char) :
    scanWord width (' ' :: s) = scanWord width s := rfl

@[simp] theorem scanUnsigned_space (s : List Char) : scanUnsigned (' ' :: s) = scanUnsigned s := rfl

theorem isSpace_of_isDigit {c : Char} (h : c.isDigit = true) : isSpace c = false := by
  unfold isSpace
  simp only [Bool.or_eq_false_iff, decide_eq_false_iff_not]
  refine ⟨⟨⟨⟨⟨?_, ?_⟩, ?_⟩, ?_⟩, ?_⟩, ?_⟩ <;> (rintro rfl; exact absurd h (by decide))

theorem toDigits_ne_nil (n : Nat) : Nat.toDigits 10 n ≠ [] :=
  List.length_pos_iff.mp Nat.length_toDigits_pos

theorem scanUnsigned_toDigits {n : Nat} {c : Char} {rest : List Char} (hn : n < 2 ^ 64)
    (hc : c.isDigit = false) :
    scanUnsigned (Nat.toDigits 10 n ++ c :: rest) = some (n, c :: rest) := by
  have hdig : ∀ x ∈ Nat.toDigits 10 n, x.isDigit = true := fun x hx =>
    Nat.isDigit_of_mem_toDigits (by omega) (by omega) hx
  have hval := Nat.ofDigitChars_toDigits (b := 10) (n := n) (by omega) (by omega)
  have htake : (Nat.toDigits 10 n ++ c :: rest).takeWhile Char.isDigit = Nat.toDigits 10 n :=
    takeWhile_append_stop hdig hc
  have hspace := @dropWhile_isSpace _ (c :: rest) (toDigits_ne_nil n) fun x hx =>
    isSpace_of_isDigit (hdig x hx)
  have hne := toDigits_ne_nil n
  unfold scanUnsigned
  dsimp only
  rw [hspace]
  -- the first character is a digit, so there is no sign
  obtain ⟨d, ds, hds⟩ := List.exists_cons_of_ne_nil hne
  have hd : d.isDigit = true := hdig d (by rw [hds]; exact List.mem_cons_self)
  have hsign : (match Nat.toDigits 10 n ++ c :: rest with
      | '-' :: t => (true, t)
      | '+' :: t => (false, t)
      | s => (false, s)) = (false, Nat.toDigits 10 n ++ c :: rest) := by
    rw [hds, List.cons_append]
    split
    · rename_i h
      rw [(List.cons.inj h).1] at hd
      exact absurd hd (by decide)
    · rename_i h
      rw [(List.cons.inj h).1] at hd
      exact absurd hd (by decide)
    · rfl
  rw [hsign]
  dsimp only
  rw [htake, if_neg hne, List.drop_left, strtoull, hval, if_neg (by omega)]
  rfl

end MysqlBench.Lib
