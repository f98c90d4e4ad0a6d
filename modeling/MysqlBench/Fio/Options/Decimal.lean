import MysqlBench.Lib.Strtol

/-!
# `parse.c` — sizes and times

`str_to_decimal` reads a number with a suffix. The number is read by `strtoll`, the suffix is looked for
by a walk of its own over the text, and the two are multiplied as 64-bit numbers, with no look at the
result.

`getMultBytes_eq` is the walk and the table of suffixes: on digits followed by a known suffix they give
the multiplier the suffix stands for. So the value is the right one modulo `2 ^ 64`, and
`size_exact_iff` says when it is the right one.
-/

namespace MysqlBench.Fio

open MysqlBench.Lib

/-! ## The code -/

def isSeparator (c : Char) : Bool := c = ':' || c = '-' || c = ',' || c = '/'

/-- `fio_get_kb_base`, on the `kb_base` of the options that it is given, if these are options. -/
def fioGetKbBase (data : Option Nat) : Nat :=
  let kbBase := data.getD 0
  if kbBase = 0 then 1024 else kbBase

def mulPow (mult : Nat) : Nat → Nat → Nat
  | 0, ret => ret
  | pow + 1, ret => mulPow mult pow (ret * mult % 2 ^ 64)

/-- The table of suffixes in `__get_mult_bytes`: `pow` and `mult`, or nothing for a percentage. The
tests for the two-letter forms follow the ones for the first letter and decide nothing. -/
def suffixPow (kbBase : Nat) (c : List Char) : Option (Nat × Nat) :=
  if "pib".toList.isPrefixOf c then some (5, 1000)
  else if "tib".toList.isPrefixOf c then some (4, 1000)
  else if "gib".toList.isPrefixOf c then some (3, 1000)
  else if "mib".toList.isPrefixOf c then some (2, 1000)
  else if "kib".toList.isPrefixOf c then some (1, 1000)
  else if "p".toList.isPrefixOf c || "pb".toList.isPrefixOf c then some (5, kbBase)
  else if "t".toList.isPrefixOf c || "tb".toList.isPrefixOf c then some (4, kbBase)
  else if "g".toList.isPrefixOf c || "gb".toList.isPrefixOf c then some (3, kbBase)
  else if "m".toList.isPrefixOf c || "mb".toList.isPrefixOf c then some (2, kbBase)
  else if "k".toList.isPrefixOf c || "kb".toList.isPrefixOf c then some (1, kbBase)
  else if "%".toList.isPrefixOf c then none
  else some (0, kbBase)

def multBytes (kbBase : Nat) : Option (List Char) → Nat × Bool
  | none => (1, false)
  | some p =>
    match suffixPow kbBase ((p.map Char.toLower).takeWhile fun c => !isSeparator c) with
    | none => (1, true)
    | some (pow, mult) => (mulPow mult pow 1, false)

def skipNumber : Bool → List Char → List Char
  | _, [] => []
  | digitSeen, c :: s =>
    if !c.isDigit && ((c ≠ '+' && c ≠ '-') || digitSeen) then c :: s
    else skipNumber (digitSeen || c.isDigit) s

def getMultBytes (kbBase : Nat) (str : List Char) : Nat × Bool :=
  if str.length < 2 then multBytes kbBase (some str)
  else
    let p := skipNumber false str
    multBytes kbBase (if p.head?.any fun c => c.isAlpha || c = '%' then some p else none)

def getMultTime (str : List Char) (isSeconds : Bool) : Nat :=
  let p := str.dropWhile fun c => c.isDigit || c = '+' || c = '-'
  if !p.head?.any Char.isAlpha then if isSeconds then 1000000 else 1
  else
    let c := p.map Char.toLower
    if "us".toList.isPrefixOf c || "usec".toList.isPrefixOf c then 1
    else if "ms".toList.isPrefixOf c || "msec".toList.isPrefixOf c then 1000
    else if c = "s".toList then 1000000
    else if c = "m".toList then 60 * 1000000
    else if c = "h".toList then 60 * 60 * 1000000
    else if c = "d".toList then 24 * 60 * 60 * 1000000
    else 1

/-- `str_to_decimal`: what it leaves in `*val` if it returns 0, and nothing if it returns 1. `errno` is
told by whether it is `ERANGE`; `strtoll` sets it, and nothing clears it. -/
def strToDecimal (data : Option Nat) (kilo isSeconds erange : Bool) (str : List Char) :
    Option Int × Bool :=
  if str.length = 0 then (none, erange)
  else
    let base := if (strstr "0x".toList str).isSome || (strstr "0X".toList str).isSome then 16 else 10
    let val := (strtol base str).1
    let erange := erange || (strtol base str).2
    if val = 2 ^ 63 - 1 ∧ erange = true then (none, erange)
    else if kilo then
      let mult := getMultBytes (fioGetKbBase data) str
      (some (if mult.2 then wrap64 (-1 - val) else wrap64 (val * mult.1)), erange)
    else (some (wrap64 (val * getMultTime str isSeconds)), erange)

/-! ## What a size is -/

def sizeSuffixes : List (List Char × Nat × Bool) := [
  ("".toList, 0, false),
  ("k".toList, 1, false), ("kb".toList, 1, false), ("kib".toList, 1, true),
  ("m".toList, 2, false), ("mb".toList, 2, false), ("mib".toList, 2, true),
  ("g".toList, 3, false), ("gb".toList, 3, false), ("gib".toList, 3, true),
  ("t".toList, 4, false), ("tb".toList, 4, false), ("tib".toList, 4, true),
  ("p".toList, 5, false), ("pb".toList, 5, false), ("pib".toList, 5, true)]

structure SizeText where
  digits : List Char
  suffix : List Char
  pow : Nat
  ib : Bool
  digits_ok : ∀ c ∈ digits, c.isDigit = true
  suffix_ok : (suffix.map Char.toLower, pow, ib) ∈ sizeSuffixes

def SizeText.text (s : SizeText) : List Char := s.digits ++ s.suffix

def SizeText.number (s : SizeText) : Nat := digitsValue 10 s.digits

def SizeText.mult (kbBase : Nat) (s : SizeText) : Nat := (if s.ib then 1000 else kbBase) ^ s.pow

def SizeText.size (kbBase : Nat) (s : SizeText) : Nat := s.number * s.mult kbBase

def SizeExact (data : Option Nat) (erange : Bool) (s : SizeText) : Prop :=
  ∀ val, (strToDecimal data true false erange s.text).1 = some val →
    val = s.size (fioGetKbBase data)

/-! ## The suffix -/

theorem mulPow_eq (mult : Nat) (pow ret : Nat) : mulPow mult pow ret % 2 ^ 64 =
    ret * mult ^ pow % 2 ^ 64 := by
  induction pow generalizing ret with
  | zero => rw [mulPow, pow_zero, Nat.mul_one]
  | succ pow ih => rw [mulPow, ih, Nat.mod_mul_mod, pow_succ' mult pow, Nat.mul_assoc]

theorem isAlpha_of_toLower {c : Char} (h : c.toLower.isAlpha = true) : c.isAlpha = true := by
  by_cases hup : c.isUpper = true
  · simp [Char.isAlpha, hup]
  · have hsame : c.toLower = c := by
      unfold Char.toLower
      rw [dif_neg]
      simpa [Char.isUpper] using hup
    rwa [hsame] at h

theorem SizeText.head_isAlpha (s : SizeText) : ∀ c ∈ s.suffix.head?, c.isAlpha = true := by
  intro c hc
  have htable : ∀ e ∈ sizeSuffixes, ∀ d ∈ e.1.head?, d.isAlpha = true := by
    simp [sizeSuffixes]
  apply isAlpha_of_toLower
  apply htable _ s.suffix_ok
  rw [List.head?_map, hc]
  rfl

theorem not_isDigit_of_isAlpha {c : Char} (h : c.isAlpha = true) : c.isDigit = false := by
  simp only [Char.isAlpha, Char.isUpper, Char.isLower, Char.isDigit, Bool.or_eq_true,
    Bool.and_eq_true, decide_eq_true_eq, Bool.and_eq_false_iff, decide_eq_false_iff_not, ge_iff_le,
    UInt32.le_iff_toNat_le] at h ⊢
  have hA : 'A'.val.toNat = 65 := rfl
  have ha : 'a'.val.toNat = 97 := rfl
  have h9 : '9'.val.toNat = 57 := rfl
  omega

theorem skipNumber_digits {ds rest : List Char} (hds : ∀ c ∈ ds, c.isDigit = true)
    (hrest : ∀ c ∈ rest.head?, c.isAlpha = true) (seen : Bool) :
    skipNumber seen (ds ++ rest) = rest := by
  induction ds generalizing seen with
  | nil =>
    cases rest with
    | nil => rfl
    | cons c rest =>
      have hc := hrest c rfl
      have hsign : c ≠ '+' ∧ c ≠ '-' := by
        constructor
        · rintro rfl
          exact absurd hc (by decide)
        · rintro rfl
          exact absurd hc (by decide)
      simp [skipNumber, not_isDigit_of_isAlpha hc, hsign]
  | cons d ds ih =>
    have hd := hds d List.mem_cons_self
    rw [List.cons_append, skipNumber, hd]
    exact ih (fun c hc => hds c (List.mem_cons_of_mem d hc)) _

theorem multBytes_suffix (kbBase : Nat) (s : SizeText) :
    (multBytes kbBase (some s.suffix)).1 % 2 ^ 64 = s.mult kbBase % 2 ^ 64 ∧
      (multBytes kbBase (some s.suffix)).2 = false := by
  have htable : ∀ e ∈ sizeSuffixes, suffixPow kbBase (e.1.takeWhile fun c => !isSeparator c) =
      some (e.2.1, if e.2.2 then 1000 else kbBase) := by
    simp [sizeSuffixes, suffixPow, isSeparator]
  have hpow := htable _ s.suffix_ok
  dsimp only at hpow
  simp only [multBytes, hpow]
  rw [mulPow_eq, Nat.one_mul]
  exact ⟨rfl, trivial⟩

theorem mem_digits {c : Char} (h : c.isDigit = true) : c ∈ "0123456789".toList := by
  simp only [Char.isDigit, Bool.and_eq_true, decide_eq_true_eq, ge_iff_le,
    UInt32.le_iff_toNat_le] at h
  obtain ⟨hlo, hhi⟩ := h
  have hlo : 48 ≤ c.toNat := hlo
  have hhi : c.toNat ≤ 57 := hhi
  rw [← Char.ofNat_toNat c]
  interval_cases c.toNat <;> decide

theorem multBytes_digit (kbBase : Nat) {d : Char} (h : d.isDigit = true) :
    multBytes kbBase (some [d]) = (1, false) := by
  have hall : ∀ d ∈ "0123456789".toList, multBytes kbBase (some [d]) = (1, false) := by
    simp [multBytes, suffixPow, isSeparator, mulPow]
  exact hall d (mem_digits h)

theorem SizeText.mult_of_nil (kbBase : Nat) {s : SizeText} (h : s.suffix = []) : s.mult kbBase = 1 := by
  have hpow := s.suffix_ok
  rw [h] at hpow
  have hzero : s.pow = 0 ∧ s.ib = false := by simpa [sizeSuffixes] using hpow
  rw [SizeText.mult, hzero.1, pow_zero]

/-- **The multiplier that the code finds** behind digits is the one of the suffix. -/
theorem getMultBytes_eq (kbBase : Nat) (s : SizeText) :
    (getMultBytes kbBase s.text).1 % 2 ^ 64 = s.mult kbBase % 2 ^ 64 ∧
      (getMultBytes kbBase s.text).2 = false := by
  have hskip := skipNumber_digits s.digits_ok s.head_isAlpha false
  have hsuffix := multBytes_suffix kbBase s
  unfold getMultBytes
  split
  · -- one character: a digit, or a suffix that multiplies nothing
    rename_i hlen
    cases hd : s.digits with
    | nil => simpa [SizeText.text, hd] using hsuffix
    | cons d ds =>
      have hnil : ds = [] ∧ s.suffix = [] := by
        simp only [SizeText.text, hd, List.length_append, List.length_cons] at hlen
        exact ⟨List.length_eq_zero_iff.mp (by omega), List.length_eq_zero_iff.mp (by omega)⟩
      have hdig : d.isDigit = true := s.digits_ok d (by rw [hd]; exact List.mem_cons_self)
      rw [SizeText.text, hd, hnil.1, hnil.2, List.append_nil, multBytes_digit kbBase hdig,
        s.mult_of_nil kbBase hnil.2]
      exact ⟨rfl, rfl⟩
  · rw [SizeText.text, hskip]
    dsimp only
    cases hs : s.suffix with
    | nil =>
      rw [s.mult_of_nil kbBase hs]
      exact ⟨rfl, rfl⟩
    | cons c rest =>
      have hc := s.head_isAlpha c (by rw [hs]; rfl)
      rw [List.head?_cons, Option.any_some, hc, Bool.true_or, if_pos rfl, ← hs]
      exact hsuffix

/-! ## The value -/

theorem SizeText.endsNumber (s : SizeText) : EndsNumber s.suffix := by
  intro c hc
  have halpha := s.head_isAlpha c hc
  refine ⟨?_, ?_, ?_, ?_⟩
  · simp only [isDigitOf, digitValue, not_isDigit_of_isAlpha halpha, Bool.false_eq_true, if_false,
      decide_eq_false_iff_not, Nat.not_lt]
    split_ifs <;> omega
  · unfold isSpace
    simp only [Bool.or_eq_false_iff, decide_eq_false_iff_not]
    refine ⟨⟨⟨⟨⟨?_, ?_⟩, ?_⟩, ?_⟩, ?_⟩, ?_⟩ <;> (rintro rfl; exact absurd halpha (by decide))
  · rintro rfl
    exact absurd halpha (by decide)
  · rintro rfl
    exact absurd halpha (by decide)

theorem SizeText.no_hex (s : SizeText) : strstr "0x".toList s.text = none ∧
    strstr "0X".toList s.text = none := by
  have hlower : ∀ c ∈ s.text, c.toLower ≠ 'x' := by
    intro c hc
    rcases List.mem_append.mp hc with hc | hc
    · intro h
      have halpha := isAlpha_of_toLower (show c.toLower.isAlpha = true by rw [h]; decide)
      exact absurd (s.digits_ok c hc) (by simp [not_isDigit_of_isAlpha halpha])
    · have htable : ∀ e ∈ sizeSuffixes, 'x' ∉ e.1 := by simp [sizeSuffixes]
      intro h
      exact htable _ s.suffix_ok (h ▸ List.mem_map_of_mem hc)
  constructor
  · exact @strstr_eq_none _ _ 'x' (by decide) fun h => hlower 'x' h (by decide)
  · exact @strstr_eq_none _ _ 'X' (by decide) fun h => hlower 'X' h (by decide)

/-- What `str_to_decimal` makes of a size: nothing if the number does not fit 64 bits, and otherwise
the size modulo `2 ^ 64`. -/
theorem strToDecimal_size (data : Option Nat) (erange : Bool) (s : SizeText) (hne : s.text ≠ []) :
    (strToDecimal data true false erange s.text).1 =
      if 2 ^ 63 ≤ s.number ∨ (s.number = 2 ^ 63 - 1 ∧ erange = true) then none
      else some (wrap64 (s.size (fioGetKbBase data))) := by
  obtain ⟨hmult, hperc⟩ := getMultBytes_eq (fioGetKbBase data) s
  have hread := strtol_digits s.digits_ok s.endsNumber
  have hval : wrap64 ((s.number : Int) * (getMultBytes (fioGetKbBase data) s.text).1) =
      wrap64 (s.size (fioGetKbBase data)) := by
    rw [← Nat.cast_mul]
    exact wrap64_congr (Nat.ModEq.mul_left s.number hmult)
  unfold strToDecimal
  rw [if_neg (by simpa using hne)]
  simp only [s.no_hex, Option.isSome_none, Bool.or_self, Bool.false_eq_true, if_false, hperc, if_true]
  rw [← SizeText.text] at hread
  rw [hread, ← SizeText.number]
  by_cases hbig : s.number < 2 ^ 63
  · simp only [if_pos hbig, Bool.or_false, hval]
    by_cases hstale : s.number = 2 ^ 63 - 1 ∧ erange = true
    · rw [if_pos ⟨by rw [hstale.1]; rfl, hstale.2⟩, if_pos (Or.inr hstale)]
    · rw [if_neg (fun h => hstale ⟨by omega, h.2⟩), if_neg]
      exact not_or.mpr ⟨by omega, hstale⟩
  · simp only [if_neg hbig, Bool.or_true, and_self, if_true]
    rw [if_pos (Or.inl (by omega))]

/-- **Sizes are exact** as long as they fit 63 bits. A number that does not is refused, but a
product that does not is returned as what is left of it: only the number is compared with its bound.
-/
theorem size_exact_iff (data : Option Nat) (erange : Bool) (s : SizeText) :
    SizeExact data erange s ↔ s.size (fioGetKbBase data) < 2 ^ 63 ∨ 2 ^ 63 ≤ s.number ∨
      (s.number = 2 ^ 63 - 1 ∧ erange = true) := by
  -- without any text nothing is parsed, and nothing can be wrong
  by_cases hne : s.text = []
  · have hzero : s.size (fioGetKbBase data) = 0 := by
      have hdig : s.digits = [] := (List.append_eq_nil_iff.mp hne).1
      rw [SizeText.size, SizeText.number, hdig]
      exact Nat.zero_mul _
    rw [hzero]
    refine ⟨fun _ => Or.inl (by decide), fun _ val hval => ?_⟩
    rw [hne] at hval
    exact absurd hval (by simp [strToDecimal])
  unfold SizeExact
  rw [strToDecimal_size data erange s hne]
  -- the number is refused, or its product is what is left modulo the width
  by_cases hrefused : 2 ^ 63 ≤ s.number ∨ (s.number = 2 ^ 63 - 1 ∧ erange = true)
  · rw [if_pos hrefused]
    exact ⟨fun _ => Or.inr hrefused, fun _ val hval => absurd hval (by simp)⟩
  · have hexact := wrap64_eq_self_iff (Int.natCast_nonneg (s.size (fioGetKbBase data)))
    rw [if_neg hrefused]
    constructor
    · intro h
      have hsmall := hexact.mp (h _ rfl)
      exact Or.inl (by omega)
    · intro h val hval
      rw [← Option.some.inj hval, hexact]
      rcases h with h | h
      · omega
      · exact absurd h hrefused

def wideSize : SizeText where
  digits := ['1', '6', '7', '7', '7', '2', '1', '6']
  suffix := ['t']
  pow := 4
  ib := false
  digits_ok := by simp
  suffix_ok := by simp [sizeSuffixes]

/-- Sixteen million terabytes are accepted as a size of zero. -/
theorem wide_size_is_zero :
    (strToDecimal (some 1024) true false false wideSize.text).1 = some 0 ∧
      wideSize.size 1024 = 2 ^ 64 ∧ ¬SizeExact (some 1024) false wideSize := by
  have hval : (strToDecimal (some 1024) true false false wideSize.text).1 = some 0 := by decide
  refine ⟨hval, by decide, fun h => ?_⟩
  exact absurd (h 0 hval) (by decide)

end MysqlBench.Fio
