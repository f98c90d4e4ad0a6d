import MysqlBench.Lib.SqlText

/-!
# Escaping (`dbc_nonsp.c`)

The texts that `payment` has read are put into statements again, each between single quotes.
`dbt2_escape_str` doubles quotes and puts a backslash before backslashes and closing parentheses, and a MySQL
literal takes back just that (`lexFrom_escapeChar`). Each such character makes the text longer by one, up to twice
its length, and the arrays for the escaped texts have no more room than for twice the length: none for the zero
byte behind it.
-/

namespace MysqlBench.Dbt2

open Lib

def IsEscaped (c : Char) : Prop := c = '\x27' ∨ c = '\x5c' ∨ c = ')'

instance decidableIsEscaped (c : Char) : Decidable (IsEscaped c) := inferInstanceAs (Decidable (_ ∨ _ ∨ _))

def escapeChar (c : Char) : List Char :=
  if c = '\x27' then ['\x27', c] else if c = '\x5c' then ['\x5c', c] else if c = ')' then ['\x5c', c] else [c]

def dbt2EscapeStr (orig : List Char) : List Char := (orig.takeWhile (· ≠ '\x00')).flatMap escapeChar

def Fits (size : Nat) (text : List Char) : Prop := text.length + 1 ≤ size

instance decidableFits (size : Nat) (text : List Char) : Decidable (Fits size text) := inferInstanceAs (Decidable (_ ≤ _))

def cDataLen : Nat := 500

def nameLen : Nat := 10

def sizeofMyCData : Nat := 1000

def sizeofMyName : Nat := 20

/-! ## The literal -/

theorem takeWhile_nul {s : List Char} (h : '\x00' ∉ s) : s.takeWhile (· ≠ '\x00') = s := by
  rw [List.takeWhile_eq_self_iff]
  exact fun c hc => decide_eq_true fun heq => h (heq ▸ hc)

theorem lexFrom_flatMap {escape : Char → List Char} (hescape : ∀ c raw value text,
      lexFrom (.inside .single raw value) (escape c ++ text) =
        lexFrom (.inside .single (raw ++ escape c) (value ++ [c])) text) (s raw value text : List Char) :
    lexFrom (.inside .single raw value) (s.flatMap escape ++ text) =
      lexFrom (.inside .single (raw ++ s.flatMap escape) (value ++ s)) text := by
  induction s generalizing raw value with
  | nil => rw [List.flatMap_nil, List.append_nil, List.append_nil, List.nil_append]
  | cons c s ih =>
    rw [List.flatMap_cons, ← List.append_assoc raw, List.append_cons value, ← ih, List.append_assoc, hescape]

theorem lexFrom_escapeChar (c : Char) (raw value text : List Char) :
    lexFrom (.inside .single raw value) (escapeChar c ++ text) =
      lexFrom (.inside .single (raw ++ escapeChar c) (value ++ [c])) text := by
  unfold escapeChar
  split
  · next hc =>
    subst hc
    exact lexFrom_inside_quotes .single raw value _
  · split_ifs with hback hparen
    · subst hback
      exact lexFrom_inside_escape .single raw value _ _
    · subst hparen
      exact lexFrom_inside_escape .single raw value _ _
    · exact lexFrom_inside_char .single raw value _ ‹_› ‹_›

theorem lexFrom_quoted_escaped (s : List Char) :
    lexFrom .outside ('\x27' :: (s.flatMap escapeChar ++ ['\x27'])) =
      [.str ('\x27' :: (s.flatMap escapeChar ++ ['\x27'])) s] := by
  have hopen : lexFrom .outside ('\x27' :: (s.flatMap escapeChar ++ ['\x27'])) =
    lexFrom (.inside .single ['\x27'] []) (s.flatMap escapeChar ++ ['\x27']) := rfl
  rw [hopen, lexFrom_flatMap lexFrom_escapeChar]
  exact lexFrom_inside_quote .single _ _ []

/-! ## The arrays -/

theorem length_escaped (s : List Char) : (s.flatMap escapeChar).length = s.length + s.countP (IsEscaped ·) := by
  induction s with
  | nil => rfl
  | cons c s ih =>
    have hc : (escapeChar c).length = 1 + if IsEscaped c then 1 else 0 := by
      unfold escapeChar IsEscaped
      split_ifs <;> simp_all
    rw [List.flatMap_cons, List.length_append, ih, hc, List.length_cons, List.countP_cons]
    simp only [decide_eq_true_eq]
    omega

theorem fits_escaped_iff {s : List Char} {len : Nat} (h : s.length ≤ len) :
    Fits (2 * len) (s.flatMap escapeChar) ↔ ¬(s.length = len ∧ ∀ c ∈ s, IsEscaped c) := by
  have hcount := List.countP_le_length (p := (IsEscaped ·)) (l := s)
  have hall : s.countP (IsEscaped ·) = s.length ↔ ∀ c ∈ s, IsEscaped c := by simp
  rw [Fits, length_escaped, ← hall]
  omega

theorem not_fits_quotes (len : Nat) : ¬Fits (2 * len) (dbt2EscapeStr (List.replicate len '\x27')) := by
  have hmem : ∀ c ∈ List.replicate len '\x27', c = '\x27' := fun c hc => (List.mem_replicate.mp hc).2
  rw [dbt2EscapeStr, takeWhile_nul fun h => absurd (hmem _ h) (by decide), fits_escaped_iff (List.length_replicate).le,
    not_not]
  exact ⟨List.length_replicate, fun c hc => .inl (hmem c hc)⟩

/-- Between single quotes the escaped text is a literal that denotes the text. It fits into
`my_c_data`, and into `my_w_name` and `my_d_name`, exactly if the text is not as long as it may be
with every character escaped: the arrays have twice the length of the text, and no room for the zero
byte. -/
theorem escaping_fits_iff {s : List Char} (hs : '\x00' ∉ s) :
    lexFrom .outside ('\x27' :: (dbt2EscapeStr s ++ ['\x27'])) = [.str ('\x27' :: (dbt2EscapeStr s ++ ['\x27'])) s] ∧
    (s.length ≤ cDataLen →
      (Fits sizeofMyCData (dbt2EscapeStr s) ↔ ¬(s.length = cDataLen ∧ ∀ c ∈ s, IsEscaped c))) ∧
    (s.length ≤ nameLen →
      (Fits sizeofMyName (dbt2EscapeStr s) ↔ ¬(s.length = nameLen ∧ ∀ c ∈ s, IsEscaped c))) := by
  rw [dbt2EscapeStr, takeWhile_nul hs]
  exact ⟨lexFrom_quoted_escaped s, fits_escaped_iff, fits_escaped_iff⟩

/-- A name of ten quotes, and five hundred of them. -/
theorem quotes_overflow : ¬Fits sizeofMyName (dbt2EscapeStr (List.replicate nameLen '\x27')) ∧
    ¬Fits sizeofMyCData (dbt2EscapeStr (List.replicate cDataLen '\x27')) :=
  ⟨not_fits_quotes nameLen, not_fits_quotes cDataLen⟩

/-- A name with a quote in it. -/
theorem escaping_fits_iff_quote : Fits sizeofMyName (dbt2EscapeStr ['O', '\x27', 'B']) := by
  exact ((escaping_fits_iff (by decide)).2.2 (by decide)).mpr (by decide)

end MysqlBench.Dbt2
