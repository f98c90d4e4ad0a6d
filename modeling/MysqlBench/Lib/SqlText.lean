import Mathlib

/-!
# Text with string literals

A text in SQL is read from left to right: a quote begins a literal, which goes on to the next quote of
the same kind, where two quotes stand for one and a backslash changes what the next character stands
for. `lexFrom` reads a text into its literals, each with the characters it was written with and the
string it denotes, and its other characters.

A template is a text with holes, and each hole is filled with plain characters or with a string, which is
put between quotes as it is. The text should be read as the template with each hole read by itself
(`Template.tokens`). A literal is at least two characters longer than the string it denotes
(`length_of_lexFrom`), so one that is written exactly so long has no escapes; and from this it follows
that a string between quotes is read as itself only if nothing in it and nothing next to it has a meaning
of its own (`template_read_iff`).
-/

namespace MysqlBench.Lib

/-! ## Reading -/

inductive QuoteKind
  | single | double
deriving Repr, DecidableEq

def QuoteKind.char : QuoteKind → Char
  | .single => '\x27'
  | .double => '\x22'

def quoteKind (c : Char) : Option QuoteKind :=
  if c = '\x27' then some .single else if c = '\x22' then some .double else none

def unescape (c : Char) : List Char :=
  if c = '0' then ['\x00']
  else if c = 'b' then ['\x08']
  else if c = 'n' then ['\x0a']
  else if c = 'r' then ['\x0d']
  else if c = 't' then ['\x09']
  else if c = 'Z' then ['\x1a']
  else if c = '%' ∨ c = '_' then ['\x5c', c]
  else [c]

inductive SqlToken
  | char (c : Char)
  /-- A literal as it is written, and the string it denotes. -/
  | str (raw value : List Char)
  /-- A literal without an end. -/
  | unterminated (raw : List Char)
deriving Repr, DecidableEq

inductive LexState
  | outside
  /-- In a literal, of which `raw` has been read so far. -/
  | inside (q : QuoteKind) (raw value : List Char)
  /-- Behind a backslash in it. -/
  | escape (q : QuoteKind) (raw value : List Char)
  /-- Behind a quote in it, which is its end or the first of two. -/
  | quote (q : QuoteKind) (raw value : List Char)
deriving Repr, DecidableEq

def lexOutside (c : Char) : List SqlToken × LexState :=
  match quoteKind c with
  | some q => ([], .inside q [c] [])
  | none => ([.char c], .outside)

def LexState.step : LexState → Char → List SqlToken × LexState
  | .outside, c => lexOutside c
  | .inside q raw value, c =>
    if c = '\x5c' then ([], .escape q (raw ++ [c]) value)
    else if c = q.char then ([], .quote q (raw ++ [c]) value)
    else ([], .inside q (raw ++ [c]) (value ++ [c]))
  | .escape q raw value, c => ([], .inside q (raw ++ [c]) (value ++ unescape c))
  | .quote q raw value, c =>
    if c = q.char then ([], .inside q (raw ++ [c]) (value ++ [c]))
    else (.str raw value :: (lexOutside c).1, (lexOutside c).2)

def LexState.finish : LexState → List SqlToken
  | .outside => []
  | .inside _ raw _ | .escape _ raw _ => [.unterminated raw]
  | .quote _ raw value => [.str raw value]

def lexFrom : LexState → List Char → List SqlToken
  | st, [] => st.finish
  | st, c :: text => (st.step c).1 ++ lexFrom (st.step c).2 text

def lexState (st : LexState) (text : List Char) : LexState := text.foldl (fun st c => (st.step c).2) st

def LexState.IsOutside : LexState → Prop
  | .outside | .quote _ _ _ => True
  | .inside _ _ _ | .escape _ _ _ => False

/-! ## Templates -/

inductive Fill
  | plain (text : List Char)
  | quoted (value : List Char)
deriving Repr, DecidableEq

def Fill.text : Fill → List Char
  | .plain text => text
  | .quoted value => '\x27' :: (value ++ ['\x27'])

def Fill.tokens : Fill → List SqlToken
  | .plain text => text.map .char
  | .quoted value => [.str ('\x27' :: (value ++ ['\x27'])) value]

abbrev Template := List (Char ⊕ Fill)

def Template.text (tpl : Template) : List Char := tpl.flatMap (Sum.elim (fun c => [c]) Fill.text)

def Template.tokens : LexState → Template → List SqlToken
  | st, [] => st.finish
  | st, .inl c :: tpl => (st.step c).1 ++ Template.tokens (st.step c).2 tpl
  | st, .inr fill :: tpl => st.finish ++ fill.tokens ++ Template.tokens .outside tpl

def Template.HolesOutside : LexState → Template → Prop
  | _, [] => True
  | st, .inl c :: tpl => Template.HolesOutside (st.step c).2 tpl
  | st, .inr _ :: tpl => st.IsOutside ∧ Template.HolesOutside .outside tpl

def Fill.Plain : Fill → Prop
  | .plain text => text ≠ [] ∧ ∀ c ∈ text, quoteKind c = none
  | .quoted _ => True

/-- Between quotes the string is read as itself: there is no quote in it, and a backslash only before `%`
or `_`. -/
def SelfDenoting : List Char → Prop
  | [] => True
  | c :: rest =>
    if c = '\x27' then False
    else if c = '\x5c' then
      match rest with
      | [] => False
      | d :: rest => (d = '%' ∨ d = '_') ∧ SelfDenoting rest
    else SelfDenoting rest

theorem not_selfDenoting_quote (rest : List Char) : ¬SelfDenoting ('\x27' :: rest) := by
  rw [SelfDenoting.eq_def]
  exact not_false

theorem not_selfDenoting_backslash : ¬SelfDenoting ['\x5c'] := by
  rw [SelfDenoting.eq_def]
  exact not_false

theorem selfDenoting_backslash (d : Char) (rest : List Char) :
    SelfDenoting ('\x5c' :: d :: rest) ↔ (d = '%' ∨ d = '_') ∧ SelfDenoting rest := by
  rw [SelfDenoting.eq_def]
  exact Iff.rfl

theorem selfDenoting_char {c : Char} (hquote : c ≠ '\x27') (hback : c ≠ '\x5c') (rest : List Char) :
    SelfDenoting (c :: rest) ↔ SelfDenoting rest := by
  rw [SelfDenoting.eq_def]
  dsimp only
  rw [if_neg hquote, if_neg hback]

def Template.AtQuote (x : Char ⊕ Fill) : Prop := x = .inl '\x27' ∨ ∃ value, x = .inr (.quoted value)

instance Template.instDecidableAtQuote : (x : Char ⊕ Fill) → Decidable (AtQuote x)
  | .inl c => decidable_of_iff (c = '\x27') (by simp [AtQuote])
  | .inr (.plain text) => isFalse (by simp [AtQuote])
  | .inr (.quoted value) => isTrue (Or.inr ⟨value, rfl⟩)

def Template.Separated (tpl : Template) : Prop :=
  ∀ before x y after, tpl = before ++ x :: y :: after →
    (∃ value, x = .inr (.quoted value) ∨ y = .inr (.quoted value)) → ¬(AtQuote x ∧ AtQuote y)

/-! ## Literals -/

theorem unescape_wildcard {c : Char} (h : c = '%' ∨ c = '_') : unescape c = ['\x5c', c] := by
  obtain rfl | rfl := h <;> rfl

theorem length_unescape (c : Char) :
    (unescape c).length = if c = '%' ∨ c = '_' then 2 else 1 := by
  by_cases h : c = '%' ∨ c = '_'
  · rw [unescape_wildcard h, if_pos h]
    rfl
  · rw [if_neg h]
    unfold unescape
    split_ifs <;> rfl

/-- A literal of which something has been read is at least so much longer than its string. -/
def LexState.Leads (raw value : List Char) : LexState → Prop
  | .outside => True
  | .inside _ r v => r.length + value.length + 1 ≤ raw.length + v.length
  | .escape _ r v | .quote _ r v => r.length + value.length ≤ raw.length + v.length

theorem length_of_lexFrom {raw value : List Char} {rest : List SqlToken} (text : List Char)
    (st : LexState) (h : lexFrom st text = .str raw value :: rest) : st.Leads raw value := by
  induction text generalizing st with
  | nil =>
    cases st with
    | outside => trivial
    | inside q r v => exact absurd h (by simp [lexFrom, LexState.finish])
    | escape q r v => exact absurd h (by simp [lexFrom, LexState.finish])
    | quote q r v =>
      obtain ⟨rfl, rfl⟩ := SqlToken.str.inj (List.cons.inj h).1
      exact le_refl _
  | cons c text ih =>
    cases st with
    | outside => trivial
    | inside q r v =>
      rw [lexFrom, LexState.step] at h
      split_ifs at h
      · have hnext := ih _ h
        simp only [LexState.Leads, List.length_append, List.length_singleton] at hnext ⊢
        omega
      · have hnext := ih _ h
        simp only [LexState.Leads, List.length_append, List.length_singleton] at hnext ⊢
        omega
      · have hnext := ih _ h
        simp only [LexState.Leads, List.length_append, List.length_singleton] at hnext ⊢
        omega
    | escape q r v =>
      rw [lexFrom, LexState.step] at h
      have hnext := ih _ h
      -- an escape sequence of two characters is read as at most two
      have hlen := length_unescape c
      simp only [LexState.Leads, List.length_append, List.length_singleton] at hnext ⊢
      split_ifs at hlen <;> omega
    | quote q r v =>
      rw [lexFrom, LexState.step] at h
      split_ifs at h
      · have hnext := ih _ h
        simp only [LexState.Leads, List.length_append, List.length_singleton] at hnext ⊢
        omega
      · obtain ⟨rfl, rfl⟩ := SqlToken.str.inj (List.cons.inj h).1
        exact le_refl _

theorem lexFrom_quote (q : QuoteKind) (raw value text : List Char) :
    lexFrom (.quote q raw value) text =
      if text.head? = some q.char then
        lexFrom (.inside q (raw ++ [q.char]) (value ++ [q.char])) text.tail
      else .str raw value :: lexFrom .outside text := by
  cases text with
  | nil => rfl
  | cons c text =>
    rw [lexFrom, LexState.step, List.head?_cons, List.tail_cons]
    by_cases h : c = q.char
    · subst h
      rw [if_pos rfl, if_pos rfl]
      rfl
    · rw [if_neg h, if_neg fun hc => h (Option.some.inj hc)]
      rfl

section Inside

variable (q : QuoteKind) (raw value text : List Char)

theorem lexFrom_inside_quote : lexFrom (.inside q raw value) (q.char :: text) =
    lexFrom (.quote q (raw ++ [q.char]) value) text := by
  have hne : q.char ≠ '\x5c' := by cases q <;> decide
  rw [lexFrom, LexState.step, if_neg hne, if_pos rfl, List.nil_append]

theorem lexFrom_inside_quotes : lexFrom (.inside q raw value) (q.char :: q.char :: text) =
    lexFrom (.inside q (raw ++ [q.char, q.char]) (value ++ [q.char])) text := by
  rw [lexFrom_inside_quote, lexFrom_quote, List.head?_cons, if_pos rfl, List.tail_cons, List.append_assoc]
  rfl

theorem lexFrom_inside_escape (c : Char) : lexFrom (.inside q raw value) ('\x5c' :: c :: text) =
    lexFrom (.inside q (raw ++ ['\x5c', c]) (value ++ unescape c)) text := by
  rw [lexFrom, LexState.step, if_pos rfl, List.nil_append, lexFrom, LexState.step, List.nil_append,
    List.append_assoc]
  rfl

theorem lexFrom_inside_char {c : Char} (hc : c ≠ '\x5c') (hq : c ≠ q.char) :
    lexFrom (.inside q raw value) (c :: text) =
      lexFrom (.inside q (raw ++ [c]) (value ++ [c])) text := by
  rw [lexFrom, LexState.step, if_neg hc, if_neg hq, List.nil_append]

end Inside

/-- A string between quotes is read as itself, and no further than it goes, exactly if nothing in it
and nothing behind it says otherwise. -/
theorem lexFrom_inside_iff (value raw done : List Char) (text : List Char) (rest : List SqlToken) :
    lexFrom (.inside .single raw done) (value ++ '\x27' :: text) =
        .str (raw ++ value ++ ['\x27']) (done ++ value) :: rest ↔
      SelfDenoting value ∧ text.head? ≠ some '\x27' ∧ lexFrom .outside text = rest := by
  -- in the bad cases the literal would be too short for its string
  induction value using SelfDenoting.induct generalizing raw done with
  | case1 =>
    rw [List.nil_append, List.append_nil, List.append_nil]
    refine Iff.trans (Eq.congr_left (lexFrom_inside_quote .single raw done text)) ?_
    rw [lexFrom_quote]
    by_cases hhead : text.head? = some QuoteKind.single.char
    · rw [if_pos hhead]
      refine iff_of_false (fun h => ?_) fun h => h.2.1 hhead
      have hlen := length_of_lexFrom _ _ h
      simp only [LexState.Leads, List.length_append, List.length_singleton] at hlen
      omega
    · rw [if_neg hhead]
      constructor
      · exact fun h => ⟨trivial, hhead, (List.cons.inj h).2⟩
      · exact fun h => congrArg _ h.2.2
  | case2 more =>
    refine iff_of_false (fun h => ?_) fun h => not_selfDenoting_quote more h.1
    rw [List.cons_append] at h
    have hquote := (lexFrom_inside_quote .single raw done _).symm.trans h
    rw [lexFrom_quote] at hquote
    split_ifs at hquote
    · have hlen := length_of_lexFrom _ _ hquote
      simp only [LexState.Leads, List.length_append, List.length_cons] at hlen
      omega
    · have hraw := congrArg List.length (SqlToken.str.inj (List.cons.inj hquote).1).1
      simp only [List.length_append, List.length_cons] at hraw
      omega
  | case3 _ =>
    refine iff_of_false (fun h => ?_) fun h => not_selfDenoting_backslash h.1
    rw [List.singleton_append, lexFrom_inside_escape] at h
    have hlen := length_of_lexFrom _ _ h
    simp only [LexState.Leads, List.length_append, List.length_cons, List.length_nil,
      length_unescape] at hlen
    rw [if_neg (by decide)] at hlen
    omega
  | case4 d more _ ih =>
    rw [List.cons_append, List.cons_append, lexFrom_inside_escape]
    by_cases hd : d = '%' ∨ d = '_'
    · have hmore := ih (raw ++ ['\x5c', d]) (done ++ ['\x5c', d])
      simp only [List.append_assoc, List.cons_append, List.nil_append] at hmore
      rw [unescape_wildcard hd]
      simp only [List.append_assoc, List.cons_append]
      rw [hmore, selfDenoting_backslash, and_iff_right hd]
    · refine iff_of_false (fun h => ?_) fun h => ?_
      · have hlen := length_of_lexFrom _ _ h
        simp only [LexState.Leads, List.length_append, List.length_cons, List.length_nil,
          length_unescape] at hlen
        rw [if_neg hd] at hlen
        omega
      · exact hd ((selfDenoting_backslash d more).mp h.1).1
  | case5 c more hquote hback ih =>
    have hmore := ih (raw ++ [c]) (done ++ [c])
    simp only [List.append_assoc, List.cons_append, List.nil_append] at hmore
    rw [List.cons_append, lexFrom_inside_char .single raw done _ hback hquote]
    simp only [List.append_assoc, List.cons_append]
    rw [hmore, selfDenoting_char hquote hback]

/-! ## Reading a template -/

theorem lexFrom_isOutside {st : LexState} (h : st.IsOutside) {text : List Char}
    (hhead : ∀ q raw value, st = .quote q raw value → text.head? ≠ some q.char) :
    lexFrom st text = st.finish ++ lexFrom .outside text := by
  cases st with
  | outside => rfl
  | inside q raw value => exact h.elim
  | escape q raw value => exact h.elim
  | quote q raw value =>
    rw [lexFrom_quote, if_neg (hhead q raw value rfl)]
    rfl

theorem quoteKind_char (q : QuoteKind) : quoteKind q.char = some q := by
  cases q <;> rfl

theorem lexFrom_plain {plain : List Char} (h : ∀ c ∈ plain, quoteKind c = none) (text : List Char) :
    lexFrom .outside (plain ++ text) = plain.map .char ++ lexFrom .outside text := by
  induction plain with
  | nil => rfl
  | cons c plain ih =>
    rw [List.cons_append, lexFrom, LexState.step, lexOutside, h c List.mem_cons_self,
      ih fun d hd => h d (List.mem_cons_of_mem c hd)]
    rfl

namespace Template

variable {c : Char} {tpl : Template} {st : LexState}

theorem text_char (c : Char) (tpl : Template) : Template.text (.inl c :: tpl) = c :: tpl.text := rfl

theorem text_hole (fill : Fill) (tpl : Template) :
    Template.text (.inr fill :: tpl) = fill.text ++ tpl.text := rfl

theorem separated_cons (x : Char ⊕ Fill) (tpl : Template) :
    Separated (x :: tpl) ↔ Separated tpl ∧ ∀ y after, tpl = y :: after →
      (∃ value, x = .inr (.quoted value) ∨ y = .inr (.quoted value)) → ¬(AtQuote x ∧ AtQuote y) := by
  constructor
  · intro h
    refine ⟨fun before a b after heq => h (x :: before) a b after (by rw [heq]; rfl), ?_⟩
    exact fun y after heq => h [] x y after (by rw [heq]; rfl)
  · rintro ⟨htail, hhead⟩ before a b after heq
    cases before with
    | nil =>
      obtain ⟨rfl, hrest⟩ := List.cons.inj heq
      exact hhead b after hrest
    | cons d before => exact htail before a b after (List.cons.inj heq).2

theorem separated_of_isChain (h : tpl.IsChain fun x y => ¬(AtQuote x ∧ AtQuote y)) :
    Separated tpl := by
  rintro before x y after rfl -
  exact (List.isChain_cons_cons.mp (List.isChain_append.mp h).2.1).1

theorem head_text_iff (hplain : ∀ fill, .inr fill ∈ tpl → fill.Plain) :
    tpl.text.head? = some '\x27' ↔ ∃ x after, tpl = x :: after ∧ AtQuote x := by
  cases tpl with
  | nil => exact iff_of_false (by simp [Template.text]) (by simp)
  | cons x tpl =>
    have hiff : (∃ y after, x :: tpl = y :: after ∧ AtQuote y) ↔ AtQuote x := by
      constructor
      · rintro ⟨y, after, heq, hy⟩
        rwa [(List.cons.inj heq).1]
      · exact fun hx => ⟨x, tpl, rfl, hx⟩
    rw [hiff]
    cases x with
    | inl c =>
      rw [text_char, List.head?_cons]
      simp [AtQuote]
    | inr fill =>
      rw [text_hole]
      cases fill with
      | plain text =>
        obtain ⟨hne, hclean⟩ := hplain _ List.mem_cons_self
        obtain ⟨c, text, rfl⟩ := List.exists_cons_of_ne_nil hne
        have hc := hclean c List.mem_cons_self
        refine iff_of_false (fun h => ?_) (by simp [AtQuote])
        rw [Option.some.inj h] at hc
        exact absurd hc (by decide)
      | quoted value => exact iff_of_true rfl (Or.inr ⟨value, rfl⟩)

def StartsApart (st : LexState) (tpl : Template) : Prop :=
  ∀ raw done value after, st = .quote .single raw done → tpl ≠ .inr (.quoted value) :: after

theorem startsApart_outside (tpl : Template) : StartsApart .outside tpl :=
  fun _ _ _ _ h => absurd h (by simp)

theorem quote_single_iff (h : (st.step c).2.IsOutside) :
    (∃ raw done, (st.step c).2 = .quote .single raw done) ↔ c = '\x27' := by
  -- outside of a literal a single quote opens one
  have houtside : (lexOutside c).2.IsOutside →
      ((∃ raw done, (lexOutside c).2 = .quote .single raw done) ↔ c = '\x27') := by
    unfold lexOutside
    cases hc : quoteKind c with
    | some q => exact fun hin => hin.elim
    | none =>
      refine fun _ => iff_of_false (by simp) ?_
      rintro rfl
      exact absurd hc (by decide)
  cases st with
  | outside => exact houtside h
  | inside q raw value =>
    rw [LexState.step] at h ⊢
    split_ifs at h ⊢ with hback hquote
    · exact h.elim
    · subst hquote
      cases q with
      | single => exact iff_of_true ⟨_, _, rfl⟩ rfl
      | double => exact iff_of_false (by simp) (by decide)
    · exact h.elim
  | escape q raw value => exact h.elim
  | quote q raw value =>
    rw [LexState.step] at h ⊢
    split_ifs at h ⊢ with hquote
    · exact h.elim
    · exact houtside h

theorem read_quoted_iff {st : LexState} (hst : st.IsOutside) (value text : List Char)
    (rest : List SqlToken) :
    lexFrom st ((Fill.quoted value).text ++ text) = st.finish ++ (Fill.quoted value).tokens ++ rest ↔
      SelfDenoting value ∧ text.head? ≠ some '\x27' ∧ (∀ raw done, st ≠ .quote .single raw done) ∧
        lexFrom .outside text = rest := by
  have htext : (Fill.quoted value).text ++ text = '\x27' :: (value ++ '\x27' :: text) := by
    simp [Fill.text]
  rw [htext]
  -- a quote directly behind a literal would continue it, with a text that is longer
  by_cases hsingle : ∃ raw done, st = .quote .single raw done
  · obtain ⟨raw, done, rfl⟩ := hsingle
    refine iff_of_false (fun h => ?_) fun h => h.2.2.1 raw done rfl
    rw [lexFrom_quote, if_pos (show List.head? _ = some QuoteKind.single.char from rfl)] at h
    have hlen := length_of_lexFrom _ _ h
    simp only [LexState.Leads, List.length_append, List.length_singleton] at hlen
    omega
  · have hne : ∀ raw done, st ≠ .quote .single raw done := fun raw done heq => hsingle ⟨raw, done, heq⟩
    have hsplit : lexFrom st ('\x27' :: (value ++ '\x27' :: text)) =
        st.finish ++ lexFrom .outside ('\x27' :: (value ++ '\x27' :: text)) := by
      refine lexFrom_isOutside hst fun q raw done heq => ?_
      cases q with
      | single => exact absurd heq (hne raw done)
      | double => exact fun h => absurd (Option.some.inj h) (by decide)
    have hopen : lexFrom .outside ('\x27' :: (value ++ '\x27' :: text)) =
        lexFrom (.inside .single ['\x27'] []) (value ++ '\x27' :: text) := rfl
    have hiff := lexFrom_inside_iff value ['\x27'] [] text rest
    rw [List.nil_append, List.singleton_append, List.cons_append] at hiff
    rw [hsplit, hopen, List.append_assoc, List.append_cancel_left_eq, Fill.tokens,
      List.singleton_append, hiff]
    exact ⟨fun ⟨hself, hhead, hrest⟩ => ⟨hself, hhead, hne, hrest⟩,
      fun ⟨hself, hhead, _, hrest⟩ => ⟨hself, hhead, hrest⟩⟩

theorem read_plain_iff (hst : st.IsOutside) {plain : List Char}
    (hplain : (Fill.plain plain).Plain) (text : List Char) (rest : List SqlToken) :
    lexFrom st ((Fill.plain plain).text ++ text) = st.finish ++ (Fill.plain plain).tokens ++ rest ↔
      lexFrom .outside text = rest := by
  obtain ⟨hne, hclean⟩ := hplain
  have hsplit : lexFrom st (plain ++ text) = st.finish ++ lexFrom .outside (plain ++ text) := by
    refine lexFrom_isOutside hst fun q raw done _ h => ?_
    obtain ⟨c, plain, rfl⟩ := List.exists_cons_of_ne_nil hne
    have hc := hclean c List.mem_cons_self
    rw [Option.some.inj h, quoteKind_char] at hc
    exact absurd hc (by simp)
  rw [Fill.text, Fill.tokens, hsplit, lexFrom_plain hclean, List.append_assoc,
    List.append_cancel_left_eq, List.append_cancel_left_eq]

theorem startsApart_step_iff
    (hholes : HolesOutside (st.step c).2 tpl) :
    StartsApart (st.step c).2 tpl ↔ ∀ y after, tpl = y :: after →
      (∃ value, Sum.inl c = Sum.inr (Fill.quoted value) ∨ y = .inr (.quoted value)) →
        ¬(AtQuote (.inl c) ∧ AtQuote y) := by
  constructor
  · rintro h y after rfl ⟨value, hfill | rfl⟩
    · exact absurd hfill (by simp)
    · rintro ⟨hc | ⟨_, hc⟩, -⟩
      · obtain ⟨raw, done, hquote⟩ := (quote_single_iff hholes.1).mpr (Sum.inl.inj hc)
        exact h raw done value after hquote rfl
      · exact absurd hc (by simp)
  · rintro h raw done value after hquote rfl
    have hc := (quote_single_iff hholes.1).mp ⟨raw, done, hquote⟩
    exact h _ after rfl ⟨value, Or.inr rfl⟩ ⟨Or.inl (congrArg _ hc), Or.inr ⟨value, rfl⟩⟩

theorem read_iff (tpl : Template) (st : LexState) (hholes : HolesOutside st tpl)
    (hplain : ∀ fill, .inr fill ∈ tpl → fill.Plain) :
    lexFrom st tpl.text = tpl.tokens st ↔
      (∀ value, .inr (.quoted value) ∈ tpl → SelfDenoting value) ∧ Separated tpl ∧
        StartsApart st tpl := by
  induction tpl generalizing st with
  | nil =>
    refine iff_of_true rfl ⟨fun _ h => absurd h (by simp), ?_, fun _ _ _ _ _ => by simp⟩
    exact fun before x y after heq => absurd heq (by simp)
  | cons x tpl ih =>
    have hrest : ∀ fill, .inr fill ∈ tpl → fill.Plain :=
      fun fill h => hplain fill (List.mem_cons_of_mem x h)
    rw [separated_cons]
    cases x with
    -- a character of the statement itself
    | inl c =>
      rw [text_char, lexFrom, Template.tokens, List.append_cancel_left_eq, ih _ hholes hrest,
        startsApart_step_iff hholes]
      constructor
      · rintro ⟨hself, hsep, hnext⟩
        refine ⟨fun value h => hself value ?_, ⟨hsep, hnext⟩, fun _ _ _ _ _ => by simp⟩
        simpa using h
      · rintro ⟨hself, ⟨hsep, hnext⟩, -⟩
        exact ⟨fun value h => hself value (List.mem_cons_of_mem _ h), hsep, hnext⟩
    | inr fill =>
      obtain ⟨hst, hholes⟩ := hholes
      cases fill with
      | plain text =>
        rw [text_hole, Template.tokens, read_plain_iff hst (hplain _ List.mem_cons_self),
          ih _ hholes hrest]
        constructor
        · rintro ⟨hself, hsep, -⟩
          refine ⟨fun value h => hself value (by simpa using h), ⟨hsep, ?_⟩, fun _ _ _ _ _ => by simp⟩
          -- a plain text neither ends nor starts with a quote
          rintro y after - - ⟨hx, -⟩
          exact absurd hx (by simp [AtQuote])
        · rintro ⟨hself, ⟨hsep, -⟩, -⟩
          exact ⟨fun value h => hself value (List.mem_cons_of_mem _ h), hsep, startsApart_outside tpl⟩
      | quoted value =>
        rw [text_hole, Template.tokens, read_quoted_iff hst, ih _ hholes hrest, ne_eq,
          head_text_iff hrest]
        constructor
        · rintro ⟨hvalue, hhead, hquote, hself, hsep, -⟩
          -- the quote that closes this value must not meet another one
          refine ⟨fun v h => ?_, ⟨hsep, fun y after htpl _ hat => hhead ⟨y, after, htpl, hat.2⟩⟩,
            fun raw done _ _ hst => absurd hst (hquote raw done)⟩
          obtain heq | htail := List.mem_cons.mp h
          · rwa [Fill.quoted.inj (Sum.inr.inj heq)]
          · exact hself v htail
        · rintro ⟨hself, ⟨hsep, hnext⟩, hstart⟩
          refine ⟨hself value List.mem_cons_self, ?_, fun raw done hst => hstart raw done value tpl hst rfl,
            fun v h => hself v (List.mem_cons_of_mem _ h), hsep, startsApart_outside tpl⟩
          rintro ⟨y, after, htpl, hy⟩
          exact hnext y after htpl ⟨value, Or.inl rfl⟩ ⟨Or.inr ⟨value, rfl⟩, hy⟩

end Template

/-- A template whose holes are outside of literals is read as it should be if and only if every string
is read as itself and none is next to a quote. -/
theorem template_read_iff (tpl : Template) (hholes : tpl.HolesOutside .outside)
    (hplain : ∀ fill, .inr fill ∈ tpl → fill.Plain) :
    lexFrom .outside tpl.text = tpl.tokens .outside ↔
      (∀ value, .inr (.quoted value) ∈ tpl → SelfDenoting value) ∧ tpl.Separated := by
  rw [Template.read_iff tpl .outside hholes hplain]
  exact ⟨fun h => ⟨h.1, h.2.1⟩, fun h => ⟨h.1, h.2, Template.startsApart_outside tpl⟩⟩

end MysqlBench.Lib
