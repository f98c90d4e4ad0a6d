import MysqlBench.Sysbench.Emulation.Buffer

/-!
# What an emulated statement means

The statement with its bound values is a template: question marks are the holes, and a string goes
between quotes as it is. The query that is sent is the text of this template (`template_runs`), so what it
means is the question that `template_read_iff` answers: it is the statement with the values in their
places if and only if no string has a quote or a meaningful backslash in it and none stands next to a
quote or another string (`emulated_right_iff`).
-/

namespace MysqlBench.Sysbench

open Lib

/-! ## Statements and values -/

def DbBind.Supported (var : DbBind) : Prop :=
  var.isNull = true ∨
    match var.value with
    | .tinyint _ | .smallint _ | .int _ | .bigint _ | .char _ | .varchar _ => True
    | _ => False

def DbBind.fill (var : DbBind) : Fill :=
  if var.isNull then .plain "NULL".toList
  else
    match var.value with
    | .char s | .varchar s => .quoted s.val
    | _ => .plain (var.printed.getD [])

def bindTemplate : List Char → List DbBind → Template
  | [], _ => []
  | c :: query, bound =>
    if c = '?' then
      match bound with
      | [] => .inl c :: bindTemplate query []
      | var :: bound => .inr var.fill :: bindTemplate query bound
    else .inl c :: bindTemplate query bound

def AllPlaceholders (query : List Char) : Prop :=
  ∀ before after, query = before ++ '?' :: after → (lexState .outside before).IsOutside

def readInt : List Char → Int
  | '-' :: digits => -(Nat.ofDigitChars 10 digits 0 : Int)
  | digits => Nat.ofDigitChars 10 digits 0

def DbBind.DenotedBy (var : DbBind) (text : List Char) : Prop :=
  if var.isNull then text = "NULL".toList
  else
    match var.value with
    | .tinyint x => readInt text = x.toInt
    | .smallint x => readInt text = x.toInt
    | .int x => readInt text = x.toInt
    | .bigint x => readInt text = x.toInt
    | .char s | .varchar s => lexFrom .outside text = [.str text s.val]
    | _ => False

/-- The function ends, without having left its buffer, and the query it sends is read as the statement
with a literal for each bound value in its place. -/
def EmulatedRight (query : CText) (bound : List DbBind) : Prop :=
  ∃ text, (∃ fuel, mysqlDrvExecute fuel query bound = some ⟨.sent text, true⟩) ∧
    lexFrom .outside text = (bindTemplate query.val bound).tokens .outside ∧
    ∀ var ∈ bound.take (query.val.count '?'), var.DenotedBy var.fill.text

structure Harmless (query : CText) (bound : List DbBind) : Prop where
  strings : ∀ value, .inr (.quoted value) ∈ bindTemplate query.val bound → SelfDenoting value
  apart : (bindTemplate query.val bound).Separated
  total : (bindTemplate query.val bound).text.length < 2 ^ 31
  first : ∀ fill rest, bindTemplate query.val bound = .inr fill :: rest → fill.text.length < 2 ^ 30

/-! ## Values -/

variable {x : Int} {c : Char} {var : DbBind} {bound : List DbBind} {tpl : Template}

theorem printInt_ne_nil (x : Int) : printInt x ≠ [] := by
  unfold printInt
  split_ifs
  · exact List.cons_ne_nil _ _
  · exact toDigits_ne_nil _

theorem mem_printInt (h : c ∈ printInt x) : c = '-' ∨ c.isDigit = true := by
  have hdigit : c ∈ Nat.toDigits 10 x.natAbs → c.isDigit = true :=
    fun hc => Nat.isDigit_of_mem_toDigits (by omega) (by omega) hc
  unfold printInt at h
  split_ifs at h
  · obtain rfl | hc := List.mem_cons.mp h
    · exact Or.inl rfl
    · exact Or.inr (hdigit hc)
  · exact Or.inr (hdigit h)

theorem readInt_printInt (x : Int) : readInt (printInt x) = x := by
  have hvalue := @Nat.ofDigitChars_toDigits 10 x.natAbs (by omega) (by omega)
  unfold printInt
  split_ifs with hneg
  · rw [readInt, hvalue]
    omega
  · have hdigits : readInt (Nat.toDigits 10 x.natAbs) = Nat.ofDigitChars 10 (Nat.toDigits 10 x.natAbs) 0 := by
      unfold readInt
      split
      · rename_i digits hdigits
        have hminus : ('-').isDigit = true :=
          Nat.isDigit_of_mem_toDigits (b := 10) (n := x.natAbs) (by omega) (by omega)
            (by rw [hdigits]; exact List.mem_cons_self)
        exact absurd hminus (by decide)
      · rfl
    rw [hdigits, hvalue]
    omega

theorem printInt_plain (x : Int) :
    (Fill.plain (printInt x)).Plain ∧ '\x00' ∉ printInt x := by
  refine ⟨⟨printInt_ne_nil x, fun c hc => ?_⟩, fun hzero => ?_⟩
  · unfold quoteKind
    obtain rfl | hdigit := mem_printInt hc
    · decide
    · rw [if_neg (by rintro rfl; exact absurd hdigit (by decide)),
        if_neg (by rintro rfl; exact absurd hdigit (by decide))]
  · obtain h | h := mem_printInt hzero
    · exact absurd h (by decide)
    · exact absurd h (by decide)

structure FillOk (var : DbBind) : Prop where
  printed : var.printed = some var.fill.text
  ne_nil : var.fill.text ≠ []
  plain : var.fill.Plain
  noZero : '\x00' ∉ var.fill.text
  denoted : (∀ value, var.fill = .quoted value → SelfDenoting value) → var.DenotedBy var.fill.text

theorem fillOk_int (hprinted : var.printed = some (printInt x))
    (hfill : var.fill = .plain (printInt x))
    (hdenoted : ∀ text, readInt text = x → var.DenotedBy text) : FillOk var := by
  obtain ⟨hplain, hzero⟩ := printInt_plain x
  exact {
    printed := by rw [hprinted, hfill]; rfl
    ne_nil := by rw [hfill]; exact printInt_ne_nil x
    plain := by rw [hfill]; exact hplain
    noZero := by rw [hfill]; exact hzero
    denoted := fun _ => by rw [hfill]; exact hdenoted _ (readInt_printInt x) }

theorem fillOk_string {s : CText} (hprinted : var.printed = some (printQuoted s.val))
    (hfill : var.fill = .quoted s.val)
    (hdenoted : ∀ text, lexFrom .outside text = [.str text s.val] → var.DenotedBy text) :
    FillOk var where
  printed := by rw [hprinted, hfill]; rfl
  ne_nil := by rw [hfill]; exact List.cons_ne_nil _ _
  plain := by rw [hfill]; exact trivial
  noZero := by
    rw [hfill, Fill.text, List.mem_cons, List.mem_append, List.mem_singleton]
    rintro (h | h | h)
    · exact absurd h (by decide)
    · exact s.property h
    · exact absurd h (by decide)
  denoted hself := by
    have hread := (@Template.read_quoted_iff .outside trivial s.val [] []).mpr
      ⟨hself _ hfill, by simp, by simp, rfl⟩
    rw [List.append_nil] at hread
    rw [hfill]
    exact hdenoted _ hread

theorem fillOk (h : var.Supported) : FillOk var := by
  obtain ⟨value, isNull⟩ := var
  cases isNull with
  | true =>
    have hfill : (DbBind.mk value true).fill = .plain ['N', 'U', 'L', 'L'] := rfl
    exact {
      printed := rfl
      ne_nil := by rw [hfill]; exact List.cons_ne_nil _ _
      plain := by rw [hfill]; exact ⟨List.cons_ne_nil _ _, by simp [quoteKind]⟩
      noZero := by rw [hfill]; decide
      denoted := fun _ => rfl }
  | false =>
    obtain hnull | hvalue := h
    · exact absurd hnull (by simp)
    · cases value with
      | tinyint x => exact fillOk_int (x := x.toInt) rfl rfl fun _ h => h
      | smallint x => exact fillOk_int (x := x.toInt) rfl rfl fun _ h => h
      | int x => exact fillOk_int (x := x.toInt) rfl rfl fun _ h => h
      | bigint x => exact fillOk_int (x := x.toInt) rfl rfl fun _ h => h
      | char s => exact fillOk_string (s := s) rfl rfl fun _ h => h
      | varchar s => exact fillOk_string (s := s) rfl rfl fun _ h => h
      | none => exact hvalue.elim
      | float printed => exact hvalue.elim
      | double printed => exact hvalue.elim
      | time tm => exact hvalue.elim
      | date tm => exact hvalue.elim
      | datetime tm => exact hvalue.elim
      | timestamp tm => exact hvalue.elim

/-! ## The text that is sent -/

def FitsFrom : List Char → Template → Prop
  | _, [] => True
  | text, .inl c :: tpl => text.length + 1 < 2 ^ 31 ∧ FitsFrom (text ++ [c]) tpl
  | text, .inr fill :: tpl => ValueFits text fill.text ∧ FitsFrom (text ++ fill.text) tpl

structure Bound (query : List Char) (bound : List DbBind) : Prop where
  enough : query.count '?' ≤ bound.length
  supported : ∀ var ∈ bound, var.Supported

theorem Bound.char {query : List Char} (h : Bound (c :: query) bound)
    (hc : c ≠ '?') : Bound query bound := by
  refine ⟨?_, h.supported⟩
  have henough := h.enough
  rwa [List.count_cons_of_ne hc] at henough

theorem Bound.value {query : List Char} (h : Bound ('?' :: query) bound) :
    ∃ var more, bound = var :: more ∧ var.Supported ∧ Bound query more := by
  have henough := h.enough
  rw [List.count_cons_self] at henough
  obtain ⟨var, more, rfl⟩ := List.exists_cons_of_length_pos (by omega : 0 < bound.length)
  refine ⟨var, more, rfl, h.supported var List.mem_cons_self, ?_,
    fun v hv => h.supported v (List.mem_cons_of_mem _ hv)⟩
  rw [List.length_cons] at henough
  omega

theorem bindTemplate_char (hc : c ≠ '?') (query : List Char) (bound : List DbBind) :
    bindTemplate (c :: query) bound = .inl c :: bindTemplate query bound := if_neg hc

theorem bindTemplate_value (query : List Char) (var : DbBind) (bound : List DbBind) :
    bindTemplate ('?' :: query) (var :: bound) = .inr var.fill :: bindTemplate query bound := rfl

theorem AtHead.finish {st : ExecState} {text : List Char} (h : AtHead st text)
    (hne : text ≠ []) (hrest : st.rest = []) (hzero : '\x00' ∉ text) :
    Runs bound st ⟨.sent text, true⟩ := by
  obtain ⟨hnil, -⟩ | ⟨-, -, k, hat⟩ := h
  · exact absurd hnil hne
  · refine Runs.of_end ?_
    rw [execStep, hrest]
    dsimp only
    rw [hat.closed_text hzero, hat.closed_inBounds]

theorem template_runs {bound : List DbBind} (query : List Char) (st : ExecState) (text : List Char)
    (hhead : AtHead st text) (hrest : st.rest = query) (hne : text ≠ [] ∨ query ≠ [])
    (hbound : Bound query (bound.drop st.vcnt)) (htext : '\x00' ∉ text) (hquery : '\x00' ∉ query) :
    (FitsFrom text (bindTemplate query (bound.drop st.vcnt)) ∧
      Runs bound st ⟨.sent (text ++ (bindTemplate query (bound.drop st.vcnt)).text), true⟩) ∨
    (¬FitsFrom text (bindTemplate query (bound.drop st.vcnt)) ∧ ∃ b, Runs bound st ⟨.failed, b⟩) := by
  induction query generalizing st text with
  | nil =>
    refine Or.inl ⟨trivial, ?_⟩
    rw [bindTemplate, show Template.text [] = [] from rfl, List.append_nil]
    exact hhead.finish (hne.resolve_right (by simp)) hrest htext
  | cons c query ih =>
    have hquery' : '\x00' ∉ query := fun h => hquery (List.mem_cons_of_mem c h)
    by_cases hc : c = '?'
    · subst hc
      obtain ⟨var, more, hmore, hvar, hbound'⟩ := hbound.value
      have hok := fillOk hvar
      have hget : bound[st.vcnt]? = some var := by
        rw [← List.head?_drop, hmore]
        rfl
      have hdrop : bound.drop (st.vcnt + 1) = more := by
        rw [← List.tail_drop, hmore]
        rfl
      rw [hmore, bindTemplate_value, FitsFrom, Template.text_hole]
      -- the largest buffer is full, and no value fits behind the text
      obtain ⟨hnone, hlen⟩ | ⟨st₁, k, hprep, hst₁, hrest₁, hvcnt₁, hfirst⟩ := hhead.prepare
      · refine Or.inr ⟨fun h => ?_, st.inBounds, Runs.of_end ?_⟩
        · have hvalue := h.1
          have hpos := List.length_pos_iff.mpr hok.ne_nil
          rw [ValueFits, if_neg (by rintro rfl; simp at hlen)] at hvalue
          omega
        · rw [execStep, hrest, hnone]
      · obtain ⟨hvalue, st', hhead', hrest', hvcnt, hruns⟩ | ⟨hvalue, hfailed⟩ :=
          value_runs hok.printed hok.ne_nil k st st₁ hrest hget hprep hst₁ hrest₁ hvcnt₁
            fun hnil => Or.inl (hfirst hnil)
        · -- the value is in the buffer, and the rest of the statement follows it
          have htext' : '\x00' ∉ text ++ var.fill.text := by
            rw [List.mem_append]
            exact not_or.mpr ⟨htext, hok.noZero⟩
          have hnext := ih st' (text ++ var.fill.text) hhead' hrest' (Or.inl (by simp [hok.ne_nil]))
          rw [hvcnt, hdrop, List.append_assoc] at hnext
          obtain ⟨hfits, hsent⟩ | ⟨hfits, b, hfailed⟩ := hnext hbound' htext' hquery'
          · exact Or.inl ⟨⟨hvalue, hfits⟩, hruns _ hsent⟩
          · exact Or.inr ⟨fun h => hfits h.2, b, hruns _ hfailed⟩
        · exact Or.inr ⟨fun h => hvalue h.1, hfailed⟩
    · rw [bindTemplate_char hc, FitsFrom, Template.text_char]
      obtain ⟨hlen, st', hhead', hrest', hvcnt, hruns⟩ | ⟨hlen, hfailed⟩ :=
        @char_runs bound _ _ hhead _ _ hrest hc
      · have htext' : '\x00' ∉ text ++ [c] := by
          rw [List.mem_append, List.mem_singleton]
          exact not_or.mpr ⟨htext, fun h => hquery (h ▸ List.mem_cons_self)⟩
        obtain ⟨hfits, hsent⟩ | ⟨hfits, b, hfailed⟩ := ih st' (text ++ [c]) hhead' hrest'
          (Or.inl (by simp)) (hvcnt ▸ hbound.char hc) htext' hquery'
        · rw [hvcnt] at hfits hsent
          rw [List.append_assoc, List.singleton_append] at hsent
          exact Or.inl ⟨⟨hlen, hfits⟩, hruns _ hsent⟩
        · rw [hvcnt] at hfits
          exact Or.inr ⟨fun h => hfits h.2, b, hruns _ hfailed⟩
      · exact Or.inr ⟨fun h => hlen h.1, hfailed⟩

theorem fitsFrom_iff (hne : ∀ fill, .inr fill ∈ tpl → fill.text ≠ []) {text : List Char}
    (htext : text ≠ []) (hlen : text.length < 2 ^ 31) :
    FitsFrom text tpl ↔ text.length + tpl.text.length < 2 ^ 31 := by
  induction tpl generalizing text with
  | nil => exact iff_of_true trivial hlen
  | cons x tpl ih =>
    have hrest : ∀ fill, .inr fill ∈ tpl → fill.text ≠ [] :=
      fun fill h => hne fill (List.mem_cons_of_mem x h)
    cases x with
    | inl c =>
      rw [FitsFrom, Template.text_char, List.length_cons]
      constructor
      · rintro ⟨hc, hfits⟩
        rw [ih hrest (by simp) (by simpa using hc), List.length_append, List.length_singleton] at hfits
        omega
      · intro h
        refine ⟨by omega, (ih hrest (by simp) ?_).mpr ?_⟩ <;>
          (rw [List.length_append, List.length_singleton]; omega)
    | inr fill =>
      have happend : text ++ fill.text ≠ [] := by simp [htext]
      rw [FitsFrom, ValueFits, if_neg htext, Template.text_hole, List.length_append]
      constructor
      · rintro ⟨hvalue, hfits⟩
        rw [ih hrest happend (by rwa [List.length_append]), List.length_append] at hfits
        omega
      · intro h
        refine ⟨by omega, (ih hrest happend ?_).mpr ?_⟩ <;> (rw [List.length_append]; omega)

theorem fitsFrom_nil_iff (hne : ∀ fill, .inr fill ∈ tpl → fill.text ≠ []) :
    FitsFrom [] tpl ↔ tpl.text.length < 2 ^ 31 ∧
      ∀ fill rest, tpl = .inr fill :: rest → fill.text.length < 2 ^ 30 := by
  cases tpl with
  | nil => exact iff_of_true trivial ⟨by decide, fun _ _ h => absurd h (by simp)⟩
  | cons x tpl =>
    have hrest : ∀ fill, .inr fill ∈ tpl → fill.text ≠ [] :=
      fun fill h => hne fill (List.mem_cons_of_mem x h)
    cases x with
    | inl c =>
      rw [FitsFrom, List.nil_append, fitsFrom_iff hrest (List.cons_ne_nil c []) (by rw [List.length_singleton]; decide),
        Template.text_char, List.length_cons, List.length_cons, List.length_nil]
      constructor
      · exact fun h => ⟨by omega, fun _ _ heq => absurd heq (by simp)⟩
      · exact fun h => ⟨by decide, by omega⟩
    | inr fill =>
      have hfill := hne fill List.mem_cons_self
      rw [FitsFrom, ValueFits, if_pos rfl, List.nil_append, Template.text_hole, List.length_append]
      constructor
      · rintro ⟨hvalue, hfits⟩
        rw [fitsFrom_iff hrest hfill (by omega)] at hfits
        refine ⟨hfits, fun f rest heq => ?_⟩
        rwa [← Sum.inr.inj (List.cons.inj heq).1]
      · rintro ⟨htotal, hfirst⟩
        have hvalue := hfirst fill tpl rfl
        exact ⟨hvalue, (fitsFrom_iff hrest hfill (by omega)).mpr htotal⟩

/-! ## The meaning -/

theorem mem_bindTemplate {fill : Fill} {query : List Char}
    (h : .inr fill ∈ bindTemplate query bound) : ∃ var ∈ bound, var.fill = fill := by
  induction query generalizing bound with
  | nil => exact absurd h (by simp [bindTemplate])
  | cons c query ih =>
    by_cases hc : c = '?'
    · subst hc
      cases bound with
      | nil =>
        obtain heq | htail := List.mem_cons.mp h
        · exact absurd heq (by simp)
        · exact absurd (ih htail) (by simp)
      | cons var bound =>
        obtain heq | htail := List.mem_cons.mp h
        · exact ⟨var, List.mem_cons_self, (Sum.inr.inj heq).symm⟩
        · obtain ⟨v, hv, hfill⟩ := ih htail
          exact ⟨v, List.mem_cons_of_mem _ hv, hfill⟩
    · rw [bindTemplate_char hc] at h
      obtain heq | htail := List.mem_cons.mp h
      · exact absurd heq (by simp)
      · exact ih htail

theorem fill_mem_bindTemplate {query : List Char}
    (h : var ∈ bound.take (query.count '?')) : .inr var.fill ∈ bindTemplate query bound := by
  induction query generalizing bound with
  | nil => exact absurd h (by simp)
  | cons c query ih =>
    by_cases hc : c = '?'
    · subst hc
      rw [List.count_cons_self] at h
      cases bound with
      | nil => exact absurd h (by simp)
      | cons v bound =>
        rw [List.take_succ_cons] at h
        obtain rfl | htail := List.mem_cons.mp h
        · exact List.mem_cons_self
        · exact List.mem_cons_of_mem _ (ih htail)
    · rw [List.count_cons_of_ne hc] at h
      rw [bindTemplate_char hc]
      exact List.mem_cons_of_mem _ (ih h)

theorem holesOutside_bindTemplate {query : List Char}
    (hbound : query.count '?' ≤ bound.length) {st : LexState}
    (h : ∀ before after, query = before ++ '?' :: after → (lexState st before).IsOutside) :
    Template.HolesOutside st (bindTemplate query bound) := by
  induction query generalizing bound st with
  | nil => exact trivial
  | cons c query ih =>
    have htail : ∀ before after, query = before ++ '?' :: after →
        (lexState (st.step c).2 before).IsOutside :=
      fun before after heq => h (c :: before) after (by rw [heq]; rfl)
    by_cases hc : c = '?'
    · subst hc
      rw [List.count_cons_self] at hbound
      cases bound with
      | nil => exact absurd hbound (by simp)
      | cons var bound =>
        have hst : st.IsOutside := h [] query rfl
        have hstep : (st.step '?').2 = .outside := by
          cases st with
          | outside => rfl
          | inside q raw value => exact hst.elim
          | escape q raw value => exact hst.elim
          | quote q raw value => cases q <;> rfl
        rw [hstep] at htail
        exact ⟨hst, ih (by simpa using hbound) htail⟩
    · rw [List.count_cons_of_ne hc] at hbound
      rw [bindTemplate_char hc]
      exact ih hbound htail

/-- The query of an emulated statement means what was bound if and only if no string in it can be
taken for anything else, and all of it fits. A string is printed between quotes as it is. -/
theorem emulated_right_iff (query : CText) (bound : List DbBind) (hne : query.val ≠ [])
    (hall : AllPlaceholders query.val) (henough : query.val.count '?' ≤ bound.length)
    (hsupported : ∀ var ∈ bound, var.Supported) :
    EmulatedRight query bound ↔ Harmless query bound := by
  have hfill : ∀ fill, .inr fill ∈ bindTemplate query.val bound → fill.text ≠ [] ∧ fill.Plain := by
    intro fill h
    obtain ⟨var, hvar, rfl⟩ := mem_bindTemplate h
    have hok := fillOk (hsupported var hvar)
    exact ⟨hok.ne_nil, hok.plain⟩
  have hread := template_read_iff (bindTemplate query.val bound)
    (holesOutside_bindTemplate henough hall) fun fill h => (hfill fill h).2
  have hfits := fitsFrom_nil_iff fun fill h => (hfill fill h).1
  have hruns := @template_runs bound query.val ⟨query.val, 0, 0, 0, true, [], true⟩ []
    (Or.inl ⟨rfl, rfl, rfl, rfl, rfl⟩) rfl (Or.inr hne) ⟨henough, hsupported⟩ (by simp) query.property
  rw [List.drop_zero, List.nil_append] at hruns
  constructor
  · rintro ⟨text, hsent, htokens, -⟩
    obtain ⟨hfit, hrun⟩ | ⟨-, b, hfailed⟩ := hruns
    · obtain rfl : text = (bindTemplate query.val bound).text := by
        have heq := Runs.unique hsent hrun
        simpa using heq
      obtain ⟨hstrings, hapart⟩ := hread.mp htokens
      obtain ⟨htotal, hfirst⟩ := hfits.mp hfit
      exact ⟨hstrings, hapart, htotal, hfirst⟩
    · have heq := Runs.unique hsent hfailed
      exact absurd heq (by simp)
  · intro h
    obtain ⟨-, hrun⟩ | ⟨hfit, -⟩ := hruns
    · refine ⟨_, hrun, hread.mpr ⟨h.strings, h.apart⟩, fun var hvar => ?_⟩
      refine (fillOk (hsupported var (List.mem_of_mem_take hvar))).denoted fun value hvalue => ?_
      exact h.strings value (hvalue ▸ fill_mem_bindTemplate hvar)
    · exact absurd (hfits.mpr ⟨h.total, h.first⟩) hfit

theorem allPlaceholders_of_plain {query : List Char}
    (h : (query.all fun c => quoteKind c = none) = true) : AllPlaceholders query := by
  replace h : ∀ c ∈ query, quoteKind c = none := by simpa using h
  rintro before after rfl
  have hstate : lexState .outside before = .outside := by
    induction before with
    | nil => rfl
    | cons c before ih =>
      have hc := h c List.mem_cons_self
      have hstep : (LexState.outside.step c).2 = .outside := by
        rw [LexState.step, lexOutside, hc]
      show lexState (LexState.outside.step c).2 before = .outside
      rw [hstep]
      exact ih fun d hd => h d (List.mem_cons_of_mem c hd)
  rw [hstate]
  trivial

theorem emulated_right_update :
    EmulatedRight ⟨"update t set a=? where b=?".toList, by decide⟩
      [⟨.int 5, false⟩, ⟨.varchar ⟨"x".toList, by decide⟩, false⟩] := by
  refine (emulated_right_iff _ _ (by decide) (allPlaceholders_of_plain (by decide +kernel))
    (by decide) (by simp [DbBind.Supported])).mpr ?_
  exact {
    strings := by
      intro value h
      obtain ⟨var, hvar, hfill⟩ := mem_bindTemplate h
      obtain rfl | rfl := List.mem_pair.mp hvar
      · exact absurd hfill (by simp [DbBind.fill])
      · obtain rfl := Fill.quoted.inj hfill
        exact (selfDenoting_char (by decide) (by decide) []).mpr trivial
    apart := Template.separated_of_isChain (by decide +kernel)
    total := by decide +kernel
    first := fun _ _ h => absurd (List.cons.inj h).1 (by simp) }

/-- A string with a quote in it ends its literal. -/
theorem emulated_injection :
    mysqlDrvExecute 40 ⟨"select a from t where b=?".toList, by decide⟩
      [⟨.varchar ⟨"x' or 'a'='a".toList, by decide⟩, false⟩] =
      some ⟨.sent "select a from t where b='x' or 'a'='a'".toList, true⟩ ∧
    ¬EmulatedRight ⟨"select a from t where b=?".toList, by decide⟩
      [⟨.varchar ⟨"x' or 'a'='a".toList, by decide⟩, false⟩] := by
  have hrun : mysqlDrvExecute 40 ⟨"select a from t where b=?".toList, by decide⟩
      [⟨.varchar ⟨"x' or 'a'='a".toList, by decide⟩, false⟩] =
      some ⟨.sent "select a from t where b='x' or 'a'='a'".toList, true⟩ := by decide +kernel
  refine ⟨hrun, ?_⟩
  rintro ⟨text, ⟨fuel, hsent⟩, htokens, -⟩
  have heq := execFrom_unique hsent hrun
  obtain rfl : text = "select a from t where b='x' or 'a'='a'".toList := by simpa using heq
  exact absurd htokens (by decide +kernel)

end MysqlBench.Sysbench
