import MysqlBench.Lib.Loop
import MysqlBench.Sysbench.Emulation.Meaning
import MysqlBench.Sysbench.Random

/-!
# The text of a server-side statement (`drv_pgsql.c`)

PostgreSQL has numbered placeholders: `pgsql_drv_prepare` copies the query and writes `$1`, `$2` and so
on for its question marks. The buffer is that of an emulated statement of MySQL, and grows as it does
(`AtHead.prepare`, `AtText.write`); a placeholder is short, so it fits after one doubling. So the loop
ends, and if it has not run out of memory, as it does for a text of two gigabytes, it has stored the
numbered query (`pgsqlDrvPrepare_stored`).
-/

namespace MysqlBench.Sysbench

open Lib

/-! ## The loop -/

def placeholder (vcnt : Nat) : List Char := '$' :: printInt (int32 vcnt)

def ExecState.putPlaceholder (st : ExecState) (c : Char) (rest : List Char) : ExecState :=
  if c ≠ '?' then { st.write [c] with j := st.j + 1, rest := rest }
  else
    let (n, written) := snprintf (uint32 (st.buflen - st.j)) (placeholder st.vcnt)
    if n < 0 ∨ int32 (st.buflen - st.j) ≤ n then { st.write written with needRealloc := true }
    else { st.write written with j := st.j + n.toNat, vcnt := st.vcnt + 1, rest := rest }

/-- How the loop ends: with a query and the number of its parameters, or without memory. Whether all
writes were within the buffer is part of both. -/
inductive PrepareResult
  | stored (query : List Char) (nparams : Nat) (inBounds : Bool)
  | failed (inBounds : Bool)
deriving DecidableEq

/-- One time through the loop. After it the text is closed with a zero; no buffer has been allocated for
an empty query. -/
def numberStep (st : ExecState) : ExecState ⊕ PrepareResult :=
  match st.rest with
  | [] => .inr (.stored (cString (st.write ['\x00']).buf) (st.vcnt - 1) (st.write ['\x00']).inBounds)
  | c :: rest =>
    match st.prepare with
    | none => .inr (.failed st.inBounds)
    | some st => .inl (st.putPlaceholder c rest)

/-- `pgsql_drv_prepare` with server-side statements, up to the statement that it stores. -/
def pgsqlDrvPrepare (fuel : Nat) (query : CText) : Option PrepareResult :=
  loopFrom numberStep fuel ⟨query.val, 0, 0, 1, true, [], true⟩

/-! ## What the text should be -/

def numbered : Nat → List Char → List Char
  | _, [] => []
  | k, c :: cs =>
    if c = '?' then '$' :: (Nat.toDigits 10 k ++ numbered (k + 1) cs) else c :: numbered k cs

/-! ## Placeholders -/

theorem placeholder_eq {k : Nat} (h : k < 2 ^ 31) : placeholder k = '$' :: Nat.toDigits 10 k := by
  unfold placeholder printInt
  rw [int32_eq (by omega) (by omega), if_neg (by omega), Int.natAbs_natCast]

theorem length_placeholder {k : Nat} (h : k < 2 ^ 31) :
    2 ≤ (placeholder k).length ∧ (placeholder k).length ≤ 11 := by
  have hdigits : (Nat.toDigits 10 k).length ≤ 10 := by
    apply Nat.toDigits_length 10 k 10 (by decide)
    omega
  have hpos := List.length_pos_iff.mpr (Nat.toDigits_ne_nil (b := 10) (n := k))
  rw [placeholder_eq h, List.length_cons]
  omega

theorem zero_not_mem_placeholder (k : Nat) : '\x00' ∉ placeholder k := by
  intro h
  rcases List.mem_cons.mp h with heq | hmem
  · exact absurd heq (by decide)
  · rcases mem_printInt hmem with heq | hdigit
    · exact absurd heq (by decide)
    · exact absurd hdigit (by decide)

section Steps

variable {st : ExecState} {text : List Char} {k : Nat}

theorem Prepared.uint32_room (h : Prepared st text k) :
    uint32 (st.buflen - st.j) = 2 ^ k - text.length := by
  have hbounds := two_pow_bounds h.exponent
  have hroom := h.room
  rw [h.buflen, h.pos] at hroom ⊢
  rw [← Nat.cast_sub hroom.le, uint32_eq (Int.natCast_nonneg _) (by omega), Int.toNat_natCast]

theorem putPlaceholder_fits (h : Prepared st text k) (hv : st.vcnt < 2 ^ 31)
    (hfirst : k < 31 ∨ text ≠ []) (hfits : text.length + (placeholder st.vcnt).length < 2 ^ k)
    (rest : List Char) :
    AtHead (st.putPlaceholder '?' rest) (text ++ placeholder st.vcnt) ∧
      (st.putPlaceholder '?' rest).rest = rest ∧ (st.putPlaceholder '?' rest).vcnt = st.vcnt + 1 := by
  obtain ⟨hroom, hlt⟩ := h.room_eq hfirst
  have hlen := length_placeholder hv
  have hpos := h.pos
  have hbuflen := h.buflen
  have hprint : snprintf (2 ^ k - text.length) (placeholder st.vcnt) =
      (((placeholder st.vcnt).length : Int), placeholder st.vcnt ++ ['\x00']) := by
    unfold snprintf
    rw [if_pos (by omega), if_neg (by omega), List.take_of_length_le (by omega)]
  unfold ExecState.putPlaceholder
  rw [if_neg (by decide), h.uint32_room, hroom, hprint]
  dsimp only
  rw [if_neg (by omega)]
  refine ⟨Or.inr ⟨by simp [placeholder], h.needRealloc, k, ?_⟩, rfl, rfl⟩
  exact h.toAtText.write (List.prefix_append _ _) (by rw [Int.toNat_natCast])
    (by rw [List.length_append, List.length_singleton]; omega) (by rw [Int.toNat_natCast]; omega) _ _ _

theorem putPlaceholder_short (h : Prepared st text k) (hv : st.vcnt < 2 ^ 31)
    (hshort : 2 ^ k ≤ text.length + (placeholder st.vcnt).length) (rest : List Char) :
    AtText (st.putPlaceholder '?' rest) text k ∧ (st.putPlaceholder '?' rest).needRealloc = true ∧
      (st.putPlaceholder '?' rest).rest = st.rest ∧ (st.putPlaceholder '?' rest).vcnt = st.vcnt := by
  have hbounds := two_pow_bounds h.exponent
  have hlen := length_placeholder hv
  have hne : text ≠ [] := by
    rintro rfl
    simp only [List.length_nil] at hshort
    omega
  obtain ⟨hroom, hlt⟩ := h.room_eq (Or.inr hne)
  have hpos := h.pos
  have hnext := h.next
  have hbuflen := h.buflen
  have hwritten : (snprintf (2 ^ k - text.length) (placeholder st.vcnt)).2.length ≤ 2 ^ k - text.length := by
    unfold snprintf
    dsimp only
    split_ifs with hzero
    · exact Nat.zero_le _
    · rw [List.length_append, List.length_take, List.length_singleton]
      omega
  have hcount : (snprintf (2 ^ k - text.length) (placeholder st.vcnt)).1 = (placeholder st.vcnt).length := by
    unfold snprintf
    rw [if_pos (by omega)]
  unfold ExecState.putPlaceholder
  rw [if_neg (by decide), h.uint32_room, hroom]
  generalize snprintf (2 ^ k - text.length) (placeholder st.vcnt) = res at hwritten hcount
  obtain ⟨n, written⟩ := res
  dsimp only at hwritten hcount ⊢
  rw [if_pos (by omega)]
  refine ⟨?_, rfl, rfl, rfl⟩
  have hwrite := h.toAtText.write (List.nil_prefix (l := written)) (Nat.add_zero st.j).symm (by omega)
    (by omega) st.rest st.vcnt true
  rwa [List.append_nil] at hwrite

theorem putPlaceholder_char (h : Prepared st text k) {c : Char} (hc : c ≠ '?') (rest : List Char) :
    AtHead (st.putPlaceholder c rest) (text ++ [c]) ∧ (st.putPlaceholder c rest).rest = rest ∧
      (st.putPlaceholder c rest).vcnt = st.vcnt := by
  have hnext := h.next
  unfold ExecState.putPlaceholder
  rw [if_pos hc]
  refine ⟨Or.inr ⟨by simp, h.needRealloc, k, ?_⟩, rfl, rfl⟩
  exact h.toAtText.write (List.prefix_refl [c]) rfl (by rw [List.length_singleton]; omega) (by omega) _ _ _

/-! ## Runs -/

theorem char_ends (h : AtHead st text) {c : Char} {rest : List Char} (hrest : st.rest = c :: rest)
    (hc : c ≠ '?') :
    (∃ st', AtHead st' (text ++ [c]) ∧ st'.rest = rest ∧ st'.vcnt = st.vcnt ∧
      ∀ r, Ends numberStep st' r → Ends numberStep st r) ∨
    ∃ b, Ends numberStep st (.failed b) := by
  obtain ⟨hnone, -⟩ | ⟨st₁, k, hprep, hst₁, -, hvcnt, -⟩ := h.prepare
  · refine Or.inr ⟨st.inBounds, Ends.of_end ?_⟩
    rw [numberStep, hrest, hnone]
  · obtain ⟨hhead, hrest', hvcnt'⟩ := putPlaceholder_char hst₁ hc rest
    refine Or.inl ⟨_, hhead, hrest', hvcnt'.trans hvcnt, fun r hr => Ends.of_step ?_ hr⟩
    rw [numberStep, hrest, hprep]

theorem placeholder_ends (h : AtHead st text) {rest : List Char} (hrest : st.rest = '?' :: rest)
    (hv : st.vcnt < 2 ^ 31) :
    (∃ st', AtHead st' (text ++ placeholder st.vcnt) ∧ st'.rest = rest ∧ st'.vcnt = st.vcnt + 1 ∧
      ∀ r, Ends numberStep st' r → Ends numberStep st r) ∨
    ∃ b, Ends numberStep st (.failed b) := by
  have hlen := length_placeholder hv
  obtain ⟨hnone, -⟩ | ⟨st₁, k, hprep, hst₁, hrest₁, hvcnt, hk⟩ := h.prepare
  · refine Or.inr ⟨st.inBounds, Ends.of_end ?_⟩
    rw [numberStep, hrest, hnone]
  · have hstep : numberStep st = .inl (st₁.putPlaceholder '?' rest) := by rw [numberStep, hrest, hprep]
    -- an empty buffer has its first size
    have hfirst : k < 31 ∨ text ≠ [] := by
      by_cases hnil : text = []
      · exact Or.inl (by rw [hk hnil]; decide)
      · exact Or.inr hnil
    rw [← hvcnt] at hv hlen ⊢
    by_cases hfits : text.length + (placeholder st₁.vcnt).length < 2 ^ k
    · obtain ⟨hhead, hrest', hvcnt'⟩ := putPlaceholder_fits hst₁ hv hfirst hfits rest
      exact Or.inl ⟨_, hhead, hrest', hvcnt', fun r hr => Ends.of_step hstep hr⟩
    · obtain ⟨hat, hneed, hrest', hvcnt'⟩ := putPlaceholder_short hst₁ hv (Nat.not_lt.mp hfits) rest
      generalize st₁.putPlaceholder '?' rest = st₂ at hstep hat hneed hrest' hvcnt'
      rw [hrest₁, hrest] at hrest'
      obtain ⟨-, hnone⟩ | ⟨hk', st₃, hprep₃, hst₃, hrest₃, hvcnt₃⟩ := hat.grow (Or.inr hneed)
      · refine Or.inr ⟨st₂.inBounds, Ends.of_step hstep (Ends.of_end ?_)⟩
        rw [numberStep, hrest', hnone]
      · -- twice the room is enough
        have hroom := hst₁.room
        have hpos := hst₁.pos
        have hbuflen := hst₁.buflen
        have hbounds := two_pow_bounds hst₁.exponent
        have hv₃ : st₃.vcnt = st₁.vcnt := hvcnt₃.trans hvcnt'
        have hfits₃ : text.length + (placeholder st₃.vcnt).length < 2 ^ (k + 1) := by
          rw [hv₃, pow_succ]
          omega
        have hne : text ≠ [] := by
          rintro rfl
          simp only [List.length_nil] at hfits
          omega
        obtain ⟨hhead, hrest₄, hvcnt₄⟩ :=
          putPlaceholder_fits hst₃ (by rw [hv₃]; exact hv) (Or.inr hne) hfits₃ rest
        rw [hv₃] at hhead hvcnt₄
        refine Or.inl ⟨_, hhead, hrest₄, hvcnt₄, fun r hr => Ends.of_step hstep (Ends.of_step ?_ hr)⟩
        rw [numberStep, hrest', hprep₃]

theorem number_ends (query : List Char) (st : ExecState) (text : List Char) (h : AtHead st text)
    (hrest : st.rest = query) (hne : text ≠ [] ∨ query ≠ []) (hpos : 1 ≤ st.vcnt)
    (hshort : 2 * st.vcnt ≤ text.length + 2) (htext : '\x00' ∉ text) (hquery : '\x00' ∉ query) :
    Ends numberStep st (.stored (text ++ numbered st.vcnt query) (st.vcnt - 1 + query.count '?') true) ∨
      ∃ b, Ends numberStep st (.failed b) := by
  induction query generalizing st text with
  | nil =>
    obtain ⟨hnil, -⟩ | ⟨-, -, k, hat⟩ := h
    · exact absurd hnil (hne.resolve_right (by simp))
    refine Or.inl (Ends.of_end ?_)
    rw [numberStep, hrest]
    dsimp only
    rw [hat.closed_text htext, hat.closed_inBounds]
    simp [numbered]
  | cons c query ih =>
    have hquery' : '\x00' ∉ query := fun h => hquery (List.mem_cons_of_mem c h)
    by_cases hc : c = '?'
    · subst hc
      -- each placeholder takes two characters, so their number stays below the buffer's length
      have hv : st.vcnt < 2 ^ 31 := by
        have := h.length_lt
        omega
      obtain ⟨st', hhead, hrest', hvcnt, hends⟩ | hfailed := placeholder_ends h hrest hv
      · have hlen := length_placeholder hv
        have htext' : '\x00' ∉ text ++ placeholder st.vcnt := by
          rw [List.mem_append]
          exact not_or.mpr ⟨htext, zero_not_mem_placeholder _⟩
        obtain hstored | ⟨b, hfailed⟩ := ih st' _ hhead hrest' (Or.inl (by simp [placeholder])) (by omega)
          (by rw [List.length_append]; omega) htext' hquery'
        · refine Or.inl (hends _ ?_)
          rw [hvcnt, List.append_assoc] at hstored
          rw [numbered, if_pos rfl, List.count_cons_self, ← List.cons_append, ← placeholder_eq hv]
          rwa [show st.vcnt - 1 + (query.count '?' + 1) = st.vcnt + 1 - 1 + query.count '?' by omega]
        · exact Or.inr ⟨b, hends _ hfailed⟩
      · exact Or.inr hfailed
    · obtain ⟨st', hhead, hrest', hvcnt, hends⟩ | hfailed := char_ends h hrest hc
      · have htext' : '\x00' ∉ text ++ [c] := by
          rw [List.mem_append, List.mem_singleton]
          exact not_or.mpr ⟨htext, fun h => hquery (h ▸ List.mem_cons_self)⟩
        obtain hstored | ⟨b, hfailed⟩ := ih st' _ hhead hrest' (Or.inl (by simp)) (by omega)
          (by rw [List.length_append]; omega) htext' hquery'
        · refine Or.inl (hends _ ?_)
          rw [hvcnt, List.append_assoc, List.singleton_append] at hstored
          rw [numbered, if_neg hc, List.count_cons_of_ne hc]
          exact hstored
        · exact Or.inr ⟨b, hends _ hfailed⟩
      · exact Or.inr hfailed

end Steps

theorem query_ends (query : CText) :
    Ends numberStep ⟨query.val, 0, 0, 1, true, [], true⟩
      (.stored (numbered 1 query.val) (query.val.count '?') (query.val ≠ [])) ∨
    ∃ b, Ends numberStep ⟨query.val, 0, 0, 1, true, [], true⟩ (.failed b) := by
  obtain ⟨query, hzero⟩ := query
  cases query with
  | nil => exact Or.inl (Ends.of_end rfl)
  | cons c query =>
    have hends := number_ends (c :: query) ⟨c :: query, 0, 0, 1, true, [], true⟩ []
      (Or.inl ⟨rfl, rfl, rfl, rfl, rfl⟩) rfl (Or.inr (by simp)) (le_refl 1) (le_refl 2) (by simp) hzero
    simpa using hends

/-- `pgsql_drv_prepare` ends; what it stores of a query is the query with its question marks numbered,
and the number of them. Without a query there is no buffer that could be closed. -/
theorem pgsqlDrvPrepare_stored (query : CText) :
    (∃ fuel r, pgsqlDrvPrepare fuel query = some r) ∧
      ∀ fuel text n inBounds, pgsqlDrvPrepare fuel query = some (.stored text n inBounds) →
        text = numbered 1 query.val ∧ n = query.val.count '?' ∧ (inBounds = true ↔ query.val ≠ []) := by
  obtain hends | ⟨b, hends⟩ := query_ends query
  · refine ⟨⟨_, _, hends.choose_spec⟩, fun fuel text n inBounds h => ?_⟩
    obtain ⟨rfl, rfl, rfl⟩ := PrepareResult.stored.inj (Ends.unique ⟨fuel, h⟩ hends)
    exact ⟨rfl, rfl, decide_eq_true_iff⟩
  · refine ⟨⟨_, _, hends.choose_spec⟩, fun fuel text n inBounds h => ?_⟩
    exact PrepareResult.noConfusion (Ends.unique ⟨fuel, h⟩ hends)

end MysqlBench.Sysbench
