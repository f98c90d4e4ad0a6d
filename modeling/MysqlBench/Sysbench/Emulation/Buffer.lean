import MysqlBench.Sysbench.Emulation.Model

/-!
# The buffer of an emulated statement

At the head of the loop the buffer has the text so far, and its length is a power of two (`AtText`). A
character needs one doubling at most; a value is tried at one length after the other until it fits. A
length beyond `2 ^ 31` is no `unsigned int`, and at `2 ^ 31` the room in front of the first character is
no `int`. So the function always ends, and it sends the whole text if and only if that fits
(`mysqlDrvExecute_runs`).
-/

namespace MysqlBench.Sysbench

open Lib

/-! ## Runs -/

section Runs

variable {bound : List DbBind} {st st' : ExecState} {r r' : ExecResult}

def Runs (bound : List DbBind) (st : ExecState) (r : ExecResult) : Prop :=
  ∃ fuel, execFrom bound fuel st = some r

theorem Runs.of_step (h : execStep bound st = .inl st') (hr : Runs bound st' r) : Runs bound st r := by
  obtain ⟨fuel, hfuel⟩ := hr
  refine ⟨fuel + 1, ?_⟩
  rw [execFrom, h]
  exact hfuel

theorem Runs.of_end (h : execStep bound st = .inr r) : Runs bound st r := by
  refine ⟨1, ?_⟩
  rw [execFrom, h]

theorem execFrom_unique {m n : Nat} (h : execFrom bound m st = some r)
    (h' : execFrom bound n st = some r') : r = r' := by
  induction m generalizing n st with
  | zero => exact absurd h (by simp [execFrom])
  | succ m ih =>
    cases n with
    | zero => exact absurd h' (by simp [execFrom])
    | succ n =>
      rw [execFrom] at h h'
      cases hstep : execStep bound st with
      | inl st' =>
        rw [hstep] at h h'
        exact ih h h'
      | inr result =>
        rw [hstep] at h h'
        exact (Option.some.inj h).symm.trans (Option.some.inj h')

theorem Runs.unique (h : Runs bound st r) (h' : Runs bound st r') : r = r' := by
  obtain ⟨m, hm⟩ := h
  obtain ⟨n, hn⟩ := h'
  exact execFrom_unique hm hn

end Runs

/-! ## The text so far -/

theorem take_writeAt_add {buf : List Char} {pos n : Nat} (h : pos ≤ buf.length) {cs : List Char}
    (hn : n ≤ cs.length) : (writeAt buf pos cs).take (pos + n) = buf.take pos ++ cs.take n := by
  have hlen : (buf.take pos).length = pos := by rw [List.length_take]; omega
  rw [writeAt, List.take_append, hlen, Nat.add_sub_cancel_left, List.take_of_length_le (by omega),
    List.take_append_of_le_length hn]

theorem length_writeAt {buf : List Char} {pos : Nat} (h : pos ≤ buf.length) (cs : List Char) :
    pos + cs.length ≤ (writeAt buf pos cs).length ∧ buf.length ≤ (writeAt buf pos cs).length := by
  simp only [writeAt, List.length_append, List.length_take, List.length_drop]
  omega

structure AtText (st : ExecState) (text : List Char) (k : Nat) : Prop where
  pos : st.j = text.length
  le : st.j ≤ st.buf.length
  text : st.buf.take st.j = text
  exponent : 8 ≤ k ∧ k ≤ 31
  buflen : st.buflen = 2 ^ k
  room : st.j < st.buflen
  inBounds : st.inBounds = true

def AtHead (st : ExecState) (text : List Char) : Prop :=
  (text = [] ∧ st.j = 0 ∧ st.buflen = 0 ∧ st.needRealloc = true ∧ st.inBounds = true) ∨
    (text ≠ [] ∧ st.needRealloc = false ∧ ∃ k, AtText st text k)

structure Prepared (st : ExecState) (text : List Char) (k : Nat) : Prop extends AtText st text k where
  next : st.j + 1 < st.buflen
  needRealloc : st.needRealloc = false

section Prepare

variable {st : ExecState} {text : List Char} {k : Nat}

theorem two_pow_bounds {k : Nat} (h : 8 ≤ k ∧ k ≤ 31) : 256 ≤ 2 ^ k ∧ 2 ^ k ≤ 2 ^ 31 :=
  ⟨show 2 ^ 8 ≤ 2 ^ k from Nat.pow_le_pow_right (by decide) h.1, Nat.pow_le_pow_right (by decide) h.2⟩

theorem AtText.grow (h : AtText st text k) (hgrow : st.buflen ≤ st.j + 1 ∨ st.needRealloc = true) :
    (k = 31 ∧ st.prepare = none) ∨
      (k < 31 ∧ ∃ st', st.prepare = some st' ∧ Prepared st' text (k + 1) ∧ st'.rest = st.rest ∧
        st'.vcnt = st.vcnt) := by
  have hbounds := two_pow_bounds h.exponent
  have hroom := h.room
  have hpos : 0 < st.buflen := by rw [h.buflen]; omega
  unfold ExecState.prepare
  rw [if_pos hgrow, if_pos hpos, h.buflen, ← pow_succ]
  dsimp only
  rcases Nat.lt_or_ge k 31 with hk | hk
  · have hlt : 2 ^ (k + 1) < 2 ^ 32 := Nat.pow_lt_pow_right (by decide) (by omega)
    rw [Nat.mod_eq_of_lt hlt, if_neg (Nat.pos_iff_ne_zero.mp (Nat.two_pow_pos _))]
    refine Or.inr ⟨hk, _, rfl, ?_, rfl, rfl⟩
    have hdouble : 2 ^ (k + 1) = 2 * 2 ^ k := by rw [pow_succ, mul_comm]
    rw [h.buflen] at hroom
    exact {
      pos := h.pos
      le := h.le
      text := h.text
      exponent := ⟨by have := h.exponent; omega, hk⟩
      buflen := rfl
      room := show st.j < 2 ^ (k + 1) by omega
      inBounds := h.inBounds
      next := show st.j + 1 < 2 ^ (k + 1) by omega
      needRealloc := rfl }
  · obtain rfl : k = 31 := le_antisymm h.exponent.2 hk
    exact Or.inl ⟨rfl, rfl⟩

theorem AtHead.prepare (h : AtHead st text) :
    (st.prepare = none ∧ text.length + 1 = 2 ^ 31) ∨
      ∃ st' k, st.prepare = some st' ∧ Prepared st' text k ∧ st'.rest = st.rest ∧ st'.vcnt = st.vcnt ∧
        (text = [] → k = 8) := by
  obtain ⟨rfl, hj, hbuflen, hneed, hin⟩ | ⟨hne, hneed, k, hat⟩ := h
  · refine Or.inr ⟨{ st with buflen := 256, needRealloc := false }, 8, ?_, ?_, rfl, rfl, fun _ => rfl⟩
    · unfold ExecState.prepare
      rw [if_pos (Or.inr hneed), hbuflen]
      rfl
    · exact {
        pos := hj
        le := hj ▸ Nat.zero_le _
        text := by
          show st.buf.take st.j = []
          rw [hj, List.take_zero]
        exponent := by decide
        buflen := rfl
        room := show st.j < 256 by omega
        inBounds := hin
        next := show st.j + 1 < 256 by omega
        needRealloc := rfl }
  · by_cases hgrow : st.buflen ≤ st.j + 1
    · obtain ⟨rfl, hnone⟩ | ⟨hk, st', hprep, hst', hrest, hvcnt⟩ := hat.grow (Or.inl hgrow)
      · have hpos := hat.pos
        have hroom := hat.room
        have hbuflen := hat.buflen
        exact Or.inl ⟨hnone, by omega⟩
      · exact Or.inr ⟨st', k + 1, hprep, hst', hrest, hvcnt, fun hnil => absurd hnil hne⟩
    · refine Or.inr ⟨st, k, ?_, ⟨hat, by omega, hneed⟩, rfl, rfl, fun hnil => absurd hnil hne⟩
      unfold ExecState.prepare
      rw [if_neg (not_or.mpr ⟨hgrow, by simp [hneed]⟩)]

theorem prepare_full (hbuflen : st.buflen = 2 ^ 31) (hneed : st.needRealloc = true) :
    st.prepare = none := by
  unfold ExecState.prepare
  rw [if_pos (Or.inr hneed), hbuflen]
  rfl

end Prepare

/-! ## Characters and values -/

section Put

variable {bound : List DbBind} {st : ExecState} {text : List Char} {k : Nat}

theorem AtText.write (h : AtText st text k) {cs added : List Char} {j : Nat} (hadded : added <+: cs)
    (hj : j = st.j + added.length) (hcs : st.j + cs.length ≤ st.buflen) (hroom : j < st.buflen)
    (rest : List Char) (vcnt : Nat) (need : Bool) :
    AtText { st.write cs with j := j, vcnt := vcnt, rest := rest, needRealloc := need }
      (text ++ added) k where
  pos := by
    show j = _
    rw [hj, h.pos, List.length_append]
  le := by
    show j ≤ (writeAt st.buf st.j cs).length
    have hlen := (length_writeAt h.le cs).1
    have hle := hadded.length_le
    omega
  text := by
    show (writeAt st.buf st.j cs).take j = _
    rw [hj, take_writeAt_add h.le hadded.length_le, h.text, ← List.prefix_iff_eq_take.mp hadded]
  exponent := h.exponent
  buflen := h.buflen
  room := hroom
  inBounds := by
    show (st.inBounds && decide (st.j + cs.length ≤ st.buflen)) = true
    rw [h.inBounds, decide_eq_true hcs]
    rfl

theorem AtText.closed_text (h : AtText st text k) (hzero : '\x00' ∉ text) :
    cString (st.write ['\x00']).buf = text := by
  have hbuf : (st.write ['\x00']).buf = text ++ '\x00' :: st.buf.drop (st.j + 1) := by
    show st.buf.take st.j ++ _ = _
    rw [h.text]
    rfl
  rw [hbuf, cString, takeWhile_append_stop (fun c hc => ?_) (by decide)]
  exact decide_eq_true fun heq => hzero (heq ▸ hc)

theorem AtText.closed_inBounds (h : AtText st text k) : (st.write ['\x00']).inBounds = true := by
  have hroom := h.room
  show (st.inBounds && decide (st.j + 1 ≤ st.buflen)) = true
  rw [h.inBounds, decide_eq_true (by omega)]
  rfl

theorem AtHead.length_lt (h : AtHead st text) : text.length < 2 ^ 31 := by
  obtain ⟨rfl, -⟩ | ⟨-, -, k, hat⟩ := h
  · decide
  · have hbounds := two_pow_bounds hat.exponent
    have hroom := hat.room
    rw [hat.pos, hat.buflen] at hroom
    omega

theorem char_runs {s : ExecState} (h : AtHead s text) {c : Char} {rest : List Char}
    (hrest : s.rest = c :: rest) (hc : c ≠ '?') :
    (text.length + 1 < 2 ^ 31 ∧ ∃ st', AtHead st' (text ++ [c]) ∧ st'.rest = rest ∧ st'.vcnt = s.vcnt ∧
      ∀ r, Runs bound st' r → Runs bound s r) ∨
    (¬text.length + 1 < 2 ^ 31 ∧ ∃ b, Runs bound s ⟨.failed, b⟩) := by
  obtain ⟨hnone, hlen⟩ | ⟨st, k, hprep, hst, -, hvcnt, -⟩ := h.prepare
  · refine Or.inr ⟨by omega, s.inBounds, Runs.of_end ?_⟩
    rw [execStep, hrest, hnone]
  · have hnext := hst.next
    have hpos := hst.pos
    have hbuflen := hst.buflen
    have hbounds := two_pow_bounds hst.exponent
    refine Or.inl ⟨by omega, { st.write [c] with j := st.j + 1, rest := rest }, ?_, rfl, hvcnt, ?_⟩
    · refine Or.inr ⟨by simp, hst.needRealloc, k, ?_⟩
      exact hst.toAtText.write (List.prefix_refl [c]) rfl (by simp; omega) (by omega) _ _ _
    · intro r hr
      refine Runs.of_step ?_ hr
      rw [execStep, hrest, hprep]
      exact if_pos hc

theorem Prepared.room_eq (h : Prepared st text k) (hfirst : k < 31 ∨ text ≠ []) :
    int32 (st.buflen - st.j) = (2 ^ k - text.length : Nat) ∧ 2 ^ k - text.length < 2 ^ 31 := by
  have hbounds := two_pow_bounds h.exponent
  have hroom := h.room
  rw [h.buflen, h.pos] at hroom
  have hlt : 2 ^ k - text.length < 2 ^ 31 := by
    obtain hk | hne := hfirst
    · have hpow : 2 ^ k ≤ 2 ^ 30 := Nat.pow_le_pow_right (by decide) (by omega)
      omega
    · have hpos := List.length_pos_iff.mpr hne
      omega
  refine ⟨?_, hlt⟩
  rw [h.buflen, h.pos, Nat.cast_sub hroom.le]
  exact int32_eq (by omega) (by omega)

variable {var : DbBind} {added : List Char}

theorem dbPrintValue_fits (hvar : var.printed = some added) {n : Nat} (hn : n < 2 ^ 31)
    (h : added.length < n) : dbPrintValue var n = ((added.length : Int), added ++ ['\x00']) := by
  have hsize : sizeOfInt n = n := by
    unfold sizeOfInt
    omega
  unfold dbPrintValue snprintf
  rw [hvar]
  dsimp only
  rw [hsize, if_pos (show added.length < 2 ^ 31 by omega), if_pos (by exact_mod_cast h),
    if_neg (by omega),
    List.take_of_length_le (by omega)]

theorem dbPrintValue_short (hvar : var.printed = some added) {n : Nat} (hn : n < 2 ^ 31)
    (h : n ≤ added.length) :
    (dbPrintValue var n).1 < 0 ∧ (dbPrintValue var n).2.length ≤ n := by
  have hsize : sizeOfInt n = n := by
    unfold sizeOfInt
    omega
  unfold dbPrintValue snprintf
  rw [hvar]
  dsimp only
  rw [hsize]
  refine ⟨?_, ?_⟩
  · split_ifs <;> omega
  · split_ifs with hzero
    · exact Nat.zero_le _
    · rw [List.length_append, List.length_take, List.length_singleton]
      omega

theorem dbPrintValue_negative (hvar : var.printed = some added) {n : Int} (hn : n < 0) :
    (dbPrintValue var n).1 < 0 := by
  unfold dbPrintValue snprintf
  rw [hvar]
  dsimp only
  split_ifs <;> omega

def ValueFits (text added : List Char) : Prop :=
  if text = [] then added.length < 2 ^ 30 else text.length + added.length < 2 ^ 31

variable (hvar : var.printed = some added) (hbound : bound[st.vcnt]? = some var)
include hvar hbound

theorem put_fits (h : Prepared st text k) (hne : added ≠ []) (hfirst : k < 31 ∨ text ≠ [])
    (hfits : text.length + added.length < 2 ^ k) (rest : List Char) :
    ∃ st', st.put bound '?' rest = .inl st' ∧ AtHead st' (text ++ added) ∧ st'.rest = rest ∧
      st'.vcnt = st.vcnt + 1 := by
  obtain ⟨hroom, hlt⟩ := h.room_eq hfirst
  have hprint := dbPrintValue_fits hvar hlt (by omega)
  have hpos := h.pos
  have hbuflen := h.buflen
  unfold ExecState.put
  rw [if_neg (by decide), hbound, hroom]
  dsimp only
  rw [hprint, if_neg (by omega)]
  refine ⟨_, rfl, Or.inr ⟨by simp [hne], h.needRealloc, k, ?_⟩, rfl, rfl⟩
  exact h.toAtText.write (List.prefix_append added _) (by rw [Int.toNat_natCast])
    (by rw [List.length_append, List.length_singleton]; omega) (by rw [Int.toNat_natCast]; omega)
    _ _ _

theorem put_short (h : Prepared st text k) (hfirst : k < 31 ∨ text ≠ [])
    (hshort : 2 ^ k ≤ text.length + added.length) (rest : List Char) :
    ∃ st', st.put bound '?' rest = .inl st' ∧ AtText st' text k ∧ st'.needRealloc = true ∧
      st'.rest = st.rest ∧ st'.vcnt = st.vcnt := by
  obtain ⟨hroom, hlt⟩ := h.room_eq hfirst
  obtain ⟨hneg, hlen⟩ := dbPrintValue_short hvar hlt (by omega)
  have hpos := h.pos
  have hnext := h.next
  have hbuflen := h.buflen
  unfold ExecState.put
  rw [if_neg (by decide), hbound, hroom]
  dsimp only
  rw [if_pos hneg]
  refine ⟨_, rfl, ?_, rfl, rfl, rfl⟩
  have hwrite := h.toAtText.write (List.nil_prefix (l := (dbPrintValue var (2 ^ k - text.length : Nat)).2))
    (Nat.add_zero st.j).symm (by omega) (by omega) st.rest st.vcnt true
  rwa [List.append_nil] at hwrite

theorem put_negative (h : Prepared st [] 31) (rest : List Char) :
    ∃ st', st.put bound '?' rest = .inl st' ∧ st'.buflen = 2 ^ 31 ∧ st'.needRealloc = true ∧
      st'.rest = st.rest := by
  have hroom : int32 (st.buflen - st.j) < 0 := by
    rw [h.buflen, h.pos]
    decide
  unfold ExecState.put
  rw [if_neg (by decide), hbound]
  dsimp only
  rw [if_pos (dbPrintValue_negative hvar hroom)]
  exact ⟨_, rfl, h.buflen, rfl, rfl⟩

end Put

theorem value_runs {bound : List DbBind} {text added rest : List Char} {var : DbBind}
    (hvar : var.printed = some added) (hne : added ≠ []) (k : Nat) (s st : ExecState)
    (hrest : s.rest = '?' :: rest) (hbound : bound[s.vcnt]? = some var) (hprep : s.prepare = some st)
    (hst : Prepared st text k) (hst_rest : st.rest = s.rest) (hvcnt : st.vcnt = s.vcnt)
    (htried : text = [] → k = 8 ∨ 2 ^ (k - 1) ≤ added.length) :
    (ValueFits text added ∧ ∃ st', AtHead st' (text ++ added) ∧ st'.rest = rest ∧
      st'.vcnt = s.vcnt + 1 ∧ ∀ r, Runs bound st' r → Runs bound s r) ∨
    (¬ValueFits text added ∧ ∃ b, Runs bound s ⟨.failed, b⟩) := by
  induction hn : 31 - k using Nat.strong_induction_on generalizing k s st with
  | _ n ih =>
    rw [← hvcnt] at hbound
    have hstep : execStep bound s = st.put bound '?' rest := by rw [execStep, hrest, hprep]
    have hbounds := two_pow_bounds hst.exponent
    by_cases hfirst : k < 31 ∨ text ≠ []
    · -- the value fits, or the buffer is doubled and the value printed again
      by_cases hfits : text.length + added.length < 2 ^ k
      · obtain ⟨st', hput, hhead, hrest', hvcnt'⟩ := put_fits hvar hbound hst hne hfirst hfits rest
        refine Or.inl ⟨?_, st', hhead, hrest', hvcnt ▸ hvcnt',
          fun r hr => Runs.of_step (hstep.trans hput) hr⟩
        unfold ValueFits
        split_ifs with hnil
        · have hk := hfirst.resolve_right (not_not.mpr hnil)
          have hpow : 2 ^ k ≤ 2 ^ 30 := Nat.pow_le_pow_right (by decide) (by omega)
          omega
        · omega
      · obtain ⟨st', hput, hat, hneed, hrest', hvcnt'⟩ :=
          put_short hvar hbound hst hfirst (not_lt.mp hfits) rest
        have hback : ∀ r, Runs bound st' r → Runs bound s r :=
          fun r hr => Runs.of_step (hstep.trans hput) hr
        have hrest₂ : st'.rest = '?' :: rest := hrest'.trans (hst_rest.trans hrest)
        obtain ⟨rfl, hnone⟩ | ⟨hk, st₁, hprep₁, hst₁, hrest₁, hvcnt₁⟩ := hat.grow (Or.inr hneed)
        · -- the largest buffer is not doubled any more
          refine Or.inr ⟨?_, st'.inBounds, hback _ (Runs.of_end ?_)⟩
          · rw [ValueFits, if_neg (hfirst.resolve_left (lt_irrefl 31))]
            exact hfits
          · rw [execStep, hrest₂, hnone]
        · obtain ⟨hvalue, st₂, hhead, hrest₃, hvcnt₂, hruns⟩ | ⟨hvalue, b, hruns⟩ :=
            ih (31 - (k + 1)) (by omega) (k + 1) st' st₁ hrest₂ (hvcnt' ▸ hbound) hprep₁ hst₁ hrest₁ hvcnt₁
              (fun hnil => Or.inr (by subst hnil; simpa using hfits)) rfl
          · exact Or.inl ⟨hvalue, st₂, hhead, hrest₃, hvcnt₂.trans (by rw [hvcnt', hvcnt]),
              fun r hr => hback r (hruns r hr)⟩
          · exact Or.inr ⟨hvalue, b, hback _ hruns⟩
    · -- the largest buffer, and nothing in it
      obtain ⟨hk, hnil⟩ := not_or.mp hfirst
      obtain rfl : k = 31 := le_antisymm hst.exponent.2 (not_lt.mp hk)
      obtain rfl := not_not.mp hnil
      obtain ⟨st', hput, hbuflen, hneed, hrest'⟩ := put_negative hvar hbound hst rest
      refine Or.inr ⟨?_, st'.inBounds, Runs.of_step (hstep.trans hput) (Runs.of_end ?_)⟩
      · rw [ValueFits, if_pos rfl, not_lt]
        exact (htried rfl).resolve_left (by decide)
      · rw [execStep, hrest'.trans (hst_rest.trans hrest), prepare_full hbuflen hneed]

end MysqlBench.Sysbench
