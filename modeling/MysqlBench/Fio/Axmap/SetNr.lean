import MysqlBench.Fio.Axmap.Calls

/-!
# What `axmap_set_nr` sets and what it reports

`mark_random_map` takes the answer `r` of `axmap_set_nr` for the length of a run: the bits from
`bit_nr` on, `r` of them, were free and are now taken (`SetsRun`). The comment in `axmap_set_fn`
says so too, "only sets contig regions". What it does is to set every clear bit of a word's part
of the run and to report how many there were. That is a run from the front only if the bits
already set in that part are its last ones; the report is doubled by the second round of
`__axmap_set` for one count (`setCount`); and a run that leaves the map in the middle of its last
word takes the unused bits of that word with it.

`RunFits` says when none of this happens, and it is exact (`contiguous_run_iff`). The proof follows
the rounds of the loop: a round that sets a whole part leaves the same question about the rest of
the run (`setsRun_shift`, `runFits_shift`), and any other round is the last
(`setsRun_stop_iff`, `not_setsRun_past_end`).
-/

namespace MysqlBench.Fio

open MysqlBench.Lib

/-- What a caller of `axmap_set_nr(bit_nr, n)` takes from the answer `r`: the bits newly set are
those of `[b, b + r)`, so none of them was set before, nothing is set past the end of the map, and
the run is as long as it can be. -/
structure SetsRun (nrBits : Nat) (before after : Nat → Bool) (b n r : Nat) : Prop where
  le : r ≤ n
  run : ∀ k, (before k = false ∧ after k = true) ↔ (b ≤ k ∧ k < b + r)
  inside : ∀ k, nrBits ≤ k → after k = false
  maximal : r = n ∨ before (b + r) = true ∨ b + r = nrBits

def pieceLo (b j : Nat) : Nat := max b (j / 64 * 64)

def pieceHi (b n j : Nat) : Nat := min (b + n) (j / 64 * 64 + 64)

/-- The run `[b, b + n)` ends well at `j`, the first of its bits that is set: the rest of its part
in that word is set too, that part is inside the map, and the bits before `j` in it are none or do
not make up 64 together with its length. -/
structure StopsAt (nrBits : Nat) (f : Nat → Bool) (b n j : Nat) : Prop where
  range : b ≤ j ∧ j < b + n
  set : f j = true
  before : ∀ k, b ≤ k → k < j → f k = false
  after : ∀ k, j ≤ k → k < pieceHi b n j → f k = true
  count : j = pieceLo b j ∨ (j - pieceLo b j) + (pieceHi b n j - pieceLo b j) ≠ 64
  inside : pieceHi b n j ≤ nrBits

/-- The runs that `axmap_set_nr` gets right: no bit is set past the end of the map, and the run
either is clear and does not end in the unused part of the last word, or ends well at a set bit. -/
def RunFits (nrBits : Nat) (f : Nat → Bool) (b n : Nat) : Prop :=
  (∀ k, nrBits ≤ k → f k = false) ∧
    (((∀ k, b ≤ k → k < b + n → f k = false) ∧ (b + n ≤ nrBits ∨ nrBits % 64 = 0)) ∨
      ∃ j, StopsAt nrBits f b n j)

theorem pieceLo_shift {b t j : Nat} (halign : (b + t) % 64 = 0) (hj : b + t ≤ j) :
    pieceLo (b + t) j = pieceLo b j := by
  unfold pieceLo
  omega

theorem pieceHi_shift {b n t : Nat} (htn : t ≤ n) (j : Nat) :
    pieceHi (b + t) (n - t) j = pieceHi b n j := by
  unfold pieceHi
  rw [show b + t + (n - t) = b + n by omega]

/-! ## One round, on rows of bits -/

section Rounds

variable {nrBits b n : Nat} {f f' f'' : Nat → Bool}

/-- The whole part of the run in its first word was clear and is set now: what is asked of the call
is asked of the rest of it. -/
theorem setsRun_shift {t r : Nat} (htn : t ≤ n) (hclear : ∀ k, b ≤ k → k < b + t → f k = false)
    (hf' : ∀ k, f' k = (f k || decide (b ≤ k ∧ k < b + t)))
    (hmono : ∀ k, f' k = true → f'' k = true) :
    SetsRun nrBits f f'' b n (t + r) ↔ SetsRun nrBits f' f'' (b + t) (n - t) r := by
  have hin : ∀ k, b ≤ k → k < b + t → f' k = true := fun k h₁ h₂ => by
    rw [hf', decide_eq_true ⟨h₁, h₂⟩, Bool.or_true]
  have hout : ∀ k, ¬ (b ≤ k ∧ k < b + t) → f' k = f k := fun k hk => by
    rw [hf', decide_eq_false hk, Bool.or_false]
  have hend : f' (b + t + r) = f (b + (t + r)) := by
    rw [hout _ (by omega), Nat.add_assoc]
  constructor
  · rintro ⟨hle, hrun, hinside, hmax⟩
    refine ⟨by omega, fun k => ?_, hinside, hmax.imp (fun h => by omega)
      (Or.imp (fun h => hend.trans h) fun h => by omega)⟩
    -- the bits of the first part are set now, and are none of the new ones
    by_cases hk : b ≤ k ∧ k < b + t
    · rw [hin k hk.1 hk.2]
      constructor
      · rintro ⟨h, -⟩
        exact absurd h (by simp)
      · intro h
        omega
    · rw [hout k hk, hrun k]
      omega
  · rintro ⟨hle, hrun, hinside, hmax⟩
    refine ⟨by omega, fun k => ?_, hinside, hmax.imp (fun h => by omega)
      (Or.imp (fun h => hend.symm.trans h) fun h => by omega)⟩
    by_cases hk : b ≤ k ∧ k < b + t
    · constructor
      · intro _
        omega
      · intro _
        exact ⟨hclear k hk.1 hk.2, hmono k (hin k hk.1 hk.2)⟩
    · rw [← hout k hk, hrun k]
      omega

section Shift

variable {t : Nat} (hclear : ∀ k, b ≤ k → k < b + t → f k = false) (hsame : ∀ k, b + t ≤ k → f' k = f k)

include hclear hsame

theorem forall_clear_shift {e : Nat} :
    (∀ k, b ≤ k → k < e → f k = false) ↔ ∀ k, b + t ≤ k → k < e → f' k = false := by
  constructor
  · intro h k h₁ h₂
    rw [hsame k h₁]
    exact h k (by omega) h₂
  · intro h k h₁ h₂
    rcases Nat.lt_or_ge k (b + t) with hk | hk
    · exact hclear k h₁ hk
    · rw [← hsame k hk]
      exact h k hk h₂

theorem stopsAt_shift {j : Nat} (htn : t ≤ n) (halign : (b + t) % 64 = 0) (hj : b + t ≤ j) :
    StopsAt nrBits f b n j ↔ StopsAt nrBits f' (b + t) (n - t) j := by
  have hlo := pieceLo_shift halign hj
  have hhi := pieceHi_shift (b := b) htn j
  have hbefore := forall_clear_shift hclear hsame (e := j)
  constructor
  · intro h
    refine ⟨⟨hj, by have := h.range; omega⟩, (hsame j hj).trans h.set, hbefore.mp h.before, fun k h₁ h₂ => ?_,
      by rw [hlo, hhi]; exact h.count, by rw [hhi]; exact h.inside⟩
    rw [hsame k (by omega)]
    exact h.after k h₁ (by rwa [hhi] at h₂)
  · intro h
    refine ⟨⟨by omega, by have := h.range; omega⟩, (hsame j hj).symm.trans h.set, hbefore.mpr h.before,
      fun k h₁ h₂ => ?_, by rw [← hlo, ← hhi]; exact h.count, by rw [← hhi]; exact h.inside⟩
    rw [← hsame k (by omega)]
    exact h.after k h₁ (by rwa [hhi])

theorem runFits_shift (htn : t ≤ n) (hin : b + t ≤ nrBits) (halign : (b + t) % 64 = 0) :
    RunFits nrBits f b n ↔ RunFits nrBits f' (b + t) (n - t) := by
  have hclean : (∀ k, nrBits ≤ k → f k = false) ↔ ∀ k, nrBits ≤ k → f' k = false :=
    forall₂_congr fun k hk => by rw [hsame k (by omega)]
  have hstop : (∃ j, StopsAt nrBits f b n j) ↔ ∃ j, StopsAt nrBits f' (b + t) (n - t) j := by
    refine exists_congr fun j => ?_
    rcases Nat.lt_or_ge j (b + t) with hj | hj
    · constructor
      · intro h
        have := h.set
        rw [hclear j h.range.1 hj] at this
        exact absurd this (by simp)
      · intro h
        have := h.range
        omega
    · exact stopsAt_shift hclear hsame htn halign hj
  unfold RunFits
  rw [hclean, forall_clear_shift hclear hsame, hstop, show b + t + (n - t) = b + n by omega]

end Shift

/-- A first word with a set bit among the bits asked for. The call sets all of them and reports
`setCount`, which is a run exactly when the run ends well in this word. -/
theorem setsRun_stop_iff (hclean : ∀ k, nrBits ≤ k → f k = false) (hin : b + runLen b n ≤ nrBits)
    (hf' : ∀ k, f' k = (f k || decide (b ≤ k ∧ k < b + runLen b n)))
    (hsome : ¬ ∀ k, b ≤ k → k < b + runLen b n → f k = false) :
    SetsRun nrBits f f' b n (setCount (runLen b n) (clearIn f b (b + runLen b n)).card) ↔
      RunFits nrBits f b n := by
  obtain ⟨t, ht⟩ : ∃ t, t = runLen b n := ⟨_, rfl⟩
  have htn : t = min n (64 - b % 64) := ht
  rw [← ht] at hin hf' hsome ⊢
  have hlo : ∀ j, b ≤ j → j < b + t → pieceLo b j = b := fun j h₁ h₂ => by
    unfold pieceLo
    omega
  have hhi : ∀ j, b ≤ j → j < b + t → pieceHi b n j = b + t := fun j h₁ h₂ => by
    unfold pieceHi
    omega
  have hnew : ∀ k, (f k = false ∧ f' k = true) ↔ (b ≤ k ∧ k < b + t) ∧ f k = false := by
    intro k
    rw [hf']
    cases f k <;> simp
  have hlt : (clearIn f b (b + t)).card ≠ t := fun h =>
    hsome (card_clearIn_eq.mp (by omega))
  have hcle := card_clearIn_le f b (b + t)
  constructor
  · rintro ⟨hle, hrun, -, -⟩
    obtain ⟨r, hr⟩ : ∃ r, r = setCount t (clearIn f b (b + t)).card := ⟨_, rfl⟩
    rw [← hr] at hle hrun
    have hrt : r ≤ t := by
      by_contra hgt
      have := (hnew (b + t)).mp ((hrun (b + t)).mpr ⟨by omega, by omega⟩)
      omega
    have hfront : ∀ k, b ≤ k → k < b + r → f k = false := fun k h₁ h₂ =>
      ((hrun k).mpr ⟨h₁, h₂⟩).1
    have hback : ∀ k, b + r ≤ k → b ≤ k → k < b + t → f k = true := by
      intro k h₁ h₂ h₃
      by_contra hk
      have := (hrun k).mp ((hnew k).mpr ⟨⟨h₂, h₃⟩, by simpa using hk⟩)
      omega
    -- the report is the number of clear bits, so it was not doubled
    have hcard : (clearIn f b (b + t)).card = r := by
      rw [card_clearIn_split (by omega : b + r ≤ b + t) hfront hback]
      omega
    rw [hcard] at hr hlt
    have hundoubled : r = 0 ∨ r + t ≠ 64 := by
      unfold setCount at hr
      split at hr <;> omega
    have hset := hback _ (Nat.le_refl (b + r)) (by omega) (by omega)
    refine ⟨hclean, Or.inr ⟨b + r, ⟨by omega, by omega⟩, hset, hfront,
      fun k h₁ h₂ => ?_, ?_, ?_⟩⟩
    · rw [hhi _ (by omega) (by omega)] at h₂
      exact hback k h₁ (by omega) h₂
    · rw [hlo _ (by omega) (by omega), hhi _ (by omega) (by omega)]
      omega
    · rw [hhi _ (by omega) (by omega)]
      exact hin
  · rintro ⟨-, ⟨hall, -⟩ | ⟨j, hj⟩⟩
    · exact absurd (fun k h₁ h₂ => hall k h₁ (by omega)) hsome
    · have hjt : j < b + t := by
        by_contra hge
        exact hsome fun k h₁ h₂ => hj.before k h₁ (by omega)
      have hrange := hj.range
      have hafter := hj.after
      have hcount := hj.count
      rw [hhi j hrange.1 hjt] at hafter hcount
      rw [hlo j hrange.1 hjt] at hcount
      have hcard : (clearIn f b (b + t)).card = j - b :=
        card_clearIn_split (by omega) hj.before fun k h₁ _ h₂ => hafter k h₁ h₂
      rw [hcard, setCount_eq (by omega)]
      refine ⟨by omega, fun k => ?_, fun k hk => ?_, Or.inr (Or.inl ?_)⟩
      · rw [hnew]
        constructor
        · rintro ⟨⟨h₁, h₂⟩, hk⟩
          refine ⟨h₁, ?_⟩
          by_contra hge
          rw [hafter k (by omega) h₂] at hk
          exact absurd hk (by simp)
        · rintro ⟨h₁, h₂⟩
          exact ⟨⟨h₁, by omega⟩, hj.before k h₁ (by omega)⟩
      · rw [hf', hclean k hk, decide_eq_false (by omega)]
        rfl
      · rw [show b + (j - b) = j by omega]
        exact hj.set

theorem not_runFits_past_end (hb : b < nrBits) (hpast : nrBits < b + runLen b n) :
    ¬ RunFits nrBits f b n := by
  unfold runLen at hpast
  rintro ⟨hclean, ⟨-, h⟩ | ⟨j, hj⟩⟩
  · omega
  · have hjlt : j < nrBits := by
      by_contra hge
      have := hj.set
      rw [hclean j (by omega)] at this
      exact absurd this (by simp)
    have hinside := hj.inside
    have hrange := hj.range
    unfold pieceHi at hinside
    omega

end Rounds

/-! ## The rounds of the code -/

section

variable {nrBits : Nat} {m : Axmap}

theorem axmapSet'_end {n : Nat} (h : AxmapSized nrBits m) (hn : 1 ≤ n)
    (hlt : nrBits + n < 2 ^ 64) :
    (axmapSet' m nrBits n).1.levels = m.levels ∧ (axmapSet' m nrBits n).2 = 0 := by
  unfold axmapSet'
  rw [h.bits, Nat.mod_eq_of_lt hlt, if_neg (Nat.lt_irrefl nrBits), if_pos (by omega), Nat.sub_self]
  exact ⟨rfl, rfl⟩

theorem axmapSet'_sets {b n : Nat} (h : AxmapSized nrBits m) (hb : b < nrBits)
    (hlt : roundUp nrBits < 2 ^ 64) (hn : 1 ≤ n) (hfit : b % 64 + n ≤ 64) :
    ∀ k, b ≤ k → k < b + n → baseBit (axmapSet' m b n).1.levels k = true := by
  intro k h₁ h₂
  have hrun : runLen b n = n := runLen_eq hfit
  have hend := runLen_le n (roundUp_mod nrBits) (Nat.lt_of_lt_of_le hb (le_roundUp nrBits))
  rw [hrun] at hend
  obtain ⟨nr, hnr⟩ : ∃ nr, nr = (if nrBits < b + n then nrBits - b else n) := ⟨_, rfl⟩
  have hpos : nr ≠ 0 := by
    rw [hnr]
    split <;> omega
  obtain ⟨levels', data', ret, heq, hne', hier', hbase, -⟩ :=
    axmapSetFn_round b ⟨n, 0⟩ h.levels h.hier (by rw [hrun]; exact hend)
  have hk : baseBit levels' k = true := by
    rw [hbase, hrun, decide_eq_true ⟨h₁, h₂⟩, Bool.or_true]
  unfold axmapSet'
  rw [h.bits, Nat.mod_eq_of_lt (by omega), if_neg (by omega)]
  dsimp only
  rw [← hnr, axmapSetLoop, if_neg hpos, heq]
  dsimp only
  split
  · exact hk
  · exact (axmapSetLoop_grows (roundUp_mod nrBits) _ levels' _ _ _ _ hne' hier').mono k hk

theorem axmapSetNrLoop_add : ∀ (fuel : Nat) (m : Axmap) (b n setBits : Nat),
    axmapSetNrLoop fuel m b n setBits =
      ((axmapSetNrLoop fuel m b n 0).1, setBits + (axmapSetNrLoop fuel m b n 0).2) := by
  intro fuel
  induction fuel with
  | zero => intro m b n setBits; rfl
  | succ fuel ih =>
    intro m b n setBits
    rw [axmapSetNrLoop_succ, axmapSetNrLoop_succ]
    split
    · rw [Nat.zero_add]
    · split
      · rw [Nat.zero_add]
      · rw [ih, ih _ _ _ (0 + _), Nat.zero_add, Nat.add_assoc]

/-- **The loop of `axmap_set_nr`** from a bit of the map on, or from its end if that is the end of
a word. -/
theorem axmapSetNrLoop_iff (hlt : nrBits + 64 < 2 ^ 64) : ∀ (fuel : Nat) (m : Axmap) (b n : Nat),
    AxmapSized nrBits m → (∀ k, nrBits ≤ k → baseBit m.levels k = false) →
    (b < nrBits ∨ b = nrBits ∧ nrBits % 64 = 0) → 1 ≤ n → n < 2 ^ 32 → n ≤ fuel →
    (SetsRun nrBits (baseBit m.levels) (baseBit (axmapSetNrLoop fuel m b n 0).1.levels) b n
        (axmapSetNrLoop fuel m b n 0).2 ↔
      RunFits nrBits (baseBit m.levels) b n) := by
  intro fuel
  induction fuel with
  | zero => intro m b n _ _ _ h₁ _ h₂; omega
  | succ fuel ih =>
    intro m b n h hclean hb hn hu hfuel
    obtain ⟨t, ht⟩ : ∃ t, t = runLen b n := ⟨_, rfl⟩
    have hmin : t = min n (64 - b % 64) := ht
    have hgrow := h.set' b t
    rw [axmapSetNrLoop_succ, ← ht]
    rcases hb with hb | ⟨rfl, hmod⟩
    · by_cases hpast : nrBits < b + t
      · -- the run leaves the map inside this word: the bit at the end of the map gets set
        have hset : baseBit (axmapSet' m b t).1.levels nrBits = true :=
          axmapSet'_sets h hb (by unfold roundUp; omega) (by omega) (by omega) nrBits (by omega) hpast
        refine iff_of_false ?_ (not_runFits_past_end hb (by rw [← ht]; exact hpast))
        rintro ⟨-, -, hinside, -⟩
        have hno := hinside nrBits (Nat.le_refl _)
        revert hno
        split
        · intro hno
          exact absurd (hset.symm.trans hno) (by simp)
        · split
          · intro hno
            exact absurd (hset.symm.trans hno) (by simp)
          · intro hno
            have := (AxmapSized.setNrLoop fuel _ (b + (axmapSet' m b t).2)
              (usub 32 n (axmapSet' m b t).2) (0 + (axmapSet' m b t).2) hgrow.1).2 _ hset
            exact absurd (this.symm.trans hno) (by simp)
      · obtain ⟨hcount, hbase⟩ := h.set'_inside (show b % 64 + t ≤ 64 by omega) (by omega)
          (by omega : b + t ≤ nrBits)
        have hcle := card_clearIn_le (baseBit m.levels) b (b + t)
        by_cases hall : ∀ k, b ≤ k → k < b + t → baseBit m.levels k = false
        · -- the whole part was clear: go on behind it, if there is more
          have hcard : (clearIn (baseBit m.levels) b (b + t)).card = t := by
            rw [card_clearIn_eq.mpr hall]
            omega
          rw [hcard, setCount_eq (by omega)] at hcount
          rw [hcount, if_neg (not_not_intro rfl), usub_eq_sub (by omega) (by omega)]
          by_cases hz : n - t = 0
          · obtain rfl : t = n := by omega
            rw [if_pos hz, Nat.zero_add]
            refine iff_of_true ⟨Nat.le_refl _, fun k => ?_, fun k hk => ?_, Or.inl rfl⟩
              ⟨hclean, Or.inl ⟨hall, Or.inl (by omega)⟩⟩
            · show _ ∧ baseBit (axmapSet' m b t).1.levels k = true ↔ _
              rw [hbase]
              by_cases hk : b ≤ k ∧ k < b + t
              · rw [hall k hk.1 hk.2, decide_eq_true hk]
                simp [hk]
              · rw [decide_eq_false hk]
                cases baseBit m.levels k <;> simp [hk]
            · show baseBit (axmapSet' m b t).1.levels k = false
              rw [hbase, hclean k hk, decide_eq_false (by omega)]
              rfl
          · have hrec := ih (axmapSet' m b t).1 (b + t) (n - t) hgrow.1
              (fun k hk => by rw [hbase, hclean k hk, decide_eq_false (by omega)]; rfl)
              (by omega) (by omega) (by omega) (by omega)
            rw [if_neg hz, axmapSetNrLoop_add fuel _ _ _ (0 + t), Nat.zero_add]
            dsimp only
            rw [setsRun_shift (by omega) hall hbase (AxmapSized.setNrLoop fuel _ _ _ _ hgrow.1).2, hrec]
            refine (runFits_shift hall (fun k hk => ?_) (by omega) (by omega) (by omega)).symm
            rw [hbase, decide_eq_false (by omega), Bool.or_false]
        · -- some bit of the part was set before: this round is the last
          have hlt' : (clearIn (baseBit m.levels) b (b + t)).card ≠ t := fun hc =>
            hall (card_clearIn_eq.mp (by omega))
          have hne : (axmapSet' m b t).2 ≠ t := by
            rw [hcount, setCount]
            split <;> omega
          rw [if_pos hne, hcount, Nat.zero_add, ht]
          rw [ht] at hbase hall
          exact setsRun_stop_iff hclean (by omega) hbase hall
    · -- the bit behind the last word: nothing is set
      obtain ⟨hlev, hzero⟩ := axmapSet'_end h (show 1 ≤ t by omega) (by omega)
      rw [hzero, if_pos (by omega)]
      dsimp only
      rw [hlev]
      refine iff_of_true ⟨by omega, fun k => ?_, hclean, Or.inr (Or.inr rfl)⟩
        ⟨hclean, Or.inl ⟨fun k h₁ _ => hclean k h₁, Or.inr hmod⟩⟩
      constructor
      · rintro ⟨h₁, h₂⟩
        exact absurd (h₁.symm.trans h₂) (by simp)
      · intro hk
        omega

end

/-- **When `axmap_set_nr` sets one contiguous run.** For every state that calls with any arguments
lead to, every bit of the map and every count: exactly when `RunFits` says so. -/
theorem contiguous_run_iff {smalloc : Nat → Nat → Bool} {nrBits b n : Nat} {m₀ : Axmap}
    {calls : List AxmapCall} (hlt : nrBits + 64 < 2 ^ 64) (hnew : axmapNew smalloc nrBits = some m₀)
    (hb : b < nrBits) (hn : 1 ≤ n) (hu : n < 2 ^ 32) :
    SetsRun nrBits (baseBit (runAxmap m₀ calls).levels)
        (baseBit (axmapSetNr (runAxmap m₀ calls) b n).1.levels) b n
        (axmapSetNr (runAxmap m₀ calls) b n).2 ↔
      RunFits nrBits (baseBit (runAxmap m₀ calls).levels) b n := by
  have h := runAxmap_sized (by omega) hnew calls
  generalize runAxmap m₀ calls = m at h
  by_cases hclean : ∀ k, nrBits ≤ k → baseBit m.levels k = false
  · exact axmapSetNrLoop_iff hlt (n + 1) m b n h hclean (Or.inl hb) hn hu (Nat.le_succ n)
  · refine iff_of_false (fun hrun => hclean fun k hk => ?_) fun hfits => hclean hfits.1
    by_contra hset
    have := (AxmapSized.setNrLoop (n + 1) m b n 0 h).2 k (by simpa using hset)
    exact absurd (this.symm.trans (hrun.inside k hk)) (by simp)

/-- On an empty map of 70 bits, four bits from bit 62 on are a run over two words. -/
theorem contiguous_run_iff_seventy :
    ∃ m₀, axmapNew (fun _ _ => true) 70 = some m₀ ∧
      (SetsRun 70 (baseBit (runAxmap m₀ []).levels)
          (baseBit (axmapSetNr (runAxmap m₀ []) 62 4).1.levels) 62 4
          (axmapSetNr (runAxmap m₀ []) 62 4).2 ↔
        RunFits 70 (baseBit (runAxmap m₀ []).levels) 62 4) :=
  ⟨_, rfl, @contiguous_run_iff (fun _ _ => true) 70 62 4 _ [] (by decide) rfl (by decide)
    (by decide) (by decide)⟩

/-- With bit 2 set, asking for the four bits from bit 0 on sets bits 0, 1 and 3 and reports three:
bit 2 is in the run that the answer stands for, and bit 3 is not. -/
theorem setNr_jumps_over_set_bit :
    ∃ m₀, axmapNew (fun _ _ => true) 64 = some m₀ ∧
      (axmapSetNr (runAxmap m₀ [.set 2]) 0 4).2 = 3 ∧
      baseBit (runAxmap m₀ [.set 2]).levels 2 = true ∧
      baseBit (runAxmap m₀ [.set 2]).levels 3 = false ∧
      baseBit (axmapSetNr (runAxmap m₀ [.set 2]) 0 4).1.levels 3 = true ∧
      ¬ SetsRun 64 (baseBit (runAxmap m₀ [.set 2]).levels)
        (baseBit (axmapSetNr (runAxmap m₀ [.set 2]) 0 4).1.levels) 0 4
        (axmapSetNr (runAxmap m₀ [.set 2]) 0 4).2 := by
  obtain ⟨m₀, hm⟩ : ∃ m₀ : Axmap, m₀ = ⟨[⟨0, [0#64]⟩], 0, 64⟩ := ⟨_, rfl⟩
  have hr : (axmapSetNr (runAxmap m₀ [.set 2]) 0 4).2 = 3 := by subst hm; decide
  have h₂ : baseBit (runAxmap m₀ [.set 2]).levels 2 = true := by subst hm; decide
  refine ⟨m₀, by subst hm; decide, hr, h₂, by subst hm; decide, by subst hm; decide, fun hrun => ?_⟩
  rw [hr] at hrun
  have := ((hrun.run 2).mpr (by omega)).1
  exact absurd (h₂.symm.trans this) (by simp)

end MysqlBench.Fio
