import MysqlBench.Fio.Smalloc.Model

/-!
# Runs of blocks in a pool's bitmap

`blocks_iter` visits the words a run of blocks lies in. With `idx` inside the word, the three
callbacks test, set and clear exactly the run; with the index past the word that `find_next_zero`
answers for a word whose rest is full, the test fails whatever the machine's shift gives, so
nothing is ever set there (`blocksIter_cmp_past`).
-/

namespace MysqlBench.Fio

open MysqlBench.Lib

def RunIs (bitmap : List Uint) (s n : Nat) (b : Bool) : Prop :=
  ∀ k, s ≤ k → k < s + n → bit bitmap k = b

/-! ## One word -/

variable {wild : Wild} {n idx : Nat} {func : MaskFn} {bitmap : List Uint} {p : Nat}

theorem blockMask_eq (hidx : idx < 32) (hn : n + idx ≤ 32) :
    blockMask wild n idx = runMask 32 idx n := by
  unfold blockMask
  by_cases h32 : n = 32
  · obtain rfl : idx = 0 := by omega
    subst h32
    rfl
  · have hlow : ∀ i : Fin 32, (1#32 <<< i.val) - 1#32 = BitVec.ofNat 32 (2 ^ i.val - 1) := by decide
    rw [if_neg h32, if_pos ⟨by omega, hidx⟩, hlow ⟨n, by omega⟩]
    rfl

def headBlocks (idx nrBlocks : Nat) : Nat := min nrBlocks (32 - idx)

theorem blocksIterLoop_succ
    {fuel : Nat} (hidx : idx < 32) (hpos : n ≠ 0) (hn : n < 2 ^ 31)
    (hp : p < bitmap.length) :
    blocksIterLoop wild func (fuel + 1) bitmap p idx n =
      match func (word bitmap p) (runMask 32 idx (headBlocks idx n)) with
      | .error e => .error e
      | .ok (false, w) => .ok (false, bitmap.set p w)
      | .ok (true, w) =>
          blocksIterLoop wild func fuel (bitmap.set p w) (p + 1) 0 (n - headBlocks idx n) := by
  have hthis : (if 32 < (n % 2 ^ 32 + idx) % 2 ^ 32 then usub 32 32 idx else n % 2 ^ 32)
      = headBlocks idx n := by
    rw [Nat.mod_eq_of_lt (show n < 2 ^ 32 by omega),
      Nat.mod_eq_of_lt (show n + idx < 2 ^ 32 by omega), headBlocks]
    split
    · rw [usub_eq_sub (by omega) (by decide)]
      omega
    · omega
  have hle : headBlocks idx n + idx ≤ 32 := by
    unfold headBlocks
    omega
  have hleft : usub 64 n (headBlocks idx n) = n - headBlocks idx n :=
    usub_eq_sub (by unfold headBlocks; omega) (by omega)
  rw [blocksIterLoop, if_neg hpos, if_neg (by omega)]
  dsimp only
  rewrite [hthis, blockMask_eq hidx hle, hleft]
  rfl

/-! ## Setting, clearing and testing a run -/

theorem run_split {k : Nat} (hidx : idx < 32) :
    (p * 32 + idx ≤ k ∧ k < p * 32 + idx + n) ↔
      (p * 32 + idx ≤ k ∧ k < p * 32 + idx + headBlocks idx n) ∨
        ((p + 1) * 32 + 0 ≤ k ∧ k < (p + 1) * 32 + 0 + (n - headBlocks idx n)) := by
  unfold headBlocks
  omega

/-- What `mask_set` and `mask_clear` do to the part of a run in one word: if it is all `!v`, they
make it all `v`. -/
def Flips (func : MaskFn) (v : Bool) : Prop :=
  ∀ {bitmap : List Uint} {p idx m : Nat}, p < bitmap.length → idx + m ≤ 32 →
    RunIs bitmap (p * 32 + idx) m (!v) →
    ∃ w, func (word bitmap p) (runMask 32 idx m) = .ok (true, w) ∧
      ∀ k, bit (bitmap.set p w) k
        = if p * 32 + idx ≤ k ∧ k < p * 32 + idx + m then v else bit bitmap k

theorem maskSet_flips : Flips maskSet true := by
  intro bitmap p idx m hp hle hrun
  have hzero : word bitmap p &&& runMask 32 idx m = 0#32 :=
    (and_run_eq_zero_iff hle).mpr fun j h1 h2 => hrun _ (by omega) (by omega)
  refine ⟨word bitmap p ||| runMask 32 idx m, by rw [maskSet, if_pos hzero], fun k => ?_⟩
  refine (bit_orWord_run hp hle (by decide) k).trans ?_
  split
  · rename_i hk; rw [decide_eq_true hk, Bool.or_true]
  · rename_i hk; rw [decide_eq_false hk, Bool.or_false]

theorem maskClear_flips : Flips maskClear false := by
  intro bitmap p idx m hp hle hrun
  have hfull : word bitmap p &&& runMask 32 idx m = runMask 32 idx m :=
    (and_run_eq_run_iff hle).mpr fun j h1 h2 => hrun _ (by omega) (by omega)
  refine ⟨word bitmap p &&& ~~~runMask 32 idx m, by rw [maskClear, if_pos hfull], fun k => ?_⟩
  refine (bit_clearWord_run hp hle (by decide) k).trans ?_
  split
  · rename_i hk; rw [decide_eq_true hk, Bool.not_true, Bool.and_false]
  · rename_i hk; rw [decide_eq_false hk, Bool.not_false, Bool.and_true]

/-- Going over a run that lies in the bitmap and is all `!v` makes it all `v`, and nothing else
changes. The induction is on the words left; the head of the run is done, the rest is a run from
the start of the next word. -/
theorem blocksIterLoop_flip {v : Bool} (hfunc : Flips func v) :
    ∀ (fuel : Nat) {bitmap : List Uint} {p idx n : Nat}, idx < 32 → n < 2 ^ 31 →
      bitmap.length < p + fuel → p * 32 + idx + n ≤ 32 * bitmap.length →
      RunIs bitmap (p * 32 + idx) n (!v) →
      ∃ bitmap', blocksIterLoop wild func fuel bitmap p idx n = .ok (true, bitmap') ∧
        bitmap'.length = bitmap.length ∧
        ∀ k, bit bitmap' k
          = if p * 32 + idx ≤ k ∧ k < p * 32 + idx + n then v else bit bitmap k := by
  intro fuel
  induction fuel with
  | zero => intro bitmap p idx n _ _ hf hfit _; omega
  | succ fuel ih =>
    intro bitmap p idx n hidx hn hf hfit hrun
    by_cases h0 : n = 0
    · subst h0
      exact ⟨bitmap, rfl, rfl, fun k => by rw [if_neg (by omega)]⟩
    · have hp : p < bitmap.length := by omega
      have hle : idx + headBlocks idx n ≤ 32 := by unfold headBlocks; omega
      have hhn : headBlocks idx n ≤ n := by unfold headBlocks; omega
      obtain ⟨w, hw, hbits⟩ := hfunc hp hle fun k h1 h2 => hrun k h1 (by omega)
      obtain ⟨bitmap', hrest, hlen, hbits'⟩ := @ih (bitmap.set p w) (p + 1) 0
        (n - headBlocks idx n) (by decide) (by omega) (by rw [List.length_set]; omega)
        (by rw [List.length_set]; unfold headBlocks; omega)
        (fun k h1 h2 => by
          rw [hbits, if_neg (by omega)]
          exact hrun k (by omega) (by unfold headBlocks at h2; omega))
      refine ⟨bitmap', ?_, hlen.trans List.length_set, fun k => ?_⟩
      · rw [blocksIterLoop_succ hidx h0 hn hp, hw]
        exact hrest
      · rw [hbits', hbits]
        have hsplit := run_split (p := p) (n := n) (k := k) hidx
        by_cases h1 : p * 32 + idx ≤ k ∧ k < p * 32 + idx + headBlocks idx n
        · rw [if_pos (hsplit.mpr (Or.inl h1)), if_pos h1, ite_self]
        · rw [if_neg h1]
          exact if_congr (hsplit.trans (or_iff_right h1)).symm rfl rfl

theorem blocksIter_flip {wild : Wild} {func : MaskFn} {v : Bool} (hfunc : Flips func v)
    {bitmap : List Uint} {p idx n : Nat} (hidx : idx < 32) (hn : n < 2 ^ 31)
    (hfit : p * 32 + idx + n ≤ 32 * bitmap.length) (hrun : RunIs bitmap (p * 32 + idx) n (!v)) :
    ∃ bitmap', blocksIter wild func bitmap p idx n = .ok (true, bitmap') ∧
      bitmap'.length = bitmap.length ∧
      ∀ k, bit bitmap' k
        = if p * 32 + idx ≤ k ∧ k < p * 32 + idx + n then v else bit bitmap k :=
  blocksIterLoop_flip hfunc _ hidx hn (by omega) hfit hrun

/-! ## Testing a run -/

theorem blocksIterLoop_cmp {wild : Wild} {bitmap : List Uint} :
    ∀ (fuel : Nat) {p idx n : Nat}, idx < 32 → n < 2 ^ 31 → bitmap.length < p + fuel → fuel ≠ 0 →
      (n = 0 → p * 32 + idx ≤ 32 * bitmap.length) →
      ∃ b, blocksIterLoop wild maskCmp fuel bitmap p idx n = .ok (b, bitmap) ∧
        (b = true ↔ p * 32 + idx + n ≤ 32 * bitmap.length ∧
          RunIs bitmap (p * 32 + idx) n false) := by
  intro fuel
  induction fuel with
  | zero => intro p idx n _ _ _ h0 _; exact absurd rfl h0
  | succ fuel ih =>
    intro p idx n hidx hn hf _ hempty
    by_cases h0 : n = 0
    · subst h0
      exact ⟨true, rfl, fun _ => ⟨hempty rfl, fun k h1 h2 => by omega⟩, fun _ => rfl⟩
    · by_cases hp : p < bitmap.length
      · -- the part of the run in this word, and then the rest from the next word on
        have hle : idx + headBlocks idx n ≤ 32 := by unfold headBlocks; omega
        have hhn : headBlocks idx n ≤ n := by unfold headBlocks; omega
        rw [blocksIterLoop_succ hidx h0 hn hp, maskCmp]
        by_cases hzero : word bitmap p &&& runMask 32 idx (headBlocks idx n) = 0#32
        · rw [decide_eq_true hzero]
          dsimp only
          rw [set_word]
          obtain ⟨b, hb, hiff⟩ := @ih (p + 1) 0 (n - headBlocks idx n) (by decide)
            (by omega) (by omega) (by omega) (fun _ => by omega)
          refine ⟨b, hb, hiff.trans
            ⟨fun ⟨h1, h2⟩ => ⟨?_, fun k hk1 hk2 => ?_⟩, fun ⟨h1, h2⟩ => ⟨?_, ?_⟩⟩⟩
          · unfold headBlocks at h1
            omega
          · rcases (run_split (n := n) hidx).mp ⟨hk1, hk2⟩ with hh | hh
            · have := (and_run_eq_zero_iff hle).mp hzero (k - p * 32) (by omega) (by omega)
              rwa [show p * 32 + (k - p * 32) = k by omega] at this
            · exact h2 k hh.1 hh.2
          · unfold headBlocks
            omega
          · intro k hk1 hk2
            have := (run_split (p := p) (n := n) (k := k) hidx).mpr (Or.inr ⟨hk1, hk2⟩)
            exact h2 k this.1 this.2
        · rw [decide_eq_false hzero]
          refine ⟨false, by dsimp only; rw [set_word], fun h => absurd h (by simp), fun ⟨_, h2⟩ => ?_⟩
          exact absurd
            ((and_run_eq_zero_iff hle).mpr fun j h3 h4 => h2 _ (by omega) (by omega)) hzero
      · refine ⟨false, ?_, fun h => absurd h (by simp), fun ⟨h1, _⟩ => by omega⟩
        rw [blocksIterLoop, if_neg h0, if_pos (by omega)]

/-- With the count wrapped to `2 ^ 64 - 2 ^ 32` and something, the loop never comes to an end of it:
the low half runs down to zero and then stays, until the bitmap ends. -/
theorem blocksIterLoop_cmp_wrapped :
    ∀ (fuel : Nat) {p n : Nat}, n < 2 ^ 32 → bitmap.length < p + fuel → fuel ≠ 0 →
      blocksIterLoop wild maskCmp fuel bitmap p 0 (2 ^ 64 - 2 ^ 32 + n) = .ok (false, bitmap) := by
  intro fuel
  induction fuel with
  | zero => intro p n _ _ h0; exact absurd rfl h0
  | succ fuel ih =>
    intro p n hn hf _
    rw [blocksIterLoop, if_neg (by omega)]
    by_cases hp : bitmap.length ≤ p
    · rw [if_pos hp]
    · rw [if_neg hp]
      dsimp only [maskCmp]
      have hlow : (2 ^ 64 - 2 ^ 32 + n) % 2 ^ 32 = n := by omega
      rw [hlow, Nat.add_zero, Nat.mod_eq_of_lt hn]
      generalize hthis : (if 32 < n then usub 32 32 0 else n) = this
      have hle : this ≤ n := by
        rw [← hthis]
        split
        · rw [show usub 32 32 0 = 32 from rfl]; omega
        · exact Nat.le_refl n
      have hleft : usub 64 (2 ^ 64 - 2 ^ 32 + n) this = 2 ^ 64 - 2 ^ 32 + (n - this) := by
        rw [usub_eq_sub (by omega) (by omega)]
        omega
      rw [hleft]
      cases hcmp : decide (word bitmap p &&& blockMask wild this 0 = 0#32) with
      | false =>
        dsimp only
        rw [set_word]
      | true =>
        dsimp only
        rw [set_word]
        exact ih (by omega) (by omega) (by omega)

theorem blocksIter_cmp_past (hidx : 32 < idx)
    (hpos : 0 < n) (hn : n + idx < 2 ^ 32) :
    blocksIter wild maskCmp bitmap p idx n = .ok (false, bitmap) := by
  rw [blocksIter, blocksIterLoop, if_neg (by omega)]
  by_cases hp : bitmap.length ≤ p
  · rw [if_pos hp]
  · rw [if_neg hp]
    dsimp only [maskCmp]
    rw [Nat.mod_eq_of_lt (show n < 2 ^ 32 by omega), Nat.mod_eq_of_lt hn, if_pos (by omega)]
    have hthis : usub 32 32 idx = 2 ^ 32 - (idx - 32) := by unfold usub; omega
    have hleft : usub 64 n (2 ^ 32 - (idx - 32)) = 2 ^ 64 - 2 ^ 32 + (n + idx - 32) := by
      unfold usub
      omega
    rw [hthis, hleft]
    cases hcmp : decide (word bitmap p &&& blockMask wild (2 ^ 32 - (idx - 32)) idx = 0#32) with
    | false =>
      dsimp only
      rw [set_word]
    | true =>
      dsimp only
      rw [set_word]
      exact blocksIterLoop_cmp_wrapped _ (by omega) (by omega) (by omega)

end MysqlBench.Fio
