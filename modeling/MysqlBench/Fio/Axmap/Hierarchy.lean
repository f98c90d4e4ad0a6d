import MysqlBench.Fio.Axmap.Model
import MysqlBench.Lib.ClearBits

/-!
# The hierarchy invariant of an `axmap`

> A set bit at layer N indicates a full word at layer N-1, and so forth.

`Hierarchy` is that sentence from the head of `axmap.c`, with the two facts about sizes that
make it inductive: a level has one word for every 64 entries of the level below, and the
entries past the last valid one (the unused end of a last, partial word) are never set. The
second is what keeps a partial word from ever looking full.

The bottom-up walks stop early, at the first level they do not have to change. So each walk
lemma is an induction over the levels with the same two cases: the walk stops here, and the
link to the level above has to hold because this word's fullness did not change; or it goes on,
and the recursive call has moved the level above in step.
-/

namespace MysqlBench.Fio

open MysqlBench.Lib

/-! ## Indices -/

variable {n i k : Nat} {al : AxmapLevel} {als : List AxmapLevel} {b : Nat} {δ : Type}

theorem shiftRight_six (v : Nat) : v >>> 6 = v / 64 := by
  rw [Nat.shiftRight_eq_div_pow]

theorem ulog64_eq : ∀ (n v : Nat), ulog64 v n = v / 64 ^ n := by
  intro n
  induction n with
  | zero => intro v; simp [ulog64]
  | succ n ih =>
    intro v
    rw [ulog64]
    by_cases hv : v = 0
    · subst hv; simp
    · rw [if_neg hv, ih, shiftRight_six, Nat.div_div_eq_div_mul, pow_succ']

theorem ulog64_zero (v : Nat) : ulog64 v 0 = v := rfl

theorem ulog64_succ (v n : Nat) : ulog64 v (n + 1) = ulog64 v n / 64 := by
  rw [ulog64_eq, ulog64_eq, Nat.div_div_eq_div_mul, pow_succ]

/-! ## The invariant -/

structure LevelOk (i valid : Nat) (al : AxmapLevel) : Prop where
  level : al.level = i
  size : al.map.length = (valid + 63) / 64
  tail : ∀ k, valid ≤ k → bit al.map k = false

def Linked (al up : AxmapLevel) : Prop :=
  ∀ k, bit up.map k = true ↔ word al.map k = BitVec.allOnes 64

def Hierarchy : Nat → Nat → List AxmapLevel → Prop
  | _, _, [] => True
  | i, valid, al :: als =>
      LevelOk i valid al ∧ (∀ up, als.head? = some up → Linked al up) ∧
        Hierarchy (i + 1) al.map.length als

def baseBit : List AxmapLevel → Nat → Bool
  | [], _ => false
  | al :: _, k => bit al.map k

theorem LevelOk.lt_size {valid : Nat} (h : LevelOk i valid al)
    (hk : k < valid) : k / 64 < al.map.length := by
  rw [h.size]
  omega

theorem Linked.of_head
    (h : ∀ up, als.head? = some up → Linked al up) (hne : als ≠ []) :
    baseBit als k = true ↔ word al.map k = BitVec.allOnes 64 := by
  cases als with
  | nil => exact absurd rfl hne
  | cons up rest => exact h up rfl k

theorem Linked.congr {al' : AxmapLevel}
    (h : ∀ up, als.head? = some up → Linked al up)
    (hw : ∀ k, word al'.map k = BitVec.allOnes 64 ↔ word al.map k = BitVec.allOnes 64) :
    ∀ up, als.head? = some up → Linked al' up :=
  fun up hup k => (h up hup k).trans (hw k).symm

theorem Linked.of_baseBit
    (h : ∀ k, als ≠ [] → (baseBit als k = true ↔ word al.map k = BitVec.allOnes 64)) :
    ∀ up, als.head? = some up → Linked al up := by
  intro up hup k
  cases als with
  | nil => exact absurd hup (by simp)
  | cons up' rest =>
    obtain rfl : up' = up := by simpa using hup
    exact h k (by simp)

/-! ## What the callbacks do to one level -/

theorem bitMasks_getD (hn : n ≤ 64) :
    bitMasks.getD n 0#64 = BitVec.ofNat 64 (2 ^ n - 1) := by
  have h : ∀ i : Fin 65, bitMasks.getD i.val 0#64 = BitVec.ofNat 64 (2 ^ i.val - 1) := by decide
  exact h ⟨n, by omega⟩

theorem one_shiftLeft_eq_runMask (b : Nat) : (1#64 <<< b) = runMask 64 b 1 := rfl

/-- Taking the lowest set bit off a word: it was not below `lo` if nothing was, and nothing up to
`lo` is left. -/
theorem clear_lowest {overlap : Ulong} (hz : overlap ≠ 0#64) {lo : Nat}
    (hlow : ∀ i, i < lo → overlap.getLsbD i = false) :
    lo ≤ ffs overlap ∧ ∀ i, i < lo + 1 →
      (overlap &&& ~~~(1#64 <<< ffs overlap)).getLsbD i = false := by
  have hffs := ffs_spec hz
  have hge : lo ≤ ffs overlap := by
    by_contra hcon
    rw [hlow _ (by omega)] at hffs
    exact absurd hffs.1 (by simp)
  refine ⟨hge, fun i hi => ?_⟩
  rw [one_shiftLeft_eq_runMask, BitVec.getLsbD_and, BitVec.getLsbD_not, getLsbD_runMask]
  by_cases hi2 : i < ffs overlap
  · rw [hffs.2 i hi2, Bool.false_and]
  · obtain rfl : i = ffs overlap := by omega
    simp [ffs_lt hz]

theorem setIn_clear_lowest (overlap : Ulong) (p : Nat) :
    setIn (overlap &&& ~~~(1#64 <<< p)) = (setIn overlap).erase p := by
  ext i
  rw [mem_setIn, Finset.mem_erase, mem_setIn, one_shiftLeft_eq_runMask, BitVec.getLsbD_and,
    BitVec.getLsbD_not, getLsbD_runMask, Bool.and_eq_true, Bool.and_eq_true, decide_eq_true_eq,
    Bool.not_eq_true', decide_eq_false_iff_not]
  constructor
  · rintro ⟨h, hi, hp⟩
    exact ⟨by omega, h⟩
  · rintro ⟨hp, h⟩
    exact ⟨h, BitVec.lt_of_getLsbD h, by omega⟩

/-- The loop over the overlap clears exactly the overlap from the mask and counts it off the
length. Its invariant is that `fuel` rounds are left for the bits at and above `64 - fuel`. -/
theorem dropOverlap_eq : ∀ (fuel : Nat) (overlap mask : Ulong) (n : Nat), fuel ≤ 64 →
    (∀ i, i < 64 - fuel → overlap.getLsbD i = false) →
    dropOverlap fuel overlap mask n = (mask &&& ~~~overlap, n - (setIn overlap).card) := by
  intro fuel
  induction fuel with
  | zero =>
    intro overlap mask n _ hlow
    obtain rfl : overlap = 0#64 := eq_zero_iff.mpr fun i hi => hlow i (by omega)
    rw [setIn_zero, show ~~~(0#64) = BitVec.allOnes 64 from rfl, BitVec.and_allOnes]
    rfl
  | succ fuel ih =>
    intro overlap mask n hf hlow
    rw [dropOverlap]
    by_cases hz : overlap = 0#64
    · subst hz
      rw [if_pos rfl, setIn_zero, show ~~~(0#64) = BitVec.allOnes 64 from rfl, BitVec.and_allOnes]
      rfl
    · rw [if_neg hz, show ffz (~~~overlap) = ffs overlap by rw [ffz, BitVec.not_not]]
      -- the lowest bit of the overlap goes, and the bits below the fuel stay clear
      obtain ⟨hge, hrest⟩ := clear_lowest hz hlow
      have hffs := (ffs_spec hz).1
      dsimp only
      rw [ih _ _ _ (by omega) (fun i hi => hrest i (by omega)), setIn_clear_lowest,
        Finset.card_erase_of_mem (mem_setIn.mpr hffs)]
      have hpos : 0 < (setIn overlap).card := Finset.card_pos.mpr ⟨_, mem_setIn.mpr hffs⟩
      refine Prod.ext ?_ (by show n - 1 - ((setIn overlap).card - 1) = _; omega)
      refine BitVec.eq_of_getLsbD_eq fun i hi => ?_
      rw [one_shiftLeft_eq_runMask]
      simp only [BitVec.getLsbD_and, BitVec.getLsbD_not, getLsbD_runMask, hi, decide_true,
        Bool.true_and, true_and]
      by_cases hi2 : i = ffs overlap
      · subst hi2; simp [hffs]
      · have hout : decide (ffs overlap ≤ i ∧ i < ffs overlap + 1) = false :=
          decide_eq_false (by omega)
        rw [hout, Bool.not_false, Bool.and_true, Bool.and_true]

theorem orWord_drop (map : List Ulong) (offset : Nat) (mask : Ulong) :
    orWord map offset (mask &&& ~~~(word map offset &&& mask)) = orWord map offset mask := by
  unfold orWord
  congr 1
  refine BitVec.eq_of_getLsbD_eq fun i hi => ?_
  simp only [BitVec.getLsbD_or, BitVec.getLsbD_and, BitVec.getLsbD_not, hi, decide_true,
    Bool.true_and]
  cases (word map offset).getLsbD i <;> cases mask.getLsbD i <;> rfl

def runLen (b n : Nat) : Nat := min n (64 - b % 64)

theorem runLen_eq (h : b % 64 + n ≤ 64) : runLen b n = n := by
  unfold runLen
  omega

theorem runLen_fits (b n : Nat) : b % 64 + runLen b n ≤ 64 := by
  unfold runLen
  omega

/-- `axmap_set_fn` takes the part of the run that lies in its word. Either all of it was set and
nothing happens, or it is or-ed in and the walk goes on exactly when the word is now full. The
number of bits that were clear is only written at level 0. -/
theorem axmapSetFn_cases (al : AxmapLevel) (idx : Nat) (data : AxmapSetData) :
    ((∀ k, idx ≤ k → k < idx + runLen idx data.nrBits → bit al.map k = true) ∧
        axmapSetFn al (idx / 64) (idx % 64) data = (al, data, true)) ∨
      ((∃ k, (idx ≤ k ∧ k < idx + runLen idx data.nrBits) ∧ bit al.map k = false) ∧
        axmapSetFn al (idx / 64) (idx % 64) data =
          ({ al with map := orWord al.map (idx / 64) (runMask 64 (idx % 64) (runLen idx data.nrBits)) },
            { nrBits := 1,
              setBits := if al.level = 0 then
                  (clearIn (bit al.map) idx (idx + runLen idx data.nrBits)).card
                else data.setBits },
            word (orWord al.map (idx / 64) (runMask 64 (idx % 64) (runLen idx data.nrBits)))
              (idx / 64) != BitVec.allOnes 64)) := by
  have hfit := runLen_fits idx data.nrBits
  have hpos : idx / 64 * 64 + idx % 64 = idx := by omega
  have hmask : bitMasks.getD (min data.nrBits (64 - idx % 64)) 0#64 <<< (idx % 64) =
      runMask 64 (idx % 64) (runLen idx data.nrBits) := by
    rw [bitMasks_getD (by omega)]
    rfl
  have hcount := card_setIn_run (r := al.map) (i := idx / 64) hfit
  rw [hpos] at hcount
  have hall : word al.map (idx / 64) &&& runMask 64 (idx % 64) (runLen idx data.nrBits) =
        runMask 64 (idx % 64) (runLen idx data.nrBits) ↔
      ∀ k, idx ≤ k → k < idx + runLen idx data.nrBits → bit al.map k = true := by
    rw [and_run_eq_run_iff hfit]
    constructor
    · intro h k h₁ h₂
      have := h (k - idx / 64 * 64) (by omega) (by omega)
      rwa [show idx / 64 * 64 + (k - idx / 64 * 64) = k by omega] at this
    · intro h j h₁ h₂
      exact h _ (by omega) (by omega)
  unfold axmapSetFn
  simp only [hmask]
  -- all bits of the run in this word are set and the walk ends, or the mask loses those that are
  by_cases hov : word al.map (idx / 64) &&& runMask 64 (idx % 64) (runLen idx data.nrBits) =
      runMask 64 (idx % 64) (runLen idx data.nrBits)
  · exact Or.inl ⟨hall.mp hov, by rw [if_pos hov]⟩
  · refine Or.inr ⟨?_, ?_⟩
    · have hnot := mt hall.mpr hov
      push Not at hnot
      obtain ⟨k, h₁, h₂, hk⟩ := hnot
      exact ⟨k, ⟨h₁, h₂⟩, by simpa using hk⟩
    · rw [if_neg hov, dropOverlap_eq 64 _ _ _ (Nat.le_refl 64) (fun i hi => absurd hi (by omega)),
        orWord_drop, show min data.nrBits (64 - idx % 64) = runLen idx data.nrBits from rfl, hcount]

theorem axmapClearFn_cases (al : AxmapLevel) (offset : Nat) (hb : b < 64) :
    (bit al.map (offset * 64 + b) = false ∧ axmapClearFn al offset b () = (al, (), true)) ∨
      (bit al.map (offset * 64 + b) = true ∧ axmapClearFn al offset b () =
        ({ al with map := clearWord al.map offset (runMask 64 b 1) }, (), false)) := by
  unfold axmapClearFn
  rw [bit_mul_add al.map offset hb]
  by_cases hz : word al.map offset &&& (1#64 <<< b) = 0#64
  · exact Or.inl ⟨(and_one_shiftLeft_eq_zero_iff hb).mp hz, by rw [if_pos hz]⟩
  · refine Or.inr ⟨?_, by rw [if_neg hz, one_shiftLeft_eq_runMask]⟩
    cases hbit : (word al.map offset).getLsbD b with
    | true => rfl
    | false => exact absurd ((and_one_shiftLeft_eq_zero_iff hb).mpr hbit) hz

/-! ## The walks -/

theorem axmapHandler_length (func : LevelFn δ) (bitNr : Nat) :
    ∀ (als : List AxmapLevel) (i : Nat) (data : δ),
      (axmapHandler func bitNr i als data).1.length = als.length := by
  intro als
  induction als with
  | nil => intro _ _; rfl
  | cons al als ih =>
    intro i data
    rw [axmapHandler]
    dsimp only
    split
    · rfl
    · simp [ih]

theorem axmapHandler_ne_nil {func : LevelFn δ} {bitNr : Nat} {data : δ} (h : (axmapHandler func bitNr i als data).1 ≠ []) : als ≠ [] := by
  rintro rfl
  exact h rfl

/-- Setting the part of a run that lies in one word, from level `i` up: the hierarchy holds again
and that part has been added to the lowest level. Above the first level the run is the one bit of
the word that has become full. -/
theorem axmapSetFn_walk (bitNr : Nat) : ∀ (als : List AxmapLevel) (i valid : Nat)
    (data : AxmapSetData), Hierarchy i valid als →
    ulog64 bitNr i + runLen (ulog64 bitNr i) data.nrBits ≤ valid →
    Hierarchy i valid (axmapHandler axmapSetFn bitNr i als data).1 ∧
      (als ≠ [] → ∀ k, baseBit (axmapHandler axmapSetFn bitNr i als data).1 k
        = (baseBit als k || decide (ulog64 bitNr i ≤ k ∧
            k < ulog64 bitNr i + runLen (ulog64 bitNr i) data.nrBits))) := by
  intro als
  induction als with
  | nil => intro i valid data _ _; exact ⟨trivial, fun h => absurd rfl h⟩
  | cons al als ih =>
    intro i valid data hier hle
    obtain ⟨hlev, hlink, hup⟩ := hier
    obtain ⟨idx, hidx⟩ : ∃ idx, idx = ulog64 bitNr i := ⟨_, rfl⟩
    obtain ⟨len, hlen⟩ : ∃ len, len = runLen idx data.nrBits := ⟨_, rfl⟩
    have hfit := runLen_fits idx data.nrBits
    have hcases := axmapSetFn_cases al idx data
    rw [← hidx] at hle ⊢
    rw [← hlen] at hle hfit hcases ⊢
    have hpos : idx / 64 * 64 + idx % 64 = idx := by omega
    rw [axmapHandler, ← hidx, shiftRight_six]
    rcases hcases with ⟨hov, he⟩ | ⟨⟨c, hc, hclear⟩, he⟩
    · -- the whole run was set: nothing changes
      rw [he]
      refine ⟨⟨hlev, hlink, hup⟩, fun _ k => ?_⟩
      show bit al.map k = _
      by_cases hk : idx ≤ k ∧ k < idx + len
      · simp [baseBit, hov k hk.1 hk.2]
      · simp [baseBit, hk]
    · rw [he]
      dsimp only
      have hoff : idx / 64 < al.map.length := hlev.lt_size (by omega)
      have hbits : ∀ k, bit (orWord al.map (idx / 64) (runMask 64 (idx % 64) len)) k
          = (bit al.map k || decide (idx ≤ k ∧ k < idx + len)) := by
        intro k
        rw [bit_orWord_run hoff hfit (by decide), hpos]
      have hlev' : LevelOk i valid
          { al with map := orWord al.map (idx / 64) (runMask 64 (idx % 64) len) } := by
        refine ⟨hlev.level, ?_, fun k hk => ?_⟩
        · rw [← hlev.size, length_orWord]
        · rw [hbits k, hlev.tail k hk, decide_eq_false (by omega)]
          rfl
      -- the word was not full before: one of the run's bits was clear
      have hnotfull : word al.map (idx / 64) ≠ BitVec.allOnes 64 := by
        intro hf
        have := word_eq_allOnes_iff.mp hf (c - idx / 64 * 64) (by omega)
        rw [show idx / 64 * 64 + (c - idx / 64 * 64) = c by omega, hclear] at this
        exact absurd this (by simp)
      have hother : ∀ k, k ≠ idx / 64 →
          word (orWord al.map (idx / 64) (runMask 64 (idx % 64) len)) k = word al.map k := by
        intro k hk
        rw [word_orWord _ hoff, if_neg hk]
      by_cases hfull : word (orWord al.map (idx / 64) (runMask 64 (idx % 64) len)) (idx / 64) =
          BitVec.allOnes 64
      · rw [hfull]
        simp only [bne_self_eq_false, Bool.false_eq_true, if_false]
        have hsucc : ulog64 bitNr (i + 1) = idx / 64 := by rw [ulog64_succ, hidx]
        have hone : runLen (idx / 64) 1 = 1 := runLen_eq (by omega)
        obtain ⟨hup', hbase⟩ := ih (i + 1) al.map.length
          ⟨1, if al.level = 0 then (clearIn (bit al.map) idx (idx + len)).card else data.setBits⟩ hup
          (by rw [hsucc, hone]; exact hoff)
        rw [hsucc, hone] at hbase
        refine ⟨⟨hlev', Linked.of_baseBit fun k hne => ?_, ?_⟩, fun _ k => hbits k⟩
        · have hne' : als ≠ [] := axmapHandler_ne_nil hne
          rw [hbase hne' k]
          by_cases hk : k = idx / 64
          · subst hk
            simp [hfull]
          · rw [hother k hk, decide_eq_false (by omega), Bool.or_false]
            exact Linked.of_head hlink hne'
        · show Hierarchy (i + 1) (orWord al.map _ _).length _
          rw [length_orWord]
          exact hup'
      · have hb : (word (orWord al.map (idx / 64) (runMask 64 (idx % 64) len)) (idx / 64)
            != BitVec.allOnes 64) = true := by simpa using hfull
        rw [hb]
        simp only [if_true]
        refine ⟨⟨hlev', Linked.congr hlink fun k => ?_, ?_⟩, fun _ k => hbits k⟩
        · by_cases hk : k = idx / 64
          · subst hk
            exact ⟨fun h => absurd h hfull, fun h => absurd h hnotfull⟩
          · show word (orWord _ _ _) k = _ ↔ _
            rw [hother k hk]
        · show Hierarchy (i + 1) (orWord al.map _ _).length _
          rw [length_orWord]
          exact hup

theorem axmapClearFn_walk (bitNr : Nat) : ∀ (als : List AxmapLevel) (i valid : Nat),
    Hierarchy i valid als → ulog64 bitNr i < valid →
    Hierarchy i valid (axmapHandler axmapClearFn bitNr i als ()).1 ∧
      (als ≠ [] → ∀ k, baseBit (axmapHandler axmapClearFn bitNr i als ()).1 k
        = (baseBit als k && !decide (k = ulog64 bitNr i))) := by
  intro als
  induction als with
  | nil => intro i valid _ _; exact ⟨trivial, fun h => absurd rfl h⟩
  | cons al als ih =>
    intro i valid hier hlt
    obtain ⟨hlev, hlink, hup⟩ := hier
    obtain ⟨idx, hidx⟩ : ∃ idx, idx = ulog64 bitNr i := ⟨_, rfl⟩
    rw [← hidx] at hlt ⊢
    have hoff : idx / 64 < al.map.length := hlev.lt_size hlt
    have hpos : idx / 64 * 64 + idx % 64 = idx := by omega
    have hb : idx % 64 < 64 := Nat.mod_lt _ (by decide)
    rw [axmapHandler, ← hidx, shiftRight_six]
    -- a bit that is clear ends the walk; otherwise its word loses it, and so do the entries above
    rcases axmapClearFn_cases al (idx / 64) hb with ⟨hc, he⟩ | ⟨hc, he⟩
    · rw [hpos] at hc
      rw [he]
      refine ⟨⟨hlev, hlink, hup⟩, fun _ k => ?_⟩
      show bit al.map k = _
      by_cases hk : k = idx
      · subst hk; simp [baseBit, hc]
      · simp [baseBit, hk]
    · rw [he]
      simp only [Bool.false_eq_true, if_false]
      have hbits : ∀ k, bit (clearWord al.map (idx / 64) (runMask 64 (idx % 64) 1)) k
          = (bit al.map k && !decide (k = idx)) := by
        intro k
        rw [bit_clearWord_run hoff (by omega) (by decide), hpos]
        congr 2
        exact decide_eq_decide.mpr (by omega)
      have hlev' : LevelOk i valid
          { al with map := clearWord al.map (idx / 64) (runMask 64 (idx % 64) 1) } := by
        refine ⟨hlev.level, ?_, fun k hk => ?_⟩
        · rw [← hlev.size, length_clearWord]
        · rw [hbits k, hlev.tail k hk, Bool.false_and]
      have hsucc : ulog64 bitNr (i + 1) = idx / 64 := by rw [ulog64_succ, hidx]
      obtain ⟨hup', hbase⟩ := ih (i + 1) al.map.length hup (by rw [hsucc]; exact hoff)
      refine ⟨⟨hlev', Linked.of_baseBit fun k hne => ?_, ?_⟩, fun _ k => hbits k⟩
      · have hne' : als ≠ [] := axmapHandler_ne_nil hne
        rw [hbase hne' k, hsucc]
        by_cases hk : k = idx / 64
        · -- this word has just lost a bit, so it is not full, and its entry above is clear
          subst hk
          simp only [decide_true, Bool.not_true, Bool.and_false, Bool.false_eq_true, false_iff]
          intro hf
          have := word_eq_allOnes_iff.mp hf (idx % 64) hb
          rw [hpos, hbits idx] at this
          simp at this
        · rw [decide_eq_false hk, Bool.not_false, Bool.and_true]
          show _ ↔ word (clearWord _ _ _) k = _
          rw [word_clearWord _ hoff, if_neg hk]
          exact Linked.of_head hlink hne'
      · show Hierarchy (i + 1) (clearWord al.map _ _).length _
        rw [length_clearWord]
        exact hup'

end MysqlBench.Fio
