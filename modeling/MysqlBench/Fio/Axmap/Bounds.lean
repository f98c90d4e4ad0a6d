import MysqlBench.Fio.Axmap.SetNr

/-!
# Which `axmap` calls stay inside their maps

The walks index the words of a level without a check; the callers check `bit_nr` against `nr_bits`.
This file runs the same code with the checks C leaves out: a walk over a word outside its level is a
fault, and so is taking more off the count of remaining bits of `__axmap_set` than is left of it.
Where there is no fault the checked functions answer what the functions of `Axmap/Model.lean` answer.

`axmap_set` never faults. `axmap_isset` admits the bit number `nr_bits` itself, which has no word if
`nr_bits` is a multiple of 64. `axmap_set_nr` faults on the runs of `RunsPast`: those that leave the
map inside its last word with fewer than 32 bits to go, while the word has just as many clear bits
as make the loop of `__axmap_set` believe that it has to go on.
-/

namespace MysqlBench.Fio

open MysqlBench.Lib

inductive AxmapFault where
  | outside (level offset : Nat)
  | underflow
deriving Repr, DecidableEq

/-! ## The code with its checks -/

def axmapHandlerChecked {δ : Type} (func : LevelFn δ) (bitNr : Nat) :
    Nat → List AxmapLevel → δ → Except AxmapFault (List AxmapLevel × δ × Bool)
  | _, [], data => .ok ([], data, false)
  | i, al :: als, data =>
      let index := ulog64 bitNr i
      if al.map.length ≤ index >>> 6 then .error (.outside i (index >>> 6))
      else
        let (al', data', stop) := func al (index >>> 6) (index % 64) data
        if stop then .ok (al' :: als, data', true)
        else
          match axmapHandlerChecked func bitNr (i + 1) als data' with
          | .ok (als', data'', ret) => .ok (al' :: als', data'', ret)
          | .error e => .error e

def axmapHandlerTopdownChecked (func : AxmapLevel → Nat → Nat → Bool) (bitNr : Nat)
    (levels : List AxmapLevel) : Nat → Except AxmapFault Bool
  | 0 => .ok false
  | i + 1 =>
      let index := ulog64 bitNr i
      match levels[i]? with
      | some al =>
          if al.map.length ≤ index >>> 6 then .error (.outside i (index >>> 6))
          else if func al (index >>> 6) (index % 64) then .ok true
          else axmapHandlerTopdownChecked func bitNr levels i
      | none => axmapHandlerTopdownChecked func bitNr levels i

def axmapSetLoopChecked : Nat → List AxmapLevel → Nat → Nat → AxmapSetData → Nat →
    Except AxmapFault (List AxmapLevel × Nat)
  | 0, levels, _, _, _, setBits => .ok (levels, setBits)
  | fuel + 1, levels, bitNr, nrBits, data, setBits =>
      if nrBits = 0 then .ok (levels, setBits)
      else
        match axmapHandlerChecked axmapSetFn bitNr 0 levels data with
        | .error e => .error e
        | .ok (levels', data', _) =>
            if data'.setBits = 0 ∨ data'.setBits ≠ usub 64 64 nrBits then
              .ok (levels', setBits + data'.setBits)
            else if nrBits < data'.setBits then .error .underflow
            else
              let left := usub 32 nrBits data'.setBits
              axmapSetLoopChecked fuel levels' (bitNr + data'.setBits) left
                { data' with nrBits := left } (setBits + data'.setBits)

def axmapSetChecked' (axmap : Axmap) (bitNr n : Nat) : Except AxmapFault (Axmap × Nat) :=
  let firstFree :=
    if bitNr ≤ axmap.firstFree ∧ axmap.firstFree < (bitNr + n) % 2 ^ 64 then noFree
    else axmap.firstFree
  if axmap.nrBits < bitNr then .ok ({ axmap with firstFree := firstFree }, 0)
  else
    let nrBits := if axmap.nrBits < (bitNr + n) % 2 ^ 64 then axmap.nrBits - bitNr else n
    match axmapSetLoopChecked (nrBits + 1) axmap.levels bitNr nrBits ⟨n, 0⟩ 0 with
    | .error e => .error e
    | .ok (levels, setBits) => .ok ({ axmap with levels := levels, firstFree := firstFree }, setBits)

def axmapSetChecked (axmap : Axmap) (bitNr : Nat) : Except AxmapFault Axmap :=
  (axmapSetChecked' axmap bitNr 1).map (·.1)

def axmapSetNrLoopChecked : Nat → Axmap → Nat → Nat → Nat → Except AxmapFault (Axmap × Nat)
  | 0, axmap, _, _, setBits => .ok (axmap, setBits)
  | fuel + 1, axmap, bitNr, nrBits, setBits =>
      let maxBits := 64 - bitNr % 64
      let thisSet := if maxBits < nrBits then maxBits else nrBits
      match axmapSetChecked' axmap bitNr thisSet with
      | .error e => .error e
      | .ok (axmap', nowSet) =>
          if nowSet ≠ thisSet then .ok (axmap', setBits + nowSet)
          else
            let left := usub 32 nrBits nowSet
            if left = 0 then .ok (axmap', setBits + nowSet)
            else axmapSetNrLoopChecked fuel axmap' (bitNr + nowSet) left (setBits + nowSet)

def axmapSetNrChecked (axmap : Axmap) (bitNr nrBits : Nat) : Except AxmapFault (Axmap × Nat) :=
  axmapSetNrLoopChecked (nrBits + 1) axmap bitNr nrBits 0

def axmapIssetChecked (axmap : Axmap) (bitNr : Nat) : Except AxmapFault Bool :=
  if bitNr ≤ axmap.nrBits then
    axmapHandlerTopdownChecked axmapIssetFn bitNr axmap.levels axmap.levels.length
  else .ok false

structure StaysInside (m : Axmap) (b n : Nat) : Prop where
  set : axmapSetChecked m b = .ok (axmapSet m b)
  setNr : axmapSetNrChecked m b n = .ok (axmapSetNr m b n)
  isset : axmapIssetChecked m b = .ok (axmapIsset m b)

/-- The runs that fault: the run reaches the last word with its bits before that clear, leaves the
map inside it with fewer than 32 bits to go, and its part in that word has as many clear bits as
make 64 together with the bits to go. -/
structure RunsPast (nrBits : Nat) (f : Nat → Bool) (b n : Nat) : Prop where
  leaves : pieceLo b nrBits < nrBits ∧ nrBits < pieceHi b n nrBits
  few : nrBits - pieceLo b nrBits < 32
  clear : ∀ k, b ≤ k → k < pieceLo b nrBits → f k = false
  count : (clearIn f (pieceLo b nrBits) (pieceHi b n nrBits)).card =
    64 - (nrBits - pieceLo b nrBits)

/-! ## Walks -/

variable {levels : List AxmapLevel} {valid b : Nat}

theorem axmapHandlerChecked_ok {δ : Type} (func : LevelFn δ) (bitNr : Nat) :
    ∀ (als : List AxmapLevel) (i valid : Nat) (data : δ), Hierarchy i valid als →
      ulog64 bitNr i < valid →
      axmapHandlerChecked func bitNr i als data = .ok (axmapHandler func bitNr i als data) := by
  intro als
  induction als with
  | nil => intro i valid data _ _; rfl
  | cons al als ih =>
    rintro i valid data ⟨hlev, -, hup⟩ hlt
    have hoff : ulog64 bitNr i / 64 < al.map.length := hlev.lt_size hlt
    rw [axmapHandlerChecked, axmapHandler, shiftRight_six, if_neg (by omega)]
    dsimp only
    split
    · rfl
    · rw [ih (i + 1) al.map.length _ hup (by rw [ulog64_succ]; exact hoff)]

theorem axmapHandlerTopdownChecked_ok
    (func : AxmapLevel → Nat → Nat → Bool) (h : Hierarchy 0 valid levels) (hb : b < valid) :
    ∀ n, axmapHandlerTopdownChecked func b levels n =
      .ok (axmapHandlerTopdown func b levels n) := by
  intro n
  induction n with
  | zero => rfl
  | succ n ih =>
    rw [axmapHandlerTopdownChecked, axmapHandlerTopdown]
    cases hal : levels[n]? with
    | none => exact ih
    | some al =>
      have hoff := h.ulog64_lt hb n al hal
      rw [ulog64_succ] at hoff
      dsimp only
      rw [shiftRight_six, if_neg (by omega), ih]
      cases func al (ulog64 b n / 64) (ulog64 b n % 64) <;> rfl

/-- The walk down to a bit without a word: no level above has its entry set, so nothing stops it
before it reads outside. -/
theorem axmapHandlerTopdownChecked_outside
    (h : Hierarchy 0 valid levels) (hmod : valid % 64 = 0) (hb : valid ≤ b) :
    ∀ (n : Nat) (r : Bool), n < levels.length →
      axmapHandlerTopdownChecked axmapIssetFn b levels (n + 1) ≠ .ok r := by
  intro n
  induction n with
  | zero =>
    intro r hn
    have hal := List.getElem?_eq_getElem hn
    obtain ⟨v, hlev, h0, -⟩ := h.levelOk hal
    -- the word of the bit is behind the lowest level
    have hout : levels[0].map.length ≤ b / 64 := by
      rw [hlev.size, h0 rfl]
      omega
    rw [axmapHandlerTopdownChecked, hal]
    dsimp only
    rw [ulog64_zero, shiftRight_six, if_pos hout]
    simp
  | succ n ih =>
    intro r hn
    have hal := List.getElem?_eq_getElem hn
    -- a set entry above would stand for set bits behind the end
    have hentry : bit levels[n + 1].map (ulog64 b (n + 1)) = false := by
      by_contra hset
      have hbase := h.descend (n + 1) _ hal (by simpa using hset)
      cases levels with
      | nil => exact absurd hbase (by simp [baseBit])
      | cons al als =>
        rw [show baseBit (al :: als) b = false from h.1.tail b hb] at hbase
        exact absurd hbase (by simp)
    rw [axmapHandlerTopdownChecked, hal]
    dsimp only
    split
    · simp
    · rw [axmapIssetFn_eq, hentry]
      exact ih r (by omega)

theorem axmapIssetChecked_iff {nrBits : Nat} {m : Axmap} (h : AxmapSized nrBits m) :
    axmapIssetChecked m b = .ok (axmapIsset m b) ↔ ¬ (b = nrBits ∧ nrBits % 64 = 0) := by
  unfold axmapIssetChecked axmapIsset
  rw [h.bits]
  by_cases hle : b ≤ nrBits
  · rw [if_pos hle, if_pos hle]
    by_cases hend : b = nrBits ∧ nrBits % 64 = 0
    · refine iff_of_false ?_ (not_not_intro hend)
      have hlen := List.length_pos_iff.mpr h.levels
      obtain ⟨n, hn⟩ : ∃ n, m.levels.length = n + 1 := ⟨m.levels.length - 1, by omega⟩
      rw [hn]
      refine axmapHandlerTopdownChecked_outside h.hier (roundUp_mod nrBits) ?_ n _ (by omega)
      unfold roundUp
      omega
    · refine iff_of_true (axmapHandlerTopdownChecked_ok _ h.hier ?_ _) hend
      unfold roundUp
      omega
  · rw [if_neg hle, if_neg hle]
    exact iff_of_true rfl fun hend => hle (Nat.le_of_eq hend.1)

/-! ## `__axmap_set` -/

/-- The loop of `__axmap_set` faults exactly when the clear bits of the run are more than what is
left of it and make 64 together with that. -/
theorem axmapSetLoopChecked_run {n nr fuel : Nat}
    (hne : levels ≠ []) (hier : Hierarchy 0 valid levels) (hfit : b % 64 + n ≤ 64)
    (hle : b + n ≤ valid) (hpos : 1 ≤ nr) (hnr : nr ≤ n) (hfuel : 2 ≤ fuel) :
    axmapSetLoopChecked fuel levels b nr ⟨n, 0⟩ 0 =
      if (clearIn (baseBit levels) b (b + n)).card = 64 - nr ∧
          nr < (clearIn (baseBit levels) b (b + n)).card then .error .underflow
      else .ok (axmapSetLoop fuel levels b nr ⟨n, 0⟩ 0) := by
  obtain ⟨fuel, rfl⟩ : ∃ f, fuel = f + 2 := ⟨fuel - 2, by omega⟩
  obtain ⟨levels₁, data₁, ret₁, heq, hne₁, hier₁, hbase₁, hset₁⟩ :=
    axmapSetFn_first hne hier hfit hle
  rw [← hset₁]
  have hu : usub 64 64 nr = 64 - nr := usub_eq_sub (by omega) (by decide)
  have hnz : nr ≠ 0 := by omega
  rw [axmapSetLoopChecked, axmapSetLoop, if_neg hnz, if_neg hnz,
    axmapHandlerChecked_ok axmapSetFn b levels 0 valid _ hier (by rw [ulog64_zero]; omega), heq]
  dsimp only
  rw [hu]
  -- the loop goes on only if as many bits were set as are missing to a word
  by_cases hstop : data₁.setBits = 0 ∨ data₁.setBits ≠ 64 - nr
  · rw [if_pos hstop, if_pos hstop, if_neg (by omega)]
  · rw [if_neg hstop, if_neg hstop]
    by_cases hunder : nr < data₁.setBits
    · rw [if_pos hunder, if_pos (by omega)]
    · rw [if_neg hunder, if_neg (by omega), usub_eq_sub (by omega) (by omega), axmapSetLoopChecked,
        axmapSetLoop]
      by_cases hz : nr - data₁.setBits = 0
      · rw [if_pos hz, if_pos hz]
      · rw [if_neg hz, if_neg hz]
        -- the second round finds its bits set, and adds nothing
        have hrun₂ : runLen (b + data₁.setBits) (nr - data₁.setBits) = nr - data₁.setBits :=
          runLen_eq (by omega)
        obtain ⟨levels₂, data₂, ret₂, heq₂, -, -, -, hset₂⟩ :=
          axmapSetFn_again (b := b + data₁.setBits) { data₁ with nrBits := nr - data₁.setBits } hne₁
            hier₁ (by dsimp only; omega) (fun k h₁ h₂ => by
              rw [hbase₁, decide_eq_true (by dsimp only at h₂; omega), Bool.or_true])
        rw [axmapHandlerChecked_ok axmapSetFn _ levels₁ 0 valid _ hier₁
          (by rw [ulog64_zero]; omega), heq₂]
        dsimp only at hset₂ ⊢
        rw [hset₂, usub_eq_sub (show nr - data₁.setBits ≤ 64 by omega) (by decide), if_pos (by omega),
          if_pos (by omega)]

section

variable {nrBits : Nat} {m : Axmap}

theorem axmapSetChecked'_end {b n : Nat} (h : AxmapSized nrBits m) (hb : nrBits ≤ b)
    (hlt : nrBits + 64 < 2 ^ 64) (hn : n ≤ 64) :
    axmapSetChecked' m b n = .ok (axmapSet' m b n) ∧ (axmapSet' m b n).2 = 0 := by
  unfold axmapSetChecked' axmapSet'
  rw [h.bits]
  by_cases hgt : nrBits < b
  · rw [if_pos hgt, if_pos hgt]
    exact ⟨rfl, rfl⟩
  · obtain rfl : b = nrBits := by omega
    have hnr : (if b < (b + n) % 2 ^ 64 then b - b else n) = 0 := by
      rw [Nat.mod_eq_of_lt (by omega)]
      split <;> omega
    rw [if_neg hgt, if_neg hgt, hnr]
    exact ⟨rfl, rfl⟩

theorem axmapSetChecked'_eq {b n nr : Nat} (h : AxmapSized nrBits m) (hb : b < nrBits)
    (hlt : nrBits + 64 < 2 ^ 64) (hn : 1 ≤ n) (hfit : b % 64 + n ≤ 64)
    (hnr : nr = min n (nrBits - b)) :
    axmapSetChecked' m b n =
      if (clearIn (baseBit m.levels) b (b + n)).card = 64 - nr ∧
          nr < (clearIn (baseBit m.levels) b (b + n)).card then .error .underflow
      else .ok (axmapSet' m b n) := by
  have hle := runLen_le n (roundUp_mod nrBits) (Nat.lt_of_lt_of_le hb (le_roundUp nrBits))
  rw [runLen_eq hfit] at hle
  have hif : (if nrBits < (b + n) % 2 ^ 64 then nrBits - b else n) = nr := by
    rw [Nat.mod_eq_of_lt (by omega), hnr]
    split <;> omega
  unfold axmapSetChecked' axmapSet'
  have hnlt : ¬ nrBits < b := by omega
  rw [h.bits, if_neg hnlt, if_neg hnlt, hif]
  dsimp only
  rw [axmapSetLoopChecked_run h.levels h.hier hfit hle (by omega) (by omega) (by omega)]
  by_cases hc : (clearIn (baseBit m.levels) b (b + n)).card = 64 - nr ∧
      nr < (clearIn (baseBit m.levels) b (b + n)).card
  · rw [if_pos hc, if_pos hc]
  · rw [if_neg hc, if_neg hc]

theorem axmapSetChecked'_zero {b : Nat} (h : AxmapSized nrBits m) (hb : b < nrBits) :
    axmapSetChecked' m b 0 = .ok (axmapSet' m b 0) := by
  have hnr : (if nrBits < (b + 0) % 2 ^ 64 then nrBits - b else 0) = 0 := by
    have := Nat.mod_le b (2 ^ 64)
    rw [Nat.add_zero]
    split <;> omega
  have hnlt : ¬ nrBits < b := by omega
  unfold axmapSetChecked' axmapSet'
  rw [h.bits, if_neg hnlt, if_neg hnlt, hnr]
  rfl

theorem axmapSetChecked_ok {b : Nat} (h : AxmapSized nrBits m) (hlt : nrBits + 64 < 2 ^ 64) :
    axmapSetChecked m b = .ok (axmapSet m b) := by
  have hcall : axmapSetChecked' m b 1 = .ok (axmapSet' m b 1) := by
    by_cases hb : b < nrBits
    · have hcard := card_clearIn_le (baseBit m.levels) b (b + 1)
      rw [axmapSetChecked'_eq h hb hlt (Nat.le_refl 1) (by omega) rfl, if_neg (by omega)]
    · exact (axmapSetChecked'_end h (by omega) hlt (by decide)).1
  unfold axmapSetChecked axmapSet
  rw [hcall]
  rfl

/-! ## `axmap_set_nr` -/

section

variable {b n : Nat} {f f' : Nat → Bool}

theorem runsPast_shift {t : Nat} (htn : t ≤ n) (hin : b + t ≤ nrBits) (halign : (b + t) % 64 = 0)
    (hclear : ∀ k, b ≤ k → k < b + t → f k = false) (hsame : ∀ k, b + t ≤ k → f' k = f k) :
    RunsPast nrBits f b n ↔ RunsPast nrBits f' (b + t) (n - t) := by
  have hlo := pieceLo_shift halign hin
  have hhi := pieceHi_shift (b := b) htn nrBits
  have hge : b + t ≤ pieceLo b nrBits := by
    unfold pieceLo
    omega
  have hcard : clearIn f' (pieceLo b nrBits) (pieceHi b n nrBits) =
      clearIn f (pieceLo b nrBits) (pieceHi b n nrBits) :=
    clearIn_congr fun k h₁ _ => hsame k (by omega)
  have hbefore := forall_clear_shift hclear hsame (e := pieceLo b nrBits)
  constructor
  · rintro ⟨hleaves, hfew, hcl, hcount⟩
    rw [← hlo, ← hhi] at hleaves
    rw [← hcard] at hcount
    exact ⟨hleaves, by rwa [hlo], by rw [hlo]; exact hbefore.mp hcl, by rwa [hlo, hhi]⟩
  · rintro ⟨hleaves, hfew, hcl, hcount⟩
    rw [hlo] at hfew hcl
    rw [hlo, hhi] at hleaves
    rw [hlo, hhi, hcard] at hcount
    exact ⟨hleaves, hfew, hbefore.mpr hcl, hcount⟩

theorem not_runsPast_end (hb : nrBits ≤ b) : ¬ RunsPast nrBits f b n := by
  rintro ⟨⟨hlo, -⟩, -, -, -⟩
  unfold pieceLo at hlo
  omega

theorem not_runsPast_inside (hin : b + runLen b n ≤ nrBits)
    (hstop : n ≤ runLen b n ∨ ¬ ∀ k, b ≤ k → k < b + runLen b n → f k = false) :
    ¬ RunsPast nrBits f b n := by
  rintro ⟨⟨hlo, hhi⟩, -, hclear, -⟩
  unfold runLen at hin hstop
  unfold pieceHi at hhi
  rcases hstop with hend | hset
  · omega
  · refine hset fun k h₁ h₂ => hclear k h₁ ?_
    unfold pieceLo at hlo ⊢
    omega

theorem runsPast_iff_of_past (hb : b < nrBits) (hpast : nrBits < b + runLen b n) :
    RunsPast nrBits f b n ↔
      (clearIn f b (b + runLen b n)).card = 64 - (nrBits - b) ∧
        nrBits - b < (clearIn f b (b + runLen b n)).card := by
  have hlo : pieceLo b nrBits = b := by
    unfold runLen at hpast
    unfold pieceLo
    omega
  have hhi : pieceHi b n nrBits = b + runLen b n := by
    unfold runLen at hpast ⊢
    unfold pieceHi
    omega
  constructor
  · rintro ⟨-, hfew, -, hcount⟩
    rw [hlo] at hfew
    rw [hlo, hhi] at hcount
    omega
  · rintro ⟨hcount, hfew⟩
    exact ⟨by rw [hlo, hhi]; exact ⟨hb, hpast⟩, by rw [hlo]; omega,
      fun k h₁ h₂ => by rw [hlo] at h₂; omega, by rw [hlo, hhi]; exact hcount⟩

end

theorem axmapSetNrLoopChecked_succ (fuel : Nat) (m : Axmap) (b n setBits : Nat) :
    axmapSetNrLoopChecked (fuel + 1) m b n setBits =
      match axmapSetChecked' m b (runLen b n) with
      | .error e => .error e
      | .ok (m', nowSet) =>
          if nowSet ≠ runLen b n then .ok (m', setBits + nowSet)
          else if usub 32 n nowSet = 0 then .ok (m', setBits + nowSet)
          else axmapSetNrLoopChecked fuel m' (b + nowSet) (usub 32 n nowSet) (setBits + nowSet) := by
  have ht : (if 64 - b % 64 < n then 64 - b % 64 else n) = runLen b n := by
    unfold runLen
    split <;> omega
  rw [axmapSetNrLoopChecked]
  dsimp only
  rw [ht]

theorem axmapSetNrLoopChecked_succ_iff {fuel b n setBits : Nat}
    (hcall : axmapSetChecked' m b (runLen b n) = .ok (axmapSet' m b (runLen b n))) :
    axmapSetNrLoopChecked (fuel + 1) m b n setBits = .ok (axmapSetNrLoop (fuel + 1) m b n setBits) ↔
      ((axmapSet' m b (runLen b n)).2 = runLen b n → usub 32 n (runLen b n) ≠ 0 →
        axmapSetNrLoopChecked fuel (axmapSet' m b (runLen b n)).1 (b + runLen b n)
            (usub 32 n (runLen b n)) (setBits + runLen b n) =
          .ok (axmapSetNrLoop fuel (axmapSet' m b (runLen b n)).1 (b + runLen b n)
            (usub 32 n (runLen b n)) (setBits + runLen b n))) := by
  rw [axmapSetNrLoop_succ, axmapSetNrLoopChecked_succ, hcall]
  dsimp only
  by_cases hnow : (axmapSet' m b (runLen b n)).2 = runLen b n
  · rw [hnow, if_neg (not_not_intro rfl), if_neg (not_not_intro rfl)]
    by_cases hz : usub 32 n (runLen b n) = 0
    · rw [if_pos hz, if_pos hz]
      exact iff_of_true rfl fun _ h => absurd hz h
    · rw [if_neg hz, if_neg hz]
      exact ⟨fun h _ _ => h, fun h => h rfl hz⟩
  · rw [if_pos hnow, if_pos hnow]
    exact iff_of_true rfl fun h => absurd h hnow

theorem axmapSetNrLoopChecked_iff (hlt : nrBits + 64 < 2 ^ 64) :
    ∀ (fuel : Nat) (m : Axmap) (b n setBits : Nat), AxmapSized nrBits m → n < 2 ^ 32 → n ≤ fuel →
      (axmapSetNrLoopChecked fuel m b n setBits = .ok (axmapSetNrLoop fuel m b n setBits) ↔
        ¬ RunsPast nrBits (baseBit m.levels) b n) := by
  intro fuel
  induction fuel with
  | zero =>
    intro m b n setBits h _ hfuel
    refine iff_of_true rfl fun hpast => ?_
    have hleaves := hpast.leaves
    unfold pieceLo pieceHi at hleaves
    omega
  | succ fuel ih =>
    intro m b n setBits h hu hfuel
    obtain ⟨t, ht⟩ : ∃ t, t = runLen b n := ⟨_, rfl⟩
    have hmin : t = min n (64 - b % 64) := ht
    have hleft : usub 32 n t = n - t := usub_eq_sub (by omega) (by omega)
    have hgrow := (h.set' b t).1
    rcases Nat.lt_or_ge b nrBits with hb | hb
    · by_cases hpast : nrBits < b + t
      · have hiff := runsPast_iff_of_past (f := baseBit m.levels) hb (by rw [← ht]; exact hpast)
        rw [← ht] at hiff
        have hcall := axmapSetChecked'_eq h hb hlt (show 1 ≤ t by omega) (by omega)
          (show nrBits - b = min t (nrBits - b) by omega)
        by_cases hfault : RunsPast nrBits (baseBit m.levels) b n
        · refine iff_of_false ?_ (not_not_intro hfault)
          rw [if_pos (hiff.mp hfault)] at hcall
          rw [axmapSetNrLoopChecked_succ, ← ht, hcall]
          simp
        · -- whatever is left is asked for behind the end of the map
          rw [if_neg (mt hiff.mpr hfault)] at hcall
          rw [axmapSetNrLoopChecked_succ_iff (by rw [← ht]; exact hcall), ← ht, hleft]
          refine iff_of_true (fun _ _ => ?_) hfault
          exact (ih _ (b + t) (n - t) (setBits + t) hgrow (by omega) (by omega)).mpr
            (not_runsPast_end (by omega))
      · have hcall : axmapSetChecked' m b t = .ok (axmapSet' m b t) := by
          have hcard := card_clearIn_le (baseBit m.levels) b (b + t)
          rcases Nat.eq_zero_or_pos t with rfl | hpos
          · exact axmapSetChecked'_zero h hb
          · rw [axmapSetChecked'_eq h hb hlt hpos (by omega) (show t = min t (nrBits - b) by omega),
              if_neg (by omega)]
        obtain ⟨hcount, hbase⟩ := h.set'_inside (show b % 64 + t ≤ 64 by omega) (by omega)
          (by omega : b + t ≤ nrBits)
        rw [axmapSetNrLoopChecked_succ_iff (by rw [← ht]; exact hcall), ← ht, hleft]
        by_cases hall : ∀ k, b ≤ k → k < b + t → baseBit m.levels k = false
        · by_cases hz : n - t = 0
          · exact iff_of_true (fun _ h₂ => absurd hz h₂)
              (not_runsPast_inside (by omega) (Or.inl (by omega)))
          · have hcard : (clearIn (baseBit m.levels) b (b + t)).card = t := by
              rw [card_clearIn_eq.mpr hall]
              omega
            rw [hcard, setCount_eq (by omega)] at hcount
            have hsame : ∀ k, b + t ≤ k →
                baseBit (axmapSet' m b t).1.levels k = baseBit m.levels k := fun k hk => by
              rw [hbase, decide_eq_false (by omega), Bool.or_false]
            rw [runsPast_shift (by omega) (by omega) (by omega) hall hsame,
              ← ih _ (b + t) (n - t) (setBits + t) hgrow (by omega) (by omega)]
            exact ⟨fun h => h hcount hz, fun h _ _ => h⟩
        · refine iff_of_true (fun h₁ _ => ?_)
            (not_runsPast_inside (by omega) (Or.inr (by rw [← ht]; exact hall)))
          have hne : (clearIn (baseBit m.levels) b (b + t)).card ≠ t := fun hc =>
            hall (card_clearIn_eq.mp (by omega))
          rw [hcount, setCount] at h₁
          split at h₁ <;> omega
    · obtain ⟨hcall, hzero⟩ := axmapSetChecked'_end h hb hlt (show t ≤ 64 by omega)
      rw [axmapSetNrLoopChecked_succ_iff (by rw [← ht]; exact hcall), ← ht, hzero, hleft]
      refine iff_of_true (fun h₁ h₂ => ?_) (not_runsPast_end hb)
      omega

end

/-- **Which calls stay inside.** For every state that calls with any arguments lead to, every bit
number and every count of an `unsigned int`. -/
theorem stays_inside_iff {smalloc : Nat → Nat → Bool} {nrBits : Nat} {m₀ : Axmap}
    {calls : List AxmapCall} {b n : Nat} (hlt : nrBits + 64 < 2 ^ 64)
    (hnew : axmapNew smalloc nrBits = some m₀) (hu : n < 2 ^ 32) :
    StaysInside (runAxmap m₀ calls) b n ↔
      ¬ (b = nrBits ∧ nrBits % 64 = 0) ∧
        ¬ RunsPast nrBits (baseBit (runAxmap m₀ calls).levels) b n := by
  have h := runAxmap_sized (by omega) hnew calls
  have hset : axmapSetChecked (runAxmap m₀ calls) b = .ok (axmapSet (runAxmap m₀ calls) b) :=
    axmapSetChecked_ok h hlt
  have hsetNr := axmapSetNrLoopChecked_iff hlt (n + 1) (runAxmap m₀ calls) b n 0 h hu (Nat.le_succ n)
  constructor
  · rintro ⟨-, h₁, h₂⟩
    exact ⟨(axmapIssetChecked_iff h).mp h₂, hsetNr.mp h₁⟩
  · rintro ⟨h₁, h₂⟩
    exact ⟨hset, hsetNr.mpr h₂, (axmapIssetChecked_iff h).mpr h₁⟩

/-- Twenty bits from bit 60 on in a map of 70, ten more than it has. -/
theorem stays_inside_iff_seventy :
    ∃ m₀, axmapNew (fun _ _ => true) 70 = some m₀ ∧
      (StaysInside (runAxmap m₀ []) 60 20 ↔
        ¬ (60 = 70 ∧ 70 % 64 = 0) ∧ ¬ RunsPast 70 (baseBit (runAxmap m₀ []).levels) 60 20) :=
  ⟨_, rfl, @stays_inside_iff (fun _ _ => true) 70 _ [] 60 20 (by decide) rfl (by decide)⟩

/-- Testing bit 64 of a map of 64 bits reads the word behind its only one. Setting 54 bits from bit
74 on in an empty map of 84 bits takes 54 off the ten that remain; what the code then does, a walk
from bit 128 on, reads and writes the word behind the two the map has. -/
theorem axmap_calls_leave_their_maps :
    ∃ m₀ m₁, axmapNew (fun _ _ => true) 64 = some m₀ ∧ axmapNew (fun _ _ => true) 84 = some m₁ ∧
      axmapIssetChecked m₀ 64 = .error (.outside 0 1) ∧
      axmapSetNrChecked m₁ 74 54 = .error .underflow ∧
      axmapHandlerChecked axmapSetFn 128 0 (axmapHandler axmapSetFn 74 0 m₁.levels ⟨54, 0⟩).1
        ⟨usub 32 10 54, 54⟩ = .error (.outside 0 2) := by
  refine ⟨⟨[⟨0, [0#64]⟩], 0, 64⟩, ⟨[⟨0, [0#64, 0#64]⟩, ⟨1, [0#64]⟩], 0, 84⟩, ?_, ?_, ?_, ?_,
    ?_⟩
  · decide
  · decide
  · decide
  · decide
  · decide

end MysqlBench.Fio
