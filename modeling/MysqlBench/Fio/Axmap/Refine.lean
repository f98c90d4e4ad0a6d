import MysqlBench.Fio.Axmap.Hierarchy

/-!
# An `axmap` is the set of bits of its lowest layer

Every operation that changes an `axmap` keeps `AxmapOk`, so in every reachable state the layers
above the first are determined by it. That is what makes `axmap_isset` right although it stops
at the first set bit it meets from the top: a set bit at any layer stands for 64 set bits in the
layer below, one of which is on the way down to the bit that was asked for.

`axmap_set_nr` is a transition here like the others, but only its effect on the invariant is
followed; how many bits it sets is a question of its own.
-/

namespace MysqlBench.Fio

open MysqlBench.Lib

structure AxmapOk (nrBits : Nat) (m : Axmap) : Prop where
  bits : m.nrBits = nrBits
  levels : m.levels ≠ []
  hier : Hierarchy 0 nrBits m.levels

/-! ## Creation and reset -/

variable {i valid n : Nat} {als : List AxmapLevel} {nrBits : Nat} {m : Axmap} {k b : Nat}
  {levels : List AxmapLevel} {nr : Nat}

theorem allOnes_ne_zero : (0#64 : Ulong) ≠ BitVec.allOnes 64 := by decide

theorem hierarchy_cons_zero
    (hn : n = (valid + 63) / 64) (hzero : ∀ up, als.head? = some up → ∀ k, bit up.map k = false)
    (hup : Hierarchy (i + 1) n als) :
    Hierarchy i valid (⟨i, List.replicate n 0#64⟩ :: als) := by
  refine ⟨⟨rfl, by simpa using hn, fun k _ => bit_replicate_zero n k⟩, fun up h k => ?_,
    by simpa using hup⟩
  rw [hzero up h k, word_replicate_zero]
  exact ⟨fun h => absurd h (by simp), fun h => absurd h allOnes_ne_zero⟩

theorem newLevels_hierarchy {smalloc : Nat → Nat → Bool} :
    ∀ (n i nrBits : Nat) {ls : List AxmapLevel}, nrBits + 63 < 2 ^ 64 →
      newLevels smalloc n i nrBits = some ls →
      ls.length = n ∧ (∀ up, ls.head? = some up → ∀ k, bit up.map k = false) ∧
        Hierarchy i nrBits ls := by
  intro n
  induction n with
  | zero =>
    intro i nrBits ls _ h
    obtain rfl : [] = ls := by simpa [newLevels] using h
    exact ⟨rfl, fun up h => absurd h (by simp), trivial⟩
  | succ n ih =>
    intro i nrBits ls hlt h
    rw [newLevels] at h
    simp only [Nat.mod_eq_of_lt hlt, shiftRight_six] at h
    split at h
    · obtain ⟨ls', hls', rfl⟩ := Option.map_eq_some_iff.mp h
      obtain ⟨hlen, hzero, hier⟩ := ih (i + 1) ((nrBits + 63) / 64) (by omega) hls'
      refine ⟨by simp [hlen], fun up hup k => ?_, hierarchy_cons_zero rfl hzero hier⟩
      obtain rfl : AxmapLevel.mk i (List.replicate ((nrBits + 63) / 64) 0#64) = up := by
        simpa using hup
      exact bit_replicate_zero _ k
    · exact absurd h (by simp)

theorem axmapReset_head (als : List AxmapLevel) :
    ∀ up, (als.map fun al : AxmapLevel =>
      { al with map := List.replicate al.map.length 0#64 }).head? = some up →
      ∀ k, bit up.map k = false := by
  intro up h k
  cases als with
  | nil => exact absurd h (by simp)
  | cons al rest =>
    obtain rfl : _ = up := by simpa using h
    exact bit_replicate_zero _ k

theorem axmapReset_hierarchy : ∀ (als : List AxmapLevel) (i valid : Nat), Hierarchy i valid als →
    Hierarchy i valid
      (als.map fun al => { al with map := List.replicate al.map.length 0#64 }) := by
  intro als
  induction als with
  | nil => intro i valid _; exact trivial
  | cons al als ih =>
    rintro i valid ⟨hlev, _, hup⟩
    obtain ⟨lv, map⟩ := al
    obtain rfl : lv = i := hlev.level
    exact hierarchy_cons_zero hlev.size (axmapReset_head als) (ih _ _ hup)

theorem axmapReset_ok (h : AxmapOk nrBits m) :
    AxmapOk nrBits (axmapReset m) :=
  ⟨h.bits, by simpa [axmapReset] using h.levels, axmapReset_hierarchy _ _ _ h.hier⟩

theorem baseBit_axmapReset (m : Axmap) (k : Nat) : baseBit (axmapReset m).levels k = false := by
  unfold axmapReset baseBit
  cases m.levels with
  | nil => rfl
  | cons al rest => exact bit_replicate_zero _ k

theorem le_countLevels : ∀ (fuel i levels : Nat), levels ≤ countLevels fuel i levels := by
  intro fuel
  induction fuel with
  | zero => intro i levels; exact Nat.le_refl levels
  | succ fuel ih =>
    intro i levels
    rw [countLevels]
    split
    · exact Nat.le_trans (Nat.le_succ levels) (ih _ _)
    · exact Nat.le_refl levels

/-- `axmap_new` returns an empty map whose free-bit cache is bit 0, whatever `smalloc` refuses
on the way. -/
theorem axmapNew_spec {smalloc : Nat → Nat → Bool}
    (hlt : nrBits + 63 < 2 ^ 64) (h : axmapNew smalloc nrBits = some m) :
    AxmapOk nrBits m ∧ m.firstFree = 0 ∧ ∀ k, baseBit m.levels k = false := by
  unfold axmapNew at h
  split at h
  · dsimp only at h
    split at h
    · rename_i ls hls
      obtain ⟨hlen, _, hier⟩ := newLevels_hierarchy _ _ _ hlt hls
      obtain rfl := Option.some.inj h
      refine ⟨axmapReset_ok ⟨rfl, ?_, hier⟩, rfl, baseBit_axmapReset _⟩
      rintro (rfl : ls = [])
      have := le_countLevels ((((nrBits + 63) % 2 ^ 64) >>> 6) % 2 ^ 32)
        ((((nrBits + 63) % 2 ^ 64) >>> 6) % 2 ^ 32) 1
      rw [← hlen] at this
      exact absurd this (by simp)
    · exact absurd h (by simp)
  · exact absurd h (by simp)

/-! ## Clear -/

theorem axmapClear_ok (h : AxmapOk nrBits m) (hb : b < nrBits) :
    AxmapOk nrBits (axmapClear m b) ∧
      ∀ k, baseBit (axmapClear m b).levels k = (baseBit m.levels k && !decide (k = b)) := by
  obtain ⟨hier, hbase⟩ := axmapClearFn_walk b m.levels 0 nrBits h.hier hb
  refine ⟨⟨h.bits, ?_, hier⟩, hbase h.levels⟩
  intro hnil
  have := axmapHandler_length axmapClearFn b m.levels 0 ()
  rw [show (axmapHandler axmapClearFn b 0 m.levels ()).1 = [] from hnil] at this
  exact h.levels (List.length_eq_zero_iff.mp this.symm)

/-! ## Set -/

theorem axmapSetFn_walk_up (bitNr : Nat) : ∀ (als : List AxmapLevel) (i valid : Nat)
    (data : AxmapSetData), Hierarchy (i + 1) valid als →
    (axmapHandler axmapSetFn bitNr (i + 1) als data).2.1.setBits = data.setBits := by
  intro als
  induction als with
  | nil => intro i valid data _; rfl
  | cons al als ih =>
    rintro i valid data ⟨hlev, _, hup⟩
    rw [axmapHandler, shiftRight_six]
    rcases axmapSetFn_cases al (ulog64 bitNr (i + 1)) data with ⟨_, he⟩ | ⟨_, he⟩
    · rw [he]; rfl
    · rw [he]
      have hl : al.level ≠ 0 := by rw [hlev.level]; omega
      dsimp only
      rw [if_neg hl]
      split
      · rfl
      · exact ih (i + 1) al.map.length ⟨1, data.setBits⟩ hup

/-- A set walk from level 0 counts the bits it sets, and leaves the old count when there are
none. -/
theorem axmapSetFn_walk_setBits (bitNr : Nat)
    {data : AxmapSetData} (hne : als ≠ []) (hier : Hierarchy 0 valid als) :
    (axmapHandler axmapSetFn bitNr 0 als data).2.1.setBits =
      if (clearIn (baseBit als) bitNr (bitNr + runLen bitNr data.nrBits)).card = 0 then data.setBits
      else (clearIn (baseBit als) bitNr (bitNr + runLen bitNr data.nrBits)).card := by
  cases als with
  | nil => exact absurd rfl hne
  | cons al als =>
    obtain ⟨hlev, _, hup⟩ := hier
    show _ = if (clearIn (bit al.map) _ _).card = 0 then _ else (clearIn (bit al.map) _ _).card
    rw [axmapHandler, ulog64_zero, shiftRight_six]
    rcases axmapSetFn_cases al bitNr data with ⟨hall, he⟩ | ⟨⟨k, hk, hclear⟩, he⟩
    · rw [he, if_pos (card_clearIn_eq_zero.mpr hall)]
      rfl
    · have hsome : (clearIn (bit al.map) bitNr (bitNr + runLen bitNr data.nrBits)).card ≠ 0 :=
        Finset.card_ne_zero_of_mem (mem_clearIn.mpr ⟨hk, hclear⟩)
      rw [he, if_neg hsome]
      dsimp only
      rw [if_pos hlev.level]
      split
      · rfl
      · exact axmapSetFn_walk_up bitNr als 0 al.map.length ⟨1, _⟩ hup

theorem axmapSetFn_round (bitNr : Nat) (data : AxmapSetData)
    (hne : levels ≠ []) (hier : Hierarchy 0 valid levels)
    (hle : bitNr + runLen bitNr data.nrBits ≤ valid) :
    ∃ levels' data' ret, axmapHandler axmapSetFn bitNr 0 levels data = (levels', data', ret) ∧
      levels' ≠ [] ∧ Hierarchy 0 valid levels' ∧
      (∀ k, baseBit levels' k =
        (baseBit levels k || decide (bitNr ≤ k ∧ k < bitNr + runLen bitNr data.nrBits))) ∧
      data'.setBits =
        if (clearIn (baseBit levels) bitNr (bitNr + runLen bitNr data.nrBits)).card = 0
        then data.setBits
        else (clearIn (baseBit levels) bitNr (bitNr + runLen bitNr data.nrBits)).card := by
  obtain ⟨hier', hbase⟩ := axmapSetFn_walk bitNr levels 0 valid data hier hle
  have hlen := axmapHandler_length axmapSetFn bitNr levels 0 data
  refine ⟨_, _, _, rfl, ?_, hier', hbase hne, axmapSetFn_walk_setBits bitNr hne hier⟩
  intro hnil
  rw [hnil] at hlen
  exact hne (List.length_eq_zero_iff.mp hlen.symm)

/-- What `__axmap_set` reports for a run of `nr` bits of which `c` are clear. If `c` happens to be
64 minus the run, and less than the run, the loop goes round once more, finds everything set, and
adds the count of the first round again. -/
def setCount (nr c : Nat) : Nat := if c = 64 - nr ∧ c < nr then 2 * c else c

theorem setCount_eq {c : Nat} (h : c = 0 ∨ c ≠ 64 - nr ∨ nr ≤ c) : setCount nr c = c := by
  unfold setCount
  split
  · omega
  · rfl

theorem axmapSetFn_first (hne : levels ≠ [])
    (hier : Hierarchy 0 valid levels) (hfit : b % 64 + n ≤ 64) (hle : b + n ≤ valid) :
    ∃ levels' data' ret, axmapHandler axmapSetFn b 0 levels ⟨n, 0⟩ = (levels', data', ret) ∧
      levels' ≠ [] ∧ Hierarchy 0 valid levels' ∧
      (∀ k, baseBit levels' k = (baseBit levels k || decide (b ≤ k ∧ k < b + n))) ∧
      data'.setBits = (clearIn (baseBit levels) b (b + n)).card := by
  have hrun : runLen b n = n := runLen_eq hfit
  obtain ⟨levels', data', ret, heq, hne', hier', hbase, hset⟩ :=
    axmapSetFn_round b ⟨n, 0⟩ hne hier (by rw [hrun]; exact hle)
  dsimp only at hbase hset
  rw [hrun] at hbase hset
  refine ⟨levels', data', ret, heq, hne', hier', hbase, hset.trans ?_⟩
  split
  · rename_i hz
    exact hz.symm
  · rfl

theorem axmapSetFn_again (data : AxmapSetData)
    (hne : levels ≠ []) (hier : Hierarchy 0 valid levels)
    (hle : b + runLen b data.nrBits ≤ valid)
    (hall : ∀ k, b ≤ k → k < b + runLen b data.nrBits → baseBit levels k = true) :
    ∃ levels' data' ret, axmapHandler axmapSetFn b 0 levels data = (levels', data', ret) ∧
      levels' ≠ [] ∧ Hierarchy 0 valid levels' ∧ (∀ k, baseBit levels' k = baseBit levels k) ∧
      data'.setBits = data.setBits := by
  obtain ⟨levels', data', ret, heq, hne', hier', hbase, hset⟩ := axmapSetFn_round b data hne hier hle
  rw [if_pos (card_clearIn_eq_zero.mpr hall)] at hset
  refine ⟨levels', data', ret, heq, hne', hier', fun k => ?_, hset⟩
  rw [hbase]
  by_cases hk : b ≤ k ∧ k < b + runLen b data.nrBits
  · rw [hall k hk.1 hk.2, Bool.true_or]
  · rw [decide_eq_false hk, Bool.or_false]

/-- **The loop of `__axmap_set`**, for a run of `n` bits in one word of which `nr` are inside the
map. A third round is never entered, because the count the second one reports is that of the first.
The case left out is a count that is taken off `nr` and is larger than it. -/
theorem axmapSetLoop_run (fuel : Nat) (hne : levels ≠ [])
    (hier : Hierarchy 0 valid levels) (hfit : b % 64 + n ≤ 64) (hle : b + n ≤ valid) (hpos : 1 ≤ nr)
    (hnr : nr ≤ n) (hfuel : 2 ≤ fuel)
    (hc : (clearIn (baseBit levels) b (b + n)).card ≠ 64 - nr ∨
      (clearIn (baseBit levels) b (b + n)).card ≤ nr) :
    ∃ levels', axmapSetLoop fuel levels b nr ⟨n, 0⟩ 0 =
        (levels', setCount nr (clearIn (baseBit levels) b (b + n)).card) ∧
      levels' ≠ [] ∧ Hierarchy 0 valid levels' ∧
      ∀ k, baseBit levels' k = (baseBit levels k || decide (b ≤ k ∧ k < b + n)) := by
  obtain ⟨fuel, rfl⟩ : ∃ f, fuel = f + 2 := ⟨fuel - 2, by omega⟩
  obtain ⟨levels₁, data₁, ret₁, heq, hne₁, hier₁, hbase₁, hset₁⟩ :=
    axmapSetFn_first hne hier hfit hle
  rw [← hset₁] at hc ⊢
  have hu : usub 64 64 nr = 64 - nr := usub_eq_sub (by omega) (by decide)
  rw [axmapSetLoop, if_neg (by omega), heq]
  dsimp only
  rw [hu]
  split
  · exact ⟨levels₁, by rw [setCount_eq (by omega), Nat.zero_add], hne₁, hier₁, hbase₁⟩
  · have hleft : usub 32 nr data₁.setBits = nr - data₁.setBits := usub_eq_sub (by omega) (by omega)
    rw [hleft, axmapSetLoop]
    by_cases hz : nr - data₁.setBits = 0
    · rw [if_pos hz]
      exact ⟨levels₁, by rw [setCount_eq (by omega), Nat.zero_add], hne₁, hier₁, hbase₁⟩
    · rw [if_neg hz]
      -- the second round looks at bits that the first one has set
      have hrun₂ : runLen (b + data₁.setBits) (nr - data₁.setBits) = nr - data₁.setBits :=
        runLen_eq (by omega)
      obtain ⟨levels₂, data₂, ret₂, heq₂, hne₂, hier₂, hbase₂, hset₂⟩ :=
        axmapSetFn_again (b := b + data₁.setBits) { data₁ with nrBits := nr - data₁.setBits } hne₁
          hier₁ (by dsimp only; omega) (fun k h₁ h₂ => by
            rw [hbase₁, decide_eq_true (by dsimp only at h₂; omega), Bool.or_true])
      rw [heq₂]
      dsimp only at hset₂ ⊢
      rw [hset₂, usub_eq_sub (show nr - data₁.setBits ≤ 64 by omega) (by decide), if_pos (by omega)]
      refine ⟨levels₂, ?_, hne₂, hier₂, fun k => by rw [hbase₂, hbase₁]⟩
      rw [setCount, if_pos (by omega)]
      congr 1
      omega

/-- `__axmap_set` of a run inside one word and inside the map, whose words may reach past its last
bit: the run is set, and the report is about its clear bits. -/
theorem axmapSet'_inside (hne : m.levels ≠ [])
    (hier : Hierarchy 0 valid m.levels) (hvalid : m.nrBits ≤ valid) (hlt : m.nrBits < 2 ^ 64)
    (hfit : b % 64 + n ≤ 64) (hle : b + n ≤ m.nrBits) :
    (axmapSet' m b n).1.nrBits = m.nrBits ∧ (axmapSet' m b n).1.levels ≠ [] ∧
      Hierarchy 0 valid (axmapSet' m b n).1.levels ∧
      (axmapSet' m b n).2 = setCount n (clearIn (baseBit m.levels) b (b + n)).card ∧
      ∀ k, baseBit (axmapSet' m b n).1.levels k
        = (baseBit m.levels k || decide (b ≤ k ∧ k < b + n)) := by
  unfold axmapSet'
  rw [Nat.mod_eq_of_lt (show b + n < 2 ^ 64 by omega), if_neg (by omega : ¬ m.nrBits < b),
    if_neg (by omega : ¬ m.nrBits < b + n)]
  dsimp only
  have hcard := card_clearIn_le (baseBit m.levels) b (b + n)
  cases n with
  | zero =>
    rw [axmapSetLoop, if_pos rfl]
    refine ⟨rfl, hne, hier, ?_, fun k => ?_⟩
    · rw [setCount_eq (by omega)]
      omega
    · rw [decide_eq_false (by omega), Bool.or_false]
  | succ n =>
    obtain ⟨levels', heq, hne', hier', hbase⟩ := axmapSetLoop_run (n + 1 + 1) hne hier hfit
      (by omega) (by omega) (Nat.le_refl _) (by omega) (by omega)
    rw [heq]
    exact ⟨rfl, hne', hier', rfl, hbase⟩

theorem axmapSet'_ok (h : AxmapOk nrBits m)
    (hlt : nrBits + 63 < 2 ^ 64) (hfit : b % 64 + n ≤ 64) (hle : b + n ≤ nrBits) :
    AxmapOk nrBits (axmapSet' m b n).1 ∧
      ∀ k, baseBit (axmapSet' m b n).1.levels k
        = (baseBit m.levels k || decide (b ≤ k ∧ k < b + n)) := by
  obtain ⟨hbits, hne, hier, -, hbase⟩ := axmapSet'_inside h.levels h.hier (Nat.le_of_eq h.bits)
    (by rw [h.bits]; omega) hfit (by rw [h.bits]; exact hle)
  exact ⟨⟨hbits.trans h.bits, hne, hier⟩, hbase⟩

theorem axmapSet_ok (h : AxmapOk nrBits m)
    (hlt : nrBits + 63 < 2 ^ 64) (hb : b < nrBits) :
    AxmapOk nrBits (axmapSet m b) ∧
      ∀ k, baseBit (axmapSet m b).levels k = (baseBit m.levels k || decide (k = b)) := by
  obtain ⟨hok, hbase⟩ := axmapSet'_ok h hlt (b := b) (n := 1) (by omega) hb
  refine ⟨hok, fun k => (hbase k).trans ?_⟩
  congr 1
  exact decide_eq_decide.mpr (by omega)

theorem axmapSetNrLoop_ok (hlt : nrBits + 63 < 2 ^ 64) :
    ∀ (fuel : Nat) (m : Axmap) (b n setBits : Nat), AxmapOk nrBits m → b + n ≤ nrBits →
      n < 2 ^ 32 → AxmapOk nrBits (axmapSetNrLoop fuel m b n setBits).1 := by
  intro fuel
  induction fuel with
  | zero => intro m b n setBits h _ _; exact h
  | succ fuel ih =>
    intro m b n setBits h hle hn
    rw [axmapSetNrLoop]
    obtain ⟨t, ht⟩ : ∃ t, t = (if 64 - b % 64 < n then 64 - b % 64 else n) := ⟨_, rfl⟩
    have htn : t ≤ n := by rw [ht]; split <;> omega
    have htf : b % 64 + t ≤ 64 := by rw [ht]; split <;> omega
    rw [← ht]
    obtain ⟨hok, _⟩ := axmapSet'_ok h hlt htf (by omega)
    generalize axmapSet' m b t = res at hok
    obtain ⟨m', now⟩ := res
    dsimp only at hok ⊢
    split
    · exact hok
    · rename_i hnow
      obtain rfl : now = t := by simpa using hnow
      rw [usub_eq_sub htn hn]
      split
      · exact hok
      · exact ih m' (b + now) (n - now) (setBits + now) hok (by omega) (by omega)

theorem axmapSetNr_ok (h : AxmapOk nrBits m)
    (hlt : nrBits + 63 < 2 ^ 64) (hle : b + n ≤ nrBits) (hn : n < 2 ^ 32) :
    AxmapOk nrBits (axmapSetNr m b n).1 :=
  axmapSetNrLoop_ok hlt _ m b n 0 h hle hn

/-! ## Reading the layers by number -/

def levelMap (m : Axmap) (i : Nat) : List Ulong := (m.levels[i]?.map AxmapLevel.map).getD []

/-- The number of entries of level `i` that stand for something: the bits of the map at the
bottom, the words of the level below elsewhere. -/
def validEntries (m : Axmap) : Nat → Nat
  | 0 => m.nrBits
  | i + 1 => (levelMap m i).length

theorem levelMap_of_get {al : AxmapLevel} (h : m.levels[i]? = some al) :
    levelMap m i = al.map := by simp [levelMap, h]

theorem baseBit_eq_levelMap (m : Axmap) (k : Nat) : baseBit m.levels k = bit (levelMap m 0) k := by
  unfold baseBit levelMap
  cases m.levels with
  | nil => simp [bit, word]
  | cons al rest => rfl

theorem Hierarchy.linked : ∀ {ls : List AxmapLevel} {j valid i : Nat} {al up : AxmapLevel},
    Hierarchy j valid ls → ls[i]? = some al → ls[i + 1]? = some up → Linked al up := by
  intro ls
  induction ls with
  | nil => intro j valid i al up _ h _; exact absurd h (by simp)
  | cons a rest ih =>
    rintro j valid i al up ⟨_, hlink, hup⟩ hi hi1
    cases i with
    | zero =>
      obtain rfl : a = al := by simpa using hi
      refine hlink up ?_
      cases rest with
      | nil => exact absurd hi1 (by simp)
      | cons b rest' => simpa using hi1
    | succ i => exact ih hup (by simpa using hi) (by simpa using hi1)

theorem Hierarchy.levelOk : ∀ {ls : List AxmapLevel} {j valid i : Nat} {al : AxmapLevel},
    Hierarchy j valid ls → ls[i]? = some al →
    ∃ v, LevelOk (j + i) v al ∧ (i = 0 → v = valid) ∧
      ∀ i' b, i = i' + 1 → ls[i']? = some b → v = b.map.length := by
  intro ls
  induction ls with
  | nil => intro j valid i al _ h; exact absurd h (by simp)
  | cons a rest ih =>
    rintro j valid i al ⟨hlev, _, hup⟩ hi
    cases i with
    | zero =>
      obtain rfl : a = al := by simpa using hi
      exact ⟨valid, hlev, fun _ => rfl, fun i' b h => absurd h (by simp)⟩
    | succ i =>
      obtain ⟨v, hv, h0, hs⟩ := ih hup (by simpa using hi)
      refine ⟨v, by rwa [show j + (i + 1) = j + 1 + i by omega], fun h => absurd h (by simp), ?_⟩
      rintro i' b h hb
      obtain rfl : i' = i := by omega
      cases i' with
      | zero =>
        obtain rfl : a = b := by simpa using hb
        exact h0 rfl
      | succ i'' => exact hs i'' b rfl (by simpa using hb)

theorem AxmapOk.tail (h : AxmapOk nrBits m)
    (hi : i < m.levels.length) (hk : validEntries m i ≤ k) : bit (levelMap m i) k = false := by
  have hal : m.levels[i]? = some (m.levels.get ⟨i, hi⟩) := List.getElem?_eq_getElem hi
  obtain ⟨v, hlev, h0, hs⟩ := h.hier.levelOk hal
  rw [levelMap_of_get hal]
  refine hlev.tail k (Nat.le_trans (Nat.le_of_eq ?_) hk)
  cases i with
  | zero => rw [h0 rfl]; exact h.bits.symm
  | succ i =>
    have hb : m.levels[i]? = some (m.levels.get ⟨i, by omega⟩) := List.getElem?_eq_getElem (by omega)
    rw [hs i _ rfl hb]
    show _ = (levelMap m i).length
    rw [levelMap_of_get hb]

theorem AxmapOk.linked (h : AxmapOk nrBits m)
    (hi : i + 1 < m.levels.length) :
    bit (levelMap m (i + 1)) k = true ↔ word (levelMap m i) k = BitVec.allOnes 64 := by
  have hb : m.levels[i]? = some (m.levels.get ⟨i, by omega⟩) := List.getElem?_eq_getElem (by omega)
  have hal : m.levels[i + 1]? = some (m.levels.get ⟨i + 1, hi⟩) := List.getElem?_eq_getElem hi
  rw [levelMap_of_get hb, levelMap_of_get hal]
  exact h.hier.linked hb hal k

/-! ## `axmap_isset` -/

theorem axmapIssetFn_eq (al : AxmapLevel) (v : Nat) :
    axmapIssetFn al (v >>> 6) (v % 64) = bit al.map v := by
  have hb : v % 64 < 64 := Nat.mod_lt _ (by decide)
  have hpos : v / 64 * 64 + v % 64 = v := by omega
  have hbit := bit_mul_add al.map (v / 64) hb
  rw [hpos] at hbit
  unfold axmapIssetFn
  rw [shiftRight_six, hbit]
  cases hw : (word al.map (v / 64)).getLsbD (v % 64) with
  | false => simp [(and_one_shiftLeft_eq_zero_iff hb).mpr hw]
  | true =>
    simp only [bne_iff_ne, ne_eq]
    intro hz
    rw [(and_one_shiftLeft_eq_zero_iff hb).mp hz] at hw
    exact absurd hw (by simp)

theorem axmapHandlerTopdown_iff : ∀ (n : Nat),
    axmapHandlerTopdown axmapIssetFn b levels n = true ↔
      ∃ i al, i < n ∧ levels[i]? = some al ∧ bit al.map (ulog64 b i) = true := by
  intro n
  induction n with
  | zero => simp [axmapHandlerTopdown]
  | succ n ih =>
    rw [axmapHandlerTopdown]
    constructor
    · intro h
      cases hl : levels[n]? with
      | none =>
        rw [hl] at h
        obtain ⟨i, al, hi, hal, hb⟩ := ih.mp h
        exact ⟨i, al, by omega, hal, hb⟩
      | some al =>
        rw [hl] at h
        simp only [axmapIssetFn_eq, Bool.or_eq_true] at h
        rcases h with h | h
        · exact ⟨n, al, by omega, hl, h⟩
        · obtain ⟨i, al, hi, hal, hb⟩ := ih.mp h
          exact ⟨i, al, by omega, hal, hb⟩
    · rintro ⟨i, al, hi, hal, hb⟩
      by_cases hin : i = n
      · subst hin
        rw [hal]
        simp only [axmapIssetFn_eq, hb, Bool.true_or]
      · have hrec := ih.mpr ⟨i, al, by omega, hal, hb⟩
        cases levels[n]? with
        | none => exact hrec
        | some _ => simp [hrec]

/-- A set bit at any level over bit `b` means that bit `b` itself is set: going down a level,
the word that the bit stands for is full. -/
theorem Hierarchy.descend {ls : List AxmapLevel} (h : Hierarchy 0 valid ls) :
    ∀ (i : Nat) (al : AxmapLevel), ls[i]? = some al → bit al.map (ulog64 b i) = true →
      baseBit ls b = true := by
  intro i
  induction i with
  | zero =>
    intro al hal hb
    cases ls with
    | nil => exact absurd hal (by simp)
    | cons a rest =>
      obtain rfl : a = al := by simpa using hal
      exact hb
  | succ i ih =>
    intro up hup hb
    have hi : i < ls.length := by
      have := (List.getElem?_eq_some_iff.mp hup).1
      omega
    have hal : ls[i]? = some (ls.get ⟨i, hi⟩) := List.getElem?_eq_getElem hi
    refine ih _ hal ?_
    have hfull := (h.linked hal hup _).mp hb
    have := word_eq_allOnes_iff.mp hfull (ulog64 b i % 64) (Nat.mod_lt _ (by decide))
    rwa [ulog64_succ, show ulog64 b i / 64 * 64 + ulog64 b i % 64 = ulog64 b i by omega] at this

theorem axmapIsset_eq (h : AxmapOk nrBits m) (hb : b ≤ nrBits) :
    axmapIsset m b = baseBit m.levels b := by
  unfold axmapIsset
  rw [h.bits, if_pos hb, Bool.eq_iff_iff, axmapHandlerTopdown_iff]
  constructor
  · rintro ⟨i, al, _, hal, hbit⟩
    exact h.hier.descend i al hal hbit
  · intro hbit
    cases hl : m.levels with
    | nil => exact absurd hl h.levels
    | cons al rest =>
      rw [hl] at hbit
      exact ⟨0, al, by simp, rfl, hbit⟩

end MysqlBench.Fio
