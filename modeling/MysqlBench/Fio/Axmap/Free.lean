import MysqlBench.Fio.Axmap.Refine

/-!
# Searching an `axmap` for a free bit

`axmap_find_first_free` walks the layers down: the first entry that is free at one layer names
the word to look into at the next. Two facts about it carry everything else. Whatever layer and
word it starts from, an answer other than `-1` is a free bit of the map
(`axmapFindFirstFree_sound`); and started from the first word of the highest layer it answers
`-1` only if there is no free bit (`axmapFindFirstFree_top`).

So `axmap_next_free` needs no correctness of the masks `axmap_next_free_fn` computes. They decide
where the search starts, which is never wrong, and the two fall-backs to `axmap_first_free` decide
whether the search may give up, which only the search from the top does.
-/

namespace MysqlBench.Fio

open MysqlBench.Lib

/-! ## One layer -/

variable {map : List Ulong} {b k : Nat} {levels : List AxmapLevel} {valid nrBits : Nat} {m : Axmap}

theorem scanFree_cases (map : List Ulong) : ∀ (n index : Nat), map.length - index = n →
    (∃ k, scanFree index (map.drop index) = some k ∧ index ≤ k ∧ k < map.length ∧
      word map k ≠ BitVec.allOnes 64 ∧
      ∀ j, index ≤ j → j < k → word map j = BitVec.allOnes 64) ∨
    (scanFree index (map.drop index) = none ∧
      ∀ j, index ≤ j → j < map.length → word map j = BitVec.allOnes 64) := by
  intro n
  induction n with
  | zero =>
    intro index hn
    rw [List.drop_eq_nil_of_le (by omega)]
    exact Or.inr ⟨rfl, fun j h1 h2 => by omega⟩
  | succ n ih =>
    intro index hn
    have hlt : index < map.length := by omega
    have hw : word map index = map[index] := by simp [word, List.getD_eq_getElem?_getD, hlt]
    rw [List.drop_eq_getElem_cons hlt, scanFree, ← hw]
    by_cases hfull : word map index = BitVec.allOnes 64
    · rw [if_pos hfull]
      have hat : ∀ j, index ≤ j → j = index ∨ index + 1 ≤ j := fun j hj => by omega
      rcases ih (index + 1) (by omega) with ⟨k, hk, h1, h2, h3, h4⟩ | ⟨hk, h4⟩
      · refine Or.inl ⟨k, hk, by omega, h2, h3, fun j hj hjk => ?_⟩
        rcases hat j hj with rfl | hj'
        · exact hfull
        · exact h4 j hj' hjk
      · refine Or.inr ⟨hk, fun j hj hjl => ?_⟩
        rcases hat j hj with rfl | hj'
        · exact hfull
        · exact h4 j hj' hjl
    · rw [if_neg hfull]
      exact Or.inl ⟨index, rfl, Nat.le_refl _, hlt, hfull, fun j h1 h2 => by omega⟩

theorem bit_eq_getLsbD (map : List Ulong) (b : Nat) :
    bit map b = (word map (b / 64)).getLsbD (b % 64) := rfl

theorem bit_free (h : word map k ≠ BitVec.allOnes 64) :
    bit map ((k <<< 6) + ffz (word map k)) = false := by
  obtain ⟨hlt, hclear, -⟩ := ffz_spec h
  rw [Nat.shiftLeft_eq, bit_mul_add map k hlt]
  exact hclear

/-- If it is the first such word from `index` on, every entry from there to the one it names is
taken. -/
theorem bit_of_lt_free {index : Nat} (h : word map k ≠ BitVec.allOnes 64)
    (hfull : ∀ j, index ≤ j → j < k → word map j = BitVec.allOnes 64) (hge : index ≤ b / 64)
    (hb : b < (k <<< 6) + ffz (word map k)) : bit map b = true := by
  obtain ⟨hlt, -, hbelow⟩ := ffz_spec h
  rw [Nat.shiftLeft_eq] at hb
  rw [bit_eq_getLsbD]
  have hm : b % 64 < 64 := Nat.mod_lt b (by decide)
  rcases Nat.lt_or_ge (b / 64) k with hk | hk
  · rw [hfull _ hge hk, BitVec.getLsbD_allOnes]
    exact decide_eq_true hm
  · obtain rfl : k = b / 64 := by omega
    exact hbelow _ (by omega)

/-! ## Soundness: an answer is a free bit -/

/-- Once the search holds a free entry of level `n` it follows it down: the word below is not
full, so every further layer has its free entry in the word it is sent to. The answer is a bit that
the entry stands for. -/
theorem findFirstFreeLoop_descend
    (h : Hierarchy 0 valid levels) : ∀ (n : Nat) (al : AxmapLevel) (index : Nat),
      levels[n]? = some al → bit al.map index = false →
      findFirstFreeLoop levels n index index = noFree ∨
        (baseBit levels (findFirstFreeLoop levels n index index) = false ∧
          ulog64 (findFirstFreeLoop levels n index index) n = index) := by
  intro n
  induction n with
  | zero =>
    intro al index hal hclear
    cases levels with
    | nil => exact absurd hal (by simp)
    | cons a rest =>
      obtain rfl : a = al := by simpa using hal
      exact Or.inr ⟨hclear, rfl⟩
  | succ n ih =>
    intro al index hal hclear
    obtain ⟨below, hbelow⟩ : ∃ below, levels[n]? = some below := by
      have := (List.getElem?_eq_some_iff.mp hal).1
      exact ⟨_, List.getElem?_eq_getElem (show n < levels.length by omega)⟩
    -- the entry above is clear, so this word has a clear bit
    have hfree : word below.map index ≠ BitVec.allOnes 64 := by
      intro hfull
      rw [(h.linked hbelow hal index).mpr hfull] at hclear
      exact absurd hclear (by simp)
    rw [findFirstFreeLoop, hbelow]
    dsimp only
    split
    · exact Or.inl rfl
    · rcases scanFree_cases below.map _ index rfl with ⟨k, hk, h1, h2, h3, h4⟩ | ⟨hk, h4⟩
      · -- the scan starts in that word and does not leave it
        obtain rfl : k = index := by
          by_contra hne
          exact hfree (h4 index (Nat.le_refl _) (by omega))
        rw [hk]
        refine (ih below _ hbelow (bit_free h3)).imp id fun ⟨hc, hat⟩ => ⟨hc, ?_⟩
        rw [ulog64_succ, hat, Nat.shiftLeft_eq]
        have := (ffz_spec h3).1
        omega
      · exact absurd (h4 index (Nat.le_refl _) (by omega)) hfree

theorem findFirstFreeLoop_sound
    (h : Hierarchy 0 valid levels) : ∀ (n index : Nat),
      findFirstFreeLoop levels n index noFree = noFree ∨
        baseBit levels (findFirstFreeLoop levels n index noFree) = false := by
  intro n
  induction n with
  | zero => intro index; exact Or.inl rfl
  | succ n ih =>
    intro index
    rw [findFirstFreeLoop]
    cases hal : levels[n]? with
    | none => exact Or.inl rfl
    | some al =>
      dsimp only
      split
      · exact Or.inl rfl
      · rcases scanFree_cases al.map _ index rfl with ⟨k, hk, h1, h2, h3, h4⟩ | ⟨hk, h4⟩
        · rw [hk]
          exact (findFirstFreeLoop_descend h n al _ hal (bit_free h3)).imp id And.left
        · rw [hk]
          exact ih index

theorem axmapFindFirstFree_sound (h : AxmapOk nrBits m)
    (level index : Nat) :
    axmapFindFirstFree m level index = noFree ∨
      (axmapFindFirstFree m level index < nrBits ∧
        baseBit m.levels (axmapFindFirstFree m level index) = false) := by
  unfold axmapFindFirstFree
  dsimp only
  split
  · rename_i hlt
    rw [h.bits] at hlt
    rcases findFirstFreeLoop_sound h.hier (level + 1) index with hno | hclear
    · exact Or.inl hno
    · exact Or.inr ⟨hlt, hclear⟩
  · exact Or.inl rfl

/-! ## Completeness: from the top, a free bit is found -/

theorem Hierarchy.ulog64_lt
    (h : Hierarchy 0 valid levels) (hb : b < valid) : ∀ (i : Nat) (al : AxmapLevel),
      levels[i]? = some al → ulog64 b (i + 1) < al.map.length := by
  intro i
  induction i with
  | zero =>
    intro al hal
    obtain ⟨v, hlev, h0, -⟩ := h.levelOk hal
    obtain rfl := h0 rfl
    rw [ulog64_succ, ulog64_zero]
    exact hlev.lt_size hb
  | succ i ih =>
    intro al hal
    have hlt : i < levels.length := by
      have := (List.getElem?_eq_some_iff.mp hal).1
      omega
    have hbelow := List.getElem?_eq_getElem hlt
    obtain ⟨v, hlev, -, hs⟩ := h.levelOk hal
    rw [ulog64_succ]
    refine hlev.lt_size ?_
    rw [hs i _ rfl hbelow]
    exact ih _ hbelow

/-- One layer of the search, started at or before the word of a free bit `b` of the map: it goes on
with an entry at or before that of `b`, because that entry is free too. -/
theorem findFirstFreeLoop_step {i index : Nat}
    {al : AxmapLevel} (ret : Nat) (h : Hierarchy 0 valid levels) (hb : b < valid)
    (hclear : baseBit levels b = false) (hal : levels[i]? = some al)
    (hidx : index ≤ ulog64 b (i + 1)) :
    ∃ free, free ≤ ulog64 b i ∧
      findFirstFreeLoop levels (i + 1) index ret = findFirstFreeLoop levels i free free := by
  have hentry : bit al.map (ulog64 b i) = false := by
    by_contra hset
    rw [h.descend i al hal (by simpa using hset)] at hclear
    exact absurd hclear (by simp)
  have hlen := h.ulog64_lt hb i al hal
  have hword : word al.map (ulog64 b (i + 1)) ≠ BitVec.allOnes 64 := by
    intro hw
    rw [ulog64_succ] at hw
    rw [bit_eq_getLsbD, hw, BitVec.getLsbD_allOnes,
      decide_eq_true (Nat.mod_lt _ (by decide))] at hentry
    exact absurd hentry (by simp)
  rw [findFirstFreeLoop, hal]
  dsimp only
  rw [if_neg (by omega)]
  rcases scanFree_cases al.map _ index rfl with ⟨k, hk, h1, h2, h3, h4⟩ | ⟨hk, h4⟩
  · rw [hk]
    refine ⟨_, ?_, rfl⟩
    by_contra hgt
    rw [ulog64_succ] at hidx
    rw [bit_of_lt_free h3 h4 (by omega) (by omega)] at hentry
    exact absurd hentry (by simp)
  · exact absurd (h4 _ hidx hlen) hword

/-- Searching down from level `i`, from the word of a free bit or before it, does not pass that
bit. -/
theorem findFirstFreeLoop_le
    (h : Hierarchy 0 valid levels) (hb : b < valid) (hclear : baseBit levels b = false) :
    ∀ (i index ret : Nat), i < levels.length → index ≤ ulog64 b (i + 1) →
      findFirstFreeLoop levels (i + 1) index ret ≤ b := by
  intro i
  induction i with
  | zero =>
    intro index ret hi hidx
    obtain ⟨free, hle, heq⟩ :=
      findFirstFreeLoop_step ret h hb hclear (List.getElem?_eq_getElem hi) hidx
    rw [heq]
    exact hle
  | succ i ih =>
    intro index ret hi hidx
    obtain ⟨free, hle, heq⟩ :=
      findFirstFreeLoop_step ret h hb hclear (List.getElem?_eq_getElem hi) hidx
    rw [heq]
    exact ih free free (by omega) hle

theorem axmapFindFirstFree_le_of_start {level index : Nat}
    (h : AxmapOk nrBits m) (hb : b < nrBits) (hclear : baseBit m.levels b = false)
    (hlevel : level < m.levels.length) (hidx : index ≤ ulog64 b (level + 1)) :
    axmapFindFirstFree m level index ≤ b := by
  have hle := findFirstFreeLoop_le h.hier hb hclear level index noFree hlevel hidx
  unfold axmapFindFirstFree
  dsimp only
  rw [h.bits, if_pos (by omega)]
  exact hle

theorem axmapFindFirstFree_le (h : AxmapOk nrBits m) (hb : b < nrBits)
    (hclear : baseBit m.levels b = false) :
    axmapFindFirstFree m (m.levels.length - 1) 0 ≤ b := by
  have := List.length_pos_iff.mpr h.levels
  exact axmapFindFirstFree_le_of_start h hb hclear (by omega) (Nat.zero_le _)

theorem axmapFindFirstFree_top (h : AxmapOk nrBits m)
    (hlt : nrBits + 63 < 2 ^ 64) (hb : b < nrBits) (hclear : baseBit m.levels b = false) :
    axmapFindFirstFree m (m.levels.length - 1) 0 ≠ noFree := by
  have hle := axmapFindFirstFree_le h hb hclear
  have hno : noFree = 2 ^ 64 - 1 := rfl
  omega

/-! ## The cache and the two searches -/

def FirstFreeOk (m : Axmap) : Prop :=
  m.firstFree = noFree ∨ (m.firstFree < m.nrBits ∧ baseBit m.levels m.firstFree = false)

def FreeAnswer (nrBits : Nat) (levels : List AxmapLevel) (r : Nat) : Prop :=
  (r < nrBits ∧ baseBit levels r = false) ∨
    (r = noFree ∧ ∀ b, b < nrBits → baseBit levels b = true)

structure SearchOk (nrBits : Nat) (m : Axmap) (res : Axmap × Nat) : Prop where
  levels : res.1.levels = m.levels
  bits : res.1.nrBits = m.nrBits
  cache : FirstFreeOk res.1
  answer : FreeAnswer nrBits m.levels res.2

theorem axmapFirstFree_spec (h : AxmapOk nrBits m)
    (hlt : nrBits + 63 < 2 ^ 64) (hff : FirstFreeOk m) : SearchOk nrBits m (axmapFirstFree m) := by
  unfold axmapFirstFree
  by_cases hv : m.firstFree = noFree
  · rw [if_neg (by simp [firstfreeValid, hv])]
    rcases axmapFindFirstFree_sound h (m.levels.length - 1) 0 with hno | hfree
    · refine ⟨rfl, rfl, Or.inl hno, Or.inr ⟨hno, fun b hb => ?_⟩⟩
      by_contra hclear
      exact axmapFindFirstFree_top h hlt hb (by simpa using hclear) hno
    · refine ⟨rfl, rfl, Or.inr ?_, Or.inl hfree⟩
      show axmapFindFirstFree m (m.levels.length - 1) 0 < m.nrBits ∧ _
      rw [h.bits]
      exact hfree
  · rw [if_pos (by simpa [firstfreeValid] using hv)]
    refine ⟨rfl, rfl, hff, Or.inl ?_⟩
    rw [← h.bits]
    exact hff.resolve_left hv

theorem axmapNextFree_spec (h : AxmapOk nrBits m)
    (hlt : nrBits + 63 < 2 ^ 64) (hff : FirstFreeOk m) (b : Nat) :
    SearchOk nrBits m (axmapNextFree m b) := by
  unfold axmapNextFree
  split
  · rename_i hc
    have hv : m.firstFree ≠ noFree := by simpa [firstfreeValid] using hc.1
    refine ⟨rfl, rfl, hff, Or.inl ?_⟩
    rw [← h.bits]
    exact hff.resolve_left hv
  · split
    · exact axmapFirstFree_spec h hlt hff
    · rename_i data _
      dsimp only
      rcases axmapFindFirstFree_sound h data.level data.offset with hno | hfree
      · rw [if_neg (not_not_intro hno)]
        exact axmapFirstFree_spec h hlt hff
      · have hno : axmapFindFirstFree m data.level data.offset ≠ noFree := by
          have hno : noFree = 2 ^ 64 - 1 := rfl
          have := hfree.1
          omega
        rw [if_pos hno]
        exact ⟨rfl, rfl, hff, Or.inl hfree⟩

/-! ## The cache under the other operations -/

theorem axmapReset_cache (h : AxmapOk nrBits m) (hpos : 0 < nrBits) :
    FirstFreeOk (axmapReset m) := by
  refine Or.inr ⟨?_, baseBit_axmapReset m _⟩
  show 0 < m.nrBits
  rw [h.bits]
  exact hpos

theorem axmapSet_cache (h : AxmapOk nrBits m)
    (hlt : nrBits + 63 < 2 ^ 64) (hb : b < nrBits) (hff : FirstFreeOk m) :
    FirstFreeOk (axmapSet m b) := by
  have hbits := (axmapSet_ok h hlt hb).1.bits
  have hbase := (axmapSet_ok h hlt hb).2
  have hcache : (axmapSet m b).firstFree = if m.firstFree = b then noFree else m.firstFree := by
    unfold axmapSet axmapSet'
    rw [Nat.mod_eq_of_lt (show b + 1 < 2 ^ 64 by omega), h.bits, if_neg (by omega)]
    have hiff : (b ≤ m.firstFree ∧ m.firstFree < b + 1) ↔ m.firstFree = b := by omega
    simp only [hiff]
  unfold FirstFreeOk
  rw [hcache, hbits]
  split
  · exact Or.inl rfl
  · rename_i hne
    rcases hff with hno | ⟨hin, hclear⟩
    · exact Or.inl hno
    · rw [h.bits] at hin
      exact Or.inr ⟨hin, by rw [hbase, hclear]; simpa using hne⟩

end MysqlBench.Fio
