import MysqlBench.Fio.Axmap.FirstFree

/-!
# What `axmap_next_free` answers

`axmap_next_free(b)` is to find the next free bit after `b`. It walks up from the word of `b` until
it meets a word with a free entry behind `b`, and then searches down again from the front of that
word. So it answers the first free bit from where that word begins, which may be before `b`; and the
test for "behind `b`" masks the same low positions at every level, those of `b` in its lowest word,
and none of them if `b` is the last bit of its word.

`searchStart` is where the word begins that the walk stops at. The answer is the first free bit from
there on, or the first one of all (`axmapNextFree_found`), and that is the next one after `b` exactly
if there is no free bit between the two, or none before the one and none behind the other
(`NothingPassed`).
-/

namespace MysqlBench.Fio

open MysqlBench.Lib

/-- What `axmap_next_free(b)` should answer: the smallest free bit after `b`, or if there is none
the smallest free bit of the map, or `-1` if it is full. -/
def NextFreeAnswer (nrBits : Nat) (f : Nat → Bool) (b r : Nat) : Prop :=
  (b < r ∧ r < nrBits ∧ f r = false ∧ ∀ k, b < k → k < r → f k = true) ∨
    ((∀ k, b < k → k < nrBits → f k = true) ∧ SmallestFree nrBits f r)

/-- Where the search for the next free bit after `b` restarts: at the front of the word of `b` at
the first level, from level `i` on and over `n` levels, that has a clear entry at position
`(b + 1) % 64` or behind it. The bits such an entry stands for are not all set. -/
def searchStart (f : Nat → Bool) (b : Nat) : Nat → Nat → Nat
  | 0, _ => 0
  | n + 1, i =>
      if (clearIn f ((b / 64 ^ (i + 1) * 64 + (b + 1) % 64) * 64 ^ i)
          ((b / 64 ^ (i + 1) * 64 + 64) * 64 ^ i)).Nonempty then b / 64 ^ (i + 1) * 64 ^ (i + 1)
      else searchStart f b n (i + 1)

def NothingPassed (nrBits : Nat) (f : Nat → Bool) (b s : Nat) : Prop :=
  (∀ k, s ≤ k → k < b → f k = true) ∨
    ((∀ k, k < s → f k = true) ∧ ∀ k, b < k → k < nrBits → f k = true)

def FoundFrom (nrBits : Nat) (f : Nat → Bool) (s r : Nat) : Prop :=
  (s ≤ r ∧ r < nrBits ∧ f r = false ∧ ∀ k, s ≤ k → k < r → f k = true) ∨
    ((∀ k, s ≤ k → k < nrBits → f k = true) ∧ SmallestFree nrBits f r)

variable {nrBits r : Nat} {f : Nat → Bool} {levels : List AxmapLevel} {valid : Nat}

theorem FoundFrom.next_iff {b s : Nat} (h : FoundFrom nrBits f s r)
    (hs : s ≤ b) (hb : b < nrBits) (hset : f b = true) :
    NextFreeAnswer nrBits f b r ↔ NothingPassed nrBits f b s := by
  rcases h with ⟨hsr, hr, hclear, hfull⟩ | ⟨hfull, hsmall⟩
  · have hne : r ≠ b := by
      rintro rfl
      exact absurd (hset.symm.trans hclear) (by simp)
    constructor
    · rintro (⟨hbr, -, -, -⟩ | ⟨hnone, hsmall⟩)
      · exact Or.inl fun k h₁ h₂ => hfull k h₁ (by omega)
      · rcases hsmall with ⟨-, -, hbelow⟩ | ⟨-, hall⟩
        · exact Or.inr ⟨fun k hk => hbelow k (by omega), hnone⟩
        · exact absurd ((hall r hr).symm.trans hclear) (by simp)
    · rintro (hbetween | ⟨hbefore, hnone⟩)
      · have hbr : b < r := by
          by_contra hle
          exact absurd ((hbetween r hsr (by omega)).symm.trans hclear) (by simp)
        exact Or.inl ⟨hbr, hr, hclear, fun k h₁ h₂ => hfull k (by omega) h₂⟩
      · refine Or.inr ⟨hnone, Or.inl ⟨hr, hclear, fun k hk => ?_⟩⟩
        rcases Nat.lt_or_ge k s with h₁ | h₁
        · exact hbefore k h₁
        · exact hfull k h₁ hk
  · exact iff_of_true (Or.inr ⟨fun k h₁ h₂ => hfull k (by omega) h₂, hsmall⟩)
      (Or.inl fun k h₁ h₂ => hfull k h₁ (by omega))

theorem SmallestFree.foundFrom_zero
    (h : SmallestFree nrBits f r) : FoundFrom nrBits f 0 r := by
  rcases h with ⟨hr, hclear, hbelow⟩ | ⟨hno, hall⟩
  · exact Or.inl ⟨Nat.zero_le r, hr, hclear, fun k _ hk => hbelow k hk⟩
  · exact Or.inr ⟨fun k _ hk => hall k hk, Or.inr ⟨hno, hall⟩⟩

/-! ## The walk up -/

theorem Hierarchy.entry_iff (h : Hierarchy 0 valid levels) :
    ∀ (i : Nat) (al : AxmapLevel) (e : Nat), levels[i]? = some al →
      (bit al.map e = true ↔ ∀ k, k / 64 ^ i = e → baseBit levels k = true) := by
  intro i
  induction i with
  | zero =>
    intro al e hal
    cases levels with
    | nil => exact absurd hal (by simp)
    | cons a rest =>
      obtain rfl : a = al := by simpa using hal
      simp only [pow_zero, Nat.div_one]
      exact ⟨fun hb k hk => by rw [hk]; exact hb, fun hall => hall e rfl⟩
  | succ i ih =>
    intro up e hup
    have hi : i < levels.length := by
      have := (List.getElem?_eq_some_iff.mp hup).1
      omega
    have hal := List.getElem?_eq_getElem hi
    -- an entry says that its word is full, and the word has the entries of the level below
    rw [h.linked hal hup e, word_eq_allOnes_iff]
    constructor
    · intro hall k hk
      rw [pow_succ, ← Nat.div_div_eq_div_mul] at hk
      refine (ih _ _ hal).mp (hall (k / 64 ^ i % 64) (Nat.mod_lt _ (by decide))) k ?_
      omega
    · intro hall j hj
      refine (ih _ _ hal).mpr fun k hk => hall k ?_
      rw [pow_succ, ← Nat.div_div_eq_div_mul, hk]
      omega

theorem mask_and_not_ne_zero_iff {x : Ulong} {p : Nat} (hp : p ≤ 64) :
    ~~~(bitMasks.getD p 0#64) &&& ~~~x ≠ 0#64 ↔ ∃ j, p ≤ j ∧ j < 64 ∧ x.getLsbD j = false := by
  have hmask : ∀ j, (bitMasks.getD p 0#64).getLsbD j = decide (j < p) := by
    intro j
    rw [bitMasks_getD hp, BitVec.getLsbD_ofNat, Nat.testBit_two_pow_sub_one, ← Bool.decide_and]
    exact decide_eq_decide.mpr ⟨fun h => h.2, fun h => ⟨by omega, h⟩⟩
  constructor
  · intro hne
    obtain ⟨j, hj, hset⟩ := exists_set_of_ne_zero hne
    rw [BitVec.getLsbD_and, BitVec.getLsbD_not, BitVec.getLsbD_not, hmask, Bool.and_eq_true,
      Bool.and_eq_true, Bool.and_eq_true, Bool.not_eq_true', Bool.not_eq_true',
      decide_eq_false_iff_not] at hset
    exact ⟨j, by omega, hj, hset.2.2⟩
  · rintro ⟨j, hpj, hj, hclear⟩ hz
    have := eq_zero_iff.mp hz j hj
    rw [BitVec.getLsbD_and, BitVec.getLsbD_not, BitVec.getLsbD_not, hmask, hclear,
      decide_eq_false (show ¬ j < p by omega), decide_eq_true hj] at this
    exact absurd this (by decide)

theorem nextFree_stops_iff {i : Nat} {al : AxmapLevel}
    (h : Hierarchy 0 valid levels) (b : Nat) (hal : levels[i]? = some al) :
    ~~~(bitMasks.getD ((b + 1) % 64) 0#64) &&& ~~~(word al.map (b / 64 ^ (i + 1))) ≠ 0#64 ↔
      (clearIn (baseBit levels) ((b / 64 ^ (i + 1) * 64 + (b + 1) % 64) * 64 ^ i)
        ((b / 64 ^ (i + 1) * 64 + 64) * 64 ^ i)).Nonempty := by
  have hpos : 0 < 64 ^ i := Nat.pow_pos (by decide)
  rw [mask_and_not_ne_zero_iff (by omega)]
  constructor
  · rintro ⟨j, hpj, hj, hclear⟩
    rw [← bit_mul_add al.map _ hj] at hclear
    have hsome : ¬ ∀ k, k / 64 ^ i = b / 64 ^ (i + 1) * 64 + j → baseBit levels k = true := by
      rw [← h.entry_iff i al _ hal, hclear]
      simp
    push Not at hsome
    obtain ⟨k, hk, hbit⟩ := hsome
    refine ⟨k, mem_clearIn.mpr ⟨⟨?_, ?_⟩, by simpa using hbit⟩⟩
    · rw [← Nat.le_div_iff_mul_le hpos]
      omega
    · rw [← Nat.div_lt_iff_lt_mul hpos]
      omega
  · rintro ⟨k, hk⟩
    obtain ⟨⟨hlo, hhi⟩, hclear⟩ := mem_clearIn.mp hk
    rw [← Nat.le_div_iff_mul_le hpos] at hlo
    rw [← Nat.div_lt_iff_lt_mul hpos] at hhi
    refine ⟨k / 64 ^ i - b / 64 ^ (i + 1) * 64, by omega, by omega, ?_⟩
    rw [← bit_mul_add al.map _ (by omega)]
    by_contra hset
    have hall := (h.entry_iff i al _ hal).mp (by simpa using hset) k (by omega)
    exact absurd (hall.symm.trans hclear) (by simp)

/-- **The walk up.** It stops at a word that is not full, at the level where the search restarts, or
at no level at all. `data->bit` never changes: a full word is passed by the first test already. -/
theorem axmapNextFreeFn_walk (h : Hierarchy 0 valid levels)
    (b : Nat) : ∀ (als : List AxmapLevel) (i : Nat) (data : AxmapNextFreeData),
      als = levels.drop i → data.bit = b →
      ((axmapHandler axmapNextFreeFn b i als data).2.2 = false ∧
          searchStart (baseBit levels) b als.length i = 0) ∨
        ∃ j al, (axmapHandler axmapNextFreeFn b i als data).2.2 = true ∧
          (axmapHandler axmapNextFreeFn b i als data).2.1.level = j ∧
          (axmapHandler axmapNextFreeFn b i als data).2.1.offset = b / 64 ^ (j + 1) ∧
          levels[j]? = some al ∧ word al.map (b / 64 ^ (j + 1)) ≠ BitVec.allOnes 64 ∧
          searchStart (baseBit levels) b als.length i = b / 64 ^ (j + 1) * 64 ^ (j + 1) := by
  intro als
  induction als with
  | nil => intro i data _ _; exact Or.inl ⟨rfl, rfl⟩
  | cons al als ih =>
    intro i data hdrop hbit
    have hal : levels[i]? = some al := by
      rw [← List.head?_drop, ← hdrop]
      rfl
    have hrest : als = levels.drop (i + 1) := by
      rw [← List.tail_drop, ← hdrop]
      rfl
    have hidx : ulog64 b i >>> 6 = b / 64 ^ (i + 1) := by
      rw [shiftRight_six, ← ulog64_succ, ulog64_eq]
    have hstop := nextFree_stops_iff h b hal
    rw [axmapHandler, hidx, axmapNextFreeFn, hbit, List.length_cons, searchStart]
    -- nothing is free behind `b` in this word: the walk goes up
    by_cases hz : ~~~(bitMasks.getD ((b + 1) % 64) 0#64) &&& ~~~(word al.map (b / 64 ^ (i + 1))) = 0#64
    · rw [if_pos hz, if_neg (mt hstop.mpr (not_not_intro hz))]
      exact ih (i + 1) data hrest hbit
    · have hword : word al.map (b / 64 ^ (i + 1)) ≠ BitVec.allOnes 64 := by
        intro hfull
        rw [hfull, BitVec.not_allOnes, BitVec.and_zero] at hz
        exact hz rfl
      obtain ⟨v, hlev, -, -⟩ := h.levelOk hal
      rw [if_neg hz, if_pos hword, if_pos (hstop.mp hz)]
      exact Or.inr ⟨i, al, rfl, hlev.level.trans (Nat.zero_add i), rfl, hal, hword, rfl⟩

/-! ## The search down -/

section

variable {nrBits : Nat} {m : Axmap}

theorem searchStart_le (f : Nat → Bool) (b : Nat) : ∀ n i, searchStart f b n i ≤ b := by
  intro n
  induction n with
  | zero => intro i; exact Nat.zero_le b
  | succ n ih =>
    intro i
    rw [searchStart]
    split
    · exact Nat.div_mul_le_self b _
    · exact ih (i + 1)

/-- From a word that is not full, the search answers nothing or a bit at or behind the front of
that word. -/
theorem axmapFindFirstFree_ge {level index : Nat} {al : AxmapLevel} (h : AxmapOk nrBits m)
    (hal : m.levels[level]? = some al) (hword : word al.map index ≠ BitVec.allOnes 64) :
    axmapFindFirstFree m level index = noFree ∨
      index * 64 ^ (level + 1) ≤ axmapFindFirstFree m level index := by
  unfold axmapFindFirstFree
  dsimp only
  split
  · rw [findFirstFreeLoop, hal]
    dsimp only
    split
    · exact Or.inl rfl
    · rename_i hlen
      -- the word at `index` is not full, so the scan stops there
      rcases scanFree_cases al.map _ index rfl with ⟨k, hk, h1, h2, h3, h4⟩ | ⟨hk, h4⟩
      · obtain rfl : k = index := by
          by_contra hne
          exact hword (h4 index (Nat.le_refl _) (by omega))
        rw [hk]
        apply (findFirstFreeLoop_descend h.hier level al _ hal (bit_free h3)).imp id
        intro hfound
        have hat := hfound.2
        rw [ulog64_eq, Nat.shiftLeft_eq] at hat
        calc k * 64 ^ (level + 1) = k * 64 * 64 ^ level := by rw [pow_succ', Nat.mul_assoc]
          _ ≤ (k * 2 ^ 6 + ffz (word al.map k)) * 64 ^ level :=
              Nat.mul_le_mul_right _ (Nat.le_add_right _ _)
          _ ≤ findFirstFreeLoop m.levels level (k <<< 6 + ffz (word al.map k))
                (k <<< 6 + ffz (word al.map k)) := by
              rw [Nat.shiftLeft_eq, ← Nat.le_div_iff_mul_le (Nat.pow_pos (by decide)), hat]
      · exact absurd (h4 index (Nat.le_refl _) (by omega)) hword
  · exact Or.inl rfl

/-- **What `axmap_next_free` finds**: the first free bit from where its search restarts, or the
first one of all. -/
theorem axmapNextFree_found {b : Nat} (h : CacheOk nrBits m) (hlt : nrBits + 63 < 2 ^ 64)
    (hc : CacheFirst m) :
    FoundFrom nrBits (baseBit m.levels) (searchStart (baseBit m.levels) b m.levels.length 0)
      (axmapNextFree m b).2 := by
  have hfirst := (axmapFirstFree_smallest_iff h.ok hlt h.cache).mpr hc
  unfold axmapNextFree
  by_cases hcached : firstfreeValid m ∧ b < m.firstFree
  · -- every bit below the cached one is set, so it is the next free one from anywhere below
    rw [if_pos hcached]
    have hv : m.firstFree ≠ noFree := by simpa [firstfreeValid] using hcached.1
    obtain ⟨hin, hclear⟩ := h.cache.resolve_left hv
    have hle := searchStart_le (baseBit m.levels) b m.levels.length 0
    exact Or.inl ⟨by show _ ≤ m.firstFree; omega, by rw [← h.ok.bits]; exact hin, hclear,
      fun k _ hk => hc.resolve_left hv k hk⟩
  · rw [if_neg hcached]
    rcases axmapNextFreeFn_walk h.ok.hier b m.levels 0 ⟨2 ^ 32 - 1, 0, b⟩ List.drop_zero.symm rfl with
      ⟨hret, hstart⟩ | ⟨j, al, hret, hlevel, hoffset, hal, hword, hstart⟩
    · rw [hstart]
      generalize axmapHandler axmapNextFreeFn b 0 m.levels ⟨2 ^ 32 - 1, 0, b⟩ = res at hret
      obtain ⟨als, data, ret⟩ := res
      dsimp only at hret
      subst hret
      exact hfirst.foundFrom_zero
    · rw [hstart]
      generalize axmapHandler axmapNextFreeFn b 0 m.levels ⟨2 ^ 32 - 1, 0, b⟩ = res at hret hlevel hoffset
      obtain ⟨als, data, ret⟩ := res
      dsimp only at hret hlevel hoffset
      subst hret
      dsimp only
      rw [hlevel, hoffset]
      have hj : j < m.levels.length := (List.getElem?_eq_some_iff.mp hal).1
      have hpos : 0 < 64 ^ (j + 1) := Nat.pow_pos (by decide)
      -- no free bit is passed over from the front of that word on
      have hle : ∀ k, b / 64 ^ (j + 1) * 64 ^ (j + 1) ≤ k → k < nrBits →
          baseBit m.levels k = false → axmapFindFirstFree m j (b / 64 ^ (j + 1)) ≤ k := by
        intro k h₁ h₂ hclear
        refine axmapFindFirstFree_le_of_start h.ok h₂ hclear hj ?_
        rw [ulog64_eq, Nat.le_div_iff_mul_le hpos]
        exact h₁
      rcases axmapFindFirstFree_sound h.ok j (b / 64 ^ (j + 1)) with hno | ⟨hin, hclear⟩
      · rw [if_neg (not_not_intro hno)]
        refine Or.inr ⟨fun k h₁ h₂ => ?_, hfirst⟩
        by_contra hset
        have := hle k h₁ h₂ (by simpa using hset)
        rw [hno, noFree] at this
        omega
      · have hne : axmapFindFirstFree m j (b / 64 ^ (j + 1)) ≠ noFree := by
          rw [noFree]
          omega
        rw [if_pos hne]
        refine Or.inl ⟨(axmapFindFirstFree_ge h.ok hal hword).resolve_left hne, hin, hclear,
          fun k h₁ h₂ => ?_⟩
        dsimp only at h₂
        by_contra hset
        have := hle k h₁ (by omega) (by simpa using hset)
        omega

/-! ## Maps made by setting bits -/

def AxmapCall.Sets : AxmapCall → Prop
  | .set _ => True
  | .reset => True
  | _ => False

theorem axmapSet_past {b : Nat} (h : AxmapOk nrBits m) (hlt : nrBits + 63 < 2 ^ 64)
    (hb : nrBits ≤ b) :
    (axmapSet m b).levels = m.levels ∧ (axmapSet m b).nrBits = m.nrBits ∧
      ((axmapSet m b).firstFree = noFree ∨ (axmapSet m b).firstFree = m.firstFree) := by
  unfold axmapSet axmapSet'
  dsimp only
  rw [h.bits]
  by_cases hgt : nrBits < b
  · rw [if_pos hgt]
    refine ⟨rfl, rfl, ?_⟩
    dsimp only
    split
    · exact Or.inl rfl
    · exact Or.inr rfl
  · obtain rfl : b = nrBits := by omega
    rw [if_neg hgt, Nat.mod_eq_of_lt (by omega), if_pos (Nat.lt_succ_self b), Nat.sub_self]
    refine ⟨rfl, rfl, ?_⟩
    dsimp only
    split
    · exact Or.inl rfl
    · exact Or.inr rfl

theorem CacheOk.sets (call : AxmapCall) (hlt : nrBits + 63 < 2 ^ 64) (hpos : 1 ≤ nrBits)
    (h : CacheOk nrBits m) (hc : CacheFirst m) (hcall : call.Sets) :
    CacheOk nrBits (call.apply m) ∧ CacheFirst (call.apply m) := by
  cases call with
  | set b =>
    by_cases hb : b < nrBits
    · exact ⟨h.apply (.set b) hlt hpos hb, hc.apply (.set b) hlt h hb trivial⟩
    · -- a bit behind the end: the levels stay, and the cache is kept or dropped
      obtain ⟨hlev, hbits, hff⟩ := axmapSet_past h.ok hlt (b := b) (by omega)
      refine ⟨⟨⟨hbits.trans h.ok.bits, ?_, ?_⟩, ?_⟩, ?_⟩
      · show (axmapSet m b).levels ≠ []
        rw [hlev]
        exact h.ok.levels
      · show Hierarchy 0 nrBits (axmapSet m b).levels
        rw [hlev]
        exact h.ok.hier
      · show FirstFreeOk (axmapSet m b)
        unfold FirstFreeOk
        rw [hlev, hbits]
        rcases hff with hno | hsame
        · exact Or.inl hno
        · rw [hsame]
          exact h.cache
      · show CacheFirst (axmapSet m b)
        unfold CacheFirst
        rw [hlev]
        rcases hff with hno | hsame
        · exact Or.inl hno
        · rw [hsame]
          exact hc
  | reset => exact ⟨h.apply .reset hlt hpos trivial, hc.apply .reset hlt h trivial trivial⟩
  | setNr b n => exact absurd hcall (by simp [AxmapCall.Sets])
  | clear b => exact absurd hcall (by simp [AxmapCall.Sets])
  | firstFree => exact absurd hcall (by simp [AxmapCall.Sets])
  | nextFree b => exact absurd hcall (by simp [AxmapCall.Sets])

end

/-- **When `axmap_next_free` finds the next free bit.** In every map made by setting bits, for every
set bit of it: exactly if its search, from the front of the word it restarts at, passes nothing. -/
theorem nextFree_iff {smalloc : Nat → Nat → Bool} {nrBits b : Nat} {m₀ : Axmap}
    {calls : List AxmapCall} (hlt : nrBits + 63 < 2 ^ 64) (hnew : axmapNew smalloc nrBits = some m₀)
    (hcalls : ∀ call ∈ calls, call.Sets) (hb : b < nrBits)
    (hset : baseBit (runAxmap m₀ calls).levels b = true) :
    NextFreeAnswer nrBits (baseBit (runAxmap m₀ calls).levels) b
        (axmapNextFree (runAxmap m₀ calls) b).2 ↔
      NothingPassed nrBits (baseBit (runAxmap m₀ calls).levels) b
        (searchStart (baseBit (runAxmap m₀ calls).levels) b (runAxmap m₀ calls).levels.length 0) := by
  have hpos : 1 ≤ nrBits := by omega
  have hrun : CacheOk nrBits (runAxmap m₀ calls) ∧ CacheFirst (runAxmap m₀ calls) :=
    List.foldlRecOn (motive := fun m => CacheOk nrBits m ∧ CacheFirst m) calls AxmapCall.apply
      (axmapNew_cacheOk hlt hpos hnew)
      fun _ hm call hc => hm.1.sets call hlt hpos hm.2 (hcalls call hc)
  exact (axmapNextFree_found hrun.1 hlt hrun.2).next_iff (searchStart_le _ b _ 0) hb hset

/-- The first three bits of a map are set: the next free bit after bit 1 is found. -/
theorem nextFree_iff_three :
    ∃ m₀, axmapNew (fun _ _ => true) 8 = some m₀ ∧
      (NextFreeAnswer 8 (baseBit (runAxmap m₀ [.set 0, .set 1, .set 2]).levels) 1
          (axmapNextFree (runAxmap m₀ [.set 0, .set 1, .set 2]) 1).2 ↔
        NothingPassed 8 (baseBit (runAxmap m₀ [.set 0, .set 1, .set 2]).levels) 1
          (searchStart (baseBit (runAxmap m₀ [.set 0, .set 1, .set 2]).levels) 1
            (runAxmap m₀ [.set 0, .set 1, .set 2]).levels.length 0)) := by
  refine ⟨_, rfl, @nextFree_iff (fun _ _ => true) 8 1 _ [.set 0, .set 1, .set 2] (by decide) rfl ?_
    (by decide) (by decide)⟩
  intro call hcall
  simp only [List.mem_cons, List.not_mem_nil, or_false] at hcall
  rcases hcall with rfl | rfl | rfl
  · exact trivial
  · exact trivial
  · exact trivial

/-- Only bit 3 is set, and the next free bit after it is said to be bit 0. -/
theorem nextFree_goes_back :
    ∃ m₀, axmapNew (fun _ _ => true) 8 = some m₀ ∧
      baseBit (runAxmap m₀ [.set 3]).levels 3 = true ∧
      baseBit (runAxmap m₀ [.set 3]).levels 4 = false ∧
      (axmapNextFree (runAxmap m₀ [.set 3]) 3).2 = 0 ∧
      ¬ NextFreeAnswer 8 (baseBit (runAxmap m₀ [.set 3]).levels) 3
        (axmapNextFree (runAxmap m₀ [.set 3]) 3).2 := by
  obtain ⟨m₀, hm⟩ : ∃ m₀ : Axmap, m₀ = ⟨[⟨0, [0#64]⟩], 0, 8⟩ := ⟨_, rfl⟩
  have hr : (axmapNextFree (runAxmap m₀ [.set 3]) 3).2 = 0 := by subst hm; decide
  have h₄ : baseBit (runAxmap m₀ [.set 3]).levels 4 = false := by subst hm; decide
  refine ⟨m₀, by subst hm; decide, by subst hm; decide, h₄, hr, ?_⟩
  rw [hr]
  rintro (⟨hgt, -⟩ | ⟨hnone, -⟩)
  · exact absurd hgt (by decide)
  · exact absurd ((hnone 4 (by decide) (by decide)).symm.trans h₄) (by simp)

end MysqlBench.Fio
