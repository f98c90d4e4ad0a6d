import MysqlBench.Fio.Smalloc.Blocks

/-!
# Where `__smalloc_pool` looks

The search does not look at every block. It probes the first free block of a word; if the run there
is too short it goes on behind the `n` blocks it asked for, in the same word or at the start of the
word that block is in, and if the rest of a word is full it goes on as if `find_next_zero` had
answered 63 more than where it started. Words that are full are stepped over, and each of them moves
`next_non_full`.

`visits` says, for a bitmap and a number of blocks, which full words are stepped over and which
blocks are probed, up to the first probe that finds its run. `smallocSearch_spec` is that the search
does this: it fails exactly if no probe finds a run, and `next_non_full` is where the last full word
it stepped over has put it.
-/

namespace MysqlBench.Fio

open MysqlBench.Lib

/-! ## The next clear bit of a word -/

def clearFrom (w : Uint) (start : Nat) : Option Nat :=
  (List.range' start (32 - start)).find? fun i => !w.getLsbD i

variable {w : Uint} {i : Nat} {pool : Pool} {n : Nat} {bitmap : List Uint} {pool' : Pool}
  {res : Option Nat} {k : Nat}

theorem clearFrom_some {start idx : Nat} (h : clearFrom w start = some idx) :
    start ≤ idx ∧ idx < 32 ∧ w.getLsbD idx = false ∧
      ∀ j, start ≤ j → j < idx → w.getLsbD j = true := by
  obtain ⟨hclear, k, hk, hidx, hbelow⟩ := List.find?_eq_some_iff_getElem.mp h
  rw [List.length_range'] at hk
  rw [List.getElem_range'] at hidx
  refine ⟨by omega, by omega, by simpa using hclear, fun j h1 h2 => ?_⟩
  have := hbelow (j - start) (by omega)
  rw [List.getElem_range', show start + 1 * (j - start) = j by omega] at this
  simpa using this

theorem clearFrom_none {start : Nat} (h : clearFrom w start = none) :
    ∀ j, start ≤ j → j < 32 → w.getLsbD j = true := by
  intro j h1 h2
  have := List.find?_eq_none.mp h j (List.mem_range'_1.mpr ⟨h1, by omega⟩)
  simpa using this

theorem clearFrom_zero (hw : w ≠ BitVec.allOnes 32) : ∃ idx, clearFrom w 0 = some idx := by
  cases h : clearFrom w 0 with
  | some idx => exact ⟨idx, rfl⟩
  | none =>
    refine absurd (BitVec.eq_of_getLsbD_eq fun j hj => ?_) hw
    rw [clearFrom_none h j (Nat.zero_le j) hj, BitVec.getLsbD_allOnes, decide_eq_true hj]

theorem getLsbD_signed_shift (w : Uint) {start : Nat} (hstart : start < 32) (hi : i < 64) :
    ((w.sshiftRight start).signExtend 64).getLsbD i
      = if start + i < 32 then w.getLsbD (start + i) else w.getLsbD 31 := by
  rw [BitVec.getLsbD_signExtend, BitVec.getLsbD_sshiftRight, BitVec.msb_sshiftRight,
    BitVec.msb_eq_getLsbD_last, decide_eq_true hi, Bool.true_and]
  by_cases hin : start + i < 32
  · have hlow : i < 32 := by omega
    rw [if_pos hlow, if_pos hin, decide_eq_false (by omega), Bool.not_false, Bool.true_and]
  · rw [if_neg hin]
    split
    · rw [decide_eq_false (by omega), Bool.not_false, Bool.true_and]
    · rfl

theorem findNextZero_eq {start : Nat} (hw : w ≠ BitVec.allOnes 32) (hstart : start < 32) :
    findNextZero w start = .ok ((clearFrom w start).getD (63 + start)) := by
  rw [findNextZero, if_neg hw]
  congr 1
  cases h : clearFrom w start with
  | none =>
    have hset := clearFrom_none h
    have hall : (w.sshiftRight start).signExtend 64 = BitVec.allOnes 64 := by
      refine BitVec.eq_of_getLsbD_eq fun i hi => ?_
      rw [getLsbD_signed_shift w hstart hi, BitVec.getLsbD_allOnes, decide_eq_true hi]
      split
      · exact hset _ (by omega) (by omega)
      · exact hset _ (by omega) (by omega)
    rw [hall, ffz_allOnes, Option.getD_none]
  | some idx =>
    obtain ⟨hlow, hhigh, hclear, hbelow⟩ := clearFrom_some h
    have hbit : ((w.sshiftRight start).signExtend 64).getLsbD (idx - start) = false := by
      rw [getLsbD_signed_shift w hstart (by omega), if_pos (by omega),
        show start + (idx - start) = idx by omega, hclear]
    have hne : (w.sshiftRight start).signExtend 64 ≠ BitVec.allOnes 64 := fun hall => by
      rw [hall, BitVec.getLsbD_allOnes, decide_eq_true (by omega)] at hbit
      exact absurd hbit (by simp)
    obtain ⟨hlt, hfirst, hset⟩ := ffz_spec hne
    -- both are the first clear bit
    have hle : ffz ((w.sshiftRight start).signExtend 64) ≤ idx - start := by
      by_contra hgt
      rw [hset _ (by omega)] at hbit
      exact absurd hbit (by simp)
    have hge : idx - start ≤ ffz ((w.sshiftRight start).signExtend 64) := by
      by_contra hgt
      rw [getLsbD_signed_shift w hstart hlt, if_pos (by omega), hbelow _ (by omega) (by omega)]
        at hfirst
      exact absurd hfirst (by simp)
    rw [Option.getD_some]
    omega

/-! ## The search -/

def FreeRun (bitmap : List Uint) (k n : Nat) : Prop :=
  k + n ≤ 32 * bitmap.length ∧ RunIs bitmap k n false

instance decidableFreeRun (bitmap : List Uint) (k n : Nat) : Decidable (FreeRun bitmap k n) :=
  decidable_of_iff (k + n ≤ 32 * bitmap.length ∧ ∀ j, j < n → bit bitmap (k + j) = false)
    ⟨fun h => ⟨h.1, fun i h1 h2 => by
      have := h.2 (i - k) (by omega)
      rwa [show k + (i - k) = i by omega] at this⟩,
    fun h => ⟨h.1, fun j hj => h.2 (k + j) (by omega) (by omega)⟩⟩

inductive Visit where
  | full (i : Nat)
  | probe (k : Nat)
deriving Repr, DecidableEq

variable {vs : List Visit}

/-- What a search for `n` blocks comes to from bit `lastIdx` of word `i` on, up to the first probe
that finds its run. -/
def visits (bitmap : List Uint) (n : Nat) : Nat → Nat → Nat → List Visit
  | 0, _, _ => []
  | fuel + 1, i, lastIdx =>
      if bitmap.length ≤ i then []
      else if word bitmap i = BitVec.allOnes 32 then .full i :: visits bitmap n fuel (i + 1) 0
      else
        let idx := (clearFrom (word bitmap i) lastIdx).getD (63 + lastIdx)
        let rest :=
          if idx + n < 32 then visits bitmap n fuel i (idx + n)
          else visits bitmap n fuel (i + (idx + n) / 32) 0
        if idx < 32 then
          if FreeRun bitmap (i * 32 + idx) n then [.probe (i * 32 + idx)]
          else .probe (i * 32 + idx) :: rest
        else rest

def nextAfter (next : Nat) : List Visit → Nat
  | [] => next
  | .full i :: vs => nextAfter (i + 1) vs
  | .probe _ :: vs => nextAfter next vs

structure Searched (pool pool' : Pool) (n : Nat) (vs : List Visit) (res : Option Nat) : Prop where
  map : pool'.map = pool.map
  freeBlocks : pool'.freeBlocks = pool.freeBlocks
  next : pool'.nextNonFull = nextAfter pool.nextNonFull vs
  length : pool'.bitmap.length = pool.bitmap.length
  missed : res = none → pool'.bitmap = pool.bitmap ∧
    ∀ k, .probe k ∈ vs → ¬ FreeRun pool.bitmap k n
  found : ∀ offset, res = some offset → ∃ k, offset = 32 * k ∧ .probe k ∈ vs ∧
    FreeRun pool.bitmap k n ∧ (∀ i, .full i ∈ vs → (i + 1) * 32 ≤ k) ∧
    ∀ j, bit pool'.bitmap j = if k ≤ j ∧ j < k + n then true else bit pool.bitmap j

theorem Searched.none_of_nil (pool : Pool) (n : Nat) : Searched pool pool n [] none where
  map := rfl
  freeBlocks := rfl
  next := rfl
  length := rfl
  missed := fun _ => ⟨rfl, fun k hk => absurd hk (by simp)⟩
  found := fun offset h => absurd h (by simp)

def Visit.From (i lastIdx : Nat) : Visit → Prop
  | .full j => i ≤ j
  | .probe k => i * 32 + lastIdx ≤ k

theorem visits_succ_cases {fuel lastIdx : Nat} {v : Visit}
    (hidx : lastIdx < 32) (h : v ∈ visits bitmap n (fuel + 1) i lastIdx) :
    (v = .full i ∧ word bitmap i = BitVec.allOnes 32) ∨
      (∃ k, v = .probe k ∧ i * 32 + lastIdx ≤ k ∧ k < 32 * bitmap.length) ∨
      ∃ i' lastIdx', lastIdx' < 32 ∧ i ≤ i' ∧ i * 32 + lastIdx ≤ i' * 32 + lastIdx' ∧
        v ∈ visits bitmap n fuel i' lastIdx' := by
  -- the position never falls behind the last one, also when the word has no clear bit left
  have hstart : lastIdx ≤ (clearFrom (word bitmap i) lastIdx).getD (63 + lastIdx) := by
    cases hclear : clearFrom (word bitmap i) lastIdx with
    | none => rw [Option.getD_none]; omega
    | some b => exact (clearFrom_some hclear).1
  rw [visits] at h
  split at h
  · exact absurd h (by simp)
  · rename_i hi
    split at h
    · rename_i hfull
      rcases List.mem_cons.mp h with heq | h
      · exact .inl ⟨heq, hfull⟩
      · exact .inr (.inr ⟨i + 1, 0, by decide, by omega, by omega, h⟩)
    · generalize (clearFrom (word bitmap i) lastIdx).getD (63 + lastIdx) = idx at h hstart
      have hrest : v ∈ (if idx + n < 32 then visits bitmap n fuel i (idx + n)
          else visits bitmap n fuel (i + (idx + n) / 32) 0) →
          ∃ i' lastIdx', lastIdx' < 32 ∧ i ≤ i' ∧ i * 32 + lastIdx ≤ i' * 32 + lastIdx' ∧
            v ∈ visits bitmap n fuel i' lastIdx' := by
        intro h
        split at h
        · exact ⟨i, idx + n, by omega, Nat.le_refl i, by omega, h⟩
        · exact ⟨i + (idx + n) / 32, 0, by decide, by omega, by omega, h⟩
      dsimp only at h
      split at h
      · split at h
        · exact .inr (.inl ⟨_, List.mem_singleton.mp h, by omega, by omega⟩)
        · rcases List.mem_cons.mp h with heq | h
          · exact .inr (.inl ⟨_, heq, by omega, by omega⟩)
          · exact .inr (.inr (hrest h))
      · exact .inr (.inr (hrest h))

theorem visits_forward : ∀ (fuel : Nat) {i lastIdx : Nat},
    lastIdx < 32 → ∀ v ∈ visits bitmap n fuel i lastIdx, v.From i lastIdx := by
  intro fuel
  induction fuel with
  | zero => intro i lastIdx _ v hv; exact absurd hv (by simp [visits])
  | succ fuel ih =>
    intro i lastIdx hidx v hv
    rcases visits_succ_cases hidx hv with ⟨rfl, -⟩ | ⟨k, rfl, hk, -⟩ | ⟨i', l', hl, hi, hpos, hv⟩
    · exact Nat.le_refl i
    · exact hk
    · have hfrom := ih hl v hv
      cases v with
      | full j => exact Nat.le_trans hi hfrom
      | probe k => exact Nat.le_trans hpos hfrom

theorem visits_full : ∀ (fuel : Nat) {i lastIdx j : Nat},
    lastIdx < 32 → .full j ∈ visits bitmap n fuel i lastIdx → word bitmap j = BitVec.allOnes 32 := by
  intro fuel
  induction fuel with
  | zero => intro i lastIdx j _ h; exact absurd h (by simp [visits])
  | succ fuel ih =>
    intro i lastIdx j hidx h
    rcases visits_succ_cases hidx h with ⟨heq, hfull⟩ | ⟨k, heq, -⟩ | ⟨i', l', hl, -, -, h⟩
    · obtain rfl := Visit.full.inj heq
      exact hfull
    · exact absurd heq (by simp)
    · exact ih hl h

theorem visits_probe : ∀ (fuel : Nat) {i lastIdx k : Nat},
    lastIdx < 32 → .probe k ∈ visits bitmap n fuel i lastIdx → k < 32 * bitmap.length := by
  intro fuel
  induction fuel with
  | zero => intro i lastIdx k _ h; exact absurd h (by simp [visits])
  | succ fuel ih =>
    intro i lastIdx k hidx h
    rcases visits_succ_cases hidx h with ⟨heq, -⟩ | ⟨k', heq, -, hlt⟩ | ⟨i', l', hl, -, -, h⟩
    · exact absurd heq (by simp)
    · obtain rfl := Visit.probe.inj heq
      exact hlt
    · exact ih hl h

theorem Searched.full
    (h : Searched { pool with nextNonFull := i + 1 } pool' n vs res)
    (hlater : ∀ k, .probe k ∈ vs → (i + 1) * 32 ≤ k) : Searched pool pool' n (.full i :: vs) res where
  map := h.map
  freeBlocks := h.freeBlocks
  next := h.next
  length := h.length
  missed := fun hres => ⟨(h.missed hres).1, fun k hk => (h.missed hres).2 k (by simpa using hk)⟩
  found := fun offset hres => by
    obtain ⟨k, hoff, hk, hrun, hfull, hbits⟩ := h.found offset hres
    refine ⟨k, hoff, List.mem_cons_of_mem _ hk, hrun, fun j hj => ?_, hbits⟩
    rcases List.mem_cons.mp hj with h | h
    · obtain rfl := Visit.full.inj h
      exact hlater k hk
    · exact hfull j h

theorem Searched.probe
    (h : Searched pool pool' n vs res) (hno : ¬ FreeRun pool.bitmap k n) :
    Searched pool pool' n (.probe k :: vs) res where
  map := h.map
  freeBlocks := h.freeBlocks
  next := h.next
  length := h.length
  missed := fun hres => ⟨(h.missed hres).1, fun k' hk' => by
    rcases List.mem_cons.mp hk' with h' | h'
    · obtain rfl := Visit.probe.inj h'
      exact hno
    · exact (h.missed hres).2 k' h'⟩
  found := fun offset hres => by
    obtain ⟨k', hoff, hk', hrun, hfull, hbits⟩ := h.found offset hres
    exact ⟨k', hoff, List.mem_cons_of_mem _ hk', hrun,
      fun j hj => hfull j (by simpa using hj), hbits⟩

theorem Searched.found_one {bitmap' : List Uint}
    (hrun : FreeRun pool.bitmap k n) (hlen : bitmap'.length = pool.bitmap.length)
    (hbits : ∀ j, bit bitmap' j = if k ≤ j ∧ j < k + n then true else bit pool.bitmap j) :
    Searched pool { pool with bitmap := bitmap' } n [.probe k] (some (32 * k)) where
  map := rfl
  freeBlocks := rfl
  next := rfl
  length := hlen
  missed := fun hres => absurd hres (by simp)
  found := fun offset hres => ⟨k, (Option.some.inj hres).symm, by simp, hrun,
    fun i hi => absurd hi (by simp), hbits⟩

/-- The search makes the visits. The measure is the number of bits from `i * 32 + lastIdx` to the
end, which every round makes smaller; a search for no blocks at all never leaves bit 0. -/
theorem smallocSearch_spec {wild : Wild} {n : Nat} (hn : n < 2 ^ 30) :
    ∀ (fuel : Nat) {pool : Pool} {i lastIdx : Nat}, lastIdx < 32 → (0 < n ∨ lastIdx = 0) →
      fuel ≠ 0 → 32 * pool.bitmap.length < fuel + (i * 32 + lastIdx) →
      pool.bitmap.length * 1024 < 2 ^ 32 →
      ∃ pool' res, smallocSearch wild n fuel pool i lastIdx = .ok (pool', res) ∧
        Searched pool pool' n (visits pool.bitmap n fuel i lastIdx) res := by
  intro fuel
  induction fuel with
  | zero => intro pool i lastIdx _ _ h0 _ _; exact absurd rfl h0
  | succ fuel ih =>
    intro pool i lastIdx hidx hpos _ hfuel hsize
    rw [smallocSearch, visits]
    by_cases hi : pool.bitmap.length ≤ i
    · rw [if_pos hi, if_pos hi]
      exact ⟨pool, none, rfl, Searched.none_of_nil pool n⟩
    · rw [if_neg hi, if_neg hi]
      by_cases hfull : word pool.bitmap i = BitVec.allOnes 32
      · rw [if_pos hfull, if_pos hfull]
        obtain ⟨pool', res, hrest, hsearched⟩ := @ih { pool with nextNonFull := i + 1 } (i + 1) 0
          (by decide) (.inr rfl) (by omega) (by show 32 * pool.bitmap.length < _; omega) hsize
        exact ⟨pool', res, hrest, hsearched.full fun k hk => visits_forward fuel (by decide) _ hk⟩
      · rw [if_neg hfull, if_neg hfull, findNextZero_eq hfull hidx]
        have hrange : ∃ idx, (clearFrom (word pool.bitmap i) lastIdx).getD (63 + lastIdx) = idx ∧
            ((lastIdx ≤ idx ∧ idx < 32) ∨ (0 < n ∧ idx = 63 + lastIdx)) := by
          cases hclear : clearFrom (word pool.bitmap i) lastIdx with
          | some b => exact ⟨b, rfl, .inl ⟨(clearFrom_some hclear).1, (clearFrom_some hclear).2.1⟩⟩
          | none =>
            refine ⟨_, rfl, .inr ⟨hpos.resolve_right ?_, rfl⟩⟩
            rintro rfl
            obtain ⟨b, hb⟩ := clearFrom_zero hfull
            exact absurd (hb.symm.trans hclear) (by simp)
        obtain ⟨idx, hget, hrange⟩ := hrange
        rw [hget]
        dsimp only
        -- a probe that finds nothing goes on behind the blocks it asked for
        have hskip : 0 < n → ∃ pool' res,
            (if (idx + n) % 2 ^ 32 < 32 then smallocSearch wild n fuel pool i ((idx + n) % 2 ^ 32)
              else smallocSearch wild n fuel pool (i + (idx + n) % 2 ^ 32 / 32) 0)
              = .ok (pool', res) ∧
            Searched pool pool' n (if idx + n < 32 then visits pool.bitmap n fuel i (idx + n)
              else visits pool.bitmap n fuel (i + (idx + n) / 32) 0) res := by
          intro hn0
          rw [Nat.mod_eq_of_lt (by omega)]
          split
          · exact ih (by omega) (.inl hn0) (by omega) (by omega) hsize
          · exact ih (by omega) (.inl hn0) (by omega) (by omega) hsize
        rcases hrange with ⟨hle, h32⟩ | ⟨hn0, rfl⟩
        · rw [if_pos h32]
          obtain ⟨b, hcmp, hiff⟩ := @blocksIterLoop_cmp wild pool.bitmap (pool.bitmap.length + 1) i
            idx n h32 (by omega) (by omega) (by omega) (fun _ => by omega)
          rw [blocksIter, hcmp]
          cases b with
          | false =>
            have hno : ¬ FreeRun pool.bitmap (i * 32 + idx) n := fun hrun =>
              absurd (hiff.mpr hrun) (by simp)
            have hn0 : 0 < n := Nat.pos_of_ne_zero fun h0 => hno ⟨by omega, fun k h1 h2 => by omega⟩
            rw [if_neg hno]
            obtain ⟨pool', res, hrest, hsearched⟩ := hskip hn0
            exact ⟨pool', res, hrest, hsearched.probe hno⟩
          | true =>
            have hrun : FreeRun pool.bitmap (i * 32 + idx) n := hiff.mp rfl
            obtain ⟨bitmap', hset, hlen, hbits⟩ :=
              @blocksIter_flip wild maskSet true maskSet_flips pool.bitmap i idx n h32 (by omega)
                hrun.1 hrun.2
            have hoff : (i * 1024 + idx * 32) % 2 ^ 32 = 32 * (i * 32 + idx) := by
              rw [Nat.mod_eq_of_lt (Nat.lt_of_le_of_lt ?_ hsize)]
              · omega
              · omega
            rw [if_pos hrun]
            dsimp only
            rw [hset, hoff]
            exact ⟨_, _, rfl, Searched.found_one hrun hlen hbits⟩
        · have hpast : ¬ 63 + lastIdx < 32 := by omega
          rw [if_neg hpast, blocksIter_cmp_past (by omega) hn0 (by omega)]
          exact hskip hn0

/-! ## A pool -/

def Pool.visits (pool : Pool) (n : Nat) : List Visit :=
  Fio.visits pool.bitmap n (32 * pool.bitmap.length + 1) pool.nextNonFull 0

def Pool.Finds (pool : Pool) (n : Nat) : Prop :=
  ∃ k, .probe k ∈ pool.visits n ∧ FreeRun pool.bitmap k n

theorem Searched.isSome_iff
    (h : Searched pool pool' n (pool.visits n) res) : res.isSome = true ↔ pool.Finds n := by
  cases res with
  | none =>
    refine ⟨fun hsome => absurd hsome (by simp), ?_⟩
    rintro ⟨k, hk, hrun⟩
    exact absurd hrun ((h.missed rfl).2 k hk)
  | some offset =>
    obtain ⟨k, -, hk, hrun, -⟩ := h.found offset rfl
    exact ⟨fun _ => ⟨k, hk, hrun⟩, fun _ => rfl⟩

end MysqlBench.Fio
