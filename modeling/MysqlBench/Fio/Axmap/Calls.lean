import MysqlBench.Fio.Axmap.Free

/-!
# Calls with any arguments

Nothing stops a caller of `axmap_set_nr` from asking for bits past the end of the map, and the
count handed to `axmap_set_fn` is not trimmed to the map. So the invariant of `Axmap/Refine.lean`
does not survive such calls: the unused end of the last word may get bits. `AxmapSized` is what
survives every call, whatever its arguments. It is the same hierarchy, for a map that ends where its
last word ends, and setting bits takes none away.
-/

namespace MysqlBench.Fio

open MysqlBench.Lib

def roundUp (nrBits : Nat) : Nat := (nrBits + 63) / 64 * 64

variable {i valid : Nat} {als levels : List AxmapLevel} {bitNr : Nat}

theorem le_roundUp (nrBits : Nat) : nrBits ≤ roundUp nrBits := by
  unfold roundUp
  omega

theorem roundUp_mod (nrBits : Nat) : roundUp nrBits % 64 = 0 := by
  unfold roundUp
  omega

structure AxmapSized (nrBits : Nat) (m : Axmap) : Prop where
  bits : m.nrBits = nrBits
  levels : m.levels ≠ []
  hier : Hierarchy 0 (roundUp nrBits) m.levels

theorem Hierarchy.widen {valid' : Nat} (h : Hierarchy i valid als)
    (hle : valid ≤ valid') (hsize : (valid' + 63) / 64 = (valid + 63) / 64) :
    Hierarchy i valid' als := by
  cases als with
  | nil => exact trivial
  | cons al als =>
    obtain ⟨hlev, hlink, hup⟩ := h
    refine ⟨⟨hlev.level, ?_, fun k hk => hlev.tail k (by omega)⟩, hlink, hup⟩
    rw [hlev.size, hsize]

theorem AxmapOk.sized {nrBits : Nat} {m : Axmap} (h : AxmapOk nrBits m) : AxmapSized nrBits m := by
  refine ⟨h.bits, h.levels, h.hier.widen (le_roundUp nrBits) ?_⟩
  unfold roundUp
  omega

/-! ## Setting bits -/

structure Grows (valid : Nat) (levels levels' : List AxmapLevel) : Prop where
  ne : levels' ≠ []
  hier : Hierarchy 0 valid levels'
  mono : ∀ k, baseBit levels k = true → baseBit levels' k = true

theorem Grows.refl (hne : levels ≠ [])
    (hier : Hierarchy 0 valid levels) : Grows valid levels levels := ⟨hne, hier, fun _ h => h⟩

theorem Grows.trans {l₁ l₂ l₃ : List AxmapLevel} (h₁ : Grows valid l₁ l₂)
    (h₂ : Grows valid l₂ l₃) : Grows valid l₁ l₃ :=
  ⟨h₂.ne, h₂.hier, fun k hk => h₂.mono k (h₁.mono k hk)⟩

theorem orWord_outside {map : List Ulong} (m : Ulong) (h : map.length ≤ i) :
    orWord map i m = map := by
  unfold orWord
  exact List.set_eq_of_length_le h

theorem axmapSetFn_walk_outside {al : AxmapLevel}
    (data : AxmapSetData) (hout : al.map.length ≤ bitNr / 64) :
    (axmapHandler axmapSetFn bitNr 0 (al :: als) data).1 = al :: als := by
  rw [axmapHandler, ulog64_zero, shiftRight_six]
  rcases axmapSetFn_cases al bitNr data with ⟨_, he⟩ | ⟨_, he⟩
  · rw [he]; rfl
  · rw [he, orWord_outside _ hout, word_of_length_le hout]
    rfl

theorem runLen_le (n : Nat) (hmod : valid % 64 = 0) (hlt : bitNr < valid) :
    bitNr + runLen bitNr n ≤ valid := by
  unfold runLen
  omega

theorem axmapSetFn_walk_grows (bitNr : Nat) (data : AxmapSetData)
    (hmod : valid % 64 = 0) (hne : levels ≠ []) (hier : Hierarchy 0 valid levels) :
    Grows valid levels (axmapHandler axmapSetFn bitNr 0 levels data).1 := by
  by_cases hlt : bitNr < valid
  · obtain ⟨levels', data', ret, heq, hne', hier', hbase, -⟩ :=
      axmapSetFn_round bitNr data hne hier (runLen_le data.nrBits hmod hlt)
    rw [heq]
    refine ⟨hne', hier', fun k hk => ?_⟩
    show baseBit levels' k = true
    rw [hbase, hk, Bool.true_or]
  · cases levels with
    | nil => exact absurd rfl hne
    | cons al als =>
      have hout : al.map.length ≤ bitNr / 64 := by
        rw [hier.1.size]
        omega
      rw [axmapSetFn_walk_outside data hout]
      exact Grows.refl hne hier

theorem axmapSetLoop_grows (hmod : valid % 64 = 0) : ∀ (fuel : Nat)
    (levels : List AxmapLevel) (bitNr nrBits : Nat) (data : AxmapSetData) (setBits : Nat),
    levels ≠ [] → Hierarchy 0 valid levels →
    Grows valid levels (axmapSetLoop fuel levels bitNr nrBits data setBits).1 := by
  intro fuel
  induction fuel with
  | zero => intro levels bitNr nrBits data setBits hne hier; exact Grows.refl hne hier
  | succ fuel ih =>
    intro levels bitNr nrBits data setBits hne hier
    rw [axmapSetLoop]
    split
    · exact Grows.refl hne hier
    · have hg := axmapSetFn_walk_grows bitNr data hmod hne hier
      generalize axmapHandler axmapSetFn bitNr 0 levels data = res at hg
      obtain ⟨levels', data', ret⟩ := res
      dsimp only at hg ⊢
      split
      · exact hg
      · exact hg.trans (ih levels' _ _ _ _ hg.ne hg.hier)

section Sized

variable {nrBits : Nat} {m : Axmap}

theorem AxmapSized.set' (h : AxmapSized nrBits m) (b n : Nat) :
    AxmapSized nrBits (axmapSet' m b n).1 ∧
      ∀ k, baseBit m.levels k = true → baseBit (axmapSet' m b n).1.levels k = true := by
  unfold axmapSet'
  dsimp only
  split
  · exact ⟨⟨h.bits, h.levels, h.hier⟩, fun _ hk => hk⟩
  · have hg := axmapSetLoop_grows (roundUp_mod nrBits)
      ((if m.nrBits < (b + n) % 2 ^ 64 then m.nrBits - b else n) + 1) m.levels b
      (if m.nrBits < (b + n) % 2 ^ 64 then m.nrBits - b else n) ⟨n, 0⟩ 0 h.levels h.hier
    exact ⟨⟨h.bits, hg.ne, hg.hier⟩, hg.mono⟩

theorem AxmapSized.set'_inside {b n : Nat} (h : AxmapSized nrBits m) (hfit : b % 64 + n ≤ 64)
    (hlt : nrBits < 2 ^ 64) (hle : b + n ≤ nrBits) :
    (axmapSet' m b n).2 = setCount n (clearIn (baseBit m.levels) b (b + n)).card ∧
      ∀ k, baseBit (axmapSet' m b n).1.levels k
        = (baseBit m.levels k || decide (b ≤ k ∧ k < b + n)) := by
  obtain ⟨-, -, -, hcount, hbase⟩ := axmapSet'_inside h.levels h.hier
    (by rw [h.bits]; exact le_roundUp nrBits) (by rw [h.bits]; exact hlt) hfit
    (by rw [h.bits]; exact hle)
  exact ⟨hcount, hbase⟩

theorem axmapSetNrLoop_succ (fuel : Nat) (m : Axmap) (b n setBits : Nat) :
    axmapSetNrLoop (fuel + 1) m b n setBits =
      if (axmapSet' m b (runLen b n)).2 ≠ runLen b n then
        ((axmapSet' m b (runLen b n)).1, setBits + (axmapSet' m b (runLen b n)).2)
      else if usub 32 n (axmapSet' m b (runLen b n)).2 = 0 then
        ((axmapSet' m b (runLen b n)).1, setBits + (axmapSet' m b (runLen b n)).2)
      else
        axmapSetNrLoop fuel (axmapSet' m b (runLen b n)).1 (b + (axmapSet' m b (runLen b n)).2)
          (usub 32 n (axmapSet' m b (runLen b n)).2) (setBits + (axmapSet' m b (runLen b n)).2) := by
  have ht : (if 64 - b % 64 < n then 64 - b % 64 else n) = runLen b n := by
    unfold runLen
    split <;> omega
  rw [axmapSetNrLoop]
  dsimp only
  rw [ht]

theorem AxmapSized.setNrLoop : ∀ (fuel : Nat) (m : Axmap) (b n setBits : Nat), AxmapSized nrBits m →
    AxmapSized nrBits (axmapSetNrLoop fuel m b n setBits).1 ∧
      ∀ k, baseBit m.levels k = true →
        baseBit (axmapSetNrLoop fuel m b n setBits).1.levels k = true := by
  intro fuel
  induction fuel with
  | zero => intro m b n setBits h; exact ⟨h, fun _ hk => hk⟩
  | succ fuel ih =>
    intro m b n setBits h
    rw [axmapSetNrLoop_succ]
    obtain ⟨h', hmono⟩ := h.set' b (runLen b n)
    split
    · exact ⟨h', hmono⟩
    · split
      · exact ⟨h', hmono⟩
      · obtain ⟨h'', hmono'⟩ := ih _ _ _ _ h'
        exact ⟨h'', fun k hk => hmono' k (hmono k hk)⟩

/-! ## The other calls -/

theorem AxmapSized.clear (h : AxmapSized nrBits m) (b : Nat) :
    AxmapSized nrBits (axmapClear m b) := by
  by_cases hlt : b < roundUp nrBits
  · have hok : AxmapOk (roundUp nrBits) { m with nrBits := roundUp nrBits } :=
      ⟨rfl, h.levels, h.hier⟩
    obtain ⟨⟨-, hne, hier⟩, -⟩ := axmapClear_ok hok hlt
    exact ⟨h.bits, hne, hier⟩
  · -- the word it looks at is outside the map, and reads as clear
    have hsame : (axmapHandler axmapClearFn b 0 m.levels ()).1 = m.levels := by
      have hhier := h.hier
      cases hl : m.levels with
      | nil => rfl
      | cons al als =>
        rw [hl] at hhier
        have hout : al.map.length ≤ b / 64 := by
          rw [hhier.1.size]
          have := roundUp_mod nrBits
          omega
        have hword : bit al.map (b / 64 * 64 + b % 64) = false := by
          rw [bit_mul_add al.map (b / 64) (Nat.mod_lt _ (by decide)), word_of_length_le hout]
          simp
        rw [axmapHandler, ulog64_zero, shiftRight_six]
        rcases axmapClearFn_cases al (b / 64) (Nat.mod_lt b (by decide : 0 < 64)) with
          ⟨_, he⟩ | ⟨hbit, _⟩
        · rw [he]; rfl
        · rw [hword] at hbit
          exact absurd hbit (by simp)
    refine ⟨h.bits, ?_, ?_⟩
    · show (axmapHandler axmapClearFn b 0 m.levels ()).1 ≠ []
      rw [hsame]
      exact h.levels
    · show Hierarchy 0 _ (axmapHandler axmapClearFn b 0 m.levels ()).1
      rw [hsame]
      exact h.hier

theorem AxmapSized.reset (h : AxmapSized nrBits m) : AxmapSized nrBits (axmapReset m) :=
  ⟨h.bits, by simpa [axmapReset] using h.levels, axmapReset_hierarchy _ _ _ h.hier⟩

theorem axmapFirstFree_frame (m : Axmap) :
    (axmapFirstFree m).1.levels = m.levels ∧ (axmapFirstFree m).1.nrBits = m.nrBits := by
  unfold axmapFirstFree
  split
  · exact ⟨rfl, rfl⟩
  · exact ⟨rfl, rfl⟩

theorem axmapNextFree_frame (m : Axmap) (b : Nat) :
    (axmapNextFree m b).1.levels = m.levels ∧ (axmapNextFree m b).1.nrBits = m.nrBits := by
  unfold axmapNextFree
  split
  · exact ⟨rfl, rfl⟩
  · split
    · exact axmapFirstFree_frame m
    · dsimp only
      split
      · exact ⟨rfl, rfl⟩
      · exact axmapFirstFree_frame m

end Sized

/-! ## Runs -/

inductive AxmapCall where
  | set (bitNr : Nat)
  | setNr (bitNr nrBits : Nat)
  | clear (bitNr : Nat)
  | reset
  | firstFree
  | nextFree (bitNr : Nat)
deriving Repr, DecidableEq

def AxmapCall.apply (m : Axmap) : AxmapCall → Axmap
  | .set b => axmapSet m b
  | .setNr b n => (axmapSetNr m b n).1
  | .clear b => axmapClear m b
  | .reset => axmapReset m
  | .firstFree => (axmapFirstFree m).1
  | .nextFree b => (axmapNextFree m b).1

def runAxmap (m : Axmap) (calls : List AxmapCall) : Axmap := calls.foldl AxmapCall.apply m

theorem AxmapSized.apply {nrBits : Nat} {m : Axmap} (h : AxmapSized nrBits m) (call : AxmapCall) :
    AxmapSized nrBits (call.apply m) := by
  cases call with
  | set b => exact (h.set' b 1).1
  | setNr b n => exact (AxmapSized.setNrLoop _ m b n 0 h).1
  | clear b => exact h.clear b
  | reset => exact h.reset
  | firstFree =>
    obtain ⟨hlev, hbits⟩ := axmapFirstFree_frame m
    exact ⟨hbits.trans h.bits, by rw [AxmapCall.apply, hlev]; exact h.levels,
      by rw [AxmapCall.apply, hlev]; exact h.hier⟩
  | nextFree b =>
    obtain ⟨hlev, hbits⟩ := axmapNextFree_frame m b
    exact ⟨hbits.trans h.bits, by rw [AxmapCall.apply, hlev]; exact h.levels,
      by rw [AxmapCall.apply, hlev]; exact h.hier⟩

theorem runAxmap_sized {smalloc : Nat → Nat → Bool} {nrBits : Nat} {m₀ : Axmap}
    (hlt : nrBits + 63 < 2 ^ 64) (hnew : axmapNew smalloc nrBits = some m₀) (calls : List AxmapCall) :
    AxmapSized nrBits (runAxmap m₀ calls) :=
  List.foldlRecOn calls AxmapCall.apply (axmapNew_spec hlt hnew).1.sized
    fun _ hm call _ => hm.apply call

end MysqlBench.Fio
