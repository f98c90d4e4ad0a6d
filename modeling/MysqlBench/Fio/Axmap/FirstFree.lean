import MysqlBench.Fio.Axmap.Calls

/-!
# `axmap_first_free` and its cache

`first_free` is a cache for the answer of `axmap_first_free`. `__axmap_set` drops it when it sets the
cached bit and `axmap_reset` sets it to bit 0, but `axmap_clear` leaves it alone. A clear below the
cached bit makes that bit one that is free, but no longer the smallest.

So in any run the cache holds a free bit or nothing (`FirstFreeOk`), the answer is the smallest free
bit exactly when every bit below the cached one is taken (`axmapFirstFree_smallest_iff`), and a run whose
clears stay at or above the cached bit keeps it that way (`firstFree_in_runs`).
-/

namespace MysqlBench.Fio

open MysqlBench.Lib

/-- What `axmap_first_free` should answer: the smallest bit that is not set, or `-1` if every bit of
the map is set. -/
def SmallestFree (nrBits : Nat) (f : Nat → Bool) (r : Nat) : Prop :=
  (r < nrBits ∧ f r = false ∧ ∀ k, k < r → f k = true) ∨
    (r = noFree ∧ ∀ k, k < nrBits → f k = true)

def CacheFirst (m : Axmap) : Prop :=
  m.firstFree = noFree ∨ ∀ k, k < m.firstFree → baseBit m.levels k = true

def AxmapCall.OneBit (nrBits : Nat) : AxmapCall → Prop
  | .set b => b < nrBits
  | .setNr _ _ => False
  | .clear b => b < nrBits
  | .reset => True
  | .firstFree => True
  | .nextFree b => b < nrBits

def AxmapCall.KeepsCache (m : Axmap) : AxmapCall → Prop
  | .clear b => m.firstFree = noFree ∨ m.firstFree ≤ b
  | _ => True

def KeepsCaches : Axmap → List AxmapCall → Prop
  | _, [] => True
  | m, call :: calls => call.KeepsCache m ∧ KeepsCaches (call.apply m) calls

section

variable {nrBits : Nat} {m : Axmap}

/-! ## The search from the top -/

theorem axmapFindFirstFree_smallest (h : AxmapOk nrBits m) (hlt : nrBits + 63 < 2 ^ 64) :
    SmallestFree nrBits (baseBit m.levels) (axmapFindFirstFree m (m.levels.length - 1) 0) := by
  rcases axmapFindFirstFree_sound h (m.levels.length - 1) 0 with hno | ⟨hin, hclear⟩
  · refine Or.inr ⟨hno, fun k hk => ?_⟩
    by_contra hset
    exact axmapFindFirstFree_top h hlt hk (by simpa using hset) hno
  · refine Or.inl ⟨hin, hclear, fun k hk => ?_⟩
    by_contra hset
    have hle := axmapFindFirstFree_le h (show k < nrBits by omega) (by simpa using hset)
    omega

/-- With a cache that may be trusted to be free, the answer is right exactly if nothing below it
is. -/
theorem axmapFirstFree_smallest_iff (h : AxmapOk nrBits m) (hlt : nrBits + 63 < 2 ^ 64)
    (hff : FirstFreeOk m) :
    SmallestFree nrBits (baseBit m.levels) (axmapFirstFree m).2 ↔ CacheFirst m := by
  unfold axmapFirstFree
  by_cases hv : m.firstFree = noFree
  · rw [if_neg (by simp [firstfreeValid, hv])]
    exact iff_of_true (axmapFindFirstFree_smallest h hlt) (Or.inl hv)
  · rw [if_pos (by simpa [firstfreeValid] using hv)]
    obtain ⟨hin, hclear⟩ := hff.resolve_left hv
    rw [h.bits] at hin
    constructor
    · rintro (⟨-, -, hbelow⟩ | ⟨hno, -⟩)
      · exact Or.inr hbelow
      · exact absurd hno hv
    · intro hc
      exact Or.inl ⟨hin, hclear, hc.resolve_left hv⟩

theorem axmapFirstFree_cached (m : Axmap) : (axmapFirstFree m).1.firstFree = (axmapFirstFree m).2 := by
  unfold axmapFirstFree
  split
  · rfl
  · rfl

theorem axmapNextFree_cases (m : Axmap) (b : Nat) :
    (axmapNextFree m b).1 = m ∨ (axmapNextFree m b).1 = (axmapFirstFree m).1 := by
  unfold axmapNextFree
  split
  · exact Or.inl rfl
  · split
    · exact Or.inr rfl
    · dsimp only
      split
      · exact Or.inl rfl
      · exact Or.inr rfl

theorem SmallestFree.cacheFirst {r : Nat} {m' : Axmap} (hr : m'.firstFree = r)
    (h : SmallestFree nrBits (baseBit m'.levels) r) : CacheFirst m' := by
  rcases h with ⟨-, -, hbelow⟩ | ⟨hno, -⟩
  · exact Or.inr (by rw [hr]; exact hbelow)
  · exact Or.inl (hr.trans hno)

theorem CacheFirst.firstFree (h : AxmapOk nrBits m) (hlt : nrBits + 63 < 2 ^ 64)
    (hff : FirstFreeOk m) (hc : CacheFirst m) : CacheFirst (axmapFirstFree m).1 := by
  have hs := (axmapFirstFree_smallest_iff h hlt hff).mpr hc
  rw [← (axmapFirstFree_frame m).1] at hs
  exact hs.cacheFirst (axmapFirstFree_cached m)

/-! ## One call -/

structure CacheOk (nrBits : Nat) (m : Axmap) : Prop where
  ok : AxmapOk nrBits m
  cache : FirstFreeOk m

theorem SearchOk.cacheOk {res : Axmap × Nat} (h : AxmapOk nrBits m) (hs : SearchOk nrBits m res) :
    CacheOk nrBits res.1 := by
  refine ⟨⟨hs.bits.trans h.bits, ?_, ?_⟩, hs.cache⟩
  · rw [hs.levels]
    exact h.levels
  · rw [hs.levels]
    exact h.hier

theorem CacheOk.apply (call : AxmapCall) (hlt : nrBits + 63 < 2 ^ 64) (hpos : 1 ≤ nrBits)
    (h : CacheOk nrBits m) (hcall : call.OneBit nrBits) : CacheOk nrBits (call.apply m) := by
  cases call with
  | set b => exact ⟨(axmapSet_ok h.ok hlt hcall).1, axmapSet_cache h.ok hlt hcall h.cache⟩
  | setNr b n => exact absurd hcall (by simp [AxmapCall.OneBit])
  | clear b =>
    obtain ⟨hok, hbase⟩ := axmapClear_ok h.ok hcall
    refine ⟨hok, h.cache.imp id fun ⟨hin, hclear⟩ => ⟨hin, ?_⟩⟩
    show baseBit (axmapClear m b).levels m.firstFree = false
    rw [hbase, hclear, Bool.false_and]
  | reset => exact ⟨axmapReset_ok h.ok, axmapReset_cache h.ok hpos⟩
  | firstFree => exact (axmapFirstFree_spec h.ok hlt h.cache).cacheOk h.ok
  | nextFree b => exact (axmapNextFree_spec h.ok hlt h.cache b).cacheOk h.ok

theorem axmapSet_firstFree (h : AxmapOk nrBits m) {b : Nat} (hb : b < nrBits) :
    (axmapSet m b).firstFree = noFree ∨ (axmapSet m b).firstFree = m.firstFree := by
  unfold axmapSet axmapSet'
  rw [h.bits, if_neg (show ¬ nrBits < b by omega)]
  dsimp only
  split
  · exact Or.inl rfl
  · exact Or.inr rfl

theorem CacheFirst.apply (call : AxmapCall) (hlt : nrBits + 63 < 2 ^ 64)
    (h : CacheOk nrBits m) (hc : CacheFirst m) (hcall : call.OneBit nrBits)
    (hkeep : call.KeepsCache m) : CacheFirst (call.apply m) := by
  cases call with
  | set b =>
    -- the cached bit is dropped if it is the one that is set
    rcases axmapSet_firstFree h.ok hcall with hno | hsame
    · exact Or.inl hno
    · refine hc.imp (fun hno => hsame.trans hno) fun hbelow k hk => ?_
      show baseBit (axmapSet m b).levels k = true
      rw [(axmapSet_ok h.ok hlt hcall).2, hbelow k (by rw [← hsame]; exact hk), Bool.true_or]
  | setNr b n => exact absurd hcall (by simp [AxmapCall.OneBit])
  | clear b =>
    rcases hc with hno | hbelow
    · exact Or.inl hno
    · -- the bit that is cleared is not below the cache
      refine hkeep.imp id fun hle k hk => ?_
      have hk' : k < m.firstFree := hk
      show baseBit (axmapClear m b).levels k = true
      rw [(axmapClear_ok h.ok hcall).2, hbelow k hk', decide_eq_false (by omega)]
      rfl
  | reset => exact Or.inr fun k hk => absurd hk (Nat.not_lt_zero k)
  | firstFree => exact CacheFirst.firstFree h.ok hlt h.cache hc
  | nextFree b =>
    show CacheFirst (axmapNextFree m b).1
    rcases axmapNextFree_cases m b with he | he
    · rw [he]
      exact hc
    · rw [he]
      exact CacheFirst.firstFree h.ok hlt h.cache hc

/-! ## Runs -/

theorem CacheOk.run (hlt : nrBits + 63 < 2 ^ 64) (hpos : 1 ≤ nrBits) {calls : List AxmapCall}
    (h : CacheOk nrBits m) (hcalls : ∀ call ∈ calls, call.OneBit nrBits) :
    CacheOk nrBits (runAxmap m calls) :=
  List.foldlRecOn calls AxmapCall.apply h fun _ hm call hc => hm.apply call hlt hpos (hcalls call hc)

theorem CacheFirst.run (hlt : nrBits + 63 < 2 ^ 64) (hpos : 1 ≤ nrBits) :
    ∀ (calls : List AxmapCall) (m : Axmap), CacheOk nrBits m → CacheFirst m →
      (∀ call ∈ calls, call.OneBit nrBits) → KeepsCaches m calls →
      CacheFirst (runAxmap m calls) := by
  intro calls
  induction calls with
  | nil => intro m _ hc _ _; exact hc
  | cons call calls ih =>
    rintro m h hc hcalls ⟨hkeep, hrest⟩
    have hcall := hcalls call (by simp)
    exact ih (call.apply m) (h.apply call hlt hpos hcall) (hc.apply call hlt h hcall hkeep)
      (fun c hm => hcalls c (by simp [hm])) hrest

theorem axmapNew_cacheOk {smalloc : Nat → Nat → Bool} {m₀ : Axmap} (hlt : nrBits + 63 < 2 ^ 64)
    (hpos : 1 ≤ nrBits) (hnew : axmapNew smalloc nrBits = some m₀) :
    CacheOk nrBits m₀ ∧ CacheFirst m₀ := by
  obtain ⟨hok, hff, hempty⟩ := axmapNew_spec hlt hnew
  refine ⟨⟨hok, Or.inr ⟨?_, hempty _⟩⟩, Or.inr fun k hk => ?_⟩
  · rw [hff, hok.bits]
    exact hpos
  · rw [hff] at hk
    exact absurd hk (Nat.not_lt_zero k)

end

/-- **The answer of `axmap_first_free`.** After every run of calls in range it is right exactly if
the cache is empty or has no free bit below it; and it is right after every run whose clears are at
or above the cached bit, since a clear leaves the cache as it is. -/
theorem firstFree_in_runs {smalloc : Nat → Nat → Bool} {nrBits : Nat} {m₀ : Axmap}
    {calls : List AxmapCall} (hlt : nrBits + 63 < 2 ^ 64) (hpos : 1 ≤ nrBits)
    (hnew : axmapNew smalloc nrBits = some m₀) (hcalls : ∀ call ∈ calls, call.OneBit nrBits) :
    (SmallestFree nrBits (baseBit (runAxmap m₀ calls).levels)
        (axmapFirstFree (runAxmap m₀ calls)).2 ↔ CacheFirst (runAxmap m₀ calls)) ∧
      (KeepsCaches m₀ calls →
        SmallestFree nrBits (baseBit (runAxmap m₀ calls).levels)
          (axmapFirstFree (runAxmap m₀ calls)).2) := by
  obtain ⟨h₀, hc₀⟩ := axmapNew_cacheOk hlt hpos hnew
  have h := h₀.run hlt hpos hcalls
  have hiff := axmapFirstFree_smallest_iff h.ok hlt h.cache
  exact ⟨hiff, fun hkeep => hiff.mpr (CacheFirst.run hlt hpos calls m₀ h₀ hc₀ hcalls hkeep)⟩

/-- Two bits are set and the cache is filled; clearing the bit above it does no harm. -/
theorem firstFree_in_runs_two :
    ∃ m₀, axmapNew (fun _ _ => true) 4 = some m₀ ∧
      SmallestFree 4 (baseBit (runAxmap m₀ [.set 0, .set 2, .firstFree, .clear 2]).levels)
        (axmapFirstFree (runAxmap m₀ [.set 0, .set 2, .firstFree, .clear 2])).2 := by
  refine ⟨_, rfl, (@firstFree_in_runs (fun _ _ => true) 4 _ _ (by decide) (by decide) rfl ?_).2
    ⟨trivial, trivial, trivial, Or.inr (by decide), trivial⟩⟩
  intro call hcall
  simp only [List.mem_cons, List.not_mem_nil, or_false] at hcall
  rcases hcall with rfl | rfl | rfl | rfl
  · show 0 < 4
    decide
  · show 2 < 4
    decide
  · exact trivial
  · show 2 < 4
    decide

/-- Bit 0 is set, `axmap_first_free` caches bit 1, bit 0 is cleared: the answer is still bit 1. -/
theorem firstFree_stale_after_clear :
    ∃ m₀, axmapNew (fun _ _ => true) 2 = some m₀ ∧
      (axmapFirstFree (runAxmap m₀ [.set 0, .firstFree, .clear 0])).2 = 1 ∧
      baseBit (runAxmap m₀ [.set 0, .firstFree, .clear 0]).levels 0 = false ∧
      ¬ SmallestFree 2 (baseBit (runAxmap m₀ [.set 0, .firstFree, .clear 0]).levels)
        (axmapFirstFree (runAxmap m₀ [.set 0, .firstFree, .clear 0])).2 := by
  obtain ⟨m₀, hm⟩ : ∃ m₀ : Axmap, m₀ = ⟨[⟨0, [0#64]⟩], 0, 2⟩ := ⟨_, rfl⟩
  have hr : (axmapFirstFree (runAxmap m₀ [.set 0, .firstFree, .clear 0])).2 = 1 := by subst hm; decide
  have h₀ : baseBit (runAxmap m₀ [.set 0, .firstFree, .clear 0]).levels 0 = false := by
    subst hm; decide
  refine ⟨m₀, by subst hm; decide, hr, h₀, ?_⟩
  rw [hr]
  rintro (⟨-, -, hbelow⟩ | ⟨hno, -⟩)
  · exact absurd ((hbelow 0 (by decide)).symm.trans h₀) (by simp)
  · exact absurd hno (by decide)

end MysqlBench.Fio
