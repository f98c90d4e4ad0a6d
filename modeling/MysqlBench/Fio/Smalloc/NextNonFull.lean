import MysqlBench.Fio.Smalloc.Runs

/-!
# `next_non_full`

Every full word that the search of `__smalloc_pool` steps over moves `next_non_full` behind it. The
word may have been reached past others that have free blocks, where the run asked for did not fit;
then these are below `next_non_full` and later searches do not see them.

Whether that happens can be read off the visits of the search. A pool's history is a sequence of
calls of `__smalloc_pool`, of any size, and of `sfree_pool` on blocks that are handed out and whose
header is intact. All words below `next_non_full` are full after every call of a history exactly if
every search in it steps over a full word only when the words before that are full
(`words_below_full_iff`).
-/

namespace MysqlBench.Fio

open MysqlBench.Lib

def Pool.FullBelow (pool : Pool) : Prop :=
  ∀ i, i < pool.nextNonFull → word pool.bitmap i = BitVec.allOnes 32

variable {pool : Pool} {n : Nat} {pool' : Pool} {res : Option Nat} {wild : Wild} {s : Nat}
  {mem : Mem} {live : List (Nat × Nat)}

theorem Pool.fullBelow_iff (pool : Pool) :
    pool.FullBelow ↔ ∀ k, k < 32 * pool.nextNonFull → bit pool.bitmap k = true := by
  constructor
  · intro h k hk
    have := (word_eq_allOnes_iff).mp (h (k / 32) (by omega)) (k % 32) (Nat.mod_lt k (by decide))
    rwa [show k / 32 * 32 + k % 32 = k by omega] at this
  · intro h i hi
    exact word_eq_allOnes_iff.mpr fun j hj => h (i * 32 + j) (by omega)

/-! ## The visits of a search -/

def Visit.Before (u v : Visit) : Prop := ∀ i j, u = .full i → v = .full j → i ≤ j

theorem visits_sorted {bitmap : List Uint} : ∀ (fuel : Nat) {i lastIdx : Nat},
    lastIdx < 32 → (visits bitmap n fuel i lastIdx).Pairwise Visit.Before := by
  intro fuel
  induction fuel with
  | zero => intro i lastIdx _; exact List.Pairwise.nil
  | succ fuel ih =>
    intro i lastIdx hidx
    rw [visits]
    split
    · exact List.Pairwise.nil
    · split
      · -- a full word moves the cursor behind it, and the search does not come back
        refine List.pairwise_cons.mpr ⟨fun v hv i' j hi hj => ?_, ih (by decide)⟩
        obtain rfl := Visit.full.inj hi
        subst hj
        have : i + 1 ≤ j := visits_forward fuel (by decide) _ hv
        omega
      · generalize (clearFrom (word bitmap i) lastIdx).getD (63 + lastIdx) = idx
        have hrest : (if idx + n < 32 then visits bitmap n fuel i (idx + n)
            else visits bitmap n fuel (i + (idx + n) / 32) 0).Pairwise Visit.Before := by
          split
          · exact ih (by omega)
          · exact ih (by decide)
        dsimp only
        split
        · split
          · exact List.pairwise_singleton _ _
          · exact List.pairwise_cons.mpr ⟨fun v _ i' j hi _ => absurd hi (by simp), hrest⟩
        · exact hrest

theorem nextAfter_cases {vs : List Visit} (h : vs.Pairwise Visit.Before) (next : Nat) :
    ((∀ i, .full i ∉ vs) ∧ nextAfter next vs = next) ∨
      ∃ i, .full i ∈ vs ∧ nextAfter next vs = i + 1 ∧ ∀ j, .full j ∈ vs → j ≤ i := by
  induction vs generalizing next with
  | nil => exact .inl ⟨fun i hi => absurd hi (by simp), rfl⟩
  | cons v vs ih =>
    obtain ⟨hv, hvs⟩ := List.pairwise_cons.mp h
    cases v with
    | probe k =>
      rcases ih hvs next with ⟨hnone, heq⟩ | ⟨i, hi, heq, hmax⟩
      · exact .inl ⟨fun i hi => hnone i (by simpa using hi), heq⟩
      · exact .inr ⟨i, List.mem_cons_of_mem _ hi, heq, fun j hj => hmax j (by simpa using hj)⟩
    | full a =>
      rcases ih hvs (a + 1) with ⟨hnone, heq⟩ | ⟨i, hi, heq, hmax⟩
      · refine .inr ⟨a, by simp, heq, fun j hj => ?_⟩
        rcases List.mem_cons.mp hj with hj | hj
        · obtain rfl := Visit.full.inj hj
          exact Nat.le_refl _
        · exact absurd hj (hnone j)
      · refine .inr ⟨i, List.mem_cons_of_mem _ hi, heq, fun j hj => ?_⟩
        rcases List.mem_cons.mp hj with hj | hj
        · obtain rfl := Visit.full.inj hj
          exact hv _ hi _ _ rfl rfl
        · exact hmax j hj

/-! ## One search -/

def Pool.Justified (pool : Pool) (n : Nat) : Prop :=
  ∀ i, .full i ∈ pool.visits n → ∀ j, j < i → word pool.bitmap j = BitVec.allOnes 32

theorem Searched.fullBelow_iff
    (h : Searched pool pool' n (pool.visits n) res) (hbelow : pool.FullBelow) :
    pool'.FullBelow ↔ pool.Justified n := by
  have hgrow : ∀ k, bit pool.bitmap k = true → bit pool'.bitmap k = true := by
    intro k hk
    cases res with
    | none => rw [(h.missed rfl).1]; exact hk
    | some offset =>
      obtain ⟨s, -, -, -, -, hbits⟩ := h.found offset rfl
      rw [hbits]
      split
      · rfl
      · exact hk
  -- nothing is set up to the last full word that was stepped over
  have hsame : ∀ i, .full i ∈ pool.visits n → ∀ k, k < 32 * (i + 1) →
      bit pool'.bitmap k = bit pool.bitmap k := by
    intro i hi k hk
    cases res with
    | none => rw [(h.missed rfl).1]
    | some offset =>
      obtain ⟨s, -, -, -, hfull, hbits⟩ := h.found offset rfl
      have := hfull i hi
      rw [hbits, if_neg (by omega)]
  rw [Pool.fullBelow_iff] at hbelow ⊢
  have hsorted : (pool.visits n).Pairwise Visit.Before := visits_sorted _ (by decide)
  rw [h.next]
  rcases nextAfter_cases hsorted pool.nextNonFull with ⟨hnone, heq⟩ | ⟨i, hi, heq, hmax⟩
  · refine ⟨fun _ i hi => absurd hi (hnone i), fun _ k hk => ?_⟩
    rw [heq] at hk
    exact hgrow k (hbelow k hk)
  · rw [heq]
    constructor
    · intro hfull j hj l hl
      have hji := hmax j hj
      refine word_eq_allOnes_iff.mpr fun b hb => ?_
      rw [← hsame i hi _ (by omega)]
      exact hfull _ (by omega)
    · intro hjust k hk
      refine hgrow k ?_
      have hword : word pool.bitmap (k / 32) = BitVec.allOnes 32 := by
        rcases Nat.lt_or_eq_of_le (show k / 32 ≤ i by omega) with hlt | heq
        · exact hjust i hi _ hlt
        · rw [heq]
          exact visits_full _ (by decide) hi
      have := word_eq_allOnes_iff.mp hword (k % 32) (Nat.mod_lt k (by decide))
      rwa [show k / 32 * 32 + k % 32 = k by omega] at this

/-! ## Histories of a pool -/

/-- A pool, and the runs of blocks that are handed out: the first block, and the bytes asked for. -/
structure PoolState where
  pool : Pool
  live : List (Nat × Nat)

variable {st : PoolState}

inductive PoolCall where
  | alloc (size : Nat)
  | free (s size : Nat)
deriving Repr, DecidableEq

/-- One call of `__smalloc_pool`, or of `sfree_pool` for a run that is handed out, with memory in
which its header is as `smalloc_pool` wrote it. -/
inductive PoolStep : PoolCall → PoolState → PoolState → Prop
  | refused {st : PoolState} {pool' : Pool} (wild : Wild) (size : Nat)
      (hcall : smallocPoolRaw wild st.pool size = .ok (pool', none)) :
      PoolStep (.alloc size) st ⟨pool', st.live⟩
  | alloc {st : PoolState} {pool' : Pool} (wild : Wild) (size s : Nat)
      (hcall : smallocPoolRaw wild st.pool size = .ok (pool', some (st.pool.map + 32 * s))) :
      PoolStep (.alloc size) st ⟨pool', (s, size) :: st.live⟩
  | free {st : PoolState} {pool' : Pool} (wild : Wild) (mem : Mem) (s size : Nat)
      (hlive : (s, size) ∈ st.live) (hmul : 4 ∣ size)
      (hhdr : HdrOk mem (st.pool.map + 32 * s) size)
      (hcall : sfreePool wild mem st.pool (st.pool.map + 32 * s + 16) = .ok pool') :
      PoolStep (.free s size) st ⟨pool', st.live.erase (s, size)⟩

inductive PoolHistory : PoolState → List (PoolCall × PoolState) → Prop
  | nil (st : PoolState) : PoolHistory st []
  | cons {st st' : PoolState} {c : PoolCall} {rest : List (PoolCall × PoolState)}
      (hstep : PoolStep c st st') (hrest : PoolHistory st' rest) :
      PoolHistory st ((c, st') :: rest)

def PoolCall.Justified (st : PoolState) : PoolCall → Prop
  | .alloc size => sizeToBlocks size ≤ st.pool.freeBlocks → st.pool.Justified (sizeToBlocks size)
  | .free _ _ => True

def JustifiedHistory : PoolState → List (PoolCall × PoolState) → Prop
  | _, [] => True
  | st, (c, st') :: rest => c.Justified st ∧ JustifiedHistory st' rest

def RunsApart (a b : Nat × Nat) : Prop :=
  ∀ k, ¬ ((a.1 ≤ k ∧ k < a.1 + sizeToBlocks a.2) ∧ (b.1 ≤ k ∧ k < b.1 + sizeToBlocks b.2))

theorem RunsApart.symm {a b : Nat × Nat} (h : RunsApart a b) : RunsApart b a :=
  fun k hk => h k ⟨hk.2, hk.1⟩

structure PoolState.Ok (st : PoolState) : Prop where
  core : st.pool.core.Ok
  inside : ∀ r ∈ st.live, r.1 < 32 * st.pool.bitmap.length ∧
    r.1 + sizeToBlocks r.2 ≤ 32 * st.pool.bitmap.length
  set : ∀ r ∈ st.live, RunIs st.pool.bitmap r.1 (sizeToBlocks r.2) true
  apart : st.live.Pairwise RunsApart

theorem PoolState.Ok.alloc {size : Nat}
    (h : st.Ok)
    (hcall : smallocPoolRaw wild st.pool size = .ok (pool', some (st.pool.map + 32 * s))) :
    (⟨pool', (s, size) :: st.live⟩ : PoolState).Ok := by
  rcases smallocPoolRaw_spec wild h.core size with ⟨-, hraw⟩ | ⟨hroom, pool₁, res, hs, hraw⟩
  · exact absurd (hraw.symm.trans hcall) (by simp)
  · obtain ⟨hpool, hres⟩ := Prod.mk.inj (Except.ok.inj (hraw.symm.trans hcall))
    obtain ⟨offset, rfl, hoff⟩ := Option.map_eq_some_iff.mp hres
    obtain ⟨k, rfl, hprobe, hrun, -, hbits⟩ := hs.found offset rfl
    obtain rfl : k = s := by omega
    subst hpool
    have hcount := clearBlocks_run hs.length hrun hbits
    have hcounted : st.pool.freeBlocks = clearBlocks st.pool.bitmap := h.core.counted
    have hlen := hs.length
    refine ⟨⟨?_, ?_, ?_⟩, ?_, ?_, ?_⟩
    · show 32 ∣ pool₁.map
      rw [hs.map]
      exact h.core.aligned
    · show pool₁.bitmap.length * 1024 < _
      rw [hlen]
      exact h.core.size
    · show st.pool.freeBlocks - sizeToBlocks size = clearBlocks pool₁.bitmap
      omega
    · show ∀ r ∈ (k, size) :: st.live, r.1 < 32 * pool₁.bitmap.length ∧
        r.1 + sizeToBlocks r.2 ≤ 32 * pool₁.bitmap.length
      rw [hlen]
      intro r hr
      rcases List.mem_cons.mp hr with rfl | hr
      · exact ⟨visits_probe _ (by decide) hprobe, hrun.1⟩
      · exact h.inside r hr
    · intro r hr j h1 h2
      show bit pool₁.bitmap j = true
      rw [hbits]
      rcases List.mem_cons.mp hr with rfl | hr
      · rw [if_pos ⟨h1, h2⟩]
      · split
        · rfl
        · exact h.set r hr j h1 h2
    · -- the new run was free, the others are set
      refine List.pairwise_cons.mpr ⟨fun r hr j hj => ?_, h.apart⟩
      have hfree := hrun.2 j hj.1.1 hj.1.2
      rw [h.set r hr j hj.2.1 hj.2.2] at hfree
      exact absurd hfree (by simp)

theorem PoolState.Ok.refused {size : Nat} (h : st.Ok)
    (hcall : smallocPoolRaw wild st.pool size = .ok (pool', none)) :
    (⟨pool', st.live⟩ : PoolState).Ok := by
  have hcore : pool'.core = st.pool.core := by
    rcases smallocPoolRaw_spec wild h.core size with ⟨-, hraw⟩ | ⟨hroom, pool₁, res, hs, hraw⟩
    · obtain ⟨rfl, -⟩ := Prod.mk.inj (Except.ok.inj (hraw.symm.trans hcall))
      rfl
    · obtain ⟨hpool, hres⟩ := Prod.mk.inj (Except.ok.inj (hraw.symm.trans hcall))
      obtain rfl := Option.map_eq_none_iff.mp hres
      subst hpool
      show (⟨pool₁.map, pool₁.bitmap, st.pool.freeBlocks - 0⟩ : PoolCore) = _
      rw [hs.map, (hs.missed rfl).1]
      rfl
  have hbitmap : pool'.bitmap = st.pool.bitmap := congrArg PoolCore.bitmap hcore
  refine ⟨?_, ?_, ?_, h.apart⟩
  · show pool'.core.Ok
    rw [hcore]
    exact h.core
  · show ∀ r ∈ st.live, r.1 < 32 * pool'.bitmap.length ∧ _ ≤ 32 * pool'.bitmap.length
    rw [hbitmap]
    exact h.inside
  · show ∀ r ∈ st.live, RunIs pool'.bitmap r.1 (sizeToBlocks r.2) true
    rw [hbitmap]
    exact h.set

theorem PoolState.Ok.free {size : Nat}
    (h : st.Ok) (hlive : (s, size) ∈ st.live) (hmul : 4 ∣ size)
    (hhdr : HdrOk mem (st.pool.map + 32 * s) size)
    (hcall : sfreePool wild mem st.pool (st.pool.map + 32 * s + 16) = .ok pool') :
    (⟨pool', st.live.erase (s, size)⟩ : PoolState).Ok ∧
      (st.pool.FullBelow → pool'.FullBelow) := by
  obtain ⟨hin, hfit⟩ := h.inside _ hlive
  obtain ⟨pool₁, hfree, -, hlen, hok, hnext, hbits⟩ := @sfreePool_spec wild mem st.pool size s
    h.core hmul hfit hin (h.set _ hlive) hhdr
  obtain rfl := Except.ok.inj (hfree.symm.trans hcall)
  have hsub : ∀ r ∈ st.live.erase (s, size), r ∈ st.live := fun r hr => List.mem_of_mem_erase hr
  have hpair := ((List.perm_cons_erase hlive).pairwise_iff RunsApart.symm).mp h.apart
  refine ⟨⟨hok, ?_, ?_, (List.pairwise_cons.mp hpair).2⟩, fun hbelow => ?_⟩
  · show ∀ r ∈ st.live.erase (s, size), r.1 < 32 * pool₁.bitmap.length ∧ _ ≤ 32 * pool₁.bitmap.length
    rw [hlen]
    exact fun r hr => h.inside r (hsub r hr)
  · intro r hr j h1 h2
    have hap := (List.pairwise_cons.mp hpair).1 r hr j
    show bit pool₁.bitmap j = true
    rw [hbits, if_neg fun hj => hap ⟨hj, h1, h2⟩]
    exact h.set r (hsub r hr) j h1 h2
  · -- only blocks from word `s / 32` on are cleared
    rw [Pool.fullBelow_iff] at hbelow ⊢
    intro k hk
    rw [hnext] at hk
    rw [hbits, if_neg (by omega)]
    exact hbelow k (by omega)

theorem PoolStep.fullBelow_iff {c : PoolCall} {st' : PoolState} (hstep : PoolStep c st st')
    (h : st.Ok) (hbelow : st.pool.FullBelow) :
    st'.Ok ∧ (st'.pool.FullBelow ↔ c.Justified st) := by
  have hsearch : ∀ {wild : Wild} {size : Nat} {pool' : Pool} {res : Option Nat},
      smallocPoolRaw wild st.pool size = .ok (pool', res) →
      (pool'.FullBelow ↔ (PoolCall.alloc size).Justified st) := by
    intro wild size pool' res hcall
    rcases smallocPoolRaw_spec wild h.core size with ⟨hfew, hraw⟩ | ⟨hroom, pool₁, res, hs, hraw⟩
    · obtain ⟨rfl, -⟩ := Prod.mk.inj (Except.ok.inj (hraw.symm.trans hcall))
      exact ⟨fun _ hroom => absurd hfew (by omega), fun _ => hbelow⟩
    · obtain ⟨rfl, -⟩ := Prod.mk.inj (Except.ok.inj (hraw.symm.trans hcall))
      have hiff := hs.fullBelow_iff hbelow
      exact ⟨fun hfull _ => hiff.mp hfull, fun hjust => hiff.mpr (hjust hroom)⟩
  cases hstep with
  | refused wild size hcall => exact ⟨h.refused hcall, hsearch hcall⟩
  | alloc wild size s hcall => exact ⟨h.alloc hcall, hsearch hcall⟩
  | free wild mem s size hlive hmul hhdr hcall =>
    obtain ⟨hok, hkeep⟩ := h.free hlive hmul hhdr hcall
    exact ⟨hok, fun _ => trivial, fun _ => hkeep hbelow⟩

theorem PoolHistory.fullBelow_iff {calls : List (PoolCall × PoolState)}
    (hist : PoolHistory st calls) (h : st.Ok) (hbelow : st.pool.FullBelow) :
    (∀ x ∈ calls, x.2.pool.FullBelow) ↔ JustifiedHistory st calls := by
  induction hist with
  | nil st => exact ⟨fun _ => trivial, fun _ x hx => absurd hx (by simp)⟩
  | cons hstep hrest ih =>
    obtain ⟨hok, hiff⟩ := hstep.fullBelow_iff h hbelow
    rw [List.forall_mem_cons, JustifiedHistory]
    constructor
    · rintro ⟨hfull, hall⟩
      exact ⟨hiff.mp hfull, (ih hok hfull).mp hall⟩
    · rintro ⟨hjust, hall⟩
      exact ⟨hiff.mpr hjust, (ih hok (hiff.mpr hjust)).mpr hall⟩

theorem PoolState.Ok.fresh {env : PoolEnv} {mem' : Mem} {size : Nat}
    (hadd : addPool env mem size = some (mem', pool)) (hmap : 32 ∣ pool.map) :
    (⟨pool, []⟩ : PoolState).Ok ∧ pool.FullBelow := by
  obtain ⟨-, -, hnext, -, hok⟩ := addPool_cases hadd
  refine ⟨⟨hok hmap, ?_, ?_, List.Pairwise.nil⟩, ?_⟩
  · exact fun r hr => absurd hr (by simp)
  · exact fun r hr => absurd hr (by simp)
  · intro i hi
    rw [hnext] at hi
    exact absurd hi (Nat.not_lt_zero i)

/-- **When `next_non_full` can be trusted.** In the history of a pool, from `add_pool` on, every
word below `next_non_full` is full after every call exactly if no search steps over a full word
after it has passed a word with a free block. -/
theorem words_below_full_iff {env : PoolEnv} {mem mem' : Mem} {size : Nat} {pool : Pool}
    {calls : List (PoolCall × PoolState)} (hadd : addPool env mem size = some (mem', pool))
    (hmap : 32 ∣ pool.map) (hist : PoolHistory ⟨pool, []⟩ calls) :
    (∀ x ∈ calls, x.2.pool.FullBelow) ↔ JustifiedHistory ⟨pool, []⟩ calls := by
  obtain ⟨hok, hbelow⟩ := PoolState.Ok.fresh hadd hmap
  exact hist.fullBelow_iff hok hbelow

/-! ## A fragmented pool -/

def Pool.alloc (pool : Pool) (size : Nat) : Pool :=
  ((smallocPoolRaw (fun _ _ => 0#32) pool size).toOption.map (·.1)).getD pool

/-- The pool after `sfree_pool` of the run of blocks from `s` on, with a header for `size` user
bytes. -/
def Pool.free (pool : Pool) (s size : Nat) : Pool :=
  (sfreePool (fun _ _ => 0#32) (filled (fun _ => 0#8) (pool.map + 32 * s) size) pool
    (pool.map + 32 * s + 16)).toOption.getD pool

theorem smallocPoolRaw_eq_alloc {size : Nat}
    (h : (smallocPoolRaw (fun _ _ => 0#32) pool size).toOption.map (·.2) = some res) :
    smallocPoolRaw (fun _ _ => 0#32) pool size = .ok (pool.alloc size, res) := by
  unfold Pool.alloc
  cases hcall : smallocPoolRaw (fun _ _ => 0#32) pool size with
  | error e => rw [hcall] at h; exact absurd h (by simp [Except.toOption])
  | ok r =>
    rw [hcall] at h
    obtain rfl : r.2 = res := by simpa [Except.toOption] using h
    rfl

theorem sfreePool_eq_free {size : Nat}
    (h : (sfreePool (fun _ _ => 0#32) (filled (fun _ => 0#8) (pool.map + 32 * s) size) pool
      (pool.map + 32 * s + 16)).toOption.isSome = true) :
    sfreePool (fun _ _ => 0#32) (filled (fun _ => 0#8) (pool.map + 32 * s) size) pool
      (pool.map + 32 * s + 16) = .ok (pool.free s size) := by
  unfold Pool.free
  cases hcall : sfreePool (fun _ _ => 0#32) (filled (fun _ => 0#8) (pool.map + 32 * s) size) pool
      (pool.map + 32 * s + 16) with
  | error e => rw [hcall] at h; exact absurd h (by simp [Except.toOption])
  | ok r => rfl

def freshPool : Pool := ⟨4096, List.replicate 8193 0#32, 262176, 0⟩

def gapPool : Pool := (((freshPool.alloc 1024).alloc 1024).free 0 1004).alloc 32

theorem addPool_fresh : ∃ mem, addPool ⟨some 4096, true⟩ (fun _ => 0#8) (8192 * 1024)
    = some (mem, freshPool) := by
  have hwords : poolWords (8192 * 1024) = 8193 := by decide
  exact ⟨_, by simp only [addPool, hwords, freshPool]; rfl⟩

theorem PoolStep.of_alloc {size : Nat}
    (h : (smallocPoolRaw (fun _ _ => 0#32) pool size).toOption.map (·.2)
      = some (some (pool.map + 32 * s))) :
    PoolStep (.alloc size) ⟨pool, live⟩ ⟨pool.alloc size, (s, size) :: live⟩ :=
  .alloc _ size s (smallocPoolRaw_eq_alloc h)

theorem PoolStep.of_free {live' : List (Nat × Nat)} {size bytes : Nat}
    (hbytes : allocSize size = bytes) (hlive : (s, bytes) ∈ live)
    (hlive' : live.erase (s, bytes) = live') (hsize : size < 2 ^ 32) (hmap : 4 ∣ pool.map)
    (h : (sfreePool (fun _ _ => 0#32) (filled (fun _ => 0#8) (pool.map + 32 * s) size) pool
      (pool.map + 32 * s + 16)).toOption.isSome = true) :
    PoolStep (.free s bytes) ⟨pool, live⟩ ⟨pool.free s size, live'⟩ := by
  subst hbytes hlive'
  exact .free _ _ s _ hlive (allocSize_bounds size).1
    (filled_hdrOk hsize (show 4 ∣ pool.map + 32 * s by omega)) (sfreePool_eq_free h)

def gapCalls (rest : List (PoolCall × PoolState)) : List (PoolCall × PoolState) :=
  (.alloc 1024, ⟨freshPool.alloc 1024, [(0, 1024)]⟩) ::
  (.alloc 1024, ⟨(freshPool.alloc 1024).alloc 1024, [(32, 1024), (0, 1024)]⟩) ::
  (.free 0 1024, ⟨((freshPool.alloc 1024).alloc 1024).free 0 1004, [(32, 1024)]⟩) ::
  (.alloc 32, ⟨gapPool, [(0, 32), (32, 1024)]⟩) :: rest

theorem gapCalls_history {rest : List (PoolCall × PoolState)}
    (hrest : PoolHistory ⟨gapPool, [(0, 32), (32, 1024)]⟩ rest) :
    PoolHistory ⟨freshPool, []⟩ (gapCalls rest) :=
  .cons (.of_alloc (by decide +kernel)) <| .cons (.of_alloc (by decide +kernel)) <|
    .cons (.of_free (by decide) (by decide) (by decide) (by decide) (by decide +kernel)
      (by decide +kernel)) <| .cons (.of_alloc (by decide +kernel)) hrest

/-- A request for 32 blocks does not fit behind the block that is taken, steps over the second word
and leaves `next_non_full` behind it: the free blocks of the first word are lost to later
searches. -/
theorem search_passes_free_blocks : ∃ mem calls,
    addPool ⟨some 4096, true⟩ (fun _ => 0#8) (8192 * 1024) = some (mem, freshPool) ∧
      PoolHistory ⟨freshPool, []⟩ calls ∧ ∃ x ∈ calls, ¬ x.2.pool.FullBelow := by
  obtain ⟨mem, hadd⟩ := addPool_fresh
  have hlast : PoolStep (.alloc 1024) ⟨gapPool, [(0, 32), (32, 1024)]⟩
      ⟨gapPool.alloc 1024, [(64, 1024), (0, 32), (32, 1024)]⟩ := .of_alloc (by decide +kernel)
  refine ⟨mem, _, hadd, gapCalls_history (.cons hlast (.nil _)),
    (.alloc 1024, ⟨gapPool.alloc 1024, [(64, 1024), (0, 32), (32, 1024)]⟩), by simp [gapCalls],
    fun hbelow => ?_⟩
  have hnext : (gapPool.alloc 1024).nextNonFull = 2 := by decide +kernel
  have hword : word (gapPool.alloc 1024).bitmap 0 = 1#32 := by decide +kernel
  have hfull := hbelow 0 (by show 0 < (gapPool.alloc 1024).nextNonFull; rw [hnext]; decide)
  exact absurd (hword.symm.trans hfull) (by decide)

/-- The four calls before it. -/
theorem words_below_full_gap : ∃ mem,
    addPool ⟨some 4096, true⟩ (fun _ => 0#8) (8192 * 1024) = some (mem, freshPool) ∧
      PoolHistory ⟨freshPool, []⟩ (gapCalls []) ∧
      ((∀ x ∈ gapCalls [], x.2.pool.FullBelow) ↔ JustifiedHistory ⟨freshPool, []⟩ (gapCalls [])) := by
  obtain ⟨mem, hadd⟩ := addPool_fresh
  have hist := gapCalls_history (.nil _)
  exact ⟨mem, hadd, hist, words_below_full_iff hadd (by decide) hist⟩

end MysqlBench.Fio
