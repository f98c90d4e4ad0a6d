import MysqlBench.Fio.Smalloc.Runs

/-!
# When `smalloc` adds a pool

`smalloc` goes over the pools from `last_pool` on. When none of them gives it a run it clears
`last_pool` and starts its outer loop again, but the index of the inner loop is still behind the
last pool, so the pools before `last_pool` are not tried; a pool is added. Within a pool the search
probes only some blocks (`visits`).

So a pool is added, or a null pointer returned because there are `MAX_POOLS`, although a run is free,
exactly if the run is in a pool before `last_pool` or at a block that the search does not probe
(`grows_only_when_full_iff`).
-/

namespace MysqlBench.Fio

open MysqlBench.Lib

def Pool.HasRun (pool : Pool) (n : Nat) : Prop := ∃ k, FreeRun pool.bitmap k n

/-- The call has added a pool, or has returned a null pointer because there are `MAX_POOLS`. A size
that is no `unsigned int` is refused before. -/
def Grew (size : Nat) (st st' : Smalloc) (res : Option Nat) : Prop :=
  st.pools.length < st'.pools.length ∨ (size < 2 ^ 32 ∧ res = none ∧ 128 ≤ st.pools.length)

/-- Whatever the system answers, `smalloc` grows only if no pool has room. -/
def GrowsOnlyWhenFull (st : Smalloc) (size : Nat) : Prop :=
  ∀ (wild : Wild) (envs : List PoolEnv) (st' : Smalloc) (res : Option Nat),
    EnvsOk size st.regions envs → smalloc wild envs st size = .ok (st', res) →
    Grew size st st' res → ∀ pool ∈ st.pools, ¬ pool.HasRun (sizeToBlocks (allocSize size))

/-! ## One pass over the pools -/

variable {wild : Wild} {i : Nat} {envs : List PoolEnv} {st st' : Smalloc} {res : Option Nat} {live : List Live}

theorem smallocFor_length {size : Nat} : ∀ {pools pools' : List Pool} {mem mem' : Mem}
    {i : Nat} {res : Option (Nat × Nat)},
    smallocFor wild size mem i pools = .ok (mem', pools', res) → pools'.length = pools.length := by
  intro pools
  induction pools with
  | nil =>
    intro pools' mem mem' i res h
    obtain ⟨-, rfl, -⟩ : mem = mem' ∧ [] = pools' ∧ none = res := by simpa [smallocFor] using h
    rfl
  | cons pool pools ih =>
    intro pools' mem mem' i res h
    rw [smallocFor] at h
    cases hpool : smallocPool wild mem pool size with
    | error e => rw [hpool] at h; exact absurd h (by simp)
    | ok r =>
      obtain ⟨mem₁, pool₁, r⟩ := r
      rw [hpool] at h
      cases r with
      | some ptr =>
        obtain ⟨-, rfl, -⟩ : mem₁ = mem' ∧ pool₁ :: pools = pools' ∧ some (i, ptr) = res := by
          simpa using h
        rfl
      | none =>
        dsimp only at h
        cases hfor : smallocFor wild size mem₁ (i + 1) pools with
        | error e => rw [hfor] at h; exact absurd h (by simp)
        | ok r =>
          obtain ⟨mem₂, pools₂, res₂⟩ := r
          rw [hfor] at h
          obtain ⟨-, rfl, -⟩ : mem₂ = mem' ∧ pool₁ :: pools₂ = pools' ∧ res₂ = res := by
            simpa using h
          rw [List.length_cons, List.length_cons, ih hfor]

theorem smallocFor_finds {wild : Wild} {size : Nat} (hsize : size < 2 ^ 32) :
    ∀ (pools : List Pool) (mem : Mem) (i : Nat), (∀ p ∈ pools, p.core.Ok) →
    ∃ mem' pools' res, smallocFor wild size mem i pools = .ok (mem', pools', res) ∧
      (res.isSome = true ↔ ∃ p ∈ pools, p.Finds (sizeToBlocks (allocSize size))) := by
  intro pools
  induction pools with
  | nil => intro mem i _; exact ⟨mem, [], none, rfl, by simp⟩
  | cons pool pools ih =>
    intro mem i hok
    obtain ⟨mem₁, pool₁, res, hpool, hres⟩ :=
      @smallocPool_spec wild mem pool size (hok pool (by simp)) hsize
    rw [smallocFor, hpool]
    rcases hres with ⟨rfl, -, -, hno⟩ | ⟨s, rfl, hfinds, -⟩
    · obtain ⟨mem', pools', res, hfor, hiff⟩ :=
        ih mem₁ (i + 1) (fun p hp => hok p (List.mem_cons_of_mem _ hp))
      refine ⟨mem', pool₁ :: pools', res, by simp only [hfor], hiff.trans ?_⟩
      rw [List.exists_mem_cons_iff]
      exact (or_iff_right hno).symm
    · exact ⟨mem₁, pool₁ :: pools, _, rfl, fun _ => ⟨pool, by simp, hfinds⟩, fun _ => rfl⟩

/-! ## The loop -/

/-- One round of the loop: the pass finds a run, or it does not and the call ends, or a pool is
added and the loop goes on with it. -/
theorem smallocLoop_cases {size : Nat} (h : smallocLoop wild size envs st i = .ok (st', res)) :
    ∃ mem pools found, smallocFor wild size st.mem i (st.pools.drop i) = .ok (mem, pools, found) ∧
      ((found.isSome = true ∧ res.isSome = true ∧ st'.pools = st.pools.take i ++ pools) ∨
        (found = none ∧ st'.pools = st.pools.take i ++ pools ∧ res = none) ∨
        ∃ env envs' mem₁ pool, found = none ∧ envs = env :: envs' ∧
          smallocLoop wild size envs' ⟨st.pools.take i ++ pools ++ [pool], 0, mem₁⟩
            (st.pools.take i ++ pools).length = .ok (st', res)) := by
  unfold smallocLoop at h
  cases hfor : smallocFor wild size st.mem i (st.pools.drop i) with
  | error e => rw [hfor] at h; exact absurd h (by simp)
  | ok r =>
    obtain ⟨mem, pools, found⟩ := r
    rw [hfor] at h
    refine ⟨mem, pools, found, rfl, ?_⟩
    cases found with
    | some r =>
      obtain ⟨rfl, rfl⟩ := Prod.mk.inj (Except.ok.inj h)
      exact .inl ⟨rfl, rfl, rfl⟩
    | none =>
      dsimp only at h
      -- at the limit of pools the search gives up; below it a pool is added or not
      split at h
      · obtain ⟨rfl, rfl⟩ := Prod.mk.inj (Except.ok.inj h)
        exact .inr (.inl ⟨rfl, rfl, rfl⟩)
      · cases envs with
        | nil =>
          obtain ⟨rfl, rfl⟩ := Prod.mk.inj (Except.ok.inj h)
          exact .inr (.inl ⟨rfl, rfl, rfl⟩)
        | cons env envs =>
          dsimp only at h
          cases hadd : addPool env mem size with
          | none =>
            rw [hadd] at h
            obtain ⟨rfl, rfl⟩ := Prod.mk.inj (Except.ok.inj h)
            exact .inr (.inl ⟨rfl, rfl, rfl⟩)
          | some new =>
            rw [hadd] at h
            exact .inr (.inr ⟨env, envs, new.1, new.2, rfl, rfl, h⟩)

theorem length_pass {size : Nat} {mem : Mem} {pools : List Pool}
    {found : Option (Nat × Nat)}
    (h : smallocFor wild size st.mem i (st.pools.drop i) = .ok (mem, pools, found)) :
    (st.pools.take i ++ pools).length = st.pools.length := by
  rw [List.length_append, smallocFor_length h, ← List.length_append, List.take_append_drop]

theorem smallocLoop_length {size : Nat} : ∀ {envs : List PoolEnv} {st st' : Smalloc}
    {i : Nat} {res : Option Nat}, smallocLoop wild size envs st i = .ok (st', res) →
    st.pools.length ≤ st'.pools.length := by
  intro envs
  induction envs with
  | nil =>
    intro st st' i res h
    obtain ⟨mem, pools, found, hfor, hcases⟩ := smallocLoop_cases h
    have hlen := length_pass hfor
    rcases hcases with ⟨-, -, hpools⟩ | ⟨-, hpools, -⟩ | ⟨env, envs', _, _, -, henvs, -⟩
    · rw [hpools, hlen]
    · rw [hpools, hlen]
    · exact absurd henvs (by simp)
  | cons env envs ih =>
    intro st st' i res h
    obtain ⟨mem, pools, found, hfor, hcases⟩ := smallocLoop_cases h
    have hlen := length_pass hfor
    rcases hcases with ⟨-, -, hpools⟩ | ⟨-, hpools, -⟩ | ⟨env, envs', mem₁, pool, -, henvs, hrest⟩
    · rw [hpools, hlen]
    · rw [hpools, hlen]
    · obtain ⟨-, rfl⟩ := List.cons.inj henvs
      have := ih hrest
      rw [List.length_append, hlen] at this
      exact Nat.le_trans (Nat.le_succ _) this

theorem not_grew_of_finds {size : Nat} (hok : ∀ p ∈ st.pools, p.core.Ok) (hsize : size < 2 ^ 32)
    (hfinds : ∃ p ∈ st.pools.drop st.lastPool, p.Finds (sizeToBlocks (allocSize size)))
    (hcall : smalloc wild envs st size = .ok (st', res)) : ¬ Grew size st st' res := by
  rw [smalloc, if_neg (by omega)] at hcall
  obtain ⟨mem, pools, found, hfor, hcases⟩ := smallocLoop_cases hcall
  obtain ⟨mem₁, pools₁, found₁, hfor₁, hiff⟩ := @smallocFor_finds wild size hsize
    (st.pools.drop st.lastPool) st.mem st.lastPool (fun p hp => hok p (List.mem_of_mem_drop hp))
  obtain ⟨rfl, hrest⟩ := Prod.mk.inj (Except.ok.inj (hfor₁.symm.trans hfor))
  obtain ⟨rfl, rfl⟩ := Prod.mk.inj hrest
  have hsome := hiff.mpr hfinds
  have hlen := length_pass hfor
  rcases hcases with ⟨-, hres, hpools⟩ | ⟨rfl, -⟩ | ⟨_, _, _, _, rfl, -⟩
  · rintro (hlt | ⟨-, rfl, -⟩)
    · rw [hpools, hlen] at hlt
      exact Nat.lt_irrefl _ hlt
    · exact absurd hres (by simp)
  · exact absurd hsome (by simp)
  · exact absurd hsome (by simp)

theorem not_grew_of_refused {size : Nat} (hsize : 2 ^ 32 ≤ size) (hcall : smalloc wild envs st size = .ok (st', res)) :
    ¬ Grew size st st' res := by
  rw [smalloc, if_pos hsize] at hcall
  obtain ⟨rfl, -⟩ := Prod.mk.inj (Except.ok.inj hcall)
  rintro (hlt | ⟨hlt, -⟩)
  · exact Nat.lt_irrefl _ hlt
  · exact Nat.not_le_of_lt hlt hsize

/-! ## A system that can map another pool -/

def freshBase (regions : List (Nat × Nat)) : Nat := 4096 * (regions.map fun r => r.1 + r.2).sum

theorem envsOk_fresh (size : Nat) (regions : List (Nat × Nat)) :
    EnvsOk size regions [⟨some (freshBase regions), true⟩] := by
  intro base hbase
  obtain rfl := Option.some.inj hbase
  refine ⟨⟨⟨_, rfl⟩, fun r hr => ?_⟩, trivial⟩
  have hle := List.le_sum_of_mem (List.mem_map_of_mem (f := fun r : Nat × Nat => r.1 + r.2) hr)
  unfold freshBase Apart
  omega

theorem smallocLoop_nil {wild : Wild} {size i : Nat} {st : Smalloc} (hsize : size < 2 ^ 32)
    (hok : ∀ p ∈ st.pools.drop i, p.core.Ok) :
    ∃ st' res, smallocLoop wild size [] st i = .ok (st', res) := by
  obtain ⟨mem, pools, found, hfor, -⟩ := @smallocFor_finds wild size hsize (st.pools.drop i) st.mem i
    hok
  unfold smallocLoop
  rw [hfor]
  cases found with
  | some r => exact ⟨_, _, rfl⟩
  | none => exact ⟨_, _, by dsimp only; rw [ite_self]⟩

theorem grew_of_not_finds {size : Nat} (hok : ∀ p ∈ st.pools, p.core.Ok)
    (hsize : size < 2 ^ 32)
    (hno : ¬ ∃ p ∈ st.pools.drop st.lastPool, p.Finds (sizeToBlocks (allocSize size))) :
    ∃ wild envs st' res, EnvsOk size st.regions envs ∧
      smalloc wild envs st size = .ok (st', res) ∧ Grew size st st' res := by
  obtain ⟨mem, pools, found, hfor, hiff⟩ := @smallocFor_finds (fun _ _ => 0#32) size hsize
    (st.pools.drop st.lastPool) st.mem st.lastPool (fun p hp => hok p (List.mem_of_mem_drop hp))
  obtain rfl : found = none := by
    cases found with
    | none => rfl
    | some r => exact absurd (hiff.mp rfl) hno
  have hlen := length_pass hfor
  refine ⟨fun _ _ => 0#32, [⟨some (freshBase st.regions), true⟩], ?_⟩
  rw [smalloc, if_neg (by omega)]
  unfold smallocLoop
  rw [hfor]
  dsimp only
  -- either the limit of pools is reached, or a pool is added and searched
  by_cases hmax : 128 < (st.pools.take st.lastPool ++ pools).length + 1
  · rw [if_pos hmax]
    exact ⟨_, _, envsOk_fresh size _, rfl, .inr ⟨hsize, rfl, by omega⟩⟩
  · rw [if_neg hmax]
    dsimp only [addPool]
    obtain ⟨st', res, hloop⟩ := @smallocLoop_nil (fun _ _ => 0#32) size
      (st.pools.take st.lastPool ++ pools).length
      ⟨st.pools.take st.lastPool ++ pools ++ [⟨freshBase st.regions,
          List.replicate (poolWords size) 0#32, poolWords size * 32, 0⟩], 0,
        store mem (freshBase st.regions) (List.replicate (poolMmapSize size) 0#8)⟩ hsize
      (fun p hp => by
        rw [List.drop_left] at hp
        obtain rfl := List.mem_singleton.mp hp
        have hadd : addPool ⟨some (freshBase st.regions), true⟩ mem size = some (_, _) := rfl
        obtain ⟨-, -, -, -, hnew⟩ := addPool_cases hadd
        exact hnew (Dvd.dvd.mul_right (by decide) _))
    refine ⟨st', res, envsOk_fresh size _, hloop, .inl ?_⟩
    have hmore := smallocLoop_length hloop
    rw [List.length_append, hlen] at hmore
    exact hmore

/-- **When `smalloc` grows only if it must.** With the pools as every reachable state has them
(`SmallocInv.okPools`), for every size: no call adds a pool or fails for `MAX_POOLS` while some pool
has the run, exactly if the size is refused at once, or no pool has the run, or a pool from
`last_pool` on has one at a block that its search probes. -/
theorem grows_only_when_full_iff {st : Smalloc} (size : Nat) (hok : ∀ p ∈ st.pools, p.core.Ok) :
    GrowsOnlyWhenFull st size ↔
      2 ^ 32 ≤ size ∨ (∀ pool ∈ st.pools, ¬ pool.HasRun (sizeToBlocks (allocSize size))) ∨
        ∃ pool ∈ st.pools.drop st.lastPool, pool.Finds (sizeToBlocks (allocSize size)) := by
  constructor
  · intro honly
    rcases Nat.lt_or_ge size (2 ^ 32) with hsize | hsize
    · by_cases hfinds : ∃ p ∈ st.pools.drop st.lastPool, p.Finds (sizeToBlocks (allocSize size))
      · exact .inr (.inr hfinds)
      · obtain ⟨wild, envs, st', res, henvs, hcall, hgrew⟩ := grew_of_not_finds hok hsize hfinds
        exact .inr (.inl (honly wild envs st' res henvs hcall hgrew))
    · exact .inl hsize
  · rintro (hsize | hnone | hfinds) wild envs st' res henvs hcall hgrew
    · exact absurd hgrew (not_grew_of_refused hsize hcall)
    · exact hnone
    · rcases Nat.lt_or_ge size (2 ^ 32) with hsize | hsize
      · exact absurd hgrew (not_grew_of_finds hok hsize hfinds hcall)
      · exact absurd hgrew (not_grew_of_refused hsize hcall)

/-- A hundred bytes, with the second block of the first pool in use. -/
theorem grows_only_when_full_oneBlock :
    (∀ p ∈ oneBlock.pools, p.core.Ok) ∧
      (GrowsOnlyWhenFull oneBlock 100 ↔ 2 ^ 32 ≤ 100 ∨
        (∀ pool ∈ oneBlock.pools, ¬ pool.HasRun (sizeToBlocks (allocSize 100))) ∨
        ∃ pool ∈ oneBlock.pools.drop oneBlock.lastPool, pool.Finds (sizeToBlocks (allocSize 100))) :=
  ⟨reach_oneBlock.inv.okPools, grows_only_when_full_iff 100 reach_oneBlock.inv.okPools⟩

/-! ## A run that is not probed -/

/-- A bitmap whose first word is 2 and whose other words are zero is free from the third block
on. -/
theorem freeRun_of_words {bitmap : List Uint} (hword : word bitmap 0 = 2#32)
    (hrest : (bitmap.drop 1).all (· == 0#32) = true) {n : Nat} (hn : 2 + n ≤ 32 * bitmap.length) :
    FreeRun bitmap 2 n := by
  refine ⟨hn, fun k h1 h2 => ?_⟩
  rcases Nat.lt_or_ge k 32 with hlt | hge
  · rw [bit, Nat.div_eq_of_lt hlt, Nat.mod_eq_of_lt hlt, hword]
    have : ∀ i : Fin 32, 2 ≤ i.val → (2#32).getLsbD i.val = false := by decide
    exact this ⟨k, hlt⟩ h1
  · have hzero : word bitmap (k / 32) = 0#32 := by
      have hmem : (bitmap.drop 1)[k / 32 - 1]? = some (word bitmap (k / 32)) := by
        rw [List.getElem?_drop, show 1 + (k / 32 - 1) = k / 32 by omega, word,
          List.getD_eq_getElem?_getD, List.getElem?_eq_getElem (by omega), Option.getD_some]
      have := List.all_eq_true.mp hrest _ (List.mem_of_getElem? hmem)
      simpa using this
    rw [bit, hzero]
    simp

/-- With one block of 262176 in use, 262174 blocks behind it are free. The search probes the first
block, whose run is cut short by the second, and goes on 262174 blocks further: `smalloc` maps
another pool. -/
theorem smalloc_grows_with_room : ∃ st live, Reach st live ∧ ¬ GrowsOnlyWhenFull st 8389548 := by
  refine ⟨oneBlock, _, reach_oneBlock, fun honly => ?_⟩
  obtain ⟨p, hp⟩ : ∃ p, oneBlock.pools = [p] := List.length_eq_one_iff.mp (by decide +kernel)
  have hlast : oneBlock.lastPool = 0 := by decide +kernel
  -- only block 1 is taken: the search fails at block 0 and goes on 262174 blocks later
  have hwords : oneBlock.pools.map (fun p =>
      (p.bitmap.length, word p.bitmap 0, (p.bitmap.drop 1).all (· == 0#32)))
        = [(8193, 2#32, true)] := by decide +kernel
  have hmiss : oneBlock.pools.map (fun p => (smallocPool (fun _ _ => 0#32) (fun _ => 0#8) p
      8389548).toOption.map (·.2.2)) = [some none] := by decide +kernel
  have hblocks : sizeToBlocks (allocSize 8389548) = 262174 := by decide
  have hok := reach_oneBlock.inv.okPools
  rw [hp] at hwords hmiss
  simp only [List.map_cons, List.map_nil, List.cons.injEq, Prod.mk.injEq, and_true] at hwords hmiss
  obtain ⟨hlen, hword, hrest⟩ := hwords
  have hrun : p.HasRun (sizeToBlocks (allocSize 8389548)) :=
    ⟨2, freeRun_of_words hword hrest (by rw [hlen, hblocks])⟩
  -- the run is there, but no pass over the pools finds it
  have hno : ¬ ∃ q ∈ oneBlock.pools.drop oneBlock.lastPool,
      q.Finds (sizeToBlocks (allocSize 8389548)) := by
    rw [hlast, hp]
    rintro ⟨q, hq, hfinds⟩
    obtain rfl := List.mem_singleton.mp hq
    obtain ⟨mem', p', res, hcall, hres⟩ := @smallocPool_spec (fun _ _ => 0#32) (fun _ => 0#8) q
      8389548 (hok q (by rw [hp]; simp)) (by decide)
    rw [hcall] at hmiss
    rcases hres with ⟨-, -, -, hnot⟩ | ⟨s, rfl, -⟩
    · exact hnot hfinds
    · exact absurd hmiss (by simp [Except.toOption])
  obtain ⟨wild, envs, st', res, henvs, hcall, hgrew⟩ := grew_of_not_finds hok (by decide) hno
  exact honly wild envs st' res henvs hcall hgrew p (by rw [hp]; simp) hrun

end MysqlBench.Fio
