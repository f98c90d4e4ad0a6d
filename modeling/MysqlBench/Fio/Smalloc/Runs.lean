import MysqlBench.Fio.Smalloc.Alloc

/-!
# Runs of the allocator

The state of the allocator is reached from `sinit` by `smalloc`, by `sfree` of a pointer that
`smalloc` returned and that has not been freed, and by writes of the program into the bytes it
asked for. `SmallocInv` ties the bitmaps of all pools to the list of live allocations; each step
keeps it, and with it no assertion can fail.

What `mmap` is documented to do is a hypothesis on each step that maps a pool (`EnvsOk`): the
address is that of a page, and the mapping does not overlap the pools there are.
-/

namespace MysqlBench.Fio

open MysqlBench.Lib

structure Live where
  ptr : Nat
  size : Nat
deriving Repr, DecidableEq

def Live.hdr (a : Live) : Nat := a.ptr - 16

def Live.blocks (a : Live) : Nat := sizeToBlocks (allocSize a.size)

def Live.At (a : Live) (c : PoolCore) (s : Nat) : Prop :=
  a.ptr = c.map + 32 * s + 16 ∧ s + a.blocks ≤ 32 * c.bitmap.length

def Live.Covers (a : Live) (x : Nat) : Prop := a.hdr ≤ x ∧ x < a.hdr + 32 * a.blocks

def Live.Disjoint (a b : Live) : Prop := Apart a.hdr (32 * a.blocks) b.hdr (32 * b.blocks)

def PoolCore.span (c : PoolCore) : Nat := c.bitmap.length * 1024 + c.bitmap.length * 4

@[grind cases]
structure SmallocInv (cores : List PoolCore) (mem : Mem) (live : List Live) : Prop where
  ok : ∀ (i : Nat) (c : PoolCore), cores[i]? = some c → c.Ok
  apart : ∀ (i j : Nat) (c d : PoolCore), cores[i]? = some c → cores[j]? = some d → i ≠ j →
    Apart c.map c.span d.map d.span
  size : ∀ a ∈ live, a.size < 2 ^ 31
  home : ∀ a ∈ live, ∃ (i : Nat) (c : PoolCore) (s : Nat), cores[i]? = some c ∧ a.At c s
  hdr : ∀ a ∈ live, HdrOk mem a.hdr (allocSize a.size)
  disjoint : live.Pairwise Live.Disjoint
  bits : ∀ (i : Nat) (c : PoolCore), cores[i]? = some c → ∀ k, k < 32 * c.bitmap.length →
    (bit c.bitmap k = true ↔ ∃ a ∈ live, a.Covers (c.map + 32 * k))

/-! ## Geometry -/

variable {a : Live} {c : PoolCore} {s : Nat} {b : Live} {t : Nat} {d : PoolCore}

theorem Live.At.hdr_eq (h : a.At c s) :
    a.hdr = c.map + 32 * s := by
  unfold Live.hdr
  rw [h.1, Nat.add_sub_cancel]

theorem Live.At.covers_iff {a : Live} {c : PoolCore} {s k : Nat} (h : a.At c s) :
    a.Covers (c.map + 32 * k) ↔ s ≤ k ∧ k < s + a.blocks := by
  unfold Live.Covers
  rw [h.hdr_eq]
  omega

theorem Live.At.inside (h : a.At c s) :
    c.map ≤ a.hdr ∧ a.hdr + 32 * a.blocks ≤ c.map + c.span := by
  have := h.2
  rw [h.hdr_eq]
  unfold PoolCore.span
  omega

theorem Live.At.disjoint (ha : a.At c s) (hb : b.At c t)
    (hpa : 0 < a.blocks) (hpb : 0 < b.blocks)
    (h : ∀ k, s ≤ k → k < s + a.blocks → ¬ (t ≤ k ∧ k < t + b.blocks)) : a.Disjoint b := by
  unfold Live.Disjoint Apart
  rw [ha.hdr_eq, hb.hdr_eq]
  have hs := h s (Nat.le_refl s) (by omega)
  by_cases hst : s ≤ t
  · have ht := h t hst
    omega
  · omega

theorem Live.At.disjoint_of_apart (ha : a.At c s)
    (hb : b.At d t) (h : Apart c.map c.span d.map d.span) : a.Disjoint b := by
  have h1 := ha.inside
  have h2 := hb.inside
  unfold Live.Disjoint Apart at *
  omega

theorem Live.At.not_covers {k : Nat} (ha : a.At c s)
    (h : Apart c.map c.span d.map d.span) (hk : k < 32 * d.bitmap.length) :
    ¬ a.Covers (d.map + 32 * k) := by
  have h1 := ha.inside
  unfold Live.Covers
  unfold Apart PoolCore.span at *
  omega

theorem Live.blocks_pos (h : a.size < 2 ^ 31) : 0 < a.blocks :=
  (sizeToBlocks_lt (Nat.lt_trans h (by decide))).1

instance : Std.Symm Live.Disjoint where
  symm a b h := by
    unfold Live.Disjoint Apart at *
    omega

theorem HdrOk.of_frame {mem mem' : Mem} (h : HdrOk mem a.hdr (allocSize a.size))
    (hframe : ∀ x n, a.hdr ≤ x → x + n ≤ a.hdr + 32 * a.blocks →
      loadLE mem' x n = loadLE mem x n) : HdrOk mem' a.hdr (allocSize a.size) := by
  have h1 := allocSize_bounds a.size
  have h2 := le_sizeToBlocks (allocSize a.size)
  have h3 : a.blocks = sizeToBlocks (allocSize a.size) := rfl
  refine ⟨?_, ?_, ?_⟩
  · rw [hframe _ _ (by omega) (by omega)]; exact h.size_eq
  · rw [hframe _ _ (by omega) (by omega)]; exact h.prered
  · rw [hframe _ _ (by omega) (by omega)]; exact h.postred

/-! ## Allocating -/

section Steps

variable {cores : List PoolCore} {mem mem' : Mem} {live : List Live} {c c' : PoolCore} {j : Nat}

theorem get_set_core {i : Nat} {d : PoolCore} (hj : cores[j]? = some c)
    (hi : (cores.set j c')[i]? = some d) : (i = j ∧ d = c') ∨ (i ≠ j ∧ cores[i]? = some d) := by
  grind

theorem SmallocInv.apart_set (h : SmallocInv cores mem live) (hj : cores[j]? = some c)
    (hmap : c'.map = c.map) (hlen : c'.bitmap.length = c.bitmap.length) :
    ∀ (i k : Nat) (d e : PoolCore), (cores.set j c')[i]? = some d → (cores.set j c')[k]? = some e → i ≠ k →
      Apart d.map d.span e.map e.span := by
  have hspan : c'.span = c.span := by unfold PoolCore.span; rw [hlen]
  intro i k d e hi hk hne
  have hi := get_set_core hj hi
  have hk := get_set_core hj hk
  grind

theorem SmallocInv.home_set (h : SmallocInv cores mem live) (hj : cores[j]? = some c)
    (hmap : c'.map = c.map) (hlen : c'.bitmap.length = c.bitmap.length) :
    ∀ a ∈ live, ∃ (i : Nat) (d : PoolCore) (s : Nat), (cores.set j c')[i]? = some d ∧ a.At d s := by
  intro a ha
  obtain ⟨i, d, s, hi, hat⟩ := h.home a ha
  refine ⟨i, if i = j then c' else d, s, by grind, ?_⟩
  unfold Live.At at hat ⊢
  grind

theorem SmallocInv.disjoint_of_free {size s : Nat} (h : SmallocInv cores mem live)
    (hj : cores[j]? = some c) (hsize : size < 2 ^ 31)
    (hnew : (⟨c.map + 32 * s + 16, size⟩ : Live).At c s)
    (hfree : RunIs c.bitmap s (sizeToBlocks (allocSize size)) false) :
    ∀ a ∈ live, (⟨c.map + 32 * s + 16, size⟩ : Live).Disjoint a := by
  intro a ha
  obtain ⟨i, d, t, hi, hat⟩ := h.home a ha
  by_cases hij : i = j
  · subst hij
    obtain rfl : c = d := Option.some.inj (hj.symm.trans hi)
    refine hnew.disjoint hat (Live.blocks_pos hsize) (Live.blocks_pos (h.size a ha)) ?_
    intro k h1 h2 hk
    have hfit := hnew.2
    have hset := (h.bits i c hj k (by omega)).mpr ⟨a, ha, hat.covers_iff.mpr hk⟩
    rw [hfree k h1 h2] at hset
    exact absurd hset (by simp)
  · exact hnew.disjoint_of_apart hat (h.apart _ _ _ _ hj hi (Ne.symm hij))

theorem SmallocInv.alloc {size s : Nat} (h : SmallocInv cores mem live) (hj : cores[j]? = some c)
    (hsize : size < 2 ^ 31) (halloc : Allocated c c' mem mem' size s) :
    SmallocInv (cores.set j c') mem' (⟨c.map + 32 * s + 16, size⟩ :: live) := by
  have hnew : (⟨c.map + 32 * s + 16, size⟩ : Live).At c s := ⟨rfl, halloc.fits⟩
  have hnew' : (⟨c.map + 32 * s + 16, size⟩ : Live).At c' s :=
    ⟨by rw [halloc.map], by rw [halloc.length]; exact halloc.fits⟩
  have hdisj := h.disjoint_of_free hj hsize hnew halloc.free
  refine ⟨?_, h.apart_set hj halloc.map halloc.length, ?_, ?_, ?_, List.pairwise_cons.mpr ⟨hdisj, h.disjoint⟩, ?_⟩
  · have := halloc.ok
    grind
  · grind
  · have := h.home_set hj halloc.map halloc.length
    have : (cores.set j c')[j]? = some c' := by grind
    grind
  · intro a ha
    rcases List.mem_cons.mp ha with rfl | ha
    · have := halloc.hdr
      rwa [← hnew.hdr_eq] at this
    · -- a header outside of the new blocks stays as it is
      refine (h.hdr a ha).of_frame fun x n h1 h2 => halloc.frame x n ?_
      have hap := hdisj a ha
      unfold Live.Disjoint at hap
      rw [hnew.hdr_eq] at hap
      have hb : (⟨c.map + 32 * s + 16, size⟩ : Live).blocks = sizeToBlocks (allocSize size) := rfl
      unfold Apart at hap ⊢
      omega
  · intro i d hi k hk
    simp only [List.mem_cons, exists_eq_or_imp]
    rcases get_set_core hj hi with ⟨-, rfl⟩ | ⟨hij, hi⟩
    · -- in the pool of the call the new blocks are added, in the others nothing changes
      rw [hnew'.covers_iff, halloc.bits]
      rw [halloc.length] at hk
      have hold := h.bits j c hj k hk
      rw [← halloc.map] at hold
      have hb : (⟨c.map + 32 * s + 16, size⟩ : Live).blocks = sizeToBlocks (allocSize size) := rfl
      grind
    · rw [h.bits i d hi k hk, or_iff_right (hnew.not_covers (h.apart _ _ _ _ hj hi (Ne.symm hij)) hk)]

/-! ## Freeing -/

theorem SmallocInv.nodup (h : SmallocInv cores mem live) : live.Nodup := by
  refine h.disjoint.imp_of_mem fun {a b} ha _ hab heq => ?_
  subst heq
  have := Live.blocks_pos (h.size a ha)
  unfold Live.Disjoint Apart at hab
  omega

theorem SmallocInv.eq_of_covers {a b : Live} {x : Nat} (h : SmallocInv cores mem live)
    (ha : a ∈ live) (hb : b ∈ live) (hax : a.Covers x) (hbx : b.Covers x) : a = b := by
  by_contra hne
  have hab := h.disjoint.forall ha hb hne
  unfold Live.Disjoint Apart at hab
  unfold Live.Covers at hax hbx
  omega

theorem SmallocInv.free {a : Live} {s : Nat} (h : SmallocInv cores mem live)
    (hj : cores[j]? = some c) (ha : a ∈ live) (hat : a.At c s) (hmap : c'.map = c.map)
    (hlen : c'.bitmap.length = c.bitmap.length) (hok : c'.Ok)
    (hbits : ∀ k, bit c'.bitmap k
      = if s ≤ k ∧ k < s + a.blocks then false else bit c.bitmap k) :
    SmallocInv (cores.set j c') mem (live.erase a) := by
  have hsub : ∀ b ∈ live.erase a, b ∈ live := fun b hb => List.mem_of_mem_erase hb
  have hmem : ∀ b, b ∈ live.erase a ↔ b ≠ a ∧ b ∈ live := fun b => h.nodup.mem_erase_iff
  refine ⟨?_, h.apart_set hj hmap hlen, fun b hb => h.size b (hsub b hb),
    fun b hb => h.home_set hj hmap hlen b (hsub b hb), fun b hb => h.hdr b (hsub b hb),
    h.disjoint.sublist List.erase_sublist, ?_⟩
  · grind
  · intro i d hi k hk
    have hcov := fun b hb => @SmallocInv.eq_of_covers _ _ _ b a (d.map + 32 * k) h hb ha
    rcases get_set_core hj hi with ⟨-, rfl⟩ | ⟨hij, hi'⟩
    · rw [hlen] at hk
      rw [hmap] at hcov
      have hin := @Live.At.covers_iff _ _ _ k hat
      rw [hbits, hmap]
      have := h.bits j c hj k hk
      grind
    · have hno := hat.not_covers (h.apart _ _ _ _ hj hi' (Ne.symm hij)) hk
      rw [h.bits i d hi' k hk]
      grind

/-! ## Writing and mapping -/

theorem SmallocInv.write {a : Live} {off : Nat} {bs : List Byte} (h : SmallocInv cores mem live)
    (ha : a ∈ live) (hfit : off + bs.length ≤ a.size) :
    SmallocInv cores (store mem (a.ptr + off) bs) live := by
  refine ⟨h.ok, h.apart, h.size, h.home, fun b hb => ?_, h.disjoint, h.bits⟩
  obtain ⟨i, c, s, -, hat⟩ := h.home a ha
  have hptr : a.ptr = a.hdr + 16 := by rw [hat.hdr_eq, hat.1]
  have hsa := allocSize_bounds a.size
  have hba : allocSize a.size ≤ 32 * a.blocks := le_sizeToBlocks _
  by_cases hab : b = a
  · subst hab
    exact (h.hdr b hb).store (by omega) (by unfold Apart; omega) (by unfold Apart; omega)
  · have hdisj := h.disjoint.forall hb ha hab
    refine (h.hdr b hb).of_frame fun x n h1 h2 => loadLE_store_apart _ ?_
    unfold Live.Disjoint Apart at hdisj
    unfold Apart
    omega

theorem SmallocInv.mapPool {bs : List Byte} (h : SmallocInv cores mem live)
    (hok : c.Ok) (hclear : ∀ k, bit c.bitmap k = false)
    (hlen : bs.length = c.span)
    (hap : ∀ d ∈ cores, Apart d.map d.span c.map c.span) :
    SmallocInv (cores ++ [c]) (store mem c.map bs) live := by
  have hget : ∀ {i : Nat} {d : PoolCore}, (cores ++ [c])[i]? = some d →
      (i = cores.length ∧ d = c) ∨ cores[i]? = some d := by grind
  have hold : ∀ {i : Nat} {d : PoolCore}, cores[i]? = some d → Apart d.map d.span c.map c.span :=
    fun hi => hap _ (List.mem_of_getElem? hi)
  refine ⟨by grind, ?_, h.size, by grind, ?_, h.disjoint, ?_⟩
  · intro i k d e hi hk hne
    have hsymm : cores[k]? = some e → Apart c.map c.span e.map e.span := fun hk => (hold hk).symm
    have hi := hget hi
    have hk := hget hk
    grind
  · intro a ha
    obtain ⟨i, d, s, hi, hat⟩ := h.home a ha
    have h1 := hat.inside
    have h2 := hold hi
    -- the new pool is mapped apart from every old header
    refine (h.hdr a ha).of_frame fun x n hx hn => loadLE_store_apart _ ?_
    unfold Apart at h2 ⊢
    omega
  · intro i d hi k hk
    rcases hget hi with ⟨-, rfl⟩ | hi'
    · rw [hclear]
      refine ⟨fun hf => absurd hf (by simp), ?_⟩
      -- no block of an old pool lies in the new one
      rintro ⟨a, ha, hcov⟩
      obtain ⟨i', e, s, hi', hat⟩ := h.home a ha
      exact absurd hcov (hat.not_covers (hold hi') hk)
    · exact h.bits i d hi' k hk

end Steps

/-! ## The calls -/

def Smalloc.cores (st : Smalloc) : List PoolCore := st.pools.map Pool.core

def Smalloc.regions (st : Smalloc) : List (Nat × Nat) := st.cores.map fun c => (c.map, c.span)

def MapOk (regions : List (Nat × Nat)) (base size : Nat) : Prop :=
  4096 ∣ base ∧ ∀ r ∈ regions, Apart r.1 r.2 base (poolMmapSize size)

def EnvsOk (size : Nat) : List (Nat × Nat) → List PoolEnv → Prop
  | _, [] => True
  | regions, env :: envs => ∀ base, env.mmap = some base →
      MapOk regions base size ∧ EnvsOk size (regions ++ [(base, poolMmapSize size)]) envs

variable {mem : Mem} {live : List Live} {st : Smalloc} {a : Live}

theorem poolMmapSize_eq {size : Nat} (h : size < 2 ^ 31) :
    poolMmapSize size = poolWords size * 1024 + poolWords size * 4 := by
  have hw : poolWords size ≤ 2 ^ 21 + 1 := by
    unfold poolWords
    dsimp only
    rw [Nat.mod_eq_of_lt (a := size + 4 + 16) (by omega)]
    split
    · decide
    · rw [Nat.mod_eq_of_lt (by omega)]
      omega
  unfold poolMmapSize
  rw [Nat.mod_eq_of_lt (by omega)]

theorem addPool_spec {env : PoolEnv} {mem' : Mem} {size : Nat} {pool : Pool}
    {cores : List PoolCore} (h : SmallocInv cores mem live)
    (hsize : size < 2 ^ 31) (hadd : addPool env mem size = some (mem', pool))
    (hmap : ∀ base, env.mmap = some base → MapOk (cores.map fun c => (c.map, c.span)) base size) :
    SmallocInv (cores ++ [pool.core]) mem' live ∧ env.mmap = some pool.map ∧
      pool.core.span = poolMmapSize size := by
  obtain ⟨hbase, hbitmap, -, rfl, hok⟩ := addPool_cases hadd
  obtain ⟨halign, hap⟩ := hmap pool.map hbase
  have hbits : pool.core.bitmap = List.replicate (poolWords size) 0#32 := hbitmap
  have hspan : pool.core.span = poolMmapSize size := by
    unfold PoolCore.span
    rw [hbits, List.length_replicate, poolMmapSize_eq hsize]
  refine ⟨h.mapPool (hok (Nat.dvd_trans (by decide) halign)) (fun k => ?_) ?_ ?_, hbase, hspan⟩
  · rw [hbits]
    exact bit_replicate_zero _ k
  · rw [List.length_replicate]
    exact hspan.symm
  · intro d hd
    show Apart d.map d.span pool.map _
    rw [hspan]
    exact hap (d.map, d.span) (List.mem_map.mpr ⟨d, hd, rfl⟩)

theorem smallocFor_spec {wild : Wild} {size : Nat} (hsize : size < 2 ^ 31) :
    ∀ (pools : List Pool) (mem : Mem) (i : Nat), (∀ p ∈ pools, p.core.Ok) →
    ∃ mem' pools' res, smallocFor wild size mem i pools = .ok (mem', pools', res) ∧
      ((res = none ∧ mem' = mem ∧ pools'.map Pool.core = pools.map Pool.core) ∨
        ∃ j c c' s, res = some (i + j, c.map + 32 * s + 16) ∧
          (pools.map Pool.core)[j]? = some c ∧
          pools'.map Pool.core = (pools.map Pool.core).set j c' ∧
          Allocated c c' mem mem' size s) := by
  intro pools
  induction pools with
  | nil =>
    intro mem i _
    exact ⟨mem, [], none, rfl, Or.inl ⟨rfl, rfl, rfl⟩⟩
  | cons pool pools ih =>
    intro mem i hok
    obtain ⟨mem₁, pool₁, res, hpool, hres⟩ :=
      @smallocPool_spec wild mem pool size (hok pool (by simp)) (Nat.lt_trans hsize (by decide))
    rw [smallocFor, hpool]
    rcases hres with ⟨rfl, rfl, hcore, -⟩ | ⟨s, rfl, -, halloc⟩
    · obtain ⟨mem', pools', res, hfor, hres⟩ :=
        ih mem₁ (i + 1) (fun p hp => hok p (List.mem_cons_of_mem _ hp))
      refine ⟨mem', pool₁ :: pools', res, by simp only [hfor], ?_⟩
      rcases hres with ⟨rfl, rfl, hcores⟩ | ⟨j, c, c', s, rfl, hj, hset, halloc⟩
      · exact Or.inl ⟨rfl, rfl, by rw [List.map_cons, List.map_cons, hcore, hcores]⟩
      · refine Or.inr ⟨j + 1, c, c', s, ?_, ?_, ?_, halloc⟩
        · rw [Nat.add_assoc, Nat.add_comm 1 j]
        · rw [List.map_cons, List.getElem?_cons_succ]
          exact hj
        · rw [List.map_cons, List.map_cons, List.set_cons_succ, hcore, hset]
    · exact ⟨mem₁, pool₁ :: pools, _, rfl, Or.inr ⟨0, pool.core, pool₁.core, s, rfl, rfl, rfl, halloc⟩⟩

def liveAfter (live : List Live) (size : Nat) : Option Nat → List Live
  | none => live
  | some ptr => ⟨ptr, size⟩ :: live

theorem SmallocInv.okPools
    (h : SmallocInv st.cores mem live) : ∀ p ∈ st.pools, p.core.Ok := by
  intro p hp
  obtain ⟨i, hi⟩ := List.mem_iff_getElem?.mp hp
  refine h.ok i p.core ?_
  rw [Smalloc.cores, List.getElem?_map, hi]
  rfl

theorem SmallocInv.pass {wild : Wild} {size : Nat} {live : List Live} {st : Smalloc} (i : Nat)
    (h : SmallocInv st.cores st.mem live) (hsize : size < 2 ^ 31) :
    ∃ mem' pools' res, smallocFor wild size st.mem i (st.pools.drop i) = .ok (mem', pools', res) ∧
      ((res = none ∧ mem' = st.mem ∧
          (st.pools.take i ++ pools').map Pool.core = st.cores) ∨
        ∃ k ptr, res = some (k, ptr) ∧
          SmallocInv ((st.pools.take i ++ pools').map Pool.core) mem' (⟨ptr, size⟩ :: live)) := by
  obtain ⟨mem', pools', res, hfor, hres⟩ := @smallocFor_spec wild size hsize
    (st.pools.drop i) st.mem i (fun p hp => h.okPools p (List.mem_of_mem_drop hp))
  have hsplit : (st.pools.take i).map Pool.core ++ (st.pools.drop i).map Pool.core = st.cores := by
    rw [← List.map_append, List.take_append_drop]
    rfl
  refine ⟨mem', pools', res, hfor, ?_⟩
  rcases hres with ⟨rfl, rfl, hcores⟩ | ⟨j, c, c', s, rfl, hj, hset, halloc⟩
  · refine Or.inl ⟨rfl, rfl, ?_⟩
    rw [List.map_append, hcores, hsplit]
  · refine Or.inr ⟨_, _, rfl, ?_⟩
    have hget : st.cores[((st.pools.take i).map Pool.core).length + j]? = some c := by
      rw [← hsplit, List.getElem?_append_right (Nat.le_add_right _ _), Nat.add_sub_cancel_left]
      exact hj
    have hcores : (st.pools.take i ++ pools').map Pool.core
        = st.cores.set (((st.pools.take i).map Pool.core).length + j) c' := by
      rw [List.map_append, hset, ← hsplit, List.set_append_right _ _ (Nat.le_add_right _ _),
        Nat.add_sub_cancel_left]
    rw [hcores]
    exact h.alloc hget hsize halloc

theorem smallocLoop_spec {wild : Wild} {size : Nat} (hsize : size < 2 ^ 31) :
    ∀ (envs : List PoolEnv) (st : Smalloc) (i : Nat), SmallocInv st.cores st.mem live →
    EnvsOk size st.regions envs →
    ∃ st' res, smallocLoop wild size envs st i = .ok (st', res) ∧
      SmallocInv st'.cores st'.mem (liveAfter live size res) := by
  intro envs
  induction envs with
  | nil =>
    intro st i h _
    obtain ⟨mem', pools', res, hfor, hres⟩ := @SmallocInv.pass wild size live st i h hsize
    unfold smallocLoop
    rw [hfor]
    rcases hres with ⟨rfl, rfl, hcores⟩ | ⟨k, ptr, rfl, hinv⟩
    · dsimp only
      refine ⟨⟨st.pools.take i ++ pools', 0, st.mem⟩, none, by rw [ite_self], ?_⟩
      rw [Smalloc.cores, hcores]
      exact h
    · exact ⟨_, _, rfl, hinv⟩
  | cons env envs ih =>
    intro st i h henv
    obtain ⟨mem', pools', res, hfor, hres⟩ := @SmallocInv.pass wild size live st i h hsize
    unfold smallocLoop
    rw [hfor]
    rcases hres with ⟨rfl, rfl, hcores⟩ | ⟨k, ptr, rfl, hinv⟩
    · dsimp only
      -- a failed pass changes no pool
      have hsame : SmallocInv ((st.pools.take i ++ pools').map Pool.core) st.mem live := by
        rw [hcores]
        exact h
      split
      · exact ⟨_, none, rfl, hsame⟩
      · cases hadd : addPool env st.mem size with
        | none => exact ⟨_, none, rfl, hsame⟩
        | some new =>
          obtain ⟨mem₁, pool⟩ := new
          obtain ⟨hinv, hbase, hspan⟩ :=
            addPool_spec h hsize hadd (fun base hbase => (henv base hbase).1)
          have hnew : (st.pools.take i ++ pools' ++ [pool]).map Pool.core
              = st.cores ++ [pool.core] := by
            rw [List.map_append, hcores, List.map_singleton]
          refine ih ⟨st.pools.take i ++ pools' ++ [pool], 0, mem₁⟩ _ ?_ ?_
          · rw [Smalloc.cores, hnew]
            exact hinv
          · rw [Smalloc.regions, Smalloc.cores, hnew, List.map_append, List.map_singleton, hspan]
            exact (henv _ hbase).2
    · exact ⟨_, _, rfl, hinv⟩

theorem smalloc_spec {wild : Wild} {size : Nat} {envs : List PoolEnv} {st : Smalloc}
    {live : List Live} (h : SmallocInv st.cores st.mem live) (hsize : size < 2 ^ 31)
    (henv : EnvsOk size st.regions envs) :
    ∃ st' res, smalloc wild envs st size = .ok (st', res) ∧
      SmallocInv st'.cores st'.mem (liveAfter live size res) := by
  rw [smalloc, if_neg (by omega)]
  exact smallocLoop_spec hsize envs st st.lastPool h henv

theorem findIdx_home {i s : Nat} {c : PoolCore}
    (h : SmallocInv st.cores st.mem live) (hsize : a.size < 2 ^ 31) (hi : st.cores[i]? = some c)
    (hat : a.At c s) : st.pools.findIdx? (ptrValid · a.ptr) = some i := by
  have hvalid : ∀ (k : Nat) (p : Pool), st.pools[k]? = some p →
      ptrValid p a.ptr = decide (k = i) := by
    intro k p hk
    have hcore : st.cores[k]? = some p.core := by
      rw [Smalloc.cores, List.getElem?_map, hk]
      rfl
    have hok := h.ok k _ hcore
    have hbound : p.bitmap.length * 1024 < 2 ^ 32 := hok.size
    have hpos := Live.blocks_pos hsize
    have hfit := hat.2
    rw [ptrValid, Nat.mod_eq_of_lt hbound, decide_eq_decide, hat.1]
    constructor
    · -- two pools that both contain the pointer would overlap
      intro hin
      by_contra hne
      have hap := h.apart _ _ _ _ hcore hi hne
      have hmap : p.core.map = p.map := rfl
      have hspan : p.core.span = p.bitmap.length * 1024 + p.bitmap.length * 4 := rfl
      have hspan' : c.span = c.bitmap.length * 1024 + c.bitmap.length * 4 := rfl
      unfold Apart at hap
      omega
    · rintro rfl
      obtain rfl : c = p.core := Option.some.inj (hi.symm.trans hcore)
      have hlen : p.core.bitmap.length = p.bitmap.length := rfl
      have hmap : p.core.map = p.map := rfl
      omega
  have hlt : i < st.pools.length := by
    have := (List.getElem?_eq_some_iff.mp hi).1
    rwa [Smalloc.cores, List.length_map] at this
  rw [List.findIdx?_eq_some_iff_getElem]
  refine ⟨hlt, ?_, ?_⟩
  · rw [hvalid i _ (List.getElem?_eq_getElem hlt)]
    exact decide_eq_true rfl
  · intro k hk
    rw [hvalid k _ (List.getElem?_eq_getElem (Nat.lt_trans hk hlt))]
    simp only [decide_eq_true_eq]
    omega

theorem sfree_spec {wild : Wild} {st : Smalloc} {live : List Live} {a : Live}
    (h : SmallocInv st.cores st.mem live) (ha : a ∈ live) :
    ∃ st', sfree wild st a.ptr = .ok st' ∧
      SmallocInv st'.cores st'.mem (live.erase a) := by
  obtain ⟨i, c, s, hi, hat⟩ := h.home a ha
  have hsize := h.size a ha
  obtain ⟨pool, hpool, rfl⟩ : ∃ p, st.pools[i]? = some p ∧ p.core = c := by
    rw [Smalloc.cores, List.getElem?_map] at hi
    exact Option.map_eq_some_iff.mp hi
  have hrun : RunIs pool.bitmap s (sizeToBlocks (allocSize a.size)) true := by
    intro k h1 h2
    have hfit := hat.2
    have hb : a.blocks = sizeToBlocks (allocSize a.size) := rfl
    exact (h.bits i _ hi k (by omega)).mpr ⟨a, ha, hat.covers_iff.mpr ⟨h1, h2⟩⟩
  have hhdr := h.hdr a ha
  rw [hat.hdr_eq] at hhdr
  have hin : s < 32 * pool.bitmap.length :=
    Nat.lt_of_lt_of_le (Nat.lt_add_of_pos_right (Live.blocks_pos hsize)) hat.2
  obtain ⟨pool', hfree, hmap, hlen, hok, -, hbits⟩ := @sfreePool_spec wild st.mem pool
    (allocSize a.size) s (h.ok i _ hi) (allocSize_bounds a.size).1 hat.2 hin hrun hhdr
  refine ⟨{ st with pools := st.pools.set i pool' }, ?_, ?_⟩
  · rw [sfree, findIdx_home h hsize hi hat]
    dsimp only
    rw [hpool]
    dsimp only
    rw [hat.1, show pool.core.map = pool.map from rfl, hfree]
  · rw [Smalloc.cores, List.map_set]
    exact h.free hi ha hat hmap hlen hok hbits

/-! ## Every run -/

/-- The states a program can bring the allocator to, with the allocations that are live in them.
An out-of-range shift may have another value in each step. -/
inductive Reach : Smalloc → List Live → Prop
  | init {env : PoolEnv} {mem : Mem} {st : Smalloc}
      (hmap : ∀ base, env.mmap = some base → MapOk [] base (8192 * 1024))
      (hcall : sinit env mem = .ok st) : Reach st []
  | alloc {st st' : Smalloc} {live : List Live} (wild : Wild) (envs : List PoolEnv) (size : Nat)
      (res : Option Nat) (hreach : Reach st live) (hsize : size < 2 ^ 31)
      (henv : EnvsOk size st.regions envs) (hcall : smalloc wild envs st size = .ok (st', res)) :
      Reach st' (liveAfter live size res)
  | free {st st' : Smalloc} {live : List Live} (wild : Wild) (a : Live) (hreach : Reach st live)
      (ha : a ∈ live) (hcall : sfree wild st a.ptr = .ok st') : Reach st' (live.erase a)
  | write {st : Smalloc} {live : List Live} (a : Live) (off : Nat) (bs : List Byte)
      (hreach : Reach st live) (ha : a ∈ live) (hfit : off + bs.length ≤ a.size) :
      Reach { st with mem := store st.mem (a.ptr + off) bs } live

theorem Reach.inv (h : Reach st live) :
    SmallocInv st.cores st.mem live := by
  induction h with
  | @init env mem st hmap hcall =>
    unfold sinit at hcall
    cases hadd : addPool env mem (8192 * 1024) with
    | none => rw [hadd] at hcall; exact absurd hcall (by simp)
    | some new =>
      obtain ⟨mem', pool⟩ := new
      rw [hadd] at hcall
      obtain rfl := Except.ok.inj hcall
      have hnone : SmallocInv [] mem [] := by
        refine ⟨?_, ?_, ?_, ?_, ?_, List.Pairwise.nil, ?_⟩ <;> simp
      exact (addPool_spec hnone (by decide) hadd hmap).1
  | alloc wild envs size res hreach hsize henv hcall ih =>
    obtain ⟨st₁, res₁, hcall₁, hinv⟩ := @smalloc_spec wild size envs _ _ ih hsize henv
    obtain ⟨rfl, rfl⟩ := Prod.mk.inj (Except.ok.inj (hcall₁.symm.trans hcall))
    exact hinv
  | free wild a hreach ha hcall ih =>
    obtain ⟨st₁, hcall₁, hinv⟩ := @sfree_spec wild _ _ a ih ha
    obtain rfl := Except.ok.inj (hcall₁.symm.trans hcall)
    exact hinv
  | write a off bs hreach ha hfit ih => exact ih.write ha hfit

structure SmallocSafe (st : Smalloc) (live : List Live) : Prop where
  /-- the set bits of every pool are the blocks of the live allocations -/
  bits : ∀ pool ∈ st.pools, ∀ k, k < 32 * pool.bitmap.length →
    (bit pool.bitmap k = true ↔ ∃ a ∈ live, a.Covers (pool.map + 32 * k))
  /-- which lie in a pool, -/
  inPool : ∀ a ∈ live, ∃ pool ∈ st.pools, ∃ s, a.ptr = pool.map + 32 * s + 16 ∧
    s + a.blocks ≤ 32 * pool.bitmap.length
  /-- each in blocks of its own -/
  disjoint : live.Pairwise Live.Disjoint
  /-- the count of free blocks is right -/
  counted : ∀ pool ∈ st.pools, pool.freeBlocks = clearBlocks pool.bitmap
  /-- header, user bytes and redzone follow one another inside the allocation's blocks -/
  layout : ∀ a ∈ live, a.hdr + 16 = a.ptr ∧ a.ptr + a.size ≤ postredPtr st.mem a.hdr ∧
    postredPtr st.mem a.hdr + 4 ≤ a.hdr + 32 * a.blocks
  /-- no assertion fails in the next `smalloc`, -/
  smallocOk : ∀ wild envs size, size < 2 ^ 31 → EnvsOk size st.regions envs →
    ∃ st' res, smalloc wild envs st size = .ok (st', res)
  /-- nor in the next `sfree` -/
  sfreeOk : ∀ wild, ∀ a ∈ live, ∃ st', sfree wild st a.ptr = .ok st'

theorem SmallocInv.layout
    (h : SmallocInv st.cores st.mem live) (ha : a ∈ live) :
    a.hdr + 16 = a.ptr ∧ a.ptr + a.size ≤ postredPtr st.mem a.hdr ∧
      postredPtr st.mem a.hdr + 4 ≤ a.hdr + 32 * a.blocks := by
  obtain ⟨i, c, s, hi, hat⟩ := h.home a ha
  obtain ⟨hmul, hlow, hhigh⟩ := allocSize_bounds a.size
  have halign : 32 ∣ c.map := (h.ok i c hi).aligned
  have hhdr := hat.hdr_eq
  have hptr := hat.1
  have hblocks : allocSize a.size ≤ 32 * a.blocks := le_sizeToBlocks _
  rw [(h.hdr a ha).postredPtr_eq (by omega) hmul]
  omega

/-- Whatever was allocated, freed and written before: allocations never overlap, the bitmaps and
counts of the pools are those of the live allocations, and no assertion fails. The callers may write
anything into what they have got; the headers in front of it are the allocator's. -/
theorem smalloc_safe {st : Smalloc} {live : List Live} (h : Reach st live) :
    SmallocSafe st live := by
  have hinv := h.inv
  have hget : ∀ pool ∈ st.pools, ∃ i : Nat, st.cores[i]? = some pool.core := by
    intro pool hp
    obtain ⟨i, hi⟩ := List.mem_iff_getElem?.mp hp
    exact ⟨i, by rw [Smalloc.cores, List.getElem?_map, hi]; rfl⟩
  refine ⟨?_, ?_, hinv.disjoint, ?_, fun a ha => hinv.layout ha, ?_, ?_⟩
  · intro pool hp
    obtain ⟨i, hi⟩ := hget pool hp
    exact hinv.bits i _ hi
  · intro a ha
    obtain ⟨i, c, s, hi, hat⟩ := hinv.home a ha
    rw [Smalloc.cores, List.getElem?_map] at hi
    obtain ⟨pool, hpool, rfl⟩ := Option.map_eq_some_iff.mp hi
    exact ⟨pool, List.mem_of_getElem? hpool, s, hat⟩
  · intro pool hp
    obtain ⟨i, hi⟩ := hget pool hp
    exact (hinv.ok i _ hi).counted
  · intro wild envs size hsize henv
    obtain ⟨st', res, hcall, -⟩ := @smalloc_spec wild size envs st live hinv hsize henv
    exact ⟨st', res, hcall⟩
  · intro wild a ha
    obtain ⟨st', hcall, -⟩ := @sfree_spec wild st live a hinv ha
    exact ⟨st', hcall⟩

def firstPool : Smalloc :=
  ⟨[⟨4096, List.replicate 8193 0#32, 262176, 0⟩], 0,
    store (fun _ => 0#8) 4096 (List.replicate 8422404 0#8)⟩

theorem sinit_firstPool : sinit ⟨some 4096, true⟩ (fun _ => 0#8) = .ok firstPool := by
  have hwords : poolWords (8192 * 1024) = 8193 := by decide
  have hmmap : poolMmapSize (8192 * 1024) = 8422404 := by decide
  simp only [sinit, addPool, hwords, hmmap, firstPool]

theorem reach_firstPool : Reach firstPool [] := by
  refine @Reach.init ⟨some 4096, true⟩ (fun _ => 0#8) firstPool ?_ sinit_firstPool
  rintro base hbase
  obtain rfl := Option.some.inj hbase
  exact ⟨by decide, by simp⟩

def Smalloc.malloc (st : Smalloc) (size : Nat) : Smalloc :=
  ((smalloc (fun _ _ => 0#32) [] st size).toOption.map (·.1)).getD st

def Smalloc.release (st : Smalloc) (ptr : Nat) : Smalloc :=
  (sfree (fun _ _ => 0#32) st ptr).toOption.getD st

theorem Reach.malloc {size ptr : Nat} (h : Reach st live)
    (hsize : size < 2 ^ 31)
    (hres : (smalloc (fun _ _ => 0#32) [] st size).toOption.map (·.2) = some (some ptr)) :
    Reach (st.malloc size) (⟨ptr, size⟩ :: live) := by
  cases hcall : smalloc (fun _ _ => 0#32) [] st size with
  | error e => rw [hcall] at hres; exact absurd hres (by simp [Except.toOption])
  | ok r =>
    rw [hcall] at hres
    obtain ⟨st', res⟩ := r
    obtain rfl : res = some ptr := by simpa [Except.toOption] using hres
    have hst : st.malloc size = st' := by rw [Smalloc.malloc, hcall]; rfl
    rw [hst]
    exact Reach.alloc _ [] size _ h hsize trivial hcall

theorem Reach.release (h : Reach st live)
    (ha : a ∈ live) : Reach (st.release a.ptr) (live.erase a) := by
  obtain ⟨st', hcall, -⟩ := @sfree_spec (fun _ _ => 0#32) st live a h.inv ha
  have hst : st.release a.ptr = st' := by rw [Smalloc.release, hcall]; rfl
  rw [hst]
  exact Reach.free _ a h ha hcall

def oneBlock : Smalloc := ((firstPool.malloc 1).malloc 1).release 4112

theorem reach_oneBlock : Reach oneBlock [⟨4144, 1⟩] := by
  have h1 : Reach (firstPool.malloc 1) [⟨4112, 1⟩] :=
    reach_firstPool.malloc (by decide) (by decide +kernel)
  have h2 : Reach ((firstPool.malloc 1).malloc 1) [⟨4144, 1⟩, ⟨4112, 1⟩] :=
    h1.malloc (by decide) (by decide +kernel)
  exact h2.release (a := ⟨4112, 1⟩) (by decide)

/-- Two allocations and a free. -/
theorem smalloc_safe_oneBlock : Reach oneBlock [⟨4144, 1⟩] ∧ SmallocSafe oneBlock [⟨4144, 1⟩] :=
  ⟨reach_oneBlock, smalloc_safe reach_oneBlock⟩

end MysqlBench.Fio
