import MysqlBench.Fio.Smalloc.Search
import Mathlib.Data.Finset.Card
import Mathlib.Order.Interval.Finset.Nat

/-!
# One allocation and one free in a pool

What `smalloc_pool` and `sfree_pool` do to the bitmap, the count of free blocks and the memory,
for a pool whose count is right. The header and both redzones are written inside the blocks that
were found free, so every other allocation keeps its own (`Allocated.frame`).
-/

namespace MysqlBench.Fio

open MysqlBench.Lib

/-! ## Counting -/

def clearBlocks (bitmap : List Uint) : Nat :=
  ((Finset.range (32 * bitmap.length)).filter fun k => bit bitmap k = false).card

variable {n : Nat} {bitmap : List Uint} {k : Nat} {mem : Mem} {a : Nat} {pool : Pool}

theorem clearBlocks_zero (n : Nat) : clearBlocks (List.replicate n 0#32) = n * 32 := by
  unfold clearBlocks
  rw [Finset.filter_true_of_mem (fun k _ => bit_replicate_zero n k), Finset.card_range,
    List.length_replicate, Nat.mul_comm]

theorem FreeRun.subset (h : FreeRun bitmap k n) :
    Finset.Ico k (k + n) ⊆
      (Finset.range (32 * bitmap.length)).filter fun j => bit bitmap j = false := by
  intro j hj
  have hfit := h.1
  rw [Finset.mem_Ico] at hj
  exact Finset.mem_filter.mpr ⟨Finset.mem_range.mpr (by omega), h.2 j hj.1 hj.2⟩

theorem clearBlocks_run {bitmap' : List Uint} {s : Nat}
    (hlen : bitmap'.length = bitmap.length) (hrun : FreeRun bitmap s n)
    (hbits : ∀ k, bit bitmap' k = if s ≤ k ∧ k < s + n then true else bit bitmap k) :
    clearBlocks bitmap' + n = clearBlocks bitmap := by
  have hdiff : ((Finset.range (32 * bitmap'.length)).filter fun k => bit bitmap' k = false)
      = ((Finset.range (32 * bitmap.length)).filter fun k => bit bitmap k = false)
        \ Finset.Ico s (s + n) := by
    ext k
    rw [Finset.mem_sdiff, Finset.mem_filter, Finset.mem_filter, Finset.mem_Ico, hlen, hbits]
    by_cases hk : s ≤ k ∧ k < s + n
    · simp [hk]
    · simp [hk]
  have hcard := Finset.card_sdiff_add_card_eq_card hrun.subset
  rw [← hdiff, Nat.card_Ico, Nat.add_sub_cancel_left] at hcard
  exact hcard

theorem clearBlocks_le (bitmap : List Uint) : clearBlocks bitmap ≤ 32 * bitmap.length := by
  unfold clearBlocks
  exact Nat.le_trans (Finset.card_filter_le _ _) (Nat.le_of_eq (Finset.card_range _))

theorem FreeRun.le_clearBlocks (h : FreeRun bitmap k n) :
    n ≤ clearBlocks bitmap := by
  have hcard := Finset.card_le_card h.subset
  rwa [Nat.card_Ico, Nat.add_sub_cancel_left] at hcard

/-! ## Sizes -/

theorem alignInt_eq {x : Nat} (h : 4 ∣ x) : alignInt x = x := by
  unfold alignInt
  omega

theorem allocSize_bounds (size : Nat) :
    4 ∣ allocSize size ∧ size + 20 ≤ allocSize size ∧ allocSize size ≤ size + 23 := by
  unfold allocSize alignInt
  omega

theorem le_sizeToBlocks (size : Nat) : size ≤ 32 * sizeToBlocks size := by
  unfold sizeToBlocks
  omega

theorem sizeToBlocks_lt {size : Nat} (h : size < 2 ^ 32) :
    0 < sizeToBlocks (allocSize size) ∧ sizeToBlocks (allocSize size) < 2 ^ 30 := by
  have := allocSize_bounds size
  unfold sizeToBlocks
  omega

/-! ## Headers -/

structure HdrOk (mem : Mem) (hdr size : Nat) : Prop where
  size_eq : loadLE mem hdr 8 = size
  prered : loadLE mem (hdr + 8) 4 = smallocPreRed
  postred : loadLE mem (hdr + size - 4) 4 = smallocPostRed

theorem HdrOk.postredPtr_eq {hdr size : Nat} (h : HdrOk mem hdr size) (h4 : 4 ∣ hdr)
    (hs : 4 ∣ size) : postredPtr mem hdr = hdr + size - 4 := by
  rw [postredPtr, h.size_eq, alignInt_eq (by omega)]

theorem HdrOk.store {hdr size : Nat} {bs : List Byte} (h : HdrOk mem hdr size)
    (hsize : 16 ≤ size) (hhdr : Apart hdr 12 a bs.length)
    (hpost : Apart (hdr + size - 4) 4 a bs.length) : HdrOk (store mem a bs) hdr size := by
  unfold Apart at hhdr hpost
  refine ⟨?_, ?_, ?_⟩
  · rw [loadLE_store_apart mem (by unfold Apart; omega)]; exact h.size_eq
  · rw [loadLE_store_apart mem (by unfold Apart; omega)]; exact h.prered
  · rw [loadLE_store_apart mem (by unfold Apart; omega)]; exact h.postred

def filled (mem : Mem) (hdr size : Nat) : Mem :=
  store (fillRedzone (storeLE mem hdr 8 (allocSize size)) hdr) (hdr + 16)
    (List.replicate size 0#8)

theorem filled_hdrOk {hdr size : Nat} (hsize : size < 2 ^ 32) (h4 : 4 ∣ hdr) :
    HdrOk (filled mem hdr size) hdr (allocSize size) := by
  obtain ⟨hmul, hlow, hhigh⟩ := allocSize_bounds size
  have h1 : loadLE (storeLE mem hdr 8 (allocSize size)) hdr 8 = allocSize size :=
    loadLE_storeLE_same mem hdr (by omega)
  have hpost : postredPtr (storeLE mem hdr 8 (allocSize size)) hdr = hdr + allocSize size - 4 := by
    rw [postredPtr, h1, alignInt_eq (by omega)]
  have hfull : HdrOk (fillRedzone (storeLE mem hdr 8 (allocSize size)) hdr) hdr (allocSize size) := by
    unfold fillRedzone
    rw [hpost]
    refine ⟨?_, ?_, ?_⟩
    · rw [loadLE_storeLE_apart _ _ (by unfold Apart; omega),
        loadLE_storeLE_apart _ _ (by unfold Apart; omega), h1]
    · rw [loadLE_storeLE_apart _ _ (by unfold Apart; omega),
        loadLE_storeLE_same _ _ (by decide)]
    · rw [loadLE_storeLE_same _ _ (by decide)]
  refine hfull.store (by omega) ?_ ?_
  · rw [List.length_replicate]; unfold Apart; omega
  · rw [List.length_replicate]; unfold Apart; omega

theorem filled_frame {hdr size : Nat} (hsize : size < 2 ^ 32) (h4 : 4 ∣ hdr)
    (h : Apart a n hdr (allocSize size)) :
    loadLE (filled mem hdr size) a n = loadLE mem a n := by
  obtain ⟨hmul, hlow, hhigh⟩ := allocSize_bounds size
  have h1 : loadLE (storeLE mem hdr 8 (allocSize size)) hdr 8 = allocSize size :=
    loadLE_storeLE_same mem hdr (by omega)
  unfold Apart at h
  unfold filled fillRedzone
  rw [loadLE_store_apart _ (by rw [List.length_replicate]; unfold Apart; omega), postredPtr, h1,
    alignInt_eq (by omega), loadLE_storeLE_apart _ _ (by unfold Apart; omega),
    loadLE_storeLE_apart _ _ (by unfold Apart; omega),
    loadLE_storeLE_apart _ _ (by unfold Apart; omega)]

/-! ## A pool -/

structure PoolCore where
  map : Nat
  bitmap : List Uint
  freeBlocks : Nat

def Pool.core (p : Pool) : PoolCore := ⟨p.map, p.bitmap, p.freeBlocks⟩

/-- A pool as `mmap` aligns it, small enough for `unsigned int` offsets, with the right count. -/
structure PoolCore.Ok (c : PoolCore) : Prop where
  aligned : 32 ∣ c.map
  size : c.bitmap.length * 1024 < 2 ^ 32
  counted : c.freeBlocks = clearBlocks c.bitmap

theorem addPool_cases {env : PoolEnv} {mem' : Mem} {size : Nat}
    (h : addPool env mem size = some (mem', pool)) :
    env.mmap = some pool.map ∧ pool.bitmap = List.replicate (poolWords size) 0#32 ∧
      pool.nextNonFull = 0 ∧
      mem' = store mem pool.map (List.replicate (poolMmapSize size) 0#8) ∧
      (32 ∣ pool.map → pool.core.Ok) := by
  unfold addPool at h
  split at h
  case h_2 => exact absurd h (by simp)
  case h_1 base hbase _ =>
    obtain ⟨rfl, rfl⟩ := Prod.mk.inj (Option.some.inj h)
    refine ⟨hbase, rfl, rfl, rfl, fun hmap => ⟨hmap, ?_, (clearBlocks_zero _).symm⟩⟩
    show (List.replicate (poolWords size) 0#32).length * 1024 < 2 ^ 32
    rw [List.length_replicate, poolWords]
    omega

/-- `c'` and `mem'` are `c` and `mem` with the run of blocks from `s` on allocated for `size`
bytes. -/
structure Allocated (c c' : PoolCore) (mem mem' : Mem) (size s : Nat) : Prop where
  fits : s + sizeToBlocks (allocSize size) ≤ 32 * c.bitmap.length
  free : RunIs c.bitmap s (sizeToBlocks (allocSize size)) false
  map : c'.map = c.map
  length : c'.bitmap.length = c.bitmap.length
  bits : ∀ k, bit c'.bitmap k
    = if s ≤ k ∧ k < s + sizeToBlocks (allocSize size) then true else bit c.bitmap k
  ok : c'.Ok
  hdr : HdrOk mem' (c.map + 32 * s) (allocSize size)
  frame : ∀ a n, Apart a n (c.map + 32 * s) (32 * sizeToBlocks (allocSize size)) →
    loadLE mem' a n = loadLE mem a n

theorem smallocPoolRaw_spec (wild : Wild) (h : pool.core.Ok) (size : Nat) :
    (pool.freeBlocks < sizeToBlocks size ∧ smallocPoolRaw wild pool size = .ok (pool, none)) ∨
      (sizeToBlocks size ≤ pool.freeBlocks ∧ ∃ pool' res,
        Searched pool pool' (sizeToBlocks size) (pool.visits (sizeToBlocks size)) res ∧
        smallocPoolRaw wild pool size = .ok
          ({ pool' with freeBlocks := pool.freeBlocks - res.elim 0 fun _ => sizeToBlocks size },
            res.map (pool.map + ·))) := by
  have hcounted : pool.freeBlocks = clearBlocks pool.bitmap := h.counted
  have hsize : pool.bitmap.length * 1024 < 2 ^ 32 := h.size
  have hle := clearBlocks_le pool.bitmap
  by_cases hroom : pool.freeBlocks < sizeToBlocks size
  · refine .inl ⟨hroom, ?_⟩
    rw [smallocPoolRaw, if_pos hroom]
  · refine .inr ⟨by omega, ?_⟩
    obtain ⟨pool', res, hsearch, hsearched⟩ := @smallocSearch_spec wild (sizeToBlocks size)
      (by omega) (32 * pool.bitmap.length + 1) pool pool.nextNonFull 0 (by decide) (.inr rfl)
      (by omega) (by omega) hsize
    refine ⟨pool', res, hsearched, ?_⟩
    rw [smallocPoolRaw, if_neg hroom, hsearch]
    cases res with
    | none => rw [← hsearched.freeBlocks]; rfl
    | some offset => rw [← hsearched.freeBlocks, ← hsearched.map]; rfl

theorem smallocPool_spec {wild : Wild} {mem : Mem} {pool : Pool} {size : Nat}
    (h : pool.core.Ok) (hsize : size < 2 ^ 32) :
    ∃ mem' pool' res, smallocPool wild mem pool size = .ok (mem', pool', res) ∧
      ((res = none ∧ mem' = mem ∧ pool'.core = pool.core ∧
          ¬ pool.Finds (sizeToBlocks (allocSize size))) ∨
        ∃ s, res = some (pool.map + 32 * s + 16) ∧ pool.Finds (sizeToBlocks (allocSize size)) ∧
          Allocated pool.core pool'.core mem mem' size s) := by
  have hcounted : pool.freeBlocks = clearBlocks pool.bitmap := h.counted
  unfold smallocPool
  -- too few free blocks at all; or a search, which finds a run or not
  rcases smallocPoolRaw_spec wild h (allocSize size) with ⟨hfew, hraw⟩ | ⟨hroom, pool', res, hs, hraw⟩
  · rw [hraw]
    refine ⟨mem, pool, none, rfl, .inl ⟨rfl, rfl, rfl, ?_⟩⟩
    rintro ⟨k, -, hrun⟩
    have := hrun.le_clearBlocks
    omega
  · rw [hraw]
    cases res with
    | none =>
      refine ⟨mem, _, none, rfl, .inl ⟨rfl, rfl, ?_, ?_⟩⟩
      · show (⟨pool'.map, pool'.bitmap, pool.freeBlocks - 0⟩ : PoolCore) = pool.core
        rw [hs.map, (hs.missed rfl).1]
        rfl
      · exact fun hfinds => absurd (hs.isSome_iff.mpr hfinds) (by simp)
    | some offset =>
      obtain ⟨s, rfl, hprobe, hrun, -, hbits⟩ := hs.found offset rfl
      have h4 : 4 ∣ pool.map + 32 * s := by
        have : 32 ∣ pool.map := h.aligned
        omega
      have hcount := clearBlocks_run hs.length hrun hbits
      have hblocks := le_sizeToBlocks (allocSize size)
      refine ⟨filled mem (pool.map + 32 * s) size, _, some (pool.map + 32 * s + 16), rfl,
        .inr ⟨s, rfl, ⟨s, hprobe, hrun⟩, ?_⟩⟩
      refine ⟨hrun.1, hrun.2, hs.map, hs.length, hbits, ⟨?_, ?_, ?_⟩, filled_hdrOk hsize h4,
        fun a n hap => ?_⟩
      · show 32 ∣ pool'.map
        rw [hs.map]
        exact h.aligned
      · show pool'.bitmap.length * 1024 < _
        rw [hs.length]
        exact h.size
      · show pool.freeBlocks - sizeToBlocks (allocSize size) = clearBlocks pool'.bitmap
        omega
      · refine filled_frame hsize h4 ?_
        unfold Apart at hap ⊢
        have : pool.core.map = pool.map := rfl
        omega

theorem sfreePool_spec {wild : Wild} {mem : Mem} {pool : Pool} {size s : Nat} (h : pool.core.Ok)
    (hmul : 4 ∣ size) (hfit : s + sizeToBlocks size ≤ 32 * pool.bitmap.length)
    (hin : s < 32 * pool.bitmap.length) (hrun : RunIs pool.bitmap s (sizeToBlocks size) true)
    (hhdr : HdrOk mem (pool.map + 32 * s) size) :
    ∃ pool', sfreePool wild mem pool (pool.map + 32 * s + 16) = .ok pool' ∧
      pool'.map = pool.map ∧ pool'.bitmap.length = pool.bitmap.length ∧ pool'.core.Ok ∧
      pool'.nextNonFull = min (s / 32) pool.nextNonFull ∧
      ∀ k, bit pool'.bitmap k
        = if s ≤ k ∧ k < s + sizeToBlocks size then false else bit pool.bitmap k := by
  have haligned : 32 ∣ pool.map := h.aligned
  have hwords : pool.bitmap.length * 1024 < 2 ^ 32 := h.size
  have hvalid : ptrValid pool (pool.map + 32 * s) = true := by
    rw [ptrValid, Nat.mod_eq_of_lt hwords]
    exact decide_eq_true ⟨by omega, by omega⟩
  have hred : sfreeCheckRedzone mem (pool.map + 32 * s) = .ok () := by
    rw [sfreeCheckRedzone, hhdr.postredPtr_eq (by omega) hmul, hhdr.prered,
      hhdr.postred, if_neg (by decide), if_neg (by decide)]
  have hword : 32 * s / 1024 % 2 ^ 32 = s / 32 := by
    rw [Nat.mod_eq_of_lt (by omega)]
    omega
  have hidx : 32 * s % 1024 / 32 = s % 32 := by omega
  have hpos' : s / 32 * 32 + s % 32 = s := by omega
  -- all blocks of the run are set, so that clearing them flips each
  obtain ⟨bitmap', hclear, hlen, hbits⟩ := @blocksIter_flip wild maskClear false maskClear_flips
    pool.bitmap (s / 32) (s % 32) (sizeToBlocks size) (Nat.mod_lt _ (by decide))
    (by omega) (by rw [hpos']; exact hfit) (by rw [hpos']; exact hrun)
  rw [hpos'] at hbits
  refine ⟨{ pool with
      bitmap := bitmap'
      nextNonFull := if s / 32 < pool.nextNonFull then s / 32 else pool.nextNonFull
      freeBlocks := pool.freeBlocks + sizeToBlocks size },
    ?_, rfl, hlen, ⟨h.aligned, ?_, ?_⟩, ?_, hbits⟩
  · rw [sfreePool]
    dsimp only
    rw [Nat.add_sub_cancel, hvalid, if_neg (by simp), hred]
    dsimp only
    rw [Nat.add_sub_cancel_left, hword, hidx, hhdr.size_eq, hclear]
  · show bitmap'.length * 1024 < _
    rw [hlen]
    exact hwords
  · show pool.freeBlocks + sizeToBlocks size = clearBlocks bitmap'
    have hcounted : pool.freeBlocks = clearBlocks pool.bitmap := h.counted
    rw [hcounted]
    refine clearBlocks_run hlen.symm ⟨by rw [hlen]; exact hfit, fun k h1 h2 => ?_⟩ ?_
    · rw [hbits, if_pos ⟨h1, h2⟩]
    · intro k
      rw [hbits]
      by_cases hk : s ≤ k ∧ k < s + sizeToBlocks size
      · rw [if_pos hk]
        exact hrun k hk.1 hk.2
      · rw [if_neg hk, if_neg hk]
  · show (if s / 32 < pool.nextNonFull then s / 32 else pool.nextNonFull) = _
    split
    · omega
    · omega

end MysqlBench.Fio
