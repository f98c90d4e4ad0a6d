import MysqlBench.Fio.Axmap.Free
import MysqlBench.Fio.Ddir
import MysqlBench.Fio.Lfsr.Model
import Mathlib.Data.List.Perm.Subperm

/-!
# Random offsets over a random map (`io_u.c`, `filesetup.c`)

A random job draws a block number, takes the next free one instead if the file's map says that it
is in use, and marks what it takes. The draw itself is a parameter: with the tausworthe generator
it is some number below `last_block`, and nothing else about it matters, because the map alone
decides that a pass over the file takes every block once.

Sizes and offsets are `uint64_t`, block sizes `unsigned int`. A file's size is an `off_t`, so it is
below `2 ^ 63`.
-/

namespace MysqlBench.Fio

open MysqlBench.Lib

inductive RandGen where
  | tausworthe
  | lfsr
deriving Repr, DecidableEq

structure RandOptions where
  randomGenerator : RandGen
  norandommap : Bool
  softrandommap : Bool
  ba : Ddir → Nat
  minBs : Ddir → Nat
  maxBs : Ddir → Nat
  rwMinBs : Nat
  zoneRange : Nat

structure FioFile where
  fileOffset : Nat
  ioSize : Nat
  realFileSize : Nat
  ioAxmap : Option Axmap
  lfsr : FioLfsr

structure RandIoU where
  offset : Nat
  buflen : Nat
  busyOk : Bool

/-! ## The code -/

def lastBlock (o : RandOptions) (f : FioFile) (ddir : Ddir) : Nat :=
  let maxSize := if f.realFileSize < f.ioSize then f.realFileSize else f.ioSize
  let maxSize := if o.zoneRange ≠ 0 then o.zoneRange else maxSize
  maxSize / o.ba ddir

def randomMapFree (m : Axmap) (block : Nat) : Bool := !axmapIsset m block

/-- The end of `__get_next_rand_offset`, once the generator has chosen `b`. Without a map the
choice stands. -/
def takeFree (o : RandOptions) (f : FioFile) (b : Nat) : FioFile × Option Nat :=
  match o.norandommap, f.ioAxmap with
  | false, some m =>
      if randomMapFree m b then (f, some b)
      else
        let (m', b') := axmapNextFree m b
        ({ f with ioAxmap := some m' }, if b' = noFree then none else some b')
  | _, _ => (f, some b)

/-- `__get_next_rand_offset`: the answer `none` inside is its return value 1. `draw` is what the
tausworthe generator scales to `last_block`; the other generator is run for at most `fuel`
rounds. -/
def getNextRandOffset (fuel : Nat) (o : RandOptions) (f : FioFile) (ddir : Ddir) (draw : Nat) :
    Option (FioFile × Option Nat) :=
  if lastBlock o f ddir = 0 then some (f, none)
  else
    match o.randomGenerator with
    | .tausworthe => some (takeFree o f draw)
    | .lfsr =>
        match lfsrNext fuel f.lfsr with
        | none => none
        | some (lfsr, none) => some ({ f with lfsr := lfsr }, none)
        | some (lfsr, some off) => some (takeFree o { f with lfsr := lfsr } off)

def markRandomMap (o : RandOptions) (f : FioFile) (m : Axmap) (ioU : RandIoU) :
    FioFile × RandIoU :=
  let block := (ioU.offset - f.fileOffset) / o.rwMinBs
  let nrBlocks := (ioU.buflen + o.rwMinBs - 1) / o.rwMinBs % 2 ^ 32
  let (m', nrBlocks) := if ioU.busyOk then (m, nrBlocks) else axmapSetNr m block nrBlocks
  let done := nrBlocks * o.rwMinBs % 2 ^ 32
  ({ f with ioAxmap := some m' },
    { ioU with buflen := if done < ioU.buflen then done else ioU.buflen })

structure Draw where
  block : Nat
  buflen : Nat

/-- One random I/O: `get_next_block` and `__get_next_offset` turn the block into an offset,
`__get_next_buflen` answers `min_bs` where that is `max_bs` too, and `fill_io_u` marks the map.
The answer `none` inside is their return value 1. -/
def fillRandIoU (fuel : Nat) (o : RandOptions) (f : FioFile) (ddir : Ddir) (draw : Draw) :
    Option (FioFile × Option (Nat × RandIoU)) :=
  match getNextRandOffset fuel o f ddir draw.block with
  | none => none
  | some (f, none) => some (f, none)
  | some (f, some b) =>
      let offset := b * o.ba ddir % 2 ^ 64
      if f.ioSize ≤ offset then some (f, none)
      else if f.realFileSize ≤ offset + f.fileOffset then some (f, none)
      else
        let buflen := if o.minBs ddir = o.maxBs ddir then o.minBs ddir else draw.buflen
        let ioU : RandIoU := ⟨offset + f.fileOffset, buflen, false⟩
        if ioU.buflen = 0 ∨ f.realFileSize < ioU.offset + ioU.buflen then some (f, none)
        else
          match o.norandommap, f.ioAxmap with
          | false, some m =>
              let (f, ioU) := markRandomMap o f m ioU
              some (f, some (b, ioU))
          | _, _ => some (f, some (b, ioU))

def fillRandIoUs (fuel : Nat) (o : RandOptions) (ddir : Ddir) :
    List Draw → FioFile → Option (List Nat × FioFile)
  | [], f => some ([], f)
  | draw :: draws, f =>
      match fillRandIoU fuel o f ddir draw with
      | some (f', some (b, _)) =>
          (fillRandIoUs fuel o ddir draws f').map fun (bs, f'') => (b :: bs, f'')
      | _ => none

def mapBlocks (o : RandOptions) (f : FioFile) : Nat := min f.realFileSize f.ioSize / o.rwMinBs

def initRandomMap (smalloc : Nat → Nat → Bool) (o : RandOptions) (seed : BitVec 64)
    (f : FioFile) : FioFile × Nat :=
  let failed := if o.softrandommap then 0 else 1
  match o.randomGenerator with
  | .lfsr =>
      let (lfsr, ret) := lfsrInit f.lfsr (mapBlocks o f) seed 0
      ({ f with lfsr := lfsr }, if ret = 0 then 0 else failed)
  | .tausworthe =>
      if o.norandommap then (f, 0)
      else
        match axmapNew smalloc (mapBlocks o f) with
        | some m => ({ f with ioAxmap := some m }, 0)
        | none => ({ f with ioAxmap := none }, failed)

def fioFileReset (o : RandOptions) (seed : BitVec 64) (f : FioFile) : FioFile :=
  { f with
    ioAxmap := f.ioAxmap.map axmapReset
    lfsr := if o.randomGenerator = .lfsr then (lfsrReset f.lfsr seed).1 else f.lfsr }

/-! ## One block of a job with a fixed block size -/

/-- A job with the tausworthe generator, a random map and one block size, on a file that ends
where its size says. -/
structure FixedBlock (o : RandOptions) (ddir : Ddir) (bs : Nat) (f : FioFile) : Prop where
  generator : o.randomGenerator = .tausworthe
  map : o.norandommap = false
  zone : o.zoneRange = 0
  pos : 0 < bs
  uint : bs < 2 ^ 32
  ba : o.ba ddir = bs
  minBs : o.minBs ddir = bs
  maxBs : o.maxBs ddir = bs
  rwMinBs : o.rwMinBs = bs
  fits : f.fileOffset + f.ioSize ≤ f.realFileSize
  size : f.realFileSize < 2 ^ 63

def Taken (n : Nat) (done : List Nat) (f : FioFile) : Prop :=
  ∃ m, f.ioAxmap = some m ∧ AxmapOk n m ∧ FirstFreeOk m ∧
    ∀ k, baseBit m.levels k = decide (k ∈ done)

section Fixed

variable {o : RandOptions} {ddir : Ddir} {bs : Nat} {f : FioFile}

variable {b : Nat} {done : List Nat}

theorem FixedBlock.withMap (h : FixedBlock o ddir bs f) (m : Option Axmap) :
    FixedBlock o ddir bs { f with ioAxmap := m } :=
  ⟨h.generator, h.map, h.zone, h.pos, h.uint, h.ba, h.minBs, h.maxBs, h.rwMinBs, h.fits, h.size⟩

theorem FixedBlock.lastBlock_eq (h : FixedBlock o ddir bs f) :
    lastBlock o f ddir = f.ioSize / bs := by
  have := h.fits
  unfold lastBlock
  rw [if_neg (by omega), h.zone, h.ba]
  rfl

theorem FixedBlock.mapBlocks_eq (h : FixedBlock o ddir bs f) : mapBlocks o f = f.ioSize / bs := by
  have := h.fits
  unfold mapBlocks
  rw [h.rwMinBs, Nat.min_eq_right (by omega)]

theorem FixedBlock.blocks_lt (h : FixedBlock o ddir bs f) : f.ioSize / bs + 63 < 2 ^ 64 := by
  have h1 := h.fits
  have h2 := h.size
  have := Nat.div_le_self f.ioSize bs
  omega

theorem block_fits (hb : b < f.ioSize / bs) : b * bs + bs ≤ f.ioSize := by
  calc b * bs + bs = (b + 1) * bs := by rw [Nat.add_mul, Nat.one_mul]
    _ ≤ f.ioSize / bs * bs := Nat.mul_le_mul_right bs hb
    _ ≤ f.ioSize := Nat.div_mul_le_self _ _

theorem axmapSetNr_one (m : Axmap) (b : Nat) : (axmapSetNr m b 1).1 = axmapSet m b := by
  have hone : (if 64 - b % 64 < 1 then 64 - b % 64 else 1) = 1 := by
    rw [if_neg (by omega)]
  unfold axmapSetNr axmapSet
  rw [axmapSetNrLoop]
  dsimp only
  rw [hone]
  split
  · rfl
  · rename_i hset
    rw [not_not.mp hset, show usub 32 1 1 = 0 from rfl, if_pos rfl]

theorem takeFree_spec {n : Nat} (h : FixedBlock o ddir bs f)
    (hlt : n + 63 < 2 ^ 64) (ht : Taken n done f) (hb : b < n) :
    ∃ m, Taken n done { f with ioAxmap := some m } ∧
      ((∃ c, c < n ∧ c ∉ done ∧ takeFree o f b = ({ f with ioAxmap := some m }, some c)) ∨
        ((∀ c, c < n → c ∈ done) ∧ takeFree o f b = ({ f with ioAxmap := some m }, none))) := by
  obtain ⟨m, hm, hok, hff, hbase⟩ := ht
  have hsame : f = { f with ioAxmap := some m } := by rw [← hm]
  unfold takeFree
  rw [h.map, hm]
  dsimp only
  rw [randomMapFree, axmapIsset_eq hok (Nat.le_of_lt hb), hbase]
  -- a block that is taken leads to the next free one, if there is one
  by_cases hmem : b ∈ done
  · rw [decide_eq_true hmem]
    obtain ⟨hlev, hbits, hff', hans⟩ := axmapNextFree_spec hok hlt hff b
    refine ⟨(axmapNextFree m b).1, ⟨_, rfl, ⟨hbits.trans hok.bits, ?_, ?_⟩, hff', ?_⟩, ?_⟩
    · rw [hlev]; exact hok.levels
    · rw [hlev]; exact hok.hier
    · rw [hlev]; exact hbase
    · rcases hans with ⟨hc, hclear⟩ | ⟨hno, hall⟩
      · refine Or.inl ⟨(axmapNextFree m b).2, hc, ?_, ?_⟩
        · rw [hbase] at hclear
          exact of_decide_eq_false hclear
        · have hne : (axmapNextFree m b).2 ≠ noFree := by
            have : noFree = 2 ^ 64 - 1 := rfl
            omega
          simp [hne]
      · refine Or.inr ⟨fun c hc => ?_, by simp [hno]⟩
        have := hall c hc
        rw [hbase] at this
        exact of_decide_eq_true this
  · rw [decide_eq_false hmem]
    refine ⟨m, ⟨m, rfl, hok, hff, hbase⟩, Or.inl ⟨b, hb, hmem, ?_⟩⟩
    rw [← hsame]
    rfl

theorem markRandomMap_spec {m : Axmap} (h : FixedBlock o ddir bs f)
    (hm : f.ioAxmap = some m) (ht : Taken (f.ioSize / bs) done f) (hb : b < f.ioSize / bs) :
    ∃ ioU m', markRandomMap o f m ⟨b * bs + f.fileOffset, bs, false⟩
        = ({ f with ioAxmap := some m' }, ioU) ∧
      Taken (f.ioSize / bs) (b :: done) { f with ioAxmap := some m' } := by
  obtain ⟨m₁, hm₁, hok, hff, hbase⟩ := ht
  obtain rfl : m₁ = m := Option.some.inj (hm₁.symm.trans hm)
  have hpos := h.pos
  have hblock : (b * bs + f.fileOffset - f.fileOffset) / bs = b := by
    rw [Nat.add_sub_cancel, Nat.mul_div_cancel _ hpos]
  have hcount : (bs + bs - 1) / bs % 2 ^ 32 = 1 := by
    rw [show bs + bs - 1 = bs * 1 + (bs - 1) by omega, Nat.mul_add_div hpos,
      Nat.div_eq_of_lt (by omega)]
    exact Nat.mod_eq_of_lt (by decide)
  obtain ⟨hok', hbase'⟩ := axmapSet_ok hok h.blocks_lt hb
  unfold markRandomMap
  simp only [h.rwMinBs, hblock, hcount, Bool.false_eq_true, if_false, axmapSetNr_one]
  refine ⟨_, axmapSet m₁ b, rfl, ?_⟩
  refine ⟨_, rfl, hok', axmapSet_cache hok h.blocks_lt hb hff, fun k => ?_⟩
  rw [hbase', hbase, Bool.or_comm, Bool.eq_iff_iff]
  simp

theorem FixedBlock.getNextRandOffset_eq (h : FixedBlock o ddir bs f) (fuel : Nat)
    (hb : b < f.ioSize / bs) :
    getNextRandOffset fuel o f ddir b = some (takeFree o f b) := by
  unfold getNextRandOffset
  rw [h.lastBlock_eq, if_neg (by omega), h.generator]

/-- **One I/O.** While a block is left, any draw takes one that was not taken. -/
theorem fillRandIoU_takes {draw : Draw} (fuel : Nat)
    (h : FixedBlock o ddir bs f) (ht : Taken (f.ioSize / bs) done f)
    (hleft : ∃ c, c < f.ioSize / bs ∧ c ∉ done) (hd : draw.block < f.ioSize / bs) :
    ∃ b ioU m, b < f.ioSize / bs ∧ b ∉ done ∧
      fillRandIoU fuel o f ddir draw = some ({ f with ioAxmap := some m }, some (b, ioU)) ∧
      Taken (f.ioSize / bs) (b :: done) { f with ioAxmap := some m } := by
  obtain ⟨m, ht', ⟨b, hb, hnew, htake⟩ | ⟨hall, -⟩⟩ := takeFree_spec h h.blocks_lt ht hd
  · obtain ⟨ioU, m', hmark, ht''⟩ := markRandomMap_spec (h.withMap (some m)) rfl ht' hb
    have hfit := block_fits hb
    have h1 := h.fits
    have h2 := h.size
    have h3 := h.pos
    refine ⟨b, ioU, m', hb, hnew, ?_, ht''⟩
    unfold fillRandIoU
    rw [h.getNextRandOffset_eq fuel hd, htake]
    dsimp only
    rw [h.ba, h.minBs, h.maxBs, if_pos rfl, Nat.mod_eq_of_lt (show b * bs < 2 ^ 64 by omega),
      if_neg (by omega), if_neg (by omega), if_neg (by omega), h.map]
    dsimp only
    rw [hmark]
  · obtain ⟨c, hc, hnew⟩ := hleft
    exact absurd (hall c hc) hnew

/-- **The end of a pass.** With every block taken, `__get_next_rand_offset` returns 1. -/
theorem getNextRandOffset_full (fuel : Nat)
    (h : FixedBlock o ddir bs f) (ht : Taken (f.ioSize / bs) done f)
    (hall : ∀ c, c < f.ioSize / bs → c ∈ done) (hb : lastBlock o f ddir = 0 ∨ b < lastBlock o f ddir) :
    ∃ f', getNextRandOffset fuel o f ddir b = some (f', none) := by
  rcases hb with h0 | hb
  · exact ⟨f, by rw [getNextRandOffset, if_pos h0]⟩
  · rw [h.lastBlock_eq] at hb
    rw [h.getNextRandOffset_eq fuel hb]
    obtain ⟨m, -, ⟨c, hc, hnew, -⟩ | ⟨-, htake⟩⟩ := takeFree_spec h h.blocks_lt ht hb
    · exact absurd (hall c hc) hnew
    · exact ⟨_, congrArg some htake⟩

/-! ## A pass over the file -/

/-- The induction is on the draws; the blocks taken so far and those still to come are different
numbers below the number of blocks. -/
theorem fillRandIoUs_takes (fuel : Nat) : ∀ (draws : List Draw) {done : List Nat} {f : FioFile},
    FixedBlock o ddir bs f → Taken (f.ioSize / bs) done f → done.Nodup →
    (∀ c ∈ done, c < f.ioSize / bs) → done.length + draws.length ≤ f.ioSize / bs →
    (∀ d ∈ draws, d.block < f.ioSize / bs) →
    ∃ out f', fillRandIoUs fuel o ddir draws f = some (out, f') ∧
      out.length = draws.length ∧ (out.reverse ++ done).Nodup ∧
      (∀ c ∈ out, c < f.ioSize / bs) ∧ FixedBlock o ddir bs f' ∧ f'.ioSize = f.ioSize ∧
      Taken (f.ioSize / bs) (out.reverse ++ done) f' := by
  intro draws
  induction draws with
  | nil =>
    intro done f h ht hnd _ _ _
    exact ⟨[], f, rfl, rfl, hnd, by simp, h, rfl, ht⟩
  | cons d draws ih =>
    intro done f h ht hnd hlt hlen hdraws
    -- fewer blocks are taken than there are
    have hleft : ∃ c, c < f.ioSize / bs ∧ c ∉ done := by
      by_contra hno
      push Not at hno
      have hsub : List.range (f.ioSize / bs) ⊆ done := fun c hc => hno c (List.mem_range.mp hc)
      have := (List.subperm_of_subset List.nodup_range hsub).length_le
      simp only [List.length_range, List.length_cons] at this hlen
      omega
    obtain ⟨b, ioU, m, hb, hnew, hfill, ht'⟩ :=
      fillRandIoU_takes fuel h ht hleft (hdraws d (by simp))
    obtain ⟨out, f', hrun, hl, hnd', hlt', h', hsize, ht''⟩ := ih (h.withMap (some m)) ht'
      (List.nodup_cons.mpr ⟨hnew, hnd⟩)
      (fun c hc => by
        rcases List.mem_cons.mp hc with rfl | hc
        · exact hb
        · exact hlt c hc)
      (by simp only [List.length_cons] at hlen ⊢; omega)
      (fun d' hd' => hdraws d' (by simp [hd']))
    refine ⟨b :: out, f', ?_, by simp [hl], ?_, ?_, h', hsize, ?_⟩
    · rw [fillRandIoUs, hfill]
      simp only [hrun, Option.map_some]
    · simpa using hnd'
    · intro c hc
      rcases List.mem_cons.mp hc with rfl | hc
      · exact hb
      · exact hlt' c hc
    · simpa using ht''

end Fixed

/-! ## Fresh maps -/

/-- A map of `n` bits as `axmap_new` returns it, or as `axmap_reset` leaves a map in any state
its operations can bring it to. -/
def FreshMap (n : Nat) (m : Axmap) : Prop :=
  (∃ smalloc, axmapNew smalloc n = some m) ∨ ∃ used, AxmapOk n used ∧ m = axmapReset used

variable {n : Nat} {f : FioFile} {m : Axmap} {o : RandOptions} {seed : BitVec 64}

theorem FreshMap.taken (h : FreshMap n m)
    (hm : f.ioAxmap = some m) (hpos : 0 < n) (hlt : n + 63 < 2 ^ 64) : Taken n [] f := by
  rcases h with ⟨smalloc, hnew⟩ | ⟨used, hok, rfl⟩
  · obtain ⟨hok, hff, hempty⟩ := axmapNew_spec hlt hnew
    refine ⟨m, hm, hok, Or.inr ⟨?_, hempty _⟩, fun k => by simp [hempty k]⟩
    rw [hff, hok.bits]
    exact hpos
  · exact ⟨_, hm, axmapReset_ok hok, axmapReset_cache hok hpos, fun k => by
      simp [baseBit_axmapReset]⟩

theorem initRandomMap_fresh {smalloc : Nat → Nat → Bool} (hgen : o.randomGenerator = .tausworthe)
    (hmap : o.norandommap = false) (hm : (initRandomMap smalloc o seed f).1.ioAxmap = some m) :
    FreshMap (mapBlocks o f) m := by
  unfold initRandomMap at hm
  rw [hgen, hmap] at hm
  cases hnew : axmapNew smalloc (mapBlocks o f) with
  | none => rw [hnew] at hm; exact absurd hm (by simp)
  | some m' =>
    rw [hnew] at hm
    obtain rfl : m' = m := by simpa using hm
    exact Or.inl ⟨smalloc, hnew⟩

theorem fioFileReset_fresh {done : List Nat} (h : Taken n done f) :
    ∃ m, (fioFileReset o seed f).ioAxmap = some m ∧ FreshMap n m := by
  obtain ⟨m, hm, hok, -⟩ := h
  exact ⟨axmapReset m, by simp [fioFileReset, hm], Or.inr ⟨m, hok, rfl⟩⟩

/-- **Random-map coverage.** From a fresh map, as many I/Os as the file has blocks take each block
once, whatever is drawn, and after them no block is found. -/
theorem random_map_coverage {o : RandOptions} {ddir : Ddir} {bs fuel : Nat} {f : FioFile}
    {m : Axmap} {draws : List Draw} (h : FixedBlock o ddir bs f) (hm : f.ioAxmap = some m)
    (hfresh : FreshMap (mapBlocks o f) m) (hlen : draws.length = f.ioSize / bs)
    (hdraws : ∀ d ∈ draws, d.block < lastBlock o f ddir) :
    ∃ out f', fillRandIoUs fuel o ddir draws f = some (out, f') ∧
      out.Perm (List.range (f.ioSize / bs)) ∧
      ∀ b, lastBlock o f' ddir = 0 ∨ b < lastBlock o f' ddir →
        ∃ f'', getNextRandOffset fuel o f' ddir b = some (f'', none) := by
  rw [h.lastBlock_eq] at hdraws
  rw [h.mapBlocks_eq] at hfresh
  rcases Nat.eq_zero_or_pos (f.ioSize / bs) with h0 | hpos
  · -- no whole block: `last_block` is zero from the start
    obtain rfl : draws = [] := List.length_eq_zero_iff.mp (hlen.trans h0)
    refine ⟨[], f, rfl, by rw [h0]; exact List.Perm.refl _, fun b _ => ⟨f, ?_⟩⟩
    rw [getNextRandOffset, if_pos (h.lastBlock_eq.trans h0)]
  · obtain ⟨out, f', hrun, hl, hnd, hlt, h', hsize, ht⟩ := fillRandIoUs_takes fuel draws h
      (hfresh.taken hm hpos h.blocks_lt) List.nodup_nil (by simp)
      (by rw [List.length_nil, hlen]; omega) hdraws
    rw [List.append_nil] at hnd ht
    have hperm : out.Perm (List.range (f.ioSize / bs)) := by
      refine (List.Nodup.subperm ((List.reverse_perm out).nodup_iff.mp hnd) fun c hc => ?_).perm_of_length_le ?_
      · exact List.mem_range.mpr (hlt c hc)
      · rw [List.length_range, hl, hlen]
    refine ⟨out, f', hrun, hperm, fun b hb => ?_⟩
    rw [← hsize] at ht hperm
    refine getNextRandOffset_full fuel h' ht (fun c hc => ?_) hb
    exact List.mem_reverse.mpr (hperm.mem_iff.mpr (List.mem_range.mpr hc))

/-- Three blocks of 4096 bytes, with the same block drawn each time. -/
theorem random_map_coverage_three :
    ∃ (m : Axmap) (out : List Nat) (f' : FioFile),
      axmapNew (fun _ _ => true) 3 = some m ∧
      fillRandIoUs 0 ⟨.tausworthe, false, false, fun _ => 4096, fun _ => 4096, fun _ => 4096,
          4096, 0⟩ .write [⟨1, 0⟩, ⟨1, 0⟩, ⟨1, 0⟩]
          ⟨0, 12288, 12288, some m, ⟨0, 0, 0, 0, 0, 0, 0, 0⟩⟩ = some (out, f') ∧
      out.Perm (List.range 3) := by
  have hnew : axmapNew (fun _ _ => true) 3 = some ⟨[⟨0, [0#64]⟩], 0, 3⟩ := by decide
  obtain ⟨out, f', hrun, hperm, -⟩ := @random_map_coverage
    ⟨.tausworthe, false, false, fun _ => 4096, fun _ => 4096, fun _ => 4096, 4096, 0⟩ .write 4096 0
    ⟨0, 12288, 12288, some ⟨[⟨0, [0#64]⟩], 0, 3⟩, ⟨0, 0, 0, 0, 0, 0, 0, 0⟩⟩ _
    [⟨1, 0⟩, ⟨1, 0⟩, ⟨1, 0⟩]
    ⟨rfl, rfl, rfl, by decide, by decide, rfl, rfl, rfl, rfl, by decide, by decide⟩ rfl
    (Or.inl ⟨fun _ _ => true, hnew⟩) rfl (by
      intro d hd
      simp only [List.mem_cons, List.not_mem_nil, or_false, or_self] at hd
      subst hd
      decide)
  exact ⟨_, out, f', hnew, hrun, hperm⟩

end MysqlBench.Fio
