import MysqlBench.Fio.Ffz
import MysqlBench.Lib.Bitmap
import MysqlBench.Lib.Bytes

/-!
# `smalloc.c` — the shared-memory allocator

A pool is a mapping cut into blocks of 32 bytes with one bit each, 32 to a word; `nr_blocks` of
the code is the number of words. An allocation is a run of blocks that starts with a header (the
rounded size and a redzone word) and ends with a redzone word. Freeing finds the run again from
the pointer and the size in the header.

An assertion that fails is the error `assert`; `fuel` marks a loop that has not ended within its
bound, and no run reaches it. A shift by more than the word has any value, given by `wild`; `ffz` is
the portable one of `lib/ffz.h`.
-/

namespace MysqlBench.Fio

open MysqlBench.Lib

abbrev Uint := BitVec 32

inductive SFail where
  | assert
  | fuel
deriving Repr, DecidableEq

abbrev Wild := Nat → Nat → Uint

/-- `struct pool`, without its lock; `nr_blocks` is the length of `bitmap`. -/
structure Pool where
  map : Nat
  bitmap : List Uint
  freeBlocks : Nat
  nextNonFull : Nat
deriving DecidableEq

def ptrValid (pool : Pool) (ptr : Nat) : Bool :=
  decide (pool.map ≤ ptr ∧ ptr < pool.map + pool.bitmap.length * 1024 % 2 ^ 32)

def sizeToBlocks (size : Nat) : Nat := (size + 32 - 1) / 32

/-! ## The bitmap -/

abbrev MaskFn := Uint → Uint → Except SFail (Bool × Uint)

def maskCmp : MaskFn := fun map mask => .ok (decide (map &&& mask = 0#32), map)

def maskClear : MaskFn := fun map mask =>
  if map &&& mask = mask then .ok (true, map &&& ~~~mask) else .error .assert

def maskSet : MaskFn := fun map mask =>
  if map &&& mask = 0#32 then .ok (true, map ||| mask) else .error .assert

def blockMask (wild : Wild) (thisBlocks idx : Nat) : Uint :=
  if thisBlocks = 32 then BitVec.allOnes 32
  else if thisBlocks < 32 ∧ idx < 32 then ((1#32 <<< thisBlocks) - 1#32) <<< idx
  else wild thisBlocks idx

/-- The loop of `blocks_iter`. `this_blocks` and `idx` are `unsigned int`, `nr_blocks` is a
`size_t`: where `idx` is past the word, `this_blocks` wraps and `nr_blocks` after it. -/
def blocksIterLoop (wild : Wild) (func : MaskFn) :
    Nat → List Uint → Nat → Nat → Nat → Except SFail (Bool × List Uint)
  | 0, _, _, _, _ => .error .fuel
  | fuel + 1, bitmap, poolIdx, idx, nrBlocks =>
      if nrBlocks = 0 then .ok (true, bitmap)
      else if bitmap.length ≤ poolIdx then .ok (false, bitmap)
      else
        let thisBlocks := nrBlocks % 2 ^ 32
        let thisBlocks := if 32 < (thisBlocks + idx) % 2 ^ 32 then usub 32 32 idx else thisBlocks
        match func (word bitmap poolIdx) (blockMask wild thisBlocks idx) with
        | .error e => .error e
        | .ok (false, w) => .ok (false, bitmap.set poolIdx w)
        | .ok (true, w) =>
            blocksIterLoop wild func fuel (bitmap.set poolIdx w) (poolIdx + 1) 0
              (usub 64 nrBlocks thisBlocks)

def blocksIter (wild : Wild) (func : MaskFn) (bitmap : List Uint) (poolIdx idx nrBlocks : Nat) :
    Except SFail (Bool × List Uint) :=
  blocksIterLoop wild func (bitmap.length + 1) bitmap poolIdx idx nrBlocks

def findNextZero (w : Uint) (start : Nat) : Except SFail Nat :=
  if w = BitVec.allOnes 32 then .error .assert
  else .ok (ffz ((w.sshiftRight start).signExtend 64) + start)

/-- The search loop of `__smalloc_pool`, from word `i` and bit `last_idx` on: the pool afterwards
and the offset of the run that was set. The bitmap stays the one of the pool until then. -/
def smallocSearch (wild : Wild) (nrBlocks : Nat) :
    Nat → Pool → Nat → Nat → Except SFail (Pool × Option Nat)
  | 0, _, _, _ => .error .fuel
  | fuel + 1, pool, i, lastIdx =>
      if pool.bitmap.length ≤ i then .ok (pool, none)
      else if word pool.bitmap i = BitVec.allOnes 32 then
        smallocSearch wild nrBlocks fuel { pool with nextNonFull := i + 1 } (i + 1) 0
      else
        match findNextZero (word pool.bitmap i) lastIdx with
        | .error e => .error e
        | .ok idx =>
            match blocksIter wild maskCmp pool.bitmap i idx nrBlocks with
            | .error e => .error e
            | .ok (true, _) =>
                match blocksIter wild maskSet pool.bitmap i idx nrBlocks with
                | .error e => .error e
                | .ok (_, bitmap) =>
                    .ok ({ pool with bitmap := bitmap }, some ((i * 1024 + idx * 32) % 2 ^ 32))
            | .ok (false, _) =>
                let idx := (idx + nrBlocks) % 2 ^ 32
                if idx < 32 then smallocSearch wild nrBlocks fuel pool i idx
                else smallocSearch wild nrBlocks fuel pool (i + idx / 32) 0

/-- `__smalloc_pool`: the pool afterwards and the address of the run. Every round of the search
moves on by a bit. -/
def smallocPoolRaw (wild : Wild) (pool : Pool) (size : Nat) : Except SFail (Pool × Option Nat) :=
  let nrBlocks := sizeToBlocks size
  if pool.freeBlocks < nrBlocks then .ok (pool, none)
  else
    match smallocSearch wild nrBlocks (32 * pool.bitmap.length + 1) pool pool.nextNonFull 0 with
    | .error e => .error e
    | .ok (pool, none) => .ok (pool, none)
    | .ok (pool, some offset) =>
        .ok ({ pool with freeBlocks := pool.freeBlocks - nrBlocks }, some (pool.map + offset))

/-! ## Headers and redzones

`struct block_hdr` is 16 bytes: `size` at 0 and `prered` at 8. -/

def smallocPreRed : Nat := 0xdeadbeef

def smallocPostRed : Nat := 0x5aa55aa5

def alignInt (x : Nat) : Nat := (x + 3) / 4 * 4

def postredPtr (mem : Mem) (hdr : Nat) : Nat := alignInt (hdr + loadLE mem hdr 8 - 4)

def fillRedzone (mem : Mem) (hdr : Nat) : Mem :=
  storeLE (storeLE mem (hdr + 8) 4 smallocPreRed) (postredPtr mem hdr) 4 smallocPostRed

def allocSize (size : Nat) : Nat := alignInt (size + 16 + 4)

def smallocPool (wild : Wild) (mem : Mem) (pool : Pool) (size : Nat) :
    Except SFail (Mem × Pool × Option Nat) :=
  match smallocPoolRaw wild pool (allocSize size) with
  | .error e => .error e
  | .ok (pool, none) => .ok (mem, pool, none)
  | .ok (pool, some hdr) =>
      let mem := fillRedzone (storeLE mem hdr 8 (allocSize size)) hdr
      .ok (store mem (hdr + 16) (List.replicate size 0#8), pool, some (hdr + 16))

def sfreeCheckRedzone (mem : Mem) (hdr : Nat) : Except SFail Unit :=
  if loadLE mem (hdr + 8) 4 ≠ smallocPreRed then .error .assert
  else if loadLE mem (postredPtr mem hdr) 4 ≠ smallocPostRed then .error .assert
  else .ok ()

def sfreePool (wild : Wild) (mem : Mem) (pool : Pool) (ptr : Nat) : Except SFail Pool :=
  let hdr := ptr - 16
  if ¬ ptrValid pool hdr then .error .assert
  else
    match sfreeCheckRedzone mem hdr with
    | .error e => .error e
    | .ok () =>
        let offset := hdr - pool.map
        let i := offset / 1024 % 2 ^ 32
        let idx := offset % 1024 / 32
        let nrBlocks := sizeToBlocks (loadLE mem hdr 8)
        match blocksIter wild maskClear pool.bitmap i idx nrBlocks with
        | .error e => .error e
        | .ok (_, bitmap) =>
            .ok { pool with
              bitmap := bitmap
              nextNonFull := if i < pool.nextNonFull then i else pool.nextNonFull
              freeBlocks := pool.freeBlocks + nrBlocks }

/-! ## The allocator -/

/-- The pools in use (`mp[0..nr_pools)`), `last_pool`, and the memory they are mapped in. -/
structure Smalloc where
  pools : List Pool
  lastPool : Nat
  mem : Mem

/-- What the system answers to one `add_pool`: the address `mmap` returns, and whether
`fio_mutex_init` succeeds. -/
structure PoolEnv where
  mmap : Option Nat
  mutexOk : Bool

/-- The words of a pool that `add_pool` makes for `alloc_size` bytes: header and redzone are added,
`INITIAL_SIZE` is the least, and the sum is rounded up to whole words, all as `unsigned int`. -/
def poolWords (size : Nat) : Nat :=
  let allocSize := (size + 4 + 16) % 2 ^ 32
  let allocSize := if allocSize < 8192 * 1024 then 8192 * 1024 else allocSize
  (allocSize + 1024 - 1) / 1024 * 1024 % 2 ^ 32 / 1024

def poolMmapSize (size : Nat) : Nat := (poolWords size * 1024 + poolWords size * 4) % 2 ^ 32

def addPool (env : PoolEnv) (mem : Mem) (size : Nat) : Option (Mem × Pool) :=
  match env.mmap, env.mutexOk with
  | some base, true =>
      some (store mem base (List.replicate (poolMmapSize size) 0#8),
        ⟨base, List.replicate (poolWords size) 0#32, poolWords size * 32, 0⟩)
  | _, _ => none

def smallocFor (wild : Wild) (size : Nat) :
    Mem → Nat → List Pool → Except SFail (Mem × List Pool × Option (Nat × Nat))
  | mem, _, [] => .ok (mem, [], none)
  | mem, i, pool :: pools =>
      match smallocPool wild mem pool size with
      | .error e => .error e
      | .ok (mem, pool, some ptr) => .ok (mem, pool :: pools, some (i, ptr))
      | .ok (mem, pool, none) =>
          match smallocFor wild size mem (i + 1) pools with
          | .error e => .error e
          | .ok (mem, pools, res) => .ok (mem, pool :: pools, res)

/-- The outer loop of `smalloc`, from pool `i` on: when no pool has room, `last_pool` is cleared
and a pool is added, as often as the system allows. After `continue` the loop over the pools has
nothing left to do, because `i` has reached `nr_pools`. -/
def smallocLoop (wild : Wild) (size : Nat) :
    List PoolEnv → Smalloc → Nat → Except SFail (Smalloc × Option Nat)
  | envs, st, i =>
      match smallocFor wild size st.mem i (st.pools.drop i) with
      | .error e => .error e
      | .ok (mem, pools, some (k, ptr)) => .ok (⟨st.pools.take i ++ pools, k, mem⟩, some ptr)
      | .ok (mem, pools, none) =>
          let st : Smalloc := ⟨st.pools.take i ++ pools, 0, mem⟩
          if 128 < st.pools.length + 1 then .ok (st, none)
          else
            match envs with
            | [] => .ok (st, none)
            | env :: envs =>
                match addPool env st.mem size with
                | none => .ok (st, none)
                | some (mem, pool) =>
                    smallocLoop wild size envs
                      { st with pools := st.pools ++ [pool], mem := mem } st.pools.length

def smalloc (wild : Wild) (envs : List PoolEnv) (st : Smalloc) (size : Nat) :
    Except SFail (Smalloc × Option Nat) :=
  if 2 ^ 32 ≤ size then .ok (st, none) else smallocLoop wild size envs st st.lastPool

def sfree (wild : Wild) (st : Smalloc) (ptr : Nat) : Except SFail Smalloc :=
  match st.pools.findIdx? (ptrValid · ptr) with
  | none => .error .assert
  | some i =>
      match st.pools[i]? with
      | none => .error .assert
      | some pool =>
          match sfreePool wild st.mem pool ptr with
          | .error e => .error e
          | .ok pool => .ok { st with pools := st.pools.set i pool }

def sinit (env : PoolEnv) (mem : Mem) : Except SFail Smalloc :=
  match addPool env mem (8192 * 1024) with
  | none => .error .assert
  | some (mem, pool) => .ok ⟨[pool], 0, mem⟩

end MysqlBench.Fio
