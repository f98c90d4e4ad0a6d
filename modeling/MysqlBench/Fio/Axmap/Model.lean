import MysqlBench.Fio.Ffz
import MysqlBench.Lib.Bitmap

/-!
# `lib/axmap.c` — the bitmap of bitmaps

Each layer is 64 times smaller than the one below it; a set bit at layer `i + 1` says that a
word of layer `i` is full. This file is the code, function by function: the walks over the
layers (`axmap_handler`, bottom up, and `axmap_handler_topdown`), the callbacks they are given,
and the two free-bit searches. Words are 64-bit longs (`UNIT_SHIFT` is 6), `unsigned int`
counters and `uint64_t` bit numbers are naturals with the wrap written out where the code can
reach it.

A word read outside a map answers zero here and is undefined in C. A walk over a bit number of
the map stays inside its maps (`Axmap/Hierarchy.lean`); which calls do not is a question of its
own (`Axmap/Bounds.lean`).
-/

namespace MysqlBench.Fio

open MysqlBench.Lib

def noFree : Nat := 2 ^ 64 - 1

structure AxmapLevel where
  level : Nat
  map : List Ulong
deriving Repr, DecidableEq

structure Axmap where
  levels : List AxmapLevel
  firstFree : Nat
  nrBits : Nat
deriving Repr, DecidableEq

def firstfreeValid (axmap : Axmap) : Bool := axmap.firstFree != noFree

def ulog64 : Nat → Nat → Nat
  | val, 0 => val
  | val, log + 1 => if val = 0 then val else ulog64 (val >>> 6) log

/-! ## Creation and reset -/

def axmapReset (axmap : Axmap) : Axmap :=
  { axmap with
    levels := axmap.levels.map fun al => { al with map := List.replicate al.map.length 0#64 }
    firstFree := 0 }

/-- The level count of `axmap_new`: `while (i > 1) { i = (i + 63) >> 6; levels++; }`. The fuel
is `i` itself, which every round makes smaller. -/
def countLevels : Nat → Nat → Nat → Nat
  | 0, _, levels => levels
  | fuel + 1, i, levels =>
      if 1 < i then countLevels fuel ((i + 63) >>> 6) (levels + 1) else levels

/-- The allocation loop of `axmap_new` for `n` levels from level `i` on. `smalloc k size` is the
answer of the `k`-th `smalloc` call; the first two are for the `axmap` and its level array. -/
def newLevels (smalloc : Nat → Nat → Bool) : Nat → Nat → Nat → Option (List AxmapLevel)
  | 0, _, _ => some []
  | n + 1, i, nrBits =>
      let mapSize := ((nrBits + 63) % 2 ^ 64) >>> 6
      if smalloc (i + 2) (mapSize * 8) then
        (newLevels smalloc n (i + 1) mapSize).map (⟨i, List.replicate mapSize 0#64⟩ :: ·)
      else none

def axmapNew (smalloc : Nat → Nat → Bool) (nrBits : Nat) : Option Axmap :=
  if smalloc 0 32 then
    let i := (((nrBits + 63) % 2 ^ 64) >>> 6) % 2 ^ 32
    match newLevels smalloc (countLevels i i 1) 0 nrBits with
    | some levels => some (axmapReset { levels := levels, firstFree := 0, nrBits := nrBits })
    | none => none
  else none

/-! ## The two walks -/

/-- What a walk calls at each level: the level, the word offset and the bit inside the word,
with the walk's data; the answer is the level afterwards, the data, and whether to stop. -/
abbrev LevelFn (δ : Type) := AxmapLevel → Nat → Nat → δ → AxmapLevel × δ × Bool

def axmapHandler {δ : Type} (func : LevelFn δ) (bitNr : Nat) :
    Nat → List AxmapLevel → δ → List AxmapLevel × δ × Bool
  | _, [], data => ([], data, false)
  | i, al :: als, data =>
      let index := ulog64 bitNr i
      let (al', data', stop) := func al (index >>> 6) (index % 64) data
      if stop then (al' :: als, data', true)
      else
        let (als', data'', ret) := axmapHandler func bitNr (i + 1) als data'
        (al' :: als', data'', ret)

def axmapHandlerTopdown (func : AxmapLevel → Nat → Nat → Bool) (bitNr : Nat)
    (levels : List AxmapLevel) : Nat → Bool
  | 0 => false
  | i + 1 =>
      let index := ulog64 bitNr i
      match levels[i]? with
      | some al => func al (index >>> 6) (index % 64) || axmapHandlerTopdown func bitNr levels i
      | none => axmapHandlerTopdown func bitNr levels i

/-! ## Clear -/

def axmapClearFn : LevelFn Unit := fun al offset bit _ =>
  if word al.map offset &&& (1#64 <<< bit) = 0#64 then (al, (), true)
  else ({ al with map := clearWord al.map offset (1#64 <<< bit) }, (), false)

def axmapClear (axmap : Axmap) (bitNr : Nat) : Axmap :=
  { axmap with levels := (axmapHandler axmapClearFn bitNr 0 axmap.levels ()).1 }

/-! ## Set -/

structure AxmapSetData where
  nrBits : Nat
  setBits : Nat
deriving Repr, DecidableEq

def bitMasks : List Ulong := [
    0x0000000000000000#64, 0x0000000000000001#64, 0x0000000000000003#64,
    0x0000000000000007#64, 0x000000000000000f#64, 0x000000000000001f#64,
    0x000000000000003f#64, 0x000000000000007f#64, 0x00000000000000ff#64,
    0x00000000000001ff#64, 0x00000000000003ff#64, 0x00000000000007ff#64,
    0x0000000000000fff#64, 0x0000000000001fff#64, 0x0000000000003fff#64,
    0x0000000000007fff#64, 0x000000000000ffff#64, 0x000000000001ffff#64,
    0x000000000003ffff#64, 0x000000000007ffff#64, 0x00000000000fffff#64,
    0x00000000001fffff#64, 0x00000000003fffff#64, 0x00000000007fffff#64,
    0x0000000000ffffff#64, 0x0000000001ffffff#64, 0x0000000003ffffff#64,
    0x0000000007ffffff#64, 0x000000000fffffff#64, 0x000000001fffffff#64,
    0x000000003fffffff#64, 0x000000007fffffff#64, 0x00000000ffffffff#64,
    0x00000001ffffffff#64, 0x00000003ffffffff#64, 0x00000007ffffffff#64,
    0x0000000fffffffff#64, 0x0000001fffffffff#64, 0x0000003fffffffff#64,
    0x0000007fffffffff#64, 0x000000ffffffffff#64, 0x000001ffffffffff#64,
    0x000003ffffffffff#64, 0x000007ffffffffff#64, 0x00000fffffffffff#64,
    0x00001fffffffffff#64, 0x00003fffffffffff#64, 0x00007fffffffffff#64,
    0x0000ffffffffffff#64, 0x0001ffffffffffff#64, 0x0003ffffffffffff#64,
    0x0007ffffffffffff#64, 0x000fffffffffffff#64, 0x001fffffffffffff#64,
    0x003fffffffffffff#64, 0x007fffffffffffff#64, 0x00ffffffffffffff#64,
    0x01ffffffffffffff#64, 0x03ffffffffffffff#64, 0x07ffffffffffffff#64,
    0x0fffffffffffffff#64, 0x1fffffffffffffff#64, 0x3fffffffffffffff#64,
    0x7fffffffffffffff#64, 0xffffffffffffffff#64]

/-- The `while (overlap)` loop of `axmap_set_fn`: drop from the mask every bit that is set
already, lowest first. -/
def dropOverlap : Nat → Ulong → Ulong → Nat → Ulong × Nat
  | 0, _, mask, nrBits => (mask, nrBits)
  | fuel + 1, overlap, mask, nrBits =>
      if overlap = 0#64 then (mask, nrBits)
      else
        let clearMask := ~~~(1#64 <<< ffz (~~~overlap))
        dropOverlap fuel (overlap &&& clearMask) (mask &&& clearMask) (nrBits - 1)

def axmapSetFn : LevelFn AxmapSetData := fun al offset bit data =>
  let nrBits := min data.nrBits (64 - bit)
  let mask := bitMasks.getD nrBits 0#64 <<< bit
  let overlap := word al.map offset &&& mask
  if overlap = mask then (al, data, true)
  else
    let (mask, nrBits) := dropOverlap 64 overlap mask nrBits
    let map := orWord al.map offset mask
    ({ al with map := map },
      { nrBits := 1, setBits := if al.level = 0 then nrBits else data.setBits },
      word map offset != BitVec.allOnes 64)

def axmapSetLoop : Nat → List AxmapLevel → Nat → Nat → AxmapSetData → Nat →
    List AxmapLevel × Nat
  | 0, levels, _, _, _, setBits => (levels, setBits)
  | fuel + 1, levels, bitNr, nrBits, data, setBits =>
      if nrBits = 0 then (levels, setBits)
      else
        let (levels', data', _) := axmapHandler axmapSetFn bitNr 0 levels data
        if data'.setBits = 0 ∨ data'.setBits ≠ usub 64 64 nrBits then
          (levels', setBits + data'.setBits)
        else
          let left := usub 32 nrBits data'.setBits
          axmapSetLoop fuel levels' (bitNr + data'.setBits) left { data' with nrBits := left }
            (setBits + data'.setBits)

/-- `__axmap_set` with `data->nr_bits = n`; the second component is `data->set_bits` on return.
`data->nr_bits` is not trimmed with the local count when the run leaves the map. -/
def axmapSet' (axmap : Axmap) (bitNr n : Nat) : Axmap × Nat :=
  let firstFree :=
    if bitNr ≤ axmap.firstFree ∧ axmap.firstFree < (bitNr + n) % 2 ^ 64 then noFree
    else axmap.firstFree
  if axmap.nrBits < bitNr then ({ axmap with firstFree := firstFree }, 0)
  else
    let nrBits := if axmap.nrBits < (bitNr + n) % 2 ^ 64 then axmap.nrBits - bitNr else n
    let (levels, setBits) := axmapSetLoop (nrBits + 1) axmap.levels bitNr nrBits ⟨n, 0⟩ 0
    ({ axmap with levels := levels, firstFree := firstFree }, setBits)

def axmapSet (axmap : Axmap) (bitNr : Nat) : Axmap := (axmapSet' axmap bitNr 1).1

/-- The `do … while (nr_bits)` loop of `axmap_set_nr`: one call of `__axmap_set` for each word
the run touches. -/
def axmapSetNrLoop : Nat → Axmap → Nat → Nat → Nat → Axmap × Nat
  | 0, axmap, _, _, setBits => (axmap, setBits)
  | fuel + 1, axmap, bitNr, nrBits, setBits =>
      let maxBits := 64 - bitNr % 64
      let thisSet := if maxBits < nrBits then maxBits else nrBits
      let (axmap', nowSet) := axmapSet' axmap bitNr thisSet
      if nowSet ≠ thisSet then (axmap', setBits + nowSet)
      else
        let left := usub 32 nrBits nowSet
        if left = 0 then (axmap', setBits + nowSet)
        else axmapSetNrLoop fuel axmap' (bitNr + nowSet) left (setBits + nowSet)

def axmapSetNr (axmap : Axmap) (bitNr nrBits : Nat) : Axmap × Nat :=
  axmapSetNrLoop (nrBits + 1) axmap bitNr nrBits 0

/-! ## Test -/

def axmapIssetFn (al : AxmapLevel) (offset bit : Nat) : Bool :=
  word al.map offset &&& (1#64 <<< bit) != 0#64

def axmapIsset (axmap : Axmap) (bitNr : Nat) : Bool :=
  if bitNr ≤ axmap.nrBits then
    axmapHandlerTopdown axmapIssetFn bitNr axmap.levels axmap.levels.length
  else false

/-! ## Searching for a free bit -/

def scanFree : Nat → List Ulong → Option Nat
  | _, [] => none
  | j, x :: xs => if x = BitVec.allOnes 64 then scanFree (j + 1) xs else some j

/-- The outer loop of `axmap_find_first_free`, over the lowest `n` levels. A level without a
free word leaves `index` and `ret` as they are. -/
def findFirstFreeLoop (levels : List AxmapLevel) : Nat → Nat → Nat → Nat
  | 0, _, ret => ret
  | i + 1, index, ret =>
      match levels[i]? with
      | none => ret
      | some al =>
          if al.map.length ≤ index then noFree
          else
            match scanFree index (al.map.drop index) with
            | none => findFirstFreeLoop levels i index ret
            | some j =>
                let free := (j <<< 6) + ffz (word al.map j)
                findFirstFreeLoop levels i free free

def axmapFindFirstFree (axmap : Axmap) (level index : Nat) : Nat :=
  let ret := findFirstFreeLoop axmap.levels (level + 1) index noFree
  if ret < axmap.nrBits then ret else noFree

def axmapFirstFree (axmap : Axmap) : Axmap × Nat :=
  if firstfreeValid axmap then (axmap, axmap.firstFree)
  else
    let free := axmapFindFirstFree axmap (axmap.levels.length - 1) 0
    ({ axmap with firstFree := free }, free)

structure AxmapNextFreeData where
  level : Nat
  offset : Nat
  bit : Nat

def axmapNextFreeFn : LevelFn AxmapNextFreeData := fun al offset _ data =>
  let mask := ~~~(bitMasks.getD ((data.bit + 1) % 64) 0#64)
  if mask &&& ~~~(word al.map offset) = 0#64 then (al, data, false)
  else if word al.map offset ≠ BitVec.allOnes 64 then
    (al, { data with level := al.level, offset := offset }, true)
  else (al, { data with bit := (data.bit + 64 - 1) / 64 }, false)

def axmapNextFree (axmap : Axmap) (bitNr : Nat) : Axmap × Nat :=
  if firstfreeValid axmap ∧ bitNr < axmap.firstFree then (axmap, axmap.firstFree)
  else
    match axmapHandler axmapNextFreeFn bitNr 0 axmap.levels ⟨2 ^ 32 - 1, 0, bitNr⟩ with
    | (_, _, false) => axmapFirstFree axmap
    | (_, data, true) =>
        let ret := axmapFindFirstFree axmap data.level data.offset
        if ret ≠ noFree then (axmap, ret) else axmapFirstFree axmap

end MysqlBench.Fio
