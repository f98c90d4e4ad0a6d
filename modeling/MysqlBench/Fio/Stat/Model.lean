import MysqlBench.Lib.Bytes
import Mathlib

/-!
# `stat.c` — statistics of a thread

`struct thread_stat` and the code that fills, merges and resets it. Members of one type are a
function from their names. Means and sums of squares are numbers of a type `R` with the operations
the code uses, so that results which do not depend on how a `double` rounds can say so.
-/

namespace MysqlBench.Fio

open MysqlBench.Lib

/-! ## Structures -/

structure IoStat (R : Type) where
  maxVal : BitVec 64
  minVal : BitVec 64
  samples : BitVec 64
  mean : R
  S : R
deriving Repr, DecidableEq

inductive TsStr
  | name | verror | description
deriving Repr, DecidableEq

inductive TsU32
  | error | threadNumber | groupid | pid | members | unifiedRwRep | firstError | kbBase | unitBase
  | latencyDepth
deriving Repr, DecidableEq

inductive TsU64
  | usrTime | sysTime | ctx | minf | majf | clatPercentiles | percentilePrecision | totalSubmit
  | totalComplete | totalRunTime | totalErrCount | latencyTarget | latencyWindow
deriving Repr, DecidableEq

inductive TsMap
  | ioUMap | ioUSubmit | ioUComplete
deriving Repr, DecidableEq

inductive TsDir
  | totalIoU | shortIoU | ioBytes | runtime
deriving Repr, DecidableEq

inductive TsStat
  | clat | slat | lat | bw | iops
deriving Repr, DecidableEq

structure ThreadStat (R : Type) where
  str : TsStr → List Byte
  u32 : TsU32 → BitVec 32
  u64 : TsU64 → BitVec 64
  continueOnError : BitVec 16
  stat : TsStat → Fin 3 → IoStat R
  percentileList : Fin 20 → R
  latencyPercentile : R
  map : TsMap → Fin 7 → BitVec 32
  latU : Fin 10 → BitVec 32
  latM : Fin 12 → BitVec 32
  plat : Fin 3 → Fin 1216 → BitVec 32
  dir : TsDir → Fin 3 → BitVec 64

def bump {n : Nat} (a : Fin n → BitVec 32) (i : Fin n) (x : BitVec 32) : Fin n → BitVec 32 :=
  Function.update a i (a i + x)

section Arith

variable {R : Type} [Zero R]

def resetIoStat : IoStat R := ⟨0, 0, 0, 0, 0⟩

def initIoStat : IoStat R := ⟨0, BitVec.allOnes 64, 0, 0, 0⟩

def initThreadStat : ThreadStat R where
  str _ := []
  u32 f := if f = .groupid then BitVec.allOnes 32 else 0
  u64 _ := 0
  continueOnError := 0
  stat k _ := if k = .iops then resetIoStat else initIoStat
  percentileList _ := 0
  latencyPercentile := 0
  map _ _ := 0
  latU _ := 0
  latM _ := 0
  plat _ _ := 0
  dir _ _ := 0

/-- `reset_io_stats`. The counters are cleared in one loop over the entries of the smallest array. -/
def resetIoStats (ts : ThreadStat R) : ThreadStat R :=
  { ts with
    stat := fun _ _ => resetIoStat
    dir := fun _ _ => 0
    plat := fun _ _ => 0
    map := fun _ _ => 0
    latU := fun i => if i.val < 7 then 0 else ts.latU i
    latM := fun i => if i.val < 7 then 0 else ts.latM i
    u64 := fun f => if f = .totalSubmit ∨ f = .totalComplete then 0 else ts.u64 f }

/-! ## Samples -/

variable [One R] [Add R] [Sub R] [Mul R] [Div R] [NatCast R] [DecidableEq R]

def addStatSample (is : IoStat R) (data : BitVec 64) : IoStat R :=
  let val : R := data.toNat
  let maxVal := if is.maxVal < data then data else is.maxVal
  let minVal := if data < is.minVal then data else is.minVal
  let delta := val - is.mean
  if delta = 0 then { is with maxVal := maxVal, minVal := minVal, samples := is.samples + 1 }
  else
    let mean := is.mean + delta / ((is.samples.toNat : R) + 1)
    ⟨maxVal, minVal, is.samples + 1, mean, is.S + delta * (val - mean)⟩

def addSample (k : TsStat) (ts : ThreadStat R) (d : Fin 3) (data : BitVec 64) : ThreadStat R :=
  { ts with
    stat := Function.update ts.stat k
      (Function.update (ts.stat k) d (addStatSample (ts.stat k d) data)) }

def platValToIdx (val : Nat) : Nat :=
  let msb := Nat.log2 val
  if msb ≤ 6 then val
  else
    let errorBits := msb - 6
    let base := (errorBits + 1) <<< 6
    let offset := 63 &&& (val >>> errorBits)
    if base + offset < 1215 then base + offset else 1215

def addClatPercentileSample (ts : ThreadStat R) (usec : BitVec 64) (d : Fin 3) : ThreadStat R :=
  if h : platValToIdx (usec.toNat % 2 ^ 32) < 1216 then
    { ts with plat := Function.update ts.plat d (bump (ts.plat d) ⟨_, h⟩ 1) }
  else ts

def addClatSample (ts : ThreadStat R) (d : Fin 3) (usec : BitVec 64) : ThreadStat R :=
  let ts := addSample .clat ts d usec
  if ts.u64 .clatPercentiles = 0 then ts else addClatPercentileSample ts usec d

def addSlatSample (ts : ThreadStat R) (d : Fin 3) (usec : BitVec 64) : ThreadStat R :=
  addSample .slat ts d usec

def addLatSample (ts : ThreadStat R) (d : Fin 3) (usec : BitVec 64) : ThreadStat R :=
  addSample .lat ts d usec

def addBwSample (ts : ThreadStat R) (d : Fin 3) (rate : BitVec 64) : ThreadStat R :=
  addSample .bw ts d rate

/-! ## Counters -/

def markMapIdx (nr : Nat) : Fin 7 :=
  if nr = 0 then 0 else if nr ≤ 4 then 1 else if nr ≤ 8 then 2 else if nr ≤ 16 then 3
  else if nr ≤ 32 then 4 else if nr ≤ 64 then 5 else 6

def depthIdx (curDepth : Nat) : Fin 7 :=
  if curDepth = 0 then 6 else if curDepth = 1 then 0 else if curDepth ≤ 3 then 1
  else if curDepth ≤ 7 then 2 else if curDepth ≤ 15 then 3 else if curDepth ≤ 31 then 4
  else if curDepth ≤ 63 then 5 else 6

def latUsecIdx (usec : Nat) : Fin 10 :=
  if usec ≤ 1 then 0 else if usec ≤ 3 then 1 else if usec ≤ 9 then 2 else if usec ≤ 19 then 3
  else if usec ≤ 49 then 4 else if usec ≤ 99 then 5 else if usec ≤ 249 then 6
  else if usec ≤ 499 then 7 else if usec ≤ 749 then 8 else 9

def latMsecIdx (msec : Nat) : Fin 12 :=
  if msec ≤ 1 then 0 else if msec ≤ 3 then 1 else if msec ≤ 9 then 2 else if msec ≤ 19 then 3
  else if msec ≤ 49 then 4 else if msec ≤ 99 then 5 else if msec ≤ 249 then 6
  else if msec ≤ 499 then 7 else if msec ≤ 749 then 8 else if msec ≤ 999 then 9
  else if msec ≤ 1999 then 10 else 11

def bumpMap (k : TsMap) (ts : ThreadStat R) (i : Fin 7) (x : BitVec 32) : ThreadStat R :=
  { ts with map := Function.update ts.map k (bump (ts.map k) i x) }

def bumpU64 (f : TsU64) (ts : ThreadStat R) : ThreadStat R :=
  { ts with u64 := Function.update ts.u64 f (ts.u64 f + 1) }

def ioUMarkSubmit (ts : ThreadStat R) (nr : BitVec 32) : ThreadStat R :=
  bumpU64 .totalSubmit (bumpMap .ioUSubmit ts (markMapIdx nr.toNat) 1)

def ioUMarkComplete (ts : ThreadStat R) (nr : BitVec 32) : ThreadStat R :=
  bumpU64 .totalComplete (bumpMap .ioUComplete ts (markMapIdx nr.toNat) 1)

def ioUMarkDepth (ts : ThreadStat R) (curDepth nr : BitVec 32) : ThreadStat R :=
  bumpMap .ioUMap ts (depthIdx curDepth.toNat) nr

def ioUMarkLatency (ts : ThreadStat R) (usec : BitVec 64) : ThreadStat R :=
  if usec.toNat < 1000 then { ts with latU := bump ts.latU (latUsecIdx usec.toNat) 1 }
  else { ts with latM := bump ts.latM (latMsecIdx (usec.toNat / 1000)) 1 }

/-! ## Merging -/

def sumStat (nr : Nat) (dst src : IoStat R) : IoStat R :=
  if src.samples = 0 then dst
  else
    let minVal := if src.minVal < dst.minVal then src.minVal else dst.minVal
    let maxVal := if dst.maxVal < src.maxVal then src.maxVal else dst.maxVal
    if nr = 1 then ⟨maxVal, minVal, dst.samples + src.samples, src.mean, src.S⟩
    else
      let delta := src.mean - dst.mean
      let total : R := (dst.samples + src.samples).toNat
      let mean := (src.mean * (src.samples.toNat : R) + dst.mean * (dst.samples.toNat : R)) / total
      let S := src.S + dst.S + delta * delta * ((dst.samples * src.samples).toNat : R) / total
      ⟨maxVal, minVal, dst.samples + src.samples, mean, S⟩

/-- A loop over the directions that adds `src[l]` to `dst[l]`, or to `dst[0]` if the directions are
reported together. -/
def foldDirs {V : Type} (unified : Bool) (add : V → V → V) (dst src : Fin 3 → V) : Fin 3 → V :=
  [0, 1, 2].foldl (fun dst l =>
    let t := if unified then 0 else l
    Function.update dst t (add (dst t) (src l))) dst

def sumThreadStats (dst src : ThreadStat R) (nr : Nat) : ThreadStat R :=
  let unified : Bool := dst.u32 .unifiedRwRep ≠ 0
  { dst with
    stat := fun k => if k = .iops then dst.stat k
      else foldDirs unified (sumStat nr) (dst.stat k) (src.stat k)
    dir := fun k => foldDirs unified
      (if k = .runtime then fun a b => if a < b then b else a else fun a b => a + b)
      (dst.dir k) (src.dir k)
    u64 := fun f =>
      if f ∈ [.usrTime, .sysTime, .ctx, .majf, .minf, .totalRunTime, .totalSubmit, .totalComplete]
      then dst.u64 f + src.u64 f else dst.u64 f
    map := fun k i => dst.map k i + src.map k i
    latU := fun i => dst.latU i + src.latU i
    latM := fun i => dst.latM i + src.latM i
    plat := foldDirs unified (fun a b m => a m + b m) dst.plat src.plat }

end Arith

end MysqlBench.Fio
