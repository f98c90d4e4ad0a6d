import MysqlBench.Lib.Words
import Mathlib.Logic.Function.Iterate

/-!
# `lib/lfsr.c` — the linear feedback shift register

`lfsr_next` hands out the values of a range in the order in which a maximal-length register
visits its states, and skips the states that are out of range. With a spin it takes several
register steps for each value, and where the number of steps divides the period it takes one more
at the end of each round. Registers are 64-bit words; the counters are naturals, and none of their
sums can leave 64 bits except `num_vals`, whose wrap is written out.
-/

namespace MysqlBench.Fio

open MysqlBench.Lib

def taps : List (List Nat) := [
    [], [], [], [3, 2], [4, 3], [5, 3], [6, 5], [7, 6], [8, 6, 5, 4], [9, 5], [10, 7], [11, 9],
    [12, 6, 4, 1], [13, 4, 3, 1], [14, 5, 3, 1], [15, 14], [16, 15, 13, 4], [17, 14], [18, 11],
    [19, 6, 2, 1], [20, 17], [21, 19], [22, 21], [23, 18], [24, 23, 22, 17], [25, 22],
    [26, 6, 2, 1], [27, 5, 2, 1], [28, 25], [29, 27], [30, 6, 4, 1], [31, 28], [32, 31, 29, 1],
    [33, 20], [34, 27, 2, 1], [35, 33], [36, 25], [37, 5, 4, 3, 2, 1], [38, 6, 5, 1], [39, 35],
    [40, 38, 21, 19], [41, 38], [42, 41, 20, 19], [43, 42, 38, 37], [44, 43, 18, 17],
    [45, 44, 42, 41], [46, 45, 26, 25], [47, 42], [48, 47, 21, 20], [49, 40], [50, 49, 24, 23],
    [51, 50, 36, 35], [52, 49], [53, 52, 38, 37], [54, 53, 18, 17], [55, 31], [56, 55, 35, 34],
    [57, 50], [58, 39], [59, 58, 38, 37], [60, 59], [61, 60, 46, 45], [62, 61, 6, 5], [63, 62]]

structure FioLfsr where
  xormask : BitVec 64
  lastVal : BitVec 64
  cachedBit : BitVec 64
  maxVal : Nat
  numVals : Nat
  cycleLength : Nat
  cachedCycleLength : Nat
  spin : Nat
deriving Repr, DecidableEq

/-! ## Stepping -/

def lfsrStep (fl : FioLfsr) (v : BitVec 64) : BitVec 64 :=
  ((v >>> 1) ||| fl.cachedBit) ^^^ (((v &&& 1#64) - 1#64) &&& fl.xormask)

/-- `__lfsr_next`: the `switch` falls through from `case spin` to `case 0`, and has no case past
15. -/
def lfsrNextSpin (fl : FioLfsr) (spin : Nat) : FioLfsr :=
  if spin ≤ 15 then { fl with lastVal := (lfsrStep fl)^[spin + 1] fl.lastVal } else fl

def lfsrRound (fl : FioLfsr) : FioLfsr :=
  if fl.cycleLength = 0 then lfsrNextSpin fl fl.spin
  else if fl.cycleLength - 1 = 0 then
    { lfsrNextSpin fl (fl.spin + 1) with cycleLength := fl.cachedCycleLength }
  else lfsrNextSpin { fl with cycleLength := fl.cycleLength - 1 } fl.spin

/-- The `do … while (last_val > max_val)` of `lfsr_next`; `none` when it has not ended after
`fuel` rounds. -/
def lfsrLoop : Nat → FioLfsr → Option FioLfsr
  | 0, _ => none
  | fuel + 1, fl =>
      if fl.maxVal < (lfsrRound fl).lastVal.toNat then lfsrLoop fuel (lfsrRound fl)
      else some (lfsrRound fl)

/-- `lfsr_next`. The answer `none` inside is its return value 1; `some off` is 0 with `*off` set.
The argument `last` is not used. -/
def lfsrNext (fuel : Nat) (fl : FioLfsr) : Option (FioLfsr × Option Nat) :=
  let counted := { fl with numVals := (fl.numVals + 1) % 2 ^ 64 }
  if fl.maxVal < fl.numVals then some (counted, none)
  else (lfsrLoop fuel counted).map fun fl' => (fl', some fl'.lastVal.toNat)

/-! ## Setting up -/

def lfsrCreateXormask (row : List Nat) : BitVec 64 :=
  ((row.take 6).takeWhile (· ≠ 0)).foldl (fun xormask tap => xormask ||| (1#64 <<< (tap - 1))) 0#64

def findLfsrLoop (size : Nat) : Nat → Nat → Option (List Nat)
  | 0, _ => none
  | n + 1, i => if size < 2 ^ i then some (taps.getD i []) else findLfsrLoop size n (i + 1)

def findLfsr (size : Nat) : Option (List Nat) := findLfsrLoop size 61 3

/-- The loop of `prepare_spin`: the first `i` from the given one on, up to `spin`, for which
`i` periods are a whole number of spins, and the number of spins they are. -/
def spinCycle (x y spin : Nat) : Nat → Nat → Nat
  | 0, _ => 0
  | n + 1, i =>
      if y * i % (spin + 1) = 0 then x * i + y * i / (spin + 1) else spinCycle x y spin n (i + 1)

def FioLfsr.bitmask (fl : FioLfsr) : BitVec 64 := (fl.cachedBit <<< 1) - 1#64

def prepareSpin (fl : FioLfsr) (spin : Nat) : FioLfsr × Nat :=
  if 15 < spin then (fl, 1)
  else
    let max := fl.bitmask.toNat
    let cycle := spinCycle (max / (spin + 1)) (max % (spin + 1)) spin spin 1
    -- one more the first time, since the seed itself is not handed out
    ({ fl with spin := spin, cycleLength := cycle + 1, cachedCycleLength := cycle }, 0)

def lfsrReset (fl : FioLfsr) (seed : BitVec 64) : FioLfsr × Nat :=
  let fl' := { fl with numVals := 0, lastVal := seed &&& fl.bitmask }
  (fl', if fl'.lastVal = fl.bitmask then 1 else 0)

def lfsrInit (fl : FioLfsr) (nums : Nat) (seed : BitVec 64) (spin : Nat) : FioLfsr × Nat :=
  match findLfsr nums with
  | none => (fl, 1)
  | some row =>
      let fl := { fl with
        maxVal := usub 64 nums 1
        xormask := lfsrCreateXormask row
        cachedBit := 1#64 <<< (row.headD 0 - 1) }
      match prepareSpin fl spin with
      | (fl, 0) => lfsrReset fl seed
      | (fl, _) => (fl, 1)

def lfsrCalls (fuel : Nat) : Nat → FioLfsr → Option (List Nat × FioLfsr)
  | 0, fl => some ([], fl)
  | n + 1, fl =>
      match lfsrNext fuel fl with
      | some (fl', some off) => (lfsrCalls fuel n fl').map fun (offs, fl'') => (off :: offs, fl'')
      | _ => none

end MysqlBench.Fio
