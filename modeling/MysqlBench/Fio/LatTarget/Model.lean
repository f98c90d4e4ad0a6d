import Mathlib

/-!
# Latency targets (`io_u.c`)

With `latency_target` a job looks for the largest queue depth at which it still meets the target. At
the end of each window `lat_target_check` goes up or down, first by doubling, and by bisection once it
has seen a failure below `iodepth`. The depths are of type `unsigned int`.
-/

namespace MysqlBench.Fio

structure LatTarget where
  qd : Nat
  qdHigh : Nat
  qdLow : Nat
  endRun : Bool
  done : Bool
deriving Repr, DecidableEq

def latTargetInit (iodepth : Nat) : LatTarget := ⟨1, iodepth, 1, false, false⟩

def latTargetFailed (td : LatTarget) : LatTarget :=
  if td.qd = 1 then td
  else
    let qdLow := if td.qd = td.qdLow then (td.qdLow + 2 ^ 32 - 1) % 2 ^ 32 else td.qdLow
    { td with qdHigh := td.qd, qdLow := qdLow, qd := (td.qd + qdLow) % 2 ^ 32 / 2 }

def rampUp (iodepth : Nat) (td : LatTarget) : Nat :=
  let qd := if td.qdHigh ≠ iodepth then (td.qd + td.qdHigh) % 2 ^ 32 / 2 else td.qd * 2 % 2 ^ 32
  if iodepth < qd then iodepth else qd

def latTargetSuccess (iodepth : Nat) (td : LatTarget) : LatTarget :=
  let qd := rampUp iodepth td
  let next := { td with qdLow := td.qd, qd := qd }
  if qd = td.qd then
    if td.endRun then { next with done := true } else { next with endRun := true }
  else next

def latTargetCheck (iodepth : Nat) (met : Bool) (td : LatTarget) : LatTarget :=
  if met then latTargetSuccess iodepth td else latTargetFailed td

def latWindow (iodepth threshold : Nat) (td : LatTarget) : LatTarget :=
  if td.done then td else latTargetCheck iodepth (td.qd ≤ threshold) td

def latRun (iodepth threshold : Nat) : Nat → LatTarget
  | 0 => latTargetInit iodepth
  | n + 1 => latWindow iodepth threshold (latRun iodepth threshold n)

end MysqlBench.Fio
