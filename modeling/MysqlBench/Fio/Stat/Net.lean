import MysqlBench.Lib.Assign
import MysqlBench.Lib.CString
import MysqlBench.Lib.Wire
import MysqlBench.Fio.Stat.Model

/-!
# Statistics on the network

`fio_server_send_ts` converts a `struct thread_stat` and a `struct group_run_stats` member by member
into a zeroed copy, and the client converts that back in place. Both clear-text lists leave out
`percentile_precision` (and the IOPS statistics, which nothing reports), and both loops over
`io_u_lat_m` stop at the length of `io_u_lat_u`. What is reported arrives if and only if those places
are zero (`stats_survive_iff`).
-/

namespace MysqlBench.Fio

open MysqlBench.Lib

attribute [local instance] Lib.neZero_ten Lib.neZero_twelve

/-! ## Structures on the wire -/

inductive GsDir
  | maxRun | minRun | maxBw | minBw | ioKb | agg
deriving Repr, DecidableEq

inductive GsU32
  | kbBase | unitBase | groupid | unifiedRwRep
deriving Repr, DecidableEq

@[ext] structure GroupRunStats where
  dir : GsDir → Fin 3 → BitVec 64
  u32 : GsU32 → BitVec 32

structure WireIoStat where
  maxVal : List Byte
  minVal : List Byte
  samples : List Byte
  mean : List Byte
  S : List Byte

structure WireTs where
  str : TsStr → List Byte
  u32 : TsU32 → List Byte
  u64 : TsU64 → List Byte
  continueOnError : List Byte
  stat : TsStat → Fin 3 → WireIoStat
  percentileList : Fin 20 → List Byte
  latencyPercentile : List Byte
  map : TsMap → Fin 7 → List Byte
  latU : Fin 10 → List Byte
  latM : Fin 12 → List Byte
  plat : Fin 3 → Fin 1216 → List Byte
  dir : TsDir → Fin 3 → List Byte

structure WireGs where
  dir : GsDir → Fin 3 → List Byte
  u32 : GsU32 → List Byte

def zeroes (n : Nat) : List Byte := List.replicate n 0

def WireIoStat.zero : WireIoStat := ⟨zeroes 8, zeroes 8, zeroes 8, zeroes 16, zeroes 16⟩

def TsStr.size : TsStr → Nat
  | .name => 128
  | .verror => 128
  | .description => 256

def WireTs.zero : WireTs :=
  ⟨fun f => zeroes f.size, fun _ => zeroes 4, fun _ => zeroes 8, zeroes 2, fun _ _ => .zero,
    fun _ => zeroes 16, zeroes 16, fun _ _ => zeroes 4, fun _ => zeroes 4, fun _ => zeroes 4,
    fun _ _ => zeroes 4, fun _ _ => zeroes 8⟩

def WireGs.zero : WireGs := ⟨fun _ _ => zeroes 8, fun _ => zeroes 4⟩

/-! ## The server -/

def sendTsU32 : List (TsU32 × TsU32) :=
  alike [.error, .threadNumber, .groupid, .pid, .members, .unifiedRwRep, .firstError, .kbBase,
    .unitBase, .latencyDepth]

def sendTsU64 : List (TsU64 × TsU64) :=
  alike [.usrTime, .sysTime, .ctx, .minf, .majf, .clatPercentiles, .totalSubmit, .totalComplete,
    .totalRunTime, .totalErrCount, .latencyTarget, .latencyWindow]

def sendTsStat : List (TsStat × TsStat) := alike [.clat, .slat, .lat, .bw]

def strncpyZeroed (size : Nat) (s : List Byte) : List Byte :=
  (s.take (size - 1)) ++ zeroes (size - (s.take (size - 1)).length)

section Host

/- `fp64` stands for `fio_double_to_uint64` and `fio_uint64_to_double`. -/
variable {R : Type} (fp64 : ExactEncoding R) (host : Endian)

def sendIoStat (src : IoStat R) (_ : WireIoStat) : WireIoStat :=
  ⟨toWire host src.maxVal, toWire host src.minVal, toWire host src.samples,
    fp64.toWire host src.mean, fp64.toWire host src.S⟩

def serverSendTs (ts : ThreadStat R) : WireTs :=
  let p := WireTs.zero
  { str := fun f => strncpyZeroed f.size (ts.str f)
    u32 := assign sendTsU32 (fun v _ => toWire host v) ts.u32 p.u32
    u64 := assign sendTsU64 (fun v _ => toWire host v) ts.u64 p.u64
    continueOnError := toWire host ts.continueOnError
    stat := fun k i => assign sendTsStat (sendIoStat fp64 host) (fun g => ts.stat g i)
      (fun g => p.stat g i) k
    percentileList := copyFirst 20 (fp64.toWire host) ts.percentileList p.percentileList
    latencyPercentile := fp64.toWire host ts.latencyPercentile
    map := fun k => copyFirst 7 (toWire host) (ts.map k) (p.map k)
    latU := copyFirst 10 (toWire host) ts.latU p.latU
    latM := copyFirst 10 (toWire host) ts.latM p.latM
    plat := fun d => copyFirst 1216 (toWire host) (ts.plat d) (p.plat d)
    dir := fun k => copyFirst 3 (toWire host) (ts.dir k) (p.dir k) }

def serverConvertGs (rs : GroupRunStats) : WireGs :=
  { dir := fun k => copyFirst 3 (toWire host) (rs.dir k) (WireGs.zero.dir k)
    u32 := fun k => toWire host (rs.u32 k) }

/-! ## The client -/

def convertTsU32 : List (TsU32 × TsU32) :=
  alike [.error, .threadNumber, .groupid, .pid, .members, .unifiedRwRep, .firstError, .kbBase,
    .unitBase, .latencyDepth]

def convertTsU64 : List (TsU64 × TsU64) :=
  alike [.usrTime, .sysTime, .ctx, .minf, .majf, .clatPercentiles, .totalSubmit, .totalComplete,
    .totalRunTime, .totalErrCount, .latencyTarget, .latencyWindow]

def convertTsStat : List (TsStat × TsStat) := alike [.clat, .slat, .lat, .bw]

def rawValue (w : Nat) (bs : List Byte) : BitVec w := BitVec.ofNat w (hostValue host bs)

def rawTs (raw : List Byte → R) (p : WireTs) : ThreadStat R where
  str f := (p.str f).takeWhile (· ≠ 0)
  u32 f := rawValue host 32 (p.u32 f)
  u64 f := rawValue host 64 (p.u64 f)
  continueOnError := rawValue host 16 p.continueOnError
  stat k i := ⟨rawValue host 64 (p.stat k i).maxVal, rawValue host 64 (p.stat k i).minVal,
    rawValue host 64 (p.stat k i).samples, raw (p.stat k i).mean, raw (p.stat k i).S⟩
  percentileList i := raw (p.percentileList i)
  latencyPercentile := raw p.latencyPercentile
  map k i := rawValue host 32 (p.map k i)
  latU i := rawValue host 32 (p.latU i)
  latM i := rawValue host 32 (p.latM i)
  plat d i := rawValue host 32 (p.plat d i)
  dir k i := rawValue host 64 (p.dir k i)

def receiveIoStat (src : WireIoStat) (_ : IoStat R) : IoStat R :=
  ⟨fromWire host 64 src.maxVal, fromWire host 64 src.minVal, fromWire host 64 src.samples,
    fp64.fromWire host src.mean, fp64.fromWire host src.S⟩

def clientConvertTs (raw : List Byte → R) (p : WireTs) : ThreadStat R :=
  let dst := rawTs host raw p
  { str := dst.str
    u32 := assign convertTsU32 (fun b _ => fromWire host 32 b) p.u32 dst.u32
    u64 := assign convertTsU64 (fun b _ => fromWire host 64 b) p.u64 dst.u64
    continueOnError := fromWire host 16 p.continueOnError
    stat := fun k i => assign convertTsStat (receiveIoStat fp64 host) (fun g => p.stat g i)
      (fun g => dst.stat g i) k
    percentileList := copyFirst 20 (fp64.fromWire host) p.percentileList dst.percentileList
    latencyPercentile := fp64.fromWire host p.latencyPercentile
    map := fun k => copyFirst 7 (fromWire host 32) (p.map k) (dst.map k)
    latU := copyFirst 10 (fromWire host 32) p.latU dst.latU
    latM := copyFirst 10 (fromWire host 32) p.latM dst.latM
    plat := fun d => copyFirst 1216 (fromWire host 32) (p.plat d) (dst.plat d)
    dir := fun k => copyFirst 3 (fromWire host 64) (p.dir k) (dst.dir k) }

def clientConvertGs (p : WireGs) : GroupRunStats :=
  { dir := fun k => copyFirst 3 (fromWire host 64) (p.dir k) fun i => rawValue host 64 (p.dir k i)
    u32 := fun k => fromWire host 32 (p.u32 k) }

end Host

/-! ## What arrives -/

structure SameReport {R : Type} (ts ts' : ThreadStat R) : Prop where
  str : ts.str = ts'.str
  u32 : ts.u32 = ts'.u32
  u64 : ts.u64 = ts'.u64
  continueOnError : ts.continueOnError = ts'.continueOnError
  stat : ∀ k, k ≠ .iops → ts.stat k = ts'.stat k
  percentileList : ts.percentileList = ts'.percentileList
  latencyPercentile : ts.latencyPercentile = ts'.latencyPercentile
  map : ts.map = ts'.map
  latU : ts.latU = ts'.latU
  latM : ts.latM = ts'.latM
  plat : ts.plat = ts'.plat
  dir : ts.dir = ts'.dir

def StringsOk {R : Type} (ts : ThreadStat R) : Prop :=
  ∀ f, (ts.str f).length < f.size ∧ 0 ∉ ts.str f

theorem once_sendTs : Once sendTsU32 ∧ Once sendTsU64 ∧ Once sendTsStat := by decide
theorem once_convertTs : Once convertTsU32 ∧ Once convertTsU64 ∧ Once convertTsStat := by decide

theorem route_tsU32 (f : TsU32) : route sendTsU32 convertTsU32 f = some f := by cases f <;> rfl

theorem route_tsU64 (f : TsU64) (h : f ≠ .percentilePrecision) :
    route sendTsU64 convertTsU64 f = some f := by
  cases f with
  | percentilePrecision => exact absurd rfl h
  | _ => rfl

theorem route_tsStat (k : TsStat) (h : k ≠ .iops) : route sendTsStat convertTsStat k = some k := by
  cases k with
  | iops => exact absurd rfl h
  | _ => rfl

theorem rawValue_zeroes (host : Endian) (w n : Nat) : rawValue host w (zeroes n) = 0 := by
  have hz : ∀ k, leValue (zeroes k) = 0 := by
    intro k
    induction k with
    | zero => rfl
    | succ k ih =>
      rw [zeroes, List.replicate_succ, leValue, ← zeroes, ih]
      rfl
  have hv : hostValue host (zeroes n) = 0 := by
    cases host with
    | little => exact hz n
    | big => exact (congrArg leValue List.reverse_replicate).trans (hz n)
  rw [rawValue, hv]
  rfl

theorem takeWhile_strncpyZeroed {size : Nat} {s : List Byte} (hlen : s.length < size) (hz : 0 ∉ s) :
    (strncpyZeroed size s).takeWhile (· ≠ 0) = s := by
  obtain ⟨k, hk⟩ : ∃ k, size - s.length = k + 1 := ⟨size - s.length - 1, by omega⟩
  unfold strncpyZeroed
  rw [List.take_of_length_le (by omega), hk, zeroes, List.replicate_succ, takeWhile_zero hz]

theorem copyFirst_copyFirst {V W : Type} {n : Nat} {bound : Nat} (hn : n ≤ bound) {enc : V → W}
    {dec : W → V} (hexact : ∀ v, dec (enc v) = v) (src : Fin n → V) (mid : Fin n → W)
    (dst : Fin n → V) : copyFirst bound dec (copyFirst bound enc src mid) dst = src := by
  funext i
  have hi : i.val < bound := lt_of_lt_of_le i.isLt hn
  unfold copyFirst
  rw [if_pos hi, if_pos hi, hexact]

section Host

variable {R : Type} (fp64 : ExactEncoding R) (sender receiver : Endian) (raw : List Byte → R)

def transferTs (ts : ThreadStat R) : ThreadStat R :=
  clientConvertTs fp64 receiver raw (serverSendTs fp64 sender ts)

def transferGs (rs : GroupRunStats) : GroupRunStats :=
  clientConvertGs receiver (serverConvertGs sender rs)

theorem transferGs_eq (rs : GroupRunStats) : transferGs sender receiver rs = rs := by
  refine GroupRunStats.ext (funext fun k => ?_) (funext fun k => fromWire_toWire _ _ rfl _)
  exact copyFirst_copyFirst le_rfl (fun v => fromWire_toWire _ _ rfl v) _ _ _

variable (ts : ThreadStat R)

theorem transferTs_u64 {f : TsU64} (h : f ≠ .percentilePrecision) :
    (transferTs fp64 sender receiver raw ts).u64 f = ts.u64 f :=
  assign_assign once_sendTs.2.1 once_convertTs.2.1 (route_tsU64 f h) fun _ =>
    fromWire_toWire _ _ rfl _

theorem transferTs_percentilePrecision :
    (transferTs fp64 sender receiver raw ts).u64 .percentilePrecision = 0 := by
  have hsend : (serverSendTs fp64 sender ts).u64 .percentilePrecision = zeroes 8 :=
    (assign_apply _ _ _ once_sendTs.2.1).trans rfl
  refine (assign_apply _ _ _ once_convertTs.2.1).trans ?_
  refine Eq.trans (show _ = rawValue receiver 64
    ((serverSendTs fp64 sender ts).u64 .percentilePrecision) from rfl) ?_
  rw [hsend, rawValue_zeroes]

theorem transferTs_latM (i : Fin 12) :
    (transferTs fp64 sender receiver raw ts).latM i = if i.val < 10 then ts.latM i else 0 := by
  unfold transferTs clientConvertTs serverSendTs copyFirst rawTs
  dsimp only
  by_cases hi : i.val < 10
  · rw [if_pos hi, if_pos hi, if_pos hi, fromWire_toWire _ _ rfl]
  · rw [if_neg hi, if_neg hi, if_neg hi]
    exact rawValue_zeroes _ _ _

end Host

/-- What is reported arrives if and only if `percentile_precision` and the last two entries of
`io_u_lat_m` are zero. The one is never assigned, and the loops over the others have the bound of
`io_u_lat_u`, on both sides. -/
theorem stats_survive_iff {R : Type} (fp64 : ExactEncoding R) (sender receiver : Endian)
    (raw : List Byte → R) (ts : ThreadStat R) (rs : GroupRunStats) (h : StringsOk ts) :
    SameReport (transferTs fp64 sender receiver raw ts) ts ∧ transferGs sender receiver rs = rs ↔
      ts.u64 .percentilePrecision = 0 ∧ ts.latM 10 = 0 ∧ ts.latM 11 = 0 := by
  have hprec := transferTs_percentilePrecision fp64 sender receiver raw ts
  have hlatM := transferTs_latM fp64 sender receiver raw ts
  constructor
  · rintro ⟨hsame, -⟩
    rw [hsame.u64] at hprec
    rw [hsame.latM] at hlatM
    exact ⟨hprec, hlatM 10, hlatM 11⟩
  · rintro ⟨hp, h10, h11⟩
    refine ⟨⟨?_, ?_, ?_, ?_, ?_, ?_, ?_, ?_, ?_, ?_, ?_, ?_⟩, transferGs_eq sender receiver rs⟩
    · exact funext fun f => takeWhile_strncpyZeroed (h f).1 (h f).2
    · exact funext fun f => assign_assign once_sendTs.1 once_convertTs.1 (route_tsU32 f) fun _ =>
        fromWire_toWire _ _ rfl _
    · funext f
      -- the one field that the sender leaves cleared
      by_cases hf : f = .percentilePrecision
      · rw [hf, hprec, hp]
      · exact transferTs_u64 fp64 sender receiver raw ts hf
    · exact fromWire_toWire _ _ rfl _
    · intro k hk
      refine funext fun i => assign_assign once_sendTs.2.2 once_convertTs.2.2 (route_tsStat k hk)
        fun _ => ?_
      unfold receiveIoStat sendIoStat
      simp only [fromWire_toWire _ _ (show 8 * (64 / 8) = 64 from rfl), fp64.fromWire_toWire]
    · exact copyFirst_copyFirst le_rfl (fun x => fp64.fromWire_toWire _ _ x) _ _ _
    · exact fp64.fromWire_toWire _ _ _
    · exact funext fun k => copyFirst_copyFirst le_rfl (fun v => fromWire_toWire _ _ rfl v) _ _ _
    · exact copyFirst_copyFirst le_rfl (fun v => fromWire_toWire _ _ rfl v) _ _ _
    · funext i
      rw [hlatM i]
      -- the receiver converts ten of the twelve entries
      by_cases hi : i.val < 10
      · rw [if_pos hi]
      · have : i = 10 ∨ i = 11 := by omega
        rw [if_neg hi]
        rcases this with rfl | rfl
        · exact h10.symm
        · exact h11.symm
    · exact funext fun d => copyFirst_copyFirst le_rfl (fun v => fromWire_toWire _ _ rfl v) _ _ _
    · exact funext fun k => copyFirst_copyFirst le_rfl (fun v => fromWire_toWire _ _ rfl v) _ _ _

def fastStat : ThreadStat (BitVec 64) :=
  { initThreadStat with
    str := fun f => if f = .name then [97] else []
    latU := fun i => if i = 1 then 1 else 0 }

theorem fastStat_strings : StringsOk fastStat := by
  intro f
  cases f <;> decide

/-- Its statistics arrive. -/
theorem stats_survive_fast : StringsOk fastStat ∧
    SameReport (transferTs bitsEncoding .little .big (fun _ => 0) fastStat) fastStat :=
  ⟨fastStat_strings, ((stats_survive_iff bitsEncoding .little .big (fun _ => 0) fastStat
    ⟨fun _ _ => 0, fun _ => 0⟩ fastStat_strings).mpr ⟨rfl, rfl, rfl⟩).1⟩

def slowStat : ThreadStat (BitVec 64) :=
  { fastStat with
    u64 := fun f => if f = .percentilePrecision then 2 else 0
    latU := fun _ => 0
    latM := fun i => if i = 11 then 1 else 0 }

/-- The I/O is missing from the histogram that the client reports, and the precision is zero. -/
theorem stats_slow_lost : StringsOk slowStat ∧
    (transferTs bitsEncoding .little .little (fun _ => 0) slowStat).latM 11 = 0 ∧
    (transferTs bitsEncoding .little .little (fun _ => 0) slowStat).u64 .percentilePrecision = 0 ∧
    ¬SameReport (transferTs bitsEncoding .little .little (fun _ => 0) slowStat) slowStat := by
  have hlat := transferTs_latM bitsEncoding .little .little (fun _ => 0) slowStat 11
  refine ⟨fastStat_strings, hlat, transferTs_percentilePrecision .., fun hsame => ?_⟩
  rw [hsame.latM] at hlat
  exact absurd hlat (by decide)

end MysqlBench.Fio
