import MysqlBench.Lib.Assign
import MysqlBench.Lib.Wire
import Mathlib

/-!
# `cconv.c` — job options on the network

`convert_thread_options_to_net` and `convert_thread_options_to_cpu` copy some 170 members between
`struct thread_options` and `struct thread_options_pack`, one assignment each. Members of one type
are a function from their names here, and the assignments are lists of pairs, in the order of the
source: the member that is assigned, and the member it is assigned from. The two are `alike` in all
lines but those of `unit_base`, which is assigned from `kb_base` in both directions.

Only what has a member in the pack is modelled. `cpumask` and `verify_cpumask` are left out, since
the code that would convert them is not compiled. A member of the pack holds the bytes that are sent.
-/

namespace MysqlBench.Fio

open MysqlBench.Lib

/-! ## Members -/

inductive StrOpt
  | description | name | directory | filename | filenameFormat | opendir | ioengine | mmapfile
  | readIologFile | writeIologFile | bwLogFile | latLogFile | iopsLogFile | replayRedirect
  | execPrerun | execPostrun | ioscheduler | profile | cgroup
deriving Repr, DecidableEq

inductive U32Opt
  | tdDdir | rwSeq | kbBase | unitBase | ddirSeqNr | iodepth | iodepthLow | iodepthBatch
  | iodepthBatchComplete | sizePercent | fillDevice | fileAppend | errorDump | nrFiles | openFiles
  | fileLockMode | odirect | oatomic | invalidateCache | createSerialize | createFsync
  | createOnOpen | createOnly | endFsync | preRead | syncIo | verify | doVerify | verifysort
  | verifysortNr | verifyInterval | verifyOffset | verifyPatternBytes | verifyFatal | verifyDump
  | verifyAsync | verifyBatch | experimentalVerify | useThread | unlink | doDiskUtil
  | overrideSync | randRepeatable | allrandRepeatable | useOsRand | logAvgMsec | logOffset | logGz
  | logGzStore | norandommap | softrandommap | bsUnaligned | fsyncOnClose | bsIsSeqRand
  | randomDistribution | randomGenerator | hugepageSize | rwMinBs | thinktime | thinktimeSpin
  | thinktimeBlocks | fsyncBlocks | fdatasyncBlocks | barrierBlocks | overwrite | bwAvgTime
  | iopsAvgTime | loops | memType | memAlign | maxLatency | stonewall | newGroup | numjobs
  | cpumaskSet | verifyCpumaskSet | cpusAllowedPolicy | iolog | rwmixcycle | nice | ioprio
  | ioprioClass | fileServiceType | groupReporting | fadviseHint | fallocateMode | zeroBuffers
  | refillBuffers | scrambleBuffers | bufferPatternBytes | compressPercentage | compressChunk
  | timeBased | disableLat | disableClat | disableSlat | disableBw | unifiedRwRep | gtodReduce
  | gtodCpu | gtodOffload | clocksource | noStall | trimPercentage | trimBatch | trimZero
  | clatPercentiles | percentilePrecision | ratecycle | continueOnError | cgroupWeight
  | cgroupNodelete | uid | gid | flowId | flow | flowWatermark | flowSleep | syncFileRange
deriving Repr, DecidableEq

inductive U64Opt
  | ddirSeqAdd | size | ioLimit | fileSizeLow | fileSizeHigh | startOffset | verifyBacklog
  | randSeed | startDelay | startDelayHigh | timeout | rampTime | zoneRange | zoneSize | zoneSkip
  | lockmem | trimBacklog | offsetIncrement | numberIos | latencyTarget | latencyWindow
deriving Repr, DecidableEq

inductive DirOpt
  | bs | ba | minBs | maxBs | percRand | rwmix | rate | ratemin | rateIops | rateIopsMin
deriving Repr, DecidableEq

inductive FpOpt
  | zipfTheta | paretoH | latencyPercentile
deriving Repr, DecidableEq

inductive PatternOpt
  | verifyPattern | bufferPattern
deriving Repr, DecidableEq

structure Bssplit where
  bs : BitVec 32
  perc : BitVec 32
deriving Repr, DecidableEq

/-- `struct thread_options`, over a type of floating-point numbers. A string is `NULL` or its bytes;
`bssplit[i]` has `bssplit_nr[i]` elements and `ignore_error[i]` has `ignore_error_nr[i]`. -/
structure ThreadOptions (R : Type) where
  str : StrOpt → Option (List Byte)
  u32 : U32Opt → BitVec 32
  u64 : U64Opt → BitVec 64
  dir : DirOpt → Fin 3 → BitVec 32
  fp : FpOpt → R
  pattern : PatternOpt → Fin 512 → Byte
  percentileList : Fin 20 → R
  bssplit : Fin 3 → List Bssplit
  ignoreError : Fin 3 → List (BitVec 32)

/-- `struct thread_options_pack`. A row of `bssplit` ends at `BSSPLIT_MAX`; what lies behind it is
the business of whoever reads there. `ignore_error`, `ignore_error_nr` and `error_dump` have members
of their own, which no code touches. -/
structure ThreadOptionsPack where
  str : StrOpt → List Byte
  u32 : U32Opt → List Byte
  u64 : U64Opt → List Byte
  dir : DirOpt → Fin 3 → List Byte
  fp : FpOpt → List Byte
  pattern : PatternOpt → Fin 512 → Byte
  percentileList : Fin 20 → List Byte
  bssplitNr : Fin 3 → List Byte
  bssplit : Fin 3 → Nat → List Byte × List Byte

def bssplitMax : Nat := 64

/-! ## To the network -/

def stringToNet (src : Option (List Byte)) (dst : List Byte) : List Byte :=
  match src with
  | some s => s.take 255 ++ List.replicate (255 - s.length) 0 ++ [0]
  | none => dst.set 0 0

def strToNet : List (StrOpt × StrOpt) :=
  alike [.description, .name, .directory, .filename, .filenameFormat, .opendir, .ioengine,
    .mmapfile, .readIologFile, .writeIologFile, .bwLogFile, .latLogFile, .iopsLogFile,
    .replayRedirect, .execPrerun, .execPostrun, .ioscheduler, .profile, .cgroup]

def u32ToNet : List (U32Opt × U32Opt) :=
  alike (F := U32Opt) [.tdDdir, .rwSeq, .kbBase] ++ [(.unitBase, .kbBase)] ++
  alike (F := U32Opt) [.ddirSeqNr, .iodepth, .iodepthLow, .iodepthBatch, .iodepthBatchComplete, .sizePercent, .fillDevice, .fileAppend,
    .ratecycle, .nrFiles, .openFiles, .fileLockMode, .odirect, .oatomic, .invalidateCache,
    .createSerialize, .createFsync, .createOnOpen, .createOnly, .endFsync, .preRead, .syncIo,
    .verify, .doVerify, .verifysort, .verifysortNr, .experimentalVerify, .verifyInterval,
    .verifyOffset, .verifyPatternBytes, .verifyFatal, .verifyDump, .verifyAsync, .verifyBatch,
    .useThread, .unlink, .doDiskUtil, .overrideSync, .randRepeatable, .allrandRepeatable,
    .useOsRand, .logAvgMsec, .logOffset, .logGz, .logGzStore, .norandommap, .softrandommap,
    .bsUnaligned, .fsyncOnClose, .bsIsSeqRand, .randomDistribution, .randomGenerator,
    .hugepageSize, .rwMinBs, .thinktime, .thinktimeSpin, .thinktimeBlocks, .fsyncBlocks,
    .fdatasyncBlocks, .barrierBlocks, .overwrite, .bwAvgTime, .iopsAvgTime, .loops, .memType,
    .memAlign, .maxLatency, .stonewall, .newGroup, .numjobs, .cpumaskSet, .verifyCpumaskSet,
    .cpusAllowedPolicy, .iolog, .rwmixcycle, .nice, .ioprio, .ioprioClass, .fileServiceType,
    .groupReporting, .fadviseHint, .fallocateMode, .zeroBuffers, .refillBuffers, .scrambleBuffers,
    .bufferPatternBytes, .timeBased, .disableLat, .disableClat, .disableSlat, .disableBw,
    .unifiedRwRep, .gtodReduce, .gtodCpu, .gtodOffload, .clocksource, .noStall, .trimPercentage,
    .trimBatch, .trimZero, .clatPercentiles, .percentilePrecision, .continueOnError,
    .cgroupWeight, .cgroupNodelete, .uid, .gid, .flowId, .flow, .flowWatermark, .flowSleep,
    .syncFileRange, .compressPercentage, .compressChunk]

def u64ToNet : List (U64Opt × U64Opt) :=
  alike [.randSeed, .latencyTarget, .latencyWindow, .size, .ioLimit, .verifyBacklog,
    .startDelay, .startDelayHigh, .timeout, .rampTime, .zoneRange, .zoneSize, .zoneSkip, .lockmem,
    .ddirSeqAdd, .fileSizeLow, .fileSizeHigh, .startOffset, .trimBacklog, .offsetIncrement,
    .numberIos]

def dirToNet : List (DirOpt × DirOpt) :=
  alike [.bs, .ba, .minBs, .maxBs, .rwmix, .rate, .ratemin, .rateIops, .rateIopsMin, .percRand]

def fpToNet : List (FpOpt × FpOpt) := alike [.zipfTheta, .paretoH, .latencyPercentile]

section Host

/- `fp64` stands for `fio_double_to_uint64` and `fio_uint64_to_double`. -/
variable {R : Type} (fp64 : ExactEncoding R) (host : Endian)

def convertThreadOptionsToNet (top : ThreadOptionsPack) (o : ThreadOptions R) :
    ThreadOptionsPack where
  str := assign strToNet stringToNet o.str top.str
  u32 := assign u32ToNet (fun v _ => toWire host v) o.u32 top.u32
  u64 := assign u64ToNet (fun v _ => toWire host v) o.u64 top.u64
  dir f i := assign dirToNet (fun v _ => toWire host v) (fun g => o.dir g i) (fun g => top.dir g i) f
  fp := assign fpToNet (fun x _ => fp64.toWire host x) o.fp top.fp
  -- two calls of `memcpy`
  pattern := o.pattern
  percentileList := copyFirst 20 (fp64.toWire host) o.percentileList
    top.percentileList
  bssplitNr i := toWire host (BitVec.ofNat 32 (o.bssplit i).length)
  bssplit i j :=
    match (o.bssplit i)[j]? with
    | some b => if j < bssplitMax then (toWire host b.bs, toWire host b.perc) else top.bssplit i j
    | none => top.bssplit i j

/-! ## From the network -/

def stringToCpu (src : List Byte) (dst : Option (List Byte)) : Option (List Byte) :=
  let s := src.takeWhile (· ≠ 0)
  if s = [] then dst else some s

def strToCpu : List (StrOpt × StrOpt) :=
  alike [.description, .name, .directory, .filename, .filenameFormat, .opendir, .ioengine,
    .mmapfile, .readIologFile, .writeIologFile, .bwLogFile, .latLogFile, .iopsLogFile,
    .replayRedirect, .execPrerun, .execPostrun, .ioscheduler, .profile, .cgroup]

def u32ToCpu : List (U32Opt × U32Opt) :=
  alike (F := U32Opt) [.tdDdir, .rwSeq, .kbBase] ++ [(.unitBase, .kbBase)] ++
  alike (F := U32Opt) [.ddirSeqNr, .iodepth, .iodepthLow, .iodepthBatch, .iodepthBatchComplete, .sizePercent, .fillDevice, .fileAppend,
    .ratecycle, .nrFiles, .openFiles, .fileLockMode, .odirect, .oatomic, .invalidateCache,
    .createSerialize, .createFsync, .createOnOpen, .createOnly, .endFsync, .preRead, .syncIo,
    .verify, .doVerify, .verifysort, .verifysortNr, .experimentalVerify, .verifyInterval,
    .verifyOffset, .verifyPatternBytes, .verifyFatal, .verifyDump, .verifyAsync, .verifyBatch,
    .useThread, .unlink, .doDiskUtil, .overrideSync, .randRepeatable, .allrandRepeatable,
    .useOsRand, .logAvgMsec, .logOffset, .logGz, .logGzStore, .norandommap, .softrandommap,
    .bsUnaligned, .fsyncOnClose, .bsIsSeqRand, .randomDistribution, .randomGenerator,
    .hugepageSize, .rwMinBs, .thinktime, .thinktimeSpin, .thinktimeBlocks, .fsyncBlocks,
    .fdatasyncBlocks, .barrierBlocks, .overwrite, .bwAvgTime, .iopsAvgTime, .loops, .memType,
    .memAlign, .maxLatency, .stonewall, .newGroup, .numjobs, .cpumaskSet, .verifyCpumaskSet,
    .cpusAllowedPolicy, .iolog, .rwmixcycle, .nice, .ioprio, .ioprioClass, .fileServiceType,
    .groupReporting, .fadviseHint, .fallocateMode, .zeroBuffers, .refillBuffers, .scrambleBuffers,
    .bufferPatternBytes, .timeBased, .disableLat, .disableClat, .disableSlat, .disableBw,
    .unifiedRwRep, .gtodReduce, .gtodCpu, .gtodOffload, .clocksource, .noStall, .trimPercentage,
    .trimBatch, .trimZero, .clatPercentiles, .percentilePrecision, .continueOnError,
    .cgroupWeight, .cgroupNodelete, .uid, .gid, .flowId, .flow, .flowWatermark, .flowSleep,
    .syncFileRange, .compressPercentage, .compressChunk]

def u64ToCpu : List (U64Opt × U64Opt) :=
  alike [.ddirSeqAdd, .size, .ioLimit, .fileSizeLow, .fileSizeHigh, .startOffset, .randSeed,
    .verifyBacklog, .startDelay, .startDelayHigh, .timeout, .rampTime, .zoneRange, .zoneSize,
    .zoneSkip, .lockmem, .offsetIncrement, .numberIos, .latencyTarget, .latencyWindow,
    .trimBacklog]

def dirToCpu : List (DirOpt × DirOpt) :=
  alike [.bs, .ba, .minBs, .maxBs, .rwmix, .rate, .ratemin, .rateIops, .rateIopsMin, .percRand]

def fpToCpu : List (FpOpt × FpOpt) := alike [.zipfTheta, .paretoH, .latencyPercentile]

def convertThreadOptionsToCpu (o : ThreadOptions R) (top : ThreadOptionsPack) : ThreadOptions R where
  str := assign strToCpu stringToCpu top.str o.str
  u32 := assign u32ToCpu (fun b _ => fromWire host 32 b) top.u32 o.u32
  u64 := assign u64ToCpu (fun b _ => fromWire host 64 b) top.u64 o.u64
  dir f i := assign dirToCpu (fun b _ => fromWire host 32 b) (fun g => top.dir g i) (fun g => o.dir g i) f
  fp := assign fpToCpu (fun b _ => fp64.fromWire host b) top.fp o.fp
  pattern := top.pattern
  percentileList := copyFirst 20 (fp64.fromWire host) top.percentileList
    o.percentileList
  bssplit i :=
    let nr := (fromWire host 32 (top.bssplitNr i)).toNat
    if nr = 0 then o.bssplit i
    else (List.range nr).map fun j =>
      ⟨fromWire host 32 (top.bssplit i j).1, fromWire host 32 (top.bssplit i j).2⟩
  ignoreError := o.ignoreError

end Host

def ThreadOptions.zero {R : Type} (z : R) : ThreadOptions R :=
  ⟨fun _ => none, fun _ => 0, fun _ => 0, fun _ _ => 0, fun _ => z, fun _ _ => 0, fun _ => z,
    fun _ => [], fun _ => []⟩

end MysqlBench.Fio
