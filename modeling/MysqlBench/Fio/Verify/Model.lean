import MysqlBench.Lib.Bytes
import MysqlBench.Lib.Words
import MysqlBench.Fio.Ddir

/-!
# Data verification (`verify.c`)

A written buffer is cut into intervals, and each interval carries a header with a checksum of the
rest of it; a read back buffer is checked against the headers. Addresses are relative to
`io_u->buf`. Three things are not computed here: the checksum functions, which are parameters
(`Checksums`); what a `memcpy` of overlapping stretches leaves behind, which C does not define;
and what is on the stack before a function writes to it. The last two are `Garbage`.

`sha256` and `sha512` are an exception among the checksums: what `fill_sha512` stores and
`verify_io_u_sha512` compares is the block buffer of the context, so `shaUpdate` models that buffer
and leaves out the chaining state, which nobody reads.
-/

namespace MysqlBench.Fio

open MysqlBench.Lib

inductive VFail
  | assert
  | fuel
deriving Repr, DecidableEq

/-! ## Options and buffers -/

inductive VerifyType
  | none | md5 | crc64 | crc32 | crc32c | crc32cIntel | crc16 | crc7 | sha256 | sha512 | xxhash
  | metaData | sha1 | pattern | null
deriving Repr, DecidableEq

def VerifyType.code : VerifyType → Nat
  | .none => 0
  | .md5 => 1
  | .crc64 => 2
  | .crc32 => 3
  | .crc32c => 4
  | .crc32cIntel => 5
  | .crc16 => 6
  | .crc7 => 7
  | .sha256 => 8
  | .sha512 => 9
  | .xxhash => 10
  | .metaData => 11
  | .sha1 => 12
  | .pattern => 13
  | .null => 14

def VerifyType.ofCode (n : Nat) : Option VerifyType :=
  [.none, .md5, .crc64, .crc32, .crc32c, .crc32cIntel, .crc16, .crc7, .sha256, .sha512, .xxhash,
    .metaData, .sha1, .pattern, .null][n]?

def eilseq : Nat := 84

def einval : Nat := 22

def fioHdrMagic : Nat := 0xacca

def maxPatternSize : Nat := 512

structure VerifyOptions where
  verify : VerifyType
  verifyInterval : Nat
  verifyOffset : Nat
  verifyPattern : Mem
  verifyPatternBytes : Nat
  verifyFatal : Bool
  verifysort : Bool
  /-- `TD_F_VER_BACKLOG` -/
  verBacklog : Bool
  trimZero : Bool
  /-- `td_write(td) || td_rw(td)` -/
  writes : Bool
  minBs : Nat
  maxBs : Nat
  timeBased : Bool
  verifyOnly : Bool
  loops : Nat
  threadNumber : Nat
  /-- `FIO_FAKEIO` -/
  fakeio : Bool

structure VerifyIoU where
  buf : Mem
  buflen : Nat
  bufFilledLen : Nat
  offset : Nat
  numberio : Nat
  randSeed : BitVec 64
  ddir : Ddir
  /-- `IO_U_F_TRIMMED` -/
  trimmed : Bool
  startSec : Nat
  startUsec : Nat

/-- The checksum functions; `md5` and `sha1` give the words of the hash in memory order. -/
structure Checksums where
  md5 : List Byte → BitVec 128
  crc64 : List Byte → BitVec 64
  crc32 : List Byte → BitVec 32
  crc32c : List Byte → BitVec 32
  crc16 : List Byte → BitVec 16
  crc7 : List Byte → BitVec 8
  xxhash : List Byte → BitVec 32
  sha1 : List Byte → BitVec 160

/-- What C leaves open: the bytes that a `memcpy` between overlapping stretches writes, and the
stack of the check of each interval. -/
structure Garbage where
  overlap : Mem
  stack : Nat → Mem

/-! ## Filling -/

def fillPatternLoop (pattern : Mem) (bytes len : Nat) : Nat → Nat → Mem → Mem
  | 0, _, mem => mem
  | fuel + 1, i, mem =>
      if i < len then
        let size := if bytes > len - i then len - i else bytes
        fillPatternLoop pattern bytes len fuel (i + size) (store mem i (load pattern 0 size))
      else mem

def fillPattern (mem : Mem) (len : Nat) (pattern : Mem) (bytes : Nat) : Except VFail Mem :=
  match bytes with
  | 0 => .error .assert
  | 1 => .ok (store mem 0 (List.replicate len (pattern 0)))
  | _ => .ok (fillPatternLoop pattern bytes len len 0 mem)

def randomStep (seed : BitVec 64) : BitVec 64 := (seed * 0x9e37fffffffc0001#64) >>> 3

def fillRandomLoop (len : Nat) : Nat → Nat → BitVec 64 → Mem → Mem
  | 0, _, _, mem => mem
  | fuel + 1, ptr, seed, mem =>
      if ptr < len then
        fillRandomLoop len fuel (ptr + 8) (randomStep seed) (storeLE mem ptr 8 seed.toNat)
      else mem

def fillRandomBuf (mem : Mem) (len : Nat) (seed : BitVec 64) : Mem := fillRandomLoop len len 0 seed mem

/-- `fill_verify_pattern` as `populate_verify_io_u` calls it; `draw` is the number that
`fill_random_buf` takes from the generator and returns. -/
def fillVerifyPattern (o : VerifyOptions) (draw : BitVec 64) (io : VerifyIoU) :
    Except VFail VerifyIoU :=
  if o.verifyPatternBytes = 0 then
    .ok { io with randSeed := draw, buf := fillRandomBuf io.buf io.buflen draw }
  else if io.buflen ≤ io.bufFilledLen then .ok io
  else do
    let buf ← fillPattern io.buf io.buflen o.verifyPattern o.verifyPatternBytes
    .ok { io with buf := buf, bufFilledLen := io.buflen }

def getHdrInc (o : VerifyOptions) (buflen : Nat) : Nat :=
  if o.verifyInterval ≠ 0 ∧ o.verifyInterval ≤ buflen then o.verifyInterval else buflen % 2 ^ 32

/-! ## Headers -/

def privSize : VerifyType → Nat
  | .none | .null | .pattern => 0
  | .md5 => 16
  | .crc64 => 8
  | .crc32 | .crc32c | .crc32cIntel => 4
  | .crc16 => 2
  | .crc7 => 1
  | .sha256 => 64
  | .sha512 => 128
  | .xxhash => 4
  | .metaData => 32
  | .sha1 => 20

def hdrSizeOf (code : Nat) : Except VFail Nat :=
  match VerifyType.ofCode code with
  | some t => .ok (privSize t + 24)
  | none => .error .assert

def headerSize (o : VerifyOptions) : Nat := privSize o.verify + 24

def hdrSize (mem : Mem) (hdr : Nat) : Except VFail Nat := hdrSizeOf (loadLE mem (hdr + 2) 2)

def hdrPriv (hdr : Nat) : Nat := hdr + 24

def memcpy (overlap mem : Mem) (dst src len : Nat) : Mem :=
  if dst + len ≤ src ∨ src + len ≤ dst then store mem dst (load mem src len)
  else store mem dst (load overlap dst len)

def memswp (g : Garbage) (mem : Mem) (buf1 buf2 len : Nat) : Except VFail Mem :=
  if 200 < len then .error .assert
  else
    let swap := load mem buf1 len
    .ok (store (memcpy g.overlap mem buf1 buf2 len) buf2 swap)

/-! ## Writing the type's own part -/

def fillSum (n : Nat) (sum : List Byte → BitVec (8 * n)) (mem : Mem) (hdr data len : Nat) : Mem :=
  storeLE mem (hdrPriv hdr) n (sum (load mem data len)).toNat

def fillXxhash (sums : Checksums) : Mem → Nat → Nat → Nat → Mem := fillSum 4 sums.xxhash

def fillSha1 (sums : Checksums) : Mem → Nat → Nat → Nat → Mem := fillSum 20 sums.sha1

def fillCrc7 (sums : Checksums) : Mem → Nat → Nat → Nat → Mem := fillSum 1 sums.crc7

def fillCrc16 (sums : Checksums) : Mem → Nat → Nat → Nat → Mem := fillSum 2 sums.crc16

def fillCrc32 (sums : Checksums) : Mem → Nat → Nat → Nat → Mem := fillSum 4 sums.crc32

def fillCrc32c (sums : Checksums) : Mem → Nat → Nat → Nat → Mem := fillSum 4 sums.crc32c

def fillCrc64 (sums : Checksums) : Mem → Nat → Nat → Nat → Mem := fillSum 8 sums.crc64

def fillMd5 (sums : Checksums) : Mem → Nat → Nat → Nat → Mem := fillSum 16 sums.md5

def shaBlocks (b len : Nat) : Nat → Nat → Nat
  | 0, i => i
  | fuel + 1, i => if i + (b - 1) < len then shaBlocks b len fuel (i + b) else i

def overwrite (buf bs : List Byte) : List Byte := bs ++ buf.drop bs.length

/-- The block buffer after `fio_sha256_update` or `fio_sha512_update` of a fresh context, with
blocks of `b` bytes. -/
def shaUpdate (b : Nat) (buf data : List Byte) : List Byte :=
  if b ≤ data.length then
    overwrite (overwrite buf (data.take b)) (data.drop (shaBlocks b data.length data.length b))
  else overwrite buf data

def fillSha (b : Nat) (mem : Mem) (hdr data len : Nat) : Mem :=
  store mem (hdrPriv hdr) (shaUpdate b (load mem (hdrPriv hdr) b) (load mem data len))

def fillSha256 : Mem → Nat → Nat → Nat → Mem := fillSha 64

def fillSha512 : Mem → Nat → Nat → Nat → Mem := fillSha 128

/-- The offset `fill_meta` stores and `verify_io_u_meta` expects; the product is one of
`unsigned int`s. -/
def metaOffset (o : VerifyOptions) (io : VerifyIoU) (hdrNum : Nat) : Nat :=
  (io.offset + hdrNum * o.verifyInterval % 2 ^ 32) % 2 ^ 64

def fillMeta (o : VerifyOptions) (io : VerifyIoU) (mem : Mem) (hdr headerNum : Nat) : Mem :=
  let vh := hdrPriv hdr
  let mem := storeLE mem (vh + 8) 1 o.threadNumber
  let mem := storeLE mem (vh + 16) 8 io.startSec
  let mem := storeLE mem (vh + 24) 8 io.startUsec
  let mem := storeLE mem (vh + 10) 2 io.numberio
  storeLE mem vh 8 (metaOffset o io headerNum)

def fillPriv (sums : Checksums) (o : VerifyOptions) (io : VerifyIoU) (mem : Mem)
    (hdr headerNum data dataLen : Nat) : Except VFail Mem :=
  match o.verify with
  | .md5 => .ok (fillMd5 sums mem hdr data dataLen)
  | .crc64 => .ok (fillCrc64 sums mem hdr data dataLen)
  | .crc32c | .crc32cIntel => .ok (fillCrc32c sums mem hdr data dataLen)
  | .crc32 => .ok (fillCrc32 sums mem hdr data dataLen)
  | .crc16 => .ok (fillCrc16 sums mem hdr data dataLen)
  | .crc7 => .ok (fillCrc7 sums mem hdr data dataLen)
  | .sha256 => .ok (fillSha256 mem hdr data dataLen)
  | .sha512 => .ok (fillSha512 mem hdr data dataLen)
  | .xxhash => .ok (fillXxhash sums mem hdr data dataLen)
  | .metaData => .ok (fillMeta o io mem hdr headerNum)
  | .sha1 => .ok (fillSha1 sums mem hdr data dataLen)
  | .pattern => .ok mem
  | .none | .null => .error .assert

def fillHdr (sums : Checksums) (o : VerifyOptions) (io : VerifyIoU) (mem : Mem)
    (hdr headerLen : Nat) : Mem :=
  let mem := storeLE mem hdr 2 fioHdrMagic
  let mem := storeLE mem (hdr + 2) 2 o.verify.code
  let mem := storeLE mem (hdr + 4) 4 headerLen
  let mem := storeLE mem (hdr + 8) 8 io.randSeed.toNat
  storeLE mem (hdr + 16) 4 (sums.crc32c (load mem hdr 16)).toNat

def populateHdr (sums : Checksums) (g : Garbage) (o : VerifyOptions) (io : VerifyIoU) (mem : Mem)
    (hdr headerNum headerLen : Nat) : Except VFail Mem := do
  let mem := fillHdr sums o io mem hdr headerLen
  let size ← hdrSize mem hdr
  let dataLen := usub 32 headerLen size
  let mem ← fillPriv sums o io mem hdr headerNum (hdr + size) dataLen
  if o.verifyOffset ≠ 0 then
    let size ← hdrSize mem hdr
    memswp g mem hdr (hdr + o.verifyOffset) size
  else .ok mem

def fillPatternHeaders (sums : Checksums) (g : Garbage) (o : VerifyOptions) (io : VerifyIoU) :
    Nat → Nat → Nat → Mem → Except VFail Mem
  | 0, _, _, _ => .error .fuel
  | fuel + 1, p, headerNum, mem =>
      if p < io.buflen then do
        let mem ← populateHdr sums g o io mem p headerNum (getHdrInc o io.buflen)
        fillPatternHeaders sums g o io fuel (p + getHdrInc o io.buflen) (headerNum + 1) mem
      else .ok mem

def populateVerifyIoU (sums : Checksums) (g : Garbage) (o : VerifyOptions) (draw : BitVec 64)
    (issues : Nat) (io : VerifyIoU) : Except VFail VerifyIoU :=
  if o.verify = .null then .ok io
  else do
    let io ← fillVerifyPattern o draw { io with numberio := issues % 2 ^ 16 }
    let buf ← fillPatternHeaders sums g o io (io.buflen + 1) 0 0 io.buf
    .ok { io with buf := buf }

/-! ## Checking -/

def verifyHeader (sums : Checksums) (mem : Mem) (randSeed : BitVec 64) (hdr hdrLen : Nat) : Nat :=
  if loadLE mem hdr 2 ≠ fioHdrMagic then eilseq
  else if loadLE mem (hdr + 4) 4 ≠ hdrLen then eilseq
  else if loadLE mem (hdr + 8) 8 ≠ randSeed.toNat then eilseq
  else if (sums.crc32c (load mem hdr 16)).toNat ≠ loadLE mem (hdr + 16) 4 then eilseq
  else 0

def ioUVerifyOff (mem : Mem) (hdr hdrNum : Nat) : Except VFail (Nat × Nat) := do
  let size ← hdrSize mem hdr
  let len := loadLE mem (hdr + 4) 4
  .ok (hdrNum * len % 2 ^ 32 + size, usub 32 len size)

def verifyIoUSum (n : Nat) (sum : List Byte → BitVec (8 * n)) (mem : Mem) (hdr hdrNum : Nat) :
    Except VFail Nat := do
  let (p, len) ← ioUVerifyOff mem hdr hdrNum
  .ok (if loadLE mem (hdrPriv hdr) n = (sum (load mem p len)).toNat then 0 else eilseq)

def verifyIoUXxhash (sums : Checksums) : Mem → Nat → Nat → Except VFail Nat :=
  verifyIoUSum 4 sums.xxhash

def verifyIoUSha1 (sums : Checksums) : Mem → Nat → Nat → Except VFail Nat :=
  verifyIoUSum 20 sums.sha1

def verifyIoUCrc7 (sums : Checksums) : Mem → Nat → Nat → Except VFail Nat :=
  verifyIoUSum 1 sums.crc7

def verifyIoUCrc16 (sums : Checksums) : Mem → Nat → Nat → Except VFail Nat :=
  verifyIoUSum 2 sums.crc16

def verifyIoUCrc64 (sums : Checksums) : Mem → Nat → Nat → Except VFail Nat :=
  verifyIoUSum 8 sums.crc64

def verifyIoUCrc32 (sums : Checksums) : Mem → Nat → Nat → Except VFail Nat :=
  verifyIoUSum 4 sums.crc32

def verifyIoUCrc32c (sums : Checksums) : Mem → Nat → Nat → Except VFail Nat :=
  verifyIoUSum 4 sums.crc32c

def verifyIoUMd5 (sums : Checksums) : Mem → Nat → Nat → Except VFail Nat :=
  verifyIoUSum 16 sums.md5

def verifyIoUSha (b : Nat) (g : Garbage) (mem : Mem) (hdr hdrNum : Nat) : Except VFail Nat := do
  let (p, len) ← ioUVerifyOff mem hdr hdrNum
  let buf := shaUpdate b (load (g.stack hdrNum) 0 b) (load mem p len)
  .ok (if load mem (hdrPriv hdr) b = buf then 0 else eilseq)

def verifyIoUSha256 : Garbage → Mem → Nat → Nat → Except VFail Nat := verifyIoUSha 64

def verifyIoUSha512 : Garbage → Mem → Nat → Nat → Except VFail Nat := verifyIoUSha 128

def patternFast (mem pattern : Mem) (buf len patternSize : Nat) : Nat → Nat → Nat → Nat × Nat
  | 0, i, mod => (i, mod)
  | fuel + 1, i, mod =>
      if i < len then
        let size := if patternSize - mod > len - i then len - i else patternSize - mod
        if load mem (buf + i) size ≠ load pattern mod size then (i, mod)
        else patternFast mem pattern buf len patternSize fuel (i + size) 0
      else (i, mod)

def patternSlow (mem pattern : Mem) (buf len bytes : Nat) : Nat → Nat → Nat → Nat
  | 0, _, _ => 0
  | fuel + 1, i, mod =>
      if i < len then
        if mem (buf + i) ≠ pattern mod then eilseq
        else patternSlow mem pattern buf len bytes fuel (i + 1) (if mod + 1 = bytes then 0 else mod + 1)
      else 0

def patternLoops (mem pattern : Mem) (buf len patternSize bytes mod : Nat) : Nat :=
  let r := patternFast mem pattern buf len patternSize len 0 mod
  patternSlow mem pattern buf len bytes len r.1 r.2

def patternSize (o : VerifyOptions) : Nat :=
  if o.verifyPatternBytes ≤ 1 then maxPatternSize else o.verifyPatternBytes

def verifyIoUPattern (o : VerifyOptions) (io : VerifyIoU) (mem : Mem) (hdr : Nat) : Nat :=
  patternLoops mem o.verifyPattern (hdr + headerSize o)
    (usub 32 (getHdrInc o io.buflen) (headerSize o)) (patternSize o) o.verifyPatternBytes
    (headerSize o % patternSize o)

def checksNumberio (o : VerifyOptions) : Bool :=
  o.writes && o.minBs == o.maxBs && !o.timeBased && (!o.verifyOnly || o.loops == 0)

def verifyIoUMeta (o : VerifyOptions) (io : VerifyIoU) (mem : Mem) (hdr hdrNum : Nat) : Nat :=
  let vh := hdrPriv hdr
  let ret := if loadLE mem vh 8 = metaOffset o io hdrNum then 0 else eilseq
  let ret := if o.verifyPatternBytes ≠ 0 then ret ||| verifyIoUPattern o io mem hdr else ret
  if checksNumberio o = true ∧ loadLE mem (vh + 10) 2 ≠ io.numberio then eilseq else ret

def verifyPriv (sums : Checksums) (g : Garbage) (o : VerifyOptions) (io : VerifyIoU) (mem : Mem)
    (verifyType hdr hdrNum : Nat) : Except VFail Nat :=
  match VerifyType.ofCode verifyType with
  | some .md5 => verifyIoUMd5 sums mem hdr hdrNum
  | some .crc64 => verifyIoUCrc64 sums mem hdr hdrNum
  | some .crc32c | some .crc32cIntel => verifyIoUCrc32c sums mem hdr hdrNum
  | some .crc32 => verifyIoUCrc32 sums mem hdr hdrNum
  | some .crc16 => verifyIoUCrc16 sums mem hdr hdrNum
  | some .crc7 => verifyIoUCrc7 sums mem hdr hdrNum
  | some .sha256 => verifyIoUSha256 g mem hdr hdrNum
  | some .sha512 => verifyIoUSha512 g mem hdr hdrNum
  | some .xxhash => verifyIoUXxhash sums mem hdr hdrNum
  | some .metaData => .ok (verifyIoUMeta o io mem hdr hdrNum)
  | some .sha1 => verifyIoUSha1 sums mem hdr hdrNum
  | some .pattern => .ok (verifyIoUPattern o io mem hdr)
  | some .none | some .null | none => .ok einval

def verifyTrimmedLoop (mem : Mem) : Nat → Nat → Nat → Nat
  | 0, _, _ => 0
  | fuel + 1, p, len =>
      let thisLen := if 1024 > len then len else 1024
      if load mem p thisLen ≠ List.replicate thisLen 0#8 then eilseq
      else if len - thisLen = 0 then 0
      else verifyTrimmedLoop mem fuel (p + thisLen) (len - thisLen)

def verifyTrimmedIoU (o : VerifyOptions) (io : VerifyIoU) : Nat :=
  if o.trimZero then verifyTrimmedLoop io.buf (io.buflen + 1) 0 io.buflen else 0

def verifyUnswap (g : Garbage) (o : VerifyOptions) (mem : Mem) (p : Nat) : Except VFail Mem :=
  if o.verifyOffset ≠ 0 then memswp g mem p (p + o.verifyOffset) (headerSize o)
  else .ok mem

def verifyIoULoop (sums : Checksums) (g : Garbage) (o : VerifyOptions) :
    Nat → Nat → Nat → VerifyIoU → Nat → Except VFail (Nat × VerifyIoU)
  | 0, _, _, _, _ => .error .fuel
  | fuel + 1, p, hdrNum, io, ret =>
      if p < io.buflen then
        if ret ≠ 0 ∧ o.verifyFatal = true then .ok (ret, io)
        else do
          let mem ← verifyUnswap g o io.buf p
          let seed := if o.verifysort || o.verBacklog then BitVec.ofNat 64 (loadLE mem (p + 8) 8)
            else io.randSeed
          let io := { io with buf := mem, randSeed := seed }
          let ret := verifyHeader sums mem seed p (getHdrInc o io.buflen)
          if ret ≠ 0 then .ok (ret, io)
          else do
            let verifyType := if o.verify ≠ .none then o.verify.code else loadLE mem (p + 2) 2
            let ret ← verifyPriv sums g o io mem verifyType p hdrNum
            verifyIoULoop sums g o fuel (p + getHdrInc o io.buflen) (hdrNum + 1) io ret
      else .ok (ret, io)

def verifyIoU (sums : Checksums) (g : Garbage) (o : VerifyOptions) (io : VerifyIoU) :
    Except VFail (Nat × VerifyIoU) :=
  if o.verify = .null ∨ io.ddir ≠ .read then .ok (0, io)
  else if o.fakeio then .ok (0, io)
  else if io.trimmed then .ok (verifyTrimmedIoU o io, io)
  else verifyIoULoop sums g o (io.buflen + 1) 0 0 io 0

end MysqlBench.Fio
