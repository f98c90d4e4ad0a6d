import MysqlBench.Lib.Absorb
import MysqlBench.Fio.Verify.Model

/-!
# The hash functions of `crc/md5.c` and `crc/sha1.c`

What `verify.c` stores for `md5` and `sha1` is the chaining state after one call of the update
function on a fresh context, without the final call that would pad the input. Both update functions
hash the whole blocks of 64 bytes and keep the rest for a next call, which never comes:
`fioMd5Update_hash` and `fioSha1Update_h` say that the state is the one after `len / 64` blocks, so the
digests depend on the bytes of these blocks at most (`fioMd5_depends`, `fioSha1_depends`).
-/

namespace MysqlBench.Fio

open MysqlBench.Lib

def patch (buf : List Byte) (off : Nat) (bs : List Byte) : List Byte :=
  buf.take off ++ bs ++ buf.drop (off + bs.length)

/-! ## `md5.c` -/

structure Md5Hash where
  a : BitVec 32
  b : BitVec 32
  c : BitVec 32
  d : BitVec 32
deriving Repr, DecidableEq

def Md5Hash.words (h : Md5Hash) : List (BitVec 32) := [h.a, h.b, h.c, h.d]

def f1 (x y z : BitVec 32) : BitVec 32 := z ^^^ (x &&& (y ^^^ z))

def f2 (x y z : BitVec 32) : BitVec 32 := f1 z x y

def f3 (x y z : BitVec 32) : BitVec 32 := x ^^^ y ^^^ z

def f4 (x y z : BitVec 32) : BitVec 32 := y ^^^ (x ||| ~~~z)

/-- `MD5STEP` on `w, x, y, z = s.a, s.b, s.c, s.d`; the result stands in the order in which the next
step takes the variables. -/
def md5Step (f : BitVec 32 → BitVec 32 → BitVec 32 → BitVec 32) (s : Md5Hash) (x : BitVec 32)
    (shift : Nat) : Md5Hash :=
  let w := s.a + (f s.b s.c s.d + x)
  let w := (w <<< shift ||| w >>> (32 - shift)) + s.b
  ⟨s.d, w, s.b, s.c⟩

abbrev Md5Round := List (Nat × Nat × Nat)

def md5Round1 : Md5Round :=
  [(0, 0xd76aa478, 7), (1, 0xe8c7b756, 12), (2, 0x242070db, 17), (3, 0xc1bdceee, 22),
   (4, 0xf57c0faf, 7), (5, 0x4787c62a, 12), (6, 0xa8304613, 17), (7, 0xfd469501, 22),
   (8, 0x698098d8, 7), (9, 0x8b44f7af, 12), (10, 0xffff5bb1, 17), (11, 0x895cd7be, 22),
   (12, 0x6b901122, 7), (13, 0xfd987193, 12), (14, 0xa679438e, 17), (15, 0x49b40821, 22)]

def md5Round2 : Md5Round :=
  [(1, 0xf61e2562, 5), (6, 0xc040b340, 9), (11, 0x265e5a51, 14), (0, 0xe9b6c7aa, 20),
   (5, 0xd62f105d, 5), (10, 0x02441453, 9), (15, 0xd8a1e681, 14), (4, 0xe7d3fbc8, 20),
   (9, 0x21e1cde6, 5), (14, 0xc33707d6, 9), (3, 0xf4d50d87, 14), (8, 0x455a14ed, 20),
   (13, 0xa9e3e905, 5), (2, 0xfcefa3f8, 9), (7, 0x676f02d9, 14), (12, 0x8d2a4c8a, 20)]

def md5Round3 : Md5Round :=
  [(5, 0xfffa3942, 4), (8, 0x8771f681, 11), (11, 0x6d9d6122, 16), (14, 0xfde5380c, 23),
   (1, 0xa4beea44, 4), (4, 0x4bdecfa9, 11), (7, 0xf6bb4b60, 16), (10, 0xbebfbc70, 23),
   (13, 0x289b7ec6, 4), (0, 0xeaa127fa, 11), (3, 0xd4ef3085, 16), (6, 0x04881d05, 23),
   (9, 0xd9d4d039, 4), (12, 0xe6db99e5, 11), (15, 0x1fa27cf8, 16), (2, 0xc4ac5665, 23)]

def md5Round4 : Md5Round :=
  [(0, 0xf4292244, 6), (7, 0x432aff97, 10), (14, 0xab9423a7, 15), (5, 0xfc93a039, 21),
   (12, 0x655b59c3, 6), (3, 0x8f0ccc92, 10), (10, 0xffeff47d, 15), (1, 0x85845dd1, 21),
   (8, 0x6fa87e4f, 6), (15, 0xfe2ce6e0, 10), (6, 0xa3014314, 15), (13, 0x4e0811a1, 21),
   (4, 0xf7537e82, 6), (11, 0xbd3af235, 10), (2, 0x2ad7d2bb, 15), (9, 0xeb86d391, 21)]

def md5Round (f : BitVec 32 → BitVec 32 → BitVec 32 → BitVec 32) (words : Nat → BitVec 32)
    (steps : Md5Round) (s : Md5Hash) : Md5Hash :=
  steps.foldl (fun s r => md5Step f s (words r.1 + BitVec.ofNat 32 r.2.1) r.2.2) s

def md5Transform (hash : Md5Hash) (block : List Byte) : Md5Hash :=
  let words := fun k => BitVec.ofNat 32 (leField block (4 * k) 4)
  let s := md5Round f1 words md5Round1 hash
  let s := md5Round f2 words md5Round2 s
  let s := md5Round f3 words md5Round3 s
  let s := md5Round f4 words md5Round4 s
  ⟨hash.a + s.a, hash.b + s.b, hash.c + s.c, hash.d + s.d⟩

structure Md5Ctx where
  hash : Md5Hash
  block : List Byte
  byteCount : Nat

def md5Init : Md5Hash := ⟨0x67452301, 0xefcdab89, 0x98badcfe, 0x10325476⟩

def fioMd5Init : Md5Ctx := ⟨md5Init, List.replicate 64 0#8, 0⟩

def md5Whole : Nat → Md5Ctx → List Byte → Md5Ctx
  | 0, mctx, _ => mctx
  | fuel + 1, mctx, data =>
      if 64 ≤ data.length then
        let block := patch mctx.block 0 (data.take 64)
        md5Whole fuel { mctx with block := block, hash := md5Transform mctx.hash block }
          (data.drop 64)
      else { mctx with block := patch mctx.block 0 data }

def fioMd5Update (mctx : Md5Ctx) (data : List Byte) : Md5Ctx :=
  let avail := 64 - mctx.byteCount % 64
  let mctx := { mctx with byteCount := (mctx.byteCount + data.length) % 2 ^ 64 }
  if data.length < avail then { mctx with block := patch mctx.block (64 - avail) data }
  else
    let block := patch mctx.block (64 - avail) (data.take avail)
    md5Whole (data.length + 1) { mctx with block := block, hash := md5Transform mctx.hash block }
      (data.drop avail)

def fioMd5 (data : List Byte) : BitVec 128 :=
  BitVec.ofNat 128 (wordsValue (fioMd5Update fioMd5Init data).hash.words)

/-! ## `sha1.c` -/

structure Sha1Hash where
  a : BitVec 32
  b : BitVec 32
  c : BitVec 32
  d : BitVec 32
  e : BitVec 32
deriving Repr, DecidableEq

def Sha1Hash.words (h : Sha1Hash) : List (BitVec 32) := [h.a, h.b, h.c, h.d, h.e]

def sha1Fn (t : Nat) (b c d : BitVec 32) : BitVec 32 × BitVec 32 :=
  if t < 20 then (((c ^^^ d) &&& b) ^^^ d, 0x5a827999)
  else if t < 40 then (b ^^^ c ^^^ d, 0x6ed9eba1)
  else if t < 60 then ((b &&& c) + (d &&& (b ^^^ c)), 0x8f1bbcdc)
  else (b ^^^ c ^^^ d, 0xca62c1d6)

/-- `input(t)`: `SHA_SRC` reads a word of the block, highest byte first; `SHA_MIX` mixes four words
of the array. -/
def sha1Input (block : List Byte) (array : List (BitVec 32)) (t : Nat) : BitVec 32 :=
  if t < 16 then BitVec.ofNat 32 (leValue ((block.drop (4 * t)).take 4).reverse)
  else
    let w := fun k => array.getD (k % 16) 0
    (w (t + 13) ^^^ w (t + 8) ^^^ w (t + 2) ^^^ w t).rotateLeft 1

def sha1Round (block : List Byte) (s : Sha1Hash × List (BitVec 32)) (t : Nat) :
    Sha1Hash × List (BitVec 32) :=
  let temp := sha1Input block s.2 t
  let fn := sha1Fn t s.1.b s.1.c s.1.d
  let e := s.1.e + (temp + s.1.a.rotateLeft 5 + fn.1 + fn.2)
  (⟨e, s.1.a, s.1.b.rotateRight 2, s.1.c, s.1.d⟩, s.2.set (t % 16) temp)

def blkSHA1Block (h : Sha1Hash) (block : List Byte) : Sha1Hash :=
  let s := ((List.range 80).foldl (sha1Round block) (h, List.replicate 16 0)).1
  ⟨h.a + s.a, h.b + s.b, h.c + s.c, h.d + s.d, h.e + s.e⟩

structure Sha1Ctx where
  h : Sha1Hash
  w : List Byte
  size : Nat

def sha1Init : Sha1Hash := ⟨0x67452301, 0xefcdab89, 0x98badcfe, 0x10325476, 0xc3d2e1f0⟩

def fioSha1Init : Sha1Ctx := ⟨sha1Init, List.replicate 64 0#8, 0⟩

def sha1Whole : Nat → Sha1Ctx → List Byte → Sha1Ctx
  | 0, ctx, _ => ctx
  | fuel + 1, ctx, data =>
      if 64 ≤ data.length then
        sha1Whole fuel { ctx with h := blkSHA1Block ctx.h (data.take 64) } (data.drop 64)
      else { ctx with w := patch ctx.w 0 data }

def fioSha1Update (ctx : Sha1Ctx) (data : List Byte) : Sha1Ctx :=
  let lenW := ctx.size % 64
  let ctx := { ctx with size := (ctx.size + data.length) % 2 ^ 64 }
  if lenW ≠ 0 then
    let left := if data.length < 64 - lenW then data.length else 64 - lenW
    let ctx := { ctx with w := patch ctx.w lenW (data.take left) }
    if (lenW + left) % 64 ≠ 0 then ctx
    else sha1Whole (data.length + 1) { ctx with h := blkSHA1Block ctx.h ctx.w } (data.drop left)
  else sha1Whole (data.length + 1) ctx data

def fioSha1 (data : List Byte) : BitVec 160 :=
  BitVec.ofNat 160 (wordsValue (fioSha1Update fioSha1Init data).h.words)

/-! ## The state is the one after the whole blocks -/

theorem patch_whole {buf bs : List Byte} (h : buf.length = bs.length) : patch buf 0 bs = bs := by
  rw [patch, List.take_zero, List.nil_append, Nat.zero_add, ← h, List.drop_length, List.append_nil]

theorem md5Whole_hash : ∀ (fuel : Nat) (mctx : Md5Ctx) (data : List Byte), mctx.block.length = 64 →
    data.length < fuel →
    (md5Whole fuel mctx data).hash = absorb 64 md5Transform (data.length / 64) mctx.hash data := by
  intro fuel
  induction fuel with
  | zero => intro mctx data _ hf; omega
  | succ fuel ih =>
    intro mctx data hblock hf
    rw [md5Whole]
    by_cases h : 64 ≤ data.length
    · have htake : (data.take 64).length = 64 := by rw [List.length_take]; omega
      rw [if_pos h, show data.length / 64 = (data.drop 64).length / 64 + 1 by
        rw [List.length_drop]; omega, absorb, patch_whole (by rw [hblock, htake])]
      exact ih _ _ htake (by rw [List.length_drop]; omega)
    · rw [if_neg h, Nat.div_eq_of_lt (by omega)]
      rfl

theorem fioMd5Update_hash (data : List Byte) : (fioMd5Update fioMd5Init data).hash
    = absorb 64 md5Transform (data.length / 64) md5Init data := by
  unfold fioMd5Update
  by_cases h : data.length < 64
  · rw [if_pos (show data.length < 64 - fioMd5Init.byteCount % 64 from h), Nat.div_eq_of_lt h]
    rfl
  · have htake : (data.take 64).length = 64 := by rw [List.length_take]; omega
    rw [if_neg (show ¬ data.length < 64 - fioMd5Init.byteCount % 64 from h),
      show data.length / 64 = (data.drop 64).length / 64 + 1 by rw [List.length_drop]; omega, absorb]
    show (md5Whole _ (Md5Ctx.mk (md5Transform md5Init (patch fioMd5Init.block 0 (data.take 64)))
      (patch fioMd5Init.block 0 (data.take 64)) _) (data.drop 64)).hash = _
    rw [patch_whole (by rw [htake]; rfl)]
    exact md5Whole_hash _ _ _ htake (by rw [List.length_drop]; omega)

theorem sha1Whole_h : ∀ (fuel : Nat) (ctx : Sha1Ctx) (data : List Byte), data.length < fuel →
    (sha1Whole fuel ctx data).h = absorb 64 blkSHA1Block (data.length / 64) ctx.h data := by
  intro fuel
  induction fuel with
  | zero => intro ctx data hf; omega
  | succ fuel ih =>
    intro ctx data hf
    rw [sha1Whole]
    by_cases h : 64 ≤ data.length
    · rw [if_pos h, show data.length / 64 = (data.drop 64).length / 64 + 1 by
        rw [List.length_drop]; omega, absorb]
      exact ih _ _ (by rw [List.length_drop]; omega)
    · rw [if_neg h, Nat.div_eq_of_lt (by omega)]
      rfl

theorem fioSha1Update_h (data : List Byte) : (fioSha1Update fioSha1Init data).h
    = absorb 64 blkSHA1Block (data.length / 64) sha1Init data := by
  unfold fioSha1Update
  rw [if_neg (show ¬ fioSha1Init.size % 64 ≠ 0 by decide)]
  exact sha1Whole_h _ _ _ (by omega)

/-! ## The positions the digests depend on -/

theorem Md5Hash.words_injective : Function.Injective Md5Hash.words := by
  intro h h' he
  cases h
  cases h'
  simpa [Md5Hash.words] using he

theorem Sha1Hash.words_injective : Function.Injective Sha1Hash.words := by
  intro h h' he
  cases h
  cases h'
  simpa [Sha1Hash.words] using he

theorem fioMd5_depends (len i : Nat) : Depends fioMd5 len i ↔
    Depends (absorb 64 md5Transform (len / 64) md5Init) (64 * (len / 64)) i := by
  have hpack := packed_injective (n := 4) (m := 128) Md5Hash.words_injective (fun _ => rfl) (by decide)
  refine (depends_comp_iff hpack len i).trans
    (depends_iff_of_take (Nat.mul_div_le len 64) (fun l hl => ?_) i)
  rw [fioMd5Update_hash, hl, absorb_take]

theorem fioSha1_depends (len i : Nat) : Depends fioSha1 len i ↔
    Depends (absorb 64 blkSHA1Block (len / 64) sha1Init) (64 * (len / 64)) i := by
  have hpack := packed_injective (n := 5) (m := 160) Sha1Hash.words_injective (fun _ => rfl) (by decide)
  refine (depends_comp_iff hpack len i).trans
    (depends_iff_of_take (Nat.mul_div_le len 64) (fun l hl => ?_) i)
  rw [fioSha1Update_h, hl, absorb_take]

end MysqlBench.Fio
