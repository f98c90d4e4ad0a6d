import MysqlBench.Fio.Verify.Hashes

/-!
# The whole blocks reach the digest

Whether the state of a hash function after many blocks depends on a byte of an early one is a question about its
compression function, and has no answer in general. For areas of a few blocks it can be computed: a byte of an area of
zeros is set to one, and the two states are compared. It is enough to do so for the longest area
(`depends_of_survives`), since states that are different at the end have been different all the time. The areas are
those of `sectorBlocks` blocks, which is what an interval of a sector of 512 bytes has behind its header.

The kernel computes with numbers much faster than with bit vectors. So the compression functions are given once more
on numbers below `2 ^ 32`, in the operations that the kernel has, with the block as one number of 512 bits, and shown to
be the same (`md5Numbers_eq`, `sha1Numbers_eq`).
-/

namespace MysqlBench.Fio

open MysqlBench.Lib

/-! ## Words as numbers -/

def low32 (n : Nat) : Nat := Nat.mod n 4294967296

theorem low32_eq (n : Nat) : low32 n = n % 2 ^ 32 := rfl

def rotl (s w : Nat) : Nat := Nat.lor (low32 (Nat.shiftLeft w s)) (Nat.shiftRight w (Nat.sub 32 s))

theorem toNat_rotl (s : Nat) (w : BitVec 32) : (w <<< s ||| w >>> (32 - s)).toNat = rotl s w.toNat := by
  rw [BitVec.toNat_or, BitVec.toNat_shiftLeft, BitVec.toNat_ushiftRight]
  rfl

theorem toNat_rotateLeft {s : Nat} (hs : s < 32) (w : BitVec 32) :
    (w.rotateLeft s).toNat = rotl s w.toNat := by
  rw [BitVec.rotateLeft, Nat.mod_eq_of_lt hs, BitVec.rotateLeftAux, toNat_rotl]

theorem toNat_rotateRight_two (w : BitVec 32) : (w.rotateRight 2).toNat = rotl 30 w.toNat := by
  rw [← toNat_rotl, BitVec.or_comm]
  rfl

def wordOf (block k : Nat) : Nat := low32 (Nat.shiftRight block (Nat.mul 32 k))

theorem wordOf_eq (block k : Nat) : wordOf block k = block / 2 ^ (32 * k) % 2 ^ 32 :=
  congrArg low32 (Nat.shiftRight_eq_div_pow block (32 * k))

/-! ## `md5_transform` -/

structure Md5Numbers where
  a : Nat
  b : Nat
  c : Nat
  d : Nat
deriving DecidableEq

def Md5Hash.numbers (h : Md5Hash) : Md5Numbers := ⟨h.a.toNat, h.b.toNat, h.c.toNat, h.d.toNat⟩

def f1Number (x y z : Nat) : Nat := Nat.xor z (Nat.land x (Nat.xor y z))

def f2Number (x y z : Nat) : Nat := f1Number z x y

def f3Number (x y z : Nat) : Nat := Nat.xor (Nat.xor x y) z

def f4Number (x y z : Nat) : Nat := Nat.xor y (Nat.lor x (Nat.sub 4294967295 z))

def md5RoundNumbers (f : Nat → Nat → Nat → Nat) (block : Nat) : Md5Round → Md5Numbers → Md5Numbers
  | [], s => s
  | (k, constant, shift) :: steps, ⟨a, b, c, d⟩ =>
    let w := low32 (Nat.add (Nat.add a (f b c d)) (Nat.add (wordOf block k) constant))
    md5RoundNumbers f block steps ⟨d, low32 (Nat.add (rotl shift w) b), b, c⟩

def Md5Numbers.plus (hash s : Md5Numbers) : Md5Numbers :=
  ⟨low32 (Nat.add hash.a s.a), low32 (Nat.add hash.b s.b), low32 (Nat.add hash.c s.c), low32 (Nat.add hash.d s.d)⟩

def md5Numbers (hash : Md5Numbers) (block : Nat) : Md5Numbers :=
  hash.plus (md5RoundNumbers f4Number block md5Round4 (md5RoundNumbers f3Number block md5Round3
    (md5RoundNumbers f2Number block md5Round2 (md5RoundNumbers f1Number block md5Round1 hash))))

def Md5Block (number : Nat) (block : List Byte) : Prop := ∀ k < 16, wordOf number k = leField block (4 * k) 4

section Md5

variable {number : Nat} {block : List Byte}

theorem md5Round_numbers {f : BitVec 32 → BitVec 32 → BitVec 32 → BitVec 32} {f' : Nat → Nat → Nat → Nat}
    (hf : ∀ x y z, (f x y z).toNat = f' x.toNat y.toNat z.toNat) (hblock : Md5Block number block)
    (steps : Md5Round) (hsteps : ∀ r ∈ steps, r.1 < 16) (s : Md5Hash) :
    (md5Round f (fun k => BitVec.ofNat 32 (leField block (4 * k) 4)) steps s).numbers =
      md5RoundNumbers f' number steps s.numbers := by
  induction steps generalizing s with
  | nil => rfl
  | cons r steps ih =>
    obtain ⟨k, constant, shift⟩ := r
    rw [List.forall_mem_cons] at hsteps
    have hword := hblock k hsteps.1
    have hsum : (s.a + (f s.b s.c s.d + (BitVec.ofNat 32 (leField block (4 * k) 4) +
        BitVec.ofNat 32 constant))).toNat =
        low32 (Nat.add (Nat.add s.a.toNat (f' s.b.toNat s.c.toNat s.d.toNat))
          (Nat.add (wordOf number k) constant)) := by
      simp only [BitVec.toNat_add, BitVec.toNat_ofNat, hf, hword, low32_eq, Nat.add_eq]
      omega
    refine (ih hsteps.2 _).trans ?_
    rw [Md5Hash.numbers, Md5Hash.numbers, md5RoundNumbers]
    dsimp only
    rw [← hsum, ← toNat_rotl]
    rfl

theorem f1_number (x y z : BitVec 32) : (f1 x y z).toNat = f1Number x.toNat y.toNat z.toNat := rfl

theorem f2_number (x y z : BitVec 32) : (f2 x y z).toNat = f2Number x.toNat y.toNat z.toNat := rfl

theorem f3_number (x y z : BitVec 32) : (f3 x y z).toNat = f3Number x.toNat y.toNat z.toNat := rfl

theorem f4_number (x y z : BitVec 32) : (f4 x y z).toNat = f4Number x.toNat y.toNat z.toNat := by
  rw [f4, BitVec.toNat_xor, BitVec.toNat_or, BitVec.toNat_not]
  rfl

theorem md5_numbers_plus (hash s : Md5Hash) :
    (Md5Hash.mk (hash.a + s.a) (hash.b + s.b) (hash.c + s.c) (hash.d + s.d)).numbers =
      hash.numbers.plus s.numbers := by
  simp only [Md5Numbers.plus, Md5Hash.numbers, BitVec.toNat_add, low32_eq, Nat.add_eq]

theorem md5Numbers_eq (hblock : Md5Block number block) (hash : Md5Hash) :
    (md5Transform hash block).numbers = md5Numbers hash.numbers number := by
  have h1 := md5Round_numbers f1_number hblock md5Round1 (by decide)
  have h2 := md5Round_numbers f2_number hblock md5Round2 (by decide)
  have h3 := md5Round_numbers f3_number hblock md5Round3 (by decide)
  have h4 := md5Round_numbers f4_number hblock md5Round4 (by decide)
  refine (md5_numbers_plus _ _).trans ?_
  rw [h4, h3, h2, h1, md5Numbers]

end Md5

/-! ## `blk_SHA1Block` -/

structure Sha1Numbers where
  a : Nat
  b : Nat
  c : Nat
  d : Nat
  e : Nat
deriving DecidableEq

def Sha1Hash.numbers (h : Sha1Hash) : Sha1Numbers := ⟨h.a.toNat, h.b.toNat, h.c.toNat, h.d.toNat, h.e.toNat⟩

def sha1SrcNumber (window : Nat) : Nat := low32 window

def sha1MixNumber (window : Nat) : Nat :=
  rotl 1 (Nat.xor (Nat.xor (Nat.xor (wordOf window 13) (wordOf window 8)) (wordOf window 2)) (wordOf window 0))

def sha1ChNumber (b c d : Nat) : Nat := Nat.add (Nat.xor (Nat.land (Nat.xor c d) b) d) 0x5a827999

def sha1ParityNumber (constant b c d : Nat) : Nat := Nat.add (Nat.xor (Nat.xor b c) d) constant

def sha1MajNumber (b c d : Nat) : Nat := Nat.add (Nat.add (Nat.land b c) (Nat.land d (Nat.xor b c))) 0x8f1bbcdc

/-- Rounds with one `input` and one `fn`. The window has the next sixteen words of the array, the first one lowest:
each round takes that one out and puts its own in at the top. -/
def sha1RoundNumbers (input : Nat → Nat) (fn : Nat → Nat → Nat → Nat) : Nat → Nat × Sha1Numbers → Nat × Sha1Numbers
  | 0, s => s
  | n + 1, (window, ⟨a, b, c, d, e⟩) =>
    let temp := input window
    let e := low32 (Nat.add e (Nat.add (Nat.add temp (rotl 5 a)) (fn b c d)))
    sha1RoundNumbers input fn n
      (Nat.add (Nat.shiftRight window 32) (Nat.shiftLeft temp 480), ⟨e, a, rotl 30 b, c, d⟩)

def Sha1Numbers.plus (h s : Sha1Numbers) : Sha1Numbers :=
  ⟨low32 (Nat.add h.a s.a), low32 (Nat.add h.b s.b), low32 (Nat.add h.c s.c), low32 (Nat.add h.d s.d),
    low32 (Nat.add h.e s.e)⟩

def sha1Numbers (h : Sha1Numbers) (block : Nat) : Sha1Numbers :=
  h.plus (sha1RoundNumbers sha1MixNumber (sha1ParityNumber 0xca62c1d6) 20
    (sha1RoundNumbers sha1MixNumber sha1MajNumber 20
      (sha1RoundNumbers sha1MixNumber (sha1ParityNumber 0x6ed9eba1) 20
        (sha1RoundNumbers sha1MixNumber sha1ChNumber 4
          (sha1RoundNumbers sha1SrcNumber sha1ChNumber 16 (block, h)))))).2

def Sha1Block (number : Nat) (block : List Byte) : Prop :=
  ∀ t < 16, wordOf number t = leValue ((block.drop (4 * t)).take 4).reverse

/-- The window before round `t`: the words of the block that are still to come, and then those of the array. -/
structure Window (block : List Byte) (t : Nat) (array : List (BitVec 32)) (window : Nat) : Prop where
  length : array.length = 16
  lt : window < 2 ^ 32 * 2 ^ 480
  words : ∀ k < 16, wordOf window k =
    if t + k < 16 then leValue ((block.drop (4 * (t + k))).take 4).reverse
    else (array.getD ((t + k) % 16) 0).toNat

section Sha1

variable {block : List Byte} {t window : Nat} {array : List (BitVec 32)}

theorem leValue_word_lt (block : List Byte) (t : Nat) :
    leValue ((block.drop (4 * t)).take 4).reverse < 2 ^ 32 := by
  refine (leValue_lt _).trans_le (Nat.pow_le_pow_right (n := 256) (j := 4) (by decide) ?_)
  rw [List.length_reverse, List.length_take]
  omega

theorem Window.src (h : Window block t array window) (ht : t < 16) :
    (sha1Input block array t).toNat = sha1SrcNumber window := by
  have h0 := h.words 0 (by decide)
  rw [Nat.add_zero, if_pos ht] at h0
  rw [sha1Input, if_pos ht, BitVec.toNat_ofNat, Nat.mod_eq_of_lt (leValue_word_lt block t), ← h0]
  rfl

theorem Window.mix (h : Window block t array window) (ht : 16 ≤ t) :
    (sha1Input block array t).toNat = sha1MixNumber window := by
  have hword : ∀ k < 16, wordOf window k = (array.getD ((t + k) % 16) 0).toNat := by
    intro k hk
    rw [h.words k hk, if_neg (by omega)]
  rw [sha1Input, if_neg (by omega), toNat_rotateLeft (by decide), sha1MixNumber, hword 13 (by decide),
    hword 8 (by decide), hword 2 (by decide), hword 0 (by decide)]
  rfl

theorem wordOf_shifted (temp : Nat) {k : Nat} (hk : k < 15) :
    wordOf (window / 2 ^ 32 + temp * 2 ^ 480) k = wordOf window (k + 1) := by
  have hsplit : temp * 2 ^ 480 = 2 ^ (32 * k) * (2 ^ 32 * (temp * 2 ^ (448 - 32 * k))) := by
    rw [← Nat.mul_assoc, ← Nat.pow_add, Nat.mul_left_comm, ← Nat.pow_add]
    congr 2
    omega
  rw [wordOf_eq, wordOf_eq, hsplit, Nat.add_mul_div_left _ _ (Nat.two_pow_pos _), Nat.add_mul_mod_self_left,
    Nat.div_div_eq_div_mul, ← Nat.pow_add, Nat.mul_succ, Nat.add_comm 32]

theorem add_mul_lt {low word top m : Nat} (hlow : low < top) (hword : word < m) : low + word * top < m * top := by
  calc low + word * top < top + word * top := Nat.add_lt_add_right hlow _
    _ = (word + 1) * top := by rw [Nat.succ_mul, Nat.add_comm]
    _ ≤ m * top := Nat.mul_le_mul_right _ hword

theorem Window.next (h : Window block t array window) (temp : BitVec 32) :
    Window block (t + 1) (array.set (t % 16) temp)
      (Nat.add (Nat.shiftRight window 32) (Nat.shiftLeft temp.toNat 480)) := by
  have hshift : Nat.add (Nat.shiftRight window 32) (Nat.shiftLeft temp.toNat 480) =
      window / 2 ^ 32 + temp.toNat * 2 ^ 480 := by
    rw [← Nat.shiftRight_eq_div_pow, ← Nat.shiftLeft_eq]
    rfl
  have hlow : window / 2 ^ 32 < 2 ^ 480 := Nat.div_lt_of_lt_mul h.lt
  have htemp := temp.isLt
  rw [hshift]
  refine ⟨by rw [List.length_set, h.length], ?_, fun k hk => ?_⟩
  · exact add_mul_lt hlow htemp
  · rcases Nat.lt_or_ge k 15 with hlt | hge
    · rw [wordOf_shifted _ hlt, h.words (k + 1) (by omega), show t + 1 + k = t + (k + 1) by omega]
      split
      · rfl
      · rw [List.getD_eq_getElem?_getD, List.getD_eq_getElem?_getD, List.getElem?_set_ne (by omega)]
    · obtain rfl : k = 15 := by omega
      rw [if_neg (by omega), show (t + 1 + 15) % 16 = t % 16 by omega, List.getD_eq_getElem?_getD,
        List.getElem?_set_self (by rw [h.length]; omega), wordOf_eq, show 32 * 15 = 480 from rfl,
        Nat.add_mul_div_right _ _ (Nat.two_pow_pos _),
        Nat.div_eq_of_lt hlow, Nat.zero_add, Nat.mod_eq_of_lt htemp]
      rfl

theorem sha1Rounds_numbers {input : Nat → Nat} {fn : Nat → Nat → Nat → Nat} (n : Nat) : ∀ {t : Nat}
    {s : Sha1Hash} {array : List (BitVec 32)} {window : Nat}, Window block t array window →
    (∀ r, t ≤ r → r < t + n → (∀ array window, Window block r array window →
      (sha1Input block array r).toNat = input window) ∧
      ∀ b c d, ((sha1Fn r b c d).1 + (sha1Fn r b c d).2).toNat = low32 (fn b.toNat c.toNat d.toNat)) →
    ∃ s' array' window', (List.range' t n).foldl (sha1Round block) (s, array) = (s', array') ∧
      Window block (t + n) array' window' ∧
      sha1RoundNumbers input fn n (window, s.numbers) = (window', s'.numbers) := by
  induction n with
  | zero => exact fun {t s array window} h _ => ⟨s, array, window, rfl, h, rfl⟩
  | succ n ih =>
    intro t s array window h hround
    obtain ⟨hinput, hfn⟩ := hround t le_rfl (by omega)
    have htemp := hinput array window h
    have hnext := h.next (sha1Input block array t)
    have he : (s.e + (sha1Input block array t + s.a.rotateLeft 5 + (sha1Fn t s.b s.c s.d).1 +
        (sha1Fn t s.b s.c s.d).2)).toNat = low32 (Nat.add s.e.toNat (Nat.add (Nat.add (input window)
          (rotl 5 s.a.toNat)) (fn s.b.toNat s.c.toNat s.d.toNat))) := by
      rw [BitVec.add_assoc (_ + _), BitVec.toNat_add, BitVec.toNat_add, BitVec.toNat_add, hfn, htemp,
        toNat_rotateLeft (by decide)]
      simp only [low32_eq, Nat.add_eq]
      omega
    obtain ⟨s', array', window', hfold, hwindow, hnumbers⟩ := @ih (t + 1)
      (sha1Round block (s, array) t).1 _ _ hnext fun r hr hlt => hround r (by omega) (by omega)
    refine ⟨s', array', window', hfold, by rwa [Nat.add_right_comm] at hwindow, ?_⟩
    rw [← hnumbers, Sha1Hash.numbers, sha1RoundNumbers, ← he, ← htemp, ← toNat_rotateRight_two]
    rfl

theorem sha1_numbers_plus (h s : Sha1Hash) :
    (Sha1Hash.mk (h.a + s.a) (h.b + s.b) (h.c + s.c) (h.d + s.d) (h.e + s.e)).numbers =
      h.numbers.plus s.numbers := by
  simp only [Sha1Numbers.plus, Sha1Hash.numbers, BitVec.toNat_add, low32_eq, Nat.add_eq]

theorem sha1Fn_numbers (t : Nat) (b c d : BitVec 32) :
    (t < 20 → ((sha1Fn t b c d).1 + (sha1Fn t b c d).2).toNat = low32 (sha1ChNumber b.toNat c.toNat d.toNat)) ∧
    (20 ≤ t → t < 40 → ((sha1Fn t b c d).1 + (sha1Fn t b c d).2).toNat =
      low32 (sha1ParityNumber 0x6ed9eba1 b.toNat c.toNat d.toNat)) ∧
    (40 ≤ t → t < 60 → ((sha1Fn t b c d).1 + (sha1Fn t b c d).2).toNat =
      low32 (sha1MajNumber b.toNat c.toNat d.toNat)) ∧
    (60 ≤ t → ((sha1Fn t b c d).1 + (sha1Fn t b c d).2).toNat =
      low32 (sha1ParityNumber 0xca62c1d6 b.toNat c.toNat d.toNat)) := by
  unfold sha1Fn
  refine ⟨fun h => ?_, fun h h' => ?_, fun h h' => ?_, fun h => ?_⟩
  · rw [if_pos h, BitVec.toNat_add]
    simp only [sha1ChNumber, low32_eq, Nat.add_eq, BitVec.toNat_and, BitVec.toNat_xor, BitVec.reduceToNat]
    rfl
  · rw [if_neg (by omega), if_pos h', BitVec.toNat_add]
    simp only [sha1ParityNumber, low32_eq, Nat.add_eq, BitVec.toNat_xor, BitVec.reduceToNat]
    rfl
  · rw [if_neg (by omega), if_neg (by omega), if_pos h', BitVec.toNat_add, BitVec.toNat_add]
    simp only [sha1MajNumber, low32_eq, Nat.add_eq, BitVec.toNat_and, BitVec.toNat_xor, BitVec.reduceToNat,
      Nat.mod_add_mod]
    rfl
  · rw [if_neg (by omega), if_neg (by omega), if_neg (by omega), BitVec.toNat_add]
    simp only [sha1ParityNumber, low32_eq, Nat.add_eq, BitVec.toNat_xor, BitVec.reduceToNat]
    rfl

theorem window_start {number : Nat} (hlt : number < 2 ^ 32 * 2 ^ 480) (h : Sha1Block number block) :
    Window block 0 (List.replicate 16 0) number := by
  refine ⟨rfl, hlt, fun k hk => ?_⟩
  rw [if_pos (by omega), Nat.zero_add]
  exact h k hk

theorem sha1Numbers_eq {number : Nat} (hlt : number < 2 ^ 32 * 2 ^ 480) (hblock : Sha1Block number block) (h : Sha1Hash) :
    (blkSHA1Block h block).numbers = sha1Numbers h.numbers number := by
  obtain ⟨s1, array1, w1, hfold1, hw1, hn1⟩ := sha1Rounds_numbers 16 (window_start hlt hblock) (s := h) fun r _ hr =>
    ⟨fun _ _ hw => hw.src (by omega), fun b c d => (sha1Fn_numbers r b c d).1 (by omega)⟩
  obtain ⟨s2, array2, w2, hfold2, hw2, hn2⟩ := sha1Rounds_numbers 4 hw1 (s := s1) fun r hr hr' =>
    ⟨fun _ _ hw => hw.mix (by omega), fun b c d => (sha1Fn_numbers r b c d).1 (by omega)⟩
  obtain ⟨s3, array3, w3, hfold3, hw3, hn3⟩ := sha1Rounds_numbers 20 hw2 (s := s2) fun r hr hr' =>
    ⟨fun _ _ hw => hw.mix (by omega), fun b c d => (sha1Fn_numbers r b c d).2.1 (by omega) (by omega)⟩
  obtain ⟨s4, array4, w4, hfold4, hw4, hn4⟩ := sha1Rounds_numbers 20 hw3 (s := s3) fun r hr hr' =>
    ⟨fun _ _ hw => hw.mix (by omega), fun b c d => (sha1Fn_numbers r b c d).2.2.1 (by omega) (by omega)⟩
  obtain ⟨s5, array5, w5, hfold5, -, hn5⟩ := sha1Rounds_numbers 20 hw4 (s := s4) fun r hr hr' =>
    ⟨fun _ _ hw => hw.mix (by omega), fun b c d => (sha1Fn_numbers r b c d).2.2.2 (by omega)⟩
  have hrounds : (List.range 80).foldl (sha1Round block) (h, List.replicate 16 0) = (s5, array5) := by
    rw [show List.range 80 = List.range' 0 16 ++ (List.range' 16 4 ++ (List.range' 20 20 ++ (List.range' 40 20 ++
      List.range' 60 20))) from rfl, List.foldl_append, hfold1, List.foldl_append, hfold2, List.foldl_append, hfold3,
      List.foldl_append, hfold4, hfold5]
  unfold blkSHA1Block
  rw [hrounds, sha1_numbers_plus, sha1Numbers, hn1, hn2, hn3, hn4, hn5]

end Sha1

/-! ## Blocks of zeros with one byte set -/

def zeroBlock : List Byte := List.replicate 64 0#8

def md5Byte (p : Nat) : Nat := Nat.pow 256 p

def sha1Byte (p : Nat) : Nat := Nat.pow 256 (Nat.add (Nat.mul 4 (Nat.div p 4)) (Nat.sub 3 (Nat.mod p 4)))

instance (number : Nat) (block : List Byte) : Decidable (Md5Block number block) :=
  inferInstanceAs (Decidable (∀ k < 16, _))

instance (number : Nat) (block : List Byte) : Decidable (Sha1Block number block) :=
  inferInstanceAs (Decidable (∀ k < 16, _))

theorem md5Block_zero : Md5Block 0 zeroBlock := by decide +kernel

theorem sha1Block_zero : Sha1Block 0 zeroBlock := by decide +kernel

theorem md5Block_byte : ∀ p < 64, Md5Block (md5Byte p) (zeroBlock.set p 1#8) := by decide +kernel

theorem sha1Block_byte : ∀ p < 64, sha1Byte p < 2 ^ 32 * 2 ^ 480 ∧ Sha1Block (sha1Byte p) (zeroBlock.set p 1#8) := by
  decide +kernel

/-! ## Survival -/

def sectorBlocks : Nat := 7

/-- In each of the `m` coming blocks each byte can be set, and is seen in the state that is left at the end. The
number of a block with byte `p` set is `number p`. -/
def allSurvive {τ : Type} [DecidableEq τ] (step : τ → Nat → τ) (number : Nat → Nat) : Nat → τ → τ → Bool
  | 0, _, _ => true
  | m + 1, s, last =>
    (List.range 64).all (fun p => (step · 0)^[m] (step s (number p)) ≠ last) &&
      allSurvive step number m (step s 0) last

section Survival

variable {σ τ : Type} [DecidableEq τ] {step : σ → List Byte → σ} {step' : τ → Nat → τ} {number : Nat → Nat}
  {numbers : σ → τ}

theorem allSurvive_spec {m : Nat} {s last : τ} (h : allSurvive step' number m s last = true) {j p : Nat} (hj : j < m)
    (hp : p < 64) : (step' · 0)^[m - 1 - j] (step' ((step' · 0)^[j] s) (number p)) ≠ last := by
  induction m generalizing s j with
  | zero => exact absurd hj (Nat.not_lt_zero j)
  | succ m ih =>
    rw [allSurvive, Bool.and_eq_true, List.all_eq_true] at h
    cases j with
    | zero => exact of_decide_eq_true (h.1 p (List.mem_range.mpr hp))
    | succ j =>
      rw [show m + 1 - 1 - (j + 1) = m - 1 - j by omega]
      exact ih h.2 (by omega)

theorem depends_of_allSurvive (hzero : ∀ s, numbers (step s zeroBlock) = step' (numbers s) 0)
    (hbyte : ∀ p < 64, ∀ s, numbers (step s (zeroBlock.set p 1#8)) = step' (numbers s) (number p)) {s : σ} {N : Nat}
    (h : allSurvive step' number N (numbers s) ((step' · 0)^[N] (numbers s)) = true) {n i : Nat} (hn : n ≤ N)
    (hi : i < 64 * n) : Depends (absorb 64 step n s) (64 * n) i := by
  have hiter : ∀ n s, numbers ((step · zeroBlock)^[n] s) = (step' · 0)^[n] (numbers s) := fun n s =>
    Function.Semiconj.iterate_right (fun s => hzero s) n s
  rw [← Nat.div_add_mod i 64]
  have hp := Nat.mod_lt i (show 0 < 64 by decide)
  refine depends_of_survives hp (show 0#8 ≠ 1#8 by decide) (by omega) hn fun heq => ?_
  have hnumbers := congrArg numbers heq
  refine allSurvive_spec h (show i / 64 < N by omega) hp ?_
  rw [← hiter N, ← hiter, ← hbyte _ hp, ← hiter]
  exact hnumbers

end Survival

theorem md5_survive : allSurvive md5Numbers md5Byte sectorBlocks md5Init.numbers
    ((md5Numbers · 0)^[sectorBlocks] md5Init.numbers) = true := by
  decide +kernel

theorem sha1_survive : allSurvive sha1Numbers sha1Byte sectorBlocks sha1Init.numbers
    ((sha1Numbers · 0)^[sectorBlocks] sha1Init.numbers) = true := by
  decide +kernel

theorem md5_depends {n i : Nat} (hn : n ≤ sectorBlocks) (hi : i < 64 * n) :
    Depends (absorb 64 md5Transform n md5Init) (64 * n) i :=
  depends_of_allSurvive (md5Numbers_eq md5Block_zero) (fun p hp => md5Numbers_eq (md5Block_byte p hp)) md5_survive
    hn hi

theorem sha1_depends {n i : Nat} (hn : n ≤ sectorBlocks) (hi : i < 64 * n) :
    Depends (absorb 64 blkSHA1Block n sha1Init) (64 * n) i :=
  depends_of_allSurvive (sha1Numbers_eq (by positivity) sha1Block_zero)
    (fun p hp => sha1Numbers_eq (sha1Block_byte p hp).1 (sha1Block_byte p hp).2) sha1_survive hn hi

end MysqlBench.Fio
