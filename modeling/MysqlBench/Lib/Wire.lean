import MysqlBench.Lib.Bytes

/-!
# Byte order

A host keeps the bytes of a number in its own order. A protocol that fixes the order of the bytes on
the wire converts before it stores and after it loads: what a host of either order sends, a host of
either order reads back (`fromWire_toWire`).
-/

namespace MysqlBench.Lib

inductive Endian
  | little
  | big
deriving Repr, DecidableEq

def hostBytes (host : Endian) (n v : Nat) : List Byte :=
  match host with
  | .little => leBytes n v
  | .big => (leBytes n v).reverse

def hostValue (host : Endian) (bs : List Byte) : Nat :=
  match host with
  | .little => leValue bs
  | .big => leValue bs.reverse

@[simp] theorem length_hostBytes (host : Endian) (n v : Nat) : (hostBytes host n v).length = n := by
  cases host <;> simp [hostBytes]

theorem hostValue_hostBytes (host : Endian) {n v : Nat} (h : v < 256 ^ n) :
    hostValue host (hostBytes host n v) = v := by
  cases host with
  | little => exact leValue_leBytes_of_lt h
  | big => rw [hostValue, hostBytes, List.reverse_reverse, leValue_leBytes_of_lt h]

/-- `cpu_to_le` and `le_to_cpu` of a number of `n` bytes: the same swap, on a big-endian host. -/
def swapLE (host : Endian) (n v : Nat) : Nat :=
  match host with
  | .little => v
  | .big => leValue (leBytes n v).reverse

theorem leBytes_leValue : ∀ bs : List Byte, leBytes bs.length (leValue bs) = bs := by
  intro bs
  induction bs with
  | nil => rfl
  | cons b bs ih =>
    have hdiv : (b.toNat + 256 * leValue bs) / 256 = leValue bs := by
      have := b.isLt
      omega
    have hmod : BitVec.ofNat 8 (b.toNat + 256 * leValue bs) = b := by
      refine BitVec.eq_of_toNat_eq ?_
      have := b.isLt
      rw [BitVec.toNat_ofNat]
      omega
    rw [List.length_cons, leBytes, leValue, hdiv, hmod, ih]

theorem hostBytes_swapLE (host : Endian) (n v : Nat) :
    hostBytes host n (swapLE host n v) = leBytes n v := by
  cases host with
  | little => rfl
  | big =>
    have h := leBytes_leValue (leBytes n v).reverse
    rw [List.length_reverse, length_leBytes] at h
    rw [hostBytes, swapLE, h, List.reverse_reverse]

theorem swapLE_hostValue (host : Endian) (bs : List Byte) :
    swapLE host bs.length (hostValue host bs) = leValue bs := by
  cases host with
  | little => rfl
  | big =>
    have h := leBytes_leValue bs.reverse
    rw [List.length_reverse] at h
    rw [swapLE, hostValue, h, List.reverse_reverse]

def toWire (host : Endian) {w : Nat} (x : BitVec w) : List Byte :=
  hostBytes host (w / 8) (swapLE host (w / 8) x.toNat)

def fromWire (host : Endian) (w : Nat) (bs : List Byte) : BitVec w :=
  BitVec.ofNat w (swapLE host (w / 8) (hostValue host bs))

theorem fromWire_toWire (sender receiver : Endian) {w : Nat} (hw : 8 * (w / 8) = w) (x : BitVec w) :
    fromWire receiver w (toWire sender x) = x := by
  have hlen := length_leBytes (w / 8) x.toNat
  have hswap := swapLE_hostValue receiver (leBytes (w / 8) x.toNat)
  rw [hlen] at hswap
  have hlt : x.toNat < 256 ^ (w / 8) := by
    have hpow : 2 ^ w = 256 ^ (w / 8) := by
      rw [show (256 : Nat) = 2 ^ 8 by rfl, ← Nat.pow_mul, hw]
    exact lt_of_lt_of_eq x.isLt hpow
  rw [fromWire, toWire, hostBytes_swapLE, hswap, leValue_leBytes_of_lt hlt, BitVec.ofNat_toNat,
    BitVec.setWidth_eq]

/-- An encoding of numbers of some type by 64 bits that loses nothing. -/
structure ExactEncoding (R : Type) where
  encode : R → BitVec 64
  decode : BitVec 64 → R
  exact : ∀ x, decode (encode x) = x

namespace ExactEncoding

variable {R : Type} (e : ExactEncoding R)

def toWire (host : Endian) (x : R) : List Byte := Lib.toWire host (e.encode x)

def fromWire (host : Endian) (bs : List Byte) : R := e.decode (Lib.fromWire host 64 bs)

theorem fromWire_toWire (sender receiver : Endian) (x : R) :
    e.fromWire receiver (e.toWire sender x) = x := by
  rw [fromWire, toWire, Lib.fromWire_toWire _ _ rfl, e.exact]

end ExactEncoding

def bitsEncoding : ExactEncoding (BitVec 64) := ⟨id, id, fun _ => rfl⟩

end MysqlBench.Lib
