import MysqlBench.Fio.Lfsr.Model
import MysqlBench.Lib.Galois

/-!
# Every row of `taps[]` is maximal

That a row of width `n` gives a register of period `2 ^ n - 1` is a computation for each of the 61
rows: the factors of `2 ^ n - 1` are given, certified prime, and the register's iterates at the
quotients are computed and compared.
-/

namespace MysqlBench.Fio

open MysqlBench.Lib

/-! ## The certificates -/

/-- The primes that divide `2 ^ n - 1` for a width `n` of the table, and those needed to certify
them. -/
def primeCert : List PrattEntry := [
    ⟨3, 2, [2]⟩, ⟨5, 2, [2, 2]⟩, ⟨7, 3, [2, 3]⟩, ⟨11, 2, [2, 5]⟩, ⟨13, 2, [2, 2, 3]⟩,
    ⟨17, 3, [2, 2, 2, 2]⟩, ⟨19, 2, [2, 3, 3]⟩, ⟨23, 5, [2, 11]⟩, ⟨29, 2, [2, 2, 7]⟩,
    ⟨31, 3, [2, 3, 5]⟩, ⟨37, 2, [2, 2, 3, 3]⟩, ⟨41, 6, [2, 2, 2, 5]⟩, ⟨43, 3, [2, 3, 7]⟩,
    ⟨47, 5, [2, 23]⟩, ⟨53, 2, [2, 2, 13]⟩, ⟨59, 2, [2, 29]⟩, ⟨61, 2, [2, 2, 3, 5]⟩,
    ⟨71, 7, [2, 5, 7]⟩, ⟨73, 5, [2, 2, 2, 3, 3]⟩, ⟨79, 3, [2, 3, 13]⟩, ⟨83, 2, [2, 41]⟩,
    ⟨89, 3, [2, 2, 2, 11]⟩, ⟨97, 5, [2, 2, 2, 2, 2, 3]⟩, ⟨103, 5, [2, 3, 17]⟩,
    ⟨109, 6, [2, 2, 3, 3, 3]⟩, ⟨113, 3, [2, 2, 2, 2, 7]⟩, ⟨127, 3, [2, 3, 3, 7]⟩,
    ⟨131, 2, [2, 5, 13]⟩, ⟨151, 6, [2, 3, 5, 5]⟩, ⟨157, 5, [2, 2, 3, 13]⟩,
    ⟨163, 2, [2, 3, 3, 3, 3]⟩, ⟨167, 5, [2, 83]⟩, ⟨173, 2, [2, 2, 43]⟩, ⟨197, 2, [2, 2, 7, 7]⟩,
    ⟨223, 3, [2, 3, 37]⟩, ⟨233, 3, [2, 2, 2, 29]⟩, ⟨241, 7, [2, 2, 2, 2, 3, 5]⟩,
    ⟨251, 6, [2, 5, 5, 5]⟩, ⟨257, 3, [2, 2, 2, 2, 2, 2, 2, 2]⟩, ⟨293, 2, [2, 2, 73]⟩,
    ⟨331, 3, [2, 3, 5, 11]⟩, ⟨337, 10, [2, 2, 2, 2, 3, 7]⟩, ⟨389, 2, [2, 2, 97]⟩,
    ⟨397, 5, [2, 2, 3, 3, 11]⟩, ⟨421, 2, [2, 2, 3, 5, 7]⟩, ⟨431, 7, [2, 5, 43]⟩,
    ⟨439, 15, [2, 3, 73]⟩, ⟨569, 3, [2, 2, 2, 71]⟩, ⟨601, 7, [2, 2, 2, 3, 5, 5]⟩,
    ⟨617, 3, [2, 2, 2, 7, 11]⟩, ⟨631, 3, [2, 3, 3, 5, 7]⟩, ⟨673, 5, [2, 2, 2, 2, 2, 3, 7]⟩,
    ⟨683, 5, [2, 11, 31]⟩, ⟨881, 3, [2, 2, 2, 2, 5, 11]⟩, ⟨1039, 3, [2, 3, 173]⟩,
    ⟨1103, 5, [2, 19, 29]⟩, ⟨1289, 6, [2, 2, 2, 7, 23]⟩, ⟨1321, 13, [2, 2, 2, 3, 5, 11]⟩,
    ⟨1613, 3, [2, 2, 13, 31]⟩, ⟨1801, 11, [2, 2, 2, 3, 3, 5, 5]⟩, ⟨2089, 7, [2, 2, 2, 3, 3, 29]⟩,
    ⟨2113, 5, [2, 2, 2, 2, 2, 2, 3, 11]⟩, ⟨2143, 3, [2, 3, 3, 7, 17]⟩,
    ⟨2179, 7, [2, 3, 3, 11, 11]⟩, ⟨2351, 13, [2, 5, 5, 47]⟩, ⟨2713, 5, [2, 2, 2, 3, 113]⟩,
    ⟨2731, 3, [2, 3, 5, 7, 13]⟩, ⟨3191, 11, [2, 5, 11, 29]⟩, ⟨4051, 10, [2, 3, 3, 3, 3, 5, 5]⟩,
    ⟨4513, 7, [2, 2, 2, 2, 2, 3, 47]⟩, ⟨5419, 3, [2, 3, 3, 7, 43]⟩,
    ⟨6361, 19, [2, 2, 2, 3, 5, 53]⟩, ⟨8191, 17, [2, 3, 3, 5, 7, 13]⟩,
    ⟨8501, 7, [2, 2, 5, 5, 5, 17]⟩, ⟨9719, 17, [2, 43, 113]⟩, ⟨10639, 6, [2, 3, 3, 3, 197]⟩,
    ⟨11119, 3, [2, 3, 17, 109]⟩, ⟨13367, 5, [2, 41, 163]⟩, ⟨23311, 3, [2, 3, 3, 5, 7, 37]⟩,
    ⟨32377, 5, [2, 2, 2, 3, 19, 71]⟩, ⟨43691, 6, [2, 5, 17, 257]⟩,
    ⟨61681, 29, [2, 2, 2, 2, 3, 5, 257]⟩,
    ⟨65537, 3, [2, 2, 2, 2, 2, 2, 2, 2, 2, 2, 2, 2, 2, 2, 2, 2]⟩, ⟨69431, 13, [2, 5, 53, 131]⟩,
    ⟨87211, 13, [2, 3, 3, 3, 5, 17, 19]⟩, ⟨92737, 5, [2, 2, 2, 2, 2, 2, 3, 3, 7, 23]⟩,
    ⟨121369, 7, [2, 2, 2, 3, 13, 389]⟩, ⟨122921, 3, [2, 2, 2, 5, 7, 439]⟩,
    ⟨131071, 3, [2, 3, 5, 17, 257]⟩, ⟨174763, 17, [2, 3, 3, 7, 19, 73]⟩,
    ⟨178481, 3, [2, 2, 2, 2, 5, 23, 97]⟩, ⟨179951, 7, [2, 5, 5, 59, 61]⟩,
    ⟨201961, 13, [2, 2, 2, 3, 3, 3, 5, 11, 17]⟩,
    ⟨262657, 5, [2, 2, 2, 2, 2, 2, 2, 2, 2, 3, 3, 3, 19]⟩, ⟨524287, 3, [2, 3, 3, 3, 7, 19, 73]⟩,
    ⟨599479, 6, [2, 3, 11, 31, 293]⟩, ⟨649657, 5, [2, 2, 2, 3, 3, 7, 1289]⟩,
    ⟨1212847, 5, [2, 3, 19, 10639]⟩, ⟨2099863, 3, [2, 3, 3, 43, 2713]⟩,
    ⟨2796203, 5, [2, 23, 89, 683]⟩, ⟨3033169, 7, [2, 2, 2, 2, 3, 29, 2179]⟩,
    ⟨8060489, 3, [2, 2, 2, 23, 71, 617]⟩, ⟨13264529, 3, [2, 2, 2, 2, 31, 47, 569]⟩,
    ⟨15790321, 19, [2, 2, 2, 2, 3, 3, 5, 7, 13, 241]⟩,
    ⟨20394401, 3, [2, 2, 2, 2, 2, 5, 5, 13, 37, 53]⟩, ⟨164511353, 3, [2, 2, 2, 41, 59, 8501]⟩,
    ⟨616318177, 5, [2, 2, 2, 2, 2, 3, 37, 167, 1039]⟩,
    ⟨715827883, 5, [2, 3, 7, 11, 31, 151, 331]⟩, ⟨2147483647, 7, [2, 3, 3, 7, 11, 31, 151, 331]⟩,
    ⟨3203431780337, 3, [2, 2, 2, 2, 59, 421, 8060489]⟩,
    ⟨4432676798593, 5, [2, 2, 2, 2, 2, 2, 2, 3, 3, 7, 7, 43, 337, 5419]⟩,
    ⟨2305843009213693951, 37, [2, 3, 3, 5, 5, 7, 11, 13, 31, 41, 61, 151, 331, 1321]⟩]

theorem primeCert_check : prattCheck [2] primeCert = true := by decide +kernel

theorem primeCert_prime {e : PrattEntry} (he : e ∈ primeCert) : e.p.Prime :=
  prattCheck_sound (fun q hq => by simp only [List.mem_singleton] at hq; exact hq ▸ Nat.prime_two)
    primeCert_check e he

structure TapCert where
  mask : Nat
  factors : List Nat

def tapCerts : List TapCert := [
    ⟨0x6, [7]⟩, ⟨0xc, [3, 5]⟩, ⟨0x14, [31]⟩, ⟨0x30, [3, 3, 7]⟩, ⟨0x60, [127]⟩, ⟨0xb8, [3, 5, 17]⟩,
    ⟨0x110, [7, 73]⟩, ⟨0x240, [3, 11, 31]⟩, ⟨0x500, [23, 89]⟩, ⟨0x829, [3, 3, 5, 7, 13]⟩,
    ⟨0x100d, [8191]⟩, ⟨0x2015, [3, 43, 127]⟩, ⟨0x6000, [7, 31, 151]⟩, ⟨0xd008, [3, 5, 17, 257]⟩,
    ⟨0x12000, [131071]⟩, ⟨0x20400, [3, 3, 3, 7, 19, 73]⟩, ⟨0x40023, [524287]⟩,
    ⟨0x90000, [3, 5, 5, 11, 31, 41]⟩, ⟨0x140000, [7, 7, 127, 337]⟩, ⟨0x300000, [3, 23, 89, 683]⟩,
    ⟨0x420000, [47, 178481]⟩, ⟨0xe10000, [3, 3, 5, 7, 13, 17, 241]⟩, ⟨0x1200000, [31, 601, 1801]⟩,
    ⟨0x2000023, [3, 2731, 8191]⟩, ⟨0x4000013, [7, 73, 262657]⟩,
    ⟨0x9000000, [3, 5, 29, 43, 113, 127]⟩, ⟨0x14000000, [233, 1103, 2089]⟩,
    ⟨0x20000029, [3, 3, 7, 11, 31, 151, 331]⟩, ⟨0x48000000, [2147483647]⟩,
    ⟨0xd0000001, [3, 5, 17, 257, 65537]⟩, ⟨0x100080000, [7, 23, 89, 599479]⟩,
    ⟨0x204000003, [3, 43691, 131071]⟩, ⟨0x500000000, [31, 71, 127, 122921]⟩,
    ⟨0x801000000, [3, 3, 3, 5, 7, 13, 19, 37, 73, 109]⟩, ⟨0x100000001f, [223, 616318177]⟩,
    ⟨0x2000000031, [3, 174763, 524287]⟩, ⟨0x4400000000, [7, 79, 8191, 121369]⟩,
    ⟨0xa000140000, [3, 5, 5, 11, 17, 31, 41, 61681]⟩, ⟨0x12000000000, [13367, 164511353]⟩,
    ⟨0x300000c0000, [3, 3, 7, 7, 43, 127, 337, 5419]⟩, ⟨0x63000000000, [431, 9719, 2099863]⟩,
    ⟨0xc0000030000, [3, 5, 23, 89, 397, 683, 2113]⟩,
    ⟨0x1b0000000000, [7, 31, 73, 151, 631, 23311]⟩, ⟨0x300003000000, [3, 47, 178481, 2796203]⟩,
    ⟨0x420000000000, [2351, 4513, 13264529]⟩,
    ⟨0xc00000180000, [3, 3, 5, 7, 13, 17, 97, 241, 257, 673]⟩,
    ⟨0x1008000000000, [127, 4432676798593]⟩, ⟨0x3000000c00000, [3, 11, 31, 251, 601, 1801, 4051]⟩,
    ⟨0x6000c00000000, [7, 103, 2143, 11119, 131071]⟩,
    ⟨0x9000000000000, [3, 5, 53, 157, 1613, 2731, 8191]⟩,
    ⟨0x18003000000000, [6361, 69431, 20394401]⟩,
    ⟨0x30000000030000, [3, 3, 3, 3, 7, 19, 73, 87211, 262657]⟩,
    ⟨0x40000040000000, [23, 31, 89, 881, 3191, 201961]⟩,
    ⟨0xc0000600000000, [3, 5, 17, 29, 43, 113, 127, 15790321]⟩,
    ⟨0x102000000000000, [7, 32377, 524287, 1212847]⟩,
    ⟨0x200004000000000, [3, 59, 233, 1103, 2089, 3033169]⟩,
    ⟨0x600003000000000, [179951, 3203431780337]⟩,
    ⟨0xc00000000000000, [3, 3, 5, 5, 7, 11, 13, 31, 41, 61, 151, 331, 1321]⟩,
    ⟨0x1800300000000000, [2305843009213693951]⟩, ⟨0x3000000000000030, [3, 715827883, 2147483647]⟩,
    ⟨0x6000000000000000, [7, 7, 73, 127, 337, 92737, 649657]⟩]

def TapCert.check (n : Nat) (c : TapCert) : Bool :=
  Nat.beq (lfsrCreateXormask (taps.getD n [])).toNat c.mask &&
    Nat.beq ((taps.getD n []).headD 0) n && Nat.ble (c.mask + 1) (2 ^ n) &&
    c.factors.all (fun q => primeCert.any fun e => Nat.beq q e.p) &&
    Nat.beq (c.factors.foldr Nat.mul 1) (2 ^ n - 1) && galoisCheck c.mask n c.factors.dedup

def tapChecks : Nat → List TapCert → Bool
  | _, [] => true
  | n, c :: rest => c.check n && tapChecks (n + 1) rest

theorem tapCerts_check : tapChecks 3 tapCerts = true := by decide +kernel

theorem tapChecks_get : ∀ {cs : List TapCert} {n i : Nat} {c : TapCert}, tapChecks n cs = true →
    cs[i]? = some c → c.check (n + i) = true := by
  intro cs
  induction cs with
  | nil => intro n i c _ hi; exact absurd hi (by simp)
  | cons d rest ih =>
    intro n i c h hi
    rw [tapChecks, Bool.and_eq_true] at h
    cases i with
    | zero =>
      obtain rfl : d = c := by simpa using hi
      exact h.1
    | succ i =>
      rw [show n + (i + 1) = n + 1 + i by omega]
      exact ih h.2 (by simpa using hi)

def tapMask (n : Nat) : Nat := (lfsrCreateXormask (taps.getD n [])).toNat

/-- A row of width `n` names `n` first, flips bits of `n`-bit states only, and takes every state
but zero through `2 ^ n - 1` states. -/
theorem taps_maximal {n : Nat} (h3 : 3 ≤ n) (h63 : n ≤ 63) :
    (taps.getD n []).headD 0 = n ∧ tapMask n < 2 ^ n ∧
      ∀ w, w < 2 ^ n → w ≠ 0 → Function.minimalPeriod (galoisStep (tapMask n)) w = 2 ^ n - 1 := by
  have hlen : n - 3 < tapCerts.length := by
    have : tapCerts.length = 61 := by decide
    omega
  have h := tapChecks_get tapCerts_check (List.getElem?_eq_getElem hlen)
  rw [show 3 + (n - 3) = n by omega] at h
  generalize tapCerts[n - 3] = c at h
  simp only [TapCert.check, Bool.and_eq_true, Nat.ble_eq, List.all_eq_true, List.any_eq_true] at h
  obtain ⟨⟨⟨⟨⟨hmask, hhead⟩, hlt⟩, hprime⟩, hprod⟩, hcheck⟩ := h
  have hmask : tapMask n = c.mask := Nat.eq_of_beq_eq_true hmask
  have hfac : ∀ q ∈ c.factors, q.Prime := fun q hq => by
    obtain ⟨e, he, hqe⟩ := hprime q hq
    rw [Nat.eq_of_beq_eq_true hqe]
    exact primeCert_prime he
  have hper : Function.minimalPeriod (galoisStep c.mask) (2 ^ (n - 1)) = 2 ^ n - 1 := by
    refine minimalPeriod_of_galoisCheck hlt (by omega) (fun p hp hdvd => ?_) hcheck
    rw [← Nat.eq_of_beq_eq_true hprod] at hdvd
    exact List.mem_dedup.mpr (mem_of_prime_dvd_foldr hp hfac hdvd)
  rw [hmask]
  exact ⟨Nat.eq_of_beq_eq_true hhead, hlt, fun w hw h0 =>
    minimalPeriod_of_maximal hlt (by omega) hper hw h0⟩

end MysqlBench.Fio
