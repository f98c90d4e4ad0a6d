import Mathlib.Data.List.Prime
import Mathlib.NumberTheory.LucasPrimality

/-!
# Double-and-add, and prime certificates

`ladder` walks the binary digits of an exponent from the top, doubling at each digit and adding
one where the digit is set. What the accumulator stands for is left to a relation `R`, so one
induction (`ladder_spec`) serves modular powers here and iterates of a shift register elsewhere.

A certificate is a list of numbers, each with a Lucas witness and the prime factors of its
predecessor with multiplicity, every factor certified by an earlier entry. The checker uses the
`Nat` functions that the kernel evaluates natively, under their own names, because it is run by
the kernel on numbers of sixty bits.
-/

namespace MysqlBench.Lib

/-! ## Double and add -/

def ladderLoop {α : Type} (dbl inc : α → α) (zero : α) : Nat → Nat → α
  | 0, _ => zero
  | fuel + 1, e =>
      let half := ladderLoop dbl inc zero fuel (Nat.div e 2)
      bif Nat.beq (Nat.mod e 2) 1 then inc (dbl half) else dbl half

def ladder {α : Type} (dbl inc : α → α) (zero : α) (e : Nat) : α :=
  ladderLoop dbl inc zero (Nat.log2 e + 1) e

/-- If `R` relates the start to zero, and doubling and adding one follow it, the ladder computes
something `R` relates to the exponent. -/
theorem ladder_spec {α : Type} {R : α → Nat → Prop} {dbl inc : α → α} {zero : α} (h0 : R zero 0)
    (hdbl : ∀ a k, R a k → R (dbl a) (k + k)) (hinc : ∀ a k, R a k → R (inc a) (k + 1))
    (e : Nat) : R (ladder dbl inc zero e) e := by
  have hloop : ∀ (fuel e : Nat), e < 2 ^ fuel → R (ladderLoop dbl inc zero fuel e) e := by
    intro fuel
    induction fuel with
    | zero =>
      intro e he
      obtain rfl : e = 0 := by simpa using he
      exact h0
    | succ fuel ih =>
      intro e he
      have hhalf := ih (e / 2) (by rw [pow_succ] at he; omega)
      rw [ladderLoop]
      cases hodd : Nat.beq (Nat.mod e 2) 1 with
      | true =>
        have h : e % 2 = 1 := Nat.eq_of_beq_eq_true hodd
        have hk := hinc _ _ (hdbl _ _ hhalf)
        rwa [show e / 2 + e / 2 + 1 = e by omega] at hk
      | false =>
        have h : e % 2 ≠ 1 := Nat.ne_of_beq_eq_false hodd
        have hk := hdbl _ _ hhalf
        rwa [show e / 2 + e / 2 = e by omega] at hk
  exact hloop _ e Nat.lt_log2_self

def powMod (m a e : Nat) : Nat :=
  ladder (fun x => Nat.mod (Nat.mul x x) m) (fun x => Nat.mod (Nat.mul x a) m) (Nat.mod 1 m) e

theorem powMod_eq (m a e : Nat) : powMod m a e = a ^ e % m := by
  refine ladder_spec (R := fun x k => x = a ^ k % m) rfl ?_ ?_ e
  · rintro _ k rfl
    show (a ^ k % m) * (a ^ k % m) % m = _
    rw [← Nat.mul_mod, pow_add]
  · rintro _ k rfl
    show (a ^ k % m) * a % m = _
    rw [Nat.mod_mul_mod, pow_succ]

/-! ## Certificates -/

structure PrattEntry where
  p : Nat
  a : Nat
  factors : List Nat

def PrattEntry.check (known : List Nat) (e : PrattEntry) : Bool :=
  Nat.ble 2 e.p && e.factors.all (fun q => known.any (Nat.beq q)) &&
    Nat.beq (e.factors.foldr Nat.mul 1) (e.p - 1) && Nat.beq (powMod e.p e.a (e.p - 1)) 1 &&
    e.factors.all fun q => !Nat.beq (powMod e.p e.a ((e.p - 1) / q)) 1

def prattCheck : List Nat → List PrattEntry → Bool
  | _, [] => true
  | known, e :: rest => e.check known && prattCheck (e.p :: known) rest

theorem mem_of_prime_dvd_foldr {q : Nat} (hq : q.Prime) {ps : List Nat}
    (hps : ∀ p ∈ ps, p.Prime) (h : q ∣ ps.foldr Nat.mul 1) : q ∈ ps := by
  obtain ⟨p, hp, hqp⟩ := (Nat.Prime.prime hq).dvd_prod_iff.mp h
  rwa [(Nat.prime_dvd_prime_iff_eq hq (hps p hp)).mp hqp]

theorem natCast_pow_eq_one_iff {p a e : Nat} (hp : 2 ≤ p) :
    (a : ZMod p) ^ e = 1 ↔ powMod p a e = 1 := by
  have h := ZMod.natCast_eq_natCast_iff' (a ^ e) 1 p
  rw [Nat.cast_pow, Nat.cast_one, Nat.mod_eq_of_lt (show 1 < p by omega)] at h
  rw [h, powMod_eq]

theorem PrattEntry.prime {known : List Nat} {e : PrattEntry} (hknown : ∀ q ∈ known, q.Prime)
    (h : e.check known = true) : e.p.Prime := by
  simp only [PrattEntry.check, Bool.and_eq_true, List.all_eq_true, List.any_eq_true,
    Nat.ble_eq, Bool.not_eq_true'] at h
  obtain ⟨⟨⟨⟨h2, hfac⟩, hprod⟩, hone⟩, hne⟩ := h
  have hprime : ∀ q ∈ e.factors, q.Prime := fun q hq => by
    obtain ⟨r, hr, hqr⟩ := hfac q hq
    rw [Nat.eq_of_beq_eq_true hqr]
    exact hknown r hr
  refine lucas_primality e.p (e.a : ZMod e.p)
    ((natCast_pow_eq_one_iff h2).mpr (Nat.eq_of_beq_eq_true hone)) ?_
  intro q hq hdvd hpow
  have hmem : q ∈ e.factors := by
    refine mem_of_prime_dvd_foldr hq hprime ?_
    rwa [Nat.eq_of_beq_eq_true hprod]
  exact Nat.ne_of_beq_eq_false (hne q hmem) ((natCast_pow_eq_one_iff h2).mp hpow)

theorem prattCheck_sound : ∀ {cert : List PrattEntry} {known : List Nat},
    (∀ q ∈ known, q.Prime) → prattCheck known cert = true → ∀ e ∈ cert, e.p.Prime := by
  intro cert
  induction cert with
  | nil => intro known _ _ e he; exact absurd he (by simp)
  | cons e rest ih =>
    intro known hknown h e' he'
    rw [prattCheck, Bool.and_eq_true] at h
    have hp := PrattEntry.prime hknown h.1
    rcases List.mem_cons.mp he' with rfl | hmem
    · exact hp
    · refine ih (fun q hq => ?_) h.2 e' hmem
      rcases List.mem_cons.mp hq with rfl | hq
      · exact hp
      · exact hknown q hq

end MysqlBench.Lib
