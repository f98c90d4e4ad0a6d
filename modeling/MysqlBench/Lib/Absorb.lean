import Mathlib

/-!
# Functions of a list that read it block by block

A hash function takes the whole blocks of its input one after another (`absorb`). Which positions
of the input matter to it, or to any function of lists, is `Depends`: two inputs that differ there
and nowhere else get different values. A function that looks at a front part of its input only
depends on the positions of that part, and on those exactly as it does on the part alone
(`depends_iff_of_take`).
-/

namespace MysqlBench.Lib

variable {α β σ : Type*}

/-! ## Lists that differ at one position -/

structure DiffersOnlyAt (i : Nat) (l l' : List α) : Prop where
  length : l'.length = l.length
  differs : l[i]? ≠ l'[i]?
  agrees : ∀ j, j ≠ i → l[j]? = l'[j]?

section DiffersOnlyAt

variable {i k : Nat} {l l' : List α}

theorem DiffersOnlyAt.lt (h : DiffersOnlyAt i l l') : i < l.length := by
  by_contra hi
  refine h.differs ?_
  rw [List.getElem?_eq_none (by omega), List.getElem?_eq_none (by rw [h.length]; omega)]

theorem DiffersOnlyAt.take_eq (h : DiffersOnlyAt i l l') (hk : k ≤ i) : l.take k = l'.take k := by
  refine List.ext_getElem? fun j => ?_
  rw [List.getElem?_take, List.getElem?_take]
  by_cases hj : j < k
  · rw [if_pos hj, if_pos hj, h.agrees j (by omega)]
  · rw [if_neg hj, if_neg hj]

theorem DiffersOnlyAt.drop_eq (h : DiffersOnlyAt i l l') (hk : i < k) : l.drop k = l'.drop k := by
  refine List.ext_getElem? fun j => ?_
  rw [List.getElem?_drop, List.getElem?_drop, h.agrees (k + j) (by omega)]

theorem DiffersOnlyAt.take (h : DiffersOnlyAt i l l') (hk : i < k) :
    DiffersOnlyAt i (l.take k) (l'.take k) where
  length := by rw [List.length_take, List.length_take, h.length]
  differs := by
    rw [List.getElem?_take, List.getElem?_take, if_pos hk, if_pos hk]
    exact h.differs
  agrees := fun j hj => by
    rw [List.getElem?_take, List.getElem?_take, h.agrees j hj]

theorem DiffersOnlyAt.append (h : DiffersOnlyAt i l l') (t : List α) :
    DiffersOnlyAt i (l ++ t) (l' ++ t) where
  length := by rw [List.length_append, List.length_append, h.length]
  differs := by
    have hi := h.lt
    rw [List.getElem?_append_left hi, List.getElem?_append_left (by rw [h.length]; exact hi)]
    exact h.differs
  agrees := fun j hj => by
    rw [List.getElem?_append, List.getElem?_append, h.length, h.agrees j hj]

theorem DiffersOnlyAt.set {x : α} (hi : i < l.length) (hx : l[i]? ≠ some x) :
    DiffersOnlyAt i l (l.set i x) where
  length := List.length_set
  differs := by
    rw [List.getElem?_set_self hi]
    exact hx
  agrees := fun j hj => (List.getElem?_set_ne (Ne.symm hj)).symm

end DiffersOnlyAt

/-! ## The positions a function depends on -/

def Depends (f : List α → β) (n i : Nat) : Prop :=
  ∃ l l' : List α, l.length = n ∧ DiffersOnlyAt i l l' ∧ f l ≠ f l'

theorem Depends.lt {f : List α → β} {n i : Nat} (h : Depends f n i) : i < n := by
  obtain ⟨l, l', rfl, hd, -⟩ := h
  exact hd.lt

theorem depends_iff_of_take [Nonempty α] {f g : List α → β} {n k : Nat} (hk : k ≤ n)
    (hf : ∀ l, l.length = n → f l = g (l.take k)) (i : Nat) : Depends f n i ↔ Depends g k i := by
  constructor
  · rintro ⟨l, l', hl, hd, hne⟩
    rw [hf l hl, hf l' (by rw [hd.length, hl])] at hne
    have hi : i < k := by
      by_contra hi
      exact hne (congrArg g (hd.take_eq (by omega)))
    exact ⟨_, _, by rw [List.length_take]; omega, hd.take hi, hne⟩
  · rintro ⟨l, l', hl, hd, hne⟩
    obtain ⟨a⟩ := ‹Nonempty α›
    -- the part is filled up with any elements to a whole list
    have hfull : ∀ l : List α, l.length = k → f (l ++ List.replicate (n - k) a) = g l := by
      intro l hl
      rw [hf _ (by rw [List.length_append, List.length_replicate]; omega),
        List.take_append_of_le_length (by omega), List.take_of_length_le (by omega)]
    refine ⟨_, _, ?_, hd.append (List.replicate (n - k) a), ?_⟩
    · rw [List.length_append, List.length_replicate]
      omega
    · rw [hfull l hl, hfull l' (by rw [hd.length, hl])]
      exact hne

theorem depends_comp_iff {γ : Type*} {f : List α → β} {g : β → γ} (hg : Function.Injective g)
    (n i : Nat) : Depends (fun l => g (f l)) n i ↔ Depends f n i := by
  unfold Depends
  simp only [ne_eq, hg.eq_iff]

/-! ## Blocks -/

def absorb (b : Nat) (step : σ → List α → σ) : Nat → σ → List α → σ
  | 0, s, _ => s
  | n + 1, s, l => absorb b step n (step s (l.take b)) (l.drop b)

theorem absorb_take (b : Nat) (step : σ → List α → σ) : ∀ (n : Nat) (s : σ) (l : List α),
    absorb b step n s l = absorb b step n s (l.take (b * n)) := by
  intro n
  induction n with
  | zero => intro s l; rfl
  | succ n ih =>
    intro s l
    have hle : b ≤ b * (n + 1) := Nat.le_mul_of_pos_right b (Nat.succ_pos n)
    rw [absorb, absorb, List.take_take, Nat.min_eq_left hle, ih, List.drop_take,
      show b * (n + 1) - b = b * n by rw [Nat.mul_succ]; omega]

/-! ## One element among equal ones -/

section Survival

variable {b n N j p : Nat} {step : σ → List α → σ} {s : σ} {x y : α}

theorem absorb_replicate (b : Nat) (step : σ → List α → σ) (x : α) (n : Nat) (s : σ) :
    absorb b step n s (List.replicate (b * n) x) = (step · (List.replicate b x))^[n] s := by
  induction n generalizing s with
  | zero => rfl
  | succ n ih =>
    have hle : b ≤ b * (n + 1) := Nat.le_mul_of_pos_right b (Nat.succ_pos n)
    rw [absorb, List.take_replicate, List.drop_replicate, Nat.min_eq_left hle,
      show b * (n + 1) - b = b * n by rw [Nat.mul_succ]; omega, ih]
    rfl

theorem absorb_set (hp : p < b) (x y : α) (j m : Nat) (s : σ) :
    absorb b step (j + 1 + m) s ((List.replicate (b * (j + 1 + m)) x).set (b * j + p) y) =
      (step · (List.replicate b x))^[m]
        (step ((step · (List.replicate b x))^[j] s) ((List.replicate b x).set p y)) := by
  induction j generalizing s with
  | zero =>
    have hle : b ≤ b * (0 + 1 + m) := Nat.le_mul_of_pos_right b (by omega)
    rw [show 0 + 1 + m = m + 1 by omega] at hle ⊢
    rw [absorb, Nat.mul_zero, Nat.zero_add, List.take_set, List.take_replicate, Nat.min_eq_left hle,
      List.drop_set_of_lt hp, List.drop_replicate,
      show b * (m + 1) - b = b * m by rw [Nat.mul_succ]; omega, absorb_replicate]
    rfl
  | succ j ih =>
    have hle : b ≤ b * (j + 1 + m + 1) := Nat.le_mul_of_pos_right b (by omega)
    rw [show j + 1 + 1 + m = j + 1 + m + 1 by omega, absorb, List.take_set_of_le (by rw [Nat.mul_succ]; omega),
      List.take_replicate, Nat.min_eq_left hle, List.drop_set, if_neg (by rw [Nat.mul_succ]; omega),
      List.drop_replicate, show b * (j + 1 + m + 1) - b = b * (j + 1 + m) by rw [Nat.mul_succ]; omega,
      show b * (j + 1) + p - b = b * j + p by rw [Nat.mul_succ]; omega, ih]
    rfl

/-- If the change of one element can be seen after `N` blocks, it can be seen all the time: equal states
would have stayed equal. -/
theorem depends_of_survives (hp : p < b) (hxy : x ≠ y) (hjn : j < n) (hnN : n ≤ N)
    (h : (step · (List.replicate b x))^[N - 1 - j]
        (step ((step · (List.replicate b x))^[j] s) ((List.replicate b x).set p y)) ≠
      (step · (List.replicate b x))^[N] s) :
    Depends (absorb b step n s) (b * n) (b * j + p) := by
  have hlt : b * j + p < b * n := by
    have := Nat.mul_le_mul_left b (show j + 1 ≤ n from hjn)
    rw [Nat.mul_succ] at this
    omega
  refine ⟨List.replicate (b * n) x, _, List.length_replicate, DiffersOnlyAt.set (x := y) ?_ ?_, ?_⟩
  · rwa [List.length_replicate]
  · rw [List.getElem?_replicate, if_pos hlt]
    exact fun heq => hxy (Option.some.inj heq)
  · intro heq
    obtain ⟨m, rfl⟩ : ∃ m, n = j + 1 + m := ⟨n - (j + 1), by omega⟩
    rw [absorb_replicate, absorb_set hp] at heq
    have hafter := congrArg (step · (List.replicate b x))^[N - (j + 1 + m)] heq
    rw [← Function.iterate_add_apply, ← Function.iterate_add_apply,
      show N - (j + 1 + m) + (j + 1 + m) = N by omega,
      show N - (j + 1 + m) + m = N - 1 - j by omega] at hafter
    exact h hafter.symm

end Survival

/-! ## Words in memory -/

/-- The number whose digits to the base `2 ^ w`, lowest first, are the words. -/
def wordsValue {w : Nat} : List (BitVec w) → Nat
  | [] => 0
  | x :: xs => x.toNat + 2 ^ w * wordsValue xs

theorem wordsValue_lt {w : Nat} : ∀ xs : List (BitVec w), wordsValue xs < 2 ^ (w * xs.length) := by
  intro xs
  induction xs with
  | nil => simp [wordsValue]
  | cons x xs ih =>
    have hx := x.isLt
    calc x.toNat + 2 ^ w * wordsValue xs
        < 2 ^ w + 2 ^ w * wordsValue xs := by omega
      _ = 2 ^ w * (wordsValue xs + 1) := by ring
      _ ≤ 2 ^ w * 2 ^ (w * xs.length) := Nat.mul_le_mul_left _ ih
      _ = 2 ^ (w * (x :: xs).length) := by rw [← Nat.pow_add, List.length_cons, Nat.mul_succ,
          Nat.add_comm]

theorem wordsValue_inj {w : Nat} : ∀ {xs ys : List (BitVec w)}, xs.length = ys.length →
    wordsValue xs = wordsValue ys → xs = ys := by
  intro xs
  induction xs with
  | nil =>
    intro ys hlen _
    exact (List.length_eq_zero_iff.mp hlen.symm).symm
  | cons x xs ih =>
    intro ys hlen h
    cases ys with
    | nil => simp at hlen
    | cons y ys =>
      have hpos := Nat.two_pow_pos w
      have hmod : ∀ (z : BitVec w) (zs : List (BitVec w)),
          wordsValue (z :: zs) % 2 ^ w = z.toNat ∧ wordsValue (z :: zs) / 2 ^ w = wordsValue zs :=
        fun z zs => ⟨by rw [wordsValue, Nat.add_mul_mod_self_left, Nat.mod_eq_of_lt z.isLt],
          by rw [wordsValue, Nat.add_mul_div_left _ _ hpos, Nat.div_eq_of_lt z.isLt, Nat.zero_add]⟩
      have hx : x = y := BitVec.eq_of_toNat_eq (by rw [← (hmod x xs).1, h, (hmod y ys).1])
      have hxs : xs = ys :=
        ih (by simpa using hlen) (by rw [← (hmod x xs).2, h, (hmod y ys).2])
      rw [hx, hxs]

theorem packed_injective {w n m : Nat} {words : σ → List (BitVec w)} (hinj : Function.Injective words)
    (hlen : ∀ s, (words s).length = n) (hm : w * n ≤ m) :
    Function.Injective fun s => BitVec.ofNat m (wordsValue (words s)) := by
  intro s s' h
  have hlt : ∀ s, wordsValue (words s) < 2 ^ m := fun s =>
    (wordsValue_lt _).trans_le (Nat.pow_le_pow_right (by decide) (by rw [hlen]; exact hm))
  have hv := congrArg BitVec.toNat h
  simp only [BitVec.toNat_ofNat, Nat.mod_eq_of_lt (hlt _)] at hv
  exact hinj (wordsValue_inj (by rw [hlen, hlen]) hv)

end MysqlBench.Lib
