import Mathlib

/-!
# Shuffling in place

A shuffle goes through the positions of an array and exchanges the entry at each with one further on, or
with itself. `shuffleFrom i rs` does so from position `i`, and `rs` says how far on the other entry is,
round by round. Nothing before the position is touched any more (`shuffleFrom_succ_cons`), so the first
round decides the first entry and the others shuffle what is left (`shuffleFrom_cons`).

Whatever the distances, the result is a rearrangement (`shuffleFrom_perm`). If they stay inside the array
and an entry may stay where it is (`Reduced`), every rearrangement of distinct entries is the result of
exactly one list of distances (`existsUnique_shuffle`): its first entry says where the first round went.
-/

namespace MysqlBench.Lib

section Shuffle

variable {α : Type}

def shuffleFrom : Nat → List Nat → List α → List α
  | _, [], l => l
  | i, r :: rs, l => shuffleFrom (i + 1) rs (l.swap i (i + r))

/-- A distance for every position of an array of `n` entries but the last, none of them too great. -/
def Reduced (n : Nat) (rs : List Nat) : Prop := rs.length + 1 = n ∧ ∀ i r, rs[i]? = some r → i + r < n

theorem reduced_cons {n r : Nat} {rs : List Nat} :
    Reduced (n + 1) (r :: rs) ↔ r < n + 1 ∧ Reduced n rs := by
  unfold Reduced
  constructor
  · intro h
    refine ⟨by simpa using h.2 0 r rfl, by simpa using h.1, fun i r' hr' => ?_⟩
    have := h.2 (i + 1) r' (by simpa using hr')
    omega
  · intro ⟨hr, hlen, hrs⟩
    refine ⟨by simpa using hlen, fun i r' hr' => ?_⟩
    cases i with
    | zero =>
      rw [List.getElem?_cons_zero, Option.some.injEq] at hr'
      omega
    | succ i =>
      have := hrs i r' (by simpa using hr')
      omega

theorem shuffleFrom_perm (i : Nat) (rs : List Nat) (l : List α) : (shuffleFrom i rs l).Perm l := by
  induction rs generalizing i l with
  | nil => exact List.Perm.refl l
  | cons r rs ih => exact (ih (i + 1) _).trans (List.swap_perm l i (i + r))

theorem shuffleFrom_succ_cons (i : Nat) (rs : List Nat) (x : α) (l : List α) :
    shuffleFrom (i + 1) rs (x :: l) = x :: shuffleFrom i rs l := by
  induction rs generalizing i l with
  | nil => rfl
  | cons r rs ih => rw [shuffleFrom, shuffleFrom, Nat.add_right_comm i 1 r, List.swap_cons, ih]

theorem exists_swap_zero {l : List α} {r : Nat} {y : α} (hr : l[r]? = some y) :
    ∃ t, l.swap 0 r = y :: t := by
  cases l with
  | nil => exact absurd hr (by simp)
  | cons x l =>
    cases r with
    | zero => exact ⟨l, by simpa using hr⟩
    | succ j => exact ⟨l.set j x, by simpa using congrArg (Option.getD · x) hr⟩

theorem shuffleFrom_cons {l t : List α} {r : Nat} {y : α} (hswap : l.swap 0 r = y :: t) (rs : List Nat) :
    shuffleFrom 0 (r :: rs) l = y :: shuffleFrom 0 rs t := by
  rw [shuffleFrom, Nat.zero_add r, hswap, shuffleFrom_succ_cons]

theorem existsUnique_shuffle {l p : List α} (hnodup : l.Nodup) (hp : p.Perm l) (hne : l ≠ []) :
    ∃! rs, Reduced l.length rs ∧ shuffleFrom 0 rs l = p := by
  induction p generalizing l with
  | nil => exact absurd hp.symm.eq_nil hne
  | cons y p ih =>
    obtain ⟨r, hr⟩ := List.getElem?_of_mem (hp.subset List.mem_cons_self)
    obtain ⟨t, hswap⟩ := exists_swap_zero hr
    have hyt : (y :: t).Perm l := hswap ▸ List.swap_perm l 0 r
    have hpt : p.Perm t := (hp.trans hyt.symm).cons_inv
    have hlen : l.length = t.length + 1 := hyt.length_eq.symm
    obtain ⟨hlt, rfl⟩ := List.getElem?_eq_some_iff.mp hr
    by_cases ht : t = []
    · -- One entry is left, and nothing to choose.
      have hone : l.length = 1 := by rw [hlen, ht]; rfl
      rw [ht] at hpt hyt
      refine ⟨[], ⟨⟨hone.symm, by simp⟩, ?_⟩, fun rs' h => ?_⟩
      · rw [hpt.eq_nil]
        exact (List.perm_singleton.mp hyt.symm)
      · exact List.length_eq_zero_iff.mp (Nat.succ.inj (h.1.1.trans hone))
    · obtain ⟨rs, ⟨hrs, heq⟩, hunique⟩ := ih (hyt.nodup_iff.mpr hnodup).of_cons hpt ht
      refine ⟨r :: rs, ⟨?_, by rw [shuffleFrom_cons hswap, heq]⟩, fun rs' h => ?_⟩
      · rw [hlen, reduced_cons]
        exact ⟨hlen ▸ hlt, hrs⟩
      · obtain ⟨hrs', heq'⟩ := h
        rw [hlen] at hrs'
        cases rs' with
        | nil => exact absurd (Nat.succ.inj hrs'.1).symm (by simpa using ht)
        | cons r' rs' =>
          obtain ⟨hr', hrs'⟩ := reduced_cons.mp hrs'
          have hlt' : r' < l.length := hlen ▸ hr'
          obtain ⟨t', hswap'⟩ := exists_swap_zero (List.getElem?_eq_getElem hlt')
          rw [shuffleFrom_cons hswap', List.cons.injEq] at heq'
          -- The first entry of the result says where the first round went.
          obtain rfl : r' = r := hnodup.getElem_inj_iff.mp heq'.1
          rw [hswap, List.cons.injEq] at hswap'
          rw [hunique rs' ⟨hrs', hswap'.2 ▸ heq'.2⟩]

end Shuffle

end MysqlBench.Lib
