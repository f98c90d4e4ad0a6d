import Mathlib

/-!
# Selection sort

The loop that programs in C write out by hand: for every position but the last, find the first least
key at or after the position, and exchange the two entries unless they are one. The inner loop keeps
the least key met so far and the index it was met at (`scanMin`). What one turn of the outer loop does
is `selectAt_split`: the entries before its position stay, the entry at its position becomes one that
none after it undercuts, and the entries from its position on are only rearranged. Induction over the
turns gives that the result is a rearrangement (`selectionSort_perm`) with keys in order
(`selectionSort_pairwise`).
-/

namespace MysqlBench.Lib

section Selection

variable {α κ : Type} [LinearOrder κ] (key : α → κ)

/-! ## The loops -/

/-- The inner loop over the entries from index `j` on. The least key so far is `least`, at index
`best`, and only a smaller key replaces it. -/
def scanMin : List α → Nat → κ → Nat → Nat
  | [], _, _, best => best
  | x :: rest, j, least, best =>
    if key x < least then scanMin rest (j + 1) (key x) j else scanMin rest (j + 1) least best

def selectAt (i : Nat) (l : List α) : List α :=
  match l[i]? with
  | none => l
  | some x =>
    let m := scanMin key (l.drop (i + 1)) (i + 1) (key x) i
    if m ≠ i then
      match l[m]? with
      | none => l
      | some y => (l.set m x).set i y
    else l

def selectFrom : Nat → Nat → List α → List α
  | 0, _, l => l
  | k + 1, i, l => selectFrom k (i + 1) (selectAt key i l)

def selectionSort (l : List α) : List α := selectFrom key (l.length - 1) 0 l

/-! ## One turn -/

/-- Either nothing undercuts the key the scan starts with, or the scan ends at an entry that does, and
that nothing undercuts. -/
theorem scanMin_cases (l : List α) (j : Nat) (least : κ) (best : Nat) :
    (scanMin key l j least best = best ∧ ∀ z ∈ l, least ≤ key z) ∨
      ∃ n y, scanMin key l j least best = j + n ∧ l[n]? = some y ∧ key y < least ∧
        ∀ z ∈ l, key y ≤ key z := by
  induction l generalizing j least best with
  | nil => exact .inl ⟨rfl, fun z hz => nomatch hz⟩
  | cons x rest ih =>
    rw [scanMin]
    -- a smaller element becomes the candidate, and what follows is compared with it
    by_cases hx : key x < least
    · rw [if_pos hx]
      cases ih (j + 1) (key x) j with
      | inl h =>
        refine .inr ⟨0, x, h.1, rfl, hx, fun z hz => ?_⟩
        cases hz with
        | head => exact le_rfl
        | tail _ hz => exact h.2 z hz
      | inr h =>
        obtain ⟨n, y, hscan, hget, hlt, hle⟩ := h
        refine .inr ⟨n + 1, y, by rw [hscan]; omega, hget, hlt.trans hx, fun z hz => ?_⟩
        cases hz with
        | head => exact hlt.le
        | tail _ hz => exact hle z hz
    · rw [if_neg hx]
      have hleast : least ≤ key x := not_lt.mp hx
      cases ih (j + 1) least best with
      | inl h =>
        refine .inl ⟨h.1, fun z hz => ?_⟩
        cases hz with
        | head => exact hleast
        | tail _ hz => exact h.2 z hz
      | inr h =>
        obtain ⟨n, y, hscan, hget, hlt, hle⟩ := h
        refine .inr ⟨n + 1, y, by rw [hscan]; omega, hget, hlt, fun z hz => ?_⟩
        cases hz with
        | head => exact hlt.le.trans hleast
        | tail _ hz => exact hle z hz

theorem perm_cons_set {l : List α} {n : Nat} {y : α} (x : α) (h : l[n]? = some y) :
    (y :: l.set n x).Perm (x :: l) := by
  induction l generalizing n with
  | nil => exact absurd h (by simp)
  | cons z rest ih =>
    cases n with
    | zero =>
      rw [← Option.some.inj h]
      exact List.Perm.swap x z rest
    | succ n =>
      calc (y :: z :: rest.set n x).Perm (z :: y :: rest.set n x) := List.Perm.swap _ _ _
        _ |>.Perm (z :: x :: rest) := (ih h).cons z
        _ |>.Perm (x :: z :: rest) := List.Perm.swap _ _ _

theorem selectAt_split (pre : List α) (x : α) (post : List α) :
    ∃ y post', selectAt key pre.length (pre ++ x :: post) = pre ++ y :: post' ∧
      (y :: post').Perm (x :: post) ∧ ∀ z ∈ post', key y ≤ key z := by
  have hget : (pre ++ x :: post)[pre.length]? = some x := by simp
  have hdrop : (pre ++ x :: post).drop (pre.length + 1) = post := by
    rw [List.append_cons, List.drop_left' (by simp)]
  unfold selectAt
  rw [hget]
  simp only [hdrop]
  cases scanMin_cases key post (pre.length + 1) (key x) pre.length with
  | inl h =>
    rw [h.1, if_neg (by simp)]
    exact ⟨x, post, rfl, List.Perm.refl _, h.2⟩
  | inr h =>
    obtain ⟨n, y, hscan, hy, hlt, hle⟩ := h
    have hm : pre.length + 1 + n - pre.length = n + 1 := by omega
    have hgety : (pre ++ x :: post)[pre.length + 1 + n]? = some y := by
      rw [List.getElem?_append_right (by omega), hm]
      exact hy
    rw [hscan, if_pos (by omega), hgety]
    simp only
    -- the two elements change places
    refine ⟨y, post.set n x, ?_, perm_cons_set x hy, fun z hz => ?_⟩
    · rw [List.set_append_right _ _ (by omega), hm, List.set_append_right _ _ (le_refl _)]
      simp
    · cases List.mem_or_eq_of_mem_set hz with
      | inl hz => exact hle z hz
      | inr hz => exact hz ▸ hlt.le

/-! ## All turns -/

theorem selectFrom_split (k : Nat) (pre post : List α) (hlen : post.length - 1 = k)
    (hpre : pre.Pairwise fun a b => key a ≤ key b)
    (hcross : ∀ a ∈ pre, ∀ b ∈ post, key a ≤ key b) :
    (selectFrom key k pre.length (pre ++ post)).Perm (pre ++ post) ∧
      (selectFrom key k pre.length (pre ++ post)).Pairwise fun a b => key a ≤ key b := by
  -- The entries before the position are in order and none after it undercuts one of them.
  induction k generalizing pre post with
  | zero =>
    refine ⟨List.Perm.refl _, List.pairwise_append.mpr ⟨hpre, ?_, hcross⟩⟩
    cases post with
    | nil => exact List.Pairwise.nil
    | cons b rest =>
      cases rest with
      | nil => exact List.pairwise_singleton _ b
      | cons c rest => exact absurd hlen (by simp)
  | succ k ih =>
    cases post with
    | nil => exact absurd hlen (by simp)
    | cons x post =>
      obtain ⟨y, post', heq, hperm, hleast⟩ := selectAt_split key pre x post
      have hlen' : post'.length - 1 = k := by
        have := hperm.length_eq
        simp only [List.length_cons] at this hlen
        omega
      have hy : ∀ a ∈ pre, key a ≤ key y := fun a ha =>
        hcross a ha y (hperm.mem_iff.mp List.mem_cons_self)
      have hpre' : (pre ++ [y]).Pairwise fun a b => key a ≤ key b := by
        refine List.pairwise_append.mpr ⟨hpre, List.pairwise_singleton _ y, fun a ha b hb => ?_⟩
        rw [List.mem_singleton.mp hb]
        exact hy a ha
      have hcross' : ∀ a ∈ pre ++ [y], ∀ b ∈ post', key a ≤ key b := by
        intro a ha b hb
        cases List.mem_append.mp ha with
        | inl ha => exact hcross a ha b (hperm.mem_iff.mp (List.mem_cons_of_mem y hb))
        | inr ha => exact List.mem_singleton.mp ha ▸ hleast b hb
      have hturn : selectFrom key (k + 1) pre.length (pre ++ x :: post) =
          selectFrom key k (pre ++ [y]).length (pre ++ [y] ++ post') := by
        rw [selectFrom, heq, List.length_append, List.append_assoc]
        rfl
      have hrest := ih (pre ++ [y]) post' hlen' hpre' hcross'
      rw [hturn]
      refine ⟨hrest.1.trans ?_, hrest.2⟩
      rw [List.append_assoc]
      exact hperm.append_left pre

theorem selectionSort_perm (l : List α) : (selectionSort key l).Perm l :=
  (selectFrom_split key (l.length - 1) [] l rfl List.Pairwise.nil (fun _ ha => nomatch ha)).1

theorem selectionSort_pairwise (l : List α) :
    (selectionSort key l).Pairwise fun a b => key a ≤ key b :=
  (selectFrom_split key (l.length - 1) [] l rfl List.Pairwise.nil (fun _ ha => nomatch ha)).2

end Selection

end MysqlBench.Lib
