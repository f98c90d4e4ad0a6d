import Mathlib

/-!
# Sorted batches of the verify phase

With `verifysort_nr` the offsets to verify are drawn in batches, and `get_next_rand_offset` hands
each batch out from a list that `flist_sort` has sorted. The sort is a merge sort from below: slot
`lev` of `part` holds a sorted list or `NULL`, and a new element is merged with the full slots from
the lowest on, like a carry.

Which lists are merged with which does not depend on what is in them. So the slots are modelled for
things of any type that can be joined (`mergeAll`), and a map that respects the joining takes one run
to the other (`mergeAll_map`). Run on trees the sort gives the tree of its merges, whose value is the
sorted list (`flistSort_eq`); run on multisets it shows that nothing is lost (`mergeAll_eq`).

Whether the result is in order depends on the comparisons that are made, and these depend on one another:
a wrong answer changes what is compared next. But all lists that are merged on the way stay in the result,
so that a result in order has only right answers behind it (`sameOn_of_sorted`), and as long as the answers
are right the run is that of the exact comparison (`value_congr`). So a list is sorted exactly if the
comparison is right on the pairs that the exact one would be asked for (`sorted_iff`). `flist_cmp` returns
the difference of two 64-bit numbers as an `int`, and is right as long as that is (`flistCmp_right_iff`).
-/

namespace MysqlBench.Fio.VerifySort

/-! ## The slots -/

section Slots

variable {β γ : Type} (join : β → β → β)

def maxListLengthBits : Nat := 20

structure SortState (β : Type) where
  part : List (Option β)
  maxLev : Nat

def carry : List (Option β) → β → Nat × β
  | [], cur => (0, cur)
  | none :: _, cur => (0, cur)
  | some slot :: slots, cur =>
    let r := carry slots (join slot cur)
    (r.1 + 1, r.2)

def addElement (s : SortState β) (x : β) : SortState β :=
  let r := carry join s.part x
  let emptied := List.replicate r.1 none ++ s.part.drop r.1
  if s.maxLev < r.1 then
    let lev := if maxListLengthBits ≤ r.1 then r.1 - 1 else r.1
    { part := emptied.set lev (some r.2), maxLev := lev }
  else { s with part := emptied.set r.1 (some r.2) }

def slotsOf (xs : List β) : SortState β :=
  xs.foldl (addElement join) ⟨List.replicate maxListLengthBits none, 0⟩

def mergeSlots (slots : List (Option β)) : Option β :=
  slots.foldl (fun list slot => Option.merge join slot list) none

def mergeAndRestoreBackLinks (a b : Option β) : Option β := Option.merge join a b

def mergeAll (xs : List β) : Option β :=
  let s := slotsOf join xs
  mergeAndRestoreBackLinks join (s.part.getD s.maxLev none) (mergeSlots join (s.part.take s.maxLev))

/-! ### Runs on other things -/

section Map

variable {join} {join' : γ → γ → γ} {f : β → γ} (hf : ∀ a b, f (join a b) = join' (f a) (f b))

def SortState.map (f : β → γ) (s : SortState β) : SortState γ := ⟨s.part.map (Option.map f), s.maxLev⟩

include hf

theorem carry_map (slots : List (Option β)) (cur : β) :
    carry join' (slots.map (Option.map f)) (f cur) =
      ((carry join slots cur).1, f (carry join slots cur).2) := by
  induction slots generalizing cur with
  | nil => rfl
  | cons slot slots ih =>
    cases slot with
    | none => rfl
    | some slot => simp only [List.map_cons, Option.map_some, carry, ← hf, ih]

theorem addElement_map (s : SortState β) (x : β) :
    addElement join' (s.map f) (f x) = (addElement join s x).map f := by
  simp only [addElement, SortState.map, carry_map hf]
  split_ifs <;> simp only [List.map_set, List.map_append, List.map_replicate, List.map_drop, Option.map_none,
    Option.map_some]

theorem merge_map (a b : Option β) :
    Option.merge join' (a.map f) (b.map f) = (Option.merge join a b).map f := by
  cases a <;> cases b <;> simp [Option.merge, hf]

theorem mergeAll_map (xs : List β) : mergeAll join' (xs.map f) = (mergeAll join xs).map f := by
  have hslots : slotsOf join' (xs.map f) = (slotsOf join xs).map f := by
    rw [slotsOf, List.foldl_map]
    have hinit : (⟨List.replicate maxListLengthBits none, 0⟩ : SortState γ) =
        SortState.map f ⟨List.replicate maxListLengthBits none, 0⟩ := by
      rw [SortState.map, List.map_replicate, Option.map_none]
    rw [hinit, List.foldl_hom (SortState.map f) (addElement_map hf), slotsOf]
  have hmerge : ∀ slots, mergeSlots join' (slots.map (Option.map f)) = (mergeSlots join slots).map f := by
    intro slots
    rw [mergeSlots, List.foldl_map, ← Option.map_none (f := f),
      List.foldl_hom (Option.map f) fun list slot => merge_map hf slot list, mergeSlots]
  have hget : ∀ (slots : List (Option β)) n, (slots.map (Option.map f)).getD n none = (slots.getD n none).map f :=
    fun slots n => List.getD_map slots none (Option.map f)
  simp only [mergeAll, mergeAndRestoreBackLinks, hslots, SortState.map, ← List.map_take, hmerge, merge_map hf, hget]

end Map

/-! ### Nothing is lost

Where the order of joining does not matter, the slots together are always what has been added.
-/

section Total

def total (slots : List (Option β)) : Option β := slots.foldr (Option.merge join) none

variable {join}

@[simp] theorem total_cons (slot : Option β) (slots : List (Option β)) :
    total join (slot :: slots) = Option.merge join slot (total join slots) := rfl

theorem total_of_none {slots : List (Option β)} (h : ∀ slot ∈ slots, slot = none) : total join slots = none := by
  induction slots with
  | nil => rfl
  | cons slot slots ih =>
    obtain ⟨rfl, hslots⟩ := List.forall_mem_cons.mp h
    rw [total_cons, ih hslots]
    rfl

variable [Std.Associative join] [Std.Commutative join] {xs : List β} {s : SortState β}

theorem mergeSlots_eq (slots : List (Option β)) : mergeSlots join slots = total join slots := by
  have hfold : ∀ list, slots.foldl (fun list slot => Option.merge join slot list) list =
      Option.merge join (total join slots) list := by
    induction slots with
    | nil => exact fun list => Option.merge_none_left.symm
    | cons slot slots ih =>
      intro list
      rw [List.foldl_cons, ih, total_cons]
      ac_rfl
  rw [mergeSlots, hfold, Option.merge_none_right]

theorem total_append (a b : List (Option β)) :
    total join (a ++ b) = Option.merge join (total join a) (total join b) := by
  induction a with
  | nil => exact Option.merge_none_left.symm
  | cons slot a ih =>
    rw [List.cons_append, total_cons, total_cons, ih]
    ac_rfl

theorem carry_spec (slots : List (Option β)) (cur : β) :
    (carry join slots cur).1 ≤ slots.length ∧ slots.getD (carry join slots cur).1 none = none ∧
      Option.merge join (some (carry join slots cur).2) (total join (slots.drop (carry join slots cur).1)) =
        Option.merge join (some cur) (total join slots) := by
  induction slots generalizing cur with
  | nil => exact ⟨le_rfl, rfl, rfl⟩
  | cons slot slots ih =>
    cases slot with
    | none => exact ⟨Nat.zero_le _, rfl, rfl⟩
    | some slot =>
      obtain ⟨hle, hempty, htotal⟩ := ih (join slot cur)
      refine ⟨Nat.succ_le_succ hle, hempty, htotal.trans ?_⟩
      have hjoin : some (join slot cur) = Option.merge join (some slot) (some cur) := rfl
      rw [hjoin, total_cons]
      ac_rfl

theorem total_set {slots : List (Option β)} {n : Nat} (h : slots[n]? = some none) (cur : β) :
    total join (slots.set n (some cur)) = Option.merge join (some cur) (total join slots) := by
  obtain ⟨hn, hnone⟩ := List.getElem?_eq_some_iff.mp h
  have hsplit : slots = slots.take n ++ none :: slots.drop (n + 1) := by
    rw [← hnone, List.getElem_cons_drop, List.take_append_drop]
  rw [List.set_eq_take_append_cons_drop, if_pos hn]
  conv_rhs => rw [hsplit]
  rw [total_append, total_append, total_cons, total_cons, Option.merge_none_left]
  ac_rfl

structure Parts (join : β → β → β) (xs : List β) (s : SortState β) : Prop where
  length : s.part.length = maxListLengthBits
  maxLev_lt : s.maxLev < maxListLengthBits
  total : total join s.part = total join (xs.map some)
  above : ∀ slot ∈ s.part.drop (s.maxLev + 1), slot = none

/-- A new element: the slots that are joined to it are emptied, and the result is put into a slot that is empty
then. -/
theorem Parts.addElement (h : Parts join xs s) (x : β) : Parts join (xs ++ [x]) (addElement join s x) := by
  obtain ⟨hle, hhead, htotal⟩ := @carry_spec _ join _ _ s.part x
  have hlen := h.length
  have hmax := h.maxLev_lt
  generalize hr : carry join s.part x = r at hle hhead htotal
  -- whichever slot is filled
  suffices hfill : ∀ lev maxLev, lev = r.1 ∧ lev < maxListLengthBits ∨ lev < r.1 → s.maxLev ≤ maxLev → lev ≤ maxLev →
      r.1 ≤ lev + 1 → maxLev < maxListLengthBits →
      Parts join (xs ++ [x]) ⟨(List.replicate r.1 none ++ s.part.drop r.1).set lev (some r.2), maxLev⟩ by
    unfold VerifySort.addElement
    simp only [hr]
    split_ifs with habove hbits <;> exact hfill _ _ (by omega) (by omega) (by omega) (by omega) (by omega)
  intro lev maxLev hlev hmaxLev hle' hn hlt
  have hempty : (List.replicate r.1 none ++ s.part.drop r.1)[lev]? = some none := by
    rcases hlev with ⟨rfl, hlt⟩ | hlt
    · rw [List.getElem?_append_right (by simp), List.length_replicate, Nat.sub_self, List.getElem?_drop,
        Nat.add_zero, List.getElem?_eq_getElem (by omega), ← List.getD_eq_getElem _ none, hhead]
    · rw [List.getElem?_append_left (by simpa using hlt), List.getElem?_replicate_of_lt hlt]
  refine ⟨?_, hlt, ?_, fun slot hslot => ?_⟩
  · simp only [List.length_set, List.length_append, List.length_replicate, List.length_drop]
    omega
  · have hnone : VerifySort.total join (List.replicate r.1 (none : Option β)) = none :=
      total_of_none fun slot hslot => List.eq_of_mem_replicate hslot
    rw [total_set hempty, total_append, hnone, Option.merge_none_left, htotal, h.total, List.map_append,
      total_append]
    exact Std.Commutative.comm _ _
  · rw [List.drop_set_of_lt (Nat.lt_succ_of_le hle'), List.drop_append, List.drop_drop] at hslot
    cases List.mem_append.mp hslot with
    | inl hnil => exact List.eq_of_mem_replicate (List.mem_of_mem_drop hnil)
    | inr hold => exact h.above slot ((List.drop_sublist_drop_left _ (by simp; omega)).subset hold)

/-- **Nothing is lost.** -/
theorem mergeAll_eq (xs : List β) : mergeAll join xs = total join (xs.map some) := by
  have hparts : Parts join xs (slotsOf join xs) := by
    induction xs using List.reverseRecOn with
    | nil => exact ⟨rfl, show 0 < maxListLengthBits by decide, rfl, fun slot hslot =>
        List.eq_of_mem_replicate (List.mem_of_mem_drop hslot)⟩
    | append_singleton xs x ih =>
      rw [slotsOf, List.foldl_concat]
      exact ih.addElement x
  have hlev : (slotsOf join xs).maxLev < (slotsOf join xs).part.length := hparts.length ▸ hparts.maxLev_lt
  rw [mergeAll, mergeAndRestoreBackLinks, mergeSlots_eq, ← hparts.total]
  conv_rhs => rw [← List.take_append_drop (slotsOf join xs).maxLev (slotsOf join xs).part,
    List.drop_eq_getElem_cons hlev, total_append, total_cons,
    total_of_none hparts.above, Option.merge_none_right]
  rw [List.getD_eq_getElem _ _ hlev]
  exact Std.Commutative.comm _ _

end Total

end Slots

/-! ## The sort -/

section Sorting

variable {α : Type} (cmp : α → α → Int)

def merge (a b : List α) : List α := a.merge b fun x y => cmp x y ≤ 0

def flistSort (l : List α) : Option (List α) :=
  if l = [] then some [] else mergeAll (merge cmp) (l.map ([·]))

def compared : List α → List α → List (α × α)
  | x :: xs, y :: ys =>
    if cmp x y ≤ 0 then (x, y) :: compared xs (y :: ys) else (x, y) :: compared (x :: xs) ys
  | [], _ => []
  | _, [] => []
termination_by a b => a.length + b.length

inductive MergeTree (α : Type) where
  | leaf (x : α)
  | node (a b : MergeTree α)

def MergeTree.leaves : MergeTree α → List α
  | leaf x => [x]
  | node a b => a.leaves ++ b.leaves

def MergeTree.value : MergeTree α → List α
  | leaf x => [x]
  | node a b => merge cmp a.value b.value

def MergeTree.comparisons : MergeTree α → List (α × α)
  | leaf _ => []
  | node a b => a.comparisons ++ (b.comparisons ++ compared cmp (a.value cmp) (b.value cmp))

def mergeTree (l : List α) : Option (MergeTree α) := mergeAll .node (l.map .leaf)

def sortResult (l : List α) : List α := (mergeTree l).elim [] (·.value cmp)

def comparisons (l : List α) : List (α × α) := (mergeTree l).elim [] (·.comparisons cmp)

variable {cmp} {key : α → Nat} {a b l : List α} {x : α} {t : MergeTree α}

theorem merge_perm : (merge cmp a b).Perm (a ++ b) := List.merge_perm_append _

theorem value_perm (cmp : α → α → Int) (t : MergeTree α) : (t.value cmp).Perm t.leaves := by
  induction t with
  | leaf x => exact .refl _
  | node a b iha ihb => exact merge_perm.trans (iha.append ihb)

theorem total_singletons (x : α) (l : List α) :
    total (· + ·) ((x :: l).map fun y => some ({y} : Multiset α)) = some ↑(x :: l) := by
  induction l generalizing x with
  | nil => rfl
  | cons y l ih =>
    rw [List.map_cons, total_cons, ih]
    rfl

theorem exists_mergeTree (x : α) (l : List α) : ∃ t, mergeTree (x :: l) = some t ∧ t.leaves.Perm (x :: l) := by
  have hmap : mergeAll (· + ·) (((x :: l).map .leaf).map fun t : MergeTree α => (t.leaves : Multiset α)) =
      (mergeTree (x :: l)).map fun t => (t.leaves : Multiset α) :=
    mergeAll_map (fun a b => (Multiset.coe_add a.leaves b.leaves).symm) _
  rw [mergeAll_eq, List.map_map, List.map_map] at hmap
  obtain ⟨t, ht, hleaves⟩ := Option.map_eq_some_iff.mp (hmap.symm.trans (total_singletons x l))
  exact ⟨t, ht, Multiset.coe_eq_coe.mp hleaves⟩

theorem flistSort_eq (cmp : α → α → Int) (l : List α) : flistSort cmp l = some (sortResult cmp l) := by
  cases l with
  | nil => rfl
  | cons x l =>
    have hmap : mergeAll (merge cmp) (((x :: l).map .leaf).map (MergeTree.value cmp)) =
        (mergeTree (x :: l)).map (MergeTree.value cmp) := mergeAll_map (fun a b => rfl) _
    obtain ⟨t, ht, -⟩ := exists_mergeTree x l
    rw [List.map_map, ht] at hmap
    rw [flistSort, if_neg (List.cons_ne_nil x l), sortResult, ht]
    exact hmap

theorem sortResult_perm (cmp : α → α → Int) (l : List α) : (sortResult cmp l).Perm l := by
  cases l with
  | nil => exact .refl _
  | cons x l =>
    obtain ⟨t, ht, hleaves⟩ := exists_mergeTree x l
    rw [sortResult, ht]
    exact (value_perm cmp t).trans hleaves

def SameOn (cmp cmp' : α → α → Int) (pairs : List (α × α)) : Prop :=
  ∀ p ∈ pairs, (cmp p.1 p.2 ≤ 0 ↔ cmp' p.1 p.2 ≤ 0)

variable {cmp' : α → α → Int}

theorem merge_cons_cons (x y : α) (xs ys : List α) : merge cmp (x :: xs) (y :: ys) =
    if cmp x y ≤ 0 then x :: merge cmp xs (y :: ys) else y :: merge cmp (x :: xs) ys := by
  rw [merge, List.cons_merge_cons]
  simp only [decide_eq_true_eq]
  rfl

theorem SameOn.of_subset {pairs pairs' : List (α × α)} (h : SameOn cmp cmp' pairs') (hsub : pairs ⊆ pairs') :
    SameOn cmp cmp' pairs := fun p hp => h p (hsub hp)

theorem merge_congr (h : SameOn cmp cmp' (compared cmp a b)) :
    merge cmp' a b = merge cmp a b ∧ compared cmp' a b = compared cmp a b := by
  fun_induction compared cmp a b with
  | case1 x xs y ys hle ih =>
    obtain ⟨hmerge, hpairs⟩ := ih (h.of_subset (List.subset_cons_self _ _))
    have hle' := (h (x, y) List.mem_cons_self).mp hle
    rw [compared, merge_cons_cons, merge_cons_cons, if_pos hle, if_pos hle', if_pos hle', hmerge, hpairs]
    exact ⟨rfl, rfl⟩
  | case2 x xs y ys hgt ih =>
    obtain ⟨hmerge, hpairs⟩ := ih (h.of_subset (List.subset_cons_self _ _))
    have hgt' := mt (h (x, y) List.mem_cons_self).mpr hgt
    rw [compared, merge_cons_cons, merge_cons_cons, if_neg hgt, if_neg hgt', if_neg hgt', hmerge, hpairs]
    exact ⟨rfl, rfl⟩
  | case3 b => simp [merge, compared]
  | case4 a _ => simp [merge, compared]

theorem sameOn_append {pairs pairs' : List (α × α)} :
    SameOn cmp cmp' (pairs ++ pairs') ↔ SameOn cmp cmp' pairs ∧ SameOn cmp cmp' pairs' := List.forall_mem_append

/-- **The same comparisons, the same run.** A comparison that gives the same on the pairs that the sort
with another one compares sorts in the same way. -/
theorem value_congr (h : SameOn cmp cmp' (t.comparisons cmp)) :
    t.value cmp' = t.value cmp ∧ t.comparisons cmp' = t.comparisons cmp := by
  induction t with
  | leaf x => exact ⟨rfl, rfl⟩
  | node a b iha ihb =>
    obtain ⟨ha, hb, hab⟩ : _ ∧ _ ∧ _ := by rwa [MergeTree.comparisons, sameOn_append, sameOn_append] at h
    obtain ⟨hmerge, hcompared⟩ := merge_congr hab
    rw [MergeTree.value, MergeTree.value, MergeTree.comparisons, MergeTree.comparisons, (iha ha).1, (iha ha).2,
      (ihb hb).1, (ihb hb).2, hmerge, hcompared]
    exact ⟨rfl, rfl⟩

/-! ### A sorted result, right comparisons -/

def SortedBy (key : α → Nat) (l : List α) : Prop := (l.map key).Pairwise (· ≤ ·)

def exactCmp (key : α → Nat) (x y : α) : Int := (key x : Int) - key y

theorem exactCmp_le_zero {y : α} : exactCmp key x y ≤ 0 ↔ key x ≤ key y := by
  unfold exactCmp
  omega

theorem merge_sublist (cmp : α → α → Int) (a b : List α) :
    a.Sublist (merge cmp a b) ∧ b.Sublist (merge cmp a b) := by
  fun_induction compared cmp a b with
  | case1 x xs y ys hle ih =>
    rw [merge_cons_cons, if_pos hle]
    exact ⟨ih.1.cons_cons x, ih.2.cons x⟩
  | case2 x xs y ys hgt ih =>
    rw [merge_cons_cons, if_neg hgt]
    exact ⟨ih.1.cons y, ih.2.cons_cons y⟩
  | case3 b => simp [merge]
  | case4 a _ => simp [merge]

/-- A merged list is in order only if each comparison was right: the element that is taken first stands
before the other one. -/
theorem sameOn_of_sorted_merge (htie : ∀ x y, key x = key y → cmp x y ≤ 0)
    (h : SortedBy key (merge cmp a b)) : SameOn cmp (exactCmp key) (compared cmp a b) := by
  fun_induction compared cmp a b with
  | case1 x xs y ys hle ih =>
    rw [merge_cons_cons, if_pos hle, SortedBy, List.map_cons, List.pairwise_cons] at h
    have hy := (merge_sublist cmp xs (y :: ys)).2.subset List.mem_cons_self
    have hxy : key x ≤ key y := h.1 _ (List.mem_map_of_mem hy)
    rintro p (_ | ⟨_, hp⟩)
    · exact iff_of_true hle (exactCmp_le_zero.mpr hxy)
    · exact ih h.2 p hp
  | case2 x xs y ys hgt ih =>
    rw [merge_cons_cons, if_neg hgt, SortedBy, List.map_cons, List.pairwise_cons] at h
    have hx := (merge_sublist cmp (x :: xs) ys).1.subset List.mem_cons_self
    have hyx : key y ≤ key x := h.1 _ (List.mem_map_of_mem hx)
    rintro p (_ | ⟨_, hp⟩)
    · refine iff_of_false hgt fun hle => hgt (htie x y ?_)
      have hxy : key x ≤ key y := exactCmp_le_zero.mp hle
      omega
    · exact ih h.2 p hp
  | case3 b => exact fun p hp => absurd hp List.not_mem_nil
  | case4 a _ => exact fun p hp => absurd hp List.not_mem_nil

/-- **A sorted result, right comparisons.** -/
theorem sameOn_of_sorted (htie : ∀ x y, key x = key y → cmp x y ≤ 0) (h : SortedBy key (t.value cmp)) :
    SameOn cmp (exactCmp key) (t.comparisons cmp) := by
  induction t with
  | leaf x => exact fun p hp => absurd hp List.not_mem_nil
  | node a b iha ihb =>
    -- what is merged on the way is in the result, in the same order
    obtain ⟨hleft, hright⟩ := merge_sublist cmp (a.value cmp) (b.value cmp)
    rw [MergeTree.comparisons, sameOn_append, sameOn_append]
    exact ⟨iha (h.sublist (hleft.map key)), ihb (h.sublist (hright.map key)), sameOn_of_sorted_merge htie h⟩

theorem mem_of_compared {p : α × α} (hp : p ∈ compared cmp a b) : p.1 ∈ a ∧ p.2 ∈ b := by
  fun_induction compared cmp a b with
  | case1 x xs y ys hle ih =>
    rcases List.mem_cons.mp hp with rfl | hp
    · exact ⟨List.mem_cons_self, List.mem_cons_self⟩
    · exact ⟨List.mem_cons_of_mem _ (ih hp).1, (ih hp).2⟩
  | case2 x xs y ys hgt ih =>
    rcases List.mem_cons.mp hp with rfl | hp
    · exact ⟨List.mem_cons_self, List.mem_cons_self⟩
    · exact ⟨(ih hp).1, List.mem_cons_of_mem _ (ih hp).2⟩
  | case3 b => exact absurd hp List.not_mem_nil
  | case4 a _ => exact absurd hp List.not_mem_nil

theorem MergeTree.mem_of_comparisons {p : α × α} (hp : p ∈ t.comparisons cmp) :
    p.1 ∈ t.leaves ∧ p.2 ∈ t.leaves := by
  induction t with
  | leaf x => exact absurd hp List.not_mem_nil
  | node a b iha ihb =>
    rw [MergeTree.comparisons, List.mem_append, List.mem_append] at hp
    rw [MergeTree.leaves, List.mem_append, List.mem_append]
    rcases hp with hp | hp | hp
    · exact ⟨.inl (iha hp).1, .inl (iha hp).2⟩
    · exact ⟨.inr (ihb hp).1, .inr (ihb hp).2⟩
    · obtain ⟨h1, h2⟩ := mem_of_compared hp
      exact ⟨.inl ((value_perm cmp a).subset h1), .inr ((value_perm cmp b).subset h2)⟩

theorem mem_of_comparisons {p : α × α} (hp : p ∈ comparisons cmp l) : p.1 ∈ l ∧ p.2 ∈ l := by
  cases l with
  | nil => exact absurd hp List.not_mem_nil
  | cons x l =>
    obtain ⟨t, ht, hleaves⟩ := exists_mergeTree x l
    rw [comparisons, ht] at hp
    exact (MergeTree.mem_of_comparisons hp).imp (hleaves.subset ·) (hleaves.subset ·)

/-! ### The exact comparison -/

theorem SortedBy.merge (ha : SortedBy key a) (hb : SortedBy key b) :
    SortedBy key (merge (exactCmp key) a b) := by
  have hmap : (VerifySort.merge (exactCmp key) a b).map key
      = (a.map key).merge (b.map key) fun m n => decide (m ≤ n) :=
    List.map_merge fun x _ y _ => decide_eq_decide.mpr exactCmp_le_zero
  rw [SortedBy, hmap]
  have hsorted := @List.pairwise_merge _ (fun m n : Nat => decide (m ≤ n)) (by grind) (by grind)
    (a.map key) (b.map key)
  simp only [decide_eq_true_eq] at hsorted
  exact hsorted ha hb

theorem sortedBy_value (t : MergeTree α) : SortedBy key (t.value (exactCmp key)) := by
  induction t with
  | leaf x => exact List.pairwise_singleton ..
  | node a b iha ihb => exact iha.merge ihb

/-- **When a list is sorted.** A comparison that is right on equal keys sorts a list exactly if it is right
on the pairs that the exact comparison would be asked for. -/
theorem sorted_iff (htie : ∀ x y, key x = key y → cmp x y ≤ 0) :
    SortedBy key (sortResult cmp l) ↔ SameOn (exactCmp key) cmp (comparisons (exactCmp key) l) := by
  unfold sortResult comparisons
  cases mergeTree l with
  | none => exact iff_of_true List.Pairwise.nil fun p hp => absurd hp List.not_mem_nil
  | some t =>
    constructor
    · intro h
      have hsame := sameOn_of_sorted htie h
      rw [Option.elim_some, (value_congr hsame).2]
      exact fun p hp => (hsame p hp).symm
    · intro h
      rw [Option.elim_some, (value_congr h).1]
      exact sortedBy_value t

end Sorting

/-! ## Batches -/

def flistCmp (r1 r2 : BitVec 64) : Int := ((r1 - r2).setWidth 32).toInt

structure SortJob where
  verifysortNr : Nat
  doVerify : Bool
  tdRandom : Bool
  verifying : Bool
  tausworthe : Bool

def shouldSortIo (o : SortJob) : Bool :=
  if o.verifysortNr = 0 ∨ !o.doVerify then false
  else if !o.tdRandom then false
  else if !o.verifying then false
  else !o.tausworthe

section Batch

variable {M : Type} (getOff : M → Option (BitVec 64) × M) (o : SortJob)

def drawBatch : Nat → M → List (BitVec 64) → List (BitVec 64) × M
  | 0, m, list => (list, m)
  | n + 1, m, list =>
    match getOff m with
    | (some off, m') => drawBatch n m' (off :: list)
    | (none, m') => (list, m')

structure OffsetState (M : Type) where
  method : M
  nextRandList : List (BitVec 64)

def getNextRandOffset (s : OffsetState M) : Option (Option (BitVec 64) × OffsetState M) :=
  if !shouldSortIo o then
    let r := getOff s.method
    some (r.1, { s with method := r.2 })
  else
    match s.nextRandList with
    | off :: rest => some (some off, { s with nextRandList := rest })
    | [] =>
      let r := drawBatch getOff o.verifysortNr s.method []
      if r.1 = [] then some (none, ⟨r.2, []⟩)
      else
        match flistSort flistCmp r.1 with
        | some (off :: rest) => some (some off, ⟨r.2, rest⟩)
        | _ => none

def handOut : Nat → OffsetState M → Option (List (BitVec 64))
  | 0, _ => some []
  | n + 1, s =>
    match getNextRandOffset getOff o s with
    | some (some off, s') => (handOut n s').map (off :: ·)
    | _ => none

def batch (m : M) : List (BitVec 64) := (drawBatch getOff o.verifysortNr m []).1

variable {getOff o} {m : M} {l : List (BitVec 64)}

theorem handOut_list (ho : shouldSortIo o) : handOut getOff o l.length ⟨m, l⟩ = some l := by
  induction l with
  | nil => rfl
  | cons off rest ih =>
    rw [List.length_cons, handOut, getNextRandOffset, if_neg (by simp [ho])]
    dsimp only
    rw [ih]
    rfl

theorem handOut_batch (ho : shouldSortIo o) : handOut getOff o (batch getOff o m).length ⟨m, []⟩ =
    some (sortResult flistCmp (batch getOff o m)) := by
  have hlen := (sortResult_perm flistCmp (batch getOff o m)).length_eq
  have hsort := flistSort_eq flistCmp (batch getOff o m)
  cases hout : sortResult flistCmp (batch getOff o m) with
  | nil =>
    rw [← hlen, hout]
    rfl
  | cons off rest =>
    rw [hout] at hsort hlen
    have hne : (drawBatch getOff o.verifysortNr m []).1 ≠ [] := fun hnil => by
      rw [batch, hnil] at hlen
      exact absurd hlen (by simp)
    rw [batch] at hsort
    rw [← hlen, List.length_cons, handOut, getNextRandOffset, if_neg (by simp [ho])]
    dsimp only
    rw [if_neg hne, hsort]
    dsimp only
    rw [handOut_list ho]
    rfl

end Batch

/-! ## Offsets -/

def ComparedRight (x y : Nat) : Prop :=
  if x ≤ y then (y - x) % 2 ^ 32 ≤ 2 ^ 31 else 0 < (x - y) % 2 ^ 32 ∧ (x - y) % 2 ^ 32 < 2 ^ 31

theorem flistCmp_right_iff (x y : BitVec 64) :
    (x.toNat ≤ y.toNat ↔ flistCmp x y ≤ 0) ↔ ComparedRight x.toNat y.toNat := by
  have := x.isLt
  have := y.isLt
  unfold ComparedRight
  rw [flistCmp, BitVec.toInt_eq_toNat_cond, BitVec.toNat_setWidth, BitVec.toNat_sub]
  split_ifs <;> omega

theorem flistCmp_tie (x y : BitVec 64) (h : x.toNat = y.toNat) : flistCmp x y ≤ 0 := by
  rw [BitVec.eq_of_toNat_eq h, flistCmp, BitVec.sub_self]
  decide

theorem sorted_iff_comparedRight (l : List (BitVec 64)) :
    (sortResult flistCmp l).Pairwise (· ≤ ·) ↔
      ∀ p ∈ comparisons (exactCmp BitVec.toNat) l, ComparedRight p.1.toNat p.2.toNat := by
  have hsorted : (sortResult flistCmp l).Pairwise (· ≤ ·) ↔ SortedBy BitVec.toNat (sortResult flistCmp l) :=
    (List.pairwise_map (f := BitVec.toNat)).symm
  rw [hsorted, sorted_iff flistCmp_tie]
  simp only [SameOn, exactCmp_le_zero, flistCmp_right_iff]

/-- **Sorted batches.** For every method that gives offsets, a batch is handed out completely and in order
exactly if `flist_cmp` is right about the pairs of its offsets that a merge sort of the batch compares. -/
theorem sorted_batch_iff {M : Type} (getOff : M → Option (BitVec 64) × M) (o : SortJob) (m : M)
    (ho : shouldSortIo o) :
    (∃ out, handOut getOff o (batch getOff o m).length ⟨m, []⟩ = some out ∧
      out.Perm (batch getOff o m) ∧ out.Pairwise (· ≤ ·)) ↔
      ∀ p ∈ comparisons (exactCmp BitVec.toNat) (batch getOff o m), ComparedRight p.1.toNat p.2.toNat := by
  rw [← sorted_iff_comparedRight, handOut_batch ho]
  constructor
  · rintro ⟨out, hout, -, hsorted⟩
    rwa [Option.some.inj hout]
  · exact fun h => ⟨_, rfl, sortResult_perm _ _, h⟩

def givenOffsets : List (BitVec 64) → Option (BitVec 64) × List (BitVec 64)
  | [] => (none, [])
  | off :: offs => (some off, offs)

def sortJob (n : Nat) : SortJob := ⟨n, true, true, true, false⟩

/-- Two of these offsets are so far apart that `flist_cmp` would be wrong about them, but they are not
compared with one another. -/
theorem sorted_batch_three :
    ∃ out, handOut givenOffsets (sortJob 3) 3 ⟨[0, 2 ^ 32 - 2, 2 ^ 31 - 1], []⟩ = some out ∧
      out.Perm [2 ^ 31 - 1, 2 ^ 32 - 2, 0] ∧ out.Pairwise (· ≤ ·) := by
  refine (sorted_batch_iff givenOffsets (sortJob 3) [0, 2 ^ 32 - 2, 2 ^ 31 - 1] rfl).mpr ?_
  have hbatch : batch givenOffsets (sortJob 3) [0, 2 ^ 32 - 2, 2 ^ 31 - 1] =
      [2 ^ 31 - 1, 2 ^ 32 - 2, 0] := rfl
  have hcompared : comparisons (exactCmp BitVec.toNat) [(2 ^ 31 - 1 : BitVec 64), 2 ^ 32 - 2, 0] =
      [(2 ^ 31 - 1, 2 ^ 32 - 2), (2 ^ 31 - 1, 0)] := by
    have htree : mergeTree [(2 ^ 31 - 1 : BitVec 64), 2 ^ 32 - 2, 0] =
        some (.node (.node (.leaf (2 ^ 31 - 1)) (.leaf (2 ^ 32 - 2))) (.leaf 0)) := rfl
    rw [comparisons, htree]
    simp [MergeTree.comparisons, MergeTree.value, compared, merge, exactCmp]
  rw [hbatch, hcompared]
  simp [ComparedRight]

/-- Two offsets `2 ^ 31` apart, of which the greater was drawn last. -/
theorem far_offsets_out_of_order : shouldSortIo (sortJob 2) ∧
    batch givenOffsets (sortJob 2) [0, 2 ^ 31] = [2 ^ 31, 0] ∧
    handOut givenOffsets (sortJob 2) 2 ⟨[0, 2 ^ 31], []⟩ = some [2 ^ 31, 0] := by
  refine ⟨rfl, rfl, (handOut_batch (m := [0, 2 ^ 31]) rfl).trans ?_⟩
  have hbatch : batch givenOffsets (sortJob 2) [0, 2 ^ 31] = [2 ^ 31, 0] := rfl
  have htree : mergeTree [(2 ^ 31 : BitVec 64), 0] = some (.node (.leaf (2 ^ 31)) (.leaf 0)) := rfl
  rw [hbatch, sortResult, htree]
  simp [MergeTree.value, merge, flistCmp]

/-- Whatever the order in which offsets are drawn, they are sorted if the distance of any two different ones,
without the multiples of `2 ^ 32`, is positive and below `2 ^ 31`. -/
theorem sorted_of_close {l : List (BitVec 64)} (h : ∀ x ∈ l, ∀ y ∈ l, x < y →
    0 < (y.toNat - x.toNat) % 2 ^ 32 ∧ (y.toNat - x.toNat) % 2 ^ 32 < 2 ^ 31) :
    (sortResult flistCmp l).Pairwise (· ≤ ·) := by
  rw [sorted_iff_comparedRight]
  intro p hp
  obtain ⟨hx, hy⟩ := mem_of_comparisons hp
  have hxy := h _ hx _ hy
  have hyx := h _ hy _ hx
  rw [BitVec.lt_def] at hxy hyx
  unfold ComparedRight
  split_ifs <;> omega

end MysqlBench.Fio.VerifySort
