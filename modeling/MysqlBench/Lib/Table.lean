import Mathlib

/-!
# Tables with a primary key

A table is the list of its rows, no two of which have the same key: the constraint is a field, so what
the operations return satisfies it. `insert` refuses a row whose key is there, `update` may not touch
the key, and a row with a given key is the row with that key (`find_eq_some`). The aggregates of SQL are
sums over the rows that meet a condition (`sumWhere`), and the lemmas about it say what an insertion, an
update of one row and a change of the condition do to a sum.
-/

namespace MysqlBench.Lib

/-! ## Rows and their keys -/

structure Table (R K : Type) (key : R → K) where
  rows : List R
  nodup : (rows.map key).Nodup

namespace Table

variable {R K : Type} {key : R → K}

def empty : Table R K key := ⟨[], List.nodup_nil⟩

variable {r : R} {rows : List R} {p : R → Bool} {f : R → R} {hf : ∀ r, key (f r) = key r} {t : Table R K key}
  {k k₀ : K}

theorem nodup_row (r : R) : ([r].map key).Nodup := List.nodup_singleton _

def single (r : R) : Table R K key := ⟨[r], nodup_row r⟩

@[simp] theorem rows_single (r : R) : (single r : Table R K key).rows = [r] := rfl

theorem nodup_append_row (h : (rows.map key).Nodup)
    (hr : key r ∉ rows.map key) : ((rows ++ [r]).map key).Nodup := by
  rw [List.map_append, List.map_singleton]
  exact h.append (List.nodup_singleton _) (List.disjoint_singleton.mpr hr)

def insert [DecidableEq K] (t : Table R K key) (r : R) : Option (Table R K key) :=
  if h : key r ∈ t.rows.map key then none else some ⟨t.rows ++ [r], nodup_append_row t.nodup h⟩

theorem map_key_update (hf : ∀ r, key (f r) = key r) :
    (rows.map fun r => if p r then f r else r).map key = rows.map key := by
  rw [List.map_map]
  refine List.map_congr_left fun r _ => ?_
  rw [Function.comp_apply]
  split
  · exact hf r
  · rfl

def update (t : Table R K key) (p : R → Bool) (f : R → R) (hf : ∀ r, key (f r) = key r) :
    Table R K key :=
  ⟨t.rows.map fun r => if p r then f r else r, (map_key_update hf).symm ▸ t.nodup⟩

theorem nodup_filter (h : (rows.map key).Nodup) (p : R → Bool) :
    ((rows.filter p).map key).Nodup :=
  h.sublist (List.filter_sublist.map key)

def delete (t : Table R K key) (p : R → Bool) : Table R K key :=
  ⟨t.rows.filter fun r => !p r, nodup_filter t.nodup _⟩

def find [DecidableEq K] (t : Table R K key) (k : K) : Option R := t.rows.find? fun r => key r = k

theorem insert_eq_some [DecidableEq K] {t' : Table R K key} :
    t.insert r = some t' ↔ key r ∉ t.rows.map key ∧ t'.rows = t.rows ++ [r] := by
  unfold insert
  by_cases h : key r ∈ t.rows.map key
  · rw [dif_pos h]
    exact ⟨fun hn => absurd hn (by simp), fun hn => absurd h hn.1⟩
  · rw [dif_neg h]
    constructor
    · intro heq
      rw [← Option.some.inj heq]
      exact ⟨h, rfl⟩
    · intro heq
      cases t'
      cases heq.2
      rfl

theorem eq_of_key {r' : R} (hr : r ∈ t.rows) (hr' : r' ∈ t.rows)
    (h : key r = key r') : r = r' := List.inj_on_of_nodup_map t.nodup hr hr' h

theorem find_eq_some [DecidableEq K] :
    t.find k = some r ↔ r ∈ t.rows ∧ key r = k := by
  unfold find
  constructor
  · intro h
    exact ⟨List.mem_of_find?_eq_some h, by simpa using List.find?_some h⟩
  · rintro ⟨hr, rfl⟩
    cases hfind : t.rows.find? fun r' => key r' = key r with
    | none => exact absurd (List.find?_eq_none.mp hfind r hr) (by simp)
    | some r' =>
      have hkey : key r' = key r := by simpa using List.find?_some hfind
      rw [eq_of_key (List.mem_of_find?_eq_some hfind) hr hkey]

theorem find_eq_none [DecidableEq K] :
    t.find k = none ↔ ∀ r ∈ t.rows, key r ≠ k := by
  unfold find
  simp [List.find?_eq_none]

theorem update_congr {g : R → R}
    {hg : ∀ r, key (g r) = key r} (h : ∀ r ∈ t.rows, p r = true → f r = g r) :
    t.update p f hf = t.update p g hg := by
  unfold update
  congr 1
  refine List.map_congr_left fun r hr => ?_
  split
  · exact h r hr ‹_›
  · rfl

theorem find_update [DecidableEq K] (k : K) :
    (t.update p f hf).find k = (t.find k).map fun r => if p r then f r else r := by
  unfold find update
  rw [List.find?_map]
  congr 2
  funext r
  rw [Function.comp_apply]
  split
  · rw [hf r]
  · rfl

theorem exists_of_find_update [DecidableEq K]
    (hf : ∀ r, key (f r) = key r) (h : (t.update p f hf).find k = some r) :
    ∃ r₀ ∈ t.rows, key r₀ = k := by
  rw [find_update] at h
  obtain ⟨r₀, hr₀, _⟩ := Option.map_eq_some_iff.mp h
  exact ⟨r₀, find_eq_some.mp hr₀⟩

theorem map_find_update [DecidableEq K]
    (hf : ∀ r, key (f r) = key r) {C : Type} {column : R → C} {c : C} (hc : ∀ r, column (f r) = c)
    (hfound : (t.find k₀).map column ≠ none) (k : K) :
    ((t.update (fun r => key r = k₀) f hf).find k).map column =
      if k = k₀ then some c else (t.find k).map column := by
  rw [find_update]
  cases hfind : t.find k with
  | none =>
    have hne : k ≠ k₀ := by
      rintro rfl
      exact hfound (by rw [hfind]; rfl)
    rw [if_neg hne]
    rfl
  | some r =>
    have hkey : key r = k := (find_eq_some.mp hfind).2
    by_cases hk : k = k₀
    · simp [hkey, hk, hc]
    · simp [hkey, hk]

theorem find_update_key [DecidableEq K] (hf : ∀ r, key (f r) = key r)
    {r₀ : R} (h : t.find k₀ = some r₀) (k : K) :
    (t.update (fun r => key r = k₀) f hf).find k = if k = k₀ then some (f r₀) else t.find k := by
  rw [find_update]
  cases hfind : t.find k with
  | none =>
    rw [if_neg fun hk => by simp [← hk, hfind] at h]
    rfl
  | some r =>
    obtain ⟨-, rfl⟩ := find_eq_some.mp hfind
    by_cases hk : key r = k₀ <;> simp_all

theorem length_filter_key [DecidableEq K] (t : Table R K key) (k : K) (p : R → Prop) [DecidablePred p] :
    (t.rows.filter fun r => key r = k ∧ p r).length = if ∃ r ∈ t.rows, key r = k ∧ p r then 1 else 0 := by
  have hnodup := nodup_filter t.nodup fun r => decide (key r = k ∧ p r)
  have hmem : ∀ r, (r ∈ t.rows ∧ key r = k ∧ p r) ↔ r ∈ t.rows.filter fun r => key r = k ∧ p r := by simp
  generalize hrows : (t.rows.filter fun r => decide (key r = k ∧ p r)) = rows at hnodup hmem ⊢
  match rows with
  | [] =>
    rw [if_neg (by rw [exists_congr hmem]; simp)]
    rfl
  | [r] =>
    rw [if_pos ⟨r, (hmem r).mpr List.mem_cons_self⟩]
    rfl
  | r :: r' :: rows =>
    have hr := ((hmem r).mpr List.mem_cons_self).2.1
    have hr' := ((hmem r').mpr (List.mem_cons_of_mem _ List.mem_cons_self)).2.1
    simp [hr, hr'] at hnodup

theorem mem_delete :
    r ∈ (t.delete p).rows ↔ r ∈ t.rows ∧ p r = false := by
  simp [delete]

end Table

/-! ## Sums -/

section Sum

variable {R M : Type} [AddCommMonoid M]

def sumWhere (rows : List R) (p : R → Bool) (f : R → M) : M := ((rows.filter p).map f).sum

variable {p : R → Bool} {r : R} {rows : List R} {q : R → Bool} {K : Type}

@[simp] theorem sumWhere_nil (p : R → Bool) (f : R → M) : sumWhere [] p f = 0 := rfl

theorem sumWhere_cons (r : R) (rows : List R) (p : R → Bool) (f : R → M) :
    sumWhere (r :: rows) p f = (if p r then f r else 0) + sumWhere rows p f := by
  unfold sumWhere
  cases hp : p r with
  | true => simp [hp]
  | false => simp [hp]

theorem sumWhere_append (rows rows' : List R) (p : R → Bool) (f : R → M) :
    sumWhere (rows ++ rows') p f = sumWhere rows p f + sumWhere rows' p f := by
  unfold sumWhere
  rw [List.filter_append, List.map_append, List.sum_append]

theorem sumWhere_congr {f g : R → M}
    (hp : ∀ r ∈ rows, p r = q r) (hf : ∀ r ∈ rows, q r = true → f r = g r) :
    sumWhere rows p f = sumWhere rows q g := by
  induction rows with
  | nil => rfl
  | cons r rows ih =>
    rw [sumWhere_cons, sumWhere_cons, hp r List.mem_cons_self,
      ih (fun s hs => hp s (List.mem_cons_of_mem _ hs)) fun s hs => hf s (List.mem_cons_of_mem _ hs)]
    cases hq : q r with
    | true => rw [if_pos rfl, if_pos rfl, hf r List.mem_cons_self hq]
    | false => rfl

theorem sumWhere_eq_zero (f : R → M) (h : ∀ r ∈ rows, p r = false) :
    sumWhere rows p f = 0 := by
  unfold sumWhere
  rw [List.filter_eq_nil_iff.mpr fun r hr => by simp [h r hr]]
  rfl

theorem sumWhere_map {S : Type} (rows : List S) (g : S → R) (p : R → Bool) (f : R → M) :
    sumWhere (rows.map g) p f = sumWhere rows (fun s => p (g s)) fun s => f (g s) := by
  induction rows with
  | nil => rfl
  | cons s rows ih => rw [List.map_cons, sumWhere_cons, sumWhere_cons, ih]

theorem sumWhere_or {p' : R → Bool} (f : R → M)
    (h : ∀ r ∈ rows, p' r = (p r || q r) ∧ (p r && q r) = false) :
    sumWhere rows p' f = sumWhere rows p f + sumWhere rows q f := by
  induction rows with
  | nil => simp
  | cons r rows ih =>
    obtain ⟨hor, hand⟩ := h r List.mem_cons_self
    rw [sumWhere_cons, sumWhere_cons, sumWhere_cons, ih fun s hs => h s (List.mem_cons_of_mem _ hs), hor]
    cases hp : p r with
    | true =>
      rw [hp, Bool.true_and] at hand
      rw [hand]
      simp [add_assoc]
    | false =>
      cases hq : q r with
      | true => simp [add_left_comm]
      | false => simp

theorem sumWhere_add (rows : List R) (p : R → Bool) (f g : R → M) :
    sumWhere rows p (fun r => f r + g r) = sumWhere rows p f + sumWhere rows p g := by
  unfold sumWhere
  exact List.sum_map_add

theorem sumWhere_key [DecidableEq K] {key : R → K}
    (hnodup : (rows.map key).Nodup) (hr : r ∈ rows) (p : R → Bool) (f : R → M) :
    sumWhere rows (fun s => p s && decide (key s = key r)) f = if p r then f r else 0 := by
  induction rows with
  | nil => exact absurd hr (by simp)
  | cons s rows ih =>
    rw [List.map_cons, List.nodup_cons] at hnodup
    rw [sumWhere_cons]
    cases List.mem_cons.mp hr with
    | inl hrs =>
      rw [← hrs] at hnodup ⊢
      have hothers : sumWhere rows (fun s => p s && decide (key s = key r)) f = 0 := by
        refine sumWhere_eq_zero f fun s' hs' => ?_
        have hne : key s' ≠ key r := fun h => hnodup.1 (h ▸ List.mem_map_of_mem hs')
        simp [hne]
      rw [hothers, add_zero]
      simp
    | inr hmem =>
      have hne : key s ≠ key r := fun h => hnodup.1 (h ▸ List.mem_map_of_mem hmem)
      rw [ih hnodup.2 hmem]
      simp [hne]

theorem sumWhere_update_key [DecidableEq K] {key : R → K}
    (hnodup : (rows.map key).Nodup) (hr : r ∈ rows) (p : R → Bool) (f : R → M) (m : M) :
    sumWhere rows p (fun s => f s + if key s = key r then m else 0) =
      sumWhere rows p f + if p r then m else 0 := by
  rw [sumWhere_add]
  congr 1
  have hsplit : sumWhere rows p (fun s => if key s = key r then m else 0) =
      sumWhere rows (fun s => p s && decide (key s = key r)) fun _ => m := by
    clear hnodup hr
    induction rows with
    | nil => rfl
    | cons s rows ih =>
      rw [sumWhere_cons, sumWhere_cons, ih]
      by_cases hs : key s = key r <;> simp [hs]
  rw [hsplit, sumWhere_key hnodup hr p fun _ => m]

end Sum

end MysqlBench.Lib
