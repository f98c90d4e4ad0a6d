import Mathlib

/-!
# The customers of the orders (`datagen.c`)

`gen_orders` builds a list of the numbers of the customers by inserting one after the other at a random
place. The place is found by walking from the head, and the walk goes over at most all the links but the
last, so it never runs out of the list (`insertNumber_spec`). For the same reason nothing is ever inserted
at the tail: the first number stays the last one, and it is exactly the rearrangements with it at the end
that can be drawn (`exists_draws`).
-/

namespace MysqlBench.Dbt2

structure DrawList where
  value : Nat → Nat
  next : Nat → Option Nat
  head : Nat
  brk : Nat

def findPlace (next : Nat → Option Nat) : Nat → Nat → Option Nat → Option (Nat × Option Nat)
  | 0, prev, current => some (prev, current)
  | iter + 1, _, some a => findPlace next iter a (next a)
  | _ + 1, _, none => none

def DrawList.insertAt (l : DrawList) (k prev : Nat) (current : Option Nat) : DrawList :=
  if current = some prev then
    { value := Function.update l.value l.brk k
      next := Function.update l.next l.brk (some l.head)
      head := l.brk
      brk := l.brk + 1 }
  else
    -- `current` is `NULL` at the tail.
    { l with
      value := Function.update l.value l.brk k
      next := Function.update (Function.update l.next prev (some l.brk)) l.brk current
      brk := l.brk + 1 }

def insertNumber (l : DrawList) (k rand : Nat) : Option DrawList :=
  (findPlace l.next (rand % (k - 1)) l.head (some l.head)).map fun place => l.insertAt k place.1 place.2

def drawList : List Nat → Option DrawList
  | [] => some ⟨fun _ => 1, fun _ => none, 0, 1⟩
  | rand :: rands => (drawList rands).bind fun l => insertNumber l (rands.length + 2) rand

/-! ## Lists in memory -/

def Chain (next : Nat → Option Nat) : Option Nat → List Nat → Prop
  | p, [] => p = none
  | p, a :: as => p = some a ∧ Chain next (next a) as

def DrawList.Holds (l : DrawList) (vs : List Nat) : Prop :=
  ∃ as, Chain l.next (some l.head) as ∧ as.Nodup ∧ (∀ a ∈ as, a < l.brk) ∧ as.map l.value = vs

section Chain

variable {next next' : Nat → Option Nat} {p : Option Nat} {as pre post : List Nat} {prev : Nat}

theorem Chain.congr (h : Chain next p as) (heq : ∀ a ∈ as, next' a = next a) : Chain next' p as := by
  induction as generalizing p with
  | nil => exact h
  | cons a as ih =>
    rw [List.forall_mem_cons] at heq
    exact ⟨h.1, heq.1 ▸ ih h.2 heq.2⟩

theorem Chain.findPlace (h : Chain next p (pre ++ prev :: post)) (start : Nat) :
    findPlace next (pre.length + 1) start p = some (prev, next prev) := by
  induction pre generalizing p start with
  | nil => rw [h.1]; rfl
  | cons a pre ih => rw [h.1]; exact ih h.2 a

theorem Chain.tail (h : Chain next p (pre ++ prev :: post)) : Chain next (next prev) post := by
  induction pre generalizing p with
  | nil => exact h.2
  | cons a pre ih => exact ih h.2

theorem Chain.insert (h : Chain next p (pre ++ prev :: post)) (hpre : ∀ a ∈ pre, next' a = next a) {new : Nat}
    (hprev : next' prev = some new) (hnew : Chain next' (next' new) post) :
    Chain next' p (pre ++ prev :: new :: post) := by
  induction pre generalizing p with
  | nil => exact ⟨h.1, hprev, hnew⟩
  | cons a pre ih =>
    rw [List.forall_mem_cons] at hpre
    exact ⟨h.1, hpre.1 ▸ ih h.2 hpre.2⟩

end Chain

theorem insertNumber_spec {l : DrawList} {vs pre : List Nat} {v k rand : Nat} (h : l.Holds (pre ++ v :: vs))
    (hrand : rand % (k - 1) = pre.length) : ∃ l', insertNumber l k rand = some l' ∧ l'.Holds (pre ++ k :: v :: vs) := by
  obtain ⟨as, hchain, hnodup, hbrk, hvalues⟩ := h
  have hne : ∀ a ∈ as, a ≠ l.brk := fun a ha => (hbrk a ha).ne
  have hvalue : ∀ as' : List Nat, (∀ a ∈ as', a ∈ as) →
      as'.map (Function.update l.value l.brk k) = as'.map l.value := fun as' h =>
    List.map_congr_left fun a ha => Function.update_of_ne (hne a (h a ha)) _ _
  unfold insertNumber
  rw [hrand]
  -- at the head there is no node before the new one, and the head changes instead of a link
  cases List.eq_nil_or_concat pre with
  | inl hpre =>
    subst hpre
    rw [List.length_nil, findPlace, Option.map_some, DrawList.insertAt, if_pos rfl]
    refine ⟨_, rfl, l.brk :: as, ⟨rfl, ?_⟩, List.nodup_cons.mpr ⟨fun h => hne _ h rfl, hnodup⟩, ?_, ?_⟩
    · simp only [Function.update_self]
      exact hchain.congr fun a ha => Function.update_of_ne (hne a ha) _ _
    · grind
    · rw [List.map_cons, hvalue as fun _ h => h, hvalues]
      simp
  | inr hpre =>
    obtain ⟨pre, u, rfl⟩ := hpre
    rw [List.concat_eq_append, List.append_assoc] at hvalues
    obtain ⟨as₁, as₂, rfl, rfl, htail⟩ := List.map_eq_append_iff.mp hvalues
    obtain ⟨a, as₃, rfl, rfl, htail₂⟩ := List.map_eq_cons_iff.mp htail
    obtain ⟨b, bs, rfl, rfl, rfl⟩ := List.map_eq_cons_iff.mp htail₂
    have hnext := hchain.tail
    rw [List.concat_eq_append, List.length_append, List.length_map, List.length_singleton,
      hchain.findPlace l.head, Option.map_some, DrawList.insertAt, if_neg (by rw [hnext.1]; grind)]
    refine ⟨_, rfl, as₁ ++ a :: l.brk :: b :: bs, hchain.insert ?_ ?_ ?_, ?_, ?_, ?_⟩
    · grind [Function.update_apply]
    · grind [Function.update_apply]
    · simp only [Function.update_self]
      exact hnext.congr (by grind [Function.update_apply])
    · grind
    · simp only [List.mem_append, List.mem_cons] at hbrk ⊢
      grind
    · rw [List.map_append, List.map_cons, List.map_cons, hvalue as₁ (by grind), hvalue (b :: bs) (by grind)]
      simp [Function.update_of_ne (hne a (by simp))]

/-! ## What can be drawn -/

def numbers (n : Nat) : List Nat := List.range' 1 n

theorem numbers_succ (n : Nat) : (numbers (n + 1)).Perm ((n + 1) :: numbers n) := by
  rw [numbers, List.range'_1_concat, Nat.add_comm]
  exact List.perm_append_singleton _ _

theorem exists_place {α : Type} {l : List α} {i : Nat} (h : i < l.length) :
    ∃ pre a post, l = pre ++ a :: post ∧ i = pre.length :=
  ⟨l.take i, l[i], l.drop (i + 1), by rw [← List.drop_eq_getElem_cons h, List.take_append_drop],
    by rw [List.length_take, min_eq_left h.le]⟩

theorem drawList_spec (rands : List Nat) : ∃ l vs, drawList rands = some l ∧ l.Holds vs ∧
    vs.Perm (numbers (rands.length + 1)) ∧ vs.getLast? = some 1 := by
  induction rands with
  | nil => exact ⟨_, [1], rfl, ⟨[0], ⟨rfl, rfl⟩, List.nodup_singleton 0, by simp, rfl⟩, .refl _, rfl⟩
  | cons rand rands ih =>
    obtain ⟨l, vs, hl, hholds, hperm, hlast⟩ := ih
    have hlen : vs.length = rands.length + 1 := by rw [hperm.length_eq, numbers, List.length_range']
    have hplace := Nat.mod_lt rand (Nat.succ_pos rands.length)
    obtain ⟨pre, v, post, rfl, hpre⟩ := exists_place (hplace.trans_eq hlen.symm)
    obtain ⟨l', hl', hholds'⟩ := insertNumber_spec hholds (k := rands.length + 2) hpre
    refine ⟨l', _, by rw [drawList, hl, Option.bind_some, hl'], hholds', ?_, ?_⟩
    · exact List.perm_middle.trans ((hperm.cons _).trans (numbers_succ _).symm)
    · simpa using hlast

theorem DrawList.Holds.unique {l : DrawList} {vs vs' : List Nat} (h : l.Holds vs) (h' : l.Holds vs') : vs = vs' := by
  obtain ⟨as, hchain, -, -, rfl⟩ := h
  obtain ⟨as', hchain', -, -, rfl⟩ := h'
  congr 1
  generalize some l.head = p at hchain hchain'
  induction as generalizing p as' with
  | nil =>
    cases as' with
    | nil => rfl
    | cons a' as' => exact absurd (hchain.symm.trans hchain'.1) (by simp)
  | cons a as ih =>
    cases as' with
    | nil => exact absurd (hchain'.symm.trans hchain.1) (by simp)
    | cons a' as' =>
      obtain rfl := Option.some.inj (hchain.1.symm.trans hchain'.1)
      rw [ih _ _ hchain.2 hchain'.2]

theorem exists_draws {n : Nat} {vs : List Nat} (hperm : vs.Perm (numbers (n + 1))) (hlast : vs.getLast? = some 1) :
    ∃ rands l, rands.length = n ∧ drawList rands = some l ∧ l.Holds vs := by
  induction n generalizing vs with
  | zero =>
    obtain rfl : vs = [1] := List.perm_singleton.mp hperm
    exact ⟨[], _, rfl, rfl, [0], ⟨rfl, rfl⟩, List.nodup_singleton 0, by simp, rfl⟩
  | succ n ih =>
    have hperm := hperm.trans (numbers_succ _)
    obtain ⟨pre, post, rfl⟩ := List.append_of_mem (hperm.mem_iff.mpr List.mem_cons_self)
    cases post with
    | nil => exact absurd hlast (by simp)
    | cons v post =>
      have hperm' : (pre ++ v :: post).Perm (numbers (n + 1)) :=
        (List.perm_cons _).mp (List.perm_middle.symm.trans hperm)
      obtain ⟨rands, l, hlen, hl, hholds⟩ := ih hperm' (by simpa using hlast)
      have hpre : pre.length % (n + 1) = pre.length := by
        have := hperm'.length_eq
        rw [numbers, List.length_range', List.length_append, List.length_cons] at this
        exact Nat.mod_eq_of_lt (by omega)
      obtain ⟨l', hl', hholds'⟩ := insertNumber_spec hholds (k := rands.length + 2) (hlen ▸ hpre)
      exact ⟨pre.length :: rands, l', by rw [List.length_cons, hlen], by rw [drawList, hl, Option.bind_some, hl'],
        hlen ▸ hholds'⟩

/-- Whatever is drawn, the list is well formed and holds each number once. A rearrangement can be
drawn if and only if the one comes last in it, which is so for all of them only if there is one
customer: a new number is put before one of the nodes, and never behind the last. -/
theorem random_list_iff (n : Nat) :
    (∀ rands, rands.length = n → ∃ l vs, drawList rands = some l ∧ l.Holds vs ∧ vs.Perm (numbers (n + 1))) ∧
    (∀ vs, vs.Perm (numbers (n + 1)) →
      ((∃ rands l, rands.length = n ∧ drawList rands = some l ∧ l.Holds vs) ↔ vs.getLast? = some 1)) ∧
    ((∀ vs, vs.Perm (numbers (n + 1)) → ∃ rands l, rands.length = n ∧ drawList rands = some l ∧ l.Holds vs) ↔
      n + 1 = 1) := by
  have hiff : ∀ vs, vs.Perm (numbers (n + 1)) →
      ((∃ rands l, rands.length = n ∧ drawList rands = some l ∧ l.Holds vs) ↔ vs.getLast? = some 1) := by
    intro vs hperm
    refine ⟨?_, exists_draws hperm⟩
    rintro ⟨rands, l, _, hl, hholds⟩
    obtain ⟨l', vs', hl', hholds', _, hlast⟩ := drawList_spec rands
    obtain rfl := Option.some.inj (hl.symm.trans hl')
    rw [hholds.unique hholds', hlast]
  refine ⟨?_, hiff, fun hall => ?_, fun hn vs hperm => ?_⟩
  · rintro rands rfl
    obtain ⟨l, vs, hl, hholds, hperm, _⟩ := drawList_spec rands
    exact ⟨l, vs, hl, hholds, hperm⟩
  · have hlast := (hiff _ (.refl _)).mp (hall (numbers (n + 1)) (.refl _))
    rw [numbers, List.getLast?_range'] at hlast
    simp at hlast
    omega
  · obtain rfl : n = 0 := by omega
    exact exists_draws hperm (by rw [List.perm_singleton.mp hperm]; rfl)

/-- Two customers are always in the order two, one. -/
theorem one_never_first : [1, 2].Perm (numbers 2) ∧ ¬∃ rands l, rands.length = 1 ∧ drawList rands = some l ∧ l.Holds [1, 2] := by
  refine ⟨.refl _, ?_⟩
  rintro ⟨rands, l, _, hl, hholds⟩
  obtain ⟨l', vs', hl', hholds', _, hlast⟩ := drawList_spec rands
  obtain rfl := Option.some.inj (hl.symm.trans hl')
  rw [← hholds.unique hholds'] at hlast
  exact absurd hlast (by decide)

end MysqlBench.Dbt2
