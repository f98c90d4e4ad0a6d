import Mathlib.Data.List.Nodup
import Mathlib.Logic.Function.Basic

/-!
# Intrusive lists

A circular list whose links lie in the items themselves, with a head that is no item: `none` stands for
the head, `some x` for the item `x`. The links represent a list if, going on from the head, they lead
through its items and back, with the backward links to match (`Represents`).
-/

namespace MysqlBench.Lib

structure Links (I : Type) where
  next : Option I → Option I
  prev : Option I → Option I

namespace Links

variable {I : Type}

def Segment (k : Links I) : Option I → List I → Prop
  | a, [] => k.next a = none ∧ k.prev none = a
  | a, x :: l => k.next a = some x ∧ k.prev (some x) = a ∧ Segment k (some x) l

def Represents (k : Links I) (l : List I) : Prop := l.Nodup ∧ k.Segment none l

variable {k : Links I} {l : List I} {x : I}

theorem Segment.congr {k' : Links I} : ∀ {l : List I} {a : Option I}, k.Segment a l →
    k'.next a = k.next a → (∀ x ∈ l, k'.next (some x) = k.next (some x)) →
    (∀ x ∈ l, k'.prev (some x) = k.prev (some x)) → k'.prev none = k.prev none → k'.Segment a l := by
  intro l
  induction l with
  | nil => exact fun h hnext _ _ hprev => ⟨hnext.trans h.1, hprev.trans h.2⟩
  | cons x l ih =>
    intro a h hnext hnexts hprevs hprev
    obtain ⟨h1, h2, h3⟩ := h
    refine ⟨hnext.trans h1, (hprevs x List.mem_cons_self).trans h2, ?_⟩
    exact ih h3 (hnexts x List.mem_cons_self) (fun y hy => hnexts y (List.mem_cons_of_mem _ hy))
      (fun y hy => hprevs y (List.mem_cons_of_mem _ hy)) hprev

theorem Segment.prev_none : ∀ {l : List I} {a : Option I}, k.Segment a l →
    k.prev none = a ∧ l = [] ∨ ∃ z ∈ l, k.prev none = some z := by
  intro l
  induction l with
  | nil => exact fun h => Or.inl ⟨h.2, rfl⟩
  | cons x l ih =>
    intro a h
    rcases ih h.2.2 with ⟨hx, -⟩ | ⟨z, hz, hlast⟩
    · exact Or.inr ⟨x, List.mem_cons_self, hx⟩
    · exact Or.inr ⟨z, List.mem_cons_of_mem _ hz, hlast⟩

theorem Represents.next_none (h : k.Represents l) :
    k.next none = l.head? := by
  cases l with
  | nil => exact h.2.1
  | cons x l => exact h.2.1

/-! ## Operations -/

def init (k : Links I) [DecidableEq I] : Links I :=
  ⟨Function.update k.next none none, Function.update k.prev none none⟩

variable [DecidableEq I]

theorem represents_init (k : Links I) : k.init.Represents [] := by
  refine ⟨List.nodup_nil, ?_, ?_⟩ <;> simp [init]

def addTail (k : Links I) (x : I) : Links I :=
  let k := { k with prev := Function.update k.prev (some x) (k.prev none) }
  let k := { k with next := Function.update k.next (some x) none }
  let k := { k with prev := Function.update k.prev none (some x) }
  { k with next := Function.update k.next (k.prev (some x)) (some x) }

def delete (k : Links I) (x : I) : Links I :=
  let k := { k with prev := Function.update k.prev (k.next (some x)) (k.prev (some x)) }
  { k with next := Function.update k.next (k.prev (some x)) (k.next (some x)) }

theorem addTail_next (k : Links I) (x : I) : (k.addTail x).next =
    Function.update (Function.update k.next (some x) none) (k.prev none) (some x) := by
  simp [addTail]

theorem addTail_prev (k : Links I) (x : I) : (k.addTail x).prev =
    Function.update (Function.update k.prev (some x) (k.prev none)) none (some x) := rfl

theorem Segment.addTail : ∀ {l : List I} {a : Option I}, k.Segment a l →
    l.Nodup → x ∉ l → a ≠ some x → (∀ y ∈ l, a ≠ some y) → (k.addTail x).Segment a (l ++ [x]) := by
  intro l
  induction l with
  | nil =>
    intro a h _ _ hax _
    obtain ⟨-, hlast⟩ := h
    refine ⟨?_, ?_, ?_, ?_⟩
    · rw [addTail_next, hlast, Function.update_self]
    · rw [addTail_prev, Function.update_of_ne (Option.some_ne_none x), Function.update_self, hlast]
    · rw [addTail_next, hlast, Function.update_of_ne hax.symm, Function.update_self]
    · rw [addTail_prev, Function.update_self]
  | cons y l ih =>
    intro a h hnodup hx hax hal
    obtain ⟨h1, h2, h3⟩ := h
    obtain ⟨hyl, hnodup⟩ := List.nodup_cons.mp hnodup
    have hxy : x ≠ y := fun he => hx (he ▸ List.mem_cons_self)
    have hxl : x ∉ l := fun hmem => hx (List.mem_cons_of_mem _ hmem)
    -- the last node is behind `a`
    have hlast : a ≠ k.prev none := by
      rcases h3.prev_none with ⟨hz, -⟩ | ⟨z, hz, hlast⟩
      · rw [hz]
        exact hal y List.mem_cons_self
      · rw [hlast]
        exact hal z (List.mem_cons_of_mem _ hz)
    refine ⟨?_, ?_, ?_⟩
    · rw [addTail_next, Function.update_of_ne hlast, Function.update_of_ne hax, h1]
    · rw [addTail_prev, Function.update_of_ne (Option.some_ne_none y),
        Function.update_of_ne fun he => hxy (Option.some.inj he).symm, h2]
    · exact ih h3 hnodup hxl (fun he => hxy (Option.some.inj he).symm)
        fun z hz he => hyl (Option.some.inj he ▸ hz)

theorem Represents.addTail (h : k.Represents l) (hx : x ∉ l) :
    (k.addTail x).Represents (l ++ [x]) := by
  refine ⟨?_, h.2.addTail h.1 hx (Option.some_ne_none x).symm fun y _ => (Option.some_ne_none y).symm⟩
  refine List.Nodup.append h.1 (List.nodup_singleton x) ?_
  rw [List.disjoint_singleton]
  exact hx

theorem Represents.delete_head (h : k.Represents (x :: l)) :
    (k.delete x).Represents l := by
  obtain ⟨hnodup, -, hprev, hseg⟩ := h
  have hnodup := (List.nodup_cons.mp hnodup)
  refine ⟨hnodup.2, ?_⟩
  unfold delete
  dsimp only
  cases l with
  | nil =>
    obtain ⟨hnext, -⟩ := hseg
    rw [hnext, hprev, Function.update_of_ne (Option.some_ne_none x), hprev]
    exact ⟨Function.update_self none none k.next, Function.update_self none none k.prev⟩
  | cons y l =>
    obtain ⟨hnext, hy, hseg⟩ := hseg
    obtain ⟨hyl, -⟩ := List.nodup_cons.mp hnodup.2
    have hxy : some x ≠ some y := fun he => hnodup.1 (Option.some.inj he ▸ List.mem_cons_self)
    rw [hnext, hprev, Function.update_of_ne hxy, hprev]
    refine ⟨Function.update_self none (some y) k.next, Function.update_self (some y) none k.prev, ?_⟩
    refine hseg.congr ?_ (fun z _ => ?_) (fun z hz => ?_) ?_ <;> dsimp only
    · exact Function.update_of_ne (Option.some_ne_none y) ..
    · exact Function.update_of_ne (Option.some_ne_none z) ..
    · have hzy : some z ≠ some y := fun he => hyl (Option.some.inj he ▸ hz)
      exact Function.update_of_ne hzy ..
    · exact Function.update_of_ne (Option.some_ne_none y).symm ..

end Links

end MysqlBench.Lib
