import Mathlib.Data.List.Nodup
import Mathlib.Logic.Function.Basic

/-!
# Lists of assignments

A record with many members of one type is a function from their names, and code that fills it member
by member is a list of pairs: the member assigned to, and the member of another record whose value it
gets. As long as no member is assigned twice, the order does not matter and the value of a member is
found by looking it up (`assign_apply`); two such lists after each other take a member to the one
that `route` names.
-/

namespace MysqlBench.Lib

def alike {F : Type} (fs : List F) : List (F × F) := fs.map fun f => (f, f)

variable {F V W : Type} [DecidableEq F]

/-- `dst->x = conv(src->y);` for each pair, one after the other; a conversion may leave something of
the old value. -/
@[irreducible] def assign (l : List (F × F)) (conv : V → W → W) (src : F → V) (dst : F → W) :
    F → W :=
  l.foldl (fun dst a => Function.update dst a.1 (conv (src a.2) (dst a.1))) dst

theorem assign_nil (conv : V → W → W) (src : F → V) (dst : F → W) : assign [] conv src dst = dst := by
  unfold assign
  rfl

theorem assign_cons (a : F × F) (l : List (F × F)) (conv : V → W → W) (src : F → V) (dst : F → W) :
    assign (a :: l) conv src dst =
      assign l conv src (Function.update dst a.1 (conv (src a.2) (dst a.1))) := by
  unfold assign
  rfl

def Once (l : List (F × F)) : Prop := (l.map Prod.fst).Nodup

instance (l : List (F × F)) : Decidable (Once l) := inferInstanceAs (Decidable (List.Nodup _))

theorem assign_of_not_mem {conv : V → W → W} {src : F → V} {f : F} :
    ∀ (l : List (F × F)) (dst : F → W), f ∉ l.map Prod.fst → assign l conv src dst f = dst f := by
  intro l
  induction l with
  | nil => intro dst _; rw [assign_nil]
  | cons a l ih =>
    intro dst hf
    rw [List.map_cons, List.mem_cons, not_or] at hf
    rw [assign_cons, ih _ hf.2, Function.update_of_ne hf.1]

theorem assign_apply {conv : V → W → W} {src : F → V} (f : F) :
    ∀ (l : List (F × F)) (dst : F → W), Once l →
      assign l conv src dst f = ((l.lookup f).map fun g => conv (src g) (dst f)).getD (dst f) := by
  intro l
  induction l with
  | nil => intro dst _; rw [assign_nil]; rfl
  | cons a l ih =>
    intro dst hl
    have hl : a.1 ∉ l.map Prod.fst ∧ Once l := List.nodup_cons.mp hl
    by_cases hf : f = a.1
    · have hlook : (a :: l).lookup f = some a.2 := by
        rw [List.lookup_cons, hf, beq_self_eq_true]
      subst hf
      rw [hlook, assign_cons, assign_of_not_mem l _ hl.1, Function.update_self]
      rfl
    · have hlook : (a :: l).lookup f = l.lookup f := by
        rw [List.lookup_cons, beq_eq_false_iff_ne.mpr hf]
      rw [hlook, assign_cons, ih _ hl.2, Function.update_of_ne hf]

def route (first second : List (F × F)) (f : F) : Option F :=
  (second.lookup f).bind fun m => first.lookup m

theorem assign_assign {enc : V → W → W} {dec : W → V → V} {first second : List (F × F)}
    (h₁ : Once first) (h₂ : Once second) {src dst : F → V} {mid : F → W} {f g : F}
    (hroute : route first second f = some g) (hexact : ∀ w, dec (enc (src g) w) (dst f) = src g) :
    assign second dec (assign first enc src mid) dst f = src g := by
  obtain ⟨m, hm, hg⟩ := Option.bind_eq_some_iff.mp hroute
  rw [assign_apply f second dst h₂, hm, Option.map_some, Option.getD_some,
    assign_apply m first mid h₁, hg, Option.map_some, Option.getD_some, hexact]

def copyFirst {n : Nat} (bound : Nat) (conv : V → W) (src : Fin n → V) (dst : Fin n → W) :
    Fin n → W := fun i => if i.val < bound then conv (src i) else dst i

end MysqlBench.Lib
