import MysqlBench.Lib.EditDistance

/-!
# Near matches of option names (`parse.c`)

For an option it does not know, `fio` proposes the one that is nearest by `string_distance`. The function fills the
table of the distances of all prefixes row by row. It has two rows of memory, which come from `malloc` with anything
in them: the row that is done is read while the next one is written over the one before it, and then they change
places. `Row` says which row of the table the memory holds (`row_nextRow`).

The lengths and the entries are `unsigned int`, and the result is an `int`. So a string of `2 ^ 32` characters would
be taken for the empty one, and for a length of `2 ^ 32 - 1` the loops would not end, or the array would have no room
(`stringDistance_eq`). The strings are an argument of the command line and the name of an option, which are nowhere
near that.
-/

namespace MysqlBench.Fio

open Lib

def succUint (x : Nat) : Nat := (x + 1) % 2 ^ 32

def uintLength (s : List Char) : Nat := s.length % 2 ^ 32

def firstRow (p : Nat → Nat) (s2Len : Nat) : Nat → Nat :=
  (List.range s2Len).foldl (fun p i => Function.update p (i + 1) (succUint (p i))) (Function.update p 0 0)

def nextRow (s1 s2 : List Char) (i : Nat) (p q : Nat → Nat) (s2Len : Nat) : Nat → Nat :=
  (List.range s2Len).foldl (fun q j =>
      let sub := if s1[i]? ≠ s2[j]? then succUint (p j) else p j
      Function.update q (j + 1) (min (succUint (p (j + 1))) (min (succUint (q j)) sub)))
    (Function.update q 0 (succUint (p 0)))

def distanceRows (s1 s2 : List Char) (s2Len : Nat) : Nat → (Nat → Nat) × (Nat → Nat) → (Nat → Nat) × (Nat → Nat)
  | 0, rows => rows
  | i + 1, rows =>
    let (p, q) := distanceRows s1 s2 s2Len i rows
    (nextRow s1 s2 i p q s2Len, p)

def stringDistance (p q : Nat → Nat) (s1 s2 : List Char) : Option Int :=
  if uintLength s1 = 2 ^ 32 - 1 ∨ uintLength s2 = 2 ^ 32 - 1 then none
  else
    let rows := distanceRows s1 s2 (uintLength s2) (uintLength s1) (firstRow p (uintLength s2), q)
    some (Int.bmod (rows.1 (uintLength s2)) (2 ^ 32))

/-! ## The rows -/

def Row (s1 s2 : List Char) (i : Nat) (p : Nat → Nat) (n : Nat) : Prop :=
  ∀ j ≤ n, p j = editDistance (s1.take i) (s2.take j)

variable {x i j : Nat} {s1 s2 : List Char} {n : Nat} {p : Nat → Nat}

theorem succUint_eq (h : x < 2 ^ 32 - 1) : succUint x = x + 1 := Nat.mod_eq_of_lt (by omega)

theorem distance_take_lt (s1 s2 : List Char) (hi : i < 2 ^ 32 - 1) (hj : j < 2 ^ 32 - 1) :
    editDistance (s1.take i) (s2.take j) < 2 ^ 32 - 1 := by
  have hle := editDistance_le (s1.take i) (s2.take j)
  rw [List.length_take, List.length_take] at hle
  omega

theorem distance_take_succ (hi : i < s1.length) (hj : j < s2.length) :
    editDistance (s1.take (i + 1)) (s2.take (j + 1)) = min (editDistance (s1.take i) (s2.take (j + 1)) + 1)
      (min (editDistance (s1.take (i + 1)) (s2.take j) + 1)
        (editDistance (s1.take i) (s2.take j) + if s1[i]? = s2[j]? then 0 else 1)) := by
  rw [List.take_succ_eq_append_getElem hi, List.take_succ_eq_append_getElem hj, editDistance_concat,
    List.getElem?_eq_getElem hi, List.getElem?_eq_getElem hj]
  simp only [Option.some.injEq]

theorem Row.update (h : Row s1 s2 i p n)
    (hx : x = editDistance (s1.take i) (s2.take (n + 1))) : Row s1 s2 i (Function.update p (n + 1) x) (n + 1) := by
  intro j hj
  by_cases hlast : j = n + 1
  · rw [hlast, Function.update_self, hx]
  · rw [Function.update_of_ne hlast]
    exact h j (by omega)

theorem row_firstRow (s1 s2 : List Char) (p : Nat → Nat) (hn : n ≤ s2.length) (hlt : n < 2 ^ 32 - 1) :
    Row s1 s2 0 (firstRow p n) n := by
  induction n with
  | zero =>
    intro j hj
    obtain rfl : j = 0 := by omega
    simp [firstRow]
  | succ n ih =>
    have hrow := ih (by omega) (by omega)
    rw [firstRow, List.range_succ, List.foldl_append]
    refine hrow.update ?_
    have hlast := hrow n le_rfl
    rw [← firstRow, hlast, succUint_eq (distance_take_lt s1 s2 (by omega) (by omega))]
    simp [List.length_take, hn, Nat.le_of_succ_le hn]

theorem nextRow_succ (s1 s2 : List Char) (i : Nat) (p q : Nat → Nat) (n : Nat) : nextRow s1 s2 i p q (n + 1) =
    Function.update (nextRow s1 s2 i p q n) (n + 1) (min (succUint (p (n + 1)))
      (min (succUint (nextRow s1 s2 i p q n n)) (if s1[i]? ≠ s2[n]? then succUint (p n) else p n))) := by
  rw [nextRow, List.range_succ, List.foldl_append]
  rfl

theorem row_nextRow {m : Nat} (hp : Row s1 s2 i p m) (q : Nat → Nat)
    (hi : i < s1.length) (hi' : i + 1 < 2 ^ 32 - 1) (hm : m ≤ s2.length) (hm' : m < 2 ^ 32 - 1) (hn : n ≤ m) :
    Row s1 s2 (i + 1) (nextRow s1 s2 i p q n) n := by
  induction n with
  | zero =>
    intro j hj
    obtain rfl : j = 0 := by omega
    have hfirst := hp 0 (by omega)
    rw [nextRow, List.range_zero, List.foldl_nil, Function.update_self, hfirst,
      succUint_eq (distance_take_lt s1 s2 (by omega) (by omega))]
    simp [List.length_take]
    omega
  | succ n ih =>
    have hrow := ih (by omega)
    have hlt : ∀ k l, k ≤ i + 1 → l ≤ m → editDistance (s1.take k) (s2.take l) < 2 ^ 32 - 1 :=
      fun k l hk hl => distance_take_lt s1 s2 (by omega) (by omega)
    rw [nextRow_succ, hrow n le_rfl, hp n (by omega), hp (n + 1) (by omega), ite_not]
    refine hrow.update ?_
    rw [distance_take_succ hi (by omega), succUint_eq (hlt _ _ (by omega) (by omega)),
      succUint_eq (hlt _ _ (by omega) (by omega)), succUint_eq (hlt _ _ (by omega) (by omega))]
    split <;> rfl

theorem row_distanceRows {rows : (Nat → Nat) × (Nat → Nat)}
    (h : Row s1 s2 0 rows.1 n) (hi : i ≤ s1.length) (hi' : i < 2 ^ 32 - 1) (hn : n ≤ s2.length)
    (hn' : n < 2 ^ 32 - 1) : Row s1 s2 i (distanceRows s1 s2 n i rows).1 n := by
  induction i with
  | zero => exact h
  | succ i ih => exact row_nextRow (ih (by omega) (by omega)) _ (by omega) hi' hn hn' le_rfl

/-! ## The distance -/

theorem stringDistance_eq (p q : Nat → Nat) (s1 s2 : List Char) : stringDistance p q s1 s2 =
    if uintLength s1 = 2 ^ 32 - 1 ∨ uintLength s2 = 2 ^ 32 - 1 then none
    else some (Int.bmod (editDistance (s1.take (uintLength s1)) (s2.take (uintLength s2))) (2 ^ 32)) := by
  unfold stringDistance
  split
  · rfl
  · next hlen =>
    have h1 : uintLength s1 < 2 ^ 32 := Nat.mod_lt _ (by decide)
    have h2 : uintLength s2 < 2 ^ 32 := Nat.mod_lt _ (by decide)
    have hle1 : uintLength s1 ≤ s1.length := Nat.mod_le _ _
    have hle2 : uintLength s2 ≤ s2.length := Nat.mod_le _ _
    have hfirst := row_firstRow s1 s2 p hle2 (by omega)
    dsimp only
    rw [row_distanceRows hfirst hle1 (by omega) hle2 (by omega) _ le_rfl]

/-- **The edit distance.** Whatever `malloc` leaves in the rows, the function gives the distance of strings shorter
than `2 ^ 31`. Its one caller compares an argument of the command line with the names of the options. -/
theorem string_distance_exact (p q : Nat → Nat) (s1 s2 : List Char) (h1 : s1.length < 2 ^ 31)
    (h2 : s2.length < 2 ^ 31) : stringDistance p q s1 s2 = some (editDistance s1 s2 : Int) := by
  have hlen1 : uintLength s1 = s1.length := Nat.mod_eq_of_lt (by omega)
  have hlen2 : uintLength s2 = s2.length := Nat.mod_eq_of_lt (by omega)
  have hle := editDistance_le s1 s2
  rw [stringDistance_eq, hlen1, hlen2, if_neg (by omega), List.take_length, List.take_length, Int.bmod_def]
  rw [Option.some.injEq]
  omega

/-- A letter too much in the name of an option. -/
theorem string_distance_rw :
    stringDistance (fun j => 7 * j) (fun _ => 9) ['r', 'a', 'w'] ['r', 'w'] = some 1 := by
  rw [string_distance_exact _ _ _ _ (by decide) (by decide)]
  simp [editDistance_cons]

end MysqlBench.Fio
