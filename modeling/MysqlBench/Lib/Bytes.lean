import Mathlib

/-!
# Bytes: little-endian numbers and byte-addressed memory

A number of `n` bytes is stored lowest byte first. A memory is a function from addresses to bytes;
`store` overwrites a stretch of it and `load` reads one. A load from the stretch just stored
returns it, a load from anywhere else is not affected: these two equations are all that proofs
about code with pointers use.
-/

namespace MysqlBench.Lib

abbrev Byte := BitVec 8

/-! ## Little-endian numbers -/

def leBytes : Nat → Nat → List Byte
  | 0, _ => []
  | n + 1, v => BitVec.ofNat 8 v :: leBytes n (v / 256)

def leValue : List Byte → Nat
  | [] => 0
  | b :: bs => b.toNat + 256 * leValue bs

variable {n v a : Nat} {b bs : List Byte} {a' : Nat}

@[simp] theorem length_leBytes : ∀ (n v : Nat), (leBytes n v).length = n := by
  intro n
  induction n with
  | zero => intro v; rfl
  | succ n ih => intro v; rw [leBytes, List.length_cons, ih]

theorem leValue_lt (bs : List Byte) : leValue bs < 256 ^ bs.length := by
  induction bs with
  | nil => exact Nat.one_pos
  | cons b bs ih =>
    have hb := b.isLt
    rw [leValue, List.length_cons, Nat.pow_succ']
    omega

theorem leValue_leBytes : ∀ (n v : Nat), leValue (leBytes n v) = v % 256 ^ n := by
  intro n
  induction n with
  | zero => intro v; rw [Nat.pow_zero, Nat.mod_one]; rfl
  | succ n ih =>
    intro v
    rw [leBytes, leValue, ih, BitVec.toNat_ofNat, Nat.pow_succ' (m := 256) (n := n), Nat.mod_mul]

theorem leValue_leBytes_of_lt (h : v < 256 ^ n) : leValue (leBytes n v) = v := by
  rw [leValue_leBytes, Nat.mod_eq_of_lt h]

theorem getD_leBytes : ∀ (n v j : Nat), j < n →
    (leBytes n v).getD j 0#8 = BitVec.ofNat 8 (v / 256 ^ j) := by
  intro n
  induction n with
  | zero => intro v j hj; omega
  | succ n ih =>
    intro v j hj
    cases j with
    | zero => simp [leBytes]
    | succ j =>
      rw [leBytes, List.getD_cons_succ, ih _ _ (by omega), Nat.div_div_eq_div_mul,
        Nat.pow_succ' (m := 256) (n := j)]

def leField (bs : List Byte) (off n : Nat) : Nat := leValue ((bs.drop off).take n)

theorem leField_append_right {a : List Byte} {off : Nat} (h : a.length ≤ off) :
    leField (a ++ b) off n = leField b (off - a.length) n := by
  rw [leField, List.drop_append, List.drop_eq_nil_of_le h, List.nil_append, leField]

theorem leField_leBytes_append (h : v < 256 ^ n) :
    leField (leBytes n v ++ b) 0 n = v := by
  rw [leField, List.drop_zero, List.take_append_of_le_length (by simp),
    List.take_of_length_le (by simp), leValue_leBytes_of_lt h]

/-! ## Memory -/

abbrev Mem := Nat → Byte

variable {mem : Mem}

def load (mem : Mem) (a n : Nat) : List Byte := (List.range n).map fun i => mem (a + i)

def store (mem : Mem) (a : Nat) (bs : List Byte) : Mem := fun x =>
  if a ≤ x ∧ x < a + bs.length then bs.getD (x - a) 0#8 else mem x

@[simp] theorem length_load (mem : Mem) (a n : Nat) : (load mem a n).length = n := by simp [load]

theorem load_eq_iff {mem' : Mem} {b : Nat} :
    load mem a n = load mem' b n ↔ ∀ j, j < n → mem (a + j) = mem' (b + j) := by
  simp [load, List.map_inj_left]

theorem drop_load (mem : Mem) (a n k : Nat) : (load mem a n).drop k = load mem (a + k) (n - k) := by
  refine List.ext_getElem (by simp) fun i h _ => ?_
  simp [load, Nat.add_assoc]

theorem load_add (mem : Mem) (a m n : Nat) :
    load mem a (m + n) = load mem a m ++ load mem (a + m) n := by
  simp only [load, List.range_add, List.map_append, List.map_map, Function.comp_def, Nat.add_assoc]

theorem store_of_not_mem {x : Nat} (h : x < a ∨ a + bs.length ≤ x) :
    store mem a bs x = mem x := if_neg (by omega)

theorem store_load_apply (mem mem' : Mem) (a b n x : Nat) :
    store mem a (load mem' b n) x = if a ≤ x ∧ x < a + n then mem' (b + (x - a)) else mem x := by
  unfold store
  rw [length_load]
  by_cases h : a ≤ x ∧ x < a + n
  · rw [if_pos h, if_pos h]
    simp [load, show x - a < n by omega]
  · rw [if_neg h, if_neg h]

theorem store_replicate_apply (mem : Mem) (a n x : Nat) (v : Byte) :
    store mem a (List.replicate n v) x = if a ≤ x ∧ x < a + n then v else mem x := by
  unfold store
  rw [List.length_replicate]
  by_cases h : a ≤ x ∧ x < a + n
  · rw [if_pos h, if_pos h]
    simp [show x - a < n by omega]
  · rw [if_neg h, if_neg h]

theorem load_store_same (mem : Mem) (a : Nat) (bs : List Byte) :
    load (store mem a bs) a bs.length = bs := by
  refine List.ext_getElem (by simp) fun i h _ => ?_
  rw [length_load] at h
  simp [load, store, h]

def Apart (a n a' n' : Nat) : Prop := a + n ≤ a' ∨ a' + n' ≤ a

theorem load_store_apart (mem : Mem)
    (h : Apart a n a' bs.length) : load (store mem a' bs) a n = load mem a n := by
  refine List.map_congr_left fun i hi => ?_
  have hi := List.mem_range.mp hi
  unfold Apart at h
  exact if_neg (by omega)

def loadLE (mem : Mem) (a n : Nat) : Nat := leValue (load mem a n)

def storeLE (mem : Mem) (a n v : Nat) : Mem := store mem a (leBytes n v)

theorem loadLE_storeLE_same (mem : Mem) (a : Nat) (h : v < 256 ^ n) :
    loadLE (storeLE mem a n v) a n = v := by
  have hload := load_store_same mem a (leBytes n v)
  rw [length_leBytes] at hload
  rw [loadLE, storeLE, hload, leValue_leBytes_of_lt h]

theorem loadLE_store_apart (mem : Mem)
    (h : Apart a n a' bs.length) : loadLE (store mem a' bs) a n = loadLE mem a n := by
  rw [loadLE, load_store_apart mem h, loadLE]

theorem loadLE_storeLE_apart {n' : Nat} (v : Nat) (mem : Mem) (h : Apart a n a' n') :
    loadLE (storeLE mem a' n' v) a n = loadLE mem a n :=
  loadLE_store_apart mem (by rwa [length_leBytes])

/-! ## Indices

An array of fixed size is a function of `Fin n`. The literals of `Fin n` rest on its size not being zero;
named, this is the same proof wherever they stand. -/

theorem neZero_three : NeZero 3 := ⟨by decide⟩

theorem neZero_ten : NeZero 10 := ⟨by decide⟩

theorem neZero_twelve : NeZero 12 := ⟨by decide⟩

end MysqlBench.Lib
