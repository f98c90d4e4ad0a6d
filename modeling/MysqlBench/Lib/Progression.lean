import Mathlib

/-!
# Arithmetic progressions modulo `n`

A progression whose step is coprime to `n` meets every residue once in each run of `n` members.
-/

namespace MysqlBench.Lib

variable {n step : Nat}

theorem progression_inj (hcop : Nat.Coprime n step) (start : Nat) {i j : Nat} (hi : i < n) (hj : j < n)
    (h : (start + i * step) % n = (start + j * step) % n) : i = j := by
  have hmul : i * step ≡ j * step [MOD n] := Nat.ModEq.add_left_cancel' start h
  exact (Nat.ModEq.cancel_right_of_coprime hcop hmul).eq_of_lt_of_lt hi hj

/-- **A run of `n` members has each residue once.** -/
theorem progression_perm (hcop : Nat.Coprime n step) (start : Nat) :
    ((List.range n).map fun i => (start + i * step) % n).Perm (List.range n) := by
  have hnodup : ((List.range n).map fun i => (start + i * step) % n).Nodup := by
    refine List.Nodup.map_on ?_ List.nodup_range
    intro i hi j hj
    exact progression_inj hcop start (List.mem_range.mp hi) (List.mem_range.mp hj)
  apply (List.subperm_of_subset hnodup ?_).perm_of_length_le
  · simp
  · intro r hr
    obtain ⟨i, hi, rfl⟩ := List.mem_map.mp hr
    have hpos : 0 < n := Nat.lt_of_le_of_lt (Nat.zero_le i) (List.mem_range.mp hi)
    exact List.mem_range.mpr (Nat.mod_lt _ hpos)

end MysqlBench.Lib
