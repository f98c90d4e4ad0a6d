import MysqlBench.Lib.Bytes

/-!
# Strings that end at a zero byte

A buffer is the list of the bytes that have been written to it, from its beginning on. A string is
written together with its zero byte, and reading stops at the first one (`takeWhile_zero`).
-/

namespace MysqlBench.Lib

theorem takeWhile_zero {s t : List Byte} (hs : 0 ∉ s) :
    (s ++ 0 :: t).takeWhile (· ≠ 0) = s := by
  have hpos : ∀ b ∈ s, decide (b ≠ 0) = true := by
    intro b hb
    refine decide_eq_true ?_
    rintro rfl
    exact hs hb
  rw [List.takeWhile_append_of_pos hpos, List.takeWhile_cons_of_neg (by simp), List.append_nil]

end MysqlBench.Lib
