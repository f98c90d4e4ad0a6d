import MysqlBench.Fio.Axmap.Refine
import Mathlib.Data.List.Induction

/-!
# Runs of an `axmap`

The state of an `axmap` is only reached through its operations, so everything said here is said
of `runOps m₀ ops` for a map `m₀` that `axmap_new` returned and any list of calls whose bit
numbers are in range. `SetSince` is the specification such a run refines: a bit is set when it
was set after it was last cleared, by `axmap_clear` or by `axmap_reset`.
-/

namespace MysqlBench.Fio

open MysqlBench.Lib

inductive BitOp where
  | set (bitNr : Nat)
  | clear (bitNr : Nat)
  | reset
deriving Repr, DecidableEq

inductive MapOp where
  | bit (op : BitOp)
  | setNr (bitNr nrBits : Nat)
deriving Repr, DecidableEq

def BitOp.apply (m : Axmap) : BitOp → Axmap
  | .set b => axmapSet m b
  | .clear b => axmapClear m b
  | .reset => axmapReset m

def MapOp.apply (m : Axmap) : MapOp → Axmap
  | .bit op => op.apply m
  | .setNr b n => (axmapSetNr m b n).1

def BitOp.InRange (nrBits : Nat) : BitOp → Prop
  | .set b => b < nrBits
  | .clear b => b < nrBits
  | .reset => True

def MapOp.InRange (nrBits : Nat) : MapOp → Prop
  | .bit op => op.InRange nrBits
  | .setNr b n => b + n ≤ nrBits ∧ n < 2 ^ 32

def runOps (m : Axmap) (ops : List MapOp) : Axmap := ops.foldl MapOp.apply m

variable {nrBits : Nat} {m : Axmap} {op : BitOp} {b : Nat}

theorem MapOp.apply_ok {op : MapOp} (hlt : nrBits + 63 < 2 ^ 64)
    (h : AxmapOk nrBits m) (hop : op.InRange nrBits) : AxmapOk nrBits (op.apply m) := by
  cases op with
  | bit op =>
    cases op with
    | set b => exact (axmapSet_ok h hlt hop).1
    | clear b => exact (axmapClear_ok h hop).1
    | reset => exact axmapReset_ok h
  | setNr b n => exact axmapSetNr_ok h hlt hop.1 hop.2

theorem runOps_ok {ops : List MapOp} (hlt : nrBits + 63 < 2 ^ 64)
    (h : AxmapOk nrBits m) (hops : ∀ op ∈ ops, op.InRange nrBits) :
    AxmapOk nrBits (runOps m ops) :=
  List.foldlRecOn ops MapOp.apply h fun _ hm op hop => MapOp.apply_ok hlt hm (hops op hop)

/-! ## The specification of single-bit runs -/

def SetSince (ops : List BitOp) (b : Nat) : Prop :=
  ∃ pre post, ops = pre ++ .set b :: post ∧ .clear b ∉ post ∧ .reset ∉ post

theorem SetSince.append {ops : List BitOp} (h : SetSince ops b)
    (hc : op ≠ .clear b) (hr : op ≠ .reset) : SetSince (ops ++ [op]) b := by
  obtain ⟨pre, post, rfl, h1, h2⟩ := h
  refine ⟨pre, post ++ [op], by simp, ?_, ?_⟩
  · simpa [h1] using hc.symm
  · simpa [h2] using hr.symm

/-- What the last call of a run says about `b`: it sets it, or what the run before it says
still stands. -/
theorem setSince_append_iff {ops : List BitOp} :
    SetSince (ops ++ [op]) b ↔
      op = .set b ∨ (SetSince ops b ∧ op ≠ .clear b ∧ op ≠ .reset) := by
  constructor
  · rintro ⟨pre, post, he, h1, h2⟩
    rcases List.eq_nil_or_concat post with rfl | ⟨post', last, rfl⟩
    · obtain ⟨-, hop⟩ := List.append_inj' he rfl
      exact Or.inl (by simpa using hop)
    · have he' : ops ++ [op] = (pre ++ .set b :: post') ++ [last] := by simpa using he
      obtain ⟨hops, hlast⟩ := List.append_inj' he' rfl
      obtain rfl : op = last := by simpa using hlast
      simp only [List.concat_eq_append, List.mem_append, List.mem_singleton, not_or] at h1 h2
      exact Or.inr ⟨⟨pre, post', hops, h1.1, h2.1⟩, Ne.symm h1.2, Ne.symm h2.2⟩
  · rintro (rfl | ⟨h, hc, hr⟩)
    · exact ⟨ops, [], rfl, by simp, by simp⟩
    · exact h.append hc hr

theorem not_setSince_nil (b : Nat) : ¬ SetSince [] b := by
  rintro ⟨pre, post, he, -⟩
  exact absurd he (by simp)

/-- The lowest layer of a single-bit run holds exactly the bits its specification says. The
induction is on the run from its end, so that each case is one call on a well-formed map. -/
theorem runOps_baseBit (hlt : nrBits + 63 < 2 ^ 64)
    (h : AxmapOk nrBits m) (hempty : ∀ k, baseBit m.levels k = false) (b : Nat) :
    ∀ (ops : List BitOp), (∀ op ∈ ops, op.InRange nrBits) →
      (baseBit (runOps m (ops.map .bit)).levels b = true ↔ SetSince ops b) := by
  intro ops
  induction ops using List.reverseRecOn with
  | nil =>
    intro _
    simp only [runOps, List.map_nil, List.foldl_nil, hempty b, Bool.false_eq_true, false_iff]
    exact not_setSince_nil b
  | append_singleton ops op ih =>
    intro hops
    have hpre : ∀ o ∈ ops, o.InRange nrBits := fun o ho => hops o (List.mem_append_left _ ho)
    have hop : op.InRange nrBits := hops op (by simp)
    have hok : AxmapOk nrBits (runOps m (ops.map .bit)) := by
      refine runOps_ok hlt h fun o ho => ?_
      obtain ⟨o', ho', rfl⟩ := List.mem_map.mp ho
      exact hpre o' ho'
    have ih := ih hpre
    have hstep : runOps m ((ops ++ [op]).map .bit) = op.apply (runOps m (ops.map .bit)) := by
      simp [runOps, List.foldl_append, MapOp.apply]
    rw [hstep, setSince_append_iff]
    -- the last operation decides about its own bit and leaves the others
    cases op with
    | set c =>
      show baseBit (axmapSet _ c).levels b = true ↔ _
      rw [(axmapSet_ok hok hlt hop).2 b, Bool.or_eq_true, ih, decide_eq_true_eq]
      simp only [BitOp.set.injEq, ne_eq, reduceCtorEq, not_false_eq_true, and_true]
      rw [or_comm, eq_comm]
    | clear c =>
      show baseBit (axmapClear _ c).levels b = true ↔ _
      rw [(axmapClear_ok hok hop).2 b, Bool.and_eq_true, ih, Bool.not_eq_true',
        decide_eq_false_iff_not]
      simp only [reduceCtorEq, BitOp.clear.injEq, ne_eq, not_false_eq_true, and_true, false_or]
      rw [eq_comm]
    | reset =>
      show baseBit (axmapReset _).levels b = true ↔ _
      rw [baseBit_axmapReset]
      simp

/-- **An `axmap` refines a set of bits.** In every state reached from `axmap_new` by calls in
range: a bit of a layer is set exactly when the word it stands for is full, nothing is set past
a layer's valid entries, `axmap_isset` answers the bit of the lowest layer, and after single-bit
calls alone that is the bit's own history. The bound on `nrBits` is that of `axmap_new`'s
`nr_bits + BLOCKS_PER_UNIT - 1`, which must not wrap for the map to have any words. -/
theorem axmap_refines_bits {smalloc : Nat → Nat → Bool} {nrBits : Nat} {m₀ : Axmap}
    {ops : List MapOp} (hlt : nrBits + 63 < 2 ^ 64) (hnew : axmapNew smalloc nrBits = some m₀)
    (hops : ∀ op ∈ ops, op.InRange nrBits) :
    (∀ i k, i + 1 < (runOps m₀ ops).levels.length →
      (bit (levelMap (runOps m₀ ops) (i + 1)) k = true ↔
        word (levelMap (runOps m₀ ops) i) k = BitVec.allOnes 64)) ∧
    (∀ i k, i < (runOps m₀ ops).levels.length → validEntries (runOps m₀ ops) i ≤ k →
      bit (levelMap (runOps m₀ ops) i) k = false) ∧
    (∀ b, b < nrBits →
      axmapIsset (runOps m₀ ops) b = bit (levelMap (runOps m₀ ops) 0) b) ∧
    (∀ bops, ops = bops.map .bit → ∀ b, b < nrBits →
      (axmapIsset (runOps m₀ ops) b = true ↔ SetSince bops b)) := by
  obtain ⟨hok₀, -, hempty⟩ := axmapNew_spec hlt hnew
  have hok := runOps_ok hlt hok₀ hops
  refine ⟨fun i k hi => hok.linked hi, fun i k hi hk => hok.tail hi hk, fun b hb => ?_, ?_⟩
  · rw [axmapIsset_eq hok (Nat.le_of_lt hb), baseBit_eq_levelMap]
  · rintro bops rfl b hb
    rw [axmapIsset_eq hok (Nat.le_of_lt hb)]
    exact runOps_baseBit hlt hok₀ hempty b bops fun op hop =>
      hops (.bit op) (List.mem_map_of_mem hop)

/-- The statement at a map of two layers, after one word has been filled and bit 3 cleared
again. -/
theorem axmap_refines_bits_seventy :
    ∃ m₀, axmapNew (fun _ _ => true) 70 = some m₀ ∧
      (∀ b, b < 70 → (axmapIsset (runOps m₀ [.setNr 0 64, .bit (.clear 3)]) b
        = bit (levelMap (runOps m₀ [.setNr 0 64, .bit (.clear 3)]) 0) b)) := by
  refine ⟨_, rfl, ?_⟩
  refine (@axmap_refines_bits (fun _ _ => true) _ _ _ (by decide) rfl ?_).2.2.1
  intro op hop
  simp only [List.mem_cons, List.not_mem_nil, or_false] at hop
  rcases hop with rfl | rfl
  · exact ⟨by decide, by decide⟩
  · show 3 < 70
    decide

end MysqlBench.Fio
