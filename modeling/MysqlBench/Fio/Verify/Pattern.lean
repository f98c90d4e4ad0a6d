import MysqlBench.Fio.Verify.Model

/-!
# Patterns

How the option parser extends a pattern to the whole pattern buffer (`patternFill`, the end of
`pattern_cb`), how the writer repeats it over a buffer (`fillPattern_spec`), and what the check of
an interval compares (`verifyIoUPattern_eq_zero_iff`). A pattern of one byte fills the pattern
buffer; any other is repeated up to its end, and counts 512 bytes from then on.
-/

namespace MysqlBench.Fio

open MysqlBench.Lib

/-! ## The option parser -/

def patternDouble : Nat → Nat → Mem → Nat × Mem
  | 0, i, pattern => (i, pattern)
  | fuel + 1, i, pattern =>
      if i > 1 ∧ i * 2 ≤ maxPatternSize then
        patternDouble fuel (i * 2) (store pattern i (load pattern 0 i))
      else (i, pattern)

def patternRest (patternLength : Nat) : Nat → Nat → Mem → Nat × Mem
  | 0, i, pattern => (i, pattern)
  | fuel + 1, i, pattern =>
      if i > 1 ∧ i < maxPatternSize then
        let b := min patternLength (maxPatternSize - i)
        patternRest patternLength fuel (i + b) (store pattern i (load pattern 0 b))
      else (i, pattern)

/-- `pattern_cb` from `fill:` on, with the bytes parsed so far over what was in the pattern buffer
before. -/
def patternFill (previous : Mem) (parsed : List Byte) : Mem × Nat :=
  let (i, pattern) := patternDouble maxPatternSize parsed.length (store previous 0 parsed)
  let (i, pattern) := patternRest parsed.length maxPatternSize i pattern
  (if i = 1 then store pattern 0 (List.replicate maxPatternSize (pattern 0)) else pattern, i)

def PatternOk (pattern : Mem) (bytes : Nat) : Prop :=
  bytes = 0 ∨ (bytes = 1 ∧ ∀ k, k < 512 → pattern k = pattern 0) ∨ bytes = 512

theorem patternDouble_bounds : ∀ (fuel i : Nat) (pattern : Mem), i ≤ 512 →
    (i ≤ 1 → (patternDouble fuel i pattern).1 = i) ∧
      (1 < i → i ≤ (patternDouble fuel i pattern).1 ∧ (patternDouble fuel i pattern).1 ≤ 512) := by
  intro fuel
  induction fuel with
  | zero => intro i pattern hi; exact ⟨fun _ => rfl, fun _ => ⟨Nat.le_refl _, hi⟩⟩
  | succ fuel ih =>
    intro i pattern hi
    rw [patternDouble]
    by_cases h : i > 1 ∧ i * 2 ≤ maxPatternSize
    · rw [if_pos h]
      have := (ih (i * 2) (store pattern i (load pattern 0 i)) h.2).2 (by omega)
      exact ⟨fun _ => by omega, fun _ => ⟨by omega, this.2⟩⟩
    · rw [if_neg h]
      exact ⟨fun _ => rfl, fun _ => ⟨Nat.le_refl _, hi⟩⟩

theorem patternRest_end (n : Nat) : ∀ (fuel i : Nat) (pattern : Mem), i ≤ 512 → 0 < n →
    512 ≤ i + fuel →
    (i ≤ 1 → (patternRest n fuel i pattern).1 = i) ∧
      (1 < i → (patternRest n fuel i pattern).1 = 512) := by
  intro fuel
  induction fuel with
  | zero => intro i pattern hi _ hf; exact ⟨fun _ => rfl, fun _ => by rw [patternRest]; omega⟩
  | succ fuel ih =>
    intro i pattern hi hn hf
    have hmax : maxPatternSize = 512 := rfl
    rw [patternRest]
    by_cases h : i > 1 ∧ i < maxPatternSize
    · rw [if_pos h]
      dsimp only
      have hb : 0 < min n (maxPatternSize - i) := by omega
      refine ⟨fun _ => by omega, fun _ => (ih _ _ ?_ hn ?_).2 (by omega)⟩
      · omega
      · omega
    · rw [if_neg h]
      exact ⟨fun _ => rfl, fun _ => by omega⟩

theorem patternFill_ok (previous : Mem) {parsed : List Byte} (h : parsed.length ≤ 512) :
    PatternOk (patternFill previous parsed).1 (patternFill previous parsed).2 := by
  have hmax : maxPatternSize = 512 := rfl
  have hd := patternDouble_bounds maxPatternSize parsed.length (store previous 0 parsed) h
  unfold patternFill PatternOk
  generalize hdouble : patternDouble maxPatternSize parsed.length (store previous 0 parsed) = d
  obtain ⟨i, pattern⟩ := d
  rw [hdouble] at hd
  dsimp only at hd ⊢
  by_cases hone : parsed.length ≤ 1
  · have hi : i = parsed.length := hd.1 hone
    have hrest : patternRest parsed.length maxPatternSize i pattern = (i, pattern) := by
      rw [hmax, patternRest, if_neg (by omega)]
    rw [hrest]
    dsimp only
    by_cases hi1 : i = 1
    · right; left
      refine ⟨hi1, fun k hk => ?_⟩
      rw [if_pos hi1]
      rw [store_replicate_apply, store_replicate_apply, if_pos ⟨by omega, by omega⟩,
        if_pos ⟨by omega, by omega⟩]
    · left; omega
  · right; right
    exact (patternRest_end parsed.length maxPatternSize i pattern (hd.2 (by omega)).2 (by omega)
      (by omega)).2 (by omega)

/-! ## The writer -/

theorem fillPatternLoop_spec (pattern : Mem) {bytes len : Nat} (hb : 0 < bytes) :
    ∀ (fuel i : Nat) (mem : Mem), bytes ∣ i ∨ len ≤ i → len ≤ i + fuel → ∀ x, x < len →
      fillPatternLoop pattern bytes len fuel i mem x
        = if x < i then mem x else pattern (x % bytes) := by
  intro fuel
  induction fuel with
  | zero =>
    intro i mem _ hf x hx
    rw [fillPatternLoop, if_pos (by omega)]
  | succ fuel ih =>
    intro i mem hi hf x hx
    rw [fillPatternLoop]
    by_cases hlt : i < len
    · rw [if_pos hlt]
      have hdvd : bytes ∣ i := hi.resolve_right (by omega)
      -- whole copies come first, and only the last one can be cut
      rw [ih _ _ ?_ (by split <;> omega) x hx]
      · by_cases hxi : x < i
        · rw [if_pos (by split <;> omega), if_pos hxi]
          exact if_neg (by omega)
        · rw [if_neg hxi]
          by_cases hin : x < i + if bytes > len - i then len - i else bytes
          · rw [if_pos hin]
            -- the copy at `i` starts with a new period of the pattern
            have hxb : x - i < bytes := by split at hin <;> omega
            have hmod : x % bytes = x - i := by
              obtain ⟨q, rfl⟩ := hdvd
              rw [show x = (x - bytes * q) + bytes * q by omega, Nat.add_mul_mod_self_left,
                Nat.mod_eq_of_lt (by omega), Nat.add_sub_cancel]
            rw [hmod]
            rw [store_load_apply, if_pos ⟨by omega, hin⟩, Nat.zero_add]
          · rw [if_neg hin]
      · split
        · exact Or.inr (by omega)
        · exact Or.inl (Nat.dvd_add hdvd (Nat.dvd_refl _))
    · rw [if_neg hlt, if_pos (by omega)]

theorem fillPattern_spec {mem pattern : Mem} {bytes len : Nat} (hok : PatternOk pattern bytes)
    (hb : bytes ≠ 0) :
    ∃ mem', fillPattern mem len pattern bytes = .ok mem' ∧
      ∀ x, x < len → mem' x = pattern (x % 512) := by
  rcases hok with h | ⟨rfl, hone⟩ | rfl
  · exact absurd h hb
  · refine ⟨_, rfl, fun x hx => ?_⟩
    rw [hone _ (Nat.mod_lt _ (by decide)), store_replicate_apply, if_pos (by omega)]
  · refine ⟨_, rfl, fun x hx => ?_⟩
    rw [fillPatternLoop_spec pattern (by decide) len 0 mem (Or.inl (by decide)) (by omega) x hx]
    rfl

/-! ## The reader -/

theorem patternSlow_finds {mem pattern : Mem} {buf len bytes : Nat} (hok : PatternOk pattern bytes) :
    ∀ (j fuel i mod : Nat), mod + j < 512 → i + j < len → j < fuel →
      mem (buf + (i + j)) ≠ pattern (mod + j) →
      patternSlow mem pattern buf len bytes fuel i mod = eilseq := by
  intro j
  induction j with
  | zero =>
    intro fuel i mod _ hlen hfuel hne
    obtain ⟨fuel, rfl⟩ := Nat.exists_eq_succ_of_ne_zero (by omega : fuel ≠ 0)
    rw [Nat.add_zero, Nat.add_zero] at hne
    rw [patternSlow, if_pos (by omega), if_pos hne]
  | succ j ih =>
    intro fuel i mod hmod hlen hfuel hne
    obtain ⟨fuel, rfl⟩ := Nat.exists_eq_succ_of_ne_zero (by omega : fuel ≠ 0)
    rw [patternSlow, if_pos (by omega)]
    by_cases heq : mem (buf + i) ≠ pattern mod
    · rw [if_pos heq]
    · rw [if_neg heq]
      have hne' : mem (buf + (i + 1 + j)) ≠ pattern (mod + 1 + j) := by
        rwa [show i + 1 + j = i + (j + 1) by omega, show mod + 1 + j = mod + (j + 1) by omega]
      by_cases hwrap : mod + 1 = bytes
      · -- the phase wraps inside the pattern buffer only for a pattern of one byte
        rw [if_pos hwrap]
        rcases hok with h | ⟨h, hone⟩ | h
        · omega
        · refine ih fuel (i + 1) 0 (by omega) (by omega) (by omega) ?_
          rwa [Nat.zero_add, hone j (by omega), ← hone (mod + 1 + j) (by omega)]
        · omega
      · rw [if_neg hwrap]
        exact ih fuel (i + 1) (mod + 1) (by omega) (by omega) (by omega) hne'

/-- What the two loops return: nothing is found exactly if the bytes repeat the pattern buffer from
phase `mod` on. -/
theorem patternLoops_spec {mem pattern : Mem} {buf len bytes : Nat} (hok : PatternOk pattern bytes) :
    ∀ (fuel i mod : Nat), mod < 512 → len ≤ i + fuel →
      let r := patternFast mem pattern buf len 512 fuel i mod
      patternSlow mem pattern buf len bytes len r.1 r.2 = 0 ↔
        ∀ j, i + j < len → mem (buf + (i + j)) = pattern ((mod + j) % 512) := by
  intro fuel
  induction fuel with
  | zero =>
    intro i mod _ hf
    have hzero : ∀ n, patternSlow mem pattern buf len bytes n i mod = 0 := by
      intro n
      cases n with
      | zero => rfl
      | succ n => rw [patternSlow, if_neg (by omega)]
    exact ⟨fun _ j hj => by omega, fun _ => hzero len⟩
  | succ fuel ih =>
    intro i mod hmod hf
    rw [patternFast]
    by_cases hlt : i < len
    · rw [if_pos hlt]
      generalize hsize : (if 512 - mod > len - i then len - i else 512 - mod) = size
      have hpos : 0 < size := by split at hsize <;> omega
      have hfit : mod + size ≤ 512 ∧ i + size ≤ len := by split at hsize <;> omega
      have hphase : ∀ j, j < size → (mod + j) % 512 = mod + j := fun j hj =>
        Nat.mod_eq_of_lt (by omega)
      by_cases hne : load mem (buf + i) size ≠ load pattern mod size
      · dsimp only
        rw [if_pos hne]
        have hdiff : ∃ j, j < size ∧ mem (buf + i + j) ≠ pattern (mod + j) := by
          by_contra hall
          push Not at hall
          exact hne (load_eq_iff.mpr hall)
        obtain ⟨j, hj, hdiff⟩ := hdiff
        rw [Nat.add_assoc] at hdiff
        rw [patternSlow_finds hok j len i mod (by omega) (by omega) (by omega) hdiff]
        refine ⟨fun h => absurd h (by decide), fun h => absurd (h j (by omega)) ?_⟩
        rwa [hphase j hj]
      · dsimp only
        rw [if_neg hne]
        have heq := load_eq_iff.mp (not_not.mp hne)
        refine (ih (i + size) 0 (by decide) (by omega)).trans ?_
        constructor
        · intro h j hj
          by_cases hjs : j < size
          · rw [hphase j hjs, ← Nat.add_assoc]
            exact heq j hjs
          · have := h (j - size) (by omega)
            rw [show i + size + (j - size) = i + j by omega] at this
            rw [this]
            -- past the first stretch the phase starts again at the beginning
            congr 1
            split at hsize <;> omega
        · intro h j hj
          have := h (size + j) (by omega)
          rw [← Nat.add_assoc i] at this
          rw [this]
          congr 1
          split at hsize <;> omega
    · rw [if_neg hlt]
      refine ⟨fun _ j hj => by omega, fun _ => ?_⟩
      cases len with
      | zero => rfl
      | succ n => rw [patternSlow, if_neg hlt]

/-- The check of the interval at `hdr` compares each byte behind the header with the pattern
buffer, whose first byte belongs to the start of the interval. -/
theorem verifyIoUPattern_eq_zero_iff {o : VerifyOptions} {io : VerifyIoU} {mem : Mem} {hdr : Nat}
    (hok : PatternOk o.verifyPattern o.verifyPatternBytes)
    (hsize : headerSize o ≤ getHdrInc o io.buflen) (hinc : getHdrInc o io.buflen < 2 ^ 32) :
    verifyIoUPattern o io mem hdr = 0 ↔ ∀ i, headerSize o ≤ i →
      i < getHdrInc o io.buflen → mem (hdr + i) = o.verifyPattern (i % 512) := by
  have hps : patternSize o = 512 := by
    unfold patternSize
    rcases hok with h | ⟨h, -⟩ | h
    · rw [h, if_pos (by decide), maxPatternSize]
    · rw [h, if_pos (by decide), maxPatternSize]
    · rw [h, if_neg (by decide)]
  rw [verifyIoUPattern, hps, usub_eq_sub hsize hinc]
  generalize headerSize o = hs at *
  refine (patternLoops_spec hok _ 0 _ (Nat.mod_lt _ (by decide)) (by omega)).trans ?_
  simp only [Nat.mod_add_mod, Nat.zero_add]
  constructor
  · intro h i h1 h2
    have := h (i - hs) (by omega)
    rwa [Nat.add_assoc, Nat.add_sub_cancel' h1] at this
  · intro h j hj
    rw [Nat.add_assoc]
    exact h (hs + j) (by omega) (by omega)

end MysqlBench.Fio
