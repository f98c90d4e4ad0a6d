import Mathlib
import MysqlBench.Fio.Iolog.Replay

/-!
# What a replay adds to the size of the job

Every queued piece adds its length to `td->total_io_size`, and every one but a wait adds `bytes` to
`td->o.size`. `bytes` is a variable of the whole function that only a line with four fields assigns.
A line that opens or closes a file has two, and the piece queued for it is charged with the bytes of
the last I/O line before it, or with what the stack held. `staleBytes` adds these up;
`iologLine_sizes` says what one line adds, `foldl_iologLine_sizes` what all do.
-/

namespace MysqlBench.Fio

open MysqlBench.Lib

/-! ## The property -/

def Ddir.queuedIo (readOnly : Bool) : Ddir → Bool
  | .read | .sync | .datasync => true
  | .write => !readOnly
  | _ => false

def lineBytes (readOnly : Bool) (line : List Char) : Nat :=
  let s := scanLine (cString line) 0 0
  if s.r = 4 ∧ (readDdir s.act).any (Ddir.queuedIo readOnly) = true then s.bytes else 0

def opensOrCloses (line : List Char) : Bool :=
  let s := scanLine (cString line) 0 0
  s.r == 2 && (s.act == "open".toList || s.act == "close".toList)

/-- After the log `f` the job `st` has become `st'`, and both sizes have grown by the bytes of the
records of I/O that were queued. -/
structure SizeAccounted (readOnly : Bool) (f : List Char) (st st' : Replay) : Prop where
  size : st'.size ≡ st.size + ((fgetsLines 4096 f).map (lineBytes readOnly)).sum [MOD 2 ^ 64]
  totalIoSize : st'.totalIoSize
    ≡ st.totalIoSize + ((fgetsLines 4096 f).map (lineBytes readOnly)).sum [MOD 2 ^ 64]

/-! ## What the lines without a number of bytes add -/

def bytesAfter (bytes : Nat) (line : List Char) : Nat :=
  let s := scanLine (cString line) 0 0
  if s.r = 4 then s.bytes else bytes

/-- The sum of `bytes` at the lines that open or close a file, if it is `bytes` at the start. -/
def staleBytes : Nat → List (List Char) → Nat
  | _, [] => 0
  | bytes, line :: lines =>
      (if opensOrCloses line then bytes else 0) + staleBytes (bytesAfter bytes line) lines

/-! ## One line -/

theorem scanLine_eq (p : List Char) (offset bytes : Nat) :
    (scanLine p offset bytes).r = (scanLine p 0 0).r ∧
      (scanLine p offset bytes).act = (scanLine p 0 0).act ∧
      (scanLine p offset bytes).bytes
        = if (scanLine p 0 0).r = 4 then (scanLine p 0 0).bytes else bytes := by
  unfold scanLine
  cases scanWord 256 p with
  | none => simp
  | some fname =>
    cases h2 : scanWord 256 fname.2 with
    | none => simp [h2]
    | some act =>
      cases h3 : scanUnsigned act.2 with
      | none => simp [h2, h3]
      | some offset' =>
        cases h4 : scanUnsigned offset'.2 with
        | none => simp [h2, h3, h4]
        | some bytes' => simp [h2, h3, h4]

structure Charged (n : Nat) (st st' : Replay) : Prop where
  bytes : st'.bytes = st.bytes
  size : st'.size ≡ st.size + n [MOD 2 ^ 64]
  totalIoSize : st'.totalIoSize ≡ st.totalIoSize + n [MOD 2 ^ 64]

theorem Charged.refl (st : Replay) : Charged 0 st st := ⟨rfl, rfl, rfl⟩

theorem Charged.of_eq {n : Nat} {st st₁ st' : Replay} (h : Charged n st₁ st')
    (hb : st₁.bytes = st.bytes) (hs : st₁.size = st.size) (ht : st₁.totalIoSize = st.totalIoSize) :
    Charged n st st' :=
  ⟨hb ▸ h.bytes, hs ▸ h.size, ht ▸ h.totalIoSize⟩

theorem notePiece_wait (st : Replay) : Charged 0 st (notePiece st .wait) :=
  ⟨rfl, rfl, Nat.mod_modEq _ _⟩

theorem notePiece_charged (st : Replay) (rw : Ddir) (h : rw ≠ .wait) :
    Charged st.bytes st (notePiece st rw) := by
  unfold notePiece
  rw [if_neg h]
  exact ⟨rfl, Nat.mod_modEq _ _, Nat.mod_modEq _ _⟩

theorem filterPiece_inval (readOnly : Bool) (st : Replay) :
    Charged st.bytes st (filterPiece readOnly st .inval) :=
  notePiece_charged st .inval (by decide)

theorem filterPiece_charged {readOnly : Bool} {rw : Ddir} (h : rw ≠ .inval)
    (h' : rw ≠ .syncFileRange) (st : Replay) :
    Charged (if rw.queuedIo readOnly = true then st.bytes else 0) st (filterPiece readOnly st rw) := by
  cases rw with
  | read =>
    show Charged st.bytes st (notePiece { st with reads := st.reads + 1 } .read)
    exact (notePiece_charged { st with reads := st.reads + 1 } .read (by decide)).of_eq rfl rfl rfl
  | write =>
    cases readOnly with
    | true => exact Charged.refl st
    | false =>
      show Charged st.bytes st (notePiece { st with writes := st.writes + 1 } .write)
      exact (notePiece_charged { st with writes := st.writes + 1 } .write (by decide)).of_eq rfl rfl rfl
  | wait =>
    show Charged 0 st (notePiece { st with waits := st.waits + 1 } .wait)
    exact (notePiece_wait { st with waits := st.waits + 1 }).of_eq rfl rfl rfl
  | sync => exact notePiece_charged st .sync (by decide)
  | datasync => exact notePiece_charged st .datasync (by decide)
  | trim => exact Charged.refl st
  | inval => exact absurd rfl h
  | syncFileRange => exact absurd rfl h'

theorem readDdir_named {act : List Char} {rw : Ddir} (h : readDdir act = some rw) :
    rw ≠ .inval ∧ rw ≠ .syncFileRange := by
  unfold readDdir at h
  split_ifs at h <;> cases h <;> decide

/-- What one line adds: its own bytes if it is a record of I/O, and those of an earlier line if it
opens or closes a file. -/
theorem iologLine_sizes (dir : Option (List Char)) (readOnly : Bool) (st : Replay)
    (line : List Char) :
    Charged (lineBytes readOnly line + if opensOrCloses line then st.bytes else 0)
      { st with bytes := bytesAfter st.bytes line } (iologLine dir readOnly st line) := by
  obtain ⟨hr, hact, hbytes⟩ := scanLine_eq (cString line) st.offset st.bytes
  unfold iologLine lineBytes opensOrCloses bytesAfter
  dsimp only
  rw [hr, hact, hbytes]
  generalize scanLine (cString line) 0 0 = s
  generalize scanLine (cString line) st.offset st.bytes = s'
  -- four fields: the bytes are those of the line
  by_cases h4 : s.r = 4
  · have h2 : (s.r == 2) = false := by rw [h4]; rfl
    rw [if_pos h4, if_pos h4]
    simp only [h2, Bool.false_and, Bool.false_eq_true, if_false, Nat.add_zero]
    simp only [h4, true_and]
    cases hrw : readDdir s.act with
    | none => exact (Charged.refl _).of_eq rfl rfl rfl
    | some rw =>
      obtain ⟨hinval, hrange⟩ := readDdir_named hrw
      exact (filterPiece_charged hinval hrange { st with
        offset := s'.offset, bytes := s.bytes, fileno := getFileno st.files s'.fname }).of_eq rfl rfl rfl
  · rw [if_neg h4, if_neg h4, if_neg (fun h => h4 h.1), Nat.zero_add]
    -- two fields: an open or close line adds the bytes that are left from before
    by_cases h2 : s.r = 2
    · have h2' : (s.r == 2) = true := by rw [h2]; rfl
      rw [if_pos h2]
      simp only [h2', Bool.true_and]
      by_cases hadd : s.act = "add".toList
      · rw [if_pos hadd, if_neg (by rw [hadd]; decide)]
        exact (Charged.refl _).of_eq rfl rfl rfl
      · rw [if_neg hadd]
        by_cases hopen : s.act = "open".toList
        · rw [if_pos hopen, if_pos (by rw [hopen]; decide)]
          exact (filterPiece_inval readOnly { st with
            offset := s'.offset, fileno := getFileno st.files s'.fname
            fileAction := FileLogAct.open.value }).of_eq rfl rfl rfl
        · rw [if_neg hopen]
          by_cases hclose : s.act = "close".toList
          · rw [if_pos hclose, if_pos (by rw [hclose]; decide)]
            exact (filterPiece_inval readOnly { st with
              offset := s'.offset, fileno := getFileno st.files s'.fname
              fileAction := FileLogAct.close.value }).of_eq rfl rfl rfl
          · rw [if_neg hclose, if_neg (by simp only [Bool.or_eq_true, beq_iff_eq]; tauto)]
            exact (Charged.refl _).of_eq rfl rfl rfl
    · have h2' : (s.r == 2) = false := beq_eq_false_iff_ne.mpr h2
      rw [if_neg h2]
      simp only [h2', Bool.false_and, Bool.false_eq_true, if_false]
      exact (Charged.refl _).of_eq rfl rfl rfl

/-! ## All lines -/

theorem foldl_iologLine_sizes (dir : Option (List Char)) (readOnly : Bool) :
    ∀ (lines : List (List Char)) (st : Replay),
      (lines.foldl (iologLine dir readOnly) st).size
          ≡ st.size + ((lines.map (lineBytes readOnly)).sum + staleBytes st.bytes lines) [MOD 2 ^ 64] ∧
        (lines.foldl (iologLine dir readOnly) st).totalIoSize
          ≡ st.totalIoSize + ((lines.map (lineBytes readOnly)).sum + staleBytes st.bytes lines)
            [MOD 2 ^ 64] := by
  intro lines
  induction lines with
  | nil => intro st; exact ⟨rfl, rfl⟩
  | cons line lines ih =>
    intro st
    have hline := iologLine_sizes dir readOnly st line
    obtain ⟨hsize, htotal⟩ := ih (iologLine dir readOnly st line)
    rw [hline.bytes] at hsize htotal
    rw [List.foldl_cons, List.map_cons, List.sum_cons, staleBytes]
    -- what the line adds goes in front of what the others add
    have harrange : ∀ n a b c d : Nat, n + (a + b + (c + d)) = n + (a + c) + (b + d) := by
      intro n a b c d
      ring
    rw [harrange, harrange]
    exact ⟨hsize.trans (hline.size.add_right _), htotal.trans (hline.totalIoSize.add_right _)⟩

/-- **The sizes of a replay.** They are right if and only if the lines that open or close a file add
nothing, modulo the width of the sizes: each adds the bytes of the last line with four fields before
it, or what `bytes` held on the stack. -/
theorem size_accounted_iff (dir : Option (List Char)) (readOnly : Bool) (f : List Char)
    (totalIoSize size : Nat) (maxBs : Ddir → Nat) (offset bytes : Nat) :
    SizeAccounted readOnly f (Replay.start totalIoSize size maxBs offset bytes)
        (readIolog2 dir readOnly (Replay.start totalIoSize size maxBs offset bytes) f).1 ↔
      staleBytes bytes (fgetsLines 4096 f) ≡ 0 [MOD 2 ^ 64] := by
  obtain ⟨hsize, htotal⟩ := foldl_iologLine_sizes dir readOnly (fgetsLines 4096 f)
    (Replay.start totalIoSize size maxBs offset bytes)
  have hread : ∀ st : Replay, (if readOnly then { st with writes := 0 } else st).size = st.size ∧
      (if readOnly then { st with writes := 0 } else st).totalIoSize = st.totalIoSize := by
    intro st
    cases readOnly <;> exact ⟨rfl, rfl⟩
  -- what the stale bytes add can be cancelled modulo the width
  have hcancel : ∀ {x n a : Nat}, x ≡ n + (a + staleBytes bytes (fgetsLines 4096 f)) [MOD 2 ^ 64] →
      (x ≡ n + a [MOD 2 ^ 64] ↔ staleBytes bytes (fgetsLines 4096 f) ≡ 0 [MOD 2 ^ 64]) := by
    intro x n a hx
    rw [← Nat.add_assoc] at hx
    constructor
    · intro h
      exact Nat.ModEq.add_left_cancel' (n + a) (hx.symm.trans h)
    · intro h
      exact hx.trans (h.add_left (n + a))
  constructor
  · intro h
    have h1 := h.size
    rw [readIolog2, (hread _).1] at h1
    exact (hcancel hsize).mp h1
  · intro h
    refine ⟨?_, ?_⟩
    · rw [readIolog2, (hread _).1]
      exact (hcancel hsize).mpr h
    · rw [readIolog2, (hread _).2]
      exact (hcancel htotal).mpr h

/-- A file that is added, written to and closed: 4096 bytes are written, and both sizes grow by 8192,
since the line that closes the file is charged with the bytes of the write. -/
theorem close_charged_with_write :
    let f := "a add\na write 0 4096\na close\n".toList
    let st := (readIolog2 none false (Replay.start 0 0 (fun _ => 0) 0 0) f).1
    ((fgetsLines 4096 f).map (lineBytes false)).sum = 4096 ∧ st.size = 8192 ∧
      st.totalIoSize = 8192 ∧ ¬ SizeAccounted false f (Replay.start 0 0 (fun _ => 0) 0 0) st := by
  have hsum : ((fgetsLines 4096 "a add\na write 0 4096\na close\n".toList).map
      (lineBytes false)).sum = 4096 := by decide +kernel
  refine ⟨hsum, by decide +kernel, by decide +kernel, fun h => ?_⟩
  have hsize := h.size
  rw [hsum] at hsize
  revert hsize
  decide +kernel

end MysqlBench.Fio
