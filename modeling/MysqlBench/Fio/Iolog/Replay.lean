import Mathlib.Data.List.Forall2
import MysqlBench.Fio.Iolog.Model

/-!
# What a log replays

The two tables of action names do not agree with the order of `enum fio_ddir`: `log_io_u` writes
`sync` for a trim, `datasync` for a sync, a name that `read_iolog2` does not know for a datasync,
and `wait` for a sync_file_range. And a file is only found if an earlier line added it under the
name it is looked up by, which a `directory` option changes. A log replays what was logged if and
only if neither happens (`iolog_replay_iff`).
-/

namespace MysqlBench.Fio

open MysqlBench.Lib

/-! ## The property -/

def ReplayPiece.file (files : List (List Char)) (ipo : ReplayPiece) : Option (List Char) :=
  ipo.fileno.bind (files[·]?)

/-- The piece replays the event: same file, same direction or file action, and for I/O the same
offset and length. -/
def ReplayPiece.Replays (files : List (List Char)) (ipo : ReplayPiece) : LogEvent → Prop
  | .file act f => ipo.ddir = .inval ∧ ipo.delay = act.value ∧ ipo.file files = some f.chars
  | .io u => ipo.ddir = u.ddir ∧ ipo.file files = some u.file.chars ∧
      ipo.offset = u.offset ∧ ipo.len = u.buflen

def LogEvent.queues : LogEvent → Bool
  | .file .add _ => false
  | _ => true

def ReplaysLog (st : Replay) (evs : List LogEvent) : Prop :=
  List.Forall₂ (ReplayPiece.Replays st.files) st.pieces (evs.filter LogEvent.queues)

def LogEvent.adds (dir : Option (List Char)) : LogEvent → List (List Char)
  | .file .add f => [storedName dir f.chars]
  | _ => []

def LogEvent.Replayable (files : List (List Char)) : LogEvent → Prop
  | .file .add _ => True
  | .file .open f => f.chars ∈ files
  | .file .close f => f.chars ∈ files
  | .io u => (u.ddir = .read ∨ u.ddir = .write) ∧ u.file.chars ∈ files

/-- All I/O reads or writes, and every file has been added before, under the name it is used by. -/
def Replayable (dir : Option (List Char)) : List (List Char) → List LogEvent → Prop
  | _, [] => True
  | files, ev :: evs => ev.Replayable files ∧ Replayable dir (files ++ ev.adds dir) evs

/-! ## Lines -/

theorem clean_of_all {l : List Char}
    (h : (l.all fun c => !isSpace c && !decide (c = '\x00')) = true) :
    ∀ c ∈ l, isSpace c = false ∧ c ≠ '\x00' := by
  intro c hc
  have hboth := Bool.and_eq_true_iff.mp (List.all_eq_true.mp h c hc)
  exact ⟨Bool.not_eq_true' _ |>.mp hboth.1,
    of_decide_eq_false (Bool.not_eq_true' _ |>.mp hboth.2)⟩

theorem ioAct_clean {d : Ddir} : ∀ c ∈ ioAct d, isSpace c = false ∧ c ≠ '\x00' := by
  cases d <;> exact clean_of_all (by decide)

theorem fileAct_clean {a : FileLogAct} : ∀ c ∈ fileAct a, isSpace c = false ∧ c ≠ '\x00' := by
  cases a <;> exact clean_of_all (by decide)

theorem digits_clean (n : Nat) : ∀ c ∈ Nat.toDigits 10 n, isSpace c = false ∧ c ≠ '\x00' := by
  intro c hc
  have hd := Nat.isDigit_of_mem_toDigits (by omega) (by omega) hc
  refine ⟨isSpace_of_isDigit hd, ?_⟩
  rintro rfl
  exact absurd hd (by decide)

theorem line_clean (ev : LogEvent) : ∀ c ∈ ev.line, c ≠ '\n' ∧ c ≠ '\x00' := by
  have hclean : ∀ c, c = ' ' ∨ isSpace c = false ∧ c ≠ '\x00' → c ≠ '\n' ∧ c ≠ '\x00' := by
    rintro c (rfl | ⟨h1, h2⟩)
    · decide
    · refine ⟨?_, h2⟩
      rintro rfl
      exact absurd h1 (by decide)
  intro c hc
  refine hclean c ?_
  cases ev with
  | file act f =>
    simp only [LogEvent.line, logFile, List.mem_append, List.mem_cons] at hc
    rcases hc with h | h | h
    · exact Or.inr (f.clean c h)
    · exact Or.inl h
    · exact Or.inr (fileAct_clean c h)
  | io u =>
    simp only [LogEvent.line, logIoU, List.mem_append, List.mem_cons] at hc
    rcases hc with h | h | h | h | h | h | h
    · exact Or.inr (u.file.clean c h)
    · exact Or.inl h
    · exact Or.inr (ioAct_clean c h)
    · exact Or.inl h
    · exact Or.inr (digits_clean _ c h)
    · exact Or.inl h
    · exact Or.inr (digits_clean _ c h)

theorem line_length (ev : LogEvent) : ev.line.length + 1 < 4096 := by
  cases ev with
  | file act f =>
    have h1 := f.length_le
    have h2 : (fileAct act).length ≤ 5 := by cases act <;> decide
    simp only [LogEvent.line, logFile, List.length_append, List.length_cons]
    omega
  | io u =>
    have h1 := u.file.length_le
    have h2 : (ioAct u.ddir).length ≤ 15 := by cases u.ddir <;> decide
    have h3 := (Nat.length_toDigits_le_iff (b := 10) (k := 20) (by omega) (by omega)).mpr
      (lt_trans u.offset_lt (by norm_num))
    have h4 := (Nat.length_toDigits_le_iff (b := 10) (k := 20) (by omega) (by omega)).mpr
      (lt_trans u.buflen_lt (by norm_num))
    simp only [LogEvent.line, logIoU, List.length_append, List.length_cons]
    omega

theorem fgetsLines_writeLog : ∀ evs : List LogEvent,
    fgetsLines 4096 (writeLog evs) = evs.map fun ev => ev.line ++ ['\n'] := by
  intro evs
  induction evs with
  | nil => exact fgetsLines_nil 4096
  | cons ev evs ih =>
    rw [writeLog, fgetsLines_cons (fun c hc => (line_clean ev c hc).1) (line_length ev), ih]
    rfl

theorem cString_line (ev : LogEvent) : cString (ev.line ++ ['\n']) = ev.line ++ ['\n'] := by
  refine cString_eq fun c hc => ?_
  rcases List.mem_append.mp hc with h | h
  · exact (line_clean ev c h).2
  · rw [List.mem_singleton.mp h]
    decide

theorem scanLine_file (f : FileName) (act : FileLogAct) (offset bytes : Nat) :
    scanLine (logFile f act ++ ['\n']) offset bytes =
      ⟨2, f.chars, fileAct act, offset, bytes⟩ := by
  have hne : fileAct act ≠ [] := by cases act <;> decide
  have hlen : (fileAct act).length ≤ 256 := by cases act <;> decide
  have h1 : scanWord 256 (logFile f act ++ ['\n']) =
      some (f.chars, ' ' :: (fileAct act ++ ['\n'])) := by
    rw [logFile, List.append_assoc]
    exact scanWord_append f.nonempty f.length_le (fun c hc => (f.clean c hc).1) rfl
  have h2 : scanWord 256 (' ' :: (fileAct act ++ ['\n'])) = some (fileAct act, ['\n']) := by
    rw [scanWord_space]
    exact scanWord_append hne hlen (fun c hc => (fileAct_clean c hc).1) rfl
  rw [scanLine, h1]
  dsimp only
  rw [h2]
  rfl

theorem scanLine_io (u : LogIoU) (offset bytes : Nat) :
    scanLine (logIoU u ++ ['\n']) offset bytes =
      ⟨4, u.file.chars, ioAct u.ddir, u.offset, u.buflen⟩ := by
  have hact : ioAct u.ddir ≠ [] ∧ (ioAct u.ddir).length ≤ 256 := by
    have := u.logged
    cases hd : u.ddir with
    | inval => exact absurd hd this.2
    | _ => decide
  have h1 : scanWord 256 (logIoU u ++ ['\n']) = some (u.file.chars, ' ' :: (ioAct u.ddir ++
      ' ' :: (Nat.toDigits 10 u.offset ++ ' ' :: (Nat.toDigits 10 u.buflen ++ ['\n'])))) := by
    have := @scanWord_append 256 u.file.chars ' ' (ioAct u.ddir ++
      ' ' :: (Nat.toDigits 10 u.offset ++ ' ' :: (Nat.toDigits 10 u.buflen ++ ['\n'])))
      u.file.nonempty u.file.length_le (fun c hc => (u.file.clean c hc).1) rfl
    simpa [logIoU] using this
  have h2 := @scanWord_append 256 (ioAct u.ddir) ' '
    (Nat.toDigits 10 u.offset ++ ' ' :: (Nat.toDigits 10 u.buflen ++ ['\n']))
    hact.1 hact.2 (fun c hc => (ioAct_clean c hc).1) rfl
  have h3 := @scanUnsigned_toDigits u.offset ' ' (Nat.toDigits 10 u.buflen ++ ['\n'])
    u.offset_lt rfl
  have h4 := @scanUnsigned_toDigits u.buflen '\n' [] (lt_trans u.buflen_lt (by norm_num)) rfl
  rw [scanLine, h1]
  dsimp only
  rw [scanWord_space, h2]
  dsimp only
  rw [scanUnsigned_space, h3]
  dsimp only
  rw [scanUnsigned_space, h4]
  dsimp only
  rw [Nat.mod_eq_of_lt u.buflen_lt]

theorem forall₂_append_iff {R : ReplayPiece → LogEvent → Prop} {l₁ l₂ : List ReplayPiece}
    {m₁ m₂ : List LogEvent} (h₁ : l₁.length ≤ m₁.length) (h₂ : l₂.length ≤ m₂.length) :
    List.Forall₂ R (l₁ ++ l₂) (m₁ ++ m₂) ↔ List.Forall₂ R l₁ m₁ ∧ List.Forall₂ R l₂ m₂ := by
  constructor
  · intro h
    have hlen := h.length_eq
    rw [List.length_append, List.length_append] at hlen
    have heq : l₁.length = m₁.length := by omega
    have htake := List.forall₂_take_append _ _ _ h
    have hdrop := List.forall₂_drop_append _ _ _ h
    rw [← heq, List.take_left] at htake
    rw [← heq, List.drop_left] at hdrop
    exact ⟨htake, hdrop⟩
  · rintro ⟨h, h'⟩
    exact List.rel_append h h'

/-! ## One event -/

section Steps

variable (dir : Option (List Char)) (st : Replay)

theorem file_getFileno {files more : List (List Char)} {fname : List Char} :
    (getFileno files fname).bind ((files ++ more)[·]?) = some fname ↔ fname ∈ files := by
  unfold getFileno
  constructor
  · intro h
    by_contra hmem
    rw [List.idxOf?_eq_none_iff.mpr hmem] at h
    exact absurd h (by simp)
  · intro hmem
    have hlt := List.idxOf_lt_length_of_mem hmem
    have hsome : files.idxOf? fname = some (files.idxOf fname) :=
      List.findIdx?_eq_some_of_exists ⟨fname, hmem, by simp⟩
    rw [hsome, Option.bind_some, List.getElem?_append_left hlt, List.getElem?_eq_getElem hlt,
      List.getElem_idxOf]

theorem forall₂_singleton {R : ReplayPiece → LogEvent → Prop} {ipo : ReplayPiece} {ev : LogEvent} :
    List.Forall₂ R [ipo] [ev] ↔ R ipo ev :=
  List.forall₂_cons.trans (and_iff_left .nil)

structure LineSpec (st st' : Replay) (ev : LogEvent) (new : List ReplayPiece) : Prop where
  pieces : st'.pieces = st.pieces ++ new
  files : st'.files = st.files ++ ev.adds dir
  length_le : new.length ≤ ([ev].filter LogEvent.queues).length
  replays : ∀ more, List.Forall₂ (ReplayPiece.Replays (st'.files ++ more)) new
    ([ev].filter LogEvent.queues) ↔ ev.Replayable st.files

theorem lineSpec_file {f : FileName} {act : FileLogAct} (hact : act ≠ .add)
    (h : iologLine dir false st (logFile f act ++ ['\n']) =
      filterPiece false { st with
        fileno := getFileno st.files f.chars, fileAction := act.value } .inval) :
    LineSpec dir st (iologLine dir false st (logFile f act ++ ['\n'])) (.file act f)
      [⟨.inval, st.offset, st.bytes, getFileno st.files f.chars, act.value⟩] := by
  rw [h]
  cases act with
  | add => exact absurd rfl hact
  | _ =>
    refine ⟨rfl, (List.append_nil _).symm, le_rfl, fun more => ?_⟩
    refine forall₂_singleton.trans ?_
    exact ⟨fun h => file_getFileno.mp h.2.2, fun h => ⟨rfl, rfl, file_getFileno.mpr h⟩⟩

theorem lineSpec_io {st' : Replay} {u : LogIoU}
    (hrw : u.ddir = .read ∨ u.ddir = .write) (hfiles : st'.files = st.files)
    (hpieces : st'.pieces = st.pieces ++
      [⟨u.ddir, u.offset, u.buflen, getFileno st.files u.file.chars, st.fileAction⟩]) :
    LineSpec dir st st' (.io u)
      [⟨u.ddir, u.offset, u.buflen, getFileno st.files u.file.chars, st.fileAction⟩] := by
  refine ⟨hpieces, by rw [hfiles]; exact (List.append_nil _).symm, le_rfl, fun more => ?_⟩
  rw [hfiles]
  refine forall₂_singleton.trans ⟨fun h => ⟨hrw, file_getFileno.mp h.2.1⟩, fun h => ?_⟩
  exact ⟨rfl, file_getFileno.mpr h.2, rfl, rfl⟩

theorem lineSpec_io_wrong {st' : Replay} {u : LogIoU} {new : List ReplayPiece}
    (hrw : ¬ (u.ddir = .read ∨ u.ddir = .write)) (hfiles : st'.files = st.files)
    (hpieces : st'.pieces = st.pieces ++ new)
    (hnew : new = [] ∨ ∃ ipo, new = [ipo] ∧ ipo.ddir ≠ u.ddir) :
    LineSpec dir st st' (.io u) new := by
  refine ⟨hpieces, by rw [hfiles]; exact (List.append_nil _).symm, ?_, fun more => ?_⟩
  · rcases hnew with rfl | ⟨ipo, rfl, -⟩
    · exact Nat.zero_le _
    · exact le_rfl
  · refine iff_of_false (fun h => ?_) (fun h => hrw h.1)
    rcases hnew with rfl | ⟨ipo, rfl, hne⟩
    · cases h
    · exact hne (forall₂_singleton.mp h).1

def readBack : Ddir → Option Ddir
  | .read => some .read
  | .write => some .write
  | .trim => some .sync
  | .sync => some .datasync
  | .datasync => none
  | .syncFileRange => some .wait
  | .wait => some .trim
  | .inval => none

theorem readDdir_ioAct (d : Ddir) : readDdir (ioAct d) = readBack d := by
  cases d <;> decide

theorem iologLine_io (u : LogIoU) : iologLine dir false st (logIoU u ++ ['\n']) =
    match readBack u.ddir with
    | none => { st with offset := u.offset, bytes := u.buflen }
    | some rw => filterPiece false { st with
        offset := u.offset, bytes := u.buflen, fileno := getFileno st.files u.file.chars } rw := by
  have h := cString_line (.io u)
  rw [LogEvent.line] at h
  rw [iologLine, h, scanLine_io, ← readDdir_ioAct]
  rfl

theorem iologLine_spec (ev : LogEvent) :
    ∃ new, LineSpec dir st (iologLine dir false st (ev.line ++ ['\n'])) ev new := by
  cases ev with
  | file act f =>
    cases act with
    | add =>
      refine ⟨[], ?_⟩
      rw [iologLine, cString_line, LogEvent.line, scanLine_file]
      exact ⟨(List.append_nil _).symm, rfl, le_rfl, fun _ => ⟨fun _ => trivial, fun _ => .nil⟩⟩
    | «open» =>
      refine ⟨_, lineSpec_file dir st (by simp) ?_⟩
      have h := cString_line (.file .open f)
      rw [LogEvent.line] at h
      rw [iologLine, h, scanLine_file]
      rfl
    | close =>
      refine ⟨_, lineSpec_file dir st (by simp) ?_⟩
      have h := cString_line (.file .close f)
      rw [LogEvent.line] at h
      rw [iologLine, h, scanLine_file]
      rfl
  | io u =>
    rw [LogEvent.line, iologLine_io]
    obtain ⟨f, d, offset, buflen, hlogged, ho, hb⟩ := u
    cases d with
    | read => exact ⟨_, lineSpec_io dir st (Or.inl rfl) rfl rfl⟩
    | write => exact ⟨_, lineSpec_io dir st (Or.inr rfl) rfl rfl⟩
    | trim => exact ⟨_, lineSpec_io_wrong dir st (by simp) rfl rfl (Or.inr ⟨_, rfl, Ddir.noConfusion⟩)⟩
    | sync => exact ⟨_, lineSpec_io_wrong dir st (by simp) rfl rfl (Or.inr ⟨_, rfl, Ddir.noConfusion⟩)⟩
    | datasync =>
      exact ⟨_, lineSpec_io_wrong dir st (by simp) rfl (List.append_nil _).symm (Or.inl rfl)⟩
    | syncFileRange =>
      exact ⟨_, lineSpec_io_wrong dir st (by simp) rfl rfl (Or.inr ⟨_, rfl, Ddir.noConfusion⟩)⟩
    | wait => exact absurd rfl hlogged.1
    | inval => exact absurd rfl hlogged.2

end Steps

/-! ## Whole logs -/

theorem foldl_iologLine_spec (dir : Option (List Char)) : ∀ (evs : List LogEvent) (st : Replay),
    ∃ new added,
      ((evs.map fun ev => ev.line ++ ['\n']).foldl (iologLine dir false) st).pieces =
        st.pieces ++ new ∧
      ((evs.map fun ev => ev.line ++ ['\n']).foldl (iologLine dir false) st).files =
        st.files ++ added ∧
      new.length ≤ (evs.filter LogEvent.queues).length ∧
      (List.Forall₂ (ReplayPiece.Replays (st.files ++ added)) new (evs.filter LogEvent.queues) ↔
        Replayable dir st.files evs) := by
  intro evs
  induction evs with
  | nil =>
    intro st
    exact ⟨[], [], (List.append_nil _).symm, (List.append_nil _).symm, le_rfl,
      fun _ => trivial, fun _ => .nil⟩
  | cons ev evs ih =>
    intro st
    obtain ⟨new, hline⟩ := iologLine_spec dir st ev
    obtain ⟨new', added, hp, hf, hlen, hrep⟩ := ih (iologLine dir false st (ev.line ++ ['\n']))
    have hcons : (ev :: evs).filter LogEvent.queues =
        [ev].filter LogEvent.queues ++ evs.filter LogEvent.queues := by
      rw [← List.filter_append]
      rfl
    refine ⟨new ++ new', ev.adds dir ++ added, ?_, ?_, ?_, ?_⟩
    · rw [List.map_cons, List.foldl_cons, hp, hline.pieces, List.append_assoc]
    · rw [List.map_cons, List.foldl_cons, hf, hline.files, List.append_assoc]
    · rw [hcons, List.length_append, List.length_append]
      exact Nat.add_le_add hline.length_le hlen
    · rw [hcons, forall₂_append_iff hline.length_le hlen, ← List.append_assoc, ← hline.files,
        hline.replays, hrep, hline.files]
      rfl

/-- Reading a log back queues what was logged if and only if all I/O in it reads or writes and every
file was added before it is used, under the name it is used by. The table of the names in `log_io_u`
is in another order than `enum fio_ddir`, and agrees with it only in the first two. -/
theorem iolog_replay_iff (dir : Option (List Char)) (totalIoSize size : Nat) (maxBs : Ddir → Nat)
    (offset bytes : Nat) (evs : List LogEvent) :
    ReplaysLog (readIolog2 dir false (Replay.start totalIoSize size maxBs offset bytes)
      (writeLog evs)).1 evs ↔ Replayable dir [] evs := by
  obtain ⟨new, added, hp, hf, -, hrep⟩ :=
    foldl_iologLine_spec dir evs (Replay.start totalIoSize size maxBs offset bytes)
  unfold ReplaysLog readIolog2
  rw [fgetsLines_writeLog]
  dsimp only
  rw [if_neg (by simp), hp, hf]
  exact hrep

def fileA : FileName := ⟨['a'], by decide, by decide, clean_of_all (by decide)⟩

/-- A trim is replayed as a sync, a datasync not at all. -/
theorem iolog_trim_datasync_lost :
    let evs : List LogEvent := [.file .add fileA, .file .open fileA,
      .io ⟨fileA, .trim, 4096, 512, by decide, by decide, by decide⟩,
      .io ⟨fileA, .datasync, 0, 0, by decide, by decide, by decide⟩]
    let st := (readIolog2 none false (Replay.start 0 0 (fun _ => 0) 0 0) (writeLog evs)).1
    st.pieces = [⟨.inval, 0, 0, some 0, 1⟩, ⟨.sync, 4096, 512, some 0, 1⟩] ∧
      ¬ ReplaysLog st evs := by
  intro evs st
  have hp : st.pieces = [⟨.inval, 0, 0, some 0, 1⟩, ⟨.sync, 4096, 512, some 0, 1⟩] := by
    decide +kernel
  refine ⟨hp, fun h => ?_⟩
  have hlen := h.length_eq
  rw [hp] at hlen
  exact absurd hlen (by decide)

end MysqlBench.Fio
