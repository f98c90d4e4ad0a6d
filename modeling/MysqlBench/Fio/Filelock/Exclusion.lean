import MysqlBench.Fio.Filelock.Model

/-!
# File locks exclude each other

The references of an entry are the threads that are in a call for its hash or hold its lock, and its
mutex is free exactly if no thread holds it (`Counted`). Every step is made of three kinds of change:
a new entry, a change of one entry together with a move of one thread, and the removal of an entry
without references; each of them keeps the counts right.
-/

namespace MysqlBench.Fio

open MysqlBench.Lib

@[grind]
def LockPc.uses (hash : BitVec 32) (pc : LockPc) : Bool := pc.hash? = some hash

@[grind]
def LockPc.has (hash : BitVec 32) (pc : LockPc) : Bool := pc = .holds hash

attribute [local grind] LockPc.hash? LockPc.ptr?
attribute [local grind =] Function.update_apply List.Nodup.mem_erase_iff
attribute [local grind ←] List.Nodup.erase

theorem uses_iff {pc : LockPc} {h : BitVec 32} : pc.uses h = true ↔ pc.hash? = some h := by
  unfold LockPc.uses
  exact decide_eq_true_iff

theorem has_eq_false {pc : LockPc} {h : BitVec 32} (huses : pc.uses h = false) : pc.has h = false := by
  grind

variable {T : Type}

theorem hashFind_some {w : Filelocks T} {hash : BitVec 32} {ff : Nat}
    (h : hashFind w hash = some ff) : ∃ e, w.heap ff = some e ∧ e.hash = hash := by
  have hany := List.find?_some h
  cases he : w.heap ff <;> simp_all

variable [Fintype T]

@[grind cases]
structure Counted (w : Filelocks T) : Prop where
  alloc : ∀ ff, ff ∈ w.list ↔ (w.heap ff).isSome
  nodup : w.list.Nodup
  unique : ∀ a b e f, w.heap a = some e → w.heap b = some f → e.hash = f.hash → a = b
  covered : ∀ t hash, (w.pc t).uses hash = true → ∃ ff e, w.heap ff = some e ∧ e.hash = hash ∧
    ∀ p, (w.pc t).ptr? = some p → p = ff
  references : ∀ ff e, w.heap ff = some e →
    e.references = threadCount (LockPc.uses e.hash) w.pc
  value : ∀ ff e, w.heap ff = some e → e.value + threadCount (LockPc.has e.hash) w.pc = 1

def Referenced (w : Filelocks T) : Prop := ∀ ff e, w.heap ff = some e → 0 < e.references

/-! ## The three kinds of change -/

section Changes

variable {w : Filelocks T} {hash : BitVec 32} {mem ff : Nat} {e : Filelock}

theorem hashFind_none (hw : Counted w) (h : hashFind w hash = none) (he : w.heap ff = some e) :
    e.hash ≠ hash := by
  have hno := List.find?_eq_none.mp h ff ((hw.alloc ff).mpr (by rw [he]; rfl))
  grind

theorem counted_newEntry (hw : Counted w) (hfind : hashFind w hash = none) (hmem : w.heap mem = none) :
    Counted (newEntry w hash mem) := by
  have hother := fun ff e => @hashFind_none _ _ w hash ff e hw hfind
  -- nobody uses the hash yet
  have hunused : ∀ t, (w.pc t).uses hash = false := by grind
  have hunheld : ∀ t, (w.pc t).has hash = false := fun t => has_eq_false (hunused t)
  have hzero := threadCount_eq_zero.mpr hunused
  have hzero' := threadCount_eq_zero.mpr hunheld
  unfold newEntry
  constructor <;> (try simp only [Function.update_apply]) <;> grind

theorem unused_of_references (hw : Counted w) (he : w.heap ff = some e) (hz : e.references = 0) (t : T) :
    (w.pc t).uses e.hash = false :=
  threadCount_eq_zero.mp ((hw.references ff e he).symm.trans hz) t

theorem counted_dropEntry (hw : Counted w) (he : w.heap ff = some e) (hz : e.references = 0) :
    Counted (dropEntry w ff) := by
  have hunused := unused_of_references hw he hz
  unfold dropEntry
  constructor <;> (try simp only [Function.update_apply]) <;> grind

end Changes

theorem entry_of_ptr {w : Filelocks T} (hw : Counted w) {t : T} {hash : BitVec 32} {ff : Nat}
    (hhash : (w.pc t).hash? = some hash) (hptr : (w.pc t).ptr? = some ff) :
    ∃ e, w.heap ff = some e ∧ e.hash = hash := by
  obtain ⟨a, e, he, hh, hp⟩ := hw.covered t hash (uses_iff.mpr hhash)
  rw [hp ff hptr]
  exact ⟨e, he, hh⟩

structure LocksOk (w : Filelocks T) : Prop extends Counted w where
  referenced : Referenced w

structure LockStepOk (w w' : Filelocks T) : Prop where
  ok : LocksOk w'
  freed : ∀ ff e, w.heap ff = some e → w'.heap ff = none → ∀ t, (w'.pc t).uses e.hash = false

theorem locksOk_init : LocksOk (filelockInit T) := by
  refine ⟨⟨?_, List.nodup_nil, ?_, ?_, ?_, ?_⟩, ?_⟩ <;>
    simp [filelockInit, Referenced, LockPc.uses, LockPc.hash?]

variable [DecidableEq T]

theorem counted_change {w : Filelocks T} (hw : Counted w) {t : T} {ff : Nat} {e e' : Filelock}
    {pc : LockPc} (he : w.heap ff = some e) (hhash : e'.hash = e.hash)
    (hold : ∀ h, (w.pc t).uses h = true → h = e.hash)
    (hnew : ∀ h, pc.uses h = true → h = e.hash ∧ ∀ p, pc.ptr? = some p → p = ff)
    (hrefs : e'.references + (if (w.pc t).uses e.hash then 1 else 0) =
      e.references + if pc.uses e.hash then 1 else 0)
    (hvalue : e'.value + (if pc.has e.hash then 1 else 0) =
      e.value + if (w.pc t).has e.hash then 1 else 0) :
    Counted (change w t ff e' pc) := by
  -- another entry has another hash, for which nothing changes
  have hother : ∀ a f, a ≠ ff → w.heap a = some f → f.hash ≠ e.hash := by grind
  have huses : ∀ h, h ≠ e.hash → (w.pc t).uses h = false ∧ pc.uses h = false := by grind
  have hhas := fun h hne => And.intro (has_eq_false (huses h hne).1) (has_eq_false (huses h hne).2)
  unfold change
  constructor <;> (try simp only [Function.update_apply]) <;> grind

/-! ## Steps -/

section Steps

variable {w w' : Filelocks T} {t : T} {hash : BitVec 32} {ff : Nat} {e : Filelock} {pc : LockPc}

theorem lockStepOk_change {e' : Filelock} (hw : LocksOk w) (hc : Counted (change w t ff e' pc))
    (hpos : 0 < e'.references) : LockStepOk w (change w t ff e' pc) := by
  have hreferenced := hw.referenced
  unfold Referenced at hreferenced
  refine ⟨⟨hc, fun a f ha => ?_⟩, fun a f ha hnone => ?_⟩ <;> simp only [change_heap] at * <;> grind

theorem counted_reference (hw : Counted w) (hidle : w.pc t = .idle) (he : w.heap ff = some e)
    (hhash : pc.hash? = some e.hash) (hptr : pc.ptr? = some ff) :
    Counted (change w t ff { e with references := e.references + 1 } pc) := by
  refine counted_change hw he rfl ?_ ?_ ?_ ?_ <;> grind

theorem takeReference_ok (hw : LocksOk w) {mem : Nat} {next : BitVec 32 → Nat → LockPc}
    (hnext : ∀ h ff, (next h ff).hash? = some h ∧ (next h ff).ptr? = some ff)
    (hstep : takeReference w t hash mem next = some w') : LockStepOk w w' := by
  unfold takeReference at hstep
  split at hstep
  next hidle =>
    unfold hashGet at hstep
    -- the hash has an entry, or a new one is made at a place that is free
    cases hfind : hashFind w hash with
    | some ff =>
      obtain ⟨e, he, rfl⟩ := hashFind_some hfind
      rw [hfind] at hstep
      simp only [Option.bind_eq_bind, Option.bind_some, he, Option.some_inj] at hstep
      subst hstep
      exact lockStepOk_change hw (counted_reference hw.toCounted hidle he (hnext _ _).1 (hnext _ _).2)
        (Nat.succ_pos _)
    | none =>
      rw [hfind] at hstep
      cases hmem : w.heap mem with
      | some e =>
        rw [hmem] at hstep
        exact absurd hstep (by simp)
      | none =>
        have hnew := counted_newEntry hw.toCounted hfind hmem
        have he : (newEntry w hash mem).heap mem = some ⟨hash, 1, 0⟩ := Function.update_self _ _ _
        rw [hmem] at hstep
        simp only [Option.isSome_none, Bool.false_eq_true, if_false, Option.bind_eq_bind,
          Option.bind_some, he, Option.some_inj] at hstep
        subst hstep
        have hreferenced := hw.referenced
        unfold Referenced at hreferenced
        refine ⟨⟨counted_reference hnew hidle he (hnext hash mem).1 (hnext hash mem).2, fun a f ha => ?_⟩,
          fun a f ha hnone => ?_⟩ <;> simp only [change_heap, newEntry] at * <;> grind
  next => exact absurd hstep (by simp)

theorem counted_keep (hw : Counted w) (he : w.heap ff = some e) (hhash : (w.pc t).hash? = some e.hash)
    (hhash' : pc.hash? = some e.hash) (hptr' : ∀ p, pc.ptr? = some p → p = ff) {value : Nat}
    (hvalue : value + (if pc.has e.hash then 1 else 0) =
      e.value + if (w.pc t).has e.hash then 1 else 0) :
    Counted (change w t ff { e with value := value } pc) := by
  refine counted_change hw he rfl ?_ ?_ ?_ hvalue <;> grind

theorem counted_acquire (hw : Counted w) (he : w.heap ff = some e) (hhash : (w.pc t).hash? = some e.hash)
    (hptr : (w.pc t).ptr? = some ff) (hfree : e.value ≠ 0) :
    Counted (change w t ff { e with value := e.value - 1 } (.holds e.hash)) := by
  refine counted_keep hw he hhash rfl ?_ ?_ <;> grind

theorem counted_release (hw : Counted w) (he : w.heap ff = some e) (hhash : (w.pc t).hash? = some e.hash)
    (hpos : 0 < e.references) {value : Nat}
    (hvalue : value = e.value + if (w.pc t).has e.hash then 1 else 0) :
    Counted (change w t ff ⟨e.hash, value, e.references - 1⟩ .idle) := by
  refine counted_change hw he rfl ?_ ?_ ?_ hvalue <;> grind

theorem mutexDown_ok (hw : LocksOk w) (hpc : w.pc t = .down hash ff)
    (hstep : mutexDown w t hash ff = some w') : LockStepOk w w' := by
  obtain ⟨e, he, rfl⟩ := entry_of_ptr hw.toCounted (t := t) (by rw [hpc]; rfl) (by rw [hpc]; rfl)
  unfold mutexDown at hstep
  simp only [Option.bind_eq_bind, he, Option.bind_some] at hstep
  split at hstep
  next => exact absurd hstep (by simp)
  next hfree =>
    obtain rfl := Option.some.inj hstep
    exact lockStepOk_change hw (counted_acquire hw.toCounted he (by rw [hpc]; rfl)
      (by rw [hpc]; rfl) hfree) (hw.referenced ff e he)

theorem mutexTryDown_ok (hw : LocksOk w) (hpc : w.pc t = .tryDown hash ff)
    (hstep : mutexTryDown w t hash ff = some w') : LockStepOk w w' := by
  obtain ⟨e, he, rfl⟩ := entry_of_ptr hw.toCounted (t := t) (by rw [hpc]; rfl) (by rw [hpc]; rfl)
  unfold mutexTryDown at hstep
  simp only [Option.bind_eq_bind, he, Option.bind_some] at hstep
  split at hstep
  next =>
    obtain rfl := Option.some.inj hstep
    refine lockStepOk_change hw (counted_keep hw.toCounted he ?_ rfl ?_ ?_) (hw.referenced ff e he) <;> grind
  next hfree =>
    obtain rfl := Option.some.inj hstep
    exact lockStepOk_change hw (counted_acquire hw.toCounted he (by rw [hpc]; rfl)
      (by rw [hpc]; rfl) hfree) (hw.referenced ff e he)

theorem tryAgain_ok (hw : LocksOk w) (hpc : w.pc t = .raced hash ff)
    (hstep : tryAgain w t hash ff = some w') : LockStepOk w w' := by
  obtain ⟨e, he, rfl⟩ := entry_of_ptr hw.toCounted (t := t) (by rw [hpc]; rfl) (by rw [hpc]; rfl)
  have hpos := hw.referenced ff e he
  unfold tryAgain at hstep
  simp only [Option.bind_eq_bind, he, Option.bind_some] at hstep
  split at hstep
  next hmore =>
    obtain rfl := Option.some.inj hstep
    refine lockStepOk_change hw (counted_release hw.toCounted he ?_ hpos ?_) ?_ <;> grind
  next =>
    obtain rfl := Option.some.inj hstep
    refine lockStepOk_change hw (counted_keep hw.toCounted he ?_ rfl ?_ ?_) hpos <;> grind

theorem unlockFile_ok (hw : LocksOk w) (hpc : w.pc t = .holds hash)
    (hstep : unlockFile w t hash = some w') : LockStepOk w w' := by
  have huse : (w.pc t).uses hash = true := uses_iff.mpr (by rw [hpc]; rfl)
  unfold unlockFile at hstep
  cases hfind : hashFind w hash with
  | none =>
    -- the entry of a lock that is held is in the list
    obtain ⟨ff, e, he, hh, -⟩ := hw.covered t hash huse
    exact absurd hh (hashFind_none hw.toCounted hfind he)
  | some ff =>
    obtain ⟨e, he, rfl⟩ := hashFind_some hfind
    have hpos := hw.referenced ff e he
    have hc : Counted (change w t ff ⟨e.hash, e.value + 1, e.references - 1⟩ .idle) :=
      counted_release hw.toCounted he (by rw [hpc]; rfl) hpos (by grind)
    have hnew : (change w t ff ⟨e.hash, e.value + 1, e.references - 1⟩ .idle).heap ff =
        some ⟨e.hash, e.value + 1, e.references - 1⟩ := Function.update_self _ _ _
    rw [hfind] at hstep
    simp only [Option.bind_eq_bind, he, Option.bind_some] at hstep
    split at hstep
    next hz =>
      obtain rfl := Option.some.inj hstep
      have hreferenced := hw.referenced
      have hunused := unused_of_references hc hnew hz
      unfold Referenced at hreferenced
      refine ⟨⟨counted_dropEntry hc hnew hz, fun a f ha => ?_⟩, fun a f ha hnone u => ?_⟩ <;>
        simp only [change_heap, change_pc, dropEntry] at * <;> grind
    next hz =>
      obtain rfl := Option.some.inj hstep
      exact lockStepOk_change hw hc (Nat.pos_of_ne_zero hz)

end Steps

theorem filelockStep_ok {Name : Type} {jhash : Name → BitVec 32} {w w' : Filelocks T}
    {a : LockStep T Name} (hw : LocksOk w) (hstep : filelockStep jhash w a = some w') :
    LockStepOk w w' := by
  cases a with
  | lock t fname mem => exact takeReference_ok hw (fun _ _ => ⟨rfl, rfl⟩) hstep
  | trylock t fname mem => exact takeReference_ok hw (fun _ _ => ⟨rfl, rfl⟩) hstep
  | run t =>
    unfold filelockStep at hstep
    dsimp only at hstep
    cases hpc : w.pc t with
    | idle => rw [hpc] at hstep; exact absurd hstep (by simp)
    | down hash ff => rw [hpc] at hstep; exact mutexDown_ok hw hpc hstep
    | tryDown hash ff => rw [hpc] at hstep; exact mutexTryDown_ok hw hpc hstep
    | raced hash ff => rw [hpc] at hstep; exact tryAgain_ok hw hpc hstep
    | holds hash => rw [hpc] at hstep; exact unlockFile_ok hw hpc hstep

/-! ## Runs -/

theorem locksOk_reachable {Name : Type} {jhash : Name → BitVec 32} {w : Filelocks T}
    (h : Reachable (filelockStep jhash) (filelockInit T) w) : LocksOk w :=
  h.invariant locksOk_init fun _ _ _ hw hstep => (filelockStep_ok hw hstep).ok

/-- In every state that any number of threads can reach, at most one of them holds the lock of a
hash, every pointer that a thread has is to an entry in the list, and if no thread is in a call or has
a lock then the list is empty. A step that frees an entry leaves no thread that holds its lock or is
in a call for it. -/
theorem filelocks_exclusive {T Name : Type} [Fintype T] [DecidableEq T]
    (jhash : Name → BitVec 32) (w : Filelocks T)
    (h : Reachable (filelockStep jhash) (filelockInit T) w) :
    (∀ hash t u, w.pc t = .holds hash → w.pc u = .holds hash → t = u) ∧
    (∀ t ff, (w.pc t).ptr? = some ff → ff ∈ w.list ∧ (w.heap ff).isSome) ∧
    (∀ a w' ff e, filelockStep jhash w a = some w' → w.heap ff = some e → w'.heap ff = none →
      ∀ t, (w'.pc t).hash? ≠ some e.hash ∧ (w'.pc t).ptr? ≠ some ff) ∧
    ((∀ t, w.pc t = .idle) → w.list = []) := by
  have hptr : ∀ {w : Filelocks T}, LocksOk w → ∀ t ff, (w.pc t).ptr? = some ff →
      ff ∈ w.list ∧ (w.heap ff).isSome := by
    intro w hw t ff hp
    obtain ⟨hash, hhash⟩ : ∃ hash, (w.pc t).hash? = some hash := by
      cases hpc : w.pc t <;> rw [hpc] at hp <;> simp_all [LockPc.ptr?, LockPc.hash?]
    obtain ⟨e, he, -⟩ := entry_of_ptr hw.toCounted hhash hp
    have hsome : (w.heap ff).isSome = true := by rw [he]; rfl
    exact ⟨(hw.alloc ff).mpr hsome, hsome⟩
  have hw := locksOk_reachable h
  refine ⟨fun hash t u ht hu => ?_, hptr hw, fun a w' ff e hstep he hnone t => ?_, fun hidle => ?_⟩
  · obtain ⟨ff, e, he, rfl, -⟩ := hw.covered t hash (uses_iff.mpr (by rw [ht]; rfl))
    -- the mutex starts at one, and each holder has taken one off
    have hone := hw.value ff e he
    exact eq_of_threadCount_le_one (p := LockPc.has e.hash) (by omega) (decide_eq_true ht)
      (decide_eq_true hu)
  · have hok := filelockStep_ok hw hstep
    constructor
    · intro hhash
      have hno := hok.freed ff e he hnone t
      rw [uses_iff.mpr hhash] at hno
      exact absurd hno Bool.noConfusion
    · intro hp
      have hsome := (hptr hok.ok t ff hp).2
      rw [hnone] at hsome
      exact absurd hsome Bool.noConfusion
  · refine List.eq_nil_iff_forall_not_mem.mpr fun ff hff => ?_
    obtain ⟨e, he⟩ := Option.isSome_iff_exists.mp ((hw.alloc ff).mp hff)
    have hpos := hw.referenced ff e he
    rw [hw.references ff e he] at hpos
    have hzero : threadCount (LockPc.uses e.hash) w.pc = 0 := by
      refine threadCount_eq_zero.mpr fun t => ?_
      rw [hidle t]
      rfl
    omega

/-- Two threads: the second finds the lock taken, the first gives it up and the second, now alone,
takes it. -/
def racedSteps : List (LockStep (Fin 2) (BitVec 32)) :=
  [.lock 0 7 3, .run 0, .trylock 1 7 4, .run 1, .run 0, .run 1, .run 1]

def racedLocks : Option (Filelocks (Fin 2)) :=
  runSteps (filelockStep id) (filelockInit (Fin 2)) racedSteps

theorem racedLocks_isSome : racedLocks.isSome = true := by decide

theorem filelocks_exclusive_raced :
    (racedLocks.get racedLocks_isSome).pc 1 = .holds 7 ∧
    ∀ u, (racedLocks.get racedLocks_isSome).pc u = .holds 7 → 1 = u := by
  have hreach : Reachable (filelockStep id) (filelockInit (Fin 2))
      (racedLocks.get racedLocks_isSome) :=
    Reachable.runSteps racedSteps .start (Option.some_get racedLocks_isSome).symm
  have hpc : (racedLocks.get racedLocks_isSome).pc 1 = .holds 7 := by decide
  exact ⟨hpc, fun u hu => (filelocks_exclusive id _ hreach).1 7 1 u hpc hu⟩

/-! ## No deadlock -/

theorem unlockFile_isSome {T : Type} [DecidableEq T] (w : Filelocks T) (t : T) (hash : BitVec 32) :
    (unlockFile w t hash).isSome := by
  unfold unlockFile
  cases hfind : hashFind w hash with
  | none => rfl
  | some ff =>
    obtain ⟨e, he, -⟩ := hashFind_some hfind
    simp only [he, Option.bind_eq_bind, Option.bind_some]
    split <;> rfl

/-- A thread in a call can go on, or it waits for a lock whose holder can. A thread that holds a
lock waits for nothing, so that no circle can form. -/
theorem filelocks_no_deadlock {T Name : Type} [Fintype T] [DecidableEq T]
    (jhash : Name → BitVec 32) (w : Filelocks T)
    (h : Reachable (filelockStep jhash) (filelockInit T) w) (t : T) (ht : w.pc t ≠ .idle) :
    (filelockStep jhash w (.run t)).isSome ∨ ∃ hash ff u, w.pc t = .down hash ff ∧
      w.pc u = .holds hash ∧ (filelockStep jhash w (.run u)).isSome := by
  have hw := locksOk_reachable h
  have hentry := fun hash ff => @entry_of_ptr T _ w hw.toCounted t hash ff
  simp only [filelockStep]
  cases hpc : w.pc t with
  | idle => exact absurd hpc ht
  | down hash ff =>
    obtain ⟨e, he, rfl⟩ := hentry hash ff (by rw [hpc]; rfl) (by rw [hpc]; rfl)
    by_cases hfree : e.value = 0
    · -- the mutex counts down from one, so somebody has it
      obtain ⟨u, hu⟩ : ∃ u, (w.pc u).has e.hash = true := by
        by_contra hno
        have hnone := threadCount_eq_zero.mpr fun u => Bool.eq_false_iff.mpr (not_exists.mp hno u)
        have hone := hw.value ff e he
        omega
      have hu : w.pc u = .holds e.hash := of_decide_eq_true hu
      exact .inr ⟨_, _, u, rfl, hu, by rw [hu]; exact unlockFile_isSome ..⟩
    · exact .inl (by simp [mutexDown, he, hfree])
  | tryDown hash ff =>
    obtain ⟨e, he, -⟩ := hentry hash ff (by rw [hpc]; rfl) (by rw [hpc]; rfl)
    simp only [mutexTryDown, he, Option.bind_eq_bind, Option.bind_some]
    exact .inl (by split <;> rfl)
  | raced hash ff =>
    obtain ⟨e, he, -⟩ := hentry hash ff (by rw [hpc]; rfl) (by rw [hpc]; rfl)
    simp only [tryAgain, he, Option.bind_eq_bind, Option.bind_some]
    exact .inl (by split <;> rfl)
  | holds hash => exact .inl (unlockFile_isSome ..)

def takenSteps : List (LockStep (Fin 2) (BitVec 32)) := [.lock 0 7 3, .run 0, .lock 1 7 4]

/-- The second thread finds the lock taken. -/
theorem filelocks_no_deadlock_taken : ∃ w,
    runSteps (filelockStep id) (filelockInit (Fin 2)) takenSteps = some w ∧
      ((filelockStep id w (.run 1)).isSome ∨ ∃ hash ff u, w.pc 1 = .down hash ff ∧
        w.pc u = .holds hash ∧ (filelockStep id w (.run u)).isSome) :=
  ⟨_, rfl, filelocks_no_deadlock id _ (.runSteps takenSteps .start rfl) 1 (by decide)⟩

end MysqlBench.Fio
