import MysqlBench.Lib.Interleave
import MysqlBench.Sysbench.Fileio.Validate

/-!
# Validation by several threads

`file_execute_request` works on `buffer`, of which there is one for all threads. A write fills it and
then writes it to the file; a read reads into it and then checks it; and between the two steps another
thread may fill it or read into it. A run is right if every second step finds what the first step of the
same request has left (`StepRight`). It is if each request has the buffer for itself, and so with one
thread (`validation_exclusive`).
-/

namespace MysqlBench.Sysbench

open Lib

/-! ## Steps -/

/-- A thread between requests, or between the two steps of a request, with what the first one has
filled in or read, or after a failure. -/
inductive SharedPhase
  | idle
  | using (r : FileRequest) (bytes : List Byte)
  | stopped
deriving DecidableEq

def SharedPhase.busy : SharedPhase → Bool
  | .using _ _ => true
  | _ => false

structure SharedState (T : Type) where
  buffer : Mem
  disk : Disk
  phase : T → SharedPhase

inductive SharedAction (T : Type)
  | request (t : T) (rnd : Nat → Byte) (r : FileRequest)
  | proceed (t : T)

section Steps

variable {T : Type} [DecidableEq T] (crc : List Byte → BitVec 32) (host : Endian) (cfg : FileConfig)

/-- `file_fill_buffer` or `file_pread` of a request, after its check: the buffer and where the thread is
then. -/
def firstStep (s : SharedState T) (rnd : Nat → Byte) (r : FileRequest) : Mem × SharedPhase :=
  match checkRequest cfg r with
  | .error _ => (s.buffer, .stopped)
  | .ok () =>
    match r.operation with
    | .write =>
      let bytes := fileFillBuffer crc host rnd r.size.toNat r.pos.toNat
      (store s.buffer 0 bytes, .using r bytes)
    | .read =>
      if cfg.numFiles ≤ r.fileId then (s.buffer, .stopped)
      else
        let bytes := (s.disk r.fileId).pread r.size.toNat r.pos.toNat
        (store s.buffer 0 bytes, if (bytes.length : Int) = r.size then .using r bytes else .stopped)
    | .fsync => (s.buffer, .idle)

def secondStep (s : SharedState T) (r : FileRequest) : Disk × SharedPhase :=
  let bytes := load s.buffer 0 r.size.toNat
  match r.operation with
  | .write =>
    if cfg.numFiles ≤ r.fileId then (s.disk, .stopped)
    else (Function.update s.disk r.fileId ((s.disk r.fileId).pwrite bytes r.pos.toNat), .idle)
  | _ =>
    match fileValidateBuffer crc host bytes r.pos.toNat with
    | .error _ => (s.disk, .stopped)
    | .ok () => (s.disk, .idle)

def sharedStep (s : SharedState T) : SharedAction T → Option (SharedState T)
  | .request t rnd r =>
    match s.phase t with
    | .idle =>
      let res := firstStep crc host cfg s rnd r
      some ⟨res.1, s.disk, Function.update s.phase t res.2⟩
    | _ => none
  | .proceed t =>
    match s.phase t with
    | .using r _ =>
      let res := secondStep crc host cfg s r
      some ⟨s.buffer, res.1, Function.update s.phase t res.2⟩
    | _ => none

end Steps

/-! ## Right runs -/

section Right

variable {T : Type}

/-- A second step that finds what the first one has left: a block that is written has the checksum and
the offset that were filled in, and what is checked is what was read. -/
def StepRight (host : Endian) (s : SharedState T) : SharedAction T → Prop
  | .request _ _ _ => True
  | .proceed t => ∀ r bytes, s.phase t = .using r bytes →
    (r.operation = .write →
      storedChecksum host (load s.buffer 0 r.size.toNat) = storedChecksum host bytes ∧
        storedOffset host (load s.buffer 0 r.size.toNat) = storedOffset host bytes) ∧
    (r.operation = .read → load s.buffer 0 r.size.toNat = bytes)

/-- A block that is written has room for the checksum and the offset; otherwise `file_fill_buffer` leaves
its buffer. -/
def SharedAction.HasRoom : SharedAction T → Prop
  | .request _ _ r => r.operation = .write → fileChecksumLength + fileOffsetLength ≤ r.size.toNat
  | .proceed _ => True

def Exclusive (s : SharedState T) : SharedAction T → Prop
  | .request t _ r => r.operation ≠ .fsync → ∀ t', t' ≠ t → (s.phase t').busy = false
  | .proceed _ => True

instance decidableExclusive [Fintype T] [DecidableEq T] (s : SharedState T) :
    ∀ a, Decidable (Exclusive s a)
  | .request t _ r =>
    inferInstanceAs (Decidable (r.operation ≠ .fsync → ∀ t', t' ≠ t → (s.phase t').busy = false))
  | .proceed _ => isTrue trivial

def BufferHeld (s : SharedState T) : Prop :=
  ∀ t r bytes, s.phase t = .using r bytes → load s.buffer 0 r.size.toNat = bytes

theorem BufferHeld.stepRight {host : Endian} {s : SharedState T} (h : BufferHeld s) (a : SharedAction T) :
    StepRight host s a := by
  cases a with
  | request t rnd r => trivial
  | proceed t =>
    intro r bytes hphase
    rw [h t r bytes hphase]
    exact ⟨fun _ => ⟨rfl, rfl⟩, fun _ => rfl⟩

variable {crc : List Byte → BitVec 32} {host : Endian} {cfg : FileConfig}

/-- The first step leaves what it says in the buffer; a request that does not need the buffer leaves it
alone. -/
theorem firstStep_cases (s : SharedState T) (rnd : Nat → Byte) (r : FileRequest)
    (hroom : r.operation = .write → fileChecksumLength + fileOffsetLength ≤ r.size.toNat) :
    ((firstStep crc host cfg s rnd r).1 = s.buffer ∨ r.operation ≠ .fsync) ∧
      ∀ r' bytes, (firstStep crc host cfg s rnd r).2 = .using r' bytes →
        load (firstStep crc host cfg s rnd r).1 0 r'.size.toNat = bytes := by
  unfold firstStep
  split
  · exact ⟨Or.inl rfl, fun r' bytes h => by simp at h⟩
  cases hop : r.operation with
  | write =>
    refine ⟨Or.inr FileOp.noConfusion, fun r' bytes h => ?_⟩
    obtain ⟨rfl, rfl⟩ := SharedPhase.using.inj h
    have hlen := @length_fileFillBuffer crc host rnd _ r.pos.toNat (hroom hop)
    have hload := load_store_same s.buffer 0 (fileFillBuffer crc host rnd r.size.toNat r.pos.toNat)
    rwa [hlen] at hload
  | read =>
    refine ⟨Or.inr FileOp.noConfusion, fun r' bytes h => ?_⟩
    dsimp only at h ⊢
    split at h
    · simp at h
    · rename_i hfile
      split at h
      · rename_i hlen
        obtain ⟨rfl, rfl⟩ := SharedPhase.using.inj h
        have hload := load_store_same s.buffer 0 ((s.disk r.fileId).pread r.size.toNat r.pos.toNat)
        rw [if_neg hfile]
        rwa [show ((s.disk r.fileId).pread r.size.toNat r.pos.toNat).length = r.size.toNat by omega] at hload
      · simp at h
  | fsync => exact ⟨Or.inl rfl, fun r' bytes h => by simp at h⟩

theorem secondStep_busy (s : SharedState T) (r : FileRequest) :
    (secondStep crc host cfg s r).2.busy = false := by
  unfold secondStep
  dsimp only
  split
  · split <;> rfl
  · split <;> rfl

variable [DecidableEq T]

theorem BufferHeld.step (s : SharedState T) (a : SharedAction T) (s' : SharedState T) (h : BufferHeld s)
    (hex : Exclusive s a ∧ a.HasRoom) (hs : sharedStep crc host cfg s a = some s') : BufferHeld s' := by
  obtain ⟨hex, hroom⟩ := hex
  cases a with
  | request t rnd r =>
    cases hphase : s.phase t <;> simp only [sharedStep, hphase, reduceCtorEq, Option.some.injEq] at hs
    obtain ⟨hbuf, hload⟩ := @firstStep_cases _ crc host cfg s rnd r hroom
    intro t' r' bytes ht'
    rw [← hs] at ht' ⊢
    dsimp only at ht' ⊢
    by_cases heq : t' = t
    · rw [heq, Function.update_self] at ht'
      exact hload r' bytes ht'
    · rw [Function.update_of_ne heq] at ht'
      -- only a write fills the buffer, and then no other thread is busy
      rcases hbuf with hbuf | hop
      · rw [hbuf]
        exact h t' r' bytes ht'
      · have hbusy := hex hop t' heq
        rw [ht'] at hbusy
        exact absurd hbusy Bool.noConfusion
  | proceed t =>
    cases hphase : s.phase t <;> simp only [sharedStep, hphase, reduceCtorEq, Option.some.injEq] at hs
    rename_i r bytes
    intro t' r' bytes' ht'
    rw [← hs] at ht' ⊢
    dsimp only at ht' ⊢
    by_cases heq : t' = t
    · rw [heq, Function.update_self] at ht'
      have hbusy := @secondStep_busy _ crc host cfg s r
      rw [ht'] at hbusy
      exact absurd hbusy Bool.noConfusion
    · rw [Function.update_of_ne heq] at ht'
      exact h t' r' bytes' ht'

end Right

def sharedStart {T : Type} (buffer : Mem) (disk : Disk) : SharedState T := ⟨buffer, disk, fun _ => .idle⟩

/-- **Validation with a buffer of its own.** If each request that needs the buffer starts while no other
thread is using it, each block written has the checksum and the offset of its own request, and each
validation looks at what its own request has read. One thread always has the buffer for itself. -/
theorem validation_exclusive {T : Type} [DecidableEq T] (crc : List Byte → BitVec 32) (host : Endian)
    (cfg : FileConfig) (buffer : Mem) (disk : Disk) (as : List (SharedAction T))
    (hroom : ∀ a ∈ as, a.HasRoom) :
    (EachStep (sharedStep crc host cfg) Exclusive (sharedStart buffer disk) as →
      EachStep (sharedStep crc host cfg) (StepRight host) (sharedStart buffer disk) as) ∧
    (Subsingleton T →
      EachStep (sharedStep crc host cfg) (StepRight host) (sharedStart buffer disk) as) := by
  have hheld : BufferHeld (sharedStart buffer disk : SharedState T) := fun t r bytes h => by
    simp [sharedStart] at h
  have hright : EachStep (sharedStep crc host cfg) (fun s a => Exclusive s a ∧ a.HasRoom)
        (sharedStart buffer disk) as →
      EachStep (sharedStep crc host cfg) (StepRight host) (sharedStart buffer disk) as :=
    EachStep.imp BufferHeld.step (fun s a hs _ => hs.stepRight a) as hheld
  have hboth := @eachStep_of_forall _ _ (sharedStep crc host cfg) _ as (sharedStart buffer disk) hroom
  refine ⟨fun hex => hright (EachStep.and as hex hboth), fun hone => hright (EachStep.and as ?_ hboth)⟩
  refine EachStep.imp (P := fun _ => True) (fun _ _ _ _ _ _ => trivial) (fun s a _ _ => ?_) as trivial hboth
  cases a with
  | request t rnd r => exact fun _ t' hne => absurd (hone.elim t' t) hne
  | proceed t => trivial

/-- Two threads, one after the other. -/
theorem validation_in_turn :
    EachStep (sharedStep crc32 .little (smallConfig 1 32 32)) (StepRight .little)
      (sharedStart (fun _ => 0) fun _ => .empty)
      [.request true (fun _ => 1) ⟨.write, 0, 0, 16⟩, .proceed true,
        .request false (fun _ => 2) ⟨.read, 0, 0, 16⟩, .proceed false] := by
  apply (validation_exclusive crc32 .little (smallConfig 1 32 32) _ _ _ ?_).1
  · decide +kernel
  · simp [SharedAction.HasRoom, fileChecksumLength, fileOffsetLength]

/-- One thread fills the buffer for the first block, another one for the second, and the first thread
writes what the other has filled in: its block has the offset of the second, and does not validate. -/
theorem validation_races :
    parseArguments ⟨true, true, true⟩ true (smallArgs 1 32) = .ok (smallConfig 1 32 32) ∧
    ¬EachStep (sharedStep crc32 .little (smallConfig 1 32 32)) (StepRight .little)
      (sharedStart (fun _ => 0) fun _ => .empty)
      [.request true (fun _ => 1) ⟨.write, 0, 0, 16⟩, .request false (fun _ => 2) ⟨.write, 0, 16, 16⟩,
        .proceed true] := by
  refine ⟨by decide +kernel, fun h => ?_⟩
  have hsecond := (h.2 _ rfl).2 _ rfl
  have hwrite := (hsecond.1 _ _ rfl).1 rfl
  exact absurd hwrite.2 (by decide +kernel)

end MysqlBench.Sysbench
