import MysqlBench.Sysbench.Fileio.Model

/-!
# The number of requests and the schedule of `fsync`

What a test with `--max-requests` hands out is determined by which of its requests for data are writes:
`complete` lists it. Every sequence of calls should get a beginning of such a list, followed by requests
of type null once it is used up (`Scheduled`). The proof keeps, for each state, the part of the list that
is still to come (`upcoming`): a call takes its first element.

One setting breaks this. `parse_arguments` accepts a total size that is smaller than the number of files;
`file_size` is zero then, and the first random request for data divides by it. So the schedule is kept by
all sequences of calls exactly in the sequential tests and in those whose files have a byte
(`requests_scheduled_iff`).
-/

namespace MysqlBench.Sysbench

/-! ## The schedule -/

inductive Handed
  | data (write : Bool)
  | fsync (file : Nat)
  | null
deriving Repr, DecidableEq

def Handed.isData : Handed → Bool
  | .data _ => true
  | _ => false

def kind : SbRequest → Handed
  | none => .null
  | some r =>
    match r.operation with
    | .fsync => .fsync r.fileId
    | .write => .data true
    | .read => .data false

theorem kind_data {r : FileRequest} (h : r.operation ≠ .fsync) :
    kind (some r) = .data (r.operation == .write) := by
  obtain ⟨op, file, pos, size⟩ := r
  cases op with
  | fsync => exact absurd rfl h
  | read => rfl
  | write => rfl

def fsyncsFrom (numFiles j : Nat) : List Handed := (List.range' j (numFiles - j)).map .fsync

/-- A series of `fsync` is due: `k` requests for data have been handed out, and `dirty` says whether
there was a write since the last series. -/
def due (freq k : Nat) (dirty : Bool) : Bool := freq ≠ 0 ∧ dirty = true ∧ k % freq = 0

def schedule (numFiles freq : Nat) : Nat → Bool → List Bool → List Handed
  | _, _, [] => []
  | k, dirty, w :: ws =>
    (if due freq k dirty then fsyncsFrom numFiles 0 else []) ++
      .data w :: schedule numFiles freq (k + 1) (dirty && !due freq k dirty || w) ws

def endSeries (cfg : FileConfig) (j : Nat) : List Handed :=
  if cfg.fsyncEnd then fsyncsFrom cfg.numFiles j else []

def complete (cfg : FileConfig) (ws : List Bool) : List Handed :=
  schedule cfg.numFiles cfg.fsyncFreq.toNat 0 false ws ++ endSeries cfg 0

def Writes (cfg : FileConfig) : Prop :=
  cfg.testMode = .write ∨ cfg.testMode = .rewrite ∨ cfg.testMode = .rndWrite ∨
    cfg.testMode = .rndRw

/-- The requests that threads get, in the order of their calls. Nobody gets one after a call that ends
the process. -/
def calls {T : Type} (cfg : FileConfig) (maxRequests : Nat) (st : FileVars) :
    List (T × RndInput) → List (T × SbRequest)
  | [] => []
  | (t, i) :: is =>
    match fileGetRequest cfg maxRequests i st with
    | none => []
    | some (r, st') => (t, r) :: calls cfg maxRequests st' is

/-- Every call gets a request: the beginning of a complete schedule with `maxRequests` requests for data,
then nothing but requests of type null; and if there are enough calls, all of the schedule. -/
def Scheduled {T : Type} (cfg : FileConfig) (maxRequests : Nat) (is : List (T × RndInput)) : Prop :=
  (∃ ws : List Bool, ws.length = maxRequests ∧
    (calls cfg maxRequests initVars is).map (fun c => kind c.2) =
      (complete cfg ws ++ List.replicate is.length Handed.null).take is.length) ∧
  ((maxRequests + 1) * (cfg.numFiles + 1) ≤ is.length →
    ((calls cfg maxRequests initVars is).map fun c => kind c.2).countP Handed.isData = maxRequests)

def NeverDivides (cfg : FileConfig) : Prop :=
  cfg.testMode = .write ∨ cfg.testMode = .rewrite ∨ cfg.fileSize ≠ 0

/-! ## One call -/

section Call

variable {cfg : FileConfig} {maxRequests : Nat}

structure DataStep (w : Bool) (st st' : FileVars) : Prop where
  reqPerformed : st'.reqPerformed = (st.reqPerformed + 1) % 2 ^ 32
  isDirty : st'.isDirty = (st.isDirty || w)
  fsyncedFile : st'.fsyncedFile = st.fsyncedFile
  fsyncedFile2 : st'.fsyncedFile2 = st.fsyncedFile2

theorem due_iff (hfreq : 0 ≤ cfg.fsyncFreq) (st : FileVars) :
    (cfg.fsyncFreq ≠ 0 ∧ st.isDirty = true ∧ st.reqPerformed % cfg.fsyncFreq.toNat = 0) ↔
      due cfg.fsyncFreq.toNat st.reqPerformed st.isDirty = true := by
  have hz : cfg.fsyncFreq ≠ 0 ↔ cfg.fsyncFreq.toNat ≠ 0 := by omega
  rw [hz, due, decide_eq_true_iff]

theorem seqData_step (st : FileVars) :
    DataStep (seqOperation cfg == .write) st (seqData cfg st).2 := by
  unfold seqData rewind
  dsimp only
  split_ifs <;> exact ⟨rfl, rfl, rfl, rfl⟩

inductive CallSpec (cfg : FileConfig) (maxRequests : Nat) (st : FileVars) :
    SbRequest × FileVars → Prop
  | finish (hend : 0 < maxRequests ∧ maxRequests ≤ st.reqPerformed) :
      CallSpec cfg maxRequests st (endRequest cfg true st)
  | series (hrun : ¬(0 < maxRequests ∧ maxRequests ≤ st.reqPerformed))
      (hdue : due cfg.fsyncFreq.toNat st.reqPerformed st.isDirty = true) :
      CallSpec cfg maxRequests st (nextFsync cfg st)
  | data (hrun : ¬(0 < maxRequests ∧ maxRequests ≤ st.reqPerformed))
      (hdue : due cfg.fsyncFreq.toNat st.reqPerformed st.isDirty = false) {w : Bool}
      {r : FileRequest} {st' : FileVars} (hkind : kind (some r) = .data w)
      (hstep : DataStep w st st') : CallSpec cfg maxRequests st (some r, st')

theorem fileGetSeqRequest_spec (hw : seqOperation cfg = .write) (hfreq : 0 ≤ cfg.fsyncFreq)
    (st : FileVars) : CallSpec cfg maxRequests st (fileGetSeqRequest cfg maxRequests st) := by
  have hdue := due_iff hfreq st
  unfold fileGetSeqRequest
  split_ifs with hend hsync
  · rw [hw]
    exact .finish hend
  · exact .series hend (hdue.mp ⟨hsync.1, hsync.2.2⟩)
  · have hno : due cfg.fsyncFreq.toNat st.reqPerformed st.isDirty = false := by
      refine Bool.eq_false_iff.mpr fun hd => hsync ?_
      exact ⟨(hdue.mpr hd).1, hw, (hdue.mpr hd).2⟩
    refine .data (w := seqOperation cfg == .write) hend hno ?_ (seqData_step st)
    refine kind_data (r := (seqData cfg st).1) (show seqOperation cfg ≠ .fsync from ?_)
    rw [hw]
    exact FileOp.noConfusion

theorem fileGetRndRequest_spec (hw : cfg.testMode = .rndWrite ∨ cfg.testMode = .rndRw)
    (hfreq : 0 ≤ cfg.fsyncFreq) (hsize : cfg.fileSize ≠ 0) (i : RndInput) (st : FileVars) :
    ∃ res, fileGetRndRequest cfg maxRequests i st = some res ∧ CallSpec cfg maxRequests st res := by
  have hdue := due_iff hfreq st
  have hsync : (cfg.testMode == .rndWrite || cfg.testMode == .rndRw || cfg.testMode == .mixed) =
      true := by
    rcases hw with hw | hw <;> rw [hw] <;> rfl
  unfold fileGetRndRequest
  rw [hsync, if_neg hsize]
  split_ifs with hend hser
  · exact ⟨_, rfl, .finish hend⟩
  · exact ⟨_, rfl, .series hend (hdue.mp hser)⟩
  · have hno := Bool.eq_false_iff.mpr fun hd => hser (hdue.mpr hd)
    refine ⟨_, rfl, .data (w := rndOperation cfg i == .write) hend hno ?_ ⟨rfl, rfl, rfl, rfl⟩⟩
    refine kind_data (show rndOperation cfg i ≠ .fsync from ?_)
    unfold rndOperation
    rcases hw with hw | hw <;> rw [hw]
    · exact FileOp.noConfusion
    · dsimp only
      split_ifs <;> exact FileOp.noConfusion

theorem fileGetRequest_spec (hw : Writes cfg) (hfreq : 0 ≤ cfg.fsyncFreq) (hdiv : NeverDivides cfg)
    (i : RndInput) (st : FileVars) :
    ∃ res, fileGetRequest cfg maxRequests i st = some res ∧ CallSpec cfg maxRequests st res := by
  have hsize : cfg.testMode = .rndWrite ∨ cfg.testMode = .rndRw → cfg.fileSize ≠ 0 := by
    intro hrnd
    rcases hdiv with h | h | h
    · rw [h] at hrnd
      simp at hrnd
    · rw [h] at hrnd
      simp at hrnd
    · exact h
  unfold fileGetRequest
  rcases hw with h | h | h | h <;> rw [h]
  · exact ⟨_, rfl, fileGetSeqRequest_spec (if_pos (Or.inl h)) hfreq st⟩
  · exact ⟨_, rfl, fileGetSeqRequest_spec (if_pos (Or.inr h)) hfreq st⟩
  · exact fileGetRndRequest_spec (Or.inl h) hfreq (hsize (.inl h)) i st
  · exact fileGetRndRequest_spec (Or.inr h) hfreq (hsize (.inr h)) i st

end Call

/-! ## What is still to come -/

section Run

variable {cfg : FileConfig} {maxRequests : Nat}

def upcoming (cfg : FileConfig) (st : FileVars) : List Bool → List Handed
  | [] => endSeries cfg st.fsyncedFile2
  | w :: ws =>
    (if due cfg.fsyncFreq.toNat st.reqPerformed st.isDirty then
      fsyncsFrom cfg.numFiles st.fsyncedFile else []) ++
    .data w :: (schedule cfg.numFiles cfg.fsyncFreq.toNat (st.reqPerformed + 1)
      (st.isDirty && !due cfg.fsyncFreq.toNat st.reqPerformed st.isDirty || w) ws ++
      endSeries cfg 0)

/-- States of a test with `maxRequests`. A series that has begun is due, and the one at the end begins
after the last request for data. -/
structure VarsOk (cfg : FileConfig) (maxRequests : Nat) (st : FileVars) : Prop where
  count : st.reqPerformed ≤ maxRequests
  file : st.fsyncedFile < cfg.numFiles
  series : st.fsyncedFile ≠ 0 → st.reqPerformed < maxRequests →
    due cfg.fsyncFreq.toNat st.reqPerformed st.isDirty = true
  file2 : st.reqPerformed < maxRequests → st.fsyncedFile2 = 0

variable {numFiles j : Nat} {st : FileVars}

theorem fsyncsFrom_cons (h : j < numFiles) :
    fsyncsFrom numFiles j = .fsync j :: fsyncsFrom numFiles (j + 1) := by
  unfold fsyncsFrom
  rw [show numFiles - j = numFiles - (j + 1) + 1 by omega, List.range'_succ, List.map_cons]

theorem fsyncsFrom_nil (h : numFiles ≤ j) : fsyncsFrom numFiles j = [] := by
  unfold fsyncsFrom
  rw [Nat.sub_eq_zero_of_le h]
  rfl

theorem endSeries_step (st : FileVars) :
    kind (endRequest cfg true st).1 = (endSeries cfg st.fsyncedFile2).headD .null ∧
      endSeries cfg (endRequest cfg true st).2.fsyncedFile2 =
        (endSeries cfg st.fsyncedFile2).tail := by
  unfold endRequest endSeries
  cases cfg.fsyncEnd with
  | false => exact ⟨rfl, rfl⟩
  | true =>
    by_cases hfile : st.fsyncedFile2 < cfg.numFiles
    · rw [if_pos (by simpa using hfile), if_pos rfl, if_pos rfl, fsyncsFrom_cons hfile]
      exact ⟨rfl, rfl⟩
    · rw [if_neg (by simpa using hfile), if_pos rfl, fsyncsFrom_nil (Nat.not_lt.mp hfile)]
      exact ⟨rfl, rfl⟩

theorem upcoming_eq_schedule (hfile : st.fsyncedFile = 0)
    (hfile2 : st.fsyncedFile2 = 0) (ws : List Bool) : upcoming cfg st ws =
      schedule cfg.numFiles cfg.fsyncFreq.toNat st.reqPerformed st.isDirty ws ++
        endSeries cfg 0 := by
  cases ws with
  | nil => rw [upcoming, hfile2]; rfl
  | cons w ws => rw [upcoming, hfile, schedule, List.append_assoc, List.cons_append]

theorem upcoming_nextFsync (hok : VarsOk cfg maxRequests st)
    (hdue : due cfg.fsyncFreq.toNat st.reqPerformed st.isDirty = true) (w : Bool)
    (ws : List Bool) :
    upcoming cfg st (w :: ws) =
      kind (nextFsync cfg st).1 :: upcoming cfg (nextFsync cfg st).2 (w :: ws) := by
  unfold nextFsync upcoming
  rw [if_pos hdue, fsyncsFrom_cons hok.file]
  dsimp only
  split_ifs with hlast hno
  · exact absurd hno (by simp [due])
  · rw [fsyncsFrom_nil (le_of_eq hlast.symm), hdue]
    simp [kind, fsyncRequest]
  · rfl

theorem varsOk_nextFsync (hok : VarsOk cfg maxRequests st)
    (hdue : due cfg.fsyncFreq.toNat st.reqPerformed st.isDirty = true) :
    VarsOk cfg maxRequests (nextFsync cfg st).2 := by
  have hfile := hok.file
  unfold nextFsync
  dsimp only
  split_ifs with hlast
  · exact ⟨hok.count, Nat.zero_lt_of_lt hfile, fun hne => absurd rfl hne, hok.file2⟩
  · exact ⟨hok.count, by dsimp only; omega, fun _ _ => hdue, hok.file2⟩

theorem varsOk_endRequest (hok : VarsOk cfg maxRequests st)
    (hend : maxRequests ≤ st.reqPerformed) : VarsOk cfg maxRequests (endRequest cfg true st).2 := by
  unfold endRequest
  split_ifs
  · exact ⟨hok.count, hok.file, hok.series, fun hlt => absurd hlt (Nat.not_lt.mpr hend)⟩
  · exact hok

theorem take_append_replicate (l : List Handed) (n : Nat) :
    (l ++ List.replicate (n + 1) Handed.null).take (n + 1) =
      l.headD .null :: (l.tail ++ List.replicate n Handed.null).take n := by
  cases l with
  | nil => simp [List.replicate_succ]
  | cons x l =>
    rw [List.cons_append, List.take_succ_cons, List.replicate_succ', ← List.append_assoc,
      List.take_append_of_le_length (by simp)]
    rfl

theorem calls_upcoming {T : Type} (hw : Writes cfg) (hfreq : 0 ≤ cfg.fsyncFreq)
    (hdiv : NeverDivides cfg) (hpos : 0 < maxRequests) (hlim : maxRequests < 2 ^ 32) :
    ∀ (is : List (T × RndInput)) (st : FileVars), VarsOk cfg maxRequests st →
      ∃ ws : List Bool, ws.length = maxRequests - st.reqPerformed ∧
        (calls cfg maxRequests st is).map (fun c => kind c.2) =
          (upcoming cfg st ws ++ List.replicate is.length Handed.null).take is.length := by
  intro is
  induction is with
  | nil => intro st _; exact ⟨List.replicate _ true, List.length_replicate, rfl⟩
  | cons i is ih =>
    intro st hok
    obtain ⟨res, hcall, hspec⟩ := @fileGetRequest_spec cfg maxRequests hw hfreq hdiv i.2 st
    have hcons : (calls cfg maxRequests st (i :: is)).map (fun c => kind c.2) =
        kind res.1 :: (calls cfg maxRequests res.2 is).map fun c => kind c.2 := by
      rw [calls, hcall]
      rfl
    rw [hcons, List.length_cons]
    simp only [take_append_replicate]
    cases hspec with
    -- all requests are performed: what is left are the fsyncs at the end
    | finish hend =>
      have hz : maxRequests - st.reqPerformed = 0 := by omega
      obtain ⟨ws, hws, hrest⟩ := ih _ (varsOk_endRequest hok hend.2)
      obtain ⟨hkind, htail⟩ := @endSeries_step cfg st
      have hcount : (endRequest cfg true st).2.reqPerformed = st.reqPerformed := by
        unfold endRequest
        split_ifs <;> rfl
      rw [hcount, hz, List.length_eq_zero_iff] at hws
      subst hws
      refine ⟨[], hz.symm, ?_⟩
      rw [hrest, hkind]
      exact congrArg (_ :: ·) (by rw [upcoming, upcoming, htail])
    -- an fsync of a series leaves the requests that are still to come
    | series hrun hdue =>
      have hlt : st.reqPerformed < maxRequests := by omega
      obtain ⟨ws, hws, hrest⟩ := ih _ (varsOk_nextFsync hok hdue)
      have hcount : (nextFsync cfg st).2.reqPerformed = st.reqPerformed := by
        unfold nextFsync
        dsimp only
        split_ifs <;> rfl
      rw [hcount] at hws
      obtain ⟨w, ws, rfl⟩ := List.exists_cons_of_length_pos (show 0 < ws.length by omega)
      refine ⟨w :: ws, hws, ?_⟩
      rw [hrest, upcoming_nextFsync hok hdue]
      rfl
    | @data hrun hdue w r st' hkind hstep =>
      have hlt : st.reqPerformed < maxRequests := by omega
      have hcount : st'.reqPerformed = st.reqPerformed + 1 := by
        rw [hstep.reqPerformed, Nat.mod_eq_of_lt (by omega)]
      -- a data request is handed out only between two series
      have hfile : st.fsyncedFile = 0 := by
        by_contra hne
        rw [hok.series hne hlt] at hdue
        exact absurd hdue Bool.noConfusion
      have hfile' : st'.fsyncedFile = 0 := hstep.fsyncedFile.trans hfile
      have hfile2' : st'.fsyncedFile2 = 0 := hstep.fsyncedFile2.trans (hok.file2 hlt)
      have hok' : VarsOk cfg maxRequests st' := by
        refine ⟨by omega, ?_, fun hne => absurd hfile' hne, fun _ => hfile2'⟩
        rw [hfile', ← hfile]
        exact hok.file
      obtain ⟨ws, hws, hrest⟩ := ih st' hok'
      refine ⟨w :: ws, by rw [List.length_cons]; omega, ?_⟩
      rw [hrest, hkind, upcoming_eq_schedule hfile' hfile2', hcount, hstep.isDirty, upcoming, hdue]
      simp

end Run

/-! ## How many -/

theorem countP_fsyncsFrom (numFiles j : Nat) : (fsyncsFrom numFiles j).countP Handed.isData = 0 := by
  refine List.countP_eq_zero.mpr fun h hmem => ?_
  obtain ⟨i, -, rfl⟩ := List.mem_map.mp hmem
  exact Bool.false_ne_true

theorem length_fsyncsFrom (numFiles : Nat) : (fsyncsFrom numFiles 0).length = numFiles := by
  rw [fsyncsFrom, List.length_map, List.length_range', Nat.sub_zero]

theorem countP_schedule (numFiles freq : Nat) : ∀ (ws : List Bool) (k : Nat) (dirty : Bool),
    (schedule numFiles freq k dirty ws).countP Handed.isData = ws.length ∧
      (schedule numFiles freq k dirty ws).length ≤ ws.length * (numFiles + 1) := by
  intro ws
  induction ws with
  | nil => intro _ _; exact ⟨rfl, Nat.zero_le _⟩
  | cons w ws ih =>
    intro k dirty
    obtain ⟨hcount, hlen⟩ := ih (k + 1) (dirty && !due freq k dirty || w)
    have hseries : (if due freq k dirty then fsyncsFrom numFiles 0 else []).countP Handed.isData = 0 ∧
        (if due freq k dirty then fsyncsFrom numFiles 0 else []).length ≤ numFiles := by
      split_ifs
      · exact ⟨countP_fsyncsFrom _ _, le_of_eq (length_fsyncsFrom _)⟩
      · exact ⟨rfl, Nat.zero_le _⟩
    rw [schedule, List.countP_append, List.countP_cons, List.length_append, List.length_cons,
      List.length_cons, Nat.succ_mul]
    refine ⟨?_, by omega⟩
    rw [hcount, hseries.1, Handed.isData, if_pos rfl, Nat.zero_add]

theorem countP_complete (cfg : FileConfig) (ws : List Bool) :
    (complete cfg ws).countP Handed.isData = ws.length ∧
      (complete cfg ws).length ≤ (ws.length + 1) * (cfg.numFiles + 1) := by
  obtain ⟨hcount, hlen⟩ := countP_schedule cfg.numFiles cfg.fsyncFreq.toNat ws 0 false
  have hend : (endSeries cfg 0).countP Handed.isData = 0 ∧
      (endSeries cfg 0).length ≤ cfg.numFiles := by
    unfold endSeries
    split_ifs
    · exact ⟨countP_fsyncsFrom _ _, le_of_eq (length_fsyncsFrom _)⟩
    · exact ⟨rfl, Nat.zero_le _⟩
  rw [complete, List.countP_append, List.length_append, Nat.succ_mul, hcount]
  exact ⟨by omega, by omega⟩

theorem scheduled_of_neverDivides {T : Type} {cfg : FileConfig} {maxRequests : Nat}
    (hnum : 1 ≤ cfg.numFiles) (hmax : 0 < maxRequests) (hlim : maxRequests < 2 ^ 32)
    (hfreq : 0 ≤ cfg.fsyncFreq) (hw : Writes cfg) (hdiv : NeverDivides cfg) (is : List (T × RndInput)) :
    Scheduled cfg maxRequests is := by
  have hok : VarsOk cfg maxRequests initVars :=
    ⟨Nat.zero_le _, hnum, fun hne => absurd rfl hne, fun _ => rfl⟩
  obtain ⟨ws, hlen, heq⟩ := calls_upcoming hw hfreq hdiv hmax hlim is initVars hok
  rw [upcoming_eq_schedule rfl rfl] at heq
  refine ⟨⟨ws, hlen, heq⟩, fun hlong => ?_⟩
  have hlen' : ws.length = maxRequests := hlen
  obtain ⟨hcount, hle⟩ := countP_complete cfg ws
  rw [hlen'] at hcount hle
  have htake : (complete cfg ws ++ List.replicate is.length Handed.null).take is.length =
      complete cfg ws ++ (List.replicate is.length Handed.null).take
        (is.length - (complete cfg ws).length) := by
    rw [List.take_append, List.take_of_length_le (by omega)]
  rw [heq]
  refine (congrArg _ htake).trans ?_
  rw [List.countP_append, hcount, List.take_replicate, List.countP_replicate]
  rfl

theorem calls_trap {T : Type} {cfg : FileConfig} {maxRequests : Nat} (hmax : 0 < maxRequests)
    (hw : Writes cfg) (hdiv : ¬NeverDivides cfg) (t : T) (i : RndInput) :
    calls cfg maxRequests initVars [(t, i)] = [] := by
  simp only [NeverDivides, not_or, ne_eq, not_not] at hdiv
  obtain ⟨hwrite, hrewrite, hsize⟩ := hdiv
  have hnone : fileGetRequest cfg maxRequests i initVars = none := by
    unfold fileGetRequest
    rcases hw with h | h | h | h
    · exact absurd h hwrite
    · exact absurd h hrewrite
    all_goals
      rw [h]
      simp [fileGetRndRequest, initVars, hsize, Nat.ne_of_gt hmax]
  rw [calls, hnone]

/-- **The schedule of a test that writes.** All sequences of calls of all threads, on all random
numbers, get what is scheduled if and only if the test is sequential or its files have a byte. A
random position is divided by the size of a file. -/
theorem requests_scheduled_iff {T : Type} [Nonempty T] (cfg : FileConfig) (maxRequests : BitVec 32)
    (hnum : 1 ≤ cfg.numFiles) (hmax : 0 < maxRequests.toNat) (hfreq : 0 ≤ cfg.fsyncFreq)
    (hw : Writes cfg) :
    (∀ is : List (T × RndInput), Scheduled cfg maxRequests.toNat is) ↔
      cfg.testMode = .write ∨ cfg.testMode = .rewrite ∨ cfg.fileSize ≠ 0 := by
  constructor
  · intro h
    by_contra hdiv
    obtain ⟨t⟩ := ‹Nonempty T›
    obtain ⟨⟨ws, -, heq⟩, -⟩ := h [(t, ⟨false, 0⟩)]
    -- the call gets nothing, where the schedule or a request of type null was due
    rw [calls_trap hmax hw hdiv] at heq
    have hlen := congrArg List.length heq
    simp at hlen
  · intro hdiv is
    exact scheduled_of_neverDivides hnum hmax maxRequests.isLt hfreq hw hdiv is

def fsyncConfig : FileConfig :=
  ⟨2, 64, 32, .rndRw, .sync, 0, 16, 16, .normal, 2, true, false, .all, 3 / 2⟩

/-- Only the first request is a write, so that nothing is due after the fourth. -/
theorem requests_scheduled_five :
    Writes fsyncConfig ∧
    ((calls fsyncConfig 5 initVars ([false, true, true, true, true, true, true, true, true, true,
        true, true].map fun b => ((), ⟨b, 0⟩))).map fun c => kind c.2) =
      [.data true, .data false, .fsync 0, .fsync 1, .data false, .data false, .data false, .fsync 0,
        .fsync 1, .null, .null, .null] ∧
    ∀ is : List (Unit × RndInput), Scheduled fsyncConfig 5 is :=
  ⟨Or.inr (Or.inr (Or.inr rfl)), by decide,
    (requests_scheduled_iff fsyncConfig 5 (by decide) (by decide) (by decide)
      (Or.inr (Or.inr (Or.inr rfl)))).mpr (by decide)⟩

def emptyFilesArgs : FileArgs :=
  ⟨128, 100, some "rndwr", some "sync", 0, 16384, some "", 0, true, false, "fsync", 3 / 2, ""⟩

def emptyFilesConfig : FileConfig :=
  ⟨128, 100, 0, .rndWrite, .sync, 0, 16384, 16384, .normal, 0, true, false, .all, 3 / 2⟩

/-- The settings are accepted, and the first request for data ends the process. -/
theorem empty_files_trap :
    parseArguments ⟨true, true, true⟩ true emptyFilesArgs = .ok emptyFilesConfig ∧
      fileGetRequest emptyFilesConfig 10000 ⟨false, 0⟩ initVars = none ∧
      ¬Scheduled emptyFilesConfig 10000 [((), ⟨false, 0⟩)] := by
  refine ⟨by decide +kernel, rfl, ?_⟩
  rintro ⟨⟨ws, -, heq⟩, -⟩
  have hlen := congrArg List.length heq
  rw [calls_trap (by decide) (.inr (.inr (.inl rfl))) (by simp [NeverDivides, emptyFilesConfig])] at hlen
  simp at hlen

end MysqlBench.Sysbench
