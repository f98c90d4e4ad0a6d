import MysqlBench.Sysbench.Pgsql.Prepare

/-!
# The values of a server-side statement

Parameters are bound by address, and `pgsql_drv_execute` looks at what the addresses hold when it is
called. It copies each value into a buffer of the statement; the buffers live from one execution to the
next, and PostgreSQL gets their addresses.

The code means to skip parameters that are null, but it tests the pointer `is_null` and not what it
points to. So a parameter with such a pointer is never copied, and no parameter is ever passed as null
(`pgsql_values_iff`).
-/

namespace MysqlBench.Sysbench

open Lib

/-! ## Statements -/

def maxParamLength : Nat := 256

structure PgParam where
  buffer : Nat
  isNull : Option Nat

structure CallerMem where
  values : Nat → DbValue
  flags : Nat → Bool

structure PgStmt where
  query : List Char
  nparams : Nat
  prepared : Bool
  pvalues : List (List Char)
  boundParam : List PgParam
  prepares : List (List Char)

/-- The end of `pgsql_drv_prepare`: a statement without parameters is prepared at once. -/
def PgStmt.new (query : List Char) (nparams : Nat) : PgStmt :=
  if nparams = 0 then ⟨query, nparams, true, [], [], [query]⟩ else ⟨query, nparams, false, [], [], []⟩

/-- `pgsql_drv_bind_param`: the first call prepares the statement and allocates buffers, which hold
whatever they hold. -/
def pgsqlDrvBindParam (fresh : Nat → List Char) (st : PgStmt) (params : List PgParam) : PgStmt :=
  let st := { st with boundParam := params }
  if st.prepared = true ∨ st.nparams ≠ params.length then st
  else
    { st with prepares := st.query :: st.prepares, pvalues := (List.range params.length).map fresh,
              prepared := true }

def strncpy (dst s : List Char) (n : Nat) : List Char :=
  writeAt dst 0 ((s ++ List.replicate (n - s.length) '\x00').take n)

def loadParam (mem : CallerMem) (p : PgParam) (buf : List Char) : List Char :=
  if p.isNull.isSome then buf
  else
    match mem.values p.buffer with
    | .char s | .varchar s => strncpy buf s.val maxParamLength
    | v => writeAt buf 0 (dbPrintValue ⟨v, false⟩ maxParamLength).2

def pgsqlDrvExecute (st : PgStmt) (mem : CallerMem) : PgStmt :=
  { st with pvalues := List.zipWith (loadParam mem) st.boundParam st.pvalues }

def passedValues (st : PgStmt) (mem : CallerMem) : List (Option (List Char)) :=
  (pgsqlDrvExecute st mem).pvalues.map fun buf => some (cString buf)

/-! ## What should be passed -/

def DbValue.text : DbValue → Option (List Char)
  | .char s | .varchar s => some s.val
  | v => (DbBind.mk v false).printed

/-- A null pointer for a parameter whose flag is set, and the text of its value otherwise. -/
def ParamRight (mem : CallerMem) (p : PgParam) (passed : Option (List Char)) : Prop :=
  if p.isNull.any mem.flags then passed = none
  else ∀ text, (mem.values p.buffer).text = some text → passed = some text

/-- The parameter has no pointer to a flag, and its text fits; or its flag is not set, and the buffer
happens to have the text. -/
def ParamSent (mem : CallerMem) (p : PgParam) (buf : List Char) : Prop :=
  match p.isNull with
  | none => ∀ text, (mem.values p.buffer).text = some text → text.length < maxParamLength
  | some flag => mem.flags flag = false ∧
    ∀ text, (mem.values p.buffer).text = some text → cString buf = text

/-- The values are printed without zeros, and strings are shorter than the buffers. -/
structure MemPlain (mem : CallerMem) : Prop where
  noZero : ∀ a text, (mem.values a).text = some text → '\x00' ∉ text
  char : ∀ a s, mem.values a = .char s → s.val.length < maxParamLength
  varchar : ∀ a s, mem.values a = .varchar s → s.val.length < maxParamLength

section Params

variable {mem : CallerMem} {p : PgParam}

theorem cString_writeAt_zero {text : List Char} (hzero : '\x00' ∉ text) (buf rest : List Char) :
    cString (writeAt buf 0 (text ++ '\x00' :: rest)) = text := by
  rw [writeAt, List.take_zero, List.nil_append, List.append_assoc, List.cons_append, cString,
    takeWhile_append_stop (fun c hc => ?_) (by decide)]
  exact decide_eq_true fun heq => hzero (heq ▸ hc)

theorem cString_strncpy {s : List Char} {n : Nat} (hlt : s.length < n) (hzero : '\x00' ∉ s)
    (buf : List Char) : cString (strncpy buf s n) = s := by
  obtain ⟨m, rfl⟩ := Nat.exists_eq_add_of_lt hlt
  have htext : (s ++ List.replicate (s.length + m + 1 - s.length) '\x00').take (s.length + m + 1) =
      s ++ '\x00' :: List.replicate m '\x00' := by
    rw [show s.length + m + 1 - s.length = m + 1 by omega, List.replicate_succ]
    apply List.take_of_length_le
    simp
    omega
  rw [strncpy, htext, cString_writeAt_zero hzero]

theorem cString_printed {v : DbValue} {text : List Char} (hv : (DbBind.mk v false).printed = some text)
    (hzero : '\x00' ∉ text) (buf : List Char) :
    cString (writeAt buf 0 (dbPrintValue ⟨v, false⟩ maxParamLength).2) = text ↔
      text.length < maxParamLength := by
  have hwritten : (dbPrintValue ⟨v, false⟩ maxParamLength).2 = text.take 255 ++ ['\x00'] := by
    unfold dbPrintValue
    rw [hv]
    rfl
  have htake : '\x00' ∉ text.take 255 := fun h => hzero (List.mem_of_mem_take h)
  rw [hwritten, cString_writeAt_zero htake, List.take_eq_self_iff]
  unfold maxParamLength
  omega

theorem cString_loadParam_string {s : CText} (hlt : s.val.length < maxParamLength) (buf : List Char) :
    (∀ text, some s.val = some text → cString (strncpy buf s.val maxParamLength) = text) ↔
      ∀ text, some s.val = some text → text.length < maxParamLength := by
  have hcopy := cString_strncpy hlt s.property buf
  constructor
  · intro _ text heq
    rwa [← Option.some.inj heq]
  · intro _ text heq
    rw [hcopy, Option.some.inj heq]

theorem paramRight_iff (hmem : MemPlain mem) (p : PgParam) (buf : List Char) :
    ParamRight mem p (some (cString (loadParam mem p buf))) ↔ ParamSent mem p buf := by
  unfold ParamRight ParamSent loadParam
  cases hnull : p.isNull with
  | some flag => cases hflag : mem.flags flag <;> simp [hflag]
  | none =>
    simp only [Option.any_none, Bool.false_eq_true, if_false, Option.isSome_none, Option.some.injEq]
    have hprinted : ∀ text, (DbBind.mk (mem.values p.buffer) false).printed = some text → '\x00' ∉ text →
        (cString (writeAt buf 0 (dbPrintValue ⟨mem.values p.buffer, false⟩ maxParamLength).2) = text ↔
          text.length < maxParamLength) := fun text hv hzero => cString_printed hv hzero buf
    have hzero := hmem.noZero p.buffer
    cases hv : mem.values p.buffer with
    | char s => exact cString_loadParam_string (hmem.char _ s hv) buf
    | varchar s => exact cString_loadParam_string (hmem.varchar _ s hv) buf
    | _ =>
      rw [hv] at hprinted hzero
      exact forall_congr' fun text => forall_congr' fun heq => hprinted text heq (hzero text heq)

end Params

/-! ## Runs -/

inductive PgCall
  | bind (params : List PgParam)
  | execute (mem : CallerMem)

def pgStep (fresh : Nat → List Char) (st : PgStmt) : PgCall → PgStmt
  | .bind params => pgsqlDrvBindParam fresh st params
  | .execute mem => pgsqlDrvExecute st mem

def PgCall.Fits (n : Nat) : PgCall → Prop
  | .bind params => params.length = n
  | .execute _ => True

/-- A statement for the query `query` with `n` parameters: once it is prepared there is a buffer for
each. -/
structure StmtOk (query : List Char) (n : Nat) (st : PgStmt) : Prop where
  query_eq : st.query = query
  nparams_eq : st.nparams = n
  prepares : ∀ text ∈ st.prepares, text = query
  buffers : st.prepared = true → st.pvalues.length = n ∧ st.boundParam.length = n

section Run

variable {query : List Char} {n : Nat} {fresh : Nat → List Char}

theorem stmtOk_new : StmtOk query n (.new query n) := by
  unfold PgStmt.new
  split_ifs with h
  · exact ⟨rfl, rfl, by simp, fun _ => ⟨h.symm, h.symm⟩⟩
  · exact ⟨rfl, rfl, by simp, by simp⟩

theorem StmtOk.step {st : PgStmt} (h : StmtOk query n st) {c : PgCall} (hc : c.Fits n) :
    StmtOk query n (pgStep fresh st c) := by
  obtain ⟨hquery, hn, hprep, hbuf⟩ := h
  cases c with
  | bind params =>
    have hlen : params.length = n := hc
    simp only [pgStep, pgsqlDrvBindParam]
    split_ifs with hcase
    · refine ⟨hquery, hn, hprep, fun hp => ⟨(hbuf hp).1, hlen⟩⟩
    · exact ⟨hquery, hn, by simpa [hquery] using hprep, fun _ => ⟨by simpa using hlen, hlen⟩⟩
  | execute mem =>
    refine ⟨hquery, hn, hprep, fun hp => ?_⟩
    obtain ⟨hv, hb⟩ := hbuf hp
    refine ⟨?_, hb⟩
    show (List.zipWith (loadParam mem) st.boundParam st.pvalues).length = n
    rw [List.length_zipWith, hv, hb, min_self]

theorem StmtOk.run {calls : List PgCall} (hcalls : ∀ c ∈ calls, c.Fits n) {st : PgStmt}
    (h : StmtOk query n st) : StmtOk query n (calls.foldl (pgStep fresh) st) := by
  induction calls generalizing st with
  | nil => exact h
  | cons c calls ih =>
    exact ih (fun c' hc' => hcalls c' (List.mem_cons_of_mem c hc')) (h.step (hcalls c List.mem_cons_self))

theorem forall₂_passedValues {R : PgParam → Option (List Char) → Prop} (mem : CallerMem)
    {params : List PgParam} {bufs : List (List Char)} (hlen : params.length = bufs.length) :
    List.Forall₂ R params ((List.zipWith (loadParam mem) params bufs).map fun buf => some (cString buf)) ↔
      List.Forall₂ (fun p buf => R p (some (cString (loadParam mem p buf)))) params bufs := by
  induction params generalizing bufs with
  | nil =>
    obtain rfl := List.length_eq_zero_iff.mp hlen.symm
    simp
  | cons p params ih =>
    cases bufs with
    | nil => simp at hlen
    | cons buf bufs =>
      rw [List.zipWith_cons_cons, List.map_cons, List.forall₂_cons, List.forall₂_cons,
        ih (Nat.succ.inj hlen)]

end Run

/-- **The values of server-side statements.** Of a statement that was prepared, after any calls with
as many parameters as placeholders: `PQprepare` gets the query with its question marks numbered; and
the next execution passes the right values exactly if for each parameter the pointer to a flag is
null and the text of its value fits the buffer, or the flag is not set and the buffer has that text
already. The code tests the pointer where it means the flag. -/
theorem pgsql_values_iff (query : CText) (fuel : Nat) (text : List Char) (n : Nat)
    (hprepare : pgsqlDrvPrepare fuel query = some (.stored text n true)) (fresh : Nat → List Char)
    (calls : List PgCall) (hcalls : ∀ c ∈ calls, c.Fits n)
    (hprepared : (calls.foldl (pgStep fresh) (.new text n)).prepared = true) (mem : CallerMem)
    (hmem : MemPlain mem) :
    (∀ sent ∈ (calls.foldl (pgStep fresh) (.new text n)).prepares, sent = numbered 1 query.val) ∧
    n = query.val.count '?' ∧
    (List.Forall₂ (ParamRight mem) (calls.foldl (pgStep fresh) (.new text n)).boundParam
        (passedValues (calls.foldl (pgStep fresh) (.new text n)) mem) ↔
      List.Forall₂ (ParamSent mem) (calls.foldl (pgStep fresh) (.new text n)).boundParam
        (calls.foldl (pgStep fresh) (.new text n)).pvalues) := by
  obtain ⟨rfl, rfl, -⟩ := (pgsqlDrvPrepare_stored query).2 fuel text n true hprepare
  have hok : StmtOk (numbered 1 query.val) (query.val.count '?')
    (calls.foldl (pgStep fresh) (.new (numbered 1 query.val) (query.val.count '?'))) := stmtOk_new.run hcalls
  generalize calls.foldl (pgStep fresh) (.new (numbered 1 query.val) (query.val.count '?')) = st at *
  obtain ⟨hv, hb⟩ := hok.buffers hprepared
  refine ⟨hok.prepares, rfl, ?_⟩
  rw [passedValues, pgsqlDrvExecute, forall₂_passedValues mem (hb.trans hv.symm)]
  simp only [paramRight_iff hmem]

def oneParam : CText := ⟨['?'], by decide⟩

def sevens : CallerMem := ⟨fun _ => .int 7#32, fun a => a = 1⟩

theorem sevens_plain : MemPlain sevens := by
  refine ⟨fun a text h => ?_, fun a s h => DbValue.noConfusion h, fun a s h => DbValue.noConfusion h⟩
  obtain rfl : ['7'] = text := Option.some.inj h
  decide

/-- The value of a parameter without a flag is passed. -/
theorem pgsql_value_passed :
    List.Forall₂ (ParamRight sevens) [⟨0, none⟩]
      (passedValues ([PgCall.bind [⟨0, none⟩]].foldl (pgStep fun _ => []) (.new ['$', '1'] 1)) sevens) := by
  refine (pgsql_values_iff oneParam 2 ['$', '1'] 1 (by decide) (fun _ => []) [.bind [⟨0, none⟩]]
    (by simp [PgCall.Fits]) rfl sevens sevens_plain).2.2.mpr ?_
  refine List.Forall₂.cons (fun text h => ?_) List.Forall₂.nil
  obtain rfl : ['7'] = text := Option.some.inj h
  decide

/-- With a flag that is not set, what is passed is not the value but the buffer as it was allocated; with
one that is set, it is the buffer, too, and not a null pointer. -/
theorem pgsql_flag_ignored :
    pgsqlDrvPrepare 2 oneParam = some (.stored ['$', '1'] 1 true) ∧
    (passedValues ([PgCall.bind [⟨0, some 0⟩]].foldl (pgStep fun _ => []) (.new ['$', '1'] 1)) sevens =
        [some []] ∧ ¬ParamRight sevens ⟨0, some 0⟩ (some [])) ∧
    (passedValues ([PgCall.bind [⟨0, some 1⟩]].foldl (pgStep fun _ => []) (.new ['$', '1'] 1)) sevens =
        [some []] ∧ ¬ParamRight sevens ⟨0, some 1⟩ (some [])) := by
  refine ⟨by decide, ⟨rfl, fun h => ?_⟩, ⟨rfl, fun h => ?_⟩⟩
  · exact absurd (h ['7'] rfl) (by decide)
  · exact absurd (show (some [] : Option (List Char)) = none from h) (by decide)

end MysqlBench.Sysbench
