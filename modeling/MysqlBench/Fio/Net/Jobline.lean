import MysqlBench.Fio.Net.Fragment

/-!
# Forwarding a command line

`send_client_cmd_line` puts the arguments one behind another, each with its length in front, and
`handle_jobline_cmd` walks over them by these lengths. The lengths have 16 bits, and a longer argument
is stored whole but counted modulo `2 ^ 16`: the next one is written into it. What the server then
reads is `readArgs`, the argument up to that place, and from there the length and the text of the
next one. This is the argument itself only if it was the last, or if it happens to end in just these
bytes (`command_line_round_trip_iff`).
-/

namespace MysqlBench.Fio

open MysqlBench.Lib

/-! ## The client -/

def argLen (arg : List Byte) : Nat := (arg.length + 1) % 2 ^ 32

def argLen16 (arg : List Byte) : Nat := argLen arg % 2 ^ 16

def lineMem (argv : List (List Byte)) : Nat :=
  (argv.map argLen).sum + (4 + argv.length * 2)

def putArgs (mem : Nat) : List (List Byte) → Nat → Mem → Option Mem
  | [], _, pdu => some pdu
  | arg :: argv, offset, pdu =>
      if offset + 2 + (arg.length + 1) ≤ mem then
        let pdu := store pdu (offset + 2) (arg ++ [0#8])
        let pdu := storeLE pdu offset 2 (argLen16 arg)
        putArgs mem argv (offset + (2 + argLen16 arg)) pdu
      else none

def sendClientCmdLine (argv : List (List Byte)) (clientType : Nat) (fill : Mem) :
    Option (List Byte) :=
  (putArgs (lineMem argv) argv 4 fill).map fun pdu =>
    load (storeLE (storeLE pdu 0 2 argv.length) 2 2 clientType) 0 (lineMem argv)

/-! ## The server -/

def cText : List Byte → Option (List Byte)
  | [] => none
  | b :: bs => if b = 0 then some [] else (cText bs).map (b :: ·)

def getArgs (payload : List Byte) : Nat → Nat → Option (List (List Byte))
  | 0, _ => some []
  | lines + 1, offset =>
      if offset + 2 ≤ payload.length then
        (cText (payload.drop (offset + 2))).bind fun text =>
          (getArgs payload lines (offset + (2 + leField payload offset 2))).map (text :: ·)
      else none

def handleJoblineCmd (payload : List Byte) : Option (List (List Byte)) :=
  if 4 ≤ payload.length then getArgs payload (leField payload 0 2) 4 else none

/-! ## What arrives -/

def readLen (len : Nat) (text : List Byte) : List Byte :=
  match leBytes 2 len with
  | [lo, hi] => if lo = 0 then [] else if hi = 0 then [lo] else lo :: hi :: text
  | _ => []

def readArgs : List (List Byte) → List (List Byte)
  | [] => []
  | [arg] => [arg]
  | arg :: next :: argv =>
      let rest := readArgs (next :: argv)
      (if arg.length + 1 < 2 ^ 16 then arg
        else arg.take (argLen16 arg) ++ readLen (argLen16 next) (rest.headD [])) :: rest

def ArgsFit (mem : Nat) : List (List Byte) → Nat → Prop
  | [], _ => True
  | arg :: argv, offset => offset + 2 + (arg.length + 1) ≤ mem ∧
      ArgsFit mem argv (offset + (2 + argLen16 arg))

def Chained : List (List Byte) → Prop
  | [] => True
  | [_] => True
  | arg :: next :: argv =>
      (arg.length + 1 < 2 ^ 16 ∨
        arg.drop (argLen16 arg) = leBytes 2 (argLen16 next) ++ next) ∧ Chained (next :: argv)

/-! ## Strings -/

def Clean (text : List Byte) : Prop := ∀ b ∈ text, b ≠ 0#8

theorem cText_append {text : List Byte} (h : Clean text) (bs : List Byte) :
    cText (text ++ bs) = (cText bs).map (text ++ ·) := by
  induction text with
  | nil => simp
  | cons b text ih =>
    have hb : b ≠ 0 := h b List.mem_cons_self
    rw [List.cons_append, cText, if_neg hb, ih fun b hb => h b (List.mem_cons_of_mem _ hb),
      Option.map_map]
    rfl

theorem cText_nul {text : List Byte} (h : Clean text) (bs : List Byte) :
    cText (text ++ [0#8] ++ bs) = some text := by
  rw [List.append_assoc, cText_append h]
  show some (text ++ []) = some text
  rw [List.append_nil]

theorem leBytes_two (len : Nat) :
    leBytes 2 len = [BitVec.ofNat 8 len, BitVec.ofNat 8 (len / 256)] := rfl

theorem cText_leBytes {bs text : List Byte} (len : Nat) (h : cText bs = some text) :
    cText (leBytes 2 len ++ bs) = some (readLen len text) := by
  rw [readLen, leBytes_two]
  generalize BitVec.ofNat 8 len = lo
  generalize BitVec.ofNat 8 (len / 256) = hi
  show cText (lo :: hi :: bs) = some (if lo = 0 then [] else if hi = 0 then [lo] else lo :: hi :: text)
  rw [cText]
  by_cases hlo : lo = 0
  · rw [if_pos hlo, if_pos hlo]
  · rw [if_neg hlo, if_neg hlo, cText]
    by_cases hhi : hi = 0
    · rw [if_pos hhi, if_pos hhi]
      rfl
    · rw [if_neg hhi, if_neg hhi, h]
      rfl

/-! ## Writing -/

theorem argLen16_eq (arg : List Byte) : argLen16 arg = (arg.length + 1) % 2 ^ 16 := by
  unfold argLen16 argLen
  omega

theorem argLen16_lt (arg : List Byte) : argLen16 arg < 2 ^ 16 := Nat.mod_lt _ (by decide)

theorem putArgs_isSome : ∀ {mem : Nat} {argv : List (List Byte)} {offset : Nat} (pdu : Mem),
    (putArgs mem argv offset pdu).isSome ↔ ArgsFit mem argv offset := by
  intro mem argv
  induction argv with
  | nil => intro offset pdu; exact ⟨fun _ => trivial, fun _ => rfl⟩
  | cons arg argv ih =>
    intro offset pdu
    rw [putArgs, ArgsFit]
    by_cases h : offset + 2 + (arg.length + 1) ≤ mem
    · rw [if_pos h]
      exact (ih _).trans (and_iff_right h).symm
    · rw [if_neg h]
      exact ⟨fun hf => absurd hf (by simp), fun hf => absurd hf.1 h⟩

/-- Only an argument of `2 ^ 32 - 1` bytes or more, whose length wraps in `lens[i]`, can miss the `mem` bytes:
the other ones have their length counted in full, and are never moved behind their place. -/
theorem argsFit_of_short {argv : List (List Byte)} (hshort : ∀ arg ∈ argv, arg.length + 1 < 2 ^ 32) :
    ArgsFit (lineMem argv) argv 4 := by
  suffices ∀ mem offset, offset + (argv.map argLen).sum + argv.length * 2 ≤ mem → ArgsFit mem argv offset from
    this _ _ (by unfold lineMem; omega)
  induction argv with
  | nil => exact fun _ _ _ => trivial
  | cons arg argv ih =>
    intro mem offset hmem
    obtain ⟨harg, hargv⟩ := List.forall_mem_cons.mp hshort
    have hlen : argLen arg = arg.length + 1 := Nat.mod_eq_of_lt harg
    have hlen16 : argLen16 arg ≤ argLen arg := Nat.mod_le ..
    rw [List.map_cons, List.sum_cons, List.length_cons] at hmem
    exact ⟨by omega, ih hargv _ _ (by omega)⟩

theorem putArgs_below : ∀ {mem : Nat} {argv : List (List Byte)} {offset x : Nat} {pdu pdu' : Mem},
    putArgs mem argv offset pdu = some pdu' → x < offset → pdu' x = pdu x := by
  intro mem argv
  induction argv with
  | nil => intro offset x pdu pdu' h _; rw [← Option.some.inj h]
  | cons arg argv ih =>
    intro offset x pdu pdu' h hx
    rw [putArgs] at h
    split at h
    · rw [ih h (by omega), storeLE, store_of_not_mem (by omega), store_of_not_mem (by omega)]
    · cases h

structure FirstArg (mem : Nat) (arg : List Byte) (argv : List (List Byte)) (offset : Nat)
    (m pdu' : Mem) : Prop where
  fits : offset + 2 + (arg.length + 1) ≤ mem
  len : load m offset 2 = leBytes 2 (argLen16 arg)
  text : load m (offset + 2) (argLen16 arg) = (arg ++ [0#8]).take (argLen16 arg)
  last : argv = [] → load m (offset + 2) (arg.length + 1) = arg ++ [0#8]
  rest : ∃ pdu, putArgs mem argv (offset + (2 + argLen16 arg)) pdu = some pdu'

theorem putArgs_first {mem : Nat} {arg : List Byte} {argv : List (List Byte)} {offset : Nat}
    {pdu pdu' m : Mem} (h : putArgs mem (arg :: argv) offset pdu = some pdu')
    (hm : ∀ x, offset ≤ x → m x = pdu' x) : FirstArg mem arg argv offset m pdu' := by
  rw [putArgs] at h
  split at h
  · rename_i hfits
    dsimp only at h
    generalize hpdu₁ : storeLE (store pdu (offset + 2) (arg ++ [0#8])) offset 2 (argLen16 arg) = pdu₁
      at h
    have hle : argLen16 arg ≤ arg.length + 1 := by
      rw [argLen16_eq]
      exact Nat.mod_le _ _
    have hbelow : ∀ a k, offset ≤ a → a + k ≤ offset + (2 + argLen16 arg) →
        load m a k = load pdu₁ a k := by
      intro a k ha hk
      refine load_eq_iff.mpr fun j hj => ?_
      rw [hm (a + j) (by omega)]
      exact putArgs_below h (by omega)
    have htext : load pdu₁ (offset + 2) (arg.length + 1) = arg ++ [0#8] := by
      have hsame := load_store_same pdu (offset + 2) (arg ++ [0#8])
      rw [List.length_append, List.length_singleton] at hsame
      rw [← hpdu₁, storeLE, load_store_apart _ (by rw [length_leBytes]; unfold Apart; omega), hsame]
    have hlen : load pdu₁ offset 2 = leBytes 2 (argLen16 arg) := by
      have hsame := load_store_same (store pdu (offset + 2) (arg ++ [0#8])) offset
        (leBytes 2 (argLen16 arg))
      rw [length_leBytes] at hsame
      rw [← hpdu₁]
      exact hsame
    refine ⟨hfits, (hbelow _ _ (by omega) (by omega)).trans hlen, ?_, ?_, pdu₁, h⟩
    · rw [hbelow _ _ (by omega) (by omega), ← htext,
        show arg.length + 1 = argLen16 arg + (arg.length + 1 - argLen16 arg) by omega, load_add,
        List.take_left' (length_load _ _ _)]
    · rintro rfl
      rw [← htext]
      exact load_eq_iff.mpr fun j hj => (hm _ (by omega)).trans (by rw [Option.some.inj h])
  · cases h

/-! ## Reading -/

theorem leField_load (m : Mem) {offset k n : Nat} (h : offset + k ≤ n) :
    leField (load m 0 n) offset k = loadLE m offset k := by
  rw [leField, drop_load, Nat.zero_add, show n - offset = k + (n - offset - k) by omega, load_add,
    List.take_left' (length_load _ _ _)]
  rfl

theorem getArgs_head {payload text : List Byte} {lines offset : Nat} {argv : List (List Byte)}
    (h : getArgs payload (lines + 1) offset = some (text :: argv)) :
    offset + 2 ≤ payload.length ∧ cText (payload.drop (offset + 2)) = some text := by
  rw [getArgs] at h
  split at h
  · rename_i hle
    obtain ⟨text', htext, hrest⟩ := Option.bind_eq_some_iff.mp h
    obtain ⟨argv', -, hcons⟩ := Option.map_eq_some_iff.mp hrest
    rw [(List.cons.inj hcons).1] at htext
    exact ⟨hle, htext⟩
  · cases h

theorem getArgs_putArgs {mem : Nat} {m : Mem} : ∀ {argv : List (List Byte)} {offset : Nat}
    {pdu pdu' : Mem}, putArgs mem argv offset pdu = some pdu' → (∀ arg ∈ argv, Clean arg) →
    (∀ x, offset ≤ x → m x = pdu' x) →
    getArgs (load m 0 mem) argv.length offset = some (readArgs argv) := by
  intro argv
  induction argv with
  | nil => intro offset pdu pdu' _ _ _; rfl
  | cons arg argv ih =>
    intro offset pdu pdu' h hclean hm
    have hfirst := putArgs_first h hm
    obtain ⟨pdu₁, hrest⟩ := hfirst.rest
    have hargs := ih hrest (fun arg h => hclean arg (List.mem_cons_of_mem _ h))
      fun x hx => hm x (by omega)
    have harg : Clean arg := hclean arg List.mem_cons_self
    have hfits := hfirst.fits
    have hlen : leField (load m 0 mem) offset 2 = argLen16 arg := by
      rw [leField_load _ (by omega), loadLE, hfirst.len,
        leValue_leBytes_of_lt (argLen16_lt arg)]
    rw [List.length_cons, getArgs, if_pos (by rw [length_load]; omega), hlen, hargs, drop_load,
      Nat.zero_add]
    -- the text of the argument, which may run into the next one
    have htext : ∀ text : List Byte, cText (load m (offset + 2) (mem - (offset + 2))) = some text →
        readArgs (arg :: argv) = text :: readArgs argv →
        ((cText (load m (offset + 2) (mem - (offset + 2)))).bind fun text =>
          (some (readArgs argv)).map (text :: ·)) = some (readArgs (arg :: argv)) := by
      intro text h1 h2
      rw [h1, h2]
      rfl
    by_cases hshort : arg.length + 1 < 2 ^ 16
    · refine htext arg ?_ ?_
      · have hsame : argLen16 arg = arg.length + 1 := by
          rw [argLen16_eq, Nat.mod_eq_of_lt hshort]
        have ht := hfirst.text
        rw [hsame, List.take_of_length_le (by simp)] at ht
        rw [show mem - (offset + 2) = arg.length + 1 + (mem - (offset + 2) - (arg.length + 1)) by omega,
          load_add, ht, cText_nul harg]
      · cases argv with
        | nil => rfl
        | cons next argv =>
          rw [readArgs, if_pos hshort]
    · cases argv with
      | nil =>
        refine htext arg ?_ rfl
        rw [show mem - (offset + 2) = arg.length + 1 + (mem - (offset + 2) - (arg.length + 1)) by omega,
          load_add, hfirst.last rfl, cText_nul harg]
      | cons next argv =>
        refine htext (arg.take (argLen16 arg) ++
          readLen (argLen16 next) ((readArgs (next :: argv)).headD [])) ?_ ?_
        · have hlt := argLen16_lt arg
          have hnext := putArgs_first hrest fun x hx => hm x (by omega)
          have hfits' := hnext.fits
          obtain ⟨d, ds, hds⟩ : ∃ d ds, readArgs (next :: argv) = d :: ds := by
            cases argv <;> exact ⟨_, _, rfl⟩
          rw [hds] at hargs
          have hd := (getArgs_head hargs).2
          rw [drop_load, Nat.zero_add] at hd
          have ht := hfirst.text
          rw [List.take_append_of_le_length (by omega)] at ht
          have htake : Clean (arg.take (argLen16 arg)) := fun b hb => harg b (List.mem_of_mem_take hb)
          rw [show mem - (offset + 2) = argLen16 arg + (2 + (mem - (offset + (2 + argLen16 arg) + 2)))
              by omega, load_add, ht, cText_append htake, Nat.add_assoc, load_add, hnext.len,
            cText_leBytes _ hd, hds]
          rfl
        · rw [readArgs, if_neg hshort]

/-! ## The result -/

theorem readArgs_eq_iff : ∀ {argv : List (List Byte)}, (∀ arg ∈ argv, Clean arg) →
    (readArgs argv = argv ↔ Chained argv) := by
  intro argv
  induction argv with
  | nil => intro _; exact ⟨fun _ => trivial, fun _ => rfl⟩
  | cons arg argv ih =>
    intro hclean
    cases argv with
    | nil => exact ⟨fun _ => trivial, fun _ => rfl⟩
    | cons next argv =>
      have harg : Clean arg := hclean arg List.mem_cons_self
      have ih := ih fun arg h => hclean arg (List.mem_cons_of_mem _ h)
      rw [readArgs, Chained, List.cons_eq_cons, ih]
      refine and_congr_left fun hrest => ?_
      rw [ih.mpr hrest, List.headD_cons]
      by_cases hshort : arg.length + 1 < 2 ^ 16
      · rw [if_pos hshort]
        exact ⟨fun _ => .inl hshort, fun _ => rfl⟩
      · rw [if_neg hshort, or_iff_right hshort]
        have hlt := argLen16_lt arg
        have hlen : (arg.drop (argLen16 arg)).length = arg.length - argLen16 arg := List.length_drop
        have hmod := argLen16_eq arg
        have hsplit : arg.take (argLen16 arg) ++ readLen (argLen16 next) next = arg ↔
            readLen (argLen16 next) next = arg.drop (argLen16 arg) := by
          conv_lhs => rhs; rw [← List.take_append_drop (argLen16 arg) arg]
          exact List.append_cancel_left_eq _ _ _ |>.to_iff
        rw [hsplit, readLen, leBytes_two]
        generalize BitVec.ofNat 8 (argLen16 next) = lo
        generalize BitVec.ofNat 8 (argLen16 next / 256) = hi
        show (if lo = 0 then [] else if hi = 0 then [lo] else lo :: hi :: next) = _ ↔ _ = lo :: hi :: next
        constructor
        · intro h
          have hl := congrArg List.length h
          by_cases hlo : lo = 0
          · rw [if_pos hlo, hlen, List.length_nil] at hl
            omega
          · by_cases hhi : hi = 0
            · rw [if_neg hlo, if_pos hhi, hlen, List.length_singleton] at hl
              omega
            · rw [if_neg hlo, if_neg hhi] at h
              exact h.symm
        · intro h
          -- an argument has no NUL in it
          have hdrop : Clean (lo :: hi :: next) := h ▸ fun b hb => harg b (List.mem_of_mem_drop hb)
          have hlo : lo ≠ 0 := hdrop lo (by simp)
          have hhi : hi ≠ 0 := hdrop hi (by simp)
          rw [if_neg hlo, if_neg hhi, h]

def CommandLineArrives (argv : List (List Byte)) (clientType : Nat) (fill : Mem) : Prop :=
  (sendClientCmdLine argv clientType fill).bind handleJoblineCmd = some argv

theorem sendClientCmdLine_arrives (argv : List (List Byte)) (clientType : Nat) (fill : Mem)
    (hargc : argv.length < 65536) (hclean : ∀ arg ∈ argv, Clean arg)
    (hfit : ArgsFit (lineMem argv) argv 4) :
    (sendClientCmdLine argv clientType fill).bind handleJoblineCmd = some (readArgs argv) := by
  obtain ⟨pdu, hput⟩ := Option.isSome_iff_exists.mp ((putArgs_isSome fill).mpr hfit)
  rw [sendClientCmdLine, hput, Option.map_some, Option.bind_some]
  generalize hm : storeLE (storeLE pdu 0 2 argv.length) 2 2 clientType = m
  have hmem : 4 ≤ lineMem argv := by
    unfold lineMem
    omega
  -- the fields in front of the arguments
  have hbehind : ∀ x, 4 ≤ x → m x = pdu x := by
    intro x hx
    rw [← hm, storeLE, storeLE, store_of_not_mem (by rw [length_leBytes]; omega),
      store_of_not_mem (by rw [length_leBytes]; omega)]
  have hlines : leField (load m 0 (lineMem argv)) 0 2 = argv.length := by
    rw [leField_load _ (by omega), ← hm, loadLE_storeLE_apart _ _ (by unfold Apart; omega),
      loadLE_storeLE_same _ _ (by omega)]
  rw [handleJoblineCmd, if_pos (by rw [length_load]; exact hmem), hlines,
    getArgs_putArgs hput hclean hbehind]

/-- **When a command line arrives.** Every text has to end inside the memory that was allocated, and
an argument whose length does not fit 16 bits has to be the last, or to go on as the next record
does. -/
theorem command_line_round_trip_iff (argv : List (List Byte)) (clientType : Nat) (fill : Mem)
    (hargc : argv.length < 65536) (hclean : ∀ arg ∈ argv, Clean arg) :
    CommandLineArrives argv clientType fill ↔ ArgsFit (lineMem argv) argv 4 ∧ Chained argv := by
  unfold CommandLineArrives
  by_cases hfit : ArgsFit (lineMem argv) argv 4
  · rw [and_iff_right hfit, ← readArgs_eq_iff hclean,
      sendClientCmdLine_arrives argv clientType fill hargc hclean hfit]
    exact ⟨Option.some.inj, congrArg some⟩
  · have hnone : putArgs (lineMem argv) argv 4 fill = none := by
      rw [← putArgs_isSome fill] at hfit
      simpa using hfit
    rw [sendClientCmdLine, hnone]
    exact ⟨fun h => absurd h (by simp), fun h => absurd h.1 hfit⟩

/-- Two short arguments. -/
theorem command_line_round_trip_short :
    CommandLineArrives [[0x61#8, 0x62#8], []] 1 fun _ => 0xff#8 := by
  refine (command_line_round_trip_iff [[0x61#8, 0x62#8], []] 1 (fun _ => 0xff#8) (by decide) ?_).mpr
    ⟨argsFit_of_short (by decide), .inl (by decide), trivial⟩
  unfold Clean
  decide

/-- An argument of 65535 bytes, and another: the first one's length is counted as 0, and the second
one is written over its start. -/
theorem long_argument_overwritten :
    (sendClientCmdLine [List.replicate 65535 0x61#8, [0x62#8]] 1 fun _ => 0xff#8).bind handleJoblineCmd
        = some [[2#8], [0x62#8]] ∧
      ¬ CommandLineArrives [List.replicate 65535 0x61#8, [0x62#8]] 1 fun _ => 0xff#8 := by
  have hlong : argLen (List.replicate 65535 0x61#8) = 65536 := by
    rw [argLen, List.length_replicate]
    rfl
  have hlong16 : argLen16 (List.replicate 65535 0x61#8) = 0 := by
    rw [argLen16, hlong]
    rfl
  have harrives := sendClientCmdLine_arrives [List.replicate 65535 0x61#8, [0x62#8]]
    1 (fun _ => 0xff#8) (by decide) (by
      rw [List.forall_mem_cons]
      refine ⟨fun b hb => ?_, by unfold Clean; decide⟩
      rw [List.eq_of_mem_replicate hb]
      decide) (argsFit_of_short (by
      rw [List.forall_mem_cons, List.length_replicate]
      exact ⟨by decide, by decide⟩))
  have hread : readArgs [List.replicate 65535 0x61#8, [0x62#8]] = [[2#8], [0x62#8]] := by
    rw [readArgs, hlong16, List.length_replicate, if_neg (by decide), List.take_zero]
    rfl
  rw [hread] at harrives
  refine ⟨harrives, fun h => ?_⟩
  have hfirst := (List.cons.inj (Option.some.inj (harrives.symm.trans h))).1
  have hlen := congrArg List.length hfirst
  rw [List.length_replicate] at hlen
  exact absurd hlen (by decide)

end MysqlBench.Fio
