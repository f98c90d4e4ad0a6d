import MysqlBench.Fio.Net.Fragment

/-!
# Sending an I/O log to a client

`fio_send_iolog` sends a header (`struct cmd_iolog_pdu`) and then all samples as one more fragment,
whatever their size, and it never sets `log_offset` of the header. So the client gets the log if and
only if the samples fit a fragment and what was on the stack at that place happens to be the setting
of the log (`iolog_intact_iff`).
-/

namespace MysqlBench.Fio

open MysqlBench.Lib

/-! ## The server -/

structure IoSample where
  time : BitVec 64
  val : BitVec 64
  ddir : BitVec 32
  bs : BitVec 32
  offset : Option (BitVec 64)
deriving Repr, DecidableEq

structure IoLog where
  logType : BitVec 32
  logOffset : BitVec 32
  samples : List IoSample
  /-- the samples are counted by a `uint64_t` -/
  length_lt : samples.length < 2 ^ 64
  /-- `log_offset` says which of the two structures is stored -/
  layout : ∀ s ∈ samples, s.offset.isSome = decide (logOffset ≠ 0)

def logEntrySz (logOffset : BitVec 32) : Nat := if logOffset ≠ 0 then 32 else 24

def IoSample.bytes (s : IoSample) : List Byte :=
  leBytes 8 s.time.toNat ++ (leBytes 8 s.val.toNat ++ (leBytes 4 s.ddir.toNat ++
    (leBytes 4 s.bs.toNat ++
      match s.offset with
      | some off => leBytes 8 off.toNat
      | none => [])))

def nameBytes (name : List Byte) : List Byte :=
  (name ++ List.replicate 255 0).take 255 ++ [0]

def iologPdu (log : IoLog) (threadNumber stack : BitVec 32) (name : List Byte) : List Byte :=
  leBytes 8 log.samples.length ++ (leBytes 4 threadNumber.toNat ++ (leBytes 4 log.logType.toNat ++
    (leBytes 4 0 ++ (leBytes 4 stack.toNat ++ nameBytes name))))

section Crc

variable (crc16 : List Byte → BitVec 16)

def cmdIolog : BitVec 16 := 17#16

def sendCmdExtPdu (opcode : BitVec 16) (buf : List Byte) (tag : BitVec 64) (flags : BitVec 32) :
    List Byte :=
  (netCmdCrcPdu crc16 { initNetCmd opcode buf.length tag with flags := flags } buf).bytes ++ buf

def IoLog.bytes (log : IoLog) : List Byte := log.samples.flatMap IoSample.bytes

def sendIolog (log : IoLog) (threadNumber stack : BitVec 32) (name : List Byte) : List Byte :=
  sendCmdExtPdu crc16 cmdIolog (iologPdu log threadNumber stack name) 0 cmdFMore ++
    sendCmdExtPdu crc16 cmdIolog log.bytes 0 0

end Crc

/-! ## The client -/

inductive ConvertFail
  /-- the path with compressed samples -/
  | compressed
  | outOfBounds
deriving Repr, DecidableEq

structure ClientLog where
  nrSamples : BitVec 64
  threadNumber : BitVec 32
  logType : BitVec 32
  logOffset : BitVec 32
  samples : List IoSample
deriving Repr, DecidableEq

def IoSample.ofBytes (mem : List Byte) (a : Nat) (logOffset : BitVec 32) : IoSample where
  time := BitVec.ofNat 64 (leField mem a 8)
  val := BitVec.ofNat 64 (leField mem (a + 8) 8)
  ddir := BitVec.ofNat 32 (leField mem (a + 16) 4)
  bs := BitVec.ofNat 32 (leField mem (a + 20) 4)
  offset := if logOffset ≠ 0 then some (BitVec.ofNat 64 (leField mem (a + 24) 8)) else none

def convertSamples (mem : List Byte) (logOffset : BitVec 32) :
    Nat → Nat → Except ConvertFail (List IoSample)
  | 0, _ => .ok []
  | n + 1, a =>
      if mem.length < a + logEntrySz logOffset then .error .outOfBounds
      else
        match convertSamples mem logOffset n (a + logEntrySz logOffset) with
        | .error e => .error e
        | .ok samples => .ok (IoSample.ofBytes mem a logOffset :: samples)

def convertIolog (mem : List Byte) : Except ConvertFail ClientLog :=
  if mem.length < 280 then .error .outOfBounds
  else if leField mem 16 4 ≠ 0 then .error .compressed
  else
    let nrSamples := BitVec.ofNat 64 (leField mem 0 8)
    let logOffset := BitVec.ofNat 32 (leField mem 20 4)
    match convertSamples mem logOffset nrSamples.toNat 280 with
    | .error e => .error e
    | .ok samples => .ok ⟨nrSamples, BitVec.ofNat 32 (leField mem 8 4),
        BitVec.ofNat 32 (leField mem 12 4), logOffset, samples⟩

/-! ## Fragments of any size -/

section Crc

variable {crc16 : List Byte → BitVec 16}

theorem sendCmdExtPdu_eq (opcode : BitVec 16) (buf : List Byte) (tag : BitVec 64) (more : Bool) :
    sendCmdExtPdu crc16 opcode buf tag (if more then cmdFMore else 0) =
      sendFragment crc16 opcode tag buf more := by
  rw [sendFragment_eq]
  rfl

theorem sendFragment_wrap {opcode : BitVec 16} {tag : BitVec 64} (buf : List Byte) (more : Bool) :
    sendFragment crc16 opcode tag buf more =
      sendFragment crc16 opcode tag (buf.take (buf.length % 2 ^ 32)) more ++
        buf.drop (buf.length % 2 ^ 32) := by
  generalize hr : buf.length % 2 ^ 32 = r
  have hle : r ≤ buf.length := hr ▸ Nat.mod_le _ _
  have hlen : (buf.take r).length = r := by rw [List.length_take]; omega
  have hpdu : BitVec.ofNat 32 (buf.take r).length = BitVec.ofNat 32 buf.length := by
    refine BitVec.eq_of_toNat_eq ?_
    rw [BitVec.toNat_ofNat, BitVec.toNat_ofNat, hlen, ← hr, Nat.mod_mod]
  have hhead : fragmentHeader crc16 opcode tag (buf.take r) more =
      fragmentHeader crc16 opcode tag buf more := by
    unfold fragmentHeader initNetCmd netCmdCrcPdu
    rw [hpdu]
    dsimp only
    rw [BitVec.toNat_ofNat, hr, List.take_take, Nat.min_self]
  rw [sendFragment_eq, sendFragment_eq, hhead, List.append_assoc, List.take_append_drop]

theorem recvFragment_too_large {opcode : BitVec 16} {tag : BitVec 64} {buf : List Byte} {more : Bool}
    (cmdret : Option CmdRet) (rest : List Byte) (sched : List RecvEv)
    (h : maxFragmentPdu < buf.length % 2 ^ 32) :
    recvFragment crc16 cmdret ⟨sendFragment crc16 opcode tag buf more ++ rest, sched⟩ =
      .error .payloadTooLarge := by
  obtain ⟨sched1, hhead⟩ :=
    recvData_append sched (fragmentHeader crc16 opcode tag buf more).bytes (buf ++ rest)
  rw [length_bytes] at hhead
  unfold recvFragment
  rw [sendFragment_eq, List.append_assoc, hhead]
  dsimp only
  have hlen : (fragmentHeader crc16 opcode tag buf more).pduLen.toNat = buf.length % 2 ^ 32 :=
    BitVec.toNat_ofNat _ _
  rw [verifyConvertCmd_bytes, hlen, if_pos h]

/-! ## Receiving a log -/

section Recv

variable (host : Endian) (extra : Byte) (log : IoLog) (threadNumber stack : BitVec 32)
  (name rest : List Byte) (sched : List RecvEv)

@[simp] theorem length_iologPdu : (iologPdu log threadNumber stack name).length = 280 := by
  have hname : (nameBytes name).length = 256 := by
    rw [nameBytes, List.length_append, List.length_take, List.length_append, List.length_replicate,
      List.length_singleton]
    omega
  simp [iologPdu, hname]

theorem recvLoop_sendIolog (fuel : Nat) : ∃ r sched', Collects cmdIolog 0 r ∧
    r.payload = iologPdu log threadNumber stack name ∧
    recvLoop crc16 (fuel + 2) none
        ⟨sendIolog crc16 log threadNumber stack name ++ rest, sched⟩ =
      recvLoop crc16 (fuel + 1) (some r)
        ⟨sendFragment crc16 cmdIolog 0 log.bytes false ++ rest, sched'⟩ := by
  have hlen := length_iologPdu log threadNumber stack name
  obtain ⟨r, sched1, hfrag, hcol, hpay⟩ := @recvFragment_sendFragment crc16 cmdIolog 0 none
    (iologPdu log threadNumber stack name) true
    (sendFragment crc16 cmdIolog 0 log.bytes false ++ rest) sched
    (fun r hr => absurd hr (by simp)) (by rw [hlen]; decide)
    (fun _ hnil => by rw [hnil] at hlen; exact absurd hlen (by decide))
    (by rw [hlen]; decide)
  have hsend : sendIolog crc16 log threadNumber stack name ++ rest =
      sendFragment crc16 cmdIolog 0 (iologPdu log threadNumber stack name) true ++
        (sendFragment crc16 cmdIolog 0 log.bytes false ++ rest) := by
    rw [← List.append_assoc, ← sendCmdExtPdu_eq, ← sendCmdExtPdu_eq]
    rfl
  refine ⟨r, sched1, hcol, hpay, ?_⟩
  rw [recvLoop, hsend, hfrag]
  rfl

theorem recvLoop_fuel : ∃ fuel,
    (sendIolog crc16 log threadNumber stack name ++ rest).length + 1 = fuel + 2 := by
  refine ⟨(sendIolog crc16 log threadNumber stack name ++ rest).length - 1, ?_⟩
  have : 280 ≤ (sendIolog crc16 log threadNumber stack name ++ rest).length := by
    rw [sendIolog, sendCmdExtPdu, List.length_append, List.length_append, List.length_append,
      length_iologPdu]
    omega
  omega

theorem netRecvCmd_sendIolog_large (h : maxFragmentPdu < log.bytes.length % 2 ^ 32) :
    netRecvCmd crc16 host extra ⟨sendIolog crc16 log threadNumber stack name ++ rest, sched⟩ =
      .error .payloadTooLarge := by
  obtain ⟨fuel, hfuel⟩ := @recvLoop_fuel crc16 log threadNumber stack name rest
  obtain ⟨r, sched1, -, -, hloop⟩ :=
    @recvLoop_sendIolog crc16 log threadNumber stack name rest sched fuel
  unfold netRecvCmd
  dsimp only
  rw [hfuel, hloop, recvLoop, recvFragment_too_large _ _ _ h]

theorem netRecvCmd_sendIolog {n : Nat} (hn : log.bytes.length % 2 ^ 32 = n)
    (h : n ≤ maxFragmentPdu) : ∃ cmd sk,
      netRecvCmd crc16 host extra ⟨sendIolog crc16 log threadNumber stack name ++ rest, sched⟩ =
        .ok (cmd, iologPdu log threadNumber stack name ++ log.bytes.take n ++ [extra], sk) := by
  -- the description of the log comes first, in a fragment of its own
  obtain ⟨fuel, hfuel⟩ := @recvLoop_fuel crc16 log threadNumber stack name rest
  obtain ⟨r, sched1, hcol, hpay, hloop⟩ :=
    @recvLoop_sendIolog crc16 log threadNumber stack name rest sched fuel
  have hlen : (log.bytes.take n).length = n := by
    rw [List.length_take, ← hn]
    exact Nat.min_eq_left (Nat.mod_le _ _)
  have hcollected : (collected (some r)).length = 280 := by
    rw [collected, Option.map_some, Option.getD_some, hpay, length_iologPdu]
  obtain ⟨r', sched2, hfrag, hcol', hpay'⟩ := @recvFragment_sendFragment crc16 cmdIolog 0 (some r)
    (log.bytes.take n) false (log.bytes.drop n ++ rest) sched1
    (fun r' hr => Option.some.inj hr ▸ hcol) (by omega) (fun hm => absurd hm (by simp))
    (by
      unfold WithinLimit maxCmdMb
      unfold maxFragmentPdu at h
      omega)
  -- the length of the samples is sent modulo `2 ^ 32`
  have hwrap := @sendFragment_wrap crc16 cmdIolog 0 log.bytes false
  rw [hn] at hwrap
  have hterm : terminate host r' extra = .ok (r'.payload ++ [extra]) := by
    unfold terminate
    rw [hcol'.opcode]
    dsimp only
    rw [if_neg (show cmdIolog ≠ cmdText by decide), if_neg (show cmdIolog ≠ cmdJob by decide),
      ite_self]
  unfold netRecvCmd
  dsimp only
  rw [hfuel, hloop, recvLoop, hwrap, List.append_assoc, hfrag]
  dsimp only
  rw [if_neg (by simp)]
  dsimp only
  rw [hterm, hpay', collected, Option.map_some, Option.getD_some, hpay]
  exact ⟨_, _, rfl⟩

end Recv

end Crc

/-! ## Converting a log -/

variable {s : IoSample} {logOffset : BitVec 32}

theorem iologPdu_fields (log : IoLog) (threadNumber stack : BitVec 32) (name tail : List Byte) :
    leField (iologPdu log threadNumber stack name ++ tail) 0 8 = log.samples.length ∧
    leField (iologPdu log threadNumber stack name ++ tail) 8 4 = threadNumber.toNat ∧
    leField (iologPdu log threadNumber stack name ++ tail) 12 4 = log.logType.toNat ∧
    leField (iologPdu log threadNumber stack name ++ tail) 16 4 = 0 ∧
    leField (iologPdu log threadNumber stack name ++ tail) 20 4 = stack.toNat := by
  have h1 : log.samples.length < 256 ^ 8 := lt_of_lt_of_eq log.length_lt (by decide)
  unfold iologPdu
  simp only [List.append_assoc]
  refine ⟨leField_leBytes_append h1, ?_, ?_, ?_, ?_⟩
  · simp [leField_append_right, leField_toNat]
  · simp [leField_append_right, leField_toNat]
  · simp [leField_append_right, leField_leBytes_append]
  · simp [leField_append_right, leField_toNat]

theorem length_ioSample
    (h : s.offset.isSome = decide (logOffset ≠ 0)) : s.bytes.length = logEntrySz logOffset := by
  unfold IoSample.bytes logEntrySz
  cases hoff : s.offset with
  | none =>
    rw [hoff] at h
    rw [if_neg (by simpa using h.symm)]
    simp
  | some off =>
    rw [hoff] at h
    rw [if_pos (by simpa using h.symm)]
    simp

theorem ofBytes_ioSample
    (h : s.offset.isSome = decide (logOffset ≠ 0)) (pre post : List Byte) :
    IoSample.ofBytes (pre ++ (s.bytes ++ post)) pre.length logOffset = s := by
  obtain ⟨time, val, ddir, bs, offset⟩ := s
  unfold IoSample.ofBytes IoSample.bytes
  cases offset with
  | none =>
    rw [if_neg (by simpa using h.symm)]
    simp [leField_append_right, leField_toNat]
  | some off =>
    rw [if_pos (by simpa using h.symm)]
    simp [leField_append_right, leField_toNat]

theorem convertSamples_flatMap (post : List Byte) :
    ∀ (samples : List IoSample) (pre : List Byte),
      (∀ s ∈ samples, s.offset.isSome = decide (logOffset ≠ 0)) →
      convertSamples (pre ++ (samples.flatMap IoSample.bytes ++ post)) logOffset samples.length
        pre.length = .ok samples := by
  intro samples
  induction samples with
  | nil => intro pre _; rfl
  | cons s samples ih =>
    intro pre hall
    have hs := hall s List.mem_cons_self
    have hlen := length_ioSample hs
    have hrest := ih (pre ++ s.bytes) fun t ht => hall t (List.mem_cons_of_mem _ ht)
    rw [List.length_append, hlen] at hrest
    rw [List.flatMap_cons, List.append_assoc, List.length_cons, convertSamples,
      if_neg (by simp only [List.length_append]; omega), ← List.append_assoc pre, hrest,
      List.append_assoc pre]
    dsimp only
    rw [ofBytes_ioSample hs]

theorem convertSamples_le {mem : List Byte} :
    ∀ (n a : Nat) (samples : List IoSample), convertSamples mem logOffset n a = .ok samples →
      n ≠ 0 → a + n * logEntrySz logOffset ≤ mem.length := by
  intro n
  induction n with
  | zero => intro a samples _ hn; exact absurd rfl hn
  | succ n ih =>
    intro a samples hconv _
    rw [convertSamples] at hconv
    split at hconv
    · exact absurd hconv (by simp)
    · rename_i hle
      split at hconv
      · exact absurd hconv (by simp)
      · rename_i samples' hrest
        rw [Nat.succ_mul]
        by_cases hn : n = 0
        · subst hn
          omega
        · have := ih _ _ hrest hn
          omega

theorem length_flatMap_samples : ∀ (samples : List IoSample),
    (∀ s ∈ samples, s.offset.isSome = decide (logOffset ≠ 0)) →
    (samples.flatMap IoSample.bytes).length = samples.length * logEntrySz logOffset := by
  intro samples
  induction samples with
  | nil => intro _; simp
  | cons s samples ih =>
    intro hall
    rw [List.flatMap_cons, List.length_append, List.length_cons, Nat.succ_mul,
      ih (fun t ht => hall t (List.mem_cons_of_mem _ ht)),
      length_ioSample (hall s List.mem_cons_self), Nat.add_comm]

theorem length_ioLog (log : IoLog) :
    log.bytes.length = log.samples.length * logEntrySz log.logOffset :=
  length_flatMap_samples log.samples log.layout

theorem convertIolog_eq (log : IoLog) (threadNumber stack : BitVec 32) (name tail : List Byte) :
    convertIolog (iologPdu log threadNumber stack name ++ tail) =
      match convertSamples (iologPdu log threadNumber stack name ++ tail) stack log.samples.length
        280 with
      | .error e => .error e
      | .ok samples => .ok ⟨BitVec.ofNat 64 log.samples.length, threadNumber, log.logType, stack,
          samples⟩ := by
  obtain ⟨h1, h2, h3, h4, h5⟩ := iologPdu_fields log threadNumber stack name tail
  have hnr : (BitVec.ofNat 64 log.samples.length).toNat = log.samples.length :=
    (BitVec.toNat_ofNat _ _).trans (Nat.mod_eq_of_lt log.length_lt)
  unfold convertIolog
  rw [if_neg (by rw [List.length_append, length_iologPdu]; omega), h4, if_neg (by simp)]
  dsimp only
  rw [h1, h2, h3, h5, hnr]
  simp only [BitVec.ofNat_toNat, BitVec.setWidth_eq]

/-- The client gets the log: the stream is accepted, and converted to the same number of samples, log
type, thread number, `log_offset` and samples. -/
def IologIntact (crc16 : List Byte → BitVec 16) (host : Endian) (extra : Byte) (log : IoLog)
    (threadNumber stack : BitVec 32) (name rest : List Byte) (sched : List RecvEv) : Prop :=
  ∃ cmd mem sk client,
    netRecvCmd crc16 host extra ⟨sendIolog crc16 log threadNumber stack name ++ rest, sched⟩ =
      .ok (cmd, mem, sk) ∧
    convertIolog mem = .ok client ∧ client.nrSamples.toNat = log.samples.length ∧
    client.logType = log.logType ∧ client.threadNumber = threadNumber ∧
    client.logOffset = log.logOffset ∧ client.samples = log.samples

/-- A log arrives intact if and only if its samples fit one fragment and the stack holds the setting
of `log_offset`: all samples are sent in one fragment, which the receiver refuses if it is too long,
and the member is never assigned. -/
theorem iolog_intact_iff (crc16 : List Byte → BitVec 16) (host : Endian) (extra : Byte) (log : IoLog)
    (threadNumber stack : BitVec 32) (name rest : List Byte) (sched : List RecvEv) :
    IologIntact crc16 host extra log threadNumber stack name rest sched ↔
      log.samples.length * logEntrySz log.logOffset ≤ maxFragmentPdu ∧ stack = log.logOffset := by
  have hlen := length_ioLog log
  generalize hn : log.bytes.length % 2 ^ 32 = n
  constructor
  · rintro ⟨cmd, mem, sk, client, hrecv, hconv, -, -, -, hoff, -⟩
    -- a longer fragment is refused
    have hle : n ≤ maxFragmentPdu := by
      by_contra hgt
      rw [netRecvCmd_sendIolog_large _ _ _ _ _ _ _ _ (by rw [hn]; omega)] at hrecv
      exact absurd hrecv (by simp)
    obtain ⟨cmd', sk', hrecv'⟩ :=
      @netRecvCmd_sendIolog crc16 host extra log threadNumber stack name rest sched n hn hle
    rw [hrecv', Except.ok.injEq, Prod.mk.injEq, Prod.mk.injEq] at hrecv
    obtain ⟨-, rfl, -⟩ := hrecv
    rw [List.append_assoc, convertIolog_eq] at hconv
    split at hconv
    · exact absurd hconv (by simp)
    · rename_i samples hsamples
      rw [Except.ok.injEq] at hconv
      have hstack : stack = log.logOffset := by rw [← hoff, ← hconv]
      refine ⟨?_, hstack⟩
      by_cases hzero : log.samples.length = 0
      · rw [hzero, Nat.zero_mul]
        exact Nat.zero_le _
      · -- all samples lie within the memory that was received
        have hread := convertSamples_le _ _ _ hsamples hzero
        rw [hstack, ← hlen, List.length_append, length_iologPdu, List.length_append,
          List.length_take, List.length_singleton] at hread
        rw [← hlen]
        omega
  · rintro ⟨hfit, rfl⟩
    rw [← hlen] at hfit
    have hall : n = log.bytes.length := by
      unfold maxFragmentPdu at hfit
      omega
    obtain ⟨cmd, sk, hrecv⟩ := @netRecvCmd_sendIolog crc16 host extra log threadNumber log.logOffset
      name rest sched n hn (by omega)
    have hconv := convertSamples_flatMap [extra] log.samples
      (iologPdu log threadNumber log.logOffset name) log.layout
    rw [length_iologPdu] at hconv
    refine ⟨cmd, _, sk, ⟨BitVec.ofNat 64 log.samples.length, threadNumber, log.logType, log.logOffset,
      log.samples⟩, hrecv, ?_, (BitVec.toNat_ofNat _ _).trans (Nat.mod_eq_of_lt log.length_lt),
      rfl, rfl, rfl, rfl⟩
    rw [hall, List.take_length, List.append_assoc, convertIolog_eq]
    unfold IoLog.bytes
    rw [hconv]

def log43 : IoLog :=
  ⟨1, 0, List.replicate 43 ⟨0, 0, 0, 0, none⟩, by decide, by
    intro s hs
    rw [List.eq_of_mem_replicate hs]
    decide⟩

/-- It does not arrive, even if `log_offset` happens to be right. -/
theorem iolog_43_lost : ¬ IologIntact (fun _ => 0) .little 0 log43 1 log43.logOffset [] [] [] := by
  rintro ⟨cmd, mem, sk, client, hrecv, -⟩
  have hlen : log43.bytes.length = 1032 := length_ioLog log43
  rw [netRecvCmd_sendIolog_large _ _ _ _ _ _ _ _ (by rw [hlen]; decide)] at hrecv
  exact absurd hrecv (by simp)

end MysqlBench.Fio
