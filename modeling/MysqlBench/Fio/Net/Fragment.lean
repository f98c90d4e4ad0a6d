import MysqlBench.Fio.Net.Model

/-!
# Fragmentation round trip

What `fio_net_send_cmd` sends, `fio_net_recv_cmd` returns, however `recv` cuts the stream
(`net_cmd_round_trip`). The argument is by fragments: a fragment is received as it was sent
(`recvFragment_sendFragment`), whatever has been received before it, and the loop on one side takes
the fragments in the order in which the loop on the other side sends them (`recvLoop_netSendCmd`).
-/

namespace MysqlBench.Fio

open MysqlBench.Lib

/-! ## Headers -/

@[simp] theorem length_bytes (cmd : NetCmd) : cmd.bytes.length = 24 := by simp [NetCmd.bytes, NetCmd.crcPart]

theorem toNat_lt_bytes {w : Nat} (x : BitVec w) {n : Nat} (h : w = 8 * n) :
    x.toNat < 256 ^ n := by
  subst h
  have hpow : 2 ^ (8 * n) = 256 ^ n := Nat.pow_mul 2 8 n
  exact lt_of_lt_of_eq x.isLt hpow

theorem leField_toNat {w : Nat} (x : BitVec w) {n : Nat} (b : List Byte) (h : w = 8 * n) :
    leField (leBytes n x.toNat ++ b) 0 n = x.toNat := leField_leBytes_append (toNat_lt_bytes x h)

theorem leField_toNat_last {w : Nat} (x : BitVec w) {n : Nat} (h : w = 8 * n) :
    leField (leBytes n x.toNat) 0 n = x.toNat := by
  rw [← List.append_nil (leBytes n x.toNat), leField_toNat x [] h]

theorem ofBytes_bytes (cmd : NetCmd) : NetCmd.ofBytes cmd.bytes = cmd := by
  obtain ⟨version, opcode, flags, tag, pduLen, cmdCrc16, pduCrc16⟩ := cmd
  unfold NetCmd.ofBytes NetCmd.bytes NetCmd.crcPart
  simp [leField_append_right, leField_toNat, leField_toNat_last]

/-! ## One `recv` after the other -/

theorem recvData_append : ∀ (sched : List RecvEv) (xs ys : List Byte),
    ∃ sched', recvData sched (xs ++ ys) xs.length = .ok (xs, ⟨ys, sched'⟩) := by
  intro sched
  induction sched with
  | nil =>
    intro xs ys
    exact ⟨[], by rw [recvData, if_pos (by simp), List.take_left, List.drop_left]⟩
  | cons ev sched ih =>
    intro xs ys
    cases ev with
    | again => exact ih xs ys
    | bytes k =>
      rw [recvData]
      generalize hn : min (max k 1) (min xs.length (xs ++ ys).length) = n
      have hle : n ≤ xs.length := by omega
      by_cases hall : n = xs.length
      · exact ⟨sched, by rw [if_pos hall, List.take_left, List.drop_left]⟩
      · rw [List.length_append] at hn
        rw [if_neg hall, if_neg (by omega)]
        -- the rest of `xs` is still to come
        obtain ⟨sched', hrest⟩ := ih (xs.drop n) ys
        rw [List.length_drop] at hrest
        rw [List.drop_append_of_le_length hle, List.take_append_of_le_length hle, hrest]
        exact ⟨sched', by dsimp only; rw [List.take_append_drop]⟩

/-! ## One fragment -/

section Crc

variable {crc16 : List Byte → BitVec 16} {opcode : BitVec 16} {tag : BitVec 64}

def fragmentHeader (crc16 : List Byte → BitVec 16) (opcode : BitVec 16) (tag : BitVec 64)
    (buf : List Byte) (more : Bool) : NetCmd :=
  netCmdCrcPdu crc16 { initNetCmd opcode buf.length tag with
    flags := if more then cmdFMore else 0 } buf

theorem sendFragment_eq (buf : List Byte) (more : Bool) : sendFragment crc16 opcode tag buf more =
    (fragmentHeader crc16 opcode tag buf more).bytes ++ buf := by
  cases more <;> rfl

theorem fragmentHeader_pduLen {buf : List Byte} (more : Bool) (h : buf.length ≤ maxFragmentPdu) :
    (fragmentHeader crc16 opcode tag buf more).pduLen.toNat = buf.length := by
  unfold maxFragmentPdu at h
  exact (BitVec.toNat_ofNat _ _).trans (Nat.mod_eq_of_lt (by omega))

theorem fragmentHeader_pduCrc16 {buf : List Byte} (more : Bool) (h : buf.length ≤ maxFragmentPdu) :
    (fragmentHeader crc16 opcode tag buf more).pduCrc16 = crc16 buf := by
  have hlen := @fragmentHeader_pduLen crc16 opcode tag buf more h
  exact congrArg crc16 (List.take_of_length_le (le_of_eq hlen.symm))

theorem verifyConvertCmd_bytes (buf : List Byte) (more : Bool) :
    verifyConvertCmd crc16 (fragmentHeader crc16 opcode tag buf more).bytes =
      if maxFragmentPdu < (fragmentHeader crc16 opcode tag buf more).pduLen.toNat then
        .error .payloadTooLarge
      else .ok (fragmentHeader crc16 opcode tag buf more) := by
  have hcrc : (fragmentHeader crc16 opcode tag buf more).bytes.take 20 =
      (fragmentHeader crc16 opcode tag buf more).crcPart := by
    exact List.take_left' (by simp [NetCmd.crcPart])
  have hok : crc16 (fragmentHeader crc16 opcode tag buf more).crcPart =
      (fragmentHeader crc16 opcode tag buf more).cmdCrc16 := rfl
  have hver : (fragmentHeader crc16 opcode tag buf more).version = serverVer := rfl
  unfold verifyConvertCmd
  dsimp only
  rw [ofBytes_bytes, hcrc, if_neg (not_not.mpr hok), if_neg (not_not.mpr hver)]

theorem verifyConvertCmd_header {buf : List Byte} (more : Bool) (h : buf.length ≤ maxFragmentPdu) :
    verifyConvertCmd crc16 (fragmentHeader crc16 opcode tag buf more).bytes =
      .ok (fragmentHeader crc16 opcode tag buf more) := by
  rw [verifyConvertCmd_bytes, fragmentHeader_pduLen more h, if_neg (by omega)]

structure Collects (opcode : BitVec 16) (tag : BitVec 64) (r : CmdRet) : Prop where
  opcode : r.cmd.opcode = opcode
  tag : r.cmd.tag = tag
  pduLen : r.cmd.pduLen.toNat = r.payload.length

def collected (cmdret : Option CmdRet) : List Byte := (cmdret.map CmdRet.payload).getD []

theorem nextCmdSize_eq (cmdret : Option CmdRet) (n : Nat) :
    nextCmdSize cmdret n = 25 + (collected cmdret).length + n := by
  cases cmdret with
  | none => rw [nextCmdSize, collected, Option.map_none, Option.getD_none, List.length_nil]; omega
  | some r => rw [nextCmdSize, collected, Option.map_some, Option.getD_some]; omega

def WithinLimit (n : Nat) : Prop := (24 + n + 1) / 1024 ≤ maxCmdMb * 1024

instance (n : Nat) : Decidable (WithinLimit n) := inferInstanceAs (Decidable (_ ≤ _))

theorem Collects.addFragment {cmdret : Option CmdRet} {buf : List Byte} {more : Bool}
    (h : ∀ r, cmdret = some r → Collects opcode tag r) (hbuf : buf.length ≤ maxFragmentPdu)
    (hlimit : WithinLimit ((collected cmdret).length + buf.length)) :
    Collects opcode tag (addFragment cmdret (fragmentHeader crc16 opcode tag buf more) buf) := by
  have hlen := @fragmentHeader_pduLen crc16 opcode tag buf more hbuf
  cases cmdret with
  | none => exact ⟨rfl, rfl, hlen⟩
  | some r =>
    obtain ⟨ho, ht, hp⟩ := h r rfl
    refine ⟨ho, ht, ?_⟩
    have hlimit : (24 + (r.payload.length + buf.length) + 1) / 1024 ≤ maxCmdMb * 1024 := hlimit
    unfold maxCmdMb at hlimit
    refine (BitVec.toNat_add _ _).trans ?_
    rw [hp, hlen, Nat.mod_eq_of_lt (by omega)]
    exact (List.length_append).symm

theorem collected_addFragment (cmdret : Option CmdRet) (cmd : NetCmd) (buf : List Byte) :
    (addFragment cmdret cmd buf).payload = collected cmdret ++ buf := by
  cases cmdret <;> rfl

theorem recvFragment_sendFragment {cmdret : Option CmdRet} {buf : List Byte} {more : Bool}
    (rest : List Byte) (sched : List RecvEv) (h : ∀ r, cmdret = some r → Collects opcode tag r)
    (hbuf : buf.length ≤ maxFragmentPdu) (hmore : more = true → buf ≠ [])
    (hlimit : WithinLimit ((collected cmdret).length + buf.length)) :
    ∃ r sched', recvFragment crc16 cmdret ⟨sendFragment crc16 opcode tag buf more ++ rest, sched⟩ =
        .ok (r, more, ⟨rest, sched'⟩) ∧
      Collects opcode tag r ∧ r.payload = collected cmdret ++ buf := by
  have hlen := @fragmentHeader_pduLen crc16 opcode tag buf more hbuf
  obtain ⟨sched1, hhead⟩ :=
    recvData_append sched (fragmentHeader crc16 opcode tag buf more).bytes (buf ++ rest)
  rw [length_bytes] at hhead
  have hcol := @Collects.addFragment crc16 opcode tag cmdret buf more h hbuf hlimit
  -- the fragments of one command have one opcode
  have hcmp : cmdret.any (fun r => r.cmd.opcode ≠
      (fragmentHeader crc16 opcode tag buf more).opcode) = false := by
    cases cmdret with
    | none => rfl
    | some r =>
      have ho : r.cmd.opcode = (fragmentHeader crc16 opcode tag buf more).opcode := (h r rfl).opcode
      simp [ho]
  unfold recvFragment
  rw [sendFragment_eq, List.append_assoc, hhead]
  dsimp only
  rw [verifyConvertCmd_header more hbuf]
  dsimp only
  rw [hlen, nextCmdSize_eq, if_neg (by unfold WithinLimit at hlimit; omega), hcmp,
    if_neg (by simp)]
  by_cases hnil : buf = []
  · -- no payload: the loop is left
    subst hnil
    have hzero : (fragmentHeader crc16 opcode tag [] more).pduLen = 0 := rfl
    have hno : more = false := by
      cases more with
      | false => rfl
      | true => exact absurd rfl (hmore rfl)
    rw [if_pos hzero, hno, List.append_nil]
    refine ⟨_, sched1, rfl, ?_⟩
    cases cmdret with
    | none => exact ⟨⟨rfl, rfl, rfl⟩, rfl⟩
    | some r => exact ⟨h r rfl, rfl⟩
  · have hpos : (fragmentHeader crc16 opcode tag buf more).pduLen ≠ 0 := by
      intro hz
      rw [hz] at hlen
      exact hnil (List.length_eq_zero_iff.mp hlen.symm)
    obtain ⟨sched2, hpdu⟩ := recvData_append sched1 buf rest
    rw [if_neg hpos, hpdu]
    dsimp only
    rw [fragmentHeader_pduCrc16 more hbuf, if_neg (not_not.mpr rfl)]
    refine ⟨_, sched2, ?_, hcol, collected_addFragment _ _ _⟩
    have hflag : decide ((fragmentHeader crc16 opcode tag buf more).flags &&& cmdFMore ≠ 0) =
        more := by
      cases more with
      | false => exact decide_eq_false (not_not.mpr (BitVec.zero_and))
      | true => exact decide_eq_true (show cmdFMore &&& cmdFMore ≠ 0 by decide)
    rw [hflag]

/-! ## The two loops -/

theorem netSendCmd_last {buf : List Byte} (h : buf.length ≤ maxFragmentPdu) :
    netSendCmd crc16 opcode tag buf = sendFragment crc16 opcode tag buf false := by
  have hmin : min buf.length maxFragmentPdu = buf.length := by omega
  rw [netSendCmd, hmin, if_neg (by omega), List.take_length, decide_eq_false (by omega)]

theorem netSendCmd_more {buf : List Byte} (h : maxFragmentPdu < buf.length) :
    netSendCmd crc16 opcode tag buf =
      sendFragment crc16 opcode tag (buf.take maxFragmentPdu) true ++
        netSendCmd crc16 opcode tag (buf.drop maxFragmentPdu) := by
  have hmin : min buf.length maxFragmentPdu = maxFragmentPdu := by omega
  rw [netSendCmd, hmin, if_pos h, decide_eq_true h]

theorem length_le_netSendCmd : ∀ (n : Nat) (buf : List Byte), buf.length = n →
    buf.length ≤ (netSendCmd crc16 opcode tag buf).length := by
  intro n
  induction n using Nat.strong_induction_on with
  | _ n ih =>
    intro buf hn
    by_cases hle : buf.length ≤ maxFragmentPdu
    · rw [netSendCmd_last hle, sendFragment_eq, List.length_append]
      omega
    · rw [netSendCmd_more (by omega), sendFragment_eq, List.length_append, List.length_append,
        List.length_take]
      unfold maxFragmentPdu at *
      have hrest := ih (buf.drop 1024).length (by rw [List.length_drop]; omega) _ rfl
      rw [List.length_drop] at hrest
      omega

theorem recvLoop_netSendCmd (rest : List Byte) : ∀ (fuel : Nat) (buf : List Byte)
    (cmdret : Option CmdRet) (sched : List RecvEv), buf.length < fuel →
    (∀ r, cmdret = some r → Collects opcode tag r) →
    WithinLimit ((collected cmdret).length + buf.length) →
    ∃ r sched', recvLoop crc16 fuel cmdret ⟨netSendCmd crc16 opcode tag buf ++ rest, sched⟩ =
        .ok (r, ⟨rest, sched'⟩) ∧
      Collects opcode tag r ∧ r.payload = collected cmdret ++ buf := by
  intro fuel
  induction fuel with
  | zero => intro buf _ _ h; omega
  | succ fuel ih =>
    intro buf cmdret sched hfuel h hlimit
    rw [recvLoop]
    -- the last fragment, or one of full size and then the rest
    by_cases hle : buf.length ≤ maxFragmentPdu
    · obtain ⟨r, sched1, hfrag, hcol, hpay⟩ := @recvFragment_sendFragment crc16 opcode tag cmdret
        buf false rest sched h hle (fun hm => absurd hm (by simp)) hlimit
      rw [netSendCmd_last hle, hfrag]
      exact ⟨r, sched1, rfl, hcol, hpay⟩
    · have htake : (buf.take maxFragmentPdu).length = maxFragmentPdu := by
        rw [List.length_take]
        omega
      have hne : buf.take maxFragmentPdu ≠ [] := by
        intro hnil
        rw [hnil] at htake
        exact absurd htake (by decide)
      unfold WithinLimit at hlimit
      obtain ⟨r, sched1, hfrag, hcol, hpay⟩ := @recvFragment_sendFragment crc16 opcode tag cmdret
        (buf.take maxFragmentPdu) true (netSendCmd crc16 opcode tag (buf.drop maxFragmentPdu) ++ rest)
        sched h (le_of_eq htake) (fun _ => hne) (by unfold WithinLimit; omega)
      have hpayLen := congrArg List.length hpay
      rw [List.length_append, htake] at hpayLen
      obtain ⟨r', sched2, hloop, hcol', hpay'⟩ := ih (buf.drop maxFragmentPdu) (some r) sched1
        (by rw [List.length_drop]; unfold maxFragmentPdu at *; omega)
        (fun r' hr => Option.some.inj hr ▸ hcol)
        (by
          unfold WithinLimit
          rw [collected, Option.map_some, Option.getD_some, List.length_drop]
          omega)
      rw [netSendCmd_more (by omega), List.append_assoc, hfrag]
      dsimp only
      rw [if_pos rfl]
      refine ⟨r', sched2, hloop, hcol', ?_⟩
      rw [hpay', collected, Option.map_some, Option.getD_some, hpay, List.append_assoc,
        List.take_append_drop]

/-! ## Commands -/

/-- The length that a text or a job gives for its text is true, as `fio_net_recv_cmd` reads it. -/
def TrueBufLen (host : Endian) (opcode : BitVec 16) (payload : List Byte) : Prop :=
  payload ≠ [] →
    (opcode = cmdText → 24 ≤ payload.length ∧
      24 + hostValue host ((payload.drop 4).take 4) = payload.length) ∧
    (opcode = cmdJob → 8 ≤ payload.length ∧
      8 + (BitVec.ofNat 32 (leField payload 0 4)).toInt = payload.length)

theorem writeNul_last (payload : List Byte) (extra : Byte) {i : Int} (h : i = payload.length) :
    writeNul (payload ++ [extra]) i = .ok (payload ++ [0]) := by
  subst h
  rw [writeNul, if_pos (by rw [List.length_append, List.length_singleton]; omega)]
  simp

theorem terminate_spec {host : Endian} {r : CmdRet} (extra : Byte)
    (hlen : r.cmd.pduLen.toNat = r.payload.length)
    (htrue : TrueBufLen host r.cmd.opcode r.payload) :
    ∃ extra', terminate host r extra = .ok (r.payload ++ [extra']) := by
  unfold terminate
  dsimp only
  by_cases hzero : r.cmd.pduLen = 0
  · exact ⟨extra, if_pos hzero⟩
  · have hne : r.payload ≠ [] := by
      intro hnil
      rw [hnil, List.length_nil] at hlen
      exact hzero (BitVec.eq_of_toNat_eq hlen)
    obtain ⟨htext, hjob⟩ := htrue hne
    rw [if_neg hzero]
    by_cases ho : r.cmd.opcode = cmdText
    · obtain ⟨hge, heq⟩ := htext ho
      refine ⟨0, ?_⟩
      rw [if_pos ho, if_neg (by rw [List.length_append]; omega), List.drop_append_of_le_length (by omega),
        List.take_append_of_le_length (by rw [List.length_drop]; omega)]
      exact writeNul_last _ _ (by omega)
    · rw [if_neg ho]
      by_cases ho' : r.cmd.opcode = cmdJob
      · obtain ⟨hge, heq⟩ := hjob ho'
        refine ⟨0, ?_⟩
        rw [if_pos ho', if_neg (by rw [List.length_append]; omega), leField, List.drop_zero,
          List.take_append_of_le_length (by omega)]
        exact writeNul_last _ _ heq
      · exact ⟨extra, if_neg ho'⟩

end Crc

/-- What is sent is received: the opcode, the tag, the payload and its length, with the flag of the
fragments cleared, and nothing of what follows on the stream. Nothing is asked of the checksum but
that both sides compute the same. -/
theorem net_cmd_round_trip (crc16 : List Byte → BitVec 16) (host : Endian) (extra : Byte)
    (opcode : BitVec 16) (tag : BitVec 64) (payload rest : List Byte) (sched : List RecvEv)
    (hlimit : WithinLimit payload.length) (htrue : TrueBufLen host opcode payload) :
    ∃ cmd extra' sched',
      netRecvCmd crc16 host extra ⟨netSendCmd crc16 opcode tag payload ++ rest, sched⟩ =
        .ok (cmd, payload ++ [extra'], ⟨rest, sched'⟩) ∧
      cmd.opcode = opcode ∧ cmd.tag = tag ∧ cmd.pduLen.toNat = payload.length ∧
      cmd.flags &&& cmdFMore = 0 := by
  have hfuel := @length_le_netSendCmd crc16 opcode tag _ payload rfl
  obtain ⟨r, sched', hloop, hcol, hpay⟩ := @recvLoop_netSendCmd crc16 opcode tag rest
    ((netSendCmd crc16 opcode tag payload ++ rest).length + 1) payload none sched
    (by rw [List.length_append]; omega) (fun r hr => absurd hr (by simp))
    (by rwa [collected, Option.map_none, Option.getD_none, List.length_nil, Nat.zero_add])
  have hpay : r.payload = payload := hpay
  obtain ⟨extra', hterm⟩ := @terminate_spec host r extra hcol.pduLen
    (by rw [hcol.opcode, hpay]; exact htrue)
  unfold netRecvCmd
  rw [hloop]
  dsimp only
  rw [hterm, hpay]
  refine ⟨_, extra', sched', rfl, hcol.opcode, hcol.tag, ?_, ?_⟩
  · rw [← hpay]
    exact hcol.pduLen
  · rw [BitVec.and_assoc, BitVec.and_comm (~~~cmdFMore)]
    simp

/-- A text of three bytes, cut up by the socket, with another command behind it. -/
theorem net_cmd_round_trip_text :
    let payload : List Byte := [0, 0, 0, 0, 3, 0, 0, 0] ++ List.replicate 16 0 ++ [65, 66, 67]
    let stream := netSendCmd (fun _ => 7) cmdText 9 payload ++ netSendCmd (fun _ => 7) 1 0 []
    WithinLimit payload.length ∧ TrueBufLen .little cmdText payload ∧
      ∃ cmd extra' sched',
        netRecvCmd (fun _ => 7) .little 255 ⟨stream, [.bytes 1, .again, .bytes 20, .bytes 2]⟩ =
          .ok (cmd, payload ++ [extra'], ⟨netSendCmd (fun _ => 7) 1 0 [], sched'⟩) ∧
        cmd.opcode = cmdText ∧ cmd.tag = 9 ∧ cmd.pduLen.toNat = payload.length ∧
        cmd.flags &&& cmdFMore = 0 := by
  intro payload stream
  have hlimit : WithinLimit payload.length := by decide
  have htrue : TrueBufLen .little cmdText payload := fun _ =>
    ⟨fun _ => by decide, fun h => absurd h (by decide)⟩
  exact ⟨hlimit, htrue, net_cmd_round_trip _ _ _ _ _ _ _ _ hlimit htrue⟩

end MysqlBench.Fio
