import MysqlBench.Lib.Wire

/-!
# `server.c` — commands on the wire

A command is a header of 24 bytes and a payload. `fio_net_send_cmd` cuts a payload into fragments of
at most 1024 bytes, each a command of its own with `FIO_NET_CMD_F_MORE` set on all but the last, and
`fio_net_recv_cmd` puts them together again. Every fragment carries two checksums, one of its header
and one of its payload; which function `fio_crc16` is does not matter here, so it is a parameter.

A socket is the bytes that are still to come and a schedule: what each call of `recv` returns. On a
schedule that has ended `recv` waits for all it was asked for, as `MSG_WAITALL` says.
-/

namespace MysqlBench.Fio

open MysqlBench.Lib

def serverVer : BitVec 16 := 35#16
def maxFragmentPdu : Nat := 1024
def maxCmdMb : Nat := 2048
def cmdJob : BitVec 16 := 3#16
def cmdText : BitVec 16 := 5#16
def cmdFMore : BitVec 32 := 1#32

/-! ## Headers -/

structure NetCmd where
  version : BitVec 16
  opcode : BitVec 16
  flags : BitVec 32
  tag : BitVec 64
  pduLen : BitVec 32
  cmdCrc16 : BitVec 16
  pduCrc16 : BitVec 16
deriving Repr, DecidableEq

def NetCmd.crcPart (cmd : NetCmd) : List Byte :=
  leBytes 2 cmd.version.toNat ++ (leBytes 2 cmd.opcode.toNat ++ (leBytes 4 cmd.flags.toNat ++
    (leBytes 8 cmd.tag.toNat ++ leBytes 4 cmd.pduLen.toNat)))

def NetCmd.bytes (cmd : NetCmd) : List Byte :=
  cmd.crcPart ++ (leBytes 2 cmd.cmdCrc16.toNat ++ leBytes 2 cmd.pduCrc16.toNat)

def NetCmd.ofBytes (bs : List Byte) : NetCmd where
  version := BitVec.ofNat 16 (leField bs 0 2)
  opcode := BitVec.ofNat 16 (leField bs 2 2)
  flags := BitVec.ofNat 32 (leField bs 4 4)
  tag := BitVec.ofNat 64 (leField bs 8 8)
  pduLen := BitVec.ofNat 32 (leField bs 16 4)
  cmdCrc16 := BitVec.ofNat 16 (leField bs 20 2)
  pduCrc16 := BitVec.ofNat 16 (leField bs 22 2)

def initNetCmd (opcode : BitVec 16) (pduLen : Nat) (tag : BitVec 64) : NetCmd :=
  ⟨serverVer, opcode, 0, tag, BitVec.ofNat 32 pduLen, 0, 0⟩

section Crc

variable (crc16 : List Byte → BitVec 16)

def netCmdCrcPdu (cmd : NetCmd) (pdu : List Byte) : NetCmd :=
  { cmd with cmdCrc16 := crc16 cmd.crcPart, pduCrc16 := crc16 (pdu.take cmd.pduLen.toNat) }

/-! ## Sending -/

def sendFragment (opcode : BitVec 16) (tag : BitVec 64) (buf : List Byte) (more : Bool) :
    List Byte :=
  let cmd := initNetCmd opcode buf.length tag
  let cmd := if more then { cmd with flags := cmdFMore } else cmd
  (netCmdCrcPdu crc16 cmd buf).bytes ++ buf

def netSendCmd (opcode : BitVec 16) (tag : BitVec 64) (buf : List Byte) : List Byte :=
  let thisLen := min buf.length maxFragmentPdu
  let frag := sendFragment crc16 opcode tag (buf.take thisLen) (thisLen < buf.length)
  if thisLen < buf.length then frag ++ netSendCmd opcode tag (buf.drop thisLen) else frag
termination_by buf.length
decreasing_by
  rw [List.length_drop]
  simp only [maxFragmentPdu] at *
  omega

/-! ## Receiving -/

inductive RecvEv
  | bytes (k : Nat)
  | again
deriving Repr, DecidableEq

structure Sock where
  data : List Byte
  sched : List RecvEv
deriving Repr, DecidableEq

inductive NetFail
  /-- the peer closed the connection -/
  | closed
  | badCmdCrc
  | badVersion
  | payloadTooLarge
  | cmdTooLarge
  | opcodeMismatch
  | badPduCrc
  /-- an access past the payload, or before it -/
  | outOfBounds
deriving Repr, DecidableEq

def recvData : List RecvEv → List Byte → Nat → Except NetFail (List Byte × Sock)
  | [], data, len =>
      if len ≤ data.length then .ok (data.take len, ⟨data.drop len, []⟩) else .error .closed
  | .again :: sched, data, len => recvData sched data len
  | .bytes k :: sched, data, len =>
      -- between one byte and all that is there or was asked for
      let n := min (max k 1) (min len data.length)
      if n = len then .ok (data.take len, ⟨data.drop len, sched⟩)
      else if n = 0 then .error .closed
      else
        match recvData sched (data.drop n) (len - n) with
        | .error e => .error e
        | .ok (bs, sk) => .ok (data.take n ++ bs, sk)

def verifyConvertCmd (bs : List Byte) : Except NetFail NetCmd :=
  let cmd := NetCmd.ofBytes bs
  if crc16 (bs.take 20) ≠ cmd.cmdCrc16 then .error .badCmdCrc
  else if cmd.version ≠ serverVer then .error .badVersion
  else if maxFragmentPdu < cmd.pduLen.toNat then .error .payloadTooLarge
  else .ok cmd

structure CmdRet where
  cmd : NetCmd
  payload : List Byte
deriving Repr, DecidableEq

def nextCmdSize (cmdret : Option CmdRet) (pduLen : Nat) : Nat :=
  match cmdret with
  | none => 24 + pduLen + 1
  | some r => 24 + r.payload.length + 1 + pduLen

def addFragment (cmdret : Option CmdRet) (cmd : NetCmd) (pdu : List Byte) : CmdRet :=
  match cmdret with
  | none => ⟨cmd, pdu⟩
  | some r => ⟨{ r.cmd with pduLen := r.cmd.pduLen + cmd.pduLen }, r.payload ++ pdu⟩

/-- One round of the loop of `fio_net_recv_cmd`: what it has then, whether it goes on, and the
socket. -/
def recvFragment (cmdret : Option CmdRet) (sk : Sock) : Except NetFail (CmdRet × Bool × Sock) :=
  match recvData sk.sched sk.data 24 with
  | .error e => .error e
  | .ok (bs, sk) =>
      match verifyConvertCmd crc16 bs with
      | .error e => .error e
      | .ok cmd =>
          if maxCmdMb * 1024 < nextCmdSize cmdret cmd.pduLen.toNat / 1024 then .error .cmdTooLarge
          else if cmdret.any (fun r => r.cmd.opcode ≠ cmd.opcode) then .error .opcodeMismatch
          else if cmd.pduLen = 0 then .ok (cmdret.getD ⟨cmd, []⟩, false, sk)
          else
            match recvData sk.sched sk.data cmd.pduLen.toNat with
            | .error e => .error e
            | .ok (pdu, sk) =>
                if crc16 pdu ≠ cmd.pduCrc16 then .error .badPduCrc
                else .ok (addFragment cmdret cmd pdu, cmd.flags &&& cmdFMore ≠ 0, sk)

/-- The loop of `fio_net_recv_cmd`. A round takes a header from the socket, so there are at most as
many as there are bytes. -/
def recvLoop : Nat → Option CmdRet → Sock → Except NetFail (CmdRet × Sock)
  | 0, _, _ => .error .closed
  | fuel + 1, cmdret, sk =>
      match recvFragment crc16 cmdret sk with
      | .error e => .error e
      | .ok (r, more, sk) => if more then recvLoop fuel (some r) sk else .ok (r, sk)

def writeNul (buf : List Byte) (i : Int) : Except NetFail (List Byte) :=
  if 0 ≤ i ∧ i < buf.length then .ok (buf.set i.toNat 0) else .error .outOfBounds

/-- Zero-terminating text input. The payload has room for one more byte, which is `extra`. The
length of a text is read as it is, that of a job is converted, and is an `int`. -/
def terminate (host : Endian) (r : CmdRet) (extra : Byte) : Except NetFail (List Byte) :=
  let buf := r.payload ++ [extra]
  if r.cmd.pduLen = 0 then .ok buf
  else if r.cmd.opcode = cmdText then
    if buf.length < 8 then .error .outOfBounds
    else writeNul buf (24 + hostValue host ((buf.drop 4).take 4))
  else if r.cmd.opcode = cmdJob then
    if buf.length < 4 then .error .outOfBounds
    else writeNul buf (8 + (BitVec.ofNat 32 (leField buf 0 4)).toInt)
  else .ok buf

def netRecvCmd (host : Endian) (extra : Byte) (sk : Sock) :
    Except NetFail (NetCmd × List Byte × Sock) :=
  match recvLoop crc16 (sk.data.length + 1) none sk with
  | .error e => .error e
  | .ok (r, sk) =>
      match terminate host r extra with
      | .error e => .error e
      | .ok buf => .ok ({ r.cmd with flags := r.cmd.flags &&& ~~~cmdFMore }, buf, sk)

end Crc

end MysqlBench.Fio
