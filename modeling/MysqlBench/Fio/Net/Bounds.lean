import MysqlBench.Fio.Net.Fragment

/-!
# Lengths inside a command

A command that `fio_net_recv_cmd` accepts has a true `pdu_len`: the payload is as long as the
fragments said (`recvLoop_pduLen`). But a payload has lengths of its own in it, which nobody compares
with that one: `buf_len` of a text or a job says where the terminating NUL goes, and the lengths of
the lines of a JOBLINE say where the next line is. So everything is addressed within bounds exactly
when these lengths fit the payload (`received_in_bounds_iff`).

Where a field is read that the payload is too short for, it is read from the memory behind it, which
is arbitrary: the property has to hold whatever is there.
-/

namespace MysqlBench.Fio

open MysqlBench.Lib

def cmdJobline : BitVec 16 := 4#16

/-! ## Where a command is addressed -/

def payloadMem (payload : List Byte) (behind : Mem) : Mem := fun x => payload.getD x (behind x)

def cmdSize (r : CmdRet) : Nat := 24 + r.payload.length + 1

/-- The place of the NUL that `fio_net_recv_cmd` writes, from the start of the command. The length of
a text is read as it is, that of a job is converted, and is an `int`. -/
def nulAt (host : Endian) (r : CmdRet) (behind : Mem) : Option Int :=
  let mem := payloadMem r.payload behind
  if r.cmd.pduLen = 0 then none
  else if r.cmd.opcode = cmdText then some (24 + (24 + hostValue host (load mem 4 4)))
  else if r.cmd.opcode = cmdJob then some (24 + (8 + (BitVec.ofNat 32 (loadLE mem 0 4)).toInt))
  else none

/-- The records that the loop of `handle_jobline_cmd` visits: where each starts, and its length with
its text. -/
def visitedLines (mem : Mem) : Nat → Nat → List (Nat × Nat)
  | 0, _ => []
  | lines + 1, offset =>
      let len := loadLE mem offset 2
      (offset, 2 + len) :: visitedLines mem lines (offset + (2 + len))

def joblineRecords (mem : Mem) : List (Nat × Nat) := visitedLines mem (loadLE mem 0 2) 4

structure AddressedWithin (host : Endian) (r : CmdRet) : Prop where
  nul : ∀ behind i, nulAt host r behind = some i → 0 ≤ i ∧ i < cmdSize r
  lines : r.cmd.opcode = cmdJobline → ∀ behind,
    ∀ v ∈ joblineRecords (payloadMem r.payload behind), v.1 + v.2 ≤ r.cmd.pduLen.toNat

/-! ## The lengths -/

def linesEnd (mem : Mem) : Nat → Nat → Nat
  | 0, offset => offset
  | lines + 1, offset => linesEnd mem lines (offset + (2 + loadLE mem offset 2))

structure LengthsFit (host : Endian) (r : CmdRet) : Prop where
  text : r.cmd.opcode = cmdText → r.payload ≠ [] →
    24 + hostValue host ((r.payload.drop 4).take 4) ≤ r.payload.length
  job : r.cmd.opcode = cmdJob → r.payload ≠ [] → 4 ≤ r.payload.length ∧
    -32 ≤ (BitVec.ofNat 32 (leField r.payload 0 4)).toInt ∧
    8 + (BitVec.ofNat 32 (leField r.payload 0 4)).toInt ≤ r.payload.length
  lines : r.cmd.opcode = cmdJobline → 2 ≤ r.payload.length ∧
    (leField r.payload 0 2 = 0 ∨
      linesEnd (payloadMem r.payload fun _ => 0) (leField r.payload 0 2) 4 ≤ r.payload.length)

/-! ## The length of the payload -/

theorem recvData_length : ∀ {sched : List RecvEv} {data bs : List Byte} {len : Nat} {sk : Sock},
    recvData sched data len = .ok (bs, sk) → bs.length = len := by
  intro sched
  induction sched with
  | nil =>
    intro data bs len sk h
    rw [recvData] at h
    split at h
    · obtain ⟨rfl, -⟩ := Prod.mk.inj (Except.ok.inj h)
      rw [List.length_take]
      omega
    · cases h
  | cons ev sched ih =>
    intro data bs len sk h
    cases ev with
    | again => exact ih h
    | bytes k =>
      rw [recvData] at h
      -- a read takes at least a byte and at most what is asked for
      generalize hn : min (max k 1) (min len data.length) = n at h
      split at h
      · obtain ⟨rfl, -⟩ := Prod.mk.inj (Except.ok.inj h)
        rw [List.length_take]
        omega
      · split at h
        · cases h
        · cases hrec : recvData sched (data.drop n) (len - n) with
          | error e => rw [hrec] at h; cases h
          | ok res =>
            obtain ⟨bs', sk'⟩ := res
            rw [hrec] at h
            obtain ⟨rfl, -⟩ := Prod.mk.inj (Except.ok.inj h)
            have hlen := ih hrec
            rw [List.length_append, List.length_take]
            omega

def TrueLen (r : CmdRet) : Prop := r.cmd.pduLen.toNat = r.payload.length

theorem addFragment_trueLen {cmdret : Option CmdRet} {cmd : NetCmd} {pdu : List Byte}
    (h : ∀ r, cmdret = some r → TrueLen r) (hpdu : pdu.length = cmd.pduLen.toNat)
    (hsize : nextCmdSize cmdret cmd.pduLen.toNat / 1024 ≤ maxCmdMb * 1024) :
    TrueLen (addFragment cmdret cmd pdu) := by
  cases cmdret with
  | none => exact hpdu.symm
  | some r =>
    have hr : r.cmd.pduLen.toNat = r.payload.length := h r rfl
    unfold nextCmdSize maxCmdMb at hsize
    refine (BitVec.toNat_add _ _).trans ?_
    rw [hr, Nat.mod_eq_of_lt (by dsimp only at hsize; omega), ← hpdu]
    exact (List.length_append).symm

theorem recvFragment_trueLen {crc16 : List Byte → BitVec 16} {cmdret : Option CmdRet} {sk sk' : Sock}
    {r : CmdRet} {more : Bool} (h : ∀ r, cmdret = some r → TrueLen r)
    (hrecv : recvFragment crc16 cmdret sk = .ok (r, more, sk')) : TrueLen r := by
  unfold recvFragment at hrecv
  split at hrecv
  · cases hrecv
  · split at hrecv
    · cases hrecv
    · rename_i cmd _
      split at hrecv
      · cases hrecv
      · rename_i hsize
        split at hrecv
        · cases hrecv
        · split at hrecv
          · rename_i hzero
            obtain ⟨rfl, -⟩ := Prod.mk.inj (Except.ok.inj hrecv)
            cases cmdret with
            | none => exact congrArg BitVec.toNat hzero
            | some r => exact h r rfl
          · split at hrecv
            · cases hrecv
            · rename_i pdu _ hpdu
              split at hrecv
              · cases hrecv
              · obtain ⟨rfl, -⟩ := Prod.mk.inj (Except.ok.inj hrecv)
                exact addFragment_trueLen h (recvData_length hpdu) (by omega)

theorem recvLoop_pduLen {crc16 : List Byte → BitVec 16} : ∀ {fuel : Nat} {cmdret : Option CmdRet}
    {sk sk' : Sock} {r : CmdRet}, (∀ r, cmdret = some r → TrueLen r) →
    recvLoop crc16 fuel cmdret sk = .ok (r, sk') → TrueLen r := by
  intro fuel
  induction fuel with
  | zero => intro cmdret sk sk' r _ h; cases h
  | succ fuel ih =>
    intro cmdret sk sk' r h hloop
    rw [recvLoop] at hloop
    split at hloop
    · cases hloop
    · rename_i r₁ more sk₁ hfrag
      have hr₁ := recvFragment_trueLen h hfrag
      split at hloop
      · exact ih (fun r hr => Option.some.inj hr ▸ hr₁) hloop
      · obtain ⟨rfl, -⟩ := Prod.mk.inj (Except.ok.inj hloop)
        exact hr₁

/-! ## Fields of the payload -/

section Payload

variable {payload : List Byte}

theorem load_payloadMem (behind : Mem) {a n : Nat} (h : a + n ≤ payload.length) :
    load (payloadMem payload behind) a n = (payload.drop a).take n := by
  refine List.ext_getElem (by rw [length_load, List.length_take, List.length_drop]; omega) ?_
  intro j h1 h2
  rw [length_load] at h1
  simp only [load, List.getElem_map, List.getElem_range, List.getElem_take, List.getElem_drop]
  exact List.getD_eq_getElem _ _ (by omega)

theorem loadLE_payloadMem (behind : Mem) {a n : Nat} (h : a + n ≤ payload.length) :
    loadLE (payloadMem payload behind) a n = leField payload a n :=
  congrArg leValue (load_payloadMem behind h)

theorem payloadMem_behind (behind : Mem) {x : Nat} (h : payload.length ≤ x) :
    payloadMem payload behind x = behind x :=
  List.getD_eq_default _ _ h

/-! ## The lines -/

theorem le_linesEnd (mem : Mem) : ∀ lines offset : Nat, offset ≤ linesEnd mem lines offset := by
  intro lines
  induction lines with
  | zero => intro offset; exact Nat.le_refl _
  | succ lines ih =>
    intro offset
    have := ih (offset + (2 + loadLE mem offset 2))
    rw [linesEnd]
    omega

theorem exists_visited_end (mem : Mem) : ∀ lines offset : Nat, 0 < lines →
    ∃ v ∈ visitedLines mem lines offset, v.1 + v.2 = linesEnd mem lines offset := by
  intro lines
  induction lines with
  | zero => intro offset h; exact absurd h (Nat.lt_irrefl 0)
  | succ lines ih =>
    intro offset _
    rw [visitedLines, linesEnd]
    rcases Nat.eq_zero_or_pos lines with rfl | hpos
    · exact ⟨_, List.mem_cons_self, rfl⟩
    · obtain ⟨v, hv, hend⟩ := ih (offset + (2 + loadLE mem offset 2)) hpos
      exact ⟨v, List.mem_cons_of_mem _ hv, hend⟩

theorem visitedLines_within (behind behind' : Mem) : ∀ lines offset : Nat,
    linesEnd (payloadMem payload behind) lines offset ≤ payload.length →
    ∀ v ∈ visitedLines (payloadMem payload behind') lines offset, v.1 + v.2 ≤ payload.length := by
  intro lines
  induction lines with
  | zero => intro offset _ v hv; exact absurd hv (by simp [visitedLines])
  | succ lines ih =>
    intro offset h v hv
    rw [linesEnd] at h
    have hnext := le_linesEnd (payloadMem payload behind) lines
      (offset + (2 + loadLE (payloadMem payload behind) offset 2))
    have hsame : loadLE (payloadMem payload behind') offset 2
        = loadLE (payloadMem payload behind) offset 2 := by
      rw [loadLE_payloadMem _ (by omega), loadLE_payloadMem _ (by omega)]
    rw [visitedLines, hsame] at hv
    rcases List.mem_cons.mp hv with rfl | hv
    · dsimp only
      omega
    · exact ih _ h v hv

/-! ## The three commands -/

theorem text_within_iff (host : Endian) :
    (∀ behind, 24 + (24 + hostValue host (load (payloadMem payload behind) 4 4))
        < 24 + payload.length + 1) ↔
      24 + hostValue host ((payload.drop 4).take 4) ≤ payload.length := by
  constructor
  · intro h
    have hzero := h fun _ => 0
    rw [load_payloadMem _ (by omega)] at hzero
    omega
  · intro h behind
    rw [load_payloadMem _ (by omega)]
    omega

theorem job_within_iff :
    (∀ behind, 0 ≤ 24 + (8 + (BitVec.ofNat 32 (loadLE (payloadMem payload behind) 0 4)).toInt) ∧
        24 + (8 + (BitVec.ofNat 32 (loadLE (payloadMem payload behind) 0 4)).toInt)
          < (24 + payload.length + 1 : Nat)) ↔
      4 ≤ payload.length ∧ -32 ≤ (BitVec.ofNat 32 (leField payload 0 4)).toInt ∧
        8 + (BitVec.ofNat 32 (leField payload 0 4)).toInt ≤ payload.length := by
  constructor
  · intro h
    have hlen : 4 ≤ payload.length := by
      by_contra hlt
      -- the highest byte is behind the payload: let the length be large
      have hbig := (h fun _ => 0x7f#8).2
      generalize hmem : payloadMem payload (fun _ => 0x7f#8) = mem at hbig
      have htop : mem 3 = 0x7f#8 := by
        rw [← hmem, payloadMem_behind _ (by omega)]
      have hload : loadLE mem 0 4 = (mem 0).toNat + 256 * ((mem 1).toNat
          + 256 * ((mem 2).toNat + 256 * (127 + 256 * 0))) := by
        show leValue [mem (0 + 0), mem (0 + 1), mem (0 + 2), mem (0 + 3)] = _
        simp only [leValue, Nat.zero_add, htop]
        rfl
      have h0 := (mem 0).isLt
      have h1 := (mem 1).isLt
      have h2 := (mem 2).isLt
      rw [BitVec.toInt_eq_toNat_of_lt (by rw [BitVec.toNat_ofNat]; omega), BitVec.toNat_ofNat,
        Nat.mod_eq_of_lt (by omega), hload] at hbig
      omega
    have hzero := h fun _ => 0
    rw [loadLE_payloadMem _ (by omega)] at hzero
    exact ⟨hlen, by omega, by omega⟩
  · rintro ⟨hlen, h1, h2⟩ behind
    rw [loadLE_payloadMem _ (by omega)]
    omega

theorem lines_within_iff :
    (∀ behind, ∀ v ∈ joblineRecords (payloadMem payload behind), v.1 + v.2 ≤ payload.length) ↔
      2 ≤ payload.length ∧ (leField payload 0 2 = 0 ∨
        linesEnd (payloadMem payload fun _ => 0) (leField payload 0 2) 4 ≤ payload.length) := by
  constructor
  · intro h
    have hlen : 2 ≤ payload.length := by
      by_contra hlt
      -- the number of lines is behind the payload, in part: let there be one
      obtain ⟨v, hv, hend⟩ := exists_visited_end (payloadMem payload fun _ => 1#8)
        (loadLE (payloadMem payload fun _ => 1#8) 0 2) 4 (by
          show 0 < leValue [_, payloadMem payload (fun _ => 1#8) (0 + 1)]
          rw [payloadMem_behind _ (by omega)]
          simp [leValue])
      have hin := h _ v hv
      have := le_linesEnd (payloadMem payload fun _ => 1#8)
        (loadLE (payloadMem payload fun _ => 1#8) 0 2) 4
      omega
    refine ⟨hlen, ?_⟩
    rcases Nat.eq_zero_or_pos (leField payload 0 2) with hzero | hpos
    · exact .inl hzero
    · obtain ⟨v, hv, hend⟩ := exists_visited_end (payloadMem payload fun _ => 0) _ 4 hpos
      refine .inr (hend ▸ h (fun _ => 0) v ?_)
      rw [joblineRecords, loadLE_payloadMem _ (by omega)]
      exact hv
  · rintro ⟨hlen, h⟩ behind v hv
    rw [joblineRecords, loadLE_payloadMem _ (by omega)] at hv
    rcases h with h | h
    · rw [h] at hv
      exact absurd hv (by simp [visitedLines])
    · exact visitedLines_within _ behind _ _ h v hv

end Payload

/-! ## The result -/

/-- **When a received command is addressed within bounds.** Exactly if the lengths that the peer has
put into the payload fit it: they are used as they come. -/
theorem received_in_bounds_iff (crc16 : List Byte → BitVec 16) (host : Endian) (sk sk' : Sock)
    (r : CmdRet) (hrecv : recvLoop crc16 (sk.data.length + 1) none sk = .ok (r, sk')) :
    AddressedWithin host r ↔ LengthsFit host r := by
  have hlen : r.cmd.pduLen.toNat = r.payload.length :=
    recvLoop_pduLen (fun r hr => absurd hr (by simp)) hrecv
  have hzero : r.cmd.pduLen = 0 ↔ r.payload = [] := by
    rw [← List.length_eq_zero_iff, ← hlen]
    exact ⟨fun h => by rw [h]; rfl, fun h => BitVec.eq_of_toNat_eq h⟩
  have hjt : cmdJob ≠ cmdText := by decide
  constructor
  · intro h
    refine ⟨fun ho hne => ?_, fun ho hne => ?_, fun ho => ?_⟩
    · refine (text_within_iff host).mp fun behind => ?_
      have hnul := (h.nul behind _ (by rw [nulAt, if_neg (hzero.not.mpr hne), if_pos ho])).2
      unfold cmdSize at hnul
      omega
    · refine job_within_iff.mp fun behind => ?_
      exact h.nul behind _ (by
        rw [nulAt, if_neg (hzero.not.mpr hne), if_neg (by rw [ho]; exact hjt), if_pos ho])
    · exact lines_within_iff.mp (hlen ▸ h.lines ho)
  · intro h
    refine ⟨fun behind i hi => ?_, fun ho => ?_⟩
    · rw [nulAt] at hi
      split at hi
      · cases hi
      · rename_i hne
        split at hi
        · rename_i ho
          obtain rfl := Option.some.inj hi
          have hin := (text_within_iff host).mpr (h.text ho (hzero.not.mp hne)) behind
          unfold cmdSize
          omega
        · split at hi
          · rename_i ho
            obtain rfl := Option.some.inj hi
            exact job_within_iff.mpr (h.job ho (hzero.not.mp hne)) behind
          · cases hi
    · rw [hlen]
      exact lines_within_iff.mpr (h.lines ho)

theorem recvLoop_fragment (crc16 : List Byte → BitVec 16) (opcode : BitVec 16) {payload : List Byte}
    (h : payload.length ≤ maxFragmentPdu) :
    ∃ r sk', recvLoop crc16 ((netSendCmd crc16 opcode 0 payload).length + 1) none
        ⟨netSendCmd crc16 opcode 0 payload, []⟩ = .ok (r, sk') ∧
      r.cmd.opcode = opcode ∧ r.payload = payload := by
  have hfuel := @length_le_netSendCmd crc16 opcode 0 _ payload rfl
  unfold maxFragmentPdu at h
  obtain ⟨r, sched', hloop, hcol, hpay⟩ := @recvLoop_netSendCmd crc16 opcode 0 []
    ((netSendCmd crc16 opcode 0 payload).length + 1) payload none [] (by omega)
    (fun r hr => absurd hr (by simp)) (by
      show (24 + (0 + payload.length) + 1) / 1024 ≤ 2048 * 1024
      omega)
  rw [List.append_nil] at hloop
  exact ⟨r, _, hloop, hcol.opcode, hpay⟩

/-- A job file of two bytes, with its true length. -/
theorem received_in_bounds_job : ∃ r sk',
    recvLoop (fun _ => 7)
        ((netSendCmd (fun _ => 7) cmdJob 0 [2, 0, 0, 0, 0, 0, 0, 0, 65, 66]).length + 1) none
        ⟨netSendCmd (fun _ => 7) cmdJob 0 [2, 0, 0, 0, 0, 0, 0, 0, 65, 66], []⟩ = .ok (r, sk') ∧
      AddressedWithin .little r := by
  obtain ⟨r, sk', hloop, ho, hpay⟩ := recvLoop_fragment (fun _ => 7) cmdJob
    (show [2, 0, 0, 0, 0, 0, 0, 0, 65, 66].length ≤ maxFragmentPdu by decide)
  refine ⟨r, sk', hloop, (received_in_bounds_iff (fun _ => 7) .little _ sk' r hloop).mpr ⟨?_, ?_, ?_⟩⟩
  · intro h
    exact absurd (ho.symm.trans h) (by decide)
  · intro _ _
    rw [hpay]
    decide
  · intro h
    exact absurd (ho.symm.trans h) (by decide)

/-- A text of eight bytes of payload that gives 65792 as its length, and a command line of six bytes
whose only argument is said to have 65535: both are accepted, the NUL is written behind the memory of
the command, and the record reaches behind the payload. -/
theorem lengths_from_peer_trusted :
    (∀ (crc16 : List Byte → BitVec 16) (host : Endian), ∃ r sk', recvLoop crc16
        ((netSendCmd crc16 cmdText 0 [0, 0, 0, 0, 0, 1, 1, 0]).length + 1) none
        ⟨netSendCmd crc16 cmdText 0 [0, 0, 0, 0, 0, 1, 1, 0], []⟩ = .ok (r, sk') ∧
      ¬ AddressedWithin host r) ∧
    ∀ (crc16 : List Byte → BitVec 16) (host : Endian), ∃ r sk', recvLoop crc16
        ((netSendCmd crc16 cmdJobline 0 [1, 0, 0, 0, 255, 255]).length + 1) none
        ⟨netSendCmd crc16 cmdJobline 0 [1, 0, 0, 0, 255, 255], []⟩ = .ok (r, sk') ∧
      ¬ AddressedWithin host r := by
  constructor <;> intro crc16 host
  · obtain ⟨r, sk', hloop, ho, hpay⟩ := recvLoop_fragment crc16 cmdText
      (show [0, 0, 0, 0, 0, 1, 1, 0].length ≤ maxFragmentPdu by decide)
    have hlen : r.cmd.pduLen.toNat = r.payload.length :=
      recvLoop_pduLen (fun r hr => absurd hr (by simp)) hloop
    refine ⟨r, sk', hloop, fun h => ?_⟩
    have hne : r.cmd.pduLen ≠ 0 := by
      intro h0
      rw [h0, hpay] at hlen
      exact absurd hlen (by decide)
    have hnul := (h.nul (fun _ => 0) _ (by rw [nulAt, if_neg hne, if_pos ho])).2
    rw [cmdSize, hpay] at hnul
    cases host <;> exact absurd hnul (by decide)
  · obtain ⟨r, sk', hloop, ho, hpay⟩ := recvLoop_fragment crc16 cmdJobline
      (show [1, 0, 0, 0, 255, 255].length ≤ maxFragmentPdu by decide)
    have hlen : r.cmd.pduLen.toNat = r.payload.length :=
      recvLoop_pduLen (fun r hr => absurd hr (by simp)) hloop
    refine ⟨r, sk', hloop, fun h => ?_⟩
    have hin := h.lines ho (fun _ => 0) (4, 65537) (by rw [hpay]; decide)
    rw [hlen, hpay] at hin
    exact absurd hin (by decide)

end MysqlBench.Fio
