import MysqlBench.Fio.Net.Fragment

/-!
# `fio_sendv_data` and short writes

`writev` may take less than it was offered. `fio_sendv_data` then moves its pointer `iov` over the
entries that are done, shortens the one that is not, and calls `writev` again. It does not count the
entries it has moved over: the next call gets `count` entries from the new place on, and the last of
them are behind the array. So it survives a short write that ends in the first entry, and one that
is the last; after any other it passes memory behind the array to the kernel (`sendv_survives_iff`).
`fio_send_cmd_ext_pdu` sends a header and a payload in this way.
-/

namespace MysqlBench.Fio

open MysqlBench.Lib

/-! ## The code -/

def eagain : Nat := 11

def eintr : Nat := 4

inductive WritevResult
  | wrote (n : Nat)
  | failed (errno : Nat)
deriving Repr, DecidableEq

structure SendvRound where
  result : WritevResult
  exitBackend : Bool
deriving Repr, DecidableEq

def iovTotalLen : List (List Byte) → Nat
  | [] => 0
  | v :: iov => v.length + iovTotalLen iov

/-- The inner loop of `fio_sendv_data`: the entries from `iov` on after `ret` bytes. None is left of
the array if it gets to its end. -/
def iovAdvance : List (List Byte) → Nat → Option (List (List Byte))
  | iov, 0 => some iov
  | [], _ + 1 => none
  | v :: iov, ret + 1 =>
      if v.length ≤ ret + 1 then iovAdvance iov (ret + 1 - v.length)
      else some (v.drop (ret + 1) :: iov)

inductive SendvOutcome
  | returned (ret : Int) (sent : List Byte)
  /-- an entry behind the array is passed to `writev`, or looked at -/
  | wild (sent : List Byte)
  /-- `writev` has not returned yet -/
  | waiting (sent : List Byte)
deriving Repr, DecidableEq

def sendvRet (totalLen errno : Nat) : Int :=
  if totalLen = 0 then 0 else if errno ≠ 0 then -(errno : Int) else 1

def sendvLoop (count : Nat) : List SendvRound → List (List Byte) → Nat → Nat → List Byte → SendvOutcome
  | [], iov, _, _, sent => if iov.length < count then .wild sent else .waiting sent
  | ⟨result, exitBackend⟩ :: rounds, iov, totalLen, errno, sent =>
      if iov.length < count then .wild sent
      else
        match result with
        | .wrote 0 => .returned (sendvRet totalLen errno) sent
        | .wrote (n + 1) =>
            let sent := sent ++ iov.flatten.take (n + 1)
            let totalLen := totalLen - (n + 1)
            if totalLen = 0 then .returned (sendvRet totalLen errno) sent
            else
              match iovAdvance iov (n + 1) with
              | none => .wild sent
              | some iov =>
                  if exitBackend then .returned (sendvRet totalLen errno) sent
                  else sendvLoop count rounds iov totalLen errno sent
        | .failed e =>
            if e = eagain ∨ e = eintr then
              if exitBackend then .returned (sendvRet totalLen e) sent
              else sendvLoop count rounds iov totalLen e sent
            else .returned (sendvRet totalLen e) sent

def fioSendvData (iov : List (List Byte)) (errno : Nat) (rounds : List SendvRound) : SendvOutcome :=
  sendvLoop iov.length rounds iov (iovTotalLen iov) errno []

def fioSendCmdExtPdu (crc16 : List Byte → BitVec 16) (opcode : BitVec 16) (buf : List Byte)
    (tag : BitVec 64) (flags : BitVec 32) (errno : Nat) (rounds : List SendvRound) : SendvOutcome :=
  let cmd := netCmdCrcPdu crc16 { initNetCmd opcode buf.length tag with flags := flags } buf
  fioSendvData [cmd.bytes, buf] errno rounds

/-! ## The property -/

/-- The results that `writev` can have when `left` bytes are still to be sent: at least one of them,
or an interrupted call. -/
def ShortWrites : Nat → List SendvRound → Prop
  | _, [] => True
  | left, ⟨.wrote n, _⟩ :: rounds => n ≤ left ∧ (0 < left → 0 < n) ∧ ShortWrites (left - n) rounds
  | left, ⟨.failed e, _⟩ :: rounds => (e = eagain ∨ e = eintr) ∧ ShortWrites left rounds

def progress : Nat → List SendvRound → List Nat
  | _, [] => []
  | sent, ⟨.wrote n, _⟩ :: rounds => (sent + n) :: progress (sent + n) rounds
  | sent, ⟨.failed _, _⟩ :: rounds => progress sent rounds

def written (rounds : List SendvRound) : Nat := (progress 0 rounds).getLastD 0

/-- Once everything is sent the function has returned 0 with all bytes on the socket in order, and
before that it waits with a front part of them there. -/
def SurvivesShortWrites (iov : List (List Byte)) (errno : Nat) (rounds : List SendvRound) : Prop :=
  fioSendvData iov errno rounds
    = if iovTotalLen iov ∈ progress 0 rounds then .returned 0 iov.flatten
      else .waiting (iov.flatten.take (written rounds))

def EndsInFirst (iov : List (List Byte)) (sent : Nat) (rounds : List SendvRound) : Prop :=
  ∀ k ∈ progress sent rounds, k < (iov.headD []).length ∨ k = iovTotalLen iov

/-! ## Moving the pointer -/

theorem iovTotalLen_eq : ∀ iov : List (List Byte), iovTotalLen iov = iov.flatten.length := by
  intro iov
  induction iov with
  | nil => rfl
  | cons v iov ih => rw [iovTotalLen, List.flatten_cons, List.length_append, ih]

theorem iovAdvance_within {v : List Byte} {n : Nat} (iov : List (List Byte)) (h : n < v.length) :
    iovAdvance (v :: iov) n = some (v.drop n :: iov) := by
  cases n with
  | zero => rfl
  | succ n => rw [iovAdvance, if_neg (by omega)]

theorem iovAdvance_length : ∀ (iov : List (List Byte)) (n : Nat), n < iovTotalLen iov →
    ∃ iov', iovAdvance iov n = some iov' ∧ iov'.length ≤ iov.length := by
  intro iov
  induction iov with
  | nil => intro n h; exact absurd h (Nat.not_lt_zero n)
  | cons v iov ih =>
    intro n h
    rw [iovTotalLen] at h
    cases n with
    | zero => exact ⟨_, rfl, Nat.le_refl _⟩
    | succ n =>
      rw [iovAdvance]
      by_cases hv : v.length ≤ n + 1
      · rw [if_pos hv]
        obtain ⟨iov', hiov, hlen⟩ := ih (n + 1 - v.length) (by omega)
        exact ⟨iov', hiov, Nat.le_succ_of_le hlen⟩
      · rw [if_neg hv]
        exact ⟨_, rfl, Nat.le_refl _⟩

theorem iovAdvance_past {v : List Byte} {iov : List (List Byte)} {n : Nat} (hv : v.length ≤ n + 1)
    (h : n + 1 < iovTotalLen (v :: iov)) :
    ∃ iov', iovAdvance (v :: iov) (n + 1) = some iov' ∧ iov'.length < (v :: iov).length := by
  rw [iovTotalLen] at h
  obtain ⟨iov', hiov, hlen⟩ := iovAdvance_length iov (n + 1 - v.length) (by omega)
  refine ⟨iov', ?_, Nat.lt_succ_of_le hlen⟩
  rw [iovAdvance, if_pos hv]
  exact hiov

theorem sendvLoop_wild {count : Nat} {iov : List (List Byte)} (h : iov.length < count)
    (rounds : List SendvRound) (totalLen errno : Nat) (sent : List Byte) :
    sendvLoop count rounds iov totalLen errno sent = .wild sent := by
  cases rounds with
  | nil => rw [sendvLoop, if_pos h]
  | cons round rounds =>
    obtain ⟨result, exitBackend⟩ := round
    cases result with
    | wrote n => cases n <;> rw [sendvLoop, if_pos h]
    | failed e => rw [sendvLoop, if_pos h]

/-! ## The loop -/

theorem progress_done : ∀ (rounds : List SendvRound) (sent : Nat), ShortWrites 0 rounds →
    ∀ k ∈ progress sent rounds, k = sent := by
  intro rounds
  induction rounds with
  | nil => intro sent _ k hk; exact absurd hk (by simp [progress])
  | cons round rounds ih =>
    obtain ⟨result, exitBackend⟩ := round
    intro sent h k hk
    cases result with
    | wrote n =>
      obtain ⟨hn, -, h⟩ := h
      obtain rfl : n = 0 := by omega
      rw [progress, List.mem_cons] at hk
      rcases hk with hk | hk
      · exact hk
      · exact ih sent h k hk
    | failed e => exact ih sent h.2 k hk

section Loop

variable {v : List Byte} {vs : List (List Byte)}

structure InFirst (v : List Byte) (vs : List (List Byte)) (c : Nat) : Prop where
  first : c < v.length ∨ c = 0
  more : c < iovTotalLen (v :: vs)

theorem InFirst.flatten {c : Nat} (h : InFirst v vs c) :
    (v.drop c :: vs).flatten = (v :: vs).flatten.drop c := by
  rw [List.flatten_cons, List.flatten_cons, List.drop_append_of_le_length]
  rcases h.first with h | h <;> omega

theorem InFirst.sent {c : Nat} (h : InFirst v vs c) (n : Nat) :
    (v :: vs).flatten.take c ++ (v.drop c :: vs).flatten.take n = (v :: vs).flatten.take (c + n) := by
  rw [h.flatten, List.take_add]

theorem sendvLoop_spec (rounds : List SendvRound) : ∀ (c errno : Nat), InFirst v vs c →
    ShortWrites (iovTotalLen (v :: vs) - c) rounds → (∀ round ∈ rounds, round.exitBackend = false) →
    (EndsInFirst (v :: vs) c rounds →
      sendvLoop (v :: vs).length rounds (v.drop c :: vs) (iovTotalLen (v :: vs) - c) errno
          ((v :: vs).flatten.take c)
        = if iovTotalLen (v :: vs) ∈ progress c rounds then .returned 0 (v :: vs).flatten
          else .waiting ((v :: vs).flatten.take ((progress c rounds).getLastD c))) ∧
    (¬ EndsInFirst (v :: vs) c rounds → ∃ sent,
      sendvLoop (v :: vs).length rounds (v.drop c :: vs) (iovTotalLen (v :: vs) - c) errno
        ((v :: vs).flatten.take c) = .wild sent) := by
  induction rounds with
  | nil =>
    intro c errno _ _ _
    refine ⟨fun _ => ?_, fun h => absurd (fun k hk => absurd hk (by simp [progress])) h⟩
    rw [sendvLoop, if_neg (by simp), if_neg (by simp [progress])]
    rfl
  | cons round rounds ih =>
    obtain ⟨result, exitBackend⟩ := round
    intro c errno hc hshort hexit
    obtain rfl : exitBackend = false := hexit _ (List.mem_cons_self)
    have hrest : ∀ round ∈ rounds, round.exitBackend = false :=
      fun round h => hexit round (List.mem_cons_of_mem _ h)
    have hcount : ¬ (v.drop c :: vs).length < (v :: vs).length := by simp
    have hmore := hc.more
    cases result with
    | failed e =>
      obtain ⟨he, hshort⟩ := hshort
      rw [sendvLoop, if_neg hcount, if_pos he, if_neg (by decide)]
      exact ih c e hc hshort hrest
    | wrote n =>
      obtain ⟨hle, hpos, hshort⟩ := hshort
      cases n with
      | zero => exact absurd (hpos (by omega)) (Nat.lt_irrefl 0)
      | succ n =>
        rw [sendvLoop, if_neg hcount]
        dsimp only
        rw [hc.sent, Nat.sub_sub]
        rw [Nat.sub_sub] at hshort
        by_cases hdone : c + (n + 1) = iovTotalLen (v :: vs)
        · -- the last write: nothing is left to go wrong
          rw [hdone, Nat.sub_self] at hshort
          have hends : EndsInFirst (v :: vs) c (⟨.wrote (n + 1), false⟩ :: rounds) := by
            intro k hk
            rw [progress, List.mem_cons, hdone] at hk
            exact .inr (hk.elim id (progress_done rounds _ hshort k))
          refine ⟨fun _ => ?_, fun h => absurd hends h⟩
          rw [if_pos (by omega), hdone, if_pos (by rw [progress, hdone]; exact List.mem_cons_self),
            iovTotalLen_eq, List.take_length, Nat.sub_self]
          rfl
        · rw [if_neg (by omega)]
          rcases Nat.lt_or_ge (c + (n + 1)) v.length with hin | hpast
          · -- the write ends in the first entry, which is shortened
            have hstate : InFirst v vs (c + (n + 1)) := ⟨.inl hin, by omega⟩
            rw [iovAdvance_within vs (by rw [List.length_drop]; omega), List.drop_drop]
            dsimp only
            rw [if_neg (by decide)]
            have hmem : iovTotalLen (v :: vs) ∈ progress c (⟨.wrote (n + 1), false⟩ :: rounds) ↔
                iovTotalLen (v :: vs) ∈ progress (c + (n + 1)) rounds := by
              rw [progress, List.mem_cons]
              exact ⟨fun h => h.resolve_left (Ne.symm hdone), .inr⟩
            have hends : EndsInFirst (v :: vs) c (⟨.wrote (n + 1), false⟩ :: rounds) ↔
                EndsInFirst (v :: vs) (c + (n + 1)) rounds := by
              unfold EndsInFirst
              rw [progress, List.forall_mem_cons]
              exact ⟨And.right, fun h => ⟨.inl hin, h⟩⟩
            have hlast : (progress c (⟨.wrote (n + 1), false⟩ :: rounds)).getLastD c
                = (progress (c + (n + 1)) rounds).getLastD (c + (n + 1)) := by
              rw [progress, List.getLastD_cons]
            rw [hends, hlast]
            simp only [hmem]
            exact ih _ errno hstate hshort hrest
          · -- the pointer moves, and the next call gets entries behind the array
            obtain ⟨iov', hiov, hlen⟩ := @iovAdvance_past (v.drop c) vs n
              (by rw [List.length_drop]; omega)
              (by rw [iovTotalLen, List.length_drop]; rw [iovTotalLen] at hdone hle hmore; omega)
            rw [hiov]
            dsimp only
            rw [if_neg (by decide), sendvLoop_wild (by simpa using hlen)]
            refine ⟨fun h => ?_, fun _ => ⟨_, rfl⟩⟩
            exfalso
            rcases h (c + (n + 1)) (by rw [progress]; exact List.mem_cons_self) with h | h
            · exact absurd (show c + (n + 1) < v.length from h) (by omega)
            · exact hdone h

end Loop

theorem sendvLoop_empty (iov : List (List Byte)) : ∀ (rounds : List SendvRound) (errno : Nat),
    ShortWrites 0 rounds → (∀ round ∈ rounds, round.exitBackend = false) →
    sendvLoop iov.length rounds iov 0 errno []
      = if 0 ∈ progress 0 rounds then .returned 0 [] else .waiting [] := by
  intro rounds
  induction rounds with
  | nil =>
    intro errno _ _
    rw [sendvLoop, if_neg (Nat.lt_irrefl _), if_neg (by simp [progress])]
  | cons round rounds ih =>
    obtain ⟨result, exitBackend⟩ := round
    intro errno hshort hexit
    obtain rfl : exitBackend = false := hexit _ (List.mem_cons_self)
    cases result with
    | failed e =>
      obtain ⟨he, hshort⟩ := hshort
      rw [sendvLoop, if_neg (Nat.lt_irrefl _), if_pos he, if_neg (by decide)]
      exact ih e hshort fun round h => hexit round (List.mem_cons_of_mem _ h)
    | wrote n =>
      obtain rfl : n = 0 := Nat.le_zero.mp hshort.1
      rw [sendvLoop, if_neg (Nat.lt_irrefl _), if_pos (by rw [progress]; exact List.mem_cons_self)]
      rfl

/-! ## The result -/

/-- **When short writes are survived.** Exactly if none but the last ends behind the first entry:
`iov` is moved over the entries that are done, but `count` is not taken down. -/
theorem sendv_survives_iff (iov : List (List Byte)) (errno : Nat) (rounds : List SendvRound)
    (hshort : ShortWrites (iovTotalLen iov) rounds)
    (hexit : ∀ round ∈ rounds, round.exitBackend = false) :
    SurvivesShortWrites iov errno rounds ↔ EndsInFirst iov 0 rounds := by
  unfold SurvivesShortWrites fioSendvData
  rcases Nat.eq_zero_or_pos (iovTotalLen iov) with hzero | hpos
  · have hnil : iov.flatten = [] := List.eq_nil_of_length_eq_zero (by rw [← iovTotalLen_eq, hzero])
    rw [hzero] at hshort ⊢
    rw [sendvLoop_empty iov rounds errno hshort hexit, hnil, List.take_nil]
    refine ⟨fun _ k hk => .inr ?_, fun _ => rfl⟩
    rw [hzero]
    exact progress_done rounds 0 hshort k hk
  · cases iov with
    | nil => exact absurd hpos (Nat.lt_irrefl 0)
    | cons v vs =>
      obtain ⟨hgood, hbad⟩ := sendvLoop_spec rounds 0 errno ⟨.inr rfl, hpos⟩ hshort hexit
      constructor
      · intro h
        by_contra hends
        obtain ⟨sent, hwild⟩ := hbad hends
        rw [List.take_zero, List.drop_zero, Nat.sub_zero] at hwild
        rw [hwild] at h
        split at h <;> exact absurd h (by simp)
      · exact hgood

/-- The first write ends in the first of two entries, the second takes all the rest. -/
theorem sendv_survives_cut_header :
    ShortWrites (iovTotalLen [[1#8, 2#8, 3#8], [4#8, 5#8]]) [⟨.wrote 2, false⟩, ⟨.wrote 3, false⟩] ∧
      SurvivesShortWrites [[1#8, 2#8, 3#8], [4#8, 5#8]] 0
        [⟨.wrote 2, false⟩, ⟨.wrote 3, false⟩] := by
  have hshort : ShortWrites (iovTotalLen [[1#8, 2#8, 3#8], [4#8, 5#8]])
      [⟨.wrote 2, false⟩, ⟨.wrote 3, false⟩] := ⟨by decide, by decide, by decide, by decide, trivial⟩
  exact ⟨hshort, (sendv_survives_iff _ 0 _ hshort (by decide)).mpr (by unfold EndsInFirst; decide)⟩

/-- A command with a payload of two bytes: the first write takes the 24 bytes of the header, and the
second call gets the payload and an entry that is not there. -/
theorem sendv_passes_wild_entry : ShortWrites 26 [⟨.wrote 24, false⟩] ∧
    ∀ crc16 : List Byte → BitVec 16,
      ∃ sent, fioSendCmdExtPdu crc16 cmdText [1#8, 2#8] 0 0 0 [⟨.wrote 24, false⟩] = .wild sent := by
  refine ⟨⟨by decide, by decide, trivial⟩, fun crc16 => ?_⟩
  unfold fioSendCmdExtPdu fioSendvData
  generalize hcmd : netCmdCrcPdu crc16 _ _ = cmd
  have hlen : cmd.bytes.length = 24 := length_bytes cmd
  have htotal : iovTotalLen [cmd.bytes, [1#8, 2#8]] = 26 := by
    rw [iovTotalLen, hlen]
    rfl
  obtain ⟨sent, hwild⟩ := (@sendvLoop_spec cmd.bytes [[1#8, 2#8]]
    [⟨.wrote 24, false⟩] 0 0 ⟨.inr rfl, by rw [htotal]; decide⟩
    (by rw [htotal]; exact ⟨by decide, by decide, trivial⟩) (by decide)).2 (by
      intro h
      rcases h 24 (by decide) with h | h
      · rw [List.headD_cons, hlen] at h
        exact absurd h (by decide)
      · rw [htotal] at h
        exact absurd h (by decide))
  exact ⟨sent, hwild⟩

end MysqlBench.Fio
