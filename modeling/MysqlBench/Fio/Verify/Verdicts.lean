import MysqlBench.Fio.Verify.RoundTrip

/-!
# Which interval decides what `verify_io_u` returns

Each interval of a read buffer gets a verdict: its header is bad, its data is bad, its header names
no verification type (then the assertion in `__hdr_size` fires), or it is good. The loop of
`verify_io_u` returns at once for a bad header, and leaves for bad data only with `verify_fatal`;
without, it goes on and the next interval overwrites `ret`. So one interval decides: the first that
stops the loop, or the last.

A failure that another interval's verdict follows is lost if that verdict is good:
`failure_returned_iff`.
-/

namespace MysqlBench.Fio

open MysqlBench.Lib

inductive Verdict where
  | good
  | badHeader
  | badData
  | asserts
deriving Repr, DecidableEq

def Verdict.Fails (v : Verdict) : Prop := v = .badHeader ∨ v = .badData

def Verdict.stops (fatal : Bool) : Verdict → Bool
  | .good => false
  | .badData => fatal
  | .badHeader | .asserts => true

def deciding (fatal : Bool) : Verdict → List Verdict → Verdict
  | v, [] => v
  | v, w :: ws => if v.stops fatal then v else deciding fatal w ws

/-! ## The verdicts of a buffer -/

/-- The state in which the interval at `p` is checked: its header moved back, and the seed taken from
it where the option says so. -/
def atInterval (o : VerifyOptions) (io : VerifyIoU) (mem : Mem) (p : Nat) : VerifyIoU :=
  { io with
    buf := mem
    randSeed := if o.verifysort || o.verBacklog then BitVec.ofNat 64 (loadLE mem (p + 8) 8)
      else io.randSeed }

def dataVerdict : Except VFail Nat → Verdict
  | .error _ => .asserts
  | .ok 0 => .good
  | .ok (_ + 1) => .badData

def checkData (sums : Checksums) (g : Garbage) (o : VerifyOptions) (io : VerifyIoU) (p hdrNum : Nat) :
    Except VFail Nat :=
  verifyPriv sums g o io io.buf
    (if o.verify ≠ .none then o.verify.code else loadLE io.buf (p + 2) 2) p hdrNum

def verdictAt (sums : Checksums) (g : Garbage) (o : VerifyOptions) (io : VerifyIoU) (p hdrNum : Nat) :
    Verdict :=
  if verifyHeader sums io.buf io.randSeed p (getHdrInc o io.buflen) ≠ 0 then .badHeader
  else dataVerdict (checkData sums g o io p hdrNum)

/-- The verdicts of all intervals from `p` on, whatever came of those before. -/
def verdicts (sums : Checksums) (g : Garbage) (o : VerifyOptions) :
    Nat → Nat → Nat → VerifyIoU → List Verdict
  | 0, _, _, _ => []
  | fuel + 1, p, hdrNum, io =>
      if p < io.buflen then
        match verifyUnswap g o io.buf p with
        | .error _ => [.asserts]
        | .ok mem =>
            verdictAt sums g o (atInterval o io mem p) p hdrNum ::
              verdicts sums g o fuel (p + getHdrInc o io.buflen) (hdrNum + 1) (atInterval o io mem p)
      else []

def VerifyIoU.verdicts (sums : Checksums) (g : Garbage) (o : VerifyOptions) (io : VerifyIoU) :
    List Verdict :=
  Fio.verdicts sums g o (io.buflen + 1) 0 0 io

def FailureReturned (sums : Checksums) (g : Garbage) (o : VerifyOptions) (io : VerifyIoU) : Prop :=
  (∃ v ∈ io.verdicts sums g o, v.Fails) →
    ∃ ret io', verifyIoU sums g o io = .ok (ret, io') ∧ ret ≠ 0

/-! ## What the loop returns -/

inductive Verdict.Result : Except VFail (Nat × VerifyIoU) → Verdict → Prop
  | good (io : VerifyIoU) : Verdict.Result (.ok (0, io)) .good
  | badHeader {ret : Nat} (io : VerifyIoU) (h : ret ≠ 0) : Verdict.Result (.ok (ret, io)) .badHeader
  | badData {ret : Nat} (io : VerifyIoU) (h : ret ≠ 0) : Verdict.Result (.ok (ret, io)) .badData
  | asserts (e : VFail) : Verdict.Result (.error e) .asserts

def Verdict.Leaves : Verdict → Nat → Prop
  | .good, ret => ret = 0
  | .badData, ret => ret ≠ 0
  | _, _ => False

variable {sums : Checksums} {g : Garbage} {o : VerifyOptions}

theorem Verdict.Leaves.result {v : Verdict} {ret : Nat} (h : v.Leaves ret) (io : VerifyIoU) :
    Verdict.Result (.ok (ret, io)) v := by
  cases v with
  | good => rw [show ret = 0 from h]; exact .good io
  | badData => exact .badData io h
  | badHeader => exact absurd h id
  | asserts => exact absurd h id

theorem deciding_of_stops {fatal : Bool} {v : Verdict} (h : v.stops fatal = true)
    (vs : List Verdict) : deciding fatal v vs = v := by
  cases vs with
  | nil => rfl
  | cons w ws => rw [deciding, if_pos h]

theorem verifyUnswap_ok (g : Garbage) (o : VerifyOptions) (mem : Mem) (p : Nat) :
    ∃ mem', verifyUnswap g o mem p = .ok mem' := by
  have hsize := headerSize_le o
  unfold verifyUnswap
  split
  · exact ⟨_, by rw [memswp, if_neg (by omega)]⟩
  · exact ⟨mem, rfl⟩

/-- The loop returns what the deciding verdict says. The induction is on the intervals left, with the
verdict that `ret` stands for. -/
theorem verifyIoULoop_result : ∀ (fuel : Nat) {p hdrNum ret : Nat} {io : VerifyIoU} {v : Verdict},
    0 < getHdrInc o io.buflen → v.Leaves ret → io.buflen - p < fuel →
    Verdict.Result (verifyIoULoop sums g o fuel p hdrNum io ret)
      (deciding o.verifyFatal v (verdicts sums g o fuel p hdrNum io)) := by
  intro fuel
  induction fuel with
  | zero => intro p hdrNum ret io v _ _ hfuel; exact absurd hfuel (Nat.not_lt_zero _)
  | succ fuel ih =>
    intro p hdrNum ret io v hinc hleaves hfuel
    rw [verifyIoULoop, verdicts]
    by_cases hp : p < io.buflen
    · obtain ⟨mem, hmem⟩ := verifyUnswap_ok g o io.buf p
      rw [if_pos hp, if_pos hp, hmem]
      -- a fatal verdict ends the loop before the next header is looked at
      by_cases hstop : ret ≠ 0 ∧ o.verifyFatal = true
      · have hv : v.stops o.verifyFatal = true := by
          cases v with
          | good => exact absurd hleaves hstop.1
          | badData => exact hstop.2
          | badHeader => rfl
          | asserts => rfl
        rw [if_pos hstop, deciding_of_stops hv]
        exact hleaves.result io
      · have hv : ¬ v.stops o.verifyFatal = true := by
          cases v with
          | good => simp [Verdict.stops]
          | badData => exact fun hfatal => hstop ⟨hleaves, hfatal⟩
          | badHeader => exact absurd hleaves id
          | asserts => exact absurd hleaves id
        rw [if_neg hstop]
        dsimp only
        rw [deciding, if_neg hv]
        -- the later rounds decide on what this one leaves
        have hrest : ∀ {r : Nat} {w : Verdict}, w.Leaves r →
            Verdict.Result (verifyIoULoop sums g o fuel (p + getHdrInc o io.buflen) (hdrNum + 1)
                (atInterval o io mem p) r)
              (deciding o.verifyFatal w (verdicts sums g o fuel (p + getHdrInc o io.buflen)
                (hdrNum + 1) (atInterval o io mem p))) := fun hw =>
          ih hinc hw (show io.buflen - (p + getHdrInc o io.buflen) < fuel by omega)
        show Verdict.Result
          (if verifyHeader sums (atInterval o io mem p).buf (atInterval o io mem p).randSeed p
              (getHdrInc o (atInterval o io mem p).buflen) ≠ 0 then
            .ok (verifyHeader sums (atInterval o io mem p).buf (atInterval o io mem p).randSeed p
              (getHdrInc o (atInterval o io mem p).buflen), atInterval o io mem p)
          else (checkData sums g o (atInterval o io mem p) p hdrNum).bind fun ret =>
            verifyIoULoop sums g o fuel (p + getHdrInc o io.buflen) (hdrNum + 1)
              (atInterval o io mem p) ret)
          (deciding o.verifyFatal (verdictAt sums g o (atInterval o io mem p) p hdrNum) _)
        generalize atInterval o io mem p = io' at hrest ⊢
        unfold verdictAt
        by_cases hhdr : verifyHeader sums io'.buf io'.randSeed p (getHdrInc o io'.buflen) ≠ 0
        · rw [if_pos hhdr, if_pos hhdr, deciding_of_stops rfl]
          exact .badHeader _ hhdr
        · rw [if_neg hhdr, if_neg hhdr]
          cases checkData sums g o io' p hdrNum with
          | error e =>
            rw [show dataVerdict (.error e) = .asserts from rfl, deciding_of_stops rfl]
            exact .asserts e
          | ok r =>
            cases r with
            | zero => exact hrest (show Verdict.good.Leaves 0 from rfl)
            | succ r => exact hrest (show Verdict.badData.Leaves (r + 1) from Nat.succ_ne_zero r)
    · rw [if_neg hp, if_neg hp]
      exact hleaves.result io

/-- A read buffer that `verify_io_u` looks at; an I/O has at most `max_bs`, an `unsigned int`. -/
structure Verified (o : VerifyOptions) (io : VerifyIoU) : Prop where
  notNull : o.verify ≠ .null
  read : io.ddir = .read
  realIo : o.fakeio = false
  notTrimmed : io.trimmed = false
  small : io.buflen < 2 ^ 32

theorem verifyIoU_result {io : VerifyIoU} (h : Verified o io) :
    Verdict.Result (verifyIoU sums g o io) (deciding o.verifyFatal .good (io.verdicts sums g o)) := by
  have hnot : ¬ (o.verify = .null ∨ io.ddir ≠ .read) := by
    rintro (hnull | hread)
    · exact h.notNull hnull
    · exact hread h.read
  rw [verifyIoU, if_neg hnot, h.realIo, h.notTrimmed]
  show Verdict.Result (verifyIoULoop sums g o (io.buflen + 1) 0 0 io 0) _
  rcases Nat.eq_zero_or_pos io.buflen with hzero | hpos
  · rw [VerifyIoU.verdicts, verifyIoULoop, verdicts, if_neg (by omega), if_neg (by omega)]
    exact .good io
  · refine verifyIoULoop_result _ ?_ (show Verdict.good.Leaves 0 from rfl) (by omega)
    have hsmall := h.small
    unfold getHdrInc
    split
    · omega
    · rw [Nat.mod_eq_of_lt hsmall]
      exact hpos

theorem Verdict.Result.fails_iff {v : Verdict} {r : Except VFail (Nat × VerifyIoU)}
    (h : Verdict.Result r v) : (∃ ret io', r = .ok (ret, io') ∧ ret ≠ 0) ↔ v.Fails := by
  cases h with
  | good io => simp [Verdict.Fails]
  | badHeader io hret => exact ⟨fun _ => .inl rfl, fun _ => ⟨_, io, rfl, hret⟩⟩
  | badData io hret => exact ⟨fun _ => .inr rfl, fun _ => ⟨_, io, rfl, hret⟩⟩
  | asserts e => simp [Verdict.Fails]

/-- **When a failure is returned.** For every read buffer and all options: if some interval fails,
`verify_io_u` returns an error, exactly if no interval fails or the interval that decides does: the
first one with a bad header, without a type, or with bad data under `verify_fatal`, and the last one
of the buffer if there is none. -/
theorem failure_returned_iff {io : VerifyIoU} (h : Verified o io) :
    FailureReturned sums g o io ↔
      (∀ v ∈ io.verdicts sums g o, ¬ v.Fails) ∨
        (deciding o.verifyFatal .good (io.verdicts sums g o)).Fails := by
  have hiff := (@verifyIoU_result sums g o io h).fails_iff
  constructor
  · intro hreturned
    by_cases hfails : ∃ v ∈ io.verdicts sums g o, v.Fails
    · exact .inr (hiff.mp (hreturned hfails))
    · exact .inl fun v hv hf => hfails ⟨v, hv, hf⟩
  · rintro (hnone | hdecides) ⟨v, hv, hf⟩
    · exact absurd hf (hnone v hv)
    · exact hiff.mpr hdecides

/-- A checksum every 512 bytes of a block of 4096. -/
theorem failure_returned_crc32c :
    Verified (verifyJob .crc32c 512 []) { emptyIoU 4096 with ddir := .read } ∧
      (FailureReturned noSums zeroGarbage (verifyJob .crc32c 512 [])
          { emptyIoU 4096 with ddir := .read } ↔
        (∀ v ∈ VerifyIoU.verdicts noSums zeroGarbage (verifyJob .crc32c 512 [])
            { emptyIoU 4096 with ddir := .read }, ¬ v.Fails) ∨
          (deciding false .good (VerifyIoU.verdicts noSums zeroGarbage (verifyJob .crc32c 512 [])
            { emptyIoU 4096 with ddir := .read })).Fails) := by
  have h : Verified (verifyJob .crc32c 512 []) { emptyIoU 4096 with ddir := .read } :=
    ⟨by decide, rfl, rfl, rfl, by decide⟩
  exact ⟨h, failure_returned_iff h⟩

/-! ## A failure that is lost -/

theorem verifyHeader_congr {mem mem' : Mem} {p : Nat} (h : Agree mem mem' p 20) (seed : BitVec 64)
    (len : Nat) : verifyHeader sums mem seed p len = verifyHeader sums mem' seed p len := by
  unfold verifyHeader
  rw [h.loadLE (Nat.le_refl p) (by omega), h.loadLE (by omega) (by omega),
    h.loadLE (by omega) (by omega), h.loadLE (by omega) (by omega), h.load (Nat.le_refl p) (by omega)]

theorem verifyHeader_fillHdr (io : VerifyIoU) (mem : Mem) {q inc : Nat} (hinc : inc < 2 ^ 32) :
    verifyHeader sums (fillHdr sums o io mem q inc) io.randSeed q inc = 0 := by
  obtain ⟨hmagic, -, hlen, hseed, hcrc⟩ := @fillHdr_fields sums o inc q mem io hinc
  unfold verifyHeader
  rw [hmagic, hlen, hseed, hcrc]
  simp

def metaJob : VerifyOptions :=
  { verifyJob .metaData 64 [] with verifysort := false, writes := false }

def metaHeaders (sums : Checksums) : Mem :=
  fillHdr sums metaJob (emptyIoU 128)
    (fillHdr sums metaJob (emptyIoU 128) (fun _ => 0#8) 0 64) 64 64

def metaIoU (sums : Checksums) : VerifyIoU :=
  { emptyIoU 128 with
    buf := storeLE (storeLE (metaHeaders sums) 24 8 1) 88 8 64
    ddir := .read }

theorem metaIoU_headers (sums : Checksums) :
    verifyHeader sums (metaIoU sums).buf 0#64 0 64 = 0 ∧
      verifyHeader sums (metaIoU sums).buf 0#64 64 64 = 0 := by
  have hfirst : Agree (metaIoU sums).buf
      (fillHdr sums metaJob (emptyIoU 128) (fun _ => 0#8) 0 64) 0 20 := by
    intro x _ hx
    show storeLE (storeLE (metaHeaders sums) 24 8 1) 88 8 64 x = _
    rw [storeLE_outside (by omega), storeLE_outside (by omega), metaHeaders,
      fillHdr_outside (by omega)]
  have hsecond : Agree (metaIoU sums).buf (metaHeaders sums) 64 20 := by
    intro x hx hx'
    show storeLE (storeLE (metaHeaders sums) 24 8 1) 88 8 64 x = _
    rw [storeLE_outside (by omega), storeLE_outside (by omega)]
  exact ⟨(verifyHeader_congr hfirst _ _).trans (verifyHeader_fillHdr (emptyIoU 128) _ (by decide)),
    (verifyHeader_congr hsecond _ _).trans (verifyHeader_fillHdr (emptyIoU 128) _ (by decide))⟩

theorem metaIoU_verdicts (sums : Checksums) (g : Garbage) :
    (metaIoU sums).verdicts sums g metaJob = [.badData, .good] := by
  obtain ⟨hfirst, hsecond⟩ := metaIoU_headers sums
  have hbytes : metaJob.verifyPatternBytes = 0 := by decide +kernel
  have hchecks : checksNumberio metaJob = false := rfl
  have hdata : ∀ p num, checkData sums g metaJob (metaIoU sums) p num
      = .ok (if loadLE (metaIoU sums).buf (p + 24) 8 = metaOffset metaJob (metaIoU sums) num then 0
        else eilseq) := by
    intro p num
    show Except.ok (verifyIoUMeta metaJob (metaIoU sums) (metaIoU sums).buf p num) = _
    unfold verifyIoUMeta hdrPriv
    simp only [hbytes, hchecks, ne_eq, not_true_eq_false, if_false, Bool.false_eq_true, false_and]
  -- the first offset is wrong by one, the second is right
  have hload0 : loadLE (metaIoU sums).buf 24 8 = 1 := by
    show loadLE (storeLE (storeLE (metaHeaders sums) 24 8 1) 88 8 64) 24 8 = 1
    rw [loadLE_storeLE_apart _ _ (by unfold Apart; omega), loadLE_storeLE_same _ _ (by decide)]
  have hload1 : loadLE (metaIoU sums).buf 88 8 = 64 := loadLE_storeLE_same _ _ (by decide)
  have hv0 : verdictAt sums g metaJob (metaIoU sums) 0 0 = .badData := by
    show (if verifyHeader sums (metaIoU sums).buf 0#64 0 64 ≠ 0 then Verdict.badHeader else _) = _
    rw [if_neg (not_not.mpr hfirst), hdata, Nat.zero_add, hload0]
    rfl
  have hv1 : verdictAt sums g metaJob (metaIoU sums) 64 1 = .good := by
    show (if verifyHeader sums (metaIoU sums).buf 0#64 64 64 ≠ 0 then Verdict.badHeader else _) = _
    rw [if_neg (not_not.mpr hsecond), hdata, hload1]
    rfl
  have hlen : (metaIoU sums).buflen = 128 := rfl
  rw [VerifyIoU.verdicts, verdicts, if_pos (by omega)]
  show verdictAt sums g metaJob (metaIoU sums) 0 0 :: verdicts sums g metaJob 128 64 1 (metaIoU sums) = _
  rw [hv0, verdicts, if_pos (by omega)]
  show Verdict.badData :: verdictAt sums g metaJob (metaIoU sums) 64 1 ::
    verdicts sums g metaJob 127 128 2 (metaIoU sums) = _
  rw [hv1, verdicts, if_neg (by omega)]

/-- Whatever the checksum functions are: the first interval fails, the second passes, and
`verify_io_u` returns 0. -/
theorem failure_lost_before_good : metaJob.verifyFatal = false ∧
    ∀ (sums : Checksums) (g : Garbage), Verified metaJob (metaIoU sums) ∧
      (∃ io', verifyIoU sums g metaJob (metaIoU sums) = .ok (0, io')) ∧
      ¬ FailureReturned sums g metaJob (metaIoU sums) := by
  refine ⟨rfl, fun sums g => ?_⟩
  have h : Verified metaJob (metaIoU sums) :=
    ⟨by decide, rfl, rfl, rfl, show 128 < 2 ^ 32 by decide⟩
  have hresult := @verifyIoU_result sums g metaJob (metaIoU sums) h
  rw [metaIoU_verdicts, show deciding metaJob.verifyFatal .good [.badData, .good] = .good from rfl]
    at hresult
  generalize hcall : verifyIoU sums g metaJob (metaIoU sums) = r at hresult
  cases hresult with
  | good io' =>
    refine ⟨h, ⟨io', rfl⟩, fun hreturned => ?_⟩
    obtain ⟨ret, io'', hret, hne⟩ := hreturned
      ⟨.badData, by rw [metaIoU_verdicts]; simp, .inr rfl⟩
    obtain ⟨rfl, -⟩ := Prod.mk.inj (Except.ok.inj (hcall.symm.trans hret))
    exact hne rfl

end MysqlBench.Fio
