import MysqlBench.Fio.Verify.Blocks

/-!
# Written buffers and their verification

The loops over the intervals of a buffer. The writer leaves every interval with its header
(`fillPatternHeaders_spec`), and of the reader's checks those count whose result survives: all of
them with `verify_fatal`, the last one without (`verifyIoULoop_spec`).

From this follows for which options a written buffer always verifies (`verify_round_trip_iff`).
There are four ways to fail. A header that is moved by less than its size overlaps the place it is
moved to. The SHA types compare the block buffer of the context, the end of which is whatever was
there before as long as less than a block of data goes through it. A pattern that parses to no
bytes at all makes the writer use random data, but is still compared with. And a pattern is
repeated over the whole buffer by the writer, but from the start of each interval by the reader.
-/

namespace MysqlBench.Fio

open MysqlBench.Lib

structure VerifyAccepted (o : VerifyOptions) (buflen : Nat) : Prop where
  notNone : o.verify ≠ .none
  notNull : o.verify ≠ .null
  small : buflen < 2 ^ 32
  divides : getHdrInc o buflen ∣ buflen
  fits : headerSize o + o.verifyOffset ≤ getHdrInc o buflen
  parsed : ∃ previous parsed, parsed.length ≤ 512 ∧
    (o.verifyPattern, o.verifyPatternBytes) = patternFill previous parsed
  realIo : o.fakeio = false

namespace VerifyAccepted

variable {o : VerifyOptions} {buflen : Nat}

theorem patternOk (h : VerifyAccepted o buflen) :
    PatternOk o.verifyPattern o.verifyPatternBytes := by
  obtain ⟨previous, parsed, hlen, heq⟩ := h.parsed
  have := patternFill_ok previous hlen
  rwa [← heq] at this

theorem inc_pos (h : VerifyAccepted o buflen) : 0 < getHdrInc o buflen := by
  have := h.fits
  have := headerSize_le o
  omega

theorem inc_le (_ : VerifyAccepted o buflen) : getHdrInc o buflen ≤ buflen := by
  unfold getHdrInc
  split
  · next hi => exact hi.2
  · exact Nat.mod_le _ _

theorem inc_lt (h : VerifyAccepted o buflen) : getHdrInc o buflen < 2 ^ 32 :=
  Nat.lt_of_le_of_lt h.inc_le h.small

theorem next_le (h : VerifyAccepted o buflen) {n : Nat} (hn : n * getHdrInc o buflen < buflen) :
    (n + 1) * getHdrInc o buflen ≤ buflen := by
  obtain ⟨k, hk⟩ := h.divides
  generalize getHdrInc o buflen = inc at hn hk ⊢
  rw [Nat.mul_comm] at hk
  subst hk
  exact Nat.mul_le_mul_right inc (Nat.lt_of_mul_lt_mul_right hn)

end VerifyAccepted

/-! ## The writer -/

section Writer

variable {sums : Checksums} {o : VerifyOptions} {io : VerifyIoU}

theorem fillPatternHeaders_spec (g : Garbage) {fill : Mem} (h : VerifyAccepted o io.buflen)
    (hswap : SwapOk o) (hnum : io.numberio < 2 ^ 16) :
    ∀ (fuel num : Nat) (mem : Mem), num * getHdrInc o io.buflen ≤ io.buflen →
    io.buflen < num * getHdrInc o io.buflen + fuel →
    (∀ x, num * getHdrInc o io.buflen ≤ x → x < io.buflen → mem x = fill x) →
    ∃ m, fillPatternHeaders sums g o io fuel (num * getHdrInc o io.buflen) num mem = .ok m ∧
      (∀ n, num ≤ n → (n + 1) * getHdrInc o io.buflen ≤ io.buflen →
        Headed sums o (getHdrInc o io.buflen) io.randSeed (metaOffset o io n) io.numberio fill
          (unswap o m (n * getHdrInc o io.buflen)) (n * getHdrInc o io.buflen)) ∧
      ∀ x, x < num * getHdrInc o io.buflen → m x = mem x := by
  have hpos := h.inc_pos
  have hfit := h.fits
  intro fuel
  induction fuel with
  | zero => intro num mem h1 h2; omega
  | succ fuel ih =>
    intro num mem h1 h2 hfill
    rw [fillPatternHeaders]
    by_cases hlt : num * getHdrInc o io.buflen < io.buflen
    · rw [if_pos hlt]
      have hnext := h.next_le hlt
      have hsucc : (num + 1) * getHdrInc o io.buflen
          = num * getHdrInc o io.buflen + getHdrInc o io.buflen := Nat.succ_mul _ _
      obtain ⟨m₁, hpop, hheaded, hout⟩ := @populateHdr_spec sums o (getHdrInc o io.buflen)
        (num * getHdrInc o io.buflen) fill mem g io num h.notNone h.notNull hswap hfit h.inc_lt hnum
        (fun x hx1 hx2 => hfill x hx1 (by omega))
      obtain ⟨m, hloop, hall, hbelow⟩ := ih (num + 1) m₁ hnext (by omega) (fun x hx1 hx2 => by
        rw [hout x (Or.inr (by omega))]
        exact hfill x (by omega) hx2)
      refine ⟨m, ?_, ?_, ?_⟩
      · rw [hpop]
        simp only [bind, Except.bind]
        rw [← hsucc]
        exact hloop
      · intro n hn hle
        -- this header is not touched by the later rounds; the later ones are theirs
        rcases Nat.eq_or_lt_of_le hn with rfl | hn
        · refine hheaded.agree (by omega) (unswap_agree hfit fun x hx1 hx2 => ?_)
          exact (hbelow x (by omega)).symm
        · exact hall n hn hle
      · intro x hx
        rw [hbelow x (by omega)]
        exact hout x (Or.inl hx)
    · rw [if_neg hlt]
      refine ⟨mem, rfl, ?_, fun _ _ => rfl⟩
      intro n hn hle
      have := Nat.mul_le_mul_right (getHdrInc o io.buflen) hn
      rw [Nat.succ_mul] at hle
      omega

theorem fillVerifyPattern_spec (draw : BitVec 64) (hok : PatternOk o.verifyPattern o.verifyPatternBytes)
    (hfresh : io.bufFilledLen < io.buflen) :
    ∃ io₁, fillVerifyPattern o draw io = .ok io₁ ∧ io₁.buflen = io.buflen ∧
      io₁.numberio = io.numberio ∧
      (o.verifyPatternBytes = 0 → io₁.buf = fillRandomBuf io.buf io.buflen draw) ∧
      (o.verifyPatternBytes ≠ 0 → ∀ x, x < io.buflen → io₁.buf x = o.verifyPattern (x % 512)) := by
  unfold fillVerifyPattern
  by_cases hb : o.verifyPatternBytes = 0
  · rw [if_pos hb]
    exact ⟨_, rfl, rfl, rfl, fun _ => rfl, fun h => absurd hb h⟩
  · rw [if_neg hb, if_neg (by omega)]
    obtain ⟨mem, hfill, hmem⟩ := @fillPattern_spec io.buf _ _ io.buflen hok hb
    rw [hfill]
    exact ⟨_, rfl, rfl, rfl, fun h => absurd h hb, fun _ => hmem⟩

end Writer

/-! ## The reader -/

section Reader

variable {sums : Checksums} {o : VerifyOptions} {g : Garbage} {fill : Mem} {io : VerifyIoU}

def PassesFrom (o : VerifyOptions) (g : Garbage) (buflen : Nat) (fill : Mem) (num : Nat) : Prop :=
  ∀ n, num ≤ n → (n + 1) * getHdrInc o buflen ≤ buflen →
    o.verifyFatal = true ∨ (n + 1) * getHdrInc o buflen = buflen →
    Passes o g (getHdrInc o buflen) fill n

/-- The seed that is expected is the one that was written, also where it is taken from the header
itself. -/
theorem expected_seed {inc off num q : Nat} {mem : Mem} {seed : BitVec 64}
    (h : Headed sums o inc seed off num fill mem q) :
    (if o.verifysort || o.verBacklog then BitVec.ofNat 64 (loadLE mem (q + 8) 8) else seed)
      = seed := by
  rw [h.seed, BitVec.ofNat_toNat, BitVec.setWidth_eq, ite_self]

theorem verifyIoULoop_spec (h : VerifyAccepted o io.buflen) (hswap : SwapOk o) :
    ∀ (fuel num : Nat) (mem : Mem) (ret : Nat), num * getHdrInc o io.buflen ≤ io.buflen →
    io.buflen < num * getHdrInc o io.buflen + fuel →
    (∀ n, num ≤ n → (n + 1) * getHdrInc o io.buflen ≤ io.buflen →
      Headed sums o (getHdrInc o io.buflen) io.randSeed (metaOffset o io n) io.numberio fill
        (unswap o mem (n * getHdrInc o io.buflen)) (n * getHdrInc o io.buflen)) →
    ∃ r io', verifyIoULoop sums g o fuel (num * getHdrInc o io.buflen) num { io with buf := mem } ret
        = .ok (r, io') ∧
      (r = 0 ↔ (num * getHdrInc o io.buflen = io.buflen ∨ o.verifyFatal = true → ret = 0) ∧
        PassesFrom o g io.buflen fill num) := by
  have hpos := h.inc_pos
  have hfit := h.fits
  have hinc := h.inc_lt
  have hsmall := h.small
  intro fuel
  induction fuel with
  | zero => intro num mem ret h1 h2; omega
  | succ fuel ih =>
    intro num mem ret h1 h2 hheaded
    rw [verifyIoULoop]
    by_cases hlt : num * getHdrInc o io.buflen < io.buflen
    · rw [if_pos hlt]
      have hnext := h.next_le hlt
      have hsucc : (num + 1) * getHdrInc o io.buflen
          = num * getHdrInc o io.buflen + getHdrInc o io.buflen := Nat.succ_mul _ _
      by_cases hfatal : ret ≠ 0 ∧ o.verifyFatal = true
      · rw [if_pos hfatal]
        exact ⟨_, _, rfl, fun hr => absurd hr hfatal.1, fun hc => hc.1 (Or.inr hfatal.2)⟩
      · rw [if_neg hfatal]
        have hhd := hheaded num (Nat.le_refl _) hnext
        have hhs : headerSize o ≤ getHdrInc o io.buflen := by omega
        have hq : num * getHdrInc o io.buflen < 2 ^ 32 := by omega
        obtain ⟨c, hpriv, hpass⟩ := @verifyPriv_spec sums o io.randSeed fill
          (unswap o mem (num * getHdrInc o io.buflen)) g
          { io with buf := unswap o mem (num * getHdrInc o io.buflen) } num h.notNone h.notNull
          h.patternOk hhd hhs hinc hq
        obtain ⟨r, io', hloop, hr⟩ := ih (num + 1) (unswap o mem (num * getHdrInc o io.buflen)) c
          hnext (by omega) (fun n hn hle => by
            refine (hheaded n (by omega) hle).agree (by omega) (unswap_agree hfit fun x hx1 _ => ?_)
            have := Nat.mul_le_mul_right (getHdrInc o io.buflen) hn
            exact (unswap_outside mem hfit (by omega)).symm)
        refine ⟨r, io', ?_, ?_⟩
        · rw [verifyUnswap_eq hswap]
          simp only [bind, Except.bind]
          rw [expected_seed hhd, hhd.verifyHeader, if_neg (by simp), if_pos h.notNone, hpriv, ← hsucc]
          exact hloop
        · rw [hr]
          -- the result so far counts only at the end or with `verify_fatal`
          constructor
          · rintro ⟨hc, hrest⟩
            refine ⟨fun hor => ?_, fun n hn hle hcount => ?_⟩
            · rcases hor with heq | hf
              · omega
              · by_contra hne
                exact hfatal ⟨hne, hf⟩
            · rcases Nat.eq_or_lt_of_le hn with rfl | hn
              · exact hpass.mp (hc hcount.symm)
              · exact hrest n hn hle hcount
          · rintro ⟨-, hall⟩
            exact ⟨fun hor => hpass.mpr (hall num (Nat.le_refl _) hnext hor.symm),
              fun n hn => hall n (by omega)⟩
    · rw [if_neg hlt]
      refine ⟨ret, _, rfl, fun hr => ⟨fun _ => hr, fun n hn hle => ?_⟩,
        fun hc => hc.1 (Or.inl (by omega))⟩
      have := Nat.mul_le_mul_right (getHdrInc o io.buflen) hn
      rw [Nat.succ_mul] at hle
      omega

end Reader

/-! ## Random data -/

theorem fillRandomLoop_spec (len : Nat) : ∀ (fuel k : Nat) (seed : BitVec 64) (mem : Mem),
    len ≤ 8 * k + fuel → ∀ x, x < len → fillRandomLoop len fuel (8 * k) seed mem x
      = if x < 8 * k then mem x
        else BitVec.ofNat 8 ((randomStep^[x / 8 - k] seed).toNat / 256 ^ (x % 8)) := by
  intro fuel
  induction fuel with
  | zero => intro k seed mem hf x hx; rw [fillRandomLoop, if_pos (by omega)]
  | succ fuel ih =>
    intro k seed mem hf x hx
    rw [fillRandomLoop]
    by_cases hlt : 8 * k < len
    · rw [if_pos hlt, show 8 * k + 8 = 8 * (k + 1) by omega, ih _ _ _ (by omega) x hx]
      by_cases hxk : x < 8 * k
      · rw [if_pos (by omega), if_pos hxk]
        exact storeLE_outside (Or.inl hxk)
      · rw [if_neg hxk]
        by_cases hin : x < 8 * (k + 1)
        · have hdiv : x / 8 = k := by omega
          rw [if_pos hin, hdiv, Nat.sub_self, storeLE, store, length_leBytes,
            if_pos (by omega), getD_leBytes _ _ _ (by omega), show x - 8 * k = x % 8 by omega]
          rfl
        · rw [if_neg hin, show x / 8 - k = (x / 8 - (k + 1)) + 1 by omega,
            Function.iterate_succ_apply]
    · rw [if_neg hlt, if_pos (by omega)]

theorem fillRandomBuf_apply (mem : Mem) (seed : BitVec 64) {len x : Nat} (hx : x < len) :
    fillRandomBuf mem len seed x
      = BitVec.ofNat 8 ((randomStep^[x / 8] seed).toNat / 256 ^ (x % 8)) :=
  fillRandomLoop_spec len len 0 seed mem (by omega) x hx

def seedCycle : List (BitVec 64) :=
  [0x0acaf007b128f7c9#64, 0x1194856c7a409ef9#64, 0x0e0b538d3fcb93df#64, 0x1753ca8bde09f27b#64,
    0x1c418a4c8283be4f#64]

theorem seedCycle_closed : ∀ c ∈ seedCycle, ∃ s ∈ seedCycle, randomStep s = c := by
  simp [seedCycle, randomStep]

theorem seedCycle_reaches : ∀ (k : Nat), ∀ c ∈ seedCycle, ∃ s ∈ seedCycle, randomStep^[k] s = c := by
  intro k
  induction k with
  | zero => intro c hc; exact ⟨c, hc, rfl⟩
  | succ k ih =>
    intro c hc
    obtain ⟨s, hs, rfl⟩ := ih c hc
    obtain ⟨s', hs', rfl⟩ := seedCycle_closed s hs
    exact ⟨s', hs', Function.iterate_succ_apply _ _ _⟩

theorem randomStep_zero (k : Nat) : randomStep^[k] 0#64 = 0#64 :=
  Function.iterate_fixed (by decide) k

theorem random_byte_differs (mem : Mem) {len x : Nat} (hx : x < len) (v : Byte) :
    ∃ seed, fillRandomBuf mem len seed x ≠ v := by
  by_cases hv : v = 0#8
  · obtain ⟨s, -, hs⟩ := seedCycle_reaches (x / 8) 0x0acaf007b128f7c9#64 (by decide)
    refine ⟨s, ?_⟩
    rw [fillRandomBuf_apply mem s hx, hs, hv]
    have hbytes : ∀ j, j < 8 →
        BitVec.ofNat 8 ((0x0acaf007b128f7c9#64).toNat / 256 ^ j) ≠ 0#8 := by decide
    exact hbytes _ (Nat.mod_lt _ (by decide))
  · refine ⟨0#64, ?_⟩
    rw [fillRandomBuf_apply mem _ hx, randomStep_zero]
    simpa using Ne.symm hv

/-! ## The round trip -/

/-- A freshly filled buffer of `buflen` bytes that is written and read back unchanged verifies,
whatever was in it before, for any checksum functions, and whatever C leaves open. -/
def RoundTrip (o : VerifyOptions) (buflen : Nat) : Prop :=
  ∀ (sums : Checksums) (g g' : Garbage) (draw : BitVec 64) (issues : Nat) (io : VerifyIoU),
    io.buflen = buflen → io.bufFilledLen < buflen →
    ∃ io₁ io₂, populateVerifyIoU sums g o draw issues io = .ok io₁ ∧
      verifyIoU sums g' o { io₁ with ddir := .read, trimmed := false } = .ok (0, io₂)

structure VerifyHolds (o : VerifyOptions) (buflen : Nat) : Prop where
  /-- the header and the place it is moved to do not overlap -/
  swap : SwapOk o
  /-- a whole block of data goes through the SHA contexts -/
  sha : ∀ b, shaOf o.verify = some b → headerSize o + b ≤ getHdrInc o buflen
  /-- a pattern that is compared with has bytes, or there is nothing to compare -/
  bytes : o.verify = .pattern → o.verifyPatternBytes ≠ 0 ∨ getHdrInc o buflen = headerSize o
  /-- in the intervals that count the pattern reads as it does from the start of the buffer -/
  phase : o.verify = .pattern ∨ o.verify = .metaData → o.verifyPatternBytes ≠ 0 →
    ∀ n, (n + 1) * getHdrInc o buflen ≤ buflen →
      o.verifyFatal = true ∨ (n + 1) * getHdrInc o buflen = buflen →
      ∀ i, headerSize o ≤ i → i < getHdrInc o buflen →
        o.verifyPattern ((n * getHdrInc o buflen + i) % 512) = o.verifyPattern (i % 512)

section RoundTrip

variable {o : VerifyOptions} {buflen : Nat}

/-- What becomes of a buffer: it is filled, written, and the intervals that count are checked
against what it was filled with. -/
theorem verify_written (h : VerifyAccepted o buflen) (hswap : SwapOk o) (draw : BitVec 64)
    (issues : Nat) {io : VerifyIoU} (hlen : io.buflen = buflen) (hfresh : io.bufFilledLen < buflen) :
    ∃ fill : Mem, (o.verifyPatternBytes = 0 → fill = fillRandomBuf io.buf buflen draw) ∧
      (o.verifyPatternBytes ≠ 0 → ∀ x, x < buflen → fill x = o.verifyPattern (x % 512)) ∧
      ∀ (sums : Checksums) (g g' : Garbage), ∃ io₁ r io₂,
        populateVerifyIoU sums g o draw issues io = .ok io₁ ∧
        verifyIoU sums g' o { io₁ with ddir := .read, trimmed := false } = .ok (r, io₂) ∧
        (r = 0 ↔ PassesFrom o g' buflen fill 0) := by
  subst hlen
  obtain ⟨iof, hfill, hbuflen, hnum, hrandom, hpattern⟩ := @fillVerifyPattern_spec o
    { io with numberio := issues % 2 ^ 16 } draw h.patternOk hfresh
  have h' : VerifyAccepted o iof.buflen := by rw [hbuflen]; exact h
  refine ⟨iof.buf, hrandom, hpattern, fun sums g g' => ?_⟩
  obtain ⟨m, hwrite, hheaded, -⟩ := @fillPatternHeaders_spec sums o iof g iof.buf h' hswap
    (by rw [hnum]; exact Nat.mod_lt _ (by decide)) (iof.buflen + 1) 0 iof.buf (by omega) (by omega)
    (fun _ _ _ => rfl)
  obtain ⟨r, io₂, hread, hr⟩ := @verifyIoULoop_spec sums o g' iof.buf
    { iof with ddir := .read, trimmed := false } h' hswap (iof.buflen + 1) 0 m 0 (by omega)
    (by show iof.buflen < _; omega) hheaded
  rw [Nat.zero_mul] at hwrite hread
  refine ⟨{ iof with buf := m }, r, io₂, ?_, ?_, ?_⟩
  · rw [populateVerifyIoU, if_neg h.notNull, hfill]
    simp only [bind, Except.bind]
    rw [hwrite]
  · rw [verifyIoU, if_neg (by simp [h.notNull]), if_neg (by simp [h.realIo]), if_neg (by simp)]
    exact hread
  · rw [hr]
    show _ ∧ PassesFrom o g' iof.buflen iof.buf 0 ↔ _
    rw [hbuflen]
    exact ⟨fun hc => hc.2, fun hp => ⟨fun _ => rfl, hp⟩⟩

theorem roundTrip_of_holds (h : VerifyAccepted o buflen) (hh : VerifyHolds o buflen) :
    RoundTrip o buflen := by
  intro sums g g' draw issues io hlen hfresh
  obtain ⟨fill, -, hpattern, hrun⟩ := verify_written h hh.swap draw issues hlen hfresh
  obtain ⟨io₁, r, io₂, hpop, hver, hr⟩ := hrun sums g g'
  have hruns : ∀ n, (n + 1) * getHdrInc o buflen ≤ buflen →
      o.verifyFatal = true ∨ (n + 1) * getHdrInc o buflen = buflen →
      o.verify = .pattern ∨ o.verify = .metaData → o.verifyPatternBytes ≠ 0 →
      PatternRuns o (getHdrInc o buflen) fill (n * getHdrInc o buflen) := by
    intro n hle hcount hv hbytes i h1 h2
    rw [Nat.succ_mul] at hle
    rw [hpattern hbytes _ (by omega)]
    exact hh.phase hv hbytes n (by rw [Nat.succ_mul]; exact hle) hcount i h1 h2
  refine ⟨io₁, io₂, hpop, ?_⟩
  rw [hver, hr.mpr ?_]
  intro n _ hle hcount
  refine ⟨fun b hb => ?_, fun hv => ?_, fun hv hbytes => hruns n hle hcount (Or.inr hv) hbytes⟩
  · refine shaUpdate_of_le (length_load _ _ _) (length_load _ _ _) ?_
    have := hh.sha b hb
    rw [length_load]
    omega
  · rcases hh.bytes hv with hbytes | hempty
    · exact hruns n hle hcount (Or.inl hv) hbytes
    · intro i h1 h2
      omega

def noSums : Checksums :=
  ⟨fun _ => 0, fun _ => 0, fun _ => 0, fun _ => 0, fun _ => 0, fun _ => 0, fun _ => 0, fun _ => 0⟩

def zeroGarbage : Garbage := ⟨fun _ => 0#8, fun _ _ => 0#8⟩

def emptyIoU (buflen : Nat) : VerifyIoU :=
  ⟨fun _ => 0#8, buflen, 0, 0, 0, 0#64, .write, false, 0, 0⟩

theorem populate_buflen {sums : Checksums} {g : Garbage} {draw : BitVec 64} {issues : Nat}
    {io io₁ : VerifyIoU} (hfresh : io.bufFilledLen < io.buflen) (h : VerifyAccepted o io.buflen)
    (hpop : populateVerifyIoU sums g o draw issues io = .ok io₁) : io₁.buflen = io.buflen := by
  obtain ⟨iof, hfill, hbuflen, -⟩ := @fillVerifyPattern_spec o
    { io with numberio := issues % 2 ^ 16 } draw h.patternOk hfresh
  rw [populateVerifyIoU, if_neg h.notNull, hfill] at hpop
  simp only [bind, Except.bind] at hpop
  split at hpop
  · exact absurd hpop (by simp)
  · obtain rfl := Except.ok.inj hpop
    exact hbuflen

theorem verifyHeader_zero {sums : Checksums} {mem : Mem} {q : Nat} (hq : mem q = 0#8)
    (seed : BitVec 64) (len : Nat) : verifyHeader sums mem seed q len = eilseq := by
  refine if_pos fun hmagic => ?_
  have hvalue : loadLE mem q 2 = (mem q).toNat + 256 * (mem (q + 1)).toNat := by
    simp [loadLE, load, List.range_succ, leValue]
  rw [hvalue, hq] at hmagic
  unfold fioHdrMagic at hmagic
  simp only [BitVec.toNat_zero, Nat.zero_add] at hmagic
  omega

theorem swapOk_of_roundTrip (h : VerifyAccepted o buflen) (hrt : RoundTrip o buflen) :
    SwapOk o := by
  by_contra hno
  have hoff : o.verifyOffset ≠ 0 ∧ o.verifyOffset < headerSize o := by
    unfold SwapOk at hno
    omega
  have hs := headerSize_le o
  have hpos : 0 < buflen := Nat.lt_of_lt_of_le h.inc_pos h.inc_le
  obtain ⟨io₁, io₂, hpop, hver⟩ := hrt noSums zeroGarbage zeroGarbage 0#64 0 (emptyIoU buflen) rfl hpos
  have hlen : io₁.buflen = buflen := @populate_buflen o _ _ _ _ (emptyIoU buflen) _ hpos h hpop
  have hmove : ∃ mem, verifyUnswap zeroGarbage o io₁.buf 0 = .ok mem ∧ mem 0 = 0#8 := by
    rw [verifyUnswap, if_pos hoff.1, memswp, if_neg (by omega), memcpy, if_neg (by omega)]
    refine ⟨_, rfl, ?_⟩
    rw [store_of_not_mem (Or.inl (by omega)), store_load_apply, if_pos (by omega)]
    rfl
  obtain ⟨mem, hmem, hzero⟩ := hmove
  rw [verifyIoU, if_neg (by simp [h.notNull]), if_neg (by simp [h.realIo]), if_neg (by simp),
    verifyIoULoop, if_pos (by show 0 < io₁.buflen; omega), if_neg (by simp)] at hver
  simp only [bind, Except.bind, hmem, verifyHeader_zero hzero] at hver
  rw [if_pos (by decide)] at hver
  exact absurd (Prod.mk.inj (Except.ok.inj hver)).1 (by decide)

theorem VerifyAccepted.exists_last (h : VerifyAccepted o buflen) :
    ∃ n, (n + 1) * getHdrInc o buflen = buflen := by
  obtain ⟨k, hk⟩ := h.divides
  have hpos : 0 < buflen := Nat.lt_of_lt_of_le h.inc_pos h.inc_le
  cases k with
  | zero => omega
  | succ k => exact ⟨k, by rw [Nat.mul_comm]; exact hk.symm⟩

theorem passes_of_roundTrip (h : VerifyAccepted o buflen) (hrt : RoundTrip o buflen)
    (draw : BitVec 64) :
    ∃ fill : Mem, (∀ g, PassesFrom o g buflen fill 0) ∧
      (o.verifyPatternBytes = 0 → fill = fillRandomBuf (fun _ => 0#8) buflen draw) ∧
      (o.verifyPatternBytes ≠ 0 → ∀ x, x < buflen → fill x = o.verifyPattern (x % 512)) := by
  have hpos : 0 < buflen := Nat.lt_of_lt_of_le h.inc_pos h.inc_le
  obtain ⟨fill, hrandom, hpattern, hrun⟩ := verify_written h (swapOk_of_roundTrip h hrt) draw 0
    (show (emptyIoU buflen).buflen = buflen from rfl) hpos
  refine ⟨fill, fun g => ?_, hrandom, hpattern⟩
  obtain ⟨io₁, r, io₂, hpop, hver, hr⟩ := hrun noSums zeroGarbage g
  obtain ⟨io₁', io₂', hpop', hver'⟩ := hrt noSums zeroGarbage g draw 0 (emptyIoU buflen) rfl hpos
  obtain rfl := Except.ok.inj (hpop.symm.trans hpop')
  exact hr.mp (Prod.mk.inj (Except.ok.inj (hver.symm.trans hver'))).1

theorem holds_of_roundTrip (h : VerifyAccepted o buflen) (hrt : RoundTrip o buflen) :
    VerifyHolds o buflen := by
  have hfits := h.fits
  obtain ⟨last, hlast⟩ := h.exists_last
  have hlast' := hlast
  rw [Nat.succ_mul] at hlast'
  refine ⟨swapOk_of_roundTrip h hrt, ?_, ?_, ?_⟩
  · -- a stack that differs from the header behind the data
    intro b hb
    by_contra hlt
    obtain ⟨fill, hpass, -⟩ := passes_of_roundTrip h hrt 0#64
    have hsz := privSize_sha hb
    have hsha := (hpass ⟨fun _ => 0#8, fun n i => fill (n * getHdrInc o buflen + 24 + i) + 1#8⟩ last
      (by omega) (by omega) (Or.inr hlast)).sha b hb
    rw [shaUpdate_of_lt (by rw [length_load]; omega), shaUpdate_of_lt (by rw [length_load]; omega),
      List.append_cancel_left_eq, length_load] at hsha
    have hbyte := congrArg (fun l => l[0]?) hsha
    simp only [List.getElem?_drop, Nat.add_zero, load, List.getElem?_map,
      List.getElem?_range (show getHdrInc o buflen - headerSize o < b by omega), Option.map_some,
      Nat.zero_add, Option.some.injEq] at hbyte
    exact absurd hbyte (by simp)
  · intro hv
    by_contra hno
    obtain ⟨hbytes, hdata⟩ : o.verifyPatternBytes = 0 ∧ headerSize o < getHdrInc o buflen := by omega
    -- a seed for which the random byte is not that of the pattern
    obtain ⟨seed, hseed⟩ := random_byte_differs (fun _ => 0#8)
      (show last * getHdrInc o buflen + headerSize o < buflen by omega)
      (o.verifyPattern (headerSize o % 512))
    obtain ⟨fill, hpass, hrandom, -⟩ := passes_of_roundTrip h hrt seed
    have hruns := (hpass zeroGarbage last (by omega) (by omega) (Or.inr hlast)).pattern hv
    rw [hrandom hbytes] at hruns
    exact hseed (hruns (headerSize o) (Nat.le_refl _) hdata)
  · intro hv hbytes n hle hcount i h1 h2
    obtain ⟨fill, hpass, -, hpattern⟩ := passes_of_roundTrip h hrt 0#64
    have hn := hpass zeroGarbage n (by omega) hle hcount
    rw [Nat.succ_mul] at hle
    rw [← hpattern hbytes _ (by omega)]
    rcases hv with hv | hv
    · exact hn.pattern hv i h1 h2
    · exact hn.metaInfo hv hbytes i h1 h2

end RoundTrip

/-- **When a written buffer verifies.** For all options that are accepted, whatever is on the stack
and in memory: a buffer that was written and not changed passes exactly with the options of
`VerifyHolds`, which excludes the four ways to fail. -/
theorem verify_round_trip_iff {o : VerifyOptions} {buflen : Nat} (h : VerifyAccepted o buflen) :
    RoundTrip o buflen ↔ VerifyHolds o buflen :=
  ⟨holds_of_roundTrip h, roundTrip_of_holds h⟩

def verifyJob (verify : VerifyType) (interval : Nat) (parsed : List Byte) : VerifyOptions :=
  { verify := verify, verifyInterval := interval, verifyOffset := 0
    verifyPattern := (patternFill (fun _ => 0#8) parsed).1
    verifyPatternBytes := (patternFill (fun _ => 0#8) parsed).2
    verifyFatal := false, verifysort := true, verBacklog := false, trimZero := false
    writes := true, minBs := 0, maxBs := 0, timeBased := false, verifyOnly := false, loops := 1
    threadNumber := 1, fakeio := false }

theorem verifyJob_accepted {verify : VerifyType} {interval buflen : Nat} {parsed : List Byte}
    (hnone : verify ≠ .none) (hnull : verify ≠ .null) (hparsed : parsed.length ≤ 512)
    (hpos : 0 < interval) (hlt : buflen < 2 ^ 32) (hle : interval ≤ buflen)
    (hdvd : interval ∣ buflen) (hfits : privSize verify + 24 ≤ interval) :
    VerifyAccepted (verifyJob verify interval parsed) buflen := by
  have hinc : getHdrInc (verifyJob verify interval parsed) buflen = interval :=
    if_pos ⟨by show interval ≠ 0; omega, hle⟩
  refine ⟨hnone, hnull, hlt, ?_, ?_, ⟨_, parsed, hparsed, rfl⟩, rfl⟩
  · rw [hinc]; exact hdvd
  · rw [hinc]; exact hfits

/-- A checksum every 512 bytes of a block of 4096. -/
theorem verify_round_trip_crc32c : RoundTrip (verifyJob .crc32c 512 []) 4096 :=
  (verify_round_trip_iff (verifyJob_accepted (by decide) (by decide) (by decide) (by decide)
    (by decide) (by decide) (by decide) (by decide))).mpr
    ⟨Or.inl rfl, fun _ hb => absurd hb (by simp [verifyJob, shaOf]),
      fun hv => absurd hv (by simp [verifyJob]), fun hv => absurd hv (by simp [verifyJob])⟩

/-- The pattern `abc` with a header every 100 bytes of a block of 200. -/
theorem verify_pattern_abc :
    VerifyAccepted (verifyJob .pattern 100 [0x61#8, 0x62#8, 0x63#8]) 200 ∧
      ¬ RoundTrip (verifyJob .pattern 100 [0x61#8, 0x62#8, 0x63#8]) 200 := by
  have hacc : VerifyAccepted (verifyJob .pattern 100 [0x61#8, 0x62#8, 0x63#8]) 200 :=
    verifyJob_accepted (by decide) (by decide) (by decide) (by decide) (by decide) (by decide)
      (by decide) (by decide)
  refine ⟨hacc, fun hrt => ?_⟩
  have hphase := (holds_of_roundTrip hacc hrt).phase (Or.inl rfl) (by decide +kernel) 1 (by decide)
    (Or.inr rfl) 24 (by decide) (by decide)
  exact absurd hphase (by decide +kernel)

end MysqlBench.Fio
