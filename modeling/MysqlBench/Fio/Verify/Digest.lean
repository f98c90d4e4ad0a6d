import MysqlBench.Fio.Verify.WholeBlocks
import MysqlBench.Fio.Verify.RoundTrip

/-!
# Which bytes a digest protects

A byte of a data area is protected if there are two areas that differ there and nowhere else, such
that the header written for the one makes the check reject the other, whatever else is in memory and
on the stack. For `md5` and `sha1` the values compared are the chaining states after the whole blocks
of 64 bytes, so the bytes behind the last whole block are not protected, and of an area shorter than
a block none is. The bytes of the whole blocks are, as far as this can be computed (`WholeBlocks`). For `sha256` and `sha512` the block buffer is compared: it holds the bytes behind
the last whole block and, after them, what they did not overwrite of the *first* block. So the bytes
of the blocks in the middle are not protected, and of the first block only the end.

`checkReplaced_sum` and `checkReplaced_sha` say what the check returns for a header written for one
area over another one; `shaUpdate_of_buffered` and `shaUpdate_of_not_buffered` say which positions of
the areas make the buffers differ.
-/

namespace MysqlBench.Fio

open MysqlBench.Lib

/-! ## The property -/

def withHashes (sums : Checksums) : Checksums := { sums with md5 := fioMd5, sha1 := fioSha1 }

/-- The header of interval `num` is written by `populate_hdr`, the data area behind it is replaced by
`d`, and `verify_io_u` makes its check, with the header moved back to its place. -/
def checkReplaced (sums : Checksums) (g : Garbage) (o : VerifyOptions) (io : VerifyIoU) (mem : Mem)
    (num : Nat) (d : List Byte) : Except VFail Nat := do
  let inc := headerSize o + d.length
  let mem ← populateHdr sums g o io mem (num * inc) num inc
  let mem ← verifyUnswap g o mem (num * inc)
  verifyPriv sums g o io (store mem (num * inc + headerSize o) d) o.verify.code (num * inc) num

structure Placed (o : VerifyOptions) (io : VerifyIoU) (mem : Mem) (num : Nat) (d : List Byte) :
    Prop where
  numberio : io.numberio < 2 ^ 16
  small : (num + 1) * (headerSize o + d.length) < 2 ^ 32
  area : load mem (num * (headerSize o + d.length) + headerSize o) d.length = d

def Rejects (sums : Checksums) (o : VerifyOptions) (d d' : List Byte) : Prop :=
  ∀ (g : Garbage) (io : VerifyIoU) (mem : Mem) (num : Nat), Placed o io mem num d →
    checkReplaced sums g o io mem num d' = .ok eilseq

def ByteProtected (sums : Checksums) (o : VerifyOptions) (len i : Nat) : Prop :=
  ∃ d d' : List Byte, d.length = len ∧ DiffersOnlyAt i d d' ∧ Rejects sums o d d'

/-- The interval of a job has room for `len` bytes of data and for the header at its offset. -/
structure AreaFits (o : VerifyOptions) (len : Nat) : Prop where
  swap : SwapOk o
  offset : o.verifyOffset ≤ len
  small : headerSize o + len < 2 ^ 32

/-! ## What the check compares -/

section Check

variable {sums : Checksums} {o : VerifyOptions} {g : Garbage} {io : VerifyIoU} {mem : Mem} {num : Nat}
  {d d' : List Byte}

theorem checkReplaced_eq (hnone : o.verify ≠ .none) (hnull : o.verify ≠ .null)
    (hfit : AreaFits o d.length) (hlen : d'.length = d.length) (hp : Placed o io mem num d) :
    ∃ m, checkReplaced sums g o io mem num d'
        = verifyPriv sums g o io (store m (num * (headerSize o + d.length) + headerSize o) d')
            o.verify.code (num * (headerSize o + d.length)) num ∧
      Headed sums o (headerSize o + d.length) io.randSeed (metaOffset o io num) io.numberio mem m
        (num * (headerSize o + d.length)) := by
  have hoff := hfit.offset
  obtain ⟨m, hm, hhead, -⟩ := @populateHdr_spec sums o (headerSize o + d.length)
    (num * (headerSize o + d.length)) mem mem g io num hnone hnull hfit.swap (by omega) hfit.small
    hp.numberio (fun _ _ _ => rfl)
  refine ⟨unswap o m (num * (headerSize o + d.length)), ?_, hhead⟩
  unfold checkReplaced
  simp only [hlen, hm, bind, Except.bind, verifyUnswap_eq hfit.swap]

theorem replaced_area {m : Mem} (hfit : AreaFits o d.length) (hlen : d'.length = d.length)
    (hp : Placed o io mem num d)
    (hhead : Headed sums o (headerSize o + d.length) io.randSeed (metaOffset o io num) io.numberio
      mem m (num * (headerSize o + d.length))) :
    let q := num * (headerSize o + d.length)
    ioUVerifyOff (store m (q + headerSize o) d') q num = .ok (q + headerSize o, d.length) ∧
      load (store m (q + headerSize o) d') (q + headerSize o) d.length = d' ∧
      load m (q + headerSize o) d.length = d := by
  intro q
  have h24 := (headerSize_le o).1
  have hsmall := hfit.small
  have hq : q < 2 ^ 32 := by
    have := hp.small
    rw [Nat.succ_mul] at this
    omega
  refine ⟨?_, ?_, ?_⟩
  · have hoff := @ioUVerifyOff_eq o (headerSize o + d.length) (store m (q + headerSize o) d') num
      (by rw [loadLE_store_apart _ (by unfold Apart; omega)]; exact hhead.type)
      (by rw [loadLE_store_apart _ (by unfold Apart; omega)]; exact hhead.len)
      (by omega) hsmall hq
    rw [Nat.add_sub_cancel_left] at hoff
    exact hoff
  · rw [← hlen]
    exact load_store_same _ _ _
  · refine Eq.trans (load_eq_iff.mpr fun j hj => ?_) hp.area
    rw [Nat.add_assoc]
    exact hhead.data _ (by omega) (by omega)

theorem checkReplaced_sum {n : Nat} {f : List Byte → BitVec (8 * n)}
    (hf : sumOf sums o.verify = some ⟨n, f⟩) (hfit : AreaFits o d.length)
    (hlen : d'.length = d.length) (hp : Placed o io mem num d) :
    checkReplaced sums g o io mem num d' = .ok (if f d = f d' then 0 else eilseq) := by
  have hsize := privSize_sum hf
  obtain ⟨m, hcheck, hhead⟩ := @checkReplaced_eq sums o g io mem num d d'
    (fun h => by rw [h] at hf; simp [sumOf] at hf) (fun h => by rw [h] at hf; simp [sumOf] at hf)
    hfit hlen hp
  obtain ⟨hoff, hnew, hold⟩ := replaced_area hfit hlen hp hhead
  have hsum := hhead.sum n f hf
  rw [Nat.add_sub_cancel_left, hold] at hsum
  rw [hcheck, verifyPriv_sum hf, verifyIoUSum, hoff]
  simp only [bind, Except.bind, hnew, hdrPriv]
  rw [loadLE_store_apart _ (by unfold Apart; omega), hsum]
  simp only [BitVec.toNat_inj]

theorem checkReplaced_sha {b : Nat} (hb : shaOf o.verify = some b) (hfit : AreaFits o d.length)
    (hlen : d'.length = d.length) (hp : Placed o io mem num d) :
    checkReplaced sums g o io mem num d'
      = .ok (if shaUpdate b (load mem (num * (headerSize o + d.length) + 24) b) d
          = shaUpdate b (load (g.stack num) 0 b) d' then 0 else eilseq) := by
  have hsize := (privSize_sha hb).1
  obtain ⟨m, hcheck, hhead⟩ := @checkReplaced_eq sums o g io mem num d d'
    (fun h => by rw [h] at hb; simp [shaOf] at hb) (fun h => by rw [h] at hb; simp [shaOf] at hb)
    hfit hlen hp
  obtain ⟨hoff, hnew, hold⟩ := replaced_area hfit hlen hp hhead
  have hsha := hhead.sha b hb
  rw [Nat.add_sub_cancel_left, hold] at hsha
  rw [hcheck, verifyPriv_sha hb, verifyIoUSha, hoff]
  simp only [bind, Except.bind, hnew, hdrPriv]
  rw [load_store_apart _ (by unfold Apart; omega), hsha]

theorem exists_placed (hfit : AreaFits o d.length) : ∃ io mem, Placed o io mem 0 d := by
  refine ⟨emptyIoU 0, store (fun _ => 0#8) (headerSize o) d, by decide, ?_, ?_⟩
  · rw [Nat.zero_add, Nat.one_mul]
    exact hfit.small
  · rw [Nat.zero_mul, Nat.zero_add]
    exact load_store_same _ _ _

end Check

/-! ## Checksums -/

variable {sums : Checksums} {o : VerifyOptions} {len i b : Nat} {buf buf' d d' : List Byte}

theorem byteProtected_sum {n : Nat}
    {f : List Byte → BitVec (8 * n)} (hf : sumOf sums o.verify = some ⟨n, f⟩)
    (hfit : AreaFits o len) (i : Nat) : ByteProtected sums o len i ↔ Depends f len i := by
  constructor
  · rintro ⟨d, d', rfl, hd, hrej⟩
    refine ⟨d, d', rfl, hd, fun hsame => ?_⟩
    obtain ⟨io, mem, hp⟩ := exists_placed hfit
    have hr := hrej zeroGarbage io mem 0 hp
    rw [checkReplaced_sum hf hfit hd.length hp, if_pos hsame] at hr
    exact absurd hr (by decide)
  · rintro ⟨d, d', rfl, hd, hne⟩
    refine ⟨d, d', rfl, hd, fun g io mem num hp => ?_⟩
    rw [checkReplaced_sum hf hfit hd.length hp, if_neg hne]

/-! ## Block buffers -/

theorem shaBlocks_dvd {b len : Nat} : ∀ (fuel i : Nat), b ∣ i → b ∣ shaBlocks b len fuel i := by
  intro fuel
  induction fuel with
  | zero => intro i hi; exact hi
  | succ fuel ih =>
    intro i hi
    rw [shaBlocks]
    split
    · exact ih _ (Nat.dvd_add hi (dvd_refl b))
    · exact hi

theorem shaBlocks_eq (hb : 0 < b) (h : b ≤ len) :
    shaBlocks b len len b = b * (len / b) := by
  obtain ⟨k, hk⟩ := @shaBlocks_dvd b len len b (dvd_refl b)
  obtain ⟨hle, hlt⟩ := shaBlocks_le b len hb len b h (by omega)
  rw [hk] at hle hlt ⊢
  rw [(Nat.div_eq_of_lt_le (by rw [Nat.mul_comm]; exact hle)
    (by rw [Nat.succ_mul, Nat.mul_comm k]; exact hlt) : len / b = k)]

theorem shaUpdate_eq {data : List Byte} (hb : 0 < b) (hbuf : buf.length = b)
    (h : b ≤ data.length) : shaUpdate b buf data
      = data.drop (b * (data.length / b)) ++ (data.take b).drop (data.length % b) := by
  have hmod : data.length - b * (data.length / b) = data.length % b := by
    have := Nat.div_add_mod data.length b
    omega
  have hfirst : overwrite buf (data.take b) = data.take b := by
    unfold overwrite
    rw [List.drop_of_length_le (by rw [List.length_take]; omega), List.append_nil]
  unfold shaUpdate
  rw [if_pos h, shaBlocks_eq hb h, hfirst, overwrite, List.length_drop, hmod]

/-- The block buffer holds byte `i` of an area of `len` bytes: it stands behind the last whole block,
or in the first block and is not overwritten by those behind the last. -/
def Buffered (b len i : Nat) : Prop := b * (len / b) ≤ i ∨ len % b ≤ i ∧ i < b

theorem shaUpdate_of_not_buffered (hb : 0 < b)
    (hbuf : buf.length = b) (hbuf' : buf'.length = b) (hd : DiffersOnlyAt i d d')
    (h : ¬ Buffered b d.length i) : shaUpdate b buf d = shaUpdate b buf' d' := by
  obtain ⟨htail, hfirst⟩ := not_or.mp h
  have hle : b ≤ d.length := by
    by_contra hlt
    rw [Nat.div_eq_of_lt (by omega), Nat.mul_zero] at htail
    exact htail (Nat.zero_le i)
  have hrest : (d.take b).drop (d.length % b) = (d'.take b).drop (d.length % b) := by
    rcases Nat.lt_or_ge i (d.length % b) with hi | hi
    · rw [List.drop_take, List.drop_take, hd.drop_eq hi]
    · rw [hd.take_eq (by omega)]
  rw [shaUpdate_eq hb hbuf hle, shaUpdate_eq hb hbuf' (by rw [hd.length]; exact hle), hd.length,
    hd.drop_eq (by omega), hrest]

theorem shaUpdate_of_buffered (hb : 0 < b)
    (hbuf : buf.length = b) (hbuf' : buf'.length = b) (hd : DiffersOnlyAt i d d')
    (h : Buffered b d.length i) : shaUpdate b buf d ≠ shaUpdate b buf' d' := by
  have hi := hd.lt
  intro heq
  rcases Nat.lt_or_ge d.length b with hlt | hle
  · rw [shaUpdate_of_lt hlt, shaUpdate_of_lt (by rw [hd.length]; exact hlt)] at heq
    refine hd.differs ?_
    have hget := congrArg (fun l => l[i]?) heq
    rwa [List.getElem?_append_left hi, List.getElem?_append_left (by rw [hd.length]; exact hi)]
      at hget
  · rw [shaUpdate_eq hb hbuf hle, shaUpdate_eq hb hbuf' (by rw [hd.length]; exact hle), hd.length]
      at heq
    obtain ⟨htail, hrest⟩ := List.append_inj heq (by rw [List.length_drop, List.length_drop, hd.length])
    refine hd.differs ?_
    rcases h with h | ⟨h1, h2⟩
    · have hget := congrArg (fun l => l[i - b * (d.length / b)]?) htail
      rwa [List.getElem?_drop, List.getElem?_drop, Nat.add_sub_cancel' h] at hget
    · have hget := congrArg (fun l => l[i - d.length % b]?) hrest
      rwa [List.getElem?_drop, List.getElem?_drop, Nat.add_sub_cancel' h1, List.getElem?_take,
        List.getElem?_take, if_pos h2, if_pos h2] at hget

theorem exists_differsOnlyAt (hi : i < len) :
    ∃ d d' : List Byte, d.length = len ∧ DiffersOnlyAt i d d' := by
  refine ⟨List.replicate len 0#8, _, List.length_replicate, DiffersOnlyAt.set (x := 1#8) ?_ ?_⟩
  · rw [List.length_replicate]
    exact hi
  · rw [List.getElem?_replicate, if_pos hi]
    decide

theorem byteProtected_sha
    (hb : shaOf o.verify = some b) (hfit : AreaFits o len) (hi : i < len) :
    ByteProtected sums o len i ↔ Buffered b len i := by
  have hpos := (privSize_sha hb).2
  constructor
  · rintro ⟨d, d', rfl, hd, hrej⟩
    by_contra hbuf
    obtain ⟨io, mem, hp⟩ := exists_placed hfit
    have hr := hrej zeroGarbage io mem 0 hp
    rw [checkReplaced_sha hb hfit hd.length hp, if_pos (shaUpdate_of_not_buffered hpos
      (length_load _ _ _) (length_load _ _ _) hd hbuf)] at hr
    exact absurd hr (by decide)
  · intro hbuf
    obtain ⟨d, d', rfl, hd⟩ := exists_differsOnlyAt hi
    refine ⟨d, d', rfl, hd, fun g io mem num hp => ?_⟩
    rw [checkReplaced_sha hb hfit hd.length hp, if_neg (shaUpdate_of_buffered hpos
      (length_load _ _ _) (length_load _ _ _) hd hbuf)]

/-! ## The four digests -/

def digestTypes : List VerifyType := [.md5, .sha1, .sha256, .sha512]

/-- The byte reaches what is compared: for `md5` and `sha1` it is in a whole block, for `sha256` and `sha512` in the
block buffer. -/
def ByteCovered : VerifyType → Nat → Nat → Prop
  | .md5, len, i => i < 64 * (len / 64)
  | .sha1, len, i => i < 64 * (len / 64)
  | .sha256, len, i => Buffered 64 len i
  | .sha512, len, i => Buffered 128 len i
  | _, _, _ => False

/-- The areas for which `md5` and `sha1` have been computed. The buffers of the others are known for all areas. -/
def AreaComputed (t : VerifyType) (len : Nat) : Prop := t = .md5 ∨ t = .sha1 → len / 64 ≤ sectorBlocks

theorem md5_protected_iff {sums : Checksums} (hv : o.verify = .md5) (hfit : AreaFits o len) :
    ByteProtected (withHashes sums) o len i ↔
      Depends (absorb 64 md5Transform (len / 64) md5Init) (64 * (len / 64)) i :=
  (byteProtected_sum (f := fioMd5) (n := 16) (by rw [hv]; rfl) hfit i).trans (fioMd5_depends len i)

theorem sha1_protected_iff {sums : Checksums} (hv : o.verify = .sha1) (hfit : AreaFits o len) :
    ByteProtected (withHashes sums) o len i ↔
      Depends (absorb 64 blkSHA1Block (len / 64) sha1Init) (64 * (len / 64)) i :=
  (byteProtected_sum (f := fioSha1) (n := 20) (by rw [hv]; rfl) hfit i).trans (fioSha1_depends len i)

theorem verifyJob_areaFits {t : VerifyType} {interval : Nat} {parsed : List Byte}
    (h : len < 2 ^ 31) : AreaFits (verifyJob t interval parsed) len := by
  have hsize := (headerSize_le (verifyJob t interval parsed)).2
  exact ⟨.inl rfl, Nat.zero_le _, by omega⟩

end MysqlBench.Fio
