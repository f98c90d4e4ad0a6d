import MysqlBench.Fio.Verify.Pattern

/-!
# One interval, written and checked

`populate_hdr` writes a header at the start of an interval and moves it to `verify_offset`;
`verify_io_u` moves it back and checks it. If the two places do not overlap, moving twice moves
nothing (`unswap_unswap`), so the check reads the interval as it was before the header was moved.
`Headed` says what is in it then, `populateHdr_spec` that the writer leaves it so, and
`verifyPriv_spec` what the check makes of it.
-/

namespace MysqlBench.Fio

open MysqlBench.Lib

/-! ## Exchanging stretches of memory -/

def swapBytes (mem : Mem) (a b n : Nat) : Mem := fun x =>
  if b ≤ x ∧ x < b + n then mem (a + (x - b))
  else if a ≤ x ∧ x < a + n then mem (b + (x - a))
  else mem x

variable {mem : Mem} {a b n : Nat} {mem' : Mem} {m : Nat} {o : VerifyOptions} {q inc : Nat}
  {buf data : List Byte}

theorem memswp_apart (g : Garbage) (mem : Mem) (hn : n ≤ 200) (h : a + n ≤ b) :
    memswp g mem a b n = .ok (swapBytes mem a b n) := by
  rw [memswp, if_neg (by omega), memcpy, if_pos (Or.inl h)]
  refine congrArg Except.ok (funext fun x => ?_)
  rw [store_load_apply, store_load_apply]
  rfl

theorem swapBytes_swapBytes (mem : Mem) (h : a + n ≤ b) :
    swapBytes (swapBytes mem a b n) a b n = mem := by
  funext x
  by_cases hb : b ≤ x ∧ x < b + n
  · simp only [swapBytes]
    rw [if_pos hb, if_neg (by omega), if_pos (by omega)]
    congr 1
    omega
  · by_cases ha : a ≤ x ∧ x < a + n
    · simp only [swapBytes]
      rw [if_neg hb, if_pos ha, if_pos (by omega)]
      congr 1
      omega
    · simp only [swapBytes]
      rw [if_neg hb, if_neg ha, if_neg hb, if_neg ha]

def Agree (mem mem' : Mem) (a n : Nat) : Prop := ∀ x, a ≤ x → x < a + n → mem x = mem' x

theorem Agree.load (h : Agree mem mem' a n) (hb : a ≤ b)
    (hm : b + m ≤ a + n) : load mem b m = load mem' b m :=
  load_eq_iff.mpr fun j hj => h _ (by omega) (by omega)

theorem Agree.loadLE (h : Agree mem mem' a n) (hb : a ≤ b)
    (hm : b + m ≤ a + n) : loadLE mem b m = loadLE mem' b m :=
  congrArg leValue (h.load hb hm)

theorem headerSize_le (o : VerifyOptions) : 24 ≤ headerSize o ∧ headerSize o ≤ 152 := by
  unfold headerSize
  cases o.verify <;> decide

def SwapOk (o : VerifyOptions) : Prop := o.verifyOffset = 0 ∨ headerSize o ≤ o.verifyOffset

def unswap (o : VerifyOptions) (mem : Mem) (q : Nat) : Mem :=
  if o.verifyOffset ≠ 0 then swapBytes mem q (q + o.verifyOffset) (headerSize o) else mem

theorem unswap_unswap (h : SwapOk o) (mem : Mem) (q : Nat) :
    unswap o (unswap o mem q) q = mem := by
  unfold unswap
  by_cases h0 : o.verifyOffset ≠ 0
  · rw [if_pos h0, if_pos h0]
    exact swapBytes_swapBytes mem (by have := h.resolve_left h0; omega)
  · rw [if_neg h0, if_neg h0]

theorem verifyUnswap_eq (h : SwapOk o) (g : Garbage) (mem : Mem) (q : Nat) :
    verifyUnswap g o mem q = .ok (unswap o mem q) := by
  unfold verifyUnswap unswap
  by_cases h0 : o.verifyOffset ≠ 0
  · rw [if_pos h0, if_pos h0]
    have := headerSize_le o
    have := h.resolve_left h0
    exact memswp_apart g mem (by omega) (by omega)
  · rw [if_neg h0, if_neg h0]

theorem unswap_agree
    (hfit : headerSize o + o.verifyOffset ≤ inc) (h : Agree mem mem' q inc) :
    Agree (unswap o mem q) (unswap o mem' q) q inc := by
  intro x h1 h2
  unfold unswap
  by_cases h0 : o.verifyOffset ≠ 0
  · rw [if_pos h0, if_pos h0]
    unfold swapBytes
    split
    · exact h _ (by omega) (by omega)
    · split
      · exact h _ (by omega) (by omega)
      · exact h x h1 h2
  · rw [if_neg h0, if_neg h0]
    exact h x h1 h2

theorem unswap_outside {x : Nat} (mem : Mem)
    (hfit : headerSize o + o.verifyOffset ≤ inc) (hx : x < q ∨ q + inc ≤ x) :
    unswap o mem q x = mem x := by
  unfold unswap
  by_cases h0 : o.verifyOffset ≠ 0
  · rw [if_pos h0]
    unfold swapBytes
    rw [if_neg (by omega), if_neg (by omega)]
  · rw [if_neg h0]

/-! ## The block buffer of the SHA contexts -/

theorem shaBlocks_le (b len : Nat) (hb : 0 < b) : ∀ (fuel i : Nat), i ≤ len → len ≤ i + fuel →
    shaBlocks b len fuel i ≤ len ∧ len < shaBlocks b len fuel i + b := by
  intro fuel
  induction fuel with
  | zero => intro i hi hf; rw [shaBlocks]; omega
  | succ fuel ih =>
    intro i hi hf
    rw [shaBlocks]
    by_cases h : i + (b - 1) < len
    · rw [if_pos h]
      exact ih (i + b) (by omega) (by omega)
    · rw [if_neg h]
      omega

theorem length_shaUpdate (hb : 0 < b) (hbuf : buf.length = b)
    (data : List Byte) : (shaUpdate b buf data).length = b := by
  unfold shaUpdate overwrite
  by_cases h : b ≤ data.length
  · rw [if_pos h]
    have := shaBlocks_le b data.length hb data.length b h (by omega)
    simp only [List.length_append, List.length_drop, List.length_take]
    omega
  · rw [if_neg h]
    simp only [List.length_append, List.length_drop]
    omega

theorem shaUpdate_of_le {buf' : List Byte} (hbuf : buf.length = b)
    (hbuf' : buf'.length = b) (h : b ≤ data.length) :
    shaUpdate b buf data = shaUpdate b buf' data := by
  have hall : ∀ l : List Byte, l.length = b → overwrite l (data.take b) = data.take b := by
    intro l hl
    unfold overwrite
    rw [List.drop_of_length_le (by rw [List.length_take]; omega), List.append_nil]
  unfold shaUpdate
  rw [if_pos h, if_pos h, hall buf hbuf, hall buf' hbuf']

theorem shaUpdate_of_lt (h : data.length < b) :
    shaUpdate b buf data = data ++ buf.drop data.length := by
  unfold shaUpdate
  rw [if_neg (by omega)]
  rfl

/-! ## The kinds of verification -/

def sumOf (sums : Checksums) : VerifyType → Option ((n : Nat) × (List Byte → BitVec (8 * n)))
  | .md5 => some ⟨16, sums.md5⟩
  | .crc64 => some ⟨8, sums.crc64⟩
  | .crc32 => some ⟨4, sums.crc32⟩
  | .crc32c | .crc32cIntel => some ⟨4, sums.crc32c⟩
  | .crc16 => some ⟨2, sums.crc16⟩
  | .crc7 => some ⟨1, sums.crc7⟩
  | .xxhash => some ⟨4, sums.xxhash⟩
  | .sha1 => some ⟨20, sums.sha1⟩
  | .none | .sha256 | .sha512 | .metaData | .pattern | .null => none

def shaOf : VerifyType → Option Nat
  | .sha256 => some 64
  | .sha512 => some 128
  | _ => none

inductive Kind (sums : Checksums) (t : VerifyType) : Prop
  | sum (n : Nat) (f : List Byte → BitVec (8 * n)) (hsum : sumOf sums t = some ⟨n, f⟩) (hsha : shaOf t = none)
    (hmeta : t ≠ .metaData) (hpattern : t ≠ .pattern)
  | sha (b : Nat) (hsha : shaOf t = some b) (hsum : sumOf sums t = none) (hmeta : t ≠ .metaData)
    (hpattern : t ≠ .pattern)
  | metaData (hmeta : t = .metaData) (hsum : sumOf sums t = none) (hsha : shaOf t = none) (hpattern : t ≠ .pattern)
  | pattern (hpattern : t = .pattern) (hsum : sumOf sums t = none) (hsha : shaOf t = none) (hmeta : t ≠ .metaData)

theorem kind (sums : Checksums) {t : VerifyType} (hnone : t ≠ .none) (hnull : t ≠ .null) : Kind sums t := by
  cases t with
  | none => exact absurd rfl hnone
  | null => exact absurd rfl hnull
  | sha256 | sha512 => exact .sha _ rfl rfl (by decide) (by decide)
  | metaData => exact .metaData rfl rfl rfl (by decide)
  | pattern => exact .pattern rfl rfl rfl (by decide)
  | _ => exact .sum _ _ rfl rfl (by decide) (by decide)

section Kinds

variable {sums : Checksums} {o : VerifyOptions} {n b : Nat} {f : List Byte → BitVec (8 * n)}

theorem privSize_sum (h : sumOf sums o.verify = some ⟨n, f⟩) : headerSize o = n + 24 := by
  unfold headerSize
  cases hv : o.verify <;> rw [hv] at h <;> simp only [sumOf, Option.some.injEq, Sigma.mk.injEq,
    reduceCtorEq] at h <;> rw [← h.1] <;> rfl

theorem privSize_sha (h : shaOf o.verify = some b) : headerSize o = b + 24 ∧ 0 < b := by
  unfold headerSize
  cases hv : o.verify <;> rw [hv] at h <;> simp only [shaOf, Option.some.injEq, reduceCtorEq] at h
    <;> subst h <;> decide

theorem fillPriv_sum (h : sumOf sums o.verify = some ⟨n, f⟩) (io : VerifyIoU) (mem : Mem)
    (q num data len : Nat) :
    fillPriv sums o io mem q num data len = .ok (fillSum n f mem q data len) := by
  unfold fillPriv
  cases hv : o.verify <;> rw [hv] at h <;> simp only [sumOf, Option.some.injEq, Sigma.mk.injEq,
    reduceCtorEq] at h <;> obtain ⟨rfl, h⟩ := h <;> rw [← eq_of_heq h] <;> rfl

theorem fillPriv_sha (h : shaOf o.verify = some b) (io : VerifyIoU) (mem : Mem)
    (q num data len : Nat) :
    fillPriv sums o io mem q num data len = .ok (fillSha b mem q data len) := by
  unfold fillPriv
  cases hv : o.verify <;> rw [hv] at h <;> simp only [shaOf, Option.some.injEq, reduceCtorEq] at h
    <;> subst h <;> rfl

theorem verifyPriv_sum (h : sumOf sums o.verify = some ⟨n, f⟩) (g : Garbage) (io : VerifyIoU)
    (mem : Mem) (q num : Nat) :
    verifyPriv sums g o io mem o.verify.code q num = verifyIoUSum n f mem q num := by
  unfold verifyPriv
  cases hv : o.verify <;> rw [hv] at h <;> simp only [sumOf, Option.some.injEq, Sigma.mk.injEq,
    reduceCtorEq] at h <;> obtain ⟨rfl, h⟩ := h <;> rw [← eq_of_heq h] <;> rfl

theorem verifyPriv_sha (h : shaOf o.verify = some b) (g : Garbage) (io : VerifyIoU)
    (mem : Mem) (q num : Nat) :
    verifyPriv sums g o io mem o.verify.code q num = verifyIoUSha b g mem q num := by
  unfold verifyPriv
  cases hv : o.verify <;> rw [hv] at h <;> simp only [shaOf, Option.some.injEq, reduceCtorEq] at h
    <;> subst h <;> rfl

end Kinds

theorem hdrSizeOf_code (t : VerifyType) : hdrSizeOf t.code = .ok (privSize t + 24) := by
  cases t <;> rfl

theorem code_lt (t : VerifyType) : t.code < 256 ^ 2 := by
  cases t <;> decide

/-! ## An interval with a header -/

/-- The interval at `q` of `mem` has the header that `populate_hdr` writes, for `inc` bytes with the
given seed, offset and number, and behind it the bytes of `fill`. -/
structure Headed (sums : Checksums) (o : VerifyOptions) (inc : Nat) (seed : BitVec 64)
    (offset numberio : Nat) (fill mem : Mem) (q : Nat) : Prop where
  magic : loadLE mem q 2 = fioHdrMagic
  type : loadLE mem (q + 2) 2 = o.verify.code
  len : loadLE mem (q + 4) 4 = inc
  seed : loadLE mem (q + 8) 8 = seed.toNat
  crc : loadLE mem (q + 16) 4 = (sums.crc32c (load mem q 16)).toNat
  data : ∀ i, headerSize o ≤ i → i < inc → mem (q + i) = fill (q + i)
  sum : ∀ n f, sumOf sums o.verify = some ⟨n, f⟩ →
    loadLE mem (q + 24) n = (f (load mem (q + headerSize o) (inc - headerSize o))).toNat
  sha : ∀ b, shaOf o.verify = some b → load mem (q + 24) b
    = shaUpdate b (load fill (q + 24) b) (load mem (q + headerSize o) (inc - headerSize o))
  metaInfo : o.verify = .metaData → loadLE mem (q + 24) 8 = offset ∧ loadLE mem (q + 34) 2 = numberio

section Interval

variable {sums : Checksums} {o : VerifyOptions} {inc offset numberio q : Nat} {seed : BitVec 64}
  {fill mem mem' : Mem}

theorem Headed.agree (h : Headed sums o inc seed offset numberio fill mem q)
    (hfit : headerSize o ≤ inc) (ha : Agree mem mem' q inc) :
    Headed sums o inc seed offset numberio fill mem' q := by
  have h24 := (headerSize_le o).1
  have hload : ∀ {b m}, q ≤ b → b + m ≤ q + inc → load mem' b m = load mem b m :=
    fun hb hm => (ha.load hb hm).symm
  have hloadLE : ∀ {b m}, q ≤ b → b + m ≤ q + inc → loadLE mem' b m = loadLE mem b m :=
    fun hb hm => (ha.loadLE hb hm).symm
  -- each field lies inside the header, and the headers agree
  refine ⟨?_, ?_, ?_, ?_, ?_, ?_, ?_, ?_, ?_⟩
  · rw [hloadLE (by omega) (by omega)]; exact h.magic
  · rw [hloadLE (by omega) (by omega)]; exact h.type
  · rw [hloadLE (by omega) (by omega)]; exact h.len
  · rw [hloadLE (by omega) (by omega)]; exact h.seed
  · rw [hloadLE (by omega) (by omega), hload (by omega) (by omega)]; exact h.crc
  · intro i h1 h2
    rw [← ha (q + i) (by omega) (by omega)]
    exact h.data i h1 h2
  · intro n f hf
    have := privSize_sum hf
    rw [hloadLE (by omega) (by omega), hload (by omega) (by omega)]
    exact h.sum n f hf
  · intro b hb
    have := (privSize_sha hb).1
    rw [hload (by omega) (by omega), hload (by omega) (by omega)]
    exact h.sha b hb
  · intro hm
    have : headerSize o = 56 := by rw [headerSize, hm]; rfl
    rw [hloadLE (by omega) (by omega), hloadLE (by omega) (by omega)]
    exact h.metaInfo hm

/-! ## Writing -/

theorem storeLE_outside {mem : Mem} {a n v x : Nat} (h : x < a ∨ a + n ≤ x) :
    storeLE mem a n v x = mem x :=
  store_of_not_mem (by rw [length_leBytes]; exact h)

theorem fillHdr_outside {io : VerifyIoU} {x : Nat} (h : x < q ∨ q + 20 ≤ x) :
    fillHdr sums o io mem q inc x = mem x := by
  unfold fillHdr
  rw [storeLE_outside (by omega), storeLE_outside (by omega), storeLE_outside (by omega),
    storeLE_outside (by omega), storeLE_outside (by omega)]

theorem fillHdr_fields (io : VerifyIoU) (hinc : inc < 2 ^ 32) :
    let m := fillHdr sums o io mem q inc
    loadLE m q 2 = fioHdrMagic ∧ loadLE m (q + 2) 2 = o.verify.code ∧ loadLE m (q + 4) 4 = inc ∧
      loadLE m (q + 8) 8 = io.randSeed.toNat ∧
      loadLE m (q + 16) 4 = (sums.crc32c (load m q 16)).toNat := by
  have hseed := io.randSeed.isLt
  unfold fillHdr
  dsimp only
  refine ⟨?_, ?_, ?_, ?_, ?_⟩
  · rw [loadLE_storeLE_apart _ _ (by unfold Apart; omega),
      loadLE_storeLE_apart _ _ (by unfold Apart; omega),
      loadLE_storeLE_apart _ _ (by unfold Apart; omega),
      loadLE_storeLE_apart _ _ (by unfold Apart; omega), loadLE_storeLE_same _ _ (by decide)]
  · rw [loadLE_storeLE_apart _ _ (by unfold Apart; omega),
      loadLE_storeLE_apart _ _ (by unfold Apart; omega),
      loadLE_storeLE_apart _ _ (by unfold Apart; omega), loadLE_storeLE_same _ _ (code_lt _)]
  · rw [loadLE_storeLE_apart _ _ (by unfold Apart; omega),
      loadLE_storeLE_apart _ _ (by unfold Apart; omega), loadLE_storeLE_same _ _ (by omega)]
  · rw [loadLE_storeLE_apart _ _ (by unfold Apart; omega), loadLE_storeLE_same _ _ (by omega)]
  · rw [loadLE_storeLE_same _ _ (sums.crc32c _).isLt]
    conv_rhs => rw [storeLE, load_store_apart _ (by rw [length_leBytes]; unfold Apart; omega)]

theorem fillPriv_spec (io : VerifyIoU) (num : Nat) (hnone : o.verify ≠ .none)
    (hnull : o.verify ≠ .null) (hnum : io.numberio < 2 ^ 16) :
    ∃ m, fillPriv sums o io mem q num (q + headerSize o) (inc - headerSize o) = .ok m ∧
      (∀ x, x < q + 24 ∨ q + headerSize o ≤ x → m x = mem x) ∧
      (∀ n f, sumOf sums o.verify = some ⟨n, f⟩ →
        loadLE m (q + 24) n = (f (load m (q + headerSize o) (inc - headerSize o))).toNat) ∧
      (∀ b, shaOf o.verify = some b → load m (q + 24) b
        = shaUpdate b (load mem (q + 24) b) (load m (q + headerSize o) (inc - headerSize o))) ∧
      (o.verify = .metaData →
        loadLE m (q + 24) 8 = metaOffset o io num ∧ loadLE m (q + 34) 2 = io.numberio) := by
  cases kind sums hnone hnull with
  | sum n f hf hsha hmeta _ =>
    have hsz := privSize_sum hf
    refine ⟨_, fillPriv_sum hf io mem q num _ _, fun x hx => storeLE_outside (by unfold hdrPriv; omega), ?_,
      fun b hb => by simp [hsha] at hb, fun hm => absurd hm hmeta⟩
    intro n' f' hf'
    obtain ⟨rfl, hff⟩ := Sigma.mk.inj (Option.some.inj (hf.symm.trans hf'))
    obtain rfl := eq_of_heq hff
    have hlt := (f (load mem (q + headerSize o) (inc - headerSize o))).isLt
    rw [Nat.pow_mul] at hlt
    -- the sum is stored in front of the data that it is taken of
    rw [fillSum, hdrPriv, loadLE_storeLE_same _ _ hlt, storeLE,
      load_store_apart _ (by rw [length_leBytes]; unfold Apart; omega)]
  | sha b hb hsum hmeta _ =>
    obtain ⟨hsz, hpos⟩ := privSize_sha hb
    have hlen : ∀ data, (shaUpdate b (load mem (q + 24) b) data).length = b :=
      fun data => length_shaUpdate hpos (length_load _ _ _) data
    refine ⟨_, fillPriv_sha hb io mem q num _ _, fun x hx => ?_, fun n f hf => by simp [hsum] at hf, ?_,
      fun hm => absurd hm hmeta⟩
    · refine store_of_not_mem ?_
      unfold hdrPriv
      rw [hlen]
      omega
    · intro b' hb'
      obtain rfl : b = b' := Option.some.inj (hb.symm.trans hb')
      -- the digest continues from what the header held before
      have hsame := load_store_same mem (q + 24)
        (shaUpdate b (load mem (q + 24) b) (load mem (q + headerSize o) (inc - headerSize o)))
      rw [hlen] at hsame
      unfold fillSha hdrPriv
      rw [hsame, load_store_apart _ (by rw [hlen]; unfold Apart; omega)]
  | metaData hm hsum hsha _ =>
    have hsz : headerSize o = 56 := by rw [headerSize, hm]; rfl
    refine ⟨fillMeta o io mem q num, by rw [fillPriv, hm], fun x hx => ?_, fun n f hf => by simp [hsum] at hf,
      fun b hb => by simp [hsha] at hb, fun _ => ?_⟩
    · unfold fillMeta hdrPriv
      rw [storeLE_outside (by omega), storeLE_outside (by omega), storeLE_outside (by omega),
        storeLE_outside (by omega), storeLE_outside (by omega)]
    · unfold fillMeta hdrPriv
      dsimp only
      constructor
      · exact loadLE_storeLE_same _ _ (Nat.mod_lt _ (by decide))
      · rw [loadLE_storeLE_apart _ _ (by unfold Apart; omega)]
        exact loadLE_storeLE_same _ _ hnum
  | pattern hp hsum hsha hmeta =>
    exact ⟨mem, by rw [fillPriv, hp], fun _ _ => rfl, fun n f hf => by simp [hsum] at hf,
      fun b hb => by simp [hsha] at hb, fun hm => absurd hm hmeta⟩

theorem populateHdr_spec (g : Garbage) (io : VerifyIoU) (num : Nat) (hnone : o.verify ≠ .none)
    (hnull : o.verify ≠ .null) (hswap : SwapOk o) (hfit : headerSize o + o.verifyOffset ≤ inc)
    (hinc : inc < 2 ^ 32) (hnum : io.numberio < 2 ^ 16) (hfill : Agree mem fill q inc) :
    ∃ m, populateHdr sums g o io mem q num inc = .ok m ∧
      Headed sums o inc io.randSeed (metaOffset o io num) io.numberio fill (unswap o m q) q ∧
      ∀ x, x < q ∨ q + inc ≤ x → m x = mem x := by
  have h24 := (headerSize_le o).1
  obtain ⟨hmagic, htype, hlen, hseed, hcrc⟩ := @fillHdr_fields sums o inc q mem io hinc
  obtain ⟨m, hpriv, hout, hsum, hsha, hmeta⟩ := @fillPriv_spec sums o inc q
    (fillHdr sums o io mem q inc) io num hnone hnull hnum
  -- the common part is not touched by what is written behind it
  have hhead : Agree m (fillHdr sums o io mem q inc) q 24 := fun x _ h2 => hout x (Or.inl h2)
  have hsize : ∀ m', loadLE m' (q + 2) 2 = o.verify.code → hdrSize m' q = .ok (headerSize o) := by
    intro m' h
    rw [hdrSize, h, hdrSizeOf_code]
    rfl
  have htype' : loadLE m (q + 2) 2 = o.verify.code := by
    rw [hhead.loadLE (by omega) (by omega)]
    exact htype
  refine ⟨unswap o m q, ?_, ?_, ?_⟩
  · unfold populateHdr
    simp only [hsize _ htype, bind, Except.bind, usub_eq_sub (show headerSize o ≤ inc by omega) hinc,
      hpriv]
    have hmove := verifyUnswap_eq hswap g m q
    unfold verifyUnswap at hmove
    rw [← hmove, hsize m htype']
  · rw [unswap_unswap hswap]
    refine ⟨?_, htype', ?_, ?_, ?_, ?_, hsum, ?_, hmeta⟩
    · rw [hhead.loadLE (by omega) (by omega)]; exact hmagic
    · rw [hhead.loadLE (by omega) (by omega)]; exact hlen
    · rw [hhead.loadLE (by omega) (by omega)]; exact hseed
    · rw [hhead.loadLE (by omega) (by omega), hhead.load (by omega) (by omega)]; exact hcrc
    · intro i h1 h2
      rw [hout _ (by omega), fillHdr_outside (by omega)]
      exact hfill _ (by omega) (by omega)
    · intro b hb
      have hb24 := (privSize_sha hb).1
      have hold : load (fillHdr sums o io mem q inc) (q + 24) b = load fill (q + 24) b := by
        refine load_eq_iff.mpr fun j hj => ?_
        rw [fillHdr_outside (by omega)]
        exact hfill _ (by omega) (by omega)
      rw [hsha b hb, hold]
  · intro x hx
    rw [unswap_outside m hfit hx, hout x (by omega), fillHdr_outside (by omega)]

/-! ## Checking -/

theorem Headed.verifyHeader (h : Headed sums o inc seed offset numberio fill mem q) :
    verifyHeader sums mem seed q inc = 0 := by
  unfold Fio.verifyHeader
  rw [h.magic, h.len, h.seed, h.crc]
  simp

def PatternRuns (o : VerifyOptions) (inc : Nat) (fill : Mem) (q : Nat) : Prop :=
  ∀ i, headerSize o ≤ i → i < inc → fill (q + i) = o.verifyPattern (i % 512)

structure Passes (o : VerifyOptions) (g : Garbage) (inc : Nat) (fill : Mem) (num : Nat) : Prop where
  sha : ∀ b, shaOf o.verify = some b →
    shaUpdate b (load fill (num * inc + 24) b)
        (load fill (num * inc + headerSize o) (inc - headerSize o))
      = shaUpdate b (load (g.stack num) 0 b)
        (load fill (num * inc + headerSize o) (inc - headerSize o))
  pattern : o.verify = .pattern → PatternRuns o inc fill (num * inc)
  metaInfo : o.verify = .metaData → o.verifyPatternBytes ≠ 0 → PatternRuns o inc fill (num * inc)

theorem ioUVerifyOff_eq {num : Nat} (htype : loadLE mem (num * inc + 2) 2 = o.verify.code)
    (hlen : loadLE mem (num * inc + 4) 4 = inc) (hfit : headerSize o ≤ inc) (hinc : inc < 2 ^ 32)
    (hq : num * inc < 2 ^ 32) :
    ioUVerifyOff mem (num * inc) num = .ok (num * inc + headerSize o, inc - headerSize o) := by
  have hsize : hdrSize mem (num * inc) = .ok (headerSize o) := by
    rw [hdrSize, htype, hdrSizeOf_code]
    rfl
  unfold ioUVerifyOff
  simp only [hsize, bind, Except.bind, hlen, Nat.mod_eq_of_lt hq, usub_eq_sub hfit hinc]

theorem Headed.patternRuns_iff (h : Headed sums o inc seed offset numberio fill mem q) :
    (∀ i, headerSize o ≤ i → i < inc → mem (q + i) = o.verifyPattern (i % 512)) ↔
      PatternRuns o inc fill q := by
  unfold PatternRuns
  constructor
  · intro hp i h1 h2
    rw [← h.data i h1 h2]
    exact hp i h1 h2
  · intro hp i h1 h2
    rw [h.data i h1 h2]
    exact hp i h1 h2

theorem verifyPriv_spec {g : Garbage} {io : VerifyIoU} {num : Nat} (hnone : o.verify ≠ .none)
    (hnull : o.verify ≠ .null) (hok : PatternOk o.verifyPattern o.verifyPatternBytes)
    (h : Headed sums o (getHdrInc o io.buflen) seed (metaOffset o io num) io.numberio fill mem
      (num * getHdrInc o io.buflen))
    (hfit : headerSize o ≤ getHdrInc o io.buflen) (hinc : getHdrInc o io.buflen < 2 ^ 32)
    (hq : num * getHdrInc o io.buflen < 2 ^ 32) :
    ∃ c, verifyPriv sums g o io mem o.verify.code (num * getHdrInc o io.buflen) num = .ok c ∧
      (c = 0 ↔ Passes o g (getHdrInc o io.buflen) fill num) := by
  have hoff := ioUVerifyOff_eq h.type h.len hfit hinc hq
  have hpat := (verifyIoUPattern_eq_zero_iff hok hfit hinc).trans h.patternRuns_iff
  have hdata : load mem (num * getHdrInc o io.buflen + headerSize o)
      (getHdrInc o io.buflen - headerSize o)
      = load fill (num * getHdrInc o io.buflen + headerSize o)
        (getHdrInc o io.buflen - headerSize o) := by
    refine load_eq_iff.mpr fun j hj => ?_
    rw [Nat.add_assoc]
    exact h.data _ (by omega) (by omega)
  cases kind sums hnone hnull with
  | sum n f hf hsha hmeta hpattern =>
    refine ⟨0, ?_, iff_of_true rfl ⟨fun b hb => by simp [hsha] at hb, fun hp => absurd hp hpattern,
      fun hm => absurd hm hmeta⟩⟩
    rw [verifyPriv_sum hf, verifyIoUSum, hoff]
    exact congrArg Except.ok (if_pos (h.sum n f hf))
  | sha b hb _ hmeta hpattern =>
    -- the stored digest started from the header, this one starts from the stack
    have hsha := h.sha b hb
    rw [hdata] at hsha
    refine ⟨if load mem (num * getHdrInc o io.buflen + 24) b
        = shaUpdate b (load (g.stack num) 0 b) (load fill (num * getHdrInc o io.buflen + headerSize o)
          (getHdrInc o io.buflen - headerSize o)) then 0 else eilseq, ?_, ?_⟩
    · rw [verifyPriv_sha hb, verifyIoUSha, hoff]
      simp only [bind, Except.bind, hdata]
      rfl
    · rw [hsha]
      constructor
      · intro hz
        refine ⟨fun b' hb' => ?_, fun hp => absurd hp hpattern, fun hm => absurd hm hmeta⟩
        obtain rfl : b = b' := Option.some.inj (hb.symm.trans hb')
        by_contra hne
        rw [if_neg hne] at hz
        exact absurd hz (by decide)
      · intro hpass
        rw [if_pos (hpass.sha b hb)]
  | metaData hm _ hsha hpattern =>
    refine ⟨verifyIoUMeta o io mem (num * getHdrInc o io.buflen) num, by rw [hm]; rfl, ?_⟩
    obtain ⟨hmeta, hnumberio⟩ := h.metaInfo hm
    have hplain : verifyIoUMeta o io mem (num * getHdrInc o io.buflen) num
        = if o.verifyPatternBytes ≠ 0 then
            verifyIoUPattern o io mem (num * getHdrInc o io.buflen) else 0 := by
      unfold verifyIoUMeta hdrPriv
      dsimp only
      rw [hmeta, if_pos rfl, hnumberio, if_neg (by simp), Nat.zero_or]
    rw [hplain]
    constructor
    · intro hz
      refine ⟨fun b hb => by simp [hsha] at hb, fun hp => absurd hp hpattern, fun _ hbytes => ?_⟩
      rw [if_pos hbytes] at hz
      exact hpat.mp hz
    · intro hpass
      by_cases hbytes : o.verifyPatternBytes ≠ 0
      · rw [if_pos hbytes]
        exact hpat.mpr (hpass.metaInfo hm hbytes)
      · rw [if_neg hbytes]
  | pattern hp _ hsha hmeta =>
    refine ⟨verifyIoUPattern o io mem (num * getHdrInc o io.buflen), by rw [hp]; rfl, ?_⟩
    exact hpat.trans ⟨fun hruns => ⟨fun b hb => by simp [hsha] at hb, fun _ => hruns, fun hm => absurd hm hmeta⟩,
      fun hpass => hpass.pattern hp⟩

end Interval

end MysqlBench.Fio
