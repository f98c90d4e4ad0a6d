import MysqlBench.Lib.CString
import MysqlBench.Fio.Cconv.Model

/-!
# Which options survive the network

Every member of the pack is converted on both sides and gets its own value back, with three
exceptions: `unit_base` is copied from `kb_base`, on both sides, and neither `error_dump` nor the
lists of ignored errors are converted at all. So the options survive if and only if the first two are
equal and the others are empty (`thread_options_survive_iff`).
-/

namespace MysqlBench.Fio

open MysqlBench.Lib

attribute [local instance] Lib.neZero_three

/-! ## Routes -/

theorem once_str : Once strToNet ∧ Once strToCpu := by decide
theorem once_u32 : Once u32ToNet ∧ Once u32ToCpu := by decide +kernel
theorem once_u64 : Once u64ToNet ∧ Once u64ToCpu := by decide
theorem once_dir : Once dirToNet ∧ Once dirToCpu := by decide
theorem once_fp : Once fpToNet ∧ Once fpToCpu := by decide

theorem route_str (f : StrOpt) : route strToNet strToCpu f = some f := by cases f <;> rfl

theorem route_u64 (f : U64Opt) : route u64ToNet u64ToCpu f = some f := by cases f <;> rfl

theorem route_dir (f : DirOpt) : route dirToNet dirToCpu f = some f := by cases f <;> rfl

theorem route_fp (f : FpOpt) : route fpToNet fpToCpu f = some f := by cases f <;> rfl

theorem route_unitBase : route u32ToNet u32ToCpu .unitBase = some .kbBase := rfl

theorem lookup_errorDump : u32ToCpu.lookup .errorDump = none := rfl

theorem route_u32 (f : U32Opt) (h₁ : f ≠ .unitBase) (h₂ : f ≠ .errorDump) :
    route u32ToNet u32ToCpu f = some f := by
  cases f with
  | unitBase => exact absurd rfl h₁
  | errorDump => exact absurd rfl h₂
  | _ => rfl

/-! ## Strings -/

theorem stringToCpu_stringToNet {s : Option (List Byte)} (w : List Byte)
    (h : ∀ t, s = some t → t ≠ [] ∧ t.length ≤ 255 ∧ 0 ∉ t) :
    stringToCpu (stringToNet s w) none = s := by
  unfold stringToCpu stringToNet
  cases s with
  | none =>
    have hnil : (w.set 0 0).takeWhile (· ≠ (0 : Byte)) = [] := by
      cases w with
      | nil => rfl
      | cons b w => exact List.takeWhile_cons_of_neg (by simp)
    dsimp only
    rw [hnil, if_pos rfl]
  | some t =>
    obtain ⟨hne, hlen, hz⟩ := h t rfl
    -- the first zero byte is that of the padding, or the last one
    obtain ⟨tail, htail⟩ : ∃ tail : List Byte,
        List.replicate (255 - t.length) 0 ++ [0] = 0 :: tail := by
      cases hk : 255 - t.length with
      | zero => exact ⟨[], rfl⟩
      | succ k => exact ⟨List.replicate k 0 ++ [0], rfl⟩
    dsimp only
    rw [List.take_of_length_le hlen, List.append_assoc, htail, takeWhile_zero hz, if_neg hne]

/-! ## Options -/

/-- The strings are `NULL`, or not empty and short enough; no list of block sizes is too long. -/
structure OptionsOk {R : Type} (o : ThreadOptions R) : Prop where
  str : ∀ f s, o.str f = some s → s ≠ [] ∧ s.length ≤ 255 ∧ 0 ∉ s
  bssplit : ∀ i, (o.bssplit i).length ≤ bssplitMax

section Host

variable {R : Type} (fp64 : ExactEncoding R) (sender receiver : Endian)

def transferOptions (top : ThreadOptionsPack) (z : R) (o : ThreadOptions R) : ThreadOptions R :=
  convertThreadOptionsToCpu fp64 receiver (ThreadOptions.zero z)
    (convertThreadOptionsToNet fp64 sender top o)

variable {top : ThreadOptionsPack} {z : R} {o : ThreadOptions R}

theorem transfer_u32_eq : (transferOptions fp64 sender receiver top z o).u32 =
    assign u32ToCpu (fun b _ => fromWire receiver 32 b)
      (assign u32ToNet (fun v _ => toWire sender v) o.u32 top.u32) fun _ => 0 := rfl

theorem transfer_u32 {f g : U32Opt} (h : route u32ToNet u32ToCpu f = some g) :
    (transferOptions fp64 sender receiver top z o).u32 f = o.u32 g := by
  rw [transfer_u32_eq, assign_assign once_u32.1 once_u32.2 h]
  intro w
  exact fromWire_toWire _ _ rfl _

theorem transfer_errorDump : (transferOptions fp64 sender receiver top z o).u32 .errorDump = 0 := by
  rw [transfer_u32_eq, assign_apply _ _ _ once_u32.2, lookup_errorDump]
  rfl

theorem transfer_bssplit (h : OptionsOk o) (i : Fin 3) :
    (transferOptions fp64 sender receiver top z o).bssplit i = o.bssplit i := by
  have hle := h.bssplit i
  unfold bssplitMax at hle
  have hnr : (fromWire receiver 32 (toWire sender (BitVec.ofNat 32 (o.bssplit i).length))).toNat =
      (o.bssplit i).length := by
    rw [fromWire_toWire _ _ rfl, BitVec.toNat_ofNat]
    exact Nat.mod_eq_of_lt (by omega)
  unfold transferOptions convertThreadOptionsToCpu convertThreadOptionsToNet
  dsimp only
  rw [hnr]
  by_cases hnil : (o.bssplit i).length = 0
  · rw [if_pos hnil, List.length_eq_zero_iff.mp hnil]
    rfl
  · rw [if_neg hnil]
    refine List.ext_getElem (by simp) fun j hj hj' => ?_
    rw [List.getElem_map, List.getElem_range, List.getElem?_eq_getElem hj']
    dsimp only
    rw [if_pos (by unfold bssplitMax; omega)]
    dsimp only
    rw [fromWire_toWire _ _ rfl, fromWire_toWire _ _ rfl]

theorem transfer_rest (h : OptionsOk o) :
    (transferOptions fp64 sender receiver top z o).str = o.str ∧
    (transferOptions fp64 sender receiver top z o).u64 = o.u64 ∧
    (transferOptions fp64 sender receiver top z o).dir = o.dir ∧
    (transferOptions fp64 sender receiver top z o).fp = o.fp ∧
    (transferOptions fp64 sender receiver top z o).pattern = o.pattern ∧
    (transferOptions fp64 sender receiver top z o).percentileList = o.percentileList ∧
    (transferOptions fp64 sender receiver top z o).bssplit = o.bssplit := by
  refine ⟨?_, ?_, ?_, ?_, rfl, ?_, ?_⟩
  · exact funext fun f => assign_assign once_str.1 once_str.2 (route_str f) fun w =>
      stringToCpu_stringToNet w (h.str f)
  · exact funext fun f => assign_assign once_u64.1 once_u64.2 (route_u64 f) fun _ =>
      fromWire_toWire _ _ rfl _
  · exact funext fun f => funext fun i => assign_assign once_dir.1 once_dir.2 (route_dir f) fun _ =>
      fromWire_toWire _ _ rfl _
  · exact funext fun f => assign_assign once_fp.1 once_fp.2 (route_fp f) fun _ =>
      fp64.fromWire_toWire _ _ _
  · funext i
    unfold transferOptions convertThreadOptionsToCpu convertThreadOptionsToNet copyFirst
    dsimp only
    rw [if_pos i.isLt, if_pos i.isLt, fp64.fromWire_toWire]
  · exact funext fun i => transfer_bssplit fp64 sender receiver h i

end Host

/-- The options survive if and only if `unit_base` is `kb_base`, `error_dump` is off and no errors
are ignored. The first is copied from the wrong member on both sides, and for the others there are
members that nobody assigns. -/
theorem thread_options_survive_iff {R : Type} (fp64 : ExactEncoding R) (sender receiver : Endian)
    (top : ThreadOptionsPack) (z : R) (o : ThreadOptions R) (h : OptionsOk o) :
    transferOptions fp64 sender receiver top z o = o ↔
      o.u32 .unitBase = o.u32 .kbBase ∧ o.u32 .errorDump = 0 ∧ ∀ i, o.ignoreError i = [] := by
  have hunit := @transfer_u32 R fp64 sender receiver top z o _ _ route_unitBase
  have hdump := @transfer_errorDump R fp64 sender receiver top z o
  have hignore : (transferOptions fp64 sender receiver top z o).ignoreError = fun _ => [] := rfl
  obtain ⟨hstr, hu64, hdir, hfp, hpat, hplist, hsplit⟩ :=
    @transfer_rest R fp64 sender receiver top z o h
  constructor
  · intro heq
    rw [heq] at hunit hdump hignore
    exact ⟨hunit, hdump, fun i => congrFun hignore i⟩
  · rintro ⟨hu, hd, hi⟩
    have hu32 : (transferOptions fp64 sender receiver top z o).u32 = o.u32 := by
      funext f
      by_cases h1 : f = .unitBase
      · rw [h1, hunit, hu]
      · by_cases h2 : f = .errorDump
        · rw [h2, hdump, hd]
        · exact transfer_u32 fp64 sender receiver (route_u32 f h1 h2)
    have hign : (transferOptions fp64 sender receiver top z o).ignoreError = o.ignoreError :=
      hignore.trans (funext fun i => (hi i).symm)
    generalize transferOptions fp64 sender receiver top z o = t at *
    obtain ⟨str, u32, u64, dir, fp, pattern, plist, split, ignore⟩ := t
    subst hstr hu64 hdir hfp hpat hplist hsplit hu32 hign
    rfl

def zeroPack : ThreadOptionsPack :=
  ⟨fun _ => List.replicate 256 0, fun _ => List.replicate 4 0, fun _ => List.replicate 8 0,
    fun _ _ => List.replicate 4 0, fun _ => List.replicate 8 0, fun _ _ => 0,
    fun _ => List.replicate 8 0, fun _ => List.replicate 4 0,
    fun _ _ => (List.replicate 4 0, List.replicate 4 0)⟩

def namedOptions : ThreadOptions (BitVec 64) :=
  { ThreadOptions.zero (0 : BitVec 64) with
    str := fun f => if f = .name then some [97] else none
    bssplit := fun i => if i = 0 then [⟨4096, 100⟩] else [] }

theorem namedOptions_ok : OptionsOk namedOptions := by
  refine ⟨fun f s hs => ?_, fun i => ?_⟩
  · simp only [namedOptions] at hs
    split at hs
    · obtain rfl := Option.some.inj hs
      decide
    · exact absurd hs (by simp)
  · simp only [namedOptions]
    split <;> decide

/-- It survives. -/
theorem thread_options_survive_named : OptionsOk namedOptions ∧
    transferOptions bitsEncoding .little .big zeroPack 0 namedOptions = namedOptions :=
  ⟨namedOptions_ok, (thread_options_survive_iff bitsEncoding .little .big zeroPack 0 namedOptions
    namedOptions_ok).mpr ⟨rfl, rfl, fun _ => rfl⟩⟩

def unitOptions : ThreadOptions (BitVec 64) :=
  { namedOptions with
    u32 := fun f => if f = .kbBase then 1024 else if f = .unitBase then 8 else 0 }

/-- Its `unit_base` arrives as 1024. -/
theorem thread_options_unit_base_lost : OptionsOk unitOptions ∧
    (transferOptions bitsEncoding .little .little zeroPack 0 unitOptions).u32 .unitBase = 1024 ∧
    transferOptions bitsEncoding .little .little zeroPack 0 unitOptions ≠ unitOptions := by
  have hunit : (transferOptions bitsEncoding .little .little zeroPack 0 unitOptions).u32 .unitBase =
      1024 := transfer_u32 bitsEncoding .little .little route_unitBase
  refine ⟨⟨namedOptions_ok.str, namedOptions_ok.bssplit⟩, hunit, fun heq => ?_⟩
  rw [heq] at hunit
  exact absurd hunit (by decide)

end MysqlBench.Fio
