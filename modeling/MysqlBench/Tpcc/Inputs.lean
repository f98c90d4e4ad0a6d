import MysqlBench.Tpcc.NewOrder

/-!
# Random inputs (`support.c`, `driver.c`)

`NURand` adds a constant to its draws that should be the same in all calls with the same `A`. The constants
are drawn in the first call and `first` remembers that they have been, but the variables that hold them are
automatic: any later call reads what happens to be in their place (`NuCall.storage`). The results are as
they should be in a run whose later calls find there what the first one has drawn (`Kept`). In any case
they are in the range that was asked for (`nuResult_range`).

`do_neword` draws the arguments of `neword`. Its `all_local` is cleared on the branch for lines from another
warehouse, where `other_ware` gives the home warehouse if there is no other.
-/

namespace MysqlBench.Tpcc

def randomBetween (min max rand : Nat) : Nat := min + rand % (max - min + 1)

variable {numWare wId olCnt rbk i allLocal allLocal' : Nat}

theorem randomBetween_range {min max : Nat} (h : min ≤ max) (rand : Nat) :
    min ≤ randomBetween min max rand ∧ randomBetween min max rand ≤ max := by
  have := Nat.mod_lt rand (show 0 < max - min + 1 by omega)
  unfold randomBetween
  omega

/-! ## `NURand` -/

structure NuConsts where
  c255 : Nat
  c1023 : Nat
  c8191 : Nat

variable {c : NuConsts}

def NuConsts.select (c : NuConsts) (a : Nat) : Option Nat :=
  if a = 255 then some c.c255 else if a = 1023 then some c.c1023 else if a = 8191 then some c.c8191 else none

/-- The arguments of a call with the values of `rand()`, of which those in `inits` are used in the first
call only, and with what the variables hold when it begins. -/
structure NuCall where
  a : Nat
  x : Nat
  y : Nat
  inits : NuConsts
  rand₁ : Nat
  rand₂ : Nat
  storage : NuConsts

def NuCall.drawn (k : NuCall) : NuConsts :=
  ⟨randomBetween 0 255 k.inits.c255, randomBetween 0 1023 k.inits.c1023, randomBetween 0 8191 k.inits.c8191⟩

def nuDraws (a x y rand₁ rand₂ : Nat) : Nat := randomBetween 0 a rand₁ ||| randomBetween x y rand₂

def nuResult (a x y c rand₁ rand₂ : Nat) : Nat := (nuDraws a x y rand₁ rand₂ + c) % 2 ^ 32 % (y - x + 1) + x

def nuRandCall (first : Bool) (k : NuCall) : Option Nat :=
  ((if first then k.drawn else k.storage).select k.a).map fun c => nuResult k.a k.x k.y c k.rand₁ k.rand₂

def nuRandCalls : Bool → List NuCall → Option (List Nat)
  | _, [] => some []
  | first, k :: ks => (nuRandCall first k).bind fun r => (nuRandCalls false ks).map (r :: ·)

theorem nuResult_range {x y : Nat} (h : x ≤ y) (a c rand₁ rand₂ : Nat) :
    x ≤ nuResult a x y c rand₁ rand₂ ∧ nuResult a x y c rand₁ rand₂ ≤ y := by
  have := Nat.mod_lt ((nuDraws a x y rand₁ rand₂ + c) % 2 ^ 32) (show 0 < y - x + 1 by omega)
  unfold nuResult
  omega

def NuCall.Valid (k : NuCall) : Prop := (k.a = 255 ∨ k.a = 1023 ∨ k.a = 8191) ∧ k.x ≤ k.y ∧ k.y < 2 ^ 30

def Kept : List NuCall → Prop
  | [] => True
  | k :: ks => ∀ k' ∈ ks, k'.storage.select k'.a = k.drawn.select k'.a

def NuCall.expected (c : NuConsts) (k : NuCall) : Nat :=
  (nuDraws k.a k.x k.y k.rand₁ k.rand₂ + (c.select k.a).getD 0) % (k.y - k.x + 1) + k.x

structure NuConsts.InRange (c : NuConsts) : Prop where
  c255 : c.c255 ≤ 255
  c1023 : c.c1023 ≤ 1023
  c8191 : c.c8191 ≤ 8191

theorem NuCall.drawn_inRange (k : NuCall) : k.drawn.InRange :=
  ⟨(randomBetween_range (Nat.zero_le _) _).2, (randomBetween_range (Nat.zero_le _) _).2,
    (randomBetween_range (Nat.zero_le _) _).2⟩

theorem NuCall.Valid.result {k : NuCall} (h : k.Valid) (hc : c.InRange) :
    (c.select k.a).map (fun c => nuResult k.a k.x k.y c k.rand₁ k.rand₂) = some (k.expected c) := by
  obtain ⟨ha, hxy, hy⟩ := h
  obtain ⟨c', hselect, hle⟩ : ∃ c', c.select k.a = some c' ∧ c' ≤ 8191 := by
    obtain ⟨h₁, h₂, h₃⟩ := hc
    rcases ha with ha | ha | ha <;> simp [NuConsts.select, ha] <;> omega
  have ha' : k.a < 2 ^ 30 := by omega
  have hdraws : nuDraws k.a k.x k.y k.rand₁ k.rand₂ < 2 ^ 30 := by
    refine Nat.or_lt_two_pow ?_ ?_
    · exact (randomBetween_range (Nat.zero_le _) _).2.trans_lt ha'
    · exact (randomBetween_range hxy _).2.trans_lt hy
  rw [NuCall.expected, hselect, Option.map_some, Option.getD_some, nuResult,
    Nat.mod_eq_of_lt (show _ + c' < 2 ^ 32 by omega)]

theorem nuRandCalls_eq {ks : List NuCall} (hvalid : ∀ k ∈ ks, k.Valid) (hc : c.InRange)
    (hkept : ∀ k ∈ ks, k.storage.select k.a = c.select k.a) :
    nuRandCalls false ks = some (ks.map (NuCall.expected c)) := by
  induction ks with
  | nil => rfl
  | cons k ks ih =>
    have hk : nuRandCall false k = some (k.expected c) := by
      rw [nuRandCall, if_neg Bool.false_ne_true, hkept k List.mem_cons_self, (hvalid k List.mem_cons_self).result hc]
    rw [nuRandCalls, hk, Option.bind_some, ih (fun k' h => hvalid k' (List.mem_cons_of_mem _ h))
      fun k' h => hkept k' (List.mem_cons_of_mem _ h)]
    rfl

/-- In a run whose later calls find the constants of the first one, one constant for each `A`
explains all the results. Only the first call sets them, in variables that do not outlive it. -/
theorem nuRand_one_constant {ks : List NuCall} (hvalid : ∀ k ∈ ks, k.Valid) (hkept : Kept ks) :
    ∃ c : NuConsts, c.InRange ∧ nuRandCalls true ks = some (ks.map (NuCall.expected c)) := by
  cases ks with
  | nil => exact ⟨⟨0, 0, 0⟩, ⟨by decide, by decide, by decide⟩, rfl⟩
  | cons k ks =>
    have hk : nuRandCall true k = some (k.expected k.drawn) :=
      (hvalid k List.mem_cons_self).result k.drawn_inRange
    refine ⟨k.drawn, k.drawn_inRange, ?_⟩
    rw [nuRandCalls, hk, Option.bind_some,
      nuRandCalls_eq (fun k' h => hvalid k' (List.mem_cons_of_mem _ h)) k.drawn_inRange hkept]
    rfl

def overwritten : List NuCall :=
  [⟨255, 0, 999, ⟨0, 0, 0⟩, 0, 0, ⟨0, 0, 0⟩⟩, ⟨255, 0, 999, ⟨0, 0, 0⟩, 0, 0, ⟨500, 0, 0⟩⟩]

/-- No constant explains both results. -/
theorem overwritten_constant : (∀ k ∈ overwritten, k.Valid) ∧ nuRandCalls true overwritten = some [0, 500] ∧
    ¬∃ c : NuConsts, c.InRange ∧ nuRandCalls true overwritten = some (overwritten.map (NuCall.expected c)) := by
  refine ⟨by simp [overwritten, NuCall.Valid], by decide, ?_⟩
  rintro ⟨c, hc, h⟩
  have hrun : nuRandCalls true overwritten = some [0, 500] := by decide
  have hle := hc.c255
  rw [hrun] at h
  simp [overwritten, NuCall.expected, nuDraws, randomBetween, NuConsts.select] at h
  omega

/-- The same two calls when nothing happens to the place. -/
theorem nuRand_one_constant_kept : ∃ c : NuConsts, c.InRange ∧
    nuRandCalls true [⟨255, 0, 999, ⟨7, 0, 0⟩, 0, 0, ⟨0, 0, 0⟩⟩, ⟨255, 0, 999, ⟨0, 0, 0⟩, 3, 0, ⟨7, 0, 0⟩⟩] =
      some ([⟨255, 0, 999, ⟨7, 0, 0⟩, 0, 0, ⟨0, 0, 0⟩⟩, ⟨255, 0, 999, ⟨0, 0, 0⟩, 3, 0, ⟨7, 0, 0⟩⟩].map
        (NuCall.expected c)) :=
  nuRand_one_constant (by simp [NuCall.Valid]) (by simp [Kept, NuCall.drawn, NuConsts.select, randomBetween])

/-! ## `do_neword` -/

/-- What is drawn for an order line: the constant and the draws of `NURand`, the values of `rand()` for the
choice of the branch, for the loop of `other_ware` and for the quantity. -/
structure LineDraws where
  itemC : Nat
  item₁ : Nat
  item₂ : Nat
  branch : Nat
  others : List Nat
  qty : Nat

def otherWareLoop (numWare homeWare : Nat) : List Nat → Option Nat
  | [] => none
  | rand :: rest =>
    let tmp := randomBetween 1 numWare rand
    if tmp = homeWare then otherWareLoop numWare homeWare rest else some tmp

def otherWare (numWare homeWare : Nat) (others : List Nat) : Option Nat :=
  if numWare = 1 then some homeWare else otherWareLoop numWare homeWare others

structure InputLine where
  itemid : Nat
  supware : Nat
  qty : Nat

def LineDraws.Remote (k : LineDraws) : Prop := randomBetween 1 100 k.branch = 1

instance LineDraws.instDecidableRemote (k : LineDraws) : Decidable k.Remote :=
  inferInstanceAs (Decidable (_ = _))

def newordLine (numWare wId olCnt rbk i : Nat) (k : LineDraws) (allLocal : Nat) : Option (InputLine × Nat) :=
  let itemid := nuResult 8191 1 maxItems k.itemC k.item₁ k.item₂
  let itemid := if i = olCnt - 1 ∧ rbk = 1 then maxItems + 1 else itemid
  let qty := randomBetween 1 10 k.qty
  if ¬k.Remote then some (⟨itemid, wId, qty⟩, allLocal)
  else (otherWare numWare wId k.others).map fun supware => (⟨itemid, supware, qty⟩, 0)

def newordLoop (numWare wId olCnt rbk : Nat) (draws : Nat → LineDraws) :
    Nat → Nat → Nat → Option (List InputLine × Nat)
  | 0, _, allLocal => some ([], allLocal)
  | n + 1, i, allLocal => do
    let (line, allLocal) ← newordLine numWare wId olCnt rbk i (draws i) allLocal
    let (lines, allLocal) ← newordLoop numWare wId olCnt rbk draws n (i + 1) allLocal
    some (line :: lines, allLocal)

def doNeword (numWare wId randCnt randRbk : Nat) (draws : Nat → LineDraws) : Option (List InputLine × Nat) :=
  let olCnt := randomBetween 5 15 randCnt
  newordLoop numWare wId olCnt (randomBetween 1 100 randRbk) draws olCnt 0 1

theorem otherWareLoop_eq {homeWare tmp : Nat} (hnum : 1 ≤ numWare) {others : List Nat}
    (h : otherWareLoop numWare homeWare others = some tmp) : (1 ≤ tmp ∧ tmp ≤ numWare) ∧ tmp ≠ homeWare := by
  induction others with
  | nil => exact absurd h (by simp [otherWareLoop])
  | cons rand rest ih =>
    rw [otherWareLoop] at h
    split at h
    · exact ih h
    · rename_i hne
      rw [← Option.some.inj h]
      exact ⟨randomBetween_range hnum rand, hne⟩

structure LineOk (numWare wId : Nat) (k : LineDraws) (last : Prop) (line : InputLine) : Prop where
  supware : 1 ≤ line.supware ∧ line.supware ≤ numWare
  home : line.supware = wId ↔ ¬(k.Remote ∧ numWare ≠ 1)
  itemid : ¬last → 1 ≤ line.itemid ∧ line.itemid ≤ maxItems
  qty : 1 ≤ line.qty ∧ line.qty ≤ 10

theorem newordLine_ok {k : LineDraws} {line : InputLine}
    (hw : 1 ≤ wId ∧ wId ≤ numWare)
    (h : newordLine numWare wId olCnt rbk i k allLocal = some (line, allLocal')) :
    LineOk numWare wId k (i = olCnt - 1) line ∧ allLocal' = if k.Remote then 0 else allLocal := by
  have hitem : ¬i = olCnt - 1 → ∀ id : Nat, 1 ≤ id ∧ id ≤ maxItems →
      1 ≤ (if i = olCnt - 1 ∧ rbk = 1 then maxItems + 1 else id) ∧
        (if i = olCnt - 1 ∧ rbk = 1 then maxItems + 1 else id) ≤ maxItems := by
    intro hi id hid
    rwa [if_neg fun h => hi h.1]
  have hrange := nuResult_range (show 1 ≤ maxItems by decide) 8191 k.itemC k.item₁ k.item₂
  have hqty := randomBetween_range (show 1 ≤ 10 by decide) k.qty
  unfold newordLine at h
  by_cases hr : k.Remote
  · rw [if_neg (not_not.mpr hr)] at h
    obtain ⟨sup, hsup, heq⟩ := Option.map_eq_some_iff.mp h
    obtain ⟨rfl, rfl⟩ := Prod.mk.inj heq
    rw [otherWare] at hsup
    rw [if_pos hr]
    split at hsup
    · rename_i hone
      obtain rfl := Option.some.inj hsup
      exact ⟨⟨hw, by simp [hone], fun hi => hitem hi _ hrange, hqty⟩, rfl⟩
    · rename_i hone
      obtain ⟨hsup, hne⟩ := otherWareLoop_eq (hw.1.trans hw.2) hsup
      exact ⟨⟨hsup, by simp [hone, hr, hne], fun hi => hitem hi _ hrange, hqty⟩, rfl⟩
  · rw [if_pos hr] at h
    obtain ⟨rfl, rfl⟩ := Prod.mk.inj (Option.some.inj h)
    rw [if_neg hr]
    exact ⟨⟨hw, by simp [hr], fun hi => hitem hi _ hrange, hqty⟩, rfl⟩

theorem newordLoop_ok {draws : Nat → LineDraws} (hw : 1 ≤ wId ∧ wId ≤ numWare)
    {n : Nat} {lines : List InputLine}
    (h : newordLoop numWare wId olCnt rbk draws n i allLocal = some (lines, allLocal')) :
    lines.length = n ∧
      (∀ j line, lines[j]? = some line → LineOk numWare wId (draws (i + j)) (i + j = olCnt - 1) line) ∧
      allLocal' = if ∃ j < n, (draws (i + j)).Remote then 0 else allLocal := by
  induction n generalizing i allLocal lines with
  | zero =>
    obtain ⟨rfl, rfl⟩ := Prod.mk.inj (Option.some.inj h)
    exact ⟨rfl, by simp, by simp⟩
  | succ n ih =>
    simp only [newordLoop, bind, Option.bind_eq_some_iff, Prod.exists] at h
    obtain ⟨line, al, hline, rest, al', hrest, heq⟩ := h
    obtain ⟨rfl, rfl⟩ := Prod.mk.inj (Option.some.inj heq)
    obtain ⟨hok, rfl⟩ := newordLine_ok hw hline
    obtain ⟨hlen, hlines, hal⟩ := ih hrest
    refine ⟨congrArg (· + 1) hlen, fun j l hl => ?_, ?_⟩
    · cases j with
      | zero =>
        rw [List.getElem?_cons_zero, Option.some.injEq] at hl
        exact hl ▸ hok
      | succ j =>
        rw [Nat.add_comm j 1, ← Nat.add_assoc]
        exact hlines j l hl
    · have hsplit : (∃ j < n + 1, (draws (i + j)).Remote) ↔
          (draws i).Remote ∨ ∃ j < n, (draws (i + 1 + j)).Remote := by
        simp only [Nat.exists_lt_succ_left, Nat.add_zero, Nat.add_assoc, Nat.add_comm 1]
      rw [hal]
      simp only [hsplit]
      by_cases h₁ : (draws i).Remote <;> by_cases h₂ : ∃ j < n, (draws (i + 1 + j)).Remote <;> simp [h₁, h₂]

/-- The arguments are in their ranges, with at most the last item not existing; and `all_local` says
whether all lines come from the home warehouse, unless there is no other and a line was to come from
it: with one warehouse `other_ware` gives the home warehouse. -/
theorem neword_arguments_iff {numWare wId randCnt randRbk allLocal : Nat} {draws : Nat → LineDraws}
    {lines : List InputLine} (hw : 1 ≤ wId ∧ wId ≤ numWare)
    (h : doNeword numWare wId randCnt randRbk draws = some (lines, allLocal)) :
    ((∀ line ∈ lines, 1 ≤ line.supware ∧ line.supware ≤ numWare) ∧
      (allLocal = 1 ↔ ∀ line ∈ lines, line.supware = wId) ∧
      (∀ j line, lines[j]? = some line → j + 1 < lines.length → 1 ≤ line.itemid ∧ line.itemid ≤ maxItems) ∧
      ∀ line ∈ lines, 1 ≤ line.qty ∧ line.qty ≤ 10) ↔
    2 ≤ numWare ∨ ∀ j < lines.length, ¬(draws j).Remote := by
  obtain ⟨hlen, hlines, hal⟩ := newordLoop_ok hw h
  simp only [Nat.zero_add, ← hlen] at hlines hal
  have hmem : ∀ line ∈ lines, ∃ j < lines.length, lines[j]? = some line ∧
      LineOk numWare wId (draws j) (j = lines.length - 1) line := by
    intro line hline
    obtain ⟨j, hj⟩ := List.getElem?_of_mem hline
    exact ⟨j, (List.getElem?_eq_some_iff.mp hj).1, hj, hlines j line hj⟩
  -- the flag follows the draw, not the warehouse that is found with it
  have hlocal : allLocal = 1 ↔ ∀ j < lines.length, ¬(draws j).Remote := by
    rw [hal]
    by_cases hr : ∃ j < lines.length, (draws j).Remote
    · obtain ⟨j, hj, hrj⟩ := id hr
      rw [if_pos hr]
      exact ⟨fun h => absurd h (by decide), fun hall => absurd hrj (hall j hj)⟩
    · rw [if_neg hr]
      exact ⟨fun _ j hj hrj => hr ⟨j, hj, hrj⟩, fun _ => rfl⟩
  have hhome : (∀ line ∈ lines, line.supware = wId) ↔ ∀ j < lines.length, ¬((draws j).Remote ∧ numWare ≠ 1) := by
    constructor
    · intro hall j hj
      exact (hlines j _ (List.getElem?_eq_getElem hj)).home.mp (hall _ (List.getElem_mem hj))
    · intro hall line hline
      obtain ⟨j, hj, _, hok⟩ := hmem line hline
      exact hok.home.mpr (hall j hj)
  have hsup : ∀ line ∈ lines, 1 ≤ line.supware ∧ line.supware ≤ numWare :=
    fun line hline => (hmem line hline).elim fun _ hj => hj.2.2.supware
  have hqty : ∀ line ∈ lines, 1 ≤ line.qty ∧ line.qty ≤ 10 :=
    fun line hline => (hmem line hline).elim fun _ hj => hj.2.2.qty
  have hitem : ∀ j line, lines[j]? = some line → j + 1 < lines.length → 1 ≤ line.itemid ∧ line.itemid ≤ maxItems :=
    fun j line hj hlt => (hlines j line hj).itemid (by omega)
  rw [hlocal, hhome]
  constructor
  · rintro ⟨_, hiff, _⟩
    by_cases htwo : 2 ≤ numWare
    · -- with one warehouse a remote line is supplied from home, and the flag is wrong
      exact .inl htwo
    · exact .inr (hiff.mpr fun j _ hr => hr.2 (by omega))
  · intro hcond
    refine ⟨hsup, ⟨fun hall j hj hr => hall j hj hr.1, fun hall j hj hr => ?_⟩, hitem, hqty⟩
    cases hcond with
    | inl htwo => exact hall j hj ⟨hr, by omega⟩
    | inr hnone => exact hnone j hj hr

/-- With one warehouse, five lines all of which were to come from another one. -/
theorem neword_not_local : ∃ lines, doNeword 1 1 0 1 (fun _ => ⟨0, 0, 0, 0, [], 0⟩) = some (lines, 0) ∧
    ∀ line ∈ lines, line.supware = 1 := by
  refine ⟨_, rfl, ?_⟩
  decide

/-- With two warehouses, the last line from the other one after a draw of the home warehouse. -/
theorem neword_arguments_iff_remote : ∃ lines allLocal, doNeword 2 1 0 1
    (fun i => ⟨0, 0, 0, if i = 4 then 0 else 1, [2, 1], 0⟩) = some (lines, allLocal) ∧
    (allLocal = 1 ↔ ∀ line ∈ lines, line.supware = 1) := by
  obtain ⟨⟨lines, allLocal⟩, h⟩ : ∃ r, doNeword 2 1 0 1
    (fun i => ⟨0, 0, 0, if i = 4 then 0 else 1, [2, 1], 0⟩) = some r := ⟨_, rfl⟩
  exact ⟨lines, allLocal, h, ((neword_arguments_iff (by decide) h).mpr (.inl (le_refl 2))).2.1⟩

end MysqlBench.Tpcc
