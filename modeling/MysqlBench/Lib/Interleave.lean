import Mathlib

/-!
# Interleavings

A system of threads is a state and a function that says what each atomic step does to it, if it is
possible. A state is reachable if some sequence of steps, of whichever threads, leads to it
(`Reachable`), and what one step preserves holds in all of them. Most invariants of such systems count
the threads at certain places: `threadCount` and how it changes when one thread moves.
-/

namespace MysqlBench.Lib

inductive Reachable {S A : Type} (step : S → A → Option S) (start : S) : S → Prop
  | start : Reachable step start start
  | step {s s' : S} (a : A) : Reachable step start s → step s a = some s' → Reachable step start s'

theorem Reachable.invariant {S A : Type} {step : S → A → Option S} {start : S} {P : S → Prop}
    (hstart : P start) (hstep : ∀ s a s', P s → step s a = some s' → P s') {s : S}
    (h : Reachable step start s) : P s := by
  induction h with
  | start => exact hstart
  | step a _ hs ih => exact hstep _ a _ ih hs

/-- The states that some sequence of steps leads to in which every step meets a condition. -/
inductive ReachableBy {S A : Type} (step : S → A → Option S) (ok : S → A → Prop) (start : S) : S → Prop
  | start : ReachableBy step ok start start
  | step {s s' : S} (a : A) : ReachableBy step ok start s → ok s a → step s a = some s' →
      ReachableBy step ok start s'

theorem ReachableBy.invariant {S A : Type} {step : S → A → Option S} {ok : S → A → Prop} {start : S}
    {P : S → Prop} (hstart : P start)
    (hstep : ∀ s a s', P s → ok s a → step s a = some s' → P s') {s : S}
    (h : ReachableBy step ok start s) : P s := by
  induction h with
  | start => exact hstart
  | step a _ hok hs ih => exact hstep _ a _ ih hok hs

theorem ReachableBy.mono {S A : Type} {step : S → A → Option S} {ok ok' : S → A → Prop} {start : S}
    (himp : ∀ s a, ok s a → ok' s a) {s : S} (h : ReachableBy step ok start s) :
    ReachableBy step ok' start s := by
  induction h with
  | start => exact .start
  | step a _ hok hs ih => exact ih.step a (himp _ a hok) hs

theorem ReachableBy.reachable {S A : Type} {step : S → A → Option S} {ok : S → A → Prop} {start : S}
    {s : S} (h : ReachableBy step ok start s) : Reachable step start s := by
  induction h with
  | start => exact .start
  | step a _ _ hs ih => exact ih.step a hs

def runSteps {S A : Type} (step : S → A → Option S) (s : S) : List A → Option S
  | [] => some s
  | a :: as => (step s a).bind fun s' => runSteps step s' as

theorem Reachable.runSteps {S A : Type} {step : S → A → Option S} {start : S} :
    ∀ (as : List A) {s s' : S}, Reachable step start s → runSteps step s as = some s' →
      Reachable step start s' := by
  intro as
  induction as with
  | nil =>
    intro s s' h hrun
    rwa [← Option.some.inj hrun]
  | cons a as ih =>
    intro s s' h hrun
    obtain ⟨s₁, hs, hrest⟩ := Option.bind_eq_some_iff.mp hrun
    exact ih (h.step a hs) hrest

theorem runSteps_append {S A : Type} {step : S → A → Option S} (as bs : List A) (s : S) :
    runSteps step s (as ++ bs) = (runSteps step s as).bind fun s' => runSteps step s' bs := by
  induction as generalizing s with
  | nil => rfl
  | cons a as ih =>
    rw [List.cons_append, runSteps, runSteps, Option.bind_assoc]
    exact congrArg _ (funext fun s' => ih s')

def EachStep {S A : Type} (step : S → A → Option S) (ok : S → A → Prop) (s : S) : List A → Prop
  | [] => True
  | a :: as => ok s a ∧ ∀ s', step s a = some s' → EachStep step ok s' as

instance EachStep.instDecidable {S A : Type} {step : S → A → Option S} {ok : S → A → Prop}
    [∀ s a, Decidable (ok s a)] : ∀ (s : S) (as : List A), Decidable (EachStep step ok s as)
  | _, [] => isTrue trivial
  | s, a :: as =>
    match hs : step s a with
    | none => decidable_of_iff (ok s a)
        ⟨fun h => ⟨h, fun s' hs' => absurd (hs.symm.trans hs') (by simp)⟩, fun h => h.1⟩
    | some s' =>
      have := @EachStep.instDecidable S A step ok _ s' as
      decidable_of_iff (ok s a ∧ EachStep step ok s' as)
        ⟨fun h => ⟨h.1, fun s₁ hs₁ => Option.some.inj (hs.symm.trans hs₁) ▸ h.2⟩,
          fun h => ⟨h.1, h.2 s' hs⟩⟩

theorem eachStep_of_forall {S A : Type} {step : S → A → Option S} {ok : A → Prop} :
    ∀ (as : List A) (s : S), (∀ a ∈ as, ok a) → EachStep step (fun _ a => ok a) s as := by
  intro as
  induction as with
  | nil => exact fun _ _ => trivial
  | cons a as ih =>
    intro s h
    exact ⟨h a List.mem_cons_self, fun s' _ => ih s' fun b hb => h b (List.mem_cons_of_mem _ hb)⟩

theorem EachStep.imp {S A : Type} {step : S → A → Option S} {ok ok' : S → A → Prop} {P : S → Prop}
    (hstep : ∀ s a s', P s → ok s a → step s a = some s' → P s') (himp : ∀ s a, P s → ok s a → ok' s a) :
    ∀ (as : List A) {s : S}, P s → EachStep step ok s as → EachStep step ok' s as := by
  intro as
  induction as with
  | nil => exact fun _ _ => trivial
  | cons a as ih =>
    intro s hs h
    exact ⟨himp s a hs h.1, fun s' hs' => ih (hstep s a s' hs h.1 hs') (h.2 s' hs')⟩

theorem EachStep.and {S A : Type} {step : S → A → Option S} {ok ok' : S → A → Prop} :
    ∀ (as : List A) {s : S}, EachStep step ok s as → EachStep step ok' s as →
      EachStep step (fun s a => ok s a ∧ ok' s a) s as := by
  intro as
  induction as with
  | nil => exact fun _ _ => trivial
  | cons a as ih =>
    intro s h h'
    exact ⟨⟨h.1, h'.1⟩, fun s' hs => ih (h.2 s' hs) (h'.2 s' hs)⟩

theorem EachStep.reachableBy {S A : Type} {step : S → A → Option S} {ok : S → A → Prop} {start : S} :
    ∀ (as : List A) {s s' : S}, EachStep step ok s as → runSteps step s as = some s' →
      ReachableBy step ok start s → ReachableBy step ok start s' := by
  intro as
  induction as with
  | nil =>
    intro s s' _ hrun h
    rwa [← Option.some.inj hrun]
  | cons a as ih =>
    intro s s' hok hrun h
    obtain ⟨s₁, hs, hrest⟩ := Option.bind_eq_some_iff.mp hrun
    exact ih (hok.2 s₁ hs) hrest (h.step a hok.1 hs)

theorem exists_of_not_eachStep {S A : Type} {step : S → A → Option S} {ok : S → A → Prop} {start : S} :
    ∀ (as : List A) {s s' : S}, ¬EachStep step ok s as → runSteps step s as = some s' →
      Reachable step start s → ∃ s₁ a s₂, Reachable step start s₁ ∧ ¬ok s₁ a ∧
        step s₁ a = some s₂ ∧ Reachable step s₂ s' := by
  intro as
  induction as with
  | nil => exact fun hok => absurd trivial hok
  | cons a as ih =>
    intro s s' hok hrun h
    obtain ⟨s₁, hs, hrest⟩ := Option.bind_eq_some_iff.mp hrun
    by_cases ha : ok s a
    · refine ih (fun hall => hok ⟨ha, fun s₂ hs₂ => ?_⟩) hrest (h.step a hs)
      rwa [← Option.some.inj (hs.symm.trans hs₂)]
    · exact ⟨s, a, s₁, h, ha, hs, Reachable.runSteps as .start hrest⟩

theorem sum_change {I : Type} [Fintype I] [DecidableEq I] {f g : I → Nat} (i : I)
    (h : ∀ j, j ≠ i → g j = f j) : ∑ j, g j + f i = ∑ j, f j + g i := by
  have hothers : ∑ j ∈ Finset.univ.erase i, g j = ∑ j ∈ Finset.univ.erase i, f j :=
    Finset.sum_congr rfl fun j hj => h j (Finset.ne_of_mem_erase hj)
  rw [← Finset.add_sum_erase _ g (Finset.mem_univ i), ← Finset.add_sum_erase _ f (Finset.mem_univ i),
    hothers]
  omega

section Count

variable {T L : Type} [Fintype T]

def threadCount (p : L → Bool) (pc : T → L) : Nat := ∑ t, if p (pc t) then 1 else 0

theorem threadCount_eq_zero {p : L → Bool} {pc : T → L} :
    threadCount p pc = 0 ↔ ∀ t, p (pc t) = false := by
  unfold threadCount
  rw [Finset.sum_eq_zero_iff]
  constructor
  · intro h t
    have := h t (Finset.mem_univ t)
    cases hp : p (pc t) with
    | false => rfl
    | true => rw [hp] at this; exact absurd this (by decide)
  · intro h t _
    rw [h t]
    rfl

theorem threadCount_pos {p : L → Bool} {pc : T → L} {t : T} (h : p (pc t) = true) :
    0 < threadCount p pc := by
  refine Nat.pos_of_ne_zero fun hz => ?_
  rw [threadCount_eq_zero.mp hz t] at h
  exact absurd h Bool.noConfusion

/-- The number of threads that have something for which `q` holds; `f` says what a thread has at a place. -/
def tally {N : Type} (f : L → Option N) (q : N → Bool) (pc : T → L) : Nat :=
  threadCount (fun l => (f l).any q) pc

theorem tally_congr {N : Type} {f : L → Option N} {q q' : N → Bool} {pc : T → L}
    (h : ∀ t n, f (pc t) = some n → q n = q' n) : tally f q pc = tally f q' pc := by
  refine Finset.sum_congr rfl fun t _ => ?_
  cases hf : f (pc t) with
  | none => simp only [hf, Option.any_none]
  | some n => simp only [hf, Option.any_some, h t n hf]

theorem tally_pos {N : Type} {f : L → Option N} {q : N → Bool} {pc : T → L} {t : T} {n : N}
    (hf : f (pc t) = some n) (hq : q n = true) : 0 < tally f q pc :=
  threadCount_pos (t := t) (by simp only [hf, Option.any_some, hq])

variable [DecidableEq T]

theorem threadCount_update (p : L → Bool) (pc : T → L) (t : T) (l : L) :
    threadCount p (Function.update pc t l) + (if p (pc t) then 1 else 0) =
      threadCount p pc + if p l then 1 else 0 := by
  have hchange := sum_change (f := fun u => if p (pc u) then 1 else 0)
    (g := fun u => if p (Function.update pc t l u) then 1 else 0) t fun u hu => by
      rw [Function.update_of_ne hu]
  rw [Function.update_self] at hchange
  exact hchange

grind_pattern threadCount_update => threadCount p (Function.update pc t l)

theorem eq_of_threadCount_le_one {p : L → Bool} {pc : T → L} (h : threadCount p pc ≤ 1) {t u : T}
    (ht : p (pc t) = true) (hu : p (pc u) = true) : t = u := by
  by_contra hne
  have hle : ∑ x ∈ {t, u}, (if p (pc x) then 1 else 0) ≤ threadCount p pc :=
    Finset.sum_le_sum_of_subset (Finset.subset_univ _)
  rw [Finset.sum_pair hne, ht, hu] at hle
  simp only [if_true] at hle
  omega

theorem tally_move {N : Type} (f : L → Option N) (q : N → Bool) (pc : T → L) (t : T) (next : L) :
    tally f q (Function.update pc t next) + (if (f (pc t)).any q then 1 else 0) =
      tally f q pc + if (f next).any q then 1 else 0 :=
  threadCount_update _ pc t next

grind_pattern tally_move => tally f q (Function.update pc t next)

end Count

end MysqlBench.Lib
