import Mathlib

/-!
# Programs of statements

A client executes statements against a database in the open transaction of its connection. Each
execution may be refused by the server, in a pattern nobody knows in advance, and a statement can also
fail on the data it meets; the client then gives the transaction up, and the server rolls back to the
last commit. `Txn` is such a program between two commits: it takes the database and what the outside has
in store (`Outside`: the coming refusals and random draws) to a result with the new database, or to an
error. On an error the database it had built up is gone, which is what the rollback does, but the
refusals and draws it has used stay used.

`Txn.Gives` says that a program can end with a result, and turns a program into its statements
(`gives_bind`). `Txn.Completes` says what it gives, and of how many statements none has to be refused for
it. `Txn.Meets` is a Hoare triple of total correctness up to refusals: the program ends in
the postcondition, or it was refused something, so that fewer refusals are to come. A program that is
started again after every failure (`retry`) therefore ends, in the postcondition, as soon as the
refusals have come to an end (`Meets.retry`). `Run` is a client's work over several commits, and
`Run.Settles` carries the same over its loops.
-/

namespace MysqlBench.Lib

/-- The refusals (`true`) and the random numbers that are to come. After the end of `refusals` nothing is
refused. -/
structure Outside where
  refusals : List Bool
  draws : Nat → Nat

def Outside.pending (o : Outside) : Nat := o.refusals.count true

def Txn (D ε α : Type) : Type := D → Outside → Except ε (α × D) × Outside

namespace Txn

variable {D ε α β : Type}

/-! ## The programs -/

protected def pure (a : α) : Txn D ε α := fun d o => (.ok (a, d), o)

protected def bind (x : Txn D ε α) (f : α → Txn D ε β) : Txn D ε β := fun d o =>
  match x d o with
  | (.ok (a, d'), o') => f a d' o'
  | (.error e, o') => (.error e, o')

instance : Monad (Txn D ε) where
  pure := Txn.pure
  bind := Txn.bind

def throw (e : ε) : Txn D ε α := fun _ o => (.error e, o)

/-- One execution of a statement: refused with the error `e`, or else what `f` makes of the data. -/
def execute (e : ε) (f : D → Except ε (α × D)) : Txn D ε α := fun d o =>
  match o.refusals with
  | [] => (f d, o)
  | refused :: rest => (if refused then .error e else f d, { o with refusals := rest })

def mapError {ε' : Type} (g : ε → ε') (p : Txn D ε α) : Txn D ε' α := fun d o =>
  match p d o with
  | (.ok r, o') => (.ok r, o')
  | (.error e, o') => (.error (g e), o')

def draw : Txn D ε Nat := fun d o => (.ok (o.draws 0, d), { o with draws := fun n => o.draws (n + 1) })

def each : List β → (β → Txn D ε Unit) → Txn D ε Unit
  | [], _ => pure ()
  | b :: bs, body => do
    body b
    each bs body

/-! ## What a program can give -/

def Gives (p : Txn D ε α) (d : D) (a : α) (d' : D) : Prop := ∃ o o', p d o = (.ok (a, d'), o')

variable {a : α} {d d' : D} {x : Txn D ε α} {f : D → Except ε (α × D)} {e : ε} {P : D → Prop} {Q : α → D → Prop}
  {p : Txn D ε Unit} {o : Outside}

theorem gives_pure {a' : α} (h : (pure a : Txn D ε α).Gives d a' d') : a' = a ∧ d' = d := by
  obtain ⟨o, o', h⟩ := h
  have h : ((.ok (a, d), o) : Except ε (α × D) × Outside) = (.ok (a', d'), o') := h
  simp only [Prod.mk.injEq, Except.ok.injEq] at h
  exact ⟨h.1.1.symm, h.1.2.symm⟩

theorem gives_bind {f : α → Txn D ε β} {b : β}
    (h : (x >>= f).Gives d b d') : ∃ a d₁, x.Gives d a d₁ ∧ (f a).Gives d₁ b d' := by
  obtain ⟨o, o', h⟩ := h
  have h : Txn.bind x f d o = (.ok (b, d'), o') := h
  unfold Txn.bind at h
  cases hx : x d o with
  | mk r o₁ =>
    rw [hx] at h
    cases r with
    | ok r => exact ⟨r.1, r.2, ⟨o, o₁, hx⟩, ⟨o₁, o', h⟩⟩
    | error e =>
      simp only [Prod.mk.injEq, reduceCtorEq, false_and] at h

theorem gives_execute
    (h : (execute e f).Gives d a d') : f d = .ok (a, d') := by
  obtain ⟨o, o', h⟩ := h
  unfold execute at h
  cases hr : o.refusals with
  | nil =>
    rw [hr] at h
    exact (Prod.mk.inj h).1
  | cons refused rest =>
    rw [hr] at h
    cases refused with
    | true =>
      simp only [if_true, Prod.mk.injEq, reduceCtorEq, false_and] at h
    | false => exact (Prod.mk.inj h).1

theorem not_gives_throw : ¬(throw e : Txn D ε α).Gives d a d' := by
  rintro ⟨o, o', h⟩
  simp only [throw, Prod.mk.injEq, reduceCtorEq, false_and] at h

/-! ## What a program does unless it is refused something -/

/-- The program executes `n` statements and ends with a result, unless one of them is refused. -/
structure Completes (p : Txn D ε α) (d : D) (n : Nat) (a : α) (d' : D) : Prop where
  refused : ∀ o : Outside, true ∈ o.refusals.take n → ∃ e o', p d o = (.error e, o')
  done : ∀ o : Outside, true ∉ o.refusals.take n →
    ∃ o', p d o = (.ok (a, d'), o') ∧ o'.refusals = o.refusals.drop n

theorem completes_pure (a : α) (d : D) : Completes (pure a : Txn D ε α) d 0 a d :=
  ⟨fun o h => by simp at h, fun o _ => ⟨o, rfl, rfl⟩⟩

theorem completes_execute (h : f d = .ok (a, d')) : Completes (execute e f) d 1 a d' := by
  constructor <;> intro o ho <;> unfold execute
  · cases hr : o.refusals with
    | nil => simp [hr] at ho
    | cons refused rest =>
      obtain rfl : true = refused := by simpa [hr] using ho
      exact ⟨e, _, rfl⟩
  · cases hr : o.refusals with
    | nil => exact ⟨o, by rw [h], hr⟩
    | cons refused rest =>
      obtain rfl : refused = false := by simpa [hr] using ho
      exact ⟨_, by rw [h]; rfl, rfl⟩

theorem Completes.bind {f : α → Txn D ε β} {b : β} {d₁ : D} {n m : Nat} (hx : Completes x d n a d₁)
    (hf : Completes (f a) d₁ m b d') : Completes (x >>= f) d (n + m) b d' := by
  have hbind : ∀ o, (x >>= f) d o = Txn.bind x f d o := fun _ => rfl
  constructor <;> intro o ho <;> rw [List.take_add, List.mem_append] at ho <;> rw [hbind, Txn.bind]
  · by_cases hn : true ∈ o.refusals.take n
    · obtain ⟨e, o', heq⟩ := hx.refused o hn
      rw [heq]
      exact ⟨e, o', rfl⟩
    · obtain ⟨o₁, heq, hrest⟩ := hx.done o hn
      rw [heq]
      exact hf.refused o₁ (hrest ▸ ho.resolve_left hn)
  · rw [not_or] at ho
    obtain ⟨o₁, heq, hrest⟩ := hx.done o ho.1
    obtain ⟨o', heq', hrest'⟩ := hf.done o₁ (hrest ▸ ho.2)
    rw [heq]
    exact ⟨o', heq', by rw [hrest', hrest, List.drop_drop]⟩

/-! ## Total correctness up to refusals -/

def Meets (P : D → Prop) (p : Txn D ε α) (Q : α → D → Prop) : Prop :=
  ∀ d o, P d → (∃ a d' o', p d o = (.ok (a, d'), o') ∧ Q a d' ∧ o'.pending ≤ o.pending) ∨
    ∃ e o', p d o = (.error e, o') ∧ o'.pending < o.pending

theorem meets_pure (h : ∀ d, P d → Q a d) :
    Meets P (pure a : Txn D ε α) Q := fun d o hd => .inl ⟨a, d, o, rfl, h d hd, le_rfl⟩

theorem Meets.bind {S : β → D → Prop}
    {f : α → Txn D ε β} (hx : Meets P x Q) (hf : ∀ a, Meets (Q a) (f a) S) : Meets P (x >>= f) S := by
  intro d o hd
  show (∃ b d' o', Txn.bind x f d o = _ ∧ _) ∨ ∃ e o', Txn.bind x f d o = _ ∧ _
  unfold Txn.bind
  cases hx d o hd with
  | inl h =>
    obtain ⟨a, d₁, o₁, heq, hq, hle⟩ := h
    simp only [heq]
    cases hf a d₁ o₁ hq with
    | inl h =>
      obtain ⟨b, d', o', heq', hs, hle'⟩ := h
      exact .inl ⟨b, d', o', heq', hs, hle'.trans hle⟩
    | inr h =>
      obtain ⟨e, o', heq', hlt⟩ := h
      exact .inr ⟨e, o', heq', hlt.trans_le hle⟩
  | inr h =>
    obtain ⟨e, o', heq, hlt⟩ := h
    simp only [heq]
    exact .inr ⟨e, o', rfl, hlt⟩

theorem meets_execute
    (h : ∀ d, P d → ∃ a d', f d = .ok (a, d') ∧ Q a d') : Meets P (execute e f) Q := by
  intro d o hd
  obtain ⟨a, d', heq, hq⟩ := h d hd
  unfold execute Outside.pending
  cases hr : o.refusals with
  | nil =>
    exact .inl ⟨a, d', o, by rw [heq], hq, by rw [hr]⟩
  | cons refused rest =>
    cases refused with
    | true => exact .inr ⟨e, _, rfl, by simp⟩
    | false => exact .inl ⟨a, d', _, by rw [heq]; rfl, hq, by simp⟩

theorem Meets.mapError {ε' : Type} {p : Txn D ε α} (g : ε → ε')
    (h : Meets P p Q) : Meets P (p.mapError g) Q := by
  intro d o hd
  unfold Txn.mapError
  cases h d o hd with
  | inl h =>
    obtain ⟨a, d', o', heq, hq, hle⟩ := h
    exact .inl ⟨a, d', o', by rw [heq], hq, hle⟩
  | inr h =>
    obtain ⟨e, o', heq, hlt⟩ := h
    exact .inr ⟨g e, o', by rw [heq], hlt⟩

theorem meets_draw {Q : Nat → D → Prop} (h : ∀ n d, P d → Q n d) :
    Meets P (draw : Txn D ε Nat) Q := fun d _ hd => .inl ⟨_, d, _, rfl, h _ d hd, le_rfl⟩

theorem Meets.mono {P' : D → Prop} {Q' : α → D → Prop} {p : Txn D ε α} (h : Meets P p Q)
    (hP : ∀ d, P' d → P d) (hQ : ∀ a d, Q a d → Q' a d) : Meets P' p Q' := by
  intro d o hd
  cases h d o (hP d hd) with
  | inl h =>
    obtain ⟨a, d', o', heq, hq, hle⟩ := h
    exact .inl ⟨a, d', o', heq, hQ a d' hq, hle⟩
  | inr h => exact .inr h

theorem meets_each {I : List β → D → Prop} {body : β → Txn D ε Unit} (l : List β)
    (h : ∀ done b rest, l = done ++ b :: rest → Meets (I done) (body b) fun _ => I (done ++ [b])) :
    Meets (I []) (each l body) fun _ => I l := by
  -- Generalised to a list of which a part is done already.
  suffices hgen : ∀ rest done, l = done ++ rest → Meets (I done) (each rest body) fun _ => I l from
    hgen l [] rfl
  intro rest
  induction rest with
  | nil =>
    intro done hl
    rw [List.append_nil] at hl
    exact meets_pure fun d hd => hl ▸ hd
  | cons b rest ih =>
    intro done hl
    exact (h done b rest hl).bind fun _ => ih (done ++ [b]) (by rw [hl, List.append_assoc]; rfl)

theorem notMem_of_nodup_snoc {l : List β} {b : β} (h : (l ++ [b]).Nodup) : b ∉ l :=
  fun hb => List.disjoint_of_nodup_append h hb (List.mem_singleton_self b)

theorem meets_each_adds {κ : Type} {I : List κ → D → Prop} {body : β → Txn D ε Unit} {f : β → κ} {ks : List κ}
    {l : List β} (hnew : (ks ++ l.map f).Nodup)
    (h : ∀ ks b, f b ∉ ks → Meets (I ks) (body b) fun _ => I (ks ++ [f b])) :
    Meets (I ks) (each l body) fun _ => I (ks ++ l.map f) := by
  induction l generalizing ks with
  | nil => exact meets_pure fun d hd => (List.append_nil ks).symm ▸ hd
  | cons b l ih =>
    rw [List.map_cons, List.append_cons] at hnew ⊢
    exact (h ks b (notMem_of_nodup_snoc hnew.of_append_left)).bind fun _ => ih hnew

/-! ## Starting again -/

/-- The program is started again from the last commit after every error, `n` times at most. -/
def retry (p : Txn D ε Unit) : Nat → D → Outside → Option (D × Outside)
  | 0, _, _ => none
  | n + 1, d, o =>
    match p d o with
    | (.ok (_, d'), o') => some (d', o')
    | (.error _, o') => retry p n d o'

theorem Meets.retry {Q : D → Prop} (h : Meets P p fun _ => Q)
    (hd : P d) (n : Nat) (hn : o.pending < n) :
    ∃ d' o', retry p n d o = some (d', o') ∧ Q d' ∧ o'.pending ≤ o.pending := by
  induction n generalizing o with
  | zero => exact absurd hn (Nat.not_lt_zero _)
  | succ n ih =>
    rw [Txn.retry]
    cases h d o hd with
    | inl h =>
      obtain ⟨a, d', o', heq, hq, hle⟩ := h
      rw [heq]
      exact ⟨d', o', rfl, hq, hle⟩
    | inr h =>
      obtain ⟨e, o₁, heq, hlt⟩ := h
      rw [heq]
      obtain ⟨d', o', hretry, hq, hle⟩ := ih (by omega : o₁.pending < n)
      exact ⟨d', o', hretry, hq, hle.trans hlt.le⟩

theorem Meets.of_retry {Q : D → Prop} (h : Meets P p fun _ => Q) (hd : P d) {n : Nat} {o' : Outside}
    (hretry : Txn.retry p n d o = some (d', o')) : Q d' := by
  induction n generalizing o with
  | zero => exact absurd hretry (by simp [Txn.retry])
  | succ n ih =>
    rw [Txn.retry] at hretry
    cases h d o hd with
    | inl h =>
      obtain ⟨a, d₁, o₁, heq, hq, _⟩ := h
      rw [heq] at hretry
      simp only [Option.some.injEq, Prod.mk.injEq] at hretry
      exact hretry.1 ▸ hq
    | inr h =>
      obtain ⟨e, o₁, heq, _⟩ := h
      rw [heq] at hretry
      exact ih hretry

/-! ## Programs between commits, one after another -/

/-- A part of a client's work that may hold commits and that starts again what fails. The first argument
bounds how often one program is started. -/
def Run (D : Type) : Type := Nat → D → Outside → Option (D × Outside)

namespace Run

def untilDone (p : Txn D ε Unit) : Run D := fun n => retry p n

def andThen (r r' : Run D) : Run D := fun n d o => (r n d o).bind fun x => r' n x.1 x.2

def each : List β → (β → Run D) → Run D
  | [], _ => fun _ d o => some (d, o)
  | b :: bs, body => (body b).andThen (each bs body)

/-- From a database in `P`, the work comes to an end if every program may be started once more often
than statements are going to be refused; and whenever it comes to an end, then in `Q`. -/
structure Settles (P : D → Prop) (r : Run D) (Q : D → Prop) : Prop where
  ends : ∀ n d o, P d → o.pending < n → ∃ d' o', r n d o = some (d', o') ∧ o'.pending ≤ o.pending
  post : ∀ n d o d' o', P d → r n d o = some (d', o') → Q d'

theorem settles_untilDone {P Q : D → Prop} {p : Txn D ε Unit} (h : Meets P p fun _ => Q) :
    Settles P (untilDone p) Q := by
  constructor
  · intro n d o hd hn
    obtain ⟨d', o', hretry, _, hle⟩ := h.retry hd n hn
    exact ⟨d', o', hretry, hle⟩
  · intro n d o d' o' hd hretry
    exact h.of_retry hd hretry

theorem Settles.mono {P P' Q Q' : D → Prop} {r : Run D} (h : Settles P r Q) (hP : ∀ d, P' d → P d)
    (hQ : ∀ d, Q d → Q' d) : Settles P' r Q' :=
  ⟨fun n d o hd => h.ends n d o (hP d hd), fun n d o d' o' hd hr => hQ d' (h.post n d o d' o' (hP d hd) hr)⟩

theorem Settles.andThen {P Q S : D → Prop} {r r' : Run D} (h : Settles P r Q) (h' : Settles Q r' S) :
    Settles P (r.andThen r') S := by
  constructor
  · intro n d o hd hn
    obtain ⟨d₁, o₁, hr, hle⟩ := h.ends n d o hd hn
    obtain ⟨d', o', hr', hle'⟩ := h'.ends n d₁ o₁ (h.post n d o d₁ o₁ hd hr) (hle.trans_lt hn)
    exact ⟨d', o', by rw [Run.andThen, hr]; exact hr', hle'.trans hle⟩
  · intro n d o d' o' hd hrun
    obtain ⟨x, hr, hr'⟩ := Option.bind_eq_some_iff.mp hrun
    exact h'.post n x.1 x.2 d' o' (h.post n d o x.1 x.2 hd hr) hr'

theorem settles_each {I : List β → D → Prop} {body : β → Run D} {done l : List β} (hnew : (done ++ l).Nodup)
    (h : ∀ done b, (done ++ [b]).Nodup → Settles (I done) (body b) (I (done ++ [b]))) :
    Settles (I done) (each l body) (I (done ++ l)) := by
  induction l generalizing done with
  | nil =>
    rw [List.append_nil]
    refine ⟨fun _ d o _ _ => ⟨d, o, rfl, le_rfl⟩, fun _ d o d' o' hd hrun => ?_⟩
    have hdd : d = d' := (Prod.mk.inj (Option.some.inj hrun)).1
    exact hdd ▸ hd
  | cons b l ih =>
    rw [List.append_cons] at hnew ⊢
    exact (h done b hnew.of_append_left).andThen (ih hnew)

end Run

end Txn

end MysqlBench.Lib
