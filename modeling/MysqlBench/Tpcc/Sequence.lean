import MysqlBench.Lib.Interleave
import MysqlBench.Lib.Shuffle

/-!
# The sequence of transactions (`sequence.c`)

The threads of the driver take the kind of their next transaction from one shared deck: `seq` holds every
kind as often as its weight says, in a random order, and is shuffled again when it has been dealt to its
end. `none` stands for an access outside `seq`, so that a result of `shuffle` says that there was none
(`shuffle_eq`).

`seq_get` runs under a mutex. Its steps are those of `seqStep`: the lock, the test that may shuffle, the
reading, the unlock. What the threads have got, in the order in which they took it, is a number of whole
decks and the beginning of the present one (`SeqInv.dealt`). That needs the mutex: the thread that has
made the test is the only one to move `next_num` before it reads (`SeqInv.holder`).
-/

namespace MysqlBench.Tpcc

open Lib

/-- The arguments of `seq_init`, and their sum. They are `int`s: what follows is about the program for
`w.total < 2 ^ 31`. Then nothing overflows, since every index, every value of `rnd` and `next_num` stay at most
`w.total`; natural numbers need no bound for it. -/
structure Weights where
  no : Nat
  py : Nat
  os : Nat
  dl : Nat
  sl : Nat

def Weights.total (w : Weights) : Nat := w.no + w.py + w.os + w.dl + w.sl

/-! ## The shuffle -/

def fillSeq (kind : Nat) : Nat → Nat → List Nat → Option (List Nat × Nat)
  | 0, j, seq => some (seq, j)
  | n + 1, j, seq => if j < seq.length then fillSeq kind n (j + 1) (seq.set j kind) else none

def rnds : Nat → (Nat → Nat) → List Nat
  | 0, _ => []
  | j + 1, rand => rand 0 % (j + 2) :: rnds j fun n => rand (n + 1)

/-- The last loop, from `i` on, with the values of `rnd`. It never looks at the entries. -/
def mixSeq {α : Type} : Nat → List Nat → List α → Option (List α)
  | _, [], seq => some seq
  | i, rnd :: rest, seq =>
    if rnd + i < seq.length ∧ i < seq.length then mixSeq (i + 1) rest (seq.swap i (rnd + i)) else none

def shuffleSeq (w : Weights) (rand : Nat → Nat) (seq : List Nat) : Option (List Nat) := do
  let (seq, j) ← fillSeq 0 w.no 0 seq
  let (seq, j) ← fillSeq 1 w.py j seq
  let (seq, j) ← fillSeq 2 w.os j seq
  let (seq, j) ← fillSeq 3 w.dl j seq
  let (seq, _) ← fillSeq 4 w.sl j seq
  mixSeq 0 (rnds (w.total - 1) rand) seq

def Weights.deck (w : Weights) : List Nat :=
  List.replicate w.no 0 ++ List.replicate w.py 1 ++ List.replicate w.os 2 ++ List.replicate w.dl 3 ++
    List.replicate w.sl 4

theorem Weights.length_deck (w : Weights) : w.deck.length = w.total := by
  simp [Weights.deck, Weights.total, Nat.add_assoc]

theorem fillSeq_eq (kind n : Nat) {done rest : List Nat} (h : n ≤ rest.length) :
    fillSeq kind n done.length (done ++ rest) =
      some (done ++ List.replicate n kind ++ rest.drop n, (done ++ List.replicate n kind).length) := by
  induction n generalizing done rest with
  | zero => simp [fillSeq]
  | succ n ih =>
    cases rest with
    | nil => exact absurd h (by simp)
    | cons x rest =>
      have ih := @ih (done ++ [kind]) rest (by simpa using h)
      simp only [List.length_append, List.length_singleton, List.append_assoc,
        List.singleton_append] at ih
      simp [fillSeq, ih, List.replicate_succ]

theorem reduced_rnds (j : Nat) (rand : Nat → Nat) : Reduced (j + 1) (rnds j rand) := by
  induction j generalizing rand with
  | zero => exact ⟨rfl, by simp [rnds]⟩
  | succ j ih => exact reduced_cons.mpr ⟨Nat.mod_lt _ (by omega), ih _⟩

theorem mixSeq_eq {α : Type} {i : Nat} {rs : List Nat} {seq : List α}
    (h : ∀ k r, rs[k]? = some r → i + k + r < seq.length) : mixSeq i rs seq = some (shuffleFrom i rs seq) := by
  induction rs generalizing i seq with
  | nil => rfl
  | cons r rs ih =>
    have hr := h 0 r rfl
    rw [mixSeq, shuffleFrom, if_pos (by omega), Nat.add_comm r i]
    refine ih fun k r' hr' => ?_
    have := h (k + 1) r' hr'
    rw [List.length_swap]
    omega

/-- On an array of the right size, whatever it holds, `shuffle` stays inside and leaves the deck in some
order. -/
theorem shuffleSeq_eq (w : Weights) (rand : Nat → Nat) {seq : List Nat} (hseq : seq.length = w.total) :
    shuffleSeq w rand seq = some (shuffleFrom 0 (rnds (w.total - 1) rand) w.deck) := by
  have hlen : seq.length = w.no + w.py + w.os + w.dl + w.sl := hseq
  have hfirst : fillSeq 0 w.no 0 seq = _ := @fillSeq_eq 0 w.no [] seq (by omega)
  have hrest : (((((seq.drop w.no).drop w.py).drop w.os).drop w.dl).drop w.sl) = [] := by
    refine List.drop_eq_nil_of_le ?_
    simp only [List.length_drop]
    omega
  rw [shuffleSeq, hfirst]
  simp (disch := (simp only [List.length_drop]; omega)) only [bind, Option.bind_some, fillSeq_eq]
  rw [hrest, List.append_nil]
  refine mixSeq_eq fun k r hr => ?_
  show 0 + k + r < w.deck.length
  rw [w.length_deck]
  cases htotal : w.total with
  | zero => rw [htotal] at hr; exact absurd hr (by simp [rnds])
  | succ total =>
    rw [htotal] at hr
    have := (reduced_rnds total rand).2 k r hr
    omega

/-! ## The threads -/

inductive SeqPc where
  | outside
  | locked
  | tested
  | taken (retval : Nat)
  deriving DecidableEq

/-- `results` is what has been returned so far, in the order in which it was taken. -/
structure SeqState (T : Type) where
  seq : List Nat
  nextNum : Nat
  mutex : Option T
  pc : T → SeqPc
  results : List Nat

/-- The steps of a thread in `seq_get`. The test comes with the numbers `rand` is going to give, in case
it shuffles. -/
inductive SeqAction (T : Type) where
  | lock (t : T)
  | test (t : T) (rand : Nat → Nat)
  | take (t : T)
  | unlock (t : T)

section Threads

variable {T : Type}

def seqInit (w : Weights) (rand : Nat → Nat) (seq : List Nat) : Option (SeqState T) :=
  (shuffleSeq w rand seq).map fun seq =>
    { seq, nextNum := 0, mutex := none, pc := fun _ => .outside, results := [] }

/-! ## What has been dealt -/

inductive Decks (deck : List Nat) : List Nat → Prop
  | none : Decks deck []
  | more {l b : List Nat} : Decks deck l → b.Perm deck → Decks deck (l ++ b)

variable {w : Weights} {s : SeqState T} {t : T}

theorem Decks.block {deck l : List Nat} (h : Decks deck l) :
    ∃ m, l.length = m * deck.length ∧ ∀ k < m, ∀ rest : List Nat,
      (((l ++ rest).drop (k * deck.length)).take deck.length).Perm deck := by
  induction h with
  | none => exact ⟨0, by simp, fun k hk => absurd hk (Nat.not_lt_zero k)⟩
  | @more l b _ hb ih =>
    obtain ⟨m, hlen, hblocks⟩ := ih
    refine ⟨m + 1, by rw [List.length_append, hlen, hb.length_eq, Nat.succ_mul], fun k hk rest => ?_⟩
    rw [List.append_assoc]
    by_cases hkm : k < m
    · exact hblocks k hkm (b ++ rest)
    · obtain rfl : k = m := by omega
      rw [← hlen, List.drop_left, ← hb.length_eq, List.take_left]
      exact hb

structure SeqInv (w : Weights) (s : SeqState T) : Prop where
  holder : ∀ t, s.pc t ≠ .outside → s.mutex = some t
  seq : s.seq.Perm w.deck
  next : s.nextNum ≤ w.total
  tested : ∀ t, s.pc t = .tested → s.nextNum < w.total
  dealt : ∃ past, Decks w.deck past ∧ s.results = past ++ s.seq.take s.nextNum

theorem SeqInv.length_seq (h : SeqInv w s) : s.seq.length = w.total := by
  rw [h.seq.length_eq, w.length_deck]

theorem SeqInv.alone (h : SeqInv w s) {u : T} (ht : s.pc t ≠ .outside)
    (hu : u ≠ t) : s.pc u = .outside := by
  by_contra hne
  exact hu (Option.some.inj ((h.holder u hne).symm.trans (h.holder t ht)))

/-- Every block of the size of the deck is a deck: a past one, or the present one when all of it has been
dealt. -/
theorem SeqInv.block (hw : 0 < w.total) (h : SeqInv w s) {k : Nat}
    (hk : (k + 1) * w.total ≤ s.results.length) :
    ((s.results.drop (k * w.total)).take w.total).Perm w.deck := by
  obtain ⟨past, hpast, hresults⟩ := h.dealt
  have hlen := congrArg List.length hresults
  rw [← w.length_deck] at hk hw ⊢
  by_cases hend : w.deck.length ≤ s.nextNum
  · rw [List.take_of_length_le (h.seq.length_eq.trans_le hend)] at hresults
    obtain ⟨m, hm, hblock⟩ := (hpast.more h.seq).block
    rw [hresults, hm] at hk
    rw [hresults, ← List.append_nil (past ++ s.seq)]
    exact hblock k (Nat.le_of_mul_le_mul_right hk hw) []
  · obtain ⟨m, hm, hblock⟩ := hpast.block
    rw [hresults]
    refine hblock k (Nat.lt_of_add_lt_add_right (n := 1) (Nat.lt_of_mul_lt_mul_right (hk.trans_lt ?_))) _
    rw [hlen, List.length_append, hm, Nat.succ_mul]
    exact Nat.add_lt_add_left (lt_of_le_of_lt (List.length_take_le _ _) (not_le.mp hend)) _

theorem seqInv_init {rand : Nat → Nat} {seq : List Nat}
    (hseq : seq.length = w.total) (h : seqInit w rand seq = some s) : SeqInv w s := by
  rw [seqInit, shuffleSeq_eq w rand hseq] at h
  obtain rfl := Option.some.inj h
  exact
    { holder := fun t ht => absurd rfl ht
      seq := shuffleFrom_perm _ _ _
      next := Nat.zero_le _
      tested := fun t ht => absurd ht (by simp)
      dealt := ⟨[], .none, rfl⟩ }

/-! ## The steps -/

variable [DecidableEq T]

def SeqState.goto (s : SeqState T) (t : T) (pc : SeqPc) : SeqState T :=
  { s with pc := Function.update s.pc t pc }

def seqStep (w : Weights) (s : SeqState T) : SeqAction T → Option (SeqState T)
  | .lock t => if s.pc t = .outside ∧ s.mutex = none then some ({ s with mutex := some t }.goto t .locked) else none
  | .test t rand =>
    if s.pc t = .locked then
      if w.total ≤ s.nextNum then
        (shuffleSeq w rand s.seq).map fun seq => { s with seq, nextNum := 0 }.goto t .tested
      else some (s.goto t .tested)
    else none
  | .take t =>
    if s.pc t = .tested then
      s.seq[s.nextNum]?.map fun retval =>
        { s with nextNum := s.nextNum + 1, results := s.results ++ [retval] }.goto t (.taken retval)
    else none
  | .unlock t =>
    match s.pc t with
    | .taken _ => some ({ s with mutex := none }.goto t .outside)
    | _ => none

theorem SeqInv.goto {pc : SeqPc}
    (halone : ∀ u, u ≠ t → s.pc u = .outside) (howner : pc ≠ .outside → s.mutex = some t)
    (hseq : s.seq.Perm w.deck) (hnext : s.nextNum ≤ w.total)
    (htested : pc = .tested → s.nextNum < w.total)
    (hdealt : ∃ past, Decks w.deck past ∧ s.results = past ++ s.seq.take s.nextNum) :
    SeqInv w (s.goto t pc) := by
  refine ⟨fun u hu => ?_, hseq, hnext, fun u hu => ?_, hdealt⟩
  all_goals
    simp only [SeqState.goto, Function.update_apply] at hu ⊢
    by_cases hut : u = t
    · grind
    · simp [hut, halone u hut] at hu

theorem SeqInv.step (hw : 0 < w.total) {s' : SeqState T} {a : SeqAction T} (h : SeqInv w s)
    (hs : seqStep w s a = some s') : SeqInv w s' := by
  cases a with
  | lock t =>
    simp only [seqStep, Option.ite_none_right_eq_some, Option.some.injEq] at hs
    obtain ⟨⟨-, hfree⟩, rfl⟩ := hs
    refine .goto (fun u _ => ?_) (fun _ => rfl) h.seq h.next (by simp) h.dealt
    -- whoever is inside holds the mutex
    by_contra hu
    exact absurd (h.holder u hu) (by simp [hfree])
  | test t rand =>
    simp only [seqStep, Option.ite_none_right_eq_some] at hs
    obtain ⟨hpc, hs⟩ := hs
    have hin : s.pc t ≠ .outside := by simp [hpc]
    by_cases hend : w.total ≤ s.nextNum
    · -- The deck has been dealt to its end and is one more of the past ones.
      rw [if_pos hend, shuffleSeq_eq w rand h.length_seq, Option.map_some, Option.some.injEq] at hs
      obtain ⟨past, hpast, hresults⟩ := h.dealt
      rw [List.take_of_length_le (h.length_seq.trans_le hend)] at hresults
      rw [← hs]
      exact .goto (fun u => h.alone hin) (fun _ => h.holder t hin) (shuffleFrom_perm _ _ _) (Nat.zero_le _)
        (fun _ => hw) ⟨past ++ s.seq, hpast.more h.seq, by simpa using hresults⟩
    · rw [if_neg hend, Option.some.injEq] at hs
      rw [← hs]
      exact .goto (fun u => h.alone hin) (fun _ => h.holder t hin) h.seq h.next (fun _ => not_le.mp hend)
        h.dealt
  | take t =>
    simp only [seqStep, Option.ite_none_right_eq_some, Option.map_eq_some_iff] at hs
    obtain ⟨hpc, v, hv, rfl⟩ := hs
    have hin : s.pc t ≠ .outside := by simp [hpc]
    obtain ⟨past, hpast, hresults⟩ := h.dealt
    refine .goto (fun u => h.alone hin) (fun _ => h.holder t hin) h.seq (h.tested t hpc) (by simp)
      ⟨past, hpast, ?_⟩
    rw [hresults, List.append_assoc, List.take_add_one, hv]
    rfl
  | unlock t =>
    simp only [seqStep] at hs
    cases hpc : s.pc t with
    | taken v =>
      rw [hpc] at hs
      obtain rfl := Option.some.inj hs
      exact .goto (fun u => h.alone (by simp [hpc])) (absurd rfl) h.seq h.next (by simp) h.dealt
    | _ => rw [hpc] at hs; exact absurd hs (by simp)

/-! ## The mix -/

theorem Weights.count_deck (w : Weights) {block : List Nat} (h : block.Perm w.deck) :
    block.count 0 = w.no ∧ block.count 1 = w.py ∧ block.count 2 = w.os ∧ block.count 3 = w.dl ∧
      block.count 4 = w.sl := by
  simp [h.count_eq, Weights.deck, List.count_replicate]

/-- For any weights that are not all zero: `shuffle` stays inside an array of the right size, its last loop
reaches every arrangement of the positions by exactly one list of values of `rnd`, and in every
interleaving of the threads every block of `total` results has the mix of the weights. -/
theorem seq_get_mix {w : Weights} (hw : 0 < w.total) :
    (∀ (rand : Nat → Nat) (seq : List Nat), seq.length = w.total → (shuffleSeq w rand seq).isSome) ∧
      (∀ p : List Nat, p.Perm (List.range w.total) →
        ∃! rs, Reduced w.total rs ∧ mixSeq 0 rs (List.range w.total) = some p) ∧
      ∀ (rand : Nat → Nat) (seq : List Nat) (s₀ s : SeqState T), seq.length = w.total →
        seqInit w rand seq = some s₀ → Reachable (seqStep w) s₀ s →
        (∀ t, s.pc t = .tested → s.nextNum < s.seq.length) ∧
        ∀ k, (k + 1) * w.total ≤ s.results.length →
          let block := (s.results.drop (k * w.total)).take w.total
          block.count 0 = w.no ∧ block.count 1 = w.py ∧ block.count 2 = w.os ∧ block.count 3 = w.dl ∧
            block.count 4 = w.sl := by
  refine ⟨fun rand seq hseq => by simp [shuffleSeq_eq w rand hseq], fun p hp => ?_, ?_⟩
  · have hne : List.range w.total ≠ [] := by simp; omega
    obtain ⟨rs, ⟨hrs, heq⟩, hunique⟩ := existsUnique_shuffle List.nodup_range hp hne
    rw [List.length_range] at hrs hunique
    have hmix : ∀ rs, Reduced w.total rs →
        mixSeq 0 rs (List.range w.total) = some (shuffleFrom 0 rs (List.range w.total)) :=
      fun rs hrs => mixSeq_eq fun k r hr => by simpa using hrs.2 k r hr
    refine ⟨rs, ⟨hrs, by rw [hmix rs hrs, heq]⟩, fun rs' h => hunique rs' ⟨h.1, ?_⟩⟩
    exact Option.some.inj ((hmix rs' h.1).symm.trans h.2)
  · intro rand seq s₀ s hseq hinit hs
    have hinv : SeqInv w s := hs.invariant (seqInv_init hseq hinit) fun _ _ _ h hstep => h.step hw hstep
    refine ⟨fun t ht => hinv.length_seq ▸ hinv.tested t ht, fun k hk => ?_⟩
    exact w.count_deck (hinv.block hw hk)

end Threads

/-- Two threads deal a deck of a new order and a payment. -/
theorem seq_get_mix_two : ∃ s₀ s : SeqState Bool, seqInit ⟨1, 1, 0, 0, 0⟩ (fun _ => 1) [7, 7] = some s₀ ∧
    Reachable (seqStep ⟨1, 1, 0, 0, 0⟩) s₀ s ∧ s.results = [1, 0] ∧
    ((s.results.drop (0 * 2)).take 2).count 0 = 1 := by
  refine ⟨_, _, rfl, Reachable.runSteps [.lock true, .test true id, .take true, .unlock true, .lock false,
    .test false id, .take false] .start rfl, rfl, ?_⟩
  exact ((seq_get_mix (w := ⟨1, 1, 0, 0, 0⟩) (by decide)).2.2 (fun _ => 1) [7, 7] _ _ rfl rfl
    (Reachable.runSteps [.lock true, .test true id, .take true, .unlock true, .lock false,
      .test false id, .take false] .start rfl) |>.2 0 (by decide)).1

end MysqlBench.Tpcc
