import Mathlib.Data.Finset.Card
import Mathlib.Data.UInt
import AvcTool.Lib.Transition

/-!
# The counting semaphore

`Semphore::wait` takes a token under the mutex, and sleeps on the condition variable as long as there is none;
`post(n)` adds `n` tokens and wakes one sleeper or all of them.  A woken thread has to lock the mutex again, and until
it does a newcomer can take the token that was meant for it.  The number of threads is arbitrary.

What is kept is a relation between three numbers: if some thread sleeps, there are at most as many tokens as threads
that have been woken and have not looked again (`Balanced`).  The tokens are those that the calls of `post` in the run
have added, less one for each call of `wait` that has returned (`tokens_conserved`).
-/

namespace AvcTool

variable {τ : Type*} [DecidableEq τ]

structure Semphore (τ : Type*) where
  nn : Int
  /-- the threads in `cond_.wait` -/
  asleep : Finset τ
  /-- the threads that have been woken and do not have the mutex yet -/
  woken : Finset τ
  /-- the sum of the arguments of `post` -/
  posted : Nat
  /-- the number of calls of `wait` that have returned -/
  completed : Nat

inductive SemAction (τ : Type*) where
  /-- the call of `wait`, up to its first sleep or its end -/
  | wait (t : τ)
  /-- the rest of `wait` from the end of `cond_.wait` -/
  | reexamine (t : τ)
  /-- `notified` are the threads that the condition variable wakes -/
  | post (n : UInt32) (notified : Finset τ)
  | spurious (t : τ)

/-- The argument of a call of `post`. -/
def SemAction.tokens : SemAction τ → Nat
  | .post n _ => n.toNat
  | _ => 0

namespace Semphore

def init (n : Int) : Semphore τ :=
  { nn := n, asleep := ∅, woken := ∅, posted := 0, completed := 0 }

/-- The test of the loop: a thread that finds no token sleeps. -/
def examine (s : Semphore τ) (t : τ) : Semphore τ :=
  if s.nn = 0 then { s with asleep := insert t s.asleep }
  else { s with nn := s.nn - 1, completed := s.completed + 1 }

/-- `notify_one` wakes at least one sleeper if there is one, `notify_all` wakes all. -/
def mayNotify (s : Semphore τ) (n : UInt32) (notified : Finset τ) : Prop :=
  if n = 1 then notified ⊆ s.asleep ∧ (s.asleep.Nonempty → notified.Nonempty) else notified = s.asleep

instance decidableMayNotify (s : Semphore τ) (n : UInt32) (notified : Finset τ) :
    Decidable (s.mayNotify n notified) :=
  if h : n = 1 then decidable_of_iff (notified ⊆ s.asleep ∧ (s.asleep.Nonempty → notified.Nonempty))
    (by rw [mayNotify, if_pos h])
  else decidable_of_iff (notified = s.asleep) (by rw [mayNotify, if_neg h])

def wake (s : Semphore τ) (notified : Finset τ) : Semphore τ :=
  { s with asleep := s.asleep \ notified, woken := s.woken ∪ notified }

/-- `nn_` is an `int`, and `n` an `unsigned` that is added to it. -/
def post (s : Semphore τ) (n : UInt32) : Semphore τ :=
  { s with nn := (s.nn + n.toNat).bmod (2 ^ 32), posted := s.posted + n.toNat }

def step (s : Semphore τ) : SemAction τ → Option (Semphore τ)
  | .wait t => if t ∉ s.asleep ∧ t ∉ s.woken then some (s.examine t) else none
  | .reexamine t => if t ∈ s.woken then some ({ s with woken := s.woken.erase t }.examine t) else none
  | .post n notified => if s.mayNotify n notified then some ((s.post n).wake notified) else none
  | .spurious t => if t ∈ s.asleep then some (s.wake {t}) else none

def tokensPosted (as : List (SemAction τ)) : Nat := (as.map SemAction.tokens).sum

/-- The step ends a call of `wait`, whose thread goes on. -/
def returns : Semphore τ × SemAction τ × Semphore τ → Bool
  | (_, .wait u, t) => u ∉ t.asleep
  | (_, .reexamine u, t) => u ∉ t.asleep
  | _ => false

def waitsReturned (initial : Int) (as : List (SemAction τ)) : Nat :=
  (Transition.trace step (init initial) as).countP returns

/-! ### The meaning of the semaphore -/

/-- A semaphore without its mutex and its condition variable. -/
inductive CountAction where
  | wait
  | post (n : Nat)

/-- `wait` is not possible while the semaphore is 0, and decrements it otherwise. -/
def count (tokens : Nat) : CountAction → Option Nat
  | .wait => if 0 < tokens then some (tokens - 1) else none
  | .post n => some (tokens + n)

/-- What the step is for someone who does not see which threads sleep. -/
def countOf (s : Semphore τ) : SemAction τ → List CountAction
  | .wait _ => if s.nn = 0 then [] else [.wait]
  | .reexamine _ => if s.nn = 0 then [] else [.wait]
  | .post n _ => [.post n.toNat]
  | .spurious _ => []

/-! ### Tokens, sleepers and woken threads -/

structure Balanced (initial : Int) (s : Semphore τ) : Prop where
  nonneg : 0 ≤ s.nn
  conserved : s.nn = initial + s.posted - s.completed
  disjoint : Disjoint s.asleep s.woken
  tokens_le : s.asleep.Nonempty → s.nn ≤ s.woken.card

omit [DecidableEq τ] in
private theorem balanced_init {initial : Int} (h : 0 ≤ initial) : Balanced initial (init initial : Semphore τ) := by
  refine ⟨h, ?_, Finset.disjoint_empty_left _, ?_⟩
  · simp [init]
  · intro hasleep
    exact absurd hasleep Finset.not_nonempty_empty

private theorem disjoint_examine {s : Semphore τ} {t : τ} {woken : Finset τ} (hdisjoint : Disjoint s.asleep woken)
    (ht : t ∉ woken) :
    Disjoint ({ s with woken := woken }.examine t).asleep ({ s with woken := woken }.examine t).woken := by
  unfold Semphore.examine
  split
  · exact Finset.disjoint_insert_left.2 ⟨ht, hdisjoint⟩
  · exact hdisjoint

/-- A thread that looks at `nn_` while there are at least as many tokens to spare as the woken threads need. -/
private theorem Balanced.examine {initial : Int} {s : Semphore τ} (hs : Balanced initial s) {t : τ} (woken : Finset τ)
    (hsub : woken ⊆ s.woken) (hcard : s.woken.card ≤ woken.card + 1) (ht : t ∉ woken) :
    Balanced initial ({ s with woken := woken }.examine t) := by
  have hdisjoint := disjoint_examine (Finset.disjoint_of_subset_right hsub hs.disjoint) ht
  unfold Semphore.examine at hdisjoint ⊢
  by_cases hnn : s.nn = 0
  · rw [if_pos hnn] at hdisjoint ⊢
    refine ⟨hs.nonneg, hs.conserved, hdisjoint, ?_⟩
    intro _
    simp only [hnn]
    omega
  · rw [if_neg hnn] at hdisjoint ⊢
    have hpos := hs.nonneg
    refine ⟨?_, ?_, hdisjoint, ?_⟩
    · simp only
      omega
    · have hconserved := hs.conserved
      simp only
      omega
    · intro hasleep
      have hle := hs.tokens_le hasleep
      simp only
      omega

private theorem card_wake {s : Semphore τ} {notified : Finset τ} (hdisjoint : Disjoint s.asleep s.woken)
    (hsub : notified ⊆ s.asleep) : (s.wake notified).woken.card = s.woken.card + notified.card := by
  have hnotified : Disjoint s.woken notified := (Finset.disjoint_of_subset_left hsub hdisjoint).symm
  exact Finset.card_union_of_disjoint hnotified

private theorem disjoint_wake {s : Semphore τ} {notified : Finset τ} (hdisjoint : Disjoint s.asleep s.woken) :
    Disjoint (s.wake notified).asleep (s.wake notified).woken := by
  refine Finset.disjoint_union_right.2 ⟨?_, Finset.sdiff_disjoint⟩
  exact Finset.disjoint_of_subset_left Finset.sdiff_subset hdisjoint

omit [DecidableEq τ] in
private theorem mayNotify_subset {s : Semphore τ} {n : UInt32} {notified : Finset τ} (h : s.mayNotify n notified) :
    notified ⊆ s.asleep := by
  unfold mayNotify at h
  by_cases hn : n = 1
  · rw [if_pos hn] at h
    exact h.1
  · rw [if_neg hn] at h
    rw [h]

private theorem Balanced.spurious {initial : Int} {s : Semphore τ} (hs : Balanced initial s) {t : τ}
    (ht : t ∈ s.asleep) : Balanced initial (s.wake {t}) := by
  refine ⟨hs.nonneg, hs.conserved, disjoint_wake hs.disjoint, ?_⟩
  intro _
  have hcard := card_wake hs.disjoint (Finset.singleton_subset_iff.2 ht)
  have hle := hs.tokens_le ⟨t, ht⟩
  rw [hcard]
  simp only [wake]
  omega

/-- A sleeper that remains after a post has not been notified, so that `notify_one` has woken another. -/
theorem Balanced.post {initial : Int} {s : Semphore τ} (hs : Balanced initial s) {n : UInt32} {notified : Finset τ}
    (hnotify : s.mayNotify n notified) (hfits : initial + s.posted + n.toNat < 2 ^ 31) :
    Balanced initial ((s.post n).wake notified) := by
  have hnonneg := hs.nonneg
  have hconserved := hs.conserved
  have hsum : (s.nn + n.toNat).bmod (2 ^ 32) = s.nn + n.toNat := by
    refine Int.bmod_eq_of_le ?_ ?_ <;> omega
  refine ⟨?_, ?_, disjoint_wake hs.disjoint, ?_⟩
  · simp only [wake, Semphore.post, hsum]
    omega
  · simp only [wake, Semphore.post, hsum]
    omega
  · rintro ⟨u, hu⟩
    have hcard : ((s.post n).wake notified).woken.card = s.woken.card + notified.card :=
      card_wake hs.disjoint (mayNotify_subset hnotify)
    have hstill : u ∈ s.asleep ∧ u ∉ notified := Finset.mem_sdiff.1 hu
    have hle := hs.tokens_le ⟨u, hstill.1⟩
    rw [hcard]
    unfold mayNotify at hnotify
    by_cases hn : n = 1
    · rw [if_pos hn] at hnotify
      have hone : 0 < notified.card := Finset.card_pos.2 (hnotify.2 ⟨u, hstill.1⟩)
      have hn1 : n.toNat = 1 := by rw [hn]; rfl
      simp only [wake, Semphore.post, hsum]
      omega
    · rw [if_neg hn] at hnotify
      exact absurd (hnotify ▸ hstill.1) hstill.2

private theorem posted_examine (s : Semphore τ) (t : τ) : (s.examine t).posted = s.posted := by
  unfold examine
  split <;> rfl

theorem posted_step {s t : Semphore τ} {a : SemAction τ} (h : s.step a = some t) : t.posted = s.posted + a.tokens := by
  cases a with
  | wait u =>
    obtain ⟨-, ⟨⟩⟩ := Option.ite_none_right_eq_some.1 h
    exact posted_examine s u
  | reexamine u =>
    obtain ⟨-, ⟨⟩⟩ := Option.ite_none_right_eq_some.1 h
    exact posted_examine _ u
  | post n notified =>
    obtain ⟨-, ⟨⟩⟩ := Option.ite_none_right_eq_some.1 h
    rfl
  | spurious u =>
    obtain ⟨-, ⟨⟩⟩ := Option.ite_none_right_eq_some.1 h
    rfl

private theorem balanced_step {initial : Int} {s t : Semphore τ} {a : SemAction τ} (hs : Balanced initial s)
    (h : s.step a = some t) (hfits : initial + t.posted < 2 ^ 31) : Balanced initial t := by
  cases a with
  | wait u =>
    obtain ⟨⟨-, hu⟩, ⟨⟩⟩ := Option.ite_none_right_eq_some.1 h
    exact hs.examine s.woken (Finset.Subset.refl _) (Nat.le_succ _) hu
  | reexamine u =>
    obtain ⟨hu, ⟨⟩⟩ := Option.ite_none_right_eq_some.1 h
    refine hs.examine (s.woken.erase u) (Finset.erase_subset u s.woken) ?_ (Finset.notMem_erase u s.woken)
    exact (Finset.card_erase_add_one hu).ge
  | post n notified =>
    obtain ⟨hnotify, ⟨⟩⟩ := Option.ite_none_right_eq_some.1 h
    refine hs.post hnotify ?_
    simp only [wake, Semphore.post] at hfits
    omega
  | spurious u =>
    obtain ⟨hu, ⟨⟩⟩ := Option.ite_none_right_eq_some.1 h
    exact hs.spurious hu

private theorem balanced_exec {initial : Int} (hinitial : 0 ≤ initial) {s : Semphore τ} {as : List (SemAction τ)}
    (h : Transition.exec step (init initial) as = some s) (hfits : initial + s.posted < 2 ^ 31) :
    Balanced initial s := by
  have hstep : ∀ (s : Semphore τ) (a : SemAction τ) (t : Semphore τ),
      (initial + s.posted < 2 ^ 31 → Balanced initial s) → s.step a = some t →
        initial + t.posted < 2 ^ 31 → Balanced initial t := by
    intro s a t hs hst hfits
    have hposted := posted_step hst
    exact balanced_step (hs (by omega)) hst hfits
  exact Transition.exec_invariant hstep (fun _ => balanced_init hinitial) h hfits

/-! ### What the calls of the run have added and taken -/

private theorem disjoint_step {s t : Semphore τ} {a : SemAction τ} (hs : Disjoint s.asleep s.woken)
    (h : s.step a = some t) : Disjoint t.asleep t.woken := by
  cases a with
  | wait u =>
    obtain ⟨⟨-, hu⟩, ⟨⟩⟩ := Option.ite_none_right_eq_some.1 h
    exact disjoint_examine hs hu
  | reexamine u =>
    obtain ⟨-, ⟨⟩⟩ := Option.ite_none_right_eq_some.1 h
    exact disjoint_examine (Finset.disjoint_of_subset_right (Finset.erase_subset u s.woken) hs)
      (Finset.notMem_erase u s.woken)
  | post n notified =>
    obtain ⟨-, ⟨⟩⟩ := Option.ite_none_right_eq_some.1 h
    exact disjoint_wake (s := s.post n) hs
  | spurious u =>
    obtain ⟨-, ⟨⟩⟩ := Option.ite_none_right_eq_some.1 h
    exact disjoint_wake hs

private theorem completed_examine {s : Semphore τ} {u : τ} (hu : u ∉ s.asleep) :
    (s.examine u).completed = s.completed + if u ∉ (s.examine u).asleep then 1 else 0 := by
  unfold examine
  by_cases hnn : s.nn = 0
  · rw [if_pos hnn]
    simp
  · rw [if_neg hnn, if_pos hu]

private theorem completed_step {s t : Semphore τ} {a : SemAction τ} (hs : Disjoint s.asleep s.woken)
    (h : s.step a = some t) : t.completed = s.completed + if returns (s, a, t) then 1 else 0 := by
  cases a with
  | wait u =>
    obtain ⟨⟨hu, -⟩, ⟨⟩⟩ := Option.ite_none_right_eq_some.1 h
    simpa [returns] using completed_examine hu
  | reexamine u =>
    obtain ⟨hu, ⟨⟩⟩ := Option.ite_none_right_eq_some.1 h
    have hasleep : u ∉ s.asleep := fun hmem => Finset.disjoint_left.1 hs hmem hu
    simpa [returns] using completed_examine (s := { s with woken := s.woken.erase u }) hasleep
  | post n notified =>
    obtain ⟨-, ⟨⟩⟩ := Option.ite_none_right_eq_some.1 h
    rfl
  | spurious u =>
    obtain ⟨-, ⟨⟩⟩ := Option.ite_none_right_eq_some.1 h
    rfl

theorem posted_exec {initial : Int} {s : Semphore τ} {as : List (SemAction τ)}
    (h : Transition.exec step (init initial) as = some s) : s.posted = tokensPosted as := by
  have hstep : ∀ (s : Semphore τ) (a : SemAction τ) (t : Semphore τ), True → True → s.step a = some t →
      True ∧ t.posted = s.posted + a.tokens := fun _ _ _ _ _ hst => ⟨trivial, posted_step hst⟩
  have hsum := Transition.sum_trace (g := fun x => x.2.1.tokens) hstep trivial (Transition.along_true _ as) h
  rwa [Transition.map_trace SemAction.tokens h, init, Nat.zero_add] at hsum

private theorem completed_exec {initial : Int} {s : Semphore τ} {as : List (SemAction τ)}
    (h : Transition.exec step (init initial) as = some s) : s.completed = waitsReturned initial as := by
  have hstep : ∀ (s : Semphore τ) (a : SemAction τ) (t : Semphore τ), Disjoint s.asleep s.woken → True →
      s.step a = some t →
        Disjoint t.asleep t.woken ∧ t.completed = s.completed + if returns (s, a, t) then 1 else 0 :=
    fun _ _ _ hs _ hst => ⟨disjoint_step hs hst, completed_step hs hst⟩
  have hcount := Transition.countP_trace hstep (Finset.disjoint_empty_left _) (Transition.along_true _ as) h
  rwa [init, Nat.zero_add] at hcount

/-! ### The class implements the semaphore -/

private theorem count_examine {initial : Int} {s : Semphore τ} (hs : Balanced initial s) (t : τ) (woken : Finset τ) :
    Transition.exec count s.nn.toNat (if s.nn = 0 then [] else [.wait]) =
      some ({ s with woken := woken }.examine t).nn.toNat := by
  have hnonneg := hs.nonneg
  unfold examine
  by_cases hnn : s.nn = 0
  · rw [if_pos hnn, if_pos hnn]
    rfl
  · rw [if_neg hnn, if_neg hnn]
    have hpos : 0 < s.nn.toNat := by omega
    have hpred : s.nn.toNat - 1 = (s.nn - 1).toNat := by omega
    simp only [Transition.exec, count, if_pos hpos, Option.bind_some, hpred]

private theorem count_step {initial : Int} {s t : Semphore τ} {a : SemAction τ} (hs : Balanced initial s)
    (h : s.step a = some t) (ht : Balanced initial t) :
    Transition.exec count s.nn.toNat (s.countOf a) = some t.nn.toNat := by
  cases a with
  | wait u =>
    obtain ⟨-, ⟨⟩⟩ := Option.ite_none_right_eq_some.1 h
    exact count_examine hs u s.woken
  | reexamine u =>
    obtain ⟨-, ⟨⟩⟩ := Option.ite_none_right_eq_some.1 h
    exact count_examine hs u (s.woken.erase u)
  | post n notified =>
    obtain ⟨-, ⟨⟩⟩ := Option.ite_none_right_eq_some.1 h
    have hsum : s.nn.toNat + n.toNat = ((s.post n).wake notified).nn.toNat := by
      have hbefore := hs.conserved
      have hafter := ht.conserved
      have hnonneg := hs.nonneg
      simp only [wake, Semphore.post] at hafter ⊢
      omega
    simp only [countOf, Transition.exec, count, Option.bind_some, hsum]
  | spurious u =>
    obtain ⟨-, ⟨⟩⟩ := Option.ite_none_right_eq_some.1 h
    rfl

/-- Every run of the class is a run of the semaphore, which ends with as many tokens. -/
theorem count_exec {initial : Int} (hinitial : 0 ≤ initial) {s : Semphore τ} {as : List (SemAction τ)}
    (h : Transition.exec step (init initial) as = some s) (hfits : initial + s.posted < 2 ^ 31) :
    ∃ cs, Transition.exec count initial.toNat cs = some s.nn.toNat := by
  have hstep : ∀ (s : Semphore τ) (a : SemAction τ) (t : Semphore τ),
      (initial + s.posted < 2 ^ 31 →
        Balanced initial s ∧ ∃ cs, Transition.exec count initial.toNat cs = some s.nn.toNat) → s.step a = some t →
      initial + t.posted < 2 ^ 31 →
        Balanced initial t ∧ ∃ cs, Transition.exec count initial.toNat cs = some t.nn.toNat := by
    intro s a t hs hst hfits
    have hposted := posted_step hst
    obtain ⟨hbalanced, cs, hcs⟩ := hs (by omega)
    have ht := balanced_step hbalanced hst hfits
    exact ⟨ht, cs ++ s.countOf a, Transition.exec_append.2 ⟨_, hcs, count_step hbalanced hst ht⟩⟩
  exact (Transition.exec_invariant hstep (fun _ => ⟨balanced_init hinitial, [], rfl⟩) h hfits).2

/-! ### Main results -/

/-- A sleeper never waits alone for a token that is there: a thread that has been woken is about to look at it. -/
theorem woken_nonempty_of_token {initial : Int} (hinitial : 0 ≤ initial) {s : Semphore τ} {as : List (SemAction τ)}
    (h : Transition.exec step (init initial) as = some s) (hfits : initial + tokensPosted as < 2 ^ 31)
    (hasleep : s.asleep.Nonempty) (htoken : s.nn ≠ 0) : s.woken.Nonempty := by
  rw [← posted_exec h] at hfits
  have hs := balanced_exec hinitial h hfits
  have hnonneg := hs.nonneg
  have hle := hs.tokens_le hasleep
  exact Finset.card_pos.1 (by omega)

/-- The tokens are those that the calls of `post` have added, without one for each call of `wait` that has returned; and
no wake-up is lost. -/
theorem tokens_conserved (initial : Int) (hinitial : 0 ≤ initial) (as : List (SemAction τ)) (s : Semphore τ)
    (h : Transition.exec step (init initial) as = some s) (hfits : initial + tokensPosted as < 2 ^ 31) :
    0 ≤ s.nn ∧ s.nn = initial + tokensPosted as - waitsReturned initial as ∧
      (s.asleep.Nonempty → s.nn ≤ s.woken.card) := by
  rw [← posted_exec h] at hfits ⊢
  rw [← completed_exec h]
  have hs := balanced_exec hinitial h hfits
  exact ⟨hs.nonneg, hs.conserved, hs.tokens_le⟩

/-- One thread sleeps, a post of two tokens wakes it, and two others take them before it looks again. -/
def newcomers : List (SemAction Nat) := [.wait 0, .post 2 {0}, .wait 1, .wait 2, .reexamine 0]

theorem tokens_conserved_newcomers :
    ∃ s, Transition.exec step (init 0) newcomers = some s ∧ s.asleep = {0} ∧ tokensPosted newcomers = 2 ∧
      waitsReturned 0 newcomers = 2 ∧ s.nn = (0 : Int) + tokensPosted newcomers - waitsReturned 0 newcomers := by
  obtain ⟨s, hrun, hasleep⟩ : ∃ s, Transition.exec step (init 0) newcomers = some s ∧ s.asleep = {0} := ⟨_, rfl, rfl⟩
  exact ⟨s, hrun, hasleep, rfl, rfl, (tokens_conserved 0 le_rfl newcomers s hrun (by decide)).2.1⟩

end Semphore

end AvcTool
