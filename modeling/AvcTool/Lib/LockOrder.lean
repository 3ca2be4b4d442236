import Mathlib.Data.Fintype.Basic
import Mathlib.Data.Finset.Max
import Mathlib.Logic.Function.Basic
import Mathlib.Algebra.BigOperators.Group.Finset.Basic
import Mathlib.Algebra.Order.BigOperators.Group.Finset
import AvcTool.Lib.Transition

/-!
# Locks that are taken in order

A `Script` is what a piece of code does with locks: it takes a lock for the time of another script, and branches and
loops are left open.  Several threads carry out their scripts in any interleaving.  A thread that comes to a lock which
another thread has cannot go on, nor can one that has the lock itself, unless the lock is `recursive`.

The locks have ranks.  A script is `Ordered` if it takes only locks whose rank is above those of the locks that it has,
or recursive ones that it has already.  Threads whose scripts are ordered do not deadlock: in every state that they can
reach, one of those that are not finished can go on (`exists_step`), and all of them can be brought to their end
(`exists_finish`).
-/

namespace LockOrder

variable {μ : Type*}

inductive Script (μ : Type*) where
  | skip
  | seq (s t : Script μ)
  | either (s t : Script μ)
  | repeated (s : Script μ)
  /-- takes the lock, and gives it back at the end of `s` -/
  | locked (m : μ) (s : Script μ)

/-- What a thread has still to do, step by step. -/
inductive Frame (μ : Type*) where
  | run (s : Script μ)
  | unlock (m : μ)

/-- The locks that a thread has: those that it has still to give back. -/
def held : List (Frame μ) → List μ
  | [] => []
  | .run _ :: k => held k
  | .unlock m :: k => m :: held k

/-- The next step of a thread; `choice` decides at branches and loops. -/
def advance (free : μ → Bool) (choice : Bool) : List (Frame μ) → Option (List (Frame μ))
  | [] => none
  | .run .skip :: k => some k
  | .run (.seq s t) :: k => some (.run s :: .run t :: k)
  | .run (.either s t) :: k => some (.run (if choice then s else t) :: k)
  | .run (.repeated s) :: k => some (if choice then .run s :: .run (.repeated s) :: k else k)
  | .run (.locked m s) :: k => if free m then some (.run s :: .unlock m :: k) else none
  | .unlock _ :: k => some k

/-! ### Scripts that keep the order -/

section Ordered

variable {ρ : Type*} [LinearOrder ρ] (recursive : μ → Bool) (rank : μ → ρ)

/-- The script takes locks in the order of their ranks, if it starts with the locks `l`. -/
def Script.Ordered : Script μ → List μ → Prop
  | .skip, _ => True
  | .seq s t, l => s.Ordered l ∧ t.Ordered l
  | .either s t, l => s.Ordered l ∧ t.Ordered l
  | .repeated s, l => s.Ordered l
  | .locked m s, l => (recursive m ∧ m ∈ l ∨ ∀ h ∈ l, rank h < rank m) ∧ s.Ordered (m :: l)

def FramesOrdered : List (Frame μ) → Prop
  | [] => True
  | .run s :: k => s.Ordered recursive rank (held k) ∧ FramesOrdered k
  | .unlock _ :: k => FramesOrdered k

variable {recursive rank}

theorem FramesOrdered.advance {free : μ → Bool} {choice : Bool} {k k' : List (Frame μ)} (h : FramesOrdered recursive rank k)
    (hadvance : LockOrder.advance free choice k = some k') : FramesOrdered recursive rank k' := by
  rcases k with _ | ⟨⟨_ | ⟨s, t⟩ | ⟨s, t⟩ | s | ⟨m, s⟩⟩ | m, k⟩
  · cases hadvance
  · obtain rfl := Option.some.inj hadvance
    exact h.2
  · obtain rfl := Option.some.inj hadvance
    exact ⟨h.1.1, h.1.2, h.2⟩
  · obtain rfl := Option.some.inj hadvance
    cases choice with
    | true => exact ⟨h.1.1, h.2⟩
    | false => exact ⟨h.1.2, h.2⟩
  · obtain rfl := Option.some.inj hadvance
    cases choice with
    | true => exact ⟨h.1, h.1, h.2⟩
    | false => exact h.2
  · obtain ⟨-, ⟨⟩⟩ := Option.ite_none_right_eq_some.1 hadvance
    exact ⟨h.1.2, h.2⟩
  · obtain rfl := Option.some.inj hadvance
    exact h

end Ordered

/-! ### The end of a thread -/

/-- A bound for the steps of a script that does no loop once more. -/
def Script.effort : Script μ → Nat
  | .skip => 1
  | .seq s t => s.effort + t.effort + 1
  | .either s t => s.effort + t.effort + 1
  | .repeated _ => 1
  | .locked _ s => s.effort + 2

def effort : List (Frame μ) → Nat
  | [] => 0
  | .run s :: k => s.effort + effort k
  | .unlock _ :: k => 1 + effort k

private theorem effort_advance {free : μ → Bool} {k k' : List (Frame μ)} (h : advance free false k = some k') :
    effort k' < effort k := by
  rcases k with _ | ⟨⟨_ | ⟨s, t⟩ | ⟨s, t⟩ | s | ⟨m, s⟩⟩ | m, k⟩
  · cases h
  · obtain rfl := Option.some.inj h
    simp [effort, Script.effort]
  · obtain rfl := Option.some.inj h
    simp only [effort, Script.effort]
    omega
  · obtain rfl := Option.some.inj h
    simp only [effort, Script.effort, Bool.false_eq_true, if_false]
    omega
  · obtain rfl := Option.some.inj h
    simp only [effort, Script.effort, Bool.false_eq_true, if_false]
    omega
  · obtain ⟨-, ⟨⟩⟩ := Option.ite_none_right_eq_some.1 h
    simp only [effort, Script.effort]
    omega
  · obtain rfl := Option.some.inj h
    simp [effort]

/-- A thread that cannot go on is finished or has come to a lock which is not free for it. -/
private theorem eq_nil_or_blocked {free : μ → Bool} {choice : Bool} {k : List (Frame μ)}
    (h : advance free choice k = none) : k = [] ∨ ∃ m s k', k = .run (.locked m s) :: k' ∧ free m = false := by
  rcases k with _ | ⟨⟨_ | ⟨s, t⟩ | ⟨s, t⟩ | s | ⟨m, s⟩⟩ | m, k⟩
  · exact .inl rfl
  · cases h
  · cases h
  · cases h
  · cases h
  · refine .inr ⟨m, s, k, rfl, ?_⟩
    rw [advance, ite_eq_right_iff] at h
    exact Bool.eq_false_iff.2 fun hfree => nomatch h hfree
  · cases h

/-- A step that takes a lock finds it free; the other steps take none. -/
private theorem mem_held_advance {free : μ → Bool} {choice : Bool} {k k' : List (Frame μ)}
    (h : advance free choice k = some k') {m : μ} (hm : m ∈ held k') : m ∈ held k ∨ free m = true := by
  rcases k with _ | ⟨⟨_ | ⟨s, t⟩ | ⟨s, t⟩ | s | ⟨x, s⟩⟩ | x, k⟩
  · cases h
  · obtain rfl := Option.some.inj h
    exact .inl hm
  · obtain rfl := Option.some.inj h
    exact .inl hm
  · obtain rfl := Option.some.inj h
    exact .inl hm
  · obtain rfl := Option.some.inj h
    cases choice <;> exact .inl hm
  · obtain ⟨hfree, ⟨⟩⟩ := Option.ite_none_right_eq_some.1 h
    rcases List.mem_cons.1 hm with rfl | hm
    · exact .inr hfree
    · exact .inl hm
  · obtain rfl := Option.some.inj h
    exact .inl (List.mem_cons_of_mem x hm)

/-! ### Threads that share locks -/

section Threads

variable {ι : Type*} [Fintype ι] [DecidableEq ι] [DecidableEq μ] (recursive : μ → Bool)

/-- The thread `i` can take the lock. -/
def free (threads : ι → List (Frame μ)) (i : ι) (m : μ) : Bool :=
  decide (∀ j, j ≠ i → m ∉ held (threads j)) && (recursive m || decide (m ∉ held (threads i)))

/-- The thread `a.1` takes a step. -/
def step (threads : ι → List (Frame μ)) (a : ι × Bool) : Option (ι → List (Frame μ)) :=
  (advance (free recursive threads a.1) a.2 (threads a.1)).map (Function.update threads a.1)

def start (scripts : ι → Script μ) (i : ι) : List (Frame μ) := [.run (scripts i)]

/-- The threads take locks in order, and no lock is with two of them. -/
structure Orderly {ρ : Type*} [LinearOrder ρ] (rank : μ → ρ) (threads : ι → List (Frame μ)) : Prop where
  ordered : ∀ i, FramesOrdered recursive rank (threads i)
  exclusive : ∀ i j m, m ∈ held (threads i) → m ∈ held (threads j) → i = j

variable {recursive} {ρ : Type*} [LinearOrder ρ] {rank : μ → ρ} {threads : ι → List (Frame μ)}

omit [Fintype ι] [DecidableEq ι] [DecidableEq μ] in
theorem orderly_start {scripts : ι → Script μ} (h : ∀ i, (scripts i).Ordered recursive rank []) :
    Orderly recursive rank (start scripts) where
  ordered i := ⟨h i, trivial⟩
  exclusive _ _ _ hi := nomatch hi

theorem orderly_step (threads : ι → List (Frame μ)) (a : ι × Bool) (threads' : ι → List (Frame μ))
    (h : Orderly recursive rank threads) (hstep : step recursive threads a = some threads') :
    Orderly recursive rank threads' := by
  obtain ⟨i, choice⟩ := a
  obtain ⟨k, hadvance, rfl⟩ := Option.map_eq_some_iff.1 hstep
  -- what thread `i` has now, no other thread has
  have hown : ∀ j m, j ≠ i → m ∈ held k → m ∉ held (threads j) := by
    intro j m hne hm hj
    rcases mem_held_advance hadvance hm with hm | hfree
    · exact hne (h.exclusive j i m hj hm)
    · exact of_decide_eq_true (Bool.and_eq_true_iff.1 hfree).1 j hne hj
  refine ⟨?_, ?_⟩
  · rw [Function.forall_update_iff _ fun _ k => FramesOrdered recursive rank k]
    exact ⟨(h.ordered i).advance hadvance, fun j _ => h.ordered j⟩
  · intro j j' m hj hj'
    by_cases heq : j = i <;> by_cases heq' : j' = i
    · rw [heq, heq']
    · subst heq
      rw [Function.update_self] at hj
      rw [Function.update_of_ne heq'] at hj'
      exact absurd hj' (hown j' m heq' hj)
    · subst heq'
      rw [Function.update_self] at hj'
      rw [Function.update_of_ne heq] at hj
      exact absurd hj (hown j m heq hj')
    · rw [Function.update_of_ne heq] at hj
      rw [Function.update_of_ne heq'] at hj'
      exact h.exclusive j j' m hj hj'

/-- A thread in order never comes to a lock that only its own possession keeps it from taking. -/
private theorem Orderly.exists_holder (h : Orderly recursive rank threads) {i : ι} {m : μ} {s : Script μ}
    {k : List (Frame μ)} (hhead : threads i = .run (.locked m s) :: k) (hfree : free recursive threads i m = false) :
    ∃ j, j ≠ i ∧ m ∈ held (threads j) := by
  have hframes := h.ordered i
  rw [hhead] at hframes
  have hmine : recursive m = true ∨ m ∉ held (threads i) := by
    rw [hhead]
    rcases hframes.1.1 with ⟨hrec, -⟩ | hlt
    · exact .inl hrec
    · exact .inr fun hm => lt_irrefl _ (hlt m hm)
  by_contra hnone
  simp only [not_exists, not_and] at hnone
  have hfree' : free recursive threads i m = true := by
    rw [free, Bool.and_eq_true_iff, Bool.or_eq_true, decide_eq_true_iff, decide_eq_true_iff]
    exact ⟨hnone, hmine⟩
  rw [hfree] at hfree'
  cases hfree'

/-- If a thread is not finished, one of the threads can go on. -/
theorem Orderly.exists_step (h : Orderly recursive rank threads) (choice : Bool) (hbusy : ∃ i, threads i ≠ []) :
    ∃ i threads', step recursive threads (i, choice) = some threads' := by
  by_contra hstuck
  simp only [not_exists] at hstuck
  have hnone : ∀ i, advance (free recursive threads i) choice (threads i) = none := fun i =>
    Option.eq_none_iff_forall_not_mem.2 fun k hk => hstuck i _ (Option.map_eq_some_iff.2 ⟨k, hk, rfl⟩)
  -- every busy thread waits for a lock, and the thread that has it waits for one of a higher rank
  have hwaits : ∀ i, threads i ≠ [] → ∃ m s k j, threads i = .run (.locked m s) :: k ∧ j ≠ i ∧ m ∈ held (threads j) := by
    intro i hi
    rcases eq_nil_or_blocked (hnone i) with hnil | ⟨m, s, k, hk, hfree⟩
    · exact absurd hnil hi
    · obtain ⟨j, hne, hj⟩ := h.exists_holder hk hfree
      exact ⟨m, s, k, j, hk, hne, hj⟩
  obtain ⟨i, hi⟩ := hbusy
  obtain ⟨m, s, -⟩ := hwaits i hi
  have : Nonempty μ := ⟨m⟩
  have : Nonempty (Script μ) := ⟨s⟩
  have : Nonempty ι := ⟨i⟩
  choose! lock script rest holder hhead hne hholder using hwaits
  have hup : ∀ i, threads i ≠ [] → threads (holder i) ≠ [] ∧ rank (lock i) < rank (lock (holder i)) := by
    intro i hi
    have hmem := hholder i hi
    have hbusy : threads (holder i) ≠ [] := by
      intro hnil
      rw [hnil] at hmem
      cases hmem
    refine ⟨hbusy, ?_⟩
    have hframes := h.ordered (holder i)
    have hhead' := hhead _ hbusy
    rw [hhead'] at hframes hmem
    rcases hframes.1.1 with ⟨-, hagain⟩ | hlt
    · -- a lock that it has already, no other thread has
      have hmine : lock (holder i) ∈ held (threads (holder i)) := hhead' ▸ hagain
      exact absurd (h.exclusive _ _ _ (hholder _ hbusy) hmine) (hne _ hbusy)
    · exact hlt _ hmem
  have hfin : (Finset.univ.filter fun i => threads i ≠ []).Nonempty := ⟨i, by simpa using hi⟩
  obtain ⟨top, htop, hmax⟩ := Finset.exists_max_image _ (fun i => rank (lock i)) hfin
  obtain ⟨hbusy', hlt⟩ := hup top (Finset.mem_filter.1 htop).2
  exact absurd hlt (not_lt.2 (hmax _ (Finset.mem_filter.2 ⟨Finset.mem_univ _, hbusy'⟩)))

private theorem sum_effort_lt {i : ι} {threads' : ι → List (Frame μ)}
    (hstep : step recursive threads (i, false) = some threads') :
    ∑ j, effort (threads' j) < ∑ j, effort (threads j) := by
  obtain ⟨k, hadvance, rfl⟩ := Option.map_eq_some_iff.1 hstep
  have hlt := effort_advance hadvance
  refine Finset.sum_lt_sum (fun j _ => ?_) ⟨i, Finset.mem_univ i, ?_⟩
  · rcases eq_or_ne j i with rfl | hne
    · rw [Function.update_self]
      exact hlt.le
    · rw [Function.update_of_ne hne]
  · rwa [Function.update_self]

/-- All threads can be brought to their end. -/
theorem Orderly.exists_finish (h : Orderly recursive rank threads) :
    ∃ as, Transition.exec (step recursive) threads as = some fun _ => [] := by
  -- as long as a thread is busy, one can go on without doing its loops once more
  induction hn : ∑ i : ι, effort (threads i) using Nat.strong_induction_on generalizing threads with
  | _ n ih =>
    by_cases hbusy : ∃ i, threads i ≠ []
    · obtain ⟨i, threads', hstep⟩ := h.exists_step false hbusy
      have hlt := sum_effort_lt hstep
      obtain ⟨as, has⟩ := ih _ (hn ▸ hlt) (orderly_step _ _ _ h hstep) rfl
      exact ⟨(i, false) :: as, Transition.exec_cons.2 ⟨threads', hstep, has⟩⟩
    · simp only [not_exists, not_not] at hbusy
      exact ⟨[], congrArg some (funext hbusy)⟩

end Threads

end LockOrder
