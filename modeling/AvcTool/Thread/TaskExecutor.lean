import Mathlib.Data.Finset.Insert
import Mathlib.Data.List.Basic
import AvcTool.Lib.Transition

/-!
# Executors of tasks

`sync` and `sync_first` hand in a function that calls the task and, by the destructor of a `OnceToken`, posts the
semaphore for which the caller waits, whether the task returns or throws.  `SyncCalls` records what these functions
do, over any of the implementations of `TaskExecutorInterface`.

`TaskExecutor` is what the implementations have in common, and `Survives` what they are to guarantee whatever the
tasks do: no exception leaves the thread function, the tasks are taken in the order of the queue and run, and every
caller of `sync` is released once.
-/

namespace AvcTool

/-- A scope that begins with a `OnceToken`.  The destructor is called when it is left, also by an exception (the
second component). -/
def onceToken {σ : Type*} (onDestructed : σ → σ) (scope : σ → σ × Bool) (s : σ) : σ × Bool :=
  (onDestructed (scope s).1, (scope s).2)

inductive CallEvent where
  | began (x : Nat)
  | ended (x : Nat) (throws : Bool)
  /-- the semaphore of the call that has posted the task is posted -/
  | released (x : Nat)
  deriving DecidableEq

structure SyncCalls where
  /-- the tasks that have been posted by `sync` or `sync_first` -/
  sync : Finset Nat
  events : List CallEvent

namespace SyncCalls

def init : SyncCalls := ⟨∅, []⟩

def post (c : SyncCalls) (x : Nat) (isSync : Bool) : SyncCalls :=
  if isSync then { c with sync := insert x c.sync } else c

def begin_ (c : SyncCalls) (x : Nat) : SyncCalls :=
  { c with events := c.events ++ [.began x] }

def release (x : Nat) (c : SyncCalls) : SyncCalls :=
  { c with events := c.events ++ [.released x] }

/-- The end of the task, and whether it has thrown an exception. -/
def leave (x : Nat) (throws : Bool) (c : SyncCalls) : SyncCalls × Bool :=
  ({ c with events := c.events ++ [.ended x throws] }, throws)

/-- The end of the function that has been posted: the task alone, or the scope in which `sync` and `sync_first` call
it. -/
def end_ (c : SyncCalls) (x : Nat) (throws : Bool) : SyncCalls :=
  if x ∈ c.sync then (onceToken (release x) (leave x throws) c).1 else (leave x throws c).1

def completed (c : SyncCalls) : List Nat :=
  c.events.filterMap fun
    | .ended x _ => some x
    | _ => none

/-- Every caller is released at most once, after its task has ended. -/
structure Sound (c : SyncCalls) : Prop where
  released_iff : ∀ x, .released x ∈ c.events ↔ x ∈ c.sync ∧ x ∈ c.completed
  released_le : ∀ x, c.events.count (.released x) ≤ 1
  after : ∀ l, l <+: c.events → ∀ x, .released x ∈ l → ∃ throws, .ended x throws ∈ l

/-! ### One call after the other -/

private theorem end_of_sync {c : SyncCalls} {x : Nat} (hx : x ∈ c.sync) (throws : Bool) :
    c.end_ x throws = ⟨c.sync, c.events ++ [.ended x throws] ++ [.released x]⟩ := by
  rw [end_, if_pos hx]
  rfl

private theorem end_of_async {c : SyncCalls} {x : Nat} (hx : x ∉ c.sync) (throws : Bool) :
    c.end_ x throws = ⟨c.sync, c.events ++ [.ended x throws]⟩ := by
  rw [end_, if_neg hx]
  rfl

@[simp] theorem completed_post (c : SyncCalls) (x : Nat) (isSync : Bool) :
    (c.post x isSync).completed = c.completed := by
  cases isSync <;> rfl

@[simp] theorem completed_begin (c : SyncCalls) (x : Nat) : (c.begin_ x).completed = c.completed := by
  simp [completed, begin_]

@[simp] theorem completed_end (c : SyncCalls) (x : Nat) (throws : Bool) :
    (c.end_ x throws).completed = c.completed ++ [x] := by
  by_cases hsync : x ∈ c.sync
  · simp [completed, end_of_sync hsync]
  · simp [completed, end_of_async hsync]

@[simp] theorem sync_end (c : SyncCalls) (x : Nat) (throws : Bool) : (c.end_ x throws).sync = c.sync := by
  by_cases hsync : x ∈ c.sync
  · rw [end_of_sync hsync]
  · rw [end_of_async hsync]

theorem mem_sync_post {c : SyncCalls} {x y : Nat} {isSync : Bool} :
    y ∈ (c.post x isSync).sync ↔ y ∈ c.sync ∨ y = x ∧ isSync = true := by
  cases isSync with
  | false => simp [post]
  | true => simp [post, or_comm]

@[simp] theorem events_post (c : SyncCalls) (x : Nat) (isSync : Bool) : (c.post x isSync).events = c.events := by
  cases isSync <;> rfl

theorem count_began_begin (c : SyncCalls) (x y : Nat) :
    (c.begin_ x).events.count (.began y) = c.events.count (.began y) + [x].count y := by
  unfold begin_
  rw [List.count_append]
  congr 1
  by_cases hxy : x = y
  · subst hxy
    simp
  · simp [hxy]

@[simp] theorem count_began_end (c : SyncCalls) (x y : Nat) (throws : Bool) :
    (c.end_ x throws).events.count (.began y) = c.events.count (.began y) := by
  by_cases hsync : x ∈ c.sync
  · simp [end_of_sync hsync]
  · simp [end_of_async hsync]

theorem sound_init : init.Sound := by
  refine ⟨by simp [init, completed], fun x => Nat.zero_le _, fun l hl x hx => ?_⟩
  rw [List.prefix_nil.1 hl] at hx
  cases hx

theorem Sound.post {c : SyncCalls} (hc : c.Sound) {x : Nat} (hx : x ∉ c.completed) (isSync : Bool) :
    (c.post x isSync).Sound := by
  cases isSync with
  | false => exact hc
  | true =>
    refine ⟨fun y => (hc.released_iff y).trans ?_, hc.released_le, hc.after⟩
    change y ∈ c.sync ∧ y ∈ c.completed ↔ y ∈ insert x c.sync ∧ y ∈ c.completed
    rw [Finset.mem_insert]
    constructor
    · rintro ⟨hsync, hcompleted⟩
      exact ⟨.inr hsync, hcompleted⟩
    · rintro ⟨rfl | hsync, hcompleted⟩
      · exact absurd hcompleted hx
      · exact ⟨hsync, hcompleted⟩

private theorem after_concat {events : List CallEvent} {ev : CallEvent}
    (hafter : ∀ l, l <+: events → ∀ x, .released x ∈ l → ∃ throws, .ended x throws ∈ l)
    (hev : ∀ x, ev = .released x → ∃ throws, .ended x throws ∈ events) :
    ∀ l, l <+: events ++ [ev] → ∀ x, .released x ∈ l → ∃ throws, .ended x throws ∈ l := by
  intro l hl x hx
  rcases List.prefix_concat_iff.1 hl with rfl | hl
  · rcases List.mem_append.1 hx with hx | hx
    · obtain ⟨throws, hmem⟩ := hafter events (List.prefix_refl _) x hx
      exact ⟨throws, List.mem_append_left _ hmem⟩
    · obtain ⟨throws, hmem⟩ := hev x (List.mem_singleton.1 hx).symm
      exact ⟨throws, List.mem_append_left _ hmem⟩
  · exact hafter l hl x hx

theorem Sound.begin_ {c : SyncCalls} (hc : c.Sound) (x : Nat) : (c.begin_ x).Sound := by
  have hmem : ∀ y, CallEvent.released y ∈ (c.begin_ x).events ↔ .released y ∈ c.events := by
    simp [SyncCalls.begin_]
  refine ⟨fun y => ?_, fun y => ?_, after_concat hc.after nofun⟩
  · rw [hmem, completed_begin]
    exact hc.released_iff y
  · have hle := hc.released_le y
    simpa [SyncCalls.begin_] using hle

/-- The end of a task that has not ended before. -/
theorem Sound.end_ {c : SyncCalls} (hc : c.Sound) {x : Nat} (hx : x ∉ c.completed) (throws : Bool) :
    (c.end_ x throws).Sound := by
  have hnew : .released x ∉ c.events := fun hmem => hx ((hc.released_iff x).1 hmem).2
  have hended : ∀ l, l <+: c.events ++ [.ended x throws] → ∀ y, .released y ∈ l → ∃ throws, .ended y throws ∈ l :=
    after_concat hc.after nofun
  by_cases hsync : x ∈ c.sync
  · have hcompleted := completed_end c x throws
    rw [end_of_sync hsync throws] at hcompleted ⊢
    refine ⟨fun y => ?_, fun y => ?_, ?_⟩
    · have hiff := hc.released_iff y
      rw [hcompleted]
      simp only [List.mem_append, List.mem_singleton, CallEvent.released.injEq, reduceCtorEq, or_false]
      by_cases hyx : y = x
      · simp [hyx, hsync]
      · simp [hyx, hiff]
    · have hle := hc.released_le y
      simp only [List.count_append]
      by_cases hyx : y = x
      · subst hyx
        rw [List.count_eq_zero_of_not_mem hnew]
        simp
      · have hne : x ≠ y := fun heq => hyx heq.symm
        simpa [hne] using hle
    · refine after_concat hended fun y hy => ?_
      obtain rfl := CallEvent.released.inj hy
      exact ⟨throws, List.mem_append_right _ List.mem_cons_self⟩
  · have hcompleted := completed_end c x throws
    rw [end_of_async hsync throws] at hcompleted ⊢
    refine ⟨fun y => ?_, fun y => ?_, hended⟩
    · have hiff := hc.released_iff y
      rw [hcompleted]
      simp only [List.mem_append, List.mem_singleton, reduceCtorEq, or_false]
      by_cases hyx : y = x
      · subst hyx
        simp [hnew, hsync]
      · simp [hyx, hiff]
    · have hle := hc.released_le y
      simpa using hle

end SyncCalls

/-! ### What the implementations have in common -/

/-- An implementation of `TaskExecutorInterface`, with the callers that post tasks from other threads. -/
structure TaskExecutor where
  State : Type
  Action : Type
  init : State
  step : State → Action → Option State
  /-- the number of tasks that have been posted -/
  posted : State → Nat
  /-- the tasks that have not been taken, in the order of the queue -/
  queue : State → List Nat
  taken : State → List Nat
  calls : State → SyncCalls
  /-- an exception has left the thread function -/
  terminated : State → Bool
  /-- the step posts a task, by `sync` or `sync_first` if the value is true -/
  posts : Action → Option Bool
  /-- the step is one of the executor, or of a caller that is posting a task -/
  isOwn : Action → Bool
  /-- a task ends with an exception -/
  throws : Action → Bool
  /-- the loop of the thread calls the tasks in a `try` block -/
  catches : Bool

namespace TaskExecutor

variable (E : TaskExecutor)

/-- No task of the step throws an exception that the thread does not catch. -/
def Caught (a : E.Action) : Prop :=
  E.catches = true ∨ E.throws a = false

/-- The tasks in the queue are taken in its order, and before what comes behind them. -/
def InQueueOrder (s t : E.State) : Prop :=
  ∃ new, E.taken t = E.taken s ++ new ∧ (E.queue s).Sublist (new ++ E.queue t)

structure Survives (s : E.State) : Prop where
  running : E.terminated s = false
  order : ∀ as t, Transition.exec E.step s as = some t → E.InQueueOrder s t
  once : ∀ x, (E.calls s).events.count (.began x) ≤ 1
  calls : (E.calls s).Sound
  /-- left alone, the executor comes to rest, and then every task has been run and every caller released -/
  completes : ∃ n, ∀ as t, (∀ a ∈ as, E.isOwn a = true ∧ E.Caught a) → Transition.exec E.step s as = some t →
    as.length ≤ n ∧ ((∀ a, E.isOwn a = true → E.step t a = none) → ∀ x < E.posted t,
      .began x ∈ (E.calls t).events ∧ x ∈ (E.calls t).completed ∧
        (x ∈ (E.calls t).sync → .released x ∈ (E.calls t).events))

/-- The tasks are those that the steps `as` have posted, in this order; `sync` has those of `sync` and `sync_first`. -/
structure Posted (as : List E.Action) (s : E.State) : Prop where
  count : E.posted s = (as.filterMap E.posts).length
  sync_iff : ∀ x, x ∈ (E.calls s).sync ↔ (as.filterMap E.posts)[x]? = some true

/-- `Caught`, if the step is possible. -/
def StepCaught (s : E.State) (a : E.Action) : Prop :=
  (E.step s a).isSome = true → E.Caught a

/-- `Survives` after the step. -/
def StepSurvives (s : E.State) (a : E.Action) : Prop :=
  ∀ t, E.step s a = some t → E.Survives t

variable {E}

theorem InQueueOrder.refl (s : E.State) : E.InQueueOrder s s :=
  ⟨[], (List.append_nil _).symm, List.Sublist.refl _⟩

theorem InQueueOrder.trans {s t u : E.State} (hst : E.InQueueOrder s t) (htu : E.InQueueOrder t u) :
    E.InQueueOrder s u := by
  obtain ⟨new, htaken, hqueue⟩ := hst
  obtain ⟨new', htaken', hqueue'⟩ := htu
  refine ⟨new ++ new', ?_, ?_⟩
  · rw [htaken', htaken, List.append_assoc]
  · rw [List.append_assoc]
    exact hqueue.trans ((List.Sublist.refl new).append hqueue')

/-- One more call that posts a task, or a step that does not. -/
theorem Posted.concat {s t : E.State} {as : List E.Action} {a : E.Action} (hs : E.Posted as s)
    (hcount : E.posted t = E.posted s + (E.posts a).toList.length)
    (hsync : ∀ x, x ∈ (E.calls t).sync ↔ x ∈ (E.calls s).sync ∨ x = E.posted s ∧ E.posts a = some true) :
    E.Posted (as ++ [a]) t := by
  refine ⟨?_, fun x => ?_⟩
  · rw [Transition.filterMap_concat, List.length_append, hcount, hs.count]
  · rw [hsync, hs.sync_iff, hs.count, Transition.filterMap_concat, Transition.getElem?_append_toList]

/-- What is posted is numbered in the order of the calls, if every call takes the next number. -/
theorem posted_exec {Inv : E.State → Prop}
    (hstep : ∀ s a t, Inv s → E.step s a = some t → Inv t ∧ E.posted t = E.posted s + (E.posts a).toList.length ∧
      ∀ x, x ∈ (E.calls t).sync ↔ x ∈ (E.calls s).sync ∨ x = E.posted s ∧ E.posts a = some true)
    (hinit : Inv E.init ∧ E.Posted [] E.init) {s : E.State} {as : List E.Action}
    (h : Transition.exec E.step E.init as = some s) : Inv s ∧ E.Posted as s := by
  refine Transition.exec_history (P := fun as s => Inv s ∧ E.Posted as s) (fun as s a t hs hst => ?_) hinit h
  obtain ⟨hinv, hcount, hsync⟩ := hstep s a t hs.1 hst
  exact ⟨hinv, hs.2.concat hcount hsync⟩

/-- The order of the queue is kept by a run if it is kept by every step. -/
theorem inQueueOrder_exec {Inv : E.State → Prop} (hstep : ∀ s a t, Inv s → E.step s a = some t → Inv t)
    (horder : ∀ s a t, Inv s → E.step s a = some t → E.InQueueOrder s t) {s t : E.State} {as : List E.Action}
    (hs : Inv s) (h : Transition.exec E.step s as = some t) : E.InQueueOrder s t := by
  induction as generalizing s with
  | nil =>
    obtain rfl := Option.some.inj h
    exact .refl s
  | cons a as ih =>
    obtain ⟨r, hsr, hrt⟩ := Transition.exec_cons.1 h
    exact (horder s a r hs hsr).trans (ih (hstep s a r hs hsr) hrt)

end TaskExecutor

end AvcTool
