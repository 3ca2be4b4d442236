import AvcTool.Poller.TaskQueue

/-!
# Destroying a poller

`~EventPoller` calls `shutdown`, which hands in a task that throws `Exit`, joins the poller thread and closes the
pipe.  `Exit` ends the loop if the task runs in the batch of `onPipeEvent`, which catches it.  But `async` runs the
task in place wherever `currentThread()` holds, and there `Exit` leaves the destructor.

`PollerLife` puts the queue of `TaskQueue` into the life of a poller: `thread_` is null before `runLoop`, during
`runLoop(true)`, and until `runLoop(false)` has assigned the new thread, and then `currentThread()` holds on every
thread.  The thread in the loop is `Thread.poller` also for `runLoop(true)`.  `runLoop` is called once.

The destructor returns exactly when the poller has its own thread and another thread drops the last reference
(`destructor_returns_iff`): then the task waits in the queue until the poller comes to it (`ExitPosted`), and the
loop ends after that batch.
-/

namespace AvcTool

inductive LoopMode where
  | notStarted
  /-- a thread has called `runLoop(true)` -/
  | blocked
  /-- `runLoop(false)` has made the thread, but not assigned `thread_` -/
  | starting
  | ownThread
  deriving DecidableEq

inductive DestructorPc where
  | alive
  /-- the thread has posted this task and goes on to `join` -/
  | posted (t : Thread) (exitTask : Nat)
  | returned
  /-- an exception has left the destructor -/
  | terminated
  deriving DecidableEq

def DestructorPc.exitTask : DestructorPc → Option Nat
  | .posted _ x => some x
  | _ => none

def PollerPc.task : PollerPc → Option Nat
  | .running x _ => some x
  | _ => none

structure PollerLife where
  queue : TaskQueue
  mode : LoopMode
  destructor : DestructorPc

inductive LifeAction where
  | runLoop (blocked : Bool)
  | assignThread
  | queue (a : QueueAction)
  | destroy (t : Thread)
  | join
  deriving DecidableEq

namespace PollerLife

def init : PollerLife := ⟨.init, .notStarted, .alive⟩

/-- `currentThread()` as evaluated on the thread `t`. -/
def currentThread (s : PollerLife) (t : Thread) : Bool := if s.mode = .ownThread then t = .poller else true

/-- What the task of `shutdown` does. -/
def exitOutcome (s : PollerLife) : TaskOutcome := if s.queue.exit then .returns else .throwsExit

/-- The actions on the queue that can occur at this point of the life of the poller.  `Exit` is private, so only the
task of `shutdown` throws it, and nobody has the handle of this task; once the destructor has begun, only callbacks
still use the poller. -/
def Allows (s : PollerLife) : QueueAction → Prop
  | .async t _ _ => (s.destructor = .alive ∨ t = .poller) ∧ (t = .poller → s.mode ≠ .notStarted)
  | .writePipe _ => True
  | .cancel task => s.destructor.exitTask ≠ some task
  | .finish o =>
    s.mode ≠ .notStarted ∧
      if s.queue.pc.task = s.destructor.exitTask then o = s.exitOutcome else o ≠ .throwsExit
  | _ => s.mode ≠ .notStarted

instance decidableAllows (s : PollerLife) : ∀ a, Decidable (s.Allows a)
  | .async _ _ _ => inferInstanceAs (Decidable ((_ ∨ _) ∧ (_ → _)))
  | .writePipe _ => isTrue trivial
  | .cancel _ => inferInstanceAs (Decidable (_ ≠ _))
  | .finish _ => inferInstanceAs (Decidable (_ ∧ ite _ _ _))
  | .sleep => inferInstanceAs (Decidable (s.mode ≠ .notStarted))
  | .wake _ => inferInstanceAs (Decidable (s.mode ≠ .notStarted))
  | .onPipeEvent => inferInstanceAs (Decidable (s.mode ≠ .notStarted))
  | .read => inferInstanceAs (Decidable (s.mode ≠ .notStarted))
  | .swap => inferInstanceAs (Decidable (s.mode ≠ .notStarted))
  | .next => inferInstanceAs (Decidable (s.mode ≠ .notStarted))
  | .testExit => inferInstanceAs (Decidable (s.mode ≠ .notStarted))

/-- An action on the queue; `async` decides with `currentThread()` of this poller whether to call the task. -/
def queueStep (s : PollerLife) : QueueAction → Option TaskQueue
  | .async t front maySync =>
    if maySync && s.currentThread t then
      if t ∈ s.queue.unwritten ∨ t = .poller ∧ s.queue.pc.callsOut = false then none
      else some { s.queue with inlined := s.queue.inlined ++ [s.queue.nextTask], nextTask := s.queue.nextTask + 1 }
    else s.queue.step (.async t front false)
  | a => s.queue.step a

/-- `shutdown` on the thread `t` up to `join`: the task is called at once or posted. -/
def shutdown (s : PollerLife) (t : Thread) : PollerLife :=
  if s.currentThread t then
    -- with a thread of its own the poller would go on to join itself, which throws as well
    if s.exitOutcome = .throwsExit ∨ s.mode = .ownThread then { s with destructor := .terminated }
    else { s with destructor := .returned }
  else
    { s with
      queue := { s.queue.insertTask false with unwritten := insert t s.queue.unwritten }
      destructor := .posted t s.queue.nextTask }

/-- The destructor has begun or the poller is in use. -/
def Exists (s : PollerLife) : Prop := s.destructor ≠ .returned ∧ s.destructor ≠ .terminated

instance decidableExists (s : PollerLife) : Decidable s.Exists := inferInstanceAs (Decidable (_ ∧ _))

def step (s : PollerLife) : LifeAction → Option PollerLife
  | .runLoop blocked =>
    if s.destructor = .alive ∧ s.mode = .notStarted then
      some { s with mode := if blocked then .blocked else .starting }
    else none
  | .assignThread => if s.destructor = .alive ∧ s.mode = .starting then some { s with mode := .ownThread } else none
  | .queue a => if s.Exists ∧ s.Allows a then (s.queueStep a).map fun q => { s with queue := q } else none
  | .destroy t =>
    -- the thread has finished its own calls, and the poller thread drops references in callbacks only
    if s.destructor = .alive ∧ t ∉ s.queue.unwritten ∧
        (t = .poller → s.mode ≠ .notStarted ∧ s.queue.pc.callsOut = true) then
      some (s.shutdown t)
    else none
  | .join =>
    match s.destructor with
    | .posted t _ =>
      if t ∉ s.queue.unwritten ∧ s.queue.pc = .stopped then
        some { s with mode := .notStarted, destructor := .returned }
      else none
    | _ => none

end PollerLife

/-- The steps that work towards the end of the destructor. -/
def LifeAction.completes : LifeAction → Bool
  | .queue a => a.completes
  | .join => true
  | _ => false

/-- No exception leaves the destructor, and whatever happens, it returns when the poller and the producers have done
their remaining steps. -/
structure DestructorReturns (s : PollerLife) : Prop where
  no_exception : ∀ as t, Transition.exec PollerLife.step s as = some t → t.destructor ≠ .terminated
  returns : ∀ as t, Transition.exec PollerLife.step s as = some t →
    ∃ n, ∀ bs u, (∀ b ∈ bs, b.completes = true) → Transition.exec PollerLife.step t bs = some u →
      bs.length ≤ n ∧ ((∀ b, b.completes = true → u.step b = none) → u.destructor = .returned)

/-! ### The posted task -/

/-- The places of the loop from which it ends, once `exit_` is set. -/
def PollerPc.ending : PollerPc → Bool
  | .batch _ => true
  | .running _ _ => true
  | .dispatching false => true
  | .stopped => true
  | _ => false

/-- The task `x` of the destructor is in the queue and will end the loop. -/
structure ExitPosted (x : Nat) (q : TaskQueue) : Prop where
  lt : x < q.nextTask
  inlined : x ∉ q.inlined
  cancelled : x ∉ q.cancelled
  ran : (x, true) ∈ q.handled → q.exit = true ∨ q.pc.task = some x
  ending : q.exit = true → q.pc.ending = true

theorem ExitPosted.called {x : Nat} {q : TaskQueue} (h : ExitPosted x q) :
    ExitPosted x { q with inlined := q.inlined ++ [q.nextTask], nextTask := q.nextTask + 1 } where
  lt := Nat.lt_succ_of_lt h.lt
  inlined := by
    intro hmem
    rcases List.mem_append.1 hmem with hmem | hmem
    · exact h.inlined hmem
    · exact absurd (List.mem_singleton.1 hmem) (Nat.ne_of_lt h.lt)
  cancelled := h.cancelled
  ran := h.ran
  ending := h.ending

/-- The poller goes from one place to another that does not lead away from the end of the loop. -/
theorem ExitPosted.move {x : Nat} {q : TaskQueue} (h : ExitPosted x q) {pc : PollerPc} (htask : q.pc.task = none)
    (hending : q.pc.ending = true → pc.ending = true) (pipe : Nat) (tasks : List Nat) (batches : List (List Nat)) :
    ExitPosted x { q with pc := pc, pipe := pipe, tasks := tasks, batches := batches } where
  lt := h.lt
  inlined := h.inlined
  cancelled := h.cancelled
  ran := fun hran => .inl ((h.ran hran).resolve_right (by rw [htask]; nofun))
  ending := fun hexit => hending (h.ending hexit)

theorem ExitPosted.step {x : Nat} {q r : TaskQueue} {a : QueueAction} (h : ExitPosted x q)
    (hstep : q.step a = some r) (hcancel : a ≠ .cancel x)
    (hfinish : ∀ o, a = .finish o → q.pc.task = some x → q.exit = true ∨ o = .throwsExit) : ExitPosted x r := by
  cases step_move hstep with
  | called t front hcur => exact h.called
  | inserted t front maySync =>
    cases front <;> exact ⟨Nat.lt_succ_of_lt h.lt, h.inlined, h.cancelled, h.ran, h.ending⟩
  | written t => exact ⟨h.lt, h.inlined, h.cancelled, h.ran, h.ending⟩
  | cancelled task =>
    refine ⟨h.lt, h.inlined, ?_, h.ran, h.ending⟩
    intro hmem
    rcases Finset.mem_insert.1 hmem with rfl | hmem
    · exact hcancel rfl
    · exact h.cancelled hmem
  | slept hpc => exact h.move (by rw [hpc]; rfl) (by simp [hpc, PollerPc.ending]) _ _ _
  | woken pipeEvent hpc => exact h.move (by rw [hpc]; rfl) (by simp [hpc, PollerPc.ending]) _ _ _
  | pipeEvent hpc => exact h.move (by rw [hpc]; rfl) (by simp [hpc, PollerPc.ending]) _ _ _
  | drained hpc => exact h.move (by rw [hpc]; rfl) (by simp [hpc, PollerPc.ending]) _ _ _
  | read hpc => exact ⟨h.lt, h.inlined, h.cancelled, h.ran, h.ending⟩
  | nothing hpc => exact h.move (by rw [hpc]; rfl) (fun _ => rfl) _ _ _
  | swapped hpc => exact h.move (by rw [hpc]; rfl) (fun _ => rfl) _ _ _
  | batchDone hpc => exact h.move (by rw [hpc]; rfl) (fun _ => rfl) _ _ _
  | skipped y rest hpc hcan =>
    refine ⟨h.lt, h.inlined, h.cancelled, fun hran => .inl ?_, fun _ => rfl⟩
    have hran' : (x, true) ∈ q.handled := by simpa using hran
    exact (h.ran hran').resolve_right (by simp [hpc, PollerPc.task])
  | started y rest hpc hcan =>
    refine ⟨h.lt, h.inlined, h.cancelled, fun hran => ?_, fun _ => rfl⟩
    rcases List.mem_append.1 hran with hran | hran
    · exact .inl ((h.ran hran).resolve_right (by simp [hpc, PollerPc.task]))
    · obtain ⟨rfl, -⟩ := Prod.mk.inj (List.mem_singleton.1 hran)
      exact .inr rfl
  | finished o y rest hpc hun =>
    refine ⟨h.lt, h.inlined, h.cancelled, fun hran => .inl ?_, fun _ => rfl⟩
    show (q.exit || decide (o = .throwsExit)) = true
    rw [Bool.or_eq_true, decide_eq_true_eq]
    rcases h.ran hran with hexit | htask
    · exact .inl hexit
    · exact hfinish o rfl htask
  | exited hpc hun hexit => exact h.move (by rw [hpc]; rfl) (fun _ => rfl) _ _ _
  | looped hpc hun =>
    have hexit : q.exit = false := by
      by_contra hne
      have hstopped : q.step .testExit = some { q with pc := .stopped } := by
        rw [TaskQueue.step, if_pos ⟨hpc, hun⟩, if_pos (by simpa using hne)]
      rw [hstopped] at hstep
      exact PollerPc.noConfusion (congrArg TaskQueue.pc (Option.some.inj hstep))
    refine ⟨h.lt, h.inlined, h.cancelled, fun hran => .inl ?_, fun htrue => ?_⟩
    · exact (h.ran hran).resolve_right (by simp [hpc, PollerPc.task])
    · exact Bool.noConfusion (hexit.symm.trans htrue)

/-! ### The life of a poller -/

theorem QueueInv.called {q : TaskQueue} (h : QueueInv q) :
    QueueInv { q with inlined := q.inlined ++ [q.nextTask], nextTask := q.nextTask + 1 } :=
  ⟨h.bookkeeping.called, ⟨h.wakePending.wake, h.wakePending.poller_calls, h.wakePending.pipe_event⟩, h.stopped⟩

/-- An action on the queue of a poller calls a task in place or is a step of the queue. -/
theorem queueStep_cases {s : PollerLife} {a : QueueAction} {q : TaskQueue} (h : s.queueStep a = some q) :
    q = { s.queue with inlined := s.queue.inlined ++ [s.queue.nextTask], nextTask := s.queue.nextTask + 1 } ∨
      (∃ t front, s.queue.step (.async t front false) = some q) ∨
      s.queue.step a = some q ∧ ∀ t front maySync, a ≠ .async t front maySync := by
  cases a with
  | async t front maySync =>
    rw [PollerLife.queueStep] at h
    split at h
    · split at h
      · cases h
      · exact .inl (Option.some.inj h).symm
    · exact .inr (.inl ⟨t, front, h⟩)
  | _ => exact .inr (.inr ⟨h, by nofun⟩)

/-- Only tasks that have been handed in are cancelled. -/
def CancelledLt (q : TaskQueue) : Prop := ∀ x ∈ q.cancelled, x < q.nextTask

theorem CancelledLt.step {q r : TaskQueue} {a : QueueAction} (h : CancelledLt q) (hstep : q.step a = some r) :
    CancelledLt r := by
  have hsucc : ∀ x ∈ q.cancelled, x < q.nextTask + 1 := fun x hx => Nat.lt_succ_of_lt (h x hx)
  cases step_move hstep with
  | called => exact hsucc
  | inserted t front => cases front <;> exact hsucc
  | cancelled task =>
    obtain ⟨⟨hlt, -⟩, -⟩ := Option.ite_none_right_eq_some.1 hstep
    intro x hx
    rcases Finset.mem_insert.1 hx with rfl | hx
    · exact hlt
    · exact h x hx
  | _ => exact h

structure LifeInv (s : PollerLife) : Prop where
  queue : QueueInv s.queue
  cancelled : CancelledLt s.queue
  alive : s.destructor = .alive → s.queue.exit = false
  posted : ∀ t x, s.destructor = .posted t x → s.mode = .ownThread ∧ ExitPosted x s.queue

theorem LifeInv.init : LifeInv .init where
  queue := QueueInv.init
  cancelled := nofun
  alive := fun _ => rfl
  posted := nofun

private theorem exit_queueStep {s : PollerLife} {a : QueueAction} {q : TaskQueue} (h : s.queueStep a = some q)
    (hallows : s.Allows a) (halive : s.destructor = .alive) : q.exit = s.queue.exit := by
  rcases queueStep_cases h with rfl | ⟨t, front, h⟩ | ⟨h, -⟩
  · rfl
  · cases step_move h with
    | inserted => cases front <;> rfl
  · cases step_move h with
    | finished o x rest hpc =>
      have htask : s.queue.pc.task ≠ s.destructor.exitTask := by rw [hpc, halive]; nofun
      have hexit : o ≠ .throwsExit := by simpa [htask] using hallows.2
      simp [hexit]
    | inserted t front => cases front <;> rfl
    | _ => rfl

theorem LifeInv.queueStep {s : PollerLife} (h : LifeInv s) {a : QueueAction} {q : TaskQueue}
    (hallows : s.Allows a) (hstep : s.queueStep a = some q) : LifeInv { s with queue := q } where
  queue := by
    rcases queueStep_cases hstep with rfl | ⟨t, front, hstep⟩ | ⟨hstep, -⟩
    · exact h.queue.called
    · exact step_queueInv _ _ _ h.queue hstep
    · exact step_queueInv _ _ _ h.queue hstep
  cancelled := by
    rcases queueStep_cases hstep with rfl | ⟨t, front, hstep⟩ | ⟨hstep, -⟩
    · exact fun x hx => Nat.lt_succ_of_lt (h.cancelled x hx)
    · exact h.cancelled.step hstep
    · exact h.cancelled.step hstep
  alive := fun halive => (exit_queueStep hstep hallows halive).trans (h.alive halive)
  posted := by
    intro t x hposted
    obtain ⟨hmode, hx⟩ := h.posted t x hposted
    refine ⟨hmode, ?_⟩
    rcases queueStep_cases hstep with rfl | ⟨t', front, hstep⟩ | ⟨hstep, -⟩
    · exact hx.called
    · exact hx.step hstep (by nofun) (by nofun)
    · refine hx.step hstep ?_ ?_
      · rintro rfl
        exact hallows (by rw [show s.destructor = .posted t x from hposted]; rfl)
      · rintro o rfl htask
        have hexit : s.queue.pc.task = s.destructor.exitTask := by
          rw [htask, show s.destructor = .posted t x from hposted]
          rfl
        have ho : o = s.exitOutcome := by simpa [hexit] using hallows.2
        rw [ho]
        unfold PollerLife.exitOutcome
        cases s.queue.exit <;> simp

private theorem LifeInv.fresh_exitPosted {s : PollerLife} (h : LifeInv s) (halive : s.destructor = .alive) :
    ExitPosted s.queue.nextTask (s.queue.insertTask false) where
  lt := Nat.lt_succ_self _
  inlined := fun hmem => Nat.lt_irrefl _
    (h.queue.bookkeeping.lt_nextTask (List.mem_append_left _ (List.mem_append_left _ hmem)))
  cancelled := fun hmem => Nat.lt_irrefl _ (h.cancelled _ hmem)
  ran := by
    intro hran
    have htaken : s.queue.nextTask ∈ s.queue.batches.flatten := by
      rw [← h.queue.bookkeeping.run_in_order]
      exact List.mem_append_left _ (List.mem_map_of_mem hran)
    exact absurd (h.queue.bookkeeping.lt_nextTask (List.mem_append_left _ (List.mem_append_right _ htaken)))
      (Nat.lt_irrefl _)
  ending := fun hexit => absurd ((h.alive halive).symm.trans hexit) (by nofun)

theorem LifeInv.shutdown {s : PollerLife} (h : LifeInv s) {t : Thread} (halive : s.destructor = .alive)
    (hcalls : t = .poller → s.queue.pc.callsOut = true) : LifeInv (s.shutdown t) := by
  unfold PollerLife.shutdown
  split
  · split <;> exact ⟨h.queue, h.cancelled, nofun, nofun⟩
  · rename_i hcur
    have hmode : s.mode = .ownThread := by
      by_contra hne
      exact hcur (by simp [PollerLife.currentThread, hne])
    refine ⟨⟨(h.queue.bookkeeping.inserted false).move rfl _ _ _, h.queue.wakePending.inserted false hcalls,
      h.queue.stopped⟩, fun x hx => Nat.lt_succ_of_lt (h.cancelled x hx), nofun, ?_⟩
    rintro _ _ ⟨⟩
    have hx := h.fresh_exitPosted halive
    exact ⟨hmode, hx.lt, hx.inlined, hx.cancelled, hx.ran, hx.ending⟩

theorem step_lifeInv (s : PollerLife) (a : LifeAction) (r : PollerLife) (h : LifeInv s) (hstep : s.step a = some r) :
    LifeInv r := by
  cases a with
  | runLoop blocked =>
    obtain ⟨⟨halive, -⟩, ⟨⟩⟩ := Option.ite_none_right_eq_some.1 hstep
    exact ⟨h.queue, h.cancelled, h.alive, fun t x hposted => absurd (halive.symm.trans hposted) (by nofun)⟩
  | assignThread =>
    obtain ⟨⟨halive, -⟩, ⟨⟩⟩ := Option.ite_none_right_eq_some.1 hstep
    exact ⟨h.queue, h.cancelled, h.alive, fun t x hposted => absurd (halive.symm.trans hposted) (by nofun)⟩
  | queue a =>
    obtain ⟨⟨-, hallows⟩, hstep⟩ := Option.ite_none_right_eq_some.1 hstep
    obtain ⟨q, hq, rfl⟩ := Option.map_eq_some_iff.1 hstep
    exact h.queueStep hallows hq
  | destroy t =>
    obtain ⟨⟨halive, -, hpoller⟩, ⟨⟩⟩ := Option.ite_none_right_eq_some.1 hstep
    exact h.shutdown halive fun ht => (hpoller ht).2
  | join =>
    rw [PollerLife.step] at hstep
    split at hstep
    · obtain ⟨-, ⟨⟩⟩ := Option.ite_none_right_eq_some.1 hstep
      exact ⟨h.queue, h.cancelled, nofun, nofun⟩
    · cases hstep

/-! ### Returning -/

/-- The destructor waits for the poller thread or has returned. -/
structure Returning (s : PollerLife) : Prop where
  life : LifeInv s
  place : (∃ t x, s.destructor = .posted t x) ∨ s.destructor = .returned

private theorem step_returning (s : PollerLife) (a : LifeAction) (r : PollerLife) (h : Returning s)
    (hstep : s.step a = some r) : Returning r := by
  refine ⟨step_lifeInv s a r h.life hstep, ?_⟩
  have halive : s.destructor ≠ .alive := by
    rcases h.place with ⟨t, x, hd⟩ | hd <;> rw [hd] <;> nofun
  cases a with
  | runLoop blocked => exact absurd (Option.ite_none_right_eq_some.1 hstep).1.1 halive
  | assignThread => exact absurd (Option.ite_none_right_eq_some.1 hstep).1.1 halive
  | queue a =>
    obtain ⟨-, hstep⟩ := Option.ite_none_right_eq_some.1 hstep
    obtain ⟨q, -, rfl⟩ := Option.map_eq_some_iff.1 hstep
    exact h.place
  | destroy t => exact absurd (Option.ite_none_right_eq_some.1 hstep).1.1 halive
  | join =>
    rw [PollerLife.step] at hstep
    split at hstep
    · obtain ⟨-, ⟨⟩⟩ := Option.ite_none_right_eq_some.1 hstep
      exact .inr rfl
    · cases hstep

def PollerLife.effort (s : PollerLife) : Nat :=
  s.queue.effort + match s.destructor with
    | .posted _ _ => 1
    | _ => 0

private theorem step_lifeEffort (s : PollerLife) (a : LifeAction) (r : PollerLife) (h : Returning s)
    (ha : a.completes = true) (hstep : s.step a = some r) : r.effort < s.effort := by
  cases a with
  | runLoop blocked => cases ha
  | assignThread => cases ha
  | destroy t => cases ha
  | queue a =>
    obtain ⟨-, hstep⟩ := Option.ite_none_right_eq_some.1 hstep
    obtain ⟨q, hq, rfl⟩ := Option.map_eq_some_iff.1 hstep
    have hq' : s.queue.step a = some q := by
      cases a with
      | async t front maySync => cases ha
      | _ => exact hq
    have hlt := step_effort h.life.queue.wakePending ha hq'
    exact Nat.add_lt_add_right hlt _
  | join =>
    rw [PollerLife.step] at hstep
    split at hstep
    · rename_i hd
      obtain ⟨-, ⟨⟩⟩ := Option.ite_none_right_eq_some.1 hstep
      simp [PollerLife.effort, hd]
    · cases hstep

private theorem queue_stuck {s : PollerLife} {t : Thread} {x : Nat} (hmode : s.mode = .ownThread)
    (hd : s.destructor = .posted t x) (hstuck : ∀ b, b.completes = true → s.step b = none) {a : QueueAction}
    (ha : a.completes = true) : s.queue.step a = none := by
  have hexists : s.Exists := by simp [PollerLife.Exists, hd]
  have hloop : s.mode ≠ .notStarted := by rw [hmode]; nofun
  have hqueue : ∀ b, b.completes = true → s.Allows b → s.queueStep b = none := by
    intro b hb hallows
    have hnone := hstuck (.queue b) hb
    rw [PollerLife.step, if_pos ⟨hexists, hallows⟩, Option.map_eq_none_iff] at hnone
    exact hnone
  cases a with
  | async t front maySync => cases ha
  | cancel task => cases ha
  | finish o =>
    -- the task that runs can only end in one of the ways that are allowed, but some way there is
    have hsome : ∃ o', s.Allows (.finish o') := by
      by_cases htask : s.queue.pc.task = s.destructor.exitTask
      · exact ⟨s.exitOutcome, hloop, by rw [if_pos htask]⟩
      · exact ⟨.returns, hloop, by rw [if_neg htask]; nofun⟩
    obtain ⟨o', ho'⟩ := hsome
    have hnone : s.queue.finishTask o' = none := hqueue (.finish o') rfl ho'
    show s.queue.finishTask o = none
    unfold TaskQueue.finishTask at hnone ⊢
    split at hnone
    · split at hnone
      · rename_i hun
        rw [if_pos hun]
      · cases hnone
    · rfl
  | writePipe t => exact hqueue _ ha trivial
  | _ => exact hqueue _ ha hloop

/-- When nothing is left to do, the destructor has returned. -/
theorem Returning.returned {s : PollerLife} (h : Returning s)
    (hstuck : ∀ b, b.completes = true → s.step b = none) : s.destructor = .returned := by
  rcases h.place with ⟨t, x, hd⟩ | hd
  · exfalso
    obtain ⟨hmode, hx⟩ := h.life.posted t x hd
    have hqueue : ∀ a, a.completes = true → s.queue.step a = none := fun a ha => queue_stuck hmode hd hstuck ha
    have hun : t ∉ s.queue.unwritten := by
      intro hmem
      simpa [TaskQueue.step, hmem] using hqueue (.writePipe t) rfl
    rcases rest_of_stuck hqueue with hpc | ⟨hpc, hpipe, hempty⟩
    · simpa [PollerLife.step, hd, hun, hpc] using hstuck .join rfl
    · -- a blocked poller has come to the task, but then `exit_` is set and it does not block
      obtain ⟨-, hall⟩ := allHandled_of_rest h.life.queue.bookkeeping h.life.queue.wakePending hpc hpipe hempty
      have hmem : x ∈ s.queue.inlined ++ s.queue.handled.map Prod.fst := hall.mem_iff.2 (List.mem_range.2 hx.lt)
      obtain ⟨⟨y, ran⟩, hran, rfl⟩ := List.mem_map.1 ((List.mem_append.1 hmem).resolve_left hx.inlined)
      cases ran with
      | false => exact hx.cancelled (h.life.queue.bookkeeping.skipped _ hran)
      | true =>
        have hexit : s.queue.exit = true := (hx.ran hran).resolve_right (by simp [hpc, PollerPc.task])
        have hending := hx.ending hexit
        rw [hpc] at hending
        cases hending
  · exact hd

private theorem Returning.destructorReturns {s : PollerLife} (h : Returning s) : DestructorReturns s where
  no_exception := by
    intro as t hrun hterminated
    have ht : Returning t := Transition.exec_invariant step_returning h hrun
    rcases ht.place with ⟨_, _, hd⟩ | hd <;> rw [hd] at hterminated <;> cases hterminated
  returns := by
    intro as t hrun
    have ht : Returning t := Transition.exec_invariant step_returning h hrun
    refine ⟨t.effort, fun bs u hbs hu => ⟨?_, fun hstuck => ?_⟩⟩
    · have hle := Transition.exec_measure step_returning step_lifeEffort ht hbs hu
      omega
    · exact (Transition.exec_invariant step_returning ht hu).returned hstuck

/-- In every state that a poller can reach, the destructor returns if and only if the poller has its own thread and
another thread drops the last reference. -/
theorem destructor_returns_iff {as : List LifeAction} {s : PollerLife}
    (hrun : Transition.exec PollerLife.step .init as = some s) {t : Thread} {r : PollerLife}
    (hdestroy : s.step (.destroy t) = some r) : DestructorReturns r ↔ s.mode = .ownThread ∧ t ≠ .poller := by
  have hlife : LifeInv s := Transition.exec_invariant step_lifeInv .init hrun
  have hr : LifeInv r := step_lifeInv s _ r hlife hdestroy
  obtain ⟨⟨halive, -, -⟩, ⟨⟩⟩ := Option.ite_none_right_eq_some.1 hdestroy
  have hexit : s.exitOutcome = .throwsExit := by simp [PollerLife.exitOutcome, hlife.alive halive]
  constructor
  · intro hreturns
    by_contra hne
    have hcur : s.currentThread t = true := by
      unfold PollerLife.currentThread
      by_cases hmode : s.mode = .ownThread
      · simpa [hmode] using hne
      · rw [if_neg hmode]
    have hterminated : (s.shutdown t).destructor = .terminated := by
      simp [PollerLife.shutdown, hcur, hexit]
    exact hreturns.no_exception [] _ rfl hterminated
  · rintro ⟨hmode, hne⟩
    have hcur : s.currentThread t = false := by simp [PollerLife.currentThread, hmode, hne]
    exact Returning.destructorReturns ⟨hr, .inl ⟨t, s.queue.nextTask, by simp [PollerLife.shutdown, hcur]⟩⟩

def ownThreadLife : List LifeAction :=
  [.runLoop false, .assignThread, .queue (.async (.producer 1) false true), .queue (.writePipe (.producer 1))]

theorem destructor_returns_iff_ownThreadLife :
    ∃ s r, Transition.exec PollerLife.step .init ownThreadLife = some s ∧ s.step (.destroy (.producer 0)) = some r ∧
      (DestructorReturns r ↔ s.mode = .ownThread ∧ Thread.producer 0 ≠ .poller) :=
  ⟨_, _, rfl, rfl, @destructor_returns_iff ownThreadLife _ rfl (.producer 0) _ rfl⟩

/-- A poller that was never started, and one whose last reference is dropped in a callback on its own thread. -/
theorem destructor_throws :
    (∃ r, PollerLife.init.step (.destroy (.producer 0)) = some r ∧ ¬ DestructorReturns r) ∧
      ∃ s r, Transition.exec PollerLife.step .init [.runLoop false, .assignThread] = some s ∧
        s.step (.destroy .poller) = some r ∧ ¬ DestructorReturns r := by
  constructor
  · exact ⟨_, rfl, fun h => h.no_exception [] _ rfl rfl⟩
  · exact ⟨_, _, rfl, rfl, fun h => h.no_exception [] _ rfl rfl⟩

end AvcTool
