import AvcTool.Lib.Transition
import AvcTool.Poller.DelayTask
import AvcTool.Poller.EventTable

/-!
# Which thread touches the state of a poller

`event_records_` and `delay_tasks_` have no lock: every public operation asks `currentThread()` and either acts at
once or posts a task.  Asking and acting are separate steps here, since another thread may start or enter the loop
in between.  `currentThread()` compares with `thread_`, and holds on every thread as long as `thread_` is null; this
is so before `runLoop`, in `runLoop(true)` for ever, and in `runLoop(false)` until the new thread has been assigned
to `thread_`.

`Confined` says of a step that the state is touched by the thread that executes the loop.  It holds along every run
in which other threads call only when `thread_` is set, and in which no call from before the loop is still under way
when the loop is entered (`CallsInTurn`).
-/

namespace AvcTool

abbrev ThreadId := Nat

/-- What a public operation does to the poller, at once or as a task. -/
inductive PollerOp where
  | reg (task : RegTask Nat)
  | addDelay (deadline : UInt64) (delayTask : Nat)
  | task (id : Nat)
  deriving DecidableEq

inductive LoopPhase where
  | notStarted
  /-- `runLoop(false)` has made this thread -/
  | spawned (T : ThreadId)
  | running (T : ThreadId)
  | ended
  deriving DecidableEq

structure PollerThreads where
  /-- the thread that `runLoop(false)` has made -/
  own : Option ThreadId
  /-- the id of `thread_`, to which `own` is assigned after the thread has been made -/
  thread : Option ThreadId
  phase : LoopPhase
  /-- the calls that have found `currentThread()` true and have yet to act -/
  pending : AList fun _ : ThreadId => PollerOp
  tasks : List PollerOp
  table : EventTable Nat
  delayTasks : Multimap UInt64 Nat
  executed : List Nat

def PollerThreads.init : PollerThreads :=
  { own := none, thread := none, phase := .notStarted, pending := ∅, tasks := [], table := .empty, delayTasks := .empty,
    executed := [] }

inductive ThreadAction where
  | runLoopBlocked (t : ThreadId)
  | spawn (T : ThreadId)
  | assignThread
  | enterLoop
  | leaveLoop
  | attachEvent (t : ThreadId) (fd : FD) (events : Nat) (cb : Nat)
  | modifyEvent (t : ThreadId) (fd : FD) (events : Nat)
  | detachEvent (t : ThreadId) (fd : FD)
  | addDelayTask (t : ThreadId) (deadline : UInt64) (delayTask : Nat)
  | async (t : ThreadId) (front maySync : Bool) (id : Nat)
  | act (t : ThreadId) (ok : Bool)
  | runTask (ok : Bool)
  | scheduleDelayTask (left : Multimap UInt64 Nat)

/-- `currentThread()` as evaluated on the thread `t`. -/
def PollerThreads.currentThread (s : PollerThreads) (t : ThreadId) : Bool :=
  match s.thread with
  | some T => T == t
  | none => true

/-- The effect of an operation on the unlocked state. -/
def PollerOp.perform (ok : Bool) (s : PollerThreads) : PollerOp → PollerThreads
  | .reg r => { s with table := (r.run ok s.table).1 }
  | .addDelay deadline delayTask => { s with delayTasks := s.delayTasks.emplace deadline delayTask }
  | .task id => { s with executed := s.executed ++ [id] }

/-- A public operation decides whether to act at once.  If not it ends in `async`, whose own test of
`currentThread()` has the same outcome, since `thread_` does not change once it is set. -/
def PollerThreads.request (s : PollerThreads) (t : ThreadId) (maySync front : Bool) (op : PollerOp) :
    Option PollerThreads :=
  if t ∈ s.pending then none
  else if maySync && s.currentThread t then some { s with pending := s.pending.insert t op }
  else some { s with tasks := if front then op :: s.tasks else s.tasks ++ [op] }

/-- The thread that executes the loop. -/
def LoopPhase.loopThread : LoopPhase → Option ThreadId
  | .running T => some T
  | _ => none

def PollerThreads.step (s : PollerThreads) : ThreadAction → Option PollerThreads
  | .runLoopBlocked t =>
    -- `thread_` is not set in this mode
    if s.phase = .notStarted ∧ t ∉ s.pending then some { s with phase := .running t } else none
  | .spawn T =>
    if s.phase = .notStarted ∧ T ∉ s.pending then some { s with phase := .spawned T, own := some T } else none
  -- the new thread may be in the loop before `thread_` holds it
  | .assignThread => if s.own.isSome ∧ s.thread = none then some { s with thread := s.own } else none
  | .enterLoop =>
    match s.phase with
    | .spawned T => some { s with phase := .running T }
    | _ => none
  | .leaveLoop =>
    match s.phase with
    | .running _ => some { s with phase := .ended }
    | _ => none
  | .attachEvent t fd events cb =>
    if fd < 0 then some s else s.request t true false (.reg (.attach fd ⟨events, cb⟩))
  | .modifyEvent t fd events => s.request t true false (.reg (.modify fd events))
  | .detachEvent t fd => s.request t true false (.reg (.detach fd))
  | .addDelayTask t deadline delayTask => s.request t true true (.addDelay deadline delayTask)
  | .async t front maySync id => s.request t maySync front (.task id)
  | .act t ok => (s.pending.lookup t).map fun op => op.perform ok { s with pending := s.pending.erase t }
  | .runTask ok =>
    match s.phase, s.tasks with
    | .running T, op :: tasks => if T ∈ s.pending then none else some (op.perform ok { s with tasks := tasks })
    | _, _ => none
  | .scheduleDelayTask left =>
    match s.phase with
    | .running T => if T ∈ s.pending then none else some { s with delayTasks := left }
    | _ => none

/-- The thread whose step touches the unlocked state or executes a task. -/
def ThreadAction.performer (s : PollerThreads) : ThreadAction → Option ThreadId
  | .act t _ => some t
  | .runTask _ => s.phase.loopThread
  | .scheduleDelayTask _ => s.phase.loopThread
  | _ => none

/-- While a thread executes the loop, it is the one that touches the unlocked state. -/
def Confined (s : PollerThreads) (a : ThreadAction) : Prop :=
  ∀ T ∈ s.phase.loopThread, ∀ t ∈ a.performer s, t = T

/-- The thread that makes a public call. -/
def ThreadAction.caller : ThreadAction → Option ThreadId
  | .attachEvent t _ _ _ => some t
  | .modifyEvent t _ _ => some t
  | .detachEvent t _ => some t
  | .addDelayTask t _ _ => some t
  | .async t _ _ _ => some t
  | _ => none

/-- The thread that starts to execute the loop. -/
def ThreadAction.entrant (s : PollerThreads) : ThreadAction → Option ThreadId
  | .runLoopBlocked t => some t
  | .enterLoop => match s.phase with
    | .spawned T => some T
    | _ => none
  | _ => none

/-- A call while the loop is executed comes from the thread that executes it or finds `thread_` set, and the loop is
entered when no other thread is between its test of `currentThread()` and its action. -/
def CallsInTurn (s : PollerThreads) (a : ThreadAction) : Prop :=
  (∀ T ∈ s.phase.loopThread, ∀ t ∈ a.caller, t = T ∨ s.thread.isSome = true) ∧
    ∀ T ∈ a.entrant s, ∀ t ∈ s.pending.keys, t = T

instance (s : PollerThreads) (a : ThreadAction) : Decidable (Confined s a) := by
  unfold Confined; infer_instance

instance (s : PollerThreads) (a : ThreadAction) : Decidable (CallsInTurn s a) := by
  unfold CallsInTurn; infer_instance

/-! ### The invariant -/

/-- `thread_` is the thread that executes the loop, and no other thread is about to act. -/
structure LoopOwnsState (s : PollerThreads) : Prop where
  thread_own : ∀ T, s.thread = some T → s.own = some T
  spawned_own : ∀ T, s.phase = .spawned T → s.own = some T
  running_own : ∀ T, s.phase = .running T → s.own = none ∨ s.own = some T
  idle : s.phase = .notStarted → s.own = none
  pending_loop : ∀ T, s.phase = .running T → ∀ t ∈ s.pending, t = T

theorem LoopOwnsState.init : LoopOwnsState .init := ⟨nofun, nofun, nofun, fun _ => rfl, nofun⟩

/-- Once `thread_` is set, `currentThread()` holds on the thread of the loop only. -/
private theorem LoopOwnsState.currentThread_eq {s : PollerThreads} (h : LoopOwnsState s) {T t : ThreadId}
    (hphase : s.phase = .running T) (hset : s.thread.isSome = true) (hcur : s.currentThread t = true) : t = T := by
  obtain ⟨T', hT'⟩ := Option.isSome_iff_exists.1 hset
  have hown := h.thread_own T' hT'
  have htt : T' = t := by simpa [PollerThreads.currentThread, hT'] using hcur
  rcases h.running_own T hphase with hno | hyes
  · rw [hown] at hno; cases hno
  · rw [hown] at hyes
    rw [← htt]
    exact Option.some.inj hyes

private theorem perform_frame (ok : Bool) (s : PollerThreads) (op : PollerOp) :
    (op.perform ok s).own = s.own ∧ (op.perform ok s).thread = s.thread ∧ (op.perform ok s).phase = s.phase ∧
      (op.perform ok s).pending = s.pending := by
  cases op <;> exact ⟨rfl, rfl, rfl, rfl⟩

private theorem LoopOwnsState.perform {s : PollerThreads} (h : LoopOwnsState s) (ok : Bool) (op : PollerOp) :
    LoopOwnsState (op.perform ok s) := by
  obtain ⟨hown, hthread, hphase, hpending⟩ := perform_frame ok s op
  constructor
  · rw [hthread, hown]; exact h.thread_own
  · rw [hphase, hown]; exact h.spawned_own
  · rw [hphase, hown]; exact h.running_own
  · rw [hphase, hown]; exact h.idle
  · rw [hphase, hpending]; exact h.pending_loop

private theorem LoopOwnsState.request {s t : PollerThreads} (h : LoopOwnsState s) {c : ThreadId} {maySync front : Bool}
    {op : PollerOp} (hcaller : ∀ T, s.phase = .running T → c = T ∨ s.thread.isSome = true)
    (hreq : s.request c maySync front op = some t) : LoopOwnsState t := by
  unfold PollerThreads.request at hreq
  split at hreq
  · cases hreq
  · split at hreq <;> obtain rfl := Option.some.inj hreq
    · rename_i hdirect
      refine { h with pending_loop := ?_ }
      intro T hphase c' hc'
      rcases (AList.mem_insert s.pending).1 hc' with rfl | hc'
      · rcases hcaller T hphase with hc | hset
        · exact hc
        · exact h.currentThread_eq hphase hset (Bool.and_eq_true_iff.1 hdirect).2
      · exact h.pending_loop T hphase c' hc'
    · exact { h with }

private theorem step_loopOwnsState (s : PollerThreads) (a : ThreadAction) (t : PollerThreads) (h : LoopOwnsState s)
    (hok : CallsInTurn s a) (hstep : s.step a = some t) : LoopOwnsState t := by
  have hcaller : ∀ c, a.caller = some c → ∀ T, s.phase = .running T → c = T ∨ s.thread.isSome = true :=
    fun c hc T hT => hok.1 T (by rw [hT]; rfl) c hc
  cases a with
  | runLoopBlocked c =>
    simp only [PollerThreads.step, Option.ite_none_right_eq_some, Option.some.injEq] at hstep
    obtain ⟨⟨hphase, -⟩, rfl⟩ := hstep
    refine ⟨h.thread_own, nofun, fun _ _ => .inl (h.idle hphase), nofun, ?_⟩
    rintro T ⟨⟩ c' hc'
    exact hok.2 c rfl c' hc'
  | spawn T =>
    simp only [PollerThreads.step, Option.ite_none_right_eq_some, Option.some.injEq] at hstep
    obtain ⟨⟨hphase, -⟩, rfl⟩ := hstep
    -- an idle poller has no thread of its own
    have hnone : ∀ T', s.thread ≠ some T' := fun T' hT' => by
      have := h.thread_own T' hT'
      rw [h.idle hphase] at this
      cases this
    refine ⟨fun T' hT' => absurd hT' (hnone T'), ?_, nofun, nofun, nofun⟩
    rintro T' ⟨⟩
    rfl
  | assignThread =>
    simp only [PollerThreads.step, Option.ite_none_right_eq_some, Option.some.injEq] at hstep
    obtain ⟨-, rfl⟩ := hstep
    exact { h with thread_own := fun T hT => hT }
  | enterLoop =>
    simp only [PollerThreads.step] at hstep
    split at hstep
    · rename_i T hphase
      obtain rfl := Option.some.inj hstep
      refine ⟨h.thread_own, nofun, ?_, nofun, ?_⟩
      · rintro T' ⟨⟩
        exact .inr (h.spawned_own T hphase)
      · rintro T' ⟨⟩ c hc
        exact hok.2 T (by simp [ThreadAction.entrant, hphase]) c hc
    · cases hstep
  | leaveLoop =>
    simp only [PollerThreads.step] at hstep
    split at hstep
    · obtain rfl := Option.some.inj hstep
      exact ⟨h.thread_own, nofun, nofun, nofun, nofun⟩
    · cases hstep
  | attachEvent c fd events cb =>
    simp only [PollerThreads.step] at hstep
    split at hstep
    · obtain rfl := Option.some.inj hstep
      exact h
    · exact h.request (hcaller c rfl) hstep
  | modifyEvent c fd events => exact h.request (hcaller c rfl) hstep
  | detachEvent c fd => exact h.request (hcaller c rfl) hstep
  | addDelayTask c deadline delayTask => exact h.request (hcaller c rfl) hstep
  | async c front maySync id => exact h.request (hcaller c rfl) hstep
  | act c ok =>
    simp only [PollerThreads.step, Option.map_eq_some_iff] at hstep
    obtain ⟨op, -, rfl⟩ := hstep
    have herase : LoopOwnsState { s with pending := s.pending.erase c } :=
      { h with pending_loop := fun T hphase c' hc' => h.pending_loop T hphase c' (AList.mem_erase.1 hc').2 }
    exact herase.perform ok op
  | runTask ok =>
    simp only [PollerThreads.step] at hstep
    split at hstep
    · rename_i T op tasks hphase hcons
      simp only [Option.ite_none_left_eq_some, Option.some.injEq] at hstep
      obtain ⟨-, rfl⟩ := hstep
      have htasks : LoopOwnsState { s with tasks := tasks } := { h with }
      exact htasks.perform ok op
    · cases hstep
  | scheduleDelayTask left =>
    simp only [PollerThreads.step] at hstep
    split at hstep
    · simp only [Option.ite_none_left_eq_some, Option.some.injEq] at hstep
      obtain ⟨-, rfl⟩ := hstep
      exact { h with }
    · cases hstep

/-- With the invariant a step that touches the state is made by the thread that executes the loop. -/
private theorem LoopOwnsState.confined {s t : PollerThreads} (h : LoopOwnsState s) {a : ThreadAction}
    (hstep : s.step a = some t) : Confined s a := by
  intro T hT c hc
  have hphase : s.phase = .running T := by
    cases hp : s.phase <;> simp_all [LoopPhase.loopThread]
  cases a with
  | act c' ok =>
    obtain rfl : c' = c := Option.some.inj hc
    simp only [PollerThreads.step, Option.map_eq_some_iff] at hstep
    obtain ⟨op, hop, -⟩ := hstep
    exact h.pending_loop T hphase c' (AList.lookup_isSome.1 (by rw [hop]; rfl))
  | runTask ok => exact Option.some.inj (hc.symm.trans hT)
  | scheduleDelayTask left => exact Option.some.inj (hc.symm.trans hT)
  | _ => cases hc

/-! ### Runs -/

/-- In a run whose calls come in turn, the state is touched by the thread that executes the loop. -/
theorem poller_state_confined {as : List ThreadAction} {s : PollerThreads}
    (hrun : Transition.exec PollerThreads.step .init as = some s)
    (hok : Transition.Along PollerThreads.step CallsInTurn .init as) :
    Transition.Along PollerThreads.step Confined .init as :=
  Transition.along_of_invariant step_loopOwnsState (fun _ _ _ h _ => h.confined) .init hok hrun

/-- The poller runs in the thread 7; another thread registers a descriptor after `runLoop` has returned. -/
def ownThreadRun : List ThreadAction :=
  [.spawn 7, .enterLoop, .assignThread, .attachEvent 1 5 kEventRead 0, .runTask true, .scheduleDelayTask .empty]

theorem poller_state_confined_own_thread : Transition.Along PollerThreads.step Confined .init ownThreadRun :=
  @poller_state_confined ownThreadRun _ rfl (by decide)

/-- The loop runs on the thread 0 that called `runLoop(true)`; the registration by the thread 1 is not queued. -/
def blockedRun : List ThreadAction :=
  [.runLoopBlocked 0, .attachEvent 1 5 kEventRead 0, .act 1 true]

theorem poller_state_shared_when_blocked :
    (∃ s, Transition.exec PollerThreads.step .init blockedRun = some s) ∧
      ¬ Transition.Along PollerThreads.step Confined .init blockedRun :=
  ⟨⟨_, rfl⟩, by decide⟩

end AvcTool
