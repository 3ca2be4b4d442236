import AvcTool.Poller.TaskQueue
import AvcTool.Thread.PoolQueue
import AvcTool.Thread.TaskExecutor

/-!
# Tasks that throw exceptions

The two implementations of `TaskExecutorInterface`.  `EventPoller::onPipeEvent` calls each task of its batch in a `try`
block of its own, so that the loop over the batch goes on whatever the tasks do.  `ThreadPool::run` has no `try` block:
an exception leaves the thread function, and this ends the process, with all tasks that are still in the list and all
callers that wait.

The tasks are posted by other threads, none of them is cancelled, and none throws the exception `Exit`, which is
private to the poller.
-/

namespace AvcTool

/-! ### The poller -/

structure PollerExecutor where
  queue : TaskQueue
  calls : SyncCalls

namespace PollerExecutor

inductive Action where
  /-- a thread calls `async`, `async_first`, `sync` or `sync_first` -/
  | async (n : Nat) (front isSync : Bool)
  | writePipe (n : Nat)
  | sleep
  | wake (pipeEvent : Bool)
  | onPipeEvent
  | read
  | swap
  | next
  | finish (throws : Bool)
  | testExit
  deriving DecidableEq

/-- The step of the task queue. -/
def Action.queue : Action → QueueAction
  | .async n front _ => .async (.producer n) front true
  | .writePipe n => .writePipe (.producer n)
  | .sleep => .sleep
  | .wake pipeEvent => .wake pipeEvent
  | .onPipeEvent => .onPipeEvent
  | .read => .read
  | .swap => .swap
  | .next => .next
  | .finish throws => .finish (if throws then .throwsOther else .returns)
  | .testExit => .testExit

def Action.throws : Action → Bool
  | .finish throws => throws
  | _ => false

def Action.posts : Action → Option Bool
  | .async _ _ isSync => some isSync
  | _ => none

def init : PollerExecutor := ⟨.init, .init⟩

/-- The task that the poller is to look at next, if it is going to run it. -/
def starts (q : TaskQueue) : Option Nat :=
  match q.pc with
  | .batch (x :: _) => if x ∈ q.cancelled then none else some x
  | _ => none

/-- The task that the poller is running. -/
def current (q : TaskQueue) : Option Nat :=
  match q.pc with
  | .running x _ => some x
  | _ => none

def callsAfter (s : PollerExecutor) : Action → SyncCalls
  | .async _ _ isSync => s.calls.post s.queue.nextTask isSync
  | .next => (starts s.queue).elim s.calls s.calls.begin_
  | .finish throws => (current s.queue).elim s.calls fun x => s.calls.end_ x throws
  | _ => s.calls

def step (s : PollerExecutor) (a : Action) : Option PollerExecutor :=
  (s.queue.step a.queue).map fun q => ⟨q, s.callsAfter a⟩

def executor : TaskExecutor where
  State := PollerExecutor
  Action := Action
  init := init
  step := step
  posted s := s.queue.nextTask
  queue s := s.queue.pc.rest ++ s.queue.tasks
  taken s := s.queue.handled.map Prod.fst
  calls := PollerExecutor.calls
  terminated _ := false
  posts := Action.posts
  isOwn a := a.queue.completes
  throws := Action.throws
  catches := true

end PollerExecutor

/-! ### The thread pool -/

structure PoolExecutor where
  run : PoolRun
  terminated : Bool
  calls : SyncCalls

namespace PoolExecutor

inductive Action where
  | async (front isSync : Bool)
  | post
  | started (i : Nat)
  | testExit (i : Nat)
  | wait (i : Nat)
  | take (i : Nat)
  | test (i : Nat)
  | lock (i : Nat)
  | call (i : Nat)
  | finish (i : Nat) (throws : Bool)
  deriving DecidableEq

/-- The step of the pool. -/
def Action.pool : Action → PoolAction
  | .async front _ => .async .outside front true true
  | .post => .post
  | .started i => .started i
  | .testExit i => .testExit i
  | .wait i => .wait i
  | .take i => .take i
  | .test i => .test i
  | .lock i => .lock i
  | .call i => .call i
  | .finish i _ => .finish i

def Action.throws : Action → Bool
  | .finish _ throws => throws
  | _ => false

def Action.posts : Action → Option Bool
  | .async _ isSync => some isSync
  | _ => none

def init (capacity : Nat) : PoolExecutor := ⟨.init capacity, false, .init⟩

/-- The task whose function the worker is about to enter. -/
def starts (p : ThreadPool) (i : Nat) : Option Nat :=
  match p.workers i with
  | .locked h => some h
  | _ => none

def callsAfter (s : PoolExecutor) : Action → SyncCalls
  | .async _ isSync => s.calls.post s.run.pool.handles.next isSync
  | .call i => (starts s.run.pool i).elim s.calls s.calls.begin_
  | .finish i throws => (s.run.pool.workers i).strongTask.elim s.calls fun x => s.calls.end_ x throws
  | _ => s.calls

/-- Nothing catches an exception, so that `std::terminate` is called before the stack is unwound. -/
def step (s : PoolExecutor) (a : Action) : Option PoolExecutor :=
  if s.terminated then none
  else if a.throws then (s.run.step a.pool).map fun _ => { s with terminated := true }
  else (s.run.step a.pool).map fun r => ⟨r, false, s.callsAfter a⟩

def executor (capacity : Nat) : TaskExecutor where
  State := PoolExecutor
  Action := Action
  init := init capacity
  step := step
  posted s := s.run.pool.handles.next
  queue s := s.run.pool.pedding
  taken s := s.run.tasks
  calls := PoolExecutor.calls
  terminated := PoolExecutor.terminated
  posts := Action.posts
  isOwn a := a.pool.isOwn
  throws := Action.throws
  catches := false

end PoolExecutor

inductive Implementation where
  | eventPoller
  | threadPool (capacity : Nat) (hcapacity : 0 < capacity)

def Implementation.executor : Implementation → TaskExecutor
  | .eventPoller => PollerExecutor.executor
  | .threadPool capacity _ => PoolExecutor.executor capacity

/-! ### Runs of the poller -/

namespace PollerExecutor

/-- What is recorded of the calls agrees with the queue. -/
structure Sound (s : PollerExecutor) : Prop where
  queue : QueueInv s.queue
  cancelled : s.queue.cancelled = ∅
  inlined : s.queue.inlined = []
  exit : s.queue.exit = false
  unwritten : .poller ∉ s.queue.unwritten
  began : ∀ x, s.calls.events.count (.began x) = (s.queue.handled.map Prod.fst).count x
  completed : s.calls.completed ++ (current s.queue).toList = s.queue.handled.map Prod.fst
  calls : s.calls.Sound

theorem sound_init : Sound init :=
  ⟨.init, rfl, rfl, rfl, Finset.notMem_empty _, fun _ => rfl, rfl, SyncCalls.sound_init⟩

private theorem Sound.handled_nodup {s : PollerExecutor} (hs : Sound s) : (s.queue.handled.map Prod.fst).Nodup := by
  have hbook := hs.queue.bookkeeping
  have hall : (s.queue.inlined ++ s.queue.batches.flatten ++ s.queue.tasks).Nodup :=
    hbook.taken_once.nodup_iff.2 List.nodup_range
  have hflatten : s.queue.batches.flatten.Nodup := (List.nodup_append.1 (List.nodup_append.1 hall).1).2.1
  rw [← hbook.run_in_order] at hflatten
  exact (List.nodup_append.1 hflatten).1

theorem Sound.lt_nextTask {s : PollerExecutor} (hs : Sound s) {x : Nat} (hx : x ∈ s.calls.completed) :
    x < s.queue.nextTask := by
  have hbook := hs.queue.bookkeeping
  have hhandled : x ∈ s.queue.handled.map Prod.fst := by
    rw [← hs.completed]
    exact List.mem_append_left _ hx
  apply hbook.lt_nextTask
  rw [← hbook.run_in_order]
  exact List.mem_append_left _ (List.mem_append_right _ (List.mem_append_left _ hhandled))

private theorem Sound.stay {s : PollerExecutor} (hs : Sound s) {q : TaskQueue} (hq : QueueInv q)
    (hcancelled : q.cancelled = s.queue.cancelled) (hinlined : q.inlined = s.queue.inlined)
    (hexit : q.exit = s.queue.exit) (hunwritten : .poller ∉ q.unwritten) (hhandled : q.handled = s.queue.handled)
    (hcurrent : current q = current s.queue) : Sound ⟨q, s.calls⟩ := by
  refine ⟨hq, hcancelled.trans hs.cancelled, hinlined.trans hs.inlined, hexit.trans hs.exit, hunwritten, ?_, ?_,
    hs.calls⟩
  · intro x
    change _ = (q.handled.map Prod.fst).count x
    rw [hhandled]
    exact hs.began x
  · change s.calls.completed ++ (current q).toList = q.handled.map Prod.fst
    rw [hhandled, hcurrent]
    exact hs.completed

theorem Sound.post {s : PollerExecutor} (hs : Sound s) {x : Nat} (hx : x ∉ s.calls.completed) (isSync : Bool) :
    Sound ⟨s.queue, s.calls.post x isSync⟩ := by
  refine ⟨hs.queue, hs.cancelled, hs.inlined, hs.exit, hs.unwritten, ?_, ?_, hs.calls.post hx isSync⟩
  · simp only [SyncCalls.events_post]
    exact hs.began
  · simp only [SyncCalls.completed_post]
    exact hs.completed

/-- The function of a task is called. -/
theorem Sound.started {s : PollerExecutor} (hs : Sound s) {x : Nat} {q : TaskQueue} (hq : QueueInv q)
    (hidle : current s.queue = none) (hcurrent : current q = some x) (hcancelled : q.cancelled = s.queue.cancelled)
    (hinlined : q.inlined = s.queue.inlined) (hexit : q.exit = s.queue.exit)
    (hunwritten : q.unwritten = s.queue.unwritten) (hhandled : q.handled = s.queue.handled ++ [(x, true)]) :
    Sound ⟨q, s.calls.begin_ x⟩ := by
  have hcompleted := hs.completed
  rw [hidle, Option.toList_none, List.append_nil] at hcompleted
  have hfirst : q.handled.map Prod.fst = s.queue.handled.map Prod.fst ++ [x] := by
    rw [hhandled, List.map_append]
    rfl
  refine ⟨hq, hcancelled.trans hs.cancelled, hinlined.trans hs.inlined, hexit.trans hs.exit, hunwritten ▸ hs.unwritten,
    fun y => ?_, ?_, hs.calls.begin_ x⟩
  · have hcount := hs.began y
    simp only [hfirst, List.count_append, SyncCalls.count_began_begin]
    omega
  · simp only [SyncCalls.completed_begin, hfirst, hcompleted, hcurrent]
    rfl

/-- The function of a task returns, or what it throws is caught. -/
theorem Sound.finished {s : PollerExecutor} (hs : Sound s) {x : Nat} {q : TaskQueue} (hq : QueueInv q)
    (hrunning : current s.queue = some x) (hcurrent : current q = none) (hcancelled : q.cancelled = s.queue.cancelled)
    (hinlined : q.inlined = s.queue.inlined) (hexit : q.exit = false) (hunwritten : q.unwritten = s.queue.unwritten)
    (hhandled : q.handled = s.queue.handled) (throws : Bool) : Sound ⟨q, s.calls.end_ x throws⟩ := by
  have hcompleted := hs.completed
  rw [hrunning, Option.toList_some] at hcompleted
  have hnew : x ∉ s.calls.completed := by
    have hnodup := hs.handled_nodup
    rw [← hcompleted] at hnodup
    exact fun hmem => (List.nodup_append.1 hnodup).2.2 x hmem x List.mem_cons_self rfl
  refine ⟨hq, hcancelled.trans hs.cancelled, hinlined.trans hs.inlined, hexit, hunwritten ▸ hs.unwritten,
    fun y => ?_, ?_, hs.calls.end_ hnew throws⟩
  · simp only [SyncCalls.count_began_end, hhandled]
    exact hs.began y
  · simp only [SyncCalls.completed_end, hcurrent, hhandled, ← hcompleted]
    exact List.append_nil _

theorem sound_step {s t : PollerExecutor} {a : Action} (hs : Sound s) (h : s.step a = some t) : Sound t := by
  obtain ⟨q, hq, rfl⟩ := Option.map_eq_some_iff.1 h
  have hinv := step_queueInv _ _ _ hs.queue hq
  have hun := hs.unwritten
  have hmove := step_move hq
  cases a with
  | async n front isSync =>
    have hnew : s.queue.nextTask ∉ s.calls.completed := fun hmem => absurd (hs.lt_nextTask hmem) (Nat.lt_irrefl _)
    cases hmove with
    | called t front hcur => cases hcur
    | inserted t front maySync =>
      have hposted : (.poller : Thread) ∉ insert (.producer n) s.queue.unwritten := by
        rw [Finset.mem_insert]
        rintro (heq | hmem)
        · cases heq
        · exact hun hmem
      have hinserted := hs.stay hinv (by cases front <;> rfl) (by cases front <;> rfl) (by cases front <;> rfl) hposted
        (by cases front <;> rfl) (by cases front <;> rfl)
      exact hinserted.post hnew isSync
  | writePipe n =>
    cases hmove with
    | written t => exact hs.stay hinv rfl rfl rfl (fun hmem => hun (Finset.mem_of_mem_erase hmem)) rfl rfl
  | sleep =>
    cases hmove with
    | slept hpc => exact hs.stay hinv rfl rfl rfl hun rfl (by simp [current, hpc])
  | wake pipeEvent =>
    cases hmove with
    | woken _ hpc => exact hs.stay hinv rfl rfl rfl hun rfl (by simp [current, hpc])
  | onPipeEvent =>
    cases hmove with
    | pipeEvent hpc => exact hs.stay hinv rfl rfl rfl hun rfl (by simp [current, hpc])
  | read =>
    cases hmove with
    | drained hpc => exact hs.stay hinv rfl rfl rfl hun rfl (by simp [current, hpc])
    | read hpc => exact hs.stay hinv rfl rfl rfl hun rfl rfl
  | swap =>
    cases hmove with
    | nothing hpc => exact hs.stay hinv rfl rfl rfl hun rfl (by simp [current, hpc])
    | swapped hpc => exact hs.stay hinv rfl rfl rfl hun rfl (by simp [current, hpc])
  | next =>
    cases hmove with
    | batchDone hpc =>
      have hnone : starts s.queue = none := by simp [starts, hpc]
      simp only [callsAfter, hnone, Option.elim_none]
      exact hs.stay hinv rfl rfl rfl hun rfl (by simp [current, hpc])
    | skipped x rest hpc hcan =>
      rw [hs.cancelled] at hcan
      exact absurd hcan (Finset.notMem_empty x)
    | started x rest hpc hcan =>
      have hstarts : starts s.queue = some x := by simp [starts, hpc, hcan]
      have hidle : current s.queue = none := by simp [current, hpc]
      simp only [callsAfter, hstarts, Option.elim_some]
      exact hs.started hinv hidle rfl rfl rfl rfl rfl rfl
  | finish throws =>
    cases hmove with
    | finished o x rest hpc =>
      have hrunning : current s.queue = some x := by simp [current, hpc]
      -- a task of the user does not throw the private `Exit`
      have hexit : (s.queue.exit || decide ((if throws then TaskOutcome.throwsOther else .returns) = .throwsExit)) =
          false := by
        rw [hs.exit]
        cases throws <;> rfl
      simp only [callsAfter, hrunning, Option.elim_some]
      exact hs.finished hinv hrunning rfl rfl rfl hexit rfl rfl throws
  | testExit =>
    cases hmove with
    | exited hpc hun' hexit =>
      rw [hs.exit] at hexit
      cases hexit
    | looped hpc => exact hs.stay hinv rfl rfl rfl hun rfl (by simp [current, hpc])

/-- The poller takes the first task of its batch, and the batch is the list as it was. -/
private theorem move_inQueueOrder {q r : TaskQueue} {a : QueueAction} (h : QueueMove q a r) :
    ∃ new, r.handled.map Prod.fst = q.handled.map Prod.fst ++ new ∧
      (q.pc.rest ++ q.tasks).Sublist (new ++ (r.pc.rest ++ r.tasks)) := by
  have hstay : ∀ {r : TaskQueue}, r.handled = q.handled → r.pc.rest ++ r.tasks = q.pc.rest ++ q.tasks →
      ∃ new, r.handled.map Prod.fst = q.handled.map Prod.fst ++ new ∧
        (q.pc.rest ++ q.tasks).Sublist (new ++ (r.pc.rest ++ r.tasks)) := by
    intro r hhandled hqueue
    refine ⟨[], ?_, ?_⟩
    · rw [hhandled, List.append_nil]
    · rw [List.nil_append, hqueue]
  cases h with
  | called t front => exact hstay rfl rfl
  | inserted t front maySync =>
    refine ⟨[], by cases front <;> exact (List.append_nil _).symm, ?_⟩
    rw [List.nil_append]
    refine List.Sublist.append (by cases front <;> exact List.Sublist.refl _) ?_
    cases front with
    | true => exact List.sublist_cons_self _ _
    | false => exact List.sublist_append_left _ _
  | written t => exact hstay rfl rfl
  | cancelled task => exact hstay rfl rfl
  | slept hpc => exact hstay rfl (by simp [hpc, PollerPc.rest])
  | woken pipeEvent hpc => exact hstay rfl (by simp [hpc, PollerPc.rest])
  | pipeEvent hpc => exact hstay rfl (by simp [hpc, PollerPc.rest])
  | drained hpc => exact hstay rfl (by simp [hpc, PollerPc.rest])
  | read hpc => exact hstay rfl rfl
  | nothing hpc => exact hstay rfl (by simp [hpc, PollerPc.rest])
  | swapped hpc => exact hstay rfl (by simp [hpc, PollerPc.rest])
  | batchDone hpc => exact hstay rfl (by simp [hpc, PollerPc.rest])
  | skipped x rest hpc =>
    refine ⟨[x], by simp, ?_⟩
    rw [hpc]
    exact List.Sublist.refl _
  | started x rest hpc =>
    refine ⟨[x], by simp, ?_⟩
    rw [hpc]
    exact List.Sublist.refl _
  | finished o x rest hpc => exact hstay rfl (by simp [hpc, PollerPc.rest])
  | exited hpc => exact hstay rfl (by simp [hpc, PollerPc.rest])
  | looped hpc => exact hstay rfl (by simp [hpc, PollerPc.rest])

private theorem exec_queue {s t : PollerExecutor} {as : List Action} (h : Transition.exec step s as = some t) :
    Transition.exec TaskQueue.step s.queue (as.map Action.queue) = some t.queue := by
  induction as generalizing s with
  | nil =>
    obtain rfl := Option.some.inj h
    rfl
  | cons a as ih =>
    obtain ⟨r, hsr, hrt⟩ := Transition.exec_cons.1 h
    obtain ⟨q, hq, rfl⟩ := Option.map_eq_some_iff.1 hsr
    exact Transition.exec_cons.2 ⟨q, hq, ih hrt⟩

/-- The poller that cannot go on waits for an event, and has no task in the list. -/
theorem Sound.at_rest {s : PollerExecutor} (hs : Sound s)
    (hstuck : ∀ a : Action, a.queue.completes = true → s.step a = none) :
    s.queue.pc = .waiting ∧ AllHandled s.queue := by
  have hnone : ∀ a : Action, a.queue.completes = true → s.queue.step a.queue = none :=
    fun a ha => Option.map_eq_none_iff.1 (hstuck a ha)
  have hqueue : ∀ a : QueueAction, a.completes = true → s.queue.step a = none := by
    intro a ha
    cases a with
    | async t front maySync => cases ha
    | cancel task => cases ha
    | writePipe t =>
      cases t with
      | poller => simp [TaskQueue.step, hs.unwritten]
      | producer n => exact hnone (.writePipe n) rfl
    | sleep => exact hnone .sleep rfl
    | wake pipeEvent => exact hnone (.wake pipeEvent) ha
    | onPipeEvent => exact hnone .onPipeEvent rfl
    | read => exact hnone .read rfl
    | swap => exact hnone .swap rfl
    | next => exact hnone .next rfl
    | testExit => exact hnone .testExit rfl
    | finish o =>
      have hreturns : s.queue.finishTask .returns = none := hnone (.finish false) rfl
      change s.queue.finishTask o = none
      unfold TaskQueue.finishTask at hreturns ⊢
      split
      · rename_i x rest hpc
        simp [hpc, hs.unwritten] at hreturns
      · rfl
  rcases rest_of_stuck hqueue with hpc | ⟨hpc, hpipe, hun⟩
  · have hexit := hs.queue.stopped hpc
    rw [hs.exit] at hexit
    cases hexit
  · exact ⟨hpc, allHandled_of_rest hs.queue.bookkeeping hs.queue.wakePending hpc hpipe hun⟩

private theorem Sound.all_run {s : PollerExecutor} (hs : Sound s)
    (hstuck : ∀ a : Action, a.queue.completes = true → s.step a = none) {x : Nat} (hx : x < s.queue.nextTask) :
    .began x ∈ s.calls.events ∧ x ∈ s.calls.completed ∧ (x ∈ s.calls.sync → .released x ∈ s.calls.events) := by
  obtain ⟨hpc, -, hall⟩ := hs.at_rest hstuck
  have hcompleted := hs.completed
  have hidle : current s.queue = none := by simp [current, hpc]
  rw [hidle, Option.toList_none, List.append_nil] at hcompleted
  have hhandled : x ∈ s.queue.handled.map Prod.fst := by
    rw [hs.inlined, List.nil_append] at hall
    exact hall.mem_iff.2 (List.mem_range.2 hx)
  have hended : x ∈ s.calls.completed := hcompleted ▸ hhandled
  have hbegan : 0 < s.calls.events.count (.began x) := by
    rw [hs.began]
    exact List.count_pos_iff.2 hhandled
  exact ⟨List.count_pos_iff.1 hbegan, hended, fun hsync => (hs.calls.released_iff x).2 ⟨hsync, hended⟩⟩

theorem Sound.length_le {s t : PollerExecutor} (hs : Sound s) {as : List Action}
    (hown : ∀ a ∈ as, a.queue.completes = true) (h : Transition.exec step s as = some t) :
    as.length ≤ s.queue.effort := by
  have hcompletes : ∀ a ∈ as.map Action.queue, a.completes = true := by
    intro a ha
    obtain ⟨b, hb, rfl⟩ := List.mem_map.1 ha
    exact hown b hb
  have hle := exec_effort hs.queue hcompletes (exec_queue h)
  rw [List.length_map] at hle
  omega

private theorem Sound.survives {s : PollerExecutor} (hs : Sound s) : executor.Survives s := by
  have hstep : ∀ (s : PollerExecutor) (a : Action) (t : PollerExecutor), Sound s → s.step a = some t → Sound t :=
    fun _ _ _ hs h => sound_step hs h
  have horder : ∀ (s : PollerExecutor) (a : Action) (t : PollerExecutor), Sound s → s.step a = some t →
      executor.InQueueOrder s t := by
    intro s a t _ hst
    obtain ⟨q, hq, rfl⟩ := Option.map_eq_some_iff.1 hst
    exact move_inQueueOrder (step_move hq)
  refine ⟨rfl, fun as t hrun => TaskExecutor.inQueueOrder_exec hstep horder hs hrun, fun x => ?_, hs.calls,
    s.queue.effort, fun as t hown hrun => ⟨hs.length_le (fun a ha => (hown a ha).1) hrun, fun hstuck x hx => ?_⟩⟩
  · change s.calls.events.count (.began x) ≤ 1
    rw [hs.began]
    exact List.nodup_iff_count_le_one.1 hs.handled_nodup x
  · have ht : Sound t := Transition.exec_invariant hstep hs hrun
    exact ht.all_run hstuck hx

end PollerExecutor

/-! ### Runs of the thread pool -/

namespace PoolExecutor

/-- What is recorded of the calls agrees with the pool. -/
structure Sound (s : PoolExecutor) : Prop where
  working : s.run.Working
  cancelled : s.run.pool.handles.cancelled = ∅
  empty : s.run.pool.handles.empty = ∅
  began : ∀ x, s.calls.events.count (.began x) = s.run.pool.log.count (.started x)
  completed_iff : ∀ x, x ∈ s.calls.completed ↔ .started x ∈ s.run.pool.log ∧ ∀ i, s.run.pool.workers i ≠ .running x
  calls : s.calls.Sound

theorem sound_init (capacity : Nat) : Sound (init capacity) := by
  refine ⟨PoolRun.working_init capacity, rfl, rfl, fun _ => rfl, fun x => ?_, SyncCalls.sound_init⟩
  exact ⟨nofun, fun h => nomatch h.1⟩

theorem Sound.lt_next {s : PoolExecutor} (hs : Sound s) {x : Nat} (hx : x ∈ s.calls.completed) :
    x < s.run.pool.handles.next :=
  hs.working.accounted.tasks_lt (hs.working.accounted.started_popped x ((hs.completed_iff x).1 hx).1)

private theorem Sound.stay {s : PoolExecutor} (hs : Sound s) {r : PoolRun} (hr : r.Working)
    (hcancelled : r.pool.handles.cancelled = ∅) (hempty : r.pool.handles.empty = ∅)
    (hlog : r.pool.log = s.run.pool.log)
    (hrunning : ∀ x i, r.pool.workers i = .running x ↔ s.run.pool.workers i = .running x) :
    Sound ⟨r, false, s.calls⟩ := by
  refine ⟨hr, hcancelled, hempty, fun x => ?_, fun x => ?_, hs.calls⟩
  · change _ = r.pool.log.count _
    rw [hlog]
    exact hs.began x
  · change _ ↔ .started x ∈ r.pool.log ∧ ∀ i, ¬ r.pool.workers i = .running x
    simp only [hlog, hrunning]
    exact hs.completed_iff x

theorem Sound.post {s : PoolExecutor} (hs : Sound s) {x : Nat} (hx : x ∉ s.calls.completed) (isSync : Bool) :
    Sound ⟨s.run, s.terminated, s.calls.post x isSync⟩ := by
  refine ⟨hs.working, hs.cancelled, hs.empty, ?_, ?_, hs.calls.post hx isSync⟩
  · simp only [SyncCalls.events_post]
    exact hs.began
  · simp only [SyncCalls.completed_post]
    exact hs.completed_iff

private theorem running_update {workers : Nat → WorkerPc} {i x : Nat} {pc : WorkerPc} (hold : workers i ≠ .running x)
    (hnew : pc ≠ .running x) (j : Nat) : Function.update workers i pc j = .running x ↔ workers j = .running x := by
  by_cases hji : j = i
  · subst hji
    rw [Function.update_self]
    exact iff_of_false hnew hold
  · rw [Function.update_of_ne hji]

private theorem not_running_update {workers : Nat → WorkerPc} {i x : Nat} {pc : WorkerPc}
    (hold : workers i ≠ .running x) (hnew : pc ≠ .running x) :
    (∀ j, Function.update workers i pc j ≠ .running x) ↔ ∀ j, workers j ≠ .running x :=
  forall_congr' fun j => not_congr (running_update hold hnew j)

/-- The pool goes on without starting a task or ending one. -/
theorem Sound.quiet {s : PoolExecutor} (hs : Sound s) {a : PoolAction} {r : PoolRun} (ha : a.isOwn = true)
    (hcall : ∀ i, a ≠ .call i) (hfinish : ∀ i, a ≠ .finish i) (h : s.run.step a = some r) :
    Sound ⟨r, false, s.calls⟩ := by
  have hshutdown : a ≠ .shutdown := by
    rintro rfl
    cases ha
  have hr := PoolRun.working_step hs.working hshutdown h
  obtain ⟨q, hq, rfl⟩ := Option.map_eq_some_iff.1 h
  have hmove := ThreadPool.step_move hs.working.agreement.exit hshutdown hq
  cases hmove with
  | direct th front maySync hasFunction hdirect => cases ha
  | inserted th front maySync hasFunction hdirect pedding hpedding => cases ha
  | posted hpos => exact hs.stay hr hs.cancelled hs.empty rfl fun _ _ => Iff.rfl
  | cancelled x => cases ha
  | went a i pc hown hnot hlt hold hnew hrunning hdropped =>
    refine hs.stay hr hs.cancelled hs.empty rfl fun x => running_update (fun hx => hfinish i (hrunning x hx)) ?_
    rcases hnew with rfl | rfl <;> exact nofun
  | waited i hpc hsem =>
    exact hs.stay hr hs.cancelled hs.empty rfl fun _ => running_update (by rw [hpc]; nofun) nofun
  | took i x pedding hpc hpedding =>
    exact hs.stay hr hs.cancelled hs.empty rfl fun _ => running_update (by rw [hpc]; nofun) nofun
  | tookNothing i hpc hpedding =>
    exact hs.stay hr hs.cancelled hs.empty rfl fun _ => running_update (by rw [hpc]; nofun) nofun
  | tested i x hpc =>
    exact hs.stay hr hs.cancelled hs.empty rfl fun _ => running_update (by rw [hpc]; nofun) nofun
  | locked i x hpc =>
    exact hs.stay hr hs.cancelled hs.empty rfl fun _ => running_update (by rw [hpc]; nofun) nofun
  | began i x hpc => exact absurd rfl (hcall i)

theorem Sound.call {s : PoolExecutor} (hs : Sound s) {i : Nat} {r : PoolRun} (h : s.run.step (.call i) = some r) :
    Sound ⟨r, false, s.callsAfter (.call i)⟩ := by
  have hne : PoolAction.call i ≠ .shutdown := nofun
  have hr := PoolRun.working_step hs.working hne h
  obtain ⟨q, hq, rfl⟩ := Option.map_eq_some_iff.1 h
  simp only [ThreadPool.step] at hq
  split at hq
  · rename_i x hpc
    have hstarts : starts s.run.pool i = some x := by simp [starts, hpc]
    have hnew : .started x ∉ s.run.pool.log := hs.working.accounted.not_started i x (by rw [hpc]; rfl)
    obtain rfl := Option.some.inj hq
    simp only [callsAfter, hstarts, Option.elim_some]
    refine ⟨hr, hs.cancelled, hs.empty, fun y => ?_, fun y => ?_, hs.calls.begin_ x⟩
    · have hcount := hs.began y
      change _ = (s.run.pool.log ++ [TaskEvent.started x]).count (.started y)
      rw [SyncCalls.count_began_begin, List.count_append, hcount]
      congr 1
      by_cases hxy : x = y
      · simp [hxy]
      · simp [hxy]
    · rw [SyncCalls.completed_begin, hs.completed_iff]
      change _ ↔ TaskEvent.started y ∈ s.run.pool.log ++ [.started x] ∧
        ∀ j, Function.update s.run.pool.workers i (.running x) j ≠ .running y
      by_cases hyx : y = x
      · subst hyx
        refine iff_of_false (fun h => hnew h.1) fun h => h.2 i ?_
        rw [Function.update_self]
      · have hrunning : WorkerPc.running x ≠ .running y := fun heq => hyx (WorkerPc.running.inj heq).symm
        rw [not_running_update (by simp [hpc]) hrunning]
        simp [hyx]
  · cases hq

theorem Sound.finish {s : PoolExecutor} (hs : Sound s) {i : Nat} {r : PoolRun}
    (h : s.run.step (.finish i) = some r) : Sound ⟨r, false, s.callsAfter (.finish i false)⟩ := by
  have hne : PoolAction.finish i ≠ .shutdown := nofun
  have hr := PoolRun.working_step hs.working hne h
  obtain ⟨q, hq, rfl⟩ := Option.map_eq_some_iff.1 h
  simp only [ThreadPool.step] at hq
  split at hq
  · rename_i x hpc
    obtain rfl := Option.some.inj hq
    have hnew : x ∉ s.calls.completed := fun hmem => ((hs.completed_iff x).1 hmem).2 i hpc
    have hexecuting : (s.run.pool.workers i).strongTask = some x := by rw [hpc]; rfl
    have hpopped : (i, x) ∈ s.run.popped := hs.working.accounted.job i x (by rw [hpc]; rfl)
    have hstarted : .started x ∈ s.run.pool.log := by
      have hcompleted := hs.working.accounted.settled x (List.mem_map.2 ⟨(i, x), hpopped, rfl⟩)
      rw [hs.cancelled, hs.empty] at hcompleted
      rcases hcompleted with ⟨j, hj⟩ | hcompleted | hcompleted | hcompleted
      · -- no other worker has the task
        obtain rfl := hs.working.held.unique i j x (by rw [hpc]; rfl) (WorkerPc.job_of_pending hj)
        rw [hpc] at hj
        cases hj
      · exact hcompleted
      · exact absurd hcompleted (Finset.notMem_empty x)
      · exact absurd hcompleted (Finset.notMem_empty x)
    simp only [callsAfter, hexecuting, Option.elim_some]
    refine ⟨hr, hs.cancelled, hs.empty, fun y => ?_, fun y => ?_, hs.calls.end_ hnew false⟩
    · rw [SyncCalls.count_began_end]
      exact hs.began y
    · rw [SyncCalls.completed_end, List.mem_append, List.mem_singleton, hs.completed_iff]
      change _ ↔ .started y ∈ s.run.pool.log ∧ ∀ j, Function.update s.run.pool.workers i .looping j ≠ .running y
      by_cases hyx : y = x
      · subst hyx
        refine iff_of_true (.inr rfl) ⟨hstarted, fun j hj => ?_⟩
        by_cases hji : j = i
        · subst hji
          rw [Function.update_self] at hj
          cases hj
        · rw [Function.update_of_ne hji] at hj
          exact hji (hs.working.held.unique j i y (by rw [hj]; rfl) (by rw [hpc]; rfl))
      · have hrunning : s.run.pool.workers i ≠ .running y := by
          rw [hpc]
          exact fun heq => hyx (WorkerPc.running.inj heq).symm
        rw [not_running_update hrunning (by simp), or_iff_left hyx]
  · cases hq

private theorem step_cases {s t : PoolExecutor} {a : Action} (h : s.step a = some t) :
    s.terminated = false ∧ (a.throws = true ∧ t = { s with terminated := true } ∨
      a.throws = false ∧ ∃ r, s.run.step a.pool = some r ∧ t = ⟨r, false, s.callsAfter a⟩) := by
  unfold step at h
  cases hterm : s.terminated with
  | true => simp [hterm] at h
  | false =>
    refine ⟨rfl, ?_⟩
    rw [hterm, if_neg Bool.false_ne_true] at h
    cases hthrows : a.throws with
    | true =>
      rw [hthrows, if_pos rfl] at h
      obtain ⟨r, -, rfl⟩ := Option.map_eq_some_iff.1 h
      exact .inl ⟨rfl, rfl⟩
    | false =>
      rw [hthrows, if_neg Bool.false_ne_true] at h
      obtain ⟨r, hr, rfl⟩ := Option.map_eq_some_iff.1 h
      exact .inr ⟨rfl, r, hr, rfl⟩

theorem Sound.async {s : PoolExecutor} (hs : Sound s) {front isSync : Bool} {r : PoolRun}
    (h : s.run.step (.async .outside front true true) = some r) :
    Sound ⟨r, false, s.callsAfter (.async front isSync)⟩ := by
  have hne : PoolAction.async .outside front true true ≠ .shutdown := nofun
  have hnew : s.run.pool.handles.next ∉ s.calls.completed := fun hmem => Nat.lt_irrefl _ (hs.lt_next hmem)
  have hr := PoolRun.working_step hs.working hne h
  obtain ⟨q, hq, rfl⟩ := Option.map_eq_some_iff.1 h
  have hmove := ThreadPool.step_move hs.working.agreement.exit hne hq
  cases hmove with
  | direct th front maySync hasFunction hdirect =>
    exact (hs.stay hr hs.cancelled hs.empty rfl fun _ _ => Iff.rfl).post hnew isSync
  | inserted th front maySync hasFunction hdirect pedding hpedding =>
    exact (hs.stay hr hs.cancelled hs.empty rfl fun _ _ => Iff.rfl).post hnew isSync
  | went a i pc hown => cases hown

theorem sound_step {s t : PoolExecutor} {a : Action} (hs : Sound s) (h : s.step a = some t) : Sound t := by
  obtain ⟨-, ⟨-, rfl⟩ | ⟨hthrows, r, hr, rfl⟩⟩ := step_cases h
  · exact ⟨hs.working, hs.cancelled, hs.empty, hs.began, hs.completed_iff, hs.calls⟩
  · cases a with
    | async front isSync => exact hs.async hr
    | call i => exact hs.call hr
    | finish i throws =>
      obtain rfl : throws = false := hthrows
      exact hs.finish hr
    | post => exact hs.quiet (a := .post) rfl nofun nofun hr
    | started i => exact hs.quiet (a := .started i) rfl nofun nofun hr
    | testExit i => exact hs.quiet (a := .testExit i) rfl nofun nofun hr
    | wait i => exact hs.quiet (a := .wait i) rfl nofun nofun hr
    | take i => exact hs.quiet (a := .take i) rfl nofun nofun hr
    | test i => exact hs.quiet (a := .test i) rfl nofun nofun hr
    | lock i => exact hs.quiet (a := .lock i) rfl nofun nofun hr

/-- The workers take the first task of the list. -/
private theorem move_inQueueOrder {p q : ThreadPool} {a : PoolAction} (popped : List (Nat × Nat)) (h : p.Move a q) :
    ∃ new, (popped ++ PoolRun.pops p a).map Prod.snd = popped.map Prod.snd ++ new ∧
      p.pedding.Sublist (new ++ q.pedding) := by
  refine ⟨(PoolRun.pops p a).map Prod.snd, List.map_append, ?_⟩
  cases h with
  | inserted th front maySync hasFunction hdirect pedding hpedding =>
    change p.pedding.Sublist pedding
    rw [hpedding]
    cases front with
    | true => exact List.sublist_cons_self _ _
    | false => exact List.sublist_append_left _ _
  | took i x pedding hpc hpedding =>
    rw [PoolRun.pops, hpedding]
    exact List.Sublist.refl _
  | tookNothing i hpc hpedding =>
    rw [hpedding]
    exact List.nil_sublist _
  | direct th front maySync hasFunction hdirect => exact List.sublist_append_right _ _
  | posted hpos => exact List.sublist_append_right _ _
  | cancelled x => exact List.sublist_append_right _ _
  | went a i pc hown hnot hlt hold hnew hrunning hdropped => exact List.sublist_append_right _ _
  | waited i hpc hsem => exact List.sublist_append_right _ _
  | tested i x hpc => exact List.sublist_append_right _ _
  | locked i x hpc => exact List.sublist_append_right _ _
  | began i x hpc => exact List.sublist_append_right _ _

private theorem Action.pool_ne_shutdown (a : Action) : a.pool ≠ .shutdown := by
  cases a <;> exact nofun

private theorem exec_run {s t : PoolExecutor} {as : List Action} (hcaught : ∀ a ∈ as, a.throws = false)
    (hs : s.terminated = false) (h : Transition.exec step s as = some t) :
    Transition.exec PoolRun.step s.run (as.map Action.pool) = some t.run ∧ t.terminated = false := by
  induction as generalizing s with
  | nil =>
    obtain rfl := Option.some.inj h
    exact ⟨rfl, hs⟩
  | cons a as ih =>
    obtain ⟨u, hsu, hut⟩ := Transition.exec_cons.1 h
    obtain ⟨-, ⟨hthrows, -⟩ | ⟨-, r, hr, rfl⟩⟩ := step_cases hsu
    · rw [hcaught a List.mem_cons_self] at hthrows
      cases hthrows
    · obtain ⟨hrun, hterm⟩ := ih (fun b hb => hcaught b (List.mem_cons_of_mem a hb)) rfl hut
      exact ⟨Transition.exec_cons.2 ⟨r, hr, hrun⟩, hterm⟩

private theorem idle_of_stuck {s : PoolExecutor} (hs : s.terminated = false)
    (hstuck : ∀ a : Action, a.pool.isOwn = true → s.step a = none) : s.run.pool.Idle := by
  have hnone : ∀ a : Action, a.pool.isOwn = true → a.throws = false → s.run.pool.step a.pool = none := by
    intro a ha hthrows
    have hstep := hstuck a ha
    rw [step, hs, hthrows, if_neg Bool.false_ne_true, if_neg Bool.false_ne_true] at hstep
    exact Option.map_eq_none_iff.1 (Option.map_eq_none_iff.1 hstep)
  intro a ha
  cases a with
  | async t front maySync hasFunction => cases ha
  | cancel h => cases ha
  | shutdown => cases ha
  | post => exact hnone .post rfl rfl
  | started i => exact hnone (.started i) rfl rfl
  | testExit i => exact hnone (.testExit i) rfl rfl
  | wait i => exact hnone (.wait i) rfl rfl
  | take i => exact hnone (.take i) rfl rfl
  | test i => exact hnone (.test i) rfl rfl
  | lock i => exact hnone (.lock i) rfl rfl
  | call i => exact hnone (.call i) rfl rfl
  | finish i => exact hnone (.finish i false) rfl rfl

private theorem Sound.all_run {s : PoolExecutor} (hs : Sound s) (hterm : s.terminated = false)
    (hcapacity : 0 < s.run.pool.capacity) (hstuck : ∀ a : Action, a.pool.isOwn = true → s.step a = none) {x : Nat}
    (hx : x < s.run.pool.handles.next) :
    .began x ∈ s.calls.events ∧ x ∈ s.calls.completed ∧ (x ∈ s.calls.sync → .released x ∈ s.calls.events) := by
  have hidle := idle_of_stuck hterm hstuck
  have hcompleted := (hs.working.at_rest hcapacity hidle hx).2
  rw [hs.cancelled, hs.empty] at hcompleted
  have hstarted : .started x ∈ s.run.pool.log := by
    rcases hcompleted with hcompleted | hcompleted | hcompleted
    · exact hcompleted
    · exact absurd hcompleted (Finset.notMem_empty x)
    · exact absurd hcompleted (Finset.notMem_empty x)
  have hcompleted : x ∈ s.calls.completed := by
    refine (hs.completed_iff x).2 ⟨hstarted, fun i hi => ?_⟩
    have hlt := hs.working.agreement.lt_capacity (i := i) (by rw [hi]; nofun)
    have hwaiting := ((PoolRun.idle_waiting hs.working.agreement hidle).2 i hlt).1
    rw [hi] at hwaiting
    cases hwaiting
  have hbegan : 0 < s.calls.events.count (.began x) := by
    rw [hs.began]
    exact List.count_pos_iff.2 hstarted
  exact ⟨List.count_pos_iff.1 hbegan, hcompleted, fun hsync => (hs.calls.released_iff x).2 ⟨hsync, hcompleted⟩⟩

theorem Sound.length_le {s t : PoolExecutor} (hs : Sound s) {as : List Action}
    (hown : ∀ a ∈ as, a.pool.isOwn = true)
    (h : Transition.exec PoolRun.step s.run (as.map Action.pool) = some t.run) : as.length ≤ s.run.pool.effort := by
  have hpool : ∀ a ∈ as.map Action.pool, a.isOwn = true := by
    intro a ha
    obtain ⟨b, hb, rfl⟩ := List.mem_map.1 ha
    exact hown b hb
  have hle := hs.working.length_le hpool h
  rwa [List.length_map] at hle

private theorem capacity_move {p q : ThreadPool} {a : PoolAction} (h : p.Move a q) : q.capacity = p.capacity := by
  cases h <;> rfl

private theorem capacity_step {s t : PoolExecutor} {a : Action} (hs : Sound s) (h : s.step a = some t) :
    t.run.pool.capacity = s.run.pool.capacity := by
  obtain ⟨-, ⟨-, rfl⟩ | ⟨-, r, hr, rfl⟩⟩ := step_cases h
  · rfl
  · obtain ⟨q, hq, rfl⟩ := Option.map_eq_some_iff.1 hr
    exact capacity_move (ThreadPool.step_move hs.working.agreement.exit a.pool_ne_shutdown hq)

/-- What holds in the runs of a pool with at least one worker. -/
structure Inv (s : PoolExecutor) : Prop where
  sound : Sound s
  capacity : 0 < s.run.pool.capacity

private theorem inv_step {s t : PoolExecutor} {a : Action} (hs : Inv s) (h : s.step a = some t) : Inv t := by
  refine ⟨sound_step hs.sound h, ?_⟩
  rw [capacity_step hs.sound h]
  exact hs.capacity

private theorem Inv.survives {capacity : Nat} {s : PoolExecutor} (hs : Inv s) (hterm : s.terminated = false) :
    (executor capacity).Survives s := by
  have hstep : ∀ (s : PoolExecutor) (a : Action) (t : PoolExecutor), Inv s → s.step a = some t → Inv t :=
    fun _ _ _ hs h => inv_step hs h
  have horder : ∀ (s : PoolExecutor) (a : Action) (t : PoolExecutor), Inv s → s.step a = some t →
      (executor capacity).InQueueOrder s t := by
    intro s a t hs hst
    obtain ⟨-, ⟨-, rfl⟩ | ⟨-, r, hr, rfl⟩⟩ := step_cases hst
    · exact TaskExecutor.InQueueOrder.refl (E := executor capacity) s
    · obtain ⟨q, hq, rfl⟩ := Option.map_eq_some_iff.1 hr
      exact move_inQueueOrder s.run.popped
        (ThreadPool.step_move hs.sound.working.agreement.exit a.pool_ne_shutdown hq)
  have hthrows : ∀ {a : Action}, (executor capacity).Caught a → a.throws = false :=
    fun ha => ha.resolve_left Bool.false_ne_true
  refine ⟨hterm, fun as t hrun => TaskExecutor.inQueueOrder_exec hstep horder hs hrun, fun x => ?_, hs.sound.calls,
    s.run.pool.effort, fun as t hown hrun => ?_⟩
  · change s.calls.events.count (.began x) ≤ 1
    rw [hs.sound.began]
    exact hs.sound.working.accounted.started_le x
  · obtain ⟨hexec, ht⟩ := exec_run (fun a ha => hthrows (hown a ha).2) hterm hrun
    have hinv : Inv t := Transition.exec_invariant hstep hs hrun
    exact ⟨hs.sound.length_le (fun a ha => (hown a ha).1) hexec,
      fun hstuck x hx => hinv.sound.all_run ht hinv.capacity hstuck hx⟩

private theorem stepSurvives_iff {capacity : Nat} {s : PoolExecutor} (hs : Inv s) (a : Action) :
    (executor capacity).StepSurvives s a ↔ (executor capacity).StepCaught s a := by
  constructor
  · intro hsurvives hsome
    obtain ⟨t, ht⟩ := Option.isSome_iff_exists.1 hsome
    obtain ⟨-, ⟨-, rfl⟩ | ⟨hthrows, -⟩⟩ := step_cases ht
    · exact absurd (hsurvives _ ht).running Bool.true_eq_false_eq_False
    · exact .inr hthrows
  · intro hcaught t ht
    have hthrows : a.throws = false := (hcaught (Option.isSome_iff_exists.2 ⟨t, ht⟩)).resolve_left Bool.false_ne_true
    have hinv := inv_step hs ht
    obtain ⟨-, ⟨htrue, -⟩ | ⟨-, r, -, rfl⟩⟩ := step_cases ht
    · rw [hthrows] at htrue
      cases htrue
    · exact hinv.survives rfl

end PoolExecutor

/-! ### The tasks are those of the calls -/

namespace PollerExecutor

private theorem sync_callsAfter {s : PollerExecutor} {a : Action} (ha : a.posts = none) :
    (s.callsAfter a).sync = s.calls.sync := by
  cases a with
  | async n front isSync => cases ha
  | next => cases hstarts : starts s.queue <;> simp [callsAfter, hstarts, SyncCalls.begin_]
  | finish throws => cases hrunning : current s.queue <;> simp [callsAfter, hrunning]
  | _ => rfl

private theorem posts_step {s t : PollerExecutor} {a : Action} (h : s.step a = some t) :
    t.queue.nextTask = s.queue.nextTask + a.posts.toList.length ∧
      ∀ x, x ∈ t.calls.sync ↔ x ∈ s.calls.sync ∨ x = s.queue.nextTask ∧ a.posts = some true := by
  obtain ⟨q, hq, rfl⟩ := Option.map_eq_some_iff.1 h
  have hmove := step_move hq
  cases hposts : a.posts with
  | none =>
    refine ⟨?_, fun x => by simp [sync_callsAfter hposts]⟩
    cases a with
    | async n front isSync => cases hposts
    | _ => cases hmove <;> rfl
  | some isSync =>
    cases a with
    | async n front isSync =>
      obtain rfl := Option.some.inj hposts
      refine ⟨?_, fun x => by simp [callsAfter, SyncCalls.mem_sync_post]⟩
      cases hmove with
      | called t front hcur => cases hcur
      | inserted t front maySync => cases front <;> rfl
    | _ => cases hposts

end PollerExecutor

namespace PoolExecutor

private theorem sync_callsAfter {s : PoolExecutor} {a : Action} (ha : a.posts = none) :
    (s.callsAfter a).sync = s.calls.sync := by
  cases a with
  | async front isSync => cases ha
  | call i => cases hstarts : starts s.run.pool i <;> simp [callsAfter, hstarts, SyncCalls.begin_]
  | finish i throws => cases hrunning : (s.run.pool.workers i).strongTask <;> simp [callsAfter, hrunning]
  | _ => rfl

private theorem posts_step {s t : PoolExecutor} {a : Action} (hs : s.Sound) (h : s.step a = some t) :
    t.run.pool.handles.next = s.run.pool.handles.next + a.posts.toList.length ∧
      ∀ x, x ∈ t.calls.sync ↔ x ∈ s.calls.sync ∨ x = s.run.pool.handles.next ∧ a.posts = some true := by
  obtain ⟨-, ⟨hthrows, rfl⟩ | ⟨hthrows, r, hr, rfl⟩⟩ := step_cases h
  · have hposts : a.posts = none := by cases a <;> first | rfl | cases hthrows
    simp [hposts]
  · obtain ⟨-, hnext, -⟩ := PoolRun.posted_step hs.working a.pool_ne_shutdown hr
    cases hposts : a.posts with
    | none =>
      refine ⟨?_, fun x => by simp [sync_callsAfter hposts]⟩
      cases a with
      | async front isSync => cases hposts
      | _ => exact hnext
    | some isSync =>
      cases a with
      | async front isSync =>
        obtain rfl := Option.some.inj hposts
        exact ⟨hnext, fun x => by simp [callsAfter, SyncCalls.mem_sync_post]⟩
      | _ => cases hposts

end PoolExecutor

/-- Whatever the tasks do, the tasks of an executor are those that the callers have posted. -/
private theorem posted_run (i : Implementation) {as : List i.executor.Action} {s : i.executor.State}
    (h : Transition.exec i.executor.step i.executor.init as = some s) : i.executor.Posted as s := by
  cases i with
  | eventPoller =>
    have hinit : True ∧ PollerExecutor.executor.Posted [] PollerExecutor.init :=
      ⟨trivial, rfl, fun x => by simp [PollerExecutor.executor, PollerExecutor.init, SyncCalls.init]⟩
    exact (TaskExecutor.posted_exec (fun _ _ _ _ hst => ⟨trivial, PollerExecutor.posts_step hst⟩) hinit h).2
  | threadPool capacity hcapacity =>
    have hposted : (PoolExecutor.executor capacity).Posted [] (PoolExecutor.init capacity) :=
      ⟨rfl, fun x => by simp [PoolExecutor.executor, PoolExecutor.init, SyncCalls.init]⟩
    have hstep : ∀ (s : PoolExecutor) (a : PoolExecutor.Action) (t : PoolExecutor), s.Sound → s.step a = some t →
        t.Sound ∧ _ := fun _ _ _ hs hst => ⟨PoolExecutor.sound_step hs hst, PoolExecutor.posts_step hs hst⟩
    exact (TaskExecutor.posted_exec hstep ⟨PoolExecutor.sound_init capacity, hposted⟩ h).2

/-! ### Main results -/

private theorem along_survives_iff (i : Implementation) (as : List i.executor.Action) :
    Transition.Along i.executor.step i.executor.StepSurvives i.executor.init as ↔
      Transition.Along i.executor.step i.executor.StepCaught i.executor.init as := by
  cases i with
  | eventPoller =>
    have hstep : ∀ (s : PollerExecutor) (a : PollerExecutor.Action) (t : PollerExecutor), s.Sound →
        PollerExecutor.executor.StepCaught s a → s.step a = some t → t.Sound :=
      fun _ _ _ hs _ h => PollerExecutor.sound_step hs h
    have hiff : ∀ (s : PollerExecutor) (a : PollerExecutor.Action), s.Sound →
        (PollerExecutor.executor.StepSurvives s a ↔ PollerExecutor.executor.StepCaught s a) :=
      fun s a hs => iff_of_true (fun t ht => (PollerExecutor.sound_step hs ht).survives) fun _ => .inl rfl
    exact Transition.along_iff_of_invariant hstep hiff PollerExecutor.sound_init as
  | threadPool capacity hcapacity =>
    have hstep : ∀ (s : PoolExecutor) (a : PoolExecutor.Action) (t : PoolExecutor),
        s.Inv → (PoolExecutor.executor capacity).StepCaught s a → s.step a = some t → t.Inv :=
      fun _ _ _ hs _ h => PoolExecutor.inv_step hs h
    have hiff : ∀ (s : PoolExecutor) (a : PoolExecutor.Action), s.Inv →
        ((PoolExecutor.executor capacity).StepSurvives s a ↔ (PoolExecutor.executor capacity).StepCaught s a) :=
      fun s a hs => PoolExecutor.stepSurvives_iff hs a
    have hinit : (PoolExecutor.init capacity).Inv := ⟨PoolExecutor.sound_init capacity, hcapacity⟩
    exact Transition.along_iff_of_invariant hstep hiff hinit as

/-- The poller survives every run, and the thread pool exactly those in which no task throws an exception; the tasks
in question are all that have been posted. -/
theorem survives_along_iff (i : Implementation) (as : List i.executor.Action) :
    (Transition.Along i.executor.step i.executor.StepSurvives i.executor.init as ↔
      Transition.Along i.executor.step i.executor.StepCaught i.executor.init as) ∧
    ∀ s, Transition.exec i.executor.step i.executor.init as = some s → i.executor.Posted as s :=
  ⟨along_survives_iff i as, fun _ h => posted_run i h⟩

/-- A pool of one worker: the first task throws, and the second one, posted by `sync`, is still in the list. -/
def firstThrows : List PoolExecutor.Action :=
  [.async false false, .post, .async false true, .post, .started 0, .testExit 0, .wait 0, .take 0, .test 0, .lock 0,
    .call 0] ++ [.finish 0 true]

theorem pool_terminated :
    (∃ s, Transition.exec PoolExecutor.step (PoolExecutor.init 1) firstThrows = some s ∧ s.terminated = true ∧
      s.run.pool.pedding = [1] ∧ s.calls.sync = {1} ∧ .released 1 ∉ s.calls.events) ∧
    ¬ Transition.Along PoolExecutor.step (PoolExecutor.executor 1).StepSurvives (PoolExecutor.init 1) firstThrows := by
  refine ⟨⟨_, rfl, rfl, rfl, rfl, by decide⟩, fun hrun => ?_⟩
  have hlast := Transition.ok_of_along_append hrun rfl
  exact absurd (hlast _ rfl).running Bool.true_eq_false_eq_False

end AvcTool
