import AvcTool.Poller.Shutdown
import AvcTool.Thread.ThrowingTask

/-!
# What a poller has done when a call returns

All tasks that were ever put into the list, in the order in which the poller comes to them, are `TaskQueue.order`.  Only
a task of `async_first` comes before one that was handed in earlier (`InTurn`), so that a task of `async` has all earlier
ones before it.

Two calls wait for such a task.  `sync` waits for its own, and when it returns all tasks handed in before have ended
(`sync_is_barrier`).  This is so for a poller in a thread of its own to which other threads hand in tasks that are not
cancelled: what the thread of the poller hands in itself, or any thread before `runLoop` has set `thread_`, is called at
once, before the tasks that are in the list.  The destructor posts the task that ends the loop, so that no task handed
in before the destructor is lost (`destructor_drains`).
-/

namespace AvcTool

/-- The tasks that have been taken, and those that are in the list. -/
def TaskQueue.order (q : TaskQueue) : List Nat := q.batches.flatten ++ q.tasks

/-- A task with a later one before it: the later one is of `async_first`. -/
def InTurn (q : TaskQueue) : Prop := q.order.Pairwise fun x y => y < x → x ∈ q.fronts

/-- The tasks below `n` are done: called at once or, by the poller, run or skipped because they were cancelled. -/
def DoneBelow (n : Nat) (q : TaskQueue) : Prop :=
  ∀ x < n, x ∈ q.inlined ∨ (x, true) ∈ q.handled ∨ (x, false) ∈ q.handled ∧ x ∈ q.cancelled

/-! ### The order in which the poller comes to the tasks -/

namespace InTurn

variable {q : TaskQueue}

theorem init : InTurn .init := List.Pairwise.nil

theorem inserted (h : InTurn q) (hbook : Bookkeeping q) (front : Bool) : InTurn (q.insertTask front) := by
  have hlt : ∀ x ∈ q.order, x < q.nextTask := by
    intro x hx
    refine hbook.lt_nextTask ?_
    rw [List.append_assoc]
    exact List.mem_append_right _ hx
  cases front with
  | false =>
    have horder : (q.insertTask false).order = q.order ++ [q.nextTask] := (List.append_assoc _ _ _).symm
    rw [InTurn, horder, List.pairwise_append]
    refine ⟨h, List.pairwise_singleton _ _, fun x hx y hy hyx => ?_⟩
    rw [List.mem_singleton.1 hy] at hyx
    exact absurd (hlt x hx) (Nat.lt_asymm hyx)
  | true =>
    have hold : q.order.Pairwise fun x y => y < x → x ∈ insert q.nextTask q.fronts :=
      h.imp fun hfront hyx => Finset.mem_insert_of_mem (hfront hyx)
    obtain ⟨hbatches, htasks, hcross⟩ := List.pairwise_append.1 hold
    refine List.pairwise_append.2 ⟨hbatches, List.pairwise_cons.2 ⟨fun y _ _ => Finset.mem_insert_self _ _, htasks⟩, ?_⟩
    intro x hx y hy hyx
    rcases List.mem_cons.1 hy with rfl | hy
    · exact absurd (hlt x (List.mem_append_left _ hx)) (Nat.lt_asymm hyx)
    · exact hcross x hx y hy hyx

private theorem of_order {r : TaskQueue} (h : InTurn q) (horder : r.order = q.order) (hfronts : r.fronts = q.fronts) :
    InTurn r := by
  rw [InTurn, horder, hfronts]
  exact h

theorem step {r : TaskQueue} {a : QueueAction} (h : InTurn q) (hbook : Bookkeeping q) (hstep : q.step a = some r) :
    InTurn r := by
  cases step_move hstep with
  | inserted t front maySync => exact (h.inserted hbook front).of_order rfl rfl
  | swapped hpc => exact h.of_order (by simp [TaskQueue.order]) rfl
  | _ => exact h.of_order rfl rfl

/-- Whatever was handed in before a task of `async` comes before it. -/
private theorem mem_before (h : InTurn q) (hbook : Bookkeeping q) {x y : Nat} {before behind : List Nat}
    (horder : q.order = before ++ y :: behind) (hy : y ∉ q.fronts) (hxy : x < y) : x ∈ q.inlined ∨ x ∈ before := by
  have hmem : y ∈ q.order := by
    rw [horder]
    exact List.mem_append_right _ List.mem_cons_self
  have hlt : y < q.nextTask := by
    refine hbook.lt_nextTask ?_
    rw [List.append_assoc]
    exact List.mem_append_right _ hmem
  have hx : x ∈ q.inlined ++ q.batches.flatten ++ q.tasks :=
    hbook.taken_once.mem_iff.2 (List.mem_range.2 (hxy.trans hlt))
  rw [List.append_assoc] at hx
  rcases List.mem_append.1 hx with hx | hx
  · exact .inl hx
  · have hx : x ∈ before ++ y :: behind := horder ▸ hx
    rcases List.mem_append.1 hx with hx | hx
    · exact .inr hx
    · rcases List.mem_cons.1 hx with rfl | hx
      · exact absurd hxy (Nat.lt_irrefl x)
      · -- `y` would come before a task that was handed in earlier
        rw [InTurn, horder, List.pairwise_append, List.pairwise_cons] at h
        exact absurd (h.2.1.1 x hx hxy) hy

end InTurn

private theorem order_eq_handled {q : TaskQueue} (hbook : Bookkeeping q) :
    q.order = q.handled.map Prod.fst ++ (q.pc.rest ++ q.tasks) := by
  rw [TaskQueue.order, ← hbook.run_in_order, List.append_assoc]

/-! ### Waiting for a task -/

namespace PollerExecutor

private theorem mem_completed_iff {c : SyncCalls} {x : Nat} :
    x ∈ c.completed ↔ ∃ throws, .ended x throws ∈ c.events := by
  rw [SyncCalls.completed, List.mem_filterMap]
  constructor
  · rintro ⟨ev, hev, heq⟩
    cases ev with
    | ended y throws =>
      obtain rfl := Option.some.inj heq
      exact ⟨throws, hev⟩
    | _ => cases heq
  · rintro ⟨throws, hev⟩
    exact ⟨_, hev, rfl⟩

private theorem inTurn_step (s : PollerExecutor) (a : Action) (t : PollerExecutor) (hs : Sound s ∧ InTurn s.queue)
    (h : s.step a = some t) : Sound t ∧ InTurn t.queue := by
  refine ⟨sound_step hs.1 h, ?_⟩
  obtain ⟨q, hq, rfl⟩ := Option.map_eq_some_iff.1 h
  exact hs.2.step hs.1.queue.bookkeeping hq

/-- What the step hands in: whether the task goes to the front of the list, and whether the caller waits for it. -/
def Action.handsIn : Action → Option (Bool × Bool)
  | .async _ front isSync => some (front, isSync)
  | _ => none

private theorem handsIn_step {s t : PollerExecutor} {a : Action} (h : s.step a = some t) :
    t.queue.nextTask = s.queue.nextTask + a.handsIn.toList.length ∧
      ∀ x, x ∈ t.queue.fronts ↔
        x ∈ s.queue.fronts ∨ x = s.queue.nextTask ∧ ∃ isSync, a.handsIn = some (true, isSync) := by
  obtain ⟨q, hq, rfl⟩ := Option.map_eq_some_iff.1 h
  obtain ⟨hnext, -, hfronts, -⟩ := handedIn_step hq
  cases a with
  | async n front isSync =>
    have hcall : (Action.async n front isSync).queue.call = some (false, front) := rfl
    exact ⟨hnext, fun x => by simp [hfronts, hcall, Action.handsIn]⟩
  | _ => exact ⟨hnext, fun x => by simp [hfronts, Action.queue, QueueAction.call, Action.handsIn]⟩

/-- The tasks are those that the run has handed in, with the numbers that they have among these. -/
private theorem handsIn_exec {as : List Action} {s : PollerExecutor} (hrun : Transition.exec step init as = some s) :
    s.queue.nextTask = (as.filterMap Action.handsIn).length ∧
      ∀ x, x ∈ s.queue.fronts ↔ ∃ isSync, (as.filterMap Action.handsIn)[x]? = some (true, isSync) := by
  refine Transition.exec_history (P := fun as (s : PollerExecutor) => s.queue.nextTask =
    (as.filterMap Action.handsIn).length ∧ ∀ x, x ∈ s.queue.fronts ↔ ∃ isSync,
      (as.filterMap Action.handsIn)[x]? = some (true, isSync)) ?_ ⟨rfl, by simp [init, TaskQueue.init]⟩ hrun
  rintro as s a t ⟨hcount, hold⟩ hstep
  obtain ⟨hnext, hfronts⟩ := handsIn_step hstep
  refine ⟨by rw [Transition.filterMap_concat, List.length_append, hnext, hcount], fun x => ?_⟩
  simp only [hfronts, hold, hcount, Transition.filterMap_concat, Transition.getElem?_append_toList, exists_or,
    exists_and_left]

/-- When a caller of `sync` is released, every task that was handed in before its own has ended. -/
theorem sync_is_barrier {as : List Action} {s : PollerExecutor} (hrun : Transition.exec step init as = some s)
    {l : List CallEvent} {y : Nat} (hreleased : l ++ [.released y] <+: s.calls.events)
    (hsync : (as.filterMap Action.handsIn)[y]? = some (false, true)) {x : Nat} (hxy : x < y) :
    ∃ throws, .ended x throws ∈ l := by
  obtain ⟨hs, hturn⟩ := Transition.exec_invariant inTurn_step ⟨sound_init, .init⟩ hrun
  have hback : y ∉ s.queue.fronts := by
    rw [(handsIn_exec hrun).2]
    rintro ⟨isSync, hfront⟩
    simp [hsync] at hfront
  -- at the release the task itself has ended
  obtain ⟨throws, hended⟩ := hs.calls.after _ hreleased y (List.mem_append_right _ List.mem_cons_self)
  have hended : .ended y throws ∈ l := by
    rcases List.mem_append.1 hended with hmem | hmem
    · exact hmem
    · cases List.mem_singleton.1 hmem
  obtain ⟨before, behind, hl⟩ := List.append_of_mem ((@mem_completed_iff ⟨∅, l⟩ y).2 ⟨throws, hended⟩)
  obtain ⟨later, hlater⟩ := hreleased
  have hcompleted : s.calls.completed = before ++ y :: (behind ++ (⟨∅, .released y :: later⟩ : SyncCalls).completed) := by
    rw [← List.cons_append, ← List.append_assoc, ← hl, SyncCalls.completed, ← hlater, List.append_assoc,
      List.filterMap_append]
    rfl
  have horder := order_eq_handled hs.queue.bookkeeping
  rw [← hs.completed, hcompleted, List.append_assoc, List.append_assoc, List.cons_append] at horder
  rcases hturn.mem_before hs.queue.bookkeeping horder hback hxy with hinlined | hbefore
  · rw [hs.inlined] at hinlined
    cases hinlined
  · refine (@mem_completed_iff ⟨∅, l⟩ x).1 ?_
    rw [hl]
    exact List.mem_append_left _ hbefore

/-- One thread posts two tasks, the second of which overtakes the first; another thread waits for its own. -/
def barrierRun : List Action :=
  [.async 1 false false, .writePipe 1, .async 1 true false, .writePipe 1, .async 2 false true, .sleep, .wake true,
    .onPipeEvent, .read, .read, .swap, .next, .finish true, .next, .finish false, .next, .finish false]

theorem sync_is_barrier_barrierRun :
    ∃ s, Transition.exec step init barrierRun = some s ∧
      ∃ l, l ++ [.released 2] <+: s.calls.events ∧ ∀ x < 2, ∃ throws, .ended x throws ∈ l := by
  obtain ⟨s, hs, hevents⟩ : ∃ s, Transition.exec step init barrierRun = some s ∧
      [.began 1, .ended 1 true, .began 0, .ended 0 false, .began 2, .ended 2 false] ++ [.released 2] <+:
        s.calls.events := ⟨_, rfl, by decide⟩
  exact ⟨s, hs, _, hevents, fun x hx => sync_is_barrier hs hevents rfl hx⟩

end PollerExecutor

/-! ### The destructor -/

/-- The task that the poller is running has been come to. -/
def RunningHandled (q : TaskQueue) : Prop := ∀ x, q.pc.task = some x → (x, true) ∈ q.handled

private theorem QueueMove.mem_handled {q r : TaskQueue} {a : QueueAction} (h : QueueMove q a r) {p : Nat × Bool}
    (hp : p ∈ q.handled) : p ∈ r.handled := by
  cases h with
  | inserted t front => cases front <;> exact hp
  | skipped => exact List.mem_append_left _ hp
  | started => exact List.mem_append_left _ hp
  | _ => exact hp

private theorem QueueMove.runningHandled {q r : TaskQueue} {a : QueueAction} (h : QueueMove q a r)
    (hq : RunningHandled q) : RunningHandled r := by
  cases h with
  | called => exact hq
  | inserted t front => cases front <;> exact hq
  | written => exact hq
  | cancelled => exact hq
  | read => exact hq
  | started x rest =>
    intro y hy
    obtain rfl := Option.some.inj hy
    exact List.mem_append_right _ List.mem_cons_self
  | _ => exact fun y hy => by cases hy

private theorem QueueMove.notMem_fronts {q r : TaskQueue} {a : QueueAction} (h : QueueMove q a r) {x : Nat}
    (hlt : x < q.nextTask) (hx : x ∉ q.fronts) : x ∉ r.fronts := by
  cases h with
  | inserted t front =>
    cases front with
    | false => exact hx
    | true =>
      intro hmem
      rcases Finset.mem_insert.1 hmem with rfl | hmem
      · exact absurd hlt (Nat.lt_irrefl _)
      · exact hx hmem
  | _ => exact hx

private theorem QueueMove.exit_cases {q r : TaskQueue} {a : QueueAction} (h : QueueMove q a r) (hexit : r.exit = true) :
    q.exit = true ∨ a = .finish .throwsExit ∧ ∃ x, q.pc.task = some x := by
  cases h with
  | inserted t front => cases front <;> exact .inl hexit
  | finished o x rest hpc =>
    rcases Bool.or_eq_true_iff.1 hexit with hexit | ho
    · exact .inl hexit
    · obtain rfl := of_decide_eq_true ho
      exact .inr ⟨rfl, x, by rw [hpc]; rfl⟩
  | _ => exact .inl hexit

namespace PollerLife

structure Drains (s : PollerLife) : Prop where
  life : LifeInv s
  inTurn : InTurn s.queue
  running : RunningHandled s.queue
  exit : ∀ t x, s.destructor = .posted t x → x ∉ s.queue.fronts ∧ (s.queue.exit = true → (x, true) ∈ s.queue.handled)

theorem Drains.init : Drains .init where
  life := .init
  inTurn := .init
  running _ h := by cases h
  exit _ _ h := by cases h

theorem Drains.queueStep {s : PollerLife} (h : Drains s) {a : QueueAction} {q : TaskQueue} (hallows : s.Allows a)
    (hstep : s.queueStep a = some q) : Drains { s with queue := q } := by
  refine ⟨h.life.queueStep hallows hstep, ?_, ?_, fun t x hposted => ?_⟩
  · rcases queueStep_cases hstep with rfl | ⟨t, front, hstep⟩ | ⟨hstep, -⟩
    · exact h.inTurn.of_order rfl rfl
    · exact h.inTurn.step h.life.queue.bookkeeping hstep
    · exact h.inTurn.step h.life.queue.bookkeeping hstep
  · rcases queueStep_cases hstep with rfl | ⟨t, front, hstep⟩ | ⟨hstep, -⟩
    · exact h.running
    · exact (step_move hstep).runningHandled h.running
    · exact (step_move hstep).runningHandled h.running
  · obtain ⟨hfronts, hexit⟩ := h.exit t x hposted
    have hlt := (h.life.posted t x hposted).2.lt
    rcases queueStep_cases hstep with rfl | ⟨t', front, hstep⟩ | ⟨hstep, -⟩
    · exact ⟨hfronts, hexit⟩
    · refine ⟨(step_move hstep).notMem_fronts hlt hfronts, fun hset => (step_move hstep).mem_handled ?_⟩
      rcases (step_move hstep).exit_cases hset with hset | ⟨hne, -⟩
      · exact hexit hset
      · cases hne
    · refine ⟨(step_move hstep).notMem_fronts hlt hfronts, fun hset => (step_move hstep).mem_handled ?_⟩
      rcases (step_move hstep).exit_cases hset with hset | ⟨rfl, y, hy⟩
      · exact hexit hset
      · -- nobody but the task of the destructor throws `Exit`
        have hexitTask : s.destructor.exitTask = some x := by
          rw [show s.destructor = .posted t x from hposted]
          rfl
        have htask : s.queue.pc.task = s.destructor.exitTask := by
          by_contra hne
          have hno := hallows.2
          rw [if_neg hne] at hno
          exact hno rfl
        exact h.running x (htask.trans hexitTask)

private theorem drains_step (s : PollerLife) (a : LifeAction) (r : PollerLife) (h : Drains s)
    (hstep : s.step a = some r) : Drains r := by
  have hlife := step_lifeInv s a r h.life hstep
  cases a with
  | runLoop blocked =>
    obtain ⟨-, ⟨⟩⟩ := Option.ite_none_right_eq_some.1 hstep
    exact ⟨hlife, h.inTurn, h.running, h.exit⟩
  | assignThread =>
    obtain ⟨-, ⟨⟩⟩ := Option.ite_none_right_eq_some.1 hstep
    exact ⟨hlife, h.inTurn, h.running, h.exit⟩
  | queue a =>
    obtain ⟨⟨-, hallows⟩, hstep⟩ := Option.ite_none_right_eq_some.1 hstep
    obtain ⟨q, hq, rfl⟩ := Option.map_eq_some_iff.1 hstep
    exact h.queueStep hallows hq
  | destroy t =>
    obtain ⟨⟨halive, -⟩, ⟨⟩⟩ := Option.ite_none_right_eq_some.1 hstep
    have hfronts : s.queue.nextTask ∉ s.queue.fronts := fun hmem =>
      Nat.lt_irrefl _ (h.life.queue.bookkeeping.fronts_lt _ hmem)
    revert hlife
    unfold shutdown
    split
    · split <;> exact fun hlife => ⟨hlife, h.inTurn, h.running, by simp⟩
    · refine fun hlife => ⟨hlife, (h.inTurn.inserted h.life.queue.bookkeeping false).of_order rfl rfl, h.running, ?_⟩
      rintro _ _ ⟨⟩
      exact ⟨hfronts, fun hexit => absurd ((h.life.alive halive).symm.trans hexit) Bool.false_ne_true⟩
  | join =>
    rw [PollerLife.step] at hstep
    split at hstep
    · obtain ⟨-, ⟨⟩⟩ := Option.ite_none_right_eq_some.1 hstep
      exact ⟨hlife, h.inTurn, h.running, by simp⟩
    · cases hstep

/-- A task that has been run and is not one of `async_first` has all earlier ones done. -/
private theorem Drains.doneBelow {s : PollerLife} (h : Drains s) {n : Nat} (hran : (n, true) ∈ s.queue.handled)
    (hback : n ∉ s.queue.fronts) : DoneBelow n s.queue := by
  have hbook := h.life.queue.bookkeeping
  obtain ⟨before, behind, hhandled⟩ := List.append_of_mem (List.mem_map_of_mem (f := Prod.fst) hran)
  have horder := order_eq_handled hbook
  rw [hhandled, List.append_assoc, List.cons_append] at horder
  intro x hx
  rcases h.inTurn.mem_before hbook horder hback hx with hinlined | hbefore
  · exact .inl hinlined
  · have hmem : x ∈ s.queue.handled.map Prod.fst := by
      rw [hhandled]
      exact List.mem_append_left _ hbefore
    obtain ⟨⟨y, ran⟩, hy, rfl⟩ := List.mem_map.1 hmem
    cases ran with
    | true => exact .inr (.inl hy)
    | false => exact .inr (.inr ⟨hy, hbook.skipped _ hy⟩)

/-- The destructor, which has posted the task `n`, waits or has returned. -/
structure Closing (n : Nat) (s : PollerLife) : Prop where
  drains : Drains s
  place : (∃ t, s.destructor = .posted t n) ∨ s.destructor = .returned ∧ DoneBelow n s.queue

private theorem closing_step {n : Nat} (s : PollerLife) (a : LifeAction) (r : PollerLife) (h : Closing n s)
    (hstep : s.step a = some r) : Closing n r := by
  refine ⟨drains_step s a r h.drains hstep, ?_⟩
  have halive : s.destructor ≠ .alive := by
    rcases h.place with ⟨t, hd⟩ | ⟨hd, -⟩ <;> rw [hd] <;> simp
  cases a with
  | runLoop blocked => exact absurd (Option.ite_none_right_eq_some.1 hstep).1.1 halive
  | assignThread => exact absurd (Option.ite_none_right_eq_some.1 hstep).1.1 halive
  | destroy t => exact absurd (Option.ite_none_right_eq_some.1 hstep).1.1 halive
  | queue a =>
    obtain ⟨⟨hexists, -⟩, hstep⟩ := Option.ite_none_right_eq_some.1 hstep
    obtain ⟨q, -, rfl⟩ := Option.map_eq_some_iff.1 hstep
    rcases h.place with hd | ⟨hd, -⟩
    · exact .inl hd
    · exact absurd hd hexists.1
  | join =>
    rw [PollerLife.step] at hstep
    split at hstep
    · rename_i t x hd
      obtain ⟨⟨-, hpc⟩, ⟨⟩⟩ := Option.ite_none_right_eq_some.1 hstep
      obtain rfl : x = n := by
        rcases h.place with ⟨t', hd'⟩ | ⟨hd', -⟩
        · rw [hd] at hd'
          exact (DestructorPc.posted.inj hd').2
        · rw [hd] at hd'
          cases hd'
      obtain ⟨hback, hran⟩ := h.drains.exit t x hd
      exact .inr ⟨rfl, h.drains.doneBelow (hran (h.drains.life.queue.stopped hpc)) hback⟩
    · cases hstep

/-- After an exception has left the destructor, nothing happens any more. -/
theorem terminated_step (s : PollerLife) (a : LifeAction) (r : PollerLife) (h : s.destructor = .terminated)
    (hstep : s.step a = some r) : r.destructor = .terminated := by
  cases a with
  | queue a => exact absurd h (Option.ite_none_right_eq_some.1 hstep).1.1.2
  | join =>
    rw [PollerLife.step, h] at hstep
    cases hstep
  | _ =>
    have halive := (Option.ite_none_right_eq_some.1 hstep).1.1
    rw [h] at halive
    cases halive

/-- When the destructor has returned, every task that was handed in before it is done, whatever has happened. -/
theorem destructor_drains {before after : List LifeAction} {s u : PollerLife}
    (hbefore : Transition.exec PollerLife.step .init before = some s) {t : Thread}
    (hafter : Transition.exec PollerLife.step s (.destroy t :: after) = some u) (hreturned : u.destructor = .returned) :
    DoneBelow s.queue.nextTask u.queue := by
  have hs : Drains s := Transition.exec_invariant drains_step .init hbefore
  obtain ⟨r, hdestroy, hrun⟩ := Transition.exec_cons.1 hafter
  have hr := drains_step s _ r hs hdestroy
  obtain ⟨⟨halive, -⟩, ⟨⟩⟩ := Option.ite_none_right_eq_some.1 hdestroy
  have hthrows : s.exitOutcome = .throwsExit := by simp [PollerLife.exitOutcome, hs.life.alive halive]
  by_cases hcur : s.currentThread t = true
  · have hterminated : (s.shutdown t).destructor = .terminated := by simp [PollerLife.shutdown, hcur, hthrows]
    rw [Transition.exec_invariant terminated_step hterminated hrun] at hreturned
    cases hreturned
  · have hposted : (s.shutdown t).destructor = .posted t s.queue.nextTask := by simp [PollerLife.shutdown, hcur]
    have hu : Closing s.queue.nextTask u := Transition.exec_invariant closing_step ⟨hr, .inl ⟨t, hposted⟩⟩ hrun
    rcases hu.place with ⟨t', hd⟩ | ⟨-, hdone⟩
    · rw [hreturned] at hd
      cases hd
    · exact hdone

/-- Three tasks are in the queue, one of them cancelled, when another thread drops the last reference; a callback hands in
one more while the destructor waits. -/
def closingBefore : List LifeAction :=
  [.runLoop false, .assignThread, .queue (.async (.producer 1) false true), .queue (.writePipe (.producer 1)),
    .queue (.async (.producer 1) true true), .queue (.writePipe (.producer 1)),
    .queue (.async (.producer 2) false false), .queue (.writePipe (.producer 2)), .queue (.cancel 0)]

def closingAfter : List LifeAction :=
  [.queue (.writePipe (.producer 0)), .queue .sleep, .queue (.wake true), .queue .onPipeEvent, .queue .read, .queue .read,
    .queue .swap, .queue .next, .queue (.async .poller false false), .queue (.writePipe .poller),
    .queue (.finish .returns), .queue .next, .queue .next, .queue (.finish .throwsOther), .queue .next,
    .queue (.finish .throwsExit), .queue .next, .queue .testExit, .join]

theorem destructor_drains_closing :
    ∃ s u, Transition.exec PollerLife.step .init closingBefore = some s ∧
      Transition.exec PollerLife.step s (.destroy (.producer 0) :: closingAfter) = some u ∧ s.queue.nextTask = 3 ∧
        DoneBelow 3 u.queue := by
  obtain ⟨s, u, hbefore, hafter, hnext, hreturned⟩ : ∃ s u,
      Transition.exec PollerLife.step .init closingBefore = some s ∧
        Transition.exec PollerLife.step s (.destroy (.producer 0) :: closingAfter) = some u ∧ s.queue.nextTask = 3 ∧
          u.destructor = .returned := ⟨_, _, rfl, rfl, rfl, rfl⟩
  exact ⟨s, u, hbefore, hafter, hnext, hnext ▸ destructor_drains hbefore hafter hreturned⟩

end PollerLife

end AvcTool
