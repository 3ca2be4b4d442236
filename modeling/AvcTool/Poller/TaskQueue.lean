import AvcTool.Lib.Transition
import Mathlib.Data.Finset.Card
import Mathlib.Data.List.Perm.Basic
import Mathlib.Data.List.Range

/-!
# The task queue of a poller

Any thread hands a task to the poller with `async` or `async_first`: the task is inserted into `tasks_` under the
lock and then one byte is written to a pipe.  The poller thread, woken by the pipe, drains it, swaps the list out
and runs the batch.  These are separate steps here, and any number of producers may be between the two steps of
their side.  The tasks are numbered in the order in which they are handed in; `batches`, `handled`, `inlined` and
`fronts` only record what has happened.

The invariant has two halves.  `Bookkeeping` says where every task is, and `WakePending` that a task in the list is
always followed by a wake-up.  That the tasks are handled at last is a matter of `effort`, which every step
towards this end lowers.
-/

namespace AvcTool

inductive Thread where
  | poller
  | producer (n : Nat)
  deriving DecidableEq

/-- Where the poller thread is in `runLoop` and `onPipeEvent`. -/
inductive PollerPc where
  /-- in `scheduleDelayTask` -/
  | scheduling
  /-- in `epoll_wait` -/
  | waiting
  /-- calling the callbacks of the signaled records, with that of the pipe still to come or not -/
  | dispatching (pipeEvent : Bool)
  | draining
  | swapping
  | batch (rest : List Nat)
  | running (task : Nat) (rest : List Nat)
  | stopped
  deriving DecidableEq

/-- The tasks of the current batch that the poller has not come to. -/
def PollerPc.rest : PollerPc → List Nat
  | .batch rest => rest
  | .running _ rest => rest
  | _ => []

/-- The poller thread is in a callback or may enter one, so it may hand in tasks itself. -/
def PollerPc.callsOut : PollerPc → Bool
  | .scheduling => true
  | .dispatching _ => true
  | .running _ _ => true
  | _ => false

structure TaskQueue where
  tasks : List Nat
  /-- the number of unread bytes -/
  pipe : Nat
  /-- the threads that have inserted a task and not yet written to the pipe -/
  unwritten : Finset Thread
  cancelled : Finset Nat
  exit : Bool
  pc : PollerPc
  nextTask : Nat
  inlined : List Nat
  /-- the tasks handed in by `async_first` -/
  fronts : Finset Nat
  batches : List (List Nat)
  /-- the tasks the poller has come to, each with whether it was run -/
  handled : List (Nat × Bool)

def TaskQueue.init : TaskQueue :=
  { tasks := [], pipe := 0, unwritten := ∅, cancelled := ∅, exit := false, pc := .scheduling, nextTask := 0,
    inlined := [], fronts := ∅, batches := [], handled := [] }

inductive TaskOutcome where
  | returns
  | throwsExit
  | throwsOther
  deriving DecidableEq

inductive QueueAction where
  | async (t : Thread) (front maySync : Bool)
  | writePipe (t : Thread)
  | cancel (task : Nat)
  | sleep
  | wake (pipeEvent : Bool)
  | onPipeEvent
  | read
  | swap
  | next
  | finish (o : TaskOutcome)
  | testExit
  deriving DecidableEq

/-- The poller runs in a thread of its own, so `currentThread()` holds on that thread only. -/
def Thread.currentThread : Thread → Bool
  | .poller => true
  | .producer _ => false

/-- The locked insertion of `async` and `async_first`. -/
def TaskQueue.insertTask (s : TaskQueue) (front : Bool) : TaskQueue :=
  if front then
    { s with tasks := s.nextTask :: s.tasks, fronts := insert s.nextTask s.fronts, nextTask := s.nextTask + 1 }
  else { s with tasks := s.tasks ++ [s.nextTask], nextTask := s.nextTask + 1 }

/-- One step of `onPipeEvent` through its batch, up to the lock in the call operator.  A task that is cancelled before
the lock counts as cancelled, since its function object is gone, and one that is cancelled after it as started. -/
def TaskQueue.nextOfBatch (s : TaskQueue) : Option TaskQueue :=
  match s.pc with
  | .batch [] => some { s with pc := .dispatching false }
  | .batch (x :: rest) =>
    if x ∈ s.cancelled then some { s with handled := s.handled ++ [(x, false)], pc := .batch rest }
    else some { s with handled := s.handled ++ [(x, true)], pc := .running x rest }
  | _ => none

/-- `operator()` of the task is over.  Every exception is caught and the loop over the batch goes on. -/
def TaskQueue.finishTask (s : TaskQueue) (o : TaskOutcome) : Option TaskQueue :=
  match s.pc with
  | .running _ rest =>
    if .poller ∈ s.unwritten then none
    else some { s with exit := s.exit || o = .throwsExit, pc := .batch rest }
  | _ => none

def TaskQueue.step (s : TaskQueue) : QueueAction → Option TaskQueue
  | .async t front maySync =>
    -- a thread writes to the pipe before it inserts again, and the poller inserts only from a callback
    if t ∈ s.unwritten ∨ t = .poller ∧ s.pc.callsOut = false then none
    else if maySync && t.currentThread then
      some { s with inlined := s.inlined ++ [s.nextTask], nextTask := s.nextTask + 1 }
    else some { s.insertTask front with unwritten := insert t s.unwritten }
  | .writePipe t =>
    if t ∈ s.unwritten then some { s with unwritten := s.unwritten.erase t, pipe := s.pipe + 1 } else none
  | .cancel task =>
    if task < s.nextTask ∧ task ∉ s.inlined then some { s with cancelled := insert task s.cancelled } else none
  | .sleep =>
    if s.pc = .scheduling ∧ .poller ∉ s.unwritten then some { s with pc := .waiting } else none
  | .wake pipeEvent =>
    if s.pc = .waiting ∧ (pipeEvent = true → 0 < s.pipe) then some { s with pc := .dispatching pipeEvent } else none
  | .onPipeEvent =>
    if s.pc = .dispatching true ∧ .poller ∉ s.unwritten then some { s with pc := .draining } else none
  | .read =>
    if s.pc = .draining then
      -- the loop reads at most 1024 bytes at a time until there are none
      if s.pipe = 0 then some { s with pc := .swapping } else some { s with pipe := s.pipe - min 1024 s.pipe }
    else none
  | .swap =>
    if s.pc = .swapping then
      if s.tasks = [] then some { s with pc := .dispatching false }
      else some { s with tasks := [], batches := s.batches ++ [s.tasks], pc := .batch s.tasks }
    else none
  | .next => s.nextOfBatch
  | .finish o => s.finishTask o
  | .testExit =>
    if s.pc = .dispatching false ∧ .poller ∉ s.unwritten then
      if s.exit then some { s with pc := .stopped } else some { s with pc := .scheduling }
    else none

/-! ### What the queue is to guarantee -/

/-- The order of a list filled by `async` at the back and by `async_first` at the front. -/
def DequeOrder (fronts : Finset Nat) (l : List Nat) : Prop :=
  ∃ f b, l = f ++ b ∧ f.Pairwise (· > ·) ∧ b.Pairwise (· < ·) ∧ (∀ x ∈ f, x ∈ fronts) ∧ ∀ x ∈ b, x ∉ fronts

/-- Every task is in one place: it was called at once, it is in one batch, or it is still in the list.  The poller
comes to the tasks in the order of the batches, each of which is in the order of the list, and runs every one that
has not been cancelled. -/
structure Bookkeeping (s : TaskQueue) : Prop where
  taken_once : (s.inlined ++ s.batches.flatten ++ s.tasks).Perm (List.range s.nextTask)
  run_in_order : s.handled.map Prod.fst ++ s.pc.rest = s.batches.flatten
  skipped : ∀ x, (x, false) ∈ s.handled → x ∈ s.cancelled
  tasks_order : DequeOrder s.fronts s.tasks
  batches_order : ∀ b ∈ s.batches, DequeOrder s.fronts b
  fronts_lt : ∀ x ∈ s.fronts, x < s.nextTask

/-- While the poller is blocked, a task in the list has a byte in the pipe or a producer that is about to write. -/
def NoLostWakeup (s : TaskQueue) : Prop :=
  s.pc = .waiting → s.tasks ≠ [] → 0 < s.pipe ∨ ∃ n, Thread.producer n ∈ s.unwritten

/-- A task cancelled before the poller has come to it is never run. -/
def CancelledNotRun (s : TaskQueue) : Prop :=
  ∀ x ∈ s.cancelled, (x, true) ∉ s.handled →
    ∀ as t, Transition.exec TaskQueue.step s as = some t → (x, true) ∉ t.handled

/-- The steps that work towards handling the tasks that have been handed in. -/
def QueueAction.completes : QueueAction → Bool
  | .async _ _ _ => false
  | .cancel _ => false
  | .wake pipeEvent => pipeEvent
  | _ => true

/-- Every task that was handed in has been called at once or handled by the poller. -/
def AllHandled (s : TaskQueue) : Prop :=
  s.tasks = [] ∧ (s.inlined ++ s.handled.map Prod.fst).Perm (List.range s.nextTask)

/-- Left to themselves, the poller and the producers come to an end, and then every task has been handled, unless
`Exit` has ended the loop. -/
def Delivers (s : TaskQueue) : Prop :=
  ∃ n, ∀ as t, (∀ a ∈ as, a.completes = true) → Transition.exec TaskQueue.step s as = some t →
    as.length ≤ n ∧ ((∀ a, a.completes = true → t.step a = none) → t.exit = true ∨ AllHandled t)

/-- The call of `async` or `async_first`: whether the poller calls the task at once, and whether it is put to the
front. -/
def QueueAction.call : QueueAction → Option (Bool × Bool)
  | .async t front maySync => some (maySync && t.currentThread, front)
  | _ => none

/-- The tasks are those that the steps `as` have handed in, numbered in this order. -/
structure HandedIn (as : List QueueAction) (s : TaskQueue) : Prop where
  count : s.nextTask = (as.filterMap QueueAction.call).length
  inlined_iff : ∀ x, x ∈ s.inlined ↔ ∃ front, (as.filterMap QueueAction.call)[x]? = some (true, front)
  fronts_iff : ∀ x, x ∈ s.fronts ↔ (as.filterMap QueueAction.call)[x]? = some (false, true)
  cancelled_iff : ∀ x, x ∈ s.cancelled ↔ .cancel x ∈ as

/-! ### What a step can do -/

/-- The cases of `TaskQueue.step`, each with the conditions under which it is taken. -/
inductive QueueMove (s : TaskQueue) : QueueAction → TaskQueue → Prop where
  | called (t : Thread) (front : Bool) (hcur : t.currentThread = true) :
    QueueMove s (.async t front true) { s with inlined := s.inlined ++ [s.nextTask], nextTask := s.nextTask + 1 }
  | inserted (t : Thread) (front maySync : Bool) (hun : t ∉ s.unwritten)
    (hcalls : t = .poller → s.pc.callsOut = true) :
    QueueMove s (.async t front maySync) { s.insertTask front with unwritten := insert t s.unwritten }
  | written (t : Thread) (hun : t ∈ s.unwritten) :
    QueueMove s (.writePipe t) { s with unwritten := s.unwritten.erase t, pipe := s.pipe + 1 }
  | cancelled (task : Nat) : QueueMove s (.cancel task) { s with cancelled := insert task s.cancelled }
  | slept (hpc : s.pc = .scheduling) (hun : .poller ∉ s.unwritten) : QueueMove s .sleep { s with pc := .waiting }
  | woken (pipeEvent : Bool) (hpc : s.pc = .waiting) (hpipe : pipeEvent = true → 0 < s.pipe) :
    QueueMove s (.wake pipeEvent) { s with pc := .dispatching pipeEvent }
  | pipeEvent (hpc : s.pc = .dispatching true) (hun : .poller ∉ s.unwritten) :
    QueueMove s .onPipeEvent { s with pc := .draining }
  | drained (hpc : s.pc = .draining) (hpipe : s.pipe = 0) : QueueMove s .read { s with pc := .swapping }
  | read (hpc : s.pc = .draining) (hpipe : 0 < s.pipe) :
    QueueMove s .read { s with pipe := s.pipe - min 1024 s.pipe }
  | nothing (hpc : s.pc = .swapping) (htasks : s.tasks = []) : QueueMove s .swap { s with pc := .dispatching false }
  | swapped (hpc : s.pc = .swapping) :
    QueueMove s .swap { s with tasks := [], batches := s.batches ++ [s.tasks], pc := .batch s.tasks }
  | batchDone (hpc : s.pc = .batch []) : QueueMove s .next { s with pc := .dispatching false }
  | skipped (x : Nat) (rest : List Nat) (hpc : s.pc = .batch (x :: rest)) (hcan : x ∈ s.cancelled) :
    QueueMove s .next { s with handled := s.handled ++ [(x, false)], pc := .batch rest }
  | started (x : Nat) (rest : List Nat) (hpc : s.pc = .batch (x :: rest)) (hcan : x ∉ s.cancelled) :
    QueueMove s .next { s with handled := s.handled ++ [(x, true)], pc := .running x rest }
  | finished (o : TaskOutcome) (x : Nat) (rest : List Nat) (hpc : s.pc = .running x rest)
    (hun : .poller ∉ s.unwritten) :
    QueueMove s (.finish o) { s with exit := s.exit || o = .throwsExit, pc := .batch rest }
  | exited (hpc : s.pc = .dispatching false) (hun : .poller ∉ s.unwritten) (hexit : s.exit = true) :
    QueueMove s .testExit { s with pc := .stopped }
  | looped (hpc : s.pc = .dispatching false) (hun : .poller ∉ s.unwritten) :
    QueueMove s .testExit { s with pc := .scheduling }

private theorem nextOfBatch_move {s t : TaskQueue} (h : s.nextOfBatch = some t) : QueueMove s .next t := by
  unfold TaskQueue.nextOfBatch at h
  split at h
  · rename_i hpc
    obtain rfl := Option.some.inj h
    exact .batchDone hpc
  · rename_i x rest hpc
    split at h <;> rename_i hcan <;> obtain rfl := Option.some.inj h
    · exact .skipped x rest hpc hcan
    · exact .started x rest hpc hcan
  · cases h

private theorem finishTask_move {s t : TaskQueue} {o : TaskOutcome} (h : s.finishTask o = some t) :
    QueueMove s (.finish o) t := by
  unfold TaskQueue.finishTask at h
  split at h
  · rename_i x rest hpc
    split at h
    · cases h
    · rename_i hun
      obtain rfl := Option.some.inj h
      exact .finished o x rest hpc hun
  · cases h

private theorem async_move {s u : TaskQueue} {t : Thread} {front maySync : Bool}
    (h : s.step (.async t front maySync) = some u) : QueueMove s (.async t front maySync) u := by
  simp only [TaskQueue.step] at h
  split at h
  · cases h
  · rename_i hen
    rw [not_or, not_and, Bool.not_eq_false] at hen
    split at h <;> obtain rfl := Option.some.inj h
    · rename_i hsync
      obtain ⟨rfl, hcur⟩ := Bool.and_eq_true_iff.1 hsync
      exact .called t front hcur
    · exact .inserted t front maySync hen.1 hen.2

theorem step_move {s t : TaskQueue} {a : QueueAction} (h : s.step a = some t) : QueueMove s a t := by
  cases a with
  | async t front maySync => exact async_move h
  | next => exact nextOfBatch_move h
  | finish o => exact finishTask_move h
  | writePipe t =>
    obtain ⟨hun, rfl⟩ := by simpa [TaskQueue.step] using h
    exact .written t hun
  | cancel task =>
    obtain ⟨-, rfl⟩ := by simpa [TaskQueue.step] using h
    exact .cancelled task
  | sleep =>
    obtain ⟨⟨hpc, hun⟩, rfl⟩ := by simpa [TaskQueue.step] using h
    exact .slept hpc hun
  | wake pipeEvent =>
    obtain ⟨⟨hpc, hpipe⟩, rfl⟩ := by simpa [TaskQueue.step] using h
    exact .woken pipeEvent hpc hpipe
  | onPipeEvent =>
    obtain ⟨⟨hpc, hun⟩, rfl⟩ := by simpa [TaskQueue.step] using h
    exact .pipeEvent hpc hun
  | read =>
    simp only [TaskQueue.step, Option.ite_none_right_eq_some] at h
    obtain ⟨hpc, h⟩ := h
    split at h <;> rename_i hpipe <;> obtain rfl := Option.some.inj h
    · exact .drained hpc hpipe
    · exact .read hpc (Nat.pos_of_ne_zero hpipe)
  | swap =>
    simp only [TaskQueue.step, Option.ite_none_right_eq_some] at h
    obtain ⟨hpc, h⟩ := h
    split at h <;> rename_i htasks <;> obtain rfl := Option.some.inj h
    · exact .nothing hpc htasks
    · exact .swapped hpc
  | testExit =>
    simp only [TaskQueue.step, Option.ite_none_right_eq_some] at h
    obtain ⟨⟨hpc, hun⟩, h⟩ := h
    split at h <;> rename_i hexit <;> obtain rfl := Option.some.inj h
    · exact .exited hpc hun hexit
    · exact .looped hpc hun

/-! ### Where the tasks are -/

theorem DequeOrder.nil (fronts : Finset Nat) : DequeOrder fronts [] :=
  ⟨[], [], rfl, .nil, .nil, by simp, by simp⟩

private theorem DequeOrder.push_back {fronts : Finset Nat} {l : List Nat} {n : Nat} (h : DequeOrder fronts l)
    (hlt : ∀ x ∈ l, x < n) (hn : n ∉ fronts) : DequeOrder fronts (l ++ [n]) := by
  obtain ⟨f, b, rfl, hf, hb, hff, hbf⟩ := h
  refine ⟨f, b ++ [n], by rw [List.append_assoc], hf, ?_, hff, ?_⟩
  · rw [List.pairwise_append]
    refine ⟨hb, List.pairwise_singleton _ _, ?_⟩
    intro x hx y hy
    rw [List.mem_singleton.1 hy]
    exact hlt x (List.mem_append_right f hx)
  · intro x hx
    rcases List.mem_append.1 hx with hx | hx
    · exact hbf x hx
    · rw [List.mem_singleton.1 hx]
      exact hn

/-- A list of older tasks keeps its order when another task is put to the front of the queue. -/
private theorem DequeOrder.insert_fronts {fronts : Finset Nat} {l : List Nat} {n : Nat} (h : DequeOrder fronts l)
    (hlt : ∀ x ∈ l, x < n) : DequeOrder (insert n fronts) l := by
  obtain ⟨f, b, rfl, hf, hb, hff, hbf⟩ := h
  refine ⟨f, b, rfl, hf, hb, fun x hx => Finset.mem_insert_of_mem (hff x hx), ?_⟩
  intro x hx hmem
  rcases Finset.mem_insert.1 hmem with rfl | hmem
  · exact absurd (hlt x (List.mem_append_right f hx)) (Nat.lt_irrefl x)
  · exact hbf x hx hmem

private theorem DequeOrder.push_front {fronts : Finset Nat} {l : List Nat} {n : Nat} (h : DequeOrder fronts l)
    (hlt : ∀ x ∈ l, x < n) : DequeOrder (insert n fronts) (n :: l) := by
  obtain ⟨f, b, rfl, hf, hb, hff, hbf⟩ := h.insert_fronts hlt
  refine ⟨n :: f, b, rfl, ?_, hb, ?_, hbf⟩
  · rw [List.pairwise_cons]
    exact ⟨fun x hx => hlt x (List.mem_append_left b hx), hf⟩
  · intro x hx
    rcases List.mem_cons.1 hx with rfl | hx
    · exact Finset.mem_insert_self x fronts
    · exact hff x hx

theorem Bookkeeping.lt_nextTask {s : TaskQueue} (h : Bookkeeping s) {x : Nat}
    (hx : x ∈ s.inlined ++ s.batches.flatten ++ s.tasks) : x < s.nextTask :=
  List.mem_range.1 (h.taken_once.mem_iff.1 hx)

theorem Bookkeeping.tasks_lt {s : TaskQueue} (h : Bookkeeping s) : ∀ x ∈ s.tasks, x < s.nextTask :=
  fun _ hx => h.lt_nextTask (List.mem_append_right _ hx)

private theorem Bookkeeping.batch_lt {s : TaskQueue} (h : Bookkeeping s) {b : List Nat} (hb : b ∈ s.batches) :
    ∀ x ∈ b, x < s.nextTask := fun _ hx =>
  h.lt_nextTask (List.mem_append_left _ (List.mem_append_right _ (List.mem_flatten.2 ⟨b, hb, hx⟩)))

private theorem perm_range_succ {l l' : List Nat} {n : Nat} (h : l.Perm (List.range n)) (hl : l'.Perm (l ++ [n])) :
    l'.Perm (List.range (n + 1)) := by
  rw [List.range_succ]
  exact hl.trans (h.append_right [n])

theorem Bookkeeping.called {s : TaskQueue} (h : Bookkeeping s) :
    Bookkeeping { s with inlined := s.inlined ++ [s.nextTask], nextTask := s.nextTask + 1 } where
  taken_once := by
    refine perm_range_succ h.taken_once ?_
    rw [List.append_assoc, List.append_assoc, List.append_assoc, List.append_assoc]
    exact (List.perm_append_comm.append_left s.inlined).trans (by rw [List.append_assoc])
  run_in_order := h.run_in_order
  skipped := h.skipped
  tasks_order := h.tasks_order
  batches_order := h.batches_order
  fronts_lt := fun x hx => Nat.lt_succ_of_lt (h.fronts_lt x hx)

theorem Bookkeeping.inserted {s : TaskQueue} (h : Bookkeeping s) (front : Bool) : Bookkeeping (s.insertTask front) := by
  cases front with
  | false =>
    have hfresh : s.nextTask ∉ s.fronts := fun hmem => Nat.lt_irrefl _ (h.fronts_lt _ hmem)
    exact
      { taken_once := perm_range_succ h.taken_once (by simp [TaskQueue.insertTask])
        run_in_order := h.run_in_order
        skipped := h.skipped
        tasks_order := h.tasks_order.push_back h.tasks_lt hfresh
        batches_order := h.batches_order
        fronts_lt := fun x hx => Nat.lt_succ_of_lt (h.fronts_lt x hx) }
  | true =>
    exact
      { taken_once := by
          -- the number is the last of the range, the task the first of the list
          refine perm_range_succ h.taken_once (List.perm_middle.trans ?_)
          exact (List.perm_append_singleton _ _).symm
        run_in_order := h.run_in_order
        skipped := h.skipped
        tasks_order := h.tasks_order.push_front h.tasks_lt
        batches_order := fun b hb => (h.batches_order b hb).insert_fronts (h.batch_lt hb)
        fronts_lt := by
          intro x hx
          rcases Finset.mem_insert.1 hx with rfl | hx
          · exact Nat.lt_succ_self _
          · exact Nat.lt_succ_of_lt (h.fronts_lt x hx) }

theorem Bookkeeping.swapped {s : TaskQueue} (h : Bookkeeping s) (hpc : s.pc = .swapping) :
    Bookkeeping { s with tasks := [], batches := s.batches ++ [s.tasks], pc := .batch s.tasks } where
  taken_once := by simpa using h.taken_once
  run_in_order := by
    have hrun : s.handled.map Prod.fst = s.batches.flatten := by simpa [hpc, PollerPc.rest] using h.run_in_order
    simp [hrun, PollerPc.rest]
  skipped := h.skipped
  tasks_order := .nil _
  batches_order := by
    intro b hb
    rcases List.mem_append.1 hb with hb | hb
    · exact h.batches_order b hb
    · rw [List.mem_singleton.1 hb]
      exact h.tasks_order
  fronts_lt := h.fronts_lt

/-- The poller comes to the next task of the batch, which it runs unless it is cancelled. -/
theorem Bookkeeping.handle {s : TaskQueue} (h : Bookkeeping s) {x : Nat} {rest : List Nat} {pc : PollerPc}
    (hpc : s.pc = .batch (x :: rest)) (hrest : pc.rest = rest) {ran : Bool} (hran : ran = false → x ∈ s.cancelled) :
    Bookkeeping { s with handled := s.handled ++ [(x, ran)], pc := pc } where
  taken_once := h.taken_once
  run_in_order := by
    have hrun : s.handled.map Prod.fst ++ x :: rest = s.batches.flatten := by
      simpa [hpc, PollerPc.rest] using h.run_in_order
    simpa [hrest] using hrun
  skipped := by
    intro y hy
    rcases List.mem_append.1 hy with hy | hy
    · exact h.skipped y hy
    · obtain ⟨rfl, rfl⟩ := Prod.mk.inj (List.mem_singleton.1 hy)
      exact hran rfl
  tasks_order := h.tasks_order
  batches_order := h.batches_order
  fronts_lt := h.fronts_lt

/-- The bookkeeping does not depend on where the poller is, as long as the rest of its batch is the same. -/
theorem Bookkeeping.move {s : TaskQueue} (h : Bookkeeping s) {pc : PollerPc} (hrest : pc.rest = s.pc.rest)
    (pipe : Nat) (unwritten : Finset Thread) (exit : Bool) :
    Bookkeeping { s with pc := pc, pipe := pipe, unwritten := unwritten, exit := exit } where
  taken_once := h.taken_once
  run_in_order := by rw [hrest]; exact h.run_in_order
  skipped := h.skipped
  tasks_order := h.tasks_order
  batches_order := h.batches_order
  fronts_lt := h.fronts_lt

private theorem step_bookkeeping (s : TaskQueue) (a : QueueAction) (t : TaskQueue) (h : Bookkeeping s)
    (hstep : s.step a = some t) : Bookkeeping t := by
  cases step_move hstep with
  | called t front => exact h.called
  | inserted t front maySync => exact (h.inserted front).move rfl _ _ _
  | cancelled task =>
    exact { h with skipped := fun x hx => Finset.mem_insert_of_mem (h.skipped x hx) }
  | swapped hpc => exact h.swapped hpc
  | skipped x rest hpc hcan => exact h.handle hpc rfl fun _ => hcan
  | started x rest hpc hcan => exact h.handle hpc rfl nofun
  | written t => exact h.move rfl _ _ _
  | read => exact h.move rfl _ _ _
  | slept hpc => exact h.move (by rw [hpc]; rfl) _ _ _
  | woken pipeEvent hpc => exact h.move (by rw [hpc]; rfl) _ _ _
  | pipeEvent hpc => exact h.move (by rw [hpc]; rfl) _ _ _
  | drained hpc => exact h.move (by rw [hpc]; rfl) _ _ _
  | nothing hpc => exact h.move (by rw [hpc]; rfl) _ _ _
  | batchDone hpc => exact h.move (by rw [hpc]; rfl) _ _ _
  | finished o x rest hpc => exact h.move (by rw [hpc]; rfl) _ _ _
  | exited hpc => exact h.move (by rw [hpc]; rfl) _ _ _
  | looped hpc => exact h.move (by rw [hpc]; rfl) _ _ _

/-! ### Wake-ups -/

/-- A task in the list is followed by a wake-up, unless the poller is about to take the list anyway. -/
structure WakePending (s : TaskQueue) : Prop where
  wake : s.pc ≠ .draining → s.pc ≠ .swapping → s.tasks ≠ [] → 0 < s.pipe ∨ s.unwritten.Nonempty
  poller_calls : .poller ∈ s.unwritten → s.pc.callsOut = true
  pipe_event : s.pc = .dispatching true → 0 < s.pipe

private theorem WakePending.poller_written {s : TaskQueue} (h : WakePending s) (hpc : s.pc.callsOut = false) :
    .poller ∉ s.unwritten := fun hmem => by
  rw [h.poller_calls hmem] at hpc
  cases hpc

/-- The poller goes on from a place where a wake-up is pending. -/
theorem WakePending.move {s : TaskQueue} (h : WakePending s) {pc : PollerPc} (hd : s.pc ≠ .draining)
    (hs : s.pc ≠ .swapping) (hcalls : pc.callsOut = true ∨ .poller ∉ s.unwritten)
    (hpipe : pc = .dispatching true → 0 < s.pipe) (exit : Bool) (handled : List (Nat × Bool)) :
    WakePending { s with pc := pc, exit := exit, handled := handled } where
  wake := fun _ _ => h.wake hd hs
  poller_calls := fun hmem => hcalls.resolve_right fun hun => hun hmem
  pipe_event := hpipe

/-- The poller goes on with an empty list or goes to take it. -/
theorem WakePending.take {s : TaskQueue} (h : WakePending s) {pc : PollerPc} {tasks : List Nat}
    (hcalls : s.pc.callsOut = false) (htasks : tasks = [] ∨ pc = .swapping) (hpipe : pc ≠ .dispatching true)
    (batches : List (List Nat)) : WakePending { s with pc := pc, tasks := tasks, batches := batches } where
  wake := fun _ hs hne => by
    rcases htasks with htasks | htasks
    · exact absurd htasks hne
    · exact absurd htasks hs
  poller_calls := fun hmem => absurd hmem (h.poller_written hcalls)
  pipe_event := fun he => absurd he hpipe

theorem WakePending.inserted {s : TaskQueue} (h : WakePending s) {t : Thread} (front : Bool)
    (hcalls : t = .poller → s.pc.callsOut = true) :
    WakePending { s.insertTask front with unwritten := insert t s.unwritten } := by
  have hpc : (s.insertTask front).pc = s.pc := by cases front <;> rfl
  have hpipe : (s.insertTask front).pipe = s.pipe := by cases front <;> rfl
  refine ⟨fun _ _ _ => .inr (Finset.insert_nonempty t s.unwritten), ?_, ?_⟩
  · intro hmem
    rw [hpc]
    rcases Finset.mem_insert.1 hmem with rfl | hmem
    · exact hcalls rfl
    · exact h.poller_calls hmem
  · rw [hpc, hpipe]
    exact h.pipe_event

private theorem step_wakePending (s : TaskQueue) (a : QueueAction) (t : TaskQueue) (h : WakePending s)
    (hstep : s.step a = some t) : WakePending t := by
  cases step_move hstep with
  | called t front => exact ⟨h.wake, h.poller_calls, h.pipe_event⟩
  | inserted t front maySync hun hcalls => exact h.inserted front hcalls
  | cancelled task => exact ⟨h.wake, h.poller_calls, h.pipe_event⟩
  | written t =>
    exact ⟨fun _ _ _ => .inl (Nat.succ_pos _), fun hmem => h.poller_calls (Finset.mem_of_mem_erase hmem),
      fun _ => Nat.succ_pos _⟩
  | slept hpc hun => exact h.move (by simp [hpc]) (by simp [hpc]) (.inr hun) (by nofun) _ _
  | woken pipeEvent hpc hpipe =>
    exact h.move (by simp [hpc]) (by simp [hpc]) (.inl rfl) (fun he => hpipe (PollerPc.dispatching.inj he)) _ _
  | pipeEvent hpc hun => exact ⟨fun hne => absurd rfl hne, fun hmem => absurd hmem hun, nofun⟩
  | read hpc =>
    exact ⟨fun hne => absurd hpc hne, h.poller_calls, fun he => by rw [hpc] at he; cases he⟩
  | drained hpc => exact h.take (by rw [hpc]; rfl) (.inr rfl) (by nofun) _
  | nothing hpc htasks => exact h.take (by rw [hpc]; rfl) (.inl htasks) (by nofun) _
  | swapped hpc => exact h.take (by rw [hpc]; rfl) (.inl rfl) (by nofun) _
  | batchDone hpc => exact h.move (by simp [hpc]) (by simp [hpc]) (.inl rfl) (by nofun) _ _
  | skipped x rest hpc =>
    exact h.move (by simp [hpc]) (by simp [hpc]) (.inr (h.poller_written (by rw [hpc]; rfl))) (by nofun) _ _
  | started x rest hpc => exact h.move (by simp [hpc]) (by simp [hpc]) (.inl rfl) (by nofun) _ _
  | finished o x rest hpc hun => exact h.move (by simp [hpc]) (by simp [hpc]) (.inr hun) (by nofun) _ _
  | exited hpc hun => exact h.move (by simp [hpc]) (by simp [hpc]) (.inr hun) (by nofun) _ _
  | looped hpc hun => exact h.move (by simp [hpc]) (by simp [hpc]) (.inl rfl) (by nofun) _ _

/-- A blocked poller has not inserted anything itself, so the thread that is about to write is a producer. -/
private theorem WakePending.noLostWakeup {s : TaskQueue} (h : WakePending s) : NoLostWakeup s := by
  intro hpc htasks
  rcases h.wake (by simp [hpc]) (by simp [hpc]) htasks with hpipe | ⟨t, ht⟩
  · exact .inl hpipe
  · cases t with
    | poller => simpa [hpc, PollerPc.callsOut] using h.poller_calls ht
    | producer n => exact .inr ⟨n, ht⟩

/-! ### Cancelled tasks -/

private theorem step_cancelled {x : Nat} (s : TaskQueue) (a : QueueAction) (t : TaskQueue)
    (h : x ∈ s.cancelled ∧ (x, true) ∉ s.handled) (hstep : s.step a = some t) :
    x ∈ t.cancelled ∧ (x, true) ∉ t.handled := by
  obtain ⟨hcan, hran⟩ := h
  cases step_move hstep with
  | inserted t front => cases front <;> exact ⟨hcan, hran⟩
  | cancelled task => exact ⟨Finset.mem_insert_of_mem hcan, hran⟩
  | skipped y rest hpc => exact ⟨hcan, by simpa using hran⟩
  | started y rest hpc hy =>
    refine ⟨hcan, ?_⟩
    intro hmem
    rcases List.mem_append.1 hmem with hmem | hmem
    · exact hran hmem
    · obtain ⟨rfl, -⟩ := Prod.mk.inj (List.mem_singleton.1 hmem)
      exact hy hcan
  | _ => exact ⟨hcan, hran⟩

private theorem cancelledNotRun (s : TaskQueue) : CancelledNotRun s := by
  intro x hcan hran as t hrun
  exact (Transition.exec_invariant (step_cancelled (x := x)) ⟨hcan, hran⟩ hrun).2

/-! ### Progress -/

private theorem step_stopped (s : TaskQueue) (a : QueueAction) (t : TaskQueue) (h : s.pc = .stopped → s.exit = true)
    (hstep : s.step a = some t) : t.pc = .stopped → t.exit = true := by
  cases step_move hstep with
  | inserted t front => cases front <;> exact h
  | read hpc => exact h
  | exited hpc hun hexit => exact fun _ => hexit
  | called => exact h
  | written => exact h
  | cancelled => exact h
  | _ => nofun

/-- A bound for the steps that the poller needs from here until it blocks. -/
def PollerPc.effort (pipe : Nat) : PollerPc → Nat
  | .scheduling => 12
  | .waiting => 10
  | .dispatching pipeEvent => if pipeEvent then 9 else 13
  | .draining => if pipe = 0 then 16 else 8
  | .swapping => 15
  | .batch rest => 14 + 2 * rest.length
  | .running _ rest => 15 + 2 * rest.length
  | .stopped => 0

/-- Every byte in the pipe may cost another round of the loop. -/
def TaskQueue.effort (s : TaskQueue) : Nat :=
  21 * s.unwritten.card + 20 * s.pipe + 2 * s.tasks.length + s.pc.effort s.pipe

theorem step_effort {s t : TaskQueue} {a : QueueAction} (h : WakePending s) (ha : a.completes = true)
    (hstep : s.step a = some t) : t.effort < s.effort := by
  cases step_move hstep with
  | called => cases ha
  | inserted => cases ha
  | cancelled => cases ha
  | written t hun =>
    have hcard := Finset.card_erase_add_one hun
    have hpc : s.pc.effort (s.pipe + 1) ≤ s.pc.effort s.pipe := by
      cases s.pc <;> simp [PollerPc.effort]
      split <;> omega
    simp only [TaskQueue.effort]
    omega
  | slept hpc => simp [TaskQueue.effort, hpc, PollerPc.effort]
  | woken pipeEvent hpc =>
    obtain rfl : pipeEvent = true := ha
    simp [TaskQueue.effort, hpc, PollerPc.effort]
  | pipeEvent hpc =>
    have hpipe := h.pipe_event hpc
    simp [TaskQueue.effort, hpc, PollerPc.effort, Nat.pos_iff_ne_zero.1 hpipe]
  | drained hpc hpipe => simp [TaskQueue.effort, hpc, hpipe, PollerPc.effort]
  | read hpc hpipe =>
    simp only [TaskQueue.effort, hpc, PollerPc.effort]
    split <;> split <;> omega
  | nothing hpc => simp [TaskQueue.effort, hpc, PollerPc.effort]
  | swapped hpc => simp [TaskQueue.effort, hpc, PollerPc.effort]; omega
  | batchDone hpc => simp [TaskQueue.effort, hpc, PollerPc.effort]
  | skipped x rest hpc => simp [TaskQueue.effort, hpc, PollerPc.effort]
  | started x rest hpc => simp [TaskQueue.effort, hpc, PollerPc.effort]; omega
  | finished o x rest hpc => simp [TaskQueue.effort, hpc, PollerPc.effort]
  | exited hpc => simp [TaskQueue.effort, hpc, PollerPc.effort]
  | looped hpc => simp [TaskQueue.effort, hpc, PollerPc.effort]

/-- A poller that cannot go on has ended the loop, or it is blocked with an empty pipe and no producer is about to
write. -/
theorem rest_of_stuck {s : TaskQueue} (hstuck : ∀ a, a.completes = true → s.step a = none) :
    s.pc = .stopped ∨ s.pc = .waiting ∧ s.pipe = 0 ∧ s.unwritten = ∅ := by
  have hun : s.unwritten = ∅ := by
    by_contra hne
    obtain ⟨t, ht⟩ := Finset.nonempty_iff_ne_empty.2 hne
    simpa [TaskQueue.step, ht] using hstuck (.writePipe t) rfl
  have hpoller : Thread.poller ∉ s.unwritten := by simp [hun]
  cases hpc : s.pc with
  | stopped => exact .inl rfl
  | waiting =>
    refine .inr ⟨rfl, ?_, hun⟩
    by_contra hne
    simpa [TaskQueue.step, hpc, Nat.pos_of_ne_zero hne] using hstuck (.wake true) rfl
  | scheduling => simpa [TaskQueue.step, hpc, hpoller] using hstuck .sleep rfl
  | dispatching pipeEvent =>
    cases pipeEvent with
    | true => simpa [TaskQueue.step, hpc, hpoller] using hstuck .onPipeEvent rfl
    | false =>
      have hnone := hstuck .testExit rfl
      simp only [TaskQueue.step, hpc, hpoller, not_false_eq_true, and_self, ↓reduceIte] at hnone
      split at hnone <;> cases hnone
  | draining =>
    have hnone := hstuck .read rfl
    simp only [TaskQueue.step, hpc, ↓reduceIte] at hnone
    split at hnone <;> cases hnone
  | swapping =>
    have hnone := hstuck .swap rfl
    simp only [TaskQueue.step, hpc, ↓reduceIte] at hnone
    split at hnone <;> cases hnone
  | batch rest =>
    have hnone : s.nextOfBatch = none := hstuck .next rfl
    cases rest with
    | nil => simp [TaskQueue.nextOfBatch, hpc] at hnone
    | cons x rest =>
      simp only [TaskQueue.nextOfBatch, hpc] at hnone
      split at hnone <;> cases hnone
  | running x rest =>
    have hnone : s.finishTask .returns = none := hstuck (.finish .returns) rfl
    simp [TaskQueue.finishTask, hpc, hpoller] at hnone

theorem allHandled_of_rest {s : TaskQueue} (hb : Bookkeeping s) (hw : WakePending s) (hpc : s.pc = .waiting)
    (hpipe : s.pipe = 0) (hun : s.unwritten = ∅) : AllHandled s := by
  have htasks : s.tasks = [] := by
    by_contra hne
    have hwake := hw.wake (by simp [hpc]) (by simp [hpc]) hne
    simp [hpipe, hun] at hwake
  have hrun : s.handled.map Prod.fst = s.batches.flatten := by simpa [hpc, PollerPc.rest] using hb.run_in_order
  refine ⟨htasks, ?_⟩
  rw [hrun]
  simpa [htasks] using hb.taken_once

/-! ### Runs -/

structure QueueInv (s : TaskQueue) : Prop where
  bookkeeping : Bookkeeping s
  wakePending : WakePending s
  stopped : s.pc = .stopped → s.exit = true

theorem QueueInv.init : QueueInv .init where
  bookkeeping := ⟨.refl _, rfl, by simp [TaskQueue.init], .nil _, by simp [TaskQueue.init], by simp [TaskQueue.init]⟩
  wakePending := ⟨fun _ _ hne => absurd rfl hne, by simp [TaskQueue.init], nofun⟩
  stopped := nofun

theorem step_queueInv (s : TaskQueue) (a : QueueAction) (t : TaskQueue) (h : QueueInv s) (hstep : s.step a = some t) :
    QueueInv t :=
  ⟨step_bookkeeping s a t h.bookkeeping hstep, step_wakePending s a t h.wakePending hstep,
    step_stopped s a t h.stopped hstep⟩

theorem exec_effort {s t : TaskQueue} {as : List QueueAction} (h : QueueInv s)
    (has : ∀ a ∈ as, a.completes = true) (hrun : Transition.exec TaskQueue.step s as = some t) :
    as.length + t.effort ≤ s.effort :=
  Transition.exec_measure step_queueInv (fun _ _ _ h ha hstep => step_effort h.wakePending ha hstep) h has hrun

private theorem QueueInv.delivers {s : TaskQueue} (h : QueueInv s) : Delivers s := by
  refine ⟨s.effort, fun as t has hrun => ⟨?_, fun hstuck => ?_⟩⟩
  · have := exec_effort h has hrun
    omega
  · have ht : QueueInv t := Transition.exec_invariant step_queueInv h hrun
    -- blocked with an empty pipe, the poller has no task in the list, since a wake-up would be pending
    rcases rest_of_stuck hstuck with hpc | ⟨hpc, hpipe, hun⟩
    · exact .inl (ht.stopped hpc)
    · exact .inr (allHandled_of_rest ht.bookkeeping ht.wakePending hpc hpipe hun)

/-- What a step does to the numbers of the tasks. -/
theorem handedIn_step {s t : TaskQueue} {a : QueueAction} (h : s.step a = some t) :
    t.nextTask = s.nextTask + a.call.toList.length ∧
      (∀ x, x ∈ t.inlined ↔ x ∈ s.inlined ∨ x = s.nextTask ∧ ∃ front, a.call = some (true, front)) ∧
      (∀ x, x ∈ t.fronts ↔ x ∈ s.fronts ∨ x = s.nextTask ∧ a.call = some (false, true)) ∧
      ∀ x, x ∈ t.cancelled ↔ x ∈ s.cancelled ∨ a = .cancel x := by
  cases a with
  | async u front maySync =>
    simp only [TaskQueue.step] at h
    split at h
    · cases h
    · split at h <;> obtain rfl := Option.some.inj h <;> rename_i hcall
      · simp [QueueAction.call, hcall]
      · cases front <;> simp [QueueAction.call, hcall, TaskQueue.insertTask, or_comm]
  | cancel task =>
    cases step_move h with
    | cancelled => simp [QueueAction.call, or_comm, eq_comm]
  | _ => cases step_move h <;> simp [QueueAction.call]

theorem HandedIn.concat {as : List QueueAction} {s t : TaskQueue} {a : QueueAction} (hs : HandedIn as s)
    (h : s.step a = some t) : HandedIn (as ++ [a]) t := by
  obtain ⟨hnext, hinlined, hfronts, hcancelled⟩ := handedIn_step h
  refine ⟨?_, fun x => ?_, fun x => ?_, fun x => ?_⟩
  · rw [Transition.filterMap_concat, List.length_append, hnext, hs.count]
  · simp only [hinlined, hs.inlined_iff, hs.count, Transition.filterMap_concat, Transition.getElem?_append_toList,
      exists_or, exists_and_left]
  · rw [hfronts, hs.fronts_iff, hs.count, Transition.filterMap_concat, Transition.getElem?_append_toList]
  · rw [hcancelled, hs.cancelled_iff, List.mem_append, List.mem_singleton, eq_comm (a := a)]

private theorem handedIn_exec {as : List QueueAction} {s : TaskQueue}
    (h : Transition.exec TaskQueue.step .init as = some s) : HandedIn as s := by
  have hinit : HandedIn [] .init := ⟨rfl, by simp [TaskQueue.init], by simp [TaskQueue.init], by simp [TaskQueue.init]⟩
  exact Transition.exec_history (fun _ _ _ _ hs hst => hs.concat hst) hinit h

/-- In every state that any interleaving of the producers, the poller and its tasks can reach, the tasks are where
they should be, no wake-up is lost, and what has been handed in is going to be handled. -/
theorem tasks_run_exactly_once {as : List QueueAction} {s : TaskQueue}
    (hrun : Transition.exec TaskQueue.step .init as = some s) :
    HandedIn as s ∧ Bookkeeping s ∧ NoLostWakeup s ∧ CancelledNotRun s ∧ Delivers s := by
  have h : QueueInv s := Transition.exec_invariant step_queueInv .init hrun
  exact ⟨handedIn_exec hrun, h.bookkeeping, h.wakePending.noLostWakeup, cancelledNotRun s, h.delivers⟩

/-- Two producers, the second one overtaking the first at the front; the second task is cancelled, the first throws. -/
def queueRun : List QueueAction :=
  [.sleep, .async (.producer 0) false true, .async (.producer 1) true true, .writePipe (.producer 1), .wake true,
    .onPipeEvent, .cancel 1, .read, .read, .swap, .next, .next, .finish .throwsOther, .next, .testExit, .sleep]

theorem tasks_run_exactly_once_queueRun :
    ∃ s, Transition.exec TaskQueue.step .init queueRun = some s ∧ s.handled = [(1, false), (0, true)] ∧
      HandedIn queueRun s ∧ Bookkeeping s ∧ NoLostWakeup s ∧ CancelledNotRun s ∧ Delivers s :=
  ⟨_, rfl, rfl, @tasks_run_exactly_once queueRun _ rfl⟩

end AvcTool
