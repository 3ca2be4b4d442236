import Mathlib.Data.List.Nodup
import Mathlib.Data.Multiset.Filter
import Mathlib.Data.Multiset.UnionInter
import AvcTool.Poller.DelayTask
import AvcTool.Poller.TaskQueue
import AvcTool.Thread.TaskCancelable

/-!
# Runs of the delay tasks

Here the passes of `scheduleDelayTask` and the batches of `onPipeEvent` are taken apart into single steps, so that
other threads may hand in and cancel tasks anywhere in between.  A delay task is first a job that inserts it, in
`tasks_` and then in a batch; then it is an entry of `delay_tasks_`; a pass swaps the entries out and walks through
this copy, where every entry is tested, called and perhaps entered again, and puts what is left of it back.  A call
locks `weakTask_` in one step and enters the function in another.

`entries` collects a delay task from all of these places, each with the deadline that it has there.  A step moves an
entry, drops it or gives it a later deadline (`OnSchedule`), and so the invocations are on time (`KeepsTime`).
-/

namespace AvcTool

/-- A task in the queue of the poller: one that was handed in, or the one that inserts a delay task. -/
inductive Job where
  | task (h : Nat)
  | insertion (deadline : UInt64) (h : Nat)
  deriving DecidableEq

def Job.entry : Job → Option (UInt64 × Nat)
  | .task _ => none
  | .insertion deadline h => some (deadline, h)

@[simp] theorem filterMap_entry_task (h : Nat) (l : List Job) :
    (Job.task h :: l).filterMap Job.entry = l.filterMap Job.entry := rfl

@[simp] theorem filterMap_entry_insertion (deadline : UInt64) (h : Nat) (l : List Job) :
    (Job.insertion deadline h :: l).filterMap Job.entry = (deadline, h) :: l.filterMap Job.entry := rfl

inductive PollerEvent where
  | added (h : Nat) (clock : UInt64) (delayMs : Int32)
  | cancelled (h : Nat)
  /-- the function of a task of the queue is called -/
  | started (h : Nat)
  /-- the function of a delay task is called in the given pass, whose clock reading is `now` -/
  | invoked (h pass : Nat) (now : UInt64)
  | returned (h pass : Nat) (now delayMs : UInt64)
  deriving DecidableEq

/-- The delay task of an event. -/
def PollerEvent.delayTask : PollerEvent → Option Nat
  | .added h _ _ => some h
  | .invoked h _ _ => some h
  | .returned h _ _ _ => some h
  | _ => none

/-- What an event means for the handle. -/
def PollerEvent.task : PollerEvent → Option TaskEvent
  | .cancelled h => some (.cancelled h)
  | .started h => some (.started h)
  | .invoked h _ _ => some (.started h)
  | _ => none

/-- Where the poller is.  In a pass, `copy` is what is left of `delay_tasks_copy`, without the entry `e` that the loop
has come to. -/
inductive LoopPc where
  /-- not in `runLoop` -/
  | stopped
  /-- in `epoll_wait` or in a callback of an event -/
  | idle
  | batch (rest : List Job)
  /-- `operator bool` was true -/
  | testedTask (h : Nat) (rest : List Job)
  /-- `weakTask_.lock()` has found the function -/
  | lockedTask (h : Nat) (rest : List Job)
  | runningTask (h : Nat) (rest : List Job)
  | pass (copy : Multimap UInt64 Nat)
  | testedDelay (e : UInt64 × Nat) (copy : Multimap UInt64 Nat)
  | lockedDelay (e : UInt64 × Nat) (copy : Multimap UInt64 Nat)
  | runningDelay (e : UInt64 × Nat) (copy : Multimap UInt64 Nat)

/-- The thread of the poller executes code that may call the poller. -/
def LoopPc.callsOut : LoopPc → Bool
  | .stopped => true
  | .idle => true
  | .runningTask _ _ => true
  | .runningDelay _ _ => true
  | _ => false

/-- The tasks to whose functions the poller refers by `strongTask`. -/
def LoopPc.strongTasks : LoopPc → List Nat
  | .lockedTask h _ => [h]
  | .runningTask h _ => [h]
  | .lockedDelay e _ => [e.2]
  | .runningDelay e _ => [e.2]
  | _ => []

/-- The task whose function the poller has locked and not yet entered. -/
def LoopPc.locked : LoopPc → Option Nat
  | .lockedTask h _ => some h
  | .lockedDelay e _ => some e.2
  | _ => none

structure PollerLoop where
  /-- `thread_` is set -/
  thread : Bool
  clock : UInt64
  /-- `currentMillisecond` of the last pass -/
  reading : UInt64
  passes : Nat
  tasks : List Job
  delayTasks : Multimap UInt64 Nat
  handles : TaskHandles
  pc : LoopPc
  events : List PollerEvent

inductive PollerAction where
  | tick (clock : UInt64)
  | assignThread
  | enterLoop
  | leaveLoop
  | async (t : Thread) (front maySync hasFunction : Bool)
  /-- `reading` is what the call has read from the clock -/
  | addDelayTask (t : Thread) (reading : UInt64) (delayMs : Int32) (hasFunction : Bool)
  | cancel (h : Nat)
  | swapTasks
  | nextTask
  | lockTask
  | callTask
  | finishTask
  | scheduleDelayTask (now : UInt64)
  | nextDelay
  | lockDelay
  | callDelay
  | finishDelay (delayMs : UInt64)
  | throwDelay
  deriving DecidableEq

namespace PollerLoop

def init : PollerLoop :=
  { thread := false, clock := 0, reading := 0, passes := 0, tasks := [], delayTasks := .empty, handles := .init,
    pc := .stopped, events := [] }

def currentThread (s : PollerLoop) (t : Thread) : Bool := if s.thread then t = .poller else true

/-- The threads other than that of the poller may call it at any time. -/
def mayCall (s : PollerLoop) (t : Thread) : Prop := t = .poller → s.pc.callsOut = true

instance decidableMayCall (s : PollerLoop) (t : Thread) : Decidable (s.mayCall t) := by
  unfold mayCall; infer_instance

/-- `async` and `async_first`.  A function that is called at once has no handle. -/
def async (s : PollerLoop) (t : Thread) (front maySync hasFunction : Bool) : PollerLoop :=
  if maySync && s.currentThread t then s
  else { s with
    tasks := if front then .task s.handles.next :: s.tasks else s.tasks ++ [.task s.handles.next]
    handles := s.handles.create hasFunction }

/-- `addDelayTask`, which hands the insertion to `async_first`. -/
def addDelayTask (s : PollerLoop) (t : Thread) (reading : UInt64) (delayMs : Int32) (hasFunction : Bool) :
    PollerLoop :=
  let deadline := delayDeadline reading delayMs
  { s with
    delayTasks := if s.currentThread t then s.delayTasks.emplace deadline s.handles.next else s.delayTasks
    tasks := if s.currentThread t then s.tasks else .insertion deadline s.handles.next :: s.tasks
    handles := s.handles.create hasFunction
    events := s.events ++ [.added s.handles.next reading delayMs] }

/-- One iteration of the loop over the batch, up to `operator bool`.  Nobody has the handle of a job that inserts a
delay task, so its function is always there. -/
def nextOfBatch (s : PollerLoop) : Option PollerLoop :=
  match s.pc with
  | .batch [] => some { s with pc := .idle }
  | .batch (.insertion deadline h :: rest) =>
    some { s with delayTasks := s.delayTasks.emplace deadline h, pc := .batch rest }
  | .batch (.task h :: rest) => some { s with pc := if s.handles.isValid h then .testedTask h rest else .batch rest }
  | _ => none

/-- The beginning of `operator()`, up to the test of the pointer. -/
def lockTask (s : PollerLoop) : Option PollerLoop :=
  match s.pc with
  | .testedTask h rest =>
    some { s with pc := if s.handles.calls s.pc.strongTasks h then .lockedTask h rest else .batch rest }
  | _ => none

def callTask (s : PollerLoop) : Option PollerLoop :=
  match s.pc with
  | .lockedTask h rest => some { s with pc := .runningTask h rest, events := s.events ++ [.started h] }
  | _ => none

/-- The beginning of `scheduleDelayTask`, up to the swap. -/
def scheduleDelayTask (s : PollerLoop) (now : UInt64) : PollerLoop :=
  match s.delayTasks.entries with
  | [] => { s with reading := now, passes := s.passes + 1 }
  | _ :: _ =>
    { s with reading := now, passes := s.passes + 1, delayTasks := .empty, pc := .pass s.delayTasks }

/-- One iteration of the loop over `delay_tasks_copy`, up to `operator bool`, or what comes behind the loop. -/
def nextOfCopy (s : PollerLoop) : Option PollerLoop :=
  match s.pc with
  | .pass copy =>
    match copy.entries with
    | [] => some { s with pc := .idle }
    | e :: es =>
      if e.1 ≤ s.reading then
        some { s with
          pc := if s.handles.isValid e.2 then .testedDelay e copy.eraseBegin else .pass copy.eraseBegin }
      else some { s with delayTasks := s.delayTasks.insertAll (e :: es), pc := .idle }
  | _ => none

/-- A call that does not find the function returns 0. -/
def lockDelay (s : PollerLoop) : Option PollerLoop :=
  match s.pc with
  | .testedDelay e copy =>
    some { s with pc := if s.handles.calls s.pc.strongTasks e.2 then .lockedDelay e copy else .pass copy }
  | _ => none

def callDelay (s : PollerLoop) : Option PollerLoop :=
  match s.pc with
  | .lockedDelay e copy =>
    some { s with pc := .runningDelay e copy, events := s.events ++ [.invoked e.2 s.passes s.reading] }
  | _ => none

def finishDelay (s : PollerLoop) (delayMs : UInt64) : Option PollerLoop :=
  match s.pc with
  | .runningDelay e copy =>
    some { s with
      delayTasks := if 0 < delayMs then s.delayTasks.emplace (s.reading + delayMs) e.2 else s.delayTasks
      pc := .pass copy
      events := s.events ++ [.returned e.2 s.passes s.reading delayMs] }
  | _ => none

def step (s : PollerLoop) : PollerAction → Option PollerLoop
  | .tick clock => if s.clock ≤ clock then some { s with clock := clock } else none
  | .assignThread => some { s with thread := true }
  | .enterLoop =>
    match s.pc with
    | .stopped => some { s with pc := .idle }
    | _ => none
  | .leaveLoop =>
    match s.pc with
    | .idle => some { s with pc := .stopped }
    | _ => none
  | .async t front maySync hasFunction =>
    if s.mayCall t then some (s.async t front maySync hasFunction) else none
  | .addDelayTask t reading delayMs hasFunction =>
    if s.mayCall t ∧ reading ≤ s.clock then some (s.addDelayTask t reading delayMs hasFunction) else none
  | .cancel h =>
    if h < s.handles.next then
      some { s with handles := s.handles.cancel h, events := s.events ++ [.cancelled h] }
    else none
  | .swapTasks =>
    match s.pc with
    | .idle => some { s with tasks := [], pc := .batch s.tasks }
    | _ => none
  | .nextTask => s.nextOfBatch
  | .lockTask => s.lockTask
  | .callTask => s.callTask
  -- exceptions are caught
  | .finishTask =>
    match s.pc with
    | .runningTask _ rest => some { s with pc := .batch rest }
    | _ => none
  | .scheduleDelayTask now =>
    match s.pc with
    | .idle => if s.reading ≤ now ∧ now ≤ s.clock then some (s.scheduleDelayTask now) else none
    | _ => none
  | .nextDelay => s.nextOfCopy
  | .lockDelay => s.lockDelay
  | .callDelay => s.callDelay
  | .finishDelay delayMs => s.finishDelay delayMs
  -- the exception leaves `runLoop`, and the copy is destroyed
  | .throwDelay =>
    match s.pc with
    | .runningDelay _ _ => some { s with pc := .stopped }
    | _ => none

end PollerLoop

/-! ### What is to hold of the invocations -/

/-- What a delay task may expect of its invocations: none comes before the delay is over, one pass makes at most one,
and after a return it takes another delay to the next; a delay of zero is the end. -/
structure KeepsTime (events : List PollerEvent) : Prop where
  added : ∀ h pass now, .invoked h pass now ∈ events → ∃ clock delayMs, .added h clock delayMs ∈ events
  not_early : ∀ h pass now clock delayMs, .invoked h pass now ∈ events → .added h clock delayMs ∈ events →
    clock.toNat + delayMs.toNatClampNeg ≤ now.toNat
  once_per_pass : events.Pairwise fun a b => ∀ h pass now now', a = .invoked h pass now → b ≠ .invoked h pass now'
  spaced : events.Pairwise fun a b => ∀ h pass pass' now now' delayMs, a = .returned h pass now delayMs →
    b = .invoked h pass' now' → 0 < delayMs ∧ now.toNat + delayMs.toNat ≤ now'.toNat

/-- The delays are not negative and the deadlines are below 2^64. -/
def InRange (s : PollerLoop) : PollerAction → Prop
  | .addDelayTask _ reading delayMs _ => 0 ≤ delayMs ∧ reading.toNat + delayMs.toNatClampNeg < 2 ^ 64
  | .finishDelay delayMs => s.reading.toNat + delayMs.toNat < 2 ^ 64
  | _ => True

instance decidableInRange (s : PollerLoop) (a : PollerAction) : Decidable (InRange s a) := by
  unfold InRange; split <;> infer_instance

/-! ### Where the delay tasks are -/

/-- The entries that the pass has yet to drop, to enter again or to leave for the next one. -/
def LoopPc.walk : LoopPc → Multiset (UInt64 × Nat)
  | .pass copy => copy.bag
  | .testedDelay e copy => e ::ₘ copy.bag
  | .lockedDelay e copy => e ::ₘ copy.bag
  | .runningDelay e copy => e ::ₘ copy.bag
  | _ => 0

/-- Those of them that it may still invoke. -/
def LoopPc.ahead : LoopPc → Multiset (UInt64 × Nat)
  | .pass copy => copy.bag
  | .testedDelay e copy => e ::ₘ copy.bag
  | .lockedDelay e copy => e ::ₘ copy.bag
  | .runningDelay _ copy => copy.bag
  | _ => 0

/-- The entry that the loop has come to. -/
def LoopPc.current : LoopPc → Option (UInt64 × Nat)
  | .testedDelay e _ => some e
  | .lockedDelay e _ => some e
  | .runningDelay e _ => some e
  | _ => none

/-- The batch that the poller has not come to. -/
def LoopPc.jobs : LoopPc → List Job
  | .batch rest => rest
  | .testedTask _ rest => rest
  | .lockedTask _ rest => rest
  | .runningTask _ rest => rest
  | _ => []

namespace PollerLoop

/-- The entries outside of the pass. -/
def waiting (s : PollerLoop) : Multiset (UInt64 × Nat) :=
  ↑(s.tasks.filterMap Job.entry) + ↑(s.pc.jobs.filterMap Job.entry) + s.delayTasks.bag

def entries (s : PollerLoop) : Multiset (UInt64 × Nat) := s.waiting + s.pc.walk

end PollerLoop

theorem LoopPc.ahead_le_walk (pc : LoopPc) : pc.ahead ≤ pc.walk := by
  cases pc with
  | runningDelay e copy => exact Multiset.le_cons_self _ _
  | _ => exact le_refl _

inductive PollerEffect (s : PollerLoop) : PollerAction → PollerLoop → Prop where
  | quiet (a : PollerAction) (t : PollerLoop) (hwait : t.waiting = s.waiting) (hwalk : t.pc.walk = s.pc.walk)
    (hahead : t.pc.ahead = s.pc.ahead) (hcurrent : t.pc.current = s.pc.current)
    (hlocked : ∀ h, t.pc.locked = some h → s.pc.locked = some h ∨ h ∉ s.handles.cancelled)
    (hreading : t.reading = s.reading) (hpasses : t.passes = s.passes) (hevents : t.events = s.events)
    (hclock : s.clock ≤ t.clock)
    (hhandles : t.handles = s.handles ∨ ∃ hasFunction, t.handles = s.handles.create hasFunction) :
    PollerEffect s a t
  | added (th : Thread) (reading : UInt64) (delayMs : Int32) (hasFunction : Bool) (t : PollerLoop)
    (hclock : reading ≤ s.clock)
    (hwait : t.waiting = (delayDeadline reading delayMs, s.handles.next) ::ₘ s.waiting) (hpc : t.pc = s.pc)
    (hreading : t.reading = s.reading) (hpasses : t.passes = s.passes)
    (hevents : t.events = s.events ++ [.added s.handles.next reading delayMs]) (hsame : t.clock = s.clock)
    (hhandles : t.handles = s.handles.create hasFunction) :
    PollerEffect s (.addDelayTask th reading delayMs hasFunction) t
  | cancelled (h : Nat) (hlt : h < s.handles.next) :
    PollerEffect s (.cancel h) { s with handles := s.handles.cancel h, events := s.events ++ [.cancelled h] }
  | started (h : Nat) (rest : List Job) (hpc : s.pc = .lockedTask h rest) :
    PollerEffect s .callTask { s with pc := .runningTask h rest, events := s.events ++ [.started h] }
  | scheduled (now : UInt64) (hpc : s.pc = .idle) (hle : s.reading ≤ now) (hclock : now ≤ s.clock) :
    PollerEffect s (.scheduleDelayTask now)
      { s with reading := now, passes := s.passes + 1, delayTasks := .empty, pc := .pass s.delayTasks }
  | nothing (now : UInt64) (hpc : s.pc = .idle) (hempty : s.delayTasks.entries = []) (hle : s.reading ≤ now)
    (hclock : now ≤ s.clock) :
    PollerEffect s (.scheduleDelayTask now) { s with reading := now, passes := s.passes + 1 }
  | left (copy : Multimap UInt64 Nat) (hpc : s.pc = .pass copy) (hlate : ∀ e ∈ copy.entries, s.reading < e.1) :
    PollerEffect s .nextDelay { s with delayTasks := s.delayTasks.insertAll copy.entries, pc := .idle }
  | skipped (e : UInt64 × Nat) (copy : Multimap UInt64 Nat) (hpc : s.pc = .pass copy)
    (hbag : copy.bag = e ::ₘ copy.eraseBegin.bag) (hvalid : s.handles.isValid e.2 = false) :
    PollerEffect s .nextDelay { s with pc := .pass copy.eraseBegin }
  | tested (e : UInt64 × Nat) (copy : Multimap UInt64 Nat) (hpc : s.pc = .pass copy)
    (hbag : copy.bag = e ::ₘ copy.eraseBegin.bag) (hdue : e.1 ≤ s.reading) (hvalid : s.handles.isValid e.2 = true) :
    PollerEffect s .nextDelay { s with pc := .testedDelay e copy.eraseBegin }
  | invoked (e : UInt64 × Nat) (copy : Multimap UInt64 Nat) (hpc : s.pc = .lockedDelay e copy) :
    PollerEffect s .callDelay
      { s with pc := .runningDelay e copy, events := s.events ++ [.invoked e.2 s.passes s.reading] }
  | notCalled (e : UInt64 × Nat) (copy : Multimap UInt64 Nat) (hpc : s.pc = .testedDelay e copy)
    (hcalls : s.handles.calls [] e.2 = false) :
    PollerEffect s .lockDelay { s with pc := .pass copy }
  | returned (delayMs : UInt64) (e : UInt64 × Nat) (copy : Multimap UInt64 Nat) (hpc : s.pc = .runningDelay e copy) :
    PollerEffect s (.finishDelay delayMs)
      { s with
        delayTasks := if 0 < delayMs then s.delayTasks.emplace (s.reading + delayMs) e.2 else s.delayTasks
        pc := .pass copy
        events := s.events ++ [.returned e.2 s.passes s.reading delayMs] }
  | thrown (e : UInt64 × Nat) (copy : Multimap UInt64 Nat) (hpc : s.pc = .runningDelay e copy) :
    PollerEffect s .throwDelay { s with pc := .stopped }

namespace PollerLoop

private theorem async_effect (s : PollerLoop) (th : Thread) (front maySync hasFunction : Bool) :
    PollerEffect s (.async th front maySync hasFunction) (s.async th front maySync hasFunction) := by
  unfold async
  split
  · exact .quiet _ _ rfl rfl rfl rfl (fun _ => .inl) rfl rfl rfl (le_refl _) (.inl rfl)
  · refine .quiet _ _ ?_ rfl rfl rfl (fun _ => .inl) rfl rfl rfl (le_refl _) (.inr ⟨hasFunction, rfl⟩)
    cases front <;> simp [waiting]

theorem waiting_addDelayTask (s : PollerLoop) (th : Thread) (reading : UInt64) (delayMs : Int32) (hasFunction : Bool) :
    (s.addDelayTask th reading delayMs hasFunction).waiting =
      (delayDeadline reading delayMs, s.handles.next) ::ₘ s.waiting := by
  unfold addDelayTask
  cases s.currentThread th <;> simp [waiting, ← Multiset.cons_coe]

private theorem addDelayTask_effect {s : PollerLoop} (th : Thread) {reading : UInt64} (delayMs : Int32)
    (hasFunction : Bool) (hclock : reading ≤ s.clock) :
    PollerEffect s (.addDelayTask th reading delayMs hasFunction)
      (s.addDelayTask th reading delayMs hasFunction) :=
  .added _ _ _ _ _ hclock (s.waiting_addDelayTask th reading delayMs hasFunction) rfl rfl rfl rfl rfl rfl

/-- A step that changes only the place of the poller, outside of the passes. -/
private theorem quiet_goTo {s : PollerLoop} {pc pc' : LoopPc} (a : PollerAction) (hpc : s.pc = pc)
    (hjobs : pc'.jobs = pc.jobs)
    (hwalk : pc'.walk = pc.walk) (hahead : pc'.ahead = pc.ahead) (hcurrent : pc'.current = pc.current)
    (hlocked : ∀ h, pc'.locked = some h → pc.locked = some h ∨ h ∉ s.handles.cancelled) :
    PollerEffect s a { s with pc := pc' } := by
  subst hpc
  refine .quiet _ _ ?_ hwalk hahead hcurrent hlocked rfl rfl rfl (le_refl _) (.inl rfl)
  simp [waiting, hjobs]

private theorem nextOfBatch_effect {s t : PollerLoop} (h : s.nextOfBatch = some t) : PollerEffect s .nextTask t := by
  unfold nextOfBatch at h
  split at h
  · rename_i hpc
    obtain rfl := Option.some.inj h
    exact quiet_goTo _ hpc rfl rfl rfl rfl nofun
  · rename_i deadline x rest hpc
    obtain rfl := Option.some.inj h
    refine .quiet _ _ ?_ ?_ ?_ ?_ ?_ rfl rfl rfl (le_refl _) (.inl rfl) <;>
      simp [waiting, hpc, LoopPc.jobs, LoopPc.walk, LoopPc.ahead, LoopPc.current, LoopPc.locked, ← Multiset.cons_coe]
  · rename_i x rest hpc
    obtain rfl := Option.some.inj h
    refine .quiet _ _ ?_ ?_ ?_ ?_ ?_ rfl rfl rfl (le_refl _) (.inl rfl) <;> cases s.handles.isValid x <;>
      simp [waiting, hpc, LoopPc.jobs, LoopPc.walk, LoopPc.ahead, LoopPc.current, LoopPc.locked]
  · cases h

private theorem lockTask_effect {s t : PollerLoop} (h : s.lockTask = some t) : PollerEffect s .lockTask t := by
  unfold lockTask at h
  split at h
  · rename_i x rest hpc
    obtain rfl := Option.some.inj h
    have hex : s.pc.strongTasks = [] := by simp [hpc, LoopPc.strongTasks]
    rw [hex]
    split
    · rename_i hcalls
      have hcan := TaskHandles.not_mem_cancelled_of_calls hcalls List.not_mem_nil
      refine quiet_goTo _ hpc rfl rfl rfl rfl fun y hy => .inr ?_
      obtain rfl := Option.some.inj hy
      exact hcan
    · exact quiet_goTo _ hpc rfl rfl rfl rfl nofun
  · cases h

private theorem callTask_effect {s t : PollerLoop} (h : s.callTask = some t) : PollerEffect s .callTask t := by
  unfold callTask at h
  split at h
  · rename_i x rest hpc
    obtain rfl := Option.some.inj h
    exact .started x rest hpc
  · cases h

private theorem nextOfCopy_effect {s t : PollerLoop} (h : s.nextOfCopy = some t) : PollerEffect s .nextDelay t := by
  unfold nextOfCopy at h
  split at h
  · rename_i copy hpc
    split at h
    · rename_i hes
      obtain rfl := Option.some.inj h
      have hleft : s.delayTasks.insertAll copy.entries = s.delayTasks := by rw [hes]; rfl
      have heff := PollerEffect.left copy hpc (by simp [hes])
      rwa [hleft] at heff
    · rename_i e es hes
      have hbag := Multimap.bag_eq_cons hes
      split at h <;> obtain rfl := Option.some.inj h
      · rename_i hdue
        cases hvalid : s.handles.isValid e.2 with
        | true => exact .tested e copy hpc hbag hdue hvalid
        | false => exact .skipped e copy hpc hbag hvalid
      · rename_i hlate
        rw [← hes]
        refine .left copy hpc fun e' he' => ?_
        exact lt_of_lt_of_le (not_le.1 hlate) (Multimap.begin_le hes he')
  · cases h

private theorem lockDelay_effect {s t : PollerLoop} (h : s.lockDelay = some t) : PollerEffect s .lockDelay t := by
  unfold lockDelay at h
  split at h
  · rename_i e copy hpc
    obtain rfl := Option.some.inj h
    have hex : s.pc.strongTasks = [] := by simp [hpc, LoopPc.strongTasks]
    rw [hex]
    split <;> rename_i hcalls
    · have hcan := TaskHandles.not_mem_cancelled_of_calls hcalls List.not_mem_nil
      refine quiet_goTo _ hpc rfl rfl rfl rfl fun y hy => .inr ?_
      obtain rfl := Option.some.inj hy
      exact hcan
    · exact .notCalled e copy hpc (by simpa using hcalls)
  · cases h

private theorem callDelay_effect {s t : PollerLoop} (h : s.callDelay = some t) : PollerEffect s .callDelay t := by
  unfold callDelay at h
  split at h
  · rename_i e copy hpc
    obtain rfl := Option.some.inj h
    exact .invoked e copy hpc
  · cases h

private theorem finishDelay_effect {s t : PollerLoop} {delayMs : UInt64} (h : s.finishDelay delayMs = some t) :
    PollerEffect s (.finishDelay delayMs) t := by
  unfold finishDelay at h
  split at h
  · rename_i e copy hpc
    obtain rfl := Option.some.inj h
    exact .returned delayMs e copy hpc
  · cases h

theorem step_scheduleDelayTask {s t : PollerLoop} {now : UInt64} (h : s.step (.scheduleDelayTask now) = some t) :
    s.pc = .idle ∧ s.reading ≤ now ∧ now ≤ s.clock ∧ t = s.scheduleDelayTask now := by
  simp only [step] at h
  split at h
  · rename_i hpc
    obtain ⟨⟨hle, hclock⟩, h⟩ := Option.ite_none_right_eq_some.1 h
    exact ⟨hpc, hle, hclock, (Option.some.inj h).symm⟩
  · cases h

private theorem scheduleDelayTask_effect {s t : PollerLoop} {now : UInt64}
    (h : s.step (.scheduleDelayTask now) = some t) : PollerEffect s (.scheduleDelayTask now) t := by
  obtain ⟨hpc, hle, hclock, rfl⟩ := step_scheduleDelayTask h
  unfold scheduleDelayTask
  split
  · rename_i hempty
    exact .nothing now hpc hempty hle hclock
  · exact .scheduled now hpc hle hclock

theorem step_effect {s t : PollerLoop} {a : PollerAction} (h : s.step a = some t) : PollerEffect s a t := by
  cases a with
  | tick clock =>
    obtain ⟨hle, ⟨⟩⟩ := Option.ite_none_right_eq_some.1 h
    exact .quiet _ _ rfl rfl rfl rfl (fun _ => .inl) rfl rfl rfl hle (.inl rfl)
  | assignThread =>
    obtain rfl := Option.some.inj h
    exact .quiet _ _ rfl rfl rfl rfl (fun _ => .inl) rfl rfl rfl (le_refl _) (.inl rfl)
  | enterLoop =>
    simp only [step] at h
    split at h
    · rename_i hpc
      obtain rfl := Option.some.inj h
      exact quiet_goTo _ hpc rfl rfl rfl rfl nofun
    · cases h
  | leaveLoop =>
    simp only [step] at h
    split at h
    · rename_i hpc
      obtain rfl := Option.some.inj h
      exact quiet_goTo _ hpc rfl rfl rfl rfl nofun
    · cases h
  | async th front maySync hasFunction =>
    obtain ⟨-, ⟨⟩⟩ := Option.ite_none_right_eq_some.1 h
    exact async_effect s th front maySync hasFunction
  | addDelayTask th reading delayMs hasFunction =>
    obtain ⟨⟨-, hclock⟩, ⟨⟩⟩ := Option.ite_none_right_eq_some.1 h
    exact addDelayTask_effect th delayMs hasFunction hclock
  | cancel x =>
    obtain ⟨hlt, ⟨⟩⟩ := Option.ite_none_right_eq_some.1 h
    exact .cancelled x hlt
  | swapTasks =>
    simp only [step] at h
    split at h
    · rename_i hpc
      obtain rfl := Option.some.inj h
      refine .quiet _ _ ?_ ?_ ?_ ?_ ?_ rfl rfl rfl (le_refl _) (.inl rfl) <;>
        simp [waiting, hpc, LoopPc.jobs, LoopPc.walk, LoopPc.ahead, LoopPc.current, LoopPc.locked]
    · cases h
  | nextTask => exact nextOfBatch_effect h
  | lockTask => exact lockTask_effect h
  | callTask => exact callTask_effect h
  | finishTask =>
    simp only [step] at h
    split at h
    · rename_i hpc
      obtain rfl := Option.some.inj h
      exact quiet_goTo _ hpc rfl rfl rfl rfl nofun
    · cases h
  | scheduleDelayTask now => exact scheduleDelayTask_effect h
  | nextDelay => exact nextOfCopy_effect h
  | lockDelay => exact lockDelay_effect h
  | callDelay => exact callDelay_effect h
  | finishDelay delayMs => exact finishDelay_effect h
  | throwDelay =>
    simp only [step] at h
    split at h
    · rename_i e copy hpc
      obtain rfl := Option.some.inj h
      exact .thrown e copy hpc
    · cases h

/-! What the steps within a batch or a pass do to the entries. -/

section Places

variable {s : PollerLoop} {e : UInt64 × Nat} {copy : Multimap UInt64 Nat}

theorem waiting_goTo {pc : LoopPc} (events : List PollerEvent) (hjobs : pc.jobs = s.pc.jobs) :
    ({ s with pc := pc, events := events } : PollerLoop).waiting = s.waiting := by
  simp [waiting, hjobs]

theorem entries_lockedDelay (hpc : s.pc = .lockedDelay e copy) : s.entries = e ::ₘ (s.waiting + copy.bag) := by
  rw [entries, hpc]
  exact Multiset.add_cons e s.waiting copy.bag

theorem entries_runningDelay (hpc : s.pc = .runningDelay e copy) : s.entries = e ::ₘ (s.waiting + copy.bag) := by
  rw [entries, hpc]
  exact Multiset.add_cons e s.waiting copy.bag

theorem entries_started {h : Nat} {rest : List Job} (events : List PollerEvent) (hpc : s.pc = .lockedTask h rest) :
    ({ s with pc := .runningTask h rest, events := events } : PollerLoop).entries = s.entries := by
  simp [entries, waiting, LoopPc.jobs, LoopPc.walk, hpc]

theorem entries_scheduled (now : UInt64) (passes : Nat) (hpc : s.pc = .idle) :
    ({ s with reading := now, passes := passes, delayTasks := .empty, pc := .pass s.delayTasks } :
      PollerLoop).entries = s.entries := by
  simp [entries, waiting, LoopPc.jobs, LoopPc.walk, hpc]

theorem entries_left (hpc : s.pc = .pass copy) :
    ({ s with delayTasks := s.delayTasks.insertAll copy.entries, pc := .idle } : PollerLoop).entries = s.entries := by
  have hcopy : (↑copy.entries : Multiset (UInt64 × Nat)) = copy.bag := rfl
  simp [entries, waiting, LoopPc.jobs, LoopPc.walk, hpc, hcopy, Multiset.add_assoc]

theorem entries_skipped (hpc : s.pc = .pass copy) (hbag : copy.bag = e ::ₘ copy.eraseBegin.bag) :
    s.entries = e ::ₘ ({ s with pc := .pass copy.eraseBegin } : PollerLoop).entries := by
  simp [entries, waiting, LoopPc.jobs, LoopPc.walk, hpc, hbag]

theorem entries_tested (hpc : s.pc = .pass copy) (hbag : copy.bag = e ::ₘ copy.eraseBegin.bag) :
    ({ s with pc := .testedDelay e copy.eraseBegin } : PollerLoop).entries = s.entries := by
  simp [entries, waiting, LoopPc.jobs, LoopPc.walk, hpc, hbag]

theorem entries_invoked (events : List PollerEvent) (hpc : s.pc = .lockedDelay e copy) :
    ({ s with pc := .runningDelay e copy, events := events } : PollerLoop).entries = s.entries := by
  simp [entries, waiting, LoopPc.jobs, LoopPc.walk, hpc]

theorem entries_notCalled (hpc : s.pc = .testedDelay e copy) :
    s.entries = e ::ₘ ({ s with pc := .pass copy } : PollerLoop).entries := by
  simp [entries, waiting, LoopPc.jobs, LoopPc.walk, hpc]

theorem entries_returned (delayMs : UInt64) (events : List PollerEvent) (hpc : s.pc = .runningDelay e copy) :
    ({ s with
      delayTasks := if 0 < delayMs then s.delayTasks.emplace (s.reading + delayMs) e.2 else s.delayTasks
      pc := .pass copy
      events := events } : PollerLoop).entries =
      if 0 < delayMs then (s.reading + delayMs, e.2) ::ₘ (s.waiting + copy.bag) else s.waiting + copy.bag := by
  split <;> simp [entries, waiting, LoopPc.jobs, LoopPc.walk, hpc]

private theorem entries_stopped_le (hpc : s.pc = .runningDelay e copy) :
    ({ s with pc := .stopped } : PollerLoop).entries ≤ s.entries := by
  have hwalk : ({ s with pc := .stopped } : PollerLoop).pc.walk = 0 := rfl
  rw [entries, waiting_goTo s.events (by rw [hpc]; rfl), hwalk, Multiset.add_zero]
  exact Multiset.le_add_right _ _

end Places

end PollerLoop

/-! ### When a task may be called again -/

/-- As far as the events say, the task of the entry may be called from its deadline on. -/
structure ReadyFrom (events : List PollerEvent) (e : UInt64 × Nat) : Prop where
  added : ∃ clock delayMs, .added e.2 clock delayMs ∈ events
  delay : ∀ clock delayMs, .added e.2 clock delayMs ∈ events → clock.toNat + delayMs.toNatClampNeg ≤ e.1.toNat
  again : ∀ pass now delayMs, .returned e.2 pass now delayMs ∈ events →
    0 < delayMs ∧ now.toNat + delayMs.toNat ≤ e.1.toNat

/-- Of the events of the task, only that it is added and that it returns matter. -/
theorem ReadyFrom.append {events : List PollerEvent} {e : UInt64 × Nat} {ev : PollerEvent} (hr : ReadyFrom events e)
    (hadded : ∀ clock delayMs, ev ≠ .added e.2 clock delayMs)
    (hreturned : ∀ pass now delayMs, ev ≠ .returned e.2 pass now delayMs) : ReadyFrom (events ++ [ev]) e where
  added := by
    obtain ⟨clock, delayMs, hmem⟩ := hr.added
    exact ⟨clock, delayMs, List.mem_append_left _ hmem⟩
  delay clock delayMs hmem := by
    rcases List.mem_append.1 hmem with hmem | hmem
    · exact hr.delay clock delayMs hmem
    · exact absurd (List.mem_singleton.1 hmem).symm (hadded clock delayMs)
  again pass now delayMs hmem := by
    rcases List.mem_append.1 hmem with hmem | hmem
    · exact hr.again pass now delayMs hmem
    · exact absurd (List.mem_singleton.1 hmem).symm (hreturned pass now delayMs)

private theorem ReadyFrom.append_other {events : List PollerEvent} {e : UInt64 × Nat} {ev : PollerEvent}
    (hr : ReadyFrom events e) (hev : ev.delayTask ≠ some e.2) : ReadyFrom (events ++ [ev]) e := by
  apply hr.append
  · rintro clock delayMs rfl
    exact hev rfl
  · rintro pass now delayMs rfl
    exact hev rfl

/-- A task that has returned may be called from its new deadline on. -/
private theorem ReadyFrom.append_returned {events : List PollerEvent} {e : UInt64 × Nat} {pass : Nat}
    {now delayMs k : UInt64}
    (hr : ReadyFrom events e) (hdue : e.1 ≤ now) (hpos : 0 < delayMs) (hk : k.toNat = now.toNat + delayMs.toNat) :
    ReadyFrom (events ++ [.returned e.2 pass now delayMs]) (k, e.2) where
  added := by
    obtain ⟨clock, delayMs', hmem⟩ := hr.added
    exact ⟨clock, delayMs', List.mem_append_left _ hmem⟩
  delay clock delayMs' hmem := by
    have hmem' : .added e.2 clock delayMs' ∈ events := by simpa using hmem
    have hdelay := hr.delay clock delayMs' hmem'
    have hnow := UInt64.le_iff_toNat_le.1 hdue
    show _ ≤ k.toNat
    omega
  again pass' now' delayMs' hmem := by
    show 0 < delayMs' ∧ _ ≤ k.toNat
    rcases List.mem_append.1 hmem with hmem | hmem
    · obtain ⟨hpos', hlate⟩ := hr.again pass' now' delayMs' hmem
      have hnow := UInt64.le_iff_toNat_le.1 hdue
      exact ⟨hpos', by omega⟩
    · obtain ⟨-, rfl, rfl⟩ : pass' = pass ∧ now' = now ∧ delayMs' = delayMs := by simpa using hmem
      exact ⟨hpos, by omega⟩

/-! ### One more event -/

/-- An event that is no invocation, and adds no task that has been invoked. -/
theorem KeepsTime.append {events : List PollerEvent} (hk : KeepsTime events) {ev : PollerEvent}
    (hinv : ∀ h pass now, ev ≠ .invoked h pass now)
    (hadded : ∀ h clock delayMs, ev = .added h clock delayMs → ∀ pass now, .invoked h pass now ∉ events) :
    KeepsTime (events ++ [ev]) := by
  have hold : ∀ {h pass now}, .invoked h pass now ∈ events ++ [ev] → .invoked h pass now ∈ events := by
    intro h pass now hmem
    rcases List.mem_append.1 hmem with hmem | hmem
    · exact hmem
    · exact absurd (List.mem_singleton.1 hmem).symm (hinv h pass now)
  refine ⟨?_, ?_, ?_, ?_⟩
  · intro h pass now hmem
    obtain ⟨clock, delayMs, hadd⟩ := hk.added h pass now (hold hmem)
    exact ⟨clock, delayMs, List.mem_append_left _ hadd⟩
  · intro h pass now clock delayMs hmem hadd
    rcases List.mem_append.1 hadd with hadd | hadd
    · exact hk.not_early h pass now clock delayMs (hold hmem) hadd
    · exact absurd (hold hmem) (hadded h clock delayMs (List.mem_singleton.1 hadd).symm pass now)
  · rw [List.pairwise_append]
    refine ⟨hk.once_per_pass, List.pairwise_singleton _ _, ?_⟩
    intro a _ b hb h pass now now' _
    rw [List.mem_singleton.1 hb]
    exact hinv h pass now'
  · rw [List.pairwise_append]
    refine ⟨hk.spaced, List.pairwise_singleton _ _, ?_⟩
    intro a _ b hb h pass pass' now now' delayMs _ hb'
    rw [List.mem_singleton.1 hb] at hb'
    exact absurd hb' (hinv h pass' now')

/-- The invocation of a task that is ready and has not been invoked in the pass. -/
private theorem KeepsTime.append_invoked {events : List PollerEvent} (hk : KeepsTime events) {e : UInt64 × Nat}
    {pass : Nat}
    {now : UInt64} (hr : ReadyFrom events e) (hdue : e.1 ≤ now) (hnot : ∀ now', .invoked e.2 pass now' ∉ events) :
    KeepsTime (events ++ [.invoked e.2 pass now]) := by
  have hnow := UInt64.le_iff_toNat_le.1 hdue
  have hold : ∀ {h pass' now'}, .invoked h pass' now' ∈ events ++ [.invoked e.2 pass now] →
      .invoked h pass' now' ∈ events ∨ h = e.2 ∧ now' = now := by
    intro h pass' now' hmem
    rcases List.mem_append.1 hmem with hmem | hmem
    · exact .inl hmem
    · obtain ⟨rfl, -, rfl⟩ : h = e.2 ∧ pass' = pass ∧ now' = now := by simpa using hmem
      exact .inr ⟨rfl, rfl⟩
  refine ⟨?_, ?_, ?_, ?_⟩
  · intro h pass' now' hmem
    obtain ⟨clock, delayMs, hadd⟩ : ∃ clock delayMs, .added h clock delayMs ∈ events := by
      rcases hold hmem with hmem | ⟨rfl, -⟩
      · exact hk.added h pass' now' hmem
      · exact hr.added
    exact ⟨clock, delayMs, List.mem_append_left _ hadd⟩
  · intro h pass' now' clock delayMs hmem hadd
    have hadd' : .added h clock delayMs ∈ events := by simpa using hadd
    rcases hold hmem with hmem | ⟨rfl, rfl⟩
    · exact hk.not_early h pass' now' clock delayMs hmem hadd'
    · exact (hr.delay clock delayMs hadd').trans hnow
  · rw [List.pairwise_append]
    refine ⟨hk.once_per_pass, List.pairwise_singleton _ _, ?_⟩
    rintro a ha b hb h pass' now' now'' rfl rfl
    obtain ⟨rfl, rfl, -⟩ : h = e.2 ∧ pass' = pass ∧ now'' = now := by simpa using hb
    exact hnot now' ha
  · rw [List.pairwise_append]
    refine ⟨hk.spaced, List.pairwise_singleton _ _, ?_⟩
    rintro a ha b hb h pass' pass'' now' now'' delayMs rfl rfl
    obtain ⟨rfl, -, rfl⟩ : h = e.2 ∧ pass'' = pass ∧ now'' = now := by simpa using hb
    obtain ⟨hpos, hlate⟩ := hr.again pass' now' delayMs ha
    exact ⟨hpos, hlate.trans hnow⟩

/-! ### Every delay task is on schedule -/

/-- The numbers of the delay tasks and of the passes that have occurred. -/
structure EventsBelow (events : List PollerEvent) (next passes : Nat) : Prop where
  lt_next : ∀ ev ∈ events, ∀ h, ev.delayTask = some h → h < next
  le_passes : ∀ h pass now, .invoked h pass now ∈ events → pass ≤ passes

theorem EventsBelow.mono {events : List PollerEvent} {next next' passes passes' : Nat}
    (hb : EventsBelow events next passes) (hn : next ≤ next') (hp : passes ≤ passes') :
    EventsBelow events next' passes' := by
  constructor
  · intro ev hev h hh
    exact (hb.lt_next ev hev h hh).trans_le hn
  · intro h pass now hmem
    exact (hb.le_passes h pass now hmem).trans hp

theorem EventsBelow.append {events : List PollerEvent} {next passes : Nat} (hb : EventsBelow events next passes)
    {ev : PollerEvent} (hlt : ∀ h, ev.delayTask = some h → h < next)
    (hle : ∀ h pass now, ev = .invoked h pass now → pass ≤ passes) :
    EventsBelow (events ++ [ev]) next passes := by
  constructor
  · intro ev' hev h hh
    rcases List.mem_append.1 hev with hev | hev
    · exact hb.lt_next ev' hev h hh
    · exact hlt h (List.mem_singleton.1 hev ▸ hh)
  · intro h pass now hmem
    rcases List.mem_append.1 hmem with hmem | hmem
    · exact hb.le_passes h pass now hmem
    · exact hle h pass now (List.mem_singleton.1 hmem).symm

/-- Every delay task is in one place at most. -/
structure PlacedOnce (s : PollerLoop) : Prop where
  nodup : (s.entries.map Prod.snd).Nodup
  lt_next : ∀ e ∈ s.entries, e.2 < s.handles.next

namespace PlacedOnce

variable {s t : PollerLoop}

theorem init : PlacedOnce .init := by
  constructor <;> simp [PollerLoop.entries, PollerLoop.waiting, PollerLoop.init, LoopPc.jobs, LoopPc.walk]

private theorem of_le (hs : PlacedOnce s) (hle : t.entries.map Prod.snd ≤ s.entries.map Prod.snd)
    (hnext : s.handles.next ≤ t.handles.next) : PlacedOnce t where
  nodup := Multiset.nodup_of_le hle hs.nodup
  lt_next e he := by
    obtain ⟨e', he', heq⟩ := Multiset.mem_map.1 (Multiset.mem_of_le hle (Multiset.mem_map_of_mem _ he))
    have hlt := hs.lt_next e' he'
    omega

theorem add (hs : PlacedOnce s) {k : UInt64} {hasFunction : Bool}
    (hentries : t.entries = (k, s.handles.next) ::ₘ s.entries)
    (hhandles : t.handles = s.handles.create hasFunction) : PlacedOnce t where
  nodup := by
    rw [hentries, Multiset.map_cons, Multiset.nodup_cons]
    refine ⟨fun hmem => ?_, hs.nodup⟩
    obtain ⟨e, he, heq⟩ := Multiset.mem_map.1 hmem
    exact absurd (hs.lt_next e he) (by simp [heq])
  lt_next e he := by
    rw [hhandles]
    show e.2 < s.handles.next + 1
    rw [hentries, Multiset.mem_cons] at he
    rcases he with rfl | he
    · exact Nat.lt_succ_self _
    · exact (hs.lt_next e he).trans (Nat.lt_succ_self _)

/-- The other entries are those of other tasks. -/
theorem ne_of_mem (hs : PlacedOnce s) {e e' : UInt64 × Nat} {others : Multiset (UInt64 × Nat)}
    (hentries : s.entries = e ::ₘ others) (he' : e' ∈ others) : e'.2 ≠ e.2 := by
  have hnodup := hs.nodup
  rw [hentries, Multiset.map_cons, Multiset.nodup_cons] at hnodup
  exact fun heq => hnodup.1 (Multiset.mem_map.2 ⟨e', he', heq⟩)

end PlacedOnce

theorem placedOnce_step {s t : PollerLoop} {a : PollerAction} (hs : PlacedOnce s) (h : s.step a = some t) :
    PlacedOnce t := by
  cases PollerLoop.step_effect h with
  | quiet _ _ hwait hwalk hahead hcurrent hlocked hreading hpasses hevents hclock hhandles =>
    have hentries : t.entries = s.entries := by rw [PollerLoop.entries, hwait, hwalk]; rfl
    refine hs.of_le (hentries ▸ le_refl _) ?_
    rcases hhandles with heq | ⟨hasFunction, heq⟩ <;> rw [heq]
    exact Nat.le_succ _
  | added th reading delayMs hasFunction _ hclock hwait hpc hreading hpasses hevents hsame hhandles =>
    have hentries : t.entries = (delayDeadline reading delayMs, s.handles.next) ::ₘ s.entries := by
      rw [PollerLoop.entries, hwait, hpc, Multiset.cons_add]
      rfl
    exact hs.add hentries hhandles
  | cancelled x hlt => exact hs.of_le (le_refl _) (le_refl _)
  | started x rest hpc =>
    exact hs.of_le (Multiset.map_le_map (PollerLoop.entries_started _ hpc).le) (le_refl _)
  | scheduled now hpc hle hclock =>
    exact hs.of_le (Multiset.map_le_map (PollerLoop.entries_scheduled now _ hpc).le) (le_refl _)
  | nothing now hpc hempty hle hclock => exact hs.of_le (le_refl _) (le_refl _)
  | left copy hpc hlate => exact hs.of_le (Multiset.map_le_map (PollerLoop.entries_left hpc).le) (le_refl _)
  | skipped e copy hpc hbag hvalid =>
    refine hs.of_le (Multiset.map_le_map ?_) (le_refl _)
    rw [PollerLoop.entries_skipped hpc hbag]
    exact Multiset.le_cons_self _ _
  | tested e copy hpc hbag hdue hvalid =>
    exact hs.of_le (Multiset.map_le_map (PollerLoop.entries_tested hpc hbag).le) (le_refl _)
  | invoked e copy hpc =>
    exact hs.of_le (Multiset.map_le_map (PollerLoop.entries_invoked _ hpc).le) (le_refl _)
  | notCalled e copy hpc hcalls =>
    refine hs.of_le (Multiset.map_le_map ?_) (le_refl _)
    rw [PollerLoop.entries_notCalled hpc]
    exact Multiset.le_cons_self _ _
  | returned delayMs e copy hpc =>
    refine hs.of_le ?_ (le_refl _)
    rw [PollerLoop.entries_returned delayMs _ hpc, PollerLoop.entries_runningDelay hpc]
    split <;> simp [Multiset.le_cons_self]
  | thrown e copy hpc =>
    exact hs.of_le (Multiset.map_le_map (PollerLoop.entries_stopped_le hpc)) (le_refl _)

structure ClockSound (s : PollerLoop) : Prop where
  reading_le : s.reading ≤ s.clock
  due : ∀ e, s.pc.current = some e → e.1 ≤ s.reading
  invoked_le : ∀ h pass now, .invoked h pass now ∈ s.events → now ≤ s.reading

namespace ClockSound

variable {s t : PollerLoop}

theorem init : ClockSound .init := ⟨le_refl _, nofun, nofun⟩

/-- The pass goes on, or is over. -/
theorem keep (hs : ClockSound s) (hclock : s.clock ≤ t.clock) (hreading : t.reading = s.reading)
    (hcurrent : ∀ e, t.pc.current = some e → e.1 ≤ s.reading)
    (hevents : ∀ h pass now, .invoked h pass now ∈ t.events → .invoked h pass now ∈ s.events ∨ now = s.reading) :
    ClockSound t where
  reading_le := hreading ▸ hs.reading_le.trans hclock
  due := hreading ▸ hcurrent
  invoked_le h pass now hmem := by
    rw [hreading]
    rcases hevents h pass now hmem with hmem | rfl
    · exact hs.invoked_le h pass now hmem
    · exact le_refl _

private theorem nextPass (hs : ClockSound s) (hle : s.reading ≤ t.reading) (hclock : t.reading ≤ t.clock)
    (hcurrent : t.pc.current = none) (hevents : t.events = s.events) : ClockSound t where
  reading_le := hclock
  due := by simp [hcurrent]
  invoked_le h pass now hmem := by
    rw [hevents] at hmem
    exact (hs.invoked_le h pass now hmem).trans hle

end ClockSound

theorem clockSound_step {s t : PollerLoop} {a : PollerAction} (hs : ClockSound s) (h : s.step a = some t) :
    ClockSound t := by
  cases PollerLoop.step_effect h with
  | quiet _ _ hwait hwalk hahead hcurrent hlocked hreading hpasses hevents hclock hhandles =>
    exact hs.keep hclock hreading (hcurrent ▸ hs.due) fun _ _ _ hmem => .inl (hevents ▸ hmem)
  | added th reading delayMs hasFunction _ hclock hwait hpc hreading hpasses hevents hsame hhandles =>
    refine hs.keep hsame.ge hreading (hpc ▸ hs.due) fun _ _ _ hmem => .inl ?_
    simpa [hevents] using hmem
  | cancelled x hlt => exact hs.keep (le_refl _) rfl hs.due fun _ _ _ hmem => .inl (by simpa using hmem)
  | started x rest hpc => exact hs.keep (le_refl _) rfl nofun fun _ _ _ hmem => .inl (by simpa using hmem)
  | scheduled now hpc hle hclock => exact hs.nextPass hle hclock rfl rfl
  | nothing now hpc hempty hle hclock => exact hs.nextPass hle hclock (by rw [hpc]; rfl) rfl
  | left copy hpc hlate => exact hs.keep (le_refl _) rfl nofun fun _ _ _ hmem => .inl hmem
  | skipped e copy hpc hbag hvalid => exact hs.keep (le_refl _) rfl nofun fun _ _ _ hmem => .inl hmem
  | tested e copy hpc hbag hdue hvalid =>
    refine hs.keep (le_refl _) rfl ?_ fun _ _ _ hmem => .inl hmem
    rintro e' ⟨⟩
    exact hdue
  | invoked e copy hpc =>
    refine hs.keep (le_refl _) rfl (fun e' he' => hs.due e' (by rw [hpc]; exact he')) fun x pass now hmem => ?_
    rcases List.mem_append.1 hmem with hmem | hmem
    · exact .inl hmem
    · obtain ⟨-, -, rfl⟩ : x = e.2 ∧ pass = s.passes ∧ now = s.reading := by simpa using hmem
      exact .inr rfl
  | notCalled e copy hpc hcalls => exact hs.keep (le_refl _) rfl nofun fun _ _ _ hmem => .inl hmem
  | returned delayMs e copy hpc => exact hs.keep (le_refl _) rfl nofun fun _ _ _ hmem => .inl (by simpa using hmem)
  | thrown e copy hpc => exact hs.keep (le_refl _) rfl nofun fun _ _ _ hmem => .inl hmem

/-- Every delay task has a deadline from which on it may be called; those that the pass may still come to have not been
invoked in it. -/
structure OnSchedule (s : PollerLoop) : Prop where
  placed : PlacedOnce s
  clock : ClockSound s
  ready : ∀ e ∈ s.entries, ReadyFrom s.events e
  not_yet : ∀ e ∈ s.pc.ahead, ∀ now, .invoked e.2 s.passes now ∉ s.events
  below : EventsBelow s.events s.handles.next s.passes
  keepsTime : KeepsTime s.events

namespace OnSchedule

variable {s t : PollerLoop}

theorem init : OnSchedule .init where
  placed := .init
  ready := by simp [PollerLoop.entries, PollerLoop.waiting, PollerLoop.init, LoopPc.jobs, LoopPc.walk]
  clock := .init
  not_yet := by simp [PollerLoop.init, LoopPc.ahead]
  below := ⟨nofun, nofun⟩
  keepsTime := ⟨nofun, nofun, .nil, .nil⟩

private theorem shrink (hs : OnSchedule s) (hplaced : PlacedOnce t) (hclock : ClockSound t)
    (hentries : t.entries ≤ s.entries)
    (hahead : t.pc.ahead ≤ s.pc.ahead) (hpasses : t.passes = s.passes) (hevents : t.events = s.events)
    (hnext : s.handles.next ≤ t.handles.next) : OnSchedule t where
  placed := hplaced
  clock := hclock
  ready e he := by
    rw [hevents]
    exact hs.ready e (Multiset.mem_of_le hentries he)
  not_yet e he now := by
    rw [hevents, hpasses]
    exact hs.not_yet e (Multiset.mem_of_le hahead he) now
  below := by
    rw [hevents, hpasses]
    exact hs.below.mono hnext (le_refl _)
  keepsTime := hevents ▸ hs.keepsTime

/-- Events that are about no delay task may be recorded. -/
theorem log (hs : OnSchedule s) (hplaced : PlacedOnce t) (hclock : ClockSound t) {ev : PollerEvent}
    (hev : ev.delayTask = none) (hentries : t.entries = s.entries) (hahead : t.pc.ahead = s.pc.ahead)
    (hpasses : t.passes = s.passes) (hevents : t.events = s.events ++ [ev])
    (hnext : t.handles.next = s.handles.next) : OnSchedule t := by
  have hinv : ∀ h pass now, ev ≠ .invoked h pass now := by
    rintro h pass now rfl
    cases hev
  refine ⟨hplaced, hclock, ?_, ?_, ?_, ?_⟩
  · intro e he
    rw [hevents]
    exact (hs.ready e (hentries ▸ he)).append_other (by simp [hev])
  · intro e he now hmem
    rw [hevents, hpasses] at hmem
    rcases List.mem_append.1 hmem with hmem | hmem
    · exact hs.not_yet e (hahead ▸ he) now hmem
    · exact hinv _ _ _ (List.mem_singleton.1 hmem).symm
  · rw [hevents, hnext, hpasses]
    exact hs.below.append (by simp [hev]) fun h pass now heq => absurd heq (hinv h pass now)
  · rw [hevents]
    apply hs.keepsTime.append hinv
    rintro h clock delayMs rfl
    cases hev

theorem add (hs : OnSchedule s) (hplaced : PlacedOnce t) (hclock : ClockSound t) {clock : UInt64} {delayMs : Int32}
    {hasFunction : Bool} (hentries : t.entries = (delayDeadline clock delayMs, s.handles.next) ::ₘ s.entries)
    (hpc : t.pc = s.pc) (hpasses : t.passes = s.passes)
    (hevents : t.events = s.events ++ [.added s.handles.next clock delayMs])
    (hhandles : t.handles = s.handles.create hasFunction)
    (hdeadline : (delayDeadline clock delayMs).toNat = clock.toNat + delayMs.toNatClampNeg) : OnSchedule t := by
  have hnew : ∀ ev ∈ s.events, ev.delayTask ≠ some s.handles.next := by
    intro ev hev hh
    exact absurd (hs.below.lt_next ev hev _ hh) (lt_irrefl _)
  refine ⟨hplaced, hclock, ?_, ?_, ?_, ?_⟩
  · intro e he
    rw [hentries, Multiset.mem_cons] at he
    rw [hevents]
    rcases he with rfl | he
    · refine ⟨⟨clock, delayMs, by simp⟩, ?_, ?_⟩
      · intro clock' delayMs' hmem
        rcases List.mem_append.1 hmem with hmem | hmem
        · exact absurd rfl (hnew _ hmem)
        · obtain ⟨rfl, rfl⟩ : clock' = clock ∧ delayMs' = delayMs := by simpa using hmem
          exact hdeadline.ge
      · intro pass now delayMs' hmem
        have hmem' : .returned s.handles.next pass now delayMs' ∈ s.events := by simpa using hmem
        exact absurd rfl (hnew _ hmem')
    · have hne := (hs.placed.lt_next e he).ne'
      exact (hs.ready e he).append_other (by simpa [PollerEvent.delayTask] using hne)
  · intro e he now hmem
    rw [hpc] at he
    rw [hevents, hpasses] at hmem
    exact hs.not_yet e he now (by simpa using hmem)
  · rw [hevents, hhandles, hpasses]
    refine (hs.below.mono (Nat.le_succ _) (le_refl _)).append ?_ (fun _ _ _ => nofun)
    intro h hh
    obtain rfl : s.handles.next = h := by simpa [PollerEvent.delayTask] using hh
    exact Nat.lt_succ_self _
  · rw [hevents]
    refine hs.keepsTime.append (fun _ _ _ => nofun) ?_
    intro h clock' delayMs' heq pass now hmem
    obtain ⟨rfl, -, -⟩ : s.handles.next = h ∧ _ ∧ _ := by simpa using heq
    exact hnew _ hmem rfl

private theorem nextPass (hs : OnSchedule s) (hplaced : PlacedOnce t) (hclock : ClockSound t)
    (hentries : t.entries = s.entries) (hpasses : t.passes = s.passes + 1) (hevents : t.events = s.events)
    (hhandles : t.handles = s.handles) : OnSchedule t := by
  refine ⟨hplaced, hclock, ?_, ?_, ?_, hevents ▸ hs.keepsTime⟩
  · intro e he
    rw [hevents]
    exact hs.ready e (hentries ▸ he)
  · intro e _ now hmem
    rw [hevents, hpasses] at hmem
    have hle := hs.below.le_passes _ _ _ hmem
    omega
  · rw [hevents, hhandles, hpasses]
    exact hs.below.mono (le_refl _) (Nat.le_succ _)

theorem invoke (hs : OnSchedule s) (hplaced : PlacedOnce t) (hclock : ClockSound t) (e : UInt64 × Nat)
    (others : Multiset (UInt64 × Nat)) (hother : s.entries = e ::ₘ others) (hbefore : s.pc.current = some e)
    (hmem : e ∈ s.pc.ahead) (hentries : t.entries = s.entries)
    (hahead : ∀ e' ∈ t.pc.ahead, e' ∈ s.pc.ahead ∧ e' ∈ others) (hpasses : t.passes = s.passes)
    (hevents : t.events = s.events ++ [.invoked e.2 s.passes s.reading]) (hhandles : t.handles = s.handles) :
    OnSchedule t := by
  have hdue := hs.clock.due e hbefore
  have he : e ∈ s.entries := by rw [hother]; exact Multiset.mem_cons_self e others
  refine ⟨hplaced, hclock, ?_, ?_, ?_, ?_⟩
  · intro e' he'
    rw [hevents]
    exact (hs.ready e' (hentries ▸ he')).append (fun _ _ => nofun) (fun _ _ _ => nofun)
  · intro e' he' now hinv
    rw [hevents, hpasses] at hinv
    rcases List.mem_append.1 hinv with hinv | hinv
    · exact hs.not_yet e' (hahead e' he').1 now hinv
    · obtain ⟨heq, -⟩ : e'.2 = e.2 ∧ now = s.reading := by simpa using hinv
      exact hs.placed.ne_of_mem hother (hahead e' he').2 heq
  · rw [hevents, hhandles, hpasses]
    apply hs.below.append
    · intro h hh
      obtain rfl : e.2 = h := by simpa [PollerEvent.delayTask] using hh
      exact hs.placed.lt_next e he
    · intro h pass now heq
      obtain ⟨-, rfl, -⟩ : e.2 = h ∧ s.passes = pass ∧ s.reading = now := by simpa using heq
      exact le_refl _
  · rw [hevents]
    exact hs.keepsTime.append_invoked (hs.ready e he) hdue (hs.not_yet e hmem)

theorem finish (hs : OnSchedule s) (hplaced : PlacedOnce t) (hclock : ClockSound t) (e : UInt64 × Nat)
    (others : Multiset (UInt64 × Nat)) {delayMs : UInt64} (hother : s.entries = e ::ₘ others)
    (hbefore : s.pc.current = some e)
    (hentries : t.entries = if 0 < delayMs then (s.reading + delayMs, e.2) ::ₘ others else others)
    (hahead : t.pc.ahead = s.pc.ahead) (hpasses : t.passes = s.passes)
    (hevents : t.events = s.events ++ [.returned e.2 s.passes s.reading delayMs]) (hhandles : t.handles = s.handles)
    (hrange : s.reading.toNat + delayMs.toNat < 2 ^ 64) : OnSchedule t := by
  have hdue := hs.clock.due e hbefore
  have hmem : e ∈ s.entries := by rw [hother]; exact Multiset.mem_cons_self e others
  have hdeadline : (s.reading + delayMs).toNat = s.reading.toNat + delayMs.toNat := by
    rw [UInt64.toNat_add, Nat.mod_eq_of_lt hrange]
  have hready : ∀ e' ∈ others, ReadyFrom t.events e' := by
    intro e' he'
    have hne := (hs.placed.ne_of_mem hother he').symm
    have hr := hs.ready e' (by rw [hother]; exact Multiset.mem_cons_of_mem he')
    rw [hevents]
    exact hr.append_other (by simpa [PollerEvent.delayTask] using hne)
  refine ⟨hplaced, hclock, ?_, ?_, ?_, ?_⟩
  · intro e' he'
    rw [hentries] at he'
    split at he'
    · rename_i hpos
      rcases Multiset.mem_cons.1 he' with rfl | he'
      · rw [hevents]
        exact (hs.ready e hmem).append_returned hdue hpos hdeadline
      · exact hready e' he'
    · exact hready e' he'
  · intro e' he' now hinv
    rw [hevents, hpasses] at hinv
    exact hs.not_yet e' (hahead ▸ he') now (by simpa using hinv)
  · rw [hevents, hhandles, hpasses]
    refine hs.below.append ?_ (fun _ _ _ => nofun)
    intro h hh
    obtain rfl : e.2 = h := by simpa [PollerEvent.delayTask] using hh
    exact hs.placed.lt_next e hmem
  · rw [hevents]
    exact hs.keepsTime.append (fun _ _ _ => nofun) (fun _ _ _ => nofun)

end OnSchedule

theorem toNat_delayDeadline {clock : UInt64} {delayMs : Int32} (hpos : 0 ≤ delayMs)
    (hrange : clock.toNat + delayMs.toNatClampNeg < 2 ^ 64) :
    (delayDeadline clock delayMs).toNat = clock.toNat + delayMs.toNatClampNeg := by
  have hzero : (0 : Int32).toInt64 = 0 := rfl
  have hpos' : 0 ≤ delayMs.toInt64 := hzero ▸ Int32.toInt64_le.2 hpos
  unfold delayDeadline
  rw [UInt64.toNat_add, Int64.toNat_toUInt64_of_le hpos', Int32.toNatClampNeg_toInt64, Nat.mod_eq_of_lt hrange]

private theorem onSchedule_step {s t : PollerLoop} {a : PollerAction} (hs : OnSchedule s) (hok : InRange s a)
    (h : s.step a = some t) : OnSchedule t := by
  have hplaced := placedOnce_step hs.placed h
  have htime := clockSound_step hs.clock h
  cases PollerLoop.step_effect h with
  | quiet _ _ hwait hwalk hahead hcurrent hlocked hreading hpasses hevents hclock hhandles =>
    have hentries : t.entries = s.entries := by rw [PollerLoop.entries, hwait, hwalk]; rfl
    refine hs.shrink hplaced htime hentries.le hahead.le hpasses hevents ?_
    rcases hhandles with heq | ⟨hasFunction, heq⟩ <;> rw [heq]
    exact Nat.le_succ _
  | added th reading delayMs hasFunction _ hclock hwait hpc hreading hpasses hevents hsame hhandles =>
    refine hs.add hplaced htime ?_ hpc hpasses hevents hhandles (toNat_delayDeadline hok.1 hok.2)
    rw [PollerLoop.entries, hwait, hpc, Multiset.cons_add]
    rfl
  | cancelled x hlt => exact hs.log hplaced htime rfl rfl rfl rfl rfl rfl
  | started x rest hpc =>
    exact hs.log hplaced htime rfl (PollerLoop.entries_started _ hpc) (by rw [hpc]; rfl) rfl rfl rfl
  | scheduled now hpc hle hclock =>
    exact hs.nextPass hplaced htime (PollerLoop.entries_scheduled now _ hpc) rfl rfl rfl
  | nothing now hpc hempty hle hclock => exact hs.nextPass hplaced htime rfl rfl rfl rfl
  | left copy hpc hlate =>
    exact hs.shrink hplaced htime (PollerLoop.entries_left hpc).le (Multiset.zero_le _) rfl rfl (le_refl _)
  | skipped e copy hpc hbag hvalid =>
    refine hs.shrink hplaced htime ?_ ?_ rfl rfl (le_refl _)
    · rw [PollerLoop.entries_skipped hpc hbag]
      exact Multiset.le_cons_self _ _
    · simp [LoopPc.ahead, hpc, hbag, Multiset.le_cons_self]
  | tested e copy hpc hbag hdue hvalid =>
    refine hs.shrink hplaced htime (PollerLoop.entries_tested hpc hbag).le ?_ rfl rfl (le_refl _)
    simp [LoopPc.ahead, hpc, hbag]
  | invoked e copy hpc =>
    have hahead : s.pc.ahead = e ::ₘ copy.bag := by rw [hpc]; rfl
    refine hs.invoke hplaced htime e (s.waiting + copy.bag) (PollerLoop.entries_lockedDelay hpc) (by rw [hpc]; rfl) ?_
      (PollerLoop.entries_invoked _ hpc) ?_ rfl rfl rfl
    · simp [hahead]
    · intro e' he'
      have he' : e' ∈ copy.bag := he'
      rw [hahead]
      exact ⟨Multiset.mem_cons_of_mem he', Multiset.mem_add.2 (.inr he')⟩
  | notCalled e copy hpc hcalls =>
    refine hs.shrink hplaced htime ?_ ?_ rfl rfl (le_refl _)
    · rw [PollerLoop.entries_notCalled hpc]
      exact Multiset.le_cons_self _ _
    · simp [LoopPc.ahead, hpc, Multiset.le_cons_self]
  | returned delayMs e copy hpc =>
    exact hs.finish hplaced htime e (s.waiting + copy.bag) (PollerLoop.entries_runningDelay hpc) (by rw [hpc]; rfl)
      (PollerLoop.entries_returned delayMs _ hpc) (by rw [hpc]; rfl) rfl rfl rfl hok
  | thrown e copy hpc =>
    exact hs.shrink hplaced htime (PollerLoop.entries_stopped_le hpc) (Multiset.zero_le _) rfl rfl (le_refl _)

private theorem onSchedule_exec {s : PollerLoop} {as : List PollerAction}
    (hok : Transition.Along PollerLoop.step InRange .init as) (h : Transition.exec PollerLoop.step .init as = some s) :
    OnSchedule s :=
  Transition.exec_invariant_along (fun _ _ _ hs hok h => onSchedule_step hs hok h) .init hok h

/-- In every run, whatever the threads hand in and cancel and whatever the callbacks do, the delay tasks are invoked
on time. -/
theorem delayTasks_keep_time {s : PollerLoop} (as : List PollerAction)
    (hok : Transition.Along PollerLoop.step InRange .init as) (h : Transition.exec PollerLoop.step .init as = some s) :
    KeepsTime s.events :=
  (onSchedule_exec hok h).keepsTime

/-- Another thread adds a delay task of 50 milliseconds, which asks once to be called again after 20. -/
def repeatedOnce : List PollerAction :=
  [.assignThread, .enterLoop, .tick 1000, .addDelayTask (.producer 0) 1000 50 true, .swapTasks, .nextTask, .nextTask,
    .tick 1050, .scheduleDelayTask 1050, .nextDelay, .lockDelay, .callDelay, .finishDelay 20, .nextDelay,
    .tick 1075, .scheduleDelayTask 1075, .nextDelay, .lockDelay, .callDelay, .finishDelay 0, .nextDelay]

theorem delayTasks_keep_time_repeatedOnce :
    ∃ s, Transition.exec PollerLoop.step .init repeatedOnce = some s ∧
      s.events = [.added 0 1000 50, .invoked 0 1 1050, .returned 0 1 1050 20, .invoked 0 2 1075,
        .returned 0 2 1075 0] ∧ KeepsTime s.events :=
  ⟨_, rfl, rfl, delayTasks_keep_time repeatedOnce (by decide) rfl⟩

end AvcTool
