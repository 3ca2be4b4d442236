import Mathlib.Data.List.Nodup
import Mathlib.Data.List.Range
import Mathlib.Logic.Function.Basic
import AvcTool.Lib.Transition
import AvcTool.Thread.TaskCancelable

/-!
# The workers of a thread pool

`ThreadPool::async` appends a task to `pedding_` and posts the semaphore; a worker that has waited for it takes the
first task out, tests it and calls it.  All of this happens in single steps, which those of the other threads may
come between.  In particular a task may be cancelled after a worker has tested it, and also after `operator()` has
locked `weakTask_` and before it enters the function.

A lock that comes after the cancellation still finds the function if another call of the same task refers to it.  But a
task is taken out by one worker only (`HeldOnce`).
-/

namespace AvcTool

/-- A thread that calls the pool. -/
inductive PoolThread where
  | worker (i : Nat)
  | outside
  deriving DecidableEq

inductive WorkerPc where
  /-- in `onStart_` -/
  | starting
  | looping
  | waiting
  /-- about to lock the list -/
  | woken
  | taken (job : Option Nat)
  /-- `operator bool` was true -/
  | tested (h : Nat)
  /-- `weakTask_.lock()` has found the function -/
  | locked (h : Nat)
  | running (h : Nat)
  | ended
  deriving DecidableEq

/-- The worker executes code that may call the pool. -/
def WorkerPc.callsOut : WorkerPc → Bool
  | .starting => true
  | .running _ => true
  | _ => false

/-- The task that the worker has taken out. -/
def WorkerPc.job : WorkerPc → Option Nat
  | .taken job => job
  | .tested h => some h
  | .locked h => some h
  | .running h => some h
  | _ => none

/-- The task to whose function the worker refers by `strongTask`. -/
def WorkerPc.strongTask : WorkerPc → Option Nat
  | .locked h => some h
  | .running h => some h
  | _ => none

private theorem WorkerPc.job_of_strongTask {pc : WorkerPc} {h : Nat} (hpc : pc.strongTask = some h) :
    pc.job = some h := by
  cases pc <;> first | exact hpc | cases hpc

structure ThreadPool where
  capacity : Nat
  exit : Bool
  /-- `nn_` of the semaphore, an `int` that the tasks in memory do not bring to its limit -/
  sem : Int
  /-- the number of calls that have inserted a task and not yet posted the semaphore -/
  unposted : Nat
  pedding : List Nat
  workers : Nat → WorkerPc
  handles : TaskHandles
  log : List TaskEvent

inductive PoolAction where
  | async (t : PoolThread) (front maySync hasFunction : Bool)
  | post
  | cancel (h : Nat)
  /-- `exit_` is set and the semaphore posted, in one step -/
  | shutdown
  | started (i : Nat)
  | testExit (i : Nat)
  | wait (i : Nat)
  | take (i : Nat)
  | test (i : Nat)
  | lock (i : Nat)
  | call (i : Nat)
  | finish (i : Nat)
  deriving DecidableEq

namespace ThreadPool

def init (capacity : Nat) : ThreadPool :=
  { capacity := capacity, exit := false, sem := 0, unposted := 0, pedding := [],
    workers := fun i => if i < capacity then .starting else .ended, handles := .init, log := [] }

def currentThread (s : ThreadPool) : PoolThread → Bool
  | .worker i => i < s.capacity
  | .outside => false

def mayCall (s : ThreadPool) : PoolThread → Bool
  | .worker i => (s.workers i).callsOut
  | .outside => true

/-- The tasks to whose functions the workers refer. -/
def strongTasks (s : ThreadPool) : List Nat :=
  (List.range s.capacity).filterMap fun i => (s.workers i).strongTask

def goTo (s : ThreadPool) (i : Nat) (pc : WorkerPc) : ThreadPool :=
  { s with workers := Function.update s.workers i pc }

/-- `async` and `async_first`.  A function that is called at once has no handle. -/
def async (s : ThreadPool) (t : PoolThread) (front maySync hasFunction : Bool) : ThreadPool :=
  if maySync && s.currentThread t then s
  else { s with
    pedding := if front then s.handles.next :: s.pedding else s.pedding ++ [s.handles.next]
    unposted := s.unposted + 1
    handles := s.handles.create hasFunction }

/-- The locked section of `run`. -/
def take (s : ThreadPool) (i : Nat) : ThreadPool :=
  match s.pedding with
  | [] => s.goTo i (.taken none)
  | h :: pedding => { s with pedding := pedding }.goTo i (.taken (some h))

def test (s : ThreadPool) (i : Nat) : Option Nat → ThreadPool
  | some h => s.goTo i (if s.handles.isValid h then .tested h else .looping)
  | none => s.goTo i .looping

/-- The beginning of `operator()`, up to the test of the pointer. -/
def lock (s : ThreadPool) (i h : Nat) : ThreadPool :=
  s.goTo i (if s.handles.calls s.strongTasks h then .locked h else .looping)

def call (s : ThreadPool) (i h : Nat) : ThreadPool := { s.goTo i (.running h) with log := s.log ++ [.started h] }

/-- An exception from a task ends the process, so there is no step for it. -/
def step (s : ThreadPool) : PoolAction → Option ThreadPool
  | .async t front maySync hasFunction => if s.mayCall t then some (s.async t front maySync hasFunction) else none
  | .post => if 0 < s.unposted then some { s with unposted := s.unposted - 1, sem := s.sem + 1 } else none
  | .cancel h =>
    if h < s.handles.next then some { s with handles := s.handles.cancel h, log := s.log ++ [.cancelled h] } else none
  | .shutdown => some { s with exit := true, sem := s.sem + s.capacity }
  | .started i => if s.workers i = .starting then some (s.goTo i .looping) else none
  | .testExit i =>
    if s.workers i = .looping then some (s.goTo i (if s.exit then .ended else .waiting)) else none
  | .wait i => if s.workers i = .waiting ∧ s.sem ≠ 0 then some { s.goTo i .woken with sem := s.sem - 1 } else none
  | .take i => if s.workers i = .woken then some (s.take i) else none
  | .test i =>
    match s.workers i with
    | .taken job => some (s.test i job)
    | _ => none
  | .lock i =>
    match s.workers i with
    | .tested h => some (s.lock i h)
    | _ => none
  | .call i =>
    match s.workers i with
    | .locked h => some (s.call i h)
    | _ => none
  | .finish i =>
    match s.workers i with
    | .running _ => some (s.goTo i .looping)
    | _ => none

/-! ### What a step does to the tasks -/

/-- The task moves to another place, or nowhere; `i` is the worker that takes the step. -/
inductive Effect (s : ThreadPool) : PoolAction → ThreadPool → Prop where
  /-- no task moves, except that a worker may drop its own -/
  | went (a : PoolAction) (i : Nat) (pc : WorkerPc) (t : ThreadPool) (hold : s.workers i = .ended → pc = .ended)
    (hlocked : ∀ h, pc = .locked h → s.workers i = .locked h) (hjob : pc.job = none ∨ pc.job = (s.workers i).job)
    (hpedding : t.pedding = s.pedding) (hworkers : t.workers = Function.update s.workers i pc)
    (hhandles : t.handles = s.handles) (hlog : t.log = s.log) (hcapacity : t.capacity = s.capacity) : Effect s a t
  | added (a : PoolAction) (t : ThreadPool) (hasFunction : Bool)
    (hpedding : t.pedding.Perm (s.handles.next :: s.pedding)) (hworkers : t.workers = s.workers)
    (hhandles : t.handles = s.handles.create hasFunction) (hlog : t.log = s.log) (hcapacity : t.capacity = s.capacity) :
    Effect s a t
  | cancelled (h : Nat) :
    Effect s (.cancel h) { s with handles := s.handles.cancel h, log := s.log ++ [.cancelled h] }
  | took (i h : Nat) (pedding : List Nat) (hpc : s.workers i = .woken) (hpedding : s.pedding = h :: pedding) :
    Effect s (.take i) ({ s with pedding := pedding }.goTo i (.taken (some h)))
  | locked (i h : Nat) (hpc : s.workers i = .tested h) (hcalls : s.handles.calls s.strongTasks h = true) :
    Effect s (.lock i) (s.goTo i (.locked h))
  | called (i h : Nat) (hpc : s.workers i = .locked h) :
    Effect s (.call i) { s.goTo i (.running h) with log := s.log ++ [.started h] }

/-- A worker goes on without a task or with the one that it has. -/
theorem Effect.goTo {s : ThreadPool} {a : PoolAction} {i : Nat} {old : WorkerPc} (hpc : s.workers i = old)
    (pc : WorkerPc) (hold : old ≠ .ended) (hlocked : ∀ h, pc ≠ .locked h) (hjob : pc.job = none ∨ pc.job = old.job)
    {t : ThreadPool} (hpedding : t.pedding = s.pedding) (hworkers : t.workers = Function.update s.workers i pc)
    (hhandles : t.handles = s.handles) (hlog : t.log = s.log) (hcapacity : t.capacity = s.capacity) : Effect s a t := by
  subst hpc
  exact .went a i pc t (fun hended => absurd hended hold) (fun h heq => absurd heq (hlocked h)) hjob hpedding hworkers
    hhandles hlog hcapacity

theorem step_effect {s t : ThreadPool} {a : PoolAction} (h : s.step a = some t) : Effect s a t := by
  have hstay : ∀ t : ThreadPool, t.pedding = s.pedding → t.workers = s.workers → t.handles = s.handles →
      t.log = s.log → t.capacity = s.capacity → Effect s a t := by
    intro t hpedding hworkers hhandles hlog hcapacity
    refine .went a 0 (s.workers 0) t id (fun _ => id) (.inr rfl) hpedding ?_ hhandles hlog hcapacity
    rw [hworkers, Function.update_eq_self]
  cases a with
  | async th front maySync hasFunction =>
    obtain ⟨-, ⟨⟩⟩ := Option.ite_none_right_eq_some.1 h
    unfold async
    split
    · exact hstay s rfl rfl rfl rfl rfl
    · refine .added _ _ hasFunction ?_ rfl rfl rfl rfl
      cases front with
      | true => exact .refl _
      | false => exact List.perm_append_singleton _ _
  | post =>
    obtain ⟨-, ⟨⟩⟩ := Option.ite_none_right_eq_some.1 h
    exact hstay _ rfl rfl rfl rfl rfl
  | cancel x =>
    obtain ⟨-, ⟨⟩⟩ := Option.ite_none_right_eq_some.1 h
    exact .cancelled x
  | shutdown =>
    obtain rfl := Option.some.inj h
    exact hstay _ rfl rfl rfl rfl rfl
  | started i =>
    obtain ⟨hpc, ⟨⟩⟩ := Option.ite_none_right_eq_some.1 h
    exact .goTo hpc .looping (by simp) (by simp) (.inl rfl) rfl rfl rfl rfl rfl
  | testExit i =>
    obtain ⟨hpc, ⟨⟩⟩ := Option.ite_none_right_eq_some.1 h
    cases s.exit <;> exact .goTo hpc _ (by simp) (by simp) (.inl rfl) rfl rfl rfl rfl rfl
  | wait i =>
    obtain ⟨⟨hpc, -⟩, ⟨⟩⟩ := Option.ite_none_right_eq_some.1 h
    exact .goTo hpc .woken (by simp) (by simp) (.inl rfl) rfl rfl rfl rfl rfl
  | take i =>
    obtain ⟨hpc, ⟨⟩⟩ := Option.ite_none_right_eq_some.1 h
    unfold take
    split
    · exact .goTo hpc (.taken none) (by simp) (by simp) (.inl rfl) rfl rfl rfl rfl rfl
    · rename_i x pedding hpedding
      exact .took i x pedding hpc hpedding
  | test i =>
    simp only [step] at h
    split at h
    · rename_i job hpc
      obtain rfl := Option.some.inj h
      cases job with
      | none => exact .goTo hpc .looping (by simp) (by simp) (.inl rfl) rfl rfl rfl rfl rfl
      | some x =>
        by_cases hvalid : s.handles.isValid x = true
        · have htest : s.test i (some x) = s.goTo i (.tested x) := by simp [test, hvalid]
          rw [htest]
          exact .goTo hpc (.tested x) (by simp) (by simp) (.inr rfl) rfl rfl rfl rfl rfl
        · have htest : s.test i (some x) = s.goTo i .looping := by simp [test, hvalid]
          rw [htest]
          exact .goTo hpc .looping (by simp) (by simp) (.inl rfl) rfl rfl rfl rfl rfl
    · cases h
  | lock i =>
    simp only [step] at h
    split at h
    · rename_i x hpc
      obtain rfl := Option.some.inj h
      unfold lock
      split
      · rename_i hcalls
        exact .locked i x hpc hcalls
      · exact .goTo hpc .looping (by simp) (by simp) (.inl rfl) rfl rfl rfl rfl rfl
    · cases h
  | call i =>
    simp only [step] at h
    split at h
    · rename_i x hpc
      obtain rfl := Option.some.inj h
      exact .called i x hpc
    · cases h
  | finish i =>
    simp only [step] at h
    split at h
    · rename_i x hpc
      obtain rfl := Option.some.inj h
      exact .goTo hpc .looping (by simp) (by simp) (.inl rfl) rfl rfl rfl rfl rfl
    · cases h

/-! ### Every task is in one place -/

/-- A task is in the list once, or one worker has it. -/
structure HeldOnce (s : ThreadPool) : Prop where
  nodup : s.pedding.Nodup
  pedding_lt : ∀ h ∈ s.pedding, h < s.handles.next
  job_lt : ∀ i h, (s.workers i).job = some h → h < s.handles.next
  not_pedding : ∀ i h, (s.workers i).job = some h → h ∉ s.pedding
  unique : ∀ i j h, (s.workers i).job = some h → (s.workers j).job = some h → i = j

theorem heldOnce_init (capacity : Nat) : HeldOnce (init capacity) := by
  have hjob : ∀ i, ((init capacity).workers i).job = none := by
    intro i
    simp only [init]
    split <;> rfl
  exact ⟨.nil, nofun, fun i h hi => by simp [hjob] at hi, fun i h hi => by simp [hjob] at hi,
    fun i j h hi => by simp [hjob] at hi⟩

theorem HeldOnce.went {s t : ThreadPool} (hs : HeldOnce s) {i : Nat} {pc : WorkerPc}
    (hjob : pc.job = none ∨ pc.job = (s.workers i).job) (hpedding : t.pedding = s.pedding)
    (hworkers : t.workers = Function.update s.workers i pc) (hhandles : t.handles = s.handles) : HeldOnce t := by
  have hold : ∀ j h, (t.workers j).job = some h → (s.workers j).job = some h := by
    rw [hworkers, Function.forall_update_iff _ fun j (pc : WorkerPc) => ∀ h, pc.job = some h →
      (s.workers j).job = some h]
    refine ⟨fun h hh => ?_, fun _ _ _ hj => hj⟩
    rcases hjob with hjob | hjob <;> rw [hjob] at hh
    · cases hh
    · exact hh
  refine ⟨hpedding ▸ hs.nodup, ?_, ?_, ?_, ?_⟩
  · rw [hpedding, hhandles]
    exact hs.pedding_lt
  · rw [hhandles]
    exact fun j h hj => hs.job_lt j h (hold j h hj)
  · rw [hpedding]
    exact fun j h hj => hs.not_pedding j h (hold j h hj)
  · exact fun j k h hj hk => hs.unique j k h (hold j h hj) (hold k h hk)

theorem HeldOnce.added {s t : ThreadPool} (hs : HeldOnce s) {hasFunction : Bool}
    (hpedding : t.pedding.Perm (s.handles.next :: s.pedding)) (hworkers : t.workers = s.workers)
    (hhandles : t.handles = s.handles.create hasFunction) : HeldOnce t := by
  have hnext : t.handles.next = s.handles.next + 1 := by rw [hhandles]; rfl
  refine ⟨?_, ?_, ?_, ?_, hworkers ▸ hs.unique⟩
  · rw [hpedding.nodup_iff, List.nodup_cons]
    exact ⟨fun hmem => absurd (hs.pedding_lt _ hmem) (lt_irrefl _), hs.nodup⟩
  · intro h hmem
    rw [hpedding.mem_iff, List.mem_cons] at hmem
    rcases hmem with rfl | hmem
    · omega
    · have hlt := hs.pedding_lt h hmem
      omega
  · intro i h hi
    rw [hworkers] at hi
    have hlt := hs.job_lt i h hi
    omega
  · intro i h hi hmem
    rw [hworkers] at hi
    rw [hpedding.mem_iff, List.mem_cons] at hmem
    rcases hmem with rfl | hmem
    · exact absurd (hs.job_lt i _ hi) (lt_irrefl _)
    · exact hs.not_pedding i h hi hmem

theorem HeldOnce.took {s : ThreadPool} (hs : HeldOnce s) (i : Nat) {h : Nat} {pedding : List Nat}
    (hpedding : s.pedding = h :: pedding) : HeldOnce ({ s with pedding := pedding }.goTo i (.taken (some h))) := by
  obtain ⟨hnew, hnodup⟩ := List.nodup_cons.1 (hpedding ▸ hs.nodup)
  have hfirst : h ∈ s.pedding := by rw [hpedding]; exact List.mem_cons_self
  have hold : ∀ j h', (Function.update s.workers i (.taken (some h)) j).job = some h' →
      j = i ∧ h' = h ∨ (s.workers j).job = some h' := by
    rw [Function.forall_update_iff _ fun j (pc : WorkerPc) => ∀ h', pc.job = some h' →
      j = i ∧ h' = h ∨ (s.workers j).job = some h']
    exact ⟨fun h' hh => .inl ⟨rfl, (Option.some.inj hh).symm⟩, fun _ _ _ hj => .inr hj⟩
  refine ⟨hnodup, ?_, ?_, ?_, ?_⟩
  · intro h' hmem
    exact hs.pedding_lt h' (by rw [hpedding]; exact List.mem_cons_of_mem h hmem)
  · intro j h' hj
    rcases hold j h' hj with ⟨-, rfl⟩ | hj
    · exact hs.pedding_lt h' hfirst
    · exact hs.job_lt j h' hj
  · intro j h' hj hmem
    rcases hold j h' hj with ⟨-, rfl⟩ | hj
    · exact hnew hmem
    · exact hs.not_pedding j h' hj (by rw [hpedding]; exact List.mem_cons_of_mem h hmem)
  · intro j k h' hj hk
    rcases hold j h' hj with ⟨hji, heq⟩ | hj' <;> rcases hold k h' hk with ⟨hki, heq'⟩ | hk'
    · rw [hji, hki]
    · exact absurd (heq ▸ hfirst) (hs.not_pedding k h' hk')
    · exact absurd (heq' ▸ hfirst) (hs.not_pedding j h' hj')
    · exact hs.unique j k h' hj' hk'

/-- No other worker refers to the function of a task that a worker has taken out. -/
theorem HeldOnce.not_mem_strongTasks {s : ThreadPool} (hs : HeldOnce s) {i h : Nat} (hpc : s.workers i = .tested h) :
    h ∉ s.strongTasks := by
  intro hmem
  obtain ⟨j, -, hj⟩ := List.mem_filterMap.1 hmem
  obtain rfl := hs.unique i j h (by rw [hpc]; rfl) (WorkerPc.job_of_strongTask hj)
  rw [hpc] at hj
  cases hj

theorem heldOnce_step {s t : ThreadPool} {a : PoolAction} (hs : HeldOnce s) (h : s.step a = some t) : HeldOnce t := by
  cases step_effect h with
  | went _ i pc _ hold hlocked hjob hpedding hworkers hhandles hlog hcapacity =>
    exact hs.went hjob hpedding hworkers hhandles
  | added _ _ hasFunction hpedding hworkers hhandles hlog hcapacity => exact hs.added hpedding hworkers hhandles
  | cancelled x => exact ⟨hs.nodup, hs.pedding_lt, hs.job_lt, hs.not_pedding, hs.unique⟩
  | took i x pedding hpc hpedding => exact hs.took i hpedding
  | locked i x hpc hcalls =>
    have hjob : (WorkerPc.locked x).job = (s.workers i).job := by rw [hpc]; rfl
    exact hs.went (.inr hjob) rfl rfl rfl
  | called i x hpc =>
    have hjob : (WorkerPc.running x).job = (s.workers i).job := by rw [hpc]; rfl
    exact hs.went (.inr hjob) rfl rfl rfl

/-- The places beyond the capacity are of no worker. -/
def BeyondEnded (s : ThreadPool) : Prop := ∀ i, s.capacity ≤ i → s.workers i = .ended

theorem beyondEnded_init (capacity : Nat) : BeyondEnded (init capacity) := fun _ hi => if_neg (Nat.not_lt.2 hi)

theorem BeyondEnded.goTo {s : ThreadPool} (hs : BeyondEnded s) {i : Nat} (hi : s.workers i ≠ .ended) {pc : WorkerPc}
    (j : Nat) (hj : s.capacity ≤ j) : Function.update s.workers i pc j = .ended := by
  have hji : j ≠ i := by
    rintro rfl
    exact hi (hs j hj)
  rw [Function.update_of_ne hji, hs j hj]

theorem beyondEnded_step {s t : ThreadPool} {a : PoolAction} (hs : BeyondEnded s) (h : s.step a = some t) :
    BeyondEnded t := by
  cases step_effect h with
  | went _ i pc _ hold hlocked hjob hpedding hworkers hhandles hlog hcapacity =>
    intro j hj
    rw [hcapacity] at hj
    rw [hworkers]
    by_cases hji : j = i
    · subst hji
      rw [Function.update_self, hold (hs j hj)]
    · rw [Function.update_of_ne hji, hs j hj]
  | added _ _ hasFunction hpedding hworkers hhandles hlog hcapacity =>
    intro j hj
    rw [hworkers, hs j (hcapacity ▸ hj)]
  | cancelled x => exact hs
  | took i x pedding hpc hpedding => exact hs.goTo (by rw [hpc]; nofun)
  | locked i x hpc hcalls => exact hs.goTo (by rw [hpc]; nofun)
  | called i x hpc => exact hs.goTo (by rw [hpc]; nofun)

end ThreadPool

end AvcTool
