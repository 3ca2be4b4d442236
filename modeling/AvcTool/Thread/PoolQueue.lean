import Mathlib.Algebra.BigOperators.Group.Finset.Basic
import Mathlib.Data.Finset.Card
import AvcTool.Thread.ThreadPool
import AvcTool.Util.Semphore

/-!
# The list and the semaphore of a thread pool

The list of a `ThreadPool` has its mutex, and the semaphore counts apart from it.  As long as the pool is not shut
down, the list is as long as the number of tokens, of the callers that have not posted theirs yet, and of the workers
that have taken a token and not yet looked into the list (`Agreement`).  So a worker never finds the list empty, and
the workers never all wait for a token while there is a task in it.

`PoolRun` records which worker takes out which task.  Every task that has been created is in the list or has been
taken out once, and its function has been started unless it has been cancelled or is empty (`Accounted`).  The tasks
that have been created are those of the calls in the run (`Posted`).
-/

namespace AvcTool

/-- The task that the worker has taken out and not yet begun or dropped. -/
def WorkerPc.pending : WorkerPc → Option Nat
  | .taken job => job
  | .tested h => some h
  | .locked h => some h
  | _ => none

theorem WorkerPc.job_of_pending {pc : WorkerPc} {h : Nat} (hpc : pc.pending = some h) : pc.job = some h := by
  cases pc <;> first | exact hpc | cases hpc

/-- The number of steps until the worker waits again. -/
def WorkerPc.effort : WorkerPc → Nat
  | .starting => 2
  | .looping => 1
  | .waiting => 0
  | .woken => 6
  | .taken _ => 5
  | .tested _ => 4
  | .locked _ => 3
  | .running _ => 2
  | .ended => 0

/-- A step of a worker, or the end of a call of `async`. -/
def PoolAction.isOwn : PoolAction → Bool
  | .async _ _ _ _ => false
  | .cancel _ => false
  | .shutdown => false
  | _ => true

/-- The call puts its task into the list, and does not call the function itself; the value is whether the task has a
function. -/
def PoolAction.inserts (capacity : Nat) : PoolAction → Option Bool
  | .async t _ maySync hasFunction =>
    if maySync && (ThreadPool.init capacity).currentThread t then none else some hasFunction
  | _ => none

/-- A call of `async_first`. -/
def PoolAction.isFirst : PoolAction → Bool
  | .async _ front _ _ => front
  | _ => false

namespace ThreadPool

/-- The workers that have taken a token and not yet looked into the list. -/
def woken (s : ThreadPool) : Finset Nat :=
  (Finset.range s.capacity).filter fun i => s.workers i = .woken

/-- The number of steps of its own that the pool can take at most. -/
def effort (s : ThreadPool) : Nat :=
  8 * s.unposted + 7 * s.sem.toNat + ∑ i ∈ Finset.range s.capacity, (s.workers i).effort

/-- No worker can take a step, and no call of `async` has still to post the semaphore. -/
def Idle (s : ThreadPool) : Prop :=
  ∀ a : PoolAction, a.isOwn = true → s.step a = none

structure Agreement (s : ThreadPool) : Prop where
  exit : s.exit = false
  ended_iff : ∀ i, s.workers i = .ended ↔ s.capacity ≤ i
  nonneg : 0 ≤ s.sem
  count : (s.pedding.length : Int) = s.sem + s.unposted + s.woken.card

end ThreadPool

structure PoolRun where
  pool : ThreadPool
  /-- the workers and the tasks that they have taken out of the list -/
  popped : List (Nat × Nat)

namespace PoolRun

def init (capacity : Nat) : PoolRun := ⟨.init capacity, []⟩

/-- What the step takes out of the list. -/
def pops (s : ThreadPool) : PoolAction → List (Nat × Nat)
  | .take i => (s.pedding.head?.map fun h => (i, h)).toList
  | _ => []

def step (r : PoolRun) (a : PoolAction) : Option PoolRun :=
  (r.pool.step a).map fun t => ⟨t, r.popped ++ pops r.pool a⟩

def tasks (r : PoolRun) : List Nat := r.popped.map Prod.snd

/-- The tasks are those that the steps `as` have put into the list, numbered in this order. -/
structure Posted (capacity : Nat) (as : List PoolAction) (r : PoolRun) : Prop where
  count : r.pool.handles.next = (as.filterMap (PoolAction.inserts capacity)).length
  empty_iff : ∀ x, x ∈ r.pool.handles.empty ↔ (as.filterMap (PoolAction.inserts capacity))[x]? = some false
  cancelled_iff : ∀ x, x ∈ r.pool.handles.cancelled ↔ .cancel x ∈ as

structure Accounted (r : PoolRun) : Prop where
  perm : (r.tasks ++ r.pool.pedding).Perm (List.range r.pool.handles.next)
  job : ∀ i h, (r.pool.workers i).job = some h → (i, h) ∈ r.popped
  started_popped : ∀ h, .started h ∈ r.pool.log → h ∈ r.tasks
  started_le : ∀ h, r.pool.log.count (.started h) ≤ 1
  not_started : ∀ i h, (r.pool.workers i).pending = some h → .started h ∉ r.pool.log
  settled : ∀ h ∈ r.tasks, (∃ i, (r.pool.workers i).pending = some h) ∨ .started h ∈ r.pool.log ∨
    h ∈ r.pool.handles.cancelled ∨ h ∈ r.pool.handles.empty

/-- Each task is taken out once and run at most once, and the pool does not wait beside a task. -/
structure RunsOnce (r : PoolRun) : Prop where
  popped_once : r.tasks.Nodup
  created : ∀ h, h < r.pool.handles.next ↔ h ∈ r.tasks ∨ h ∈ r.pool.pedding
  started_once : ∀ h, r.pool.log.count (.started h) ≤ 1 ∧ (.started h ∈ r.pool.log → h ∈ r.tasks)
  /-- a worker is done with a task after it has started it, or the task has been cancelled or has no function -/
  settled : ∀ h ∈ r.tasks, (∀ i, (r.pool.workers i).pending ≠ some h) →
    .started h ∈ r.pool.log ∨ h ∈ r.pool.handles.cancelled ∨ h ∈ r.pool.handles.empty
  woken : ∀ i, r.pool.workers i = .woken → r.pool.pedding ≠ []
  not_idle : ¬ ((∀ i < r.pool.capacity, r.pool.workers i = .waiting) ∧ r.pool.sem = 0 ∧ r.pool.unposted = 0 ∧
    r.pool.pedding ≠ [])
  /-- left alone, the pool comes to rest, and then every task has been taken out and run -/
  completes : ∀ as t, (∀ a ∈ as, a.isOwn = true) → Transition.exec step r as = some t →
    as.length ≤ r.pool.effort ∧ (0 < t.pool.capacity → t.pool.Idle → ∀ h < t.pool.handles.next, h ∈ t.tasks ∧
      (.started h ∈ t.pool.log ∨ h ∈ t.pool.handles.cancelled ∨ h ∈ t.pool.handles.empty))

end PoolRun

namespace ThreadPool

/-! ### What a step of the open pool is -/

inductive Move (s : ThreadPool) : PoolAction → ThreadPool → Prop where
  /-- the caller is a worker and calls the function itself -/
  | direct (th : PoolThread) (front maySync hasFunction : Bool) (hdirect : (maySync && s.currentThread th) = true) :
    Move s (.async th front maySync hasFunction) s
  | inserted (th : PoolThread) (front maySync hasFunction : Bool) (hdirect : (maySync && s.currentThread th) = false)
    (pedding : List Nat)
    (hpedding : pedding = if front then s.handles.next :: s.pedding else s.pedding ++ [s.handles.next]) :
    Move s (.async th front maySync hasFunction)
      { s with pedding := pedding, unposted := s.unposted + 1, handles := s.handles.create hasFunction }
  | posted (hpos : 0 < s.unposted) : Move s .post { s with unposted := s.unposted - 1, sem := s.sem + 1 }
  | cancelled (h : Nat) : Move s (.cancel h) { s with handles := s.handles.cancel h, log := s.log ++ [.cancelled h] }
  /-- the worker goes on without a task, and has dropped the one it had for a reason -/
  | went (a : PoolAction) (i : Nat) (pc : WorkerPc) (hown : a.isOwn = true) (ha : ∀ j, a ≠ .take j)
    (hlt : pc.effort < (s.workers i).effort) (hold : s.workers i ≠ .woken) (hnew : pc = .looping ∨ pc = .waiting)
    (hrunning : ∀ h, s.workers i = .running h → a = .finish i)
    (hdropped : ∀ h, (s.workers i).pending = some h → h ∈ s.handles.cancelled ∨ h ∈ s.handles.empty) :
    Move s a (s.goTo i pc)
  | waited (i : Nat) (hpc : s.workers i = .waiting) (hsem : s.sem ≠ 0) :
    Move s (.wait i) { s.goTo i .woken with sem := s.sem - 1 }
  | took (i h : Nat) (pedding : List Nat) (hpc : s.workers i = .woken) (hpedding : s.pedding = h :: pedding) :
    Move s (.take i) ({ s with pedding := pedding }.goTo i (.taken (some h)))
  | tookNothing (i : Nat) (hpc : s.workers i = .woken) (hpedding : s.pedding = []) :
    Move s (.take i) (s.goTo i (.taken none))
  | tested (i h : Nat) (hpc : s.workers i = .taken (some h)) : Move s (.test i) (s.goTo i (.tested h))
  | locked (i h : Nat) (hpc : s.workers i = .tested h) : Move s (.lock i) (s.goTo i (.locked h))
  | began (i h : Nat) (hpc : s.workers i = .locked h) :
    Move s (.call i) { s.goTo i (.running h) with log := s.log ++ [.started h] }

/-- The worker goes back to its loop, after the step in which it has dropped its task. -/
theorem Move.looped {s : ThreadPool} {a : PoolAction} {i : Nat} {pc : WorkerPc} (hpc : s.workers i = pc)
    (hown : a.isOwn = true) (ha : ∀ j, a ≠ .take j) (hlt : 1 < pc.effort) (hold : pc ≠ .woken)
    (hrunning : ∀ h, pc = .running h → a = .finish i)
    (hdropped : ∀ h, pc.pending = some h → h ∈ s.handles.cancelled ∨ h ∈ s.handles.empty) :
    Move s a (s.goTo i .looping) := by
  subst hpc
  exact .went a i .looping hown ha hlt hold (.inl rfl) hrunning hdropped

theorem step_move {s t : ThreadPool} {a : PoolAction} (hexit : s.exit = false) (ha : a ≠ .shutdown)
    (h : s.step a = some t) : Move s a t := by
  cases a with
  | async th front maySync hasFunction =>
    obtain ⟨-, ⟨⟩⟩ := Option.ite_none_right_eq_some.1 h
    unfold async
    split
    · rename_i hdirect
      exact .direct th front maySync hasFunction hdirect
    · rename_i hdirect
      exact .inserted th front maySync hasFunction (by simpa using hdirect) _ rfl
  | post =>
    obtain ⟨hpos, ⟨⟩⟩ := Option.ite_none_right_eq_some.1 h
    exact .posted hpos
  | cancel x =>
    obtain ⟨-, ⟨⟩⟩ := Option.ite_none_right_eq_some.1 h
    exact .cancelled x
  | shutdown => exact absurd rfl ha
  | started i =>
    obtain ⟨hpc, ⟨⟩⟩ := Option.ite_none_right_eq_some.1 h
    exact .looped hpc rfl nofun (by decide) nofun nofun nofun
  | testExit i =>
    obtain ⟨hpc, ⟨⟩⟩ := Option.ite_none_right_eq_some.1 h
    rw [hexit]
    refine .went _ i .waiting rfl nofun ?_ ?_ (.inr rfl) ?_ ?_ <;> rw [hpc]
    · decide
    · decide
    · exact nofun
    · exact nofun
  | wait i =>
    obtain ⟨⟨hpc, hsem⟩, ⟨⟩⟩ := Option.ite_none_right_eq_some.1 h
    exact .waited i hpc hsem
  | take i =>
    obtain ⟨hpc, ⟨⟩⟩ := Option.ite_none_right_eq_some.1 h
    unfold take
    split
    · rename_i hpedding
      exact .tookNothing i hpc hpedding
    · rename_i x pedding hpedding
      exact .took i x pedding hpc hpedding
  | test i =>
    simp only [step] at h
    split at h
    · rename_i job hpc
      obtain rfl := Option.some.inj h
      cases job with
      | none =>
        exact .looped hpc rfl (by simp) (by decide) (by simp) (by simp) (by simp [WorkerPc.pending])
      | some x =>
        simp only [test]
        by_cases hvalid : s.handles.isValid x = true
        · rw [if_pos hvalid]
          exact .tested i x hpc
        · rw [if_neg hvalid]
          refine .looped hpc rfl (by simp) (show 1 < 5 by decide) (by simp) (by simp) fun y hy => ?_
          obtain rfl := Option.some.inj hy
          rw [TaskHandles.isValid_iff] at hvalid
          tauto
    · cases h
  | lock i =>
    simp only [step] at h
    split at h
    · rename_i x hpc
      obtain rfl := Option.some.inj h
      unfold lock
      split
      · exact .locked i x hpc
      · rename_i hcalls
        refine .looped hpc rfl (by simp) (show 1 < 4 by decide) (by simp) (by simp) fun y hy => ?_
        obtain rfl := Option.some.inj hy
        simp only [TaskHandles.calls, decide_eq_true_eq] at hcalls
        tauto
    · cases h
  | call i =>
    simp only [step] at h
    split at h
    · rename_i x hpc
      obtain rfl := Option.some.inj h
      exact .began i x hpc
    · cases h
  | finish i =>
    simp only [step] at h
    split at h
    · rename_i x hpc
      obtain rfl := Option.some.inj h
      exact .looped hpc rfl (by simp) (show 1 < 2 by decide) (by simp) (fun _ _ => rfl) (by simp [WorkerPc.pending])
    · cases h

/-! ### The semaphore of the pool -/

/-- What the step is for the semaphore. -/
def semActions (s : ThreadPool) : PoolAction → List Semphore.CountAction
  | .post => [.post 1]
  | .shutdown => [.post s.capacity]
  | .wait _ => [.wait]
  | _ => []

private theorem sem_step {s t : ThreadPool} {a : PoolAction} (hs : 0 ≤ s.sem) (h : s.step a = some t) :
    0 ≤ t.sem ∧ Transition.exec Semphore.count s.sem.toNat (s.semActions a) = some t.sem.toNat := by
  have hsame : t.sem = s.sem → s.semActions a = [] →
      0 ≤ t.sem ∧ Transition.exec Semphore.count s.sem.toNat (s.semActions a) = some t.sem.toNat := by
    intro hsem hnone
    rw [hsem, hnone]
    exact ⟨hs, rfl⟩
  have hpost : ∀ n : Nat, t.sem = s.sem + n → s.semActions a = [.post n] →
      0 ≤ t.sem ∧ Transition.exec Semphore.count s.sem.toNat (s.semActions a) = some t.sem.toNat := by
    intro n hsem hone
    have hsum : s.sem.toNat + n = t.sem.toNat := by omega
    rw [hone]
    exact ⟨by omega, congrArg some hsum⟩
  cases a with
  | async th front maySync hasFunction =>
    obtain ⟨-, ⟨⟩⟩ := Option.ite_none_right_eq_some.1 h
    refine hsame ?_ rfl
    unfold async
    split <;> rfl
  | post =>
    obtain ⟨-, ⟨⟩⟩ := Option.ite_none_right_eq_some.1 h
    exact hpost 1 rfl rfl
  | cancel x =>
    obtain ⟨-, ⟨⟩⟩ := Option.ite_none_right_eq_some.1 h
    exact hsame rfl rfl
  | shutdown =>
    obtain rfl := Option.some.inj h
    exact hpost s.capacity rfl rfl
  | started i =>
    obtain ⟨-, ⟨⟩⟩ := Option.ite_none_right_eq_some.1 h
    exact hsame rfl rfl
  | testExit i =>
    obtain ⟨-, ⟨⟩⟩ := Option.ite_none_right_eq_some.1 h
    exact hsame rfl rfl
  | wait i =>
    obtain ⟨⟨-, hsem⟩, ⟨⟩⟩ := Option.ite_none_right_eq_some.1 h
    have hpos : 0 < s.sem.toNat := by omega
    have hpred : s.sem.toNat - 1 = (s.sem - 1).toNat := by omega
    refine ⟨show 0 ≤ s.sem - 1 by omega, ?_⟩
    simp only [semActions, Transition.exec, Semphore.count, if_pos hpos, Option.bind_some, hpred]
  | take i =>
    obtain ⟨-, ⟨⟩⟩ := Option.ite_none_right_eq_some.1 h
    refine hsame ?_ rfl
    unfold take
    split <;> rfl
  | test i =>
    simp only [step] at h
    split at h
    · rename_i job hpc
      obtain rfl := Option.some.inj h
      refine hsame ?_ rfl
      cases job <;> rfl
    · cases h
  | lock i =>
    simp only [step] at h
    split at h
    · obtain rfl := Option.some.inj h
      exact hsame rfl rfl
    · cases h
  | call i =>
    simp only [step] at h
    split at h
    · obtain rfl := Option.some.inj h
      exact hsame rfl rfl
    · cases h
  | finish i =>
    simp only [step] at h
    split at h
    · obtain rfl := Option.some.inj h
      exact hsame rfl rfl
    · cases h

/-- The semaphore of the pool goes through a run of the counter. -/
theorem sem_exec {s t : ThreadPool} {as : List PoolAction} (hs : 0 ≤ s.sem)
    (h : Transition.exec step s as = some t) :
    0 ≤ t.sem ∧ ∃ cs, Transition.exec Semphore.count s.sem.toNat cs = some t.sem.toNat := by
  induction as generalizing s with
  | nil =>
    obtain rfl := Option.some.inj h
    exact ⟨hs, [], rfl⟩
  | cons a as ih =>
    obtain ⟨r, hsr, hrt⟩ := Transition.exec_cons.1 h
    obtain ⟨hr, hfirst⟩ := sem_step hs hsr
    obtain ⟨ht, cs, hcs⟩ := ih hr hrt
    exact ⟨ht, s.semActions a ++ cs, Transition.exec_append.2 ⟨r.sem.toNat, hfirst, hcs⟩⟩

/-! ### The list and the semaphore agree -/

private theorem mem_woken {s : ThreadPool} {i : Nat} : i ∈ s.woken ↔ i < s.capacity ∧ s.workers i = .woken := by
  rw [woken, Finset.mem_filter, Finset.mem_range]

private theorem woken_goTo_of_ne (s : ThreadPool) (i : Nat) {pc : WorkerPc} (hpc : pc ≠ .woken) :
    (s.goTo i pc).woken = s.woken.erase i := by
  ext j
  rw [Finset.mem_erase, mem_woken, mem_woken]
  change j < s.capacity ∧ Function.update s.workers i pc j = .woken ↔ _
  by_cases hji : j = i
  · subst hji
    simp [hpc]
  · simp [hji]

private theorem woken_goTo {s : ThreadPool} {i : Nat} {pc : WorkerPc} (hold : s.workers i ≠ .woken)
    (hpc : pc ≠ .woken) : (s.goTo i pc).woken = s.woken := by
  have hnot : i ∉ s.woken := fun hmem => hold (mem_woken.1 hmem).2
  rw [woken_goTo_of_ne s i hpc, Finset.erase_eq_of_notMem hnot]

private theorem woken_goTo_woken {s : ThreadPool} {i : Nat} (hi : i < s.capacity) :
    (s.goTo i .woken).woken = insert i s.woken := by
  ext j
  rw [Finset.mem_insert, mem_woken, mem_woken]
  change j < s.capacity ∧ Function.update s.workers i .woken j = .woken ↔ _
  by_cases hji : j = i
  · subst hji
    simp [hi]
  · simp [hji]

theorem Agreement.init (capacity : Nat) : Agreement (init capacity) := by
  have hworkers : ∀ i, (ThreadPool.init capacity).workers i = if i < capacity then .starting else .ended := fun _ => rfl
  have hwoken : (ThreadPool.init capacity).woken = ∅ := by
    ext i
    rw [mem_woken, hworkers]
    by_cases hi : i < capacity <;> simp [hi]
  refine ⟨rfl, fun i => ?_, ?_, ?_⟩
  · rw [hworkers]
    by_cases hi : i < capacity
    · simp [hi, ThreadPool.init]
    · simp [hi, ThreadPool.init, Nat.le_of_not_lt hi]
  · exact le_rfl
  · rw [hwoken]
    rfl

theorem Agreement.lt_capacity {s : ThreadPool} (hs : s.Agreement) {i : Nat} (hi : s.workers i ≠ .ended) :
    i < s.capacity := by
  have hnot : ¬ s.capacity ≤ i := fun h => hi ((hs.ended_iff i).2 h)
  omega

private theorem Agreement.ended_goTo {s : ThreadPool} (hs : s.Agreement) {i : Nat} {pc : WorkerPc}
    (hi : s.workers i ≠ .ended)
    (hpc : pc ≠ .ended) (j : Nat) : Function.update s.workers i pc j = .ended ↔ s.capacity ≤ j := by
  by_cases hji : j = i
  · subst hji
    have hlt := hs.lt_capacity hi
    simp only [Function.update_self, hpc, false_iff]
    omega
  · rw [Function.update_of_ne hji]
    exact hs.ended_iff j

theorem Agreement.move {s t : ThreadPool} {a : PoolAction} (hs : s.Agreement) (h : Move s a t) : t.Agreement := by
  have hcount := hs.count
  have hnonneg := hs.nonneg
  cases h with
  | direct th front maySync hasFunction hdirect => exact hs
  | inserted th front maySync hasFunction hdirect pedding hpedding =>
    refine ⟨hs.exit, hs.ended_iff, hs.nonneg, ?_⟩
    have hlength : pedding.length = s.pedding.length + 1 := by
      rw [hpedding]
      cases front <;> simp
    change (pedding.length : Int) = s.sem + (s.unposted + 1 : Nat) + s.woken.card
    omega
  | posted hpos =>
    refine ⟨hs.exit, hs.ended_iff, show 0 ≤ s.sem + 1 by omega, ?_⟩
    change (s.pedding.length : Int) = s.sem + 1 + (s.unposted - 1 : Nat) + s.woken.card
    omega
  | cancelled x => exact ⟨hs.exit, hs.ended_iff, hs.nonneg, hs.count⟩
  | went a i pc hown ha hlt hold hnew hrunning hdropped =>
    have hi : s.workers i ≠ .ended := by
      intro hended
      rw [hended] at hlt
      exact absurd hlt (Nat.not_lt_zero _)
    have hne : pc ≠ .woken ∧ pc ≠ .ended := by rcases hnew with rfl | rfl <;> exact ⟨nofun, nofun⟩
    refine ⟨hs.exit, hs.ended_goTo hi hne.2, hs.nonneg, ?_⟩
    rw [woken_goTo hold hne.1]
    exact hcount
  | waited i hpc hsem =>
    have hi : i < s.capacity := hs.lt_capacity (by rw [hpc]; nofun)
    have hnot : i ∉ s.woken := by
      intro hmem
      rw [mem_woken, hpc] at hmem
      exact absurd hmem.2 nofun
    refine ⟨hs.exit, hs.ended_goTo (by rw [hpc]; nofun) nofun, show 0 ≤ s.sem - 1 by omega, ?_⟩
    have hcard : (s.goTo i .woken).woken.card = s.woken.card + 1 := by
      rw [woken_goTo_woken hi, Finset.card_insert_of_notMem hnot]
    change (s.pedding.length : Int) = s.sem - 1 + s.unposted + (s.goTo i .woken).woken.card
    omega
  | took i x pedding hpc hpedding =>
    have hmem : i ∈ s.woken := mem_woken.2 ⟨hs.lt_capacity (by rw [hpc]; nofun), hpc⟩
    have hcard : (s.goTo i (.taken (some x))).woken.card + 1 = s.woken.card := by
      have hne : WorkerPc.taken (some x) ≠ .woken := nofun
      rw [woken_goTo_of_ne s i hne]
      exact Finset.card_erase_add_one hmem
    refine ⟨hs.exit, hs.ended_goTo (by rw [hpc]; nofun) nofun, hs.nonneg, ?_⟩
    rw [hpedding, List.length_cons] at hcount
    change (pedding.length : Int) = s.sem + s.unposted + (s.goTo i (.taken (some x))).woken.card
    omega
  | tookNothing i hpc hpedding =>
    -- a woken worker finds a task
    have hmem : i ∈ s.woken := mem_woken.2 ⟨hs.lt_capacity (by rw [hpc]; nofun), hpc⟩
    have hpos : 0 < s.woken.card := Finset.card_pos.2 ⟨i, hmem⟩
    rw [hpedding, List.length_nil] at hcount
    omega
  | tested i x hpc =>
    have hsame : (s.goTo i (.tested x)).woken = s.woken := woken_goTo (by rw [hpc]; nofun) nofun
    refine ⟨hs.exit, hs.ended_goTo (by rw [hpc]; nofun) nofun, hs.nonneg, ?_⟩
    rw [hsame]
    exact hcount
  | locked i x hpc =>
    have hsame : (s.goTo i (.locked x)).woken = s.woken := woken_goTo (by rw [hpc]; nofun) nofun
    refine ⟨hs.exit, hs.ended_goTo (by rw [hpc]; nofun) nofun, hs.nonneg, ?_⟩
    rw [hsame]
    exact hcount
  | began i x hpc =>
    have hsame : (s.goTo i (.running x)).woken = s.woken := woken_goTo (by rw [hpc]; nofun) nofun
    refine ⟨hs.exit, hs.ended_goTo (by rw [hpc]; nofun) nofun, hs.nonneg, ?_⟩
    change (s.pedding.length : Int) = s.sem + s.unposted + (s.goTo i (.running x)).woken.card
    rw [hsame]
    exact hcount

/-- A worker that has taken a token finds a task in the list. -/
theorem Agreement.nonempty {s : ThreadPool} (hs : s.Agreement) {i : Nat} (hi : s.workers i = .woken) :
    s.pedding ≠ [] := by
  have hmem : i ∈ s.woken := mem_woken.2 ⟨hs.lt_capacity (by rw [hi]; nofun), hi⟩
  have hpos : 0 < s.woken.card := Finset.card_pos.2 ⟨i, hmem⟩
  have hcount := hs.count
  have hnonneg := hs.nonneg
  intro hempty
  rw [hempty, List.length_nil] at hcount
  omega

/-- With no worker woken, the tasks are as many as the tokens and the callers that owe one. -/
private theorem Agreement.pedding_nil {s : ThreadPool} (hs : s.Agreement)
    (hwaiting : ∀ i < s.capacity, s.workers i = .waiting)
    (hsem : s.sem = 0) (hunposted : s.unposted = 0) : s.pedding = [] := by
  have hwoken : s.woken = ∅ := by
    rw [Finset.eq_empty_iff_forall_notMem]
    intro i hi
    rw [mem_woken] at hi
    rw [hwaiting i hi.1] at hi
    exact absurd hi.2 nofun
  have hcount := hs.count
  rw [hsem, hunposted, hwoken, Finset.card_empty] at hcount
  exact List.eq_nil_of_length_eq_zero (by omega)

end ThreadPool

namespace PoolRun

/-! ### Every task is accounted for -/

private theorem accounted_init (capacity : Nat) : Accounted (init capacity) := by
  have hjob : ∀ i, ((init capacity).pool.workers i).job = none ∧ ((init capacity).pool.workers i).pending = none := by
    intro i
    change (if i < capacity then WorkerPc.starting else .ended).job = none ∧
      (if i < capacity then WorkerPc.starting else .ended).pending = none
    split <;> exact ⟨rfl, rfl⟩
  refine ⟨.nil, ?_, nofun, fun _ => Nat.zero_le _, ?_, nofun⟩
  · intro i h hi
    rw [(hjob i).1] at hi
    cases hi
  · intro i h hi
    rw [(hjob i).2] at hi
    cases hi

theorem Accounted.tasks_lt {r : PoolRun} (hr : Accounted r) {h : Nat} (hh : h ∈ r.tasks) : h < r.pool.handles.next :=
  List.mem_range.1 (hr.perm.mem_iff.1 (List.mem_append_left _ hh))

theorem Accounted.nodup {r : PoolRun} (hr : Accounted r) : (r.tasks ++ r.pool.pedding).Nodup :=
  hr.perm.nodup_iff.2 List.nodup_range

/-- A worker goes on, with the task that it has or without it. -/
theorem Accounted.went {r : PoolRun} (hr : Accounted r) {t : ThreadPool} {i : Nat} {pc : WorkerPc}
    (hpedding : t.pedding = r.pool.pedding) (hworkers : t.workers = Function.update r.pool.workers i pc)
    (hhandles : t.handles = r.pool.handles) (hlog : t.log = r.pool.log)
    (hjob : pc.job = none ∨ pc.job = (r.pool.workers i).job)
    (hnew : ∀ h, pc.pending = some h → (r.pool.workers i).pending = some h)
    (hdropped : ∀ h, (r.pool.workers i).pending = some h →
      pc.pending = some h ∨ h ∈ r.pool.handles.cancelled ∨ h ∈ r.pool.handles.empty) :
    Accounted ⟨t, r.popped⟩ := by
  refine ⟨?_, ?_, ?_, ?_, ?_, ?_⟩
  · change (r.tasks ++ t.pedding).Perm (List.range t.handles.next)
    rw [hpedding, hhandles]
    exact hr.perm
  · change ∀ j h, (t.workers j).job = some h → (j, h) ∈ r.popped
    rw [hworkers, Function.forall_update_iff _ fun j (pc : WorkerPc) => ∀ h, pc.job = some h → (j, h) ∈ r.popped]
    refine ⟨fun h hh => ?_, fun j _ => hr.job j⟩
    rcases hjob with hnone | hsame
    · rw [hnone] at hh
      cases hh
    · exact hr.job i h (hsame ▸ hh)
  · intro h hh
    exact hr.started_popped h (hlog ▸ hh)
  · intro h
    change t.log.count _ ≤ 1
    rw [hlog]
    exact hr.started_le h
  · change ∀ j h, (t.workers j).pending = some h → .started h ∉ t.log
    rw [hworkers, hlog, Function.forall_update_iff _ fun (_ : Nat) (pc : WorkerPc) => ∀ h, pc.pending = some h →
      .started h ∉ r.pool.log]
    exact ⟨fun h hh => hr.not_started i h (hnew h hh), fun j _ => hr.not_started j⟩
  · intro h hh
    change (∃ j, (t.workers j).pending = some h) ∨ .started h ∈ t.log ∨ h ∈ t.handles.cancelled ∨ h ∈ t.handles.empty
    rw [hworkers, hlog, hhandles, Function.exists_update_iff _ fun (_ : Nat) (pc : WorkerPc) => pc.pending = some h]
    rcases hr.settled h hh with ⟨j, hj⟩ | hdone
    · by_cases hji : j = i
      · subst hji
        rcases hdropped h hj with hkept | hreason
        · exact .inl (.inl hkept)
        · exact .inr (.inr hreason)
      · exact .inl (.inr ⟨j, hji, hj⟩)
    · exact .inr hdone

/-- The new task is in the list. -/
theorem Accounted.inserted {r : PoolRun} (hr : Accounted r) {front hasFunction : Bool} {pedding : List Nat}
    {unposted : Nat} (hpedding : pedding = if front then r.pool.handles.next :: r.pool.pedding
      else r.pool.pedding ++ [r.pool.handles.next]) :
    Accounted ⟨{ r.pool with pedding := pedding, unposted := unposted, handles := r.pool.handles.create hasFunction },
      r.popped⟩ := by
  have hperm : pedding.Perm (r.pool.pedding ++ [r.pool.handles.next]) := by
    rw [hpedding]
    cases front with
    | true => exact (List.perm_append_singleton _ _).symm
    | false => exact .refl _
  refine ⟨?_, hr.job, hr.started_popped, hr.started_le, hr.not_started, fun h hh => ?_⟩
  · change (r.tasks ++ pedding).Perm (List.range (r.pool.handles.next + 1))
    rw [List.range_succ]
    refine (hperm.append_left _).trans ?_
    rw [← List.append_assoc]
    exact hr.perm.append_right _
  · rcases hr.settled h hh with hpending | hstarted | hcancelled | hempty
    · exact .inl hpending
    · exact .inr (.inl hstarted)
    · exact .inr (.inr (.inl hcancelled))
    · refine .inr (.inr (.inr ?_))
      change h ∈ (r.pool.handles.create hasFunction).empty
      unfold TaskHandles.create
      cases hasFunction with
      | true => exact hempty
      | false => exact Finset.mem_insert_of_mem hempty

theorem Accounted.cancelled {r : PoolRun} (hr : Accounted r) (x : Nat) :
    Accounted ⟨{ r.pool with handles := r.pool.handles.cancel x, log := r.pool.log ++ [.cancelled x] }, r.popped⟩ := by
  have hmem : ∀ h, TaskEvent.started h ∈ r.pool.log ++ [.cancelled x] ↔ .started h ∈ r.pool.log := by simp
  refine ⟨hr.perm, hr.job, ?_, ?_, ?_, ?_⟩
  · intro h hh
    exact hr.started_popped h ((hmem h).1 hh)
  · intro h
    have hle := hr.started_le h
    change (r.pool.log ++ [TaskEvent.cancelled x]).count (.started h) ≤ 1
    rw [List.count_append]
    simpa using hle
  · intro i h hi hh
    exact hr.not_started i h hi ((hmem h).1 hh)
  · intro h hh
    rcases hr.settled h hh with hpending | hstarted | hcancelled | hempty
    · exact .inl hpending
    · exact .inr (.inl ((hmem h).2 hstarted))
    · exact .inr (.inr (.inl (Finset.mem_insert_of_mem hcancelled)))
    · exact .inr (.inr (.inr hempty))

/-- A worker has taken the first task out of the list. -/
theorem Accounted.took {r : PoolRun} (hr : Accounted r) {i x : Nat} {pedding : List Nat}
    (hpc : r.pool.workers i = .woken) (hpedding : r.pool.pedding = x :: pedding) :
    Accounted ⟨{ r.pool with pedding := pedding }.goTo i (.taken (some x)), r.popped ++ [(i, x)]⟩ := by
  have htasks : tasks ⟨{ r.pool with pedding := pedding }.goTo i (.taken (some x)), r.popped ++ [(i, x)]⟩ =
      r.tasks ++ [x] := by
    unfold tasks
    rw [List.map_append]
    rfl
  have hfresh : x ∉ r.tasks := by
    have hnodup := hr.nodup
    rw [hpedding] at hnodup
    exact fun hx => (List.nodup_append.1 hnodup).2.2 x hx x List.mem_cons_self rfl
  refine ⟨?_, ?_, ?_, hr.started_le, ?_, ?_⟩
  · have hperm := hr.perm
    rw [hpedding] at hperm
    rw [htasks, List.append_assoc]
    exact hperm
  · refine (Function.forall_update_iff _ fun j (pc : WorkerPc) => ∀ h, pc.job = some h →
      (j, h) ∈ r.popped ++ [(i, x)]).2 ⟨?_, ?_⟩
    · rintro h ⟨⟩
      exact List.mem_append_right _ List.mem_cons_self
    · exact fun j _ h hj => List.mem_append_left _ (hr.job j h hj)
  · intro h hh
    rw [htasks]
    exact List.mem_append_left _ (hr.started_popped h hh)
  · refine (Function.forall_update_iff _ fun (_ : Nat) (pc : WorkerPc) => ∀ h, pc.pending = some h →
      .started h ∉ r.pool.log).2 ⟨?_, ?_⟩
    · rintro h ⟨⟩
      exact fun hh => hfresh (hr.started_popped x hh)
    · exact fun j _ => hr.not_started j
  · intro h hh
    change (∃ j, (Function.update r.pool.workers i (.taken (some x)) j).pending = some h) ∨ _
    rw [Function.exists_update_iff _ fun (_ : Nat) (pc : WorkerPc) => pc.pending = some h]
    rw [htasks] at hh
    rcases List.mem_append.1 hh with hh | hh
    · rcases hr.settled h hh with ⟨j, hj⟩ | hdone
      · have hji : j ≠ i := by
          rintro rfl
          rw [hpc] at hj
          cases hj
        exact .inl (.inr ⟨j, hji, hj⟩)
      · exact .inr hdone
    · obtain rfl := List.mem_singleton.1 hh
      exact .inl (.inl rfl)

/-- A worker has started the function of its task. -/
theorem Accounted.began {r : PoolRun} (hr : Accounted r) (hheld : r.pool.HeldOnce) {i x : Nat}
    (hpc : r.pool.workers i = .locked x) :
    Accounted ⟨{ r.pool.goTo i (.running x) with log := r.pool.log ++ [.started x] }, r.popped⟩ := by
  have hnew : .started x ∉ r.pool.log := hr.not_started i x (by rw [hpc]; rfl)
  have hpopped : x ∈ r.tasks := List.mem_map.2 ⟨(i, x), hr.job i x (by rw [hpc]; rfl), rfl⟩
  have hmem : ∀ h, TaskEvent.started h ∈ r.pool.log ++ [.started x] ↔ .started h ∈ r.pool.log ∨ h = x := by simp
  refine ⟨hr.perm, ?_, ?_, ?_, ?_, ?_⟩
  · refine (Function.forall_update_iff _ fun j (pc : WorkerPc) => ∀ h, pc.job = some h → (j, h) ∈ r.popped).2 ⟨?_, ?_⟩
    · exact fun h hj => hr.job i h (by rw [hpc]; exact hj)
    · exact fun j _ => hr.job j
  · intro h hh
    rcases (hmem h).1 hh with hh | rfl
    · exact hr.started_popped h hh
    · exact hpopped
  · intro h
    have hle := hr.started_le h
    change (r.pool.log ++ [TaskEvent.started x]).count (.started h) ≤ 1
    rw [List.count_append]
    by_cases hhx : h = x
    · subst hhx
      rw [List.count_eq_zero_of_not_mem hnew]
      simp
    · have hzero : [TaskEvent.started x].count (.started h) = 0 := by
        rw [List.count_eq_zero]
        simpa using hhx
      omega
  · refine (Function.forall_update_iff _ fun (_ : Nat) (pc : WorkerPc) => ∀ h, pc.pending = some h →
      .started h ∉ r.pool.log ++ [.started x]).2 ⟨?_, ?_⟩
    · rintro h ⟨⟩
    · intro j hji h hj hh
      rcases (hmem h).1 hh with hh | rfl
      · exact hr.not_started j h hj hh
      · -- one worker only has the task
        exact hji (hheld.unique j i h (WorkerPc.job_of_pending hj) (by rw [hpc]; rfl))
  · intro h hh
    change (∃ j, (Function.update r.pool.workers i (.running x) j).pending = some h) ∨
      .started h ∈ r.pool.log ++ [.started x] ∨ _
    rw [Function.exists_update_iff _ fun (_ : Nat) (pc : WorkerPc) => pc.pending = some h]
    rcases hr.settled h hh with ⟨j, hj⟩ | hstarted | hreason
    · by_cases hji : j = i
      · subst hji
        rw [hpc] at hj
        exact .inr (.inl ((hmem h).2 (.inr (Option.some.inj hj).symm)))
      · exact .inl (.inr ⟨j, hji, hj⟩)
    · exact .inr (.inl ((hmem h).2 (.inl hstarted)))
    · exact .inr (.inr hreason)

private theorem accounted_move {r : PoolRun} {t : ThreadPool} {a : PoolAction} (hr : Accounted r)
    (hheld : r.pool.HeldOnce) (h : r.pool.Move a t) : Accounted ⟨t, r.popped ++ pops r.pool a⟩ := by
  cases h with
  | direct th front maySync hasFunction hdirect =>
    change Accounted ⟨_, r.popped ++ []⟩
    rw [List.append_nil]
    exact hr
  | inserted th front maySync hasFunction hdirect pedding hpedding =>
    change Accounted ⟨_, r.popped ++ []⟩
    rw [List.append_nil]
    exact hr.inserted hpedding
  | posted hpos =>
    change Accounted ⟨_, r.popped ++ []⟩
    rw [List.append_nil]
    exact ⟨hr.perm, hr.job, hr.started_popped, hr.started_le, hr.not_started, hr.settled⟩
  | cancelled x =>
    change Accounted ⟨_, r.popped ++ []⟩
    rw [List.append_nil]
    exact hr.cancelled x
  | went a i pc hown ha hlt hold hnew hrunning hdropped =>
    have hpops : pops r.pool a = [] := by
      cases a with
      | take j => exact absurd rfl (ha j)
      | _ => rfl
    have hnone : pc.job = none ∧ pc.pending = none := by rcases hnew with rfl | rfl <;> exact ⟨rfl, rfl⟩
    rw [hpops, List.append_nil]
    refine hr.went rfl rfl rfl rfl (.inl hnone.1) ?_ fun h hh => .inr (hdropped h hh)
    intro h hh
    rw [hnone.2] at hh
    cases hh
  | waited i hpc hsem =>
    change Accounted ⟨_, r.popped ++ []⟩
    rw [List.append_nil]
    refine hr.went rfl rfl rfl rfl (.inl rfl) nofun ?_
    rw [hpc]
    exact nofun
  | took i x pedding hpc hpedding =>
    rw [pops, hpedding]
    exact hr.took hpc hpedding
  | tookNothing i hpc hpedding =>
    rw [pops, hpedding, List.head?_nil, Option.map_none, Option.toList_none, List.append_nil]
    refine hr.went rfl rfl rfl rfl (.inl rfl) nofun ?_
    rw [hpc]
    exact nofun
  | tested i x hpc =>
    change Accounted ⟨_, r.popped ++ []⟩
    rw [List.append_nil]
    refine hr.went rfl rfl rfl rfl (.inr ?_) ?_ ?_ <;> rw [hpc]
    · rfl
    · exact fun _ hh => hh
    · exact fun _ hh => .inl hh
  | locked i x hpc =>
    change Accounted ⟨_, r.popped ++ []⟩
    rw [List.append_nil]
    refine hr.went rfl rfl rfl rfl (.inr ?_) ?_ ?_ <;> rw [hpc]
    · rfl
    · exact fun _ hh => hh
    · exact fun _ hh => .inl hh
  | began i x hpc =>
    change Accounted ⟨_, r.popped ++ []⟩
    rw [List.append_nil]
    exact hr.began hheld hpc

structure Working (r : PoolRun) : Prop where
  agreement : r.pool.Agreement
  held : r.pool.HeldOnce
  accounted : Accounted r

theorem working_init (capacity : Nat) : Working (init capacity) :=
  ⟨.init capacity, ThreadPool.heldOnce_init capacity, accounted_init capacity⟩

private theorem step_pool {r t : PoolRun} {a : PoolAction} (h : r.step a = some t) :
    r.pool.step a = some t.pool ∧ t.popped = r.popped ++ pops r.pool a := by
  obtain ⟨s, hs, rfl⟩ := Option.map_eq_some_iff.1 h
  exact ⟨hs, rfl⟩

theorem working_step {r t : PoolRun} {a : PoolAction} (hr : Working r) (ha : a ≠ .shutdown) (h : r.step a = some t) :
    Working t := by
  obtain ⟨s, hs, rfl⟩ := Option.map_eq_some_iff.1 h
  have hmove := ThreadPool.step_move hr.agreement.exit ha hs
  exact ⟨hr.agreement.move hmove, ThreadPool.heldOnce_step hr.held hs, accounted_move hr.accounted hr.held hmove⟩

private theorem along_ne_shutdown {as : List PoolAction} (hno : .shutdown ∉ as) (r : PoolRun) :
    Transition.Along step (fun _ a => a ≠ .shutdown) r as := by
  have hmem : ∀ a ∈ as, a ≠ PoolAction.shutdown := by
    rintro a ha rfl
    exact hno ha
  exact Transition.along_of_forall_mem hmem r

private theorem working_exec {r t : PoolRun} {as : List PoolAction} (hr : Working r) (hno : .shutdown ∉ as)
    (h : Transition.exec step r as = some t) : Working t := by
  have hstep : ∀ (r : PoolRun) (a : PoolAction) (t : PoolRun), Working r → a ≠ .shutdown → r.step a = some t →
      Working t := fun _ _ _ hr ha h => working_step hr ha h
  exact Transition.exec_invariant_along hstep hr (along_ne_shutdown hno r) h

/-! ### The pool comes to rest -/

private theorem sum_goTo {s : ThreadPool} {i : Nat} (hi : i < s.capacity) (pc : WorkerPc) :
    (∑ j ∈ Finset.range s.capacity, (Function.update s.workers i pc j).effort) + (s.workers i).effort =
      (∑ j ∈ Finset.range s.capacity, (s.workers j).effort) + pc.effort := by
  have hmem : i ∈ Finset.range s.capacity := Finset.mem_range.2 hi
  have hrest : ∑ j ∈ (Finset.range s.capacity).erase i, (Function.update s.workers i pc j).effort =
      ∑ j ∈ (Finset.range s.capacity).erase i, (s.workers j).effort := by
    refine Finset.sum_congr rfl fun j hj => ?_
    rw [Function.update_of_ne (Finset.ne_of_mem_erase hj)]
  rw [← Finset.add_sum_erase _ _ hmem, ← Finset.add_sum_erase _ (fun j => (s.workers j).effort) hmem, hrest,
    Function.update_self]
  omega

private theorem effort_lt_of_move {s t : ThreadPool} {a : PoolAction} (hs : s.Agreement) (ha : a.isOwn = true)
    (h : s.Move a t) : t.effort < s.effort := by
  have hgo : ∀ (i : Nat) (pc : WorkerPc), s.workers i ≠ .ended →
      (∑ j ∈ Finset.range s.capacity, (Function.update s.workers i pc j).effort) + (s.workers i).effort =
        (∑ j ∈ Finset.range s.capacity, (s.workers j).effort) + pc.effort :=
    fun _ _ hi => sum_goTo (hs.lt_capacity hi) _
  have hnonneg := hs.nonneg
  unfold ThreadPool.effort
  cases h with
  | direct th front maySync hasFunction hdirect => cases ha
  | inserted th front maySync hasFunction hdirect pedding hpedding => cases ha
  | posted hpos =>
    simp only
    omega
  | cancelled x => cases ha
  | went a i pc hown ha hlt hold hnew hrunning hdropped =>
    have hi : s.workers i ≠ .ended := by
      intro hended
      rw [hended] at hlt
      exact absurd hlt (Nat.not_lt_zero _)
    have hsum := hgo i pc hi
    simp only [ThreadPool.goTo]
    omega
  | waited i hpc hsem =>
    have hsum := hgo i .woken (by rw [hpc]; nofun)
    rw [hpc] at hsum
    simp only [ThreadPool.goTo, WorkerPc.effort] at hsum ⊢
    omega
  | took i x pedding hpc hpedding =>
    have hsum := hgo i (.taken (some x)) (by rw [hpc]; nofun)
    rw [hpc] at hsum
    simp only [ThreadPool.goTo, WorkerPc.effort] at hsum ⊢
    omega
  | tookNothing i hpc hpedding =>
    have hsum := hgo i (.taken none) (by rw [hpc]; nofun)
    rw [hpc] at hsum
    simp only [ThreadPool.goTo, WorkerPc.effort] at hsum ⊢
    omega
  | tested i x hpc =>
    have hsum := hgo i (.tested x) (by rw [hpc]; nofun)
    rw [hpc] at hsum
    simp only [ThreadPool.goTo, WorkerPc.effort] at hsum ⊢
    omega
  | locked i x hpc =>
    have hsum := hgo i (.locked x) (by rw [hpc]; nofun)
    rw [hpc] at hsum
    simp only [ThreadPool.goTo, WorkerPc.effort] at hsum ⊢
    omega
  | began i x hpc =>
    have hsum := hgo i (.running x) (by rw [hpc]; nofun)
    rw [hpc] at hsum
    simp only [ThreadPool.goTo, WorkerPc.effort] at hsum ⊢
    omega

/-- When the pool rests, its workers wait, and the list is empty. -/
theorem idle_waiting {s : ThreadPool} (hs : s.Agreement) (hidle : s.Idle) :
    s.unposted = 0 ∧ (∀ i < s.capacity, s.workers i = .waiting ∧ s.sem = 0) := by
  refine ⟨?_, fun i hi => ?_⟩
  · by_contra hne
    have hnone := hidle .post rfl
    simp only [ThreadPool.step] at hnone
    rw [if_pos (Nat.pos_of_ne_zero hne)] at hnone
    cases hnone
  · cases hpc : s.workers i with
    | waiting =>
      refine ⟨rfl, ?_⟩
      by_contra hne
      have hnone := hidle (.wait i) rfl
      simp only [ThreadPool.step] at hnone
      rw [if_pos ⟨hpc, hne⟩] at hnone
      cases hnone
    | ended =>
      have hle := (hs.ended_iff i).1 hpc
      omega
    | starting =>
      have hnone := hidle (.started i) rfl
      simp [ThreadPool.step, hpc] at hnone
    | looping =>
      have hnone := hidle (.testExit i) rfl
      simp [ThreadPool.step, hpc] at hnone
    | woken =>
      have hnone := hidle (.take i) rfl
      simp [ThreadPool.step, hpc] at hnone
    | taken job =>
      have hnone := hidle (.test i) rfl
      simp [ThreadPool.step, hpc] at hnone
    | tested x =>
      have hnone := hidle (.lock i) rfl
      simp [ThreadPool.step, hpc] at hnone
    | locked x =>
      have hnone := hidle (.call i) rfl
      simp [ThreadPool.step, hpc] at hnone
    | running x =>
      have hnone := hidle (.finish i) rfl
      simp [ThreadPool.step, hpc] at hnone

/-- When the pool rests, every task has been taken out and run. -/
theorem Working.at_rest {r : PoolRun} (hr : Working r) (hcapacity : 0 < r.pool.capacity) (hidle : r.pool.Idle) {h : Nat}
    (hh : h < r.pool.handles.next) :
    h ∈ r.tasks ∧ (.started h ∈ r.pool.log ∨ h ∈ r.pool.handles.cancelled ∨ h ∈ r.pool.handles.empty) := by
  obtain ⟨hunposted, hwaiting⟩ := idle_waiting hr.agreement hidle
  have hempty : r.pool.pedding = [] :=
    hr.agreement.pedding_nil (fun i hi => (hwaiting i hi).1) (hwaiting 0 hcapacity).2 hunposted
  have hpopped : h ∈ r.tasks := by
    have hmem := hr.accounted.perm.mem_iff.2 (List.mem_range.2 hh)
    rwa [hempty, List.append_nil] at hmem
  refine ⟨hpopped, ?_⟩
  rcases hr.accounted.settled h hpopped with ⟨i, hi⟩ | hdone
  · exfalso
    by_cases hlt : i < r.pool.capacity
    · rw [(hwaiting i hlt).1] at hi
      cases hi
    · rw [(hr.agreement.ended_iff i).2 (Nat.le_of_not_lt hlt)] at hi
      cases hi
  · exact hdone

/-! ### Main results -/

private theorem not_mem_shutdown {as : List PoolAction} (hown : ∀ a ∈ as, a.isOwn = true) : .shutdown ∉ as := by
  intro hmem
  exact absurd (hown _ hmem) Bool.false_ne_true

/-- The pool takes no more steps of its own than its effort says. -/
theorem Working.length_le {r t : PoolRun} (hr : Working r) {as : List PoolAction} (hown : ∀ a ∈ as, a.isOwn = true)
    (h : Transition.exec step r as = some t) : as.length ≤ r.pool.effort := by
  have hstep : ∀ (r : PoolRun) (a : PoolAction) (t : PoolRun), Working r → a.isOwn = true → r.step a = some t →
      Working t ∧ t.pool.effort < r.pool.effort := by
    intro r a t hr ha hst
    have hne : a ≠ .shutdown := by
      rintro rfl
      cases ha
    have hmove := ThreadPool.step_move hr.agreement.exit hne (step_pool hst).1
    exact ⟨working_step hr hne hst, effort_lt_of_move hr.agreement ha hmove⟩
  have hle : as.length + t.pool.effort ≤ r.pool.effort := Transition.exec_measure_of_mem hstep hr hown h
  omega

private theorem Working.runsOnce {r : PoolRun} (hr : Working r) : RunsOnce r := by
  have hnodup := hr.accounted.nodup
  refine ⟨(List.nodup_append.1 hnodup).1, fun h => ?_,
    fun h => ⟨hr.accounted.started_le h, hr.accounted.started_popped h⟩, fun h hh hpending => ?_,
    fun i hi => hr.agreement.nonempty hi, ?_, fun as t hown hrun => ⟨hr.length_le hown hrun, ?_⟩⟩
  · rw [← List.mem_append, hr.accounted.perm.mem_iff, List.mem_range]
  · exact (hr.accounted.settled h hh).resolve_left fun ⟨i, hi⟩ => hpending i hi
  · rintro ⟨hwaiting, hsem, hunposted, hne⟩
    exact hne (hr.agreement.pedding_nil hwaiting hsem hunposted)
  · intro hcapacity hidle h hh
    exact (working_exec hr (not_mem_shutdown hown) hrun).at_rest hcapacity hidle hh

/-- The tasks in the order in which they have been created. -/
def InOrder (r : PoolRun) : Prop :=
  r.tasks ++ r.pool.pedding = List.range r.pool.handles.next

private theorem inOrder_step {r t : PoolRun} {a : PoolAction} (hr : Working r) (horder : InOrder r) (ha : a ≠ .shutdown)
    (hfirst : a.isFirst = false) (h : r.step a = some t) : InOrder t := by
  obtain ⟨s, hs, rfl⟩ := Option.map_eq_some_iff.1 h
  have hmove := ThreadPool.step_move hr.agreement.exit ha hs
  have hstay : ∀ {s : ThreadPool}, s.pedding = r.pool.pedding → s.handles.next = r.pool.handles.next →
      pops r.pool a = [] → InOrder ⟨s, r.popped ++ pops r.pool a⟩ := by
    intro s hpedding hnext hpops
    change (r.popped ++ pops r.pool a).map Prod.snd ++ s.pedding = List.range s.handles.next
    rw [hpops, List.append_nil, hpedding, hnext]
    exact horder
  cases hmove with
  | direct th front maySync hasFunction hdirect => exact hstay rfl rfl rfl
  | inserted th front maySync hasFunction hdirect pedding hpedding =>
    have hback : front = false := hfirst
    rw [hback] at hpedding
    change (r.popped ++ []).map Prod.snd ++ pedding = List.range (r.pool.handles.next + 1)
    rw [hpedding, List.append_nil, List.range_succ, ← horder, List.append_assoc]
    rfl
  | posted hpos => exact hstay rfl rfl rfl
  | cancelled x => exact hstay rfl rfl rfl
  | went a i pc hown ha hlt hold hnew hrunning hdropped =>
    refine hstay rfl rfl ?_
    cases a with
    | take j => exact absurd rfl (ha j)
    | _ => rfl
  | waited i hpc hsem => exact hstay rfl rfl rfl
  | took i x pedding hpc hpedding =>
    have hall := horder
    unfold InOrder at hall
    rw [hpedding] at hall
    change (r.popped ++ pops r.pool (.take i)).map Prod.snd ++ pedding = List.range r.pool.handles.next
    rw [pops, hpedding, ← hall, List.map_append, List.append_assoc]
    rfl
  | tookNothing i hpc hpedding =>
    refine hstay rfl rfl ?_
    rw [pops, hpedding]
    rfl
  | tested i x hpc => exact hstay rfl rfl rfl
  | locked i x hpc => exact hstay rfl rfl rfl
  | began i x hpc => exact hstay rfl rfl rfl

theorem currentThread_init (s : ThreadPool) (th : PoolThread) :
    (ThreadPool.init s.capacity).currentThread th = s.currentThread th := by
  cases th <;> rfl

/-- What a step does to the handles of the tasks. -/
theorem posted_step {r t : PoolRun} {a : PoolAction} (hr : Working r) (ha : a ≠ .shutdown) (h : r.step a = some t) :
    t.pool.capacity = r.pool.capacity ∧
      t.pool.handles.next = r.pool.handles.next + (a.inserts r.pool.capacity).toList.length ∧
      (∀ x, x ∈ t.pool.handles.empty ↔
        x ∈ r.pool.handles.empty ∨ x = r.pool.handles.next ∧ a.inserts r.pool.capacity = some false) ∧
      ∀ x, x ∈ t.pool.handles.cancelled ↔ x ∈ r.pool.handles.cancelled ∨ a = .cancel x := by
  obtain ⟨s, hs, rfl⟩ := Option.map_eq_some_iff.1 h
  cases ThreadPool.step_move hr.agreement.exit ha hs with
  | direct th front maySync hasFunction hdirect =>
    simp [PoolAction.inserts, currentThread_init, hdirect]
  | inserted th front maySync hasFunction hdirect pedding hpedding =>
    cases hasFunction <;> simp [PoolAction.inserts, currentThread_init, hdirect, TaskHandles.create, or_comm]
  | went _ i pc hown hnot hlt hold hnew hrunning hdropped =>
    cases a with
    | async => cases hown
    | cancel => cases hown
    | _ => simp [PoolAction.inserts, ThreadPool.goTo]
  | cancelled x => simp [PoolAction.inserts, TaskHandles.cancel, or_comm, eq_comm]
  | _ => simp [PoolAction.inserts, ThreadPool.goTo]

/-- The tasks of the pool are those of the calls of `async` and `async_first` in the run. -/
private theorem posted_exec {capacity : Nat} {as : List PoolAction} {r : PoolRun} (hno : .shutdown ∉ as)
    (h : Transition.exec step (init capacity) as = some r) : Posted capacity as r := by
  have hhistory : .shutdown ∉ as → r.pool.capacity = capacity ∧ Working r ∧ Posted capacity as r := by
    refine Transition.exec_history (P := fun as r => .shutdown ∉ as → r.pool.capacity = capacity ∧ Working r ∧
      Posted capacity as r) (fun as r a t hr hst hno => ?_) (fun _ => ?_) h
    · rw [List.mem_append, List.mem_singleton, not_or] at hno
      obtain ⟨hcapacity, hworking, hposted⟩ := hr hno.1
      obtain ⟨hsame, hnext, hempty, hcancelled⟩ := posted_step hworking (Ne.symm hno.2) hst
      rw [hcapacity] at hsame hnext hempty
      refine ⟨hsame, working_step hworking (Ne.symm hno.2) hst, ?_, fun x => ?_, fun x => ?_⟩
      · rw [Transition.filterMap_concat, List.length_append, hnext, hposted.count]
      · rw [hempty, hposted.empty_iff, hposted.count, Transition.filterMap_concat, Transition.getElem?_append_toList]
      · rw [hcancelled, hposted.cancelled_iff, List.mem_append, List.mem_singleton, eq_comm (a := a)]
    · exact ⟨rfl, working_init capacity, rfl, by simp [init, ThreadPool.init, TaskHandles.init],
        by simp [init, ThreadPool.init, TaskHandles.init]⟩
  exact (hhistory hno).2.2

/-- In every run before the shutdown the pool runs each task that has been posted once, and never waits beside a task;
without `async_first` it takes them out in the order of their insertion. -/
theorem runsOnce_exec (capacity : Nat) (as : List PoolAction) (r : PoolRun) (hno : .shutdown ∉ as)
    (h : Transition.exec step (init capacity) as = some r) :
    RunsOnce r ∧ Posted capacity as r ∧ ((∀ a ∈ as, a.isFirst = false) → InOrder r) := by
  refine ⟨(working_exec (working_init capacity) hno h).runsOnce, posted_exec hno h, fun hfirst => ?_⟩
  have hmem : ∀ a ∈ as, a ≠ PoolAction.shutdown ∧ a.isFirst = false := by
    intro a ha
    refine ⟨?_, hfirst a ha⟩
    rintro rfl
    exact hno ha
  have hstep : ∀ (r : PoolRun) (a : PoolAction) (t : PoolRun), Working r ∧ InOrder r →
      a ≠ .shutdown ∧ a.isFirst = false → r.step a = some t → Working t ∧ InOrder t := by
    rintro r a t ⟨hr, horder⟩ ⟨ha, hfirst⟩ hst
    exact ⟨working_step hr ha hst, inOrder_step hr horder ha hfirst hst⟩
  have hok : Transition.Along step (fun _ a => a ≠ .shutdown ∧ a.isFirst = false) (init capacity) as :=
    Transition.along_of_forall_mem hmem _
  exact (Transition.exec_invariant_along hstep ⟨working_init capacity, rfl⟩ hok h).2

def firstOfTwo : List PoolAction :=
  [.async .outside false true true, .async .outside false true true, .post, .started 1, .testExit 1, .wait 1, .take 1,
    .test 1, .lock 1, .call 1, .finish 1]

theorem runsOnce_exec_firstOfTwo :
    ∃ r, Transition.exec step (init 2) firstOfTwo = some r ∧ r.popped = [(1, 0)] ∧ r.pool.log = [.started 0] ∧
      RunsOnce r ∧ Posted 2 firstOfTwo r ∧ InOrder r := by
  obtain ⟨r, hrun, hpopped, hlog⟩ : ∃ r, Transition.exec step (init 2) firstOfTwo = some r ∧ r.popped = [(1, 0)] ∧
      r.pool.log = [.started 0] := ⟨_, rfl, rfl, rfl⟩
  obtain ⟨honce, hposted, horder⟩ := runsOnce_exec 2 firstOfTwo r (by decide) hrun
  exact ⟨r, hrun, hpopped, hlog, honce, hposted, horder (by decide)⟩

end PoolRun

end AvcTool
