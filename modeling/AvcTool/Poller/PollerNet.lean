import Mathlib.Algebra.BigOperators.Group.Finset.Basic
import Mathlib.Algebra.Order.BigOperators.Group.Finset
import Mathlib.Data.Set.Finite.Lemmas
import AvcTool.Poller.TaskQueue

/-!
# Pollers that hand tasks to each other

A pipe holds a bounded number of bytes, and its end for writing blocks, so a thread that hands in a task waits until
the poller has read the pipe.  The thread may be that of another poller, or, when the task is not to be called at once,
that of the poller itself.  In `sync` it waits until the task has ended, too.  Here `n` pollers, each in a thread of its
own, and any other threads hand tasks to each other.

Left to itself the system comes to an end, and then every poller has handled its tasks, has left its loop, or waits for
a poller that has left its loop or waits itself (`tasks_handled_or_deadlock`).  From such a deadlock no thread gets the
pollers out again.  It cannot come about when every poller hands tasks to later pollers only
(`tasks_handled_of_ordered`).
-/

namespace AvcTool

inductive NetThread (n : Nat) where
  | poller (i : Fin n)
  | other (m : Nat)
  deriving DecidableEq

/-- The thread as one that hands tasks to the poller `k`. -/
def NetThread.seenBy {n : Nat} (k : Fin n) : NetThread n → Thread
  | .poller i => if i = k then .poller else .producer i
  | .other m => .producer (n + m)

structure PollerNet (n : Nat) where
  queues : Fin n → TaskQueue
  /-- the task for which the thread of the poller waits in `sync` -/
  syncs : Fin n → Option (Fin n × Nat)

inductive NetAction (n : Nat) where
  | async (t : NetThread n) (k : Fin n) (front maySync : Bool)
  /-- `sync` or `sync_first` on another poller, up to the insertion of the task -/
  | sync (i k : Fin n) (front : Bool)
  | syncReturns (i : Fin n)
  | writePipe (t : NetThread n) (k : Fin n)
  | cancel (k : Fin n) (task : Nat)
  | loop (k : Fin n) (a : QueueAction)
  deriving DecidableEq

/-- The steps of `runLoop` and `onPipeEvent`. -/
def QueueAction.isLoop : QueueAction → Bool
  | .async _ _ _ => false
  | .writePipe _ => false
  | .cancel _ => false
  | _ => true

namespace NetAction

variable {n : Nat}

/-- The steps that work towards handling the tasks. -/
def completes : NetAction n → Bool
  | .writePipe _ _ => true
  | .syncReturns _ => true
  | .loop _ a => a.completes
  | _ => false

/-- Who hands a task to which poller, and whether it may be called at once. -/
def posts : NetAction n → Option (NetThread n × Fin n × Bool)
  | .async t k _ maySync => some (t, k, maySync)
  | .sync i k _ => some (.poller i, k, true)
  | _ => none

/-- A poller hands tasks to later pollers, and to itself such that they are called at once. -/
def ordered (a : NetAction n) : Bool :=
  match a.posts with
  | some (.poller i, k, maySync) => i < k || (i = k && maySync)
  | _ => true

end NetAction

/-- The task has been run, or was cancelled before. -/
def TaskQueue.ended (q : TaskQueue) (x : Nat) : Bool :=
  q.handled.any (fun p => p.1 = x) &&
    match q.pc with
    | .running y _ => y ≠ x
    | _ => true

namespace PollerNet

variable {n : Nat}

def init (n : Nat) : PollerNet n := ⟨fun _ => .init, fun _ => none⟩

/-- The thread has inserted a task and has yet to write to the pipe of the poller `k`. -/
def Writing (s : PollerNet n) (t : NetThread n) (k : Fin n) : Prop := t.seenBy k ∈ (s.queues k).unwritten

instance (s : PollerNet n) (t : NetThread n) (k : Fin n) : Decidable (s.Writing t k) :=
  inferInstanceAs (Decidable (_ ∈ _))

/-- A poller hands in tasks from its callbacks, one after the other. -/
def CallsOut (s : PollerNet n) (t : NetThread n) : Prop :=
  (∀ k, ¬ s.Writing t k) ∧
    match t with
    | .poller i => (s.queues i).pc.callsOut = true ∧ s.syncs i = none
    | .other _ => True

instance (s : PollerNet n) : ∀ t, Decidable (s.CallsOut t)
  | .poller i => inferInstanceAs (Decidable (_ ∧ (s.queues i).pc.callsOut = true ∧ s.syncs i = none))
  | .other _ => inferInstanceAs (Decidable (_ ∧ True))

/-- The thread of the poller is not inside `async` or `sync`. -/
def Free (s : PollerNet n) (i : Fin n) : Prop := (∀ k, ¬ s.Writing (.poller i) k) ∧ s.syncs i = none

instance (s : PollerNet n) (i : Fin n) : Decidable (s.Free i) := inferInstanceAs (Decidable (_ ∧ _))

def stepAt (s : PollerNet n) (k : Fin n) (a : QueueAction) : Option (PollerNet n) :=
  ((s.queues k).step a).map fun q => { s with queues := Function.update s.queues k q }

/-- A write blocks while the pipe is full, and a thread that is inside `async` or `sync` does nothing else.  `sync`
keeps the handle of its task to itself. -/
def step (capacity : Nat) (s : PollerNet n) : NetAction n → Option (PollerNet n)
  | .async t k front maySync =>
    if s.CallsOut t then s.stepAt k (.async (t.seenBy k) front maySync) else none
  | .sync i k front =>
    if s.CallsOut (.poller i) ∧ i ≠ k then
      (s.stepAt k (.async ((NetThread.poller i).seenBy k) front true)).map fun s' =>
        { s' with syncs := Function.update s.syncs i (some (k, (s.queues k).nextTask)) }
    else none
  | .syncReturns i =>
    match s.syncs i with
    | some (k, x) =>
      if (∀ k', ¬ s.Writing (.poller i) k') ∧ (s.queues k).ended x = true then
        some { s with syncs := Function.update s.syncs i none }
      else none
    | none => none
  | .writePipe t k => if (s.queues k).pipe < capacity then s.stepAt k (.writePipe (t.seenBy k)) else none
  | .cancel k task => if ∀ i, s.syncs i ≠ some (k, task) then s.stepAt k (.cancel task) else none
  | .loop k a => if a.isLoop = true ∧ s.Free k then s.stepAt k a else none

/-- The poller `i` cannot go on with its loop before the poller `k` has gone on: the pipe to which it is to write is
full, or the task for which it waits has not ended. -/
def WaitsFor (capacity : Nat) (s : PollerNet n) (i k : Fin n) : Prop :=
  s.Writing (.poller i) k ∧ (s.queues k).pipe = capacity ∨
    ∃ x, s.syncs i = some (k, x) ∧ (s.queues k).ended x = false

/-- Each of these pollers has left its loop or waits for one of them. -/
def Deadlocked (capacity : Nat) (s : PollerNet n) (C : Set (Fin n)) : Prop :=
  ∀ i ∈ C, (s.queues i).pc = .stopped ∨ ∃ k ∈ C, s.WaitsFor capacity i k

/-! ### Steps -/

variable {capacity : Nat} {s t : PollerNet n} {a : NetAction n}

private theorem exists_queueStep {k : Fin n} {b : QueueAction} (h : s.stepAt k b = some t) :
    ∃ q, (s.queues k).step b = some q ∧ t = { s with queues := Function.update s.queues k q } := by
  obtain ⟨q, hq, rfl⟩ := Option.map_eq_some_iff.1 h
  exact ⟨q, hq, rfl⟩

/-- The cases of `step`: the queue whose step it is, and what happens to the calls of `sync`. -/
inductive NetMove (capacity : Nat) (s : PollerNet n) : NetAction n → PollerNet n → Prop where
  | inserted (u : NetThread n) (k : Fin n) (front maySync : Bool) (q : TaskQueue) (hcalls : s.CallsOut u)
    (hq : (s.queues k).step (.async (u.seenBy k) front maySync) = some q) :
    NetMove capacity s (.async u k front maySync) ⟨Function.update s.queues k q, s.syncs⟩
  | synced (i k : Fin n) (front : Bool) (q : TaskQueue) (hcalls : s.CallsOut (.poller i)) (hne : i ≠ k)
    (hq : (s.queues k).step (.async ((NetThread.poller i).seenBy k) front true) = some q) :
    NetMove capacity s (.sync i k front)
      ⟨Function.update s.queues k q, Function.update s.syncs i (some (k, (s.queues k).nextTask))⟩
  | returned (i k : Fin n) (x : Nat) (hsync : s.syncs i = some (k, x)) (hended : (s.queues k).ended x = true) :
    NetMove capacity s (.syncReturns i) ⟨s.queues, Function.update s.syncs i none⟩
  | written (u : NetThread n) (k : Fin n) (q : TaskQueue) (hroom : (s.queues k).pipe < capacity)
    (hq : (s.queues k).step (.writePipe (u.seenBy k)) = some q) :
    NetMove capacity s (.writePipe u k) ⟨Function.update s.queues k q, s.syncs⟩
  | cancelled (k : Fin n) (task : Nat) (q : TaskQueue) (hq : (s.queues k).step (.cancel task) = some q) :
    NetMove capacity s (.cancel k task) ⟨Function.update s.queues k q, s.syncs⟩
  | looped (k : Fin n) (b : QueueAction) (q : TaskQueue) (hloop : b.isLoop = true) (hfree : s.Free k)
    (hq : (s.queues k).step b = some q) : NetMove capacity s (.loop k b) ⟨Function.update s.queues k q, s.syncs⟩

private theorem step_netMove (h : s.step capacity a = some t) : NetMove capacity s a t := by
  cases a with
  | async u k front maySync =>
    obtain ⟨hcalls, hat⟩ := Option.ite_none_right_eq_some.1 h
    obtain ⟨q, hq, rfl⟩ := exists_queueStep hat
    exact .inserted u k front maySync q hcalls hq
  | sync i k front =>
    obtain ⟨⟨hcalls, hne⟩, hmap⟩ := Option.ite_none_right_eq_some.1 h
    obtain ⟨r, hat, rfl⟩ := Option.map_eq_some_iff.1 hmap
    obtain ⟨q, hq, rfl⟩ := exists_queueStep hat
    exact .synced i k front q hcalls hne hq
  | syncReturns i =>
    cases hsync : s.syncs i with
    | none => simp [step, hsync] at h
    | some p =>
      obtain ⟨k, x⟩ := p
      simp only [step, hsync] at h
      obtain ⟨⟨-, hended⟩, ⟨⟩⟩ := Option.ite_none_right_eq_some.1 h
      exact .returned i k x hsync hended
  | writePipe u k =>
    obtain ⟨hroom, hat⟩ := Option.ite_none_right_eq_some.1 h
    obtain ⟨q, hq, rfl⟩ := exists_queueStep hat
    exact .written u k q hroom hq
  | cancel k task =>
    obtain ⟨-, hat⟩ := Option.ite_none_right_eq_some.1 h
    obtain ⟨q, hq, rfl⟩ := exists_queueStep hat
    exact .cancelled k task q hq
  | loop k b =>
    obtain ⟨⟨hloop, hfree⟩, hat⟩ := Option.ite_none_right_eq_some.1 h
    obtain ⟨q, hq, rfl⟩ := exists_queueStep hat
    exact .looped k b q hloop hfree hq

/-- Under which conditions a queue makes a step of its own. -/
structure Grounds (capacity : Nat) (s : PollerNet n) (a : NetAction n) (k : Fin n) (b : QueueAction) : Prop where
  written : ∀ x, b = .writePipe x → (s.queues k).pipe < capacity
  posted : ∀ x front maySync, b = .async x front maySync → ∃ u, x = u.seenBy k ∧ a.posts = some (u, k, maySync)
  looped : b.isLoop = true → s.Free k

private theorem NetMove.queue_cases (h : NetMove capacity s a t) (j : Fin n) :
    t.queues j = s.queues j ∨ ∃ b, (s.queues j).step b = some (t.queues j) ∧ Grounds capacity s a j b := by
  have hat : ∀ {k : Fin n} {q : TaskQueue} {b : QueueAction}, (s.queues k).step b = some q →
      Grounds capacity s a k b → Function.update s.queues k q j = s.queues j ∨
        ∃ b, (s.queues j).step b = some (Function.update s.queues k q j) ∧ Grounds capacity s a j b := by
    intro k q b hq hgrounds
    by_cases hj : j = k
    · subst hj
      rw [Function.update_self]
      exact .inr ⟨b, hq, hgrounds⟩
    · exact .inl (Function.update_of_ne hj _ _)
  cases h with
  | inserted u k front maySync q hcalls hq =>
    refine hat hq ⟨by simp, fun x front' maySync' heq => ?_, by simp [QueueAction.isLoop]⟩
    obtain ⟨rfl, rfl, rfl⟩ := QueueAction.async.inj heq
    exact ⟨u, rfl, rfl⟩
  | synced i k front q hcalls hne hq =>
    refine hat hq ⟨by simp, fun x front' maySync' heq => ?_, by simp [QueueAction.isLoop]⟩
    obtain ⟨rfl, rfl, rfl⟩ := QueueAction.async.inj heq
    exact ⟨.poller i, rfl, rfl⟩
  | returned => exact .inl rfl
  | written u k q hroom hq => exact hat hq ⟨fun _ _ => hroom, by simp, by simp [QueueAction.isLoop]⟩
  | cancelled k task q hq => exact hat hq ⟨by simp, by simp, by simp [QueueAction.isLoop]⟩
  | looped k b q hloop hfree hq =>
    refine hat hq ⟨fun x heq => ?_, fun x front maySync heq => ?_, fun _ => hfree⟩
    · rw [heq] at hloop
      cases hloop
    · rw [heq] at hloop
      cases hloop

/-- A step that is not one of the loop changes neither where the poller is nor what it has handled, and the pipe only
when it is a write. -/
private theorem quiet_of_not_loop {q r : TaskQueue} {a : QueueAction} (h : q.step a = some r)
    (hloop : a.isLoop = false) : r.pc = q.pc ∧ r.handled = q.handled ∧
      ((∀ u, a ≠ .writePipe u) → r.pipe = q.pipe ∧ q.unwritten ⊆ r.unwritten) := by
  cases step_move h with
  | called t front => exact ⟨rfl, rfl, fun _ => ⟨rfl, Finset.Subset.refl _⟩⟩
  | inserted t front maySync => cases front <;> exact ⟨rfl, rfl, fun _ => ⟨rfl, Finset.subset_insert _ _⟩⟩
  | written t => exact ⟨rfl, rfl, fun hne => absurd rfl (hne t)⟩
  | cancelled task => exact ⟨rfl, rfl, fun _ => ⟨rfl, Finset.Subset.refl _⟩⟩
  | _ => cases hloop

private theorem pipe_le_of_loop {q r : TaskQueue} {a : QueueAction} (h : q.step a = some r) (hloop : a.isLoop = true) :
    r.pipe ≤ q.pipe ∧ r.unwritten = q.unwritten := by
  cases step_move h with
  | called t front => cases hloop
  | inserted t front maySync => cases hloop
  | written t => cases hloop
  | cancelled task => cases hloop
  | read hpc hpipe => exact ⟨Nat.sub_le _ _, rfl⟩
  | _ => exact ⟨Nat.le_refl _, rfl⟩

private theorem pipe_le_or_written {q r : TaskQueue} {a : QueueAction} (h : q.step a = some r) :
    r.pipe ≤ q.pipe ∨ (∃ x, a = .writePipe x) ∧ r.pipe = q.pipe + 1 := by
  cases hloop : a.isLoop with
  | true => exact .inl (pipe_le_of_loop h hloop).1
  | false =>
    cases a with
    | writePipe u =>
      obtain ⟨-, ⟨⟩⟩ := Option.ite_none_right_eq_some.1 h
      exact .inr ⟨⟨u, rfl⟩, rfl⟩
    | _ => exact .inl (Nat.le_of_eq ((quiet_of_not_loop h hloop).2.2 (by simp)).1)

private theorem mem_unwritten_step {q r : TaskQueue} {a : QueueAction} (h : q.step a = some r) {x : Thread}
    (hx : x ∈ r.unwritten) :
    x ∈ q.unwritten ∨ ∃ front maySync, a = .async x front maySync ∧ (maySync && x.currentThread) = false := by
  cases hloop : a.isLoop with
  | true => exact .inl ((pipe_le_of_loop h hloop).2 ▸ hx)
  | false =>
    cases a with
    | async u front maySync =>
      simp only [TaskQueue.step] at h
      split at h
      · cases h
      · split at h <;> obtain rfl := Option.some.inj h
        · exact .inl hx
        · rename_i hsync
          have hnew : x ∈ insert u q.unwritten := hx
          rcases Finset.mem_insert.1 hnew with rfl | hold
          · exact .inr ⟨front, maySync, rfl, by simpa using hsync⟩
          · exact .inl hold
    | writePipe u =>
      obtain ⟨-, ⟨⟩⟩ := Option.ite_none_right_eq_some.1 h
      exact .inl (Finset.mem_of_mem_erase hx)
    | cancel task =>
      obtain ⟨-, ⟨⟩⟩ := Option.ite_none_right_eq_some.1 h
      exact .inl hx
    | _ => cases hloop

private theorem step_eq_none_of_stopped {q : TaskQueue} {a : QueueAction} (hpc : q.pc = .stopped)
    (hloop : a.isLoop = true) : q.step a = none := by
  cases a <;> simp_all [TaskQueue.step, TaskQueue.nextOfBatch, TaskQueue.finishTask, QueueAction.isLoop]

private theorem mem_order_step {q r : TaskQueue} {b : QueueAction} (h : q.step b = some r) {x : Nat}
    (hx : x ∈ q.batches.flatten ++ q.tasks) : x ∈ r.batches.flatten ++ r.tasks := by
  cases step_move h with
  | inserted t front maySync =>
    rcases List.mem_append.1 hx with hx | hx
    · exact List.mem_append.2 (.inl (by cases front <;> exact hx))
    · refine List.mem_append.2 (.inr ?_)
      cases front with
      | true => exact List.mem_cons_of_mem _ hx
      | false => exact List.mem_append.2 (.inl hx)
  | swapped hpc => simpa using hx
  | _ => exact hx

private theorem nextTask_mem_of_async {q r : TaskQueue} {u : Thread} {front maySync : Bool}
    (h : q.step (.async u front maySync) = some r) (hsync : (maySync && u.currentThread) = false) :
    q.nextTask ∈ r.batches.flatten ++ r.tasks := by
  simp only [TaskQueue.step, hsync] at h
  split at h
  · cases h
  · obtain rfl := Option.some.inj h
    refine List.mem_append.2 (.inr ?_)
    cases front <;> simp [TaskQueue.insertTask]

/-! ### The invariant -/

structure NetInv (capacity : Nat) (s : PollerNet n) : Prop where
  queue : ∀ k, QueueInv (s.queues k)
  pipe_le : ∀ k, (s.queues k).pipe ≤ capacity
  known : ∀ k x, x ∈ (s.queues k).unwritten → ∃ u : NetThread n, x = u.seenBy k
  synced : ∀ i k x, s.syncs i = some (k, x) → x ∈ (s.queues k).batches.flatten ++ (s.queues k).tasks

theorem NetInv.init : NetInv capacity (init n) :=
  ⟨fun _ => QueueInv.init, fun _ => Nat.zero_le _, by simp [PollerNet.init, TaskQueue.init],
    by simp [PollerNet.init]⟩

private theorem step_netInv (s : PollerNet n) (a : NetAction n) (t : PollerNet n) (h : NetInv capacity s)
    (hstep : s.step capacity a = some t) : NetInv capacity t := by
  have hmove := step_netMove hstep
  have horder : ∀ k x, x ∈ (s.queues k).batches.flatten ++ (s.queues k).tasks →
      x ∈ (t.queues k).batches.flatten ++ (t.queues k).tasks := by
    intro k x hx
    rcases hmove.queue_cases k with heq | ⟨b, hb, -⟩
    · rwa [heq]
    · exact mem_order_step hb hx
  refine ⟨fun k => ?_, fun k => ?_, fun k x hx => ?_, fun i k x hsync => ?_⟩
  · rcases hmove.queue_cases k with heq | ⟨b, hb, -⟩
    · rw [heq]
      exact h.queue k
    · exact step_queueInv _ _ _ (h.queue k) hb
  · rcases hmove.queue_cases k with heq | ⟨b, hb, hgrounds⟩
    · rw [heq]
      exact h.pipe_le k
    · rcases pipe_le_or_written hb with hle | ⟨⟨x, hx⟩, heq⟩
      · exact hle.trans (h.pipe_le k)
      · rw [heq]
        exact hgrounds.written x hx
  · rcases hmove.queue_cases k with heq | ⟨b, hb, hgrounds⟩
    · rw [heq] at hx
      exact h.known k x hx
    · rcases mem_unwritten_step hb hx with hold | ⟨front, maySync, hpost, -⟩
      · exact h.known k x hold
      · obtain ⟨u, hu, -⟩ := hgrounds.posted x front maySync hpost
        exact ⟨u, hu⟩
  · cases hmove with
    | synced i' k' front q hcalls hne hq =>
      by_cases hi : i = i'
      · subst hi
        obtain ⟨rfl, rfl⟩ : k' = k ∧ (s.queues k').nextTask = x := by simpa using hsync
        have hmem := nextTask_mem_of_async hq (by simp [NetThread.seenBy, hne, Thread.currentThread])
        simpa using hmem
      · exact horder k x (h.synced i k x (by simpa [hi] using hsync))
    | returned i' k' y hsync' hended =>
      by_cases hi : i = i'
      · subst hi
        simp at hsync
      · exact h.synced i k x (by simpa [hi] using hsync)
    | _ => exact horder k x (h.synced i k x hsync)

/-! ### Deadlocks -/

private theorem ended_congr {q r : TaskQueue} (hpc : r.pc = q.pc) (hhandled : r.handled = q.handled) (x : Nat) :
    r.ended x = q.ended x := by
  simp only [TaskQueue.ended, hpc, hhandled]

private theorem NetMove.syncs_eq (h : NetMove capacity s a t) {i k : Fin n} {x : Nat} (hsync : s.syncs i = some (k, x))
    (hended : (s.queues k).ended x = false) : t.syncs i = some (k, x) := by
  cases h with
  | synced i' k' front q hcalls hne hq =>
    have hi : i ≠ i' := by
      rintro rfl
      rw [hcalls.2.2] at hsync
      cases hsync
    exact (Function.update_of_ne hi _ _).trans hsync
  | returned i' k' y hsync' hended' =>
    have hi : i ≠ i' := by
      rintro rfl
      obtain ⟨rfl, rfl⟩ : k = k' ∧ x = y := by simpa using hsync.symm.trans hsync'
      rw [hended] at hended'
      cases hended'
    exact (Function.update_of_ne hi _ _).trans hsync
  | _ => exact hsync

/-- A step leaves the pollers of a deadlock where they are, and their full pipes full. -/
theorem Deadlocked.frame {C : Set (Fin n)} (h : Deadlocked capacity s C) (hmove : NetMove capacity s a t) {i : Fin n}
    (hi : i ∈ C) :
    (t.queues i).pc = (s.queues i).pc ∧ (t.queues i).handled = (s.queues i).handled ∧
      ((s.queues i).pipe = capacity →
        (t.queues i).pipe = capacity ∧ (s.queues i).unwritten ⊆ (t.queues i).unwritten) := by
  rcases hmove.queue_cases i with heq | ⟨b, hb, hgrounds⟩
  · rw [heq]
    exact ⟨rfl, rfl, fun hfull => ⟨hfull, Finset.Subset.refl _⟩⟩
  · cases hloop : b.isLoop with
    | true =>
      -- a poller of the deadlock has no step of its loop
      have hfree := hgrounds.looped hloop
      rcases h i hi with hpc | ⟨k, -, ⟨hwrites, -⟩ | ⟨x, hsync, -⟩⟩
      · rw [step_eq_none_of_stopped hpc hloop] at hb
        cases hb
      · exact absurd hwrites (hfree.1 k)
      · rw [hfree.2] at hsync
        cases hsync
    | false =>
      obtain ⟨hpc, hhandled, hpipe⟩ := quiet_of_not_loop hb hloop
      refine ⟨hpc, hhandled, fun hfull => ?_⟩
      have hnot : ∀ u, b ≠ .writePipe u := by
        rintro u rfl
        exact absurd hfull (Nat.ne_of_lt (hgrounds.written u rfl))
      exact ⟨(hpipe hnot).1.trans hfull, (hpipe hnot).2⟩

private theorem Deadlocked.of_netMove {C : Set (Fin n)} (h : Deadlocked capacity s C) (hmove : NetMove capacity s a t) :
    Deadlocked capacity t C := by
  intro i hi
  rcases h i hi with hpc | ⟨k, hk, ⟨hwrites, hfull⟩ | ⟨x, hsync, hended⟩⟩
  · exact .inl ((h.frame hmove hi).1.trans hpc)
  · obtain ⟨hfull', hsub⟩ := (h.frame hmove hk).2.2 hfull
    exact .inr ⟨k, hk, .inl ⟨hsub hwrites, hfull'⟩⟩
  · obtain ⟨hpc, hhandled, -⟩ := h.frame hmove hk
    exact .inr ⟨k, hk, .inr ⟨x, hmove.syncs_eq hsync hended, (ended_congr hpc hhandled x).trans hended⟩⟩

private theorem Deadlocked.forever {C : Set (Fin n)} (h : Deadlocked capacity s C) {as : List (NetAction n)}
    (hrun : Transition.exec (step capacity) s as = some t) :
    ∀ i ∈ C, (t.queues i).pc = (s.queues i).pc ∧ (t.queues i).handled = (s.queues i).handled := by
  have hkeep : ∀ (r : PollerNet n) a r', (Deadlocked capacity r C ∧ ∀ i ∈ C,
      (r.queues i).pc = (s.queues i).pc ∧ (r.queues i).handled = (s.queues i).handled) →
      r.step capacity a = some r' → Deadlocked capacity r' C ∧ ∀ i ∈ C,
        (r'.queues i).pc = (s.queues i).pc ∧ (r'.queues i).handled = (s.queues i).handled := by
    intro r a r' ⟨hr, hsame⟩ hstep
    refine ⟨hr.of_netMove (step_netMove hstep), fun i hi => ?_⟩
    obtain ⟨hpc, hhandled, -⟩ := hr.frame (step_netMove hstep) hi
    exact ⟨hpc.trans (hsame i hi).1, hhandled.trans (hsame i hi).2⟩
  exact (Transition.exec_invariant hkeep ⟨h, fun _ _ => ⟨rfl, rfl⟩⟩ hrun).2

/-! ### What the system comes to -/

/-- The steps of the loop do not depend on the other threads that are about to write. -/
private theorem alone_eq_none {q : TaskQueue} {a : QueueAction} (hpoller : .poller ∉ q.unwritten)
    (hloop : a.isLoop = true) (h : q.step a = none) : { q with unwritten := ∅ }.step a = none := by
  cases a with
  | async => cases hloop
  | writePipe => cases hloop
  | cancel => cases hloop
  | sleep => simpa [TaskQueue.step, hpoller] using h
  | wake pipeEvent => simpa [TaskQueue.step] using h
  | onPipeEvent => simpa [TaskQueue.step, hpoller] using h
  | read =>
    simp only [TaskQueue.step] at h ⊢
    split at h
    · split at h <;> cases h
    · rename_i hpc
      rw [if_neg hpc]
  | swap =>
    simp only [TaskQueue.step] at h ⊢
    split at h
    · split at h <;> cases h
    · rename_i hpc
      rw [if_neg hpc]
  | next =>
    simp only [TaskQueue.step, TaskQueue.nextOfBatch] at h ⊢
    cases hpc : q.pc with
    | batch rest =>
      cases rest with
      | nil => simp [hpc] at h
      | cons x rest =>
        simp only [hpc] at h
        split at h <;> cases h
    | _ => rfl
  | finish o =>
    simp only [TaskQueue.step, TaskQueue.finishTask] at h ⊢
    cases hpc : q.pc with
    | running x rest => simp [hpc, hpoller] at h
    | _ => rfl
  | testExit =>
    simp only [TaskQueue.step, hpoller] at h ⊢
    split at h
    · split at h <;> cases h
    · rename_i hpc
      exact if_neg (by simpa using hpc)

/-- A poller that is not inside `async` or `sync` and has no step of its loop has ended the loop, or it waits for an
event with an empty pipe. -/
private theorem rest_of_no_step {k : Fin n} (hfree : s.Free k)
    (hstuck : ∀ a : NetAction n, a.completes = true → s.step capacity a = none) :
    (s.queues k).pc = .stopped ∨ (s.queues k).pc = .waiting ∧ (s.queues k).pipe = 0 := by
  have hpoller : .poller ∉ (s.queues k).unwritten := by simpa [Writing, NetThread.seenBy] using hfree.1 k
  have hnone : ∀ a : QueueAction, a.isLoop = true → a.completes = true → (s.queues k).step a = none := by
    intro a hloop ha
    have hat := hstuck (.loop k a) ha
    rw [step, if_pos ⟨hloop, hfree⟩] at hat
    simpa [stepAt] using hat
  have halone : ∀ a, a.completes = true → { s.queues k with unwritten := ∅ }.step a = none := by
    intro a ha
    cases hloop : a.isLoop with
    | true => exact alone_eq_none hpoller hloop (hnone a hloop ha)
    | false =>
      cases a with
      | writePipe u => simp [TaskQueue.step]
      | async => cases ha
      | cancel => cases ha
      | _ => cases hloop
  rcases rest_of_stuck halone with hpc | ⟨hpc, hpipe, -⟩
  · exact .inl hpc
  · exact .inr ⟨hpc, hpipe⟩

private theorem ended_of_waiting {q : TaskQueue} (h : Bookkeeping q) (hpc : q.pc = .waiting) {x : Nat}
    (hx : x ∈ q.batches.flatten) : q.ended x = true := by
  have hrest : q.pc.rest = [] := by rw [hpc]; rfl
  have hhandled := h.run_in_order
  rw [hrest, List.append_nil] at hhandled
  rw [← hhandled] at hx
  obtain ⟨p, hp, rfl⟩ := List.mem_map.1 hx
  simp only [TaskQueue.ended, hpc, Bool.and_true, List.any_eq_true, decide_eq_true_eq]
  exact ⟨p, hp, rfl⟩

private theorem NetInv.pipe_of_writing (h : NetInv capacity s)
    (hstuck : ∀ a : NetAction n, a.completes = true → s.step capacity a = none) {u : NetThread n} {k : Fin n}
    (hwrites : s.Writing u k) : (s.queues k).pipe = capacity := by
  by_contra hne
  have hroom : (s.queues k).pipe < capacity := Nat.lt_of_le_of_ne (h.pipe_le k) hne
  have hnone := hstuck (.writePipe u k) rfl
  rw [step, if_pos hroom] at hnone
  have hmem : u.seenBy k ∈ (s.queues k).unwritten := hwrites
  simp [stepAt, TaskQueue.step, hmem] at hnone

private theorem NetInv.allHandled_of_stuck (h : NetInv capacity s) (hcapacity : 0 < capacity)
    (hstuck : ∀ a : NetAction n, a.completes = true → s.step capacity a = none) {k : Fin n} (hfree : s.Free k)
    (hrunning : (s.queues k).pc ≠ .stopped) :
    (s.queues k).pc = .waiting ∧ (s.queues k).pipe = 0 ∧ AllHandled (s.queues k) := by
  obtain ⟨hpc, hpipe⟩ := (rest_of_no_step hfree hstuck).resolve_left hrunning
  have hun : (s.queues k).unwritten = ∅ := by
    by_contra hne
    obtain ⟨x, hx⟩ := Finset.nonempty_iff_ne_empty.2 hne
    obtain ⟨u, rfl⟩ := h.known k x hx
    have hfull := h.pipe_of_writing hstuck hx
    omega
  exact ⟨hpc, hpipe, allHandled_of_rest (h.queue k).bookkeeping (h.queue k).wakePending hpc hpipe hun⟩

/-- In a state in which nothing goes on, the pollers that have not handled their tasks have left their loops or wait for
each other. -/
private theorem NetInv.deadlocked_of_stuck (h : NetInv capacity s) (hcapacity : 0 < capacity)
    (hstuck : ∀ a : NetAction n, a.completes = true → s.step capacity a = none) :
    ∃ C, s.Deadlocked capacity C ∧ ∀ i, i ∉ C → s.Free i ∧ AllHandled (s.queues i) := by
  refine ⟨{i | (s.queues i).pc = .stopped ∨ ¬ s.Free i}, fun i hi => ?_, fun i hi => ?_⟩
  · rcases hi with hpc | hbusy
    · exact .inl hpc
    · by_cases hwrites : ∃ k, s.Writing (.poller i) k
      · obtain ⟨k, hk⟩ := hwrites
        have hfull := h.pipe_of_writing hstuck hk
        refine .inr ⟨k, ?_, .inl ⟨hk, hfull⟩⟩
        -- the poller does not read its pipe
        by_contra hnot
        obtain ⟨hrunning, hfree⟩ := not_or.1 hnot
        have hempty := (h.allHandled_of_stuck hcapacity hstuck (not_not.1 hfree) hrunning).2.1
        omega
      · have hnone := not_exists.1 hwrites
        obtain ⟨p, hp⟩ := Option.ne_none_iff_exists'.1 fun hsync => hbusy ⟨hnone, hsync⟩
        obtain ⟨k, x⟩ := p
        have hended : (s.queues k).ended x = false := by
          by_contra hne
          have hat := hstuck (.syncReturns i) rfl
          simp [step, hp, hnone, Bool.eq_true_of_not_eq_false hne] at hat
        refine .inr ⟨k, ?_, .inr ⟨x, hp, hended⟩⟩
        -- the poller has not come to the task
        by_contra hnot
        obtain ⟨hrunning, hfree⟩ := not_or.1 hnot
        obtain ⟨hpc, -, htasks, -⟩ := h.allHandled_of_stuck hcapacity hstuck (not_not.1 hfree) hrunning
        have hmem := h.synced i k x hp
        rw [htasks, List.append_nil] at hmem
        rw [ended_of_waiting (h.queue k).bookkeeping hpc hmem] at hended
        cases hended
  · obtain ⟨hrunning, hbusy⟩ := not_or.1 hi
    have hfree := not_not.1 hbusy
    exact ⟨hfree, (h.allHandled_of_stuck hcapacity hstuck hfree hrunning).2.2⟩

def effort (s : PollerNet n) : Nat := ∑ k, (s.queues k).effort + ∑ i, (s.syncs i).toList.length

private theorem sum_update_lt {α : Type} (f : α → Nat) (g : Fin n → α) {k : Fin n} {x : α} (h : f x < f (g k)) :
    ∑ j, f (Function.update g k x j) < ∑ j, f (g j) := by
  refine Finset.sum_lt_sum (fun j _ => ?_) ⟨k, Finset.mem_univ k, ?_⟩
  · rcases eq_or_ne j k with rfl | hne
    · rw [Function.update_self]
      exact h.le
    · rw [Function.update_of_ne hne]
  · rwa [Function.update_self]

private theorem step_netEffort (s : PollerNet n) (a : NetAction n) (t : PollerNet n) (h : NetInv capacity s)
    (ha : a.completes = true) (hstep : s.step capacity a = some t) : t.effort < s.effort := by
  cases step_netMove hstep with
  | inserted => cases ha
  | synced => cases ha
  | cancelled => cases ha
  | returned i k x hsync hended =>
    have hlt : (none : Option (Fin n × Nat)).toList.length < (s.syncs i).toList.length := by
      rw [hsync]
      exact Nat.zero_lt_one
    exact Nat.add_lt_add_left (sum_update_lt (fun p : Option (Fin n × Nat) => p.toList.length) s.syncs hlt) _
  | written u k q hroom hq =>
    have hdone : (QueueAction.writePipe (u.seenBy k)).completes = true := rfl
    have hlt := step_effort (h.queue k).wakePending hdone hq
    exact Nat.add_lt_add_right (sum_update_lt TaskQueue.effort s.queues hlt) _
  | looped k b q hloop hfree hq =>
    have hlt := step_effort (h.queue k).wakePending ha hq
    exact Nat.add_lt_add_right (sum_update_lt TaskQueue.effort s.queues hlt) _

/-- From every state that the pollers and any other threads can reach, the system left to itself comes to an end, and
then every poller has handled its tasks or is one of a set that is deadlocked, which no run frees. -/
theorem tasks_handled_or_deadlock (hcapacity : 0 < capacity) {as : List (NetAction n)}
    (hrun : Transition.exec (step capacity) (init n) as = some s) :
    ∃ bound, ∀ bs t, (∀ b ∈ bs, b.completes = true) → Transition.exec (step capacity) s bs = some t →
      bs.length ≤ bound ∧
        ((∀ a : NetAction n, a.completes = true → t.step capacity a = none) →
          ∃ C, t.Deadlocked capacity C ∧ (∀ i, i ∉ C → t.Free i ∧ AllHandled (t.queues i)) ∧
            ∀ cs u, Transition.exec (step capacity) t cs = some u →
              ∀ i ∈ C, (u.queues i).pc = (t.queues i).pc ∧ (u.queues i).handled = (t.queues i).handled) := by
  have h : NetInv capacity s := Transition.exec_invariant step_netInv .init hrun
  refine ⟨s.effort, fun bs t hbs hexec => ⟨?_, fun hstuck => ?_⟩⟩
  · have hlower := Transition.exec_measure step_netInv step_netEffort h hbs hexec
    omega
  · have ht : NetInv capacity t := Transition.exec_invariant step_netInv h hexec
    obtain ⟨C, hC, hhandled⟩ := ht.deadlocked_of_stuck hcapacity hstuck
    exact ⟨C, hC, hhandled, fun cs u hcs => hC.forever hcs⟩

/-- One poller waits in `sync` for the other, which is about to hand a task to it while its pipe is full. -/
def crossPosts : List (NetAction 2) :=
  [.async (.other 0) 0 false true, .writePipe (.other 0) 0, .sync 0 1 false, .writePipe (.poller 0) 1,
    .async (.poller 1) 0 false true]

theorem tasks_handled_or_deadlock_crossPosts :
    ∃ s, Transition.exec (step 1) (init 2) crossPosts = some s ∧ (s.queues 0).tasks = [0, 1] ∧
      ∃ C, s.Deadlocked 1 C ∧ 0 ∈ C ∧
        ∀ cs u, Transition.exec (step 1) s cs = some u → (u.queues 0).handled = [] := by
  have hlast : (Transition.exec (step 1) (init 2) crossPosts).map (fun s =>
      ((s.queues 0).tasks, (s.queues 0).handled, decide (∀ k, ¬ (s.queues k).pipe < 1), decide (∀ k, ¬ s.Free k),
        decide (∀ i, s.step 1 (.syncReturns i) |>.isNone))) = some ([0, 1], [], true, true, true) := by decide
  obtain ⟨s, hrun, hs⟩ := Option.map_eq_some_iff.1 hlast
  obtain ⟨htasks, hrest⟩ := Prod.mk.inj hs
  obtain ⟨hhandled, hrest⟩ := Prod.mk.inj hrest
  obtain ⟨hfull, hrest⟩ := Prod.mk.inj hrest
  obtain ⟨hbusy, hwaits⟩ := Prod.mk.inj hrest
  have hstuck : ∀ a : NetAction 2, a.completes = true → s.step 1 a = none := by
    intro a ha
    cases a with
    | async => cases ha
    | sync => cases ha
    | cancel => cases ha
    | syncReturns i => exact Option.isNone_iff_eq_none.1 (of_decide_eq_true hwaits i)
    | writePipe u k => exact if_neg (of_decide_eq_true hfull k)
    | loop k a => exact if_neg fun hfree => of_decide_eq_true hbusy k hfree.2
  obtain ⟨bound, hbound⟩ := tasks_handled_or_deadlock (by decide) hrun
  obtain ⟨C, hC, hothers, hforever⟩ := (hbound [] s (by simp) rfl).2 hstuck
  have hmem : 0 ∈ C := by
    by_contra hnot
    have hempty := (hothers 0 hnot).2.1
    rw [htasks] at hempty
    cases hempty
  exact ⟨s, hrun, htasks, C, hC, hmem, fun cs u hcs => (hforever cs u hcs 0 hmem).2.trans hhandled⟩

/-! ### Posts in order -/

private theorem seenBy_ne (k i : Fin n) (m : Nat) : (NetThread.poller i).seenBy k ≠ (NetThread.other m).seenBy k := by
  intro heq
  have hlt := i.isLt
  by_cases hi : i = k
  · simp [NetThread.seenBy, hi] at heq
  · simp only [NetThread.seenBy, if_neg hi, Thread.producer.injEq] at heq
    omega

private theorem seenBy_injective (k : Fin n) {u u' : NetThread n} (h : u.seenBy k = u'.seenBy k) : u = u' := by
  cases u with
  | poller i =>
    cases u' with
    | poller j =>
      by_cases hi : i = k <;> by_cases hj : j = k <;> simp_all [NetThread.seenBy, Fin.ext_iff]
    | other m => exact absurd h (seenBy_ne k i m)
  | other m =>
    cases u' with
    | poller j => exact absurd h.symm (seenBy_ne k j m)
    | other m' => simpa [NetThread.seenBy] using h

/-- A poller inside `async` or `sync` has handed in a task to a later one. -/
structure WaitsUp (s : PollerNet n) : Prop where
  writing : ∀ i k, s.Writing (.poller i) k → i < k
  syncs : ∀ i k x, s.syncs i = some (k, x) → i < k

theorem WaitsUp.init : (init n).WaitsUp :=
  ⟨by simp [Writing, PollerNet.init, TaskQueue.init], by simp [PollerNet.init]⟩

private theorem waitsUp_step (s : PollerNet n) (a : NetAction n) (t : PollerNet n) (h : s.WaitsUp)
    (ha : a.ordered = true) (hstep : s.step capacity a = some t) : t.WaitsUp := by
  have hmove := step_netMove hstep
  refine ⟨fun i j hwrites => ?_, fun i j x hsync => ?_⟩
  · rcases hmove.queue_cases j with heq | ⟨b, hb, hgrounds⟩
    · exact h.writing i j (by rwa [Writing, heq] at hwrites)
    · rcases mem_unwritten_step hb hwrites with hold | ⟨front, maySync, hpost, hlater⟩
      · exact h.writing i j hold
      · obtain ⟨u, hu, hposts⟩ := hgrounds.posted _ _ _ hpost
        obtain rfl := seenBy_injective j hu
        have hord : i < j ∨ i = j ∧ maySync = true := by simpa [NetAction.ordered, hposts] using ha
        rcases hord with hlt | ⟨rfl, rfl⟩
        · exact hlt
        · simp [NetThread.seenBy, Thread.currentThread] at hlater
  · cases hmove with
    | synced i' k' front q hcalls hne hq =>
      by_cases hi : i = i'
      · subst hi
        obtain ⟨rfl, -⟩ : k' = j ∧ (s.queues k').nextTask = x := by simpa using hsync
        simpa [NetAction.ordered, NetAction.posts, hne] using ha
      · exact h.syncs i j x (by simpa [hi] using hsync)
    | returned i' k' y hsync' hended =>
      by_cases hi : i = i'
      · subst hi
        simp at hsync
      · exact h.syncs i j x (by simpa [hi] using hsync)
    | _ => exact h.syncs i j x hsync

/-- When every poller hands tasks to later pollers only, all tasks are handled at last, unless a poller has left its
loop. -/
theorem tasks_handled_of_ordered (hcapacity : 0 < capacity) {as : List (NetAction n)}
    (has : ∀ a ∈ as, a.ordered = true) (hrun : Transition.exec (step capacity) (init n) as = some s) :
    ∃ bound, ∀ bs t, (∀ b ∈ bs, b.completes = true) → Transition.exec (step capacity) s bs = some t →
      bs.length ≤ bound ∧
        ((∀ a : NetAction n, a.completes = true → t.step capacity a = none) →
          (∃ i, (t.queues i).exit = true) ∨ ∀ i, t.Free i ∧ AllHandled (t.queues i)) := by
  have hkeep : ∀ r (a : NetAction n) r', NetInv capacity r ∧ r.WaitsUp → a.ordered = true →
      r.step capacity a = some r' → NetInv capacity r' ∧ r'.WaitsUp :=
    fun r a r' hr ha hstep => ⟨step_netInv r a r' hr.1 hstep, waitsUp_step r a r' hr.2 ha hstep⟩
  have hs := Transition.exec_invariant_along hkeep ⟨NetInv.init, WaitsUp.init⟩
    (Transition.along_of_forall_mem has _) hrun
  refine ⟨s.effort, fun bs t hbs hexec => ⟨?_, fun hstuck => ?_⟩⟩
  · have hlower := Transition.exec_measure step_netInv step_netEffort hs.1 hbs hexec
    omega
  · have hordered : ∀ b ∈ bs, b.ordered = true := by
      intro b hb
      cases b with
      | async => cases hbs _ hb
      | sync => cases hbs _ hb
      | _ => rfl
    obtain ⟨ht, hup⟩ := Transition.exec_invariant_along hkeep hs (Transition.along_of_forall_mem hordered _) hexec
    by_cases hexit : ∃ i, (t.queues i).exit = true
    · exact .inl hexit
    · refine .inr ?_
      obtain ⟨C, hC, hothers⟩ := ht.deadlocked_of_stuck hcapacity hstuck
      intro i
      refine hothers i fun hi => ?_
      -- the last poller of the deadlock would wait for a later one
      obtain ⟨top, htop, hmax⟩ := Set.exists_max_image C (fun j => j) (Set.toFinite C) ⟨i, hi⟩
      rcases hC top htop with hpc | ⟨k, hk, hwaits⟩
      · exact hexit ⟨top, (ht.queue top).stopped hpc⟩
      · have hlt : top < k := by
          rcases hwaits with ⟨hwrites, -⟩ | ⟨x, hsync, -⟩
          · exact hup.writing top k hwrites
          · exact hup.syncs top k x hsync
        exact absurd hlt (not_lt.2 (hmax k hk))

def chainedSyncs : List (NetAction 3) :=
  [.sync 0 1 false, .sync 1 2 true, .writePipe (.poller 0) 1]

theorem tasks_handled_of_ordered_chainedSyncs :
    ∃ s, Transition.exec (step 1) (init 3) chainedSyncs = some s ∧ s.Writing (.poller 1) 2 ∧
      ∃ bound, ∀ bs t, (∀ b ∈ bs, b.completes = true) → Transition.exec (step 1) s bs = some t →
        bs.length ≤ bound ∧
          ((∀ a : NetAction 3, a.completes = true → t.step 1 a = none) →
            (∃ i, (t.queues i).exit = true) ∨ ∀ i, t.Free i ∧ AllHandled (t.queues i)) := by
  have hlast : (Transition.exec (step 1) (init 3) chainedSyncs).map (fun s => decide (s.Writing (.poller 1) 2)) =
      some true := by decide
  obtain ⟨s, hrun, hs⟩ := Option.map_eq_some_iff.1 hlast
  exact ⟨s, hrun, of_decide_eq_true hs, tasks_handled_of_ordered (by decide) (by decide) hrun⟩

end PollerNet

end AvcTool
