import AvcTool.Poller.DelayRun
import AvcTool.Thread.ThreadPool

/-!
# When cancelling a task is final

A cancelled task is not called by the poller any more, from whichever of its containers, nor by a worker of a thread
pool, unless the cancellation comes between the two steps of a call: `operator()` has locked `weakTask_` and enters the
function whatever happens to the handle then (`lockedThenCancelled`).  Without such a cancellation cancelling is final
(`cancel_is_final`).

A delay task that cancels itself and then asks to be called again is still entered into `delay_tasks_`; it disappears
from there in the pass that finds it due (`Leaving`), as every cancelled delay task does.
-/

namespace AvcTool

/-- A pass that finds the entry of a cancelled delay task due, or has it still ahead when the task is cancelled, is the
last to see it. -/
structure DropsCancelled (s : PollerLoop) : Prop where
  at_pass : ∀ e ∈ s.delayTasks.entries, e.2 ∈ s.handles.cancelled → ∀ now, e.1 ≤ now → ∀ as t,
    Transition.exec PollerLoop.step s (.scheduleDelayTask now :: as) = some t →
      ∀ e' ∈ t.delayTasks.entries, e'.2 ≠ e.2
  in_pass : ∀ e ∈ s.pc.ahead, e.2 ∈ s.handles.cancelled → e.1 ≤ s.reading → ∀ as t,
    Transition.exec PollerLoop.step s as = some t → ∀ e' ∈ t.delayTasks.entries, e'.2 ≠ e.2

namespace PollerLoop

def log (s : PollerLoop) : List TaskEvent := s.events.filterMap PollerEvent.task

private theorem log_append {s t : PollerLoop} {ev : PollerEvent} (h : t.events = s.events ++ [ev]) :
    t.log = s.log ++ [ev].filterMap PollerEvent.task := by
  unfold log
  rw [h, List.filterMap_append]

/-- The step does not cancel a task whose function the poller has locked and not yet entered. -/
def SparesLocked (s : PollerLoop) : PollerAction → Prop
  | .cancel h => s.pc.locked ≠ some h
  | _ => True

instance decidableSparesLocked (s : PollerLoop) (a : PollerAction) : Decidable (s.SparesLocked a) := by
  unfold SparesLocked; split <;> infer_instance

/-- A function that has been locked is that of a handle that has not been cancelled. -/
structure LocksValid (s : PollerLoop) : Prop where
  cancel : CancelSound s.handles s.log
  locked : ∀ h, s.pc.locked = some h → h ∉ s.handles.cancelled

theorem LocksValid.init : LocksValid .init := ⟨cancelSound_init, nofun⟩

private theorem locksValid_step {s t : PollerLoop} {a : PollerAction} (hs : LocksValid s) (hok : s.SparesLocked a)
    (h : s.step a = some t) : LocksValid t := by
  cases step_effect h with
  | quiet _ _ hwait hwalk hahead hcurrent hlocked hreading hpasses hevents hclock hhandles =>
    have hlog : t.log = s.log := by rw [log, hevents]; rfl
    have hcan : t.handles.cancelled = s.handles.cancelled := by
      rcases hhandles with heq | ⟨hasFunction, heq⟩ <;> rw [heq]
      rfl
    refine ⟨?_, fun x hx => ?_⟩
    · rw [hlog]
      rcases hhandles with heq | ⟨hasFunction, heq⟩ <;> rw [heq]
      · exact hs.cancel
      · exact hs.cancel.create hasFunction
    · rw [hcan]
      exact (hlocked x hx).elim (hs.locked x) id
  | added th reading delayMs hasFunction _ hclock hwait hpc hreading hpasses hevents hsame hhandles =>
    have hlog : t.log = s.log := by simp [log_append hevents, PollerEvent.task]
    refine ⟨?_, ?_⟩
    · rw [hhandles, hlog]
      exact hs.cancel.create hasFunction
    · rw [hpc, hhandles]
      exact hs.locked
  | cancelled x hlt =>
    refine ⟨?_, fun y hy hmem => ?_⟩
    · rw [log_append (s := s) rfl]
      exact hs.cancel.cancel x
    · rcases Finset.mem_insert.1 hmem with rfl | hmem
      · exact hok hy
      · exact hs.locked y hy hmem
  | started x rest hpc =>
    refine ⟨?_, nofun⟩
    rw [log_append (s := s) rfl]
    exact hs.cancel.start (hs.locked x (by rw [hpc]; rfl))
  | scheduled now hpc hle hclock => exact ⟨hs.cancel, nofun⟩
  | nothing now hpc hempty hle hclock => exact ⟨hs.cancel, hs.locked⟩
  | left copy hpc hlate => exact ⟨hs.cancel, nofun⟩
  | skipped e copy hpc hbag hvalid => exact ⟨hs.cancel, nofun⟩
  | tested e copy hpc hbag hdue hvalid => exact ⟨hs.cancel, nofun⟩
  | invoked e copy hpc =>
    refine ⟨?_, nofun⟩
    rw [log_append (s := s) rfl]
    exact hs.cancel.start (hs.locked e.2 (by rw [hpc]; rfl))
  | notCalled e copy hpc hcalls => exact ⟨hs.cancel, nofun⟩
  | returned delayMs e copy hpc =>
    refine ⟨?_, nofun⟩
    rw [log_append (s := s) rfl]
    exact (List.append_nil s.log).symm ▸ hs.cancel
  | thrown e copy hpc => exact ⟨hs.cancel, nofun⟩

private theorem locksValid_exec {s : PollerLoop} {as : List PollerAction}
    (hok : Transition.Along step SparesLocked .init as) (h : Transition.exec step .init as = some s) : LocksValid s :=
  Transition.exec_invariant_along (fun _ _ _ hs hok h => locksValid_step hs hok h) .init hok h

private theorem placedOnce_exec {s : PollerLoop} {as : List PollerAction} (h : Transition.exec step .init as = some s) :
    PlacedOnce s :=
  Transition.exec_invariant (fun _ _ _ hs h => placedOnce_step hs h) .init h

end PollerLoop

/-! ### The last pass of a cancelled delay task -/

/-- The cancelled task `x` has an entry at most ahead of the pass, which is due. -/
structure Leaving (x : Nat) (s : PollerLoop) : Prop where
  placed : PlacedOnce s
  unlocked : s.pc.locked ≠ some x
  cancelled : x ∈ s.handles.cancelled
  old : x < s.handles.next
  waiting : ∀ e ∈ s.waiting, e.2 ≠ x
  walk : ∀ e ∈ s.pc.walk, e.2 = x → e ∈ s.pc.ahead ∧ e.1 ≤ s.reading

theorem Leaving.due {x : Nat} {s : PollerLoop} (hs : Leaving x s) {copy : Multimap UInt64 Nat} (hpc : s.pc = .pass copy)
    {e : UInt64 × Nat} (he : e ∈ copy.bag) (hex : e.2 = x) : e.1 ≤ s.reading := by
  have hmem : e ∈ s.pc.walk := by rw [hpc]; exact he
  exact (hs.walk e hmem hex).2

/-- A step of the pass over entries that it was to walk over before. -/
theorem Leaving.pass {x : Nat} {s t : PollerLoop} (hs : Leaving x s) (hplaced : PlacedOnce t)
    (hunlocked : t.pc.locked ≠ some x) (hhandles : t.handles = s.handles) (hwait : ∀ e ∈ t.waiting, e ∈ s.waiting)
    (hreading : t.reading = s.reading) (hwalk : ∀ e ∈ t.pc.walk, e.2 = x → e ∈ t.pc.ahead ∧ e ∈ s.pc.walk) :
    Leaving x t := by
  refine ⟨hplaced, hunlocked, ?_, ?_, fun e he => hs.waiting e (hwait e he), fun e he hex => ?_⟩
  · rw [hhandles]
    exact hs.cancelled
  · rw [hhandles]
    exact hs.old
  · obtain ⟨hahead, hmem⟩ := hwalk e he hex
    rw [hreading]
    exact ⟨hahead, (hs.walk e hmem hex).2⟩

private theorem leaving_step {x : Nat} {s t : PollerLoop} {a : PollerAction} (hs : Leaving x s)
    (h : s.step a = some t) : Leaving x t := by
  have hplaced := placedOnce_step hs.placed h
  have hfree : (none : Option Nat) ≠ some x := (Option.some_ne_none x).symm
  cases PollerLoop.step_effect h with
  | quiet _ _ hwait hwalk hahead hcurrent hlocked hreading hpasses hevents hclock hhandles =>
    refine ⟨hplaced, ?_, ?_, ?_, hwait ▸ hs.waiting, ?_⟩
    · intro hx
      rcases hlocked x hx with hx | hcan
      · exact hs.unlocked hx
      · exact hcan hs.cancelled
    · rcases hhandles with heq | ⟨hasFunction, heq⟩ <;> rw [heq] <;> exact hs.cancelled
    · rcases hhandles with heq | ⟨hasFunction, heq⟩ <;> rw [heq]
      · exact hs.old
      · exact hs.old.trans (Nat.lt_succ_self _)
    · rw [hwalk, hahead, hreading]
      exact hs.walk
  | added th reading delayMs hasFunction _ hclock hwait hpc hreading hpasses hevents hsame hhandles =>
    refine ⟨hplaced, hpc ▸ hs.unlocked, ?_, ?_, ?_, ?_⟩
    · rw [hhandles]
      exact hs.cancelled
    · rw [hhandles]
      exact hs.old.trans (Nat.lt_succ_self _)
    · -- the task that is added is a new one
      intro e he
      rw [hwait, Multiset.mem_cons] at he
      rcases he with rfl | he
      · exact hs.old.ne'
      · exact hs.waiting e he
    · rw [hpc, hreading]
      exact hs.walk
  | cancelled y hlt => exact ⟨hplaced, hs.unlocked, Finset.mem_insert_of_mem hs.cancelled, hs.old, hs.waiting, hs.walk⟩
  | started y rest hpc =>
    exact hs.pass hplaced hfree rfl (by simp [PollerLoop.waiting, LoopPc.jobs, hpc]) rfl (by simp [LoopPc.walk])
  | scheduled now hpc hle hclock =>
    have hwait : s.waiting = ↑(s.tasks.filterMap Job.entry) + s.delayTasks.bag := by
      simp [PollerLoop.waiting, LoopPc.jobs, hpc]
    refine ⟨hplaced, hfree, hs.cancelled, hs.old, ?_, ?_⟩
    · intro e he
      refine hs.waiting e ?_
      rw [hwait]
      exact Multiset.mem_add.2 (.inl (by simpa [PollerLoop.waiting, LoopPc.jobs] using he))
    · -- the pass takes out what was waiting, and the task was not among this
      intro e he hex
      have he : e ∈ s.delayTasks.bag := he
      exact absurd hex (hs.waiting e (by rw [hwait]; exact Multiset.mem_add.2 (.inr he)))
  | nothing now hpc hempty hle hclock =>
    refine ⟨hplaced, hs.unlocked, hs.cancelled, hs.old, hs.waiting, ?_⟩
    simp [hpc, LoopPc.walk]
  | left copy hpc hlate =>
    refine ⟨hplaced, hfree, hs.cancelled, hs.old, ?_, by simp [LoopPc.walk]⟩
    intro e he
    have he : e ∈ s.waiting ∨ e ∈ copy.entries := by
      simpa [PollerLoop.waiting, LoopPc.jobs, hpc, or_assoc, Multimap.mem_insertAll] using he
    rcases he with he | he
    · exact hs.waiting e he
    · -- what is put back is not due, as an entry of the task would be
      intro hex
      exact absurd (hs.due hpc he hex) (not_le.2 (hlate e he))
  | skipped e copy hpc hbag hvalid =>
    refine hs.pass hplaced hfree rfl (by simp [PollerLoop.waiting, LoopPc.jobs, hpc]) rfl fun e' he' _ => ⟨he', ?_⟩
    have hmem : e' ∈ copy.bag := by
      rw [hbag]
      exact Multiset.mem_cons_of_mem he'
    rwa [hpc]
  | tested e copy hpc hbag hdue hvalid =>
    refine hs.pass hplaced hfree rfl (by simp [PollerLoop.waiting, LoopPc.jobs, hpc]) rfl fun e' he' _ => ⟨he', ?_⟩
    have hmem : e' ∈ copy.bag := by
      rw [hbag]
      exact he'
    rwa [hpc]
  | invoked e copy hpc =>
    refine hs.pass hplaced hfree rfl (by simp [PollerLoop.waiting, LoopPc.jobs, hpc]) rfl fun e' he' hex => ?_
    have hmem : e' ∈ e ::ₘ copy.bag := he'
    rcases Multiset.mem_cons.1 hmem with rfl | hahead
    · -- its function has not been locked
      exact absurd (by rw [hpc, ← hex]; rfl) hs.unlocked
    · exact ⟨hahead, by rw [hpc]; exact hmem⟩
  | notCalled e copy hpc hcalls =>
    refine hs.pass hplaced hfree rfl (by simp [PollerLoop.waiting, LoopPc.jobs, hpc]) rfl fun e' he' _ => ⟨he', ?_⟩
    rw [hpc]
    exact Multiset.mem_cons_of_mem he'
  | returned delayMs e copy hpc =>
    have hother : s.entries = e ::ₘ (s.waiting + copy.bag) := by simp [PollerLoop.entries, LoopPc.walk, hpc]
    -- the entry of the cancelled task is still ahead, so that it is another one whose callback returns
    have hne : e.2 ≠ x := by
      intro hex
      have hmem : e ∈ s.pc.walk := by rw [hpc]; exact Multiset.mem_cons_self e copy.bag
      have hahead := (hs.walk e hmem hex).1
      rw [hpc] at hahead
      exact hs.placed.ne_of_mem hother (Multiset.mem_add.2 (.inr hahead)) rfl
    refine ⟨hplaced, hfree, hs.cancelled, hs.old, ?_, ?_⟩
    · intro e' he'
      have he' : e' ∈ s.waiting ∨ e'.2 = e.2 := by
        simp only [PollerLoop.waiting, LoopPc.jobs, hpc] at he' ⊢
        split at he'
        · simp only [Multimap.bag_emplace, Multiset.add_cons, Multiset.mem_cons] at he'
          rcases he' with rfl | he'
          · exact .inr rfl
          · exact .inl he'
        · exact .inl he'
      rcases he' with he' | heq
      · exact hs.waiting e' he'
      · rwa [heq]
    · intro e' he' hex
      exact ⟨he', (hs.walk e' (by rw [hpc]; exact Multiset.mem_cons_of_mem he') hex).2⟩
  | thrown e copy hpc =>
    exact hs.pass hplaced hfree rfl (by simp [PollerLoop.waiting, LoopPc.jobs, hpc]) rfl (by simp [LoopPc.walk])

private theorem leaving_exec {x : Nat} {s t : PollerLoop} {as : List PollerAction} (hs : Leaving x s)
    (h : Transition.exec PollerLoop.step s as = some t) : ∀ e ∈ t.delayTasks.entries, e.2 ≠ x := by
  have ht : Leaving x t := Transition.exec_invariant (fun _ _ _ hs h => leaving_step hs h) hs h
  intro e he
  exact ht.waiting e (Multiset.mem_add.2 (.inr he))

private theorem leaving_of_ahead {s : PollerLoop} (hs : PlacedOnce s)
    (hlocked : ∀ h, s.pc.locked = some h → h ∉ s.handles.cancelled) {e : UInt64 × Nat} (he : e ∈ s.pc.ahead)
    (hcan : e.2 ∈ s.handles.cancelled) (hdue : e.1 ≤ s.reading) : Leaving e.2 s := by
  obtain ⟨others, hwalk⟩ := Multiset.exists_cons_of_mem (Multiset.mem_of_le s.pc.ahead_le_walk he)
  have hentries : s.entries = e ::ₘ (s.waiting + others) := by
    rw [PollerLoop.entries, hwalk, Multiset.add_cons]
  have hmem : e ∈ s.entries := by rw [hentries]; exact Multiset.mem_cons_self _ _
  refine ⟨hs, fun hx => hlocked e.2 hx hcan, hcan, hs.lt_next e hmem, ?_, ?_⟩
  · intro e' he'
    exact hs.ne_of_mem hentries (Multiset.mem_add.2 (.inl he'))
  · intro e' he' hex
    obtain rfl : e' = e := by
      rw [hwalk, Multiset.mem_cons] at he'
      rcases he' with rfl | he'
      · rfl
      · exact absurd hex (hs.ne_of_mem hentries (Multiset.mem_add.2 (.inr he')))
    exact ⟨he, hdue⟩

private theorem dropsCancelled_of_placedOnce {s : PollerLoop} (hs : PlacedOnce s)
    (hlocked : ∀ h, s.pc.locked = some h → h ∉ s.handles.cancelled) : DropsCancelled s where
  in_pass e he hcan hdue as t hst := leaving_exec (leaving_of_ahead hs hlocked he hcan hdue) hst
  at_pass e he hcan now hdue as t hst := by
    obtain ⟨r, hr, hrt⟩ := Transition.exec_cons.1 hst
    have hplaced := placedOnce_step hs hr
    obtain ⟨-, -, -, rfl⟩ := PollerLoop.step_scheduleDelayTask hr
    have hpass : s.scheduleDelayTask now =
        { s with reading := now, passes := s.passes + 1, delayTasks := .empty, pc := .pass s.delayTasks } := by
      unfold PollerLoop.scheduleDelayTask
      split
      · rename_i hempty
        simp [hempty] at he
      · rfl
    rw [hpass] at hplaced hrt
    exact leaving_exec (leaving_of_ahead hplaced nofun he hcan hdue) hrt

/-! ### The workers of a pool -/

namespace ThreadPool

/-- The step does not cancel a task whose function a worker has locked and not yet entered. -/
def SparesLocked (s : ThreadPool) : PoolAction → Prop
  | .cancel h => ∀ i < s.capacity, s.workers i ≠ .locked h
  | _ => True

instance decidableSparesLocked (s : ThreadPool) (a : PoolAction) : Decidable (s.SparesLocked a) := by
  unfold SparesLocked; split <;> infer_instance

/-- A function that a worker has locked is that of a handle that has not been cancelled. -/
structure LocksValid (s : ThreadPool) : Prop where
  held : HeldOnce s
  beyond : BeyondEnded s
  cancel : CancelSound s.handles s.log
  locked : ∀ i h, s.workers i = .locked h → h ∉ s.handles.cancelled

theorem LocksValid.init (capacity : Nat) : LocksValid (init capacity) := by
  refine ⟨heldOnce_init capacity, beyondEnded_init capacity, cancelSound_init, fun i h hi => ?_⟩
  simp only [ThreadPool.init] at hi
  split at hi <;> cases hi

/-- A worker goes to a place at which it has not locked a function, or has locked one that is not cancelled. -/
private theorem LocksValid.locked_goTo {s : ThreadPool} (hs : LocksValid s) (i : Nat) {pc : WorkerPc}
    (hpc : ∀ h, pc = .locked h → h ∉ s.handles.cancelled) (j h : Nat)
    (hj : Function.update s.workers i pc j = .locked h) : h ∉ s.handles.cancelled := by
  by_cases hji : j = i
  · subst hji
    rw [Function.update_self] at hj
    exact hpc h hj
  · rw [Function.update_of_ne hji] at hj
    exact hs.locked j h hj

private theorem locksValid_step {s t : ThreadPool} {a : PoolAction} (hs : LocksValid s) (hok : s.SparesLocked a)
    (h : s.step a = some t) : LocksValid t := by
  have hheld := heldOnce_step hs.held h
  have hbeyond := beyondEnded_step hs.beyond h
  cases step_effect h with
  | went _ i pc _ hold hlocked hjob hpedding hworkers hhandles hlog hcapacity =>
    refine ⟨hheld, hbeyond, ?_, ?_⟩
    · rw [hhandles, hlog]
      exact hs.cancel
    · rw [hworkers, hhandles]
      exact hs.locked_goTo i fun x hx => hs.locked i x (hlocked x hx)
  | added _ _ hasFunction hpedding hworkers hhandles hlog hcapacity =>
    refine ⟨hheld, hbeyond, ?_, ?_⟩
    · rw [hhandles, hlog]
      exact hs.cancel.create hasFunction
    · rw [hworkers, hhandles]
      exact hs.locked
  | cancelled x =>
    refine ⟨hheld, hbeyond, hs.cancel.cancel x, fun i y hi hmem => ?_⟩
    have hi : s.workers i = .locked y := hi
    rcases Finset.mem_insert.1 hmem with rfl | hmem
    · have hlt : i < s.capacity := by
        by_contra hge
        rw [hs.beyond i (Nat.le_of_not_lt hge)] at hi
        cases hi
      exact hok i hlt hi
    · exact hs.locked i y hi hmem
  | took i x pedding hpc hpedding => exact ⟨hheld, hbeyond, hs.cancel, hs.locked_goTo i nofun⟩
  | locked i x hpc hcalls =>
    have hcan := TaskHandles.not_mem_cancelled_of_calls hcalls (hs.held.not_mem_strongTasks hpc)
    refine ⟨hheld, hbeyond, hs.cancel, hs.locked_goTo i fun y hy => ?_⟩
    obtain rfl := WorkerPc.locked.inj hy
    exact hcan
  | called i x hpc =>
    exact ⟨hheld, hbeyond, hs.cancel.start (hs.locked i x hpc), hs.locked_goTo i nofun⟩

private theorem locksValid_exec {s : ThreadPool} {capacity : Nat} {as : List PoolAction}
    (hok : Transition.Along step SparesLocked (init capacity) as)
    (h : Transition.exec step (init capacity) as = some s) : LocksValid s :=
  Transition.exec_invariant_along (fun _ _ _ hs hok h => locksValid_step hs hok h) (.init capacity) hok h

end ThreadPool

/-! ### The steps after a cancellation -/

section

variable {σ α : Type} {step : σ → α → Option σ} {cancel : Nat → α} {log : σ → List TaskEvent}

/-- Once the run has cancelled a task, no step of it starts the function of the task. -/
def StartsNoMore (step : σ → α → Option σ) (cancel : Nat → α) (log : σ → List TaskEvent) (init : σ) (as : List α) :
    Prop :=
  ∀ before h after s t, as = before ++ cancel h :: after → Transition.exec step init before = some s →
    Transition.exec step init as = some t → (log t).count (.started h) = (log s).count (.started h)

private theorem startsNoMore_of_final (hgrows : ∀ s a t, step s a = some t → log s <+: log t)
    (hcancel : ∀ s h t, step s (cancel h) = some t → log t = log s ++ [.cancelled h]) {init : σ} {as : List α}
    (hfinal : ∀ t, Transition.exec step init as = some t → CancelFinal (log t)) :
    StartsNoMore step cancel log init as := by
  rintro before h after s t rfl hs ht
  obtain ⟨s', hs', hrest⟩ := Transition.exec_append.1 ht
  obtain rfl : s = s' := Option.some.inj (hs.symm.trans hs')
  obtain ⟨u, hu, hafter⟩ := Transition.exec_cons.1 hrest
  have hkept : ∀ r a r', log u <+: log r → step r a = some r' → log u <+: log r' :=
    fun r a r' hr hst => hr.trans (hgrows r a r' hst)
  obtain ⟨rest, hlog⟩ := Transition.exec_invariant hkept List.prefix_rfl hafter
  rw [hcancel s h u hu, List.append_assoc, List.singleton_append] at hlog
  -- the start would be behind the cancellation in the log
  have hnot : .started h ∉ rest := by
    intro hmem
    have hpair := hfinal t ht
    rw [CancelFinal, ← hlog, List.pairwise_append, List.pairwise_cons] at hpair
    exact hpair.2.1.1 _ hmem h rfl rfl
  rw [← hlog, List.count_append, List.count_cons_of_ne (by simp), List.count_eq_zero.2 hnot, Nat.add_zero]

end

private theorem PollerLoop.log_grows (s : PollerLoop) (a : PollerAction) (t : PollerLoop) (h : s.step a = some t) :
    s.log <+: t.log := by
  have hevents : s.events <+: t.events := by
    cases PollerLoop.step_effect h with
    | quiet _ _ hwait hwalk hahead hcurrent hlocked hreading hpasses hevents hclock hhandles =>
      rw [hevents]
    | added th reading delayMs hasFunction _ hclock hwait hpc hreading hpasses hevents hsame hhandles =>
      rw [hevents]
      exact List.prefix_append _ _
    | cancelled => exact List.prefix_append _ _
    | started => exact List.prefix_append _ _
    | invoked => exact List.prefix_append _ _
    | returned => exact List.prefix_append _ _
    | _ => exact List.prefix_rfl
  exact hevents.filterMap _

private theorem ThreadPool.log_grows (s : ThreadPool) (a : PoolAction) (t : ThreadPool) (h : s.step a = some t) :
    s.log <+: t.log := by
  cases ThreadPool.step_effect h with
  | went _ i pc _ hold hlocked hjob hpedding hworkers hhandles hlog hcapacity => rw [hlog]
  | added _ _ hasFunction hpedding hworkers hhandles hlog hcapacity => rw [hlog]
  | cancelled => exact List.prefix_append _ _
  | called => exact List.prefix_append _ _
  | _ => exact List.prefix_rfl

/-! ### Main results -/

/-- A worker locks the function of a task, another thread cancels the task, and the worker starts the function. -/
def lockedThenCancelled : List PoolAction :=
  [.async .outside false true true, .post, .started 0, .testExit 0, .wait 0, .take 0, .test 0, .lock 0, .cancel 0,
    .call 0]

/-- The same with a delay task of the poller. -/
def delayLockedThenCancelled : List PollerAction :=
  [.assignThread, .enterLoop, .tick 10, .addDelayTask .poller 10 5 true, .tick 15, .scheduleDelayTask 15, .nextDelay,
    .lockDelay, .cancel 0, .callDelay]

theorem started_after_cancel :
    (∃ s, Transition.exec ThreadPool.step (.init 1) lockedThenCancelled = some s ∧
      s.log = [.cancelled 0, .started 0] ∧ ¬ CancelFinal s.log) ∧
    ∃ s, Transition.exec PollerLoop.step .init delayLockedThenCancelled = some s ∧
      s.log = [.cancelled 0, .started 0] ∧ ¬ CancelFinal s.log := by
  have hnot : ¬ CancelFinal [.cancelled 0, .started 0] := by
    intro hfinal
    exact (List.pairwise_cons.1 hfinal).1 _ List.mem_cons_self 0 rfl rfl
  exact ⟨⟨_, rfl, rfl, hnot⟩, _, rfl, rfl, hnot⟩

/-- If no task is cancelled between the lock and the start of its function, no step of a poller or of a worker starts
the function of a cancelled handle, and the entry of a cancelled delay task does not outlive the first pass that reaches
its deadline. -/
theorem cancel_is_final (as : List PollerAction) (s : PollerLoop) (capacity : Nat) (bs : List PoolAction)
    (t : ThreadPool) :
    (Transition.Along PollerLoop.step PollerLoop.SparesLocked .init as →
      Transition.exec PollerLoop.step .init as = some s →
        CancelFinal s.log ∧ StartsNoMore PollerLoop.step .cancel PollerLoop.log .init as ∧ DropsCancelled s) ∧
    (Transition.Along ThreadPool.step ThreadPool.SparesLocked (.init capacity) bs →
      Transition.exec ThreadPool.step (.init capacity) bs = some t →
        CancelFinal t.log ∧ StartsNoMore ThreadPool.step .cancel ThreadPool.log (.init capacity) bs) := by
  constructor
  · intro hok h
    have hs := PollerLoop.locksValid_exec hok h
    refine ⟨hs.cancel.final, ?_, dropsCancelled_of_placedOnce (PollerLoop.placedOnce_exec h) hs.locked⟩
    refine startsNoMore_of_final PollerLoop.log_grows (fun s x t hst => ?_)
      fun t ht => (PollerLoop.locksValid_exec hok ht).cancel.final
    obtain ⟨-, ⟨⟩⟩ := Option.ite_none_right_eq_some.1 hst
    rw [PollerLoop.log_append (s := s) rfl]
    rfl
  · intro hok h
    refine ⟨(ThreadPool.locksValid_exec hok h).cancel.final, ?_⟩
    refine startsNoMore_of_final ThreadPool.log_grows (fun s x t hst => ?_)
      fun t ht => (ThreadPool.locksValid_exec hok ht).cancel.final
    obtain ⟨-, ⟨⟩⟩ := Option.ite_none_right_eq_some.1 hst
    rfl

/-- A delay task that cancels itself, and asks to be called again. -/
def selfCancelled : List PollerAction :=
  [.assignThread, .enterLoop, .tick 10, .addDelayTask .poller 10 5 true, .tick 15, .scheduleDelayTask 15, .nextDelay,
    .lockDelay, .callDelay, .cancel 0, .finishDelay 20, .nextDelay]

/-- A task is cancelled after a worker has tested it. -/
def testedThenCancelled : List PoolAction :=
  [.async .outside false true true, .post, .started 0, .testExit 0, .wait 0, .take 0, .test 0, .cancel 0, .lock 0]

theorem cancel_is_final_selfCancelled :
    (∃ s, Transition.exec PollerLoop.step .init selfCancelled = some s ∧ s.log = [.started 0, .cancelled 0] ∧
      s.delayTasks.entries = [(35, 0)] ∧ CancelFinal s.log ∧
        StartsNoMore PollerLoop.step .cancel PollerLoop.log .init selfCancelled ∧ DropsCancelled s) ∧
    ∃ s, Transition.exec ThreadPool.step (.init 1) testedThenCancelled = some s ∧ s.log = [.cancelled 0] ∧
      CancelFinal s.log ∧ StartsNoMore ThreadPool.step .cancel ThreadPool.log (.init 1) testedThenCancelled := by
  obtain ⟨s, hs, hlog, hentries⟩ : ∃ s, Transition.exec PollerLoop.step .init selfCancelled = some s ∧
      s.log = [.started 0, .cancelled 0] ∧ s.delayTasks.entries = [(35, 0)] := ⟨_, rfl, rfl, rfl⟩
  obtain ⟨t, ht, hlog'⟩ : ∃ t, Transition.exec ThreadPool.step (.init 1) testedThenCancelled = some t ∧
      t.log = [.cancelled 0] := ⟨_, rfl, rfl⟩
  obtain ⟨hpoller, hpool⟩ := cancel_is_final selfCancelled s 1 testedThenCancelled t
  exact ⟨⟨s, hs, hlog, hentries, hpoller (by decide) hs⟩, t, ht, hlog', hpool (by decide) ht⟩

end AvcTool
