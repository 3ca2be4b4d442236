import AvcTool.Lib.Transition
import AvcTool.Poller.EventTable

/-!
# Registrations and reused descriptor numbers

Threads open descriptors, attach them to a poller, detach and close them; the kernel hands out a closed number
again.  Each `open` gives a new instance, and the callback that is attached for it is named by this instance.
`SockFD` closes a descriptor only after it has asked for its detachment.  A call on the poller thread is carried
out at once, a call from another thread is queued, so a call on the poller thread can overtake a queued one for
the same number (`NoOvertaking` says that it does not).

For one number, `settle` is the effect that the queued tasks are going to have while the number stays open.  The
invariant `Settled` says that it leads to the registration of the instance that is attached, and to none if no
instance is.
-/

namespace AvcTool

/-- The holder of an open descriptor number, and whether it is attached and has not asked to be detached since. -/
structure Owner where
  inst : Nat
  attached : Bool
  deriving DecidableEq

structure Descriptors where
  registry : Registry Nat
  owner : FD → Option Owner
  nextInst : Nat

def Descriptors.init : Descriptors := ⟨⟨.empty, []⟩, fun _ => none, 0⟩

inductive DescriptorAction where
  | openFd (fd : FD)
  | attach (current : Bool) (fd : FD) (events : Nat)
  | detach (current : Bool) (fd : FD)
  | close (fd : FD)
  | runTask
  deriving DecidableEq

/-- One action.  `epoll_ctl` fails on a number that is not open. -/
def Descriptors.step (s : Descriptors) : DescriptorAction → Option Descriptors
  | .openFd fd =>
    if 0 ≤ fd ∧ s.owner fd = none then
      some { s with owner := Function.update s.owner fd (some ⟨s.nextInst, false⟩), nextInst := s.nextInst + 1 }
    else none
  | .attach current fd events =>
    (s.owner fd).map fun o =>
      let (registry, ret) := s.registry.attachEvent current true fd events o.inst
      { s with
        registry := registry
        owner := Function.update s.owner fd (some { o with attached := o.attached || ret == 0 }) }
  | .detach current fd =>
    (s.owner fd).map fun o =>
      { s with
        registry := (s.registry.call current true (.detach fd)).1
        owner := Function.update s.owner fd (some { o with attached := false }) }
  | .close fd =>
    match s.owner fd with
    | some ⟨_, false⟩ =>
      some { s with
        registry := { s.registry with table := s.registry.table.close fd }
        owner := Function.update s.owner fd none }
    | _ => none
  | .runTask =>
    match s.registry.tasks with
    | [] => none
    | task :: _ => (s.registry.runTask (s.owner task.fd).isSome).map fun registry => { s with registry := registry }

/-- The descriptor is in the epoll interest list and the poller's record for it is the callback of this instance. -/
def Registered (t : EventTable Nat) (fd : FD) (inst : Nat) : Prop :=
  fd ∈ t.interest ∧ (t.eventRecords.lookup fd).map EventRecord.cb = some inst

/-- With an empty task queue every attached descriptor is registered with its own callback. -/
def RegistrationsAlive (s : Descriptors) : Prop :=
  s.registry.tasks = [] → ∀ fd o, s.owner fd = some o → o.attached = true → Registered s.registry.table fd o.inst

/-- A call on the poller thread finds no task for its descriptor number still in the queue. -/
def NoOvertaking (s : Descriptors) : DescriptorAction → Prop
  | .attach true fd _ => ∀ task ∈ s.registry.tasks, task.fd ≠ fd
  | .detach true fd => ∀ task ∈ s.registry.tasks, task.fd ≠ fd
  | _ => True

instance : ∀ s a, Decidable (NoOvertaking s a)
  | s, .attach true fd _ => inferInstanceAs (Decidable (∀ task ∈ s.registry.tasks, task.fd ≠ fd))
  | s, .detach true fd => inferInstanceAs (Decidable (∀ task ∈ s.registry.tasks, task.fd ≠ fd))
  | _, .attach false _ _ => isTrue trivial
  | _, .detach false _ => isTrue trivial
  | _, .openFd _ => isTrue trivial
  | _, .close _ => isTrue trivial
  | _, .runTask => isTrue trivial

/-! ### The effect of the queue on one number -/

/-- Whether the kernel has the number, and the callback recorded for it. -/
def slot (t : EventTable Nat) (fd : FD) : Bool × Option Nat :=
  (decide (fd ∈ t.interest), (t.eventRecords.lookup fd).map EventRecord.cb)

/-- The effect of one task on the slot of `fd` while this number is open. -/
def settleTask (fd : FD) (l : Bool × Option Nat) : RegTask Nat → Bool × Option Nat
  | .attach fd' r => if fd' = fd ∧ l.1 = false then (true, some r.cb) else l
  | .modify _ _ => l
  | .detach fd' => if fd' = fd then (false, none) else l

def settle (fd : FD) (l : Bool × Option Nat) (tasks : List (RegTask Nat)) : Bool × Option Nat :=
  tasks.foldl (settleTask fd) l

private theorem settle_append (fd : FD) (l : Bool × Option Nat) (tasks : List (RegTask Nat)) (task : RegTask Nat) :
    settle fd l (tasks ++ [task]) = settleTask fd (settle fd l tasks) task := by
  simp [settle]

private theorem settleTask_of_ne {fd : FD} {task : RegTask Nat} (h : task.fd ≠ fd) (l : Bool × Option Nat) :
    settleTask fd l task = l := by
  cases task with
  | attach fd' r => exact if_neg fun hc => h hc.1
  | modify fd' events => rfl
  | detach fd' => exact if_neg h

private theorem settle_of_forall_ne {fd : FD} {tasks : List (RegTask Nat)} (h : ∀ task ∈ tasks, task.fd ≠ fd)
    (l : Bool × Option Nat) : settle fd l tasks = l := by
  induction tasks generalizing l with
  | nil => rfl
  | cons task tasks ih =>
    have h1 := settleTask_of_ne (h task List.mem_cons_self) l
    have h2 := ih (fun t ht => h t (List.mem_cons_of_mem _ ht)) l
    simpa [settle, h1] using h2

/-- If the queue leaves the number unregistered, it also does so from a slot with less registered. -/
private theorem settle_unregistered_mono {fd : FD} {tasks : List (RegTask Nat)} {l m : Bool × Option Nat}
    (hlm : m.1 = true → l.1 = true) (h : (settle fd l tasks).1 = false) : (settle fd m tasks).1 = false := by
  induction tasks generalizing l m with
  | nil =>
    cases hm : m.1 with
    | false => exact hm
    | true => exact absurd (hlm hm) (by simpa [settle] using h)
  | cons task tasks ih =>
    refine ih (l := settleTask fd l task) ?_ h
    cases task with
    | attach fd' r =>
      by_cases hfd : fd' = fd
      · intro _
        cases hl : l.1 <;> simp [settleTask, hfd, hl]
      · simpa [settleTask, hfd] using hlm
    | modify fd' events => exact hlm
    | detach fd' =>
      by_cases hfd : fd' = fd
      · simp [settleTask, hfd]
      · simpa [settleTask, hfd] using hlm

/-! ### Operations and slots -/

private theorem slot_attachEventL (t : EventTable Nat) (ok : Bool) (fd fd' : FD) (r : EventRecord Nat) :
    slot (attachEventL ok fd r t).1 fd' =
      if fd' = fd ∧ ok ∧ fd ∉ t.interest then (true, some r.cb) else slot t fd' := by
  unfold attachEventL epollCtlAdd
  by_cases hok : ok = true ∧ fd ∉ t.interest
  · by_cases hfd : fd' = fd
    · subst hfd
      simp [slot, hok]
    · simp [slot, hok, hfd]
  · simp only [hok, ↓reduceIte, and_false]

private theorem attachEventL_ret (t : EventTable Nat) (ok : Bool) (fd : FD) (r : EventRecord Nat) :
    (attachEventL ok fd r t).2 = if ok ∧ fd ∉ t.interest then 0 else -1 := by
  unfold attachEventL epollCtlAdd
  by_cases hok : ok = true ∧ fd ∉ t.interest
  · simp [hok]
  · simp only [hok, ↓reduceIte]

private theorem slot_detachEvent (t : EventTable Nat) (fd fd' : FD) :
    slot (detachEvent true fd t).1 fd' = if fd' = fd then (false, none) else slot t fd' := by
  unfold detachEvent epollCtlDel
  by_cases hmem : fd ∈ t.interest
  · by_cases hfd : fd' = fd
    · subst hfd
      simp [slot, hmem]
    · simp [slot, hmem, hfd]
  · by_cases hfd : fd' = fd
    · subst hfd
      simp [slot, hmem]
    · simp [slot, hmem, hfd]

private theorem slot_modifyEvent (t : EventTable Nat) (fd fd' : FD) (events : Nat) :
    slot (modifyEvent true fd events t).1 fd' = slot t fd' := by
  have hcb : ((setEvents fd events t.eventRecords).lookup fd').map EventRecord.cb =
      (t.eventRecords.lookup fd').map EventRecord.cb := by
    rw [lookup_setEvents]
    split
    · subst_vars
      cases t.eventRecords.lookup fd' <;> rfl
    · rfl
  unfold modifyEvent epollCtlMod
  by_cases hmem : fd ∈ t.interest
  · have hins : fd' ∈ t.interest.insert fd (toEpollEvent events) ↔ fd' ∈ t.interest := by
      rw [AList.mem_insert]
      exact ⟨fun h => h.elim (fun e => e ▸ hmem) id, .inr⟩
    simp [slot, hmem, hcb, hins]
  · simp [slot, hmem, hcb]

/-- While a number is open, running a task has the effect of `settleTask` on its slot. -/
private theorem slot_run (t : EventTable Nat) (task : RegTask Nat) (fd : FD) :
    slot (task.run true t).1 fd = settleTask fd (slot t fd) task := by
  cases task with
  | attach fd' r =>
    simp only [RegTask.run, slot_attachEventL, settleTask, true_and]
    by_cases hfd : fd = fd'
    · subst hfd
      simp [slot]
    · simp [hfd, Ne.symm hfd]
  | modify fd' events => exact slot_modifyEvent t fd' fd events
  | detach fd' =>
    simp only [RegTask.run, slot_detachEvent, settleTask, eq_comm]

/-- On a closed number `epoll_ctl` fails, so a task leaves the interest list alone. -/
private theorem interest_run_closed (t : EventTable Nat) (task : RegTask Nat) :
    (task.run false t).1.interest = t.interest := by
  cases task <;> rfl

private theorem slot_run_ne (t : EventTable Nat) (ok : Bool) (task : RegTask Nat) {fd : FD} (h : task.fd ≠ fd) :
    slot (task.run ok t).1 fd = slot t fd := by
  cases ok with
  | true => rw [slot_run, settleTask_of_ne h]
  | false =>
    unfold slot
    rw [interest_run_closed]
    cases task with
    | attach fd' r => rfl
    | modify fd' events =>
      have hfd : fd ≠ fd' := Ne.symm h
      simp [RegTask.run, modifyEvent, epollCtlMod, lookup_setEvents, hfd]
    | detach fd' =>
      have hfd : fd ≠ fd' := Ne.symm h
      simp [RegTask.run, detachEvent, epollCtlDel, hfd]

private theorem slot_close (t : EventTable Nat) (fd fd' : FD) :
    slot (t.close fd) fd' = if fd' = fd then (false, (slot t fd).2) else slot t fd' := by
  by_cases hfd : fd' = fd
  · subst hfd
    simp [slot, EventTable.close]
  · simp [slot, EventTable.close, hfd]

/-! ### The invariant -/

/-- What the queue is going to make of the slot `l` of `fd`, for the holder `o` of the number. -/
def SettledAt (fd : FD) (l : Bool × Option Nat) (tasks : List (RegTask Nat)) : Option Owner → Prop
  | none => l.1 = false ∧ (settle fd l tasks).1 = false
  | some ⟨_, false⟩ => (settle fd l tasks).1 = false
  | some ⟨inst, true⟩ => settle fd l tasks = (true, some inst)

def Settled (s : Descriptors) : Prop :=
  ∀ fd, SettledAt fd (slot s.registry.table fd) s.registry.tasks (s.owner fd)

theorem Settled.init : Settled .init := fun fd => by
  simp [Descriptors.init, SettledAt, slot, EventTable.empty, settle]

private theorem SettledAt.append_ne {fd : FD} {l : Bool × Option Nat} {tasks : List (RegTask Nat)} {o : Option Owner}
    (h : SettledAt fd l tasks o) (task : RegTask Nat) (hne : task.fd ≠ fd) :
    SettledAt fd l (tasks ++ [task]) o := by
  have hs : settle fd l (tasks ++ [task]) = settle fd l tasks := by
    rw [settle_append, settleTask_of_ne hne]
  unfold SettledAt at h ⊢
  rw [hs]
  exact h

private theorem SettledAt.append_attach {fd : FD} {l : Bool × Option Nat} {tasks : List (RegTask Nat)} {o : Owner}
    (h : SettledAt fd l tasks (some o)) (events : Nat) :
    SettledAt fd l (tasks ++ [.attach fd ⟨events, o.inst⟩]) (some ⟨o.inst, true⟩) := by
  obtain ⟨inst, attached⟩ := o
  show settle fd l (tasks ++ [_]) = (true, some inst)
  rw [settle_append]
  cases attached with
  | false =>
    have hu : (settle fd l tasks).1 = false := h
    simp [settleTask, hu]
  | true =>
    have hr : settle fd l tasks = (true, some inst) := h
    simp [settleTask, hr]

private theorem SettledAt.append_detach (fd : FD) (l : Bool × Option Nat) (tasks : List (RegTask Nat)) (inst : Nat) :
    SettledAt fd l (tasks ++ [.detach fd]) (some ⟨inst, false⟩) := by
  show (settle fd l (tasks ++ [_])).1 = false
  rw [settle_append]
  simp [settleTask]

private theorem SettledAt.unregistered {fd : FD} {l : Bool × Option Nat} {tasks : List (RegTask Nat)} {inst : Nat}
    (h : SettledAt fd l tasks (some ⟨inst, false⟩)) (cb : Option Nat) : SettledAt fd (false, cb) tasks none :=
  ⟨rfl, settle_unregistered_mono (by simp) h⟩

/-! ### One step -/

private theorem attach_queued_settled {s : Descriptors} (h : Settled s) {fd : FD} {o : Owner} (ho : s.owner fd = some o)
    (events : Nat) :
    Settled { s with
      registry := (s.registry.call false true (.attach fd ⟨events, o.inst⟩)).1
      owner := Function.update s.owner fd (some ⟨o.inst, true⟩) } := by
  intro fd'
  by_cases hfd : fd' = fd
  · subst hfd
    have := h fd'
    rw [ho] at this
    simpa [Registry.call] using this.append_attach events
  · simpa [Registry.call, hfd] using (h fd').append_ne (.attach fd ⟨events, o.inst⟩) (Ne.symm hfd)

private theorem attach_direct_settled {s : Descriptors} (h : Settled s) {fd : FD} {o : Owner} (ho : s.owner fd = some o)
    (hno : ∀ task ∈ s.registry.tasks, task.fd ≠ fd) (events : Nat) :
    Settled { s with
      registry := (s.registry.call true true (.attach fd ⟨events, o.inst⟩)).1
      owner := Function.update s.owner fd (some { o with
        attached := o.attached || (s.registry.call true true (.attach fd ⟨events, o.inst⟩)).2 == 0 }) } := by
  have hslot := fun fd' => slot_attachEventL s.registry.table true fd fd' ⟨events, o.inst⟩
  have hret := attachEventL_ret s.registry.table true fd ⟨events, o.inst⟩
  intro fd'
  by_cases hfd : fd' = fd
  · subst hfd
    have hfd' := h fd'
    rw [ho] at hfd'
    simp only [Registry.call, RegTask.run, ↓reduceIte, Function.update_self, hslot, hret, true_and]
    -- the number is already in the interest list exactly if the instance is attached
    obtain ⟨inst, attached⟩ := o
    have hsettle := settle_of_forall_ne hno (slot s.registry.table fd')
    cases attached with
    | false =>
      have hni : fd' ∉ s.registry.table.interest := by
        have : (slot s.registry.table fd').1 = false := by rw [← hsettle]; exact hfd'
        simpa [slot] using this
      simp only [hni, not_false_eq_true, ↓reduceIte]
      exact settle_of_forall_ne hno _
    | true =>
      have hi : fd' ∈ s.registry.table.interest := by
        have : slot s.registry.table fd' = (true, some inst) := by rw [← hsettle]; exact hfd'
        simpa [slot] using congrArg Prod.fst this
      simp only [hi, not_true_eq_false, ↓reduceIte]
      exact hfd'
  · simpa [Registry.call, RegTask.run, hslot, hfd] using h fd'

private theorem detach_queued_settled {s : Descriptors} (h : Settled s) (fd : FD) (inst : Nat) :
    Settled { s with
      registry := (s.registry.call false true (.detach fd)).1
      owner := Function.update s.owner fd (some ⟨inst, false⟩) } := by
  intro fd'
  by_cases hfd : fd' = fd
  · subst hfd
    simpa [Registry.call] using SettledAt.append_detach fd' _ _ inst
  · simpa [Registry.call, hfd] using (h fd').append_ne (.detach fd) (Ne.symm hfd)

private theorem detach_direct_settled {s : Descriptors} (h : Settled s) {fd : FD}
    (hno : ∀ task ∈ s.registry.tasks, task.fd ≠ fd) (inst : Nat) :
    Settled { s with
      registry := (s.registry.call true true (.detach fd)).1
      owner := Function.update s.owner fd (some ⟨inst, false⟩) } := by
  have hslot := fun fd' => slot_detachEvent s.registry.table fd fd'
  intro fd'
  by_cases hfd : fd' = fd
  · subst hfd
    simp only [Registry.call, RegTask.run, ↓reduceIte, Function.update_self, hslot]
    show (settle fd' _ _).1 = false
    rw [settle_of_forall_ne hno]
  · simpa [Registry.call, RegTask.run, hslot, hfd] using h fd'

private theorem close_settled {s : Descriptors} (h : Settled s) {fd : FD} {inst : Nat}
    (ho : s.owner fd = some ⟨inst, false⟩) :
    Settled { s with
      registry := { s.registry with table := s.registry.table.close fd }
      owner := Function.update s.owner fd none } := by
  intro fd'
  by_cases hfd : fd' = fd
  · subst hfd
    have := h fd'
    rw [ho] at this
    simpa [slot_close] using this.unregistered _
  · simpa [slot_close, hfd] using h fd'

/-- Running the first task changes the slots as `settle` foresees, except that for a closed number the kernel
refuses it. -/
private theorem runTask_settled {s : Descriptors} (h : Settled s) {task : RegTask Nat} {tasks : List (RegTask Nat)}
    (ht : s.registry.tasks = task :: tasks) :
    Settled { s with registry := ⟨(task.run (s.owner task.fd).isSome s.registry.table).1, tasks⟩ } := by
  intro fd
  have hfd := h fd
  rw [ht] at hfd
  have hcons : ∀ l, settle fd l (task :: tasks) = settle fd (settleTask fd l task) tasks := fun _ => rfl
  show SettledAt fd (slot (task.run _ s.registry.table).1 fd) tasks (s.owner fd)
  by_cases hne : task.fd = fd
  · rw [hne]
    cases ho : s.owner fd with
    | none =>
      rw [ho] at hfd
      have hslot : (slot (task.run false s.registry.table).1 fd).1 = false := by
        show decide (fd ∈ (task.run false s.registry.table).1.interest) = false
        rw [interest_run_closed]
        exact hfd.1
      refine ⟨hslot, settle_unregistered_mono (l := settleTask fd (slot s.registry.table fd) task) ?_ hfd.2⟩
      intro hc
      rw [Option.isSome_none, hslot] at hc
      cases hc
    | some o =>
      rw [ho] at hfd
      rw [Option.isSome_some, slot_run]
      obtain ⟨inst, attached⟩ := o
      cases attached with
      | false => exact hfd
      | true => exact hfd
  · rw [slot_run_ne _ _ _ hne]
    unfold SettledAt at hfd ⊢
    rw [hcons, settleTask_of_ne hne] at hfd
    exact hfd

private theorem step_settled (s : Descriptors) (a : DescriptorAction) (s' : Descriptors) (h : Settled s)
    (hok : NoOvertaking s a) (hstep : s.step a = some s') : Settled s' := by
  cases a with
  | openFd fd =>
    simp only [Descriptors.step, Option.ite_none_right_eq_some, Option.some.injEq] at hstep
    obtain ⟨⟨-, ho⟩, rfl⟩ := hstep
    intro fd'
    by_cases hfd : fd' = fd
    · subst hfd
      have := h fd'
      rw [ho] at this
      simp only [Function.update_self]
      exact this.2
    · simpa [hfd] using h fd'
  | attach current fd events =>
    simp only [Descriptors.step, Option.map_eq_some_iff] at hstep
    obtain ⟨o, ho, rfl⟩ := hstep
    by_cases hneg : fd < 0
    · have hsame : Function.update s.owner fd (some o) = s.owner := by rw [← ho, Function.update_eq_self]
      simpa [Registry.attachEvent, hneg, hsame] using h
    · cases current with
      | false => simpa [Registry.attachEvent, hneg, Registry.call] using attach_queued_settled h ho events
      | true => simpa [Registry.attachEvent, hneg] using attach_direct_settled h ho hok events
  | detach current fd =>
    simp only [Descriptors.step, Option.map_eq_some_iff] at hstep
    obtain ⟨o, ho, rfl⟩ := hstep
    cases current with
    | false => exact detach_queued_settled h fd o.inst
    | true => exact detach_direct_settled h hok o.inst
  | close fd =>
    simp only [Descriptors.step] at hstep
    split at hstep
    · rename_i inst ho
      obtain rfl := Option.some.inj hstep
      exact close_settled h ho
    · cases hstep
  | runTask =>
    simp only [Descriptors.step] at hstep
    split at hstep
    · cases hstep
    · rename_i task tasks ht
      simp only [Registry.runTask, ht, Option.map_some, Option.some.injEq] at hstep
      obtain rfl := hstep
      exact runTask_settled h ht

/-! ### Runs -/

private theorem Settled.registrationsAlive {s : Descriptors} (h : Settled s) : RegistrationsAlive s := by
  intro hempty fd o ho hatt
  obtain ⟨inst, attached⟩ := o
  obtain rfl : attached = true := hatt
  have hfd := h fd
  rw [ho, hempty] at hfd
  have hslot : slot s.registry.table fd = (true, some inst) := hfd
  refine ⟨?_, congrArg Prod.snd hslot⟩
  simpa [slot] using congrArg Prod.fst hslot

/-- In a run in which no call on the poller thread overtakes a queued task for its number, the registrations of
attached descriptors are alive whenever the queue is empty. -/
theorem registrations_survive_reuse {as : List DescriptorAction} {s : Descriptors}
    (hrun : Transition.exec Descriptors.step .init as = some s)
    (hok : Transition.Along Descriptors.step NoOvertaking .init as) : RegistrationsAlive s :=
  (Transition.exec_invariant_along step_settled Settled.init hok hrun).registrationsAlive

/-- A descriptor is closed on another thread, its number is handed out again and attached from another thread too:
the two registrations are settled in order. -/
def reuseInOrder : List DescriptorAction :=
  [.openFd 5, .attach true 5 kEventRead, .detach false 5, .close 5, .openFd 5, .attach false 5 kEventRead, .runTask,
    .runTask]

theorem registrations_survive_reuse_in_order :
    ∃ s, Transition.exec Descriptors.step .init reuseInOrder = some s ∧ RegistrationsAlive s :=
  ⟨_, rfl, @registrations_survive_reuse reuseInOrder _ rfl (by decide)⟩

/-- The number is reopened and attached on the poller thread while the detachment of its last holder is still
queued. -/
def reuseOvertaking : List DescriptorAction :=
  [.openFd 5, .attach true 5 kEventRead, .detach false 5, .close 5, .openFd 5, .attach true 5 kEventRead, .runTask]

theorem registration_lost_on_reuse :
    ∃ s, Transition.exec Descriptors.step .init reuseOvertaking = some s ∧ ¬ RegistrationsAlive s := by
  refine ⟨_, rfl, fun h => ?_⟩
  have hreg := h rfl 5 ⟨1, true⟩ rfl rfl
  exact absurd hreg.1 (by decide)

end AvcTool
