import Mathlib.Data.Finset.Insert
import AvcTool.Network.Socket
import AvcTool.Poller.Dispatch
import AvcTool.Poller.TaskQueue

/-!
# Binding a socket again

`bindUdpSocket` opens a descriptor, drops the old `SockFD` (`closeSocket`), stores the new one and attaches it.  The
last reference to a `SockFD` detaches its descriptor and closes it; `fromSockFd` keeps one until it returns.  Here any
number of threads are in `bindUdpSocket`, each with the list of the operations it still has to do, while the poller
waits for events, invokes callbacks and runs the queued attach and detach tasks.

The I/O callback has captured the descriptor it was attached for.  What the poller invokes has been collected from the
interest list, and that holds open descriptors only (`RegistrySound`).  So the captured descriptor is the current one
as long as no event is collected for a descriptor that is open and not the current one, and the socket changes its
descriptor only when no event of the old one waits for its callback (`RebindInTurn`).
-/

namespace AvcTool

/-! ### The threads and the poller -/

/-- What a thread in `bindUdpSocket` still has to do. -/
inductive BindOp where
  | closeSocket
  | setSocketFD (fd : FD)
  | attachEvent (fd : FD)
  /-- `fromSockFd` returns and drops its own reference to the `SockFD` -/
  | leave (fd : FD)
  /-- `~SockFD` -/
  | detachEvent (fd : FD)
  /-- `~SockNum` -/
  | closeFd (fd : FD)
  deriving DecidableEq

/-- The operations that assign to `sock_fd_`. -/
def BindOp.assignsSockFd : BindOp → Bool
  | .closeSocket => true
  | .setSocketFD _ => true
  | _ => false

inductive IoCall where
  | onReadable
  | onWritable
  deriving DecidableEq

/-- The calls that the I/O callback makes for the signaled events. -/
def ioCalls (events : Nat) : List IoCall :=
  (if events &&& kEventRead ≠ 0 then [.onReadable] else []) ++
    (if events &&& kEventWrite ≠ 0 then [.onWritable] else [])

structure Rebind where
  registry : Registry IoCallback
  sockFd : Option FD
  /-- the descriptors that `bindUdpSocket` has opened and nobody has closed -/
  openFds : Finset FD
  /-- the descriptors whose `SockFD` a call of `fromSockFd` still refers to -/
  locals : Finset FD
  threads : Thread → List BindOp
  pending : List (Signaled IoCallback)
  /-- the I/O callback that is running, with the calls that it has yet to make -/
  running : Option (IoCallback × List IoCall)

inductive RebindAction where
  | bindUdpSocket (t : Thread) (fd : FD)
  | run (t : Thread) (ok : Bool)
  | collect (signaled : List (FD × Nat))
  | dispatch
  | ioCall
  | finish
  | runTask (ok : Bool)
  deriving DecidableEq

namespace Rebind

def init : Rebind := ⟨⟨.empty, []⟩, none, ∅, ∅, fun _ => [], [], none⟩

/-- `sock_fd_` gives up its `SockFD`, which dies unless a call of `fromSockFd` refers to it. -/
def release (s : Rebind) : List BindOp :=
  match s.sockFd with
  | some fd => if fd ∈ s.locals then [] else [.detachEvent fd, .closeFd fd]
  | none => []

def goOn (s : Rebind) (t : Thread) (ops : List BindOp) : Rebind :=
  { s with threads := Function.update s.threads t ops }

/-- One operation of the thread `t`.  `epoll_ctl` fails on a descriptor that is not open. -/
def runOp (s : Rebind) (t : Thread) (ok : Bool) (ops : List BindOp) : BindOp → Rebind
  | .closeSocket => { s.goOn t (s.release ++ ops) with sockFd := none }
  | .setSocketFD fd => { s.goOn t (s.release ++ ops) with sockFd := some fd }
  | .attachEvent fd =>
    { s.goOn t ops with
      registry := (s.registry.attachEvent t.currentThread (ok && decide (fd ∈ s.openFds)) fd
        (Socket.attachedEvents .udp) ⟨fd, .udp⟩).1 }
  | .leave fd =>
    { s.goOn t ((if s.sockFd = some fd then [] else [.detachEvent fd, .closeFd fd]) ++ ops) with
      locals := s.locals.erase fd }
  | .detachEvent fd =>
    { s.goOn t ops with
      registry := (s.registry.call t.currentThread (ok && decide (fd ∈ s.openFds)) (.detach fd)).1 }
  | .closeFd fd =>
    { s.goOn t ops with
      openFds := s.openFds.erase fd
      registry := { s.registry with table := s.registry.table.close fd } }

def step (s : Rebind) : RebindAction → Option Rebind
  | .bindUdpSocket t fd =>
    if 0 ≤ fd ∧ fd ∉ s.openFds ∧ s.threads t = [] then
      some { s.goOn t [.closeSocket, .setSocketFD fd, .attachEvent fd, .leave fd] with
        openFds := insert fd s.openFds
        locals := insert fd s.locals }
    else none
  | .run t ok =>
    match s.threads t with
    | [] => none
    | op :: ops => some (s.runOp t ok ops op)
  -- the poller thread goes on only when it is not in `bindUdpSocket` itself
  | .collect signaled =>
    if s.threads .poller = [] ∧ s.running = none ∧ s.pending = [] ∧ (signaled.map Prod.fst).Nodup ∧
        signaled.length ≤ epollSize ∧ ∀ p ∈ signaled, p.1 ∈ s.registry.table.interest then
      some { s with
        registry := { s.registry with table := (collectEpoll s.registry.table signaled).1 }
        pending := (collectEpoll s.registry.table signaled).2 }
    else none
  | .dispatch =>
    match s.threads .poller, s.running, s.pending with
    | [], none, e :: pending => some { s with pending := pending, running := some (e.cb, ioCalls e.signaledEvents) }
    | _, _, _ => none
  | .ioCall =>
    match s.threads .poller, s.running with
    | [], some (cb, _ :: calls) => some { s with running := some (cb, calls) }
    | _, _ => none
  | .finish =>
    match s.threads .poller, s.running with
    | [], some (_, []) => some { s with running := none }
    | _, _ => none
  | .runTask ok =>
    match s.threads .poller, s.running, s.registry.tasks with
    | [], none, task :: _ =>
      (s.registry.runTask (ok && decide (task.fd ∈ s.openFds))).map fun registry => { s with registry := registry }
    | _, _, _ => none

/-- The socket gives up its descriptor with the next operation of the thread. -/
def GivesUp (s : Rebind) (t : Thread) : Prop := (s.threads t).head?.any BindOp.assignsSockFd = true

/-- An event of the descriptor waits for its callback, or for the rest of it. -/
def Awaited (s : Rebind) (fd : FD) : Prop :=
  (∃ e ∈ s.pending, e.fd = fd) ∨ ∃ r ∈ s.running, r.2 ≠ [] ∧ r.1.fd = fd

instance decidableGivesUp (s : Rebind) (t : Thread) : Decidable (s.GivesUp t) := inferInstanceAs (Decidable (_ = true))

instance decidableAwaited (s : Rebind) (fd : FD) : Decidable (s.Awaited fd) :=
  decidable_of_iff ((∃ e ∈ s.pending, e.fd = fd) ∨ ∃ r ∈ s.running.toList, r.2 ≠ [] ∧ r.1.fd = fd) (by
    simp only [Awaited, Option.mem_toList, Option.mem_def])

end Rebind

/-- An I/O call is made for the descriptor of the socket. -/
def IoOnCurrent (s : Rebind) : RebindAction → Prop
  | .ioCall => ∀ cb call calls, s.running = some (cb, call :: calls) → s.sockFd = some cb.fd
  | _ => True

/-- No event of the old descriptor is awaited when the socket gives it up, and no event is collected for a descriptor
that is open but not (yet or any more) that of the socket. -/
def RebindInTurn (s : Rebind) : RebindAction → Prop
  | .run t _ => s.GivesUp t → ∀ fd ∈ s.sockFd, ¬ s.Awaited fd
  | .collect signaled => ∀ p ∈ signaled, p.1 ∈ s.openFds → s.sockFd = some p.1
  | _ => True

instance decidableRebindInTurn : ∀ s a, Decidable (RebindInTurn s a)
  | s, .run t _ => inferInstanceAs (Decidable (s.GivesUp t → ∀ fd ∈ s.sockFd, ¬ s.Awaited fd))
  | s, .collect signaled => inferInstanceAs (Decidable (∀ p ∈ signaled, p.1 ∈ s.openFds → s.sockFd = some p.1))
  | _, .bindUdpSocket _ _ => isTrue trivial
  | _, .dispatch => isTrue trivial
  | _, .ioCall => isTrue trivial
  | _, .finish => isTrue trivial
  | _, .runTask _ => isTrue trivial

/-! ### The registry -/

/-- The interest list holds open descriptors only, and every record or task is for the descriptor its callback has
captured. -/
structure RegistrySound (openFds : Finset FD) (p : Registry IoCallback) : Prop where
  interest : ∀ fd ∈ p.table.interest, fd ∈ openFds
  record : ∀ fd r, p.table.eventRecords.lookup fd = some r → r.cb.fd = fd
  task : ∀ fd r, .attach fd r ∈ p.tasks → r.cb.fd = fd

theorem RegistrySound.init : RegistrySound ∅ ⟨.empty, []⟩ where
  interest := nofun
  record := fun fd r h => by simp [EventTable.empty] at h
  task := nofun

theorem RegistrySound.mono {openFds openFds' : Finset FD} {p : Registry IoCallback} (h : RegistrySound openFds p)
    (hsub : openFds ⊆ openFds') : RegistrySound openFds' p :=
  ⟨fun fd hfd => hsub (h.interest fd hfd), h.record, h.task⟩

theorem RegistrySound.close {openFds : Finset FD} {p : Registry IoCallback} (h : RegistrySound openFds p) (fd : FD) :
    RegistrySound (openFds.erase fd) { p with table := p.table.close fd } where
  interest := by
    intro fd' hfd'
    have hmem : fd' ≠ fd ∧ fd' ∈ p.table.interest := by simpa [EventTable.close] using hfd'
    exact Finset.mem_erase.2 ⟨hmem.1, h.interest fd' hmem.2⟩
  record := h.record
  task := h.task

theorem mem_interest_detachEvent {κ : Type} {t : EventTable κ} {ok : Bool} {fd fd' : FD}
    (h : fd ∈ (detachEvent ok fd' t).1.interest) : fd ∈ t.interest := by
  simp only [detachEvent, epollCtlDel] at h
  by_cases hdel : ok = true ∧ fd' ∈ t.interest
  · simp only [if_pos hdel, AList.mem_erase] at h
    exact h.2
  · simp only [if_neg hdel] at h
    exact h

private theorem RegTask.mem_interest_run {κ : Type} {t : EventTable κ} {task : RegTask κ} {ok : Bool} {fd : FD}
    (h : fd ∈ (task.run ok t).1.interest) : fd ∈ t.interest ∨ ok = true ∧ fd = task.fd := by
  cases task with
  | attach fd' r =>
    simp only [RegTask.run, attachEventL, epollCtlAdd] at h
    by_cases hadd : ok = true ∧ fd' ∉ t.interest
    · simp only [if_pos hadd, AList.mem_insert] at h
      rcases h with rfl | h
      · exact .inr ⟨hadd.1, rfl⟩
      · exact .inl h
    · simp only [if_neg hadd] at h
      exact .inl h
  | modify fd' events =>
    simp only [RegTask.run, modifyEvent, epollCtlMod] at h
    by_cases hmod : ok = true ∧ fd' ∈ t.interest
    · simp only [if_pos hmod, AList.mem_insert] at h
      rcases h with rfl | h
      · exact .inr ⟨hmod.1, rfl⟩
      · exact .inl h
    · simp only [if_neg hmod] at h
      exact .inl h
  | detach fd' => exact .inl (mem_interest_detachEvent h)

/-- The callbacks in the records are those that were there before, and that of an attach task. -/
private theorem RegTask.lookup_run {κ : Type} {t : EventTable κ} {task : RegTask κ} {ok : Bool} {fd : FD}
    {r : EventRecord κ} (h : (task.run ok t).1.eventRecords.lookup fd = some r) :
    task = .attach fd r ∨ ∃ r', t.eventRecords.lookup fd = some r' ∧ r'.cb = r.cb := by
  cases task with
  | attach fd' r' =>
    rcases eventRecords_attach .epoll ok fd' r' t with heq | heq
    · exact .inr ⟨r, (congrArg (AList.lookup fd) heq).symm.trans h, rfl⟩
    · have hr := (congrArg (AList.lookup fd) heq).symm.trans h
      rw [lookup_insert_eq] at hr
      split at hr
      · rename_i hfd
        obtain rfl := Option.some.inj hr
        rw [hfd]
        exact .inl rfl
      · exact .inr ⟨r, hr, rfl⟩
  | modify fd' events =>
    have hr := (congrArg (AList.lookup fd) (eventRecords_modifyEvent ok fd' events t)).symm.trans h
    rw [lookup_setEvents] at hr
    split at hr
    · rename_i hfd
      obtain ⟨r', hlookup, rfl⟩ := Option.map_eq_some_iff.1 hr
      rw [hfd]
      exact .inr ⟨r', hlookup, rfl⟩
    · exact .inr ⟨r, hr, rfl⟩
  | detach fd' =>
    have hr := (congrArg (AList.lookup fd) (eventRecords_detachEvent ok fd' t)).symm.trans h
    rw [lookup_erase_eq] at hr
    split at hr
    · cases hr
    · exact .inr ⟨r, hr, rfl⟩

/-- The body of an attach or detach task on the poller thread. -/
theorem RegistrySound.run {openFds : Finset FD} {p : Registry IoCallback} (h : RegistrySound openFds p) {ok : Bool}
    {task : RegTask IoCallback} (hok : ok = true → task.fd ∈ openFds)
    (htask : ∀ fd r, task = .attach fd r → r.cb.fd = fd) {tasks : List (RegTask IoCallback)}
    (htasks : ∀ t ∈ tasks, t ∈ p.tasks) : RegistrySound openFds ⟨(task.run ok p.table).1, tasks⟩ where
  interest := by
    intro fd hfd
    rcases RegTask.mem_interest_run hfd with hmem | ⟨hopen, rfl⟩
    · exact h.interest fd hmem
    · exact hok hopen
  record := by
    intro fd r hr
    rcases RegTask.lookup_run hr with heq | ⟨r', hr', hcb⟩
    · exact htask fd r heq
    · rw [← hcb]
      exact h.record fd r' hr'
  task := fun fd r hmem => h.task fd r (htasks _ hmem)

theorem RegistrySound.call {openFds : Finset FD} {p : Registry IoCallback} (h : RegistrySound openFds p)
    (current : Bool) {ok : Bool} {task : RegTask IoCallback} (hok : ok = true → task.fd ∈ openFds)
    (htask : ∀ fd r, task = .attach fd r → r.cb.fd = fd) : RegistrySound openFds (p.call current ok task).1 := by
  cases current with
  | true => exact h.run hok htask fun _ ht => ht
  | false =>
    refine ⟨h.interest, h.record, fun fd r hmem => ?_⟩
    rcases List.mem_append.1 hmem with hmem | hmem
    · exact h.task fd r hmem
    · exact htask fd r (List.mem_singleton.1 hmem).symm

theorem RegistrySound.attachEvent {openFds : Finset FD} {p : Registry IoCallback} (h : RegistrySound openFds p)
    (current : Bool) {ok : Bool} {fd : FD} (hok : ok = true → fd ∈ openFds) (events : Nat) (type : SockType) :
    RegistrySound openFds (p.attachEvent current ok fd events ⟨fd, type⟩).1 := by
  unfold Registry.attachEvent
  split
  · exact h
  · refine h.call current hok ?_
    rintro _ _ ⟨⟩
    rfl

theorem RegistrySound.runTask {openFds : Finset FD} {p p' : Registry IoCallback} (h : RegistrySound openFds p)
    {ok : Bool} {task : RegTask IoCallback} {tasks : List (RegTask IoCallback)} (htasks : p.tasks = task :: tasks)
    (hok : ok = true → task.fd ∈ openFds) (hrun : p.runTask ok = some p') : RegistrySound openFds p' := by
  rw [Registry.runTask, htasks] at hrun
  obtain rfl := Option.some.inj hrun
  refine h.run hok ?_ fun t ht => htasks ▸ List.mem_cons_of_mem task ht
  rintro fd r rfl
  exact h.task fd r (htasks ▸ List.mem_cons_self)

private theorem mem_interest_collectEpoll {κ : Type} {t : EventTable κ} {l : List (FD × Nat)} {fd : FD}
    (h : fd ∈ (collectEpoll t l).1.interest) : fd ∈ t.interest := by
  induction l generalizing t with
  | nil => exact h
  | cons p l ih =>
    obtain ⟨fd', events⟩ := p
    rw [collectEpoll] at h
    split at h
    · exact mem_interest_detachEvent (ih h)
    · exact ih h

private theorem fd_of_mem_collectEpoll {κ : Type} {t : EventTable κ} {l : List (FD × Nat)} {e : Signaled κ}
    (h : e ∈ (collectEpoll t l).2) : ∃ p ∈ l, e.fd = p.1 := by
  induction l generalizing t with
  | nil => cases h
  | cons p l ih =>
    obtain ⟨fd, events⟩ := p
    rw [collectEpoll] at h
    split at h
    · obtain ⟨q, hq, hfd⟩ := ih h
      exact ⟨q, List.mem_cons_of_mem _ hq, hfd⟩
    · rcases List.mem_cons.1 h with rfl | h
      · exact ⟨(fd, events), List.mem_cons_self, rfl⟩
      · obtain ⟨q, hq, hfd⟩ := ih h
        exact ⟨q, List.mem_cons_of_mem _ hq, hfd⟩

theorem RegistrySound.collect {openFds : Finset FD} {p : Registry IoCallback} (h : RegistrySound openFds p)
    (signaled : List (FD × Nat)) :
    RegistrySound openFds { p with table := (collectEpoll p.table signaled).1 } where
  interest := fun fd hfd => h.interest fd (mem_interest_collectEpoll hfd)
  record := fun fd r hr => h.record fd r ((lookup_collectEpoll p.table signaled fd).symm.trans hr)
  task := h.task

/-! ### The invariant -/

/-- Every event on its way to the I/O callback is for the descriptor of the socket. -/
structure RebindInv (s : Rebind) : Prop where
  registry : RegistrySound s.openFds s.registry
  pending : ∀ e ∈ s.pending, e.cb.fd = e.fd ∧ s.sockFd = some e.fd
  running : ∀ cb call calls, s.running = some (cb, call :: calls) → s.sockFd = some cb.fd

theorem RebindInv.init : RebindInv .init where
  registry := RegistrySound.init
  pending := nofun
  running := nofun

/-- Only the two operations that change `sock_fd_` depend on what is awaited. -/
theorem RebindInv.keep {s t : Rebind} (h : RebindInv s) (hregistry : RegistrySound t.openFds t.registry)
    (hsock : t.sockFd = s.sockFd) (hpending : t.pending = s.pending) (hrunning : t.running = s.running) :
    RebindInv t where
  registry := hregistry
  pending := by rw [hpending, hsock]; exact h.pending
  running := by rw [hrunning, hsock]; exact h.running

private theorem RebindInv.giveUp {s t : Rebind} (h : RebindInv s) (hregistry : RegistrySound t.openFds t.registry)
    (hpending : t.pending = s.pending) (hrunning : t.running = s.running)
    (hawaited : ∀ fd ∈ s.sockFd, ¬ s.Awaited fd) : RebindInv t where
  registry := hregistry
  pending := by
    intro e he
    rw [hpending] at he
    obtain ⟨-, hsock⟩ := h.pending e he
    exact absurd (.inl ⟨e, he, rfl⟩) (hawaited e.fd hsock)
  running := by
    intro cb call calls hrun
    rw [hrunning] at hrun
    have hsock := h.running cb call calls hrun
    exact absurd (.inr ⟨(cb, call :: calls), hrun, by simp, rfl⟩) (hawaited cb.fd hsock)

theorem RebindInv.runOp {s : Rebind} (h : RebindInv s) {t : Thread} (ok : Bool) {op : BindOp} {ops : List BindOp}
    (hops : s.threads t = op :: ops) (hturn : s.GivesUp t → ∀ fd ∈ s.sockFd, ¬ s.Awaited fd) :
    RebindInv (s.runOp t ok ops op) := by
  have hopen : ∀ fd, (ok && decide (fd ∈ s.openFds)) = true → fd ∈ s.openFds := by
    intro fd hok
    exact of_decide_eq_true (Bool.and_eq_true_iff.1 hok).2
  cases op with
  | closeSocket => exact h.giveUp h.registry rfl rfl (hturn (by rw [Rebind.GivesUp, hops]; rfl))
  | setSocketFD fd => exact h.giveUp h.registry rfl rfl (hturn (by rw [Rebind.GivesUp, hops]; rfl))
  | attachEvent fd => exact h.keep (h.registry.attachEvent _ (hopen fd) _ _) rfl rfl rfl
  | leave fd => exact h.keep h.registry rfl rfl rfl
  | detachEvent fd =>
    refine h.keep (h.registry.call _ (hopen fd) ?_) rfl rfl rfl
    rintro _ _ ⟨⟩
  | closeFd fd => exact h.keep (h.registry.close fd) rfl rfl rfl

private theorem step_rebindInv {s t : Rebind} {a : RebindAction} (h : RebindInv s) (hturn : RebindInTurn s a)
    (hstep : s.step a = some t) : RebindInv t := by
  cases a with
  | bindUdpSocket thread fd =>
    obtain ⟨-, ⟨⟩⟩ := Option.ite_none_right_eq_some.1 hstep
    exact h.keep (h.registry.mono (Finset.subset_insert fd _)) rfl rfl rfl
  | run thread ok =>
    rw [Rebind.step] at hstep
    split at hstep
    · cases hstep
    · rename_i op ops hops
      obtain rfl := Option.some.inj hstep
      exact h.runOp ok hops hturn
  | collect signaled =>
    obtain ⟨⟨-, hrunning, -, -, -, hinterest⟩, ⟨⟩⟩ := Option.ite_none_right_eq_some.1 hstep
    refine ⟨h.registry.collect signaled, fun e he => ?_, fun cb call calls hrun => ?_⟩
    · obtain ⟨r, hr, hcb⟩ := mem_collectEpoll he
      obtain ⟨p, hp, hfd⟩ := fd_of_mem_collectEpoll he
      refine ⟨hcb ▸ h.registry.record e.fd r hr, ?_⟩
      rw [hfd]
      exact hturn p hp (h.registry.interest _ (hinterest p hp))
    · rw [hrunning] at hrun
      cases hrun
  | dispatch =>
    rw [Rebind.step] at hstep
    split at hstep
    · rename_i e pending _ _ hpending
      obtain rfl := Option.some.inj hstep
      have hmem : e ∈ s.pending := by rw [hpending]; exact List.mem_cons_self
      refine ⟨h.registry, fun d hd => h.pending d (by rw [hpending]; exact List.mem_cons_of_mem e hd), ?_⟩
      intro cb call calls hrun
      obtain ⟨hcb, hsock⟩ := h.pending e hmem
      obtain ⟨rfl, -⟩ := Prod.mk.inj (Option.some.inj hrun)
      rw [hcb]
      exact hsock
    · cases hstep
  | ioCall =>
    rw [Rebind.step] at hstep
    split at hstep
    · rename_i cb call calls _ hrunning
      obtain rfl := Option.some.inj hstep
      refine ⟨h.registry, h.pending, fun cb' call' calls' hrun => ?_⟩
      obtain ⟨rfl, -⟩ := Prod.mk.inj (Option.some.inj hrun)
      exact h.running cb call calls hrunning
    · cases hstep
  | finish =>
    rw [Rebind.step] at hstep
    split at hstep
    · obtain rfl := Option.some.inj hstep
      exact ⟨h.registry, h.pending, nofun⟩
    · cases hstep
  | runTask ok =>
    rw [Rebind.step] at hstep
    split at hstep
    · rename_i task tasks _ _ htasks
      obtain ⟨registry, hrun, rfl⟩ := Option.map_eq_some_iff.1 hstep
      refine h.keep (h.registry.runTask htasks (fun hok => ?_) hrun) rfl rfl rfl
      exact of_decide_eq_true (Bool.and_eq_true_iff.1 hok).2
    · cases hstep

/-- As long as events of a descriptor are neither collected nor awaited while it is not that of the socket, the I/O
callback is invoked for the descriptor of the socket only. -/
theorem along_ioOnCurrent {as : List RebindAction} {s : Rebind}
    (hrun : Transition.exec Rebind.step .init as = some s)
    (hok : Transition.Along Rebind.step RebindInTurn .init as) :
    Transition.Along Rebind.step IoOnCurrent .init as := by
  refine Transition.along_of_invariant (fun _ _ _ h hok hstep => step_rebindInv h hok hstep) ?_ RebindInv.init hok hrun
  intro s a t h _ _
  cases a with
  | ioCall => exact h.running
  | _ => trivial

/-- A thread binds the socket to 5, whose registration the poller carries out. -/
def bindOnce : List RebindAction :=
  [.bindUdpSocket (.producer 0) 5, .run (.producer 0) true, .run (.producer 0) true, .run (.producer 0) true,
    .run (.producer 0) true, .runTask true]

/-- The thread binds the socket again, to 6: `closeSocket`, the detachment and closing of 5, `setSocketFD`. -/
def bindAgain : List RebindAction :=
  [.bindUdpSocket (.producer 0) 6, .run (.producer 0) true, .run (.producer 0) true, .run (.producer 0) true,
    .run (.producer 0) true]

/-- 5 is read before the socket is bound again. -/
theorem along_ioOnCurrent_readFirst :
    Transition.Along Rebind.step IoOnCurrent .init
      (bindOnce ++ [.collect [(5, epollIn)], .dispatch, .ioCall, .finish] ++ bindAgain) := by
  have hrun : (Transition.exec Rebind.step .init
      (bindOnce ++ [.collect [(5, epollIn)], .dispatch, .ioCall, .finish] ++ bindAgain)).isSome := by decide
  exact along_ioOnCurrent (Option.some_get hrun).symm (by decide)

/-- The poller has collected an event of 5 when the socket is bound again: `onReadable(5)` is called for the closed
descriptor, while the socket holds 6. -/
theorem not_ioOnCurrent_boundAgain :
    (Transition.exec Rebind.step .init
        ((bindOnce ++ [.collect [(5, epollIn)]] ++ bindAgain ++ [.dispatch]) ++ [.ioCall])).isSome ∧
      ¬ Transition.Along Rebind.step IoOnCurrent .init
        ((bindOnce ++ [.collect [(5, epollIn)]] ++ bindAgain ++ [.dispatch]) ++ [.ioCall]) := by
  refine ⟨by decide, fun h => ?_⟩
  have hlast := Transition.ok_of_along_append h rfl
  have hfd : some (6 : FD) = some 5 := hlast ⟨5, .udp⟩ .onReadable [] rfl
  exact absurd hfd (by decide)

end AvcTool
