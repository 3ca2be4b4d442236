import Mathlib.Data.List.AList
import Mathlib.Data.Nat.Bitwise

/-!
# The registrations of a poller

`EventTable` holds the two sides of a registration: `eventRecords`, the poller's own map from descriptors to
event masks and callbacks, and `interest`, the interest list of the epoll instance in the kernel.  `attachEventL`,
`modifyEvent` and `detachEvent` are the bodies that run on the poller thread; a call from another thread posts the
same body as a task, which is what `Registry` adds.

The kernel refuses `EPOLL_CTL_ADD` for a descriptor it already has and `EPOLL_CTL_MOD`, `EPOLL_CTL_DEL` for one it
does not have.  The argument `ok` of the operations says that no other reason makes the call fail.
-/

namespace AvcTool

abbrev FD := Int

/-! ### Event masks -/

def kEventRead : Nat := 0x1
def kEventWrite : Nat := 0x2
def kEventError : Nat := 0x4

def epollIn : Nat := 0x1
def epollOut : Nat := 0x4
def epollErr : Nat := 0x8

/-- `EPOLL_SIZE`: the number of events one `epoll_wait` can return. -/
def epollSize : Nat := 1024

/-- The macro `TO_EPOLL_EVENT`.  `|` binds tighter than `?:`, so the three conditionals nest. -/
def toEpollEvent (events : Nat) : Nat :=
  if events &&& kEventRead ≠ 0 then epollIn
  else if 0 ||| events &&& kEventWrite ≠ 0 then epollOut
  else if 0 ||| events &&& kEventError ≠ 0 then epollErr
  else 0

/-- The macro `TO_POLLER_EVENT`, nested in the same way. -/
def toPollerEvent (events : Nat) : Nat :=
  if events &&& epollIn ≠ 0 then kEventRead
  else if 0 ||| events &&& epollOut ≠ 0 then kEventWrite
  else if 0 ||| events &&& epollErr ≠ 0 then kEventError
  else 0

/-! ### The table -/

/-- `EventRecord`: the events a descriptor is registered for and its callback. -/
structure EventRecord (κ : Type) where
  events : Nat
  cb : κ
  deriving DecidableEq, Repr

def EventRecord.readable {κ : Type} (r : EventRecord κ) : Bool := r.events &&& kEventRead ≠ 0
def EventRecord.writeable {κ : Type} (r : EventRecord κ) : Bool := r.events &&& kEventWrite ≠ 0
def EventRecord.exceptable {κ : Type} (r : EventRecord κ) : Bool := r.events &&& kEventError ≠ 0

/-- The interest list of an epoll instance: each descriptor with its epoll event mask. -/
abbrev Interest := AList fun _ : FD => Nat

def epollCtlAdd (ok : Bool) (fd : FD) (event : Nat) (i : Interest) : Option Interest :=
  if ok ∧ fd ∉ i then some (i.insert fd event) else none

def epollCtlMod (ok : Bool) (fd : FD) (event : Nat) (i : Interest) : Option Interest :=
  if ok ∧ fd ∈ i then some (i.insert fd event) else none

def epollCtlDel (ok : Bool) (fd : FD) (i : Interest) : Option Interest :=
  if ok ∧ fd ∈ i then some (i.erase fd) else none

structure EventTable (κ : Type) where
  eventRecords : AList fun _ : FD => EventRecord κ
  interest : Interest
  deriving DecidableEq

def EventTable.empty {κ : Type} : EventTable κ := ⟨∅, ∅⟩

/-- `attachEvent_l` on the poller thread. -/
def attachEventL {κ : Type} (ok : Bool) (fd : FD) (r : EventRecord κ) (t : EventTable κ) : EventTable κ × Int :=
  match epollCtlAdd ok fd (toEpollEvent r.events) t.interest with
  | none => (t, -1)
  | some i => (⟨t.eventRecords.insert fd r, i⟩, 0)

/-- The record of `fd`, if there is one, gets the new event mask. -/
def setEvents {κ : Type} (fd : FD) (events : Nat) (rs : AList fun _ : FD => EventRecord κ) :
    AList fun _ : FD => EventRecord κ :=
  match rs.lookup fd with
  | none => rs
  | some r => rs.insert fd { r with events := events }

/-- `modifyEvent` on the poller thread: the record is changed whether or not `epoll_ctl` succeeds. -/
def modifyEvent {κ : Type} (ok : Bool) (fd : FD) (events : Nat) (t : EventTable κ) : EventTable κ × Int :=
  match epollCtlMod ok fd (toEpollEvent events) t.interest with
  | none => (⟨setEvents fd events t.eventRecords, t.interest⟩, -1)
  | some i => (⟨setEvents fd events t.eventRecords, i⟩, 0)

/-- `detachEvent` on the poller thread: the record is erased whether or not `epoll_ctl` succeeds. -/
def detachEvent {κ : Type} (ok : Bool) (fd : FD) (t : EventTable κ) : EventTable κ × Int :=
  match epollCtlDel ok fd t.interest with
  | none => (⟨t.eventRecords.erase fd, t.interest⟩, -1)
  | some i => (⟨t.eventRecords.erase fd, i⟩, 0)

/-- The kernel drops a closed descriptor from the interest list. -/
def EventTable.close {κ : Type} (fd : FD) (t : EventTable κ) : EventTable κ :=
  { t with interest := t.interest.erase fd }

/-! ### Calls from any thread -/

/-- The registration tasks that calls from other threads leave in `tasks_`. -/
inductive RegTask (κ : Type) where
  | attach (fd : FD) (r : EventRecord κ)
  | modify (fd : FD) (events : Nat)
  | detach (fd : FD)
  deriving DecidableEq

def RegTask.fd {κ : Type} : RegTask κ → FD
  | .attach fd _ => fd
  | .modify fd _ => fd
  | .detach fd => fd

/-- The body of a task, as the poller thread runs it. -/
def RegTask.run {κ : Type} (ok : Bool) (t : EventTable κ) : RegTask κ → EventTable κ × Int
  | .attach fd r => attachEventL ok fd r t
  | .modify fd events => modifyEvent ok fd events t
  | .detach fd => detachEvent ok fd t

/-- A table together with the registration tasks waiting for the poller thread. -/
structure Registry (κ : Type) where
  table : EventTable κ
  tasks : List (RegTask κ)
  deriving DecidableEq

/-- The shape of `attachEvent_l`, `modifyEvent` and `detachEvent`: with `current`, the value of `currentThread()`,
the operation is performed at once, else it is posted and the call reports success. -/
def Registry.call {κ : Type} (current ok : Bool) (task : RegTask κ) (p : Registry κ) : Registry κ × Int :=
  if current then
    let (t, ret) := task.run ok p.table
    ({ p with table := t }, ret)
  else ({ p with tasks := p.tasks ++ [task] }, 0)

/-- `attachEvent`: a negative descriptor is refused. -/
def Registry.attachEvent {κ : Type} (current ok : Bool) (fd : FD) (events : Nat) (cb : κ) (p : Registry κ) :
    Registry κ × Int :=
  if fd < 0 then (p, -1) else p.call current ok (.attach fd ⟨events, cb⟩)

/-- The poller thread runs the first of the waiting tasks. -/
def Registry.runTask {κ : Type} (ok : Bool) (p : Registry κ) : Option (Registry κ) :=
  match p.tasks with
  | [] => none
  | task :: tasks => some ⟨(task.run ok p.table).1, tasks⟩

/-! ### Lookups after an operation -/

theorem lookup_insert_eq {β : Type} (m : AList fun _ : FD => β) (fd fd' : FD) (b : β) :
    (m.insert fd b).lookup fd' = if fd' = fd then some b else m.lookup fd' := by
  by_cases h : fd' = fd
  · rw [if_pos h, h]; exact AList.lookup_insert m
  · rw [if_neg h]; exact AList.lookup_insert_ne h

theorem lookup_setEvents {κ : Type} (fd fd' : FD) (events : Nat) (rs : AList fun _ : FD => EventRecord κ) :
    (setEvents fd events rs).lookup fd' =
      if fd' = fd then (rs.lookup fd).map fun r => { r with events := events } else rs.lookup fd' := by
  unfold setEvents
  cases h : rs.lookup fd with
  | none =>
    by_cases hfd : fd' = fd
    · subst hfd; simp [h]
    · simp [hfd]
  | some r => simp [lookup_insert_eq]

end AvcTool
