import AvcTool.Lib.Transition
import AvcTool.Network.Rebind

/-!
# Binding a socket again and again

`bindUdpSocket` opens a descriptor, drops the old one and installs the new one, and registers it.  If the registration
fails it returns -1 and leaves the new descriptor in `sock_fd_`: the socket has a descriptor that its poller does not
know.  Every other way through the function leaves an open descriptor with a record, or none.

A call comes with the outcomes of its system calls.  The kernel gives a new descriptor a number that no open one has,
and its interest list holds open descriptors only.
-/

namespace AvcTool

/-- A call of `bindUdpSocket`: the descriptor that `socket` gives, if it does, whether `bind` succeeds, and whether
`epoll_ctl` does when the old descriptor is removed and when the new one is added. -/
structure BindCall where
  socket : Option FD
  bind : Bool
  okDel : Bool
  okAdd : Bool
  deriving DecidableEq

/-- `SockUtil::bindUdpSocket`; a descriptor that cannot be bound is closed. -/
def BindCall.opened (c : BindCall) : Option FD :=
  if c.bind then c.socket else none

/-- `bindUdpSocket` on the poller thread, with one answer of `epoll_ctl` for each of its two calls. -/
def Socket.bindOnPoller (okDel okAdd : Bool) (fd : Option FD) (s : Socket) : Socket × Int :=
  match fd with
  | none => (s, -1)
  | some fd =>
    let (s, ret) := attachEvent ⟨true, okAdd⟩ fd .udp { s.closeSocket ⟨true, okDel⟩ with sockFd := some ⟨fd, .udp⟩ }
    (s, if ret = -1 then -1 else 0)

theorem Socket.bindOnPoller_eq (ok : Bool) (fd : Option FD) (s : Socket) :
    s.bindOnPoller ok ok fd = s.bindUdpSocket ⟨true, ok⟩ fd := by
  cases fd <;> rfl

structure OpenSocket where
  socket : Socket
  openFds : Finset FD

namespace OpenSocket

/-- The open descriptors after the new one has been opened and the old one closed. -/
def reopened (s : OpenSocket) (fd : FD) : Finset FD :=
  match s.socket.sockFd with
  | none => insert fd s.openFds
  | some sockFd => (insert fd s.openFds).erase sockFd.fd

def bindUdpSocket (s : OpenSocket) (c : BindCall) : OpenSocket × Int :=
  let (socket, ret) := s.socket.bindOnPoller c.okDel c.okAdd c.opened
  match c.opened with
  | none => (⟨socket, s.openFds⟩, ret)
  | some fd => (⟨socket, s.reopened fd⟩, ret)

def Fresh (s : OpenSocket) (c : BindCall) : Prop :=
  ∀ fd, c.socket = some fd → 0 ≤ fd ∧ fd ∉ s.openFds

instance decidableFresh (s : OpenSocket) (c : BindCall) : Decidable (s.Fresh c) :=
  match h : c.socket with
  | none => isTrue (by simp [Fresh, h])
  | some fd => decidable_of_iff (0 ≤ fd ∧ fd ∉ s.openFds) (by simp [Fresh, h])

def step (s : OpenSocket) (c : BindCall) : Option OpenSocket :=
  if s.Fresh c then some (s.bindUdpSocket c).1 else none

/-- The descriptor of the socket is open, and the poller has the callback of the socket for it. -/
def Registered (s : OpenSocket) : Prop :=
  ∀ sockFd, s.socket.sockFd = some sockFd → sockFd.fd ∈ s.openFds ∧
    ∃ r, s.socket.poller.table.eventRecords.lookup sockFd.fd = some r ∧ r.cb = ⟨sockFd.fd, sockFd.type⟩

def BindKept (s : OpenSocket) (c : BindCall) : Prop :=
  s.Fresh c → Registered (s.bindUdpSocket c).1 ∧
    ((s.bindUdpSocket c).2 = 0 → ∃ fd, c.opened = some fd ∧ (s.bindUdpSocket c).1.socket.sockFd = some ⟨fd, .udp⟩) ∧
    ((s.bindUdpSocket c).2 = -1 → (s.bindUdpSocket c).1.socket.sockFd = none ∨
      (s.bindUdpSocket c).1.socket.sockFd = s.socket.sockFd)

/-- The descriptor that has been opened is added to the interest list. -/
def AddsOpened (s : OpenSocket) (c : BindCall) : Prop :=
  s.Fresh c → c.opened.isSome = true → c.okAdd = true

structure Sound (s : OpenSocket) : Prop where
  interest : ∀ fd ∈ s.socket.poller.table.interest, fd ∈ s.openFds
  registered : Registered s

/-! ### Closing and attaching -/

private theorem interest_closeSocket {s : Socket} {ok : Bool} {fd : FD}
    (h : fd ∈ (s.closeSocket ⟨true, ok⟩).poller.table.interest) :
    fd ∈ s.poller.table.interest ∧ ∀ sockFd, s.sockFd = some sockFd → fd ≠ sockFd.fd := by
  unfold Socket.closeSocket at h
  cases hsock : s.sockFd with
  | none =>
    simp only [hsock] at h
    exact ⟨h, fun _ hnone => by cases hnone⟩
  | some sockFd =>
    simp only [hsock] at h
    have hclosed : fd ≠ sockFd.fd ∧ fd ∈ (detachEvent ok sockFd.fd s.poller.table).1.interest := by
      simpa [EventTable.close, Registry.call, RegTask.run] using h
    refine ⟨mem_interest_detachEvent hclosed.2, fun sockFd' hsome => ?_⟩
    obtain rfl := Option.some.inj hsome
    exact hclosed.1

private theorem attachEvent_of_refused (s : Socket) (fd : FD) (type : SockType) :
    Socket.attachEvent ⟨true, false⟩ fd type s = (s, -1) := by
  have hcall : s.poller.attachEvent true false fd (Socket.attachedEvents type) ⟨fd, type⟩ = (s.poller, -1) := by
    unfold Registry.attachEvent
    by_cases hneg : fd < 0
    · rw [if_pos hneg]
    · rw [if_neg hneg]
      simp [Registry.call, RegTask.run, attachEventL, epollCtlAdd]
  unfold Socket.attachEvent
  simp only [hcall]

private theorem attachEvent_of_fresh {s : Socket} {fd : FD} (type : SockType) (hfd : 0 ≤ fd)
    (hnot : fd ∉ s.poller.table.interest) :
    Socket.attachEvent ⟨true, true⟩ fd type s =
      ({ s with poller := { s.poller with table :=
        ⟨s.poller.table.eventRecords.insert fd ⟨Socket.attachedEvents type, ⟨fd, type⟩⟩,
          s.poller.table.interest.insert fd (toEpollEvent (Socket.attachedEvents type))⟩ } }, 0) := by
  have hneg : ¬ fd < 0 := Int.not_lt.2 hfd
  unfold Socket.attachEvent Registry.attachEvent
  simp [hneg, Registry.call, RegTask.run, attachEventL, epollCtlAdd, hnot]

/-! ### One call -/

private theorem bindUdpSocket_of_none {s : OpenSocket} {c : BindCall} (h : c.opened = none) :
    s.bindUdpSocket c = (s, -1) := by
  simp only [bindUdpSocket, Socket.bindOnPoller, h]

private theorem Fresh.of_opened {s : OpenSocket} {c : BindCall} (hfresh : s.Fresh c) {fd : FD}
    (h : c.opened = some fd) : 0 ≤ fd ∧ fd ∉ s.openFds := by
  unfold BindCall.opened at h
  split at h
  · exact hfresh fd h
  · cases h

private theorem mem_reopened {s : OpenSocket} {fd fd' : FD} :
    fd' ∈ s.reopened fd ↔ (fd' = fd ∨ fd' ∈ s.openFds) ∧ ∀ sockFd, s.socket.sockFd = some sockFd → fd' ≠ sockFd.fd := by
  unfold reopened
  cases hsock : s.socket.sockFd with
  | none =>
    rw [Finset.mem_insert]
    exact ⟨fun hmem => ⟨hmem, fun _ h => by cases h⟩, fun h => h.1⟩
  | some sockFd =>
    rw [Finset.mem_erase, Finset.mem_insert]
    constructor
    · rintro ⟨hne, hmem⟩
      refine ⟨hmem, fun sockFd' hsome => ?_⟩
      obtain rfl := Option.some.inj hsome
      exact hne
    · rintro ⟨hmem, hne⟩
      exact ⟨hne sockFd rfl, hmem⟩

private theorem bindUdpSocket_of_added {s : OpenSocket} {c : BindCall} {fd : FD} (hs : Sound s) (hfresh : s.Fresh c)
    (h : c.opened = some fd) (hadd : c.okAdd = true) :
    Sound (s.bindUdpSocket c).1 ∧ (s.bindUdpSocket c).2 = 0 ∧
      (s.bindUdpSocket c).1.socket.sockFd = some ⟨fd, .udp⟩ := by
  obtain ⟨hfd, hnew⟩ := hfresh.of_opened h
  have hnot : fd ∉ (s.socket.closeSocket ⟨true, c.okDel⟩).poller.table.interest :=
    fun hmem => hnew (hs.interest fd (interest_closeSocket hmem).1)
  have hopen : fd ∈ s.reopened fd := by
    refine mem_reopened.2 ⟨.inl rfl, fun sockFd hsock heq => hnew ?_⟩
    rw [heq]
    exact (hs.registered sockFd hsock).1
  have hattach := attachEvent_of_fresh
    (s := { s.socket.closeSocket ⟨true, c.okDel⟩ with sockFd := some ⟨fd, .udp⟩ }) .udp hfd hnot
  simp only [bindUdpSocket, Socket.bindOnPoller, h, hadd, hattach]
  refine ⟨⟨?_, ?_⟩, by decide, trivial⟩
  · intro fd' hfd'
    rcases (AList.mem_insert _).1 hfd' with rfl | hmem
    · exact hopen
    · obtain ⟨hold, hne⟩ := interest_closeSocket hmem
      exact mem_reopened.2 ⟨.inr (hs.interest fd' hold), hne⟩
  · intro sockFd hsock
    obtain rfl := Option.some.inj hsock
    exact ⟨hopen, _, AList.lookup_insert _, rfl⟩

private theorem bindUdpSocket_of_refused {s : OpenSocket} {c : BindCall} {fd : FD} (h : c.opened = some fd)
    (hadd : c.okAdd = false) :
    (s.bindUdpSocket c).2 = -1 ∧ (s.bindUdpSocket c).1.socket.sockFd = some ⟨fd, .udp⟩ := by
  simp only [bindUdpSocket, Socket.bindOnPoller, h, hadd, attachEvent_of_refused, if_true, and_self]

private theorem bindKept_iff {s : OpenSocket} (hs : Sound s) (c : BindCall) : BindKept s c ↔ AddsOpened s c := by
  cases hopened : c.opened with
  | none =>
    have hcall := bindUdpSocket_of_none (s := s) hopened
    have hkept : BindKept s c := by
      intro _
      rw [hcall]
      exact ⟨hs.registered, fun hret => absurd (a := (-1 : Int) = 0) hret (by decide), fun _ => .inr rfl⟩
    have hadds : AddsOpened s c := by
      intro _ hsome
      rw [hopened] at hsome
      cases hsome
    exact ⟨fun _ => hadds, fun _ => hkept⟩
  | some fd =>
    cases hadd : c.okAdd with
    | true =>
      have hkept : BindKept s c := by
        intro hfresh
        obtain ⟨hsound, hret, hsock⟩ := bindUdpSocket_of_added hs hfresh hopened hadd
        refine ⟨hsound.registered, fun _ => ⟨fd, hopened, hsock⟩, fun hfail => ?_⟩
        rw [hret] at hfail
        cases hfail
      exact ⟨fun _ _ _ => hadd, fun _ => hkept⟩
    | false =>
      obtain ⟨hret, hsock⟩ := bindUdpSocket_of_refused (s := s) hopened hadd
      constructor
      · intro hkept hfresh _
        -- the new descriptor is neither null nor the old one, which was open before
        rcases (hkept hfresh).2.2 hret with hnull | hsame
        · rw [hsock] at hnull
          cases hnull
        · rw [hsock] at hsame
          exact absurd (hs.registered _ hsame.symm).1 (hfresh.of_opened hopened).2
      · intro hadds hfresh
        have htrue := hadds hfresh (by rw [hopened]; rfl)
        rw [hadd] at htrue
        cases htrue

private theorem sound_bindUdpSocket {s : OpenSocket} {c : BindCall} (hs : Sound s) (hfresh : s.Fresh c)
    (hadds : AddsOpened s c) : Sound (s.bindUdpSocket c).1 := by
  cases hopened : c.opened with
  | none =>
    rw [bindUdpSocket_of_none hopened]
    exact hs
  | some fd => exact (bindUdpSocket_of_added hs hfresh hopened (hadds hfresh (by rw [hopened]; rfl))).1

/-! ### Main results -/

/-- In a run of calls on a closed socket the socket is registered after every call if and only if the poller accepts
every descriptor that is opened. -/
theorem bindKept_along_iff (poller : Registry IoCallback) (openFds : Finset FD)
    (hinterest : ∀ fd ∈ poller.table.interest, fd ∈ openFds) (cs : List BindCall) :
    Transition.Along step BindKept ⟨Socket.closed poller, openFds⟩ cs ↔
      Transition.Along step AddsOpened ⟨Socket.closed poller, openFds⟩ cs := by
  have hsound : Sound ⟨Socket.closed poller, openFds⟩ := ⟨hinterest, fun _ hsock => by cases hsock⟩
  have hstep : ∀ (s : OpenSocket) (c : BindCall) (t : OpenSocket), Sound s → AddsOpened s c → s.step c = some t →
      Sound t := by
    intro s c t hs hadds hst
    obtain ⟨hfresh, ⟨⟩⟩ := Option.ite_none_right_eq_some.1 hst
    exact sound_bindUdpSocket hs hfresh hadds
  exact Transition.along_iff_of_invariant hstep (fun s c hs => bindKept_iff hs c) hsound cs

/-- A socket is bound, and bound again after a failure to open a descriptor. -/
theorem bindKept_along_rebound :
    Transition.Along step BindKept ⟨Socket.closed ⟨.empty, []⟩, ∅⟩
      [⟨some 3, true, true, true⟩, ⟨none, true, true, true⟩, ⟨some 4, true, false, true⟩] := by
  refine (bindKept_along_iff ⟨.empty, []⟩ ∅ (fun fd hfd => by simp [EventTable.empty] at hfd) _).2 ?_
  exact ⟨fun _ _ => rfl, fun _ _ => ⟨fun _ _ => rfl, fun _ _ => ⟨fun _ _ => rfl, fun _ _ => trivial⟩⟩⟩

/-- `epoll_ctl` fails for the new descriptor. -/
theorem unregistered_after_failure :
    ¬ Transition.Along step BindKept ⟨Socket.closed ⟨.empty, []⟩, ∅⟩ [⟨some 3, true, true, false⟩] := by
  intro hrun
  have hkept := hrun.1
  have hfresh : Fresh ⟨Socket.closed ⟨.empty, []⟩, ∅⟩ ⟨some 3, true, true, false⟩ := by decide
  obtain ⟨-, -, hfailed⟩ := hkept hfresh
  exact absurd (hfailed rfl) (by decide)

end OpenSocket

end AvcTool
