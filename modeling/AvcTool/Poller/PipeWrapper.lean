import AvcTool.Lib.Transition
import AvcTool.Network.SockUtil

/-!
# The descriptors of a call that fails

`listen`, `bindUdpSocket` and `connect` open one descriptor and close it on every way out but the last.  Under WIN32,
`PipeWrapper::reOpenFD` emulates a pipe with a listening socket, a socket that connects to it and the one that is
accepted.  The macro `CHECK_FD` closes the two descriptors of the pipe before it throws; the listening socket, which is
a local variable, stays open when `connect` or `accept` fails.

A run is any sequence of such calls on one `PipeWrapper`, between which the rest of the process opens and closes
descriptors of its own.  A call is looked at from a mark of the table, so that `acquired` are the descriptors that it
has opened and left open, and `stale` those that it has closed when they were not open.
-/

namespace AvcTool

structure PipeWrapper where
  fd0 : FD
  fd1 : FD
  sockets : Sockets

/-- What the system calls of `reOpenFD` answer, and the text of the error. -/
structure ReopenAnswers where
  probe : OpenAnswer
  listen : SockUtil.ListenAnswers
  localPort : UInt16
  connect : SockUtil.ConnectAnswers
  accept : OpenAnswer
  pipe : Option ((Supply fun fd : FD => 0 ≤ fd) × Supply fun fd : FD => 0 ≤ fd)
  uvErrmsg : String

namespace PipeWrapper

open SockUtil

def mark (p : PipeWrapper) : PipeWrapper :=
  { p with sockets := p.sockets.mark }

/-- The macro `CLOSE_FD`. -/
def closeFd (s : Sockets) (fd : FD) : Sockets × FD :=
  if fd ≠ -1 then (s.close fd, -1) else (s, fd)

def closeFD (p : PipeWrapper) : PipeWrapper :=
  let (s, fd0) := closeFd p.sockets p.fd0
  let (s, fd1) := closeFd s p.fd1
  { fd0 := fd0, fd1 := fd1, sockets := s }

/-- The macro `CHECK_FD`, when the descriptor is -1. -/
def checkFailed (p : PipeWrapper) (a : ReopenAnswers) : PipeWrapper × Except String Unit :=
  (p.closeFD, .error ("Create pipe failed at windows platform: " ++ a.uvErrmsg))

/-- The address at which the emulated pipe listens. -/
def localIp (ipv6 : Bool) : String := if ipv6 then "::1" else "127.0.0.1"

/-- The branch of `reOpenFD` under WIN32. -/
def openWin32 (pton : InetPton) (p : PipeWrapper) (a : ReopenAnswers) : PipeWrapper × Except String Unit :=
  let (s, ipv6) := supportIpv6 p.sockets a.probe
  let (s, listenFd) := listen pton s 0 (localIp ipv6) 1024 a.listen
  if listenFd = -1 then checkFailed { p with sockets := s } a else
  let (s, fd1) := connect pton s (localIp ipv6) a.localPort false 0 "::" a.connect
  if fd1 = -1 then checkFailed { p with fd1 := fd1, sockets := s } a else
  let (s, fd0) := accept s a.accept
  if fd0 = -1 then checkFailed { fd0 := fd0, fd1 := fd1, sockets := s } a else
  let s := setNoDelay (setNoDelay s fd0) fd1
  ({ fd0 := fd0, fd1 := fd1, sockets := (closeFd s listenFd).1 }, .ok ())

/-- The other branch; a `pipe` that fails writes no descriptors. -/
def openPipe (p : PipeWrapper) (a : ReopenAnswers) : PipeWrapper × Except String Unit :=
  match a.pipe with
  | none => (p, .error ("Create pipe failed at non-win32 platform: " ++ a.uvErrmsg))
  | some (read, write) =>
    let (s, fd0) := p.sockets.openFd (some read)
    let (s, fd1) := s.openFd (some write)
    ({ fd0 := fd0, fd1 := fd1, sockets := s }, .ok ())

def reOpenFD (pton : InetPton) (win32 : Bool) (p : PipeWrapper) (a : ReopenAnswers) :
    PipeWrapper × Except String Unit :=
  match if win32 then openWin32 pton p.closeFD a else openPipe p.closeFD a with
  | (p, .error msg) => (p, .error msg)
  | (p, .ok ()) => ({ p with sockets := setNoBlocked (setNoBlocked p.sockets p.fd0 true) p.fd1 false }, .ok ())

end PipeWrapper

/-! ### Calls and runs -/

inductive FdCall where
  | listen (port : UInt16) (localIp : String) (backLog : Int) (a : SockUtil.ListenAnswers)
  | bindUdpSocket (port : UInt16) (localIp : String) (reuseAddr : Bool) (a : SockUtil.BindAnswers)
  | connect (host : String) (port : UInt16) (async : Bool) (localPort : UInt16) (localIp : String)
    (a : SockUtil.ConnectAnswers)
  | reOpenFD (win32 : Bool) (a : ReopenAnswers)

inductive FdResult where
  | returned (fd : FD)
  | reopened
  | thrown (msg : String)

def FdResult.ofReopen : Except String Unit → FdResult
  | .ok () => .reopened
  | .error msg => .thrown msg

inductive FdAction where
  | call (c : FdCall)
  | closeFD
  /-- the rest of the process opens a descriptor, or closes one that is not of the pipe -/
  | opened (supply : Supply fun fd : FD => 0 ≤ fd)
  | closed (fd : FD)

namespace PipeWrapper

open SockUtil

def run (pton : InetPton) (p : PipeWrapper) : FdCall → PipeWrapper × FdResult
  | .listen port localIp backLog a =>
    let (s, fd) := listen pton p.sockets port localIp backLog a
    ({ p with sockets := s }, .returned fd)
  | .bindUdpSocket port localIp reuseAddr a =>
    let (s, fd) := bindUdpSocket pton p.sockets port localIp reuseAddr a
    ({ p with sockets := s }, .returned fd)
  | .connect host port async localPort localIp a =>
    let (s, fd) := connect pton p.sockets host port async localPort localIp a
    ({ p with sockets := s }, .returned fd)
  | .reOpenFD win32 a =>
    let (p, r) := reOpenFD pton win32 p a
    (p, .ofReopen r)

def step (pton : InetPton) (p : PipeWrapper) : FdAction → Option PipeWrapper
  | .call c => some (p.mark.run pton c).1
  | .closeFD => some p.closeFD
  | .opened supply => some { p with sockets := (p.sockets.openFd (some supply)).1 }
  | .closed fd =>
    if fd ∈ p.sockets.fds.held ∧ fd ≠ p.fd0 ∧ fd ≠ p.fd1 then some { p with sockets := p.sockets.close fd } else none

/-- A wrapper without a pipe, in a process with these descriptors. -/
def init (s : Sockets) : PipeWrapper :=
  { fd0 := -1, fd1 := -1, sockets := s }

def kept (p : PipeWrapper) : FdResult → Finset FD
  | .returned fd => if fd = -1 then ∅ else {fd}
  | .reopened => {p.fd0, p.fd1}
  | .thrown _ => ∅

/-- Of the descriptors that have been opened since the mark, exactly these are open, and none has been closed twice. -/
structure LeavesOnly (p : PipeWrapper) (r : FdResult) : Prop where
  acquired : p.sockets.fds.acquired = p.kept r
  stale : p.sockets.fds.stale = []
  thrown : ∀ msg, r = .thrown msg → p.fd0 = -1 ∧ p.fd1 = -1

def NoLeak (pton : InetPton) (p : PipeWrapper) (c : FdCall) : Prop :=
  LeavesOnly (p.mark.run pton c).1 (p.mark.run pton c).2

/-- The family of the address that the emulated pipe is connected to. -/
def pipeFamily (pton : InetPton) (p : PipeWrapper) (a : ReopenAnswers) : Family :=
  let host := localIp (p.sockets.ipv6.getD a.probe.isSome)
  (getDomainIP pton p.sockets.dns (a.connect.query host) a.localPort a.connect.uninit).2.1.ssFamily

/-- The emulated pipe has its listening socket, and cannot be connected or the connection is not accepted. -/
def LosesListener (pton : InetPton) (p : PipeWrapper) : FdCall → Prop
  | .reOpenFD true a =>
    a.listen.Listens ∧ ¬ (a.connect.Connects false (p.pipeFamily pton a) ∧ a.accept.isSome = true)
  | _ => False

structure Owns (p : PipeWrapper) : Prop where
  fd0 : p.fd0 ≠ -1 → p.fd0 ∈ p.sockets.fds.held
  fd1 : p.fd1 ≠ -1 → p.fd1 ∈ p.sockets.fds.held
  ne : p.fd0 ≠ -1 → p.fd0 ≠ p.fd1

variable {pton : InetPton} {p q : PipeWrapper} {s : Sockets} {a : ReopenAnswers}

/-! ### Closing the pipe -/

@[simp] theorem closeFd_snd (fd : FD) : (closeFd s fd).2 = -1 := by
  unfold closeFd
  split
  · rfl
  · rename_i hfd
    exact not_not.1 hfd

@[simp] theorem closeFd_neg : closeFd s (-1) = (s, -1) := rfl

private theorem closeFd_of_ne {fd : FD} (hfd : fd ≠ -1) : closeFd s fd = (s.close fd, -1) := if_pos hfd

@[simp] theorem dns_closeFd (fd : FD) : (closeFd s fd).1.dns = s.dns := by
  unfold closeFd
  split <;> rfl

@[simp] theorem ipv6_closeFd (fd : FD) : (closeFd s fd).1.ipv6 = s.ipv6 := by
  unfold closeFd
  split <;> rfl

@[simp] theorem fd0_closeFD : p.closeFD.fd0 = -1 := closeFd_snd p.fd0
@[simp] theorem fd1_closeFD : p.closeFD.fd1 = -1 := closeFd_snd p.fd1
@[simp] theorem dns_closeFD : p.closeFD.sockets.dns = p.sockets.dns := by simp [closeFD]
@[simp] theorem ipv6_closeFD : p.closeFD.sockets.ipv6 = p.sockets.ipv6 := by simp [closeFD]

private theorem closeFD_of_closed (h0 : p.fd0 = -1) (h1 : p.fd1 = -1) : p.closeFD = p := by
  obtain ⟨fd0, fd1, s⟩ := p
  obtain rfl : fd0 = -1 := h0
  obtain rfl : fd1 = -1 := h1
  rfl

/-- Nothing has been opened since the mark, or closed twice. -/
def Untouched (h : Handles FD) : Prop := h.acquired = ∅ ∧ h.stale = []

theorem Untouched.closeFd (h : Untouched s.fds) {fd : FD} (hfd : fd ≠ -1 → fd ∈ s.fds.held) :
    Untouched (closeFd s fd).1.fds := by
  by_cases hneg : fd = -1
  · subst hneg
    exact h
  · rw [closeFd_of_ne hneg]
    refine ⟨?_, (Handles.stale_release (hfd hneg)).trans h.2⟩
    rw [Sockets.fds_close, Handles.acquired_release (by simp [h.1])]
    exact h.1

private theorem Owns.untouched_closeFD (h : Owns p) : Untouched p.mark.closeFD.sockets.fds := by
  have hmark : Untouched p.mark.sockets.fds := ⟨rfl, rfl⟩
  have hfirst : Untouched (PipeWrapper.closeFd p.mark.sockets p.fd0).1.fds := by
    refine hmark.closeFd fun hne => ?_
    simpa [mark] using h.fd0 hne
  refine hfirst.closeFd fun hne => ?_
  have hmem : p.fd1 ∈ p.mark.sockets.fds.held := by simpa [mark] using h.fd1 hne
  by_cases hneg : p.fd0 = -1
  · rw [hneg]
    exact hmem
  · rw [closeFd_of_ne hneg]
    exact Handles.mem_held_release.2 ⟨(h.ne hneg).symm, hmem⟩

/-! ### Opening the pipe -/

/-- How a branch of `reOpenFD` ends, from a wrapper `p` without a pipe; `lost` says that a descriptor is lost. -/
inductive OpenEnds (lost : Prop) (p q : PipeWrapper) : Except String Unit → Prop where
  | failed (msg : String) (hnot : ¬ lost) (h0 : q.fd0 = -1) (h1 : q.fd1 = -1)
    (hfds : q.sockets.fds = p.sockets.fds) : OpenEnds lost p q (.error msg)
  | lost (msg : String) (hlost : lost) (h0 : q.fd0 = -1) (h1 : q.fd1 = -1) (listenFd : FD)
    (hnew : listenFd ∉ p.sockets.fds.held) (hfds : q.sockets.fds = p.sockets.fds.acquire listenFd) :
    OpenEnds lost p q (.error msg)
  | opened (hnot : ¬ lost) (hne : q.fd0 ≠ q.fd1) (h0 : q.fd0 ∉ p.sockets.fds.held)
    (hfds : q.sockets.fds.held = insert q.fd0 (insert q.fd1 p.sockets.fds.held))
    (hacquired : q.sockets.fds.acquired = insert q.fd0 (insert q.fd1 p.sockets.fds.acquired))
    (hstale : q.sockets.fds.stale = p.sockets.fds.stale) : OpenEnds lost p q (.ok ())

private theorem openPipe_ends (h0 : p.fd0 = -1) (h1 : p.fd1 = -1) (a : ReopenAnswers) :
    OpenEnds False p (p.openPipe a).1 (p.openPipe a).2 := by
  unfold openPipe
  cases a.pipe with
  | none => exact .failed _ id h0 h1 rfl
  | some fds =>
    obtain ⟨read, write⟩ := fds
    dsimp only
    have hopen0 := p.sockets.opens_openFd (some read)
    have hne0 := (p.sockets.openFd_ne_iff (some read)).2 rfl
    generalize p.sockets.openFd (some read) = r at hopen0 hne0
    obtain ⟨s, fd0⟩ := r
    have hopen1 := s.opens_openFd (some write)
    have hne1 := (s.openFd_ne_iff (some write)).2 rfl
    dsimp only
    generalize s.openFd (some write) = r at hopen1 hne1
    obtain ⟨t, fd1⟩ := r
    obtain ⟨hs, hnew0, -⟩ := (hopen0.acquires hne0).eq_of_some
    obtain ⟨ht, hnew1, -⟩ := (hopen1.acquires hne1).eq_of_some
    dsimp only at hs ht hnew0 hnew1
    rw [hs] at ht hnew1
    rw [Handles.held_acquire, Finset.mem_insert, not_or] at hnew1
    refine .opened id (Ne.symm hnew1.1) hnew0 ?_ ?_ ?_
    · rw [ht, Handles.held_acquire, Handles.held_acquire, Finset.insert_comm]
    · rw [ht]
      exact Finset.insert_comm _ _ _
    · rw [ht]
      rfl

private theorem openWin32_ends (h0 : p.fd0 = -1) (h1 : p.fd1 = -1) (a : ReopenAnswers) :
    OpenEnds (p.LosesListener pton (.reOpenFD true a)) p (p.openWin32 pton a).1 (p.openWin32 pton a).2 := by
  unfold openWin32
  have hsnd := supportIpv6_snd p.sockets a.probe
  have hfds := fds_supportIpv6 p.sockets a.probe
  have hdns := dns_supportIpv6 p.sockets a.probe
  generalize supportIpv6 p.sockets a.probe = r at hsnd hfds hdns
  obtain ⟨s, ipv6⟩ := r
  dsimp only at hsnd hfds hdns ⊢
  have hfamily : p.pipeFamily pton a = (getDomainIP pton p.sockets.dns (a.connect.query (localIp ipv6)) a.localPort
      a.connect.uninit).2.1.ssFamily := by
    rw [hsnd]
    rfl
  obtain ⟨hlisten, hlistens⟩ := opens_listen pton s 0 (localIp ipv6) 1024 a.listen
  have hdnsListen := dns_listen pton s 0 (localIp ipv6) 1024 a.listen
  generalize listen pton s 0 (localIp ipv6) 1024 a.listen = r at hlisten hlistens hdnsListen
  obtain ⟨t, listenFd⟩ := r
  dsimp only at hlisten hlistens hdnsListen ⊢
  replace hlisten := hlisten.congr hfds
  by_cases hl : listenFd = -1
  · subst hl
    have hclosed : ({ p with sockets := t } : PipeWrapper).closeFD = { p with sockets := t } := closeFD_of_closed h0 h1
    have hnot : ¬ p.LosesListener pton (.reOpenFD true a) := fun h => hlistens.2 h.1 rfl
    simp only [if_pos, checkFailed, hclosed]
    exact .failed _ hnot h0 h1 hlisten.fds_of_failed
  · have hheard : a.listen.Listens := hlistens.1 hl
    obtain ⟨hfdsT, hnew, -⟩ := (hlisten.acquires hl).eq_of_some
    simp only [if_neg hl]
    obtain ⟨hconnect, hconnects, -⟩ := connect_ends pton t (localIp ipv6) a.localPort false 0 "::" a.connect
    rw [hdnsListen, hdns, ← hfamily] at hconnects
    generalize connect pton t (localIp ipv6) a.localPort false 0 "::" a.connect = r at hconnect hconnects
    obtain ⟨u, fd1⟩ := r
    dsimp only at hconnect hconnects ⊢
    by_cases hc : fd1 = -1
    · subst hc
      have hclosed : ({ p with fd1 := -1, sockets := u } : PipeWrapper).closeFD = { p with fd1 := -1, sockets := u } :=
        closeFD_of_closed h0 rfl
      simp only [if_pos, checkFailed, hclosed]
      refine .lost _ ⟨hheard, fun h => hconnects.2 h.1 rfl⟩ h0 rfl listenFd hnew ?_
      rw [← hfdsT]
      exact hconnect.fds_of_failed
    · have hconnected := hconnects.1 hc
      have haccept : u.Opens (accept u a.accept).2 (accept u a.accept).1 := u.opens_openFd a.accept
      have haccepts : (accept u a.accept).2 ≠ -1 ↔ a.accept.isSome = true := u.openFd_ne_iff a.accept
      simp only [if_neg hc]
      generalize accept u a.accept = r at haccept haccepts
      obtain ⟨v, fd0⟩ := r
      dsimp only at haccept haccepts ⊢
      by_cases ha : fd0 = -1
      · -- the connected descriptor is closed, the listening one is not
        subst ha
        have hclosed : (⟨-1, fd1, v⟩ : PipeWrapper).closeFD = ⟨-1, -1, v.close fd1⟩ := by
          simp [closeFD, closeFd_of_ne hc]
        simp only [if_pos, checkFailed, hclosed]
        refine .lost _ ⟨hheard, fun h => haccepts.2 h.2 rfl⟩ rfl rfl listenFd hnew ?_
        rw [Sockets.fds_close, haccept.fds_of_failed, (hconnect.acquires hc).release, hfdsT]
      · have hnot : ¬ p.LosesListener pton (.reOpenFD true a) := fun h => h.2 ⟨hconnected, haccepts.1 ha⟩
        obtain ⟨hrelease, hne, hnew0⟩ := (hlisten.acquires hl).release_first_of_three (hconnect.acquires hc)
          (haccept.acquires ha)
        have hw : (closeFd (setNoDelay (setNoDelay v fd0) fd1) listenFd).1.fds =
            (p.sockets.fds.acquire fd1).acquire fd0 := by
          rw [closeFd_of_ne hl, ← hrelease]
          rfl
        simp only [if_neg ha]
        refine .opened hnot hne hnew0 ?_ ?_ ?_
        · rw [hw, Handles.held_acquire, Handles.held_acquire]
        · rw [hw]
          rfl
        · rw [hw]
          rfl

/-! ### Reopening the pipe -/

private theorem reOpenFD_ends (pton : InetPton) (p : PipeWrapper) (win32 : Bool) (a : ReopenAnswers) :
    OpenEnds (p.LosesListener pton (.reOpenFD win32 a)) p.closeFD (reOpenFD pton win32 p a).1
      (reOpenFD pton win32 p a).2 := by
  have hends : OpenEnds (p.LosesListener pton (.reOpenFD win32 a)) p.closeFD
      (if win32 then openWin32 pton p.closeFD a else openPipe p.closeFD a).1
      (if win32 then openWin32 pton p.closeFD a else openPipe p.closeFD a).2 := by
    cases win32 with
    | false => exact openPipe_ends fd0_closeFD fd1_closeFD a
    | true =>
      have hsame : p.closeFD.LosesListener pton (.reOpenFD true a) = p.LosesListener pton (.reOpenFD true a) := by
        simp only [LosesListener, pipeFamily, dns_closeFD, ipv6_closeFD]
      exact hsame ▸ openWin32_ends fd0_closeFD fd1_closeFD a
  unfold reOpenFD
  generalize (if win32 then openWin32 pton p.closeFD a else openPipe p.closeFD a) = r at hends
  obtain ⟨q, result⟩ := r
  -- the options that are set at the end are no descriptors
  cases hends with
  | failed msg hnot h0 h1 hfds => exact .failed msg hnot h0 h1 hfds
  | lost msg hlost h0 h1 listenFd hnew hfds => exact .lost msg hlost h0 h1 listenFd hnew hfds
  | opened hnot hne h0 hheld hacquired hstale => exact .opened hnot hne h0 hheld hacquired hstale

/-! ### One call -/

private theorem LeavesOnly.of_opens {s t : Sockets} {fd : FD} (h : s.Opens fd t) (hs : Untouched s.fds) :
    LeavesOnly { p with sockets := t } (.returned fd) := by
  by_cases hfd : fd = -1
  · subst hfd
    have hfds : t.fds = s.fds := h.fds_of_failed
    exact ⟨by rw [hfds]; exact hs.1, by rw [hfds]; exact hs.2, nofun⟩
  · obtain ⟨hfds, -, -⟩ := (h.acquires hfd).eq_of_some
    have hkept : kept { p with sockets := t } (.returned fd) = {fd} := if_neg hfd
    refine ⟨?_, by rw [hfds]; exact hs.2, nofun⟩
    rw [hfds, hkept, Handles.acquire, hs.1]
    rfl

private theorem Owns.noLeak_iff (h : Owns p) (c : FdCall) : NoLeak pton p c ↔ ¬ LosesListener pton p c := by
  cases c with
  | listen port localIp backLog a =>
    exact iff_of_true (.of_opens (opens_listen pton p.mark.sockets port localIp backLog a).1 ⟨rfl, rfl⟩) id
  | bindUdpSocket port localIp reuseAddr a =>
    exact iff_of_true (.of_opens (opens_bindUdpSocket pton p.mark.sockets port localIp reuseAddr a) ⟨rfl, rfl⟩) id
  | connect host port async localPort localIp a =>
    have hends := connect_ends pton p.mark.sockets host port async localPort localIp a
    exact iff_of_true (.of_opens hends.opens ⟨rfl, rfl⟩) id
  | reOpenFD win32 a =>
    have hends := reOpenFD_ends pton p.mark win32 a
    obtain ⟨hacq, hst⟩ := h.untouched_closeFD
    simp only [NoLeak, run]
    generalize reOpenFD pton win32 p.mark a = r at hends
    obtain ⟨q, result⟩ := r
    dsimp only at hends ⊢
    cases hends with
    | failed msg hnot h0 h1 hfds =>
      exact iff_of_true ⟨by rw [hfds]; exact hacq, by rw [hfds]; exact hst, fun _ _ => ⟨h0, h1⟩⟩ hnot
    | lost msg hlost h0 h1 listenFd hnew hfds =>
      refine iff_of_false (fun hleaves => ?_) (not_not.2 hlost)
      have hnone : q.sockets.fds.acquired = ∅ := hleaves.acquired
      rw [hfds] at hnone
      exact Finset.insert_ne_empty _ _ hnone
    | opened hnot hne h0 hheld hacquired hstale =>
      refine iff_of_true ⟨?_, hstale.trans hst, nofun⟩ hnot
      rw [hacquired, hacq]
      rfl

/-! ### Runs -/

theorem Owns.mono (h : Owns p) (hsub : p.sockets.fds.held ⊆ s.fds.held) : Owns { p with sockets := s } :=
  ⟨fun hne => hsub (h.fd0 hne), fun hne => hsub (h.fd1 hne), h.ne⟩

private theorem held_subset_of_opens {s t : Sockets} {fd : FD} (h : s.Opens fd t) : s.fds.held ⊆ t.fds.held := by
  by_cases hfd : fd = -1
  · subst hfd
    rw [h.fds_of_failed]
  · rw [(h.acquires hfd).eq_of_some.1, Handles.held_acquire]
    exact Finset.subset_insert _ _

private theorem owns_of_closed (h0 : p.fd0 = -1) (h1 : p.fd1 = -1) : Owns p :=
  ⟨fun hne => absurd h0 hne, fun hne => absurd h1 hne, fun hne => absurd h0 hne⟩

theorem Owns.run (h : Owns p) (c : FdCall) : Owns (p.mark.run pton c).1 := by
  have hmark : ∀ {t : Sockets} {fd : FD}, p.mark.sockets.Opens fd t → Owns { p.mark with sockets := t } := by
    intro t fd hopens
    refine h.mono ?_
    simpa [mark] using held_subset_of_opens hopens
  cases c with
  | listen port localIp backLog a => exact hmark (opens_listen pton p.mark.sockets port localIp backLog a).1
  | bindUdpSocket port localIp reuseAddr a =>
    exact hmark (opens_bindUdpSocket pton p.mark.sockets port localIp reuseAddr a)
  | connect host port async localPort localIp a =>
    exact hmark (connect_ends pton p.mark.sockets host port async localPort localIp a).opens
  | reOpenFD win32 a =>
    have hends := reOpenFD_ends pton p.mark win32 a
    simp only [PipeWrapper.run]
    generalize reOpenFD pton win32 p.mark a = r at hends
    obtain ⟨q, result⟩ := r
    dsimp only at hends ⊢
    cases hends with
    | failed msg hnot h0 h1 hfds => exact owns_of_closed h0 h1
    | lost msg hlost h0 h1 listenFd hnew hfds => exact owns_of_closed h0 h1
    | opened hnot hne h0 hheld hacquired hstale =>
      exact ⟨fun _ => by simp [hheld], fun _ => by simp [hheld], fun _ => hne⟩

private theorem step_owns (p : PipeWrapper) (x : FdAction) (q : PipeWrapper) (h : Owns p)
    (hstep : p.step pton x = some q) : Owns q := by
  cases x with
  | call c =>
    obtain rfl := Option.some.inj hstep
    exact h.run c
  | closeFD =>
    obtain rfl := Option.some.inj hstep
    exact owns_of_closed fd0_closeFD fd1_closeFD
  | opened supply =>
    obtain rfl := Option.some.inj hstep
    exact h.mono (held_subset_of_opens (p.sockets.opens_openFd (some supply)))
  | closed fd =>
    obtain ⟨⟨-, hne0, hne1⟩, ⟨⟩⟩ := Option.ite_none_right_eq_some.1 hstep
    exact ⟨fun hne => Handles.mem_held_release.2 ⟨Ne.symm hne0, h.fd0 hne⟩,
      fun hne => Handles.mem_held_release.2 ⟨Ne.symm hne1, h.fd1 hne⟩, h.ne⟩

/-! ### Main results -/

/-- In every state that a process can reach, a call of one of the functions leaves open what it returns and nothing
else, and closes nothing twice, exactly if it does not lose the listening socket of an emulated pipe. -/
theorem noLeak_iff_keepsListener (pton : InetPton) (s : Sockets) (xs : List FdAction) (p : PipeWrapper)
    (hrun : Transition.exec (step pton) (init s) xs = some p) (c : FdCall) :
    NoLeak pton p c ↔ ¬ LosesListener pton p c := by
  have howns : Owns p := Transition.exec_invariant step_owns (owns_of_closed rfl rfl) hrun
  exact howns.noLeak_iff c

def loopbacks : InetPton :=
  { inet := fun ip => if ip = "127.0.0.1" then some 0x7f000001 else none
    inet6 := fun ip => if ip = "::1" then some 1 else if ip = "::" then some 0 else none }

/-- Everything succeeds but the last call, `accept`. -/
def acceptFails : ReopenAnswers :=
  { probe := some nextFd
    listen := { probe := none, socket := some nextFd, bind := true, listen := true }
    localPort := 4000
    connect :=
      { now := 0, answer := none, stored := 0, uninit := .other 0 [], socket := some nextFd, bind := true,
        connect := true, again := false }
    accept := none
    pipe := some (nextFd, nextFd)
    uvErrmsg := "too many open files" }

def emptyProcess : Sockets :=
  { fds := ⟨∅, ∅, []⟩, ipv6 := none, dns := .init 0, calls := [] }

/-- A pipe is opened, the rest of the process opens a descriptor, and the pipe is reopened as an emulated one. -/
theorem noLeak_iff_keepsListener_reopened :
    ∃ p, Transition.exec (step loopbacks) (init emptyProcess) [.call (.reOpenFD false acceptFails), .opened nextFd] =
        some p ∧
      (NoLeak loopbacks p (.reOpenFD true acceptFails) ↔ ¬ LosesListener loopbacks p (.reOpenFD true acceptFails)) :=
  ⟨_, rfl, noLeak_iff_keepsListener loopbacks emptyProcess
    [.call (.reOpenFD false acceptFails), .opened nextFd] _ rfl (.reOpenFD true acceptFails)⟩

/-- The listening socket is open after `reOpenFD` has thrown. -/
theorem listener_leaks :
    ¬ NoLeak loopbacks (init emptyProcess) (.reOpenFD true acceptFails) ∧
      (reOpenFD loopbacks true (init emptyProcess) acceptFails).1.sockets.fds.held = {1} := by
  refine ⟨fun hleaves => ?_, rfl⟩
  have hempty : ({1} : Finset FD) = ∅ := hleaves.acquired
  exact Finset.singleton_ne_empty 1 hempty

end PipeWrapper

end AvcTool
