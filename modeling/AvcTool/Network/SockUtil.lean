import Mathlib.Order.Lattice.Nat
import AvcTool.Lib.Handles
import AvcTool.Network.DnsCache
import AvcTool.Poller.EventTable

/-!
# The socket functions of `SockUtil`

The functions that open descriptors: `listen`, `bindUdpSocket`, `connect` and `accept`, with `bindSocket`,
`getDomainIP` and `makeSockAddr` that they call.  Each of them comes with the answers that its system calls get.

`Sockets` is what the calls work on: the table of open descriptors, the two static variables (the flag of
`support_ipv6` and the cache of `DnsCache`), and the system calls that name an address or set an option, in their order.
`close` takes a descriptor out of the table whatever it returns, and its result is not looked at.
-/

namespace AvcTool

/-- The answer of a system call that opens a descriptor: a new one, which is not negative, or an error. -/
abbrev OpenAnswer := Option (Supply fun fd : FD => 0 ≤ fd)

/-- The descriptor after the highest one that is open. -/
def nextFd : Supply fun fd : FD => 0 ≤ fd where
  pick held := (held.sup Int.toNat : Nat) + 1
  pick_notMem := by
    intro held hmem
    have hle : Int.toNat ((held.sup Int.toNat : Nat) + 1) ≤ held.sup Int.toNat := Finset.le_sup (f := Int.toNat) hmem
    omega
  valid_pick := fun held => Int.le_add_one (Int.natCast_nonneg _)

/-! ### Addresses -/

inductive Family where
  | inet
  | inet6
  | other (n : Nat)
  deriving DecidableEq, Repr

/-- `sockaddr_storage`, read as its family says; a port is two bytes in network order. -/
inductive SockaddrStorage where
  | inet (sinAddr : BitVec 32) (sinPort : UInt8 × UInt8)
  | inet6 (sin6Addr : BitVec 128) (sin6Port : UInt8 × UInt8)
  | other (n : Nat) (saData : List UInt8)
  deriving DecidableEq, Repr

def htons (port : UInt16) : UInt8 × UInt8 :=
  (UInt8.ofNat (port.toNat / 256), UInt8.ofNat (port.toNat % 256))

def ntohs (bytes : UInt8 × UInt8) : UInt16 :=
  UInt16.ofNat (256 * bytes.1.toNat + bytes.2.toNat)

@[simp] theorem ntohs_htons (port : UInt16) : ntohs (htons port) = port := by
  have hlt : port.toNat < 65536 := port.toNat_lt
  have hbytes : 256 * (port.toNat / 256 % 256) + port.toNat % 256 % 256 = port.toNat := by omega
  apply UInt16.toNat_inj.1
  simp only [ntohs, htons, UInt8.toNat_ofNat', UInt16.toNat_ofNat', hbytes]
  omega

namespace SockaddrStorage

def ssFamily : SockaddrStorage → Family
  | .inet _ _ => .inet
  | .inet6 _ _ => .inet6
  | .other n _ => .other n

/-- The port field, which the addresses of the two families have. -/
def portField : SockaddrStorage → Option UInt16
  | .inet _ sinPort => some (ntohs sinPort)
  | .inet6 _ sin6Port => some (ntohs sin6Port)
  | .other _ _ => none

/-- The switch at the end of `getDomainIP`. -/
def setPort (addr : SockaddrStorage) (port : UInt16) : SockaddrStorage :=
  match addr with
  | .inet sinAddr _ => .inet sinAddr (htons port)
  | .inet6 sin6Addr _ => .inet6 sin6Addr (htons port)
  | .other n saData => .other n saData

@[simp] theorem ssFamily_setPort (addr : SockaddrStorage) (port : UInt16) :
    (addr.setPort port).ssFamily = addr.ssFamily := by
  cases addr <;> rfl

/-- The switch writes the port into every address that has a port field. -/
theorem portField_setPort (addr : SockaddrStorage) (port : UInt16) :
    (addr.setPort port).portField = some port ↔ addr.ssFamily = .inet ∨ addr.ssFamily = .inet6 := by
  cases addr <;> simp [setPort, portField, ssFamily]

end SockaddrStorage

/-- What `inet_pton` writes when it returns 1, for each of the two families. -/
structure InetPton where
  inet : String → Option (BitVec 32)
  inet6 : String → Option (BitVec 128)

def afInet : Int := 2
def sockStream : Int := 1
def sockDgram : Int := 2
def ipprotoTcp : Int := 6
def ipprotoUdp : Int := 17

inductive SockOption where
  | nonBlocking
  | reuseAddr
  | reusePort
  | noDelay
  deriving DecidableEq, Repr

inductive SockCall where
  | socket (family : Family) (type protocol : Int) (ret : FD)
  | bind (fd : FD) (addr : SockaddrStorage)
  | listen (fd : FD) (backLog : Int)
  | connect (fd : FD) (addr : SockaddrStorage)
  | setOption (fd : FD) (name : SockOption) (on : Bool)
  deriving DecidableEq, Repr

structure Sockets where
  fds : Handles FD
  /-- the flag of `support_ipv6`, once it has been called -/
  ipv6 : Option Bool
  dns : DnsCache SockaddrStorage
  calls : List SockCall

namespace Sockets

/-- What happens from here on is counted anew. -/
def mark (s : Sockets) : Sockets :=
  { s with fds := s.fds.mark, calls := [] }

def call (s : Sockets) (c : SockCall) : Sockets :=
  { s with calls := s.calls ++ [c] }

/-- A system call that opens a descriptor; it returns -1 if it fails. -/
def openFd (s : Sockets) (answer : OpenAnswer) : Sockets × FD :=
  let (fds, fd) := s.fds.acquireFrom answer
  ({ s with fds := fds }, fd.getD (-1))

def socket (s : Sockets) (family : Family) (type protocol : Int) (answer : OpenAnswer) : Sockets × FD :=
  let (s, fd) := s.openFd answer
  (s.call (.socket family type protocol fd), fd)

def close (s : Sockets) (fd : FD) : Sockets :=
  { s with fds := s.fds.release fd }

@[simp] theorem fds_mark (s : Sockets) : s.mark.fds = s.fds.mark := rfl
@[simp] theorem calls_mark (s : Sockets) : s.mark.calls = [] := rfl
@[simp] theorem dns_mark (s : Sockets) : s.mark.dns = s.dns := rfl
@[simp] theorem ipv6_mark (s : Sockets) : s.mark.ipv6 = s.ipv6 := rfl
@[simp] theorem dns_call (s : Sockets) (c : SockCall) : (s.call c).dns = s.dns := rfl
@[simp] theorem dns_close (s : Sockets) (fd : FD) : (s.close fd).dns = s.dns := rfl
@[simp] theorem fds_call (s : Sockets) (c : SockCall) : (s.call c).fds = s.fds := rfl
@[simp] theorem calls_call (s : Sockets) (c : SockCall) : (s.call c).calls = s.calls ++ [c] := rfl
@[simp] theorem fds_close (s : Sockets) (fd : FD) : (s.close fd).fds = s.fds.release fd := rfl
@[simp] theorem calls_close (s : Sockets) (fd : FD) : (s.close fd).calls = s.calls := rfl

/-- What a function that returns a descriptor does to the table: it opens the descriptor, or nothing if it returns
-1. -/
def Opens (s : Sockets) (ret : FD) (t : Sockets) : Prop :=
  ∃ fd, Handles.Acquires (fun fd : FD => 0 ≤ fd) s.fds fd t.fds ∧ ret = fd.getD (-1)

variable {s t u : Sockets} {fd : FD}

theorem Opens.failed (h : t.fds = s.fds) : Opens s (-1) t :=
  ⟨none, h ▸ .failed, rfl⟩

theorem Opens.congr (h : Opens s fd t) (hs : s.fds = u.fds) : Opens u fd t := by
  obtain ⟨o, hacq, hret⟩ := h
  exact ⟨o, hs ▸ hacq, hret⟩

private theorem Opens.congr_right (h : Opens s fd t) (ht : u.fds = t.fds) : Opens s fd u := by
  obtain ⟨o, hacq, hret⟩ := h
  exact ⟨o, ht ▸ hacq, hret⟩

theorem Opens.acquires (h : Opens s fd t) (hfd : fd ≠ -1) :
    Handles.Acquires (fun fd : FD => 0 ≤ fd) s.fds (some fd) t.fds := by
  obtain ⟨o, hacq, rfl⟩ := h
  cases o with
  | none => exact absurd rfl hfd
  | some fd => exact hacq

theorem Opens.fds_of_failed (h : Opens s (-1) t) : t.fds = s.fds := by
  obtain ⟨o, hacq, hret⟩ := h
  cases o with
  | none => exact hacq.eq_of_none
  | some fd =>
    obtain ⟨-, -, hvalid⟩ := hacq.eq_of_some
    obtain rfl : -1 = fd := hret
    exact absurd hvalid (by decide)

theorem Opens.nonneg (h : Opens s fd t) (hfd : fd ≠ -1) : 0 ≤ fd :=
  (h.acquires hfd).eq_of_some.2.2

private theorem Opens.neg_iff (h : Opens s fd t) : fd < 0 ↔ fd = -1 := by
  constructor
  · intro hneg
    by_contra hfd
    exact absurd (h.nonneg hfd) (Int.not_le.2 hneg)
  · rintro rfl
    decide

/-- A descriptor that is closed again has not been opened. -/
theorem Opens.close (h : Opens s fd t) (hfd : fd ≠ -1) (hu : u.fds = t.fds) : Opens s (-1) (u.close fd) :=
  .failed (by rw [fds_close, hu, (h.acquires hfd).release])

/-- The last exit of a function: the descriptor is closed or returned. -/
theorem Opens.finish (h : Opens s fd t) (hfd : fd ≠ -1) (hu : u.fds = t.fds) (fails : Prop) [Decidable fails] :
    Opens s (if fails then (u.close fd, -1) else (u, fd)).2 (if fails then (u.close fd, -1) else (u, fd)).1 ∧
      ((if fails then (u.close fd, -1) else (u, fd)).2 ≠ -1 ↔ ¬ fails) := by
  by_cases hfails : fails
  · rw [if_pos hfails]
    exact ⟨h.close hfd hu, iff_of_false (fun hne => hne rfl) (not_not.2 hfails)⟩
  · rw [if_neg hfails]
    exact ⟨h.congr_right hu, iff_of_true hfd hfails⟩

theorem opens_openFd (s : Sockets) (answer : OpenAnswer) : Opens s (s.openFd answer).2 (s.openFd answer).1 :=
  ⟨_, Handles.acquires_acquireFrom answer, rfl⟩

/-- A descriptor is opened unless the answer is an error. -/
theorem openFd_ne_iff (s : Sockets) (answer : OpenAnswer) : (s.openFd answer).2 ≠ -1 ↔ answer.isSome = true := by
  cases answer with
  | none => simp [openFd, Handles.acquireFrom]
  | some supply =>
    have hvalid : 0 ≤ supply.pick s.fds.held := supply.valid_pick _
    simp only [openFd, Handles.acquireFrom, Option.getD_some, Option.isSome_some, iff_true]
    intro hneg
    rw [hneg] at hvalid
    exact absurd hvalid (by decide)

@[simp] theorem dns_socket (s : Sockets) (family : Family) (type protocol : Int) (answer : OpenAnswer) :
    (s.socket family type protocol answer).1.dns = s.dns :=
  rfl

private theorem opens_socket (s : Sockets) (family : Family) (type protocol : Int) (answer : OpenAnswer) :
    Opens s (s.socket family type protocol answer).2 (s.socket family type protocol answer).1 :=
  s.opens_openFd answer

theorem socket_ne_iff (s : Sockets) (family : Family) (type protocol : Int) (answer : OpenAnswer) :
    (s.socket family type protocol answer).2 ≠ -1 ↔ answer.isSome = true :=
  s.openFd_ne_iff answer

end Sockets

namespace SockUtil

/-- The static variable is set by the first call, which opens a socket and closes it. -/
def supportIpv6 (s : Sockets) (probe : OpenAnswer) : Sockets × Bool :=
  match s.ipv6 with
  | some flag => (s, flag)
  | none =>
    let (s, fd) := s.socket .inet6 sockStream ipprotoTcp probe
    if fd < 0 then ({ s with ipv6 := some false }, false)
    else ({ s.close fd with ipv6 := some true }, true)

def isIpv4 (pton : InetPton) (ip : String) : Bool := (pton.inet ip).isSome

/-- An address that `inet_pton` does not write is 0, which is any address. -/
def bindSocket4 (pton : InetPton) (s : Sockets) (fd : FD) (port : UInt16) (localIp : String) (ok : Bool) :
    Sockets × Int :=
  (s.call (.bind fd (.inet ((pton.inet localIp).getD 0) (htons port))), if ok then 0 else -1)

def bindSocket6 (pton : InetPton) (s : Sockets) (fd : FD) (port : UInt16) (localIp : String) (ok : Bool) :
    Sockets × Int :=
  (s.call (.bind fd (.inet6 ((pton.inet6 localIp).getD 0) (htons port))), if ok then 0 else -1)

def bindSocket (pton : InetPton) (s : Sockets) (fd : FD) (port : UInt16) (localIp : String) (family : Family)
    (ok : Bool) : Sockets × Int :=
  match family with
  | .inet => bindSocket4 pton s fd port localIp ok
  | .inet6 => bindSocket6 pton s fd port localIp ok
  | .other _ => (s, -1)

def setNoBlocked (s : Sockets) (fd : FD) (on : Bool) : Sockets := s.call (.setOption fd .nonBlocking on)

def setNoDelay (s : Sockets) (fd : FD) : Sockets := s.call (.setOption fd .noDelay true)

/-- The second option is set if setting the first one has not failed. -/
def setReuseable (s : Sockets) (fd : FD) (ok : Bool) : Sockets :=
  let s := s.call (.setOption fd .reuseAddr true)
  if ok then s.call (.setOption fd .reusePort true) else s

/-- The family of a socket that is bound to `localIp`. -/
def localFamily (pton : InetPton) (s : Sockets) (localIp : String) (probe : OpenAnswer) : Sockets × Family :=
  let (s, ipv6) := supportIpv6 s probe
  (s, if ipv6 then (if isIpv4 pton localIp then .inet else .inet6) else .inet)

structure ListenAnswers where
  probe : OpenAnswer
  socket : OpenAnswer
  bind : Bool
  listen : Bool

def listen (pton : InetPton) (s : Sockets) (port : UInt16) (localIp : String) (backLog : Int) (a : ListenAnswers) :
    Sockets × FD :=
  let (s, family) := localFamily pton s localIp a.probe
  let (s, listenFd) := s.socket family sockStream ipprotoTcp a.socket
  if listenFd = -1 then (s, listenFd) else
  let (s, ret) := bindSocket pton s listenFd port localIp family a.bind
  if ret = -1 then (s.close listenFd, -1) else
  let s := s.call (.listen listenFd backLog)
  if a.listen = false then (s.close listenFd, -1) else (s, listenFd)

structure BindAnswers where
  probe : OpenAnswer
  socket : OpenAnswer
  reuse : Bool
  bind : Bool

def bindUdpSocket (pton : InetPton) (s : Sockets) (port : UInt16) (localIp : String) (reuseAddr : Bool)
    (a : BindAnswers) : Sockets × FD :=
  let (s, family) := localFamily pton s localIp a.probe
  let (s, fd) := s.socket family sockDgram ipprotoUdp a.socket
  if fd = -1 then (s, -1) else
  let s := if reuseAddr then setReuseable s fd a.reuse else s
  let s := setNoBlocked s fd true
  let (s, ret) := bindSocket pton s fd port localIp family a.bind
  if ret = -1 then (s.close fd, -1) else (s, fd)

/-- The exception of `makeSockAddr` is its message. -/
def makeSockAddr (pton : InetPton) (ip : String) (port : UInt16) : Except String SockaddrStorage :=
  match pton.inet ip with
  | some sinAddr => .ok (.inet sinAddr (htons port))
  | none =>
    match pton.inet6 ip with
    | some sin6Addr => .ok (.inet6 sin6Addr (htons port))
    | none => .error ("Failed to makeSockAddr: " ++ ip)

/-- `DnsCache::getDomainIP` with its catch clause. -/
def lookup (pton : InetPton) (dns : DnsCache SockaddrStorage) (q : DnsLookup SockaddrStorage) :
    DnsCache SockaddrStorage × Option SockaddrStorage :=
  dns.getDomainIP (fun host => (makeSockAddr pton host 0).toOption) q

/-- The cache, `addr` and the result after `getDomainIP`, which returns false whatever `flag` is. -/
def getDomainIP (pton : InetPton) (dns : DnsCache SockaddrStorage) (q : DnsLookup SockaddrStorage) (port : UInt16)
    (addr : SockaddrStorage) : DnsCache SockaddrStorage × SockaddrStorage × Bool :=
  match lookup pton dns q with
  | (dns, some found) => (dns, found.setPort port, false)
  | (dns, none) => (dns, addr, false)

structure ConnectAnswers where
  /-- the clock and the resolver, as in `DnsLookup` -/
  now : Int
  answer : Option (Answer SockaddrStorage)
  stored : Int
  /-- what the storage of `addr` holds before it is written -/
  uninit : SockaddrStorage
  socket : OpenAnswer
  bind : Bool
  connect : Bool
  /-- the error of a `connect` that fails is `UV_EAGAIN` -/
  again : Bool

/-- The lookup that `connect` makes. -/
def ConnectAnswers.query (a : ConnectAnswers) (host : String) : DnsLookup SockaddrStorage :=
  { host := host, aiFamily := afInet, aiSocktype := sockStream, aiProtocol := ipprotoTcp, expireSec := 60, now := a.now,
    answer := a.answer, stored := a.stored }

def connect (pton : InetPton) (s : Sockets) (host : String) (port : UInt16) (async : Bool) (localPort : UInt16)
    (localIp : String) (a : ConnectAnswers) : Sockets × FD :=
  let (dns, addr, flag) := getDomainIP pton s.dns (a.query host) port a.uninit
  let s := { s with dns := dns }
  -- a bool is compared with -1 here
  if -1 = (flag.toNat : Int) then (s, -1) else
  let (s, fd) := s.socket addr.ssFamily sockStream ipprotoTcp a.socket
  if fd = -1 then (s, -1) else
  let (s, ret) := bindSocket pton s fd localPort localIp addr.ssFamily a.bind
  if ret = -1 then (s.close fd, -1) else
  let s := setNoBlocked s fd async
  let s := s.call (.connect fd addr)
  if a.connect then (s, fd)
  else if async && a.again then (s, fd)
  else (s.close fd, -1)

def accept (s : Sockets) (answer : OpenAnswer) : Sockets × FD := s.openFd answer

/-! ### What the functions open -/

section

variable (pton : InetPton) (s : Sockets)

theorem fds_supportIpv6 (probe : OpenAnswer) : (supportIpv6 s probe).1.fds = s.fds := by
  unfold supportIpv6
  cases s.ipv6 with
  | some flag => rfl
  | none =>
    have hopens := s.opens_socket .inet6 sockStream ipprotoTcp probe
    generalize s.socket .inet6 sockStream ipprotoTcp probe = r at hopens
    obtain ⟨t, fd⟩ := r
    dsimp only at hopens ⊢
    split
    · rename_i hneg
      obtain rfl := hopens.neg_iff.1 hneg
      exact hopens.fds_of_failed
    · rename_i hnonneg
      exact (hopens.acquires fun hfd => hnonneg (hopens.neg_iff.2 hfd)).release

@[simp] theorem dns_supportIpv6 (probe : OpenAnswer) : (supportIpv6 s probe).1.dns = s.dns := by
  unfold supportIpv6
  split
  · rfl
  · dsimp only
    split <;> rfl

/-- The flag says whether the socket could be opened. -/
theorem supportIpv6_snd (probe : OpenAnswer) : (supportIpv6 s probe).2 = s.ipv6.getD probe.isSome := by
  unfold supportIpv6
  cases s.ipv6 with
  | some flag => rfl
  | none =>
    have hopens := s.opens_socket .inet6 sockStream ipprotoTcp probe
    have hsome := s.socket_ne_iff .inet6 sockStream ipprotoTcp probe
    dsimp only
    split
    · rename_i hneg
      simpa [hopens.neg_iff.1 hneg] using hsome
    · rename_i hnonneg
      exact (hsome.1 fun hfd => hnonneg (hopens.neg_iff.2 hfd)).symm

private theorem fds_localFamily (localIp : String) (probe : OpenAnswer) :
    (localFamily pton s localIp probe).1.fds = s.fds :=
  fds_supportIpv6 s probe

private theorem localFamily_known (localIp : String) (probe : OpenAnswer) :
    (localFamily pton s localIp probe).2 = .inet ∨ (localFamily pton s localIp probe).2 = .inet6 := by
  unfold localFamily
  split
  · dsimp only
    split
    · exact ite_eq_or_eq _ _ _
    · exact .inl rfl

@[simp] theorem fds_bindSocket (fd : FD) (port : UInt16) (localIp : String) (family : Family) (ok : Bool) :
    (bindSocket pton s fd port localIp family ok).1.fds = s.fds := by
  cases family <;> rfl

@[simp] theorem dns_bindSocket (fd : FD) (port : UInt16) (localIp : String) (family : Family) (ok : Bool) :
    (bindSocket pton s fd port localIp family ok).1.dns = s.dns := by
  cases family <;> rfl

private theorem bindSocket_ne_iff (fd : FD) (port : UInt16) (localIp : String) (family : Family) (ok : Bool) :
    (bindSocket pton s fd port localIp family ok).2 ≠ -1 ↔ (family = .inet ∨ family = .inet6) ∧ ok = true := by
  cases family <;> cases ok <;> simp [bindSocket, bindSocket4, bindSocket6]

/-- The system calls of `listen` succeed. -/
def ListenAnswers.Listens (a : ListenAnswers) : Prop :=
  a.socket.isSome = true ∧ a.bind = true ∧ a.listen = true

theorem opens_listen (port : UInt16) (localIp : String) (backLog : Int) (a : ListenAnswers) :
    Sockets.Opens s (listen pton s port localIp backLog a).2 (listen pton s port localIp backLog a).1 ∧
      ((listen pton s port localIp backLog a).2 ≠ -1 ↔ a.Listens) := by
  unfold listen ListenAnswers.Listens
  have hfds := fds_localFamily pton s localIp a.probe
  have hknown := localFamily_known pton s localIp a.probe
  generalize localFamily pton s localIp a.probe = r at hfds hknown
  obtain ⟨s', family⟩ := r
  dsimp only at hfds hknown ⊢
  have hopens := (s'.opens_socket family sockStream ipprotoTcp a.socket).congr hfds
  rw [← s'.socket_ne_iff family sockStream ipprotoTcp a.socket]
  generalize s'.socket family sockStream ipprotoTcp a.socket = r at hopens ⊢
  obtain ⟨t, fd⟩ := r
  dsimp only at hopens ⊢
  by_cases hfd : fd = -1
  · simp [hfd, hfd ▸ hopens]
  · have hbind := bindSocket_ne_iff pton t fd port localIp family a.bind
    have hfdsBind := fds_bindSocket pton t fd port localIp family a.bind
    generalize bindSocket pton t fd port localIp family a.bind = r at hbind hfdsBind ⊢
    obtain ⟨u, ret⟩ := r
    dsimp only at hbind hfdsBind ⊢
    by_cases hret : ret = -1
    · have hnot : ¬ a.bind = true := fun hok => hbind.2 ⟨hknown, hok⟩ hret
      simp [hfd, hret, hnot, hopens.close hfd hfdsBind]
    · have hok : a.bind = true := (hbind.1 hret).2
      have hlistened : (u.call (.listen fd backLog)).fds = t.fds := hfdsBind
      simpa [hfd, hret, hok] using hopens.finish hfd hlistened (a.listen = false)

@[simp] theorem fds_setReuseable (fd : FD) (ok : Bool) : (setReuseable s fd ok).fds = s.fds := by
  cases ok <;> rfl

theorem opens_bindUdpSocket (port : UInt16) (localIp : String) (reuseAddr : Bool) (a : BindAnswers) :
    Sockets.Opens s (bindUdpSocket pton s port localIp reuseAddr a).2
      (bindUdpSocket pton s port localIp reuseAddr a).1 := by
  unfold bindUdpSocket
  have hfds := fds_localFamily pton s localIp a.probe
  generalize localFamily pton s localIp a.probe = r at hfds
  obtain ⟨s', family⟩ := r
  dsimp only at hfds ⊢
  have hopens := (s'.opens_socket family sockDgram ipprotoUdp a.socket).congr hfds
  generalize s'.socket family sockDgram ipprotoUdp a.socket = r at hopens
  obtain ⟨t, fd⟩ := r
  dsimp only at hopens ⊢
  by_cases hfd : fd = -1
  · simpa [hfd] using hopens
  · have hset : (setNoBlocked (if reuseAddr then setReuseable t fd a.reuse else t) fd true).fds = t.fds := by
      cases reuseAddr <;> simp [setNoBlocked]
    generalize setNoBlocked (if reuseAddr then setReuseable t fd a.reuse else t) fd true = t' at hset
    have hbind : (bindSocket pton t' fd port localIp family a.bind).1.fds = t.fds :=
      (fds_bindSocket pton t' fd port localIp family a.bind).trans hset
    generalize bindSocket pton t' fd port localIp family a.bind = r at hbind
    obtain ⟨u, ret⟩ := r
    dsimp only at hbind ⊢
    simpa [hfd] using (hopens.finish hfd hbind (ret = -1)).1

/-- The system calls of `connect` succeed, for an address of this family. -/
def ConnectAnswers.Connects (a : ConnectAnswers) (async : Bool) (family : Family) : Prop :=
  a.socket.isSome = true ∧ (family = .inet ∨ family = .inet6) ∧ a.bind = true ∧
    (a.connect = true ∨ async = true ∧ a.again = true)

/-- What `connect` calls once it has created a socket. -/
inductive AfterSocket (addr : SockaddrStorage) : SockCall → Prop where
  | bind (fd : FD) (localAddr : SockaddrStorage) : AfterSocket addr (.bind fd localAddr)
  | setOption (fd : FD) (name : SockOption) (on : Bool) : AfterSocket addr (.setOption fd name on)
  | connect (fd : FD) : AfterSocket addr (.connect fd addr)

private theorem AfterSocket.connecting {addr : SockaddrStorage} {rest : List SockCall}
    (h : ∀ c ∈ rest, AfterSocket addr c) (fd : FD) (async : Bool) :
    ∀ c ∈ rest ++ [.setOption fd .nonBlocking async, .connect fd addr], AfterSocket addr c := by
  intro c hc
  rcases List.mem_append.1 hc with hc | hc
  · exact h c hc
  · rcases List.mem_pair.1 hc with rfl | rfl
    · exact .setOption fd .nonBlocking async
    · exact .connect fd

/-- How `connect` ends, where `addr` is what `getDomainIP` leaves. -/
structure ConnectEnds (s : Sockets) (addr : SockaddrStorage) (async : Bool) (a : ConnectAnswers) (t : Sockets)
    (ret : FD) : Prop where
  opens : s.Opens ret t
  connects : ret ≠ -1 ↔ a.Connects async addr.ssFamily
  calls : ∃ rest, t.calls = s.calls ++ .socket addr.ssFamily sockStream ipprotoTcp
        (s.socket addr.ssFamily sockStream ipprotoTcp a.socket).2 :: rest ∧
    (∀ c ∈ rest, AfterSocket addr c) ∧ (a.socket = none → rest = [])

/-- `getDomainIP` returns false with and without an address. -/
theorem getDomainIP_flag (dns : DnsCache SockaddrStorage) (q : DnsLookup SockaddrStorage) (port : UInt16)
    (addr : SockaddrStorage) : (getDomainIP pton dns q port addr).2.2 = false := by
  unfold getDomainIP
  split <;> rfl

private theorem calls_bindSocket (fd : FD) (port : UInt16) (localIp : String) (family : Family) (ok : Bool) :
    ∃ rest, (bindSocket pton s fd port localIp family ok).1.calls = s.calls ++ rest ∧
      ∀ addr, ∀ c ∈ rest, AfterSocket addr c := by
  cases family with
  | inet => exact ⟨_, rfl, by simpa using fun addr => AfterSocket.bind _ _⟩
  | inet6 => exact ⟨_, rfl, by simpa using fun addr => AfterSocket.bind _ _⟩
  | other n => exact ⟨[], by simp [bindSocket], by simp⟩

theorem connect_ends (host : String) (port : UInt16) (async : Bool) (localPort : UInt16) (localIp : String)
    (a : ConnectAnswers) :
    ConnectEnds s (getDomainIP pton s.dns (a.query host) port a.uninit).2.1 async a
      (connect pton s host port async localPort localIp a).1
      (connect pton s host port async localPort localIp a).2 := by
  unfold connect
  have hflag := getDomainIP_flag pton s.dns (a.query host) port a.uninit
  generalize getDomainIP pton s.dns (a.query host) port a.uninit = r at hflag ⊢
  obtain ⟨dns, addr, flag⟩ := r
  obtain rfl : flag = false := hflag
  dsimp only
  have hopens : s.Opens _ _ :=
    ({ s with dns := dns } : Sockets).opens_socket addr.ssFamily sockStream ipprotoTcp a.socket
  have hsocket := s.socket_ne_iff addr.ssFamily sockStream ipprotoTcp a.socket
  have hcalls : ({ s with dns := dns }.socket addr.ssFamily sockStream ipprotoTcp a.socket).1.calls = s.calls ++
      [.socket addr.ssFamily sockStream ipprotoTcp (s.socket addr.ssFamily sockStream ipprotoTcp a.socket).2] := rfl
  have hfd : ({ s with dns := dns }.socket addr.ssFamily sockStream ipprotoTcp a.socket).2 =
      (s.socket addr.ssFamily sockStream ipprotoTcp a.socket).2 := rfl
  generalize ({ s with dns := dns } : Sockets).socket addr.ssFamily sockStream ipprotoTcp a.socket = r
    at hopens hcalls hfd ⊢
  obtain ⟨t, fd⟩ := r
  dsimp only at hopens hcalls hfd
  rw [← hfd] at hsocket hcalls
  by_cases hne : fd = -1
  · have hnone : a.socket = none := by simpa [hne] using hsocket
    refine ⟨by simpa [hne] using hopens, by simp [hne, ConnectAnswers.Connects, hnone], [], ?_, by simp, fun _ => rfl⟩
    rw [← hfd]
    simpa [hne] using hcalls
  · have hsome : a.socket.isSome = true := hsocket.1 hne
    have hnone : a.socket ≠ none := Option.isSome_iff_ne_none.1 hsome
    obtain ⟨rest, hrest, hafter⟩ := calls_bindSocket pton t fd localPort localIp addr.ssFamily a.bind
    have hfds := fds_bindSocket pton t fd localPort localIp addr.ssFamily a.bind
    have hbind := bindSocket_ne_iff pton t fd localPort localIp addr.ssFamily a.bind
    simp only [Bool.toNat_false, Int.ofNat_zero, if_neg (show ¬ (-1 : Int) = 0 by decide), if_neg hne]
    generalize bindSocket pton t fd localPort localIp addr.ssFamily a.bind = r at hrest hfds hbind ⊢
    obtain ⟨u, ret⟩ := r
    dsimp only at hrest hfds hbind ⊢
    rw [hcalls, List.append_assoc] at hrest
    by_cases hret : ret = -1
    · have hnot : ¬ a.Connects async addr.ssFamily := fun h => hbind.2 ⟨h.2.1, h.2.2.1⟩ hret
      simp only [if_pos hret]
      refine ⟨hopens.close hne hfds, iff_of_false (fun h => h rfl) hnot, rest, ?_, hafter addr, fun h => absurd h hnone⟩
      rw [← hfd]
      exact hrest
    · obtain ⟨hknown, hok⟩ := hbind.1 hret
      simp only [if_neg hret]
      have hcallsV : ((setNoBlocked u fd async).call (.connect fd addr)).calls =
          s.calls ++ .socket addr.ssFamily sockStream ipprotoTcp fd ::
            (rest ++ [.setOption fd .nonBlocking async, .connect fd addr]) := by
        simp [setNoBlocked, hrest]
      have hfdsV : ((setNoBlocked u fd async).call (.connect fd addr)).fds = t.fds := hfds
      generalize (setNoBlocked u fd async).call (.connect fd addr) = v at hcallsV hfdsV ⊢
      have hexit : (if a.connect then (v, fd) else if (async && a.again) = true then (v, fd) else (v.close fd, -1)) =
          if ¬ (a.connect = true ∨ async = true ∧ a.again = true) then (v.close fd, -1) else (v, fd) := by
        cases a.connect <;> cases async <;> cases a.again <;> rfl
      rw [hexit]
      obtain ⟨hopensV, hconnects⟩ := hopens.finish hne hfdsV (¬ (a.connect = true ∨ async = true ∧ a.again = true))
      refine ⟨hopensV, hconnects.trans ?_, _, ?_, .connecting (hafter addr) fd async, fun h => absurd h hnone⟩
      · rw [not_not]
        exact ⟨fun hdone => ⟨hsome, hknown, hok, hdone⟩, fun h => h.2.2.2⟩
      · rw [← hfd, ← hcallsV]
        split <;> rfl

/-- `listen` has nothing to do with the cache of names. -/
theorem dns_listen (port : UInt16) (localIp : String) (backLog : Int) (a : ListenAnswers) :
    (listen pton s port localIp backLog a).1.dns = s.dns := by
  have hipv6 := dns_supportIpv6 s a.probe
  unfold listen localFamily
  generalize supportIpv6 s a.probe = r at hipv6
  obtain ⟨s', ipv6⟩ := r
  dsimp only at hipv6 ⊢
  generalize (if ipv6 then (if isIpv4 pton localIp then Family.inet else .inet6) else .inet) = family
  split
  · exact hipv6
  · split
    · simp [hipv6]
    · split <;> simp [hipv6]

end

end SockUtil

end AvcTool
