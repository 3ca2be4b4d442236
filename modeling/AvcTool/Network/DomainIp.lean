import AvcTool.Network.SockUtil

/-!
# When a host is not resolved

`DnsCache::getDomainIP` tells its caller whether it has found an address.  `SockUtil::getDomainIP` writes the port into
it and returns false in every case, and `connect` compares this result with -1, which no bool is equal to.  So the
result never says that there is an address, and `connect` goes on with an address that nothing has been written to.

`Resolves` says what the address of a host is, from what `inet_pton`, the cache and the resolver know.
-/

namespace AvcTool

namespace SockUtil

/-- The address of a host: a literal one, or else one of an entry of the cache that has not expired, or else one that
the resolver answers. -/
inductive Resolves (pton : InetPton) (dns : DnsCache SockaddrStorage) (q : DnsLookup SockaddrStorage) :
    SockaddrStorage → Prop where
  | literal (addr : SockaddrStorage) (haddr : makeSockAddr pton q.host 0 = .ok addr) : Resolves pton dns q addr
  | cached (msg : String) (hname : makeSockAddr pton q.host 0 = .error msg) (item : DnsItem SockaddrStorage)
    (hitem : dns.dnsCache q.host = some item) (hvalid : q.now ≤ item.createTime + q.expireSec) :
    Resolves pton dns q (DnsCache.getPerferredAddress q item.addrInfo).aiAddr
  | fresh (msg : String) (hname : makeSockAddr pton q.host 0 = .error msg)
    (hexpired : ∀ item, dns.dnsCache q.host = some item → item.createTime + q.expireSec < q.now)
    (answer : Answer SockaddrStorage) (hanswer : q.answer = some answer) :
    Resolves pton dns q (DnsCache.getPerferredAddress q answer).aiAddr

/-- The address of the host, with the given port in its port field. -/
def Target (pton : InetPton) (dns : DnsCache SockaddrStorage) (q : DnsLookup SockaddrStorage) (port : UInt16)
    (addr : SockaddrStorage) : Prop :=
  ∃ found, Resolves pton dns q found ∧ addr = found.setPort port ∧ addr.portField = some port

/-- The host has an address with a port field. -/
def HasAddress (pton : InetPton) (dns : DnsCache SockaddrStorage) (q : DnsLookup SockaddrStorage) : Prop :=
  ∃ found, Resolves pton dns q found ∧ (found.ssFamily = .inet ∨ found.ssFamily = .inet6)

/-- A call of one of the two functions, with what the calls of the system answer. -/
inductive ResolveCall where
  | getDomainIP (dns : DnsCache SockaddrStorage) (q : DnsLookup SockaddrStorage) (port : UInt16)
    (addr : SockaddrStorage)
  | connect (s : Sockets) (host : String) (port : UInt16) (async : Bool) (localPort : UInt16) (localIp : String)
    (a : ConnectAnswers)

/-- The sockets that `connect` creates and the addresses that it connects to belong to the target, and nothing is
created if the host is not resolved. -/
structure UsesTarget (pton : InetPton) (dns : DnsCache SockaddrStorage) (q : DnsLookup SockaddrStorage) (port : UInt16)
    (calls : List SockCall) (ret : FD) : Prop where
  created : ∀ family type protocol fd, .socket family type protocol fd ∈ calls → fd ≠ -1 →
    ∃ addr, Target pton dns q port addr ∧ addr.ssFamily = family
  connected : ∀ fd addr, .connect fd addr ∈ calls → Target pton dns q port addr
  failed : (∀ found, ¬ Resolves pton dns q found) →
    ret = -1 ∧ ∀ family type protocol fd, .socket family type protocol fd ∈ calls → fd = -1

/-- The call tells its caller whether there is an address, or uses the address that there is. -/
def FailureReaches (pton : InetPton) : ResolveCall → Prop
  | .getDomainIP dns q port addr =>
    (getDomainIP pton dns q port addr).2.2 = true ↔ Target pton dns q port (getDomainIP pton dns q port addr).2.1
  | .connect s host port async localPort localIp a =>
    UsesTarget pton s.dns (a.query host) port (connect pton s.mark host port async localPort localIp a).1.calls
      (connect pton s.mark host port async localPort localIp a).2

/-- For `getDomainIP`, there is no address to tell of; for `connect`, there is one, or no socket for whatever stands in
its place. -/
def Harmless (pton : InetPton) : ResolveCall → Prop
  | .getDomainIP dns q _ _ => ¬ HasAddress pton dns q
  | .connect s host _ _ _ _ a => HasAddress pton s.dns (a.query host) ∨ a.socket = none

variable {pton : InetPton} {dns : DnsCache SockaddrStorage} {q : DnsLookup SockaddrStorage} {port : UInt16}

/-! ### The lookup -/

/-- The three layers under `SockUtil::getDomainIP` find the address of the host and no other. -/
private theorem lookup_eq_some_iff {addr : SockaddrStorage} :
    (lookup pton dns q).2 = some addr ↔ Resolves pton dns q addr := by
  unfold lookup
  cases hhost : makeSockAddr pton q.host 0 with
  | ok found =>
    have hliteral : (makeSockAddr pton q.host 0).toOption = some found := by rw [hhost]; rfl
    simp only [DnsCache.getDomainIP, hliteral, Option.some.injEq]
    constructor
    · rintro rfl
      exact .literal found hhost
    · intro h
      cases h with
      | literal addr haddr => exact Except.ok.inj (hhost.symm.trans haddr)
      | cached msg hname => cases hhost.symm.trans hname
      | fresh msg hname => cases hhost.symm.trans hname
  | error msg =>
    have hname : (makeSockAddr pton q.host 0).toOption = none := by rw [hhost]; rfl
    rw [DnsCache.getDomainIP_of_name dns hname]
    rw [Option.map_eq_some_iff]
    constructor
    · rintro ⟨answer, hanswer, rfl⟩
      rcases DnsCache.getAnswer_eq_some_iff.1 hanswer with ⟨item, hitem, hvalid, rfl⟩ | ⟨hexpired, hnew⟩
      · exact .cached msg hhost item hitem hvalid
      · exact .fresh msg hhost hexpired answer hnew
    · intro h
      cases h with
      | literal addr haddr => cases hhost.symm.trans haddr
      | cached msg' hname' item hitem hvalid =>
        exact ⟨item.addrInfo, DnsCache.getAnswer_eq_some_iff.2 (.inl ⟨item, hitem, hvalid, rfl⟩), rfl⟩
      | fresh msg' hname' hexpired answer hanswer =>
        exact ⟨answer, DnsCache.getAnswer_eq_some_iff.2 (.inr ⟨hexpired, hanswer⟩), rfl⟩

private theorem Resolves.lookup_eq {addr : SockaddrStorage} (h : Resolves pton dns q addr) :
    (lookup pton dns q).2 = some addr :=
  lookup_eq_some_iff.2 h

theorem Resolves.unique {addr addr' : SockaddrStorage} (h : Resolves pton dns q addr)
    (h' : Resolves pton dns q addr') : addr = addr' :=
  Option.some.inj (h.lookup_eq.symm.trans h'.lookup_eq)

private theorem Resolves.getDomainIP_addr {found : SockaddrStorage} (h : Resolves pton dns q found)
    (addr : SockaddrStorage) : (getDomainIP pton dns q port addr).2.1 = found.setPort port := by
  have hlookup := h.lookup_eq
  unfold getDomainIP
  generalize lookup pton dns q = r at hlookup
  obtain ⟨dns', found'⟩ := r
  obtain rfl : found' = some found := hlookup
  rfl

private theorem Target.hasAddress {addr : SockaddrStorage} (h : Target pton dns q port addr) :
    HasAddress pton dns q := by
  obtain ⟨found, hfound, rfl, hport⟩ := h
  exact ⟨found, hfound, (found.portField_setPort port).1 hport⟩

theorem Target.family {addr : SockaddrStorage} (h : Target pton dns q port addr) :
    addr.ssFamily = .inet ∨ addr.ssFamily = .inet6 := by
  obtain ⟨found, hfound, rfl, hport⟩ := h
  rw [SockaddrStorage.ssFamily_setPort]
  exact (found.portField_setPort port).1 hport

private theorem target_iff_hasAddress (addr : SockaddrStorage) :
    Target pton dns q port (getDomainIP pton dns q port addr).2.1 ↔ HasAddress pton dns q := by
  constructor
  · exact Target.hasAddress
  · rintro ⟨found, hfound, hfamily⟩
    rw [hfound.getDomainIP_addr addr]
    exact ⟨found, hfound, rfl, (found.portField_setPort port).2 hfamily⟩

/-! ### The two functions -/

private theorem reports_iff (addr : SockaddrStorage) :
    ((getDomainIP pton dns q port addr).2.2 = true ↔ Target pton dns q port (getDomainIP pton dns q port addr).2.1) ↔
      ¬ HasAddress pton dns q := by
  rw [getDomainIP_flag, target_iff_hasAddress]
  simp

private theorem UsesTarget.of_target {s t : Sockets} {addr : SockaddrStorage} {async : Bool} {a : ConnectAnswers}
    {ret : FD} (h : ConnectEnds s addr async a t ret) (hcalls : s.calls = []) (haddr : Target pton dns q port addr) :
    UsesTarget pton dns q port t.calls ret := by
  obtain ⟨rest, hrest, hafter, -⟩ := h.calls
  rw [hcalls, List.nil_append] at hrest
  rw [hrest]
  refine ⟨?_, ?_, ?_⟩
  · intro family type protocol fd hmem _
    rcases List.mem_cons.1 hmem with heq | hmem
    · cases heq
      exact ⟨addr, haddr, rfl⟩
    · cases hafter _ hmem
  · intro fd addr' hmem
    rcases List.mem_cons.1 hmem with heq | hmem
    · cases heq
    · cases hafter _ hmem with
      | connect fd => exact haddr
  · intro hnone
    obtain ⟨found, hfound, -⟩ := haddr
    exact absurd hfound (hnone found)

private theorem UsesTarget.of_refused {s t : Sockets} {addr : SockaddrStorage} {async : Bool} {a : ConnectAnswers}
    {ret : FD} (h : ConnectEnds s addr async a t ret) (hcalls : s.calls = []) (hsocket : a.socket = none) :
    UsesTarget pton dns q port t.calls ret := by
  obtain ⟨rest, hrest, -, hnil⟩ := h.calls
  have hfd : (s.socket addr.ssFamily sockStream ipprotoTcp a.socket).2 = -1 := by
    rw [hsocket]
    rfl
  have hret : ret = -1 := by
    by_contra hne
    have hconnects := h.connects.1 hne
    simp [ConnectAnswers.Connects, hsocket] at hconnects
  rw [hcalls, hnil hsocket, hfd, List.nil_append] at hrest
  rw [hrest]
  refine ⟨?_, ?_, fun _ => ⟨hret, ?_⟩⟩
  · intro family type protocol fd hmem hne
    cases List.mem_singleton.1 hmem
    exact absurd rfl hne
  · intro fd addr' hmem
    cases List.mem_singleton.1 hmem
  · intro family type protocol fd hmem
    cases List.mem_singleton.1 hmem
    rfl

private theorem usesTarget_iff (s : Sockets) (host : String) (async : Bool) (localPort : UInt16) (localIp : String)
    (a : ConnectAnswers) :
    UsesTarget pton s.dns (a.query host) port (connect pton s.mark host port async localPort localIp a).1.calls
        (connect pton s.mark host port async localPort localIp a).2 ↔
      HasAddress pton s.dns (a.query host) ∨ a.socket = none := by
  have hends := connect_ends pton s.mark host port async localPort localIp a
  rw [Sockets.dns_mark] at hends
  constructor
  · intro huses
    by_contra hnot
    obtain ⟨haddress, hsocket⟩ := not_or.1 hnot
    obtain ⟨rest, hrest, -, -⟩ := hends.calls
    have hne := (s.mark.socket_ne_iff (getDomainIP pton s.dns (a.query host) port a.uninit).2.1.ssFamily sockStream
      ipprotoTcp a.socket).2 (Option.isSome_iff_ne_none.2 hsocket)
    have hmem := hrest ▸ List.mem_append_right s.mark.calls List.mem_cons_self
    obtain ⟨addr, haddr, -⟩ := huses.created _ sockStream ipprotoTcp _ hmem hne
    exact haddress haddr.hasAddress
  · rintro (haddress | hsocket)
    · exact .of_target hends rfl ((target_iff_hasAddress a.uninit).2 haddress)
    · exact .of_refused hends rfl hsocket

/-! ### Main results -/

/-- A failure to resolve the host reaches the caller of `getDomainIP` exactly if there is one, and `connect` uses a
resolved address exactly if there is one or no socket is created. -/
theorem failureReaches_iff_harmless (pton : InetPton) (c : ResolveCall) : FailureReaches pton c ↔ Harmless pton c := by
  cases c with
  | getDomainIP dns q port addr => exact reports_iff addr
  | connect s host port async localPort localIp a => exact usesTarget_iff s host async localPort localIp a

def loopbackOnly : InetPton :=
  { inet := fun ip => if ip = "127.0.0.1" then some 0x7f000001 else none, inet6 := fun _ => none }

def loopbackLookup : ResolveCall :=
  .getDomainIP (.init 0) ⟨"127.0.0.1", afInet, sockStream, ipprotoTcp, 60, 0, none, 0⟩ 80 (.other 0 [])

def noSockets : Sockets :=
  { fds := ⟨∅, ∅, []⟩, ipv6 := some true, dns := .init 0, calls := [] }

/-- The resolver does not answer, and the storage of `addr` happens to hold port 22 of the literal address. -/
def unresolvedAnswers : ConnectAnswers :=
  { now := 0, answer := none, stored := 0, uninit := .inet 0x7f000001 (0, 22), socket := some nextFd, bind := true,
    connect := true, again := false }

def unresolvedConnect : ResolveCall :=
  .connect noSockets "host" 80 false 0 "::" unresolvedAnswers

/-- `getDomainIP` returns false for the literal address, and `connect` creates a socket for the host that is not
resolved and returns it. -/
theorem failure_does_not_reach :
    ¬ FailureReaches loopbackOnly loopbackLookup ∧ ¬ FailureReaches loopbackOnly unresolvedConnect ∧
      (connect loopbackOnly noSockets "host" 80 false 0 "::" unresolvedAnswers).2 = 1 ∧
      .connect 1 (.inet 0x7f000001 (0, 22)) ∈
        (connect loopbackOnly noSockets "host" 80 false 0 "::" unresolvedAnswers).1.calls := by
  refine ⟨?_, ?_, by decide, by decide⟩
  · intro h
    have hreports := h.2 ⟨.inet 0x7f000001 (htons 0), .literal _ rfl, rfl, rfl⟩
    exact absurd hreports (by decide)
  · intro h
    have hnone : ∀ found, ¬ Resolves loopbackOnly noSockets.dns (unresolvedAnswers.query "host") found := by
      intro found hfound
      have hlookup : none = some found := hfound.lookup_eq
      cases hlookup
    have hret := (h.failed hnone).1
    exact absurd hret (by decide)

end SockUtil

end AvcTool
