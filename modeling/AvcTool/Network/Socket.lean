import AvcTool.Network.BufferList
import AvcTool.Poller.EventTable

/-!
# Sockets

A `Socket` has two send queues: `send` puts buffers into `send_buffer_waiting_`, and `flushData` moves the whole of
it into one `BufferList` and keeps in `send_buffer_sending_` what the kernel does not take.  `flushData` is called by
the user through `flushAll`, and by the poller on write events.  The state holds, beside the members of the class,
the registrations of the poller and `wire`, the bytes that the kernel has accepted.

A flush is given the answers of the kernel as a list, one for each call of `BufferList::send`; it returns the
answers it has not used, and none if it needs more (`flushData_returns`: a long enough list never fails).
-/

namespace AvcTool

/-- `SockNum::Type` -/
inductive SockType where
  | invalid
  | tcp
  | udp
  | tcpServer
  deriving DecidableEq, Repr

structure SockFD where
  fd : FD
  type : SockType
  deriving DecidableEq, Repr

/-- The callback that `attachEvent` registers, with the values it has captured. -/
structure IoCallback where
  fd : FD
  type : SockType
  deriving DecidableEq, Repr

structure Socket where
  sockFd : Option SockFD
  udpSendDst : Option SockAddr
  enableRecv : Bool
  sendable : Bool
  sendBufferWaiting : List SendBuffer
  sendBufferSending : List BufferList
  poller : Registry IoCallback
  wire : Bytes
  deriving DecidableEq

/-- The thread on which a function of the socket runs. -/
structure Caller where
  /-- `currentThread()` of the poller -/
  current : Bool
  /-- nothing but the state of the interest list makes `epoll_ctl` fail -/
  ok : Bool
  deriving DecidableEq, Repr

/-- The argument of the overloads of `send`. -/
inductive SendArg where
  | string (s : Bytes)
  | chars (src : Bytes) (size : Nat)
  | buffer (bytes : Bytes)
  deriving DecidableEq, Repr

/-- The bytes of the `Buffer` that an overload makes of its argument. -/
def SendArg.bytes (alloc : Alloc) : SendArg → Except BufferError Bytes
  | .string s => (BufferOffset.create s 0 0).map BufferOffset.bytes
  | .chars src size => (BufferRaw.ofChars alloc src size).map BufferRaw.bytes
  | .buffer bytes => .ok bytes

namespace Socket

/-- A socket without descriptor on a poller. -/
def closed (poller : Registry IoCallback) : Socket :=
  { sockFd := none, udpSendDst := none, enableRecv := true, sendable := false, sendBufferWaiting := [],
    sendBufferSending := [], poller := poller, wire := [] }

/-! ### The write event -/

/-- `poller_->modifyEvent` for the descriptor.  The functions that call it have checked that there is one. -/
def modifyEvent (c : Caller) (events : Nat) (s : Socket) : Socket :=
  match s.sockFd with
  | none => s
  | some sockFd => { s with poller := (s.poller.call c.current c.ok (.modify sockFd.fd events)).1 }

def readFlag (s : Socket) : Nat := if s.enableRecv then kEventRead else 0

def startWritableEvent (c : Caller) (s : Socket) : Socket :=
  modifyEvent c (s.readFlag ||| kEventWrite ||| kEventError) { s with sendable := false }

def stopWritableEvent (c : Caller) (s : Socket) : Socket :=
  modifyEvent c (s.readFlag ||| kEventError) { s with sendable := true }

/-- A change of the write event leaves the queues alone. -/
theorem modifyEvent_frame (c : Caller) (events : Nat) (s : Socket) :
    (s.modifyEvent c events).wire = s.wire ∧ (s.modifyEvent c events).sendBufferSending = s.sendBufferSending ∧
      (s.modifyEvent c events).sendBufferWaiting = s.sendBufferWaiting ∧
      (s.modifyEvent c events).sendable = s.sendable := by
  unfold modifyEvent
  split <;> exact ⟨rfl, rfl, rfl, rfl⟩

/-! ### Flushing -/

/-- What a pass of `flushData` leaves: the socket, the unused answers, and the result, none for another pass. -/
structure Pass where
  socket : Socket
  script : List SendOutcome
  ret : Option Int

/-- `flushData` after the loop over the packets. -/
def finishPass (c : Caller) (isEventPollerThread : Bool) (s : Socket) (r : LoopResult) : Pass :=
  let s := { s with wire := s.wire ++ r.wire }
  match r.stop with
  | .drained => ⟨s, r.script, if isEventPollerThread then none else some 0⟩
  | .failed => ⟨s, r.script, some (-1)⟩
  | .partly =>
    let s := if isEventPollerThread then s else s.startWritableEvent c
    ⟨{ s with sendBufferSending := r.rest }, r.script, some 0⟩
  | .again =>
    -- only the user's branch breaks out of the loop; the poller goes on to the return behind it
    if isEventPollerThread then ⟨s, r.script, some (-1)⟩
    else ⟨{ s.startWritableEvent c with sendBufferSending := r.rest }, r.script, some 0⟩

/-- `flushData` up to its recursive call. -/
def flushPass (c : Caller) (type : SockType) (isEventPollerThread : Bool) (s : Socket) (script : List SendOutcome) :
    Option Pass :=
  match s.sendBufferSending, s.sendBufferWaiting with
  | [], [] => some ⟨if isEventPollerThread then s.stopWritableEvent c else s, script, some 0⟩
  | [], b :: bs =>
    (sendLoop [.create (b :: bs) (type = .udp)] script).map
      (finishPass c isEventPollerThread { s with sendBufferWaiting := [] })
  | p :: ps, _ =>
    (sendLoop (p :: ps) script).map (finishPass c isEventPollerThread { s with sendBufferSending := [] })

/-- At most `n` passes. -/
def flushPasses (c : Caller) (type : SockType) (isEventPollerThread : Bool) :
    Nat → Socket → List SendOutcome → Option (Socket × List SendOutcome × Int)
  | 0, _, _ => none
  | n + 1, s, script =>
    (flushPass c type isEventPollerThread s script).bind fun p =>
      match p.ret with
      | some ret => some (p.socket, p.script, ret)
      | none => flushPasses c type isEventPollerThread n p.socket p.script

/-- `flushData`.  The first pass may empty the sending queue and the second one the waiting queue, so that the third
one finds nothing. -/
def flushData (c : Caller) (type : SockType) (isEventPollerThread : Bool) (s : Socket) (script : List SendOutcome) :
    Option (Socket × List SendOutcome × Int) :=
  flushPasses c type isEventPollerThread 3 s script

def flushAll (c : Caller) (s : Socket) (script : List SendOutcome) : Option (Socket × List SendOutcome × Int) :=
  match s.sockFd with
  | none => some (s, script, -1)
  | some sockFd => if s.sendable then s.flushData c sockFd.type false script else some (s, script, -1)

/-! ### Sending -/

/-- `send_l`: an empty buffer is not queued. -/
def sendL (c : Caller) (bytes : Bytes) (dst : Option SockAddr) (tryFlush : Bool) (s : Socket)
    (script : List SendOutcome) : Option (Socket × List SendOutcome × Int) :=
  if h : bytes = [] then some (s, script, 0)
  else
    let s := { s with sendBufferWaiting := s.sendBufferWaiting ++ [⟨bytes, dst, h⟩] }
    let size := (bytes.length : Int).bmod (2 ^ 32)
    if tryFlush then
      (s.flushAll c script).map fun (s, script, ret) => (s, script, if ret = -1 then -1 else size)
    else some (s, script, size)

/-- The overloads of `send`.  Without an address the buffer goes to `udp_send_dst_`, if that is set. -/
def send (alloc : Alloc) (c : Caller) (arg : SendArg) (addr : Option SockAddr) (tryFlush : Bool) (s : Socket)
    (script : List SendOutcome) : Option (Socket × List SendOutcome × Except BufferError Int) :=
  match arg.bytes alloc with
  | .error e => some (s, script, .error e)
  | .ok bytes =>
    (s.sendL c bytes (addr <|> s.udpSendDst) tryFlush script).map fun (s, script, ret) => (s, script, .ok ret)

/-! ### Opening, closing and events -/

/-- `closeSocket`: dropping the `SockFD` detaches the descriptor and then closes it. -/
def closeSocket (c : Caller) (s : Socket) : Socket :=
  let s := { s with sendable := false, enableRecv := true }
  match s.sockFd with
  | none => s
  | some sockFd =>
    -- `~SockFD` asks for the detachment, then `~SockNum` closes the descriptor
    let poller := (s.poller.call c.current c.ok (.detach sockFd.fd)).1
    { s with sockFd := none, poller := { poller with table := poller.table.close sockFd.fd } }

/-- The events a socket is attached for. -/
def attachedEvents : SockType → Nat
  | .tcpServer => kEventRead ||| kEventError
  | _ => kEventRead ||| kEventWrite ||| kEventError

def attachEvent (c : Caller) (fd : FD) (type : SockType) (s : Socket) : Socket × Int :=
  let (poller, ret) := s.poller.attachEvent c.current c.ok fd (attachedEvents type) ⟨fd, type⟩
  ({ s with poller := poller }, ret)

def fromSockFd (c : Caller) (fd : FD) (type : SockType) (s : Socket) : Socket × Int :=
  let (s, ret) := attachEvent c fd type { s.closeSocket c with sockFd := some ⟨fd, type⟩ }
  (s, if ret = -1 then -1 else 0)

/-- `bindUdpSocket`, given the descriptor that `SockUtil::bindUdpSocket` has opened, if it has. -/
def bindUdpSocket (c : Caller) (fd : Option FD) (s : Socket) : Socket × Int :=
  match fd with
  | none => (s, -1)
  | some fd => s.fromSockFd c fd .udp

def onWritable (_fd : FD) (_type : SockType) (s : Socket) : Socket := s

end Socket

/-- The callback for the signaled events, given what `onReadable` does to the socket. -/
def IoCallback.call (onReadable : FD → SockType → Socket → Socket) (cb : IoCallback) (events : Nat) (s : Socket) :
    Socket :=
  match cb.type with
  | .tcpServer => s
  | _ =>
    let s := if events &&& kEventRead ≠ 0 then onReadable cb.fd cb.type s else s
    if events &&& kEventWrite ≠ 0 then s.onWritable cb.fd cb.type else s

/-! ### Flushes come to an end -/

namespace Socket

/-- A pass uses the answers from the front, and what follows them does not matter. -/
theorem flushPass_used {c : Caller} {type : SockType} {b : Bool} {s : Socket} {script : List SendOutcome} {p : Pass}
    (h : flushPass c type b s script = some p) :
    ∃ used, script = used ++ p.script ∧
      ∀ extra, flushPass c type b s (used ++ extra) = some { p with script := extra } := by
  have hfinish : ∀ {ps s'}, (sendLoop ps script).map (finishPass c b s') = some p →
      ∃ used, script = used ++ p.script ∧
        ∀ extra, (sendLoop ps (used ++ extra)).map (finishPass c b s') = some { p with script := extra } := by
    intro ps s' h
    obtain ⟨⟨stop, rest, wire, left⟩, hr, rfl⟩ := Option.map_eq_some_iff.1 h
    obtain ⟨used, hscript, hused, -⟩ := sendLoop_used hr
    have hleft : ∀ extra, (finishPass c b s' ⟨stop, rest, wire, extra⟩) =
        { finishPass c b s' ⟨stop, rest, wire, left⟩ with script := extra } := by
      intro extra
      unfold finishPass
      cases stop <;> cases b <;> rfl
    refine ⟨used, ?_, fun extra => by rw [hused extra, Option.map_some, hleft]⟩
    rw [hscript]
    congr 1
    exact (congrArg Pass.script (hleft left)).symm
  unfold flushPass at h ⊢
  split at h
  · obtain rfl := Option.some.inj h
    exact ⟨[], rfl, fun _ => rfl⟩
  · exact hfinish h
  · exact hfinish h

private theorem flushPasses_used {c : Caller} {type : SockType} {b : Bool} {n : Nat} {s s' : Socket}
    {script left : List SendOutcome} {ret : Int} (h : flushPasses c type b n s script = some (s', left, ret)) :
    ∃ used, script = used ++ left ∧ ∀ extra, flushPasses c type b n s (used ++ extra) = some (s', extra, ret) := by
  induction n generalizing s script with
  | zero => cases h
  | succ n ih =>
    obtain ⟨p, hp, h⟩ := Option.bind_eq_some_iff.1 h
    obtain ⟨used, hscript, hused⟩ := flushPass_used hp
    cases hret : p.ret with
    | some r =>
      simp only [hret, Option.some.injEq, Prod.mk.injEq] at h
      obtain ⟨rfl, rfl, rfl⟩ := h
      refine ⟨used, hscript, fun extra => ?_⟩
      rw [flushPasses, hused extra]
      simp only [Option.bind_some, hret]
    | none =>
      simp only [hret] at h
      obtain ⟨used', hscript', hused'⟩ := ih h
      refine ⟨used ++ used', by rw [hscript, hscript', List.append_assoc], fun extra => ?_⟩
      rw [flushPasses, List.append_assoc, hused]
      simp only [Option.bind_some, hret, hused' extra]

private theorem finishPass_again {c : Caller} {b : Bool} {s : Socket} {r : LoopResult}
    (h : (finishPass c b s r).ret = none) :
    (finishPass c b s r).socket.sendBufferSending = s.sendBufferSending ∧
      (finishPass c b s r).socket.sendBufferWaiting = s.sendBufferWaiting := by
  obtain ⟨stop, rest, wire, left⟩ := r
  cases stop <;> cases b <;> first | exact ⟨rfl, rfl⟩ | cases h

theorem finishPass_script (c : Caller) (b : Bool) (s : Socket) (r : LoopResult) :
    (finishPass c b s r).script = r.script := by
  obtain ⟨stop, rest, wire, left⟩ := r
  cases stop <;> cases b <;> rfl

/-- With empty queues a pass is the last one. -/
theorem flushPasses_empty {c : Caller} {type : SockType} {b : Bool} {s : Socket} (n : Nat) (script : List SendOutcome)
    (hs : s.sendBufferSending = []) (hw : s.sendBufferWaiting = []) :
    (flushPasses c type b (n + 1) s script).isSome = true := by
  simp [flushPasses, flushPass, hs, hw]

/-- With an empty sending queue there are at most two passes. -/
private theorem flushPasses_waiting {c : Caller} {type : SockType} {b : Bool} {s : Socket} (n : Nat)
    {script : List SendOutcome} (hs : s.sendBufferSending = []) (hlen : 1 ≤ script.length) :
    (flushPasses c type b (n + 2) s script).isSome = true := by
  cases hw : s.sendBufferWaiting with
  | nil => exact flushPasses_empty (n + 1) script hs hw
  | cons w ws =>
    obtain ⟨r, hr, -⟩ := sendLoop_isSome [.create (w :: ws) (type = .udp)] hlen
    simp only [flushPasses, flushPass, hs, hw, hr, Option.map_some, Option.bind_some]
    split
    · rfl
    · rename_i hret
      obtain ⟨hs', hw'⟩ := finishPass_again hret
      exact flushPasses_empty n _ (by rw [hs']) hw'

/-- A flush comes to an end, whatever the kernel answers; it asks it once for each packet in the sending queue and
once for the waiting queue at most. -/
theorem flushData_returns (c : Caller) (type : SockType) (b : Bool) (s : Socket) {script : List SendOutcome}
    (hlen : s.sendBufferSending.length + 1 ≤ script.length) :
    ∃ used s' ret, used <+: script ∧ flushData c type b s used = some (s', [], ret) := by
  have hsome : (flushPasses c type b 3 s script).isSome = true := by
    cases hs : s.sendBufferSending with
    | nil => exact flushPasses_waiting 1 hs (by rw [hs] at hlen; exact hlen)
    | cons q qs =>
      rw [hs] at hlen
      obtain ⟨r, hr, hleft⟩ := sendLoop_isSome (q :: qs) (Nat.le_of_succ_le hlen)
      simp only [flushPasses, flushPass, hs, hr, Option.map_some, Option.bind_some]
      split
      · rfl
      · rename_i hret
        obtain ⟨hs', -⟩ := finishPass_again hret
        refine flushPasses_waiting 0 hs' ?_
        rw [finishPass_script]
        omega
  obtain ⟨⟨s', left, ret⟩, hflush⟩ := Option.isSome_iff_exists.1 hsome
  obtain ⟨used, hscript, hused⟩ := flushPasses_used hflush
  refine ⟨used, s', ret, ⟨left, hscript.symm⟩, ?_⟩
  have hexact := hused []
  rwa [List.append_nil] at hexact

end Socket

end AvcTool
