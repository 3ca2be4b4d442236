import AvcTool.Lib.Transition
import AvcTool.Network.Socket

/-!
# Two threads that flush

`flushData` is called by the user, if `sendable_` is set, and by the poller on write events.  Here its calls are cut
into the locked sections, the accesses to `sendable_`, the changes of the write event and the calls of the kernel,
and the two threads take these steps in any order, with further buffers sent in between.  The steps of one thread
without interruption are the flush of `Socket` (`flushData_alone`, `flushAll_alone`).
-/

namespace AvcTool

/-- Where a thread is in `flushData`, with the packets it holds. -/
inductive FlushPc where
  | idle
  | takeSending
  | takeWaiting
  /-- in `stopWritableEvent`, with the lock of the waiting queue -/
  | stopStore
  | stopModify
  | sendFront (p : BufferList) (ps : List BufferList)
  /-- in `startWritableEvent` -/
  | startStore (tmp : List BufferList)
  | startModify (tmp : List BufferList)
  | putBack (tmp : List BufferList)
  deriving DecidableEq

namespace FlushPc

/-- Whether the thread has the lock of the waiting queue between two of its steps. -/
def holdsWaiting : FlushPc → Bool
  | .stopStore => true
  | .stopModify => true
  | _ => false

def puttingBack : FlushPc → Bool
  | .putBack _ => true
  | _ => false

def held : FlushPc → Bytes
  | .sendFront p ps => packetBytes (p :: ps)
  | .startStore tmp => packetBytes tmp
  | .startModify tmp => packetBytes tmp
  | .putBack tmp => packetBytes tmp
  | _ => []

/-- After a packet that has been sent completely. -/
def next (isEventPollerThread : Bool) : List BufferList → FlushPc
  | [] => if isEventPollerThread then .takeSending else .idle
  | p :: ps => .sendFront p ps

end FlushPc

namespace Socket

/-- A step of `flushData` that is not a call of the kernel. -/
def flushSection (c : Caller) (type : SockType) (isEventPollerThread : Bool) (s : Socket) :
    FlushPc → Option (Socket × FlushPc)
  | .idle => none
  | .takeSending =>
    match s.sendBufferSending with
    | [] => some (s, .takeWaiting)
    | p :: ps => some ({ s with sendBufferSending := [] }, .sendFront p ps)
  | .takeWaiting =>
    match s.sendBufferWaiting with
    -- the poller goes on to `stopWritableEvent` with the lock of this queue
    | [] => some (s, if isEventPollerThread then .stopStore else .idle)
    | b :: bs => some ({ s with sendBufferWaiting := [] }, .sendFront (.create (b :: bs) (type = .udp)) [])
  | .stopStore => some ({ s with sendable := true }, .stopModify)
  | .stopModify => some (s.modifyEvent c (s.readFlag ||| kEventError), .idle)
  | .sendFront _ _ => none
  | .startStore tmp => some ({ s with sendable := false }, .startModify tmp)
  | .startModify tmp => some (s.modifyEvent c (s.readFlag ||| kEventWrite ||| kEventError), .putBack tmp)
  | .putBack tmp => some ({ s with sendBufferSending := tmp }, .idle)

/-- A call of `BufferList::send` with the branch that `flushData` takes after it. -/
def sendPacket (isEventPollerThread : Bool) (o : SendOutcome) (s : Socket) : FlushPc → Option (Socket × FlushPc)
  | .sendFront p ps =>
    match o with
    | .accepts room =>
      let s := { s with wire := s.wire ++ p.remaining.take (room + 1) }
      let p := p.sent (room + 1)
      if p.empty then some (s, .next isEventPollerThread ps)
      else some (s, if isEventPollerThread then .putBack (p :: ps) else .startStore (p :: ps))
    -- the poller returns without its packets, as it does in `finishPass`
    | .again => some (s, if isEventPollerThread then .idle else .startStore (p :: ps))
    | .fails => some (s, .idle)
  | _ => none

/-- The write event is registered for the descriptor. -/
def writeRegistered (s : Socket) : Bool :=
  match s.sockFd with
  | none => false
  | some sockFd => (s.poller.table.eventRecords.lookup sockFd.fd).any EventRecord.writeable

end Socket

/-- A socket with the two threads, and the bytes of all buffers that were sent on it. -/
structure FlushRace where
  socket : Socket
  user : FlushPc
  poller : FlushPc
  sent : Bytes
  deriving DecidableEq

inductive RaceAction where
  | send (b : SendBuffer)
  | flushAll
  | writeEvent
  | runTask (ok : Bool)
  | advance (isEventPollerThread ok : Bool)
  | kernel (isEventPollerThread : Bool) (o : SendOutcome)
  deriving DecidableEq

namespace FlushRace

def pc (r : FlushRace) : Bool → FlushPc
  | true => r.poller
  | false => r.user

def moved (r : FlushRace) : Bool → Socket × FlushPc → FlushRace
  | true, (s, pc) => { r with socket := s, poller := pc }
  | false, (s, pc) => { r with socket := s, user := pc }

/-- One step of one of the threads.  The poller is called for write events and runs tasks when it does not flush. -/
def step (type : SockType) (r : FlushRace) : RaceAction → Option FlushRace
  | .send b =>
    if r.user.holdsWaiting || r.poller.holdsWaiting then none
    else some { r with
      socket := { r.socket with sendBufferWaiting := r.socket.sendBufferWaiting ++ [b] }
      sent := r.sent ++ b.bytes }
  | .flushAll =>
    if r.user = .idle then
      some (if r.socket.sockFd.isSome && r.socket.sendable then { r with user := .takeSending } else r)
    else none
  | .writeEvent =>
    if r.poller = .idle ∧ r.socket.writeRegistered = true then some { r with poller := .takeSending } else none
  | .runTask ok =>
    if r.poller = .idle then
      (r.socket.poller.runTask ok).map fun poller => { r with socket := { r.socket with poller := poller } }
    else none
  | .advance b ok =>
    -- the section waits for the lock
    if r.pc b = .takeWaiting ∧ (r.pc !b).holdsWaiting = true then none
    else (r.socket.flushSection ⟨b, ok⟩ type b (r.pc b)).map (r.moved b)
  | .kernel b o => (r.socket.sendPacket b o (r.pc b)).map (r.moved b)

end FlushRace

/-! ### A flush without interruption -/

/-- The thread that takes a step of `flushData`. -/
def RaceAction.thread : RaceAction → Option Bool
  | .advance b _ => some b
  | .kernel b _ => some b
  | _ => none

namespace FlushRace

variable {type : SockType} {r r' r'' : FlushRace} {b : Bool}

@[simp] theorem pc_moved (r : FlushRace) (b : Bool) (x : Socket × FlushPc) : (r.moved b x).pc b = x.2 := by
  cases b <;> rfl

@[simp] theorem pc_not_moved (r : FlushRace) (b : Bool) (x : Socket × FlushPc) : (r.moved b x).pc (!b) = r.pc (!b) := by
  cases b <;> rfl

@[simp] theorem socket_moved (r : FlushRace) (b : Bool) (x : Socket × FlushPc) : (r.moved b x).socket = x.1 := by
  cases b <;> rfl

@[simp] theorem moved_moved (r : FlushRace) (b : Bool) (x y : Socket × FlushPc) :
    (r.moved b x).moved b y = r.moved b y := by
  cases b <;> rfl

private theorem moved_self (r : FlushRace) (b : Bool) : r.moved b (r.socket, r.pc b) = r := by
  cases b <;> rfl

/-- Steps of one thread lead from one state to the other. -/
def Alone (type : SockType) (b : Bool) (r r' : FlushRace) : Prop :=
  ∃ as : List RaceAction, (∀ a ∈ as, a.thread = some b) ∧ Transition.exec (step type) r as = some r'

theorem Alone.refl (type : SockType) (b : Bool) (r : FlushRace) : Alone type b r r := ⟨[], nofun, rfl⟩

theorem Alone.trans (h : Alone type b r r') (h' : Alone type b r' r'') : Alone type b r r'' := by
  obtain ⟨as, has, hrun⟩ := h
  obtain ⟨as', has', hrun'⟩ := h'
  refine ⟨as ++ as', fun a ha => ?_, Transition.exec_append.2 ⟨r', hrun, hrun'⟩⟩
  exact (List.mem_append.1 ha).elim (has a) (has' a)

theorem Alone.advance {x : Socket × FlushPc} (ok : Bool) (hlock : (r.pc !b).holdsWaiting = false)
    (h : r.socket.flushSection ⟨b, ok⟩ type b (r.pc b) = some x) : Alone type b r (r.moved b x) := by
  refine ⟨[.advance b ok], by simp [RaceAction.thread], Transition.exec_cons.2 ⟨_, ?_, rfl⟩⟩
  simp only [step, hlock, Bool.false_eq_true, and_false, ↓reduceIte, h, Option.map_some]

/-- One more step of the thread. -/
theorem Alone.next {s : Socket} {pc : FlushPc} {x : Socket × FlushPc} (h : Alone type b r (r.moved b (s, pc)))
    (ok : Bool) (hlock : (r.pc !b).holdsWaiting = false) (hsec : s.flushSection ⟨b, ok⟩ type b pc = some x) :
    Alone type b r (r.moved b x) := by
  have hlast : Alone type b (r.moved b (s, pc)) ((r.moved b (s, pc)).moved b x) :=
    Alone.advance ok (by rw [pc_not_moved]; exact hlock) (by rw [socket_moved, pc_moved]; exact hsec)
  rw [moved_moved] at hlast
  exact h.trans hlast

theorem Alone.kernel {x : Socket × FlushPc} (o : SendOutcome) (h : r.socket.sendPacket b o (r.pc b) = some x) :
    Alone type b r (r.moved b x) := by
  refine ⟨[.kernel b o], by simp [RaceAction.thread], Transition.exec_cons.2 ⟨_, ?_, rfl⟩⟩
  simp only [step, h, Option.map_some]

/-- Where a thread is after its loop over the packets. -/
def afterLoop (b : Bool) (stop : LoopEnd) (rest : List BufferList) : FlushPc :=
  match stop with
  | .drained => .next b []
  | .partly => if b then .putBack rest else .startStore rest
  | .again => if b then .idle else .startStore rest
  | .failed => .idle

private theorem sendLoop_alone {ps : List BufferList} {script : List SendOutcome} {l : LoopResult}
    (h : sendLoop ps script = some l) (hpc : r.pc b = .next b ps) :
    Alone type b r (r.moved b ({ r.socket with wire := r.socket.wire ++ l.wire }, afterLoop b l.stop l.rest)) := by
  induction ps generalizing r script l with
  | nil =>
    obtain rfl := Option.some.inj h
    have hself : r.moved b ({ r.socket with wire := r.socket.wire ++ [] }, .next b []) = r := by
      rw [List.append_nil, ← hpc]
      exact moved_self r b
    show Alone type b r (r.moved b ({ r.socket with wire := r.socket.wire ++ [] }, .next b []))
    rw [hself]
    exact .refl type b r
  | cons p ps ih =>
    have hfront : r.pc b = .sendFront p ps := hpc
    rcases script with _ | ⟨room | _ | _, script⟩
    · cases h
    · simp only [sendLoop] at h
      split at h
      · rename_i hempty
        obtain ⟨l', hl', rfl⟩ := Option.map_eq_some_iff.1 h
        have hstep : Alone type b r _ := Alone.kernel (.accepts room) (by
          rw [hfront, Socket.sendPacket, if_pos hempty])
        have hrest := hstep.trans (ih hl' (pc_moved r b _))
        simpa using hrest
      · rename_i hpartly
        obtain rfl := Option.some.inj h
        exact Alone.kernel (.accepts room) (by rw [hfront, Socket.sendPacket, if_neg hpartly]; rfl)
    · obtain rfl := Option.some.inj h
      have hstep : Alone type b r _ := Alone.kernel .again (by rw [hfront]; rfl)
      simpa [afterLoop] using hstep
    · obtain rfl := Option.some.inj h
      have hstep : Alone type b r _ := Alone.kernel .fails (by rw [hfront]; rfl)
      simpa [afterLoop] using hstep

private theorem finishPass_alone (ok : Bool) {ps : List BufferList} {script : List SendOutcome} {l : LoopResult}
    (h : sendLoop ps script = some l) (hlock : (r.pc !b).holdsWaiting = false) (hpc : r.pc b = .next b ps) :
    Alone type b r (r.moved b ((Socket.finishPass ⟨b, ok⟩ b r.socket l).socket,
      if (Socket.finishPass ⟨b, ok⟩ b r.socket l).ret = none then .takeSending else .idle)) := by
  have hloop : Alone type b r _ := sendLoop_alone h hpc
  obtain ⟨stop, rest, wire, left⟩ := l
  cases b with
  | true =>
    cases stop with
    | partly => exact hloop.next ok hlock rfl
    | _ => exact hloop
  | false =>
    cases stop with
    | drained => exact hloop
    | failed => exact hloop
    | _ =>
      have hstore := hloop.next ok hlock rfl
      have hmodify := hstore.next ok hlock rfl
      exact hmodify.next ok hlock rfl

private theorem flushPass_alone {ok : Bool} {script : List SendOutcome} {p : Socket.Pass}
    (h : r.socket.flushPass ⟨b, ok⟩ type b script = some p) (hlock : (r.pc !b).holdsWaiting = false)
    (hpc : r.pc b = .takeSending) :
    Alone type b r (r.moved b (p.socket, if p.ret = none then .takeSending else .idle)) := by
  have hself : Alone type b r (r.moved b (r.socket, .takeSending)) := by
    rw [← hpc, moved_self]
    exact .refl type b r
  have hfinish : ∀ {s ps l}, Alone type b r (r.moved b (s, .next b ps)) → sendLoop ps script = some l →
      Alone type b r (r.moved b ((Socket.finishPass ⟨b, ok⟩ b s l).socket,
        if (Socket.finishPass ⟨b, ok⟩ b s l).ret = none then .takeSending else .idle)) := by
    intro s ps l hfront hl
    have hrest := hfront.trans (finishPass_alone ok hl (by simpa using hlock) (pc_moved r b _))
    simpa using hrest
  unfold Socket.flushPass at h
  split at h
  · rename_i hsending hwaiting
    obtain rfl := Option.some.inj h
    have htake : r.socket.flushSection ⟨b, ok⟩ type b .takeSending = some (r.socket, .takeWaiting) := by
      simp only [Socket.flushSection, hsending]
    have hempty : r.socket.flushSection ⟨b, ok⟩ type b .takeWaiting =
        some (r.socket, if b then .stopStore else .idle) := by
      simp only [Socket.flushSection, hwaiting]
    have hstop := (hself.next ok hlock htake).next ok hlock hempty
    cases b with
    | true =>
      have hstore := hstop.next ok hlock rfl
      exact hstore.next ok hlock rfl
    | false => exact hstop
  · rename_i w ws hsending hwaiting
    obtain ⟨l, hl, rfl⟩ := Option.map_eq_some_iff.1 h
    have htake : r.socket.flushSection ⟨b, ok⟩ type b .takeSending = some (r.socket, .takeWaiting) := by
      simp only [Socket.flushSection, hsending]
    have hmove : r.socket.flushSection ⟨b, ok⟩ type b .takeWaiting =
        some ({ r.socket with sendBufferWaiting := [] }, .next b [.create (w :: ws) (type = .udp)]) := by
      simp only [Socket.flushSection, hwaiting]
      rfl
    exact hfinish ((hself.next ok hlock htake).next ok hlock hmove) hl
  · rename_i q qs hsending
    obtain ⟨l, hl, rfl⟩ := Option.map_eq_some_iff.1 h
    have htake : r.socket.flushSection ⟨b, ok⟩ type b .takeSending =
        some ({ r.socket with sendBufferSending := [] }, .next b (q :: qs)) := by
      simp only [Socket.flushSection, hsending]
      rfl
    exact hfinish (hself.next ok hlock htake) hl

private theorem flushPasses_alone {n : Nat} {ok : Bool} {s' : Socket} {script left : List SendOutcome} {ret : Int}
    (h : r.socket.flushPasses ⟨b, ok⟩ type b n script = some (s', left, ret)) (hlock : (r.pc !b).holdsWaiting = false)
    (hpc : r.pc b = .takeSending) : Alone type b r (r.moved b (s', .idle)) := by
  induction n generalizing r script with
  | zero => cases h
  | succ n ih =>
    obtain ⟨p, hp, hnext⟩ := Option.bind_eq_some_iff.1 h
    have hpass := flushPass_alone hp hlock hpc
    cases hret : p.ret with
    | some ret' =>
      simp only [hret, Option.some.injEq, Prod.mk.injEq] at hnext
      simpa [hret, ← hnext.1] using hpass
    | none =>
      simp only [hret] at hnext
      simp only [hret, ↓reduceIte] at hpass
      have hrest : Alone type b (r.moved b (p.socket, .takeSending)) _ :=
        ih (by simpa using hnext) (by simpa using hlock) (pc_moved r b _)
      simpa using hpass.trans hrest

/-- A call of `flushData` that is not interrupted does what `Socket.flushData` does. -/
private theorem flushData_alone {ok : Bool} {s' : Socket} {script left : List SendOutcome} {ret : Int}
    (h : r.socket.flushData ⟨b, ok⟩ type b script = some (s', left, ret)) (hlock : (r.pc !b).holdsWaiting = false)
    (hpc : r.pc b = .takeSending) : Alone type b r (r.moved b (s', .idle)) :=
  flushPasses_alone h hlock hpc

/-- The same for `flushAll`. -/
theorem flushAll_alone {fd : FD} {ok : Bool} {s' : Socket} {script left : List SendOutcome} {ret : Int}
    (hopen : r.socket.sockFd = some ⟨fd, type⟩) (h : r.socket.flushAll ⟨false, ok⟩ script = some (s', left, ret))
    (hlock : r.poller.holdsWaiting = false) (hpc : r.user = .idle) :
    ∃ r₁, step type r .flushAll = some r₁ ∧ Alone type false r₁ { r with socket := s' } := by
  have hidle : r.moved false (s', .idle) = { r with socket := s' } := by rw [← hpc]; rfl
  refine ⟨_, by rw [step, if_pos hpc], ?_⟩
  simp only [Socket.flushAll, hopen] at h
  simp only [hopen, Option.isSome_some, Bool.true_and]
  split at h
  · rename_i hsendable
    rw [if_pos hsendable, ← hidle]
    have hflush : Alone type false { r with user := .takeSending } (r.moved false (s', .idle)) := flushData_alone h hlock rfl
    exact hflush
  · rename_i hsendable
    simp only [Option.some.injEq, Prod.mk.injEq] at h
    rw [if_neg hsendable, ← h.1]
    exact .refl type false r

end FlushRace

end AvcTool
