import AvcTool.Lib.Transition
import AvcTool.Network.Socket

/-!
# What the send queues hold

`Socket.queued` is what the kernel has accepted followed by what the two send queues hold.  `send` adds the bytes of
its buffer at the end, and a flush leaves `queued` as it is, except that a flush by the poller which the kernel
answers with `UV_EAGAIN` returns without putting its packets back (`flushData_queued`, `queues_conserve`).

`onWritable` does nothing, and only a flush by the poller ever sets `sendable_`.  So what is sent on a socket that
`bindUdpSocket` has opened stays in the waiting queue (`sends_stranded`, `write_event_never_drains`).
-/

namespace AvcTool

/-- The bytes the kernel has accepted and those in the two queues. -/
def Socket.queued (s : Socket) : Bytes :=
  s.wire ++ packetBytes s.sendBufferSending ++ queueBytes s.sendBufferWaiting

/-- A socket and the bytes of all buffers handed to `send`, in the order of the calls. -/
structure SendRun where
  socket : Socket
  sent : Bytes

inductive SendAction where
  | send (c : Caller) (arg : SendArg) (addr : Option SockAddr) (tryFlush : Bool) (script : List SendOutcome)
  | userFlush (c : Caller) (script : List SendOutcome)
  | pollerFlush (c : Caller) (script : List SendOutcome)
  deriving DecidableEq

/-- The bytes handed over, unless the buffer cannot be made. -/
def handedBytes : Except BufferError Bytes → Bytes
  | .ok bytes => bytes
  | .error _ => []

/-- `flushData` on the descriptor of an open socket; the kernel has given exactly the answers `script`. -/
def Socket.flushOpen (c : Caller) (isEventPollerThread : Bool) (s : Socket) (script : List SendOutcome) :
    Option Socket :=
  match s.sockFd with
  | none => none
  | some sockFd =>
    match s.flushData c sockFd.type isEventPollerThread script with
    | some (s, [], _) => some s
    | _ => none

def SendRun.step (alloc : Alloc) (r : SendRun) : SendAction → Option SendRun
  | .send c arg addr tryFlush script =>
    match r.socket.send alloc c arg addr tryFlush script with
    | some (s, [], _) => some ⟨s, r.sent ++ handedBytes (arg.bytes alloc)⟩
    | _ => none
  | .userFlush c script => (r.socket.flushOpen c false script).map fun s => { r with socket := s }
  | .pollerFlush c script => (r.socket.flushOpen c true script).map fun s => { r with socket := s }

/-- The kernel accepts bytes or answers `UV_EAGAIN`, and reports no other error. -/
def SendAction.KernelAccepts : SendAction → Prop
  | .send _ _ _ _ script => .fails ∉ script
  | .userFlush _ script => .fails ∉ script
  | .pollerFlush _ script => .fails ∉ script

/-- No flush by the poller is answered `UV_EAGAIN`. -/
def SendAction.PollerNotRefused : SendAction → Prop
  | .pollerFlush _ script => .again ∉ script
  | _ => True

instance : ∀ a, Decidable (SendAction.KernelAccepts a)
  | .send _ _ _ _ script => inferInstanceAs (Decidable (.fails ∉ script))
  | .userFlush _ script => inferInstanceAs (Decidable (.fails ∉ script))
  | .pollerFlush _ script => inferInstanceAs (Decidable (.fails ∉ script))

instance : ∀ a, Decidable (SendAction.PollerNotRefused a)
  | .pollerFlush _ script => inferInstanceAs (Decidable (.again ∉ script))
  | .send _ _ _ _ _ => isTrue trivial
  | .userFlush _ _ => isTrue trivial

/-- Nothing is lost, duplicated or reordered between `send` and the kernel. -/
def SendRun.Conserved (r : SendRun) : Prop := r.socket.queued = r.sent

namespace Socket

/-! ### The write event does not touch the queues -/

private theorem startWritableEvent_frame (c : Caller) (s : Socket) :
    (s.startWritableEvent c).wire = s.wire ∧ (s.startWritableEvent c).sendBufferSending = s.sendBufferSending ∧
      (s.startWritableEvent c).sendBufferWaiting = s.sendBufferWaiting := by
  obtain ⟨hwire, hsending, hwaiting, -⟩ :=
    modifyEvent_frame c (s.readFlag ||| kEventWrite ||| kEventError) { s with sendable := false }
  exact ⟨hwire, hsending, hwaiting⟩

private theorem stopWritableEvent_queued (c : Caller) (s : Socket) : (s.stopWritableEvent c).queued = s.queued := by
  obtain ⟨hwire, hsending, hwaiting, -⟩ :=
    modifyEvent_frame c (s.readFlag ||| kEventError) { s with sendable := true }
  unfold queued stopWritableEvent
  rw [hwire, hsending, hwaiting]

/-! ### A flush -/

private theorem finishPass_queued {c : Caller} {b : Bool} {s : Socket} {ps : List BufferList}
    {script : List SendOutcome}
    {r : LoopResult} (hloop : sendLoop ps script = some r) (hsending : s.sendBufferSending = [])
    (hfails : r.stop ≠ .failed) (hagain : b = true → r.stop ≠ .again) :
    (finishPass c b s r).socket.queued = s.wire ++ packetBytes ps ++ queueBytes s.sendBufferWaiting := by
  have hbytes := sendLoop_bytes hloop
  have hdrained := sendLoop_drained hloop
  obtain ⟨stop, rest, wire, left⟩ := r
  have hstart : ∀ s' : Socket, ({ (s'.startWritableEvent c) with sendBufferSending := rest } : Socket).queued =
      s'.wire ++ packetBytes rest ++ queueBytes s'.sendBufferWaiting := by
    intro s'
    obtain ⟨hwire, -, hwaiting⟩ := startWritableEvent_frame c s'
    simp only [queued, hwire, hwaiting]
  rw [← hbytes]
  cases stop with
  | drained =>
    obtain rfl : rest = [] := hdrained rfl
    simp [finishPass, queued, hsending]
  | failed => exact absurd rfl hfails
  | partly =>
    cases b with
    | true => simp [finishPass, queued]
    | false =>
      simp only [finishPass, Bool.false_eq_true, ↓reduceIte, hstart]
      simp
  | again =>
    cases b with
    | true => exact absurd rfl (hagain rfl)
    | false =>
      simp only [finishPass, Bool.false_eq_true, ↓reduceIte, hstart]
      simp

private theorem flushPass_queued {c : Caller} {type : SockType} {b : Bool} {s : Socket} {script : List SendOutcome}
    {p : Pass}
    (h : flushPass c type b s script = some p) (hfails : .fails ∉ script) (hagain : b = true → .again ∉ script) :
    p.socket.queued = s.queued := by
  have hfinish : ∀ {ps s'}, (sendLoop ps script).map (finishPass c b s') = some p → s'.sendBufferSending = [] →
      p.socket.queued = s'.wire ++ packetBytes ps ++ queueBytes s'.sendBufferWaiting := by
    intro ps s' h hsending
    obtain ⟨r, hr, rfl⟩ := Option.map_eq_some_iff.1 h
    obtain ⟨used, rfl, -, hagain', hfails'⟩ := sendLoop_used hr
    refine finishPass_queued hr hsending (fun hs => ?_) (fun hb hs => ?_)
    · exact hfails (List.mem_append_left _ (hfails' hs))
    · exact hagain hb (List.mem_append_left _ (hagain' hs))
  unfold flushPass at h
  split at h
  · obtain rfl := Option.some.inj h
    split
    · exact stopWritableEvent_queued c s
    · rfl
  · rename_i hsending hwaiting
    rw [hfinish h hsending]
    simp [queued, hsending, hwaiting]
  · rename_i hsending
    rw [hfinish h rfl]
    simp only [queued, hsending]

private theorem flushPasses_queued {c : Caller} {type : SockType} {b : Bool} {n : Nat} {s s' : Socket}
    {script left : List SendOutcome} {ret : Int} (h : flushPasses c type b n s script = some (s', left, ret))
    (hfails : .fails ∉ script) (hagain : b = true → .again ∉ script) : s'.queued = s.queued := by
  induction n generalizing s script with
  | zero => cases h
  | succ n ih =>
    obtain ⟨p, hp, hnext⟩ := Option.bind_eq_some_iff.1 h
    have hpass := flushPass_queued hp hfails hagain
    obtain ⟨used, rfl, -⟩ := flushPass_used hp
    cases hret : p.ret with
    | some r =>
      simp only [hret, Option.some.injEq, Prod.mk.injEq] at hnext
      rw [← hnext.1, hpass]
    | none =>
      simp only [hret] at hnext
      rw [ih hnext (fun hm => hfails (List.mem_append_right used hm))
        (fun hb hm => hagain hb (List.mem_append_right used hm)), hpass]

/-- A flush that meets no error of the socket, and as a flush by the poller no `UV_EAGAIN`, leaves the bytes as they
are. -/
private theorem flushData_queued {c : Caller} {type : SockType} {b : Bool} {s s' : Socket}
    {script left : List SendOutcome}
    {ret : Int} (h : s.flushData c type b script = some (s', left, ret)) (hfails : .fails ∉ script)
    (hagain : b = true → .again ∉ script) : s'.queued = s.queued :=
  flushPasses_queued h hfails hagain

private theorem flushOpen_queued {c : Caller} {b : Bool} {s s' : Socket} {script : List SendOutcome}
    (h : s.flushOpen c b script = some s') (hfails : .fails ∉ script) (hagain : b = true → .again ∉ script) :
    s'.queued = s.queued := by
  unfold flushOpen at h
  split at h
  · cases h
  · split at h
    · rename_i hflush
      obtain rfl := Option.some.inj h
      exact flushData_queued hflush hfails hagain
    · cases h

/-! ### A send -/

private theorem flushAll_queued {c : Caller} {s s' : Socket} {script left : List SendOutcome} {ret : Int}
    (h : s.flushAll c script = some (s', left, ret)) (hfails : .fails ∉ script) : s'.queued = s.queued := by
  unfold flushAll at h
  split at h
  · simp only [Option.some.injEq, Prod.mk.injEq] at h
    rw [h.1]
  · split at h
    · exact flushData_queued h hfails nofun
    · simp only [Option.some.injEq, Prod.mk.injEq] at h
      rw [h.1]

private theorem sendL_queued {c : Caller} {bytes : Bytes} {dst : Option SockAddr} {tryFlush : Bool} {s s' : Socket}
    {script left : List SendOutcome} {ret : Int} (h : s.sendL c bytes dst tryFlush script = some (s', left, ret))
    (hfails : .fails ∉ script) : s'.queued = s.queued ++ bytes := by
  unfold sendL at h
  split at h
  · rename_i hempty
    simp only [Option.some.injEq, Prod.mk.injEq] at h
    rw [← h.1, hempty, List.append_nil]
  · rename_i hne
    have henqueue : ({ s with sendBufferWaiting := s.sendBufferWaiting ++ [⟨bytes, dst, hne⟩] } : Socket).queued =
        s.queued ++ bytes := by simp [queued]
    split at h
    · obtain ⟨⟨s₁, left₁, ret₁⟩, hflush, heq⟩ := Option.map_eq_some_iff.1 h
      simp only [Prod.mk.injEq] at heq
      rw [← heq.1, flushAll_queued hflush hfails, henqueue]
    · simp only [Option.some.injEq, Prod.mk.injEq] at h
      rw [← h.1, henqueue]

private theorem send_queued {alloc : Alloc} {c : Caller} {arg : SendArg} {addr : Option SockAddr} {tryFlush : Bool}
    {s s' : Socket} {script left : List SendOutcome} {ret : Except BufferError Int}
    (h : s.send alloc c arg addr tryFlush script = some (s', left, ret)) (hfails : .fails ∉ script) :
    s'.queued = s.queued ++ handedBytes (arg.bytes alloc) := by
  unfold send at h
  split at h
  · rename_i e hbytes
    simp only [Option.some.injEq, Prod.mk.injEq] at h
    rw [← h.1, hbytes, handedBytes, List.append_nil]
  · rename_i bytes hbytes
    obtain ⟨⟨s₁, left₁, ret₁⟩, hsend, heq⟩ := Option.map_eq_some_iff.1 h
    simp only [Prod.mk.injEq] at heq
    rw [← heq.1, hbytes]
    exact sendL_queued hsend hfails

end Socket

/-! ### Runs -/

private theorem step_conserved {alloc : Alloc} (r : SendRun) (a : SendAction) (r' : SendRun) (h : r.Conserved)
    (hok : a.KernelAccepts ∧ a.PollerNotRefused) (hstep : r.step alloc a = some r') : r'.Conserved := by
  obtain ⟨haccepts, hrefused⟩ := hok
  unfold SendRun.Conserved at h ⊢
  cases a with
  | send c arg addr tryFlush script =>
    simp only [SendRun.step] at hstep
    split at hstep
    · rename_i hsend
      obtain rfl := Option.some.inj hstep
      rw [Socket.send_queued hsend haccepts, h]
    · cases hstep
  | userFlush c script =>
    obtain ⟨s, hflush, rfl⟩ := Option.map_eq_some_iff.1 hstep
    rw [Socket.flushOpen_queued hflush haccepts nofun, h]
  | pollerFlush c script =>
    obtain ⟨s, hflush, rfl⟩ := Option.map_eq_some_iff.1 hstep
    rw [Socket.flushOpen_queued hflush haccepts fun _ => hrefused, h]

/-- As long as no flush by the poller is answered `UV_EAGAIN`, what was handed to `send` is what the kernel has
accepted followed by what the two queues hold. -/
theorem queues_conserve {alloc : Alloc} {r₀ r : SendRun} {as : List SendAction} (h₀ : r₀.Conserved)
    (hrun : Transition.exec (SendRun.step alloc) r₀ as = some r)
    (haccepts : ∀ a ∈ as, a.KernelAccepts) (hrefused : ∀ a ∈ as, a.PollerNotRefused) : r.Conserved :=
  Transition.exec_invariant_along step_conserved h₀
    (Transition.along_of_forall_mem (fun a ha => ⟨haccepts a ha, hrefused a ha⟩) r₀) hrun

/-- A socket that is open on the descriptor 5, called from another thread than the poller's. -/
def openSocket : Socket :=
  ((Socket.closed ⟨.empty, []⟩).bindUdpSocket ⟨true, true⟩ (some 5)).1

/-- One buffer is queued, and two of its bytes go out in a flush by the poller. -/
def sendAndFlush : List SendAction :=
  [.send ⟨false, true⟩ (.buffer [1, 2, 3]) none false [], .pollerFlush ⟨true, true⟩ [.accepts 1]]

theorem queues_conserve_sendAndFlush :
    ∃ r, Transition.exec (SendRun.step (Alloc.fill 0)) ⟨openSocket, []⟩ sendAndFlush = some r ∧ r.Conserved :=
  ⟨_, rfl, @queues_conserve (Alloc.fill 0) ⟨openSocket, []⟩ _ sendAndFlush rfl rfl (by decide) (by decide)⟩

/-- The kernel answers `UV_EAGAIN` to the flush by the poller. -/
def sendAndRefusedFlush : List SendAction :=
  [.send ⟨false, true⟩ (.buffer [1, 2, 3]) none false [], .pollerFlush ⟨true, true⟩ [.again]]

theorem queued_bytes_lost :
    (∀ a ∈ sendAndRefusedFlush, a.KernelAccepts) ∧
      ∃ r, Transition.exec (SendRun.step (Alloc.fill 0)) ⟨openSocket, []⟩ sendAndRefusedFlush = some r ∧
        r.sent = [1, 2, 3] ∧ r.socket.queued = [] ∧ ¬ r.Conserved :=
  ⟨by decide, _, rfl, rfl, rfl, fun h => nomatch (h : ([] : Bytes) = [1, 2, 3])⟩

/-! ### The write event -/

private theorem Socket.flushAll_not_sendable (c : Caller) {s : Socket} (script : List SendOutcome)
    (hs : s.sendable = false) : s.flushAll c script = some (s, script, -1) := by
  unfold Socket.flushAll
  split
  · rfl
  · rw [hs]
    rfl

/-- A socket on which nothing is sent, since `sendable_` is false, compared with an earlier state of it. -/
structure Stranded (before s : Socket) (sent : Bytes) : Prop where
  sendable : s.sendable = false
  wire : s.wire = before.wire
  sending : s.sendBufferSending = before.sendBufferSending
  waiting : queueBytes s.sendBufferWaiting = queueBytes before.sendBufferWaiting ++ sent

theorem Stranded.sendL {before s s' : Socket} {sent bytes : Bytes} (h : Stranded before s sent) {c : Caller}
    {dst : Option SockAddr} {tryFlush : Bool} {script left : List SendOutcome} {ret : Int}
    (hsend : s.sendL c bytes dst tryFlush script = some (s', left, ret)) : Stranded before s' (sent ++ bytes) := by
  unfold Socket.sendL at hsend
  split at hsend
  · rename_i hempty
    simp only [Option.some.injEq, Prod.mk.injEq] at hsend
    rw [← hsend.1, hempty, List.append_nil]
    exact h
  · rename_i hne
    have henqueue : Stranded before { s with sendBufferWaiting := s.sendBufferWaiting ++ [⟨bytes, dst, hne⟩] }
        (sent ++ bytes) := by
      refine ⟨h.sendable, h.wire, h.sending, ?_⟩
      simp [h.waiting]
    split at hsend
    · simp only [Socket.flushAll_not_sendable c script henqueue.sendable, Option.map_some, Option.some.injEq,
        Prod.mk.injEq] at hsend
      rw [← hsend.1]
      exact henqueue
    · simp only [Option.some.injEq, Prod.mk.injEq] at hsend
      rw [← hsend.1]
      exact henqueue

theorem Stranded.send {alloc : Alloc} {before s s' : Socket} {sent : Bytes} (h : Stranded before s sent) {c : Caller}
    {arg : SendArg} {addr : Option SockAddr} {tryFlush : Bool} {script left : List SendOutcome}
    {ret : Except BufferError Int} (hsend : s.send alloc c arg addr tryFlush script = some (s', left, ret)) :
    Stranded before s' (sent ++ handedBytes (arg.bytes alloc)) := by
  unfold Socket.send at hsend
  split at hsend
  · rename_i e hbytes
    simp only [Option.some.injEq, Prod.mk.injEq] at hsend
    rw [← hsend.1, hbytes, handedBytes, List.append_nil]
    exact h
  · rename_i bytes hbytes
    obtain ⟨⟨s₁, left₁, ret₁⟩, hsendL, heq⟩ := Option.map_eq_some_iff.1 hsend
    simp only [Prod.mk.injEq] at heq
    rw [← heq.1, hbytes]
    exact h.sendL hsendL

def SendAction.IsSend : SendAction → Prop
  | .send _ _ _ _ _ => True
  | _ => False

instance : ∀ a, Decidable (SendAction.IsSend a)
  | .send _ _ _ _ _ => isTrue trivial
  | .userFlush _ _ => isFalse id
  | .pollerFlush _ _ => isFalse id

private theorem sends_stranded {alloc : Alloc} {s : Socket} (hs : s.sendable = false) {as : List SendAction}
    {r : SendRun} (hsends : ∀ a ∈ as, a.IsSend) (hrun : Transition.exec (SendRun.step alloc) ⟨s, []⟩ as = some r) :
    Stranded s r.socket r.sent := by
  have hstep : ∀ (r : SendRun) (a : SendAction) (r' : SendRun), Stranded s r.socket r.sent → a.IsSend →
      r.step alloc a = some r' → Stranded s r'.socket r'.sent := by
    intro r a r' h ha hstep
    cases a with
    | send c arg addr tryFlush script =>
      simp only [SendRun.step] at hstep
      split at hstep
      · rename_i hsend
        obtain rfl := Option.some.inj hstep
        exact h.send hsend
      · cases hstep
    | userFlush c script => exact ha.elim
    | pollerFlush c script => exact ha.elim
  have hinit : Stranded s s [] := ⟨hs, rfl, rfl, by rw [List.append_nil]⟩
  exact Transition.exec_invariant_along hstep hinit (Transition.along_of_forall_mem hsends ⟨s, []⟩) hrun

private theorem Socket.bindUdpSocket_sendable {c : Caller} {fd : FD} {s s' : Socket} {ret : Int}
    (h : s.bindUdpSocket c (some fd) = (s', ret)) : s'.sendable = false := by
  obtain rfl : (s.bindUdpSocket c (some fd)).1 = s' := congrArg Prod.fst h
  simp only [Socket.bindUdpSocket, Socket.fromSockFd, Socket.attachEvent, Socket.closeSocket]
  split <;> rfl

private theorem IoCallback.call_write (onReadable : FD → SockType → Socket → Socket) (cb : IoCallback) (s : Socket) :
    cb.call onReadable kEventWrite s = s := by
  obtain ⟨fd, type⟩ := cb
  cases type <;> rfl

/-- The queues are empty, the kernel has got all bytes in the order in which they were sent, and the next `send`
transmits directly. -/
structure Drained (before s : Socket) (sent : Bytes) : Prop where
  sending : s.sendBufferSending = []
  waiting : s.sendBufferWaiting = []
  offered : s.wire = before.queued ++ sent
  sendable : s.sendable = true

/-- A write event never drains a socket that `bindUdpSocket` has opened, whatever was sent on it. -/
theorem write_event_never_drains {alloc : Alloc} {c : Caller} {fd : FD} {s₀ s₁ : Socket}
    (hbind : s₀.bindUdpSocket c (some fd) = (s₁, 0)) {as : List SendAction} {r : SendRun}
    (hsends : ∀ a ∈ as, a.IsSend) (hrun : Transition.exec (SendRun.step alloc) ⟨s₁, []⟩ as = some r)
    (onReadable : FD → SockType → Socket → Socket) (cb : IoCallback) :
    ¬ Drained s₁ (cb.call onReadable kEventWrite r.socket) r.sent := by
  intro hdrained
  have hstranded := sends_stranded (Socket.bindUdpSocket_sendable hbind) hsends hrun
  have hsendable := hdrained.sendable
  rw [IoCallback.call_write, hstranded.sendable] at hsendable
  cases hsendable

/-- One send with `tryFlush`. -/
def oneSend : List SendAction := [.send ⟨false, true⟩ (.string [104, 105]) none true []]

theorem write_event_never_drains_oneSend :
    ∃ r, Transition.exec (SendRun.step (Alloc.fill 0)) ⟨openSocket, []⟩ oneSend = some r ∧
      ¬ Drained openSocket (IoCallback.call (fun _ _ s => s) ⟨5, .udp⟩ kEventWrite r.socket) r.sent :=
  ⟨_, rfl, @write_event_never_drains (Alloc.fill 0) ⟨true, true⟩ 5 (.closed ⟨.empty, []⟩) openSocket rfl oneSend _
    (by decide) rfl (fun _ _ s => s) ⟨5, .udp⟩⟩

theorem sent_data_stranded :
    ∃ r, Transition.exec (SendRun.step (Alloc.fill 0)) ⟨openSocket, []⟩ oneSend = some r ∧
      ∃ s, IoCallback.call (fun _ _ s => s) ⟨5, .udp⟩ kEventWrite r.socket = s ∧ s.wire = [] ∧
        queueBytes s.sendBufferWaiting = [104, 105] ∧ s.sendable = false ∧ ¬ Drained openSocket s r.sent :=
  ⟨_, rfl, _, rfl, rfl, rfl, rfl, fun h => nomatch (h.sendable : false = true)⟩

end AvcTool
