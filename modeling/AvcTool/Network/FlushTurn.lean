import AvcTool.Network.FlushRace

/-!
# Taking turns

At any time one of the two threads is in charge of the send queues (`FlushRace.Turn`).  `stopWritableEvent` gives them
to the user, and `startWritableEvent` to the poller, before the user has put back what the kernel has not taken: the
poller may take `send_buffer_sending_` too early, and it drops its packets when the kernel answers `UV_EAGAIN`.  If
neither happens (`TakesInTurn`) nothing is lost or reordered, and packets that are left over have the write event to
resume them (`flush_race_safe`).
-/

namespace AvcTool

namespace FlushRace

/-- A socket after `bindUdpSocket`: registered for the write event, and nothing has been flushed. -/
structure Opened (fd : FD) (type : SockType) (r : FlushRace) : Prop where
  sockFd : r.socket.sockFd = some ⟨fd, type⟩
  registered : r.socket.writeRegistered = true
  tasks : r.socket.poller.tasks = []
  sendable : r.socket.sendable = false
  sending : r.socket.sendBufferSending = []
  user : r.user = .idle
  poller : r.poller = .idle
  sent : r.socket.wire ++ queueBytes r.socket.sendBufferWaiting = r.sent

/-- All bytes that were sent are accepted by the kernel, held by a thread or queued. -/
def Conserved (r : FlushRace) : Prop :=
  r.socket.wire ++ (r.user.held ++ (r.poller.held ++
    (packetBytes r.socket.sendBufferSending ++ queueBytes r.socket.sendBufferWaiting))) = r.sent

/-- No byte is lost, each packet offered to the kernel continues what it has accepted, and packets that are left over
have the write event. -/
structure Safe (r : FlushRace) : Prop where
  conserved : r.Conserved
  offered : ∀ b p ps, r.pc b = .sendFront p ps → r.socket.wire ++ p.remaining <+: r.sent
  resumed : r.user = .idle → r.poller = .idle → r.socket.poller.tasks = [] → r.socket.sendBufferSending ≠ [] →
    r.socket.writeRegistered = true

end FlushRace

/-- The kernel accepts bytes or answers `UV_EAGAIN`, and reports no other error. -/
def RaceAction.KernelAccepts : RaceAction → Prop
  | .kernel _ o => o ≠ .fails
  | _ => True

/-- The kernel does not answer `UV_EAGAIN` to the poller, and the poller does not take `send_buffer_sending_` after the
user has posted the write event and before it has put its packets back. -/
def TakesInTurn (r : FlushRace) : RaceAction → Prop
  | .kernel true o => o ≠ .again
  | .advance true _ => r.poller = .takeSending → r.user.puttingBack = false
  | _ => True

instance RaceAction.decidableKernelAccepts : ∀ a, Decidable (RaceAction.KernelAccepts a)
  | .kernel _ o => inferInstanceAs (Decidable (o ≠ .fails))
  | .send _ => isTrue trivial
  | .flushAll => isTrue trivial
  | .writeEvent => isTrue trivial
  | .runTask _ => isTrue trivial
  | .advance _ _ => isTrue trivial

instance decidableTakesInTurn : ∀ r a, Decidable (TakesInTurn r a)
  | _, .kernel true o => inferInstanceAs (Decidable (o ≠ .again))
  | r, .advance true _ => inferInstanceAs (Decidable (r.poller = .takeSending → r.user.puttingBack = false))
  | _, .kernel false _ => isTrue trivial
  | _, .advance false _ => isTrue trivial
  | _, .send _ => isTrue trivial
  | _, .flushAll => isTrue trivial
  | _, .writeEvent => isTrue trivial
  | _, .runTask _ => isTrue trivial

/-! ### The write event of one descriptor -/

/-- The descriptor, the event mask of its record, and the tasks that wait for the poller. -/
structure Socket.Registered (fd : FD) (events : Nat) (tasks : List (RegTask IoCallback)) (s : Socket) : Prop where
  sockFd : ∃ type, s.sockFd = some ⟨fd, type⟩
  record : (s.poller.table.eventRecords.lookup fd).map EventRecord.events = some events
  tasks : s.poller.tasks = tasks

namespace Socket.Registered

variable {fd : FD} {events : Nat} {tasks : List (RegTask IoCallback)} {s : Socket}

private theorem writeRegistered_eq (h : s.Registered fd events tasks) :
    s.writeRegistered = decide (events &&& kEventWrite ≠ 0) := by
  obtain ⟨type, hfd⟩ := h.sockFd
  obtain ⟨record, hrecord, hevents⟩ := Option.map_eq_some_iff.1 h.record
  simp only [writeRegistered, hfd, hrecord, Option.any_some, EventRecord.writeable, hevents]

/-- `modifyEvent` by the user posts a task. -/
theorem post (h : s.Registered fd events tasks) (ok : Bool) (mask : Nat) :
    (s.modifyEvent ⟨false, ok⟩ mask).Registered fd events (tasks ++ [.modify fd mask]) := by
  obtain ⟨type, hfd⟩ := h.sockFd
  simp only [Socket.modifyEvent, hfd]
  refine ⟨⟨type, rfl⟩, h.record, ?_⟩
  simp only [Registry.call, Bool.false_eq_true, ↓reduceIte, h.tasks]

private theorem table_modifyEvent (t : EventTable IoCallback) (ok : Bool) (mask : Nat)
    (h : (t.eventRecords.lookup fd).map EventRecord.events = some events) :
    ((AvcTool.modifyEvent ok fd mask t).1.eventRecords.lookup fd).map EventRecord.events = some mask := by
  obtain ⟨record, hrecord, -⟩ := Option.map_eq_some_iff.1 h
  have hset : ((setEvents fd mask t.eventRecords).lookup fd).map EventRecord.events = some mask := by
    rw [lookup_setEvents, if_pos rfl, hrecord]
    rfl
  unfold AvcTool.modifyEvent
  split <;> exact hset

/-- `modifyEvent` by the poller takes effect at once. -/
theorem modify (h : s.Registered fd events tasks) (ok : Bool) (mask : Nat) :
    (s.modifyEvent ⟨true, ok⟩ mask).Registered fd mask tasks := by
  obtain ⟨type, hfd⟩ := h.sockFd
  simp only [Socket.modifyEvent, hfd]
  exact ⟨⟨type, rfl⟩, table_modifyEvent s.poller.table ok mask h.record, h.tasks⟩

theorem runTask {mask : Nat} {ok : Bool} {poller : Registry IoCallback}
    (h : s.Registered fd events (.modify fd mask :: tasks)) (hrun : s.poller.runTask ok = some poller) :
    Socket.Registered fd mask tasks { s with poller := poller } := by
  simp only [Registry.runTask, h.tasks, Option.some.injEq] at hrun
  obtain rfl := hrun
  exact ⟨h.sockFd, table_modifyEvent s.poller.table ok mask h.record, rfl⟩

end Socket.Registered

private theorem startMask (s : Socket) : (s.readFlag ||| kEventWrite ||| kEventError) &&& kEventWrite ≠ 0 := by
  unfold Socket.readFlag
  split <;> decide

private theorem stopMask (s : Socket) : (s.readFlag ||| kEventError) &&& kEventWrite = 0 := by
  unfold Socket.readFlag
  split <;> decide

/-! ### Bytes -/

private theorem flushSection_bytes {c : Caller} {type : SockType} {b : Bool} {s s' : Socket} {pc pc' : FlushPc}
    (h : s.flushSection c type b pc = some (s', pc')) (hsending : pc ≠ .takeSending → s.sendBufferSending = []) :
    s'.wire = s.wire ∧ pc'.held ++ (packetBytes s'.sendBufferSending ++ queueBytes s'.sendBufferWaiting) =
      pc.held ++ (packetBytes s.sendBufferSending ++ queueBytes s.sendBufferWaiting) := by
  cases pc with
  | idle => cases h
  | takeSending =>
    simp only [Socket.flushSection] at h
    split at h <;> obtain ⟨rfl, rfl⟩ := Prod.mk.inj (Option.some.inj h)
    · exact ⟨rfl, rfl⟩
    · rename_i hq
      exact ⟨rfl, by simp [FlushPc.held, hq]⟩
  | takeWaiting =>
    have hnil := hsending (fun h => by cases h)
    simp only [Socket.flushSection] at h
    split at h <;> obtain ⟨rfl, rfl⟩ := Prod.mk.inj (Option.some.inj h)
    · refine ⟨rfl, ?_⟩
      split <;> rfl
    · rename_i hq
      exact ⟨rfl, by simp [FlushPc.held, hq, hnil]⟩
  | stopStore =>
    obtain ⟨rfl, rfl⟩ := Prod.mk.inj (Option.some.inj h)
    exact ⟨rfl, rfl⟩
  | stopModify =>
    obtain ⟨rfl, rfl⟩ := Prod.mk.inj (Option.some.inj h)
    obtain ⟨hwire, hq, hw, -⟩ := Socket.modifyEvent_frame c (s.readFlag ||| kEventError) s
    exact ⟨hwire, by rw [hq, hw]; rfl⟩
  | sendFront p ps => cases h
  | startStore tmp =>
    obtain ⟨rfl, rfl⟩ := Prod.mk.inj (Option.some.inj h)
    exact ⟨rfl, rfl⟩
  | startModify tmp =>
    obtain ⟨rfl, rfl⟩ := Prod.mk.inj (Option.some.inj h)
    obtain ⟨hwire, hq, hw, -⟩ := Socket.modifyEvent_frame c (s.readFlag ||| kEventWrite ||| kEventError) s
    exact ⟨hwire, by rw [hq, hw]; rfl⟩
  | putBack tmp =>
    have hnil := hsending (fun h => by cases h)
    obtain ⟨rfl, rfl⟩ := Prod.mk.inj (Option.some.inj h)
    exact ⟨rfl, by simp [FlushPc.held, hnil]⟩

private theorem sendPacket_bytes {b : Bool} {o : SendOutcome} {s s' : Socket} {pc pc' : FlushPc}
    (h : s.sendPacket b o pc = some (s', pc')) (ho : o ≠ .fails) (hb : b = true → o ≠ .again) :
    s'.wire ++ pc'.held = s.wire ++ pc.held ∧ s'.sendBufferSending = s.sendBufferSending ∧
      s'.sendBufferWaiting = s.sendBufferWaiting := by
  cases pc with
  | sendFront p ps =>
    cases o with
    | accepts room =>
      have hsplit : p.remaining.take (room + 1) ++ (p.sent (room + 1)).remaining = p.remaining := by
        rw [BufferList.remaining_sent, List.take_append_drop]
      simp only [Socket.sendPacket] at h
      split at h <;> obtain ⟨rfl, rfl⟩ := Prod.mk.inj (Option.some.inj h)
      · rename_i hempty
        have hnext : (FlushPc.next b ps).held = packetBytes ps := by
          cases ps <;> cases b <;> rfl
        rw [(BufferList.empty_iff _).1 hempty, List.append_nil] at hsplit
        refine ⟨?_, rfl, rfl⟩
        rw [hnext, hsplit, List.append_assoc]
        rfl
      · have hheld : ((if b = true then FlushPc.putBack (p.sent (room + 1) :: ps)
            else .startStore (p.sent (room + 1) :: ps))).held = (p.sent (room + 1)).remaining ++ packetBytes ps := by
          cases b <;> rfl
        refine ⟨?_, rfl, rfl⟩
        rw [hheld, List.append_assoc, ← List.append_assoc _ _ (packetBytes ps), hsplit]
        rfl
    | again =>
      cases b with
      | true => exact absurd rfl (hb rfl)
      | false =>
        obtain ⟨rfl, rfl⟩ := Prod.mk.inj (Option.some.inj h)
        exact ⟨rfl, rfl, rfl⟩
    | fails => exact absurd rfl ho
  | _ => cases h

/-! ### Whose turn it is -/

namespace FlushPc

/-- The user can be here while it is in charge. -/
def UserFlushes : FlushPc → Prop
  | .idle => True
  | .takeSending => True
  | .takeWaiting => True
  | .sendFront _ _ => True
  | .startStore _ => True
  | _ => False

/-- The user can be here while the poller has the lock of the waiting queue. -/
def UserWaits : FlushPc → Prop
  | .idle => True
  | .takeSending => True
  | .takeWaiting => True
  | _ => False

private theorem UserWaits.userFlushes {pc : FlushPc} (h : pc.UserWaits) : pc.UserFlushes := by
  cases pc <;> first | exact trivial | exact False.elim h

/-- The poller holds packets, or it has found the sending queue empty. -/
def PollerFlushes : FlushPc → Prop
  | .takeWaiting => True
  | .stopStore => True
  | .sendFront _ _ => True
  | .putBack _ => True
  | _ => False

end FlushPc

namespace FlushRace

/-- The user has done with its flush but perhaps for putting back its packets, and then the sending queue is empty. -/
def UserDone (r : FlushRace) : Prop :=
  r.user = .idle ∨ r.user.puttingBack = true ∧ r.socket.sendBufferSending = []

/-- Which thread is in charge of the queues, and how they hand them over. -/
inductive Turn (fd : FD) (r : FlushRace) : Prop
  /-- The write event is not registered, and the user may flush. -/
  | user (events : Nat) (hsendable : r.socket.sendable = true) (hreg : r.socket.Registered fd events [])
      (hevents : events &&& kEventWrite = 0) (hsending : r.socket.sendBufferSending = []) (huser : r.user.UserFlushes)
      (hpoller : r.poller = .idle)
  /-- The poller has set `sendable_` and is about to remove the write event. -/
  | stopping (events : Nat) (hsendable : r.socket.sendable = true) (hreg : r.socket.Registered fd events [])
      (hsending : r.socket.sendBufferSending = []) (huser : r.user.UserWaits) (hpoller : r.poller = .stopModify)
  /-- The user has reset `sendable_` and is about to post the write event. -/
  | starting (events : Nat) (tmp : List BufferList) (hsendable : r.socket.sendable = false)
      (hreg : r.socket.Registered fd events []) (hevents : events &&& kEventWrite = 0)
      (hsending : r.socket.sendBufferSending = []) (huser : r.user = .startModify tmp) (hpoller : r.poller = .idle)
  /-- The write event is posted. -/
  | posted (events mask : Nat) (hsendable : r.socket.sendable = false)
      (hreg : r.socket.Registered fd events [.modify fd mask]) (hevents : events &&& kEventWrite = 0)
      (hmask : mask &&& kEventWrite ≠ 0) (huser : r.UserDone) (hpoller : r.poller = .idle)
  /-- The write event is registered, and the poller may flush. -/
  | poller (events : Nat) (hsendable : r.socket.sendable = false) (hreg : r.socket.Registered fd events [])
      (hevents : events &&& kEventWrite ≠ 0) (huser : r.UserDone) (hpoller : r.poller = .idle ∨ r.poller = .takeSending)
  | flushing (events : Nat) (hsendable : r.socket.sendable = false) (hreg : r.socket.Registered fd events [])
      (hevents : events &&& kEventWrite ≠ 0) (hsending : r.socket.sendBufferSending = []) (huser : r.user = .idle)
      (hpoller : r.poller.PollerFlushes)

namespace Turn

variable {fd : FD} {r : FlushRace}

/-- A thread of the user that flushes is alone with the packets. -/
private theorem user_alone (h : Turn fd r) (hne : r.user ≠ .idle) :
    r.socket.sendBufferSending = [] ∧ r.poller.held = [] := by
  cases h with
  | user events hsendable hreg hevents hsending huser hpoller => exact ⟨hsending, by rw [hpoller]; rfl⟩
  | stopping events hsendable hreg hsending huser hpoller => exact ⟨hsending, by rw [hpoller]; rfl⟩
  | starting events tmp hsendable hreg hevents hsending huser hpoller => exact ⟨hsending, by rw [hpoller]; rfl⟩
  | posted events mask hsendable hreg hevents hmask huser hpoller =>
    exact ⟨(huser.resolve_left hne).2, by rw [hpoller]; rfl⟩
  | poller events hsendable hreg hevents huser hpoller =>
    refine ⟨(huser.resolve_left hne).2, ?_⟩
    rcases hpoller with hpoller | hpoller <;> rw [hpoller] <;> rfl
  | flushing events hsendable hreg hevents hsending huser hpoller => exact absurd huser hne

private theorem poller_alone (h : Turn fd r) (hne : r.poller ≠ .idle) (htake : r.poller ≠ .takeSending) :
    r.socket.sendBufferSending = [] := by
  cases h with
  | user events hsendable hreg hevents hsending huser hpoller => exact hsending
  | stopping events hsendable hreg hsending huser hpoller => exact hsending
  | starting events tmp hsendable hreg hevents hsending huser hpoller => exact hsending
  | posted events mask hsendable hreg hevents hmask huser hpoller => exact absurd hpoller hne
  | poller events hsendable hreg hevents huser hpoller => exact (hpoller.elim hne htake).elim
  | flushing events hsendable hreg hevents hsending huser hpoller => exact hsending

private theorem of_poller_sendFront (h : Turn fd r) {p : BufferList} {ps : List BufferList}
    (hpc : r.poller = .sendFront p ps) :
    ∃ events, r.socket.sendable = false ∧ r.socket.Registered fd events [] ∧ events &&& kEventWrite ≠ 0 ∧
      r.socket.sendBufferSending = [] ∧ r.user = .idle := by
  cases h with
  | flushing events hsendable hreg hevents hsending huser hpoller =>
    exact ⟨events, hsendable, hreg, hevents, hsending, huser⟩
  | user events hsendable hreg hevents hsending huser hpoller => rw [hpc] at hpoller; cases hpoller
  | stopping events hsendable hreg hsending huser hpoller => rw [hpc] at hpoller; cases hpoller
  | starting events tmp hsendable hreg hevents hsending huser hpoller => rw [hpc] at hpoller; cases hpoller
  | posted events mask hsendable hreg hevents hmask huser hpoller => rw [hpc] at hpoller; cases hpoller
  | poller events hsendable hreg hevents huser hpoller =>
    rcases hpoller with hpoller | hpoller <;> rw [hpc] at hpoller <;> cases hpoller

private theorem user_idle (h : Turn fd r) {p : BufferList} {ps : List BufferList} (hpc : r.poller = .sendFront p ps) :
    r.user = .idle := by
  obtain ⟨events, -, -, -, -, huser⟩ := h.of_poller_sendFront hpc
  exact huser

theorem send (h : Turn fd r) (b : SendBuffer) : Turn fd { r with
    socket := { r.socket with sendBufferWaiting := r.socket.sendBufferWaiting ++ [b] }
    sent := r.sent ++ b.bytes } := by
  cases h with
  | user events hsendable hreg hevents hsending huser hpoller =>
    exact .user events hsendable { hreg with } hevents hsending huser hpoller
  | stopping events hsendable hreg hsending huser hpoller =>
    exact .stopping events hsendable { hreg with } hsending huser hpoller
  | starting events tmp hsendable hreg hevents hsending huser hpoller =>
    exact .starting events tmp hsendable { hreg with } hevents hsending huser hpoller
  | posted events mask hsendable hreg hevents hmask huser hpoller =>
    exact .posted events mask hsendable { hreg with } hevents hmask huser hpoller
  | poller events hsendable hreg hevents huser hpoller =>
    exact .poller events hsendable { hreg with } hevents huser hpoller
  | flushing events hsendable hreg hevents hsending huser hpoller =>
    exact .flushing events hsendable { hreg with } hevents hsending huser hpoller

/-- The user starts to flush when it finds `sendable_` set. -/
theorem flushAll (h : Turn fd r) (hidle : r.user = .idle) (hsendable : r.socket.sendable = true) :
    Turn fd { r with user := .takeSending } := by
  cases h with
  | user events _ hreg hevents hsending huser hpoller =>
    exact .user events hsendable hreg hevents hsending trivial hpoller
  | stopping events _ hreg hsending huser hpoller => exact .stopping events hsendable hreg hsending trivial hpoller
  | starting events tmp _ hreg hevents hsending huser hpoller => rw [hidle] at huser; cases huser
  | posted events mask hno => rw [hno] at hsendable; cases hsendable
  | poller events hno => rw [hno] at hsendable; cases hsendable
  | flushing events hno => rw [hno] at hsendable; cases hsendable

/-- The poller is called for the write event only when it is its turn. -/
theorem writeEvent (h : Turn fd r) (hidle : r.poller = .idle) (hevent : r.socket.writeRegistered = true) :
    Turn fd { r with poller := .takeSending } := by
  have hno : ∀ {events tasks}, r.socket.Registered fd events tasks → events &&& kEventWrite = 0 → False := by
    intro events tasks hreg hevents
    rw [hreg.writeRegistered_eq, hevents] at hevent
    cases hevent
  cases h with
  | user events hsendable hreg hevents => exact (hno hreg hevents).elim
  | stopping events hsendable hreg hsending huser hpoller => rw [hidle] at hpoller; cases hpoller
  | starting events tmp hsendable hreg hevents => exact (hno hreg hevents).elim
  | posted events mask hsendable hreg hevents => exact (hno hreg hevents).elim
  | poller events hsendable hreg hevents huser hpoller => exact .poller events hsendable hreg hevents huser (.inr rfl)
  | flushing events hsendable hreg hevents hsending huser hpoller => rw [hidle] at hpoller; cases hpoller

/-- The task that the user has posted makes it the turn of the poller. -/
theorem runTask (h : Turn fd r) {ok : Bool} {poller : Registry IoCallback} (hidle : r.poller = .idle)
    (hrun : r.socket.poller.runTask ok = some poller) :
    Turn fd { r with socket := { r.socket with poller := poller } } := by
  have hno : ∀ {events}, r.socket.Registered fd events [] → False := by
    intro events hreg
    rw [Registry.runTask, hreg.tasks] at hrun
    cases hrun
  cases h with
  | user events hsendable hreg => exact (hno hreg).elim
  | stopping events hsendable hreg => exact (hno hreg).elim
  | starting events tmp hsendable hreg => exact (hno hreg).elim
  | posted events mask hsendable hreg hevents hmask huser hpoller =>
    exact .poller mask hsendable (hreg.runTask hrun) hmask huser (.inl hidle)
  | poller events hsendable hreg => exact (hno hreg).elim
  | flushing events hsendable hreg => exact (hno hreg).elim

/-- When the user puts its packets back it has done with its flush. -/
private theorem userDone_advance (hdone : r.UserDone) {c : Caller} {type : SockType} {s' : Socket} {pc' : FlushPc}
    (hsec : r.socket.flushSection c type false r.user = some (s', pc')) :
    pc' = .idle ∧ ∃ tmp, s' = { r.socket with sendBufferSending := tmp } := by
  rcases hdone with hidle | ⟨hput, -⟩
  · rw [hidle] at hsec
    cases hsec
  · cases hpc : r.user with
    | putBack tmp =>
      rw [hpc] at hsec
      obtain ⟨rfl, rfl⟩ := Prod.mk.inj (Option.some.inj hsec)
      exact ⟨rfl, tmp, rfl⟩
    | _ => rw [hpc] at hput; cases hput

private theorem advance_user (h : Turn fd r) {type : SockType} {ok : Bool} {s' : Socket} {pc' : FlushPc}
    (hlock : ¬ (r.user = .takeWaiting ∧ r.poller.holdsWaiting = true))
    (hsec : r.socket.flushSection ⟨false, ok⟩ type false r.user = some (s', pc')) :
    Turn fd { r with socket := s', user := pc' } := by
  cases h with
  | user events hsendable hreg hevents hsending huser hpoller =>
    cases hpc : r.user with
    | takeSending =>
      simp only [hpc, Socket.flushSection, hsending] at hsec
      obtain ⟨rfl, rfl⟩ := Prod.mk.inj (Option.some.inj hsec)
      exact .user events hsendable hreg hevents hsending trivial hpoller
    | takeWaiting =>
      simp only [hpc, Socket.flushSection] at hsec
      split at hsec <;> obtain ⟨rfl, rfl⟩ := Prod.mk.inj (Option.some.inj hsec)
      · exact .user events hsendable hreg hevents hsending trivial hpoller
      · exact .user events hsendable { hreg with } hevents hsending trivial hpoller
    | startStore tmp =>
      rw [hpc] at hsec
      obtain ⟨rfl, rfl⟩ := Prod.mk.inj (Option.some.inj hsec)
      exact .starting events tmp rfl { hreg with } hevents hsending rfl hpoller
    | idle => rw [hpc] at hsec; cases hsec
    | sendFront p ps => rw [hpc] at hsec; cases hsec
    | _ => rw [hpc] at huser; cases huser
  | stopping events hsendable hreg hsending huser hpoller =>
    cases hpc : r.user with
    | takeSending =>
      simp only [hpc, Socket.flushSection, hsending] at hsec
      obtain ⟨rfl, rfl⟩ := Prod.mk.inj (Option.some.inj hsec)
      exact .stopping events hsendable hreg hsending trivial hpoller
    -- the poller has the lock that the user needs here
    | takeWaiting => exact absurd ⟨hpc, by rw [hpoller]; rfl⟩ hlock
    | idle => rw [hpc] at hsec; cases hsec
    | _ => rw [hpc] at huser; cases huser
  | starting events tmp hsendable hreg hevents hsending huser hpoller =>
    rw [huser] at hsec
    obtain ⟨rfl, rfl⟩ := Prod.mk.inj (Option.some.inj hsec)
    obtain ⟨-, hq, -, hflag⟩ := Socket.modifyEvent_frame ⟨false, ok⟩ (r.socket.readFlag ||| kEventWrite ||| kEventError)
      r.socket
    -- the event is posted, and the packets are still with the user
    exact .posted events _ (hflag.trans hsendable) (hreg.post ok _) hevents (startMask r.socket)
      (.inr ⟨rfl, hq.trans hsending⟩) hpoller
  | posted events mask hsendable hreg hevents hmask huser hpoller =>
    obtain ⟨rfl, tmp, rfl⟩ := userDone_advance huser hsec
    exact .posted events mask hsendable { hreg with } hevents hmask (.inl rfl) hpoller
  | poller events hsendable hreg hevents huser hpoller =>
    obtain ⟨rfl, tmp, rfl⟩ := userDone_advance huser hsec
    exact .poller events hsendable { hreg with } hevents (.inl rfl) hpoller
  | flushing events hsendable hreg hevents hsending huser hpoller =>
    rw [huser] at hsec
    cases hsec

private theorem advance_poller (h : Turn fd r) {type : SockType} {ok : Bool} {s' : Socket} {pc' : FlushPc}
    (hturn : r.poller = .takeSending → r.user.puttingBack = false)
    (hsec : r.socket.flushSection ⟨true, ok⟩ type true r.poller = some (s', pc')) :
    Turn fd { r with socket := s', poller := pc' } := by
  cases h with
  | user events hsendable hreg hevents hsending huser hpoller =>
    rw [hpoller] at hsec
    cases hsec
  | stopping events hsendable hreg hsending huser hpoller =>
    rw [hpoller] at hsec
    obtain ⟨rfl, rfl⟩ := Prod.mk.inj (Option.some.inj hsec)
    obtain ⟨-, hq, -, hflag⟩ := Socket.modifyEvent_frame ⟨true, ok⟩ (r.socket.readFlag ||| kEventError) r.socket
    exact .user _ (hflag.trans hsendable) (hreg.modify ok _) (stopMask r.socket) (hq.trans hsending) huser.userFlushes rfl
  | starting events tmp hsendable hreg hevents hsending huser hpoller =>
    rw [hpoller] at hsec
    cases hsec
  | posted events mask hsendable hreg hevents hmask huser hpoller =>
    rw [hpoller] at hsec
    cases hsec
  | poller events hsendable hreg hevents huser hpoller =>
    rcases hpoller with hpoller | hpoller
    · rw [hpoller] at hsec
      cases hsec
    · -- the poller takes the sending queue, after the user has put back its packets
      have hidle : r.user = .idle := huser.resolve_right fun hput => by
        rw [hturn hpoller] at hput
        cases hput.1
      simp only [hpoller, Socket.flushSection] at hsec
      split at hsec <;> obtain ⟨rfl, rfl⟩ := Prod.mk.inj (Option.some.inj hsec)
      · rename_i hq
        exact .flushing events hsendable hreg hevents hq hidle trivial
      · exact .flushing events hsendable { hreg with } hevents rfl hidle trivial
  | flushing events hsendable hreg hevents hsending huser hpoller =>
    cases hpc : r.poller with
    | takeWaiting =>
      simp only [hpc, Socket.flushSection] at hsec
      split at hsec <;> obtain ⟨rfl, rfl⟩ := Prod.mk.inj (Option.some.inj hsec)
      · exact .flushing events hsendable hreg hevents hsending huser trivial
      · exact .flushing events hsendable { hreg with } hevents hsending huser trivial
    -- from here on the user may flush, but it stops at the lock of the waiting queue
    | stopStore =>
      rw [hpc] at hsec
      obtain ⟨rfl, rfl⟩ := Prod.mk.inj (Option.some.inj hsec)
      refine .stopping events rfl { hreg with } hsending ?_ rfl
      show r.user.UserWaits
      rw [huser]
      trivial
    | putBack tmp =>
      rw [hpc] at hsec
      obtain ⟨rfl, rfl⟩ := Prod.mk.inj (Option.some.inj hsec)
      exact .poller events hsendable { hreg with } hevents (.inl huser) (.inl rfl)
    | sendFront p ps => rw [hpc] at hsec; cases hsec
    | _ => rw [hpc] at hpoller; cases hpoller

private theorem userDone_ne (hdone : r.UserDone) {p : BufferList} {ps : List BufferList} :
    r.user ≠ .sendFront p ps := by
  intro hpc
  rcases hdone with hidle | ⟨hput, -⟩
  · rw [hpc] at hidle
    cases hidle
  · rw [hpc] at hput
    cases hput

private theorem sendPacket_pc {b : Bool} {o : SendOutcome} {s s' : Socket} {pc pc' : FlushPc}
    (h : s.sendPacket b o pc = some (s', pc')) : ∃ p ps, pc = .sendFront p ps := by
  cases pc with
  | sendFront p ps => exact ⟨p, ps, rfl⟩
  | _ => cases h

private theorem kernel_user (h : Turn fd r) {o : SendOutcome} {s' : Socket} {pc' : FlushPc}
    (hsend : r.socket.sendPacket false o r.user = some (s', pc')) :
    Turn fd { r with socket := s', user := pc' } := by
  obtain ⟨p, ps, hpc⟩ := sendPacket_pc hsend
  cases h with
  | user events hsendable hreg hevents hsending huser hpoller =>
    have hnext : ∀ ps, (FlushPc.next false ps).UserFlushes := by
      intro ps
      cases ps <;> trivial
    rw [hpc] at hsend
    cases o with
    | accepts room =>
      simp only [Socket.sendPacket] at hsend
      split at hsend <;> obtain ⟨rfl, rfl⟩ := Prod.mk.inj (Option.some.inj hsend)
      · exact .user events hsendable { hreg with } hevents hsending (hnext ps) hpoller
      · exact .user events hsendable { hreg with } hevents hsending trivial hpoller
    | again =>
      obtain ⟨rfl, rfl⟩ := Prod.mk.inj (Option.some.inj hsend)
      exact .user events hsendable hreg hevents hsending trivial hpoller
    | fails =>
      obtain ⟨rfl, rfl⟩ := Prod.mk.inj (Option.some.inj hsend)
      exact .user events hsendable hreg hevents hsending trivial hpoller
  | stopping events hsendable hreg hsending huser hpoller => rw [hpc] at huser; cases huser
  | starting events tmp hsendable hreg hevents hsending huser hpoller => rw [hpc] at huser; cases huser
  | posted events mask hsendable hreg hevents hmask huser hpoller => exact (userDone_ne huser hpc).elim
  | poller events hsendable hreg hevents huser hpoller => exact (userDone_ne huser hpc).elim
  | flushing events hsendable hreg hevents hsending huser hpoller => rw [hpc] at huser; cases huser

private theorem kernel_poller (h : Turn fd r) {o : SendOutcome} {s' : Socket} {pc' : FlushPc}
    (hsend : r.socket.sendPacket true o r.poller = some (s', pc')) :
    Turn fd { r with socket := s', poller := pc' } := by
  obtain ⟨p, ps, hpc⟩ := sendPacket_pc hsend
  obtain ⟨events, hsendable, hreg, hevents, hsending, huser⟩ := h.of_poller_sendFront hpc
  rw [hpc] at hsend
  cases o with
  | accepts room =>
    simp only [Socket.sendPacket] at hsend
    split at hsend <;> obtain ⟨rfl, rfl⟩ := Prod.mk.inj (Option.some.inj hsend)
    · cases ps with
      | nil => exact .poller events hsendable { hreg with } hevents (.inl huser) (.inr rfl)
      | cons q qs => exact .flushing events hsendable { hreg with } hevents hsending huser trivial
    · exact .flushing events hsendable { hreg with } hevents hsending huser trivial
  | again =>
    obtain ⟨rfl, rfl⟩ := Prod.mk.inj (Option.some.inj hsend)
    exact .poller events hsendable hreg hevents (.inl huser) (.inl rfl)
  | fails =>
    obtain ⟨rfl, rfl⟩ := Prod.mk.inj (Option.some.inj hsend)
    exact .poller events hsendable hreg hevents (.inl huser) (.inl rfl)

end Turn

/-! ### Runs -/

structure Inv (fd : FD) (r : FlushRace) : Prop where
  turn : Turn fd r
  conserved : r.Conserved

private theorem Opened.inv {fd : FD} {type : SockType} {r : FlushRace} (h : Opened fd type r) : Inv fd r := by
  have hevent := h.registered
  simp only [Socket.writeRegistered, h.sockFd, Option.any_eq_true] at hevent
  obtain ⟨record, hrecord, hwrite⟩ := hevent
  have hreg : r.socket.Registered fd record.events [] := ⟨⟨type, h.sockFd⟩, by rw [hrecord]; rfl, h.tasks⟩
  refine ⟨.poller record.events h.sendable hreg (of_decide_eq_true hwrite) (.inl h.user) (.inl h.poller), ?_⟩
  rw [Conserved, h.user, h.poller, h.sending]
  exact h.sent

theorem Inv.advance {fd : FD} {type : SockType} {r r' : FlushRace} {b ok : Bool} (h : Inv fd r)
    (hturn : TakesInTurn r (.advance b ok)) (hstep : r.step type (.advance b ok) = some r') : Inv fd r' := by
  simp only [step, Option.ite_none_left_eq_some, Option.map_eq_some_iff] at hstep
  obtain ⟨hlock, ⟨s', pc'⟩, hsec, rfl⟩ := hstep
  have hconserved := h.conserved
  have hne : r.pc b ≠ .idle := fun hidle => by
    rw [hidle] at hsec
    cases hsec
  unfold Conserved at hconserved
  cases b with
  | false =>
    obtain ⟨hsending, hheld⟩ := h.turn.user_alone hne
    obtain ⟨hwire, hbytes⟩ := flushSection_bytes hsec fun _ => hsending
    refine ⟨h.turn.advance_user hlock hsec, ?_⟩
    rw [hheld, List.nil_append] at hconserved
    show s'.wire ++ (pc'.held ++ (r.poller.held ++ _)) = r.sent
    rw [hheld, List.nil_append, ← hconserved, hwire]
    exact congrArg (r.socket.wire ++ ·) hbytes
  | true =>
    obtain ⟨hwire, hbytes⟩ := flushSection_bytes hsec (h.turn.poller_alone hne)
    refine ⟨h.turn.advance_poller hturn hsec, ?_⟩
    show s'.wire ++ (r.user.held ++ (pc'.held ++ _)) = r.sent
    rw [← hconserved, hwire]
    exact congrArg (fun bytes => r.socket.wire ++ (r.user.held ++ bytes)) hbytes

theorem Inv.kernel {fd : FD} {type : SockType} {r r' : FlushRace} {b : Bool} {o : SendOutcome} (h : Inv fd r)
    (haccepts : o ≠ .fails) (hturn : TakesInTurn r (.kernel b o)) (hstep : r.step type (.kernel b o) = some r') :
    Inv fd r' := by
  obtain ⟨⟨s', pc'⟩, hsend, rfl⟩ := Option.map_eq_some_iff.1 hstep
  have hconserved := h.conserved
  unfold Conserved at hconserved
  cases b with
  | false =>
    obtain ⟨hwire, hsending, hwaiting⟩ := sendPacket_bytes hsend haccepts nofun
    refine ⟨h.turn.kernel_user hsend, ?_⟩
    show s'.wire ++ (pc'.held ++ (r.poller.held ++ (packetBytes s'.sendBufferSending ++ queueBytes s'.sendBufferWaiting))) =
      r.sent
    rw [← hconserved, hsending, hwaiting, ← List.append_assoc, hwire, List.append_assoc]
    rfl
  | true =>
    obtain ⟨hwire, hsending, hwaiting⟩ := sendPacket_bytes hsend haccepts fun _ => hturn
    obtain ⟨p, ps, hpc⟩ := Turn.sendPacket_pc hsend
    have hheld : r.user.held = [] := by
      rw [h.turn.user_idle hpc]
      rfl
    refine ⟨h.turn.kernel_poller hsend, ?_⟩
    show s'.wire ++ (r.user.held ++ (pc'.held ++ (packetBytes s'.sendBufferSending ++ queueBytes s'.sendBufferWaiting))) =
      r.sent
    rw [← hconserved, hheld, List.nil_append, List.nil_append, hsending, hwaiting, ← List.append_assoc, hwire,
      List.append_assoc]
    rfl

theorem Inv.step {fd : FD} {type : SockType} (r : FlushRace) (a : RaceAction) (r' : FlushRace) (h : Inv fd r)
    (hok : a.KernelAccepts ∧ TakesInTurn r a) (hstep : r.step type a = some r') : Inv fd r' := by
  obtain ⟨haccepts, hturn⟩ := hok
  have hconserved := h.conserved
  cases a with
  | send b =>
    simp only [FlushRace.step, Option.ite_none_left_eq_some, Option.some.injEq] at hstep
    obtain ⟨-, rfl⟩ := hstep
    refine ⟨h.turn.send b, ?_⟩
    unfold Conserved at hconserved ⊢
    simp only [← hconserved, queueBytes_append, queueBytes_cons, queueBytes_nil, List.append_nil, List.append_assoc]
  | flushAll =>
    simp only [FlushRace.step, Option.ite_none_right_eq_some, Option.some.injEq] at hstep
    obtain ⟨hidle, rfl⟩ := hstep
    split
    · rename_i hopen
      refine ⟨h.turn.flushAll hidle (Bool.and_eq_true_iff.1 hopen).2, ?_⟩
      rw [Conserved, hidle] at hconserved
      exact hconserved
    · exact h
  | writeEvent =>
    simp only [FlushRace.step, Option.ite_none_right_eq_some, Option.some.injEq] at hstep
    obtain ⟨⟨hidle, hevent⟩, rfl⟩ := hstep
    refine ⟨h.turn.writeEvent hidle hevent, ?_⟩
    rw [Conserved, hidle] at hconserved
    exact hconserved
  | runTask ok =>
    simp only [FlushRace.step, Option.ite_none_right_eq_some, Option.map_eq_some_iff] at hstep
    obtain ⟨hidle, poller, hrun, rfl⟩ := hstep
    exact ⟨h.turn.runTask hidle hrun, hconserved⟩
  | advance b ok => exact h.advance hturn hstep
  | kernel b o => exact h.kernel haccepts hturn hstep

theorem Inv.safe {fd : FD} {r : FlushRace} (h : Inv fd r) : Safe r := by
  have hconserved := h.conserved
  refine ⟨hconserved, ?_, ?_⟩
  · intro b p ps hpc
    rw [← hconserved]
    cases b with
    | false =>
      have hheld : r.user.held = p.remaining ++ packetBytes ps := by
        rw [show r.user = .sendFront p ps from hpc]
        rfl
      rw [hheld, List.prefix_append_right_inj, List.append_assoc]
      exact List.prefix_append _ _
    | true =>
      have hheld : r.poller.held = p.remaining ++ packetBytes ps := by
        rw [show r.poller = .sendFront p ps from hpc]
        rfl
      have hidle : r.user.held = [] := by
        rw [h.turn.user_idle hpc]
        rfl
      rw [hheld, hidle, List.prefix_append_right_inj, List.nil_append, List.append_assoc]
      exact List.prefix_append _ _
  · intro huser hpoller htasks hleft
    cases h.turn with
    | user events _ _ _ hsending => exact absurd hsending hleft
    | stopping events _ _ hsending => exact absurd hsending hleft
    | starting events tmp _ _ _ hsending => exact absurd hsending hleft
    | posted events mask _ hreg =>
      rw [hreg.tasks] at htasks
      cases htasks
    | poller events _ hreg hevents => rw [hreg.writeRegistered_eq, decide_eq_true hevents]
    | flushing events _ _ _ hsending => exact absurd hsending hleft

/-- If the threads take turns, then after every run, and so in every state that it passes through, no byte has been lost
or reordered and left over packets have the write event. -/
theorem flush_race_safe {fd : FD} {type : SockType} {r₀ r : FlushRace} {as : List RaceAction} (h₀ : Opened fd type r₀)
    (hrun : Transition.exec (step type) r₀ as = some r) (haccepts : ∀ a ∈ as, a.KernelAccepts)
    (hturns : Transition.Along (step type) TakesInTurn r₀ as) : Safe r := by
  have hok : Transition.Along (step type) (fun r a => a.KernelAccepts ∧ TakesInTurn r a) r₀ as :=
    Transition.along_and (Transition.along_of_forall_mem haccepts r₀) hturns
  exact (Transition.exec_invariant_along Inv.step h₀.inv hok hrun).safe

/-- A UDP socket on the descriptor 5, bound on the thread of the poller. -/
def raceStart : FlushRace :=
  ⟨((Socket.closed ⟨.empty, []⟩).bindUdpSocket ⟨true, true⟩ (some 5)).1, .idle, .idle, []⟩

private theorem raceStart_opened : Opened 5 .udp raceStart := ⟨rfl, rfl, rfl, rfl, rfl, rfl, rfl, rfl⟩

/-- The poller finds nothing to send and removes the write event; then the user sends three bytes, of which the kernel
takes one, and posts the write event. -/
def partialSend : List RaceAction :=
  [.writeEvent, .advance true true, .advance true true, .advance true true, .advance true true,
    .send ⟨[1, 2, 3], none, by decide⟩, .flushAll, .advance false true, .advance false true, .kernel false (.accepts 0),
    .advance false true, .advance false true, .runTask true]

/-- The user puts the other bytes back, and the poller sends them. -/
def resumedRun : List RaceAction :=
  partialSend ++ [.advance false true, .writeEvent, .advance true true, .kernel true (.accepts 1)]

theorem flush_race_safe_resumedRun :
    ∃ r, Transition.exec (step .udp) raceStart resumedRun = some r ∧ Safe r :=
  ⟨_, rfl, @flush_race_safe 5 .udp raceStart _ resumedRun raceStart_opened rfl (by decide)
    (by decide)⟩

/-- The poller looks into the queues before the user has put the other bytes back. -/
def overtakenRun : List RaceAction :=
  partialSend ++ [.writeEvent, .advance true true, .advance true true, .advance true true, .advance true true,
    .advance false true]

theorem left_over_without_event :
    Opened 5 .udp raceStart ∧ (∀ a ∈ overtakenRun, a.KernelAccepts) ∧
      ∃ r, Transition.exec (step .udp) raceStart overtakenRun = some r ∧ r.user = .idle ∧ r.poller = .idle ∧
        r.socket.poller.tasks = [] ∧ packetBytes r.socket.sendBufferSending = [2, 3] ∧
        r.socket.writeRegistered = false ∧ ¬ Safe r := by
  refine ⟨raceStart_opened, by decide, _, rfl, rfl, rfl, rfl, rfl, rfl, fun h => ?_⟩
  exact Bool.false_ne_true (h.resumed rfl rfl rfl nofun)

end FlushRace

end AvcTool
