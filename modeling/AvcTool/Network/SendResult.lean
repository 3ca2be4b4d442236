import AvcTool.Lib.Transition
import AvcTool.Network.EntryQueue

/-!
# What the result of `send` says about the buffer

A caller that gets -1 from `send` will send the data again.  It may do so only if the buffer is gone: if no queue holds
it and none of its bytes is ever transmitted (`Honest`).  `send_l` queues the buffer before it calls `flushAll`, and
`flushAll` returns -1 not only for an error, but also for a socket that has no descriptor or is not writable, and after
an error it loses the packets that were being sent and not those that wait.

`NumberedSocket` gives the buffer of each call of `send` the number of the call.  The exact condition under which the
result is honest is `ReportsWell`.
-/

namespace AvcTool

/-- A buffer in the send queues. -/
structure Entry where
  /-- the number of the call of `send` -/
  id : Nat
  buffer : SendBuffer
  deriving DecidableEq

structure NumberedSocket where
  socket : EntrySocket Entry
  next : Nat
  deriving DecidableEq

/-- What can happen to the queues of a socket. -/
inductive SocketAction where
  | send (bytes : Bytes) (dst : Option SockAddr) (tryFlush : Bool) (script : List SendOutcome)
  | flush (isEventPollerThread : Bool) (script : List SendOutcome)
  | closeSocket
  | bindUdpSocket
  deriving DecidableEq

namespace NumberedSocket

def init : NumberedSocket := ⟨.closed, 0⟩

/-- `send_l`; the kernel has given exactly the answers `script`. -/
def send (r : NumberedSocket) (bytes : Bytes) (dst : Option SockAddr) (tryFlush : Bool) (script : List SendOutcome) :
    Option (NumberedSocket × Int) :=
  if h : bytes = [] then if script = [] then some (r, 0) else none
  else
    match r.socket.sendL (bufferSize Entry.buffer) ⟨r.next, ⟨bytes, dst, h⟩⟩ tryFlush script with
    | some (s, [], ret) => some (⟨s, r.next + 1⟩, ret)
    | _ => none

def flush (r : NumberedSocket) (isEventPollerThread : Bool) (script : List SendOutcome) : Option NumberedSocket :=
  if r.socket.isOpen then
    match r.socket.flushData (bufferSize Entry.buffer) isEventPollerThread script with
    | some (s, [], _) => some { r with socket := s }
    | _ => none
  else none

def step (r : NumberedSocket) : SocketAction → Option NumberedSocket
  | .send bytes dst tryFlush script => (r.send bytes dst tryFlush script).map Prod.fst
  | .flush isEventPollerThread script => r.flush isEventPollerThread script
  | .closeSocket => some { r with socket := r.socket.closeSocket }
  | .bindUdpSocket => some { r with socket := r.socket.fromSockFd }

/-- The entries in the queues and on the wire have numbers with the property `p`. -/
def Numbered (p : Nat → Prop) (r : NumberedSocket) : Prop :=
  r.socket.Within fun e => p e.id

/-- The result of the call of `send` that leads from `r` to `r'`. -/
structure Honest (r r' : NumberedSocket) (bytes : Bytes) (ret : Int) : Prop where
  /-- no later state has an entry of this call in a queue, or one of its bytes on the wire -/
  failed : ret = -1 → ∀ as t, Transition.exec step r' as = some t → t.Numbered (· ≠ r.next)
  /-- the bytes of the buffer, and no others, have come to what is queued or sent -/
  accepted : 0 < ret → ret = bytes.length ∧ ∃ e : Entry, e.id = r.next ∧ e.buffer.bytes = bytes ∧
    r'.socket.wire ++ r'.socket.pending (bufferSize Entry.buffer) =
      r.socket.wire ++ r.socket.pending (bufferSize Entry.buffer) ++ List.replicate bytes.length e

/-- The size survives the conversion to `int`, as far as it could be taken for an error or for another size. -/
def SizeFits (n : Nat) : Prop :=
  (n : Int).bmod (2 ^ 32) ≠ -1 ∧ (0 < (n : Int).bmod (2 ^ 32) → (n : Int).bmod (2 ^ 32) = n)

/-- A flush is possible, and if it meets an error, the buffer is among the packets that it loses. -/
def ReportsWell (r : NumberedSocket) (bytes : Bytes) : Bool → List SendOutcome → Prop
  | false, _ => bytes = [] ∨ SizeFits bytes.length
  | true, script => bytes = [] ∨ r.socket.isOpen = true ∧ r.socket.sendable = true ∧
      (.fails ∈ script ∧ r.socket.sending = [] ∨ .fails ∉ script ∧ SizeFits bytes.length)

/-! ### The numbers -/

private theorem send_cases {r r' : NumberedSocket} {bytes : Bytes} {dst : Option SockAddr} {tryFlush : Bool}
    {script : List SendOutcome} {ret : Int} (h : r.send bytes dst tryFlush script = some (r', ret)) :
    (bytes = [] ∧ r' = r ∧ ret = 0) ∨
      ∃ hne : bytes ≠ [], r.socket.sendL (bufferSize Entry.buffer) ⟨r.next, ⟨bytes, dst, hne⟩⟩ tryFlush script =
        some (r'.socket, [], ret) ∧ r'.next = r.next + 1 := by
  unfold send at h
  by_cases hempty : bytes = []
  · rw [dif_pos hempty] at h
    obtain ⟨-, heq⟩ := Option.ite_none_right_eq_some.1 h
    obtain ⟨rfl, rfl⟩ := Prod.mk.inj (Option.some.inj heq)
    exact .inl ⟨hempty, rfl, rfl⟩
  · rw [dif_neg hempty] at h
    split at h
    · rename_i s ret' hsend
      obtain ⟨rfl, rfl⟩ := Prod.mk.inj (Option.some.inj h)
      exact .inr ⟨hempty, hsend, rfl⟩
    · cases h

private theorem next_le_of_step {r t : NumberedSocket} {a : SocketAction} (h : r.step a = some t) :
    r.next ≤ t.next := by
  cases a with
  | send bytes dst tryFlush script =>
    obtain ⟨⟨t, ret⟩, hsend, rfl⟩ := Option.map_eq_some_iff.1 h
    rcases send_cases hsend with ⟨-, rfl, -⟩ | ⟨-, -, hnext⟩
    · exact Nat.le_refl _
    · simp only
      omega
  | flush isEventPollerThread script =>
    obtain ⟨-, hflush⟩ := Option.ite_none_right_eq_some.1 h
    split at hflush
    · obtain rfl := Option.some.inj hflush
      exact Nat.le_refl _
    · cases hflush
  | closeSocket =>
    obtain rfl := Option.some.inj h
    exact Nat.le_refl _
  | bindUdpSocket =>
    obtain rfl := Option.some.inj h
    exact Nat.le_refl _

private theorem numbered_step {p : Nat → Prop} {r t : NumberedSocket} {a : SocketAction} (h : r.step a = some t)
    (hr : r.Numbered p) (hnext : r.next < t.next → p r.next) : t.Numbered p := by
  cases a with
  | send bytes dst tryFlush script =>
    obtain ⟨⟨t, ret⟩, hsend, rfl⟩ := Option.map_eq_some_iff.1 h
    rcases send_cases hsend with ⟨-, rfl, -⟩ | ⟨hne, hsendL, heq⟩
    · exact hr
    · refine EntrySocket.within_sendL hsendL hr (hnext ?_)
      simp only
      omega
  | flush isEventPollerThread script =>
    obtain ⟨-, hflush⟩ := Option.ite_none_right_eq_some.1 h
    split at hflush
    · rename_i s ret hdata
      obtain rfl := Option.some.inj hflush
      exact EntrySocket.within_flushData hdata hr
    · cases hflush
  | closeSocket =>
    obtain rfl := Option.some.inj h
    exact EntrySocket.within_closeSocket hr
  | bindUdpSocket =>
    obtain rfl := Option.some.inj h
    exact EntrySocket.within_fromSockFd hr

private theorem numbered_lt_exec {r : NumberedSocket} {as : List SocketAction}
    (h : Transition.exec step init as = some r) : r.Numbered (· < r.next) := by
  have hstep : ∀ (r : NumberedSocket) (a : SocketAction) (t : NumberedSocket), r.Numbered (· < r.next) →
      r.step a = some t → t.Numbered (· < t.next) := by
    intro r a t hr hst
    have hle := next_le_of_step hst
    exact numbered_step hst (hr.mono fun e he => Nat.lt_of_lt_of_le he hle) id
  have hinit : init.Numbered (· < init.next) := .of_queues (List.forall_mem_nil _) (List.forall_mem_nil _)
    (List.forall_mem_nil _)
  exact Transition.exec_invariant hstep hinit h

/-- An entry that is gone does not come back. -/
private theorem numbered_ne_exec {i : Nat} {r t : NumberedSocket} {as : List SocketAction} (hlt : i < r.next)
    (hr : r.Numbered (· ≠ i)) (h : Transition.exec step r as = some t) : t.Numbered (· ≠ i) := by
  have hstep : ∀ (r : NumberedSocket) (a : SocketAction) (t : NumberedSocket), i < r.next ∧ r.Numbered (· ≠ i) →
      r.step a = some t → i < t.next ∧ t.Numbered (· ≠ i) := by
    rintro r a t ⟨hlt, hr⟩ hst
    exact ⟨Nat.lt_of_lt_of_le hlt (next_le_of_step hst), numbered_step hst hr fun _ => Nat.ne_of_gt hlt⟩
  exact (Transition.exec_invariant hstep ⟨hlt, hr⟩ h).2

/-! ### One call of `send` -/

section Send

variable {r r' : NumberedSocket} {bytes : Bytes} {ret : Int}

private theorem not_honest_of_queued {e : Entry} (hid : e.id = r.next) (he : e ∈ r'.socket.entries) :
    ¬ Honest r r' bytes (-1) := by
  intro hhonest
  exact (hhonest.failed rfl [] r' rfl).entries e he hid

private theorem honest_of_lost (hr : r.Numbered (· < r.next)) (hnext : r'.next = r.next + 1)
    (hentries : r'.socket.entries = []) (hwire : r'.socket.wire = r.socket.wire) : Honest r r' bytes (-1) := by
  have hgone : r'.Numbered (· ≠ r.next) := by
    refine ⟨fun e he => ?_, fun e he => ?_⟩
    · rw [hentries] at he
      cases he
    · rw [hwire] at he
      exact Nat.ne_of_lt (hr.wire e he)
  exact ⟨fun _ as t hrun => numbered_ne_exec (by omega) hgone hrun, fun hpos => absurd hpos (by decide)⟩

private theorem honest_kept_iff {e : Entry} (hid : e.id = r.next) (hbytes : e.buffer.bytes = bytes)
    (hkept : r'.socket.wire ++ r'.socket.pending (bufferSize Entry.buffer) =
      r.socket.wire ++ r.socket.pending (bufferSize Entry.buffer) ++ List.replicate bytes.length e) :
    Honest r r' bytes ((bytes.length : Int).bmod (2 ^ 32)) ↔ SizeFits bytes.length := by
  constructor
  · intro hhonest
    refine ⟨fun hret => ?_, fun hpos => (hhonest.accepted hpos).1⟩
    have hgone := hhonest.failed hret [] r' rfl
    have hlen : bytes.length ≠ 0 := by
      rw [← hbytes]
      exact fun hzero => e.buffer.nonempty (List.eq_nil_of_length_eq_zero hzero)
    have hmem : e ∈ r'.socket.wire ++ r'.socket.pending (bufferSize Entry.buffer) := by
      rw [hkept]
      exact List.mem_append_right _ (List.mem_replicate.2 ⟨hlen, rfl⟩)
    rcases List.mem_append.1 hmem with hmem | hmem
    · exact hgone.wire e hmem hid
    · exact hgone.entries e (EntrySocket.mem_entries_of_mem_pending hmem) hid
  · rintro ⟨hne, hsize⟩
    exact ⟨fun hret => absurd hret hne, fun hpos => ⟨hsize hpos, e, hid, hbytes, hkept⟩⟩

end Send

/-- The queues after the buffer of a call of `send` has come to them. -/
def enqueued (r : NumberedSocket) (e : Entry) : EntrySocket Entry :=
  { r.socket with waiting := r.socket.waiting ++ [e] }

private theorem mem_enqueued (r : NumberedSocket) (e : Entry) : e ∈ (r.enqueued e).entries :=
  EntrySocket.mem_entries.2 (.inr (List.mem_append_right _ (List.mem_singleton.2 rfl)))

private theorem enqueued_bytes (r : NumberedSocket) (e : Entry) :
    (r.enqueued e).wire ++ (r.enqueued e).pending (bufferSize Entry.buffer) =
      r.socket.wire ++ r.socket.pending (bufferSize Entry.buffer) ++ List.replicate e.buffer.bytes.length e := by
  simp [enqueued, EntrySocket.pending, bufferSize]

/-- The flush in `send`, with each of the ways that it can go. -/
private theorem honest_flushAll_iff {r r' : NumberedSocket} {e : Entry} {script : List SendOutcome} {flushed : Int}
    (hr : r.Numbered (· < r.next)) (hid : e.id = r.next) (hnext : r'.next = r.next + 1)
    (hflush : (r.enqueued e).flushAll (bufferSize Entry.buffer) script = some (r'.socket, [], flushed)) :
    Honest r r' e.buffer.bytes (if flushed = -1 then -1 else (e.buffer.bytes.length : Int).bmod (2 ^ 32)) ↔
      ReportsWell r e.buffer.bytes true script := by
  have hlast := r.mem_enqueued e
  rw [ReportsWell, or_iff_right e.buffer.nonempty]
  unfold EntrySocket.flushAll at hflush
  by_cases hopen : r.socket.isOpen = true
  · rw [if_pos (show (r.enqueued e).isOpen = true from hopen)] at hflush
    by_cases hsendable : r.socket.sendable = true
    · rw [if_pos (show (r.enqueued e).sendable = true from hsendable)] at hflush
      have huser := EntrySocket.flushData_user hflush
      rw [and_iff_right hopen, and_iff_right hsendable]
      by_cases hfails : .fails ∈ script
      · obtain ⟨rfl, hsending, hlost, hkept⟩ := huser.failed hfails
        rw [if_pos rfl, and_iff_right hfails, or_iff_left (fun h => h.1 hfails)]
        by_cases hempty : r.socket.sending = []
        · -- the buffer is in the only packet, which is lost
          obtain ⟨hwaiting, hwire⟩ := hlost hempty
          have hentries : r'.socket.entries = [] := by
            rw [EntrySocket.entries, hsending, hwaiting]
            rfl
          exact ⟨fun _ => hempty, fun _ => honest_of_lost hr hnext hentries hwire⟩
        · -- the packets before it are lost, and the buffer stays
          have he : e ∈ r'.socket.entries := by
            refine EntrySocket.mem_entries.2 (.inr ?_)
            rw [hkept hempty]
            exact List.mem_append_right _ (List.mem_singleton.2 rfl)
          exact ⟨fun hhonest => absurd hhonest (not_honest_of_queued hid he), fun h => absurd h hempty⟩
      · obtain ⟨rfl, hbytes⟩ := huser.ok hfails
        rw [if_neg (by decide), or_iff_right (fun h => hfails h.1), and_iff_right hfails]
        rw [enqueued_bytes] at hbytes
        exact honest_kept_iff hid rfl hbytes
    · rw [if_neg (show ¬ (r.enqueued e).sendable = true from hsendable)] at hflush
      obtain ⟨hsocket, hret⟩ := Prod.mk.inj (Option.some.inj hflush)
      obtain rfl := (Prod.mk.inj hret).2
      rw [hsocket] at hlast
      rw [if_pos rfl]
      exact ⟨fun hhonest => absurd hhonest (not_honest_of_queued hid hlast), fun h => absurd h.2.1 hsendable⟩
  · rw [if_neg (show ¬ (r.enqueued e).isOpen = true from hopen)] at hflush
    obtain ⟨hsocket, hret⟩ := Prod.mk.inj (Option.some.inj hflush)
    obtain rfl := (Prod.mk.inj hret).2
    rw [hsocket] at hlast
    rw [if_pos rfl]
    exact ⟨fun hhonest => absurd hhonest (not_honest_of_queued hid hlast), fun h => absurd h.1 hopen⟩

private theorem honest_sendL_iff {r r' : NumberedSocket} {e : Entry} {tryFlush : Bool} {script : List SendOutcome}
    {ret : Int} (hr : r.Numbered (· < r.next)) (hid : e.id = r.next) (hnext : r'.next = r.next + 1)
    (hsend : r.socket.sendL (bufferSize Entry.buffer) e tryFlush script = some (r'.socket, [], ret)) :
    Honest r r' e.buffer.bytes ret ↔ ReportsWell r e.buffer.bytes tryFlush script := by
  unfold EntrySocket.sendL at hsend
  cases tryFlush with
  | false =>
    obtain ⟨hsocket, hret⟩ := Prod.mk.inj (Option.some.inj hsend)
    obtain rfl := (Prod.mk.inj hret).2
    have hbytes := r.enqueued_bytes e
    rw [show r.enqueued e = r'.socket from hsocket] at hbytes
    exact (honest_kept_iff hid rfl hbytes).trans (or_iff_right e.buffer.nonempty).symm
  | true =>
    obtain ⟨⟨s, left, flushed⟩, hflush, heq⟩ := Option.map_eq_some_iff.1 hsend
    obtain ⟨rfl, hret⟩ := Prod.mk.inj heq
    obtain ⟨rfl, rfl⟩ := Prod.mk.inj hret
    exact honest_flushAll_iff hr hid hnext hflush

/-! ### Main results -/

/-- In every state that a socket can reach, the result of `send` is honest if and only if `ReportsWell` holds. -/
theorem send_honest_iff (as : List SocketAction) (r r' : NumberedSocket) (bytes : Bytes) (dst : Option SockAddr)
    (tryFlush : Bool) (script : List SendOutcome) (ret : Int) (hrun : Transition.exec step init as = some r)
    (hsend : r.send bytes dst tryFlush script = some (r', ret)) :
    Honest r r' bytes ret ↔ ReportsWell r bytes tryFlush script := by
  have hr := numbered_lt_exec hrun
  rcases send_cases hsend with ⟨hempty, rfl, rfl⟩ | ⟨hne, hsendL, hnext⟩
  · have hwell : ReportsWell r' bytes tryFlush script := by
      cases tryFlush with
      | false => exact .inl hempty
      | true => exact .inl hempty
    exact ⟨fun _ => hwell, fun _ => ⟨fun hret => absurd hret (by decide), fun hpos => absurd hpos (by decide)⟩⟩
  · exact honest_sendL_iff hr rfl hnext hsendL

/-- A socket that is open and writable sends two bytes. -/
theorem send_honest_iff_writable :
    Honest ⟨⟨true, true, [], [], []⟩, 0⟩
      ⟨⟨true, true, [], [], [⟨0, [1, 2], none, by decide⟩, ⟨0, [1, 2], none, by decide⟩]⟩, 1⟩ [1, 2] 2 := by
  have hrun : Transition.exec step init [.bindUdpSocket, .flush true []] = some ⟨⟨true, true, [], [], []⟩, 0⟩ := rfl
  refine (send_honest_iff _ _ _ [1, 2] none true [.accepts 1] 2 hrun rfl).2 ?_
  have hsize : SizeFits 2 := ⟨by decide, fun _ => by decide⟩
  exact .inr ⟨rfl, rfl, .inr ⟨by decide, hsize⟩⟩

/-- A socket without a descriptor returns -1 and keeps the buffer. -/
theorem failed_send_queued :
    ∃ r, init.send [1, 2] none true [] = some (r, -1) ∧
      r.socket.waiting.map (·.buffer.bytes) = [[1, 2]] ∧ ¬ Honest init r [1, 2] (-1) := by
  refine ⟨⟨⟨false, false, [⟨0, [1, 2], none, by decide⟩], [], []⟩, 1⟩, rfl, rfl, ?_⟩
  exact not_honest_of_queued (e := ⟨0, [1, 2], none, by decide⟩) rfl (by decide)

end NumberedSocket

end AvcTool
