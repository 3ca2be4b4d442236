import Mathlib.Data.List.TakeWhile
import AvcTool.Network.Datagrams
import AvcTool.Network.Receive

/-!
# Sockets that send datagrams to each other

Any number of UDP sockets send to each other over a network that may lose, repeat and reorder datagrams; it makes none
up.  A socket sends through the queues of `Datagrams` and receives with `onReadable`.  All sockets of a poller read into
the same buffer, which stays for as long as an `on_read_` holds on to it.

Each socket puts its datagrams on the wire in the order of the calls of `send`, and none of them twice.  What an
`on_read_` is given always is the beginning of one datagram that was sent to its socket: nothing of another datagram
shows, though the buffer may still hold one (`CutOf`).  It is the whole datagram in the runs in which every datagram
fits the buffer that the call before it leaves (`TurnFits`).  A handler may do to the buffer what it likes, and leave a
block that is too small for the next datagram; the runs end before bytes are written outside of it.
-/

namespace AvcTool

structure Datagram (ι : Type*) where
  /-- datagrams with the same bytes are told apart -/
  number : Nat
  dst : ι
  content : Bytes
  deriving DecidableEq

/-- The datagrams that the kernel does not take, each time that they are offered.  The length field of a UDP datagram
has 16 bits. -/
structure UdpKernel (ι : Type*) where
  rejects : ι → Datagram ι → Bool
  rejects_of_long : ∀ i e, 65535 < e.content.length → rejects i e = true

/-- What a socket has for `recvfrom`; a datagram comes with the socket that has sent it. -/
inductive Arrival (ι : Type*) where
  | interrupted
  | datagram (src : ι) (e : Datagram ι)
  | fails
  deriving DecidableEq

/-- The arrival as `onReadable` meets it. -/
def Arrival.event {ι : Type*} : Arrival ι → RecvEvent
  | .interrupted => .interrupted
  | .datagram _ e => .datagram e.content
  | .fails => .fails

/-- The datagrams that arrive, each with its source. -/
def Arrival.arrived {ι : Type*} (es : List (Arrival ι)) : List (ι × Datagram ι) :=
  es.filterMap fun
    | .datagram src e => some (src, e)
    | _ => none

structure UdpSystem (ι π : Type*) where
  sockets : ι → Datagrams (Datagram ι)
  /-- the shared buffer of each poller, while it is alive -/
  buffers : π → Option BufferRaw
  /-- the calls of `on_read_` of each socket -/
  calls : ι → List OnReadCall
  /-- the datagrams that these calls were made for -/
  sources : ι → List (ι × Datagram ι)

inductive UdpAction (ι π : Type*) where
  | send (i : ι) (e : Datagram ι)
  | flush (i : ι) (isEventPollerThread again : Bool)
  | readable (i : ι) (alloc : Alloc) (enableRecv : Bool) (onRead : Nat → OnReadRun) (es : List (Arrival ι))
  /-- the last reference to the shared buffer goes -/
  | expire (p : π)

namespace UdpSystem

variable {ι π : Type*} [DecidableEq ι] [DecidableEq π]

def init : UdpSystem ι π :=
  { sockets := fun _ => .init, buffers := fun _ => none, calls := fun _ => [], sources := fun _ => [] }

/-- `onReadable` of socket `i`, whose poller has the shared buffer `p`, unless it writes outside of the buffer. -/
def receive (s : UdpSystem ι π) (i : ι) (p : π) (alloc : Alloc) (enableRecv : Bool) (onRead : Nat → OnReadRun)
    (es : List (Arrival ι)) : Option (UdpSystem ι π) :=
  match onReadable alloc enableRecv onRead (s.buffers p) (es.map Arrival.event) with
  | .ok r =>
    if r.ending = .undefined then none
    else some { s with
      buffers := Function.update s.buffers p (some r.buffer)
      calls := Function.update s.calls i (s.calls i ++ r.calls)
      sources := Function.update s.sources i (s.sources i ++ (Arrival.arrived es).take r.calls.length) }
  -- there is no memory for the buffer
  | .error _ => some s

def step (k : UdpKernel ι) (poller : ι → π) (s : UdpSystem ι π) : UdpAction ι π → Option (UdpSystem ι π)
  | .send i e =>
    (Datagrams.step (·.content.length) (k.rejects i) (s.sockets i) (.send e)).map fun t =>
      { s with sockets := Function.update s.sockets i t }
  | .flush i isEventPollerThread again =>
    (Datagrams.step (·.content.length) (k.rejects i) (s.sockets i) (.flush isEventPollerThread again)).map fun t =>
      { s with sockets := Function.update s.sockets i t }
  | .readable i alloc enableRecv onRead es =>
    -- the network makes up no datagrams
    if ∀ r ∈ Arrival.arrived es, r.2.dst = i ∧ r.2 ∈ (s.sockets r.1).accepted then
      s.receive i (poller i) alloc enableRecv onRead es
    else none
  | .expire p => some { s with buffers := Function.update s.buffers p none }

end UdpSystem

/-- The call is given the beginning of the datagram. -/
structure CutOf (c : OnReadCall) (d : Bytes) : Prop where
  beginning : c.bytes <+: d
  nonempty : c.bytes ≠ []
  size : c.size = c.bytes.length

/-- Every datagram of the turn fits the buffer that the call before it leaves. -/
def UdpSystem.TurnFits {ι π : Type*} (poller : ι → π) (s : UdpSystem ι π) : UdpAction ι π → Prop
  | .readable i alloc _ onRead es => ∀ b, getSharedBuffer alloc (s.buffers (poller i)) = .ok b →
      FitsInTurn onRead 0 b ((Arrival.arrived es).map (·.2.content))
  | .send _ _ | .flush _ _ _ | .expire _ => True

/-! ### One turn of a socket -/

private theorem datagrams_event {ι : Type*} (es : List (Arrival ι)) :
    datagrams (es.map Arrival.event) = (Arrival.arrived es).map (·.2.content) := by
  induction es with
  | nil => rfl
  | cons e es ih =>
    cases e with
    | interrupted => exact ih
    | fails => exact ih
    | datagram src e => exact congrArg (e.content :: ·) ih

/-- What a turn does: its calls are made for the datagrams in their order, and each is given the beginning of its
datagram, or all of it if every datagram fits. -/
structure ReceiveTurn (onRead : Nat → OnReadRun) (i : Nat) (b : BufferRaw) (ds : List Bytes) (r : Received) : Prop where
  buffer : r.buffer.Sized
  cut : List.Forall₂ CutOf r.calls (ds.take r.calls.length)
  whole : FitsInTurn onRead i b ds → r.calls = (ds.take r.calls.length).map OnReadCall.whole

private theorem ReceiveTurn.of_nil {onRead : Nat → OnReadRun} {i : Nat} {b : BufferRaw} {ds : List Bytes} {r : Received}
    (hbuffer : r.buffer.Sized) (hcalls : r.calls = []) : ReceiveTurn onRead i b ds r := by
  refine ⟨hbuffer, ?_, fun _ => ?_⟩
  · rw [hcalls]
    exact .nil
  · rw [hcalls]
    rfl

private theorem turn_onReadableLoop {onRead : Nat → OnReadRun} (es : List RecvEvent) (i : Nat) {b : BufferRaw}
    (hb : b.Sized) (hlen : ∀ d ∈ datagrams es, d.length ≤ socketDefaultBufSize) :
    ReceiveTurn onRead i b (datagrams es) (onReadableLoop onRead i es b) := by
  induction es generalizing i b with
  | nil => exact .of_nil hb rfl
  | cons e es ih =>
    cases e with
    | interrupted => exact ih i hb hlen
    | fails => exact .of_nil hb rfl
    | datagram d =>
      have hds : datagrams (.datagram d :: es) = d :: datagrams es := rfl
      rw [hds] at hlen ⊢
      obtain ⟨hmax, hrest⟩ := List.forall_mem_cons.1 hlen
      rcases Nat.eq_zero_or_pos (min b.recvLength d.length) with hzero | hpos
      · have hstep : onDatagram (onRead i) d b = .eof b := by rw [onDatagram, if_pos hzero]
        rw [onReadableLoop, hstep]
        exact .of_nil hb rfl
      · have hle : min b.recvLength d.length ≤ d.length := Nat.min_le_right _ _
        by_cases hroom : min b.recvLength d.length < b.room
        · have hstep := onDatagram_eq (onRead i) hb rfl hpos hroom
          have hb' := (hb.received hle hroom).leaves (onRead i)
          have hcut : CutOf ⟨min b.recvLength d.length, d.take (min b.recvLength d.length)⟩ d := by
            refine ⟨List.take_prefix _ _, fun hnil => ?_, (List.length_take_of_le hle).symm⟩
            have hlength := congrArg List.length hnil
            rw [List.length_take_of_le hle, List.length_nil] at hlength
            omega
          have hall : b.Fits d → min b.recvLength d.length = d.length := min_recvLength_of_fits hmax
          rw [onReadableLoop, hstep]
          cases hthrow : decide ((onRead i).outcome = .throwsOther) with
          | true =>
            refine ⟨hb', .cons hcut .nil, fun hfits => ?_⟩
            rw [hall hfits.1, List.take_length]
            rfl
          | false =>
            have hturn := ih (i + 1) hb' hrest
            refine ⟨hturn.buffer, .cons hcut hturn.cut, fun hfits => ?_⟩
            have hlater := hturn.whole (by rw [hall hfits.1]; exact hfits.2)
            have hfirst : (⟨min b.recvLength d.length, d.take (min b.recvLength d.length)⟩ : OnReadCall) = .whole d := by
              rw [hall hfits.1, List.take_length]
              rfl
            exact congrArg₂ List.cons hfirst hlater
        · have hstep : onDatagram (onRead i) d b = .undefined b := by
            rw [onDatagram, if_neg (Nat.ne_of_gt hpos), if_pos (Nat.not_lt.1 hroom)]
          rw [onReadableLoop, hstep]
          exact .of_nil hb rfl

private theorem turn_onReadable {alloc : Alloc} {enableRecv : Bool} {onRead : Nat → OnReadRun}
    {shared : Option BufferRaw} {es : List RecvEvent} {r : Received} (hshared : ∀ b ∈ shared, b.Sized)
    (hlen : ∀ d ∈ datagrams es, d.length ≤ socketDefaultBufSize)
    (h : onReadable alloc enableRecv onRead shared es = .ok r) :
    ∃ b, getSharedBuffer alloc shared = .ok b ∧ ReceiveTurn onRead 0 b (datagrams es) r := by
  rw [onReadable] at h
  cases hb : getSharedBuffer alloc shared with
  | error e =>
    rw [hb] at h
    cases h
  | ok b =>
    rw [hb] at h
    have hb' : b.Sized := getSharedBuffer_sized hshared hb
    cases enableRecv with
    | true =>
      obtain rfl := Except.ok.inj h
      exact ⟨b, rfl, turn_onReadableLoop es 0 hb' hlen⟩
    | false =>
      obtain rfl := Except.ok.inj h
      exact ⟨b, rfl, .of_nil hb' rfl⟩

/-! ### The datagrams of one sender -/

namespace Datagrams

variable {ε : Type*} [DecidableEq ε] {size : ε → Nat} {rejects : ε → Bool}

/-- The datagrams that have been accepted, and then those in the queues, are some of those that `send` has been called
with, in the same order. -/
structure SendsInOrder (rejects : ε → Bool) (s : Datagrams ε) : Prop where
  stuck : s.Stuck rejects
  once : s.queued.Nodup
  order : List.Sublist (s.accepted ++ s.held) s.queued
  taken : ∀ e ∈ s.accepted, rejects e = false

omit [DecidableEq ε] in
theorem SendsInOrder.init : SendsInOrder rejects (init : Datagrams ε) :=
  ⟨.inl rfl, List.nodup_nil, List.Sublist.refl _, List.forall_mem_nil _⟩

omit [DecidableEq ε] in
private theorem rejects_of_mem_front {es : List ε} {e : ε} (he : e ∈ front rejects es) : rejects e = false := by
  simpa using List.mem_takeWhile_imp he

omit [DecidableEq ε] in
private theorem Flushed.sendsInOrder {s t : Datagrams ε} (h : Flushed size rejects s t) (hs : SendsInOrder rejects s) :
    SendsInOrder rejects t := by
  refine ⟨h.stuck, h.queued ▸ hs.once, ?_, ?_⟩
  · have horder := hs.order
    rw [h.held] at horder
    rw [h.accepted, h.queued, List.append_assoc]
    refine List.Sublist.trans (List.Sublist.append_left ?_ _) horder
    exact List.Sublist.append_left (List.sublist_append_right _ _) _
  · intro e he
    rw [h.accepted] at he
    rcases List.mem_append.1 he with hold | hnew
    · exact hs.taken e hold
    · exact rejects_of_mem_front hnew

theorem SendsInOrder.step {s t : Datagrams ε} {a : DatagramAction ε} (hs : SendsInOrder rejects s)
    (h : step size rejects s a = some t) : SendsInOrder rejects t := by
  cases a with
  | send e =>
    obtain ⟨hnew, heq⟩ := Option.ite_none_left_eq_some.1 h
    obtain rfl := Option.some.inj heq
    have hheld : held { s with waiting := s.waiting ++ [e], queued := s.queued ++ [e] } = s.held ++ [e] :=
      (List.append_assoc _ _ _).symm
    refine ⟨hs.stuck, ?_, ?_, hs.taken⟩
    · exact List.nodup_append.2 ⟨hs.once, List.nodup_singleton e, fun a ha b hb heq =>
        hnew (List.mem_singleton.1 hb ▸ heq ▸ ha)⟩
    · rw [hheld, ← List.append_assoc]
      exact List.Sublist.append hs.order (List.Sublist.refl _)
  | flush b again =>
    obtain ⟨u, hu, hgate⟩ := @step_flush ε _ size rejects s hs.stuck b again
    obtain rfl := Option.some.inj (hu.symm.trans h)
    rcases hgate with ⟨-, hflushed⟩ | ⟨-, rfl⟩
    · exact hflushed.sendsInOrder hs
    · exact hs

private theorem accepted_subset_step {s t : Datagrams ε} {a : DatagramAction ε} (hs : SendsInOrder rejects s)
    (h : step size rejects s a = some t) : s.accepted ⊆ t.accepted := by
  cases a with
  | send e =>
    obtain ⟨-, heq⟩ := Option.ite_none_left_eq_some.1 h
    obtain rfl := Option.some.inj heq
    exact List.Subset.refl _
  | flush b again =>
    obtain ⟨u, hu, hgate⟩ := @step_flush ε _ size rejects s hs.stuck b again
    obtain rfl := Option.some.inj (hu.symm.trans h)
    rcases hgate with ⟨-, hflushed⟩ | ⟨-, rfl⟩
    · rw [hflushed.accepted]
      exact List.subset_append_left _ _
    · exact List.Subset.refl _

end Datagrams

/-! ### Whole runs -/

namespace UdpSystem

variable {ι π : Type*} [DecidableEq ι] {k : UdpKernel ι} {poller : ι → π} {s t : UdpSystem ι π}

structure Sound (k : UdpKernel ι) (s : UdpSystem ι π) : Prop where
  sender : ∀ i, (s.sockets i).SendsInOrder (k.rejects i)
  buffer : ∀ p, ∀ b ∈ s.buffers p, b.Sized
  cut : ∀ i, List.Forall₂ (fun c r => CutOf c r.2.content) (s.calls i) (s.sources i)
  sent : ∀ i, ∀ r ∈ s.sources i, r.2.dst = i ∧ r.2 ∈ (s.sockets r.1).accepted

omit [DecidableEq ι] in
theorem Sound.init (k : UdpKernel ι) : Sound k (init : UdpSystem ι π) :=
  ⟨fun _ => .init, by simp [UdpSystem.init], fun _ => .nil, fun _ => List.forall_mem_nil _⟩

/-- A step of the sender of a socket. -/
theorem Sound.send (h : Sound k s) {i : ι} {a : DatagramAction (Datagram ι)} {u : Datagrams (Datagram ι)}
    (hstep : Datagrams.step (·.content.length) (k.rejects i) (s.sockets i) a = some u) :
    Sound k { s with sockets := Function.update s.sockets i u } := by
  refine ⟨fun j => ?_, h.buffer, h.cut, fun j r hr => ?_⟩
  · by_cases hj : j = i
    · subst hj
      simpa using (h.sender j).step hstep
    · simpa [hj] using h.sender j
  · obtain ⟨hdst, haccepted⟩ := h.sent j r hr
    refine ⟨hdst, ?_⟩
    by_cases hsrc : r.1 = i
    · subst hsrc
      simpa using Datagrams.accepted_subset_step (h.sender r.1) hstep haccepted
    · simpa [hsrc] using haccepted

omit [DecidableEq ι] in
/-- The datagrams on the wire are no longer than the buffer. -/
theorem Sound.length_le (h : Sound k s) {i : ι} {e : Datagram ι} (he : e ∈ (s.sockets i).accepted) :
    e.content.length ≤ socketDefaultBufSize := by
  have htaken := (h.sender i).taken e he
  by_contra hlong
  have hrejects := k.rejects_of_long i e (by rw [socketDefaultBufSize] at hlong; omega)
  rw [htaken] at hrejects
  cases hrejects

/-- The calls of each socket are given whole datagrams. -/
def Whole (s : UdpSystem ι π) : Prop :=
  ∀ i, s.calls i = (s.sources i).map fun r => OnReadCall.whole r.2.content

variable [DecidableEq π]

/-- A turn of the receiver of a socket. -/
theorem Sound.receive (h : Sound k s) {i : ι} {p : π} {alloc : Alloc} {enableRecv : Bool} {onRead : Nat → OnReadRun}
    {es : List (Arrival ι)} (hes : ∀ r ∈ Arrival.arrived es, r.2.dst = i ∧ r.2 ∈ (s.sockets r.1).accepted)
    (hstep : s.receive i p alloc enableRecv onRead es = some t) :
    Sound k t ∧
      ((∀ b, getSharedBuffer alloc (s.buffers p) = .ok b →
        FitsInTurn onRead 0 b ((Arrival.arrived es).map (·.2.content))) → s.Whole → t.Whole) := by
  have hlen : ∀ d ∈ datagrams (es.map Arrival.event), d.length ≤ socketDefaultBufSize := by
    intro d hd
    rw [datagrams_event, List.mem_map] at hd
    obtain ⟨r, hr, rfl⟩ := hd
    exact h.length_le (hes r hr).2
  unfold UdpSystem.receive at hstep
  cases hr : onReadable alloc enableRecv onRead (s.buffers p) (es.map Arrival.event) with
  | error e =>
    rw [hr] at hstep
    obtain rfl := Option.some.inj hstep
    exact ⟨h, fun _ hwhole => hwhole⟩
  | ok r =>
    rw [hr] at hstep
    obtain ⟨-, heq⟩ := Option.ite_none_left_eq_some.1 hstep
    obtain rfl := Option.some.inj heq
    obtain ⟨b, hb, hturn⟩ := turn_onReadable (h.buffer p) hlen hr
    rw [datagrams_event] at hturn
    refine ⟨⟨h.sender, fun q c hc => ?_, fun j => ?_, fun j r' hr' => ?_⟩, fun hfits hwhole j => ?_⟩
    · by_cases hq : q = p
      · subst hq
        obtain rfl : r.buffer = c := by simpa using hc
        exact hturn.buffer
      · exact h.buffer q c (by simpa [hq] using hc)
    · by_cases hj : j = i
      · subst hj
        have hcut := hturn.cut
        rw [← List.map_take, List.forall₂_map_right_iff] at hcut
        simpa using List.rel_append (h.cut j) hcut
      · simpa [hj] using h.cut j
    · by_cases hj : j = i
      · subst hj
        simp only [Function.update_self, List.mem_append] at hr'
        rcases hr' with hold | hnew
        · exact h.sent j r' hold
        · exact hes r' (List.mem_of_mem_take hnew)
      · exact h.sent j r' (by simpa [hj] using hr')
    · by_cases hj : j = i
      · subst hj
        have hcalls := hturn.whole (hfits b hb)
        rw [← List.map_take, List.map_map] at hcalls
        simp only [Function.update_self, List.map_append, ← hwhole j]
        exact congrArg (s.calls j ++ ·) hcalls
      · simpa [hj] using hwhole j

theorem sound_step {a : UdpAction ι π} (h : Sound k s) (hstep : s.step k poller a = some t) :
    Sound k t ∧ (s.TurnFits poller a → s.Whole → t.Whole) := by
  cases a with
  | send i e =>
    obtain ⟨u, hu, rfl⟩ := Option.map_eq_some_iff.1 hstep
    exact ⟨h.send hu, fun _ hwhole => hwhole⟩
  | flush i b again =>
    obtain ⟨u, hu, rfl⟩ := Option.map_eq_some_iff.1 hstep
    exact ⟨h.send hu, fun _ hwhole => hwhole⟩
  | readable i alloc enableRecv onRead es =>
    obtain ⟨hes, hreceive⟩ := Option.ite_none_right_eq_some.1 hstep
    exact h.receive hes hreceive
  | expire p =>
    obtain rfl := Option.some.inj hstep
    refine ⟨⟨h.sender, fun q b hb => ?_, h.cut, h.sent⟩, fun _ hwhole => hwhole⟩
    by_cases hq : q = p
    · simp [hq] at hb
    · exact h.buffer q b (by simpa [hq] using hb)

/-- In every run, each socket has put some of the datagrams that it was given on the wire, in the order of the calls of
`send` and each at most once.  Every call of an `on_read_` was made for a datagram that was sent to its socket, and was
given the beginning of it; it was given all of it if every datagram of every turn fits. -/
theorem datagrams_kept_apart (k : UdpKernel ι) (poller : ι → π) (as : List (UdpAction ι π)) (s : UdpSystem ι π)
    (hrun : Transition.exec (step k poller) init as = some s) :
    (∀ i, List.Sublist (s.sockets i).accepted (s.sockets i).queued ∧ (s.sockets i).queued.Nodup) ∧
      (∀ i, List.Forall₂ (fun c r => CutOf c r.2.content) (s.calls i) (s.sources i)) ∧
      (∀ i, ∀ r ∈ s.sources i, r.2.dst = i ∧ r.2 ∈ (s.sockets r.1).accepted) ∧
      (Transition.Along (step k poller) (TurnFits poller) init as →
        ∀ i, s.calls i = (s.sources i).map fun r => OnReadCall.whole r.2.content) := by
  have hsound : Sound k s := Transition.exec_invariant (fun _ _ _ h hstep => (sound_step h hstep).1) (.init k) hrun
  refine ⟨fun i => ⟨?_, (hsound.sender i).once⟩, hsound.cut, hsound.sent, fun hfits => ?_⟩
  · exact List.Sublist.trans (List.sublist_append_left _ _) (hsound.sender i).order
  · have hstep : ∀ (s : UdpSystem ι π) (a : UdpAction ι π) (t : UdpSystem ι π), Sound k s ∧ s.Whole →
        s.TurnFits poller a → s.step k poller a = some t → Sound k t ∧ t.Whole := by
      intro s a t h hok hst
      obtain ⟨hsound, hwhole⟩ := sound_step h.1 hst
      exact ⟨hsound, hwhole hok h.2⟩
    exact (Transition.exec_invariant_along hstep ⟨.init k, fun _ => rfl⟩ hfits hrun).2

/-- A kernel that rejects what is too long. -/
def lengthOnly : UdpKernel Nat where
  rejects _ e := decide (65535 < e.content.length)
  rejects_of_long _ _ h := decide_eq_true h

/-- The first socket sends two datagrams to the second one. -/
def twoSent : List (UdpAction Nat Unit) := [.send 0 ⟨0, 1, [1]⟩, .send 0 ⟨1, 1, [2, 3]⟩, .flush 0 true false]

/-- They arrive the other way round. -/
def twoArrive : List (Arrival Nat) := [.datagram 0 ⟨1, 1, [2, 3]⟩, .interrupted, .datagram 0 ⟨0, 1, [1]⟩]

/-- The second one is shorter, and so whole. -/
private theorem ending_twoArrive {b : BufferRaw} (hb : b.Sized) (hsize : b.size = 0) (hroom : 2 < b.room) :
    (onReadableLoop ignoreAll 0 (twoArrive.map Arrival.event) b).ending = .returns := by
  have hfirst := onDatagram_of_fits (ignoreAll 0) hb (d := [2, 3]) ⟨.inl hsize, hroom⟩ (by decide) (by decide)
  have hroom' : 1 < (b.received 2 [2, 3]).room := by
    rw [BufferRaw.room_received (by decide) hroom]
    omega
  have hsecond := onDatagram_of_fits (ignoreAll 1) (hb.received (d := [2, 3]) (Nat.le_refl 2) hroom) (d := [1])
    ⟨.inr Nat.one_lt_two, hroom'⟩ (by decide) (by decide)
  simp only [twoArrive, List.map_cons, List.map_nil, Arrival.event, onReadableLoop, hfirst, leaves_ignoreAll,
    List.length_cons, List.length_nil, Nat.reduceAdd, hsecond]
  rfl

private theorem onReadable_twoArrive :
    ∃ r, onReadable (.fill 0) true ignoreAll none (twoArrive.map Arrival.event) = .ok r ∧ r.ending = .returns := by
  refine ⟨onReadableLoop ignoreAll 0 (twoArrive.map Arrival.event) newBuffer, ?_, ?_⟩
  · rw [onReadable, getSharedBuffer_fill, Except.map, if_pos rfl]
  · exact ending_twoArrive sized_newBuffer size_newBuffer (by rw [room_newBuffer]; decide)

theorem datagrams_kept_apart_twoSockets :
    ∃ s, Transition.exec (step lengthOnly fun _ => ()) init
        (twoSent ++ [.readable 1 (.fill 0) true ignoreAll twoArrive]) = some s ∧
      List.Forall₂ (fun c r => CutOf c r.2.content) (s.calls 1) (s.sources 1) := by
  have hsent : ∃ s, Transition.exec (step lengthOnly fun _ => ()) init twoSent = some s ∧ s.buffers () = none ∧
      (s.sockets 0).accepted = [⟨0, 1, [1]⟩, ⟨1, 1, [2, 3]⟩] := ⟨_, rfl, rfl, rfl⟩
  obtain ⟨s, hs, hbuffer, haccepted⟩ := hsent
  obtain ⟨r, hr, hend⟩ := onReadable_twoArrive
  have hes : ∀ r ∈ Arrival.arrived twoArrive, r.2.dst = 1 ∧ r.2 ∈ (s.sockets r.1).accepted := by
    simp [Arrival.arrived, twoArrive, haccepted]
  have hstep : (step lengthOnly (fun _ => ()) s (.readable 1 (.fill 0) true ignoreAll twoArrive)).isSome := by
    rw [step, if_pos hes, receive, hbuffer, hr]
    simp only [hend]
    rfl
  obtain ⟨t, ht⟩ := Option.isSome_iff_exists.1 hstep
  have hrun : Transition.exec (step lengthOnly fun _ => ()) init
      (twoSent ++ [.readable 1 (.fill 0) true ignoreAll twoArrive]) = some t :=
    Transition.exec_append.2 ⟨s, hs, Transition.exec_cons.2 ⟨t, ht, rfl⟩⟩
  exact ⟨t, hrun, (datagrams_kept_apart lengthOnly (fun _ => ()) _ t hrun).2.1 1⟩

end UdpSystem

end AvcTool
