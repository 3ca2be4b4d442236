import AvcTool.Lib.Transition
import AvcTool.Network.Receive

/-!
# The length given to `recvfrom`

Here the calls of `onReadable` on the sockets of one poller are taken apart into their calls of `recvfrom`; between
them the shared buffer may be released.  The length of a call is one less than the size of the buffer, and this is
what was read into it last, unless `on_read_` has changed it.  It fits if the size is at least 2 (`fitsBuffer_iff`); a
new buffer has the size 0, although it has its capacity, and the difference wraps.  So the first call for a buffer never
fits, and no run is as it should be that calls `recvfrom` at all (`receive_length_fits_iff`).
-/

namespace AvcTool

inductive ReceivePc where
  | idle
  /-- before the test of `enable_recv_` -/
  | loop
  /-- `recvfrom` has been interrupted -/
  | retry
  deriving DecidableEq, Repr

/-- The sockets of a poller, whose `onReadable` runs on its thread. -/
structure Receiver where
  /-- what `shared_buffer_` refers to, if it is alive -/
  shared : Option BufferRaw
  pc : ReceivePc
  deriving DecidableEq, Repr

inductive ReceiveAction where
  /-- nobody holds the shared buffer any more -/
  | release
  /-- `onReadable` of one of the sockets gets the shared buffer -/
  | enter (alloc : Alloc)
  /-- `enable_recv_` is true or the call is repeated; `run` is the behaviour of `on_read_`, if it is called -/
  | recvfrom (e : RecvEvent) (run : OnReadRun)
  /-- `enable_recv_` is false -/
  | leave

def ReceiveAction.IsRecvfrom : ReceiveAction → Prop
  | .recvfrom _ _ => True
  | _ => False

namespace Receiver

def init : Receiver := ⟨none, .idle⟩

/-- What becomes of the loop with one call of `recvfrom`. -/
def receive (e : RecvEvent) (run : OnReadRun) (b : BufferRaw) : Option Receiver :=
  match e with
  | .interrupted => some ⟨some b, .retry⟩
  | .fails => some ⟨some b, .idle⟩
  | .datagram d =>
    match onDatagram run d b with
    | .eof b => some ⟨some b, .idle⟩
    | .undefined _ => none
    | .tooLarge b => some ⟨some b, .idle⟩
    | .delivered b _ escapes => some ⟨some b, if escapes then .idle else .loop⟩

def step (s : Receiver) : ReceiveAction → Option Receiver
  | .release => if s.pc = .idle then some { s with shared := none } else none
  | .enter alloc =>
    if s.pc = .idle then
      match getSharedBuffer alloc s.shared with
      | .error _ => some s
      | .ok b => some ⟨some b, .loop⟩
    else none
  | .recvfrom e run => if s.pc = .idle then none else s.shared.bind (receive e run)
  | .leave => if s.pc = .loop then some { s with pc := .idle } else none

/-- The length leaves a byte of the block for the NUL, and is not 0. -/
def FitsBuffer (s : Receiver) : ReceiveAction → Prop
  | .recvfrom _ _ => ∃ b, s.shared = some b ∧ 1 ≤ b.recvLength ∧ b.recvLength + 1 ≤ b.capacity
  | _ => True

/-! ### One call -/

private theorem fitsBuffer_iff {s : Receiver} {b : BufferRaw} (hs : s.shared = some b) (hle : b.size ≤ b.capacity)
    (hcapacity : b.capacity < 2 ^ 64) (e : RecvEvent) (run : OnReadRun) :
    s.FitsBuffer (.recvfrom e run) ↔ 2 ≤ b.size := by
  have hlength : (1 ≤ b.recvLength ∧ b.recvLength + 1 ≤ b.capacity) ↔ 2 ≤ b.size := by
    rw [BufferRaw.recvLength]
    split <;> omega
  rw [← hlength]
  constructor
  · rintro ⟨b', hb', hfits⟩
    obtain rfl : b = b' := Option.some.inj (hs.symm.trans hb')
    exact hfits
  · exact fun hfits => ⟨b, hs, hfits⟩

/-! ### Runs -/

/-- Nothing has been read into the shared buffer. -/
def Unread (s : Receiver) : Prop := ∀ b ∈ s.shared, b.size = 0 ∧ b.capacity = 1 + socketDefaultBufSize

theorem Unread.getSharedBuffer {s : Receiver} (hs : s.Unread) {alloc : Alloc} {b : BufferRaw}
    (h : AvcTool.getSharedBuffer alloc s.shared = .ok b) : b.size = 0 ∧ b.capacity = 1 + socketDefaultBufSize := by
  cases hshared : s.shared with
  | none =>
    rw [hshared] at h
    obtain ⟨block, rfl⟩ := getSharedBuffer_new h
    exact ⟨rfl, rfl⟩
  | some b' =>
    rw [hshared] at h
    obtain rfl : b' = b := Except.ok.inj h
    exact hs b' hshared

theorem Unread.step {s t : Receiver} {a : ReceiveAction} (hs : s.Unread) (ha : ¬ a.IsRecvfrom)
    (hst : s.step a = some t) : t.Unread := by
  cases a with
  | release =>
    rw [Receiver.step] at hst
    split at hst
    · obtain rfl := Option.some.inj hst
      exact fun b hb => nomatch hb
    · cases hst
  | enter alloc =>
    rw [Receiver.step] at hst
    split at hst
    · split at hst
      · obtain rfl := Option.some.inj hst
        exact hs
      · rename_i b hb
        obtain rfl := Option.some.inj hst
        intro b' hb'
        obtain rfl : b = b' := Option.some.inj hb'
        exact hs.getSharedBuffer hb
    · cases hst
  | recvfrom e run => exact absurd trivial ha
  | leave =>
    rw [Receiver.step] at hst
    split at hst
    · obtain rfl := Option.some.inj hst
      exact hs
    · cases hst

/-- The lengths of a run fit exactly if `recvfrom` is never called in it. -/
theorem receive_length_fits_iff (as : List ReceiveAction) :
    Transition.Along step FitsBuffer init as ↔ Transition.Along step (fun _ a => ¬ a.IsRecvfrom) init as := by
  have hinit : init.Unread := fun b hb => nomatch hb
  refine Transition.along_iff_of_invariant (fun s a t hs ha hst => hs.step ha hst) (fun s a hs => ?_) hinit as
  cases a with
  | recvfrom e run =>
    refine iff_of_false ?_ fun h => h trivial
    cases hshared : s.shared with
    | none =>
      rintro ⟨b, hb, -⟩
      rw [hshared] at hb
      cases hb
    | some b =>
      -- nothing has been read into the buffer yet
      intro hfits
      obtain ⟨hzero, hcapacity⟩ := hs b hshared
      rw [socketDefaultBufSize] at hcapacity
      have htwo : 2 ≤ b.size := (fitsBuffer_iff hshared (by omega) (by omega) e run).1 hfits
      omega
  | release => exact iff_of_true trivial id
  | enter alloc => exact iff_of_true trivial id
  | leave => exact iff_of_true trivial id

/-- The first call of all is given a length far beyond the buffer. -/
theorem first_length_wraps :
    (∃ s b, Transition.exec step init [.enter (.fill 0)] = some s ∧ s.shared = some b ∧
      b.capacity = 1 + socketDefaultBufSize ∧ b.recvLength = 2 ^ 64 - 1) ∧
    ¬ Transition.Along step FitsBuffer init
      [.enter (.fill 0), .recvfrom (.datagram [1, 2, 3]) ⟨.returns, []⟩] := by
  refine ⟨⟨_, _, rfl, rfl, rfl, rfl⟩, ?_⟩
  rintro ⟨-, hrest⟩
  obtain ⟨b, hb, -, hle⟩ := (hrest _ rfl).1
  obtain rfl := Option.some.inj hb
  have hwraps : ¬ (2 ^ 64 - 1 : Nat) + 1 ≤ 1 + 256 * 1024 := by omega
  exact hwraps hle

end Receiver

end AvcTool
