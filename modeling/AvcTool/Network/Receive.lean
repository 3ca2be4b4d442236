import AvcTool.Network.BufferCapacity

/-!
# Receiving datagrams

`onReadable` reads datagrams into the shared buffer of the poller until the socket has none, and hands each to
`on_read_`.  It offers `recvfrom` one byte less than the size of the buffer, and this is the size of the datagram
that was read last, unless `on_read_` has set another; with size 0 the difference wraps and the offer is as good as
unlimited.  So a datagram is delivered whole exactly if the size is 0 or greater than its length, and the block has room
for it (`FitsInTurn`, `datagrams_whole_iff`).  With handlers that leave the buffer alone this means that it is shorter
than the one before it, or that nothing was read into the buffer before (`fitsInTurn_iff_descendsFrom`).
-/

namespace AvcTool

/-- `SOCKET_DEFAULT_BUF_SIZE` -/
def socketDefaultBufSize : Nat := 256 * 1024

/-- `getSharedBuffer`: the buffer that the weak pointer refers to, if it is alive, or a new one. -/
def getSharedBuffer (alloc : Alloc) : Option BufferRaw → Except BufferError BufferRaw
  | some b => .ok b
  | none => BufferRaw.ofCapacity alloc (1 + socketDefaultBufSize)

/-- What the socket has for `recvfrom`. -/
inductive RecvEvent where
  | interrupted
  | datagram (bytes : Bytes)
  | fails
  deriving DecidableEq, Repr

def datagrams (es : List RecvEvent) : List Bytes :=
  es.filterMap fun
    | .datagram d => some d
    | _ => none

inductive OnReadOutcome where
  | returns
  | throwsStd
  | throwsOther
  deriving DecidableEq, Repr

/-- What `on_read_` can do to the buffer that it is given: a store through `data()` into the block, or a call of a public
function. -/
inductive BufferUse where
  | store (i : Nat) (c : UInt8)
  | call (op : BufferRaw.Op)

/-- One call of `on_read_`: what it does to the buffer, and how it ends. -/
structure OnReadRun where
  outcome : OnReadOutcome
  uses : List BufferUse

/-- What `on_read_` is given: `buffer->size()` and this many bytes at `buffer->data()`. -/
structure OnReadCall where
  size : Nat
  bytes : Bytes
  deriving DecidableEq, Repr

/-- The call for a datagram that is delivered whole. -/
def OnReadCall.whole (d : Bytes) : OnReadCall := ⟨d.length, d⟩

inductive ReceiveEnd where
  | returns
  /-- an exception leaves `onReadable` -/
  | escapes
  /-- bytes were written outside of the block -/
  | undefined
  deriving DecidableEq, Repr

structure Received where
  buffer : BufferRaw
  calls : List OnReadCall
  /-- what the socket still has -/
  left : List RecvEvent
  ending : ReceiveEnd
  deriving DecidableEq, Repr

/-- The length passed to `recvfrom`, `buffer->size() - 1` as a `size_t`. -/
def BufferRaw.recvLength (b : BufferRaw) : Nat := if b.size = 0 then 2 ^ 64 - 1 else b.size - 1

/-- The bytes of the block that `data_` points to. -/
def BufferRaw.room (b : BufferRaw) : Nat :=
  match b.data with
  | .live bytes => bytes.length
  | .null | .freed => 0

def Block.store (i : Nat) (c : UInt8) : Block → Block
  | .live bytes => .live (bytes.set i c)
  | block => block

/-- A block that `setCapacity` has lost stays lost: what is asked for next would delete it again. -/
def BufferRaw.use (b : BufferRaw) : BufferUse → BufferRaw
  | .store i c => { b with data := b.data.store i c }
  | .call op => if b.data = .freed then { (b.apply op).1 with data := .freed } else (b.apply op).1

/-- The buffer after the call of `on_read_`. -/
def OnReadRun.leaves (run : OnReadRun) (b : BufferRaw) : BufferRaw := run.uses.foldl BufferRaw.use b

/-- The buffer after `n` bytes of a datagram have been received, with the NUL behind them. -/
def BufferRaw.receive (n : Nat) (d : Bytes) (b : BufferRaw) : BufferRaw :=
  { b with data := (b.data.write 0 (d.take n)).write n [0] }

/-- The buffer as it is given to `on_read_`. -/
def BufferRaw.received (n : Nat) (d : Bytes) (b : BufferRaw) : BufferRaw := { b.receive n d with size := n }

/-- What comes of one datagram. -/
inductive DatagramResult where
  /-- `recvfrom` returns 0, which is taken for the end of the stream -/
  | eof (buffer : BufferRaw)
  /-- the datagram and the NUL go beyond the block -/
  | undefined (buffer : BufferRaw)
  /-- `setSize` throws -/
  | tooLarge (buffer : BufferRaw)
  | delivered (buffer : BufferRaw) (call : OnReadCall) (escapes : Bool)

/-- The body of the loop when there is a datagram, which `recvfrom` cuts to the length it is given. -/
def onDatagram (run : OnReadRun) (d : Bytes) (b : BufferRaw) : DatagramResult :=
  let n := min b.recvLength d.length
  if n = 0 then .eof b
  else if b.room ≤ n then .undefined b
  else
    match (b.receive n d).setSize n with
    | (b, some _) => .tooLarge b
    | (b, none) => .delivered (run.leaves b) ⟨b.size, b.bytes⟩ (run.outcome = .throwsOther)

/-- The loop of `onReadable`; `onRead i` is the behaviour of the `i`-th call.  A socket that has nothing more answers
`UV_EAGAIN`. -/
def onReadableLoop (onRead : Nat → OnReadRun) : Nat → List RecvEvent → BufferRaw → Received
  | _, [], b => ⟨b, [], [], .returns⟩
  | i, .interrupted :: es, b => onReadableLoop onRead i es b
  | _, .fails :: es, b => ⟨b, [], es, .returns⟩
  | i, .datagram d :: es, b =>
    match onDatagram (onRead i) d b with
    | .eof b => ⟨b, [], es, .returns⟩
    | .undefined b => ⟨b, [], es, .undefined⟩
    | .tooLarge b => ⟨b, [], es, .escapes⟩
    | .delivered b call escapes =>
      if escapes then ⟨b, [call], es, .escapes⟩
      else
        let r := onReadableLoop onRead (i + 1) es b
        { r with calls := call :: r.calls }

/-- `onReadable`, for TCP and UDP sockets alike. -/
def onReadable (alloc : Alloc) (enableRecv : Bool) (onRead : Nat → OnReadRun) (shared : Option BufferRaw)
    (es : List RecvEvent) : Except BufferError Received :=
  (getSharedBuffer alloc shared).map fun b =>
    if enableRecv then onReadableLoop onRead 0 es b else ⟨b, [], es, .returns⟩

/-- The buffer takes the whole datagram: its size is 0 or greater than the length, and the block is. -/
def BufferRaw.Fits (b : BufferRaw) (d : Bytes) : Prop := (b.size = 0 ∨ d.length < b.size) ∧ d.length < b.room

instance (b : BufferRaw) (d : Bytes) : Decidable (b.Fits d) :=
  inferInstanceAs (Decidable ((b.size = 0 ∨ d.length < b.size) ∧ d.length < b.room))

/-- Each datagram fits the buffer that the call of `on_read_` before it leaves. -/
def FitsInTurn (onRead : Nat → OnReadRun) : Nat → BufferRaw → List Bytes → Prop
  | _, _, [] => True
  | i, b, d :: ds => b.Fits d ∧ FitsInTurn onRead (i + 1) ((onRead i).leaves (b.received d.length d)) ds

/-- Each datagram is shorter than what was in the buffer before it, unless there was nothing. -/
def DescendsFrom : Nat → List Bytes → Prop
  | _, [] => True
  | size, d :: ds => (size = 0 ∨ d.length < size) ∧ DescendsFrom d.length ds

instance decidableDescendsFrom : ∀ size ds, Decidable (DescendsFrom size ds)
  | _, [] => isTrue trivial
  | size, d :: ds =>
    have := decidableDescendsFrom d.length ds
    inferInstanceAs (Decidable ((size = 0 ∨ d.length < size) ∧ DescendsFrom d.length ds))

/-! ### The shared buffer -/

/-- A block has the length that `capacity_` says. -/
def BufferRaw.Sized (b : BufferRaw) : Prop := ∀ bytes, b.data = .live bytes → bytes.length = b.capacity

theorem getSharedBuffer_new {alloc : Alloc} {b : BufferRaw} (h : getSharedBuffer alloc none = .ok b) :
    ∃ block : Vector UInt8 (1 + socketDefaultBufSize), b = ⟨.live block.toList, 0, 1 + socketDefaultBufSize⟩ := by
  simp only [getSharedBuffer, BufferRaw.ofCapacity, socketDefaultBufSize] at h
  simp only [BufferRaw.setCapacity, BufferRaw.reusable, BufferRaw.empty] at h
  cases hblock : alloc (1 + 256 * 1024) with
  | none => simp [hblock] at h
  | some block =>
    simp only [hblock] at h
    obtain rfl := Except.ok.inj h
    exact ⟨block, rfl⟩

theorem getSharedBuffer_sized {alloc : Alloc} {shared : Option BufferRaw} {b : BufferRaw}
    (hshared : ∀ b ∈ shared, b.Sized) (h : getSharedBuffer alloc shared = .ok b) : b.Sized := by
  cases shared with
  | some b' =>
    obtain rfl : b' = b := Except.ok.inj h
    exact hshared b' rfl
  | none =>
    obtain ⟨block, rfl⟩ := getSharedBuffer_new h
    rintro bytes hbytes
    obtain rfl := Block.live.inj hbytes
    exact block.length_toList

namespace BufferRaw

private theorem Points.sized {b : BufferRaw} (h : Points b.capacity b.data) : b.Sized := by
  intro bytes hbytes
  rwa [hbytes] at h

private theorem Sized.points {b : BufferRaw} (h : b.Sized) (hdata : b.data ≠ .freed) : Points b.capacity b.data := by
  cases hb : b.data with
  | null => trivial
  | freed => exact absurd hb hdata
  | live bytes => exact h bytes hb

private theorem Sized.setCapacity {b : BufferRaw} (h : b.Sized) (alloc : Alloc) (capacity : Nat) :
    (b.setCapacity alloc capacity).1.Sized := by
  by_cases hreusable : b.reusable capacity = true
  · rwa [setCapacity_of_reusable hreusable]
  · cases hblock : alloc capacity with
    | some block =>
      rw [setCapacity_of_alloc hreusable hblock]
      intro bytes hbytes
      obtain rfl := Block.live.inj hbytes
      exact block.length_toList
    | none =>
      rw [setCapacity_of_badAlloc hreusable hblock]
      by_cases hnull : b.data = .null
      · rwa [if_pos hnull]
      · rw [if_neg hnull]
        intro bytes hbytes
        cases hbytes

private theorem Sized.assign {b : BufferRaw} (h : b.Sized) (hdata : b.data ≠ .freed) (alloc : Alloc) (src : Source) :
    (b.assign alloc src.chars src.size).1.Sized := by
  have hcapacity := h.setCapacity alloc (src.assigned.length + 1)
  cases hc : b.setCapacity alloc (src.assigned.length + 1) with
  | mk c error =>
    rw [hc] at hcapacity
    cases error with
    | none =>
      obtain ⟨d, hassign, hd, -⟩ := assign_of_setCapacity (h.points hdata) hc
      rw [hassign]
      exact Points.sized hd.points
    | some e =>
      rw [assign_of_badAlloc hc]
      exact hcapacity

private theorem Sized.setSize {b : BufferRaw} (h : b.Sized) (size : Nat) : (b.setSize size).1.Sized := by
  unfold BufferRaw.setSize
  split
  · exact h
  · exact h

private theorem Sized.use {b : BufferRaw} (h : b.Sized) (u : BufferUse) : (b.use u).Sized := by
  cases u with
  | store i c =>
    intro bytes hbytes
    cases hdata : b.data with
    | live bytes' =>
      rw [BufferRaw.use, hdata] at hbytes
      obtain rfl := Block.live.inj hbytes
      rw [List.length_set]
      exact h bytes' hdata
    | null =>
      rw [BufferRaw.use, hdata] at hbytes
      cases hbytes
    | freed =>
      rw [BufferRaw.use, hdata] at hbytes
      cases hbytes
  | call op =>
    by_cases hdata : b.data = .freed
    · rw [BufferRaw.use, if_pos hdata]
      intro bytes hbytes
      cases hbytes
    · rw [BufferRaw.use, if_neg hdata]
      cases op with
      | assign alloc src => exact h.assign hdata alloc src
      | setCapacity alloc capacity => exact h.setCapacity alloc capacity
      | setSize size => exact h.setSize size

theorem Sized.leaves {b : BufferRaw} (h : b.Sized) (run : OnReadRun) : (run.leaves b).Sized := by
  rw [OnReadRun.leaves]
  induction run.uses generalizing b with
  | nil => exact h
  | cons u uses ih => exact ih (h.use u)

private theorem exists_block_of_room {b : BufferRaw} {n : Nat} (h : n < b.room) :
    ∃ bytes, b.data = .live bytes ∧ bytes.length = b.room := by
  cases hdata : b.data with
  | live bytes => exact ⟨bytes, rfl, by rw [room, hdata]⟩
  | null =>
    rw [room, hdata] at h
    cases h
  | freed =>
    rw [room, hdata] at h
    cases h

private theorem received_eq {b : BufferRaw} {n : Nat} {d : Bytes} (hn : n ≤ d.length) (hroom : n < b.room) :
    ∃ bytes : Bytes, b.received n d = ⟨.live bytes, n, b.capacity⟩ ∧ bytes.length = b.room ∧
      bytes.take n = d.take n := by
  obtain ⟨bytes, hdata, hlen⟩ := exists_block_of_room hroom
  have hd : (d.take n).length = n := List.length_take_of_le hn
  have hfirst : (writeBytes 0 (d.take n) bytes).length = bytes.length := length_writeBytes (by omega)
  refine ⟨writeBytes n [0] (writeBytes 0 (d.take n) bytes), ?_, ?_, ?_⟩
  · rw [received, receive, hdata]
    rfl
  · rw [length_writeBytes (by rw [hfirst, List.length_singleton]; omega), hfirst, hlen]
  · have hfront := take_writeBytes_zero (d.take n) bytes
    rw [hd] at hfront
    rw [take_writeBytes (by omega), hfront]

theorem room_received {b : BufferRaw} {n : Nat} {d : Bytes} (hn : n ≤ d.length) (hroom : n < b.room) :
    (b.received n d).room = b.room := by
  obtain ⟨bytes, heq, hlen, -⟩ := received_eq hn hroom
  rw [heq]
  exact hlen

theorem Sized.received {b : BufferRaw} (h : b.Sized) {n : Nat} {d : Bytes} (hn : n ≤ d.length) (hroom : n < b.room) :
    (b.received n d).Sized := by
  obtain ⟨bytes, heq, hlen, -⟩ := received_eq hn hroom
  obtain ⟨block, hdata, hblock⟩ := exists_block_of_room hroom
  rw [heq]
  intro bytes' hbytes'
  obtain rfl := Block.live.inj hbytes'
  rw [hlen, ← hblock]
  exact h block hdata

private theorem Sized.room_le {b : BufferRaw} (h : b.Sized) : b.room ≤ b.capacity := by
  rcases Nat.eq_zero_or_pos b.room with hzero | hpos
  · rw [hzero]
    exact Nat.zero_le _
  · obtain ⟨block, hdata, hblock⟩ := exists_block_of_room hpos
    exact Nat.le_of_eq (hblock.symm.trans (h block hdata))

end BufferRaw

/-- When there is room, `on_read_` is called with what was received, and the buffer holds it. -/
theorem onDatagram_eq (run : OnReadRun) {d : Bytes} {b : BufferRaw} (h : b.Sized) {n : Nat}
    (hn : min b.recvLength d.length = n) (hpos : 0 < n) (hroom : n < b.room) :
    onDatagram run d b =
      .delivered (run.leaves (b.received n d)) ⟨n, d.take n⟩ (run.outcome = .throwsOther) := by
  obtain ⟨bytes, heq, -, htake⟩ := BufferRaw.received_eq (d := d) (by omega : n ≤ d.length) hroom
  have hcap : ¬ (b.receive n d).capacity < n := by
    have hle := h.room_le
    show ¬ b.capacity < n
    omega
  have hbytes : (b.received n d).bytes = d.take n := by
    rw [heq]
    exact htake
  have hset : (b.receive n d).setSize n = (b.received n d, none) := by
    rw [BufferRaw.setSize, if_neg hcap]
    rfl
  rw [onDatagram, hn, if_neg (Nat.ne_of_gt hpos), if_neg (Nat.not_le_of_lt hroom), hset, ← hbytes]
  rfl

/-! ### The loop -/

/-- No exception but a `std::exception` leaves `on_read_` before the last of `n` datagrams, counted from `i`. -/
def CaughtBeforeLast (onRead : Nat → OnReadRun) (i n : Nat) : Prop :=
  ∀ j, j + 1 < n → (onRead (i + j)).outcome ≠ .throwsOther

private theorem caughtBeforeLast_succ {onRead : Nat → OnReadRun} {i n : Nat} :
    CaughtBeforeLast onRead i (n + 1) ↔
      (0 < n → (onRead i).outcome ≠ .throwsOther) ∧ CaughtBeforeLast onRead (i + 1) n := by
  constructor
  · intro h
    refine ⟨fun hn => h 0 (by omega), fun j hj => ?_⟩
    have := h (j + 1) (by omega)
    rwa [Nat.add_assoc, Nat.add_comm 1 j]
  · rintro ⟨hfirst, hrest⟩ j hj
    cases j with
    | zero => exact hfirst (by omega)
    | succ j =>
      have := hrest j (by omega)
      rwa [Nat.add_assoc, Nat.add_comm 1 j] at this

theorem min_recvLength_of_fits {b : BufferRaw} {d : Bytes} (hmax : d.length ≤ socketDefaultBufSize)
    (hfits : b.Fits d) : min b.recvLength d.length = d.length := by
  have hsize := hfits.1
  rw [socketDefaultBufSize] at hmax
  rw [BufferRaw.recvLength]
  split <;> omega

/-- A datagram that fits is given to `on_read_` as it is. -/
theorem onDatagram_of_fits (run : OnReadRun) {d : Bytes} {b : BufferRaw} (h : b.Sized) (hfits : b.Fits d)
    (hpos : 1 ≤ d.length) (hmax : d.length ≤ socketDefaultBufSize) :
    onDatagram run d b =
      .delivered (run.leaves (b.received d.length d)) (.whole d) (run.outcome = .throwsOther) := by
  rw [onDatagram_eq run h (min_recvLength_of_fits hmax hfits) hpos hfits.2, List.take_length]
  rfl

/-- A datagram that does not fit is cut, taken for the end of the stream, or written over the end of the block. -/
private theorem head_calls_of_not_fits {onRead : Nat → OnReadRun} {es : List RecvEvent} {i : Nat} {b : BufferRaw}
    (hb : b.Sized) {d : Bytes} (hfits : ¬ b.Fits d) :
    (onReadableLoop onRead i (.datagram d :: es) b).calls.head? ≠ some (OnReadCall.whole d) := by
  rcases Nat.eq_zero_or_pos (min b.recvLength d.length) with hzero | hpos
  · have hstep : onDatagram (onRead i) d b = .eof b := by rw [onDatagram, if_pos hzero]
    rw [onReadableLoop, hstep]
    exact nofun
  · by_cases hroom : min b.recvLength d.length < b.room
    · have hstep := onDatagram_eq (onRead i) hb rfl hpos hroom
      have hhead : (onReadableLoop onRead i (.datagram d :: es) b).calls.head? =
          some ⟨min b.recvLength d.length, d.take (min b.recvLength d.length)⟩ := by
        rw [onReadableLoop, hstep]
        by_cases hthrow : (onRead i).outcome = .throwsOther
        · rw [hthrow]
          rfl
        · rw [decide_eq_false hthrow]
          rfl
      intro hwhole
      -- the call can only be right if all of the datagram was offered to
      have hall : min b.recvLength d.length = d.length :=
        congrArg OnReadCall.size (Option.some.inj (hhead.symm.trans hwhole))
      refine hfits ⟨?_, by omega⟩
      rw [BufferRaw.recvLength] at hall hpos
      by_cases hsize : b.size = 0
      · exact .inl hsize
      · rw [if_neg hsize] at hall hpos
        omega
    · have hstep : onDatagram (onRead i) d b = .undefined b := by
        rw [onDatagram, if_neg (Nat.ne_of_gt hpos), if_pos (Nat.not_lt.1 hroom)]
      rw [onReadableLoop, hstep]
      exact nofun

/-- The loop delivers all datagrams whole if and only if each fits the buffer as it is then, and no foreign exception
comes before the last. -/
private theorem loop_whole_iff {onRead : Nat → OnReadRun} (es : List RecvEvent) (i : Nat) {b : BufferRaw} (hb : b.Sized)
    (hes : .fails ∉ es) (hlen : ∀ d ∈ datagrams es, 1 ≤ d.length ∧ d.length ≤ socketDefaultBufSize) :
    (onReadableLoop onRead i es b).calls = (datagrams es).map OnReadCall.whole ↔
      FitsInTurn onRead i b (datagrams es) ∧ CaughtBeforeLast onRead i (datagrams es).length := by
  induction es generalizing i b with
  | nil => exact iff_of_true rfl ⟨trivial, fun j hj => absurd hj (Nat.not_lt_zero _)⟩
  | cons e es ih =>
    rw [List.mem_cons, not_or] at hes
    cases e with
    | interrupted => exact ih i hb hes.2 hlen
    | fails => exact absurd rfl hes.1
    | datagram d =>
      have hds : datagrams (.datagram d :: es) = d :: datagrams es := rfl
      rw [hds] at hlen ⊢
      obtain ⟨⟨hpos, hmax⟩, hrest⟩ := List.forall_mem_cons.1 hlen
      rw [List.length_cons, caughtBeforeLast_succ, List.map_cons, FitsInTurn]
      by_cases hfits : b.Fits d
      · have hstep := onDatagram_of_fits (onRead i) hb hfits hpos hmax
        have hb' : ((onRead i).leaves (b.received d.length d)).Sized :=
          (hb.received (Nat.le_refl _) hfits.2).leaves (onRead i)
        have ih' := ih (i + 1) hb' hes.2 hrest
        by_cases hthrow : (onRead i).outcome = .throwsOther
        · -- nothing more is delivered, which is right if nothing more has come
          have hloop : (onReadableLoop onRead i (.datagram d :: es) b).calls = [OnReadCall.whole d] := by
            rw [onReadableLoop, hstep, hthrow]
            rfl
          rw [hloop]
          cases hes' : datagrams es with
          | nil => simp [FitsInTurn, CaughtBeforeLast, hfits]
          | cons d' ds => simp [hthrow]
        · have hloop : (onReadableLoop onRead i (.datagram d :: es) b).calls =
              OnReadCall.whole d ::
                (onReadableLoop onRead (i + 1) es ((onRead i).leaves (b.received d.length d))).calls := by
            rw [onReadableLoop, hstep, decide_eq_false hthrow]
            rfl
          rw [hloop, List.cons_inj_right, ih']
          constructor
          · rintro ⟨hlater, hcaught⟩
            exact ⟨⟨hfits, hlater⟩, fun _ => hthrow, hcaught⟩
          · rintro ⟨⟨-, hlater⟩, -, hcaught⟩
            exact ⟨hlater, hcaught⟩
      · refine iff_of_false (fun hcalls => ?_) fun h => hfits h.1.1
        apply @head_calls_of_not_fits onRead es i b hb d hfits
        rw [hcalls]
        rfl

/-! ### Delivery -/

/-- When `onReadable` runs on a socket with datagrams of admissible lengths, it delivers each of them whole, once and in
order, exactly if each fits the buffer that the call of `on_read_` before it leaves and no foreign exception comes too
early. -/
theorem datagrams_whole_iff {alloc : Alloc} {onRead : Nat → OnReadRun} {shared : Option BufferRaw} {b : BufferRaw}
    {es : List RecvEvent} (hshared : ∀ b ∈ shared, b.Sized) (hb : getSharedBuffer alloc shared = .ok b)
    (hes : .fails ∉ es) (hlen : ∀ d ∈ datagrams es, 1 ≤ d.length ∧ d.length ≤ socketDefaultBufSize) :
    ∃ r, onReadable alloc true onRead shared es = .ok r ∧
      (r.calls = (datagrams es).map OnReadCall.whole ↔
        FitsInTurn onRead 0 b (datagrams es) ∧ CaughtBeforeLast onRead 0 (datagrams es).length) := by
  refine ⟨onReadableLoop onRead 0 es b, ?_, loop_whole_iff es 0 (getSharedBuffer_sized hshared hb) hes hlen⟩
  rw [onReadable, hb]
  rfl

/-- A block of eight bytes, such as `setCapacity` makes. -/
def smallBuffer : BufferRaw := ⟨.live [0, 0, 0, 0, 0, 0, 0, 0], 0, 8⟩

/-- The handler gives the buffer its capacity as its size. -/
def growsBack : Nat → OnReadRun := fun _ => ⟨.returns, [.call (.setSize 8)]⟩

private theorem sized_smallBuffer : smallBuffer.Sized := by
  intro bytes hbytes
  obtain rfl := Block.live.inj hbytes
  rfl

theorem datagrams_whole_iff_growsBack :
    ∃ r, onReadable (.fill 0) true growsBack (some smallBuffer) [.datagram [1, 2], .interrupted, .datagram [3, 4]] =
      .ok r ∧ r.calls = [⟨2, [1, 2]⟩, ⟨2, [3, 4]⟩] := by
  have hshared : ∀ b ∈ some smallBuffer, b.Sized := by
    intro b hb
    obtain rfl := Option.some.inj hb
    exact sized_smallBuffer
  have hfits : FitsInTurn growsBack 0 smallBuffer [[1, 2], [3, 4]] := ⟨by decide, by decide, trivial⟩
  obtain ⟨r, hr, hiff⟩ := @datagrams_whole_iff (.fill 0) growsBack (some smallBuffer) smallBuffer
    [.datagram [1, 2], .interrupted, .datagram [3, 4]] hshared rfl (by decide) (by decide)
  exact ⟨r, hr, hiff.2 ⟨hfits, fun _ _ h => nomatch h⟩⟩

/-! ### Handlers that leave the buffer alone -/

/-- The handler leaves the size of the buffer and its room. -/
def KeepsSize (onRead : Nat → OnReadRun) : Prop :=
  ∀ i b, ((onRead i).leaves b).size = b.size ∧ ((onRead i).leaves b).room = b.room

theorem fitsInTurn_iff_descendsFrom {onRead : Nat → OnReadRun} (hkeeps : KeepsSize onRead) {i : Nat} {b : BufferRaw}
    {ds : List Bytes} (hroom : ∀ d ∈ ds, d.length < b.room) :
    FitsInTurn onRead i b ds ↔ DescendsFrom b.size ds := by
  induction ds generalizing i b with
  | nil => exact Iff.rfl
  | cons d ds ih =>
    obtain ⟨hd, hds⟩ := List.forall_mem_cons.1 hroom
    obtain ⟨hsize, hroom'⟩ := hkeeps i (b.received d.length d)
    rw [BufferRaw.room_received (Nat.le_refl _) hd] at hroom'
    have hlater : FitsInTurn onRead (i + 1) ((onRead i).leaves (b.received d.length d)) ds ↔
        DescendsFrom d.length ds := by
      rw [ih (by rwa [hroom']), hsize]
      rfl
    rw [FitsInTurn, hlater, DescendsFrom, BufferRaw.Fits, and_iff_left hd]

/-- The handler does nothing. -/
def ignoreAll : Nat → OnReadRun := fun _ => ⟨.returns, []⟩

theorem leaves_ignoreAll (i : Nat) (b : BufferRaw) : (ignoreAll i).leaves b = b := rfl

/-- The shared buffer when it has just been made. -/
def newBuffer : BufferRaw :=
  ⟨.live (Vector.replicate (1 + socketDefaultBufSize) 0).toList, 0, 1 + socketDefaultBufSize⟩

theorem room_newBuffer : newBuffer.room = 1 + socketDefaultBufSize := Vector.length_toList

theorem size_newBuffer : newBuffer.size = 0 := rfl

theorem getSharedBuffer_fill : getSharedBuffer (.fill 0) none = .ok newBuffer := rfl

theorem sized_newBuffer : newBuffer.Sized :=
  @getSharedBuffer_sized (.fill 0) none newBuffer (fun _ h => nomatch h) getSharedBuffer_fill

/-- Two datagrams of two bytes come to a new buffer. -/
def twoOfTwo : List RecvEvent := [.datagram [1, 2], .datagram [3, 4]]

/-- `recvfrom` gets one byte less than the first datagram had. -/
private theorem calls_twoOfTwo {b : BufferRaw} (hb : b.Sized) (hsize : b.size = 0) (hroom : 2 < b.room) :
    (onReadableLoop ignoreAll 0 twoOfTwo b).calls = [⟨2, [1, 2]⟩, ⟨1, [3]⟩] := by
  have hfirst := onDatagram_of_fits (ignoreAll 0) hb (d := [1, 2]) ⟨.inl hsize, hroom⟩ (by decide) (by decide)
  have hroom' : 1 < (b.received 2 [1, 2]).room := by
    rw [BufferRaw.room_received (by decide) hroom]
    omega
  have hsecond := onDatagram_eq (ignoreAll 1) (hb.received (d := [1, 2]) (Nat.le_refl 2) hroom) (d := [3, 4]) (n := 1)
    rfl Nat.one_pos hroom'
  simp only [twoOfTwo, onReadableLoop, hfirst, leaves_ignoreAll, List.length_cons, List.length_nil, Nat.reduceAdd,
    hsecond]
  rfl

/-- The second of two datagrams of two bytes is delivered without its last byte. -/
theorem second_datagram_cut :
    ∃ r, onReadable (.fill 0) true ignoreAll none twoOfTwo = .ok r ∧ r.calls = [⟨2, [1, 2]⟩, ⟨1, [3]⟩] ∧
      r.calls ≠ (datagrams twoOfTwo).map OnReadCall.whole := by
  have hcalls : (onReadableLoop ignoreAll 0 twoOfTwo newBuffer).calls = [⟨2, [1, 2]⟩, ⟨1, [3]⟩] :=
    calls_twoOfTwo sized_newBuffer size_newBuffer (by rw [room_newBuffer]; decide)
  refine ⟨onReadableLoop ignoreAll 0 twoOfTwo newBuffer, ?_, hcalls, fun hwhole => ?_⟩
  · rw [onReadable, getSharedBuffer_fill, Except.map, if_pos rfl]
  · rw [hcalls] at hwhole
    cases hwhole

end AvcTool
