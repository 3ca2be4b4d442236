import AvcTool.Network.Buffer

/-!
# Lists of buffers that are sent together

A `BufferList` is a list of buffers with an offset into the first one, the number of its bytes that have already
been sent.  What it has still to send is `remaining`; `sent` moves on by a number of bytes (`remaining_sent`), across
the ends of buffers where necessary.

`SendOutcome` is what one call of `BufferList::send` meets in the kernel, and `sendLoop` is the loop of
`Socket::flushData` over the packets, which gives each of them one call.
-/

namespace AvcTool

abbrev SockAddr := Bytes

/-- An entry of the send queue: a buffer, and the address if it is a `BufferSock`.  Empty buffers are not queued. -/
structure SendBuffer where
  bytes : Bytes
  dst : Option SockAddr
  nonempty : bytes ≠ []
  deriving DecidableEq

def queueBytes (data : List SendBuffer) : Bytes := data.flatMap SendBuffer.bytes

@[simp] theorem queueBytes_nil : queueBytes [] = [] := rfl

@[simp] theorem queueBytes_cons (b : SendBuffer) (bs : List SendBuffer) :
    queueBytes (b :: bs) = b.bytes ++ queueBytes bs := rfl

@[simp] theorem queueBytes_append (bs bs' : List SendBuffer) :
    queueBytes (bs ++ bs') = queueBytes bs ++ queueBytes bs' := List.flatMap_append

structure BufferList where
  isUdp : Bool
  data : List SendBuffer
  offset : Nat
  offset_lt : ∀ b ∈ data.head?, offset < b.bytes.length
  deriving DecidableEq

namespace BufferList

/-- `BufferList::create`, which takes the buffers out of the queue. -/
def create (data : List SendBuffer) (isUdp : Bool) : BufferList where
  isUdp := isUdp
  data := data
  offset := 0
  offset_lt := fun b _ => List.length_pos_iff.2 b.nonempty

def empty (p : BufferList) : Bool := p.data.isEmpty

def remaining (p : BufferList) : Bytes := (queueBytes p.data).drop p.offset

/-- The buffers and the offset that are left after `n` bytes more, from `offset` bytes into the first buffer. -/
def advance : List SendBuffer → Nat → Nat → List SendBuffer × Nat
  | [], _, _ => ([], 0)
  | b :: bs, offset, n =>
    if offset + n < b.bytes.length then (b :: bs, offset + n) else advance bs 0 (offset + n - b.bytes.length)

private theorem advance_offset_lt (data : List SendBuffer) (offset n : Nat) :
    ∀ b ∈ (advance data offset n).1.head?, (advance data offset n).2 < b.bytes.length := by
  induction data generalizing offset n with
  | nil => simp [advance]
  | cons b bs ih =>
    unfold advance
    split
    · rename_i hlt
      intro b' hb'
      obtain rfl : b = b' := Option.some.inj hb'
      exact hlt
    · exact ih _ _

theorem advance_remaining (data : List SendBuffer) (offset n : Nat) :
    (queueBytes (advance data offset n).1).drop (advance data offset n).2 = (queueBytes data).drop (offset + n) := by
  induction data generalizing offset n with
  | nil => simp [advance]
  | cons b bs ih =>
    unfold advance
    split
    · rfl
    · rename_i hle
      rw [ih, queueBytes_cons, List.drop_append, List.drop_eq_nil_of_le (Nat.le_of_not_lt hle), List.nil_append, Nat.zero_add]

theorem advance_zero (data : List SendBuffer) : advance data 0 0 = (data, 0) := by
  cases data with
  | nil => rfl
  | cons b bs =>
    have hpos : 0 + 0 < b.bytes.length := List.length_pos_iff.2 b.nonempty
    rw [advance, if_pos hpos]

theorem advance_advance (data : List SendBuffer) (offset m n : Nat) :
    advance (advance data offset m).1 (advance data offset m).2 n = advance data offset (m + n) := by
  induction data generalizing offset m with
  | nil => rfl
  | cons b bs ih =>
    by_cases hlt : offset + m < b.bytes.length
    · have hfirst : advance (b :: bs) offset m = (b :: bs, offset + m) := by rw [advance, if_pos hlt]
      rw [hfirst, advance, advance, Nat.add_assoc]
    · have hfirst : advance (b :: bs) offset m = advance bs 0 (offset + m - b.bytes.length) := by
        rw [advance, if_neg hlt]
      have hlt' : ¬ offset + (m + n) < b.bytes.length := by omega
      have hsum : offset + m - b.bytes.length + n = offset + (m + n) - b.bytes.length := by omega
      rw [hfirst, ih, advance, if_neg hlt', hsum]

def sent (n : Nat) (p : BufferList) : BufferList where
  isUdp := p.isUdp
  data := (advance p.data p.offset n).1
  offset := (advance p.data p.offset n).2
  offset_lt := advance_offset_lt p.data p.offset n

theorem remaining_sent (n : Nat) (p : BufferList) : (p.sent n).remaining = p.remaining.drop n := by
  show (queueBytes (advance p.data p.offset n).1).drop (advance p.data p.offset n).2 = _
  rw [advance_remaining, remaining, List.drop_drop]

@[simp] theorem remaining_create (data : List SendBuffer) (isUdp : Bool) :
    (create data isUdp).remaining = queueBytes data := rfl

/-- A list is empty exactly if it has nothing to send. -/
theorem empty_iff (p : BufferList) : p.empty = true ↔ p.remaining = [] := by
  obtain ⟨isUdp, data, offset, hlt⟩ := p
  cases data with
  | nil => simp [empty, remaining]
  | cons b bs =>
    have hoff : offset < b.bytes.length := hlt b rfl
    simp only [empty, remaining, List.isEmpty_cons, Bool.false_eq_true, false_iff, queueBytes_cons,
      List.drop_eq_nil_iff, List.length_append]
    omega

end BufferList

def packetBytes (packets : List BufferList) : Bytes := packets.flatMap BufferList.remaining

@[simp] theorem packetBytes_nil : packetBytes [] = [] := rfl

@[simp] theorem packetBytes_cons (p : BufferList) (ps : List BufferList) :
    packetBytes (p :: ps) = p.remaining ++ packetBytes ps := rfl

/-! ### Sending -/

/-- What a call of `BufferList::send` meets: the kernel has room for `room + 1` bytes, it answers `UV_EAGAIN` to the
first of them, or it reports another error. -/
inductive SendOutcome where
  | accepts (room : Nat)
  | again
  | fails
  deriving DecidableEq, Repr

inductive LoopEnd where
  | drained
  | partly
  | again
  | failed
  deriving DecidableEq, Repr

structure LoopResult where
  stop : LoopEnd
  /-- the packets that are left -/
  rest : List BufferList
  /-- the bytes that the kernel has accepted -/
  wire : Bytes
  /-- the answers of the kernel that have not been used -/
  script : List SendOutcome

/-- The loop over `send_buffer_sending_tmp`, with the answers of the kernel; none if there are too few of these. -/
def sendLoop : List BufferList → List SendOutcome → Option LoopResult
  | [], script => some ⟨.drained, [], [], script⟩
  | _ :: _, [] => none
  | p :: ps, .accepts room :: script =>
    if (p.sent (room + 1)).empty then
      (sendLoop ps script).map fun r => { r with wire := p.remaining.take (room + 1) ++ r.wire }
    else some ⟨.partly, p.sent (room + 1) :: ps, p.remaining.take (room + 1), script⟩
  | p :: ps, .again :: script => some ⟨.again, p :: ps, [], script⟩
  | p :: ps, .fails :: script => some ⟨.failed, p :: ps, [], script⟩

/-- The loop accepts bytes from the front of the packets. -/
theorem sendLoop_bytes {ps : List BufferList} {script : List SendOutcome} {r : LoopResult}
    (h : sendLoop ps script = some r) : r.wire ++ packetBytes r.rest = packetBytes ps := by
  induction ps generalizing script r with
  | nil =>
    obtain rfl := Option.some.inj h
    rfl
  | cons p ps ih =>
    cases script with
    | nil => cases h
    | cons o script =>
      cases o with
      | accepts room =>
        have hsplit : p.remaining.take (room + 1) ++ (p.sent (room + 1)).remaining = p.remaining := by
          rw [BufferList.remaining_sent, List.take_append_drop]
        simp only [sendLoop] at h
        split at h
        · rename_i hempty
          obtain ⟨r', hr', rfl⟩ := Option.map_eq_some_iff.1 h
          rw [(BufferList.empty_iff _).1 hempty, List.append_nil] at hsplit
          rw [packetBytes_cons, ← ih hr', List.append_assoc, hsplit]
        · obtain rfl := Option.some.inj h
          rw [packetBytes_cons, packetBytes_cons, ← List.append_assoc, hsplit]
      | again =>
        obtain rfl := Option.some.inj h
        rfl
      | fails =>
        obtain rfl := Option.some.inj h
        rfl

theorem sendLoop_drained {ps : List BufferList} {script : List SendOutcome} {r : LoopResult}
    (h : sendLoop ps script = some r) (hstop : r.stop = .drained) : r.rest = [] := by
  induction ps generalizing script r with
  | nil =>
    obtain rfl := Option.some.inj h
    rfl
  | cons p ps ih =>
    rcases script with _ | ⟨_ | _ | _, script⟩
    · cases h
    · simp only [sendLoop] at h
      split at h
      · obtain ⟨r', hr', rfl⟩ := Option.map_eq_some_iff.1 h
        exact ih (r := r') hr' hstop
      · obtain rfl := Option.some.inj h
        cases hstop
    · obtain rfl := Option.some.inj h
      cases hstop
    · obtain rfl := Option.some.inj h
      cases hstop

/-- The loop uses the answers from the front, and what follows them does not matter. -/
theorem sendLoop_used {ps : List BufferList} {script : List SendOutcome} {r : LoopResult}
    (h : sendLoop ps script = some r) :
    ∃ used, script = used ++ r.script ∧
      (∀ extra, sendLoop ps (used ++ extra) = some { r with script := extra }) ∧
      (r.stop = .again → .again ∈ used) ∧ (r.stop = .failed → .fails ∈ used) := by
  induction ps generalizing script r with
  | nil =>
    obtain rfl := Option.some.inj h
    exact ⟨[], rfl, fun _ => rfl, nofun, nofun⟩
  | cons p ps ih =>
    rcases script with _ | ⟨room | _ | _, script⟩
    · cases h
    · simp only [sendLoop] at h
      split at h
      · rename_i hempty
        obtain ⟨r', hr', rfl⟩ := Option.map_eq_some_iff.1 h
        obtain ⟨used, rfl, hused, hagain, hfails⟩ := ih hr'
        refine ⟨.accepts room :: used, rfl, fun extra => ?_, fun hs => .tail _ (hagain hs), fun hs => .tail _ (hfails hs)⟩
        rw [List.cons_append, sendLoop, if_pos hempty, hused extra]
        rfl
      · rename_i hpartly
        obtain rfl := Option.some.inj h
        refine ⟨[.accepts room], rfl, fun extra => ?_, nofun, nofun⟩
        rw [List.cons_append, sendLoop, if_neg hpartly]
        rfl
    · obtain rfl := Option.some.inj h
      exact ⟨[.again], rfl, fun _ => rfl, fun _ => .head _, nofun⟩
    · obtain rfl := Option.some.inj h
      exact ⟨[.fails], rfl, fun _ => rfl, nofun, fun _ => .head _⟩

/-- One answer for each packet is enough. -/
theorem sendLoop_isSome (ps : List BufferList) {script : List SendOutcome} (h : ps.length ≤ script.length) :
    ∃ r, sendLoop ps script = some r ∧ script.length ≤ r.script.length + ps.length := by
  induction ps generalizing script with
  | nil => exact ⟨_, rfl, Nat.le_refl _⟩
  | cons p ps ih =>
    rcases script with _ | ⟨room | _ | _, script⟩
    · cases h
    · simp only [List.length_cons, Nat.add_le_add_iff_right] at h
      simp only [sendLoop]
      split
      · obtain ⟨r, hr, hlen⟩ := ih h
        refine ⟨_, by rw [hr]; rfl, ?_⟩
        simp only [List.length_cons]
        omega
      · refine ⟨_, rfl, ?_⟩
        simp only [List.length_cons]
        omega
    · refine ⟨_, rfl, ?_⟩
      simp only [List.length_cons]
      omega
    · refine ⟨_, rfl, ?_⟩
      simp only [List.length_cons]
      omega

end AvcTool
