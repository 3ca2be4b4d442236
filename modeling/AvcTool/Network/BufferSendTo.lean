import Mathlib.Algebra.Group.Int.Defs
import AvcTool.Network.BufferList

/-!
# The loop of `BufferSendTo`

`send` offers the rest of the front buffer to the kernel until no buffer is left or the kernel reports an error.  On
the objects that `Socket` makes it is what `BufferList` says of it: the list after a call is the one before it, moved
on by the bytes that were accepted, and these went to the addresses of their buffers (`sends_prefix_of_send`).  The
calls are answered by the kernel one after the other (`FollowsKernel`).

An answer `UV_EAGAIN` does not end the loop.  The call that got it is made again at once, for as long as the socket is
full, instead of leaving the rest to the write event (`never_spins_iff`).
-/

namespace AvcTool

/-- What `send` or `sendto` returns, and whether `get_uv_error` is `UV_EAGAIN` then.  If nothing was offered, the kernel
may return 0, and the error is that of an earlier call. -/
structure KernelAnswer where
  n : Int
  again : Bool
  deriving DecidableEq, Repr

def KernelAnswer.IsAgain (a : KernelAnswer) : Prop := a.n ≤ 0 ∧ a.again = true

instance decidableIsAgain (a : KernelAnswer) : Decidable a.IsAgain := inferInstanceAs (Decidable (_ ∧ _))

/-- The answers to the calls, by their numbers and by how much they offer.  No more than that is accepted. -/
structure Kernel where
  answer : Nat → Nat → KernelAnswer
  answer_le : ∀ i len, (answer i len).n ≤ len

structure KernelCall where
  offered : Bytes
  /-- the address that `sendto` gets -/
  dst : Option SockAddr
  answer : KernelAnswer
  deriving DecidableEq, Repr

def KernelCall.accepted (c : KernelCall) : Bytes := c.offered.take c.answer.n.toNat

/-- The bytes with the address that they were sent to. -/
def KernelCall.addressed (c : KernelCall) : List (UInt8 × Option SockAddr) := c.accepted.map (·, c.dst)

structure BufferSendTo where
  isUdp : Bool
  offset : Nat
  /-- the buffers, each with its address if it is a `BufferSock` -/
  data : List (Bytes × Option SockAddr)
  deriving DecidableEq, Repr

structure SendToResult where
  list : BufferSendTo
  result : Int
  calls : List KernelCall
  deriving DecidableEq, Repr

namespace BufferSendTo

def count (p : BufferSendTo) : Nat := p.data.length

def empty (p : BufferSendTo) : Bool := p.data.isEmpty

def accept (n : Nat) (p : BufferSendTo) : BufferSendTo :=
  match p.data with
  | [] => p
  | buffer :: rest =>
    if p.offset + n = buffer.1.length then { p with data := rest, offset := 0 }
    else { p with offset := p.offset + n }

/-- A call of `sendto`, or of `send`, which has no address. -/
def call (p : BufferSendTo) (buffer : Bytes × Option SockAddr) (a : Nat → KernelAnswer) : KernelCall :=
  let offered := buffer.1.drop p.offset
  ⟨offered, if p.isUdp then buffer.2 else none, a offered.length⟩

/-- The loop, with the number of calls made so far and with `sent`; none after `fuel` rounds. -/
def sendLoop (k : Kernel) : Nat → Nat → Int → BufferSendTo → Option SendToResult
  | 0, _, _, _ => none
  | fuel + 1, i, sent, p =>
    match p.data with
    | [] => some ⟨p, if sent ≠ 0 then sent else -1, []⟩
    | buffer :: _ =>
      let c := p.call buffer (k.answer i)
      if c.answer.n ≤ 0 then
        if c.answer.again then (sendLoop k fuel (i + 1) sent p).map fun r => { r with calls := c :: r.calls }
        else some ⟨p, if sent ≠ 0 then sent else -1, [c]⟩
      else
        -- `sent` is an int
        (sendLoop k fuel (i + 1) ((sent + c.answer.n).bmod (2 ^ 32)) (p.accept c.answer.n.toNat)).map fun r =>
          { r with calls := c :: r.calls }

def send (k : Kernel) (fuel : Nat) (p : BufferSendTo) : Option SendToResult := p.sendLoop k fuel 0 0

/-- The bytes from `offset` on, with their addresses. -/
def addressed (p : BufferSendTo) : List (UInt8 × Option SockAddr) :=
  (p.data.flatMap fun b => b.1.map (·, if p.isUdp then b.2 else none)).drop p.offset

end BufferSendTo

/-- Each call offers what comes next of the given bytes, and to the address of these. -/
def OffersNext : List (UInt8 × Option SockAddr) → List KernelCall → Prop
  | _, [] => True
  | bytes, c :: cs =>
    c.offered ≠ [] ∧ c.offered.map (·, c.dst) <+: bytes ∧ OffersNext (bytes.drop c.accepted.length) cs

/-- The calls are answered by the kernel, from its `i`-th answer on.  After bytes were accepted or `UV_EAGAIN` there is
another call unless the list is empty, and after another error there is none. -/
structure FollowsKernel (k : Kernel) (i : Nat) (r : SendToResult) : Prop where
  answers : ∀ j c, r.calls[j]? = some c → c.answer = k.answer (i + j) c.offered.length
  goes_on : ∀ j c, r.calls[j]? = some c → j + 1 < r.calls.length → 0 < c.answer.n ∨ c.answer.IsAgain
  stops : r.list.data = [] ∨ ∃ c, r.calls.getLast? = some c ∧ c.answer.n ≤ 0 ∧ ¬ c.answer.IsAgain

/-- One call more, before the others. -/
theorem FollowsKernel.cons {k : Kernel} {i : Nat} {r : SendToResult} {c : KernelCall}
    (hc : c.answer = k.answer i c.offered.length) (hgoes : 0 < c.answer.n ∨ c.answer.IsAgain)
    (hr : FollowsKernel k (i + 1) r) : FollowsKernel k i { r with calls := c :: r.calls } where
  answers j d hd := by
    cases j with
    | zero =>
      obtain rfl := Option.some.inj hd
      exact hc
    | succ j =>
      rw [hr.answers j d hd]
      congr 1
      omega
  goes_on j d hd hj := by
    cases j with
    | zero =>
      obtain rfl := Option.some.inj hd
      exact hgoes
    | succ j => exact hr.goes_on j d hd (Nat.lt_of_succ_lt_succ hj)
  stops := by
    rcases hr.stops with hempty | ⟨d, hlast, hd⟩
    · exact .inl hempty
    · exact .inr ⟨d, by rw [List.getLast?_cons, hlast]; rfl, hd⟩

/-- The call has sent a prefix and has remembered where it stopped. -/
structure SendsPrefix (k : Kernel) (p : BufferSendTo) (r : SendToResult) : Prop where
  kernel : FollowsKernel k 0 r
  wire : r.calls.flatMap KernelCall.addressed ++ r.list.addressed = p.addressed
  offers : OffersNext p.addressed r.calls
  offset_lt : ∀ b ∈ r.list.data.head?, r.list.offset < b.1.length
  empty_iff : r.list.empty = true ↔ r.calls.flatMap KernelCall.addressed = p.addressed
  result : r.result = if r.calls.flatMap KernelCall.accepted = [] then -1
    else ((r.calls.flatMap KernelCall.accepted).length : Int)

namespace BufferSendTo

/-! ### One call -/

private theorem addressed_cons {p : BufferSendTo} {b : Bytes × Option SockAddr} {bs : List (Bytes × Option SockAddr)}
    (hdata : p.data = b :: bs) (hoff : p.offset ≤ b.1.length) :
    p.addressed = (b.1.drop p.offset).map (·, if p.isUdp then b.2 else none) ++
      addressed { p with data := bs, offset := 0 } := by
  have hoff' : p.offset ≤ (b.1.map (·, if p.isUdp then b.2 else none)).length := by rwa [List.length_map]
  rw [addressed, hdata, List.flatMap_cons, List.drop_append_of_le_length hoff', List.map_drop, addressed,
    List.drop_zero]

private theorem length_accepted_call {p : BufferSendTo} {b : Bytes × Option SockAddr} (k : Kernel) (i : Nat) :
    (p.call b (k.answer i)).accepted.length = (p.call b (k.answer i)).answer.n.toNat := by
  have hle := k.answer_le i (b.1.drop p.offset).length
  rw [KernelCall.accepted, List.length_take]
  exact Nat.min_eq_left (by simp only [call]; omega)

private theorem addressed_accept {p : BufferSendTo} {b : Bytes × Option SockAddr} {bs : List (Bytes × Option SockAddr)}
    (hdata : p.data = b :: bs) {n : Nat} (hpos : 0 < n) (hn : n ≤ (b.1.drop p.offset).length) :
    (p.accept n).addressed = p.addressed.drop n := by
  rw [List.length_drop] at hn
  have hoff : p.offset ≤ b.1.length := by omega
  have hlen : ((b.1.drop p.offset).map (·, if p.isUdp then b.2 else none)).length = b.1.length - p.offset := by
    rw [List.length_map, List.length_drop]
  by_cases hend : p.offset + n = b.1.length
  · have haccept : p.accept n = { p with data := bs, offset := 0 } := by simp only [accept, hdata, if_pos hend]
    rw [haccept, addressed_cons hdata hoff, List.drop_left' (by omega)]
  · have haccept : p.accept n = { p with offset := p.offset + n } := by simp only [accept, hdata, if_neg hend]
    rw [haccept, addressed, addressed, List.drop_drop]

private theorem isPrefix_call {p : BufferSendTo} {b : Bytes × Option SockAddr} {bs : List (Bytes × Option SockAddr)}
    (hdata : p.data = b :: bs) (hoff : p.offset ≤ b.1.length) (a : Nat → KernelAnswer) :
    (p.call b a).offered.map (·, (p.call b a).dst) <+: p.addressed := by
  rw [addressed_cons hdata hoff]
  exact List.prefix_append _ _

/-- What one round of the loop does: it makes the call again, or ends, or goes on behind what was accepted. -/
theorem sendLoop_round {k : Kernel} {fuel i : Nat} {sent : Int} {p : BufferSendTo} {b : Bytes × Option SockAddr}
    {bs : List (Bytes × Option SockAddr)} {r : SendToResult} (hdata : p.data = b :: bs)
    (h : p.sendLoop k (fuel + 1) i sent = some r) :
    let c := p.call b (k.answer i)
    (c.answer.IsAgain ∧ ∃ r', p.sendLoop k fuel (i + 1) sent = some r' ∧ r = { r' with calls := c :: r'.calls }) ∨
    (c.answer.n ≤ 0 ∧ ¬ c.answer.IsAgain ∧ r = ⟨p, if sent ≠ 0 then sent else -1, [c]⟩) ∨
    (0 < c.answer.n ∧ ∃ r', (p.accept c.answer.n.toNat).sendLoop k fuel (i + 1)
      ((sent + c.answer.n).bmod (2 ^ 32)) = some r' ∧ r = { r' with calls := c :: r'.calls }) := by
  intro c
  rw [sendLoop, hdata] at h
  simp only at h
  by_cases hn : c.answer.n ≤ 0
  · rw [if_pos hn] at h
    by_cases hagain : c.answer.again = true
    · rw [if_pos hagain] at h
      obtain ⟨r', hr', rfl⟩ := Option.map_eq_some_iff.1 h
      exact .inl ⟨⟨hn, hagain⟩, r', hr', rfl⟩
    · rw [if_neg hagain] at h
      obtain rfl := Option.some.inj h
      exact .inr (.inl ⟨hn, fun h => hagain h.2, rfl⟩)
  · rw [if_neg hn] at h
    obtain ⟨r', hr', rfl⟩ := Option.map_eq_some_iff.1 h
    exact .inr (.inr ⟨Int.not_le.1 hn, r', hr', rfl⟩)

private theorem sendLoop_followsKernel {k : Kernel} {fuel i : Nat} {sent : Int} {p : BufferSendTo} {r : SendToResult}
    (h : p.sendLoop k fuel i sent = some r) : FollowsKernel k i r := by
  induction fuel generalizing i sent p r with
  | zero => cases h
  | succ fuel ih =>
    cases hdata : p.data with
    | nil =>
      rw [sendLoop, hdata] at h
      obtain rfl := Option.some.inj h
      exact ⟨nofun, nofun, .inl hdata⟩
    | cons b bs =>
      have hanswer : ∀ a : Nat → KernelAnswer, (p.call b a).answer = a (p.call b a).offered.length := fun _ => rfl
      rcases sendLoop_round hdata h with ⟨hagain, r', hr', rfl⟩ | ⟨hn, hnot, rfl⟩ | ⟨hpos, r', hr', rfl⟩
      · exact (ih hr').cons (hanswer _) (.inr hagain)
      · refine ⟨fun j c hc => ?_, fun j c hc hj => absurd hj (by simp), .inr ⟨_, rfl, hn, hnot⟩⟩
        obtain ⟨rfl, rfl⟩ : j = 0 ∧ p.call b (k.answer i) = c := by
          cases j with
          | zero => exact ⟨rfl, Option.some.inj hc⟩
          | succ j => cases hc
        exact hanswer _
      · exact (ih hr').cons (hanswer _) (.inl hpos)

/-! ### The lists of `Socket` -/

/-- The object for a list as `Socket` makes and keeps it. -/
def ofList (l : BufferList) : BufferSendTo := ⟨l.isUdp, l.offset, l.data.map fun b => (b.bytes, b.dst)⟩

private theorem remaining_ofList (l : BufferList) : (ofList l).addressed.map Prod.fst = l.remaining := by
  rw [addressed, List.map_drop, List.map_flatMap]
  simp [ofList, BufferList.remaining, queueBytes, List.flatMap_map, Function.comp_def]

private theorem sent_sent (l : BufferList) (m n : Nat) : ofList ((l.sent m).sent n) = ofList (l.sent (m + n)) := by
  simp only [ofList, BufferList.sent, BufferList.advance_advance]

/-- What is done when bytes of the front buffer are accepted moves the list on by these. -/
private theorem accept_ofList {l : BufferList} {b : SendBuffer} {bs : List SendBuffer} (hdata : l.data = b :: bs)
    {n : Nat} (hn : n ≤ b.bytes.length - l.offset) : (ofList l).accept n = ofList (l.sent n) := by
  have hoff : l.offset < b.bytes.length := l.offset_lt b (by rw [hdata]; rfl)
  by_cases hend : l.offset + n = b.bytes.length
  · have hlt : ¬ l.offset + n < b.bytes.length := by omega
    have hzero : l.offset + n - b.bytes.length = 0 := by omega
    simp only [accept, ofList, BufferList.sent, hdata, List.map_cons, if_pos hend, BufferList.advance, if_neg hlt,
      hzero, BufferList.advance_zero]
  · have hlt : l.offset + n < b.bytes.length := by omega
    simp only [accept, ofList, BufferList.sent, hdata, List.map_cons, if_neg hend, BufferList.advance, if_pos hlt]

/-- What the loop does with a list, when it has sent `sent` bytes before. -/
structure LoopDoes (l : BufferList) (sent : Int) (r : SendToResult) : Prop where
  /-- the object has moved on by what was accepted -/
  list : (r.calls.flatMap KernelCall.accepted = [] ∧ r.list = ofList l) ∨
    r.list = ofList (l.sent (r.calls.flatMap KernelCall.accepted).length)
  wire : r.calls.flatMap KernelCall.addressed ++ r.list.addressed = (ofList l).addressed
  offers : OffersNext (ofList l).addressed r.calls
  result : r.result = if sent + (r.calls.flatMap KernelCall.accepted).length ≠ 0 then
    sent + (r.calls.flatMap KernelCall.accepted).length else -1

theorem LoopDoes.nil (l : BufferList) (sent : Int) :
    LoopDoes l sent ⟨ofList l, if sent ≠ 0 then sent else -1, []⟩ where
  list := .inl ⟨rfl, rfl⟩
  wire := rfl
  offers := trivial
  result := by simp

/-- One call more, before the others. -/
theorem LoopDoes.cons {l l₁ : BufferList} {sent sent₁ : Int} {r : SendToResult} {c : KernelCall}
    (hoffered : c.offered ≠ []) (hfront : c.offered.map (·, c.dst) <+: (ofList l).addressed)
    (hl₁ : c.accepted = [] ∧ l₁ = l ∨ l₁ = l.sent c.accepted.length)
    (hrest : (ofList l₁).addressed = (ofList l).addressed.drop c.accepted.length)
    (hsent₁ : sent₁ = sent + c.accepted.length) (hr : LoopDoes l₁ sent₁ r) :
    LoopDoes l sent { r with calls := c :: r.calls } where
  list := by
    simp only [List.flatMap_cons, List.length_append, List.append_eq_nil_iff]
    rcases hl₁ with ⟨hnone, rfl⟩ | rfl
    · simpa [hnone] using hr.list
    · right
      rcases hr.list with ⟨hnone, hlist⟩ | hlist
      · rw [hlist, hnone, List.length_nil, Nat.add_zero]
      · rw [hlist, sent_sent]
  wire := by
    obtain ⟨rest, hrest'⟩ := hfront
    have hlen : c.accepted.length = min c.answer.n.toNat (c.offered.map (·, c.dst)).length := by
      rw [KernelCall.accepted, List.length_take, List.length_map]
    have haddressed : c.addressed = (ofList l).addressed.take c.accepted.length := by
      rw [← hrest', hlen, List.take_append_of_le_length (Nat.min_le_right _ _), KernelCall.addressed,
        KernelCall.accepted, List.map_take, ← List.take_eq_take_min]
    rw [List.flatMap_cons, List.append_assoc, hr.wire, hrest, haddressed, List.take_append_drop]
  offers := ⟨hoffered, hfront, hrest ▸ hr.offers⟩
  result := by
    rw [hr.result, hsent₁, List.flatMap_cons, List.length_append, Int.natCast_add, Int.add_assoc]

private theorem LoopDoes.refused {l : BufferList} {sent : Int} {r : SendToResult} {c : KernelCall}
    (hoffered : c.offered ≠ [])
    (hfront : c.offered.map (·, c.dst) <+: (ofList l).addressed) (hn : c.answer.n ≤ 0) (hr : LoopDoes l sent r) :
    LoopDoes l sent { r with calls := c :: r.calls } := by
  have hnone : c.accepted = [] := by
    rw [KernelCall.accepted, Int.toNat_of_nonpos hn, List.take_zero]
  refine .cons hoffered hfront (.inl ⟨hnone, rfl⟩) ?_ ?_ hr
  · rw [hnone, List.length_nil, List.drop_zero]
  · rw [hnone]
    exact (Int.add_zero sent).symm

section

variable {l : BufferList} {b : SendBuffer} {bs : List SendBuffer}

theorem data_ofList (hdata : l.data = b :: bs) :
    (ofList l).data = (b.bytes, b.dst) :: bs.map fun b => (b.bytes, b.dst) := by
  rw [ofList, hdata, List.map_cons]

private theorem offset_lt_front (hdata : l.data = b :: bs) : l.offset < b.bytes.length :=
  l.offset_lt b (by rw [hdata]; rfl)

theorem offered_ne_nil (hdata : l.data = b :: bs) (a : Nat → KernelAnswer) :
    ((ofList l).call (b.bytes, b.dst) a).offered ≠ [] := by
  have hoff := offset_lt_front hdata
  simp only [call, ofList, ne_eq, List.drop_eq_nil_iff]
  omega

private theorem accept_call (hdata : l.data = b :: bs) (k : Kernel) (i : Nat)
    (hn : 0 < ((ofList l).call (b.bytes, b.dst) (k.answer i)).answer.n) :
    let n := ((ofList l).call (b.bytes, b.dst) (k.answer i)).answer.n.toNat
    (ofList l).accept n = ofList (l.sent n) ∧ (ofList (l.sent n)).addressed = (ofList l).addressed.drop n ∧
      n + (l.sent n).remaining.length = l.remaining.length := by
  intro n
  have hle : n ≤ (b.bytes.drop l.offset).length := by
    have hle' := k.answer_le i (b.bytes.drop l.offset).length
    exact Int.toNat_le.2 hle'
  have haccept : (ofList l).accept n = ofList (l.sent n) := accept_ofList hdata (by rwa [List.length_drop] at hle)
  have hrest : (ofList (l.sent n)).addressed = (ofList l).addressed.drop n := by
    rw [← haccept]
    exact addressed_accept (data_ofList hdata) (by omega) hle
  have hfront : (b.bytes.drop l.offset).length ≤ l.remaining.length := by
    have hfront' := (isPrefix_call (data_ofList hdata) (Nat.le_of_lt (offset_lt_front hdata)) (k.answer i)).length_le
    rw [List.length_map] at hfront'
    rw [← remaining_ofList, List.length_map]
    exact hfront'
  refine ⟨haccept, hrest, ?_⟩
  rw [BufferList.remaining_sent, List.length_drop]
  omega

end

private theorem sendLoop_ofList {k : Kernel} {fuel i : Nat} {sent : Int} {l : BufferList} {r : SendToResult}
    (hsent : 0 ≤ sent) (hsize : sent + l.remaining.length < 2 ^ 31)
    (h : (ofList l).sendLoop k fuel i sent = some r) : LoopDoes l sent r := by
  induction fuel generalizing i sent l r with
  | zero => cases h
  | succ fuel ih =>
    cases hdata : l.data with
    | nil =>
      have hdata' : (ofList l).data = [] := by rw [ofList, hdata, List.map_nil]
      rw [sendLoop, hdata'] at h
      obtain rfl := Option.some.inj h
      exact .nil l sent
    | cons b bs =>
      have hoffered := offered_ne_nil hdata (k.answer i)
      have hfront := isPrefix_call (data_ofList hdata) (Nat.le_of_lt (offset_lt_front hdata)) (k.answer i)
      rcases sendLoop_round (data_ofList hdata) h with ⟨hagain, r', hr', rfl⟩ | ⟨hn, -, rfl⟩ | ⟨hn, r', hr', rfl⟩
      · exact (ih hsent hsize hr').refused hoffered hfront hagain.1
      · exact (LoopDoes.nil l sent).refused hoffered hfront hn
      · -- what was sent and what is left add up as before, so that `sent` does not wrap
        obtain ⟨haccept, hrest, hfits⟩ := accept_call hdata k i hn
        have hlen := length_accepted_call (p := ofList l) (b := (b.bytes, b.dst)) k i
        rw [haccept, Int.bmod_eq_of_le (by omega) (by omega)] at hr'
        exact .cons hoffered hfront (.inr (hlen ▸ rfl)) (hlen ▸ hrest) (by omega) (ih (by omega) (by omega) hr')

private theorem LoopDoes.exists_ofList {l : BufferList} {sent : Int} {r : SendToResult} (hr : LoopDoes l sent r) :
    ∃ l', r.list = ofList l' := by
  rcases hr.list with ⟨-, hlist⟩ | hlist
  · exact ⟨l, hlist⟩
  · exact ⟨_, hlist⟩

private theorem empty_ofList_iff (l : BufferList) : (ofList l).empty = true ↔ (ofList l).addressed = [] := by
  rw [← List.map_eq_nil_iff (f := Prod.fst), remaining_ofList, ← BufferList.empty_iff]
  simp [empty, BufferList.empty, ofList]

/-- Whenever `send` returns: what was accepted is a prefix of what was left to send, each byte went to the address of
its own buffer, and the object keeps the rest. -/
theorem sends_prefix_of_send {l : BufferList} (hsize : l.remaining.length < 2 ^ 31) {k : Kernel} {fuel : Nat}
    {r : SendToResult} (h : (ofList l).send k fuel = some r) : SendsPrefix k (ofList l) r := by
  have hr : LoopDoes l 0 r := sendLoop_ofList (by omega) (by omega) h
  obtain ⟨l', hl'⟩ := hr.exists_ofList
  refine ⟨sendLoop_followsKernel h, hr.wire, hr.offers, ?_, ?_, ?_⟩
  · rw [hl']
    intro b hb
    cases hdata : l'.data with
    | nil => simp [ofList, hdata] at hb
    | cons b' bs =>
      obtain rfl : (b'.bytes, b'.dst) = b := by simpa [ofList, hdata] using hb
      exact l'.offset_lt b' (by rw [hdata]; rfl)
  · have hwire := hr.wire
    rw [hl', empty_ofList_iff]
    rw [hl'] at hwire
    constructor
    · intro hempty
      rwa [hempty, List.append_nil] at hwire
    · intro hall
      rw [hall] at hwire
      exact List.append_right_eq_self.1 hwire
  · rw [hr.result, Int.zero_add]
    by_cases hnone : r.calls.flatMap KernelCall.accepted = []
    · simp [hnone]
    · have hlen : ((r.calls.flatMap KernelCall.accepted).length : Int) ≠ 0 :=
        mt Int.natCast_eq_zero.1 (mt List.length_eq_zero_iff.1 hnone)
      rw [if_pos hlen, if_neg hnone]

def twoDatagrams : BufferList where
  isUdp := true
  data := [⟨[1, 2, 3], some [10], nofun⟩, ⟨[4, 5, 6], some [20], nofun⟩]
  offset := 1
  offset_lt := fun b hb => by obtain rfl := Option.some.inj hb; decide

/-- The kernel takes two bytes, answers `UV_EAGAIN`, takes one byte and reports another error. -/
def slowKernel : Kernel where
  answer i len :=
    match i with
    | 0 => ⟨min 2 len, false⟩
    | 1 => ⟨-1, true⟩
    | 2 => ⟨min 1 len, false⟩
    | _ => ⟨-1, false⟩
  answer_le := fun i len => by split <;> simp only <;> omega

theorem sends_prefix_of_send_twoDatagrams :
    ∃ r, (ofList twoDatagrams).send slowKernel 5 = some r ∧ r.calls.length = 4 ∧
      SendsPrefix slowKernel (ofList twoDatagrams) r := by
  have hsend : ((ofList twoDatagrams).send slowKernel 5).map (fun r => r.calls.length) = some 4 := by decide
  obtain ⟨r, hr, hcalls⟩ := Option.map_eq_some_iff.1 hsend
  exact ⟨r, hr, hcalls, sends_prefix_of_send (by decide) hr⟩

/-! ### A full socket -/

/-- The socket is full before everything is sent: `UV_EAGAIN` is the answer to the call that is due, the `i`-th, or to
one that is due after the kernel has accepted some more. -/
inductive FillsUp (k : Kernel) : Nat → BufferSendTo → Prop where
  | now {i : Nat} {p : BufferSendTo} {buffer : Bytes × Option SockAddr} {rest : List (Bytes × Option SockAddr)}
    (hdata : p.data = buffer :: rest) (hagain : (p.call buffer (k.answer i)).answer.IsAgain) : FillsUp k i p
  | later {i : Nat} {p : BufferSendTo} {buffer : Bytes × Option SockAddr} {rest : List (Bytes × Option SockAddr)}
    (hdata : p.data = buffer :: rest) (hn : 0 < (p.call buffer (k.answer i)).answer.n)
    (hrest : FillsUp k (i + 1) (p.accept (p.call buffer (k.answer i)).answer.n.toNat)) : FillsUp k i p

/-- The call comes back, after at most one kernel call for each byte and one more, and it ends with the first answer
`UV_EAGAIN`, so that `flushData` finds this error. -/
def NeverSpins (k : Kernel) (p : BufferSendTo) : Prop :=
  ∃ fuel r, p.send k fuel = some r ∧ r.calls.length ≤ p.addressed.length + 1 ∧
    ∀ before c after, r.calls = before ++ c :: after → c.answer.IsAgain → after = []

/-- As long as the kernel accepts bytes, the loop comes to its end with them. -/
theorem sendLoop_of_not_fillsUp {k : Kernel} {fuel i : Nat} (sent : Int) {p : BufferSendTo}
    (hfuel : p.addressed.length < fuel) (hfills : ¬ FillsUp k i p) :
    ∃ r, p.sendLoop k fuel i sent = some r ∧ r.calls.length ≤ p.addressed.length + 1 ∧
      ∀ c ∈ r.calls, ¬ c.answer.IsAgain := by
  induction fuel generalizing i sent p with
  | zero => exact absurd hfuel (Nat.not_lt_zero _)
  | succ fuel ih =>
    cases hdata : p.data with
    | nil => exact ⟨⟨p, _, []⟩, by rw [sendLoop, hdata], Nat.zero_le _, nofun⟩
    | cons b bs =>
      have hagain : ¬ (p.call b (k.answer i)).answer.IsAgain := fun h => hfills (.now hdata h)
      have hlen := length_accepted_call (p := p) (b := b) k i
      have htake : (p.call b (k.answer i)).accepted.length ≤ (b.1.drop p.offset).length := List.length_take_le' _ _
      rw [sendLoop, hdata]
      simp only
      by_cases hn : (p.call b (k.answer i)).answer.n ≤ 0
      · have hother : ¬ (p.call b (k.answer i)).answer.again = true := fun h => hagain ⟨hn, h⟩
        rw [if_pos hn, if_neg hother]
        exact ⟨_, rfl, Nat.le_add_left _ _, fun c hc => List.mem_singleton.1 hc ▸ hagain⟩
      · -- at least one byte less is left, and one round less
        rw [if_neg hn]
        have hrest := addressed_accept hdata (n := (p.call b (k.answer i)).answer.n.toNat) (by omega) (by omega)
        have hdrop : (p.addressed.drop (p.call b (k.answer i)).answer.n.toNat).length =
            p.addressed.length - (p.call b (k.answer i)).answer.n.toNat := List.length_drop
        have hfirst : (p.call b (k.answer i)).answer.n.toNat ≤ p.addressed.length := by
          have hfront := (isPrefix_call hdata (by rw [List.length_drop] at htake; omega) (k.answer i)).length_le
          rw [List.length_map] at hfront
          have hoffered : (p.call b (k.answer i)).offered.length = (b.1.drop p.offset).length := rfl
          omega
        have hfuel' : (p.accept (p.call b (k.answer i)).answer.n.toNat).addressed.length < fuel := by
          rw [hrest, hdrop]
          omega
        obtain ⟨r, hr, hcalls, hnever⟩ := ih ((sent + (p.call b (k.answer i)).answer.n).bmod (2 ^ 32)) hfuel'
          (fun h => hfills (.later hdata (Int.not_le.1 hn) h))
        refine ⟨_, by rw [hr]; rfl, ?_, ?_⟩
        · rw [hrest, hdrop] at hcalls
          rw [List.length_cons]
          omega
        · exact List.forall_mem_cons.2 ⟨hagain, hnever⟩

private theorem calls_ne_nil {k : Kernel} {fuel i : Nat} {sent : Int} {p : BufferSendTo} {r : SendToResult}
    (h : p.sendLoop k fuel i sent = some r) (hdata : p.data ≠ []) : r.calls ≠ [] := by
  cases fuel with
  | zero => cases h
  | succ fuel =>
    obtain ⟨b, bs, hcons⟩ := List.exists_cons_of_ne_nil hdata
    rcases sendLoop_round hcons h with ⟨-, r', -, rfl⟩ | ⟨-, -, rfl⟩ | ⟨-, r', -, rfl⟩ <;> exact List.cons_ne_nil _ _

/-- If the socket fills up, a call that got `UV_EAGAIN` is followed by another one. -/
private theorem FillsUp.retried {k : Kernel} {i : Nat} {p : BufferSendTo} (hfills : FillsUp k i p) {fuel : Nat}
    {sent : Int} {r : SendToResult} (h : p.sendLoop k fuel i sent = some r) :
    ∃ before c after, r.calls = before ++ c :: after ∧ c.answer.IsAgain ∧ after ≠ [] := by
  induction hfills generalizing fuel sent r with
  | now hdata hagain =>
    cases fuel with
    | zero => cases h
    | succ fuel =>
      rcases sendLoop_round hdata h with ⟨-, r', hr', rfl⟩ | ⟨-, hnot, -⟩ | ⟨hn, -⟩
      · exact ⟨[], _, r'.calls, rfl, hagain, calls_ne_nil hr' (by rw [hdata]; exact List.cons_ne_nil _ _)⟩
      · exact absurd hagain hnot
      · exact absurd hagain.1 (Int.not_le.2 hn)
  | later hdata hn hrest ih =>
    cases fuel with
    | zero => cases h
    | succ fuel =>
      rcases sendLoop_round hdata h with ⟨hagain, -⟩ | ⟨hle, -⟩ | ⟨-, r', hr', rfl⟩
      · exact absurd hagain.1 (Int.not_le.2 hn)
      · exact absurd hle (Int.not_le.2 hn)
      · obtain ⟨before, c, after, hcalls, hagain, hmore⟩ := ih hr'
        exact ⟨_ :: before, c, after, congrArg (List.cons _) hcalls, hagain, hmore⟩

/-- `send` does not spin exactly if the socket does not fill up. -/
theorem never_spins_iff (k : Kernel) (p : BufferSendTo) : NeverSpins k p ↔ ¬ FillsUp k 0 p := by
  constructor
  · rintro ⟨fuel, r, hr, -, hends⟩ hfills
    obtain ⟨before, c, after, hcalls, hagain, hmore⟩ := hfills.retried hr
    exact hmore (hends before c after hcalls hagain)
  · intro hfills
    obtain ⟨r, hr, hcalls, hnever⟩ := sendLoop_of_not_fillsUp 0 (Nat.lt_succ_self _) hfills
    refine ⟨_, r, hr, hcalls, fun before c after hsplit hagain => absurd hagain (hnever c ?_)⟩
    rw [hsplit]
    exact List.mem_append_right before List.mem_cons_self

def fullKernel : Kernel where
  answer _ _ := ⟨-1, true⟩
  answer_le := fun _ len => by simp only; omega

/-- On a socket that stays full, the call does not come back, however often it is tried. -/
theorem spins_on_full_socket :
    (∀ fuel, (ofList twoDatagrams).send fullKernel fuel = none) ∧ ¬ NeverSpins fullKernel (ofList twoDatagrams) := by
  have hspins : ∀ fuel i sent, (ofList twoDatagrams).sendLoop fullKernel fuel i sent = none := by
    intro fuel
    induction fuel with
    | zero => exact fun _ _ => rfl
    | succ fuel ih =>
      intro i sent
      have hround : (ofList twoDatagrams).sendLoop fullKernel (fuel + 1) i sent =
          ((ofList twoDatagrams).sendLoop fullKernel fuel (i + 1) sent).map fun r =>
            { r with calls := ⟨[2, 3], some [10], ⟨-1, true⟩⟩ :: r.calls } := rfl
      rw [hround, ih]
      rfl
  refine ⟨fun fuel => hspins fuel 0 0, ?_⟩
  rintro ⟨fuel, r, hr, -⟩
  rw [send, hspins] at hr
  cases hr

end BufferSendTo

end AvcTool
