import AvcTool.Lib.Transition
import AvcTool.Network.EntryQueue

/-!
# Datagrams that the kernel rejects

The packets of a UDP socket are lists of datagrams, which the kernel accepts or rejects as a whole.
`BufferSendTo::send` goes on to the first datagram that is rejected, and reports an error only if it has sent nothing
before it.  Then `flushData` returns, and the datagrams of its local copy of the queue are gone, the rejected one and
those behind it (`abandoned`).

`Datagrams` has the identity of each datagram and records those that have been queued and accepted.  No datagram is
lost because of another one (`Kept`) in exactly the runs in which the kernel rejects whatever a flush abandons
(`kept_along_iff`).  As long as the sizes do not overflow, a flush of `Datagrams` is one of `EntrySocket`
(`entries_flushData`).
-/

namespace AvcTool

variable {ε : Type*}

/-- What `BufferSendTo::send` returns, the datagrams that it has sent, and what is left in `data_`. -/
structure SendTo (ε : Type*) where
  ret : Int
  accepted : List ε
  rest : List ε

structure DatagramLoop (ε : Type*) where
  stop : LoopEnd
  rest : List (List ε)
  accepted : List ε

structure Datagrams (ε : Type*) where
  sendable : Bool
  waiting : List ε
  sending : List (List ε)
  /-- the datagrams that the kernel has accepted -/
  accepted : List ε
  /-- the datagrams that `send` has been called with -/
  queued : List ε
  deriving DecidableEq

structure DatagramPass (ε : Type*) where
  socket : Datagrams ε
  ret : Option Int

inductive DatagramAction (ε : Type*) where
  | send (e : ε)
  /-- `again`: where no call of `sendto` sets it, the error number is that of `UV_EAGAIN` -/
  | flush (isEventPollerThread again : Bool)
  deriving DecidableEq

namespace Datagrams

/-! ### Flushing -/

section Flush

variable (size : ε → Nat) (rejects : ε → Bool)

/-- `BufferSendTo::send`, after `sent` bytes; the kernel takes each datagram as a whole. -/
def sendTo : Int → List ε → SendTo ε
  | sent, [] => ⟨if sent ≠ 0 then sent else -1, [], []⟩
  | sent, e :: es =>
    if rejects e then ⟨if sent ≠ 0 then sent else -1, [], e :: es⟩
    else
      let r := sendTo ((sent + size e).bmod (2 ^ 32)) es
      { r with accepted := e :: r.accepted }

/-- The loop of `flushData` over `send_buffer_sending_tmp`. -/
def datagramLoop (again : Bool) : List (List ε) → DatagramLoop ε
  | [] => ⟨.drained, [], []⟩
  | p :: ps =>
    let r := sendTo size rejects 0 p
    if 0 < r.ret then
      if r.rest.isEmpty then
        let l := datagramLoop again ps
        { l with accepted := r.accepted ++ l.accepted }
      else ⟨.partly, r.rest :: ps, r.accepted⟩
    -- a call of `sendto` that has failed leaves its error, which is not `UV_EAGAIN`
    else ⟨if r.rest.isEmpty && again then .again else .failed, r.rest :: ps, r.accepted⟩

/-- `flushData` after the loop over the packets. -/
def finishPass (isEventPollerThread : Bool) (s : Datagrams ε) (r : DatagramLoop ε) : DatagramPass ε :=
  let s := { s with accepted := s.accepted ++ r.accepted }
  match r.stop with
  | .drained => ⟨s, if isEventPollerThread then none else some 0⟩
  | .failed => ⟨s, some (-1)⟩
  | .partly =>
    let s := if isEventPollerThread then s else { s with sendable := false }
    ⟨{ s with sending := r.rest }, some 0⟩
  | .again =>
    if isEventPollerThread then ⟨s, some (-1)⟩
    else ⟨{ s with sendable := false, sending := r.rest }, some 0⟩

/-- `flushData` up to its recursive call. -/
def flushPass (isEventPollerThread again : Bool) (s : Datagrams ε) : DatagramPass ε :=
  match s.sending, s.waiting with
  | [], [] => ⟨if isEventPollerThread then { s with sendable := true } else s, some 0⟩
  | [], e :: es =>
    finishPass isEventPollerThread { s with waiting := [] } (datagramLoop size rejects again [e :: es])
  | p :: ps, _ => finishPass isEventPollerThread { s with sending := [] } (datagramLoop size rejects again (p :: ps))

def flushPasses (isEventPollerThread again : Bool) : Nat → Datagrams ε → Option (Datagrams ε × Int)
  | 0, _ => none
  | n + 1, s =>
    let p := flushPass size rejects isEventPollerThread again s
    match p.ret with
    | some ret => some (p.socket, ret)
    | none => flushPasses isEventPollerThread again n p.socket

def flushData (isEventPollerThread again : Bool) (s : Datagrams ε) : Option (Datagrams ε × Int) :=
  flushPasses size rejects isEventPollerThread again 3 s

/-- `flushAll` of a socket with a descriptor. -/
def flushAll (again : Bool) (s : Datagrams ε) : Option (Datagrams ε × Int) :=
  if s.sendable then s.flushData size rejects false again else some (s, -1)

variable [DecidableEq ε]

/-- Each datagram is queued once; the poller flushes with `flushData` and the user with `flushAll`. -/
def step (s : Datagrams ε) : DatagramAction ε → Option (Datagrams ε)
  | .send e => if e ∈ s.queued then none else some { s with waiting := s.waiting ++ [e], queued := s.queued ++ [e] }
  | .flush isEventPollerThread again =>
    if isEventPollerThread then (s.flushData size rejects true again).map Prod.fst
    else (s.flushAll size rejects again).map Prod.fst

end Flush

/-- A socket after `bindUdpSocket`. -/
def init : Datagrams ε :=
  { sendable := false, waiting := [], sending := [], accepted := [], queued := [] }

/-! ### What is kept and what is lost -/

def held (s : Datagrams ε) : List ε :=
  s.sending.flatten ++ s.waiting

/-- Every datagram that the kernel does not reject has been accepted once, or it is held. -/
def Kept [DecidableEq ε] (rejects : ε → Bool) (s : Datagrams ε) : Prop :=
  ∀ e ∈ s.queued, rejects e = false → s.accepted.count e + s.held.count e = 1

def StepKept [DecidableEq ε] (size : ε → Nat) (rejects : ε → Bool) (s : Datagrams ε) (a : DatagramAction ε) : Prop :=
  ∀ t, step size rejects s a = some t → t.Kept rejects

def front (rejects : ε → Bool) (es : List ε) : List ε :=
  es.takeWhile fun e => !rejects e

def behind (rejects : ε → Bool) (es : List ε) : List ε :=
  es.dropWhile fun e => !rejects e

/-- The number of bytes as an `int`. -/
def sentBytes (size : ε → Nat) (es : List ε) : Int :=
  ((es.map size).sum : Int).bmod (2 ^ 32)

def taken (s : Datagrams ε) : List ε :=
  if s.sending = [] then s.waiting else s.sending.flatten

/-- The datagrams that are left of the queue when a flush ends with an error. -/
def abandoned (size : ε → Nat) (rejects : ε → Bool) (s : Datagrams ε) : List ε :=
  if 0 < sentBytes size (front rejects s.taken) then [] else behind rejects s.taken

/-- The kernel rejects what the flush abandons; a flush by the user needs `sendable_`. -/
def AbandonsRejected (size : ε → Nat) (rejects : ε → Bool) (s : Datagrams ε) : DatagramAction ε → Prop
  | .send _ => True
  | .flush isEventPollerThread _ =>
    isEventPollerThread = true ∨ s.sendable = true → ∀ e ∈ s.abandoned size rejects, rejects e = true

/-- A list that is left in the sending queue begins with a datagram that has been rejected. -/
def Stuck (rejects : ε → Bool) (s : Datagrams ε) : Prop :=
  s.sending = [] ∨ ∃ p, s.sending = [p] ∧ front rejects p = []

structure Sound [DecidableEq ε] (rejects : ε → Bool) (s : Datagrams ε) : Prop where
  kept : s.Kept rejects
  stuck : s.Stuck rejects
  known : ∀ e ∈ s.accepted ++ s.held, e ∈ s.queued

/-! ### One call of `BufferSendTo::send` -/

section Flush

variable {size : ε → Nat} {rejects : ε → Bool}

private theorem sentBytes_nil : sentBytes size ([] : List ε) = 0 :=
  Int.zero_bmod

private theorem front_append_behind (es : List ε) : front rejects es ++ behind rejects es = es :=
  List.takeWhile_append_dropWhile

private theorem front_behind (es : List ε) : front rejects (behind rejects es) = [] := by
  unfold front behind
  induction es with
  | nil => rfl
  | cons e es ih =>
    cases he : rejects e with
    | true => simp [he]
    | false => simpa [he] using ih

private theorem sendTo_eq (sent : Int) (es : List ε) :
    sendTo size rejects (sent.bmod (2 ^ 32)) es =
      ⟨if (sent + ((front rejects es).map size).sum).bmod (2 ^ 32) ≠ 0 then
          (sent + ((front rejects es).map size).sum).bmod (2 ^ 32) else -1,
        front rejects es, behind rejects es⟩ := by
  induction es generalizing sent with
  | nil => simp [sendTo, front, behind]
  | cons e es ih =>
    cases he : rejects e with
    | true => simp [sendTo, front, behind, he]
    | false =>
      have hfront : front rejects (e :: es) = e :: front rejects es := by simp [front, he]
      have hbehind : behind rejects (e :: es) = behind rejects es := by simp [behind, he]
      have hnext : (sent.bmod (2 ^ 32) + size e).bmod (2 ^ 32) = (sent + size e).bmod (2 ^ 32) := Int.bmod_add_bmod
      have hsum : sent + (((e :: front rejects es).map size).sum : Nat) =
          sent + size e + (((front rejects es).map size).sum : Nat) := by
        rw [List.map_cons, List.sum_cons]
        omega
      simp only [sendTo, he, Bool.false_eq_true, if_false, hnext, ih]
      rw [hfront, hbehind, hsum]

private theorem sendTo_zero (es : List ε) :
    sendTo size rejects 0 es =
      ⟨if sentBytes size (front rejects es) ≠ 0 then sentBytes size (front rejects es) else -1,
        front rejects es, behind rejects es⟩ := by
  have h := @sendTo_eq ε size rejects 0 es
  rw [Int.zero_bmod, Int.zero_add] at h
  exact h

/-- A call reports bytes that have been sent if the number of them is positive as an `int`. -/
private theorem sendTo_pos_iff (es : List ε) :
    0 < (sendTo size rejects 0 es).ret ↔ 0 < sentBytes size (front rejects es) := by
  rw [sendTo_zero]
  by_cases h : sentBytes size (front rejects es) = 0
  · simp [h]
  · simp [h]

/-! ### One flush -/

def lost (size : ε → Nat) (rejects : ε → Bool) (p : List ε) : List ε :=
  if 0 < sentBytes size (front rejects p) then [] else behind rejects p

structure Flushed (size : ε → Nat) (rejects : ε → Bool) (s t : Datagrams ε) : Prop where
  queued : t.queued = s.queued
  accepted : t.accepted = s.accepted ++ front rejects s.taken
  held : s.held = front rejects s.taken ++ (s.abandoned size rejects ++ t.held)
  stuck : t.Stuck rejects

structure PassOver (size : ε → Nat) (rejects : ε → Bool) (p : List ε) (s : Datagrams ε) (r : DatagramPass ε) :
    Prop where
  queued : r.socket.queued = s.queued
  accepted : r.socket.accepted = s.accepted ++ front rejects p
  held : p ++ s.waiting = front rejects p ++ (lost size rejects p ++ r.socket.held)
  stuck : r.socket.Stuck rejects
  another : r.ret = none → r.socket.sending = [] ∧ r.socket.waiting = s.waiting ∧ 0 < sentBytes size (front rejects p)

private theorem datagramLoop_packet (again : Bool) (p : List ε) :
    datagramLoop size rejects again [p] =
      if 0 < sentBytes size (front rejects p) then
        if behind rejects p = [] then ⟨.drained, [], front rejects p⟩
        else ⟨.partly, [behind rejects p], front rejects p⟩
      else ⟨if behind rejects p = [] ∧ again = true then .again else .failed, [behind rejects p], front rejects p⟩ := by
  have hrest : (sendTo size rejects 0 p).rest = behind rejects p := by rw [sendTo_zero]
  have haccepted : (sendTo size rejects 0 p).accepted = front rejects p := by rw [sendTo_zero]
  simp only [datagramLoop, sendTo_pos_iff, hrest, haccepted, List.append_nil, List.isEmpty_iff, Bool.and_eq_true]

private theorem finishPass_packet (b again : Bool) (p : List ε) {s : Datagrams ε} (hsending : s.sending = []) :
    PassOver size rejects p s (finishPass b s (datagramLoop size rejects again [p])) := by
  have hsplit : front rejects p ++ (behind rejects p ++ s.waiting) = p ++ s.waiting := by
    rw [← List.append_assoc, front_append_behind]
  have hheld : s.held = s.waiting := by
    rw [held, hsending]
    rfl
  rw [datagramLoop_packet]
  by_cases hpos : 0 < sentBytes size (front rejects p)
  · have hlost : lost size rejects p = [] := if_pos hpos
    rw [if_pos hpos]
    by_cases hempty : behind rejects p = []
    · rw [if_pos hempty]
      rw [hempty, List.nil_append] at hsplit
      refine ⟨rfl, rfl, ?_, .inl hsending, fun _ => ⟨hsending, rfl, hpos⟩⟩
      rw [hlost, List.nil_append, ← hsplit]
      exact congrArg (front rejects p ++ ·) hheld.symm
    · rw [if_neg hempty]
      have hrolled : (finishPass b s ⟨.partly, [behind rejects p], front rejects p⟩).socket.held =
          behind rejects p ++ s.waiting := by
        cases b <;> simp [finishPass, held]
      refine ⟨by cases b <;> rfl, by cases b <;> rfl, ?_, ?_, fun hret => by cases b <;> cases hret⟩
      · rw [hlost, hrolled, List.nil_append, hsplit]
      · cases b
        · exact .inr ⟨behind rejects p, rfl, front_behind p⟩
        · exact .inr ⟨behind rejects p, rfl, front_behind p⟩
  · have hlost : lost size rejects p = behind rejects p := if_neg hpos
    rw [if_neg hpos]
    by_cases hagain : behind rejects p = [] ∧ again = true
    · -- nothing is left but an empty packet
      rw [if_pos hagain, hagain.1]
      rw [hagain.1, List.nil_append] at hsplit
      have hrolled : (finishPass b s ⟨.again, [[]], front rejects p⟩).socket.held = s.waiting := by
        cases b <;> simp [finishPass, held, hsending]
      refine ⟨by cases b <;> rfl, by cases b <;> rfl, ?_, ?_, fun hret => by cases b <;> cases hret⟩
      · rw [hlost, hagain.1, List.nil_append, hrolled, hsplit]
      · cases b
        · exact .inr ⟨[], rfl, rfl⟩
        · exact .inl hsending
    · rw [if_neg hagain]
      refine ⟨rfl, rfl, ?_, .inl hsending, fun hret => by cases hret⟩
      rw [hlost, ← hsplit]
      exact congrArg (fun l => front rejects p ++ (behind rejects p ++ l)) hheld.symm

theorem flushPass_waiting (b again : Bool) {s : Datagrams ε} (hsending : s.sending = []) (hwaiting : s.waiting ≠ []) :
    flushPass size rejects b again s =
      finishPass b { s with waiting := [] } (datagramLoop size rejects again [s.waiting]) := by
  unfold flushPass
  split
  · rename_i hw
    exact absurd hw hwaiting
  · rename_i e es hw
    rw [hw]
  · rename_i p ps hs
    cases hsending.symm.trans hs

theorem flushPass_sending (b again : Bool) {s : Datagrams ε} {p : List ε} {ps : List (List ε)}
    (hsending : s.sending = p :: ps) :
    flushPass size rejects b again s =
      finishPass b { s with sending := [] } (datagramLoop size rejects again (p :: ps)) := by
  unfold flushPass
  split
  · rename_i hs _
    cases hsending.symm.trans hs
  · rename_i hs _
    cases hsending.symm.trans hs
  · rename_i q qs hs
    cases hsending.symm.trans hs
    rfl

theorem flushPasses_empty (b again : Bool) (n : Nat) {s : Datagrams ε} (hsending : s.sending = [])
    (hwaiting : s.waiting = []) :
    flushPasses size rejects b again (n + 1) s = some (if b then { s with sendable := true } else s, 0) := by
  simp [flushPasses, flushPass, hsending, hwaiting]

private theorem flushPasses_of_pass {b again : Bool} {s : Datagrams ε} {p : DatagramPass ε}
    (hpass : flushPass size rejects b again s = p)
    (hnext : p.ret = none → p.socket.sending = [] ∧ p.socket.waiting = []) :
    ∃ sendable ret, s.flushData size rejects b again = some ({ p.socket with sendable := sendable }, ret) := by
  unfold flushData
  rw [flushPasses, hpass]
  cases hret : p.ret with
  | some ret => exact ⟨p.socket.sendable, ret, rfl⟩
  | none =>
    obtain ⟨hsending, hwaiting⟩ := hnext hret
    simp only [flushPasses_empty b again 1 hsending hwaiting]
    cases b
    · exact ⟨p.socket.sendable, 0, rfl⟩
    · exact ⟨true, 0, rfl⟩

theorem PassOver.flushed {p : List ε} {s s' : Datagrams ε} {r : DatagramPass ε} (h : PassOver size rejects p s' r)
    (htaken : s.taken = p) (hheld : s.held = p ++ s'.waiting) (hqueued : s'.queued = s.queued)
    (haccepted : s'.accepted = s.accepted) (sendable : Bool) :
    Flushed size rejects s { r.socket with sendable := sendable } := by
  subst htaken
  exact ⟨h.queued.trans hqueued, h.accepted.trans (by rw [haccepted]), hheld.trans h.held, h.stuck⟩

private theorem flushed_flushData (b again : Bool) {s : Datagrams ε} (hs : s.Stuck rejects) :
    ∃ t ret, s.flushData size rejects b again = some (t, ret) ∧ Flushed size rejects s t := by
  rcases hs with hsending | ⟨p, hsending, hfront⟩
  · have htaken : s.taken = s.waiting := if_pos hsending
    have hheld : s.held = s.waiting := by
      rw [held, hsending]
      rfl
    by_cases hwaiting : s.waiting = []
    · refine ⟨_, 0, flushPasses_empty b again 2 hsending hwaiting, ?_⟩
      have hnone : s.abandoned size rejects = [] := by
        simp [abandoned, htaken, hwaiting, front, behind]
      have hfront : front rejects s.taken = [] := by
        rw [htaken, hwaiting]
        rfl
      have haccepted : s.accepted = s.accepted ++ front rejects s.taken := by rw [hfront, List.append_nil]
      have hsame : s.held = front rejects s.taken ++ (s.abandoned size rejects ++ s.held) := by
        rw [hfront, hnone]
        rfl
      cases b
      · exact ⟨rfl, haccepted, hsame, .inl hsending⟩
      · exact ⟨rfl, haccepted, hsame, .inl hsending⟩
    · have hpass : PassOver size rejects s.waiting { s with waiting := [] } _ :=
        finishPass_packet b again s.waiting hsending
      obtain ⟨sendable, ret, hflush⟩ := flushPasses_of_pass (flushPass_waiting b again hsending hwaiting)
        fun hret => ⟨(hpass.another hret).1, (hpass.another hret).2.1⟩
      exact ⟨_, ret, hflush, hpass.flushed htaken (hheld.trans (List.append_nil _).symm) rfl rfl sendable⟩
  · have hne : s.sending ≠ [] := by simp [hsending]
    have htaken : s.taken = p := by simp [taken, hsending]
    have hheld : s.held = p ++ s.waiting := by simp [held, hsending]
    have hpass : PassOver size rejects p { s with sending := [] } _ := finishPass_packet b again p rfl
    have hnone : ¬ 0 < sentBytes size (front rejects p) := by
      rw [hfront, sentBytes_nil]
      decide
    obtain ⟨sendable, ret, hflush⟩ := flushPasses_of_pass (flushPass_sending b again hsending)
      fun hret => absurd (hpass.another hret).2.2 hnone
    exact ⟨_, ret, hflush, hpass.flushed htaken hheld rfl rfl sendable⟩

end Flush

/-! ### The same flush on the entries of `EntrySocket` -/

/-- The socket with the bytes of the datagrams. -/
def entries (size : ε → Nat) (s : Datagrams ε) : EntrySocket ε where
  isOpen := true
  sendable := s.sendable
  waiting := s.waiting
  sending := s.sending.map (⟨·, 0⟩)
  wire := Packet.owners size s.accepted

/-- What the calls of `BufferList::send` meet. -/
def answers (size : ε → Nat) (rejects : ε → Bool) (again : Bool) : List (List ε) → List SendOutcome
  | [] => []
  | p :: ps =>
    let r := sendTo size rejects 0 p
    if 0 < r.ret then .accepts (r.ret.toNat - 1) :: if r.rest.isEmpty then answers size rejects again ps else []
    else [if r.rest.isEmpty && again then .again else .fails]

/-- The bytes of each list can be counted with an `int`. -/
def Fits (size : ε → Nat) (s : Datagrams ε) : Prop :=
  (∀ p ∈ s.sending, (p.map size).sum < 2 ^ 31) ∧ (s.waiting.map size).sum < 2 ^ 31

section Entries

variable {size : ε → Nat} {rejects : ε → Bool}

private theorem length_owners (es : List ε) : (Packet.owners size es).length = (es.map size).sum := by
  induction es with
  | nil => rfl
  | cons e es ih => rw [Packet.owners_cons, List.length_append, List.length_replicate, ih, List.map_cons, List.sum_cons]

private theorem advance_append (hsize : ∀ e, 0 < size e) (es es' : List ε) :
    Packet.advance size (es ++ es') 0 (es.map size).sum = (es', 0) := by
  induction es with
  | nil =>
    cases es' with
    | nil => rfl
    | cons e es' => simp [Packet.advance, hsize e]
  | cons e es ih =>
    have hle : ¬ 0 + ((e :: es).map size).sum < size e := by
      rw [List.map_cons, List.sum_cons]
      omega
    have hrest : 0 + ((e :: es).map size).sum - size e = (es.map size).sum := by
      rw [List.map_cons, List.sum_cons]
      omega
    rw [List.cons_append, Packet.advance, if_neg hle, hrest, ih]

private theorem sentBytes_of_fits {p : List ε} (hp : (p.map size).sum < 2 ^ 31) :
    sentBytes size (front rejects p) = ((front rejects p).map size).sum := by
  have hsum : ((front rejects p).map size).sum + ((behind rejects p).map size).sum = (p.map size).sum := by
    rw [← List.sum_append, ← List.map_append, front_append_behind]
  unfold sentBytes
  rw [Int.bmod_eq_of_le] <;> omega

private theorem sent_packet (hsize : ∀ e, 0 < size e) {p : List ε} (hp : (p.map size).sum < 2 ^ 31)
    (hpos : 0 < sentBytes size (front rejects p)) :
    Packet.sent size ((sendTo size rejects 0 p).ret.toNat - 1 + 1) ⟨p, 0⟩ = ⟨behind rejects p, 0⟩ ∧
      (Packet.remaining size ⟨p, 0⟩).take ((sendTo size rejects 0 p).ret.toNat - 1 + 1) =
        Packet.owners size (front rejects p) := by
  have hfits : sentBytes size (front rejects p) = ((front rejects p).map size).sum := sentBytes_of_fits hp
  have hret : (sendTo size rejects 0 p).ret.toNat - 1 + 1 = ((front rejects p).map size).sum := by
    rw [sendTo_zero]
    simp only
    rw [if_pos (Int.ne_of_gt hpos)]
    omega
  have hadvance := advance_append hsize (front rejects p) (behind rejects p)
  rw [front_append_behind] at hadvance
  rw [hret]
  constructor
  · unfold Packet.sent
    rw [hadvance]
  · have hsplit : Packet.owners size p =
        Packet.owners size (front rejects p) ++ Packet.owners size (behind rejects p) := by
      rw [← Packet.owners_append, front_append_behind]
    unfold Packet.remaining
    rw [List.drop_zero, hsplit, ← length_owners, List.take_left]

private theorem entryLoop_datagrams (hsize : ∀ e, 0 < size e) (again : Bool) {ps : List (List ε)}
    (hps : ∀ p ∈ ps, (p.map size).sum < 2 ^ 31) (extra : List SendOutcome) :
    entryLoop size (ps.map (⟨·, 0⟩)) (answers size rejects again ps ++ extra) =
      some ⟨(datagramLoop size rejects again ps).stop, (datagramLoop size rejects again ps).rest.map (⟨·, 0⟩),
        Packet.owners size (datagramLoop size rejects again ps).accepted, extra⟩ := by
  induction ps with
  | nil => rfl
  | cons p ps ih =>
    have hp : (p.map size).sum < 2 ^ 31 := hps p List.mem_cons_self
    have hps' := ih fun q hq => hps q (List.mem_cons_of_mem p hq)
    have haccepted : (sendTo size rejects 0 p).accepted = front rejects p := by rw [sendTo_zero]
    have hrest : (sendTo size rejects 0 p).rest = behind rejects p := by rw [sendTo_zero]
    by_cases hpos : 0 < sentBytes size (front rejects p)
    · have hret : 0 < (sendTo size rejects 0 p).ret := (sendTo_pos_iff p).2 hpos
      obtain ⟨hsent, htaken⟩ := sent_packet hsize hp hpos
      by_cases hempty : behind rejects p = []
      · simp [answers, datagramLoop, entryLoop, hret, hrest, haccepted, hempty, hsent, htaken, hps']
      · simp [answers, datagramLoop, entryLoop, hret, hrest, haccepted, hempty, hsent, htaken]
    · have hret : ¬ 0 < (sendTo size rejects 0 p).ret := fun h => hpos ((sendTo_pos_iff p).1 h)
      have hfront : front rejects p = [] := by
        rw [sentBytes_of_fits hp] at hpos
        cases hlist : front rejects p with
        | nil => rfl
        | cons e es =>
          rw [hlist, List.map_cons, List.sum_cons] at hpos
          have hone := hsize e
          omega
      have hbehind : behind rejects p = p := by
        have hsplit : front rejects p ++ behind rejects p = p := front_append_behind p
        rwa [hfront, List.nil_append] at hsplit
      have hanswers : answers size rejects again (p :: ps) = [if p.isEmpty && again then .again else .fails] := by
        simp only [answers, hret, hrest, hbehind, if_false]
      have hloop : datagramLoop size rejects again (p :: ps) =
          ⟨if p.isEmpty && again then .again else .failed, p :: ps, []⟩ := by
        simp only [datagramLoop, hret, hrest, haccepted, hbehind, hfront, if_false]
      rw [hanswers, hloop]
      cases p.isEmpty && again <;> rfl

private theorem finishPass_entries (b : Bool) (s : Datagrams ε) (r : DatagramLoop ε) (extra : List SendOutcome) :
    (s.entries size).finishPass b ⟨r.stop, r.rest.map (⟨·, 0⟩), Packet.owners size r.accepted, extra⟩ =
      ⟨(finishPass b s r).socket.entries size, extra, (finishPass b s r).ret⟩ := by
  obtain ⟨stop, rest, accepted⟩ := r
  cases stop <;> cases b <;> simp [EntrySocket.finishPass, finishPass, entries]

private theorem flushPass_entries (hsize : ∀ e, 0 < size e) (b again : Bool) {s : Datagrams ε} (hs : s.Fits size) :
    ∃ script, ∀ extra, EntrySocket.flushPass size b (s.entries size) (script ++ extra) =
      some ⟨(flushPass size rejects b again s).socket.entries size, extra, (flushPass size rejects b again s).ret⟩ := by
  by_cases hsending : s.sending = []
  · have hnil : (s.entries size).sending = [] := by simp [entries, hsending]
    by_cases hwaiting : s.waiting = []
    · refine ⟨[], fun extra => ?_⟩
      rw [EntrySocket.flushPass_empty b _ hnil hwaiting]
      cases b <;> simp [flushPass, hsending, hwaiting, entries]
    · refine ⟨answers size rejects again [s.waiting], fun extra => ?_⟩
      have hloop := @entryLoop_datagrams ε size rejects hsize again [s.waiting] (by simpa using hs.2) extra
      have htaken : { s.entries size with waiting := [] } = entries size { s with waiting := [] } := rfl
      rw [EntrySocket.flushPass_waiting b _ hnil hwaiting, flushPass_waiting b again hsending hwaiting, htaken,
        ← finishPass_entries]
      exact congrArg (Option.map _) hloop
  · obtain ⟨p, ps, hcons⟩ := List.exists_cons_of_ne_nil hsending
    have hne : (s.entries size).sending ≠ [] := by simp [entries, hsending]
    refine ⟨answers size rejects again s.sending, fun extra => ?_⟩
    have hloop := @entryLoop_datagrams ε size rejects hsize again s.sending hs.1 extra
    have htaken : { s.entries size with sending := [] } = entries size { s with sending := [] } := rfl
    rw [EntrySocket.flushPass_sending b _ hne, flushPass_sending b again hcons, htaken, ← finishPass_entries, ← hcons]
    exact congrArg (Option.map _) hloop

private theorem fits_flushPass {b again : Bool} {s : Datagrams ε} (hs : s.Fits size)
    (hret : (flushPass size rejects b again s).ret = none) : (flushPass size rejects b again s).socket.Fits size := by
  have hfinish : ∀ {t : Datagrams ε} {r : DatagramLoop ε}, t.Fits size → (finishPass b t r).ret = none →
      (finishPass b t r).socket.Fits size := by
    intro t r ht hnone
    obtain ⟨stop, rest, accepted⟩ := r
    cases stop <;> cases b <;> first | exact ht | cases hnone
  by_cases hsending : s.sending = []
  · by_cases hwaiting : s.waiting = []
    · simp [flushPass, hsending, hwaiting] at hret
    · rw [flushPass_waiting b again hsending hwaiting] at hret ⊢
      have hempty : (([] : List ε).map size).sum < 2 ^ 31 := Nat.two_pow_pos 31
      exact hfinish ⟨hs.1, hempty⟩ hret
  · obtain ⟨p, ps, hcons⟩ := List.exists_cons_of_ne_nil hsending
    rw [flushPass_sending b again hcons] at hret ⊢
    exact hfinish ⟨List.forall_mem_nil _, hs.2⟩ hret

/-- A flush of datagrams is a flush of their bytes. -/
theorem entries_flushData (hsize : ∀ e, 0 < size e) {b again : Bool} {s t : Datagrams ε} (hs : s.Fits size) {ret : Int}
    (h : s.flushData size rejects b again = some (t, ret)) :
    ∃ script, (s.entries size).flushData size b script = some (t.entries size, [], ret) := by
  have hpasses : ∀ (n : Nat) (s : Datagrams ε), s.Fits size →
      flushPasses size rejects b again n s = some (t, ret) → ∃ script, ∀ extra,
        EntrySocket.flushPasses size b n (s.entries size) (script ++ extra) = some (t.entries size, extra, ret) := by
    intro n
    induction n with
    | zero => exact fun _ _ h => nomatch h
    | succ n ih =>
      intro s hs h
      obtain ⟨script, hscript⟩ := @flushPass_entries ε size rejects hsize b again s hs
      unfold flushPasses at h
      cases hret : (flushPass size rejects b again s).ret with
      | some r =>
        simp only [hret, Option.some.injEq, Prod.mk.injEq] at h
        obtain ⟨rfl, rfl⟩ := h
        refine ⟨script, fun extra => ?_⟩
        simp only [EntrySocket.flushPasses, hscript extra, Option.bind_some, hret]
      | none =>
        simp only [hret] at h
        obtain ⟨script', hscript'⟩ := ih _ (fits_flushPass hs hret) h
        refine ⟨script ++ script', fun extra => ?_⟩
        simp only [EntrySocket.flushPasses, List.append_assoc, hscript, Option.bind_some, hret, hscript' extra]
  obtain ⟨script, hscript⟩ := hpasses 3 s hs h
  have hexact := hscript []
  rw [List.append_nil] at hexact
  exact ⟨script, hexact⟩

end Entries

/-! ### Main results -/

section Runs

variable [DecidableEq ε] {size : ε → Nat} {rejects : ε → Bool}

omit [DecidableEq ε] in
private theorem abandoned_subset (s : Datagrams ε) : s.abandoned size rejects ⊆ s.held := by
  intro e he
  have htaken : e ∈ s.taken := by
    unfold abandoned at he
    split at he
    · cases he
    · exact (List.dropWhile_suffix _).subset he
  unfold taken at htaken
  split at htaken
  · exact List.mem_append_right _ htaken
  · exact List.mem_append_left _ htaken

/-- A flush keeps the datagrams exactly if the kernel rejects those that it abandons. -/
private theorem Flushed.kept_iff {s t : Datagrams ε} (h : Flushed size rejects s t) (hs : Sound rejects s) :
    t.Kept rejects ↔ ∀ e ∈ s.abandoned size rejects, rejects e = true := by
  have hcount : ∀ e, s.accepted.count e + s.held.count e =
      t.accepted.count e + t.held.count e + (s.abandoned size rejects).count e := by
    intro e
    rw [h.accepted, h.held]
    simp only [List.count_append]
    omega
  constructor
  · intro hkept e he
    by_contra hnot
    have haccepts : rejects e = false := Bool.eq_false_iff.2 hnot
    have hqueued : e ∈ s.queued := hs.known e (List.mem_append_right _ (abandoned_subset s he))
    have hbefore := hs.kept e hqueued haccepts
    have hafter := hkept e (h.queued ▸ hqueued) haccepts
    have hpos : 0 < (s.abandoned size rejects).count e := List.count_pos_iff.2 he
    have hsum := hcount e
    omega
  · intro hall e hqueued haccepts
    have hbefore := hs.kept e (h.queued ▸ hqueued) haccepts
    have hzero : (s.abandoned size rejects).count e = 0 := by
      rw [List.count_eq_zero]
      intro he
      rw [hall e he] at haccepts
      cases haccepts
    have hsum := hcount e
    omega

theorem Flushed.sound {s t : Datagrams ε} (h : Flushed size rejects s t) (hs : Sound rejects s)
    (hall : ∀ e ∈ s.abandoned size rejects, rejects e = true) : Sound rejects t := by
  refine ⟨(h.kept_iff hs).2 hall, h.stuck, fun e he => ?_⟩
  rw [h.queued]
  apply hs.known
  rw [h.held]
  rw [h.accepted] at he
  simp only [List.mem_append] at he ⊢
  tauto

/-- What a flush in a run does: nothing, if it is the user's and the socket is not writable. -/
theorem step_flush {s : Datagrams ε} (hs : s.Stuck rejects) (b again : Bool) :
    ∃ t, step size rejects s (.flush b again) = some t ∧
      ((b = true ∨ s.sendable = true) ∧ Flushed size rejects s t ∨ ¬ (b = true ∨ s.sendable = true) ∧ t = s) := by
  obtain ⟨t, ret, hflush, hflushed⟩ := @flushed_flushData ε size rejects b again s hs
  cases b with
  | true =>
    refine ⟨t, ?_, .inl ⟨.inl rfl, hflushed⟩⟩
    change (s.flushData size rejects true again).map Prod.fst = some t
    rw [hflush]
    rfl
  | false =>
    by_cases hsendable : s.sendable = true
    · refine ⟨t, ?_, .inl ⟨.inr hsendable, hflushed⟩⟩
      change (s.flushAll size rejects again).map Prod.fst = some t
      rw [flushAll, if_pos hsendable, hflush]
      rfl
    · refine ⟨s, ?_, .inr ⟨by simp [hsendable], rfl⟩⟩
      change (s.flushAll size rejects again).map Prod.fst = some s
      rw [flushAll, if_neg hsendable]
      rfl

private theorem sound_send {s t : Datagrams ε} {e : ε} (hs : Sound rejects s)
    (h : step size rejects s (.send e) = some t) : Sound rejects t := by
  obtain ⟨hnew, heq⟩ := Option.ite_none_left_eq_some.1 h
  obtain rfl := Option.some.inj heq
  have hheld : held { s with waiting := s.waiting ++ [e], queued := s.queued ++ [e] } = s.held ++ [e] :=
    (List.append_assoc _ _ _).symm
  refine ⟨fun e' hqueued haccepts => ?_, hs.stuck, fun e' he' => ?_⟩
  · rw [hheld, List.count_append]
    change s.accepted.count e' + (s.held.count e' + [e].count e') = 1
    rcases List.mem_append.1 hqueued with hold | hlast
    · have hne : e ≠ e' := fun heq => hnew (heq ▸ hold)
      have hbefore := hs.kept e' hold haccepts
      have hzero : [e].count e' = 0 := by simp [hne]
      omega
    · obtain rfl := List.mem_singleton.1 hlast
      have haccepted : s.accepted.count e' = 0 :=
        List.count_eq_zero.2 fun he => hnew (hs.known e' (List.mem_append_left _ he))
      have hheld : s.held.count e' = 0 :=
        List.count_eq_zero.2 fun he => hnew (hs.known e' (List.mem_append_right _ he))
      have hone : [e'].count e' = 1 := List.count_singleton_self
      omega
  · rw [hheld, ← List.append_assoc] at he'
    rcases List.mem_append.1 he' with he' | hlast
    · exact List.mem_append_left _ (hs.known e' he')
    · exact List.mem_append_right _ hlast

private theorem stepKept_iff {s : Datagrams ε} (hs : Sound rejects s) (a : DatagramAction ε) :
    StepKept size rejects s a ↔ AbandonsRejected size rejects s a := by
  cases a with
  | send e => exact ⟨fun _ => trivial, fun _ t ht => (sound_send hs ht).kept⟩
  | flush b again =>
    obtain ⟨t, ht, hgate⟩ := @step_flush ε _ size rejects s hs.stuck b again
    have hstep : StepKept size rejects s (.flush b again) ↔ t.Kept rejects := by
      refine ⟨fun h => h t ht, fun h u hu => ?_⟩
      obtain rfl := Option.some.inj (ht.symm.trans hu)
      exact h
    rw [hstep]
    rcases hgate with ⟨hopen, hflushed⟩ | ⟨hshut, rfl⟩
    · exact (hflushed.kept_iff hs).trans ⟨fun h _ => h, fun h => h hopen⟩
    · exact ⟨fun _ hopen => absurd hopen hshut, fun _ => hs.kept⟩

theorem sound_step {s t : Datagrams ε} {a : DatagramAction ε} (hs : Sound rejects s)
    (ha : AbandonsRejected size rejects s a) (h : step size rejects s a = some t) : Sound rejects t := by
  cases a with
  | send e => exact sound_send hs h
  | flush b again =>
    obtain ⟨u, hu, hgate⟩ := @step_flush ε _ size rejects s hs.stuck b again
    obtain rfl := Option.some.inj (hu.symm.trans h)
    rcases hgate with ⟨hopen, hflushed⟩ | ⟨-, rfl⟩
    · exact hflushed.sound hs (ha hopen)
    · exact hs

/-- No datagram is lost in a run exactly if every flush abandons only datagrams that the kernel rejects. -/
theorem kept_along_iff (size : ε → Nat) (rejects : ε → Bool) (as : List (DatagramAction ε)) :
    Transition.Along (step size rejects) (StepKept size rejects) init as ↔
      Transition.Along (step size rejects) (AbandonsRejected size rejects) init as := by
  have hstep : ∀ (s : Datagrams ε) (a : DatagramAction ε) (t : Datagrams ε), Sound rejects s →
      AbandonsRejected size rejects s a → step size rejects s a = some t → Sound rejects t :=
    fun _ _ _ hs ha h => sound_step hs ha h
  have hinit : Sound rejects (init : Datagrams ε) :=
    ⟨List.forall_mem_nil _, .inl rfl, List.forall_mem_nil _⟩
  exact Transition.along_iff_of_invariant hstep (fun s a hs => stepKept_iff hs a) hinit as

end Runs

def secondTooLong (e : Nat) : Nat := if e = 1 then 70000 else 100

def threeSent : List (DatagramAction Nat) := [.send 0, .send 1, .send 2, .flush true false]

/-- The kernel rejects the second datagram, and the third is lost with it. -/
theorem lost_behind_rejected :
    ¬ Transition.Along (step secondTooLong (· = 1)) (StepKept secondTooLong (· = 1)) init
      (threeSent ++ [.flush true false]) := by
  intro hrun
  have hlast : StepKept _ _ ⟨false, [], [[1, 2]], [0], [0, 1, 2]⟩ _ := Transition.ok_of_along_append hrun rfl
  have hkept := hlast ⟨false, [], [], [0], [0, 1, 2]⟩ rfl 2 (by decide) rfl
  exact absurd hkept (by decide)

end Datagrams

end AvcTool
