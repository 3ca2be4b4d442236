import AvcTool.Network.Socket

/-!
# The send queues with the identity of their entries

Two buffers with the same bytes are the same value in `Socket`.  To say what becomes of the buffer of one call of
`send`, `EntrySocket` has the members of `Socket` that a flush reads and writes, with entries of any type `ε` in the
queues; `size` gives the number of bytes of an entry, and `wire` the entry that each byte the kernel has accepted
belongs to.  When the entries are read as buffers, the functions compute what those of `Socket` compute
(`represents_flushData`, `represents_sendL`).

No entry comes into the queues or onto the wire but by `send` (`within_flushData`).  A flush by the user that meets no
error keeps every byte (`UserFlush.ok`); one that does loses the packets it has taken out (`UserFlush.failed`).
-/

namespace AvcTool

variable {ε : Type*}

/-- A `BufferList` of entries. -/
structure Packet (ε : Type*) where
  data : List ε
  offset : Nat
  deriving DecidableEq

namespace Packet

variable (size : ε → Nat)

/-- The entries and the offset that are left after `n` bytes more. -/
def advance : List ε → Nat → Nat → List ε × Nat
  | [], _, _ => ([], 0)
  | e :: es, offset, n => if offset + n < size e then (e :: es, offset + n) else advance es 0 (offset + n - size e)

def sent (n : Nat) (p : Packet ε) : Packet ε :=
  ⟨(advance size p.data p.offset n).1, (advance size p.data p.offset n).2⟩

/-- The entry of each byte of a list of entries. -/
def owners (es : List ε) : List ε :=
  es.flatMap fun e => List.replicate (size e) e

def remaining (p : Packet ε) : List ε :=
  (owners size p.data).drop p.offset

end Packet

structure EntryLoop (ε : Type*) where
  stop : LoopEnd
  rest : List (Packet ε)
  wire : List ε
  script : List SendOutcome

/-- The loop of `flushData` over `send_buffer_sending_tmp`. -/
def entryLoop (size : ε → Nat) : List (Packet ε) → List SendOutcome → Option (EntryLoop ε)
  | [], script => some ⟨.drained, [], [], script⟩
  | _ :: _, [] => none
  | p :: ps, .accepts room :: script =>
    if (p.sent size (room + 1)).data.isEmpty then
      (entryLoop size ps script).map fun r => { r with wire := (p.remaining size).take (room + 1) ++ r.wire }
    else some ⟨.partly, p.sent size (room + 1) :: ps, (p.remaining size).take (room + 1), script⟩
  | p :: ps, .again :: script => some ⟨.again, p :: ps, [], script⟩
  | p :: ps, .fails :: script => some ⟨.failed, p :: ps, [], script⟩

structure EntrySocket (ε : Type*) where
  /-- `sock_fd_` is not null -/
  isOpen : Bool
  sendable : Bool
  waiting : List ε
  sending : List (Packet ε)
  wire : List ε
  deriving DecidableEq

structure EntryPass (ε : Type*) where
  socket : EntrySocket ε
  script : List SendOutcome
  ret : Option Int

namespace EntrySocket

def closed : EntrySocket ε :=
  { isOpen := false, sendable := false, waiting := [], sending := [], wire := [] }

/-! ### Flushing and sending -/

/-- `flushData` after the loop over the packets. -/
def finishPass (isEventPollerThread : Bool) (s : EntrySocket ε) (r : EntryLoop ε) : EntryPass ε :=
  let s := { s with wire := s.wire ++ r.wire }
  match r.stop with
  | .drained => ⟨s, r.script, if isEventPollerThread then none else some 0⟩
  | .failed => ⟨s, r.script, some (-1)⟩
  | .partly =>
    let s := if isEventPollerThread then s else { s with sendable := false }
    ⟨{ s with sending := r.rest }, r.script, some 0⟩
  | .again =>
    if isEventPollerThread then ⟨s, r.script, some (-1)⟩
    else ⟨{ s with sendable := false, sending := r.rest }, r.script, some 0⟩

/-- `flushData` up to its recursive call. -/
def flushPass (size : ε → Nat) (isEventPollerThread : Bool) (s : EntrySocket ε) (script : List SendOutcome) :
    Option (EntryPass ε) :=
  match s.sending, s.waiting with
  | [], [] => some ⟨if isEventPollerThread then { s with sendable := true } else s, script, some 0⟩
  | [], e :: es =>
    (entryLoop size [⟨e :: es, 0⟩] script).map (finishPass isEventPollerThread { s with waiting := [] })
  | p :: ps, _ =>
    (entryLoop size (p :: ps) script).map (finishPass isEventPollerThread { s with sending := [] })

def flushPasses (size : ε → Nat) (isEventPollerThread : Bool) :
    Nat → EntrySocket ε → List SendOutcome → Option (EntrySocket ε × List SendOutcome × Int)
  | 0, _, _ => none
  | n + 1, s, script =>
    (flushPass size isEventPollerThread s script).bind fun p =>
      match p.ret with
      | some ret => some (p.socket, p.script, ret)
      | none => flushPasses size isEventPollerThread n p.socket p.script

def flushData (size : ε → Nat) (isEventPollerThread : Bool) (s : EntrySocket ε) (script : List SendOutcome) :
    Option (EntrySocket ε × List SendOutcome × Int) :=
  flushPasses size isEventPollerThread 3 s script

def flushAll (size : ε → Nat) (s : EntrySocket ε) (script : List SendOutcome) :
    Option (EntrySocket ε × List SendOutcome × Int) :=
  if s.isOpen then
    if s.sendable then s.flushData size false script else some (s, script, -1)
  else some (s, script, -1)

/-- `send_l` with the entry of a buffer that is not empty. -/
def sendL (size : ε → Nat) (e : ε) (tryFlush : Bool) (s : EntrySocket ε) (script : List SendOutcome) :
    Option (EntrySocket ε × List SendOutcome × Int) :=
  let s := { s with waiting := s.waiting ++ [e] }
  let size' := (size e : Int).bmod (2 ^ 32)
  if tryFlush then
    (s.flushAll size script).map fun (s, script, ret) => (s, script, if ret = -1 then -1 else size')
  else some (s, script, size')

/-- `closeSocket`; the queues stay. -/
def closeSocket (s : EntrySocket ε) : EntrySocket ε :=
  { s with isOpen := false, sendable := false }

/-- `fromSockFd`, whether or not the poller accepts the descriptor. -/
def fromSockFd (s : EntrySocket ε) : EntrySocket ε :=
  { s.closeSocket with isOpen := true }

end EntrySocket

/-! ### Bytes and their entries -/

namespace Packet

variable {size : ε → Nat}

@[simp] theorem owners_nil : owners size [] = [] := rfl

@[simp] theorem owners_cons (e : ε) (es : List ε) : owners size (e :: es) = List.replicate (size e) e ++ owners size es :=
  rfl

@[simp] theorem owners_append (es es' : List ε) : owners size (es ++ es') = owners size es ++ owners size es' :=
  List.flatMap_append

private theorem mem_of_mem_owners {e : ε} {es : List ε} (h : e ∈ owners size es) : e ∈ es := by
  obtain ⟨e', he', hmem⟩ := List.mem_flatMap.1 h
  rwa [List.eq_of_mem_replicate hmem]

private theorem mem_of_mem_remaining {e : ε} {p : Packet ε} (h : e ∈ p.remaining size) : e ∈ p.data :=
  mem_of_mem_owners (List.mem_of_mem_drop h)

theorem advance_remaining (es : List ε) (offset n : Nat) :
    (owners size (advance size es offset n).1).drop (advance size es offset n).2 =
      (owners size es).drop (offset + n) := by
  induction es generalizing offset n with
  | nil => simp [advance]
  | cons e es ih =>
    unfold advance
    split
    · rfl
    · rename_i hle
      have hlen : (List.replicate (size e) e).length ≤ offset + n := by
        rw [List.length_replicate]
        omega
      rw [ih, owners_cons, List.drop_append, List.drop_eq_nil_of_le hlen, List.nil_append, List.length_replicate,
        Nat.zero_add]

theorem remaining_sent (n : Nat) (p : Packet ε) : (p.sent size n).remaining size = (p.remaining size).drop n := by
  change (owners size (advance size p.data p.offset n).1).drop (advance size p.data p.offset n).2 = _
  rw [advance_remaining, remaining, List.drop_drop]

private theorem advance_subset (es : List ε) (offset n : Nat) : (advance size es offset n).1 ⊆ es := by
  induction es generalizing offset n with
  | nil => exact List.Subset.refl _
  | cons e es ih =>
    unfold advance
    split
    · exact List.Subset.refl _
    · exact fun e' he' => List.mem_cons_of_mem e (ih _ _ he')

end Packet

def packetOwners (size : ε → Nat) (ps : List (Packet ε)) : List ε :=
  ps.flatMap (Packet.remaining size)

section Loop

variable {size : ε → Nat}

@[simp] theorem packetOwners_nil : packetOwners size [] = [] := rfl

@[simp] theorem packetOwners_cons (p : Packet ε) (ps : List (Packet ε)) :
    packetOwners size (p :: ps) = p.remaining size ++ packetOwners size ps := rfl

private theorem entryLoop_wire {ps : List (Packet ε)} {script : List SendOutcome} {r : EntryLoop ε}
    (h : entryLoop size ps script = some r) : r.wire ++ packetOwners size r.rest = packetOwners size ps := by
  induction ps generalizing script r with
  | nil =>
    obtain rfl := Option.some.inj h
    rfl
  | cons p ps ih =>
    rcases script with _ | ⟨room | _ | _, script⟩
    · cases h
    · have hsplit : (p.remaining size).take (room + 1) ++ (p.sent size (room + 1)).remaining size = p.remaining size := by
        rw [Packet.remaining_sent, List.take_append_drop]
      simp only [entryLoop] at h
      split at h
      · rename_i hempty
        obtain ⟨r', hr', rfl⟩ := Option.map_eq_some_iff.1 h
        have hnone : (p.sent size (room + 1)).remaining size = [] := by
          rw [Packet.remaining, List.isEmpty_iff.1 hempty, Packet.owners_nil, List.drop_nil]
        rw [hnone, List.append_nil] at hsplit
        rw [packetOwners_cons, ← ih hr', List.append_assoc, hsplit]
      · obtain rfl := Option.some.inj h
        rw [packetOwners_cons, packetOwners_cons, ← List.append_assoc, hsplit]
    · obtain rfl := Option.some.inj h
      rfl
    · obtain rfl := Option.some.inj h
      rfl

private theorem entryLoop_drained {ps : List (Packet ε)} {script : List SendOutcome} {r : EntryLoop ε}
    (h : entryLoop size ps script = some r) (hstop : r.stop = .drained) : r.rest = [] := by
  induction ps generalizing script r with
  | nil =>
    obtain rfl := Option.some.inj h
    rfl
  | cons p ps ih =>
    rcases script with _ | ⟨room | _ | _, script⟩
    · cases h
    · simp only [entryLoop] at h
      split at h
      · obtain ⟨r', hr', rfl⟩ := Option.map_eq_some_iff.1 h
        exact ih (r := r') hr' hstop
      · obtain rfl := Option.some.inj h
        cases hstop
    · obtain rfl := Option.some.inj h
      cases hstop
    · obtain rfl := Option.some.inj h
      cases hstop

private theorem entryLoop_failed_iff {ps : List (Packet ε)} {script : List SendOutcome} {r : EntryLoop ε}
    (h : entryLoop size ps script = some r) (hleft : r.script = []) : r.stop = .failed ↔ .fails ∈ script := by
  induction ps generalizing script r with
  | nil =>
    obtain rfl := Option.some.inj h
    obtain rfl : script = [] := hleft
    exact ⟨nofun, nofun⟩
  | cons p ps ih =>
    rcases script with _ | ⟨room | _ | _, script⟩
    · cases h
    · simp only [entryLoop] at h
      split at h
      · obtain ⟨r', hr', rfl⟩ := Option.map_eq_some_iff.1 h
        have hrest := ih (r := r') hr' hleft
        simp only [List.mem_cons, reduceCtorEq, false_or]
        exact hrest
      · obtain rfl := Option.some.inj h
        obtain rfl : script = [] := hleft
        simp
    · obtain rfl := Option.some.inj h
      obtain rfl : script = [] := hleft
      simp
    · obtain rfl := Option.some.inj h
      simp

private theorem entryLoop_within {q : ε → Prop} {ps : List (Packet ε)} {script : List SendOutcome} {r : EntryLoop ε}
    (h : entryLoop size ps script = some r) (hps : ∀ p ∈ ps, ∀ e ∈ p.data, q e) :
    (∀ p ∈ r.rest, ∀ e ∈ p.data, q e) ∧ ∀ e ∈ r.wire, q e := by
  induction ps generalizing script r with
  | nil =>
    obtain rfl := Option.some.inj h
    exact ⟨nofun, nofun⟩
  | cons p ps ih =>
    have hp : ∀ e ∈ p.data, q e := hps p List.mem_cons_self
    have hrest : ∀ p ∈ ps, ∀ e ∈ p.data, q e := fun p' hp' => hps p' (List.mem_cons_of_mem p hp')
    rcases script with _ | ⟨room | _ | _, script⟩
    · cases h
    · have htaken : ∀ e ∈ (p.remaining size).take (room + 1), q e :=
        fun e he => hp e (Packet.mem_of_mem_remaining (List.mem_of_mem_take he))
      simp only [entryLoop] at h
      split at h
      · obtain ⟨r', hr', rfl⟩ := Option.map_eq_some_iff.1 h
        obtain ⟨hleft, hwire⟩ := ih hr' hrest
        refine ⟨hleft, fun e he => ?_⟩
        rcases List.mem_append.1 he with he | he
        · exact htaken e he
        · exact hwire e he
      · obtain rfl := Option.some.inj h
        refine ⟨fun p' hp' => ?_, htaken⟩
        rcases List.mem_cons.1 hp' with rfl | hp'
        · exact fun e he => hp e (Packet.advance_subset p.data p.offset (room + 1) he)
        · exact hrest p' hp'
    · obtain rfl := Option.some.inj h
      exact ⟨hps, nofun⟩
    · obtain rfl := Option.some.inj h
      exact ⟨hps, nofun⟩

end Loop

namespace EntrySocket

/-! ### The entries of a socket -/

def entries (s : EntrySocket ε) : List ε :=
  s.sending.flatMap Packet.data ++ s.waiting

def pending (size : ε → Nat) (s : EntrySocket ε) : List ε :=
  packetOwners size s.sending ++ Packet.owners size s.waiting

theorem mem_entries {s : EntrySocket ε} {e : ε} : e ∈ s.entries ↔ (∃ p ∈ s.sending, e ∈ p.data) ∨ e ∈ s.waiting := by
  rw [entries, List.mem_append, List.mem_flatMap]

theorem mem_entries_of_mem_pending {size : ε → Nat} {s : EntrySocket ε} {e : ε} (h : e ∈ s.pending size) :
    e ∈ s.entries := by
  rw [mem_entries]
  rcases List.mem_append.1 h with h | h
  · obtain ⟨p, hp, he⟩ := List.mem_flatMap.1 h
    exact .inl ⟨p, hp, Packet.mem_of_mem_remaining he⟩
  · exact .inr (Packet.mem_of_mem_owners h)

/-- The entries in the queues and on the wire have the property `q`. -/
structure Within (q : ε → Prop) (s : EntrySocket ε) : Prop where
  entries : ∀ e ∈ s.entries, q e
  wire : ∀ e ∈ s.wire, q e

variable {size : ε → Nat} {q : ε → Prop}

theorem Within.of_queues {s : EntrySocket ε} (hsending : ∀ p ∈ s.sending, ∀ e ∈ p.data, q e)
    (hwaiting : ∀ e ∈ s.waiting, q e) (hwire : ∀ e ∈ s.wire, q e) : Within q s := by
  refine ⟨fun e he => ?_, hwire⟩
  rcases mem_entries.1 he with ⟨p, hp, he⟩ | he
  · exact hsending p hp e he
  · exact hwaiting e he

theorem Within.mono {q' : ε → Prop} {s : EntrySocket ε} (hs : Within q s) (h : ∀ e, q e → q' e) : Within q' s :=
  ⟨fun e he => h e (hs.entries e he), fun e he => h e (hs.wire e he)⟩

theorem Within.sending {s : EntrySocket ε} (hs : Within q s) : ∀ p ∈ s.sending, ∀ e ∈ p.data, q e :=
  fun p hp e he => hs.entries e (mem_entries.2 (.inl ⟨p, hp, he⟩))

theorem Within.waiting {s : EntrySocket ε} (hs : Within q s) : ∀ e ∈ s.waiting, q e :=
  fun e he => hs.entries e (mem_entries.2 (.inr he))

theorem flushPass_empty {s : EntrySocket ε} (b : Bool) (script : List SendOutcome) (hsending : s.sending = [])
    (hwaiting : s.waiting = []) :
    flushPass size b s script = some ⟨if b then { s with sendable := true } else s, script, some 0⟩ := by
  unfold flushPass
  split
  · rfl
  · rename_i e es hw
    cases hwaiting.symm.trans hw
  · rename_i p ps hs
    cases hsending.symm.trans hs

theorem flushPass_waiting {s : EntrySocket ε} (b : Bool) (script : List SendOutcome) (hsending : s.sending = [])
    (hwaiting : s.waiting ≠ []) :
    flushPass size b s script =
      (entryLoop size [⟨s.waiting, 0⟩] script).map (finishPass b { s with waiting := [] }) := by
  unfold flushPass
  split
  · rename_i hw
    exact absurd hw hwaiting
  · rename_i e es hw
    rw [hw]
  · rename_i p ps hs
    cases hsending.symm.trans hs

theorem flushPass_sending {s : EntrySocket ε} (b : Bool) (script : List SendOutcome) (hsending : s.sending ≠ []) :
    flushPass size b s script = (entryLoop size s.sending script).map (finishPass b { s with sending := [] }) := by
  unfold flushPass
  split
  · rename_i hs hw
    exact absurd hs hsending
  · rename_i hs hw
    exact absurd hs hsending
  · rename_i p ps hs
    rw [hs]

private theorem within_finishPass {b : Bool} {s : EntrySocket ε} {ps : List (Packet ε)} {script : List SendOutcome}
    {r : EntryLoop ε} (hloop : entryLoop size ps script = some r) (hs : Within q s)
    (hps : ∀ p ∈ ps, ∀ e ∈ p.data, q e) : Within q (finishPass b s r).socket := by
  obtain ⟨hrest, hwire⟩ := entryLoop_within hloop hps
  have hboth : ∀ e ∈ s.wire ++ r.wire, q e := by
    intro e he
    rcases List.mem_append.1 he with he | he
    · exact hs.wire e he
    · exact hwire e he
  unfold finishPass
  cases r.stop with
  | drained => exact .of_queues hs.sending hs.waiting hboth
  | failed => exact .of_queues hs.sending hs.waiting hboth
  | partly => cases b <;> exact .of_queues hrest hs.waiting hboth
  | again =>
    cases b with
    | true => exact .of_queues hs.sending hs.waiting hboth
    | false => exact .of_queues hrest hs.waiting hboth

private theorem within_flushPass {b : Bool} {s : EntrySocket ε} {script : List SendOutcome} {p : EntryPass ε}
    (h : flushPass size b s script = some p) (hs : Within q s) : Within q p.socket := by
  by_cases hsending : s.sending = []
  · by_cases hwaiting : s.waiting = []
    · rw [flushPass_empty b script hsending hwaiting] at h
      obtain rfl := Option.some.inj h
      cases b <;> exact .of_queues hs.sending hs.waiting hs.wire
    · rw [flushPass_waiting b script hsending hwaiting] at h
      obtain ⟨r, hr, rfl⟩ := Option.map_eq_some_iff.1 h
      refine within_finishPass hr (.of_queues hs.sending nofun hs.wire) ?_
      intro p hp
      rw [List.mem_singleton.1 hp]
      exact hs.waiting
  · rw [flushPass_sending b script hsending] at h
    obtain ⟨r, hr, rfl⟩ := Option.map_eq_some_iff.1 h
    exact within_finishPass hr (.of_queues nofun hs.waiting hs.wire) hs.sending

private theorem within_flushPasses {b : Bool} {n : Nat} {s s' : EntrySocket ε} {script left : List SendOutcome}
    {ret : Int} (h : flushPasses size b n s script = some (s', left, ret)) (hs : Within q s) : Within q s' := by
  induction n generalizing s script with
  | zero => cases h
  | succ n ih =>
    obtain ⟨p, hp, hnext⟩ := Option.bind_eq_some_iff.1 h
    have hpass := within_flushPass hp hs
    cases hret : p.ret with
    | some r =>
      simp only [hret, Option.some.injEq, Prod.mk.injEq] at hnext
      rw [← hnext.1]
      exact hpass
    | none =>
      simp only [hret] at hnext
      exact ih hnext hpass

/-- A flush brings no entry into the queues or onto the wire that was not in the queues. -/
theorem within_flushData {b : Bool} {s s' : EntrySocket ε} {script left : List SendOutcome} {ret : Int}
    (h : s.flushData size b script = some (s', left, ret)) (hs : Within q s) : Within q s' :=
  within_flushPasses h hs

private theorem within_flushAll {s s' : EntrySocket ε} {script left : List SendOutcome} {ret : Int}
    (h : s.flushAll size script = some (s', left, ret)) (hs : Within q s) : Within q s' := by
  unfold flushAll at h
  split at h
  · split at h
    · exact within_flushData h hs
    · obtain ⟨rfl, -⟩ := Prod.mk.inj (Option.some.inj h)
      exact hs
  · obtain ⟨rfl, -⟩ := Prod.mk.inj (Option.some.inj h)
    exact hs

private theorem within_enqueue {s : EntrySocket ε} (hs : Within q s) {e : ε} (he : q e) :
    Within q { s with waiting := s.waiting ++ [e] } := by
  refine .of_queues hs.sending (fun e' he' => ?_) hs.wire
  rcases List.mem_append.1 he' with he' | he'
  · exact hs.waiting e' he'
  · rw [List.mem_singleton.1 he']
    exact he

theorem within_sendL {e : ε} {tryFlush : Bool} {s s' : EntrySocket ε} {script left : List SendOutcome} {ret : Int}
    (h : s.sendL size e tryFlush script = some (s', left, ret)) (hs : Within q s) (he : q e) : Within q s' := by
  have henqueue := within_enqueue hs he
  unfold sendL at h
  split at h
  · obtain ⟨⟨s₁, left₁, ret₁⟩, hflush, heq⟩ := Option.map_eq_some_iff.1 h
    obtain ⟨rfl, -⟩ := Prod.mk.inj heq
    exact within_flushAll hflush henqueue
  · obtain ⟨rfl, -⟩ := Prod.mk.inj (Option.some.inj h)
    exact henqueue

theorem within_closeSocket {s : EntrySocket ε} (hs : Within q s) : Within q s.closeSocket :=
  .of_queues hs.sending hs.waiting hs.wire

theorem within_fromSockFd {s : EntrySocket ε} (hs : Within q s) : Within q s.fromSockFd :=
  .of_queues hs.sending hs.waiting hs.wire

/-! ### A flush by the user -/

/-- A flush by the user is one pass: it finds nothing, or it takes out one of the queues. -/
inductive UserFlush (size : ε → Nat) (s : EntrySocket ε) (script : List SendOutcome) : EntrySocket ε → Int → Prop where
  | nothing (hsending : s.sending = []) (hwaiting : s.waiting = []) (hscript : script = []) :
    UserFlush size s script s 0
  | waiting (hsending : s.sending = []) (r : EntryLoop ε) (hloop : entryLoop size [⟨s.waiting, 0⟩] script = some r)
    (hscript : r.script = []) (ret : Int) (hret : (finishPass false { s with waiting := [] } r).ret = some ret) :
    UserFlush size s script (finishPass false { s with waiting := [] } r).socket ret
  | sending (hsending : s.sending ≠ []) (r : EntryLoop ε) (hloop : entryLoop size s.sending script = some r)
    (hscript : r.script = []) (ret : Int) (hret : (finishPass false { s with sending := [] } r).ret = some ret) :
    UserFlush size s script (finishPass false { s with sending := [] } r).socket ret

theorem finishPass_script (b : Bool) (s : EntrySocket ε) (r : EntryLoop ε) : (finishPass b s r).script = r.script := by
  unfold finishPass
  cases r.stop <;> cases b <;> rfl

private theorem wire_of_failed_alone {p : Packet ε} {script : List SendOutcome} {r : EntryLoop ε}
    (h : entryLoop size [p] script = some r) (hstop : r.stop = .failed) : r.wire = [] := by
  rcases script with _ | ⟨room | _ | _, script⟩
  · cases h
  · simp only [entryLoop] at h
    split at h
    · obtain rfl := Option.some.inj h
      cases hstop
    · obtain rfl := Option.some.inj h
      cases hstop
  · obtain rfl := Option.some.inj h
    rfl
  · obtain rfl := Option.some.inj h
    rfl

private theorem finishPass_user_ret (s : EntrySocket ε) (r : EntryLoop ε) :
    (finishPass false s r).ret = some (if r.stop = .failed then -1 else 0) := by
  unfold finishPass
  cases r.stop <;> rfl

theorem flushData_user {s s' : EntrySocket ε} {script : List SendOutcome} {ret : Int}
    (h : s.flushData size false script = some (s', [], ret)) : UserFlush size s script s' ret := by
  have hfinish : ∀ {ps : List (Packet ε)} {t : EntrySocket ε} {p : EntryPass ε},
      (entryLoop size ps script).map (finishPass false t) = some p →
      (match p.ret with
        | some ret => some (p.socket, p.script, ret)
        | none => flushPasses size false 2 p.socket p.script) = some (s', [], ret) →
      ∃ r, entryLoop size ps script = some r ∧ r.script = [] ∧ (finishPass false t r).ret = some ret ∧
        (finishPass false t r).socket = s' := by
    intro ps t p hp hnext
    obtain ⟨r, hr, rfl⟩ := Option.map_eq_some_iff.1 hp
    have hret := finishPass_user_ret t r
    simp only [hret, Option.some.injEq, Prod.mk.injEq, finishPass_script] at hnext
    obtain ⟨hsocket, hscript, hr'⟩ := hnext
    exact ⟨r, hr, hscript, by rw [hret, hr'], hsocket⟩
  obtain ⟨p, hp, hnext⟩ := Option.bind_eq_some_iff.1 h
  by_cases hsending : s.sending = []
  · by_cases hwaiting : s.waiting = []
    · rw [flushPass_empty false script hsending hwaiting] at hp
      obtain rfl := Option.some.inj hp
      simp only [Bool.false_eq_true, if_false, Option.some.injEq, Prod.mk.injEq] at hnext
      obtain ⟨rfl, hscript, rfl⟩ := hnext
      exact .nothing hsending hwaiting hscript
    · rw [flushPass_waiting false script hsending hwaiting] at hp
      obtain ⟨r, hr, hscript, hret, rfl⟩ := hfinish hp hnext
      exact .waiting hsending r hr hscript ret hret
  · rw [flushPass_sending false script hsending] at hp
    obtain ⟨r, hr, hscript, hret, rfl⟩ := hfinish hp hnext
    exact .sending hsending r hr hscript ret hret

/-- The end of a pass that has not met an error: what is left of the packets is put back. -/
private theorem finishPass_user_ok {s : EntrySocket ε} {ps : List (Packet ε)} {script : List SendOutcome}
    {r : EntryLoop ε} (hloop : entryLoop size ps script = some r) (hsending : s.sending = []) (hok : r.stop ≠ .failed) :
    (finishPass false s r).socket.wire ++ (finishPass false s r).socket.pending size =
      s.wire ++ packetOwners size ps ++ Packet.owners size s.waiting := by
  have hwire := entryLoop_wire hloop
  have hdrained := entryLoop_drained hloop
  unfold finishPass pending
  rw [← hwire]
  cases hstop : r.stop with
  | failed => exact absurd hstop hok
  | drained => simp [hsending, hdrained hstop]
  | partly => simp
  | again => simp

/-- A flush by the user without an error returns 0, and every byte is on the wire or in a queue. -/
theorem UserFlush.ok {s s' : EntrySocket ε} {script : List SendOutcome} {ret : Int}
    (h : UserFlush size s script s' ret) (hfails : .fails ∉ script) :
    ret = 0 ∧ s'.wire ++ s'.pending size = s.wire ++ s.pending size := by
  cases h with
  | nothing hsending hwaiting hscript => exact ⟨rfl, rfl⟩
  | waiting hsending r hloop hscript ret hret =>
    have hok : r.stop ≠ .failed := fun hstop => hfails ((entryLoop_failed_iff hloop hscript).1 hstop)
    have hbytes := finishPass_user_ok (s := { s with waiting := [] }) hloop hsending hok
    rw [finishPass_user_ret, if_neg hok] at hret
    refine ⟨(Option.some.inj hret).symm, ?_⟩
    rw [hbytes]
    simp [pending, hsending, Packet.remaining]
  | sending hsending r hloop hscript ret hret =>
    have hok : r.stop ≠ .failed := fun hstop => hfails ((entryLoop_failed_iff hloop hscript).1 hstop)
    have hbytes := finishPass_user_ok (s := { s with sending := [] }) hloop rfl hok
    rw [finishPass_user_ret, if_neg hok] at hret
    refine ⟨(Option.some.inj hret).symm, ?_⟩
    rw [hbytes, pending, List.append_assoc]

/-- A flush by the user that meets an error returns -1, and loses what is left of the packets it has taken out. -/
theorem UserFlush.failed {s s' : EntrySocket ε} {script : List SendOutcome} {ret : Int}
    (h : UserFlush size s script s' ret) (hfails : .fails ∈ script) :
    ret = -1 ∧ s'.sending = [] ∧ (s.sending = [] → s'.waiting = [] ∧ s'.wire = s.wire) ∧
      (s.sending ≠ [] → s'.waiting = s.waiting) := by
  cases h with
  | nothing hsending hwaiting hscript =>
    rw [hscript] at hfails
    cases hfails
  | waiting hsending r hloop hscript ret hret =>
    have hstop := (entryLoop_failed_iff hloop hscript).2 hfails
    have hwire := wire_of_failed_alone hloop hstop
    rw [finishPass_user_ret, if_pos hstop] at hret
    unfold finishPass
    rw [hstop]
    refine ⟨(Option.some.inj hret).symm, hsending, fun _ => ⟨rfl, ?_⟩, fun hne => absurd hsending hne⟩
    simp only [hwire, List.append_nil]
  | sending hsending r hloop hscript ret hret =>
    have hstop := (entryLoop_failed_iff hloop hscript).2 hfails
    rw [finishPass_user_ret, if_pos hstop] at hret
    unfold finishPass
    rw [hstop]
    exact ⟨(Option.some.inj hret).symm, rfl, fun hnil => absurd hnil hsending, fun _ => rfl⟩

end EntrySocket

/-! ### The entries read as buffers -/

section Represents

variable (buffer : ε → SendBuffer)

def bufferSize (e : ε) : Nat := (buffer e).bytes.length

structure Packet.Represents (p : Packet ε) (l : BufferList) : Prop where
  data : l.data = p.data.map buffer
  offset : l.offset = p.offset

structure EntryLoop.Represents (r : EntryLoop ε) (l : LoopResult) : Prop where
  stop : l.stop = r.stop
  rest : List.Forall₂ (Packet.Represents buffer) r.rest l.rest
  wire : l.wire.length = r.wire.length
  script : l.script = r.script

structure EntrySocket.Represents (t : EntrySocket ε) (s : Socket) : Prop where
  isOpen : s.sockFd.isSome = t.isOpen
  sendable : s.sendable = t.sendable
  waiting : s.sendBufferWaiting = t.waiting.map buffer
  sending : List.Forall₂ (Packet.Represents buffer) t.sending s.sendBufferSending
  wire : s.wire.length = t.wire.length

structure EntryPass.Represents (p : EntryPass ε) (l : Socket.Pass) : Prop where
  socket : EntrySocket.Represents buffer p.socket l.socket
  script : l.script = p.script
  ret : l.ret = p.ret

variable {buffer}

private theorem advance_map (es : List ε) (offset n : Nat) :
    BufferList.advance (es.map buffer) offset n =
      ((Packet.advance (bufferSize buffer) es offset n).1.map buffer,
        (Packet.advance (bufferSize buffer) es offset n).2) := by
  induction es generalizing offset n with
  | nil => rfl
  | cons e es ih =>
    simp only [List.map_cons, BufferList.advance, Packet.advance]
    by_cases hlt : offset + n < (buffer e).bytes.length
    · have hlt' : offset + n < bufferSize buffer e := hlt
      rw [if_pos hlt, if_pos hlt', List.map_cons]
    · have hlt' : ¬ offset + n < bufferSize buffer e := hlt
      rw [if_neg hlt, if_neg hlt']
      exact ih _ _

theorem Packet.Represents.sent {p : Packet ε} {l : BufferList} (h : p.Represents buffer l) (n : Nat) :
    (p.sent (bufferSize buffer) n).Represents buffer (l.sent n) := by
  have hadvance : BufferList.advance l.data l.offset n =
      ((Packet.advance (bufferSize buffer) p.data p.offset n).1.map buffer,
        (Packet.advance (bufferSize buffer) p.data p.offset n).2) := by
    rw [h.data, h.offset, advance_map]
  exact ⟨congrArg Prod.fst hadvance, congrArg Prod.snd hadvance⟩

theorem Packet.Represents.empty {p : Packet ε} {l : BufferList} (h : p.Represents buffer l) :
    l.empty = p.data.isEmpty := by
  rw [BufferList.empty, h.data, List.isEmpty_map]

private theorem length_queueBytes_map (es : List ε) :
    (queueBytes (es.map buffer)).length = (Packet.owners (bufferSize buffer) es).length := by
  induction es with
  | nil => rfl
  | cons e es ih =>
    rw [List.map_cons, queueBytes_cons, Packet.owners_cons, List.length_append, List.length_append, ih,
      List.length_replicate, bufferSize]

private theorem Packet.Represents.length_remaining {p : Packet ε} {l : BufferList} (h : p.Represents buffer l) :
    l.remaining.length = (p.remaining (bufferSize buffer)).length := by
  rw [BufferList.remaining, Packet.remaining, List.length_drop, List.length_drop, h.data, h.offset,
    length_queueBytes_map]

private theorem represents_sendLoop {ps : List (Packet ε)} {ls : List BufferList} {script : List SendOutcome}
    {l : LoopResult} (hps : List.Forall₂ (Packet.Represents buffer) ps ls) (h : sendLoop ls script = some l) :
    ∃ r, entryLoop (bufferSize buffer) ps script = some r ∧ r.Represents buffer l := by
  induction hps generalizing script l with
  | nil =>
    obtain rfl := Option.some.inj h
    exact ⟨_, rfl, rfl, .nil, rfl, rfl⟩
  | cons hp hps ih =>
    rename_i p b ps bs
    rcases script with _ | ⟨room | _ | _, script⟩
    · cases h
    · have hempty : (b.sent (room + 1)).empty = (p.sent (bufferSize buffer) (room + 1)).data.isEmpty :=
        (hp.sent (room + 1)).empty
      have hwire : (b.remaining.take (room + 1)).length =
          ((p.remaining (bufferSize buffer)).take (room + 1)).length := by
        rw [List.length_take, List.length_take, hp.length_remaining]
      simp only [sendLoop, hempty] at h
      simp only [entryLoop]
      split at h
      · rename_i hdone
        obtain ⟨l', hl', rfl⟩ := Option.map_eq_some_iff.1 h
        obtain ⟨r, hr, hrep⟩ := ih hl'
        rw [if_pos hdone, hr]
        refine ⟨_, rfl, hrep.stop, hrep.rest, ?_, hrep.script⟩
        rw [List.length_append, List.length_append, hwire, hrep.wire]
      · rename_i hpartly
        obtain rfl := Option.some.inj h
        rw [if_neg hpartly]
        exact ⟨_, rfl, rfl, .cons (hp.sent (room + 1)) hps, hwire, rfl⟩
    · obtain rfl := Option.some.inj h
      exact ⟨_, rfl, rfl, .cons hp hps, rfl, rfl⟩
    · obtain rfl := Option.some.inj h
      exact ⟨_, rfl, rfl, .cons hp hps, rfl, rfl⟩

namespace EntrySocket

private theorem modifyEvent_sockFd (c : Caller) (events : Nat) (s : Socket) :
    (s.modifyEvent c events).sockFd = s.sockFd := by
  unfold Socket.modifyEvent
  split <;> rfl

theorem Represents.startWritableEvent {t : EntrySocket ε} {s : Socket} (h : t.Represents buffer s) (c : Caller) :
    { t with sendable := false }.Represents buffer (s.startWritableEvent c) := by
  obtain ⟨hwire, hsending, hwaiting, hsendable⟩ :=
    Socket.modifyEvent_frame c (s.readFlag ||| kEventWrite ||| kEventError) { s with sendable := false }
  have hsockFd := modifyEvent_sockFd c (s.readFlag ||| kEventWrite ||| kEventError) { s with sendable := false }
  refine ⟨?_, hsendable, hwaiting.trans h.waiting, ?_, (congrArg List.length hwire).trans h.wire⟩
  · exact (congrArg Option.isSome hsockFd).trans h.isOpen
  · exact hsending ▸ h.sending

theorem Represents.stopWritableEvent {t : EntrySocket ε} {s : Socket} (h : t.Represents buffer s) (c : Caller) :
    { t with sendable := true }.Represents buffer (s.stopWritableEvent c) := by
  obtain ⟨hwire, hsending, hwaiting, hsendable⟩ :=
    Socket.modifyEvent_frame c (s.readFlag ||| kEventError) { s with sendable := true }
  have hsockFd := modifyEvent_sockFd c (s.readFlag ||| kEventError) { s with sendable := true }
  refine ⟨?_, hsendable, hwaiting.trans h.waiting, ?_, (congrArg List.length hwire).trans h.wire⟩
  · exact (congrArg Option.isSome hsockFd).trans h.isOpen
  · exact hsending ▸ h.sending

private theorem represents_finishPass {t : EntrySocket ε} {s : Socket} {r : EntryLoop ε} {l : LoopResult}
    (h : t.Represents buffer s) (hr : r.Represents buffer l) (c : Caller) (b : Bool) :
    (finishPass b t r).Represents buffer (Socket.finishPass c b s l) := by
  have hwire : ({ t with wire := t.wire ++ r.wire } : EntrySocket ε).Represents buffer
      { s with wire := s.wire ++ l.wire } := by
    refine ⟨h.isOpen, h.sendable, h.waiting, h.sending, ?_⟩
    rw [List.length_append, List.length_append, h.wire, hr.wire]
  have hstart := hwire.startWritableEvent c
  unfold finishPass Socket.finishPass
  rw [hr.stop]
  cases r.stop with
  | drained => exact ⟨hwire, hr.script, rfl⟩
  | failed => exact ⟨hwire, hr.script, rfl⟩
  | partly =>
    cases b with
    | true => exact ⟨⟨hwire.isOpen, hwire.sendable, hwire.waiting, hr.rest, hwire.wire⟩, hr.script, rfl⟩
    | false => exact ⟨⟨hstart.isOpen, hstart.sendable, hstart.waiting, hr.rest, hstart.wire⟩, hr.script, rfl⟩
  | again =>
    cases b with
    | true => exact ⟨hwire, hr.script, rfl⟩
    | false => exact ⟨⟨hstart.isOpen, hstart.sendable, hstart.waiting, hr.rest, hstart.wire⟩, hr.script, rfl⟩

private theorem represents_flushPass {t : EntrySocket ε} {s : Socket} (h : t.Represents buffer s) {c : Caller}
    {type : SockType} {b : Bool} {script : List SendOutcome} {l : Socket.Pass}
    (hl : Socket.flushPass c type b s script = some l) :
    ∃ p, flushPass (bufferSize buffer) b t script = some p ∧ p.Represents buffer l := by
  have hwaiting := h.waiting
  have hsending := h.sending
  unfold Socket.flushPass at hl
  split at hl
  · rename_i hs hw
    obtain rfl := Option.some.inj hl
    have hnil : t.sending = [] := List.forall₂_nil_right_iff.1 (hs ▸ hsending)
    have hempty : t.waiting = [] := List.map_eq_nil_iff.1 (hwaiting.symm.trans hw)
    refine ⟨_, flushPass_empty b script hnil hempty, ?_, rfl, rfl⟩
    cases b with
    | true => exact h.stopWritableEvent c
    | false => exact h
  · rename_i w ws hs hw
    obtain ⟨l', hl', rfl⟩ := Option.map_eq_some_iff.1 hl
    have hnil : t.sending = [] := List.forall₂_nil_right_iff.1 (hs ▸ hsending)
    have hne : t.waiting ≠ [] := by
      intro hempty
      rw [hw, hempty] at hwaiting
      cases hwaiting
    have hpacket : Packet.Represents buffer ⟨t.waiting, 0⟩ (.create (w :: ws) (type = .udp)) :=
      ⟨hw.symm.trans hwaiting, rfl⟩
    obtain ⟨r, hr, hrep⟩ := represents_sendLoop (.cons hpacket .nil) hl'
    have htaken : ({ t with waiting := [] } : EntrySocket ε).Represents buffer { s with sendBufferWaiting := [] } :=
      ⟨h.isOpen, h.sendable, rfl, hsending, h.wire⟩
    exact ⟨_, by rw [flushPass_waiting b script hnil hne, hr]; rfl, represents_finishPass htaken hrep c b⟩
  · rename_i q qs hs
    obtain ⟨l', hl', rfl⟩ := Option.map_eq_some_iff.1 hl
    rw [hs] at hsending
    have hne : t.sending ≠ [] := by
      intro hempty
      rw [hempty] at hsending
      cases hsending
    obtain ⟨r, hr, hrep⟩ := represents_sendLoop hsending hl'
    have htaken : ({ t with sending := [] } : EntrySocket ε).Represents buffer { s with sendBufferSending := [] } :=
      ⟨h.isOpen, h.sendable, h.waiting, .nil, h.wire⟩
    exact ⟨_, by rw [flushPass_sending b script hne, hr]; rfl, represents_finishPass htaken hrep c b⟩

private theorem represents_flushPasses {t : EntrySocket ε} {s s' : Socket} (h : t.Represents buffer s) {c : Caller}
    {type : SockType} {b : Bool} {n : Nat} {script left : List SendOutcome} {ret : Int}
    (hs : Socket.flushPasses c type b n s script = some (s', left, ret)) :
    ∃ t', flushPasses (bufferSize buffer) b n t script = some (t', left, ret) ∧ t'.Represents buffer s' := by
  induction n generalizing s t script with
  | zero => cases hs
  | succ n ih =>
    obtain ⟨l, hl, hnext⟩ := Option.bind_eq_some_iff.1 hs
    obtain ⟨p, hp, hrep⟩ := represents_flushPass h hl
    rw [flushPasses, hp, Option.bind_some, ← hrep.ret]
    cases hret : l.ret with
    | some r =>
      simp only [hret, Option.some.injEq, Prod.mk.injEq] at hnext
      obtain ⟨rfl, rfl, rfl⟩ := hnext
      exact ⟨p.socket, by rw [hrep.script], hrep.socket⟩
    | none =>
      simp only [hret] at hnext
      rw [hrep.script] at hnext
      exact ih hrep.socket hnext

/-- What `flushData` does to the buffers is what it does to their entries. -/
private theorem represents_flushData {t : EntrySocket ε} {s s' : Socket} (h : t.Represents buffer s) {c : Caller}
    {type : SockType} {b : Bool} {script left : List SendOutcome} {ret : Int}
    (hs : s.flushData c type b script = some (s', left, ret)) :
    ∃ t', t.flushData (bufferSize buffer) b script = some (t', left, ret) ∧ t'.Represents buffer s' :=
  represents_flushPasses h hs

private theorem represents_flushAll {t : EntrySocket ε} {s s' : Socket} (h : t.Represents buffer s) {c : Caller}
    {script left : List SendOutcome} {ret : Int} (hs : s.flushAll c script = some (s', left, ret)) :
    ∃ t', t.flushAll (bufferSize buffer) script = some (t', left, ret) ∧ t'.Represents buffer s' := by
  have hopen := h.isOpen
  unfold Socket.flushAll at hs
  unfold flushAll
  split at hs
  · rename_i hnone
    obtain ⟨rfl, rfl, rfl⟩ := by simpa only [Option.some.injEq, Prod.mk.injEq] using hs
    rw [hnone] at hopen
    rw [← hopen]
    exact ⟨t, rfl, h⟩
  · rename_i sockFd hsome
    rw [hsome] at hopen
    rw [← hopen, ← h.sendable]
    split at hs
    · rename_i hsendable
      obtain ⟨t', ht', hrep⟩ := represents_flushData h hs
      exact ⟨t', by rw [hsendable]; exact ht', hrep⟩
    · rename_i hsendable
      obtain ⟨rfl, rfl, rfl⟩ := by simpa only [Option.some.injEq, Prod.mk.injEq] using hs
      exact ⟨t, by simp [hsendable], h⟩

/-- What `send_l` does to a buffer is what it does to its entry. -/
theorem represents_sendL {t : EntrySocket ε} {s s' : Socket} (h : t.Represents buffer s) {c : Caller} {e : ε}
    {tryFlush : Bool} {script left : List SendOutcome} {ret : Int}
    (hs : s.sendL c (buffer e).bytes (buffer e).dst tryFlush script = some (s', left, ret)) :
    ∃ t', t.sendL (bufferSize buffer) e tryFlush script = some (t', left, ret) ∧ t'.Represents buffer s' := by
  have henqueue : ({ t with waiting := t.waiting ++ [e] } : EntrySocket ε).Represents buffer
      { s with sendBufferWaiting := s.sendBufferWaiting ++ [buffer e] } := by
    refine ⟨h.isOpen, h.sendable, ?_, h.sending, h.wire⟩
    rw [List.map_append, h.waiting]
    rfl
  unfold Socket.sendL at hs
  rw [dif_neg (buffer e).nonempty] at hs
  unfold sendL
  cases tryFlush with
  | false =>
    obtain ⟨rfl, rfl, rfl⟩ := by simpa only [Bool.false_eq_true, if_false, Option.some.injEq, Prod.mk.injEq] using hs
    exact ⟨_, rfl, henqueue⟩
  | true =>
    obtain ⟨⟨s₁, left₁, ret₁⟩, hflush, heq⟩ := Option.map_eq_some_iff.1 hs
    obtain ⟨rfl, rfl, rfl⟩ := by simpa only [Prod.mk.injEq] using heq
    obtain ⟨t', ht', hrep⟩ := represents_flushAll henqueue hflush
    refine ⟨t', ?_, hrep⟩
    simp only [if_true, ht', Option.map_some]
    rfl

private theorem represents_closeSocket {t : EntrySocket ε} {s : Socket} (h : t.Represents buffer s) (c : Caller) :
    t.closeSocket.Represents buffer (s.closeSocket c) := by
  have hclose : (s.closeSocket c).sockFd = none ∧ (s.closeSocket c).sendable = false ∧
      (s.closeSocket c).sendBufferWaiting = s.sendBufferWaiting ∧
      (s.closeSocket c).sendBufferSending = s.sendBufferSending ∧ (s.closeSocket c).wire = s.wire := by
    simp only [Socket.closeSocket]
    cases s.sockFd <;> exact ⟨rfl, rfl, rfl, rfl, rfl⟩
  obtain ⟨hsockFd, hsendable, hwaiting, hsending, hwire⟩ := hclose
  refine ⟨congrArg Option.isSome hsockFd, hsendable, hwaiting.trans h.waiting, ?_, ?_⟩
  · exact hsending.symm ▸ h.sending
  · exact (congrArg List.length hwire).trans h.wire

theorem represents_bindUdpSocket {t : EntrySocket ε} {s : Socket} (h : t.Represents buffer s) (c : Caller) (fd : FD) :
    t.fromSockFd.Represents buffer (s.bindUdpSocket c (some fd)).1 := by
  have hclose := represents_closeSocket h c
  exact ⟨rfl, hclose.sendable, hclose.waiting, hclose.sending, hclose.wire⟩

end EntrySocket

end Represents

end AvcTool
