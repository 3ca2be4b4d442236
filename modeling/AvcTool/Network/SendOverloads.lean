import AvcTool.Network.BufferCapacity
import AvcTool.Network.Socket

/-!
# The overloads of `send`

A string is sent through a `BufferOffset`, a pointer with a size through a `BufferRaw`, and both end in the overload
for a `Buffer::Ptr`.  For a string that is not empty they are the same (`sends_alike_iff`): each hands its bytes to
`send_l` with the same address.

An empty buffer is not sent, and `send` returns 0 for it.  But the window of a `BufferOffset` may not be empty, so that
an empty string does not come as far as that; and a null pointer is only noticed as long as no `BufferSock` is put
around it.
-/

namespace AvcTool

/-- What new blocks contain.  There is memory for each of them. -/
abbrev Memory := (n : Nat) → Vector UInt8 n

def Memory.alloc (mem : Memory) : Alloc := fun n => some (mem n)

/-- What leaves `send` instead of a result. -/
inductive SendError where
  | thrown (e : BufferError)
  /-- a member function is called through a null pointer -/
  | nullPointer
  deriving DecidableEq, Repr

/-- A `Buffer::Ptr`, with the bytes of the buffer. -/
inductive BufferPtr where
  | null
  | plain (bytes : Bytes)
  /-- a `BufferSock`, and what it has been made of -/
  | sock (buffer : Option Bytes) (addr : SockAddr)
  deriving DecidableEq, Repr

/-- The pointer is to memory that begins with the string; if this is empty, a NUL ends it. -/
def PointsTo (src str : Bytes) : Prop := str <+: src ∧ (str = [] → src.head? = some 0)

namespace Socket

section

variable (c : Caller) (addr : Option SockAddr) (tryFlush : Bool) (s : Socket) (script : List SendOutcome)

/-- `send_l`, which asks a buffer for its size if it has got one. -/
def sendPtr (buffer : BufferPtr) : Option (Socket × List SendOutcome × Except SendError Int) :=
  match buffer with
  | .null => some (s, script, .ok 0)
  | .plain bytes => (s.sendL c bytes none tryFlush script).map fun (s, script, ret) => (s, script, .ok ret)
  | .sock none _ => some (s, script, .error .nullPointer)
  | .sock (some bytes) dst =>
    (s.sendL c bytes (some dst) tryFlush script).map fun (s, script, ret) => (s, script, .ok ret)

/-- `send` for a `Buffer::Ptr`, which may be null. -/
def sendBuffer (buffer : Option Bytes) : Option (Socket × List SendOutcome × Except SendError Int) :=
  match addr <|> s.udpSendDst with
  | none => s.sendPtr c tryFlush script (buffer.elim .null .plain)
  | some dst => s.sendPtr c tryFlush script (.sock buffer dst)

/-- `send` for a string, which becomes a `BufferString`. -/
def sendString (str : Bytes) : Option (Socket × List SendOutcome × Except SendError Int) :=
  match BufferOffset.create str 0 0 with
  | .error e => some (s, script, .error (.thrown e))
  | .ok buffer => s.sendBuffer c addr tryFlush script (some buffer.bytes)

/-- `send` for a pointer and a size. -/
def sendChars (alloc : Alloc) (src : Bytes) (size : Nat) :
    Option (Socket × List SendOutcome × Except SendError Int) :=
  match BufferRaw.ofChars alloc src size with
  | .error e => some (s, script, .error (.thrown e))
  | .ok buffer => s.sendBuffer c addr tryFlush script (some buffer.bytes)

/-- The overloads do the same with the string, and if it is empty they do nothing. -/
structure OverloadsAgree (mem : Memory) (str : Bytes) : Prop where
  string : s.sendString c addr tryFlush script str = s.sendBuffer c addr tryFlush script (some str)
  chars : ∀ src, PointsTo src str →
    s.sendChars c addr tryFlush script mem.alloc src str.length = s.sendBuffer c addr tryFlush script (some str)
  empty : str = [] → s.sendBuffer c addr tryFlush script (some str) = some (s, script, .ok 0)

/-- The overloads agree on a string, and nothing is done for a null pointer. -/
def SendsAlike (mem : Memory) : Option Bytes → Prop
  | some str => OverloadsAgree c addr tryFlush s script mem str
  | none => s.sendBuffer c addr tryFlush script none = some (s, script, .ok 0)

end

section

variable {c : Caller} {addr : Option SockAddr} {tryFlush : Bool} {s : Socket} {script : List SendOutcome}

private theorem sendBuffer_some (bytes : Bytes) :
    s.sendBuffer c addr tryFlush script (some bytes) =
      (s.sendL c bytes (addr <|> s.udpSendDst) tryFlush script).map fun (s, script, ret) => (s, script, .ok ret) := by
  unfold sendBuffer
  cases addr <|> s.udpSendDst <;> rfl

/-- The three overloads, as far as the buffer is not null. -/
theorem send_eq (mem : Memory) (arg : SendArg) :
    (s.send mem.alloc c arg addr tryFlush script).map (fun (s, script, r) => (s, script, r.mapError .thrown)) =
      match arg with
      | .string str => s.sendString c addr tryFlush script str
      | .chars src size => s.sendChars c addr tryFlush script mem.alloc src size
      | .buffer bytes => s.sendBuffer c addr tryFlush script (some bytes) := by
  cases arg with
  | string str =>
    simp only [send, SendArg.bytes, sendString]
    cases BufferOffset.create str 0 0 with
    | error e => rfl
    | ok buffer =>
      simp only [Except.map, sendBuffer_some, Option.map_map]
      rfl
  | chars src size =>
    simp only [send, SendArg.bytes, sendChars]
    cases BufferRaw.ofChars mem.alloc src size with
    | error e => rfl
    | ok buffer =>
      simp only [Except.map, sendBuffer_some, Option.map_map]
      rfl
  | buffer bytes =>
    simp only [send, SendArg.bytes, sendBuffer_some, Option.map_map]
    rfl

end

end Socket

private theorem create_whole {str : Bytes} (h : str ≠ []) : BufferOffset.create str 0 0 = .ok ⟨str, str.length, 0⟩ := by
  have hpos : ¬ str.length ≤ (0 + 0) % 2 ^ 64 := by
    have hlen := List.length_pos_iff.2 h
    omega
  rw [BufferOffset.create, if_neg hpos, if_pos rfl, Nat.sub_zero]

private theorem BufferRaw.bytes_of_holds {b : BufferRaw} {bytes : Bytes} (h : b.Holds bytes) : b.bytes = bytes := by
  obtain ⟨hsize, block, hblock, htake⟩ := h
  have hfirst : block.take bytes.length = bytes := by
    have htake' := congrArg (List.take bytes.length) htake
    rwa [List.take_take, Nat.min_eq_left (Nat.le_succ _), List.take_left] at htake'
  rw [BufferRaw.bytes, hblock, hsize]
  exact hfirst

private theorem BufferRaw.ofChars_of_source (mem : Memory) (src : BufferRaw.Source) :
    ∃ b, BufferRaw.ofChars mem.alloc src.chars src.size = .ok b ∧ b.bytes = src.assigned := by
  have hcapacity : empty.setCapacity mem.alloc (src.assigned.length + 1) =
      (⟨.live (mem (src.assigned.length + 1)).toList, 0, src.assigned.length + 1⟩, none) :=
    setCapacity_of_alloc (by simp [reusable, empty]) rfl
  obtain ⟨b, hassign, -, hholds⟩ := assign_of_setCapacity repOk_empty.points hcapacity
  exact ⟨b, by rw [BufferRaw.ofChars, hassign], bytes_of_holds hholds⟩

/-- What a pointer to a string and the size of the string give. -/
def PointsTo.source {src str : Bytes} (h : PointsTo src str) : BufferRaw.Source where
  chars := src
  size := str.length
  valid := by
    by_cases hnil : str = []
    · subst hnil
      exact List.mem_of_mem_head? (h.2 rfl)
    · rw [if_neg (mt List.length_eq_zero_iff.1 hnil)]
      exact h.1.length_le

private theorem PointsTo.assigned_source {src str : Bytes} (h : PointsTo src str) : h.source.assigned = str := by
  obtain ⟨rest, hrest⟩ := h.1
  by_cases hnil : str = []
  · subst hnil
    cases src with
    | nil => rfl
    | cons b bs =>
      obtain rfl : b = 0 := Option.some.inj (h.2 rfl)
      rfl
  · have hsize : ¬ h.source.size = 0 := mt List.length_eq_zero_iff.1 hnil
    rw [BufferRaw.Source.assigned, if_neg hsize]
    show src.take str.length = str
    rw [← hrest, List.take_left]

namespace Socket

variable (c : Caller) (addr : Option SockAddr) (tryFlush : Bool) (s : Socket) (script : List SendOutcome)

private theorem sendBuffer_empty : s.sendBuffer c addr tryFlush script (some []) = some (s, script, .ok 0) := by
  rw [sendBuffer_some, sendL, dif_pos rfl, Option.map_some]

private theorem sendChars_eq (mem : Memory) {src str : Bytes} (h : PointsTo src str) :
    s.sendChars c addr tryFlush script mem.alloc src str.length = s.sendBuffer c addr tryFlush script (some str) := by
  obtain ⟨b, hb, hbytes⟩ := BufferRaw.ofChars_of_source mem h.source
  have hb' : BufferRaw.ofChars mem.alloc src str.length = .ok b := hb
  rw [h.assigned_source] at hbytes
  simp only [sendChars, hb', hbytes]

private theorem sendString_eq {str : Bytes} (h : str ≠ []) :
    s.sendString c addr tryFlush script str = s.sendBuffer c addr tryFlush script (some str) := by
  have hbytes : BufferOffset.bytes ⟨str, str.length, 0⟩ = str := by
    rw [BufferOffset.bytes, List.drop_zero, List.take_length]
  simp only [sendString, create_whole h, hbytes]

private theorem sendString_empty : s.sendString c addr tryFlush script [] =
    some (s, script, .error (.thrown (.invalidArgument "BufferOffet::setup invalid param"))) :=
  rfl

/-- The overloads agree on a string exactly if it is not empty; a null pointer is passed over exactly if there is no
address for it. -/
theorem sends_alike_iff (mem : Memory) (buffer : Option Bytes) :
    SendsAlike c addr tryFlush s script mem buffer ↔
      (∀ str ∈ buffer, str ≠ []) ∧ (buffer = none → addr = none ∧ s.udpSendDst = none) := by
  cases buffer with
  | none =>
    have hroute : (addr <|> s.udpSendDst) = none ↔ addr = none ∧ s.udpSendDst = none := by
      cases addr <;> simp
    simp only [SendsAlike, sendBuffer]
    cases hdst : addr <|> s.udpSendDst with
    | none => exact iff_of_true rfl ⟨nofun, fun _ => hroute.1 hdst⟩
    | some dst =>
      -- the `BufferSock` is not null, but what it holds is
      refine iff_of_false (by simp [sendPtr]) fun h => ?_
      rw [hroute.2 (h.2 trivial)] at hdst
      cases hdst
  | some str =>
    constructor
    · intro h
      refine ⟨fun str' hstr' hnil => ?_, nofun⟩
      obtain rfl : str = str' := Option.some.inj hstr'
      subst hnil
      have hthrows := h.string
      rw [sendString_empty, sendBuffer_empty] at hthrows
      simp at hthrows
    · rintro ⟨hstr, -⟩
      have hne : str ≠ [] := hstr str rfl
      exact ⟨sendString_eq c addr tryFlush s script hne, fun src hsrc => sendChars_eq c addr tryFlush s script mem hsrc,
        fun hempty => absurd hempty hne⟩

/-- An empty string throws where an empty buffer does nothing, and a null pointer with an address is dereferenced. -/
theorem overloads_differ :
    let s := closed ⟨.empty, []⟩
    (∃ e, s.sendString ⟨false, true⟩ none false [] [] = some (s, [], .error (.thrown e))) ∧
      ¬ SendsAlike ⟨false, true⟩ none false s [] (fun n => Vector.replicate n 0) (some []) ∧
      s.sendBuffer ⟨false, true⟩ (some [127, 0, 0, 1]) false [] none = some (s, [], .error .nullPointer) ∧
      ¬ SendsAlike ⟨false, true⟩ (some [127, 0, 0, 1]) false s [] (fun n => Vector.replicate n 0) none := by
  refine ⟨⟨_, rfl⟩, fun h => ?_, rfl, nofun⟩
  have hthrows := h.string
  cases hthrows

end Socket

end AvcTool
