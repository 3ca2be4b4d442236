import Mathlib.Algebra.Group.Nat.Defs
import Mathlib.Data.List.Basic

/-!
# Buffers

`BufferRaw` owns a block of memory, of which `size` bytes are in use; `BufferOffset` is a window into a container.
What the sockets see of either is the list of its `bytes`, that is the `size()` bytes from `data()` on.

The functions of `BufferRaw` return the buffer together with the exception that leaves them, if one does, since an
exception does not undo what was done before it.

The constructor of `BufferOffset` refuses the windows that end with the container, and takes some whose end is beyond
the range of a `size_t` (`accepts_exactly_iff`).
-/

namespace AvcTool

abbrev Bytes := List UInt8

inductive BufferError where
  | badAlloc
  | invalidArgument (what : String)
  deriving DecidableEq, Repr

/-- What `data_` of a `BufferRaw` points to. -/
inductive Block where
  | null
  | freed
  | live (bytes : Bytes)
  deriving DecidableEq, Repr

/-- `new char[n]`: a block with some contents, or none if there is no memory. -/
abbrev Alloc := (n : Nat) → Option (Vector UInt8 n)

/-- An allocator that always has memory, filled with the given byte. -/
def Alloc.fill (b : UInt8) : Alloc := fun n => some (Vector.replicate n b)

structure BufferRaw where
  data : Block
  size : Nat
  capacity : Nat
  deriving DecidableEq, Repr

/-- `memcpy` from `src` to the memory from `offset` on. -/
def writeBytes (offset : Nat) (src bytes : Bytes) : Bytes :=
  bytes.take offset ++ src ++ bytes.drop (offset + src.length)

theorem length_writeBytes {offset : Nat} {src bytes : Bytes} (h : offset + src.length ≤ bytes.length) :
    (writeBytes offset src bytes).length = bytes.length := by
  simp only [writeBytes, List.length_append, List.length_take, List.length_drop]
  omega

/-- What lies before the place that is written stays. -/
theorem take_writeBytes {offset : Nat} {src bytes : Bytes} (h : offset ≤ bytes.length) :
    (writeBytes offset src bytes).take offset = bytes.take offset := by
  have hlen : (bytes.take offset).length = offset := List.length_take_of_le h
  rw [writeBytes, List.append_assoc, List.take_append_of_le_length (Nat.le_of_eq hlen.symm), List.take_take, Nat.min_self]

theorem take_writeBytes_zero (src bytes : Bytes) : (writeBytes 0 src bytes).take src.length = src := by
  rw [writeBytes, List.take_zero, List.nil_append, List.take_left]

def Block.write (offset : Nat) (src : Bytes) : Block → Block
  | .live bytes => .live (writeBytes offset src bytes)
  | block => block

namespace BufferRaw

def empty : BufferRaw := ⟨.null, 0, 0⟩

def bytes (b : BufferRaw) : Bytes :=
  match b.data with
  | .live bytes => bytes.take b.size
  | _ => []

/-- Whether `setCapacity` keeps the block: it is large enough, and it is small or at least half used. -/
def reusable (capacity : Nat) (b : BufferRaw) : Bool :=
  b.data ≠ .null && capacity ≤ b.capacity && (b.capacity < 2 * 1024 || b.capacity < 2 * capacity)

def setCapacity (alloc : Alloc) (capacity : Nat) (b : BufferRaw) : BufferRaw × Option BufferError :=
  if b.reusable capacity then (b, none)
  else
    let b := if b.data = .null then b else { b with data := .freed, capacity := 0 }
    match alloc capacity with
    | none => (b, some .badAlloc)
    | some block => ({ b with data := .live block.toList, capacity := capacity }, none)

def setSize (size : Nat) (b : BufferRaw) : BufferRaw × Option BufferError :=
  if b.capacity < size then (b, some (.invalidArgument "BufferRaw::setSize out of range"))
  else ({ b with size := size }, none)

def strlen (src : Bytes) : Nat := (src.takeWhile (· ≠ 0)).length

/-- `assign`: the source is the memory from the pointer on; with size 0 it is a NUL-terminated string. -/
def assign (alloc : Alloc) (src : Bytes) (size : Nat) (b : BufferRaw) : BufferRaw × Option BufferError :=
  let size := if size = 0 then strlen src else size
  match b.setCapacity alloc (size + 1) with
  | (b, some e) => (b, some e)
  | (b, none) => setSize size { b with data := (b.data.write 0 (src.take size)).write size [0] }

/-- The constructor from a pointer and a size. -/
def ofChars (alloc : Alloc) (src : Bytes) (size : Nat) : Except BufferError BufferRaw :=
  match empty.assign alloc src size with
  | (_, some e) => .error e
  | (b, none) => .ok b

/-- The constructor from a capacity. -/
def ofCapacity (alloc : Alloc) (capacity : Nat) : Except BufferError BufferRaw :=
  if capacity = 0 then .ok empty
  else
    match empty.setCapacity alloc capacity with
    | (_, some e) => .error e
    | (b, none) => .ok b

end BufferRaw

/-- A window into a container; `max_size` is the size of the container. -/
structure BufferOffset where
  container : Bytes
  size : Nat
  offset : Nat
  deriving DecidableEq, Repr

namespace BufferOffset

def bytes (b : BufferOffset) : Bytes := (b.container.drop b.offset).take b.size

/-- The constructor with `setup`; the sum of the two `size_t` wraps. -/
def create (container : Bytes) (size offset : Nat) : Except BufferError BufferOffset :=
  if container.length ≤ (offset + size) % 2 ^ 64 then .error (.invalidArgument "BufferOffet::setup invalid param")
  else .ok ⟨container, if size = 0 then container.length - offset else size, offset⟩

/-- The constructor takes the window exactly if it lies in the container; size 0 stands for the rest. -/
def AcceptsExactly (container : Bytes) (size offset : UInt64) : Prop :=
  if offset.toNat + size.toNat ≤ container.length then
    ∃ b, create container size.toNat offset.toNat = .ok b ∧ b.offset = offset.toNat ∧
      b.size = (if size = 0 then container.length - offset.toNat else size.toNat) ∧
      b.offset + b.size ≤ container.length ∧ b.bytes.length = b.size ∧
      ∀ i, i < b.size → b.bytes[i]? = container[offset.toNat + i]?
  else ∃ what, create container size.toNat offset.toNat = .error (.invalidArgument what)

/-- A window in the container that the constructor takes is what it should be. -/
private theorem create_of_lt {container : Bytes} {size offset : Nat} (h : offset + size < container.length)
    (hlen : container.length < 2 ^ 64) :
    ∃ b, create container size offset = .ok b ∧ b.offset = offset ∧
      b.size = (if size = 0 then container.length - offset else size) ∧ b.offset + b.size ≤ container.length ∧
      b.bytes.length = b.size ∧ ∀ i, i < b.size → b.bytes[i]? = container[offset + i]? := by
  have hmod : (offset + size) % 2 ^ 64 = offset + size := Nat.mod_eq_of_lt (by omega)
  have hfits : offset + (if size = 0 then container.length - offset else size) ≤ container.length := by
    split <;> omega
  refine ⟨_, by rw [create, hmod, if_neg (by omega)], rfl, rfl, hfits, ?_, ?_⟩
  · rw [bytes, List.length_take, List.length_drop]
    simp only
    omega
  · intro i hi
    rw [bytes, List.getElem?_take_of_lt hi, List.getElem?_drop]

/-- It does so unless the window ends with the container, or wraps around to an end in it. -/
theorem accepts_exactly_iff {container : Bytes} (hlen : container.length < 2 ^ 64) (size offset : UInt64) :
    AcceptsExactly container size offset ↔
      offset.toNat + size.toNat ≠ container.length ∧
        ¬ (2 ^ 64 ≤ offset.toNat + size.toNat ∧ offset.toNat + size.toNat - 2 ^ 64 < container.length) := by
  have hsize := size.toNat_lt
  have hoffset := offset.toNat_lt
  have hzero : size = 0 ↔ size.toNat = 0 := UInt64.toNat_inj.symm
  rw [AcceptsExactly, if_congr hzero rfl rfl]
  by_cases hin : offset.toNat + size.toNat ≤ container.length
  · rw [if_pos hin]
    by_cases hend : offset.toNat + size.toNat = container.length
    · -- the end of the window is taken for a place outside
      have hmod : (offset.toNat + size.toNat) % 2 ^ 64 = container.length := by
        rw [hend]
        exact Nat.mod_eq_of_lt hlen
      refine iff_of_false ?_ fun h => h.1 hend
      rintro ⟨b, hb, -⟩
      rw [create, hmod, if_pos (Nat.le_refl _)] at hb
      cases hb
    · exact iff_of_true (create_of_lt (by omega) hlen) ⟨hend, by omega⟩
  · rw [if_neg hin]
    by_cases hwraps : 2 ^ 64 ≤ offset.toNat + size.toNat ∧ offset.toNat + size.toNat - 2 ^ 64 < container.length
    · have hmod : (offset.toNat + size.toNat) % 2 ^ 64 = offset.toNat + size.toNat - 2 ^ 64 := by omega
      refine iff_of_false ?_ fun h => h.2 hwraps
      rintro ⟨what, hwhat⟩
      rw [create, hmod, if_neg (by omega)] at hwhat
      cases hwhat
    · refine iff_of_true ⟨_, by rw [create, if_pos (by omega)]⟩ ⟨by omega, hwraps⟩

/-- A window in the middle. -/
theorem accepts_exactly_iff_middle :
    AcceptsExactly [1, 2, 3, 4] 2 1 ↔
      (1 : UInt64).toNat + (2 : UInt64).toNat ≠ 4 ∧
        ¬ (2 ^ 64 ≤ (1 : UInt64).toNat + (2 : UInt64).toNat ∧ (1 : UInt64).toNat + (2 : UInt64).toNat - 2 ^ 64 < 4) :=
  accepts_exactly_iff (by decide) 2 1

/-- The whole of three bytes is refused if it is asked for by its size, and a window of two bytes is taken that starts
far beyond the container. -/
theorem not_accepts_exactly :
    create [1, 2, 3] 3 0 = .error (.invalidArgument "BufferOffet::setup invalid param") ∧
      ¬ AcceptsExactly [1, 2, 3] 3 0 ∧
      create [1, 2, 3] 2 (2 ^ 64 - 1) = .ok ⟨[1, 2, 3], 2, 2 ^ 64 - 1⟩ ∧
      ¬ AcceptsExactly [1, 2, 3] 2 (0 - 1) := by
  refine ⟨rfl, ?_, rfl, ?_⟩
  · rintro ⟨b, hb, -⟩
    cases hb
  · rintro ⟨what, hwhat⟩
    cases hwhat

end BufferOffset

end AvcTool
