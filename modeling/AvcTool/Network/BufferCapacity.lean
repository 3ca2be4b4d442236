import AvcTool.Lib.Transition
import AvcTool.Network.Buffer

/-!
# What the members of a `BufferRaw` say of its block

`size_` should be at most `capacity_`, and `data_`, unless it is null, a block of exactly `capacity_` bytes (`RepOk`).
`setSize` refuses a size beyond the capacity, but `setCapacity` does not look at the size when it replaces a large block
by a small one, and it frees the old block before it has the new one: if `new` throws, `data_` is left dangling.

Both happen in a reallocation only, and `assign` sets the size after it.  A run of operations keeps the representation,
and changes nothing where it throws, exactly as long as no reallocation goes wrong in one of these ways (`opKept_iff`).
-/

namespace AvcTool

namespace BufferRaw

/-- The pointer is null or points to `n` bytes. -/
def Points (n : Nat) : Block → Prop
  | .null => True
  | .freed => False
  | .live bytes => bytes.length = n

structure RepOk (b : BufferRaw) : Prop where
  size_le : b.size ≤ b.capacity
  points : Points b.capacity b.data

def Holds (b : BufferRaw) (bytes : Bytes) : Prop :=
  b.size = bytes.length ∧ ∃ block, b.data = .live block ∧ block.take (bytes.length + 1) = bytes ++ [0]

/-! ### The operations -/

/-- The arguments of `assign`: the memory from the pointer on, which lies outside of the block, and a size for which
the pointer is valid; the size 0 stands for a NUL-terminated string. -/
structure Source where
  chars : Bytes
  size : Nat
  valid : if size = 0 then 0 ∈ chars else size ≤ chars.length

def Source.assigned (src : Source) : Bytes :=
  src.chars.take (if src.size = 0 then strlen src.chars else src.size)

inductive Op where
  | assign (alloc : Alloc) (src : Source)
  | setCapacity (alloc : Alloc) (capacity : Nat)
  | setSize (size : Nat)

def apply (b : BufferRaw) : Op → BufferRaw × Option BufferError
  | .assign alloc src => b.assign alloc src.chars src.size
  | .setCapacity alloc capacity => b.setCapacity alloc capacity
  | .setSize size => b.setSize size

/-- The caller catches what the call throws, and goes on with the buffer. -/
def step (b : BufferRaw) (op : Op) : Option BufferRaw :=
  some (b.apply op).1

inductive Constructed : BufferRaw → Prop where
  | ofChars (alloc : Alloc) (src : Source) (b : BufferRaw) (h : BufferRaw.ofChars alloc src.chars src.size = .ok b) :
    Constructed b
  | ofCapacity (alloc : Alloc) (capacity : Nat) (b : BufferRaw) (h : BufferRaw.ofCapacity alloc capacity = .ok b) :
    Constructed b

/-- The call has left the bytes that it was to assign. -/
def Assigned (b : BufferRaw) : Op → Prop
  | .assign _ src => b.Holds src.assigned
  | _ => True

/-- What a call leaves: a sound representation, and the old buffer if it throws, or else what it assigns. -/
def Leaves (b : BufferRaw) (op : Op) : BufferRaw × Option BufferError → Prop
  | (c, some _) => RepOk c ∧ c = b
  | (c, none) => RepOk c ∧ Assigned c op

def OpKept (b : BufferRaw) (op : Op) : Prop :=
  Leaves b op (b.apply op)

/-- Where the block is not kept there is memory for another, or there is no block that would be freed; and
`setCapacity` makes no block that is smaller than the size. -/
def ReallocatesWell (b : BufferRaw) : Op → Prop
  | .assign alloc src =>
    b.reusable (src.assigned.length + 1) = true ∨ (alloc (src.assigned.length + 1)).isSome = true ∨ b.data = .null
  | .setCapacity alloc capacity =>
    b.reusable capacity = true ∨
      match alloc capacity with
      | some _ => b.size ≤ capacity
      | none => b.data = .null
  | .setSize _ => True

/-! ### Reallocation -/

private theorem Source.length_assigned (src : Source) :
    src.assigned.length = if src.size = 0 then strlen src.chars else src.size := by
  have hstrlen : strlen src.chars ≤ src.chars.length := (List.takeWhile_prefix _).length_le
  have hvalid := src.valid
  rw [assigned, List.length_take]
  by_cases hsize : src.size = 0
  · rw [if_pos hsize]
    omega
  · rw [if_neg hsize] at hvalid ⊢
    omega

theorem setCapacity_of_reusable {b : BufferRaw} {capacity : Nat} (h : b.reusable capacity = true) (alloc : Alloc) :
    b.setCapacity alloc capacity = (b, none) :=
  if_pos h

theorem setCapacity_of_alloc {b : BufferRaw} {capacity : Nat} {alloc : Alloc} {block : Vector UInt8 capacity}
    (h : ¬ b.reusable capacity = true) (hblock : alloc capacity = some block) :
    b.setCapacity alloc capacity = (⟨.live block.toList, b.size, capacity⟩, none) := by
  unfold setCapacity
  rw [if_neg h, hblock]
  by_cases hnull : b.data = .null
  · simp only [if_pos hnull]
  · simp only [if_neg hnull]

theorem setCapacity_of_badAlloc {b : BufferRaw} {capacity : Nat} {alloc : Alloc} (h : ¬ b.reusable capacity = true)
    (hblock : alloc capacity = none) :
    b.setCapacity alloc capacity =
      (if b.data = .null then b else { b with data := .freed, capacity := 0 }, some .badAlloc) := by
  unfold setCapacity
  rw [if_neg h, hblock]

private theorem setCapacity_none_iff (b : BufferRaw) (alloc : Alloc) (capacity : Nat) :
    (b.setCapacity alloc capacity).2 = none ↔ b.reusable capacity = true ∨ (alloc capacity).isSome = true := by
  by_cases hreusable : b.reusable capacity = true
  · rw [setCapacity_of_reusable hreusable]
    exact ⟨fun _ => .inl hreusable, fun _ => rfl⟩
  · rw [or_iff_right hreusable]
    cases hblock : alloc capacity with
    | none =>
      rw [setCapacity_of_badAlloc hreusable hblock]
      simp
    | some block =>
      rw [setCapacity_of_alloc hreusable hblock]
      exact ⟨fun _ => rfl, fun _ => rfl⟩

private theorem setCapacity_live {b c : BufferRaw} (hb : Points b.capacity b.data) {alloc : Alloc} {capacity : Nat}
    (h : b.setCapacity alloc capacity = (c, none)) :
    c.size = b.size ∧ capacity ≤ c.capacity ∧ ∃ block, c.data = .live block ∧ block.length = c.capacity := by
  by_cases hreusable : b.reusable capacity = true
  · rw [setCapacity_of_reusable hreusable] at h
    obtain rfl : b = c := congrArg Prod.fst h
    simp only [reusable, Bool.and_eq_true, decide_eq_true_eq] at hreusable
    obtain ⟨⟨hnull, hle⟩, -⟩ := hreusable
    refine ⟨rfl, hle, ?_⟩
    cases hdata : b.data with
    | null => exact absurd hdata (by simpa using hnull)
    | freed => rw [hdata] at hb; exact hb.elim
    | live block => rw [hdata] at hb; exact ⟨block, rfl, hb⟩
  · cases hblock : alloc capacity with
    | none =>
      rw [setCapacity_of_badAlloc hreusable hblock] at h
      cases congrArg Prod.snd h
    | some block =>
      rw [setCapacity_of_alloc hreusable hblock] at h
      obtain rfl := congrArg Prod.fst h
      exact ⟨rfl, Nat.le_refl capacity, block.toList, rfl, Vector.length_toList⟩

/-- `new` leaves the buffer as it was if and only if it has a block or there was none. -/
private theorem setCapacity_badAlloc_iff {b : BufferRaw} (hb : RepOk b) {alloc : Alloc} {capacity : Nat}
    (h : ¬ b.reusable capacity = true) (hblock : alloc capacity = none) :
    (RepOk (b.setCapacity alloc capacity).1 ∧ (b.setCapacity alloc capacity).1 = b) ↔ b.data = .null := by
  rw [setCapacity_of_badAlloc h hblock]
  by_cases hnull : b.data = .null
  · simp only [if_pos hnull]
    exact ⟨fun _ => hnull, fun _ => ⟨hb, trivial⟩⟩
  · simp only [if_neg hnull]
    exact ⟨fun hrep => hrep.1.points.elim, fun h => absurd h hnull⟩

/-! ### Assignment -/

/-- What is written after a prefix extends it. -/
private theorem take_writeBytes_append {bytes : Bytes} {n : Nat} (h : n ≤ bytes.length) (c : UInt8) :
    (writeBytes n [c] bytes).take (n + 1) = bytes.take n ++ [c] := by
  have hlen : (bytes.take n ++ [c]).length = n + 1 := by
    rw [List.length_append, List.length_take_of_le h, List.length_singleton]
  rw [writeBytes, ← hlen, List.take_left]

private theorem assign_eq (b : BufferRaw) (alloc : Alloc) (src : Source) :
    b.assign alloc src.chars src.size =
      match b.setCapacity alloc (src.assigned.length + 1) with
      | (c, some e) => (c, some e)
      | (c, none) =>
        setSize src.assigned.length
          { c with data := (c.data.write 0 src.assigned).write src.assigned.length [0] } := by
  rw [src.length_assigned]
  rfl

/-- An assignment that has memory leaves the bytes and a NUL, whatever was in the buffer. -/
theorem assign_of_setCapacity {b c : BufferRaw} (hb : Points b.capacity b.data) {alloc : Alloc} {src : Source}
    (h : b.setCapacity alloc (src.assigned.length + 1) = (c, none)) :
    ∃ d, b.assign alloc src.chars src.size = (d, none) ∧ RepOk d ∧ d.Holds src.assigned := by
  obtain ⟨-, hle, block, hblock, hlen⟩ := setCapacity_live hb h
  have hfits : ¬ c.capacity < src.assigned.length := by omega
  have hcopied : (writeBytes 0 src.assigned block).length = block.length := length_writeBytes (by omega)
  have hwritten : (writeBytes src.assigned.length [0] (writeBytes 0 src.assigned block)).length = block.length := by
    rw [length_writeBytes, hcopied]
    rw [hcopied, List.length_singleton]
    omega
  have hassign : b.assign alloc src.chars src.size =
      (⟨.live (writeBytes src.assigned.length [0] (writeBytes 0 src.assigned block)), src.assigned.length,
        c.capacity⟩, none) := by
    rw [assign_eq, h]
    simp only [setSize, if_neg hfits, hblock, Block.write]
  refine ⟨_, hassign, ⟨Nat.not_lt.1 hfits, hwritten.trans hlen⟩, rfl, _, rfl, ?_⟩
  rw [take_writeBytes_append (by omega), take_writeBytes_zero]

theorem assign_of_badAlloc {b c : BufferRaw} {alloc : Alloc} {src : Source} {e : BufferError}
    (h : b.setCapacity alloc (src.assigned.length + 1) = (c, some e)) :
    b.assign alloc src.chars src.size = (c, some e) := by
  rw [assign_eq, h]

/-! ### One operation -/

private theorem opKept_setSize {b : BufferRaw} (hb : RepOk b) (size : Nat) : OpKept b (.setSize size) := by
  simp only [OpKept, apply, setSize]
  by_cases hlt : b.capacity < size
  · rw [if_pos hlt]
    exact ⟨hb, rfl⟩
  · rw [if_neg hlt]
    exact ⟨⟨Nat.not_lt.1 hlt, hb.points⟩, trivial⟩

private theorem opKept_setCapacity_iff {b : BufferRaw} (hb : RepOk b) (alloc : Alloc) (capacity : Nat) :
    OpKept b (.setCapacity alloc capacity) ↔ ReallocatesWell b (.setCapacity alloc capacity) := by
  simp only [OpKept, ReallocatesWell, apply]
  by_cases hreusable : b.reusable capacity = true
  · rw [setCapacity_of_reusable hreusable]
    exact ⟨fun _ => .inl hreusable, fun _ => ⟨hb, trivial⟩⟩
  · rw [or_iff_right hreusable]
    cases hblock : alloc capacity with
    | none =>
      have hiff := setCapacity_badAlloc_iff hb hreusable hblock
      rw [setCapacity_of_badAlloc hreusable hblock] at hiff ⊢
      exact hiff
    | some block =>
      rw [setCapacity_of_alloc hreusable hblock]
      constructor
      · rintro ⟨hrep, -⟩
        exact hrep.size_le
      · intro hle
        exact ⟨⟨hle, Vector.length_toList⟩, trivial⟩

private theorem opKept_assign_iff {b : BufferRaw} (hb : RepOk b) (alloc : Alloc) (src : Source) :
    OpKept b (.assign alloc src) ↔ ReallocatesWell b (.assign alloc src) := by
  have hiff := setCapacity_none_iff b alloc (src.assigned.length + 1)
  simp only [OpKept, ReallocatesWell, apply]
  rw [← or_assoc, ← hiff]
  cases hcapacity : b.setCapacity alloc (src.assigned.length + 1) with
  | mk c error =>
    rw [hcapacity] at hiff
    cases error with
    | none =>
      obtain ⟨d, hassign, hrep, hholds⟩ := assign_of_setCapacity hb.points hcapacity
      rw [hassign]
      exact ⟨fun _ => .inl rfl, fun _ => ⟨hrep, hholds⟩⟩
    | some e =>
      have hno : ¬ (b.reusable (src.assigned.length + 1) = true ∨ (alloc (src.assigned.length + 1)).isSome = true) :=
        fun h => by cases hiff.2 h
      obtain ⟨hreusable, hblock⟩ := not_or.1 hno
      have hbad := setCapacity_badAlloc_iff hb hreusable (Option.not_isSome_iff_eq_none.1 hblock)
      rw [hcapacity] at hbad
      rw [assign_of_badAlloc hcapacity, or_iff_right (fun h => by cases h)]
      exact hbad

private theorem opKept_apply_iff {b : BufferRaw} (hb : RepOk b) (op : Op) : OpKept b op ↔ ReallocatesWell b op := by
  cases op with
  | assign alloc src => exact opKept_assign_iff hb alloc src
  | setCapacity alloc capacity => exact opKept_setCapacity_iff hb alloc capacity
  | setSize size => exact ⟨fun _ => trivial, fun _ => opKept_setSize hb size⟩

/-! ### Main results -/

theorem repOk_empty : RepOk empty :=
  ⟨Nat.le_refl 0, trivial⟩

private theorem opKept_empty (op : Op) : OpKept empty op := by
  refine (opKept_apply_iff repOk_empty op).2 ?_
  cases op with
  | assign alloc src => exact .inr (.inr rfl)
  | setCapacity alloc capacity =>
    refine .inr ?_
    cases alloc capacity with
    | none => rfl
    | some block => exact Nat.zero_le capacity
  | setSize size => trivial

private theorem Leaves.repOk {b : BufferRaw} {op : Op} {r : BufferRaw × Option BufferError} (h : Leaves b op r) :
    RepOk r.1 := by
  obtain ⟨c, error⟩ := r
  cases error with
  | none => exact h.1
  | some e => exact h.1

private theorem Constructed.repOk {b : BufferRaw} (h : Constructed b) : RepOk b := by
  cases h with
  | ofChars alloc src _ h =>
    have hkept : RepOk (empty.assign alloc src.chars src.size).1 := (opKept_empty (.assign alloc src)).repOk
    unfold BufferRaw.ofChars at h
    split at h
    · cases h
    · rename_i c hassign
      obtain rfl := Except.ok.inj h
      rw [hassign] at hkept
      exact hkept
  | ofCapacity alloc capacity _ h =>
    have hkept : RepOk (empty.setCapacity alloc capacity).1 := (opKept_empty (.setCapacity alloc capacity)).repOk
    unfold BufferRaw.ofCapacity at h
    split at h
    · obtain rfl := Except.ok.inj h
      exact repOk_empty
    · split at h
      · cases h
      · rename_i c hcapacity
        obtain rfl := Except.ok.inj h
        rw [hcapacity] at hkept
        exact hkept

/-- A buffer keeps its representation through a run of calls if and only if its reallocations go well. -/
theorem opKept_iff (b : BufferRaw) (hb : Constructed b) (ops : List Op) :
    RepOk b ∧ (Transition.Along step OpKept b ops ↔ Transition.Along step ReallocatesWell b ops) := by
  have hstep : ∀ (b : BufferRaw) (op : Op) (c : BufferRaw), RepOk b → ReallocatesWell b op → b.step op = some c →
      RepOk c := by
    intro b op c hb hwell hst
    obtain rfl : (b.apply op).1 = c := Option.some.inj hst
    exact ((opKept_apply_iff hb op).2 hwell).repOk
  exact ⟨hb.repOk, Transition.along_iff_of_invariant hstep (fun b op hb => opKept_apply_iff hb op) hb.repOk ops⟩

/-- Two bytes are assigned, the block grows, and a smaller capacity is asked for. -/
theorem opKept_iff_grown :
    RepOk ⟨.live [1, 2, 0], 2, 3⟩ ∧
      Transition.Along step OpKept ⟨.live [1, 2, 0], 2, 3⟩
        [.setCapacity (Alloc.fill 0) 10, .setCapacity (Alloc.fill 0) 1] := by
  have hiff := opKept_iff ⟨.live [1, 2, 0], 2, 3⟩ (.ofChars (Alloc.fill 0) ⟨[1, 2], 2, by decide⟩ _ rfl)
    [.setCapacity (Alloc.fill 0) 10, .setCapacity (Alloc.fill 0) 1]
  refine ⟨hiff.1, hiff.2.2 ⟨.inr (by decide : 2 ≤ 10), fun b hb => ?_⟩⟩
  obtain rfl := Option.some.inj hb
  exact ⟨.inl rfl, fun _ _ => trivial⟩

def largeBuffer : BufferRaw := ⟨.live (Vector.replicate 4096 0).toList, 0, 4096⟩

/-- While 2000 of its bytes are in use, the block is replaced by one of 100 bytes. -/
theorem size_above_capacity :
    Constructed largeBuffer ∧
      ¬ Transition.Along step OpKept largeBuffer [.setSize 2000, .setCapacity (Alloc.fill 0) 100] := by
  refine ⟨.ofCapacity (Alloc.fill 0) 4096 _ rfl, fun hrun => ?_⟩
  have hrest := hrun.2 ⟨.live (Vector.replicate 4096 0).toList, 2000, 4096⟩ rfl
  have hshrunk : setCapacity (Alloc.fill 0) 100 ⟨.live (Vector.replicate 4096 0).toList, 2000, 4096⟩ =
      (⟨.live (Vector.replicate 100 0).toList, 2000, 100⟩, none) := setCapacity_of_alloc (by decide) rfl
  have hkept := hrest.1
  simp only [OpKept, apply, hshrunk] at hkept
  exact absurd hkept.1.size_le (by decide)

end BufferRaw

end AvcTool
