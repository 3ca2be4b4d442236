import AvcTool.Network.BufferSendTo

/-!
# The list that is sent at once

`BufferList::create` makes a `BufferSendMsg` for a TCP socket, which is to hand all buffers to one `WSASend`.  It
should be to the socket what `BufferSendTo` is (`AgreesWithSendTo`), but there is no list for which it is
(`never_agrees`): the constructor asks the list for its size when the buffers have been moved out of it, so that the
vector has no entry to write to.

More is wrong in it.  All buffers are written to the same entry (`initIovec_of_lt`), no call changes the object, so
that it never becomes empty (`empty_send`), and a call that succeeds has no result, so that no constructor whatsoever
would make an object that agrees (`not_agreesOn`).
-/

namespace AvcTool

/-- `WSABUF`, with the bytes that `buf` points to. -/
structure WsaBuf where
  buf : Bytes
  len : Nat
  deriving DecidableEq, Repr

structure BufferSendMsg where
  data : List SendBuffer
  iovec : List WsaBuf
  remainSize : Nat
  deriving DecidableEq

/-- What `WSASend` does: it fails, or it accepts some bytes. -/
inductive WsaAnswer where
  | socketError
  | sent (n : Nat)
  deriving DecidableEq, Repr

namespace BufferSendMsg

/-- The loop of the constructor; none if it writes behind the end of the vector. -/
def initIovec : List SendBuffer → Nat → List WsaBuf → Nat → Option (List WsaBuf × Nat)
  | [], _, iovec, remainSize => some (iovec, remainSize)
  | b :: bs, index, iovec, remainSize =>
    if index < iovec.length then
      -- `index` is not counted up
      initIovec bs index (iovec.set index ⟨b.bytes, b.bytes.length⟩) (remainSize + b.bytes.length)
    else none

/-- A list that has been moved from is empty. -/
def movedFrom : List SendBuffer := []

/-- The constructor: `data_` takes the buffers before the size of `data` is read. -/
def create (data : List SendBuffer) : Option BufferSendMsg :=
  (initIovec data 0 (List.replicate movedFrom.length ⟨[], 0⟩) 0).map fun (iovec, remainSize) =>
    ⟨data, iovec, remainSize⟩

def empty (m : BufferSendMsg) : Bool := m.remainSize = 0

/-- The bytes that go out with one `WSASend`. -/
def wire (m : BufferSendMsg) : WsaAnswer → Bytes
  | .socketError => []
  | .sent n => (m.iovec.flatMap fun b => b.buf.take b.len).take n

/-- `send`, with its result; none if the end of the function is reached, which has no `return`.  The number of bytes
is not negative, and there is no second round. -/
def send (m : BufferSendMsg) : WsaAnswer → BufferSendMsg × Option Int
  | .socketError => (m, some (-1))
  | .sent _ => (m, none)

/-- The two objects agree in calls in a row, in each of which as many bytes are accepted from one as from the other. -/
def AgreesOn : List (Kernel × Nat) → BufferSendMsg → BufferSendTo → Prop
  | [], m, p => m.empty = p.empty
  | (k, fuel) :: ks, m, p => m.empty = p.empty ∧ ∀ r, p.send k fuel = some r →
    let accepted := r.calls.flatMap KernelCall.accepted
    let answer := if accepted = [] then WsaAnswer.socketError else .sent accepted.length
    (m.send answer).2 = some r.result ∧ m.wire answer = accepted ∧ AgreesOn ks (m.send answer).1 r.list

/-- For this list the object is made, describes every buffer once and in order, and agrees with the `BufferSendTo` of
a TCP socket in whatever calls are made. -/
def AgreesWithSendTo (data : List SendBuffer) : Prop :=
  ∃ m, create data = some m ∧ m.iovec = (data.map fun b => ⟨b.bytes, b.bytes.length⟩) ∧
    ∀ ks, AgreesOn ks m (.ofList (.create data false))

private theorem initIovec_of_le {data : List SendBuffer} (hdata : data ≠ []) {index : Nat} {iovec : List WsaBuf}
    (h : iovec.length ≤ index) (remainSize : Nat) : initIovec data index iovec remainSize = none := by
  obtain ⟨b, bs, rfl⟩ := List.exists_cons_of_ne_nil hdata
  rw [initIovec, if_neg (Nat.not_lt.2 h)]

/-- Even in a vector that has an entry, only this one is written, and the last buffer stays in it. -/
theorem initIovec_of_lt {data : List SendBuffer} (hdata : data ≠ []) {index : Nat} {iovec : List WsaBuf}
    (h : index < iovec.length) (remainSize : Nat) :
    initIovec data index iovec remainSize =
      some (iovec.set index ⟨(data.getLast hdata).bytes, (data.getLast hdata).bytes.length⟩,
        remainSize + (queueBytes data).length) := by
  induction data generalizing iovec remainSize with
  | nil => exact absurd rfl hdata
  | cons b bs ih =>
    rw [initIovec, if_pos h]
    by_cases hlast : bs = []
    · subst hlast
      simp [initIovec]
    · have hlen : index < (iovec.set index ⟨b.bytes, b.bytes.length⟩).length := by rwa [List.length_set]
      rw [ih hlast hlen, List.set_set, List.getLast_cons hlast, queueBytes_cons, List.length_append, Nat.add_assoc]

theorem empty_send (m : BufferSendMsg) (answer : WsaAnswer) : (m.send answer).1.empty = m.empty := by
  cases answer <;> rfl

/-- A kernel that accepts everything. -/
def greedyKernel : Kernel where
  answer _ len := ⟨len, false⟩
  answer_le := fun _ _ => Int.le_refl _

private theorem not_fillsUp_greedyKernel (i : Nat) (p : BufferSendTo) : ¬ BufferSendTo.FillsUp greedyKernel i p := by
  intro hfills
  induction hfills with
  | now hdata hagain => cases hagain.2
  | later hdata hn hrest ih => exact ih

private theorem send_greedyKernel {data : List SendBuffer} (hdata : data ≠ []) :
    ∃ fuel r, (BufferSendTo.ofList (.create data false)).send greedyKernel fuel = some r ∧
      r.calls.flatMap KernelCall.accepted ≠ [] := by
  obtain ⟨b, bs, rfl⟩ := List.exists_cons_of_ne_nil hdata
  let l : BufferList := .create (b :: bs) false
  have hl : l.data = b :: bs := rfl
  obtain ⟨r, hr, -⟩ := BufferSendTo.sendLoop_of_not_fillsUp 0
    (Nat.lt_succ_self (BufferSendTo.ofList l).addressed.length) (not_fillsUp_greedyKernel 0 (.ofList l))
  refine ⟨_, r, hr, ?_⟩
  have hoffered := BufferSendTo.offered_ne_nil hl (greedyKernel.answer 0)
  rcases BufferSendTo.sendLoop_round (BufferSendTo.data_ofList hl) hr with ⟨hagain, -⟩ | ⟨hn, -⟩ | ⟨-, r', -, rfl⟩
  · cases hagain.2
  · exact absurd (List.length_eq_zero_iff.1 (Int.ofNat_eq_zero.1 (Int.le_antisymm hn (Int.natCast_nonneg _)))) hoffered
  · rw [List.flatMap_cons]
    refine List.append_ne_nil_of_left_ne_nil ?_ _
    have hall : ((BufferSendTo.ofList l).call (b.bytes, b.dst) (greedyKernel.answer 0)).accepted =
        ((BufferSendTo.ofList l).call (b.bytes, b.dst) (greedyKernel.answer 0)).offered := List.take_length
    rwa [hall]

/-- Whatever has been made of the list, it does not agree, since a call that succeeds has no result. -/
theorem not_agreesOn {data : List SendBuffer} (hdata : data ≠ []) (m : BufferSendMsg) :
    ¬ ∀ ks, AgreesOn ks m (.ofList (.create data false)) := by
  intro hall
  obtain ⟨fuel, r, hr, hsome⟩ := send_greedyKernel hdata
  have hresult := ((hall [(greedyKernel, fuel)]).2 r hr).1
  rw [if_neg hsome] at hresult
  cases hresult

/-- The constructor reaches behind the vector for every list that holds a buffer. -/
private theorem create_eq_none {data : List SendBuffer} (hdata : data ≠ []) : create data = none := by
  rw [create, initIovec_of_le hdata (Nat.le_refl 0), Option.map_none]

theorem never_agrees {data : List SendBuffer} (hdata : data ≠ []) : ¬ AgreesWithSendTo data := by
  rintro ⟨m, hm, -⟩
  rw [create_eq_none hdata] at hm
  cases hm

theorem never_agrees_oneBuffer : ¬ AgreesWithSendTo [⟨[1, 2, 3], none, nofun⟩] :=
  never_agrees (List.cons_ne_nil _ _)

/-- Two buffers: the constructor writes to `iovec_[0]` of a vector without entries. -/
theorem create_two_buffers :
    create [⟨[1, 2], none, nofun⟩, ⟨[3], none, nofun⟩] = none ∧
      ¬ AgreesWithSendTo [⟨[1, 2], none, nofun⟩, ⟨[3], none, nofun⟩] := by
  refine ⟨rfl, ?_⟩
  rintro ⟨m, hm, -⟩
  cases hm

end BufferSendMsg

end AvcTool
