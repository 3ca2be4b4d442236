import Mathlib.Data.Finset.Insert
import Mathlib.Data.List.Pairwise

/-!
# Cancelable tasks

`TaskCancelableImpl` refers to its function by `strongTask_`, which `cancel` sets to null, and by `weakTask_`.
`operator bool` reads `strongTask_`; `operator()` locks `weakTask_`, and so it finds the function also when
`strongTask_` is null, as long as another call that is still executing holds it.  It calls what the lock has found,
whether the handle has been cancelled since or not.

The handles are numbered in the order of their creation, and `log` is what happens to them, in order.  `CancelSound`
relates the two; it survives a start of every function whose handle is not cancelled.
-/

namespace AvcTool

structure TaskHandles where
  next : Nat
  /-- those whose `strongTask_` is null -/
  cancelled : Finset Nat
  /-- those that hold an empty function -/
  empty : Finset Nat

inductive TaskEvent where
  | cancelled (h : Nat)
  | started (h : Nat)
  deriving DecidableEq

namespace TaskHandles

def init : TaskHandles := ⟨0, ∅, ∅⟩

/-- `create`; the new handle is `s.next`. -/
def create (s : TaskHandles) (hasFunction : Bool) : TaskHandles :=
  { s with next := s.next + 1, empty := if hasFunction then s.empty else insert s.next s.empty }

/-- `cancel` and the assignment of `nullptr`. -/
def cancel (s : TaskHandles) (h : Nat) : TaskHandles := { s with cancelled := insert h s.cancelled }

/-- `operator bool`. -/
def isValid (s : TaskHandles) (h : Nat) : Bool := h ∉ s.cancelled ∧ h ∉ s.empty

/-- `operator()` locks `weakTask_` and finds the function, `strongTasks` being the handles whose functions other calls
have locked.  From then on nothing keeps it from calling the function. -/
def calls (s : TaskHandles) (strongTasks : List Nat) (h : Nat) : Bool :=
  (h ∉ s.cancelled ∨ h ∈ strongTasks) ∧ h ∉ s.empty

/-- No handle is cancelled, or holds an empty function, before it is created. -/
structure Below (s : TaskHandles) : Prop where
  cancelled_lt : ∀ h ∈ s.cancelled, h < s.next
  empty_lt : ∀ h ∈ s.empty, h < s.next

theorem below_init : Below .init := by
  constructor <;> simp [init]

theorem mem_empty_create {s : TaskHandles} {hasFunction : Bool} {h : Nat} (hmem : h ∈ (s.create hasFunction).empty) :
    h ∈ s.empty ∨ h = s.next ∧ hasFunction = false := by
  unfold create at hmem
  cases hasFunction with
  | true => exact .inl hmem
  | false =>
    rcases Finset.mem_insert.1 hmem with rfl | hmem
    · exact .inr ⟨rfl, rfl⟩
    · exact .inl hmem

theorem Below.create {s : TaskHandles} (hs : s.Below) (hasFunction : Bool) : (s.create hasFunction).Below where
  cancelled_lt h hmem := (hs.cancelled_lt h hmem).trans (Nat.lt_succ_self _)
  empty_lt h hmem := by
    show h < s.next + 1
    rcases mem_empty_create hmem with hmem | ⟨rfl, -⟩
    · exact (hs.empty_lt h hmem).trans (Nat.lt_succ_self _)
    · exact Nat.lt_succ_self _

theorem Below.cancel {s : TaskHandles} (hs : s.Below) {h : Nat} (hlt : h < s.next) : (s.cancel h).Below where
  cancelled_lt h' hmem := by
    rcases Finset.mem_insert.1 hmem with rfl | hmem
    · exact hlt
    · exact hs.cancelled_lt h' hmem
  empty_lt := hs.empty_lt

theorem isValid_iff {s : TaskHandles} {h : Nat} : s.isValid h = true ↔ h ∉ s.cancelled ∧ h ∉ s.empty := by
  simp [isValid]

/-- A function that no other call has locked is found only if the handle is not cancelled. -/
theorem not_mem_cancelled_of_calls {s : TaskHandles} {strongTasks : List Nat} {h : Nat}
    (hc : s.calls strongTasks h = true) (hex : h ∉ strongTasks) : h ∉ s.cancelled := by
  simp only [calls, hex, or_false, decide_eq_true_eq] at hc
  exact hc.1

end TaskHandles

/-! ### Cancelling is final -/

/-- No function starts after its handle has been cancelled. -/
def CancelFinal (log : List TaskEvent) : Prop :=
  log.Pairwise fun a b => ∀ h, a = .cancelled h → b ≠ .started h

structure CancelSound (s : TaskHandles) (log : List TaskEvent) : Prop where
  recorded : ∀ h, .cancelled h ∈ log → h ∈ s.cancelled
  final : CancelFinal log

theorem cancelSound_init : CancelSound .init [] := ⟨nofun, .nil⟩

theorem CancelSound.create {s : TaskHandles} {log : List TaskEvent} (hs : CancelSound s log) (hasFunction : Bool) :
    CancelSound (s.create hasFunction) log :=
  ⟨hs.recorded, hs.final⟩

theorem CancelSound.cancel {s : TaskHandles} {log : List TaskEvent} (hs : CancelSound s log) (h : Nat) :
    CancelSound (s.cancel h) (log ++ [.cancelled h]) where
  recorded h' hmem := by
    unfold TaskHandles.cancel
    rcases List.mem_append.1 hmem with hmem | hmem
    · exact Finset.mem_insert_of_mem (hs.recorded h' hmem)
    · obtain rfl : h' = h := by simpa using hmem
      exact Finset.mem_insert_self _ _
  final := by
    unfold CancelFinal
    rw [List.pairwise_append]
    refine ⟨hs.final, List.pairwise_singleton _ _, ?_⟩
    intro a _ b hb h' _
    obtain rfl : b = .cancelled h := by simpa using hb
    simp

theorem CancelSound.start {s : TaskHandles} {log : List TaskEvent} (hs : CancelSound s log) {h : Nat}
    (hh : h ∉ s.cancelled) : CancelSound s (log ++ [.started h]) where
  recorded h' hmem := hs.recorded h' (by simpa using hmem)
  final := by
    unfold CancelFinal
    rw [List.pairwise_append]
    refine ⟨hs.final, List.pairwise_singleton _ _, ?_⟩
    intro a ha b hb h' hcan hst
    obtain rfl : h' = h := by simpa [hst] using hb
    exact hh (hs.recorded h' (hcan ▸ ha))

end AvcTool
