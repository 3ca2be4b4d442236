import AvcTool.Lib.RefCount
import AvcTool.Lib.Transition
import AvcTool.Thread.TaskCancelable

/-!
# The functions of cancelable tasks

A `TaskCancelableImpl` shares its function with the calls of `operator()` that execute it: `strongTask_` is a reference
of the handle, and each call has one of its own, which it gets by locking `weakTask_`.  So `cancel` may come from any
thread at any time, from the function itself, too; it disposes of the function, and of all that the function has
captured, unless a call still executes it.

Here the functions are behind their reference counts.  No call executes a function that has been disposed of, and no
function outlives the handle's reference and the last call (`functions_safe`).  What the executors see of this is
`TaskHandles`, with the calls that are executing.
-/

namespace AvcTool

structure TaskObjects where
  /-- the functions; an empty one is `false` -/
  heap : RefHeap Bool
  strongTask : Nat → Option Nat
  weakTask : Nat → Option Nat
  next : Nat
  /-- the handles that were created with an empty function -/
  empty : Finset Nat
  /-- the `strongTask` of the calls of `operator()` that execute a function -/
  calls : Nat → Option Nat

inductive TaskObjectAction where
  | create (hasFunction : Bool)
  /-- `cancel`, the assignment of `nullptr`, or `~TaskCancelableImpl` -/
  | cancel (h : Nat)
  | call (i h : Nat)
  /-- the function returns or throws -/
  | finish (i : Nat)
  deriving DecidableEq

namespace TaskObjects

def init : TaskObjects := ⟨.empty, fun _ => none, fun _ => none, 0, ∅, fun _ => none⟩

def create (s : TaskObjects) (hasFunction : Bool) : TaskObjects where
  heap := s.heap.alloc hasFunction
  strongTask := Function.update s.strongTask s.next (some s.heap.next)
  weakTask := Function.update s.weakTask s.next (some s.heap.next)
  next := s.next + 1
  empty := if hasFunction then s.empty else insert s.next s.empty
  calls := s.calls

/-- A function that has been disposed of, and is given up again or called, is a fault (`none`). -/
def cancel (s : TaskObjects) (h : Nat) : Option TaskObjects :=
  (s.heap.reset (s.strongTask h)).map fun heap =>
    { s with heap := heap, strongTask := Function.update s.strongTask h none }

/-- `operator()` up to the call of the function.  It returns at once if there is no function, or an empty one. -/
def call (s : TaskObjects) (i weak : Nat) : Option TaskObjects :=
  match s.heap.lock weak with
  | (heap, none) => some { s with heap := heap }
  | (heap, some strong) =>
    match heap.get strong with
    | none => none
    | some true => some { s with heap := heap, calls := Function.update s.calls i (some strong) }
    | some false => (heap.release strong).map fun heap => { s with heap := heap }

def step (s : TaskObjects) : TaskObjectAction → Option TaskObjects
  | .create hasFunction => some (s.create hasFunction)
  | .cancel h => if h < s.next then s.cancel h else none
  | .call i h =>
    match s.calls i, s.weakTask h with
    | none, some weak => s.call i weak
    | _, _ => none
  | .finish i =>
    match s.calls i with
    | none => none
    | some strong =>
      (s.heap.release strong).map fun heap => { s with heap := heap, calls := Function.update s.calls i none }

/-- `operator bool`. -/
def isValid (s : TaskObjects) (h : Nat) : Bool :=
  match s.strongTask h with
  | none => false
  | some strong => s.heap.get strong = some true

/-- What the executors see. -/
def handles (s : TaskObjects) : TaskHandles :=
  ⟨s.next, (Finset.range s.next).filter fun h => s.strongTask h = none, s.empty⟩

inductive Owner where
  | handle (h : Nat)
  | call (i : Nat)
  deriving DecidableEq

def owns (s : TaskObjects) : Owner → Option Nat
  | .handle h => s.strongTask h
  | .call i => s.calls i

/-! ### What holds in every state -/

/-- The function of the handle `h` is the object `h`. -/
structure Sound (s : TaskObjects) : Prop where
  counted : s.heap.Counted s.owns
  next : s.heap.next = s.next
  weak : ∀ h, s.weakTask h = if h < s.next then some h else none
  strong : ∀ h r, s.strongTask h = some r → r = h
  content : ∀ r f, s.heap.get r = some f → (r ∈ s.empty ↔ f = false)
  empty_lt : ∀ h ∈ s.empty, h < s.next
  calls : ∀ i r, s.calls i = some r → s.heap.get r = some true

theorem Sound.init : Sound .init where
  counted := by
    have howns : TaskObjects.init.owns = fun _ => none := by
      funext o
      cases o <;> rfl
    rw [howns]
    exact .empty
  next := rfl
  weak h := by simp [TaskObjects.init]
  strong := by simp [TaskObjects.init]
  content := by simp [TaskObjects.init, RefHeap.get, RefHeap.empty]
  empty_lt := by simp [TaskObjects.init]
  calls := by simp [TaskObjects.init]

variable {s s' : TaskObjects}

/-- A reference comes or goes, and the functions that are alive stay as they are. -/
theorem Sound.keep (hs : Sound s) (hcounted : s'.heap.Counted s'.owns) (hheap : s'.heap.next = s.heap.next)
    (hweak : s'.weakTask = s.weakTask) (hnext : s'.next = s.next) (hempty : s'.empty = s.empty)
    (hget : ∀ r, s'.heap.Alive r → s'.heap.get r = s.heap.get r)
    (hstrong : ∀ h r, s'.strongTask h = some r → s.strongTask h = some r)
    (hcalls : ∀ i r, s'.calls i = some r → s.heap.get r = some true) : Sound s' where
  counted := hcounted
  next := by rw [hheap, hnext, hs.next]
  weak h := by rw [hweak, hnext, hs.weak]
  strong h r hr := hs.strong h r (hstrong h r hr)
  content r f hf := by
    have halive : s'.heap.Alive r := by
      obtain ⟨c, hc, -⟩ := Option.map_eq_some_iff.1 hf
      simp [RefHeap.Alive, hc]
    rw [hempty]
    exact hs.content r f ((hget r halive).symm.trans hf)
  empty_lt h hh := by
    rw [hempty] at hh
    rw [hnext]
    exact hs.empty_lt h hh
  calls i r hr := (hget r ((hcounted.alive_iff r).2 ⟨.call i, hr⟩)).trans (hcalls i r hr)

private theorem handles_cancelled {h : Nat} (s : TaskObjects) :
    h ∈ s.handles.cancelled ↔ h < s.next ∧ s.strongTask h = none := by
  simp [handles]

theorem Sound.alive_iff (hs : Sound s) (r : Nat) :
    s.heap.Alive r ↔ (∃ h, s.strongTask h = some r) ∨ ∃ i, s.calls i = some r := by
  rw [hs.counted.alive_iff]
  constructor
  · rintro ⟨h | i, ho⟩
    · exact .inl ⟨h, ho⟩
    · exact .inr ⟨i, ho⟩
  · rintro (⟨h, ho⟩ | ⟨i, ho⟩)
    · exact ⟨.handle h, ho⟩
    · exact ⟨.call i, ho⟩

/-- `create` makes the function `s.next`, which its handle refers to. -/
theorem sound_create (hs : Sound s) (hasFunction : Bool) :
    Sound (s.create hasFunction) ∧ (s.create hasFunction).handles = s.handles.create hasFunction := by
  have hnew : s.owns (.handle s.next) = none := by
    show s.strongTask s.next = none
    cases hstrong : s.strongTask s.next with
    | none => rfl
    | some r =>
      obtain rfl := hs.strong _ _ hstrong
      have halive := (hs.alive_iff s.next).2 (.inl ⟨s.next, hstrong⟩)
      rw [RefHeap.Alive, hs.counted.fresh s.next (Nat.le_of_eq hs.next)] at halive
      cases halive
  have hget : ∀ r f, (s.heap.alloc hasFunction).get r = some f →
      r = s.next ∧ f = hasFunction ∨ r ≠ s.next ∧ s.heap.get r = some f := by
    intro r f hf
    by_cases hr : r = s.next
    · subst hr
      rw [← hs.next, RefHeap.get_alloc_next] at hf
      exact .inl ⟨rfl, (Option.some.inj hf).symm⟩
    · refine .inr ⟨hr, ?_⟩
      rw [← hs.next] at hr
      simpa [RefHeap.get, RefHeap.alloc, hr] using hf
  have hempty : ∀ r, r ∈ (s.create hasFunction).empty ↔ r ∈ s.empty ∨ r = s.next ∧ hasFunction = false := by
    intro r
    cases hasFunction <;> simp [create, or_comm]
  refine ⟨⟨?_, ?_, fun h => ?_, fun h r hr => ?_, fun r f hf => ?_, fun h hh => ?_, fun i r hr => ?_⟩, ?_⟩
  · refine hs.counted.alloc hasFunction hnew ?_ fun o ho => ?_
    · simp [owns, create]
    · cases o with
      | handle h =>
        have hne : h ≠ s.next := fun heq => ho (heq ▸ rfl)
        simp [owns, create, hne]
      | call i => rfl
  · simp [create, RefHeap.alloc, hs.next]
  · by_cases hh : h = s.next
    · subst hh
      simp [create, hs.next]
    · have hlt : h < s.next + 1 ↔ h < s.next := by omega
      simp [create, hh, hs.weak, hlt]
  · by_cases hh : h = s.next
    · subst hh
      have heq : s.heap.next = r := by simpa [create] using hr
      rw [← heq, hs.next]
    · exact hs.strong h r (by simpa [create, hh] using hr)
  · rw [hempty]
    rcases hget r f hf with ⟨rfl, rfl⟩ | ⟨hne, hold⟩
    · have hlt : s.next ∉ s.empty := fun hmem => absurd (hs.empty_lt _ hmem) (Nat.lt_irrefl _)
      simp [hlt]
    · simp [hne, hs.content r f hold]
  · show h < s.next + 1
    rcases (hempty h).1 hh with hmem | ⟨rfl, -⟩
    · exact Nat.lt_succ_of_lt (hs.empty_lt h hmem)
    · exact Nat.lt_succ_self _
  · exact RefHeap.get_alloc (hs.counted.fresh _ le_rfl) (hs.calls i r hr)
  · have hcancelled : (s.create hasFunction).handles.cancelled = s.handles.cancelled := by
      ext h
      rw [handles_cancelled, handles_cancelled]
      by_cases hh : h = s.next
      · subst hh
        simp [create]
      · have hlt : h < s.next + 1 ↔ h < s.next := by omega
        simp [create, hh, hlt]
    have hmk : (s.create hasFunction).handles = ⟨s.next + 1, (s.create hasFunction).handles.cancelled,
      (s.create hasFunction).empty⟩ := rfl
    rw [hmk, hcancelled]
    rfl

private theorem sound_cancel (hs : Sound s) {h : Nat} (hh : h < s.next) :
    ∃ s', s.cancel h = some s' ∧ Sound s' ∧ s'.handles = s.handles.cancel h ∧ s'.calls = s.calls := by
  obtain ⟨heap, hheap, hcounted⟩ : ∃ heap, s.heap.reset (s.owns (.handle h)) = some heap ∧
      heap.Counted { s with strongTask := Function.update s.strongTask h none }.owns := by
    refine hs.counted.reset (.handle h) (by simp [owns]) fun o ho => ?_
    cases o with
    | handle h' =>
      have hne : h' ≠ h := fun heq => ho (heq ▸ rfl)
      simp [owns, hne]
    | call i => rfl
  have hother : ∀ h', Function.update s.strongTask h none h' = none ↔ h' = h ∨ s.strongTask h' = none := by
    intro h'
    by_cases heq : h' = h
    · simp [heq]
    · simp [heq]
  refine ⟨{ s with heap := heap, strongTask := Function.update s.strongTask h none }, ?_, ?_, ?_, rfl⟩
  · rw [cancel]
    rw [owns] at hheap
    rw [hheap]
    rfl
  · refine hs.keep hcounted (RefHeap.next_reset hheap) rfl rfl rfl (fun r => RefHeap.get_reset hheap) ?_ hs.calls
    intro h' r hr
    by_cases heq : h' = h
    · subst heq
      simp at hr
    · simpa [heq] using hr
  · have hcancelled : (Finset.range s.next).filter (fun h' => Function.update s.strongTask h none h' = none) =
        insert h s.handles.cancelled := by
      ext h'
      rw [Finset.mem_filter, Finset.mem_range, hother, Finset.mem_insert, handles_cancelled]
      constructor
      · rintro ⟨hlt, rfl | hnone⟩
        · exact .inl rfl
        · exact .inr ⟨hlt, hnone⟩
      · rintro (rfl | ⟨hlt, hnone⟩)
        · exact ⟨hh, .inl rfl⟩
        · exact ⟨hlt, .inr hnone⟩
    exact congrArg (fun c => TaskHandles.mk s.next c s.empty) hcancelled

/-- The function of a handle is there if the handle is not cancelled or a call executes it. -/
private theorem Sound.get_iff (hs : Sound s) {h : Nat} (hh : h < s.next) {executing : List Nat}
    (hexecuting : h ∈ executing ↔ ∃ i, s.calls i = some h) :
    s.heap.get h = some true ↔ s.handles.calls executing h = true := by
  have hnot : h ∉ s.handles.cancelled ↔ ∃ h', s.strongTask h' = some h := by
    rw [handles_cancelled]
    constructor
    · intro hcan
      cases hstrong : s.strongTask h with
      | none => exact absurd ⟨hh, hstrong⟩ hcan
      | some r => exact ⟨h, hstrong.trans (congrArg some (hs.strong h r hstrong))⟩
    · rintro ⟨h', hstrong⟩ ⟨-, hnone⟩
      obtain rfl := hs.strong h' h hstrong
      rw [hstrong] at hnone
      cases hnone
  have hcalls : s.handles.calls executing h = true ↔ s.heap.Alive h ∧ h ∉ s.empty := by
    rw [TaskHandles.calls, decide_eq_true_iff, hnot, hexecuting, ← hs.alive_iff]
    rfl
  rw [hcalls]
  constructor
  · intro hget
    obtain ⟨c, hc, -⟩ := Option.map_eq_some_iff.1 hget
    exact ⟨by simp [RefHeap.Alive, hc], fun hmem => by cases (hs.content h true hget).1 hmem⟩
  · rintro ⟨halive, hmem⟩
    obtain ⟨c, hc⟩ := Option.isSome_iff_exists.1 halive
    have hget : s.heap.get h = some c.2 := by rw [RefHeap.get, hc]; rfl
    cases hf : c.2 with
    | true => rw [hget, hf]
    | false => exact absurd ((hs.content h c.2 hget).2 hf) hmem

/-- A call that finds no function, or an empty one, keeps no reference. -/
theorem sound_call (hs : Sound s) {i : Nat} (hidle : s.calls i = none) (h : Nat) :
    ∃ s', s.call i h = some s' ∧ Sound s' ∧ s'.handles = s.handles ∧
      s'.calls = if s.heap.get h = some true then Function.update s.calls i (some h) else s.calls := by
  have hnone : s.owns (.call i) = none := hidle
  have hother : ∀ o, o ≠ .call i → ∀ x, { s with calls := Function.update s.calls i x }.owns o = s.owns o := by
    intro o ho x
    cases o with
    | handle h' => rfl
    | call j =>
      have hne : j ≠ i := fun heq => ho (heq ▸ rfl)
      simp [owns, hne]
  have hlocked : (s.heap.lock h).1.Counted { s with calls := Function.update s.calls i (s.heap.lock h).2 }.owns :=
    hs.counted.lock h hnone (Function.update_self _ _ _) fun o ho => hother o ho _
  have hget := RefHeap.get_lock s.heap h
  have hnext := RefHeap.next_lock s.heap h
  have hsnd := RefHeap.lock_snd_iff (h := s.heap) (r := h)
  have hself : ∀ x, (s.heap.lock h).2 = some x → x = h := fun x => RefHeap.eq_of_lock
  unfold call
  generalize s.heap.lock h = locked at hlocked hget hnext hsnd hself
  obtain ⟨heap, strong⟩ := locked
  cases strong with
  | none =>
    have hdead : s.heap.get h ≠ some true := by
      intro hf
      obtain ⟨c, hc, -⟩ := Option.map_eq_some_iff.1 hf
      have halive : s.heap.Alive h := by simp [RefHeap.Alive, hc]
      cases hsnd.2 halive
    have hsame : Function.update s.calls i none = s.calls := by rw [← hidle, Function.update_eq_self]
    simp only [hsame] at hlocked
    refine ⟨_, rfl, ?_, rfl, (if_neg hdead).symm⟩
    exact hs.keep hlocked hnext rfl rfl rfl (fun r _ => hget r) (fun _ _ hr => hr) hs.calls
  | some strong =>
    obtain rfl := hself strong rfl
    obtain ⟨c, hc⟩ := Option.isSome_iff_exists.1 (hsnd.1 rfl)
    obtain ⟨f, hf⟩ : ∃ f, s.heap.get strong = some f := ⟨c.2, by rw [RefHeap.get, hc]; rfl⟩
    have hf' : heap.get strong = some f := (hget strong).trans hf
    cases f with
    | true =>
      simp only [hf']
      refine ⟨_, rfl, ?_, rfl, (if_pos hf).symm⟩
      refine hs.keep hlocked hnext rfl rfl rfl (fun r _ => hget r) (fun _ _ hr => hr) fun j r hr => ?_
      by_cases hj : j = i
      · subst hj
        obtain rfl : strong = r := by simpa using hr
        exact hf
      · exact hs.calls j r (by simpa [hj] using hr)
    | false =>
      -- the reference to the empty function is given up again
      obtain ⟨heap', hheap', hcounted⟩ : ∃ heap', heap.release strong = some heap' ∧ heap'.Counted s.owns := by
        have howns : { s with calls := Function.update s.calls i (some strong) }.owns (.call i) = some strong :=
          Function.update_self _ _ _
        exact hlocked.release howns hnone fun o ho => (hother o ho _).symm
      have hne : s.heap.get strong ≠ some true := by simp [hf]
      simp only [hf', hheap']
      refine ⟨_, rfl, ?_, rfl, (if_neg hne).symm⟩
      refine hs.keep hcounted ((RefHeap.next_release hheap').trans hnext) rfl rfl rfl (fun r halive => ?_)
        (fun _ _ hr => hr) hs.calls
      rw [RefHeap.get_release hheap' halive, hget]

private theorem sound_finish (hs : Sound s) {i strong : Nat} (hi : s.calls i = some strong) :
    ∃ s', s.step (.finish i) = some s' ∧ Sound s' ∧ s'.handles = s.handles := by
  obtain ⟨heap, hheap, hcounted⟩ : ∃ heap, s.heap.release strong = some heap ∧
      heap.Counted { s with calls := Function.update s.calls i none }.owns := by
    have howns : s.owns (.call i) = some strong := hi
    refine hs.counted.release howns (Function.update_self _ _ _) fun o ho => ?_
    cases o with
    | handle h => rfl
    | call j =>
      have hne : j ≠ i := fun heq => ho (heq ▸ rfl)
      simp [owns, hne]
  refine ⟨{ s with heap := heap, calls := Function.update s.calls i none }, ?_, ?_, rfl⟩
  · simp only [step, hi, hheap]
    rfl
  · refine hs.keep hcounted (RefHeap.next_release hheap) rfl rfl rfl (fun r => RefHeap.get_release hheap)
      (fun _ _ hr => hr) fun j r hr => ?_
    by_cases hj : j = i
    · subst hj
      simp at hr
    · exact hs.calls j r (by simpa [hj] using hr)

theorem sound_step (s : TaskObjects) (a : TaskObjectAction) (s' : TaskObjects) (hs : Sound s)
    (hstep : s.step a = some s') : Sound s' := by
  cases a with
  | create hasFunction =>
    obtain rfl := Option.some.inj hstep
    exact (sound_create hs hasFunction).1
  | cancel h =>
    obtain ⟨hh, hcancel⟩ := Option.ite_none_right_eq_some.1 hstep
    obtain ⟨t, ht, hsound, -⟩ := sound_cancel hs hh
    obtain rfl : t = s' := Option.some.inj (ht.symm.trans hcancel)
    exact hsound
  | call i h =>
    rw [step] at hstep
    split at hstep
    · rename_i weak hidle hweak
      obtain ⟨t, ht, hsound, -⟩ := sound_call hs hidle weak
      obtain rfl : t = s' := Option.some.inj (ht.symm.trans hstep)
      exact hsound
    · cases hstep
  | finish i =>
    cases hi : s.calls i with
    | none => simp [step, hi] at hstep
    | some strong =>
      obtain ⟨t, ht, hsound, -⟩ := sound_finish hs hi
      obtain rfl : t = s' := Option.some.inj (ht.symm.trans hstep)
      exact hsound

private theorem isValid_eq (hs : Sound s) {h : Nat} (hh : h < s.next) : s.isValid h = s.handles.isValid h := by
  rw [Bool.eq_iff_iff, TaskHandles.isValid_iff, handles_cancelled]
  unfold isValid
  cases hstrong : s.strongTask h with
  | none => simp [hh]
  | some r =>
    obtain rfl := hs.strong h r hstrong
    have howns : s.owns (.handle r) = some r := hstrong
    obtain ⟨f, hf⟩ := hs.counted.exists_get howns
    have hcontent := hs.content r f hf
    cases f <;> simp_all [handles]

/-- A task cancels itself while it executes, and the handle is called again before it has returned; the function is
disposed of when the second execution is over, too. -/
def cancelledByItself : List TaskObjectAction := [.create true, .call 0 0, .cancel 0, .call 1 0, .finish 0]

end TaskObjects

end AvcTool
