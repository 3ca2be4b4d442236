import Mathlib.Data.Finset.Lattice.Fold

/-!
# Handles that are acquired and released

A table says which handles are held, and which of them have been acquired since the table was last marked.
Releasing a handle that is not held changes nothing but is remembered (`stale`).

A `Supply` is one successful acquisition: it gives some valid handle that is not held, whichever handles are.  A call
that acquires at most one handle, and holds nothing else when it returns, is described by `Acquires`; such calls
compose, and releasing what a call has acquired undoes it (`Acquires.release`).
-/

/-- A choice of a valid handle that is not held, for any handles that are. -/
structure Supply {ι : Type*} (valid : ι → Prop) where
  pick : Finset ι → ι
  pick_notMem : ∀ held, pick held ∉ held
  valid_pick : ∀ held, valid (pick held)

structure Handles (ι : Type*) where
  /-- held since before the mark -/
  prior : Finset ι
  /-- acquired since the mark, and still held -/
  acquired : Finset ι
  /-- released since the mark without being held -/
  stale : List ι

namespace Handles

variable {ι : Type*} [DecidableEq ι]

def held (h : Handles ι) : Finset ι := h.prior ∪ h.acquired

def mark (h : Handles ι) : Handles ι :=
  { prior := h.held, acquired := ∅, stale := [] }

def acquire (h : Handles ι) (x : ι) : Handles ι :=
  { h with acquired := insert x h.acquired }

def release (h : Handles ι) (x : ι) : Handles ι :=
  if x ∈ h.held then { h with prior := h.prior.erase x, acquired := h.acquired.erase x }
  else { h with stale := h.stale ++ [x] }

/-- An acquisition that may fail. -/
def acquireFrom {valid : ι → Prop} (h : Handles ι) : Option (Supply valid) → Handles ι × Option ι
  | none => (h, none)
  | some supply => (h.acquire (supply.pick h.held), some (supply.pick h.held))

variable {h t u : Handles ι} {x y : ι}

@[simp] theorem held_mark : h.mark.held = h.held := by simp [mark, held]

@[simp] theorem held_acquire : (h.acquire x).held = insert x h.held := by
  simp [held, acquire, Finset.union_insert]

theorem held_release : (h.release x).held = h.held.erase x := by
  unfold release
  split
  · simp [held, Finset.erase_union_distrib]
  · rename_i hx
    exact (Finset.erase_eq_of_notMem hx).symm

@[simp] theorem mem_held_release : y ∈ (h.release x).held ↔ y ≠ x ∧ y ∈ h.held := by
  rw [held_release, Finset.mem_erase]

/-- A handle that is held is released without a trace. -/
theorem stale_release (hx : x ∈ h.held) : (h.release x).stale = h.stale := by
  unfold release
  rw [if_pos hx]

/-- Releasing a handle that is held since before the mark leaves the acquired ones alone. -/
theorem acquired_release (hx : x ∉ h.acquired) : (h.release x).acquired = h.acquired := by
  unfold release
  split
  · exact Finset.erase_eq_of_notMem hx
  · rfl

theorem release_acquire (hx : x ∉ h.held) : (h.acquire x).release x = h := by
  have hmem : x ∈ (h.acquire x).held := by simp
  have hprior : x ∉ h.prior := fun hp => hx (Finset.mem_union_left _ hp)
  have hacquired : x ∉ h.acquired := fun ha => hx (Finset.mem_union_right _ ha)
  unfold release
  rw [if_pos hmem]
  simp [acquire, Finset.erase_eq_of_notMem hprior, Finset.erase_insert hacquired]

theorem release_acquire_of_ne (hne : x ≠ y) : (h.acquire y).release x = (h.release x).acquire y := by
  unfold release
  simp only [held_acquire, Finset.mem_insert, hne, false_or]
  split
  · simp [acquire, Finset.erase_insert_of_ne hne.symm]
  · rfl

/-! ### Calls that acquire one handle -/

/-- What a call gives and does to the table: a new handle that is held from then on, or nothing at all. -/
inductive Acquires (valid : ι → Prop) (h : Handles ι) : Option ι → Handles ι → Prop where
  | failed : Acquires valid h none h
  | acquired (x : ι) (hnew : x ∉ h.held) (hvalid : valid x) : Acquires valid h (some x) (h.acquire x)

variable {valid : ι → Prop}

theorem acquires_acquireFrom (answer : Option (Supply valid)) :
    Acquires valid h (h.acquireFrom answer).2 (h.acquireFrom answer).1 := by
  cases answer with
  | none => exact .failed
  | some supply => exact .acquired _ (supply.pick_notMem _) (supply.valid_pick _)

theorem Acquires.release (ht : Acquires valid h (some x) t) : t.release x = h := by
  cases ht with
  | acquired _ hnew _ => exact release_acquire hnew

theorem Acquires.eq_of_none (ht : Acquires valid h none t) : t = h := by
  cases ht with
  | failed => rfl

theorem Acquires.eq_of_some (ht : Acquires valid h (some x) t) : t = h.acquire x ∧ x ∉ h.held ∧ valid x := by
  cases ht with
  | acquired _ hnew hvalid => exact ⟨rfl, hnew, hvalid⟩

/-- Two handles are acquired and the first one is released. -/
theorem Acquires.release_first (ht : Acquires valid h (some x) t) (hu : Acquires valid t (some y) u) :
    u.release x = h.acquire y ∧ y ∉ h.held := by
  obtain ⟨rfl, hx, -⟩ := ht.eq_of_some
  obtain ⟨rfl, hy, -⟩ := hu.eq_of_some
  rw [held_acquire, Finset.mem_insert, not_or] at hy
  refine ⟨?_, hy.2⟩
  rw [release_acquire_of_ne (Ne.symm hy.1), release_acquire hx]

/-- A third one is acquired in between. -/
theorem Acquires.release_first_of_three {v : Handles ι} {z : ι} (ht : Acquires valid h (some x) t)
    (hu : Acquires valid t (some y) u) (hv : Acquires valid u (some z) v) :
    v.release x = (h.acquire y).acquire z ∧ z ≠ y ∧ z ∉ h.held := by
  obtain ⟨hrelease, -⟩ := ht.release_first hu
  obtain ⟨ht', -, -⟩ := ht.eq_of_some
  obtain ⟨hu', -, -⟩ := hu.eq_of_some
  obtain ⟨hv', hz, -⟩ := hv.eq_of_some
  rw [hu', ht', held_acquire, held_acquire, Finset.mem_insert, Finset.mem_insert, not_or, not_or] at hz
  refine ⟨?_, hz.1, hz.2.2⟩
  rw [hv', release_acquire_of_ne (Ne.symm hz.2.1), hrelease]

end Handles
