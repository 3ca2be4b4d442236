import Mathlib.Data.Finset.Card
import Mathlib.Logic.Equiv.Basic
import Mathlib.Logic.Function.Basic

/-!
# Reference counts

Objects that have several owners, each object with the number of its owners.  An object is disposed of when this number
becomes zero, and to use it or to count another owner after that is a fault (`none`).

`Counted` says that the numbers are right, for owners that have one object at most.  Then an object is alive as long as
it has an owner, and no longer (`Counted.alive_iff`).  The rules are for an owner that takes a new object (`alloc`),
takes an object that another owner has (`retain`), gives its object up (`release`, `reset`) or hands it over (`move`);
none of them changes an object that stays alive.
-/

structure RefHeap (α : Type*) where
  /-- the number of owners and the object -/
  cells : Nat → Option (Nat × α)
  next : Nat

namespace RefHeap

variable {α ω : Type*}

def empty : RefHeap α := ⟨fun _ => none, 0⟩

def get (h : RefHeap α) (r : Nat) : Option α := (h.cells r).map Prod.snd

def useCount (h : RefHeap α) (r : Nat) : Nat := (h.cells r).elim 0 Prod.fst

def Alive (h : RefHeap α) (r : Nat) : Prop := (h.cells r).isSome

def alloc (h : RefHeap α) (a : α) : RefHeap α :=
  ⟨Function.update h.cells h.next (some (1, a)), h.next + 1⟩

def retain (h : RefHeap α) (r : Nat) : Option (RefHeap α) :=
  (h.cells r).map fun c => { h with cells := Function.update h.cells r (some (c.1 + 1, c.2)) }

def release (h : RefHeap α) (r : Nat) : Option (RefHeap α) :=
  (h.cells r).map fun c => { h with cells := Function.update h.cells r (if c.1 ≤ 1 then none else some (c.1 - 1, c.2)) }

/-- A weak reference is locked: an object that is alive has another owner. -/
def lock (h : RefHeap α) (r : Nat) : RefHeap α × Option Nat :=
  match h.retain r with
  | some h => (h, some r)
  | none => (h, none)

/-- A reference that may be null is given up. -/
def reset (h : RefHeap α) : Option Nat → Option (RefHeap α)
  | none => some h
  | some r => h.release r

/-- The number of owners of every object. -/
structure Counted (h : RefHeap α) (owns : ω → Option Nat) : Prop where
  fresh : ∀ r, h.next ≤ r → h.cells r = none
  positive : ∀ r c, h.cells r = some c → 0 < c.1
  counted : ∀ r, ∃ owners : Finset ω, (∀ o, o ∈ owners ↔ owns o = some r) ∧ h.useCount r = owners.card

/-- Whether an owner has the object, as a number. -/
def share (x : Option Nat) (r : Nat) : Nat := if x = some r then 1 else 0

@[simp] theorem share_none (r : Nat) : share none r = 0 := rfl

private theorem share_some (x r : Nat) : share (some x) r = if x = r then 1 else 0 := by
  simp [share]

theorem Counted.empty : Counted (.empty : RefHeap α) (fun _ : ω => none) where
  fresh _ _ := rfl
  positive := by simp [RefHeap.empty]
  counted r := ⟨∅, by simp, rfl⟩

variable {h h' : RefHeap α} {owns owns' : ω → Option Nat} {o : ω} {r : Nat}

/-- What the owners of an object are when one owner takes another object, or none. -/
private theorem exists_owners {owners : Finset ω} (howners : ∀ o', o' ∈ owners ↔ owns o' = some r) (o : ω)
    (y : Option Nat) :
    ∃ owners' : Finset ω, (∀ o', o' ∈ owners' ↔ (o' = o ∧ y = some r) ∨ (o' ≠ o ∧ owns o' = some r)) ∧
      owners'.card + share (owns o) r = owners.card + share y r := by
  classical
  have herase : (owners.erase o).card + share (owns o) r = owners.card := by
    by_cases ho : owns o = some r
    · have hmem : o ∈ owners := (howners o).2 ho
      simp only [share, if_pos ho]
      exact Finset.card_erase_add_one hmem
    · have hmem : o ∉ owners := fun hmem => ho ((howners o).1 hmem)
      simp [share, ho, Finset.erase_eq_of_notMem hmem]
  by_cases hy : y = some r
  · refine ⟨insert o (owners.erase o), fun o' => ?_, ?_⟩
    · simp [Finset.mem_insert, Finset.mem_erase, howners, hy]
    · rw [Finset.card_insert_of_notMem (Finset.notMem_erase o owners)]
      simp only [share, if_pos hy] at herase ⊢
      omega
  · refine ⟨owners.erase o, fun o' => ?_, ?_⟩
    · simp [Finset.mem_erase, howners, hy]
    · simp only [share, if_neg hy] at herase ⊢
      omega

/-- One owner has another object than before, or none. -/
theorem Counted.assign (h₀ : Counted h owns) (o : ω) (y : Option Nat) (hfresh : ∀ r, h'.next ≤ r → h'.cells r = none)
    (hpositive : ∀ r c, h'.cells r = some c → 0 < c.1)
    (hcount : ∀ r, h'.useCount r + share (owns o) r = h.useCount r + share y r)
    (hself : owns' o = y) (hother : ∀ o', o' ≠ o → owns' o' = owns o') : Counted h' owns' := by
  refine ⟨hfresh, hpositive, fun r => ?_⟩
  obtain ⟨owners, howners, hcard⟩ := h₀.counted r
  obtain ⟨owners', howners', hcard'⟩ := exists_owners howners o y
  refine ⟨owners', fun o' => ?_, ?_⟩
  · rw [howners']
    by_cases ho : o' = o
    · subst ho
      simp [hself]
    · simp [ho, hother o' ho]
  · have := hcount r
    omega

theorem Counted.congr (h₀ : Counted h owns) (howns : ∀ o, owns' o = owns o) : Counted h owns' :=
  funext howns ▸ h₀

theorem Counted.alive_iff (h₀ : Counted h owns) (r : Nat) : h.Alive r ↔ ∃ o, owns o = some r := by
  obtain ⟨owners, howners, hcard⟩ := h₀.counted r
  have hpos : h.Alive r ↔ 0 < owners.card := by
    rw [← hcard]
    unfold Alive useCount
    cases hc : h.cells r with
    | none => simp
    | some c => simpa using h₀.positive r c hc
  rw [hpos, Finset.card_pos]
  exact exists_congr howners

/-- An owner of an object finds it alive. -/
private theorem Counted.exists_cell (h₀ : Counted h owns) (ho : owns o = some r) : ∃ c, h.cells r = some c :=
  Option.isSome_iff_exists.1 ((h₀.alive_iff r).2 ⟨o, ho⟩)

theorem Counted.exists_get (h₀ : Counted h owns) (ho : owns o = some r) : ∃ a, h.get r = some a := by
  obtain ⟨c, hc⟩ := h₀.exists_cell ho
  exact ⟨c.2, by rw [get, hc]; rfl⟩

/-! ### The rules -/

theorem Counted.alloc (h₀ : Counted h owns) (a : α) (ho : owns o = none) (hself : owns' o = some h.next)
    (hother : ∀ o', o' ≠ o → owns' o' = owns o') : Counted (h.alloc a) owns' := by
  refine h₀.assign o (some h.next) (fun r hr => ?_) (fun r c hc => ?_) (fun r => ?_) hself hother
  · have hr' : h.next + 1 ≤ r := hr
    have hne : r ≠ h.next := by omega
    exact (Function.update_of_ne hne _ _).trans (h₀.fresh r (by omega))
  · by_cases hr : r = h.next
    · subst hr
      have hc' : (1, a) = c := by simpa [RefHeap.alloc] using hc
      simp [← hc']
    · exact h₀.positive r c (by simpa [RefHeap.alloc, hr] using hc)
  · rw [ho, share_some]
    by_cases hr : r = h.next
    · subst hr
      simp [RefHeap.alloc, useCount, h₀.fresh h.next le_rfl]
    · simp [RefHeap.alloc, useCount, hr, Ne.symm hr]

/-- The cell of one object changes. -/
private theorem Counted.setCell (h₀ : Counted h owns) {y : Option Nat} {n : Nat × α} {c : Option (Nat × α)}
    (hn : h.cells r = some n) (hc : ∀ m, c = some m → 0 < m.1)
    (hcount : ∀ r', r' ≠ r → share (owns o) r' = share y r')
    (hcount' : c.elim 0 Prod.fst + share (owns o) r = n.1 + share y r) (hself : owns' o = y)
    (hother : ∀ o', o' ≠ o → owns' o' = owns o') :
    Counted { h with cells := Function.update h.cells r c } owns' := by
  have hlt : r < h.next := by
    by_contra hle
    rw [h₀.fresh r (Nat.not_lt.1 hle)] at hn
    cases hn
  refine h₀.assign o y (fun r' hr' => ?_) (fun r' m hm => ?_) (fun r' => ?_) hself hother
  · have hr'' : h.next ≤ r' := hr'
    have hne : r' ≠ r := by omega
    exact (Function.update_of_ne hne _ _).trans (h₀.fresh r' hr'')
  · by_cases hr' : r' = r
    · subst hr'
      exact hc m (by simpa using hm)
    · exact h₀.positive r' m (by simpa [hr'] using hm)
  · by_cases hr' : r' = r
    · subst hr'
      simpa [useCount, hn] using hcount'
    · simp [useCount, hr', hcount r' hr']

/-- An owner that has no object takes that of another owner. -/
theorem Counted.retain (h₀ : Counted h owns) {o' : ω} (ho' : owns o' = some r) (ho : owns o = none)
    (hself : owns' o = some r) (hother : ∀ o', o' ≠ o → owns' o' = owns o') :
    ∃ h', h.retain r = some h' ∧ Counted h' owns' := by
  obtain ⟨c, hc⟩ := h₀.exists_cell ho'
  refine ⟨_, by rw [RefHeap.retain, hc]; rfl, ?_⟩
  refine h₀.setCell hc (by rintro m ⟨⟩; simp) (fun r' hr' => ?_) ?_ hself hother
  · rw [ho, share_some, share_none, if_neg (Ne.symm hr')]
  · rw [ho, share_some, share_none, if_pos rfl]
    rfl

theorem Counted.release (h₀ : Counted h owns) (ho : owns o = some r) (hself : owns' o = none)
    (hother : ∀ o', o' ≠ o → owns' o' = owns o') :
    ∃ h', h.release r = some h' ∧ Counted h' owns' := by
  obtain ⟨c, hc⟩ := h₀.exists_cell ho
  have hpos := h₀.positive r c hc
  refine ⟨_, by rw [RefHeap.release, hc]; rfl, ?_⟩
  refine h₀.setCell hc (fun m hm => ?_) (fun r' hr' => ?_) ?_ hself hother
  · split at hm
    · cases hm
    · obtain rfl := Option.some.inj hm
      show 0 < c.1 - 1
      omega
  · rw [ho, share_some, share_none, if_neg (Ne.symm hr')]
  · rw [ho, share_some, share_none, if_pos rfl]
    split
    · have hone : c.1 = 1 := by omega
      simp [hone]
    · show c.1 - 1 + 1 = c.1 + 0
      omega

theorem Counted.reset (h₀ : Counted h owns) (o : ω) (hself : owns' o = none)
    (hother : ∀ o', o' ≠ o → owns' o' = owns o') : ∃ h', h.reset (owns o) = some h' ∧ Counted h' owns' := by
  cases ho : owns o with
  | some r => exact h₀.release ho hself hother
  | none =>
    refine ⟨h, rfl, h₀.congr fun o' => ?_⟩
    by_cases heq : o' = o
    · rw [heq, hself, ho]
    · exact hother o' heq

theorem lock_snd_iff : (h.lock r).2 = some r ↔ h.Alive r := by
  unfold lock RefHeap.retain Alive
  cases h.cells r <;> simp

theorem eq_of_lock {x : Nat} (hx : (h.lock r).2 = some x) : x = r := by
  unfold lock RefHeap.retain at hx
  cases hc : h.cells r with
  | none => simp [hc] at hx
  | some c => simpa [hc, eq_comm] using hx

/-- An owner that has no object locks a weak reference. -/
theorem Counted.lock (h₀ : Counted h owns) (r : Nat) (ho : owns o = none) (hself : owns' o = (h.lock r).2)
    (hother : ∀ o', o' ≠ o → owns' o' = owns o') : Counted (h.lock r).1 owns' := by
  by_cases halive : h.Alive r
  · obtain ⟨o', ho'⟩ := (h₀.alive_iff r).1 halive
    rw [lock_snd_iff.2 halive] at hself
    obtain ⟨h', hretain, hcounted⟩ := h₀.retain ho' ho hself hother
    simpa only [RefHeap.lock, hretain] using hcounted
  · have hcell : h.cells r = none := by simpa [Alive] using halive
    have hretain : h.retain r = none := by rw [RefHeap.retain, hcell]; rfl
    simp only [RefHeap.lock, hretain] at hself ⊢
    refine h₀.congr fun o' => ?_
    by_cases heq : o' = o
    · rw [heq, hself, ho]
    · exact hother o' heq

/-- An owner hands its object over to one that has none. -/
theorem Counted.move (h₀ : Counted h owns) {o' : ω} (ho' : owns o' = none) (hself : owns' o = none)
    (hnew : owns' o' = owns o) (hother : ∀ x, x ≠ o → x ≠ o' → owns' x = owns x) : Counted h owns' := by
  classical
  have hswap : ∀ x, owns (Equiv.swap o o' x) = owns' x := by
    intro x
    by_cases hx : x = o
    · rw [hx, Equiv.swap_apply_left, ho', hself]
    · by_cases hx' : x = o'
      · rw [hx', Equiv.swap_apply_right, hnew]
      · rw [Equiv.swap_apply_of_ne_of_ne hx hx', hother x hx hx']
  refine ⟨h₀.fresh, h₀.positive, fun r => ?_⟩
  obtain ⟨owners, howners, hcard⟩ := h₀.counted r
  refine ⟨owners.map (Equiv.swap o o').toEmbedding, fun x => ?_, ?_⟩
  · rw [Finset.mem_map_equiv, Equiv.symm_swap, howners, hswap]
  · rw [Finset.card_map, hcard]

/-! ### What the objects are -/

theorem next_retain {r : Nat} (hret : h.retain r = some h') : h'.next = h.next := by
  obtain ⟨c, -, rfl⟩ := Option.map_eq_some_iff.1 hret
  rfl

theorem next_lock (h : RefHeap α) (r : Nat) : (h.lock r).1.next = h.next := by
  unfold lock
  cases hretain : h.retain r with
  | none => rfl
  | some h' => exact next_retain hretain

theorem next_release {r : Nat} (hrel : h.release r = some h') : h'.next = h.next := by
  obtain ⟨c, -, rfl⟩ := Option.map_eq_some_iff.1 hrel
  rfl

theorem next_reset {x : Option Nat} (hrel : h.reset x = some h') : h'.next = h.next := by
  cases x with
  | none =>
    obtain rfl := Option.some.inj hrel
    rfl
  | some r => exact next_release hrel

/-- While it is alive an object stays the same. -/
theorem get_alloc {r : Nat} {a b : α} (hfresh : h.cells h.next = none) (hr : h.get r = some b) :
    (h.alloc a).get r = some b := by
  have hne : r ≠ h.next := by
    rintro rfl
    simp [get, hfresh] at hr
  simpa [get, alloc, hne] using hr

@[simp] theorem get_alloc_next (h : RefHeap α) (a : α) : (h.alloc a).get h.next = some a := by
  simp [get, alloc]

theorem get_retain {r r' : Nat} (hret : h.retain r = some h') : h'.get r' = h.get r' := by
  obtain ⟨c, hc, rfl⟩ := Option.map_eq_some_iff.1 hret
  by_cases hr : r' = r
  · subst hr
    simp [get, hc]
  · simp [get, hr]

theorem get_lock (h : RefHeap α) (r r' : Nat) : (h.lock r).1.get r' = h.get r' := by
  unfold lock
  cases hretain : h.retain r with
  | none => rfl
  | some h' => exact get_retain hretain

theorem get_release_of_ne {r r' : Nat} (hrel : h.release r = some h') (hne : r' ≠ r) : h'.get r' = h.get r' := by
  obtain ⟨c, -, rfl⟩ := Option.map_eq_some_iff.1 hrel
  simp [get, hne]

theorem alive_of_get {r : Nat} {a : α} (hget : h.get r = some a) : h.Alive r := by
  obtain ⟨c, hc, -⟩ := Option.map_eq_some_iff.1 hget
  simp [Alive, hc]

theorem get_release {r r' : Nat} (hrel : h.release r = some h') (halive : h'.Alive r') : h'.get r' = h.get r' := by
  obtain ⟨c, hc, rfl⟩ := Option.map_eq_some_iff.1 hrel
  by_cases hr : r' = r
  · subst hr
    by_cases hone : c.1 ≤ 1
    · simp [Alive, hone] at halive
    · simp [get, hc, hone]
  · simp [get, hr]

theorem get_reset {x : Option Nat} {r : Nat} (hrel : h.reset x = some h') (halive : h'.Alive r) :
    h'.get r = h.get r := by
  cases x with
  | none =>
    obtain rfl := Option.some.inj hrel
    rfl
  | some r' => exact get_release hrel halive

end RefHeap
