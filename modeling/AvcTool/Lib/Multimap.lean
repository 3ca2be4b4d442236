import Mathlib.Data.List.Sort
import Mathlib.Data.Multiset.AddSub
import Mathlib.Order.Defs.LinearOrder

/-!
# Ordered multimaps

A multimap is the list of its entries in the order of iteration, sorted by key; entries with equal keys stand in
the order in which they were inserted.  `emplace` puts an entry behind all entries whose keys are not greater
(`mem_emplace` says what it contains), so the first entry always has a least key (`begin_le`).  Where the order does
not matter, `bag` is the multiset of the entries.
-/

structure Multimap (κ ν : Type*) [LinearOrder κ] where
  entries : List (κ × ν)
  sorted : entries.Pairwise fun a b => a.1 ≤ b.1

namespace Multimap

variable {κ ν : Type*} [LinearOrder κ]

def empty : Multimap κ ν := ⟨[], .nil⟩

/-- Before the first entry with a greater key. -/
def emplaceEntry (e : κ × ν) (es : List (κ × ν)) : List (κ × ν) :=
  es.orderedInsert (fun a b => a.1 < b.1) e

private theorem mem_emplaceEntry {e e' : κ × ν} {es : List (κ × ν)} : e' ∈ emplaceEntry e es ↔ e' = e ∨ e' ∈ es :=
  List.mem_orderedInsert _

private theorem emplaceEntry_sorted (e : κ × ν) {es : List (κ × ν)} (h : es.Pairwise fun a b => a.1 ≤ b.1) :
    (emplaceEntry e es).Pairwise fun a b => a.1 ≤ b.1 := by
  induction es with
  | nil => exact List.pairwise_singleton _ e
  | cons b es ih =>
    rw [List.pairwise_cons] at h
    unfold emplaceEntry
    rw [List.orderedInsert_cons]
    split
    · rename_i hlt
      rw [List.pairwise_cons]
      refine ⟨?_, List.pairwise_cons.2 h⟩
      intro c hc
      rcases List.mem_cons.1 hc with rfl | hc
      · exact hlt.le
      · exact hlt.le.trans (h.1 c hc)
    · rename_i hle
      rw [List.pairwise_cons]
      refine ⟨?_, ih h.2⟩
      intro c hc
      rcases mem_emplaceEntry.1 hc with rfl | hc
      · exact not_lt.1 hle
      · exact h.1 c hc

/-- `emplace`: the new entry comes behind the entries with the same key. -/
def emplace (m : Multimap κ ν) (k : κ) (v : ν) : Multimap κ ν :=
  ⟨emplaceEntry (k, v) m.entries, emplaceEntry_sorted (k, v) m.sorted⟩

/-- `insert` of a range. -/
def insertAll (m : Multimap κ ν) (es : List (κ × ν)) : Multimap κ ν :=
  es.foldl (fun m e => m.emplace e.1 e.2) m

/-- `erase(begin())`. -/
def eraseBegin (m : Multimap κ ν) : Multimap κ ν := ⟨m.entries.tail, m.sorted.tail⟩

/-- The entries without their order. -/
def bag (m : Multimap κ ν) : Multiset (κ × ν) := ↑m.entries

@[simp] theorem entries_empty : (empty : Multimap κ ν).entries = [] := rfl

theorem mem_emplace {m : Multimap κ ν} {k : κ} {v : ν} {e : κ × ν} :
    e ∈ (m.emplace k v).entries ↔ e = (k, v) ∨ e ∈ m.entries :=
  mem_emplaceEntry

theorem mem_insertAll {m : Multimap κ ν} {es : List (κ × ν)} {e : κ × ν} :
    e ∈ (m.insertAll es).entries ↔ e ∈ m.entries ∨ e ∈ es := by
  induction es generalizing m with
  | nil => simp [insertAll]
  | cons b es ih =>
    have hstep : m.insertAll (b :: es) = (m.emplace b.1 b.2).insertAll es := rfl
    rw [hstep, ih, mem_emplace, List.mem_cons]
    exact or_assoc.trans or_left_comm

@[simp] theorem bag_empty : (empty : Multimap κ ν).bag = 0 := rfl

@[simp] theorem mem_bag {m : Multimap κ ν} {e : κ × ν} : e ∈ m.bag ↔ e ∈ m.entries := Iff.rfl

@[simp] theorem bag_emplace (m : Multimap κ ν) (k : κ) (v : ν) : (m.emplace k v).bag = (k, v) ::ₘ m.bag :=
  Multiset.coe_eq_coe.2 (List.perm_orderedInsert _ _ _)

@[simp] theorem bag_insertAll (m : Multimap κ ν) (es : List (κ × ν)) : (m.insertAll es).bag = m.bag + ↑es := by
  induction es generalizing m with
  | nil => simp [insertAll]
  | cons b es ih =>
    have hstep : m.insertAll (b :: es) = (m.emplace b.1 b.2).insertAll es := rfl
    rw [hstep, ih, bag_emplace, ← Multiset.cons_coe, Multiset.cons_add, Multiset.add_cons]

theorem bag_eq_cons {m : Multimap κ ν} {e : κ × ν} {es : List (κ × ν)} (h : m.entries = e :: es) :
    m.bag = e ::ₘ m.eraseBegin.bag := by
  have htail : m.eraseBegin.entries = es := by simp [eraseBegin, h]
  unfold bag
  rw [htail, h, Multiset.cons_coe]

/-- `begin()` has a least key. -/
theorem begin_le {m : Multimap κ ν} {e e' : κ × ν} {es : List (κ × ν)} (h : m.entries = e :: es)
    (he' : e' ∈ m.entries) : e.1 ≤ e'.1 := by
  have hsorted := m.sorted
  rw [h, List.pairwise_cons] at hsorted
  rw [h] at he'
  rcases List.mem_cons.1 he' with rfl | he'
  · exact le_refl _
  · exact hsorted.1 e' he'

end Multimap
