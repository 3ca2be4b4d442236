import Mathlib.Data.Finset.Lattice.Lemmas
import Mathlib.Data.Finset.Dedup
import Mathlib.Data.List.Nodup
import Mathlib.Data.List.Pairwise

/-!
# Linked cells

Every cell points to another cell or to nothing: `next : ι → Option ι`.  `Cells next p l` says that the cells from the
pointer `p` on are those of the list `l`; such a list is determined by `p`, and it has no cell twice (`Cells.nodup`).
Two lists that meet have the same end (`Cells.suffix_of_mem`), so that cells with one successor in common are never in
the same list.

`dispose` frees the cells from a pointer on, those behind a cell before the cell itself.  The result is `none` if a cell
is touched that has been freed before.  Disposing of several pointers one after the other succeeds if and only if their
lists are apart (`disposeAll_eq_some_iff`).
-/

namespace LinkedCells

variable {ι : Type*} {next : ι → Option ι}

inductive Cells (next : ι → Option ι) : Option ι → List ι → Prop where
  | nil : Cells next none []
  | cons {i : ι} {l : List ι} (hrest : Cells next (next i) l) : Cells next (some i) (i :: l)

namespace Cells

variable {p q : Option ι} {l l' : List ι}

theorem unique (h : Cells next p l) (h' : Cells next p l') : l = l' := by
  induction h generalizing l' with
  | nil =>
    cases h'
    rfl
  | cons hrest ih =>
    cases h' with
    | cons hrest' => rw [ih hrest']

/-- The list from one of the cells on. -/
private theorem suffix_of_mem (h : Cells next p l) {i : ι} (hi : i ∈ l) : ∃ l', Cells next (some i) l' ∧ l' <:+ l := by
  induction h with
  | nil => cases hi
  | @cons j l hrest ih =>
    rcases List.mem_cons.1 hi with rfl | hi
    · exact ⟨i :: l, .cons hrest, List.suffix_refl _⟩
    · obtain ⟨l', hl', hsuffix⟩ := ih hi
      exact ⟨l', hl', hsuffix.trans (List.suffix_cons j l)⟩

theorem subset_of_mem (h : Cells next p l) {i : ι} (hi : i ∈ l) (h' : Cells next (some i) l') : l' ⊆ l := by
  obtain ⟨l'', hl'', hsuffix⟩ := h.suffix_of_mem hi
  rw [h'.unique hl'']
  exact hsuffix.subset

theorem nodup (h : Cells next p l) : l.Nodup := by
  induction h with
  | nil => exact List.nodup_nil
  | @cons i l hrest ih =>
    refine List.nodup_cons.2 ⟨fun hi => ?_, ih⟩
    -- the list from `i` on would be a part of its own rest
    obtain ⟨l', hl', hsuffix⟩ := hrest.suffix_of_mem hi
    have hlen := hsuffix.length_le
    rw [hl'.unique (.cons hrest), List.length_cons] at hlen
    omega

/-- Cells with the same successor are not in the same list. -/
theorem eq_of_next_eq (h : Cells next p l) {i j : ι} (hi : i ∈ l) (hj : j ∈ l) (hnext : next i = next j) : i = j := by
  obtain ⟨li, hli, hsuffi⟩ := h.suffix_of_mem hi
  obtain ⟨lj, hlj, hsuffj⟩ := h.suffix_of_mem hj
  cases hli with
  | @cons _ ri hri =>
    cases hlj with
    | @cons _ rj hrj =>
      -- both are suffixes of one list, and of one length
      obtain rfl : ri = rj := hri.unique (hnext ▸ hrj)
      have hlen : (i :: ri).length = (j :: ri).length := by rw [List.length_cons, List.length_cons]
      have heq := List.suffix_of_suffix_length_le hsuffi hsuffj hlen.le
      have heq : i :: ri = j :: ri := heq.eq_of_length hlen
      exact (List.cons.inj heq).1

theorem mem_of_mem_next (h : Cells next p l) {i j : ι} (hi : i ∈ l) (hj : next i = some j) : j ∈ l := by
  obtain ⟨l', hl', hsuffix⟩ := h.suffix_of_mem hi
  cases hl' with
  | cons hrest =>
    rw [hj] at hrest
    cases hrest with
    | cons hrest => exact hsuffix.subset (List.mem_cons_of_mem _ List.mem_cons_self)

private theorem eq_some_or_next_eq (h : Cells next p l) {i : ι} (hi : i ∈ l) :
    p = some i ∨ ∃ j ∈ l, next j = some i := by
  induction h with
  | nil => cases hi
  | @cons j l hrest ih =>
    rcases List.mem_cons.1 hi with rfl | hi
    · exact .inl rfl
    · rcases ih hi with hnext | ⟨k, hk, hnext⟩
      · exact .inr ⟨j, List.mem_cons_self, hnext⟩
      · exact .inr ⟨k, List.mem_cons_of_mem j hk, hnext⟩

/-- If no two cells point to the same one, then lists that start at cells which nothing points to do not meet. -/
theorem disjoint_of_injective (hinj : ∀ i j k, next i = some k → next j = some k → i = j) {r r' : ι}
    (h : Cells next (some r) l) (h' : Cells next (some r') l') (hr : ∀ i, next i ≠ some r)
    (hr' : ∀ i, next i ≠ some r') (hne : r ≠ r') : l.Disjoint l' := by
  suffices ∀ p l, Cells next p l → (∀ i ∈ p, i ∉ l') → l.Disjoint l' by
    refine this _ _ h fun i hi hmem => ?_
    obtain rfl := Option.some.inj hi
    rcases h'.eq_some_or_next_eq hmem with heq | ⟨j, -, hnext⟩
    · exact hne (Option.some.inj heq).symm
    · exact hr j hnext
  intro p l hl
  induction hl with
  | nil => exact fun hfirst => List.disjoint_nil_left _
  | @cons i l hrest ih =>
    intro hfirst
    refine List.disjoint_cons_left.2 ⟨hfirst i rfl, ih fun j hj hmem => ?_⟩
    -- what points to `j` in the other list can only be `i` again
    rcases h'.eq_some_or_next_eq hmem with heq | ⟨k, hk, hnext⟩
    · exact hr' i (heq ▸ hj)
    · exact hfirst i rfl (hinj k i j hnext hj ▸ hk)

/-- Only the pointers of the cells of the list matter. -/
theorem congr {next' : ι → Option ι} (h : Cells next p l) (heq : ∀ i ∈ l, next' i = next i) : Cells next' p l := by
  induction h with
  | nil => exact .nil
  | @cons i l hrest ih =>
    refine .cons ?_
    rw [heq i List.mem_cons_self]
    exact ih fun j hj => heq j (List.mem_cons_of_mem i hj)

end Cells

/-- If pointers go down along a rank, then there is a list for each of them. -/
private theorem exists_cells (rank : ι → Nat) (hrank : ∀ i j, next i = some j → rank j < rank i) :
    ∀ p, ∃ l, Cells next p l ∧ ∀ i ∈ p, l.length ≤ rank i + 1
  | none => ⟨[], .nil, nofun⟩
  | some i => by
    suffices ∀ n i, rank i ≤ n → ∃ l, Cells next (some i) l ∧ l.length ≤ rank i + 1 by
      obtain ⟨l, hl, hlen⟩ := this (rank i) i (le_refl _)
      refine ⟨l, hl, fun j hj => ?_⟩
      obtain rfl := Option.some.inj hj
      exact hlen
    intro n
    induction n with
    | zero =>
      intro i hi
      cases hnext : next i with
      | none => exact ⟨[i], .cons (hnext ▸ .nil), by simp⟩
      | some j =>
        have hlt := hrank i j hnext
        omega
    | succ n ih =>
      intro i hi
      cases hnext : next i with
      | none => exact ⟨[i], .cons (hnext ▸ .nil), by simp⟩
      | some j =>
        have hlt := hrank i j hnext
        obtain ⟨l, hl, hlen⟩ := ih j (by omega)
        refine ⟨i :: l, .cons (hnext ▸ hl), ?_⟩
        rw [List.length_cons]
        omega

/-- If pointers go down along a rank that is bounded, then every cell is in the list of one that nothing points to. -/
theorem exists_root {S : ι → Prop} (rank : ι → Nat) (n : Nat) (hrank : ∀ i j, next i = some j → rank j < rank i)
    (hbound : ∀ i, S i → rank i < n) {i : ι} (hi : S i) :
    ∃ r l, S r ∧ (∀ j, S j → next j ≠ some r) ∧ Cells next (some r) l ∧ i ∈ l := by
  suffices ∀ k i, S i → n - rank i ≤ k → ∃ r l, S r ∧ (∀ j, S j → next j ≠ some r) ∧ Cells next (some r) l ∧ i ∈ l from
    this _ i hi (le_refl _)
  intro k
  induction k with
  | zero =>
    intro i hi hk
    have hlt := hbound i hi
    omega
  | succ k ih =>
    intro i hi hk
    by_cases hroot : ∀ j, S j → next j ≠ some i
    · obtain ⟨l, hl, -⟩ := exists_cells rank hrank (some i)
      refine ⟨i, l, hi, hroot, hl, ?_⟩
      cases hl with
      | cons hrest => exact List.mem_cons_self
    · -- the cell that points to `i` is nearer to the bound
      simp only [not_forall, not_not] at hroot
      obtain ⟨j, hj, hnext⟩ := hroot
      have hlt := hrank j i hnext
      obtain ⟨r, l, hr, hnone, hl, hmem⟩ := ih j hj (by omega)
      exact ⟨r, l, hr, hnone, hl, hl.mem_of_mem_next hmem hnext⟩

/-! ### Disposing of the cells -/

section Dispose

variable [DecidableEq ι]

/-- Frees the cells from a pointer on, at most `fuel` of them, and gives all that are freed then. -/
def dispose (next : ι → Option ι) : Nat → Finset ι → Option ι → Option (Finset ι)
  | 0, _, _ => none
  | _ + 1, freed, none => some freed
  | fuel + 1, freed, some i => if i ∈ freed then none else (dispose next fuel freed (next i)).map (insert i)

def disposeAll (next : ι → Option ι) (fuel : Nat) : Finset ι → List ι → Option (Finset ι)
  | freed, [] => some freed
  | freed, i :: is => (dispose next fuel freed (some i)).bind fun freed => disposeAll next fuel freed is

theorem Cells.dispose_eq {p : Option ι} {l : List ι} (h : Cells next p l) {fuel : Nat} (hfuel : l.length < fuel)
    {freed : Finset ι} (hlive : ∀ i ∈ l, i ∉ freed) : dispose next fuel freed p = some (l.toFinset ∪ freed) := by
  induction h generalizing fuel with
  | nil =>
    obtain ⟨fuel, rfl⟩ := Nat.exists_eq_add_one.2 (Nat.zero_lt_of_lt hfuel)
    simp [dispose]
  | @cons i l hrest ih =>
    obtain ⟨fuel, rfl⟩ := Nat.exists_eq_add_one.2 (Nat.zero_lt_of_lt hfuel)
    have hlt : l.length < fuel := Nat.lt_of_succ_lt_succ hfuel
    simp only [dispose, hlive i List.mem_cons_self, if_false, ih hlt fun j hj => hlive j (List.mem_cons_of_mem i hj),
      Option.map_some, List.toFinset_cons, Finset.insert_union]

/-- A cell that has been freed stops it. -/
theorem Cells.dispose_eq_none {p : Option ι} {l : List ι} (h : Cells next p l) (fuel : Nat) {freed : Finset ι} {i : ι}
    (hi : i ∈ l) (hfreed : i ∈ freed) : dispose next fuel freed p = none := by
  induction h generalizing fuel with
  | nil => cases hi
  | @cons j l hrest ih =>
    cases fuel with
    | zero => rfl
    | succ fuel =>
      by_cases hj : j ∈ freed
      · simp [dispose, hj]
      · rcases List.mem_cons.1 hi with rfl | hi
        · exact absurd hfreed hj
        · simp [dispose, hj, ih fuel hi]

theorem dispose_eq_some_iff {p : Option ι} {l : List ι} (h : Cells next p l) {fuel : Nat} (hfuel : l.length < fuel)
    {freed freed' : Finset ι} :
    dispose next fuel freed p = some freed' ↔ (∀ i ∈ l, i ∉ freed) ∧ freed' = l.toFinset ∪ freed := by
  by_cases hlive : ∀ i ∈ l, i ∉ freed
  · rw [h.dispose_eq hfuel hlive, Option.some.injEq, eq_comm]
    exact (and_iff_right hlive).symm
  · simp only [not_forall, not_not] at hlive
    obtain ⟨i, hi, hfreed⟩ := hlive
    rw [h.dispose_eq_none fuel hi hfreed]
    exact iff_of_false nofun fun hall => hall.1 i hi hfreed

/-- The cells of the lists, which are apart from each other and from those that have been freed, are what is freed. -/
theorem disposeAll_eq_some_iff {cells : ι → List ι} {fuel : Nat} {is : List ι}
    (hcells : ∀ i ∈ is, Cells next (some i) (cells i)) (hfuel : ∀ i ∈ is, (cells i).length < fuel)
    {freed freed' : Finset ι} :
    disposeAll next fuel freed is = some freed' ↔
      is.Pairwise (fun i j => (cells i).Disjoint (cells j)) ∧ (∀ i ∈ is, ∀ j ∈ cells i, j ∉ freed) ∧
        freed' = (is.flatMap cells).toFinset ∪ freed := by
  induction is generalizing freed with
  | nil =>
    simp only [disposeAll, Option.some.injEq, List.Pairwise.nil, List.not_mem_nil, List.flatMap_nil,
      List.toFinset_nil, Finset.empty_union, false_implies, implies_true, true_and]
    exact eq_comm
  | cons i is ih =>
    have hrest := fun freed => @ih (fun j hj => hcells j (List.mem_cons_of_mem i hj))
      (fun j hj => hfuel j (List.mem_cons_of_mem i hj)) freed
    have hfirst := @dispose_eq_some_iff _ _ _ _ _ (hcells i List.mem_cons_self) _ (hfuel i List.mem_cons_self) freed
    simp only [disposeAll, Option.bind_eq_some_iff, hfirst, List.pairwise_cons, List.forall_mem_cons,
      List.flatMap_cons, List.toFinset_append]
    constructor
    · rintro ⟨freed₁, ⟨hlive, rfl⟩, hdispose⟩
      obtain ⟨happart, hrestLive, rfl⟩ := (hrest _).1 hdispose
      refine ⟨⟨fun j hj c hci hcj => ?_, happart⟩, ⟨hlive, fun j hj c hc hfreed => ?_⟩, ?_⟩
      · exact hrestLive j hj c hcj (Finset.mem_union_left _ (List.mem_toFinset.2 hci))
      · exact hrestLive j hj c hc (Finset.mem_union_right _ hfreed)
      · rw [← Finset.union_assoc, Finset.union_comm (is.flatMap cells).toFinset]
    · rintro ⟨⟨hi, happart⟩, ⟨hlive, hrestLive⟩, rfl⟩
      refine ⟨(cells i).toFinset ∪ freed, ⟨hlive, rfl⟩, (hrest _).2 ⟨happart, fun j hj c hc hfreed => ?_, ?_⟩⟩
      · rcases Finset.mem_union.1 hfreed with hci | hfreed
        · exact hi j hj (List.mem_toFinset.1 hci) hc
        · exact hrestLive j hj c hc hfreed
      · rw [← Finset.union_assoc, Finset.union_comm (is.flatMap cells).toFinset]

end Dispose

end LinkedCells
