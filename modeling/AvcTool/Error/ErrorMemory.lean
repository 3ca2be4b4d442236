import Mathlib.Order.Interval.Finset.Nat
import AvcTool.Error.CplxError
import AvcTool.Lib.LinkedCells

/-!
# The memory of the errors

`delete` of an error deletes the one that it is wrapped around as well (`~AvcCplxError`), so an error that has been
wrapped belongs to its wrapper.  `ErrorProgram` adds to the objects of `ErrorHeap` which of them have been deleted; a
call that reads or deletes an object which is gone has no result.

A program that wraps and deletes only errors which are its own never does such a thing, and what is left in memory are
the chains of the errors that it still has to delete (`memory_safe`).  If an error is wrapped twice, the errors cannot
all be deleted (`freeAll_iff`).
-/

namespace AvcTool

open LinkedCells

namespace ErrorHeap

/-- Where `wrap_` points to. -/
def next (h : ErrorHeap) (err : Nat) : Option Nat := (h[err]?).bind AvcCplxError.wrap

def WrappedOnce (h : ErrorHeap) : Prop :=
  ∀ i j err, h.next i = some err → h.next j = some err → i = j

def outermost (h : ErrorHeap) : List Nat :=
  (List.range h.length).filter fun err => ∀ i < h.length, h.next i ≠ some err

def Sound (h : ErrorHeap) : Prop := ∀ err < h.length, ∃ c, h.Tells err c

end ErrorHeap

structure ErrorProgram where
  heap : ErrorHeap
  /-- the objects that have been deleted -/
  freed : Finset Nat
  /-- the errors that the program still has to delete or to wrap -/
  owned : Finset Nat
  deriving DecidableEq

/-- A call, with the objects that it is given. -/
inductive ErrorCall where
  | create (l : ErrorLayer) (ec : Int)
  | wrap (l : ErrorLayer) (err : Option Nat)
  | copy (err : Nat)
  | summary (err : Nat)
  | errorCode (err : Nat)
  /-- `avc_free` and `avc_free_safe` -/
  | free (err : Nat)
  deriving DecidableEq

namespace ErrorProgram

def init : ErrorProgram := ⟨[], ∅, ∅⟩

/-- The objects that a call reads; `summary` reads the whole chain when it makes the text. -/
def reads (h : ErrorHeap) : ErrorCall → List Nat
  | .create _ _ => []
  | .wrap _ err => err.toList
  | .copy err => h.nodes err
  | .summary err => if (h[err]?).map AvcCplxError.summary = some "" then h.nodes err else [err]
  | .errorCode err => [err]
  | .free _ => []

/-- The call, if nothing that it reads has been deleted. -/
def call (s : ErrorProgram) : ErrorCall → Option ErrorProgram
  | .create l ec =>
    let (heap, err) := s.heap.create l ec
    some { s with heap := heap, owned := insert err s.owned }
  | .wrap l err => (s.heap.wrap l err).map fun (heap, new) =>
    { s with heap := heap, owned := insert new (err.elim s.owned s.owned.erase) }
  | .copy err => (s.heap.copy (some err)).bind fun (heap, new) => new.map fun new =>
    { s with heap := heap, owned := insert new s.owned }
  | .summary err => (s.heap.summary (some err)).map fun (heap, _) => { s with heap := heap }
  | .errorCode err => (s.heap.errorCode (some err)).map fun _ => s
  | .free err =>
    if err < s.heap.length then
      (dispose s.heap.next (s.heap.length + 1) s.freed (some err)).map fun freed =>
        { s with freed := freed, owned := s.owned.erase err }
    else none

def step (s : ErrorProgram) (c : ErrorCall) : Option ErrorProgram :=
  if ∃ err ∈ reads s.heap c, err ∈ s.freed then none else s.call c

def Live (s : ErrorProgram) (err : Nat) : Prop := err < s.heap.length ∧ err ∉ s.freed

instance decidableLive (s : ErrorProgram) (err : Nat) : Decidable (s.Live err) :=
  inferInstanceAs (Decidable (_ ∧ _))

/-- The program wraps and deletes what is its own, and reads what exists. -/
def Proper (s : ErrorProgram) : ErrorCall → Prop
  | .create _ _ => True
  | .wrap _ err => ∀ e ∈ err, e ∈ s.owned
  | .copy err => s.Live err
  | .summary err => s.Live err
  | .errorCode err => s.Live err
  | .free err => err ∈ s.owned

instance decidableProper (s : ErrorProgram) : (c : ErrorCall) → Decidable (s.Proper c)
  | .create _ _ => inferInstanceAs (Decidable True)
  | .wrap _ err => inferInstanceAs (Decidable (∀ e ∈ err, e ∈ s.owned))
  | .copy err => s.decidableLive err
  | .summary err => s.decidableLive err
  | .errorCode err => s.decidableLive err
  | .free err => inferInstanceAs (Decidable (err ∈ s.owned))

/-- What exists belongs to exactly one of the errors that are still to be deleted, and is as it should be. -/
structure Safe (s : ErrorProgram) : Prop where
  live_iff : ∀ i, s.Live i ↔ ∃ err ∈ s.owned, i ∈ s.heap.nodes err
  apart : ∀ err ∈ s.owned, ∀ err' ∈ s.owned, err ≠ err' → (s.heap.nodes err).Disjoint (s.heap.nodes err')
  story : ∀ err, s.Live err → (∀ i ∈ s.heap.nodes err, s.Live i) ∧ ∃ c, s.heap.KeepsStory err c

end ErrorProgram

/-! ### The cells of an error -/

namespace ErrorHeap

variable {h : ErrorHeap} {code : Int} {next' : Option Nat} {ls : List ErrorLayer}

theorem Denotes.cells (hd : h.Denotes code next' ls) {fuel : Nat} (hfuel : ls.length ≤ fuel) :
    Cells h.next next' (chain fuel h next') ∧ (chain fuel h next').length = ls.length := by
  induction hd generalizing fuel with
  | nil => cases fuel <;> exact ⟨.nil, rfl⟩
  | @cons err wrap summary l ls hnode hwrap hrest ih =>
    obtain ⟨fuel, rfl⟩ := Nat.exists_eq_add_one.2 (Nat.lt_of_lt_of_le (Nat.succ_pos _) hfuel)
    have hnext : h.next err = wrap := by rw [next, hnode, Option.bind_some]
    obtain ⟨hcells, hlen⟩ := ih (Nat.le_of_succ_le_succ hfuel)
    have hchain : chain (fuel + 1) h (some err) = err :: chain fuel h wrap := by
      rw [← hnext]
      rfl
    rw [hchain]
    exact ⟨.cons (hnext ▸ hcells), by rw [List.length_cons, List.length_cons, hlen]⟩

theorem Tells.cells {err : Nat} {c : ErrorChain} (ht : h.Tells err c) : Cells h.next (some err) (h.nodes err) :=
  (ht.denotes.cells ht.denotes.length_le.1).1

private theorem Tells.length_nodes {err : Nat} {c : ErrorChain} (ht : h.Tells err c) :
    (h.nodes err).length = c.layers.length :=
  (ht.denotes.cells ht.denotes.length_le.1).2

private theorem Tells.nodes_lt {err : Nat} {c : ErrorChain} (ht : h.Tells err c) : ∀ i ∈ h.nodes err, i < h.length :=
  ht.denotes.chain_lt h.length

private theorem next_append {err : Nat} (hlt : err < h.length) (extra : ErrorHeap) :
    next (h ++ extra) err = h.next err := by
  rw [next, next, List.getElem?_append_left hlt]

private theorem Tells.nodes_append {err : Nat} {c : ErrorChain} (ht : h.Tells err c) (extra : ErrorHeap) :
    nodes (h ++ extra) err = h.nodes err := by
  have hsame : ∀ i ∈ h.nodes err, next (h ++ extra) i = h.next i := fun i hi => next_append (ht.nodes_lt i hi) extra
  exact (ht.append extra).cells.unique (ht.cells.congr hsame)

private theorem next_set {err : Nat} {n : AvcCplxError} (hn : h[err]? = some n) (text : String) :
    next (h.set err { n with summary := text }) = h.next := by
  funext i
  by_cases heq : err = i
  · subst heq
    rw [next, next, List.getElem?_set_self (List.getElem?_eq_some_iff.1 hn).1, hn]
    rfl
  · rw [next, next, List.getElem?_set_ne heq]

private theorem Tells.nodes_set {err err' : Nat} {c c' : ErrorChain} {n : AvcCplxError} (ht : h.Tells err c)
    (ht' : h.Tells err' c') (hn : h[err']? = some n) :
    nodes (h.set err' { n with summary := c'.summary }) err = h.nodes err := by
  have hcells := (ht.set ht' hn).cells
  rw [next_set hn] at hcells
  exact hcells.unique ht.cells

private theorem Denotes.of_mem (hd : h.Denotes code next' ls) {fuel : Nat} {i : Nat} (hi : i ∈ chain fuel h next') :
    ∃ ls', h.Denotes code (some i) ls' := by
  induction hd generalizing fuel with
  | nil => cases fuel <;> cases hi
  | @cons err wrap summary l ls hnode hwrap hrest ih =>
    cases fuel with
    | zero => cases hi
    | succ fuel =>
      simp only [chain, hnode, Option.bind_some, List.mem_cons] at hi
      rcases hi with rfl | hi
      · exact ⟨l :: ls, .cons hnode hwrap hrest⟩
      · exact ih hi

private theorem Tells.nodes_subset {err i : Nat} {c c' : ErrorChain} (ht : h.Tells err c) (hi : i ∈ h.nodes err)
    (ht' : h.Tells i c') : h.nodes i ⊆ h.nodes err :=
  ht.cells.subset_of_mem hi ht'.cells

private theorem Tells.mem_nodes {err : Nat} {c : ErrorChain} (ht : h.Tells err c) : err ∈ h.nodes err := by
  have hcells := ht.cells
  generalize h.nodes err = l at hcells
  cases hcells with
  | cons hrest => exact List.mem_cons_self

/-! ### Every object stands for a chain -/

private theorem Sound.append_layer (hs : h.Sound) {l : ErrorLayer} {wrap : Option Nat} (hd : h.Denotes code wrap ls) :
    Sound (h ++ [⟨l.file, l.func, l.line, code, l.message, wrap, ""⟩]) := by
  intro err hlt
  rw [List.length_append, List.length_singleton] at hlt
  rcases Nat.lt_succ_iff_lt_or_eq.1 hlt with hlt | rfl
  · obtain ⟨c, hc⟩ := hs err hlt
    exact ⟨c, hc.append _⟩
  · exact ⟨_, ErrorRun.tells_layer hd⟩

theorem Sound.set (hs : h.Sound) {err : Nat} {c : ErrorChain} {n : AvcCplxError} (ht : h.Tells err c)
    (hn : h[err]? = some n) : Sound (h.set err { n with summary := c.summary }) := by
  intro err' hlt
  rw [List.length_set] at hlt
  obtain ⟨c', hc'⟩ := hs err' hlt
  exact ⟨c', hc'.set ht hn⟩

/-- The constructor copies one object at a time, none of them with a text. -/
private theorem Denotes.copyChain_length (hd : h.Denotes code next' ls) {fuel : Nat} {h' : ErrorHeap} {new : Option Nat}
    (hcopy : h.copyChain fuel next' = some (h', new)) :
    h'.length = h.length + ls.length ∧ ∀ i n, h.length ≤ i → h'[i]? = some n → n.summary = "" := by
  induction hd generalizing fuel h' new with
  | nil =>
    cases fuel with
    | zero => cases hcopy
    | succ fuel =>
      obtain ⟨rfl, rfl⟩ := Prod.mk.inj (Option.some.inj hcopy)
      refine ⟨rfl, fun i n hle hn => ?_⟩
      exact absurd (List.getElem?_eq_some_iff.1 hn).1 (Nat.not_lt.2 hle)
  | @cons err wrap summary l ls hnode hwrap hrest ih =>
    cases fuel with
    | zero => cases hcopy
    | succ fuel =>
      simp only [copyChain, hnode] at hcopy
      obtain ⟨⟨h₁, wrap₁⟩, hcopy₁, heq⟩ := Option.map_eq_some_iff.1 hcopy
      obtain ⟨rfl, rfl⟩ := Prod.mk.inj heq
      obtain ⟨hlen, hblank⟩ := ih hcopy₁
      refine ⟨?_, fun i n hle hn => ?_⟩
      · rw [List.length_append, hlen, List.length_cons, List.length_cons]
        rfl
      rcases Nat.lt_or_ge i h₁.length with hlt | hge
      · rw [List.getElem?_append_left hlt] at hn
        exact hblank i n hle hn
      · have hlast : i = h₁.length := by
          have hlt := (List.getElem?_eq_some_iff.1 hn).1
          rw [List.length_append, List.length_singleton] at hlt
          exact Nat.le_antisymm (Nat.le_of_lt_succ hlt) hge
        rw [hlast, List.getElem?_concat_length] at hn
        obtain rfl := Option.some.inj hn
        rfl

private theorem lt_length_of_errorCode {err : Nat} {ec : Int} (hec : h.errorCode (some err) = some ec) :
    err < h.length := by
  obtain ⟨n, hn, -⟩ := Option.map_eq_some_iff.1 hec
  exact (List.getElem?_eq_some_iff.1 hn).1

private theorem lt_length_of_next {i err : Nat} (hnext : h.next i = some err) : i < h.length := by
  obtain ⟨n, hn, -⟩ := Option.bind_eq_some_iff.1 hnext
  exact (List.getElem?_eq_some_iff.1 hn).1

private theorem mem_outermost (err : Nat) : err ∈ h.outermost ↔ err < h.length ∧ ∀ i, h.next i ≠ some err := by
  rw [outermost, List.mem_filter, List.mem_range, decide_eq_true_iff]
  exact and_congr_right fun _ => ⟨fun hnone i hi => hnone i (lt_length_of_next hi) hi, fun hnone i _ => hnone i⟩

private theorem lt_length_of_copy {err : Nat} {r : ErrorHeap × Option Nat} (hcopy : h.copy (some err) = some r) :
    err < h.length := by
  by_contra hge
  simp [copy, copyChain, List.getElem?_eq_none (Nat.not_lt.1 hge)] at hcopy

private theorem lt_length_of_summary {err : Nat} {r : ErrorHeap × String} (hsummary : h.summary (some err) = some r) :
    err < h.length := by
  by_contra hge
  simp [summary, List.getElem?_eq_none (Nat.not_lt.1 hge)] at hsummary

private theorem Sound.next_lt (hs : h.Sound) {i err : Nat} (hnext : h.next i = some err) : err < i := by
  obtain ⟨⟨code, ls⟩, hd, -⟩ := hs i (lt_length_of_next hnext)
  cases hd with
  | cons hnode hwrap hrest =>
    rw [next, hnode] at hnext
    exact hwrap err hnext

theorem Sound.cells (hs : h.Sound) {err : Nat} (hlt : err < h.length) :
    Cells h.next (some err) (h.nodes err) ∧ (h.nodes err).length ≤ h.length := by
  obtain ⟨c, hc⟩ := hs err hlt
  exact ⟨hc.cells, hc.length_nodes ▸ hc.denotes.length_le.1⟩

/-- Every object belongs to one that no other is wrapped around. -/
private theorem Sound.exists_outermost (hs : h.Sound) {i : Nat} (hi : i < h.length) :
    ∃ err ∈ h.outermost, i ∈ h.nodes err := by
  obtain ⟨err, l, hlt, hnone, hl, hmem⟩ := @exists_root _ _ (fun i => i < h.length) id h.length
    (fun i j hnext => hs.next_lt hnext) (fun _ h => h) i hi
  refine ⟨err, (mem_outermost err).2 ⟨hlt, fun j hj => hnone j (lt_length_of_next hj) hj⟩, ?_⟩
  exact hl.unique (hs.cells hlt).1 ▸ hmem

private theorem Sound.outermost_nodes (hs : h.Sound) :
    (h.outermost.flatMap h.nodes).toFinset = Finset.range h.length := by
  ext i
  rw [List.mem_toFinset, List.mem_flatMap, Finset.mem_range]
  refine ⟨fun ⟨err, herr, hi⟩ => ?_, hs.exists_outermost⟩
  obtain ⟨c, hc⟩ := hs err ((mem_outermost err).1 herr).1
  exact hc.nodes_lt i hi

/-- The chains of the outermost errors are apart if and only if no error is wrapped twice. -/
private theorem Sound.apart_iff (hs : h.Sound) :
    h.outermost.Pairwise (fun err err' => (h.nodes err).Disjoint (h.nodes err')) ↔ h.WrappedOnce := by
  have hcells : ∀ err ∈ h.outermost, Cells h.next (some err) (h.nodes err) := fun err herr =>
    (hs.cells ((mem_outermost err).1 herr).1).1
  constructor
  · intro hapart i j err hi hj
    obtain ⟨ri, hri, hmi⟩ := hs.exists_outermost (lt_length_of_next hi)
    obtain ⟨rj, hrj, hmj⟩ := hs.exists_outermost (lt_length_of_next hj)
    by_cases heq : ri = rj
    · subst heq
      exact (hcells ri hri).eq_of_next_eq hmi hmj (hi.trans hj.symm)
    · have hmeet := (hcells ri hri).mem_of_mem_next hmi hi
      have hmeet' := (hcells rj hrj).mem_of_mem_next hmj hj
      have : Std.Symm fun i j => (h.nodes i).Disjoint (h.nodes j) := ⟨fun _ _ h => h.symm⟩
      exact absurd hmeet' (hapart.forall hri hrj heq hmeet)
  · intro honce
    have hnodup : h.outermost.Nodup := List.nodup_range.filter _
    refine hnodup.imp_of_mem fun {err err'} herr herr' hne => ?_
    exact (hcells err herr).disjoint_of_injective honce (hcells err' herr') ((mem_outermost err).1 herr).2
      ((mem_outermost err').1 herr').2 hne

/-- What `copy` adds to memory is the chain of its result. -/
private theorem Tells.copy_nodes {err : Nat} {c : ErrorChain} (ht : h.Tells err c) :
    ∃ h' err', h.copy (some err) = some (h', some err') ∧ h <+: h' ∧ Tells h' err' c ∧
      (∀ i, i ∈ h'.nodes err' ↔ h.length ≤ i ∧ i < h'.length) ∧
      ∀ i n, h.length ≤ i → h'[i]? = some n → n.summary = "" := by
  obtain ⟨h', err', hcopy, hext, hnew, -⟩ := ht.copy_eq
  obtain ⟨h'', next'', hcopy', hcopied⟩ := ht.denotes.copyChain_eq (Nat.lt_succ_of_le ht.denotes.length_le.1)
  obtain ⟨rfl, rfl⟩ : h'' = h' ∧ next'' = some err' := Prod.mk.inj (Option.some.inj (hcopy'.symm.trans hcopy))
  obtain ⟨hlen, hblank⟩ := ht.denotes.copyChain_length hcopy'
  refine ⟨h'', err', hcopy, hext, hnew, ?_, hblank⟩
  -- the new objects are as many as the chain has
  have hsub : (h''.nodes err').toFinset ⊆ Finset.Ico h.length h''.length := by
    intro i hi
    have hi := List.mem_toFinset.1 hi
    exact Finset.mem_Ico.2 ⟨hcopied.fresh _ i hi, hnew.nodes_lt i hi⟩
  have hcard : (Finset.Ico h.length h''.length).card ≤ (h''.nodes err').toFinset.card := by
    rw [List.toFinset_card_of_nodup hnew.cells.nodup, hnew.length_nodes, Nat.card_Ico]
    omega
  have heq := Finset.eq_of_subset_of_card_le hsub hcard
  intro i
  rw [← List.mem_toFinset, heq, Finset.mem_Ico]

theorem Sound.copy (hs : h.Sound) {err : Nat} {c : ErrorChain} (ht : h.Tells err c) {h' : ErrorHeap} {new : Option Nat}
    (hcopy : h.copy (some err) = some (h', new)) : Sound h' := by
  obtain ⟨h'', err', hcopy', ⟨extra, rfl⟩, hnew, hmem, hblank⟩ := ht.copy_nodes
  obtain ⟨rfl, -⟩ := Prod.mk.inj (Option.some.inj (hcopy'.symm.trans hcopy))
  intro i hlt
  rcases Nat.lt_or_ge i h.length with hold | hge
  · obtain ⟨c', hc'⟩ := hs i hold
    exact ⟨c', hc'.append extra⟩
  · obtain ⟨ls', hls'⟩ := hnew.denotes.of_mem ((hmem i).2 ⟨hge, hlt⟩)
    exact ⟨⟨c.code, ls'⟩, hls', fun n hn => .inl (hblank i n hge hn)⟩

end ErrorHeap

/-! ### Runs -/

namespace ErrorProgram

private theorem mem_keep {owned : Finset Nat} {taken : Option Nat} {x : Nat} :
    x ∈ taken.elim owned owned.erase ↔ x ∈ owned ∧ x ∉ taken := by
  cases taken with
  | none => simp
  | some e => simp [Finset.mem_erase, and_comm, eq_comm]

structure Inv (s : ErrorProgram) : Prop where
  sound : s.heap.Sound
  owned_lt : ∀ err ∈ s.owned, err < s.heap.length
  freed_lt : ∀ i ∈ s.freed, i < s.heap.length
  live_iff : ∀ i, s.Live i ↔ ∃ err ∈ s.owned, i ∈ s.heap.nodes err
  apart : ∀ err ∈ s.owned, ∀ err' ∈ s.owned, err ≠ err' → (s.heap.nodes err).Disjoint (s.heap.nodes err')

namespace Inv

variable {s : ErrorProgram}

theorem init : Inv .init where
  sound := nofun
  owned_lt := nofun
  freed_lt := nofun
  live_iff i := iff_of_false (fun h => Nat.not_lt_zero i h.1) (by simp [ErrorProgram.init])
  apart := nofun

private theorem owned_live (hs : s.Inv) {err : Nat} (herr : err ∈ s.owned) : s.Live err := by
  obtain ⟨c, hc⟩ := hs.sound err (hs.owned_lt err herr)
  exact (hs.live_iff err).2 ⟨err, herr, hc.mem_nodes⟩

private theorem nodes_live (hs : s.Inv) {err : Nat} (hlive : s.Live err) : ∀ i ∈ s.heap.nodes err, s.Live i := by
  obtain ⟨root, hroot, hmem⟩ := (hs.live_iff err).1 hlive
  obtain ⟨c, hc⟩ := hs.sound err hlive.1
  obtain ⟨c', hc'⟩ := hs.sound root (hs.owned_lt root hroot)
  exact fun i hi => (hs.live_iff i).2 ⟨root, hroot, hc'.nodes_subset hmem hc hi⟩

private theorem reads_live (hs : s.Inv) {c : ErrorCall} (hproper : s.Proper c) : ∀ i ∈ reads s.heap c, s.Live i := by
  intro i hi
  cases c with
  | create l ec => cases hi
  | wrap l err => exact hs.owned_live (hproper i (Option.mem_toList.1 hi))
  | copy err => exact hs.nodes_live hproper i hi
  | summary err =>
    simp only [reads] at hi
    split at hi
    · exact hs.nodes_live hproper i hi
    · obtain rfl := List.mem_singleton.1 hi
      exact hproper
  | errorCode err =>
    obtain rfl := List.mem_singleton.1 hi
    exact hproper
  | free err => cases hi

/-- New objects, in the chain of a new error that takes over one of the program's, or none. -/
theorem add (hs : s.Inv) {heap : ErrorHeap} (hext : s.heap <+: heap) (hsound : heap.Sound) {new : Nat}
    (hnew : new < heap.length) (taken : Option Nat) (htaken : ∀ e ∈ taken, e ∈ s.owned)
    (hnodes : ∀ i, i ∈ heap.nodes new ↔
      (s.heap.length ≤ i ∧ i < heap.length) ∨ ∃ e ∈ taken, i ∈ s.heap.nodes e) :
    Inv { s with heap := heap, owned := insert new (taken.elim s.owned s.owned.erase) } := by
  have hlen := hext.length_le
  have hsame : ∀ err ∈ s.owned, heap.nodes err = s.heap.nodes err := by
    obtain ⟨extra, rfl⟩ := hext
    intro err herr
    obtain ⟨c, hc⟩ := hs.sound err (hs.owned_lt err herr)
    exact hc.nodes_append extra
  have hlive : ∀ err ∈ s.owned, ∀ i ∈ s.heap.nodes err, s.Live i := fun err herr i hi =>
    (hs.live_iff i).2 ⟨err, herr, hi⟩
  -- the chain of the new error is apart from those of the errors that it has not taken over
  have hapart : ∀ err ∈ s.owned, err ∉ taken → (heap.nodes err).Disjoint (heap.nodes new) := by
    intro err herr hnot i hi hi'
    rw [hsame err herr] at hi
    rcases (hnodes i).1 hi' with ⟨hle, -⟩ | ⟨e, he, hmem⟩
    · exact absurd (hlive err herr i hi).1 (Nat.not_lt.2 hle)
    · refine hs.apart err herr e (htaken e he) ?_ hi hmem
      rintro rfl
      exact hnot he
  refine ⟨hsound, fun err herr => ?_, fun i hi => (hs.freed_lt i hi).trans_le hlen, fun i => ?_, ?_⟩
  · rcases Finset.mem_insert.1 herr with rfl | herr
    · exact hnew
    · exact (hs.owned_lt err (mem_keep.1 herr).1).trans_le hlen
  · constructor
    · rintro ⟨hlt, hfree⟩
      rcases Nat.lt_or_ge i s.heap.length with hold | hge
      · obtain ⟨err, herr, hmem⟩ := (hs.live_iff i).1 ⟨hold, hfree⟩
        by_cases ht : err ∈ taken
        · exact ⟨new, Finset.mem_insert_self _ _, (hnodes i).2 (.inr ⟨err, ht, hmem⟩)⟩
        · refine ⟨err, Finset.mem_insert_of_mem (mem_keep.2 ⟨herr, ht⟩), ?_⟩
          show i ∈ heap.nodes err
          rwa [hsame err herr]
      · exact ⟨new, Finset.mem_insert_self _ _, (hnodes i).2 (.inl ⟨hge, hlt⟩)⟩
    · rintro ⟨err, herr, hmem⟩
      have hold : ∀ e ∈ s.owned, i ∈ s.heap.nodes e → i < heap.length ∧ i ∉ s.freed := fun e he hi =>
        ⟨(hlive e he i hi).1.trans_le hlen, (hlive e he i hi).2⟩
      rcases Finset.mem_insert.1 herr with rfl | herr
      · rcases (hnodes i).1 hmem with ⟨hle, hlt⟩ | ⟨e, he, hi⟩
        · exact ⟨hlt, fun hfreed => absurd (hs.freed_lt i hfreed) (Nat.not_lt.2 hle)⟩
        · exact hold e (htaken e he) hi
      · have hown := (mem_keep.1 herr).1
        exact hold err hown (hsame err hown ▸ hmem)
  · intro err herr err' herr' hne
    rcases Finset.mem_insert.1 herr with rfl | hkeep <;> rcases Finset.mem_insert.1 herr' with rfl | hkeep'
    · exact absurd rfl hne
    · exact (hapart err' (mem_keep.1 hkeep').1 (mem_keep.1 hkeep').2).symm
    · exact hapart err (mem_keep.1 hkeep).1 (mem_keep.1 hkeep).2
    · have hown := (mem_keep.1 hkeep).1
      have hown' := (mem_keep.1 hkeep').1
      show (heap.nodes err).Disjoint (heap.nodes err')
      rw [hsame err hown, hsame err' hown']
      exact hs.apart err hown err' hown' hne

private theorem layer (hs : s.Inv) (l : ErrorLayer) {code : Int} (wrap : Option Nat) (hwrap : ∀ e ∈ wrap, e ∈ s.owned)
    {ls : List ErrorLayer} (hd : s.heap.Denotes code wrap ls) :
    Inv { s with
      heap := s.heap ++ [⟨l.file, l.func, l.line, code, l.message, wrap, ""⟩]
      owned := insert s.heap.length (wrap.elim s.owned s.owned.erase) } := by
  have hnew := ErrorRun.tells_layer (l := l) hd
  have hlen : (s.heap ++ [(⟨l.file, l.func, l.line, code, l.message, wrap, ""⟩ : AvcCplxError)]).length =
      s.heap.length + 1 := List.length_append
  refine hs.add (List.prefix_append _ _) (hs.sound.append_layer hd) (by rw [hlen]; exact Nat.lt_succ_self _) wrap hwrap ?_
  intro i
  have hnext : ErrorHeap.next (s.heap ++ [⟨l.file, l.func, l.line, code, l.message, wrap, ""⟩]) s.heap.length = wrap := by
    rw [ErrorHeap.next, List.getElem?_concat_length]
    rfl
  have hcells := hnew.cells
  generalize ErrorHeap.nodes _ s.heap.length = nodes at hcells ⊢
  cases hcells with
  | @cons _ rest hrest =>
    rw [hnext] at hrest
    have hself : i = s.heap.length ↔ s.heap.length ≤ i ∧ i < s.heap.length + 1 := by omega
    rw [List.mem_cons, hlen, hself]
    refine or_congr_right ?_
    cases wrap with
    | none =>
      cases hrest
      exact iff_of_false nofun nofun
    | some e =>
      obtain ⟨c, hc⟩ := hs.sound e (hs.owned_lt e (hwrap e rfl))
      rw [hrest.unique (hc.append _).cells, hc.nodes_append]
      exact ⟨fun hi => ⟨e, rfl, hi⟩, fun ⟨e', he', hi⟩ => Option.some.inj he' ▸ hi⟩

/-- The chain of an error of the program is deleted with it, and no other object. -/
theorem free (hs : s.Inv) {err : Nat} (herr : err ∈ s.owned) :
    ∃ freed, dispose s.heap.next (s.heap.length + 1) s.freed (some err) = some freed ∧
      Inv { s with freed := freed, owned := s.owned.erase err } := by
  obtain ⟨c, hc⟩ := hs.sound err (hs.owned_lt err herr)
  have hlive := hs.nodes_live (hs.owned_live herr)
  have hfuel : (s.heap.nodes err).length < s.heap.length + 1 := by
    rw [hc.length_nodes]
    exact Nat.lt_succ_of_le hc.denotes.length_le.1
  refine ⟨_, hc.cells.dispose_eq hfuel fun i hi => (hlive i hi).2, hs.sound, ?_, ?_, ?_, ?_⟩
  · exact fun err' herr' => hs.owned_lt err' (Finset.mem_of_mem_erase herr')
  · intro i hi
    rcases Finset.mem_union.1 hi with hi | hi
    · exact (hlive i (List.mem_toFinset.1 hi)).1
    · exact hs.freed_lt i hi
  · intro i
    constructor
    · rintro ⟨hlt, hfree⟩
      obtain ⟨hnot, hfree⟩ := not_or.1 (mt Finset.mem_union.2 hfree)
      obtain ⟨err', herr', hmem⟩ := (hs.live_iff i).1 ⟨hlt, hfree⟩
      refine ⟨err', Finset.mem_erase.2 ⟨?_, herr'⟩, hmem⟩
      rintro rfl
      exact hnot (List.mem_toFinset.2 hmem)
    · rintro ⟨err', herr', hmem⟩
      obtain ⟨hne, herr'⟩ := Finset.mem_erase.1 herr'
      obtain ⟨hlt, hfree⟩ := (hs.live_iff i).2 ⟨err', herr', hmem⟩
      refine ⟨hlt, fun hfreed => ?_⟩
      rcases Finset.mem_union.1 hfreed with hi | hi
      · exact hs.apart err' herr' err herr hne hmem (List.mem_toFinset.1 hi)
      · exact hfree hi
  · intro e he e' he' hne
    exact hs.apart e (Finset.mem_of_mem_erase he) e' (Finset.mem_of_mem_erase he') hne

/-- The texts that the objects keep do not matter. -/
private theorem summarize (hs : s.Inv) {err : Nat} {c : ErrorChain} {n : AvcCplxError} (ht : s.heap.Tells err c)
    (hn : s.heap[err]? = some n) : Inv { s with heap := s.heap.set err { n with summary := c.summary } } := by
  have hlen : (s.heap.set err { n with summary := c.summary }).length = s.heap.length := List.length_set
  have hsame : ∀ e ∈ s.owned,
      ErrorHeap.nodes (s.heap.set err { n with summary := c.summary }) e = s.heap.nodes e := by
    intro e he
    obtain ⟨c', hc'⟩ := hs.sound e (hs.owned_lt e he)
    exact hc'.nodes_set ht hn
  refine ⟨hs.sound.set ht hn, ?_, ?_, ?_, ?_⟩
  · exact fun e he => (hs.owned_lt e he).trans_eq hlen.symm
  · exact fun i hi => (hs.freed_lt i hi).trans_eq hlen.symm
  · intro i
    have hlive : Live { s with heap := s.heap.set err { n with summary := c.summary } } i ↔ s.Live i := by
      rw [Live, Live, hlen]
    rw [hlive, hs.live_iff i]
    exact exists_congr fun e => and_congr_right fun he => by rw [hsame e he]
  · intro e he e' he' hne
    show (ErrorHeap.nodes _ e).Disjoint (ErrorHeap.nodes _ e')
    rw [hsame e he, hsame e' he']
    exact hs.apart e he e' he' hne

end Inv

def Keeps (h h' : ErrorHeap) : Prop := ∀ err c, h.Tells err c → h'.Tells err c

/-- A proper call has a result, and does not change what the errors stand for. -/
theorem Inv.call {s : ErrorProgram} (hs : s.Inv) {c : ErrorCall} (hproper : s.Proper c) :
    ∃ t, s.call c = some t ∧ t.Inv ∧ Keeps s.heap t.heap := by
  cases c with
  | create l ec => exact ⟨_, rfl, hs.layer l none (by simp) .nil, fun err c ht => ht.append _⟩
  | wrap l err =>
    cases err with
    | none => exact ⟨_, rfl, hs.layer l none (by simp) .nil, fun err c ht => ht.append _⟩
    | some err =>
      obtain ⟨c, hc⟩ := hs.sound err (hs.owned_lt err (hproper err rfl))
      refine ⟨_, ?_, hs.layer l (some err) hproper hc.denotes, fun err c ht => ht.append _⟩
      simp only [ErrorProgram.call, ErrorHeap.wrap, hc.errorCode_eq, Option.map_some]
  | copy err =>
    obtain ⟨c, hc⟩ := hs.sound err hproper.1
    obtain ⟨h', new, hcopy, hext, hnew, hmem, -⟩ := hc.copy_nodes
    refine ⟨{ s with heap := h', owned := insert new s.owned }, ?_, ?_, ?_⟩
    · rw [ErrorProgram.call, hcopy]
      rfl
    · refine hs.add hext (hs.sound.copy hc hcopy) (hnew.nodes_lt new hnew.mem_nodes) none (by simp) fun i => ?_
      rw [hmem i]
      simp
    · obtain ⟨extra, rfl⟩ := hext
      exact fun err c ht => ht.append extra
  | summary err =>
    obtain ⟨c, hc⟩ := hs.sound err hproper.1
    obtain ⟨h', hsummary, hheap⟩ := hc.summary_eq
    refine ⟨{ s with heap := h' }, ?_, ?_⟩
    · rw [ErrorProgram.call, hsummary]
      rfl
    · rcases hheap with rfl | ⟨n, hn, rfl⟩
      · exact ⟨hs, fun _ _ h => h⟩
      · exact ⟨hs.summarize hc hn, fun err c ht => ht.set hc hn⟩
  | errorCode err =>
    obtain ⟨c, hc⟩ := hs.sound err hproper.1
    refine ⟨s, ?_, hs, fun _ _ h => h⟩
    rw [ErrorProgram.call, hc.errorCode_eq, Option.map_some]
  | free err =>
    obtain ⟨freed, hdispose, hinv⟩ := hs.free hproper
    refine ⟨_, ?_, hinv, fun _ _ h => h⟩
    rw [ErrorProgram.call, if_pos (hs.owned_lt err hproper), hdispose, Option.map_some]

theorem Inv.step {s : ErrorProgram} (hs : s.Inv) {c : ErrorCall} (hproper : s.Proper c) :
    ∃ t, s.step c = some t ∧ t.Inv ∧ Keeps s.heap t.heap := by
  have hread : ¬ ∃ i ∈ reads s.heap c, i ∈ s.freed := fun ⟨i, hi, hfreed⟩ => (hs.reads_live hproper i hi).2 hfreed
  rw [ErrorProgram.step, if_neg hread]
  exact hs.call hproper

theorem Inv.safe {s : ErrorProgram} (hs : s.Inv) : s.Safe where
  live_iff := hs.live_iff
  apart := hs.apart
  story err hlive := by
    obtain ⟨c, hc⟩ := hs.sound err hlive.1
    exact ⟨hs.nodes_live hlive, c, hc.keepsStory⟩

private theorem keepsStory_of_keeps {h h' : ErrorHeap} (hs : h.Sound) (hkeeps : Keeps h h') {err : Nat} {c : ErrorChain}
    (hstory : h.KeepsStory err c) : h'.KeepsStory err c := by
  obtain ⟨text, htext, hec, ⟨h₂, hsummary⟩, -⟩ := hstory
  obtain ⟨c', hc'⟩ := hs err (ErrorHeap.lt_length_of_errorCode hec)
  -- the story says no more than the code and the text
  have hcode : c'.code = c.code := Option.some.inj (hc'.errorCode_eq.symm.trans hec)
  have hsame : c'.summary = text := by
    obtain ⟨h₁, hsummary', -⟩ := hc'.summary_eq
    exact (Prod.mk.inj (Option.some.inj (hsummary'.symm.trans hsummary))).2
  have hreports := (hkeeps err c' hc').reports
  rw [hcode, hsame] at hreports
  exact ⟨text, htext, hreports⟩

/-- Calls that are proper when their turn comes. -/
theorem Inv.exec {s : ErrorProgram} (hs : s.Inv) {cs : List ErrorCall}
    (hproper : Transition.Along ErrorProgram.step Proper s cs) :
    ∃ t, Transition.exec ErrorProgram.step s cs = some t ∧ t.Inv ∧ Keeps s.heap t.heap := by
  have hstep : ∀ (t : ErrorProgram) (c : ErrorCall), (t.Inv ∧ Keeps s.heap t.heap) → t.Proper c →
      ∃ u, t.step c = some u ∧ u.Inv ∧ Keeps s.heap u.heap := by
    rintro t c ⟨ht, hkeeps⟩ hc
    obtain ⟨u, hstep, hu, hkeeps'⟩ := ht.step hc
    exact ⟨u, hstep, hu, fun err c h => hkeeps' err c (hkeeps err c h)⟩
  exact Transition.exists_exec_along hstep ⟨hs, fun _ _ h => h⟩ hproper

/-- A program that wraps and deletes what is its own, once, never touches what has been deleted.  What exists are the
chains of the errors that it still has to delete, and each keeps its code and its text while others are deleted. -/
theorem memory_safe {cs ds : List ErrorCall} (hproper : Transition.Along step Proper init (cs ++ ds)) :
    ∃ s t, Transition.exec step init cs = some s ∧ Transition.exec step s ds = some t ∧ s.Safe ∧ t.Safe ∧
      ∀ err c, t.Live err → s.heap.KeepsStory err c → t.heap.KeepsStory err c := by
  obtain ⟨s, hcs, hs, -⟩ := Inv.init.exec (Transition.along_of_append_left hproper)
  obtain ⟨t, hds, ht, hkeeps⟩ := hs.exec (Transition.along_of_append hproper hcs)
  exact ⟨s, t, hcs, hds, hs.safe, ht.safe, fun err c _ => keepsStory_of_keeps hs.sound hkeeps⟩

/-- An error is wrapped and copied, and then first the original and then the copy is deleted. -/
theorem memory_safe_copied :
    ∃ s t, Transition.exec step init
        [.create ⟨"a/b.cc", "f", 3, "x"⟩ 1042, .wrap ⟨"c.cc", "g", 5, "y"⟩ (some 0), .copy 1] = some s ∧
      Transition.exec step s [.free 1, .free 3] = some t ∧ s.Safe ∧ t.Safe ∧
        ∀ err c, t.Live err → s.heap.KeepsStory err c → t.heap.KeepsStory err c :=
  memory_safe (by decide)

end ErrorProgram

/-! ### Errors that are wrapped twice -/

namespace ErrorRun

theorem sound_step (s : ErrorRun) (op : ErrorOp) (t : ErrorRun) (hs : s.heap.Sound) (h : s.step op = some t) :
    t.heap.Sound := by
  cases op with
  | create l ec =>
    obtain rfl := Option.some.inj h
    exact hs.append_layer .nil
  | wrap l err =>
    cases err with
    | none =>
      obtain rfl := Option.some.inj h
      exact hs.append_layer .nil
    | some i =>
      obtain ⟨err, -, h⟩ := Option.bind_eq_some_iff.1 h
      obtain ⟨⟨heap, new⟩, hwrap, rfl⟩ := Option.map_eq_some_iff.1 h
      obtain ⟨ec, hec, heq⟩ := Option.map_eq_some_iff.1 hwrap
      obtain ⟨rfl, -⟩ := Prod.mk.inj heq
      obtain ⟨c, hc⟩ := hs err (ErrorHeap.lt_length_of_errorCode hec)
      obtain rfl : c.code = ec := Option.some.inj (hc.errorCode_eq.symm.trans hec)
      exact hs.append_layer hc.denotes
  | copy i =>
    obtain ⟨err, -, h⟩ := Option.bind_eq_some_iff.1 h
    obtain ⟨⟨heap, new⟩, hcopy, h⟩ := Option.bind_eq_some_iff.1 h
    obtain ⟨new, rfl, rfl⟩ := Option.map_eq_some_iff.1 h
    obtain ⟨c, hc⟩ := hs err (ErrorHeap.lt_length_of_copy hcopy)
    exact hs.copy hc hcopy
  | summary i =>
    obtain ⟨err, -, h⟩ := Option.bind_eq_some_iff.1 h
    obtain ⟨⟨heap, text⟩, hsummary, rfl⟩ := Option.map_eq_some_iff.1 h
    obtain ⟨c, hc⟩ := hs err (ErrorHeap.lt_length_of_summary hsummary)
    obtain ⟨h', hsummary', hheap⟩ := hc.summary_eq
    obtain ⟨rfl, -⟩ := Prod.mk.inj (Option.some.inj (hsummary'.symm.trans hsummary))
    rcases hheap with rfl | ⟨n, hn, rfl⟩
    · exact hs
    · exact hs.set hc hn

/-- If nothing has been deleted yet, the errors that no other is wrapped around can all be deleted, in whatever order,
if and only if no error has been wrapped twice; then nothing is left. -/
theorem freeAll_iff {ops : List ErrorOp} {s : ErrorRun} (hexec : Transition.exec ErrorRun.step init ops = some s)
    {errs : List Nat} (hperm : errs.Perm s.heap.outermost) (freed : Finset Nat) :
    disposeAll s.heap.next (s.heap.length + 1) ∅ errs = some freed ↔
      s.heap.WrappedOnce ∧ freed = Finset.range s.heap.length := by
  have hempty : ErrorHeap.Sound [] := fun err hlt => absurd hlt (Nat.not_lt_zero err)
  have hs : s.heap.Sound := Transition.exec_invariant sound_step hempty hexec
  have hlt : ∀ err ∈ errs, err < s.heap.length := fun err herr =>
    ((ErrorHeap.mem_outermost err).1 (hperm.mem_iff.1 herr)).1
  have hcells : ∀ err ∈ errs, Cells s.heap.next (some err) (s.heap.nodes err) := fun err herr =>
    (hs.cells (hlt err herr)).1
  have hfuel : ∀ err ∈ errs, (s.heap.nodes err).length < s.heap.length + 1 := fun err herr =>
    Nat.lt_succ_of_le (hs.cells (hlt err herr)).2
  have hapart : errs.Pairwise (fun err err' => (s.heap.nodes err).Disjoint (s.heap.nodes err')) ↔
      s.heap.WrappedOnce := by
    rw [← hs.apart_iff]
    exact hperm.pairwise_iff fun h => h.symm
  have hall : (errs.flatMap s.heap.nodes).toFinset = Finset.range s.heap.length := by
    rw [← hs.outermost_nodes]
    exact List.toFinset_eq_of_perm _ _ (hperm.flatMap_right _)
  rw [disposeAll_eq_some_iff hcells hfuel, hapart, hall, Finset.union_empty]
  exact and_congr_right fun _ => and_iff_right fun _ _ _ _ => Finset.notMem_empty _

/-- One error is wrapped in two others: either of these can be deleted, but not the other one after it. -/
theorem freeAll_iff_twice :
    ∃ s, Transition.exec ErrorRun.step init [.create ⟨"a.cc", "f", 3, "x"⟩ 1042, .wrap ⟨"b.cc", "g", 5, "y"⟩ (some 0),
        .wrap ⟨"c.cc", "h", 7, "z"⟩ (some 0)] = some s ∧
      ∀ freed, disposeAll s.heap.next (s.heap.length + 1) ∅ [2, 1] = some freed ↔
        s.heap.WrappedOnce ∧ freed = Finset.range s.heap.length := by
  refine ⟨⟨[⟨"a.cc", "f", 3, 1042, "x", none, ""⟩, ⟨"b.cc", "g", 5, 1042, "y", some 0, ""⟩,
    ⟨"c.cc", "h", 7, 1042, "z", some 0, ""⟩], [0, 1, 2]⟩, by decide, fun freed => ?_⟩
  exact freeAll_iff (show Transition.exec ErrorRun.step init [.create ⟨"a.cc", "f", 3, "x"⟩ 1042,
    .wrap ⟨"b.cc", "g", 5, "y"⟩ (some 0), .wrap ⟨"c.cc", "h", 7, "z"⟩ (some 0)] = some _ by decide) (by decide) freed

end ErrorRun

end AvcTool
