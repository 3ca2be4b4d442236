import AvcTool.Lib.RefCount
import Mathlib.Data.Fintype.Card
import Mathlib.Data.Set.Finite.Basic
import Mathlib.Logic.Relation
import Mathlib.Order.Interval.Finset.Nat

/-!
# Objects that share objects

Threads and objects hold counted references to objects.  The thread that gives up the last reference to an object runs
its destructor, which gives up the references of the object one after the other, in the order of `fields`; that may run
further destructors, and meanwhile other threads go on.  A weak reference is locked with `lock`.

`Sound` says that the counts are right and that the references of a destroyed object are only those that its destructor
has yet to give up; there is one rule for each operation.  When no thread holds a reference and no destructor is under
way, the objects that are left are those that are reached from a cycle of references (`Sound.alive_iff_of_quiet`).
-/

/-- Where a reference is: in a thread, or in an object. -/
inductive Place (τ φ : Type*) where
  | held (t : τ) (k : Nat)
  | field (r : Nat) (f : φ)
  deriving DecidableEq

structure SharedObjects (τ φ α : Type*) where
  heap : RefHeap α
  refs : Place τ φ → Option Nat
  /-- the references that the destructors in which a thread is have yet to give up -/
  dying : τ → List (Nat × φ)
  /-- the destructors that have begun: the thread, the object, and what it was -/
  disposals : List (τ × Nat × α)

namespace SharedObjects

variable {τ φ α : Type*}

def empty : SharedObjects τ φ α := ⟨.empty, fun _ => none, fun _ => [], []⟩

variable [DecidableEq τ] [DecidableEq φ]

def new (s : SharedObjects τ φ α) (q : Place τ φ) (a : α) : SharedObjects τ φ α :=
  { s with heap := s.heap.alloc a, refs := Function.update s.refs q (some s.heap.next) }

def copy (s : SharedObjects τ φ α) (p q : Place τ φ) : Option (SharedObjects τ φ α) :=
  match s.refs p with
  | none => some s
  | some r =>
    (s.heap.retain r).map fun heap => { s with heap := heap, refs := Function.update s.refs q (some r) }

def move (s : SharedObjects τ φ α) (p q : Place τ φ) : SharedObjects τ φ α :=
  { s with refs := Function.update (Function.update s.refs q (s.refs p)) p none }

def lock (s : SharedObjects τ φ α) (r : Nat) (q : Place τ φ) : SharedObjects τ φ α :=
  { s with heap := (s.heap.lock r).1, refs := Function.update s.refs q (s.heap.lock r).2 }

/-- The thread gives up a reference.  A reference to an object that is gone is a fault (`none`). -/
def drop (fields : α → List φ) (s : SharedObjects τ φ α) (t : τ) (p : Place τ φ) : Option (SharedObjects τ φ α) :=
  match s.refs p with
  | none => some s
  | some r =>
    match s.heap.get r, s.heap.release r with
    | some a, some heap =>
      match heap.get r with
      | some _ => some { s with heap := heap, refs := Function.update s.refs p none }
      | none =>
        some
          { heap := heap
            refs := Function.update s.refs p none
            dying := Function.update s.dying t ((fields a).map (Prod.mk r) ++ s.dying t)
            disposals := s.disposals ++ [(t, r, a)] }
    | _, _ => none

/-- The next step of the destructors in which the thread is. -/
def dispose (fields : α → List φ) (s : SharedObjects τ φ α) (t : τ) : Option (SharedObjects τ φ α) :=
  match s.dying t with
  | [] => none
  | (r, f) :: rest => { s with dying := Function.update s.dying t rest }.drop fields t (.field r f)

def Refers (s : SharedObjects τ φ α) (o r : Nat) : Prop := ∃ f, s.refs (.field o f) = some r

structure Sound (fields : α → List φ) (s : SharedObjects τ φ α) : Prop where
  counted : s.heap.Counted s.refs
  field_mem : ∀ r f x a, s.refs (.field r f) = some x → s.heap.get r = some a → f ∈ fields a
  dying_of_dead : ∀ r f x, s.refs (.field r f) = some x → s.heap.get r = none → ∃ t, (r, f) ∈ s.dying t
  dead_of_dying : ∀ t r f, (r, f) ∈ s.dying t → r < s.heap.next ∧ s.heap.get r = none
  dying_once : ∀ t, (s.dying t).Nodup
  dying_apart : ∀ t u e, e ∈ s.dying t → e ∈ s.dying u → t = u
  disposed_iff : ∀ r, r ∈ s.disposals.map (fun d => d.2.1) ↔ r < s.heap.next ∧ s.heap.get r = none
  disposed_once : (s.disposals.map fun d => d.2.1).Nodup

variable {fields : α → List φ} {s s' : SharedObjects τ φ α} {t : τ} {p q : Place τ φ}

omit [DecidableEq τ] [DecidableEq φ] in
theorem Sound.empty : Sound fields (.empty : SharedObjects τ φ α) where
  counted := .empty
  field_mem := by simp [SharedObjects.empty]
  dying_of_dead := by simp [SharedObjects.empty]
  dead_of_dying := by simp [SharedObjects.empty]
  dying_once := by simp [SharedObjects.empty]
  dying_apart := by simp [SharedObjects.empty]
  disposed_iff := by simp [SharedObjects.empty, RefHeap.empty]
  disposed_once := .nil

omit [DecidableEq τ] [DecidableEq φ] in
theorem Sound.exists_get (hs : Sound fields s) {r : Nat} (hp : s.refs p = some r) : ∃ a, s.heap.get r = some a :=
  hs.counted.exists_get hp

omit [DecidableEq τ] [DecidableEq φ] in
/-- The references change, and all objects stay. -/
theorem Sound.frame (hs : Sound fields s) (hcounted : s'.heap.Counted s'.refs) (hnext : s'.heap.next = s.heap.next)
    (hget : ∀ r, s'.heap.get r = s.heap.get r) (hdisposals : s'.disposals = s.disposals)
    (hsub : ∀ u, (s'.dying u).Sublist (s.dying u))
    (hall : ∀ u r f, (r, f) ∈ s.dying u → (r, f) ∈ s'.dying u ∨ s'.refs (.field r f) = none)
    (hrefs : ∀ r f x, s'.refs (.field r f) = some x →
      s.refs (.field r f) = some x ∨ ∃ a, s.heap.get r = some a ∧ f ∈ fields a) : Sound fields s' where
  counted := hcounted
  field_mem r f x a hr ha := by
    rw [hget] at ha
    rcases hrefs r f x hr with hold | ⟨b, hb, hf⟩
    · exact hs.field_mem r f x a hold ha
    · obtain rfl := Option.some.inj (hb.symm.trans ha)
      exact hf
  dying_of_dead r f x hr hdead := by
    rw [hget] at hdead
    rcases hrefs r f x hr with hold | ⟨b, hb, -⟩
    · obtain ⟨u, hu⟩ := hs.dying_of_dead r f x hold hdead
      rcases hall u r f hu with hmem | hnone
      · exact ⟨u, hmem⟩
      · rw [hnone] at hr
        cases hr
    · rw [hb] at hdead
      cases hdead
  dead_of_dying u r f hmem := by
    rw [hnext, hget]
    exact hs.dead_of_dying u r f ((hsub u).subset hmem)
  dying_once u := (hs.dying_once u).sublist (hsub u)
  dying_apart u v e hu hv := hs.dying_apart u v e ((hsub u).subset hu) ((hsub v).subset hv)
  disposed_iff r := by rw [hdisposals, hnext, hget, hs.disposed_iff]
  disposed_once := hdisposals ▸ hs.disposed_once

omit [DecidableEq τ] [DecidableEq φ] in
/-- An object that has not been made has no references. -/
theorem Sound.refs_fresh (hs : Sound fields s) (f : φ) : s.refs (.field s.heap.next f) = none := by
  cases href : s.refs (.field s.heap.next f) with
  | none => rfl
  | some x =>
    have hfresh : s.heap.get s.heap.next = none := by simp [RefHeap.get, hs.counted.fresh _ le_rfl]
    obtain ⟨t, ht⟩ := hs.dying_of_dead _ f x href hfresh
    exact absurd (hs.dead_of_dying t _ f ht).1 (Nat.lt_irrefl _)

/-! ### The rules -/

/-- A place in which a reference may be put. -/
def Open (fields : α → List φ) (s : SharedObjects τ φ α) (q : Place τ φ) : Prop :=
  s.refs q = none ∧ ∀ r f, q = .field r f → ∃ a, s.heap.get r = some a ∧ f ∈ fields a

private theorem refs_cases (hq : Open fields s q) {y : Option Nat} {r x : Nat} {f : φ}
    (hr : Function.update s.refs q y (.field r f) = some x) :
    s.refs (.field r f) = some x ∨ ∃ a, s.heap.get r = some a ∧ f ∈ fields a := by
  by_cases heq : Place.field r f = q
  · exact .inr (hq.2 r f heq.symm)
  · exact .inl (by simpa [heq] using hr)

theorem Sound.new (hs : Sound fields s) (hq : Open fields s q) (a : α) : Sound fields (s.new q a) := by
  have hfresh : s.heap.get s.heap.next = none := by simp [RefHeap.get, hs.counted.fresh _ le_rfl]
  have hget : ∀ r, r ≠ s.heap.next → (s.heap.alloc a).get r = s.heap.get r := by
    intro r hr
    simp [RefHeap.get, RefHeap.alloc, hr]
  have hnext : (s.heap.alloc a).next = s.heap.next + 1 := rfl
  refine ⟨?_, fun r f x b hr hb => ?_, fun r f x hr hdead => ?_, fun u r f hmem => ?_, hs.dying_once, hs.dying_apart,
    fun r => ?_, hs.disposed_once⟩
  · exact hs.counted.alloc a hq.1 (Function.update_self _ _ _) fun o ho => Function.update_of_ne ho _ _
  · by_cases heq : r = s.heap.next
    · subst heq
      rcases refs_cases hq hr with hold | ⟨b', hb', -⟩
      · rw [hs.refs_fresh] at hold
        cases hold
      · rw [hfresh] at hb'
        cases hb'
    · rw [SharedObjects.new, hget r heq] at hb
      rcases refs_cases hq hr with hold | ⟨b', hb', hf⟩
      · exact hs.field_mem r f x b hold hb
      · obtain rfl := Option.some.inj (hb'.symm.trans hb)
        exact hf
  · have hne : r ≠ s.heap.next := by
      rintro rfl
      simp [SharedObjects.new] at hdead
    rw [SharedObjects.new, hget r hne] at hdead
    rcases refs_cases hq hr with hold | ⟨b', hb', -⟩
    · exact hs.dying_of_dead r f x hold hdead
    · rw [hb'] at hdead
      cases hdead
  · obtain ⟨hlt, hdead⟩ := hs.dead_of_dying u r f hmem
    have hne : r ≠ s.heap.next := Nat.ne_of_lt hlt
    exact ⟨Nat.lt_succ_of_lt hlt, (hget r hne).trans hdead⟩
  · show _ ↔ r < s.heap.next + 1 ∧ (s.heap.alloc a).get r = none
    by_cases heq : r = s.heap.next
    · subst heq
      simp [SharedObjects.new, hs.disposed_iff]
    · rw [hget r heq]
      have hlt : r < s.heap.next + 1 ↔ r < s.heap.next := by omega
      rw [hlt]
      exact hs.disposed_iff r

theorem Sound.copy (hs : Sound fields s) (p : Place τ φ) (hq : Open fields s q) :
    ∃ s', s.copy p q = some s' ∧ Sound fields s' ∧ s'.refs = Function.update s.refs q (s.refs p) ∧
      s'.heap.next = s.heap.next ∧ (∀ r, s'.heap.get r = s.heap.get r) ∧ s'.dying = s.dying ∧
      s'.disposals = s.disposals := by
  cases hp : s.refs p with
  | none =>
    refine ⟨s, by simp [SharedObjects.copy, hp], hs, ?_, rfl, fun _ => rfl, rfl, rfl⟩
    rw [← hq.1, Function.update_eq_self]
  | some r =>
    obtain ⟨heap, hretain, hcounted⟩ : ∃ heap, s.heap.retain r = some heap ∧
        heap.Counted (Function.update s.refs q (some r)) :=
      hs.counted.retain hp hq.1 (Function.update_self _ _ _) fun o ho => Function.update_of_ne ho _ _
    refine ⟨{ s with heap := heap, refs := Function.update s.refs q (some r) }, ?_, ?_, rfl,
      RefHeap.next_retain hretain, fun _ => RefHeap.get_retain hretain, rfl, rfl⟩
    · simp [SharedObjects.copy, hp, hretain]
    · exact hs.frame hcounted (RefHeap.next_retain hretain) (fun _ => RefHeap.get_retain hretain) rfl
        (fun _ => .refl _) (fun _ _ _ hmem => .inl hmem) fun _ _ _ hr => refs_cases hq hr

theorem Sound.move (hs : Sound fields s) (hq : Open fields s q) (hne : p ≠ q) : Sound fields (s.move p q) := by
  refine hs.frame ?_ rfl (fun _ => rfl) rfl (fun _ => .refl _) (fun _ _ _ hmem => .inl hmem) fun r f x hr => ?_
  · have hgone : (s.move p q).refs p = none := Function.update_self _ _ _
    refine hs.counted.move hq.1 hgone ?_ fun o ho ho' => ?_
    · simp [SharedObjects.move, hne.symm]
    · simp [SharedObjects.move, ho, ho']
  · have hp : Place.field r f ≠ p := by
      rintro rfl
      simp [SharedObjects.move] at hr
    exact refs_cases hq (by simpa [SharedObjects.move, hp] using hr)

theorem Sound.lock (hs : Sound fields s) (r : Nat) (hq : Open fields s q) : Sound fields (s.lock r q) := by
  refine hs.frame ?_ (RefHeap.next_lock _ _) (fun _ => RefHeap.get_lock _ _ _) rfl (fun _ => .refl _)
    (fun _ _ _ hmem => .inl hmem) fun _ _ _ hr => refs_cases hq hr
  exact hs.counted.lock r hq.1 (Function.update_self _ _ _) fun o ho => Function.update_of_ne ho _ _

/-- What it is to give up a reference: the object goes with its last one. -/
structure Dropped (s s' : SharedObjects τ φ α) (t : τ) (p : Place τ φ) : Prop where
  refs : s'.refs = Function.update s.refs p none
  next : s'.heap.next = s.heap.next
  get : ∀ r a, s'.heap.get r = some a → s.heap.get r = some a
  disposals : s'.disposals = s.disposals ∧ (∀ r, s.refs p = some r → ∃ q, q ≠ p ∧ s.refs q = some r) ∨
    ∃ r a, s.refs p = some r ∧ s.heap.get r = some a ∧ (∀ q, s.refs q = some r → q = p) ∧
      s'.disposals = s.disposals ++ [(t, r, a)]

section drop

variable {dying : τ → List (Nat × φ)} (hs : Sound fields s) (hfields : ∀ a, (fields a).Nodup)
  (hsub : ∀ u, (dying u).Sublist (s.dying u))
  (hall : ∀ u r f, (r, f) ∈ s.dying u → (r, f) ∈ dying u ∨ p = .field r f)

theorem refs_of_dropped {o x : Nat} {f : φ} (hx : Function.update s.refs p none (.field o f) = some x) :
    s.refs (.field o f) = some x ∧ p ≠ .field o f := by
  by_cases heq : Place.field o f = p
  · simp [heq] at hx
  · exact ⟨by simpa [heq] using hx, Ne.symm heq⟩

include hs hfields hsub hall

/-- The last reference to an object is given up. -/
theorem Sound.destroyed {r : Nat} {a : α} {heap : RefHeap α} (ha : s.heap.get r = some a)
    (hrelease : s.heap.release r = some heap) (hcounted : heap.Counted (Function.update s.refs p none))
    (hr : heap.get r = none) :
    Sound fields ⟨heap, Function.update s.refs p none,
      Function.update dying t ((fields a).map (Prod.mk r) ++ dying t), s.disposals ++ [(t, r, a)]⟩ := by
  have hnext := RefHeap.next_release hrelease
  have hother : ∀ r', r' ≠ r → heap.get r' = s.heap.get r' := fun r' => RefHeap.get_release_of_ne hrelease
  have hpending : ∀ u f, (r, f) ∉ dying u := by
    intro u f hmem
    rw [(hs.dead_of_dying u r f ((hsub u).subset hmem)).2] at ha
    cases ha
  have hlt : r < s.heap.next := by
    by_contra hle
    simp [RefHeap.get, hs.counted.fresh r (Nat.not_lt.1 hle)] at ha
  have hnew : r ∉ s.disposals.map fun d => d.2.1 := by
    intro hmem
    rw [((hs.disposed_iff r).1 hmem).2] at ha
    cases ha
  have hdying : ∀ u e, e ∈ Function.update dying t ((fields a).map (Prod.mk r) ++ dying t) u ↔
      e ∈ dying u ∨ u = t ∧ e ∈ (fields a).map (Prod.mk r) := by
    intro u e
    by_cases hu : u = t
    · subst hu
      simp [or_comm]
    · simp [hu]
  refine ⟨hcounted, fun o f x b ho hb => ?_, fun o f x ho hnone => ?_, fun u o f hmem => ?_, fun u => ?_,
    fun u v e hu hv => ?_, fun o => ?_, ?_⟩
  · have hne : o ≠ r := by
      rintro rfl
      cases hr.symm.trans hb
    exact hs.field_mem o f x b (refs_of_dropped ho).1 ((hother o hne).symm.trans hb)
  · obtain ⟨hold, hne⟩ := refs_of_dropped ho
    by_cases heq : o = r
    · subst heq
      exact ⟨t, (hdying t _).2 (.inr ⟨rfl, List.mem_map_of_mem (hs.field_mem o f x a hold ha)⟩)⟩
    · obtain ⟨u, hu⟩ := hs.dying_of_dead o f x hold ((hother o heq).symm.trans hnone)
      exact ⟨u, (hdying u _).2 (.inl ((hall u o f hu).resolve_right hne))⟩
  · rcases (hdying u _).1 hmem with hmem | ⟨-, hmem⟩
    · obtain ⟨hlt', hnone⟩ := hs.dead_of_dying u o f ((hsub u).subset hmem)
      have hne : o ≠ r := by
        rintro rfl
        cases hnone.symm.trans ha
      exact ⟨hnext ▸ hlt', (hother o hne).trans hnone⟩
    · obtain ⟨f', -, heq⟩ := List.mem_map.1 hmem
      obtain ⟨rfl, -⟩ := Prod.mk.inj heq
      exact ⟨hnext ▸ hlt, hr⟩
  · have hold : (dying u).Nodup := (hs.dying_once u).sublist (hsub u)
    by_cases hu : u = t
    · subst hu
      have hnew : ((fields a).map (Prod.mk r)).Nodup := (hfields a).map (Prod.mk_right_injective r)
      have hapart : ((fields a).map (Prod.mk r)).Disjoint (dying u) := by
        intro e he hmem
        obtain ⟨f, -, rfl⟩ := List.mem_map.1 he
        exact hpending u f hmem
      show (Function.update dying u _ u).Nodup
      rw [Function.update_self]
      exact hnew.append hold hapart
    · show (Function.update dying t _ u).Nodup
      rwa [Function.update_of_ne hu]
  · have hnot : ∀ w, e ∈ dying w → e ∉ (fields a).map (Prod.mk r) := by
      intro w hw he
      obtain ⟨f, -, rfl⟩ := List.mem_map.1 he
      exact hpending w f hw
    rcases (hdying u e).1 hu with hold | ⟨hut, hnew⟩
    · rcases (hdying v e).1 hv with hold' | ⟨-, hnew⟩
      · exact hs.dying_apart u v e ((hsub u).subset hold) ((hsub v).subset hold')
      · exact absurd hnew (hnot u hold)
    · rcases (hdying v e).1 hv with hold | ⟨hvt, -⟩
      · exact absurd hnew (hnot v hold)
      · rw [hut, hvt]
  · show o ∈ (s.disposals ++ [(t, r, a)]).map (fun d => d.2.1) ↔ o < heap.next ∧ heap.get o = none
    rw [List.map_append, List.mem_append, hnext]
    by_cases heq : o = r
    · subst heq
      simp [hlt, hr]
    · rw [hother o heq, hs.disposed_iff]
      simp [heq]
  · show ((s.disposals ++ [(t, r, a)]).map fun d => d.2.1).Nodup
    rw [List.map_append]
    exact hs.disposed_once.append (List.nodup_singleton _) (by simpa using hnew)

/-- `dying` may lack the reference that is given up. -/
private theorem Sound.dropWith (t : τ) :
    ∃ s', { s with dying := dying }.drop fields t p = some s' ∧ Sound fields s' ∧ Dropped s s' t p ∧
      ∀ u r f, (r, f) ∈ s'.dying u → (r, f) ∈ dying u ∨ ∃ a, s.heap.get r = some a ∧ f ∈ fields a := by
  cases hp : s.refs p with
  | none =>
    have hsame : Function.update s.refs p none = s.refs := by rw [← hp, Function.update_eq_self]
    refine ⟨{ s with dying := dying }, by simp [SharedObjects.drop, hp], ?_, ⟨hsame.symm, rfl, fun _ _ ha => ha,
      .inl ⟨rfl, fun r hr => ?_⟩⟩, fun _ _ _ hmem => .inl hmem⟩
    · refine hs.frame hs.counted rfl (fun _ => rfl) rfl hsub (fun u r f hmem => ?_) fun _ _ _ hr => .inl hr
      refine (hall u r f hmem).imp_right ?_
      rintro rfl
      exact hp
    · cases hp.symm.trans hr
  | some r =>
    obtain ⟨a, ha⟩ := hs.exists_get hp
    obtain ⟨heap, hrelease, hcounted⟩ : ∃ heap, s.heap.release r = some heap ∧
        heap.Counted (Function.update s.refs p none) :=
      hs.counted.release hp (Function.update_self _ _ _) fun o ho => Function.update_of_ne ho _ _
    have hnext := RefHeap.next_release hrelease
    have hother : ∀ r', r' ≠ r → heap.get r' = s.heap.get r' := fun r' => RefHeap.get_release_of_ne hrelease
    cases hr : heap.get r with
    | some b =>
      have hget : ∀ r', heap.get r' = s.heap.get r' := by
        intro r'
        by_cases heq : r' = r
        · subst heq
          exact RefHeap.get_release hrelease (RefHeap.alive_of_get hr)
        · exact hother r' heq
      refine ⟨⟨heap, Function.update s.refs p none, dying, s.disposals⟩, ?_, ?_, ⟨rfl, hnext, fun r' a' ha' => ?_,
        .inl ⟨rfl, fun r' hr' => ?_⟩⟩, fun _ _ _ hmem => .inl hmem⟩
      · simp [SharedObjects.drop, hp, ha, hrelease, hr]
      · refine hs.frame hcounted hnext hget rfl hsub (fun u o f hmem => ?_) fun o f x hx => .inl (refs_of_dropped hx).1
        refine (hall u o f hmem).imp_right ?_
        rintro rfl
        exact Function.update_self _ _ _
      · rwa [← hget]
      · obtain rfl := Option.some.inj (hp.symm.trans hr')
        obtain ⟨q, hq⟩ := (hcounted.alive_iff r).1 (RefHeap.alive_of_get hr)
        have hne : q ≠ p := by
          rintro rfl
          simp at hq
        exact ⟨q, hne, by simpa [hne] using hq⟩
    | none =>
      refine ⟨_, ?_, hs.destroyed hfields hsub hall ha hrelease hcounted hr, ⟨rfl, hnext, fun r' a' ha' => ?_,
        .inr ⟨r, a, hp, ha, fun q hq => ?_, rfl⟩⟩, fun u r' f hmem => ?_⟩
      · simp [SharedObjects.drop, hp, ha, hrelease, hr]
      · have hne : r' ≠ r := by
          rintro rfl
          cases hr.symm.trans ha'
        exact (hother r' hne).symm.trans ha'
      · by_contra hne
        have halive := (hcounted.alive_iff r).2 ⟨q, by simpa [hne] using hq⟩
        obtain ⟨c, hc⟩ := Option.isSome_iff_exists.1 halive
        simp [RefHeap.get, hc] at hr
      · by_cases hu : u = t
        · subst hu
          have hmem' : (r', f) ∈ (fields a).map (Prod.mk r) ++ dying u := by simpa using hmem
          rcases List.mem_append.1 hmem' with hnew | hold
          · obtain ⟨f', hf', heq⟩ := List.mem_map.1 hnew
            obtain ⟨rfl, rfl⟩ := Prod.mk.inj heq
            exact .inr ⟨a, ha, hf'⟩
          · exact .inl hold
        · exact .inl (by simpa [hu] using hmem)

end drop

theorem Sound.drop (hs : Sound fields s) (hfields : ∀ a, (fields a).Nodup) (t : τ) (p : Place τ φ) :
    ∃ s', s.drop fields t p = some s' ∧ Sound fields s' ∧ Dropped s s' t p ∧
      ∀ u r f, (r, f) ∈ s'.dying u → (r, f) ∈ s.dying u ∨ ∃ a, s.heap.get r = some a ∧ f ∈ fields a :=
  hs.dropWith hfields (fun _ => .refl _) (fun _ _ _ hmem => .inl hmem) t

theorem Sound.dispose (hs : Sound fields s) (hfields : ∀ a, (fields a).Nodup) {r : Nat} {f : φ}
    {rest : List (Nat × φ)} (hdying : s.dying t = (r, f) :: rest) :
    ∃ s', s.dispose fields t = some s' ∧ Sound fields s' ∧ Dropped s s' t (.field r f) ∧
      ∀ u r' f', (r', f') ∈ s'.dying u → (r', f') ≠ (r, f) ∧
        ((r', f') ∈ s.dying u ∨ ∃ a, s.heap.get r' = some a ∧ f' ∈ fields a) := by
  have hsub : ∀ u, (Function.update s.dying t rest u).Sublist (s.dying u) := by
    intro u
    by_cases hu : u = t
    · subst hu
      rw [hdying, Function.update_self]
      exact List.sublist_cons_self _ _
    · rw [Function.update_of_ne hu]
  have hhead : (r, f) ∈ s.dying t := by simp [hdying]
  have hgone : ∀ u, (r, f) ∉ Function.update s.dying t rest u := by
    intro u hmem
    obtain rfl := hs.dying_apart u t _ ((hsub u).subset hmem) hhead
    rw [Function.update_self] at hmem
    have honce := hs.dying_once u
    rw [hdying] at honce
    exact (List.nodup_cons.1 honce).1 hmem
  have hall : ∀ u r' f', (r', f') ∈ s.dying u →
      (r', f') ∈ Function.update s.dying t rest u ∨ (.field r f : Place τ φ) = .field r' f' := by
    intro u r' f' hmem
    by_cases hu : u = t
    · subst hu
      rw [hdying] at hmem
      rcases List.mem_cons.1 hmem with heq | hmem
      · obtain ⟨rfl, rfl⟩ := Prod.mk.inj heq
        exact .inr rfl
      · exact .inl (by simpa using hmem)
    · exact .inl (by simpa [hu] using hmem)
  obtain ⟨s', hs', hsound, hdropped, hkept⟩ := hs.dropWith hfields hsub hall t
  refine ⟨s', by simp only [SharedObjects.dispose, hdying, hs'], hsound, hdropped, fun u r' f' hmem => ?_⟩
  rcases hkept u r' f' hmem with hold | ⟨a, ha, hf⟩
  · refine ⟨?_, .inl ((hsub u).subset hold)⟩
    rintro heq
    exact hgone u (heq ▸ hold)
  · refine ⟨?_, .inr ⟨a, ha, hf⟩⟩
    rintro heq
    obtain ⟨rfl, rfl⟩ := Prod.mk.inj heq
    cases (hs.dead_of_dying t _ _ hhead).2.symm.trans ha

/-! ### What is left -/

section cycles

variable {β : Type*} {R : β → β → Prop}

private theorem exists_cycle [Finite β] [Nonempty β] (hpred : ∀ x, ∃ y, R y x) : ∃ o, Relation.TransGen R o o := by
  by_contra hno
  have hirrefl : Std.Irrefl (Relation.TransGen R) := ⟨fun o hcycle => hno ⟨o, hcycle⟩⟩
  have hwf := Finite.wellFounded_of_trans_of_irrefl (Relation.TransGen R)
  obtain ⟨first, -, hfirst⟩ := hwf.has_min Set.univ Set.univ_nonempty
  obtain ⟨y, hy⟩ := hpred first
  exact hfirst y trivial (.single hy)

/-- In a finite set in which everything has a predecessor, everything is reached from a cycle. -/
private theorem exists_cycle_reaching {S : Set β} (hfin : S.Finite) (hpred : ∀ x ∈ S, ∃ y ∈ S, R y x) {r : β}
    (hr : r ∈ S) : ∃ o, Relation.TransGen R o o ∧ Relation.ReflTransGen R o r := by
  have hfinite : Finite {x // x ∈ S ∧ Relation.ReflTransGen R x r} := (hfin.subset fun x hx => hx.1).to_subtype
  have hnonempty : Nonempty {x // x ∈ S ∧ Relation.ReflTransGen R x r} := ⟨⟨r, hr, .refl⟩⟩
  obtain ⟨o, hcycle⟩ := exists_cycle (R := fun a b : {x // x ∈ S ∧ Relation.ReflTransGen R x r} => R a.1 b.1) <| by
    rintro ⟨x, hx, hreach⟩
    obtain ⟨y, hy, hedge⟩ := hpred x hx
    exact ⟨⟨y, hy, .head hedge hreach⟩, hedge⟩
  exact ⟨o.1, hcycle.lift Subtype.val fun _ _ hab => hab, o.2.2⟩

end cycles

omit [DecidableEq τ] [DecidableEq φ] in
/-- When no thread holds a reference and no destructor is under way, an object is left if and only if it is reached from
a cycle. -/
theorem Sound.alive_iff_of_quiet (hs : Sound fields s) (hheld : ∀ u k, s.refs (.held u k) = none)
    (hdying : ∀ u, s.dying u = []) (r : Nat) :
    s.heap.Alive r ↔ ∃ o, Relation.TransGen s.Refers o o ∧ Relation.ReflTransGen s.Refers o r := by
  have halive : ∀ {o x}, s.Refers o x → s.heap.Alive x := by
    rintro o x ⟨f, hf⟩
    exact (hs.counted.alive_iff x).2 ⟨.field o f, hf⟩
  constructor
  · intro hr
    have hfin : {x | s.heap.Alive x}.Finite := by
      refine (Set.finite_lt_nat s.heap.next).subset fun x hx => ?_
      by_contra hle
      have hx' : s.heap.Alive x := hx
      rw [RefHeap.Alive, hs.counted.fresh x (Nat.not_lt.1 hle)] at hx'
      cases hx'
    refine exists_cycle_reaching hfin (fun x hx => ?_) hr
    obtain ⟨place, hplace⟩ := (hs.counted.alive_iff x).1 hx
    cases place with
    | held u k => cases (hheld u k).symm.trans hplace
    | field o f =>
      refine ⟨o, ?_, f, hplace⟩
      -- a destroyed object has no references any more
      cases hget : s.heap.get o with
      | some a => exact RefHeap.alive_of_get hget
      | none =>
        obtain ⟨u, hu⟩ := hs.dying_of_dead o f x hplace hget
        rw [hdying] at hu
        cases hu
  · rintro ⟨o, hcycle, hreach⟩
    rcases hreach.cases_tail with rfl | ⟨x, -, hx⟩
    · obtain ⟨x, -, hx⟩ := Relation.TransGen.tail'_iff.1 hcycle
      exact halive hx
    · exact halive hx

end SharedObjects
