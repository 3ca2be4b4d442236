import Mathlib.Logic.Function.Basic
import AvcTool.Lib.Transition
import AvcTool.Poller.Dispatch

/-!
# The records and the interest list of the kernel

`event_records_` should have the descriptors of the kernel's interest list, each with the mask that the kernel was last
given for it.  `attachEvent_l` leaves the records alone when `epoll_ctl` fails; `modifyEvent` and `detachEvent` change
them all the same.

`Mirror` runs the three operations on the poller thread, with any outcome of `epoll_ctl`, and carries along the masks
that the successful calls have installed.  The two sides agree after every step exactly as long as no refused
`modifyEvent` changes the mask of a record and no refused `detachEvent` finds one (`mirrorKept_iff`).
-/

namespace AvcTool

/-- A call from the poller thread; `ok` says that `epoll_ctl` does not fail for a reason of its own. -/
inductive RegCall (κ : Type) where
  | attachEvent (ok : Bool) (fd : FD) (events : Nat) (cb : κ)
  | modifyEvent (ok : Bool) (fd : FD) (events : Nat)
  | detachEvent (ok : Bool) (fd : FD)
  deriving DecidableEq

structure Mirror (κ : Type) where
  registry : Registry κ
  /-- the mask of each descriptor that `epoll_ctl` has accepted last -/
  installed : FD → Option Nat

namespace Mirror

variable {κ : Type}

def init : Mirror κ := ⟨⟨.empty, []⟩, fun _ => none⟩

/-- The call reaches `epoll_ctl`, and the kernel performs it. -/
def accepts (s : Mirror κ) : RegCall κ → Bool
  | .attachEvent ok fd _ _ => 0 ≤ fd && ok && fd ∉ s.registry.table.interest
  | .modifyEvent ok fd _ => ok && fd ∈ s.registry.table.interest
  | .detachEvent ok fd => ok && fd ∈ s.registry.table.interest

/-- What an accepted call leaves in the kernel for its descriptor. -/
def installs : RegCall κ → FD × Option Nat
  | .attachEvent _ fd events _ => (fd, some events)
  | .modifyEvent _ fd events => (fd, some events)
  | .detachEvent _ fd => (fd, none)

def callRegistry (p : Registry κ) : RegCall κ → Registry κ × Int
  | .attachEvent ok fd events cb => p.attachEvent true ok fd events cb
  | .modifyEvent ok fd events => p.call true ok (.modify fd events)
  | .detachEvent ok fd => p.call true ok (.detach fd)

def call (s : Mirror κ) (c : RegCall κ) : Mirror κ × Int :=
  let (p, ret) := callRegistry s.registry c
  let installed :=
    if s.accepts c then Function.update s.installed (installs c).1 (installs c).2 else s.installed
  (⟨p, installed⟩, ret)

def step (s : Mirror κ) (c : RegCall κ) : Option (Mirror κ) :=
  some (s.call c).1

/-- Each side has the masks that have been installed. -/
def Mirrored (s : Mirror κ) : Prop :=
  ∀ fd, (s.registry.table.eventRecords.lookup fd).map EventRecord.events = s.installed fd ∧
    s.registry.table.interest.lookup fd = (s.installed fd).map toEpollEvent

def Unchanged (t t' : EventTable κ) : Prop :=
  ∀ fd, t'.eventRecords.lookup fd = t.eventRecords.lookup fd ∧ t'.interest.lookup fd = t.interest.lookup fd

/-- After the call the two sides agree, and if it has returned -1, neither has changed. -/
def MirrorKept (s : Mirror κ) (c : RegCall κ) : Prop :=
  Mirrored (s.call c).1 ∧ ((s.call c).2 = -1 → Unchanged s.registry.table (s.call c).1.registry.table)

/-- A call that `epoll_ctl` fails finds nothing to change in the records. -/
def FailsHarmlessly (s : Mirror κ) : RegCall κ → Prop
  | .attachEvent _ _ _ _ => True
  | .modifyEvent ok fd events =>
    ok = true ∨ (s.registry.table.eventRecords.lookup fd).all fun r => r.events = events
  | .detachEvent ok fd => ok = true ∨ fd ∉ s.registry.table.eventRecords

/-! ### The three operations -/

/-- A call leaves its table and what it returns; only an accepted call installs a mask. -/
def after (s : Mirror κ) (c : RegCall κ) (accepted : Bool) (t : EventTable κ) : Mirror κ :=
  ⟨{ s.registry with table := t },
    if accepted then Function.update s.installed (installs c).1 (installs c).2 else s.installed⟩

private theorem call_attachEvent (s : Mirror κ) (ok : Bool) (fd : FD) (events : Nat) (cb : κ) :
    s.call (.attachEvent ok fd events cb) =
      if s.accepts (.attachEvent ok fd events cb) then
        (s.after (.attachEvent ok fd events cb) true ⟨s.registry.table.eventRecords.insert fd ⟨events, cb⟩,
          s.registry.table.interest.insert fd (toEpollEvent events)⟩, 0)
      else (s, -1) := by
  unfold call callRegistry Registry.attachEvent Registry.call RegTask.run attachEventL epollCtlAdd after
  by_cases hneg : fd < 0
  · have haccepts : s.accepts (.attachEvent ok fd events cb) = false := by
      simp [accepts, Int.not_le.2 hneg]
    simp only [if_pos hneg, haccepts, Bool.false_eq_true, if_false]
  · by_cases hok : ok = true ∧ fd ∉ s.registry.table.interest
    · have haccepts : s.accepts (.attachEvent ok fd events cb) = true := by
        simp [accepts, Int.not_lt.1 hneg, hok]
      simp only [if_neg hneg, if_pos hok, haccepts, if_true]
    · have haccepts : s.accepts (.attachEvent ok fd events cb) = false := by
        simpa [accepts, Int.not_lt.1 hneg] using hok
      simp only [if_neg hneg, if_neg hok, haccepts, Bool.false_eq_true, if_true, if_false]

private theorem call_modifyEvent (s : Mirror κ) (ok : Bool) (fd : FD) (events : Nat) :
    s.call (.modifyEvent ok fd events) =
      if s.accepts (.modifyEvent ok fd events) then
        (s.after (.modifyEvent ok fd events) true ⟨setEvents fd events s.registry.table.eventRecords,
          s.registry.table.interest.insert fd (toEpollEvent events)⟩, 0)
      else
        (s.after (.modifyEvent ok fd events) false ⟨setEvents fd events s.registry.table.eventRecords,
          s.registry.table.interest⟩, -1) := by
  unfold call callRegistry Registry.call RegTask.run modifyEvent epollCtlMod after
  by_cases hok : ok = true ∧ fd ∈ s.registry.table.interest
  · have haccepts : s.accepts (.modifyEvent ok fd events) = true := by simp [accepts, hok]
    simp only [if_pos hok, haccepts, if_true]
  · have haccepts : s.accepts (.modifyEvent ok fd events) = false := by simpa [accepts] using hok
    simp only [if_neg hok, haccepts, Bool.false_eq_true, if_true, if_false]

private theorem call_detachEvent (s : Mirror κ) (ok : Bool) (fd : FD) :
    s.call (.detachEvent ok fd) =
      if s.accepts (.detachEvent ok fd) then
        (s.after (.detachEvent ok fd) true ⟨s.registry.table.eventRecords.erase fd,
          s.registry.table.interest.erase fd⟩, 0)
      else
        (s.after (.detachEvent ok fd) false ⟨s.registry.table.eventRecords.erase fd,
          s.registry.table.interest⟩, -1) := by
  unfold call callRegistry Registry.call RegTask.run detachEvent epollCtlDel after
  by_cases hok : ok = true ∧ fd ∈ s.registry.table.interest
  · have haccepts : s.accepts (.detachEvent ok fd) = true := by simp [accepts, hok]
    simp only [if_pos hok, haccepts, if_true]
  · have haccepts : s.accepts (.detachEvent ok fd) = false := by simpa [accepts] using hok
    simp only [if_neg hok, haccepts, Bool.false_eq_true, if_true, if_false]

/-! ### One call -/

theorem Mirrored.mem_iff {s : Mirror κ} (hs : Mirrored s) (fd : FD) :
    fd ∈ s.registry.table.interest ↔ fd ∈ s.registry.table.eventRecords := by
  obtain ⟨hrecord, hinterest⟩ := hs fd
  have hsome : (s.registry.table.interest.lookup fd).isSome = (s.registry.table.eventRecords.lookup fd).isSome := by
    rw [hinterest, ← hrecord, Option.isSome_map, Option.isSome_map]
  rw [← AList.lookup_isSome, ← AList.lookup_isSome, hsome]

/-- An accepted call changes both sides alike. -/
theorem Mirrored.accepted {s : Mirror κ} (hs : Mirrored s) {c : RegCall κ} {t : EventTable κ} {fd : FD}
    {mask : Option Nat} (hc : installs c = (fd, mask))
    (hrecord : ∀ fd', (t.eventRecords.lookup fd').map EventRecord.events =
      if fd' = fd then mask else (s.registry.table.eventRecords.lookup fd').map EventRecord.events)
    (hinterest : ∀ fd', t.interest.lookup fd' =
      if fd' = fd then mask.map toEpollEvent else s.registry.table.interest.lookup fd') :
    Mirrored (s.after c true t) := by
  intro fd'
  have hinstalled : (s.after c true t).installed = Function.update s.installed fd mask := by
    simp only [after, hc, if_true]
  change (t.eventRecords.lookup fd').map EventRecord.events = _ ∧ t.interest.lookup fd' = _
  rw [hrecord, hinterest, hinstalled]
  by_cases hfd : fd' = fd
  · rw [if_pos hfd, if_pos hfd, hfd, Function.update_self]
    exact ⟨rfl, rfl⟩
  · rw [if_neg hfd, if_neg hfd, Function.update_of_ne hfd]
    exact hs fd'

private theorem Mirrored.refused_iff {s : Mirror κ} (hs : Mirrored s) (c : RegCall κ) {t : EventTable κ}
    (hinterest : t.interest = s.registry.table.interest) :
    (Mirrored (s.after c false t) ∧ Unchanged s.registry.table t) ↔
      ∀ fd, t.eventRecords.lookup fd = s.registry.table.eventRecords.lookup fd := by
  constructor
  · rintro ⟨-, hunchanged⟩ fd
    exact (hunchanged fd).1
  · intro hrecords
    refine ⟨fun fd => ?_, fun fd => ⟨hrecords fd, by rw [hinterest]⟩⟩
    change (t.eventRecords.lookup fd).map EventRecord.events = s.installed fd ∧
      t.interest.lookup fd = (s.installed fd).map toEpollEvent
    rw [hrecords fd, hinterest]
    exact hs fd

private theorem mirrorKept_attachEvent {s : Mirror κ} (hs : Mirrored s) (ok : Bool) (fd : FD) (events : Nat) (cb : κ) :
    MirrorKept s (.attachEvent ok fd events cb) := by
  unfold MirrorKept
  rw [call_attachEvent]
  split
  · refine ⟨hs.accepted rfl ?_ ?_, fun hret => by cases hret⟩
    · intro fd'
      simp only [lookup_insert_eq, apply_ite (Option.map EventRecord.events), Option.map_some]
    · intro fd'
      simp only [lookup_insert_eq, Option.map_some]
  · exact ⟨hs, fun _ _ => ⟨rfl, rfl⟩⟩

private theorem lookup_setEvents_eq_iff (rs : AList fun _ : FD => EventRecord κ) (fd : FD) (events : Nat) :
    (∀ fd', (setEvents fd events rs).lookup fd' = rs.lookup fd') ↔
      (rs.lookup fd).all fun r => r.events = events := by
  simp only [lookup_setEvents]
  constructor
  · intro hsame
    have hfd := hsame fd
    rw [if_pos rfl] at hfd
    cases hr : rs.lookup fd with
    | none => rfl
    | some r =>
      rw [hr] at hfd
      have hevents : events = r.events := congrArg EventRecord.events (Option.some.inj hfd)
      simpa using hevents.symm
  · intro hall fd'
    by_cases hfd : fd' = fd
    · subst hfd
      rw [if_pos rfl]
      cases hr : rs.lookup fd' with
      | none => rfl
      | some r =>
        rw [hr] at hall
        have hevents : r.events = events := by simpa using hall
        subst hevents
        rfl
    · rw [if_neg hfd]

private theorem lookup_erase_eq_iff (rs : AList fun _ : FD => EventRecord κ) (fd : FD) :
    (∀ fd', (rs.erase fd).lookup fd' = rs.lookup fd') ↔ fd ∉ rs := by
  simp only [lookup_erase_eq]
  constructor
  · intro hsame
    have hfd := hsame fd
    rw [if_pos rfl] at hfd
    exact AList.lookup_eq_none.1 hfd.symm
  · intro hnot fd'
    by_cases hfd : fd' = fd
    · subst hfd
      rw [if_pos rfl, AList.lookup_eq_none.2 hnot]
    · rw [if_neg hfd]

private theorem mirrorKept_modifyEvent_iff {s : Mirror κ} (hs : Mirrored s) (ok : Bool) (fd : FD) (events : Nat) :
    MirrorKept s (.modifyEvent ok fd events) ↔ FailsHarmlessly s (.modifyEvent ok fd events) := by
  unfold MirrorKept
  rw [call_modifyEvent]
  cases haccepts : s.accepts (.modifyEvent ok fd events) with
  | true =>
    have hok : ok = true ∧ fd ∈ s.registry.table.interest := by simpa [accepts] using haccepts
    obtain ⟨r, hr⟩ := Option.isSome_iff_exists.1 (AList.lookup_isSome.2 ((hs.mem_iff fd).1 hok.2))
    have hmirrored : Mirrored (s.after (.modifyEvent ok fd events) true
        ⟨setEvents fd events s.registry.table.eventRecords,
          s.registry.table.interest.insert fd (toEpollEvent events)⟩) := by
      refine hs.accepted rfl ?_ ?_
      · intro fd'
        simp only [lookup_setEvents, hr, apply_ite (Option.map EventRecord.events), Option.map_some]
      · intro fd'
        simp only [lookup_insert_eq, Option.map_some]
    simp only [if_true]
    exact ⟨fun _ => .inl hok.1, fun _ => ⟨hmirrored, fun hret => by cases hret⟩⟩
  | false =>
    have hrefused := hs.refused_iff (.modifyEvent ok fd events)
      (t := ⟨setEvents fd events s.registry.table.eventRecords, s.registry.table.interest⟩) rfl
    simp only [Bool.false_eq_true, if_false, forall_const]
    rw [lookup_setEvents_eq_iff] at hrefused
    refine hrefused.trans ⟨.inr, ?_⟩
    rintro (hok | hall)
    · have hnot : fd ∉ s.registry.table.eventRecords := by
        rw [← hs.mem_iff]
        simpa [accepts, hok] using haccepts
      rw [AList.lookup_eq_none.2 hnot]
      rfl
    · exact hall

private theorem mirrorKept_detachEvent_iff {s : Mirror κ} (hs : Mirrored s) (ok : Bool) (fd : FD) :
    MirrorKept s (.detachEvent ok fd) ↔ FailsHarmlessly s (.detachEvent ok fd) := by
  unfold MirrorKept
  rw [call_detachEvent]
  cases haccepts : s.accepts (.detachEvent ok fd) with
  | true =>
    have hok : ok = true ∧ fd ∈ s.registry.table.interest := by simpa [accepts] using haccepts
    have hmirrored : Mirrored (s.after (.detachEvent ok fd) true
        ⟨s.registry.table.eventRecords.erase fd, s.registry.table.interest.erase fd⟩) := by
      refine hs.accepted rfl ?_ ?_
      · intro fd'
        simp only [lookup_erase_eq, apply_ite (Option.map EventRecord.events), Option.map_none]
      · intro fd'
        simp only [lookup_erase_eq, Option.map_none]
    simp only [if_true]
    exact ⟨fun _ => .inl hok.1, fun _ => ⟨hmirrored, fun hret => by cases hret⟩⟩
  | false =>
    have hrefused := hs.refused_iff (.detachEvent ok fd)
      (t := ⟨s.registry.table.eventRecords.erase fd, s.registry.table.interest⟩) rfl
    simp only [Bool.false_eq_true, if_false, forall_const]
    rw [lookup_erase_eq_iff] at hrefused
    refine hrefused.trans ⟨.inr, ?_⟩
    rintro (hok | hnot)
    · rw [← hs.mem_iff]
      simpa [accepts, hok] using haccepts
    · exact hnot

private theorem mirrorKept_call_iff {s : Mirror κ} (hs : Mirrored s) (c : RegCall κ) :
    MirrorKept s c ↔ FailsHarmlessly s c := by
  cases c with
  | attachEvent ok fd events cb => exact ⟨fun _ => trivial, fun _ => mirrorKept_attachEvent hs ok fd events cb⟩
  | modifyEvent ok fd events => exact mirrorKept_modifyEvent_iff hs ok fd events
  | detachEvent ok fd => exact mirrorKept_detachEvent_iff hs ok fd

/-! ### Main results -/

private theorem mirrored_init : Mirrored (init : Mirror κ) :=
  fun _ => ⟨rfl, rfl⟩

/-- The records mirror the kernel after every call of a run if and only if the calls that fail find nothing to
change. -/
theorem mirrorKept_iff (cs : List (RegCall κ)) :
    Transition.Along step MirrorKept (init : Mirror κ) cs ↔ Transition.Along step FailsHarmlessly init cs := by
  have hstep : ∀ (s : Mirror κ) (c : RegCall κ) (t : Mirror κ), Mirrored s → FailsHarmlessly s c →
      s.step c = some t → Mirrored t := by
    intro s c t hs hok hst
    obtain rfl : (s.call c).1 = t := Option.some.inj hst
    exact ((mirrorKept_call_iff hs c).2 hok).1
  exact Transition.along_iff_of_invariant hstep (fun s c hs => mirrorKept_call_iff hs c) mirrored_init cs

/-- A descriptor is attached for read, and then a `modifyEvent` is refused. -/
def modifyRefused : List (RegCall Nat) := [.attachEvent true 3 kEventRead 0, .modifyEvent false 3 kEventWrite]

/-- A refused `modifyEvent` changes the mask of the record. -/
theorem mirror_broken_by_modifyEvent : ¬ Transition.Along step MirrorKept init modifyRefused := by
  intro hrun
  have hkept := hrun.2 _ rfl
  have hret : -1 = (-1 : Int) := rfl
  have hsame := (hkept.1.2 hret 3).1
  exact absurd hsame (by decide)

end Mirror

end AvcTool
