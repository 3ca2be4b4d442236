import AvcTool.Poller.DelayRun

/-!
# Timers

A `Timer` keeps the handle of its delay task in `delay_task_`: `start` adds a task if there is none, and `stop` cancels
the task and drops the handle.  The task itself lives in the poller, which enters it again as long as its callback
returns a positive delay; the callback of a timer returns the period.  `stop` also stands for the destructor.

The timer and the poller agree on whether the timer is started (`OneSchedule`) until the callback of a task with period
zero returns: the poller then drops the task, but `delay_task_` still holds it.  A `stop` that another thread calls after
the poller has locked the callback and before it enters it comes too late for this call.
-/

namespace AvcTool

structure TimerRun where
  poller : PollerLoop
  /-- the handle in `delay_task_` -/
  delayTask : Option Nat
  /-- the periods of the delay tasks that the timer has added -/
  period : Nat → Option Int32

inductive TimerAction where
  | start (t : Thread) (milliseconds : Int32)
  | stop (t : Thread)
  /-- a step of the poller, or of a thread that has other tasks -/
  | poller (a : PollerAction)
  deriving DecidableEq

/-- The delay that the callback of a timer returns, an `int` converted to `uint64_t`. -/
def timerDelay (milliseconds : Int32) : UInt64 := milliseconds.toInt64.toUInt64

/-- The entry whose callback is executing. -/
def LoopPc.running : LoopPc → Option (UInt64 × Nat)
  | .runningDelay e _ => some e
  | _ => none

/-- An invocation that calls `on_timer_`: the period of the task and the reading of the pass. -/
def PollerEvent.onTimer (period : Nat → Option Int32) : PollerEvent → Option (Int32 × UInt64)
  | .invoked h _ now => (period h).map fun milliseconds => (milliseconds, now)
  | _ => none

namespace TimerRun

def init : TimerRun := ⟨.init, none, fun _ => none⟩

/-- The period of the task whose callback is executing, if it is one of the timer. -/
def runningPeriod (s : TimerRun) : Option Int32 := s.poller.pc.running.bind fun e => s.period e.2

/-- What the poller and other threads may do: only the timer has the handles of its tasks, its callback returns the
period, also after an exception of `on_timer_`, and so it never throws. -/
def admits (s : TimerRun) : PollerAction → Bool
  | .cancel h => s.period h = none
  | .finishDelay delayMs => (s.runningPeriod.map timerDelay).getD delayMs = delayMs
  | .throwDelay => s.runningPeriod = none
  | _ => true

def step (s : TimerRun) : TimerAction → Option TimerRun
  | .start t milliseconds =>
    match s.delayTask with
    | none =>
      (s.poller.step (.addDelayTask t s.poller.clock milliseconds true)).map fun p =>
        { poller := p
          delayTask := some s.poller.handles.next
          period := Function.update s.period s.poller.handles.next (some milliseconds) }
    | some _ => if s.poller.mayCall t then some s else none
  | .stop t =>
    if s.poller.mayCall t then
      match s.delayTask with
      | some h => (s.poller.step (.cancel h)).map fun p => { s with poller := p, delayTask := none }
      | none => some s
    else none
  | .poller a => if s.admits a then (s.poller.step a).map fun p => { s with poller := p } else none

private theorem step_poller {s t : TimerRun} {a : PollerAction} (h : s.step (.poller a) = some t) :
    s.admits a = true ∧ ∃ p, s.poller.step a = some p ∧ t = { s with poller := p } := by
  obtain ⟨hadmits, h⟩ := Option.ite_none_right_eq_some.1 h
  obtain ⟨p, hp, rfl⟩ := Option.map_eq_some_iff.1 h
  exact ⟨hadmits, p, hp, rfl⟩

/-! ### What a timer is to guarantee -/

/-- The entries of the timer that are not cancelled, wherever they are. -/
def live (s : TimerRun) : Multiset (UInt64 × Nat) :=
  s.poller.entries.filter fun e => s.period e.2 ≠ none ∧ e.2 ∉ s.poller.handles.cancelled

/-- The calls of `on_timer_`, with the periods of their tasks and the readings of their passes. -/
def runs (s : TimerRun) : List (Int32 × UInt64) := s.poller.events.filterMap (PollerEvent.onTimer s.period)

structure OneSchedule (s : TimerRun) : Prop where
  started_iff : s.delayTask ≠ none ↔ s.live.card = 1
  stopped : s.delayTask = none → s.live = 0
  once_per_period : s.runs.Pairwise fun a b => a.2.toNat + b.1.toNatClampNeg ≤ b.2.toNat

/-- `on_timer_` is called only for the task in `delay_task_`, and `start` leaves the timer with one entry. -/
def InStep (s : TimerRun) (a : TimerAction) : Prop :=
  (a = .poller .callDelay → ∀ e copy, s.poller.pc = .lockedDelay e copy → s.period e.2 ≠ none →
    s.delayTask = some e.2) ∧
  ∀ th milliseconds t, a = .start th milliseconds → s.step a = some t → t.live.card = 1

/-- The periods are not negative and the deadlines of the timer below 2^64. -/
def Ranged (s : TimerRun) : TimerAction → Prop
  | .start _ milliseconds => 0 ≤ milliseconds ∧ s.poller.clock.toNat + milliseconds.toNatClampNeg < 2 ^ 64
  | .poller (.finishDelay delayMs) => s.runningPeriod ≠ none → s.poller.reading.toNat + delayMs.toNat < 2 ^ 64
  | _ => True

/-- No callback of a task with period zero returns while the task is in `delay_task_`, no other callback throws while
the pass still has the entry of the timer, and `stop` does not come between the lock of the callback and its start. -/
def KeepsEntry (s : TimerRun) : TimerAction → Prop
  | .stop _ => s.delayTask = none ∨ s.delayTask ≠ s.poller.pc.locked
  | .poller (.finishDelay _) => s.runningPeriod = some 0 → s.delayTask ≠ s.poller.pc.running.map Prod.snd
  | .poller .throwDelay => s.delayTask ∉ s.poller.pc.walk.map fun e => some e.2
  | _ => True

instance decidableRanged (s : TimerRun) (a : TimerAction) : Decidable (s.Ranged a) := by
  unfold Ranged; split <;> infer_instance

instance decidableKeepsEntry (s : TimerRun) : ∀ a, Decidable (s.KeepsEntry a)
  | .poller (.finishDelay _) =>
    inferInstanceAs (Decidable (s.runningPeriod = some 0 → s.delayTask ≠ s.poller.pc.running.map Prod.snd))
  | .poller .throwDelay => inferInstanceAs (Decidable (s.delayTask ∉ s.poller.pc.walk.map fun e => some e.2))
  | .stop _ => inferInstanceAs (Decidable (s.delayTask = none ∨ s.delayTask ≠ s.poller.pc.locked))
  | .start _ _ => isTrue trivial
  | .poller (.tick _) | .poller .assignThread | .poller .enterLoop | .poller .leaveLoop | .poller (.async _ _ _ _)
  | .poller (.addDelayTask _ _ _ _) | .poller (.cancel _) | .poller .swapTasks | .poller .nextTask | .poller .lockTask
  | .poller .callTask | .poller .finishTask | .poller (.scheduleDelayTask _) | .poller .nextDelay
  | .poller .lockDelay | .poller .callDelay => isTrue trivial

end TimerRun

/-! ### The timer and the poller -/

/-- The entries that are still to be called. -/
def PollerLoop.pending (s : PollerLoop) : Multiset (UInt64 × Nat) := s.waiting + s.pc.ahead

private theorem PollerLoop.pending_le_entries (s : PollerLoop) : s.pending ≤ s.entries :=
  Multiset.add_le_add_left s.pc.ahead_le_walk

private theorem LoopPc.mem_walk_of_current {pc : LoopPc} {e : UInt64 × Nat} (h : pc.current = some e) :
    e ∈ pc.walk := by
  cases pc with
  | testedDelay e' copy | lockedDelay e' copy | runningDelay e' copy =>
    obtain rfl := Option.some.inj h
    exact Multiset.mem_cons_self e' copy.bag
  | _ => cases h

private theorem PollerLoop.pending_eq_entries {s : PollerLoop} (h : s.pc.running = none) : s.pending = s.entries := by
  unfold pending entries
  cases hpc : s.pc with
  | runningDelay e copy => simp [hpc, LoopPc.running] at h
  | _ => rfl

private theorem PollerLoop.pending_runningDelay {s : PollerLoop} {e : UInt64 × Nat} {copy : Multimap UInt64 Nat}
    (hpc : s.pc = .runningDelay e copy) : s.pending = s.waiting + copy.bag := by
  rw [pending, hpc]
  rfl

/-- What the steps of the poller and of other threads do to the handles of the timer. -/
structure KeepsHandles (period : Nat → Option Int32) (s t : TaskHandles) : Prop where
  below : t.Below
  next_le : s.next ≤ t.next
  empty : ∀ h, period h ≠ none → h ∈ t.empty → h ∈ s.empty
  cancelled : ∀ h, period h ≠ none → (h ∈ t.cancelled ↔ h ∈ s.cancelled)

namespace KeepsHandles

variable {period : Nat → Option Int32} {s : TaskHandles}

theorem refl (hs : s.Below) : KeepsHandles period s s := ⟨hs, le_refl _, fun _ _ h => h, fun _ _ => Iff.rfl⟩

theorem create (hs : s.Below) (hasFunction : Bool) (hold : ∀ h, period h ≠ none → h < s.next) :
    KeepsHandles period s (s.create hasFunction) := by
  refine ⟨hs.create hasFunction, Nat.le_succ _, fun h hh hmem => ?_, fun _ _ => Iff.rfl⟩
  rcases TaskHandles.mem_empty_create hmem with hmem | ⟨rfl, -⟩
  · exact hmem
  · exact absurd (hold _ hh) (lt_irrefl _)

theorem cancel (hs : s.Below) {x : Nat} (hlt : x < s.next) (hx : period x = none) :
    KeepsHandles period s (s.cancel x) := by
  refine ⟨hs.cancel hlt, le_refl _, fun _ _ h => h, fun h hh => ?_⟩
  unfold TaskHandles.cancel
  rw [Finset.mem_insert, or_iff_right]
  rintro rfl
  exact hh hx

end KeepsHandles

/-- The task in `delay_task_` is the only one of the timer that is not cancelled; it has an entry, which comes due one
period after all calls of `on_timer_` so far. -/
structure TimerInv (s : TimerRun) : Prop where
  placed : PlacedOnce s.poller
  clock : ClockSound s.poller
  below : s.poller.handles.Below
  old : ∀ h, s.period h ≠ none → h < s.poller.handles.next
  invoked_old : ∀ h pass now, .invoked h pass now ∈ s.poller.events → h < s.poller.handles.next
  nonneg : ∀ h milliseconds, s.period h = some milliseconds → 0 ≤ milliseconds
  callable : ∀ h, s.period h ≠ none → h ∉ s.poller.handles.empty
  current : ∀ h, s.delayTask = some h →
    s.period h ≠ none ∧ h ∉ s.poller.handles.cancelled ∧ ∃ k, (k, h) ∈ s.poller.entries
  unique : ∀ h, s.period h ≠ none → h ∉ s.poller.handles.cancelled → s.delayTask = some h
  locked : ∀ e, s.poller.pc.current = some e → s.poller.pc.locked = some e.2 → s.period e.2 ≠ none →
    e.2 ∉ s.poller.handles.cancelled
  spaced : ∀ e ∈ s.poller.pending, s.delayTask = some e.2 → ∀ milliseconds, s.period e.2 = some milliseconds →
    ∀ r ∈ s.runs, r.2.toNat + milliseconds.toNatClampNeg ≤ e.1.toNat
  once : s.runs.Pairwise fun a b => a.2.toNat + b.1.toNatClampNeg ≤ b.2.toNat

namespace TimerInv

variable {s : TimerRun}

theorem init : TimerInv .init where
  placed := .init
  clock := .init
  below := TaskHandles.below_init
  old := fun _ h => absurd rfl h
  invoked_old := nofun
  nonneg := fun _ _ => nofun
  callable := fun _ h => absurd rfl h
  current := nofun
  unique := fun _ h => absurd rfl h
  locked := nofun
  spaced := fun _ _ => nofun
  once := .nil

private theorem live_of_stopped (hs : TimerInv s) (h : s.delayTask = none) : s.live = 0 := by
  refine Multiset.filter_eq_nil.2 fun e _ ⟨hperiod, hcan⟩ => ?_
  have hcur := hs.unique e.2 hperiod hcan
  rw [h] at hcur
  cases hcur

private theorem live_of_started (hs : TimerInv s) {x : Nat} (h : s.delayTask = some x) : ∃ k, s.live = {(k, x)} := by
  obtain ⟨hperiod, hcan, k, hmem⟩ := hs.current x h
  obtain ⟨others, hentries⟩ := Multiset.exists_cons_of_mem hmem
  have hrest : others.filter (fun e => s.period e.2 ≠ none ∧ e.2 ∉ s.poller.handles.cancelled) = 0 := by
    refine Multiset.filter_eq_nil.2 fun e he ⟨hperiod', hcan'⟩ => ?_
    have hcur := hs.unique e.2 hperiod' hcan'
    rw [h] at hcur
    exact hs.placed.ne_of_mem hentries he (Option.some.inj hcur).symm
  refine ⟨k, ?_⟩
  unfold TimerRun.live
  rw [hentries, Multiset.filter_cons_of_pos _ ⟨hperiod, hcan⟩, hrest]
  rfl

private theorem card_live (hs : TimerInv s) {x : Nat} (h : s.delayTask = some x) : s.live.card = 1 := by
  obtain ⟨k, hlive⟩ := hs.live_of_started h
  rw [hlive, Multiset.card_singleton]

private theorem oneSchedule (hs : TimerInv s) : s.OneSchedule where
  started_iff := by
    cases h : s.delayTask with
    | none => simp [hs.live_of_stopped h]
    | some x => simp [hs.card_live h]
  stopped := hs.live_of_stopped
  once_per_period := hs.once

/-- A step of the poller or of another thread that calls no callback of the timer. -/
theorem keep (hs : TimerInv s) {p : PollerLoop} (hplaced : PlacedOnce p) (hclock : ClockSound p)
    (hhandles : KeepsHandles s.period s.poller.handles p.handles)
    (hentries : ∀ e ∈ s.poller.entries, s.delayTask = some e.2 → ∃ k, (k, e.2) ∈ p.entries)
    (hlocked : ∀ e, p.pc.current = some e → p.pc.locked = some e.2 →
      s.poller.pc.current = some e ∧ s.poller.pc.locked = some e.2 ∨ e.2 ∉ s.poller.handles.cancelled)
    (hinvoked : ∀ h pass now, .invoked h pass now ∈ p.events → h < p.handles.next)
    (hruns : p.events.filterMap (PollerEvent.onTimer s.period) = s.runs)
    (hspaced : ∀ e ∈ p.pending, s.delayTask = some e.2 → ∀ milliseconds, s.period e.2 = some milliseconds →
      ∀ r ∈ s.runs, r.2.toNat + milliseconds.toNatClampNeg ≤ e.1.toNat) :
    TimerInv { s with poller := p } := by
  refine ⟨hplaced, hclock, hhandles.below, ?_, hinvoked, hs.nonneg, ?_, ?_, ?_, ?_, ?_, ?_⟩
  · exact fun h hh => (hs.old h hh).trans_le hhandles.next_le
  · exact fun h hh hmem => hs.callable h hh (hhandles.empty h hh hmem)
  · intro h hh
    obtain ⟨hperiod, hcan, k, hmem⟩ := hs.current h hh
    exact ⟨hperiod, fun hc => hcan ((hhandles.cancelled h hperiod).1 hc), hentries _ hmem hh⟩
  · intro h hperiod hcan
    exact hs.unique h hperiod fun hc => hcan ((hhandles.cancelled h hperiod).2 hc)
  · intro e hcurrent hlock hperiod hc
    have hc := (hhandles.cancelled e.2 hperiod).1 hc
    rcases hlocked e hcurrent hlock with ⟨hcurrent, hlock⟩ | hcan
    · exact hs.locked e hcurrent hlock hperiod hc
    · exact hcan hc
  · intro e he hh milliseconds hm r hr
    exact hspaced e he hh milliseconds hm r (hruns ▸ hr)
  · show (p.events.filterMap (PollerEvent.onTimer s.period)).Pairwise _
    rw [hruns]
    exact hs.once

/-- A step that only moves entries, or drops some that are not that of the timer. -/
theorem move (hs : TimerInv s) {p : PollerLoop} (hplaced : PlacedOnce p) (hclock : ClockSound p)
    (hhandles : p.handles = s.poller.handles) (hevents : p.events = s.poller.events)
    (hlocked : p.pc.locked = none) (hentries : ∀ e ∈ s.poller.entries, s.delayTask = some e.2 → e ∈ p.entries)
    (hpending : ∀ e ∈ p.pending, e ∈ s.poller.pending) : TimerInv { s with poller := p } := by
  refine hs.keep hplaced hclock ?_ ?_ (by simp [hlocked]) ?_ ?_ ?_
  · rw [hhandles]
    exact .refl hs.below
  · exact fun e he hh => ⟨e.1, hentries e he hh⟩
  · rw [hhandles, hevents]
    exact hs.invoked_old
  · rw [hevents]
    rfl
  · exact fun e he => hs.spaced e (hpending e he)

/-- The entry of a task that cannot be called is dropped. -/
theorem drop (hs : TimerInv s) {p : PollerLoop} (hplaced : PlacedOnce p) (hclock : ClockSound p)
    (hhandles : p.handles = s.poller.handles) (hevents : p.events = s.poller.events) (hlocked : p.pc.locked = none)
    (e : UInt64 × Nat) (hentries : s.poller.entries = e ::ₘ p.entries) (hpending : s.poller.pending = e ::ₘ p.pending)
    (hdead : e.2 ∉ s.poller.handles.cancelled → e.2 ∈ s.poller.handles.empty) : TimerInv { s with poller := p } := by
  refine hs.move hplaced hclock hhandles hevents hlocked ?_ ?_
  · intro e' he' hcur
    rw [hentries] at he'
    rcases Multiset.mem_cons.1 he' with rfl | he'
    · obtain ⟨hperiod, hcan, -⟩ := hs.current e'.2 hcur
      exact absurd (hdead hcan) (hs.callable e'.2 hperiod)
    · exact he'
  · intro e' he'
    rw [hpending]
    exact Multiset.mem_cons_of_mem he'

private theorem runs_append {events : List PollerEvent} {ev : PollerEvent} {period : Nat → Option Int32}
    (hev : ev.onTimer period = none) :
    (events ++ [ev]).filterMap (PollerEvent.onTimer period) = events.filterMap (PollerEvent.onTimer period) := by
  rw [List.filterMap_append, List.filterMap_cons_none hev, List.filterMap_nil, List.append_nil]

/-- The callback of a task is called.  If it is one of the timer, its entry was due. -/
theorem call (hs : TimerInv s) {p : PollerLoop} (hplaced : PlacedOnce p) (hclock : ClockSound p) (e : UInt64 × Nat)
    (others : Multiset (UInt64 × Nat)) (hother : s.poller.entries = e ::ₘ others)
    (hcurrent : s.poller.pc.current = some e) (hmem : e ∈ s.poller.pc.ahead)
    (hlocked : s.poller.pc.locked = some e.2) (hunlocked : p.pc.locked = none) (hentries : p.entries = s.poller.entries)
    (hpending : ∀ e' ∈ p.pending, e' ∈ s.poller.pending ∧ e' ∈ others) (hhandles : p.handles = s.poller.handles)
    (hevents : p.events = s.poller.events ++ [.invoked e.2 s.poller.passes s.poller.reading]) :
    TimerInv { s with poller := p } := by
  have hold : e.2 < s.poller.handles.next := by
    refine hs.placed.lt_next e ?_
    rw [hother]
    exact Multiset.mem_cons_self e others
  have hinvoked : ∀ h pass now, .invoked h pass now ∈ p.events → h < p.handles.next := by
    intro h pass now hmem
    rw [hevents] at hmem
    rw [hhandles]
    rcases List.mem_append.1 hmem with hmem | hmem
    · exact hs.invoked_old h pass now hmem
    · obtain ⟨rfl, -⟩ : h = e.2 ∧ _ := by simpa using hmem
      exact hold
  cases hperiod : s.period e.2 with
  | none =>
    refine hs.keep hplaced hclock ?_ ?_ (by simp [hunlocked]) hinvoked ?_ fun e' he' => hs.spaced e' (hpending e' he').1
    · rw [hhandles]
      exact .refl hs.below
    · exact fun e' he' _ => ⟨e'.1, hentries ▸ he'⟩
    · rw [hevents]
      simp [PollerEvent.onTimer, hperiod, TimerRun.runs]
  | some milliseconds =>
    have hne : s.period e.2 ≠ none := by simp [hperiod]
    have hcur : s.delayTask = some e.2 := hs.unique e.2 hne (hs.locked e hcurrent hlocked hne)
    have hruns : p.events.filterMap (PollerEvent.onTimer s.period) = s.runs ++ [(milliseconds, s.poller.reading)] := by
      rw [hevents]
      simp [PollerEvent.onTimer, hperiod, TimerRun.runs]
    have hdue := UInt64.le_iff_toNat_le.1 (hs.clock.due e hcurrent)
    refine ⟨hplaced, hclock, hhandles ▸ hs.below, ?_, hinvoked, hs.nonneg, ?_, ?_, ?_, by simp [hunlocked], ?_, ?_⟩
    · rw [hhandles]
      exact hs.old
    · rw [hhandles]
      exact hs.callable
    · rw [hhandles, hentries]
      exact hs.current
    · rw [hhandles]
      exact hs.unique
    · intro e' he' hcur'
      have heq : e'.2 = e.2 := Option.some.inj (hcur'.symm.trans hcur)
      exact absurd heq (hs.placed.ne_of_mem hother (hpending e' he').2)
    · show (p.events.filterMap (PollerEvent.onTimer s.period)).Pairwise _
      rw [hruns, List.pairwise_append]
      refine ⟨hs.once, List.pairwise_singleton _ _, ?_⟩
      intro r hr r' hr'
      obtain rfl := List.mem_singleton.1 hr'
      have hspaced := hs.spaced e (Multiset.mem_add.2 (.inr hmem)) hcur milliseconds hperiod r hr
      exact hspaced.trans hdue

private theorem reading_le_of_mem_runs (hs : TimerInv s) {r : Int32 × UInt64} (hr : r ∈ s.runs) :
    r.2 ≤ s.poller.reading := by
  obtain ⟨ev, hev, hon⟩ := List.mem_filterMap.1 hr
  cases ev with
  | invoked h pass now =>
    obtain ⟨milliseconds, -, rfl⟩ := Option.map_eq_some_iff.1 hon
    exact hs.clock.invoked_le h pass now hev
  | _ => cases hon

private theorem toNat_timerDelay {milliseconds : Int32} (h : 0 ≤ milliseconds) :
    (timerDelay milliseconds).toNat = milliseconds.toNatClampNeg := by
  have hzero : (0 : Int32).toInt64 = 0 := rfl
  have hpos : 0 ≤ milliseconds.toInt64 := hzero ▸ Int32.toInt64_le.2 h
  unfold timerDelay
  rw [Int64.toNat_toUInt64_of_le hpos, Int32.toNatClampNeg_toInt64]

private theorem timerDelay_pos {milliseconds : Int32} (h : 0 ≤ milliseconds) (hne : milliseconds ≠ 0) :
    0 < timerDelay milliseconds := by
  have hle : 0 ≤ milliseconds.toInt := Int32.le_iff_toInt_le.1 h
  have hnz : milliseconds.toInt ≠ 0 := fun hz => hne (Int32.toInt_inj.1 hz)
  rw [UInt64.lt_iff_toNat_lt, toNat_timerDelay h]
  show 0 < milliseconds.toInt.toNat
  omega

/-- A task is entered again unless its callback returns 0, which that of the timer does not. -/
theorem finish (hs : TimerInv s) {p : PollerLoop} (hplaced : PlacedOnce p) (hclock : ClockSound p) (e : UInt64 × Nat)
    (others : Multiset (UInt64 × Nat)) {delayMs : UInt64} (hother : s.poller.entries = e ::ₘ others)
    (hentries : p.entries = if 0 < delayMs then (s.poller.reading + delayMs, e.2) ::ₘ others else others)
    (hpending : ∀ e' ∈ p.pending, e' ∈ s.poller.pending ∨ e' = (s.poller.reading + delayMs, e.2))
    (hhandles : p.handles = s.poller.handles) (hlocked : p.pc.locked = none)
    (hevents : p.events = s.poller.events ++ [.returned e.2 s.poller.passes s.poller.reading delayMs])
    (hdelay : ∀ milliseconds, s.period e.2 = some milliseconds → delayMs = timerDelay milliseconds)
    (hrange : s.period e.2 ≠ none → s.poller.reading.toNat + delayMs.toNat < 2 ^ 64)
    (hpos : s.delayTask = some e.2 → 0 < delayMs) : TimerInv { s with poller := p } := by
  refine hs.keep hplaced hclock ?_ ?_ (by simp [hlocked]) ?_ ?_ ?_
  · rw [hhandles]
    exact .refl hs.below
  · intro e' he' hcur
    rw [hother] at he'
    rcases Multiset.mem_cons.1 he' with rfl | he'
    · refine ⟨s.poller.reading + delayMs, ?_⟩
      rw [hentries, if_pos (hpos hcur)]
      exact Multiset.mem_cons_self _ _
    · refine ⟨e'.1, ?_⟩
      rw [hentries]
      split
      · exact Multiset.mem_cons_of_mem he'
      · exact he'
  · intro h pass now hmem
    rw [hevents] at hmem
    rw [hhandles]
    exact hs.invoked_old h pass now (by simpa using hmem)
  · rw [hevents]
    exact runs_append rfl
  · intro e' he' hcur milliseconds hm r hr
    rcases hpending e' he' with he' | rfl
    · exact hs.spaced e' he' hcur milliseconds hm r hr
    · have hle := UInt64.le_iff_toNat_le.1 (hs.reading_le_of_mem_runs hr)
      have hdelayMs : delayMs.toNat = milliseconds.toNatClampNeg := by
        rw [hdelay milliseconds hm, toNat_timerDelay (hs.nonneg e.2 milliseconds hm)]
      show _ ≤ (s.poller.reading + delayMs).toNat
      rw [UInt64.toNat_add, Nat.mod_eq_of_lt (hrange (hs.current _ hcur).1)]
      omega

end TimerInv

namespace TimerInv

/-- The task that `start` adds. -/
theorem start {s : TimerRun} (hs : TimerInv s) {th : Thread} {milliseconds : Int32} {p : PollerLoop}
    (h : s.poller.step (.addDelayTask th s.poller.clock milliseconds true) = some p) (hstopped : s.delayTask = none)
    (hpos : 0 ≤ milliseconds) (hrange : s.poller.clock.toNat + milliseconds.toNatClampNeg < 2 ^ 64) :
    TimerInv ⟨p, some s.poller.handles.next, Function.update s.period s.poller.handles.next (some milliseconds)⟩ := by
  have hplaced := placedOnce_step hs.placed h
  have htime := clockSound_step hs.clock h
  obtain ⟨-, ⟨⟩⟩ := Option.ite_none_right_eq_some.1 h
  have hwait := s.poller.waiting_addDelayTask th s.poller.clock milliseconds true
  have hperiod : ∀ x, x ≠ s.poller.handles.next →
      Function.update s.period s.poller.handles.next (some milliseconds) x = s.period x :=
    fun x hx => Function.update_of_ne hx _ _
  have hself : Function.update s.period s.poller.handles.next (some milliseconds) s.poller.handles.next =
      some milliseconds := Function.update_self _ _ _
  have hruns : TimerRun.runs ⟨s.poller.addDelayTask th s.poller.clock milliseconds true, some s.poller.handles.next,
      Function.update s.period s.poller.handles.next (some milliseconds)⟩ = s.runs := by
    refine (runs_append rfl).trans (List.filterMap_congr fun ev hev => ?_)
    cases ev with
    | invoked x pass now =>
      have hne := (hs.invoked_old x pass now hev).ne
      simp only [PollerEvent.onTimer, hperiod x hne]
    | _ => rfl
  refine ⟨hplaced, htime, hs.below.create true, ?_, ?_, ?_, ?_, ?_, ?_, ?_, ?_, ?_⟩
  · intro x hx
    show x < s.poller.handles.next + 1
    by_cases hnew : x = s.poller.handles.next
    · omega
    · have hlt := hs.old x (hperiod x hnew ▸ hx)
      omega
  · intro x pass now hmem
    have hlt := hs.invoked_old x pass now (by simpa [PollerLoop.addDelayTask] using hmem)
    exact hlt.trans (Nat.lt_succ_self _)
  · intro x milliseconds' hm
    by_cases hnew : x = s.poller.handles.next
    · subst hnew
      obtain rfl := Option.some.inj (hself.symm.trans hm)
      exact hpos
    · exact hs.nonneg x milliseconds' (hperiod x hnew ▸ hm)
  · intro x hx hmem
    have hmem : x ∈ s.poller.handles.empty := hmem
    by_cases hnew : x = s.poller.handles.next
    · exact absurd (hs.below.empty_lt x hmem) (by omega)
    · exact hs.callable x (hperiod x hnew ▸ hx) hmem
  · rintro x ⟨⟩
    refine ⟨by simp, fun hmem => absurd (hs.below.cancelled_lt _ hmem) (lt_irrefl _),
      delayDeadline s.poller.clock milliseconds, Multiset.mem_add.2 (.inl ?_)⟩
    rw [hwait]
    exact Multiset.mem_cons_self _ _
  · intro x hx hcan
    by_cases hnew : x = s.poller.handles.next
    · rw [hnew]
    · have hcur := hs.unique x (hperiod x hnew ▸ hx) hcan
      rw [hstopped] at hcur
      cases hcur
  · intro e hcurrent hlock hx
    have hlt := hs.placed.lt_next e (Multiset.mem_add.2 (.inr (LoopPc.mem_walk_of_current hcurrent)))
    exact hs.locked e hcurrent hlock (hperiod e.2 hlt.ne ▸ hx)
  · intro e he hcur milliseconds' hm r hr
    have hnew : s.poller.handles.next = e.2 := Option.some.inj hcur
    rw [PollerLoop.pending, hwait, Multiset.cons_add] at he
    rcases Multiset.mem_cons.1 he with rfl | he
    · obtain rfl := Option.some.inj (hself.symm.trans hm)
      have hle := UInt64.le_iff_toNat_le.1 ((hs.reading_le_of_mem_runs (hruns ▸ hr)).trans hs.clock.reading_le)
      show _ ≤ (delayDeadline s.poller.clock milliseconds).toNat
      rw [toNat_delayDeadline hpos hrange]
      omega
    · have hlt := hs.placed.lt_next e (Multiset.mem_of_le s.poller.pending_le_entries he)
      omega
  · rw [hruns]
    exact hs.once

theorem stop {s : TimerRun} (hs : TimerInv s) {x : Nat} (hcur : s.delayTask = some x)
    (hunlocked : s.poller.pc.locked ≠ some x) {p : PollerLoop} (h : s.poller.step (.cancel x) = some p) :
    TimerInv { s with poller := p, delayTask := none } := by
  have hplaced := placedOnce_step hs.placed h
  have htime := clockSound_step hs.clock h
  obtain ⟨hlt, ⟨⟩⟩ := Option.ite_none_right_eq_some.1 h
  have hruns : (s.poller.events ++ [PollerEvent.cancelled x]).filterMap (PollerEvent.onTimer s.period) = s.runs := by
    exact runs_append rfl
  refine ⟨hplaced, htime, hs.below.cancel hlt, hs.old, ?_, hs.nonneg, hs.callable, nofun, ?_, ?_, fun _ _ => nofun, ?_⟩
  · exact fun y pass now hmem => hs.invoked_old y pass now (by simpa using hmem)
  · intro y hperiod hcan
    obtain ⟨hne, hcan'⟩ := not_or.1 (mt Finset.mem_insert.2 hcan)
    exact absurd (Option.some.inj (hcur.symm.trans (hs.unique y hperiod hcan'))).symm hne
  · intro e hcurrent hlock hperiod hmem
    rcases Finset.mem_insert.1 hmem with rfl | hmem
    · exact hunlocked hlock
    · exact hs.locked e hcurrent hlock hperiod hmem
  · show ((s.poller.events ++ [PollerEvent.cancelled x]).filterMap (PollerEvent.onTimer s.period)).Pairwise _
    rw [hruns]
    exact hs.once

end TimerInv

private theorem timerInv_poller {s : TimerRun} {p : PollerLoop} {a : PollerAction} (hs : TimerInv s)
    (hadmits : s.admits a = true) (hrange : s.Ranged (.poller a)) (hok : s.KeepsEntry (.poller a))
    (h : s.poller.step a = some p) : TimerInv { s with poller := p } := by
  have hplaced := placedOnce_step hs.placed h
  have htime := clockSound_step hs.clock h
  cases PollerLoop.step_effect h with
  | quiet _ _ hwait hwalk hahead hcurrent hlocked hreading hpasses hevents hclock hhandles =>
    have hentries : p.entries = s.poller.entries := by rw [PollerLoop.entries, hwait, hwalk]; rfl
    have hpending : p.pending = s.poller.pending := by rw [PollerLoop.pending, hwait, hahead]; rfl
    have hkeeps : KeepsHandles s.period s.poller.handles p.handles := by
      rcases hhandles with heq | ⟨hasFunction, heq⟩ <;> rw [heq]
      · exact .refl hs.below
      · exact .create hs.below hasFunction hs.old
    refine hs.keep hplaced htime hkeeps ?_ ?_ ?_ ?_ ?_
    · exact fun e he _ => ⟨e.1, hentries ▸ he⟩
    · exact fun e hc hl => (hlocked e.2 hl).imp_left fun hl => ⟨hcurrent ▸ hc, hl⟩
    · rw [hevents]
      exact fun x pass now hmem => (hs.invoked_old x pass now hmem).trans_le hkeeps.next_le
    · rw [hevents]
      rfl
    · exact fun e he => hs.spaced e (hpending ▸ he)
  | added th reading delayMs hasFunction _ hclock hwait hpc hreading hpasses hevents hsame hhandles =>
    have hkeeps : KeepsHandles s.period s.poller.handles p.handles := hhandles ▸ .create hs.below hasFunction hs.old
    have hpending : p.pending = (delayDeadline reading delayMs, s.poller.handles.next) ::ₘ s.poller.pending := by
      rw [PollerLoop.pending, hwait, hpc, Multiset.cons_add]
      rfl
    refine hs.keep hplaced htime hkeeps ?_ ?_ ?_ ?_ ?_
    · intro e he _
      refine ⟨e.1, ?_⟩
      rw [PollerLoop.entries, hwait, hpc, Multiset.cons_add]
      exact Multiset.mem_cons_of_mem he
    · rw [hpc]
      exact fun e hc hl => .inl ⟨hc, hl⟩
    · intro x pass now hmem
      rw [hevents] at hmem
      exact (hs.invoked_old x pass now (by simpa using hmem)).trans_le hkeeps.next_le
    · rw [hevents]
      exact TimerInv.runs_append rfl
    · intro e he hcur
      rw [hpending, Multiset.mem_cons] at he
      rcases he with rfl | he
      · exact absurd (hs.old _ (hs.current _ hcur).1) (lt_irrefl _)
      · exact hs.spaced e he hcur
  | cancelled x hlt =>
    -- the tasks of the timer are cancelled by `stop` only
    have hx : s.period x = none := of_decide_eq_true hadmits
    refine hs.keep hplaced htime (.cancel hs.below hlt hx) (fun e he _ => ⟨e.1, he⟩) (fun e hc hl => .inl ⟨hc, hl⟩)
      ?_ ?_ hs.spaced
    · exact fun y pass now hmem => hs.invoked_old y pass now (by simpa using hmem)
    · exact TimerInv.runs_append rfl
  | started x rest hpc =>
    have hentries := PollerLoop.entries_started (s.poller.events ++ [.started x]) hpc
    have hbefore : s.poller.pending = s.poller.entries := PollerLoop.pending_eq_entries (by rw [hpc]; rfl)
    refine hs.keep hplaced htime (.refl hs.below) (fun e he _ => ⟨e.1, hentries ▸ he⟩)
      (fun e hnone => absurd hnone (Option.some_ne_none e).symm) ?_ ?_ ?_
    · exact fun y pass now hmem => hs.invoked_old y pass now (by simpa using hmem)
    · exact TimerInv.runs_append rfl
    · intro e he
      refine hs.spaced e ?_
      rwa [PollerLoop.pending_eq_entries rfl, hentries, ← hbefore] at he
  | scheduled now hpc hle hclock =>
    have hentries := PollerLoop.entries_scheduled now (s.poller.passes + 1) hpc
    have hbefore : s.poller.pending = s.poller.entries := PollerLoop.pending_eq_entries (by rw [hpc]; rfl)
    refine hs.move hplaced htime rfl rfl rfl (fun e he _ => hentries ▸ he) fun e he => ?_
    rwa [PollerLoop.pending_eq_entries rfl, hentries, ← hbefore] at he
  | nothing now hpc hempty hle hclock =>
    exact hs.move hplaced htime rfl rfl (by rw [hpc]; rfl) (fun _ he _ => he) fun _ he => he
  | left copy hpc hlate =>
    have hentries := PollerLoop.entries_left hpc
    have hbefore : s.poller.pending = s.poller.entries := PollerLoop.pending_eq_entries (by rw [hpc]; rfl)
    refine hs.move hplaced htime rfl rfl rfl (fun e he _ => hentries ▸ he) fun e he => ?_
    rwa [PollerLoop.pending_eq_entries rfl, hentries, ← hbefore] at he
  | skipped e copy hpc hbag hvalid =>
    have hbefore : s.poller.pending = s.poller.entries := PollerLoop.pending_eq_entries (by rw [hpc]; rfl)
    refine hs.drop hplaced htime rfl rfl rfl e (PollerLoop.entries_skipped hpc hbag) ?_ ?_
    · rw [hbefore, PollerLoop.pending_eq_entries rfl, PollerLoop.entries_skipped hpc hbag]
    · intro hcan
      by_contra hempty
      exact absurd (TaskHandles.isValid_iff.2 ⟨hcan, hempty⟩) (by simp [hvalid])
  | tested e copy hpc hbag hdue hvalid =>
    have hentries := PollerLoop.entries_tested hpc hbag
    have hbefore : s.poller.pending = s.poller.entries := PollerLoop.pending_eq_entries (by rw [hpc]; rfl)
    refine hs.move hplaced htime rfl rfl rfl (fun e' he' _ => hentries ▸ he') fun e' he' => ?_
    rwa [PollerLoop.pending_eq_entries rfl, hentries, ← hbefore] at he'
  | invoked e copy hpc =>
    have hother := PollerLoop.entries_lockedDelay hpc
    have hbefore : s.poller.pending = s.poller.entries := PollerLoop.pending_eq_entries (by rw [hpc]; rfl)
    refine hs.call hplaced htime e (s.poller.waiting + copy.bag) hother (by rw [hpc]; rfl) ?_
      (by rw [hpc]; rfl) rfl (PollerLoop.entries_invoked _ hpc) ?_ rfl rfl
    · rw [hpc]
      exact Multiset.mem_cons_self e copy.bag
    · intro e' he'
      have he' : e' ∈ s.poller.waiting + copy.bag := by
        rwa [PollerLoop.pending_runningDelay rfl, PollerLoop.waiting_goTo _ (by rw [hpc]; rfl)] at he'
      rw [hbefore, hother]
      exact ⟨Multiset.mem_cons_of_mem he', he'⟩
  | notCalled e copy hpc hcalls =>
    have hbefore : s.poller.pending = s.poller.entries := PollerLoop.pending_eq_entries (by rw [hpc]; rfl)
    refine hs.drop hplaced htime rfl rfl rfl e (PollerLoop.entries_notCalled hpc) ?_ ?_
    · rw [hbefore, PollerLoop.pending_eq_entries rfl, PollerLoop.entries_notCalled hpc]
    · intro hcan
      simpa [TaskHandles.calls, hcan] using hcalls
  | returned delayMs e copy hpc =>
    have hrunning : s.poller.pc.running = some e := by rw [hpc]; rfl
    have hperiod : s.runningPeriod = s.period e.2 := by rw [TimerRun.runningPeriod, hrunning]; rfl
    have hdelay : ∀ milliseconds, s.period e.2 = some milliseconds → delayMs = timerDelay milliseconds := by
      intro milliseconds hm
      have hadmits : (s.runningPeriod.map timerDelay).getD delayMs = delayMs := of_decide_eq_true hadmits
      rw [hperiod, hm] at hadmits
      exact hadmits.symm
    have hentries := PollerLoop.entries_returned delayMs
      (s.poller.events ++ [.returned e.2 s.poller.passes s.poller.reading delayMs]) hpc
    refine hs.finish hplaced htime e (s.poller.waiting + copy.bag) (PollerLoop.entries_runningDelay hpc) hentries ?_
      rfl rfl rfl hdelay (hperiod ▸ hrange) ?_
    · intro e' he'
      rw [PollerLoop.pending_eq_entries rfl, hentries] at he'
      rw [PollerLoop.pending_runningDelay hpc]
      split at he'
      · exact (Multiset.mem_cons.1 he').symm
      · exact .inl he'
    · intro hcur
      obtain ⟨hne, -, -⟩ := hs.current e.2 hcur
      obtain ⟨milliseconds, hm⟩ := Option.ne_none_iff_exists'.1 hne
      have hzero : milliseconds ≠ 0 := by
        rintro rfl
        exact hok (hperiod.trans hm) (by rw [hcur, hrunning]; rfl)
      rw [hdelay milliseconds hm]
      exact TimerInv.timerDelay_pos (hs.nonneg e.2 milliseconds hm) hzero
  | thrown e copy hpc =>
    have hwait : ({ s.poller with pc := .stopped } : PollerLoop).waiting = s.poller.waiting :=
      PollerLoop.waiting_goTo _ (by rw [hpc]; rfl)
    refine hs.move hplaced htime rfl rfl rfl ?_ ?_
    · intro e' he' hcur
      rcases Multiset.mem_add.1 he' with he' | he'
      · exact Multiset.mem_add.2 (.inl (hwait ▸ he'))
      · -- what the pass loses here is not the entry of the timer
        exact absurd (Multiset.mem_map.2 ⟨e', he', hcur.symm⟩) hok
    · intro e' he'
      refine Multiset.mem_add.2 (.inl ?_)
      have he' : e' ∈ s.poller.waiting + 0 := by rwa [PollerLoop.pending, hwait] at he'
      rwa [Multiset.add_zero] at he'

private theorem timerInv_step {s t : TimerRun} {a : TimerAction} (hs : TimerInv s) (hrange : s.Ranged a)
    (hok : s.KeepsEntry a) (h : s.step a = some t) : TimerInv t := by
  cases a with
  | start th milliseconds =>
    simp only [TimerRun.step] at h
    split at h
    · rename_i hstopped
      obtain ⟨p, hp, rfl⟩ := Option.map_eq_some_iff.1 h
      exact hs.start hp hstopped hrange.1 hrange.2
    · obtain ⟨-, ⟨⟩⟩ := Option.ite_none_right_eq_some.1 h
      exact hs
  | stop th =>
    obtain ⟨-, h⟩ := Option.ite_none_right_eq_some.1 h
    split at h
    · rename_i x hcur
      obtain ⟨p, hp, rfl⟩ := Option.map_eq_some_iff.1 h
      refine hs.stop hcur (fun hlock => ?_) hp
      rcases hok with hnone | hne
      · rw [hcur] at hnone
        cases hnone
      · exact hne (hcur.trans hlock.symm)
    · obtain rfl := Option.some.inj h
      exact hs
  | poller a =>
    obtain ⟨hadmits, p, hp, rfl⟩ := TimerRun.step_poller h
    exact timerInv_poller hs hadmits hrange hok hp

private theorem inStep_of_timerInv {s : TimerRun} {a : TimerAction} (hs : TimerInv s) (hrange : s.Ranged a) :
    s.InStep a := by
  constructor
  · rintro rfl e copy hpc hperiod
    exact hs.unique e.2 hperiod (hs.locked e (by rw [hpc]; rfl) (by rw [hpc]; rfl) hperiod)
  · rintro th milliseconds t rfl h
    simp only [TimerRun.step] at h
    split at h
    · rename_i hstopped
      obtain ⟨p, hp, rfl⟩ := Option.map_eq_some_iff.1 h
      exact (hs.start hp hstopped hrange.1 hrange.2).card_live rfl
    · rename_i x hcur
      obtain ⟨-, ⟨⟩⟩ := Option.ite_none_right_eq_some.1 h
      exact hs.card_live hcur

/-- As long as the entry of a started timer is not dropped, `delay_task_` and the poller agree on whether the timer is
started, `on_timer_` is called once in a period and never after `stop`, and `start` arms the timer. -/
theorem timer_has_one_schedule {as : List TimerAction} {s : TimerRun}
    (h : Transition.exec TimerRun.step .init as = some s)
    (hrange : Transition.Along TimerRun.step TimerRun.Ranged .init as)
    (hok : Transition.Along TimerRun.step TimerRun.KeepsEntry .init as) :
    s.OneSchedule ∧ Transition.Along TimerRun.step TimerRun.InStep .init as := by
  have hboth := Transition.along_and hrange hok
  have hinv : ∀ s a t, TimerInv s → s.Ranged a ∧ s.KeepsEntry a → s.step a = some t → TimerInv t :=
    fun _ _ _ hs hok h => timerInv_step hs hok.1 hok.2 h
  refine ⟨(Transition.exec_invariant_along hinv .init hboth h).oneSchedule, ?_⟩
  exact Transition.along_of_invariant hinv (fun _ _ _ hs hok _ => inStep_of_timerInv hs hok.1) .init hboth h

/-- The timer is started, fires twice, stops itself in the second call, and is started again. -/
def restarted : List TimerAction :=
  [.poller .assignThread, .poller .enterLoop, .start (.producer 0) 10, .poller .swapTasks, .poller .nextTask,
    .poller .nextTask, .poller (.tick 10), .poller (.scheduleDelayTask 10), .poller .nextDelay, .poller .lockDelay,
    .poller .callDelay, .poller (.finishDelay 10), .poller .nextDelay, .poller (.tick 20),
    .poller (.scheduleDelayTask 20), .poller .nextDelay, .poller .lockDelay, .poller .callDelay, .stop .poller,
    .poller (.finishDelay 10), .poller .nextDelay, .start (.producer 0) 5]

theorem timer_has_one_schedule_restarted :
    ∃ s, Transition.exec TimerRun.step .init restarted = some s ∧ s.runs = [(10, 10), (10, 20)] ∧ s.OneSchedule ∧
      Transition.Along TimerRun.step TimerRun.InStep .init restarted :=
  ⟨_, rfl, rfl, timer_has_one_schedule rfl (by decide) (by decide)⟩

/-- A timer with period zero: its callback returns 0, and the poller drops the task. -/
def startZero : List TimerAction :=
  [.poller .assignThread, .poller .enterLoop, .start (.producer 0) 0, .poller .swapTasks, .poller .nextTask,
    .poller .nextTask, .poller (.scheduleDelayTask 0), .poller .nextDelay, .poller .lockDelay, .poller .callDelay,
    .poller (.finishDelay 0), .poller .nextDelay]

/-- `delay_task_` still holds the task that the poller has dropped, and starting the timer again does nothing. -/
theorem not_one_schedule_startZero :
    ∃ s, Transition.exec TimerRun.step .init startZero = some s ∧
      Transition.Along TimerRun.step TimerRun.Ranged .init startZero ∧ s.delayTask = some 0 ∧ s.live = 0 ∧
      ¬ s.OneSchedule ∧ s.step (.start (.producer 0) 100) = some s := by
  refine ⟨_, rfl, by decide, rfl, rfl, fun h => ?_, rfl⟩
  exact absurd (h.started_iff.1 nofun) (by decide)

end AvcTool
