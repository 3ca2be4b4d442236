import Mathlib.Logic.Function.Basic
import AvcTool.Lib.Transition
import AvcTool.Thread.ThreadLoadCounter

/-!
# `load` against the measured thread

`onSleep`, `onWakeup` and `load` read the clock before they take the lock.  Here the two are separate steps, of the
measured thread and of any number of threads that ask for the load.

The timestamps of the counter stay in order with the state flag (`StampsInOrder`), so `load` measures from the older
of the two.  It wraps if both are newer than its clock reading, that is, if the measured thread has gone to sleep
and woken up in between (`NotOvertaken`); otherwise every subtraction is safe and the load is a percentage.
-/

namespace AvcTool

namespace ThreadLoadCounter

/-- The counter, the clock, the reading of the measured thread on its way into `onSleep` (`true`) or `onWakeup`, and
the readings of the threads on their way into `load`. -/
structure LoadRace where
  counter : ThreadLoadCounter
  clock : Nat
  switching : Option (Bool × Nat)
  loading : Nat → Option Nat

inductive RaceAction where
  | readSwitch (sleep : Bool) (now : Nat)
  | lockSwitch
  | readLoad (thread : Nat) (now : Nat)
  | lockLoad (thread : Nat)
  deriving DecidableEq

namespace LoadRace

def init (maxCount maxUsec : Int32) (current : Nat) : LoadRace :=
  ⟨create maxCount maxUsec current, current, none, fun _ => none⟩

def step (s : LoadRace) : RaceAction → Option LoadRace
  | .readSwitch sleep now =>
    if s.clock ≤ now ∧ now < 2 ^ 64 ∧ s.switching = none then
      some { s with clock := now, switching := some (sleep, now) }
    else none
  | .lockSwitch =>
    match s.switching with
    | none => none
    | some (true, current) => some { s with counter := s.counter.onSleep current, switching := none }
    | some (false, current) => some { s with counter := s.counter.onWakeup current, switching := none }
  | .readLoad thread now =>
    if s.clock ≤ now ∧ now < 2 ^ 64 ∧ s.loading thread = none then
      some { s with clock := now, loading := Function.update s.loading thread (some now) }
    else none
  | .lockLoad thread =>
    (s.loading thread).map fun current =>
      { s with counter := (s.counter.load current).1, loading := Function.update s.loading thread none }

end LoadRace

/-- No subtraction of the eviction loop wraps. -/
def EvictSafe (maxUsec : Nat) : List TimeRecord → Times → Nat → Prop
  | [], _, _ => True
  | r :: rs, t, totalTime =>
    totalTime > maxUsec →
      r.time ≤ totalTime ∧ r.time ≤ (if r.sleep then t.sleepTime else t.runtime) ∧
        EvictSafe maxUsec rs (t.sub r.sleep r.time) (subU64 totalTime r.time)

/-- The locked section of `load` wraps nowhere and returns a percentage. -/
def LoadInRange (current : Nat) (c : ThreadLoadCounter) : Prop :=
  c.progressStamp ≤ current ∧
    EvictSafe (toUnsigned c.maxUsec) c.timeRecords (c.allTimes current)
      (addU64 (c.allTimes current).runtime (c.allTimes current).sleepTime) ∧
    (c.load current).2 ≤ 100

/-- The subtractions of a locked section do not wrap, and a load is in range. -/
def StepInRange (s : LoadRace) : RaceAction → Prop
  | .lockSwitch => ∀ sleep current, s.switching = some (sleep, current) →
      s.counter.lastSleepTime ≤ current ∧ s.counter.lastWakeupTime ≤ current
  | .lockLoad thread => ∀ current, s.loading thread = some current → LoadInRange current s.counter
  | _ => True

/-- A `load` that gets the lock has not been overtaken by both an `onSleep` and an `onWakeup` with later readings of the
clock, and what it adds up fits into 64 bits. -/
def NotOvertaken (s : LoadRace) : RaceAction → Prop
  | .lockLoad thread => ∀ current ∈ s.loading thread,
      (s.counter.lastSleepTime ≤ current ∨ s.counter.lastWakeupTime ≤ current) ∧ s.counter.measured current < 2 ^ 64
  | _ => True

instance decidableNotOvertaken : ∀ s a, Decidable (NotOvertaken s a)
  | s, .lockLoad thread => inferInstanceAs (Decidable (∀ current ∈ s.loading thread,
      (s.counter.lastSleepTime ≤ current ∨ s.counter.lastWakeupTime ≤ current) ∧ s.counter.measured current < 2 ^ 64))
  | _, .readSwitch _ _ => isTrue trivial
  | _, .lockSwitch => isTrue trivial
  | _, .readLoad _ _ => isTrue trivial

/-! ### The locked section of `load` -/

private theorem evictSafe_plus (maxUsec x : Nat) (t : Times) (hx : t.runtime + t.sleepTime = x) (rs : List TimeRecord) :
    EvictSafe maxUsec rs (plus t rs) (x + totalOf rs) := by
  induction rs with
  | nil => trivial
  | cons r rs ih =>
    intro _
    have htotal : r.time ≤ x + totalOf (r :: rs) := by
      rw [totalOf_cons]
      omega
    refine ⟨htotal, ?_, ?_⟩
    · unfold plus
      simp only [timeOf_cons]
      cases r.sleep <;> simp only [Bool.false_eq_true, ↓reduceIte] <;> omega
    · rw [plus_sub, subU64_of_le htotal, totalOf_cons, show x + (r.time + totalOf rs) - r.time = x + totalOf rs by omega]
      exact ih

private theorem percent_le (runtime totalTime : Nat) (h : runtime ≤ totalTime) : runtime * 100 / totalTime ≤ 100 := by
  rcases Nat.eq_zero_or_pos totalTime with rfl | hpos
  · simp
  · rw [Nat.div_le_iff_le_mul_add_pred hpos]
    have hmul : runtime * 100 ≤ totalTime * 100 := Nat.mul_le_mul_right 100 h
    omega

private theorem loadInRange_of_measured {current : Nat} {c : ThreadLoadCounter} (hle : c.progressStamp ≤ current)
    (hlt : c.measured current < 2 ^ 64) : LoadInRange current c := by
  have hsum := progress_sum (show current - c.progressStamp < 2 ^ 64 by unfold measured at hlt; omega)
  have hall := plus_sum (c.progress current) c.timeRecords
  refine ⟨hle, ?_, ?_⟩
  · rw [allTimes_eq hle hlt, addU64_of_lt (by unfold measured at hlt; omega), hall, hsum]
    exact evictSafe_plus _ _ _ hsum _
  · unfold load
    rw [loadTotals_eq hle hlt rfl]
    simp only
    split
    · exact Nat.zero_le _
    · apply percent_le
      have hkept := plus_sum (c.progress current)
        (keep (toUnsigned c.maxUsec) (current - c.progressStamp) c.timeRecords)
      omega

/-! ### The timestamps -/

/-- The timestamps are not in the future, and that of the last switch is the newer one. -/
structure StampsInOrder (s : LoadRace) : Prop where
  sleep_le : s.counter.lastSleepTime ≤ s.clock
  wakeup_le : s.counter.lastWakeupTime ≤ s.clock
  switching : ∀ sleep current, s.switching = some (sleep, current) →
    s.counter.lastSleepTime ≤ current ∧ s.counter.lastWakeupTime ≤ current ∧ current ≤ s.clock
  stamp : s.counter.progressStamp ≤ s.counter.lastSwitch

theorem StampsInOrder.init (maxCount maxUsec : Int32) (current : Nat) :
    StampsInOrder (.init maxCount maxUsec current) where
  sleep_le := le_refl _
  wakeup_le := le_refl _
  switching := nofun
  stamp := le_refl _

private theorem step_stampsInOrder {s t : LoadRace} {a : RaceAction} (h : StampsInOrder s) (hstep : s.step a = some t) :
    StampsInOrder t := by
  cases a with
  | readSwitch sleep now =>
    obtain ⟨⟨hclock, -, -⟩, ⟨⟩⟩ := Option.ite_none_right_eq_some.1 hstep
    refine ⟨le_trans h.sleep_le hclock, le_trans h.wakeup_le hclock, ?_, h.stamp⟩
    rintro _ _ ⟨⟩
    exact ⟨le_trans h.sleep_le hclock, le_trans h.wakeup_le hclock, le_refl _⟩
  | lockSwitch =>
    rw [LoadRace.step] at hstep
    split at hstep
    · cases hstep
    · rename_i current hs
      obtain rfl := Option.some.inj hstep
      obtain ⟨-, hwakeup, hclock⟩ := h.switching _ _ hs
      exact ⟨hclock, h.wakeup_le, nofun, hwakeup⟩
    · rename_i current hs
      obtain rfl := Option.some.inj hstep
      obtain ⟨hsleep, -, hclock⟩ := h.switching _ _ hs
      exact ⟨h.sleep_le, hclock, nofun, hsleep⟩
  | readLoad thread now =>
    obtain ⟨⟨hclock, -, -⟩, ⟨⟩⟩ := Option.ite_none_right_eq_some.1 hstep
    refine ⟨le_trans h.sleep_le hclock, le_trans h.wakeup_le hclock, fun sleep current hs => ?_, h.stamp⟩
    obtain ⟨hsleep, hwakeup, hle⟩ := h.switching _ _ hs
    exact ⟨hsleep, hwakeup, le_trans hle hclock⟩
  | lockLoad thread =>
    obtain ⟨current, -, rfl⟩ := Option.map_eq_some_iff.1 hstep
    exact ⟨h.sleep_le, h.wakeup_le, h.switching, h.stamp⟩

/-- The timestamp that `load` measures from is the older one. -/
private theorem StampsInOrder.progressStamp_le {s : LoadRace} (h : StampsInOrder s) {current : Nat}
    (hle : s.counter.lastSleepTime ≤ current ∨ s.counter.lastWakeupTime ≤ current) :
    s.counter.progressStamp ≤ current := by
  have hstamp := h.stamp
  unfold progressStamp lastSwitch at hstamp
  unfold progressStamp
  by_cases hs : s.counter.sleeping = true
  · simp only [if_pos hs] at hstamp ⊢
    omega
  · simp only [if_neg hs] at hstamp ⊢
    omega

/-- As long as no `load` is overtaken, nothing wraps and every load is a percentage. -/
theorem along_stepInRange {maxCount maxUsec : Int32} {current : Nat} {as : List RaceAction} {s : LoadRace}
    (hrun : Transition.exec LoadRace.step (.init maxCount maxUsec current) as = some s)
    (hok : Transition.Along LoadRace.step NotOvertaken (.init maxCount maxUsec current) as) :
    Transition.Along LoadRace.step StepInRange (.init maxCount maxUsec current) as := by
  refine Transition.along_of_invariant (fun _ _ _ h _ hstep => step_stampsInOrder h hstep) ?_
    (StampsInOrder.init maxCount maxUsec current) hok hrun
  intro s a t h hovertaken _
  cases a with
  | lockSwitch =>
    intro sleep current hs
    obtain ⟨hsleep, hwakeup, -⟩ := h.switching sleep current hs
    exact ⟨hsleep, hwakeup⟩
  | lockLoad thread =>
    intro current hs
    obtain ⟨hle, hlt⟩ := hovertaken current hs
    exact loadInRange_of_measured (h.progressStamp_le hle) hlt
  | readSwitch sleep now => trivial
  | readLoad thread now => trivial

/-- The run of one `load` by thread 7 that `onSleep` overtakes. -/
def overtakenBySleep : List RaceAction :=
  [.readSwitch true 5, .lockSwitch, .readSwitch false 8, .lockSwitch, .readLoad 7 10, .readSwitch true 20, .lockSwitch,
    .lockLoad 7]

theorem along_stepInRange_overtakenBySleep :
    Transition.Along LoadRace.step StepInRange (.init 32 2000000 0) overtakenBySleep :=
  along_stepInRange (s := (Transition.exec LoadRace.step (.init 32 2000000 0) overtakenBySleep).getD
    (.init 32 2000000 0)) rfl (by decide)

/-- Between the clock reading 10 of a `load` and its lock, the thread wakes up at 20 and goes to sleep at 30: the
subtraction `10 - 20` wraps. -/
theorem not_stepInRange_overtaken :
    (Transition.exec LoadRace.step (.init 32 2000000 0) [.readSwitch true 5, .lockSwitch, .readLoad 7 10,
        .readSwitch false 20, .lockSwitch, .readSwitch true 30, .lockSwitch, .lockLoad 7]).isSome ∧
      ¬ Transition.Along LoadRace.step StepInRange (.init 32 2000000 0) [.readSwitch true 5, .lockSwitch,
        .readLoad 7 10, .readSwitch false 20, .lockSwitch, .readSwitch true 30, .lockSwitch, .lockLoad 7] := by
  refine ⟨by decide, fun h => ?_⟩
  change Transition.Along LoadRace.step StepInRange (.init 32 2000000 0) ([.readSwitch true 5, .lockSwitch,
    .readLoad 7 10, .readSwitch false 20, .lockSwitch, .readSwitch true 30, .lockSwitch] ++ [.lockLoad 7]) at h
  have hlast := Transition.ok_of_along_append h rfl
  have hstamp : 20 ≤ 10 := (hlast 10 rfl).1
  omega

end ThreadLoadCounter

end AvcTool
