import AvcTool.Lib.Transition
import AvcTool.Thread.ThreadLoadCounter

/-!
# Load accounting against real time

A thread calls `onSleep` and `onWakeup` in turn, and anybody may ask for the `load`; every call is atomic and takes
its time from one clock.  `CounterRun` keeps, besides the counter, the history of the switches; `spent` measures
how much of a stretch of time the thread was asleep or running according to this history.

The records of the counter are intervals of the history, from some switch on (`RecordsHistory`).  The interval in
progress, however, is measured from `last_wakeup_time_` while the thread sleeps and from `last_sleep_time_` while
it runs, which is where the interval before it began.  The totals of a `load` agree with the history if that
interval is empty (`LoadMeasuresProgress`, `along_accountsRealTime`).
-/

namespace AvcTool

namespace ThreadLoadCounter

/-! ### History -/

/-- A call of `onSleep` (`sleep = true`) or `onWakeup`, and its time. -/
structure Switch where
  sleep : Bool
  time : Nat
  deriving DecidableEq

/-- The time between `i` and `now` that was spent asleep, or running; the switches are listed from the last one back.
A thread is asleep from `onSleep` to the next `onWakeup`. -/
def spent (sleep : Bool) (i : Nat) : Nat → List Switch → Nat
  | now, [] => if sleep then 0 else now - i
  | now, w :: ws => (if w.sleep = sleep then now - max i w.time else 0) + spent sleep i w.time ws

/-- The switches happened in order, and not after `now`. -/
def Ordered : Nat → List Switch → Prop
  | _, [] => True
  | now, w :: ws => w.time ≤ now ∧ Ordered w.time ws

/-- The completed intervals, from the last one back. -/
def intervals : List Switch → List TimeRecord
  | w :: v :: ws => ⟨v.sleep, w.time - v.time⟩ :: intervals (v :: ws)
  | _ => []

inductive CounterCall where
  | onSleep (now : Nat)
  | onWakeup (now : Nat)
  | load (now : Nat)
  deriving DecidableEq

/-- A counter, the clock at its last call, and the history of the thread since the counter was created. -/
structure CounterRun where
  counter : ThreadLoadCounter
  created : Nat
  clock : Nat
  switches : List Switch
  deriving DecidableEq

def CounterRun.init (maxCount maxUsec : Int32) (current : Nat) : CounterRun :=
  ⟨create maxCount maxUsec current, current, current, []⟩

/-- Whether the thread sleeps according to its history. -/
def CounterRun.asleep (r : CounterRun) : Bool := (r.switches.head?.map Switch.sleep).getD false

/-- One call.  The clock does not go back, and `onSleep` and `onWakeup` alternate, `onSleep` first. -/
def CounterRun.step (r : CounterRun) : CounterCall → Option CounterRun
  | .onSleep now =>
    if r.clock ≤ now ∧ now < 2 ^ 64 ∧ r.asleep = false then
      some { r with counter := r.counter.onSleep now, clock := now, switches := ⟨true, now⟩ :: r.switches }
    else none
  | .onWakeup now =>
    if r.clock ≤ now ∧ now < 2 ^ 64 ∧ r.asleep = true then
      some { r with counter := r.counter.onWakeup now, clock := now, switches := ⟨false, now⟩ :: r.switches }
    else none
  | .load now =>
    if r.clock ≤ now ∧ now < 2 ^ 64 then some { r with counter := (r.counter.load now).1, clock := now } else none

/-- The totals of a `load` at the time `now` are the times spent since some instant. -/
def AccountsRealTime (r : CounterRun) (now : Nat) : Prop :=
  ∃ i ≤ now, (r.counter.loadTotals now).2.1.sleepTime = spent true i now r.switches ∧
    (r.counter.loadTotals now).2.1.runtime = spent false i now r.switches ∧
    (r.counter.loadTotals now).2.1.runtime + (r.counter.loadTotals now).2.1.sleepTime = now - i

/-- Every `load` accounts for real time. -/
def CallAccounts (r : CounterRun) : CounterCall → Prop
  | .load now => AccountsRealTime r now
  | _ => True

/-- A `load` finds that the two timestamps agree, and not before the first `onSleep` unless at the time of creation. -/
def LoadMeasuresProgress (r : CounterRun) : CounterCall → Prop
  | .load now =>
    r.counter.lastSleepTime = r.counter.lastWakeupTime ∧ (r.switches = [] → now = r.created)
  | _ => True

instance decidableLoadMeasuresProgress : ∀ r a, Decidable (LoadMeasuresProgress r a)
  | r, .load now => inferInstanceAs (Decidable (r.counter.lastSleepTime = r.counter.lastWakeupTime ∧
      (r.switches = [] → now = r.created)))
  | _, .onSleep _ => isTrue trivial
  | _, .onWakeup _ => isTrue trivial

/-! ### Time spent -/

theorem Ordered.mono {t now : Nat} {ws : List Switch} (h : Ordered t ws) (hle : t ≤ now) : Ordered now ws := by
  cases ws with
  | nil => trivial
  | cons w ws => exact ⟨le_trans h.1 hle, h.2⟩

private theorem spent_eq_zero {sleep : Bool} {i now : Nat} {ws : List Switch} (h : Ordered now ws) (hi : now ≤ i) :
    spent sleep i now ws = 0 := by
  induction ws generalizing now with
  | nil =>
    have hzero : now - i = 0 := by omega
    simp only [spent, hzero, ite_self]
  | cons w ws ih =>
    have hzero : now - max i w.time = 0 := by omega
    obtain ⟨hw, hws⟩ := h
    simp only [spent, hzero, ite_self, ih hws (by omega)]

private theorem spent_add {i now : Nat} {ws : List Switch} (h : Ordered now ws) :
    spent false i now ws + spent true i now ws = now - i := by
  induction ws generalizing now with
  | nil => simp [spent]
  | cons w ws ih =>
    obtain ⟨hw, hws⟩ := h
    have hrest := ih hws
    simp only [spent]
    cases w.sleep <;> simp only [Bool.false_eq_true, Bool.true_eq_false, ↓reduceIte] <;> omega

/-- The intervals from some switch on are the time spent since that switch. -/
private theorem spent_of_prefix {w : Switch} {ws : List Switch} {now : Nat} (h : Ordered now (w :: ws))
    {rs : List TimeRecord} (hrs : rs <+: intervals (w :: ws)) :
    ∃ i ≤ w.time, ∀ sleep, spent sleep i now (w :: ws) =
      (if w.sleep = sleep then now - w.time else 0) + timeOf sleep rs := by
  induction ws generalizing w now rs with
  | nil =>
    obtain rfl : rs = [] := List.prefix_nil.1 hrs
    refine ⟨w.time, le_refl _, fun sleep => ?_⟩
    rw [spent, spent_eq_zero h.2 (le_refl w.time), Nat.max_self]
    rfl
  | cons v ws ih =>
    rcases rs with _ | ⟨r, rs⟩
    · refine ⟨w.time, le_refl _, fun sleep => ?_⟩
      rw [spent, spent_eq_zero h.2 (le_refl w.time), Nat.max_self]
      rfl
    · rw [intervals, List.cons_prefix_cons] at hrs
      obtain ⟨rfl, hrs⟩ := hrs
      obtain ⟨i, hi, hspent⟩ := ih h.2 hrs
      have hv : v.time ≤ w.time := h.2.1
      refine ⟨i, by omega, fun sleep => ?_⟩
      have hmax : max i w.time = w.time := by omega
      rw [spent, hspent sleep, timeOf_cons, hmax]

/-! ### The records are a piece of the history -/

private theorem timeOf_reverse (sleep : Bool) (rs : List TimeRecord) : timeOf sleep rs.reverse = timeOf sleep rs := by
  induction rs with
  | nil => rfl
  | cons r rs ih =>
    have hone : timeOf sleep [r] = if r.sleep = sleep then r.time else 0 := rfl
    rw [List.reverse_cons, timeOf_append, hone, timeOf_cons, ih]
    omega

/-- How a counter matches the history of its thread. -/
structure RecordsHistory (r : CounterRun) : Prop where
  bounded : r.clock < 2 ^ 64
  ordered : Ordered r.clock r.switches
  fresh : r.switches = [] → r.counter.sleeping = true ∧ r.counter.lastWakeupTime = r.created ∧ r.created ≤ r.clock
  last : ∀ w ∈ r.switches.head?, w.sleep = r.counter.sleeping ∧ w.time = r.counter.lastSwitch
  records : r.counter.timeRecords.reverse <+: intervals r.switches

theorem RecordsHistory.init {maxCount maxUsec : Int32} {current : Nat} (h : current < 2 ^ 64) :
    RecordsHistory (.init maxCount maxUsec current) where
  bounded := h
  ordered := trivial
  fresh _ := ⟨rfl, rfl, le_refl _⟩
  last := by simp [CounterRun.init]
  records := List.nil_prefix

private theorem pushRecord_prefix {c : ThreadLoadCounter} {is : List TimeRecord} (h : c.timeRecords.reverse <+: is)
    (r : TimeRecord) : (c.pushRecord r).reverse <+: r :: is := by
  have hall : (c.timeRecords ++ [r]).reverse <+: r :: is := by
    rw [List.reverse_append]
    exact (List.prefix_cons_inj r).2 h
  unfold pushRecord
  split
  · exact (List.reverse_prefix.2 (List.tail_suffix _)).trans hall
  · exact hall

theorem evict_suffix (maxUsec : Nat) (rs : List TimeRecord) (t : Times) (totalTime : Nat) :
    (evict maxUsec rs t totalTime).1 <:+ rs := by
  induction rs generalizing t totalTime with
  | nil => exact List.suffix_refl _
  | cons r rs ih =>
    rw [evict]
    split
    · exact (ih _ _).trans (List.suffix_cons r rs)
    · exact List.suffix_refl _

/-- The interval that a switch completes has been in progress since the last switch. -/
private theorem RecordsHistory.inProgress {r : CounterRun} (h : RecordsHistory r) {w : Switch} {ws : List Switch}
    (hws : r.switches = w :: ws) :
    w.sleep = r.counter.sleeping ∧ w.time = r.counter.lastSwitch ∧ w.time ≤ r.clock ∧
      r.counter.timeRecords.reverse <+: intervals (w :: ws) := by
  obtain ⟨hsleep, htime⟩ := h.last w (by rw [hws]; rfl)
  have ho := h.ordered
  have hrecords := h.records
  rw [hws] at ho hrecords
  exact ⟨hsleep, htime, ho.1, hrecords⟩

private theorem RecordsHistory.complete {r : CounterRun} (h : RecordsHistory r) {now : Nat} (hclock : r.clock ≤ now)
    {w : Switch} {ws : List Switch} (hws : r.switches = w :: ws) (sleep : Bool) :
    (r.counter.pushRecord ⟨r.counter.sleeping, subU64 now r.counter.lastSwitch⟩).reverse <+:
      intervals (⟨sleep, now⟩ :: r.switches) := by
  obtain ⟨hsleep, htime, hle, hrecords⟩ := h.inProgress hws
  rw [hws, intervals, hsleep, ← htime, subU64_of_le (le_trans hle hclock)]
  exact pushRecord_prefix hrecords _

/-- The thread falls asleep or wakes up. -/
theorem RecordsHistory.switch {r : CounterRun} (h : RecordsHistory r) {now : Nat} (hclock : r.clock ≤ now)
    (hnow : now < 2 ^ 64) {c : ThreadLoadCounter} {sleep : Bool} (hsleep : sleep = c.sleeping)
    (hlast : now = c.lastSwitch) (hrecords : c.timeRecords.reverse <+: intervals (⟨sleep, now⟩ :: r.switches)) :
    RecordsHistory { r with counter := c, clock := now, switches := ⟨sleep, now⟩ :: r.switches } where
  bounded := hnow
  ordered := ⟨le_refl _, h.ordered.mono hclock⟩
  fresh := nofun
  last := by
    rintro w ⟨⟩
    exact ⟨hsleep, hlast⟩
  records := hrecords

theorem RecordsHistory.onSleep {r : CounterRun} (h : RecordsHistory r) {now : Nat} (hclock : r.clock ≤ now)
    (hnow : now < 2 ^ 64) (hasleep : r.asleep = false) :
    RecordsHistory { r with
      counter := r.counter.onSleep now, clock := now, switches := ⟨true, now⟩ :: r.switches } := by
  refine h.switch hclock hnow rfl rfl ?_
  cases hws : r.switches with
  | nil =>
    have hrecords := h.records
    rw [hws] at hrecords
    simpa [ThreadLoadCounter.onSleep, (h.fresh hws).1, intervals] using hrecords
  | cons w ws =>
    have hw : w.sleep = false := by simpa [CounterRun.asleep, hws] using hasleep
    have hc : r.counter.sleeping = false := (h.inProgress hws).1.symm.trans hw
    rw [onSleep_of_running hc, ← hws]
    exact h.complete hclock hws true

theorem RecordsHistory.onWakeup {r : CounterRun} (h : RecordsHistory r) {now : Nat} (hclock : r.clock ≤ now)
    (hnow : now < 2 ^ 64) (hasleep : r.asleep = true) :
    RecordsHistory { r with
      counter := r.counter.onWakeup now, clock := now, switches := ⟨false, now⟩ :: r.switches } := by
  refine h.switch hclock hnow rfl rfl ?_
  cases hws : r.switches with
  | nil => simp [CounterRun.asleep, hws] at hasleep
  | cons w ws =>
    have hw : w.sleep = true := by simpa [CounterRun.asleep, hws] using hasleep
    have hc : r.counter.sleeping = true := (h.inProgress hws).1.symm.trans hw
    rw [onWakeup_of_sleeping hc, ← hws]
    exact h.complete hclock hws false

theorem RecordsHistory.load {r : CounterRun} (h : RecordsHistory r) {now : Nat} (hclock : r.clock ≤ now)
    (hnow : now < 2 ^ 64) : RecordsHistory { r with counter := (r.counter.load now).1, clock := now } where
  bounded := hnow
  ordered := h.ordered.mono hclock
  fresh hws := ⟨(h.fresh hws).1, (h.fresh hws).2.1, le_trans (h.fresh hws).2.2 hclock⟩
  last := h.last
  records := (List.reverse_prefix.2 (evict_suffix _ _ _ _)).trans h.records

private theorem step_recordsHistory {r r' : CounterRun} {a : CounterCall} (h : RecordsHistory r)
    (hstep : r.step a = some r') : RecordsHistory r' := by
  cases a with
  | onSleep now =>
    obtain ⟨⟨hclock, hnow, hasleep⟩, ⟨⟩⟩ := Option.ite_none_right_eq_some.1 hstep
    exact h.onSleep hclock hnow hasleep
  | onWakeup now =>
    obtain ⟨⟨hclock, hnow, hasleep⟩, ⟨⟩⟩ := Option.ite_none_right_eq_some.1 hstep
    exact h.onWakeup hclock hnow hasleep
  | load now =>
    obtain ⟨⟨hclock, hnow⟩, ⟨⟩⟩ := Option.ite_none_right_eq_some.1 hstep
    exact h.load hclock hnow

/-! ### The totals -/

/-- The interval in progress and the newest records, added up by kind, are the time spent since some instant. -/
private theorem spent_of_suffix {r : CounterRun} (h : RecordsHistory r) {w : Switch} {ws : List Switch}
    (hws : r.switches = w :: ws) {now : Nat} (hclock : r.clock ≤ now) {rs : List TimeRecord}
    (hrs : rs <:+ r.counter.timeRecords) :
    ∃ i ≤ now, (∀ sleep, spent sleep i now r.switches =
        (if w.sleep = sleep then now - w.time else 0) + timeOf sleep rs) ∧ now - w.time + totalOf rs = now - i := by
  obtain ⟨-, -, -, hrecords⟩ := h.inProgress hws
  have ho : Ordered now (w :: ws) := hws ▸ h.ordered.mono hclock
  obtain ⟨i, hi, hspent⟩ := spent_of_prefix ho ((List.reverse_prefix.2 hrs).trans hrecords)
  simp only [timeOf_reverse] at hspent
  have hle : w.time ≤ now := ho.1
  refine ⟨i, le_trans hi hle, fun sleep => by rw [hws]; exact hspent sleep, ?_⟩
  have hadd := spent_add (i := i) ho
  have hkinds := timeOf_add_timeOf rs
  rw [hspent false, hspent true] at hadd
  cases hw : w.sleep <;> simp only [hw, Bool.false_eq_true, Bool.true_eq_false, ↓reduceIte] at hadd <;> omega

/-- A `load` that measures the interval in progress from its beginning accounts for real time. -/
private theorem RecordsHistory.accountsRealTime {r : CounterRun} (h : RecordsHistory r) {now : Nat}
    (hclock : r.clock ≤ now)
    (hnow : now < 2 ^ 64) (hok : LoadMeasuresProgress r (.load now)) : AccountsRealTime r now := by
  obtain ⟨hequal, hcreated⟩ := hok
  have hstamp : r.counter.progressStamp = r.counter.lastSwitch := by
    unfold progressStamp lastSwitch
    rw [hequal]
  cases hws : r.switches with
  | nil =>
    obtain ⟨hsleeping, hwakeup, -⟩ := h.fresh hws
    have hrecords : r.counter.timeRecords = [] := by
      have hfront := h.records
      rw [hws] at hfront
      exact List.reverse_eq_nil_iff.1 (List.prefix_nil.1 hfront)
    have hnow' : r.counter.lastWakeupTime = now := hwakeup.trans (hcreated hws).symm
    refine ⟨now, le_refl _, ?_⟩
    simp [loadTotals, allTimes, sumRecords, evict, Times.add, progressStamp, spent, hws, hsleeping, hrecords, hnow',
      subU64, addU64]
  | cons w ws =>
    obtain ⟨hsleep, htime, hle, -⟩ := h.inProgress hws
    rw [← htime] at hstamp
    obtain ⟨i, -, -, hall⟩ := spent_of_suffix h hws hclock (List.suffix_refl _)
    have hmeasured : r.counter.measured now < 2 ^ 64 := by
      unfold measured
      rw [hstamp]
      omega
    obtain ⟨j, hj, hspent, hsum⟩ := spent_of_suffix h hws hclock
      (keep_suffix (toUnsigned r.counter.maxUsec) (now - w.time) r.counter.timeRecords)
    have htotals := loadTotals_eq (by rw [hstamp]; omega) hmeasured rfl
    have hprogress := progress_eq (show now - r.counter.progressStamp < 2 ^ 64 by omega)
    rw [hstamp] at htotals hprogress
    refine ⟨j, hj, ?_, ?_, ?_⟩
    · rw [htotals, hspent true, hprogress, hsleep]
      unfold plus
      cases r.counter.sleeping <;> simp
    · rw [htotals, hspent false, hprogress, hsleep]
      unfold plus
      cases r.counter.sleeping <;> simp
    · rw [htotals, plus_sum, ← hsum, hprogress]
      cases r.counter.sleeping <;> simp

/-- In a run in which every `load` finds the two timestamps equal, the totals account for real time. -/
theorem along_accountsRealTime {maxCount maxUsec : Int32} {current : Nat} (hcurrent : current < 2 ^ 64)
    {calls : List CounterCall} {r : CounterRun}
    (hrun : Transition.exec CounterRun.step (.init maxCount maxUsec current) calls = some r)
    (hok : Transition.Along CounterRun.step LoadMeasuresProgress (.init maxCount maxUsec current) calls) :
    Transition.Along CounterRun.step CallAccounts (.init maxCount maxUsec current) calls := by
  refine Transition.along_of_invariant (fun _ _ _ h _ hstep => step_recordsHistory h hstep) ?_
    (RecordsHistory.init hcurrent) hok hrun
  intro s a t h hload hstep
  cases a with
  | load now =>
    obtain ⟨⟨hclock, hnow⟩, -⟩ := Option.ite_none_right_eq_some.1 hstep
    exact h.accountsRealTime hclock hnow hload
  | onSleep now => trivial
  | onWakeup now => trivial

/-- Sleep for 5, run for no time, sleep again: a `load` 3 later. -/
theorem along_accountsRealTime_noRun :
    Transition.Along CounterRun.step CallAccounts (.init 32 2000000 10)
      [.load 10, .onSleep 20, .onWakeup 25, .onSleep 25, .load 28] :=
  along_accountsRealTime (by decide) (r := (Transition.exec CounterRun.step (.init 32 2000000 10)
    [.load 10, .onSleep 20, .onWakeup 25, .onSleep 25, .load 28]).getD (.init 32 2000000 10)) (by decide) (by decide)

/-- Asleep from 10 on, awake from 30 on, asked at 34: the 20 that the thread slept are counted twice. -/
theorem not_accountsRealTime_running :
    (Transition.exec CounterRun.step (.init 32 2000000 10) [.onSleep 10, .onWakeup 30, .load 34]).isSome ∧
      ¬ Transition.Along CounterRun.step CallAccounts (.init 32 2000000 10) [.onSleep 10, .onWakeup 30, .load 34] := by
  refine ⟨by decide, fun h => ?_⟩
  change Transition.Along CounterRun.step CallAccounts (.init 32 2000000 10)
    ([.onSleep 10, .onWakeup 30] ++ [.load 34]) at h
  obtain ⟨i, hi, -, -, hsum⟩ := Transition.ok_of_along_append h rfl
  have htotals : (onWakeup 30 (onSleep 10 (create 32 2000000 10))).loadTotals 34 =
      ([⟨true, 20⟩], ⟨24, 20⟩, 44) := by decide
  have hsum44 : 24 + 20 = 34 - i := (congrArg (fun l => l.2.1.runtime + l.2.1.sleepTime) htotals).symm.trans hsum
  omega

end ThreadLoadCounter

end AvcTool
