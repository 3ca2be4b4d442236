import Mathlib.Algebra.Group.Nat.Defs
import Mathlib.Data.List.Infix

/-!
# The load counter of a thread

`ThreadLoadCounter` records how long a thread slept and ran between its calls of `onSleep` and `onWakeup`.  `load`
adds the interval in progress to the recorded ones, drops the oldest records while the sum exceeds the window
`max_usec_`, and returns the share of running time.  Times are `uint64_t` microseconds: `Nat` values below `2 ^ 64`
with the wrapping operations `addU64` and `subU64`.  The final division is taken as exact, where the code goes
through `float`.

As long as the sum of all times stays below `2 ^ 64`, `load` keeps the longest suffix of the records that fits into
the window together with the interval in progress (`loadTotals_eq`).
-/

namespace AvcTool

/-! ### Unsigned arithmetic -/

def addU64 (a b : Nat) : Nat := (a + b) % 2 ^ 64

/-- `a - b` on `uint64_t`. -/
def subU64 (a b : Nat) : Nat := if b ≤ a then a - b else 2 ^ 64 - (b - a)

/-- An `int` that is compared with a `uint64_t` or a `size_t` is converted first. -/
def toUnsigned (n : Int32) : Nat := n.toInt64.toUInt64.toNat

theorem addU64_of_lt {a b : Nat} (h : a + b < 2 ^ 64) : addU64 a b = a + b := Nat.mod_eq_of_lt h

theorem subU64_of_le {a b : Nat} (h : b ≤ a) : subU64 a b = a - b := if_pos h

/-! ### The counter -/

structure TimeRecord where
  sleep : Bool
  time : Nat
  deriving DecidableEq

structure ThreadLoadCounter where
  sleeping : Bool
  lastSleepTime : Nat
  lastWakeupTime : Nat
  timeRecords : List TimeRecord
  maxSize : Int32
  maxUsec : Int32
  deriving DecidableEq

/-- The sums `totalRuntime` and `totalSleepTime` of `load`. -/
structure Times where
  runtime : Nat
  sleepTime : Nat
  deriving DecidableEq

def Times.add (sleep : Bool) (time : Nat) (t : Times) : Times :=
  if sleep then { t with sleepTime := addU64 t.sleepTime time } else { t with runtime := addU64 t.runtime time }

def Times.sub (sleep : Bool) (time : Nat) (t : Times) : Times :=
  if sleep then { t with sleepTime := subU64 t.sleepTime time } else { t with runtime := subU64 t.runtime time }

namespace ThreadLoadCounter

/-- The constructor, at the time `current`. -/
def create (maxCount maxUsec : Int32) (current : Nat) : ThreadLoadCounter :=
  ⟨true, current, current, [], maxCount, maxUsec⟩

/-- A record goes to the back; the front is dropped when there are more than `max_size_`. -/
def pushRecord (c : ThreadLoadCounter) (r : TimeRecord) : List TimeRecord :=
  if (c.timeRecords ++ [r]).length > toUnsigned c.maxSize then (c.timeRecords ++ [r]).tail else c.timeRecords ++ [r]

def onSleep (current : Nat) (c : ThreadLoadCounter) : ThreadLoadCounter :=
  { c with
    timeRecords :=
      if c.sleeping then c.timeRecords else c.pushRecord ⟨c.sleeping, subU64 current c.lastWakeupTime⟩
    sleeping := true
    lastSleepTime := current }

def onWakeup (current : Nat) (c : ThreadLoadCounter) : ThreadLoadCounter :=
  { c with
    timeRecords :=
      if c.sleeping then c.pushRecord ⟨c.sleeping, subU64 current c.lastSleepTime⟩ else c.timeRecords
    sleeping := false
    lastWakeupTime := current }

/-- The timestamp that `load` measures the interval in progress from. -/
def progressStamp (c : ThreadLoadCounter) : Nat := if c.sleeping then c.lastWakeupTime else c.lastSleepTime

/-- The time of the last call of `onSleep` or `onWakeup`, where the interval in progress begins. -/
def lastSwitch (c : ThreadLoadCounter) : Nat := if c.sleeping then c.lastSleepTime else c.lastWakeupTime

/-- The loop over the records, from the newest to the oldest. -/
def sumRecords (rs : List TimeRecord) (t : Times) : Times := rs.reverse.foldl (fun t r => t.add r.sleep r.time) t

/-- The loop that removes the oldest records while `totalTime` exceeds the window. -/
def evict (maxUsec : Nat) : List TimeRecord → Times → Nat → List TimeRecord × Times × Nat
  | [], t, totalTime => ([], t, totalTime)
  | r :: rs, t, totalTime =>
    if totalTime > maxUsec then evict maxUsec rs (t.sub r.sleep r.time) (subU64 totalTime r.time)
    else (r :: rs, t, totalTime)

/-- The sums before the oldest records are removed. -/
def allTimes (current : Nat) (c : ThreadLoadCounter) : Times :=
  sumRecords c.timeRecords (Times.add c.sleeping (subU64 current c.progressStamp) ⟨0, 0⟩)

/-- The records that `load` leaves, and its final `totalRuntime`, `totalSleepTime` and `totalTime`. -/
def loadTotals (current : Nat) (c : ThreadLoadCounter) : List TimeRecord × Times × Nat :=
  evict (toUnsigned c.maxUsec) c.timeRecords (c.allTimes current)
    (addU64 (c.allTimes current).runtime (c.allTimes current).sleepTime)

/-- The counter after `load`, and the load in percent. -/
def load (current : Nat) (c : ThreadLoadCounter) : ThreadLoadCounter × Nat :=
  let (timeRecords, times, totalTime) := c.loadTotals current
  ({ c with timeRecords := timeRecords }, if totalTime = 0 then 0 else times.runtime * 100 / totalTime)

/-- A call that ends a running interval records it. -/
theorem onSleep_of_running {c : ThreadLoadCounter} (h : c.sleeping = false) (current : Nat) :
    c.onSleep current = { c with
      timeRecords := c.pushRecord ⟨c.sleeping, subU64 current c.lastSwitch⟩
      sleeping := true
      lastSleepTime := current } := by
  have hrunning : ¬ c.sleeping = true := by simp [h]
  unfold onSleep lastSwitch
  rw [if_neg hrunning, if_neg hrunning]

theorem onWakeup_of_sleeping {c : ThreadLoadCounter} (h : c.sleeping = true) (current : Nat) :
    c.onWakeup current = { c with
      timeRecords := c.pushRecord ⟨c.sleeping, subU64 current c.lastSwitch⟩
      sleeping := false
      lastWakeupTime := current } := by
  unfold onWakeup lastSwitch
  rw [if_pos h, if_pos h]

/-! ### Sums of records -/

/-- The time of the sleeping records, or that of the running ones. -/
def timeOf (sleep : Bool) : List TimeRecord → Nat
  | [] => 0
  | r :: rs => (if r.sleep = sleep then r.time else 0) + timeOf sleep rs

def totalOf : List TimeRecord → Nat
  | [] => 0
  | r :: rs => r.time + totalOf rs

theorem timeOf_cons (sleep : Bool) (r : TimeRecord) (rs : List TimeRecord) :
    timeOf sleep (r :: rs) = (if r.sleep = sleep then r.time else 0) + timeOf sleep rs := rfl

theorem totalOf_cons (r : TimeRecord) (rs : List TimeRecord) : totalOf (r :: rs) = r.time + totalOf rs := rfl

theorem timeOf_append (sleep : Bool) (rs rs' : List TimeRecord) :
    timeOf sleep (rs ++ rs') = timeOf sleep rs + timeOf sleep rs' := by
  induction rs with
  | nil => simp [timeOf]
  | cons r rs ih =>
    rw [List.cons_append, timeOf_cons, timeOf_cons, ih]
    omega

theorem totalOf_append (rs rs' : List TimeRecord) : totalOf (rs ++ rs') = totalOf rs + totalOf rs' := by
  induction rs with
  | nil => simp [totalOf]
  | cons r rs ih =>
    rw [List.cons_append, totalOf_cons, totalOf_cons, ih]
    omega

theorem timeOf_add_timeOf (rs : List TimeRecord) : timeOf false rs + timeOf true rs = totalOf rs := by
  induction rs with
  | nil => rfl
  | cons r rs ih =>
    rw [timeOf_cons, timeOf_cons, totalOf_cons]
    cases r.sleep <;> simp <;> omega

theorem totalOf_le_of_suffix {rs rs' : List TimeRecord} (h : rs <:+ rs') : totalOf rs ≤ totalOf rs' := by
  obtain ⟨ds, rfl⟩ := h
  rw [totalOf_append]
  omega

/-- The sums of `t` and the records, without wrapping. -/
def plus (t : Times) (rs : List TimeRecord) : Times := ⟨t.runtime + timeOf false rs, t.sleepTime + timeOf true rs⟩

theorem plus_sum (t : Times) (rs : List TimeRecord) :
    (plus t rs).runtime + (plus t rs).sleepTime = t.runtime + t.sleepTime + totalOf rs := by
  have h := timeOf_add_timeOf rs
  simp only [plus]
  omega

private theorem sumRecords_cons (r : TimeRecord) (rs : List TimeRecord) (t : Times) :
    sumRecords (r :: rs) t = (sumRecords rs t).add r.sleep r.time := by
  simp [sumRecords]

private theorem sumRecords_eq {t : Times} {rs : List TimeRecord} (h : t.runtime + t.sleepTime + totalOf rs < 2 ^ 64) :
    sumRecords rs t = plus t rs := by
  induction rs with
  | nil => rfl
  | cons r rs ih =>
    have hrs := timeOf_add_timeOf rs
    rw [totalOf_cons] at h
    rw [sumRecords_cons, ih (by omega)]
    unfold plus Times.add
    simp only [timeOf_cons]
    cases r.sleep with
    | false =>
      simp only [Bool.false_eq_true, ↓reduceIte, Nat.zero_add]
      rw [addU64_of_lt (by omega)]
      simp only [Times.mk.injEq, and_true]
      omega
    | true =>
      simp only [↓reduceIte, Bool.true_eq_false, Nat.zero_add]
      rw [addU64_of_lt (by omega)]
      simp only [Times.mk.injEq, true_and]
      omega

/-! ### What `load` keeps -/

/-- The longest suffix of the records that fits into the window next to an interval of length `x`. -/
def keep (maxUsec x : Nat) : List TimeRecord → List TimeRecord
  | [] => []
  | r :: rs => if x + totalOf (r :: rs) > maxUsec then keep maxUsec x rs else r :: rs

theorem keep_suffix (maxUsec x : Nat) (rs : List TimeRecord) : keep maxUsec x rs <:+ rs := by
  induction rs with
  | nil => exact List.suffix_refl _
  | cons r rs ih =>
    rw [keep]
    split
    · exact ih.trans (List.suffix_cons r rs)
    · exact List.suffix_refl _

/-- A suffix that does not fit is dropped, with everything before it. -/
theorem keep_append {maxUsec x : Nat} {ds : List TimeRecord} {d : TimeRecord} {rs : List TimeRecord}
    (h : x + totalOf (d :: rs) > maxUsec) : keep maxUsec x (ds ++ d :: rs) = keep maxUsec x rs := by
  induction ds with
  | nil => rw [List.nil_append, keep, if_pos h]
  | cons e ds ih =>
    have hle : totalOf (d :: rs) ≤ totalOf (e :: ds ++ d :: rs) := totalOf_le_of_suffix (List.suffix_append _ _)
    rw [List.cons_append] at hle
    rw [List.cons_append, keep, if_pos (by omega), ih]

/-- The record before the ones that are kept does not fit any more. -/
theorem keep_cut (maxUsec x : Nat) (rs : List TimeRecord) :
    rs = keep maxUsec x rs ∨
      ∃ ds d, rs = ds ++ d :: keep maxUsec x rs ∧ x + totalOf (d :: keep maxUsec x rs) > maxUsec := by
  induction rs with
  | nil => exact .inl rfl
  | cons r rs ih =>
    by_cases h : x + totalOf (r :: rs) > maxUsec
    · right
      rw [keep, if_pos h]
      rcases ih with heq | ⟨ds, d, heq, hd⟩
      · exact ⟨[], r, by rw [← heq]; rfl, by rw [← heq]; exact h⟩
      · exact ⟨r :: ds, d, by rw [List.cons_append, ← heq], hd⟩
    · left
      rw [keep, if_neg h]

theorem plus_sub (t : Times) (r : TimeRecord) (rs : List TimeRecord) :
    (plus t (r :: rs)).sub r.sleep r.time = plus t rs := by
  unfold plus Times.sub
  simp only [timeOf_cons]
  cases r.sleep with
  | false =>
    simp only [Bool.false_eq_true, ↓reduceIte, Nat.zero_add]
    rw [subU64_of_le (by omega)]
    simp only [Times.mk.injEq, and_true]
    omega
  | true =>
    simp only [↓reduceIte, Bool.true_eq_false, Nat.zero_add]
    rw [subU64_of_le (by omega)]
    simp only [Times.mk.injEq, true_and]
    omega

private theorem evict_eq (maxUsec x : Nat) (t : Times) (rs : List TimeRecord) :
    evict maxUsec rs (plus t rs) (x + totalOf rs) =
      (keep maxUsec x rs, plus t (keep maxUsec x rs), x + totalOf (keep maxUsec x rs)) := by
  induction rs with
  | nil => rfl
  | cons r rs ih =>
    rw [evict, keep]
    split
    · have hsub : subU64 (x + totalOf (r :: rs)) r.time = x + totalOf rs := by
        rw [totalOf_cons, subU64_of_le (by omega)]
        omega
      rw [plus_sub, hsub, ih]
    · rfl

/-- The interval in progress as `load` measures it. -/
def progress (current : Nat) (c : ThreadLoadCounter) : Times :=
  Times.add c.sleeping (current - c.progressStamp) ⟨0, 0⟩

/-- All that `load` adds up: the interval in progress, as it measures it, and the records. -/
def measured (current : Nat) (c : ThreadLoadCounter) : Nat := current - c.progressStamp + totalOf c.timeRecords

theorem progress_eq {current : Nat} {c : ThreadLoadCounter} (h : current - c.progressStamp < 2 ^ 64) :
    c.progress current =
      if c.sleeping then ⟨0, current - c.progressStamp⟩ else ⟨current - c.progressStamp, 0⟩ := by
  unfold progress Times.add
  split <;> simp only [addU64_of_lt (show 0 + (current - c.progressStamp) < 2 ^ 64 by omega), Nat.zero_add]

theorem progress_sum {current : Nat} {c : ThreadLoadCounter} (h : current - c.progressStamp < 2 ^ 64) :
    (c.progress current).runtime + (c.progress current).sleepTime = current - c.progressStamp := by
  rw [progress_eq h]
  split <;> simp

theorem allTimes_eq {current : Nat} {c : ThreadLoadCounter} (hle : c.progressStamp ≤ current)
    (hlt : c.measured current < 2 ^ 64) : c.allTimes current = plus (c.progress current) c.timeRecords := by
  unfold measured at hlt
  have hsum := progress_sum (show current - c.progressStamp < 2 ^ 64 by omega)
  rw [allTimes, subU64_of_le hle]
  exact sumRecords_eq (t := c.progress current) (by omega)

/-- With a timestamp that is not in the future and without overflow, `load` keeps what fits into its window. -/
theorem loadTotals_eq {current : Nat} {c : ThreadLoadCounter} (hle : c.progressStamp ≤ current)
    (hlt : c.measured current < 2 ^ 64) {kept : List TimeRecord}
    (hkept : keep (toUnsigned c.maxUsec) (current - c.progressStamp) c.timeRecords = kept) :
    c.loadTotals current = (kept, plus (c.progress current) kept, current - c.progressStamp + totalOf kept) := by
  have hsum := progress_sum (show current - c.progressStamp < 2 ^ 64 by unfold measured at hlt; omega)
  have hall := plus_sum (c.progress current) c.timeRecords
  rw [loadTotals, allTimes_eq hle hlt, addU64_of_lt (by unfold measured at hlt; omega), hall, hsum, evict_eq, hkept]

end ThreadLoadCounter

end AvcTool
