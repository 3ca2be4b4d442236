import Mathlib.Data.UInt
import Mathlib.Algebra.Order.Group.Unbundled.Int

/-!
# The stamp thread

The thread of `initMillisecondThread` reads the system clock about every half millisecond and adds the time since its
last reading to `s_currentMicrosecond`, if that time is between 0 and a second; any other difference is taken for a
change of the clock.  Readings and sums are of type `uint64_t`, so that a jump backward is a huge difference.

The readings are an arbitrary sequence: reading 0 is taken before the loop, reading `i + 1` in iteration `i + 1`.
-/

namespace AvcTool

structure StampThread where
  last : UInt64
  microsecond : UInt64
  currentMillisecond : UInt64
  currentMicrosecond : UInt64
  currentMillisecondSystem : UInt64
  currentMicrosecondSystem : UInt64

namespace StampThread

/-- The state before the loop; `system` was read when the atomics were initialized. -/
def init (system first : UInt64) : StampThread :=
  { last := first, microsecond := 0, currentMillisecond := 0, currentMicrosecond := 0,
    currentMillisecondSystem := system / 1000, currentMicrosecondSystem := system }

def isNormal (elapse : UInt64) : Bool :=
  0 < elapse && elapse < 1000 * 1000

/-- One iteration of the loop, in which the clock says `now`. -/
def iterate (s : StampThread) (now : UInt64) : StampThread :=
  let elapse := now - s.last
  let s := { s with
    currentMicrosecondSystem := now, currentMillisecondSystem := now / 1000, last := now }
  if isNormal elapse then { s with
    microsecond := s.microsecond + elapse
    currentMicrosecond := s.microsecond + elapse
    currentMillisecond := (s.microsecond + elapse) / 1000 }
  else s

def run (system : UInt64) (readings : Nat → UInt64) : Nat → StampThread
  | 0 => init system (readings 0)
  | i + 1 => (run system readings i).iterate (readings (i + 1))

def getCurrentMillisecond (s : StampThread) (systemTime : Bool) : UInt64 :=
  if systemTime then s.currentMillisecondSystem else s.currentMillisecond

def getCurrentMicrosecond (s : StampThread) (systemTime : Bool) : UInt64 :=
  if systemTime then s.currentMicrosecondSystem else s.currentMicrosecond

/-! ### The time that is counted -/

/-- What an iteration adds to the uptime. -/
def counted (last now : UInt64) : Nat :=
  if isNormal (now - last) then (now - last).toNat else 0

/-- The uptime without the bound of a `uint64_t`. -/
def uptime (readings : Nat → UInt64) : Nat → Nat
  | 0 => 0
  | i + 1 => uptime readings i + counted (readings i) (readings (i + 1))

private theorem uptime_mono (readings : Nat → UInt64) {i j : Nat} (h : i ≤ j) : uptime readings i ≤ uptime readings j :=
  monotone_nat_of_le_succ (fun i => Nat.le_add_right (uptime readings i) _) h

private theorem counted_lt (last now : UInt64) : counted last now < 1000000 := by
  unfold counted
  split
  · rename_i hnormal
    have hlt : now - last < 1000 * 1000 := by simpa [isNormal] using (Bool.and_eq_true_iff.1 hnormal).2
    exact UInt64.lt_iff_toNat_lt.1 hlt
  · decide

private theorem counted_add_right (last now offset : UInt64) :
    counted (last + offset) (now + offset) = counted last now := by
  have hdiff : now + offset - (last + offset) = now - last := add_sub_add_right_eq_sub now last offset
  rw [counted, counted, hdiff]

/-! ### What the thread publishes -/

/-- The atomics of the uptime show the sum of the thread. -/
structure Published (s : StampThread) (last : UInt64) (uptime : Nat) : Prop where
  last_eq : s.last = last
  sum : s.microsecond.toNat = uptime % 2 ^ 64
  microsecond_eq : s.currentMicrosecond = s.microsecond
  millisecond_eq : s.currentMillisecond = s.microsecond / 1000

private theorem Published.iterate {s : StampThread} {last now : UInt64} {uptime : Nat} (hs : Published s last uptime) :
    Published (s.iterate now) now (uptime + counted last now) := by
  have hlast := hs.last_eq
  subst hlast
  unfold StampThread.iterate counted
  by_cases hnormal : isNormal (now - s.last) = true
  · simp only [if_pos hnormal]
    refine ⟨rfl, ?_, rfl, rfl⟩
    have hsum := hs.sum
    rw [UInt64.toNat_add, hsum, Nat.mod_add_mod]
  · simp only [if_neg hnormal]
    exact ⟨rfl, hs.sum, hs.microsecond_eq, hs.millisecond_eq⟩

private theorem published_run (system : UInt64) (readings : Nat → UInt64) (i : Nat) :
    Published (run system readings i) (readings i) (uptime readings i) := by
  induction i with
  | zero =>
    have hzero : (0 : UInt64) = 0 / 1000 := by decide
    exact ⟨rfl, rfl, rfl, hzero⟩
  | succ i ih => exact ih.iterate

/-- The published value, as long as it has not passed the end of its type. -/
private theorem currentMicrosecond_toNat {system : UInt64} {readings : Nat → UInt64} {i : Nat}
    (h : uptime readings i < 2 ^ 64) : (run system readings i).currentMicrosecond.toNat = uptime readings i := by
  have hpublished := published_run system readings i
  rw [hpublished.microsecond_eq, hpublished.sum, Nat.mod_eq_of_lt h]

/-- The published milliseconds are the published microseconds, in milliseconds. -/
theorem getCurrentMillisecond_eq (system : UInt64) (readings : Nat → UInt64) (i : Nat) :
    (run system readings i).getCurrentMillisecond false = (run system readings i).getCurrentMicrosecond false / 1000 := by
  have hpublished := published_run system readings i
  change (run system readings i).currentMillisecond = (run system readings i).currentMicrosecond / 1000
  rw [hpublished.millisecond_eq, hpublished.microsecond_eq]

/-! ### Two runs that differ by a change of the clock -/

section Offset

variable {readings readings' : Nat → UInt64} {k : Nat} {offset : UInt64}

private theorem uptime_before (hbefore : ∀ j < k, readings' j = readings j) {i : Nat} (hi : i < k) :
    uptime readings' i = uptime readings i := by
  induction i with
  | zero => rfl
  | succ i ih =>
    have hprev := ih (by omega)
    rw [uptime, uptime, hprev, hbefore i (by omega), hbefore (i + 1) hi]

private theorem uptime_after (hafter : ∀ j, k ≤ j → readings' j = readings j + offset) {i : Nat} (hi : k ≤ i) :
    uptime readings' i + uptime readings k = uptime readings i + uptime readings' k := by
  induction i, hi using Nat.le_induction with
  | base => exact Nat.add_comm _ _
  | succ i hi ih =>
    have hcounted : counted (readings' i) (readings' (i + 1)) = counted (readings i) (readings (i + 1)) := by
      rw [hafter i hi, hafter (i + 1) (by omega), counted_add_right]
    rw [uptime, uptime, hcounted]
    omega

/-- Only the iteration of the change tells the runs apart, and it adds less than a second to each. -/
private theorem uptime_change (hbefore : ∀ j < k, readings' j = readings j) :
    uptime readings' k < uptime readings k + 1000000 ∧ uptime readings k < uptime readings' k + 1000000 := by
  cases k with
  | zero => exact ⟨Nat.zero_lt_succ _, Nat.zero_lt_succ _⟩
  | succ k =>
    have hprev := uptime_before hbefore (Nat.lt_succ_self k)
    have hlt := counted_lt (readings k) (readings (k + 1))
    have hlt' := counted_lt (readings' k) (readings' (k + 1))
    rw [uptime, uptime, hprev]
    omega

end Offset

/-! ### Main results -/

/-- An iteration never sets the uptime back, and adds less than a second to it. -/
private theorem currentMicrosecond_iterate {system : UInt64} {readings : Nat → UInt64} {i : Nat}
    (h : uptime readings (i + 1) < 2 ^ 64) :
    (run system readings i).currentMicrosecond ≤ (run system readings (i + 1)).currentMicrosecond ∧
    (run system readings (i + 1)).currentMicrosecond.toNat <
      (run system readings i).currentMicrosecond.toNat + 1000000 := by
  have hstep : uptime readings (i + 1) = uptime readings i + counted (readings i) (readings (i + 1)) := rfl
  have hlt := counted_lt (readings i) (readings (i + 1))
  have hbefore : uptime readings i < 2 ^ 64 := by omega
  rw [UInt64.le_iff_toNat_le, currentMicrosecond_toNat h, currentMicrosecond_toNat hbefore]
  omega

/-- The uptime does not depend on changes of the system clock, up to less than a second for each. -/
theorem uptime_immune (system system' : UInt64) (readings : Nat → UInt64) :
    (∀ i, uptime readings (i + 1) < 2 ^ 64 →
      (run system readings i).currentMicrosecond ≤ (run system readings (i + 1)).currentMicrosecond ∧
      (run system readings (i + 1)).currentMicrosecond.toNat <
        (run system readings i).currentMicrosecond.toNat + 1000000) ∧
    ∀ (readings' : Nat → UInt64) (k : Nat) (offset : UInt64), (∀ j < k, readings' j = readings j) →
      (∀ j, k ≤ j → readings' j = readings j + offset) →
      ∀ i, uptime readings i < 2 ^ 64 → uptime readings' i < 2 ^ 64 →
        |((run system' readings' i).currentMicrosecond.toNat : Int) - (run system readings i).currentMicrosecond.toNat| <
          1000000 ∧
        (k ≤ i → ((run system' readings' i).currentMicrosecond.toNat : Int) -
          (run system readings i).currentMicrosecond.toNat =
            (run system' readings' k).currentMicrosecond.toNat - (run system readings k).currentMicrosecond.toNat) := by
  refine ⟨fun i h => currentMicrosecond_iterate h, ?_⟩
  intro readings' k offset hbefore hafter i hi hi'
  rw [currentMicrosecond_toNat hi, currentMicrosecond_toNat hi']
  rcases Nat.lt_or_ge i k with hik | hki
  · have hsame := uptime_before hbefore hik
    rw [hsame, sub_self, abs_zero]
    exact ⟨by decide, fun hki => absurd hik (Nat.not_lt.2 hki)⟩
  · have hafter := uptime_after hafter hki
    have hchange := uptime_change hbefore
    have hmono := uptime_mono readings hki
    have hmono' := uptime_mono readings' hki
    rw [currentMicrosecond_toNat (lt_of_le_of_lt hmono hi), currentMicrosecond_toNat (lt_of_le_of_lt hmono' hi')]
    refine ⟨abs_lt.2 ⟨?_, ?_⟩, fun _ => ?_⟩ <;> omega

/-- The clock is set back by five minutes before the third reading of the loop. -/
theorem uptime_immune_set_back :
    |((run 0 (fun i => if i < 3 then 600000000 + 500 * i.toUInt64 else 600000000 + 500 * i.toUInt64 + -300000000)
        4).currentMicrosecond.toNat : Int) -
      (run 0 (fun i => 600000000 + 500 * i.toUInt64) 4).currentMicrosecond.toNat| < 1000000 := by
  have himmune := (uptime_immune 0 0 fun i => 600000000 + 500 * i.toUInt64).2
    (fun i => if i < 3 then 600000000 + 500 * i.toUInt64 else 600000000 + 500 * i.toUInt64 + -300000000)
    3 (-300000000) (fun j hj => if_pos hj) (fun j hj => if_neg (Nat.not_lt.2 hj)) 4 (by decide) (by decide)
  exact himmune.1

end StampThread

end AvcTool
