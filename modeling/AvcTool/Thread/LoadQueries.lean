import AvcTool.Thread.LoadAccounting

/-!
# Additional calls of `load`

`load` is a query, but it removes records for good.  `Twin` runs two counters side by side: both see the same calls
of `onSleep`, `onWakeup` and `load`, and one of them is asked some more.

What the additional calls have removed is an end of the records of the other counter (`Behind`), and the next common
`load` removes it there too, provided that it lies outside the window also when the interval in progress is measured
from its beginning.  `load` measures it from an older timestamp, so this is a condition on the additional calls
(`QueryHarmless`).
-/

namespace AvcTool

namespace ThreadLoadCounter

/-! ### Two runs -/

def act (c : ThreadLoadCounter) : CounterCall → ThreadLoadCounter
  | .onSleep now => c.onSleep now
  | .onWakeup now => c.onWakeup now
  | .load now => (c.load now).1

def CounterCall.now : CounterCall → Nat
  | .onSleep now => now
  | .onWakeup now => now
  | .load now => now

inductive TwinCall where
  | common (a : CounterCall)
  | extra (now : Nat)
  deriving DecidableEq

/-- The call as the counter with the additional calls sees it. -/
def TwinCall.all : TwinCall → CounterCall
  | .common a => a
  | .extra now => .load now

/-- The call as the other counter sees it, if it does. -/
def TwinCall.shared : TwinCall → Option CounterCall
  | .common a => some a
  | .extra _ => none

/-- The counters of the run without and with the additional calls. -/
structure Twin where
  plain : ThreadLoadCounter
  asked : ThreadLoadCounter
  clock : Nat
  deriving DecidableEq

def Twin.init (maxCount maxUsec : Int32) (current : Nat) : Twin :=
  ⟨create maxCount maxUsec current, create maxCount maxUsec current, current⟩

def Twin.step (s : Twin) (a : TwinCall) : Option Twin :=
  if s.clock ≤ a.all.now ∧ a.all.now < 2 ^ 64 then
    some ⟨(a.shared.map s.plain.act).getD s.plain, s.asked.act a.all, a.all.now⟩
  else none

def SameAnswer (s : Twin) : TwinCall → Prop
  | .common (.load now) => (s.asked.load now).2 = (s.plain.load now).2
  | _ => True

/-- The records that fit into the window next to the interval in progress are kept by a `load` at this time. -/
def KeepsWindow (now : Nat) (c : ThreadLoadCounter) : Prop :=
  ∀ rs ∈ c.timeRecords.tails, now - c.lastSwitch + totalOf rs ≤ toUnsigned c.maxUsec →
    now - c.progressStamp + totalOf rs ≤ toUnsigned c.maxUsec

/-- `onSleep` and `onWakeup` alternate once there are records, no sum exceeds 64 bits, and an additional `load` keeps
all records that fit into the window. -/
def QueryHarmless (s : Twin) : TwinCall → Prop
  | .common (.onSleep _) => s.plain.sleeping = true → s.plain.timeRecords = []
  | .common (.onWakeup _) => s.plain.sleeping = false → s.plain.timeRecords = []
  | .common (.load now) => s.plain.measured now < 2 ^ 64
  | .extra now => s.plain.measured now < 2 ^ 64 ∧ s.asked.KeepsWindow now

instance decidableKeepsWindow (now : Nat) (c : ThreadLoadCounter) : Decidable (c.KeepsWindow now) :=
  inferInstanceAs (Decidable (∀ rs ∈ c.timeRecords.tails, now - c.lastSwitch + totalOf rs ≤ toUnsigned c.maxUsec →
    now - c.progressStamp + totalOf rs ≤ toUnsigned c.maxUsec))

instance decidableQueryHarmless : ∀ s a, Decidable (QueryHarmless s a)
  | s, .common (.onSleep _) => inferInstanceAs (Decidable (s.plain.sleeping = true → s.plain.timeRecords = []))
  | s, .common (.onWakeup _) => inferInstanceAs (Decidable (s.plain.sleeping = false → s.plain.timeRecords = []))
  | s, .common (.load now) => inferInstanceAs (Decidable (s.plain.measured now < 2 ^ 64))
  | s, .extra now => inferInstanceAs (Decidable (s.plain.measured now < 2 ^ 64 ∧ s.asked.KeepsWindow now))

/-- The two counters are those of the run of the common calls and of the run of all calls. -/
theorem exec_twin {s t : Twin} {as : List TwinCall} (h : Transition.exec Twin.step s as = some t) :
    t.plain = (as.filterMap TwinCall.shared).foldl act s.plain ∧ t.asked = (as.map TwinCall.all).foldl act s.asked := by
  induction as generalizing s with
  | nil =>
    obtain rfl := Option.some.inj h
    exact ⟨rfl, rfl⟩
  | cons a as ih =>
    obtain ⟨r, hr, hrt⟩ := Transition.exec_cons.1 h
    obtain ⟨-, ⟨⟩⟩ := Option.ite_none_right_eq_some.1 hr
    obtain ⟨hplain, hasked⟩ := ih hrt
    refine ⟨?_, hasked⟩
    rw [hplain]
    cases a <;> rfl

/-! ### Records left behind -/

/-- `rs` is left of `ps` after records have been removed whose time exceeds the window together with `rs` and `y`. -/
def Behind (maxUsec y : Nat) (ps rs : List TimeRecord) : Prop :=
  ps = rs ∨ ∃ ds d, ps = ds ++ d :: rs ∧ y + totalOf (d :: rs) > maxUsec

theorem Behind.mono {maxUsec y y' : Nat} {ps rs : List TimeRecord} (h : Behind maxUsec y ps rs) (hle : y ≤ y') :
    Behind maxUsec y' ps rs := by
  rcases h with rfl | ⟨ds, d, rfl, hd⟩
  · exact .inl rfl
  · exact .inr ⟨ds, d, rfl, by omega⟩

private theorem Behind.suffix {maxUsec y : Nat} {ps rs : List TimeRecord} (h : Behind maxUsec y ps rs) : rs <:+ ps := by
  rcases h with rfl | ⟨ds, d, rfl, -⟩
  · exact List.suffix_refl _
  · exact (List.suffix_cons d rs).trans (List.suffix_append ds _)

/-- A `load` that measures at least `y` removes what was removed on the other side. -/
private theorem Behind.keep_eq {maxUsec y x : Nat} {ps rs : List TimeRecord} (h : Behind maxUsec y ps rs)
    (hle : y ≤ x) : keep maxUsec x ps = keep maxUsec x rs := by
  rcases h with rfl | ⟨ds, d, rfl, hd⟩
  · rfl
  · exact keep_append (by omega)

theorem Behind.trans {maxUsec y : Nat} {ps rs qs : List TimeRecord} (h : Behind maxUsec y ps rs)
    (h' : Behind maxUsec y rs qs) : Behind maxUsec y ps qs := by
  rcases h' with rfl | ⟨ds, d, rfl, hd⟩
  · exact h
  · obtain ⟨es, rfl⟩ := h.suffix
    exact .inr ⟨es ++ ds, d, (List.append_assoc ..).symm, hd⟩

/-- A new record goes to both sides; the limit on the number of records removes a record that was left behind. -/
theorem Behind.push {c d : ThreadLoadCounter} {maxUsec y : Nat}
    (h : Behind maxUsec y c.timeRecords d.timeRecords) (hmax : d.maxSize = c.maxSize)
    (hlen : c.timeRecords.length ≤ toUnsigned c.maxSize) (r : TimeRecord) (hr : y ≤ r.time) :
    Behind maxUsec 0 (c.pushRecord r) (d.pushRecord r) := by
  rcases h with heq | ⟨ds, e, heq, he⟩
  · left
    unfold pushRecord
    rw [heq, hmax]
  · have htotal : 0 + totalOf (e :: (d.timeRecords ++ [r])) > maxUsec := by
      rw [← List.cons_append, totalOf_append]
      have hone : totalOf [r] = r.time := rfl
      omega
    have hlens : c.timeRecords.length = ds.length + (d.timeRecords.length + 1) := by rw [heq]; simp
    have hd : d.pushRecord r = d.timeRecords ++ [r] := by
      unfold pushRecord
      rw [if_neg]
      simp only [List.length_append, List.length_cons, List.length_nil, hmax]
      omega
    rw [hd]
    unfold pushRecord
    rw [heq]
    split
    · rcases ds with _ | ⟨f, ds⟩
      · exact .inl rfl
      · exact .inr ⟨ds, e, by simp, htotal⟩
    · exact .inr ⟨ds, e, by simp, htotal⟩

/-! ### The two counters -/

/-- The counters differ only in records that the additional calls have removed for good reason. -/
structure TwinInv (s : Twin) : Prop where
  same : s.asked = { s.plain with timeRecords := s.asked.timeRecords }
  stamp : s.plain.progressStamp ≤ s.plain.lastSwitch
  lastSwitch : s.plain.lastSwitch ≤ s.clock
  length : s.plain.timeRecords.length ≤ toUnsigned s.plain.maxSize
  records : Behind (toUnsigned s.plain.maxUsec) (s.clock - s.plain.lastSwitch) s.plain.timeRecords s.asked.timeRecords

theorem TwinInv.init (maxCount maxUsec : Int32) (current : Nat) : TwinInv (.init maxCount maxUsec current) where
  same := rfl
  stamp := le_refl _
  lastSwitch := le_refl _
  length := Nat.zero_le _
  records := .inl rfl

private theorem length_pushRecord {c : ThreadLoadCounter} (h : c.timeRecords.length ≤ toUnsigned c.maxSize)
    (r : TimeRecord) : (c.pushRecord r).length ≤ toUnsigned c.maxSize := by
  unfold pushRecord
  split
  · rw [List.length_tail, List.length_append, List.length_singleton]
    omega
  · omega

/-- A counter that differs from another one in its records only measures the same interval in progress. -/
private theorem loadTotals_of_suffix {c : ThreadLoadCounter} {now : Nat} (hle : c.progressStamp ≤ now)
    (hlt : c.measured now < 2 ^ 64) {rs : List TimeRecord} (hrs : rs <:+ c.timeRecords) :
    loadTotals now { c with timeRecords := rs } =
      (keep (toUnsigned c.maxUsec) (now - c.progressStamp) rs,
        plus (c.progress now) (keep (toUnsigned c.maxUsec) (now - c.progressStamp) rs),
        now - c.progressStamp + totalOf (keep (toUnsigned c.maxUsec) (now - c.progressStamp) rs)) := by
  have htotal := totalOf_le_of_suffix hrs
  unfold measured at hlt
  have hle' : progressStamp { c with timeRecords := rs } ≤ now := hle
  refine loadTotals_eq hle' ?_ rfl
  show now - c.progressStamp + totalOf rs < 2 ^ 64
  omega

private theorem load_of_suffix {c : ThreadLoadCounter} {now : Nat} (hle : c.progressStamp ≤ now)
    (hlt : c.measured now < 2 ^ 64) {rs : List TimeRecord} (hrs : rs <:+ c.timeRecords) :
    (load now { c with timeRecords := rs }).1 =
      { c with timeRecords := keep (toUnsigned c.maxUsec) (now - c.progressStamp) rs } := by
  unfold load
  rw [loadTotals_of_suffix hle hlt hrs]

/-- At a common `load` the two counters become equal, and so do their answers. -/
private theorem TwinInv.common_load {s : Twin} (h : TwinInv s) {now : Nat} (hclock : s.clock ≤ now)
    (hlt : s.plain.measured now < 2 ^ 64) : s.asked.load now = s.plain.load now := by
  have hle : s.plain.progressStamp ≤ now := le_trans h.stamp (le_trans h.lastSwitch hclock)
  have hkeep : keep (toUnsigned s.plain.maxUsec) (now - s.plain.progressStamp) s.plain.timeRecords =
      keep (toUnsigned s.plain.maxUsec) (now - s.plain.progressStamp) s.asked.timeRecords := by
    have hstamp := h.stamp
    exact h.records.keep_eq (by omega)
  have hasked := loadTotals_of_suffix hle hlt h.records.suffix
  have hplain := loadTotals_of_suffix hle hlt (List.suffix_refl _)
  rw [← hkeep] at hasked
  rw [h.same]
  unfold load
  rw [hasked, show loadTotals now s.plain = _ from hplain]

private theorem TwinInv.asked_lastSwitch {s : Twin} (h : TwinInv s) : s.asked.lastSwitch = s.plain.lastSwitch := by
  rw [h.same]
  rfl

/-- A switch that completes an interval. -/
theorem TwinInv.switch {s : Twin} (h : TwinInv s) {now : Nat} (hclock : s.clock ≤ now) {c d : ThreadLoadCounter}
    (hc : c = { s.plain with
      timeRecords := s.plain.pushRecord ⟨s.plain.sleeping, now - s.plain.lastSwitch⟩
      sleeping := c.sleeping, lastSleepTime := c.lastSleepTime, lastWakeupTime := c.lastWakeupTime })
    (hd : d = { c with timeRecords := s.asked.pushRecord ⟨s.plain.sleeping, now - s.plain.lastSwitch⟩ })
    (hstamp : c.progressStamp ≤ now) (hlast : c.lastSwitch = now) : TwinInv ⟨c, d, now⟩ where
  same := by rw [hd]
  stamp := by rw [hlast]; exact hstamp
  lastSwitch := le_of_eq hlast
  length := by
    rw [hc]
    exact length_pushRecord h.length _
  records := by
    have hmax : s.asked.maxSize = s.plain.maxSize := by rw [h.same]
    have hpush := h.records.push hmax h.length ⟨s.plain.sleeping, now - s.plain.lastSwitch⟩
      (Nat.sub_le_sub_right hclock _)
    rw [hlast, Nat.sub_self, hd]
    rw [hc]
    exact hpush

private theorem TwinInv.asked_eq {s : Twin} (h : TwinInv s) (hnil : s.plain.timeRecords = []) : s.asked = s.plain := by
  have hsuffix := h.records.suffix
  rw [hnil] at hsuffix
  rw [h.same, List.suffix_nil.1 hsuffix, ← hnil]

private theorem TwinInv.unrecorded {now : Nat} {c : ThreadLoadCounter} (hnil : c.timeRecords = [])
    (hstamp : c.progressStamp ≤ now) (hlast : c.lastSwitch = now) : TwinInv ⟨c, c, now⟩ where
  same := rfl
  stamp := by rw [hlast]; exact hstamp
  lastSwitch := le_of_eq hlast
  length := by rw [hnil]; exact Nat.zero_le _
  records := .inl rfl

theorem TwinInv.onSleep {s : Twin} (h : TwinInv s) {now : Nat} (hclock : s.clock ≤ now)
    (hok : s.plain.sleeping = true → s.plain.timeRecords = []) :
    TwinInv ⟨s.plain.onSleep now, s.asked.onSleep now, now⟩ := by
  have hlast : s.plain.lastSwitch ≤ now := le_trans h.lastSwitch hclock
  have hstamp : s.plain.progressStamp ≤ now := le_trans h.stamp hlast
  cases hs : s.plain.sleeping with
  | true =>
    have hnil : (s.plain.onSleep now).timeRecords = [] := by simp [ThreadLoadCounter.onSleep, hs, hok hs]
    rw [progressStamp, hs] at hstamp
    rw [h.asked_eq (hok hs)]
    exact .unrecorded hnil hstamp rfl
  | false =>
    have hsleeping : s.asked.sleeping = s.plain.sleeping := by rw [h.same]
    rw [onSleep_of_running hs, onSleep_of_running (hsleeping.trans hs), hsleeping, h.asked_lastSwitch,
      subU64_of_le hlast]
    rw [ThreadLoadCounter.lastSwitch, hs] at hlast
    refine h.switch hclock rfl ?_ hlast rfl
    generalize s.asked.pushRecord _ = rs
    rw [h.same]

theorem TwinInv.onWakeup {s : Twin} (h : TwinInv s) {now : Nat} (hclock : s.clock ≤ now)
    (hok : s.plain.sleeping = false → s.plain.timeRecords = []) :
    TwinInv ⟨s.plain.onWakeup now, s.asked.onWakeup now, now⟩ := by
  have hlast : s.plain.lastSwitch ≤ now := le_trans h.lastSwitch hclock
  have hstamp : s.plain.progressStamp ≤ now := le_trans h.stamp hlast
  cases hs : s.plain.sleeping with
  | false =>
    have hnil : (s.plain.onWakeup now).timeRecords = [] := by simp [ThreadLoadCounter.onWakeup, hs, hok hs]
    rw [progressStamp, hs] at hstamp
    rw [h.asked_eq (hok hs)]
    exact .unrecorded hnil hstamp rfl
  | true =>
    have hsleeping : s.asked.sleeping = s.plain.sleeping := by rw [h.same]
    rw [onWakeup_of_sleeping hs, onWakeup_of_sleeping (hsleeping.trans hs), hsleeping, h.asked_lastSwitch,
      subU64_of_le hlast]
    rw [ThreadLoadCounter.lastSwitch, hs] at hlast
    refine h.switch hclock rfl ?_ hlast rfl
    generalize s.asked.pushRecord _ = rs
    rw [h.same]

/-- After a `load` of both counters there is no difference left. -/
theorem TwinInv.load {s : Twin} (h : TwinInv s) {now : Nat} (hclock : s.clock ≤ now)
    (hlt : s.plain.measured now < 2 ^ 64) : TwinInv ⟨(s.plain.load now).1, (s.asked.load now).1, now⟩ where
  same := by rw [h.common_load hclock hlt]
  stamp := h.stamp
  lastSwitch := le_trans h.lastSwitch hclock
  length := le_trans (evict_suffix _ _ _ _).length_le h.length
  records := by
    rw [h.common_load hclock hlt]
    exact .inl rfl

/-- An additional `load` that keeps the window leaves the other counter with records it would remove. -/
theorem TwinInv.extra {s : Twin} (h : TwinInv s) {now : Nat} (hclock : s.clock ≤ now)
    (hlt : s.plain.measured now < 2 ^ 64) (hwindow : s.asked.KeepsWindow now) :
    TwinInv ⟨s.plain, (s.asked.load now).1, now⟩ := by
  have hle : s.plain.progressStamp ≤ now := le_trans h.stamp (le_trans h.lastSwitch hclock)
  have hasked := load_of_suffix hle hlt h.records.suffix
  rw [← h.same] at hasked
  rw [hasked]
  refine ⟨rfl, h.stamp, le_trans h.lastSwitch hclock, h.length, ?_⟩
  have hclock' := h.records.mono (Nat.sub_le_sub_right hclock s.plain.lastSwitch)
  refine hclock'.trans ?_
  rcases keep_cut (toUnsigned s.plain.maxUsec) (now - s.plain.progressStamp) s.asked.timeRecords with
    heq | ⟨ds, d, heq, hd⟩
  · exact .inl heq
  · refine .inr ⟨ds, d, heq, ?_⟩
    by_contra hfits
    have hmem : d :: keep (toUnsigned s.plain.maxUsec) (now - s.plain.progressStamp) s.asked.timeRecords ∈
        s.asked.timeRecords.tails := by
      rw [List.mem_tails]
      exact ⟨ds, heq.symm⟩
    have hkept := hwindow _ hmem
    rw [h.same] at hkept
    have hkept' := hkept (Nat.not_lt.1 hfits)
    exact Nat.not_lt.2 hkept' hd

theorem TwinInv.step {s t : Twin} {a : TwinCall} (h : TwinInv s) (hok : QueryHarmless s a)
    (hstep : s.step a = some t) : TwinInv t := by
  obtain ⟨⟨hclock, -⟩, ⟨⟩⟩ := Option.ite_none_right_eq_some.1 hstep
  cases a with
  | extra now => exact h.extra hclock hok.1 hok.2
  | common a =>
    cases a with
    | onSleep now => exact h.onSleep hclock hok
    | onWakeup now => exact h.onWakeup hclock hok
    | load now => exact h.load hclock hok

/-- Additional calls that keep the window do not change the answers of the common ones. -/
theorem along_sameAnswer {maxCount maxUsec : Int32} {current : Nat} {as : List TwinCall} {s : Twin}
    (hrun : Transition.exec Twin.step (.init maxCount maxUsec current) as = some s)
    (hok : Transition.Along Twin.step QueryHarmless (.init maxCount maxUsec current) as) :
    Transition.Along Twin.step SameAnswer (.init maxCount maxUsec current) as := by
  refine Transition.along_of_invariant (fun _ _ _ h hok hstep => h.step hok hstep) ?_
    (TwinInv.init maxCount maxUsec current) hok hrun
  intro s a t h hharmless hstep
  obtain ⟨⟨hclock, -⟩, -⟩ := Option.ite_none_right_eq_some.1 hstep
  rcases a with (now | now | now) | now
  · trivial
  · trivial
  · exact congrArg Prod.snd (h.common_load hclock hharmless)
  · trivial

/-- Window 100: asleep for 90, running for 5, asleep again; the first interval has left the window when a `load` is
added at 110. -/
def windowMovesOn : List TwinCall :=
  [.common (.onSleep 0), .common (.onWakeup 90), .common (.onSleep 95), .extra 110, .common (.onWakeup 120),
    .common (.load 125)]

theorem along_sameAnswer_windowMovesOn :
    Transition.Along Twin.step SameAnswer (.init 32 100 0) windowMovesOn :=
  along_sameAnswer (s := (Transition.exec Twin.step (.init 32 100 0) windowMovesOn).getD (.init 32 100 0)) (by decide)
    (by decide)

/-- Window 100: running for 10, asleep for 50, running again.  A `load` at 61 measures 51 instead of 1 and removes
all records; at 62 the load is 50, and 18 without that call. -/
def queryTooEarly : List TwinCall :=
  [.common (.onSleep 0), .common (.onWakeup 0), .common (.onSleep 10), .common (.onWakeup 60), .extra 61,
    .common (.onSleep 62), .common (.load 62)]

theorem not_sameAnswer_queryTooEarly :
    (Transition.exec Twin.step (.init 32 100 0) queryTooEarly).isSome ∧
      ¬ Transition.Along Twin.step SameAnswer (.init 32 100 0) queryTooEarly := by
  refine ⟨by decide, fun h => ?_⟩
  change Transition.Along Twin.step SameAnswer (.init 32 100 0)
    (queryTooEarly.dropLast ++ [.common (.load 62)]) at h
  have hlast := Transition.ok_of_along_append h rfl
  have hanswers : 50 = 18 := hlast
  omega

end ThreadLoadCounter

end AvcTool
