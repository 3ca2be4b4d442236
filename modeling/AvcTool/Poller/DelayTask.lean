import AvcTool.Lib.Multimap
import Mathlib.Algebra.Group.Nat.Defs
import Mathlib.Data.Finset.Basic
import Mathlib.Data.Finset.Dedup
import Mathlib.Data.Finset.Lattice.Lemmas

/-!
# The delay tasks of a poller

`scheduleDelayTask` takes the entries of `delay_tasks_` that are due at the clock reading it starts with, calls
them, and enters those that ask for another delay again; its result is the distance from the reading to the first
deadline that is left.  `runLoop` passes it to `epoll_wait` as the timeout.

A callback is described by what it does on the poller thread, an arbitrary list of `DelayAction`, and by what it
returns; `callback i` is the behaviour of the `i`-th call of the pass.  `pendingDeadlines` lists the deadlines that
are pending after a pass, from the callbacks alone, and `scheduleDelayTask_spec` says that `delay_tasks_` holds
exactly these.
-/

namespace AvcTool

instance linearOrderUInt64 : LinearOrder UInt64 where
  le_refl _ := UInt64.le_refl _
  le_trans _ _ _ := UInt64.le_trans
  le_antisymm _ _ := UInt64.le_antisymm
  le_total := UInt64.le_total
  lt_iff_le_not_ge a b := by rw [UInt64.lt_iff_toNat_lt, UInt64.le_iff_toNat_le, UInt64.le_iff_toNat_le]; omega
  toDecidableLE := inferInstance

/-- What a callback does to the delay tasks on the poller thread. -/
inductive DelayAction where
  | cancel (delayTask : Nat)
  /-- with the clock reading that `addDelayTask` makes -/
  | addDelayTask (clock : UInt64) (delayMs : Int32)
  deriving DecidableEq

/-- One call of a callback, with the delay it returns, or none if it throws. -/
structure CallbackRun where
  actions : List DelayAction
  delayMs : Option UInt64
  deriving DecidableEq

structure DelayTasks where
  delayTasks : Multimap UInt64 Nat
  /-- the delay tasks that are cancelled or have no function, whose `operator bool` is false -/
  dead : Finset Nat
  nextTask : Nat
  /-- the delay tasks that were called, in order -/
  invoked : List Nat

/-- The deadline that `addDelayTask` computes: the `int` is converted to `uint64_t`. -/
def delayDeadline (clock : UInt64) (delayMs : Int32) : UInt64 :=
  clock + delayMs.toInt64.toUInt64

/-- On the poller thread `addDelayTask` enters the new task at once. -/
def DelayTasks.act (s : DelayTasks) : DelayAction → DelayTasks
  | .cancel delayTask => { s with dead := insert delayTask s.dead }
  | .addDelayTask clock delayMs => { s with
      delayTasks := s.delayTasks.emplace (delayDeadline clock delayMs) s.nextTask
      nextTask := s.nextTask + 1 }

/-- The body of the loop for a task that is alive.  A delay of zero ends the task. -/
def DelayTasks.call (now : UInt64) (delayTask : Nat) (r : CallbackRun) (s : DelayTasks) : DelayTasks :=
  let s := r.actions.foldl DelayTasks.act { s with invoked := s.invoked ++ [delayTask] }
  match r.delayMs with
  -- the delay counts from the start of the pass, whatever time the callbacks take
  | some delayMs => if 0 < delayMs then { s with delayTasks := s.delayTasks.emplace (now + delayMs) delayTask } else s
  | none => s

/-- The loop over `delay_tasks_copy`, with the number of calls made so far.  It ends with the entries that are not
due, or with none if a callback throws. -/
def DelayTasks.runDue (now : UInt64) (callback : Nat → CallbackRun) :
    Nat → List (UInt64 × Nat) → DelayTasks → DelayTasks × Option (List (UInt64 × Nat))
  | _, [], s => (s, some [])
  | i, e :: es, s =>
    if e.1 ≤ now then
      if e.2 ∈ s.dead then runDue now callback i es s
      else if (callback i).delayMs = none then (s.call now e.2 (callback i), none)
      else runDue now callback (i + 1) es (s.call now e.2 (callback i))
    else (s, some (e :: es))

/-- `begin()->first - currentMillisecond`, or 0 if there is no delay task. -/
def DelayTasks.next (now : UInt64) (s : DelayTasks) : Int64 :=
  match s.delayTasks.entries with
  | [] => 0
  | e :: _ => (e.1 - now).toInt64

/-- `scheduleDelayTask` at the clock reading `now`; the result is none if an exception escapes. -/
def DelayTasks.scheduleDelayTask (now : UInt64) (callback : Nat → CallbackRun) (s : DelayTasks) :
    DelayTasks × Option Int64 :=
  match s.delayTasks.entries with
  | [] => (s, some 0)
  | e :: es =>
    match runDue now callback 0 (e :: es) { s with delayTasks := .empty } with
    | (s, none) => (s, none)
    | (s, some rest) =>
      let s := { s with delayTasks := s.delayTasks.insertAll rest }
      (s, some (s.next now))

/-- The timeout that `runLoop` passes to `epoll_wait`, an `int`. -/
def epollTimeout (next : Int64) : Int32 :=
  (if 0 < next then next else -1).toInt32

/-- `epoll_wait` with a negative timeout blocks until an event comes. -/
def SleepsInTime (timeout : Int32) (sleep : UInt64) (delayTasks : Multimap UInt64 Nat) : Prop :=
  (timeout < 0 → delayTasks.entries = []) ∧
    ∀ e ∈ delayTasks.entries, timeout.toInt ≤ max 0 ((e.1.toNat : Int) - sleep.toNat)

/-! ### What is pending after a pass -/

def cancelledTasks (actions : List DelayAction) : List Nat :=
  actions.filterMap fun
    | .cancel delayTask => some delayTask
    | .addDelayTask _ _ => none

def addedDeadlines (actions : List DelayAction) : List UInt64 :=
  actions.filterMap fun
    | .cancel _ => none
    | .addDelayTask clock delayMs => some (delayDeadline clock delayMs)

/-- The deadline at which the task is to be called again. -/
def nextDeadline (now : UInt64) : Option UInt64 → List UInt64
  | some delayMs => if 0 < delayMs then [now + delayMs] else []
  | none => []

def CallbackRun.deadlines (now : UInt64) (r : CallbackRun) : List UInt64 :=
  addedDeadlines r.actions ++ nextDeadline now r.delayMs

/-- The calls of a pass: the entries that are due and were not cancelled before their turn. -/
def dueRuns (now : UInt64) (callback : Nat → CallbackRun) :
    Nat → Finset Nat → List (UInt64 × Nat) → List (Nat × CallbackRun)
  | _, _, [] => []
  | i, dead, e :: es =>
    if now < e.1 then []
    else if e.2 ∈ dead then dueRuns now callback i dead es
    else (e.2, callback i) :: dueRuns now callback (i + 1) (dead ∪ (cancelledTasks (callback i).actions).toFinset) es

def DelayTasks.deadlines (s : DelayTasks) : List UInt64 := s.delayTasks.entries.map Prod.fst

/-- The deadlines of the entries that are not due and those that the callbacks leave behind. -/
def pendingDeadlines (now : UInt64) (callback : Nat → CallbackRun) (s : DelayTasks) : List UInt64 :=
  s.deadlines.filter (now < ·) ++
    (dueRuns now callback 0 s.dead s.delayTasks.entries).flatMap fun c => c.2.deadlines now

/-- The earliest deadline lies after the reading of the pass, at a distance that the conversions leave positive, and
the loop goes to sleep so early that this distance, cut to 32 bits, does not reach beyond it. -/
def WakesInTime (now sleep : UInt64) (deadlines : List UInt64) : Prop :=
  ∀ first ∈ deadlines, (∀ d ∈ deadlines, first ≤ d) →
    let distance := (first - now).toNat
    0 < distance ∧ distance < 2 ^ 63 ∧ distance % 2 ^ 32 < 2 ^ 31 ∧
      (distance % 2 ^ 32 = 0 ∨ sleep.toNat + distance % 2 ^ 32 ≤ first.toNat)

/-! ### One call -/

private theorem mem_deadlines_emplace {s : DelayTasks} {k d : UInt64} {delayTask : Nat} :
    d ∈ ({ s with delayTasks := s.delayTasks.emplace k delayTask } : DelayTasks).deadlines ↔
      d = k ∨ d ∈ s.deadlines := by
  simp only [DelayTasks.deadlines, List.mem_map, Multimap.mem_emplace]
  constructor
  · rintro ⟨e, rfl | he, rfl⟩
    · exact .inl rfl
    · exact .inr ⟨e, he, rfl⟩
  · rintro (rfl | ⟨e, he, rfl⟩)
    · exact ⟨(d, delayTask), .inl rfl, rfl⟩
    · exact ⟨e, .inr he, rfl⟩

private theorem dead_foldl_act (actions : List DelayAction) (s : DelayTasks) :
    (actions.foldl DelayTasks.act s).dead = s.dead ∪ (cancelledTasks actions).toFinset := by
  induction actions generalizing s with
  | nil => simp [cancelledTasks]
  | cons a actions ih =>
    rw [List.foldl_cons, ih]
    cases a with
    | cancel delayTask =>
      have hcancel : cancelledTasks (.cancel delayTask :: actions) = delayTask :: cancelledTasks actions := rfl
      rw [hcancel, List.toFinset_cons, Finset.union_insert, ← Finset.insert_union]
      rfl
    | addDelayTask clock delayMs => rfl

private theorem mem_deadlines_foldl_act (actions : List DelayAction) {s : DelayTasks} {d : UInt64} :
    d ∈ (actions.foldl DelayTasks.act s).deadlines ↔ d ∈ s.deadlines ∨ d ∈ addedDeadlines actions := by
  induction actions generalizing s with
  | nil => simp [addedDeadlines]
  | cons a actions ih =>
    rw [List.foldl_cons, ih]
    cases a with
    | cancel delayTask => rfl
    | addDelayTask clock delayMs =>
      have hact : d ∈ (s.act (.addDelayTask clock delayMs)).deadlines ↔
          d = delayDeadline clock delayMs ∨ d ∈ s.deadlines := mem_deadlines_emplace
      have hadd : addedDeadlines (.addDelayTask clock delayMs :: actions) =
          delayDeadline clock delayMs :: addedDeadlines actions := rfl
      rw [hact, hadd, List.mem_cons]
      tauto

/-- Beside `delay_tasks_`, a call changes what the callback does. -/
theorem DelayTasks.call_frame (now : UInt64) (delayTask : Nat) (r : CallbackRun) (s : DelayTasks) :
    ∃ delayTasks, s.call now delayTask r =
      { r.actions.foldl DelayTasks.act { s with invoked := s.invoked ++ [delayTask] } with
        delayTasks := delayTasks } := by
  unfold DelayTasks.call
  cases r.delayMs with
  | none => exact ⟨_, rfl⟩
  | some delayMs =>
    by_cases hpos : 0 < delayMs
    · exact ⟨_, if_pos hpos⟩
    · exact ⟨_, if_neg hpos⟩

theorem dead_call (now : UInt64) (delayTask : Nat) (r : CallbackRun) (s : DelayTasks) :
    (s.call now delayTask r).dead = s.dead ∪ (cancelledTasks r.actions).toFinset := by
  obtain ⟨delayTasks, hcall⟩ := s.call_frame now delayTask r
  rw [hcall]
  exact dead_foldl_act r.actions { s with invoked := s.invoked ++ [delayTask] }

private theorem mem_deadlines_call {now : UInt64} {delayTask : Nat} {r : CallbackRun} {s : DelayTasks} {d : UInt64} :
    d ∈ (s.call now delayTask r).deadlines ↔ d ∈ s.deadlines ∨ d ∈ r.deadlines now := by
  have hact : d ∈ (r.actions.foldl DelayTasks.act { s with invoked := s.invoked ++ [delayTask] }).deadlines ↔
      d ∈ s.deadlines ∨ d ∈ addedDeadlines r.actions := mem_deadlines_foldl_act r.actions
  unfold DelayTasks.call CallbackRun.deadlines
  rw [List.mem_append, ← or_assoc, ← hact]
  cases r.delayMs with
  | none => simp [nextDeadline]
  | some delayMs =>
    simp only [nextDeadline]
    split
    · rw [mem_deadlines_emplace, List.mem_singleton, or_comm]
    · simp

/-! ### The pass -/

private theorem runDue_spec (now : UInt64) {callback : Nat → CallbackRun} (hret : ∀ i, (callback i).delayMs ≠ none)
    (i : Nat) (es : List (UInt64 × Nat)) (s : DelayTasks) :
    (s.runDue now callback i es).2 = some (es.dropWhile (·.1 ≤ now)) ∧
      ∀ d, d ∈ (s.runDue now callback i es).1.deadlines ↔
        d ∈ s.deadlines ∨ d ∈ (dueRuns now callback i s.dead es).flatMap fun c => c.2.deadlines now := by
  induction es generalizing i s with
  | nil => simp [DelayTasks.runDue, dueRuns]
  | cons e es ih =>
    by_cases hdue : e.1 ≤ now
    · have hlt : ¬ now < e.1 := not_lt.2 hdue
      have hdrop : (e :: es).dropWhile (·.1 ≤ now) = es.dropWhile (·.1 ≤ now) := by simp [hdue]
      by_cases hdead : e.2 ∈ s.dead
      · rw [DelayTasks.runDue, dueRuns, if_pos hdue, if_pos hdead, if_neg hlt, if_pos hdead, hdrop]
        exact ih i s
      · rw [DelayTasks.runDue, dueRuns, if_pos hdue, if_neg hdead, if_neg (hret i), if_neg hlt, if_neg hdead, hdrop]
        obtain ⟨hrest, hmem⟩ := ih (i + 1) (s.call now e.2 (callback i))
        refine ⟨hrest, fun d => ?_⟩
        rw [hmem d, mem_deadlines_call, dead_call, List.flatMap_cons, List.mem_append, or_assoc]
    · have hlt : now < e.1 := not_le.1 hdue
      rw [DelayTasks.runDue, dueRuns, if_neg hdue, if_pos hlt]
      simp [hdue]

/-- In the order of the deadlines, the entries behind the first one that is not due are those that are not due. -/
private theorem mem_dropWhile_due {now : UInt64} {es : List (UInt64 × Nat)} (h : es.Pairwise fun a b => a.1 ≤ b.1)
    {e : UInt64 × Nat} : e ∈ es.dropWhile (·.1 ≤ now) ↔ e ∈ es ∧ now < e.1 := by
  induction es with
  | nil => simp
  | cons b es ih =>
    rw [List.pairwise_cons] at h
    by_cases hdue : b.1 ≤ now
    · have hdrop : (b :: es).dropWhile (·.1 ≤ now) = es.dropWhile (·.1 ≤ now) := by simp [hdue]
      rw [hdrop, ih h.2, List.mem_cons]
      constructor
      · exact fun ⟨he, hlt⟩ => ⟨.inr he, hlt⟩
      · rintro ⟨rfl | he, hlt⟩
        · exact absurd hdue (not_le.2 hlt)
        · exact ⟨he, hlt⟩
    · have hlt : now < b.1 := not_le.1 hdue
      have hdrop : (b :: es).dropWhile (·.1 ≤ now) = b :: es := by simp [hdue]
      rw [hdrop, List.mem_cons]
      refine ⟨fun he => ⟨he, ?_⟩, fun he => he.1⟩
      rcases he with rfl | he
      · exact hlt
      · exact lt_of_lt_of_le hlt (h.1 e he)

/-- A pass whose callbacks do not throw returns the distance to the first deadline that is left, and the deadlines
that are left are the pending ones. -/
private theorem scheduleDelayTask_spec (now : UInt64) {callback : Nat → CallbackRun}
    (hret : ∀ i, (callback i).delayMs ≠ none) (s : DelayTasks) :
    ∃ t : DelayTasks, s.scheduleDelayTask now callback = (t, some (t.next now)) ∧
      ∀ d, d ∈ t.deadlines ↔ d ∈ pendingDeadlines now callback s := by
  unfold DelayTasks.scheduleDelayTask
  split
  · rename_i hempty
    refine ⟨s, by simp [DelayTasks.next, hempty], ?_⟩
    simp [DelayTasks.deadlines, pendingDeadlines, hempty, dueRuns]
  · rename_i e es hes
    obtain ⟨hrest, hmem⟩ := runDue_spec now hret 0 (e :: es) { s with delayTasks := .empty }
    generalize hrun : DelayTasks.runDue now callback 0 (e :: es) { s with delayTasks := .empty } = p at hrest hmem
    obtain ⟨t, rest⟩ := p
    obtain rfl : rest = some ((e :: es).dropWhile (·.1 ≤ now)) := hrest
    refine ⟨_, rfl, fun d => ?_⟩
    have hsorted := s.delayTasks.sorted
    rw [hes] at hsorted
    have hmem' : d ∈ t.deadlines ↔
        d ∈ (dueRuns now callback 0 s.dead (e :: es)).flatMap fun c => c.2.deadlines now := by
      simpa [DelayTasks.deadlines] using hmem d
    have hrest' : d ∈ ((e :: es).dropWhile (·.1 ≤ now)).map Prod.fst ↔ d ∈ s.deadlines.filter (now < ·) := by
      simp only [List.mem_map, List.mem_filter, mem_dropWhile_due hsorted, DelayTasks.deadlines, hes,
        decide_eq_true_eq]
      constructor
      · rintro ⟨b, ⟨hb, hlt⟩, rfl⟩
        exact ⟨⟨b, hb, rfl⟩, hlt⟩
      · rintro ⟨⟨b, hb, rfl⟩, hlt⟩
        exact ⟨b, ⟨hb, hlt⟩, rfl⟩
    rw [pendingDeadlines, List.mem_append, hes, ← hmem', ← hrest']
    simp only [DelayTasks.deadlines, List.mem_map, Multimap.mem_insertAll]
    constructor
    · rintro ⟨b, hb | hb, rfl⟩
      · exact .inr ⟨b, hb, rfl⟩
      · exact .inl ⟨b, hb, rfl⟩
    · rintro (⟨b, hb, rfl⟩ | ⟨b, hb, rfl⟩)
      · exact ⟨b, .inr hb, rfl⟩
      · exact ⟨b, .inl hb, rfl⟩

/-! ### The timeout -/

/-- The distance survives the conversion to `int64_t` if it is positive there, and is then cut to 32 bits. -/
private theorem toInt_epollTimeout (x : UInt64) :
    (epollTimeout x.toInt64).toInt = if 0 < x.toNat ∧ x.toNat < 2 ^ 63 then (x.toNat : Int).bmod (2 ^ 32) else -1 := by
  have hlt := x.toNat_lt
  have hx : x.toInt64.toInt = (x.toNat : Int).bmod (2 ^ 64) := BitVec.toInt_eq_toNat_bmod x.toBitVec
  have hsign : x.toInt64.toInt = if x.toNat < 2 ^ 63 then (x.toNat : Int) else x.toNat - 2 ^ 64 := by
    rw [hx, Int.bmod_def]
    split <;> split <;> omega
  have hpos : (0 : Int64) < x.toInt64 ↔ 0 < x.toNat ∧ x.toNat < 2 ^ 63 := by
    rw [Int64.lt_iff_toInt_lt, hsign]
    show (0 : Int) < _ ↔ _
    split <;> omega
  unfold epollTimeout
  rw [if_congr hpos rfl rfl]
  split
  · rename_i h
    rw [Int64.toInt_toInt32, hsign, if_pos h.2]
  · rfl

/-- For the first entry of the map the timeout is right exactly if it is not negative and not too long. -/
private theorem sleepsInTime_cons {timeout : Int32} {sleep : UInt64} {m : Multimap UInt64 Nat} {e : UInt64 × Nat}
    {es : List (UInt64 × Nat)} (h : m.entries = e :: es) :
    SleepsInTime timeout sleep m ↔
      0 ≤ timeout.toInt ∧ timeout.toInt ≤ max 0 ((e.1.toNat : Int) - sleep.toNat) := by
  unfold SleepsInTime
  rw [h, Int32.lt_iff_toInt_lt]
  constructor
  · rintro ⟨hfinite, hle⟩
    refine ⟨?_, hle e List.mem_cons_self⟩
    by_contra hneg
    cases hfinite (not_le.1 hneg)
  · rintro ⟨hnonneg, hle⟩
    refine ⟨fun hneg => absurd hnonneg (not_le.2 hneg), fun e' he' => hle.trans ?_⟩
    rw [← h] at he'
    have hfirst : e.1.toNat ≤ e'.1.toNat := UInt64.le_iff_toNat_le.1 (Multimap.begin_le h he')
    omega

private theorem timeout_ok_iff (now sleep first : UInt64) :
    (0 ≤ (epollTimeout (first - now).toInt64).toInt ∧
        (epollTimeout (first - now).toInt64).toInt ≤ max 0 ((first.toNat : Int) - sleep.toNat)) ↔
      0 < (first - now).toNat ∧ (first - now).toNat < 2 ^ 63 ∧ (first - now).toNat % 2 ^ 32 < 2 ^ 31 ∧
        ((first - now).toNat % 2 ^ 32 = 0 ∨ sleep.toNat + (first - now).toNat % 2 ^ 32 ≤ first.toNat) := by
  rw [toInt_epollTimeout]
  generalize (first - now).toNat = x
  by_cases hx : 0 < x ∧ x < 2 ^ 63
  · rw [if_pos hx, Int.bmod_def]
    split <;> omega
  · rw [if_neg hx]
    omega

private theorem wakesInTime_cons {now sleep : UInt64} {t : DelayTasks} {e : UInt64 × Nat} {es : List (UInt64 × Nat)}
    {deadlines : List UInt64} (h : t.delayTasks.entries = e :: es) (hd : ∀ d, d ∈ t.deadlines ↔ d ∈ deadlines) :
    WakesInTime now sleep deadlines ↔
      0 < (e.1 - now).toNat ∧ (e.1 - now).toNat < 2 ^ 63 ∧ (e.1 - now).toNat % 2 ^ 32 < 2 ^ 31 ∧
        ((e.1 - now).toNat % 2 ^ 32 = 0 ∨ sleep.toNat + (e.1 - now).toNat % 2 ^ 32 ≤ e.1.toNat) := by
  have hmem : e.1 ∈ deadlines := (hd _).1 (List.mem_map.2 ⟨e, by rw [h]; exact List.mem_cons_self, rfl⟩)
  have hleast : ∀ d ∈ deadlines, e.1 ≤ d := by
    intro d hdm
    obtain ⟨e', he', rfl⟩ := List.mem_map.1 ((hd d).2 hdm)
    exact Multimap.begin_le h he'
  constructor
  · exact fun hw => hw e.1 hmem hleast
  · intro hw first hfirst hle
    obtain rfl : first = e.1 := le_antisymm (hle _ hmem) (hleast _ hfirst)
    exact hw

/-- After a pass whose callbacks do not throw, `runLoop` gives `epoll_wait` a timeout that is right for the timers in
`delay_tasks_` if and only if the earliest pending deadline is so placed. -/
theorem sleeps_in_time_iff {now sleep : UInt64} {callback : Nat → CallbackRun} {s : DelayTasks}
    (hret : ∀ i, (callback i).delayMs ≠ none) :
    ∃ t next, s.scheduleDelayTask now callback = (t, some next) ∧
      (SleepsInTime (epollTimeout next) sleep t.delayTasks ↔
        WakesInTime now sleep (pendingDeadlines now callback s)) := by
  obtain ⟨t, ht, hd⟩ := scheduleDelayTask_spec now hret s
  refine ⟨t, t.next now, ht, ?_⟩
  cases hes : t.delayTasks.entries with
  | nil =>
    have hnone : ∀ d, d ∉ pendingDeadlines now callback s := fun d hdm => by
      simpa [DelayTasks.deadlines, hes] using (hd d).2 hdm
    have hsleep : SleepsInTime (epollTimeout (t.next now)) sleep t.delayTasks := ⟨fun _ => hes, by simp [hes]⟩
    exact iff_of_true hsleep fun first hfirst => absurd hfirst (hnone first)
  | cons e es =>
    have hnext : t.next now = (e.1 - now).toInt64 := by simp only [DelayTasks.next, hes]
    rw [hnext, sleepsInTime_cons hes, timeout_ok_iff, wakesInTime_cons hes hd]

def twoTimers : DelayTasks :=
  { delayTasks := (Multimap.empty.emplace 1000 0).emplace 2000 1, dead := ∅, nextTask := 2, invoked := [] }

/-- The due timer asks to be called again after 500 milliseconds. -/
theorem sleeps_in_time_iff_twoTimers :
    ∃ t next, twoTimers.scheduleDelayTask 1000 (fun _ => ⟨[], some 500⟩) = (t, some next) ∧
      (SleepsInTime (epollTimeout next) 1000 t.delayTasks ↔
        WakesInTime 1000 1000 (pendingDeadlines 1000 (fun _ => ⟨[], some 500⟩) twoTimers)) :=
  @sleeps_in_time_iff 1000 1000 (fun _ => ⟨[], some 500⟩) twoTimers nofun

/-- The due timer adds another one without delay, which is due in the same millisecond: the loop blocks for good. -/
theorem sleeps_past_due_timer :
    ∃ t next, twoTimers.scheduleDelayTask 1000 (fun _ => ⟨[.addDelayTask 1000 0], some 0⟩) = (t, some next) ∧
      epollTimeout next = -1 ∧ t.delayTasks.entries = [(1000, 2), (2000, 1)] ∧
      ¬ SleepsInTime (epollTimeout next) 1000 t.delayTasks := by
  refine ⟨_, _, rfl, by decide, by decide, fun h => ?_⟩
  exact absurd (h.1 (by decide)) (by decide)

end AvcTool
