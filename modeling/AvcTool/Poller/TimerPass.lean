import Mathlib.Algebra.Order.Group.Multiset
import AvcTool.Poller.DelayTask

/-!
# One pass over the delay tasks

`turns` are the calls of a pass, from the entries that are due when it starts.  A pass in which none of them throws
calls exactly these, in their order, and leaves the entries that are not due, the entries of the tasks that asked for
another delay, and those that the callbacks have added (`scheduleDelayTask_turns`).

The loops over the events and over the queued tasks catch what is thrown in them; the one in `scheduleDelayTask` does
not, and neither does `runLoop` around it.  So an exception leaves the loop with what it had in the copy
(`spares_others_iff`).
-/

namespace AvcTool

/-- The call of a delay task. -/
structure Turn where
  entry : UInt64 × Nat
  run : CallbackRun
  deriving DecidableEq

/-- The entry that the task gets if it asks for another delay. -/
def Turn.rescheduled (now : UInt64) (c : Turn) : Option (UInt64 × Nat) :=
  match c.run.delayMs with
  | some delayMs => if 0 < delayMs then some (now + delayMs, c.entry.2) else none
  | none => none

/-- The calls for the entries that are due.  The `i`-th call is for the first entry left whose task is neither
cancelled nor without a function by then. -/
def turnsOf (callback : Nat → CallbackRun) : Nat → Finset Nat → List (UInt64 × Nat) → List Turn
  | _, _, [] => []
  | i, dead, e :: es =>
    if e.2 ∈ dead then turnsOf callback i dead es
    else ⟨e, callback i⟩ :: turnsOf callback (i + 1) (dead ∪ (cancelledTasks (callback i).actions).toFinset) es

/-- The entries that a callback adds, whose tasks are numbered from `next` on. -/
def addedEntries : Nat → List DelayAction → List (UInt64 × Nat)
  | _, [] => []
  | next, .cancel _ :: actions => addedEntries next actions
  | next, .addDelayTask clock delayMs :: actions =>
    (delayDeadline clock delayMs, next) :: addedEntries (next + 1) actions

namespace DelayTasks

def due (now : UInt64) (s : DelayTasks) : List (UInt64 × Nat) := s.delayTasks.entries.filter (·.1 ≤ now)

def notDue (now : UInt64) (s : DelayTasks) : List (UInt64 × Nat) := s.delayTasks.entries.filter (now < ·.1)

def turns (now : UInt64) (callback : Nat → CallbackRun) (s : DelayTasks) : List Turn :=
  turnsOf callback 0 s.dead (s.due now)

def leftBy (now : UInt64) (next : Nat) (cs : List Turn) : List (UInt64 × Nat) :=
  cs.filterMap (Turn.rescheduled now) ++ addedEntries next (cs.flatMap fun c => c.run.actions)

end DelayTasks

private theorem turnsOf_sublist (callback : Nat → CallbackRun) (i : Nat) (dead : Finset Nat)
    (es : List (UInt64 × Nat)) : ((turnsOf callback i dead es).map Turn.entry).Sublist es := by
  induction es generalizing i dead with
  | nil => exact List.Sublist.refl []
  | cons e es ih =>
    unfold turnsOf
    split
    · exact (ih i dead).cons e
    · exact (ih _ _).cons_cons e

/-! ### One call -/

private theorem nextTask_foldl_act (actions : List DelayAction) (s : DelayTasks) :
    (actions.foldl DelayTasks.act s).nextTask = s.nextTask + (addedEntries s.nextTask actions).length := by
  induction actions generalizing s with
  | nil => rfl
  | cons a actions ih =>
    rw [List.foldl_cons, ih]
    cases a with
    | cancel delayTask => rfl
    | addDelayTask clock delayMs =>
      simp only [DelayTasks.act, addedEntries, List.length_cons]
      omega

private theorem invoked_foldl_act (actions : List DelayAction) (s : DelayTasks) :
    (actions.foldl DelayTasks.act s).invoked = s.invoked := by
  induction actions generalizing s with
  | nil => rfl
  | cons a actions ih =>
    rw [List.foldl_cons, ih]
    cases a <;> rfl

private theorem bag_foldl_act (actions : List DelayAction) (s : DelayTasks) :
    (actions.foldl DelayTasks.act s).delayTasks.bag = s.delayTasks.bag + ↑(addedEntries s.nextTask actions) := by
  induction actions generalizing s with
  | nil => simp [addedEntries]
  | cons a actions ih =>
    rw [List.foldl_cons, ih]
    cases a with
    | cancel delayTask => rfl
    | addDelayTask clock delayMs =>
      simp only [DelayTasks.act, addedEntries, Multimap.bag_emplace]
      rw [← Multiset.cons_coe, Multiset.cons_add, Multiset.add_cons]

private theorem addedEntries_append (next : Nat) (as bs : List DelayAction) :
    addedEntries next (as ++ bs) = addedEntries next as ++ addedEntries (next + (addedEntries next as).length) bs := by
  induction as generalizing next with
  | nil => rfl
  | cons a as ih =>
    cases a with
    | cancel delayTask => exact ih next
    | addDelayTask clock delayMs =>
      have hlen : next + 1 + (addedEntries (next + 1) as).length =
          next + ((addedEntries (next + 1) as).length + 1) := by omega
      simp only [List.cons_append, addedEntries, ih, List.length_cons, hlen]

private theorem nextTask_call (now : UInt64) (delayTask : Nat) (r : CallbackRun) (s : DelayTasks) :
    (s.call now delayTask r).nextTask = s.nextTask + (addedEntries s.nextTask r.actions).length := by
  obtain ⟨delayTasks, hcall⟩ := s.call_frame now delayTask r
  rw [hcall]
  exact nextTask_foldl_act r.actions { s with invoked := s.invoked ++ [delayTask] }

private theorem invoked_call (now : UInt64) (delayTask : Nat) (r : CallbackRun) (s : DelayTasks) :
    (s.call now delayTask r).invoked = s.invoked ++ [delayTask] := by
  obtain ⟨delayTasks, hcall⟩ := s.call_frame now delayTask r
  rw [hcall]
  exact invoked_foldl_act r.actions { s with invoked := s.invoked ++ [delayTask] }

private theorem bag_call (now : UInt64) (e : UInt64 × Nat) (r : CallbackRun) (s : DelayTasks) :
    (s.call now e.2 r).delayTasks.bag =
      s.delayTasks.bag + ↑(DelayTasks.leftBy now s.nextTask [⟨e, r⟩]) := by
  have hbag := bag_foldl_act r.actions { s with invoked := s.invoked ++ [e.2] }
  unfold DelayTasks.call DelayTasks.leftBy
  cases hdelay : r.delayMs with
  | none => simpa [Turn.rescheduled, hdelay] using hbag
  | some delayMs =>
    by_cases hpos : 0 < delayMs
    · simp only [hpos, if_true, Multimap.bag_emplace, hbag]
      simp [Turn.rescheduled, hdelay, hpos, ← Multiset.cons_coe]
    · simpa [Turn.rescheduled, hdelay, hpos] using hbag

private theorem coe_leftBy_nil (now : UInt64) (next : Nat) :
    (↑(DelayTasks.leftBy now next []) : Multiset (UInt64 × Nat)) = 0 :=
  rfl

private theorem coe_leftBy_cons (now : UInt64) (next : Nat) (c : Turn) (cs : List Turn) :
    (↑(DelayTasks.leftBy now next (c :: cs)) : Multiset (UInt64 × Nat)) =
      ↑(DelayTasks.leftBy now next [c]) +
        ↑(DelayTasks.leftBy now (next + (addedEntries next c.run.actions).length) cs) := by
  have happ : DelayTasks.leftBy now next (c :: cs) =
      [c].filterMap (Turn.rescheduled now) ++ cs.filterMap (Turn.rescheduled now) ++
        (addedEntries next c.run.actions ++
          addedEntries (next + (addedEntries next c.run.actions).length) (cs.flatMap fun c => c.run.actions)) := by
    rw [DelayTasks.leftBy, ← List.filterMap_append, List.flatMap_cons, addedEntries_append]
    rfl
  rw [happ]
  simp only [DelayTasks.leftBy, List.flatMap_cons, List.flatMap_nil, List.append_nil, ← Multiset.coe_add]
  exact add_add_add_comm _ _ _ _

/-! ### The pass -/

private theorem filter_notDue_cons {now : UInt64} {e : UInt64 × Nat} {es : List (UInt64 × Nat)}
    (h : (e :: es).Pairwise fun a b => a.1 ≤ b.1) (hlate : now < e.1) :
    (e :: es).filter (·.1 ≤ now) = [] ∧ (e :: es).filter (now < ·.1) = e :: es := by
  have hall : ∀ b ∈ e :: es, now < b.1 := by
    intro b hb
    rcases List.mem_cons.1 hb with rfl | hb
    · exact hlate
    · exact hlate.trans_le ((List.pairwise_cons.1 h).1 b hb)
  constructor
  · rw [List.filter_eq_nil_iff]
    exact fun b hb => by simpa using hall b hb
  · rw [List.filter_eq_self]
    exact fun b hb => by simpa using hall b hb

/-- The loop makes the calls if none of them throws, and ends with the entries that are not due. -/
private theorem runDue_turns {now : UInt64} {callback : Nat → CallbackRun} {i : Nat} {es : List (UInt64 × Nat)}
    (hsorted : es.Pairwise fun a b => a.1 ≤ b.1) {s : DelayTasks}
    (hret : ∀ c ∈ turnsOf callback i s.dead (es.filter (·.1 ≤ now)), c.run.delayMs ≠ none) :
    ∃ t, s.runDue now callback i es = (t, some (es.filter (now < ·.1))) ∧
      t.invoked = s.invoked ++ (turnsOf callback i s.dead (es.filter (·.1 ≤ now))).map (fun c => c.entry.2) ∧
      t.delayTasks.bag = s.delayTasks.bag +
        ↑(DelayTasks.leftBy now s.nextTask (turnsOf callback i s.dead (es.filter (·.1 ≤ now)))) := by
  induction es generalizing i s with
  | nil => exact ⟨s, rfl, (List.append_nil _).symm, by rw [List.filter_nil, turnsOf, coe_leftBy_nil, add_zero]⟩
  | cons e es ih =>
    by_cases hdue : e.1 ≤ now
    · have hfilter : (e :: es).filter (·.1 ≤ now) = e :: es.filter (·.1 ≤ now) := by simp [hdue]
      have hlater : (e :: es).filter (now < ·.1) = es.filter (now < ·.1) := by simp [hdue]
      have hsorted' := (List.pairwise_cons.1 hsorted).2
      rw [hfilter, turnsOf] at hret
      rw [hfilter, hlater, turnsOf, DelayTasks.runDue, if_pos hdue]
      by_cases hdead : e.2 ∈ s.dead
      · simp only [if_pos hdead] at hret ⊢
        exact ih hsorted' hret
      · simp only [if_neg hdead, List.forall_mem_cons] at hret ⊢
        simp only [if_neg hret.1]
        -- what the callback has cancelled counts from the next entry on
        rw [← dead_call now e.2] at hret ⊢
        obtain ⟨t, hrun, hinvoked, hbag⟩ := ih hsorted' hret.2
        refine ⟨t, hrun, ?_, ?_⟩
        · rw [hinvoked, invoked_call, List.map_cons, List.append_assoc]
          rfl
        · rw [hbag, bag_call, nextTask_call, coe_leftBy_cons now s.nextTask ⟨e, callback i⟩ (turnsOf _ _ _ _),
            add_assoc]
    · -- the map is sorted, so nothing behind this entry is due
      obtain ⟨hnone, hall⟩ := filter_notDue_cons hsorted (not_le.1 hdue)
      rw [hnone, hall, DelayTasks.runDue, if_neg hdue]
      exact ⟨s, rfl, (List.append_nil _).symm, by rw [turnsOf, coe_leftBy_nil, add_zero]⟩

private theorem runDue_throws {now : UInt64} {callback : Nat → CallbackRun} {i : Nat} {es : List (UInt64 × Nat)}
    (hsorted : es.Pairwise fun a b => a.1 ≤ b.1) {s : DelayTasks} {c : Turn}
    (hc : c ∈ turnsOf callback i s.dead (es.filter (·.1 ≤ now))) (hthrow : c.run.delayMs = none) :
    (s.runDue now callback i es).2 = none := by
  induction es generalizing i s with
  | nil => cases hc
  | cons e es ih =>
    by_cases hdue : e.1 ≤ now
    · have hfilter : (e :: es).filter (·.1 ≤ now) = e :: es.filter (·.1 ≤ now) := by simp [hdue]
      have hsorted' := (List.pairwise_cons.1 hsorted).2
      rw [hfilter, turnsOf] at hc
      rw [DelayTasks.runDue, if_pos hdue]
      by_cases hdead : e.2 ∈ s.dead
      · simp only [if_pos hdead] at hc ⊢
        exact ih hsorted' hc
      · simp only [if_neg hdead, List.mem_cons] at hc ⊢
        by_cases hfirst : (callback i).delayMs = none
        · simp only [if_pos hfirst]
        · simp only [if_neg hfirst]
          rw [← dead_call now e.2] at hc
          rcases hc with rfl | hc
          · exact absurd hthrow hfirst
          · exact ih hsorted' hc
    · obtain ⟨hnone, -⟩ := filter_notDue_cons hsorted (not_le.1 hdue)
      rw [hnone] at hc
      cases hc

/-- One pass is what it should be: no call but the turns, each once and in the order of the deadlines, and nothing
lost or twice in `delay_tasks_` afterwards. -/
structure PassOf (now : UInt64) (cs : List Turn) (s t : DelayTasks) : Prop where
  invoked : t.invoked = s.invoked ++ cs.map fun c => c.entry.2
  left : t.delayTasks.bag = ↑(s.notDue now) + ↑(DelayTasks.leftBy now s.nextTask cs)

/-- A pass whose callbacks do not throw. -/
theorem scheduleDelayTask_turns {now : UInt64} {callback : Nat → CallbackRun} {s : DelayTasks}
    (hret : ∀ c ∈ s.turns now callback, c.run.delayMs ≠ none) :
    ((s.turns now callback).map Turn.entry).Sublist (s.due now) ∧
      ∃ t next, s.scheduleDelayTask now callback = (t, some next) ∧ PassOf now (s.turns now callback) s t := by
  refine ⟨turnsOf_sublist callback 0 s.dead (s.due now), ?_⟩
  unfold DelayTasks.scheduleDelayTask
  split
  · rename_i hempty
    have hturns : s.turns now callback = [] := by simp [DelayTasks.turns, DelayTasks.due, hempty, turnsOf]
    refine ⟨s, 0, rfl, ?_, ?_⟩
    · rw [hturns, List.map_nil, List.append_nil]
    · rw [hturns, coe_leftBy_nil, DelayTasks.notDue, hempty, Multimap.bag, hempty]
      rfl
  · rename_i e es hes
    have hsorted := s.delayTasks.sorted
    unfold DelayTasks.turns DelayTasks.due at hret ⊢
    rw [hes] at hret hsorted ⊢
    obtain ⟨t, hrun, hinvoked, hbag⟩ :=
      runDue_turns (i := 0) (s := { s with delayTasks := .empty }) hsorted hret
    let u : DelayTasks := { t with delayTasks := t.delayTasks.insertAll ((e :: es).filter (now < ·.1)) }
    refine ⟨u, u.next now, ?_, hinvoked, ?_⟩
    · rw [hrun]
    · rw [Multimap.bag_insertAll, hbag, Multimap.bag_empty, zero_add, DelayTasks.notDue, hes, add_comm]

def threeTimers : DelayTasks :=
  { delayTasks := ((Multimap.empty.emplace 900 0).emplace 1000 1).emplace 2000 2, dead := ∅, nextTask := 3,
    invoked := [] }

/-- The first callback cancels the second timer and adds one that is due at once, and asks to be called again. -/
theorem scheduleDelayTask_turns_threeTimers :
    let callback (_ : Nat) : CallbackRun := ⟨[.cancel 1, .addDelayTask 1000 0], some 500⟩
    ((threeTimers.turns 1000 callback).map Turn.entry).Sublist (threeTimers.due 1000) ∧
      ∃ t next, threeTimers.scheduleDelayTask 1000 callback = (t, some next) ∧
        PassOf 1000 (threeTimers.turns 1000 callback) threeTimers t :=
  scheduleDelayTask_turns (by decide)

/-! ### Exceptions -/

/-- The pass treats the entries as if nothing had been thrown, up to what it does with an entry whose own callback
throws, and no exception leaves `scheduleDelayTask` and with it `runLoop`. -/
def DelayTasks.SparesOthers (now : UInt64) (callback : Nat → CallbackRun) (s : DelayTasks) : Prop :=
  ∃ t next, s.scheduleDelayTask now callback = (t, some next) ∧
    t.invoked = (s.invoked ++ (s.turns now callback).map fun c => c.entry.2) ∧
    ∃ kept : List (UInt64 × Nat),
      (∀ e ∈ kept, ∃ c ∈ s.turns now callback, c.run.delayMs = none ∧ e.2 = c.entry.2) ∧
        t.delayTasks.bag = ↑(s.notDue now) + ↑(leftBy now s.nextTask (s.turns now callback)) + ↑kept

private theorem scheduleDelayTask_throws {now : UInt64} {callback : Nat → CallbackRun} {s : DelayTasks} {c : Turn}
    (hc : c ∈ s.turns now callback) (hthrow : c.run.delayMs = none) : (s.scheduleDelayTask now callback).2 = none := by
  unfold DelayTasks.scheduleDelayTask
  split
  · rename_i hempty
    simp [DelayTasks.turns, DelayTasks.due, hempty, turnsOf] at hc
  · rename_i e es hes
    have hsorted := s.delayTasks.sorted
    unfold DelayTasks.turns DelayTasks.due at hc
    rw [hes] at hc hsorted
    have hthrows : ((({ s with delayTasks := .empty } : DelayTasks)).runDue now callback 0 (e :: es)).2 = none :=
      runDue_throws hsorted hc hthrow
    generalize DelayTasks.runDue now callback 0 (e :: es) { s with delayTasks := .empty } = p at hthrows
    obtain ⟨u, rest⟩ := p
    obtain rfl : rest = none := hthrows
    rfl

/-- A callback that throws harms the others, whichever of them it is. -/
theorem spares_others_iff (now : UInt64) (callback : Nat → CallbackRun) (s : DelayTasks) :
    s.SparesOthers now callback ↔ ∀ c ∈ s.turns now callback, c.run.delayMs ≠ none := by
  constructor
  · rintro ⟨t, next, hpass, -⟩ c hc hthrow
    have hescapes := scheduleDelayTask_throws hc hthrow
    rw [hpass] at hescapes
    cases hescapes
  · intro hret
    obtain ⟨-, t, next, hpass, hof⟩ := scheduleDelayTask_turns hret
    -- no entry is kept for a task that has thrown
    exact ⟨t, next, hpass, hof.invoked, [], nofun, by rw [hof.left, Multiset.coe_nil, add_zero]⟩

/-- The first of the timers throws: the second one is not called, and neither of the others is in `delay_tasks_`
afterwards. -/
theorem not_spares_others_threeTimers :
    let callback (_ : Nat) : CallbackRun := ⟨[], none⟩
    (threeTimers.scheduleDelayTask 1000 callback).2 = none ∧
      (threeTimers.scheduleDelayTask 1000 callback).1.invoked = [0] ∧
      (threeTimers.scheduleDelayTask 1000 callback).1.delayTasks.entries = [] ∧
      ¬ threeTimers.SparesOthers 1000 callback := by
  refine ⟨rfl, rfl, rfl, ?_⟩
  rintro ⟨t, next, hpass, -⟩
  cases hpass

end AvcTool
