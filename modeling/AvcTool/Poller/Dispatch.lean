import Mathlib.Logic.Function.Basic
import AvcTool.Lib.Transition
import AvcTool.Poller.RunLoop

/-!
# Dispatching the events of a wake-up

`runLoop` first collects the records of all ready descriptors and then invokes their callbacks one by one.  Between
two callbacks nothing else runs, but a callback may attach, modify or detach any descriptor, and so may the delay
tasks that run before the loop waits.

A callback is named by its descriptor and the number of the `attachEvent` that registered it, so `detachEvent`
retires all callbacks of its descriptor with smaller numbers.  It removes the record, but not an entry that has
already been collected; if there is none (`NothingCollected`), no retired callback is invoked again.
-/

namespace AvcTool

/-- The callback that the `serial`-th `attachEvent` of the run registered, for the descriptor `fd`. -/
structure EventCallback where
  fd : FD
  serial : Nat
  deriving DecidableEq

/-- What the kernel reports: `epoll_wait` lists events in an order of its own, and `select` marks descriptors, which
the loop then visits in the order of the hash map. -/
inductive Wakeup where
  | reported (signaled : List (FD × Nat))
  | selected (ready : FD → Ready) (order : List (Signaled EventCallback))

/-- The table and the records that a wake-up collects. -/
def Backend.collect (b : Backend) (t : EventTable EventCallback) (w : Wakeup) :
    Option (EventTable EventCallback × List (Signaled EventCallback)) :=
  match b, w with
  | .epoll, .reported signaled =>
    if (signaled.map Prod.fst).Nodup ∧ signaled.length ≤ epollSize ∧ ∀ p ∈ signaled, p.1 ∈ t.interest then
      some (collectEpoll t signaled)
    else none
  | .select, .selected ready order =>
    (selectBranch t ready).bind fun called => if order.Perm called then some (t, order) else none
  | _, _ => none

/-- What the poller thread does next; `close` happens on any thread. -/
inductive LoopAction where
  | collect (w : Wakeup)
  | invoke
  | finish
  | attach (ok : Bool) (fd : FD) (events : Nat)
  | modify (ok : Bool) (fd : FD) (events : Nat)
  | detach (ok : Bool) (fd : FD)
  | close (fd : FD)

/-- The poller thread: its table, the collected entries that wait for their call, and the entry whose callback runs.
`serial` counts the calls of `attachEvent`, and `retired fd` is its value at the last `detachEvent` of `fd`. -/
structure DispatchLoop where
  table : EventTable EventCallback
  pending : List (Signaled EventCallback)
  running : Option (Signaled EventCallback)
  serial : Nat
  retired : FD → Nat

namespace DispatchLoop

def init : DispatchLoop := ⟨.empty, [], none, 0, fun _ => 0⟩

/-- User code runs on the poller thread inside a callback, or in a delay task before the loop waits. -/
def UserCode (s : DispatchLoop) : Prop := s.running ≠ none ∨ s.pending = []

instance decidableUserCode (s : DispatchLoop) : Decidable s.UserCode :=
  inferInstanceAs (Decidable (s.running ≠ none ∨ s.pending = []))

def step (b : Backend) (s : DispatchLoop) : LoopAction → Option DispatchLoop
  | .collect w =>
    if s.running = none ∧ s.pending = [] then
      (b.collect s.table w).map fun c => { s with table := c.1, pending := c.2 }
    else none
  | .invoke =>
    match s.running, s.pending with
    | none, e :: pending => some { s with running := some e, pending := pending }
    | _, _ => none
  | .finish => s.running.map fun _ => { s with running := none }
  | .attach ok fd events =>
    if s.UserCode then
      if fd < 0 then some s
      else some { s with
        table := (b.attach ok fd ⟨events, ⟨fd, s.serial⟩⟩ s.table).1
        serial := s.serial + 1 }
    else none
  | .modify ok fd events =>
    if s.UserCode then some { s with table := (modifyEvent ok fd events s.table).1 } else none
  | .detach ok fd =>
    if s.UserCode then
      some { s with
        table := (detachEvent ok fd s.table).1
        retired := Function.update s.retired fd s.serial }
    else none
  | .close fd => some { s with table := s.table.close fd }

end DispatchLoop

/-- The callback that a step invokes has not been retired. -/
def InvokesLive (s : DispatchLoop) : LoopAction → Prop
  | .invoke => ∀ e ∈ s.pending.head?, s.retired e.cb.fd ≤ e.cb.serial
  | _ => True

/-- `detachEvent` finds no collected event of its descriptor that still waits for its call. -/
def NothingCollected (s : DispatchLoop) : LoopAction → Prop
  | .detach _ fd => ∀ e ∈ s.pending, e.fd ≠ fd
  | _ => True

/-! ### The records after an operation -/

section Records

variable {κ : Type}

theorem eventRecords_detachEvent (ok : Bool) (fd : FD) (t : EventTable κ) :
    (detachEvent ok fd t).1.eventRecords = t.eventRecords.erase fd := by
  unfold detachEvent
  split <;> rfl

theorem eventRecords_modifyEvent (ok : Bool) (fd : FD) (events : Nat) (t : EventTable κ) :
    (modifyEvent ok fd events t).1.eventRecords = setEvents fd events t.eventRecords := by
  unfold modifyEvent
  split <;> rfl

theorem eventRecords_attach (b : Backend) (ok : Bool) (fd : FD) (r : EventRecord κ) (t : EventTable κ) :
    (b.attach ok fd r t).1.eventRecords = t.eventRecords ∨
      (b.attach ok fd r t).1.eventRecords = t.eventRecords.insert fd r := by
  cases b with
  | select => exact .inr rfl
  | epoll =>
    simp only [Backend.attach, attachEventL]
    split
    · exact .inl rfl
    · exact .inr rfl

theorem lookup_erase_eq {β : Type} (m : AList fun _ : FD => β) (fd fd' : FD) :
    (m.erase fd).lookup fd' = if fd' = fd then none else m.lookup fd' := by
  by_cases h : fd' = fd
  · rw [if_pos h, h, AList.lookup_erase]
  · rw [if_neg h, AList.lookup_erase_ne h]

/-- The loop over the signaled events removes no record: it detaches only descriptors that have none. -/
theorem lookup_collectEpoll (t : EventTable κ) (l : List (FD × Nat)) (fd : FD) :
    (collectEpoll t l).1.eventRecords.lookup fd = t.eventRecords.lookup fd := by
  induction l generalizing t with
  | nil => rfl
  | cons p l ih =>
    obtain ⟨fd', events⟩ := p
    rw [collectEpoll]
    split
    · rename_i hnone
      rw [ih, eventRecords_detachEvent, lookup_erase_eq]
      by_cases h : fd = fd'
      · rw [if_pos h, h, hnone]
      · rw [if_neg h]
    · exact ih t

theorem mem_collectEpoll {t : EventTable κ} {l : List (FD × Nat)} {e : Signaled κ} (h : e ∈ (collectEpoll t l).2) :
    ∃ r, t.eventRecords.lookup e.fd = some r ∧ r.cb = e.cb := by
  induction l generalizing t with
  | nil => cases h
  | cons p l ih =>
    obtain ⟨fd, events⟩ := p
    rw [collectEpoll] at h
    split at h
    · obtain ⟨r, hr, hcb⟩ := ih h
      rw [eventRecords_detachEvent, lookup_erase_eq] at hr
      split at hr
      · cases hr
      · exact ⟨r, hr, hcb⟩
    · rename_i r hr
      rcases List.mem_cons.1 h with rfl | h
      · exact ⟨r, hr, rfl⟩
      · exact ih h

private theorem mem_selectBranch {t : EventTable κ} {ready : FD → Ready} {called : List (Signaled κ)}
    (h : selectBranch t ready = some called) {e : Signaled κ} (he : e ∈ called) :
    ∃ r, t.eventRecords.lookup e.fd = some r ∧ r.cb = e.cb := by
  obtain ⟨hkeys, -⟩ := Option.ite_none_right_eq_some.1 h
  obtain rfl := Option.some.inj ((selectBranch_eq_spec hkeys ready).symm.trans h)
  obtain ⟨r, hr, hcb, -⟩ := mem_signaledSpec.1 he
  exact ⟨r, hr, hcb⟩

end Records

/-- A wake-up changes no record, and every collected entry belongs to one. -/
private theorem collect_spec {b : Backend} {t t' : EventTable EventCallback} {w : Wakeup}
    {pending : List (Signaled EventCallback)} (h : b.collect t w = some (t', pending)) :
    (∀ fd, t'.eventRecords.lookup fd = t.eventRecords.lookup fd) ∧
      ∀ e ∈ pending, ∃ r, t.eventRecords.lookup e.fd = some r ∧ r.cb = e.cb := by
  rcases b with _ | _ <;> rcases w with signaled | ⟨ready, order⟩
  · obtain ⟨-, h⟩ := Option.ite_none_right_eq_some.1 h
    obtain ⟨rfl, rfl⟩ := Prod.mk.inj (Option.some.inj h)
    exact ⟨lookup_collectEpoll t signaled, fun e he => mem_collectEpoll he⟩
  · cases h
  · cases h
  · obtain ⟨called, hcalled, hif⟩ := Option.bind_eq_some_iff.1 h
    obtain ⟨hperm, ⟨⟩⟩ := Option.ite_none_right_eq_some.1 hif
    exact ⟨fun _ => rfl, fun e he => mem_selectBranch hcalled (hperm.mem_iff.1 he)⟩

/-! ### The invariant -/

/-- No retired callback is in the table or waits for its call. -/
structure DispatchInv (s : DispatchLoop) : Prop where
  retired : ∀ fd, s.retired fd ≤ s.serial
  record : ∀ fd r, s.table.eventRecords.lookup fd = some r → r.cb.fd = fd ∧ s.retired fd ≤ r.cb.serial
  pending : ∀ e ∈ s.pending, e.cb.fd = e.fd ∧ s.retired e.fd ≤ e.cb.serial

theorem DispatchInv.init : DispatchInv .init where
  retired := fun _ => le_refl _
  record := fun fd r h => by simp [DispatchLoop.init, EventTable.empty] at h
  pending := nofun

theorem DispatchInv.attach {s : DispatchLoop} (h : DispatchInv s) (b : Backend) (ok : Bool) (fd : FD) (events : Nat) :
    DispatchInv { s with
      table := (b.attach ok fd ⟨events, ⟨fd, s.serial⟩⟩ s.table).1
      serial := s.serial + 1 } where
  retired := fun fd' => le_trans (h.retired fd') (Nat.le_succ _)
  record := by
    intro fd' r hr
    rcases eventRecords_attach b ok fd ⟨events, (⟨fd, s.serial⟩ : EventCallback)⟩ s.table with heq | heq
    · rw [heq] at hr
      exact h.record fd' r hr
    · rw [heq, lookup_insert_eq] at hr
      split at hr
      · rename_i hfd
        obtain rfl := Option.some.inj hr
        exact ⟨hfd.symm, h.retired fd'⟩
      · exact h.record fd' r hr
  pending := h.pending

theorem DispatchInv.modify {s : DispatchLoop} (h : DispatchInv s) (ok : Bool) (fd : FD) (events : Nat) :
    DispatchInv { s with table := (modifyEvent ok fd events s.table).1 } where
  retired := h.retired
  record := by
    intro fd' r hr
    rw [eventRecords_modifyEvent, lookup_setEvents] at hr
    split at hr
    · rename_i hfd
      obtain ⟨r', hr', rfl⟩ := Option.map_eq_some_iff.1 hr
      rw [hfd]
      exact h.record fd r' hr'
    · exact h.record fd' r hr
  pending := h.pending

/-- `detachEvent` retires callbacks that are in the table, but must find none that has been collected. -/
theorem DispatchInv.detach {s : DispatchLoop} (h : DispatchInv s) (ok : Bool) (fd : FD)
    (hcollected : ∀ e ∈ s.pending, e.fd ≠ fd) :
    DispatchInv { s with
      table := (detachEvent ok fd s.table).1
      retired := Function.update s.retired fd s.serial } where
  retired := by
    intro fd'
    rcases eq_or_ne fd' fd with rfl | hne
    · show Function.update s.retired fd' s.serial fd' ≤ s.serial
      rw [Function.update_self]
    · show Function.update s.retired fd s.serial fd' ≤ s.serial
      rw [Function.update_of_ne hne]
      exact h.retired fd'
  record := by
    intro fd' r hr
    rw [eventRecords_detachEvent, lookup_erase_eq] at hr
    split at hr
    · cases hr
    · rename_i hne
      show r.cb.fd = fd' ∧ Function.update s.retired fd s.serial fd' ≤ r.cb.serial
      rw [Function.update_of_ne hne]
      exact h.record fd' r hr
  pending := by
    intro e he
    show e.cb.fd = e.fd ∧ Function.update s.retired fd s.serial e.fd ≤ e.cb.serial
    rw [Function.update_of_ne (hcollected e he)]
    exact h.pending e he

theorem DispatchInv.step {b : Backend} {s t : DispatchLoop} {a : LoopAction} (h : DispatchInv s)
    (hok : NothingCollected s a) (hstep : s.step b a = some t) : DispatchInv t := by
  cases a with
  | collect w =>
    obtain ⟨-, hstep⟩ := Option.ite_none_right_eq_some.1 hstep
    obtain ⟨⟨table, pending⟩, hcollect, rfl⟩ := Option.map_eq_some_iff.1 hstep
    obtain ⟨hlookup, hmem⟩ := collect_spec hcollect
    refine ⟨h.retired, fun fd r hr => h.record fd r (hlookup fd ▸ hr), fun e he => ?_⟩
    obtain ⟨r, hr, hcb⟩ := hmem e he
    rw [← hcb]
    exact h.record e.fd r hr
  | invoke =>
    rw [DispatchLoop.step] at hstep
    split at hstep
    · rename_i e pending _ hpending
      obtain rfl := Option.some.inj hstep
      refine ⟨h.retired, h.record, fun d hd => h.pending d ?_⟩
      rw [hpending]
      exact List.mem_cons_of_mem e hd
    · cases hstep
  | finish =>
    obtain ⟨e, -, rfl⟩ := Option.map_eq_some_iff.1 hstep
    exact ⟨h.retired, h.record, h.pending⟩
  | attach ok fd events =>
    obtain ⟨-, hstep⟩ := Option.ite_none_right_eq_some.1 hstep
    split at hstep
    · obtain rfl := Option.some.inj hstep
      exact h
    · obtain rfl := Option.some.inj hstep
      exact h.attach b ok fd events
  | modify ok fd events =>
    obtain ⟨-, ⟨⟩⟩ := Option.ite_none_right_eq_some.1 hstep
    exact h.modify ok fd events
  | detach ok fd =>
    obtain ⟨-, ⟨⟩⟩ := Option.ite_none_right_eq_some.1 hstep
    exact h.detach ok fd hok
  | close fd =>
    obtain rfl := Option.some.inj hstep
    exact ⟨h.retired, h.record, h.pending⟩

/-- As long as `detachEvent` is not called for a descriptor with a collected event, no callback is invoked after it
has been detached. -/
theorem along_invokesLive {b : Backend} {as : List LoopAction} {s : DispatchLoop}
    (hrun : Transition.exec (DispatchLoop.step b) .init as = some s)
    (hok : Transition.Along (DispatchLoop.step b) NothingCollected .init as) :
    Transition.Along (DispatchLoop.step b) InvokesLive .init as := by
  refine Transition.along_of_invariant (fun _ _ _ h hok hstep => h.step hok hstep) ?_ DispatchInv.init hok hrun
  intro s a t h _ _
  cases a with
  | invoke =>
    intro e he
    obtain ⟨hfd, hretired⟩ := h.pending e (List.mem_of_mem_head? he)
    rw [hfd]
    exact hretired
  | _ => trivial

instance decidableNothingCollected : ∀ s a, Decidable (NothingCollected s a)
  | s, .detach _ fd => inferInstanceAs (Decidable (∀ e ∈ s.pending, e.fd ≠ fd))
  | _, .collect _ => isTrue trivial
  | _, .invoke => isTrue trivial
  | _, .finish => isTrue trivial
  | _, .attach _ _ _ => isTrue trivial
  | _, .modify _ _ _ => isTrue trivial
  | _, .close _ => isTrue trivial

/-- Descriptors 5 and 6 are ready together, and each callback detaches its own descriptor. -/
def detachOwn : List LoopAction :=
  [.attach true 5 kEventRead, .attach true 6 kEventRead, .collect (.reported [(5, epollIn), (6, epollIn)]), .invoke,
    .detach true 5, .finish, .invoke, .detach true 6, .finish]

theorem along_invokesLive_detachOwn :
    Transition.Along (DispatchLoop.step .epoll) InvokesLive .init detachOwn :=
  along_invokesLive (s := (Transition.exec (DispatchLoop.step .epoll) .init detachOwn).getD .init) rfl (by decide)

/-- Descriptors 5 and 6 are ready together, and the callback of 5 detaches 6: the callback of 6 is invoked next. -/
def detachOther : List LoopAction :=
  [.attach true 5 kEventRead, .attach true 6 kEventRead, .collect (.reported [(5, epollIn), (6, epollIn)]), .invoke,
    .detach true 6, .finish, .invoke]

theorem not_invokesLive_detachOther :
    (Transition.exec (DispatchLoop.step .epoll) .init detachOther).isSome ∧
      ¬ Transition.Along (DispatchLoop.step .epoll) InvokesLive .init detachOther := by
  refine ⟨by decide, fun h => ?_⟩
  change Transition.Along (DispatchLoop.step .epoll) InvokesLive .init (detachOther.dropLast ++ [.invoke]) at h
  have hlast := Transition.ok_of_along_append h rfl
  have hretired : 2 ≤ 1 := hlast _ rfl
  omega

end AvcTool
