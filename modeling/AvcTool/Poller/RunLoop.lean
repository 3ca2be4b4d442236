import AvcTool.Poller.EventTable

/-!
# The two back ends of `runLoop`

One round of `runLoop` waits for ready descriptors and collects the callbacks to invoke.  `epollBranch` is the
round compiled with `HAS_EPOLL`, `selectBranch` the other one.  The kernel reports the conditions that are ready
and in the interest it was given, so both should collect `signaledSpec`: every registered descriptor with
`events ∩ ready`, where this is not empty.

`selectBranch` does, if the descriptors fit its sets (`selectBranch_eq_spec`).  The epoll branch sees an event mask only
through `toEpollEvent`, which keeps the first of read, write, error that the mask contains (`leadingEvent`), so it
collects `leadingEvent events ∩ ready` (`epollBranch_perm`).  The tables differ too: a second `attachEvent` of a
descriptor is refused by epoll, and without epoll it replaces the record (`registered`).
-/

namespace AvcTool

/-- The two ways `EventPoller` is compiled. -/
inductive Backend where
  | epoll
  | select
  deriving DecidableEq

/-- `attachEvent_l`; without epoll the record is simply stored. -/
def Backend.attach {κ : Type} (b : Backend) (ok : Bool) (fd : FD) (r : EventRecord κ) (t : EventTable κ) :
    EventTable κ × Int :=
  match b with
  | .epoll => attachEventL ok fd r t
  | .select => ({ t with eventRecords := t.eventRecords.insert fd r }, 0)

/-- `modifyEvent`; without epoll only the record is changed. -/
def Backend.modify {κ : Type} (b : Backend) (ok : Bool) (fd : FD) (events : Nat) (t : EventTable κ) :
    EventTable κ × Int :=
  match b with
  | .epoll => modifyEvent ok fd events t
  | .select => ({ t with eventRecords := setEvents fd events t.eventRecords }, 0)

structure Ready where
  readable : Bool
  writable : Bool
  exceptable : Bool
  deriving DecidableEq

def Ready.pollerBits (r : Ready) : Nat :=
  (if r.readable then kEventRead else 0) ||| (if r.writable then kEventWrite else 0) |||
    (if r.exceptable then kEventError else 0)

def Ready.epollBits (r : Ready) : Nat :=
  (if r.readable then epollIn else 0) ||| (if r.writable then epollOut else 0) |||
    (if r.exceptable then epollErr else 0)

/-- An entry of `signaledEventRecords`: a descriptor, its callback and the events it is called with. -/
structure Signaled (κ : Type) where
  fd : FD
  cb : κ
  signaledEvents : Nat
  deriving DecidableEq

/-- The callbacks to invoke: each registered descriptor with those of its events that are ready. -/
def signaledSpec {κ : Type} (t : EventTable κ) (ready : FD → Ready) : List (Signaled κ) :=
  t.eventRecords.entries.filterMap fun e =>
    let n := e.2.events &&& (ready e.1).pollerBits
    if n = 0 then none else some ⟨e.1, e.2.cb, n⟩

/-! ### The epoll branch -/

/-- `epoll_wait` with room for `EPOLL_SIZE` events. -/
def epollWait (i : Interest) (ready : FD → Ready) : List (FD × Nat) :=
  (i.entries.filterMap fun e =>
    let n := e.2 &&& (ready e.1).epollBits
    if n = 0 then none else some (e.1, n)).take epollSize

/-- The loop over `signaled_events`: a descriptor without record is detached. -/
def collectEpoll {κ : Type} (t : EventTable κ) : List (FD × Nat) → EventTable κ × List (Signaled κ)
  | [] => (t, [])
  | (fd, events) :: rest =>
    match t.eventRecords.lookup fd with
    | none => collectEpoll (detachEvent true fd t).1 rest
    | some r =>
      let (t', signaled) := collectEpoll t rest
      (t', ⟨fd, r.cb, toPollerEvent events⟩ :: signaled)

def epollBranch {κ : Type} (t : EventTable κ) (ready : FD → Ready) : EventTable κ × List (Signaled κ) :=
  collectEpoll t (epollWait t.interest ready)

/-! ### The select branch -/

/-- `select` on one of its sets: the descriptors below `nfds` that are ready. -/
def selectSet (set : List FD) (nfds : FD) (isReady : FD → Bool) : List FD :=
  set.filter fun fd => decide (fd < nfds) && isReady fd

/-- `maxFd` of the select branch, which starts at 0. -/
def maxFd {κ : Type} (t : EventTable κ) : FD := t.eventRecords.keys.foldl max 0

/-- The descriptors added to the set of the events that `wants` picks. -/
def fdSet {κ : Type} (t : EventTable κ) (wants : EventRecord κ → Bool) : List FD :=
  (t.eventRecords.entries.filter fun e => wants e.2).map (·.1)

def fdSetSize : FD := 1024

/-- `FD_SET` and `FD_ISSET` are undefined for a descriptor from `FD_SETSIZE` on. -/
def selectBranch {κ : Type} (t : EventTable κ) (ready : FD → Ready) : Option (List (Signaled κ)) :=
  if ∀ fd ∈ t.eventRecords.keys, fd < fdSetSize then
    let nfds := maxFd t + 1
    let readSet := selectSet (fdSet t EventRecord.readable) nfds fun fd => (ready fd).readable
    let writeSet := selectSet (fdSet t EventRecord.writeable) nfds fun fd => (ready fd).writable
    let exceptSet := selectSet (fdSet t EventRecord.exceptable) nfds fun fd => (ready fd).exceptable
    some <| t.eventRecords.entries.filterMap fun e =>
      let n := (if e.1 ∈ readSet then kEventRead else 0) ||| (if e.1 ∈ writeSet then kEventWrite else 0) |||
        (if e.1 ∈ exceptSet then kEventError else 0)
      if n > 0 then some ⟨e.1, e.2.cb, n⟩ else none
  else none

/-! ### Masks -/

/-- The first of read, write, error that is in the mask: what `toEpollEvent` keeps of it. -/
def leadingEvent (events : Nat) : Nat :=
  if events &&& kEventRead ≠ 0 then kEventRead
  else if events &&& kEventWrite ≠ 0 then kEventWrite
  else if events &&& kEventError ≠ 0 then kEventError
  else 0

private theorem and_flag (m i : Nat) : m &&& 2 ^ i = if m &&& 2 ^ i ≠ 0 then 2 ^ i else 0 := by
  rw [Nat.and_two_pow]; cases m.testBit i <;> simp

private theorem and_ite_flag (m i : Nat) (b : Bool) :
    m &&& (if b then 2 ^ i else 0) = if m &&& 2 ^ i ≠ 0 ∧ b then 2 ^ i else 0 := by
  cases b
  · simp
  · simpa using and_flag m i

private theorem and_pollerBits (m : Nat) (r : Ready) :
    m &&& r.pollerBits =
      (if m &&& kEventRead ≠ 0 ∧ r.readable then kEventRead else 0) |||
        (if m &&& kEventWrite ≠ 0 ∧ r.writable then kEventWrite else 0) |||
        (if m &&& kEventError ≠ 0 ∧ r.exceptable then kEventError else 0) := by
  unfold Ready.pollerBits
  rw [Nat.and_or_distrib_left, Nat.and_or_distrib_left]
  exact congrArg₂ _ (congrArg₂ _ (and_ite_flag m 0 _) (and_ite_flag m 1 _)) (and_ite_flag m 2 _)

/-- What the epoll branch makes of a registered mask and the ready conditions. -/
private theorem toPollerEvent_report (m : Nat) (r : Ready) :
    toPollerEvent (toEpollEvent m &&& r.epollBits) = leadingEvent m &&& r.pollerBits := by
  obtain ⟨rd, wr, ex⟩ := r
  unfold toEpollEvent leadingEvent
  simp only [Nat.zero_or]
  split
  · cases rd <;> cases wr <;> cases ex <;> decide
  · split
    · cases rd <;> cases wr <;> cases ex <;> decide
    · split
      · cases rd <;> cases wr <;> cases ex <;> decide
      · simp [toPollerEvent]

private theorem report_eq_zero (m : Nat) (r : Ready) :
    toEpollEvent m &&& r.epollBits = 0 ↔ leadingEvent m &&& r.pollerBits = 0 := by
  obtain ⟨rd, wr, ex⟩ := r
  unfold toEpollEvent leadingEvent
  simp only [Nat.zero_or]
  split
  · cases rd <;> cases wr <;> cases ex <;> decide
  · split
    · cases rd <;> cases wr <;> cases ex <;> decide
    · split
      · cases rd <;> cases wr <;> cases ex <;> decide
      · simp

private theorem and_leadingEvent (m : Nat) : m &&& leadingEvent m = leadingEvent m := by
  unfold leadingEvent
  split
  · rename_i h; exact (and_flag m 0).trans (if_pos h)
  · split
    · rename_i h; exact (and_flag m 1).trans (if_pos h)
    · split
      · rename_i h; exact (and_flag m 2).trans (if_pos h)
      · simp

private theorem leadingEvent_and_eq_zero {m n : Nat} (h : m &&& n = 0) : leadingEvent m &&& n = 0 := by
  rw [← and_leadingEvent, Nat.and_comm m, Nat.and_assoc, h, Nat.and_zero]

/-! ### Tables built on the poller thread -/

inductive RegOp (κ : Type) where
  | attach (fd : FD) (events : Nat) (cb : κ)
  | modify (fd : FD) (events : Nat)
  deriving DecidableEq

def RegOp.apply {κ : Type} (b : Backend) (t : EventTable κ) : RegOp κ → EventTable κ
  | .attach fd events cb => if fd < 0 then t else (b.attach true fd ⟨events, cb⟩ t).1
  | .modify fd events => (b.modify true fd events t).1

def buildTable {κ : Type} (b : Backend) (ops : List (RegOp κ)) : EventTable κ := ops.foldl (RegOp.apply b) .empty

/-- What a call does to the registration of `fd`: epoll refuses to attach a descriptor that it has, and without epoll
the new registration replaces the old one. -/
def RegOp.register {κ : Type} (b : Backend) (fd : FD) (o : Option (EventRecord κ)) :
    RegOp κ → Option (EventRecord κ)
  | .attach fd' events cb =>
    if fd = fd' ∧ 0 ≤ fd' then
      match b with
      | .epoll => o.or (some ⟨events, cb⟩)
      | .select => some ⟨events, cb⟩
    else o
  | .modify fd' events => if fd = fd' then o.map fun r => { r with events := events } else o

def registered {κ : Type} (b : Backend) (ops : List (RegOp κ)) (fd : FD) : Option (EventRecord κ) :=
  ops.foldl (RegOp.register b fd) none

/-- The kernel has, for exactly the recorded descriptors, the translation of the recorded mask. -/
def InSync {κ : Type} (t : EventTable κ) : Prop :=
  ∀ fd, t.interest.lookup fd = (t.eventRecords.lookup fd).map fun r => toEpollEvent r.events

theorem InSync.mem_iff {κ : Type} {t : EventTable κ} (h : InSync t) (fd : FD) :
    fd ∈ t.interest ↔ fd ∈ t.eventRecords := by
  rw [← AList.lookup_isSome, ← AList.lookup_isSome, h fd, Option.isSome_map]

private theorem attachEventL_inSync {κ : Type} {t : EventTable κ} (h : InSync t) (ok : Bool) (fd : FD)
    (r : EventRecord κ) : InSync (attachEventL ok fd r t).1 := by
  unfold attachEventL epollCtlAdd
  split
  · exact h
  · rename_i i hi
    obtain rfl : t.interest.insert fd (toEpollEvent r.events) = i := by
      split at hi
      · exact Option.some.inj hi
      · cases hi
    intro fd'
    simp only [lookup_insert_eq, h fd']
    split <;> simp

private theorem modifyEvent_inSync {κ : Type} {t : EventTable κ} (h : InSync t) (fd : FD) (events : Nat) :
    InSync (modifyEvent true fd events t).1 := by
  unfold modifyEvent epollCtlMod
  by_cases hfd : fd ∈ t.interest
  · obtain ⟨r, hr⟩ := Option.isSome_iff_exists.1 (AList.lookup_isSome.2 ((h.mem_iff fd).1 hfd))
    intro fd'
    simp only [hfd, and_self, ↓reduceIte, lookup_insert_eq, lookup_setEvents, h fd', hr]
    split <;> simp
  · have hr : t.eventRecords.lookup fd = none :=
      AList.lookup_eq_none.2 fun hm => hfd ((h.mem_iff fd).2 hm)
    intro fd'
    simp only [hfd, and_false, ↓reduceIte, lookup_setEvents, h fd', hr]
    split
    · subst_vars; simp [hr]
    · rfl

private theorem apply_inSync {κ : Type} {t : EventTable κ} (h : InSync t) (op : RegOp κ) :
    InSync (op.apply .epoll t) := by
  cases op with
  | attach fd events cb =>
    by_cases hfd : fd < 0
    · simpa [RegOp.apply, hfd] using h
    · simpa [RegOp.apply, hfd, Backend.attach] using attachEventL_inSync h true fd ⟨events, cb⟩
  | modify fd events => exact modifyEvent_inSync h fd events

private theorem buildTable_inSync {κ : Type} (ops : List (RegOp κ)) : InSync (buildTable .epoll ops) := by
  have hempty : InSync (EventTable.empty : EventTable κ) := fun fd => by simp [EventTable.empty]
  have hfold : ∀ t : EventTable κ, InSync t → InSync (ops.foldl (RegOp.apply .epoll) t) := by
    induction ops with
    | nil => exact fun t ht => ht
    | cons op ops ih => exact fun t ht => ih _ (apply_inSync ht op)
  exact hfold _ hempty

private theorem lookup_attachEventL {κ : Type} {t : EventTable κ} (h : InSync t) (fd fd' : FD) (r : EventRecord κ) :
    (attachEventL true fd r t).1.eventRecords.lookup fd' =
      if fd' = fd then (t.eventRecords.lookup fd').or (some r) else t.eventRecords.lookup fd' := by
  unfold attachEventL epollCtlAdd
  by_cases hfd : fd ∈ t.interest
  · obtain ⟨r', hr'⟩ := Option.isSome_iff_exists.1 (AList.lookup_isSome.2 ((h.mem_iff fd).1 hfd))
    simp only [hfd, not_true_eq_false, and_false, ↓reduceIte]
    split
    · subst_vars
      rw [hr']
      rfl
    · rfl
  · have hnone : t.eventRecords.lookup fd = none := AList.lookup_eq_none.2 fun hm => hfd ((h.mem_iff fd).2 hm)
    simp only [hfd, not_false_eq_true, and_self, ↓reduceIte, lookup_insert_eq]
    split
    · subst_vars
      rw [hnone]
      rfl
    · rfl

private theorem lookup_modify {κ : Type} (b : Backend) (ok : Bool) (t : EventTable κ) (fd fd' : FD) (events : Nat) :
    (b.modify ok fd events t).1.eventRecords.lookup fd' =
      if fd' = fd then (t.eventRecords.lookup fd').map fun r => { r with events := events }
      else t.eventRecords.lookup fd' := by
  have hset : (b.modify ok fd events t).1.eventRecords = setEvents fd events t.eventRecords := by
    cases b with
    | epoll =>
      rw [Backend.modify, modifyEvent]
      split
      · rfl
      · rfl
    | select => rfl
  rw [hset, lookup_setEvents]
  split
  · subst_vars
    rfl
  · rfl

private theorem lookup_apply {κ : Type} {b : Backend} {t : EventTable κ} (h : b = .epoll → InSync t) (op : RegOp κ)
    (fd : FD) : (op.apply b t).eventRecords.lookup fd = op.register b fd (t.eventRecords.lookup fd) := by
  cases op with
  | attach fd' events cb =>
    simp only [RegOp.apply, RegOp.register]
    by_cases hneg : fd' < 0
    · rw [if_pos hneg, if_neg fun h => absurd h.2 (Int.not_le.2 hneg)]
    · have hiff : (fd = fd' ∧ 0 ≤ fd') ↔ fd = fd' := and_iff_left (Int.not_lt.1 hneg)
      rw [if_neg hneg, if_congr hiff rfl rfl]
      cases b with
      | epoll => exact lookup_attachEventL (h rfl) fd' fd _
      | select => exact lookup_insert_eq t.eventRecords fd' fd _
  | modify fd' events => exact lookup_modify b true t fd' fd events

private theorem lookup_buildTable {κ : Type} (b : Backend) (ops : List (RegOp κ)) (fd : FD) :
    (buildTable b ops).eventRecords.lookup fd = registered b ops fd := by
  have hfold : ∀ t : EventTable κ, (b = .epoll → InSync t) →
      (ops.foldl (RegOp.apply b) t).eventRecords.lookup fd =
        ops.foldl (RegOp.register b fd) (t.eventRecords.lookup fd) := by
    induction ops with
    | nil => exact fun _ _ => rfl
    | cons op ops ih =>
      intro t ht
      have hsync : b = .epoll → InSync (op.apply b t) := by
        rintro rfl
        exact apply_inSync (ht rfl) op
      rw [List.foldl_cons, List.foldl_cons, ih _ hsync, lookup_apply ht]
  exact hfold .empty fun _ fd => by simp [EventTable.empty]

private theorem isSome_registered {κ : Type} (ops : List (RegOp κ)) (fd : FD) :
    (registered .select ops fd).isSome = (registered .epoll ops fd).isSome := by
  have hfold : ∀ o o' : Option (EventRecord κ), o'.isSome = o.isSome →
      (ops.foldl (RegOp.register .select fd) o').isSome = (ops.foldl (RegOp.register .epoll fd) o).isSome := by
    induction ops with
    | nil => exact fun _ _ h => h
    | cons op ops ih =>
      refine fun o o' h => ih _ _ ?_
      cases op with
      | attach fd' events cb =>
        simp only [RegOp.register]
        split
        · simp
        · exact h
      | modify fd' events =>
        simp only [RegOp.register]
        split
        · simpa using h
        · exact h
  exact hfold none none rfl

def RegOp.attaches {κ : Type} (fd : FD) : RegOp κ → Bool
  | .attach fd' _ _ => fd = fd'
  | .modify _ _ => false

/-- A descriptor that is attached only once has the same registration in both back ends. -/
theorem registered_eq_of_attachedOnce {κ : Type} {ops : List (RegOp κ)} {fd : FD}
    (h : ops.countP (RegOp.attaches fd) ≤ 1) : registered .select ops fd = registered .epoll ops fd := by
  have hfold : ∀ o : Option (EventRecord κ), (o ≠ none → ops.countP (RegOp.attaches fd) = 0) →
      ops.foldl (RegOp.register .select fd) o = ops.foldl (RegOp.register .epoll fd) o := by
    induction ops with
    | nil => exact fun _ _ => rfl
    | cons op ops ih =>
      intro o ho
      rw [List.countP_cons] at h ho
      rw [List.foldl_cons, List.foldl_cons]
      cases op with
      | attach fd' events cb =>
        simp only [RegOp.register]
        by_cases hfd : fd = fd'
        · have hattaches : RegOp.attaches fd (.attach fd' events cb) = true := decide_eq_true hfd
          rw [if_pos hattaches] at h ho
          -- this is the one attach of the descriptor
          obtain rfl : o = none := by
            by_contra hne
            exact absurd (ho hne) (Nat.succ_ne_zero _)
          rw [Option.none_or]
          exact ih (by omega) _ fun _ => by omega
        · rw [if_neg fun hand => hfd hand.1, if_neg fun hand => hfd hand.1]
          exact ih (by omega) o fun hne => by have := ho hne; omega
      | modify fd' events =>
        simp only [RegOp.register]
        refine ih (by omega) _ fun hne => ?_
        have hsome : o ≠ none := by
          rintro rfl
          exact hne (by split <;> rfl)
        have := ho hsome
        omega
  exact hfold none fun hne => absurd rfl hne

/-! ### What each branch collects -/

private theorem le_foldl_max (l : List Int) (b x : Int) (hx : x ≤ b ∨ x ∈ l) : x ≤ l.foldl max b := by
  induction l generalizing b with
  | nil => simpa using hx
  | cons a l ih =>
    refine ih (max b a) ?_
    rcases hx with hx | hx
    · left; omega
    · rcases List.mem_cons.1 hx with rfl | hx
      · left; omega
      · exact .inr hx

private theorem mem_selectSet_fdSet {κ : Type} {t : EventTable κ} {e : Sigma fun _ : FD => EventRecord κ}
    (he : e ∈ t.eventRecords.entries) (wants : EventRecord κ → Bool) (isReady : FD → Bool) :
    e.1 ∈ selectSet (fdSet t wants) (maxFd t + 1) isReady ↔ wants e.2 = true ∧ isReady e.1 = true := by
  have hlt : e.1 < maxFd t + 1 := Int.lt_add_one_of_le (le_foldl_max _ _ _ (.inr (List.mem_map_of_mem he)))
  have hmem : e.1 ∈ fdSet t wants ↔ wants e.2 = true := by
    simp only [fdSet, List.mem_map, List.mem_filter]
    constructor
    · rintro ⟨e', ⟨he', hw⟩, heq⟩
      obtain ⟨fd, r⟩ := e
      obtain ⟨fd', r'⟩ := e'
      obtain rfl : fd' = fd := heq
      obtain rfl : r' = r := t.eventRecords.nodupKeys.eq_of_mk_mem he' he
      exact hw
    · exact fun hw => ⟨e, ⟨he, hw⟩, rfl⟩
  rw [selectSet, List.mem_filter, hmem, decide_eq_true hlt, Bool.true_and]

/-- The select branch invokes exactly the callbacks of the specification. -/
theorem selectBranch_eq_spec {κ : Type} {t : EventTable κ} (h : ∀ fd ∈ t.eventRecords.keys, fd < fdSetSize)
    (ready : FD → Ready) : selectBranch t ready = some (signaledSpec t ready) := by
  unfold selectBranch signaledSpec
  rw [if_pos h]
  refine congrArg some ?_
  apply List.filterMap_congr
  intro e he
  simp only [mem_selectSet_fdSet he, EventRecord.readable, EventRecord.writeable, EventRecord.exceptable,
    decide_eq_true_eq, ← and_pollerBits]
  by_cases h : e.2.events &&& (ready e.1).pollerBits = 0
  · simp [h]
  · simp [h, Nat.pos_of_ne_zero h]

/-- What the epoll branch collects instead: the leading event of each mask, where it is ready. -/
def signaledLeading {κ : Type} (t : EventTable κ) (ready : FD → Ready) : List (Signaled κ) :=
  t.eventRecords.entries.filterMap fun e =>
    let n := leadingEvent e.2.events &&& (ready e.1).pollerBits
    if n = 0 then none else some ⟨e.1, e.2.cb, n⟩

private theorem collectEpoll_of_recorded {κ : Type} (t : EventTable κ) (l : List (FD × Nat))
    (h : ∀ p ∈ l, p.1 ∈ t.eventRecords) :
    collectEpoll t l = (t, l.filterMap fun p =>
      (t.eventRecords.lookup p.1).map fun r => ⟨p.1, r.cb, toPollerEvent p.2⟩) := by
  induction l with
  | nil => rfl
  | cons p l ih =>
    obtain ⟨r, hr⟩ := Option.isSome_iff_exists.1 (AList.lookup_isSome.2 (h p List.mem_cons_self))
    have ih' := ih fun q hq => h q (List.mem_cons_of_mem _ hq)
    simp [collectEpoll, hr, ih']

private theorem InSync.interest_perm {κ : Type} {t : EventTable κ} (h : InSync t) :
    t.interest.entries.Perm
      (t.eventRecords.entries.map fun e => (⟨e.1, toEpollEvent e.2.events⟩ : Sigma fun _ : FD => Nat)) := by
  apply List.lookup_ext t.interest.nodupKeys
  · rw [List.NodupKeys, List.keys, List.map_map]
    exact t.eventRecords.nodupKeys
  · intro fd n
    have h1 : t.interest.entries.dlookup fd =
        (t.eventRecords.entries.dlookup fd).map fun r => toEpollEvent r.events := h fd
    have h2 := List.dlookup_map₂ (l := t.eventRecords.entries)
      (f := fun _ (r : EventRecord κ) => toEpollEvent r.events) fd
    rw [h1, ← h2]
    rfl

/-- On a table that is in sync the epoll branch leaves the table alone and collects `signaledLeading`. -/
private theorem epollBranch_perm {κ : Type} {t : EventTable κ} (h : InSync t)
    (hsize : t.eventRecords.entries.length ≤ epollSize) (ready : FD → Ready) :
    (epollBranch t ready).1 = t ∧ (epollBranch t ready).2.Perm (signaledLeading t ready) := by
  have hlen : t.interest.entries.length = t.eventRecords.entries.length := by
    simpa using h.interest_perm.length_eq
  have hwait : epollWait t.interest ready = t.interest.entries.filterMap fun e =>
      let n := e.2 &&& (ready e.1).epollBits
      if n = 0 then none else some (e.1, n) :=
    List.take_of_length_le (le_trans (List.length_filterMap_le _ _) (hlen.trans_le hsize))
  have hrec : ∀ p ∈ epollWait t.interest ready, p.1 ∈ t.eventRecords := by
    intro p hp
    rw [hwait, List.mem_filterMap] at hp
    obtain ⟨e, he, hep⟩ := hp
    obtain rfl : (e.1, e.2 &&& (ready e.1).epollBits) = p := by
      dsimp only at hep
      split at hep
      · cases hep
      · exact Option.some.inj hep
    exact (h.mem_iff e.1).1 (List.mem_map_of_mem he)
  unfold epollBranch
  rw [collectEpoll_of_recorded t _ hrec, hwait, List.filterMap_filterMap]
  refine ⟨rfl, (h.interest_perm.filterMap _).trans ?_⟩
  rw [List.filterMap_map]
  apply List.Perm.of_eq
  apply List.filterMap_congr
  intro e he
  have hlookup : t.eventRecords.lookup e.1 = some e.2 := AList.mem_lookup_iff.2 he
  simp only [Function.comp_apply, report_eq_zero]
  split
  · rfl
  · simp [hlookup, toPollerEvent_report]

/-! ### Agreement of the two branches -/

/-- After the same calls both builds invoke the callbacks of their specification, in some order, and these are the same
callbacks with the same events. -/
def BackendsAgree {κ : Type} (ops : List (RegOp κ)) (ready : FD → Ready) : Prop :=
  ∃ called, selectBranch (buildTable .select ops) ready = some called ∧
    called.Perm (signaledSpec (buildTable .select ops) ready) ∧
    (epollBranch (buildTable .epoll ops) ready).2.Perm (signaledSpec (buildTable .epoll ops) ready) ∧
    (epollBranch (buildTable .epoll ops) ready).2.Perm called

/-- Of the conditions in `events`, only the first in the order read, write, error may be ready. -/
def OnlyLeadingReady (events : Nat) (r : Ready) : Prop :=
  events &&& r.pollerBits = leadingEvent events &&& r.pollerBits

/-- The two records have the same of the ready conditions and, if there are any, the same callback. -/
def CalledAlike {κ : Type} (r r' : EventRecord κ) (ready : Ready) : Prop :=
  r'.events &&& ready.pollerBits = r.events &&& ready.pollerBits ∧
    (r.events &&& ready.pollerBits ≠ 0 → r'.cb = r.cb)

private theorem mem_signaledLeading {κ : Type} {t : EventTable κ} {ready : FD → Ready} {s : Signaled κ}
    {r : EventRecord κ} (hr : t.eventRecords.lookup s.fd = some r) (hs : s ∈ signaledLeading t ready) :
    s.signaledEvents = leadingEvent r.events &&& (ready s.fd).pollerBits := by
  obtain ⟨e, he, hes⟩ := List.mem_filterMap.1 hs
  dsimp only at hes
  split at hes
  · cases hes
  · obtain rfl := Option.some.inj hes
    obtain rfl : e.2 = r := Option.some.inj ((AList.mem_lookup_iff.2 he).symm.trans hr)
    rfl

private theorem signaledLeading_perm_spec_iff {κ : Type} (t : EventTable κ) (ready : FD → Ready) :
    (signaledLeading t ready).Perm (signaledSpec t ready) ↔
      ∀ fd r, t.eventRecords.lookup fd = some r → OnlyLeadingReady r.events (ready fd) := by
  constructor
  · intro h fd r hr
    by_cases h0 : r.events &&& (ready fd).pollerBits = 0
    · rw [OnlyLeadingReady, h0, leadingEvent_and_eq_zero h0]
    · have hspec : (⟨fd, r.cb, r.events &&& (ready fd).pollerBits⟩ : Signaled κ) ∈ signaledSpec t ready :=
        List.mem_filterMap.2 ⟨⟨fd, r⟩, AList.mem_lookup_iff.1 hr, by simp [h0]⟩
      exact mem_signaledLeading hr (h.mem_iff.2 hspec)
  · intro h
    apply List.Perm.of_eq
    apply List.filterMap_congr
    intro e he
    have hlead : e.2.events &&& (ready e.1).pollerBits = leadingEvent e.2.events &&& (ready e.1).pollerBits :=
      h e.1 e.2 (AList.mem_lookup_iff.2 he)
    simp only [hlead]

theorem mem_signaledSpec {κ : Type} {t : EventTable κ} {ready : FD → Ready} {s : Signaled κ} :
    s ∈ signaledSpec t ready ↔
      ∃ r, t.eventRecords.lookup s.fd = some r ∧ r.cb = s.cb ∧
        r.events &&& (ready s.fd).pollerBits = s.signaledEvents ∧ s.signaledEvents ≠ 0 := by
  constructor
  · intro hs
    obtain ⟨e, he, hes⟩ := List.mem_filterMap.1 hs
    obtain ⟨hne, heq⟩ := Option.ite_none_left_eq_some.1 hes
    obtain rfl := Option.some.inj heq
    exact ⟨e.2, AList.mem_lookup_iff.2 he, rfl, rfl, hne⟩
  · rintro ⟨r, hr, hcb, hevents, hne⟩
    obtain ⟨fd, cb, events⟩ := s
    obtain rfl : r.cb = cb := hcb
    obtain rfl : r.events &&& (ready fd).pollerBits = events := hevents
    exact List.mem_filterMap.2 ⟨⟨fd, r⟩, AList.mem_lookup_iff.1 hr, if_neg hne⟩

private theorem nodup_signaledSpec {κ : Type} (t : EventTable κ) (ready : FD → Ready) :
    (signaledSpec t ready).Nodup := by
  rw [signaledSpec, List.Nodup, List.pairwise_filterMap]
  refine (List.nodupKeys_iff_pairwise.1 t.eventRecords.nodupKeys).imp ?_
  rintro e e' hne s hs s' hs' rfl
  obtain ⟨-, heq⟩ := Option.ite_none_left_eq_some.1 hs
  obtain ⟨-, heq'⟩ := Option.ite_none_left_eq_some.1 hs'
  exact hne (congrArg Signaled.fd (Option.some.inj (heq.trans heq'.symm)))

/-- Two tables of the same descriptors have the same specification exactly if their records are called alike. -/
private theorem signaledSpec_perm_iff {κ : Type} {t t' : EventTable κ}
    (hsome : ∀ fd, (t'.eventRecords.lookup fd).isSome = (t.eventRecords.lookup fd).isSome) (ready : FD → Ready) :
    (signaledSpec t ready).Perm (signaledSpec t' ready) ↔
      ∀ fd r r', t.eventRecords.lookup fd = some r → t'.eventRecords.lookup fd = some r' →
        CalledAlike r r' (ready fd) := by
  rw [List.perm_ext_iff_of_nodup (nodup_signaledSpec t ready) (nodup_signaledSpec t' ready)]
  constructor
  · intro h fd r r' hr hr'
    by_cases hzero : r.events &&& (ready fd).pollerBits = 0
    · refine ⟨?_, fun hne => absurd hzero hne⟩
      by_contra hdiff
      have hspec : (⟨fd, r'.cb, r'.events &&& (ready fd).pollerBits⟩ : Signaled κ) ∈ signaledSpec t' ready :=
        mem_signaledSpec.2 ⟨r', hr', rfl, rfl, fun h0 => hdiff (h0.trans hzero.symm)⟩
      obtain ⟨r₁, hr₁, -, hevents, -⟩ := mem_signaledSpec.1 ((h _).2 hspec)
      obtain rfl : r = r₁ := Option.some.inj (hr.symm.trans hr₁)
      exact hdiff hevents.symm
    · have hspec : (⟨fd, r.cb, r.events &&& (ready fd).pollerBits⟩ : Signaled κ) ∈ signaledSpec t ready :=
        mem_signaledSpec.2 ⟨r, hr, rfl, rfl, hzero⟩
      obtain ⟨r₁, hr₁, hcb, hevents, -⟩ := mem_signaledSpec.1 ((h _).1 hspec)
      obtain rfl : r' = r₁ := Option.some.inj (hr'.symm.trans hr₁)
      exact ⟨hevents, fun _ => hcb⟩
  · intro h s
    rw [mem_signaledSpec, mem_signaledSpec]
    constructor
    · rintro ⟨r, hr, hcb, hevents, hne⟩
      obtain ⟨r', hr'⟩ := Option.isSome_iff_exists.1 ((hsome s.fd).trans (Option.isSome_iff_exists.2 ⟨r, hr⟩))
      obtain ⟨hready, hsame⟩ := h s.fd r r' hr hr'
      exact ⟨r', hr', (hsame (hevents ▸ hne)).trans hcb, hready.trans hevents, hne⟩
    · rintro ⟨r', hr', hcb, hevents, hne⟩
      obtain ⟨r, hr⟩ := Option.isSome_iff_exists.1 ((hsome s.fd).symm.trans (Option.isSome_iff_exists.2 ⟨r', hr'⟩))
      obtain ⟨hready, hsame⟩ := h s.fd r r' hr hr'
      have hevents' : r.events &&& (ready s.fd).pollerBits = s.signaledEvents := hready.symm.trans hevents
      exact ⟨r, hr, (hsame (hevents' ▸ hne)).symm.trans hcb, hevents', hne⟩

/-- The two builds agree after calls on the poller thread exactly if on no registered descriptor a condition after the
leading one of its mask is ready, a second attach makes no difference to what is called, and the descriptors fit the sets
of `select`. -/
theorem backends_agree_iff {κ : Type} (ops : List (RegOp κ)) (ready : FD → Ready)
    (hsize : (buildTable .epoll ops).eventRecords.entries.length ≤ epollSize) :
    BackendsAgree ops ready ↔
      ∀ fd r r', registered .epoll ops fd = some r → registered .select ops fd = some r' →
        OnlyLeadingReady r.events (ready fd) ∧ CalledAlike r r' (ready fd) ∧ fd < fdSetSize := by
  have hepoll := (epollBranch_perm (buildTable_inSync ops) hsize ready).2
  have hsome : ∀ fd, ((buildTable .select ops).eventRecords.lookup fd).isSome =
      ((buildTable .epoll ops).eventRecords.lookup fd).isSome := by
    intro fd
    rw [lookup_buildTable, lookup_buildTable, isSome_registered]
  have hleading := signaledLeading_perm_spec_iff (buildTable .epoll ops) ready
  have halike := signaledSpec_perm_iff hsome ready
  simp only [lookup_buildTable] at hleading halike
  constructor
  · rintro ⟨called, hselect, hcalled, hspec, hsame⟩ fd r r' hr hr'
    refine ⟨hleading.1 (hepoll.symm.trans hspec) fd r hr, ?_, ?_⟩
    · exact halike.1 (hspec.symm.trans (hsame.trans hcalled)) fd r r' hr hr'
    · obtain ⟨hkeys, -⟩ := Option.ite_none_right_eq_some.1 hselect
      refine hkeys fd (AList.lookup_isSome.1 ?_)
      rw [lookup_buildTable, hr']
      rfl
  · intro h
    have hboth : ∀ fd, (registered .epoll ops fd).isSome → ∃ r r', registered .epoll ops fd = some r ∧
        registered .select ops fd = some r' := by
      intro fd hfd
      obtain ⟨r', hr'⟩ := Option.isSome_iff_exists.1 ((isSome_registered ops fd).trans hfd)
      obtain ⟨r, hr⟩ := Option.isSome_iff_exists.1 hfd
      exact ⟨r, r', hr, hr'⟩
    have hkeys : ∀ fd ∈ (buildTable .select ops).eventRecords.keys, fd < fdSetSize := by
      intro fd hfd
      have hregistered := AList.lookup_isSome.2 hfd
      rw [lookup_buildTable, isSome_registered] at hregistered
      obtain ⟨r, r', hr, hr'⟩ := hboth fd hregistered
      exact (h fd r r' hr hr').2.2
    have hspec : (epollBranch (buildTable .epoll ops) ready).2.Perm (signaledSpec (buildTable .epoll ops) ready) := by
      refine hepoll.trans (hleading.2 fun fd r hr => ?_)
      obtain ⟨r₁, r', hr₁, hr'⟩ := hboth fd (Option.isSome_iff_exists.2 ⟨r, hr⟩)
      obtain rfl : r = r₁ := Option.some.inj (hr.symm.trans hr₁)
      exact (h fd r r' hr hr').1
    refine ⟨_, selectBranch_eq_spec hkeys ready, .refl _, hspec, hspec.trans (halike.2 fun fd r r' hr hr' => ?_)⟩
    exact (h fd r r' hr hr').2.1

def readThenBoth : List (RegOp Unit) := [.attach 5 kEventRead (), .modify 5 (kEventRead ||| kEventWrite)]

theorem backends_agree_iff_readThenBoth : BackendsAgree readThenBoth fun _ => ⟨true, false, false⟩ := by
  refine (backends_agree_iff readThenBoth (fun _ => ⟨true, false, false⟩) (by decide)).2 ?_
  intro fd r r' hr hr'
  by_cases hfd : fd = 5
  · subst hfd
    obtain rfl : ⟨kEventRead ||| kEventWrite, ()⟩ = r := Option.some.inj hr
    obtain rfl : ⟨kEventRead ||| kEventWrite, ()⟩ = r' := Option.some.inj hr'
    exact ⟨rfl, ⟨rfl, fun _ => rfl⟩, by decide⟩
  · simp [registered, readThenBoth, RegOp.register, hfd] at hr

def attachedForBoth : List (RegOp Unit) := [.attach 5 (kEventRead ||| kEventWrite) ()]

/-- When it becomes writable, the select branch reports it, and the epoll branch never asked for it. -/
theorem backends_disagree_on_write :
    (epollBranch (buildTable .epoll attachedForBoth) fun _ => ⟨false, true, false⟩).2 = [] ∧
      selectBranch (buildTable .select attachedForBoth) (fun _ => ⟨false, true, false⟩) =
        some [⟨5, (), kEventWrite⟩] ∧
      ¬ BackendsAgree attachedForBoth (fun _ => ⟨false, true, false⟩) := by
  have hepoll : (epollBranch (buildTable .epoll attachedForBoth) fun _ => ⟨false, true, false⟩).2 = [] := by decide
  have hselect : selectBranch (buildTable .select attachedForBoth) (fun _ => ⟨false, true, false⟩) =
      some [⟨5, (), kEventWrite⟩] := by decide
  refine ⟨hepoll, hselect, ?_⟩
  rintro ⟨called, hcalled, -, -, hsame⟩
  rw [hselect] at hcalled
  obtain rfl := Option.some.inj hcalled
  rw [hepoll] at hsame
  cases hsame.length_eq

end AvcTool
