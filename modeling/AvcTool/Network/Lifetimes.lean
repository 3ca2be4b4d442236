import AvcTool.Lib.SharedObjects
import AvcTool.Lib.Transition
import AvcTool.Poller.Shutdown

/-!
# Who destroys what

Timers, sockets and the `SockFD` of a socket hold a reference to their poller, which their destructors use.  The poller
only has weak references to them: a callback locks the object for the time it runs, so it may be the thread of the
poller that gives up the last reference to a timer or a socket, and with it the last one to the poller.  Then
`~EventPoller` runs on its own thread, which it cannot join.  Every poller has a thread of its own here, as those of the
`EventPollerPool` have.

Threads copy, hand over and give up references in any order here.  The objects that an object needs outlive it, and
each is destroyed once (`objects_safe`); the program is terminated exactly when the thread of a poller gives up the last
reference to its poller (`terminated_iff`); and what is never destroyed are the cycles, which go through something that
a callback or a task has captured (`left_iff`).
-/

namespace AvcTool

/-- The classes whose objects have several owners.  The number is that of the references which the tasks and the event
callbacks of the poller or the callback of the timer or the socket can capture. -/
inductive ObjectKind where
  | poller (captures : Nat)
  | timer (captures : Nat)
  | socket (captures : Nat)
  | sockFd
  deriving DecidableEq

inductive ObjectField where
  /-- `poller_` -/
  | poller
  /-- `sock_fd_` -/
  | sockFd
  | captured (i : Nat)
  deriving DecidableEq

namespace ObjectKind

def isPoller : ObjectKind → Bool
  | .poller _ => true
  | _ => false

def isSocket : ObjectKind → Bool
  | .socket _ => true
  | _ => false

/-- The constructor takes the poller as an argument. -/
def isUser : ObjectKind → Bool
  | .timer _ => true
  | .socket _ => true
  | _ => false

/-- The members that hold references, in the order in which the destructor gives them up. -/
def fields : ObjectKind → List ObjectField
  | .poller captures => (List.range captures).map .captured
  | .timer captures => .poller :: (List.range captures).map .captured
  | .socket captures => .sockFd :: (List.range captures).map .captured ++ [.poller]
  | .sockFd => [.poller]

private theorem nodup_fields (a : ObjectKind) : a.fields.Nodup := by
  have hcaptures : ∀ n, ((List.range n).map ObjectField.captured).Nodup :=
    fun n => List.nodup_range.map fun i j heq => by injection heq
  cases a with
  | poller n => exact hcaptures n
  | timer n => simp [fields, hcaptures n]
  | socket n => simp [fields, List.nodup_append, hcaptures n]
  | sockFd => simp [fields]

end ObjectKind

/-- What a member may refer to. -/
def ObjectField.fits : ObjectField → ObjectKind → Bool
  | .poller, a => a.isPoller
  | .sockFd, a => a = .sockFd
  | .captured _, _ => true

inductive ObjectThread where
  | poller (p : Nat)
  | other (m : Nat)
  deriving DecidableEq

/-- The thread as the poller `p` sees it. -/
def ObjectThread.seenBy (p : Nat) : ObjectThread → Thread
  | .poller p' => if p' = p then .poller else .producer (2 * p')
  | .other m => .producer (2 * m + 1)

inductive LifetimeAction where
  | createPoller (t : ObjectThread) (captures k : Nat)
  /-- a timer or a socket, with the poller to which the thread refers at `j` -/
  | createUser (t : ObjectThread) (a : ObjectKind) (j k : Nat)
  /-- `SockFD::create` for the socket to which the thread refers at `i` -/
  | createSockFd (t : ObjectThread) (i k : Nat)
  /-- `setSocketFD`, or a callback captures a reference -/
  | store (t : ObjectThread) (i : Nat) (f : ObjectField) (j : Nat)
  /-- `closeSocket`, or `setOnRead` replaces a callback -/
  | take (t : ObjectThread) (i : Nat) (f : ObjectField) (j : Nat)
  /-- a task, or an event callback of `attachEvent`, captures a reference -/
  | post (t : ObjectThread) (p i j : Nat)
  /-- the poller runs the task and drops it, or detaches the event -/
  | runTask (p i j : Nat)
  | share (t : ObjectThread) (k : Nat) (u : ObjectThread) (j : Nat)
  /-- `lock` of a weak reference -/
  | lock (t : ObjectThread) (r k : Nat)
  | drop (t : ObjectThread) (k : Nat)
  /-- a step of a destructor -/
  | dispose (t : ObjectThread)
  deriving DecidableEq

abbrev Lifetimes := SharedObjects ObjectThread ObjectField ObjectKind

namespace Lifetimes

def init : Lifetimes := .empty

def kindAt (s : Lifetimes) (p : Place ObjectThread ObjectField) : Option ObjectKind := (s.refs p).bind s.heap.get

/-- The thread of a poller begins with the poller, and ends in its destructor. -/
def Started (s : Lifetimes) : ObjectThread → Prop
  | .poller p => (s.heap.get p).any ObjectKind.isPoller ∨ ∃ d ∈ s.disposals, d.2.1 = p ∧ d.2.2.isPoller
  | .other _ => True

instance (s : Lifetimes) : ∀ t, Decidable (s.Started t)
  | .poller _ => inferInstanceAs (Decidable (_ ∨ ∃ d ∈ s.disposals, _))
  | .other _ => inferInstanceAs (Decidable True)

/-- A thread in a destructor does nothing else. -/
def Ready (s : Lifetimes) (t : ObjectThread) : Prop := s.dying t = [] ∧ s.Started t

instance (s : Lifetimes) (t : ObjectThread) : Decidable (s.Ready t) := inferInstanceAs (Decidable (_ ∧ _))

def create (s : Lifetimes) (a : ObjectKind) (poller q : Place ObjectThread ObjectField) : Option Lifetimes :=
  if (s.kindAt poller).any ObjectKind.isPoller ∧ s.refs q = none then
    (s.new q a).copy poller (.field s.heap.next .poller)
  else none

/-- The member of an object that a thread sets, when it is null and the object is there. -/
def put (s : Lifetimes) (p : Place ObjectThread ObjectField) (r : Nat) (f : ObjectField) : Option Lifetimes :=
  if s.refs (.field r f) = none ∧ (s.heap.get r).any (fun a => f ∈ a.fields) ∧ (s.kindAt p).any f.fits then
    s.copy p (.field r f)
  else none

/-- The member of an object is moved into a thread. -/
def moveOut (s : Lifetimes) (r : Nat) (f : ObjectField) (t : ObjectThread) (j : Nat) : Option Lifetimes :=
  if s.refs (.held t j) = none ∧ f ≠ .poller then some (s.move (.field r f) (.held t j)) else none

def act (s : Lifetimes) : LifetimeAction → Option Lifetimes
  | .createPoller t captures k =>
    if s.Ready t ∧ s.refs (.held t k) = none then some (s.new (.held t k) (.poller captures)) else none
  | .createUser t a j k => if s.Ready t ∧ a.isUser = true then s.create a (.held t j) (.held t k) else none
  | .createSockFd t i k =>
    match s.refs (.held t i) with
    | some r => if s.Ready t then s.create .sockFd (.field r .poller) (.held t k) else none
    | none => none
  | .store t i f j =>
    match s.refs (.held t i) with
    | some r => if s.Ready t ∧ f ≠ .poller then s.put (.held t j) r f else none
    | none => none
  | .take t i f j =>
    match s.refs (.held t i) with
    | some r => if s.Ready t ∧ (s.heap.get r).any ObjectKind.isSocket then s.moveOut r f t j else none
    | none => none
  | .post t p i j =>
    if s.Ready t ∧ (s.heap.get p).any ObjectKind.isPoller then s.put (.held t j) p (.captured i) else none
  | .runTask p i j => if s.Ready (.poller p) then s.moveOut p (.captured i) (.poller p) j else none
  | .share t k u j => if s.Ready t ∧ s.refs (.held u j) = none then s.copy (.held t k) (.held u j) else none
  | .lock t r k => if s.Ready t ∧ s.refs (.held t k) = none then some (s.lock r (.held t k)) else none
  | .drop t k => if s.Ready t then SharedObjects.drop ObjectKind.fields s t (.held t k) else none
  | .dispose t => SharedObjects.dispose ObjectKind.fields s t

/-- A poller is destroyed on its own thread. -/
def Terminated (s : Lifetimes) : Prop := ∃ d ∈ s.disposals, d.1 = .poller d.2.1 ∧ d.2.2.isPoller = true

instance (s : Lifetimes) : Decidable s.Terminated := inferInstanceAs (Decidable (∃ d ∈ s.disposals, _))

def step (s : Lifetimes) (a : LifetimeAction) : Option Lifetimes := if s.Terminated then none else s.act a

/-- The reference that the action gives up, and the thread that does. -/
def givesUp (s : Lifetimes) : LifetimeAction → Option (ObjectThread × Place ObjectThread ObjectField)
  | .drop t k => some (t, .held t k)
  | .dispose t => (s.dying t).head?.map fun e => (t, .field e.1 e.2)
  | _ => none

/-- A timer, a socket or a `SockFD` whose destructor has not given up `poller_`. -/
def UsesPoller (s : Lifetimes) (r : Nat) : Prop :=
  (∃ a, s.heap.get r = some a ∧ a.isPoller = false) ∨ ∃ t, (r, .poller) ∈ s.dying t

/-! ### What holds in every state -/

structure Inv (s : Lifetimes) : Prop where
  sound : SharedObjects.Sound ObjectKind.fields s
  fits : ∀ r f x a, s.refs (.field r f) = some x → s.heap.get x = some a → f.fits a = true
  has_poller : ∀ r a, s.heap.get r = some a → a.isPoller = false → ∃ p, s.refs (.field r .poller) = some p
  dying_poller : ∀ t r, (r, .poller) ∈ s.dying t → ∃ p, s.refs (.field r .poller) = some p

theorem Inv.init : Inv init where
  sound := .empty
  fits := by simp [Lifetimes.init, SharedObjects.empty]
  has_poller := by simp [Lifetimes.init, SharedObjects.empty, RefHeap.get, RefHeap.empty]
  dying_poller := by simp [Lifetimes.init, SharedObjects.empty]

variable {s s' : Lifetimes} {t : ObjectThread} {p q : Place ObjectThread ObjectField}

private theorem exists_of_kindAt {test : ObjectKind → Bool} (h : (s.kindAt p).any test = true) :
    ∃ x a, s.refs p = some x ∧ s.heap.get x = some a ∧ test a = true := by
  obtain ⟨a, ha, htest⟩ := (Option.any_eq_true _ _).1 h
  obtain ⟨x, hx, hget⟩ := Option.bind_eq_some_iff.1 ha
  exact ⟨x, a, hx, hget, htest⟩

private theorem held_not_field {P : Nat → ObjectField → Prop} {k : Nat} (r : Nat) (f : ObjectField)
    (heq : (.held t k : Place ObjectThread ObjectField) = .field r f) : P r f := by
  cases heq

private theorem open_held {k : Nat} (h : s.refs (.held t k) = none) :
    SharedObjects.Open ObjectKind.fields s (.held t k) :=
  ⟨h, held_not_field⟩

private theorem Inv.ne_next (h : Inv s) {x : Nat} (hp : s.refs p = some x) : x ≠ s.heap.next := by
  rintro rfl
  obtain ⟨a, ha⟩ := h.sound.exists_get hp
  simp [RefHeap.get, h.sound.counted.fresh _ le_rfl] at ha

private theorem get_new (q : Place ObjectThread ObjectField) (a : ObjectKind) {r : Nat} (hr : r ≠ s.heap.next) :
    (s.new q a).heap.get r = s.heap.get r := by
  simp [SharedObjects.new, RefHeap.get, RefHeap.alloc, hr]

private theorem Inv.newPoller (h : Inv s) {k : Nat} (hk : s.refs (.held t k) = none) (captures : Nat) :
    Inv (s.new (.held t k) (.poller captures)) where
  sound := h.sound.new (open_held hk) _
  fits r f x a hx ha := by
    have hold : s.refs (.field r f) = some x := by simpa [SharedObjects.new] using hx
    rw [get_new _ _ (h.ne_next hold)] at ha
    exact h.fits r f x a hold ha
  has_poller r a ha hkind := by
    by_cases hr : r = s.heap.next
    · subst hr
      obtain rfl : ObjectKind.poller captures = a := by simpa [SharedObjects.new] using ha
      cases hkind
    · rw [get_new _ _ hr] at ha
      simpa [SharedObjects.new] using h.has_poller r a ha hkind
  dying_poller u r hmem := by simpa [SharedObjects.new] using h.dying_poller u r hmem

theorem Inv.create (h : Inv s) {a : ObjectKind} {k : Nat} (hfield : .poller ∈ a.fields)
    (hcreate : s.create a p (.held t k) = some s') : Inv s' ∧ s'.disposals = s.disposals := by
  obtain ⟨⟨hpoller, hk⟩, hcopy⟩ := Option.ite_none_right_eq_some.1 hcreate
  obtain ⟨x, b, hx, hb, hkind⟩ := exists_of_kindAt hpoller
  have hnew := h.sound.new (open_held hk) a
  have hp : p ≠ .held t k := by
    rintro rfl
    cases hk.symm.trans hx
  have hx' : (s.new (.held t k) a).refs p = some x := by simpa [SharedObjects.new, hp] using hx
  have hopen : SharedObjects.Open ObjectKind.fields (s.new (.held t k) a) (.field s.heap.next .poller) := by
    refine ⟨by simpa [SharedObjects.new] using h.sound.refs_fresh .poller, ?_⟩
    rintro r f ⟨⟩
    exact ⟨a, by simp [SharedObjects.new], hfield⟩
  obtain ⟨r, hr, hsound, hrefs, -, hget, hdying, hdisposals⟩ := hnew.copy p hopen
  obtain rfl : r = s' := Option.some.inj (hr.symm.trans hcopy)
  rw [hx'] at hrefs
  have hold : ∀ o f y, r.refs (.field o f) = some y →
      (o = s.heap.next ∧ f = .poller ∧ y = x) ∨ s.refs (.field o f) = some y := by
    intro o f y hy
    rw [hrefs] at hy
    by_cases heq : (.field o f : Place ObjectThread ObjectField) = .field s.heap.next .poller
    · obtain ⟨rfl, rfl⟩ := by simpa using heq
      exact .inl ⟨rfl, rfl, by simpa using hy.symm⟩
    · exact .inr (by simpa [heq, SharedObjects.new] using hy)
  refine ⟨⟨hsound, fun o f y c hy hc => ?_, fun o c hc hkind' => ?_, fun u o hmem => ?_⟩, hdisposals⟩
  · rw [hget] at hc
    rcases hold o f y hy with ⟨rfl, rfl, rfl⟩ | hy
    · rw [get_new _ _ (h.ne_next hx), hb] at hc
      obtain rfl := Option.some.inj hc
      exact hkind
    · rw [get_new _ _ (h.ne_next hy)] at hc
      exact h.fits o f y c hy hc
  · rw [hrefs]
    by_cases ho : o = s.heap.next
    · subst ho
      exact ⟨x, Function.update_self _ _ _⟩
    · rw [hget, get_new _ _ ho] at hc
      simpa [SharedObjects.new, ho] using h.has_poller o c hc hkind'
  · rw [hdying] at hmem
    have ho : o ≠ s.heap.next := Nat.ne_of_lt (h.sound.dead_of_dying u o .poller hmem).1
    rw [hrefs]
    simpa [SharedObjects.new, ho] using h.dying_poller u o hmem

theorem Inv.copy (h : Inv s) (hq : SharedObjects.Open ObjectKind.fields s q)
    (hfits : ∀ r f, q = .field r f → (s.kindAt p).any f.fits = true) (hcopy : s.copy p q = some s') :
    Inv s' ∧ s'.disposals = s.disposals := by
  obtain ⟨r, hr, hsound, hrefs, -, hget, hdying, hdisposals⟩ := h.sound.copy p hq
  obtain rfl : r = s' := Option.some.inj (hr.symm.trans hcopy)
  have hkept : ∀ o y, s.refs (.field o .poller) = some y → r.refs (.field o .poller) = some y := by
    intro o y hy
    have hne : .field o .poller ≠ q := by
      rintro rfl
      cases hq.1.symm.trans hy
    rw [hrefs, Function.update_of_ne hne, hy]
  refine ⟨⟨hsound, fun o f y c hy hc => ?_, fun o c hc hkind => ?_, fun u o hmem => ?_⟩, hdisposals⟩
  · rw [hget] at hc
    rw [hrefs] at hy
    by_cases heq : .field o f = q
    · subst heq
      obtain ⟨x, b, hx, hb, hfit⟩ := exists_of_kindAt (hfits o f rfl)
      obtain rfl : x = y := by simpa [hx] using hy
      obtain rfl := Option.some.inj (hb.symm.trans hc)
      exact hfit
    · exact h.fits o f y c (by simpa [heq] using hy) hc
  · rw [hget] at hc
    obtain ⟨y, hy⟩ := h.has_poller o c hc hkind
    exact ⟨y, hkept o y hy⟩
  · rw [hdying] at hmem
    obtain ⟨y, hy⟩ := h.dying_poller u o hmem
    exact ⟨y, hkept o y hy⟩

private theorem Inv.put (h : Inv s) {r : Nat} {f : ObjectField} (hput : s.put p r f = some s') :
    Inv s' ∧ s'.disposals = s.disposals := by
  obtain ⟨⟨hnone, hmem, hfits⟩, hcopy⟩ := Option.ite_none_right_eq_some.1 hput
  obtain ⟨a, ha, hf⟩ := (Option.any_eq_true _ _).1 hmem
  refine h.copy ⟨hnone, ?_⟩ ?_ hcopy
  · rintro r' f' ⟨⟩
    exact ⟨a, ha, by simpa using hf⟩
  · rintro r' f' ⟨⟩
    exact hfits

private theorem Inv.moveOut (h : Inv s) {r j : Nat} {f : ObjectField} (hmove : s.moveOut r f t j = some s') :
    Inv s' ∧ s'.disposals = s.disposals := by
  obtain ⟨⟨hnone, hf⟩, hmove⟩ := Option.ite_none_right_eq_some.1 hmove
  obtain rfl := Option.some.inj hmove
  have hne : ∀ o, (.field o .poller : Place ObjectThread ObjectField) ≠ .field r f := by
    rintro o ⟨⟩
    exact hf rfl
  refine ⟨⟨h.sound.move (open_held hnone) (by simp), fun o f' x a hx ha => ?_, fun o a ha hkind => ?_,
    fun u o hmem => ?_⟩, rfl⟩
  · refine h.fits o f' x a ?_ ha
    by_cases heq : (.field o f' : Place ObjectThread ObjectField) = .field r f
    · simp [SharedObjects.move, heq] at hx
    · simpa [SharedObjects.move, heq] using hx
  · simpa [SharedObjects.move, hne] using h.has_poller o a ha hkind
  · simpa [SharedObjects.move, hne] using h.dying_poller u o hmem

theorem Inv.lock (h : Inv s) {k : Nat} (hk : s.refs (.held t k) = none) (r : Nat) : Inv (s.lock r (.held t k)) where
  sound := h.sound.lock r (open_held hk)
  fits o f x a hx ha := by
    have ha' : s.heap.get x = some a := by rwa [← RefHeap.get_lock s.heap r]
    exact h.fits o f x a (by simpa [SharedObjects.lock] using hx) ha'
  has_poller o a ha hkind := by
    have ha' : s.heap.get o = some a := by rwa [← RefHeap.get_lock s.heap r]
    simpa [SharedObjects.lock] using h.has_poller o a ha' hkind
  dying_poller u o hmem := by simpa [SharedObjects.lock] using h.dying_poller u o hmem

/-- A reference is given up that is not a member of an object which is there, nor one that a destructor has yet to
give up. -/
theorem Inv.dropped (h : Inv s) (hsound : SharedObjects.Sound ObjectKind.fields s')
    (hdropped : SharedObjects.Dropped s s' t p) (hp : ∀ r f, p = .field r f → s.heap.get r = none)
    (hdying : ∀ u r f, (r, f) ∈ s'.dying u → .field r f ≠ p ∧
      ((r, f) ∈ s.dying u ∨ ∃ a, s.heap.get r = some a ∧ f ∈ a.fields)) : Inv s' := by
  refine ⟨hsound, fun o f x a hx ha => ?_, fun o a ha hkind => ?_, fun u o hmem => ?_⟩
  · rw [hdropped.refs] at hx
    exact h.fits o f x a (SharedObjects.refs_of_dropped hx).1 (hdropped.get x a ha)
  · have hne : .field o .poller ≠ p := by
      rintro rfl
      cases (hp o .poller rfl).symm.trans (hdropped.get o a ha)
    rw [hdropped.refs]
    simpa [hne] using h.has_poller o a (hdropped.get o a ha) hkind
  · obtain ⟨hne, hold⟩ := hdying u o .poller hmem
    rw [hdropped.refs, Function.update_of_ne hne]
    rcases hold with hold | ⟨a, ha, hfield⟩
    · exact h.dying_poller u o hold
    · refine h.has_poller o a ha ?_
      cases a <;> simp_all [ObjectKind.isPoller, ObjectKind.fields]

/-- An action keeps the destructors that have begun, or gives up a reference. -/
theorem Inv.act (h : Inv s) {a : LifetimeAction} (hact : s.act a = some s') :
    Inv s' ∧ (s.givesUp a = none ∧ s'.disposals = s.disposals ∨
      ∃ u place, s.givesUp a = some (u, place) ∧ SharedObjects.Dropped s s' u place) := by
  cases a with
  | createPoller t captures k =>
    obtain ⟨⟨-, hk⟩, hnew⟩ := Option.ite_none_right_eq_some.1 hact
    obtain rfl := Option.some.inj hnew
    exact ⟨h.newPoller hk captures, .inl ⟨rfl, rfl⟩⟩
  | createUser t a j k =>
    obtain ⟨⟨-, huser⟩, hcreate⟩ := Option.ite_none_right_eq_some.1 hact
    have hfield : .poller ∈ a.fields := by cases a <;> simp_all [ObjectKind.isUser, ObjectKind.fields]
    obtain ⟨hinv, hdisposals⟩ := h.create hfield hcreate
    exact ⟨hinv, .inl ⟨rfl, hdisposals⟩⟩
  | createSockFd t i k =>
    rw [Lifetimes.act] at hact
    split at hact
    · obtain ⟨-, hcreate⟩ := Option.ite_none_right_eq_some.1 hact
      obtain ⟨hinv, hdisposals⟩ := h.create (by simp [ObjectKind.fields]) hcreate
      exact ⟨hinv, .inl ⟨rfl, hdisposals⟩⟩
    · cases hact
  | store t i f j =>
    rw [Lifetimes.act] at hact
    split at hact
    · obtain ⟨-, hput⟩ := Option.ite_none_right_eq_some.1 hact
      obtain ⟨hinv, hdisposals⟩ := h.put hput
      exact ⟨hinv, .inl ⟨rfl, hdisposals⟩⟩
    · cases hact
  | take t i f j =>
    rw [Lifetimes.act] at hact
    split at hact
    · obtain ⟨-, hmove⟩ := Option.ite_none_right_eq_some.1 hact
      obtain ⟨hinv, hdisposals⟩ := h.moveOut hmove
      exact ⟨hinv, .inl ⟨rfl, hdisposals⟩⟩
    · cases hact
  | post t p i j =>
    obtain ⟨-, hput⟩ := Option.ite_none_right_eq_some.1 hact
    obtain ⟨hinv, hdisposals⟩ := h.put hput
    exact ⟨hinv, .inl ⟨rfl, hdisposals⟩⟩
  | runTask p i j =>
    obtain ⟨-, hmove⟩ := Option.ite_none_right_eq_some.1 hact
    obtain ⟨hinv, hdisposals⟩ := h.moveOut hmove
    exact ⟨hinv, .inl ⟨rfl, hdisposals⟩⟩
  | share t k u j =>
    obtain ⟨⟨-, hj⟩, hcopy⟩ := Option.ite_none_right_eq_some.1 hact
    obtain ⟨hinv, hdisposals⟩ := h.copy (open_held hj) held_not_field hcopy
    exact ⟨hinv, .inl ⟨rfl, hdisposals⟩⟩
  | lock t r k =>
    obtain ⟨⟨-, hk⟩, hlock⟩ := Option.ite_none_right_eq_some.1 hact
    obtain rfl := Option.some.inj hlock
    exact ⟨h.lock hk r, .inl ⟨rfl, rfl⟩⟩
  | drop t k =>
    obtain ⟨-, hdrop⟩ := Option.ite_none_right_eq_some.1 hact
    obtain ⟨r, hr, hsound, hdropped, hdying⟩ := h.sound.drop ObjectKind.nodup_fields t (.held t k)
    obtain rfl : r = s' := Option.some.inj (hr.symm.trans hdrop)
    refine ⟨h.dropped hsound hdropped held_not_field fun u o f hmem => ?_, .inr ⟨t, _, rfl, hdropped⟩⟩
    exact ⟨by simp, hdying u o f hmem⟩
  | dispose t =>
    cases hdying : s.dying t with
    | nil => simp [Lifetimes.act, SharedObjects.dispose, hdying] at hact
    | cons e rest =>
      obtain ⟨o, f⟩ := e
      obtain ⟨r, hr, hsound, hdropped, hrest⟩ := h.sound.dispose ObjectKind.nodup_fields hdying
      obtain rfl : r = s' := Option.some.inj (hr.symm.trans hact)
      have hdead : s.heap.get o = none := (h.sound.dead_of_dying t o f (by simp [hdying])).2
      refine ⟨h.dropped hsound hdropped ?_ fun u o' f' hmem => ?_,
        .inr ⟨t, _, by simp [givesUp, hdying], hdropped⟩⟩
      · rintro o' f' ⟨⟩
        exact hdead
      · obtain ⟨hne, hold⟩ := hrest u o' f' hmem
        exact ⟨by simpa using hne, hold⟩

private theorem step_inv (s : Lifetimes) (a : LifetimeAction) (s' : Lifetimes) (h : Inv s)
    (hstep : s.step a = some s') : Inv s' := by
  obtain ⟨-, hact⟩ := Option.ite_none_left_eq_some.1 hstep
  exact (h.act hact).1

/-! ### What outlives what -/

/-- What a thread or an object refers to is there and of the right kind; every timer, socket and `SockFD` has its poller
until the destructor gives it up; and every object is there or has been destroyed once. -/
theorem objects_safe {as : List LifetimeAction} (hrun : Transition.exec step init as = some s) :
    (∀ r, s.heap.Alive r ↔ ∃ place, s.refs place = some r) ∧
      (∀ r f x, s.refs (.field r f) = some x → (s.heap.get x).any f.fits = true) ∧
      (∀ r, s.UsesPoller r → ∃ p, s.refs (.field r .poller) = some p) ∧
      (∀ r, r ∈ s.disposals.map (fun d => d.2.1) ↔ r < s.heap.next ∧ ¬ s.heap.Alive r) ∧
      (s.disposals.map fun d => d.2.1).Nodup ∧
      (¬ s.Terminated → ∀ t, (s.Ready t → ∀ k, ∃ s', s.step (.drop t k) = some s') ∧
        (s.dying t ≠ [] → ∃ s', s.step (.dispose t) = some s')) := by
  have h : Inv s := Transition.exec_invariant step_inv .init hrun
  refine ⟨h.sound.counted.alive_iff, fun r f x hx => ?_, fun r huses => ?_, fun r => ?_, h.sound.disposed_once,
    fun hnot t => ⟨fun hready k => ?_, fun hdying => ?_⟩⟩
  · obtain ⟨a, ha⟩ := h.sound.exists_get hx
    rw [ha]
    exact h.fits r f x a hx ha
  · rcases huses with ⟨a, ha, hkind⟩ | ⟨t, hmem⟩
    · exact h.has_poller r a ha hkind
    · exact h.dying_poller t r hmem
  · have hdead : s.heap.get r = none ↔ ¬ s.heap.Alive r := by simp [RefHeap.get, RefHeap.Alive]
    rw [h.sound.disposed_iff, hdead]
  · obtain ⟨r, hr, -⟩ := h.sound.drop ObjectKind.nodup_fields t (.held t k)
    exact ⟨r, by simp only [step, if_neg hnot, act, if_pos hready, hr]⟩
  · obtain ⟨⟨o, f⟩, rest, hcons⟩ := List.exists_cons_of_ne_nil hdying
    obtain ⟨r, hr, -⟩ := h.sound.dispose ObjectKind.nodup_fields hcons
    exact ⟨r, by simp only [step, if_neg hnot, act, hr]⟩

/-- A callback has the last reference to a socket, whose `SockFD` is destroyed next. -/
def closedInCallback : List LifetimeAction :=
  [.createPoller (.other 0) 0 0, .createUser (.other 0) (.socket 0) 0 1, .createSockFd (.other 0) 1 2,
    .store (.other 0) 1 .sockFd 2, .drop (.other 0) 2, .lock (.poller 0) 1 0, .drop (.other 0) 1,
    .drop (.poller 0) 0, .dispose (.poller 0)]

theorem objects_safe_closedInCallback :
    ∃ s, Transition.exec step init closedInCallback = some s ∧ s.dying (.poller 0) = [(2, .poller), (1, .poller)] ∧
      ∃ s', s.step (.dispose (.poller 0)) = some s' := by
  have hlast : (Transition.exec step init closedInCallback).map (fun s => (s.dying (.poller 0), decide s.Terminated)) =
      some ([(2, .poller), (1, .poller)], false) := by decide
  obtain ⟨s, hrun, hs⟩ := Option.map_eq_some_iff.1 hlast
  obtain ⟨hdying, hterm⟩ := Prod.mk.inj hs
  obtain ⟨-, -, -, -, -, hsteps⟩ := objects_safe hrun
  exact ⟨s, hrun, hdying, (hsteps (of_decide_eq_false hterm) (.poller 0)).2 (by simp [hdying])⟩

/-! ### Pollers that destroy themselves -/

/-- The thread of a poller does not give up the last reference to the poller. -/
def KeepsPoller (s : Lifetimes) (a : LifetimeAction) : Prop :=
  ∀ p place, s.givesUp a = some (.poller p, place) → s.refs place = some p → (s.heap.get p).any ObjectKind.isPoller →
    ∃ q, q ≠ place ∧ s.refs q = some p

theorem Inv.terminated_step (h : Inv s) {a : LifetimeAction} (hstep : s.step a = some s') :
    s'.Terminated ↔ ¬ s.KeepsPoller a := by
  obtain ⟨hnot, hact⟩ := Option.ite_none_left_eq_some.1 hstep
  rcases (h.act hact).2 with ⟨hgives, hsame⟩ | ⟨u, place, hgives, hdropped⟩
  · have hkeeps : s.KeepsPoller a := by
      intro p place heq
      rw [hgives] at heq
      cases heq
    simp only [Terminated, hsame, hkeeps, not_true_eq_false, iff_false]
    exact hnot
  · rcases hdropped.disposals with ⟨hsame, hothers⟩ | ⟨r, a', hr, ha', honly, happend⟩
    · have hkeeps : s.KeepsPoller a := by
        intro p place' heq hp hkind
        rw [hgives] at heq
        obtain ⟨rfl, rfl⟩ := Prod.mk.inj (Option.some.inj heq)
        exact hothers p hp
      simp only [Terminated, hsame, hkeeps, not_true_eq_false, iff_false]
      exact hnot
    · constructor
      · rintro ⟨d, hd, hself, hkind⟩ hkeeps
        rw [happend, List.mem_append, List.mem_singleton] at hd
        rcases hd with hd | rfl
        · exact hnot ⟨d, hd, hself, hkind⟩
        · have hself' : u = .poller r := hself
          subst hself'
          obtain ⟨q, hne, hq⟩ := hkeeps r place hgives hr (by simpa [ha'] using hkind)
          exact hne (honly q hq)
      · intro hkeeps
        obtain ⟨p, place', heq, hp, hkind, -⟩ : ∃ p place', s.givesUp a = some (.poller p, place') ∧
            s.refs place' = some p ∧ (s.heap.get p).any ObjectKind.isPoller = true ∧
            ¬ ∃ q, q ≠ place' ∧ s.refs q = some p := by
          simpa [KeepsPoller] using hkeeps
        rw [hgives] at heq
        obtain ⟨rfl, rfl⟩ := Prod.mk.inj (Option.some.inj heq)
        obtain rfl := Option.some.inj (hr.symm.trans hp)
        refine ⟨(.poller r, r, a'), by simp [happend], rfl, ?_⟩
        simpa [ha'] using hkind

private theorem not_terminated_of_step {a : LifetimeAction} (hstep : s.step a = some s') : ¬ s.Terminated :=
  (Option.ite_none_left_eq_some.1 hstep).1

/-- `shutdown` in a thread of another poller, or of none, does not throw. -/
private theorem shutdown_terminated_iff (life : PollerLife) (hmode : life.mode = .ownThread) (t : ObjectThread)
    (p : Nat) : (life.shutdown (t.seenBy p)).destructor = .terminated ↔ t = .poller p := by
  cases t with
  | poller p' =>
    by_cases hp : p' = p
    · simp [PollerLife.shutdown, PollerLife.currentThread, ObjectThread.seenBy, hmode, hp]
    · simp [PollerLife.shutdown, PollerLife.currentThread, ObjectThread.seenBy, hmode, hp]
  | other m => simp [PollerLife.shutdown, PollerLife.currentThread, ObjectThread.seenBy, hmode]

private theorem ne_of_givesUp {a : LifetimeAction} {p : Nat} {place : Place ObjectThread ObjectField}
    (hgives : s.givesUp a = some (.poller p, place)) (m k : Nat) : place ≠ .held (.other m) k := by
  rintro rfl
  cases a with
  | drop t j =>
    obtain ⟨rfl, heq⟩ := Prod.mk.inj (Option.some.inj hgives)
    cases heq
  | dispose t =>
    obtain ⟨e, -, he⟩ := Option.map_eq_some_iff.1 hgives
    cases (Prod.mk.inj he).2
  | _ => cases hgives

/-- The program is terminated exactly by a thread of a poller that gives up the last reference to its poller, so not as
long as the pollers are kept by threads that are not pollers; no other destructor of a poller throws. -/
theorem terminated_iff {as : List LifetimeAction} (hrun : Transition.exec step init as = some s) :
    (s.Terminated ↔ ¬ Transition.Along step KeepsPoller init as) ∧
      (Transition.Along step (fun t _ => ∀ p, (t.heap.get p).any ObjectKind.isPoller = true →
        ∃ m k, t.refs (.held (.other m) k) = some p) init as → ¬ s.Terminated) ∧
      ∀ d ∈ s.disposals, d.2.2.isPoller = true → ∀ life : PollerLife, life.mode = .ownThread →
        ((life.shutdown (d.1.seenBy d.2.1)).destructor = .terminated ↔ d.1 = .poller d.2.1) := by
  have hkeep : ∀ r a r', Inv r ∧ ¬ r.Terminated → r.KeepsPoller a → r.step a = some r' → Inv r' ∧ ¬ r'.Terminated :=
    fun r a r' hr hkeeps hstep =>
      ⟨step_inv r a r' hr.1 hstep, fun hterm => (hr.1.terminated_step hstep).1 hterm hkeeps⟩
  have hinit : ¬ Lifetimes.Terminated init := by decide
  have hiff : s.Terminated ↔ ¬ Transition.Along step KeepsPoller init as := by
    constructor
    · intro hterm halong
      exact (Transition.exec_invariant_along hkeep ⟨.init, hinit⟩ halong hrun).2 hterm
    · intro hnot
      obtain ⟨bs, a, cs, r, r', -, hbs, hkeeps, hstep, hcs⟩ := Transition.exists_of_not_along hrun hnot
      have hr : Inv r := Transition.exec_invariant step_inv .init hbs
      have hterm := (hr.terminated_step hstep).2 hkeeps
      have hstay : ∀ (u : Lifetimes) b u', u.Terminated → u.step b = some u' → u'.Terminated :=
        fun u b u' hu hstep' => absurd hu (not_terminated_of_step hstep')
      exact Transition.exec_invariant hstay hterm hcs
  refine ⟨hiff, fun hkept hterm => hiff.1 hterm ?_, fun d _ _ life hmode => shutdown_terminated_iff life hmode _ _⟩
  refine Transition.along_of_invariant (fun r a r' hr _ hstep => step_inv r a r' hr hstep) ?_ .init hkept hrun
  intro r a r' _ hothers _ p place hgives hp hkind
  obtain ⟨m, k, hk⟩ := hothers p hkind
  exact ⟨_, (ne_of_givesUp hgives m k).symm, hk⟩

/-- The thread of a poller runs the callback of a timer while the user gives up the timer and the poller. -/
def lastInCallback : List LifetimeAction :=
  [.createPoller (.other 0) 0 0, .createUser (.other 0) (.timer 0) 0 1, .lock (.poller 0) 1 0, .drop (.other 0) 0,
    .drop (.other 0) 1, .drop (.poller 0) 0, .dispose (.poller 0)]

theorem terminated_iff_lastInCallback :
    ∃ s, Transition.exec step init lastInCallback = some s ∧ s.Terminated ∧
      ¬ Transition.Along step KeepsPoller init lastInCallback := by
  have hlast : (Transition.exec step init lastInCallback).map (fun s => decide s.Terminated) = some true := by decide
  obtain ⟨s, hrun, hs⟩ := Option.map_eq_some_iff.1 hlast
  have hterm : s.Terminated := of_decide_eq_true hs
  exact ⟨s, hrun, hterm, (terminated_iff hrun).1.1 hterm⟩

/-! ### What is never destroyed -/

/-- A reference that a callback (of a timer, a socket or an event) or a task has captured. -/
def Captured (s : Lifetimes) (o r : Nat) : Prop := ∃ i, s.refs (.field o (.captured i)) = some r

/-- Without captures, sockets and timers refer to `SockFD`s and pollers, and these to pollers. -/
def rank (s : Lifetimes) (r : Nat) : Nat :=
  match s.heap.get r with
  | some (.poller _) => 0
  | some .sockFd => 1
  | _ => 2

private theorem Inv.refers_cases (h : Inv s) {o r : Nat} (hrefers : s.Refers o r) :
    s.Captured o r ∨ s.rank r < s.rank o := by
  obtain ⟨f, hf⟩ := hrefers
  obtain ⟨a, ha⟩ := h.sound.exists_get hf
  have hfits := h.fits o f r a hf ha
  have hmem := h.sound.field_mem o f r
  cases f with
  | captured i => exact .inl ⟨i, hf⟩
  | poller =>
    refine .inr ?_
    cases ho : s.heap.get o with
    | none => cases a <;> simp_all [rank, ObjectField.fits, ObjectKind.isPoller]
    | some b =>
      have hb := hmem b hf ho
      cases a <;> cases b <;> simp_all [rank, ObjectField.fits, ObjectKind.isPoller, ObjectKind.fields]
  | sockFd =>
    refine .inr ?_
    cases ho : s.heap.get o with
    | none => cases a <;> simp_all [rank, ObjectField.fits]
    | some b =>
      have hb := hmem b hf ho
      cases a <;> cases b <;> simp_all [rank, ObjectField.fits, ObjectKind.fields]

/-- A chain of references goes down, or passes through something captured. -/
private theorem Inv.rank_lt_or_captured (h : Inv s) {o r : Nat} (hchain : Relation.TransGen s.Refers o r) :
    (∃ x y, Relation.ReflTransGen s.Refers o x ∧ s.Captured x y ∧ Relation.ReflTransGen s.Refers y r) ∨
      s.rank r < s.rank o := by
  induction hchain with
  | single hrefers =>
    rcases h.refers_cases hrefers with hcap | hlt
    · exact .inl ⟨_, _, .refl, hcap, .refl⟩
    · exact .inr hlt
  | tail hchain hrefers ih =>
    rcases ih with ⟨x, y, hx, hcap, hy⟩ | hlt
    · exact .inl ⟨x, y, hx, hcap, hy.tail hrefers⟩
    · rcases h.refers_cases hrefers with hcap | hlt'
      · exact .inl ⟨_, _, hchain.to_reflTransGen, hcap, .refl⟩
      · exact .inr (hlt'.trans hlt)

/-- When the threads have given up all references and the destructors are over, the objects that are left are those
reached from a cycle of references, each of which passes through something captured; so without captures every object
has been destroyed. -/
theorem left_iff {as : List LifetimeAction} (hrun : Transition.exec step init as = some s)
    (hheld : ∀ t k, s.refs (.held t k) = none) (hdying : ∀ t, s.dying t = []) :
    (∀ r, s.heap.Alive r ↔ ∃ o, Relation.TransGen s.Refers o o ∧ Relation.ReflTransGen s.Refers o r) ∧
      (∀ o, Relation.TransGen s.Refers o o → ∃ x y, Relation.ReflTransGen s.Refers o x ∧ s.Captured x y ∧
        Relation.ReflTransGen s.Refers y o) ∧
      ((∀ o r, ¬ s.Captured o r) → ∀ r < s.heap.next, ∃ t a, (t, r, a) ∈ s.disposals) := by
  have h : Inv s := Transition.exec_invariant step_inv .init hrun
  have hleft := h.sound.alive_iff_of_quiet hheld hdying
  have hcaptured : ∀ o, Relation.TransGen s.Refers o o → ∃ x y, Relation.ReflTransGen s.Refers o x ∧ s.Captured x y ∧
      Relation.ReflTransGen s.Refers y o :=
    fun o hcycle => (h.rank_lt_or_captured hcycle).resolve_right (Nat.lt_irrefl _)
  refine ⟨hleft, hcaptured, fun hnone r hr => ?_⟩
  have hdead : s.heap.get r = none := by
    by_contra hget
    obtain ⟨a, ha⟩ := Option.ne_none_iff_exists'.1 hget
    obtain ⟨o, hcycle, -⟩ := (hleft r).1 (RefHeap.alive_of_get ha)
    obtain ⟨x, y, -, hcap, -⟩ := hcaptured o hcycle
    exact hnone x y hcap
  obtain ⟨⟨t, r', a⟩, hmem, rfl⟩ := List.mem_map.1 ((h.sound.disposed_iff r).2 ⟨hr, hdead⟩)
  exact ⟨t, a, hmem⟩

def capturesItself : List LifetimeAction :=
  [.createPoller (.other 0) 0 0, .createUser (.other 0) (.timer 1) 0 1, .store (.other 0) 1 (.captured 0) 1,
    .drop (.other 0) 0, .drop (.other 0) 1]

theorem left_iff_capturesItself :
    ∃ s, Transition.exec step init capturesItself = some s ∧ s.heap.Alive 0 ∧ s.heap.Alive 1 := by
  have hlast : ∃ s, Transition.exec step init capturesItself = some s ∧ (∀ t k, s.refs (.held t k) = none) ∧
      (∀ t, s.dying t = []) ∧ s.refs (.field 1 .poller) = some 0 ∧ s.refs (.field 1 (.captured 0)) = some 1 := by
    refine ⟨_, rfl, fun t k => ?_, fun t => ?_, ?_, ?_⟩
    · have hinit : init.refs (.held t k) = none := rfl
      by_cases h₁ : t = .other 0 ∧ k = 1
      · simp [Function.update, h₁]
      · by_cases h₀ : t = .other 0 ∧ k = 0
        · simp [Function.update, h₀]
        · simpa [SharedObjects.new, Function.update, h₁, h₀] using hinit
    · rfl
    · decide
    · decide
  obtain ⟨s, hrun, hheld, hdying, hpoller, hcaptured⟩ := hlast
  have hcycle : Relation.TransGen s.Refers 1 1 := .single ⟨_, hcaptured⟩
  obtain ⟨hleft, -⟩ := left_iff hrun hheld hdying
  exact ⟨s, hrun, (hleft 0).2 ⟨1, hcycle, .single ⟨_, hpoller⟩⟩, (hleft 1).2 ⟨1, hcycle, .refl⟩⟩

end Lifetimes

end AvcTool
