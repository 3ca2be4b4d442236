import Mathlib.Data.Prod.Lex
import Mathlib.Data.Fintype.Prod
import Mathlib.Data.Fin.VecNotation
import AvcTool.Lib.LockOrder

/-!
# The order of the locks

Each function is given by what it does with the mutexes of the library, in scripts of `LockOrder`.  A branch whose
condition is not about locks is left open, so that the scripts do at least what the code does.  Waiting for an event or
for a condition variable is not waiting for a lock; what a thread does after it is part of its script.

`onReadable` calls `on_read_` with `mtx_event_` locked, so that user code runs under this lock, and `flushAll` sends with
`mtx_fd_` locked.  In `setOnRead` the old callback is destroyed under `mtx_event_`, together with what it holds.  All
other mutexes are taken for a short section.

Only the mutexes are waited for here.  Code of the user does not call `sync` or `sync_first` and runs no destructor that
joins a thread, and the pipes have room for what `async` writes; `PollerNet` is about these waits.  With them there are
more deadlocks: a callback that calls `sync` keeps `mtx_event_` locked while the task runs, which may call `setOnRead`.

If the callback of a socket, and what the destructors do that `setOnRead` runs, call `setOnRead` of no socket but this
one and those after it, in some fixed order of the sockets, then no threads deadlock (`no_deadlock`).
-/

namespace AvcTool

open LockOrder

/-- The mutexes; sockets, pollers and thread pools have numbers. -/
inductive Mutex where
  | event (socket : Nat)
  | fd (socket : Nat)
  | sending (socket : Nat)
  | waiting (socket : Nat)
  | tasks (poller : Nat)
  /-- of `ThreadLoadCounter` -/
  | load (poller : Nat)
  | pool (pool : Nat)
  /-- of the semaphore of a pool -/
  | poolSem (pool : Nat)
  /-- of `AsyncLogWriter` -/
  | writer
  | writerSem
  | dnsCache
  /-- `s_mutex` of the handles of wepoll -/
  | epollHandles
  deriving DecidableEq

namespace Mutex

/-- Those of a `Socket` are `std::recursive_mutex`, the others `std::mutex`. -/
def recursive : Mutex → Bool
  | event _ | fd _ | sending _ | waiting _ => true
  | _ => false

def level : Mutex → Nat
  | event _ => 0
  | fd _ => 1
  | sending _ | waiting _ => 2
  | _ => 3

def rank (m : Mutex) : Nat ×ₗ Nat :=
  toLex (m.level, match m with
    | event i => i
    | _ => 0)

end Mutex

/-- Code of the user, by the calls that it makes of the library.  None of them waits for another thread but for a
mutex. -/
inductive UserCode where
  | nothing
  | andThen (c d : UserCode)
  | orElse (c d : UserCode)
  | repeatedly (c : UserCode)
  | send (socket : Nat)
  /-- `dropped` is done by the destructors of what the old callback holds -/
  | setOnRead (socket : Nat) (dropped : UserCode)
  | bindUdpSocket (socket : Nat)
  /-- gives up the last reference of a socket -/
  | release (socket : Nat)
  /-- `attachEvent`, `modifyEvent` and `detachEvent` -/
  | register (poller : Nat)
  /-- `async`, `async_first` and `addDelayTask`; a task that is called at once counts as code of the caller -/
  | async (poller : Nat)
  | poolAsync (pool : Nat)
  | load (poller : Nat)
  | getDomainIP
  | log

namespace Locks

/-! ### The scripts of the functions -/

def briefly (m : Mutex) : Script Mutex := .locked m .skip

/-- `WriteL`: the writer may be missing. -/
def log : Script Mutex := .either .skip (.seq (briefly .writer) (briefly .writerSem))

/-- `epoll_ctl` and `epoll_wait`; on Linux without a lock. -/
def epollCall : Script Mutex := .either .skip (briefly .epollHandles)

/-- `writePipe` does not block, as the pipe has room. -/
def async (p : Nat) : Script Mutex := briefly (.tasks p)

/-- `attachEvent`, `modifyEvent` and `detachEvent`: done at once on the thread of the poller, else handed in. -/
def register (p : Nat) : Script Mutex := .either log (.either (.seq epollCall log) (async p))

variable (poller : Nat → Nat)

/-- Another value is assigned to `sock_fd_`, so that `~SockFD` calls `detachEvent`. -/
def assignSockFd (i : Nat) : Script Mutex := .locked (.fd i) (.either .skip (register (poller i)))

def closeSocket (i : Nat) : Script Mutex := assignSockFd poller i

def setSocketFD (i : Nat) : Script Mutex := assignSockFd poller i

def fromSockFd (i : Nat) : Script Mutex :=
  .seq (closeSocket poller i) (.seq (setSocketFD poller i) (.seq (register (poller i)) log))

/-- `SockUtil` may log several lines. -/
def bindUdpSocket (i : Nat) : Script Mutex := .seq (.repeated log) (.either log (fromSockFd poller i))

def startWritableEvent (i : Nat) : Script Mutex := register (poller i)

def stopWritableEvent (i : Nat) : Script Mutex := register (poller i)

/-- `flushData` without the call of itself at the end. -/
def flushPass (i : Nat) (isEventPollerThread : Bool) : Script Mutex :=
  .seq (briefly (.sending i))
    (.seq (.either .skip
        (.locked (.waiting i) (.either .skip (if isEventPollerThread then stopWritableEvent poller i else .skip))))
      (.seq (.repeated log)
        (.seq (.either .skip (if isEventPollerThread then .skip else startWritableEvent poller i))
          (.either .skip (briefly (.sending i))))))

def flushData (i : Nat) (isEventPollerThread : Bool) : Script Mutex :=
  .seq (flushPass poller i isEventPollerThread)
    (if isEventPollerThread then .repeated (flushPass poller i isEventPollerThread) else .skip)

def flushAll (i : Nat) : Script Mutex := .locked (.fd i) (.either log (.either .skip (flushData poller i false)))

def send (i : Nat) : Script Mutex := .seq (briefly (.waiting i)) (.either .skip (flushAll poller i))

def setOnRead (i : Nat) (dropped : Script Mutex) : Script Mutex := .locked (.event i) dropped

def poolAsync (q : Nat) : Script Mutex := .seq (briefly (.pool q)) (briefly (.poolSem q))

def load (p : Nat) : Script Mutex := briefly (.load p)

/-- `DnsCache::getDomainIP`, with `getCacheDomainIP` and `setCacheDomainIP`. -/
def getDomainIP : Script Mutex :=
  .either .skip (.seq (briefly .dnsCache) (.seq log (.either .skip (briefly .dnsCache))))

def userCode : UserCode → Script Mutex
  | .nothing => .skip
  | .andThen c d => .seq (userCode c) (userCode d)
  | .orElse c d => .either (userCode c) (userCode d)
  | .repeatedly c => .repeated (userCode c)
  | .send i => send poller i
  | .setOnRead i dropped => setOnRead i (userCode dropped)
  | .bindUdpSocket i => bindUdpSocket poller i
  | .release i => closeSocket poller i
  | .register p => register p
  | .async p => async p
  | .poolAsync q => poolAsync q
  | .load p => load p
  | .getDomainIP => getDomainIP
  | .log => log

variable (onRead : Nat → UserCode)

/-- The lock is taken for each datagram anew. -/
def onReadable (i : Nat) : Script Mutex :=
  .repeated (.either log (.locked (.event i) (.seq (userCode poller (onRead i)) log)))

/-- `onWritable` does nothing so far; it is there to call `flushData`. -/
def onWritable (i : Nat) : Script Mutex := .either .skip (flushData poller i true)

/-- The callback of `Socket::attachEvent`.  Its reference to the socket may be the last one. -/
def ioCallback (i : Nat) : Script Mutex :=
  .seq (.either .skip (onReadable poller onRead i))
    (.seq (.either .skip (onWritable poller i)) (.either .skip (closeSocket poller i)))

/-- `onPipeEvent`: the pipe may be registered anew, and then the tasks are called. -/
def onPipeEvent (p : Nat) (tasks : Script Mutex) : Script Mutex :=
  .seq (.either .skip (.seq (register p) (register p))) (.seq (briefly (.tasks p)) (.repeated tasks))

/-- One of the callbacks, each of which may be called any number of times. -/
def anyOf : List (Script Mutex) → Script Mutex
  | [] => .skip
  | s :: ss => .either s (anyOf ss)

/-- `runLoop(true)` with the sockets `sockets` and other callbacks and tasks of the user. -/
def runLoop (p : Nat) (sockets : List Nat) (tasks : UserCode) : Script Mutex :=
  let user := .either (register p) (userCode poller tasks)
  .repeated (.seq (.repeated user) (.seq (load p) (.seq epollCall (.seq (load p) (.seq (.repeated (register p))
    (.repeated (.either log (.either (onPipeEvent p user)
      (.either user (anyOf (sockets.map (ioCallback poller onRead))))))))))))

/-- `ThreadPool::run` -/
def poolRun (q : Nat) (tasks : UserCode) : Script Mutex :=
  .repeated (.seq (briefly (.poolSem q)) (.seq (briefly (.pool q)) (userCode poller tasks)))

/-- `AsyncLogWriter::run`.  The channels take no locks. -/
def writerRun : Script Mutex := .repeated (.seq (briefly .writerSem) (briefly .writer))

end Locks

inductive ThreadCode where
  | user (c : UserCode)
  | poller (p : Nat) (sockets : List Nat) (tasks : UserCode)
  | pool (q : Nat) (tasks : UserCode)
  | logWriter

def ThreadCode.script (poller : Nat → Nat) (onRead : Nat → UserCode) : ThreadCode → Script Mutex
  | .user c => Locks.userCode poller c
  | .poller p sockets tasks => Locks.runLoop poller onRead p sockets tasks
  | .pool q tasks => Locks.poolRun poller q tasks
  | .logWriter => Locks.writerRun

/-- Code that runs while `mtx_event_` of the socket `above` is locked, if there is one, sets the callbacks of this socket
and of later ones only. -/
def UserCode.SetsAbove : UserCode → Option Nat → Prop
  | .andThen c d, above => c.SetsAbove above ∧ d.SetsAbove above
  | .orElse c d, above => c.SetsAbove above ∧ d.SetsAbove above
  | .repeatedly c, above => c.SetsAbove above
  | .setOnRead j dropped, above => (∀ i ∈ above, i ≤ j) ∧ dropped.SetsAbove (some j)
  | _, _ => True

instance UserCode.decidableSetsAbove : ∀ (c : UserCode) (above : Option Nat), Decidable (c.SetsAbove above)
  | .andThen c d, above =>
    have := c.decidableSetsAbove above
    have := d.decidableSetsAbove above
    inferInstanceAs (Decidable (_ ∧ _))
  | .orElse c d, above =>
    have := c.decidableSetsAbove above
    have := d.decidableSetsAbove above
    inferInstanceAs (Decidable (_ ∧ _))
  | .repeatedly c, above => c.decidableSetsAbove above
  | .setOnRead j dropped, _ =>
    have := dropped.decidableSetsAbove (some j)
    inferInstanceAs (Decidable (_ ∧ _))
  | .nothing, _ | .send _, _ | .bindUdpSocket _, _ | .release _, _ | .register _, _ | .async _, _ => .isTrue trivial
  | .poolAsync _, _ | .load _, _ | .getDomainIP, _ | .log, _ => .isTrue trivial

/-- The code of the user in the thread runs without a lock. -/
def ThreadCode.Proper : ThreadCode → Prop
  | .user c => c.SetsAbove none
  | .poller _ _ tasks => tasks.SetsAbove none
  | .pool _ tasks => tasks.SetsAbove none
  | .logWriter => True

instance ThreadCode.decidableProper : (c : ThreadCode) → Decidable c.Proper
  | .user c => c.decidableSetsAbove none
  | .poller _ _ tasks => tasks.decidableSetsAbove none
  | .pool _ tasks => tasks.decidableSetsAbove none
  | .logWriter => .isTrue trivial

/-! ### The scripts keep the order -/

namespace Locks

def Below (n : Nat) (l : List Mutex) : Prop := ∀ m ∈ l, m.level < n

abbrev Orders (s : Script Mutex) (l : List Mutex) : Prop := s.Ordered Mutex.recursive Mutex.rank l

variable {n n' : Nat} {m : Mutex} {l : List Mutex} {poller : Nat → Nat}

theorem Below.mono (h : Below n l) (hle : n ≤ n') : Below n' l := fun m hm => Nat.lt_of_lt_of_le (h m hm) hle

theorem Below.cons (h : Below n l) (hm : m.level < n) : Below n (m :: l) := List.forall_mem_cons.2 ⟨hm, h⟩

private theorem locked_ordered (m : Mutex) {s : Script Mutex} (h : Below m.level l) (hs : Orders s (m :: l)) :
    Orders (.locked m s) l :=
  ⟨.inr fun x hx => Prod.Lex.toLex_lt_toLex.2 (.inl (h x hx)), hs⟩

private theorem briefly_ordered (h : Below m.level l) : Orders (briefly m) l := locked_ordered m h trivial

private theorem log_ordered (h : Below 3 l) : Orders log l := ⟨trivial, briefly_ordered h, briefly_ordered h⟩

private theorem epollCall_ordered (h : Below 3 l) : Orders epollCall l := ⟨trivial, briefly_ordered h⟩

private theorem register_ordered (h : Below 3 l) (p : Nat) : Orders (register p) l :=
  ⟨log_ordered h, ⟨epollCall_ordered h, log_ordered h⟩, briefly_ordered h⟩

private theorem assignSockFd_ordered (h : Below 1 l) (i : Nat) : Orders (assignSockFd poller i) l := by
  have hfd : Below 3 (.fd i :: l) := (h.mono (by omega)).cons (show 1 < 3 by omega)
  exact locked_ordered (.fd i) h ⟨trivial, register_ordered hfd _⟩

private theorem bindUdpSocket_ordered (h : Below 1 l) (i : Nat) : Orders (bindUdpSocket poller i) l := by
  have hlog : Below 3 l := h.mono (by omega)
  have hassign := @assignSockFd_ordered l poller h i
  exact ⟨log_ordered hlog, log_ordered hlog, hassign, hassign, register_ordered hlog _, log_ordered hlog⟩

private theorem flushPass_ordered (h : Below 2 l) (i : Nat) (onPoller : Bool) :
    Orders (flushPass poller i onPoller) l := by
  have hleaf : Below 3 l := h.mono (by omega)
  have hwaiting : Below 3 (.waiting i :: l) := hleaf.cons (show 2 < 3 by omega)
  cases onPoller with
  | true =>
    exact ⟨briefly_ordered h, ⟨trivial, locked_ordered (.waiting i) h ⟨trivial, register_ordered hwaiting _⟩⟩, log_ordered hleaf,
      ⟨trivial, trivial⟩, trivial, briefly_ordered h⟩
  | false =>
    exact ⟨briefly_ordered h, ⟨trivial, locked_ordered (.waiting i) h ⟨trivial, trivial⟩⟩, log_ordered hleaf,
      ⟨trivial, register_ordered hleaf _⟩, trivial, briefly_ordered h⟩

private theorem flushData_ordered (h : Below 2 l) (i : Nat) (onPoller : Bool) :
    Orders (flushData poller i onPoller) l := by
  refine ⟨flushPass_ordered h i onPoller, ?_⟩
  cases onPoller with
  | true => exact flushPass_ordered h i true
  | false => trivial

private theorem send_ordered (h : Below 1 l) (i : Nat) : Orders (send poller i) l := by
  have hfd : Below 2 (.fd i :: l) := (h.mono (by omega)).cons (show 1 < 2 by omega)
  have hwaiting : Below 2 l := h.mono (by omega)
  refine ⟨briefly_ordered hwaiting, trivial, locked_ordered (.fd i) h ⟨?_, trivial, flushData_ordered hfd i false⟩⟩
  exact log_ordered (hfd.mono (by omega))

private theorem getDomainIP_ordered (h : Below 3 l) : Orders getDomainIP l :=
  ⟨trivial, briefly_ordered h, log_ordered h, trivial, briefly_ordered h⟩

/-- What code of the user may find locked: nothing, or `mtx_event_` of the socket `above` and of earlier ones. -/
def UnderEvents : Option Nat → List Mutex → Prop
  | none, l => l = []
  | some i, l => .event i ∈ l ∧ ∀ m ∈ l, ∃ j ≤ i, m = .event j

theorem UnderEvents.below {above : Option Nat} (h : UnderEvents above l) : Below 1 l := by
  intro m hm
  cases above with
  | none =>
    rw [UnderEvents] at h
    rw [h] at hm
    cases hm
  | some i =>
    obtain ⟨j, -, rfl⟩ := h.2 m hm
    exact Nat.zero_lt_one

/-- The callbacks of the same socket and of later ones can be set. -/
theorem UnderEvents.event {above : Option Nat} (h : UnderEvents above l) {j : Nat} (hj : ∀ i ∈ above, i ≤ j)
    {s : Script Mutex} (hs : Orders s (.event j :: l)) :
    Orders (.locked (.event j) s) l ∧ UnderEvents (some j) (.event j :: l) := by
  cases above with
  | none =>
    rw [UnderEvents] at h
    subst h
    refine ⟨⟨.inr nofun, hs⟩, List.mem_cons_self, fun m hm => ⟨j, le_refl j, ?_⟩⟩
    exact List.mem_singleton.1 hm
  | some i =>
    have hle := hj i rfl
    refine ⟨⟨?_, hs⟩, List.mem_cons_self, List.forall_mem_cons.2 ⟨⟨j, le_refl j, rfl⟩, fun m hm => ?_⟩⟩
    · rcases Nat.eq_or_lt_of_le hle with rfl | hlt
      · exact .inl ⟨rfl, h.1⟩
      · refine .inr fun m hm => ?_
        obtain ⟨k, hk, rfl⟩ := h.2 m hm
        exact Prod.Lex.toLex_lt_toLex.2 (.inr ⟨rfl, Nat.lt_of_le_of_lt hk hlt⟩)
    · obtain ⟨k, hk, rfl⟩ := h.2 m hm
      exact ⟨k, hk.trans hle, rfl⟩

private theorem userCode_ordered {c : UserCode} {above : Option Nat} (hc : c.SetsAbove above)
    (h : UnderEvents above l) : Orders (userCode poller c) l := by
  have hleaf : Below 3 l := h.below.mono (by omega)
  induction c generalizing above l with
  | nothing => trivial
  | andThen c d ihc ihd => exact ⟨ihc hc.1 h hleaf, ihd hc.2 h hleaf⟩
  | orElse c d ihc ihd => exact ⟨ihc hc.1 h hleaf, ihd hc.2 h hleaf⟩
  | repeatedly c ih => exact ih hc h hleaf
  | send i => exact send_ordered h.below i
  | setOnRead j dropped ih =>
    have hunder := (@UnderEvents.event l above h j hc.1 .skip trivial).2
    exact (h.event hc.1 (ih hc.2 hunder (hunder.below.mono (by omega)))).1
  | bindUdpSocket i => exact bindUdpSocket_ordered h.below i
  | release i => exact assignSockFd_ordered h.below i
  | register p => exact register_ordered hleaf p
  | async p => exact briefly_ordered hleaf
  | poolAsync q => exact ⟨briefly_ordered hleaf, briefly_ordered hleaf⟩
  | load p => exact briefly_ordered hleaf
  | getDomainIP => exact getDomainIP_ordered hleaf
  | log => exact log_ordered hleaf

private theorem anyOf_ordered {ss : List (Script Mutex)} (h : ∀ s ∈ ss, Orders s l) : Orders (anyOf ss) l := by
  induction ss with
  | nil => trivial
  | cons s ss ih => exact ⟨h s List.mem_cons_self, ih fun t ht => h t (List.mem_cons_of_mem s ht)⟩

private theorem below_nil (n : Nat) : Below n [] := nofun

private theorem ioCallback_ordered {onRead : Nat → UserCode} (honRead : ∀ i, (onRead i).SetsAbove (some i)) (i : Nat) :
    Orders (ioCallback poller onRead i) [] := by
  have hevent : UnderEvents (some i) [.event i] :=
    ⟨List.mem_cons_self, fun m hm => ⟨i, le_refl i, List.mem_singleton.1 hm⟩⟩
  have hcallback : Orders (.seq (userCode poller (onRead i)) log) [.event i] :=
    ⟨userCode_ordered (honRead i) hevent, log_ordered (hevent.below.mono (by omega))⟩
  exact ⟨⟨trivial, log_ordered (below_nil 3), locked_ordered (.event i) (below_nil 0) hcallback⟩,
    ⟨trivial, trivial, flushData_ordered (below_nil 2) i true⟩, trivial, assignSockFd_ordered (below_nil 1) i⟩

private theorem runLoop_ordered {onRead : Nat → UserCode} (honRead : ∀ i, (onRead i).SetsAbove (some i)) (p : Nat)
    (sockets : List Nat) {tasks : UserCode} (htasks : tasks.SetsAbove none) :
    Orders (runLoop poller onRead p sockets tasks) [] := by
  have hregister := register_ordered (below_nil 3) p
  have huser : Orders (.either (register p) (userCode poller tasks)) [] := ⟨hregister, userCode_ordered htasks rfl⟩
  have hload := @briefly_ordered (.load p) [] (below_nil 3)
  have hpipe : Orders (onPipeEvent p (.either (register p) (userCode poller tasks))) [] :=
    ⟨⟨trivial, hregister, hregister⟩, briefly_ordered (below_nil 3), huser⟩
  refine ⟨huser, hload, epollCall_ordered (below_nil 3), hload, hregister, log_ordered (below_nil 3), hpipe, huser, ?_⟩
  refine anyOf_ordered fun s hs => ?_
  obtain ⟨i, -, rfl⟩ := List.mem_map.1 hs
  exact ioCallback_ordered honRead i

private theorem script_ordered {onRead : Nat → UserCode} (honRead : ∀ i, (onRead i).SetsAbove (some i)) {c : ThreadCode}
    (hc : c.Proper) : Orders (c.script poller onRead) [] := by
  cases c with
  | user c => exact userCode_ordered hc rfl
  | poller p sockets tasks => exact runLoop_ordered honRead p sockets hc
  | pool q tasks => exact ⟨briefly_ordered (below_nil 3), briefly_ordered (below_nil 3), userCode_ordered hc rfl⟩
  | logWriter => exact ⟨briefly_ordered (below_nil 3), briefly_ordered (below_nil 3)⟩

/-- Threads that carry out the code of users, pollers, pools and the log writer, in any interleaving. -/
abbrev threadsStep {ι : Type} [Fintype ι] [DecidableEq ι] := @step Mutex ι _ _ _ Mutex.recursive

abbrev threadsStart {ι : Type} (poller : Nat → Nat) (onRead : Nat → UserCode) (code : ι → ThreadCode) :
    ι → List (Frame Mutex) :=
  start fun t => (code t).script poller onRead

/-- The callbacks of the sockets 0 and 1 answer through the other socket. -/
def answering (i : Nat) : UserCode := .andThen (.send (1 - i)) (.setOnRead i .nothing)

def answeringThreads : Fin 3 → ThreadCode :=
  ![.poller 0 [0] .log, .poller 1 [1] .nothing, .user (.andThen (.setOnRead 1 (.release 0)) (.send 0))]

/-- The choices that bring a poller to what the callback of its first socket does first. -/
def toOnRead : List Bool :=
  [true, true, false, true, true, true, true, true, true, true, true, true, true, true, true, false, true, false, false,
    false, true, true, false, true, false, true, true]

/-- Two callbacks each of which sets the other one can deadlock. -/
example : (Transition.exec threadsStep
      (threadsStart id (fun i => .setOnRead (1 - i) .nothing) ![.poller 0 [0] .nothing, .poller 1 [1] .nothing])
      (toOnRead.map (0, ·) ++ toOnRead.map (1, ·))).map (fun s => decide (∀ a, threadsStep s a = none ∧ s a.1 ≠ [])) =
    some true := by decide +kernel

end Locks

end AvcTool
