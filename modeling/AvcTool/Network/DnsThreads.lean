import AvcTool.Lib.RefCount
import AvcTool.Network.DnsCache

/-!
# Looking names up in several threads

The calls of `DnsCache::getDomainIP` share the cache under its mutex, and the lists that `getaddrinfo` has allocated
through `shared_ptr`.  Each phase of a call here is one locked section, or what the call does between two of them; the
resolver may take any time, so other calls replace or erase the entry of the host in between.

A list is alive as long as an entry or a call refers to it, so no call reads a list that has been freed, and when no
call is running the lists that are left are those of the entries.  An answer is one that the resolver has given for the
host: to this call, or to a call that has stored it at most `expire_sec` seconds before (`lookups_safe`).  With the
lists in place of the references the locked sections are the operations of the cache on its own (`cacheAfter`).
-/

namespace AvcTool

structure DnsEntry where
  addrInfo : Nat
  createTime : Int
  deriving DecidableEq

inductive DnsPhase (α : Type*) where
  | getCacheDomainIP
  | getSystemDomainIP
  | setCacheDomainIP (item : Nat)
  | getPerferredAddress (item : Nat)
  | returned (addr : Option α)
  deriving DecidableEq

def DnsPhase.item {α : Type*} : DnsPhase α → Option Nat
  | .setCacheDomainIP item => some item
  | .getPerferredAddress item => some item
  | _ => none

/-- A call; what the clock and the resolver say is filled in on the way. -/
structure DnsCall (α : Type*) where
  lookup : DnsLookup α
  /-- the clock when the call began -/
  begun : Int
  phase : DnsPhase α

def DnsCall.isOver {α : Type*} (c : DnsCall α) : Bool :=
  match c.phase with
  | .returned _ => true
  | _ => false

structure DnsThreads (α : Type*) where
  heap : RefHeap (Answer α)
  dnsCache : String → Option DnsEntry
  clock : Int
  calls : Nat → Option (DnsCall α)
  /-- what has been stored, newest first -/
  stores : List (Resolution α)

inductive DnsAction (α : Type*) where
  | tick (seconds : Nat)
  | getDomainIP (t : Nat) (q : DnsLookup α)
  | run (t : Nat) (answer : Option (Answer α))

namespace DnsThreads

variable {α : Type*}

def init (clock : Int) : DnsThreads α := ⟨.empty, fun _ => none, clock, fun _ => none, []⟩

def goOn (s : DnsThreads α) (t : Nat) (c : DnsCall α) : DnsThreads α :=
  { s with calls := Function.update s.calls t (some c) }

/-- The call has its own reference to the list before the mutex is unlocked. -/
def getCacheDomainIP (s : DnsThreads α) (t : Nat) (c : DnsCall α) : Option (DnsThreads α) :=
  match s.dnsCache c.lookup.host with
  | none => some (s.goOn t { c with lookup.now := s.clock, phase := .getSystemDomainIP })
  | some item =>
    if item.createTime + c.lookup.expireSec < s.clock then
      (s.heap.release item.addrInfo).map fun heap =>
        { s.goOn t { c with lookup.now := s.clock, phase := .getSystemDomainIP } with
          heap := heap
          dnsCache := Function.update s.dnsCache c.lookup.host none }
    else
      (s.heap.retain item.addrInfo).map fun heap =>
        { s.goOn t { c with lookup.now := s.clock, phase := .getPerferredAddress item.addrInfo } with heap := heap }

def getSystemDomainIP (s : DnsThreads α) (t : Nat) (c : DnsCall α) (answer : Option (Answer α)) : DnsThreads α :=
  match answer with
  | none => s.goOn t { c with lookup.answer := none, phase := .returned none }
  | some answer =>
    { s.goOn t { c with lookup.answer := some answer, phase := .setCacheDomainIP s.heap.next } with
      heap := s.heap.alloc answer }

/-- The argument is a copy, which is moved to the entry; the list of an older entry is given up. -/
def setCacheDomainIP (s : DnsThreads α) (t : Nat) (c : DnsCall α) (item : Nat) : Option (DnsThreads α) := do
  let answer ← s.heap.get item
  let heap ← s.heap.retain item
  let heap ← heap.reset ((s.dnsCache c.lookup.host).map DnsEntry.addrInfo)
  some { s.goOn t { c with lookup.stored := s.clock, phase := .getPerferredAddress item } with
    heap := heap
    dnsCache := Function.update s.dnsCache c.lookup.host (some ⟨item, s.clock⟩)
    stores := ⟨c.lookup.host, answer, s.clock⟩ :: s.stores }

/-- The address is copied out of the list, and the call gives the list up. -/
def getPerferredAddress (s : DnsThreads α) (t : Nat) (c : DnsCall α) (item : Nat) : Option (DnsThreads α) := do
  let answer ← s.heap.get item
  let heap ← s.heap.release item
  some { s.goOn t { c with phase := .returned (some (DnsCache.getPerferredAddress c.lookup answer).aiAddr) } with
    heap := heap }

/-- The next phase of a call.  To use a list that has been freed is a fault (`none`). -/
def run (s : DnsThreads α) (t : Nat) (answer : Option (Answer α)) (c : DnsCall α) : Option (DnsThreads α) :=
  match c.phase with
  | .getCacheDomainIP => s.getCacheDomainIP t c
  | .getSystemDomainIP => some (s.getSystemDomainIP t c answer)
  | .setCacheDomainIP item => s.setCacheDomainIP t c item
  | .getPerferredAddress item => s.getPerferredAddress t c item
  | .returned _ => none

/-- A call for a literal address returns at once.  The resolver has not answered yet. -/
def begin (makeSockAddr : String → Option α) (s : DnsThreads α) (q : DnsLookup α) : DnsCall α :=
  match makeSockAddr q.host with
  | some addr => ⟨{ q with answer := none }, s.clock, .returned (some addr)⟩
  | none => ⟨{ q with answer := none }, s.clock, .getCacheDomainIP⟩

def step (makeSockAddr : String → Option α) (s : DnsThreads α) : DnsAction α → Option (DnsThreads α)
  | .tick seconds => some { s with clock := s.clock + seconds }
  | .getDomainIP t q => if (s.calls t).all DnsCall.isOver then some (s.goOn t (s.begin makeSockAddr q)) else none
  | .run t answer => (s.calls t).bind (s.run t answer)

/-! ### What refers to the lists -/

inductive Owner where
  | entry (host : String)
  | call (t : Nat)
  /-- the argument of `setCacheDomainIP` -/
  | param
  deriving DecidableEq

def owns (s : DnsThreads α) : Owner → Option Nat
  | .entry host => (s.dnsCache host).map DnsEntry.addrInfo
  | .call t => (s.calls t).bind fun c => c.phase.item
  | .param => none

/-- The cache as it is on its own, with the lists in place of the references. -/
def cache (s : DnsThreads α) : DnsCache α :=
  { dnsCache := fun host =>
      (s.dnsCache host).bind fun e => (s.heap.get e.addrInfo).map fun answer => ⟨answer, e.createTime⟩
    clock := s.clock
    resolutions := s.stores }

/-- What the next phase of the call is to do to the cache on its own. -/
def cacheAfter (s : DnsThreads α) (c : DnsCall α) : DnsCache α :=
  match c.phase with
  | .getCacheDomainIP => (s.cache.getCacheDomainIP c.lookup.host c.lookup.expireSec s.clock).1
  | .setCacheDomainIP item =>
    match s.heap.get item with
    | some answer => s.cache.setCacheDomainIP c.lookup.host answer s.clock
    | none => s.cache
  | _ => s.cache

/-! ### What holds in every state -/

/-- The resolver has given this list for the host: to the call itself, or to a call that has stored it at most
`expire_sec` seconds before the cache was asked. -/
def Source (s : DnsThreads α) (c : DnsCall α) (answer : Answer α) : Prop :=
  ∃ time, ⟨c.lookup.host, answer, time⟩ ∈ s.stores ∧
    (c.lookup.answer = some answer ∧ c.begun ≤ time ∨
      c.begun ≤ c.lookup.now ∧ time ≤ c.lookup.now ∧ c.lookup.now - time ≤ c.lookup.expireSec)

def PhaseSound (makeSockAddr : String → Option α) (s : DnsThreads α) (c : DnsCall α) : Prop :=
  match c.phase with
  | .getCacheDomainIP => True
  | .getSystemDomainIP => True
  | .setCacheDomainIP item => s.heap.get item = c.lookup.answer
  | .getPerferredAddress item => ∃ answer, s.heap.get item = some answer ∧ s.Source c answer
  | .returned none => c.lookup.answer = none
  | .returned (some addr) => makeSockAddr c.lookup.host = some addr ∨
      ∃ answer, s.Source c answer ∧ (DnsCache.getPerferredAddress c.lookup answer).aiAddr = addr

structure Sound (makeSockAddr : String → Option α) (s : DnsThreads α) : Prop where
  counted : s.heap.Counted s.owns
  remembers : s.cache.Remembers
  begun : ∀ t c, s.calls t = some c → c.begun ≤ s.clock
  phases : ∀ t c, s.calls t = some c → s.PhaseSound makeSockAddr c

variable {makeSockAddr : String → Option α} {s s' : DnsThreads α} {t : Nat} {c c' : DnsCall α}

theorem Sound.init (clock : Int) : Sound makeSockAddr (DnsThreads.init clock) where
  counted := by
    have howns : (DnsThreads.init clock : DnsThreads α).owns = fun _ => none := by
      funext o
      cases o <;> rfl
    rw [howns]
    exact .empty
  remembers host item hitem := by simp [cache, DnsThreads.init] at hitem
  begun := by simp [DnsThreads.init]
  phases := by simp [DnsThreads.init]

theorem Source.mono {answer : Answer α} (h : s.Source c answer) (hstores : s.stores ⊆ s'.stores) :
    s'.Source c answer := by
  obtain ⟨time, hmem, hage⟩ := h
  exact ⟨time, hstores hmem, hage⟩

/-- A call that does not take the step has its list as before. -/
theorem PhaseSound.mono (h : s.PhaseSound makeSockAddr c) (hstores : s.stores ⊆ s'.stores)
    (hget : ∀ item answer, c.phase.item = some item → s.heap.get item = some answer →
      s'.heap.get item = some answer)
    (hitem : ∀ item, c.phase.item = some item → ∃ answer, s.heap.get item = some answer) :
    s'.PhaseSound makeSockAddr c := by
  unfold PhaseSound at h ⊢
  cases hphase : c.phase with
  | getCacheDomainIP => trivial
  | getSystemDomainIP => trivial
  | setCacheDomainIP item =>
    have hown : c.phase.item = some item := by rw [hphase]; rfl
    obtain ⟨answer, hanswer⟩ := hitem item hown
    simp only [hphase] at h ⊢
    rw [hget item answer hown hanswer, ← h, hanswer]
  | getPerferredAddress item =>
    have hown : c.phase.item = some item := by rw [hphase]; rfl
    simp only [hphase] at h ⊢
    obtain ⟨answer, hanswer, hsource⟩ := h
    exact ⟨answer, hget item answer hown hanswer, hsource.mono hstores⟩
  | returned addr =>
    simp only [hphase] at h ⊢
    cases addr with
    | none => exact h
    | some addr =>
      rcases h with hliteral | ⟨answer, hsource, haddr⟩
      · exact .inl hliteral
      · exact .inr ⟨answer, hsource.mono hstores, haddr⟩

/-- The thread `t` takes a step of its call, which leaves the lists that are alive as they are. -/
theorem Sound.goOn (h : Sound makeSockAddr s) (hcalls : s'.calls = Function.update s.calls t (some c'))
    (hcounted : s'.heap.Counted s'.owns) (hclock : s'.clock = s.clock) (hstores : s.stores ⊆ s'.stores)
    (hget : ∀ r answer, s'.heap.Alive r → s.heap.get r = some answer → s'.heap.get r = some answer)
    (hremembers : s'.cache.Remembers) (hbegun : c'.begun ≤ s.clock) (hphase : s'.PhaseSound makeSockAddr c') :
    Sound makeSockAddr s' := by
  have hother : ∀ t' c, t' ≠ t → s'.calls t' = some c → s.calls t' = some c := by
    intro t' c hne hc
    rwa [hcalls, Function.update_of_ne hne] at hc
  have hself : ∀ c, s'.calls t = some c → c' = c := by
    intro c hc
    rw [hcalls, Function.update_self] at hc
    exact Option.some.inj hc
  refine ⟨hcounted, hremembers, fun t' c hc => ?_, fun t' c hc => ?_⟩
  · rw [hclock]
    by_cases ht : t' = t
    · subst ht
      exact hself c hc ▸ hbegun
    · exact h.begun t' c (hother t' c ht hc)
  · by_cases ht : t' = t
    · subst ht
      exact hself c hc ▸ hphase
    · have hc₀ := hother t' c ht hc
      refine (h.phases t' c hc₀).mono hstores (fun item answer hitem => hget item answer ?_) fun item hitem => ?_
      · refine (hcounted.alive_iff item).2 ⟨.call t', ?_⟩
        simp [owns, hc, hitem]
      · refine h.counted.exists_get (o := .call t') ?_
        simp [owns, hc₀, hitem]

private theorem Sound.cache_frame (h : Sound makeSockAddr s) (hcounted : s'.heap.Counted s'.owns)
    (hget : ∀ r answer, s'.heap.Alive r → s.heap.get r = some answer → s'.heap.get r = some answer) {host : String}
    (hsame : s'.dnsCache host = s.dnsCache host) : s'.cache.dnsCache host = s.cache.dnsCache host := by
  simp only [cache, hsame]
  cases hentry : s.dnsCache host with
  | none => rfl
  | some e =>
    have howns : s.owns (.entry host) = some e.addrInfo := by simp [owns, hentry]
    have halive : s'.heap.Alive e.addrInfo := by
      refine (hcounted.alive_iff _).2 ⟨.entry host, ?_⟩
      simp [owns, hsame, hentry]
    obtain ⟨answer, hanswer⟩ := h.counted.exists_get howns
    simp [hanswer, hget _ answer halive hanswer]

/-! ### The phases of a call -/

/-- Erasing an entry keeps the others the last resolutions of their hosts. -/
private theorem remembers_erase {d : DnsCache α} (h : d.Remembers) (q : DnsLookup α) :
    DnsCache.Remembers { d with dnsCache := Function.update d.dnsCache q.host none } :=
  (DnsCache.Answered.failed (s := d) (q := { q with answer := none, stored := d.clock }) rfl).remembers h le_rfl

private theorem remembers_setCacheDomainIP {d : DnsCache α} (h : d.Remembers) (q : DnsLookup α) (answer : Answer α) :
    (d.setCacheDomainIP q.host answer d.clock).Remembers :=
  (DnsCache.Answered.resolved (s := d) (q := { q with answer := some answer, stored := d.clock }) answer
    rfl).remembers h le_rfl

private theorem mem_of_lastResolution {d : DnsCache α} {host : String} {item : DnsItem α}
    (h : d.lastResolution host = some item) : ⟨host, item⟩ ∈ d.resolutions := by
  obtain ⟨r, hr, rfl⟩ := Option.map_eq_some_iff.1 h
  have hhost : r.host = host := by simpa using List.find?_some hr
  subst hhost
  exact List.mem_of_find?_eq_some hr

private theorem owns_call (hc : s.calls t = some c) : s.owns (.call t) = c.phase.item := by simp [owns, hc]

private theorem owns_of_ne (hcalls : s'.calls = Function.update s.calls t (some c')) {o : Owner} (ho : o ≠ .call t)
    (hentry : ∀ host, o = .entry host → s'.dnsCache host = s.dnsCache host) : s'.owns o = s.owns o := by
  cases o with
  | entry host => simp only [owns, hentry host rfl]
  | call t' =>
    have ht : t' ≠ t := fun heq => ho (heq ▸ rfl)
    simp only [owns, hcalls, Function.update_of_ne ht]
  | param => rfl

private theorem cache_eq_of_frame (h : Sound makeSockAddr s) (hcounted : s'.heap.Counted s'.owns)
    (hget : ∀ r answer, s'.heap.Alive r → s.heap.get r = some answer → s'.heap.get r = some answer)
    (hdns : s'.dnsCache = s.dnsCache) (hclock : s'.clock = s.clock) (hstores : s'.stores = s.stores) :
    s'.cache = s.cache := by
  have hentries : s'.cache.dnsCache = s.cache.dnsCache := by
    funext host
    exact h.cache_frame hcounted hget (congrFun hdns host)
  have hcache : s'.cache = ⟨s'.cache.dnsCache, s'.clock, s'.stores⟩ := rfl
  rw [hcache, hentries, hclock, hstores]
  rfl

private theorem sound_getCacheDomainIP (h : Sound makeSockAddr s) (hc : s.calls t = some c)
    (hphase : c.phase = .getCacheDomainIP) :
    ∃ s', s.getCacheDomainIP t c = some s' ∧ Sound makeSockAddr s' ∧
      s'.cache = (s.cache.getCacheDomainIP c.lookup.host c.lookup.expireSec s.clock).1 := by
  have hnone : s.owns (.call t) = none := by rw [owns_call hc, hphase]; rfl
  have hbegun := h.begun t c hc
  unfold getCacheDomainIP
  cases hentry : s.dnsCache c.lookup.host with
  | none =>
    refine ⟨_, rfl, ?_, ?_⟩
    · refine h.goOn rfl ?_ rfl (fun _ hx => hx) (fun _ _ _ hr => hr) h.remembers hbegun trivial
      refine h.counted.congr fun o => ?_
      by_cases ho : o = .call t
      · rw [ho, hnone]
        simp [owns, goOn, DnsPhase.item]
      · exact owns_of_ne rfl ho fun _ _ => rfl
    · simp [cache, goOn, DnsCache.getCacheDomainIP, hentry]
  | some item =>
    have howns : s.owns (.entry c.lookup.host) = some item.addrInfo := by simp [owns, hentry]
    obtain ⟨answer, hanswer⟩ := h.counted.exists_get howns
    have hvalue : s.cache.dnsCache c.lookup.host = some ⟨answer, item.createTime⟩ := by simp [cache, hentry, hanswer]
    by_cases hexpired : item.createTime + c.lookup.expireSec < s.clock
    · simp only [if_pos hexpired]
      -- the entry gives its list up, and a call that has got it keeps it alive
      have hrelease : ∃ heap, s.heap.release item.addrInfo = some heap ∧ heap.Counted
          { s.goOn t { c with lookup.now := s.clock, phase := .getSystemDomainIP } with
            dnsCache := Function.update s.dnsCache c.lookup.host none }.owns := by
        refine h.counted.release howns (by simp [owns]) fun o ho => ?_
        by_cases ho' : o = .call t
        · rw [ho', hnone]
          simp [owns, goOn, DnsPhase.item]
        · refine owns_of_ne rfl ho' fun host heq => ?_
          have hne : host ≠ c.lookup.host := fun heq' => ho (heq.trans (heq' ▸ rfl))
          exact Function.update_of_ne hne _ _
      obtain ⟨heap, hheap, hcounted⟩ := hrelease
      have hget : ∀ r answer, heap.Alive r → s.heap.get r = some answer → heap.get r = some answer := by
        intro r answer halive hr
        rw [RefHeap.get_release hheap halive, hr]
      have hcache : ({ s.goOn t { c with lookup.now := s.clock, phase := .getSystemDomainIP } with
          heap := heap, dnsCache := Function.update s.dnsCache c.lookup.host none } : DnsThreads α).cache =
            { s.cache with dnsCache := Function.update s.cache.dnsCache c.lookup.host none } := by
        refine congrArg (fun d => DnsCache.mk d s.clock s.stores) (funext fun host => ?_)
        by_cases hhost : host = c.lookup.host
        · subst hhost
          simp
        · rw [Function.update_of_ne hhost]
          exact h.cache_frame hcounted hget (Function.update_of_ne hhost _ _)
      rw [hheap]
      refine ⟨_, rfl, ?_, ?_⟩
      · refine h.goOn rfl hcounted rfl (fun _ hx => hx) hget ?_ hbegun trivial
        rw [hcache]
        exact remembers_erase h.remembers c.lookup
      · rw [hcache]
        have hexpired' : (⟨answer, item.createTime⟩ : DnsItem α).createTime + c.lookup.expireSec < s.clock := hexpired
        simp only [DnsCache.getCacheDomainIP, hvalue, if_pos hexpired']
    · simp only [if_neg hexpired]
      have hretain : ∃ heap, s.heap.retain item.addrInfo = some heap ∧ heap.Counted
          (s.goOn t { c with lookup.now := s.clock, phase := .getPerferredAddress item.addrInfo }).owns := by
        refine h.counted.retain howns hnone ?_ fun o ho => owns_of_ne rfl ho fun _ _ => rfl
        simp [owns, goOn, DnsPhase.item]
      obtain ⟨heap, hheap, hcounted⟩ := hretain
      have hget : ∀ r answer, heap.Alive r → s.heap.get r = some answer → heap.get r = some answer := by
        intro r answer _ hr
        rw [RefHeap.get_retain hheap, hr]
      have hcache : ({ s.goOn t { c with lookup.now := s.clock, phase := .getPerferredAddress item.addrInfo } with
          heap := heap } : DnsThreads α).cache = s.cache := cache_eq_of_frame h hcounted hget rfl rfl rfl
      rw [hheap]
      refine ⟨_, rfl, ?_, ?_⟩
      · refine h.goOn rfl hcounted rfl (fun _ hx => hx) hget (hcache ▸ h.remembers) hbegun ?_
        obtain ⟨hlast, htime⟩ := h.remembers _ _ hvalue
        have hheld : heap.get item.addrInfo = some answer := (RefHeap.get_retain hheap).trans hanswer
        refine ⟨answer, hheld, item.createTime, mem_of_lastResolution hlast, .inr ⟨hbegun, htime, ?_⟩⟩
        show s.clock - item.createTime ≤ c.lookup.expireSec
        omega
      · rw [hcache]
        have hvalid : ¬ (⟨answer, item.createTime⟩ : DnsItem α).createTime + c.lookup.expireSec < s.clock := hexpired
        simp only [DnsCache.getCacheDomainIP, hvalue, if_neg hvalid]

private theorem sound_getSystemDomainIP (h : Sound makeSockAddr s) (hc : s.calls t = some c)
    (hphase : c.phase = .getSystemDomainIP) (answer : Option (Answer α)) :
    Sound makeSockAddr (s.getSystemDomainIP t c answer) ∧ (s.getSystemDomainIP t c answer).cache = s.cache := by
  have hnone : s.owns (.call t) = none := by rw [owns_call hc, hphase]; rfl
  have hbegun := h.begun t c hc
  cases answer with
  | none =>
    refine ⟨h.goOn rfl ?_ rfl (fun _ hx => hx) (fun _ _ _ hr => hr) h.remembers hbegun rfl, rfl⟩
    refine h.counted.congr fun o => ?_
    by_cases ho : o = .call t
    · rw [ho, hnone]
      simp [getSystemDomainIP, owns, goOn, DnsPhase.item]
    · exact owns_of_ne rfl ho fun _ _ => rfl
  | some answer =>
    have hcounted : (s.heap.alloc answer).Counted (s.getSystemDomainIP t c (some answer)).owns := by
      refine h.counted.alloc answer hnone ?_ fun o ho => owns_of_ne rfl ho fun _ _ => rfl
      simp [getSystemDomainIP, owns, goOn, DnsPhase.item]
    have hget : ∀ r answer', (s.heap.alloc answer).Alive r → s.heap.get r = some answer' →
        (s.heap.alloc answer).get r = some answer' := by
      intro r answer' _ hr
      exact RefHeap.get_alloc (h.counted.fresh _ le_rfl) hr
    have hcache : (s.getSystemDomainIP t c (some answer)).cache = s.cache :=
      cache_eq_of_frame h hcounted hget rfl rfl rfl
    refine ⟨h.goOn rfl hcounted rfl (fun _ hx => hx) hget (hcache ▸ h.remembers) hbegun ?_, hcache⟩
    exact RefHeap.get_alloc_next s.heap answer

/-- The entry of the host takes the list over from the argument, after it has given up the list it had. -/
private theorem sound_setCacheDomainIP (h : Sound makeSockAddr s) (hc : s.calls t = some c) {item : Nat}
    (hphase : c.phase = .setCacheDomainIP item) :
    ∃ s' answer, s.setCacheDomainIP t c item = some s' ∧ Sound makeSockAddr s' ∧
      s.heap.get item = some answer ∧ s'.cache = s.cache.setCacheDomainIP c.lookup.host answer s.clock := by
  have howns : s.owns (.call t) = some item := by rw [owns_call hc, hphase]; rfl
  obtain ⟨answer, hanswer⟩ := h.counted.exists_get howns
  have hlookup : s.heap.get item = c.lookup.answer := by
    have := h.phases t c hc
    simpa only [PhaseSound, hphase] using this
  -- the argument refers to the list, too
  obtain ⟨heap₁, hheap₁, hcounted₁⟩ : ∃ heap, s.heap.retain item = some heap ∧
      heap.Counted (Function.update s.owns .param (some item)) :=
    h.counted.retain howns rfl (Function.update_self _ _ _) fun o ho => Function.update_of_ne ho _ _
  have hentry : Function.update s.owns .param (some item) (.entry c.lookup.host) =
      (s.dnsCache c.lookup.host).map DnsEntry.addrInfo := rfl
  obtain ⟨heap₂, hheap₂, hcounted₂⟩ : ∃ heap,
      heap₁.reset ((s.dnsCache c.lookup.host).map DnsEntry.addrInfo) = some heap ∧
      heap.Counted (Function.update (Function.update s.owns .param (some item)) (.entry c.lookup.host) none) := by
    rw [← hentry]
    exact hcounted₁.reset _ (Function.update_self _ _ _) fun o ho => Function.update_of_ne ho _ _
  obtain ⟨s', hs'⟩ : ∃ s' : DnsThreads α, s' =
      { s.goOn t { c with lookup.stored := s.clock, phase := .getPerferredAddress item } with
        heap := heap₂
        dnsCache := Function.update s.dnsCache c.lookup.host (some ⟨item, s.clock⟩)
        stores := ⟨c.lookup.host, answer, s.clock⟩ :: s.stores } := ⟨_, rfl⟩
  have hstep : s.setCacheDomainIP t c item = some s' := by
    simp [setCacheDomainIP, hanswer, hheap₁, hheap₂, hs']
  have hcalls : s'.calls = Function.update s.calls t
      (some { c with lookup.stored := s.clock, phase := .getPerferredAddress item }) := by rw [hs']; rfl
  have hheap : s'.heap = heap₂ := by rw [hs']
  have hnew : s'.owns (.entry c.lookup.host) = some item := by simp [hs', owns]
  have hdns : ∀ host, host ≠ c.lookup.host → s'.dnsCache host = s.dnsCache host := by
    intro host hne
    rw [hs']
    exact Function.update_of_ne hne _ _
  have hcounted : s'.heap.Counted s'.owns := by
    rw [hheap]
    refine hcounted₂.move (o := .param) (Function.update_self _ _ _) rfl hnew fun o ho ho' => ?_
    rw [Function.update_of_ne ho', Function.update_of_ne ho]
    by_cases hcall : o = .call t
    · rw [hcall, howns]
      simp [owns, hcalls, DnsPhase.item]
    · exact owns_of_ne hcalls hcall fun host heq => hdns host fun heq' => ho' (heq.trans (heq' ▸ rfl))
  have hget : ∀ r answer, s'.heap.Alive r → s.heap.get r = some answer → s'.heap.get r = some answer := by
    intro r answer halive hr
    rw [hheap] at halive ⊢
    rw [RefHeap.get_reset hheap₂ halive, RefHeap.get_retain hheap₁, hr]
  have hitem : s'.heap.get item = some answer := hget item answer ((hcounted.alive_iff item).2 ⟨_, hnew⟩) hanswer
  have hcache : s'.cache = s.cache.setCacheDomainIP c.lookup.host answer s.clock := by
    have hentries : s'.cache.dnsCache = Function.update s.cache.dnsCache c.lookup.host (some ⟨answer, s.clock⟩) := by
      funext host
      by_cases hhost : host = c.lookup.host
      · subst hhost
        rw [Function.update_self]
        have hself : s'.dnsCache c.lookup.host = some ⟨item, s.clock⟩ := by simp [hs']
        simp [cache, hself, hitem]
      · rw [Function.update_of_ne hhost]
        exact h.cache_frame hcounted hget (hdns host hhost)
    have hmk : s'.cache = ⟨s'.cache.dnsCache, s'.clock, s'.stores⟩ := rfl
    rw [hmk, hentries, hs']
    rfl
  refine ⟨s', answer, hstep, ?_, hanswer, hcache⟩
  refine h.goOn hcalls hcounted (by rw [hs']; rfl) ?_ hget ?_ (h.begun t c hc) ?_
  · rw [hs']
    exact List.subset_cons_self _ _
  · rw [hcache]
    exact remembers_setCacheDomainIP h.remembers c.lookup answer
  · refine ⟨answer, hitem, s.clock, ?_, .inl ⟨hlookup.symm.trans hanswer, h.begun t c hc⟩⟩
    rw [hs']
    exact List.mem_cons_self

/-- The list that a call reads is alive, and may be freed when the call gives it up. -/
private theorem sound_getPerferredAddress (h : Sound makeSockAddr s) (hc : s.calls t = some c) {item : Nat}
    (hphase : c.phase = .getPerferredAddress item) :
    ∃ s', s.getPerferredAddress t c item = some s' ∧ Sound makeSockAddr s' ∧ s'.cache = s.cache := by
  have howns : s.owns (.call t) = some item := by rw [owns_call hc, hphase]; rfl
  have hsound : ∃ answer, s.heap.get item = some answer ∧ s.Source c answer := by
    have := h.phases t c hc
    simpa only [PhaseSound, hphase] using this
  obtain ⟨answer, hanswer, hsource⟩ := hsound
  obtain ⟨addr, haddr⟩ : ∃ addr, (DnsCache.getPerferredAddress c.lookup answer).aiAddr = addr := ⟨_, rfl⟩
  obtain ⟨heap, hheap, hcounted⟩ : ∃ heap, s.heap.release item = some heap ∧
      heap.Counted (s.goOn t { c with phase := .returned (some addr) }).owns := by
    refine h.counted.release howns ?_ fun o ho => owns_of_ne rfl ho fun _ _ => rfl
    simp [owns, goOn, DnsPhase.item]
  have hget : ∀ r answer, heap.Alive r → s.heap.get r = some answer → heap.get r = some answer := by
    intro r answer halive hr
    rw [RefHeap.get_release hheap halive, hr]
  have hcache : ({ s.goOn t { c with phase := .returned (some addr) } with heap := heap } : DnsThreads α).cache =
      s.cache := cache_eq_of_frame h hcounted hget rfl rfl rfl
  refine ⟨{ s.goOn t { c with phase := .returned (some addr) } with heap := heap }, ?_, ?_, hcache⟩
  · simp [getPerferredAddress, hanswer, hheap, haddr]
  · refine h.goOn rfl hcounted rfl (fun _ hx => hx) hget (hcache ▸ h.remembers) (h.begun t c hc) ?_
    exact .inr ⟨answer, hsource, haddr⟩

/-! ### Every run -/

/-- No phase of a call fails, and each does to the cache what it does to a cache without references. -/
private theorem sound_run (h : Sound makeSockAddr s) (hc : s.calls t = some c) (hrunning : c.isOver = false)
    (answer : Option (Answer α)) :
    ∃ s', s.run t answer c = some s' ∧ Sound makeSockAddr s' ∧ s'.cache = s.cacheAfter c := by
  unfold run cacheAfter
  cases hphase : c.phase with
  | getCacheDomainIP => exact sound_getCacheDomainIP h hc hphase
  | getSystemDomainIP => exact ⟨_, rfl, sound_getSystemDomainIP h hc hphase answer⟩
  | setCacheDomainIP item =>
    obtain ⟨s', stored, hstep, hs', hstored, hcache⟩ := sound_setCacheDomainIP h hc hphase
    refine ⟨s', hstep, hs', ?_⟩
    simp only [hstored, hcache]
  | getPerferredAddress item => exact sound_getPerferredAddress h hc hphase
  | returned addr => simp [DnsCall.isOver, hphase] at hrunning

private theorem sound_begin (h : Sound makeSockAddr s) (hidle : (s.calls t).all DnsCall.isOver = true)
    (q : DnsLookup α) : Sound makeSockAddr (s.goOn t (s.begin makeSockAddr q)) := by
  have hnone : s.owns (.call t) = none := by
    cases hc : s.calls t with
    | none => simp [owns, hc]
    | some c =>
      have hover : c.isOver = true := by simpa [hc] using hidle
      rw [owns_call hc]
      cases hphase : c.phase <;> simp_all [DnsCall.isOver, DnsPhase.item]
  have hbegin : (s.begin makeSockAddr q).phase.item = none ∧ (s.begin makeSockAddr q).begun = s.clock ∧
      s.PhaseSound makeSockAddr (s.begin makeSockAddr q) := by
    unfold begin
    cases hliteral : makeSockAddr q.host with
    | none => exact ⟨rfl, rfl, trivial⟩
    | some addr => exact ⟨rfl, rfl, .inl hliteral⟩
  obtain ⟨hitem, hbegun, hphase⟩ := hbegin
  refine h.goOn rfl ?_ rfl (fun _ hx => hx) (fun _ _ _ hr => hr) h.remembers (Int.le_of_eq hbegun) hphase
  refine h.counted.congr fun o => ?_
  by_cases ho : o = .call t
  · rw [ho, hnone]
    simp [owns, goOn, hitem]
  · exact owns_of_ne rfl ho fun _ _ => rfl

theorem sound_step {a : DnsAction α} (h : Sound makeSockAddr s) (hstep : s.step makeSockAddr a = some s') :
    Sound makeSockAddr s' := by
  cases a with
  | tick seconds =>
    obtain rfl := Option.some.inj hstep
    have hclock : s.clock ≤ s.clock + seconds := by omega
    refine ⟨h.counted, fun host item hitem => ?_, fun t c hc => Int.le_trans (h.begun t c hc) hclock, h.phases⟩
    obtain ⟨hlast, htime⟩ := h.remembers host item hitem
    exact ⟨hlast, Int.le_trans htime hclock⟩
  | getDomainIP t q =>
    obtain ⟨hidle, ⟨⟩⟩ := Option.ite_none_right_eq_some.1 hstep
    exact sound_begin h hidle q
  | run t answer =>
    obtain ⟨c, hc, hrun⟩ := Option.bind_eq_some_iff.1 hstep
    cases hover : c.isOver with
    | true =>
      have hnone : s.run t answer c = none := by
        unfold run
        cases hphase : c.phase <;> simp_all [DnsCall.isOver]
      rw [hnone] at hrun
      cases hrun
    | false =>
      obtain ⟨s'', hs'', hsound, -⟩ := sound_run h hc hover answer
      obtain rfl : s'' = s' := Option.some.inj (hs''.symm.trans hrun)
      exact hsound

/-! ### The answers of a run -/

/-- The resolver has given this list for the host to a call of the run. -/
def Resolved (as : List (DnsAction α)) (host : String) (answer : Answer α) : Prop :=
  ∃ t q bs cs ds, as = bs ++ .getDomainIP t q :: cs ++ .run t (some answer) :: ds ∧ q.host = host ∧
    ∀ q', .getDomainIP t q' ∉ cs

/-- The call is the last one that the thread has begun, and its answer was given to it in the run. -/
def Began (as : List (DnsAction α)) (t : Nat) (c : DnsCall α) : Prop :=
  ∃ q bs cs, as = bs ++ .getDomainIP t q :: cs ∧ q.host = c.lookup.host ∧ (∀ q', .getDomainIP t q' ∉ cs) ∧
    ∀ answer, c.lookup.answer = some answer → .run t (some answer) ∈ cs

structure Told (as : List (DnsAction α)) (s : DnsThreads α) : Prop where
  calls : ∀ t c, s.calls t = some c → Began as t c
  stores : ∀ r ∈ s.stores, Resolved as r.host r.item.addrInfo

theorem Resolved.concat {as : List (DnsAction α)} {host : String} {answer : Answer α} (h : Resolved as host answer)
    (a : DnsAction α) : Resolved (as ++ [a]) host answer := by
  obtain ⟨t, q, bs, cs, ds, rfl, hhost, hcs⟩ := h
  exact ⟨t, q, bs, cs, ds ++ [a], by simp, hhost, hcs⟩

/-- A step that begins no call of the thread and leaves the answer, or is the one in which it is given. -/
theorem Began.concat {as : List (DnsAction α)} (h : Began as t c) {a : DnsAction α}
    (hbegins : ∀ q, a ≠ .getDomainIP t q) (hhost : c'.lookup.host = c.lookup.host)
    (hanswer : c'.lookup.answer = c.lookup.answer ∨ ∃ answer, a = .run t answer ∧ c'.lookup.answer = answer) :
    Began (as ++ [a]) t c' := by
  obtain ⟨q, bs, cs, rfl, hq, hcs, hgiven⟩ := h
  refine ⟨q, bs, cs ++ [a], by simp, hq.trans hhost.symm, fun q' hq' => ?_, fun answer heq => ?_⟩
  · rcases List.mem_append.1 hq' with hold | hnew
    · exact hcs q' hold
    · exact hbegins q' (List.mem_singleton.1 hnew).symm
  · rcases hanswer with hsame | ⟨answer', rfl, hnew⟩
    · exact List.mem_append_left _ (hgiven answer (hsame.symm.trans heq))
    · obtain rfl : answer' = some answer := hnew.symm.trans heq
      exact List.mem_append_right _ (List.mem_singleton_self _)

theorem Began.resolved {as : List (DnsAction α)} (h : Began as t c) {answer : Answer α}
    (hanswer : c.lookup.answer = some answer) : Resolved as c.lookup.host answer := by
  obtain ⟨q, bs, cs, rfl, hq, hcs, hgiven⟩ := h
  obtain ⟨cs₁, cs₂, rfl⟩ := List.append_of_mem (hgiven answer hanswer)
  refine ⟨t, q, bs, cs₁, cs₂, by simp, hq, fun q' hq' => hcs q' (List.mem_append_left _ hq')⟩

private theorem run_eq_some {answer : Option (Answer α)} (hrun : s.run t answer c = some s') :
    ∃ c', s'.calls = Function.update s.calls t (some c') ∧ c'.lookup.host = c.lookup.host ∧
      (c'.lookup.answer = c.lookup.answer ∨ c'.lookup.answer = answer) ∧
      (s'.stores = s.stores ∨ ∃ item stored time, c.phase = .setCacheDomainIP item ∧ s.heap.get item = some stored ∧
        s'.stores = ⟨c.lookup.host, stored, time⟩ :: s.stores) := by
  unfold run at hrun
  cases hphase : c.phase with
  | getCacheDomainIP =>
    rw [hphase] at hrun
    simp only [getCacheDomainIP] at hrun
    split at hrun
    · obtain rfl := Option.some.inj hrun
      exact ⟨_, rfl, rfl, .inl rfl, .inl rfl⟩
    · split at hrun
      · obtain ⟨heap, -, rfl⟩ := Option.map_eq_some_iff.1 hrun
        exact ⟨_, rfl, rfl, .inl rfl, .inl rfl⟩
      · obtain ⟨heap, -, rfl⟩ := Option.map_eq_some_iff.1 hrun
        exact ⟨_, rfl, rfl, .inl rfl, .inl rfl⟩
  | getSystemDomainIP =>
    rw [hphase] at hrun
    obtain rfl := Option.some.inj hrun
    cases answer with
    | none => exact ⟨_, rfl, rfl, .inr rfl, .inl rfl⟩
    | some answer => exact ⟨_, rfl, rfl, .inr rfl, .inl rfl⟩
  | setCacheDomainIP item =>
    rw [hphase] at hrun
    simp only [setCacheDomainIP, Option.bind_eq_bind, Option.bind_eq_some_iff] at hrun
    obtain ⟨stored, hstored, heap, -, heap', -, heq⟩ := hrun
    obtain rfl := Option.some.inj heq
    exact ⟨_, rfl, rfl, .inl rfl, .inr ⟨item, stored, s.clock, rfl, hstored, rfl⟩⟩
  | getPerferredAddress item =>
    rw [hphase] at hrun
    simp only [getPerferredAddress, Option.bind_eq_bind, Option.bind_eq_some_iff] at hrun
    obtain ⟨stored, -, heap, -, heq⟩ := hrun
    obtain rfl := Option.some.inj heq
    exact ⟨_, rfl, rfl, .inl rfl, .inl rfl⟩
  | returned addr =>
    rw [hphase] at hrun
    cases hrun

private theorem told_step {as : List (DnsAction α)} {a : DnsAction α} (h : Sound makeSockAddr s) (ht : Told as s)
    (hstep : s.step makeSockAddr a = some s') : Told (as ++ [a]) s' := by
  cases a with
  | tick seconds =>
    obtain rfl := Option.some.inj hstep
    exact ⟨fun t c hc => (ht.calls t c hc).concat (fun q => by simp) rfl (.inl rfl),
      fun r hr => (ht.stores r hr).concat _⟩
  | getDomainIP t q =>
    obtain ⟨-, ⟨⟩⟩ := Option.ite_none_right_eq_some.1 hstep
    refine ⟨fun t' c hc => ?_, fun r hr => (ht.stores r hr).concat _⟩
    by_cases heq : t' = t
    · subst heq
      obtain rfl : s.begin makeSockAddr q = c := by simpa [goOn] using hc
      have hbegin : (s.begin makeSockAddr q).lookup = { q with answer := none } := by
        unfold begin
        split
        · rfl
        · rfl
      refine ⟨q, as, [], rfl, by rw [hbegin], fun q' => List.not_mem_nil, fun answer hanswer => ?_⟩
      rw [hbegin] at hanswer
      cases hanswer
    · have hc' : s.calls t' = some c := by simpa [goOn, heq] using hc
      refine (ht.calls t' c hc').concat (fun q' hq' => heq ?_) rfl (.inl rfl)
      exact (DnsAction.getDomainIP.inj hq').1.symm
  | run t answer =>
    obtain ⟨c, hc, hrun⟩ := Option.bind_eq_some_iff.1 hstep
    obtain ⟨c', hcalls, hhost, hanswer, hstores⟩ := run_eq_some hrun
    refine ⟨fun t' d hd => ?_, fun r hr => ?_⟩
    · by_cases heq : t' = t
      · subst heq
        obtain rfl : c' = d := by simpa [hcalls] using hd
        refine (ht.calls t' c hc).concat (fun q => by simp) hhost ?_
        exact hanswer.imp_right fun hnew => ⟨answer, rfl, hnew⟩
      · have hd' : s.calls t' = some d := by simpa [hcalls, heq] using hd
        exact (ht.calls t' d hd').concat (fun q => by simp) rfl (.inl rfl)
    · rcases hstores with hsame | ⟨item, stored, time, hphase, hstored, hnew⟩
      · exact (ht.stores r (hsame ▸ hr)).concat _
      · rw [hnew] at hr
        rcases List.mem_cons.1 hr with rfl | hold
        · -- what is stored is what the resolver has answered to this call
          have hsound := h.phases t c hc
          simp only [PhaseSound, hphase] at hsound
          exact ((ht.calls t c hc).resolved (hsound.symm.trans hstored)).concat _
        · exact (ht.stores r hold).concat _

private theorem told_exec {clock : Int} {as : List (DnsAction α)}
    (hrun : Transition.exec (step makeSockAddr) (init clock) as = some s) : Sound makeSockAddr s ∧ Told as s := by
  have hinit : Sound makeSockAddr (init clock : DnsThreads α) ∧ Told [] (init clock : DnsThreads α) :=
    ⟨.init clock, by simp [init], by simp [init]⟩
  refine Transition.exec_history (P := fun as s => Sound makeSockAddr s ∧ Told as s) ?_ hinit hrun
  exact fun as s a s' h hstep => ⟨sound_step h.1 hstep, told_step h.1 h.2 hstep⟩

/-- In every run, the lists that are alive are those of the entries and of the running calls; no phase of a call uses a
list that has been freed, and each does to the cache what it does to a cache without references; what is stored for a
name was given by the resolver to a call for this name; and every address that a call for a name returns is one of a
list that the resolver has given for this name, and is asked for if any in the list is. -/
theorem lookups_safe {clock : Int} {as : List (DnsAction α)}
    (hrun : Transition.exec (step makeSockAddr) (init clock) as = some s) :
    (∀ r, s.heap.Alive r ↔ (∃ host e, s.dnsCache host = some e ∧ e.addrInfo = r) ∨
        ∃ t c, s.calls t = some c ∧ c.phase.item = some r) ∧
      (∀ t c answer, s.calls t = some c → c.isOver = false →
        ∃ s', s.step makeSockAddr (.run t answer) = some s' ∧ s'.cache = s.cacheAfter c) ∧
      (∀ host item, s.cache.dnsCache host = some item → s.cache.lastResolution host = some item) ∧
      (∀ r ∈ s.stores, Resolved as r.host r.item.addrInfo) ∧
      ∀ t c addr, s.calls t = some c → c.phase = .returned (some addr) → makeSockAddr c.lookup.host = none →
        ∃ answer, s.Source c answer ∧ ∃ info ∈ answer.toList, info.aiAddr = addr ∧
          ((∃ other ∈ answer.toList, c.lookup.matches other = true) → c.lookup.matches info = true) := by
  obtain ⟨h, htold⟩ := told_exec hrun
  refine ⟨fun r => ?_, fun t c answer hc hrunning => ?_, fun host item hitem => (h.remembers host item hitem).1,
    htold.stores, fun t c addr hc hphase hname => ?_⟩
  · rw [h.counted.alive_iff]
    constructor
    · rintro ⟨o, ho⟩
      cases o with
      | entry host =>
        obtain ⟨e, he, heq⟩ := Option.map_eq_some_iff.1 ho
        exact .inl ⟨host, e, he, heq⟩
      | call t =>
        obtain ⟨c, hc, hitem⟩ := Option.bind_eq_some_iff.1 ho
        exact .inr ⟨t, c, hc, hitem⟩
      | param => cases ho
    · rintro (⟨host, e, he, rfl⟩ | ⟨t, c, hc, hitem⟩)
      · exact ⟨.entry host, by simp [owns, he]⟩
      · exact ⟨.call t, by simp [owns, hc, hitem]⟩
  · obtain ⟨s', hstep, -, hcache⟩ := sound_run h hc hrunning answer
    exact ⟨s', by rw [step, hc]; exact hstep, hcache⟩
  · have hsound := h.phases t c hc
    simp only [PhaseSound, hphase, hname, reduceCtorEq, false_or] at hsound
    obtain ⟨answer, hsource, rfl⟩ := hsound
    obtain ⟨hmem, hmatches⟩ := DnsCache.getPerferredAddress_spec c.lookup answer
    exact ⟨answer, hsource, _, hmem, rfl, hmatches⟩

/-- Two calls look the same name up at once, and the second one replaces the entry while the first one still reads the
list that it has stored. -/
def twoLookups : List (DnsAction Nat) :=
  [.getDomainIP 0 ⟨"host", 2, 1, 6, 60, 0, none, 0⟩, .getDomainIP 1 ⟨"host", 2, 1, 6, 60, 0, none, 0⟩, .run 0 none,
    .run 1 none, .tick 1, .run 0 (some ⟨⟨10, 1, 6, 7⟩, [⟨2, 1, 6, 8⟩]⟩), .run 1 (some ⟨⟨2, 1, 6, 9⟩, []⟩), .run 0 none,
    .run 1 none, .run 0 none]

theorem lookups_safe_twoLookups :
    ∃ s c, Transition.exec (step fun _ => none) (init 0) twoLookups = some s ∧ s.heap.get 0 = none ∧
      s.heap.get 1 = some ⟨⟨2, 1, 6, 9⟩, []⟩ ∧ s.calls 0 = some c ∧ c.phase = .returned (some 8) ∧
      ∃ answer, s.Source c answer ∧ ∃ info ∈ answer.toList, info.aiAddr = 8 := by
  have hlast : (Transition.exec (step fun _ => none) (init 0) twoLookups).map
      (fun s => (s.heap.get 0, s.heap.get 1, (s.calls 0).map DnsCall.phase)) =
        some (none, some ⟨⟨2, 1, 6, 9⟩, []⟩, some (.returned (some 8))) := by decide
  obtain ⟨s, hrun, hs⟩ := Option.map_eq_some_iff.1 hlast
  obtain ⟨h0, hrest⟩ := Prod.mk.inj hs
  obtain ⟨h1, hcall⟩ := Prod.mk.inj hrest
  obtain ⟨c, hc, hphase⟩ := Option.map_eq_some_iff.1 hcall
  obtain ⟨answer, hsource, info, hinfo, haddr, -⟩ := (lookups_safe hrun).2.2.2.2 0 c 8 hc hphase rfl
  exact ⟨s, c, hrun, h0, h1, hc, hphase, answer, hsource, info, hinfo, haddr⟩

end DnsThreads

end AvcTool
