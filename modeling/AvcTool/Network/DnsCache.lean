import Mathlib.Logic.Function.Basic
import AvcTool.Lib.Transition

/-!
# The cache of resolved host names

`DnsCache::getDomainIP` answers from its cache while the entry of the host is not older than the caller allows, and
asks the resolver otherwise.  A lookup reads the clock when it examines an entry and when it stores one.

`resolutions` records what the resolver has answered; it holds nothing but answers to lookups of the run, in the order
of these (`Logged`).  An entry of the cache is always the last resolution of its host, with its time (`Remembers`), and
every answer is taken from an entry.  The type `α` is that of the addresses.
-/

namespace AvcTool

structure AddrInfo (α : Type*) where
  aiFamily : Int
  aiSocktype : Int
  aiProtocol : Int
  aiAddr : α
  deriving DecidableEq

/-- An answer of `getaddrinfo` has at least one element. -/
structure Answer (α : Type*) where
  first : AddrInfo α
  aiNext : List (AddrInfo α)
  deriving DecidableEq

def Answer.toList {α : Type*} (answer : Answer α) : List (AddrInfo α) :=
  answer.first :: answer.aiNext

structure DnsItem (α : Type*) where
  addrInfo : Answer α
  createTime : Int
  deriving DecidableEq

structure Resolution (α : Type*) where
  host : String
  item : DnsItem α
  deriving DecidableEq

/-- A call of `getDomainIP`, with what the clock and the resolver say while it runs. -/
structure DnsLookup (α : Type*) where
  host : String
  aiFamily : Int
  aiSocktype : Int
  aiProtocol : Int
  expireSec : Int
  /-- the clock when the entry is examined -/
  now : Int
  /-- the answer of the last call of `getaddrinfo`; a call that a signal interrupts is repeated -/
  answer : Option (Answer α)
  /-- the clock when the answer is stored -/
  stored : Int

/-- What the resolver answers to the lookup, if it is asked. -/
def DnsLookup.resolution {α : Type*} (q : DnsLookup α) : Option (Resolution α) :=
  q.answer.map fun answer => ⟨q.host, answer, q.stored⟩

def DnsLookup.matches {α : Type*} (q : DnsLookup α) (a : AddrInfo α) : Bool :=
  a.aiFamily = q.aiFamily && a.aiSocktype = q.aiSocktype && a.aiProtocol = q.aiProtocol

structure DnsCache (α : Type*) where
  dnsCache : String → Option (DnsItem α)
  /-- the last reading of the clock -/
  clock : Int
  /-- newest first -/
  resolutions : List (Resolution α)

namespace DnsCache

variable {α : Type*}

def init (clock : Int) : DnsCache α :=
  { dnsCache := fun _ => none, clock := clock, resolutions := [] }

/-- An entry that has expired is erased. -/
def getCacheDomainIP (s : DnsCache α) (host : String) (expireSec now : Int) : DnsCache α × Option (Answer α) :=
  match s.dnsCache host with
  | none => (s, none)
  | some item =>
    if item.createTime + expireSec < now then ({ s with dnsCache := Function.update s.dnsCache host none }, none)
    else (s, some item.addrInfo)

def setCacheDomainIP (s : DnsCache α) (host : String) (addr : Answer α) (stored : Int) : DnsCache α :=
  { s with
    dnsCache := Function.update s.dnsCache host (some ⟨addr, stored⟩)
    resolutions := ⟨host, addr, stored⟩ :: s.resolutions }

/-- The first address that is asked for, or else the first address. -/
def getPerferredAddress (q : DnsLookup α) (answer : Answer α) : AddrInfo α :=
  (answer.toList.find? q.matches).getD answer.first

/-- The cached or the new answer for a host that is not a literal address. -/
def getAnswer (s : DnsCache α) (q : DnsLookup α) : DnsCache α × Option (Answer α) :=
  match s.getCacheDomainIP q.host q.expireSec q.now with
  | (s, some answer) => (s, some answer)
  | (s, none) =>
    match q.answer with
    | none => (s, none)
    | some answer => (s.setCacheDomainIP q.host answer q.stored, some answer)

/-- `getDomainIP` returns true if there is an address.  `makeSockAddr` is the address that a host spells out. -/
def getDomainIP (makeSockAddr : String → Option α) (s : DnsCache α) (q : DnsLookup α) : DnsCache α × Option α :=
  match makeSockAddr q.host with
  | some addr => (s, some addr)
  | none =>
    match s.getAnswer q with
    | (s, some answer) => (s, some (getPerferredAddress q answer).aiAddr)
    | (s, none) => (s, none)

/-- One lookup of a run; the clock does not go back between two readings. -/
def step (makeSockAddr : String → Option α) (s : DnsCache α) (q : DnsLookup α) : Option (DnsCache α) :=
  if s.clock ≤ q.now ∧ q.now ≤ q.stored then some { (s.getDomainIP makeSockAddr q).1 with clock := q.stored } else none

def lastResolution (s : DnsCache α) (host : String) : Option (DnsItem α) :=
  (s.resolutions.find? fun r => r.host = host).map Resolution.item

/-! ### One lookup -/

inductive Answered (s : DnsCache α) (q : DnsLookup α) : DnsCache α × Option (Answer α) → Prop where
  | served (item : DnsItem α) (hitem : s.dnsCache q.host = some item) (hfresh : q.now ≤ item.createTime + q.expireSec) :
    Answered s q (s, some item.addrInfo)
  | resolved (answer : Answer α) (hanswer : q.answer = some answer) :
    Answered s q (s.setCacheDomainIP q.host answer q.stored, some answer)
  | failed (hanswer : q.answer = none) :
    Answered s q ({ s with dnsCache := Function.update s.dnsCache q.host none }, none)

private theorem answered_erased (s : DnsCache α) (q : DnsLookup α) :
    Answered s q (match q.answer with
      | none => ({ s with dnsCache := Function.update s.dnsCache q.host none }, none)
      | some answer => ({ s with dnsCache := Function.update s.dnsCache q.host none }.setCacheDomainIP q.host answer
          q.stored, some answer)) := by
  cases hanswer : q.answer with
  | none => exact .failed hanswer
  | some answer =>
    have hset : ({ s with dnsCache := Function.update s.dnsCache q.host none } : DnsCache α).setCacheDomainIP q.host
        answer q.stored = s.setCacheDomainIP q.host answer q.stored := by
      simp only [setCacheDomainIP, Function.update_idem]
    simp only [hset]
    exact .resolved answer hanswer

private theorem answered (s : DnsCache α) (q : DnsLookup α) : Answered s q (s.getAnswer q) := by
  have herased := answered_erased s q
  unfold getAnswer getCacheDomainIP
  cases hitem : s.dnsCache q.host with
  | none =>
    have hself : Function.update s.dnsCache q.host none = s.dnsCache := by
      rw [← hitem]
      exact Function.update_eq_self q.host s.dnsCache
    simp only [hself] at herased
    exact herased
  | some item =>
    by_cases hexpired : item.createTime + q.expireSec < q.now
    · simp only [if_pos hexpired]
      exact herased
    · simp only [if_neg hexpired]
      exact .served item hitem (Int.not_lt.1 hexpired)

/-- The address is one of the answer, and it is asked for if any of them is. -/
theorem getPerferredAddress_spec (q : DnsLookup α) (answer : Answer α) :
    getPerferredAddress q answer ∈ answer.toList ∧
    ((∃ other ∈ answer.toList, q.matches other = true) → q.matches (getPerferredAddress q answer) = true) := by
  unfold getPerferredAddress
  cases hfind : answer.toList.find? q.matches with
  | none =>
    refine ⟨List.mem_cons_self, ?_⟩
    rintro ⟨other, hother, hmatches⟩
    exact absurd hmatches (List.find?_eq_none.1 hfind other hother)
  | some a =>
    refine ⟨List.mem_of_find?_eq_some hfind, fun _ => ?_⟩
    exact List.find?_some (p := q.matches) hfind

/-- The answer is that of an entry that has not expired, or the new one. -/
theorem getAnswer_eq_some_iff {s : DnsCache α} {q : DnsLookup α} {answer : Answer α} :
    (s.getAnswer q).2 = some answer ↔
      (∃ item, s.dnsCache q.host = some item ∧ q.now ≤ item.createTime + q.expireSec ∧ item.addrInfo = answer) ∨
      (∀ item, s.dnsCache q.host = some item → item.createTime + q.expireSec < q.now) ∧ q.answer = some answer := by
  unfold getAnswer getCacheDomainIP
  cases hitem : s.dnsCache q.host with
  | none => cases hanswer : q.answer <;> simp
  | some item =>
    by_cases hexpired : item.createTime + q.expireSec < q.now
    · have hnot : ¬ q.now ≤ item.createTime + q.expireSec := Int.not_le.2 hexpired
      cases hanswer : q.answer <;> simp [hexpired, hnot]
    · have hvalid : q.now ≤ item.createTime + q.expireSec := Int.not_lt.1 hexpired
      simp [hexpired, hvalid]

theorem getDomainIP_of_name {makeSockAddr : String → Option α} (s : DnsCache α) {q : DnsLookup α}
    (hhost : makeSockAddr q.host = none) :
    s.getDomainIP makeSockAddr q =
      ((s.getAnswer q).1, (s.getAnswer q).2.map fun answer => (getPerferredAddress q answer).aiAddr) := by
  unfold getDomainIP
  rw [hhost]
  cases hanswer : s.getAnswer q with
  | mk t answer => cases answer <;> rfl

/-! ### The entries of the cache -/

private theorem lastResolution_set (s : DnsCache α) (host host' : String) (addr : Answer α) (stored : Int) :
    (s.setCacheDomainIP host addr stored).lastResolution host' =
      if host = host' then some ⟨addr, stored⟩ else s.lastResolution host' := by
  unfold lastResolution setCacheDomainIP
  by_cases h : host = host'
  · simp [h]
  · simp [h]

def Remembers (s : DnsCache α) : Prop :=
  ∀ host item, s.dnsCache host = some item → s.lastResolution host = some item ∧ item.createTime ≤ s.clock

/-- A lookup leaves the entries of the other hosts alone. -/
theorem Answered.frame {s : DnsCache α} {q : DnsLookup α} {r : DnsCache α × Option (Answer α)} (h : Answered s q r)
    {host : String} (hne : host ≠ q.host) : r.1.dnsCache host = s.dnsCache host := by
  cases h with
  | served item hitem hfresh => rfl
  | resolved answer hanswer => exact Function.update_of_ne hne _ _
  | failed hanswer => exact Function.update_of_ne hne _ _

theorem Answered.remembers {s : DnsCache α} {q : DnsLookup α} {r : DnsCache α × Option (Answer α)}
    (h : Answered s q r) (hs : Remembers s) (hclock : s.clock ≤ q.stored) :
    Remembers { r.1 with clock := q.stored } := by
  have hold : ∀ host item, s.dnsCache host = some item →
      s.lastResolution host = some item ∧ item.createTime ≤ q.stored := by
    intro host item hitem
    obtain ⟨hlast, hle⟩ := hs host item hitem
    exact ⟨hlast, Int.le_trans hle hclock⟩
  intro host item hitem
  by_cases hhost : host = q.host
  · subst hhost
    cases h with
    | served item' hitem' hfresh => exact hold q.host item hitem
    | resolved answer hanswer =>
      simp only [setCacheDomainIP, Function.update_self, Option.some.injEq] at hitem
      subst hitem
      refine ⟨?_, Int.le_refl _⟩
      exact (lastResolution_set s q.host q.host answer q.stored).trans (if_pos rfl)
    | failed hanswer =>
      simp only [Function.update_self] at hitem
      cases hitem
  · have hsame : s.dnsCache host = some item := (h.frame hhost).symm.trans hitem
    obtain ⟨hlast, hle⟩ := hold host item hsame
    refine ⟨?_, hle⟩
    cases h with
    | served item' hitem' hfresh => exact hlast
    | resolved answer hanswer =>
      exact (lastResolution_set s q.host host answer q.stored).trans ((if_neg (Ne.symm hhost)).trans hlast)
    | failed hanswer => exact hlast

private theorem remembers_step {makeSockAddr : String → Option α} {s t : DnsCache α} {q : DnsLookup α}
    (hs : Remembers s) (h : s.step makeSockAddr q = some t) : Remembers t := by
  obtain ⟨⟨hclock, hstored⟩, ⟨⟩⟩ := Option.ite_none_right_eq_some.1 h
  have hle : s.clock ≤ q.stored := Int.le_trans hclock hstored
  cases hhost : makeSockAddr q.host with
  | some addr =>
    have hsame : (s.getDomainIP makeSockAddr q).1 = s := by rw [getDomainIP, hhost]
    rw [hsame]
    intro host item hitem
    obtain ⟨hlast, htime⟩ := hs host item hitem
    exact ⟨hlast, Int.le_trans htime hle⟩
  | none =>
    rw [getDomainIP_of_name s hhost]
    exact (answered s q).remembers hs hle

private theorem remembers_exec {makeSockAddr : String → Option α} {clock : Int} {qs : List (DnsLookup α)}
    {s : DnsCache α} (h : Transition.exec (step makeSockAddr) (init clock) qs = some s) : Remembers s := by
  have hinit : Remembers (init clock : DnsCache α) := by
    intro host item hitem
    cases hitem
  exact Transition.exec_invariant (fun _ _ _ hs hst => remembers_step hs hst) hinit h

/-! ### The answers of a run -/

/-- The recorded resolutions are answers to some of the lookups, in the order of these. -/
def Logged (qs : List (DnsLookup α)) (s : DnsCache α) : Prop :=
  List.Sublist s.resolutions.reverse (qs.filterMap DnsLookup.resolution)

private theorem Answered.logged {s : DnsCache α} {q : DnsLookup α} {r : DnsCache α × Option (Answer α)}
    (h : Answered s q r) {qs : List (DnsLookup α)} (hs : Logged qs s) : Logged (qs ++ [q]) r.1 := by
  unfold Logged
  rw [Transition.filterMap_concat]
  cases h with
  | served item hitem hfresh => exact hs.trans (List.sublist_append_left _ _)
  | resolved answer hanswer =>
    have hresolution : q.resolution = some ⟨q.host, answer, q.stored⟩ := by rw [DnsLookup.resolution, hanswer]; rfl
    rw [hresolution, setCacheDomainIP, List.reverse_cons]
    exact List.Sublist.append hs (List.Sublist.refl _)
  | failed hanswer => exact hs.trans (List.sublist_append_left _ _)

private theorem logged_step {makeSockAddr : String → Option α} {s t : DnsCache α} {q : DnsLookup α}
    {qs : List (DnsLookup α)} (hs : Logged qs s) (h : s.step makeSockAddr q = some t) : Logged (qs ++ [q]) t := by
  obtain ⟨-, ⟨⟩⟩ := Option.ite_none_right_eq_some.1 h
  cases hhost : makeSockAddr q.host with
  | some addr =>
    have hsame : (s.getDomainIP makeSockAddr q).1 = s := by rw [getDomainIP, hhost]
    rw [hsame, Logged, List.filterMap_append]
    exact List.Sublist.trans hs (List.sublist_append_left _ _)
  | none =>
    rw [getDomainIP_of_name s hhost]
    exact (answered s q).logged hs

private theorem logged_exec {makeSockAddr : String → Option α} {clock : Int} {qs : List (DnsLookup α)} {s : DnsCache α}
    (h : Transition.exec (step makeSockAddr) (init clock) qs = some s) : Logged qs s := by
  have hinit : Logged [] (init clock : DnsCache α) := List.Sublist.refl []
  exact Transition.exec_history (fun _ _ _ _ hs hst => logged_step hs hst) hinit h

/-! ### Main results -/

/-- Where the answer to a lookup comes from: the resolver has just given it, or it was stored recently enough. -/
def Source (s t : DnsCache α) (q : DnsLookup α) (item : DnsItem α) : Prop :=
  (q.answer = some item.addrInfo ∧ item.createTime = q.stored ∧ t.resolutions = ⟨q.host, item⟩ :: s.resolutions) ∨
    (t.resolutions = s.resolutions ∧ item.createTime ≤ q.now ∧ q.now - item.createTime ≤ q.expireSec)

/-- An answer is the last resolution of the host. -/
theorem Answered.sound {s : DnsCache α} {q : DnsLookup α} {r : DnsCache α × Option (Answer α)} (h : Answered s q r)
    (hs : Remembers s) (hclock : s.clock ≤ q.now) {answer : Answer α} (hr : r.2 = some answer) :
    ∃ item, r.1.lastResolution q.host = some item ∧ item.addrInfo = answer ∧ Source s r.1 q item := by
  cases h with
  | served item hitem hfresh =>
    obtain rfl := Option.some.inj hr
    obtain ⟨hlast, hle⟩ := hs q.host item hitem
    refine ⟨item, hlast, rfl, .inr ⟨rfl, Int.le_trans hle hclock, ?_⟩⟩
    omega
  | resolved answer' hanswer =>
    obtain rfl := Option.some.inj hr
    refine ⟨⟨answer', q.stored⟩, ?_, rfl, .inl ⟨hanswer, rfl, rfl⟩⟩
    exact (lastResolution_set s q.host q.host answer' q.stored).trans (if_pos rfl)
  | failed hanswer => cases hr

/-- What one lookup of any history gives and leaves behind. -/
theorem lookup_sound (makeSockAddr : String → Option α) (clock : Int) (qs : List (DnsLookup α)) (q : DnsLookup α)
    (s t : DnsCache α) (hrun : Transition.exec (step makeSockAddr) (init clock) qs = some s)
    (hstep : s.step makeSockAddr q = some t) (hhost : makeSockAddr q.host = none) :
    (∀ addr, (s.getDomainIP makeSockAddr q).2 = some addr →
      ∃ item, t.lastResolution q.host = some item ∧ Source s t q item ∧
        ∃ info ∈ item.addrInfo.toList, info.aiAddr = addr ∧
          ((∃ other ∈ item.addrInfo.toList, q.matches other = true) → q.matches info = true)) ∧
    ((s.getDomainIP makeSockAddr q).2 = none →
      q.answer = none ∧ t.dnsCache q.host = none ∧ t.resolutions = s.resolutions) ∧
    List.Sublist t.resolutions.reverse ((qs ++ [q]).filterMap DnsLookup.resolution) ∧
    (∀ host item, t.dnsCache host = some item → t.lastResolution host = some item) ∧
    ∀ host, host ≠ q.host → t.dnsCache host = s.dnsCache host := by
  have hs : Remembers s := remembers_exec hrun
  have ht : Remembers t := remembers_step hs hstep
  have hlogged : Logged (qs ++ [q]) t := logged_step (logged_exec hrun) hstep
  obtain ⟨⟨hclock, hstored⟩, ⟨⟩⟩ := Option.ite_none_right_eq_some.1 hstep
  have hanswered := answered s q
  rw [getDomainIP_of_name s hhost] at ht hlogged ⊢
  refine ⟨?_, ?_, hlogged, fun host item hitem => (ht host item hitem).1, fun host hne => hanswered.frame hne⟩
  · intro addr haddr
    obtain ⟨answer, hanswer, rfl⟩ := Option.map_eq_some_iff.1 haddr
    obtain ⟨item, hlast, rfl, hsource⟩ := hanswered.sound hs hclock hanswer
    obtain ⟨hmem, hmatches⟩ := getPerferredAddress_spec q item.addrInfo
    exact ⟨item, hlast, hsource, _, hmem, rfl, hmatches⟩
  · intro hnone
    have hfailed : (s.getAnswer q).2 = none := Option.map_eq_none_iff.1 hnone
    generalize s.getAnswer q = r at hanswered hfailed
    cases hanswered with
    | served item hitem hfresh => cases hfailed
    | resolved answer hanswer => cases hfailed
    | failed hanswer => exact ⟨hanswer, Function.update_self _ _ _, rfl⟩

/-- A name is resolved, and served from the cache ten seconds later, when the resolver would fail. -/
theorem lookup_sound_cached :
    ∃ item : DnsItem Nat,
      lastResolution ⟨Function.update (fun _ => none) "host" (some ⟨⟨⟨10, 1, 6, 7⟩, [⟨2, 1, 6, 8⟩]⟩, 1⟩), 11,
        [⟨"host", ⟨⟨10, 1, 6, 7⟩, [⟨2, 1, 6, 8⟩]⟩, 1⟩]⟩ "host" = some item ∧
      ∃ info ∈ item.addrInfo.toList, info.aiAddr = 8 := by
  have hrun : Transition.exec (step fun _ => none) (init 0 : DnsCache Nat)
      [⟨"host", 2, 1, 6, 60, 0, some ⟨⟨10, 1, 6, 7⟩, [⟨2, 1, 6, 8⟩]⟩, 1⟩] =
        some ⟨Function.update (fun _ => none) "host" (some ⟨⟨⟨10, 1, 6, 7⟩, [⟨2, 1, 6, 8⟩]⟩, 1⟩), 1,
          [⟨"host", ⟨⟨10, 1, 6, 7⟩, [⟨2, 1, 6, 8⟩]⟩, 1⟩]⟩ := rfl
  have hsound := lookup_sound (fun _ => none) 0 _ ⟨"host", 2, 1, 6, 60, 11, none, 11⟩ _ _ hrun rfl rfl
  obtain ⟨item, hlast, -, info, hmem, haddr, -⟩ := hsound.1 8 rfl
  exact ⟨item, hlast, info, hmem, haddr⟩

end DnsCache

end AvcTool
