import Mathlib.Algebra.Group.Nat.Defs
import Mathlib.Data.List.Nodup
import Mathlib.Logic.Function.Basic
import AvcTool.Lib.Ownership
import AvcTool.Lib.Transition

/-!
# Epoll handles under numbers

The port of epoll that is used on Windows gives a `HANDLE` where Linux gives a number.  `EpollWrapper` keeps a table of
the handles under numbers of its own.  The table is accessed under a lock, but the system is called outside of it: a
thread that has created an instance has yet to enter it into the table, one that closes an instance has already taken
it out, and one that uses an instance has only looked up its handle.

The system may give a handle again once it has been closed, so the instances are numbered here.  In every interleaving
each open instance has exactly one owner, an entry of the table or a thread that is about to enter or to close it; so
none leaks and none is closed twice.  A call goes to the instance that its number stood for, as long as no instance is
closed while a call has its handle (`instances_owned`).
-/

namespace AvcTool

inductive EpollPc (ι : Type*) where
  | idle
  /-- in `epoll_create`, with the new handle -/
  | entering (hnd : ι)
  /-- in `epoll_ctl` or `epoll_wait`, with the handle that has been looked up, and the instance that it stood for -/
  | calling (hnd : ι) (inst : Option Nat)
  /-- in `epoll_close`, with the handle that has been taken out of the table -/
  | closing (hnd : ι)
  deriving DecidableEq

/-- `ι` is the type of the handles other than `NULL`, and `τ` that of the threads. -/
structure EpollWrapper (ι τ : Type*) where
  /-- the map `s_epollfds`, in the order of its keys -/
  epollfds : List (Int × ι)
  pc : τ → EpollPc ι
  /-- the open instance of each handle -/
  instances : ι → Option Nat
  /-- the number of instances that have been created -/
  created : Nat
  /-- the calls of `get_fd` -/
  entered : Nat
  /-- the instances that have been closed -/
  closed : List Nat
  /-- the handles that were closed when no instance had them -/
  stale : List ι
  /-- the calls of the system, each with the instance that it was meant for and the one that had the handle -/
  calls : List (Option Nat × Option Nat)

inductive EpollAction (ι τ : Type*) where
  /-- the system creates an instance and gives its handle, or it fails -/
  | create (t : τ) (hnd : Option ι)
  | getFd (t : τ)
  | getHnd (t : τ) (fd : Int)
  /-- `epoll_ctl` or `epoll_wait` of the system -/
  | call (t : τ)
  | removeFd (t : τ) (fd : Int)
  /-- `epoll_close` of the system -/
  | close (t : τ)

namespace EpollWrapper

variable {ι τ : Type*}

/-- `s_epollfds[fd] = hnd` -/
def assign (fd : Int) (hnd : ι) : List (Int × ι) → List (Int × ι)
  | [] => [(fd, hnd)]
  | node :: nodes =>
    if fd < node.1 then (fd, hnd) :: node :: nodes
    else if fd = node.1 then (fd, hnd) :: nodes
    else node :: assign fd hnd nodes

/-- The number that `get_fd` gives to a handle, an `int`. -/
def newFd (epollfds : List (Int × ι)) : Int :=
  let fdMin := (epollfds.head?.map Prod.fst).getD 0
  let fdMax := (epollfds.getLast?.map Prod.fst).getD 0
  (max fdMin fdMax + 1).bmod (2 ^ 32)

def find (fd : Int) (epollfds : List (Int × ι)) : Option (Int × ι) :=
  epollfds.find? fun node => node.1 = fd

variable [DecidableEq ι] [DecidableEq τ]

def init : EpollWrapper ι τ :=
  { epollfds := [], pc := fun _ => .idle, instances := fun _ => none, created := 0, entered := 0, closed := [],
    stale := [], calls := [] }

def setPc (s : EpollWrapper ι τ) (t : τ) (pc : EpollPc ι) : EpollWrapper ι τ :=
  { s with pc := Function.update s.pc t pc }

def step (s : EpollWrapper ι τ) : EpollAction ι τ → Option (EpollWrapper ι τ)
  | .create t none => if s.pc t = .idle then some s else none
  | .create t (some hnd) =>
    if s.pc t = .idle ∧ s.instances hnd = none then
      some { s.setPc t (.entering hnd) with
        instances := Function.update s.instances hnd (some s.created)
        created := s.created + 1 }
    else none
  | .getFd t =>
    match s.pc t with
    | .entering hnd => some { s.setPc t .idle with
        epollfds := assign (newFd s.epollfds) hnd s.epollfds
        entered := s.entered + 1 }
    | _ => none
  | .getHnd t fd =>
    if s.pc t = .idle then
      match find fd s.epollfds with
      | none => some s
      | some node => some (s.setPc t (.calling node.2 (s.instances node.2)))
    else none
  | .call t =>
    match s.pc t with
    | .calling hnd inst => some { s.setPc t .idle with calls := s.calls ++ [(inst, s.instances hnd)] }
    | _ => none
  | .removeFd t fd =>
    if s.pc t = .idle then
      match find fd s.epollfds with
      | none => some s
      | some node => some { s.setPc t (.closing node.2) with
          epollfds := s.epollfds.filter fun node' => node'.1 ≠ node.1 }
    else none
  | .close t =>
    match s.pc t with
    | .closing hnd =>
      match s.instances hnd with
      | some inst => some { s.setPc t .idle with
          instances := Function.update s.instances hnd none
          closed := s.closed ++ [inst] }
      | none => some { s.setPc t .idle with stale := s.stale ++ [hnd] }
    | _ => none

end EpollWrapper

inductive EpollOwner (τ : Type*) where
  | entry (fd : Int)
  | entering (t : τ)
  | closing (t : τ)
  deriving DecidableEq

namespace EpollWrapper

variable {ι τ : Type*}

def Owns (s : EpollWrapper ι τ) (hnd : ι) : EpollOwner τ → Prop
  | .entry fd => (fd, hnd) ∈ s.epollfds
  | .entering t => s.pc t = .entering hnd
  | .closing t => s.pc t = .closing hnd

/-- No instance is closed while a thread has its handle for a call. -/
def ClosesUnused (s : EpollWrapper ι τ) : EpollAction ι τ → Prop
  | .close t => ∀ hnd, s.pc t = .closing hnd → ∀ t' inst, s.pc t' ≠ .calling hnd inst
  | _ => True

end EpollWrapper

/-! ### The table -/

namespace EpollWrapper

variable {ι τ : Type*}

/-- The numbers are positive and ascend, and they are no more than there have been calls of `get_fd`. -/
structure Numbered (entered : Nat) (epollfds : List (Int × ι)) : Prop where
  sorted : epollfds.Pairwise fun a b => a.1 < b.1
  pos : ∀ node ∈ epollfds, 0 < node.1
  le : ∀ node ∈ epollfds, node.1 ≤ entered

private theorem assign_of_lt {fd : Int} (hnd : ι) {epollfds : List (Int × ι)} (h : ∀ node ∈ epollfds, node.1 < fd) :
    assign fd hnd epollfds = epollfds ++ [(fd, hnd)] := by
  induction epollfds with
  | nil => rfl
  | cons node nodes ih =>
    obtain ⟨hnode, hnodes⟩ := List.forall_mem_cons.1 h
    rw [assign, if_neg (by omega), if_neg (by omega), ih hnodes, List.cons_append]

private theorem Numbered.newFd {entered : Nat} {epollfds : List (Int × ι)} (h : Numbered entered epollfds)
    (hfew : entered + 1 < 2 ^ 31) :
    (∀ node ∈ epollfds, node.1 < newFd epollfds) ∧ 0 < EpollWrapper.newFd epollfds ∧
      EpollWrapper.newFd epollfds ≤ (entered + 1 : Nat) := by
  rcases epollfds.eq_nil_or_concat with rfl | ⟨nodes, last, rfl⟩
  · have hone : EpollWrapper.newFd ([] : List (Int × ι)) = 1 := rfl
    refine ⟨List.forall_mem_nil _, ?_, ?_⟩ <;> omega
  · rw [List.concat_eq_append] at h ⊢
    have hlast : last ∈ nodes ++ [last] := List.mem_append_right _ (List.mem_singleton_self last)
    obtain ⟨first, hfirst⟩ : ∃ first, (nodes ++ [last]).head? = some first := by
      cases nodes with
      | nil => exact ⟨last, rfl⟩
      | cons node nodes => exact ⟨node, rfl⟩
    have hmem : first ∈ nodes ++ [last] := List.mem_of_mem_head? hfirst
    have hmax : ∀ node ∈ nodes ++ [last], node.1 ≤ last.1 := by
      intro node hnode
      rcases List.mem_append.1 hnode with hnode | hnode
      · exact Int.le_of_lt ((List.pairwise_append.1 h.sorted).2.2 node hnode last (List.mem_singleton_self last))
      · exact Int.le_of_eq (congrArg Prod.fst (List.mem_singleton.1 hnode))
    have hpos := h.pos last hlast
    have hle := h.le last hlast
    have hnew : EpollWrapper.newFd (nodes ++ [last]) = last.1 + 1 := by
      simp only [EpollWrapper.newFd, hfirst, List.getLast?_append, List.getLast?_singleton, Option.some_or,
        Option.map_some, Option.getD_some]
      rw [Int.max_eq_right (hmax first hmem), Int.bmod_eq_of_le] <;> omega
    rw [hnew]
    refine ⟨fun node hnode => ?_, ?_, ?_⟩
    · have hnode := hmax node hnode
      omega
    · omega
    · omega

theorem Numbered.assign {entered : Nat} {epollfds : List (Int × ι)} (h : Numbered entered epollfds)
    (hfew : entered + 1 < 2 ^ 31) (hnd : ι) :
    EpollWrapper.assign (EpollWrapper.newFd epollfds) hnd epollfds = epollfds ++ [(EpollWrapper.newFd epollfds, hnd)] ∧
      Numbered (entered + 1) (epollfds ++ [(EpollWrapper.newFd epollfds, hnd)]) := by
  obtain ⟨hlt, hpos, hle⟩ := h.newFd hfew
  refine ⟨assign_of_lt hnd hlt, ?_, ?_, ?_⟩
  · refine List.pairwise_append.2 ⟨h.sorted, List.pairwise_singleton _ _, fun node hnode node' hnode' => ?_⟩
    rw [List.mem_singleton.1 hnode']
    exact hlt node hnode
  · intro node hnode
    rcases List.mem_append.1 hnode with hnode | hnode
    · exact h.pos node hnode
    · rw [List.mem_singleton.1 hnode]
      exact hpos
  · intro node hnode
    rcases List.mem_append.1 hnode with hnode | hnode
    · have hold := h.le node hnode
      omega
    · rw [List.mem_singleton.1 hnode]
      exact hle

theorem Numbered.filter {entered : Nat} {epollfds : List (Int × ι)} (h : Numbered entered epollfds)
    (p : Int × ι → Bool) : Numbered entered (epollfds.filter p) where
  sorted := h.sorted.filter p
  pos node hnode := h.pos node (List.mem_filter.1 hnode).1
  le node hnode := h.le node (List.mem_filter.1 hnode).1

/-- No two entries have the same number. -/
theorem Numbered.unique {entered : Nat} {epollfds : List (Int × ι)} (h : Numbered entered epollfds)
    {node node' : Int × ι} (hnode : node ∈ epollfds) (hnode' : node' ∈ epollfds) (heq : node.1 = node'.1) :
    node = node' := by
  have hnodup : (epollfds.map Prod.fst).Nodup :=
    List.pairwise_map.2 (h.sorted.imp fun hab => Int.ne_of_lt hab)
  exact List.inj_on_of_nodup_map hnodup hnode hnode' heq

private theorem find_eq_some {fd : Int} {epollfds : List (Int × ι)} {node : Int × ι}
    (h : find fd epollfds = some node) : node ∈ epollfds ∧ node.1 = fd :=
  ⟨List.mem_of_find?_eq_some h, by simpa using List.find?_some h⟩

/-! ### What holds in every state -/

structure Sound (s : EpollWrapper ι τ) : Prop where
  numbered : Numbered s.entered s.epollfds
  owned : Exclusive s.Owns fun hnd => s.instances hnd ≠ none
  created : ∀ hnd inst, s.instances hnd = some inst → inst < s.created ∧ inst ∉ s.closed
  apart : ∀ hnd hnd' inst, s.instances hnd = some inst → s.instances hnd' = some inst → hnd = hnd'
  once : s.closed.Nodup
  closed : ∀ inst ∈ s.closed, inst < s.created
  kept : ∀ inst < s.created, inst ∈ s.closed ∨ ∃ hnd, s.instances hnd = some inst
  stale : s.stale = []

theorem Sound.init [DecidableEq ι] [DecidableEq τ] : Sound (init : EpollWrapper ι τ) where
  numbered := ⟨.nil, List.forall_mem_nil _, List.forall_mem_nil _⟩
  owned := by
    refine ⟨fun hnd => iff_of_false (by simp [EpollWrapper.init]) ?_, fun hnd o o' ho => ?_⟩
    · rintro ⟨o, ho⟩
      cases o <;> simp [Owns, EpollWrapper.init] at ho
    · cases o <;> simp [Owns, EpollWrapper.init] at ho
  created := by simp [EpollWrapper.init]
  apart := by simp [EpollWrapper.init]
  once := List.nodup_nil
  closed := List.forall_mem_nil _
  kept := by simp [EpollWrapper.init]
  stale := rfl

variable [DecidableEq ι] [DecidableEq τ] {s s' : EpollWrapper ι τ} {t : τ}

omit [DecidableEq ι] in
private theorem owns_setPc (pc : EpollPc ι) (hpc : ∀ hnd, s.pc t ≠ .entering hnd ∧ s.pc t ≠ .closing hnd)
    (hpc' : ∀ hnd, pc ≠ .entering hnd ∧ pc ≠ .closing hnd) (hnd : ι) (o : EpollOwner τ) :
    (s.setPc t pc).Owns hnd o ↔ s.Owns hnd o := by
  cases o with
  | entry fd => exact Iff.rfl
  | entering t' =>
    by_cases ht : t' = t
    · subst ht
      simp [Owns, setPc, (hpc hnd).1, (hpc' hnd).1]
    · simp [Owns, setPc, ht]
  | closing t' =>
    by_cases ht : t' = t
    · subst ht
      simp [Owns, setPc, (hpc hnd).2, (hpc' hnd).2]
    · simp [Owns, setPc, ht]

omit [DecidableEq ι] [DecidableEq τ] in
/-- A step that changes neither the owners nor the instances. -/
theorem Sound.congr (h : Sound s) (hfds : s'.epollfds = s.epollfds) (hentered : s'.entered = s.entered)
    (hinstances : s'.instances = s.instances) (hcreated : s'.created = s.created) (hclosed : s'.closed = s.closed)
    (hstale : s'.stale = s.stale) (howns : ∀ hnd o, s'.Owns hnd o ↔ s.Owns hnd o) : Sound s' where
  numbered := by
    rw [hfds, hentered]
    exact h.numbered
  owned := by
    rw [hinstances]
    exact h.owned.congr (fun _ => Iff.rfl) howns
  created := by
    rw [hinstances, hcreated, hclosed]
    exact h.created
  apart := by
    rw [hinstances]
    exact h.apart
  once := by
    rw [hclosed]
    exact h.once
  closed := by
    rw [hcreated, hclosed]
    exact h.closed
  kept := by
    rw [hcreated, hclosed, hinstances]
    exact h.kept
  stale := by
    rw [hstale]
    exact h.stale

theorem sound_create {hnd : Option ι} (h : Sound s) (hstep : s.step (.create t hnd) = some s') : Sound s' := by
  cases hnd with
  | none =>
    obtain ⟨-, heq⟩ := Option.ite_none_right_eq_some.1 hstep
    exact Option.some.inj heq ▸ h
  | some hnd =>
    obtain ⟨⟨hpc, hfree⟩, heq⟩ := Option.ite_none_right_eq_some.1 hstep
    obtain rfl := Option.some.inj heq
    have hother : ∀ y inst, Function.update s.instances hnd (some s.created) y = some inst →
        y = hnd ∧ inst = s.created ∨ y ≠ hnd ∧ s.instances y = some inst := by
      intro y inst hy
      by_cases heq : y = hnd
      · subst heq
        exact .inl ⟨rfl, by simpa using hy.symm⟩
      · exact .inr ⟨heq, by simpa [heq] using hy⟩
    refine ⟨h.numbered, h.owned.acquire (.entering t) (not_not_intro hfree) (fun y => ?_) fun y o => ?_,
      fun y inst hy => ?_, fun y y' inst hy hy' => ?_, h.once, fun inst hinst => ?_, fun inst hinst => ?_, h.stale⟩
    · by_cases hy : y = hnd <;> simp [hy]
    · cases o with
      | entry fd => simp [Owns, setPc]
      | entering t' =>
        by_cases ht : t' = t
        · subst ht
          simp [Owns, setPc, hpc, eq_comm]
        · simp [Owns, setPc, ht]
      | closing t' =>
        by_cases ht : t' = t
        · subst ht
          simp [Owns, setPc, hpc]
        · simp [Owns, setPc, ht]
    · rcases hother y inst hy with ⟨-, rfl⟩ | ⟨-, hold⟩
      · exact ⟨Nat.lt_succ_self _, fun hmem => Nat.lt_irrefl _ (h.closed _ hmem)⟩
      · exact ⟨Nat.lt_succ_of_lt (h.created y inst hold).1, (h.created y inst hold).2⟩
    · rcases hother y inst hy with ⟨rfl, hnew⟩ | ⟨-, hold⟩ <;>
        rcases hother y' inst hy' with ⟨rfl, hnew'⟩ | ⟨-, hold'⟩
      · rfl
      · exact absurd (h.created y' inst hold').1 (by omega)
      · exact absurd (h.created y inst hold).1 (by omega)
      · exact h.apart y y' inst hold hold'
    · exact Nat.lt_succ_of_lt (h.closed inst hinst)
    · rcases Nat.lt_succ_iff_lt_or_eq.1 hinst with hold | rfl
      · rcases h.kept inst hold with hclosed | ⟨y, hy⟩
        · exact .inl hclosed
        · have hne : y ≠ hnd := fun heq => by simp [heq, hfree] at hy
          exact .inr ⟨y, by simpa [hne] using hy⟩
      · exact .inr ⟨hnd, Function.update_self _ _ _⟩

private theorem sound_getFd (h : Sound s) (hfew : s'.entered < 2 ^ 31) (hstep : s.step (.getFd t) = some s') :
    Sound s' := by
  cases hpc : s.pc t with
  | idle => simp [step, hpc] at hstep
  | calling hnd inst => simp [step, hpc] at hstep
  | closing hnd => simp [step, hpc] at hstep
  | entering hnd =>
    simp only [step, hpc, Option.some.injEq] at hstep
    subst hstep
    obtain ⟨hassign, hnumbered⟩ := h.numbered.assign hfew hnd
    rw [hassign]
    have howns : s.Owns hnd (.entering t) := hpc
    refine ⟨hnumbered, h.owned.move (.entry (newFd s.epollfds)) howns fun y o => ?_,
      h.created, h.apart, h.once, h.closed, h.kept, h.stale⟩
    cases o with
    | entry fd =>
      simp only [Owns, List.mem_append, List.mem_singleton, Prod.mk.injEq, EpollOwner.entry.injEq]
      constructor
      · rintro (hold | ⟨hfd, hy⟩)
        · exact .inr ⟨by simp, hold⟩
        · exact .inl ⟨hy, hfd⟩
      · rintro (⟨hy, hfd⟩ | ⟨-, hold⟩)
        · exact .inr ⟨hfd, hy⟩
        · exact .inl hold
    | entering t' =>
      by_cases ht : t' = t
      · subst ht
        simp [Owns, setPc, hpc, eq_comm]
      · simp [Owns, setPc, ht]
    | closing t' =>
      by_cases ht : t' = t
      · subst ht
        simp [Owns, setPc, hpc]
      · simp [Owns, setPc, ht]

private theorem sound_getHnd {fd : Int} (h : Sound s) (hstep : s.step (.getHnd t fd) = some s') : Sound s' := by
  obtain ⟨hpc, heq⟩ := Option.ite_none_right_eq_some.1 hstep
  cases hfind : find fd s.epollfds with
  | none =>
    rw [hfind] at heq
    exact Option.some.inj heq ▸ h
  | some node =>
    rw [hfind] at heq
    obtain rfl := Option.some.inj heq
    exact h.congr rfl rfl rfl rfl rfl rfl (owns_setPc _ (by simp [hpc]) (by simp))

theorem sound_call (h : Sound s) (hstep : s.step (.call t) = some s') : Sound s' := by
  cases hpc : s.pc t with
  | idle => simp [step, hpc] at hstep
  | entering hnd => simp [step, hpc] at hstep
  | closing hnd => simp [step, hpc] at hstep
  | calling hnd inst =>
    simp only [step, hpc, Option.some.injEq] at hstep
    subst hstep
    have howns := owns_setPc (s := s) (t := t) .idle (by simp [hpc]) (by simp)
    exact h.congr rfl rfl rfl rfl rfl rfl howns

private theorem sound_removeFd {fd : Int} (h : Sound s) (hstep : s.step (.removeFd t fd) = some s') : Sound s' := by
  obtain ⟨hpc, heq⟩ := Option.ite_none_right_eq_some.1 hstep
  cases hfind : find fd s.epollfds with
  | none =>
    rw [hfind] at heq
    exact Option.some.inj heq ▸ h
  | some node =>
    rw [hfind] at heq
    obtain rfl := Option.some.inj heq
    obtain ⟨hnode, -⟩ := find_eq_some hfind
    have howns : s.Owns node.2 (.entry node.1) := hnode
    refine ⟨h.numbered.filter _, h.owned.move (.closing t) howns fun y o => ?_,
      h.created, h.apart, h.once, h.closed, h.kept, h.stale⟩
    cases o with
    | entry fd' =>
      have honly : (fd', y) ∈ s.epollfds → fd' = node.1 → y = node.2 :=
        fun hmem hfd => congrArg Prod.snd (h.numbered.unique hmem hnode hfd)
      simp only [Owns, List.mem_filter, decide_eq_true_eq, EpollOwner.entry.injEq, reduceCtorEq]
      tauto
    | entering t' =>
      by_cases ht : t' = t
      · subst ht
        simp [Owns, setPc, hpc]
      · simp [Owns, setPc, ht]
    | closing t' =>
      by_cases ht : t' = t
      · subst ht
        simp [Owns, setPc, hpc, eq_comm]
      · simp [Owns, setPc, ht]

private theorem sound_close (h : Sound s) (hstep : s.step (.close t) = some s') : Sound s' := by
  cases hpc : s.pc t with
  | idle => simp [step, hpc] at hstep
  | entering hnd => simp [step, hpc] at hstep
  | calling hnd inst => simp [step, hpc] at hstep
  | closing hnd =>
    have howns : s.Owns hnd (.closing t) := hpc
    obtain ⟨inst, hinst⟩ := Option.ne_none_iff_exists'.1 ((h.owned.held_iff hnd).2 ⟨_, howns⟩)
    simp only [step, hpc, hinst, Option.some.injEq] at hstep
    subst hstep
    have hother : ∀ y i, Function.update s.instances hnd none y = some i → s.instances y = some i ∧ i ≠ inst := by
      intro y i hy
      by_cases heq : y = hnd
      · simp [heq] at hy
      · have hold : s.instances y = some i := by simpa [heq] using hy
        refine ⟨hold, fun hi => heq (h.apart y hnd inst (hi ▸ hold) hinst)⟩
    refine ⟨h.numbered, h.owned.release howns (fun y => ?_) fun y o => ?_,
      fun y i hy => ?_, fun y y' i hy hy' => ?_, ?_, fun i hi => ?_, fun i hi => ?_, h.stale⟩
    · by_cases hy : y = hnd <;> simp [hy]
    · cases o with
      | entry fd => simp [Owns, setPc]
      | entering t' =>
        by_cases ht : t' = t
        · subst ht
          simp [Owns, setPc, hpc]
        · simp [Owns, setPc, ht]
      | closing t' =>
        by_cases ht : t' = t
        · subst ht
          simp [Owns, setPc, hpc, eq_comm]
        · simp [Owns, setPc, ht]
    · obtain ⟨hold, hne⟩ := hother y i hy
      refine ⟨(h.created y i hold).1, ?_⟩
      simp [(h.created y i hold).2, hne]
    · exact h.apart y y' i (hother y i hy).1 (hother y' i hy').1
    · refine List.nodup_append.2 ⟨h.once, List.nodup_singleton inst, fun i hi j hj heq => ?_⟩
      rw [List.mem_singleton.1 hj] at heq
      exact (h.created hnd inst hinst).2 (heq ▸ hi)
    · rcases List.mem_append.1 hi with hi | hi
      · exact h.closed i hi
      · rw [List.mem_singleton.1 hi]
        exact (h.created hnd inst hinst).1
    · by_cases heq : i = inst
      · exact .inl (List.mem_append_right _ (by simp [heq]))
      · rcases h.kept i hi with hclosed | ⟨y, hy⟩
        · exact .inl (List.mem_append_left _ hclosed)
        · have hne : y ≠ hnd := fun hyx => heq (Option.some.inj (by rw [← hy, hyx, hinst]))
          exact .inr ⟨y, by simpa [hne] using hy⟩

theorem sound_step {a : EpollAction ι τ} (h : Sound s) (hfew : s'.entered < 2 ^ 31) (hstep : s.step a = some s') :
    Sound s' := by
  cases a with
  | create t hnd => exact sound_create h hstep
  | getFd t => exact sound_getFd h hfew hstep
  | getHnd t fd => exact sound_getHnd h hstep
  | call t => exact sound_call h hstep
  | removeFd t fd => exact sound_removeFd h hstep
  | close t => exact sound_close h hstep

private theorem entered_le {a : EpollAction ι τ} (hstep : s.step a = some s') : s.entered ≤ s'.entered := by
  cases a with
  | create t hnd =>
    cases hnd with
    | none =>
      obtain ⟨-, heq⟩ := Option.ite_none_right_eq_some.1 hstep
      obtain rfl := Option.some.inj heq
      exact Nat.le_refl _
    | some hnd =>
      obtain ⟨-, heq⟩ := Option.ite_none_right_eq_some.1 hstep
      obtain rfl := Option.some.inj heq
      exact Nat.le_refl _
  | getFd t =>
    simp only [step] at hstep
    split at hstep
    · obtain rfl := Option.some.inj hstep
      exact Nat.le_succ _
    · cases hstep
  | getHnd t fd =>
    obtain ⟨-, heq⟩ := Option.ite_none_right_eq_some.1 hstep
    split at heq
    · obtain rfl := Option.some.inj heq
      exact Nat.le_refl _
    · obtain rfl := Option.some.inj heq
      exact Nat.le_refl _
  | call t =>
    simp only [step] at hstep
    split at hstep
    · obtain rfl := Option.some.inj hstep
      exact Nat.le_refl _
    · cases hstep
  | removeFd t fd =>
    obtain ⟨-, heq⟩ := Option.ite_none_right_eq_some.1 hstep
    split at heq
    · obtain rfl := Option.some.inj heq
      exact Nat.le_refl _
    · obtain rfl := Option.some.inj heq
      exact Nat.le_refl _
  | close t =>
    simp only [step] at hstep
    split at hstep
    · split at hstep
      · obtain rfl := Option.some.inj hstep
        exact Nat.le_refl _
      · obtain rfl := Option.some.inj hstep
        exact Nat.le_refl _
    · cases hstep

/-! ### The calls -/

/-- The instance that a call was meant for has the handle, and so it was in the calls that have been made. -/
structure CallsMeant (s : EpollWrapper ι τ) : Prop where
  calling : ∀ t hnd inst, s.pc t = .calling hnd inst → s.instances hnd = inst ∧ inst ≠ none
  calls : ∀ call ∈ s.calls, call.2 = call.1 ∧ call.1 ≠ none

omit [DecidableEq ι] in
/-- The thread of a step goes on, and the handles of the others stay open. -/
private theorem CallsMeant.setPc {s : EpollWrapper ι τ} (h : CallsMeant s) {pc : EpollPc ι} {instances : ι → Option Nat}
    (hpc : ∀ hnd inst, pc = .calling hnd inst → instances hnd = inst ∧ inst ≠ none)
    (hinstances : ∀ t' hnd inst, s.pc t' = .calling hnd inst → instances hnd = s.instances hnd) (t' : τ) (hnd : ι)
    (inst : Option Nat) (ht' : (s.setPc t pc).pc t' = .calling hnd inst) : instances hnd = inst ∧ inst ≠ none := by
  by_cases ht : t' = t
  · subst ht
    simp only [EpollWrapper.setPc, Function.update_self] at ht'
    exact hpc hnd inst ht'
  · simp only [EpollWrapper.setPc, Function.update_of_ne ht] at ht'
    obtain ⟨hopen, hsome⟩ := h.calling t' hnd inst ht'
    exact ⟨(hinstances t' hnd inst ht').trans hopen, hsome⟩

private theorem callsMeant_step {a : EpollAction ι τ} (hs : Sound s) (h : CallsMeant s) (ha : s.ClosesUnused a)
    (hstep : s.step a = some s') : CallsMeant s' := by
  cases a with
  | create t hnd =>
    cases hnd with
    | none =>
      obtain ⟨-, heq⟩ := Option.ite_none_right_eq_some.1 hstep
      exact Option.some.inj heq ▸ h
    | some hnd =>
      obtain ⟨⟨-, hfree⟩, heq⟩ := Option.ite_none_right_eq_some.1 hstep
      obtain rfl := Option.some.inj heq
      refine ⟨h.setPc (by simp) fun t' y inst hy => ?_, h.calls⟩
      obtain ⟨hopen, hsome⟩ := h.calling t' y inst hy
      have hne : y ≠ hnd := fun heq => hsome (by rw [← hopen, heq, hfree])
      exact Function.update_of_ne hne _ _
  | getFd t =>
    simp only [step] at hstep
    split at hstep
    · obtain rfl := Option.some.inj hstep
      exact ⟨h.setPc (by simp) fun _ _ _ _ => rfl, h.calls⟩
    · cases hstep
  | getHnd t fd =>
    obtain ⟨-, heq⟩ := Option.ite_none_right_eq_some.1 hstep
    cases hfind : find fd s.epollfds with
    | none =>
      rw [hfind] at heq
      exact Option.some.inj heq ▸ h
    | some node =>
      rw [hfind] at heq
      obtain rfl := Option.some.inj heq
      have hopen : s.instances node.2 ≠ none :=
        (hs.owned.held_iff node.2).2 ⟨.entry node.1, (find_eq_some hfind).1⟩
      refine ⟨h.setPc (fun hnd inst hpc => ?_) fun _ _ _ _ => rfl, h.calls⟩
      obtain ⟨rfl, rfl⟩ := EpollPc.calling.inj hpc
      exact ⟨rfl, hopen⟩
  | call t =>
    cases hpc : s.pc t with
    | idle => simp [step, hpc] at hstep
    | entering hnd => simp [step, hpc] at hstep
    | closing hnd => simp [step, hpc] at hstep
    | calling hnd inst =>
      simp only [step, hpc, Option.some.injEq] at hstep
      subst hstep
      refine ⟨h.setPc (by simp) fun _ _ _ _ => rfl, fun call hcall => ?_⟩
      rcases List.mem_append.1 hcall with hcall | hcall
      · exact h.calls call hcall
      · rw [List.mem_singleton.1 hcall]
        exact h.calling t hnd inst hpc
  | removeFd t fd =>
    obtain ⟨-, heq⟩ := Option.ite_none_right_eq_some.1 hstep
    cases hfind : find fd s.epollfds with
    | none =>
      rw [hfind] at heq
      exact Option.some.inj heq ▸ h
    | some node =>
      rw [hfind] at heq
      obtain rfl := Option.some.inj heq
      exact ⟨h.setPc (by simp) fun _ _ _ _ => rfl, h.calls⟩
  | close t =>
    cases hpc : s.pc t with
    | idle => simp [step, hpc] at hstep
    | entering hnd => simp [step, hpc] at hstep
    | calling hnd inst => simp [step, hpc] at hstep
    | closing hnd =>
      simp only [step, hpc] at hstep
      split at hstep
      · obtain rfl := Option.some.inj hstep
        refine ⟨h.setPc (by simp) fun t' y inst hy => ?_, h.calls⟩
        have hne : y ≠ hnd := fun heq => ha hnd hpc t' inst (heq ▸ hy)
        exact Function.update_of_ne hne _ _
      · obtain rfl := Option.some.inj hstep
        exact ⟨h.setPc (by simp) fun _ _ _ _ => rfl, h.calls⟩

/-! ### Whole runs -/

/-- In every run with fewer than `2 ^ 31` numbers, each instance that has been created is open or has been closed once,
nothing but open instances has been closed, and an open instance has one owner; the numbers in the table are positive
and different.  If no instance is closed while a thread has its handle for a call, then each call has gone to the
instance that its number stood for. -/
theorem instances_owned (as : List (EpollAction ι τ)) (s : EpollWrapper ι τ)
    (hrun : Transition.exec step init as = some s) (hfew : s.entered < 2 ^ 31) :
    (∀ inst < s.created, inst ∈ s.closed ∨ ∃ hnd, s.instances hnd = some inst) ∧
      s.closed.Nodup ∧ (∀ hnd inst, s.instances hnd = some inst → inst ∉ s.closed) ∧ s.stale = [] ∧
      (∀ hnd, s.instances hnd ≠ none ↔ ∃! o, s.Owns hnd o) ∧
      (s.epollfds.Pairwise fun a b => a.1 < b.1) ∧ (∀ node ∈ s.epollfds, 0 < node.1) ∧
      (Transition.Along step ClosesUnused init as → ∀ call ∈ s.calls, call.2 = call.1 ∧ call.1 ≠ none) := by
  have hstep : ∀ (s : EpollWrapper ι τ) (a : EpollAction ι τ) (s' : EpollWrapper ι τ),
      (s.entered < 2 ^ 31 → Sound s) → s.step a = some s' → s'.entered < 2 ^ 31 → Sound s' :=
    fun _ _ _ h hst hlt => sound_step (h (Nat.lt_of_le_of_lt (entered_le hst) hlt)) hlt hst
  have hsound : Sound s := Transition.exec_invariant hstep (fun _ => .init) hrun hfew
  refine ⟨hsound.kept, hsound.once, fun hnd inst h => (hsound.created hnd inst h).2, hsound.stale, fun hnd => ?_,
    hsound.numbered.sorted, hsound.numbered.pos, fun hunused => ?_⟩
  · rw [hsound.owned.held_iff hnd]
    constructor
    · rintro ⟨o, ho⟩
      exact ⟨o, ho, fun o' ho' => hsound.owned.unique hnd o' o ho' ho⟩
    · rintro ⟨o, ho, -⟩
      exact ⟨o, ho⟩
  · have hboth : ∀ (s : EpollWrapper ι τ) (a : EpollAction ι τ) (s' : EpollWrapper ι τ),
        (s.entered < 2 ^ 31 → Sound s ∧ CallsMeant s) → s.ClosesUnused a → s.step a = some s' →
        s'.entered < 2 ^ 31 → Sound s' ∧ CallsMeant s' := by
      intro s a s' h ha hst hlt
      obtain ⟨hs, hcalls⟩ := h (Nat.lt_of_le_of_lt (entered_le hst) hlt)
      exact ⟨sound_step hs hlt hst, callsMeant_step hs hcalls ha hst⟩
    have hinit : CallsMeant (init : EpollWrapper ι τ) := ⟨by simp [init], List.forall_mem_nil _⟩
    exact (Transition.exec_invariant_along hboth (fun _ => ⟨.init, hinit⟩) hunused hrun hfew).2.calls

/-- Two threads create an instance each, and the second one closes what the first one has entered; the system gives
the handle again. -/
def handleReused : List (EpollAction Nat Nat) :=
  [.create 0 (some 8), .create 1 (some 9), .getFd 0, .getFd 1, .getHnd 0 2, .call 0, .removeFd 1 1, .close 1,
    .create 2 (some 8), .getFd 2, .getHnd 1 3, .call 1]

theorem instances_owned_handleReused :
    ∃ s, Transition.exec step init handleReused = some s ∧ s.epollfds = [(2, 9), (3, 8)] ∧
      s.calls = [(some 1, some 1), (some 2, some 2)] ∧ s.stale = [] :=
  ⟨_, rfl, rfl, rfl, (instances_owned handleReused _ rfl (by decide)).2.2.2.1⟩

end EpollWrapper

end AvcTool
