import AvcTool.Lib.Ownership
import AvcTool.Network.Rebind

/-!
# Who closes the descriptor of a socket

The descriptor that `bindUdpSocket` opens belongs to a `SockFD`, which `sock_fd_` and, until it returns, `fromSockFd`
refer to.  When the last reference goes, the thread that has given it up detaches and closes the descriptor.

In every interleaving of any number of threads in `bindUdpSocket` with the poller, each open descriptor has one owner:
its `SockFD`, or one thread that is about to close it.  So no descriptor is closed twice, also when the system gives its
number again, and when no call is running the socket has one open descriptor at most (`descriptors_owned`).
-/

namespace AvcTool

inductive FdOwner where
  /-- its `SockFD`, when the last reference goes -/
  | sockFd
  | closing (t : Thread)
  deriving DecidableEq

namespace Rebind

def Owns (s : Rebind) (fd : FD) : FdOwner → Prop
  | .sockFd => s.sockFd = some fd ∨ fd ∈ s.locals
  | .closing t => .closeFd fd ∈ s.threads t

/-- Of two operations in this order, the second closes a descriptor only behind its detachment, and the first is not
the end of `fromSockFd`. -/
def BindOrder (a b : BindOp) : Prop :=
  (∀ fd, b = .closeFd fd → ∃ fd', a = .detachEvent fd') ∧ ∀ fd, a ≠ .leave fd

structure BindOps (ops : List BindOp) : Prop where
  order : ops.Pairwise BindOrder
  /-- `fromSockFd` keeps its `SockFD` until it returns -/
  keeps : ∀ fd, .setSocketFD fd ∈ ops → .leave fd ∈ ops

structure FdSound (s : Rebind) : Prop where
  owned : Exclusive s.Owns (· ∈ s.openFds)
  ops : ∀ t, BindOps (s.threads t)
  locals_iff : ∀ fd, fd ∈ s.locals ↔ ∃ t, .leave fd ∈ s.threads t
  leave_unique : ∀ fd t t', .leave fd ∈ s.threads t → .leave fd ∈ s.threads t' → t = t'

/-! ### The operations of a thread -/

theorem BindOps.nil : BindOps [] := ⟨.nil, by simp⟩

theorem BindOps.bindUdpSocket (fd : FD) : BindOps [.closeSocket, .setSocketFD fd, .attachEvent fd, .leave fd] := by
  refine ⟨?_, by simp⟩
  simp [BindOrder]

theorem BindOps.tail {op : BindOp} {ops : List BindOp} (h : BindOps (op :: ops)) (hop : ∀ fd, op ≠ .leave fd) :
    BindOps ops := by
  refine ⟨(List.pairwise_cons.1 h.order).2, fun fd hfd => ?_⟩
  rcases List.mem_cons.1 (h.keeps fd (List.mem_cons_of_mem op hfd)) with heq | hmem
  · exact absurd heq.symm (hop fd)
  · exact hmem

/-- Nothing comes behind the end of `fromSockFd`. -/
private theorem BindOps.eq_nil_of_leave {fd : FD} {ops : List BindOp} (h : BindOps (.leave fd :: ops)) : ops = [] := by
  cases ops with
  | nil => rfl
  | cons op ops => exact absurd rfl (((List.pairwise_cons.1 h.order).1 op List.mem_cons_self).2 fd)

/-- A descriptor is closed right behind its detachment. -/
private theorem BindOps.closeFd_notMem {op : BindOp} {ops : List BindOp} (h : BindOps (op :: ops))
    (hop : ∀ fd, op ≠ .detachEvent fd) (fd : FD) : .closeFd fd ∉ ops := by
  intro hmem
  obtain ⟨fd', heq⟩ := ((List.pairwise_cons.1 h.order).1 _ hmem).1 fd rfl
  exact hop fd' heq

/-- The last reference to a `SockFD` has gone. -/
theorem BindOps.close {ops : List BindOp} (h : BindOps ops) (hclose : ∀ fd, .closeFd fd ∉ ops) (fd : FD) :
    BindOps (.detachEvent fd :: .closeFd fd :: ops) := by
  have horder : ∀ a, (∀ fd, a ≠ .leave fd) → ∀ b ∈ ops, BindOrder a b := by
    refine fun a ha b hb => ⟨fun fd hfd => ?_, ha⟩
    exact absurd (hfd ▸ hb) (hclose fd)
  refine ⟨List.pairwise_cons.2 ⟨?_, List.pairwise_cons.2 ⟨horder _ (by simp), h.order⟩⟩, fun fd' hfd' => ?_⟩
  · intro b hb
    rcases List.mem_cons.1 hb with rfl | hb
    · exact ⟨fun _ _ => ⟨fd, rfl⟩, by simp⟩
    · exact horder _ (by simp) b hb
  · have hset : .setSocketFD fd' ∈ ops := by simpa using hfd'
    simp [h.keeps fd' hset]

/-! ### What holds in every state -/

variable {s s' : Rebind} {t : Thread}

theorem FdSound.init : FdSound .init where
  owned := by
    refine ⟨fun fd => iff_of_false (Finset.notMem_empty fd) ?_, fun fd o o' ho => ?_⟩
    · rintro ⟨o, ho⟩
      cases o <;> simp [Owns, Rebind.init] at ho
    · cases o <;> simp [Owns, Rebind.init] at ho
  ops _ := .nil
  locals_iff := by simp [Rebind.init]
  leave_unique := by simp [Rebind.init]

/-- A step with which no call of `fromSockFd` begins or ends. -/
theorem FdSound.keep (h : FdSound s) (howned : Exclusive s'.Owns (· ∈ s'.openFds)) (hops : ∀ t, BindOps (s'.threads t))
    (hlocals : s'.locals = s.locals) (hleave : ∀ fd t, .leave fd ∈ s'.threads t ↔ .leave fd ∈ s.threads t) :
    FdSound s' := by
  refine ⟨howned, hops, fun fd => ?_, fun fd t t' ht ht' => ?_⟩
  · rw [hlocals, h.locals_iff]
    exact exists_congr fun t => (hleave fd t).symm
  · exact h.leave_unique fd t t' ((hleave fd t).1 ht) ((hleave fd t').1 ht')

private theorem bindOps_goOn (h : FdSound s) {ops : List BindOp} (hops : BindOps ops) (t' : Thread) :
    BindOps ((s.goOn t ops).threads t') := by
  by_cases ht : t' = t
  · subst ht
    simpa [goOn] using hops
  · simpa [goOn, ht] using h.ops t'

private theorem mem_goOn {op op' : BindOp} {ops new : List BindOp} (hops : s.threads t = op :: ops) (hop : op' ≠ op)
    (hnew : op' ∉ new) (t' : Thread) : op' ∈ (s.goOn t (new ++ ops)).threads t' ↔ op' ∈ s.threads t' := by
  by_cases ht : t' = t
  · subst ht
    simp [goOn, hops, hop, hnew]
  · simp [goOn, ht]

private theorem mem_goOn_tail {op op' : BindOp} {ops : List BindOp} (hops : s.threads t = op :: ops) (hop : op' ≠ op)
    (t' : Thread) : op' ∈ (s.goOn t ops).threads t' ↔ op' ∈ s.threads t' :=
  mem_goOn hops hop List.not_mem_nil t'

/-- `sock_fd_` is assigned nothing, or a `SockFD` that a call of `fromSockFd` refers to. -/
private theorem fdSound_assign (h : FdSound s) {op : BindOp} {ops : List BindOp} (hops : s.threads t = op :: ops)
    (hop : op.assignsSockFd = true) {sockFd : Option FD} (hsock : ∀ fd ∈ sockFd, fd ∈ s.locals) :
    FdSound { s.goOn t (s.release ++ ops) with sockFd := sockFd } := by
  have hthread := h.ops t
  rw [hops] at hthread
  have hleave : ∀ fd, op ≠ .leave fd := by
    rintro fd rfl
    cases hop
  have hdetach : ∀ fd, op ≠ .detachEvent fd := by
    rintro fd rfl
    cases hop
  have hclose : ∀ fd, op ≠ .closeFd fd := by
    rintro fd rfl
    cases hop
  have hnone : ∀ fd, .closeFd fd ∉ ops := hthread.closeFd_notMem hdetach
  -- whether the old `SockFD` has another reference
  by_cases hlast : ∃ fd, s.sockFd = some fd ∧ fd ∉ s.locals
  · obtain ⟨fd, hfd, hlocal⟩ := hlast
    have hrelease : s.release = [.detachEvent fd, .closeFd fd] := by simp [release, hfd, hlocal]
    rw [hrelease]
    have howns : s.Owns fd .sockFd := Or.inl hfd
    refine h.keep (h.owned.move (.closing t) howns fun fd' o => ?_) ?_ rfl fun fd' t' => ?_
    · cases o with
      | sockFd =>
        have hnew : sockFd = some fd' ∨ fd' ∈ s.locals ↔ fd' ∈ s.locals :=
          or_iff_right_of_imp fun heq => hsock fd' heq
        have hne : fd' ∈ s.locals → fd' ≠ fd := fun hmem heq => hlocal (heq ▸ hmem)
        have hold : s.sockFd = some fd' → fd' = fd := fun heq => Option.some.inj (heq.symm.trans hfd)
        simp only [Owns, goOn, hnew, reduceCtorEq, and_false, and_true, false_or]
        tauto
      | closing t' =>
        by_cases ht : t' = t
        · subst ht
          have hnot : .closeFd fd' ∉ s.threads t' := by
            rw [hops, List.mem_cons, not_or]
            exact ⟨(hclose fd').symm, hnone fd'⟩
          simp [Owns, goOn, hnone, hnot]
        · simp [Owns, goOn, ht]
    · exact bindOps_goOn h ((hthread.tail hleave).close hnone fd)
    · exact mem_goOn hops (hleave fd').symm (by simp) t'
  · have hrelease : s.release = [] := by
      unfold release
      cases hfd : s.sockFd with
      | none => rfl
      | some fd =>
        have hlocal : fd ∈ s.locals := by
          by_contra hnot
          exact hlast ⟨fd, hfd, hnot⟩
        simp [hlocal]
    rw [hrelease]
    refine h.keep (h.owned.congr (fun _ => Iff.rfl) fun fd' o => ?_) ?_ rfl fun fd' t' => ?_
    · cases o with
      | sockFd =>
        have hnew : sockFd = some fd' ∨ fd' ∈ s.locals ↔ fd' ∈ s.locals :=
          or_iff_right_of_imp fun heq => hsock fd' heq
        have hold : s.sockFd = some fd' ∨ fd' ∈ s.locals ↔ fd' ∈ s.locals := by
          refine or_iff_right_of_imp fun heq => ?_
          by_contra hnot
          exact hlast ⟨fd', heq, hnot⟩
        simp only [Owns, goOn, hnew, hold]
      | closing t' => exact mem_goOn hops (hclose fd').symm (by simp) t'
    · exact bindOps_goOn h (hthread.tail hleave)
    · exact mem_goOn hops (hleave fd').symm (by simp) t'

private theorem fdSound_leave (h : FdSound s) {fd : FD} {ops : List BindOp} (hops : s.threads t = .leave fd :: ops)
    (ok : Bool) : FdSound (s.runOp t ok ops (.leave fd)) := by
  have hthread := h.ops t
  rw [hops] at hthread
  obtain rfl := hthread.eq_nil_of_leave
  have hmem : .leave fd ∈ s.threads t := by simp [hops]
  have hlocal : fd ∈ s.locals := (h.locals_iff fd).2 ⟨t, hmem⟩
  have hother : ∀ t', .leave fd ∈ s.threads t' → t' = t := fun t' ht' => h.leave_unique fd t' t ht' hmem
  -- its `SockFD` dies with it when it is no longer that of the socket
  obtain ⟨rest, hrest⟩ : ∃ rest, rest = if s.sockFd = some fd then [] else [BindOp.detachEvent fd, .closeFd fd] :=
    ⟨_, rfl⟩
  have hnot : ∀ fd', .leave fd' ∉ rest := by
    intro fd'
    rw [hrest]
    split <;> simp
  have hleave : ∀ fd' t', .leave fd' ∈ (s.goOn t rest).threads t' ↔ fd' ≠ fd ∧ .leave fd' ∈ s.threads t' := by
    intro fd' t'
    by_cases ht : t' = t
    · subst ht
      simp [goOn, hops, hnot]
    · have hne : .leave fd' ∈ s.threads t' → fd' ≠ fd := by
        rintro hmem' rfl
        exact ht (hother t' hmem')
      simpa [goOn, ht] using hne
  have hstate : s.runOp t ok [] (.leave fd) = { s.goOn t rest with locals := s.locals.erase fd } := by
    rw [hrest]
    simp [runOp]
  rw [hstate]
  refine ⟨?_, ?_, fun fd' => ?_, fun fd' t' t'' ht' ht'' => ?_⟩
  · by_cases hsock : s.sockFd = some fd
    · refine h.owned.congr (fun _ => Iff.rfl) fun fd' o => ?_
      cases o with
      | sockFd =>
        have hcur : fd' = fd → s.sockFd = some fd' := by
          rintro rfl
          exact hsock
        simp only [Owns, goOn, Finset.mem_erase]
        tauto
      | closing t' =>
        by_cases ht : t' = t
        · subst ht
          simp [Owns, goOn, hrest, hsock, hops]
        · simp [Owns, goOn, ht]
    · have howns : s.Owns fd .sockFd := Or.inr hlocal
      refine h.owned.move (.closing t) howns fun fd' o => ?_
      cases o with
      | sockFd =>
        have hne : s.sockFd = some fd' → fd' ≠ fd := by
          rintro heq rfl
          exact hsock heq
        simp only [Owns, goOn, Finset.mem_erase, reduceCtorEq, and_false, and_true, false_or]
        tauto
      | closing t' =>
        by_cases ht : t' = t
        · subst ht
          simp [Owns, goOn, hrest, hsock, hops]
        · simp [Owns, goOn, ht]
  · refine bindOps_goOn h ?_
    rw [hrest]
    split
    · exact .nil
    · exact BindOps.nil.close (by simp) fd
  · rw [Finset.mem_erase, h.locals_iff, ← exists_and_left]
    exact exists_congr fun t' => (hleave fd' t').symm
  · exact h.leave_unique fd' t' t'' ((hleave fd' t').1 ht').2 ((hleave fd' t'').1 ht'').2

private theorem fdSound_event (h : FdSound s) {op : BindOp} {ops : List BindOp} (hops : s.threads t = op :: ops)
    (hop : ∀ fd, op ≠ .leave fd ∧ op ≠ .closeFd fd) (registry : Registry IoCallback) :
    FdSound { s.goOn t ops with registry := registry } := by
  have hthread := h.ops t
  rw [hops] at hthread
  refine h.keep (h.owned.congr (fun _ => Iff.rfl) fun fd o => ?_) ?_ rfl fun fd t' => ?_
  · cases o with
    | sockFd => exact Iff.rfl
    | closing t' => exact mem_goOn_tail hops (hop fd).2.symm t'
  · exact bindOps_goOn h (hthread.tail fun fd => (hop fd).1)
  · exact mem_goOn_tail hops (hop fd).1.symm t'

/-- `~SockNum`: only this thread was about to close the descriptor, and it does so once. -/
private theorem fdSound_closeFd (h : FdSound s) {fd : FD} {ops : List BindOp} (hops : s.threads t = .closeFd fd :: ops)
    (registry : Registry IoCallback) :
    FdSound { s.goOn t ops with openFds := s.openFds.erase fd, registry := registry } := by
  have hthread := h.ops t
  rw [hops] at hthread
  have hnone : ∀ fd', .closeFd fd' ∉ ops := hthread.closeFd_notMem (by simp)
  have howns : s.Owns fd (.closing t) := by
    show .closeFd fd ∈ s.threads t
    simp [hops]
  refine h.keep (h.owned.release howns (fun _ => Finset.mem_erase) fun fd' o => ?_) ?_ rfl fun fd' t' => ?_
  · cases o with
    | sockFd => simp [Owns, goOn]
    | closing t' =>
      by_cases ht : t' = t
      · subst ht
        simp [Owns, goOn, hops, hnone]
      · simp [Owns, goOn, ht]
  · exact bindOps_goOn h (hthread.tail (by simp))
  · exact mem_goOn_tail hops (by simp) t'

private theorem fdSound_runOp (h : FdSound s) (ok : Bool) {op : BindOp} {ops : List BindOp}
    (hops : s.threads t = op :: ops) : FdSound (s.runOp t ok ops op) := by
  cases op with
  | closeSocket => exact fdSound_assign h hops rfl (by simp)
  | setSocketFD fd =>
    refine fdSound_assign h hops rfl fun fd' hfd' => ?_
    obtain rfl := Option.mem_some_iff.1 hfd'
    have hthread := h.ops t
    rw [hops] at hthread
    exact (h.locals_iff fd).2 ⟨t, hops ▸ hthread.keeps fd List.mem_cons_self⟩
  | attachEvent fd => exact fdSound_event h hops (by simp) _
  | leave fd => exact fdSound_leave h hops ok
  | detachEvent fd => exact fdSound_event h hops (by simp) _
  | closeFd fd => exact fdSound_closeFd h hops _

/-- `socket` returns a descriptor that is not open, so nobody owns it. -/
private theorem fdSound_bindUdpSocket (h : FdSound s) {fd : FD} (hfd : fd ∉ s.openFds) (hidle : s.threads t = []) :
    FdSound { s.goOn t [.closeSocket, .setSocketFD fd, .attachEvent fd, .leave fd] with
      openFds := insert fd s.openFds, locals := insert fd s.locals } := by
  have hlocal : fd ∉ s.locals := fun hmem => hfd ((h.owned.held_iff fd).2 ⟨.sockFd, Or.inr hmem⟩)
  have hnone : ∀ t', .leave fd ∉ s.threads t' := fun t' ht' => hlocal ((h.locals_iff fd).2 ⟨t', ht'⟩)
  have hleave : ∀ fd' t',
      .leave fd' ∈ (s.goOn t [.closeSocket, .setSocketFD fd, .attachEvent fd, .leave fd]).threads t' ↔
        fd' = fd ∧ t' = t ∨ .leave fd' ∈ s.threads t' := by
    intro fd' t'
    by_cases ht : t' = t
    · subst ht
      simp [goOn, hidle]
    · simp [goOn, ht]
  refine ⟨h.owned.acquire .sockFd hfd (fun _ => Finset.mem_insert) fun fd' o => ?_, ?_, fun fd' => ?_,
    fun fd' t' t'' ht' ht'' => ?_⟩
  · cases o with
    | sockFd =>
      simp only [Owns, goOn, Finset.mem_insert, and_true]
      tauto
    | closing t' =>
      by_cases ht : t' = t
      · subst ht
        simp [Owns, goOn, hidle]
      · simp [Owns, goOn, ht]
  · exact bindOps_goOn h (.bindUdpSocket fd)
  · rw [Finset.mem_insert, h.locals_iff]
    constructor
    · rintro (rfl | ⟨t', ht'⟩)
      · exact ⟨t, (hleave fd' t).2 (.inl ⟨rfl, rfl⟩)⟩
      · exact ⟨t', (hleave fd' t').2 (.inr ht')⟩
    · rintro ⟨t', ht'⟩
      rcases (hleave fd' t').1 ht' with ⟨rfl, -⟩ | ht'
      · exact .inl rfl
      · exact .inr ⟨t', ht'⟩
  · rcases (hleave fd' t').1 ht' with ⟨rfl, rfl⟩ | hmem
    · rcases (hleave fd' t'').1 ht'' with ⟨-, rfl⟩ | hmem'
      · rfl
      · exact absurd hmem' (hnone t'')
    · rcases (hleave fd' t'').1 ht'' with ⟨rfl, rfl⟩ | hmem'
      · exact absurd hmem (hnone t')
      · exact h.leave_unique fd' t' t'' hmem hmem'

private theorem step_fdSound {a : RebindAction} (h : FdSound s) (hstep : s.step a = some s') : FdSound s' := by
  -- what the poller does changes neither the threads nor `sock_fd_`
  have hpoller : ∀ {u : Rebind}, u.sockFd = s.sockFd → u.openFds = s.openFds → u.locals = s.locals →
      u.threads = s.threads → FdSound u := by
    rintro ⟨_, _, _, _, _, _, _⟩ rfl rfl rfl rfl
    exact ⟨h.owned, h.ops, h.locals_iff, h.leave_unique⟩
  cases a with
  | bindUdpSocket t fd =>
    obtain ⟨⟨-, hfd, hidle⟩, ⟨⟩⟩ := Option.ite_none_right_eq_some.1 hstep
    exact fdSound_bindUdpSocket h hfd hidle
  | run t ok =>
    rw [Rebind.step] at hstep
    split at hstep
    · cases hstep
    · rename_i op ops hops
      obtain rfl := Option.some.inj hstep
      exact fdSound_runOp h ok hops
  | collect signaled =>
    obtain ⟨-, ⟨⟩⟩ := Option.ite_none_right_eq_some.1 hstep
    exact hpoller rfl rfl rfl rfl
  | dispatch =>
    rw [Rebind.step] at hstep
    split at hstep
    · obtain rfl := Option.some.inj hstep
      exact hpoller rfl rfl rfl rfl
    · cases hstep
  | ioCall =>
    rw [Rebind.step] at hstep
    split at hstep
    · obtain rfl := Option.some.inj hstep
      exact hpoller rfl rfl rfl rfl
    · cases hstep
  | finish =>
    rw [Rebind.step] at hstep
    split at hstep
    · obtain rfl := Option.some.inj hstep
      exact hpoller rfl rfl rfl rfl
    · cases hstep
  | runTask ok =>
    rw [Rebind.step] at hstep
    split at hstep
    · obtain ⟨registry, -, rfl⟩ := Option.map_eq_some_iff.1 hstep
      exact hpoller rfl rfl rfl rfl
    · cases hstep

/-- In every run, each open descriptor has one owner and what is not open has none, a thread closes open descriptors
only, and when no thread is in `bindUdpSocket` the one open descriptor is that of the socket. -/
theorem descriptors_owned {as : List RebindAction} (hrun : Transition.exec Rebind.step .init as = some s) :
    (∀ fd ∈ s.openFds, ∃! o, s.Owns fd o) ∧ (∀ fd o, s.Owns fd o → fd ∈ s.openFds) ∧
      (∀ t fd, .closeFd fd ∈ s.threads t → fd ∈ s.openFds) ∧
      ((∀ t, s.threads t = []) → ∀ fd, fd ∈ s.openFds ↔ s.sockFd = some fd) := by
  have h : FdSound s := Transition.exec_invariant (fun _ _ _ h hstep => step_fdSound h hstep) .init hrun
  have hopen : ∀ fd o, s.Owns fd o → fd ∈ s.openFds := fun fd o ho => (h.owned.held_iff fd).2 ⟨o, ho⟩
  refine ⟨fun fd hfd => ?_, hopen, fun t fd hfd => hopen fd (.closing t) hfd, fun hidle fd => ?_⟩
  · obtain ⟨o, ho⟩ := (h.owned.held_iff fd).1 hfd
    exact ⟨o, ho, fun o' ho' => h.owned.unique fd o' o ho' ho⟩
  · have hlocals : fd ∉ s.locals := by
      intro hmem
      obtain ⟨t, ht⟩ := (h.locals_iff fd).1 hmem
      simp [hidle t] at ht
    constructor
    · intro hfd
      obtain ⟨o, ho⟩ := (h.owned.held_iff fd).1 hfd
      cases o with
      | sockFd => exact Or.resolve_right ho hlocals
      | closing t => simp [Owns, hidle t] at ho
    · exact fun hsock => hopen fd .sockFd (Or.inl hsock)

/-- Two threads bind the socket at once, and the second one replaces the `SockFD` of 5 while `fromSockFd` of the first
one still refers to it.  So it is the first one that is about to close 5, when its `fromSockFd` has returned. -/
def bindTwice : List RebindAction :=
  [.bindUdpSocket (.producer 0) 5, .bindUdpSocket (.producer 1) 6, .run (.producer 0) true, .run (.producer 0) true,
    .run (.producer 1) true, .run (.producer 1) true, .run (.producer 0) true, .run (.producer 0) true]

theorem descriptors_owned_bindTwice :
    ∃ s, Transition.exec Rebind.step .init bindTwice = some s ∧ s.sockFd = some 6 ∧ 5 ∈ s.openFds ∧
      ∃! o, s.Owns 5 o := by
  have hlast : (Transition.exec Rebind.step .init bindTwice).map (fun s => (s.sockFd, decide (5 ∈ s.openFds))) =
      some (some 6, true) := by decide
  obtain ⟨s, hrun, hs⟩ := Option.map_eq_some_iff.1 hlast
  obtain ⟨hsock, hmem⟩ := Prod.mk.inj hs
  have hopen : 5 ∈ s.openFds := of_decide_eq_true hmem
  exact ⟨s, hrun, hsock, hopen, (descriptors_owned hrun).1 5 hopen⟩

end Rebind

end AvcTool
