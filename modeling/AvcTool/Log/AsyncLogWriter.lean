import AvcTool.Lib.Transition

/-!
# The asynchronous log writer

`writeLog` puts a record together with its logger into `pendding_` and then posts the semaphore; the writer thread
waits on the semaphore, swaps `pendding_` out and hands the records to their loggers.  The destructor sets `exit_`,
posts and joins the thread.  The two halves of `writeLog` are separate steps, taken by any number of threads; a step
`setExit` is possible once all calls of `writeLog` have returned.

The writer thread looks at `exit_` between two batches and does not take `pendding_` once more before it ends.
So what counts is where the thread is when `exit_` is set (`DrainsAtExit`).
-/

namespace AvcTool

/-- A record and the logger it was written for. -/
abbrev PenddingLog (Log Logger : Type) := Log × Logger

inductive WriterPc (Log Logger : Type) where
  | testing
  | waiting
  | swapping
  | delivering (rest : List (PenddingLog Log Logger))
  | finished
  deriving DecidableEq

/-- The records of the current batch that have not been handed to their loggers. -/
def WriterPc.rest {Log Logger : Type} : WriterPc Log Logger → List (PenddingLog Log Logger)
  | .delivering rest => rest
  | _ => []

structure AsyncLogWriter (Log Logger : Type) where
  pendding : List (PenddingLog Log Logger)
  semphore : Nat
  /-- the calls of `writeLog` that have yet to post -/
  unposted : Nat
  exit : Bool
  exitPosted : Bool
  joined : Bool
  pc : WriterPc Log Logger
  /-- the records in the order in which they entered `pendding_` -/
  entered : List (PenddingLog Log Logger)
  /-- the calls of `writeLogToChannels` -/
  delivered : List (PenddingLog Log Logger)
  deriving DecidableEq

inductive LogAction (Log Logger : Type) where
  | push (log : Log) (logger : Logger)
  | post
  | test
  | wait
  | swap
  | deliver
  | setExit
  | postExit
  | join
  deriving DecidableEq

namespace AsyncLogWriter

variable {Log Logger : Type}

def init : AsyncLogWriter Log Logger :=
  { pendding := [], semphore := 0, unposted := 0, exit := false, exitPosted := false, joined := false, pc := .testing,
    entered := [], delivered := [] }

/-- One record of the batch is handed to its logger; after the last one the loop starts over. -/
def deliverNext (s : AsyncLogWriter Log Logger) : Option (AsyncLogWriter Log Logger) :=
  match s.pc with
  | .delivering [] => some { s with pc := .testing }
  | .delivering (r :: rest) => some { s with delivered := s.delivered ++ [r], pc := .delivering rest }
  | _ => none

def step (s : AsyncLogWriter Log Logger) : LogAction Log Logger → Option (AsyncLogWriter Log Logger)
  | .push log logger =>
    -- the writer is destroyed after the calls of `writeLog`
    if s.exit then none
    else some { s with
      pendding := s.pendding ++ [(log, logger)]
      entered := s.entered ++ [(log, logger)]
      unposted := s.unposted + 1 }
  | .post =>
    if 0 < s.unposted then some { s with unposted := s.unposted - 1, semphore := s.semphore + 1 } else none
  | .test =>
    match s.pc with
    | .testing => some { s with pc := if s.exit then .finished else .waiting }
    | _ => none
  | .wait =>
    match s.pc with
    | .waiting => if 0 < s.semphore then some { s with semphore := s.semphore - 1, pc := .swapping } else none
    | _ => none
  | .swap =>
    match s.pc with
    | .swapping =>
      -- the lock is held over the test and the swap
      if s.pendding = [] then some { s with pc := .testing }
      else some { s with pendding := [], pc := .delivering s.pendding }
    | _ => none
  | .deliver => s.deliverNext
  | .setExit => if s.unposted = 0 ∧ s.exit = false then some { s with exit := true } else none
  | .postExit =>
    if s.exit = true ∧ s.exitPosted = false then
      some { s with exitPosted := true, semphore := s.semphore + 1 }
    else none
  | .join =>
    match s.pc with
    | .finished => if s.exitPosted then some { s with joined := true } else none
    | _ => none

/-- When `exit_` is set, nothing is pending or the writer thread has still to take what is pending. -/
def DrainsAtExit (s : AsyncLogWriter Log Logger) (a : LogAction Log Logger) : Prop :=
  a = .setExit → s.pendding = [] ∨ s.pc = .waiting ∨ s.pc = .swapping

instance [DecidableEq Log] [DecidableEq Logger] (s : AsyncLogWriter Log Logger) (a : LogAction Log Logger) :
    Decidable (DrainsAtExit s a) :=
  inferInstanceAs (Decidable (a = .setExit → s.pendding = [] ∨ s.pc = .waiting ∨ s.pc = .swapping))

/-! ### What a step can do -/

/-- The cases of `step`, each with the conditions under which it is taken. -/
inductive Move (s : AsyncLogWriter Log Logger) : LogAction Log Logger → AsyncLogWriter Log Logger → Prop where
  | pushed (log : Log) (logger : Logger) (hexit : s.exit = false) :
    Move s (.push log logger) { s with
      pendding := s.pendding ++ [(log, logger)], entered := s.entered ++ [(log, logger)], unposted := s.unposted + 1 }
  | posted : Move s .post { s with unposted := s.unposted - 1, semphore := s.semphore + 1 }
  | tested (hpc : s.pc = .testing) : Move s .test { s with pc := if s.exit then .finished else .waiting }
  | woken (hpc : s.pc = .waiting) : Move s .wait { s with semphore := s.semphore - 1, pc := .swapping }
  | nothing (hpc : s.pc = .swapping) (hpend : s.pendding = []) : Move s .swap { s with pc := .testing }
  | swapped (hpc : s.pc = .swapping) : Move s .swap { s with pendding := [], pc := .delivering s.pendding }
  | batchDone (hpc : s.pc = .delivering []) : Move s .deliver { s with pc := .testing }
  | handed (r : PenddingLog Log Logger) (rest : List (PenddingLog Log Logger)) (hpc : s.pc = .delivering (r :: rest)) :
    Move s .deliver { s with delivered := s.delivered ++ [r], pc := .delivering rest }
  | exitSet (hexit : s.exit = false) : Move s .setExit { s with exit := true }
  | exitPosted : Move s .postExit { s with exitPosted := true, semphore := s.semphore + 1 }
  | joined (hpc : s.pc = .finished) : Move s .join { s with joined := true }

theorem step_move {s t : AsyncLogWriter Log Logger} {a : LogAction Log Logger} (h : s.step a = some t) : Move s a t := by
  cases a with
  | push log logger =>
    obtain ⟨hexit, rfl⟩ := by simpa [step] using h
    exact .pushed log logger hexit
  | post =>
    obtain ⟨-, rfl⟩ := by simpa [step] using h
    exact .posted
  | test =>
    simp only [step] at h
    split at h
    · rename_i hpc
      obtain rfl := Option.some.inj h
      exact .tested hpc
    · cases h
  | wait =>
    simp only [step] at h
    split at h
    · rename_i hpc
      obtain ⟨-, rfl⟩ := by simpa using h
      exact .woken hpc
    · cases h
  | swap =>
    simp only [step] at h
    split at h
    · rename_i hpc
      split at h <;> rename_i hpend <;> obtain rfl := Option.some.inj h
      · exact .nothing hpc hpend
      · exact .swapped hpc
    · cases h
  | deliver =>
    simp only [step, deliverNext] at h
    split at h
    · rename_i hpc
      obtain rfl := Option.some.inj h
      exact .batchDone hpc
    · rename_i r rest hpc
      obtain rfl := Option.some.inj h
      exact .handed r rest hpc
    · cases h
  | setExit =>
    obtain ⟨⟨-, hexit⟩, rfl⟩ := by simpa [step] using h
    exact .exitSet hexit
  | postExit =>
    obtain ⟨-, rfl⟩ := by simpa [step] using h
    exact .exitPosted
  | join =>
    simp only [step] at h
    split at h
    · rename_i hpc
      obtain ⟨-, rfl⟩ := by simpa using h
      exact .joined hpc
    · cases h

/-! ### Where the records are -/

/-- The records that entered `pendding_` are delivered, in the current batch or still there, in this order. -/
structure InOrder (s : AsyncLogWriter Log Logger) : Prop where
  order : s.delivered ++ s.pc.rest ++ s.pendding = s.entered
  finished : s.joined = true → s.pc = .finished
  exited : s.pc = .finished → s.exit = true

theorem InOrder.init : InOrder (init : AsyncLogWriter Log Logger) := ⟨rfl, nofun, nofun⟩

/-- The writer thread, still running, goes on with its batch. -/
theorem InOrder.move {s : AsyncLogWriter Log Logger} (h : InOrder s) (hpc : s.pc ≠ .finished)
    {pc : WriterPc Log Logger} {delivered pendding : List (PenddingLog Log Logger)}
    (horder : delivered ++ pc.rest ++ pendding = s.delivered ++ s.pc.rest ++ s.pendding)
    (hfin : pc = .finished → s.exit = true) (semphore : Nat) :
    InOrder { s with pc := pc, delivered := delivered, pendding := pendding, semphore := semphore } where
  order := horder.trans h.order
  finished := fun hj => absurd (h.finished hj) hpc
  exited := hfin

theorem step_inOrder (s : AsyncLogWriter Log Logger) (a : LogAction Log Logger) (t : AsyncLogWriter Log Logger)
    (h : InOrder s) (hstep : s.step a = some t) : InOrder t := by
  cases step_move hstep with
  | pushed log logger =>
    refine ⟨?_, h.finished, h.exited⟩
    rw [← h.order]
    simp [List.append_assoc]
  | posted => exact ⟨h.order, h.finished, h.exited⟩
  | exitSet => exact ⟨h.order, h.finished, fun _ => rfl⟩
  | exitPosted => exact ⟨h.order, h.finished, h.exited⟩
  | joined hpc => exact ⟨h.order, fun _ => hpc, h.exited⟩
  | tested hpc =>
    refine h.move (by simp [hpc]) ?_ ?_ _
    · split <;> simp [hpc, WriterPc.rest]
    · split
      · exact fun _ => ‹_›
      · nofun
  | woken hpc => exact h.move (by simp [hpc]) (by simp [hpc, WriterPc.rest]) (by nofun) _
  | nothing hpc => exact h.move (by simp [hpc]) (by simp [hpc, WriterPc.rest]) (by nofun) _
  | swapped hpc => exact h.move (by simp [hpc]) (by simp [hpc, WriterPc.rest]) (by nofun) _
  | batchDone hpc => exact h.move (by simp [hpc]) (by simp [hpc, WriterPc.rest]) (by nofun) _
  | handed r rest hpc => exact h.move (by simp [hpc]) (by simp [hpc, WriterPc.rest]) (by nofun) _

/-- When the destructor has returned, a record is undelivered exactly if it is still in `pendding_`. -/
theorem InOrder.delivered_iff {s : AsyncLogWriter Log Logger} (h : InOrder s) (hj : s.joined = true) :
    s.delivered = s.entered ↔ s.pendding = [] := by
  have horder : s.delivered ++ s.pendding = s.entered := by
    simpa [h.finished hj, WriterPc.rest] using h.order
  rw [← horder]
  simp

/-! ### After `exit_` is set -/

/-- Once `exit_` is set, nothing is pending or the writer thread has still to take what is pending. -/
def Drained (s : AsyncLogWriter Log Logger) : Prop :=
  s.exit = true → s.pendding = [] ∨ s.pc = .waiting ∨ s.pc = .swapping

private theorem step_drained (s : AsyncLogWriter Log Logger) (a : LogAction Log Logger) (t : AsyncLogWriter Log Logger)
    (h : Drained s) (hok : DrainsAtExit s a) (hstep : s.step a = some t) : Drained t := by
  cases step_move hstep with
  | pushed log logger hexit => exact fun he => absurd (hexit.symm.trans he) Bool.false_ne_true
  | exitSet => exact fun _ => hok rfl
  | posted => exact h
  | exitPosted => exact h
  | joined => exact h
  | tested hpc =>
    refine fun he => .inl ?_
    rcases h he with hpend | hpc' | hpc'
    · exact hpend
    · rw [hpc] at hpc'; cases hpc'
    · rw [hpc] at hpc'; cases hpc'
  | woken => exact fun _ => .inr (.inr rfl)
  | nothing hpc hpend => exact fun _ => .inl hpend
  | swapped => exact fun _ => .inl rfl
  | batchDone hpc => exact fun he => .inl (by simpa [hpc] using h he)
  | handed r rest hpc => exact fun he => .inl (by simpa [hpc] using h he)

/-- Records are pending and the writer thread is past the point where it would take them. -/
def Stranded (s : AsyncLogWriter Log Logger) : Prop :=
  s.exit = true ∧ s.pendding ≠ [] ∧ s.pc ≠ .waiting ∧ s.pc ≠ .swapping

private theorem step_stranded (s : AsyncLogWriter Log Logger) (a : LogAction Log Logger) (t : AsyncLogWriter Log Logger)
    (h : Stranded s) (hstep : s.step a = some t) : Stranded t := by
  obtain ⟨hexit, hpend, hw, hs⟩ := h
  cases step_move hstep with
  | pushed log logger he => exact absurd (he.symm.trans hexit) Bool.false_ne_true
  | exitSet he => exact absurd (he.symm.trans hexit) Bool.false_ne_true
  | posted => exact ⟨hexit, hpend, hw, hs⟩
  | exitPosted => exact ⟨hexit, hpend, hw, hs⟩
  | joined => exact ⟨hexit, hpend, hw, hs⟩
  | tested => exact ⟨hexit, hpend, by simp [hexit], by simp [hexit]⟩
  | woken hpc => exact absurd hpc hw
  | nothing hpc => exact absurd hpc hs
  | swapped hpc => exact absurd hpc hs
  | batchDone => exact ⟨hexit, hpend, nofun, nofun⟩
  | handed => exact ⟨hexit, hpend, nofun, nofun⟩

private theorem stranded_of_not_drains {s t : AsyncLogWriter Log Logger} {a : LogAction Log Logger}
    (h : ¬ DrainsAtExit s a) (hstep : s.step a = some t) : Stranded t := by
  simp only [DrainsAtExit, Classical.not_imp, not_or] at h
  obtain ⟨rfl, hpend, hw, hs⟩ := h
  cases step_move hstep with
  | exitSet => exact ⟨rfl, hpend, hw, hs⟩

/-! ### Destruction -/

/-- The writer thread is waiting when `exit_` is set. -/
def logAndDestroy : List (LogAction Nat Nat) :=
  [.test, .push 0 0, .post, .setExit, .postExit, .wait, .swap, .deliver, .deliver, .test, .join]

/-- A writer that is destroyed right after one record was written, before its thread has come to test `exit_`. -/
def logAndDestroyAtOnce : List (LogAction Nat Nat) :=
  [.push 0 0, .post, .setExit, .postExit, .test, .join]

end AsyncLogWriter

end AvcTool
