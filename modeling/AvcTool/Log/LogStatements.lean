import Mathlib.Data.List.Nodup
import AvcTool.Log.AsyncLogWriter
import AvcTool.Log.LogChannel

/-!
# Log statements

A statement such as `InfoL << a << b` makes a `LogContextCapture`, a variable on the stack that holds the record as
`context_` and puts what is streamed into it.  A manipulator, and the destructor, which streams `std::endl`, hands the
record to the logger and resets `context_`; what is streamed after that goes nowhere.

The writer of the logger is an `AsyncLogWriter`.  So the record is formatted later and by another thread, from an
object that the statement has filled.  `LogProgram` has the objects, the captures of any number of threads, the writer
thread and the logger, which take their steps in any order; `history` only records what has been streamed into each
capture, as the actions of the run say it (`Recorded`).  The line of a statement is what has been streamed before the
first manipulator (`line`), and the channels are handed one record with this line for each statement that has come to
one (`statements_written`).
-/

namespace AvcTool

inductive LogInput where
  | text (data : String)
  | manipulator
  deriving DecidableEq, Repr

/-- What is streamed before the first manipulator. -/
def line : List LogInput → String
  | .text data :: inputs => data ++ line inputs
  | .manipulator :: _ => ""
  | [] => ""

inductive CapturePc where
  | undeclared
  /-- `context_` points to the record -/
  | holding
  /-- in `writeLog`, where the record has been inserted and the semaphore has yet to be posted -/
  | writing
  /-- `context_` has been reset -/
  | reset
  | destroyed
  deriving DecidableEq, Repr

def CapturePc.handed : CapturePc → Bool
  | .undeclared | .holding => false
  | .writing | .reset | .destroyed => true

/-- The captures are numbered as they are declared, and so are the records. -/
structure LogProgram (χ : Type*) where
  captures : Nat
  pc : Nat → CapturePc
  /-- the objects that `context_` points to -/
  context : Nat → LogContext
  writer : AsyncLogWriter Nat Unit
  logger : Logger χ
  history : Nat → List LogInput
  /-- the calls of the logger and its channels -/
  calls : List (LogCall χ)

inductive LogProgramAction (χ : Type*) where
  | capture (env : LogEnv)
  | stream (n : Nat) (data : String)
  /-- a manipulator is streamed by the user, or `std::endl` by the destructor -/
  | manipulate (n : Nat)
  /-- `writeLog` posts the semaphore, and `context_` is reset -/
  | post (n : Nat)
  /-- the destructor returns -/
  | destroy (n : Nat)
  /-- a step of the writer thread, apart from handing over a record, or of the destructor of the writer -/
  | writer (a : LogAction Nat Unit)
  | deliver
  | addLogChannel (channel : χ)
  | setLevel (channel : χ) (level : Int32)

namespace LogProgramAction

variable {χ : Type*}

/-- What the action streams into the capture `n`. -/
def input (n : Nat) : LogProgramAction χ → Option LogInput
  | .stream m data => if m = n then some (.text data) else none
  | .manipulate m => if m = n then some .manipulator else none
  | _ => none

def manipulated : LogProgramAction χ → Option Nat
  | .manipulate n => some n
  | _ => none

def env : LogProgramAction χ → Option LogEnv
  | .capture env => some env
  | _ => none

end LogProgramAction

def LogAction.isOwn {Log Logger : Type} : LogAction Log Logger → Bool
  | .push _ _ | .post | .deliver => false
  | _ => true

namespace LogProgram

variable {χ : Type*} [DecidableEq χ]

def init : LogProgram χ :=
  { captures := 0, pc := fun _ => .undeclared, context := fun _ => ⟨⟨0, "", 0, ⟨0, 0⟩, ""⟩, "", "", false⟩,
    writer := .init, logger := .init, history := fun _ => [], calls := [] }

/-- The `LogContext` of a new capture. -/
def create (env : LogEnv) : LogContext := { env := env, str := "", content_ := "", gotContent := false }

/-- Something is streamed into a capture. -/
def record (s : LogProgram χ) (n : Nat) (input : LogInput) : LogProgram χ :=
  { s with history := Function.update s.history n (s.history n ++ [input]) }

/-- The next record of the batch goes to the channels, which take its text from it. -/
def writeNext (localtime : Int → Option Tm) (s : LogProgram χ) : LogProgram χ :=
  match s.writer.pc with
  | .delivering (r :: _) =>
    let log := s.context r.1
    let (logger, log') := s.logger.channels.foldl (Logger.writeTo localtime) (s.logger, log)
    { s with
      context := Function.update s.context r.1 log'
      logger := logger
      calls := s.calls ++ [.writeLogToChannels log] }
  | _ => s

/-- A call of the logger by the user. -/
def callLogger (localtime : Int → Option Tm) (s : LogProgram χ) (call : LogCall χ) : Option (LogProgram χ) :=
  (s.logger.step localtime call).map fun logger => { s with logger := logger, calls := s.calls ++ [call] }

def step (localtime : Int → Option Tm) (s : LogProgram χ) : LogProgramAction χ → Option (LogProgram χ)
  | .capture env => some { s with
      captures := s.captures + 1
      pc := Function.update s.pc s.captures .holding
      context := Function.update s.context s.captures (create env) }
  | .stream n data =>
    match s.pc n with
    | .holding =>
      let log := s.context n
      some { s.record n (.text data) with context := Function.update s.context n { log with str := log.str ++ data } }
    | .reset => some (s.record n (.text data))
    | _ => none
  | .manipulate n =>
    match s.pc n with
    | .holding => (s.writer.step (.push n ())).map fun writer =>
        { s.record n .manipulator with writer := writer, pc := Function.update s.pc n .writing }
    | .reset => some (s.record n .manipulator)
    | _ => none
  | .post n =>
    if s.pc n = .writing then (s.writer.step .post).map fun writer =>
      { s with writer := writer, pc := Function.update s.pc n .reset }
    else none
  | .destroy n => if s.pc n = .reset then some { s with pc := Function.update s.pc n .destroyed } else none
  | .writer a => if a.isOwn then (s.writer.step a).map fun writer => { s with writer := writer } else none
  | .deliver => (s.writer.step .deliver).map fun writer => { s.writeNext localtime with writer := writer }
  | .addLogChannel channel => s.callLogger localtime (.addLogChannel channel)
  | .setLevel channel level => s.callLogger localtime (.setLevel channel level)

def handed (s : LogProgram χ) : List Nat := s.writer.entered.map Prod.fst

def written (s : LogProgram χ) : List Nat := s.writer.delivered.map Prod.fst

def statement (s : LogProgram χ) (n : Nat) : LogContext :=
  { create (s.context n).env with str := line (s.history n) }

def records (calls : List (LogCall χ)) : List LogContext :=
  calls.filterMap fun
    | .writeLogToChannels log => some log
    | _ => none

end LogProgram

/-! ### The posts of the writer -/

/-- The posts that the writer thread has taken and not yet used. -/
def WriterPc.taken {Log Logger : Type} : WriterPc Log Logger → Nat
  | .swapping => 1
  | _ => 0

namespace AsyncLogWriter

variable {Log Logger : Type} {s t : AsyncLogWriter Log Logger}

/-- Every record in `pendding_` has a post that is unused, or still to come. -/
def Posted (s : AsyncLogWriter Log Logger) : Prop :=
  s.pendding.length ≤ s.semphore + s.unposted + s.pc.taken

theorem Posted.init : Posted (init : AsyncLogWriter Log Logger) := Nat.zero_le _

theorem Posted.step {a : LogAction Log Logger} (h : s.Posted) (hstep : s.step a = some t) : t.Posted := by
  unfold Posted at h ⊢
  cases step_move hstep with
  | pushed log logger =>
    simp only [List.length_append, List.length_singleton]
    omega
  | posted =>
    simp only
    omega
  | tested hpc =>
    simp only [hpc, WriterPc.taken] at h
    exact Nat.le_trans h (Nat.le_add_right _ _)
  | woken hpc =>
    simp only [hpc, WriterPc.taken] at h ⊢
    omega
  | nothing hpc hpend =>
    simp only [hpend]
    exact Nat.zero_le _
  | swapped hpc => exact Nat.zero_le _
  | batchDone hpc =>
    simp only [hpc, WriterPc.taken] at h ⊢
    exact h
  | handed r rest hpc =>
    simp only [hpc, WriterPc.taken] at h ⊢
    exact h
  | exitSet => exact h
  | exitPosted =>
    simp only
    omega
  | joined => exact h

/-- So the writer thread sleeps only when it has handed on every record. -/
theorem Posted.delivered (h : s.Posted) (hs : s.InOrder) (hpc : s.pc = .waiting) (hsem : s.semphore = 0)
    (hun : s.unposted = 0) : s.delivered = s.entered := by
  have hpend : s.pendding = [] := by
    rw [Posted, hpc, hsem, hun] at h
    exact List.length_eq_zero_iff.1 (Nat.le_zero.1 h)
  have hrest : s.pc.rest = [] := by
    rw [hpc]
    rfl
  rw [← hs.order, hrest, hpend, List.append_nil, List.append_nil]

end AsyncLogWriter

namespace LogProgram

variable {χ : Type*} [DecidableEq χ]

/-! ### The line of a statement -/

private theorem line_append_of_mem {inputs : List LogInput} (h : .manipulator ∈ inputs) (inputs' : List LogInput) :
    line (inputs ++ inputs') = line inputs := by
  induction inputs with
  | nil => cases h
  | cons input inputs ih =>
    cases input with
    | manipulator => rfl
    | text data =>
      have hrest : .manipulator ∈ inputs := by simpa using h
      rw [List.cons_append, line, ih hrest, line]

private theorem line_append {inputs : List LogInput} (h : .manipulator ∉ inputs) (inputs' : List LogInput) :
    line (inputs ++ inputs') = line inputs ++ line inputs' := by
  induction inputs with
  | nil => simp [line]
  | cons input inputs ih =>
    cases input with
    | manipulator => exact absurd List.mem_cons_self h
    | text data =>
      have hrest : .manipulator ∉ inputs := fun hmem => h (List.mem_cons_of_mem _ hmem)
      rw [List.cons_append, line, ih hrest, line, String.append_assoc]

private theorem line_append_manipulator (inputs : List LogInput) : line (inputs ++ [.manipulator]) = line inputs := by
  by_cases h : .manipulator ∈ inputs
  · exact line_append_of_mem h _
  · rw [line_append h]
    simp [line]

/-! ### What holds in every state -/

structure SoundAt (s : LogProgram χ) (n : Nat) : Prop where
  handed_iff : n ∈ s.handed ↔ (s.pc n).handed = true
  manipulated_iff : .manipulator ∈ s.history n ↔ (s.pc n).handed = true
  /-- a record that has not been written is the one that its statement stands for -/
  context : n ∉ s.written → s.context n = s.statement n
  undeclared : s.captures ≤ n → s.pc n = .undeclared
  empty : s.pc n = .undeclared → s.history n = []

structure Sound (localtime : Int → Option Tm) (s : LogProgram χ) : Prop where
  logger : Transition.exec (Logger.step localtime) .init s.calls = some s.logger
  written : records s.calls = s.written.map s.statement
  inOrder : s.writer.InOrder
  once : s.handed.Nodup
  captures : ∀ n, SoundAt s n

variable {localtime : Int → Option Tm} {s t : LogProgram χ} {n : Nat}

omit [DecidableEq χ] in
private theorem statement_congr (hcontext : (t.context n).env = (s.context n).env)
    (hhistory : t.history n = s.history n) : t.statement n = s.statement n := by
  rw [statement, statement, hcontext, hhistory]

omit [DecidableEq χ] in
/-- A step that has nothing to do with a capture. -/
theorem SoundAt.congr (h : SoundAt s n) (hpc : t.pc n = s.pc n) (hcontext : t.context n = s.context n)
    (hhistory : t.history n = s.history n) (hhanded : n ∈ t.handed ↔ n ∈ s.handed)
    (hwritten : n ∈ s.written → n ∈ t.written) (hcaptures : s.captures ≤ t.captures) : SoundAt t n := by
  refine ⟨?_, ?_, fun hnot => ?_, fun hle => ?_, fun hun => ?_⟩
  · rw [hhanded, hpc, h.handed_iff]
  · rw [hhistory, hpc, h.manipulated_iff]
  · rw [hcontext, statement_congr (congrArg _ hcontext) hhistory]
    exact h.context fun hmem => hnot (hwritten hmem)
  · rw [hpc]
    exact h.undeclared (Nat.le_trans hcaptures hle)
  · rw [hhistory]
    exact h.empty (hpc ▸ hun)

omit [DecidableEq χ] in
private theorem written_subset (h : s.writer.InOrder) (hn : n ∈ s.written) : n ∈ s.handed := by
  obtain ⟨r, hr, rfl⟩ := List.mem_map.1 hn
  refine List.mem_map_of_mem ?_
  rw [← h.order, List.append_assoc]
  exact List.mem_append_left _ hr

private theorem Sound.notMem_written (h : Sound localtime s) (hn : (s.pc n).handed = false) : n ∉ s.written := by
  intro hmem
  have hhanded := (h.captures n).handed_iff.1 (written_subset h.inOrder hmem)
  rw [hn] at hhanded
  cases hhanded

theorem Sound.init (localtime : Int → Option Tm) : Sound localtime (init : LogProgram χ) := by
  refine ⟨rfl, rfl, .init, List.nodup_nil, fun n => ⟨?_, ?_, fun _ => rfl, fun _ => rfl, fun _ => rfl⟩⟩
  · simp [handed, LogProgram.init, AsyncLogWriter.init, CapturePc.handed]
  · simp [LogProgram.init, CapturePc.handed]

/-! ### The steps of a statement -/

private theorem sound_capture {env : LogEnv} (h : Sound localtime s)
    (hstep : s.step localtime (.capture env) = some t) : Sound localtime t := by
  obtain rfl := Option.some.inj hstep
  have hundeclared : s.pc s.captures = .undeclared := (h.captures s.captures).undeclared (Nat.le_refl _)
  have hnew : s.captures ∉ s.written := h.notMem_written (by rw [hundeclared]; rfl)
  refine ⟨h.logger, h.written.trans (List.map_congr_left fun n hn => ?_), h.inOrder, h.once, fun n => ?_⟩
  · have hne : n ≠ s.captures := fun heq => hnew (heq ▸ hn)
    refine Eq.symm (statement_congr ?_ rfl)
    simp [hne]
  · by_cases hn : n = s.captures
    · subst hn
      have hempty := (h.captures s.captures).empty hundeclared
      refine ⟨?_, ?_, fun _ => ?_, fun hle => absurd hle (Nat.not_succ_le_self _), fun hun => ?_⟩
      · have hold := (h.captures s.captures).handed_iff
        rw [hundeclared] at hold
        exact hold.trans (by simp [CapturePc.handed])
      · simp [hempty, CapturePc.handed]
      · simp [statement, create, hempty, line]
      · simp at hun
    · exact (h.captures n).congr (by simp [hn]) (by simp [hn]) rfl Iff.rfl id (Nat.le_succ _)

omit [DecidableEq χ] in
private theorem statement_record (h : .manipulator ∈ s.history n) (input : LogInput) (m : Nat) :
    (s.record n input).statement m = s.statement m := by
  by_cases hm : m = n
  · subst hm
    simp [statement, record, line_append_of_mem h]
  · exact statement_congr rfl (by simp [record, hm])

/-- What is streamed into a capture that has been reset goes nowhere. -/
private theorem sound_record_reset (h : Sound localtime s) (hpc : s.pc n = .reset) (input : LogInput) :
    Sound localtime (s.record n input) := by
  have hn := h.captures n
  have hclosed : .manipulator ∈ s.history n := by
    rw [hn.manipulated_iff, hpc]
    rfl
  have hwritten := h.written.trans (List.map_congr_left fun m _ => (statement_record hclosed input m).symm)
  refine ⟨h.logger, hwritten, h.inOrder, h.once, fun m => ?_⟩
  by_cases hm : m = n
  · subst hm
    refine ⟨hn.handed_iff, ?_, fun hnot => ?_, hn.undeclared, fun hun => ?_⟩
    · simp [record, hclosed, hpc, CapturePc.handed]
    · exact (hn.context hnot).trans (statement_record hclosed input m).symm
    · rw [record, hpc] at hun
      cases hun
  · exact (h.captures m).congr rfl rfl (by simp [record, hm]) Iff.rfl id (Nat.le_refl _)

private theorem sound_stream {data : String} (h : Sound localtime s)
    (hstep : s.step localtime (.stream n data) = some t) : Sound localtime t := by
  have hn := h.captures n
  cases hpc : s.pc n with
  | undeclared => simp [step, hpc] at hstep
  | writing => simp [step, hpc] at hstep
  | destroyed => simp [step, hpc] at hstep
  | holding =>
    simp only [step, hpc, Option.some.injEq] at hstep
    subst hstep
    have hopen : .manipulator ∉ s.history n := by
      rw [hn.manipulated_iff, hpc]
      exact Bool.false_ne_true
    have hnot : n ∉ s.written := h.notMem_written (by rw [hpc]; rfl)
    refine ⟨h.logger, h.written.trans (List.map_congr_left fun m hm => ?_), h.inOrder, h.once, fun m => ?_⟩
    · have hne : m ≠ n := fun heq => hnot (heq ▸ hm)
      refine Eq.symm (statement_congr ?_ ?_)
      · simp [hne]
      · simp [record, hne]
    · by_cases hm : m = n
      · subst hm
        refine ⟨hn.handed_iff, ?_, fun _ => ?_, hn.undeclared, fun hun => ?_⟩
        · simp [record, hn.manipulated_iff]
        · have hcontext := hn.context hnot
          calc Function.update s.context m { s.context m with str := (s.context m).str ++ data } m
              = { s.context m with str := (s.context m).str ++ data } := Function.update_self _ _ _
            _ = { s.statement m with str := (s.statement m).str ++ data } := by rw [← hcontext]
            _ = _ := by simp [statement, record, line_append hopen, line]
        · rw [record, hpc] at hun
          cases hun
      · exact (h.captures m).congr rfl (by simp [hm]) (by simp [record, hm]) Iff.rfl id (Nat.le_refl _)
  | reset =>
    simp only [step, hpc, Option.some.injEq] at hstep
    subst hstep
    exact sound_record_reset h hpc (.text data)

private theorem sound_push {writer : AsyncLogWriter Nat Unit} (h : Sound localtime s) (hpc : s.pc n = .holding)
    (hpush : s.writer.step (.push n ()) = some writer) :
    Sound localtime
      { s.record n .manipulator with writer := writer, pc := Function.update s.pc n .writing } := by
  have hn := h.captures n
  have hinOrder := AsyncLogWriter.step_inOrder _ _ _ h.inOrder hpush
  have hnew : n ∉ s.handed := by
    rw [hn.handed_iff, hpc]
    exact Bool.false_ne_true
  cases AsyncLogWriter.step_move hpush with
  | pushed =>
    have hline : ∀ m, line ((s.record n .manipulator).history m) = line (s.history m) := by
      intro m
      by_cases hm : m = n
      · subst hm
        simp [record, line_append_manipulator]
      · simp [record, hm]
    have hstatement : ∀ m, (s.record n .manipulator).statement m = s.statement m := fun m => by
      rw [statement, statement, hline]
      rfl
    refine ⟨h.logger, h.written.trans (List.map_congr_left fun m _ => (hstatement m).symm), hinOrder, ?_, fun m => ?_⟩
    · simp only [handed, List.map_append, List.map_cons, List.map_nil]
      rw [List.nodup_append]
      refine ⟨h.once, List.nodup_singleton n, fun a ha b hb heq => hnew ?_⟩
      rw [← List.mem_singleton.1 hb, ← heq]
      exact ha
    · by_cases hm : m = n
      · subst hm
        refine ⟨?_, ?_, fun hnot => ?_, fun hle => ?_, fun hun => ?_⟩
        · simp [handed, CapturePc.handed]
        · simp [record, CapturePc.handed]
        · exact (hn.context hnot).trans (hstatement m).symm
        · rw [hn.undeclared hle] at hpc
          cases hpc
        · simp at hun
      · have hother : m ∈ handed { s.record n .manipulator with
            writer := { s.writer with
              pendding := s.writer.pendding ++ [(n, ())]
              entered := s.writer.entered ++ [(n, ())]
              unposted := s.writer.unposted + 1 }
            pc := Function.update s.pc n .writing } ↔ m ∈ s.handed := by
          simp [handed, hm]
        exact (h.captures m).congr (by simp [hm]) rfl (by simp [record, hm]) hother id (Nat.le_refl _)

/-! ### The steps of the writer -/

/-- Neither the records that have been handed over nor those that have been written change, and no capture goes back. -/
theorem Sound.move {writer : AsyncLogWriter Nat Unit} {pc : Nat → CapturePc} (h : Sound localtime s)
    (hinOrder : writer.InOrder) (hentered : writer.entered = s.writer.entered)
    (hdelivered : writer.delivered = s.writer.delivered) (hhanded : ∀ n, (pc n).handed = (s.pc n).handed)
    (hundeclared : ∀ n, pc n = .undeclared ↔ s.pc n = .undeclared) :
    Sound localtime { s with writer := writer, pc := pc } := by
  have hwritten : ({ s with writer := writer, pc := pc } : LogProgram χ).written = s.written :=
    congrArg (List.map Prod.fst) hdelivered
  have hhandedList : ({ s with writer := writer, pc := pc } : LogProgram χ).handed = s.handed :=
    congrArg (List.map Prod.fst) hentered
  refine ⟨h.logger, ?_, hinOrder, ?_, fun n => ⟨?_, ?_, ?_, ?_, ?_⟩⟩
  · rw [hwritten]
    exact h.written
  · rw [hhandedList]
    exact h.once
  · rw [hhandedList, (h.captures n).handed_iff, hhanded]
  · simp only [hhanded]
    exact (h.captures n).manipulated_iff
  · rw [hwritten]
    exact (h.captures n).context
  · exact fun hle => (hundeclared n).2 ((h.captures n).undeclared hle)
  · exact fun hun => (h.captures n).empty ((hundeclared n).1 hun)

private theorem sound_post (h : Sound localtime s) (hstep : s.step localtime (.post n) = some t) :
    Sound localtime t := by
  obtain ⟨hpc, hstep⟩ := Option.ite_none_right_eq_some.1 hstep
  obtain ⟨writer, hpost, rfl⟩ := Option.map_eq_some_iff.1 hstep
  have hinOrder := AsyncLogWriter.step_inOrder _ _ _ h.inOrder hpost
  cases AsyncLogWriter.step_move hpost with
  | posted =>
    refine h.move hinOrder rfl rfl (fun m => ?_) fun m => ?_
    · by_cases hm : m = n <;> simp [hm, hpc, CapturePc.handed]
    · by_cases hm : m = n <;> simp [hm, hpc]

private theorem sound_destroy (h : Sound localtime s) (hstep : s.step localtime (.destroy n) = some t) :
    Sound localtime t := by
  obtain ⟨hpc, heq⟩ := Option.ite_none_right_eq_some.1 hstep
  obtain rfl := Option.some.inj heq
  refine h.move h.inOrder rfl rfl (fun m => ?_) fun m => ?_
  · by_cases hm : m = n <;> simp [hm, hpc, CapturePc.handed]
  · by_cases hm : m = n <;> simp [hm, hpc]

/-- The other steps of the writer thread, and those of its destructor. -/
private theorem sound_own {a : LogAction Nat Unit} (h : Sound localtime s)
    (hstep : s.step localtime (.writer a) = some t) : Sound localtime t := by
  obtain ⟨hown, hstep⟩ := Option.ite_none_right_eq_some.1 hstep
  obtain ⟨writer, hwriter, rfl⟩ := Option.map_eq_some_iff.1 hstep
  have hinOrder := AsyncLogWriter.step_inOrder _ _ _ h.inOrder hwriter
  have hsame : writer.entered = s.writer.entered ∧ writer.delivered = s.writer.delivered := by
    cases AsyncLogWriter.step_move hwriter with
    | pushed | posted | batchDone | handed => cases hown
    | tested | woken | nothing | swapped | exitSet | exitPosted | joined => exact ⟨rfl, rfl⟩
  exact h.move hinOrder hsame.1 hsame.2 (fun _ => rfl) fun _ => Iff.rfl

omit [DecidableEq χ] in
/-- The channels leave the record as it was, but for the text that they have taken from it. -/
private theorem foldl_writeTo_env (localtime : Int → Option Tm) {log : LogContext} (nodes : List χ) (logger : Logger χ)
    (log' : LogContext) (hsame : LogContext.Same log log') :
    (nodes.foldl (Logger.writeTo localtime) (logger, log')).2.env = log.env := by
  induction nodes generalizing logger log' with
  | nil => exact hsame.env
  | cons node nodes ih => exact ih _ _ (hsame.writeLog localtime (logger.level node))

/-- A record is written from its object, which holds the line of its statement. -/
private theorem sound_deliver (h : Sound localtime s) (hstep : s.step localtime .deliver = some t) :
    Sound localtime t := by
  obtain ⟨writer, hdeliver, rfl⟩ := Option.map_eq_some_iff.1 hstep
  have hinOrder := AsyncLogWriter.step_inOrder _ _ _ h.inOrder hdeliver
  cases AsyncLogWriter.step_move hdeliver with
  | batchDone hpc =>
    rw [writeNext, hpc]
    exact h.move hinOrder rfl rfl (fun _ => rfl) fun _ => Iff.rfl
  | handed r rest hpc =>
    obtain ⟨n, ⟨⟩⟩ := r
    have hnew : n ∉ s.written := by
      have honce := h.once
      rw [handed, ← h.inOrder.order, hpc] at honce
      simp only [WriterPc.rest, List.append_assoc, List.map_append, List.map_cons, List.cons_append] at honce
      intro hn
      exact (List.nodup_append.1 honce).2.2 n hn n List.mem_cons_self rfl
    have henv : (s.logger.channels.foldl (Logger.writeTo localtime) (s.logger, s.context n)).2.env =
        (s.context n).env :=
      foldl_writeTo_env localtime s.logger.channels s.logger (s.context n) (.refl _)
    have hcall : s.logger.step localtime (.writeLogToChannels (s.context n)) =
        some (s.logger.channels.foldl (Logger.writeTo localtime) (s.logger, s.context n)).1 := rfl
    have hwrite : s.writeNext localtime = { s with
        context := Function.update s.context n
          (s.logger.channels.foldl (Logger.writeTo localtime) (s.logger, s.context n)).2
        logger := (s.logger.channels.foldl (Logger.writeTo localtime) (s.logger, s.context n)).1
        calls := s.calls ++ [.writeLogToChannels (s.context n)] } := by
      rw [writeNext, hpc]
    rw [hwrite]
    generalize s.logger.channels.foldl (Logger.writeTo localtime) (s.logger, s.context n) = r at henv hcall
    have hstatement : ∀ m, statement { s with context := Function.update s.context n r.2 } m = s.statement m := by
      intro m
      by_cases hm : m = n
      · subst hm
        exact statement_congr (by simpa using henv) rfl
      · exact statement_congr (by simp [hm]) rfl
    refine ⟨?_, ?_, hinOrder, h.once, fun m => ?_⟩
    · exact Transition.exec_append.2 ⟨s.logger, h.logger, Transition.exec_cons.2 ⟨r.1, hcall, rfl⟩⟩
    · have hlast : records [(.writeLogToChannels (s.context n) : LogCall χ)] = [s.context n] := rfl
      rw [records, List.filterMap_append, ← records, ← records, hlast, h.written, (h.captures n).context hnew]
      simp only [written, List.map_append, List.map_cons, List.map_nil]
      exact congrArg₂ (· ++ ·) (List.map_congr_left fun m _ => (hstatement m).symm) (by rw [← hstatement n]; rfl)
    · by_cases hm : m = n
      · subst hm
        have hn := h.captures m
        refine ⟨hn.handed_iff, hn.manipulated_iff, fun hnot => ?_, hn.undeclared, hn.empty⟩
        exact absurd (by simp [written]) hnot
      · exact (h.captures m).congr rfl (by simp [hm]) rfl Iff.rfl (by simp [written]; tauto) (Nat.le_refl _)

private theorem sound_callLogger {call : LogCall χ} (h : Sound localtime s) (hrecords : records [call] = [])
    (hstep : s.callLogger localtime call = some t) : Sound localtime t := by
  obtain ⟨logger, hlogger, rfl⟩ := Option.map_eq_some_iff.1 hstep
  refine ⟨?_, ?_, h.inOrder, h.once, fun n => (h.captures n).congr rfl rfl rfl Iff.rfl id (Nat.le_refl _)⟩
  · exact Transition.exec_append.2 ⟨s.logger, h.logger, Transition.exec_cons.2 ⟨logger, hlogger, rfl⟩⟩
  · rw [records, List.filterMap_append, ← records, ← records, hrecords, List.append_nil]
    exact h.written

theorem sound_step {a : LogProgramAction χ} (h : Sound localtime s) (hstep : s.step localtime a = some t) :
    Sound localtime t := by
  cases a with
  | capture env => exact sound_capture h hstep
  | stream n data => exact sound_stream h hstep
  | manipulate n =>
    cases hpc : s.pc n with
    | undeclared => simp [step, hpc] at hstep
    | writing => simp [step, hpc] at hstep
    | destroyed => simp [step, hpc] at hstep
    | reset =>
      simp only [step, hpc, Option.some.injEq] at hstep
      subst hstep
      exact sound_record_reset h hpc .manipulator
    | holding =>
      simp only [step, hpc] at hstep
      obtain ⟨writer, hpush, rfl⟩ := Option.map_eq_some_iff.1 hstep
      exact sound_push h hpc hpush
  | post n => exact sound_post h hstep
  | destroy n => exact sound_destroy h hstep
  | writer a => exact sound_own h hstep
  | deliver => exact sound_deliver h hstep
  | addLogChannel channel => exact sound_callLogger h rfl hstep
  | setLevel channel level => exact sound_callLogger h rfl hstep

private theorem writer_step {a : LogProgramAction χ} (hstep : s.step localtime a = some t) :
    t.writer = s.writer ∨ ∃ b, s.writer.step b = some t.writer := by
  cases a with
  | capture env =>
    obtain rfl := Option.some.inj hstep
    exact .inl rfl
  | stream n data =>
    simp only [step] at hstep
    split at hstep
    · obtain rfl := Option.some.inj hstep
      exact .inl rfl
    · obtain rfl := Option.some.inj hstep
      exact .inl rfl
    · cases hstep
  | manipulate n =>
    simp only [step] at hstep
    split at hstep
    · obtain ⟨writer, hpush, rfl⟩ := Option.map_eq_some_iff.1 hstep
      exact .inr ⟨_, hpush⟩
    · obtain rfl := Option.some.inj hstep
      exact .inl rfl
    · cases hstep
  | post n =>
    obtain ⟨-, hstep⟩ := Option.ite_none_right_eq_some.1 hstep
    obtain ⟨writer, hpost, rfl⟩ := Option.map_eq_some_iff.1 hstep
    exact .inr ⟨_, hpost⟩
  | destroy n =>
    obtain ⟨-, heq⟩ := Option.ite_none_right_eq_some.1 hstep
    obtain rfl := Option.some.inj heq
    exact .inl rfl
  | writer a =>
    obtain ⟨-, hstep⟩ := Option.ite_none_right_eq_some.1 hstep
    obtain ⟨writer, hwriter, rfl⟩ := Option.map_eq_some_iff.1 hstep
    exact .inr ⟨_, hwriter⟩
  | deliver =>
    obtain ⟨writer, hdeliver, rfl⟩ := Option.map_eq_some_iff.1 hstep
    exact .inr ⟨_, hdeliver⟩
  | addLogChannel channel =>
    obtain rfl := Option.some.inj hstep
    exact .inl rfl
  | setLevel channel level =>
    obtain rfl := Option.some.inj hstep
    exact .inl rfl

theorem posted_step {a : LogProgramAction χ} (h : s.writer.Posted) (hstep : s.step localtime a = some t) :
    t.writer.Posted := by
  rcases writer_step hstep with hsame | ⟨b, hb⟩
  · rw [hsame]
    exact h
  · exact h.step hb

/-! ### The actions of a run -/

/-- The captures, what has been streamed into them and the order in which they were handed over are those of the
actions of the run. -/
structure Recorded (as : List (LogProgramAction χ)) (s : LogProgram χ) : Prop where
  history : ∀ n, s.history n = as.filterMap (LogProgramAction.input n)
  captures : s.captures = (as.filterMap LogProgramAction.env).length
  env : ∀ n env, (as.filterMap LogProgramAction.env)[n]? = some env → (s.context n).env = env
  handed : s.handed = (as.filterMap LogProgramAction.manipulated).eraseDups

omit [DecidableEq χ] in
theorem Recorded.init : Recorded [] (init : LogProgram χ) :=
  ⟨fun _ => rfl, rfl, fun n env h => by simp at h, rfl⟩

/-- What an action has to do with the statements. -/
structure Effect (s : LogProgram χ) (a : LogProgramAction χ) (t : LogProgram χ) : Prop where
  history : ∀ n, t.history n = s.history n ++ (a.input n).toList
  captures : t.captures = s.captures + a.env.toList.length
  env : ∀ n, (t.context n).env = if n = s.captures then a.env.getD (s.context n).env else (s.context n).env
  handed : t.handed = s.handed ∧ (∀ n, a.manipulated = some n → s.pc n = .reset) ∨
    ∃ n, a.manipulated = some n ∧ s.pc n = .holding ∧ t.handed = s.handed ++ [n]

omit [DecidableEq χ] in
theorem Effect.quiet {a : LogProgramAction χ} (hinput : ∀ n, a.input n = none) (henv : a.env = none)
    (hmanipulated : a.manipulated = none) (hhistory : t.history = s.history) (hcaptures : t.captures = s.captures)
    (hcontext : ∀ n, (t.context n).env = (s.context n).env) (hhanded : t.handed = s.handed) : Effect s a t where
  history n := by rw [hinput, hhistory]; exact (List.append_nil _).symm
  captures := by rw [henv, hcaptures]; rfl
  env n := by rw [henv, hcontext, Option.getD_none, ite_self]
  handed := .inl ⟨hhanded, fun n hn => by rw [hmanipulated] at hn; cases hn⟩

omit [DecidableEq χ] in
private theorem history_record (s : LogProgram χ) (m n : Nat) (input : LogInput) :
    (s.record m input).history n = s.history n ++ (if m = n then some input else none).toList := by
  by_cases hm : m = n
  · subst hm
    simp [record]
  · have hne : n ≠ m := Ne.symm hm
    simp [record, hm, hne]

omit [DecidableEq χ] in
private theorem writeNext_effect (localtime : Int → Option Tm) (s : LogProgram χ) :
    (s.writeNext localtime).history = s.history ∧ (s.writeNext localtime).captures = s.captures ∧
      ∀ n, ((s.writeNext localtime).context n).env = (s.context n).env := by
  unfold writeNext
  split
  · rename_i r rest hpc
    refine ⟨rfl, rfl, fun n => ?_⟩
    have henv := foldl_writeTo_env localtime s.logger.channels s.logger (s.context r.1) (.refl _)
    by_cases hn : n = r.1
    · subst hn
      simpa using henv
    · simp [hn]
  · exact ⟨rfl, rfl, fun n => rfl⟩

private theorem effect_step {a : LogProgramAction χ} (hstep : s.step localtime a = some t) : Effect s a t := by
  cases a with
  | capture env =>
    obtain rfl := Option.some.inj hstep
    refine ⟨fun n => (List.append_nil _).symm, rfl, fun n => ?_, .inl ⟨rfl, nofun⟩⟩
    by_cases hn : n = s.captures
    · subst hn
      simp [LogProgramAction.env, create]
    · simp [hn]
  | stream m data =>
    simp only [step] at hstep
    split at hstep
    · obtain rfl := Option.some.inj hstep
      refine ⟨fun n => history_record s m n (.text data), rfl, fun n => ?_, .inl ⟨rfl, nofun⟩⟩
      by_cases hn : n = m
      · subst hn
        simp [LogProgramAction.env]
      · simp [LogProgramAction.env, hn]
    · obtain rfl := Option.some.inj hstep
      exact ⟨fun n => history_record s m n (.text data), rfl, fun n => by simp [LogProgramAction.env, record],
        .inl ⟨rfl, nofun⟩⟩
    · cases hstep
  | manipulate m =>
    simp only [step] at hstep
    split at hstep
    · rename_i hpc
      obtain ⟨writer, hpush, rfl⟩ := Option.map_eq_some_iff.1 hstep
      refine ⟨fun n => history_record s m n .manipulator, rfl, fun n => by simp [LogProgramAction.env, record],
        .inr ⟨m, rfl, hpc, ?_⟩⟩
      cases AsyncLogWriter.step_move hpush with
      | pushed => simp [handed]
    · rename_i hpc
      obtain rfl := Option.some.inj hstep
      refine ⟨fun n => history_record s m n .manipulator, rfl, fun n => by simp [LogProgramAction.env, record],
        .inl ⟨rfl, fun n hn => ?_⟩⟩
      obtain rfl := Option.some.inj hn
      exact hpc
    · cases hstep
  | post m =>
    obtain ⟨-, hstep⟩ := Option.ite_none_right_eq_some.1 hstep
    obtain ⟨writer, hpost, rfl⟩ := Option.map_eq_some_iff.1 hstep
    refine .quiet (fun n => rfl) rfl rfl rfl rfl (fun n => rfl) ?_
    cases AsyncLogWriter.step_move hpost with
    | posted => rfl
  | destroy m =>
    obtain ⟨-, ⟨⟩⟩ := Option.ite_none_right_eq_some.1 hstep
    exact .quiet (fun n => rfl) rfl rfl rfl rfl (fun n => rfl) rfl
  | writer b =>
    obtain ⟨hown, hstep⟩ := Option.ite_none_right_eq_some.1 hstep
    obtain ⟨writer, hwriter, rfl⟩ := Option.map_eq_some_iff.1 hstep
    refine .quiet (fun n => rfl) rfl rfl rfl rfl (fun n => rfl) ?_
    cases AsyncLogWriter.step_move hwriter with
    | pushed | posted | batchDone | handed => cases hown
    | tested | woken | nothing | swapped | exitSet | exitPosted | joined => rfl
  | deliver =>
    obtain ⟨writer, hdeliver, rfl⟩ := Option.map_eq_some_iff.1 hstep
    obtain ⟨hhistory, hcaptures, henv⟩ := writeNext_effect localtime s
    refine .quiet (fun n => rfl) rfl rfl hhistory hcaptures henv ?_
    cases AsyncLogWriter.step_move hdeliver with
    | batchDone | handed => rfl
  | addLogChannel channel =>
    obtain rfl := Option.some.inj hstep
    exact .quiet (fun n => rfl) rfl rfl rfl rfl (fun n => rfl) rfl
  | setLevel channel level =>
    obtain rfl := Option.some.inj hstep
    exact .quiet (fun n => rfl) rfl rfl rfl rfl (fun n => rfl) rfl

private theorem eraseDups_concat (l : List Nat) (n : Nat) :
    (l ++ [n]).eraseDups = if n ∈ l then l.eraseDups else l.eraseDups ++ [n] := by
  rw [List.eraseDups_append]
  by_cases h : n ∈ l
  · simp [List.removeAll, h]
  · simp [List.removeAll, h, List.eraseDups_cons]

theorem Recorded.concat {as : List (LogProgramAction χ)} {a : LogProgramAction χ} (h : Sound localtime s)
    (hs : Recorded as s) (hstep : s.step localtime a = some t) : Recorded (as ++ [a]) t := by
  have heffect := effect_step hstep
  refine ⟨fun n => ?_, ?_, fun n env henv => ?_, ?_⟩
  · rw [Transition.filterMap_concat, heffect.history, hs.history]
  · rw [Transition.filterMap_concat, List.length_append, heffect.captures, hs.captures]
  · rw [Transition.filterMap_concat, Transition.getElem?_append_toList, ← hs.captures] at henv
    rw [heffect.env]
    rcases henv with hold | ⟨rfl, hnew⟩
    · have hlt := (List.getElem?_eq_some_iff.1 hold).1
      rw [if_neg (by rw [hs.captures]; exact Nat.ne_of_lt hlt), hs.env n env hold]
    · rw [if_pos rfl, hnew, Option.getD_some]
  · rw [Transition.filterMap_concat]
    have hmem : ∀ n, n ∈ as.filterMap LogProgramAction.manipulated ↔ (s.pc n).handed = true := by
      intro n
      rw [← List.mem_eraseDups, ← hs.handed, (h.captures n).handed_iff]
    rcases heffect.handed with ⟨hsame, hreset⟩ | ⟨n, hn, hpc, hnew⟩
    · rw [hsame, hs.handed]
      cases hman : a.manipulated with
      | none => rw [Option.toList_none, List.append_nil]
      | some n =>
        -- the statement has been handed over before
        have hold := (hmem n).2 (by rw [hreset n hman]; rfl)
        rw [Option.toList_some, eraseDups_concat, if_pos hold]
    · have hfirst : n ∉ as.filterMap LogProgramAction.manipulated := by
        rw [hmem, hpc]
        exact Bool.false_ne_true
      rw [hnew, hn, Option.toList_some, eraseDups_concat, if_neg hfirst, hs.handed]

private theorem recorded_exec {as : List (LogProgramAction χ)}
    (hrun : Transition.exec (step localtime) init as = some s) : Sound localtime s ∧ Recorded as s := by
  have hinit : Sound localtime (init : LogProgram χ) ∧ Recorded [] (init : LogProgram χ) := ⟨.init localtime, .init⟩
  refine Transition.exec_history (P := fun as s => Sound localtime s ∧ Recorded as s) ?_ hinit hrun
  exact fun as s a t h hstep => ⟨sound_step h.1 hstep, h.2.concat h.1 hstep⟩

/-! ### Whole runs -/

/-- In every run, the calls that the logger has got hand to the channels one record for each statement that has been
written, with the line of the statement, in the order in which the statements came to their first manipulators.  Each
statement comes to one before its capture is destroyed, and is handed over once.  While the writer thread sleeps, all
of them have been written; when the destructor of the writer has returned, they have unless some were left in
`pendding_`.  What a statement is, and when it comes to its first manipulator, is read off the actions of the run. -/
theorem statements_written (localtime : Int → Option Tm) (as : List (LogProgramAction χ)) (s : LogProgram χ)
    (hrun : Transition.exec (step localtime) init as = some s) :
    Transition.exec (Logger.step localtime) .init s.calls = some s.logger ∧
      records s.calls = s.written.map s.statement ∧
      s.written <+: s.handed ∧ s.handed.Nodup ∧
      (∀ n, n ∈ s.handed ↔ .manipulator ∈ s.history n) ∧
      (∀ n, s.pc n = .destroyed → n ∈ s.handed) ∧
      (s.writer.pc = .waiting → s.writer.semphore = 0 → s.writer.unposted = 0 → s.written = s.handed) ∧
      (s.writer.joined = true → (s.written = s.handed ↔ s.writer.pendding = [])) ∧ Recorded as s := by
  obtain ⟨hsound, hrecorded⟩ := recorded_exec hrun
  have hposted : (fun s : LogProgram χ => s.writer.Posted) s :=
    Transition.exec_invariant (fun _ _ _ h hstep => posted_step h hstep) AsyncLogWriter.Posted.init hrun
  have hpair : ∀ rs : List (Nat × Unit), rs.map (fun r => (r.1, ())) = rs := fun rs => List.map_id _
  refine ⟨hsound.logger, hsound.written, ?_, hsound.once, fun n => ?_, fun n hpc => ?_, fun hpc hsem hun => ?_,
    fun hjoined => ?_, hrecorded⟩
  · rw [written, handed, ← hsound.inOrder.order, List.append_assoc, List.map_append]
    exact List.prefix_append _ _
  · rw [(hsound.captures n).handed_iff, (hsound.captures n).manipulated_iff]
  · rw [(hsound.captures n).handed_iff, hpc]
    rfl
  · rw [written, handed, hposted.delivered hsound.inOrder hpc hsem hun]
  · rw [← hsound.inOrder.delivered_iff hjoined]
    constructor
    · intro heq
      have hunit := congrArg (List.map fun n => (n, ())) heq
      rw [written, handed, List.map_map, List.map_map] at hunit
      exact (hpair _).symm.trans (hunit.trans (hpair _))
    · exact congrArg (List.map Prod.fst)

/-- A statement streams two texts and ends with `std::endl` and `std::flush`, while another one that has begun before
it is still open; the channel is added first.  The first statement is written with what was streamed before the
`std::endl`. -/
def twoStatements : List (LogProgramAction Nat) :=
  [.addLogChannel 0, .capture (Logger.record kLogLevelDebug "").env, .stream 0 "a",
    .capture (Logger.record kLogLevelWarn "").env, .stream 1 "b", .stream 1 "c", .manipulate 1, .post 1, .stream 1 "d",
    .manipulate 1, .writer .test, .writer .wait, .writer .swap, .deliver, .destroy 1]

theorem statements_written_twoStatements :
    ∃ s, Transition.exec (step fun _ => none) init twoStatements = some s ∧
      records s.calls = [Logger.record kLogLevelWarn "bc"] ∧ records s.calls = s.written.map s.statement :=
  ⟨_, rfl, rfl, (statements_written (fun _ => none) twoStatements _ rfl).2.1⟩

end LogProgram

end AvcTool
