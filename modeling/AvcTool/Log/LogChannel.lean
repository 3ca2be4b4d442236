import Mathlib.Data.List.Count
import AvcTool.Lib.Transition

/-!
# What the log channels write

`writeLogToChannels` hands a record to the channels in the order in which they have been added.  A console channel
formats the record, which gives nothing if the level of the record is below that of the channel, and ends the line
after that in every case.  So a record that is filtered out leaves an empty line.

The channels are objects of type `χ`, numbered or named in some way, each with its own level; a channel that has been
added twice is handed each record twice.  `accepted` says which records a channel should write.
-/

namespace AvcTool

structure Timeval where
  tvSec : Int
  tvUsec : Int
  deriving DecidableEq, Repr

/-- The broken-down time of `localtime`. -/
structure Tm where
  tmYear : Int
  tmMon : Int
  tmMday : Int
  tmHour : Int
  tmMin : Int
  tmSec : Int
  deriving DecidableEq, Repr

/-- `LogContext::Env`, as far as a channel writes it. -/
structure LogEnv where
  level : Int32
  func : String
  line : Int32
  tv : Timeval
  threadName : String
  deriving DecidableEq, Repr

/-- A record: the text of its stream, and the text that `content` keeps. -/
structure LogContext where
  env : LogEnv
  str : String
  content_ : String
  gotContent : Bool
  deriving DecidableEq, Repr

def kLogLevelTrace : Int32 := 0
def kLogLevelDebug : Int32 := 1
def kLogLevelWarn : Int32 := 2
def kLogLevelFatal : UInt32 := 4
def kLogLevelMax : UInt32 := 5

def szLogLevel : List String := ["Trace", "Debug", "Warn", "Error", "Fatal", ""]

/-- A level below 0 is a large number here. -/
def strLogLevel (level : UInt32) : String :=
  let level := if level > kLogLevelFatal then kLogLevelMax else level
  szLogLevel.getD level.toNat ""

/-- The conversion `%0nd`, where the sign counts. -/
def zeroPadded (width : Nat) (n : Int) : String :=
  let sign := if n < 0 then "-" else ""
  let digits := toString n.natAbs
  sign ++ String.ofList (List.replicate (width - sign.length - digits.length) '0') ++ digits

/-- If there is no local time, the text is the 128 zero bytes that have been reserved for it. -/
def formatTime (localtime : Int → Option Tm) (tv : Timeval) : String :=
  match localtime tv.tvSec with
  | none => String.ofList (List.replicate 128 (Char.ofNat 0))
  | some tm =>
    toString (1900 + tm.tmYear) ++ "/" ++ zeroPadded 2 (1 + tm.tmMon) ++ "/" ++ zeroPadded 2 tm.tmMday ++ " " ++
      zeroPadded 2 tm.tmHour ++ ":" ++ zeroPadded 2 tm.tmMin ++ ":" ++ zeroPadded 2 tm.tmSec ++ "." ++
      zeroPadded 3 (tv.tvUsec.tdiv 1000)

namespace LogContext

/-- `gotContent_` is never set, so the text is taken from the stream again each time. -/
def content (log : LogContext) : LogContext × String :=
  if log.gotContent then (log, log.content_) else ({ log with content_ := log.str }, log.str)

/-- What stands in front of the text. -/
def header (localtime : Int → Option Tm) (env : LogEnv) : String :=
  "[" ++ formatTime localtime env.tv ++ "]" ++
    "[" ++ env.func ++ ":" ++ toString env.line.toInt ++ " " ++ env.threadName ++ "][" ++
    strLogLevel env.level.toUInt32 ++ "]: "

/-- `LogChannel::format` of a channel with this level: the record afterwards, and what is written. -/
def format (localtime : Int → Option Tm) (level : Int32) (log : LogContext) : LogContext × String :=
  if log.env.level < level then (log, "") else
  let (log, content) := log.content
  (log, header localtime log.env ++ content)

/-- `LogChannelConsole::writeLog`. -/
def writeLog (localtime : Int → Option Tm) (level : Int32) (log : LogContext) : LogContext × String :=
  let (log, text) := log.format localtime level
  (log, text ++ "\n")

/-- The formatted line of a record. -/
def formatted (localtime : Int → Option Tm) (log : LogContext) : String :=
  header localtime log.env ++ log.content.2 ++ "\n"

/-- The channels that a record is handed to one after the other find the same record. -/
structure Same (log log' : LogContext) : Prop where
  env : log'.env = log.env
  content : log'.content.2 = log.content.2

theorem Same.refl (log : LogContext) : Same log log := ⟨rfl, rfl⟩

private theorem same_content (log : LogContext) : Same log log.content.1 := by
  unfold content
  split
  · exact .refl log
  · rename_i hgot
    exact ⟨rfl, by simp [content, hgot]⟩

theorem Same.writeLog {log log' : LogContext} (h : Same log log') (localtime : Int → Option Tm) (level : Int32) :
    Same log (log'.writeLog localtime level).1 := by
  by_cases hlevel : log'.env.level < level
  · simp only [LogContext.writeLog, format, if_pos hlevel]
    exact h
  · simp only [LogContext.writeLog, format, if_neg hlevel]
    exact ⟨log'.same_content.env.trans h.env, log'.same_content.content.trans h.content⟩

/-- What a channel of this level writes; the end of the line is outside of the test. -/
private theorem Same.writeLog_snd {log log' : LogContext} (h : Same log log') (localtime : Int → Option Tm)
    (level : Int32) :
    (log'.writeLog localtime level).2 = if level ≤ log.env.level then log.formatted localtime else "\n" := by
  by_cases hlevel : level ≤ log.env.level
  · have hnot : ¬ log'.env.level < level := h.env ▸ Int32.not_lt.2 hlevel
    have henv : log'.content.1.env = log.env := log'.same_content.env.trans h.env
    simp only [LogContext.writeLog, format, if_neg hnot, if_pos hlevel]
    rw [henv, h.content, formatted]
  · have hlt : log'.env.level < level := h.env ▸ Int32.not_le.1 hlevel
    simp only [LogContext.writeLog, format, if_pos hlt, if_neg hlevel, String.empty_append]

private theorem length_formatted (localtime : Int → Option Tm) (log : LogContext) :
    0 < (log.formatted localtime).length := by
  have hend : "\n".length = 1 := rfl
  rw [formatted, String.length_append, hend]
  omega

end LogContext

structure Logger (χ : Type*) where
  /-- `level_` of each channel -/
  level : χ → Int32
  channels : List χ
  /-- what the channels have written to the standard output, in its order -/
  cout : List (χ × String)

inductive LogCall (χ : Type*) where
  | addLogChannel (channel : χ)
  | setLevel (channel : χ) (level : Int32)
  | writeLogToChannels (log : LogContext)

namespace Logger

variable {χ : Type*} [DecidableEq χ]

def init : Logger χ :=
  { level := fun _ => kLogLevelTrace, channels := [], cout := [] }

/-- One pass of the loop of `writeLogToChannels`. -/
def writeTo (localtime : Int → Option Tm) (r : Logger χ × LogContext) (node : χ) : Logger χ × LogContext :=
  let (s, log) := r
  let (log, text) := log.writeLog localtime (s.level node)
  ({ s with cout := s.cout ++ [(node, text)] }, log)

def step (localtime : Int → Option Tm) (s : Logger χ) : LogCall χ → Option (Logger χ)
  | .addLogChannel channel => some { s with channels := s.channels ++ [channel] }
  | .setLevel channel level => some { s with level := Function.update s.level channel level }
  | .writeLogToChannels log => some (s.channels.foldl (writeTo localtime) (s, log)).1

def text (s : Logger χ) (c : χ) : String :=
  String.join ((s.cout.filter fun w => w.1 = c).map Prod.snd)

/-- The records that are written after the channel has been added and have its level at least. -/
def accepted (c : χ) : Bool → Int32 → List (LogCall χ) → List LogContext
  | _, _, [] => []
  | added, level, .addLogChannel channel :: calls => accepted c (added || channel = c) level calls
  | added, level, .setLevel channel level' :: calls => accepted c added (if channel = c then level' else level) calls
  | added, level, .writeLogToChannels log :: calls =>
    if added ∧ level ≤ log.env.level then log :: accepted c added level calls else accepted c added level calls

/-- A record that is written while the channel is there has its level at least, and the channel is there once. -/
def WritesOnce (c : χ) (s : Logger χ) : LogCall χ → Prop
  | .writeLogToChannels log => c ∈ s.channels → s.level c ≤ log.env.level ∧ s.channels.count c = 1
  | .addLogChannel _ => True
  | .setLevel _ _ => True

variable {localtime : Int → Option Tm} {c : χ}

/-! ### One call -/

private theorem text_write (s : Logger χ) (node : χ) (text : String) :
    { s with cout := s.cout ++ [(node, text)] }.text c = s.text c ++ if node = c then text else "" := by
  unfold Logger.text
  rw [List.filter_append, List.map_append, String.join_append]
  by_cases hnode : node = c <;> simp [hnode]

def emitted (localtime : Int → Option Tm) (c : χ) (s : Logger χ) : LogCall χ → String
  | .writeLogToChannels log =>
    String.join (List.replicate (s.channels.count c)
      (if s.level c ≤ log.env.level then log.formatted localtime else "\n"))
  | .addLogChannel _ => ""
  | .setLevel _ _ => ""

def due (localtime : Int → Option Tm) (c : χ) (s : Logger χ) : LogCall χ → String
  | .writeLogToChannels log => if c ∈ s.channels ∧ s.level c ≤ log.env.level then log.formatted localtime else ""
  | .addLogChannel _ => ""
  | .setLevel _ _ => ""

private theorem foldl_writeTo (localtime : Int → Option Tm) (c : χ) {log : LogContext} (nodes : List χ) (s : Logger χ)
    (log' : LogContext) (hsame : LogContext.Same log log') :
    (nodes.foldl (writeTo localtime) (s, log')).1.channels = s.channels ∧
      (nodes.foldl (writeTo localtime) (s, log')).1.level = s.level ∧
      (nodes.foldl (writeTo localtime) (s, log')).1.text c = s.text c ++ String.join (List.replicate (nodes.count c)
        (if s.level c ≤ log.env.level then log.formatted localtime else "\n")) := by
  induction nodes generalizing s log' with
  | nil => simp
  | cons node nodes ih =>
    rw [List.foldl_cons]
    obtain ⟨hchannels, hlevel, htext⟩ := ih (writeTo localtime (s, log') node).1 (writeTo localtime (s, log') node).2
      (hsame.writeLog localtime (s.level node))
    refine ⟨hchannels, hlevel, htext.trans ?_⟩
    have hwrite : (writeTo localtime (s, log') node).1.text c = s.text c ++ if node = c then
        (if s.level node ≤ log.env.level then log.formatted localtime else "\n") else "" := by
      rw [← hsame.writeLog_snd localtime (s.level node)]
      exact text_write s node _
    have hsameLevel : (writeTo localtime (s, log') node).1.level c = s.level c := rfl
    rw [hwrite, hsameLevel, String.append_assoc]
    congr 1
    by_cases hnode : node = c
    · subst hnode
      rw [if_pos rfl, List.count_cons_self, List.replicate_succ, String.join_cons]
    · rw [if_neg hnode, List.count_cons_of_ne hnode]
      simp

private theorem text_step {s t : Logger χ} {call : LogCall χ} (h : s.step localtime call = some t) :
    t.text c = s.text c ++ emitted localtime c s call := by
  cases call with
  | addLogChannel channel =>
    obtain rfl := Option.some.inj h
    exact String.append_empty.symm
  | setLevel channel level =>
    obtain rfl := Option.some.inj h
    exact String.append_empty.symm
  | writeLogToChannels log =>
    obtain rfl := Option.some.inj h
    exact (foldl_writeTo localtime c s.channels s log (.refl log)).2.2

private theorem join_accepted {s t : Logger χ} {call : LogCall χ} (h : s.step localtime call = some t)
    (calls : List (LogCall χ)) :
    String.join ((accepted c (decide (c ∈ s.channels)) (s.level c) (call :: calls)).map
        (LogContext.formatted localtime)) =
      due localtime c s call ++ String.join
        ((accepted c (decide (c ∈ t.channels)) (t.level c) calls).map (LogContext.formatted localtime)) := by
  cases call with
  | addLogChannel channel =>
    obtain rfl := Option.some.inj h
    have hadded : decide (c ∈ s.channels ++ [channel]) = (decide (c ∈ s.channels) || decide (channel = c)) := by
      simp [eq_comm]
    rw [accepted, due, String.empty_append, hadded]
  | setLevel channel level =>
    obtain rfl := Option.some.inj h
    have hlevel : Function.update s.level channel level c = if channel = c then level else s.level c := by
      simp [Function.update_apply, eq_comm]
    dsimp only
    rw [accepted, due, String.empty_append, hlevel]
  | writeLogToChannels log =>
    obtain rfl := Option.some.inj h
    obtain ⟨hchannels, hlevel, -⟩ := foldl_writeTo localtime c s.channels s log (.refl log)
    rw [hchannels, hlevel, accepted, due]
    simp only [decide_eq_true_eq]
    split
    · rw [List.map_cons, String.join_cons]
    · rw [String.empty_append]

private theorem emitted_of_mem (localtime : Int → Option Tm) {s : Logger χ} (log : LogContext) (hmem : c ∈ s.channels) :
    ∃ k, s.channels.count c = k + 1 ∧ emitted localtime c s (.writeLogToChannels log) =
      (if s.level c ≤ log.env.level then log.formatted localtime else "\n") ++
        String.join (List.replicate k (if s.level c ≤ log.env.level then log.formatted localtime else "\n")) := by
  obtain ⟨k, hk⟩ := Nat.exists_eq_succ_of_ne_zero (Nat.ne_of_gt (List.count_pos_iff.2 hmem))
  refine ⟨k, hk, ?_⟩
  rw [emitted, hk, List.replicate_succ, String.join_cons]

private theorem length_due_le (localtime : Int → Option Tm) (c : χ) (s : Logger χ) (call : LogCall χ) :
    (due localtime c s call).length ≤ (emitted localtime c s call).length := by
  cases call with
  | addLogChannel channel => exact Nat.le_refl _
  | setLevel channel level => exact Nat.le_refl _
  | writeLogToChannels log =>
    rw [due]
    split
    · rename_i h
      obtain ⟨k, -, hemitted⟩ := emitted_of_mem localtime log h.1
      rw [hemitted, if_pos h.2, String.length_append]
      exact Nat.le_add_right _ _
    · exact Nat.zero_le _

/-- Too much is written for a record that is filtered out, and for one that is handed over twice. -/
private theorem emitted_eq_due_iff (s : Logger χ) (call : LogCall χ) :
    emitted localtime c s call = due localtime c s call ↔ WritesOnce c s call := by
  cases call with
  | addLogChannel channel => exact iff_of_true rfl trivial
  | setLevel channel level => exact iff_of_true rfl trivial
  | writeLogToChannels log =>
    by_cases hmem : c ∈ s.channels
    · obtain ⟨k, hk, hemitted⟩ := emitted_of_mem localtime log hmem
      rw [hemitted, due, WritesOnce, hk]
      by_cases hlevel : s.level c ≤ log.env.level
      · have hpos := log.length_formatted localtime
        simp only [hmem, hlevel, and_self, if_true, true_and, forall_const]
        constructor
        · intro heq
          cases k with
          | zero => rfl
          | succ k =>
            have hlength := congrArg String.length heq
            rw [List.replicate_succ, String.join_cons, String.length_append, String.length_append] at hlength
            omega
        · intro hone
          obtain rfl : k = 0 := by omega
          simp
      · have hend : "\n".length = 1 := rfl
        refine iff_of_false (fun heq => ?_) (fun h => hlevel (h hmem).1)
        have hlength := congrArg String.length heq
        rw [if_neg hlevel, if_neg (fun h => hlevel h.2), String.length_append, hend, String.length_empty] at hlength
        omega
    · have hcount : s.channels.count c = 0 := List.count_eq_zero.2 hmem
      exact iff_of_true (by simp [emitted, due, hcount, hmem]) (fun h => absurd h hmem)

/-! ### A run -/

/-- Two texts of which each part is at least as long as it should be are right only if each part is. -/
private theorem append_eq_append_iff_of_length_le {e e' d d' : String} (h : d.length ≤ e.length)
    (h' : d'.length ≤ e'.length) : e ++ e' = d ++ d' ↔ e = d ∧ e' = d' := by
  constructor
  · intro heq
    have hlength := congrArg String.length heq
    rw [String.length_append, String.length_append] at hlength
    have hlen : e.toList.length = d.toList.length := by
      rw [String.length_toList, String.length_toList]
      omega
    have hlists := congrArg String.toList heq
    rw [String.toList_append, String.toList_append] at hlists
    obtain ⟨he, he'⟩ := List.append_inj hlists hlen
    exact ⟨String.toList_inj.1 he, String.toList_inj.1 he'⟩
  · rintro ⟨rfl, rfl⟩
    rfl

/-- From any state on, the channel writes at least what it should, and exactly this if it writes every record that is
there once. -/
private theorem text_exec {s t : Logger χ} {calls : List (LogCall χ)}
    (h : Transition.exec (step localtime) s calls = some t) :
    ∃ e, t.text c = s.text c ++ e ∧
      (String.join ((accepted c (decide (c ∈ s.channels)) (s.level c) calls).map
        (LogContext.formatted localtime))).length ≤ e.length ∧
      (e = String.join ((accepted c (decide (c ∈ s.channels)) (s.level c) calls).map
        (LogContext.formatted localtime)) ↔ Transition.Along (step localtime) (WritesOnce c) s calls) := by
  induction calls generalizing s with
  | nil =>
    obtain rfl := Option.some.inj h
    exact ⟨"", String.append_empty.symm, Nat.le_refl _, iff_of_true rfl trivial⟩
  | cons call calls ih =>
    obtain ⟨r, hstep, hrest⟩ := Transition.exec_cons.1 h
    obtain ⟨e, htext, hlength, hiff⟩ := ih hrest
    have hdue := length_due_le localtime c s call
    refine ⟨emitted localtime c s call ++ e, ?_, ?_, ?_⟩
    · rw [htext, text_step hstep, String.append_assoc]
    · rw [join_accepted hstep, String.length_append, String.length_append]
      omega
    · rw [join_accepted hstep, append_eq_append_iff_of_length_le hdue hlength, emitted_eq_due_iff, hiff,
        Transition.along_cons]
      constructor
      · rintro ⟨honce, hal⟩
        refine ⟨honce, fun t' ht' => ?_⟩
        obtain rfl : r = t' := Option.some.inj (hstep.symm.trans ht')
        exact hal
      · rintro ⟨honce, hal⟩
        exact ⟨honce, hal r hstep⟩

/-! ### Main results -/

/-- After any calls, a channel has written the lines of the records that it has accepted, in their order and nothing
else, exactly if every record that was written while it was there had its level at least and was handed to it once. -/
theorem text_eq_accepted_iff (localtime : Int → Option Tm) (calls : List (LogCall χ)) (s : Logger χ)
    (hrun : Transition.exec (step localtime) init calls = some s) (c : χ) :
    s.text c = String.join ((accepted c false kLogLevelTrace calls).map (LogContext.formatted localtime)) ↔
      Transition.Along (step localtime) (WritesOnce c) init calls := by
  obtain ⟨e, htext, -, hiff⟩ := text_exec (c := c) hrun
  have hempty : (init : Logger χ).text c = "" := rfl
  rw [hempty, String.empty_append] at htext
  rw [htext]
  exact hiff

/-- A record with this level and text, for a time that `localtime` does not know. -/
def record (level : Int32) (str : String) : LogContext :=
  { env := { level := level, func := "main", line := 7, tv := ⟨0, 0⟩, threadName := "MainThread" }, str := str,
    content_ := "", gotContent := false }

/-- Two channels, of which the first one is set to warnings before the second record. -/
def twoChannels : List (LogCall Nat) :=
  [.addLogChannel 0, .writeLogToChannels (record kLogLevelTrace "first"), .addLogChannel 1,
    .setLevel 0 kLogLevelWarn, .writeLogToChannels (record kLogLevelDebug "second"),
    .writeLogToChannels (record kLogLevelWarn "third")]

theorem text_eq_accepted_iff_twoChannels :
    ∃ s, Transition.exec (step fun _ => none) init twoChannels = some s ∧
      (s.text 1 = String.join ((accepted 1 false kLogLevelTrace twoChannels).map (LogContext.formatted fun _ => none)) ↔
        Transition.Along (step fun _ => none) (WritesOnce 1) init twoChannels) :=
  ⟨_, rfl, text_eq_accepted_iff (fun _ => none) twoChannels _ rfl 1⟩

def traceToWarnings : List (LogCall Nat) :=
  [.addLogChannel 0, .setLevel 0 kLogLevelWarn, .writeLogToChannels (record kLogLevelTrace "first")]

theorem filtered_record_leaves_line :
    ∃ s, Transition.exec (step fun _ => none) init traceToWarnings = some s ∧ s.text 0 = "\n" ∧
      s.text 0 ≠
        String.join ((accepted 0 false kLogLevelTrace traceToWarnings).map (LogContext.formatted fun _ => none)) :=
  ⟨_, rfl, by decide, by decide⟩

end Logger

end AvcTool
