import Mathlib.Data.List.Forall2
import Mathlib.Data.List.TakeWhile
import AvcTool.Lib.Transition

/-!
# Error chains

An `AvcCplxError` holds the place where it has been made, a message and an error code, and `wrap_` points to the error
that it has been wrapped around.  `summary` walks along `wrap_` and keeps the text in the object; `copy` copies the
objects of the chain and leaves the texts behind.

What an error stands for is an `ErrorChain`, the code and the layers from the outermost one on.  `ErrorChain.Text` says
what its text is to be: the description of the code, and then for each layer a line with its file name, function, line
and message, indented by as many steps as there are layers before it.  `Denotes` reads a chain off the objects.  Each
operation on the objects is the operation on the chains (`story_kept`), whatever texts have been kept before.
-/

namespace AvcTool

/-- What one call of `create` or `wrap` records; the message is what `vasprintf` has written. -/
structure ErrorLayer where
  file : String
  func : String
  line : Int
  message : String
  deriving DecidableEq, Repr

/-- An object, whose `wrap_` is the number of another object. -/
structure AvcCplxError where
  file : String
  func : String
  line : Int
  ec : Int
  message : String
  wrap : Option Nat
  summary : String
  deriving DecidableEq, Repr

/-- `_desc_map` -/
def descMap : List (Int × String) :=
  [(-1, "Unkown"), (0, "Success"), (1042, "Failed to open file"), (1043, "Failed to close file")]

def strErrorCode (ec : Int) : String :=
  match descMap.lookup ec with
  | some desc => desc
  | none => (descMap.lookup (-1)).getD ""

/-- What follows the last `c`, if there is one: `rfind` and `substr`. -/
def afterLast (c : Char) (path : String) : Option String :=
  if c ∈ path.toList then some (String.ofList (path.toList.reverse.takeWhile (· ≠ c)).reverse) else none

/-- `filename`; the backslash counts only in a path without a slash. -/
def filename (path : String) : String :=
  match afterLast '/' path with
  | some name => name
  | none => (afterLast '\\' path).getD path

/-- One line of a summary, without its indentation. -/
def summaryLine (file func : String) (line : Int) (message : String) : String :=
  "[" ++ filename file ++ " " ++ func ++ ":" ++ toString line ++ "]: " ++ message ++ "\n"

/-- The inner loop of `summary`. -/
def indent (loop : Nat) : String := String.join (List.replicate loop "    ")

/-- The objects, numbered in the order in which their constructors have returned. -/
abbrev ErrorHeap := List AvcCplxError

namespace ErrorHeap

def errorCode (h : ErrorHeap) : Option Nat → Option Int
  | none => some 0
  | some err => (h[err]?).map AvcCplxError.ec

def create (h : ErrorHeap) (l : ErrorLayer) (ec : Int) : ErrorHeap × Nat :=
  (h ++ [⟨l.file, l.func, l.line, ec, l.message, none, ""⟩], h.length)

/-- `wrap`; a null pointer has the code -1 here. -/
def wrap (h : ErrorHeap) (l : ErrorLayer) (err : Option Nat) : Option (ErrorHeap × Nat) :=
  let ec := match err with
    | none => some (-1)
    | some _ => h.errorCode err
  ec.map fun ec => (h ++ [⟨l.file, l.func, l.line, ec, l.message, err, ""⟩], h.length)

/-- `copy` with its copy constructor, which copies what `wrap_` points to before it returns; at most `fuel` objects. -/
def copyChain : Nat → ErrorHeap → Option Nat → Option (ErrorHeap × Option Nat)
  | 0, _, _ => none
  | _ + 1, h, none => some (h, none)
  | fuel + 1, h, some err =>
    match h[err]? with
    | none => none
    | some rhs => (copyChain fuel h rhs.wrap).map fun (h, wrap) =>
      (h ++ [{ rhs with wrap := wrap, summary := "" }], some h.length)

/-- A chain has at most as many objects as there are. -/
def copy (h : ErrorHeap) (err : Option Nat) : Option (ErrorHeap × Option Nat) :=
  h.copyChain (h.length + 1) err

/-- The loop of `summary` over the chain, for at most `fuel` objects. -/
def summaryLines : Nat → ErrorHeap → Option Nat → Nat → Option String
  | 0, _, _, _ => none
  | _ + 1, _, none, _ => some ""
  | fuel + 1, h, some next, loop =>
    match h[next]? with
    | none => none
    | some n => (summaryLines fuel h n.wrap (loop + 1)).map fun rest =>
      indent loop ++ summaryLine n.file n.func n.line n.message ++ rest

/-- `summary`, which makes the text when it is asked for the first time. -/
def summary (h : ErrorHeap) : Option Nat → Option (ErrorHeap × String)
  | none => some (h, "Success")
  | some err =>
    match h[err]? with
    | none => none
    | some n =>
      if n.summary = "" then
        (h.summaryLines (h.length + 1) (some err) 0).map fun lines =>
          let text := "code=(" ++ strErrorCode n.ec ++ ")\n" ++ lines
          (h.set err { n with summary := text }, text)
      else some (h, n.summary)

/-- The objects of a chain, at most `fuel` of them. -/
def chain : Nat → ErrorHeap → Option Nat → List Nat
  | 0, _, _ => []
  | _ + 1, _, none => []
  | fuel + 1, h, some err => err :: chain fuel h ((h[err]?).bind AvcCplxError.wrap)

def nodes (h : ErrorHeap) (err : Nat) : List Nat := h.chain h.length (some err)

end ErrorHeap

/-! ### What the errors stand for -/

structure ErrorChain where
  code : Int
  /-- the outermost one first -/
  layers : List ErrorLayer
  deriving DecidableEq, Repr

/-- A call of one of the functions; the errors are numbered in the order in which they were returned. -/
inductive ErrorOp where
  | create (l : ErrorLayer) (ec : Int)
  /-- none for a null pointer -/
  | wrap (l : ErrorLayer) (err : Option Nat)
  | copy (err : Nat)
  | summary (err : Nat)
  deriving DecidableEq, Repr

/-! ### What the text is to be -/

/-- What the table of the error codes says of a code. -/
def description (ec : Int) : String :=
  if ec = 0 then "Success"
  else if ec = 1042 then "Failed to open file"
  else if ec = 1043 then "Failed to close file"
  else "Unkown"

/-- The name of the file without the directories. -/
def IsFileName (path name : String) : Prop :=
  (∃ dir, path = dir ++ "/" ++ name ∧ '/' ∉ name.toList) ∨
    '/' ∉ path.toList ∧ ((∃ dir, path = dir ++ "\\" ++ name ∧ '\\' ∉ name.toList) ∨ '\\' ∉ path.toList ∧ path = name)

/-- The line of a layer that is indented by so many steps of four blanks. -/
def ErrorLayer.Line (l : ErrorLayer) (steps : Nat) (text : String) : Prop :=
  ∃ name, IsFileName l.file name ∧
    text.toList = List.replicate (4 * steps) ' ' ++
      ("[" ++ name ++ " " ++ l.func ++ ":" ++ toString l.line ++ "]: " ++ l.message ++ "\n").toList

/-- The text of an error: the description of its code, and a line for each layer. -/
def ErrorChain.Text (c : ErrorChain) (text : String) : Prop :=
  ∃ lines, text = "code=(" ++ description c.code ++ ")\n" ++ String.join lines ∧
    List.Forall₂ (fun p line => ErrorLayer.Line p.1 p.2 line) c.layers.zipIdx lines

private theorem strErrorCode_eq (ec : Int) : strErrorCode ec = description ec := by
  by_cases hunknown : ec = -1
  · subst hunknown
    rfl
  · by_cases hsuccess : ec = 0
    · subst hsuccess
      rfl
    · by_cases hopen : ec = 1042
      · subst hopen
        rfl
      · by_cases hclose : ec = 1043
        · subst hclose
          rfl
        · have hlookup : descMap.lookup ec = none :=
            List.lookup_eq_none_iff.2 (by simp [descMap, hunknown, hsuccess, hopen, hclose])
          rw [strErrorCode, hlookup, description, if_neg hsuccess, if_neg hopen, if_neg hclose]
          rfl

/-- A list is split at the first place of a character. -/
private theorem exists_eq_takeWhile_append {c : Char} {l : List Char} (h : c ∈ l) :
    ∃ rest, l = l.takeWhile (· ≠ c) ++ c :: rest := by
  induction l with
  | nil => cases h
  | cons d l ih =>
    by_cases hd : d = c
    · subst hd
      exact ⟨l, by simp⟩
    · obtain ⟨rest, hrest⟩ := ih ((List.mem_cons.1 h).resolve_left (Ne.symm hd))
      exact ⟨rest, by rw [List.takeWhile_cons_of_pos (by simpa using hd), List.cons_append, ← hrest]⟩

private theorem afterLast_eq_some {c : Char} {path name : String} (h : afterLast c path = some name) :
    c ∉ name.toList ∧ ∃ dir : String, path = dir ++ String.singleton c ++ name := by
  obtain ⟨hmem, heq⟩ := Option.ite_none_right_eq_some.1 h
  obtain rfl := Option.some.inj heq
  refine ⟨?_, ?_⟩
  · rw [String.toList_ofList, List.mem_reverse]
    intro hc
    simpa using List.mem_takeWhile_imp hc
  · obtain ⟨rest, hrest⟩ := exists_eq_takeWhile_append (List.mem_reverse.2 hmem)
    refine ⟨String.ofList rest.reverse, String.toList_inj.1 ?_⟩
    rw [String.toList_append, String.toList_append, String.toList_ofList, String.toList_ofList, String.toList_singleton]
    calc path.toList = path.toList.reverse.reverse := (List.reverse_reverse _).symm
      _ = (path.toList.reverse.takeWhile (· ≠ c) ++ c :: rest).reverse := by rw [← hrest]
      _ = rest.reverse ++ [c] ++ (path.toList.reverse.takeWhile (· ≠ c)).reverse := by simp

private theorem isFileName_filename (path : String) : IsFileName path (filename path) := by
  unfold filename
  cases hslash : afterLast '/' path with
  | some name =>
    obtain ⟨hname, dir, hdir⟩ := afterLast_eq_some hslash
    exact .inl ⟨dir, hdir, hname⟩
  | none =>
    have hno : '/' ∉ path.toList := by simpa [afterLast] using hslash
    refine .inr ⟨hno, ?_⟩
    cases hback : afterLast '\\' path with
    | some name =>
      obtain ⟨hname, dir, hdir⟩ := afterLast_eq_some hback
      exact .inl ⟨dir, hdir, hname⟩
    | none => exact .inr ⟨by simpa [afterLast] using hback, rfl⟩

private theorem toList_indent (loop : Nat) : (indent loop).toList = List.replicate (4 * loop) ' ' := by
  rw [indent, String.toList_join]
  induction loop with
  | zero => rfl
  | succ loop ih =>
    rw [List.replicate_succ, List.flatMap_cons, ih, Nat.mul_succ, Nat.add_comm, List.replicate_add]
    rfl

private theorem line_summaryLine (l : ErrorLayer) (steps : Nat) :
    l.Line steps (indent steps ++ summaryLine l.file l.func l.line l.message) := by
  refine ⟨filename l.file, isFileName_filename l.file, ?_⟩
  rw [String.toList_append, toList_indent, summaryLine]

namespace ErrorChain

/-- The lines of the layers as the code writes them, indented by their places, counted from `loop`. -/
def lines (loop : Nat) (ls : List ErrorLayer) : String :=
  String.join ((ls.zipIdx loop).map fun p => indent p.2 ++ summaryLine p.1.file p.1.func p.1.line p.1.message)

def summary (c : ErrorChain) : String :=
  "code=(" ++ strErrorCode c.code ++ ")\n" ++ lines 0 c.layers

private theorem text_summary (c : ErrorChain) : c.Text c.summary := by
  refine ⟨c.layers.zipIdx.map fun p => indent p.2 ++ summaryLine p.1.file p.1.func p.1.line p.1.message, ?_, ?_⟩
  · rw [summary, lines, strErrorCode_eq]
  · rw [List.forall₂_map_right_iff, List.forall₂_same]
    exact fun p _ => line_summaryLine p.1 p.2

/-- What the calls mean for the errors that they return. -/
def step (cs : List ErrorChain) : ErrorOp → Option (List ErrorChain)
  | .create l ec => some (cs ++ [⟨ec, [l]⟩])
  | .wrap l none => some (cs ++ [⟨-1, [l]⟩])
  | .wrap l (some err) => (cs[err]?).map fun c => cs ++ [⟨c.code, l :: c.layers⟩]
  | .copy err => (cs[err]?).map fun c => cs ++ [c]
  | .summary err => (cs[err]?).map fun _ => cs

end ErrorChain

/-- A run of calls, with the objects that `create`, `wrap` and `copy` have returned. -/
structure ErrorRun where
  heap : ErrorHeap
  results : List Nat
  deriving DecidableEq, Repr

namespace ErrorRun

def init : ErrorRun := ⟨[], []⟩

def step (s : ErrorRun) : ErrorOp → Option ErrorRun
  | .create l ec =>
    let (heap, err) := s.heap.create l ec
    some ⟨heap, s.results ++ [err]⟩
  | .wrap l none => (s.heap.wrap l none).map fun (heap, err) => ⟨heap, s.results ++ [err]⟩
  | .wrap l (some i) => (s.results[i]?).bind fun err =>
    (s.heap.wrap l (some err)).map fun (heap, err) => ⟨heap, s.results ++ [err]⟩
  | .copy i => (s.results[i]?).bind fun err =>
    (s.heap.copy (some err)).bind fun (heap, err) => err.map fun err => ⟨heap, s.results ++ [err]⟩
  | .summary i => (s.results[i]?).bind fun err => (s.heap.summary (some err)).map fun (heap, _) => ⟨heap, s.results⟩

end ErrorRun

namespace ErrorHeap

/-- The object has this code and this text, and so has a copy of it, which shares no object with it. -/
def Reports (h : ErrorHeap) (err : Nat) (code : Int) (text : String) : Prop :=
  h.errorCode (some err) = some code ∧ (∃ h', h.summary (some err) = some (h', text)) ∧
    ∃ h' err', h.copy (some err) = some (h', some err') ∧ (h'.nodes err').Disjoint (h'.nodes err) ∧
      h'.errorCode (some err') = some code ∧ ∃ h'', h'.summary (some err') = some (h'', text)

/-- The object and its copies have the code of the chain, and the text that it is to have. -/
def KeepsStory (h : ErrorHeap) (err : Nat) (c : ErrorChain) : Prop :=
  ∃ text, c.Text text ∧ h.Reports err c.code text

inductive Denotes (h : ErrorHeap) (code : Int) : Option Nat → List ErrorLayer → Prop where
  | nil : Denotes h code none []
  | cons {err : Nat} {wrap : Option Nat} {summary : String} {l : ErrorLayer} {ls : List ErrorLayer}
    (hnode : h[err]? = some ⟨l.file, l.func, l.line, code, l.message, wrap, summary⟩) (hwrap : ∀ w ∈ wrap, w < err)
    (hrest : Denotes h code wrap ls) : Denotes h code (some err) (l :: ls)

/-- The object stands for the chain, and a text that it keeps is right. -/
structure Tells (h : ErrorHeap) (err : Nat) (c : ErrorChain) : Prop where
  denotes : Denotes h c.code (some err) c.layers
  kept : ∀ n, h[err]? = some n → n.summary = "" ∨ n.summary = c.summary

theorem Denotes.length_le {h : ErrorHeap} {code : Int} {next : Option Nat} {ls : List ErrorLayer}
    (hd : h.Denotes code next ls) : ls.length ≤ h.length ∧ ∀ err ∈ next, ls.length ≤ err + 1 := by
  induction hd with
  | nil => exact ⟨Nat.zero_le _, nofun⟩
  | @cons err wrap summary l ls hnode hwrap hrest ih =>
    obtain ⟨hlt, -⟩ := List.getElem?_eq_some_iff.1 hnode
    -- an object wraps one with a smaller number, so that its layers are no more than these
    have hle : ls.length ≤ err := by
      cases wrap with
      | none =>
        cases hrest
        exact Nat.zero_le _
      | some w =>
        have hlen := ih.2 w rfl
        have hw := hwrap w rfl
        omega
    refine ⟨?_, fun err' herr' => ?_⟩
    · rw [List.length_cons]
      omega
    · obtain rfl : err = err' := Option.some.inj herr'
      rw [List.length_cons]
      omega

private theorem Denotes.eq_nil_iff {h : ErrorHeap} {code : Int} {next : Option Nat} {ls : List ErrorLayer}
    (hd : h.Denotes code next ls) : ls = [] ↔ next = none := by
  cases hd with
  | nil => exact iff_of_true rfl rfl
  | cons hnode hwrap hrest => exact iff_of_false (List.cons_ne_nil _ _) (Option.some_ne_none _)

private theorem Denotes.lt_length {h : ErrorHeap} {code : Int} {next : Option Nat} {ls : List ErrorLayer}
    (hd : h.Denotes code next ls) : ∀ err ∈ next, err < h.length := by
  rintro err herr
  cases hd with
  | nil => cases herr
  | cons hnode hwrap hrest =>
    obtain rfl := Option.some.inj herr
    exact (List.getElem?_eq_some_iff.1 hnode).1

private theorem getElem?_append_of_eq_some {h : ErrorHeap} {err : Nat} {n : AvcCplxError} (hn : h[err]? = some n)
    (extra : ErrorHeap) : (h ++ extra)[err]? = some n := by
  rw [List.getElem?_append_left (List.getElem?_eq_some_iff.1 hn).1]
  exact hn

theorem Denotes.append {h : ErrorHeap} {code : Int} {next : Option Nat} {ls : List ErrorLayer}
    (hd : h.Denotes code next ls) (extra : ErrorHeap) : Denotes (h ++ extra) code next ls := by
  induction hd with
  | nil => exact .nil
  | cons hnode hwrap hrest ih => exact .cons (getElem?_append_of_eq_some hnode extra) hwrap ih

/-- The texts that the objects keep do not matter. -/
theorem Denotes.set {h : ErrorHeap} {code : Int} {next : Option Nat} {ls : List ErrorLayer}
    (hd : h.Denotes code next ls) {err : Nat} {n : AvcCplxError} (hn : h[err]? = some n) (text : String) :
    Denotes (h.set err { n with summary := text }) code next ls := by
  induction hd with
  | nil => exact .nil
  | @cons err' wrap summary l ls hnode hwrap hrest ih =>
    by_cases heq : err = err'
    · subst heq
      obtain rfl := Option.some.inj (hn.symm.trans hnode)
      exact .cons (List.getElem?_set_self (List.getElem?_eq_some_iff.1 hnode).1) hwrap ih
    · have hsame := List.getElem?_set_ne heq (l := h) (a := { n with summary := text })
      exact .cons (hsame.trans hnode) hwrap ih

/-- The loop of `summary` comes to an end, and has written the lines of the chain. -/
private theorem Denotes.summaryLines_eq {h : ErrorHeap} {code : Int} {next : Option Nat} {ls : List ErrorLayer}
    (hd : h.Denotes code next ls) {fuel : Nat} (hfuel : ls.length < fuel) (loop : Nat) :
    h.summaryLines fuel next loop = some (ErrorChain.lines loop ls) := by
  induction hd generalizing fuel loop with
  | nil =>
    obtain ⟨fuel, rfl⟩ := Nat.exists_eq_add_one.2 (Nat.zero_lt_of_lt hfuel)
    rfl
  | @cons err wrap summary l ls hnode hwrap hrest ih =>
    obtain ⟨fuel, rfl⟩ := Nat.exists_eq_add_one.2 (Nat.zero_lt_of_lt hfuel)
    have hlt : ls.length < fuel := Nat.lt_of_succ_lt_succ hfuel
    simp only [summaryLines, hnode, ih hlt, Option.map_some]
    rw [ErrorChain.lines, ErrorChain.lines, List.zipIdx_cons, List.map_cons, String.join_cons]

/-! ### Copies -/

private theorem Denotes.chain_append {h : ErrorHeap} {code : Int} {next : Option Nat} {ls : List ErrorLayer}
    (hd : h.Denotes code next ls) (extra : ErrorHeap) (fuel : Nat) :
    chain fuel (h ++ extra) next = chain fuel h next := by
  induction hd generalizing fuel with
  | nil => cases fuel <;> rfl
  | cons hnode hwrap hrest ih =>
    cases fuel with
    | zero => rfl
    | succ fuel =>
      simp only [chain, hnode, getElem?_append_of_eq_some hnode extra, Option.bind_some, ih]

theorem Denotes.chain_lt {h : ErrorHeap} {code : Int} {next : Option Nat} {ls : List ErrorLayer}
    (hd : h.Denotes code next ls) (fuel : Nat) : ∀ err ∈ chain fuel h next, err < h.length := by
  induction hd generalizing fuel with
  | nil => cases fuel <;> exact nofun
  | cons hnode hwrap hrest ih =>
    cases fuel with
    | zero => exact nofun
    | succ fuel =>
      simp only [chain, hnode, Option.bind_some, List.mem_cons]
      rintro err (rfl | herr)
      · exact (List.getElem?_eq_some_iff.1 hnode).1
      · exact ih fuel err herr

/-- What a copy is: new objects with the same chain, none of which keeps a text. -/
structure Copied (h h' : ErrorHeap) (code : Int) (ls : List ErrorLayer) (next : Option Nat) : Prop where
  extends_ : h <+: h'
  denotes : h'.Denotes code next ls
  fresh : ∀ fuel, ∀ err ∈ chain fuel h' next, h.length ≤ err
  blank : ∀ err ∈ next, ∀ n, h'[err]? = some n → n.summary = ""

theorem Denotes.copyChain_eq {h : ErrorHeap} {code : Int} {next : Option Nat} {ls : List ErrorLayer}
    (hd : h.Denotes code next ls) {fuel : Nat} (hfuel : ls.length < fuel) :
    ∃ h' next', h.copyChain fuel next = some (h', next') ∧ Copied h h' code ls next' := by
  induction hd generalizing fuel with
  | nil =>
    obtain ⟨fuel, rfl⟩ := Nat.exists_eq_add_one.2 (Nat.zero_lt_of_lt hfuel)
    exact ⟨h, none, rfl, List.prefix_refl h, .nil, fun fuel => by cases fuel <;> exact nofun, nofun⟩
  | @cons err wrap summary l ls hnode hwrap hrest ih =>
    obtain ⟨fuel, rfl⟩ := Nat.exists_eq_add_one.2 (Nat.zero_lt_of_lt hfuel)
    obtain ⟨h', wrap', hcopy, hcopied⟩ := ih (Nat.lt_of_succ_lt_succ hfuel)
    -- the copy of the rest is complete before the new object is
    let n : AvcCplxError := ⟨l.file, l.func, l.line, code, l.message, wrap', ""⟩
    have hnew : (h' ++ [n])[h'.length]? = some n := List.getElem?_concat_length
    refine ⟨h' ++ [n], some h'.length, ?_, hcopied.extends_.trans (List.prefix_append h' [n]), ?_, ?_, ?_⟩
    · simp only [copyChain, hnode, hcopy, Option.map_some]
      rfl
    · exact .cons hnew hcopied.denotes.lt_length (hcopied.denotes.append [n])
    · intro fuel'
      cases fuel' with
      | zero => exact nofun
      | succ fuel' =>
        simp only [chain, hnew, Option.bind_some, List.mem_cons]
        rintro err' (rfl | herr')
        · exact hcopied.extends_.length_le
        · rw [hcopied.denotes.chain_append [n] fuel'] at herr'
          exact hcopied.fresh fuel' err' herr'
    · rintro err' herr' m hm
      obtain rfl := Option.some.inj herr'
      obtain rfl := Option.some.inj (hnew.symm.trans hm)
      rfl

/-! ### The operations on an error that stands for a chain -/

private theorem Denotes.exists_node {h : ErrorHeap} {code : Int} {err : Nat} {ls : List ErrorLayer}
    (hd : h.Denotes code (some err) ls) : ∃ n, h[err]? = some n ∧ n.ec = code := by
  cases hd with
  | cons hnode hwrap hrest => exact ⟨_, hnode, rfl⟩

theorem Tells.errorCode_eq {h : ErrorHeap} {err : Nat} {c : ErrorChain} (ht : h.Tells err c) :
    h.errorCode (some err) = some c.code := by
  obtain ⟨n, hn, hec⟩ := ht.denotes.exists_node
  simp only [errorCode, hn, Option.map_some, hec]

private theorem Tells.lines_eq {h : ErrorHeap} {err : Nat} {c : ErrorChain} (ht : h.Tells err c) :
    h.summaryLines (h.length + 1) (some err) 0 = some (ErrorChain.lines 0 c.layers) :=
  ht.denotes.summaryLines_eq (Nat.lt_succ_of_le ht.denotes.length_le.1) 0

/-- An object has one text only. -/
private theorem Tells.summary_unique {h : ErrorHeap} {err : Nat} {c c' : ErrorChain} (ht : h.Tells err c)
    (ht' : h.Tells err c') : c.summary = c'.summary := by
  have hcode : c.code = c'.code := Option.some.inj (ht.errorCode_eq.symm.trans ht'.errorCode_eq)
  have hlines : ErrorChain.lines 0 c.layers = ErrorChain.lines 0 c'.layers :=
    Option.some.inj (ht.lines_eq.symm.trans ht'.lines_eq)
  rw [ErrorChain.summary, ErrorChain.summary, hcode, hlines]

/-- `summary` gives the text of the chain; at most it keeps it in the object. -/
theorem Tells.summary_eq {h : ErrorHeap} {err : Nat} {c : ErrorChain} (ht : h.Tells err c) :
    ∃ h', h.summary (some err) = some (h', c.summary) ∧
      (h' = h ∨ ∃ n, h[err]? = some n ∧ h' = h.set err { n with summary := c.summary }) := by
  obtain ⟨n, hn, hec⟩ := ht.denotes.exists_node
  by_cases hempty : n.summary = ""
  · refine ⟨h.set err { n with summary := c.summary }, ?_, .inr ⟨n, hn, rfl⟩⟩
    simp only [summary, hn, hempty, ht.lines_eq, hec, if_true, Option.map_some, ErrorChain.summary]
  · have hkept : n.summary = c.summary := (ht.kept n hn).resolve_left hempty
    refine ⟨h, ?_, .inl rfl⟩
    simp only [summary, hn, if_neg hempty]
    rw [hkept]

theorem Tells.append {h : ErrorHeap} {err : Nat} {c : ErrorChain} (ht : h.Tells err c) (extra : ErrorHeap) :
    Tells (h ++ extra) err c := by
  refine ⟨ht.denotes.append extra, fun n hn => ht.kept n ?_⟩
  rwa [List.getElem?_append_left (ht.denotes.lt_length err rfl)] at hn

/-- The text that one object keeps does no harm to the others. -/
theorem Tells.set {h : ErrorHeap} {err err' : Nat} {c c' : ErrorChain} {n : AvcCplxError} (ht : h.Tells err c)
    (ht' : h.Tells err' c') (hn : h[err']? = some n) :
    Tells (h.set err' { n with summary := c'.summary }) err c := by
  refine ⟨ht.denotes.set hn c'.summary, fun m hm => ?_⟩
  by_cases heq : err' = err
  · subst heq
    rw [List.getElem?_set_self (ht.denotes.lt_length err' rfl)] at hm
    obtain rfl := Option.some.inj hm
    exact .inr (ht'.summary_unique ht)
  · rw [List.getElem?_set_ne heq] at hm
    exact ht.kept m hm

theorem Tells.copy_eq {h : ErrorHeap} {err : Nat} {c : ErrorChain} (ht : h.Tells err c) :
    ∃ h' err', h.copy (some err) = some (h', some err') ∧ h <+: h' ∧ Tells h' err' c ∧
      (h'.nodes err').Disjoint (h'.nodes err) := by
  obtain ⟨h', next', hcopy, hcopied⟩ :=
    ht.denotes.copyChain_eq (Nat.lt_succ_of_le ht.denotes.length_le.1)
  cases next' with
  | none => exact absurd (hcopied.denotes.eq_nil_iff.2 rfl) (mt ht.denotes.eq_nil_iff.1 nofun)
  | some err' =>
    refine ⟨h', err', hcopy, hcopied.extends_, ⟨hcopied.denotes, fun n hn => .inl (hcopied.blank err' rfl n hn)⟩, ?_⟩
    obtain ⟨extra, rfl⟩ := hcopied.extends_
    -- the old chain lies below `h.length`, the new one does not
    intro node hnew hold
    have hlt : node < h.length := by
      rw [nodes, ht.denotes.chain_append extra] at hold
      exact ht.denotes.chain_lt _ node hold
    have hge : h.length ≤ node := hcopied.fresh _ node hnew
    omega

theorem Tells.reports {h : ErrorHeap} {err : Nat} {c : ErrorChain} (ht : h.Tells err c) :
    h.Reports err c.code c.summary := by
  obtain ⟨h₁, hsummary, -⟩ := ht.summary_eq
  obtain ⟨h', err', hcopy, -, ht', hdisj⟩ := ht.copy_eq
  obtain ⟨h₂, hsummary', -⟩ := ht'.summary_eq
  exact ⟨ht.errorCode_eq, ⟨h₁, hsummary⟩, h', err', hcopy, hdisj, ht'.errorCode_eq, h₂, hsummary'⟩

theorem Tells.keepsStory {h : ErrorHeap} {err : Nat} {c : ErrorChain} (ht : h.Tells err c) : h.KeepsStory err c :=
  ⟨c.summary, c.text_summary, ht.reports⟩

end ErrorHeap

/-! ### Runs -/

namespace ErrorRun

/-- The errors that have been returned stand for the chains. -/
def Tells (s : ErrorRun) (cs : List ErrorChain) : Prop :=
  List.Forall₂ s.heap.Tells s.results cs

private theorem Tells.getElem? {s : ErrorRun} {cs : List ErrorChain} (ht : s.Tells cs) {i : Nat} {c : ErrorChain}
    (hc : cs[i]? = some c) : ∃ err, s.results[i]? = some err ∧ s.heap.Tells err c := by
  obtain ⟨hlt, rfl⟩ := List.getElem?_eq_some_iff.1 hc
  have hlt' : i < s.results.length := ht.length_eq ▸ hlt
  exact ⟨s.results[i], List.getElem?_eq_getElem hlt', List.Forall₂.get ht hlt' hlt⟩

/-- One more error, with the objects that have been made for it. -/
theorem Tells.concat {s : ErrorRun} {cs : List ErrorChain} (ht : s.Tells cs) {heap : ErrorHeap}
    (hext : s.heap <+: heap) {err : Nat} {c : ErrorChain} (hnew : heap.Tells err c) :
    Tells ⟨heap, s.results ++ [err]⟩ (cs ++ [c]) := by
  obtain ⟨extra, rfl⟩ := hext
  have hold : List.Forall₂ (ErrorHeap.Tells (s.heap ++ extra)) s.results cs :=
    List.Forall₂.imp (fun _ _ ht => ht.append extra) ht
  exact List.rel_append hold (.cons hnew .nil)

/-- A new object that wraps what stands for the layers of the rest. -/
theorem tells_layer {h : ErrorHeap} {l : ErrorLayer} {code : Int} {wrap : Option Nat} {ls : List ErrorLayer}
    (hd : h.Denotes code wrap ls) :
    ErrorHeap.Tells (h ++ [⟨l.file, l.func, l.line, code, l.message, wrap, ""⟩]) h.length ⟨code, l :: ls⟩ := by
  refine ⟨.cons List.getElem?_concat_length hd.lt_length (hd.append _), fun n hn => .inl ?_⟩
  rw [List.getElem?_concat_length] at hn
  obtain rfl := Option.some.inj hn
  rfl

theorem Tells.step {s : ErrorRun} {cs cs' : List ErrorChain} (ht : s.Tells cs) {op : ErrorOp}
    (hstep : ErrorChain.step cs op = some cs') : ∃ s', s.step op = some s' ∧ s'.Tells cs' := by
  cases op with
  | create l ec =>
    obtain rfl := Option.some.inj hstep
    exact ⟨_, rfl, ht.concat (List.prefix_append _ _) (tells_layer .nil)⟩
  | wrap l err =>
    cases err with
    | none =>
      obtain rfl := Option.some.inj hstep
      exact ⟨_, rfl, ht.concat (List.prefix_append _ _) (tells_layer .nil)⟩
    | some i =>
      obtain ⟨c, hc, rfl⟩ := Option.map_eq_some_iff.1 hstep
      obtain ⟨err, herr, hterr⟩ := ht.getElem? hc
      refine ⟨_, ?_, ht.concat (List.prefix_append _ _) (tells_layer hterr.denotes)⟩
      simp only [ErrorRun.step, herr, Option.bind_some, ErrorHeap.wrap, hterr.errorCode_eq, Option.map_some]
  | copy i =>
    obtain ⟨c, hc, rfl⟩ := Option.map_eq_some_iff.1 hstep
    obtain ⟨err, herr, hterr⟩ := ht.getElem? hc
    obtain ⟨h', err', hcopy, hext, hnew, -⟩ := hterr.copy_eq
    refine ⟨⟨h', s.results ++ [err']⟩, ?_, ht.concat hext hnew⟩
    simp only [ErrorRun.step, herr, hcopy, Option.bind_some, Option.map_some]
  | summary i =>
    obtain ⟨c, hc, rfl⟩ := Option.map_eq_some_iff.1 hstep
    obtain ⟨err, herr, hterr⟩ := ht.getElem? hc
    obtain ⟨h', hsummary, hheap⟩ := hterr.summary_eq
    refine ⟨⟨h', s.results⟩, ?_, ?_⟩
    · simp only [ErrorRun.step, herr, hsummary, Option.bind_some, Option.map_some]
    · -- the text may have been kept in an object that several errors share
      rcases hheap with rfl | ⟨n, hn, rfl⟩
      · exact ht
      · exact List.Forall₂.imp (fun _ _ hother => hother.set hterr hn) ht

theorem Tells.exec {s : ErrorRun} {cs cs' : List ErrorChain} (ht : s.Tells cs) {ops : List ErrorOp}
    (hexec : Transition.exec ErrorChain.step cs ops = some cs') :
    ∃ s', Transition.exec ErrorRun.step s ops = some s' ∧ s'.Tells cs' := by
  induction ops generalizing s cs with
  | nil =>
    obtain rfl := Option.some.inj hexec
    exact ⟨s, rfl, ht⟩
  | cons op ops ih =>
    obtain ⟨cs₁, hstep, hrest⟩ := Transition.exec_cons.1 hexec
    obtain ⟨s₁, hstep', ht₁⟩ := ht.step hstep
    obtain ⟨s', hexec', ht'⟩ := ih ht₁ hrest
    exact ⟨s', Transition.exec_cons.2 ⟨s₁, hstep', hexec'⟩, ht'⟩

/-- Whatever has been created, wrapped, copied and summarized, in whatever order: each error has the code and the text
of its chain, and so has a copy of it, which shares no object with it. -/
theorem story_kept {ops : List ErrorOp} {cs : List ErrorChain}
    (hexec : Transition.exec ErrorChain.step [] ops = some cs) :
    ∃ s, Transition.exec ErrorRun.step init ops = some s ∧ List.Forall₂ s.heap.KeepsStory s.results cs := by
  obtain ⟨s, hrun, ht⟩ := Tells.exec (s := init) List.Forall₂.nil hexec
  exact ⟨s, hrun, List.Forall₂.imp (fun _ _ ht => ht.keepsStory) ht⟩

/-- An error that has been wrapped, asked for its text, copied and wrapped again. -/
theorem story_kept_copied :
    ∃ s, Transition.exec ErrorRun.step init
        [.create ⟨"a/b.cc", "f", 3, "x"⟩ 1042, .wrap ⟨"c.cc", "g", 5, "y"⟩ (some 0), .summary 1, .copy 1, .summary 0,
          .wrap ⟨"d.cc", "h", 7, "z"⟩ (some 2)] = some s ∧
      List.Forall₂ s.heap.KeepsStory s.results
        [⟨1042, [⟨"a/b.cc", "f", 3, "x"⟩]⟩, ⟨1042, [⟨"c.cc", "g", 5, "y"⟩, ⟨"a/b.cc", "f", 3, "x"⟩]⟩,
          ⟨1042, [⟨"c.cc", "g", 5, "y"⟩, ⟨"a/b.cc", "f", 3, "x"⟩]⟩,
          ⟨1042, [⟨"d.cc", "h", 7, "z"⟩, ⟨"c.cc", "g", 5, "y"⟩, ⟨"a/b.cc", "f", 3, "x"⟩]⟩] :=
  story_kept rfl

end ErrorRun

end AvcTool
