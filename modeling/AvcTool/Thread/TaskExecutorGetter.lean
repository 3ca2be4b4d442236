import Mathlib.Data.List.Nodup
import Mathlib.Data.Nat.ModEq
import Mathlib.Order.Basic
import AvcTool.Lib.Transition

/-!
# Choosing an executor

`getTaskExecutor` picks the executor that an asynchronous object is put on.  If the executor at `pos_` reports the
load 0, it is taken and `pos_` moves on; otherwise all executors are scanned for the least load and `pos_` is left
at the one that was found.

The executor that is returned has the least load (`getTaskExecutor_le`), wherever the calls before have left `pos_`
and whatever executors have been added since (`choosesLeast_along`).  Calls that find the same load everywhere
spread over the executors if this load is 0, since they walk around the pool (`getTaskExecutors_zero`).  For any
other load the comparison `load <= minLoad` lets the last executor win every time (`getTaskExecutors_tied`).
-/

namespace AvcTool

/-- `TaskExecutorGetter`; the executors of a pool are created one by one, so they are distinct. -/
structure TaskExecutorGetter (ε : Type) where
  pos : Nat
  taskExecutors : List ε
  nodup : taskExecutors.Nodup

namespace TaskExecutorGetter

variable {ε : Type}

/-- The loop over the executors from `index` on, with the values of `minLoad`, `perferred` and `pos_`. -/
def scanLoads (load : ε → Int) : List ε → Nat → Int → ε → Nat → ε × Nat
  | [], _, _, perferred, pos => (perferred, pos)
  | e :: es, index, minLoad, perferred, pos =>
    if load e ≤ minLoad then scanLoads load es (index + 1) (load e) e index
    else scanLoads load es (index + 1) minLoad perferred pos

def start (g : TaskExecutorGetter ε) : Nat := if g.pos ≥ g.taskExecutors.length then 0 else g.pos

/-- `getTaskExecutor`: `first` is what the preferred executor reports, `load` what each executor reports in the scan.
A pool without executors has no element at `pos_`. -/
def getTaskExecutor (first load : ε → Int) (g : TaskExecutorGetter ε) : Option (ε × TaskExecutorGetter ε) :=
  match g.taskExecutors[g.start]? with
  | none => none
  | some perferred =>
    if first perferred = 0 then some (perferred, { g with pos := g.start + 1 })
    else
      let (e, pos) := scanLoads load g.taskExecutors 0 (first perferred) perferred g.start
      some (e, { g with pos := pos })

/-- The executors that `m` calls in a row return while every executor keeps its load. -/
def getTaskExecutors (load : ε → Int) : Nat → TaskExecutorGetter ε → Option (List ε)
  | 0, _ => some []
  | m + 1, g => (g.getTaskExecutor load load).bind fun r => (getTaskExecutors load m r.2).map (r.1 :: ·)

/-- As many calls as there are executors, all of which report the load `l`, return every executor once. -/
def SpreadsTies (g : TaskExecutorGetter ε) (l : Int) : Prop :=
  ∃ es, getTaskExecutors (fun _ => l) g.taskExecutors.length g = some es ∧ es.Nodup

/-! ### The scan -/

private theorem scanLoads_mem (load : ε → Int) (es : List ε) (index : Nat) (minLoad : Int) (perferred : ε) (pos : Nat) :
    (scanLoads load es index minLoad perferred pos).1 ∈ perferred :: es := by
  induction es generalizing index minLoad perferred pos with
  | nil => exact List.mem_cons_self
  | cons e es ih =>
    rw [scanLoads]
    split
    · exact List.mem_cons_of_mem _ (ih ..)
    · rcases List.mem_cons.1 (ih (index + 1) minLoad perferred pos) with h | h
      · rw [h]; exact List.mem_cons_self
      · exact List.mem_cons_of_mem _ (List.mem_cons_of_mem _ h)

private theorem scanLoads_le (load : ε → Int) (es : List ε) (index : Nat) (perferred : ε) (pos : Nat) :
    ∀ e ∈ perferred :: es, load (scanLoads load es index (load perferred) perferred pos).1 ≤ load e := by
  induction es generalizing index perferred pos with
  | nil =>
    intro e he
    rw [List.mem_singleton.1 he]
    exact le_refl _
  | cons d es ih =>
    intro e he
    rw [scanLoads]
    split
    · rename_i hd
      rcases List.mem_cons.1 he with rfl | he
      · exact le_trans (ih _ d _ d List.mem_cons_self) hd
      · exact ih _ d _ e he
    · rename_i hd
      have hp := ih (index + 1) perferred pos perferred List.mem_cons_self
      rcases List.mem_cons.1 he with rfl | he
      · exact hp
      · rcases List.mem_cons.1 he with rfl | he
        · omega
        · exact ih _ perferred _ e (List.mem_cons_of_mem _ he)

private theorem scanLoads_tied (l : Int) (es : List ε) (index : Nat) (perferred : ε) (pos : Nat) :
    (scanLoads (fun _ => l) es index l perferred pos).1 = es.getLastD perferred := by
  induction es generalizing index perferred pos with
  | nil => rfl
  | cons e es ih =>
    rw [scanLoads, if_pos (le_refl l), ih]
    cases es <;> rfl

/-! ### One call -/

private theorem start_lt (g : TaskExecutorGetter ε) (h : 1 ≤ g.taskExecutors.length) :
    g.start < g.taskExecutors.length := by
  unfold start
  split <;> omega

private theorem getElem?_start (g : TaskExecutorGetter ε) (h : 1 ≤ g.taskExecutors.length) :
    g.taskExecutors[g.start]? = some (g.taskExecutors.get ⟨g.start, g.start_lt h⟩) :=
  List.getElem?_eq_getElem (g.start_lt h)

private theorem getTaskExecutor_of_zero {first load : ε → Int} {g : TaskExecutorGetter ε} {p : ε}
    (hp : g.taskExecutors[g.start]? = some p) (hzero : first p = 0) :
    g.getTaskExecutor first load = some (p, { g with pos := g.start + 1 }) := by
  simp only [getTaskExecutor, hp, hzero, ↓reduceIte]

private theorem getTaskExecutor_of_ne_zero {first load : ε → Int} {g : TaskExecutorGetter ε} {p : ε}
    (hp : g.taskExecutors[g.start]? = some p) (hne : first p ≠ 0) :
    g.getTaskExecutor first load =
      some ((scanLoads load g.taskExecutors 0 (first p) p g.start).1,
        { g with pos := (scanLoads load g.taskExecutors 0 (first p) p g.start).2 }) := by
  simp only [getTaskExecutor, hp, hne, ↓reduceIte]

/-- Since no load is negative, the executor that is returned has the least load. -/
private theorem getTaskExecutor_le {load : ε → Int} (hload : ∀ e, 0 ≤ load e) {g g' : TaskExecutorGetter ε} {e : ε}
    (h : g.getTaskExecutor load load = some (e, g')) :
    e ∈ g.taskExecutors ∧ ∀ d ∈ g.taskExecutors, load e ≤ load d := by
  cases hp : g.taskExecutors[g.start]? with
  | none =>
    rw [getTaskExecutor, hp] at h
    cases h
  | some p =>
    have hmem : p ∈ g.taskExecutors := List.mem_of_getElem? hp
    by_cases hzero : load p = 0
    · rw [getTaskExecutor_of_zero hp hzero] at h
      obtain ⟨rfl, -⟩ := Prod.mk.inj (Option.some.inj h)
      exact ⟨hmem, fun d _ => hzero ▸ hload d⟩
    · rw [getTaskExecutor_of_ne_zero hp hzero] at h
      obtain ⟨rfl, -⟩ := Prod.mk.inj (Option.some.inj h)
      refine ⟨?_, fun d hd => scanLoads_le load _ _ _ _ d (List.mem_cons_of_mem _ hd)⟩
      rcases List.mem_cons.1 (scanLoads_mem load g.taskExecutors 0 (load p) p g.start) with heq | hin
      · rw [heq]; exact hmem
      · exact hin

private theorem getTaskExecutor_tied {l : Int} (hl : l ≠ 0) (g : TaskExecutorGetter ε)
    (h : 1 ≤ g.taskExecutors.length) : ∃ pos, g.getTaskExecutor (fun _ => l) (fun _ => l) =
      some (g.taskExecutors.getLast (List.ne_nil_of_length_pos h), { g with pos := pos }) := by
  have hlast : ∀ p, g.taskExecutors.getLastD p = g.taskExecutors.getLast (List.ne_nil_of_length_pos h) := by
    intro p
    rw [List.getLastD_eq_getLast?, List.getLast?_eq_some_getLast (List.ne_nil_of_length_pos h), Option.getD_some]
  rw [getTaskExecutor_of_ne_zero (g.getElem?_start h) hl, scanLoads_tied, hlast]
  exact ⟨_, rfl⟩

/-! ### Calls in a row -/

private theorem start_next (g : TaskExecutorGetter ε) (h : 1 ≤ g.taskExecutors.length) :
    start { g with pos := g.start + 1 } = (g.start + 1) % g.taskExecutors.length := by
  have hlt := g.start_lt h
  rw [start]
  by_cases hend : g.start + 1 = g.taskExecutors.length
  · rw [if_pos (ge_of_eq hend), hend, Nat.mod_self]
  · rw [if_neg (by simpa using (by omega : g.start + 1 < g.taskExecutors.length)), Nat.mod_eq_of_lt (by omega)]

private theorem getTaskExecutors_zero (g : TaskExecutorGetter ε) (h : 1 ≤ g.taskExecutors.length) (m : Nat) :
    getTaskExecutors (fun _ => 0) m g =
      some ((List.range m).map fun k =>
        g.taskExecutors.get ⟨(g.start + k) % g.taskExecutors.length, Nat.mod_lt _ h⟩) := by
  induction m generalizing g with
  | zero => rfl
  | succ m ih =>
    have hfirst : (g.start + 0) % g.taskExecutors.length = g.start := Nat.mod_eq_of_lt (g.start_lt h)
    rw [getTaskExecutors, getTaskExecutor_of_zero (g.getElem?_start h) rfl, Option.bind_some,
      ih { g with pos := g.start + 1 } h, List.range_succ_eq_map]
    simp only [Option.map_some, List.map_cons, List.map_map, hfirst]
    congr 2
    apply List.map_congr_left
    intro k _
    have hnext : ((g.start + 1) % g.taskExecutors.length + k) % g.taskExecutors.length =
        (g.start + (k + 1)) % g.taskExecutors.length := by
      rw [Nat.mod_add_mod, Nat.add_assoc, Nat.add_comm 1 k]
    simp only [start_next g h, hnext, Function.comp_apply, Nat.succ_eq_add_one]

private theorem getTaskExecutors_tied {l : Int} (hl : l ≠ 0) (g : TaskExecutorGetter ε) (h : 1 ≤ g.taskExecutors.length)
    (m : Nat) : getTaskExecutors (fun _ => l) m g =
      some (List.replicate m (g.taskExecutors.getLast (List.ne_nil_of_length_pos h))) := by
  induction m generalizing g with
  | zero => rfl
  | succ m ih =>
    obtain ⟨pos, hpos⟩ := getTaskExecutor_tied hl g h
    rw [getTaskExecutors, hpos, Option.bind_some, ih { g with pos := pos } h]
    rfl

/-- Equal loads are spread over the pool only if they are 0 or there is nothing to spread over. -/
theorem spreadsTies_iff (g : TaskExecutorGetter ε) (h : 1 ≤ g.taskExecutors.length) (l : Int) :
    g.SpreadsTies l ↔ l = 0 ∨ g.taskExecutors.length = 1 := by
  by_cases hl : l = 0
  · subst hl
    refine ⟨fun _ => .inl rfl, fun _ => ⟨_, getTaskExecutors_zero g h _, ?_⟩⟩
    refine List.nodup_range.map_on fun i hi j hj hij => ?_
    have hmod := (List.Nodup.getElem_inj_iff g.nodup).1 hij
    have hcancel : i ≡ j [MOD g.taskExecutors.length] := Nat.ModEq.add_left_cancel' g.start hmod
    exact Nat.ModEq.eq_of_lt_of_lt hcancel (List.mem_range.1 hi) (List.mem_range.1 hj)
  · unfold SpreadsTies
    rw [getTaskExecutors_tied hl g h]
    constructor
    · rintro ⟨es, hes, hnodup⟩
      rw [← Option.some.inj hes, List.nodup_replicate] at hnodup
      exact .inr (by omega)
    · rintro (hzero | hone)
      · exact absurd hzero hl
      · exact ⟨_, rfl, List.nodup_replicate.2 (by omega)⟩

/-- Three idle executors, from a position in the middle. -/
theorem spreadsTies_idle : SpreadsTies ⟨2, [10, 11, 12], by decide⟩ 0 :=
  (spreadsTies_iff ⟨2, [10, 11, 12], by decide⟩ (by decide) 0).2 (.inl rfl)

/-- Two executors with the same load 5: both calls on the fresh pool return the second. -/
theorem not_spreadsTies_loaded : ¬ SpreadsTies ⟨0, [10, 11], by decide⟩ 5 := by
  rintro ⟨es, hes, hnodup⟩
  obtain rfl : es = [11, 11] := (Option.some.inj hes).symm
  exact absurd hnodup (by decide)

/-! ### Calls under changing loads -/

/-- A call, with the loads that the executors report during it, or a new executor. -/
inductive GetterAction (ε : Type) where
  | getTaskExecutor (load : ε → Nat)
  | addExecutor (e : ε)

def step [DecidableEq ε] (g : TaskExecutorGetter ε) : GetterAction ε → Option (TaskExecutorGetter ε)
  | .getTaskExecutor load => (g.getTaskExecutor (fun e => load e) (fun e => load e)).map Prod.snd
  | .addExecutor e =>
    if h : e ∈ g.taskExecutors then none
    else some { g with
      taskExecutors := g.taskExecutors ++ [e]
      nodup := List.nodup_append.2 ⟨g.nodup, List.nodup_singleton e, fun _ ha _ hb hab =>
        h (List.mem_singleton.1 hb ▸ hab ▸ ha)⟩ }

/-- The call stays within the pool and returns an executor with the least load. -/
def ChoosesLeast (load : ε → Nat) (g : TaskExecutorGetter ε) : Prop :=
  ∃ e g', g.getTaskExecutor (fun e => load e) (fun e => load e) = some (e, g') ∧ e ∈ g.taskExecutors ∧
    (∀ d ∈ g.taskExecutors, load e ≤ load d) ∧ g'.taskExecutors = g.taskExecutors ∧
    g'.pos ≤ g'.taskExecutors.length

def GetterAction.ChoosesLeast (g : TaskExecutorGetter ε) : GetterAction ε → Prop
  | .getTaskExecutor load => g.ChoosesLeast load
  | .addExecutor _ => True

/-- The scan leaves `pos_` where it was, or at an executor that it has come to. -/
private theorem scanLoads_pos_lt (load : ε → Int) {es : List ε} {index : Nat} {minLoad : Int} {perferred : ε}
    {pos : Nat} (h : pos < index + es.length) :
    (scanLoads load es index minLoad perferred pos).2 < index + es.length := by
  induction es generalizing index minLoad perferred pos with
  | nil => exact h
  | cons e es ih =>
    have hlen : index + (e :: es).length = index + 1 + es.length := by
      rw [List.length_cons]
      omega
    rw [hlen] at h ⊢
    rw [scanLoads]
    split
    · exact ih (by omega)
    · exact ih h

private theorem choosesLeast (load : ε → Nat) {g : TaskExecutorGetter ε} (h : 1 ≤ g.taskExecutors.length) :
    g.ChoosesLeast load := by
  have hstart := g.start_lt h
  have hp := g.getElem?_start h
  obtain ⟨e, g', hcall, hsame, hpos⟩ : ∃ e g', g.getTaskExecutor (fun e => load e) (fun e => load e) = some (e, g') ∧
      g'.taskExecutors = g.taskExecutors ∧ g'.pos ≤ g.taskExecutors.length := by
    by_cases hzero : ((load (g.taskExecutors.get ⟨g.start, hstart⟩) : Nat) : Int) = 0
    · exact ⟨_, _, getTaskExecutor_of_zero hp hzero, rfl, hstart⟩
    · have hscan : ∀ minLoad perferred,
          (scanLoads (fun e => (load e : Int)) g.taskExecutors 0 minLoad perferred g.start).2 <
            0 + g.taskExecutors.length :=
        fun _ _ => scanLoads_pos_lt _ (by omega)
      refine ⟨_, _, getTaskExecutor_of_ne_zero hp hzero, rfl, ?_⟩
      rw [Nat.zero_add] at hscan
      exact (hscan _ _).le
  obtain ⟨hmem, hle⟩ := getTaskExecutor_le (fun e => Int.natCast_nonneg (load e)) hcall
  exact ⟨e, g', hcall, hmem, fun d hd => Int.ofNat_le.1 (hle d hd), hsame, hsame ▸ hpos⟩

private theorem step_nonempty [DecidableEq ε] {g g' : TaskExecutorGetter ε} {a : GetterAction ε}
    (h : 1 ≤ g.taskExecutors.length) (hstep : g.step a = some g') : 1 ≤ g'.taskExecutors.length := by
  cases a with
  | getTaskExecutor load =>
    obtain ⟨e, g₁, hcall, -, -, hsame, -⟩ := choosesLeast load h
    rw [step, hcall, Option.map_some] at hstep
    obtain rfl := Option.some.inj hstep
    rwa [hsame]
  | addExecutor e =>
    rw [step] at hstep
    split at hstep
    · cases hstep
    · obtain rfl := Option.some.inj hstep
      rw [List.length_append]
      omega

/-- From any position, under any loads, and with executors added in between: each call finds an executor and returns
one with the least load. -/
theorem choosesLeast_along [DecidableEq ε] {g : TaskExecutorGetter ε} (h : 1 ≤ g.taskExecutors.length)
    (as : List (GetterAction ε)) : Transition.Along step GetterAction.ChoosesLeast g as := by
  induction as generalizing g with
  | nil => trivial
  | cons a as ih =>
    refine ⟨?_, fun g' hstep => ih (step_nonempty h hstep)⟩
    cases a with
    | getTaskExecutor load => exact choosesLeast load h
    | addExecutor e => trivial

/-- A position behind the end of the pool, a new executor, and loads that change. -/
theorem choosesLeast_along_three :
    Transition.Along step GetterAction.ChoosesLeast ⟨7, [10, 11, 12], by decide⟩
      [.getTaskExecutor fun _ => 0, .addExecutor 13, .getTaskExecutor (fun e => 15 - e), .getTaskExecutor fun _ => 3] :=
  choosesLeast_along (by decide) _

end TaskExecutorGetter

end AvcTool
