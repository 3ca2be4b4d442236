import Mathlib.Algebra.GroupWithZero.Nat
import Mathlib.Data.List.Basic

/-!
# Runs of a partial step function

A system is given by its step function `step : σ → α → Option σ`; the value `none` says that the action is not
enabled in the state.  `exec step s as` carries out the actions `as` from `s`, and `Along step ok s as` says that
every step of this run is taken in a state `t` and with an action `a` for which `ok t a` holds.

A property that every step preserves holds at the end of every run (`exec_invariant`); a property that the
steps satisfying `ok` preserve holds at the end of every run along which `ok` holds (`exec_invariant_along`).  A run
along which `ok` does not hold can be cut at a step that fails it (`exists_of_not_along`).
Since every prefix of a run is a run, both are statements about all states that the run passes through.

`trace step s as` lists the steps of the run with the states before and after them.  What the steps add to a number is
in the end the sum over the trace (`sum_trace`), and `exec_history` is the rule for what a state keeps of its run.
-/

namespace Transition

variable {σ α : Type*}

/-- The state after the actions `as`, if each of them is enabled when its turn comes. -/
def exec (step : σ → α → Option σ) : σ → List α → Option σ
  | s, [] => some s
  | s, a :: as => (step s a).bind fun t => exec step t as

/-- Every step of the run of `as` from `s` satisfies `ok`, a condition on the state before it and the action. -/
def Along (step : σ → α → Option σ) (ok : σ → α → Prop) : σ → List α → Prop
  | _, [] => True
  | s, a :: as => ok s a ∧ ∀ t, step s a = some t → Along step ok t as

/-- The steps of the run of `as` from `s`: the state before each, its action, the state after it. -/
def trace (step : σ → α → Option σ) : σ → List α → List (σ × α × σ)
  | _, [] => []
  | s, a :: as =>
    match step s a with
    | none => []
    | some t => (s, a, t) :: trace step t as

variable {step : σ → α → Option σ} {ok : σ → α → Prop}

theorem exec_cons {s u : σ} {a : α} {as : List α} :
    exec step s (a :: as) = some u ↔ ∃ t, step s a = some t ∧ exec step t as = some u := by
  simp [exec, Option.bind_eq_some_iff]

theorem exec_append {s u : σ} {as bs : List α} :
    exec step s (as ++ bs) = some u ↔ ∃ t, exec step s as = some t ∧ exec step t bs = some u := by
  induction as generalizing s with
  | nil => simp [exec]
  | cons a as ih =>
    simp only [List.cons_append, exec_cons, ih]
    constructor
    · rintro ⟨t, hst, r, htr, hru⟩
      exact ⟨r, ⟨t, hst, htr⟩, hru⟩
    · rintro ⟨r, ⟨t, hst, htr⟩, hru⟩
      exact ⟨t, hst, r, htr, hru⟩

theorem along_cons {s : σ} {a : α} {as : List α} :
    Along step ok s (a :: as) ↔ ok s a ∧ ∀ t, step s a = some t → Along step ok t as :=
  Iff.rfl

/-- A condition on the actions alone holds along a run if it holds of the actions of the run. -/
theorem along_of_forall_mem {ok : α → Prop} {as : List α} (h : ∀ a ∈ as, ok a) (s : σ) :
    Along step (fun _ => ok) s as := by
  induction as generalizing s with
  | nil => trivial
  | cons a as ih => exact ⟨h a List.mem_cons_self, fun t _ => ih (fun b hb => h b (List.mem_cons_of_mem a hb)) t⟩

theorem along_true (s : σ) (as : List α) : Along step (fun _ _ => True) s as :=
  along_of_forall_mem (fun _ _ => trivial) s

theorem along_and {ok' : σ → α → Prop} {s : σ} {as : List α} (h : Along step ok s as) (h' : Along step ok' s as) :
    Along step (fun t a => ok t a ∧ ok' t a) s as := by
  induction as generalizing s with
  | nil => trivial
  | cons a as ih => exact ⟨⟨h.1, h'.1⟩, fun t ht => ih (h.2 t ht) (h'.2 t ht)⟩

/-- What holds along a run holds along its rest. -/
theorem along_of_append {s t : σ} {as bs : List α} (h : Along step ok s (as ++ bs)) (hst : exec step s as = some t) :
    Along step ok t bs := by
  induction as generalizing s with
  | nil =>
    obtain rfl : s = t := by simpa [exec] using hst
    exact h
  | cons a as ih =>
    obtain ⟨r, hr, hrt⟩ := exec_cons.1 hst
    exact ih (h.2 r hr) hrt

/-- What holds along a run holds along its beginning. -/
theorem along_of_append_left {s : σ} {as bs : List α} (h : Along step ok s (as ++ bs)) : Along step ok s as := by
  induction as generalizing s with
  | nil => trivial
  | cons a as ih => exact ⟨h.1, fun t ht => ih (h.2 t ht)⟩

/-- What holds along a run holds of its last step. -/
theorem ok_of_along_append {s t : σ} {as : List α} {a : α} (h : Along step ok s (as ++ [a]))
    (hst : exec step s as = some t) : ok t a :=
  (along_of_append h hst).1

/-- A run along which the condition fails somewhere passes through a step at which it fails. -/
theorem exists_of_not_along {s u : σ} {as : List α} (h : exec step s as = some u) (hnot : ¬ Along step ok s as) :
    ∃ bs a cs t r, as = bs ++ a :: cs ∧ exec step s bs = some t ∧ ¬ ok t a ∧ step t a = some r ∧
      exec step r cs = some u := by
  induction as generalizing s with
  | nil => exact absurd trivial hnot
  | cons a as ih =>
    obtain ⟨t, hst, htu⟩ := exec_cons.1 h
    by_cases hok : ok s a
    · have hrest : ¬ Along step ok t as := by
        intro hal
        refine hnot ⟨hok, fun t' ht' => ?_⟩
        obtain rfl : t = t' := Option.some.inj (hst.symm.trans ht')
        exact hal
      obtain ⟨bs, b, cs, v, r, rfl, hbs, hb, hvr, hru⟩ := ih htu hrest
      exact ⟨a :: bs, b, cs, v, r, rfl, exec_cons.2 ⟨t, hst, hbs⟩, hb, hvr, hru⟩
    · exact ⟨[], a, as, s, t, rfl, rfl, hok, hst, htu⟩

instance decidableAlong [∀ s a, Decidable (ok s a)] : ∀ s as, Decidable (Along step ok s as)
  | _, [] => isTrue trivial
  | s, a :: as =>
    match h : step s a with
    | none => decidable_of_iff (ok s a) (by simp [along_cons, h])
    | some t =>
      have := decidableAlong t as
      decidable_of_iff (ok s a ∧ Along step ok t as) (by simp [along_cons, h])

/-- A property preserved by the steps that satisfy `ok` holds after every run along which `ok` holds. -/
theorem exec_invariant_along {Inv : σ → Prop}
    (hstep : ∀ s a t, Inv s → ok s a → step s a = some t → Inv t) {s t : σ} {as : List α} (hs : Inv s)
    (hok : Along step ok s as) (h : exec step s as = some t) : Inv t := by
  induction as generalizing s with
  | nil =>
    obtain rfl : s = t := by simpa [exec] using h
    exact hs
  | cons a as ih =>
    obtain ⟨r, hr, hrt⟩ := exec_cons.1 h
    exact ih (hstep s a r hs hok.1 hr) (hok.2 r hr) hrt

/-- A property preserved by every step holds after every run. -/
theorem exec_invariant {Inv : σ → Prop} (hstep : ∀ s a t, Inv s → step s a = some t → Inv t) {s t : σ}
    {as : List α} (hs : Inv s) (h : exec step s as = some t) : Inv t := by
  exact exec_invariant_along (fun s a t hs _ => hstep s a t hs) hs (along_true s as) h

/-- Actions that are enabled, and keep the invariant, whenever the condition holds can be carried out one after the
other as long as it does. -/
theorem exists_exec_along {Inv : σ → Prop} (hstep : ∀ s a, Inv s → ok s a → ∃ t, step s a = some t ∧ Inv t) {s : σ}
    {as : List α} (hs : Inv s) (hok : Along step ok s as) : ∃ t, exec step s as = some t ∧ Inv t := by
  induction as generalizing s with
  | nil => exact ⟨s, rfl, hs⟩
  | cons a as ih =>
    obtain ⟨r, hr, hinv⟩ := hstep s a hs hok.1
    obtain ⟨t, ht, hinv'⟩ := ih hinv (hok.2 r hr)
    exact ⟨t, exec_cons.2 ⟨r, hr, ht⟩, hinv'⟩

/-- What every step from a state with the invariant satisfies holds along the run. -/
theorem along_of_invariant {Inv : σ → Prop} {P : σ → α → Prop}
    (hstep : ∀ s a t, Inv s → ok s a → step s a = some t → Inv t)
    (hP : ∀ s a t, Inv s → ok s a → step s a = some t → P s a) {s u : σ} {as : List α} (hs : Inv s)
    (hok : Along step ok s as) (h : exec step s as = some u) : Along step P s as := by
  induction as generalizing s with
  | nil => trivial
  | cons a as ih =>
    obtain ⟨t, hst, htu⟩ := exec_cons.1 h
    refine ⟨hP s a t hs hok.1 hst, fun t' ht' => ?_⟩
    obtain rfl : t = t' := Option.some.inj (hst.symm.trans ht')
    exact ih (hstep s a t hs hok.1 hst) (hok.2 t hst) htu

/-- Two conditions that are the same in the states with the invariant hold along the same runs, if the steps that
satisfy one of them preserve the invariant. -/
theorem along_iff_of_invariant {Inv : σ → Prop} {P : σ → α → Prop}
    (hstep : ∀ s a t, Inv s → ok s a → step s a = some t → Inv t) (hiff : ∀ s a, Inv s → (P s a ↔ ok s a)) {s : σ}
    (hs : Inv s) (as : List α) : Along step P s as ↔ Along step ok s as := by
  induction as generalizing s with
  | nil => exact Iff.rfl
  | cons a as ih =>
    rw [along_cons, along_cons, hiff s a hs]
    constructor
    · rintro ⟨hok, hrest⟩
      exact ⟨hok, fun t ht => (ih (hstep s a t hs hok ht)).1 (hrest t ht)⟩
    · rintro ⟨hok, hrest⟩
      exact ⟨hok, fun t ht => (ih (hstep s a t hs hok ht)).2 (hrest t ht)⟩

/-! ### What the steps of a run add up to -/

private theorem trace_cons {s t : σ} {a : α} (h : step s a = some t) (as : List α) :
    trace step s (a :: as) = (s, a, t) :: trace step t as := by
  simp only [trace, h]

/-- The actions of the trace are those of the run. -/
theorem map_trace {β : Type*} (f : α → β) {s t : σ} {as : List α} (h : exec step s as = some t) :
    (trace step s as).map (fun x => f x.2.1) = as.map f := by
  induction as generalizing s with
  | nil => rfl
  | cons a as ih =>
    obtain ⟨r, hr, hrt⟩ := exec_cons.1 h
    rw [trace_cons hr, List.map_cons, List.map_cons, ih hrt]

/-- A number to which each step adds its share has grown by the sum of the shares. -/
theorem sum_trace {Inv : σ → Prop} {f : σ → Nat} {g : σ × α × σ → Nat}
    (hstep : ∀ s a t, Inv s → ok s a → step s a = some t → Inv t ∧ f t = f s + g (s, a, t)) {s t : σ} {as : List α}
    (hs : Inv s) (hok : Along step ok s as) (h : exec step s as = some t) :
    f t = f s + ((trace step s as).map g).sum := by
  induction as generalizing s with
  | nil =>
    obtain rfl : s = t := by simpa [exec] using h
    simp [trace]
  | cons a as ih =>
    obtain ⟨r, hr, hrt⟩ := exec_cons.1 h
    obtain ⟨hinv, hshare⟩ := hstep s a r hs hok.1 hr
    have hrest := ih hinv (hok.2 r hr) hrt
    rw [trace_cons hr, List.map_cons, List.sum_cons]
    omega

/-- A number that the steps with a property increase by one counts them. -/
theorem countP_trace {Inv : σ → Prop} {f : σ → Nat} {p : σ × α × σ → Bool}
    (hstep : ∀ s a t, Inv s → ok s a → step s a = some t → Inv t ∧ f t = f s + if p (s, a, t) then 1 else 0) {s t : σ}
    {as : List α} (hs : Inv s) (hok : Along step ok s as) (h : exec step s as = some t) :
    f t = f s + (trace step s as).countP p := by
  have hcount : ∀ l : List (σ × α × σ), (l.map fun x => if p x then 1 else 0).sum = l.countP p := by
    intro l
    induction l with
    | nil => rfl
    | cons x l ih =>
      rw [List.map_cons, List.sum_cons, List.countP_cons, ih]
      omega
  rw [← hcount]
  exact sum_trace (g := fun x => if p x then 1 else 0) hstep hs hok h

/-- A property of a state and of the actions that have led to it. -/
theorem exec_history {P : List α → σ → Prop}
    (hstep : ∀ as s a t, P as s → step s a = some t → P (as ++ [a]) t) {s t : σ} {as : List α} (hs : P [] s)
    (h : exec step s as = some t) : P as t := by
  have hrest : ∀ (before : List α) (r : σ), P before r → exec step r as = some t → P (before ++ as) t := by
    clear h
    induction as with
    | nil =>
      intro before r hr hrt
      obtain rfl : r = t := by simpa [exec] using hrt
      rwa [List.append_nil]
    | cons a as ih =>
      intro before r hr hrt
      obtain ⟨u, hru, hut⟩ := exec_cons.1 hrt
      have hlast := ih (before ++ [a]) u (hstep before r a u hr hru) hut
      rwa [List.append_assoc] at hlast
  exact hrest [] s hs h

/-! ### What is numbered in the order of the run -/

theorem filterMap_concat {β : Type*} (f : α → Option β) (as : List α) (a : α) :
    (as ++ [a]).filterMap f = as.filterMap f ++ (f a).toList := by
  rw [List.filterMap_append]
  cases hf : f a <;> simp [hf]

/-- A list that gets at most one entry more: the new one has the next number. -/
theorem getElem?_append_toList {β : Type*} {l : List β} {o : Option β} {v : β} {x : Nat} :
    (l ++ o.toList)[x]? = some v ↔ l[x]? = some v ∨ x = l.length ∧ o = some v := by
  rw [List.getElem?_append]
  by_cases hlt : x < l.length
  · rw [if_pos hlt, or_iff_left]
    rintro ⟨rfl, -⟩
    exact absurd hlt (Nat.lt_irrefl _)
  · rw [if_neg hlt, List.getElem?_eq_none (Nat.le_of_not_lt hlt)]
    by_cases hx : x = l.length
    · subst hx
      cases o <;> simp
    · have hone : o.toList.length ≤ 1 := by cases o <;> simp
      have hbeyond : o.toList[x - l.length]? = none := List.getElem?_eq_none (by omega)
      simp [hx, hbeyond]

/-! ### How long a run can be -/

/-- A run of actions that keep the invariant and lower a measure is no longer than the measure. -/
theorem exec_measure_of_mem {Inv : σ → Prop} {p : α → Prop} {μ : σ → Nat}
    (hstep : ∀ s a t, Inv s → p a → step s a = some t → Inv t ∧ μ t < μ s) {s t : σ} {as : List α} (hs : Inv s)
    (has : ∀ a ∈ as, p a) (h : exec step s as = some t) : as.length + μ t ≤ μ s := by
  induction as generalizing s with
  | nil =>
    obtain rfl : s = t := by simpa [exec] using h
    simp
  | cons a as ih =>
    obtain ⟨r, hr, hrt⟩ := exec_cons.1 h
    obtain ⟨hinv, hlower⟩ := hstep s a r hs (has a List.mem_cons_self) hr
    have hrest := ih hinv (fun b hb => has b (List.mem_cons_of_mem a hb)) hrt
    rw [List.length_cons]
    omega

/-- A run of actions that lower a measure is no longer than the measure. -/
theorem exec_measure {Inv : σ → Prop} {p : α → Prop} {μ : σ → Nat}
    (hstep : ∀ s a t, Inv s → step s a = some t → Inv t)
    (hlt : ∀ s a t, Inv s → p a → step s a = some t → μ t < μ s) {s t : σ} {as : List α} (hs : Inv s)
    (has : ∀ a ∈ as, p a) (h : exec step s as = some t) : as.length + μ t ≤ μ s :=
  exec_measure_of_mem (fun s a t hs ha hst => ⟨hstep s a t hs hst, hlt s a t hs ha hst⟩) hs has h

end Transition
