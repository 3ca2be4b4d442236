import Mathlib.Init
import Mathlib.Tactic.TypeStar

/-!
# Exclusive ownership

Things of a type `ι` are held by owners of a type `ω`, where an owner may hold several of them, or one after the other.
`Exclusive` says that what is held has an owner, and only one.  So what is given back by its owner is held by nobody
else, and it is given back once.  The three rules are for a step in which something goes from one owner to another
(`move`), is new (`acquire`) or is given back (`release`); each asks what the owners are after the step.
-/

/-- What is held has an owner, and nothing has two. -/
structure Exclusive {ι ω : Type*} (owns : ι → ω → Prop) (held : ι → Prop) : Prop where
  held_iff : ∀ x, held x ↔ ∃ o, owns x o
  unique : ∀ x o o', owns x o → owns x o' → o = o'

namespace Exclusive

variable {ι ω : Type*} {owns owns' : ι → ω → Prop} {held held' : ι → Prop} {x : ι} {old : ω}

theorem congr (h : Exclusive owns held) (hheld : ∀ y, held' y ↔ held y) (howns : ∀ y o, owns' y o ↔ owns y o) :
    Exclusive owns' held' := by
  refine ⟨fun y => ?_, fun y o o' ho ho' => h.unique y o o' ((howns y o).1 ho) ((howns y o').1 ho')⟩
  rw [hheld, h.held_iff]
  exact exists_congr fun o => (howns y o).symm

/-- One owner takes over from another one. -/
theorem move (h : Exclusive owns held) (new : ω) (hold : owns x old)
    (howns : ∀ y o, owns' y o ↔ y = x ∧ o = new ∨ ¬ (y = x ∧ o = old) ∧ owns y o) : Exclusive owns' held := by
  have hnone : ∀ o, ¬ (x = x ∧ o = old) → ¬ owns x o := fun o hne ho => hne ⟨rfl, h.unique x o old ho hold⟩
  refine ⟨fun y => ?_, fun y o o' ho ho' => ?_⟩
  · rw [h.held_iff]
    constructor
    · rintro ⟨o, ho⟩
      by_cases heq : y = x ∧ o = old
      · exact ⟨new, (howns y new).2 (.inl ⟨heq.1, rfl⟩)⟩
      · exact ⟨o, (howns y o).2 (.inr ⟨heq, ho⟩)⟩
    · rintro ⟨o, ho⟩
      rcases (howns y o).1 ho with ⟨rfl, -⟩ | ⟨-, ho⟩
      · exact ⟨old, hold⟩
      · exact ⟨o, ho⟩
  · rcases (howns y o).1 ho with ⟨rfl, rfl⟩ | ⟨hne, ho⟩
    · rcases (howns y o').1 ho' with ⟨-, rfl⟩ | ⟨hne', ho'⟩
      · rfl
      · exact absurd ho' (hnone o' hne')
    · rcases (howns y o').1 ho' with ⟨rfl, -⟩ | ⟨-, ho'⟩
      · exact absurd ho (hnone o hne)
      · exact h.unique y o o' ho ho'

/-- Something new has an owner. -/
theorem acquire (h : Exclusive owns held) (new : ω) (hx : ¬ held x) (hheld : ∀ y, held' y ↔ y = x ∨ held y)
    (howns : ∀ y o, owns' y o ↔ y = x ∧ o = new ∨ owns y o) : Exclusive owns' held' := by
  have hfree : ∀ o, ¬ owns x o := fun o ho => hx ((h.held_iff x).2 ⟨o, ho⟩)
  refine ⟨fun y => ?_, fun y o o' ho ho' => ?_⟩
  · rw [hheld, h.held_iff]
    constructor
    · rintro (rfl | ⟨o, ho⟩)
      · exact ⟨new, (howns y new).2 (.inl ⟨rfl, rfl⟩)⟩
      · exact ⟨o, (howns y o).2 (.inr ho)⟩
    · rintro ⟨o, ho⟩
      rcases (howns y o).1 ho with ⟨rfl, -⟩ | ho
      · exact .inl rfl
      · exact .inr ⟨o, ho⟩
  · rcases (howns y o).1 ho with ⟨rfl, rfl⟩ | ho
    · rcases (howns y o').1 ho' with ⟨-, rfl⟩ | ho'
      · rfl
      · exact absurd ho' (hfree o')
    · rcases (howns y o').1 ho' with ⟨rfl, -⟩ | ho'
      · exact absurd ho (hfree o)
      · exact h.unique y o o' ho ho'

/-- An owner gives back what it has. -/
theorem release (h : Exclusive owns held) (hold : owns x old) (hheld : ∀ y, held' y ↔ y ≠ x ∧ held y)
    (howns : ∀ y o, owns' y o ↔ ¬ (y = x ∧ o = old) ∧ owns y o) : Exclusive owns' held' := by
  refine ⟨fun y => ?_, fun y o o' ho ho' => h.unique y o o' ((howns y o).1 ho).2 ((howns y o').1 ho').2⟩
  rw [hheld, h.held_iff]
  constructor
  · rintro ⟨hne, o, ho⟩
    exact ⟨o, (howns y o).2 ⟨fun heq => hne heq.1, ho⟩⟩
  · rintro ⟨o, ho⟩
    obtain ⟨hne, ho⟩ := (howns y o).1 ho
    refine ⟨fun heq => hne ⟨heq, ?_⟩, o, ho⟩
    subst heq
    exact h.unique y o old ho hold

end Exclusive
