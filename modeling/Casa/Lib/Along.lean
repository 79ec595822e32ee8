import Mathlib.Data.List.Infix

/-! Runs of a step function whose every step meets a condition in the state it starts in,
and what such runs preserve. -/
namespace Effect
variable {σ α : Type}

def Along (step : σ → α → σ) (condition : σ → α → Prop) (s : σ) : List α → Prop
  | [] => True
  | action :: rest => condition s action ∧ Along step condition (step s action) rest

namespace Along
variable {step : σ → α → σ} {condition : σ → α → Prop} {s : σ} {actions : List α}

instance decidable [∀ s action, Decidable (condition s action)] (s : σ) :
    (actions : List α) → Decidable (Along step condition s actions)
  | [] => inferInstanceAs (Decidable True)
  | action :: rest =>
    have := decidable (step s action) rest
    inferInstanceAs (Decidable (condition s action ∧ Along step condition (step s action) rest))

theorem append (first : Along step condition s actions)
    (rest : Along step condition (actions.foldl step s) more) :
    Along step condition s (actions ++ more) := by
  induction actions generalizing s with
  | nil => exact rest
  | cons action actions ih => exact ⟨first.1, ih first.2 rest⟩

/-- What holds at first and survives every step that meets the condition holds after every prefix. -/
theorem invariant {I : σ → Prop} (along : Along step condition s actions) (start : I s)
    (keeps : ∀ s action, I s → condition s action → I (step s action)) :
    ∀ taken, taken <+: actions → I (taken.foldl step s) := by
  induction actions generalizing s with
  | nil =>
    intro taken none
    rw [List.prefix_nil.mp none]
    exact start
  | cons action rest ih =>
    intro taken within
    cases taken with
    | nil => exact start
    | cons first taken =>
      obtain ⟨rfl, before⟩ := List.cons_prefix_cons.mp within
      exact ih along.2 (keeps s first start along.1) taken before

/-- Under an invariant, a consequence of the condition holds at every step. -/
theorem imp {I : σ → Prop} (along : Along step condition s actions) (start : I s)
    (keeps : ∀ s action, I s → condition s action → I (step s action))
    (follows : ∀ s action, I s → condition s action → consequence s action) :
    Along step consequence s actions := by
  induction actions generalizing s with
  | nil => trivial
  | cons action rest ih =>
    exact ⟨follows s action start along.1, ih along.2 (keeps s action start along.1)⟩

end Along

end Effect
