import Casa.Lib.MachineInt

/-! One program over machine words under two build profiles. The optimised one
wraps a subtraction and reduces a shift amount to the word; the checked one
stops there. A program is written once over `Profile`, and where its checked
run returns the optimised run returns the same. -/
namespace MachineInt
open Option

structure Profile (M : Type → Type) where
  sub : (w a b : Nat) → M Nat
  shl : U64 → Nat → M U64
  shr : U64 → Nat → M U64
  sar : U64 → Nat → M U64

namespace Profile

def optimised : Profile Id where
  sub w a b := wrapSub w a b
  shl := MachineInt.shl
  shr := MachineInt.shr
  sar := MachineInt.sar

/-- No value is computed from a difference below zero or a shift by the whole word. -/
def checked : Profile Option where
  sub _ a b := if b ≤ a then some (a - b) else none
  shl x amount := if amount < 64 then some (x <<< amount) else none
  shr x amount := if amount < 64 then some (x >>> amount) else none
  sar x amount := if amount < 64 then some (x.sshiftRight amount) else none

section Optimised
variable (x : U64) (amount : Nat)

theorem optimised_sub : optimised.sub w a b = pure (wrapSub w a b) := rfl
theorem optimised_shl : optimised.shl x amount = pure (MachineInt.shl x amount) := rfl
theorem optimised_shr : optimised.shr x amount = pure (MachineInt.shr x amount) := rfl
theorem optimised_sar : optimised.sar x amount = pure (MachineInt.sar x amount) := rfl

end Optimised

section Checked
variable {x : U64} {a b amount : Nat}

theorem checked_sub (le : b ≤ a) : checked.sub w a b = pure (a - b) := if_pos le
theorem checked_sub_of_lt (lt : a < b) : checked.sub w a b = none := if_neg (Nat.not_le.mpr lt)
theorem checked_shl (small : amount < 64) :
    checked.shl x amount = pure (x <<< amount) := if_pos small
theorem checked_shr (small : amount < 64) :
    checked.shr x amount = pure (x >>> amount) := if_pos small
theorem checked_sar (small : amount < 64) :
    checked.sar x amount = pure (x.sshiftRight amount) := if_pos small

end Checked
end Profile

/-- The checked run stops or returns what the optimised run returns. -/
def Refines (safe : Option α) (fast : Id α) : Prop := ∀ a, safe = some a → fast.run = a

namespace Refines
open Profile
variable {α β : Type}

theorem pure (a : α) : Refines (pure a) (pure a) := by
  rintro b ⟨⟩
  rfl

theorem bind (first : Refines safe fast) (rest : ∀ a, Refines (next a) (next' a)) :
    Refines (safe >>= next) (fast >>= next') := by
  intro b returned
  obtain ⟨a, here, there⟩ := bind_eq_some_iff.mp returned
  have same : fast.run = a := first a here
  subst same
  exact rest _ b there

theorem ite [Decidable c] (pos : Refines yes yes') (neg : Refines no no') :
    Refines (if c then yes else no) (if c then yes' else no') := by
  split
  · exact pos
  · exact neg

theorem sub (fits : a < 2 ^ w) : Refines (checked.sub w a b) (optimised.sub w a b) := by
  intro d returned
  by_cases le : b ≤ a
  · rw [checked_sub le] at returned
    exact (wrapSub_of_le fits le).trans (some.inj returned)
  · rw [checked_sub_of_lt (Nat.not_le.mp le)] at returned
    cases returned

theorem shl (x : U64) (amount : Nat) : Refines (checked.shl x amount) (optimised.shl x amount) := by
  intro y returned
  obtain ⟨small, same⟩ := ite_none_right_eq_some.mp returned
  exact (shl_of_lt small).trans (some.inj same)

theorem shr (x : U64) (amount : Nat) : Refines (checked.shr x amount) (optimised.shr x amount) := by
  intro y returned
  obtain ⟨small, same⟩ := ite_none_right_eq_some.mp returned
  exact (shr_of_lt small).trans (some.inj same)

theorem sar (x : U64) (amount : Nat) : Refines (checked.sar x amount) (optimised.sar x amount) := by
  intro y returned
  obtain ⟨small, same⟩ := ite_none_right_eq_some.mp returned
  rw [← some.inj same]
  exact congrArg x.sshiftRight (Nat.mod_eq_of_lt small)

end Refines

end MachineInt
