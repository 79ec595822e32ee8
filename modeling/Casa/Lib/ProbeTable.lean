import Mathlib.Logic.Function.Basic

/-! Open addressing with linear probing: a key goes to the first empty slot from its own
slot on, and is looked for up to the first empty slot. -/
namespace ProbeTable

variable {κ : Type} [DecidableEq κ] (empty : κ) (size : Nat)

/-- Put the key into the first empty slot of the next rounds. -/
def place (key : κ) (slots : Nat → κ) : Nat → Nat → Option (Nat → κ)
  | 0, _ => none
  | rounds + 1, index =>
    if slots index = empty then some (Function.update slots index key)
    else place key slots rounds ((index + 1) % size)

def find (key : κ) (slots : Nat → κ) : Nat → Nat → Bool
  | 0, _ => false
  | rounds + 1, index =>
    if slots index = empty then false
    else if slots index = key then true
    else find key slots rounds ((index + 1) % size)

variable {empty size} {key : κ} {slots placed : Nat → κ} {rounds index : Nat}

/-- What was found is found after an empty slot has been filled. -/
theorem find_update (other : κ) (free : slots slot = empty)
    (found : find empty size key slots rounds index) :
    find empty size key (Function.update slots slot other) rounds index := by
  induction rounds generalizing index with
  | zero => cases found
  | succ rounds ih =>
    rw [find] at found ⊢
    by_cases vacant : slots index = empty
    · rw [if_pos vacant] at found
      cases found
    · have elsewhere : index ≠ slot := fun same => vacant (same ▸ free)
      rw [if_neg vacant] at found
      rw [Function.update_of_ne elsewhere, if_neg vacant]
      split
      case isTrue => rfl
      case isFalse differ =>
        rw [if_neg differ] at found
        exact ih found

/-- Only what is stored is found. -/
theorem mem_of_find (found : find empty size key slots rounds index) :
    ∃ slot, slots slot ≠ empty ∧ slots slot = key := by
  induction rounds generalizing index with
  | zero => cases found
  | succ rounds ih =>
    rw [find] at found
    split at found
    · cases found
    case isFalse taken =>
      split at found
      case isTrue same => exact ⟨index, taken, same⟩
      case isFalse => exact ih found

theorem place_slot (done : place empty size key slots rounds index = some placed) :
    ∃ slot, slots slot = empty ∧ placed = Function.update slots slot key := by
  induction rounds generalizing index with
  | zero => cases done
  | succ rounds ih =>
    rw [place] at done
    split at done
    case isTrue free => exact ⟨index, free, (Option.some.inj done).symm⟩
    case isFalse => exact ih done

theorem find_place (proper : key ≠ empty)
    (done : place empty size key slots rounds index = some placed) :
    find empty size key placed rounds index := by
  induction rounds generalizing index with
  | zero => cases done
  | succ rounds ih =>
    obtain ⟨slot, free, filled⟩ := place_slot done
    rw [place] at done
    rw [find]
    split at done
    case isTrue vacant =>
      cases done
      rw [Function.update_self, if_neg proper, if_pos rfl]
    case isFalse taken =>
      have elsewhere : index ≠ slot := fun same => taken (same ▸ free)
      have kept : placed index = slots index := by rw [filled, Function.update_of_ne elsewhere]
      rw [kept, if_neg taken]
      split
      case isTrue => rfl
      case isFalse => exact ih done

end ProbeTable
