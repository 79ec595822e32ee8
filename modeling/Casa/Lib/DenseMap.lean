import Mathlib.Data.List.Basic

/-! Keyed entries in a dense list, found through a separate index. Removal moves
the last entry into the gap, so the index has to follow that one entry. -/
namespace DenseMap

variable {κ α : Type} {entries : List (κ × α)} {find find' : κ → Option Nat} {key : κ} {value : α}
  {index : Nat}

def swapRemove (entries : List α) (index : Nat) : List α :=
  match entries.getLast? with
  | none => entries
  | some last => (entries.set index last).dropLast

/-- The index finds every entry where it is. -/
def Tracks (entries : List (κ × α)) (find : κ → Option Nat) : Prop :=
  ∀ (i : Nat) (entry : κ × α), entries[i]? = some entry → find entry.1 = some i

theorem Tracks.position (tracked : Tracks entries find) {i j : Nat} (first : entries[i]? = some a)
    (second : entries[j]? = some b) (same : a.1 = b.1) : i = j := by
  have position := tracked i a first
  rw [same, tracked j b second] at position
  exact (Option.some.inj position).symm

theorem Tracks.mem_iff (tracked : Tracks entries find) : (key, value) ∈ entries ↔
    ∃ i, find key = some i ∧ entries[i]? = some (key, value) := by
  rw [List.mem_iff_getElem?]
  constructor
  · rintro ⟨i, found⟩
    exact ⟨i, tracked i _ found, found⟩
  · rintro ⟨i, -, found⟩
    exact ⟨i, found⟩

theorem Tracks.push (tracked : Tracks entries find)
    (others : ∀ entry ∈ entries, find' entry.1 = find entry.1)
    (here : find' key = some entries.length) : Tracks (entries ++ [(key, value)]) find' := by
  intro i entry found
  rw [List.getElem?_append] at found
  split at found
  · rw [others entry (List.mem_of_getElem? found)]
    exact tracked i entry found
  case isFalse beyond =>
    obtain ⟨last, rfl⟩ : i - entries.length = 0 ∧ entry = (key, value) := by
      rw [List.getElem?_singleton] at found
      split at found
      case isTrue zero => exact ⟨zero, (Option.some.inj found).symm⟩
      case isFalse => cases found
    rw [here]
    congr 1
    omega

theorem getElem?_swapRemove (final : entries.getLast? = some last) (j : Nat) :
    (swapRemove entries index)[j]? =
      if j + 1 < entries.length then (if index = j then some last else entries[j]?) else none := by
  simp only [swapRemove, final, List.getElem?_dropLast, List.length_set, List.getElem?_set]
  by_cases inside : j + 1 < entries.length
  · have present : j < entries.length := by omega
    rw [if_pos (show j < entries.length - 1 by omega)]
    split
    case isTrue same => rw [if_pos (same ▸ present)]
    case isFalse => rfl
  · rw [if_neg inside, if_neg (show ¬ j < entries.length - 1 by omega)]

/-- What remains is what was not at the removed position. -/
theorem mem_swapRemove (here : entries[index]? = some removed) :
    entry ∈ swapRemove entries index ↔ ∃ j, j ≠ index ∧ entries[j]? = some entry := by
  have bound : index < entries.length := (List.getElem?_eq_some_iff.mp here).1
  obtain ⟨last, final⟩ : ∃ last, entries.getLast? = some last :=
    Option.ne_none_iff_exists'.mp fun none => by
      rw [List.getLast?_eq_none_iff] at none
      rw [none] at bound
      cases bound
  have atEnd : entries[entries.length - 1]? = some last := by
    rw [← final, List.getLast?_eq_getElem?]
  rw [List.mem_iff_getElem?]
  constructor
  · rintro ⟨j, found⟩
    rw [getElem?_swapRemove final] at found
    split at found
    case isFalse => cases found
    case isTrue inside =>
      split at found
      · obtain rfl := Option.some.inj found
        exact ⟨entries.length - 1, by omega, atEnd⟩
      · exact ⟨j, by omega, found⟩
  · rintro ⟨j, other, found⟩
    have inside := (List.getElem?_eq_some_iff.mp found).1
    by_cases moved : j + 1 < entries.length
    · refine ⟨j, ?_⟩
      rw [getElem?_swapRemove final, if_pos moved, if_neg other.symm, found]
    · obtain rfl : j = entries.length - 1 := by omega
      refine ⟨index, ?_⟩
      rw [getElem?_swapRemove final, if_pos (by omega), if_pos rfl, ← atEnd, found]

/-- The index after a removal names the moved entry at its new place. -/
theorem Tracks.swapRemove {last : κ × α} (tracked : Tracks entries find)
    (here : entries[index]? = some (key, value)) (final : entries.getLast? = some last)
    (moved : index + 1 < entries.length → find' last.1 = some index)
    (others : ∀ entry ∈ entries, entry.1 ≠ key → entry.1 ≠ last.1 → find' entry.1 = find entry.1) :
    Tracks (swapRemove entries index) find' := by
  have atEnd : entries[entries.length - 1]? = some last := by
    rw [← final, List.getLast?_eq_getElem?]
  intro i entry found
  rw [getElem?_swapRemove final] at found
  split at found
  case isFalse => cases found
  case isTrue inside =>
    split at found
    case isTrue same =>
      obtain rfl := Option.some.inj found
      rw [moved (by omega), same]
    case isFalse other =>
      have notRemoved : entry.1 ≠ key := fun same => other (tracked.position here found same.symm)
      have notMoved : entry.1 ≠ last.1 := by
        intro same
        have := tracked.position found atEnd same
        omega
      rw [others entry (List.mem_of_getElem? found) notRemoved notMoved]
      exact tracked i entry found

end DenseMap
