import Casa.Lib.Exec
import Mathlib.Data.List.Pairwise
import Mathlib.Data.BitVec
import Casa.Lib.MachineInt

/-! The lookup of the function that an address belongs to (seh.rs). The binary search is that
of the standard library; a table that is not sorted may mislead it, and is then scanned. -/
namespace Casa.Seh
open Effect List

structure RuntimeFunction where
  beginAddr : U32
  endAddr : U32
  unwindInfoAddr : U32
  deriving DecidableEq

def RuntimeFunction.contains (function : RuntimeFunction) (rva : U32) : Bool :=
  function.beginAddr ≤ rva && rva < function.endAddr

section Search
variable (table : List α) (holds : α → Bool)

/-- The loop of the search, with `size` entries left from `base` on. -/
def partitionFrom (base size : Nat) : Nat :=
  if 1 < size then
    let half := size / 2
    partitionFrom (if table[base + half]?.any holds then base + half else base) (size - half)
  else if table[base]?.any holds then base + 1 else base
termination_by size

def partitionPoint : Nat := if table.length = 0 then 0 else partitionFrom table holds 0 table.length

theorem partitionFrom_le (left : 0 < size) : partitionFrom table holds base size ≤ base + size := by
  fun_induction partitionFrom table holds base size with
  | case1 base size more half ih =>
    refine (ih (by omega)).trans ?_
    split <;> omega
  | case2 => omega
  | case3 => omega

/-- The entry before the partition point is one of the table, whether or not it is sorted. -/
theorem partitionPoint_le : partitionPoint table holds ≤ table.length := by
  rw [partitionPoint]
  split
  case isTrue => exact Nat.zero_le _
  case isFalse filled =>
    exact (partitionFrom_le table holds (Nat.pos_of_ne_zero filled)).trans_eq (Nat.zero_add _)

end Search

/-- Tables by image base. An index out of range stops the process. -/
def findRuntimeFunction (pdataTables : List (U64 × List RuntimeFunction)) (imageBase : U64)
    (rva : U32) : Result Empty (Option RuntimeFunction) :=
  match pdataTables.lookup imageBase with
  | none => pure none
  | some functions => do
    let idx := partitionPoint functions fun function => function.beginAddr ≤ rva
    let scanned := functions.find? fun function => function.contains rva
    if 0 < idx then
      let candidate ← Result.expect functions[idx - 1]?
      if candidate.contains rva then pure (some candidate) else pure scanned
    else pure scanned

/-- An entry of the table that contains the address, or none if there is no such entry. -/
def Answers (functions : List RuntimeFunction) (rva : U32) : Option RuntimeFunction → Prop
  | some function => function ∈ functions ∧ function.contains rva = true
  | none => ∀ function ∈ functions, ¬ function.contains rva = true

theorem scan_answers :
    Answers functions rva (functions.find? fun function => function.contains rva) := by
  cases found : functions.find? fun function => function.contains rva with
  | none => exact find?_eq_none.mp found
  | some => exact ⟨mem_of_find?_eq_some found, by simpa using find?_some found⟩

theorem findRuntimeFunction_answers (held : pdataTables.lookup imageBase = some functions) :
    ∃ found, findRuntimeFunction pdataTables imageBase rva = .ok found ∧
      Answers functions rva found := by
  simp only [findRuntimeFunction, held]
  split
  case isFalse => exact ⟨_, rfl, scan_answers⟩
  case isTrue proposed =>
    have inside : partitionPoint functions (fun function => function.beginAddr ≤ rva) - 1 < functions.length := by
      have bound := partitionPoint_le functions fun function => function.beginAddr ≤ rva
      omega
    rw [getElem?_eq_getElem inside, Result.expect, Result.ok_bind]
    split
    case isTrue contained => exact ⟨_, rfl, getElem_mem inside, contained⟩
    case isFalse => exact ⟨_, rfl, scan_answers⟩

/-- Sorted by the first address, and no address in two of the ranges. -/
def Separate (functions : List RuntimeFunction) : Prop :=
  functions.Pairwise fun first second => first.beginAddr ≤ second.beginAddr ∧
    ∀ rva, ¬ (first.contains rva = true ∧ second.contains rva = true)

theorem Separate.unique (separate : Separate functions) (member : first ∈ functions)
    (other : second ∈ functions) (contained : first.contains rva)
    (alsoContained : second.contains rva) : first = second := by
  induction separate with
  | nil => cases member
  | cons apart _ ih =>
    rcases mem_cons.mp member with rfl | later <;> rcases mem_cons.mp other with rfl | otherLater
    · rfl
    · exact absurd ⟨contained, alsoContained⟩ ((apart _ otherLater).2 rva)
    · exact absurd ⟨alsoContained, contained⟩ ((apart _ later).2 rva)
    · exact ih later otherLater

theorem find_runtime_function_exact (held : pdataTables.lookup imageBase = some functions) :
    ∃ found, findRuntimeFunction pdataTables imageBase rva = .ok found ∧
      Answers functions rva found ∧
      (Separate functions → ∀ function ∈ functions, function.contains rva = true → found = some function) := by
  obtain ⟨found, done, answers⟩ := findRuntimeFunction_answers held
  refine ⟨found, done, answers, fun separate function member contained => ?_⟩
  cases found with
  | none => exact absurd contained (answers function member)
  | some => rw [separate.unique answers.1 member answers.2 contained]

/-- Two functions side by side and one behind a gap. -/
def sortedTable : List RuntimeFunction := [⟨0x1000, 0x1100, 0⟩, ⟨0x1100, 0x1200, 1⟩, ⟨0x1300, 0x1400, 2⟩]

/-- The same functions, the last one first: the search for it ends at another one. -/
def unsortedTable : List RuntimeFunction := [⟨0x1300, 0x1400, 2⟩, ⟨0x1000, 0x1100, 0⟩, ⟨0x1100, 0x1200, 1⟩]

theorem sortedTable_separate : Separate sortedTable := by
  have apart {first second : RuntimeFunction} (behind : first.endAddr ≤ second.beginAddr) (rva : U32) :
      ¬ (first.contains rva ∧ second.contains rva) := by
    simp only [RuntimeFunction.contains, Bool.and_eq_true, decide_eq_true_eq]
    bv_omega
  simp only [Separate, sortedTable, pairwise_cons, mem_cons, not_mem_nil, or_false,
    forall_eq_or_imp, forall_eq]
  refine ⟨⟨⟨?_, apart ?_⟩, ?_, apart ?_⟩, ⟨?_, apart ?_⟩, fun _ none => none.elim,
    Pairwise.nil⟩ <;> decide

theorem find_runtime_function_exact_tables :
    (∃ found, findRuntimeFunction [(1, sortedTable), (2, unsortedTable)] 1 0x1150 = .ok found ∧
      found = some ⟨0x1100, 0x1200, 1⟩) ∧
    ∃ found, findRuntimeFunction [(1, sortedTable), (2, unsortedTable)] 2 0x1350 = .ok found ∧
      Answers unsortedTable 0x1350 found := by
  have first : [(1#64, sortedTable), (2, unsortedTable)].lookup 1 = some sortedTable := rfl
  have second : [(1#64, sortedTable), (2, unsortedTable)].lookup 2 = some unsortedTable := rfl
  obtain ⟨found, done, -, unique⟩ := find_runtime_function_exact first
  obtain ⟨scanned, ended, answers, -⟩ := find_runtime_function_exact second
  exact ⟨⟨found, done, unique sortedTable_separate _ (by decide) (by decide)⟩, scanned, ended,
    answers⟩

end Casa.Seh
