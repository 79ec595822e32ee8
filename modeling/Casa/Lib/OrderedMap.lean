import Mathlib.Data.List.Basic
import Mathlib.Data.List.Perm.Subperm
import Mathlib.Data.Nat.Bitwise

/-! Ordered maps as association lists in ascending key order, and ordered sets as lists. -/
namespace OrderedMap
open List (foldl_cons map_cons mem_cons mem_cons_of_mem mem_cons_self pairwise_cons)

variable {κ α : Type} [DecidableEq κ]

def insert [LT κ] [DecidableLT κ] (key : κ) (value : α) : List (κ × α) → List (κ × α)
  | [] => [(key, value)]
  | entry :: rest =>
    if key < entry.1 then (key, value) :: entry :: rest
    else if key = entry.1 then (key, value) :: rest
    else entry :: insert key value rest

def erase (key : κ) (entries : List (κ × α)) : List (κ × α) :=
  entries.filter fun entry => entry.1 ≠ key

def modify (key : κ) (update : α → α) (entries : List (κ × α)) : List (κ × α) :=
  entries.map fun entry => if entry.1 = key then (entry.1, update entry.2) else entry

theorem lookup_cons (entry : κ × α) (rest : List (κ × α)) (other : κ) :
    (entry :: rest).lookup other = if other = entry.1 then some entry.2 else rest.lookup other := by
  rw [List.lookup_cons]
  by_cases same : other = entry.1
  · simp [same]
  · have differ : (other == entry.1) = false := by simpa using same
    rw [differ, if_neg same]

theorem lookup_map (update : α → α) (entries : List (κ × α)) (other : κ) :
    (entries.map fun entry => (entry.1, update entry.2)).lookup other =
      (entries.lookup other).map update := by
  induction entries with
  | nil => rfl
  | cons head rest ih =>
    rw [map_cons, lookup_cons, lookup_cons, ih]
    split <;> rfl

section Insert
variable [LT κ] [DecidableLT κ] {key : κ} {value : α} {entry : κ × α} {entries : List (κ × α)}

theorem mem_insert (member : entry ∈ insert key value entries) :
    entry = (key, value) ∨ entry ∈ entries := by
  induction entries with
  | nil => simpa [insert] using member
  | cons head rest ih =>
    rw [insert] at member
    split at member
    · simpa using member
    · split at member
      · rcases mem_cons.mp member with rfl | inRest
        · exact .inl rfl
        · exact .inr (mem_cons_of_mem _ inRest)
      · rcases mem_cons.mp member with rfl | inRest
        · exact .inr mem_cons_self
        · exact (ih inRest).imp_right (mem_cons_of_mem _)

/-- Entries under other keys survive. -/
theorem mem_insert_of_ne (member : entry ∈ entries) (other : entry.1 ≠ key) :
    entry ∈ insert key value entries := by
  induction entries with
  | nil => cases member
  | cons head rest ih =>
    rw [insert]
    split
    · exact mem_cons_of_mem _ member
    · split
      case isTrue same =>
        rcases mem_cons.mp member with rfl | inRest
        · exact absurd same.symm other
        · exact mem_cons_of_mem _ inRest
      case isFalse =>
        rcases mem_cons.mp member with rfl | inRest
        · exact mem_cons_self
        · exact mem_cons_of_mem _ (ih inRest)

theorem lookup_insert (other : κ) :
    (insert key value entries).lookup other = if other = key then some value
      else entries.lookup other := by
  induction entries with
  | nil => rw [insert, lookup_cons]
  | cons head rest ih =>
    rw [insert]
    split
    · rw [lookup_cons]
    · split
      case isTrue here =>
        rw [lookup_cons, lookup_cons, ← here]
        split <;> rfl
      case isFalse elsewhere =>
        rw [lookup_cons, lookup_cons, ih]
        apply ite_ite_comm
        exact fun first same => elsewhere (same.symm.trans first)

end Insert

variable {key : κ} {entry : κ × α} {entries later : List (κ × α)}

theorem mem_of_mem_erase (member : entry ∈ erase key entries) : entry ∈ entries :=
  List.mem_of_mem_filter member

theorem ne_of_mem_erase (member : entry ∈ erase key entries) : entry.1 ≠ key :=
  of_decide_eq_true (List.mem_filter.mp member).2

/-- An updated map holds the old entries, those under the key with the update. -/
theorem mem_modify (member : entry ∈ modify key update entries) :
    ∃ before ∈ entries, before.1 = entry.1 ∧
      (entry.2 = before.2 ∨ (before.1 = key ∧ entry.2 = update before.2)) := by
  obtain ⟨before, inside, rfl⟩ := List.mem_map.mp member
  refine ⟨before, inside, ?_⟩
  split
  case isTrue same => exact ⟨rfl, .inr ⟨same, rfl⟩⟩
  case isFalse => exact ⟨rfl, .inl rfl⟩

theorem lookup_erase (other : κ) :
    (erase key entries).lookup other = if other = key then none else entries.lookup other := by
  induction entries with
  | nil => rw [erase, List.filter_nil, List.lookup_nil, ite_self]
  | cons head rest ih =>
    rw [erase] at ih ⊢
    rw [List.filter_cons, lookup_cons]
    by_cases dropped : head.1 = key
    · have skipped : ¬ decide (head.1 ≠ key) := by simpa using dropped
      rw [if_neg skipped, ih, dropped]
      split <;> rfl
    · have kept : decide (head.1 ≠ key) := by simpa using dropped
      rw [if_pos kept, lookup_cons, ih]
      apply ite_ite_comm
      exact fun first same => dropped (first.symm.trans same)

theorem lookup_of_erase (found : (erase key entries).lookup other = some value) :
    other ≠ key ∧ entries.lookup other = some value := by
  rw [lookup_erase] at found
  split at found
  case isTrue => cases found
  case isFalse different => exact ⟨different, found⟩

theorem mem_of_lookup (found : entries.lookup key = some value) : (key, value) ∈ entries := by
  obtain ⟨before, after, rfl, -⟩ := List.lookup_eq_some_iff.mp found
  exact List.mem_append_cons_self

theorem lookup_eq_none : entries.lookup key = none ↔ ∀ entry ∈ entries, entry.1 ≠ key := by
  simp [ne_comm]

theorem lookup_modify (update : α → α) (other : κ) :
    (modify key update entries).lookup other =
      if other = key then (entries.lookup other).map update else entries.lookup other := by
  induction entries with
  | nil => simp [modify]
  | cons head rest ih =>
    rw [modify] at ih ⊢
    rw [map_cons, lookup_cons, lookup_cons, ih]
    by_cases here : head.1 = key
    · rw [if_pos here, here]
      split <;> rfl
    · rw [if_neg here]
      by_cases first : other = head.1
      · rw [if_pos first, if_pos first, if_neg fun same => here (first.symm.trans same)]
      · rw [if_neg first, if_neg first]

theorem lookup_modify_of_found (found : entries.lookup key = some value) (update : α → α)
    (other : κ) :
    (modify key update entries).lookup other = if other = key then some (update value)
      else entries.lookup other := by
  rw [lookup_modify]
  split
  case isTrue same => rw [same, found, Option.map_some]
  case isFalse => rfl

theorem lookup_replaced (found : entries.lookup key = some value) (other : κ) :
    entries.lookup other = if other = key then some value else entries.lookup other := by
  split
  case isTrue same => rw [same, found]
  case isFalse => rfl

theorem lookup_replaced_twice {middle : List (κ × α)}
    (first : ∀ other, middle.lookup other = if other = key then some value else entries.lookup other)
    (second : ∀ other, later.lookup other = if other = key then some last else middle.lookup other)
    (other : κ) : later.lookup other = if other = key then some last else entries.lookup other := by
  rw [second]
  split
  case isTrue => rfl
  case isFalse different => rw [first, if_neg different]

/-- What holds of every entry of a map still does after one of them has been replaced. -/
theorem forall_lookup_replaced {P : κ → α → Prop}
    (lookups : ∀ other, later.lookup other = if other = key then some value else entries.lookup other)
    (here : P key value) (old : ∀ other value, entries.lookup other = some value → P other value) :
    ∀ other value, later.lookup other = some value → P other value := by
  intro other value found
  rw [lookups] at found
  split at found
  case isTrue same =>
    obtain rfl := Option.some.inj found
    exact same ▸ here
  case isFalse => exact old other value found

theorem lookup_modify_eq_none :
    (modify key update entries).lookup other = none ↔ entries.lookup other = none := by
  rw [lookup_modify]
  split
  · rw [Option.map_eq_none_iff]
  · rfl

/-! ## Ascending keys -/

def Ascending [LT κ] (entries : List (κ × α)) : Prop :=
  entries.Pairwise fun first second => first.1 < second.1

section Ascending
variable [LT κ]

theorem erase_ascending (ascending : Ascending entries) (key : κ) : Ascending (erase key entries) :=
  List.Pairwise.filter _ ascending

theorem modify_ascending (ascending : Ascending entries) :
    Ascending (modify key update entries) := by
  refine List.pairwise_map.mpr (ascending.imp fun {first second} before => ?_)
  have keys (entry : κ × α) :
      (if entry.1 = key then (entry.1, update entry.2) else entry).1 = entry.1 := by
    split <;> rfl
  rw [keys, keys]
  exact before

omit [DecidableEq κ] in
/-- The last entry has the greatest key. -/
theorem Ascending.le_getLast (ascending : Ascending entries) (member : entry ∈ entries)
    (final : entries.getLast? = some last) : entry = last ∨ entry.1 < last.1 := by
  obtain ⟨front, rfl⟩ := List.getLast?_eq_some_iff.mp final
  rcases List.mem_append.mp member with early | same
  · exact .inr ((List.pairwise_append.mp ascending).2.2 entry early last mem_cons_self)
  · exact .inl (List.mem_singleton.mp same)

omit [DecidableEq κ] in
/-- Keys that are numbered below a bound are at most that many. -/
theorem Ascending.length_le (ascending : Ascending entries) (number : κ → Nat)
    (distinct : ∀ a b, a < b → number a ≠ number b)
    (below : ∀ entry ∈ entries, number entry.1 < bound) : entries.length ≤ bound := by
  have apart : (entries.map fun entry => number entry.1).Nodup :=
    List.pairwise_map.mpr (ascending.imp fun before => distinct _ _ before)
  have within : (entries.map fun entry => number entry.1) ⊆ List.range bound := by
    intro value member
    obtain ⟨entry, there, rfl⟩ := List.mem_map.mp member
    exact List.mem_range.mpr (below entry there)
  have most := (List.subperm_of_subset apart within).length_le
  rwa [List.length_map, List.length_range] at most

variable [LE κ] [Std.LawfulOrderLT κ]

theorem insert_ascending [DecidableLT κ] [Std.IsLinearOrder κ] (ascending : Ascending entries) :
    Ascending (insert key value entries) := by
  induction entries with
  | nil => exact List.pairwise_singleton _ _
  | cons head rest ih =>
    obtain ⟨first, later⟩ := pairwise_cons.mp ascending
    rw [insert]
    split
    case isTrue before =>
      refine pairwise_cons.mpr ⟨fun other member => ?_, ascending⟩
      rcases mem_cons.mp member with rfl | inRest
      · exact before
      · exact Std.lt_trans before (first other inRest)
    case isFalse notBefore =>
      split
      case isTrue same =>
        subst same
        exact pairwise_cons.mpr ⟨first, later⟩
      case isFalse other =>
        have after : head.1 < key := Std.lt_of_le_of_ne (Std.not_lt.mp notBefore) (Ne.symm other)
        refine pairwise_cons.mpr ⟨fun entry member => ?_, ih later⟩
        rcases mem_insert member with rfl | inRest
        · exact after
        · exact first entry inRest

/-- A key behind all others is appended. -/
theorem insert_last [DecidableLT κ] (after : ∀ entry ∈ entries, entry.1 < key) :
    insert key value entries = entries ++ [(key, value)] := by
  induction entries with
  | nil => rfl
  | cons head rest ih =>
    have before := after head mem_cons_self
    rw [insert, if_neg (Std.not_gt_of_lt before),
      if_neg fun same : key = head.1 => Std.lt_irrefl (same ▸ before),
      ih fun entry member => after entry (mem_cons_of_mem head member), List.cons_append]

theorem lookup_last (after : ∀ entry ∈ entries, entry.1 < key) : entries.lookup key = none :=
  lookup_eq_none.mpr fun entry member same => Std.lt_irrefl (same ▸ after entry member)

omit [DecidableEq κ] in
/-- One entry for each key. -/
theorem Ascending.eq_of_key (ascending : Ascending entries) (left : first ∈ entries)
    (right : second ∈ entries) (same : first.1 = second.1) : first = second := by
  induction entries with
  | nil => cases left
  | cons head rest ih =>
    obtain ⟨before, later⟩ := pairwise_cons.mp ascending
    rcases mem_cons.mp left with rfl | inLeft <;> rcases mem_cons.mp right with rfl | inRight
    · rfl
    · exact absurd (same ▸ before second inRight) Std.lt_irrefl
    · exact absurd (same ▸ before first inLeft) Std.lt_irrefl
    · exact ih later inLeft inRight

theorem Ascending.lookup_iff (ascending : Ascending entries) :
    entries.lookup key = some value ↔ (key, value) ∈ entries := by
  refine ⟨mem_of_lookup, fun member => ?_⟩
  induction entries with
  | nil => cases member
  | cons head rest ih =>
    rw [lookup_cons]
    split
    case isTrue here =>
      have same := ascending.eq_of_key mem_cons_self member here.symm
      rw [same]
    case isFalse elsewhere =>
      rcases mem_cons.mp member with rfl | inRest
      · exact absurd rfl elsewhere
      · exact ih (pairwise_cons.mp ascending).2 inRest

end Ascending

/-! ## Totals -/

def total (weight : α → Nat) (entries : List (κ × α)) : Nat :=
  (entries.map fun entry => weight entry.2).sum

omit [DecidableEq κ] in
theorem length_eq_total (entries : List (κ × α)) : entries.length = total (fun _ => 1) entries := by
  induction entries with
  | nil => rfl
  | cons head rest ih =>
    rw [List.length_cons, ih, total, total, map_cons, List.sum_cons, Nat.add_comm]

omit [DecidableEq κ] in
theorem total_cons (weight : α → Nat) (head : κ × α) (rest : List (κ × α)) :
    total weight (head :: rest) = weight head.2 + total weight rest := by
  rw [total, map_cons, List.sum_cons]
  rfl

omit [DecidableEq κ] in
theorem total_le_length (small : ∀ value, weight value ≤ 1) (entries : List (κ × α)) :
    total weight entries ≤ entries.length := by
  induction entries with
  | nil => exact Nat.le_refl 0
  | cons head rest ih =>
    have first := small head.2
    rw [total_cons, List.length_cons]
    omega

omit [DecidableEq κ] in
theorem total_eq_zero (light : ∀ entry ∈ entries, weight entry.2 = 0) :
    total weight entries = 0 := by
  induction entries with
  | nil => rfl
  | cons head rest ih =>
    rw [total_cons, light head mem_cons_self,
      ih fun entry member => light entry (mem_cons_of_mem head member)]

theorem total_insert_of_absent [LT κ] [DecidableLT κ] (weight : α → Nat)
    (absent : entries.lookup key = none) :
    total weight (insert key value entries) = total weight entries + weight value := by
  induction entries with
  | nil => rw [insert, total_cons, Nat.add_comm]
  | cons head rest ih =>
    rw [lookup_cons] at absent
    split at absent
    case isTrue => cases absent
    case isFalse other =>
      rw [insert]
      split
      · rw [total_cons, Nat.add_comm]
      · rw [total_cons, total_cons, ih absent, Nat.add_assoc]

theorem erase_of_absent (absent : entries.lookup key = none) : erase key entries = entries :=
  List.filter_eq_self.mpr fun entry member => decide_eq_true (lookup_eq_none.mp absent entry member)

theorem erase_modify : erase key (modify key update entries) = erase key entries := by
  have keys : (fun entry : κ × α => decide (entry.1 ≠ key)) ∘ (fun entry : κ × α =>
      if entry.1 = key then (entry.1, update entry.2) else entry) = fun entry => decide (entry.1 ≠ key) := by
    funext entry
    simp only [Function.comp]
    split <;> rfl
  rw [erase, modify, List.filter_map, keys]
  exact (List.map_congr_left fun entry member => if_neg (ne_of_mem_erase member)).trans
    (List.map_id _)

theorem erase_insert [LT κ] [DecidableLT κ] :
    erase key (insert key value entries) = erase key entries := by
  induction entries with
  | nil => simp [insert, erase]
  | cons head rest ih =>
    rw [insert]
    split
    · simp [erase]
    · split <;> simp_all [erase, List.filter_cons]

section Totals
variable [LE κ] [LT κ] [Std.LawfulOrderLT κ]

theorem Ascending.erase_head {rest : List (κ × α)} (ascending : Ascending (head :: rest)) :
    erase head.1 (head :: rest) = rest := by
  obtain ⟨first, -⟩ := pairwise_cons.mp ascending
  rw [erase, List.filter_cons_of_neg (by simp)]
  exact List.filter_eq_self.mpr fun entry member => decide_eq_true fun same =>
    Std.lt_irrefl (same ▸ first entry member)

theorem total_erase (ascending : Ascending entries) (weight : α → Nat)
    (found : entries.lookup key = some value) :
    total weight (erase key entries) + weight value = total weight entries := by
  obtain ⟨before, after, rfl, -⟩ := List.lookup_eq_some_iff.mp found
  obtain ⟨-, later, earlier⟩ := List.pairwise_append.mp ascending
  have erased : erase key (before ++ (key, value) :: after) = before ++ after := by
    rw [erase, List.filter_append, List.filter_cons_of_neg (by simp), ← List.filter_append]
    refine List.filter_eq_self.mpr fun entry member => decide_eq_true fun same => ?_
    rcases List.mem_append.mp member with early | late
    · exact Std.lt_irrefl (same ▸ earlier entry early _ mem_cons_self)
    · exact Std.lt_irrefl (same ▸ (pairwise_cons.mp later).1 entry late)
  simp only [erased, total, List.map_append, map_cons, List.sum_append, List.sum_cons]
  omega

theorem total_modify (ascending : Ascending entries) (weight : α → Nat) (update : α → α)
    (found : entries.lookup key = some value) :
    total weight (modify key update entries) + weight value =
      total weight entries + weight (update value) := by
  have before := total_erase ascending weight found
  have after := total_erase (modify_ascending ascending) weight
    ((lookup_modify_of_found found update key).trans (if_pos rfl))
  rw [erase_modify] at after
  omega

/-- Replacing a value changes nothing else. -/
theorem total_insert_of_present [DecidableLT κ] [Std.IsLinearOrder κ]
    (ascending : Ascending entries) (weight : α → Nat) (fresh : α)
    (found : entries.lookup key = some value) :
    total weight (insert key fresh entries) + weight value =
      total weight entries + weight fresh := by
  have before := total_erase ascending weight found
  have there : (insert key fresh entries).lookup key = some fresh :=
    (lookup_insert key).trans (if_pos rfl)
  have after := total_erase (insert_ascending ascending) weight there
  rw [erase_insert] at after
  omega

end Totals

/-! ## Many keys -/

def insertAll [LT κ] [DecidableLT κ] (keys : List κ) (value : α) (entries : List (κ × α)) :
    List (κ × α) :=
  keys.foldl (fun entries key => insert key value entries) entries

def eraseAll (keys : List κ) (entries : List (κ × α)) : List (κ × α) :=
  keys.foldl (fun entries key => erase key entries) entries

section Many
variable {keys : List κ}

theorem mem_of_mem_eraseAll (member : entry ∈ eraseAll keys entries) : entry ∈ entries := by
  induction keys generalizing entries with
  | nil => exact member
  | cons key rest ih => exact mem_of_mem_erase (ih member)

theorem lookup_eraseAll :
    (eraseAll keys entries).lookup other = if other ∈ keys then none else entries.lookup other := by
  induction keys generalizing entries with
  | nil => rw [if_neg List.not_mem_nil]; rfl
  | cons key rest ih =>
    refine ih.trans ?_
    rw [lookup_erase]
    split <;> split <;> simp_all

variable [LT κ]

theorem eraseAll_ascending (ascending : Ascending entries) : Ascending (eraseAll keys entries) :=
  List.foldlRecOn keys _ ascending fun _ ascending key _ => erase_ascending ascending key

theorem length_eraseAll [LE κ] [Std.LawfulOrderLT κ] (ascending : Ascending entries)
    (distinct : keys.Nodup) :
    (eraseAll keys entries).length + (keys.filter fun key => (entries.lookup key).isSome).length =
      entries.length := by
  induction keys generalizing entries with
  | nil => rfl
  | cons key rest ih =>
    obtain ⟨fresh, distinct⟩ := List.nodup_cons.mp distinct
    have others : rest.filter (fun other => ((erase key entries).lookup other).isSome) =
        rest.filter fun other => (entries.lookup other).isSome :=
      List.filter_congr fun other member => by
        rw [lookup_erase, if_neg fun same : other = key => fresh (same ▸ member)]
    have rest := ih (erase_ascending ascending key) distinct
    rw [others] at rest
    rw [eraseAll] at rest ⊢
    rw [foldl_cons, List.filter_cons]
    cases found : entries.lookup key with
    | none =>
      rw [erase_of_absent found] at rest ⊢
      exact rest
    | some =>
      have removed := total_erase ascending (fun _ : α => 1) found
      rw [← length_eq_total, ← length_eq_total] at removed
      rw [Option.isSome_some, if_pos rfl, List.length_cons]
      omega

variable [DecidableLT κ]

theorem mem_insertAll (member : entry ∈ insertAll keys value entries) :
    (entry.1 ∈ keys ∧ entry.2 = value) ∨ entry ∈ entries := by
  induction keys generalizing entries with
  | nil => exact .inr member
  | cons key rest ih =>
    rcases ih member with ⟨inRest, same⟩ | earlier
    · exact .inl ⟨mem_cons_of_mem _ inRest, same⟩
    · rcases mem_insert earlier with rfl | old
      · exact .inl ⟨mem_cons_self, rfl⟩
      · exact .inr old

theorem lookup_insertAll :
    (insertAll keys value entries).lookup other = if other ∈ keys then some value
      else entries.lookup other := by
  induction keys generalizing entries with
  | nil => rw [if_neg List.not_mem_nil]; rfl
  | cons key rest ih =>
    refine ih.trans ?_
    rw [lookup_insert]
    split <;> split <;> simp_all

theorem length_insertAll_of_absent (distinct : keys.Nodup)
    (absent : ∀ key ∈ keys, entries.lookup key = none) :
    (insertAll keys value entries).length = entries.length + keys.length := by
  induction keys generalizing entries with
  | nil => rfl
  | cons key rest ih =>
    obtain ⟨fresh, distinct⟩ := List.nodup_cons.mp distinct
    have stillAbsent (other : κ) (member : other ∈ rest) : (insert key value entries).lookup other = none := by
      rw [lookup_insert, if_neg fun same : other = key => fresh (same ▸ member)]
      exact absent other (mem_cons_of_mem _ member)
    have added : (insert key value entries).length = entries.length + 1 := by
      rw [length_eq_total, length_eq_total, total_insert_of_absent _ (absent key mem_cons_self)]
    have rest := ih distinct stillAbsent
    rw [List.length_cons]
    rw [insertAll] at rest ⊢
    rw [foldl_cons]
    omega

variable [LE κ] [Std.IsLinearOrder κ] [Std.LawfulOrderLT κ]

theorem insertAll_ascending (ascending : Ascending entries) (keys : List κ) (value : α) :
    Ascending (insertAll keys value entries) :=
  List.foldlRecOn keys _ ascending fun _ ascending _ _ => insert_ascending ascending

theorem length_insertAll_of_present (ascending : Ascending entries) (value : α)
    (present : ∀ key ∈ keys, (entries.lookup key).isSome) :
    (insertAll keys value entries).length = entries.length := by
  induction keys generalizing entries with
  | nil => rfl
  | cons key rest ih =>
    have stillPresent (other : κ) (member : other ∈ rest) :
        ((insert key value entries).lookup other).isSome := by
      rw [lookup_insert]
      split
      · rfl
      · exact present other (mem_cons_of_mem _ member)
    obtain ⟨old, found⟩ := Option.isSome_iff_exists.mp (present key mem_cons_self)
    have kept : (insert key value entries).length = entries.length := by
      have replaced := total_insert_of_present ascending (fun _ : α => 1) value found
      rw [length_eq_total, length_eq_total]
      omega
    have rest := ih (insert_ascending ascending) stillPresent
    rw [insertAll] at rest ⊢
    rw [foldl_cons, rest, kept]

end Many

end OrderedMap

namespace OrderedSet

variable {κ : Type} [DecidableEq κ] [LT κ] [DecidableLT κ]

def insert (key : κ) : List κ → List κ
  | [] => [key]
  | first :: rest =>
    if key < first then key :: first :: rest
    else if key = first then first :: rest
    else first :: insert key rest

def insertAll (keys added : List κ) : List κ := added.foldl (fun keys key => insert key keys) keys

theorem mem_insert {keys : List κ} : other ∈ insert key keys ↔ other = key ∨ other ∈ keys := by
  induction keys with
  | nil => simp [insert]
  | cons first rest ih =>
    rw [insert]
    split
    · exact List.mem_cons
    · split
      case isTrue same => simp [same]
      case isFalse => simp [ih, or_left_comm]

@[simp] theorem mem_insertAll {keys : List κ} :
    other ∈ insertAll keys added ↔ other ∈ keys ∨ other ∈ added := by
  induction added generalizing keys with
  | nil => simp [insertAll]
  | cons key rest ih =>
    have step : insertAll keys (key :: rest) = insertAll (insert key keys) rest := rfl
    rw [step, ih, mem_insert, List.mem_cons, or_comm (a := other = key), or_assoc]

end OrderedSet
