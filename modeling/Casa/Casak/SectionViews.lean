import Casa.Casak.PageContents
import Mathlib.Data.List.TakeWhile

/-! Views of sections. Over any sequence of reads and writes, what a view shows is a function
of the writes that were carried out: shared views show the last write through any of them, a
copy-on-write view follows the section until its own first write to a page. -/
namespace Casa.Casak
open Effect OrderedMap MemoryManager

inductive Access where
  | read (address length : Nat)
  | write (address : Nat) (data : List U8)

/-- A write that was carried out, with the base of the descriptor it went through. -/
structure Written where
  base : Nat
  address : Nat
  data : List U8

namespace Access

def operation : Access → Operation
  | .read address length => .read address length
  | .write address data => .write address data

def apply (m : MemoryManager) (access : Access) : MemoryManager := access.operation.apply m

def log (m : MemoryManager) : Access → List Written
  | .read .. => []
  | .write address data =>
    if data = [] then []
    else
      match (MemoryManager.write address data).run m, m.findVad address with
      | .ok _ _, .ok vad => [⟨vad.base, address, data⟩]
      | _, _ => []

def run (m : MemoryManager) (accesses : List Access) : MemoryManager := accesses.foldl apply m

/-- The writes that a sequence of accesses carries out, in their order. -/
def written (m : MemoryManager) : List Access → List Written
  | [] => []
  | access :: rest => access.log m ++ written (access.apply m) rest

end Access

/-! ## What a view should show -/

def Written.byte (w : Written) (address : Nat) : Option U8 :=
  if w.address ≤ address then w.data[address - w.address]? else none

def lastByte (byte : Written → Option U8) (initial : U8) (log : List Written) : U8 :=
  log.foldl (fun current w => (byte w).getD current) initial

instance (start length page : Nat) : Decidable (Touches start length page) :=
  inferInstanceAs (Decidable (max start page < min (start + length) (page + pageSize)))

def Written.touches (base page : Nat) (w : Written) : Bool :=
  w.base == base && decide (Touches w.address w.data.length page)

def Written.shared (m : MemoryManager) (id : Nat) (w : Written) : Bool :=
  (m.vads.lookup w.base).any fun vad => vad.mapping.any fun mapping =>
    mapping.sectionId == id && !mapping.cow

/-- The byte of a section: the last that came through a shared view of it, else the one it had. -/
def sharedByte (m : MemoryManager) (id offset : Nat) (log : List Written) : U8 :=
  lastByte (fun w => if w.shared m id then w.byte (w.base + offset) else none)
    (sectionByte m.sections id offset) log

/-- The byte of a view at an address, after the writes of a log. A copy-on-write view shows its
own bytes of a page from its first write to it on, and before that the section. -/
def viewByte (m : MemoryManager) (vad : Vad) (mapping : Mapping) (log : List Written)
    (address : Nat) : U8 :=
  let own (w : Written) := if w.base = vad.base then w.byte address else none
  if mapping.cow then
    match vad.privatePages.lookup (pageOf address) with
    | some bytes => lastByte own (bytes.getD (address % pageSize) 0) log
    | none =>
      let before := log.takeWhile fun w => !w.touches vad.base (pageOf address)
      let after := log.dropWhile fun w => !w.touches vad.base (pageOf address)
      lastByte own (sharedByte m mapping.sectionId (address - vad.base) before) after
  else sharedByte m mapping.sectionId (address - vad.base) log

section Bytes
variable {vad : Vad} {mapping : Mapping} {w : Written}

theorem lastByte_append :
    lastByte byte initial (log ++ [w]) = (byte w).getD (lastByte byte initial log) := by
  rw [lastByte, List.foldl_append]
  rfl

theorem patch_eq_byte (bytes : Nat → U8) (w : Written) (address : Nat) :
    patch bytes w.address w.data address = (w.byte address).getD (bytes address) := by
  rw [patch, Written.byte]
  by_cases after : w.address ≤ address
  · rw [if_pos after]
    by_cases before : address < w.address + w.data.length
    · have inside : address - w.address < w.data.length := by omega
      rw [if_pos ⟨after, before⟩, List.getD_eq_getElem _ _ inside, List.getElem?_eq_getElem inside]
      rfl
    · rw [if_neg (by omega), List.getElem?_eq_none (by omega)]
      rfl
  · rw [if_neg after, if_neg fun both => after both.1]
    rfl

theorem base_of_touches (touched : w.touches base page) : w.base = base :=
  beq_iff_eq.mp (Bool.and_eq_true_iff.mp touched).1

/-- An address without a copy of its page shows the section. -/
theorem byteAt_section {sections : List (Nat × Section)} (start : mapping.offset = 0)
    (mapped : vad.mapping = some mapping) (none : vad.privatePages.lookup (pageOf address) = none) :
    byteAt sections vad address = sectionByte sections mapping.sectionId (address - vad.base) := by
  rw [byteAt, none, mapped]
  dsimp only
  rw [start, Nat.zero_add]

theorem byte_of_untouched (same : w.base = vad.base)
    (away : w.touches vad.base (pageOf address) = false) : w.byte address = none := by
  rw [Written.touches, same, beq_self_eq_true, Bool.true_and, decide_eq_false_iff_not] at away
  rw [Written.byte]
  split
  case isTrue after =>
    refine List.getElem?_eq_none ?_
    simp only [Touches, pageOf, pageSize] at away
    omega
  case isFalse => rfl

theorem sharedByte_append (id : Nat) : sharedByte m id offset (log ++ [w]) =
    (if w.shared m id then w.byte (w.base + offset) else none).getD (sharedByte m id offset log) :=
  lastByte_append

theorem exists_touch_append : (∃ earlier ∈ log ++ [w], earlier.touches base page) ↔
    (∃ earlier ∈ log, earlier.touches base page) ∨ w.touches base page := by
  simp only [List.mem_append, List.mem_singleton, or_and_right, exists_or, exists_eq_left]

theorem viewByte_of_shared (direct : mapping.cow = false) :
    viewByte m vad mapping log address = sharedByte m mapping.sectionId (address - vad.base) log :=
  if_neg (by rw [direct]; exact Bool.false_ne_true)

/-- Until its first write to a page, a copy-on-write view shows the section. -/
theorem viewByte_untouched (cow : mapping.cow)
    (fresh : vad.privatePages.lookup (pageOf address) = none)
    (untouched : ∀ w ∈ log, w.touches vad.base (pageOf address) = false) :
    viewByte m vad mapping log address =
      sharedByte m mapping.sectionId (address - vad.base) log := by
  have every (w : Written) (member : w ∈ log) : (!w.touches vad.base (pageOf address)) := by
    rw [untouched w member]
    rfl
  rw [viewByte, if_pos cow, fresh]
  rw [List.takeWhile_eq_self_iff.mpr every, List.dropWhile_eq_nil_iff.mpr every]
  rfl

theorem viewByte_touch (cow : mapping.cow) (fresh : vad.privatePages.lookup (pageOf address) = none)
    (untouched : ∀ w ∈ log, w.touches vad.base (pageOf address) = false)
    (first : w.touches vad.base (pageOf address)) :
    viewByte m vad mapping (log ++ [w]) address =
      (w.byte address).getD (sharedByte m mapping.sectionId (address - vad.base) log) := by
  have every (w : Written) (member : w ∈ log) : (!w.touches vad.base (pageOf address)) := by
    rw [untouched w member]
    rfl
  have stops : ¬ (!w.touches vad.base (pageOf address)) := by
    rw [first]
    exact Bool.false_ne_true
  have same := base_of_touches first
  rw [viewByte, if_pos cow, fresh]
  rw [List.takeWhile_append_of_pos every, List.dropWhile_append_of_pos every, List.takeWhile_cons,
    List.dropWhile_cons, if_neg stops, if_neg stops]
  simp [lastByte, if_pos same]

/-- From then on only its own writes count. -/
theorem viewByte_touched (cow : mapping.cow)
    (present : (vad.privatePages.lookup (pageOf address)).isSome ∨
      ∃ w ∈ log, w.touches vad.base (pageOf address)) :
    viewByte m vad mapping (log ++ [w]) address =
      (if w.base = vad.base then w.byte address else none).getD (viewByte m vad mapping log address) := by
  rw [viewByte, viewByte, if_pos cow, if_pos cow]
  cases copy : vad.privatePages.lookup (pageOf address) with
  | some => exact lastByte_append
  | none =>
    obtain ⟨earlier, member, touched⟩ :=
      present.resolve_left (by rw [copy]; exact Bool.false_ne_true)
    have rest : log.dropWhile (fun w => !w.touches vad.base (pageOf address)) ≠ [] := by
      intro none
      have untouched := List.dropWhile_eq_nil_iff.mp none earlier member
      rw [touched] at untouched
      cases untouched
    have shorter : (log.takeWhile fun w => !w.touches vad.base (pageOf address)).length ≠ log.length := by
      intro whole
      have parts := congrArg List.length
        (@List.takeWhile_append_dropWhile _ (fun w : Written => !w.touches vad.base (pageOf address)) log)
      rw [List.length_append] at parts
      exact rest (List.length_eq_zero_iff.mp (by omega))
    rw [List.takeWhile_append, if_neg shorter, List.dropWhile_append,
      if_neg (rest ∘ List.isEmpty_iff.mp), lastByte_append]

/-- A write that does not reach the section is seen by the view it went through and by no other. -/
theorem viewByte_append (cow : mapping.cow) (apart : w.shared m mapping.sectionId = false) :
    viewByte m vad mapping (log ++ [w]) address =
      (if w.base = vad.base then w.byte address else none).getD (viewByte m vad mapping log address) := by
  by_cases present : (vad.privatePages.lookup (pageOf address)).isSome ∨
      ∃ w ∈ log, w.touches vad.base (pageOf address)
  · exact viewByte_touched cow present
  · rw [not_or, not_exists] at present
    have fresh := Option.not_isSome_iff_eq_none.mp present.1
    have untouched (earlier : Written) (member : earlier ∈ log) : earlier.touches vad.base (pageOf address) = false :=
      Bool.eq_false_iff.mpr fun touched => present.2 earlier ⟨member, touched⟩
    rw [viewByte_untouched cow fresh untouched]
    cases touches : w.touches vad.base (pageOf address) with
    | true => rw [viewByte_touch cow fresh untouched touches, if_pos (base_of_touches touches)]
    | false =>
      have none : (if w.base = vad.base then w.byte address else none) = none := by
        split
        case isTrue same => exact byte_of_untouched same touches
        case isFalse => rfl
      have still (other : Written) (member : other ∈ log ++ [w]) : other.touches vad.base (pageOf address) = false := by
        rcases List.mem_append.mp member with earlier | last
        · exact untouched other earlier
        · rw [List.mem_singleton.mp last]
          exact touches
      rw [viewByte_untouched cow fresh still, sharedByte_append, if_neg (by rw [apart]; exact Bool.false_ne_true), none]

end Bytes

/-! ## The manager shows what its log says -/

structure Agrees (first : MemoryManager) (log : List Written) (m : MemoryManager) : Prop where
  descriptors : layout m = layout first
  sections : ∀ id offset, sectionByte m.sections id offset = sharedByte first id offset log
  copies : ∀ vad now mapping, first.vads.lookup vad.base = some vad →
    m.vads.lookup vad.base = some now →
    vad.mapping = some mapping → mapping.cow = true → ∀ page, page % pageSize = 0 →
      ((now.privatePages.lookup page).isSome = true ↔
        (vad.privatePages.lookup page).isSome = true ∨ ∃ w ∈ log, w.touches vad.base page = true)
  bytes : ∀ vad now mapping, first.vads.lookup vad.base = some vad →
    m.vads.lookup vad.base = some now → vad.mapping = some mapping → ∀ address, vad.base ≤ address →
      byteAt m.sections now address = viewByte first vad mapping log address

def Vad.bare (vad : Vad) : Vad := { vad with privatePages := [] }

theorem fields_of_bare {now vad : Vad} (same : now.bare = vad.bare) :
    now.base = vad.base ∧ now.end = vad.end ∧ now.pages = vad.pages ∧
      now.mapping = vad.mapping := by
  obtain ⟨base, size, protection, pages, bytes, mapping⟩ := now
  obtain ⟨base', size', protection', pages', bytes', mapping'⟩ := vad
  simp only [Vad.bare, Vad.mk.injEq, true_and] at same
  obtain ⟨rfl, rfl, rfl, rfl, rfl⟩ := same
  exact ⟨rfl, rfl, rfl, rfl⟩

theorem lookup_strip (vads : List (Nat × Vad)) (base : Nat) :
    (vads.map strip).lookup base = (vads.lookup base).map Vad.bare := lookup_map Vad.bare vads base

theorem lookup_of_layout (same : layout m = layout first)
    (there : first.vads.lookup base = some vad) :
    ∃ now, m.vads.lookup base = some now ∧ now.bare = vad.bare := by
  simp only [layout, Prod.mk.injEq] at same
  have lookups := lookup_strip m.vads base
  rw [same.2.2.2, lookup_strip, there] at lookups
  exact Option.map_eq_some_iff.mp lookups.symm

theorem findVad_of_layout (same : layout m = layout first) (found : first.findVad address = .ok vad) :
    ∃ now, m.findVad address = .ok now ∧ now.bare = vad.bare := by
  simp only [layout, Prod.mk.injEq] at same
  have filtered (vads : List (Nat × Vad)) :
      ((vads.map strip).filter fun entry => entry.1 ≤ address).getLast? =
      ((vads.filter fun entry => entry.1 ≤ address).getLast?).map strip := by
    rw [List.filter_map, List.getLast?_map]
    rfl
  have lasts := filtered m.vads
  rw [same.2.2.2, filtered] at lasts
  simp only [findVad, Result.bind_eq_ok, Result.require_eq_ok, Result.refuse_eq_ok, Result.pure_eq,
    Result.ok.injEq] at found ⊢
  obtain ⟨entry, last, -, alive, rfl⟩ := found
  rw [last] at lasts
  obtain ⟨now, lastNow, stripped⟩ := Option.map_eq_some_iff.mp lasts.symm
  have bare : now.2.bare = entry.2.bare := congrArg Prod.snd stripped
  have ends := (fields_of_bare bare).2.1
  exact ⟨now.2, ⟨now, lastNow, (), ends ▸ alive, rfl⟩, bare⟩

theorem checkAccess_of_layout (same : layout m = layout first) {write : Bool}
    (checked : first.checkAccess start stop write = .ok ()) :
    m.checkAccess start stop write = .ok () := by
  simp only [checkAccess, Result.bind_eq_ok, Result.refuse_eq_ok] at checked ⊢
  obtain ⟨vad, found, -, inside, allowed⟩ := checked
  obtain ⟨now, foundNow, bare⟩ := findVad_of_layout same found
  obtain ⟨-, ends, pages, -⟩ := fields_of_bare bare
  exact ⟨now, foundNow, (), ends ▸ inside, pages ▸ allowed⟩

section Steps

/-- Whether a write reached a section is decided by the view it went through. -/
theorem shared_eq_false (same : layout m = layout first) (there : m.vads.lookup now.base = some now)
    {id : Nat}
    (apart : ∀ mapping, now.mapping = some mapping → mapping.sectionId = id → mapping.cow) :
    Written.shared first id ⟨now.base, address, data⟩ = false := by
  obtain ⟨vad, found, bare⟩ := lookup_of_layout same.symm there
  rw [Written.shared, found, Option.any_some, (fields_of_bare bare).2.2.2]
  cases mapped : now.mapping with
  | none => rfl
  | some mapping =>
    rw [Option.any_some]
    by_cases here : mapping.sectionId = id
    · rw [apart mapping mapped here, Bool.not_true, Bool.and_false]
    · rw [beq_eq_false_iff_ne.mpr here, Bool.false_and]

variable (agrees : Agrees first log m)
include agrees

theorem Agrees.bare (found : first.vads.lookup base = some vad)
    (foundNow : m.vads.lookup base = some now) : now.bare = vad.bare := by
  obtain ⟨again, foundAgain, bare⟩ := lookup_of_layout agrees.descriptors found
  obtain rfl := Option.some.inj (foundNow.symm.trans foundAgain)
  exact bare

theorem Agrees.own (there : m.vads.lookup now.base = some now)
    (own : ∀ mapping, now.mapping = some mapping → mapping.cow)
    (wrote : WroteOwn m now address data next) (stays : layout next = layout m) :
    Agrees first (log ++ [⟨now.base, address, data⟩]) next := by
  have apart (id : Nat) : Written.shared first id ⟨now.base, address, data⟩ = false :=
    shared_eq_false agrees.descriptors there fun mapping mapped _ => own mapping mapped
  obtain ⟨vads, pages, resident, order, rfl, queued, lookups, patched⟩ := wrote
  refine ⟨stays.trans agrees.descriptors, fun id offset => ?_,
    fun vad after mapping found foundNow mapped cow page aligned => ?_,
    fun vad after mapping found foundNow mapped address' inside => ?_⟩
  · rw [sharedByte_append, apart]
    exact agrees.sections id offset
  · rw [lookups] at foundNow
    split at foundNow
    case isTrue same =>
      obtain rfl := Option.some.inj foundNow
      have touched : Written.touches vad.base page ⟨now.base, address, data⟩ ↔ Touches address data.length page := by
        rw [Written.touches, same, beq_self_eq_true, Bool.true_and, decide_eq_true_iff]
      rw [patched.present page aligned, agrees.copies vad now mapping found (same ▸ there) mapped cow page aligned,
        exists_touch_append, touched, or_assoc]
    case isFalse different =>
      have elsewhere : ¬ Written.touches vad.base page ⟨now.base, address, data⟩ := fun touched =>
        different (base_of_touches touched).symm
      rw [exists_touch_append, or_iff_left elsewhere]
      exact agrees.copies vad after mapping found foundNow mapped cow page aligned
  · rw [lookups] at foundNow
    split at foundNow
    case isTrue same =>
      obtain rfl := Option.some.inj foundNow
      have thereAt : m.vads.lookup vad.base = some now := same ▸ there
      have cow : mapping.cow :=
        own mapping ((fields_of_bare (agrees.bare found thereAt)).2.2.2.trans mapped)
      rw [patched.bytes, viewByte_append cow (apart _), if_pos same.symm,
        ← agrees.bytes vad now mapping found thereAt mapped address' inside]
      exact patch_eq_byte _ ⟨now.base, address, data⟩ address'
    case isFalse different =>
      have before := agrees.bytes vad after mapping found foundNow mapped address' inside
      rw [before]
      cases cow : mapping.cow with
      | true =>
        rw [viewByte_append cow (apart _), if_neg fun same => different same.symm]
        rfl
      | false =>
        rw [viewByte_of_shared cow, viewByte_of_shared cow, sharedByte_append, apart]
        rfl

theorem Agrees.shared (backed : Backed m) (there : m.vads.lookup now.base = some now)
    (mapped : now.mapping = some mapping) (direct : mapping.cow = false)
    (stored : m.sections.lookup mapping.sectionId = some record) (below : now.base ≤ address)
    (wrote : WroteShared m now mapping.sectionId record address data next) :
    Agrees first (log ++ [⟨now.base, address, data⟩]) next := by
  have elsewhere {vad : Vad} {other : Mapping} (found : first.vads.lookup vad.base = some vad)
      (itsMapping : vad.mapping = some other) (cow : other.cow) : now.base ≠ vad.base := by
    intro same
    have bare := agrees.bare found (same ▸ there)
    obtain rfl := Option.some.inj (mapped.symm.trans ((fields_of_bare bare).2.2.2.trans itsMapping))
    rw [direct] at cow
    cases cow
  obtain ⟨sections, backing, resident, order, rfl, queued, lookups, length, patched⟩ := wrote
  have sectionBytes (id offset : Nat) : sectionByte sections id offset =
      sharedByte first id offset (log ++ [⟨now.base, address, data⟩]) := by
    rw [sharedByte_append, ← agrees.sections, sectionByte, lookups]
    by_cases here : id = mapping.sectionId
    · have reaches : Written.shared first id ⟨now.base, address, data⟩ := by
        obtain ⟨vad, found, bare⟩ := lookup_of_layout agrees.descriptors.symm there
        rw [Written.shared, found, Option.any_some, (fields_of_bare bare).2.2.2, mapped,
          Option.any_some, here, beq_self_eq_true, direct]
        rfl
      have shifted : patch (record.backing.getD · 0) (address - now.base) data offset =
          (Written.byte ⟨now.base, address, data⟩ (now.base + offset)).getD (record.backing.getD offset 0) := by
        have last := patch_eq_byte (fun place => record.backing.getD (place - now.base) 0) ⟨now.base, address, data⟩
          (now.base + offset)
        dsimp only at last
        rw [Nat.add_sub_cancel_left] at last
        rw [← last, patch, patch]
        have index : now.base + offset - address = offset - (address - now.base) := by omega
        by_cases inside : address - now.base ≤ offset ∧ offset < address - now.base + data.length
        · rw [if_pos inside, if_pos (by omega), index]
        · rw [if_neg inside, if_neg (by omega), Nat.add_sub_cancel_left]
      rw [if_pos here, if_pos reaches, here, sectionByte, stored]
      rw [← shifted]
      exact congrFun patched offset
    · have apart : Written.shared first id ⟨now.base, address, data⟩ = false := by
        refine shared_eq_false agrees.descriptors there fun other its same => ?_
        obtain rfl := Option.some.inj (mapped.symm.trans its)
        exact absurd same.symm here
      rw [if_neg here, apart]
      rfl
  refine ⟨agrees.descriptors, sectionBytes,
    fun vad after other found foundNow itsMapping cow page aligned => ?_,
    fun vad after other found foundNow itsMapping address' inside => ?_⟩
  · have away : ¬ Written.touches vad.base page ⟨now.base, address, data⟩ := fun touched =>
      elsewhere found itsMapping cow (base_of_touches touched)
    rw [agrees.copies vad after other found foundNow itsMapping cow page aligned,
      exists_touch_append, or_iff_left away]
  · obtain ⟨base, -, -, sameMapping⟩ := fields_of_bare (agrees.bare found foundNow)
    have afterMapping := sameMapping.trans itsMapping
    have afterBacked := backed.vads _ _ foundNow
    have throughSection (none : after.privatePages.lookup (pageOf address') = none) :
        byteAt sections after address' = sharedByte first other.sectionId (address' - vad.base)
          (log ++ [⟨now.base, address, data⟩]) := by
      rw [byteAt_section (afterBacked.start other afterMapping) afterMapping none, base]
      exact sectionBytes _ _
    cases cow : other.cow with
    | false =>
      rw [viewByte_of_shared cow]
      exact throughSection (afterBacked.shared other afterMapping cow _)
    | true =>
      have aligned : pageOf address' % pageSize = 0 := Nat.mul_mod_left _ _
      have copied := agrees.copies vad after other found foundNow itsMapping cow _ aligned
      have away := elsewhere found itsMapping cow
      by_cases present : (after.privatePages.lookup (pageOf address')).isSome
      · obtain ⟨bytes, own⟩ := Option.isSome_iff_exists.mp present
        have before := agrees.bytes vad after other found foundNow itsMapping address' inside
        rw [viewByte_touched cow (copied.mp present), if_neg away, ← before, byteAt, byteAt, own]
        rfl
      · have absent := not_or.mp (copied.not.mp present)
        rw [throughSection (Option.not_isSome_iff_eq_none.mp present)]
        refine (viewByte_untouched cow (Option.not_isSome_iff_eq_none.mp absent.1) fun w member => ?_).symm
        rcases List.mem_append.mp member with earlier | last
        · exact Bool.eq_false_iff.mpr fun touched => absent.2 ⟨w, earlier, touched⟩
        · rw [List.mem_singleton.mp last, Written.touches, beq_eq_false_iff_ne.mpr away, Bool.false_and]

theorem Agrees.of_contents (vads : next.vads = m.vads) (sections : next.sections = m.sections)
    (stays : layout next = layout m) : Agrees first log next where
  descriptors := stays.trans agrees.descriptors
  sections := by rw [sections]; exact agrees.sections
  copies := by rw [vads]; exact agrees.copies
  bytes := by rw [vads, sections]; exact agrees.bytes

/-- One access: it is refused and changes nothing, or the log grows by what it writes. -/
theorem Agrees.access (kept : Kept m) (backed : Backed m) (access : Access) :
    Agrees first (log ++ access.log m) (access.apply m) := by
  have unchanged : Agrees first (log ++ []) m := by
    rw [List.append_nil]
    exact agrees
  cases access with
  | read address length =>
    rw [Access.log, List.append_nil]
    have stays : layout (Access.apply m (.read address length)) = layout m :=
      layout_run read_layout
    rw [Access.apply, Access.operation, Operation.apply] at stays ⊢
    rcases Nat.eq_zero_or_pos length with rfl | asked
    · exact agrees
    · by_cases checked : m.checkAccess address (address + length) false = .ok ()
      · obtain ⟨vad, found, -⟩ := checkAccess_eq_ok kept checked
        obtain ⟨resident, order, ran, -⟩ := read_eq kept backed asked checked found
        rw [ran] at stays ⊢
        exact agrees.of_contents rfl rfl stays
      · obtain ⟨reason, ran⟩ := read_refused asked checked
        rw [ran]
        exact agrees
  | write address data =>
    have stays : layout (Access.apply m (.write address data)) = layout m :=
      layout_run write_layout
    rw [Access.apply, Access.operation, Operation.apply] at stays ⊢
    rw [Access.log]
    by_cases some : data = []
    · rw [some]
      exact unchanged
    · rw [if_neg some]
      by_cases checked : m.checkAccess address (address + data.length) true = .ok ()
      · obtain ⟨vad, found, -⟩ := checkAccess_eq_ok kept checked
        obtain ⟨next, ran, there, shared | own⟩ := write_cases kept backed some checked found
        · obtain ⟨mapping, record, mapped, direct, stored, wrote⟩ := shared
          have below : vad.base ≤ address := by
            obtain ⟨key, member, before, -⟩ := findVad_eq_ok found
            rwa [← (kept.lookup_base member).1] at before
          rw [ran, found]
          exact agrees.shared backed there mapped direct stored below wrote
        · rw [ran] at stays ⊢
          rw [found]
          exact agrees.own there own.1 own.2 stays
      · obtain ⟨reason, ran⟩ := write_refused some checked
        rw [ran]
        exact unchanged

omit agrees in
theorem Agrees.start (backed : Backed m) : Agrees m [] m where
  descriptors := rfl
  sections _ _ := rfl
  copies vad now mapping found foundNow mapped cow page aligned := by
    obtain rfl := Option.some.inj (found.symm.trans foundNow)
    simp only [List.not_mem_nil, false_and, exists_false, or_false]
  bytes vad now mapping found foundNow mapped address inside := by
    obtain rfl := Option.some.inj (found.symm.trans foundNow)
    have vadBacked := backed.vads _ _ found
    have throughSection :=
      @byteAt_section vad mapping address m.sections (vadBacked.start mapping mapped) mapped
    cases cow : mapping.cow with
    | false =>
      rw [viewByte_of_shared cow]
      exact throughSection (vadBacked.shared mapping mapped cow _)
    | true =>
      cases own : vad.privatePages.lookup (pageOf address) with
      | none =>
        exact (throughSection own).trans (viewByte_untouched cow own fun _ member => absurd member List.not_mem_nil).symm
      | some =>
        rw [byteAt, viewByte, if_pos cow, own]
        rfl

theorem Agrees.run (kept : Kept m) (backed : Backed m) (accesses : List Access) :
    Agrees first (log ++ Access.written m accesses) (Access.run m accesses) ∧
      Kept (Access.run m accesses) ∧ Backed (Access.run m accesses) := by
  induction accesses generalizing m log with
  | nil =>
    rw [Access.written, List.append_nil]
    exact ⟨agrees, kept, backed⟩
  | cons access rest ih =>
    rw [Access.written, ← List.append_assoc]
    exact ih (agrees.access kept backed access) (Operation.apply_kept kept access.operation)
      (Operation.apply_backed backed kept access.operation)

end Steps

/-- What the accesses of a manager's views do after any sequence of accesses. -/
structure ViewsExact (first : MemoryManager) (accesses : List Access) : Prop where
  read : ∀ address length vad mapping, 0 < length →
    first.checkAccess address (address + length) false = .ok () →
    first.findVad address = .ok vad → vad.mapping = some mapping →
    ∃ next, (MemoryManager.read address length).run (Access.run first accesses) =
      .ok ((List.range' address length).map (viewByte first vad mapping (Access.written first accesses))) next
  write : ∀ address data vad, data ≠ [] →
    first.checkAccess address (address + data.length) true = .ok () →
    first.findVad address = .ok vad →
    ∃ next, (MemoryManager.write address data).run (Access.run first accesses) = .ok () next ∧
      ∀ mapping, vad.mapping = some mapping → mapping.cow = true →
        next.sections = (Access.run first accesses).sections ∧
        ∀ other, other ≠ vad.base → next.vads.lookup other = (Access.run first accesses).vads.lookup other
  refusedRead : ∀ address length, 0 < length →
    first.checkAccess address (address + length) false ≠ .ok () →
    ∃ reason, (MemoryManager.read address length).run (Access.run first accesses) =
      .error reason (Access.run first accesses)
  refusedWrite : ∀ address data, data ≠ [] →
    first.checkAccess address (address + data.length) true ≠ .ok () →
    ∃ reason, (MemoryManager.write address data).run (Access.run first accesses) =
      .error reason (Access.run first accesses)

/-- Whatever sections and views a run of the manager has made, and after any reads and writes. -/
theorem section_views_exact (maxCommit maxSections maxWorkingSet : Nat)
    (operations : List Operation) (accesses : List Access) :
    ViewsExact (Operation.run (.new maxCommit maxSections maxWorkingSet) operations) accesses := by
  obtain ⟨firstKept, firstBacked⟩ := Operation.run_backed Operation.new_kept
    Operation.new_backed
  generalize Operation.run (.new maxCommit maxSections maxWorkingSet) operations =
    first at firstKept firstBacked
  obtain ⟨agrees, kept, backed⟩ := (Agrees.start firstBacked).run firstKept firstBacked accesses
  have same := agrees.descriptors
  refine ⟨?_, ?_, ?_, ?_⟩
  · intro address length vad mapping asked checked found mapped
    obtain ⟨now, foundNow, bare⟩ := findVad_of_layout same found
    obtain ⟨base, -, -, -⟩ := fields_of_bare bare
    obtain ⟨key, member, below, -⟩ := findVad_eq_ok found
    obtain ⟨rfl, there⟩ := firstKept.lookup_base member
    obtain ⟨keyNow, memberNow, -⟩ := findVad_eq_ok foundNow
    obtain ⟨rfl, thereNow⟩ := kept.lookup_base memberNow
    obtain ⟨resident, order, ran, -⟩ :=
      read_eq kept backed asked (checkAccess_of_layout same checked) foundNow
    have bytes : (List.range' address length).map (byteAt (Access.run first accesses).sections now) =
        (List.range' address length).map (viewByte first vad mapping (Access.written first accesses)) := by
      refine List.map_congr_left fun place inside => ?_
      have after := (List.mem_range'_1.mp inside).1
      exact agrees.bytes vad now mapping there (base ▸ thereNow) mapped place (Nat.le_trans below after)
    rw [bytes] at ran
    exact ⟨_, ran⟩
  · intro address data vad some checked found
    obtain ⟨now, foundNow, bare⟩ := findVad_of_layout same found
    obtain ⟨base, -, -, mapping⟩ := fields_of_bare bare
    have checkedNow := checkAccess_of_layout same checked
    obtain ⟨next, ran, -, shared | own⟩ := write_cases kept backed some checkedNow foundNow
    · obtain ⟨mapped, -, its, direct, -⟩ := shared
      refine ⟨next, ran, fun other otherIts cow => ?_⟩
      obtain rfl := Option.some.inj (its.symm.trans (mapping.trans otherIts))
      cases direct.symm.trans cow
    · obtain ⟨vads, pages, resident, order, rfl, -, lookups, -⟩ := own.2
      refine ⟨_, ran, fun _ _ _ => ⟨rfl, fun other different => ?_⟩⟩
      exact (lookups other).trans (if_neg (base ▸ different))
  · intro address length asked refused
    exact read_refused asked fun checked => refused (checkAccess_of_layout same.symm checked)
  · intro address data some refused
    exact write_refused some fun checked => refused (checkAccess_of_layout same.symm checked)

-- a shared and a copy-on-write view of one page: each is written to, and the copy stays apart
example :
    let first := Operation.run (.new 0x10000 4 4) [.createSection 0x1000 [1], .mapSection 1 none 0x1000 .readwrite false,
      .mapSection 1 none 0x1000 .readwrite true]
    let m := Access.run first [.write 0x11000 [2], .write 0x10001 [3]]
    first.checkAccess 0x11000 0x11002 false = .ok () ∧
      (m.vads.map fun entry => [byteAt m.sections entry.2 entry.1, byteAt m.sections entry.2 (entry.1 + 1)]) =
        [[1, 3], [2, 0]] := by
  refine ⟨rfl, ?_⟩
  decide +kernel

end Casa.Casak
