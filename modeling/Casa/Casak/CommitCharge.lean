import Casa.Casak.Descriptors

/-! The commit charge of the CasaK memory manager. Committed private pages are
charged when they are committed and given back when they go; a mapped view is never
charged but given back all the same, which the counter survives only at zero. -/
namespace Casa.Casak
open Effect OrderedMap Result Option

def Vad.charge (vad : Vad) : Nat := if vad.mapping.isSome then 0 else vad.pages.length

def MemoryManager.committedPages (m : MemoryManager) : Nat := total Vad.charge m.vads

structure Accounted (m : MemoryManager) : Prop where
  counter : m.committedBytes = pageSize * m.committedPages
  limit : m.committedBytes ≤ m.maxCommit

/-- Three private pages under a limit of two, after a view of one page has come and gone. -/
theorem unmapSection_refunds_uncharged :
    let start := MemoryManager.new 0x2000 64 64
    let unmapped : List Operation :=
      [.createSection 0x1000 [], .reserve none 0x3000, .commit 0x10000 0x2000 .readwrite,
      .mapSection 1 none 0x1000 .readwrite false, .unmapSection 0x13000]
    ¬ Accounted (Operation.run start unmapped) ∧
    ¬ pageSize *
      (Operation.run start (unmapped ++ [.commit 0x12000 0x1000 .readwrite])).committedPages ≤
      start.maxCommit := by
  refine ⟨fun accounted => ?_, by decide +kernel⟩
  exact absurd accounted.counter (by decide +kernel)

/-! ## All charges fit into the user range -/

/-- Whole pages in ascending order take up their number of page sizes. -/
theorem length_pages_le {pages : List (Nat × Protection)} (ascending : Ascending pages)
    (inside : ∀ page ∈ pages, page.1 % pageSize = 0 ∧ low ≤ page.1 ∧ page.1 < high)
    (ordered : low ≤ high) (lowMod : low % pageSize = 0) (highMod : high % pageSize = 0) :
    pageSize * pages.length ≤ high - low := by
  simp only [pageSize] at *
  induction pages generalizing low with
  | nil => exact Nat.zero_le _
  | cons head rest ih =>
    obtain ⟨first, later⟩ := List.pairwise_cons.mp ascending
    obtain ⟨headMod, headLow, headHigh⟩ := inside head List.mem_cons_self
    have restInside (page : Nat × Protection) (member : page ∈ rest) :
        page.1 % 4096 = 0 ∧ head.1 + 4096 ≤ page.1 ∧ page.1 < high := by
      obtain ⟨pageMod, -, pageHigh⟩ := inside page (List.mem_cons_of_mem _ member)
      have after := first page member
      exact ⟨pageMod, by omega, pageHigh⟩
    have bound := ih later restInside (by omega) (by omega)
    rw [List.length_cons]
    omega

theorem VadKept.charge_le (kept : VadKept entry) : pageSize * entry.2.charge ≤ entry.2.size := by
  rw [Vad.charge]
  split
  · exact Nat.zero_le _
  · have ends : entry.2.end = entry.1 + entry.2.size := by rw [Vad.end, kept.keyed]
    have base := kept.base
    have size := kept.size
    have endMod : entry.2.end % pageSize = 0 := by
      simp only [pageSize] at *
      omega
    have bound := length_pages_le kept.ascending kept.pages (by omega) base endMod
    omega

/-- Descriptors that follow each other fit below the limit together. -/
theorem total_size_le (ordered : low ≤ userLimit) (entries : ∀ entry ∈ vads, VadKept entry)
    (above : ∀ entry ∈ vads, low ≤ entry.1)
    (follows : vads.Pairwise fun first second => first.2.end ≤ second.1) :
    total Vad.size vads ≤ userLimit - low := by
  induction vads generalizing low with
  | nil => exact Nat.zero_le _
  | cons head rest ih =>
    obtain ⟨first, later⟩ := List.pairwise_cons.mp follows
    have kept := entries head List.mem_cons_self
    have ends : head.2.end = head.1 + head.2.size := by rw [Vad.end, kept.keyed]
    have limit := kept.limit
    have headLow := above head List.mem_cons_self
    have bound :=
      ih limit (fun entry member => entries entry (List.mem_cons_of_mem _ member)) first later
    rw [total_cons]
    omega

theorem total_charge_le (entries : ∀ entry ∈ vads, VadKept entry) :
    pageSize * total Vad.charge vads ≤ total Vad.size vads := by
  induction vads with
  | nil => exact Nat.zero_le _
  | cons head rest ih =>
    have here := (entries head List.mem_cons_self).charge_le
    have there := ih fun entry member => entries entry (List.mem_cons_of_mem _ member)
    rw [total_cons, total_cons, Nat.mul_add]
    omega

/-- All private pages lie below the limit of the user range. -/
theorem Kept.committed_le (kept : Kept m) : pageSize * m.committedPages ≤ userLimit := by
  have follows : m.vads.Pairwise fun first second => first.2.end ≤ second.1 :=
    List.Pairwise.imp_of_mem
      (fun left right before => kept.apart _ left _ right before) kept.ascending
  have bound := total_size_le (Nat.zero_le _) kept.entries (fun _ _ => Nat.zero_le _) follows
  exact Nat.le_trans (total_charge_le kept.entries) (Nat.le_trans bound (Nat.sub_le _ _))

/-! ## What one operation does -/

section Charge
variable (kept : Kept m) (accounted : Accounted m)
include kept accounted

theorem reserve_accounted (done : m.reserve request size = .ok (base, next)) : Accounted next := by
  obtain ⟨aligned, nextBase, -, -, absent, -, -, rfl⟩ := reserve_eq_ok kept done
  refine ⟨?_, accounted.limit⟩
  rw [MemoryManager.committedPages, total_insert_of_absent Vad.charge absent]
  exact accounted.counter

theorem commit_accounted (done : m.commit base size protection = .ok ((), next)) :
    Accounted next := by
  obtain ⟨range, vad, target, unmapped, absent, within, -, rfl⟩ := commit_eq_ok kept done
  have charge : (vad.committed (rangePages range) protection).charge =
      vad.charge + (rangePages range).length := by
    simp only [Vad.charge, Vad.committed, unmapped]
    exact length_insertAll_of_absent rangePages_nodup absent
  have changed := total_modify kept.ascending Vad.charge
    (fun vad => vad.committed (rangePages range) protection) target.there
  have bound := kept.committed_le
  have size := target.length
  have limit := target.kept.limit
  have counter := accounted.counter
  constructor
  · change m.committedBytes + _ = pageSize * total Vad.charge _
    rw [MemoryManager.committedPages] at counter
    simp only [pageSize] at *
    omega
  · change m.committedBytes + _ ≤ m.maxCommit
    have ends : vad.end = vad.base + vad.size := rfl
    rw [saturatingAdd] at within
    dsimp only at limit
    rw [show userLimit = 0x7FFFFFFF0000 from rfl] at *
    omega

theorem decommit_accounted (done : m.decommit base size = .ok ((), next)) : Accounted next := by
  obtain ⟨range, vad, target, unmapped, -, rfl⟩ := decommit_eq_ok kept done
  have charge : (vad.decommitted (rangePages range)).charge +
      ((rangePages range).filter fun page => (vad.pages.lookup page).isSome).length = vad.charge := by
    simp only [Vad.charge, Vad.decommitted, unmapped]
    exact length_eraseAll target.kept.ascending rangePages_nodup
  have changed := total_modify kept.ascending Vad.charge
    (fun vad => vad.decommitted (rangePages range)) target.there
  constructor
  · change m.committedBytes - _ = pageSize * total Vad.charge _
    have counter := accounted.counter
    rw [MemoryManager.committedPages] at counter
    simp only [pageSize] at *
    omega
  · exact Nat.le_trans (Nat.sub_le _ _) accounted.limit

theorem protect_accounted (done : m.protect base size protection = .ok (count, next)) :
    Accounted next := by
  obtain ⟨range, vad, target, present, -, rfl⟩ := protect_eq_ok kept done
  have same := length_insertAll_of_present target.kept.ascending protection present
  have changed := total_modify kept.ascending Vad.charge
    (fun vad => vad.protected (rangePages range) protection) target.there
  have charge : (vad.protected (rangePages range) protection).charge = vad.charge := by
    simp [Vad.charge, Vad.protected, same]
  refine ⟨?_, accounted.limit⟩
  rw [charge] at changed
  exact accounted.counter.trans (congrArg (pageSize * ·) (Nat.add_right_cancel changed).symm)

theorem mapSection_accounted {id : Nat}
    (done : m.mapSection id request size protection cow = .ok (base, next)) : Accounted next := by
  obtain ⟨record, aligned, between, -, -, reserved, placed, -, rfl⟩ := mapSection_eq_ok kept done
  obtain ⟨_, _, _, _, _, _, keptBetween, _⟩ := reserve_eq_ok kept reserved
  have accountedBetween := reserve_accounted kept accounted reserved
  have changed := total_modify keptBetween.ascending Vad.charge
    (fun vad => vad.viewed (viewPages base aligned) protection ⟨id, 0, cow⟩) placed
  exact ⟨accountedBetween.counter.trans (congrArg (pageSize * ·) changed.symm),
    accountedBetween.limit⟩

/-- A private descriptor takes its charge along; a view takes what was never charged. -/
theorem release_accounted_iff (done : m.release base size = .ok (released, next))
    (found : m.vads.lookup base = some vad) :
    Accounted next ↔ (vad.mapping.isSome → m.committedBytes = 0) := by
  obtain ⟨other, there, -, rfl⟩ := release_eq_ok done
  obtain rfl : vad = other := some.inj (found.symm.trans there)
  have old := kept.entries _ (mem_of_lookup found)
  have removed := total_erase kept.ascending Vad.charge found
  have before := accounted.counter
  have within := accounted.limit
  have account : Accounted { m.forget (vad.pages.map Prod.fst) with
      vads := OrderedMap.erase base m.vads
      committedBytes := m.committedBytes - vad.pages.length * pageSize
      mappedBytes := m.mappedBytes - if vad.mapping.isSome then vad.size else 0 } ↔
      m.committedBytes - vad.pages.length * pageSize = pageSize * total Vad.charge (OrderedMap.erase base m.vads) ∧
        m.committedBytes - vad.pages.length * pageSize ≤ m.maxCommit := ⟨fun after => ⟨after.counter, after.limit⟩,
    fun both => ⟨both.1, both.2⟩⟩
  rw [account]
  rw [MemoryManager.committedPages] at before
  by_cases view : vad.mapping.isSome
  · have pages : 0 < vad.pages.length := List.length_pos_iff.mpr (old.mapped view)
    simp only [Vad.charge, if_pos view] at removed
    constructor
    · rintro ⟨now, -⟩ _
      simp only [pageSize] at *
      omega
    · intro zero
      have zero := zero view
      refine ⟨?_, by omega⟩
      simp only [pageSize] at *
      omega
  · simp only [Vad.charge, if_neg view] at removed
    refine ⟨fun _ mapped => absurd mapped view, fun _ => ⟨?_, by omega⟩⟩
    simp only [pageSize] at *
    omega

end Charge

theorem Accounted.of_layout (accounted : Accounted m) (same : layout next = layout m) :
    Accounted next := by
  simp only [layout, Prod.mk.injEq] at same
  obtain ⟨counter, limit, -, vads⟩ := same
  have charges (list : List (Nat × Vad)) :
      total Vad.charge list = total Vad.charge (list.map strip) := by
    rw [total, total, List.map_map]
    rfl
  refine ⟨?_, by rw [counter, limit]; exact accounted.limit⟩
  rw [counter, MemoryManager.committedPages, charges, vads, ← charges]
  exact accounted.counter

/-! ## Whole runs -/

namespace Operation

/-- A view leaves only while nothing is charged. -/
def Safe (m : MemoryManager) : Operation → Prop
  | .release base size => ∀ vad, m.vads.lookup base = some vad → vad.mapping.isSome = true →
      (size = 0 ∨ size = vad.size) → m.committedBytes = 0
  | .unmapSection base =>
    ∀ vad, m.vads.lookup base = some vad → vad.mapping.isSome = true → m.committedBytes = 0
  | _ => True

def SafeRun (m : MemoryManager) : List Operation → Prop
  | [] => True
  | operation :: rest => operation.Safe m ∧ SafeRun (operation.apply m) rest

section Step
variable {m : MemoryManager}

theorem release_accepted (found : m.vads.lookup base = some vad)
    (accepted : size = 0 ∨ size = vad.size) :
    ∃ next, m.release base size = .ok (vad.size, next) := by
  have notRefused : ¬ (size ≠ 0 ∧ size ≠ vad.size) := by omega
  simp only [MemoryManager.release, found, require, refuse, if_neg notRefused, ok_bind,
    pure_eq, ok.injEq, Prod.mk.injEq, true_and]
  exact ⟨_, rfl⟩

variable (kept : Kept m) (accounted : Accounted m)
include kept accounted

/-- A refused release changes nothing; one of a private descriptor takes its charge along. -/
theorem release_apply : Accounted (apply m (.release base size)) ↔ Safe m (.release base size) := by
  rw [apply]
  have refused (notDone : ∀ value next, m.release base size ≠ .ok (value, next)) :
      Safe m (.release base size) := by
    intro vad found _ accepted
    obtain ⟨next, done⟩ := release_accepted found accepted
    exact absurd done (notDone _ next)
  cases done : m.release base size with
  | ok =>
    obtain ⟨vad, found, accepted, -⟩ := release_eq_ok done
    refine (release_accounted_iff kept accounted done found).trans ⟨fun safe => ?_, ?_⟩
    · intro other there mapped _
      obtain rfl : vad = other := some.inj (found.symm.trans there)
      exact safe mapped
    · intro safe mapped
      exact safe vad found mapped accepted
  | error | panic =>
    refine iff_of_true accounted (refused fun value next returned => ?_)
    cases done.symm.trans returned

theorem unmapSection_apply :
    Accounted (apply m (.unmapSection base)) ↔ Safe m (.unmapSection base) := by
  cases found : m.vads.lookup base with
  | none =>
    have refused : apply m (.unmapSection base) = m := by
      simp [apply, MemoryManager.unmapSection, found, require, settle]
    rw [refused]
    refine iff_of_true accounted fun vad there => ?_
    cases found.symm.trans there
  | some vad =>
    by_cases view : vad.mapping.isSome
    · have asRelease : apply m (.unmapSection base) = apply m (.release base 0) := by
        have mapped : ¬ vad.mapping.isNone := by
          rw [isNone_iff_eq_none]
          exact isSome_iff_ne_none.mp view
        simp only [apply, MemoryManager.unmapSection, found, require, refuse, if_neg mapped, ok_bind]
      rw [asRelease]
      refine (release_apply kept accounted).trans ⟨?_, ?_⟩
      · intro safe other there mapped
        exact safe other there mapped (.inl rfl)
      · intro safe other there mapped _
        exact safe other there mapped
    · have refused : apply m (.unmapSection base) = m := by
        have unmapped : vad.mapping.isNone := by
          rw [isNone_iff_eq_none]
          exact not_isSome_iff_eq_none.mp view
        simp only [apply, MemoryManager.unmapSection, found, require, refuse, if_pos unmapped,
          ok_bind, error_bind, settle]
      rw [refused]
      refine iff_of_true accounted fun other there mapped => ?_
      obtain rfl : vad = other := some.inj (found.symm.trans there)
      exact absurd mapped view

theorem step (operation : Operation) : Accounted (operation.apply m) ↔ operation.Safe m := by
  cases operation
  case release => exact release_apply kept accounted
  case unmapSection => exact unmapSection_apply kept accounted
  -- the others keep the account outright
  all_goals refine iff_of_true ?_ trivial
  case read => exact accounted.of_layout (layout_run MemoryManager.read_layout)
  case write => exact accounted.of_layout (layout_run MemoryManager.write_layout)
  all_goals refine settle_carries accounted fun _ _ done => ?_
  case reserve => exact reserve_accounted kept accounted done
  case commit => exact commit_accounted kept accounted done
  case decommit => exact decommit_accounted kept accounted done
  case protect => exact protect_accounted kept accounted done
  case createSection =>
    obtain ⟨-, rfl⟩ := createSection_eq_ok done
    exact accounted.of_layout rfl
  case deleteSection =>
    obtain ⟨-, rfl⟩ := deleteSection_eq_ok done
    exact accounted.of_layout rfl
  case mapSection => exact mapSection_accounted kept accounted done

theorem run_accounted_iff :
    (∀ taken, taken <+: operations → Accounted (run m taken)) ↔ SafeRun m operations := by
  induction operations generalizing m with
  | nil =>
    refine iff_of_true (fun taken none => ?_) trivial
    rw [List.prefix_nil.mp none]
    exact accounted
  | cons operation rest ih =>
    have keptNext := apply_kept kept operation
    have safe := step kept accounted operation
    constructor
    · intro every
      have accountedNext : Accounted (operation.apply m) := every [operation] ⟨rest, rfl⟩
      refine ⟨safe.mp accountedNext, (ih keptNext accountedNext).mp fun taken before => ?_⟩
      exact every (operation :: taken) (List.cons_prefix_cons.mpr ⟨rfl, before⟩)
    · rintro ⟨safeHere, safeRest⟩ taken within
      have accountedNext := safe.mpr safeHere
      cases taken with
      | nil => exact accounted
      | cons first taken =>
        obtain ⟨rfl, before⟩ := List.cons_prefix_cons.mp within
        exact (ih keptNext accountedNext).mpr safeRest taken before

end Step

/-- Along a run of a fresh manager the counter is the page size times the committed private
pages, within the limit, exactly while no view leaves under a charge. -/
theorem commit_charge_exact_iff (maxCommit maxSections maxWorkingSet : Nat)
    (operations : List Operation) :
    (∀ taken, taken <+: operations →
      Accounted (run (MemoryManager.new maxCommit maxSections maxWorkingSet) taken)) ↔
      SafeRun (MemoryManager.new maxCommit maxSections maxWorkingSet) operations := by
  exact run_accounted_iff new_kept ⟨rfl, Nat.zero_le _⟩

end Operation

end Casa.Casak
