import Casa.Casak.Descriptors

/-! What is stored under the addresses of the CasaK memory manager. Every byte of a
committed page has one place, in a private page or in a section, and reads and writes of
whole ranges are reads and writes of the bytes under their addresses. -/
namespace Casa.Casak
open Effect OrderedMap Result Nat
open List (length_append range')
open Exec (read_bind_run)
open MemoryManager (overwrite readPages writePage writePages checkAccess evict new pageBytes touch)
open List (length_drop length_take)

def pageOf (address : Nat) : Nat := address / pageSize * pageSize

def sectionByte (sections : List (Nat × Section)) (id offset : Nat) : U8 :=
  match sections.lookup id with
  | some record => record.backing.getD offset 0
  | none => 0

/-- The byte of a descriptor at an address: in its own page, else in the section it maps. -/
def byteAt (sections : List (Nat × Section)) (vad : Vad) (address : Nat) : U8 :=
  match vad.privatePages.lookup (pageOf address) with
  | some bytes => bytes.getD (address % pageSize) 0
  | none =>
    match vad.mapping with
    | some mapping => sectionByte sections mapping.sectionId (mapping.offset + (address - vad.base))
    | none => 0

def patch (bytes : Nat → U8) (start : Nat) (data : List U8) (address : Nat) : U8 :=
  if start ≤ address ∧ address < start + data.length then data.getD (address - start) 0
    else bytes address

theorem patch_nil : patch bytes start [] = bytes := by
  funext address
  rw [patch, if_neg]
  rintro ⟨after, before⟩
  exact absurd before (not_lt.mpr after)

theorem patch_append :
    patch (patch bytes start data) (start + data.length) more =
      patch bytes start (data ++ more) := by
  funext address
  simp only [patch, length_append]
  by_cases later : start + data.length ≤ address
  · have shifted : address - start - data.length = address - (start + data.length) := by omega
    rw [List.getD_append_right _ _ _ _ (by omega), shifted]
    by_cases before : address < start + data.length + more.length
    · rw [if_pos ⟨later, before⟩, if_pos (by omega)]
    · rw [if_neg (by omega), if_neg (by omega), if_neg (by omega)]
  · rw [if_neg (by omega)]
    by_cases inside : start ≤ address
    · rw [if_pos (by omega), if_pos (by omega), List.getD_append _ _ _ _ (by omega)]
    · rw [if_neg (by omega), if_neg (by omega)]

theorem length_overwrite (fits : offset + data.length ≤ stored.length) :
    (overwrite stored offset data).length = stored.length := by
  simp only [overwrite, length_append, length_take, length_drop]
  omega

theorem getD_overwrite (fits : offset + data.length ≤ stored.length) :
    (overwrite stored offset data).getD index 0 = patch (stored.getD · 0) offset data index := by
  have lengthTake : (stored.take offset).length = offset := by
    rw [length_take]
    omega
  rw [overwrite, patch]
  by_cases before : index < offset
  · rw [List.append_assoc, List.getD_append _ _ _ _ (by omega), if_neg (by omega)]
    simp [List.getElem?_take, if_pos before]
  · by_cases inside : index < offset + data.length
    · rw [List.append_assoc, List.getD_append_right _ _ _ _ (by omega),
        List.getD_append _ _ _ _ (by omega), if_pos (by omega), lengthTake]
    · rw [List.getD_append_right _ _ _ _ (by rw [length_append]; omega), if_neg (by omega)]
      simp only [List.getD_eq_getElem?_getD, List.getElem?_drop, length_append]
      congr 2
      omega

/-! ## Where the bytes of a page are -/

structure VadBacked (sections : List (Nat × Section)) (vad : Vad) : Prop where
  whole : ∀ page bytes, vad.privatePages.lookup page = some bytes → bytes.length = pageSize
  owned : vad.mapping = none → ∀ page, (vad.pages.lookup page).isSome = true →
    (vad.privatePages.lookup page).isSome = true
  start : ∀ mapping, vad.mapping = some mapping → mapping.offset = 0
  covered : ∀ mapping, vad.mapping = some mapping →
    ∃ record, sections.lookup mapping.sectionId = some record ∧ vad.size ≤ record.backing.length
  shared : ∀ mapping, vad.mapping = some mapping → mapping.cow = false →
    ∀ page, vad.privatePages.lookup page = none

structure Backed (m : MemoryManager) : Prop where
  vads : ∀ base vad, m.vads.lookup base = some vad → VadBacked m.sections vad
  sections : ∀ id record, m.sections.lookup id = some record → id < m.nextSection ∧
    record.backing.length = record.size
  queued : ∀ page ∈ m.resident, page ∈ m.residentOrder

/-- A committed page of a descriptor. -/
structure PageIn (m : MemoryManager) (base : Nat) (vad : Vad) (page : Nat) : Prop where
  there : m.vads.lookup base = some vad
  keyed : vad.base = base
  aligned : page % pageSize = 0
  after : base ≤ page
  before : page + pageSize ≤ vad.end
  committed : (vad.pages.lookup page).isSome = true

theorem pageOf_add (aligned : page % pageSize = 0) (below : k < pageSize) :
    pageOf (page + k) = page ∧ (page + k) % pageSize = k := by
  simp only [pageOf, pageSize] at *
  omega

theorem pageBytes_eq (backed : VadBacked m.sections vad) (inVad : PageIn m base vad page) :
    ∃ bytes, m.pageBytes base page = .ok bytes ∧ bytes.length = pageSize ∧
      (∀ own, vad.privatePages.lookup page = some own → own = bytes) ∧
      ∀ k < pageSize, bytes.getD k 0 = byteAt m.sections vad (page + k) := by
  rw [pageBytes, inVad.there]
  dsimp only [require]
  rw [ok_bind]
  cases own : vad.privatePages.lookup page with
  | some bytes =>
    refine ⟨bytes, rfl, backed.whole page bytes own, fun other same => (Option.some.inj same).symm, fun k below => ?_⟩
    obtain ⟨here, offset⟩ := pageOf_add inVad.aligned below
    rw [byteAt, here, own, offset]
  | none =>
    cases mapped : vad.mapping with
    | none =>
      have present := backed.owned mapped page inVad.committed
      rw [own] at present
      cases present
    | some mapping =>
      obtain ⟨record, found, long⟩ := backed.covered mapping mapped
      have zero := backed.start mapping mapped
      have inside : mapping.offset + (page - vad.base) + pageSize ≤ record.backing.length := by
        have before := inVad.before
        have after := inVad.after
        have keyed := inVad.keyed
        rw [Vad.end] at before
        omega
      dsimp only [expect]
      rw [ok_bind, found]
      rw [ok_bind, if_pos inside]
      refine ⟨_, rfl, ?_, fun other same => (Option.some_ne_none _ same.symm).elim, fun k below => ?_⟩
      · rw [length_take, length_drop]
        omega
      · obtain ⟨here, -⟩ := pageOf_add inVad.aligned below
        have keyed := inVad.keyed
        have after := inVad.after
        rw [byteAt, here, own, mapped]
        dsimp only
        rw [sectionByte, found]
        simp only [List.getD_eq_getElem?_getD, List.getElem?_take, if_pos below, List.getElem?_drop]
        congr 2
        omega

/-- A page that is touched leaves the contents alone, and the queue still holds every resident page. -/
theorem touch_eq (queued : ∀ page ∈ m.resident, page ∈ m.residentOrder) (page : Nat) :
    ∃ resident order, (touch page).run m = .ok () { m with resident, residentOrder := order } ∧
      ∀ page ∈ resident, page ∈ order := by
  have evicted (limit : Nat) (order resident : List Nat) (queued : ∀ page ∈ resident, page ∈ order) :
      ∃ kept left, evict limit order resident = .ok (kept, left) ∧ ∀ page ∈ kept, page ∈ left := by
    induction order generalizing resident with
    | nil =>
      have none : resident = [] := List.eq_nil_iff_forall_not_mem.mpr fun page member =>
        absurd (queued page member) List.not_mem_nil
      refine ⟨resident, [], ?_, queued⟩
      rw [evict, if_pos (by rw [none]; exact zero_le limit)]
      rfl
    | cons victim order ih =>
      rw [evict]
      split
      · exact ⟨resident, victim :: order, rfl, queued⟩
      · refine ih _ fun page member => ?_
        obtain ⟨inResident, other⟩ := List.mem_filter.mp member
        exact (List.mem_cons.mp (queued page inResident)).resolve_left (of_decide_eq_true other)
  rw [touch, Exec.get_bind_run]
  by_cases already : m.resident.contains page
  · rw [if_pos already]
    exact ⟨m.resident, m.residentOrder, rfl, queued⟩
  · rw [if_neg already, read_bind_run]
    have queuedNow (other : Nat) (member : other ∈ page :: m.resident) : other ∈ m.residentOrder ++ [page] := by
      rcases List.mem_cons.mp member with rfl | old
      · exact List.mem_append_right _ List.mem_cons_self
      · exact List.mem_append_left _ (queued other old)
    obtain ⟨kept, left, ran, inside⟩ := evicted m.maxWorkingSet _ _ queuedNow
    rw [ran]
    exact ⟨kept, left, rfl, inside⟩

/-! ## Reading a range -/

section Read
variable {m : MemoryManager} {base : Nat}

theorem slice_eq {bytes : List U8} (content : ∀ k < bytes.length, bytes.getD k 0 = f (page + k))
    (fits : offset + taken ≤ bytes.length) :
    (bytes.drop offset).take taken = (range' (page + offset) taken).map f := by
  refine List.ext_getElem ?_ fun index left right => ?_
  · rw [length_take, length_drop, List.length_map, List.length_range']
    omega
  · have below : offset + index < bytes.length := by
      rw [List.length_map, List.length_range'] at right
      omega
    have byte := content _ below
    rw [List.getD_eq_getElem _ _ below] at byte
    rw [List.getElem_take, List.getElem_drop, byte, List.getElem_map, List.getElem_range', one_mul,
      add_assoc]

theorem range_map_add : (range' start first).map f ++ (range' (start + first) more).map f =
      (range' start (first + more)).map f := by
  rw [← List.map_append, List.range'_append_1]

/-- The working set is not part of the contents. -/
theorem Backed.touched (backed : Backed m) (queued : ∀ page ∈ resident, page ∈ order) :
    Backed { m with resident, residentOrder := order } := ⟨backed.vads, backed.sections, queued⟩

theorem readPages_eq (backed : Backed m) {stop rounds cursor : Nat} (output : List U8)
    (enough : stop - cursor ≤ rounds)
    (pages : ∀ address, cursor ≤ address → address < stop → PageIn m base vad (pageOf address)) :
    ∃ resident order, (readPages base stop rounds cursor output).run m =
        .ok (output ++ (range' cursor (stop - cursor)).map (byteAt m.sections vad))
          { m with resident, residentOrder := order } ∧ ∀ page ∈ resident, page ∈ order := by
  induction rounds generalizing m cursor output with
  | zero =>
    rw [le_zero.mp enough, List.range'_zero, List.map_nil, List.append_nil]
    exact ⟨m.resident, m.residentOrder, rfl, backed.queued⟩
  | succ rounds ih =>
    rw [readPages]
    by_cases more : cursor < stop
    · rw [if_pos more, read_bind_run]
      have here := pages cursor (le_refl _) more
      obtain ⟨bytes, read, length, -, content⟩ := pageBytes_eq (backed.vads base vad here.there) here
      rw [pageOf] at read
      rw [read]
      dsimp only
      obtain ⟨resident, order, touched, queued⟩ := touch_eq backed.queued (cursor / pageSize * pageSize)
      rw [Exec.bind_of_ok touched]
      have page : cursor / pageSize * pageSize + cursor % pageSize = cursor := div_add_mod' cursor pageSize
      have offset : cursor % pageSize < pageSize := mod_lt _ (by decide)
      generalize taken : min (pageSize - cursor % pageSize) (stop - cursor) = step
      have later (address : Nat) (after : cursor + step ≤ address) (before : address < stop) :
          PageIn { m with resident, residentOrder := order } base vad (pageOf address) :=
        { pages address (by omega) before with there := here.there }
      obtain ⟨lastResident, lastOrder, ran, inside⟩ := ih (backed.touched queued)
        (output ++ (bytes.drop (cursor % pageSize)).take step) (by omega) later
      refine ⟨lastResident, lastOrder, ?_, inside⟩
      rw [ran, slice_eq (fun k below => content k (length ▸ below)) (by omega)]
      rw [pageOf, page, List.append_assoc, range_map_add]
      congr 4
      omega
    · rw [if_neg more, Nat.sub_eq_zero_of_le (Nat.le_of_not_lt more), List.range'_zero, List.map_nil, List.append_nil]
      exact ⟨m.resident, m.residentOrder, rfl, backed.queued⟩

/-- An accepted range lies in committed pages of one descriptor. -/
theorem checkAccess_eq_ok (kept : Kept m) (checked : m.checkAccess start stop write = .ok ()) :
    ∃ vad, m.findVad start = .ok vad ∧ stop ≤ vad.end ∧ vad.end ≤ userLimit ∧
      ∀ address, start ≤ address → address < stop → PageIn m vad.base vad (pageOf address) := by
  simp only [checkAccess, bind_eq_ok, refuse_eq_ok] at checked
  obtain ⟨vad, found, -, inside, allowed⟩ := checked
  obtain ⟨key, member, below, -⟩ := findVad_eq_ok found
  obtain ⟨rfl, there⟩ := kept.lookup_base member
  have vadKept := kept.entries _ member
  refine ⟨vad, found, Nat.le_of_not_lt inside, vadKept.limit, fun address after before => ?_⟩
  have baseMod := vadKept.base
  have sizeMod := vadKept.size
  have ends : vad.end = vad.base + vad.size := rfl
  refine ⟨there, rfl, mul_mod_left _ _, ?_, ?_, ?_⟩
  · simp only [pageOf, pageSize] at *
    omega
  · simp only [pageOf, pageSize] at *
    omega
  · have inRange : pageOf address ∈ rangePages (start, stop) := by
      refine List.mem_map.mpr ⟨address / pageSize, List.mem_range'_1.mpr ?_, rfl⟩
      simp only [pageSize]
      omega
    simp only [List.any_eq_true, not_exists, not_and, Bool.not_eq_true',
      Bool.not_eq_false] at allowed
    have holds := allowed _ inRange
    cases entry : vad.pages.lookup (pageOf address) with
    | none =>
      rw [entry] at holds
      cases holds
    | some _ => rfl

theorem checkAccess_refused (refused : m.checkAccess start stop write ≠ .ok ()) :
    ∃ reason, m.checkAccess start stop write = .error reason := by
  have returns : m.checkAccess start stop write ≠ .panic := by
    refine bind_ne_panic ?_ fun vad => bind_ne_panic refuse_ne_panic fun _ => refuse_ne_panic
    refine bind_ne_panic require_ne_panic fun entry => ?_
    exact bind_ne_panic refuse_ne_panic fun _ returned => by cases returned
  cases checked : m.checkAccess start stop write with
  | ok _ => exact absurd checked refused
  | error reason => exact ⟨reason, rfl⟩
  | panic => exact absurd checked returns

theorem read_eq (kept : Kept m) (backed : Backed m) (asked : 0 < length)
    (checked : m.checkAccess address (address + length) false = .ok ())
    (found : m.findVad address = .ok vad) :
    ∃ resident order, (MemoryManager.read address length).run m =
        .ok ((range' address length).map (byteAt m.sections vad))
          { m with resident, residentOrder := order } ∧ ∀ page ∈ resident, page ∈ order := by
  obtain ⟨other, foundAgain, inside, limit, pages⟩ := checkAccess_eq_ok kept checked
  obtain rfl : vad = other := ok.inj (found.symm.trans foundAgain)
  have fits : checkedAdd address length = some (address + length) := by
    refine if_pos ?_
    rw [userLimit] at limit
    omega
  obtain ⟨resident, order, ran, queued⟩ :=
    @readPages_eq m vad.base vad backed (address + length) length address [] (by omega) pages
  refine ⟨resident, order, ?_, queued⟩
  rw [MemoryManager.read, if_neg (ne_of_gt asked), read_bind_run, fits]
  dsimp only [require]
  rw [read_bind_run, checked]
  rw [read_bind_run, found]
  dsimp only
  rw [ran, List.nil_append, Nat.add_sub_cancel_left]

theorem read_refused (asked : 0 < length)
    (refused : m.checkAccess address (address + length) false ≠ .ok ()) :
    ∃ reason, (MemoryManager.read address length).run m = .error reason m := by
  rw [MemoryManager.read, if_neg (ne_of_gt asked), read_bind_run]
  cases added : checkedAdd address length with
  | none => exact ⟨_, rfl⟩
  | some =>
    obtain ⟨rfl, -⟩ := checkedAdd_eq_some added
    dsimp only [require]
    obtain ⟨reason, denied⟩ := checkAccess_refused refused
    rw [read_bind_run, denied]
    exact ⟨reason, rfl⟩

end Read

/-! ## Writing a range -/

def Touches (start length page : Nat) : Prop :=
  max start page < min (start + length) (page + pageSize)

/-- The private pages of a descriptor after data have been written through it. -/
structure OwnPatch (sections : List (Nat × Section)) (vad : Vad) (start : Nat) (data : List U8)
    (pages : List (Nat × List U8)) : Prop where
  whole : ∀ page bytes, pages.lookup page = some bytes → bytes.length = pageSize
  bytes : byteAt sections { vad with privatePages := pages } =
    patch (byteAt sections vad) start data
  present : ∀ page, page % pageSize = 0 → ((pages.lookup page).isSome = true ↔
    (vad.privatePages.lookup page).isSome = true ∨ Touches start data.length page)

section Write
variable {m : MemoryManager} {base : Nat} {start : Nat}

theorem OwnPatch.nil (backed : VadBacked sections vad) :
    OwnPatch sections vad start [] vad.privatePages where
  whole := backed.whole
  bytes := patch_nil.symm
  present page _ := by
    refine ⟨.inl, fun either => either.resolve_right ?_⟩
    rw [Touches, List.length_nil]
    omega

theorem OwnPatch.append (first : OwnPatch sections vad start data pages)
    (then_ : OwnPatch sections { vad with privatePages := pages } (start + data.length) more last) :
    OwnPatch sections vad start (data ++ more) last where
  whole := then_.whole
  bytes := by rw [← patch_append, ← first.bytes]; exact then_.bytes
  present page aligned := by
    rw [then_.present page aligned, first.present page aligned, or_assoc, length_append]
    refine or_congr_right ?_
    simp only [Touches] at *
    omega

/-- One page replaced by another with the bytes written into it. -/
theorem OwnPatch.onePage (backed : VadBacked sections vad) (aligned : page % pageSize = 0)
    (length : old.length = pageSize)
    (content : ∀ k < pageSize, old.getD k 0 = byteAt sections vad (page + k))
    (any : 0 < data.length) (fits : offset + data.length ≤ pageSize)
    (lookups : ∀ other, pages.lookup other = if other = page then some (overwrite old offset data) else vad.privatePages.lookup other) :
    OwnPatch sections vad (page + offset) data pages where
  whole := forall_lookup_replaced lookups (by rw [length_overwrite (by omega), length]) backed.whole
  bytes := by
    funext address
    by_cases here : pageOf address = page
    · have inside : address % pageSize < pageSize := mod_lt _ (by decide)
      have whole : page + address % pageSize = address := by
        rw [← here]
        exact div_add_mod' address pageSize
      rw [byteAt, here]
      rw [lookups, if_pos rfl]
      dsimp only
      rw [getD_overwrite (by omega), patch, patch]
      by_cases written : page + offset ≤ address ∧ address < page + offset + data.length
      · rw [if_pos written, if_pos (by omega)]
        congr 1
        omega
      · rw [if_neg written, if_neg (by omega), content _ inside, whole]
    · have outside : ¬ (page + offset ≤ address ∧ address < page + offset + data.length) := by
        simp only [pageOf, pageSize] at *
        omega
      rw [patch, if_neg outside, byteAt, byteAt]
      rw [lookups, if_neg here]
  present := by
    intro other otherAligned
    rw [lookups]
    by_cases same : other = page
    · rw [if_pos same]
      refine iff_of_true rfl (.inr ?_)
      simp only [Touches] at *
      omega
    · rw [if_neg same]
      refine ⟨.inl, fun either => either.resolve_right ?_⟩
      simp only [Touches, pageSize] at *
      omega

theorem writePage_own (inVad : PageIn m base vad page) (backed : VadBacked m.sections vad)
    (own : ∀ mapping, vad.mapping = some mapping → mapping.cow) (any : 0 < data.length)
    (fits : offset + data.length ≤ pageSize) :
    ∃ vads pages, (writePage base page offset data).run m = .ok () { m with vads } ∧
      (∀ other, vads.lookup other =
        if other = base then some { vad with privatePages := pages } else m.vads.lookup other) ∧
      OwnPatch m.sections vad (page + offset) data pages := by
  obtain ⟨old, read, length, current, content⟩ := pageBytes_eq backed inVad
  have patched {pages : List (Nat × List U8)} (lookups : ∀ other, pages.lookup other =
      if other = page then some (overwrite old offset data) else vad.privatePages.lookup other) :
      OwnPatch m.sections vad (page + offset) data pages :=
    .onePage backed inVad.aligned length content any fits lookups
  have modified := lookup_modify_of_found inVad.there
  rcases Option.eq_none_or_eq_some vad.mapping with mapped | ⟨mapping, mapped⟩
  · obtain ⟨bytes, here⟩ := Option.isSome_iff_exists.mp (backed.owned mapped page inVad.committed)
    obtain rfl := current bytes here
    have ran : (writePage base page offset data).run m = .ok () { m with
        vads := OrderedMap.modify base (fun vad => { vad with
          privatePages := OrderedMap.modify page (overwrite · offset data) vad.privatePages }) m.vads } := by
      rw [writePage, read_bind_run, inVad.there]
      dsimp only [require]
      rw [mapped]
      rw [here]
      rfl
    exact ⟨_, _, ran, modified _, patched (lookup_modify_of_found here _)⟩
  · have target : (vad.privatePages.lookup page).getD old = old := by
      cases here : vad.privatePages.lookup page with
      | none => rfl
      | some own => exact current own here
    have ran : (writePage base page offset data).run m = .ok () { m with
        vads := OrderedMap.modify base (fun vad => { vad with
          privatePages := OrderedMap.insert page
            (overwrite ((vad.privatePages.lookup page).getD old) offset data) vad.privatePages }) m.vads } := by
      rw [writePage, read_bind_run, inVad.there]
      dsimp only [require]
      rw [mapped]
      dsimp only
      rw [if_pos (own mapping mapped), read_bind_run, read]
      rfl
    refine ⟨_, _, ran, modified _, patched fun other => ?_⟩
    rw [lookup_insert, target]

theorem writePage_shared (inVad : PageIn m base vad page) (backed : VadBacked m.sections vad)
    (mapped : vad.mapping = some mapping) (shared : mapping.cow = false)
    (found : m.sections.lookup mapping.sectionId = some record)
    (fits : page - base + offset + data.length ≤ record.backing.length) :
    ∃ sections, (writePage base page offset data).run m = .ok () { m with sections } ∧
      ∀ other, sections.lookup other = if other = mapping.sectionId then
        some { record with backing := overwrite record.backing (page - base + offset) data }
        else m.sections.lookup other := by
  have direct : ¬ mapping.cow := by rw [shared]; exact Bool.false_ne_true
  have zero := backed.start mapping mapped
  rw [writePage, read_bind_run, inVad.there]
  dsimp only [require]
  rw [mapped]
  dsimp only
  rw [if_neg direct, read_bind_run, found]
  dsimp only
  rw [zero, zero_add, if_pos fits]
  exact ⟨_, rfl, lookup_modify_of_found found _⟩

/-- The loop writes the data from the front, a page's part in each round. -/
theorem writePages_rule {P : List U8 → MemoryManager → Prop}
    (step : ∀ written chunk m, P written m → 0 < chunk.length → written ++ chunk <+: data → (start + written.length) % pageSize + chunk.length ≤ pageSize → ∃ next, (writePage base (pageOf (start + written.length)) ((start + written.length) % pageSize) chunk).run m = .ok () next ∧ P (written ++ chunk) next)
    (touch : ∀ written page m, P written m → ∃ next, (touch page).run m = .ok () next ∧
      P written next)
    (holds : P (data.take written) m) (within : written ≤ data.length)
    (enough : data.length - written ≤ rounds) :
    ∃ next, (writePages base (start + data.length) data rounds (start + written) written).run m =
      .ok () next ∧
      P data next := by
  induction rounds generalizing m written with
  | zero =>
    rw [List.take_of_length_le (by omega)] at holds
    exact ⟨m, rfl, holds⟩
  | succ rounds ih =>
    rw [writePages]
    by_cases more : start + written < start + data.length
    · rw [if_pos more]
      have offset : (start + written) % pageSize < pageSize := mod_lt _ (by decide)
      generalize taken : min (pageSize - (start + written) % pageSize) (data.length - written) = size
      have before : (data.take written).length = written := List.length_take_of_le within
      have chunk : ((data.drop written).take size).length = size := by rw [length_take, length_drop]; omega
      have whole : data.take written ++ (data.drop written).take size = data.take (written + size) := List.take_add.symm
      obtain ⟨middle, wrote, held⟩ := step _ ((data.drop written).take size) m holds (by omega)
        (by rw [whole]; exact List.take_prefix _ _) (by rw [before]; omega)
      rw [whole] at held
      obtain ⟨after, touched, stays⟩ := touch _ (pageOf (start + written)) middle held
      rw [before, pageOf] at wrote
      rw [pageOf] at touched
      obtain ⟨next, ran, done⟩ := ih stays (by omega) (by omega)
      refine ⟨next, ?_, done⟩
      dsimp only
      rw [taken, Exec.bind_of_ok wrote, Exec.bind_of_ok touched, add_assoc]
      exact ran
    · rw [List.take_of_length_le (by omega)] at holds
      rw [if_neg more]
      exact ⟨m, rfl, holds⟩

/-- Private pages that have been written to still back their descriptor. -/
theorem OwnPatch.backed (patched : OwnPatch sections vad start data pages)
    (backed : VadBacked sections vad) (own : ∀ mapping, vad.mapping = some mapping → mapping.cow)
    (aligned : ∀ page, (vad.pages.lookup page).isSome → page % pageSize = 0) :
    VadBacked sections { vad with privatePages := pages } where
  whole := patched.whole
  owned unmapped page committed :=
    (patched.present page (aligned page committed)).mpr (.inl (backed.owned unmapped page committed))
  start := backed.start
  covered := backed.covered
  shared mapping mapped direct := absurd ((own mapping mapped).symm.trans direct) Bool.noConfusion

/-- What a write through a descriptor with its own pages leaves behind. -/
def WroteOwn (m : MemoryManager) (vad : Vad) (start : Nat) (data : List U8) (next : MemoryManager) :
    Prop :=
  ∃ vads pages resident order, next = { m with vads, resident, residentOrder := order } ∧
    (∀ page ∈ resident, page ∈ order) ∧
    (∀ other, vads.lookup other =
      if other = vad.base then some { vad with privatePages := pages } else m.vads.lookup other) ∧
    OwnPatch m.sections vad start data pages

/-- What a write through a shared view leaves behind. -/
def WroteShared (m : MemoryManager) (vad : Vad) (id : Nat) (record : Section) (start : Nat)
    (data : List U8) (next : MemoryManager) : Prop :=
  ∃ sections backing resident order,
    next = { m with sections, resident, residentOrder := order } ∧
    (∀ page ∈ resident, page ∈ order) ∧
    (∀ other, sections.lookup other =
      if other = id then some { record with backing } else m.sections.lookup other) ∧
    backing.length = record.backing.length ∧
    (backing.getD · 0) = patch (record.backing.getD · 0) (start - vad.base) data

theorem Kept.page_aligned (kept : Kept m) (there : m.vads.lookup base = some vad)
    (committed : (vad.pages.lookup page).isSome) : page % pageSize = 0 := by
  obtain ⟨protection, found⟩ := Option.isSome_iff_exists.mp committed
  exact ((kept.entries _ (mem_of_lookup there)).pages _ (mem_of_lookup found)).1

theorem writePages_own (kept : Kept m) (backed : Backed m)
    (there : m.vads.lookup vad.base = some vad)
    (own : ∀ mapping, vad.mapping = some mapping → mapping.cow)
    (inVad : ∀ address, start ≤ address → address < start + data.length →
      PageIn m vad.base vad (pageOf address)) :
    ∃ next,
      (writePages vad.base (start + data.length) data data.length start 0).run m = .ok () next ∧
      WroteOwn m vad start data next := by
  have vadBacked := backed.vads _ _ there
  have started : WroteOwn m vad start (data.take 0) m :=
    ⟨m.vads, vad.privatePages, m.resident, m.residentOrder, rfl, backed.queued, lookup_replaced there, .nil vadBacked⟩
  refine writePages_rule ?_ ?_ started (zero_le _) (le_refl _)
  · rintro written chunk _ ⟨vads, pages, resident, order, rfl, queued, lookups, patched⟩ any within fits
    have inside := within.length_le
    rw [length_append] at inside
    have here := inVad (start + written.length) (by omega) (by omega)
    have inNow : PageIn { m with vads, resident, residentOrder := order } vad.base
        { vad with privatePages := pages } (pageOf (start + written.length)) :=
      { here with there := (lookups _).trans (if_pos rfl) }
    obtain ⟨nextVads, nextPages, ran, nextLookups, nextPatched⟩ := writePage_own inNow
      (patched.backed vadBacked own fun page => kept.page_aligned there) own any fits
    rw [pageOf, div_add_mod'] at nextPatched
    exact ⟨_, ran, nextVads, nextPages, resident, order, rfl, queued, lookup_replaced_twice lookups nextLookups,
      patched.append nextPatched⟩
  · rintro written page _ ⟨vads, pages, resident, order, rfl, queued, lookups, patched⟩
    obtain ⟨nextResident, nextOrder, ran, inside⟩ := touch_eq
      (m := { m with vads, resident, residentOrder := order }) queued page
    exact ⟨_, ran, vads, pages, nextResident, nextOrder, rfl, inside, lookups, patched⟩

theorem writePages_shared (backed : Backed m) (there : m.vads.lookup vad.base = some vad)
    (mapped : vad.mapping = some mapping) (shared : mapping.cow = false)
    (found : m.sections.lookup mapping.sectionId = some record)
    (long : vad.size ≤ record.backing.length)
    (inVad : ∀ address, start ≤ address → address < start + data.length →
      PageIn m vad.base vad (pageOf address)) :
    ∃ next,
      (writePages vad.base (start + data.length) data data.length start 0).run m = .ok () next ∧
      WroteShared m vad mapping.sectionId record start data next := by
  have started : WroteShared m vad mapping.sectionId record start (data.take 0) m :=
    ⟨m.sections, record.backing, m.resident, m.residentOrder, rfl, backed.queued, lookup_replaced found, rfl, patch_nil.symm⟩
  refine writePages_rule ?_ ?_ started (zero_le _) (le_refl _)
  · rintro written chunk _ ⟨sections, backing, resident, order, rfl, queued, lookups, length, patched⟩ any within fits
    have inside := within.length_le
    rw [length_append] at inside
    have here := inVad (start + written.length) (by omega) (by omega)
    have first :=
      le_trans (inVad start (by omega) (by omega)).after (div_mul_le_self start pageSize)
    have foundNow : sections.lookup mapping.sectionId = some { record with backing } :=
      (lookups _).trans (if_pos rfl)
    have inNow : PageIn { m with sections, resident, residentOrder := order } vad.base vad
        (pageOf (start + written.length)) := { here with there }
    have backedNow : VadBacked sections vad := by
      refine { backed.vads _ _ there with covered := fun other same => ?_ }
      obtain rfl := Option.some.inj (mapped.symm.trans same)
      exact ⟨_, foundNow, by rw [length]; exact long⟩
    have page : pageOf (start + written.length) + (start + written.length) % pageSize = start + written.length :=
      div_add_mod' _ _
    have after := here.after
    have position : pageOf (start + written.length) - vad.base + (start + written.length) % pageSize =
        start - vad.base + written.length := by omega
    have room : pageOf (start + written.length) - vad.base + (start + written.length) % pageSize + chunk.length ≤
        backing.length := by
      have before := here.before
      rw [Vad.end] at before
      omega
    obtain ⟨next, ran, nextLookups⟩ := writePage_shared inNow backedNow mapped shared foundNow room
    refine ⟨_, ran, next, _, resident, order, rfl, queued, lookup_replaced_twice lookups nextLookups,
      (length_overwrite room).trans length, ?_⟩
    funext index
    rw [getD_overwrite room, patched, position, patch_append]
  · rintro written page _ ⟨sections, backing, resident, order, rfl, queued, lookups, length, patched⟩
    obtain ⟨nextResident, nextOrder, ran, inside⟩ := touch_eq
      (m := { m with sections, resident, residentOrder := order }) queued page
    exact ⟨_, ran, sections, backing, nextResident, nextOrder, rfl, inside, lookups, length, patched⟩

/-- Once its range is accepted, a write is the loop over its pages. -/
theorem write_accepted (kept : Kept m) (any : data ≠ [])
    (checked : m.checkAccess address (address + data.length) true = .ok ())
    (found : m.findVad address = .ok vad) :
    (MemoryManager.write address data).run m =
        (writePages vad.base (address + data.length) data data.length address 0).run m ∧
      m.vads.lookup vad.base = some vad ∧
      ∀ other, address ≤ other → other < address + data.length → PageIn m vad.base vad (pageOf other) := by
  obtain ⟨other, foundAgain, inside, limit, pages⟩ := checkAccess_eq_ok kept checked
  obtain rfl : vad = other := ok.inj (found.symm.trans foundAgain)
  have fits : checkedAdd address data.length = some (address + data.length) := by
    refine if_pos ?_
    rw [userLimit] at limit
    omega
  have length := List.length_pos_of_ne_nil any
  refine ⟨?_, (pages address (le_refl _) (by omega)).there, pages⟩
  rw [MemoryManager.write, if_neg any, read_bind_run, fits]
  dsimp only [require]
  rw [read_bind_run, checked]
  rw [read_bind_run, found]

/-- What an accepted write can do: it goes to the section behind a shared view, or else to pages of
the descriptor's own. -/
theorem write_cases (kept : Kept m) (backed : Backed m) {address : Nat} (any : data ≠ [])
    (checked : m.checkAccess address (address + data.length) true = .ok ())
    (found : m.findVad address = .ok vad) :
    ∃ next, (MemoryManager.write address data).run m = .ok () next ∧
      m.vads.lookup vad.base = some vad ∧
      ((∃ mapping record, vad.mapping = some mapping ∧ mapping.cow = false ∧
          m.sections.lookup mapping.sectionId = some record ∧
          WroteShared m vad mapping.sectionId record address data next) ∨
        ((∀ mapping, vad.mapping = some mapping → mapping.cow) ∧ WroteOwn m vad address data next)) := by
  obtain ⟨ran, there, pages⟩ := write_accepted kept any checked found
  rw [ran]
  by_cases shared : ∃ mapping, vad.mapping = some mapping ∧ mapping.cow = false
  · obtain ⟨mapping, mapped, direct⟩ := shared
    obtain ⟨record, stored, long⟩ := (backed.vads _ _ there).covered mapping mapped
    obtain ⟨next, done, wrote⟩ := writePages_shared backed there mapped direct stored long pages
    exact ⟨next, done, there, .inl ⟨mapping, record, mapped, direct, stored, wrote⟩⟩
  · have own (mapping : Mapping) (mapped : vad.mapping = some mapping) : mapping.cow :=
      Bool.of_not_eq_false fun direct => shared ⟨mapping, mapped, direct⟩
    obtain ⟨next, done, wrote⟩ := writePages_own kept backed there own pages
    exact ⟨next, done, there, .inr ⟨own, wrote⟩⟩

theorem write_refused {address : Nat} (any : data ≠ [])
    (refused : m.checkAccess address (address + data.length) true ≠ .ok ()) :
    ∃ reason, (MemoryManager.write address data).run m = .error reason m := by
  rw [MemoryManager.write, if_neg any, read_bind_run]
  cases added : checkedAdd address data.length with
  | none => exact ⟨_, rfl⟩
  | some =>
    obtain ⟨rfl, -⟩ := checkedAdd_eq_some added
    dsimp only [require]
    obtain ⟨reason, denied⟩ := checkAccess_refused refused
    rw [read_bind_run, denied]
    exact ⟨reason, rfl⟩

end Write

/-! ## Whole runs -/

theorem WroteOwn.backed (wrote : WroteOwn m vad start data next) (kept : Kept m) (backed : Backed m)
    (there : m.vads.lookup vad.base = some vad)
    (own : ∀ mapping, vad.mapping = some mapping → mapping.cow) : Backed next := by
  obtain ⟨vads, pages, resident, order, rfl, queued, lookups, patched⟩ := wrote
  have updated := patched.backed (backed.vads _ _ there) own fun page => kept.page_aligned there
  exact ⟨forall_lookup_replaced lookups updated backed.vads, backed.sections, queued⟩

/-- Descriptors that were backed stay so while no section they map goes or shrinks. -/
theorem VadBacked.mono (backed : VadBacked sections vad)
    (stays : ∀ mapping record, vad.mapping = some mapping → sections.lookup mapping.sectionId = some record → ∃ now, later.lookup mapping.sectionId = some now ∧ record.backing.length ≤ now.backing.length) :
    VadBacked later vad := by
  refine { backed with covered := fun mapping mapped => ?_ }
  obtain ⟨record, found, long⟩ := backed.covered mapping mapped
  obtain ⟨now, foundNow, longer⟩ := stays mapping record mapped found
  exact ⟨now, foundNow, le_trans long longer⟩

theorem WroteShared.backed {start id : Nat} (wrote : WroteShared m vad id record start data next)
    (backed : Backed m) (found : m.sections.lookup id = some record) : Backed next := by
  obtain ⟨sections, backing, resident, order, rfl, queued, lookups, length, -⟩ := wrote
  obtain ⟨known, whole⟩ := backed.sections id record found
  refine ⟨fun base other there =>
    (backed.vads base other there).mono fun mapping old mapped stored => ?_,
    forall_lookup_replaced lookups ⟨known, length.trans whole⟩ backed.sections, queued⟩
  rw [lookups]
  split
  case isTrue same =>
    rw [same, found] at stored
    obtain rfl := Option.some.inj stored
    exact ⟨_, rfl, le_of_eq length.symm⟩
  case isFalse => exact ⟨old, stored, le_refl _⟩

theorem Backed.modify (backed : Backed m) (found : m.vads.lookup base = some vad)
    (update : Vad → Vad) (updated : VadBacked m.sections (update vad)) :
    ∀ other now, (OrderedMap.modify base update m.vads).lookup other = some now →
      VadBacked m.sections now :=
  forall_lookup_replaced (lookup_modify_of_found found update) updated backed.vads

theorem Backed.forget (backed : Backed m) :
    ∀ page ∈ (m.forget pages).resident, page ∈ (m.forget pages).residentOrder := by
  intro page member
  obtain ⟨inside, stays⟩ := List.mem_filter.mp member
  exact List.mem_filter.mpr ⟨backed.queued page inside, stays⟩

theorem VadBacked.fresh (size : Nat) :
    VadBacked sections ⟨base, size, protection, [], [], none⟩ where
  whole _ _ found := by cases found
  owned _ _ found := by cases found
  start _ mapped := by cases mapped
  covered _ mapped := by cases mapped
  shared _ mapped := by cases mapped

theorem VadBacked.committed (old : VadBacked sections vad) (unmapped : vad.mapping = none)
    (pages : List Nat) (protection : Protection) :
    VadBacked sections (vad.committed pages protection) where
  whole page bytes found := by
    rw [Vad.committed, lookup_insertAll] at found
    split at found
    · rw [← Option.some.inj found, List.length_replicate]
    · exact old.whole page bytes found
  owned _ page found := by
    rw [Vad.committed] at found ⊢
    rw [lookup_insertAll] at found ⊢
    split
    case isTrue => rfl
    case isFalse outside =>
      rw [if_neg outside] at found
      exact old.owned unmapped page found
  start := old.start
  covered := old.covered
  shared mapping mapped := by cases unmapped.symm.trans mapped

theorem VadBacked.decommitted (old : VadBacked sections vad) (unmapped : vad.mapping = none)
    (pages : List Nat) : VadBacked sections (vad.decommitted pages) where
  whole page bytes found := by
    rw [Vad.decommitted, lookup_eraseAll] at found
    split at found
    · cases found
    · exact old.whole page bytes found
  owned _ page found := by
    rw [Vad.decommitted] at found ⊢
    rw [lookup_eraseAll] at found ⊢
    split at found
    case isTrue => cases found
    case isFalse outside =>
      rw [if_neg outside]
      exact old.owned unmapped page found
  start := old.start
  covered := old.covered
  shared mapping mapped := by cases unmapped.symm.trans mapped

theorem VadBacked.protected (old : VadBacked sections vad)
    (present : ∀ page ∈ pages, (vad.pages.lookup page).isSome) (protection : Protection) :
    VadBacked sections (vad.protected pages protection) where
  whole := old.whole
  owned unmapped page found := by
    refine old.owned unmapped page ?_
    rw [Vad.protected, lookup_insertAll] at found
    split at found
    case isTrue inside => exact present page inside
    case isFalse => exact found
  start := old.start
  covered := old.covered
  shared := old.shared

theorem VadBacked.viewed {base aligned id : Nat} (found : sections.lookup id = some record)
    (small : aligned ≤ record.backing.length) :
    VadBacked sections (Vad.viewed ⟨base, aligned, old, [], [], none⟩ pages protection ⟨id, 0, cow⟩) where
  whole _ _ stored := by cases stored
  owned unmapped := by cases unmapped
  start mapping mapped := by rw [← Option.some.inj mapped]
  covered mapping mapped := by
    rw [← Option.some.inj mapped]
    exact ⟨record, found, small⟩
  shared _ _ _ _ := rfl

section Operations
variable (backed : Backed m)
include backed

theorem release_backed {base size released : Nat}
    (done : m.release base size = .ok (released, next)) : Backed next := by
  obtain ⟨vad, -, -, rfl⟩ := release_eq_ok done
  exact ⟨fun other now found => backed.vads other now (lookup_of_erase found).2, backed.sections,
    backed.forget⟩

theorem createSection_backed {size id : Nat}
    (done : m.createSection size initial = .ok (id, next)) : Backed next := by
  obtain ⟨fits, rfl⟩ := createSection_eq_ok done
  refine ⟨fun base vad there =>
    (backed.vads base vad there).mono fun mapping record mapped found => ?_,
    forall_lookup_replaced lookup_insert ⟨lt_succ_self _, ?_⟩ fun other record found =>
      ?_, backed.queued⟩
  · have older := (backed.sections _ record found).1
    refine ⟨record, ?_, le_refl _⟩
    rw [lookup_insert, if_neg (Nat.ne_of_lt older), found]
  · rw [length_append, List.length_replicate]
    exact Nat.add_sub_cancel' fits
  · obtain ⟨older, length⟩ := backed.sections other record found
    exact ⟨lt_succ_of_lt older, length⟩

theorem deleteSection_backed {id : Nat} (done : m.deleteSection id = .ok ((), next)) :
    Backed next := by
  obtain ⟨unused, rfl⟩ := deleteSection_eq_ok done
  refine ⟨fun base vad there =>
    (backed.vads base vad there).mono fun mapping record mapped found => ?_,
    fun other record found => backed.sections other record (lookup_of_erase found).2, backed.queued⟩
  have other := unused _ (mem_of_lookup there) mapping mapped
  refine ⟨record, ?_, le_refl _⟩
  rw [lookup_erase, if_neg other, found]

variable (kept : Kept m)
include kept

theorem reserve_backed {size base : Nat} (done : m.reserve request size = .ok (base, next)) :
    Backed next := by
  obtain ⟨aligned, nextBase, -, -, -, -, -, rfl⟩ := reserve_eq_ok kept done
  exact ⟨forall_lookup_replaced lookup_insert (.fresh _) backed.vads, backed.sections,
    backed.queued⟩

theorem commit_backed {base size : Nat} (done : m.commit base size protection = .ok ((), next)) :
    Backed next := by
  obtain ⟨range, vad, target, unmapped, -, -, -, rfl⟩ := commit_eq_ok kept done
  have updated := (backed.vads _ _ target.there).committed unmapped (rangePages range) protection
  exact ⟨backed.modify target.there
    (fun vad => vad.committed (rangePages range) protection) updated, backed.sections,
    backed.queued⟩

theorem decommit_backed {base size : Nat} (done : m.decommit base size = .ok ((), next)) :
    Backed next := by
  obtain ⟨range, vad, target, unmapped, -, rfl⟩ := decommit_eq_ok kept done
  have updated := (backed.vads _ _ target.there).decommitted unmapped (rangePages range)
  exact ⟨backed.modify target.there (fun vad => vad.decommitted (rangePages range)) updated,
    backed.sections,
    backed.forget⟩

theorem protect_backed {base size count : Nat}
    (done : m.protect base size protection = .ok (count, next)) : Backed next := by
  obtain ⟨range, vad, target, present, -, rfl⟩ := protect_eq_ok kept done
  have updated := (backed.vads _ _ target.there).protected present protection
  exact ⟨backed.modify target.there
    (fun vad => vad.protected (rangePages range) protection) updated, backed.sections,
    backed.queued⟩

theorem mapSection_backed {id size base : Nat}
    (done : m.mapSection id request size protection cow = .ok (base, next)) : Backed next := by
  obtain ⟨record, aligned, between, found, small, reserved, placed, -, rfl⟩ :=
    mapSection_eq_ok kept done
  have backedBetween := reserve_backed backed kept reserved
  have sections : between.sections = m.sections := by
    obtain ⟨_, _, _, _, _, _, _, rfl⟩ := reserve_eq_ok kept reserved
    rfl
  rw [← (backed.sections id record found).2] at small
  rw [← sections] at found
  exact ⟨backedBetween.modify placed
    (fun vad => vad.viewed (viewPages base aligned) protection ⟨id, 0, cow⟩)
    (.viewed found small), backedBetween.sections, backedBetween.queued⟩

theorem read_backed : Backed (((MemoryManager.read address length).run m).state?.getD m) := by
  rcases Nat.eq_zero_or_pos length with rfl | asked
  · exact backed
  · by_cases checked : m.checkAccess address (address + length) false = .ok ()
    · obtain ⟨vad, found, -⟩ := checkAccess_eq_ok kept checked
      obtain ⟨resident, order, ran, queued⟩ := read_eq kept backed asked checked found
      rw [ran]
      exact backed.touched queued
    · obtain ⟨reason, ran⟩ := read_refused asked checked
      rw [ran]
      exact backed

theorem write_backed : Backed (((MemoryManager.write address data).run m).state?.getD m) := by
  by_cases any : data = []
  · rw [any]
    exact backed
  · by_cases checked : m.checkAccess address (address + data.length) true = .ok ()
    · obtain ⟨vad, found, -⟩ := checkAccess_eq_ok kept checked
      obtain ⟨next, ran, there, shared | own⟩ := write_cases kept backed any checked found
      · obtain ⟨mapping, record, -, -, stored, wrote⟩ := shared
        rw [ran]
        exact wrote.backed backed stored
      · rw [ran]
        exact own.2.backed kept backed there own.1
    · obtain ⟨reason, ran⟩ := write_refused any checked
      rw [ran]
      exact backed

theorem Operation.apply_backed (operation : Operation) : Backed (operation.apply m) := by
  cases operation with
  | reserve => exact settle_carries backed fun _ _ => reserve_backed backed kept
  | commit => exact settle_carries backed fun _ _ => commit_backed backed kept
  | decommit => exact settle_carries backed fun _ _ => decommit_backed backed kept
  | protect => exact settle_carries backed fun _ _ => protect_backed backed kept
  | release => exact settle_carries backed fun _ _ => release_backed backed
  | createSection => exact settle_carries backed fun _ _ => createSection_backed backed
  | deleteSection id => exact settle_carries backed fun _ _ => deleteSection_backed backed
  | mapSection => exact settle_carries backed fun _ _ => mapSection_backed backed kept
  | unmapSection =>
    exact settle_carries backed fun _ _ done => release_backed backed (unmapSection_eq_ok done)
  | read => exact read_backed backed kept
  | write => exact write_backed backed kept

end Operations

theorem Operation.run_backed (kept : Kept m) (backed : Backed m) :
    Kept (run m operations) ∧ Backed (run m operations) := by
  induction operations generalizing m with
  | nil => exact ⟨kept, backed⟩
  | cons operation rest ih =>
    exact ih (apply_kept kept operation) (apply_backed backed kept operation)

theorem Operation.new_backed : Backed (new maxCommit maxSections maxWorkingSet) where
  vads _ _ found := by cases found
  sections _ _ found := by cases found
  queued _ member := absurd member List.not_mem_nil

end Casa.Casak
