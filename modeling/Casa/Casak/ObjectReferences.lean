import Casa.Casak.HandleAccess

/-! Reference counts of CasaK objects. The count of an object is the number of references
that callers still hold and of handles to it, as long as no counter wraps around. -/
namespace Casa.Casak.Object
open Effect OrderedMap Option Result Exec
open BitVec (ofNat add_zero)
open ObjectManager (allocate closeHandle closeProcess createObject dropReference duplicateHandle grantEach
  grantHandle openObject register releaseObject remove)

/-! ## The account of a history -/

/-- What callers hold, and every object that was ever created. -/
structure Ledger where
  held : ObjectId → Nat
  created : List ObjectId

namespace Ledger

def empty : Ledger := ⟨fun _ => 0, []⟩

/-- `create_object` and `open_object` hand out a reference, `release_object` takes one back. -/
def record (ledger : Ledger) : Operation → Outcome ObjectManager NtStatus Answer → Ledger
  | .createObject .., .ok (.object id) _ =>
    ⟨fun other => ledger.held other + if other = id then 1 else 0, ledger.created ++ [id]⟩
  | .openObject .., .ok (.object id) _ =>
    { ledger with held := fun other => ledger.held other + if other = id then 1 else 0 }
  | .releaseObject id, .ok _ _ =>
    { ledger with held := fun other => ledger.held other - if other = id then 1 else 0 }
  | _, _ => ledger

end Ledger

structure History where
  manager : ObjectManager
  ledger : Ledger

namespace History

def step (text : Text) (history : History) (operation : Operation) : History where
  manager := operation.apply text history.manager
  ledger := history.ledger.record operation ((operation.perform text).run history.manager)

def run (text : Text) (history : History) (operations : List Operation) : History :=
  operations.foldl (step text) history

/-- A caller gives back only what it holds. -/
def Releases (history : History) : Operation → Prop
  | .releaseObject id =>
    (history.manager.objects.lookup id).isSome = true → 0 < history.ledger.held id
  | _ => True

/-- Every step of a run meets a condition in the state in which it starts. -/
def Along (text : Text) (condition : History → Operation → Prop) (history : History) :
    List Operation → Prop
  | [] => True
  | operation :: rest =>
    condition history operation ∧ Along text condition (history.step text operation) rest

end History

def HandleEntry.refers (id : ObjectId) (entry : HandleEntry) : Nat :=
  if id = entry.object then 1 else 0

def ObjectManager.handlesTo (m : ObjectManager) (id : ObjectId) : Nat :=
  total (fun table => total (HandleEntry.refers id) table.handles) m.processes

/-- The tables of objects and names, given the number of references to every object. -/
structure Tracked (text : Text) (m : ObjectManager) (created : List ObjectId) (references : ObjectId → Nat) : Prop where
  counted : ∀ id entry, m.objects.lookup id = some entry → entry.refCount.toNat = references id
  lives : ∀ id, (m.objects.lookup id).isSome = true ↔ 0 < references id
  issued : ∀ id, (m.objects.lookup id).isSome = true → id ∈ created
  finalised : ∀ id,
    m.finalizedLog.count id = if id ∈ created ∧ m.objects.lookup id = none then 1 else 0
  called : ∀ calls, m.onFinalize = some calls → calls.map Prod.fst = m.finalizedLog
  named : ∀ key id, m.names.lookup key = some id ↔
    ∃ entry name, m.objects.lookup id = some entry ∧ entry.name = some name ∧
      text.nameKey name = key

def Accounted (text : Text) (history : History) : Prop :=
  Tracked text history.manager history.ledger.created fun id =>
    history.ledger.held id + history.manager.handlesTo id

/-! ## Where a counter would wrap -/

/-- The handles for these objects take values that are free, and no count overflows. -/
structure RoomFor (m : ObjectManager) (process : U32) (objects : List ObjectId) : Prop where
  counts : ∀ id entry, m.objects.lookup id = some entry →
    entry.refCount.toNat + objects.count id < 2 ^ 32
  handles : ∀ k < objects.length,
    (m.table process).handles.lookup ((m.table process).nextHandle + ofNat 32 (4 * k)) = none
  distinct : objects.length ≤ 2 ^ 30

def Room (text : Text) (m : ObjectManager) : Operation → Prop
  | .createObject .. => m.objects.lookup m.nextObjectId = none ∧ m.nextObjectId ∉ m.finalizedLog
  | .openObject name _ => ∀ canonical id entry, text.normalizeName name = .ok canonical →
      m.names.lookup (text.nameKey canonical) = some id → m.objects.lookup id = some entry →
      entry.refCount.toNat + 1 < 2 ^ 32
  | .grantHandle process object _ _ => RoomFor m process [object]
  | .duplicateHandle source handle target _ _ => ∀ entry, m.entry source handle = some entry →
      RoomFor m target [entry.object]
  | .inheritHandles parent child => RoomFor m child ((m.inheritable parent).map HandleEntry.object)
  | _ => True

/-! ## Objects and names -/

def ObjectEntry.key (text : Text) (entry : ObjectEntry) : Option String :=
  entry.name.map text.nameKey

theorem exists_named_iff {found : Option ObjectEntry} :
    (∃ entry name, found = some entry ∧ entry.name = some name ∧ text.nameKey name = key) ↔
      (found.bind fun entry => entry.key text) = some key := by
  simp [ObjectEntry.key, bind_eq_some_iff]

section Objects

variable (tracked : Tracked text m created references)
include tracked

/-- Process tables are not part of the account of the objects. -/
theorem Tracked.processes (processes : List (U32 × ProcessHandleTable)) :
    Tracked text { m with processes } created references :=
  { tracked with }

/-- An entry changes under its name. -/
theorem Tracked.modify (id : ObjectId)
    (update : ObjectEntry → ObjectEntry) (sameName : ∀ entry, (update entry).name = entry.name)
    (sameLife : ∀ other, 0 < changed other ↔ 0 < references other)
    (counted : ∀ other entry, m.objects.lookup other = some entry →
      (if other = id then update entry else entry).refCount.toNat = changed other) :
    Tracked text { m with objects := OrderedMap.modify id update m.objects } created changed := by
  have lookups (other : ObjectId) : (OrderedMap.modify id update m.objects).lookup other =
      (m.objects.lookup other).map fun entry => if other = id then update entry else entry := by
    rw [lookup_modify]
    split
    · rfl
    · exact map_id'.symm
  have absent (other : ObjectId) : (OrderedMap.modify id update m.objects).lookup other = none ↔
      m.objects.lookup other = none := by rw [lookups, map_eq_none_iff]
  refine ⟨fun other entry found => ?_, fun other => ?_, fun other => ?_, fun other => ?_,
    tracked.called,
    fun key other => ?_⟩
  · rw [lookups] at found
    obtain ⟨old, there, rfl⟩ := map_eq_some_iff.mp found
    exact counted other old there
  · rw [lookups, isSome_map, tracked.lives, sameLife]
  · rw [lookups, isSome_map]
    exact tracked.issued other
  · rw [tracked.finalised]
    simp only [absent]
  · rw [tracked.named, exists_named_iff, exists_named_iff, lookups]
    cases m.objects.lookup other with
    | none => rfl
    | some =>
      rw [map_some, bind_some, bind_some, ObjectEntry.key, ObjectEntry.key]
      split
      · rw [sameName]
      · rfl

/-- The count of a live object changes to another positive one. -/
theorem Tracked.setRefCount {id : ObjectId} (live : 0 < references id) (positive : 0 < changed id)
    (counted : count.toNat = changed id)
    (others : ∀ other, other ≠ id → changed other = references other) :
    Tracked text (m.setRefCount id count) created changed := by
  refine tracked.modify id (fun entry => { entry with refCount := count }) (fun _ => rfl)
    (fun other => ?_)
    fun other old there => ?_
  · by_cases same : other = id
    · rw [same]
      exact iff_of_true positive live
    · rw [others other same]
  · by_cases same : other = id
    · rw [if_pos same, same]
      exact counted
    · rw [if_neg same, others other same]
      exact tracked.counted other old there

theorem Tracked.raise {id : ObjectId} (found : m.objects.lookup id = some entry)
    (room : entry.refCount.toNat + 1 < 2 ^ 32) :
    Tracked text (m.setRefCount id (entry.refCount + 1)) created
      fun other => references other + if other = id then 1 else 0 := by
  have live : 0 < references id := (tracked.lives id).mp (by rw [found]; rfl)
  refine tracked.setRefCount live (Nat.add_pos_left live _) ?_ fun other different => ?_
  · rw [if_pos rfl, ← tracked.counted _ _ found]
    exact Nat.mod_eq_of_lt room
  · rw [if_neg different, Nat.add_zero]

omit tracked in
theorem names_destroy {id : ObjectId} (found : m.objects.lookup id = some entry) (key : String) :
    (m.destroy text id).names.lookup key =
      if entry.name.map text.nameKey = some key then none else m.names.lookup key := by
  simp only [ObjectManager.destroy, found]
  cases entry.name with
  | none => simp
  | some => simp [lookup_erase, eq_comm]

omit tracked in
theorem names_register : (m.register text kind payload name).names.lookup key =
      if name.map text.nameKey = some key then some m.nextObjectId else m.names.lookup key := by
  cases name with
  | none => simp [register]
  | some => simp [register, lookup_insert, eq_comm]

/-- The last reference goes, and the object with its name. -/
theorem Tracked.destroy {id : ObjectId} (found : m.objects.lookup id = some entry)
    (last : references id ≤ 1) (count : U32) :
    Tracked text ((m.setRefCount id count).destroy text id) created
      fun other => references other - if other = id then 1 else 0 := by
  have there :
      (m.setRefCount id count).objects.lookup id = some { entry with refCount := count } := by
    rw [ObjectManager.setRefCount, lookup_modify, if_pos rfl, found, map_some]
  have lookups (other : ObjectId) :
      ((m.setRefCount id count).destroy text id).objects.lookup other =
      if other = id then none else m.objects.lookup other := by
    rw [ObjectManager.destroy, there]
    rw [lookup_erase, ObjectManager.setRefCount, lookup_modify]
    split <;> rfl
  have log : ((m.setRefCount id count).destroy text id).finalizedLog = m.finalizedLog ++ [id] := by
    rw [ObjectManager.destroy, there]
    rfl
  have issued : id ∈ created := tracked.issued id (by rw [found]; rfl)
  refine ⟨fun other old present => ?_, fun other => ?_, fun other => ?_, fun other => ?_,
    fun calls present => ?_,
    fun key other => ?_⟩
  · rw [lookups] at present
    split at present
    case isTrue => cases present
    case isFalse different => rw [tracked.counted _ _ present, if_neg different, Nat.sub_zero]
  · rw [lookups]
    by_cases same : other = id
    · subst same
      rw [if_pos rfl, if_pos rfl]
      exact iff_of_false Bool.false_ne_true (by omega)
    · rw [if_neg same, if_neg same]
      exact tracked.lives other
  · rw [lookups]
    split
    · exact fun present => absurd present Bool.false_ne_true
    · exact tracked.issued other
  · rw [log, lookups, List.count_append, tracked.finalised]
    by_cases same : other = id
    · subst same
      have live : ¬ (other ∈ created ∧ m.objects.lookup other = none) := by simp [found]
      rw [if_neg live, if_pos rfl, if_pos ⟨issued, rfl⟩, List.count_singleton_self]
    · have others : [id].count other = 0 := List.count_eq_zero_of_not_mem (by simpa using same)
      rw [if_neg same, others, Nat.add_zero]
  · rw [ObjectManager.destroy, there] at present
    obtain ⟨before, old, rfl⟩ := map_eq_some_iff.mp present
    rw [log, List.map_append, tracked.called before old]
    rfl
  · have named (other : ObjectId) := (tracked.named key other).trans exists_named_iff
    have own := named id
    rw [found, bind_some] at own
    rw [exists_named_iff, @names_destroy text _ _ _ there key, lookups]
    by_cases same : other = id
    · subst same
      rw [if_pos rfl]
      split
      case isTrue => simp
      case isFalse other => exact iff_of_false (other ∘ own.mp) (by simp)
    · rw [if_neg same, ← named]
      split
      case isTrue mine => rw [own.mpr mine, some.injEq]; exact iff_of_false (by simp) (Ne.symm same)
      case isFalse => rfl

theorem dropReference_tracked {id : ObjectId} (positive : 0 < references id) :
    ∃ remaining next, (dropReference text id).run m = .ok remaining next ∧
      next.processes = m.processes ∧
      Tracked text next created fun other => references other - if other = id then 1 else 0 := by
  obtain ⟨entry, found⟩ := isSome_iff_exists.mp ((tracked.lives id).mpr positive)
  have count := tracked.counted id entry found
  have nonzero : entry.refCount ≠ 0 := by
    intro zero
    rw [zero] at count
    exact absurd count.symm (Nat.ne_of_gt positive)
  have run : (dropReference text id).run m =
      if entry.refCount - 1 = 0 then
        .ok (entry.refCount - 1) ((m.setRefCount id (entry.refCount - 1)).destroy text id)
      else .ok (entry.refCount - 1) (m.setRefCount id (entry.refCount - 1)) := by
    rw [dropReference, read_bind_run, found]
    dsimp only [require]
    rw [if_neg nonzero]
    split <;> rfl
  have less : (entry.refCount - 1).toNat = references id - 1 := by
    bv_omega
  rw [run]
  split
  case isTrue zero =>
    have last : references id ≤ 1 := by
      rw [zero] at less
      have none : (0 : U32).toNat = 0 := rfl
      omega
    refine ⟨_, _, rfl, ?_, tracked.destroy found last _⟩
    rw [ObjectManager.destroy]
    split <;> rfl
  case isFalse some =>
    have more : 1 < references id := by
      have positiveLeft : (entry.refCount - 1).toNat ≠ 0 := fun zero => some (BitVec.eq_of_toNat_eq zero)
      omega
    refine ⟨_, _, rfl, rfl, tracked.setRefCount positive ?_ ?_ fun other different => ?_⟩
    · rw [if_pos rfl]
      omega
    · rw [if_pos rfl]
      exact less
    · rw [if_neg different, Nat.sub_zero]

theorem Tracked.register (absent : m.objects.lookup m.nextObjectId = none)
    (fresh : m.nextObjectId ∉ m.finalizedLog) (kind : ObjectType) (payload : ObjectPayload)
    (unused : ∀ canonical, name = some canonical → m.names.lookup (text.nameKey canonical) = none) :
    Tracked text (m.register text kind payload name) (created ++ [m.nextObjectId])
      fun other => references other + if other = m.nextObjectId then 1 else 0 := by
  have none : references m.nextObjectId = 0 := by
    have dead := (tracked.lives m.nextObjectId).not
    rw [absent] at dead
    exact Nat.eq_zero_of_not_pos (dead.mp Bool.false_ne_true)
  have unissued : m.nextObjectId ∉ created := by
    intro old
    have once := tracked.finalised m.nextObjectId
    rw [if_pos ⟨old, absent⟩] at once
    exact fresh (List.count_pos_iff.mp (by omega))
  have lookups (other : ObjectId) : (m.register text kind payload name).objects.lookup other =
      if other = m.nextObjectId then some ⟨m.nextObjectId, kind, name, payload, 1⟩ else m.objects.lookup other :=
    lookup_insert other
  refine ⟨fun other entry found => ?_, fun other => ?_, fun other => ?_, fun other => ?_,
    tracked.called,
    fun key other => ?_⟩
  · rw [lookups] at found
    split at found
    case isTrue same =>
      obtain rfl := some.inj found
      rw [same, none, if_pos rfl]
      rfl
    case isFalse different =>
      rw [if_neg different]
      exact tracked.counted other entry found
  · rw [lookups]
    split
    · exact iff_of_true rfl (by omega)
    · exact tracked.lives other
  · rw [lookups, List.mem_append]
    split
    case isTrue same => exact fun _ => .inr (List.mem_singleton.mpr same)
    case isFalse => exact fun present => .inl (tracked.issued other present)
  · rw [lookups]
    change m.finalizedLog.count other = _
    rw [tracked.finalised]
    by_cases same : other = m.nextObjectId
    · rw [same, if_neg fun both => unissued both.1, if_pos rfl, if_neg fun both => some_ne_none _ both.2]
    · simp only [List.mem_append, List.mem_singleton, same, or_false, if_false]
  · have named := (tracked.named key other).trans exists_named_iff
    rw [names_register, exists_named_iff, lookups]
    by_cases same : other = m.nextObjectId
    · subst same
      rw [absent] at named
      rw [if_pos rfl, bind_some, ObjectEntry.key]
      split
      case isTrue mine => exact iff_of_true rfl mine
      case isFalse other => exact iff_of_false (nofun ∘ named.mp) other
    · rw [if_neg same, ← named]
      split
      case isTrue mine =>
        obtain ⟨canonical, rfl, rfl⟩ := map_eq_some_iff.mp mine
        rw [unused canonical rfl, some.injEq]
        exact iff_of_false (Ne.symm same) nofun
      case isFalse => rfl

end Objects

/-! ## Handles -/

section Handles
variable {m : ObjectManager} {created : List ObjectId} {held : ObjectId → Nat} {process : U32}

variable (kept : WellKept m)
include kept

theorem handlesTo_allocate
    (free : (m.table process).handles.lookup (m.table process).nextHandle = none)
    (object : ObjectId) (access : U32) (inheritable : Bool) (id : ObjectId) :
    (m.allocate process object access inheritable).handlesTo id =
      m.handlesTo id + if id = object then 1 else 0 := by
  let weight (table : ProcessHandleTable) : Nat := total (HandleEntry.refers id) table.handles
  let entry : HandleEntry := ⟨(m.table process).nextHandle, object, access, inheritable⟩
  let next : ProcessHandleTable :=
    ⟨(m.table process).nextHandle + 4, insert (m.table process).nextHandle entry (m.table process).handles⟩
  have grown : weight next = weight (m.table process) + if id = object then 1 else 0 :=
    total_insert_of_absent (HandleEntry.refers id) free
  change total weight (insert process next m.processes) = total weight m.processes + _
  cases found : m.processes.lookup process with
  | none =>
    have new : weight (m.table process) = 0 := by
      rw [ObjectManager.table, found]
      rfl
    rw [total_insert_of_absent weight found, grown, new, Nat.zero_add]
  | some table =>
    have there : m.table process = table := by rw [ObjectManager.table, found, getD_some]
    have replaced := total_insert_of_present kept.processes weight next found
    rw [there] at grown
    omega

theorem handlesTo_remove (found : m.entry process handle = some entry) (id : ObjectId) :
    (m.remove process handle).handlesTo id + entry.refers id = m.handlesTo id := by
  obtain ⟨table, there, inTable⟩ := bind_eq_some_iff.mp found
  let weight (table : ProcessHandleTable) : Nat := total (HandleEntry.refers id) table.handles
  have erased :=
    total_erase (kept.tables _ (mem_of_lookup there)).ascending (HandleEntry.refers id) inTable
  have changed := total_modify kept.processes weight
    (fun table => { table with handles := erase handle table.handles }) there
  rw [ObjectManager.handlesTo, ObjectManager.handlesTo, remove]
  simp only [weight] at changed erased ⊢
  omega

omit kept in
theorem RoomFor.of_entries
    (counts : ∀ listed ∈ m.objects, listed.2.refCount.toNat + objects.count listed.1 < 2 ^ 32)
    (handles : ∀ k < objects.length,
      (m.table process).handles.lookup ((m.table process).nextHandle + ofNat 32 (4 * k)) = none)
    (distinct : objects.length ≤ 2 ^ 30) : RoomFor m process objects :=
  ⟨fun id entry found => counts (id, entry) (mem_of_lookup found), handles, distinct⟩

omit kept in
theorem RoomFor.tail (room : RoomFor m process (object :: rest))
    (found : m.objects.lookup object = some entry) :
    RoomFor ((m.setRefCount object (entry.refCount + 1)).allocate process object access inheritable) process rest := by
  have table : ((m.setRefCount object (entry.refCount + 1)).allocate process object access inheritable).table process =
      ⟨(m.table process).nextHandle + 4, insert (m.table process).nextHandle
        ⟨(m.table process).nextHandle, object, access, inheritable⟩ (m.table process).handles⟩ := by
    rw [ObjectManager.table, allocate, lookup_insert, if_pos rfl]
    rfl
  have length := room.distinct
  rw [List.length_cons] at length
  refine ⟨fun id changed present => ?_, fun k below => ?_, by omega⟩
  · rw [allocate, ObjectManager.setRefCount] at present
    rw [lookup_modify] at present
    split at present
    case isTrue same =>
      subst same
      rw [found, map_some, some.injEq] at present
      have limit := room.counts id entry found
      rw [List.count_cons_self] at limit
      have sum : (entry.refCount + 1).toNat = entry.refCount.toNat + 1 := by
        rw [BitVec.toNat_add]
        exact Nat.mod_eq_of_lt (show entry.refCount.toNat + 1 < 2 ^ 32 by omega)
      rw [← present]
      dsimp only
      omega
    case isFalse different =>
      have limit := room.counts id changed present
      rw [List.count_cons_of_ne (Ne.symm different)] at limit
      exact limit
  · rw [table]
    have next : (m.table process).nextHandle + 4 + ofNat 32 (4 * k) =
        (m.table process).nextHandle + ofNat 32 (4 * (k + 1)) := by
      rw [BitVec.add_assoc, Nat.mul_succ, Nat.add_comm, BitVec.ofNat_add]
      rfl
    have moved : (m.table process).nextHandle + ofNat 32 (4 * (k + 1)) ≠ (m.table process).nextHandle := by
      intro same
      have value := congrArg BitVec.toNat same
      rw [BitVec.toNat_add, BitVec.toNat_ofNat] at value
      omega
    rw [next, lookup_insert, if_neg moved]
    exact room.handles (k + 1) (by rw [List.length_cons]; omega)

variable (tracked : Tracked text m created fun id => held id + m.handlesTo id)
include tracked

/-- A grant is refused without an effect, or adds one handle and one reference. -/
theorem grantHandle_accounted (room : RoomFor m process (object :: rest)) (access : U32)
    (inheritable : Bool) :
    (∃ reason, (grantHandle process object access inheritable).run m = .error reason m) ∨
    ∃ handle next, (grantHandle process object access inheritable).run m = .ok handle next ∧
      WellKept next ∧ (Tracked text next created fun id => held id + next.handlesTo id) ∧
      RoomFor next process rest := by
  cases found : m.objects.lookup object with
  | none =>
    refine .inl ⟨.invalidHandle, ?_⟩
    rw [grantHandle, read_bind_run, found]
    rfl
  | some entry =>
    refine .inr ⟨(m.table process).nextHandle, (m.setRefCount object (entry.refCount + 1)).allocate process object
      (mapGenericAccess entry.kind access) inheritable, ?_, ?_, ?_, room.tail found⟩
    · rw [grantHandle, read_bind_run, found]
      rfl
    · exact allocate_wellKept (setRefCount_wellKept kept _ _) _ _ mapGenericAccess_free _
    · have limit := room.counts object entry found
      rw [List.count_cons_self] at limit
      have raised := tracked.raise found (by omega)
      have free : (m.table process).handles.lookup (m.table process).nextHandle = none := by
        have first := room.handles 0 (by rw [List.length_cons]; omega)
        rwa [show (m.table process).nextHandle + ofNat 32 (4 * 0) = (m.table process).nextHandle from
          BitVec.add_zero _] at first
      have grown := handlesTo_allocate (setRefCount_wellKept kept object (entry.refCount + 1)) free object
        (mapGenericAccess entry.kind access) inheritable
      have same : (fun id => held id + m.handlesTo id + if id = object then 1 else 0) = fun id =>
          held id + ((m.setRefCount object (entry.refCount + 1)).allocate process object
            (mapGenericAccess entry.kind access) inheritable).handlesTo id := by
        funext id
        rw [grown, Nat.add_assoc]
        rfl
      rw [← same]
      exact raised.processes _

theorem grantEach_accounted (entries : List HandleEntry)
    (room : RoomFor m process (entries.map HandleEntry.object)) :
    ∃ next, ((grantEach process entries).run m).state? = some next ∧
      Tracked text next created fun id => held id + next.handlesTo id := by
  induction entries generalizing m with
  | nil => exact ⟨m, rfl, tracked⟩
  | cons entry rest ih =>
    rw [grantEach]
    rcases grantHandle_accounted kept tracked room entry.access true with ⟨reason, refused⟩ |
      ⟨handle, middle, granted, keptNext, trackedNext, roomNext⟩
    · refine ⟨m, ?_, tracked⟩
      rw [bind_of_error refused]
      rfl
    · obtain ⟨next, ended, final⟩ := ih keptNext trackedNext roomNext
      refine ⟨next, ?_, final⟩
      rw [bind_of_ok granted, bind_pure_state]
      exact ended

/-- Closing a handle that is there gives back its reference. -/
theorem closeHandle_accounted (found : m.entry process handle = some entry) :
    ∃ next, (closeHandle text process handle).run m = .ok () next ∧ WellKept next ∧
      next.processes = (m.remove process handle).processes ∧
      Tracked text next created fun id => held id + next.handlesTo id := by
  have fewer := handlesTo_remove kept found
  have positive : 0 < held entry.object + m.handlesTo entry.object := by
    have own := fewer entry.object
    rw [HandleEntry.refers, if_pos rfl] at own
    omega
  have removed : Tracked text (m.remove process handle) created fun id =>
      held id + m.handlesTo id := tracked.processes _
  obtain ⟨remaining, next, dropped, processes, after⟩ := dropReference_tracked removed positive
  have run : (closeHandle text process handle).run m = .ok () next := by
    rw [closeHandle, read_bind_run, found]
    dsimp only [require]
    rw [modify_bind_run, bind_of_ok dropped]
    rfl
  refine ⟨next, run, ObjectManager.closeHandle_wellKept text process handle m next
    (by rw [run]; rfl) kept, processes, ?_⟩
  have same : (fun id => held id + m.handlesTo id - if id = entry.object then 1 else 0) =
      fun id => held id + next.handlesTo id := by
    funext id
    have less := fewer id
    have handles : next.handlesTo id = (m.remove process handle).handlesTo id := by
      rw [ObjectManager.handlesTo, processes]
      rfl
    rw [HandleEntry.refers] at less
    omega
  rw [← same]
  exact after

omit tracked in
/-- The table that loses its first handle. -/
theorem lookup_remove_head (there : m.processes.lookup process = some table)
    (first : table.handles = (handle, entry) :: rest) :
    (m.remove process handle).processes.lookup process = some { table with handles := rest } := by
  have ascending := (kept.tables _ (mem_of_lookup there)).ascending
  rw [first] at ascending
  rw [remove, lookup_modify, if_pos rfl, there, map_some, first, ascending.erase_head]

theorem closeEach_accounted (there : m.processes.lookup process = some table) :
    ∃ next, (forEach (closeHandle text process) (table.handles.map Prod.fst)).run m = .ok () next ∧
      WellKept next ∧ next.processes.lookup process = some { table with handles := [] } ∧
      Tracked text next created fun id => held id + next.handlesTo id := by
  -- the list of handles is taken before the loop: it is what the table holds at every round
  obtain ⟨nextHandle, handles⟩ := table
  induction handles generalizing m with
  | nil => exact ⟨m, rfl, kept, there, tracked⟩
  | cons head rest ih =>
    have found : m.entry process head.1 = some head.2 := by
      rw [ObjectManager.entry, there, bind_some, lookup_cons, if_pos rfl]
    obtain ⟨middle, closed, keptNext, processes, trackedNext⟩ :=
      closeHandle_accounted kept tracked found
    have thereNext : middle.processes.lookup process = some ⟨nextHandle, rest⟩ := by
      rw [processes]
      exact lookup_remove_head kept there rfl
    obtain ⟨next, ran, final⟩ := ih keptNext trackedNext thereNext
    refine ⟨next, ?_, final⟩
    rw [List.map_cons, forEach, bind_of_ok closed]
    exact ran

theorem closeProcess_accounted :
    ∃ count next, (closeProcess text process).run m = .ok count next ∧
      Tracked text next created fun id => held id + next.handlesTo id := by
  rw [closeProcess, get_bind_run]
  cases there : m.processes.lookup process with
  | none => exact ⟨0, m, rfl, tracked⟩
  | some table =>
    obtain ⟨next, ran, keptNext, empty, trackedNext⟩ := closeEach_accounted kept tracked there
    refine ⟨ofNat 32 (table.handles.map Prod.fst).length,
      { next with processes := erase process next.processes }, ?_, ?_⟩
    · rw [bind_of_ok ran]
      rfl
    · have same (id : ObjectId) : ObjectManager.handlesTo
          { next with processes := erase process next.processes } id = next.handlesTo id :=
        total_erase keptNext.processes (fun table => total (HandleEntry.refers id) table.handles) empty
      simp only [same]
      exact trackedNext.processes _

end Handles

/-! ## Steps and runs -/

section Steps
variable {history : History}

theorem History.step_of_run (ran : (operation.perform text).run history.manager = outcome) :
    history.step text operation =
      ⟨outcome.state?.getD history.manager, history.ledger.record operation outcome⟩ := by
  rw [step, Operation.apply, ran]

/-- An operation that hands out no reference and takes none back. -/
theorem History.accounted_of_carries (accounted : Accounted text history)
    (quiet : ∀ outcome, history.ledger.record operation outcome = history.ledger)
    (carried : Exec.Relates (Exec.Carries fun m => Tracked text m history.ledger.created fun id => history.ledger.held id + m.handlesTo id) (operation.perform text)) :
    Accounted text (history.step text operation) := by
  rw [step]
  rw [quiet]
  exact Operation.apply_carries carried accounted

theorem Tracked.setPayload (tracked : Tracked text m created references) (id : ObjectId)
    (payload : ObjectPayload) : Tracked text (m.setPayload id payload) created references := by
  refine tracked.modify id (fun entry => { entry with payload }) (fun _ => rfl) (fun _ => Iff.rfl)
    fun other entry found => ?_
  rw [← tracked.counted other entry found]
  split <;> rfl

theorem normalizeName_ne_panic (text : Text) : text.normalizeName name ≠ .panic := by
  refine bind_ne_panic refuse_ne_panic fun _ normal => ?_
  split at normal
  · split at normal <;> cases normal
  · cases normal

theorem createObject_run :
    (∃ reason, (createObject text kind payload name).run m = .error reason m) ∨
    ∃ normalized, (createObject text kind payload name).run m =
      .ok m.nextObjectId (m.register text kind payload normalized) ∧
      ∀ canonical, normalized = some canonical → m.names.lookup (text.nameKey canonical) = none := by
  rw [createObject, read_bind_run]
  by_cases mismatch : payload.kind ≠ kind
  · rw [refuse, if_pos mismatch]
    exact .inl ⟨_, rfl⟩
  · rw [refuse, if_neg mismatch]
    cases name with
    | none => exact .inr ⟨none, rfl, fun _ impossible => (some_ne_none _ impossible.symm).elim⟩
    | some name =>
      rw [read_bind_run]
      dsimp only
      cases normal : text.normalizeName name with
      | error reason => exact .inl ⟨reason, rfl⟩
      | panic => exact absurd normal (normalizeName_ne_panic text)
      | ok canonical =>
        rw [ok_bind]
        by_cases taken : (m.names.lookup (text.nameKey canonical)).isSome
        · rw [refuse_of taken]
          exact .inl ⟨_, rfl⟩
        · rw [refuse_of_not taken]
          refine .inr ⟨some canonical, rfl, fun other same => ?_⟩
          obtain rfl := some.inj same
          exact not_isSome_iff_eq_none.mp taken

theorem openObject_run : (∃ reason, (openObject text name kind).run m = .error reason m) ∨
    ∃ canonical id entry, text.normalizeName name = .ok canonical ∧
      m.names.lookup (text.nameKey canonical) = some id ∧ m.objects.lookup id = some entry ∧
      (openObject text name kind).run m = .ok id (m.setRefCount id (entry.refCount + 1)) := by
  rw [openObject, read_bind_run]
  cases normal : text.normalizeName name with
  | error reason => exact .inl ⟨reason, rfl⟩
  | panic => exact absurd normal (normalizeName_ne_panic text)
  | ok canonical =>
    dsimp only
    rw [read_bind_run]
    cases named : m.names.lookup (text.nameKey canonical) with
    | none => exact .inl ⟨_, rfl⟩
    | some id =>
      dsimp only [require]
      rw [read_bind_run]
      cases found : m.objects.lookup id with
      | none => exact .inl ⟨_, rfl⟩
      | some entry =>
        dsimp only
        by_cases mismatch : entry.kind ≠ kind
        · rw [refuse, if_pos mismatch]
          exact .inl ⟨_, rfl⟩
        · rw [refuse, if_neg mismatch]
          exact .inr ⟨canonical, id, entry, rfl, named, found, rfl⟩

theorem duplicateHandle_run :
    (∃ reason, (duplicateHandle source handle target desired inheritable).run m = .error reason m) ∨
    ∃ entry access, m.entry source handle = some entry ∧
      (duplicateHandle source handle target desired inheritable).run m =
        (grantHandle target entry.object access inheritable).run m := by
  rw [duplicateHandle, read_bind_run, ObjectManager.lookupHandle]
  by_cases null : handle = 0
  · rw [refuse_of null]
    exact .inl ⟨_, rfl⟩
  · rw [refuse_of_not null]
    cases there : m.entry source handle with
    | none => exact .inl ⟨_, rfl⟩
    | some entry =>
      dsimp only [require]
      rw [read_bind_run]
      cases found : m.objects.lookup entry.object with
      | none => exact .inl ⟨_, rfl⟩
      | some object =>
        dsimp only
        rw [refuse]
        by_cases denied : accessGranted entry.access
            (if desired = 0 then entry.access else mapGenericAccess object.kind desired) object.kind = false
        · rw [if_pos denied]
          exact .inl ⟨_, rfl⟩
        · rw [if_neg denied]
          exact .inr ⟨entry, _, rfl, rfl⟩

/-- A reference more in the hands of a caller. -/
theorem Ledger.hand_out {created : List ObjectId} {held : ObjectId → Nat} (id : ObjectId)
    (tracked : Tracked text m created fun other => held other + m.handlesTo other + if other = id then 1 else 0) :
    Tracked text m created fun other =>
      (held other + if other = id then 1 else 0) + m.handlesTo other := by
  simp only [Nat.add_right_comm] at tracked ⊢
  exact tracked

theorem History.step_accounted (kept : WellKept history.manager)
    (accounted : Accounted text history) (operation : Operation)
    (releases : history.Releases operation) (room : Room text history.manager operation) :
    Accounted text (history.step text operation) := by
  obtain ⟨m, held, created⟩ := history
  have tracked : Tracked text m created fun id => held id + m.handlesTo id := accounted
  have payloads (m : ObjectManager) (id : ObjectId) (payload : ObjectPayload)
      (before : Tracked text m created fun id => held id + m.handlesTo id) :
      Tracked text (m.setPayload id payload) created fun other => held other + (m.setPayload id payload).handlesTo other :=
    before.setPayload id payload
  cases operation with
  | createObject kind payload =>
    rcases createObject_run with ⟨reason, refused⟩ | ⟨normalized, done, unused⟩
    · rw [step_of_run (bind_of_error refused)]
      exact tracked
    · rw [step_of_run (bind_of_ok done)]
      exact Ledger.hand_out _ (tracked.register room.1 room.2 kind payload unused)
  | openObject =>
    rcases openObject_run with ⟨reason, refused⟩ | ⟨canonical, id, entry, normal, named, found, done⟩
    · rw [step_of_run (bind_of_error refused)]
      exact tracked
    · rw [step_of_run (bind_of_ok done)]
      exact Ledger.hand_out _ (tracked.raise found (room canonical id entry normal named found))
  | releaseObject id =>
    cases found : m.objects.lookup id with
    | none =>
      have refused : (releaseObject text id).run m = .error .invalidHandle m := by
        rw [releaseObject, dropReference, read_bind_run, found]
        rfl
      rw [step_of_run (bind_of_error refused)]
      exact tracked
    | some =>
      have outstanding : 0 < held id := releases (by dsimp only; rw [found]; rfl)
      obtain ⟨remaining, next, done, processes, after⟩ := dropReference_tracked tracked (Nat.add_pos_left outstanding _)
      rw [step_of_run (bind_of_ok done)]
      have same : (fun other => held other + m.handlesTo other - if other = id then 1 else 0) = fun other =>
          (held other - if other = id then 1 else 0) + next.handlesTo other := by
        funext other
        have handles : next.handlesTo other = m.handlesTo other := by
          rw [ObjectManager.handlesTo, processes]
          rfl
        rw [handles]
        by_cases here : other = id
        · subst here
          rw [if_pos rfl]
          omega
        · rw [if_neg here, Nat.sub_zero, Nat.sub_zero]
      rw [same] at after
      exact after
  | grantHandle process object access inheritable =>
    rcases grantHandle_accounted kept tracked room access inheritable with ⟨reason, refused⟩ | ⟨handle, next, done, -, after, -⟩
    · rw [step_of_run (bind_of_error refused)]
      exact tracked
    · rw [step_of_run (bind_of_ok done)]
      exact after
  | duplicateHandle source sourceHandle target desired inheritable =>
    rcases duplicateHandle_run with
      ⟨reason, refused⟩ | ⟨entry, access, there, granted⟩
    · rw [step_of_run (bind_of_error refused)]
      exact tracked
    · rcases grantHandle_accounted kept tracked (room entry there) access inheritable with
        ⟨reason, refused⟩ | ⟨handle, next, done, -, after, -⟩
      · rw [step_of_run (bind_of_error (granted.trans refused))]
        exact tracked
      · rw [step_of_run (bind_of_ok (granted.trans done))]
        exact after
  | closeHandle process handle =>
    cases found : m.entry process handle with
    | none =>
      have refused : (closeHandle text process handle).run m = .error .invalidHandle m := by
        rw [closeHandle, read_bind_run, found]
        rfl
      rw [step_of_run (bind_of_error refused)]
      exact tracked
    | some =>
      obtain ⟨next, done, -, -, after⟩ := closeHandle_accounted kept tracked found
      rw [step_of_run (bind_of_ok done)]
      exact after
  | closeProcess process =>
    obtain ⟨count, next, done, after⟩ :=
      @closeProcess_accounted text m created held process kept tracked
    rw [step_of_run (bind_of_ok done)]
    exact after
  | inheritHandles parent child =>
    obtain ⟨next, ended, after⟩ := grantEach_accounted kept tracked (m.inheritable parent) room
    have performed : ((Operation.perform text (.inheritHandles parent child)).run m).state? = some next :=
      bind_pure_state.trans ended
    rw [step, Operation.apply, performed]
    exact after
  | signal id signaled =>
    exact accounted_of_carries accounted (fun _ => rfl)
      (.bind (ObjectManager.signal_carries payloads id signaled) fun _ => .pure _)
  | acquireMutant id thread =>
    exact accounted_of_carries accounted (fun _ => rfl)
      (.bind (ObjectManager.acquireMutant_carries payloads id thread) fun _ => .pure _)
  | releaseMutant id thread =>
    exact accounted_of_carries accounted (fun _ => rfl)
      (.bind (ObjectManager.releaseMutant_carries payloads id thread) fun _ => .pure _)

theorem History.run_accounted (kept : WellKept history.manager) (accounted : Accounted text history)
    (operations : List Operation) (releases : history.Along text Releases operations)
    (room : history.Along text (fun history => Room text history.manager) operations) :
    ∀ taken, taken <+: operations → Accounted text (history.run text taken) := by
  induction operations generalizing history with
  | nil =>
    intro taken none
    rw [List.prefix_nil.mp none]
    exact accounted
  | cons operation rest ih =>
    have keptNext : WellKept (history.step text operation).manager :=
      Operation.apply_carries (operation.perform_wellKept text) kept
    have accountedNext := step_accounted kept accounted operation releases.1 room.1
    intro taken within
    cases taken with
    | nil => exact accounted
    | cons first taken =>
      obtain ⟨rfl, before⟩ := List.cons_prefix_cons.mp within
      exact ih keptNext accountedNext releases.2 room.2 taken before

theorem new_accounted (unused : ∀ made, calls = some made → made = []) :
    Accounted text ⟨{ ObjectManager.new with onFinalize := calls }, .empty⟩ := by
  refine ⟨fun id entry found => ?_, fun id => ?_, fun id present => ?_, fun id => ?_,
    fun made recorded => ?_,
    fun key id => ?_⟩
  · cases found
  · exact iff_of_false Bool.false_ne_true (Nat.lt_irrefl 0)
  · cases present
  · exact (if_neg fun both => absurd both.1 List.not_mem_nil).symm
  · rw [unused made recorded]
    rfl
  · refine iff_of_false (fun found => ?_) ?_
    · cases found
    · rintro ⟨entry, name, found, -⟩
      cases found

end Steps

/-- In a history in which callers give back no more than they were handed, and as long as no
counter wraps, the counts, the live objects, their finalisations and the names are exact. -/
theorem object_references_exact (text : Text) {m : ObjectManager}
    (fresh : m = .new ∨ m = .withFinalizer) (operations : List Operation)
    (releases : History.Along text History.Releases ⟨m, .empty⟩ operations)
    (room : History.Along text (fun history => Room text history.manager) ⟨m, .empty⟩ operations) :
    ∀ taken, taken <+: operations → Accounted text (History.run text ⟨m, .empty⟩ taken) := by
  rcases fresh with rfl | rfl
  all_goals
    refine History.run_accounted new_wellKept (new_accounted fun made recorded => ?_) operations releases room
  · cases recorded
  · exact (some.inj recorded).symm

/-- A named event with a handle in two processes. -/
def sharedEvent : List Operation :=
  [.createObject .event (.event false false) (some "e"), .grantHandle 7 1 genericRead true, .inheritHandles 7 8,
    .releaseObject 1, .closeProcess 7, .closeProcess 8]

/-- The event outlives its creator's reference and the first process and is finalised with the second. -/
theorem object_references_exact_event :
    Accounted ⟨id, id⟩ (History.run ⟨id, id⟩ ⟨.withFinalizer, .empty⟩ sharedEvent) ∧
      (History.run ⟨id, id⟩ ⟨.withFinalizer, .empty⟩ sharedEvent).manager.finalizedLog = [1] := by
  refine ⟨object_references_exact ⟨id, id⟩
    (.inr rfl) sharedEvent ?_ ?_ sharedEvent List.prefix_rfl, rfl⟩
  · exact ⟨trivial, trivial, trivial, fun _ => Nat.zero_lt_one, trivial, trivial, trivial⟩
  · refine ⟨⟨rfl, List.not_mem_nil⟩, ?_, ?_, trivial, trivial, trivial, trivial⟩
    · exact .of_entries (by decide) (by decide) (by decide)
    · exact .of_entries (by decide) (by decide) (by decide)

/-- In such a history every handle refers to a live object and holds no generic right. -/
theorem handles_refer_to_live_objects (text : Text) (operations : List Operation)
    (releases : History.Along text History.Releases ⟨.new, .empty⟩ operations)
    (room : History.Along text (fun history => Room text history.manager) ⟨.new, .empty⟩ operations) :
    ∀ taken, taken <+: operations →
      let m := (History.run text ⟨.new, .empty⟩ taken).manager
      ∀ process handle entry, m.entry process handle = some entry →
        (m.objects.lookup entry.object).isSome = true ∧ entry.access &&& generic = 0 := by
  intro taken within m process handle entry found
  have kept : WellKept m :=
    List.foldlRecOn (motive := (WellKept <| History.manager ·)) taken _ new_wellKept
    fun _ kept operation _ => Operation.apply_carries (operation.perform_wellKept text) kept
  have accounted := History.run_accounted new_wellKept
    (new_accounted (by simp)) operations releases room taken within
  constructor
  · have handles := handlesTo_remove kept found entry.object
    rw [HandleEntry.refers, if_pos rfl] at handles
    exact (accounted.lives entry.object).mpr (Nat.add_pos_right _ (handles ▸ Nat.succ_pos _))
  · rw [entry_eq_lookup] at found
    exact (kept.table process).free _ (mem_of_lookup found)

/-- The second process's handle, after the creator's reference and the first process are gone. -/
theorem handles_refer_to_live_objects_event :
    let m := (History.run ⟨id, id⟩ ⟨.new, .empty⟩ (sharedEvent.take 5)).manager
    m.entry 7 4 = none ∧ m.entry 8 4 = some ⟨4, 1, 0x100001, true⟩ ∧
      (m.objects.lookup 1).isSome = true := by
  have exact := handles_refer_to_live_objects ⟨id, id⟩ (sharedEvent.take 5)
    ⟨trivial, trivial, trivial, fun _ => Nat.zero_lt_one, trivial, trivial⟩
    ⟨⟨rfl, List.not_mem_nil⟩, .of_entries (by decide) (by decide) (by decide),
      .of_entries (by decide) (by decide) (by decide), trivial, trivial, trivial⟩
  exact ⟨rfl, rfl, (exact _ List.prefix_rfl 8 4 _ rfl).1⟩

/-! ## A count that wraps around -/

/-- The history of one named event with this count and as many references in the hands of callers. -/
def namedEvent (count : U32) (held : Nat) : History where
  manager := {
    ObjectManager.new with
    objects := [(1, ⟨1, .event, some "\\BaseNamedObjects\\e", .event false false, count⟩)]
    names := [("\\BaseNamedObjects\\e", 1)]
    nextObjectId := 2 }
  ledger := ⟨fun id => 0 + if id = 1 then held else 0, [1]⟩

theorem namedEvent_open :
    (namedEvent count held).step ⟨id, id⟩ (.openObject "e" .event) = namedEvent (count + 1) (held + 1) := by
  have ledger : (fun id : ObjectId => (0 + if id = 1 then held else 0) + if id = 1 then 1 else 0) =
      fun id => 0 + if id = 1 then held + 1 else 0 := by
    funext id
    split <;> rfl
  rw [show namedEvent (count + 1) (held + 1) =
    ⟨(namedEvent (count + 1) held).manager, _, [1]⟩ from rfl, ← ledger]
  rfl

theorem namedEvent_open_many (opens : Nat) (count : U32) (held : Nat) :
    (namedEvent count held).run ⟨id, id⟩ (List.replicate opens (.openObject "e" .event)) =
      namedEvent (count + ofNat 32 opens) (held + opens) := by
  induction opens generalizing count held with
  | zero =>
    rw [add_zero]
    rfl
  | succ opens ih =>
    rw [List.replicate_succ, History.run, List.foldl_cons, namedEvent_open]
    refine (ih (count + 1) (held + 1)).trans ?_
    rw [BitVec.add_assoc, Nat.add_assoc, Nat.add_comm opens, BitVec.ofNat_add]
    rfl

theorem namedEvent_releases (count : U32) (held : Nat) :
    (namedEvent count (held + 1)).Along ⟨id, id⟩ History.Releases
      (List.replicate opens (.openObject "e" .event) ++ [.releaseObject 1]) := by
  induction opens generalizing count held with
  | zero => exact ⟨fun _ => Nat.lt_add_left 0 (Nat.succ_pos held), trivial⟩
  | succ opens ih =>
    rw [List.replicate_succ, List.cons_append, History.Along, namedEvent_open]
    exact ⟨trivial, ih (count + 1) (held + 1)⟩

/-- As many opens as the count has values bring it back to one, and one release finalises the event. -/
theorem namedEvent_wraps (wraps : ofNat 32 opens = 0) :
    (namedEvent 1 1).run ⟨id, id⟩ (List.replicate opens (.openObject "e" .event) ++ [.releaseObject 1]) =
      (namedEvent 1 (1 + opens)).step ⟨id, id⟩ (.releaseObject 1) := by
  have opened := namedEvent_open_many opens 1 1
  rw [History.run] at opened ⊢
  rw [List.foldl_append, opened, wraps]
  rfl

/-- A named event, opened this many times and then released once. -/
def openedEvent (opens : Nat) : List Operation :=
  .createObject .event (.event false false) (some "e") ::
    (List.replicate opens (.openObject "e" .event) ++ [.releaseObject 1])

/-- The event is finalised while callers hold the references of all their opens. -/
theorem openedEvent_finalised (wraps : ofNat 32 opens = 0) (opened : 0 < opens) :
    History.Along ⟨id, id⟩ History.Releases ⟨.new, .empty⟩ (openedEvent opens) ∧
      (History.run ⟨id, id⟩ ⟨.new, .empty⟩ (openedEvent opens)).manager.objects.lookup 1 = none ∧
      (History.run ⟨id, id⟩ ⟨.new, .empty⟩ (openedEvent opens)).ledger.held 1 = opens ∧
      ¬ Accounted ⟨id, id⟩ (History.run ⟨id, id⟩ ⟨.new, .empty⟩ (openedEvent opens)) := by
  have run : History.run ⟨id, id⟩ ⟨.new, .empty⟩ (openedEvent opens) =
      (namedEvent 1 (1 + opens)).step ⟨id, id⟩ (.releaseObject 1) := namedEvent_wraps wraps
  have held : ((namedEvent 1 (1 + opens)).step ⟨id, id⟩ (.releaseObject 1)).ledger.held 1 = opens :=
    show 0 + (1 + opens) - 1 = opens by omega
  constructor
  · exact ⟨trivial, namedEvent_releases 1 0⟩
  · rw [run]
    refine ⟨rfl, held, fun accounted => ?_⟩
    have alive := (accounted.lives 1).mpr (by rw [held]; exact Nat.add_pos_left opened _)
    exact absurd alive Bool.false_ne_true

/-- An event that is finalised while callers hold `2 ^ 32` references to it. -/
theorem open_count_wraps :
    ∃ operations, History.Along ⟨id, id⟩ History.Releases ⟨.new, .empty⟩ operations ∧
      (History.run ⟨id, id⟩ ⟨.new, .empty⟩ operations).manager.objects.lookup 1 = none ∧
      (History.run ⟨id, id⟩ ⟨.new, .empty⟩ operations).ledger.held 1 = 2 ^ 32 ∧
      ¬ Accounted ⟨id, id⟩ (History.run ⟨id, id⟩ ⟨.new, .empty⟩ operations) := by
  have wraps : ofNat 32 (2 ^ 32) = 0 := by decide
  have opened : 0 < 2 ^ 32 := Nat.two_pow_pos 32
  -- a list of this length must not be evaluated
  generalize 2 ^ 32 = opens at wraps opened ⊢
  exact ⟨openedEvent opens, openedEvent_finalised wraps opened⟩

end Casa.Casak.Object
