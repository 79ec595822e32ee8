import Casa.Lib.Along
import Casa.Win32.CloseHandle

/-! Named events, mutexes and semaphores: over every sequence of calls that create, open and close
them, what becomes of the handles that the calls returned. -/
namespace Casa.Win32.Objects
open Effect Objects.Subsystem Objects.HandleEntry OrderedMap List Exec HandleTable BitVec
open ObjectManager (handleCount handleRemoved)
open Option (map_eq_some_iff map_some)

/-! ## Well-kept tables -/

def HandleEntry.refersTo (id : ObjectId) (entry : HandleEntry) : Nat :=
  if entry.objectId = id then 1 else 0

/-- Every live handle has a value of its own and is counted at its object. -/
structure WellKept (s : Subsystem) : Prop where
  ascending : OrderedMap.Ascending s.table.entries
  live : ∀ handle entry, s.table.entries.lookup handle = some entry →
    handle.toNat < s.table.nextHandle.toNat ∧ entry.objectId < s.manager.nextObjectId
  closed : ∀ handle ∈ s.table.closedHandleValues,
    handle.toNat < s.table.nextHandle.toNat ∧ s.table.entries.lookup handle = none
  distinct : s.table.closedHandleValues.Nodup
  known : ∀ id record, s.manager.objects.lookup id = some record → id < s.manager.nextObjectId
  counted : ∀ id,
    OrderedMap.total (HandleEntry.refersTo id) s.table.entries ≤ (s.manager.handleCount id).toNat

theorem wellKept_new : WellKept new := by
  refine ⟨List.Pairwise.nil, ?_, ?_, nodup_nil, ?_, fun id => Nat.zero_le _⟩
  · intro handle entry there
    cases there
  · intro handle member
    cases member
  · intro id record known
    cases known

def ValueLeft (s : Subsystem) : Prop :=
  s.table.closedHandleValues ≠ [] ∨ s.table.nextHandle ≠ BitVec.allOnes 32

/-- The object that a handle refers to is of a type. -/
def Refers (s : Subsystem) (handle : Handle) (id : ObjectId) (objectType : ObjectType) : Prop :=
  (s.table.entries.lookup handle).map HandleEntry.objectId = some id ∧
    (s.manager.objects.lookup id).map ObjectRecord.objectType = some objectType

namespace HandlesKept

theorem wellKept (same : HandlesKept s t) (kept : WellKept s) : WellKept t := by
  obtain ⟨ascending, live, closed, distinct, known, counted⟩ := kept
  refine ⟨?_, ?_, ?_, ?_, fun id record there => ?_, fun id => ?_⟩
  · rwa [same.table]
  · rwa [same.table, same.nextObjectId]
  · rwa [same.table]
  · rwa [same.table]
  · have types := same.types id
    rw [there] at types
    obtain ⟨before, found, _⟩ := map_eq_some_iff.mp types.symm
    rw [same.nextObjectId]
    exact known id before found
  · rw [same.table, handleCount, same.handleCounts]
    exact counted id

theorem refers (same : HandlesKept s t) {id : ObjectId} (before : Refers s handle id objectType) :
    Refers t handle id objectType := by
  refine ⟨?_, (same.types id).trans before.2⟩
  rw [same.table]
  exact before.1

end HandlesKept

theorem freeValue_absent (kept : WellKept s) : s.table.entries.lookup s.table.freeValue = none := by
  cases values : s.table.closedHandleValues with
  | cons value rest =>
    have first : s.table.freeValue = value := by rw [freeValue, values, headD_cons]
    rw [first]
    exact (kept.closed value (by rw [values]; exact mem_cons_self)).2
  | nil =>
    have next : s.table.freeValue = s.table.nextHandle := by rw [freeValue, values, headD_nil]
    rw [next]
    cases there : s.table.entries.lookup s.table.nextHandle with
    | none => rfl
    | some entry => exact absurd (kept.live _ entry there).1 (Nat.lt_irrefl _)

theorem saturatingNext_gt (left : handle ≠ allOnes 32) :
    handle.toNat < (Subsystem.saturatingNext handle).toNat := by
  have ones : (allOnes 32).toNat = 2 ^ 32 - 1 := toNat_allOnes
  rw [Subsystem.saturatingNext]
  split <;> bv_omega

theorem toNat_le_saturatingNext : handle.toNat ≤ (Subsystem.saturatingNext handle).toNat := by
  have ones : (allOnes 32).toNat = 2 ^ 32 - 1 := toNat_allOnes
  rw [Subsystem.saturatingNext]
  split <;> bv_omega

def minted (id : ObjectId) (accessMask : U32) (inheritable : Bool) (objectType : ObjectType)
    (s : Subsystem) : Subsystem :=
  { s with
    table := (s.table.insert id accessMask inheritable).recordHistory s.table.freeValue objectType
    manager := s.manager.handleAdded id }

theorem insertObjectId_eq_ok {id : ObjectId} {accessMask : U32} {inheritable : Bool} :
    (insertObjectId id accessMask inheritable).run s = .ok handle t ↔
      ∃ record, s.manager.objects.lookup id = some record ∧ handle = s.table.freeValue ∧
        t = minted id accessMask inheritable record.objectType s := by
  rw [insertObjectId, get_bind_run, read_bind_run, ObjectManager.record]
  cases known : s.manager.objects.lookup id with
  | none => simp [Result.expect]
  | some =>
    dsimp only [Result.expect]
    simp [minted, eq_comm]

section Minted
variable (id : ObjectId) (accessMask : U32) (inheritable : Bool) (objectType : ObjectType)

theorem lookup_minted (handle : Handle) :
    ((minted id accessMask inheritable objectType s).table.entries.lookup handle).map objectId =
      if handle = s.table.freeValue then some id else (s.table.entries.lookup handle).map objectId := by
  rw [minted, recordHistory, HandleTable.insert]
  rw [lookup_insert]
  split <;> rfl

theorem nextHandle_minted (kept : WellKept s) (left : ValueLeft s) :
    s.table.freeValue.toNat < (minted id accessMask inheritable objectType s).table.nextHandle.toNat ∧
      s.table.nextHandle.toNat ≤ (minted id accessMask inheritable objectType s).table.nextHandle.toNat := by
  simp only [minted, HandleTable.insert, freeValue]
  cases values : s.table.closedHandleValues with
  | cons value rest =>
    exact ⟨(kept.closed value (by rw [values]; exact mem_cons_self)).1, Nat.le_refl _⟩
  | nil =>
    rcases left with some | next
    · exact absurd values some
    · exact ⟨saturatingNext_gt next, toNat_le_saturatingNext⟩

theorem handleCount_handleAdded (manager : ObjectManager) (id other : ObjectId) :
    (manager.handleAdded id).handleCount other =
      if other = id then saturatingSucc (manager.handleCount id) else manager.handleCount other := by
  rw [handleCount, ObjectManager.handleAdded, lookup_insert]
  split <;> rfl

theorem refersTo_le_one (id : ObjectId) (entry : HandleEntry) : entry.refersTo id ≤ 1 := by
  rw [refersTo]
  split <;> omega

/-- There are no more handles to an object than values. -/
theorem total_le_bound {entries : List (Handle × HandleEntry)}
    (ascending : OrderedMap.Ascending entries)
    (below : ∀ handle entry, entries.lookup handle = some entry → handle.toNat < bound)
    (id : ObjectId) : total (refersTo id) entries ≤ bound := by
  refine (total_le_length (refersTo_le_one id) _).trans ?_
  refine ascending.length_le BitVec.toNat ?_ ?_
  · intro a b less
    exact Nat.ne_of_lt less
  · intro entry member
    exact below entry.1 entry.2 (ascending.lookup_iff.mpr member)

theorem minted_wellKept (kept : WellKept s) (left : ValueLeft s)
    (known : id < s.manager.nextObjectId) :
    WellKept (minted id accessMask inheritable objectType s) := by
  obtain ⟨own, more⟩ := nextHandle_minted id accessMask inheritable objectType kept left
  have absent := freeValue_absent kept
  have lookup (handle : Handle) :=
    lookup_minted (s := s) id accessMask inheritable objectType handle
  have live : ∀ handle entry,
      (minted id accessMask inheritable objectType s).table.entries.lookup handle = some entry →
      handle.toNat < (minted id accessMask inheritable objectType s).table.nextHandle.toNat ∧
        entry.objectId < s.manager.nextObjectId := by
    intro handle entry there
    have object := lookup handle
    rw [there] at object
    split at object
    · rename_i same
      rw [same, Option.some.inj object]
      exact ⟨own, known⟩
    · obtain ⟨before, found, same⟩ := map_eq_some_iff.mp object.symm
      obtain ⟨below, there⟩ := kept.live handle before found
      exact ⟨Nat.lt_of_lt_of_le below more, same ▸ there⟩
  have ascending :
      OrderedMap.Ascending (minted id accessMask inheritable objectType s).table.entries :=
    insert_ascending kept.ascending
  refine ⟨ascending, live, fun handle member => ?_, ?_, kept.known, fun other => ?_⟩
  · -- the values that are still to be reused
    have before : handle ∈ s.table.closedHandleValues := mem_of_mem_tail member
    obtain ⟨below, dead⟩ := kept.closed handle before
    refine ⟨Nat.lt_of_lt_of_le below more, ?_⟩
    have differs : handle ≠ s.table.freeValue := by
      rintro rfl
      cases values : s.table.closedHandleValues with
      | nil => rw [values] at before; cases before
      | cons value rest =>
        have distinct := kept.distinct
        have inTail : s.table.freeValue ∈ s.table.closedHandleValues.tail := member
        rw [freeValue, values] at inTail
        rw [values] at distinct
        exact (nodup_cons.mp distinct).1 inTail
    have object := lookup handle
    rw [if_neg differs, dead, Option.map_none, Option.map_eq_none_iff] at object
    exact object
  · exact kept.distinct.sublist (tail_sublist _)
  · have total : total (refersTo other) (minted id accessMask inheritable objectType s).table.entries =
        total (refersTo other) s.table.entries + if id = other then 1 else 0 :=
      total_insert_of_absent _ absent
    have most :=
      total_le_bound ascending (fun handle entry there => (live handle entry there).1) other
    have counted := kept.counted other
    have ones : (allOnes 32).toNat = 2 ^ 32 - 1 := toNat_allOnes
    have count : (minted id accessMask inheritable objectType s).manager.handleCount other =
        if other = id then saturatingSucc (s.manager.handleCount id) else s.manager.handleCount other :=
      handleCount_handleAdded s.manager id other
    rw [count]
    by_cases same : other = id
    · subst same
      rw [if_pos rfl] at total
      rw [if_pos rfl, saturatingSucc]
      split
      · rename_i saturated
        rw [saturated]
        omega
      · bv_omega
    · rw [if_neg (Ne.symm same)] at total
      rw [if_neg same]
      omega

/-- A new handle does not take the place of another. -/
theorem minted_refers (kept : WellKept s) (before : Refers s handle other wanted) :
    Refers (minted id accessMask inheritable objectType s) handle other wanted := by
  refine ⟨?_, before.2⟩
  have differs : handle ≠ s.table.freeValue := by
    rintro rfl
    have there := before.1
    rw [freeValue_absent kept] at there
    cases there
  rw [lookup_minted, if_neg differs]
  exact before.1

theorem minted_refers_new (there : s.manager.objects.lookup id = some record) :
    Refers (minted id accessMask inheritable objectType s) s.table.freeValue id record.objectType := by
  constructor
  · rw [lookup_minted, if_pos rfl]
  · exact congrArg (Option.map ObjectRecord.objectType) there

end Minted

/-- The state after a new object that has no handle yet. -/
def withObject (name : Option Name) (object : KernelObject) (s : Subsystem) : Subsystem :=
  { s with manager := s.manager.insert name object }

theorem withObject_known (name : Option Name) (object : KernelObject) (s : Subsystem) :
    ∃ record,
      (withObject name object s).manager.objects.lookup s.manager.nextObjectId = some record ∧
      record.objectType = object.objectType := by
  refine ⟨⟨object, name.map canonicalObjectName⟩, ?_, rfl⟩
  rw [withObject, ObjectManager.insert, lookup_insert, if_pos rfl]

theorem withObject_wellKept (name : Option Name) (object : KernelObject) (kept : WellKept s) :
    WellKept (withObject name object s) := by
  refine ⟨kept.ascending, fun handle entry there => ?_, kept.closed, kept.distinct,
    fun id record there => ?_, fun id => ?_⟩
  · obtain ⟨below, known⟩ := kept.live handle entry there
    exact ⟨below, Nat.lt_succ_of_lt known⟩
  · rw [withObject, ObjectManager.insert] at there ⊢
    rw [lookup_insert] at there
    split at there
    · rename_i same
      rw [same]
      exact Nat.lt_succ_self _
    · exact Nat.lt_succ_of_lt (kept.known id record there)
  · have count : (withObject name object s).manager.handleCount id =
        if id = s.manager.nextObjectId then 0 else s.manager.handleCount id := by
      rw [withObject, ObjectManager.insert, handleCount]
      rw [lookup_insert]
      split <;> rfl
    rw [count]
    split
    · -- nothing can refer to an id that was not given out
      rename_i same
      refine Nat.le_of_eq (total_eq_zero fun entry member => ?_)
      have there := kept.ascending.lookup_iff.mpr member
      have known := (kept.live entry.1 entry.2 there).2
      rw [refersTo, if_neg (Nat.ne_of_lt (same ▸ known))]
    · exact kept.counted id

theorem withObject_refers (name : Option Name) (object : KernelObject) (kept : WellKept s)
    {id : ObjectId} (before : Refers s handle id wanted) :
    Refers (withObject name object s) handle id wanted := by
  refine ⟨before.1, ?_⟩
  obtain ⟨record, there, _⟩ := map_eq_some_iff.mp before.2
  have known := kept.known id record there
  rw [withObject, ObjectManager.insert]
  rw [lookup_insert, if_neg (Nat.ne_of_lt known)]
  exact before.2

/-- What a call leaves of the handles that were there. -/
structure Keeps (s t : Subsystem) : Prop where
  wellKept : WellKept t
  refers : ∀ handle id objectType, Refers s handle id objectType → Refers t handle id objectType

/-- The answer of a call is a handle to an object of the wanted type, or none. -/
def Serves (wanted : ObjectType) (s : Subsystem) : Outcome Subsystem Failure (Option Handle) → Prop
  | .ok answer t => Keeps s t ∧ ∀ handle, answer = some handle → ∃ id, Refers t handle id wanted
  | .error _ t => Keeps s t
  | .panic => True

theorem Keeps.refl (kept : WellKept s) : Keeps s s := ⟨kept, fun _ _ _ before => before⟩

/-! ## The calls -/

inductive Call where
  | createEvent (manualReset initialState inheritable : Bool) (name : Option Name)
  | openEvent (desiredAccess : U32) (inheritable : Bool) (name : Name)
  | openNamedEvent (name : Name)
  | createNamedMutex (name : Name) (initiallyOwned inheritable : Bool)
  | openNamedMutex (name : Name)
  | createNamedSemaphore (name : Name) (initialCount maximum : U32) (inheritable : Bool)
  | openNamedSemaphore (name : Name)
  | closeHandle (host : Host) (handle : Handle)

namespace Call

def wanted : Call → Option ObjectType
  | .createEvent _ _ _ _ | .openEvent _ _ _ | .openNamedEvent _ => some .event
  | .createNamedMutex _ _ _ | .openNamedMutex _ => some .mutex
  | .createNamedSemaphore _ _ _ _ | .openNamedSemaphore _ => some .semaphore
  | .closeHandle _ _ => none

def perform : Call → Exec Subsystem Failure (Option Handle)
  | .createEvent manualReset initialState inheritable name => do
    let (handle, _) ← Subsystem.createEvent manualReset initialState inheritable name
    pure (some handle)
  | .openEvent desiredAccess inheritable name => do
    let handle ← Subsystem.openEvent desiredAccess inheritable name
    pure (some handle)
  | .openNamedEvent name => Subsystem.openNamedEvent name
  | .createNamedMutex name initiallyOwned inheritable => do
    let (handle, _) ← Subsystem.createNamedMutex name initiallyOwned inheritable
    pure (some handle)
  | .openNamedMutex name => Subsystem.openNamedMutex name
  | .createNamedSemaphore name initialCount maximum inheritable => do
    let (handle, _) ← Subsystem.createNamedSemaphore name initialCount maximum inheritable
    pure (some handle)
  | .openNamedSemaphore name => Subsystem.openNamedSemaphore name
  | .closeHandle host handle => do
    Subsystem.closeHandle host handle
    pure none

end Call

def NamesOnly (s : Subsystem) (name : Name) (objectType : ObjectType) : Prop :=
  ∀ id, s.manager.resolve name = some id →
    (s.manager.objects.lookup id).map ObjectRecord.objectType = some objectType

/-- An answer that is found without any change. -/
theorem serves_found (kept : WellKept s)
    (found : ∀ handle, answer = some handle → ∃ id, Refers s handle id wanted) :
    Serves wanted s (.ok answer s) :=
  ⟨.refl kept, found⟩

/-- A handle that is new. -/
theorem serves_granted {id : ObjectId} (keeps : Keeps s t) (own : Refers t handle id wanted) :
    Serves wanted s (.ok (some handle) t) := by
  refine ⟨keeps, fun other answer => ?_⟩
  cases answer
  exact ⟨id, own⟩

theorem serves_insertObjectId {id : ObjectId} (accessMask : U32) (inheritable : Bool)
    (kept : WellKept s) (left : ValueLeft s)
    (typed : (s.manager.objects.lookup id).map ObjectRecord.objectType = some wanted) :
    ∃ t, (insertObjectId id accessMask inheritable).run s = .ok s.table.freeValue t ∧ Keeps s t ∧
      Refers t s.table.freeValue id wanted := by
  obtain ⟨record, there, rfl⟩ := map_eq_some_iff.mp typed
  refine ⟨minted id accessMask inheritable record.objectType s,
    insertObjectId_eq_ok.mpr ⟨record, there, rfl, rfl⟩, ?_, ?_⟩
  · refine ⟨minted_wellKept _ _ _ _ kept left (kept.known id record there), ?_⟩
    intro handle other wanted before
    exact minted_refers _ _ _ _ kept before
  · exact minted_refers_new _ _ _ _ there

theorem serves_insertObjectNamed (name : Option Name) (accessMask : U32) (inheritable : Bool)
    (object : KernelObject) (kept : WellKept s) (left : ValueLeft s) :
    ∃ t, (insertObjectNamed name accessMask inheritable object).run s = .ok s.table.freeValue t ∧
      Keeps s t ∧ Refers t s.table.freeValue s.manager.nextObjectId object.objectType := by
  obtain ⟨record, there, typed⟩ := withObject_known name object s
  obtain ⟨t, ran, after, own⟩ :=
    serves_insertObjectId (s := withObject name object s) accessMask inheritable
    (withObject_wellKept name object kept) left (by rw [there, map_some, typed])
  refine ⟨t, ran, ⟨after.wellKept, ?_⟩, own⟩
  intro handle id wanted before
  exact after.refers handle id wanted (withObject_refers name object kept before)

theorem createEvent_serves (manualReset initialState inheritable : Bool) (name : Option Name)
    (kept : WellKept s) (left : ValueLeft s)
    (typed : ∀ given, name = some given → NamesOnly s given .event) :
    Serves .event s ((Call.createEvent manualReset initialState inheritable name).perform.run s) := by
  rw [Call.perform, Subsystem.createEvent, bind_assoc, get_bind_run]
  cases resolved : name.bind s.manager.resolve with
  | some id =>
    obtain ⟨given, rfl, found⟩ := Option.bind_eq_some_iff.mp resolved
    obtain ⟨t, ran, keeps, own⟩ :=
      serves_insertObjectId 0x1F0003 inheritable kept left (typed given rfl id found)
    rw [bind_assoc, bind_of_ok ran]
    exact serves_granted keeps own
  | none =>
    obtain ⟨t, ran, keeps, own⟩ :=
      serves_insertObjectNamed name 0x1F0003 inheritable (.event manualReset initialState) kept left
    rw [bind_assoc, bind_of_ok ran]
    exact serves_granted keeps own

theorem openEvent_serves (desiredAccess : U32) (inheritable : Bool) (name : Name)
    (kept : WellKept s) (left : ValueLeft s) (typed : NamesOnly s name .event) :
    Serves .event s ((Call.openEvent desiredAccess inheritable name).perform.run s) := by
  rw [Call.perform, Subsystem.openEvent, bind_assoc, get_bind_run]
  cases resolved : s.manager.resolve name with
  | some id =>
    obtain ⟨t, ran, keeps, own⟩ :=
      serves_insertObjectId desiredAccess inheritable kept left (typed id resolved)
    rw [bind_of_ok ran]
    exact serves_granted keeps own
  | none => exact Keeps.refl kept

theorem openNamedEvent_serves (name : Name) (kept : WellKept s) (left : ValueLeft s)
    (typed : NamesOnly s name .event) :
    Serves .event s ((Call.openNamedEvent name).perform.run s) := by
  rw [Call.perform, Subsystem.openNamedEvent, get_bind_run]
  cases resolved : s.manager.resolve name with
  | some id =>
    obtain ⟨t, ran, keeps, own⟩ :=
      serves_insertObjectId 0x1F0003 false kept left (typed id resolved)
    rw [bind_of_ok ran]
    exact serves_granted keeps own
  | none =>
    refine serves_found kept fun handle answer => ?_
    cases answer

/-- The handle that is found for an object refers to it. -/
theorem findHandleForObject_refers (kept : WellKept s) {id : ObjectId}
    (found : s.findHandleForObject id = some handle) :
    (s.table.entries.lookup handle).map objectId = some id := by
  obtain ⟨entry, first, rfl⟩ := map_eq_some_iff.mp found
  have same : entry.2.objectId = id := by simpa using find?_some first
  rw [kept.ascending.lookup_iff.mpr (mem_of_find?_eq_some first), map_some, same]

theorem createNamed_serves (name : Name) (accessMask : U32) (inheritable : Bool)
    (object : KernelObject) (kept : WellKept s) (left : ValueLeft s) :
    Serves object.objectType s ((do
      let (handle, _) ← createNamed name accessMask inheritable object
      pure (some handle) : Exec Subsystem Failure (Option Handle)).run s) := by
  rw [createNamed, bind_assoc, read_bind_run]
  cases found : existing name object.objectType s with
  | error => exact Keeps.refl kept
  | panic => trivial
  | ok answer =>
    cases answer with
    | none =>
      obtain ⟨t, ran, keeps, own⟩ := serves_insertObjectNamed (some name) accessMask inheritable object kept left
      dsimp only
      rw [bind_assoc, bind_of_ok ran]
      exact serves_granted keeps own
    | some =>
      refine serves_found kept fun handle answer => ?_
      cases answer
      rw [existing] at found
      cases resolved : s.manager.resolve name with
      | none => rw [resolved] at found; cases found
      | some id =>
        rw [resolved] at found
        obtain ⟨record, there, rest⟩ := Result.bind_eq_ok.mp found
        rw [Result.pure_eq, Result.ok.injEq] at rest
        split at rest
        · rename_i typed
          refine ⟨id, findHandleForObject_refers kept rest, ?_⟩
          rw [Result.expect_eq_ok.mp there, map_some, typed]
        · cases rest

theorem openNamed_serves (name : Name) (kept : WellKept s) (typed : NamesOnly s name wanted) :
    Serves wanted s ((openNamed name).run s) := by
  refine serves_found kept fun handle answer => ?_
  obtain ⟨id, resolved, found⟩ := Option.bind_eq_some_iff.mp answer
  exact ⟨id, findHandleForObject_refers kept found, typed id resolved⟩

/-! ### Closing -/

theorem handleCount_handleRemoved (manager : ObjectManager) (id other : ObjectId) :
    ((manager.handleRemoved id).handleCount other).toNat =
      if other = id then (manager.handleCount id).toNat - 1 else (manager.handleCount other).toNat := by
  rw [handleRemoved]
  split
  · rw [handleCount, lookup_insert]
    split
    · rw [Option.getD_some]
      bv_omega
    · rfl
  · rw [ObjectManager.drop, handleCount, lookup_erase]
    split
    · rename_i last same
      have : (manager.handleCount id).toNat - 1 = 0 := by omega
      rw [this]
      rfl
    · rfl

/-- An object with a handle left, and every other object, stays. -/
theorem lookup_handleRemoved (manager : ObjectManager) {id : ObjectId}
    (left : other = id → 1 < (manager.handleCount id).toNat) :
    (manager.handleRemoved id).objects.lookup other = manager.objects.lookup other := by
  rw [handleRemoved]
  split
  · rfl
  · rename_i last
    rw [ObjectManager.drop, lookup_erase, if_neg fun same => last (left same)]

theorem nextObjectId_handleRemoved (manager : ObjectManager) (id : ObjectId) :
    (manager.handleRemoved id).nextObjectId = manager.nextObjectId := by
  rw [handleRemoved]
  split <;> rfl

theorem mem_handleRemoved (manager : ObjectManager) {id : ObjectId}
    (there : (manager.handleRemoved id).objects.lookup other = some record) :
    manager.objects.lookup other = some record := by
  rw [handleRemoved] at there
  split at there
  · exact there
  · rw [ObjectManager.drop, lookup_erase] at there
    split at there
    · cases there
    · exact there

/-- The state after a handle is gone from the table and from the count of its object. -/
structure Gone (handle : Handle) (entry : HandleEntry) (s t : Subsystem) : Prop where
  table : t.table = s.table.forget handle
  manager : t.manager = s.manager.handleRemoved entry.objectId

section Gone
variable {entry : HandleEntry}

variable (gone : Gone handle entry s t)
include gone

theorem Gone.total (kept : WellKept s) (there : s.table.entries.lookup handle = some entry)
    (id : ObjectId) :
    total (refersTo id) t.table.entries + entry.refersTo id =
      total (refersTo id) s.table.entries := by
  rw [gone.table]
  exact total_erase kept.ascending _ there

theorem Gone.lookup (other : Handle) :
    t.table.entries.lookup other = if other = handle then none
      else s.table.entries.lookup other := by
  rw [gone.table]
  exact lookup_erase other

theorem Gone.wellKept (kept : WellKept s) (there : s.table.entries.lookup handle = some entry) :
    WellKept t := by
  have next : t.table.nextHandle = s.table.nextHandle := by rw [gone.table]; rfl
  have ids : t.manager.nextObjectId = s.manager.nextObjectId := by
    rw [gone.manager, nextObjectId_handleRemoved]
  have values : t.table.closedHandleValues = s.table.closedHandleValues ++ [handle] := by
    rw [gone.table]; rfl
  refine ⟨?_, fun other value found => ?_, fun other member => ?_, ?_, fun id record found => ?_,
    fun id => ?_⟩
  · rw [gone.table]
    exact erase_ascending kept.ascending handle
  · rw [gone.lookup] at found
    rw [next, ids]
    split at found
    · cases found
    · exact kept.live other value found
  · rw [values, mem_append, mem_singleton] at member
    rw [next, gone.lookup]
    rcases member with before | rfl
    · obtain ⟨below, dead⟩ := kept.closed other before
      refine ⟨below, ?_⟩
      split
      · rfl
      · exact dead
    · exact ⟨(kept.live other entry there).1, if_pos rfl⟩
  · rw [values, nodup_append]
    refine ⟨kept.distinct, pairwise_singleton _ handle, fun value member other own => ?_⟩
    rw [mem_singleton] at own
    rintro rfl
    subst own
    rw [(kept.closed _ member).2] at there
    cases there
  · rw [ids]
    rw [gone.manager] at found
    exact kept.known id record (mem_handleRemoved s.manager found)
  · have total := gone.total kept there id
    have counted := kept.counted id
    rw [refersTo] at total
    rw [gone.manager, handleCount_handleRemoved]
    by_cases same : entry.objectId = id
    · subst same
      rw [if_pos rfl] at total ⊢
      omega
    · rw [if_neg (Ne.symm same)]
      omega

/-- The other handles keep their objects: an object with another handle is not dropped. -/
theorem Gone.refers (kept : WellKept s) (there : s.table.entries.lookup handle = some entry)
    (differs : other ≠ handle) {id : ObjectId} (before : Refers s other id wanted) :
    Refers t other id wanted := by
  have still : t.table.entries.lookup other = s.table.entries.lookup other := by
    rw [gone.lookup, if_neg differs]
  refine ⟨by rw [still]; exact before.1, ?_⟩
  rw [gone.manager, lookup_handleRemoved]
  · exact before.2
  · intro same
    obtain ⟨value, found, own⟩ := map_eq_some_iff.mp before.1
    have ascending : OrderedMap.Ascending t.table.entries := (gone.wellKept kept there).ascending
    have first := gone.total kept there id
    have second := total_erase ascending (refersTo id) (still.trans found)
    have counted := kept.counted id
    rw [refersTo, if_pos same.symm] at first
    rw [refersTo, if_pos own] at second
    rw [← same]
    omega

end Gone

theorem cleanup_eq_ok (ran : (cleanup object).run s = .ok () t) :
    t.table = s.table ∧ t.manager = s.manager := by
  have same :
      Exec.Relates (Exec.Same fun s : Subsystem => (s.table, s.manager)) (cleanup object) := by
    cases object with
    | thread =>
      refine .bind .get fun s => .ite (.pure ()) (.bind (.read _) fun held => .ite (.pure ()) (.ite ?_ (.pure ())))
      exact .modify fun s => rfl
    | _ => exact .pure ()
  have kept := same s t (by rw [ran]; rfl)
  exact ⟨congrArg Prod.fst kept, congrArg Prod.snd kept⟩

/-- A close that succeeds: the teardown, and then the handle is gone. -/
theorem closeHandle_eq_ok (ran : (closeHandle host handle).run s = .ok () t) :
    ∃ entry u, HandlesKept s u ∧ u.table.entries.lookup handle = some entry ∧
      Gone handle entry u t := by
  rw [closeHandle, get_bind_run] at ran
  obtain ⟨⟨entry, record⟩, _, read, afterRead⟩ := bind_eq_ok.mp ran
  obtain ⟨found, rfl⟩ := read_eq_ok.mp read
  obtain ⟨_, start, refused, afterCheck⟩ := bind_eq_ok.mp afterRead
  obtain ⟨kernel, rfl⟩ := read_eq_ok.mp refused
  obtain ⟨_, u, torn, afterTeardown⟩ := bind_eq_ok.mp afterCheck
  have ends := teardown_ends host handle entry start record.object
  unfold Ends at ends
  rw [torn] at ends
  have there : u.table.entries.lookup handle = some entry := by
    rw [ends.2.table]
    exact (handleEntry_eq_ok.mp found).1
  rw [read_bind_run, close_eq u.table (Result.refuse_eq_ok.mp kernel) there] at afterTeardown
  by_cases guarded : handle ∈ u.table.protectedCloseHandles
  · rw [if_pos guarded] at afterTeardown
    cases afterTeardown
  · rw [if_neg guarded] at afterTeardown
    obtain ⟨table, manager⟩ := cleanup_eq_ok afterTeardown
    exact ⟨entry, u, ends.2, there, table, manager⟩

/-! ## Histories -/

/-- A handle that a call returned: what it was asked for and the object that the handle referred to. -/
structure Token where
  handle : Handle
  wanted : ObjectType
  objectId : Option ObjectId
  deriving DecidableEq

/-- The subsystem together with the handles that calls returned and that were not closed since. -/
structure History where
  s : Subsystem
  given : List Token

/-- The handle is live, refers to the same object as when it was returned, and the object is of the
type that was asked for. -/
def Valid (s : Subsystem) (token : Token) : Prop :=
  ∃ id, token.objectId = some id ∧ Refers s token.handle id token.wanted

namespace History

/-- What the callers hold after a call that succeeded. -/
def hold (call : Call) (answer : Option Handle) (t : Subsystem) (given : List Token) : List Token :=
  match call with
  | .closeHandle _ handle => given.eraseP fun token => token.handle = handle
  | call =>
    match answer, call.wanted with
    | some handle, some wanted =>
      given ++ [⟨handle, wanted, (t.table.entries.lookup handle).map HandleEntry.objectId⟩]
    | _, _ => given

def step (history : History) (call : Call) : History :=
  match call.perform.run history.s with
  | .ok answer t => ⟨t, hold call answer t history.given⟩
  | .error _ t => ⟨t, history.given⟩
  | .panic => history

/-- The calls that go well: a name is opened as what it is, there is a handle value left for a call
that needs one, and a value that two callers hold is not closed. -/
def Careful (history : History) : Call → Prop
  | .createEvent _ _ _ name =>
    ValueLeft history.s ∧ ∀ given, name = some given → NamesOnly history.s given .event
  | .openEvent _ _ name => ValueLeft history.s ∧ NamesOnly history.s name .event
  | .openNamedEvent name => ValueLeft history.s ∧ NamesOnly history.s name .event
  | .createNamedMutex _ _ _ => ValueLeft history.s
  | .openNamedMutex name => NamesOnly history.s name .mutex
  | .createNamedSemaphore _ _ _ _ => ValueLeft history.s
  | .openNamedSemaphore name => NamesOnly history.s name .semaphore
  | .closeHandle _ handle => (history.given.countP fun token => token.handle = handle) ≤ 1

/-- What holds throughout. -/
structure Sound (history : History) : Prop where
  wellKept : WellKept history.s
  valid : ∀ token ∈ history.given, Valid history.s token

/-- What is left after the only match is erased does not match. -/
theorem not_of_mem_eraseP {entries : List α} (once : entries.countP p ≤ 1) :
    ∀ entry ∈ entries.eraseP p, ¬ p entry := by
  induction entries with
  | nil =>
    intro entry member
    cases member
  | cons head rest ih =>
    intro entry member matching
    by_cases first : p head
    · rw [eraseP_cons_of_pos first] at member
      rw [countP_cons_of_pos first] at once
      have none : rest.countP p = 0 := by omega
      exact countP_eq_zero.mp none entry member matching
    · rw [eraseP_cons_of_neg first] at member
      rw [countP_cons_of_neg first] at once
      rcases mem_cons.mp member with rfl | later
      · exact first matching
      · exact ih once entry later matching

theorem hold_eq (asks : call.wanted = some wanted) (given : List Token) :
    hold call answer t given = answer.elim given fun handle =>
      given ++ [⟨handle, wanted, (t.table.entries.lookup handle).map objectId⟩] := by
  cases call with
  | closeHandle => cases asks
  | _ => cases asks; cases answer <;> rfl

theorem step_serves (sound : Sound history) (asks : call.wanted = some wanted)
    (serves : Serves wanted history.s (call.perform.run history.s)) :
    Sound (history.step call) := by
  have stay {t : Subsystem} (keeps : Keeps history.s t) :
      ∀ token ∈ history.given, Valid t token := by
    intro token member
    obtain ⟨id, object, before⟩ := sound.valid token member
    exact ⟨id, object, keeps.refers _ _ _ before⟩
  rw [step]
  cases ran : call.perform.run history.s with
  | panic => exact sound
  | error =>
    rw [ran] at serves
    exact ⟨serves.wellKept, stay serves⟩
  | ok answer t =>
    rw [ran] at serves
    obtain ⟨keeps, own⟩ := serves
    refine ⟨keeps.wellKept, ?_⟩
    dsimp only
    rw [hold_eq asks]
    cases answer with
    | none => exact stay keeps
    | some handle =>
      intro token member
      rcases mem_append.mp member with before | new
      · exact stay keeps token before
      · obtain ⟨id, refers⟩ := own handle rfl
        rw [mem_singleton] at new
        subst new
        exact ⟨id, refers.1, refers⟩

theorem step_close (sound : Sound history)
    (own : (history.given.countP fun token => token.handle = handle) ≤ 1) :
    Sound (history.step (.closeHandle host handle)) := by
  rw [step, Call.perform]
  cases ran : (closeHandle host handle).run history.s with
  | panic =>
    rw [bind_of_panic ran]
    exact sound
  | error =>
    have same := closeHandle_handlesKept ran
    rw [bind_of_error ran]
    refine ⟨same.wellKept sound.wellKept, fun token member => ?_⟩
    obtain ⟨id, object, before⟩ := sound.valid token member
    exact ⟨id, object, same.refers before⟩
  | ok value t =>
    obtain ⟨entry, u, same, there, gone⟩ := closeHandle_eq_ok ran
    have kept := same.wellKept sound.wellKept
    rw [bind_of_ok ran]
    refine ⟨gone.wellKept kept there, fun token member => ?_⟩
    have before : token ∈ history.given := mem_of_mem_eraseP member
    obtain ⟨id, object, refers⟩ := sound.valid token before
    refine ⟨id, object, gone.refers kept there ?_ (same.refers refers)⟩
    -- only one caller held the value, and it is the one that closed it
    intro held
    exact not_of_mem_eraseP own token member (decide_eq_true held)

theorem step_sound (history : History) (call : Call) (sound : Sound history)
    (careful : Careful history call) : Sound (history.step call) := by
  cases call with
  | createEvent =>
    exact step_serves sound rfl (createEvent_serves _ _ _ _ sound.wellKept careful.1 careful.2)
  | openEvent =>
    exact step_serves sound rfl (openEvent_serves _ _ _ sound.wellKept careful.1 careful.2)
  | openNamedEvent =>
    exact step_serves sound rfl (openNamedEvent_serves _ sound.wellKept careful.1 careful.2)
  | createNamedMutex =>
    exact step_serves sound rfl (createNamed_serves _ _ _ _ sound.wellKept careful)
  | openNamedMutex | openNamedSemaphore =>
    exact step_serves sound rfl (openNamed_serves _ sound.wellKept careful)
  | createNamedSemaphore name initialCount maximum =>
    exact step_serves sound rfl (createNamed_serves _ _ _ (.semaphore initialCount maximum) sound.wellKept careful)
  | closeHandle => exact step_close sound careful

end History

/-- Over every history of careful calls, every handle that a call returned refers to the live object
that it referred to at first, of the type that was asked for, until it is closed itself. -/
theorem named_handles_stay_valid {s : Subsystem} (kept : WellKept s) (calls : List Call)
    (careful : Along History.step History.Careful ⟨s, []⟩ calls) :
    ∀ taken, taken <+: calls → ∀ token ∈ (taken.foldl History.step ⟨s, []⟩).given,
      Valid (taken.foldl History.step ⟨s, []⟩).s token := by
  intro taken within
  have start : History.Sound ⟨s, []⟩ := by
    refine ⟨kept, fun token member => ?_⟩
    cases member
  exact (careful.invariant start History.step_sound taken within).valid

/-- An event is created, opened again and closed once. -/
def handover : List Call :=
  [.createEvent true false false (some ['g', 'o']), .openNamedEvent ['g', 'o'],
    .closeHandle calmHost 4]

theorem named_handles_stay_valid_handover :
    Along History.step History.Careful ⟨Subsystem.new, []⟩ handover ∧
      ∀ token ∈ (handover.foldl History.step ⟨Subsystem.new, []⟩).given,
        Valid (handover.foldl History.step ⟨Subsystem.new, []⟩).s token := by
  have careful : Along History.step History.Careful ⟨Subsystem.new, []⟩ handover := by
    refine ⟨⟨.inr (by decide), ?_⟩, ⟨.inr (by decide), ?_⟩, ?_, trivial⟩
    · rintro name ⟨⟩ id found
      cases found
    · intro id found
      cases found
      rfl
    · rw [History.Careful]
      decide
  exact ⟨careful,
    named_handles_stay_valid wellKept_new handover careful handover (List.prefix_refl handover)⟩

/-- A name that a mutex has is opened as an event. -/
def wrongKind : List Call := [.createNamedMutex ['x'] false false, .createEvent true false false (some ['x'])]

/-- A mutex is created twice under one name and closed once. -/
def sharedMutex : List Call :=
  [.createNamedMutex ['x'] false false, .createNamedMutex ['x'] false false,
    .closeHandle calmHost 4]

/-- The event that a caller was given is a mutex, and the handle of the second caller is dead after
the first has closed its own. -/
theorem named_handles_disturbed :
    (∃ token ∈ (wrongKind.foldl History.step ⟨Subsystem.new, []⟩).given,
      ¬ Valid (wrongKind.foldl History.step ⟨Subsystem.new, []⟩).s token) ∧
    ∃ token ∈ (sharedMutex.foldl History.step ⟨Subsystem.new, []⟩).given,
      ¬ Valid (sharedMutex.foldl History.step ⟨Subsystem.new, []⟩).s token := by
  constructor
  · refine ⟨⟨8, .event, some 1⟩, by decide, ?_⟩
    rintro ⟨id, same, _, typed⟩
    cases same
    exact absurd typed (by decide)
  · refine ⟨⟨4, .mutex, some 1⟩, by decide, ?_⟩
    rintro ⟨id, same, live, _⟩
    cases same
    exact absurd live (by decide)

end Casa.Win32.Objects
