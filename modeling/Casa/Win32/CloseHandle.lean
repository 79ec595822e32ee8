import Casa.Win32.HandleTable
import Mathlib.Data.List.Perm.Basic

/-! What `close_handle` and `duplicate_handle` leave behind when they report an error. The
teardown of a pipe touches only the ends of pipes, events and requests. The teardown of a file
runs before the handle is known to be closable, and a duplicate is there before its source is
closed. -/
namespace Casa.Win32.Objects
open Effect HandleTable SharedFileRuntimeState Objects.Subsystem Result OrderedMap Option ObjectManager
open Exec (get_bind_run read_bind_run)

/-- What the caller of a failed call may rely on: the handle table, the number of handles to each
object, the share claims with their locks, and the files with their records. -/
structure Untouched (s t : Subsystem) : Prop where
  entries : ∀ handle, t.table.entries.lookup handle = s.table.entries.lookup handle
  table : { t.table with entries := [] } = { s.table with entries := [] }
  handleCounts : ∀ id, t.manager.handleCounts.lookup id = s.manager.handleCounts.lookup id
  openHandles : t.runtime.openHandles.Perm s.runtime.openHandles
  locks : t.runtime.locks.Perm s.runtime.locks
  files : t.files = s.files
  fsEntries : t.fsEntries = s.fsEntries

namespace Untouched

theorem refl (s : Subsystem) :
    Untouched s s := ⟨fun _ => rfl, rfl, fun _ => rfl, .rfl, .rfl, rfl, rfl⟩

theorem trans (first : Untouched s t) (second : Untouched t u) : Untouched s u where
  entries handle := (second.entries handle).trans (first.entries handle)
  table := second.table.trans first.table
  handleCounts id := (second.handleCounts id).trans (first.handleCounts id)
  openHandles := second.openHandles.trans first.openHandles
  locks := second.locks.trans first.locks
  files := second.files.trans first.files
  fsEntries := second.fsEntries.trans first.fsEntries

end Untouched

/-- What no teardown changes: the table, the counts and what type of object is where. -/
structure HandlesKept (s t : Subsystem) : Prop where
  table : t.table = s.table
  handleCounts : t.manager.handleCounts = s.manager.handleCounts
  nextObjectId : t.manager.nextObjectId = s.manager.nextObjectId
  types : ∀ id, (t.manager.objects.lookup id).map ObjectRecord.objectType =
    (s.manager.objects.lookup id).map ObjectRecord.objectType

theorem HandlesKept.refl (s : Subsystem) : HandlesKept s s := ⟨rfl, rfl, rfl, fun _ => rfl⟩

/-! ## Pipes -/

/-- What the teardown of a pipe never changes. -/
structure PipesOnly (s t : Subsystem) : Prop extends handlesKept : HandlesKept s t where
  runtime : t.runtime = s.runtime
  files : t.files = s.files
  fsEntries : t.fsEntries = s.fsEntries
  pending : ∀ handle, t.pendingEvents handle = s.pendingEvents handle

namespace PipesOnly

theorem refl (s : Subsystem) : PipesOnly s s := ⟨.refl s, rfl, rfl, rfl, fun _ => rfl⟩

theorem trans (first : PipesOnly s t) (second : PipesOnly t u) : PipesOnly s u where
  table := second.table.trans first.table
  handleCounts := second.handleCounts.trans first.handleCounts
  nextObjectId := second.nextObjectId.trans first.nextObjectId
  runtime := second.runtime.trans first.runtime
  files := second.files.trans first.files
  fsEntries := second.fsEntries.trans first.fsEntries
  types id := (second.types id).trans (first.types id)
  pending handle := (second.pending handle).trans (first.pending handle)

theorem untouched (kept : PipesOnly s t) : Untouched s t where
  entries handle := by rw [kept.table]
  table := by rw [kept.table]
  handleCounts id := by rw [kept.handleCounts]
  openHandles := by rw [kept.runtime]
  locks := by rw [kept.runtime]
  files := kept.files
  fsEntries := kept.fsEntries

/-- An update of the objects that keeps their types. -/
theorem of_objects (s : Subsystem) (objects : List (ObjectId × ObjectRecord))
    (types : ∀ id, (objects.lookup id).map ObjectRecord.objectType =
      (s.manager.objects.lookup id).map ObjectRecord.objectType) :
    PipesOnly s { s with manager := { s.manager with objects } } :=
  ⟨⟨rfl, rfl, rfl, types⟩, rfl, rfl, rfl, fun _ => rfl⟩

end PipesOnly

theorem objectType_signal (object : KernelObject) :
    object.signal.objectType = object.objectType := by
  cases object <;> rfl

theorem objectType_withoutClient (object : KernelObject) :
    (object.withoutClient handle).objectType = object.objectType := by
  cases object <;> rfl

theorem objectType_broken (state : NamedPipeState) (object : KernelObject) :
    (object.broken name state).objectType = object.objectType := by
  cases object with
  | pipe =>
    rw [KernelObject.broken]
    split <;> rfl
  | _ => rfl

/-- A change of one object that keeps its type. -/
theorem types_modify {update : KernelObject → KernelObject}
    (keeps : ∀ object, (update object).objectType = object.objectType) (id other : ObjectId)
    (objects : List (ObjectId × ObjectRecord)) :
    ((modify id (fun record => { record with object := update record.object }) objects).lookup other).map
      ObjectRecord.objectType = (objects.lookup other).map ObjectRecord.objectType := by
  rw [lookup_modify]
  split
  · rw [map_map]
    exact congrArg (Option.map · _) (funext fun record => keeps record.object)
  · rfl

theorem pipesOnly_signalEvent (id : ObjectId) :
    PipesOnly s { s with manager := s.manager.signalEvent id } :=
  .of_objects s _ fun other => types_modify objectType_signal id other _

theorem pipesOnly_disconnectClient (s : Subsystem) (id : ObjectId) (handle : Handle) :
    PipesOnly s { s with manager := s.manager.disconnectClient id handle } :=
  .of_objects s _ fun other => types_modify objectType_withoutClient id other _

theorem pipesOnly_breakPipes (s : Subsystem) (name : Name) (state : NamedPipeState) :
    PipesOnly s { s with manager := s.manager.breakPipes name state } := by
  refine .of_objects s _ fun other => ?_
  rw [lookup_map (fun record : ObjectRecord => { record with object := record.object.broken name state }), map_map]
  exact congrArg (Option.map · _) (funext fun record => objectType_broken state record.object)

/-- Requests that no longer count were not answered before either. -/
theorem pipesOnly_dropStale (s : Subsystem) (pipe : Handle) : PipesOnly s (dropStale pipe s) := by
  refine ⟨⟨rfl, rfl, rfl, fun _ => rfl⟩, rfl, rfl, rfl, fun handle => ?_⟩
  have same : (dropStale pipe s).overlappedRequestIsStale = s.overlappedRequestIsStale := rfl
  rw [pendingEvents, same, dropStale, List.filter_filter]
  refine congrArg _ (List.filter_congr fun request _ => ?_)
  cases s.overlappedRequestIsStale request.2 <;> simp

/-- How the pending events of a pipe take their signals: the first that cannot be set decides. -/
def eventVerdict : List (Option Handle) → Subsystem → Result Failure Unit
  | [], _ => pure ()
  | none :: rest, s => eventVerdict rest s
  | some handle :: rest, s => do
    let _ ← Subsystem.eventToSet handle s
    eventVerdict rest s

/-- How the teardown of a pipe ends, by the handles, objects and requests that are there. -/
def pipeVerdict (handle : Handle) (pipe : PipeObject) (s : Subsystem) : Result Failure Unit :=
  match pipe.state with
  | none => pure ()
  | some state =>
    if state.serverHandle = some handle then
      eventVerdict ((s.survivingHandles handle pipe.name).flatMap s.pendingEvents) s
    else if state.clientHandle = some handle then
      match s.manager.resolve (Subsystem.normalizePipeName pipe.name) with
      | none => pure ()
      | some serverId => do
        let _ ← s.manager.record serverId
        (s.findHandleForObject serverId).elim (pure ()) fun server => eventVerdict (s.pendingEvents server) s
    else pure ()

/-- A computation that ends as a verdict says, in a state of which something holds. -/
def Ends (R : Subsystem → Prop) (f : Exec Subsystem Failure Unit) (verdict : Result Failure Unit)
    (s : Subsystem) : Prop :=
  match f.run s with
  | .ok _ t => verdict = .ok () ∧ R t
  | .error reason t => verdict = .error reason ∧ R t
  | .panic => verdict = .panic

theorem Ends.imp (ends : Ends R f verdict s) (implies : ∀ t, R t → R' t) : Ends R' f verdict s := by
  unfold Ends at ends ⊢
  cases ran : f.run s with
  | ok value t | error reason t => rw [ran] at ends; exact ⟨ends.1, implies t ends.2⟩
  | panic => rw [ran] at ends; exact ends

theorem Ends.of_ok (ends : Ends R f verdict s) (ran : f.run s = .ok () t) :
    verdict = .ok () ∧ R t := by
  rwa [Ends, ran] at ends

theorem Ends.of_error (ends : Ends R f verdict s) (ran : f.run s = .error reason t) :
    verdict = .error reason ∧ R t := by
  rwa [Ends, ran] at ends

theorem Ends.ok (ends : Ends R f (.ok ()) s) : ∃ t, f.run s = .ok () t := by
  unfold Ends at ends
  split at ends <;> simp_all

theorem Ends.error (ends : Ends R f (.error reason) s) : ∃ t, f.run s = .error reason t := by
  unfold Ends at ends
  split at ends <;> simp_all

/-- A computation that ends as a verdict says and has touched only pipes. -/
def Follows (f : Exec Subsystem Failure Unit) (verdict : Result Failure Unit) (s : Subsystem) :
    Prop :=
  Ends (PipesOnly s) f verdict s

namespace Follows

theorem pure (s : Subsystem) : Follows (pure ()) (pure ()) s := ⟨rfl, .refl s⟩

theorem bind (first : Follows f verdict s) (rest : ∀ t, PipesOnly s t → Follows g next t) :
    Follows (f >>= fun _ => g) (verdict >>= fun _ => next) s := by
  unfold Follows Ends at first
  cases ran : f.run s with
  | ok value t =>
    rw [ran] at first
    obtain ⟨rfl, kept⟩ := first
    have after := (rest t kept).imp fun u later => kept.trans later
    unfold Follows Ends
    rw [Exec.bind_of_ok ran]
    exact after
  | error =>
    rw [ran] at first
    obtain ⟨rfl, kept⟩ := first
    unfold Follows Ends
    rw [Exec.bind_of_error ran]
    exact ⟨rfl, kept⟩
  | panic =>
    rw [ran] at first
    obtain rfl := first
    unfold Follows Ends
    rw [Exec.bind_of_panic ran]
    rfl

/-- A change that touches only pipes, and then a computation. -/
theorem modify_bind (update : Subsystem → Subsystem) (kept : PipesOnly s (update s))
    (rest : Follows f verdict (update s)) :
    Follows (Exec.modify update >>= fun _ => f) verdict s := by
  have after := rest.imp fun t later => kept.trans later
  exact after

end Follows

theorem eventToSet_congr (kept : PipesOnly s t) (handle : Handle) :
    eventToSet handle t = eventToSet handle s := by
  rw [eventToSet, eventToSet, handleEntry, handleEntry, kept.table]
  cases s.table.entry handle with
  | error | panic => rfl
  | ok entry =>
    have types := kept.types entry.objectId
    simp only [ok_bind, ObjectManager.record]
    cases before : s.manager.objects.lookup entry.objectId with
    | none =>
      rw [before, map_none, map_eq_none_iff] at types
      rw [types]
    | some =>
      rw [before, map_some, map_eq_some_iff] at types
      obtain ⟨after, found, same⟩ := types
      rw [found]
      simp [expect, same]

theorem eventVerdict_congr (kept : PipesOnly s t) :
    eventVerdict events t = eventVerdict events s := by
  induction events with
  | nil => rfl
  | cons event rest ih =>
    cases event with
    | none => rw [eventVerdict, eventVerdict, ih]
    | some => rw [eventVerdict, eventVerdict, eventToSet_congr kept, ih]

theorem eventVerdict_append :
    eventVerdict (first ++ second) s =
      (eventVerdict first s >>= fun _ => eventVerdict second s) := by
  induction first with
  | nil => rfl
  | cons event rest ih =>
    cases event with
    | none => rw [List.cons_append, eventVerdict, ih, eventVerdict]
    | some handle =>
      rw [List.cons_append, eventVerdict, ih, eventVerdict]
      cases eventToSet handle s <;> rfl

theorem setEvent_follows (handle : Handle) :
    Follows (setEvent handle) (eventToSet handle s >>= fun _ => pure ()) s := by
  unfold Follows Ends
  rw [setEvent, read_bind_run]
  cases eventToSet handle s with
  | ok id => exact ⟨rfl, pipesOnly_signalEvent id⟩
  | error => exact ⟨rfl, .refl s⟩
  | panic => rfl

theorem signalEvents_follows (events : List (Option Handle)) (s : Subsystem) :
    Follows (Exec.forEach signalEventIfNeeded events) (eventVerdict events s) s := by
  induction events generalizing s with
  | nil => exact Follows.pure s
  | cons event rest ih =>
    have later : ∀ t, PipesOnly s t → Follows (Exec.forEach signalEventIfNeeded rest) (eventVerdict rest s) t := by
      intro t kept
      rw [← eventVerdict_congr kept]
      exact ih t
    cases event with
    | none => exact (Follows.pure s).bind later
    | some handle =>
      have both := (setEvent_follows handle).bind later
      rw [eventVerdict]
      cases checked : eventToSet handle s <;> rw [checked] at both <;> exact both

theorem signalPending_follows (pipe : Handle) (s : Subsystem) :
    Follows (signalPendingPipeIoEvents pipe) (eventVerdict (s.pendingEvents pipe) s) s := by
  have kept := pipesOnly_dropStale s pipe
  have signals := signalEvents_follows (s.pendingEvents pipe) (dropStale pipe s)
  rw [eventVerdict_congr kept] at signals
  exact Follows.modify_bind (dropStale pipe) kept signals

theorem signalAll_follows (handles : List Handle) (s : Subsystem) :
    Follows (Exec.forEach signalPendingPipeIoEvents handles)
      (eventVerdict (handles.flatMap s.pendingEvents) s) s := by
  induction handles generalizing s with
  | nil => exact Follows.pure s
  | cons handle rest ih =>
    rw [List.flatMap_cons, eventVerdict_append]
    refine (signalPending_follows handle s).bind fun t kept => ?_
    have later := ih t
    rw [eventVerdict_congr kept, funext kept.pending] at later
    exact later

theorem closeServer_follows : Follows (closeServer handle name state)
      (eventVerdict ((s.survivingHandles handle name).flatMap s.pendingEvents) s) s := by
  have kept := pipesOnly_breakPipes s name state
  have signals := signalAll_follows (s.survivingHandles handle name)
    { s with manager := s.manager.breakPipes name state }
  rw [eventVerdict_congr kept] at signals
  exact Follows.modify_bind
    (fun s => { s with manager := s.manager.breakPipes name state }) kept signals

theorem closePipeTeardown_follows :
    Follows (closePipeTeardown handle pipe) (pipeVerdict handle pipe s) s := by
  rw [closePipeTeardown, pipeVerdict]
  cases pipe.state with
  | none => exact Follows.pure s
  | some =>
    dsimp only
    split
    · exact closeServer_follows
    · split
      · unfold Follows Ends
        rw [closeClient, get_bind_run]
        cases s.manager.resolve (normalizePipeName pipe.name) with
        | none => exact Follows.pure s
        | some serverId =>
          dsimp only
          rw [read_bind_run]
          cases s.manager.record serverId with
          | error => exact ⟨rfl, .refl s⟩
          | panic => rfl
          | ok =>
            have kept := pipesOnly_disconnectClient s serverId handle
            have signals : Follows ((s.findHandleForObject serverId).elim (pure ()) signalPendingPipeIoEvents)
                ((s.findHandleForObject serverId).elim (pure ()) fun server => eventVerdict (s.pendingEvents server) s)
                { s with manager := s.manager.disconnectClient serverId handle } := by
              cases s.findHandleForObject serverId with
              | none => exact Follows.pure _
              | some server =>
                have signal := signalPending_follows server { s with manager := s.manager.disconnectClient serverId handle }
                rw [eventVerdict_congr kept] at signal
                exact signal
            exact Follows.modify_bind (fun s => { s with manager := s.manager.disconnectClient serverId handle })
              kept signals
      · exact Follows.pure s

/-! ## Files -/

/-- Dropping the claims of a handle, and the stale ones, drops nothing. -/
def ClaimsKept (host : Host) (handleId : U64) (runtime : SharedFileRuntimeState) : Prop :=
  (∀ state ∈ runtime.openHandles, host.processAlive state.ownerPid ∧
    ¬ (state.handleId = handleId ∧ state.ownerPid = host.pid)) ∧
    ∀ lock ∈ runtime.locks, (∃ state ∈ runtime.openHandles, state.ownerPid = lock.ownerPid ∧
      state.handleId = lock.handleId) ∧
      ¬ (lock.handleId = handleId ∧ lock.ownerPid = host.pid)

/-- Deleting a file on close deletes nothing. -/
def FileKept (host : Host) (file : FileObject) (s : Subsystem) : Prop :=
  file.deleteOnClose → (host.mayRemove file.hostPath → file.hostPath ∉ s.files) ∧
    file.normalizedPath ∉ s.fsEntries

/-- A filter keeps everything if what it leaves is, in some order, what was there. -/
theorem filter_perm_iff {entries : List α} :
    (entries.filter keep).Perm entries ↔ ∀ entry ∈ entries, keep entry := by
  constructor
  · intro same
    exact List.length_filter_eq_length_iff.mp same.length_eq
  · intro all
    rw [List.filter_eq_self.mpr all]

theorem released_perm_iff (runtime : SharedFileRuntimeState) :
    ((((runtime.cleanupStale host).release host handleId).sorted.openHandles.Perm runtime.openHandles) ∧
      (((runtime.cleanupStale host).release host handleId).sorted.locks.Perm runtime.locks)) ↔
        ClaimsKept host handleId runtime := by
  simp only [sorted, release, cleanupStale, List.filter_filter,
    (List.mergeSort_perm _ _).congr_left, filter_perm_iff]
  simp only [Bool.and_eq_true, Bool.not_eq_true', Bool.and_eq_false_imp, List.any_eq_true,
    List.mem_filter, beq_iff_eq, beq_eq_false_iff_ne]
  constructor
  · rintro ⟨states, locks⟩
    refine ⟨fun state member => ?_, fun lock member => ?_⟩
    · obtain ⟨own, alive⟩ := states state member
      exact ⟨alive, fun same => own same.1 same.2⟩
    · obtain ⟨own, state, ⟨there, _⟩, held⟩ := locks lock member
      exact ⟨⟨state, there, held⟩, fun same => own same.1 same.2⟩
  · rintro ⟨states, locks⟩
    refine ⟨fun state member => ?_, fun lock member => ?_⟩
    · obtain ⟨alive, own⟩ := states state member
      exact ⟨fun same other => own ⟨same, other⟩, alive⟩
    · obtain ⟨⟨state, there, held⟩, own⟩ := locks lock member
      exact ⟨fun same other => own ⟨same, other⟩, state, ⟨there, (states state there).1⟩, held⟩

theorem deleteFile_iff (onClose : file.deleteOnClose) :
    ((deleteFile host file s).files = s.files ∧ (deleteFile host file s).fsEntries = s.fsEntries) ↔
      FileKept host file s := by
  have others (path : String) (paths : List String) : paths.filter (· ≠ path) = paths ↔
      path ∉ paths := by
    rw [List.filter_eq_self]
    constructor
    · intro all member
      exact of_decide_eq_true (all path member) rfl
    · intro absent entry member
      exact decide_eq_true fun same => absent (same ▸ member)
  simp only [FileKept, onClose, forall_const, deleteFile, others]
  refine and_congr_left' ?_
  split
  · rename_i allowed
    rw [others]
    simp [allowed]
  · rename_i refused
    simp [refused]

def releasedClaims (host : Host) (handleId : U64) (s : Subsystem) : Subsystem :=
  { s with runtime := ((s.runtime.cleanupStale host).release host handleId).sorted }

def afterDelete (host : Host) (file : FileObject) (s : Subsystem) : Subsystem :=
  if file.deleteOnClose then Subsystem.deleteFile host file s else s

theorem closeFile_unclaimed (unclaimed : (if lastHandle then file.geHandle else none) = none) :
    (closeFile host lastHandle file).run s = .ok () (afterDelete host file s) := by
  rw [closeFile, unclaimed, afterDelete]
  split <;> rfl

theorem closeFile_claimed (claimed : (if lastHandle then file.geHandle else none) = some handleId) :
    (closeFile host lastHandle file).run s =
      match host.store with
      | .done => .ok () (afterDelete host file (releasedClaims host handleId s))
      | .failsBeforeReplacing reason => .error reason s
      | .failsToUnlock reason => .error reason (releasedClaims host handleId s) := by
  rw [closeFile, claimed, elim_some, closeFileHandle]
  cases host.store with
  | done =>
    rw [Exec.modify_bind_run, afterDelete]
    split <;> rfl
  | failsBeforeReplacing | failsToUnlock => rfl

theorem untouched_afterDelete_iff (host : Host) (file : FileObject) (s : Subsystem)
    (runtime : SharedFileRuntimeState) :
    Untouched s (afterDelete host file { s with runtime }) ↔
      (runtime.openHandles.Perm s.runtime.openHandles ∧ runtime.locks.Perm s.runtime.locks) ∧ FileKept host file s := by
  cases onClose : file.deleteOnClose with
  | false =>
    rw [afterDelete, if_neg (by simp [onClose])]
    constructor
    · intro kept
      exact ⟨⟨kept.openHandles, kept.locks⟩, fun asked => by simp [onClose] at asked⟩
    · rintro ⟨⟨states, locks⟩, _⟩
      exact ⟨fun _ => rfl, rfl, fun _ => rfl, states, locks, rfl, rfl⟩
  | true =>
    rw [afterDelete, if_pos onClose, ← deleteFile_iff onClose]
    constructor
    · intro kept
      exact ⟨⟨kept.openHandles, kept.locks⟩, kept.files, kept.fsEntries⟩
    · rintro ⟨⟨states, locks⟩, files, records⟩
      exact ⟨fun _ => rfl, rfl, fun _ => rfl, states, locks, files, records⟩

theorem untouched_releasedClaims_iff :
    Untouched s (releasedClaims host handleId s) ↔ ClaimsKept host handleId s.runtime := by
  rw [← released_perm_iff]
  constructor
  · intro kept
    exact ⟨kept.openHandles, kept.locks⟩
  · rintro ⟨states, locks⟩
    exact ⟨fun _ => rfl, rfl, fun _ => rfl, states, locks, rfl, rfl⟩

/-! ## Closing -/

def storeVerdict : StoreOutcome → Result Failure Unit
  | .done => pure ()
  | .failsBeforeReplacing reason => .error reason
  | .failsToUnlock reason => .error reason

/-- The share claim that goes with a handle: that of the last handle to the file. -/
def claimOf (s : Subsystem) (entry : HandleEntry) (file : FileObject) : Option U64 :=
  if s.manager.handleCount entry.objectId == 1 then file.geHandle else none

/-- How the teardown of an object ends. -/
def teardownVerdict (host : Host) (handle : Handle) (entry : HandleEntry) (s : Subsystem) :
    KernelObject → Result Failure Unit
  | .file file => (claimOf s entry file).elim (pure ()) fun _ => storeVerdict host.store
  | .pipe pipe => pipeVerdict handle pipe s
  | _ => pure ()

/-- A handle that is there and not a socket, but whose closing is refused: by the teardown of its
object, or after it because the handle is protected. -/
def CloseFails (host : Host) (handle : Handle) (s : Subsystem) : Prop :=
  ∃ entry record, s.handleEntry handle = .ok (entry, record) ∧ record.objectType ≠ .socket ∧
    ((∃ reason, teardownVerdict host handle entry s record.object = .error reason) ∨
      teardownVerdict host handle entry s record.object = .ok () ∧ handle ∈ s.table.protectedCloseHandles)

/-- A close that fails after the teardown of a file finds nothing that the teardown has dropped. -/
def FileCloseKeeps (host : Host) (handle : Handle) (s : Subsystem) (entry : HandleEntry)
    (file : FileObject) : Prop :=
  (∀ handleId, claimOf s entry file = some handleId →
    (∃ reason, host.store = .failsToUnlock reason) ∨ host.store = .done ∧
      handle ∈ s.table.protectedCloseHandles → ClaimsKept host handleId s.runtime) ∧
  (claimOf s entry file = none ∨ host.store = .done → handle ∈ s.table.protectedCloseHandles →
    FileKept host file s)

def CloseKeeps (host : Host) (handle : Handle) (s : Subsystem) : Prop :=
  ∀ entry record file, s.handleEntry handle = .ok (entry, record) → record.object = .file file →
    FileCloseKeeps host handle s entry file

theorem teardown_follows (host : Host) (handle : Handle) (entry : HandleEntry) (s : Subsystem)
    (notFile : ∀ file, object ≠ .file file) :
    Follows (teardown host handle (s.manager.handleCount entry.objectId == 1) object)
      (teardownVerdict host handle entry s object) s := by
  cases object with
  | file file => exact absurd rfl (notFile file)
  | pipe => exact closePipeTeardown_follows
  | _ => exact Follows.pure s

/-- How the teardown ends, whatever the object. -/
theorem teardown_ends (host : Host) (handle : Handle) (entry : HandleEntry) (s : Subsystem)
    (object : KernelObject) :
    Ends (HandlesKept s) (teardown host handle (s.manager.handleCount entry.objectId == 1) object)
      (teardownVerdict host handle entry s object) s := by
  by_cases isFile : ∃ file, object = .file file
  · obtain ⟨file, rfl⟩ := isFile
    have kept (runtime : SharedFileRuntimeState) : HandlesKept s (afterDelete host file { s with runtime }) := by
      rw [afterDelete]
      split <;> exact ⟨rfl, rfl, rfl, fun _ => rfl⟩
    unfold Ends
    rw [teardown, teardownVerdict]
    cases claim : claimOf s entry file with
    | none =>
      rw [closeFile_unclaimed claim]
      exact ⟨rfl, kept s.runtime⟩
    | some =>
      rw [closeFile_claimed claim]
      cases host.store with
      | done => exact ⟨rfl, kept _⟩
      | failsBeforeReplacing => exact ⟨rfl, .refl s⟩
      | failsToUnlock => exact ⟨rfl, rfl, rfl, rfl, fun _ => rfl⟩
  · have pipes := teardown_follows host handle entry s fun file same => isFile ⟨file, same⟩
    exact pipes.imp fun t kept => kept.handlesKept

theorem threadHasHandle_ne_error (manager : ObjectManager) (entries : List (Handle × HandleEntry)) :
    threadHasHandle manager thread entries ≠ .error reason := by
  induction entries with
  | nil => simp [threadHasHandle]
  | cons entry rest ih =>
    rw [threadHasHandle, ObjectManager.record]
    cases manager.objects.lookup entry.2.objectId with
    | none => simp [expect]
    | some =>
      rw [expect, ok_bind]
      split
      · simp
      · exact ih

theorem cleanupExitedThreadState_ne_error :
    (cleanupExitedThreadState thread).run s ≠ .error reason t := by
  rw [cleanupExitedThreadState, get_bind_run]
  split
  · simp
  · rw [read_bind_run]
    cases held : threadHasHandle s.manager thread s.table.entries with
    | error => exact absurd held (threadHasHandle_ne_error _ _)
    | panic => simp
    | ok left =>
      cases left with
      | true => simp
      | false =>
        simp only [Bool.false_eq_true, if_false]
        split <;> simp

theorem cleanup_ne_error : (cleanup object).run s ≠ .error reason t := by
  cases object with
  | thread => exact cleanupExitedThreadState_ne_error
  | _ => simp [cleanup]

section Closing
variable {s : Subsystem} {entry : HandleEntry} {record : ObjectRecord}

theorem handleEntry_eq_ok : s.handleEntry handle = .ok (entry, record) ↔
    s.table.entries.lookup handle = some entry ∧
      s.manager.objects.lookup entry.objectId = some record := by
  rw [handleEntry, bind_eq_ok]
  constructor
  · rintro ⟨found, there, rest⟩
    obtain ⟨object, known, returned⟩ := bind_eq_ok.mp rest
    cases returned
    exact ⟨require_eq_ok.mp there, expect_eq_ok.mp known⟩
  · rintro ⟨there, known⟩
    refine ⟨entry, require_eq_ok.mpr there, ?_⟩
    rw [ObjectManager.record, known]
    rfl

def tornDown (host : Host) (handle : Handle) (entry : HandleEntry) (record : ObjectRecord)
    (s : Subsystem) : Exec Subsystem Failure Unit :=
  Subsystem.teardown host handle (s.manager.handleCount entry.objectId == 1) record.object

section
variable (found : s.handleEntry handle = .ok (entry, record))
include found

theorem still_there (torn : (tornDown host handle entry record s).run s = .ok () t) :
    t.table.entries.lookup handle = some entry := by
  rw [((teardown_ends host handle entry s record.object).of_ok torn).2.table]
  exact (handleEntry_eq_ok.mp found).1

/-- A handle that no check refuses up to the teardown. -/
theorem closeHandle_run (kernel : record.objectType ≠ .socket) :
    (closeHandle host handle).run s =
      (tornDown host handle entry record s >>= fun _ =>
        Exec.read (fun s => s.table.close handle record.objectType) >>= fun closed =>
          Exec.modify (removed handle closed.1 record.object (s.manager.handleCount entry.objectId == 1) closed.2)
            >>= fun _ => cleanup record.object).run s := by
  rw [closeHandle, get_bind_run, read_bind_run, found]
  dsimp only
  rw [refuse, if_neg kernel]
  rfl

omit found in
/-- The handle goes from the table unless it is protected. -/
theorem close_eq (table : HandleTable) (kernel : objectType ≠ .socket)
    (there : table.entries.lookup handle = some entry) :
    table.close handle objectType =
      if handle ∈ table.protectedCloseHandles then .error (protectedError handle)
      else .ok (entry, table.forget handle) := by
  rw [close, refuse, refuse, if_neg kernel, there]
  split <;> rfl

omit found in
/-- A close fails with the teardown, or after it because the handle is protected. -/
theorem closeHandle_error_iff (host : Host) (found : s.handleEntry handle = .ok (entry, record))
    (kernel : record.objectType ≠ .socket) (reason : Failure) (t : Subsystem) :
    (closeHandle host handle).run s = .error reason t ↔
      (tornDown host handle entry record s).run s = .error reason t ∨
        (tornDown host handle entry record s).run s = .ok () t ∧
          handle ∈ s.table.protectedCloseHandles ∧ reason = protectedError handle := by
  rw [closeHandle_run found kernel, Exec.bind_eq_error]
  refine or_congr_right ⟨?_, ?_⟩
  · rintro ⟨_, u, torn, failed⟩
    have there := still_there found torn
    rw [read_bind_run, close_eq u.table kernel there] at failed
    by_cases guarded : handle ∈ u.table.protectedCloseHandles
    · rw [if_pos guarded] at failed
      cases failed
      rw [((teardown_ends host handle entry s record.object).of_ok torn).2.table] at guarded
      exact ⟨torn, guarded, rfl⟩
    · rw [if_neg guarded] at failed
      exact absurd failed cleanup_ne_error
  · rintro ⟨torn, guarded, rfl⟩
    refine ⟨(), t, torn, ?_⟩
    rw [← ((teardown_ends host handle entry s record.object).of_ok torn).2.table] at guarded
    rw [read_bind_run, close_eq t.table kernel (still_there found torn), if_pos guarded]

omit found in
/-- Refused before the teardown, a close changes nothing. -/
theorem closeHandle_early
    (refused : ∀ entry record, s.handleEntry handle = .ok (entry, record) →
      record.objectType = .socket)
    (failed : (closeHandle host handle).run s = .error reason t) : t = s := by
  rw [closeHandle, get_bind_run, read_bind_run] at failed
  cases found : s.handleEntry handle with
  | error => rw [found] at failed; cases failed; rfl
  | panic => rw [found] at failed; cases failed
  | ok pair =>
    rw [found] at failed
    dsimp only at failed
    rw [read_bind_run, refuse, if_pos (refused pair.1 pair.2 found)] at failed
    cases failed
    rfl

/-- The closing of a handle to anything but a file keeps what its caller relies on. -/
theorem closeHandle_untouched (kernel : record.objectType ≠ .socket)
    (notFile : ∀ file, record.object ≠ .file file)
    (failed : (closeHandle host handle).run s = .error reason t) : Untouched s t := by
  have follows := teardown_follows host handle entry s notFile
  rcases (closeHandle_error_iff host found kernel reason t).mp failed with torn | ⟨torn, _⟩
  · exact (follows.of_error torn).2.untouched
  · exact (follows.of_ok torn).2.untouched

theorem closeFile_keeps_iff (isFile : record.object = .file file) :
    (∀ reason t, (closeHandle host handle).run s = .error reason t → Untouched s t) ↔
      FileCloseKeeps host handle s entry file := by
  have kernel : record.objectType ≠ .socket := by
    simp [ObjectRecord.objectType, isFile, KernelObject.objectType]
  simp only [closeHandle_error_iff host found kernel, tornDown, isFile, teardown, FileCloseKeeps]
  cases claim : claimOf s entry file with
  | none =>
    simp only [closeFile_unclaimed claim]
    have iff := untouched_afterDelete_iff host file s s.runtime
    simp only [List.Perm.refl] at iff
    by_cases guarded : handle ∈ s.table.protectedCloseHandles <;> simp [iff]
  | some handleId =>
    simp only [closeFile_claimed claim]
    cases host.store with
    | failsBeforeReplacing => simp [Untouched.refl]
    | failsToUnlock => simp [untouched_releasedClaims_iff]
    | done =>
      have iff := untouched_afterDelete_iff host file s ((s.runtime.cleanupStale host).release host handleId).sorted
      rw [released_perm_iff] at iff
      by_cases guarded : handle ∈ s.table.protectedCloseHandles <;> simp [guarded, releasedClaims, iff]

omit found in
theorem closeHandle_keeps_iff (host : Host) (handle : Handle) (s : Subsystem) :
    (∀ reason t, (closeHandle host handle).run s = .error reason t → Untouched s t) ↔
      CloseKeeps host handle s := by
  by_cases early : ∀ entry record, s.handleEntry handle = .ok (entry, record) →
    record.objectType = .socket
  · constructor
    · intro _ entry record file found isFile
      have socket := early entry record found
      simp [ObjectRecord.objectType, isFile, KernelObject.objectType] at socket
    · intro _ reason t failed
      rw [closeHandle_early early failed]
      exact .refl s
  · push Not at early
    obtain ⟨entry, record, found, kernel⟩ := early
    by_cases isFile : ∃ file, record.object = .file file
    · obtain ⟨file, isFile⟩ := isFile
      rw [closeFile_keeps_iff found isFile]
      constructor
      · intro keeps entry' record' file' found' isFile'
        cases found.symm.trans found'
        cases isFile.symm.trans isFile'
        exact keeps
      · intro keeps
        exact keeps entry record file found isFile
    · constructor
      · intro _ entry' record' file found' isFile'
        cases found.symm.trans found'
        exact absurd ⟨file, isFile'⟩ isFile
      · intro _ reason t failed
        exact closeHandle_untouched found kernel (fun file same => isFile ⟨file, same⟩) failed

theorem closeFails_iff (kernel : record.objectType ≠ .socket) :
    CloseFails host handle s ↔ ∃ reason t, (closeHandle host handle).run s = .error reason t := by
  have ends := teardown_ends host handle entry s record.object
  simp only [closeHandle_error_iff host found kernel]
  constructor
  · rintro ⟨entry', record', found', _, refused⟩
    cases found.symm.trans found'
    rcases refused with ⟨reason, refused⟩ | ⟨done, guarded⟩
    · obtain ⟨t, torn⟩ := (refused ▸ ends).error
      exact ⟨reason, t, .inl torn⟩
    · obtain ⟨t, torn⟩ := (done ▸ ends).ok
      exact ⟨_, t, .inr ⟨torn, guarded, rfl⟩⟩
  · rintro ⟨reason, t, torn | ⟨torn, guarded, _⟩⟩
    · exact ⟨entry, record, found, kernel, .inl ⟨reason, (ends.of_error torn).1⟩⟩
    · exact ⟨entry, record, found, kernel, .inr ⟨(ends.of_ok torn).1, guarded⟩⟩

end

/-- A failed close leaves the handles alone. -/
theorem closeHandle_handlesKept (failed : (closeHandle host handle).run s = .error reason t) :
    HandlesKept s t := by
  by_cases early : ∀ entry record, s.handleEntry handle = .ok (entry, record) →
    record.objectType = .socket
  · rw [closeHandle_early early failed]
    exact .refl s
  · push Not at early
    obtain ⟨entry, record, found, kernel⟩ := early
    have ends := teardown_ends host handle entry s record.object
    rcases (closeHandle_error_iff host found kernel reason t).mp failed with torn | ⟨torn, _⟩
    · exact (ends.of_error torn).2
    · exact (ends.of_ok torn).2

end Closing

/-! ## Duplicating -/

/-- The duplicate takes the place of an equal entry and is not counted: all handle values are in
use, and so many handles to the object were counted that the count stays. -/
def Absorbed (id : ObjectId) (accessMask : U32) (inheritable : Bool) (s : Subsystem) : Prop :=
  s.table.closedHandleValues = [] ∧ s.table.nextHandle = BitVec.allOnes 32 ∧
    s.table.entries.lookup s.table.nextHandle =
      some ⟨id, (s.table.generations.lookup s.table.nextHandle).getD 0, accessMask, inheritable⟩ ∧
    s.manager.handleCounts.lookup id = some (BitVec.allOnes 32)

/-- Where the source is closed too, that does not fail, or the duplicate changes nothing. -/
def DuplicateKeeps (host : Host) (source : Handle) (desiredAccess : U32)
    (inheritable sameAccess closeSource : Bool) (s : Subsystem) : Prop :=
  ∀ id accessMask,
    Subsystem.duplicateSource source desiredAccess sameAccess s = .ok (id, accessMask) →
    closeSource = true → CloseFails host source (s.duplicated id accessMask inheritable) →
      Absorbed id accessMask inheritable s ∧ CloseKeeps host source (s.duplicated id accessMask inheritable)

theorem saturatingNext_eq_iff :
    Subsystem.saturatingNext handle = handle ↔ handle = BitVec.allOnes 32 := by
  have ones : (BitVec.allOnes 32).toNat = 2 ^ 32 - 1 := BitVec.toNat_allOnes
  rw [Subsystem.saturatingNext]
  split
  · bv_omega
  · exact eq_comm

theorem saturatingSucc_eq_iff (count : U32) :
    saturatingSucc count = count ↔ count = BitVec.allOnes 32 := by
  rw [saturatingSucc]
  split
  · simp_all
  · bv_omega

theorem untouched_duplicated_iff (id : ObjectId) :
    Untouched s (s.duplicated id accessMask inheritable) ↔
      Absorbed id accessMask inheritable s := by
  constructor
  · intro kept
    have table := kept.table
    simp only [duplicated, HandleTable.insert, HandleTable.mk.injEq, true_and] at table
    obtain ⟨tail, next⟩ := table
    have closed : s.table.closedHandleValues = [] := by
      cases values : s.table.closedHandleValues with
      | nil => rfl
      | cons value rest => simp [values] at tail
    have free : s.table.freeValue = s.table.nextHandle := by
      rw [HandleTable.freeValue, closed, List.headD_nil]
    rw [closed, List.isEmpty_nil, if_pos rfl, saturatingNext_eq_iff] at next
    have entry := kept.entries s.table.nextHandle
    have count := kept.handleCounts id
    simp only [duplicated, HandleTable.insert, free, lookup_insert] at entry
    simp only [duplicated, handleAdded, lookup_insert, if_true] at count
    refine ⟨closed, next, entry.symm, ?_⟩
    cases stored : s.manager.handleCounts.lookup id with
    | none => simp [stored] at count
    | some most =>
      simp only [handleCount, stored, some.injEq] at count
      rw [(saturatingSucc_eq_iff most).mp count]
  · rintro ⟨closed, next, entry, count⟩
    have free : s.table.freeValue = s.table.nextHandle := by
      rw [HandleTable.freeValue, closed, List.headD_nil]
    refine ⟨fun handle => ?_, ?_, fun other => ?_, .rfl, .rfl, rfl, rfl⟩
    · simp only [duplicated, HandleTable.insert, free, lookup_insert]
      split
      · rename_i same
        rw [same, entry]
      · rfl
    · simp [duplicated, HandleTable.insert, closed, saturatingNext_eq_iff.mpr next]
    · simp only [duplicated, handleAdded, handleCount, count, getD_some,
        (saturatingSucc_eq_iff _).mpr rfl, lookup_insert]
      split
      · rename_i same
        rw [same, count]
      · rfl

theorem duplicateSource_eq_ok {id : ObjectId}
    (checked : duplicateSource source desiredAccess sameAccess s = .ok (id, accessMask)) :
    ∃ entry record, s.handleEntry source = .ok (entry, record) ∧ record.objectType ≠ .socket ∧
      entry.objectId = id := by
  obtain ⟨⟨entry, record⟩, found, rest⟩ := bind_eq_ok.mp checked
  obtain ⟨_, kernel, rest⟩ := bind_eq_ok.mp rest
  obtain ⟨mask, _, returned⟩ := bind_eq_ok.mp rest
  cases returned
  exact ⟨entry, record, found, refuse_eq_ok.mp kernel, rfl⟩

/-- The source of a duplicate has the same object as before, also if the duplicate took its value. -/
theorem handleEntry_duplicated {s : Subsystem} {entry : HandleEntry} {record : ObjectRecord}
    (found : s.handleEntry source = .ok (entry, record)) (accessMask : U32) (inheritable : Bool) :
    ∃ after, (s.duplicated entry.objectId accessMask inheritable).handleEntry source =
      .ok (after, record) := by
  obtain ⟨there, known⟩ := handleEntry_eq_ok.mp found
  by_cases same : source = s.table.freeValue
  · refine ⟨⟨entry.objectId, (s.table.generations.lookup s.table.freeValue).getD 0, accessMask, inheritable⟩, ?_⟩
    refine handleEntry_eq_ok.mpr ⟨?_, known⟩
    simp [duplicated, HandleTable.insert, lookup_insert, same]
  · refine ⟨entry, handleEntry_eq_ok.mpr ⟨?_, known⟩⟩
    simp [duplicated, HandleTable.insert, lookup_insert, same, there]

theorem duplicateHandle_keeps_iff (host : Host) (source : Handle) (desiredAccess : U32)
    (inheritable sameAccess closeSource : Bool) (s : Subsystem) :
    (∀ reason t, (duplicateHandle host source desiredAccess inheritable sameAccess closeSource).run s =
        .error reason t → Untouched s t) ↔
      DuplicateKeeps host source desiredAccess inheritable sameAccess closeSource s := by
  cases checked : duplicateSource source desiredAccess sameAccess s with
  | error cause =>
    have ran : (duplicateHandle host source desiredAccess inheritable sameAccess closeSource).run s =
        .error cause s := by
      rw [duplicateHandle, get_bind_run, read_bind_run, checked]
    simp [ran, DuplicateKeeps, checked, Untouched.refl]
  | panic =>
    have ran : (duplicateHandle host source desiredAccess inheritable sameAccess closeSource).run s = .panic := by
      rw [duplicateHandle, get_bind_run, read_bind_run, checked]
    simp [ran, DuplicateKeeps, checked]
  | ok pair =>
    obtain ⟨id, accessMask⟩ := pair
    obtain ⟨entry, record, found, kernel, rfl⟩ := duplicateSource_eq_ok checked
    obtain ⟨after, still⟩ := handleEntry_duplicated found accessMask inheritable
    cases closeSource with
    | false =>
      have ran : (duplicateHandle host source desiredAccess inheritable sameAccess false).run s =
          .ok s.table.freeValue (s.duplicated entry.objectId accessMask inheritable) := by
        rw [duplicateHandle, get_bind_run, read_bind_run, checked]
        rfl
      simp [ran, DuplicateKeeps]
    | true =>
      have closes (reason : Failure) (t : Subsystem) :
          (duplicateHandle host source desiredAccess inheritable sameAccess true).run s = .error reason t ↔
            (closeHandle host source).run (s.duplicated entry.objectId accessMask inheritable) = .error reason t := by
        rw [duplicateHandle, get_bind_run, read_bind_run, checked]
        dsimp only
        rw [Exec.modify_bind_run, if_pos rfl, Exec.bind_eq_error]
        simp
      constructor
      · intro kept id mask checked' _ fails
        cases checked.symm.trans checked'
        obtain ⟨reason, t, failed⟩ := (closeFails_iff still kernel).mp fails
        have whole := kept reason t ((closes reason t).mpr failed)
        obtain ⟨table, counts, _, _⟩ := closeHandle_handlesKept failed
        constructor
        · refine (untouched_duplicated_iff _).mp ⟨fun handle => ?_, ?_, fun id => ?_, .rfl, .rfl, rfl, rfl⟩
          · rw [← table]
            exact whole.entries handle
          · rw [← table]
            exact whole.table
          · rw [← counts]
            exact whole.handleCounts id
        · refine (closeHandle_keeps_iff host source _).mp fun reason' t' failed' => ?_
          cases failed.symm.trans failed'
          exact ⟨fun handle => by rw [table], by rw [table], fun id => by rw [counts], whole.openHandles, whole.locks,
            whole.files, whole.fsEntries⟩
      · intro keeps reason t ran
        have failed := (closes reason t).mp ran
        obtain ⟨absorbed, closeKeeps⟩ :=
          keeps _ _ checked rfl ((closeFails_iff still kernel).mpr ⟨reason, t, failed⟩)
        exact ((untouched_duplicated_iff _).mpr absorbed).trans
          ((closeHandle_keeps_iff host source _).mpr closeKeeps reason t failed)

/-- An error of `close_handle` or `duplicate_handle` leaves everything as it was exactly where no
teardown of a file had anything to drop and no duplicate was left. -/
theorem failed_calls_keep_iff (host : Host) (handle : Handle) (desiredAccess : U32)
    (inheritable sameAccess closeSource : Bool) (s : Subsystem) :
    ((∀ reason t, (Subsystem.closeHandle host handle).run s = .error reason t → Untouched s t) ↔
      CloseKeeps host handle s) ∧
    ((∀ reason t, (Subsystem.duplicateHandle host handle desiredAccess inheritable sameAccess closeSource).run s =
        .error reason t → Untouched s t) ↔
      DuplicateKeeps host handle desiredAccess inheritable sameAccess closeSource s) := by
  constructor
  · exact closeHandle_keeps_iff host handle s
  · exact duplicateHandle_keeps_iff host handle desiredAccess inheritable sameAccess closeSource s

/-- A protected handle to a file that is to be deleted on close. -/
def guardedTemporary : Subsystem :=
  { Subsystem.new with
    table := { HandleTable.new with entries := [(4, ⟨1, 0, 0x1F01FF, false⟩)], protectedCloseHandles := [4], nextHandle := 8 }
    manager := ⟨[(1, ⟨.file ⟨"c:/a.tmp", "/ge/a.tmp", some 1, true⟩, none⟩)], [], [(1, 1)], 2⟩
    runtime := ⟨[⟨1, 7, "c:/a.tmp", ⟨true, true, true⟩, ⟨false, false, false⟩⟩], []⟩
    files := ["/ge/a.tmp"]
    fsEntries := ["c:/a.tmp"] }

def calmHost : Host := ⟨7, fun _ => false, .done, fun _ => true⟩

/-- Both calls are refused because of the protection. The first has deleted the file; the second
has left a duplicate. -/
theorem refused_close_deletes_file :
    (∃ t, (Subsystem.closeHandle calmHost 4).run guardedTemporary = .error (HandleTable.protectedError 4) t ∧
      guardedTemporary.files = ["/ge/a.tmp"] ∧ t.files = [] ∧ ¬ Untouched guardedTemporary t) ∧
    ∃ t, (Subsystem.duplicateHandle calmHost 4 0 false true true).run guardedTemporary =
        .error (HandleTable.protectedError 4) t ∧
      guardedTemporary.table.entries.lookup 8 = none ∧ t.table.entries.lookup 8 = some ⟨1, 0, 0x1F01FF, false⟩ ∧
        ¬ Untouched guardedTemporary t := by
  constructor
  · refine ⟨_, rfl, rfl, rfl, fun kept => ?_⟩
    have files := kept.files
    exact absurd files (by decide)
  · refine ⟨_, rfl, rfl, rfl, fun kept => ?_⟩
    have entry := kept.entries 8
    exact absurd entry (by decide)

end Casa.Win32.Objects
