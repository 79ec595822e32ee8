import Casa.Win32.Waits

/-! The handle table, the object manager and the paths that create, duplicate and close handles
(runtime/handle_table.rs, runtime/object_manager.rs, win32.rs, ge.rs). What the host does is a
parameter: whether the shared store of file claims can be locked, written and unlocked, which
processes are alive and which files it lets go. Left out are the contents of files and pipes,
the packets of completion ports, the scheduler and the other bookkeeping of exited threads. -/
namespace Casa.Win32.Objects
open Effect
open Result (require refuse)
open OrderedMap (erase)

abbrev Name := List Char

inductive ObjectType where
  | file
  | event
  | ioCompletionPort
  | mutex
  | semaphore
  | thread
  | process
  | mappedSection
  | key
  | timer
  | pipe
  | directorySearch
  | socket
  | windowStation
  deriving DecidableEq

/-- The name that the debug format gives a type. -/
def ObjectType.debugName : ObjectType → String
  | .file => "File"
  | .event => "Event"
  | .ioCompletionPort => "IoCompletionPort"
  | .mutex => "Mutex"
  | .semaphore => "Semaphore"
  | .thread => "Thread"
  | .process => "Process"
  | .mappedSection => "Section"
  | .key => "Key"
  | .timer => "Timer"
  | .pipe => "Pipe"
  | .directorySearch => "DirectorySearch"
  | .socket => "Socket"
  | .windowStation => "WindowStation"

def saturatingSucc (count : U32) : U32 := if count = BitVec.allOnes 32 then count else count + 1

/-! ## The handle table -/

structure HandleEntry where
  objectId : ObjectId
  generation : U32
  accessMask : U32
  inheritable : Bool
  deriving DecidableEq

structure HandleTable where
  entries : List (Handle × HandleEntry)
  generations : List (Handle × U32)
  /-- Closed values, the oldest first. -/
  closedHandleValues : List Handle
  protectedCloseHandles : List Handle
  handleHistory : List (Handle × ObjectType)
  recentlyClosedHandles : List (Handle × ObjectType)
  nextHandle : Handle

namespace HandleTable

def new : HandleTable := ⟨[], [], [], [], [], [], 4⟩

def freeValue (table : HandleTable) : Handle := table.closedHandleValues.headD table.nextHandle

def insert (table : HandleTable) (objectId : ObjectId) (accessMask : U32) (inheritable : Bool) :
    HandleTable :=
  { table with
    entries := OrderedMap.insert table.freeValue
      ⟨objectId, (table.generations.lookup table.freeValue).getD 0, accessMask, inheritable⟩ table.entries
    closedHandleValues := table.closedHandleValues.tail
    nextHandle := if table.closedHandleValues.isEmpty then Subsystem.saturatingNext table.nextHandle
      else table.nextHandle }

def recordHistory (table : HandleTable) (handle : Handle) (objectType : ObjectType) : HandleTable :=
  let history := OrderedMap.insert handle objectType table.handleHistory
  { table with handleHistory := if 1024 < history.length then history.tail else history }

def invalidHandleError (table : HandleTable) (handle : Handle) : Failure :=
  let message := "invalid handle " ++ toString handle.toNat
  match table.handleHistory.lookup handle with
  | some objectType => invalidHandle (message ++ " (known as " ++ objectType.debugName ++ ")")
  | none =>
    match table.recentlyClosedHandles.reverse.lookup handle with
    | some objectType => invalidHandle (message ++ " (recently closed " ++ objectType.debugName ++ ")")
    | none => invalidHandle message

def entry (table : HandleTable) (handle : Handle) : Result Failure HandleEntry :=
  require (table.entries.lookup handle) (table.invalidHandleError handle)

def protectedError (handle : Handle) : Failure :=
  ⟨.helperPermissionDenied, "handle " ++ toString handle.toNat ++ " is protected from close"⟩

def socketError (handle : Handle) : Failure :=
  invalidHandle ("handle " ++ toString handle.toNat ++ " is a socket, not a kernel handle")

/-- The table after the handle is gone; the value waits for reuse under a new generation. -/
def forget (table : HandleTable) (handle : Handle) : HandleTable :=
  let closed := table.recentlyClosedHandles ++ [(handle, ObjectType.socket)]
  { table with
    entries := erase handle table.entries
    protectedCloseHandles := table.protectedCloseHandles.filter (· ≠ handle)
    generations := OrderedMap.insert handle (saturatingSucc ((table.generations.lookup handle).getD 0)) table.generations
    closedHandleValues := table.closedHandleValues ++ [handle]
    recentlyClosedHandles := closed.drop (closed.length - 32) }

def close (table : HandleTable) (handle : Handle) (objectType : ObjectType) :
    Result Failure (HandleEntry × HandleTable) := do
  refuse (handle ∈ table.protectedCloseHandles) (protectedError handle)
  refuse (objectType = .socket) (socketError handle)
  let entry ← require (table.entries.lookup handle) (invalidHandle ("invalid handle " ++ toString handle.toNat))
  pure (entry, table.forget handle)

def closeRaw (table : HandleTable) (handle : Handle) :
    Result Failure (HandleEntry × HandleTable) := do
  refuse (handle ∈ table.protectedCloseHandles) (protectedError handle)
  let entry ← require (table.entries.lookup handle) (invalidHandle ("invalid handle " ++ toString handle.toNat))
  pure (entry, table.forget handle)

end HandleTable

/-! ## The object manager -/

structure FileObject where
  normalizedPath : String
  hostPath : String
  /-- The number of the share claim. -/
  geHandle : Option U64
  deleteOnClose : Bool
  deriving DecidableEq

structure NamedPipeState where
  serverHandle : Option Handle
  clientHandle : Option Handle
  serverDisconnected : Bool
  clientDisconnected : Bool
  deriving DecidableEq

structure PipeObject where
  name : Name
  state : Option NamedPipeState
  deriving DecidableEq

inductive KernelObject where
  | file (object : FileObject)
  | event (manualReset signaled : Bool)
  | ioCompletionPort
  | mutex (object : MutexObject)
  | semaphore (count maximum : U32)
  | thread (threadId : ThreadId)
  | process
  | mappedSection
  | key
  | timer
  | pipe (object : PipeObject)
  | directorySearch
  | socket
  | windowStation
  deriving DecidableEq

namespace KernelObject

/-- Every object is inserted under the type of its payload. -/
def objectType : KernelObject → ObjectType
  | .file _ => .file
  | .event _ _ => .event
  | .ioCompletionPort => .ioCompletionPort
  | .mutex _ => .mutex
  | .semaphore _ _ => .semaphore
  | .thread _ => .thread
  | .process => .process
  | .mappedSection => .mappedSection
  | .key => .key
  | .timer => .timer
  | .pipe _ => .pipe
  | .directorySearch => .directorySearch
  | .socket => .socket
  | .windowStation => .windowStation

def isThread (thread : ThreadId) (object : KernelObject) : Bool := object == .thread thread

def signal : KernelObject → KernelObject
  | .event manualReset _ => .event manualReset true
  | object => object

def isPipe (name : Name) : KernelObject → Bool
  | .pipe object => object.name == name
  | _ => false

def broken (name : Name) (state : NamedPipeState) : KernelObject → KernelObject
  | .pipe object =>
    if object.name = name then .pipe { object with
      state := some { state with
        serverHandle := none, clientHandle := none, serverDisconnected := true, clientDisconnected := true } }
    else .pipe object
  | object => object

def withoutClient (handle : Handle) : KernelObject → KernelObject
  | .pipe object => .pipe { object with
      state := object.state.map fun state =>
        if state.clientHandle = some handle then { state with clientHandle := none, clientDisconnected := true }
        else state }
  | object => object

end KernelObject

/-- An object with its header. -/
structure ObjectRecord where
  object : KernelObject
  /-- The canonical name. -/
  name : Option Name

def ObjectRecord.objectType (record : ObjectRecord) : ObjectType := record.object.objectType

structure ObjectManager where
  objects : List (ObjectId × ObjectRecord)
  names : List (Name × ObjectId)
  handleCounts : List (ObjectId × U32)
  nextObjectId : ObjectId

def baseNamedObjects : Name :=
  ['\\', 'B', 'a', 's', 'e', 'N', 'a', 'm', 'e', 'd', 'O', 'b', 'j', 'e', 'c', 't', 's', '\\']
def globalPrefix : Name := ['G', 'l', 'o', 'b', 'a', 'l', '\\']
def localPrefix : Name := ['L', 'o', 'c', 'a', 'l', '\\']
def sessionsPrefix : Name := ['\\', 'S', 'e', 's', 's', 'i', 'o', 'n', 's', '\\']

/-- The session directory: its number, then the directory of named objects. -/
def stripSession (name : Name) : Option Name := do
  let rest ← name.dropPrefix? sessionsPrefix
  let digits := rest.takeWhile Char.isDigit
  if digits = [] then none
  else (rest.drop digits.length).dropPrefix? baseNamedObjects

/-- One round of `canonical_object_name`. -/
def stripNamespace (name : Name) : Option Name :=
  name.dropPrefix? baseNamedObjects <|> name.dropPrefix? globalPrefix <|> name.dropPrefix? localPrefix <|>
    stripSession name

/-- Each round shortens the name, so that its length bounds their number. -/
def stripNamespaces : Nat → Name → Name
  | 0, name => name
  | rounds + 1, name =>
    match stripNamespace name with
    | some rest => if rest ≠ [] ∧ rest ≠ name then stripNamespaces rounds rest else name
    | none => name

def canonicalObjectName (name : Name) : Name := stripNamespaces name.length name

namespace ObjectManager

def new : ObjectManager := ⟨[], [], [], 1⟩

/-- A named object takes the name even if another object has it. -/
def insert (manager : ObjectManager) (name : Option Name) (object : KernelObject) : ObjectManager :=
  let canonical := name.map canonicalObjectName
  { objects := OrderedMap.insert manager.nextObjectId ⟨object, canonical⟩ manager.objects
    names := canonical.elim manager.names fun name =>
      OrderedMap.insert name manager.nextObjectId manager.names
    handleCounts := OrderedMap.insert manager.nextObjectId 0 manager.handleCounts
    nextObjectId := manager.nextObjectId + 1 }

def resolve (manager : ObjectManager) (name : Name) : Option ObjectId :=
  manager.names.lookup (canonicalObjectName name)

/-- The object of an id that a live handle or a name refers to. -/
def record (manager : ObjectManager) (id : ObjectId) : Result Failure ObjectRecord :=
  Result.expect (manager.objects.lookup id)

def handleCount (manager : ObjectManager) (id : ObjectId) : U32 :=
  (manager.handleCounts.lookup id).getD 0

def handleAdded (manager : ObjectManager) (id : ObjectId) : ObjectManager :=
  { manager with
    handleCounts :=
      OrderedMap.insert id (saturatingSucc (manager.handleCount id)) manager.handleCounts }

/-- An object whose last handle is gone is dropped, and whatever has its name loses it. -/
def drop (manager : ObjectManager) (id : ObjectId) : ObjectManager :=
  { manager with
    objects := erase id manager.objects
    names := ((manager.objects.lookup id).bind ObjectRecord.name).elim manager.names fun name =>
      erase name manager.names
    handleCounts := erase id manager.handleCounts }

def handleRemoved (manager : ObjectManager) (id : ObjectId) : ObjectManager :=
  if 1 < (manager.handleCount id).toNat then
    { manager with handleCounts := OrderedMap.insert id (manager.handleCount id - 1) manager.handleCounts }
  else manager.drop id

def signalEvent (manager : ObjectManager) (id : ObjectId) : ObjectManager :=
  { manager with
    objects := OrderedMap.modify id (fun record => { record with object := record.object.signal }) manager.objects }

/-- Every end of a pipe takes the broken state of its server. -/
def breakPipes (manager : ObjectManager) (name : Name) (state : NamedPipeState) : ObjectManager :=
  { manager with
    objects := manager.objects.map fun entry =>
      (entry.1, { entry.2 with object := entry.2.object.broken name state }) }

def disconnectClient (manager : ObjectManager) (id : ObjectId) (handle : Handle) : ObjectManager :=
  { manager with
    objects := OrderedMap.modify id (fun record => { record with object := record.object.withoutClient handle })
      manager.objects }

end ObjectManager

/-! ## Files -/

/-- What a file is opened for, and what others may open it for meanwhile. -/
structure FileAccess where
  read : Bool
  write : Bool
  delete : Bool

structure SharedOpenFileState where
  handleId : U64
  ownerPid : U32
  normalizedPath : String
  desiredAccess : FileAccess
  shareMode : FileAccess

structure SharedByteRangeLock where
  handleId : U64
  ownerPid : U32
  normalizedPath : String
  offset : U64
  length : U64
  exclusive : Bool

/-- The store of share claims and byte range locks that all processes have in common. -/
structure SharedFileRuntimeState where
  openHandles : List SharedOpenFileState
  locks : List SharedByteRangeLock

/-- The store is locked, loaded, changed, replaced as a whole and unlocked. -/
inductive StoreOutcome where
  | done
  | failsBeforeReplacing (reason : Failure)
  | failsToUnlock (reason : Failure)

structure Host where
  pid : U32
  /-- Whether another process is there. -/
  found : U32 → Bool
  store : StoreOutcome
  /-- Whether the host lets the file of a path go. -/
  mayRemove : String → Bool

def Host.processAlive (host : Host) (pid : U32) : Bool := pid == host.pid || host.found pid

/-- The order of tuples of numbers. -/
def lexLe : List Nat → List Nat → Bool
  | [], _ => true
  | _ :: _, [] => false
  | a :: as, b :: bs => decide (a < b) || a == b && lexLe as bs

namespace SharedFileRuntimeState

def cleanupStale (host : Host) (runtime : SharedFileRuntimeState) : SharedFileRuntimeState :=
  let live := runtime.openHandles.filter fun state => host.processAlive state.ownerPid
  { openHandles := live
    locks := runtime.locks.filter fun lock =>
      live.any fun state => state.ownerPid == lock.ownerPid && state.handleId == lock.handleId }

/-- The operation of `close_file_handle`. -/
def release (host : Host) (handleId : U64) (runtime : SharedFileRuntimeState) :
    SharedFileRuntimeState where
  openHandles := runtime.openHandles.filter fun state =>
    !(state.handleId == handleId && state.ownerPid == host.pid)
  locks :=
    runtime.locks.filter fun lock => !(lock.handleId == handleId && lock.ownerPid == host.pid)

/-- The order in which the store is written. -/
def sorted (runtime : SharedFileRuntimeState) : SharedFileRuntimeState where
  openHandles := runtime.openHandles.mergeSort fun left right =>
    lexLe [left.ownerPid.toNat, left.handleId.toNat] [right.ownerPid.toNat, right.handleId.toNat]
  locks := runtime.locks.mergeSort fun left right =>
    lexLe [left.ownerPid.toNat, left.handleId.toNat, left.offset.toNat, left.length.toNat]
      [right.ownerPid.toNat, right.handleId.toNat, right.offset.toNat, right.length.toNat]

end SharedFileRuntimeState

/-! ## The subsystem -/

inductive OverlappedState where
  | pending
  | completed (bytes : U32)
  | cancelled
  deriving DecidableEq

inductive OverlappedKind where
  | read
  | write
  | connection
  | deviceControl
  deriving DecidableEq

structure OverlappedRequest where
  handle : Handle
  /-- The generation of the handle when the request was queued. -/
  generation : U32
  eventHandle : Option Handle
  state : OverlappedState
  kind : OverlappedKind

def OverlappedRequest.pendingOn (handle : Handle) (request : OverlappedRequest) : Bool :=
  request.handle == handle &&
    (request.kind == .read || request.kind == .write) && request.state == .pending

structure Subsystem where
  table : HandleTable
  manager : ObjectManager
  runtime : SharedFileRuntimeState
  /-- The paths of the host files. -/
  files : List String
  /-- The paths of the environment's records of files. -/
  fsEntries : List String
  overlapped : List (U64 × OverlappedRequest)
  ioCompletionPorts : List ObjectId
  ioCompletionAssociations : List Handle
  threads : List (ThreadId × Option U32)
  currentThreadId : ThreadId

def eventModifyState : U32 := 0x00000002

namespace Subsystem

def new : Subsystem where
  table := .new
  manager := .new
  runtime := ⟨[], []⟩
  files := []
  fsEntries := []
  overlapped := []
  ioCompletionPorts := []
  ioCompletionAssociations := []
  threads := []
  currentThreadId := 1

def handleEntry (s : Subsystem) (handle : Handle) :
    Result Failure (HandleEntry × ObjectRecord) := do
  let entry ← s.table.entry handle
  let record ← s.manager.record entry.objectId
  pure (entry, record)

/-! ### Creating and opening -/

def insertObjectId (id : ObjectId) (accessMask : U32) (inheritable : Bool) :
    Exec Subsystem Failure Handle := do
  let s ← Exec.get
  let record ← Exec.read fun s => s.manager.record id
  Exec.modify fun s => { s with
    table :=
      (s.table.insert id accessMask inheritable).recordHistory s.table.freeValue record.objectType
    manager := s.manager.handleAdded id }
  pure s.table.freeValue

def insertObjectNamed (name : Option Name) (accessMask : U32) (inheritable : Bool)
    (object : KernelObject) : Exec Subsystem Failure Handle := do
  let s ← Exec.get
  Exec.modify fun s => { s with manager := s.manager.insert name object }
  insertObjectId s.manager.nextObjectId accessMask inheritable

def createEvent (manualReset initialState inheritable : Bool) (name : Option Name) :
    Exec Subsystem Failure (Handle × Bool) := do
  let s ← Exec.get
  match name.bind s.manager.resolve with
  | some id => do
    let handle ← insertObjectId id 0x1F0003 inheritable
    pure (handle, true)
  | none => do
    let handle ← insertObjectNamed name 0x1F0003 inheritable (.event manualReset initialState)
    pure (handle, false)

def openEvent (desiredAccess : U32) (inheritable : Bool) (name : Name) :
    Exec Subsystem Failure Handle := do
  let s ← Exec.get
  match s.manager.resolve name with
  | some id => insertObjectId id desiredAccess inheritable
  | none => Exec.throw ⟨.fsNotFound, "event " ++ String.ofList name ++ " not found"⟩

def openNamedEvent (name : Name) : Exec Subsystem Failure (Option Handle) := do
  let s ← Exec.get
  match s.manager.resolve name with
  | some id => do
    let handle ← insertObjectId id 0x1F0003 false
    pure (some handle)
  | none => pure none

def findHandleForObject (s : Subsystem) (id : ObjectId) : Option Handle :=
  (s.table.entries.find? fun entry => entry.2.objectId == id).map Prod.fst

/-- The handle to an object of the wanted type that already has the name. -/
def existing (name : Name) (objectType : ObjectType) (s : Subsystem) :
    Result Failure (Option Handle) :=
  match s.manager.resolve name with
  | some id => do
    let record ← s.manager.record id
    pure (if record.objectType = objectType then s.findHandleForObject id else none)
  | none => pure none

/-- What `create_named_mutex` and `create_named_semaphore` have in common. -/
def createNamed (name : Name) (accessMask : U32) (inheritable : Bool) (object : KernelObject) :
    Exec Subsystem Failure (Handle × Bool) := do
  let found ← Exec.read (existing name object.objectType)
  match found with
  | some handle => pure (handle, true)
  | none => do
    let handle ← insertObjectNamed (some name) accessMask inheritable object
    pure (handle, false)

def createNamedMutex (name : Name) (initiallyOwned inheritable : Bool) :
    Exec Subsystem Failure (Handle × Bool) := do
  let s ← Exec.get
  createNamed name 0x1F0001 inheritable
    (.mutex ⟨if initiallyOwned then some s.currentThreadId else none, 0, false⟩)

def createNamedSemaphore (name : Name) (initialCount maximum : U32) (inheritable : Bool) :
    Exec Subsystem Failure (Handle × Bool) :=
  createNamed name 0x1F0003 inheritable (.semaphore initialCount maximum)

/-- `open_named_mutex` and `open_named_semaphore` have the same body: neither looks at the type. -/
def openNamed (name : Name) : Exec Subsystem Failure (Option Handle) := do
  let s ← Exec.get
  pure ((s.manager.resolve name).bind s.findHandleForObject)

def openNamedMutex (name : Name) : Exec Subsystem Failure (Option Handle) := openNamed name

def openNamedSemaphore (name : Name) : Exec Subsystem Failure (Option Handle) := openNamed name

/-! ### Pipes -/

/-- The checks of `set_event`. The answer is the object to signal. -/
def eventToSet (handle : Handle) (s : Subsystem) : Result Failure ObjectId := do
  let (entry, record) ← s.handleEntry handle
  refuse (record.objectType ≠ .event) (invalidHandle "handle is not an event")
  requireAccess entry.accessMask eventModifyState
  pure entry.objectId

def setEvent (handle : Handle) : Exec Subsystem Failure Unit := do
  let id ← Exec.read (eventToSet handle)
  Exec.modify fun s => { s with manager := s.manager.signalEvent id }

def signalEventIfNeeded (eventHandle : Option Handle) : Exec Subsystem Failure Unit :=
  eventHandle.elim (pure ()) setEvent

/-- The handle of the request was closed since. -/
def overlappedRequestIsStale (s : Subsystem) (request : OverlappedRequest) : Bool :=
  (s.table.entries.lookup request.handle).all fun entry => entry.generation != request.generation

/-- The events of the reads and writes that wait on a pipe. -/
def pendingEvents (s : Subsystem) (pipeHandle : Handle) : List (Option Handle) :=
  (s.overlapped.filter fun request =>
    request.2.pendingOn pipeHandle && !s.overlappedRequestIsStale request.2).map fun request =>
      request.2.eventHandle

/-- The requests on a pipe that were overtaken by a close. -/
def dropStale (pipeHandle : Handle) (s : Subsystem) : Subsystem :=
  { s with
    overlapped := s.overlapped.filter fun request =>
      !(request.2.pendingOn pipeHandle && s.overlappedRequestIsStale request.2) }

def signalPendingPipeIoEvents (pipeHandle : Handle) : Exec Subsystem Failure Unit := do
  let s ← Exec.get
  Exec.modify (dropStale pipeHandle)
  Exec.forEach signalEventIfNeeded (s.pendingEvents pipeHandle)

def normalizePipeName (name : Name) : Name :=
  name.map fun c => (if c = '/' then '\\' else c).toLower

/-- The handles to the ends of a pipe, which have its name, but for the one that closes. -/
def survivingHandles (s : Subsystem) (handle : Handle) (name : Name) : List Handle :=
  (s.table.entries.filter fun entry =>
    (s.manager.objects.lookup entry.2.objectId).any (fun record => record.object.isPipe name) && entry.1 != handle).map
      Prod.fst

/-- The teardown of the server end: every end of the pipe is broken. -/
def closeServer (handle : Handle) (name : Name) (state : NamedPipeState) :
    Exec Subsystem Failure Unit := do
  let s ← Exec.get
  Exec.modify fun s => { s with manager := s.manager.breakPipes name state }
  Exec.forEach signalPendingPipeIoEvents (s.survivingHandles handle name)

/-- The teardown of the client end: the server that has the name of the pipe loses its client. -/
def closeClient (handle : Handle) (name : Name) : Exec Subsystem Failure Unit := do
  let s ← Exec.get
  match s.manager.resolve (normalizePipeName name) with
  | none => pure ()
  | some serverId => do
    let _ ← Exec.read fun s => s.manager.record serverId
    Exec.modify fun s => { s with manager := s.manager.disconnectClient serverId handle }
    (s.findHandleForObject serverId).elim (pure ()) signalPendingPipeIoEvents

def closePipeTeardown (handle : Handle) (pipe : PipeObject) : Exec Subsystem Failure Unit :=
  match pipe.state with
  | none => pure ()
  | some state =>
    if state.serverHandle = some handle then closeServer handle pipe.name state
    else if state.clientHandle = some handle then closeClient handle pipe.name
    else pure ()

/-! ### Closing -/

/-- `close_file_handle` of the environment: this process gives up its claim and its locks. -/
def closeFileHandle (host : Host) (handleId : U64) : Exec Subsystem Failure Unit :=
  let released (s : Subsystem) : Subsystem :=
    { s with runtime := ((s.runtime.cleanupStale host).release host handleId).sorted }
  match host.store with
  | .done => Exec.modify released
  | .failsBeforeReplacing reason => Exec.throw reason
  | .failsToUnlock reason => do
    Exec.modify released
    Exec.throw reason

/-- A removal that the host refuses is ignored; the record of the file goes all the same. -/
def deleteFile (host : Host) (file : FileObject) (s : Subsystem) : Subsystem :=
  { s with
    files := if host.mayRemove file.hostPath then s.files.filter (· ≠ file.hostPath) else s.files
    fsEntries := s.fsEntries.filter (· ≠ file.normalizedPath) }

/-- What `close_handle` does to a file before the handle goes. -/
def closeFile (host : Host) (lastHandle : Bool) (file : FileObject) :
    Exec Subsystem Failure Unit := do
  ((if lastHandle then file.geHandle else none).elim (pure ())
    (closeFileHandle host) : Exec Subsystem Failure Unit)
  if file.deleteOnClose then Exec.modify (deleteFile host file) else pure ()

def teardown (host : Host) (handle : Handle) (lastHandle : Bool) :
    KernelObject → Exec Subsystem Failure Unit
  | .file file => closeFile host lastHandle file
  | .pipe pipe => closePipeTeardown handle pipe
  | _ => pure ()

def threadHasHandle (manager : ObjectManager) (thread : ThreadId) :
    List (Handle × HandleEntry) → Result Failure Bool
  | [] => pure false
  | entry :: rest => do
    let record ← manager.record entry.2.objectId
    if record.object.isThread thread then pure true else threadHasHandle manager thread rest

def cleanupExitedThreadState (thread : ThreadId) : Exec Subsystem Failure Unit := do
  let s ← Exec.get
  if thread = s.currentThreadId then pure ()
  else do
    let held ← Exec.read fun s => threadHasHandle s.manager thread s.table.entries
    if held then pure ()
    else if (s.threads.lookup thread).any Option.isSome then
      Exec.modify fun s => { s with threads := erase thread s.threads }
    else pure ()

def cleanup : KernelObject → Exec Subsystem Failure Unit
  | .thread thread => cleanupExitedThreadState thread
  | _ => pure ()

/-- What follows once the handle is gone from the table. -/
def removed (handle : Handle) (entry : HandleEntry) (object : KernelObject) (lastHandle : Bool)
    (table : HandleTable) (s : Subsystem) : Subsystem :=
  { s with
    table
    ioCompletionPorts := if object = .ioCompletionPort ∧ lastHandle then
      s.ioCompletionPorts.filter (· ≠ entry.objectId) else s.ioCompletionPorts
    ioCompletionAssociations := s.ioCompletionAssociations.filter (· ≠ handle)
    manager := s.manager.handleRemoved entry.objectId }

def closeHandle (host : Host) (handle : Handle) : Exec Subsystem Failure Unit := do
  let s ← Exec.get
  let (entry, record) ← Exec.read fun s => s.handleEntry handle
  let lastHandle := s.manager.handleCount entry.objectId == 1
  Exec.read fun _ => refuse (record.objectType = .socket) (HandleTable.socketError handle)
  teardown host handle lastHandle record.object
  let (closed, table) ← Exec.read fun s => s.table.close handle record.objectType
  Exec.modify (removed handle closed record.object lastHandle table)
  cleanup record.object

/-! ### Duplicating -/

def duplicateMask (granted desiredAccess : U32) (sameAccess : Bool) : Result Failure U32 :=
  if sameAccess ∨ desiredAccess = 0 then pure granted
  else do
    refuse (desiredAccess &&& ~~~granted ≠ 0) ⟨.helperPermissionDenied,
      "duplicate requests access " ++ hex desiredAccess ++ ", source granted " ++ hex granted⟩
    pure desiredAccess

/-- The checks of `duplicate_handle`: the object of the source and the access of the duplicate. -/
def duplicateSource (source : Handle) (desiredAccess : U32) (sameAccess : Bool) (s : Subsystem) :
    Result Failure (ObjectId × U32) := do
  let (entry, record) ← s.handleEntry source
  refuse (record.objectType = .socket) (invalidHandle "socket handles cannot be duplicated")
  let accessMask ← duplicateMask entry.accessMask desiredAccess sameAccess
  pure (entry.objectId, accessMask)

/-- The duplicate is not entered in the history of types. -/
def duplicated (id : ObjectId) (accessMask : U32) (inheritable : Bool) (s : Subsystem) :
    Subsystem :=
  { s with
    table := s.table.insert id accessMask inheritable
    manager := s.manager.handleAdded id }

def duplicateHandle (host : Host) (source : Handle) (desiredAccess : U32)
    (inheritable sameAccess closeSource : Bool) : Exec Subsystem Failure Handle := do
  let s ← Exec.get
  let (id, accessMask) ← Exec.read (duplicateSource source desiredAccess sameAccess)
  Exec.modify (duplicated id accessMask inheritable)
  if closeSource then closeHandle host source else pure ()
  pure s.table.freeValue

end Subsystem

end Casa.Win32.Objects
