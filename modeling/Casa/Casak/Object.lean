import Casa.Lib.Exec
import Casa.Lib.OrderedMap
import Casa.Lib.MachineInt

/-! The object manager of CasaK (casak/object.rs): typed objects with reference counts,
a handle table for every process and the table of names. Counters and identifiers are
words and wrap; the finalizer is the list of the calls it has received. -/
namespace Casa.Casak.Object
open Effect
open Result (refuse require)

inductive NtStatus where
  | objectNameNotFound
  | objectNameCollision
  | objectNameInvalid
  | invalidHandle
  | objectTypeMismatch
  | accessDenied
  | mutantNotOwned

abbrev ObjectId := U64
abbrev Handle := U32

inductive ObjectType where
  | process
  | thread
  | file
  | event
  | mutant
  | sectionObject
  | key
  | device
  | driver
  | ioCompletion
  deriving DecidableEq

inductive ObjectPayload where
  | process (processId : U32) (imageName : String) (terminated : Bool)
  | thread (threadId ownerProcessId : U32) (suspended : Bool)
  | file (path : String) (readable writable : Bool) (position : U64)
  | event (manualReset signaled : Bool)
  | mutant (ownerThread : Option U32) (recursion : U32) (abandoned : Bool)
  | sectionObject (maximumSize : U64) (mapped : Bool)
  | key (path : String) (values : List (String × String))
  | device (deviceName : String)
  | driver (driverName : String) (loaded : Bool)
  | ioCompletion (queueDepth pending : U32)

def ObjectPayload.kind : ObjectPayload → ObjectType
  | .process .. => .process
  | .thread .. => .thread
  | .file .. => .file
  | .event .. => .event
  | .mutant .. => .mutant
  | .sectionObject .. => .sectionObject
  | .key .. => .key
  | .device .. => .device
  | .driver .. => .driver
  | .ioCompletion .. => .ioCompletion

/-! ## Access masks -/

def genericRead : U32 := 0x80000000
def genericWrite : U32 := 0x40000000
def genericAll : U32 := 0x10000000
def delete : U32 := 0x00010000
def readControl : U32 := 0x00020000
def writeDac : U32 := 0x00040000
def synchronize : U32 := 0x00100000

def specificRead : ObjectType → U32
  | .process => 0x400 ||| synchronize
  | .thread => 0x400 ||| synchronize
  | .file => 0x1 ||| 0x20 ||| synchronize
  | .event => 0x1 ||| synchronize
  | .mutant => 0x1 ||| synchronize
  | .sectionObject => 0x1 ||| 0x4 ||| synchronize
  | .key => 0x1
  | .device => synchronize
  | .driver => synchronize
  | .ioCompletion => synchronize

def specificWrite : ObjectType → U32
  | .process => 0x1
  | .thread => 0x1
  | .file => 0x2 ||| 0x4
  | .event => 0x2
  | .mutant => 0
  | .sectionObject => 0x2
  | .key => 0x2
  | .device => 0
  | .driver => 0
  | .ioCompletion => 0x2

def specificAll (kind : ObjectType) : U32 :=
  specificRead kind ||| specificWrite kind ||| delete ||| readControl ||| writeDac

def mapGenericAccess (kind : ObjectType) (access : U32) : U32 :=
  let expanded := access &&& ~~~(genericRead ||| genericWrite ||| genericAll)
  if access &&& genericAll ≠ 0 then expanded ||| specificAll kind
  else
    let expanded := if access &&& genericRead ≠ 0 then expanded ||| specificRead kind else expanded
    if access &&& genericWrite ≠ 0 then expanded ||| specificWrite kind else expanded

def accessGranted (granted desired : U32) (kind : ObjectType) : Bool :=
  let needed := mapGenericAccess kind desired
  needed == 0 || granted &&& needed == needed

/-! ## Tables -/

structure ObjectEntry where
  id : ObjectId
  kind : ObjectType
  name : Option String
  payload : ObjectPayload
  refCount : U32

structure HandleEntry where
  handle : Handle
  object : ObjectId
  access : U32
  inheritable : Bool

structure ProcessHandleTable where
  nextHandle : Handle
  handles : List (Handle × HandleEntry)

def ProcessHandleTable.new : ProcessHandleTable := ⟨4, []⟩

structure ObjectManager where
  objects : List (ObjectId × ObjectEntry)
  names : List (String × ObjectId)
  processes : List (U32 × ProcessHandleTable)
  nextObjectId : ObjectId
  finalized : U64
  finalizedLog : List ObjectId
  onFinalize : Option (List (ObjectId × ObjectType × ObjectPayload))

/-- The standard library's functions on the text of a name. -/
structure Text where
  trim : String → String
  lowercase : String → String

namespace Text

def normalizeName (text : Text) (name : String) : Result NtStatus String := do
  let trimmed := text.trim name
  refuse (trimmed.toList = [] ∨ '\x00' ∈ trimmed.toList) .objectNameInvalid
  if '\\' ∈ trimmed.toList then
    if trimmed.toList.head? = some '\\' then pure trimmed else pure ("\\" ++ trimmed)
  else pure ("\\BaseNamedObjects\\" ++ trimmed)

def nameKey (text : Text) (name : String) : String := text.lowercase name

end Text

namespace ObjectManager

def new : ObjectManager where
  objects := []
  names := []
  processes := []
  nextObjectId := 1
  finalized := 0
  finalizedLog := []
  onFinalize := none

def withFinalizer : ObjectManager := { new with onFinalize := some [] }

def table (m : ObjectManager) (process : U32) : ProcessHandleTable :=
  (m.processes.lookup process).getD .new

def entry (m : ObjectManager) (process : U32) (handle : Handle) : Option HandleEntry :=
  (m.processes.lookup process).bind fun table => table.handles.lookup handle

def inheritable (m : ObjectManager) (process : U32) : List HandleEntry :=
  ((m.table process).handles.map Prod.snd).filter fun entry => entry.inheritable

section Operations
variable (text : Text)

/-- A new object with the reference of its creator. -/
def register (kind : ObjectType) (payload : ObjectPayload) (name : Option String)
    (m : ObjectManager) : ObjectManager :=
  { m with
    nextObjectId := m.nextObjectId + 1
    objects := OrderedMap.insert m.nextObjectId ⟨m.nextObjectId, kind, name, payload, 1⟩ m.objects
    names := match name with
      | some canonical => OrderedMap.insert (text.nameKey canonical) m.nextObjectId m.names
      | none => m.names }

def createObject (kind : ObjectType) (payload : ObjectPayload) (name : Option String) :
    Exec ObjectManager NtStatus ObjectId := do
  Exec.read fun _ => refuse (payload.kind ≠ kind) .objectTypeMismatch
  let normalized ← Exec.read fun m =>
    match name with
    | some name => do
      let canonical ← text.normalizeName name
      refuse ((m.names.lookup (text.nameKey canonical)).isSome = true) .objectNameCollision
      pure (some canonical)
    | none => pure none
  let m ← Exec.get
  Exec.modify (register text kind payload normalized)
  pure m.nextObjectId

def setRefCount (id : ObjectId) (count : U32) (m : ObjectManager) : ObjectManager :=
  { m with
    objects := OrderedMap.modify id (fun entry => { entry with refCount := count }) m.objects }

def openObject (name : String) (kind : ObjectType) : Exec ObjectManager NtStatus ObjectId := do
  let canonical ← Exec.read fun _ => text.normalizeName name
  let id ← Exec.read fun m => require (m.names.lookup (text.nameKey canonical)) .objectNameNotFound
  let entry ← Exec.read fun m => require (m.objects.lookup id) .objectNameNotFound
  Exec.read fun _ => refuse (entry.kind ≠ kind) .objectTypeMismatch
  Exec.modify (setRefCount id (entry.refCount + 1))
  pure id

def destroy (id : ObjectId) (m : ObjectManager) : ObjectManager :=
  match m.objects.lookup id with
  | none => m
  | some entry =>
    { m with
      objects := OrderedMap.erase id m.objects
      names := match entry.name with
        | some name => OrderedMap.erase (text.nameKey name) m.names
        | none => m.names
      finalized := m.finalized + 1
      finalizedLog := m.finalizedLog ++ [id]
      onFinalize := m.onFinalize.map fun calls => calls ++ [(id, entry.kind, entry.payload)] }

def dropReference (id : ObjectId) : Exec ObjectManager NtStatus U32 := do
  let entry ← Exec.read fun m => require (m.objects.lookup id) .invalidHandle
  let remaining := if entry.refCount = 0 then 0 else entry.refCount - 1
  Exec.modify (setRefCount id remaining)
  if remaining = 0 then
    Exec.modify (destroy text id)
    pure remaining
  else pure remaining

def releaseObject (id : ObjectId) : Exec ObjectManager NtStatus U32 := dropReference text id

def allocate (process : U32) (object : ObjectId) (access : U32) (inheritable : Bool)
    (m : ObjectManager) : ObjectManager :=
  let table := m.table process
  let entry : HandleEntry := ⟨table.nextHandle, object, access, inheritable⟩
  let next : ProcessHandleTable :=
    ⟨table.nextHandle + 4, OrderedMap.insert table.nextHandle entry table.handles⟩
  { m with processes := OrderedMap.insert process next m.processes }

def grantHandle (process : U32) (object : ObjectId) (access : U32) (inheritable : Bool) :
    Exec ObjectManager NtStatus Handle := do
  let entry ← Exec.read fun m => require (m.objects.lookup object) .invalidHandle
  let expanded := mapGenericAccess entry.kind access
  Exec.modify (setRefCount object (entry.refCount + 1))
  let m ← Exec.get
  Exec.modify (allocate process object expanded inheritable)
  pure (m.table process).nextHandle

def lookupHandle (m : ObjectManager) (process : U32) (handle : Handle) :
    Result NtStatus HandleEntry := do
  refuse (handle = 0) .invalidHandle
  require (m.entry process handle) .invalidHandle

def duplicateHandle (sourceProcess : U32) (sourceHandle : Handle) (targetProcess desired : U32)
    (inheritable : Bool) : Exec ObjectManager NtStatus Handle := do
  let source ← Exec.read fun m => m.lookupHandle sourceProcess sourceHandle
  let object ← Exec.read fun m => require (m.objects.lookup source.object) .invalidHandle
  let effective := if desired = 0 then source.access else mapGenericAccess object.kind desired
  Exec.read fun _ =>
    refuse (accessGranted source.access effective object.kind = false) .accessDenied
  grantHandle targetProcess source.object effective inheritable

def remove (process : U32) (handle : Handle) (m : ObjectManager) : ObjectManager :=
  let update (table : ProcessHandleTable) :=
    { table with handles := OrderedMap.erase handle table.handles }
  { m with processes := OrderedMap.modify process update m.processes }

def closeHandle (process : U32) (handle : Handle) : Exec ObjectManager NtStatus Unit := do
  let removed ← Exec.read fun m => require (m.entry process handle) .invalidHandle
  Exec.modify (remove process handle)
  let _ ← dropReference text removed.object
  pure ()

def closeProcess (process : U32) : Exec ObjectManager NtStatus U32 := do
  let m ← Exec.get
  match m.processes.lookup process with
  | none => pure 0
  | some table =>
    let handles := table.handles.map Prod.fst
    Exec.forEach (closeHandle text process) handles
    Exec.modify fun m => { m with processes := OrderedMap.erase process m.processes }
    pure (BitVec.ofNat 32 handles.length)

/-- The loop over the inheritable handles of the parent. -/
def grantEach (child : U32) : List HandleEntry → Exec ObjectManager NtStatus (List Handle)
  | [] => pure []
  | entry :: rest => do
    let handle ← grantHandle child entry.object entry.access true
    let created ← grantEach child rest
    pure (handle :: created)

def inheritHandles (parent child : U32) : Exec ObjectManager NtStatus (List Handle) := do
  let m ← Exec.get
  grantEach child (m.inheritable parent)

/-! ## Payloads -/

def payload (id : ObjectId) : Exec ObjectManager NtStatus ObjectPayload := do
  let entry ← Exec.read fun m => require (m.objects.lookup id) .invalidHandle
  pure entry.payload

def setPayload (id : ObjectId) (payload : ObjectPayload) (m : ObjectManager) : ObjectManager :=
  { m with objects := OrderedMap.modify id (fun entry => { entry with payload }) m.objects }

/-- `set_event` and `reset_event`. -/
def signal (id : ObjectId) (signaled : Bool) : Exec ObjectManager NtStatus Unit := do
  match ← payload id with
  | .event manualReset _ => Exec.modify (setPayload id (.event manualReset signaled))
  | _ => Exec.throw .objectTypeMismatch

def acquireMutant (id : ObjectId) (thread : U32) : Exec ObjectManager NtStatus Bool := do
  match ← payload id with
  | .mutant none _ _ => do
    Exec.modify (setPayload id (.mutant (some thread) 1 false))
    pure true
  | .mutant (some owner) recursion abandoned =>
    if owner = thread then do
      Exec.modify (setPayload id (.mutant (some owner) (recursion + 1) abandoned))
      pure true
    else pure false
  | _ => Exec.throw .objectTypeMismatch

def releaseMutant (id : ObjectId) (thread : U32) : Exec ObjectManager NtStatus Unit := do
  match ← payload id with
  | .mutant none _ _ => Exec.throw .mutantNotOwned
  | .mutant (some owner) recursion abandoned =>
    if owner = thread then
      if 1 < recursion.toNat then
        Exec.modify (setPayload id (.mutant (some owner) (recursion - 1) abandoned))
      else Exec.modify (setPayload id (.mutant none 0 abandoned))
    else Exec.throw .accessDenied
  | _ => Exec.throw .objectTypeMismatch

end Operations

end ObjectManager

/-! ## Histories -/

inductive Operation where
  | createObject (kind : ObjectType) (payload : ObjectPayload) (name : Option String)
  | openObject (name : String) (kind : ObjectType)
  | releaseObject (id : ObjectId)
  | grantHandle (process : U32) (object : ObjectId) (access : U32) (inheritable : Bool)
  | duplicateHandle (sourceProcess : U32) (sourceHandle : Handle) (targetProcess desired : U32)
      (inheritable : Bool)
  | closeHandle (process : U32) (handle : Handle)
  | closeProcess (process : U32)
  | inheritHandles (parent child : U32)
  | signal (id : ObjectId) (signaled : Bool)
  | acquireMutant (id : ObjectId) (thread : U32)
  | releaseMutant (id : ObjectId) (thread : U32)

inductive Answer where
  | object (id : ObjectId)
  | count (remaining : U32)
  | handle (handle : Handle)
  | handles (created : List Handle)
  | flag (taken : Bool)
  | done

def Operation.perform (text : Text) : Operation → Exec ObjectManager NtStatus Answer
  | .createObject kind payload name =>
    ObjectManager.createObject text kind payload name >>= fun id => pure (.object id)
  | .openObject name kind => ObjectManager.openObject text name kind >>= fun id => pure (.object id)
  | .releaseObject id =>
    ObjectManager.releaseObject text id >>= fun remaining => pure (.count remaining)
  | .grantHandle process object access inheritable =>
    ObjectManager.grantHandle process object access inheritable >>= fun handle =>
      pure (.handle handle)
  | .duplicateHandle sourceProcess sourceHandle targetProcess desired inheritable =>
    ObjectManager.duplicateHandle sourceProcess sourceHandle targetProcess desired inheritable >>=
      fun handle =>
      pure (.handle handle)
  | .closeHandle process handle =>
    ObjectManager.closeHandle text process handle >>= fun _ => pure .done
  | .closeProcess process =>
    ObjectManager.closeProcess text process >>= fun closed => pure (.count closed)
  | .inheritHandles parent child =>
    ObjectManager.inheritHandles parent child >>= fun created => pure (.handles created)
  | .signal id signaled => ObjectManager.signal id signaled >>= fun _ => pure .done
  | .acquireMutant id thread =>
    ObjectManager.acquireMutant id thread >>= fun taken => pure (.flag taken)
  | .releaseMutant id thread => ObjectManager.releaseMutant id thread >>= fun _ => pure .done

def Operation.apply (text : Text) (m : ObjectManager) (operation : Operation) : ObjectManager :=
  ((operation.perform text).run m).state?.getD m

def Operation.run (text : Text) (m : ObjectManager) (operations : List Operation) : ObjectManager :=
  operations.foldl (Operation.apply text) m

end Casa.Casak.Object
