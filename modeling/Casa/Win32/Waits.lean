import Casa.Error
import Casa.Lib.OrderedMap
import Casa.Lib.MachineInt

/-! Waitable kernel objects of the Win32 subsystem (win32.rs, runtime/object_manager.rs):
single and multiple waits, mutexes, semaphores and the end of threads. Handles are never
closed here, and single waits are not alertable. -/
namespace Casa.Win32
open Effect

abbrev ThreadId := U32
/-- The source counts objects in a `u64` for all subsystems together; here the numbers do not wrap
around, as they would after `2 ^ 64` objects. -/
abbrev ObjectId := Nat
abbrev Handle := U32

inductive FailureCode where
  | win32InvalidHandle
  | helperPermissionDenied
  | win32NotOwner
  | fsNotFound
  | io

structure Failure where
  code : FailureCode
  message : String

def invalidHandle (message : String) : Failure := ⟨.win32InvalidHandle, message⟩

inductive WaitSatisfaction where
  | notSignaled
  | signaled
  | abandoned

inductive WaitStatus where
  | object0
  | timeout
  | abandoned
  | ioCompletion
  deriving DecidableEq

structure MutexObject where
  ownerThreadId : Option ThreadId
  recursion : U32
  abandoned : Bool
  deriving DecidableEq

inductive KernelObject where
  | event (manualReset signaled : Bool)
  | mutex (payload : MutexObject)
  | semaphore (count maximum : U32)
  | timer (dueTick : U64) (signaled : Bool)
  | thread (threadId : ThreadId)
  | process (exitCode : Option U32)
  /-- Files, sections, keys, pipes, completion ports, searches, sockets, window stations. -/
  | unwaitable
  deriving DecidableEq

/-! ## The object manager -/

namespace MutexObject

def waitSatisfaction (mutex : MutexObject) (thread : ThreadId) : WaitSatisfaction :=
  if mutex.abandoned then .abandoned
  else if mutex.ownerThreadId = none ∨ mutex.ownerThreadId = some thread then .signaled
  else .notSignaled

def consumeWait (mutex : MutexObject) (thread : ThreadId) : WaitStatus × MutexObject :=
  if mutex.abandoned then (.abandoned, ⟨some thread, 1, false⟩)
  else
    match mutex.ownerThreadId with
    | some owner =>
      if owner = thread then (.object0, { mutex with recursion := mutex.recursion + 1 })
      else (.timeout, mutex)
    | none => (.object0, { mutex with ownerThreadId := some thread, recursion := 1 })

def release (mutex : MutexObject) (thread : ThreadId) : Option MutexObject :=
  if mutex.ownerThreadId ≠ some thread then none
  else if 1 < mutex.recursion.toNat then some { mutex with recursion := mutex.recursion - 1 }
  else some ⟨none, 0, false⟩

def markAbandonedBy (mutex : MutexObject) (thread : ThreadId) : MutexObject :=
  if mutex.ownerThreadId = some thread then { mutex with ownerThreadId := none, abandoned := true }
    else mutex

end MutexObject

namespace KernelObject

def waitSatisfaction (object : KernelObject) (thread : ThreadId) (now : U64) : WaitSatisfaction :=
  match object with
  | .event _ signaled => if signaled then .signaled else .notSignaled
  | .mutex payload => payload.waitSatisfaction thread
  | .semaphore count _ => if 0 < count.toNat then .signaled else .notSignaled
  | .timer dueTick signaled => if signaled || dueTick.ule now then .signaled else .notSignaled
  | _ => .notSignaled

def consumeWait (object : KernelObject) (thread : ThreadId) (now : U64) :
    WaitStatus × KernelObject :=
  match object with
  | .event manualReset signaled =>
    if signaled then (.object0, .event manualReset (if manualReset then signaled else false))
      else (.timeout, object)
  | .mutex payload => ((payload.consumeWait thread).1, .mutex (payload.consumeWait thread).2)
  | .semaphore count maximum =>
    if 0 < count.toNat then (.object0, .semaphore (count - 1) maximum) else (.timeout, object)
  | .timer dueTick signaled =>
    if signaled || dueTick.ule now then (.object0, .timer dueTick true) else (.timeout, object)
  | _ => (.timeout, object)

def markAbandonedBy (thread : ThreadId) : KernelObject → KernelObject
  | .mutex payload => .mutex (payload.markAbandonedBy thread)
  | object => object

def released (count maximum releaseCount : U32) : U32 :=
  BitVec.ofNat 32 (min (min (count.toNat + releaseCount.toNat) (2 ^ 32 - 1)) maximum.toNat)

/-- The probe of the wait-all path of `wait_for_multiple_objects`. -/
def isSignaled (object : KernelObject) (thread : ThreadId) (now : U64) : Bool :=
  match object with
  | .event _ signaled => signaled
  | .mutex payload =>
    payload.abandoned || payload.ownerThreadId == none || payload.ownerThreadId == some thread
  | .semaphore count _ => decide (0 < count.toNat)
  | .timer dueTick signaled => signaled || dueTick.ule now
  | _ => false

def waitable : KernelObject → Bool
  | .unwaitable => false
  | _ => true

end KernelObject

/-! ## The subsystem -/

structure HandleEntry where
  objectId : ObjectId
  accessMask : U32

structure Subsystem where
  currentThreadId : ThreadId
  ticksMs : U64
  objects : List (ObjectId × KernelObject)
  nextObjectId : ObjectId
  handles : List (Handle × HandleEntry)
  nextHandle : Handle
  /-- The threads known to the subsystem, with their exit codes. -/
  threads : List (ThreadId × Option U32)
  nextThreadId : ThreadId
  /-- The number of APCs that wait for each thread. -/
  threadApcs : List (ThreadId × Nat)

structure ThreadPlan where
  exitCode : Option U32
  signaled : Bool

def synchronize : U32 := 0x00100000
def mutexModifyState : U32 := 0x00000001
def threadTerminate : U32 := 0x00000001
def semaphoreModifyState : U32 := 0x00000002

def requireAccess (granted required : U32) : Result Failure Unit :=
  if granted &&& required ≠ 0 then pure ()
  else .error ⟨.helperPermissionDenied, "handle requires access " ++ hex required ++ ", granted " ++ hex granted⟩

namespace Subsystem

def new : Subsystem where
  currentThreadId := 1
  ticksMs := 0
  objects := []
  nextObjectId := 1
  handles := []
  nextHandle := 4
  threads := []
  nextThreadId := 2
  threadApcs := []

def saturatingNext (handle : Handle) : Handle :=
  if handle.toNat + 4 < 2 ^ 32 then handle + 4 else BitVec.allOnes 32

/-- The previous thread is the answer, so that a caller can switch back. -/
def setCurrentThreadId (thread : ThreadId) : Exec Subsystem Failure ThreadId := do
  let s ← Exec.get
  Exec.modify fun s => { s with currentThreadId := thread }
  pure s.currentThreadId

def saturatingAdd (ticks milliseconds : U64) : U64 :=
  if ticks.toNat + milliseconds.toNat < 2 ^ 64 then ticks + milliseconds else BitVec.allOnes 64

/-- The guest clock advances by the whole sleep, whatever the host does. -/
def sleep (milliseconds : U64) : Exec Subsystem Failure Unit :=
  Exec.modify fun s => { s with ticksMs := saturatingAdd s.ticksMs milliseconds }

def insertObject (accessMask : U32) (object : KernelObject) : Exec Subsystem Failure Handle := do
  let s ← Exec.get
  Exec.modify fun s => { s with
    objects := OrderedMap.insert s.nextObjectId object s.objects
    nextObjectId := s.nextObjectId + 1
    handles := OrderedMap.insert s.nextHandle ⟨s.nextObjectId, accessMask⟩ s.handles
    nextHandle := saturatingNext s.nextHandle }
  pure s.nextHandle

def createMutex (initiallyOwned : Bool) : Exec Subsystem Failure Handle := do
  let s ← Exec.get
  insertObject 0x1F0001 (.mutex ⟨if initiallyOwned then some s.currentThreadId else none, 0, false⟩)

def createEvent (manualReset initialState : Bool) : Exec Subsystem Failure Handle :=
  insertObject 0x1F0003 (.event manualReset initialState)

def createSemaphore (initialCount maximum : U32) : Exec Subsystem Failure Handle :=
  insertObject 0x1F0003 (.semaphore initialCount maximum)

def createTimer (dueTick : U64) : Exec Subsystem Failure Handle :=
  insertObject 0x1F0003 (.timer dueTick false)

def createThread (plan : ThreadPlan) : Exec Subsystem Failure Handle := do
  let s ← Exec.get
  Exec.modify fun s => { s with
    nextThreadId := s.nextThreadId + 1
    threads :=
      OrderedMap.insert s.nextThreadId (if plan.signaled then plan.exitCode else none) s.threads }
  insertObject 0x1F03FF (.thread s.nextThreadId)

-- No handle is closed here, so an invalid one was never allocated and has no type history to report.
def handleEntry (s : Subsystem) (handle : Handle) :
    Result Failure (HandleEntry × KernelObject) := do
  let entry ← Result.require (s.handles.lookup handle) (invalidHandle ("invalid handle " ++ toString handle.toNat))
  let object ← Result.expect (s.objects.lookup entry.objectId)
  pure (entry, object)

def threadState (s : Subsystem) (thread : ThreadId) : Result Failure (Option U32) :=
  Result.require (s.threads.lookup thread) (invalidHandle ("unknown thread " ++ toString thread.toNat))

/-- The check that every wait makes of a handle. -/
def waitTarget (s : Subsystem) (handle : Handle) : Result Failure (HandleEntry × KernelObject) := do
  let (entry, object) ← s.handleEntry handle
  Result.refuse (object.waitable = false)
    (invalidHandle ("handle " ++ toString handle.toNat ++ " is not a waitable object"))
  requireAccess entry.accessMask synchronize
  pure (entry, object)

/-- `consume_wait` of the object manager. -/
def consumeWait (id : ObjectId) (thread : ThreadId) : Exec Subsystem Failure WaitStatus := do
  let s ← Exec.get
  match s.objects.lookup id with
  | some object =>
    Exec.modify fun s =>
      { s with objects := OrderedMap.modify id (fun object => (object.consumeWait thread s.ticksMs).2) s.objects }
    pure (object.consumeWait thread s.ticksMs).1
  | none => pure .timeout

def waitForSingleObjectInstant (handle : Handle) (thread : ThreadId) :
    Exec Subsystem Failure WaitStatus := do
  let (entry, object) ← Exec.read fun s => s.waitTarget handle
  match object with
  | .thread threadId => do
    let exitCode ← Exec.read fun s => s.threadState threadId
    pure (if exitCode.isSome then .object0 else .timeout)
  | .process exitCode => pure (if exitCode.isSome then .object0 else .timeout)
  | _ => consumeWait entry.objectId thread

/-- Every timeout comes down to the instant check: parking is the scheduler's. -/
def waitForSingleObject (handle : Handle) : Exec Subsystem Failure WaitStatus := do
  let s ← Exec.get
  waitForSingleObjectInstant handle s.currentThreadId

def waitObjectSatisfiable (s : Subsystem) (handle : Handle) (thread : ThreadId) :
    Result Failure WaitSatisfaction := do
  let (_, object) ← s.waitTarget handle
  match object with
  | .thread threadId => do
    let exitCode ← s.threadState threadId
    pure (if exitCode.isSome then .signaled else .notSignaled)
  | .process exitCode => pure (if exitCode.isSome then .signaled else .notSignaled)
  | _ => pure (object.waitSatisfaction thread s.ticksMs)

/-- The first loop of `evaluate_wait_all`: whether all are satisfiable, and any abandoned. -/
def satisfiableAll (s : Subsystem) (thread : ThreadId) :
    List Handle → Bool → Result Failure (Option Bool)
  | [], anyAbandoned => pure (some anyAbandoned)
  | handle :: rest, anyAbandoned => do
    match ← s.waitObjectSatisfiable handle thread with
    | .signaled => s.satisfiableAll thread rest anyAbandoned
    | .abandoned => s.satisfiableAll thread rest true
    | .notSignaled => pure none

def consumeWaitSet (handles : List Handle) (thread : ThreadId) : Exec Subsystem Failure Unit :=
  Exec.forEach (fun handle => do
    let (entry, object) ← Exec.read fun s => s.handleEntry handle
    match object with
    | .thread _ => pure ()
    | .process _ => pure ()
    | _ => do
      let _ ← consumeWait entry.objectId thread
      pure ()) handles

def evaluateWaitAll (handles : List Handle) (thread : ThreadId) :
    Exec Subsystem Failure (Option WaitStatus) := do
  match ← Exec.read fun s => s.satisfiableAll thread handles false with
  | none => pure none
  | some anyAbandoned => do
    consumeWaitSet handles thread
    pure (some (if anyAbandoned then .abandoned else .object0))

def releaseMutex (handle : Handle) : Exec Subsystem Failure Unit := do
  let (entry, object) ← Exec.read fun s => s.handleEntry handle
  match object with
  | .mutex mutex => do
    Exec.read fun _ => requireAccess entry.accessMask mutexModifyState
    let s ← Exec.get
    match mutex.release s.currentThreadId with
    | some released =>
      Exec.modify fun s => { s with objects := OrderedMap.modify entry.objectId (fun _ => .mutex released) s.objects }
    | none => Exec.throw ⟨.win32NotOwner, "ReleaseMutex failed: caller does not own the mutex"⟩
  | _ => Exec.throw (invalidHandle "handle is not a mutex")

/-- The count stops at the maximum, and the release succeeds all the same. -/
def releaseSemaphore (handle : Handle) (releaseCount : U32) : Exec Subsystem Failure U32 := do
  let (entry, object) ← Exec.read fun s => s.handleEntry handle
  match object with
  | .semaphore count maximum => do
    Exec.read fun _ => requireAccess entry.accessMask semaphoreModifyState
    Exec.modify fun s => { s with
      objects := OrderedMap.modify entry.objectId
        (fun _ => .semaphore (KernelObject.released count maximum releaseCount) maximum) s.objects }
    pure count
  | _ => Exec.throw (invalidHandle "handle is not a semaphore")

def markMutexesAbandonedByThread (s : Subsystem) (thread : ThreadId) : Subsystem :=
  { s with objects := s.objects.map fun entry => (entry.1, entry.2.markAbandonedBy thread) }

/-- The state of an exited thread goes with its last handle. -/
def cleanupExitedThreadState (s : Subsystem) (thread : ThreadId) : Subsystem :=
  if thread = s.currentThreadId then s
  else if s.handles.any fun entry =>
    s.objects.lookup entry.2.objectId == some (.thread thread) then s
  else if (s.threads.lookup thread).any Option.isSome then { s with threads := OrderedMap.erase thread s.threads }
  else s

def setThreadExitCodeById (thread : ThreadId) (exitCode : U32) : Exec Subsystem Failure Unit :=
  Exec.modify fun s =>
    let exited := { s with threads := OrderedMap.insert thread (some exitCode) s.threads }
    (exited.markMutexesAbandonedByThread thread).cleanupExitedThreadState thread

def terminateThread (handle : Handle) (exitCode : U32) : Exec Subsystem Failure Bool := do
  let (entry, object) ← Exec.read fun s => s.handleEntry handle
  Exec.read fun _ => requireAccess entry.accessMask threadTerminate
  match object with
  | .thread thread => do
    match ← Exec.read fun s => s.threadState thread with
    | some _ => pure false
    | none => do
      Exec.modify fun s => { s with threads := OrderedMap.modify thread (fun _ => some exitCode) s.threads }
      pure true
  | _ => Exec.throw (invalidHandle "handle is not a thread")

/-! ### `wait_for_multiple_objects` -/

def threadId (s : Subsystem) (handle : Handle) : Result Failure ThreadId := do
  let (_, object) ← s.handleEntry handle
  match object with
  | .thread thread => pure thread
  | _ => .error (invalidHandle "handle is not a thread")

/-- The thread of the handle, or else the current one. -/
def apcThread (s : Subsystem) : Option Handle → Result Failure ThreadId
  | some handle => s.threadId handle
  | none => pure s.currentThreadId

/-- The APCs of a thread are delivered all at once. -/
def takePendingApcsForHandle (threadHandle : Option Handle) : Exec Subsystem Failure Nat := do
  let thread ← Exec.read fun s => s.apcThread threadHandle
  let s ← Exec.get
  Exec.modify fun s => { s with threadApcs := OrderedMap.modify thread (fun _ => 0) s.threadApcs }
  pure ((s.threadApcs.lookup thread).getD 0)

def objectIsSignaled (s : Subsystem) (handle : Handle) : Result Failure Bool := do
  let (_, object) ← s.waitTarget handle
  match object with
  | .thread thread => pure ((s.threads.lookup thread).any Option.isSome)
  | .process exitCode => pure exitCode.isSome
  | _ => pure (object.isSignaled s.currentThreadId s.ticksMs)

/-- Every handle is probed, also after one that is not signaled. -/
def allSignaled (s : Subsystem) : List Handle → Bool → Result Failure Bool
  | [], all => pure all
  | handle :: rest, all => do
    let signaled ← s.objectIsSignaled handle
    s.allSignaled rest (all && signaled)

/-- The consuming pass; whether a mutex was abandoned is all that it keeps of the answers. -/
def acquireAll : List Handle → Bool → Exec Subsystem Failure WaitStatus
  | [], abandoned => pure (if abandoned then .abandoned else .object0)
  | handle :: rest, abandoned => do
    let status ← waitForSingleObject handle
    acquireAll rest (abandoned || status == .abandoned)

def acquireAny : List Handle → Nat → Exec Subsystem Failure (Option (WaitStatus × Nat))
  | [], _ => pure none
  | handle :: rest, index => do
    match ← waitForSingleObject handle with
    | .object0 => pure (some (.object0, index))
    | .abandoned => pure (some (.abandoned, index))
    | _ => acquireAny rest (index + 1)

def acquireSet (handles : List Handle) (waitAll : Bool) :
    Exec Subsystem Failure (Option (WaitStatus × Nat)) := do
  if waitAll then
    if ← Exec.read fun s => s.allSignaled handles true then do
      let status ← acquireAll handles false
      pure (some (status, 0))
    else pure none
  else acquireAny handles 0

/-- So many rounds of the loop; no answer means that it still waits. -/
def waitRounds (handles : List Handle) (waitAll : Bool) (timeoutMs : U32) (deadline : Option U64) :
    Nat → Exec Subsystem Failure (Option (WaitStatus × Nat))
  | 0 => pure none
  | rounds + 1 => do
    match ← acquireSet handles waitAll with
    | some answer => pure (some answer)
    | none => do
      let s ← Exec.get
      if deadline.any (BitVec.ule · s.ticksMs) then pure (some (.timeout, 2 ^ 64 - 1))
      else if timeoutMs = 0 then pure (some (.timeout, 2 ^ 64 - 1))
      else do
        sleep 1
        waitRounds handles waitAll timeoutMs deadline rounds

def waitForMultipleObjects (handles : List Handle) (waitAll : Bool) (timeoutMs : U32)
    (alertable : Bool) (threadHandle : Option Handle) (rounds : Nat) :
    Exec Subsystem Failure (Option (WaitStatus × Nat)) := do
  let s ← Exec.get
  let deadline := if timeoutMs = 0 ∨ timeoutMs = BitVec.allOnes 32 then none
    else some (saturatingAdd s.ticksMs (timeoutMs.setWidth 64))
  let apcs ← if alertable then takePendingApcsForHandle threadHandle else pure 0
  if apcs ≠ 0 then pure (some (.ioCompletion, 0))
  else waitRounds handles waitAll timeoutMs deadline rounds

section Loop
variable {R : Subsystem → Subsystem → Prop} [IsPreorder Subsystem R]
  (waits : ∀ handle, Exec.Relates R (waitForSingleObject handle))
include waits

theorem acquireSet_relates (handles : List Handle) (waitAll : Bool) :
    Exec.Relates R (acquireSet handles waitAll) := by
  have all (abandoned : Bool) : Exec.Relates R (acquireAll handles abandoned) := by
    induction handles generalizing abandoned with
    | nil => exact .pure _
    | cons handle rest ih => exact .bind (waits handle) fun _ => ih _
  have any (handles : List Handle) (index : Nat) : Exec.Relates R (acquireAny handles index) := by
    induction handles generalizing index with
    | nil => exact .pure _
    | cons handle rest ih =>
      refine .bind (waits handle) fun status => ?_
      cases status with
      | object0 | abandoned => exact .pure _
      | _ => exact ih _
  refine .ite (.bind (.read _) fun ready => .ite ?_ (.pure _)) (any handles 0)
  exact .bind (all false) fun _ => .pure _

/-- `wait_for_multiple_objects` is made of waits for one object, sleeps and the delivery of
APCs, which touches no object: what holds across each of these holds across it. -/
theorem waitForMultipleObjects_relates (sleeps : Exec.Relates R (sleep 1))
    (delivers : ∀ thread, Exec.Relates R (takePendingApcsForHandle thread)) (handles : List Handle)
    (waitAll : Bool) (timeoutMs : U32) (alertable : Bool) (thread : Option Handle) (rounds : Nat) :
    Exec.Relates R (waitForMultipleObjects handles waitAll timeoutMs alertable thread rounds) := by
  have loop (deadline : Option U64) :
      Exec.Relates R (waitRounds handles waitAll timeoutMs deadline rounds) := by
    induction rounds with
    | zero => exact .pure _
    | succ rounds ih =>
      refine .bind (acquireSet_relates waits handles waitAll) fun answer => ?_
      cases answer with
      | some => exact .pure _
      | none =>
        refine .bind .get fun s => .ite (.pure _) (.ite (.pure _) ?_)
        exact .bind sleeps fun _ => ih
  refine .bind .get fun s =>
    .ite (.bind (delivers thread) fun apcs => ?_) (.bind (.pure _) fun apcs => ?_)
  all_goals exact .ite (.pure _) (loop _)

end Loop

end Subsystem

/-! ## Histories -/

/-- `wait_for_multiple_objects` is a run of these (`waitForMultipleObjects_relates`). -/
inductive Operation where
  | setCurrentThreadId (thread : ThreadId)
  | sleep (milliseconds : U64)
  | createMutex (initiallyOwned : Bool)
  | createEvent (manualReset initialState : Bool)
  | createSemaphore (initialCount maximum : U32)
  | createTimer (dueTick : U64)
  | createThread (plan : ThreadPlan)
  | waitForSingleObject (handle : Handle)
  | evaluateWaitAll (handles : List Handle) (thread : ThreadId)
  | releaseMutex (handle : Handle)
  | releaseSemaphore (handle : Handle) (releaseCount : U32)
  | setThreadExitCodeById (thread : ThreadId) (exitCode : U32)
  | terminateThread (handle : Handle) (exitCode : U32)

inductive Answer where
  | done
  | handle (handle : Handle)
  | status (status : WaitStatus)
  | all (status : Option WaitStatus)
  | flag (taken : Bool)
  | thread (previous : ThreadId)
  | count (previous : U32)

def Operation.perform : Operation → Exec Subsystem Failure Answer
  | .setCurrentThreadId thread =>
    Subsystem.setCurrentThreadId thread >>= fun previous => pure (.thread previous)
  | .sleep milliseconds => Subsystem.sleep milliseconds >>= fun _ => pure .done
  | .createMutex initiallyOwned =>
    Subsystem.createMutex initiallyOwned >>= fun handle => pure (.handle handle)
  | .createEvent manualReset initialState =>
    Subsystem.createEvent manualReset initialState >>= fun handle => pure (.handle handle)
  | .createSemaphore initialCount maximum =>
    Subsystem.createSemaphore initialCount maximum >>= fun handle => pure (.handle handle)
  | .createTimer dueTick => Subsystem.createTimer dueTick >>= fun handle => pure (.handle handle)
  | .createThread plan => Subsystem.createThread plan >>= fun handle => pure (.handle handle)
  | .waitForSingleObject handle =>
    Subsystem.waitForSingleObject handle >>= fun status => pure (.status status)
  | .evaluateWaitAll handles thread =>
    Subsystem.evaluateWaitAll handles thread >>= fun status => pure (.all status)
  | .releaseMutex handle => Subsystem.releaseMutex handle >>= fun _ => pure .done
  | .releaseSemaphore handle releaseCount =>
    Subsystem.releaseSemaphore handle releaseCount >>= fun previous => pure (.count previous)
  | .setThreadExitCodeById thread exitCode =>
    Subsystem.setThreadExitCodeById thread exitCode >>= fun _ => pure .done
  | .terminateThread handle exitCode =>
    Subsystem.terminateThread handle exitCode >>= fun taken => pure (.flag taken)

end Casa.Win32
