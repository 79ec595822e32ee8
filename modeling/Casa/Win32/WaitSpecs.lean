import Casa.Win32.Waits

/-! What the waits and the other operations of the subsystem do: one lemma for each operation,
in terms of the objects and mutexes before and after it. -/
namespace Casa.Win32
open Effect OrderedMap Subsystem Result Option
open Exec (bind_of_ok read_bind_run read_of_ok)

/-! ## One mutex -/

def Available (mutex : MutexObject) (thread : ThreadId) : Prop :=
  (mutex.consumeWait thread).1 ≠ .timeout

section Mutex
variable {mutex : MutexObject}

/-- What decides a wait of the thread. -/
theorem wait_cases (mutex : MutexObject) (thread : ThreadId) : mutex.abandoned ∨
    mutex.abandoned = false ∧ (mutex.ownerThreadId = none ∨ mutex.ownerThreadId = some thread ∨
      ∃ other, other ≠ thread ∧ mutex.ownerThreadId = some other) := by
  cases mutex.abandoned <;> cases mutex.ownerThreadId <;> simp [or_iff_not_imp_left]

/-- The two evaluations of a wait agree. -/
theorem consumeWait_status : (mutex.consumeWait thread).1 =
    match mutex.waitSatisfaction thread with
    | .notSignaled => .timeout
    | .signaled => .object0
    | .abandoned => .abandoned := by
  rcases wait_cases mutex thread with abandoned | ⟨kept, owner | owner | ⟨other, differ, owner⟩⟩
  all_goals simp [MutexObject.consumeWait, MutexObject.waitSatisfaction, *]

theorem available_iff : Available mutex thread ↔ mutex.waitSatisfaction thread ≠ .notSignaled := by
  rw [Available, consumeWait_status]
  cases mutex.waitSatisfaction thread <;> simp

theorem abandoned_iff :
    (mutex.consumeWait thread).1 = .abandoned ↔ mutex.waitSatisfaction thread = .abandoned := by
  rw [consumeWait_status]
  cases mutex.waitSatisfaction thread <;> simp

/-- A wait that is refused leaves the mutex as it is. -/
theorem consumeWait_of_unavailable (refused : ¬ Available mutex thread) :
    (mutex.consumeWait thread).2 = mutex := by
  rw [Available] at refused
  rcases wait_cases mutex thread with abandoned | ⟨kept, owner | owner | ⟨other, differ, owner⟩⟩
  all_goals simp_all [MutexObject.consumeWait]

/-- What is granted once is granted again to the same thread. -/
theorem Available.again (available : Available mutex thread) :
    Available (mutex.consumeWait thread).2 thread := by
  rcases wait_cases mutex thread with abandoned | ⟨kept, owner | owner | ⟨other, differ, owner⟩⟩
  all_goals simp_all [Available, MutexObject.consumeWait]

end Mutex

/-! ## The mutexes of a subsystem -/

def KernelObject.mutex? : KernelObject → Option MutexObject
  | .mutex payload => some payload
  | _ => none

namespace Subsystem

def mutexAt (s : Subsystem) (id : ObjectId) : Option MutexObject :=
  (s.objects.lookup id).bind KernelObject.mutex?

def mutexId (s : Subsystem) (handle : Handle) : Option ObjectId :=
  (s.handles.lookup handle).bind fun entry => (s.mutexAt entry.objectId).map fun _ => entry.objectId

def objectId (s : Subsystem) (handle : Handle) : Option ObjectId :=
  (s.handles.lookup handle).map HandleEntry.objectId

def threadOf (s : Subsystem) (handle : Handle) : Option ThreadId :=
  (s.handles.lookup handle).bind fun entry =>
    match s.objects.lookup entry.objectId with
    | some (.thread thread) => some thread
    | _ => none

end Subsystem

section Handles
variable {s : Subsystem} {entry : HandleEntry}

theorem handleEntry_eq_ok : s.handleEntry handle = .ok (entry, object) ↔
    s.handles.lookup handle = some entry ∧ s.objects.lookup entry.objectId = some object := by
  simp only [handleEntry, bind_eq_ok, require_eq_ok, expect_eq_ok, pure_eq, ok.injEq, Prod.mk.injEq]
  constructor
  · rintro ⟨_, found, _, there, rfl, rfl⟩
    exact ⟨found, there⟩
  · rintro ⟨found, there⟩
    exact ⟨entry, found, object, there, rfl, rfl⟩

theorem mutexId_of_entry (found : s.handleEntry handle = .ok (entry, object)) :
    s.mutexId handle = object.mutex?.map fun _ => entry.objectId := by
  obtain ⟨listed, there⟩ := handleEntry_eq_ok.mp found
  simp [mutexId, mutexAt, listed, there]

theorem mutexAt_of_mutexId {id : ObjectId} (named : s.mutexId handle = some id) :
    ∃ mutex, s.mutexAt id = some mutex := by
  obtain ⟨entry, -, mapped⟩ := bind_eq_some_iff.mp named
  obtain ⟨mutex, there, rfl⟩ := map_eq_some_iff.mp mapped
  exact ⟨mutex, there⟩

theorem waitTarget_eq_ok (found : s.waitTarget handle = .ok (entry, object)) :
    s.handleEntry handle = .ok (entry, object) := by
  obtain ⟨⟨first, second⟩, there, rest⟩ := bind_eq_ok.mp found
  obtain ⟨-, -, rest⟩ := bind_eq_ok.mp rest
  obtain ⟨-, -, same⟩ := bind_eq_ok.mp rest
  rw [there]
  exact same

/-- What one wait of the thread through a handle leaves behind. -/
structure Took (s t : Subsystem) (handle : Handle) (thread : ThreadId) : Prop where
  handles : t.handles = s.handles
  threads : t.threads = s.threads
  current : t.currentThreadId = s.currentThreadId
  ticks : t.ticksMs = s.ticksMs
  nextObjectId : t.nextObjectId = s.nextObjectId
  objects : ∀ id, t.objects.lookup id =
    if s.objectId handle = some id then (s.objects.lookup id).map fun object =>
      (object.consumeWait thread s.ticksMs).2
    else s.objects.lookup id

/-- The answer of the wait on an object: threads and processes are asked for their exit code. -/
def Subsystem.answer (s : Subsystem) (object : KernelObject) (thread : ThreadId) :
    Result Failure WaitStatus :=
  match object with
  | .thread threadId => do
    let exitCode ← s.threadState threadId
    pure (if exitCode.isSome then .object0 else .timeout)
  | .process exitCode => pure (if exitCode.isSome then .object0 else .timeout)
  | _ => pure (object.consumeWait thread s.ticksMs).1

theorem objectId_of_target (found : s.waitTarget handle = .ok (entry, object)) :
    s.objectId handle = some entry.objectId ∧ s.objects.lookup entry.objectId = some object := by
  obtain ⟨listed, there⟩ := handleEntry_eq_ok.mp (waitTarget_eq_ok found)
  rw [objectId, listed]
  exact ⟨rfl, there⟩

/-- An object that a wait does not change, as those of threads and processes. -/
theorem Took.same (named : s.objectId handle = some entry.objectId)
    (there : s.objects.lookup entry.objectId = some object)
    (kept : (object.consumeWait thread s.ticksMs).2 = object) : Took s s handle thread := by
  refine ⟨rfl, rfl, rfl, rfl, rfl, fun id => ?_⟩
  split
  case isTrue same =>
    obtain rfl := some.inj (named.symm.trans same)
    rw [there, map_some, kept]
  case isFalse => rfl

theorem consumeWait_took (named : s.objectId handle = some entry.objectId)
    (there : s.objects.lookup entry.objectId = some object) :
    ∃ t, (Subsystem.consumeWait entry.objectId thread).run s =
      .ok (object.consumeWait thread s.ticksMs).1 t ∧
      Took s t handle thread := by
  have run : (consumeWait entry.objectId thread).run s = .ok (object.consumeWait thread s.ticksMs).1
      { s with objects :=
        OrderedMap.modify entry.objectId (fun object => (object.consumeWait thread s.ticksMs).2) s.objects } := by
    rw [consumeWait, Exec.get_bind_run, there]
    rfl
  refine ⟨_, run, rfl, rfl, rfl, rfl, rfl, fun id => ?_⟩
  rw [lookup_modify, named]
  exact if_congr (eq_comm.trans some_inj.symm) rfl rfl

/-- A wait through a handle, from its target and the answer. -/
theorem waitInstant_run (found : s.waitTarget handle = .ok (entry, object))
    (answer : s.answer object thread = .ok status) :
    ∃ t, (waitForSingleObjectInstant handle thread).run s = .ok status t ∧
      Took s t handle thread := by
  obtain ⟨named, there⟩ := objectId_of_target found
  have read := read_of_ok (g := fun s => waitTarget s handle) found
  obtain ⟨t, ran, took⟩ := consumeWait_took named there
  cases object with
  | thread threadId =>
    obtain ⟨exitCode, state, answer⟩ := bind_eq_ok.mp answer
    obtain rfl := ok.inj answer
    have stateRead := read_of_ok (g := fun s => threadState s threadId) state
    exact ⟨s, (bind_of_ok read).trans (bind_of_ok stateRead), Took.same named there rfl⟩
  | process =>
    obtain rfl := ok.inj answer
    exact ⟨s, bind_of_ok read, Took.same named there rfl⟩
  | _ =>
    obtain rfl := ok.inj answer
    exact ⟨t, (bind_of_ok read).trans ran, took⟩

theorem waitInstant_eq_ok (ran : (waitForSingleObjectInstant handle thread).run s = .ok status t) :
    ∃ entry object, s.waitTarget handle = .ok (entry, object) ∧
      s.answer object thread = .ok status ∧ Took s t handle thread := by
  obtain ⟨⟨entry, object⟩, mid, read, rest⟩ := Exec.bind_eq_ok.mp ran
  obtain ⟨found, rfl⟩ := Exec.read_eq_ok.mp read
  have answer : mid.answer object thread = .ok status := by
    cases object with
    | thread =>
      obtain ⟨exitCode, _, state, told⟩ := Exec.bind_eq_ok.mp rest
      obtain ⟨state, rfl⟩ := Exec.read_eq_ok.mp state
      cases told
      exact bind_eq_ok.mpr ⟨exitCode, state, rfl⟩
    | process =>
      cases rest
      rfl
    | _ =>
      obtain ⟨_, consumed, -⟩ := consumeWait_took (objectId_of_target found).1 (objectId_of_target found).2
      cases consumed.symm.trans rest
      rfl
  obtain ⟨after, again, took⟩ := waitInstant_run found answer
  cases again.symm.trans ran
  exact ⟨entry, object, found, answer, took⟩

theorem Took.objectId (took : Took s t handle thread) (other : Handle) :
    t.objectId other = s.objectId other := by
  rw [Subsystem.objectId, Subsystem.objectId, took.handles]

theorem Took.absent (took : Took s t handle thread) (id : ObjectId) :
    t.objects.lookup id = none ↔ s.objects.lookup id = none := by
  rw [took.objects]
  split
  · rw [map_eq_none_iff]
  · rfl

theorem Took.handleEntry (took : Took s t handle thread)
    (found : ∃ pair, s.handleEntry other = .ok pair) : ∃ pair, t.handleEntry other = .ok pair := by
  obtain ⟨⟨entry, object⟩, found⟩ := found
  obtain ⟨listed, there⟩ := handleEntry_eq_ok.mp found
  cases still : t.objects.lookup entry.objectId with
  | none =>
    rw [took.absent, there] at still
    cases still
  | some after =>
    exact ⟨(entry, after), handleEntry_eq_ok.mpr ⟨by rw [took.handles, listed], still⟩⟩

theorem mutex_consumeWait (object : KernelObject) :
    (object.consumeWait thread now).2.mutex? = object.mutex?.map fun mutex =>
      (mutex.consumeWait thread).2 := by
  cases object with
  | mutex => rfl
  | event manualReset signaled => cases signaled <;> rfl
  | semaphore | timer =>
    rw [KernelObject.consumeWait]
    split <;> rfl
  | thread | process | unwaitable => rfl

theorem mutexId_iff {id : ObjectId} : s.mutexId handle = some id ↔
    s.objectId handle = some id ∧ ∃ mutex, s.mutexAt id = some mutex := by
  rw [mutexId, objectId]
  cases s.handles.lookup handle with
  | none => simp
  | some =>
    simp only [bind_some, map_some, map_eq_some_iff, some.injEq]
    constructor
    · rintro ⟨mutex, there, rfl⟩
      exact ⟨rfl, mutex, there⟩
    · rintro ⟨rfl, mutex, there⟩
      exact ⟨mutex, there, rfl⟩

/-- A wait seen from the mutexes. -/
theorem Took.mutexes (took : Took s t handle thread) (id : ObjectId) : t.mutexAt id =
    if s.mutexId handle = some id then (s.mutexAt id).map fun mutex => (mutex.consumeWait thread).2
      else s.mutexAt id := by
  rw [mutexAt, took.objects]
  by_cases named : s.objectId handle = some id
  · rw [if_pos named]
    have consumed : ((s.objects.lookup id).map fun object => (object.consumeWait thread s.ticksMs).2).bind
        KernelObject.mutex? = (s.mutexAt id).map fun mutex => (mutex.consumeWait thread).2 := by
      rw [mutexAt]
      cases s.objects.lookup id with
      | none => rfl
      | some object => exact mutex_consumeWait object
    rw [consumed]
    split
    · rfl
    case isFalse other =>
      cases there : s.mutexAt id with
      | none => rfl
      | some mutex => exact absurd (mutexId_iff.mpr ⟨named, mutex, there⟩) other
  · rw [if_neg named, if_neg fun mine => named (mutexId_iff.mp mine).1]
    rfl

theorem Took.mutexId (took : Took s t handle thread) : t.mutexId other = s.mutexId other := by
  rw [Subsystem.mutexId, took.handles]
  refine bind_congr fun entry _ => ?_
  rw [took.mutexes]
  split
  · rw [map_map]
    rfl
  · rfl

/-- The answer of a wait on a mutex is its own. -/
theorem answer_mutex {id : ObjectId} (found : s.waitTarget handle = .ok (entry, object))
    (answer : s.answer object thread = .ok status) (named : s.mutexId handle = some id)
    (there : s.mutexAt id = some mutex) : status = (mutex.consumeWait thread).1 := by
  obtain ⟨mine, present⟩ := objectId_of_target found
  obtain rfl := some.inj (mine.symm.trans (mutexId_iff.mp named).1)
  rw [mutexAt, present] at there
  cases object with
  | mutex =>
    obtain rfl := some.inj there
    cases answer
    rfl
  | _ => cases there

end Handles

/-! ## Wait-all sets -/

section WaitAll
variable {s : Subsystem} {handles : List Handle}

theorem signaled_ne_abandoned [Decidable c] :
    (if c then WaitSatisfaction.signaled else .notSignaled) ≠ .abandoned := by
  split <;> exact WaitSatisfaction.noConfusion

/-- Only mutexes are abandoned. -/
theorem waitSatisfaction_ne_abandoned {object : KernelObject} (other : object.mutex? = none) :
    object.waitSatisfaction thread now ≠ .abandoned := by
  cases object with
  | mutex => cases other
  | event | semaphore | timer => exact signaled_ne_abandoned
  | thread | process | unwaitable => exact WaitSatisfaction.noConfusion

theorem waitObjectSatisfiable_eq_ok
    (answered : s.waitObjectSatisfiable handle thread = .ok satisfaction) :
    ∃ entry object, s.handleEntry handle = .ok (entry, object) ∧
      (∀ mutex, object.mutex? = some mutex → satisfaction = mutex.waitSatisfaction thread) ∧
      (object.mutex? = none → satisfaction ≠ .abandoned) := by
  obtain ⟨⟨entry, object⟩, found, answered⟩ := bind_eq_ok.mp answered
  refine ⟨entry, object, waitTarget_eq_ok found, ?_⟩
  cases object with
  | thread =>
    obtain ⟨exitCode, -, answered⟩ := bind_eq_ok.mp answered
    obtain rfl := ok.inj answered
    exact ⟨fun _ isMutex => (some_ne_none _ isMutex.symm).elim, fun _ => signaled_ne_abandoned⟩
  | process =>
    obtain rfl := ok.inj answered
    exact ⟨fun _ isMutex => (some_ne_none _ isMutex.symm).elim, fun _ => signaled_ne_abandoned⟩
  | mutex =>
    obtain rfl := ok.inj answered
    refine ⟨fun mutex isMutex => ?_, fun other => (some_ne_none _ other).elim⟩
    obtain rfl := some.inj isMutex
    rfl
  | _ =>
    obtain rfl := ok.inj answered
    exact ⟨fun _ isMutex => (some_ne_none _ isMutex.symm).elim, fun other => waitSatisfaction_ne_abandoned other⟩

theorem satisfiableAll_eq_some (answered : s.satisfiableAll thread handles before = .ok (some any)) :
    (∀ handle ∈ handles, ∃ satisfaction,
      s.waitObjectSatisfiable handle thread = .ok satisfaction ∧ satisfaction ≠ .notSignaled) ∧
    (any ↔
      before ∨ ∃ handle ∈ handles, s.waitObjectSatisfiable handle thread = .ok .abandoned) := by
  induction handles generalizing before with
  | nil =>
    obtain rfl := some.inj (ok.inj answered)
    simp
  | cons handle rest ih =>
    obtain ⟨satisfaction, here, answered⟩ := bind_eq_ok.mp answered
    cases satisfaction with
    | notSignaled => cases ok.inj answered
    | signaled | abandoned =>
      obtain ⟨others, told⟩ := ih answered
      refine ⟨List.forall_mem_cons.mpr ⟨⟨_, here, WaitSatisfaction.noConfusion⟩, others⟩, ?_⟩
      simp [told, here]

/-- One round of `consume_wait_set`. -/
theorem consumeWaitSet_cons (found : ∃ pair, s.handleEntry handle = .ok pair) (thread : ThreadId) :
    ∃ t, Took s t handle thread ∧
      (consumeWaitSet (handle :: rest) thread).run s = (consumeWaitSet rest thread).run t := by
  obtain ⟨⟨entry, object⟩, found⟩ := found
  have read := read_of_ok (g := fun s => handleEntry s handle) found
  obtain ⟨listed, there⟩ := handleEntry_eq_ok.mp found
  have named : s.objectId handle = some entry.objectId := by rw [objectId, listed, map_some]
  obtain ⟨t, ran, took⟩ := consumeWait_took named there
  cases object with
  | thread | process => exact ⟨s, Took.same named there rfl, bind_of_ok (bind_of_ok read)⟩
  | _ => exact ⟨t, took, bind_of_ok ((bind_of_ok read).trans (bind_of_ok ran))⟩

end WaitAll

section Sets
variable {s : Subsystem} {handles : List Handle}

variable (answered : s.satisfiableAll thread handles false = .ok (some any))
include answered

theorem satisfiable_found : ∀ handle ∈ handles, ∃ pair, s.handleEntry handle = .ok pair := by
  intro handle listed
  obtain ⟨_, satisfied, -⟩ := (satisfiableAll_eq_some answered).1 handle listed
  obtain ⟨entry, object, found, -⟩ := waitObjectSatisfiable_eq_ok satisfied
  exact ⟨(entry, object), found⟩

omit answered in
/-- The mutex behind a listed handle was probed with the answer of its own. -/
theorem satisfiable_mutex {id : ObjectId}
    (answered : s.waitObjectSatisfiable handle thread = .ok satisfaction)
    (named : s.mutexId handle = some id) (there : s.mutexAt id = some mutex) :
    satisfaction = mutex.waitSatisfaction thread := by
  obtain ⟨entry, object, found, ofMutex, -⟩ := waitObjectSatisfiable_eq_ok answered
  apply ofMutex
  rw [mutexId_of_entry found] at named
  obtain ⟨_, -, rfl⟩ := map_eq_some_iff.mp named
  rw [mutexAt, (handleEntry_eq_ok.mp found).2] at there
  exact there

theorem satisfiable_available :
    ∀ id ∈ handles.filterMap s.mutexId, ∀ mutex, s.mutexAt id = some mutex →
      Available mutex thread := by
  intro id listed mutex there
  obtain ⟨handle, among, named⟩ := List.mem_filterMap.mp listed
  obtain ⟨satisfaction, satisfied, ready⟩ := (satisfiableAll_eq_some answered).1 handle among
  rw [available_iff, ← satisfiable_mutex satisfied named there]
  exact ready

theorem satisfiable_abandoned :
    any ↔ ∃ id ∈ handles.filterMap s.mutexId, ∃ mutex,
      s.mutexAt id = some mutex ∧ mutex.waitSatisfaction thread = .abandoned := by
  rw [(satisfiableAll_eq_some answered).2]
  constructor
  · rintro (none | ⟨handle, among, satisfied⟩)
    · cases none
    · obtain ⟨entry, object, found, -, onlyMutex⟩ := waitObjectSatisfiable_eq_ok satisfied
      have named := mutexId_of_entry found
      cases isMutex : object.mutex? with
      | none => exact absurd rfl (onlyMutex isMutex)
      | some =>
        rw [isMutex] at named
        obtain ⟨_, there⟩ := mutexAt_of_mutexId named
        exact ⟨_, List.mem_filterMap.mpr ⟨handle, among, named⟩, _, there,
          (satisfiable_mutex satisfied named there).symm⟩
  · rintro ⟨id, listed, mutex, there, abandoned⟩
    obtain ⟨handle, among, named⟩ := List.mem_filterMap.mp listed
    obtain ⟨satisfaction, satisfied, -⟩ := (satisfiableAll_eq_some answered).1 handle among
    rw [satisfiable_mutex satisfied named there, abandoned] at satisfied
    exact .inr ⟨handle, among, satisfied⟩

end Sets

/-! ## Operations -/

/-- The computation stops before it has changed anything. -/
def Stops {α : Type} (s : Subsystem) (outcome : Outcome Subsystem Failure α) : Prop :=
  (∃ reason, outcome = .error reason s) ∨ outcome = .panic

theorem Stops.bind {f : Exec Subsystem Failure α} (stops : Stops s (f.run s)) :
    Stops s ((f >>= next).run s) := by
  rcases stops with ⟨reason, ran⟩ | ran
  · exact .inl ⟨reason, Exec.bind_of_error ran⟩
  · exact .inr (Exec.bind_of_panic ran)

theorem Stops.ne_ok (stops : Stops s outcome) : outcome ≠ .ok value t := by
  rintro rfl
  rcases stops with ⟨_, failed⟩ | failed <;> cases failed

/-- A wait either stops, or takes its answer from the object behind the handle. -/
theorem waitForSingleObject_cases : Stops s ((waitForSingleObject handle).run s) ∨
    ∃ entry object status t, s.waitTarget handle = .ok (entry, object) ∧
      s.answer object s.currentThreadId = .ok status ∧
      (waitForSingleObject handle).run s = .ok status t ∧ Took s t handle s.currentThreadId := by
  cases target : s.waitTarget handle with
  | error reason =>
    left
    rw [waitForSingleObject, Exec.get_bind_run, waitForSingleObjectInstant, read_bind_run, target]
    exact .inl ⟨reason, rfl⟩
  | panic =>
    left
    rw [waitForSingleObject, Exec.get_bind_run, waitForSingleObjectInstant, read_bind_run, target]
    exact .inr rfl
  | ok pair =>
    obtain ⟨entry, object⟩ := pair
    have read := read_of_ok (g := fun s => waitTarget s handle) target
    cases answer : s.answer object s.currentThreadId with
    | ok status =>
      obtain ⟨t, ran, took⟩ := waitInstant_run target answer
      exact .inr ⟨entry, object, status, t, rfl, answer, ran, took⟩
    | error =>
      left
      cases object with
      | thread threadId =>
        -- only a thread that is not known has no answer
        cases state : s.threadState threadId with
        | ok =>
          rw [Subsystem.answer, state] at answer
          cases answer
        | error unknown =>
          refine .inl ⟨unknown, (bind_of_ok read).trans (Exec.bind_of_error ?_)⟩
          rw [Exec.read_eq, state]
        | panic =>
          refine .inr ((bind_of_ok read).trans (Exec.bind_of_panic ?_))
          rw [Exec.read_eq, state]
      | _ => cases answer
    | panic =>
      left
      cases object with
      | thread threadId =>
        have known : s.threadState threadId ≠ .panic := require_ne_panic
        cases state : s.threadState threadId with
        | ok | error =>
          rw [Subsystem.answer, state] at answer
          cases answer
        | panic => exact absurd state known
      | _ => cases answer

/-- A look at the state stops a call, or the rest of the call decides. -/
theorem stops_or_rest {look : Subsystem → Result Failure β} {next : β → Exec Subsystem Failure α}
    (rest : ∀ value, look s = .ok value → (Exec.read look >>= next).run s = (next value).run s →
      Stops s ((next value).run s) ∨ q) : Stops s ((Exec.read look >>= next).run s) ∨ q := by
  cases found : look s with
  | ok value =>
    have ran : (Exec.read look >>= next).run s = (next value).run s := bind_of_ok (read_of_ok found)
    rw [ran]
    exact rest value found ran
  | error reason => exact .inl (.inl ⟨reason, by rw [read_bind_run, found]⟩)
  | panic => exact .inl (.inr (by rw [read_bind_run, found]))

theorem evaluateWaitAll_cases (s : Subsystem) (handles : List Handle) (thread : ThreadId) :
    Stops s ((evaluateWaitAll handles thread).run s) ∨
    (evaluateWaitAll handles thread).run s = .ok none s ∨
    ∃ any, s.satisfiableAll thread handles false = .ok (some any) ∧
      (evaluateWaitAll handles thread).run s =
        (consumeWaitSet handles thread >>= fun _ =>
          pure (some (if any then WaitStatus.abandoned else .object0))).run s := by
  rw [evaluateWaitAll]
  refine stops_or_rest fun all answered ran => ?_
  rw [ran]
  cases all with
  | none => exact .inr (.inl rfl)
  | some any => exact .inr (.inr ⟨any, answered, rfl⟩)

theorem releaseMutex_cases : Stops s ((releaseMutex handle).run s) ∨
    ∃ id mutex after, s.mutexId handle = some id ∧ s.mutexAt id = some mutex ∧
      mutex.release s.currentThreadId = some after ∧
      (releaseMutex handle).run s =
        .ok () { s with objects := OrderedMap.modify id (fun _ => .mutex after) s.objects } := by
  rw [releaseMutex]
  refine stops_or_rest fun (entry, object) found ran => ?_
  rw [ran]
  have named := mutexId_of_entry found
  cases object with
  | mutex payload =>
    refine stops_or_rest fun _ _ ran => ?_
    rw [ran, Exec.get_bind_run]
    cases released : payload.release s.currentThreadId with
    | none => exact .inl (.inl ⟨_, rfl⟩)
    | some after =>
      refine .inr ⟨entry.objectId, payload, after, named, ?_, released, rfl⟩
      rw [mutexAt, (handleEntry_eq_ok.mp found).2]
      rfl
  | _ => exact .inl (.inl ⟨_, rfl⟩)

theorem releaseSemaphore_cases : Stops s ((releaseSemaphore handle releaseCount).run s) ∨
    ∃ entry count maximum, s.handleEntry handle = .ok (entry, .semaphore count maximum) ∧
      (releaseSemaphore handle releaseCount).run s = .ok count { s with
        objects := OrderedMap.modify entry.objectId
          (fun _ => .semaphore (KernelObject.released count maximum releaseCount) maximum) s.objects } := by
  rw [releaseSemaphore]
  refine stops_or_rest fun (entry, object) found ran => ?_
  rw [ran]
  cases object with
  | semaphore count maximum =>
    refine stops_or_rest fun _ _ ran => ?_
    exact .inr ⟨entry, count, maximum, found, ran⟩
  | _ => exact .inl (.inl ⟨_, rfl⟩)

theorem terminateThread_cases : Stops s ((terminateThread handle exitCode).run s) ∨
    (terminateThread handle exitCode).run s = .ok false s ∨
    ∃ thread, s.threadOf handle = some thread ∧ s.threads.lookup thread = some none ∧
      (terminateThread handle exitCode).run s =
        .ok true { s with threads := OrderedMap.modify thread (fun _ => some exitCode) s.threads } := by
  rw [terminateThread]
  refine stops_or_rest fun (entry, object) found ran => ?_
  rw [ran]
  refine stops_or_rest fun _ _ ran => ?_
  rw [ran]
  cases object with
  | thread threadId =>
    refine stops_or_rest fun code state ran => ?_
    rw [ran]
    cases code with
    | some _ => exact .inr (.inl rfl)
    | none =>
      obtain ⟨listed, there⟩ := handleEntry_eq_ok.mp found
      refine .inr (.inr ⟨threadId, ?_, require_eq_ok.mp state, rfl⟩)
      simp [threadOf, listed, there]
  | _ => exact .inl (.inl ⟨_, rfl⟩)

/-- The end of a thread marks the mutexes that it owns. -/
theorem objects_setThreadExitCode :
    ∃ t, (setThreadExitCodeById thread exitCode).run s = .ok () t ∧
      t.nextObjectId = s.nextObjectId ∧
      ∀ id, t.objects.lookup id = (s.objects.lookup id).map (KernelObject.markAbandonedBy thread) := by
  let exited : Subsystem := { s with threads := OrderedMap.insert thread (some exitCode) s.threads }
  let marked := exited.markMutexesAbandonedByThread thread
  have cleaned : (marked.cleanupExitedThreadState thread).objects = marked.objects ∧
      (marked.cleanupExitedThreadState thread).nextObjectId = marked.nextObjectId := by
    rw [cleanupExitedThreadState]
    split
    · exact ⟨rfl, rfl⟩
    · split
      · exact ⟨rfl, rfl⟩
      · split <;> exact ⟨rfl, rfl⟩
  refine ⟨marked.cleanupExitedThreadState thread, rfl, cleaned.2, fun id => ?_⟩
  rw [cleaned.1]
  exact lookup_map _ _ _

theorem mutexAt_setThreadExitCode :
    ∃ t, (setThreadExitCodeById thread exitCode).run s = .ok () t ∧
      t.nextObjectId = s.nextObjectId ∧
      (∀ id, t.mutexAt id = (s.mutexAt id).map (MutexObject.markAbandonedBy · thread)) ∧
      ∀ id, t.objects.lookup id = none ↔ s.objects.lookup id = none := by
  obtain ⟨t, ran, next, objects⟩ := objects_setThreadExitCode
  refine ⟨t, ran, next, fun id => ?_, fun id => ?_⟩
  · rw [mutexAt, mutexAt, objects]
    cases s.objects.lookup id with
    | none => rfl
    | some object => cases object <;> rfl
  · rw [objects, map_eq_none_iff]

end Casa.Win32
