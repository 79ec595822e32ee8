import Casa.Lib.Along
import Casa.Win32.WaitAll
import Mathlib.Logic.Function.Basic

/-! Semaphores over whole histories. The count is what was put in less what was taken out; a
release puts in what the maximum leaves room for. -/
namespace Casa.Win32
open Effect OrderedMap Option Function List
open Exec (bind_of_ok)

/-! ## The semaphores of a subsystem -/

structure SemaphoreObject where
  count : U32
  maximum : U32

def KernelObject.semaphore? : KernelObject → Option SemaphoreObject
  | .semaphore count maximum => some ⟨count, maximum⟩
  | _ => none

def SemaphoreObject.taken (semaphore : SemaphoreObject) : SemaphoreObject :=
  if 0 < semaphore.count.toNat then { semaphore with count := semaphore.count - 1 } else semaphore

def Subsystem.semaphoreAt (s : Subsystem) (id : ObjectId) : Option SemaphoreObject :=
  (s.objects.lookup id).bind KernelObject.semaphore?

open Subsystem (semaphoreAt)

theorem taken_count (semaphore : SemaphoreObject) :
    semaphore.taken.count.toNat = semaphore.count.toNat - 1 ∧
      semaphore.taken.maximum = semaphore.maximum := by
  rw [SemaphoreObject.taken]
  split
  case isTrue positive =>
    refine ⟨?_, rfl⟩
    bv_omega
  case isFalse zero => exact ⟨by omega, rfl⟩

theorem semaphore_consumeWait (object : KernelObject) :
    (object.consumeWait thread now).2.semaphore? = object.semaphore?.map SemaphoreObject.taken := by
  cases object with
  | event manualReset signaled => cases signaled <;> rfl
  | semaphore count =>
    by_cases positive : 0 < count.toNat <;>
      simp [KernelObject.consumeWait, KernelObject.semaphore?, SemaphoreObject.taken, positive]
  | timer =>
    rw [KernelObject.consumeWait]
    split <;> rfl
  | _ => rfl

/-- A wait seen from the semaphores. -/
theorem Took.semaphores (took : Took s t handle thread) (id : ObjectId) : t.semaphoreAt id =
    if s.objectId handle = some id then (s.semaphoreAt id).map SemaphoreObject.taken
      else s.semaphoreAt id := by
  rw [semaphoreAt, took.objects]
  split
  · rw [semaphoreAt]
    cases s.objects.lookup id with
    | none => rfl
    | some object => exact semaphore_consumeWait object
  · rfl

/-- The consuming pass takes one signal for each listing, as far as there are any. -/
theorem consumeWaitSet_semaphores
    (found : ∀ handle ∈ handles, ∃ pair, s.handleEntry handle = .ok pair)
    (ran : (Subsystem.consumeWaitSet handles thread).run s = .ok () t) :
    t.nextObjectId = s.nextObjectId ∧
      (∀ id, t.objects.lookup id = none ↔ s.objects.lookup id = none) ∧
    ∀ id semaphore, t.semaphoreAt id = some semaphore → ∃ before, s.semaphoreAt id = some before ∧
      semaphore.count.toNat = before.count.toNat - (handles.filterMap s.objectId).count id ∧
      semaphore.maximum = before.maximum := by
  induction handles generalizing s with
  | nil =>
    cases ran
    exact ⟨rfl, fun _ => Iff.rfl, fun id semaphore there => ⟨semaphore, there, rfl, rfl⟩⟩
  | cons handle rest ih =>
    obtain ⟨here, others⟩ := forall_mem_cons.mp found
    obtain ⟨mid, took, run⟩ := consumeWaitSet_cons here thread
    rw [run] at ran
    obtain ⟨next, absent, counts⟩ :=
      ih (fun other listed => took.handleEntry (others other listed)) ran
    refine ⟨next.trans took.nextObjectId, fun id => (absent id).trans (took.absent id), fun id semaphore there => ?_⟩
    obtain ⟨between, present, count, maximum⟩ := counts id semaphore there
    rw [took.sameIds] at count
    rw [took.semaphores] at present
    split at present
    case isTrue named =>
      obtain ⟨before, first, rfl⟩ := map_eq_some_iff.mp present
      obtain ⟨less, sameMaximum⟩ := taken_count before
      refine ⟨before, first, ?_, maximum.trans sameMaximum⟩
      rw [filterMap_cons_some named, count_cons_self]
      omega
    case isFalse other =>
      refine ⟨between, present, ?_, maximum⟩
      cases named : s.objectId handle with
      | none => rw [filterMap_cons_none named, count]
      | some first =>
        have different : first ≠ id := fun same => other (named.trans (congrArg some same))
        rw [filterMap_cons_some named, count_cons_of_ne different, count]

/-- A release adds its amount up to the maximum. -/
theorem released_toNat (count maximum amount : U32) :
    (KernelObject.released count maximum amount).toNat =
      min (count.toNat + amount.toNat) maximum.toNat := by
  have small : maximum.toNat < 2 ^ 32 := maximum.isLt
  rw [KernelObject.released, BitVec.toNat_ofNat, Nat.mod_eq_of_lt] <;> omega

/-! ## The tally of a history -/

/-- The initial count with what all successful releases put in, and the number of successful waits. -/
structure Tally where
  added : Nat
  waits : Nat

abbrev Tallies := ObjectId → Tally

namespace Tallies

def wait (tallies : Tallies) (id : ObjectId) : Tallies :=
  Function.update tallies id { tallies id with waits := (tallies id).waits + 1 }

/-- A release that answers with the previous count puts in what the maximum leaves room for. -/
def release (tallies : Tallies) (s : Subsystem) (previous amount : U32) (id : ObjectId) : Tallies :=
  let maximum := ((s.semaphoreAt id).map fun semaphore => semaphore.maximum.toNat).getD 0
  Function.update tallies id { tallies id with
    added := (tallies id).added + (min (previous.toNat + amount.toNat) maximum - previous.toNat) }

/-- What an operation adds, from its outcome in the state in which it starts. -/
def record (tallies : Tallies) (s : Subsystem) :
    Operation → Outcome Subsystem Failure Answer → Tallies
  | .createSemaphore initialCount _, .ok _ _ =>
    Function.update tallies s.nextObjectId ⟨initialCount.toNat, 0⟩
  | .waitForSingleObject handle, .ok (.status status) _ =>
    if status = .timeout then tallies else (s.objectId handle).toList.foldl wait tallies
  | .evaluateWaitAll handles _, .ok (.all (some _)) _ =>
    (handles.filterMap s.objectId).foldl wait tallies
  | .releaseSemaphore handle amount, .ok (.count previous) _ =>
    (s.objectId handle).toList.foldl (release · s previous amount) tallies
  | _, _ => tallies

theorem record_error (tallies : Tallies) :
    tallies.record s operation (.error reason t) = tallies := by
  cases operation <;> rfl

theorem record_panic (tallies : Tallies) : tallies.record s operation .panic = tallies := by
  cases operation <;> rfl

theorem waits_foldl (tallies : Tallies) (ids : List ObjectId) (id : ObjectId) :
    (ids.foldl wait tallies id).added = (tallies id).added ∧
      (ids.foldl wait tallies id).waits = (tallies id).waits + ids.count id := by
  induction ids generalizing tallies with
  | nil => exact ⟨rfl, rfl⟩
  | cons first rest ih =>
    obtain ⟨added, waits⟩ := ih (tallies.wait first)
    rw [foldl_cons, added, waits, wait]
    by_cases same : id = first
    · rw [same, update_self, count_cons_self]
      exact ⟨rfl, by dsimp only; omega⟩
    · rw [update_of_ne same, count_cons_of_ne (Ne.symm same)]
      exact ⟨rfl, rfl⟩

end Tallies

/-- The conservation law. -/
structure Balanced (s : Subsystem) (tallies : Tallies) : Prop where
  counts : ∀ id semaphore, s.semaphoreAt id = some semaphore →
    semaphore.count.toNat + (tallies id).waits = (tallies id).added ∧
      semaphore.count.toNat ≤ semaphore.maximum.toNat
  fresh : ∀ id, s.nextObjectId ≤ id → s.objects.lookup id = none

namespace Balanced

/-- What leaves the semaphores alone keeps the balance. -/
theorem same (balanced : Balanced s tallies) (next : t.nextObjectId = s.nextObjectId)
    (semaphores : ∀ id, t.semaphoreAt id = s.semaphoreAt id)
    (absent : ∀ id, t.objects.lookup id = none ↔ s.objects.lookup id = none) :
    Balanced t tallies := by
  constructor
  · intro id semaphore there
    rw [semaphores] at there
    exact balanced.counts id semaphore there
  · intro id beyond
    rw [next] at beyond
    rw [absent]
    exact balanced.fresh id beyond

theorem frame (balanced : Balanced s tallies) (next : t.nextObjectId = s.nextObjectId)
    (objects : t.objects = s.objects) : Balanced t tallies := by
  refine balanced.same next (fun id => ?_) fun id => ?_
  · rw [semaphoreAt, objects]
    rfl
  · rw [objects]

theorem grow (balanced : Balanced s tallies) (next : t.nextObjectId = s.nextObjectId + 1)
    (objects : ∀ id, t.objects.lookup id = if id = s.nextObjectId then some object else s.objects.lookup id)
    (others : ∀ id, id ≠ s.nextObjectId → changed id = tallies id)
    (created : ∀ semaphore, object.semaphore? = some semaphore →
      semaphore.count.toNat + (changed s.nextObjectId).waits = (changed s.nextObjectId).added ∧
      semaphore.count.toNat ≤ semaphore.maximum.toNat) : Balanced t changed := by
  constructor
  · intro id semaphore there
    rw [semaphoreAt, objects] at there
    by_cases same : id = s.nextObjectId
    · rw [if_pos same] at there
      rw [same]
      exact created semaphore there
    · rw [if_neg same] at there
      rw [others id same]
      exact balanced.counts id semaphore there
  · intro id beyond
    rw [next] at beyond
    rw [objects, if_neg (Nat.ne_of_gt beyond)]
    exact balanced.fresh id (Nat.le_of_lt beyond)

end Balanced

/-! ## Steps -/

structure SemaphoreHistory where
  subsystem : Subsystem
  tallies : Tallies

namespace SemaphoreHistory

def new (start : Subsystem) : SemaphoreHistory where
  subsystem := start
  tallies :=
    fun id => ⟨((start.semaphoreAt id).map fun semaphore => semaphore.count.toNat).getD 0, 0⟩

def step (history : SemaphoreHistory) (operation : Operation) : SemaphoreHistory where
  subsystem := ((operation.perform.run history.subsystem).state?).getD history.subsystem
  tallies :=
    history.tallies.record history.subsystem operation (operation.perform.run history.subsystem)

def Conserved (history : SemaphoreHistory) : Prop :=
  ∀ id semaphore, history.subsystem.semaphoreAt id = some semaphore →
    (semaphore.count.toNat : Int) = (history.tallies id).added - (history.tallies id).waits ∧
      semaphore.count.toNat ≤ semaphore.maximum.toNat

/-- No semaphore starts beyond its maximum, and no set that is granted lists one more often
than it has signals. -/
def Sound (history : SemaphoreHistory) : Operation → Prop
  | .createSemaphore initialCount maximum => initialCount.toNat ≤ maximum.toNat
  | .evaluateWaitAll handles thread => (∀ handle ∈ handles, Ready history.subsystem thread handle) →
      ∀ id semaphore, history.subsystem.semaphoreAt id = some semaphore →
      (handles.filterMap history.subsystem.objectId).count id ≤ semaphore.count.toNat
  | _ => True

variable {history : SemaphoreHistory}

theorem step_of_ok (ran : operation.perform.run history.subsystem = .ok answer t) :
    history.step operation =
      ⟨t, history.tallies.record history.subsystem operation (.ok answer t)⟩ := by
  rw [step, ran]
  rfl

theorem step_of_stops (stops : Stops history.subsystem (operation.perform.run history.subsystem)) :
    history.step operation = history := by
  rcases stops with ⟨reason, ran⟩ | ran
  · rw [step, ran, Tallies.record_error]
    rfl
  · rw [step, ran, Tallies.record_panic]
    rfl

@[reducible] def Kept (history : SemaphoreHistory) : Prop :=
  Balanced history.subsystem history.tallies

variable (balanced : history.Kept)
include balanced

theorem wait_balanced (handle : Handle) : (history.step (.waitForSingleObject handle)).Kept := by
  rcases waitForSingleObject_cases with stops | ⟨entry, object, status, t, found, answer, ran, took⟩
  · rw [step_of_stops stops.bind]
    exact balanced
  · rw [step_of_ok (bind_of_ok ran)]
    obtain ⟨named, there⟩ := objectId_of_target found
    constructor
    · intro id semaphore after
      rw [took.semaphores] at after
      dsimp only [Tallies.record]
      rw [named] at after ⊢
      split at after
      case isTrue same =>
        obtain rfl := some.inj same
        obtain ⟨before, present, rfl⟩ := map_eq_some_iff.mp after
        obtain ⟨less, maximum⟩ := taken_count before
        obtain ⟨count, bound⟩ := balanced.counts _ before present
        -- the answer is granted exactly if the count is positive
        have granted : status ≠ .timeout ↔ 0 < before.count.toNat := by
          rw [semaphoreAt, there] at present
          cases object with
          | semaphore =>
            obtain rfl := some.inj present
            cases answer
            exact consumeWait_granted rfl
          | _ => cases present
        rw [maximum]
        split
        case isTrue refused =>
          have none : ¬ 0 < before.count.toNat := fun positive => granted.mpr positive refused
          exact ⟨by omega, by omega⟩
        case isFalse accepted =>
          obtain ⟨added, waits⟩ := history.tallies.waits_foldl [entry.objectId] entry.objectId
          have positive := granted.mp accepted
          rw [toList_some, waits, count_singleton_self]
          exact ⟨by omega, by omega⟩
      case isFalse other =>
        have different : entry.objectId ≠ id := fun same => other (congrArg some same)
        obtain ⟨added, waits⟩ := history.tallies.waits_foldl [entry.objectId] id
        have unlisted : [entry.objectId].count id = 0 := count_eq_zero_of_not_mem (by simpa using different.symm)
        split
        · exact balanced.counts id semaphore after
        · rw [toList_some, added, waits, unlisted]
          exact balanced.counts id semaphore after
    · intro id beyond
      rw [took.nextObjectId] at beyond
      rw [took.absent]
      exact balanced.fresh id beyond

theorem waitAll_balanced (sound : history.Sound (.evaluateWaitAll handles thread)) :
    (history.step (.evaluateWaitAll handles thread)).Kept := by
  rcases evaluateWaitAll_cases history.subsystem handles thread with stops | none | ⟨any, answered, run⟩
  · rw [step_of_stops stops.bind]
    exact balanced
  · rw [step_of_ok (bind_of_ok none)]
    exact balanced
  · have found := satisfiable_found answered
    obtain ⟨t, ran⟩ := consumeWaitSet_returns found
    obtain ⟨next, absent, counts⟩ := consumeWaitSet_semaphores found ran
    rw [step_of_ok (bind_of_ok (run.trans (bind_of_ok ran)))]
    constructor
    · intro id semaphore there
      obtain ⟨before, present, count, maximum⟩ := counts id semaphore there
      obtain ⟨balance, bound⟩ := balanced.counts id before present
      have enough := sound (satisfiableAll_eq_some answered).1 id before present
      obtain ⟨added, waits⟩ := history.tallies.waits_foldl (handles.filterMap history.subsystem.objectId) id
      dsimp only [Tallies.record]
      rw [maximum]
      exact ⟨by omega, by omega⟩
    · intro id beyond
      rw [next] at beyond
      rw [absent]
      exact balanced.fresh id beyond

theorem release_balanced (handle : Handle) (amount : U32) :
    (history.step (.releaseSemaphore handle amount)).Kept := by
  rcases releaseSemaphore_cases with stops | ⟨entry, count, maximum, found, ran⟩
  · rw [step_of_stops stops.bind]
    exact balanced
  · rw [step_of_ok (bind_of_ok ran)]
    obtain ⟨listed, there⟩ := handleEntry_eq_ok.mp found
    have named : history.subsystem.objectId handle = some entry.objectId := by
      rw [Subsystem.objectId, listed, map_some]
    dsimp only [Tallies.record]
    rw [named, toList_some, foldl_cons, foldl_nil]
    constructor
    · intro id semaphore after
      simp only [semaphoreAt, lookup_modify] at after
      dsimp only
      rw [Tallies.release]
      by_cases same : id = entry.objectId
      · subst same
        rw [if_pos rfl, there] at after
        obtain rfl := some.inj after
        have before : history.subsystem.semaphoreAt entry.objectId = some ⟨count, maximum⟩ := by
          rw [semaphoreAt, there]
          rfl
        obtain ⟨balance, bound⟩ := balanced.counts _ _ before
        rw [update_self, released_toNat, before, map_some, getD_some]
        dsimp only at balance bound ⊢
        exact ⟨by omega, Nat.min_le_right ..⟩
      · rw [if_neg same] at after
        rw [update_of_ne same]
        exact balanced.counts id semaphore after
    · intro id beyond
      rw [lookup_modify_eq_none]
      exact balanced.fresh id beyond

omit balanced in
theorem create_balanced {tallies : Tallies} (balanced : Balanced s tallies)
    (other : object.semaphore? = none)
    (ran : (Subsystem.insertObject accessMask object).run s = .ok handle t) :
    Balanced t tallies := by
  cases ran
  refine balanced.grow rfl (fun id => lookup_insert id) (fun _ _ => rfl) fun semaphore created => ?_
  rw [other] at created
  cases created

theorem exit_balanced (thread : ThreadId) (exitCode : U32) :
    (history.step (.setThreadExitCodeById thread exitCode)).Kept := by
  obtain ⟨t, ran, next, objects⟩ := objects_setThreadExitCode
  rw [step_of_ok (bind_of_ok ran)]
  refine balanced.same next (fun id => ?_) fun id => ?_
  · rw [semaphoreAt, semaphoreAt, objects]
    cases history.subsystem.objects.lookup id with
    | none => rfl
    | some object => cases object <;> rfl
  · rw [objects, map_eq_none_iff]

theorem terminate_balanced (handle : Handle) (exitCode : U32) :
    (history.step (.terminateThread handle exitCode)).Kept := by
  rcases terminateThread_cases with stops | unchanged | ⟨thread, -, -, ran⟩
  · rw [step_of_stops stops.bind]
    exact balanced
  · rw [step_of_ok (bind_of_ok unchanged)]
    exact balanced
  · rw [step_of_ok (bind_of_ok ran)]
    exact balanced.frame rfl rfl

theorem releaseMutex_balanced (handle : Handle) : (history.step (.releaseMutex handle)).Kept := by
  rcases releaseMutex_cases with stops | ⟨id, mutex, after, -, there, -, ran⟩
  · rw [step_of_stops stops.bind]
    exact balanced
  · rw [step_of_ok (bind_of_ok ran)]
    refine balanced.same rfl (fun other => ?_) fun other => by simp only [lookup_modify_eq_none]
    simp only [semaphoreAt, lookup_modify]
    by_cases same : other = id
    · obtain ⟨object, present, isMutex⟩ := bind_eq_some_iff.mp there
      rw [if_pos same, same, present]
      cases object with
      | mutex => rfl
      | _ => cases isMutex
    · rw [if_neg same]

theorem step_balanced (sound : history.Sound operation) : (history.step operation).Kept := by
  cases operation with
  | setCurrentThreadId | sleep => exact balanced.frame rfl rfl
  | createMutex | createEvent | createTimer => exact create_balanced balanced rfl rfl
  | createSemaphore initialCount maximum =>
    refine balanced.grow rfl (fun id => lookup_insert id) (fun id different => update_of_ne different ..)
      fun semaphore created => ?_
    obtain rfl := some.inj created
    have mine : (history.step (.createSemaphore initialCount maximum)).tallies history.subsystem.nextObjectId =
        ⟨initialCount.toNat, 0⟩ := update_self ..
    rw [mine]
    exact ⟨rfl, sound⟩
  | createThread plan =>
    have listed : Balanced { history.subsystem with
        nextThreadId := history.subsystem.nextThreadId + 1
        threads := OrderedMap.insert history.subsystem.nextThreadId (if plan.signaled then plan.exitCode else none)
          history.subsystem.threads } history.tallies := balanced.frame rfl rfl
    exact create_balanced listed rfl rfl
  | waitForSingleObject handle => exact wait_balanced balanced handle
  | evaluateWaitAll => exact waitAll_balanced balanced sound
  | releaseMutex handle => exact releaseMutex_balanced balanced handle
  | releaseSemaphore handle amount => exact release_balanced balanced handle amount
  | setThreadExitCodeById thread exitCode => exact exit_balanced balanced thread exitCode
  | terminateThread handle exitCode => exact terminate_balanced balanced handle exitCode

end SemaphoreHistory

/-! ## Whole histories -/

/-- No semaphore is beyond its maximum, and the object numbers to come are free. -/
structure Subsystem.Within (s : Subsystem) : Prop where
  bounds : ∀ id semaphore, s.semaphoreAt id = some semaphore →
    semaphore.count.toNat ≤ semaphore.maximum.toNat
  fresh : ∀ id, s.nextObjectId ≤ id → s.objects.lookup id = none

theorem semaphore_count_conserved (start : Subsystem) (within : start.Within)
    (operations : List Operation)
    (sound : Along SemaphoreHistory.step SemaphoreHistory.Sound (.new start) operations) :
    ∀ taken, taken <+: operations → (taken.foldl SemaphoreHistory.step (.new start)).Conserved := by
  intro taken before
  have balanced : Balanced (taken.foldl SemaphoreHistory.step (.new start)).subsystem
      (taken.foldl SemaphoreHistory.step (.new start)).tallies := by
    refine sound.invariant (I := fun history => Balanced history.subsystem history.tallies) ?_
      (fun history operation balanced holds => SemaphoreHistory.step_balanced balanced holds) taken before
    refine ⟨fun id semaphore there => ⟨?_, within.bounds id semaphore there⟩, within.fresh⟩
    change semaphore.count.toNat + 0 = ((start.semaphoreAt id).map _).getD 0
    have there' : start.semaphoreAt id = some semaphore := there
    rw [there']
    rfl
  intro id semaphore there
  obtain ⟨balance, bound⟩ := balanced.counts id semaphore there
  exact ⟨by omega, bound⟩

/-- Two waits and a release of five on a semaphore of two. -/
def producerConsumer : List Operation :=
  [.createSemaphore 1 2, .waitForSingleObject 4, .releaseSemaphore 4 5, .waitForSingleObject 4]

theorem semaphore_count_conserved_producer :
    Along SemaphoreHistory.step SemaphoreHistory.Sound (.new .new) producerConsumer ∧
    (producerConsumer.foldl SemaphoreHistory.step (.new .new)).subsystem.semaphoreAt 1 =
      some ⟨1, 2⟩ ∧
    (producerConsumer.foldl SemaphoreHistory.step (.new .new)).Conserved := by
  have within : Subsystem.new.Within := by
    refine ⟨fun id semaphore there => ?_, fun _ _ => rfl⟩
    cases there
  have sound : Along SemaphoreHistory.step SemaphoreHistory.Sound (.new .new) producerConsumer := by
    have small : (1 : U32).toNat ≤ (2 : U32).toNat := by decide
    exact ⟨small, trivial, trivial, trivial, trivial⟩
  exact ⟨sound, rfl,
    semaphore_count_conserved .new within producerConsumer sound producerConsumer (prefix_refl _)⟩

/-- A release beyond the maximum is reported as successful and adds less than its amount. -/
theorem release_beyond_maximum :
    ∃ created after, (Operation.createSemaphore 1 2).perform.run .new = .ok (.handle 4) created ∧
      (Operation.releaseSemaphore 4 5).perform.run created = .ok (.count 1) after ∧
      after.semaphoreAt 1 = some ⟨2, 2⟩ ∧ (2 : U32).toNat ≠ (1 : U32).toNat + (5 : U32).toNat :=
  ⟨_, _, rfl, rfl, rfl, by decide⟩

end Casa.Win32
