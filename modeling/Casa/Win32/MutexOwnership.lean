import Casa.Lib.Along
import Casa.Win32.WaitAll
import Mathlib.Logic.Function.Basic

/-! Mutexes over whole histories. A mutex belongs to the thread whose acquisitions exceed
its releases, and the thread that acquires it after an abandonment is told so. -/
namespace Casa.Win32
open Effect OrderedMap Option Function Nat
open Exec (bind_of_ok)
open MutexObject (consumeWait)
open Subsystem (mutexAt)

/-! ## One mutex -/

/-- What a history says of a mutex: the acquisitions of each thread that it has not released,
and whether the mutex was abandoned since it was last acquired. -/
structure Account where
  holds : ThreadId → Nat
  pending : Bool

namespace Account

def unheld : Account := ⟨fun _ => 0, false⟩

def acquire (account : Account) (thread : ThreadId) : Account :=
  ⟨Function.update account.holds thread (account.holds thread + 1), false⟩

def release (account : Account) (thread : ThreadId) : Account :=
  { account with holds := Function.update account.holds thread (account.holds thread - 1) }

/-- A thread that ends abandons what it holds. -/
def abandonBy (account : Account) (thread : ThreadId) : Account :=
  if 0 < account.holds thread then ⟨Function.update account.holds thread 0, true⟩ else account

section Holds
variable (account : Account)

@[simp] theorem acquire_self :
    (account.acquire thread).holds thread = account.holds thread + 1 := update_self ..

@[simp] theorem acquire_of_ne (different : other ≠ thread) :
    (account.acquire thread).holds other = account.holds other := update_of_ne different ..

@[simp] theorem release_self :
    (account.release thread).holds thread = account.holds thread - 1 := update_self ..

@[simp] theorem release_of_ne (different : other ≠ thread) :
    (account.release thread).holds other = account.holds other := update_of_ne different ..

end Holds

end Account

/-- The recursion count is the number of unreleased acquisitions, except that a mutex
created owned has count 0 for one acquisition. -/
def Counts (recursion : U32) (held : Nat) : Prop :=
  (0 < held ∧ recursion.toNat = held) ∨ (recursion = 0 ∧ held = 1)

structure Fits (mutex : MutexObject) (account : Account) : Prop where
  pending : account.pending = mutex.abandoned
  unowned : mutex.ownerThreadId = none → ∀ thread, account.holds thread = 0
  owned : ∀ owner, mutex.ownerThreadId = some owner →
    mutex.abandoned = false ∧ Counts mutex.recursion (account.holds owner) ∧
      ∀ other, other ≠ owner → account.holds other = 0

/-- `waits` further acquisitions by the thread neither wrap the count around nor start from
the count 0 of a mutex created owned. -/
def RoomFor (mutex : MutexObject) (thread : ThreadId) (waits : Nat) : Prop :=
  if mutex.ownerThreadId = some thread then mutex.recursion ≠ 0 ∧
    mutex.recursion.toNat + waits < 2 ^ 32
  else waits < 2 ^ 32

instance (mutex : MutexObject) (thread : ThreadId) (waits : Nat) : Decidable (RoomFor mutex thread waits) :=
  inferInstanceAs (Decidable (if mutex.ownerThreadId = some thread then
    mutex.recursion ≠ 0 ∧ mutex.recursion.toNat + waits < 2 ^ 32 else waits < 2 ^ 32))

theorem Counts.pos (counts : Counts recursion held) : 0 < held := by
  rcases counts with ⟨positive, -⟩ | ⟨-, one⟩
  · exact positive
  · omega

theorem Fits.owner_iff (fits : Fits mutex account) (thread : ThreadId) :
    mutex.ownerThreadId = some thread ↔ 0 < account.holds thread := by
  constructor
  · intro owner
    exact (fits.owned thread owner).2.1.pos
  · intro holds
    cases owner : mutex.ownerThreadId with
    | none => exact absurd (fits.unowned owner thread) (ne_of_gt holds)
    | some other =>
      by_cases same : thread = other
      · rw [same]
      · exact absurd ((fits.owned other owner).2.2 thread same) (ne_of_gt holds)

theorem unheld_fits : Fits ⟨none, 0, false⟩ .unheld := by
  constructor
  · rfl
  · intro _ _
    rfl
  · intro owner owned
    cases owned

theorem created_fits : Fits ⟨some thread, 0, false⟩ (Account.unheld.acquire thread) := by
  constructor
  · rfl
  · intro unowned
    cases unowned
  · rintro owner ⟨⟩
    refine ⟨rfl, .inr ⟨rfl, ?_⟩, ?_⟩
    · simp [Account.unheld]
    · intro other different
      simp [Account.unheld, different]

/-- The status of a wait says who holds the mutex, and whether it was abandoned. -/
theorem Fits.wait_status (fits : Fits mutex account) (thread : ThreadId) :
    ((mutex.consumeWait thread).1 = .timeout ↔ ∃ other, other ≠ thread ∧ 0 < account.holds other) ∧
      ((mutex.consumeWait thread).1 = .abandoned ↔ account.pending) := by
  rw [fits.pending]
  simp only [← fits.owner_iff]
  cases abandoned : mutex.abandoned with
  | true =>
    have unowned (other : ThreadId) : mutex.ownerThreadId ≠ some other := by
      intro owner
      rw [(fits.owned other owner).1] at abandoned
      cases abandoned
    simp [consumeWait, abandoned, unowned]
  | false =>
    cases owner : mutex.ownerThreadId with
    | none => simp [consumeWait, abandoned, owner]
    | some other =>
      by_cases same : other = thread
      · simp [consumeWait, abandoned, owner, same]
      · simp [consumeWait, abandoned, owner, same]

theorem RoomFor.mono (room : RoomFor mutex thread more) (le : fewer ≤ more) :
    RoomFor mutex thread fewer := by
  rw [RoomFor] at room ⊢
  split at room
  case isTrue owner =>
    rw [if_pos owner]
    exact ⟨room.1, by omega⟩
  case isFalse other =>
    rw [if_neg other]
    omega

/-- A granted wait makes the thread the owner, with room for one wait less. -/
theorem consumeWait_owner (available : Available mutex thread)
    (room : RoomFor mutex thread (waits + 1)) :
    RoomFor (mutex.consumeWait thread).2 thread waits ∧
      Available (mutex.consumeWait thread).2 thread := by
  have one : (1 : U32).toNat = 1 := rfl
  rw [Available] at available
  cases abandoned : mutex.abandoned with
  | true =>
    have fewer : waits + 1 < 2 ^ 32 := by
      rw [RoomFor] at room
      split at room <;> omega
    refine ⟨?_, ?_⟩
    · simp only [consumeWait, abandoned, if_true, RoomFor]
      exact ⟨by decide, by omega⟩
    · simp [Available, consumeWait, abandoned]
  | false =>
    cases owner : mutex.ownerThreadId with
    | none =>
      rw [RoomFor, owner, if_neg (some_ne_none thread).symm] at room
      refine ⟨?_, ?_⟩
      · simp only [consumeWait, abandoned, owner, RoomFor, Bool.false_eq_true, if_false]
        exact ⟨by decide, by omega⟩
      · simp [Available, consumeWait, abandoned, owner]
    | some other =>
      by_cases same : other = thread
      · subst same
        rw [RoomFor, owner, if_pos rfl] at room
        obtain ⟨positive, bound⟩ := room
        have next : (mutex.recursion + 1).toNat = mutex.recursion.toNat + 1 := by
          exact mod_eq_of_lt (by omega)
        refine ⟨?_, ?_⟩
        · simp only [consumeWait, abandoned, owner, RoomFor, if_true, Bool.false_eq_true, if_false]
          refine ⟨fun zero => ?_, by omega⟩
          rw [zero] at next
          cases next
        · simp [Available, consumeWait, abandoned, owner]
      · simp [consumeWait, abandoned, owner, same] at available

theorem Fits.acquire (fits : Fits mutex account) (available : Available mutex thread)
    (room : RoomFor mutex thread 1) :
    Fits (mutex.consumeWait thread).2 (account.acquire thread) := by
  have alone : ∀ other, other ≠ thread → account.holds other = 0 := by
    intro other different
    by_contra holds
    exact available ((fits.wait_status thread).1.mpr ⟨other, different, Nat.pos_of_ne_zero holds⟩)
  have others (other : ThreadId) (different : other ≠ thread) :
      (account.acquire thread).holds other = 0 := by
    rw [account.acquire_of_ne different]
    exact alone other different
  have mine : (account.acquire thread).holds thread = account.holds thread + 1 :=
    account.acquire_self
  cases owner : mutex.ownerThreadId with
  | none =>
    have first : (mutex.consumeWait thread).2 = ⟨some thread, 1, false⟩ := by
      cases abandoned : mutex.abandoned <;> simp [consumeWait, abandoned, owner]
    rw [first]
    constructor
    · rfl
    · intro unowned
      cases unowned
    · rintro _ ⟨⟩
      rw [mine, fits.unowned owner thread]
      exact ⟨rfl, .inl ⟨Nat.one_pos, rfl⟩, others⟩
  | some other =>
    have same : other = thread := by
      by_contra different
      exact absurd (alone other different) (ne_of_gt ((fits.owner_iff other).mp owner))
    subst same
    obtain ⟨kept, counts, -⟩ := fits.owned other owner
    rw [RoomFor, if_pos owner] at room
    have again : (mutex.consumeWait other).2 = { mutex with recursion := mutex.recursion + 1 } := by
      simp [consumeWait, kept, owner]
    rw [again]
    refine ⟨kept.symm, fun unowned => absurd (owner.symm.trans unowned) (some_ne_none _), ?_⟩
    intro last stillOwned
    obtain rfl := some.inj (owner.symm.trans stillOwned)
    refine ⟨kept, .inl ⟨?_, ?_⟩, others⟩
    · omega
    · -- the count 0 of a mutex created owned is excluded by the room
      rcases counts with ⟨-, counted⟩ | ⟨zero, -⟩
      · rw [mine, BitVec.toNat_add, counted]
        exact mod_eq_of_lt (by rw [← counted]; exact room.2)
      · exact absurd zero room.1

theorem Fits.released (fits : Fits mutex account) (released : mutex.release thread = some after) :
    0 < account.holds thread ∧ Fits after (account.release thread) := by
  rw [MutexObject.release] at released
  split at released
  case isTrue => cases released
  case isFalse notOther =>
    have owner := not_not.mp notOther
    obtain ⟨kept, counts, others⟩ := fits.owned thread owner
    have mine : (account.release thread).holds thread = account.holds thread - 1 :=
      account.release_self
    have rest (other : ThreadId) (different : other ≠ thread) : (account.release thread).holds other = 0 := by
      rw [account.release_of_ne different]
      exact others other different
    refine ⟨counts.pos, ?_⟩
    split at released
    case isTrue more =>
      obtain rfl := some.inj released
      refine ⟨fits.pending, fun unowned => absurd (owner.symm.trans unowned) (some_ne_none _), ?_⟩
      intro last stillOwned
      obtain rfl := some.inj (owner.symm.trans stillOwned)
      refine ⟨kept, .inl ?_, rest⟩
      rcases counts with ⟨-, counted⟩ | ⟨zero, -⟩
      · have less : (mutex.recursion - 1).toNat = mutex.recursion.toNat - 1 := by bv_omega
        exact ⟨by omega, less.trans (by omega)⟩
      · rw [zero] at more
        cases more
    case isFalse last =>
      obtain rfl := some.inj released
      constructor
      · exact fits.pending.trans kept
      · intro _ other
        by_cases same : other = thread
        · rw [same]
          rcases counts with ⟨-, counted⟩ | ⟨-, one⟩ <;> omega
        · exact rest other same
      · intro _ owned
        cases owned

theorem Fits.abandonBy (fits : Fits mutex account) (thread : ThreadId) :
    Fits (mutex.markAbandonedBy thread) (account.abandonBy thread) := by
  rw [MutexObject.markAbandonedBy, Account.abandonBy]
  by_cases owner : mutex.ownerThreadId = some thread
  · rw [if_pos owner, if_pos ((fits.owner_iff thread).mp owner)]
    constructor
    · rfl
    · intro _ other
      by_cases same : other = thread
      · rw [same]
        exact update_self ..
      · exact (update_of_ne same ..).trans ((fits.owned thread owner).2.2 other same)
    · intro _ owned
      cases owned
  · rw [if_neg owner, if_neg (mt (fits.owner_iff thread).mpr owner)]
    exact fits

/-! ## The account of a history -/

abbrev Ledger := ObjectId → Account

namespace Ledger

def acquire (ledger : Ledger) (thread : ThreadId) (id : ObjectId) : Ledger :=
  Function.update ledger id ((ledger id).acquire thread)

def release (ledger : Ledger) (thread : ThreadId) (id : ObjectId) : Ledger :=
  Function.update ledger id ((ledger id).release thread)

/-- What an operation adds, from its outcome in the state in which it starts. -/
def record (ledger : Ledger) (s : Subsystem) : Operation → Outcome Subsystem Failure Answer → Ledger
  | .createMutex true, .ok _ _ => ledger.acquire s.currentThreadId s.nextObjectId
  | .waitForSingleObject handle, .ok (.status status) _ =>
    if status = .timeout then ledger
      else (s.mutexId handle).toList.foldl (acquire · s.currentThreadId) ledger
  | .evaluateWaitAll handles thread, .ok (.all (some _)) _ =>
    (handles.filterMap s.mutexId).foldl (acquire · thread) ledger
  | .releaseMutex handle, .ok _ _ =>
    (s.mutexId handle).toList.foldl (release · s.currentThreadId) ledger
  | .setThreadExitCodeById thread _, .ok _ _ => fun id => (ledger id).abandonBy thread
  | .terminateThread handle _, .ok (.flag true) _ =>
    (s.threadOf handle).elim ledger fun thread id => (ledger id).abandonBy thread
  | _, _ => ledger

section Failed
variable (ledger : Ledger) (s t : Subsystem) (operation : Operation)

theorem record_error (reason : Failure) : ledger.record s operation (.error reason t) = ledger := by
  cases operation with
  | createMutex initiallyOwned => cases initiallyOwned <;> rfl
  | _ => rfl

theorem record_panic : ledger.record s operation .panic = ledger := by
  cases operation with
  | createMutex initiallyOwned => cases initiallyOwned <;> rfl
  | _ => rfl

end Failed

end Ledger

structure Accounted (s : Subsystem) (ledger : Ledger) : Prop where
  fits : ∀ id mutex, s.mutexAt id = some mutex → Fits mutex (ledger id)
  fresh : ∀ id, s.nextObjectId ≤ id → s.objects.lookup id = none ∧ ledger id = .unheld

namespace Accounted

variable (accounted : Accounted s ledger)
include accounted

/-- What leaves the mutexes alone keeps the account. -/
theorem sameMutexes (next : t.nextObjectId = s.nextObjectId)
    (mutexes : ∀ id, t.mutexAt id = s.mutexAt id)
    (absent : ∀ id, t.objects.lookup id = none ↔ s.objects.lookup id = none) :
    Accounted t ledger := by
  constructor
  · intro id mutex there
    rw [mutexes] at there
    exact accounted.fits id mutex there
  · intro id beyond
    rw [next] at beyond
    rw [absent]
    exact accounted.fresh id beyond

theorem frame (objects : t.objects = s.objects) (next : t.nextObjectId = s.nextObjectId) :
    Accounted t ledger := by
  refine accounted.sameMutexes next (fun id => ?_) fun id => ?_
  · rw [mutexAt, objects]
    rfl
  · rw [objects]

theorem below {id : ObjectId} (there : s.mutexAt id = some mutex) : id < s.nextObjectId := by
  by_contra beyond
  rw [mutexAt, (accounted.fresh id (Nat.le_of_not_lt beyond)).1] at there
  cases there

/-- The table grows by one object under the next number. -/
theorem grow (next : t.nextObjectId = s.nextObjectId + 1)
    (objects : ∀ id, t.objects.lookup id = if id = s.nextObjectId then some object else s.objects.lookup id)
    (fits : ∀ mutex, object = .mutex mutex → Fits mutex account) :
    Accounted t (update ledger s.nextObjectId account) := by
  constructor
  · intro id mutex there
    rw [mutexAt, objects] at there
    by_cases same : id = s.nextObjectId
    · rw [if_pos same] at there
      rw [same, update_self]
      cases object with
      | mutex payload =>
        obtain rfl := some.inj there
        exact fits payload rfl
      | _ => cases there
    · rw [if_neg same] at there
      rw [update_of_ne same]
      exact accounted.fits id mutex there
  · intro id beyond
    rw [next] at beyond
    have different : id ≠ s.nextObjectId := ne_of_gt beyond
    rw [objects, if_neg different, update_of_ne different]
    exact accounted.fresh id (le_of_lt beyond)

/-- A mutex changes together with its account. -/
theorem change {id : ObjectId} (there : s.mutexAt id = some before)
    (next : t.nextObjectId = s.nextObjectId)
    (absent : ∀ other, t.objects.lookup other = none ↔ s.objects.lookup other = none)
    (mutexes : ∀ other, t.mutexAt other = if other = id then some after else s.mutexAt other)
    (fits : Fits after account) : Accounted t (update ledger id account) := by
  constructor
  · intro other mutex present
    rw [mutexes] at present
    by_cases same : other = id
    · rw [if_pos same] at present
      obtain rfl := some.inj present
      rw [same, update_self]
      exact fits
    · rw [if_neg same] at present
      rw [update_of_ne same]
      exact accounted.fits other mutex present
  · intro other beyond
    rw [next] at beyond
    have different : other ≠ id := ne_of_gt (lt_of_lt_of_le (accounted.below there) beyond)
    rw [absent, update_of_ne different]
    exact accounted.fresh other beyond

/-- A wait through a handle that is not one to a mutex. -/
theorem consume_other (took : Took s t handle thread) (other : s.mutexId handle = none) :
    Accounted t ledger := by
  refine accounted.sameMutexes took.nextObjectId (fun id => ?_) took.absent
  rw [took.mutexes, other, if_neg (some_ne_none id).symm]

theorem consume (took : Took s t handle thread) {id : ObjectId} (named : s.mutexId handle = some id)
    (there : s.mutexAt id = some mutex) (fits : Fits (mutex.consumeWait thread).2 account) :
    Accounted t (update ledger id account) := by
  refine accounted.change there took.nextObjectId took.absent (fun other => ?_) fits
  rw [took.mutexes, named]
  by_cases same : other = id
  · rw [same, if_pos rfl, if_pos rfl, there, map_some]
  · rw [if_neg same, if_neg]
    exact fun mine => same (some.inj mine).symm

end Accounted

/-! ## Wait-all sets -/

/-- A set of which every mutex is available is acquired as a whole. -/
theorem consumeWaitSet_accounted (accounted : Accounted s ledger)
    (found : ∀ handle ∈ handles, ∃ pair, s.handleEntry handle = .ok pair)
    (ready : ∀ id ∈ handles.filterMap s.mutexId, ∀ mutex, s.mutexAt id = some mutex →
      Available mutex thread ∧ RoomFor mutex thread ((handles.filterMap s.mutexId).count id)) :
    ∃ t, (Subsystem.consumeWaitSet handles thread).run s = .ok () t ∧
      Accounted t ((handles.filterMap s.mutexId).foldl (Ledger.acquire · thread) ledger) := by
  induction handles generalizing s ledger with
  | nil => exact ⟨s, rfl, accounted⟩
  | cons handle rest ih =>
    obtain ⟨here, others⟩ := List.forall_mem_cons.mp found
    obtain ⟨t, took, ran⟩ := consumeWaitSet_cons here thread
    have sameIds : rest.filterMap t.mutexId = rest.filterMap s.mutexId :=
      List.filterMap_congr fun other _ => took.mutexId
    have stillFound : ∀ other ∈ rest, ∃ pair, t.handleEntry other = .ok pair :=
      fun other listed => took.handleEntry (others other listed)
    rw [ran]
    cases named : s.mutexId handle with
    | none =>
      rw [List.filterMap_cons_none named] at ready ⊢
      rw [← sameIds]
      refine ih (accounted.consume_other took named) stillFound fun id listed mutex there => ?_
      rw [took.mutexes, named] at there
      rw [sameIds] at listed ⊢
      exact ready id listed mutex there
    | some id =>
      obtain ⟨mutex, there⟩ := mutexAt_of_mutexId named
      rw [List.filterMap_cons_some named] at ready ⊢
      obtain ⟨available, room⟩ := ready id List.mem_cons_self mutex there
      rw [List.count_cons_self] at room
      have acquired := (accounted.fits id mutex there).acquire available (room.mono (le_add_left 1 _))
      rw [← sameIds]
      refine ih (accounted.consume took named there acquired) stillFound fun other listed later present => ?_
      rw [sameIds] at listed ⊢
      rw [took.mutexes, named] at present
      by_cases same : other = id
      · subst same
        rw [if_pos rfl, there] at present
        obtain rfl := some.inj present
        exact (consumeWait_owner available room).symm
      · rw [if_neg fun mine => same (some.inj mine).symm] at present
        have rest := ready other (List.mem_cons_of_mem _ listed) later present
        rwa [List.count_cons_of_ne (Ne.symm same)] at rest

/-! ## Operations -/

structure History where
  subsystem : Subsystem
  ledger : Ledger

namespace History

def new (start : Subsystem) : History := ⟨start, fun _ => .unheld⟩

def step (history : History) (operation : Operation) : History where
  subsystem := ((operation.perform.run history.subsystem).state?).getD history.subsystem
  ledger :=
    history.ledger.record history.subsystem operation (operation.perform.run history.subsystem)

/-- A mutex belongs to the thread with acquisitions that it has not released. -/
def Owned (history : History) : Prop :=
  ∀ id mutex, history.subsystem.mutexAt id = some mutex →
    (∀ thread, mutex.ownerThreadId = some thread ↔ 0 < (history.ledger id).holds thread) ∧
      mutex.abandoned = (history.ledger id).pending

/-- A wait is granted exactly if no other thread holds the mutex, and reports an abandonment
exactly if there was one since the last acquisition; only a holder can release. -/
def Reports (history : History) : Operation → Prop
  | .waitForSingleObject handle => ∀ id status after, history.subsystem.mutexId handle = some id →
      (Operation.waitForSingleObject handle).perform.run history.subsystem = .ok (.status status) after →
      (status = .timeout ↔ ∃ other, other ≠ history.subsystem.currentThreadId ∧ 0 < (history.ledger id).holds other) ∧
      (status = .abandoned ↔ (history.ledger id).pending = true)
  | .evaluateWaitAll handles thread => ∀ status after,
      (Operation.evaluateWaitAll handles thread).perform.run history.subsystem = .ok (.all (some status)) after →
      (∀ id ∈ handles.filterMap history.subsystem.mutexId, ∀ other, other ≠ thread →
        (history.ledger id).holds other = 0) ∧
      (status = .abandoned ↔ ∃ id ∈ handles.filterMap history.subsystem.mutexId, (history.ledger id).pending = true)
  | .releaseMutex handle => ∀ id answer after, history.subsystem.mutexId handle = some id →
      (Operation.releaseMutex handle).perform.run history.subsystem = .ok answer after →
      0 < (history.ledger id).holds history.subsystem.currentThreadId
  | _ => True

/-- No wait that is granted starts from the count 0 of a mutex created owned or wraps a count
around, and `terminate_thread` ends no thread that owns a mutex. -/
def Sound (history : History) : Operation → Prop
  | .waitForSingleObject handle => ∀ id mutex, history.subsystem.mutexId handle = some id →
      history.subsystem.mutexAt id = some mutex → RoomFor mutex history.subsystem.currentThreadId 1
  | .evaluateWaitAll handles thread => (∀ handle ∈ handles, Ready history.subsystem thread handle) →
      ∀ id ∈ handles.filterMap history.subsystem.mutexId, ∀ mutex, history.subsystem.mutexAt id = some mutex →
      RoomFor mutex thread ((handles.filterMap history.subsystem.mutexId).count id)
  | .terminateThread handle _ => ∀ thread, history.subsystem.threadOf handle = some thread →
      history.subsystem.threads.lookup thread = some none →
      ∀ id mutex, history.subsystem.mutexAt id = some mutex → mutex.ownerThreadId ≠ some thread
  | _ => True

end History

/-! ## Steps -/

namespace History
variable {history : History}

theorem step_of_ok (ran : operation.perform.run history.subsystem = .ok answer t) :
    history.step operation =
      ⟨t, history.ledger.record history.subsystem operation (.ok answer t)⟩ := by
  rw [step, ran]
  rfl

theorem step_of_stops (stops : Stops history.subsystem (operation.perform.run history.subsystem)) :
    history.step operation = history := by
  rcases stops with ⟨reason, ran⟩ | ran
  · rw [step, ran, Ledger.record_error]
    rfl
  · rw [step, ran, Ledger.record_panic]
    rfl

/-- Objects other than mutexes come without an account. -/
theorem create_accounted {ledger : Ledger} (accounted : Accounted s ledger)
    (other : object.mutex? = none)
    (ran : (Subsystem.insertObject accessMask object).run s = .ok handle t) :
    Accounted t ledger := by
  have same : update ledger s.nextObjectId .unheld = ledger := by
    rw [← (accounted.fresh s.nextObjectId (le_refl _)).2]
    exact update_eq_self ..
  cases ran
  rw [← same]
  refine accounted.grow rfl (fun id => lookup_insert id) fun mutex isMutex => ?_
  rw [isMutex] at other
  cases other

theorem createMutex_accounted {ledger : Ledger} (accounted : Accounted s ledger)
    (initiallyOwned : Bool) :
    ∃ handle t, (Subsystem.createMutex initiallyOwned).run s = .ok handle t ∧
      Accounted t (ledger.record s (.createMutex initiallyOwned) (.ok (.handle handle) t)) := by
  have none := (accounted.fresh s.nextObjectId (le_refl _)).2
  refine ⟨_, _, rfl, ?_⟩
  cases initiallyOwned with
  | true =>
    refine accounted.grow rfl (fun id => lookup_insert id) fun mutex isMutex => ?_
    obtain rfl := KernelObject.mutex.inj isMutex
    rw [none]
    exact created_fits
  | false =>
    have same : update ledger s.nextObjectId .unheld = ledger := by
      rw [← none]
      exact update_eq_self ..
    rw [← same]
    refine accounted.grow rfl (fun id => lookup_insert id) fun mutex isMutex => ?_
    obtain rfl := KernelObject.mutex.inj isMutex
    exact unheld_fits

@[reducible] def Kept (history : History) : Prop := Accounted history.subsystem history.ledger

variable (accounted : history.Kept)
include accounted

theorem wait_accounted (sound : history.Sound (.waitForSingleObject handle)) :
    (history.step (.waitForSingleObject handle)).Kept := by
  rcases waitForSingleObject_cases with stops | ⟨entry, object, status, t, found, answer, ran, took⟩
  · rw [step_of_stops stops.bind]
    exact accounted
  · rw [step_of_ok (bind_of_ok ran)]
    dsimp only [Ledger.record]
    cases named : history.subsystem.mutexId handle with
    | none =>
      rw [toList_none, List.foldl_nil, ite_self]
      exact accounted.consume_other took named
    | some id =>
      obtain ⟨mutex, there⟩ := mutexAt_of_mutexId named
      have fits := accounted.fits id mutex there
      rw [answer_mutex found answer named there]
      split
      case isTrue refused =>
        rw [← update_eq_self id history.ledger]
        refine accounted.consume took named there ?_
        rw [consumeWait_of_unavailable (not_not.mpr refused)]
        exact fits
      case isFalse available =>
        exact accounted.consume took named there (fits.acquire available (sound id mutex named there))

theorem wait_reports (handle : Handle) : history.Reports (.waitForSingleObject handle) := by
  intro id status after named answered
  obtain ⟨mutex, there⟩ := mutexAt_of_mutexId named
  rcases waitForSingleObject_cases with stops | ⟨entry, object, _, t, found, told, ran, -⟩
  · exact absurd answered stops.bind.ne_ok
  · cases (bind_of_ok ran).symm.trans answered
    rw [answer_mutex found told named there]
    exact (accounted.fits id mutex there).wait_status _

theorem waitAll_accounted (sound : history.Sound (.evaluateWaitAll handles thread)) :
    (history.step (.evaluateWaitAll handles thread)).Kept := by
  rcases evaluateWaitAll_cases history.subsystem handles thread with stops | none | ⟨any, answered, run⟩
  · rw [step_of_stops stops.bind]
    exact accounted
  · rw [step_of_ok (bind_of_ok none)]
    exact accounted
  · obtain ⟨t, ran, after⟩ :=
      consumeWaitSet_accounted accounted (satisfiable_found answered) fun id listed mutex there =>
      ⟨satisfiable_available answered id listed mutex there,
        sound (satisfiableAll_eq_some answered).1 id listed mutex there⟩
    rw [step_of_ok (bind_of_ok (run.trans (bind_of_ok ran)))]
    exact after

theorem waitAll_reports (handles : List Handle) (thread : ThreadId) :
    history.Reports (.evaluateWaitAll handles thread) := by
  intro status after answer
  rcases evaluateWaitAll_cases history.subsystem handles thread with stops | none | ⟨any, answered, run⟩
  · exact absurd answer stops.bind.ne_ok
  · cases (bind_of_ok none).symm.trans answer
  · obtain ⟨_, t, ran, rfl⟩ :
      ∃ outcome t, (Subsystem.evaluateWaitAll handles thread).run history.subsystem =
        .ok outcome t ∧ outcome = some status := by
      obtain ⟨outcome, t, ran, told⟩ := Exec.bind_eq_ok.mp answer
      cases told
      exact ⟨_, _, ran, rfl⟩
    rw [run] at ran
    obtain ⟨_, _, -, told⟩ := Exec.bind_eq_ok.mp ran
    cases told
    constructor
    · intro id listed other different
      obtain ⟨handle, -, named⟩ := List.mem_filterMap.mp listed
      obtain ⟨mutex, there⟩ := mutexAt_of_mutexId named
      by_contra holds
      refine satisfiable_available answered id listed mutex there ?_
      exact ((accounted.fits id mutex there).wait_status thread).1.mpr ⟨other, different, Nat.pos_of_ne_zero holds⟩
    · have told : (if any then WaitStatus.abandoned else .object0) = .abandoned ↔ any := by
        cases any <;> simp
      rw [told, satisfiable_abandoned answered]
      constructor
      · rintro ⟨id, listed, mutex, there, abandoned⟩
        refine ⟨id, listed, ?_⟩
        exact ((accounted.fits id mutex there).wait_status thread).2.mp (abandoned_iff.mpr abandoned)
      · rintro ⟨id, listed, pending⟩
        obtain ⟨handle, -, named⟩ := List.mem_filterMap.mp listed
        obtain ⟨mutex, there⟩ := mutexAt_of_mutexId named
        refine ⟨id, listed, mutex, there, abandoned_iff.mp ?_⟩
        exact ((accounted.fits id mutex there).wait_status thread).2.mpr pending

theorem release_accounted (handle : Handle) : (history.step (.releaseMutex handle)).Kept := by
  rcases releaseMutex_cases with stops | ⟨id, mutex, after, named, there, released, ran⟩
  · rw [step_of_stops stops.bind]
    exact accounted
  · rw [step_of_ok (bind_of_ok ran)]
    dsimp only [Ledger.record]
    rw [named]
    refine accounted.change there rfl (fun other => by simp only [lookup_modify_eq_none]) (fun other => ?_)
      ((accounted.fits id mutex there).released released).2
    simp only [mutexAt, lookup_modify]
    by_cases same : other = id
    · subst same
      obtain ⟨object, present, -⟩ := bind_eq_some_iff.mp there
      rw [if_pos rfl, if_pos rfl, present]
      rfl
    · rw [if_neg same, if_neg same]

theorem release_reports (handle : Handle) : history.Reports (.releaseMutex handle) := by
  intro id answer after named answered
  rcases releaseMutex_cases with stops | ⟨_, mutex, _, mine, there, released, -⟩
  · exact absurd answered stops.bind.ne_ok
  · obtain rfl := some.inj (mine.symm.trans named)
    exact ((accounted.fits _ mutex there).released released).1

theorem releaseSemaphore_accounted (handle : Handle) (releaseCount : U32) :
    (history.step (.releaseSemaphore handle releaseCount)).Kept := by
  rcases releaseSemaphore_cases with stops | ⟨entry, count, maximum, found, ran⟩
  · rw [step_of_stops stops.bind]
    exact accounted
  · rw [step_of_ok (bind_of_ok ran)]
    have there := (handleEntry_eq_ok.mp found).2
    refine accounted.sameMutexes rfl (fun id => ?_) fun id => by simp only [lookup_modify_eq_none]
    simp only [mutexAt, lookup_modify]
    split
    case isTrue same =>
      rw [same, there]
      rfl
    case isFalse => rfl

/-- The end of a thread abandons what it owns. -/
theorem exit_accounted (thread : ThreadId) (exitCode : U32) :
    (history.step (.setThreadExitCodeById thread exitCode)).Kept := by
  obtain ⟨t, ran, next, mutexes, absent⟩ := mutexAt_setThreadExitCode
  rw [step_of_ok (bind_of_ok ran)]
  constructor
  · intro id mutex there
    rw [mutexes] at there
    obtain ⟨before, present, rfl⟩ := map_eq_some_iff.mp there
    exact (accounted.fits id before present).abandonBy thread
  · intro id beyond
    rw [next] at beyond
    obtain ⟨none, unheld⟩ := accounted.fresh id beyond
    rw [absent]
    refine ⟨none, ?_⟩
    dsimp only [Ledger.record]
    rw [unheld]
    rfl

/-- `terminate_thread` leaves the mutexes alone, which is right for a thread without any. -/
theorem terminate_accounted (sound : history.Sound (.terminateThread handle exitCode)) :
    (history.step (.terminateThread handle exitCode)).Kept := by
  rcases terminateThread_cases with stops | unchanged | ⟨thread, named, running, ran⟩
  · rw [step_of_stops stops.bind]
    exact accounted
  · rw [step_of_ok (bind_of_ok unchanged)]
    exact accounted
  · rw [step_of_ok (bind_of_ok ran)]
    dsimp only [Ledger.record]
    rw [named, elim_some]
    constructor
    · intro id mutex there
      have fits := accounted.fits id mutex there
      have none : ¬ 0 < (history.ledger id).holds thread :=
        mt (fits.owner_iff thread).mpr (sound thread named running id mutex there)
      dsimp only
      rw [Account.abandonBy, if_neg none]
      exact fits
    · intro id beyond
      obtain ⟨absent, unheld⟩ := accounted.fresh id beyond
      refine ⟨absent, ?_⟩
      dsimp only
      rw [unheld]
      rfl

theorem step_accounted (sound : history.Sound operation) : (history.step operation).Kept := by
  cases operation with
  | setCurrentThreadId | sleep => exact accounted.frame rfl rfl
  | createMutex initiallyOwned =>
    obtain ⟨handle, t, ran, after⟩ := createMutex_accounted accounted initiallyOwned
    rw [step_of_ok (bind_of_ok ran)]
    exact after
  | createEvent | createSemaphore | createTimer => exact create_accounted accounted rfl rfl
  | createThread plan =>
    have listed : Accounted { history.subsystem with
        nextThreadId := history.subsystem.nextThreadId + 1
        threads := OrderedMap.insert history.subsystem.nextThreadId (if plan.signaled then plan.exitCode else none)
          history.subsystem.threads } history.ledger := accounted.frame rfl rfl
    exact create_accounted listed rfl rfl
  | waitForSingleObject => exact wait_accounted accounted sound
  | evaluateWaitAll => exact waitAll_accounted accounted sound
  | releaseMutex handle => exact release_accounted accounted handle
  | releaseSemaphore handle releaseCount =>
    exact releaseSemaphore_accounted accounted handle releaseCount
  | setThreadExitCodeById thread exitCode => exact exit_accounted accounted thread exitCode
  | terminateThread => exact terminate_accounted accounted sound

theorem reports (operation : Operation) : history.Reports operation := by
  cases operation with
  | waitForSingleObject handle => exact wait_reports accounted handle
  | evaluateWaitAll handles thread => exact waitAll_reports accounted handles thread
  | releaseMutex handle => exact release_reports accounted handle
  | _ => trivial

theorem owned : history.Owned := by
  intro id mutex there
  have fits := accounted.fits id mutex there
  exact ⟨fits.owner_iff, fits.pending.symm⟩

end History

/-! ## Whole histories -/

/-- A subsystem before its first mutex. -/
structure Subsystem.WithoutMutexes (s : Subsystem) : Prop where
  empty : ∀ id, s.mutexAt id = none
  fresh : ∀ id, s.nextObjectId ≤ id → s.objects.lookup id = none

theorem mutex_ownership_exact (start : Subsystem) (without : start.WithoutMutexes)
    (operations : List Operation) (sound : Along History.step History.Sound (.new start) operations) :
    (∀ taken, taken <+: operations → (taken.foldl History.step (.new start)).Owned) ∧
      Along History.step History.Reports (.new start) operations := by
  let kept (history : History) : Prop := Accounted history.subsystem history.ledger
  have first : kept (.new start) := by
    constructor
    · intro id mutex there
      cases (without.empty id).symm.trans there
    · intro id beyond
      exact ⟨without.fresh id beyond, rfl⟩
  have next (history : History) (operation : Operation) (accounted : kept history)
      (holds : history.Sound operation) : kept (history.step operation) :=
    History.step_accounted accounted holds
  constructor
  · intro taken before
    exact History.owned (sound.invariant first next taken before)
  · exact sound.imp first next fun history operation accounted _ =>
      History.reports accounted operation

/-- Thread 1 hands a mutex to thread 2, which takes it twice and ends; thread 3 is told. -/
def handover : List Operation :=
  [.createMutex true, .releaseMutex 4, .setCurrentThreadId 2, .waitForSingleObject 4,
    .waitForSingleObject 4,
    .setThreadExitCodeById 2 0, .setCurrentThreadId 3, .waitForSingleObject 4]

theorem Subsystem.new_withoutMutexes :
    Subsystem.new.WithoutMutexes := ⟨fun _ => rfl, fun _ _ => rfl⟩

theorem mutex_ownership_exact_handover :
    Along History.step History.Sound (.new .new) handover ∧
    (handover.foldl History.step (.new .new)).subsystem.mutexAt 1 = some ⟨some 3, 1, false⟩ ∧
    (handover.foldl History.step (.new .new)).Owned := by
  have sound : Along History.step History.Sound (.new .new) handover := by
    refine ⟨trivial, trivial, trivial, ?_, ?_, trivial, trivial, ?_, trivial⟩
    · rintro _ _ ⟨⟩ ⟨⟩
      decide
    · rintro _ _ ⟨⟩ ⟨⟩
      decide
    · rintro _ _ ⟨⟩ ⟨⟩
      decide
  refine ⟨sound, rfl, ?_⟩
  exact (mutex_ownership_exact .new Subsystem.new_withoutMutexes handover sound).1 handover
    (List.prefix_refl _)

/-- A mutex created owned and acquired once more is free after one release: the second
thread gets it while the first still holds it. -/
theorem owned_mutex_freed_early :
    let history := [Operation.createMutex true, .waitForSingleObject 4, .releaseMutex 4, .setCurrentThreadId 2].foldl
      History.step (.new .new)
    (history.ledger 1).holds 1 = 1 ∧ history.subsystem.mutexAt 1 = some ⟨none, 0, false⟩ ∧
      ¬ history.Owned ∧ ¬ history.Reports (.waitForSingleObject 4) := by
  intro history
  have holds : (history.ledger 1).holds 1 = 1 := rfl
  have free : history.subsystem.mutexAt 1 = some ⟨none, 0, false⟩ := rfl
  refine ⟨holds, free, ?_, ?_⟩
  · intro owned
    have owner := ((owned 1 _ free).1 1).mpr (holds ▸ Nat.one_pos)
    cases owner
  · intro reports
    have granted := (reports 1 .object0 _ rfl rfl).1.mpr ⟨1, by decide, holds ▸ Nat.one_pos⟩
    cases granted

end Casa.Win32
