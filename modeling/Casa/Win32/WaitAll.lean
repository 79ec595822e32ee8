import Casa.Win32.WaitSpecs

/-! Wait-all sets. The objects are probed first and consumed afterwards, so a set is acquired
as a whole only if no event or semaphore is listed more often than it has signals. -/
namespace Casa.Win32
open Effect OrderedMap KernelObject Result Option
open Subsystem (acquireAll acquireSet allSignaled consumeWaitSet handleEntry objectId waitForMultipleObjects
  waitRounds)
open Exec (bind_of_ok read_of_ok)

/-! ## Signals -/

/-- How many waits an object can still grant, if their number is limited. -/
def KernelObject.signals : KernelObject → Option Nat
  | .event manualReset signaled => if manualReset then none else some (if signaled then 1 else 0)
  | .semaphore count _ => some count.toNat
  | _ => none

section Objects
variable {object : KernelObject} {thread : ThreadId}

theorem signals_consumeWait :
    (object.consumeWait thread now).2.signals = object.signals.map (· - 1) := by
  cases object with
  | event manualReset signaled => cases manualReset <;> cases signaled <;> rfl
  | semaphore count =>
    rw [consumeWait]
    split
    case isTrue positive =>
      have less : (count - 1).toNat = count.toNat - 1 := by bv_omega
      exact congrArg some less
    case isFalse zero =>
      have none : count.toNat = count.toNat - 1 := by omega
      exact congrArg some none
  | timer =>
    rw [consumeWait]
    split <;> rfl
  | _ => rfl

theorem consumeWait_granted (limited : object.signals = some limit) :
    (object.consumeWait thread now).1 ≠ .timeout ↔ 0 < limit := by
  cases object with
  | event manualReset signaled =>
    cases manualReset with
    | true => cases limited
    | false =>
      obtain rfl := some.inj limited
      cases signaled <;> simp [consumeWait]
  | semaphore =>
    obtain rfl := some.inj limited
    rw [consumeWait]
    split
    case isTrue positive => exact iff_of_true WaitStatus.noConfusion positive
    case isFalse zero => exact iff_of_false (not_not.mpr rfl) zero
  | _ => cases limited

/-- The probe of an object agrees with the wait on it. -/
theorem consumeWait_probe : (object.consumeWait thread now).1 ≠ .timeout ↔
    object.waitSatisfaction thread now ≠ .notSignaled := by
  cases object with
  | mutex => exact available_iff
  | event manualReset signaled => cases signaled <;> simp [consumeWait, waitSatisfaction]
  | semaphore | timer =>
    simp only [consumeWait, waitSatisfaction]
    split <;> simp
  | _ => simp [consumeWait, waitSatisfaction]

theorem isSignaled_iff :
    object.isSignaled thread now ↔ object.waitSatisfaction thread now ≠ .notSignaled := by
  cases object with
  | mutex payload =>
    simp only [isSignaled, waitSatisfaction, MutexObject.waitSatisfaction]
    cases payload.abandoned with
    | true => simp
    | false =>
      simp only [Bool.false_eq_true, if_false]
      split <;> simp_all
  | event manualReset signaled => cases signaled <;> simp [isSignaled, waitSatisfaction]
  | semaphore | timer =>
    simp only [isSignaled, waitSatisfaction]
    split <;> simp_all
  | _ => simp [isSignaled, waitSatisfaction]

/-- An object without a limit grants the next wait as well. -/
theorem granted_again (unlimited : object.signals = none)
    (granted : (object.consumeWait thread now).1 ≠ .timeout) :
    ((object.consumeWait thread now).2.consumeWait thread now).1 ≠ .timeout := by
  cases object with
  | mutex payload =>
    have available : Available payload thread := granted
    exact available.again
  | event manualReset signaled =>
    cases manualReset with
    | false => cases unlimited
    | true => cases signaled <;> simp_all [consumeWait]
  | semaphore => cases unlimited
  | timer =>
    rw [consumeWait] at granted ⊢
    split at granted
    case isTrue due => simp [consumeWait, due]
    case isFalse => exact absurd rfl granted
  | _ => exact granted

theorem waitable_consumeWait : (object.consumeWait thread now).2.waitable = object.waitable := by
  cases object with
  | event manualReset signaled => cases signaled <;> rfl
  | semaphore | timer =>
    rw [consumeWait]
    split <;> rfl
  | _ => rfl

end Objects

/-! ## One wait -/

def Ready (s : Subsystem) (thread : ThreadId) (handle : Handle) : Prop :=
  ∃ satisfaction, s.waitObjectSatisfiable handle thread = .ok satisfaction ∧
    satisfaction ≠ .notSignaled

section Handles
variable {s : Subsystem} {thread : ThreadId}

theorem ready_iff : Ready s thread handle ↔
    ∃ entry object status, s.waitTarget handle = .ok (entry, object) ∧
      s.answer object thread = .ok status ∧ status ≠ .timeout := by
  constructor
  · rintro ⟨satisfaction, answered, signaled⟩
    obtain ⟨⟨entry, object⟩, found, answered⟩ := bind_eq_ok.mp answered
    refine ⟨entry, object, ?_⟩
    cases object with
    | thread =>
      obtain ⟨exitCode, state, answered⟩ := bind_eq_ok.mp answered
      obtain rfl := ok.inj answered
      refine ⟨_, found, bind_eq_ok.mpr ⟨exitCode, state, rfl⟩, ?_⟩
      cases exitCode <;> simp_all
    | process exitCode =>
      obtain rfl := ok.inj answered
      refine ⟨_, found, rfl, ?_⟩
      cases exitCode <;> simp_all
    | _ =>
      obtain rfl := ok.inj answered
      exact ⟨_, found, rfl, consumeWait_probe.mpr signaled⟩
  · rintro ⟨entry, object, status, found, answer, granted⟩
    cases object with
    | thread =>
      obtain ⟨exitCode, state, answer⟩ := bind_eq_ok.mp answer
      obtain rfl := ok.inj answer
      refine ⟨_, bind_eq_ok.mpr ⟨_, found, bind_eq_ok.mpr ⟨exitCode, state, rfl⟩⟩, ?_⟩
      cases exitCode <;> simp_all
    | process exitCode =>
      obtain rfl := ok.inj answer
      refine ⟨_, bind_eq_ok.mpr ⟨_, found, rfl⟩, ?_⟩
      cases exitCode <;> simp_all
    | _ =>
      obtain rfl := ok.inj answer
      exact ⟨_, bind_eq_ok.mpr ⟨_, found, rfl⟩, consumeWait_probe.mp granted⟩

theorem waitTarget_iff : s.waitTarget handle = .ok (entry, object) ↔
    s.handleEntry handle = .ok (entry, object) ∧ object.waitable ∧
      requireAccess entry.accessMask synchronize = .ok () := by
  constructor
  · intro found
    obtain ⟨⟨first, second⟩, there, rest⟩ := bind_eq_ok.mp found
    obtain ⟨_, waitable, rest⟩ := bind_eq_ok.mp rest
    obtain ⟨_, access, same⟩ := bind_eq_ok.mp rest
    cases same
    exact ⟨there, Bool.eq_true_of_not_eq_false (refuse_eq_ok.mp waitable), access⟩
  · rintro ⟨there, waitable, access⟩
    refine bind_eq_ok.mpr ⟨_, there, ?_⟩
    dsimp only
    have allowed : ¬ object.waitable = false := by simp [waitable]
    rw [refuse_of_not allowed, access]
    rfl

/-- A wait keeps every handle as it is, with the object behind it consumed or not. -/
theorem Took.waitTarget (took : Took s t handle thread)
    (found : s.waitTarget other = .ok (entry, object)) :
    t.waitTarget other = .ok (entry,
      if s.objectId handle = some entry.objectId then (object.consumeWait thread s.ticksMs).2 else object) := by
  obtain ⟨there, waitable, access⟩ := waitTarget_iff.mp found
  obtain ⟨listed, present⟩ := handleEntry_eq_ok.mp there
  refine waitTarget_iff.mpr ⟨handleEntry_eq_ok.mpr ⟨by rw [took.handles, listed], ?_⟩, ?_, access⟩
  · rw [took.objects, present]
    split <;> rfl
  · split
    · rw [waitable_consumeWait, waitable]
    · exact waitable

theorem Took.answer (took : Took s t handle thread) (object : KernelObject) :
    t.answer object thread = s.answer object thread := by
  cases object with
  | _ => simp only [Subsystem.answer, Subsystem.threadState, took.ticks, took.threads]

/-- A granted wait grants the next one on the same object while signals are left. -/
theorem answer_again (answer : s.answer object thread = .ok status) (granted : status ≠ .timeout)
    (left : ∀ limit, object.signals = some limit → 1 < limit) :
    ∃ next, s.answer (object.consumeWait thread s.ticksMs).2 thread = .ok next ∧
      next ≠ .timeout := by
  have again (consumed : (object.consumeWait thread s.ticksMs).1 ≠ .timeout) :
      ((object.consumeWait thread s.ticksMs).2.consumeWait thread s.ticksMs).1 ≠ .timeout := by
    cases limited : object.signals with
    | none => exact granted_again limited consumed
    | some limit =>
      have more := left limit limited
      have after : (object.consumeWait thread s.ticksMs).2.signals = some (limit - 1) := by
        rw [signals_consumeWait, limited, map_some]
      exact (consumeWait_granted after).mpr (by omega)
  cases object with
  | thread | process => exact ⟨status, answer, granted⟩
  | mutex =>
    cases answer
    exact ⟨_, rfl, again granted⟩
  | event manualReset signaled =>
    cases answer
    refine ⟨_, ?_, again granted⟩
    cases signaled <;> rfl
  | semaphore | timer =>
    cases answer
    refine ⟨_, ?_, again granted⟩
    rw [consumeWait]
    split <;> rfl
  | unwaitable => exact ⟨status, answer, granted⟩

theorem Ready.took (ready : Ready s thread other) (took : Took s t handle thread)
    (left : s.objectId handle = s.objectId other → ∀ id object limit, s.objectId other = some id →
      s.objects.lookup id = some object → object.signals = some limit → 1 < limit) :
    Ready t thread other := by
  obtain ⟨entry, object, status, found, answer, granted⟩ := ready_iff.mp ready
  obtain ⟨named, there⟩ := objectId_of_target found
  have after := took.waitTarget found
  split at after
  case isTrue same =>
    obtain ⟨next, answered, more⟩ := answer_again answer granted fun limit limited =>
      left (same.trans named.symm) _ _ limit named there limited
    exact ready_iff.mpr ⟨entry, _, next, after, (took.answer _).trans answered, more⟩
  case isFalse =>
    exact ready_iff.mpr ⟨entry, object, status, after, (took.answer _).trans answer, granted⟩

end Handles

/-! ## The whole set -/

/-- One wait after the other, each of them granted. -/
def Granted (thread : ThreadId) (s : Subsystem) (handles : List Handle) (t : Subsystem) : Prop :=
  match handles with
  | [] => t = s
  | handle :: rest =>
    ∃ status mid, (Subsystem.waitForSingleObjectInstant handle thread).run s = .ok status mid ∧
      status ≠ .timeout ∧ Granted thread mid rest t

/-- No object is listed more often than it has signals. -/
def Enough (s : Subsystem) (handles : List Handle) : Prop :=
  ∀ id object limit, s.objects.lookup id = some object → object.signals = some limit →
    (handles.filterMap s.objectId).count id ≤ limit

section Sets
variable {rest : List Handle} {thread : ThreadId}

theorem Took.sameIds (took : Took s t handle thread) :
    rest.filterMap t.objectId = rest.filterMap s.objectId :=
  List.filterMap_congr fun other _ => took.objectId other

/-- The first wait takes one signal of the object, and the rest of the set counts one listing less. -/
theorem Enough.took (enough : Enough s (handle :: rest)) (took : Took s t handle thread) :
    Enough t rest := by
  intro id object limit there limited
  rw [took.objects] at there
  rw [took.sameIds]
  split at there
  case isTrue named =>
    obtain ⟨before, present, rfl⟩ := map_eq_some_iff.mp there
    rw [signals_consumeWait] at limited
    obtain ⟨more, before_limited, rfl⟩ := map_eq_some_iff.mp limited
    have bound := enough id before more present before_limited
    rw [List.filterMap_cons_some named, List.count_cons_self] at bound
    omega
  case isFalse other =>
    have bound := enough id object limit there limited
    refine Nat.le_trans ?_ bound
    cases named : s.objectId handle with
    | none => rw [List.filterMap_cons_none named]
    | some =>
      rw [List.filterMap_cons_some named]
      exact List.count_le_count_cons

theorem granted_of_enough (ready : ∀ handle ∈ handles, Ready s thread handle)
    (enough : Enough s handles) : ∃ t, Granted thread s handles t := by
  induction handles generalizing s with
  | nil => exact ⟨s, rfl⟩
  | cons handle rest ih =>
    obtain ⟨here, others⟩ := List.forall_mem_cons.mp ready
    obtain ⟨entry, object, status, found, answer, granted⟩ := ready_iff.mp here
    obtain ⟨mid, ran, took⟩ := waitInstant_run found answer
    have stillReady : ∀ other ∈ rest, Ready mid thread other := by
      intro other listed
      refine (others other listed).took took fun same id object limit named there limited => ?_
      -- both handles are listed, so the object has at least two signals
      have bound := enough id object limit there limited
      rw [List.filterMap_cons_some (same.trans named), List.count_cons_self] at bound
      have again : 0 < (rest.filterMap s.objectId).count id :=
        List.count_pos_iff.mpr (List.mem_filterMap.mpr ⟨other, listed, named⟩)
      omega
    obtain ⟨t, granted'⟩ := ih stillReady (enough.took took)
    exact ⟨t, status, mid, ran, granted, granted'⟩

theorem Granted.enough (granted : Granted thread s handles t) : Enough s handles := by
  induction handles generalizing s with
  | nil =>
    intro id object limit there limited
    exact Nat.zero_le limit
  | cons handle rest ih =>
    obtain ⟨status, mid, ran, notTimeout, granted⟩ := granted
    obtain ⟨entry, first, found, answer, took⟩ := waitInstant_eq_ok ran
    obtain ⟨named, present⟩ := objectId_of_target found
    have bounds := ih granted
    intro id object limit there limited
    by_cases same : id = entry.objectId
    · subst same
      obtain rfl := some.inj (present.symm.trans there)
      have after : mid.objects.lookup entry.objectId = some (first.consumeWait thread s.ticksMs).2 := by
        rw [took.objects, if_pos named, present, map_some]
      have bound := bounds _ _ (limit - 1) after (by rw [signals_consumeWait, limited, map_some])
      have positive : 0 < limit := by
        have consumed : (first.consumeWait thread s.ticksMs).1 ≠ .timeout := by
          cases first with
          | thread | process => cases limited
          | _ => cases answer; exact notTimeout
        exact (consumeWait_granted limited).mp consumed
      rw [took.sameIds] at bound
      rw [List.filterMap_cons_some named, List.count_cons_self]
      omega
    · have after : mid.objects.lookup id = some object := by
        rw [took.objects, if_neg fun mine => same (some.inj (named.symm.trans mine)).symm, there]
      have bound := bounds id object limit after limited
      rw [took.sameIds] at bound
      rw [List.filterMap_cons_some named, List.count_cons_of_ne (Ne.symm same)]
      exact bound

/-- A round of `consume_wait_set` is a wait of which the answer is dropped. -/
theorem consumeWaitSet_step
    (ran : (Subsystem.waitForSingleObjectInstant handle thread).run s = .ok status mid) :
    (consumeWaitSet (handle :: rest) thread).run s = (consumeWaitSet rest thread).run mid := by
  obtain ⟨⟨entry, object⟩, _, read, told⟩ := Exec.bind_eq_ok.mp ran
  obtain ⟨found, rfl⟩ := Exec.read_eq_ok.mp read
  have entryRead := read_of_ok (g := fun s => handleEntry s handle) (waitTarget_eq_ok found)
  cases object with
  | thread =>
    obtain ⟨exitCode, _, state, answered⟩ := Exec.bind_eq_ok.mp told
    obtain ⟨-, rfl⟩ := Exec.read_eq_ok.mp state
    cases answered
    exact bind_of_ok (bind_of_ok entryRead)
  | process =>
    cases told
    exact bind_of_ok (bind_of_ok entryRead)
  | _ => exact bind_of_ok ((bind_of_ok entryRead).trans (bind_of_ok told))

theorem Granted.consumeWaitSet (granted : Granted thread s handles t) :
    (consumeWaitSet handles thread).run s = .ok () t := by
  induction handles generalizing s with
  | nil =>
    cases granted
    rfl
  | cons handle rest ih =>
    obtain ⟨status, mid, ran, -, granted⟩ := granted
    rw [consumeWaitSet_step ran]
    exact ih granted

theorem consumeWaitSet_returns (found : ∀ handle ∈ handles, ∃ pair, s.handleEntry handle = .ok pair)
    : ∃ t, (consumeWaitSet handles thread).run s = .ok () t := by
  induction handles generalizing s with
  | nil => exact ⟨s, rfl⟩
  | cons handle rest ih =>
    obtain ⟨here, others⟩ := List.forall_mem_cons.mp found
    obtain ⟨mid, took, ran⟩ := consumeWaitSet_cons here thread
    rw [ran]
    exact ih fun other listed => took.handleEntry (others other listed)

theorem Ready.entry (ready : Ready s thread handle) : ∃ pair, s.handleEntry handle = .ok pair := by
  obtain ⟨entry, object, -, found, -⟩ := ready_iff.mp ready
  exact ⟨(entry, object), waitTarget_eq_ok found⟩

theorem satisfiableAll_of_ready (ready : ∀ handle ∈ handles, Ready s thread handle) (before : Bool) :
    ∃ any, s.satisfiableAll thread handles before = .ok (some any) := by
  induction handles generalizing before with
  | nil => exact ⟨before, rfl⟩
  | cons handle rest ih =>
    obtain ⟨⟨satisfaction, answered, signaled⟩, others⟩ := List.forall_mem_cons.mp ready
    cases satisfaction with
    | notSignaled => exact absurd rfl signaled
    | signaled | abandoned =>
      exact (ih others _).imp fun any told => bind_eq_ok.mpr ⟨_, answered, told⟩

/-- `evaluate_wait_all` reports success exactly if every probe does. -/
theorem evaluateWaitAll_success :
    (∃ status t, (Subsystem.evaluateWaitAll handles thread).run s = .ok (some status) t) ↔
    ∀ handle ∈ handles, Ready s thread handle := by
  constructor
  · rintro ⟨status, t, ran⟩
    rcases evaluateWaitAll_cases s handles thread with stops | none | ⟨any, answered, -⟩
    · exact absurd ran stops.ne_ok
    · cases none.symm.trans ran
    · exact (satisfiableAll_eq_some answered).1
  · intro ready
    obtain ⟨any, answered⟩ := satisfiableAll_of_ready ready false
    obtain ⟨t, ran⟩ := consumeWaitSet_returns (fun handle listed => (ready handle listed).entry)
    have read := read_of_ok (g := fun s => Subsystem.satisfiableAll s thread handles false) answered
    exact ⟨_, t, (bind_of_ok read).trans (bind_of_ok ran)⟩

/-! ## The loop of `wait_for_multiple_objects` -/

def Answers (s : Subsystem) (handle : Handle) : Prop :=
  ∃ entry object status, s.waitTarget handle = .ok (entry, object) ∧
    s.answer object s.currentThreadId = .ok status

theorem Ready.answers (ready : Ready s s.currentThreadId handle) : Answers s handle := by
  obtain ⟨entry, object, status, found, answer, -⟩ := ready_iff.mp ready
  exact ⟨entry, object, status, found, answer⟩

theorem Answers.took (answers : Answers s other) (took : Took s t handle s.currentThreadId) :
    Answers t other := by
  obtain ⟨entry, object, status, found, answer⟩ := answers
  have after : ∃ next, t.answer (if s.objectId handle = some entry.objectId then
      (object.consumeWait s.currentThreadId s.ticksMs).2 else object) s.currentThreadId = .ok next := by
    split
    · rw [took.answer]
      cases object with
      | thread | process => exact ⟨status, answer⟩
      | event manualReset signaled => cases signaled <;> exact ⟨_, rfl⟩
      | semaphore | timer =>
        rw [consumeWait]
        split <;> exact ⟨_, rfl⟩
      | _ => exact ⟨_, rfl⟩
    · rw [took.answer]
      exact ⟨status, answer⟩
  obtain ⟨next, after⟩ := after
  rw [← took.current] at after
  refine ⟨entry, _, next, took.waitTarget found, ?_⟩
  rw [took.current] at after ⊢
  exact after

theorem acquireAll_returns (answers : ∀ handle ∈ handles, Answers s handle) (abandoned : Bool) :
    ∃ status t, (acquireAll handles abandoned).run s = .ok status t ∧
      (status = .object0 ∨ status = .abandoned) := by
  induction handles generalizing s abandoned with
  | nil =>
    refine ⟨_, s, rfl, ?_⟩
    cases abandoned
    · exact .inl rfl
    · exact .inr rfl
  | cons handle rest ih =>
    obtain ⟨⟨entry, object, status, found, answer⟩, others⟩ := List.forall_mem_cons.mp answers
    obtain ⟨mid, ran, took⟩ := waitInstant_run found answer
    obtain ⟨last, t, rest, success⟩ := ih (fun other listed => (others other listed).took took)
      (abandoned || status == .abandoned)
    exact ⟨last, t, (bind_of_ok ran).trans rest, success⟩

theorem Granted.acquireAll (granted : Granted s.currentThreadId s handles t) (abandoned : Bool) :
    ∃ status, (acquireAll handles abandoned).run s = .ok status t := by
  induction handles generalizing s abandoned with
  | nil =>
    cases granted
    exact ⟨_, rfl⟩
  | cons handle rest ih =>
    obtain ⟨status, mid, ran, -, granted⟩ := granted
    obtain ⟨-, -, -, -, took⟩ := waitInstant_eq_ok ran
    rw [← took.current] at granted
    obtain ⟨last, told⟩ := ih granted (abandoned || status == .abandoned)
    exact ⟨last, (bind_of_ok ran).trans told⟩

theorem objectIsSignaled_iff :
    s.objectIsSignaled handle = .ok true ↔ Ready s s.currentThreadId handle := by
  rw [ready_iff]
  constructor
  · intro signaled
    obtain ⟨⟨entry, object⟩, found, signaled⟩ := bind_eq_ok.mp signaled
    refine ⟨entry, object, ?_⟩
    cases object with
    | thread threadId =>
      cases state : s.threads.lookup threadId with
      | none => simp [state] at signaled
      | some exitCode =>
        have read : s.threadState threadId = .ok exitCode := require_eq_ok.mpr state
        refine ⟨_, found, bind_eq_ok.mpr ⟨exitCode, read, rfl⟩, ?_⟩
        cases exitCode <;> simp_all
    | process exitCode =>
      refine ⟨_, found, rfl, ?_⟩
      cases exitCode <;> simp_all
    | _ => exact ⟨_, found, rfl, consumeWait_probe.mpr (isSignaled_iff.mp (ok.inj signaled))⟩
  · rintro ⟨entry, object, status, found, answer, granted⟩
    refine bind_eq_ok.mpr ⟨_, found, ?_⟩
    cases object with
    | thread =>
      obtain ⟨exitCode, state, answer⟩ := bind_eq_ok.mp answer
      obtain rfl := ok.inj answer
      have there := require_eq_ok.mp state
      cases exitCode <;> simp_all
    | process exitCode =>
      obtain rfl := ok.inj answer
      cases exitCode <;> simp_all
    | _ =>
      obtain rfl := ok.inj answer
      exact congrArg ok (isSignaled_iff.mpr (consumeWait_probe.mp granted))

theorem allSignaled_iff : s.allSignaled handles all = .ok true ↔
    all = true ∧ ∀ handle ∈ handles, Ready s s.currentThreadId handle := by
  induction handles generalizing all with
  | nil => simp [allSignaled]
  | cons handle rest ih =>
    rw [allSignaled, bind_eq_ok, List.forall_mem_cons]
    constructor
    · rintro ⟨signaled, here, others⟩
      obtain ⟨both, ready⟩ := ih.mp others
      obtain ⟨rfl, rfl⟩ := Bool.and_eq_true_iff.mp both
      exact ⟨rfl, objectIsSignaled_iff.mp here, ready⟩
    · rintro ⟨rfl, here, ready⟩
      exact ⟨true, objectIsSignaled_iff.mpr here, ih.mpr ⟨rfl, ready⟩⟩

end Sets

namespace Subsystem

/-- The clock after a pause between two rounds. -/
def tick (s : Subsystem) : Subsystem := { s with ticksMs := saturatingAdd s.ticksMs 1 }

def later : Nat → Subsystem → Subsystem
  | 0, s => s
  | rounds + 1, s => later rounds s.tick

end Subsystem

def Subsystem.deadline (s : Subsystem) (timeoutMs : U32) : Option U64 :=
  if timeoutMs = 0 ∨ timeoutMs = BitVec.allOnes 32 then none
  else some (Subsystem.saturatingAdd s.ticksMs (timeoutMs.setWidth 64))

/-- The round after so many pauses is reached, as far as the timeout goes. -/
def Reached (timeoutMs : U32) (deadline : Option U64) : Nat → Subsystem → Prop
  | 0, _ => True
  | rounds + 1, s => deadline.any (BitVec.ule · s.ticksMs) = false ∧ timeoutMs ≠ 0 ∧
      Reached timeoutMs deadline rounds s.tick

section Rounds
variable {s : Subsystem}

theorem later_objects (s : Subsystem) : (s.later rounds).objects = s.objects ∧
    (s.later rounds).handles = s.handles ∧ (s.later rounds).threads = s.threads ∧
    (s.later rounds).currentThreadId = s.currentThreadId := by
  induction rounds generalizing s with
  | zero => exact ⟨rfl, rfl, rfl, rfl⟩
  | succ rounds ih => exact ih s.tick

/-- What a call reports that acquired nothing. -/
def Unsuccessful : Option (WaitStatus × Nat) → Prop
  | some (status, _) => status ≠ .object0 ∧ status ≠ .abandoned
  | none => True

/-- A call that ends without success, and with the objects as they were. -/
structure Quiet (s : Subsystem) (outcome : Outcome Subsystem Failure (Option (WaitStatus × Nat))) : Prop where
  kept : ∀ t, outcome.state? = some t → t.objects = s.objects
  unsuccessful : ∀ report t, outcome = .ok report t → Unsuccessful report

theorem Quiet.ok (none : Unsuccessful report) (objects : t.objects = s.objects) :
    Quiet s (.ok report t) := by
  constructor
  · rintro _ ⟨⟩
    exact objects
  · rintro _ _ ⟨⟩
    exact none

theorem Stops.quiet (stops : Stops s outcome) : Quiet s outcome := by
  constructor
  · intro t ended
    rcases stops with ⟨reason, rfl⟩ | rfl
    · cases ended
      rfl
    · cases ended
  · intro report t told
    exact absurd told stops.ne_ok

theorem timeout_unsuccessful : Unsuccessful (some (.timeout, index)) :=
  ⟨WaitStatus.noConfusion, WaitStatus.noConfusion⟩

/-- A round that finds every object ready acquires them all. -/
theorem waitRounds_ready (ready : ∀ handle ∈ handles, Ready s s.currentThreadId handle) :
    ∃ status t, (acquireAll handles false).run s = .ok status t ∧
      (waitRounds handles true timeoutMs deadline (rounds + 1)).run s = .ok (some (status, 0)) t ∧
      (status = .object0 ∨ status = .abandoned) := by
  have read :=
    read_of_ok (g := fun s => allSignaled s handles true) (allSignaled_iff.mpr ⟨rfl, ready⟩)
  obtain ⟨status, t, ran, success⟩ :=
    acquireAll_returns (fun handle listed => (ready handle listed).answers) false
  have set : (acquireSet handles true).run s = .ok (some (status, 0)) t :=
    (bind_of_ok read).trans (bind_of_ok ran)
  exact ⟨status, t, ran, bind_of_ok set, success⟩

/-- Either the set is acquired in some round that is reached, or nothing happens to the objects. -/
theorem waitRounds_cases (s : Subsystem) : (∃ waited, Reached timeoutMs deadline waited s ∧
      (∀ handle ∈ handles, Ready (s.later waited) s.currentThreadId handle) ∧
      ∃ status t, (acquireAll handles false).run (s.later waited) = .ok status t ∧
        (waitRounds handles true timeoutMs deadline rounds).run s = .ok (some (status, 0)) t ∧
        (status = .object0 ∨ status = .abandoned)) ∨
    Quiet s ((waitRounds handles true timeoutMs deadline rounds).run s) := by
  induction rounds generalizing s with
  | zero => exact .inr (.ok trivial rfl)
  | succ rounds ih =>
    cases probed : s.allSignaled handles true with
    | error reason =>
      have read : (Exec.read fun s => allSignaled s handles true).run s = .error reason s := by
        rw [Exec.read_eq, probed]
      exact .inr (Stops.quiet (.inl ⟨reason, Exec.bind_of_error (Exec.bind_of_error read)⟩))
    | panic =>
      have read : (Exec.read fun s => allSignaled s handles true).run s = .panic := by
        rw [Exec.read_eq, probed]
      exact .inr (Stops.quiet (.inr (Exec.bind_of_panic (Exec.bind_of_panic read))))
    | ok all =>
      cases all with
      | true =>
        have ready := (allSignaled_iff.mp probed).2
        exact .inl ⟨0, trivial, ready, waitRounds_ready ready⟩
      | false =>
        have set : (acquireSet handles true).run s = .ok none s :=
          bind_of_ok (read_of_ok (g := fun s => allSignaled s handles true) probed)
        rw [waitRounds, bind_of_ok set, Exec.get_bind_run]
        split
        case isTrue => exact .inr (.ok timeout_unsuccessful rfl)
        case isFalse before =>
          split
          case isTrue => exact .inr (.ok timeout_unsuccessful rfl)
          case isFalse wait =>
            rcases ih s.tick with ⟨waited, reached, ready, status, t, ran, told, success⟩ | quiet
            · exact .inl ⟨waited + 1, ⟨Bool.eq_false_of_not_eq_true before, wait, reached⟩, ready, status, t, ran, told,
                success⟩
            · exact .inr ⟨quiet.kept, quiet.unsuccessful⟩

theorem waitTarget_congr {t : Subsystem} (handles : t.handles = s.handles)
    (objects : t.objects = s.objects) : t.waitTarget handle = s.waitTarget handle := by
  simp [Subsystem.waitTarget, handleEntry, handles, objects]

/-- A probe answers at any time once it is ready at some time. -/
theorem probe_of_ready (ready : Ready (s.later waited) s.currentThreadId handle) :
    ∃ signaled, s.objectIsSignaled handle = .ok signaled := by
  obtain ⟨entry, object, -, found, -⟩ := ready_iff.mp ready
  obtain ⟨objects, sameHandles, -⟩ := later_objects s
  rw [waitTarget_congr sameHandles objects] at found
  cases object <;> exact ⟨_, bind_eq_ok.mpr ⟨_, found, rfl⟩⟩

theorem allSignaled_answers
    (probes : ∀ handle ∈ handles, ∃ signaled, s.objectIsSignaled handle = .ok signaled)
    (before : Bool) : ∃ all, s.allSignaled handles before = .ok all := by
  induction handles generalizing before with
  | nil => exact ⟨before, rfl⟩
  | cons handle rest ih =>
    obtain ⟨⟨signaled, here⟩, others⟩ := List.forall_mem_cons.mp probes
    obtain ⟨all, told⟩ := ih others (before && signaled)
    exact ⟨all, bind_eq_ok.mpr ⟨signaled, here, told⟩⟩

/-- A set that is ready in a round that is reached is acquired in that round or before. -/
theorem waitRounds_reaches (reached : Reached timeoutMs deadline waited s)
    (ready : ∀ handle ∈ handles, Ready (s.later waited) s.currentThreadId handle) :
    ∃ status t,
      (waitRounds handles true timeoutMs deadline (waited + 1)).run s = .ok (some (status, 0)) t ∧
      (status = .object0 ∨ status = .abandoned) := by
  induction waited generalizing s with
  | zero =>
    obtain ⟨status, t, -, told⟩ := waitRounds_ready ready
    exact ⟨status, t, told⟩
  | succ waited ih =>
    obtain ⟨before, wait, reached⟩ := reached
    obtain ⟨all, probed⟩ :=
      allSignaled_answers (fun handle listed => probe_of_ready (ready handle listed)) true
    cases all with
    | true =>
      obtain ⟨status, t, -, told⟩ := waitRounds_ready (allSignaled_iff.mp probed).2
      exact ⟨status, t, told⟩
    | false =>
      have set : (acquireSet handles true).run s = .ok none s :=
        bind_of_ok (read_of_ok (g := fun s => allSignaled s handles true) probed)
      rw [waitRounds, bind_of_ok set, Exec.get_bind_run, if_neg (Bool.eq_false_iff.mp before), if_neg wait]
      exact ih reached ready

end Rounds

/-! ## The delivery of APCs -/

/-- The thread that an alertable wait delivers APCs to. -/
def Subsystem.waiter (s : Subsystem) : Option Handle → Option ThreadId
  | some handle => s.threadOf handle
  | none => some s.currentThreadId

/-- An alertable wait that is not cut short by an APC. -/
def Uninterrupted (s : Subsystem) (alertable : Bool) (threadHandle : Option Handle) : Prop :=
  alertable = true → ∃ thread, s.waiter threadHandle = some thread ∧
    (s.threadApcs.lookup thread).getD 0 = 0

section Apcs
variable {s : Subsystem} {thread : ThreadId}

def Subsystem.deliver (s : Subsystem) (thread : ThreadId) : Subsystem :=
  { s with threadApcs := OrderedMap.modify thread (fun _ => 0) s.threadApcs }

theorem takePendingApcs_cases :
    (s.waiter threadHandle = none ∧
      Stops s ((Subsystem.takePendingApcsForHandle threadHandle).run s)) ∨
    ∃ thread, s.waiter threadHandle = some thread ∧
      (Subsystem.takePendingApcsForHandle threadHandle).run s =
        .ok ((s.threadApcs.lookup thread).getD 0) (s.deliver thread) := by
  rw [Subsystem.takePendingApcsForHandle, Exec.read_bind_run]
  cases threadHandle with
  | none => exact .inr ⟨s.currentThreadId, rfl, rfl⟩
  | some handle =>
    rw [Subsystem.apcThread, Subsystem.threadId, Subsystem.waiter, Subsystem.threadOf]
    cases listed : s.handles.lookup handle with
    | none =>
      have unknown : s.handleEntry handle = .error (invalidHandle ("invalid handle " ++ toString handle.toNat)) := by
        rw [handleEntry, listed]
        rfl
      rw [unknown]
      exact .inl ⟨rfl, .inl ⟨_, rfl⟩⟩
    | some entry =>
      rw [bind_some]
      cases there : s.objects.lookup entry.objectId with
      | none =>
        have lost : s.handleEntry handle = .panic := by
          rw [handleEntry, listed]
          dsimp only [require]
          rw [ok_bind, there]
          rfl
        rw [lost]
        exact .inl ⟨rfl, .inr rfl⟩
      | some object =>
        rw [handleEntry_eq_ok.mpr ⟨listed, there⟩]
        cases object with
        | thread thread => exact .inr ⟨thread, rfl, rfl⟩
        | _ => exact .inl ⟨rfl, .inl ⟨_, rfl⟩⟩

theorem later_deliver : (s.deliver thread).later waited = (s.later waited).deliver thread := by
  induction waited generalizing s with
  | zero => rfl
  | succ waited ih => exact ih (s := s.tick)

theorem reached_deliver :
    Reached timeoutMs deadline waited (s.deliver thread) ↔ Reached timeoutMs deadline waited s := by
  induction waited generalizing s with
  | zero => exact Iff.rfl
  | succ waited ih => exact and_congr Iff.rfl (and_congr Iff.rfl (ih (s := s.tick)))

/-- The call waits from the state that the delivery leaves, or ends with the objects as they are. -/
theorem waitForMultipleObjects_cases : (¬ Uninterrupted s alertable threadHandle ∧
      Quiet s ((waitForMultipleObjects handles waitAll timeoutMs alertable threadHandle rounds).run s)) ∨
    (Uninterrupted s alertable threadHandle ∧
      ∃ start, (start = s ∨ ∃ thread, start = s.deliver thread) ∧
      (waitForMultipleObjects handles waitAll timeoutMs alertable threadHandle rounds).run s =
        (waitRounds handles waitAll timeoutMs (s.deadline timeoutMs) rounds).run start) := by
  cases alertable with
  | false => exact .inr ⟨fun alert => absurd alert Bool.false_ne_true, s, .inl rfl, rfl⟩
  | true =>
    rcases takePendingApcs_cases with ⟨nobody, stops⟩ | ⟨thread, waiter, ran⟩
    · refine .inl ⟨fun free => ?_, Stops.quiet stops.bind⟩
      obtain ⟨thread, waiter, -⟩ := free rfl
      cases nobody.symm.trans waiter
    · have run : (waitForMultipleObjects handles waitAll timeoutMs true threadHandle rounds).run s =
          (if (s.threadApcs.lookup thread).getD 0 ≠ 0 then pure (some (.ioCompletion, 0))
          else waitRounds handles waitAll timeoutMs (s.deadline timeoutMs) rounds).run (s.deliver thread) :=
        bind_of_ok ran
      rw [run]
      by_cases pending : (s.threadApcs.lookup thread).getD 0 = 0
      · right
        refine ⟨fun _ => ⟨thread, waiter, pending⟩, s.deliver thread, .inr ⟨thread, rfl⟩, ?_⟩
        rw [if_neg (not_not.mpr pending)]
      · left
        rw [if_pos pending]
        refine ⟨fun free => ?_, .ok ⟨WaitStatus.noConfusion, WaitStatus.noConfusion⟩ rfl⟩
        obtain ⟨other, mine, none⟩ := free rfl
        obtain rfl := some.inj (waiter.symm.trans mine)
        exact pending none

end Apcs

/-! ## All or nothing -/

/-- `evaluate_wait_all` acquires the whole set or leaves the objects alone. -/
def EvaluatesWhole (s : Subsystem) (handles : List Handle) (thread : ThreadId) : Prop :=
  (∀ status t, (Subsystem.evaluateWaitAll handles thread).run s = .ok (some status) t →
    Granted thread s handles t) ∧
  ∀ t, ((∃ reason, (Subsystem.evaluateWaitAll handles thread).run s = .error reason t) ∨
    (Subsystem.evaluateWaitAll handles thread).run s = .ok none t) → t.objects = s.objects

/-- A success acquired the whole set at some time of the wait, and anything else left the objects
alone. -/
def Whole (s : Subsystem) (handles : List Handle)
    (outcome : Outcome Subsystem Failure (Option (WaitStatus × Nat))) : Prop :=
  (∀ status index t, outcome = .ok (some (status, index)) t → status = .object0 ∨
    status = .abandoned →
    ∃ waited : Subsystem, waited.objects = s.objects ∧ waited.handles = s.handles ∧
      waited.threads = s.threads ∧ Granted s.currentThreadId waited handles t) ∧
  ∀ t, ((∃ reason, outcome = .error reason t) ∨ ∃ report, Unsuccessful report ∧
    outcome = .ok report t) →
    t.objects = s.objects

/-- So does `wait_for_multiple_objects`. -/
def WaitsWhole (s : Subsystem) (handles : List Handle) (timeoutMs : U32) (alertable : Bool)
    (threadHandle : Option Handle) : Prop :=
  ∀ rounds, Whole s handles
    ((Subsystem.waitForMultipleObjects handles true timeoutMs alertable threadHandle rounds).run s)

section Whole
variable {thread : ThreadId}

theorem Enough.congr (objects : t.objects = s.objects) (sameHandles : t.handles = s.handles) :
    Enough t handles ↔ Enough s handles := by
  have ids : t.objectId = s.objectId := by
    funext handle
    rw [objectId, objectId, sameHandles]
  rw [Enough, Enough, objects, ids]

theorem evaluatesWhole_iff : EvaluatesWhole s handles thread ↔
    ((∀ handle ∈ handles, Ready s thread handle) → Enough s handles) := by
  constructor
  · intro whole ready
    obtain ⟨status, t, ran⟩ := evaluateWaitAll_success.mpr ready
    exact (whole.1 status t ran).enough
  · intro condition
    constructor
    · intro status t ran
      have ready := evaluateWaitAll_success.mp ⟨status, t, ran⟩
      obtain ⟨after, granted⟩ := granted_of_enough ready (condition ready)
      rcases evaluateWaitAll_cases s handles thread with stops | none | ⟨any, -, run⟩
      · exact absurd ran stops.ne_ok
      · cases none.symm.trans ran
      · rw [run, bind_of_ok granted.consumeWaitSet] at ran
        cases ran
        exact granted
    · intro t ended
      rcases evaluateWaitAll_cases s handles thread with stops | none | ⟨any, answered, run⟩
      · rcases ended with ⟨reason, failed⟩ | nothing
        · rcases stops with ⟨_, stopped⟩ | stopped
          · cases stopped.symm.trans failed
            rfl
          · cases stopped.symm.trans failed
        · exact absurd nothing stops.ne_ok
      · rcases ended with ⟨reason, failed⟩ | nothing
        · cases none.symm.trans failed
        · cases none.symm.trans nothing
          rfl
      · -- the consuming pass always returns, and with success
        obtain ⟨_, ran⟩ := consumeWaitSet_returns (satisfiable_found answered)
        rw [run, bind_of_ok ran] at ended
        rcases ended with ⟨reason, failed⟩ | nothing
        · cases failed
        · cases nothing

/-- A quiet call has nothing to show for. -/
theorem Quiet.whole (quiet : Quiet s outcome) : Whole s handles outcome := by
  constructor
  · intro status index t told success
    have none := quiet.unsuccessful _ t told
    rcases success with rfl | rfl
    · exact absurd rfl none.1
    · exact absurd rfl none.2
  · intro t ended
    apply quiet.kept
    rcases ended with ⟨reason, failed⟩ | ⟨report, -, told⟩
    · rw [failed, Outcome.state?_error]
    · rw [told, Outcome.state?_ok]

theorem waitsWhole_iff : WaitsWhole s handles timeoutMs alertable threadHandle ↔
    (Uninterrupted s alertable threadHandle →
      ∀ waited, Reached timeoutMs (s.deadline timeoutMs) waited s →
      (∀ handle ∈ handles, Ready (s.later waited) s.currentThreadId handle) → Enough s handles) := by
  -- what is said of the state after the delivery of APCs holds of the state before it
  have moved {start : Subsystem} (from_s : start = s ∨
      ∃ thread, start = s.deliver thread) (waited : Nat) :
      (Reached timeoutMs (s.deadline timeoutMs) waited start ↔ Reached timeoutMs (s.deadline timeoutMs) waited s) ∧
      (∀ handle, Ready (start.later waited) start.currentThreadId handle ↔
        Ready (s.later waited) s.currentThreadId handle) ∧
      start.currentThreadId = s.currentThreadId ∧ start.objects = s.objects ∧ start.handles = s.handles ∧
      start.threads = s.threads := by
    rcases from_s with rfl | ⟨thread, rfl⟩
    · exact ⟨Iff.rfl, fun _ => Iff.rfl, rfl, rfl, rfl, rfl⟩
    · refine ⟨reached_deliver, fun handle => ?_, rfl, rfl, rfl, rfl⟩
      rw [later_deliver]
      exact Iff.rfl
  constructor
  · intro whole free waited reached ready
    rcases waitForMultipleObjects_cases with
      ⟨interrupted, -⟩ | ⟨-, start, from_s, run⟩
    · exact absurd free interrupted
    · obtain ⟨sameReached, sameReady, current, -⟩ := moved from_s waited
      obtain ⟨status, t, ran, success⟩ := waitRounds_reaches (sameReached.mpr reached)
        fun handle listed => (sameReady handle).mpr (ready handle listed)
      obtain ⟨then_, objects, sameHandles, -, granted⟩ := (whole (waited + 1)).1 status 0 t (run.trans ran) success
      exact (Enough.congr objects sameHandles).mp granted.enough
  · intro condition rounds
    rcases waitForMultipleObjects_cases with
      ⟨-, quiet⟩ | ⟨free, start, from_s, run⟩
    · exact quiet.whole
    · rw [run]
      rcases waitRounds_cases start with
        ⟨waited, reached, ready, status, t, ran, told, success⟩ | quiet
      · obtain ⟨sameReached, sameReady, current, objects, sameHandles, threads⟩ := moved from_s waited
        obtain ⟨laterObjects, laterHandles, laterThreads, laterCurrent⟩ := later_objects start
        have enough := condition free waited (sameReached.mp reached)
          fun handle listed => (sameReady handle).mp (ready handle listed)
        have enoughLater : Enough (start.later waited) handles :=
          (Enough.congr (laterObjects.trans objects) (laterHandles.trans sameHandles)).mpr enough
        obtain ⟨after, granted⟩ := granted_of_enough ready enoughLater
        rw [← laterCurrent] at granted
        obtain ⟨_, again⟩ := granted.acquireAll false
        cases again.symm.trans ran
        rw [told]
        constructor
        · rintro _ _ _ ⟨⟩ -
          rw [laterCurrent, current] at granted
          exact ⟨start.later waited, laterObjects.trans objects, laterHandles.trans sameHandles,
            laterThreads.trans threads, granted⟩
        · rintro _ (⟨_, failed⟩ | ⟨_, unsuccessful, reported⟩)
          · cases failed
          · cases reported
            rcases success with rfl | rfl
            · exact absurd rfl unsuccessful.1
            · exact absurd rfl unsuccessful.2
      · have sameObjects := (moved from_s 0).2.2.2.1
        exact Quiet.whole ⟨fun t ended => (quiet.kept t ended).trans sameObjects, quiet.unsuccessful⟩

end Whole

theorem wait_all_whole_iff (s : Subsystem) (handles : List Handle) (thread : ThreadId)
    (timeoutMs : U32) (alertable : Bool) (threadHandle : Option Handle) :
    (EvaluatesWhole s handles thread ↔
      ((∀ handle ∈ handles, Ready s thread handle) → Enough s handles)) ∧
    (WaitsWhole s handles timeoutMs alertable threadHandle ↔
      (Uninterrupted s alertable threadHandle → ∀ waited, Reached timeoutMs (s.deadline timeoutMs) waited s →
        (∀ handle ∈ handles, Ready (s.later waited) s.currentThreadId handle) → Enough s handles)) :=
  ⟨evaluatesWhole_iff, waitsWhole_iff⟩

/-- A semaphore with one signal, and two waits for it in one set. -/
def singleSignal : Subsystem :=
  { Subsystem.new with
    objects := [(1, .semaphore 1 1)]
    handles := [(4, ⟨1, 0x1F0003⟩)] }

/-- Both calls report success for the set, and the semaphore gave one signal for two handles. -/
theorem listed_twice_granted_once :
    ((Subsystem.evaluateWaitAll [4, 4] 1).run singleSignal =
      .ok (some .object0) { singleSignal with objects := [(1, .semaphore 0 1)] }) ∧
    ((Subsystem.waitForMultipleObjects [4, 4] true 0 false none 1).run singleSignal =
      .ok (some (.object0, 0)) { singleSignal with objects := [(1, .semaphore 0 1)] }) ∧
    ¬ EvaluatesWhole singleSignal [4, 4] 1 ∧ ¬ WaitsWhole singleSignal [4, 4] 0 false none := by
  have short : ¬ Enough singleSignal [4, 4] := by
    intro enough
    exact absurd (enough 1 (.semaphore 1 1) 1 rfl rfl) (by decide)
  refine ⟨rfl, rfl, ?_, ?_⟩
  · intro whole
    exact short (whole.1 .object0 _ rfl).enough
  · intro whole
    obtain ⟨waited, objects, handles, -, granted⟩ := (whole 1).1 .object0 0 _ rfl (.inl rfl)
    exact short ((Enough.congr objects handles).mp granted.enough)

end Casa.Win32
