import Casa.Lib.Along
import Mathlib.Data.BitVec
import Casa.Lib.MachineInt

/-! A thread that sleeps on a condition variable of threads.rs without a timeout, and the
threads that take its mutex and wake it. The release of the mutex, the snapshot of the
generation, the check of the predicate and the entry into the wait set are steps of their own,
and so are the two halves of a wake. -/
namespace Casa.Threads
open Effect

structure MutexState where
  ownerTid : Nat
  recursionCount : Nat
  abandoned : Bool

namespace MutexState

/-- `none` while the caller has to wait. -/
def acquire (s : MutexState) (thread : Nat) : Option MutexState :=
  if s.ownerTid = 0 then some ⟨thread, 1, false⟩
  else if s.ownerTid = thread then
    some { s with recursionCount := min (s.recursionCount + 1) (2 ^ 32 - 1) }
  else none

def release (s : MutexState) (thread : Nat) : MutexState × Bool :=
  if s.ownerTid ≠ thread then (s, false)
  else
    let s := { s with recursionCount := s.recursionCount - 1 }
    if s.recursionCount = 0 then ({ s with ownerTid := 0 }, true) else (s, true)

end MutexState

/-- Where the sleeper is in `sleep_cs`, with its snapshot of the generation. -/
inductive Phase where
  | calling
  | released
  | checking (generation : U64)
  | registering (generation : U64)
  | waiting (generation : U64) (notified : Bool)
  | reacquiring
  | returned
  deriving DecidableEq

namespace Phase

def snapshot : Phase → Option U64
  | .checking generation | .registering generation | .waiting generation _ => some generation
  | _ => none

def isRegistering : Phase → Bool
  | .registering _ => true
  | _ => false

def isBlocked : Phase → Bool
  | .waiting _ false => true
  | _ => false

/-- The sleeper is the only waiter, so `notify_one` and `notify_all` do the same. -/
def notify : Phase → Phase
  | .waiting generation _ => .waiting generation true
  | phase => phase

end Phase

structure Sleep where
  mutex : MutexState
  wakeGeneration : U64
  sleeper : Phase
  /-- Who acquired the mutex after the sleeper released it. -/
  acquired : List Nat
  /-- Who has counted the generation up and not yet sent the notification. -/
  waking : List Nat
  /-- Some wake has completed. -/
  woken : Bool

inductive WakeAction where
  /-- The sleeper's next step; out of a wait it also comes without a notification. -/
  | sleep
  | acquire (thread : Nat)
  | release (thread : Nat)
  | countUp (thread : Nat)
  | notify (thread : Nat)

namespace Sleep

/-- The sleeper owns the mutex and calls `sleep_cs`. -/
def start (thread recursionCount : Nat) (generation : U64) : Sleep :=
  ⟨⟨thread, recursionCount, false⟩, generation, .calling, [], [], false⟩

def sleepCs (s : Sleep) (thread : Nat) : Sleep :=
  match s.sleeper with
  | .calling => { s with mutex := (s.mutex.release thread).1, sleeper := .released }
  | .released => { s with sleeper := .checking s.wakeGeneration }
  | .checking generation =>
    { s with sleeper := if s.wakeGeneration = generation then .registering generation else .reacquiring }
  | .registering generation => { s with sleeper := .waiting generation false }
  | .waiting generation _ => { s with sleeper := .checking generation }
  | .reacquiring =>
    match s.mutex.acquire thread with
    | some mutex => { s with mutex, sleeper := .returned }
    | none => s
  | .returned => s

def step (thread : Nat) (s : Sleep) : WakeAction → Sleep
  | .sleep => s.sleepCs thread
  | .acquire t =>
    match s.mutex.acquire t with
    | some mutex => { s with mutex, acquired := t :: s.acquired }
    | none => s
  | .release t => { s with mutex := (s.mutex.release t).1 }
  | .countUp t => { s with wakeGeneration := s.wakeGeneration + 1, waking := t :: s.waking }
  | .notify t => { s with sleeper := s.sleeper.notify, waking := s.waking.erase t, woken := true }

/-- The other threads acquire the mutex after the sleeper's release and only then wake it. -/
def Legal (thread : Nat) (s : Sleep) : WakeAction → Prop
  | .sleep => True
  | .acquire t => t ≠ thread ∧ s.sleeper ≠ .calling
  | .release t => t ≠ thread
  | .countUp t => t ∈ s.acquired ∧ t ∉ s.waking
  | .notify t => t ∈ s.waking

/-- No wake counts up between the sleeper's release and its snapshot, or back to the snapshot,
and none notifies between a check of the predicate and the wait it leads to. -/
def Timely (s : Sleep) : WakeAction → Prop
  | .countUp _ => s.sleeper ≠ .released ∧ s.sleeper.snapshot ≠ some (s.wakeGeneration + 1)
  | .notify _ => s.sleeper.isRegistering = false
  | _ => True

instance (thread : Nat) (s : Sleep) : DecidablePred (s.Legal thread)
  | .sleep => .isTrue trivial
  | .acquire _ | .countUp _ => inferInstanceAs (Decidable (_ ∧ _))
  | .release _ => inferInstanceAs (Decidable (_ ≠ _))
  | .notify _ => inferInstanceAs (Decidable (_ ∈ _))

instance (s : Sleep) : DecidablePred s.Timely
  | .countUp _ => inferInstanceAs (Decidable (_ ∧ _))
  | .notify _ => inferInstanceAs (Decidable (_ = _))
  | .sleep | .acquire _ | .release _ => .isTrue trivial

/-- A wake has completed and the sleeper waits with no notification. -/
def Lost (s : Sleep) : Prop := s.woken = true ∧ s.sleeper.isBlocked = true

instance (s : Sleep) : Decidable s.Lost := inferInstanceAs (Decidable (_ ∧ _))

/-- Every wake counts up after the snapshot, and completes before the check that precedes a wait
or during the wait. -/
structure Invariant (s : Sleep) : Prop where
  calling : s.sleeper = .calling → s.acquired = []
  early : s.sleeper = .calling ∨ s.sleeper = .released → s.waking = [] ∧ s.woken = false
  counted : s.waking ≠ [] ∨ s.woken = true → s.sleeper.snapshot ≠ some s.wakeGeneration
  registering : s.sleeper.isRegistering = true → s.woken = false
  served : ¬ s.Lost

namespace Invariant

theorem start : Invariant (start thread recursionCount generation) := by
  constructor <;> simp [Sleep.start, Lost]

theorem sleepCs (inv : Invariant s) : Invariant (s.sleepCs thread) := by
  rw [Sleep.sleepCs]
  split
  case h_1 calling =>
    obtain ⟨none, fresh⟩ := inv.early (.inl calling)
    constructor <;> simp [none, fresh, Lost]
  case h_2 released =>
    obtain ⟨none, fresh⟩ := inv.early (.inr released)
    constructor <;> simp [none, fresh, Lost]
  case h_3 generation checking =>
    split
    case isTrue same =>
      -- the predicate still holds, so no wake has begun
      have quiet : ¬ (s.waking ≠ [] ∨ s.woken) := fun some =>
        inv.counted some (by rw [checking, same]; rfl)
      obtain ⟨none, fresh⟩ := not_or.mp quiet
      constructor <;> simp_all [Lost, Phase.isBlocked]
    case isFalse =>
      constructor <;> simp [Lost, Phase.snapshot, Phase.isRegistering, Phase.isBlocked]
  case h_4 generation registering =>
    have fresh : s.woken = false := inv.registering (by rw [registering]; rfl)
    have counted := inv.counted
    constructor <;> simp_all [Lost, Phase.snapshot, Phase.isRegistering]
  case h_5 generation notified waiting =>
    have counted := inv.counted
    constructor <;> simp_all [Lost, Phase.snapshot, Phase.isRegistering, Phase.isBlocked]
  case h_6 =>
    split
    · constructor <;> simp [Lost, Phase.snapshot, Phase.isRegistering, Phase.isBlocked]
    · exact inv
  case h_7 => exact inv

theorem notify (inv : Invariant s) (waking : t ∈ s.waking)
    (timely : s.sleeper.isRegistering = false) : Invariant (s.step thread (.notify t)) := by
  have counted := inv.counted (.inl (List.ne_nil_of_mem waking))
  have late : ¬ (s.sleeper = .calling ∨ s.sleeper = .released) := fun early =>
    List.ne_nil_of_mem waking (inv.early early).1
  change Invariant { s with sleeper := s.sleeper.notify, waking := s.waking.erase t, woken := true }
  cases phase : s.sleeper with
  | calling => exact (late (.inl phase)).elim
  | released => exact (late (.inr phase)).elim
  | registering generation =>
    cases (phase ▸ timely : (Phase.registering generation).isRegistering = false)
  | checking | waiting | reacquiring | returned =>
    constructor <;> simp_all [Lost, Phase.notify, Phase.snapshot, Phase.isRegistering, Phase.isBlocked]

theorem step (inv : Invariant s) (action : WakeAction) (legal : s.Legal thread action)
    (timely : s.Timely action) : Invariant (s.step thread action) := by
  cases action with
  | sleep => exact inv.sleepCs
  | acquire t =>
    rw [Sleep.step]
    split
    · exact { inv with calling := fun calling => (legal.2 calling).elim }
    · exact inv
  | release t => exact { inv with }
  | countUp t =>
    refine ⟨inv.calling, fun early => ?_, fun _ => timely.2, inv.registering, inv.served⟩
    rcases early with calling | released
    · cases inv.calling calling ▸ legal.1
    · exact (timely.1 released).elim
  | notify t => exact inv.notify legal timely

end Invariant

/-- Along every run in which no wake falls into the gaps of `sleep_cs`, the sleeper is not left
blocked once a wake has completed. -/
theorem timely_wake_is_not_lost (thread recursionCount : Nat) (generation : U64)
    (actions : List WakeAction)
    (run : Along (step thread) (fun s action => s.Legal thread action ∧ s.Timely action) (start thread recursionCount generation) actions) :
    ∀ taken, taken <+: actions →
      ¬ Lost (taken.foldl (step thread) (start thread recursionCount generation)) := by
  intro taken within
  have inv := run.invariant Invariant.start
    (fun _ action inv ok => Invariant.step inv action ok.1 ok.2) taken within
  exact inv.served

/-- Thread 2 wakes thread 1 out of its wait. -/
def wokenInTime : List WakeAction :=
  [.sleep, .acquire 2, .sleep, .sleep, .sleep, .countUp 2, .notify 2, .release 2, .sleep,
    .sleep, .sleep]

theorem timely_wake_is_not_lost_in_time :
    Along (step 1) (fun s action => s.Legal 1 action ∧ s.Timely action) (start 1 1 0) wokenInTime ∧
      ∀ taken, taken <+: wokenInTime → ¬ Lost (taken.foldl (step 1) (start 1 1 0)) := by
  have run : Along (step 1) (fun s action => s.Legal 1 action ∧
      s.Timely action) (start 1 1 0) wokenInTime := by
    decide
  exact ⟨run, timely_wake_is_not_lost 1 1 0 wokenInTime run⟩

/-- Thread 2 wakes thread 1 between its release and its snapshot. -/
def wokenEarly : List WakeAction :=
  [.sleep, .acquire 2, .countUp 2, .notify 2, .release 2, .sleep, .sleep, .sleep]

theorem early_wake_is_lost :
    Along (step 1) (Legal 1) (start 1 1 0) wokenEarly ∧
      Lost (wokenEarly.foldl (step 1) (start 1 1 0)) := by
  decide

/-- How often the sleeper has the mutex. -/
def held (s : Sleep) (count : Nat) : Nat :=
  if s.sleeper = .calling ∨ s.sleeper = .returned then count else count - 1

structure Owned (thread count : Nat) (s : Sleep) : Prop where
  owner : s.mutex.ownerTid = thread ↔ 0 < s.held count
  counted : 0 < s.held count → s.mutex.recursionCount = s.held count
  alone : 1 < count → s.acquired = []

theorem Owned.step (own : Owned thread count s) (real : thread ≠ 0) (once : 0 < count)
    (small : count < 2 ^ 32) (legal : s.Legal thread action) :
    Owned thread count (s.step thread action) := by
  obtain ⟨owner, counted, alone⟩ := own
  cases action with
  | sleep | notify =>
    simp only [Sleep.step, sleepCs]
    cases phase : s.sleeper <;> constructor <;> grind [held, Phase.notify, MutexState.acquire, MutexState.release]
  | acquire | release =>
    constructor <;> grind [Sleep.step, Legal, held, MutexState.acquire, MutexState.release]
  | countUp => exact ⟨owner, counted, alone⟩

/-- However the wakes fall, `sleep_cs` returns with the mutex as it was; it releases it only once,
so nobody else gets a mutex that was taken twice. -/
theorem sleep_cs_restores_mutex (thread count : Nat) (generation : U64) (actions : List WakeAction)
    (real : thread ≠ 0) (once : 0 < count) (small : count < 2 ^ 32)
    (run : Along (step thread) (Legal thread) (start thread count generation) actions) :
    ∀ taken, taken <+: actions →
      let s := taken.foldl (step thread) (start thread count generation)
      (s.sleeper = .returned → s.mutex.ownerTid = thread ∧ s.mutex.recursionCount = count) ∧
        (1 < count → s.acquired = []) := by
  intro taken within s
  have first : Owned thread count (start thread count generation) := by
    constructor <;> simp [held, start, once]
  have own : Owned thread count s :=
    run.invariant first (fun _ _ own legal => own.step real once small legal) taken within
  refine ⟨fun back => ?_, own.alone⟩
  have all : s.held count = count := if_pos (.inr back)
  exact ⟨own.owner.mpr (by omega), (own.counted (by omega)).trans all⟩

theorem sleep_cs_restores_mutex_in_time :
    (wokenInTime.foldl (step 1) (start 1 1 0)).mutex.ownerTid = 1 :=
  ((sleep_cs_restores_mutex 1 1 0 wokenInTime (by decide) (by decide) (by decide) (by decide) _
    List.prefix_rfl).1 (by decide)).1

end Sleep

end Casa.Threads
