import Mathlib.Data.BitVec
import Mathlib.Logic.Function.Basic
import Casa.Lib.MachineInt

/-! The pump wake and the park signals of runtime/scheduler.rs: a counter behind a mutex with a
condition variable. A notifier counts up under the mutex and wakes the waiters after it has
unlocked; a waiter compares the counter with the one it has read and blocks without giving up the
mutex in between. Every call is an agent of its own. -/
namespace Casa.Runtime
open Function

inductive Stage where
  | observed
  | checking
  | blocking
  | blocked
  | woken

inductive WakeOutcome (ρ : Type) where
  | notified (reason : Option ρ)
  | timedOut

/-- Where a call is. A waiter keeps the epoch it has read and the number of notifications by then. -/
inductive CallPhase (ρ : Type) where
  | idle
  | waiter (stage : Stage) (observed : U64) (seen : Nat)
  | returned (epoch : U64) (outcome : WakeOutcome ρ)
  | advancing (reason : Option ρ)
  | advanced
  | notifying
  | notified

namespace CallPhase

def hasMutex : CallPhase ρ → Bool
  | .waiter .checking _ _ | .waiter .blocking _ _ | .advancing _ | .advanced => true
  | _ => false

/-- The epoch is advanced and the wake-up not yet issued. -/
def owesWake : CallPhase ρ → Bool
  | .advanced | .notifying => true
  | _ => false

def wake : CallPhase ρ → CallPhase ρ
  | .waiter .blocked observed seen => .waiter .woken observed seen
  | phase => phase

theorem wake_cases (phase : CallPhase ρ) :
    (∃ observed seen, phase = .waiter .blocked observed seen ∧
      phase.wake = .waiter .woken observed seen) ∨
      phase.wake = phase ∧ ∀ observed seen, phase ≠ .waiter .blocked observed seen := by
  unfold wake
  split
  case h_1 observed seen => exact .inl ⟨observed, seen, rfl, rfl⟩
  case h_2 other => exact .inr ⟨rfl, other⟩

end CallPhase

/-- What the next step of a call leaves open. Only a park signal is given a reason. -/
inductive Choice (ρ : Type) where
  | observe
  | notify (reason : Option ρ)
  | expire

structure WakeSignal (θ ρ : Type) where
  epoch : U64
  reason : Option ρ
  owner : Option θ
  phase : θ → CallPhase ρ
  /-- Notifications so far. -/
  advances : Nat

namespace WakeSignal
variable {θ ρ : Type}

def start : WakeSignal θ ρ := ⟨0, none, none, fun _ => .idle, 0⟩

structure Invariant (s : WakeSignal θ ρ) : Prop where
  exclusive : ∀ call, (s.phase call).hasMutex = true → s.owner = some call
  counted : s.epoch = BitVec.ofNat 64 s.advances
  seen : ∀ call stage observed seen, s.phase call = .waiter stage observed seen →
    observed = BitVec.ofNat 64 seen ∧ seen ≤ s.advances
  fresh : ∀ call observed seen, s.phase call = .waiter .blocking observed seen → observed = s.epoch
  served : ∀ call observed seen, s.phase call = .waiter .blocked observed seen →
    observed = s.epoch ∨ ∃ other, (s.phase other).owesWake = true

theorem Invariant.start : Invariant (start : WakeSignal θ ρ) := by
  constructor <;> simp [WakeSignal.start, CallPhase.hasMutex]

variable [DecidableEq θ]

def put (s : WakeSignal θ ρ) (call : θ) (phase : CallPhase ρ) : WakeSignal θ ρ :=
  { s with phase := update s.phase call phase }

/-- The next step of a call; it stays where it is while it needs the mutex and another has it. -/
def step (s : WakeSignal θ ρ) (call : θ) (choice : Choice ρ) : WakeSignal θ ρ :=
  match s.phase call, s.owner, choice with
  | .idle, none, .observe => s.put call (.waiter .observed s.epoch s.advances)
  | .idle, none, .notify reason => { s.put call (.advancing reason) with owner := some call }
  | .waiter .observed observed seen, none, _ | .waiter .woken observed seen, none, _ =>
    { s.put call (.waiter .checking observed seen) with owner := some call }
  | .waiter .checking observed seen, _, choice =>
    if s.epoch ≠ observed then { s.put call (.returned s.epoch (.notified s.reason)) with owner := none }
    else
      match choice with
      | .expire => { s.put call (.returned s.epoch .timedOut) with owner := none }
      | _ => s.put call (.waiter .blocking observed seen)
  | .waiter .blocking observed seen, _, _ =>
    { s.put call (.waiter .blocked observed seen) with owner := none }
  -- the condition variable lets a waiter go without a notification, too
  | .waiter .blocked observed seen, _, _ => s.put call (.waiter .woken observed seen)
  | .advancing reason, _, _ =>
    { s.put call .advanced with epoch := s.epoch + 1, reason := s.reason <|> reason, advances := s.advances + 1 }
  | .advanced, _, _ => { s.put call .notifying with owner := none }
  | .notifying, _, _ =>
    { s with phase := update (fun other => (s.phase other).wake) call .notified }
  | _, _, _ => s

def run (moves : List (θ × Choice ρ)) : WakeSignal θ ρ :=
  moves.foldl (fun s move => s.step move.1 move.2) start

theorem Invariant.step (inv : Invariant s) (call : θ) (choice : Choice ρ) :
    Invariant (s.step call choice) := by
  have ⟨exclusive, counted, seen, fresh, served⟩ := inv
  unfold WakeSignal.step
  repeat' split
  case h_8 =>
    -- the notifier has the mutex, so no waiter is about to block, and it owes those who are blocked
    refine ⟨?_, ?_, ?_, ?_, fun _ _ _ _ => .inr ⟨call, by simp [put, CallPhase.owesWake]⟩⟩
    all_goals
      simp only [put, update_apply]
      grind -ring -linarith [CallPhase.hasMutex, BitVec.ofNat_add]
  case h_10 =>
    -- nobody stays blocked
    constructor
    all_goals
      simp only [update_apply]
      grind -ring -linarith [CallPhase.hasMutex, CallPhase.wake_cases]
  case h_11 => exact inv
  all_goals
    constructor
    all_goals
      simp only [put, update_apply]
      grind -ring -linarith [CallPhase.hasMutex, CallPhase.owesWake]

/-- A blocked waiter has seen every notification, or a notifier is about to wake it; and a waiter
that has missed one when it compares the epochs returns. -/
theorem notification_not_missed (moves : List (θ × Choice ρ)) (few : (run moves).advances < 2 ^ 64) :
    (∀ call observed seen, (run moves).phase call = .waiter .blocked observed seen →
      observed = (run moves).epoch ∧ seen = (run moves).advances ∨
        ∃ other, ((run moves).phase other).owesWake = true) ∧
    ∀ call observed seen, (run moves).phase call = .waiter .checking observed seen →
      seen < (run moves).advances → ∀ choice, ((run moves).step call choice).phase call =
        .returned (run moves).epoch (.notified (run moves).reason) := by
  have inv : Invariant (run moves) :=
    List.foldlRecOn moves _ .start fun _ inv move _ => inv.step move.1 move.2
  have current {call stage observed seen} (here : (run moves).phase call = .waiter stage observed seen) :
      observed = (run moves).epoch ↔ seen = (run moves).advances := by
    obtain ⟨rfl, bound⟩ := inv.seen call stage observed seen here
    rw [inv.counted, ← BitVec.toNat_inj, BitVec.toNat_ofNat, BitVec.toNat_ofNat,
      Nat.mod_eq_of_lt (by omega), Nat.mod_eq_of_lt few]
  constructor
  · intro call observed seen here
    exact (inv.served call observed seen here).imp_left fun same => ⟨same, (current here).mp same⟩
  · intro call observed seen here missed choice
    have newer : (run moves).epoch ≠ observed := fun same => missed.ne ((current here).mp same.symm)
    unfold WakeSignal.step
    simp [here, newer, put]

/-- The pump reads the epoch, a notifier counts up, and the pump goes to wait. -/
theorem notification_not_missed_between :
    let moves : List (Bool × Choice Empty) :=
      [(true, .observe), (false, .notify none), (false, .observe), (false, .observe), (true, .observe)]
    ((run moves).step true .observe).phase true = .returned 1 (.notified none) :=
  (notification_not_missed _ (by decide)).2 true 0 0 rfl (by decide) .observe

/-- A wait that returns as notified has missed a notification, and one that times out none. -/
theorem wait_outcome_exact (moves : List (θ × Choice ρ)) (few : (run moves).advances < 2 ^ 64)
    (call : θ) (choice : Choice ρ) (waits : (run moves).phase call = .waiter stage observed seen)
    (returns : ((run moves).step call choice).phase call = .returned now outcome) :
    outcome = .timedOut ∧ seen = (run moves).advances ∨
      outcome = .notified (run moves).reason ∧ seen < (run moves).advances := by
  have inv : Invariant (run moves) :=
    List.foldlRecOn moves _ .start fun _ inv move _ => inv.step move.1 move.2
  obtain ⟨rfl, bound⟩ := inv.seen call stage observed seen waits
  have current : (run moves).epoch = BitVec.ofNat 64 seen ↔ (run moves).advances = seen := by
    rw [inv.counted, ← BitVec.toNat_inj, BitVec.toNat_ofNat, BitVec.toNat_ofNat,
      Nat.mod_eq_of_lt few, Nat.mod_eq_of_lt (by omega)]
  unfold WakeSignal.step at returns
  rw [waits] at returns
  split at returns
  case h_5 same =>
    obtain ⟨-, rfl, rfl⟩ := CallPhase.waiter.inj same
    repeat' split at returns
    all_goals simp_all [put]
    omega
  all_goals simp_all [put]

/-- The notification that the pump has missed is the outcome of its wait. -/
theorem wait_outcome_exact_between :
    let moves : List (Bool × Choice Empty) :=
      [(true, .observe), (false, .notify none), (false, .observe), (false, .observe), (true, .observe)]
    ((run moves).step true .observe).phase true = .returned 1 (.notified none) ∧
      0 < (run moves).advances :=
  ⟨rfl, ((wait_outcome_exact _ (by decide) true .observe rfl rfl).resolve_left (by simp)).2⟩

end WakeSignal

end Casa.Runtime
