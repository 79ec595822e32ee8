import Casa.Lib.Along
import Mathlib.Data.BitVec

/-! The slim reader-writer lock of threads.rs under any number of threads. Every operation is
one critical section of the state mutex; a wait on one of the two condition variables ends one
section and starts another, after a notification or for no reason at all. -/
namespace Casa.Threads
open Effect List

structure SrwLockState where
  /-- 0 unlocked, positive the number of readers, -1 exclusive; an `i32`. -/
  readers : Int
  writersWaiting : Nat

/-! ## Critical sections

Each answers the new state and whether the lock was granted, or for the releases whether
the waiters are notified. -/

namespace SrwLockState

def new : SrwLockState := ⟨0, 0⟩

def acquireExclusive (s : SrwLockState) : SrwLockState × Bool :=
  if s.readers = 0 then ({ s with readers := -1 }, true)
  else ({ s with writersWaiting := min (s.writersWaiting + 1) (2 ^ 32 - 1) }, false)

/-- A writer back from its wait takes itself out of the count, and counts again to wait on. -/
def resumeExclusive (s : SrwLockState) : SrwLockState × Bool :=
  acquireExclusive { s with writersWaiting := s.writersWaiting - 1 }

/-- Also the check of a reader back from its wait. -/
def acquireShared (s : SrwLockState) : SrwLockState × Bool :=
  if s.readers < 0 ∨ 0 < s.writersWaiting then (s, false)
  else ({ s with readers := Int.bmod (s.readers + 1) (2 ^ 32) }, true)

def releaseExclusive (s : SrwLockState) : SrwLockState × Bool :=
  if s.readers ≠ -1 then (s, false) else ({ s with readers := 0 }, true)

def releaseShared (s : SrwLockState) : SrwLockState × Bool :=
  if s.readers ≤ 0 then (s, false) else ({ s with readers := s.readers - 1 }, s.readers - 1 == 0)

def tryAcquireExclusive (s : SrwLockState) : SrwLockState × Bool :=
  if s.readers = 0 then ({ s with readers := -1 }, true) else (s, false)

def tryAcquireShared (s : SrwLockState) : SrwLockState × Bool :=
  if 0 ≤ s.readers ∧ s.writersWaiting = 0 then
    ({ s with readers := Int.bmod (s.readers + 1) (2 ^ 32) }, true)
  else (s, false)

end SrwLockState

/-! ## Threads -/

inductive Mode where
  | exclusive
  | shared
  deriving DecidableEq

/-- A thread in the wait set of a condition variable. -/
structure Waiter (T : Type) where
  thread : T
  notified : Bool

/-- The lock, its wait sets, and who was granted it and has not released it since. -/
structure System (T : Type) where
  state : SrwLockState
  holders : List (T × Mode)
  exclusiveWaiters : List (Waiter T)
  sharedWaiters : List (Waiter T)

/-- A release names the thread that `notify_one` picks. -/
inductive Action (T : Type) where
  | acquireExclusive (thread : T)
  | acquireShared (thread : T)
  | tryAcquireExclusive (thread : T)
  | tryAcquireShared (thread : T)
  | resumeExclusive (thread : T)
  | resumeShared (thread : T)
  | releaseExclusive (thread picked : T)
  | releaseShared (thread picked : T)

namespace System
variable {T : Type}

def new : System T := ⟨.new, [], [], []⟩

def granted (s : System T) (t : T) (mode : Mode) (state : SrwLockState) : System T :=
  { s with state, holders := (t, mode) :: s.holders }

def enterExclusive (s : System T) (t : T) (section_ : SrwLockState × Bool) : System T :=
  if section_.2 then s.granted t .exclusive section_.1
  else { s with state := section_.1, exclusiveWaiters := s.exclusiveWaiters ++ [⟨t, false⟩] }

def enterShared (s : System T) (t : T) (section_ : SrwLockState × Bool) : System T :=
  if section_.2 then s.granted t .shared section_.1
  else { s with state := section_.1, sharedWaiters := s.sharedWaiters ++ [⟨t, false⟩] }

def tryEnter (s : System T) (t : T) (mode : Mode) (section_ : SrwLockState × Bool) : System T :=
  if section_.2 then s.granted t mode section_.1 else { s with state := section_.1 }

section Operations
variable [DecidableEq T]

def notify (s : System T) (picked : T) : System T :=
  { s with
    exclusiveWaiters :=
      s.exclusiveWaiters.map fun w => if w.thread = picked then ⟨w.thread, true⟩ else w
    sharedWaiters := s.sharedWaiters.map fun w => ⟨w.thread, true⟩ }

def release (s : System T) (t : T) (mode : Mode) (picked : T) (section_ : SrwLockState × Bool) :
    System T :=
  let s := { s with state := section_.1, holders := s.holders.erase (t, mode) }
  if section_.2 then s.notify picked else s

def leaveExclusive (s : System T) (t : T) : System T :=
  { s with exclusiveWaiters := s.exclusiveWaiters.eraseP (·.thread = t) }

def leaveShared (s : System T) (t : T) : System T :=
  { s with sharedWaiters := s.sharedWaiters.eraseP (·.thread = t) }

def step (s : System T) : Action T → System T
  | .acquireExclusive t => s.enterExclusive t s.state.acquireExclusive
  | .acquireShared t => s.enterShared t s.state.acquireShared
  | .tryAcquireExclusive t => s.tryEnter t .exclusive s.state.tryAcquireExclusive
  | .tryAcquireShared t => s.tryEnter t .shared s.state.tryAcquireShared
  | .resumeExclusive t => (s.leaveExclusive t).enterExclusive t s.state.resumeExclusive
  | .resumeShared t => (s.leaveShared t).enterShared t s.state.acquireShared
  | .releaseExclusive t picked => s.release t .exclusive picked s.state.releaseExclusive
  | .releaseShared t picked => s.release t .shared picked s.state.releaseShared

end Operations

def Running (s : System T) (t : T) : Prop :=
  (∀ w ∈ s.exclusiveWaiters, w.thread ≠ t) ∧ ∀ w ∈ s.sharedWaiters, w.thread ≠ t

/-- `notify_one` picks a waiter that has no notification yet, if there is one. -/
def Picks (s : System T) (picked : T) : Prop :=
  (∃ w ∈ s.exclusiveWaiters, w.thread = picked ∧ w.notified = false) ∨
    ∀ w ∈ s.exclusiveWaiters, w.notified = true

/-- What a thread may do: it acts while it is not blocked, releases what it holds, and
comes back from a wait it is in. -/
def Legal (s : System T) : Action T → Prop
  | .acquireExclusive t | .acquireShared t | .tryAcquireExclusive t | .tryAcquireShared t =>
    s.Running t
  | .resumeExclusive t => ∃ w ∈ s.exclusiveWaiters, w.thread = t
  | .resumeShared t => ∃ w ∈ s.sharedWaiters, w.thread = t
  | .releaseExclusive t picked => s.Running t ∧ (t, .exclusive) ∈ s.holders ∧ s.Picks picked
  | .releaseShared t picked => s.Running t ∧ (t, .shared) ∈ s.holders ∧ s.Picks picked

/-- A shared acquisition that is granted finds room for one more reader in the count. -/
def Room (s : System T) : Action T → Prop
  | .acquireShared _ | .tryAcquireShared _ | .resumeShared _ =>
    0 ≤ s.state.readers → s.state.writersWaiting = 0 → s.holders.length < 2 ^ 31 - 1
  | _ => True

instance [DecidableEq T] (s : System T) : DecidablePred s.Legal
  | .acquireExclusive _ | .acquireShared _ | .tryAcquireExclusive _ | .tryAcquireShared _ =>
    inferInstanceAs (Decidable (_ ∧ _))
  | .resumeExclusive _ | .resumeShared _ => inferInstanceAs (Decidable (∃ w ∈ _, _))
  | .releaseExclusive _ _ | .releaseShared _ _ =>
    inferInstanceAs (Decidable ((_ ∧ _) ∧ _ ∧ (_ ∨ _)))

instance (s : System T) : DecidablePred s.Room
  | .acquireShared _ | .tryAcquireShared _ | .resumeShared _ =>
    inferInstanceAs (Decidable (_ → _ → _))
  | .acquireExclusive _ | .tryAcquireExclusive _ | .resumeExclusive _ | .releaseExclusive _ _ | .releaseShared _ _ =>
    .isTrue trivial

def Exclusive (s : System T) : Prop := ∀ held ∈ s.holders, held.2 = .exclusive → s.holders = [held]

/-- With the lock free and no notification pending, no thread is blocked. -/
def Unblocked (s : System T) : Prop :=
  s.holders = [] → (∀ w ∈ s.exclusiveWaiters ++ s.sharedWaiters, w.notified = false) →
    s.exclusiveWaiters ++ s.sharedWaiters = []

/-! ## The invariant -/

/-- Who holds the lock when its word is `readers`. -/
def Held (readers : Int) (holders : List (T × Mode)) : Prop :=
  (readers = -1 ∧ ∃ t, holders = [(t, .exclusive)]) ∨
    (readers = holders.length ∧ holders.length < 2 ^ 31 ∧ ∀ held ∈ holders, held.2 = .shared)

/-- The lock word tells the holders, and a free lock with a thread to serve has a writer on
its way. -/
structure Invariant (s : System T) : Prop where
  word : Held s.state.readers s.holders
  counted : s.state.writersWaiting ≤ s.exclusiveWaiters.length
  served : s.state.readers = 0 →
    (s.exclusiveWaiters ≠ [] ∨ ∃ w ∈ s.sharedWaiters, w.notified = false) →
    ∃ w ∈ s.exclusiveWaiters, w.notified = true

namespace Invariant
variable {s : System T} {t picked : T} {next : SrwLockState}

theorem new : Invariant (new : System T) := by
  refine ⟨.inr ⟨rfl, ?_, ?_⟩, le_rfl, ?_⟩ <;> simp [System.new]

section
variable (inv : Invariant s)
include inv

theorem exclusive : s.Exclusive := by
  intro held member mode
  rcases inv.word with ⟨-, t, only⟩ | ⟨-, -, shared⟩
  · rw [only, mem_singleton] at member
    rw [only, member]
  · rw [shared held member] at mode
    cases mode

theorem unblocked : s.Unblocked := by
  intro free quiet
  have zero : s.state.readers = 0 := by
    rcases inv.word with ⟨-, t, only⟩ | ⟨count, -, -⟩
    · rw [only] at free
      cases free
    · rw [count, free]
      rfl
  by_contra blocked
  -- whoever is blocked, a writer has been notified
  have waits : s.exclusiveWaiters ≠ [] ∨ ∃ w ∈ s.sharedWaiters, w.notified = false := by
    obtain ⟨w, member⟩ := exists_mem_of_ne_nil _ blocked
    rcases mem_append.mp member with writer | reader
    · exact .inl (ne_nil_of_mem writer)
    · exact .inr ⟨w, reader, quiet w member⟩
  obtain ⟨w, member, notified⟩ := inv.served zero waits
  rw [quiet w (mem_append_left _ member)] at notified
  cases notified

/-- A free lock goes to one writer. -/
theorem granted_exclusive (zero : s.state.readers = 0) (word : next.readers = -1)
    (counted : next.writersWaiting ≤ s.exclusiveWaiters.length) :
    Invariant (s.granted t .exclusive next) := by
  have free : s.holders = [] := by
    rcases inv.word with ⟨word, -⟩ | ⟨count, -, -⟩
    · omega
    · exact length_eq_zero_iff.mp (by omega)
  refine ⟨.inl ⟨word, t, ?_⟩, counted, fun open_ => ?_⟩
  · rw [granted, free]
  · change next.readers = 0 at open_
    omega

/-- One more reader, on a lock that is not held exclusively. -/
theorem granted_shared (open_ : 0 ≤ s.state.readers) (room : s.holders.length < 2 ^ 31 - 1) :
    Invariant (s.granted t .shared { s.state with readers := Int.bmod (s.state.readers + 1) (2 ^ 32) }) := by
  obtain ⟨count, -, shared⟩ := inv.word.resolve_left fun ⟨word, _⟩ => by omega
  have more : Int.bmod (s.state.readers + 1) (2 ^ 32) = s.holders.length + 1 := by
    rw [count]
    exact Int.bmod_eq_of_le (by omega) (by omega)
  refine ⟨.inr ⟨?_, ?_, forall_mem_cons.mpr ⟨rfl, shared⟩⟩, inv.counted, fun zero => ?_⟩
  · exact more
  · change s.holders.length + 1 < 2 ^ 31
    omega
  · change Int.bmod (s.state.readers + 1) (2 ^ 32) = 0 at zero
    omega

/-- A writer waits while the lock is held. -/
theorem wait_exclusive (held : s.state.readers ≠ 0) :
    Invariant (s.enterExclusive t s.state.acquireExclusive) := by
  rw [SrwLockState.acquireExclusive, if_neg held]
  refine ⟨inv.word, ?_, fun zero => (held zero).elim⟩
  have counted := inv.counted
  change min (s.state.writersWaiting + 1) _ ≤ (s.exclusiveWaiters ++ [_]).length
  rw [length_append, length_singleton]
  omega

theorem acquireExclusive : Invariant (s.enterExclusive t s.state.acquireExclusive) := by
  by_cases zero : s.state.readers = 0
  · rw [SrwLockState.acquireExclusive, if_pos zero]
    exact inv.granted_exclusive zero rfl inv.counted
  · exact inv.wait_exclusive zero

/-- A reader waits for the exclusive holder, or for a writer that is counted as waiting. -/
theorem acquireShared (room : s.Room (.acquireShared t)) :
    Invariant (s.enterShared t s.state.acquireShared) := by
  rw [SrwLockState.acquireShared]
  split
  case isTrue blocked =>
    refine ⟨inv.word, inv.counted, fun zero _ => inv.served zero (.inl ?_)⟩
    change s.state.readers = 0 at zero
    have counted := inv.counted
    exact ne_nil_of_length_pos (by omega)
  case isFalse open_ =>
    have readers : 0 ≤ s.state.readers := Int.not_lt.mp fun held => open_ (.inl held)
    exact inv.granted_shared readers (room readers (Nat.eq_zero_of_not_pos fun waits => open_ (.inr waits)))

theorem tryAcquireExclusive : Invariant (s.tryEnter t .exclusive s.state.tryAcquireExclusive) := by
  rw [SrwLockState.tryAcquireExclusive]
  split
  case isTrue zero => exact inv.granted_exclusive zero rfl inv.counted
  case isFalse => exact inv

theorem tryAcquireShared (room : s.Room (.tryAcquireShared t)) :
    Invariant (s.tryEnter t .shared s.state.tryAcquireShared) := by
  rw [SrwLockState.tryAcquireShared]
  split
  case isTrue open_ => exact inv.granted_shared open_.1 (room open_.1 open_.2)
  case isFalse => exact inv

end

variable [DecidableEq T]

theorem leaveShared (inv : Invariant s) : Invariant (s.leaveShared t) := by
  refine ⟨inv.word, inv.counted, fun zero waits => inv.served zero (waits.imp_right ?_)⟩
  rintro ⟨w, member, quiet⟩
  exact ⟨w, mem_of_mem_eraseP member, quiet⟩

/-- A writer comes back from its wait: it takes a free lock, or waits on. -/
theorem resumeExclusive (inv : Invariant s) (waits : ∃ w ∈ s.exclusiveWaiters, w.thread = t) :
    Invariant ((s.leaveExclusive t).enterExclusive t s.state.resumeExclusive) := by
  obtain ⟨w, member, thread⟩ := waits
  have left : (s.exclusiveWaiters.eraseP (·.thread = t)).length = s.exclusiveWaiters.length - 1 :=
    length_eraseP_of_mem member (decide_eq_true thread)
  have counted :
      s.state.writersWaiting - 1 ≤ (s.exclusiveWaiters.eraseP (·.thread = t)).length := by
    have counted := inv.counted
    omega
  by_cases zero : s.state.readers = 0
  · rw [SrwLockState.resumeExclusive, SrwLockState.acquireExclusive, if_pos zero]
    have taken : Invariant (s.granted t .exclusive { s.state with readers := -1 }) :=
      inv.granted_exclusive zero rfl inv.counted
    exact ⟨taken.word, counted, nofun⟩
  · let away : System T :=
      { s.leaveExclusive t with state := { s.state with writersWaiting := s.state.writersWaiting - 1 } }
    have inv : Invariant away := ⟨inv.word, counted, fun free => (zero free).elim⟩
    exact inv.wait_exclusive zero

/-- Of a lock that was set free every reader is notified and, if a writer waits, a writer. -/
theorem notify (word : Held s.state.readers s.holders)
    (counted : s.state.writersWaiting ≤ s.exclusiveWaiters.length) (picks : s.Picks picked) :
    Invariant (s.notify picked) := by
  refine ⟨word, counted.trans_eq (length_map _).symm, fun _ waits => ?_⟩
  have writer : s.exclusiveWaiters ≠ [] := by
    rcases waits with some | ⟨w, member, quiet⟩
    · exact fun none => some (by rw [System.notify, none, map_nil])
    · obtain ⟨old, -, rfl⟩ := mem_map.mp member
      cases quiet
  have chosen : ∃ w ∈ s.exclusiveWaiters, w.thread = picked ∨ w.notified := by
    rcases picks with ⟨w, member, thread, -⟩ | all
    · exact ⟨w, member, .inl thread⟩
    · obtain ⟨w, member⟩ := exists_mem_of_ne_nil _ writer
      exact ⟨w, member, .inr (all w member)⟩
  obtain ⟨w, member, chosen⟩ := chosen
  refine ⟨_, mem_map_of_mem member, ?_⟩
  split
  case isTrue => rfl
  case isFalse other => exact chosen.resolve_left other

theorem releaseExclusive (inv : Invariant s) (holds : (t, .exclusive) ∈ s.holders)
    (picks : s.Picks picked) :
    Invariant (s.release t .exclusive picked s.state.releaseExclusive) := by
  have word : s.state.readers = -1 := by
    rcases inv.word with ⟨word, -⟩ | ⟨-, -, shared⟩
    · exact word
    · cases shared _ holds
  have none : s.holders.erase (t, .exclusive) = [] := by
    rw [inv.exclusive _ holds rfl, erase_cons_head]
  rw [SrwLockState.releaseExclusive, if_neg (not_not.mpr word)]
  refine notify (.inr ?_) inv.counted picks
  rw [none]
  exact ⟨rfl, Nat.two_pow_pos 31, forall_mem_nil _⟩

/-- The last reader notifies; before that the lock stays held. -/
theorem releaseShared (inv : Invariant s) (holds : (t, .shared) ∈ s.holders)
    (picks : s.Picks picked) : Invariant (s.release t .shared picked s.state.releaseShared) := by
  obtain ⟨count, small, shared⟩ := inv.word.resolve_left fun ⟨_, other, only⟩ => by
    rw [only, mem_singleton] at holds
    cases holds
  have fewer := length_erase_of_mem holds
  have some := length_pos_of_mem holds
  have word : Held (s.state.readers - 1) (s.holders.erase (t, .shared)) :=
    .inr ⟨by omega, by omega, fun held member => shared held (mem_of_mem_erase member)⟩
  rw [SrwLockState.releaseShared, if_neg (by omega), release]
  split
  case isTrue => exact notify word inv.counted picks
  case isFalse last =>
    refine ⟨word, inv.counted, fun zero => ?_⟩
    exact (last (beq_iff_eq.mpr zero)).elim

theorem step (inv : Invariant s) (action : Action T) (legal : s.Legal action) (room : s.Room action) :
    Invariant (s.step action) := by
  cases action with
  | acquireExclusive t => exact inv.acquireExclusive
  | acquireShared t => exact inv.acquireShared room
  | tryAcquireExclusive t => exact inv.tryAcquireExclusive
  | tryAcquireShared t => exact inv.tryAcquireShared room
  | resumeExclusive t => exact inv.resumeExclusive legal
  | resumeShared t => exact inv.leaveShared.acquireShared room
  | releaseExclusive => exact inv.releaseExclusive legal.2.1 legal.2.2
  | releaseShared => exact inv.releaseShared legal.2.1 legal.2.2

end Invariant

/-! ## Runs -/

/-- Along every run that keeps the readers within their counter, an exclusive holder is
alone and no thread is left blocked on a free lock. -/
theorem srw_lock_excludes_and_serves {T : Type} [DecidableEq T] (actions : List (Action T))
    (run : Along step (fun s action => s.Legal action ∧ s.Room action) (new : System T) actions) :
    ∀ taken, taken <+: actions → Exclusive (taken.foldl step (new : System T)) ∧
      Unblocked (taken.foldl step (new : System T)) := by
  intro taken within
  have inv :=
    run.invariant .new (fun _ action inv ok => Invariant.step inv action ok.1 ok.2) taken within
  exact ⟨inv.exclusive, inv.unblocked⟩

/-- A reader, a writer and a second reader behind the writer; the writer takes over, then the reader. -/
def handover : List (Action Nat) :=
  [.acquireShared 0, .acquireExclusive 1, .acquireShared 2, .releaseShared 0 1, .resumeShared 2,
    .resumeExclusive 1, .releaseExclusive 1 1, .resumeShared 2, .releaseShared 2 1]

theorem srw_lock_excludes_and_serves_handover :
    Along step (fun s action => s.Legal action ∧ s.Room action) (new : System Nat) handover ∧
      ∀ taken, taken <+: handover → Exclusive (taken.foldl step (new : System Nat)) ∧
        Unblocked (taken.foldl step (new : System Nat)) := by
  have run :
      Along step (fun s action => s.Legal action ∧ s.Room action) (new : System Nat) handover := by
    decide +kernel
  exact ⟨run, srw_lock_excludes_and_serves handover run⟩

/-! ## The reader count overflows

The reader that follows `2 ^ 31 - 1` others wraps the count to `- 2 ^ 31`, and then no
release changes it any more. -/

/-- Thread 0 holds the lock `count` times; nobody waits. -/
def crowded (readers : Int) (count : Nat) : System Nat :=
  ⟨⟨readers, 0⟩, List.replicate count (0, .shared), [], []⟩

theorem crowded_acquire (open_ : 0 ≤ readers) (count : Nat) :
    (crowded readers count).step (.acquireShared 0) =
      crowded (Int.bmod (readers + 1) (2 ^ 32)) (count + 1) := by
  have passes :
      SrwLockState.acquireShared ⟨readers, 0⟩ = (⟨Int.bmod (readers + 1) (2 ^ 32), 0⟩, true) :=
    if_neg (not_or.mpr ⟨Int.not_lt.mpr open_, Nat.lt_irrefl 0⟩)
  change enterShared _ 0 (SrwLockState.acquireShared ⟨readers, 0⟩) = _
  rw [passes]
  rfl

theorem crowded_release (stuck : readers ≤ 0) (count : Nat) :
    (crowded readers (count + 1)).step (.releaseShared 0 0) = crowded readers count := by
  have ignored : SrwLockState.releaseShared ⟨readers, 0⟩ = (⟨readers, 0⟩, false) := if_pos stuck
  change release _ 0 .shared 0 (SrwLockState.releaseShared ⟨readers, 0⟩) = _
  rw [ignored]
  rfl

theorem crowded_running (count : Nat) : (crowded readers count).Running t := by
  simp [Running, crowded]

theorem crowd_arrives (more count : Nat) (small : count + more ≤ 2 ^ 31 - 1) :
    Along step Legal (crowded count count) (replicate more (.acquireShared 0)) ∧
      (replicate more (.acquireShared 0)).foldl step (crowded count count) =
        crowded (count + more : Nat) (count + more) := by
  induction more generalizing count with
  | zero => exact ⟨trivial, rfl⟩
  | succ more ih =>
    have one : (crowded count count).step (.acquireShared 0) = crowded (count + 1 : Nat) (count + 1) := by
      rw [crowded_acquire (Int.natCast_nonneg count), Int.bmod_eq_of_le (by omega) (by omega)]
      rfl
    obtain ⟨legal, ends⟩ := ih (count + 1) (by omega)
    rw [replicate_succ, foldl_cons, one, ends, Nat.add_right_comm]
    exact ⟨⟨crowded_running _, one ▸ legal⟩, rfl⟩

theorem crowd_leaves (stuck : readers ≤ 0) (count : Nat) :
    Along step Legal (crowded readers count) (replicate count (.releaseShared 0 0)) ∧
      (replicate count (.releaseShared 0 0)).foldl step (crowded readers count) = crowded readers 0 := by
  induction count with
  | zero => exact ⟨trivial, rfl⟩
  | succ count ih =>
    rw [replicate_succ, foldl_cons, crowded_release stuck]
    refine ⟨⟨⟨crowded_running _, mem_cons_self, .inr (forall_mem_nil _)⟩, ?_⟩, ih.2⟩
    rw [crowded_release stuck]
    exact ih.1

/-- Thread 0 fills the count, takes the lock once more and releases it as often; then the
lock is free and thread 1 is blocked on it. -/
theorem srw_lock_left_blocked :
    ∃ actions : List (Action Nat), Along step Legal new actions ∧
      ¬ Unblocked (actions.foldl step new) := by
  obtain ⟨filled, full⟩ := crowd_arrives (2 ^ 31 - 1) 0 (by omega)
  obtain ⟨left, empty⟩ := crowd_leaves (by decide : (-2 ^ 31 : Int) ≤ 0) (2 ^ 31)
  have wraps :
      (crowded ((0 + (2 ^ 31 - 1) : Nat) : Int) (0 + (2 ^ 31 - 1))).step (.acquireShared 0) =
      crowded (-2 ^ 31) (2 ^ 31) := crowded_acquire (Int.natCast_nonneg _) _
  refine ⟨List.replicate (2 ^ 31 - 1) (.acquireShared 0) ++
    (.acquireShared 0 :: (List.replicate (2 ^ 31) (.releaseShared 0 0) ++ [.acquireShared 1])), ?_, ?_⟩
  · refine filled.append ?_
    rw [full]
    refine ⟨crowded_running _, ?_⟩
    refine left.append ?_
    rw [empty]
    exact ⟨crowded_running _, trivial⟩
  · have start : (new : System Nat) = crowded (0 : Nat) 0 := rfl
    rw [start, List.foldl_append, full, List.foldl_cons, wraps, List.foldl_append, empty]
    intro unblocked
    cases unblocked rfl (by decide)

end System

end Casa.Threads
