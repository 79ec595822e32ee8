import Casa.Lib.Along
import Mathlib.Data.BitVec
import Casa.Lib.MachineInt

/-! The positions of the ring buffer of audio_ring_buffer.rs while one producer writes and one
consumer reads. Every load and store of a shared counter or flag is a step of its own; the samples
and the metrics play no part in the positions. -/
namespace Casa.Audio
open Effect
open BitVec (ofNat ofNat_add toNat_ofNat)

structure Geometry where
  capacity : Nat
  channels : Nat
  preBufferFrames : Nat

def writeCount (capacity len : Nat) : Nat := min len capacity

/-- How many samples a write overwrites that are still unread. -/
def overflow (capacity len : Nat) (tail head : U64) : Nat :=
  writeCount capacity len - (capacity - min (tail - head).toNat capacity)

def readCount (len : Nat) (tail head skip : U64) : Nat := min len ((tail - head).toNat - skip.toNat)

def fillSamples (capacity : Nat) (head tail dropped : U64) : Nat :=
  min ((tail - head).toNat - dropped.toNat) capacity

/-- Where `write` is, with what it has loaded; `stored` is before the drops are recorded, and the
phases after it are the check whether pre-buffering is complete. -/
inductive Producer where
  | idle
  | started (len : Nat)
  | tailLoaded (len : Nat) (tail : U64)
  | headLoaded (len : Nat) (tail head : U64)
  | stored (overflow : Nat)
  | recorded
  | filling
  | fillingHead (head : U64)
  | fillingTail (head tail : U64)
  | filled
  deriving DecidableEq

/-- Where `read` is, with what it has loaded. -/
inductive Consumer where
  | idle
  | started (len : Nat)
  | admitted (len : Nat)
  | headLoaded (len : Nat) (head : U64)
  | tailLoaded (len : Nat) (head tail : U64)
  | swapped (len : Nat) (head tail skip : U64)
  deriving DecidableEq

structure Positions where
  head : U64
  tail : U64
  dropped : U64
  preBufferingComplete : Bool
  producer : Producer
  consumer : Consumer
  /-- The positions without their wrap-around. -/
  written : Nat
  consumed : Nat
  /-- Some read has returned more samples than were written and not yet consumed. -/
  overread : Bool

inductive PositionAction where
  | write (len : Nat)
  | produce
  | read (len : Nat)
  | consume

namespace Positions

def new (g : Geometry) : Positions := ⟨0, 0, 0, g.preBufferFrames == 0, .idle, .idle, 0, 0, false⟩

def produce (g : Geometry) (s : Positions) : Positions :=
  match s.producer with
  | .idle => s
  | .started len => { s with producer := .tailLoaded len s.tail }
  | .tailLoaded len tail => { s with producer := .headLoaded len tail s.head }
  | .headLoaded len tail head =>
    { s with
      tail := tail + ofNat 64 (writeCount g.capacity len)
      written := s.written + writeCount g.capacity len
      producer := .stored (overflow g.capacity len tail head) }
  | .stored overflow => { s with dropped := s.dropped + ofNat 64 overflow, producer := .recorded }
  | .recorded => { s with producer := if s.preBufferingComplete then .idle else .filling }
  | .filling => { s with producer := .fillingHead s.head }
  | .fillingHead head => { s with producer := .fillingTail head s.tail }
  | .fillingTail head tail =>
    { s with
      producer := if fillSamples g.capacity head tail s.dropped / g.channels ≥ g.preBufferFrames then .filled else .idle }
  | .filled => { s with preBufferingComplete := true, producer := .idle }

def consume (s : Positions) : Positions :=
  match s.consumer with
  | .idle => s
  | .started len => { s with consumer := if s.preBufferingComplete then .admitted len else .idle }
  | .admitted len => { s with consumer := .headLoaded len s.head }
  | .headLoaded len head => { s with consumer := .tailLoaded len head s.tail }
  | .tailLoaded len head tail =>
    { s with dropped := 0, consumer := .swapped len head tail s.dropped }
  | .swapped len head tail skip =>
    { s with
      head := head + (skip + ofNat 64 (readCount len tail head skip))
      consumed := s.consumed + (skip.toNat + readCount len tail head skip)
      overread := s.overread || decide (s.written - s.consumed < readCount len tail head skip)
      consumer := .idle }

def step (g : Geometry) (s : Positions) : PositionAction → Positions
  | .write len => if s.producer = .idle ∧ len ≠ 0 then { s with producer := .started len } else s
  | .produce => s.produce g
  | .read len => if s.consumer = .idle then { s with consumer := .started len } else s
  | .consume => s.consume

/-- The write position is stored only while fewer than `2 ^ 64` positions are unread, and it is
not loaded between its store and the record of a drop. -/
def Timely (g : Geometry) (s : Positions) : PositionAction → Prop
  | .produce => ∀ len tail head, s.producer = .headLoaded len tail head →
      s.written + writeCount g.capacity len < s.consumed + 2 ^ 64
  | .consume => ∀ len head, s.consumer = .headLoaded len head → ∀ overflow, s.producer = .stored overflow → overflow = 0
  | _ => True

/-- The read position has not passed the write position, and no read has returned too much. -/
def Ordered (s : Positions) : Prop := s.consumed ≤ s.written ∧ s.overread = false

instance (s : Positions) : Decidable s.Ordered := inferInstanceAs (Decidable (_ ∧ _))

end Positions

def Producer.pending : Producer → Nat
  | .stored overflow => overflow
  | _ => 0

def Producer.Sound (tail : U64) : Producer → Prop
  | .tailLoaded _ loaded | .headLoaded _ loaded _ => loaded = tail
  | _ => True

/-- The drops that are recorded or about to be fit between the read and the write position. Those
that a read under way has not seen were written behind the write position it has loaded. -/
def Consumer.Sound (s : Positions) : Consumer → Prop
  | .idle | .started _ | .admitted _ =>
    s.consumed + s.dropped.toNat + s.producer.pending ≤ s.written
  | .headLoaded _ head =>
    head = s.head ∧ s.consumed + s.dropped.toNat + s.producer.pending ≤ s.written
  | .tailLoaded _ head tail =>
    head = s.head ∧ ∃ seen known, tail = ofNat 64 seen ∧ known ≤ s.dropped.toNat ∧
      s.consumed + known ≤ seen ∧ seen + (s.dropped.toNat - known + s.producer.pending) ≤ s.written
  | .swapped _ head tail skip =>
    head = s.head ∧ ∃ seen known, tail = ofNat 64 seen ∧ known ≤ skip.toNat ∧
      s.consumed + known ≤ seen ∧ seen + (skip.toNat - known + s.dropped.toNat + s.producer.pending) ≤ s.written

namespace Consumer.Sound
variable {consumer : Consumer}

/-- In every phase the drops lie between the two positions. -/
theorem total (sound : consumer.Sound s) :
    s.consumed + s.dropped.toNat + s.producer.pending ≤ s.written := by
  cases consumer with
  | idle | started | admitted => exact sound
  | headLoaded => exact sound.2
  | tailLoaded | swapped =>
    obtain ⟨-, seen, known, -, below, after, before⟩ := sound
    omega

/-- What is dropped in a step of the producer is covered by what it writes. -/
theorem mono (sound : consumer.Sound s) (head : t.head = s.head)
    (consumed : t.consumed = s.consumed) (recorded : s.dropped.toNat ≤ t.dropped.toNat)
    (covered : s.written + (t.dropped.toNat + t.producer.pending) ≤ t.written + (s.dropped.toNat + s.producer.pending)) :
    consumer.Sound t := by
  cases consumer <;> simp only [Consumer.Sound, head, consumed] at sound ⊢
  case idle | started | admitted => omega
  case headLoaded => exact ⟨sound.1, by omega⟩
  case tailLoaded | swapped =>
    obtain ⟨same, seen, known, loaded, below, after, before⟩ := sound
    exact ⟨same, seen, known, loaded, by omega, after, by omega⟩

end Consumer.Sound

namespace Positions

structure Invariant (s : Positions) : Prop where
  tail : s.tail = ofNat 64 s.written
  head : s.head = ofNat 64 s.consumed
  near : s.written < s.consumed + 2 ^ 64
  producer : s.producer.Sound s.tail
  consumer : s.consumer.Sound s
  overread : s.overread = false

namespace Invariant

theorem new (g : Geometry) : Invariant (new g) := by
  refine ⟨rfl, rfl, ?_, trivial, ?_, rfl⟩ <;> simp [Positions.new, Consumer.Sound, Producer.pending]

variable (inv : Invariant s)
include inv

/-- A step of the producer that moves no position. -/
theorem producer_moves (producer : Producer) (complete : Bool) (sound : producer.Sound s.tail)
    (quiet : s.producer.pending = 0) (still : producer.pending = 0) :
    Invariant { s with producer, preBufferingComplete := complete } := by
  refine { inv with producer := sound, consumer := inv.consumer.mono rfl rfl (Nat.le_refl _) ?_ }
  dsimp only
  omega

theorem tail_stored (phase : s.producer = .headLoaded len loaded first)
    (timely : s.written + writeCount g.capacity len < s.consumed + 2 ^ 64) :
    Invariant (s.produce g) := by
  obtain rfl : loaded = s.tail := by
    have sound := inv.producer
    rwa [phase] at sound
  have small : overflow g.capacity len s.tail first ≤ writeCount g.capacity len := Nat.sub_le _ _
  simp only [produce, phase]
  refine ⟨?_, inv.head, timely, trivial, inv.consumer.mono rfl rfl (Nat.le_refl _) ?_, inv.overread⟩
  · rw [inv.tail, ← ofNat_add]
  · dsimp only [Producer.pending]
    omega

theorem drop_recorded (phase : s.producer = .stored lost) : Invariant (s.produce g) := by
  have total := inv.consumer.total
  have near := inv.near
  have pending : s.producer.pending = lost := by rw [phase]; rfl
  -- what is recorded does not wrap: it lies between the two positions
  have sum : (s.dropped + ofNat 64 lost).toNat = s.dropped.toNat + lost := by
    rw [BitVec.toNat_add, toNat_ofNat]
    omega
  simp only [produce, phase]
  refine ⟨inv.tail, inv.head, near, trivial, inv.consumer.mono rfl rfl ?_ ?_, inv.overread⟩
  · dsimp only
    omega
  · rw [pending]
    dsimp only [Producer.pending]
    omega

theorem produce (timely : s.Timely g .produce) : Invariant (s.produce g) := by
  cases phase : s.producer with
  | idle => simpa only [Positions.produce, phase] using inv
  | headLoaded len loaded first => exact inv.tail_stored phase (timely len loaded first phase)
  | stored => exact inv.drop_recorded phase
  | tailLoaded =>
    have sound := inv.producer
    rw [phase] at sound
    simp only [Positions.produce, phase]
    exact inv.producer_moves _ _ sound (by rw [phase]; rfl) rfl
  | recorded | fillingTail =>
    simp only [Positions.produce, phase]
    refine inv.producer_moves _ _ ?_ (by rw [phase]; rfl) ?_ <;> split <;> trivial
  | started | filling | fillingHead | filled =>
    simp only [Positions.produce, phase]
    exact inv.producer_moves _ _ (by trivial) (by rw [phase]; rfl) rfl

/-- The read ends: what it skips and returns lies before the write position it has seen, or the
skipped drops were written behind that. -/
theorem head_stored (phase : s.consumer = .swapped len first loaded skip) :
    Invariant s.consume := by
  have near := inv.near
  have consumer := inv.consumer
  rw [phase] at consumer
  obtain ⟨rfl, seen, known, rfl, below, after, before⟩ := consumer
  have distance : (ofNat 64 seen - s.head).toNat = seen - s.consumed := by
    rw [inv.head, BitVec.toNat_sub, toNat_ofNat, toNat_ofNat]
    omega
  have count : readCount len (ofNat 64 seen) s.head skip ≤ seen - s.consumed - skip.toNat := by
    rw [readCount, distance]
    exact Nat.min_le_right _ _
  simp only [consume, phase]
  refine ⟨inv.tail, ?_, by dsimp only; omega, inv.producer, ?_, ?_⟩
  · rw [inv.head, ofNat_add, ofNat_add, BitVec.ofNat_toNat, BitVec.setWidth_eq]
  · simp only [Consumer.Sound]
    omega
  · rw [inv.overread]
    exact decide_eq_false (by omega)

theorem consume (timely : s.Timely g .consume) : Invariant s.consume := by
  have consumer := inv.consumer
  cases phase : s.consumer with
  | idle => simpa only [Positions.consume, phase] using inv
  | started len =>
    simp only [Positions.consume, phase] at consumer ⊢
    refine { inv with consumer := ?_ }
    split <;> exact consumer
  | admitted len =>
    simp only [Positions.consume, phase] at consumer ⊢
    exact { inv with consumer := ⟨rfl, consumer⟩ }
  | headLoaded len head =>
    have quiet : s.producer.pending = 0 := by
      cases writer : s.producer with
      | stored overflow => exact timely len head phase overflow writer
      | _ => rfl
    simp only [Positions.consume, phase, Consumer.Sound] at consumer ⊢
    refine { inv with consumer := ⟨consumer.1, s.written, s.dropped.toNat, inv.tail, ?_⟩ }
    dsimp only
    omega
  | tailLoaded =>
    simp only [Positions.consume, phase] at consumer ⊢
    exact { inv with consumer }
  | swapped => exact inv.head_stored phase

theorem step (action : PositionAction) (timely : s.Timely g action) :
    Invariant (s.step g action) := by
  cases action with
  | write len =>
    simp only [Positions.step]
    split
    case isTrue idle => exact inv.producer_moves _ _ trivial (by rw [idle.1]; rfl) rfl
    case isFalse => exact inv
  | produce => exact inv.produce timely
  | read len =>
    have consumer := inv.consumer
    simp only [Positions.step]
    split
    case isTrue idle =>
      rw [idle] at consumer
      exact { inv with consumer }
    case isFalse => exact inv
  | consume => exact inv.consume timely

theorem ordered : s.Ordered := by
  have total := inv.consumer.total
  exact ⟨by omega, inv.overread⟩

end Invariant

/-- Along every run in which no read loads the write position before a drop is recorded, the
positions stay in order. -/
theorem ring_positions_ordered (g : Geometry) (actions : List PositionAction)
    (run : Along (step g) (Timely g) (new g) actions) :
    ∀ taken, taken <+: actions → Ordered (taken.foldl (step g) (new g)) := by
  intro taken within
  have inv := run.invariant (Invariant.new g)
    (fun _ action inv timely => Invariant.step inv action timely) taken within
  exact inv.ordered

/-- Four samples of one channel, without pre-buffering. -/
def small : Geometry := ⟨4, 1, 0⟩

/-- Two writes of four samples, each to its end, and a read of what the second has left. -/
def fillTwice : List PositionAction :=
  .write 4 :: List.replicate 5 .produce ++ .write 4 :: List.replicate 5 .produce ++ .read 8 :: List.replicate 5 .consume

theorem ring_positions_ordered_fill_twice :
    Along (step small) (Timely small) (new small) fillTwice ∧
    ∀ taken, taken <+: fillTwice → Ordered (taken.foldl (step small) (new small)) := by
  have run : Along (step small) (Timely small) (new small) fillTwice := by
    simp [fillTwice, small, Along, Timely, step, Positions.new, Positions.produce,
      Positions.consume, writeCount]
  exact ⟨run, ring_positions_ordered small fillTwice run⟩

/-- A read between the second store of the write position and its drop, and one after the drop. -/
def readInBetween : List PositionAction :=
  .write 4 :: List.replicate 5 .produce ++ .write 4 :: List.replicate 3 .produce ++
    .read 8 :: List.replicate 5 .consume ++ .produce :: .read 1 :: List.replicate 5 .consume

theorem read_position_passes : ¬ Ordered (readInBetween.foldl (step small) (new small)) := by
  decide

end Positions

end Casa.Audio
