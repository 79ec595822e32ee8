import Casa.Audio.RingBuffer
import Mathlib.Data.Nat.ModEq

/-! What the ring buffer of audio_ring_buffer.rs returns when writes and reads follow one another,
without pre-buffering. A masked index is below the capacity whenever a cell is touched, so the cells
are a function of the index. -/
namespace Casa.Audio
open Effect
open BitVec (ofNat toNat_ofNat ofNat_add)
variable {α : Type}

structure AudioRingBuffer (α : Type) where
  capacity : Nat
  buffer : Nat → α
  mask : U64
  head : U64
  tail : U64
  dropped : U64

/-- The least power of two that is not below `n`, and `2 ^ 64` where none fits. -/
def nextPowerOfTwo (n : U64) : Nat := 2 ^ ((List.range 64).find? fun k => n.toNat ≤ 2 ^ k).getD 64

def capacitySamples (capacityFrames : U64) (channels : U16) : U64 :=
  ofNat 64 (nextPowerOfTwo capacityFrames) * channels.setWidth 64

/-- The loop over the samples to store. -/
def storeSamples (mask : U64) (buffer : Nat → α) : (position : U64) → List α → Nat → α
  | _, [] => buffer
  | position, sample :: rest =>
    storeSamples mask (Function.update buffer (position &&& mask).toNat sample) (position + 1) rest

def newest (capacity : Nat) (samples : List α) : List α := samples.drop (samples.length - capacity)

namespace AudioRingBuffer

/-- `none` is a panic: no channel, or more bytes than an allocation may have. -/
def new (silence : α) (capacityFrames : U64) (channels : U16) : Option (AudioRingBuffer α) :=
  let capacity := capacitySamples capacityFrames channels
  if channels = 0 ∨ 2 ^ 61 ≤ capacity.toNat then none
  else some ⟨capacity.toNat, fun _ => silence, capacity - 1, 0, 0, 0⟩

def write (r : AudioRingBuffer α) (samples : List α) : Nat × AudioRingBuffer α :=
  if samples.length = 0 then (0, r)
  else
    let count := writeCount r.capacity samples.length
    (count, { r with
      buffer := storeSamples r.mask r.buffer r.tail (newest r.capacity samples)
      tail := r.tail + ofNat 64 count
      dropped := r.dropped + ofNat 64 (overflow r.capacity samples.length r.tail r.head) })

/-- A write of nothing is no exception. -/
theorem write_ring (r : AudioRingBuffer α) : (r.write samples).2 = { r with
    buffer := storeSamples r.mask r.buffer r.tail (newest r.capacity samples)
    tail := r.tail + ofNat 64 (writeCount r.capacity samples.length)
    dropped := r.dropped + ofNat 64 (overflow r.capacity samples.length r.tail r.head) } := by
  rw [write]
  split
  case isTrue none =>
    simp [List.length_eq_zero_iff.mp none, newest, storeSamples, writeCount, overflow]
  case isFalse => rfl

/-- The output, how much of it was read, and the ring. -/
def read (silence : α) (r : AudioRingBuffer α) (len : Nat) : List α × Nat × AudioRingBuffer α :=
  let count := readCount len r.tail r.head r.dropped
  ((List.range count).map
    (fun i => r.buffer ((r.head + r.dropped + ofNat 64 i) &&& r.mask).toNat) ++
      List.replicate (len - count) silence,
    count, { r with head := r.head + (r.dropped + ofNat 64 count), dropped := 0 })

end AudioRingBuffer

inductive Call (α : Type) where
  | write (samples : List α)
  | read (len : Nat)

/-- The ring beside the samples that are unread. -/
structure Session (α : Type) where
  ring : AudioRingBuffer α
  unread : List α

namespace Session

def step (silence : α) (s : Session α) : Call α → Session α
  | .write samples => ⟨(s.ring.write samples).2, newest s.ring.capacity (s.unread ++ samples)⟩
  | .read len => ⟨(s.ring.read silence len).2.2, s.unread.drop len⟩

/-- Fewer than `2 ^ 64` positions stay between the two. -/
def Near (s : Session α) : Call α → Prop
  | .write samples =>
    (s.ring.tail - s.ring.head).toNat + writeCount s.ring.capacity samples.length < 2 ^ 64
  | .read _ => True

/-- A read returns the oldest unread samples and then silence. -/
def Fifo (silence : α) (s : Session α) : Prop :=
  ∀ len, (s.ring.read silence len).1 =
    s.unread.take len ++ List.replicate (len - s.unread.length) silence

end Session

/-! ## The cells -/

def cell (mask : U64) (position : Nat) : Nat := (ofNat 64 position &&& mask).toNat

/-- Positions closer than the capacity have cells of their own. -/
def Separates (mask : U64) (capacity : Nat) : Prop :=
  ∀ first second, first < second → second < first + capacity → cell mask first ≠ cell mask second

theorem separates_pow (small : k < 64) : Separates (ofNat 64 (2 ^ k - 1)) (2 ^ k) := by
  have bound := Nat.pow_lt_pow_right (show 1 < 2 by decide) small
  have cell_eq (position : Nat) : cell (ofNat 64 (2 ^ k - 1)) position = position % 2 ^ k := by
    rw [cell, BitVec.toNat_and, toNat_ofNat, toNat_ofNat,
      Nat.mod_eq_of_lt (show 2 ^ k - 1 < 2 ^ 64 by omega), Nat.and_two_pow_sub_one_eq_mod,
      Nat.mod_mod_of_dvd _ (Nat.pow_dvd_pow 2 small.le)]
  intro first second after near same
  rw [cell_eq, cell_eq] at same
  have := Nat.le_of_dvd (by omega) ((Nat.modEq_iff_dvd' after.le).mp same)
  omega

theorem storeSamples_cells (separates : Separates mask capacity) (src : List α)
    (fits : src.length ≤ capacity) (t : Nat) (buffer : Nat → α) :
    (List.range' t src.length).map (storeSamples mask buffer (ofNat 64 t) src ∘ cell mask) = src ∧
    ∀ p < t, t + src.length ≤ p + capacity →
      storeSamples mask buffer (ofNat 64 t) src (cell mask p) = buffer (cell mask p) := by
  induction src generalizing buffer t with
  | nil => exact ⟨rfl, fun _ _ _ => rfl⟩
  | cons sample rest ih =>
    rw [List.length_cons] at fits ⊢
    obtain ⟨stored, others⟩ := ih (by omega) (t + 1) (Function.update buffer (cell mask t) sample)
    rw [storeSamples, show ofNat 64 t + 1 = ofNat 64 (t + 1) from (ofNat_add ..).symm]
    refine ⟨?_, fun p before near => ?_⟩
    · exact congrArg₂ _ ((others t (by omega) (by omega)).trans (Function.update_self ..)) stored
    · exact (others p (by omega) (by omega)).trans (Function.update_of_ne (separates p t before (by omega)) ..)

theorem newest_append : newest capacity (unread ++ samples) =
      unread.drop (unread.length + samples.length - capacity) ++ newest capacity samples := by
  rw [newest, List.drop_append, List.length_append]
  congr 2
  omega

theorem length_newest (samples : List α) (capacity : Nat) :
    (newest capacity samples).length = writeCount capacity samples.length := by
  rw [newest, List.length_drop, writeCount]
  omega

namespace Session
variable {silence : α} {s : Session α}

/-- The read position is `h` and the write position `d` after it, both without their wrap-around;
the unread samples lie in the cells before the write position. -/
structure Holds (s : Session α) (h d : Nat) : Prop where
  separates : Separates s.ring.mask s.ring.capacity
  near : d < 2 ^ 64
  head : s.ring.head = ofNat 64 h
  tail : s.ring.tail = ofNat 64 (h + d)
  dropped : s.ring.dropped = ofNat 64 (d - s.ring.capacity)
  unread : s.unread =
    (List.range' (h + (d - s.ring.capacity)) (min d s.ring.capacity)).map
      (s.ring.buffer ∘ cell s.ring.mask)

namespace Holds
variable (holds : s.Holds h d)
include holds

theorem distance : (s.ring.tail - s.ring.head).toNat = d := by
  rw [holds.head, holds.tail, ofNat_add, BitVec.add_comm, BitVec.add_sub_cancel, toNat_ofNat,
    Nat.mod_eq_of_lt holds.near]

theorem length : s.unread.length = min d s.ring.capacity := by
  rw [holds.unread, List.length_map, List.length_range']

theorem readCount_eq (len : Nat) :
    readCount len s.ring.tail s.ring.head s.ring.dropped = min len s.unread.length := by
  have near := holds.near
  rw [readCount, holds.distance, holds.dropped, holds.length, toNat_ofNat]
  omega

theorem fifo : s.Fifo silence := by
  intro len
  simp only [AudioRingBuffer.read, holds.readCount_eq]
  congr 1
  · rw [holds.length, holds.unread, ← List.map_take, List.range'_eq_map_range, ← List.map_take,
      List.take_range, List.map_map]
    simp only [holds.head, holds.dropped, ← ofNat_add]
    rfl
  · congr 1
    omega

theorem read (len : Nat) : ∃ h' d', (s.step silence (.read len)).Holds h' d' := by
  have near := holds.near
  have length := holds.length
  refine ⟨h + (d - s.ring.capacity + min len s.unread.length),
    s.unread.length - min len s.unread.length,
    holds.separates, by omega, ?_, ?_, ?_, ?_⟩
  all_goals simp only [step, AudioRingBuffer.read, holds.readCount_eq]
  · rw [holds.head, holds.dropped, ← ofNat_add, ← ofNat_add]
  · rw [holds.tail]
    congr 1
    omega
  · rw [show s.unread.length - min len s.unread.length - s.ring.capacity = 0 by omega]
    rfl
  · nth_rewrite 1 [holds.unread]
    rw [← List.map_drop, List.drop_range', length]
    rcases Nat.lt_or_ge len (min d s.ring.capacity) with more | all
    · congr 2 <;> omega
    · rw [Nat.min_eq_right all, Nat.sub_eq_zero_of_le all, Nat.sub_self]
      rfl

/-- The unread samples that a write keeps are those before the write position whose cells it spares. -/
theorem kept_cells (samples : List α) :
    s.unread.drop (s.unread.length + samples.length - s.ring.capacity) =
    (List.range' (h + (d + writeCount s.ring.capacity samples.length - s.ring.capacity))
      (min d (s.ring.capacity - samples.length))).map (s.ring.buffer ∘ cell s.ring.mask) := by
  rw [holds.length, holds.unread, ← List.map_drop, List.drop_range', writeCount]
  rcases Nat.lt_or_ge s.ring.capacity samples.length with more | fits
  · rw [Nat.sub_eq_zero_of_le more.le, Nat.min_zero,
      show min d s.ring.capacity - (min d s.ring.capacity + samples.length - s.ring.capacity) = 0 by omega]
    rfl
  · congr 2 <;> omega

theorem write (samples : List α) (room : s.Near (.write samples)) :
    (s.step silence (.write samples)).Holds h (d + writeCount s.ring.capacity samples.length) := by
  have count : writeCount s.ring.capacity samples.length = min samples.length s.ring.capacity := rfl
  have size := length_newest samples s.ring.capacity
  obtain ⟨stored, others⟩ := storeSamples_cells holds.separates (newest s.ring.capacity samples)
    (by omega) (h + d) s.ring.buffer
  rw [size] at stored others
  rw [step, AudioRingBuffer.write_ring]
  refine ⟨holds.separates, by simpa only [Near, holds.distance] using room, holds.head, ?_, ?_, ?_⟩
  · rw [holds.tail, ← ofNat_add, Nat.add_assoc]
  · rw [holds.dropped, ← ofNat_add, overflow, holds.distance]
    change ofNat 64 _ = ofNat 64 (_ - s.ring.capacity)
    congr 1
    omega
  · change newest s.ring.capacity _ =
      (List.range' (h + (_ - s.ring.capacity)) (min _ s.ring.capacity)).map
      (storeSamples _ _ s.ring.tail _ ∘ _)
    rw [newest_append, holds.kept_cells, holds.tail,
      show min (d + writeCount s.ring.capacity samples.length) s.ring.capacity =
        min d (s.ring.capacity - samples.length) + writeCount s.ring.capacity samples.length by omega,
      ← List.range'_append_1, List.map_append]
    congr 1
    · refine List.map_congr_left fun p member => (others p ?_ ?_).symm <;>
        rw [List.mem_range'_1] at member <;> omega
    · rw [show h + _ + min d _ = h + d by omega]
      exact stored.symm

end Holds

theorem new_holds (two : channels.toNat = 2 ^ k)
    (made : AudioRingBuffer.new silence frames channels = some r) : Holds ⟨r, []⟩ 0 0 := by
  obtain ⟨j, power⟩ : ∃ j, nextPowerOfTwo frames = 2 ^ j := ⟨_, rfl⟩
  have capacity : capacitySamples frames channels = ofNat 64 (2 ^ (j + k)) := by
    rw [capacitySamples, power, pow_add, BitVec.ofNat_mul, ← two]
    simp
  rw [AudioRingBuffer.new, capacity] at made
  split at made
  · cases made
  · obtain rfl := Option.some.inj made
    refine ⟨?_, by decide, rfl, rfl, by simp, by simp⟩
    rcases Nat.lt_or_ge (j + k) 64 with small | large
    · have bound := Nat.pow_lt_pow_right (show 1 < 2 by decide) small
      have mask : ofNat 64 (2 ^ (j + k)) - 1 = ofNat 64 (2 ^ (j + k) - 1) := by
        rw [sub_eq_iff_eq_add, show (1 : U64) = ofNat 64 1 from rfl, ← ofNat_add,
          Nat.sub_add_cancel (Nat.two_pow_pos _)]
      rw [mask, toNat_ofNat, Nat.mod_eq_of_lt bound]
      exact separates_pow small
    · -- the product wraps to a ring without cells
      rw [toNat_ofNat, Nat.mod_eq_zero_of_dvd (Nat.pow_dvd_pow 2 large)]
      exact fun _ _ after near => absurd after near.not_gt

/-- With a power of two of channels every read of a run whose writes stay near returns the oldest
unread samples. -/
theorem reads_oldest_unread (two : channels.toNat = 2 ^ k)
    (made : AudioRingBuffer.new silence frames channels = some r)
    (near : Along (step silence) Near ⟨r, []⟩ calls) :
    ∀ taken, taken <+: calls → (taken.foldl (step silence) ⟨r, []⟩).Fifo silence := by
  intro taken within
  obtain ⟨h, d, holds⟩ :=
    near.invariant (I := fun s => ∃ h d, s.Holds h d) ⟨0, 0, new_holds two made⟩
    (fun s call holds near => by
      obtain ⟨h, d, holds⟩ := holds
      cases call with
      | write samples => exact ⟨h, _, holds.write samples near⟩
      | read len => exact holds.read len) taken within
  exact holds.fifo

theorem reads_oldest_unread_two_frames :
    ∃ r, AudioRingBuffer.new 0 2 1 = some r ∧
      ([.write [1, 2, 3], .read 1].foldl (step 0) ⟨r, []⟩).Fifo 0 := by
  have made : AudioRingBuffer.new 0 2 1 = some ⟨2, fun _ => 0, 1, 0, 0, 0⟩ := rfl
  refine ⟨_, made, reads_oldest_unread (k := 0) (by decide) made ?_ _ List.prefix_rfl⟩
  exact ⟨show _ < _ by decide, trivial, trivial⟩

/-- With three channels the first two positions share a cell. -/
theorem three_channels_lose_sample :
    ∃ r, AudioRingBuffer.new 0 1 3 = some r ∧ ¬ (step 0 ⟨r, []⟩ (.write [1, 2])).Fifo 0 :=
  ⟨_, rfl, fun fifo => absurd (fifo 2) (by decide)⟩

end Session
end Casa.Audio
