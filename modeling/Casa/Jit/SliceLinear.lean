import Casa.Jit.SliceMemory

/-! Additions on a shared slice are linearizable as long as no addition inside a word
changes bytes that a crossing addition has in flight. An addition inside a word takes
effect when its word is exchanged, a crossing one when its last word is loaded: from
there on its bytes count as written, though the store is still to come. -/
namespace Casa.Jit
open MachineInt WordMemory AtomicObject BitVec
open Function (update_of_ne update_self)

/-! ## One word -/

theorem foldl_joinBytes :
    (list.zipIdx skip).foldl (fun value (byte : U8 × Nat) => value ||| (byte.1.setWidth 64 <<< (byte.2 * 8))) value =
      value ||| fromLeBytes 64 list <<< (skip * 8) := by
  induction list generalizing skip value with
  | nil =>
    have none : fromLeBytes 64 [] = 0#64 := rfl
    rw [List.zipIdx_nil, List.foldl_nil, none, zero_shiftLeft, or_zero]
  | cons byte rest ih =>
    have first : fromLeBytes 64 (byte :: rest) = (fromLeBytes 64 rest <<< 8) ||| byte.setWidth 64 := rfl
    have next : 8 + skip * 8 = (skip + 1) * 8 := by omega
    rw [List.zipIdx_cons, List.foldl_cons, ih, first, shiftLeft_or_distrib, ← shiftLeft_add, next,
      BitVec.or_assoc, BitVec.or_comm (byte.setWidth 64 <<< (skip * 8))]

theorem byte_joinBytes (small : len ≤ 8) (inside : index < len) :
    byte (joinBytes (toLeBytes len value)) index = byte value index := by
  have joined : joinBytes (toLeBytes len value) = fromLeBytes 64 (toLeBytes len value) := by
    rw [joinBytes, foldl_joinBytes, shiftLeft_zero]
    exact zero_or
  apply eq_of_getLsbD_eq
  intro bit low
  have inWord : 8 * index + bit < 64 := by omega
  have inRun : 8 * index + bit < 8 * len := by omega
  rw [getLsbD_byte, getLsbD_byte, joined, getLsbD_fromLeBytes]
  simp [inWord, inRun]

/-- A round of `try_update` does nothing, or updates the word that is there. -/
theorem tryUpdate_cases : tryUpdate words base update spurious seen = (words, .again (words base)) ∨
      (seen = some (words base) ∧ spurious = false) ∧
        tryUpdate words base update spurious seen =
          (words.set base (update (words base)), .updated (words base)) := by
  cases seen with
  | none => exact .inl rfl
  | some seen =>
    by_cases succeeds : words base = seen ∧ spurious = false
    · refine .inr ⟨⟨congrArg some succeeds.1.symm, succeeds.2⟩, ?_⟩
      rw [tryUpdate, if_pos succeeds, succeeds.1]
    · refine .inl ?_
      rw [tryUpdate, if_neg succeeds]

namespace FetchAdd

/-- What the check of the arguments leaves. -/
structure Accepted (view : GuestSliceMemory) (request : FetchAdd) : Prop where
  passes : view.refuses request.address request.len = false
  nonempty : 0 < request.len
  small : request.len ≤ 8
  fits : request.address.toNat + request.len ≤ 2 ^ 64

theorem accepted (passes : view.refuses request.address request.len = false) :
    Accepted view request := by
  have parts := passes
  rw [GuestSliceMemory.refuses, Bool.or_eq_false_iff, Bool.or_eq_false_iff, beq_eq_false_iff_ne,
    decide_eq_false_iff_not] at parts
  obtain ⟨⟨nonempty, small⟩, available⟩ := parts
  refine ⟨passes, Nat.pos_of_ne_zero nonempty, Nat.le_of_not_lt small, ?_⟩
  rw [GuestSliceMemory.rangeAvailable] at available
  split at available
  · cases available
  · cases sum : checkedAdd request.address (BitVec.ofNat 64 request.len) with
    | none =>
      rw [sum] at available
      cases available
    | some =>
      have bound := (checkedAdd_eq_some sum).1
      rw [toNat_ofNat] at bound
      omega

variable {request : FetchAdd}

def total (request : FetchAdd) (m : Bytes) : U64 :=
  read m request.address request.len + request.value

theorem bytes_addField (accepted : Accepted view request) (within : request.withinWord)
    (words : Words) :
    bytes (words.set (wordBase request.address) (addField request (words (wordBase request.address)))) =
      overwrite (bytes words) request.address 0 request.len (request.total (bytes words)) := by
  rw [← bytes_set_within accepted.fits accepted.nonempty within, total, ← read_within within]
  congr 2
  rw [addField, putField, add_and_lowMask accepted.small, putField]

theorem addField_whole (aligned : wordOffset request.address = 0) (whole : request.len = 8)
    (word : U64) :
    word + (request.value &&& lowMask request.len) = addField request word ∧
      word = field word (wordOffset request.address) request.len := by
  rw [addField, aligned, whole, putField_whole, field_whole]
  exact ⟨rfl, rfl⟩

theorem loadWord_read :
    loadWord words request.address request.len done (read (bytes words) request.address done) =
      (done + span request.address request.len done,
        read (bytes words) request.address (done + span request.address request.len done)) := by
  rw [← read_span]
  rfl

theorem bytes_storeField (accepted : Accepted view request) (inside : done < request.len)
    (words : Words) (value : U64) :
    bytes (words.set (wordBase (request.address + BitVec.ofNat 64 done))
        (storeField request.address request.len done (joinBytes (toLeBytes request.len value))
          (words (wordBase (request.address + BitVec.ofNat 64 done))))) =
      overwrite (bytes words) request.address done (done + span request.address request.len done) value := by
  refine (bytes_set_putField accepted.fits inside words _).trans
    (overwrite_congr (fun index _ below => ?_))
  exact byte_joinBytes accepted.small (below.trans_le (span_le inside))

end FetchAdd

/-! ## The invariant -/

namespace Phase

def holds : Phase → Bool
  | loading _ _ => true
  | storing _ _ _ => true
  | noting _ => true
  | unlocking _ => true
  | _ => false

/-- Memory with what the call has still to store. -/
def pending (request : FetchAdd) (m : Bytes) : Phase → Bytes
  | storing previous done _ =>
    overwrite m request.address done request.len (previous + request.value)
  | _ => m

/-- A call before it has taken effect is fresh; afterwards its answer is settled. -/
def Sound (view : GuestSliceMemory) (request : FetchAdd) (m : Bytes) (fresh : Prop)
    (settled : Answer → Prop) :
    Phase → Prop
  | idle => fresh
  | entered => fresh
  | updating _ => fresh ∧ request.Accepted view ∧ request.withinWord
  | locking => fresh ∧ request.Accepted view
  | loading done value =>
    fresh ∧ request.Accepted view ∧ done < request.len ∧ value = read m request.address done
  | storing previous done _ =>
    settled (.ok (previous, view.touchesCode request.address request.len)) ∧ request.Accepted view ∧
      done < request.len
  | noting previous => settled (.ok (previous, view.touchesCode request.address request.len))
  | unlocking previous => settled (.ok (previous, view.touchesCode request.address request.len))
  | recording original => settled (.ok (original, view.touchesCode request.address request.len))
  | answered answer => settled answer
  | returned => True

def active : Phase → Bool
  | idle => false
  | returned => false
  | _ => true

theorem Sound.mono (sound : phase.Sound view request m fresh settled) (stillFresh : fresh → fresh')
    (stillSettled : ∀ answer, settled answer → settled' answer)
    (reads : ∀ done value, phase = loading done value →
      read m request.address done = read m' request.address done) :
    phase.Sound view request m' fresh' settled' := by
  cases phase with
  | idle | entered => exact stillFresh sound
  | updating | locking => exact ⟨stillFresh sound.1, sound.2⟩
  | loading done value =>
    obtain ⟨isFresh, accepted, inside, same⟩ := sound
    exact ⟨stillFresh isFresh, accepted, inside, same.trans (reads done value rfl)⟩
  | storing => exact ⟨stillSettled _ sound.1, sound.2⟩
  | noting | unlocking | recording | answered => exact stillSettled _ sound
  | returned => trivial

end Phase

/-- The additions one after the other, each alone. -/
abbrev replay {ι : Type} (view : GuestSliceMemory) (request : ι → FetchAdd) :
    Bytes → List ι → List (ι × Answer) × Bytes :=
  sequential fun caller => fetchAdd view (request caller)

section Invariant
variable {ι : Type} (view : GuestSliceMemory) (request : ι → FetchAdd)

/-- Memory as the sequential order leaves it: the holder of the lock counts as done. -/
def overlay (lock : Option ι) (phase : ι → Phase) (m : Bytes) : Bytes :=
  match lock with
  | none => m
  | some holder => (phase holder).pending (request holder) m

structure Invariant (m : Bytes) (s : Slice ι) (order : List ι) : Prop where
  run : Run (fun caller => fetchAdd view (request caller)) m s.history order
  memory : overlay request s.shared.lock s.phase (bytes s.shared.words) =
    (replay view request m order).2
  holder : ∀ caller, (s.phase caller).holds = true ↔ s.shared.lock = some caller
  called : ∀ caller, .call caller ∈ s.history ↔ s.phase caller ≠ .idle
  returned : ∀ caller answer, .ret caller answer ∈ s.history → s.phase caller = .returned
  sound : ∀ caller,
    (s.phase caller).Sound view (request caller) (bytes s.shared.words) (caller ∉ order)
    fun answer => (caller, answer) ∈ (replay view request m order).1

variable {view request} {s : Slice ι} {order : List ι}

theorem Invariant.start (words : Words) :
    Invariant view request (bytes words) (.start words) [] where
  run := .start
  memory := rfl
  holder caller := ⟨fun holds => (Bool.false_ne_true holds).elim, fun held => by cases held⟩
  called caller := ⟨fun member => absurd member List.not_mem_nil, fun differ => absurd rfl differ⟩
  returned caller answer member := absurd member List.not_mem_nil
  sound caller := List.not_mem_nil

theorem noteCodeWrite_shared (view : GuestSliceMemory) (request : FetchAdd) (shared : Shared ι) :
    (noteCodeWrite view request shared).words = shared.words ∧
      (noteCodeWrite view request shared).lock = shared.lock := by
  rw [noteCodeWrite]
  split <;> exact ⟨rfl, rfl⟩

section
variable (inv : Invariant view request m s order)
include inv

theorem Invariant.not_holder (free : (s.phase caller).holds = false) :
    s.shared.lock ≠ some caller := fun held => by
  rw [(inv.holder caller).mpr held] at free
  cases free

/-- Only the holder of the lock is loading. -/
theorem Invariant.loading_held (loading : s.phase caller = .loading done value) :
    s.shared.lock = some caller := by
  refine (inv.holder caller).mp ?_
  rw [loading]
  rfl

/-- What the holder has still to store is apart from the run. -/
theorem Invariant.overlay_eq (clear : Clear request s caller) :
    (∀ m, overlay request s.shared.lock s.phase m = m) ∨ ∃ address first last value,
      Apart (request caller).address 0 (request caller).len address first last ∧ address.toNat + last ≤ 2 ^ 64 ∧
        ∀ m, overlay request s.shared.lock s.phase m = overwrite m address first last value := by
  cases held : s.shared.lock with
  | none => exact .inl fun _ => rfl
  | some holder =>
    simp only [overlay]
    cases phase : s.phase holder with
    | storing previous done =>
      have sound := inv.sound holder
      rw [phase] at sound
      have apart := clear holder held (done, (request holder).len) (by rw [phase]; rfl)
      exact .inr ⟨_, _, _, _, apart, sound.2.1.fits, fun _ => rfl⟩
    | _ => exact .inl fun _ => rfl

theorem Invariant.read_overlay (accepted : (request caller).Accepted view)
    (clear : Clear request s caller) :
    read (overlay request s.shared.lock s.phase (bytes s.shared.words)) (request caller).address (request caller).len =
      read (bytes s.shared.words) (request caller).address (request caller).len := by
  rcases inv.overlay_eq clear with same | ⟨_, _, _, _, apart, fits, pending⟩
  · rw [same]
  · rw [pending, read_overwrite apart accepted.fits fits]

theorem Invariant.overlay_overwrite (accepted : (request caller).Accepted view)
    (clear : Clear request s caller) (sum : U64) :
    overlay request s.shared.lock s.phase
        (overwrite (bytes s.shared.words) (request caller).address 0 (request caller).len sum) =
      overwrite (overlay request s.shared.lock s.phase (bytes s.shared.words)) (request caller).address 0
        (request caller).len sum := by
  rcases inv.overlay_eq clear with same | ⟨_, _, _, _, apart, fits, pending⟩
  · rw [same, same]
  · rw [pending, pending, overwrite_comm apart accepted.fits fits]

/-- When every call has returned, nothing is left to be stored. -/
theorem Invariant.settled
    (done : ∀ caller, .call caller ∈ s.history → ∃ answer, .ret caller answer ∈ s.history) :
    bytes s.shared.words = (replay view request m order).2 := by
  rw [← inv.memory]
  cases held : s.shared.lock with
  | none => rfl
  | some holder =>
    have holds := (inv.holder holder).mpr held
    have called := (inv.called holder).mpr fun idle => by rw [idle] at holds; cases holds
    obtain ⟨answer, member⟩ := done holder called
    rw [inv.returned holder answer member] at holds
    cases holds

variable [DecidableEq ι]

open Function (update)

omit inv in
theorem overlay_update_of_ne (other : lock ≠ some caller) (phase : ι → Phase) (next : Phase)
    (m : Bytes) :
    overlay request lock (update phase caller next) m = overlay request lock phase m := by
  cases lock with
  | none => rfl
  | some holder =>
    have differ : holder ≠ caller := fun same => other (congrArg some same)
    rw [overlay, overlay, update_of_ne differ]

omit inv in
theorem overlay_update_self (phase : ι → Phase) (next : Phase) (m : Bytes) :
    overlay request (some caller) (update phase caller next) m =
      next.pending (request caller) m := by
  rw [overlay, update_self]

/-- A step between call and return, by what it does to memory, to the lock and to the order. -/
theorem Invariant.internal (active : (s.phase caller).active)
    (stillActive : next.active)
    (run : Run (fun caller => fetchAdd view (request caller)) m s.history order')
    (memory : overlay request shared.lock (update s.phase caller next) (bytes shared.words) =
      (replay view request m order').2) (holder : next.holds ↔ shared.lock = some caller)
    (lock : ∀ other, other ≠ caller → (shared.lock = some other ↔ s.shared.lock = some other))
    (sound : next.Sound view (request caller) (bytes shared.words) (caller ∉ order')
      fun answer => (caller, answer) ∈ (replay view request m order').1)
    (fresh : ∀ other, other ≠ caller → other ∉ order → other ∉ order')
    (settled : ∀ result ∈ (replay view request m order).1, result ∈ (replay view request m order').1)
    (reads : ∀ other, other ≠ caller → ∀ done value, s.phase other = .loading done value →
      read (bytes s.shared.words) (request other).address done = read (bytes shared.words) (request other).address done) :
    Invariant view request m { s with shared, phase := update s.phase caller next } order' where
  run := run
  memory := memory
  holder other := by
    by_cases same : other = caller
    · subst same
      dsimp only
      rw [update_self]
      exact holder
    · dsimp only
      rw [update_of_ne same]
      exact (inv.holder other).trans (lock other same).symm
  called other := by
    by_cases same : other = caller
    · subst same
      have began : s.phase other ≠ .idle := fun idle => by rw [idle] at active; cases active
      have goes : next ≠ .idle := fun idle => by rw [idle] at stillActive; cases stillActive
      dsimp only
      rw [update_self]
      exact ⟨fun _ => goes, fun _ => (inv.called other).mpr began⟩
    · dsimp only
      rw [update_of_ne same]
      exact inv.called other
  returned other answer member := by
    have before := inv.returned other answer member
    by_cases same : other = caller
    · subst same
      rw [before] at active
      cases active
    · dsimp only
      rw [update_of_ne same]
      exact before
  sound other := by
    by_cases same : other = caller
    · subst same
      dsimp only
      rw [update_self]
      exact sound
    · dsimp only
      rw [update_of_ne same]
      exact (inv.sound other).mono (fresh other same) (fun answer => settled _) (reads other same)

/-- A step that changes nothing but local variables and the log of code writes. -/
theorem Invariant.quiet (words : shared.words = s.shared.words)
    (lock : shared.lock = s.shared.lock) (phase : s.phase caller = now) (active : now.active)
    (stillActive : next.active) (holds : next.holds = now.holds)
    (pending : ∀ m, next.pending (request caller) m = now.pending (request caller) m)
    (sound : next.Sound view (request caller) (bytes s.shared.words) (caller ∉ order)
      fun answer => (caller, answer) ∈ (replay view request m order).1) :
    Invariant view request m { s with shared, phase := update s.phase caller next } order := by
  subst phase
  refine inv.internal active stillActive inv.run ?_ ?_ ?_ ?_ (fun _ _ => id) (fun _ => id) ?_
  · rw [words, lock, ← inv.memory]
    by_cases held : s.shared.lock = some caller
    · rw [held, overlay_update_self, pending, overlay]
    · rw [overlay_update_of_ne held]
  · rw [holds, lock]
    exact inv.holder caller
  · intro other _
    rw [lock]
  · rw [words]
    exact sound
  · intro other _ done value _
    rw [words]

/-- A step at which the addition takes effect. -/
theorem Invariant.effect (lock : shared.lock = s.shared.lock) (phase : s.phase caller = now)
    (active : now.active) (stillActive : next.active) (holds : next.holds = now.holds)
    (fresh : caller ∉ order)
    (memory : overlay request s.shared.lock (update s.phase caller next) (bytes shared.words) = (fetchAdd view (request caller) (overlay request s.shared.lock s.phase (bytes s.shared.words))).2)
    (sound : next.Sound view (request caller) (bytes shared.words) False fun answer => answer = (fetchAdd view (request caller) (overlay request s.shared.lock s.phase (bytes s.shared.words))).1)
    (reads : ∀ other, other ≠ caller → ∀ done value, s.phase other = .loading done value → read (bytes s.shared.words) (request other).address done = read (bytes shared.words) (request other).address done) :
    Invariant view request m { s with shared, phase := update s.phase caller next }
      (order ++ [caller]) := by
  subst phase
  have began : s.phase caller ≠ .idle := fun idle => by rw [idle] at active; cases active
  have run := inv.run.effect ((inv.called caller).mpr began) fresh
  have after : replay view request m (order ++ [caller]) =
      ((replay view request m order).1 ++
        [(caller, (fetchAdd view (request caller) (overlay request s.shared.lock s.phase (bytes s.shared.words))).1)],
      (fetchAdd view (request caller) (overlay request s.shared.lock s.phase (bytes s.shared.words))).2) := by
    rw [replay, sequential_concat, inv.memory]
  refine inv.internal active stillActive run ?_ ?_ ?_ ?_ ?_ ?_ reads
  · rw [after, lock]
    exact memory
  · rw [holds, lock]
    exact inv.holder caller
  · intro other _
    rw [lock]
  · refine sound.mono False.elim (fun answer settled => ?_) fun _ _ _ => rfl
    rw [after, settled]
    exact List.mem_append_right _ List.mem_cons_self
  · intro other differ outside member
    rcases List.mem_append.mp member with old | new
    · exact outside old
    · exact differ (List.mem_singleton.mp new)
  · intro result member
    rw [after]
    exact List.mem_append_left _ member

/-! ## An addition inside a word -/

/-- The exchange of the word is where the addition takes effect. -/
theorem Invariant.exchange (phase : s.phase caller = .updating seen)
    (clear : Clear request s caller)
    (exchanged : bytes words = overwrite (bytes s.shared.words) (request caller).address 0 (request caller).len ((request caller).total (bytes s.shared.words))) :
    Invariant view request m
      { s with
        shared := { s.shared with words }
        phase := update s.phase caller
          (.recording (read (bytes s.shared.words) (request caller).address (request caller).len)) }
      (order ++ [caller]) := by
  have sound := inv.sound caller
  rw [phase] at sound
  obtain ⟨fresh, accepted, within⟩ := sound
  have free : s.shared.lock ≠ some caller := inv.not_holder (by rw [phase]; rfl)
  have same := inv.read_overlay accepted clear
  refine inv.effect rfl phase rfl rfl rfl fresh ?_ ?_ ?_
  · rw [overlay_update_of_ne free, exchanged, inv.overlay_overwrite accepted clear, fetchAdd,
      accepted.passes, if_neg Bool.false_ne_true, FetchAdd.total]
    rw [same]
  · rw [fetchAdd, accepted.passes, same]
    rfl
  · intro other _ done value loading
    have held := inv.loading_held loading
    have busy := inv.sound other
    rw [loading] at busy
    obtain ⟨-, acceptedOther, inside, -⟩ := busy
    have apart := clear other held (0, done) (by rw [loading]; rfl)
    have fitsOther : (request other).address.toNat + done ≤ 2 ^ 64 := by
      have := acceptedOther.fits
      omega
    rw [exchanged, read_overwrite apart.symm fitsOther accepted.fits]

/-! ## A crossing addition -/

theorem Invariant.load (phase : s.phase caller = .loading done value) :
    ∃ order', Invariant view request m
      { s with
        phase := update s.phase caller
          (if (loadWord s.shared.words (request caller).address (request caller).len done value).1 < (request caller).len then
            .loading (loadWord s.shared.words (request caller).address (request caller).len done value).1
              (loadWord s.shared.words (request caller).address (request caller).len done value).2
          else .storing (loadWord s.shared.words (request caller).address (request caller).len done value).2 0 none) }
      order' := by
  have sound := inv.sound caller
  rw [phase] at sound
  obtain ⟨fresh, accepted, inside, rfl⟩ := sound
  rw [FetchAdd.loadWord_read]
  split
  case isTrue more =>
    refine ⟨order, inv.quiet rfl rfl phase rfl rfl rfl (fun _ => rfl) ?_⟩
    exact ⟨fresh, accepted, more, rfl⟩
  case isFalse last =>
    have complete : done + span (request caller).address (request caller).len done = (request caller).len := by
      have := @span_le (request caller).address _ _ inside
      omega
    have held := inv.loading_held phase
    rw [complete]
    refine ⟨order ++ [caller], inv.effect rfl phase rfl rfl rfl fresh ?_ ?_ fun _ _ _ _ _ => rfl⟩
    · rw [held, overlay_update_self, overlay, phase, fetchAdd, accepted.passes]
      rfl
    · rw [held, overlay, phase, fetchAdd, accepted.passes]
      exact ⟨rfl, accepted, accepted.nonempty⟩

theorem Invariant.store (phase : s.phase caller = .storing previous done seen)
    (stored : bytes words = overwrite (bytes s.shared.words) (request caller).address done (done + span (request caller).address (request caller).len done) (previous + (request caller).value)) :
    Invariant view request m
      { s with
        shared := { s.shared with words }
        phase := update s.phase caller
          (if done + span (request caller).address (request caller).len done < (request caller).len then
            .storing previous (done + span (request caller).address (request caller).len done) none
          else .noting previous) } order := by
  have sound := inv.sound caller
  rw [phase] at sound
  obtain ⟨settled, accepted, inside⟩ := sound
  have held : s.shared.lock = some caller := (inv.holder caller).mp (by rw [phase]; rfl)
  have reach : done + span (request caller).address (request caller).len done ≤ (request caller).len := span_le inside
  have memory := inv.memory
  rw [held, overlay, phase] at memory
  refine inv.internal (by rw [phase]; rfl) ?_ inv.run ?_ ?_ (fun _ _ => Iff.rfl) ?_ (fun _ _ => id)
    (fun _ => id) ?_
  · split <;> rfl
  · rw [held, overlay_update_self, ← memory, stored]
    split
    case isTrue more => exact overwrite_overwrite (Nat.le_add_right _ _) reach
    case isFalse last =>
      have complete : done + span (request caller).address (request caller).len done = (request caller).len := by omega
      rw [complete]
      rfl
  · rw [held]
    split <;> exact ⟨fun _ => rfl, fun _ => rfl⟩
  · split
    case isTrue more => exact ⟨settled, accepted, more⟩
    case isFalse last => exact settled
  · -- the lock is taken, so nobody else is loading
    intro other differ _ _ loading
    exact absurd (Option.some.inj ((inv.loading_held loading).symm.trans held)) differ

/-! ## Runs -/

/-- A caller that holds nothing moves on and its event is recorded. -/
theorem Invariant.record (free : (s.phase caller).holds = false) (stillFree : next.holds = false)
    (started : next ≠ .idle)
    (run : Run (fun caller => fetchAdd view (request caller)) m (s.history ++ [event]) order)
    (called : .call caller ∈ s.history ++ [event])
    (own : ∀ other, other ≠ caller → event ≠ .call other ∧ ∀ answer, event ≠ .ret other answer)
    (returned : ∀ answer, .ret caller answer ∈ s.history ++ [event] → next = .returned)
    (sound : next.Sound view (request caller) (bytes s.shared.words) (caller ∉ order) fun answer => (caller, answer) ∈ (replay view request m order).1) :
    Invariant view request m
      { s with phase := update s.phase caller next, history := s.history ++ [event] } order := by
  have unlocked : s.shared.lock ≠ some caller := inv.not_holder free
  refine ⟨run, (overlay_update_of_ne unlocked _ _ _).trans inv.memory, fun other => ?_,
    fun other => ?_,
    fun other answer member => ?_, fun other => ?_⟩
  all_goals by_cases same : other = caller
  all_goals first | subst same; dsimp only; rw [update_self] | dsimp only; rw [update_of_ne same]
  · rw [stillFree]
    exact ⟨fun holds => (Bool.false_ne_true holds).elim, fun held => absurd held unlocked⟩
  · exact inv.holder other
  · exact ⟨fun _ => started, fun _ => called⟩
  · rw [← inv.called other, List.mem_append]
    exact ⟨fun member => member.resolve_right fun new => (own other same).1 (List.mem_singleton.mp new).symm, .inl⟩
  · exact returned answer member
  · refine inv.returned other answer ((List.mem_append.mp member).resolve_right fun new => ?_)
    exact (own other same).2 answer (List.mem_singleton.mp new).symm
  · exact sound
  · exact inv.sound other

theorem Invariant.call (phase : s.phase caller = .idle) :
    Invariant view request m
      { s with phase := update s.phase caller .entered, history := s.history ++ [.call caller] } order := by
  have notCalled : .call caller ∉ s.history := fun member => (inv.called caller).mp member phase
  have fresh := inv.sound caller
  rw [phase] at fresh
  refine inv.record (by rw [phase]; rfl) rfl Phase.noConfusion (inv.run.call caller notCalled)
    (List.mem_append_right _ List.mem_cons_self) ?_ ?_ fresh
  · intro other differ
    exact ⟨fun same => differ (Event.call.inj same).symm, nofun⟩
  · intro answer member
    rcases List.mem_append.mp member with old | new
    · rw [inv.returned caller answer old] at phase
      cases phase
    · cases List.mem_singleton.mp new

theorem Invariant.ret (phase : s.phase caller = .answered answer) :
    Invariant view request m
      { s with phase := update s.phase caller .returned, history := s.history ++ [.ret caller answer] }
      order := by
  have settled := inv.sound caller
  rw [phase] at settled
  have called : .call caller ∈ s.history :=
    (inv.called caller).mpr (by rw [phase]; exact Phase.noConfusion)
  refine inv.record (by rw [phase]; rfl) rfl Phase.noConfusion (inv.run.ret settled)
    (List.mem_append_left _ called)
    ?_ (fun _ _ => rfl) trivial
  intro other differ
  exact ⟨nofun, fun _ same => differ (Event.ret.inj same).1.symm⟩

theorem Invariant.enter (phase : s.phase caller = .entered) :
    ∃ order', Invariant view request m
      { s with
        phase := update s.phase caller
          (if view.refuses (request caller).address (request caller).len then
            .answered (.error (view.firstFault (request caller).address (request caller).len true))
          else if (request caller).withinWord then .updating none
          else .locking) } order' := by
  have fresh := inv.sound caller
  rw [phase] at fresh
  have free : s.shared.lock ≠ some caller := inv.not_holder (by rw [phase]; rfl)
  cases refused : view.refuses (request caller).address (request caller).len with
  | true =>
    refine ⟨order ++ [caller], inv.effect rfl phase rfl rfl rfl fresh ?_ ?_ fun _ _ _ _ _ => rfl⟩
    · rw [overlay_update_of_ne free, fetchAdd, refused, if_pos rfl]
    · rw [fetchAdd, refused]
      rfl
  | false =>
    rw [if_neg Bool.false_ne_true]
    have accepted := FetchAdd.accepted refused
    refine ⟨order, inv.quiet rfl rfl phase rfl ?_ ?_ (fun m => ?_) ?_⟩
    · split <;> rfl
    · split <;> rfl
    · split <;> rfl
    · split
      case isTrue within => exact ⟨fresh, accepted, within⟩
      case isFalse => exact ⟨fresh, accepted⟩

theorem Invariant.updating (phase : s.phase caller = .updating seen)
    (stepped : advance view caller (request caller) spurious s.shared (.updating seen) = some next)
    (clear : s.takesEffect request caller spurious → Clear request s caller) :
    ∃ order', Invariant view request m { s with shared := next.1, phase := update s.phase caller next.2 } order' := by
  have sound := inv.sound caller
  rw [phase] at sound
  obtain ⟨fresh, accepted, within⟩ := sound
  have exchanged := FetchAdd.bytes_addField accepted within s.shared.words
  rw [advance] at stepped
  by_cases whole : wordOffset (request caller).address = 0 ∧ (request caller).len = 8
  · have effect : s.takesEffect request caller spurious := by
      rw [Slice.takesEffect, phase]
      simp only [whole.1, whole.2, beq_self_eq_true, Bool.and_self, Bool.true_or]
    obtain ⟨added, original⟩ :=
      FetchAdd.addField_whole whole.1 whole.2 (s.shared.words (wordBase (request caller).address))
    have effected := inv.exchange phase (clear effect) exchanged
    rw [← original.trans (read_within within)] at effected
    rw [if_pos whole, added] at stepped
    cases stepped
    exact ⟨_, effected⟩
  · rw [if_neg whole] at stepped
    rcases tryUpdate_cases with again | ⟨⟨current, genuine⟩, updated⟩
    · rw [again] at stepped
      cases stepped
      exact ⟨order, inv.quiet rfl rfl phase rfl rfl rfl (fun _ => rfl) ⟨fresh, accepted, within⟩⟩
    · have effect : s.takesEffect request caller spurious := by
        rw [Slice.takesEffect, phase]
        simp only [current, genuine, beq_self_eq_true, Bool.not_false, Bool.and_self, Bool.or_true]
      rw [updated] at stepped
      dsimp only at stepped
      rw [read_within within] at stepped
      cases stepped
      exact ⟨_, inv.exchange phase (clear effect) exchanged⟩

/-- Every step of a call keeps the invariant. -/
theorem Invariant.work
    (stepped : advance view caller (request caller) spurious s.shared (s.phase caller) = some next)
    (clear : s.takesEffect request caller spurious → Clear request s caller) :
    ∃ order', Invariant view request m { s with shared := next.1, phase := update s.phase caller next.2 } order' := by
  have sound := inv.sound caller
  generalize phase : s.phase caller = now at stepped sound
  cases now with
  | idle => cases stepped
  | entered =>
    cases stepped
    exact inv.enter phase
  | updating => exact inv.updating phase stepped clear
  | locking =>
    rw [advance] at stepped
    split at stepped
    case isTrue open_ =>
      cases stepped
      refine ⟨order, inv.internal (by rw [phase]; rfl) rfl inv.run ?_ ⟨fun _ => rfl, fun _ => rfl⟩ ?_
        ⟨sound.1, sound.2, sound.2.nonempty, rfl⟩ (fun _ _ => id) (fun _ => id) fun _ _ _ _ _ => rfl⟩
      · have memory := inv.memory
        rw [open_] at memory
        exact (overlay_update_self _ _ _).trans memory
      · intro other differ
        rw [open_]
        exact ⟨fun same => absurd (Option.some.inj same).symm differ, fun none => by cases none⟩
    case isFalse => cases stepped
  | loading =>
    cases stepped
    exact inv.load phase
  | storing =>
    rw [advance] at stepped
    rcases tryUpdate_cases with
      again | ⟨-, updated⟩
    · rw [again] at stepped
      cases stepped
      exact ⟨order, inv.quiet rfl rfl phase rfl rfl rfl (fun _ => rfl) sound⟩
    · rw [updated] at stepped
      cases stepped
      exact ⟨order, inv.store phase (FetchAdd.bytes_storeField sound.2.1 sound.2.2 _ _)⟩
  | noting | recording =>
    cases stepped
    obtain ⟨words, lock⟩ := noteCodeWrite_shared view (request caller) s.shared
    exact ⟨order, inv.quiet words lock phase rfl rfl rfl (fun _ => rfl) sound⟩
  | unlocking =>
    cases stepped
    have held : s.shared.lock = some caller := (inv.holder caller).mp (by rw [phase]; rfl)
    have memory := inv.memory
    rw [held, overlay, phase] at memory
    refine ⟨order, inv.internal (by rw [phase]; rfl) rfl inv.run memory
      ⟨fun holds => (Bool.false_ne_true holds).elim, fun taken => (Option.some_ne_none _ taken.symm).elim⟩ ?_ sound
      (fun _ _ => id) (fun _ => id) fun _ _ _ _ _ => rfl⟩
    intro other differ
    rw [held]
    exact ⟨fun taken => (Option.some_ne_none _ taken.symm).elim, fun same => absurd (Option.some.inj same).symm differ⟩
  | answered | returned => cases stepped

theorem Invariant.step (stepped : s.step view request move = some next)
    (undisturbed : s.Undisturbed request move) :
    ∃ order', Invariant view request m next order' := by
  cases move with
  | call =>
    rw [Slice.step] at stepped
    split at stepped
    case h_1 phase =>
      cases stepped
      exact ⟨order, inv.call phase⟩
    case h_2 => cases stepped
  | work =>
    obtain ⟨after, advanced, rfl⟩ := Option.map_eq_some_iff.mp stepped
    exact inv.work advanced undisturbed
  | ret =>
    rw [Slice.step] at stepped
    split at stepped
    case h_1 answer phase =>
      cases stepped
      exact ⟨order, inv.ret phase⟩
    case h_2 => cases stepped

theorem Invariant.run_kept (ran : s.run view request moves = some final)
    (undisturbed : s.UndisturbedRun view request moves) :
    ∃ order', Invariant view request m final order' := by
  induction moves generalizing s order with
  | nil =>
    cases ran
    exact ⟨order, inv⟩
  | cons move rest ih =>
    obtain ⟨next, stepped, ran⟩ := Option.bind_eq_some_iff.mp ran
    obtain ⟨here, later⟩ := undisturbed
    obtain ⟨order', inv⟩ := inv.step stepped here
    exact ih inv ran (later next stepped)

end

variable [DecidableEq ι]

/-- Undisturbed additions are linearizable: one order explains every answer, respects real
time and leaves the memory that is found when all calls have returned. -/
theorem atomic_fetch_add_linearizable {words : Words} {moves : List (Move ι)} {final : Slice ι}
    (ran : (Slice.start words).run view request moves = some final)
    (undisturbed : (Slice.start words).UndisturbedRun view request moves) :
    ∃ order, Linearization (fun caller => fetchAdd view (request caller)) (bytes words) final.history order ∧
      ((∀ caller, .call caller ∈ final.history → ∃ answer, .ret caller answer ∈ final.history) →
        bytes final.shared.words = (sequential (fun caller => fetchAdd view (request caller)) (bytes words) order).2) := by
  obtain ⟨order, inv⟩ := (Invariant.start words).run_kept ran undisturbed
  exact ⟨order, inv.run.linearization, inv.settled⟩

end Invariant

/-! ## Two callers -/

/-- One mapped page without code. -/
def onePage : GuestSliceMemory := ⟨0x1000, 0x1000, [0], []⟩

/-- A crossing addition to the bytes 6 to 9 and one inside the first word. -/
def twoCallers (inside : FetchAdd) : Bool → FetchAdd
  | true => ⟨6, 1, 4⟩
  | false => inside

/-- The addition inside the word is made between the load and the store of the crossing one. -/
def between : List (Move Bool) :=
  [.call true, .work true false, .work true false, .work true false, .work true false,
    .call false, .work false false, .work false false, .work false false, .work false false, .ret false,
    .work true false, .work true false, .work true false, .work true false, .work true false, .work true false,
    .work true false, .ret true]

instance {ι : Type} [DecidableEq ι] (request : ι → FetchAdd) (s : Slice ι) (move : Move ι) :
    Decidable (s.Undisturbed request move) :=
  match move with
  | .call _ => isTrue trivial
  | .work caller _ =>
    have : Decidable (Clear request s caller) := inferInstanceAs (Decidable (∀ _ ∈ _, ∀ _ ∈ _, _))
    inferInstanceAs (Decidable (_ → _))
  | .ret _ => isTrue trivial

instance undisturbedRunDecidable {ι : Type} [DecidableEq ι] (view : GuestSliceMemory) (request : ι → FetchAdd) :
    (moves : List (Move ι)) → (s : Slice ι) → Decidable (s.UndisturbedRun view request moves)
  | [], _ => isTrue trivial
  | move :: rest, s =>
    have (next : Slice ι) : Decidable (next.UndisturbedRun view request rest) :=
      undisturbedRunDecidable view request rest next
    inferInstanceAs (Decidable (s.Undisturbed request move ∧
      ∀ next ∈ s.step view request move, next.UndisturbedRun view request rest))

/-- Bytes 4 and 5 are not in flight. -/
theorem atomic_fetch_add_linearizable_beside :
    (Slice.start fun _ => 0).UndisturbedRun onePage (twoCallers ⟨4, 1, 2⟩) between ∧
      ∃ final, (Slice.start fun _ => 0).run onePage (twoCallers ⟨4, 1, 2⟩) between = some final ∧
        ∃ order, Linearization (fun caller => fetchAdd onePage (twoCallers ⟨4, 1, 2⟩ caller)) (bytes fun _ => 0)
          final.history order := by
  have undisturbed :
      (Slice.start fun _ => 0).UndisturbedRun onePage (twoCallers ⟨4, 1, 2⟩) between := by decide
  have runs : ((Slice.start fun _ => 0).run onePage (twoCallers ⟨4, 1, 2⟩) between).isSome = true :=
    by decide
  obtain ⟨final, ran⟩ := Option.isSome_iff_exists.mp runs
  obtain ⟨order, linearization, -⟩ := atomic_fetch_add_linearizable ran undisturbed
  exact ⟨undisturbed, final, ran, order, linearization⟩

theorem order_of_two (nodup : order.Nodup) (first : true ∈ order) (second : false ∈ order) :
    order = [true, false] ∨ order = [false, true] := by
  match order with
  | [] => cases first
  | [only] => cases only <;> simp_all
  | [one, two] => cases one <;> cases two <;> simp_all
  | one :: two :: three :: rest => cases one <;> cases two <;> cases three <;> simp_all

/-- Byte 7 is in flight: the crossing addition stores it as it was before the other. -/
theorem atomic_fetch_add_loses_update :
    ∃ final, (Slice.start fun _ => 0).run onePage (twoCallers ⟨7, 1, 1⟩) between = some final ∧
      (∀ caller, ∃ answer, .ret caller answer ∈ final.history) ∧
      ¬ ∃ order, Linearization (fun caller => fetchAdd onePage (twoCallers ⟨7, 1, 1⟩ caller)) (bytes fun _ => 0)
          final.history order ∧
        bytes final.shared.words =
          (sequential (fun caller => fetchAdd onePage (twoCallers ⟨7, 1, 1⟩ caller)) (bytes fun _ => 0) order).2 := by
  have runs : ((Slice.start fun _ => 0).run onePage (twoCallers ⟨7, 1, 1⟩) between).isSome = true :=
    by decide
  obtain ⟨final, ran⟩ := Option.isSome_iff_exists.mp runs
  have history :
      ((Slice.start fun _ => 0).run onePage (twoCallers ⟨7, 1, 1⟩) between).map Slice.history =
      some [.call true, .call false, .ret false (.ok (0, false)), .ret true (.ok (0, false))] := rfl
  have lost : ((Slice.start fun _ => 0).run onePage (twoCallers ⟨7, 1, 1⟩) between).map
      (fun s => bytes s.shared.words 7) = some 0 := by decide
  rw [ran, Option.map_some, Option.some.injEq] at history lost
  have returned (caller : Bool) : .ret caller (.ok (0, false)) ∈ final.history := by
    rw [history]
    cases caller <;> simp
  refine ⟨final, ran, fun caller => ⟨_, returned caller⟩, ?_⟩
  rintro ⟨order, linearization, memory⟩
  have member (caller : Bool) : caller ∈ order :=
    mem_of_result (linearization.returned caller _ (returned caller))
  have kept := congrFun memory 7
  rw [lost] at kept
  rcases order_of_two linearization.nodup (member true) (member false) with rfl | rfl
  · exact absurd kept (by decide)
  · exact absurd kept (by decide)

end Casa.Jit
