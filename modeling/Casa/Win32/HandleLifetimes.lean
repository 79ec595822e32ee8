import Casa.Win32.NamedObjects

/-! Handles over their lifetimes (runtime/handle_table.rs): which values are live, what a
generation that was read once still says, and which handles are protected from close. -/
namespace Casa.Win32.Objects
open Effect OrderedMap Function BitVec HandleTable
open Result (bind_eq_ok require_eq_ok pure_eq)

namespace HandleTable

def handleFlagInherit : U32 := 0x1
def handleFlagProtectFromClose : U32 := 0x2

def inherits (flags : U32) : Bool := flags &&& handleFlagInherit != 0
def protects (flags : U32) : Bool := flags &&& handleFlagProtectFromClose != 0

def handleGeneration (table : HandleTable) (handle : Handle) : Option U32 :=
  (table.entries.lookup handle).map HandleEntry.generation

inductive GenerationFailure where
  | handleStaleOrInvalid (message : String)
  | win32InvalidHandle (message : String)

def validateHandleGeneration (table : HandleTable) (handle : Handle) (expectedGeneration : U32) :
    Result GenerationFailure Unit :=
  match table.handleGeneration handle with
  | some generation =>
    if generation = expectedGeneration then pure ()
    else .error (.handleStaleOrInvalid
      ("handle " ++ toString handle.toNat ++ " generation mismatch — stale reference detected"))
  | none => .error (.win32InvalidHandle ("invalid handle " ++ toString handle.toNat))

def duplicate (table : HandleTable) (sourceHandle : Handle) (accessMask : U32) (inheritable : Bool) :
    Result Failure (Handle × HandleTable) := do
  let source ← table.entry sourceHandle
  pure (table.freeValue, table.insert source.objectId accessMask inheritable)

def withProtection (handles : List Handle) (handle : Handle) (mask flags : U32) : List Handle :=
  if protects mask then
    if protects flags then handle :: handles.filter (· ≠ handle) else handles.filter (· ≠ handle)
  else handles

/-- Only for the inheritance is the entry looked up; the protection is kept by value. -/
def setHandleInformation (table : HandleTable) (handle : Handle) (mask flags : U32) :
    Result Failure HandleTable := do
  let entries ←
    if inherits mask then do
      let _ ← table.entry handle
      pure (modify handle (fun entry => { entry with inheritable := inherits flags }) table.entries)
    else pure table.entries
  pure { table with
    entries
    protectedCloseHandles := withProtection table.protectedCloseHandles handle mask flags }

def Inserted (table next : HandleTable) : Prop :=
  ∃ objectId accessMask inheritable, next = table.insert objectId accessMask inheritable

theorem Inserted.handleGeneration (inserted : Inserted table next) : next.handleGeneration handle =
      if handle = table.freeValue then some ((table.generations.lookup handle).getD 0) else table.handleGeneration handle := by
  obtain ⟨objectId, accessMask, inheritable, rfl⟩ := inserted
  rw [HandleTable.handleGeneration, insert, lookup_insert]
  split
  case isTrue same => rw [same]; rfl
  case isFalse => rfl

theorem Inserted.values (inserted : Inserted table next) :
    (table.closedHandleValues = [] ∧ table.freeValue = table.nextHandle ∧
      next.closedHandleValues = [] ∧
      next.nextHandle = Win32.Subsystem.saturatingNext table.nextHandle) ∨
    (table.closedHandleValues = table.freeValue :: next.closedHandleValues ∧
      next.nextHandle = table.nextHandle) := by
  obtain ⟨objectId, accessMask, inheritable, rfl⟩ := inserted
  rw [insert, freeValue]
  cases table.closedHandleValues <;> simp

theorem Inserted.rest (inserted : Inserted table next) :
    next.generations = table.generations ∧
      next.protectedCloseHandles = table.protectedCloseHandles := by
  obtain ⟨objectId, accessMask, inheritable, rfl⟩ := inserted
  exact ⟨rfl, rfl⟩

theorem handleGeneration_forget (table : HandleTable) :
    (table.forget handle).handleGeneration other = if other = handle then none
      else table.handleGeneration other := by
  rw [handleGeneration, forget, lookup_erase]
  split <;> rfl

theorem setHandleInformation_eq_ok (done : setHandleInformation table handle mask flags = .ok next) :
    (inherits mask → (table.handleGeneration handle).isSome) ∧
      next.handleGeneration = table.handleGeneration ∧ ∃ entries, next = { table with
        entries
        protectedCloseHandles := withProtection table.protectedCloseHandles handle mask flags } := by
  rw [setHandleInformation] at done
  split at done
  case isTrue inherit =>
    simp only [bind_eq_ok, entry, require_eq_ok, pure_eq, Result.ok.injEq] at done
    obtain ⟨entry, found, _, rfl, rfl⟩ := done
    refine ⟨fun _ => by simp [handleGeneration, found], funext fun other => ?_, _, rfl⟩
    rw [handleGeneration, lookup_modify]
    split
    case isTrue same => subst same; simp [handleGeneration, found]
    case isFalse => rfl
  case isFalse inherit =>
    obtain rfl := Result.ok.inj done
    exact ⟨fun asked => absurd asked inherit, rfl, _, rfl⟩

theorem mem_withProtection : other ∈ withProtection handles handle mask flags ↔
    if protects mask ∧ other = handle then protects flags = true else other ∈ handles := by
  by_cases same : other =
    handle <;> cases asked : protects mask <;> cases turns : protects flags <;>
    simp [withProtection, asked, turns, same]

end HandleTable

open HandleTable

inductive HandleCall where
  | insert (objectId : ObjectId) (accessMask : U32) (inheritable : Bool)
  | duplicate (sourceHandle : Handle) (accessMask : U32) (inheritable : Bool)
  | close (handle : Handle) (objectType : ObjectType)
  | closeRaw (handle : Handle)
  | setInformation (handle : Handle) (mask flags : U32)
  | recordHistory (handle : Handle) (objectType : ObjectType)

/-- The table with the handles that were given out and not closed, how often each value was closed,
and the last change of its protection since it was given out. -/
structure HandleTrace where
  table : HandleTable
  held : List Handle
  closes : Handle → Nat
  turned : Handle → Bool

namespace HandleTrace

def new : HandleTrace := ⟨.new, [], fun _ => 0, fun _ => false⟩

def gave (t : HandleTrace) (given : Handle × HandleTable) : HandleTrace :=
  ⟨given.2, given.1 :: t.held, t.closes, update t.turned given.1 false⟩

def took (t : HandleTrace) (handle : Handle) (closed : HandleEntry × HandleTable) : HandleTrace :=
  ⟨closed.2, t.held.erase handle, update t.closes handle (t.closes handle + 1), t.turned⟩

def changed (t : HandleTrace) (handle : Handle) (mask flags : U32) (table : HandleTable) :
    HandleTrace :=
  ⟨table, t.held, t.closes, if protects mask then update t.turned handle (protects flags)
    else t.turned⟩

/-- A call that fails changes nothing. -/
def settle (t : HandleTrace) (result : Result Failure α) (next : α → HandleTrace) : HandleTrace :=
  match result with
  | .ok value => next value
  | _ => t

def step (t : HandleTrace) : HandleCall → HandleTrace
  | .insert objectId accessMask inheritable =>
    t.gave (t.table.freeValue, t.table.insert objectId accessMask inheritable)
  | .duplicate sourceHandle accessMask inheritable =>
    t.settle (t.table.duplicate sourceHandle accessMask inheritable) t.gave
  | .close handle objectType => t.settle (t.table.close handle objectType) (t.took handle)
  | .closeRaw handle => t.settle (t.table.closeRaw handle) (t.took handle)
  | .setInformation handle mask flags =>
    t.settle (t.table.setHandleInformation handle mask flags) (t.changed handle mask flags)
  | .recordHistory handle objectType => { t with table := t.table.recordHistory handle objectType }

def run (calls : List HandleCall) : HandleTrace := calls.foldl step new

/-- Whether a call gives a handle out. -/
def allocates (t : HandleTrace) : HandleCall → Bool
  | .insert _ _ _ => true
  | .duplicate sourceHandle _ _ => (t.table.handleGeneration sourceHandle).isSome
  | _ => false

theorem settle_cases (t : HandleTrace) :
    t.settle result next = t ∨ ∃ value, result = .ok value ∧ t.settle result next = next value := by
  cases result with
  | ok value => exact .inr ⟨value, rfl, rfl⟩
  | error | panic => exact .inl rfl

theorem step_cases (t : HandleTrace) (call : HandleCall) :
    t.step call = t ∨
    (t.allocates call ∧ ∃ next, t.table.Inserted next ∧
      t.step call = t.gave (t.table.freeValue, next)) ∨
    (∃ handle entry, t.table.entries.lookup handle = some entry ∧
      t.step call = t.took handle (entry, t.table.forget handle)) ∨
    (∃ handle mask flags table, call = .setInformation handle mask flags ∧
      t.table.setHandleInformation handle mask flags = .ok table ∧ t.step call = t.changed handle mask flags table) ∨
    ∃ handle objectType,
      t.step call = { t with table := t.table.recordHistory handle objectType } := by
  cases call
  case insert objectId accessMask inheritable =>
    exact .inr (.inl ⟨rfl, _, ⟨objectId, accessMask, inheritable, rfl⟩, rfl⟩)
  case recordHistory handle objectType => exact .inr (.inr (.inr (.inr ⟨handle, objectType, rfl⟩)))
  -- the others can fail
  all_goals refine t.settle_cases.imp_right ?_
  case duplicate sourceHandle accessMask inheritable =>
    rintro ⟨_, given, next⟩
    simp only [duplicate, entry, bind_eq_ok, require_eq_ok, pure_eq, Result.ok.injEq] at given
    obtain ⟨source, found, rfl⟩ := given
    exact .inl ⟨by simp [allocates, handleGeneration, found], _, ⟨source.objectId, accessMask, inheritable, rfl⟩, next⟩
  case close handle _ =>
    rintro ⟨_, closed, next⟩
    simp only [close, bind_eq_ok, require_eq_ok, pure_eq, Result.ok.injEq] at closed
    obtain ⟨-, -, -, -, entry, found, rfl⟩ := closed
    exact .inr (.inl ⟨handle, entry, found, next⟩)
  case closeRaw handle =>
    rintro ⟨_, closed, next⟩
    simp only [closeRaw, bind_eq_ok, require_eq_ok, pure_eq, Result.ok.injEq] at closed
    obtain ⟨-, -, entry, found, rfl⟩ := closed
    exact .inr (.inl ⟨handle, entry, found, next⟩)
  case setInformation handle mask flags =>
    rintro ⟨table, done, next⟩
    exact .inr (.inr (.inl ⟨handle, mask, flags, table, rfl, done, next⟩))

/-- Every value that was given out is held or waits for reuse, and the held ones are the live ones. -/
structure Kept (t : HandleTrace) : Prop where
  live : ∀ handle, handle ∈ t.held ↔ (t.table.handleGeneration handle).isSome = true
  distinct : (t.held ++ t.table.closedHandleValues).Nodup
  below : ∀ handle ∈ t.held ++ t.table.closedHandleValues, handle.toNat < t.table.nextHandle.toNat

namespace Kept

theorem start : Kept new := by
  constructor <;> simp [new, HandleTable.new, handleGeneration]

theorem fresh (kept : Kept t) (inserted : t.table.Inserted next) : t.table.freeValue ∉ t.held := by
  intro held
  rcases inserted.values with ⟨_, first, _⟩ | ⟨waiting, _⟩
  · rw [first] at held
    exact Nat.lt_irrefl _ (kept.below _ (List.mem_append_left _ held))
  · exact (List.nodup_append.mp kept.distinct).2.2 _ held _ (by rw [waiting]; exact List.mem_cons_self) rfl

theorem gave (kept : Kept t) (inserted : t.table.Inserted next)
    (left : t.table.closedHandleValues ≠ [] ∨ t.table.nextHandle ≠ allOnes 32) :
    Kept (t.gave (t.table.freeValue, next)) := by
  have fresh := kept.fresh inserted
  obtain ⟨live, distinct, below⟩ := kept
  have live (handle : Handle) : handle ∈ t.table.freeValue :: t.held ↔
      (next.handleGeneration handle).isSome := by
    by_cases same : handle = t.table.freeValue <;> simp [inserted.handleGeneration, same, live]
  rcases inserted.values with ⟨empty, first, none, cursor⟩ | ⟨waiting, cursor⟩
  · have more := saturatingNext_gt (left.resolve_left (not_not_intro empty))
    simp only [empty, List.append_nil] at distinct below
    refine ⟨live, ?_, ?_⟩
    · simpa [HandleTrace.gave, none] using ⟨fresh, distinct⟩
    · simpa [HandleTrace.gave, none, cursor, first, more] using fun handle member => (below handle member).trans more
  · rw [waiting] at distinct below
    refine ⟨live, List.perm_middle.nodup_iff.mp distinct, fun handle member => ?_⟩
    rw [HandleTrace.gave, cursor]
    exact below handle (List.perm_middle.mem_iff.mpr member)

theorem values (kept : Kept t) (found : t.table.entries.lookup handle = some gone) :
    (t.held.erase handle ++ (t.table.closedHandleValues ++ [handle])).Perm (t.held ++ t.table.closedHandleValues) := by
  have held : handle ∈ t.held := (kept.live handle).mpr (by simp [handleGeneration, found])
  rw [← List.append_assoc]
  exact (List.perm_append_singleton _ _).trans ((List.perm_cons_erase held).symm.append_right _)

theorem took (kept : Kept t) (found : t.table.entries.lookup handle = some gone) :
    Kept (t.took handle (gone, t.table.forget handle)) := by
  have moved := kept.values found
  refine ⟨fun other => ?_, moved.nodup_iff.mpr kept.distinct,
    fun other member => kept.below other (moved.mem_iff.mp member)⟩
  have distinct := (List.nodup_append.mp kept.distinct).1
  rw [HandleTrace.took, handleGeneration_forget, distinct.mem_erase_iff, kept.live]
  by_cases same : other = handle <;> simp [same]

theorem changed (kept : Kept t) (done : t.table.setHandleInformation handle mask flags = .ok next) :
    Kept (t.changed handle mask flags next) := by
  obtain ⟨-, same, entries, rfl⟩ := setHandleInformation_eq_ok done
  exact ⟨fun other => by rw [HandleTrace.changed, same]; exact kept.live other, kept.distinct,
    kept.below⟩

end Kept

/-! ## Protection -/

/-- A call that gives a handle out has a value left, and only live handles are to be protected. -/
structure Attended (t : HandleTrace) (call : HandleCall) : Prop where
  left : t.allocates call = true → t.table.closedHandleValues ≠ [] ∨ t.table.nextHandle ≠ allOnes 32
  alive : ∀ handle mask flags, call = .setInformation handle mask flags → inherits mask = false →
    protects mask = true → protects flags = true → handle ∈ t.held

structure Guarded (t : HandleTrace) : Prop extends Kept t where
  guarded : ∀ handle, handle ∈ t.table.protectedCloseHandles ↔
    handle ∈ t.held ∧ t.turned handle = true

theorem Guarded.changed (guarded : Guarded t)
    (done : t.table.setHandleInformation handle mask flags = .ok next)
    (attended : Attended t (.setInformation handle mask flags)) :
    Guarded (t.changed handle mask flags next) := by
  refine ⟨guarded.toKept.changed done, fun other => ?_⟩
  obtain ⟨inherit, -, entries, rfl⟩ := setHandleInformation_eq_ok done
  rw [← guarded.live] at inherit
  simp only [HandleTrace.changed, mem_withProtection, guarded.guarded other]
  cases asked : protects mask with
  | false => simp
  | true =>
    by_cases same : other = handle
    · subst same
      have held (turns : protects flags) : other ∈ t.held := by
        cases inherited : inherits mask with
        | false => exact attended.alive other mask flags rfl inherited asked turns
        | true => exact inherit inherited
      simpa using held
    · simp [same]

theorem Guarded.step (guarded : Guarded t) (attended : Attended t call) :
    Guarded (t.step call) := by
  rcases t.step_cases call with same | ⟨allocates, next, inserted, gives⟩ | ⟨handle, entry, found, takes⟩ |
    ⟨handle, mask, flags, next, rfl, done, changes⟩ | ⟨handle, objectType, records⟩
  · rwa [same]
  · rw [gives]
    refine ⟨guarded.toKept.gave inserted (attended.left allocates), fun handle => ?_⟩
    have before := guarded.guarded handle
    rw [HandleTrace.gave, inserted.rest.2]
    by_cases same : handle = t.table.freeValue
    · subst same
      simpa [guarded.fresh inserted] using before
    · simpa [same] using before
  · have distinct := (List.nodup_append.mp guarded.distinct).1
    rw [takes]
    refine ⟨guarded.toKept.took found, fun other => ?_⟩
    rw [HandleTrace.took, forget, List.mem_filter, distinct.mem_erase_iff, guarded.guarded other,
      decide_eq_true_eq, and_right_comm, and_comm (a := other ∈ t.held)]
  · rw [changes]
    exact guarded.changed done attended
  · rw [records]
    exact ⟨⟨guarded.live, guarded.distinct, guarded.below⟩, guarded.guarded⟩

/-- A held handle is protected as its last change since it was given out says; one just given out is not. -/
theorem protected_iff_turned (along : Along step Attended new calls) :
    ∀ taken, taken <+: calls → ∀ handle ∈ (run taken).held,
    (handle ∈ (run taken).table.protectedCloseHandles ↔ (run taken).turned handle = true) := by
  intro taken within handle held
  have start : Guarded new := ⟨.start, fun handle => by simp [new, HandleTable.new]⟩
  have guarded : Guarded (run taken) :=
    along.invariant start (fun _ _ guarded attended => guarded.step attended) taken within
  simp [guarded.guarded, held]

theorem protected_iff_turned_one :
    4 ∈ (run [.insert 1 0 false, .setInformation 4 2 2]).table.protectedCloseHandles ↔
      (run [.insert 1 0 false, .setInformation 4 2 2]).turned 4 = true := by
  have along : Along step Attended new [.insert 1 0 false, .setInformation 4 2 2] := by
    refine ⟨⟨fun _ => .inr (by decide), by simp⟩, ⟨by simp [allocates], ?_⟩, trivial⟩
    simp [step, gave, new, HandleTable.new, freeValue]
  exact protected_iff_turned along _ List.prefix_rfl 4 (by decide)

theorem protected_before_given : ∃ calls, ∃ handle ∈ (run calls).held,
    ¬(handle ∈ (run calls).table.protectedCloseHandles ↔ (run calls).turned handle = true) :=
  ⟨[.setInformation 4 2 2, .insert 1 0 false], 4, by decide⟩

/-! ## Generations -/

/-- How many handles may be open at once, and how often a value may be closed. -/
def Modest (t : HandleTrace) : Prop :=
  t.held.length < 2 ^ 30 ∧ ∀ handle, t.closes handle < 2 ^ 32 - 1

/-- The cursor counts the values, and the generations count the closes. -/
structure Counted (t : HandleTrace) : Prop extends Kept t where
  cursor : t.table.nextHandle.toNat =
    min (4 * ((t.held ++ t.table.closedHandleValues).length + 1)) (2 ^ 32 - 1)
  bumped : ∀ handle, ((t.table.generations.lookup handle).getD 0).toNat = t.closes handle
  current : ∀ handle generation, t.table.handleGeneration handle = some generation →
    generation.toNat = t.closes handle

theorem Counted.gave (counted : Counted t) (inserted : t.table.Inserted next)
    (few : t.held.length + 1 < 2 ^ 30) : Counted (t.gave (t.table.freeValue, next)) := by
  have cursor := counted.cursor
  refine ⟨counted.toKept.gave inserted ?_, ?_, ?_, fun handle generation => ?_⟩
  · by_cases empty : t.table.closedHandleValues = []
    · refine .inr fun last => ?_
      simp only [empty, last, List.append_nil, toNat_allOnes] at cursor
      omega
    · exact .inl empty
  · rcases inserted.values with ⟨empty, _, none, next⟩ | ⟨waiting, next⟩
    · have size : (allOnes 32).toNat = 2 ^ 32 - 1 := toNat_allOnes
      simp only [empty, List.append_nil] at cursor
      simp only [HandleTrace.gave, none, next, List.append_nil, List.length_cons, Win32.Subsystem.saturatingNext]
      split <;> bv_omega
    · simp only [waiting] at cursor
      simp only [HandleTrace.gave, next, cursor, List.length_append, List.length_cons]
      omega
  · rw [HandleTrace.gave, inserted.rest.1]
    exact counted.bumped
  · rw [HandleTrace.gave, inserted.handleGeneration]
    split
    case isTrue =>
      rintro ⟨⟩
      exact counted.bumped handle
    case isFalse => exact counted.current handle generation

theorem Counted.took (counted : Counted t) (found : t.table.entries.lookup handle = some gone)
    (few : t.closes handle + 1 < 2 ^ 32 - 1) :
    Counted (t.took handle (gone, t.table.forget handle)) := by
  refine ⟨counted.toKept.took found, ?_, fun other => ?_, fun other generation => ?_⟩
  · rw [HandleTrace.took, forget, (counted.values found).length_eq]
    exact counted.cursor
  · have bumped := counted.bumped other
    rw [HandleTrace.took, forget, lookup_insert]
    split
    case isTrue same =>
      subst same
      have size : (allOnes 32).toNat = 2 ^ 32 - 1 := toNat_allOnes
      simp only [Option.getD_some, update_self, saturatingSucc]
      split <;> bv_omega
    case isFalse differs => simpa [differs] using bumped
  · rw [HandleTrace.took, handleGeneration_forget]
    split
    case isTrue => rintro ⟨⟩
    case isFalse differs => simpa [differs] using counted.current other generation

theorem Counted.step (counted : Counted t) (modest : Modest (t.step call)) :
    Counted (t.step call) := by
  rcases t.step_cases call with same | ⟨-, next, inserted, gives⟩ | ⟨handle, entry, found, takes⟩ |
    ⟨handle, mask, flags, next, rfl, done, changes⟩ | ⟨handle, objectType, records⟩
  · rwa [same]
  · rw [gives] at modest ⊢
    exact counted.gave inserted modest.1
  · rw [takes] at modest ⊢
    exact counted.took found (by simpa [HandleTrace.took] using modest.2 handle)
  · rw [changes]
    have kept := counted.toKept.changed done
    obtain ⟨-, same, entries, rfl⟩ := setHandleInformation_eq_ok done
    exact ⟨kept, counted.cursor, counted.bumped, same ▸ counted.current⟩
  · rw [records]
    exact ⟨⟨counted.live, counted.distinct, counted.below⟩, counted.cursor, counted.bumped, counted.current⟩

/-- Until its value is closed once more, a live handle stays live. -/
def LiveSince (s : HandleTrace) (handle : Handle) (t : HandleTrace) : Prop :=
  s.closes handle ≤ t.closes handle ∧
    (t.closes handle = s.closes handle → (t.table.handleGeneration handle).isSome = true)

theorem LiveSince.step (since : LiveSince s handle t) : LiveSince s handle (t.step call) := by
  rcases t.step_cases call with same | ⟨-, next, inserted, gives⟩ | ⟨other, entry, -, takes⟩ |
    ⟨other, mask, flags, next, rfl, done, changes⟩ | ⟨other, objectType, records⟩
  · rwa [same]
  · rw [gives]
    refine ⟨since.1, fun same => ?_⟩
    rw [gave, inserted.handleGeneration]
    split
    case isTrue => rfl
    case isFalse => exact since.2 same
  · rw [takes, LiveSince, took, handleGeneration_forget]
    by_cases same : handle = other
    · have later := since.1
      subst same
      simp only [update_self]
      omega
    · simpa [LiveSince, same] using since
  · rw [changes]
    obtain ⟨-, same, entries, rfl⟩ := setHandleInformation_eq_ok done
    rwa [LiveSince, changed, same]
  · rwa [records]

/-- A generation that was read from a live handle is accepted as long as its value was not closed since. -/
theorem validate_iff_not_closed_since
    (along : Along step (fun t call => Modest (t.step call)) new (before ++ after)) :
    (run (before ++ after)).held.Nodup ∧
      (∀ handle, handle ∈ (run (before ++ after)).held ↔ ((run (before ++ after)).table.handleGeneration handle).isSome = true) ∧
      ∀ handle generation, (run before).table.handleGeneration handle = some generation →
        ((run (before ++ after)).table.validateHandleGeneration handle generation = .ok () ↔
          (run (before ++ after)).closes handle = (run before).closes handle) := by
  have start : Counted new := ⟨.start, by decide, fun _ => rfl, fun _ _ none => by cases none⟩
  have counted := along.invariant start fun _ _ counted modest => counted.step modest
  have now : Counted (run (before ++ after)) := counted _ List.prefix_rfl
  refine ⟨(List.nodup_append.mp now.distinct).1, now.live, fun handle generation read => ?_⟩
  have then_ := (counted before (List.prefix_append _ _)).current handle generation read
  have since : LiveSince (run before) handle (run (before ++ after)) := by
    rw [run, run, List.foldl_append]
    exact List.foldlRecOn after step ⟨le_rfl, fun _ => by rw [← run, read]; rfl⟩ fun _ since _ _ =>
      since.step
  rw [← run] at then_
  rw [validateHandleGeneration]
  split
  case h_1 found =>
    have same := now.current handle _ found
    split
    case isTrue equal => simp [← same, ← then_, equal]
    case isFalse differs =>
      rw [← same, ← then_, toNat_inj]
      simp [differs]
  case h_2 gone => simpa [gone] using since.2

/-- A value that was closed and given out again does not accept the generation it had before. -/
theorem validate_iff_not_closed_since_reused :
    let reused := [.insert 1 0 false, .closeRaw 4, .insert 2 0 false]
    (run reused).table.handleGeneration 4 = some 1 ∧
      ((run reused).table.validateHandleGeneration 4 0 = .ok () ↔
        (run reused).closes 4 = (run [.insert 1 0 false]).closes 4) := by
  have few (handle : Handle) : update (fun _ => 0) (4 : Handle) 1 handle < 2 ^ 32 - 1 := by
    rw [update_apply]
    split <;> decide
  have along : Along step (fun t call => Modest (t.step call)) new
      ([.insert 1 0 false] ++ [.closeRaw 4, .insert 2 0 false]) :=
    ⟨⟨by decide, fun _ => Nat.zero_lt_succ _⟩, ⟨by decide, few⟩, ⟨by decide, few⟩, trivial⟩
  exact ⟨rfl, (validate_iff_not_closed_since along).2.2 4 0 rfl⟩

end HandleTrace

end Casa.Win32.Objects
