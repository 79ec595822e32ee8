import Casa.Win32.NamedObjects

/-! What a name resolves to over every sequence of calls of the object manager
(runtime/object_manager.rs). -/
namespace Casa.Win32.Objects
open Effect OrderedMap Function

inductive ManagerCall where
  | insert (name : Option Name) (object : KernelObject)
  | handleAdded (id : ObjectId)
  | handleRemoved (id : ObjectId)

/-- The manager with the object that was registered last under each name. -/
structure NameTrace where
  manager : ObjectManager
  last : Name → Option ObjectId

namespace NameTrace

def new : NameTrace := ⟨.new, fun _ => none⟩

def step (t : NameTrace) : ManagerCall → NameTrace
  | .insert name object => ⟨t.manager.insert name object,
      (name.map canonicalObjectName).elim t.last fun name => update t.last name t.manager.nextObjectId⟩
  | .handleAdded id => { t with manager := t.manager.handleAdded id }
  | .handleRemoved id => { t with manager := t.manager.handleRemoved id }

def run (calls : List ManagerCall) : NameTrace := calls.foldl step new

def Live (t : NameTrace) (id : ObjectId) : Prop :=
  ∃ record, t.manager.objects.lookup id = some record

/-- What a name resolves to is live and has the name. -/
structure Owned (t : NameTrace) : Prop where
  owned : ∀ name id, t.manager.names.lookup name = some id →
    ∃ record, t.manager.objects.lookup id = some record ∧ record.name = some name
  below : ∀ name id, t.Live id ∨ t.last name = some id → id < t.manager.nextObjectId

structure Sound (t : NameTrace) : Prop extends Owned t where
  last : ∀ name id, t.last name = some id → t.Live id → t.manager.names.lookup name = some id

/-- What resolves by the name of the object is the object. -/
def Own (t : NameTrace) (id : ObjectId) : Prop :=
  ∀ record name owner, t.manager.objects.lookup id = some record →
  record.name = some name → t.manager.names.lookup name = some owner → owner = id

/-- An object whose last handle goes has its name to itself. -/
def Unshadowed (t : NameTrace) : ManagerCall → Prop
  | .handleRemoved id => (t.manager.handleCount id).toNat ≤ 1 → t.Own id
  | _ => True

theorem lookup_eq (names : List (Name × ObjectId)) (name : Name) :
    names.lookup name = @List.lookup Name ObjectId instBEqOfDecidableEq name names := by
  congr 1
  exact lawful_beq_subsingleton _ _

section Insert
variable {t : NameTrace}

theorem insert_names (name : Name) : (t.step (.insert given object)).manager.names.lookup name =
    if given.map canonicalObjectName = some name then some t.manager.nextObjectId
    else t.manager.names.lookup name := by
  cases given <;> simp [NameTrace.step, ObjectManager.insert, lookup_eq, lookup_insert, eq_comm]

theorem insert_last (name : Name) : (t.step (.insert given object)).last name =
    if given.map canonicalObjectName = some name then some t.manager.nextObjectId
      else t.last name := by
  cases given <;> simp [NameTrace.step, update_apply, eq_comm]

theorem insert_objects (id : ObjectId) : (t.step (.insert given object)).manager.objects.lookup id =
    if id = t.manager.nextObjectId then some ⟨object, given.map canonicalObjectName⟩
    else t.manager.objects.lookup id :=
  lookup_insert _

theorem Owned.insert (owned : Owned t) : Owned (t.step (.insert given object)) := by
  refine ⟨fun name id found => ?_, fun name id old => ?_⟩
  · rw [insert_names] at found
    rw [insert_objects]
    split at found
    case isTrue same =>
      cases found
      exact ⟨_, if_pos rfl, same⟩
    case isFalse =>
      obtain ⟨record, there, named⟩ := owned.owned name id found
      exact ⟨record, by rw [if_neg (owned.below name id (.inl ⟨record, there⟩)).ne, there], named⟩
  · have below := owned.below name id
    rw [Live, insert_objects, insert_last] at old
    by_cases new : id = t.manager.nextObjectId
    · exact new ▸ Nat.lt_succ_self _
    · rw [if_neg new] at old
      refine Nat.lt_succ_of_lt (below (old.imp_right fun made => ?_))
      split at made
      case isTrue => exact absurd (Option.some.inj made).symm new
      case isFalse => exact made

theorem Sound.insert (sound : Sound t) : Sound (t.step (.insert given object)) := by
  refine ⟨sound.toOwned.insert, fun name id made live => ?_⟩
  rw [insert_last] at made
  rw [insert_names]
  split at made
  case isTrue same => rw [if_pos same, made]
  case isFalse differs =>
    rw [Live, insert_objects, if_neg (sound.below name id (.inr made)).ne] at live
    rw [if_neg differs, sound.last name id made live]

end Insert

section Drop
variable {t : NameTrace} {gone id : ObjectId}

theorem drop_names (name : Name) : (t.manager.drop gone).names.lookup name =
    if (t.manager.objects.lookup gone).bind ObjectRecord.name = some name then none
    else t.manager.names.lookup name := by
  rw [ObjectManager.drop]
  cases (t.manager.objects.lookup gone).bind ObjectRecord.name <;> simp [lookup_eq, lookup_erase,
    eq_comm]

theorem live_of_drop (live : Live { t with manager := t.manager.drop gone } id) :
    id ≠ gone ∧ t.Live id := by
  obtain ⟨record, there⟩ := live
  obtain ⟨differs, there⟩ := lookup_of_erase there
  exact ⟨differs, record, there⟩

theorem Owned.drop (owned : Owned t) : Owned { t with manager := t.manager.drop gone } := by
  refine ⟨fun name id found => ?_, fun name id old => ?_⟩
  · rw [drop_names] at found
    split at found
    case isTrue => cases found
    case isFalse differs =>
      obtain ⟨record, there, named⟩ := owned.owned name id found
      refine ⟨record, ?_, named⟩
      rw [ObjectManager.drop, lookup_erase, if_neg, there]
      rintro rfl
      exact differs (by rw [there]; exact named)
  · exact owned.below name id (old.imp_left fun live => (live_of_drop live).2)

theorem Sound.drop (sound : Sound t) (own : t.Own gone) :
    Sound { t with manager := t.manager.drop gone } := by
  refine ⟨sound.toOwned.drop, fun name id made live => ?_⟩
  obtain ⟨differs, live⟩ := live_of_drop live
  have found := sound.last name id made live
  rw [drop_names, if_neg, found]
  intro named
  obtain ⟨record, there, named⟩ := Option.bind_eq_some_iff.mp named
  exact differs (own record name id there named found)

end Drop

theorem Owned.step (owned : Owned t) : Owned (t.step call) := by
  cases call with
  | insert => exact owned.insert
  | handleAdded id => exact ⟨owned.owned, owned.below⟩
  | handleRemoved id =>
    rw [NameTrace.step, ObjectManager.handleRemoved]
    split
    case isTrue => exact ⟨owned.owned, owned.below⟩
    case isFalse => exact owned.drop

theorem Sound.step (sound : Sound t) (unshadowed : Unshadowed t call) : Sound (t.step call) := by
  cases call with
  | insert => exact sound.insert
  | handleAdded id => exact { sound with }
  | handleRemoved id =>
    rw [NameTrace.step, ObjectManager.handleRemoved]
    split
    case isTrue => exact { sound with }
    case isFalse few => exact sound.drop (unshadowed (Nat.le_of_not_lt few))

/-- No name resolves to a dead object; and if no removal takes the name of another, a live object
that was registered last under a name resolves by it. -/
theorem resolves_while_live (calls : List ManagerCall) :
    (∀ name id, (run calls).manager.resolve name = some id → (run calls).Live id) ∧
    (Along step Unshadowed new calls → ∀ taken, taken <+: calls → ∀ name id,
      (run taken).last (canonicalObjectName name) = some id → (run taken).Live id →
        (run taken).manager.resolve name = some id) := by
  have start : Sound new := ⟨by constructor <;> simp [new, ObjectManager.new, Live], by simp [new]⟩
  constructor
  · intro name id found
    have owned : Owned (run calls) :=
      List.foldlRecOn calls step start.toOwned fun _ owned _ _ => owned.step
    exact (owned.owned _ id found).imp fun _ there => there.1
  · intro along taken within name id
    have sound : Sound (run taken) :=
      along.invariant start (fun _ _ sound unshadowed => sound.step unshadowed) taken within
    exact sound.last _ id

/-- A name registered again while its object lives, and after it has died. -/
def reusedName : List ManagerCall :=
  [.insert (some ['n']) .key, .handleAdded 1, .insert (some ['m']) .timer, .handleAdded 2,
    .insert (some ['n']) .timer,
    .handleAdded 3, .handleRemoved 3, .insert (some ['n']) .key, .handleAdded 4, .handleRemoved 2]

theorem resolves_while_live_reused : (run reusedName).manager.resolve ['n'] = some 4 := by
  have own {t : NameTrace} {id : ObjectId} {record : ObjectRecord} {name : Name}
      (there : t.manager.objects.lookup id = some record) (named : record.name = some name)
      (found : t.manager.names.lookup name = some id) : t.Own id := by
    intro other again owner same renamed resolved
    cases there.symm.trans same
    cases named.symm.trans renamed
    exact Option.some.inj (resolved.symm.trans found)
  have along : Along step Unshadowed new reusedName :=
    ⟨trivial, trivial, trivial, trivial, trivial, trivial, fun _ => own rfl rfl rfl, trivial, trivial,
      fun _ => own rfl rfl rfl, trivial⟩
  exact (resolves_while_live reusedName).2 along _ List.prefix_rfl ['n'] 4 rfl ⟨_, rfl⟩

theorem unresolved_while_live : ∃ calls name id,
    (run calls).last (canonicalObjectName name) = some id ∧ (run calls).Live id ∧
      (run calls).manager.resolve name = none :=
  ⟨[.insert (some ['n']) .key, .insert (some ['n']) .timer, .handleRemoved 1], ['n'], 2, rfl,
    ⟨_, rfl⟩, rfl⟩

end NameTrace

end Casa.Win32.Objects
