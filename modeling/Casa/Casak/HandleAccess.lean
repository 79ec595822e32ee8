import Casa.Casak.Object

/-! Access masks of CasaK handles. Every mask in a handle table is free of generic bits,
so expanding it again changes nothing, and a duplicate is covered by its source. -/
namespace Casa.Casak.Object
open Effect OrderedMap Exec.Relates

/-! ## Masks -/

def generic : U32 := genericRead ||| genericWrite ||| genericAll

def Within (access limit : U32) : Prop := limit &&& access = access

theorem Within.refl : Within access access := BitVec.and_self

theorem Within.trans (first : Within access middle) (second : Within middle limit) :
    Within access limit := by
  rw [Within] at *
  rw [← first, ← BitVec.and_assoc, second]

theorem specific_free :
    specificRead kind &&& generic = 0 ∧ specificWrite kind &&& generic = 0 ∧
      specificAll kind &&& generic = 0 := by
  cases kind <;> decide

theorem or_free (left : a &&& generic = 0) (right : b &&& generic = 0) :
    (a ||| b) &&& generic = 0 := by
  rw [BitVec.and_comm, BitVec.and_or_distrib_left, BitVec.and_comm, left, BitVec.and_comm, right]
  rfl

/-- No generic bit survives the expansion. -/
theorem mapGenericAccess_free : mapGenericAccess kind access &&& generic = 0 := by
  obtain ⟨read, write, all⟩ := specific_free
  have cleared : access &&& ~~~(genericRead ||| genericWrite ||| genericAll) &&& generic = 0 := by
    rw [BitVec.and_assoc]
    exact (congrArg (access &&& ·) (BitVec.and_not_self generic)).trans BitVec.and_zero
  rw [mapGenericAccess]
  split
  · exact or_free cleared all
  · dsimp only
    have expanded : (if access &&& genericRead ≠ 0
        then access &&& ~~~(genericRead ||| genericWrite ||| genericAll) ||| specificRead kind
        else access &&& ~~~(genericRead ||| genericWrite ||| genericAll)) &&& generic = 0 := by
      split
      · exact or_free cleared read
      · exact cleared
    split
    · exact or_free expanded write
    · exact expanded

theorem mapGenericAccess_of_free (free : access &&& generic = 0) (kind : ObjectType) :
    mapGenericAccess kind access = access := by
  have part (mask : U32) (inside : generic &&& mask = mask) : ¬ access &&& mask ≠ 0 := by
    rw [not_not, ← inside, ← BitVec.and_assoc, free]
    exact BitVec.zero_and
  have kept : access &&& ~~~generic = access := by
    have parts : access &&& ~~~generic ||| access &&& generic = access := by
      rw [← BitVec.and_or_distrib_left, BitVec.or_comm, BitVec.or_not_self, BitVec.and_allOnes]
    rw [free] at parts
    exact BitVec.or_zero.symm.trans parts
  rw [mapGenericAccess, if_neg (part genericAll (by decide)), if_neg (part genericRead (by decide)),
    if_neg (part genericWrite (by decide))]
  exact kept

theorem within_of_accessGranted (free : access &&& generic = 0)
    (covered : accessGranted granted access kind) : Within access granted := by
  simp only [accessGranted, mapGenericAccess_of_free free, Bool.or_eq_true, beq_iff_eq] at covered
  rcases covered with none | covered
  · rw [none]
    exact BitVec.and_zero
  · exact covered

/-! ## Tables as the operations keep them -/

structure TableKept (table : ProcessHandleTable) : Prop where
  ascending : Ascending table.handles
  keyed : ∀ entry ∈ table.handles, entry.2.handle = entry.1
  free : ∀ entry ∈ table.handles, entry.2.access &&& generic = 0

structure WellKept (m : ObjectManager) : Prop where
  objects : Ascending m.objects
  processes : Ascending m.processes
  tables : ∀ entry ∈ m.processes, TableKept entry.2

theorem TableKept.new : TableKept .new :=
  ⟨List.Pairwise.nil, fun _ member => absurd member List.not_mem_nil,
    fun _ member => absurd member List.not_mem_nil⟩

section Updates
variable (text : Text)

variable (kept : WellKept m)
include kept

theorem WellKept.table (process : U32) : TableKept (m.table process) := by
  rw [ObjectManager.table]
  cases found : m.processes.lookup process with
  | none => exact .new
  | some => exact kept.tables _ (mem_of_lookup found)

theorem register_wellKept (kind : ObjectType) (payload : ObjectPayload) (name : Option String) :
    WellKept (m.register text kind payload name) :=
  ⟨insert_ascending kept.objects, kept.processes, kept.tables⟩

theorem setRefCount_wellKept (id : ObjectId) (count : U32) : WellKept (m.setRefCount id count) := by
  refine ⟨?_, kept.processes, kept.tables⟩
  dsimp only [ObjectManager.setRefCount]
  exact modify_ascending kept.objects

theorem setPayload_wellKept (id : ObjectId) (payload : ObjectPayload) :
    WellKept (m.setPayload id payload) := by
  refine ⟨?_, kept.processes, kept.tables⟩
  dsimp only [ObjectManager.setPayload]
  exact modify_ascending kept.objects

theorem destroy_wellKept (id : ObjectId) : WellKept (m.destroy text id) := by
  rw [ObjectManager.destroy]
  split
  · exact kept
  · exact ⟨erase_ascending kept.objects _, kept.processes, kept.tables⟩

theorem allocate_wellKept (process : U32) (object : ObjectId) (free : access &&& generic = 0)
    (inheritable : Bool) : WellKept (m.allocate process object access inheritable) := by
  refine ⟨kept.objects, insert_ascending kept.processes, fun entry member => ?_⟩
  rcases mem_insert member with rfl | old
  · have table := kept.table process
    refine ⟨insert_ascending table.ascending, fun entry member => ?_, fun entry member => ?_⟩
    · rcases mem_insert member with rfl | old
      · rfl
      · exact table.keyed entry old
    · rcases mem_insert member with rfl | old
      · exact free
      · exact table.free entry old
  · exact kept.tables entry old

theorem remove_wellKept (process : U32) : WellKept (m.remove process handle) := by
  refine ⟨kept.objects, ?_, ?_⟩ <;> dsimp only [ObjectManager.remove]
  · exact modify_ascending kept.processes
  intro entry member
  obtain ⟨before, inside, -, same | ⟨-, updated⟩⟩ := mem_modify member
  · rw [same]
    exact kept.tables before inside
  · rw [updated]
    have table := kept.tables before inside
    exact ⟨erase_ascending table.ascending _, fun entry member => table.keyed entry (mem_of_mem_erase member),
      fun entry member => table.free entry (mem_of_mem_erase member)⟩

end Updates

namespace ObjectManager
open Exec

section Steps
variable (text : Text)

theorem grantHandle_wellKept {inheritable : Bool} :
    Relates (Carries WellKept) (grantHandle process object access inheritable) := by
  refine bind (read _) fun entry => ?_
  refine bind (modify fun m kept => setRefCount_wellKept kept _ _) fun _ => ?_
  refine bind get fun _ => ?_
  refine bind (modify fun m kept => ?_) fun _ => pure _
  exact allocate_wellKept kept process object mapGenericAccess_free inheritable

theorem grantEach_wellKept : Relates (Carries WellKept) (grantEach child entries) := by
  induction entries with
  | nil => exact pure _
  | cons entry rest ih => exact bind grantHandle_wellKept fun _ => bind ih fun _ => pure _

theorem dropReference_wellKept (id : ObjectId) :
    Relates (Carries WellKept) (dropReference text id) := by
  refine bind (read _) fun entry => ?_
  refine bind (modify fun m kept => setRefCount_wellKept kept _ _) fun _ => ?_
  refine ite ?_ (pure _)
  exact bind (modify fun m kept => destroy_wellKept text kept id) fun _ => pure _

theorem closeHandle_wellKept (process : U32) (handle : Handle) :
    Relates (Carries WellKept) (closeHandle text process handle) := by
  refine bind (read _) fun removed => ?_
  refine bind (modify fun m kept => remove_wellKept kept _) fun _ => ?_
  exact bind (dropReference_wellKept text _) fun _ => pure _

theorem closeProcess_wellKept (process : U32) :
    Relates (Carries WellKept) (closeProcess text process) := by
  refine bind get fun m => ?_
  cases m.processes.lookup process with
  | none => exact pure _
  | some =>
    refine bind (forEach fun handle _ => closeHandle_wellKept text process handle) fun _ => ?_
    refine bind (modify fun m kept => ?_) fun _ => pure _
    exact ⟨kept.objects, erase_ascending kept.processes _, fun entry member => kept.tables entry (mem_of_mem_erase member)⟩

section Payloads
variable {P : ObjectManager → Prop} (stays : ∀ m id payload, P m → P (setPayload id payload m))
include stays

theorem setPayload_carries {payload : ObjectPayload} (id : ObjectId) :
    Relates (Carries P) (modify (setPayload id payload) : Exec ObjectManager NtStatus Unit) :=
  modify fun m => stays m id payload

omit stays in
theorem payload_carries (id : ObjectId) (rest : ∀ payload, Relates (Carries P) (next payload)) :
    Relates (Carries P) (payload id >>= next) :=
  bind (bind (read _) fun _ => pure _) rest

theorem signal_carries (id : ObjectId) (signaled : Bool) :
    Relates (Carries P) (signal id signaled) := by
  refine payload_carries id fun payload => ?_
  cases payload with
  | event => exact setPayload_carries stays _
  | _ => exact .throw _

theorem acquireMutant_carries (id : ObjectId) (thread : U32) :
    Relates (Carries P) (acquireMutant id thread) := by
  refine payload_carries id fun payload => ?_
  cases payload with
  | mutant owner =>
    cases owner with
    | none => exact .bind (setPayload_carries stays _) fun _ => .pure _
    | some => exact .ite (.bind (setPayload_carries stays _) fun _ => .pure _) (.pure _)
  | _ => exact .throw _

theorem releaseMutant_carries (id : ObjectId) (thread : U32) :
    Relates (Carries P) (releaseMutant id thread) := by
  refine payload_carries id fun payload => ?_
  cases payload with
  | mutant owner =>
    cases owner with
    | none => exact .throw _
    | some => exact .ite (.ite (setPayload_carries stays _) (setPayload_carries stays _)) (.throw _)
  | _ => exact .throw _

end Payloads

end Steps

end ObjectManager

theorem Operation.perform_wellKept (text : Text) (operation : Operation) :
    Exec.Relates (Exec.Carries WellKept) (operation.perform text) := by
  have stays (m : ObjectManager) (id : ObjectId) (payload : ObjectPayload) (kept : WellKept m) :=
    setPayload_wellKept kept id payload
  cases operation with
  | createObject =>
    refine .bind ?_ fun _ => .pure _
    refine .bind (.read _) fun _ => .bind (.read _) fun _ => .bind .get fun _ => ?_
    exact .bind (.modify fun m kept => register_wellKept text kept _ _ _) fun _ => .pure _
  | openObject =>
    refine .bind ?_ fun _ => .pure _
    refine .bind (.read _) fun _ => .bind (.read _) fun _ => .bind (.read _) fun _ =>
      .bind (.read _) fun _ => ?_
    exact .bind (.modify fun m kept => setRefCount_wellKept kept _ _) fun _ => .pure _
  | releaseObject id => exact .bind (ObjectManager.dropReference_wellKept text id) fun _ => .pure _
  | grantHandle => exact .bind (ObjectManager.grantHandle_wellKept) fun _ => .pure _
  | duplicateHandle =>
    refine .bind ?_ fun _ => .pure _
    refine .bind (.read _) fun _ => .bind (.read _) fun _ => .bind (.read _) fun _ => ?_
    exact ObjectManager.grantHandle_wellKept
  | closeHandle => exact .bind (ObjectManager.closeHandle_wellKept text _ _) fun _ => .pure _
  | closeProcess => exact .bind (ObjectManager.closeProcess_wellKept text _) fun _ => .pure _
  | inheritHandles =>
    exact .bind (.bind .get fun _ => ObjectManager.grantEach_wellKept) fun _ => .pure _
  | signal id signaled =>
    exact .bind (ObjectManager.signal_carries stays id signaled) fun _ => .pure _
  | acquireMutant id thread =>
    exact .bind (ObjectManager.acquireMutant_carries stays id thread) fun _ => .pure _
  | releaseMutant id thread =>
    exact .bind (ObjectManager.releaseMutant_carries stays id thread) fun _ => .pure _

/-- What a call carries over also holds of the manager that it leaves. -/
theorem Operation.apply_carries {operation : Operation}
    (carried : Exec.Relates (Exec.Carries P) (operation.perform text)) (holds : P m) :
    P (operation.apply text m) := by
  rw [apply]
  cases after : ((operation.perform text).run m).state? with
  | none => exact holds
  | some next => exact carried m next after holds

theorem Operation.run_wellKept (text : Text) (kept : WellKept m) (operations : List Operation) :
    WellKept (Operation.run text m operations) := by
  induction operations generalizing m with
  | nil => exact kept
  | cons operation rest ih => exact ih (apply_carries (operation.perform_wellKept text) kept)

/-! ## What a grant leaves in the table -/

theorem entry_eq_lookup (m : ObjectManager) :
    m.entry process handle = (m.table process).handles.lookup handle := by
  rw [ObjectManager.entry, ObjectManager.table]
  cases m.processes.lookup process with
  | none | some => rfl

theorem grantHandle_eq_ok
    (granted : (ObjectManager.grantHandle process object access inheritable).run m = .ok handle next) :
    ∃ entry, m.objects.lookup object = some entry ∧ handle = (m.table process).nextHandle ∧
      next = (m.setRefCount object (entry.refCount + 1)).allocate process object
        (mapGenericAccess entry.kind access) inheritable := by
  simp only [ObjectManager.grantHandle, Exec.bind_eq_ok, Exec.read_eq_ok,
    Result.require_eq_ok] at granted
  obtain ⟨entry, _, ⟨found, rfl⟩, _, _, ⟨-, rfl⟩, _, _, ⟨rfl, rfl⟩, _, _, ⟨-, rfl⟩, rfl,
    rfl⟩ := granted
  exact ⟨entry, found, rfl, rfl⟩

theorem entry_allocate_self (m : ObjectManager) :
    (m.allocate process object access inheritable).entry process (m.table process).nextHandle =
      some ⟨(m.table process).nextHandle, object, access, inheritable⟩ := by
  rw [ObjectManager.entry, ObjectManager.allocate, lookup_insert, if_pos rfl]
  dsimp only [Option.bind_some]
  rw [lookup_insert, if_pos rfl]

/-- A new handle carries the expanded mask. -/
theorem entry_grantHandle
    (granted : (ObjectManager.grantHandle process object access inheritable).run m = .ok handle next) :
    ∃ entry, m.objects.lookup object = some entry ∧
      next.entry process handle = some ⟨handle, object, mapGenericAccess entry.kind access, inheritable⟩ := by
  obtain ⟨entry, found, rfl, rfl⟩ := grantHandle_eq_ok granted
  exact ⟨entry, found, entry_allocate_self (m.setRefCount object _)⟩

/-- A duplicate is covered by its source. -/
theorem entry_duplicateHandle (kept : WellKept m)
    (granted : (ObjectManager.duplicateHandle source sourceHandle process desired inheritable).run m = .ok handle next) :
    ∃ old new, m.entry source sourceHandle = some old ∧ next.entry process handle = some new ∧
      new.object = old.object ∧ Within new.access old.access := by
  simp only [ObjectManager.duplicateHandle, ObjectManager.lookupHandle, Exec.bind_eq_ok,
    Exec.read_eq_ok, Result.bind_eq_ok, Result.require_eq_ok, Result.refuse_eq_ok] at granted
  obtain ⟨old, _, ⟨⟨-, -, there⟩, rfl⟩, object, _, ⟨found, rfl⟩, _, _, ⟨covered, rfl⟩,
    granted⟩ := granted
  obtain ⟨again, foundAgain, placed⟩ := entry_grantHandle granted
  obtain rfl : object = again := Option.some.inj (found.symm.trans foundAgain)
  have sourceFree : old.access &&& generic = 0 := by
    rw [entry_eq_lookup] at there
    exact (kept.table source).free _ (mem_of_lookup there)
  have free : (if desired = 0 then old.access else mapGenericAccess object.kind desired) &&& generic = 0 := by
    split
    · exact sourceFree
    · exact mapGenericAccess_free
  refine ⟨old, _, there, placed, rfl, ?_⟩
  rw [mapGenericAccess_of_free free]
  exact within_of_accessGranted free (eq_true_of_ne_false covered)

/-! ## Chains -/

/-- The second handle was obtained from the first by duplications and inheritances, and is
still open. Other operations may come in between. -/
inductive Chain (text : Text) (first : ObjectManager) (origin : U32 × Handle) :
    ObjectManager → U32 × Handle → Prop
  | origin : Chain text first origin first origin
  | between {m next : ObjectManager} {current : U32 × Handle}
    (earlier : Chain text first origin m current)
      (operation : Operation) (ended : ((operation.perform text).run m).state? = some next)
      (stays : next.entry current.1 current.2 = m.entry current.1 current.2) : Chain text first origin next current
  | duplicate {m next : ObjectManager} {source target desired : U32} {sourceHandle handle : Handle}
      {inheritable : Bool} (earlier : Chain text first origin m (source, sourceHandle))
      (granted : (ObjectManager.duplicateHandle source sourceHandle target desired inheritable).run m =
        .ok handle next) : Chain text first origin next (target, handle)
  -- one round of the loop in `inheritHandles`, and the rounds before and after it
  | inherit {m before after next : ObjectManager} {parent child : U32} {handle : Handle} {entry : HandleEntry}
      {done rest : List HandleEntry} {created : List Handle}
      (earlier : Chain text first origin m (parent, entry.handle))
      (listed : m.inheritable parent = done ++ entry :: rest)
      (rounds : (ObjectManager.grantEach child done).run m = .ok created before)
      (granted : (ObjectManager.grantHandle child entry.object entry.access true).run before = .ok handle after)
      (ended : ((ObjectManager.grantEach child rest).run after).state? = some next)
      (stays : next.entry child handle = after.entry child handle) : Chain text first origin next (child, handle)

theorem Chain.wellKept {origin : U32 × Handle} (kept : WellKept first)
    (chain : Chain text first origin m current) : WellKept m := by
  induction chain with
  | origin => exact kept
  | between _ operation ended _ ih => exact operation.perform_wellKept text _ _ ended ih
  | duplicate _ granted ih =>
    rename_i source target desired sourceHandle handle inheritable _
    have performed := (Operation.duplicateHandle source sourceHandle target desired inheritable).perform_wellKept text
    refine performed _ _ ?_ ih
    rw [Operation.perform, Exec.bind_of_ok granted]
    rfl
  | inherit _ _ rounds granted ended _ ih =>
    have keptBefore := ObjectManager.grantEach_wellKept _ _ (by rw [rounds]; rfl) ih
    have keptAfter := ObjectManager.grantHandle_wellKept _ _ (by rw [granted]; rfl) keptBefore
    exact ObjectManager.grantEach_wellKept _ _ ended keptAfter

/-- The inheritable handles of a process are in its table. -/
theorem entry_of_inheritable (kept : WellKept m) (listed : entry ∈ m.inheritable parent) :
    m.entry parent entry.handle = some entry := by
  obtain ⟨inTable, -⟩ := List.mem_filter.mp listed
  obtain ⟨⟨handle, same⟩, member, rfl⟩ := List.mem_map.mp inTable
  have table := kept.table parent
  rw [entry_eq_lookup, table.keyed _ member]
  exact table.ascending.lookup_iff.mpr member

def Reached (text : Text) (m : ObjectManager) : Prop :=
  ∃ operations, m = Operation.run text .new operations ∨
    m = Operation.run text .withFinalizer operations

theorem new_wellKept : WellKept { ObjectManager.new with onFinalize := calls } :=
  ⟨List.Pairwise.nil, List.Pairwise.nil, fun _ member => absurd member List.not_mem_nil⟩

theorem Reached.wellKept (reached : Reached text m) : WellKept m := by
  obtain ⟨operations, rfl | rfl⟩ := reached
  all_goals exact Operation.run_wellKept text new_wellKept operations

/-- No chain of duplications and inheritances gains a right. -/
theorem chain_within_origin (text : Text) {first m : ObjectManager} {origin current : U32 × Handle}
    {old new : HandleEntry} (reached : Reached text first)
    (chain : Chain text first origin m current) (started : first.entry origin.1 origin.2 = some old)
    (arrived : m.entry current.1 current.2 = some new) :
    new.object = old.object ∧ Within new.access old.access := by
  have keptFirst := reached.wellKept
  induction chain generalizing new with
  | origin =>
    obtain rfl := Option.some.inj (started.symm.trans arrived)
    exact ⟨rfl, Within.refl⟩
  | between _ _ _ stays ih => exact ih (stays.symm.trans arrived)
  | duplicate earlier granted ih =>
    obtain ⟨source, copy, there, placed, sameObject, within⟩ :=
      entry_duplicateHandle (earlier.wellKept keptFirst) granted
    obtain rfl := Option.some.inj (placed.symm.trans arrived)
    obtain ⟨object, covered⟩ := ih there
    exact ⟨sameObject.trans object, within.trans covered⟩
  | inherit earlier listed rounds granted ended stays ih =>
    rename_i entry done rest _
    have member : entry ∈ done ++ entry :: rest := List.mem_append_right _ List.mem_cons_self
    have kept := earlier.wellKept keptFirst
    have there := entry_of_inheritable kept (listed ▸ member)
    obtain ⟨object, found, placed⟩ := entry_grantHandle granted
    obtain rfl := Option.some.inj (placed.symm.trans (stays.symm.trans arrived))
    -- the mask in the parent's table is expanded already
    have free : entry.access &&& generic = 0 := by
      rw [entry_eq_lookup] at there
      exact (kept.table _).free _ (mem_of_lookup there)
    dsimp only
    rw [mapGenericAccess_of_free free]
    exact ih there

/-- A full handle on an event, duplicated for reading into a second process and inherited by a third. -/
theorem chain_within_origin_inherited :
    ∃ first m old new, Reached ⟨id, id⟩ first ∧ Chain ⟨id, id⟩ first (1, 4) m (3, 4) ∧
      first.entry 1 4 = some old ∧
      m.entry 3 4 = some new ∧ new.access ≠ old.access ∧ new.object = old.object ∧ Within new.access old.access := by
  have reached : Reached ⟨id, id⟩ (Operation.run ⟨id, id⟩ .new
      [.createObject .event (.event false false) none, .grantHandle 1 1 genericAll false]) := ⟨_, .inl rfl⟩
  have duplicated : Chain ⟨id, id⟩ (Operation.run ⟨id, id⟩ .new
      [.createObject .event (.event false false) none, .grantHandle 1 1 genericAll false]) (1, 4) _ (2, 4) :=
    .duplicate .origin (rfl : (ObjectManager.duplicateHandle 1 4 2 genericRead true).run _ = .ok 4 _)
  have inherited := Chain.inherit duplicated
    (rfl : ObjectManager.inheritable _ 2 = [] ++ ⟨4, 1, 0x100001, true⟩ :: []) (Exec.pure_run [] _)
    (rfl : (ObjectManager.grantHandle 3 1 0x100001 true).run _ = .ok 4 _) rfl rfl
  exact ⟨_, _, _, _, reached, inherited, rfl, rfl, by decide,
    chain_within_origin ⟨id, id⟩ reached inherited rfl rfl⟩

end Casa.Casak.Object
