import Casa.Lib.Exec
import Casa.Lib.OrderedMap
import Casa.Lib.MachineInt

/-! The virtual-memory executive of CasaK (casak/memory.rs): reservations, committed
pages, section views and the working set. Addresses and sizes are numbers, with the
word checks where the source makes them; every descriptor ends below `userLimit`, so
the sums that it leaves unchecked stay inside a word. -/
namespace Casa.Casak
open Effect
open OrderedMap (insertAll eraseAll erase)
open Result (require refuse expect)

def pageSize : Nat := 4096
def maxSectionSize : Nat := 256 * 1024 * 1024
def maxRegionSize : Nat := 2 ^ 32
def defaultBase : Nat := 0x10000
def userLimit : Nat := 0x7FFFFFFF0000

inductive Status where
  | accessViolation
  | alreadyCommitted
  | commitmentLimit
  | conflictingAddresses
  | insufficientResources
  | invalidAddress
  | invalidHandle
  | invalidPageProtection
  | invalidParameter
  | invalidViewSize
  | noMemory
  | notCommitted
  | sectionTooBig

/-- A page protection mask. -/
structure Protection where
  bits : U32
  deriving DecidableEq

namespace Protection

def noaccess : Protection := ⟨0x01⟩
def readonly : Protection := ⟨0x02⟩
def readwrite : Protection := ⟨0x04⟩
def execute : Protection := ⟨0x10⟩
def executeRead : Protection := ⟨0x20⟩
def executeReadwrite : Protection := ⟨0x40⟩

def valid (protection : Protection) : Bool :=
  [noaccess, readonly, readwrite, execute, executeRead, executeReadwrite].contains protection

def readable (protection : Protection) : Bool :=
  [readonly, readwrite, executeRead, executeReadwrite].contains protection

def writable (protection : Protection) : Bool := [readwrite, executeReadwrite].contains protection

end Protection

structure Section where
  size : Nat
  backing : List U8

structure Mapping where
  sectionId : Nat
  offset : Nat
  cow : Bool

structure Vad where
  base : Nat
  size : Nat
  protection : Protection
  pages : List (Nat × Protection)
  privatePages : List (Nat × List U8)
  mapping : Option Mapping

def Vad.end (vad : Vad) : Nat := vad.base + vad.size

structure MemoryManager where
  vads : List (Nat × Vad)
  sections : List (Nat × Section)
  nextSection : Nat
  nextBase : Nat
  committedBytes : Nat
  mappedBytes : Nat
  maxCommit : Nat
  maxSections : Nat
  resident : List Nat
  residentOrder : List Nat
  maxWorkingSet : Nat

def checkedAdd (a b : Nat) : Option Nat := if a + b < 2 ^ 64 then some (a + b) else none

def saturatingAdd (a b : Nat) : Nat := min (a + b) (2 ^ 64 - 1)

def checkedMul (a b : Nat) : Option Nat := if a * b < 2 ^ 64 then some (a * b) else none

def alignUp (value : Nat) : Option Nat :=
  (checkedAdd value (pageSize - 1)).map (· / pageSize * pageSize)

/-- The pages of `[start, stop)`, in ascending order. -/
def rangePages (range : Nat × Nat) : List Nat :=
  let first := range.1 / pageSize
  let last := (range.2 + pageSize - 1) / pageSize
  (List.range' first (last - first)).map (· * pageSize)

namespace MemoryManager

def new (maxCommit maxSections maxWorkingSet : Nat) : MemoryManager where
  vads := []
  sections := []
  nextSection := 1
  nextBase := defaultBase
  committedBytes := 0
  mappedBytes := 0
  maxCommit := maxCommit
  maxSections := maxSections
  resident := []
  residentOrder := []
  maxWorkingSet := maxWorkingSet

def findVad (m : MemoryManager) (address : Nat) : Result Status Vad := do
  let entry ← require (m.vads.filter fun entry => entry.1 ≤ address).getLast? .invalidAddress
  refuse (entry.2.end ≤ address) .invalidAddress
  pure entry.2

def overlaps (m : MemoryManager) (base size : Nat) : Bool :=
  let stop := saturatingAdd base size
  m.vads.any fun entry => base < entry.2.end && entry.2.base < stop

def validateRange (m : MemoryManager) (base size : Nat) : Result Status (Nat × Nat) := do
  refuse (base = 0 ∨ size = 0 ∨ base % pageSize ≠ 0) .invalidParameter
  let aligned ← require (alignUp size) .invalidParameter
  let stop ← require (checkedAdd base aligned) .invalidParameter
  let vad ← m.findVad base
  refuse (vad.end < stop) .invalidAddress
  pure (base, stop)

/-- The loop moves past one descriptor in each round, so the limit bounds it. -/
def freeBaseFrom (m : MemoryManager) (size : Nat) : Nat → Nat → Result Status Nat
  | 0, _ => .error .noMemory
  | rounds + 1, candidate => do
    let stop ← require (checkedAdd candidate size) .invalidParameter
    refuse (userLimit < stop) .noMemory
    match (m.vads.filter fun entry => entry.1 < stop).getLast? with
    | some entry =>
      if candidate < entry.2.end then freeBaseFrom m size rounds entry.2.end else pure candidate
    | none => pure candidate

def findFreeBase (m : MemoryManager) (size : Nat) : Result Status (Nat × MemoryManager) := do
  let candidate ← m.freeBaseFrom size (userLimit + 1) m.nextBase
  pure (candidate, { m with nextBase := candidate + size })

/-- The base of a reservation: the one asked for, or the next free one. -/
def chooseBase (m : MemoryManager) (base : Option Nat) (size : Nat) :
    Result Status (Nat × MemoryManager) :=
  match base with
  | some base => do
    refuse (base = 0 ∨ base % pageSize ≠ 0) .invalidParameter
    refuse (m.overlaps base size = true) .conflictingAddresses
    pure (base, m)
  | none => m.findFreeBase size

def reserve (m : MemoryManager) (base : Option Nat) (size : Nat) :
    Result Status (Nat × MemoryManager) := do
  refuse (size = 0 ∨ maxRegionSize < size) .invalidParameter
  let size ← require (alignUp size) .invalidParameter
  let (base, m) ← m.chooseBase base size
  let stop ← require (checkedAdd base size) .invalidParameter
  refuse (userLimit < stop) .noMemory
  let vad : Vad := ⟨base, size, .readwrite, [], [], none⟩
  pure (base, { m with vads := OrderedMap.insert base vad m.vads, nextBase := max m.nextBase stop })

def commit (m : MemoryManager) (base size : Nat) (protection : Protection) :
    Result Status (Unit × MemoryManager) := do
  refuse (protection.valid = false) .invalidPageProtection
  let range ← m.validateRange base size
  let vad ← m.findVad range.1
  refuse (vad.mapping.isSome = true) .alreadyCommitted
  let existing := (rangePages range).filter fun page => (vad.pages.lookup page).isSome
  refuse (existing.length ≠ 0) .alreadyCommitted
  let charge ← require (checkedMul (rangePages range).length pageSize) .invalidParameter
  refuse (m.maxCommit < saturatingAdd m.committedBytes charge) .commitmentLimit
  let _ ← expect (m.vads.lookup vad.base)
  let update (vad : Vad) : Vad := { vad with
    pages := insertAll (rangePages range) protection vad.pages
    privatePages := insertAll (rangePages range) (List.replicate pageSize 0) vad.privatePages
    protection }
  pure ((), { m with
    vads := OrderedMap.modify vad.base update m.vads
    committedBytes := m.committedBytes + charge })

/-- Pages leave the working set with their queue entries. -/
def forget (m : MemoryManager) (pages : List Nat) : MemoryManager :=
  { m with
    resident := m.resident.filter fun page => !pages.contains page
    residentOrder := m.residentOrder.filter fun page => !pages.contains page }

def decommit (m : MemoryManager) (base size : Nat) : Result Status (Unit × MemoryManager) := do
  let range ← m.validateRange base size
  let vad ← m.findVad range.1
  refuse (vad.mapping.isSome = true) .invalidParameter
  let committed := ((rangePages range).filter fun page => (vad.pages.lookup page).isSome).length
  refuse (committed = 0) .notCommitted
  let _ ← expect (m.vads.lookup vad.base)
  let update (vad : Vad) : Vad := { vad with
    pages := eraseAll (rangePages range) vad.pages
    privatePages := eraseAll (rangePages range) vad.privatePages }
  pure ((), { m.forget (rangePages range) with
    vads := OrderedMap.modify vad.base update m.vads
    committedBytes := m.committedBytes - committed * pageSize })

def protect (m : MemoryManager) (base size : Nat) (protection : Protection) :
    Result Status (Nat × MemoryManager) := do
  refuse (protection.valid = false) .invalidPageProtection
  let range ← m.validateRange base size
  let found ← m.findVad range.1
  let vad ← expect (m.vads.lookup found.base)
  refuse ((rangePages range).any fun page => (vad.pages.lookup page).isNone) .notCommitted
  let update (vad : Vad) : Vad := { vad with
    protection
    pages := insertAll (rangePages range) protection vad.pages }
  pure ((rangePages range).length, { m with vads := OrderedMap.modify found.base update m.vads })

def release (m : MemoryManager) (base size : Nat) : Result Status (Nat × MemoryManager) := do
  let vad ← require (m.vads.lookup base) .invalidAddress
  refuse (size ≠ 0 ∧ size ≠ vad.size) .invalidParameter
  let committed := vad.pages.length * pageSize
  let mapped := if vad.mapping.isSome then vad.size else 0
  pure (vad.size, { m.forget (vad.pages.map Prod.fst) with
    vads := erase base m.vads
    committedBytes := m.committedBytes - committed
    mappedBytes := m.mappedBytes - mapped })

/-- The kind of a section is recorded and never read. -/
def createSection (m : MemoryManager) (size : Nat) (initial : List U8) :
    Result Status (Nat × MemoryManager) := do
  refuse (size = 0 ∨ size < initial.length) .invalidParameter
  refuse (maxSectionSize < size) .sectionTooBig
  refuse (m.maxSections ≤ m.sections.length) .insufficientResources
  let record : Section := ⟨size, initial ++ List.replicate (size - initial.length) 0⟩
  pure (m.nextSection, { m with
    nextSection := m.nextSection + 1
    sections := OrderedMap.insert m.nextSection record m.sections })

def deleteSection (m : MemoryManager) (id : Nat) : Result Status (Unit × MemoryManager) := do
  refuse (m.vads.any fun entry => entry.2.mapping.any fun mapping =>
    mapping.sectionId == id) .invalidParameter
  let _ ← require (m.sections.lookup id) .invalidHandle
  pure ((), { m with sections := erase id m.sections })

def mapSection (m : MemoryManager) (id : Nat) (base : Option Nat) (size : Nat)
    (protection : Protection) (cow : Bool) : Result Status (Nat × MemoryManager) := do
  refuse (protection.valid = false) .invalidPageProtection
  let record ← require (m.sections.lookup id) .invalidHandle
  refuse (size = 0) .invalidParameter
  refuse (record.size < size) .invalidViewSize
  let aligned ← require (alignUp size) .invalidParameter
  refuse (record.size < aligned) .invalidViewSize
  let (base, m) ← m.reserve base aligned
  let pages := (List.range (aligned / pageSize)).map fun index => base + index * pageSize
  let _ ← expect (m.vads.lookup base)
  let update (vad : Vad) : Vad := { vad with
    protection
    pages := insertAll pages protection vad.pages
    mapping := some ⟨id, 0, cow⟩ }
  pure (base, { m with
    vads := OrderedMap.modify base update m.vads
    mappedBytes := m.mappedBytes + aligned })

def unmapSection (m : MemoryManager) (base : Nat) : Result Status (Nat × MemoryManager) := do
  let vad ← require (m.vads.lookup base) .invalidAddress
  refuse (vad.mapping.isNone = true) .invalidParameter
  m.release base 0

/-! ## Reads and writes -/

def checkAccess (m : MemoryManager) (start stop : Nat) (write : Bool) : Result Status Unit := do
  let vad ← m.findVad start
  refuse (vad.end < stop) .invalidAddress
  let allows (protection : Protection) := if write then protection.writable else protection.readable
  refuse ((rangePages (start, stop)).any fun page =>
    !(vad.pages.lookup page).any allows) .accessViolation

def pageBytes (m : MemoryManager) (vadBase page : Nat) : Result Status (List U8) := do
  let vad ← require (m.vads.lookup vadBase) .invalidAddress
  match vad.privatePages.lookup page with
  | some bytes => pure bytes
  | none =>
    let mapping ← expect vad.mapping
    let record ← require (m.sections.lookup mapping.sectionId) .invalidHandle
    let start := mapping.offset + (page - vad.base)
    if start + pageSize ≤ record.backing.length then pure ((record.backing.drop start).take pageSize) else .panic

/-- `while resident.len() > max_working_set`, oldest page first. -/
def evict (limit : Nat) : List Nat → List Nat → Result Status (List Nat × List Nat)
  | [], resident => if resident.length ≤ limit then pure (resident, []) else .panic
  | victim :: order, resident =>
    if resident.length ≤ limit then pure (resident, victim :: order)
    else evict limit order (resident.filter (· ≠ victim))

def touch (page : Nat) : Exec MemoryManager Status Unit := do
  let m ← Exec.get
  if m.resident.contains page then pure ()
  else
    let (resident, order) ← Exec.read fun m =>
      evict m.maxWorkingSet (m.residentOrder ++ [page]) (page :: m.resident)
    Exec.modify fun m => { m with resident, residentOrder := order }

def overwrite (bytes : List U8) (offset : Nat) (data : List U8) : List U8 :=
  bytes.take offset ++ data ++ bytes.drop (offset + data.length)

def writePage (vadBase page offset : Nat) (data : List U8) : Exec MemoryManager Status Unit := do
  let vad ← Exec.read fun m => require (m.vads.lookup vadBase) .invalidAddress
  match vad.mapping with
  | some mapping =>
    if mapping.cow then
      let source ← Exec.read fun m => m.pageBytes vadBase page
      let update (vad : Vad) : Vad :=
        let target := (vad.privatePages.lookup page).getD source
        { vad with privatePages := OrderedMap.insert page (overwrite target offset data) vad.privatePages }
      Exec.modify fun m => { m with vads := OrderedMap.modify vadBase update m.vads }
    else
      let start := mapping.offset + (page - vadBase) + offset
      let record ← Exec.read fun m => require (m.sections.lookup mapping.sectionId) .invalidHandle
      if start + data.length ≤ record.backing.length then
        let update (record : Section) : Section := { record with backing := overwrite record.backing start data }
        Exec.modify fun m => { m with sections := OrderedMap.modify mapping.sectionId update m.sections }
      else Exec.throw .invalidAddress
  | none =>
    let _ ← Exec.read fun _ => expect (vad.privatePages.lookup page)
    let update (vad : Vad) : Vad :=
      { vad with privatePages := OrderedMap.modify page (overwrite · offset data) vad.privatePages }
    Exec.modify fun m => { m with vads := OrderedMap.modify vadBase update m.vads }

/-- `while cursor < stop`, a page's part of the range in each round. -/
def readPages (vadBase stop : Nat) : Nat → Nat → List U8 → Exec MemoryManager Status (List U8)
  | 0, _, output => pure output
  | rounds + 1, cursor, output =>
    if cursor < stop then do
      let page := cursor / pageSize * pageSize
      let offset := cursor % pageSize
      let take := min (pageSize - offset) (stop - cursor)
      let bytes ← Exec.read fun m => m.pageBytes vadBase page
      touch page
      readPages vadBase stop rounds (cursor + take) (output ++ (bytes.drop offset).take take)
    else pure output

def writePages (vadBase stop : Nat) (data : List U8) :
    Nat → Nat → Nat → Exec MemoryManager Status Unit
  | 0, _, _ => pure ()
  | rounds + 1, cursor, written =>
    if cursor < stop then do
      let page := cursor / pageSize * pageSize
      let offset := cursor % pageSize
      let take := min (pageSize - offset) (data.length - written)
      writePage vadBase page offset ((data.drop written).take take)
      touch page
      writePages vadBase stop data rounds (cursor + take) (written + take)
    else pure ()

def read (address length : Nat) : Exec MemoryManager Status (List U8) :=
  if length = 0 then pure []
  else do
    let stop ← Exec.read fun _ => require (checkedAdd address length) .invalidAddress
    Exec.read fun m => m.checkAccess address stop false
    let vad ← Exec.read fun m => m.findVad address
    readPages vad.base stop length address []

def write (address : Nat) (data : List U8) : Exec MemoryManager Status Unit :=
  if data = [] then pure ()
  else do
    let stop ← Exec.read fun _ => require (checkedAdd address data.length) .invalidAddress
    Exec.read fun m => m.checkAccess address stop true
    let vad ← Exec.read fun m => m.findVad address
    writePages vad.base stop data data.length address 0

end MemoryManager

inductive Operation where
  | reserve (base : Option Nat) (size : Nat)
  | commit (base size : Nat) (protection : Protection)
  | decommit (base size : Nat)
  | protect (base size : Nat) (protection : Protection)
  | release (base size : Nat)
  | createSection (size : Nat) (initial : List U8)
  | deleteSection (id : Nat)
  | mapSection (id : Nat) (base : Option Nat) (size : Nat) (protection : Protection) (cow : Bool)
  | unmapSection (base : Nat)
  | read (address length : Nat)
  | write (address : Nat) (data : List U8)

/-- A call that is refused, or stops the process, leaves the manager as it was. -/
def settle {α : Type} (m : MemoryManager) : Result Status (α × MemoryManager) → MemoryManager
  | .ok (_, next) => next
  | .error _ => m
  | .panic => m

namespace Operation

def apply (m : MemoryManager) : Operation → MemoryManager
  | .reserve base size => settle m (m.reserve base size)
  | .commit base size protection => settle m (m.commit base size protection)
  | .decommit base size => settle m (m.decommit base size)
  | .protect base size protection => settle m (m.protect base size protection)
  | .release base size => settle m (m.release base size)
  | .createSection size initial => settle m (m.createSection size initial)
  | .deleteSection id => settle m (m.deleteSection id)
  | .mapSection id base size protection cow => settle m (m.mapSection id base size protection cow)
  | .unmapSection base => settle m (m.unmapSection base)
  -- pages touched or written before an error stay so
  | .read address length => ((MemoryManager.read address length).run m).state?.getD m
  | .write address data => ((MemoryManager.write address data).run m).state?.getD m

def run (m : MemoryManager) (operations : List Operation) : MemoryManager :=
  operations.foldl apply m

end Operation

end Casa.Casak
