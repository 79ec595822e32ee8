import Casa.Lib.AtomicObject
import Casa.Lib.WordMemory
import Mathlib.Logic.Function.Basic

/-! The view of guest memory that worker slices share (jit/code_cache.rs): atomic
additions by any number of callers. An addition inside one word is one atomic update of
the word; one that crosses a word holds a lock around a load and a store, each of which
goes word by word. -/
namespace Casa.Jit
open MachineInt WordMemory AtomicObject

structure GuestMemoryFault where
  address : U64
  write : Bool
  readLen : Nat

/-- The fields that the callers read; the shared ones are in `Shared`. -/
structure GuestSliceMemory where
  flatBase : U64
  flatSize : U64
  fullyMapped : List U64
  codePages : List U64

def pageOf (address : U64) : U64 := address &&& ~~~0xfff

namespace GuestSliceMemory
variable (view : GuestSliceMemory)

/-- The loop over the pages up to the last one, with the number of pages behind the first. -/
def pagesMapped (last : U64) : Nat → U64 → Bool
  | 0, page => view.fullyMapped.contains page && page == last
  | more + 1, page =>
    view.fullyMapped.contains page && (page == last || pagesMapped last more (saturatingAdd page 0x1000))

def rangeAvailable (address : U64) (len : Nat) : Bool :=
  if len = 0 ∨ view.flatBase = 0 then false
  else
    match checkedAdd address (BitVec.ofNat 64 len) with
    | none => false
    | some stop =>
      if stop > view.flatSize then false
      else
        let last := pageOf (stop - 1)
        view.pagesMapped last ((last - pageOf address).toNat / 0x1000) (pageOf address)

/-- The loop of `first_fault`, over at most the given number of pages. -/
def firstUnavailable (stop : U64) : Nat → U64 → Option U64
  | 0, _ => none
  | more + 1, current =>
    if current < stop then
      if !view.fullyMapped.contains (pageOf current) || view.flatSize ≤ current then some current
      else firstUnavailable stop more (saturatingAdd (pageOf current) 0x1000)
    else none

def firstFault (address : U64) (len : Nat) (write : Bool) : GuestMemoryFault :=
  let stop := saturatingAdd address (BitVec.ofNat 64 len)
  { address :=
      (view.firstUnavailable stop ((stop - address).toNat / 0x1000 + 2) address).getD address
    write
    readLen := len }

def touchesCode (address : U64) (len : Nat) : Bool :=
  view.codePages.any fun page =>
    pageOf address ≤ page && page ≤ pageOf (address + BitVec.ofNat 64 len - 1)

/-- The check of `atomic_fetch_add`, which `load` and `store` make again of the same run. -/
def refuses (address : U64) (len : Nat) : Bool :=
  len == 0 || 8 < len || !view.rangeAvailable address len

end GuestSliceMemory

/-- The arguments of one call. -/
structure FetchAdd where
  address : U64
  value : U64
  len : Nat

def FetchAdd.withinWord (request : FetchAdd) : Prop := wordOffset request.address + request.len ≤ 8

instance (request : FetchAdd) : Decidable request.withinWord := inferInstanceAs (Decidable (_ ≤ _))

abbrev Answer := Except GuestMemoryFault (U64 × Bool)

/-- Where a call stands, with its local variables. -/
inductive Phase where
  | idle
  | entered
  | updating (seen : Option U64)
  | locking
  | loading (done : Nat) (value : U64)
  | storing (previous : U64) (done : Nat) (seen : Option U64)
  | noting (previous : U64)
  | unlocking (previous : U64)
  | recording (original : U64)
  | answered (answer : Answer)
  | returned

/-- The words of the store, `rmw_lock` and `code_writes`. -/
structure Shared (ι : Type) where
  words : Words
  lock : Option ι
  codeWrites : List (U64 × Nat)

inductive Attempt where
  | again (seen : U64)
  | updated (previous : U64)

/-- One round of `try_update`: the word is loaded first; then the exchange is made if the
word is still the one seen, and may fail even so. -/
def tryUpdate (words : Words) (base : U64) (update : U64 → U64) (spurious : Bool) :
    Option U64 → Words × Attempt
  | none => (words, .again (words base))
  | some seen =>
    if words base = seen ∧ spurious = false then (words.set base (update seen), .updated seen)
    else (words, .again (words base))

/-- One round of the loop of `load`. -/
def loadWord (words : Words) (address : U64) (len done : Nat) (value : U64) : Nat × U64 :=
  let current := address + BitVec.ofNat 64 done
  let take := min (8 - wordOffset current) (len - done)
  (done + take, value ||| field (words (wordBase current)) (wordOffset current) take <<< (done * 8))

/-- The bytes that `store` puts together again. -/
def joinBytes (bytes : List U8) : U64 :=
  bytes.zipIdx.foldl
    (fun value (byte : U8 × Nat) => value ||| (byte.1.setWidth 64 <<< (byte.2 * 8))) 0

/-- The update of one word in the loop of `store`. -/
def storeField (address : U64) (len done : Nat) (value word : U64) : U64 :=
  let current := address + BitVec.ofNat 64 done
  let take := min (8 - wordOffset current) (len - done)
  putField word (wordOffset current) take (value >>> (done * 8))

def addField (request : FetchAdd) (word : U64) : U64 :=
  let offset := wordOffset request.address
  putField word offset request.len
    (field word offset request.len + (request.value &&& lowMask request.len))

section Advance
variable [DecidableEq ι] (view : GuestSliceMemory) (caller : ι) (request : FetchAdd)

def noteCodeWrite (shared : Shared ι) : Shared ι :=
  if view.touchesCode request.address request.len then
    { shared with codeWrites := shared.codeWrites ++ [(request.address, request.len)] }
  else shared

/-- One step of a call of `atomic_fetch_add`; none if it waits for the lock or has no step. -/
def advance (spurious : Bool) (shared : Shared ι) : Phase → Option (Shared ι × Phase)
  | .entered =>
    some (shared,
      if view.refuses request.address request.len then
        .answered (.error (view.firstFault request.address request.len true))
      else if request.withinWord then .updating none
      else .locking)
  | .updating seen =>
    let base := wordBase request.address
    if wordOffset request.address = 0 ∧ request.len = 8 then
      some ({ shared with words := shared.words.set base (shared.words base + (request.value &&& lowMask request.len)) },
        .recording (shared.words base))
    else
      match tryUpdate shared.words base (addField request) spurious seen with
      | (words, .again seen) => some ({ shared with words }, .updating (some seen))
      | (words, .updated previous) =>
        some ({ shared with words }, .recording (field previous (wordOffset request.address) request.len))
  | .locking =>
    if shared.lock = none then some ({ shared with lock := some caller }, .loading 0 0) else none
  | .loading done value =>
    let (done, value) := loadWord shared.words request.address request.len done value
    some (shared, if done < request.len then .loading done value else .storing value 0 none)
  | .storing previous done seen =>
    let current := request.address + BitVec.ofNat 64 done
    let sum := joinBytes (toLeBytes request.len (previous + request.value))
    match tryUpdate shared.words (wordBase current) (storeField request.address request.len done sum) spurious seen with
    | (words, .again seen) => some ({ shared with words }, .storing previous done (some seen))
    | (words, .updated _) =>
      let done := done + min (8 - wordOffset current) (request.len - done)
      some ({ shared with words }, if done < request.len then .storing previous done none else .noting previous)
  | .noting previous => some (noteCodeWrite view request shared, .unlocking previous)
  | .unlocking previous => some ({ shared with lock := none }, .recording previous)
  | .recording original =>
    some (noteCodeWrite view request shared, .answered (.ok (original, view.touchesCode request.address request.len)))
  | .idle => none
  | .answered _ => none
  | .returned => none

end Advance

/-! ## Callers on one slice -/

structure Slice (ι : Type) where
  shared : Shared ι
  phase : ι → Phase
  history : List (Event ι Answer)

def Slice.start {ι : Type} (words : Words) : Slice ι := ⟨⟨words, none, []⟩, fun _ => .idle, []⟩

inductive Move (ι : Type) where
  | call (caller : ι)
  | work (caller : ι) (spurious : Bool)
  | ret (caller : ι)

section Runs
variable [DecidableEq ι] (view : GuestSliceMemory) (request : ι → FetchAdd)

def Slice.step (s : Slice ι) : Move ι → Option (Slice ι)
  | .call caller =>
    match s.phase caller with
    | .idle =>
      some { s with phase := Function.update s.phase caller .entered, history := s.history ++ [.call caller] }
    | _ => none
  | .work caller spurious =>
    (advance view caller (request caller) spurious s.shared (s.phase caller)).map fun next =>
      { s with shared := next.1, phase := Function.update s.phase caller next.2 }
  | .ret caller =>
    match s.phase caller with
    | .answered answer =>
      some { s with phase := Function.update s.phase caller .returned, history := s.history ++ [.ret caller answer] }
    | _ => none

def Slice.run : Slice ι → List (Move ι) → Option (Slice ι)
  | s, [] => some s
  | s, move :: rest => (s.step view request move).bind fun next => next.run rest

/-- What an addition does if it is alone. -/
def fetchAdd (request : FetchAdd) (m : Bytes) : Answer × Bytes :=
  if view.refuses request.address request.len then
    (.error (view.firstFault request.address request.len true), m)
  else
    let previous := read m request.address request.len
    (.ok (previous, view.touchesCode request.address request.len),
      overwrite m request.address 0 request.len (previous + request.value))

/-! ## Undisturbed runs -/

/-- The bytes of a crossing addition that are loaded and not yet stored. -/
def Phase.inFlight (len : Nat) : Phase → Option (Nat × Nat)
  | .loading done _ => some (0, done)
  | .storing _ done _ => some (done, len)
  | _ => none

/-- The next step of an addition inside a word changes the word. -/
def Slice.takesEffect (s : Slice ι) (caller : ι) (spurious : Bool) : Bool :=
  match s.phase caller with
  | .updating seen =>
    (wordOffset (request caller).address == 0 && (request caller).len == 8) ||
      (seen == some (s.shared.words (wordBase (request caller).address)) && !spurious)
  | _ => false

/-- The run is apart from what the holder of the lock has in flight. -/
def Clear (s : Slice ι) (caller : ι) : Prop :=
  ∀ holder ∈ s.shared.lock, ∀ range ∈ (s.phase holder).inFlight (request holder).len,
    Apart (request caller).address 0 (request caller).len (request holder).address range.1 range.2

/-- No addition inside a word changes bytes that a crossing addition has in flight. -/
def Slice.Undisturbed (s : Slice ι) : Move ι → Prop
  | .work caller spurious => s.takesEffect request caller spurious = true → Clear request s caller
  | _ => True

def Slice.UndisturbedRun : Slice ι → List (Move ι) → Prop
  | _, [] => True
  | s, move :: rest =>
    s.Undisturbed request move ∧ ∀ next ∈ s.step view request move, next.UndisturbedRun rest

end Runs

end Casa.Jit
