import Casa.Lib.Exec
import Casa.Lib.LeBytes

/-! Readers of a byte format. A reader takes the whole input and a cursor, and returns
a value and the cursor behind it. `Reads` says that the reader recovers a value from its
encoding wherever the encoding stands in the input; it composes along `bind`. -/
namespace ByteCursor
open Effect MachineInt

structure Reader (ε α : Type) where
  run : List U8 → Nat → Result ε (α × Nat)

namespace Reader
variable {ε α β : Type}

instance : Monad (Reader ε) where
  pure value := ⟨fun _ cursor => .ok (value, cursor)⟩
  bind r next := ⟨fun bytes cursor => do
    let (value, cursor) ← r.run bytes cursor
    (next value).run bytes cursor⟩

def lift (result : Result ε α) : Reader ε α :=
  ⟨fun _ cursor => do
    let value ← result
    pure (value, cursor)⟩

/-- The cursor, unless the next `n` bytes would end past the address space. -/
def room (n : Nat) (overflow : ε) : Reader ε Nat :=
  ⟨fun _ cursor => do
    Result.refuse (2 ^ 64 ≤ cursor + n) overflow
    pure (cursor, cursor)⟩

def take (n : Nat) (truncated : ε) : Reader ε (List U8) :=
  ⟨fun bytes cursor => do
    Result.refuse (bytes.length < cursor + n) truncated
    pure ((bytes.drop cursor).take n, cursor + n)⟩

def number (w n : Nat) (truncated : ε) : Reader ε (BitVec w) := do
  let bytes ← take n truncated
  pure (fromLeBytes w bytes)

def byte (truncated : ε) : Reader ε U8 := number 8 1 truncated

def times (n : Nat) (r : Reader ε α) : Reader ε (List α) :=
  match n with
  | 0 => pure []
  | n + 1 => do
    let first ← r
    let rest ← times n r
    pure (first :: rest)

end Reader

/-- The encoding stands in the input at the cursor. -/
def At (bytes : List U8) (cursor : Nat) (encoding : List U8) : Prop :=
  ∃ before after, bytes = before ++ (encoding ++ after) ∧ before.length = cursor

def Reads {ε α : Type} (bytes : List U8) (r : Reader ε α) (cursor : Nat) (encoding : List U8)
    (value : α) : Prop :=
  At bytes cursor encoding → r.run bytes cursor = .ok (value, cursor + encoding.length)

section
variable {ε α β : Type} {bytes encoding rest : List U8} {cursor : Nat}

theorem At.left (stands : At bytes cursor (encoding ++ rest)) : At bytes cursor encoding := by
  obtain ⟨before, after, rfl, position⟩ := stands
  exact ⟨before, rest ++ after, by rw [List.append_assoc], position⟩

theorem At.right (stands : At bytes cursor (encoding ++ rest)) :
    At bytes (cursor + encoding.length) rest := by
  obtain ⟨before, after, rfl, rfl⟩ := stands
  exact ⟨before ++ encoding, after, by simp only [List.append_assoc], List.length_append⟩

theorem At.length_le (stands : At bytes cursor encoding) :
    cursor + encoding.length ≤ bytes.length := by
  obtain ⟨before, after, rfl, rfl⟩ := stands
  simp only [List.length_append]
  omega

theorem At.slice (stands : At bytes cursor encoding) :
    (bytes.drop cursor).take encoding.length = encoding := by
  obtain ⟨before, after, rfl, rfl⟩ := stands
  rw [List.drop_left, List.take_left]

namespace Reads

theorem pure (value : α) : Reads bytes (pure value : Reader ε α) cursor [] value := fun _ => rfl

theorem bind (first : Reads bytes r cursor encoding value)
    (second : Reads bytes (next value) (cursor + encoding.length) rest result) :
    Reads bytes (r >>= next) cursor (encoding ++ rest) result := by
  intro stands
  have step : (r >>= next).run bytes cursor =
      (r.run bytes cursor >>= fun pair => (next pair.1).run bytes pair.2) := rfl
  rw [step, first stands.left, Result.ok_bind, second stands.right, List.length_append,
    Nat.add_assoc]

/-- A reader that consumes nothing. -/
theorem bind_nil (first : Reads bytes r cursor [] value)
    (second : Reads bytes (next value) cursor rest result) :
    Reads bytes (r >>= next) cursor rest result :=
  bind first second

theorem map {f : α → β} (first : Reads bytes r cursor encoding value) :
    Reads bytes (r >>= fun value => Pure.pure (f value)) cursor encoding (f value) := by
  have both :
      Reads bytes (r >>= fun value => Pure.pure (f value)) cursor (encoding ++ []) (f value) :=
    bind first (pure (f value))
  rwa [List.append_nil] at both

theorem lift (returned : result = .ok value) :
    Reads bytes (Reader.lift result) cursor [] value := by
  intro _
  rw [returned]
  rfl

theorem refuse [Decidable c] (passes : ¬ c) :
    Reads bytes (Reader.lift (Result.refuse c reason)) cursor [] () :=
  lift (Result.refuse_eq_ok.mpr passes)

theorem require (present : option = some value) :
    Reads bytes (Reader.lift (Result.require option reason)) cursor [] value :=
  lift (Result.require_eq_ok.mpr present)

theorem room (fits : cursor + n < 2 ^ 64) :
    Reads bytes (Reader.room n overflow) cursor [] cursor := by
  intro _
  have enough : ¬ 2 ^ 64 ≤ cursor + n := Nat.not_le.mpr fits
  simp only [Reader.room, Result.refuse, if_neg enough, Result.ok_bind, Result.pure_eq,
    List.length_nil, Nat.add_zero]

theorem take (length : encoding.length = n) :
    Reads bytes (Reader.take n truncated) cursor encoding encoding := by
  intro stands
  subst length
  have enough : ¬ bytes.length < cursor + encoding.length := Nat.not_lt.mpr stands.length_le
  simp [Reader.take, Result.refuse, if_neg enough, stands.slice]

theorem number {w n : Nat} (truncated : ε) (value : BitVec w) (whole : w = 8 * n) :
    Reads bytes (Reader.number w n truncated) cursor (toLeBytes n value) value := by
  have back : fromLeBytes w (toLeBytes n value) = value := by
    subst whole
    rw [fromLeBytes_toLeBytes, BitVec.setWidth_eq, BitVec.setWidth_eq]
  have read : Reads bytes (Reader.number w n truncated) cursor (toLeBytes n value)
      (fromLeBytes w (toLeBytes n value)) := map (take (toLeBytes_length n value))
  rwa [back] at read

theorem byte (truncated : ε) (value : U8) :
    Reads bytes (Reader.byte truncated) cursor [value] value := by
  exact number truncated value rfl

theorem times (each : ∀ item ∈ items, ∀ cursor, Reads bytes r cursor (encode item) item) :
    Reads bytes (Reader.times items.length r) cursor (items.flatMap encode) items := by
  induction items generalizing cursor with
  | nil => exact pure []
  | cons item items ih =>
    refine bind (each item List.mem_cons_self cursor) (map ?_)
    exact ih fun later member => each later (List.mem_cons_of_mem item member)

end Reads
end

/-! ## Text -/

def utf8Bytes (text : String) : List U8 := text.toUTF8.data.toList.map UInt8.toBitVec

def fromUtf8 (bytes : List U8) : Option String :=
  String.fromUTF8? ⟨(bytes.map UInt8.ofBitVec).toArray⟩

theorem fromUtf8_utf8Bytes : fromUtf8 (utf8Bytes text) = some text := by
  have same : (⟨((utf8Bytes text).map UInt8.ofBitVec).toArray⟩ : ByteArray) = text.toUTF8 := by
    simp only [utf8Bytes, List.map_map]
    have inverse : UInt8.ofBitVec ∘ UInt8.toBitVec = id := rfl
    rw [inverse, List.map_id]
  rw [fromUtf8, same]
  exact dif_pos text.isValidUTF8

end ByteCursor
