import Mathlib.Data.List.Nodup

/-! Linearizable objects. A history is the list of calls and returns; the object is
atomic if each call takes effect in one step that lies between the two. -/
namespace AtomicObject
open List

variable {ι μ ρ : Type}

inductive Event (ι ρ : Type) where
  | call (caller : ι)
  | ret (caller : ι) (result : ρ)

def Before {α : Type} (x y : α) (list : List α) : Prop := [x, y].Sublist list

theorem Before.mem_left (before : Before x y list) : x ∈ list :=
  before.subset mem_cons_self

theorem Before.append {list : List α} (before : Before x y list) (more : List α) :
    Before x y (list ++ more) :=
  before.trans (sublist_append_left list more)

theorem before_last {list : List α} (member : x ∈ list) (y : α) : Before x y (list ++ [y]) :=
  List.Sublist.append (singleton_sublist.mpr member) (List.Sublist.refl [y])

theorem Before.of_concat (before : Before x y (list ++ [z])) : Before x y list ∨ y = z := by
  by_cases last : y = z
  · exact .inr last
  · refine .inl ?_
    obtain ⟨front, back, split, inList, inLast⟩ := sublist_append_iff.mp before
    cases back with
    | nil =>
      rw [append_nil] at split
      rw [Before, split]
      exact inList
    | cons first rest =>
      obtain ⟨rfl, rfl⟩ : first = z ∧ rest = [] := by
        cases inLast with
        | cons _ none => cases none
        | cons_cons _ none => exact ⟨rfl, sublist_nil.mp none⟩
      have ends : [x, y].getLast? = (front ++ [first]).getLast? := congrArg getLast? split
      rw [getLast?_concat] at ends
      exact absurd (Option.some.inj ends) last

variable (apply : ι → μ → ρ × μ)

/-- The calls one after the other, with their results and what they leave. -/
def sequential (m : μ) : List ι → List (ι × ρ) × μ
  | [] => ([], m)
  | caller :: rest =>
    let after := sequential (apply caller m).2 rest
    ((caller, (apply caller m).1) :: after.1, after.2)

/-- The order explains the history: real time is respected, and each call returned what it
gives in the order. -/
structure Linearization (m : μ) (history : List (Event ι ρ)) (order : List ι) : Prop where
  nodup : order.Nodup
  called : ∀ caller ∈ order, .call caller ∈ history
  returned : ∀ caller result, .ret caller result ∈ history →
    (caller, result) ∈ (sequential apply m order).1
  realTime : ∀ earlier result later, Before (.ret earlier result) (.call later) history →
    later ∈ order → Before earlier later order

/-- The runs of the atomic object. -/
inductive Run (m : μ) : List (Event ι ρ) → List ι → Prop where
  | start : Run m [] []
  | call {history : List (Event ι ρ)} {order : List ι} (caller : ι) (run : Run m history order)
      (fresh : .call caller ∉ history) : Run m (history ++ [.call caller]) order
  | effect {history : List (Event ι ρ)} {order : List ι} {caller : ι} (run : Run m history order)
      (called : .call caller ∈ history) (fresh : caller ∉ order) : Run m history (order ++ [caller])
  | ret {history : List (Event ι ρ)} {order : List ι} {caller : ι} {result : ρ}
    (run : Run m history order)
      (done : (caller, result) ∈ (sequential apply m order).1) : Run m (history ++ [.ret caller result]) order

variable {apply} {m : μ} {history : List (Event ι ρ)} {order : List ι} {caller : ι}

theorem sequential_concat (order : List ι) (caller : ι) :
    sequential apply m (order ++ [caller]) =
      ((sequential apply m order).1 ++ [(caller, (apply caller (sequential apply m order).2).1)],
        (apply caller (sequential apply m order).2).2) := by
  induction order generalizing m with
  | nil => rfl
  | cons first rest ih =>
    rw [cons_append, sequential, ih]
    rfl

theorem mem_of_result (member : (caller, result) ∈ (sequential apply m order).1) :
    caller ∈ order := by
  induction order generalizing m with
  | nil => cases member
  | cons first rest ih =>
    rcases mem_cons.mp member with here | later
    · rw [(Prod.mk.inj here).1]
      exact mem_cons_self
    · exact mem_cons_of_mem first (ih later)

theorem result_concat (member : (caller, result) ∈ (sequential apply m order).1) (next : ι) :
    (caller, result) ∈ (sequential apply m (order ++ [next])).1 := by
  rw [sequential_concat]
  exact mem_append_left _ member

theorem Run.linearization (run : Run apply m history order) :
    Linearization apply m history order := by
  induction run with
  | start =>
    exact ⟨nodup_nil, fun _ member => absurd member not_mem_nil,
      fun _ _ member => absurd member not_mem_nil, fun _ _ _ _ member => absurd member not_mem_nil⟩
  | @call history order caller run fresh ih =>
    refine ⟨ih.nodup, fun other member => mem_append_left _ (ih.called other member), ?_, ?_⟩
    · intro other result member
      rcases mem_append.mp member with old | new
      · exact ih.returned other result old
      · cases mem_singleton.mp new
    · intro earlier result later before member
      rcases before.of_concat with old | new
      · exact ih.realTime earlier result later old member
      · cases new
        exact absurd (ih.called _ member) fresh
  | @effect history order caller run called fresh ih =>
    refine ⟨?_, ?_, fun other result member => result_concat (ih.returned other result member) caller, ?_⟩
    · refine nodup_append.mpr ⟨ih.nodup, nodup_singleton caller, fun x inOrder y isCaller same => ?_⟩
      exact fresh (mem_singleton.mp isCaller ▸ same ▸ inOrder)
    · intro other member
      rcases mem_append.mp member with old | new
      · exact ih.called other old
      · rw [mem_singleton.mp new]
        exact called
    · intro earlier result later before member
      rcases mem_append.mp member with old | new
      · exact (ih.realTime earlier result later before old).append [caller]
      · -- what has returned before has taken effect before
        rw [mem_singleton.mp new]
        exact before_last (mem_of_result (ih.returned earlier result before.mem_left)) caller
  | @ret history order caller result run done ih =>
    refine ⟨ih.nodup, fun other member => mem_append_left _ (ih.called other member), ?_, ?_⟩
    · intro other value member
      rcases mem_append.mp member with old | new
      · exact ih.returned other value old
      · cases mem_singleton.mp new
        exact done
    · intro earlier value later before member
      rcases before.of_concat with old | new
      · exact ih.realTime earlier value later old member
      · cases new

end AtomicObject
