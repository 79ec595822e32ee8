import Mathlib.Logic.Function.Iterate
import Mathlib.Order.Defs.Unbundled

/-! Fallible computations over a mutable state. A reported error keeps the state
reached when it was raised; a panic unwinds past every caller and keeps none.
The rules follow the structure of a computation, so a property of a long body
is assembled from the properties of its primitive steps. -/
namespace Effect

/-- What a function that only inspects its arguments returns. -/
inductive Result (ε α : Type) where
  | ok (value : α)
  | error (reason : ε)
  | panic

namespace Result
variable {ε δ α β : Type}

def bind (r : Result ε α) (next : α → Result ε β) : Result ε β :=
  match r with
  | .ok value => next value
  | .error reason => .error reason
  | .panic => .panic

instance : Monad (Result ε) where
  pure := .ok
  bind := bind

def mapError (f : ε → δ) : Result ε α → Result δ α
  | .ok value => .ok value
  | .error reason => .error (f reason)
  | .panic => .panic

def isOk : Result ε α → Bool
  | .ok _ => true
  | _ => false

@[simp] theorem ok_bind (value : α) (next : α → Result ε β) :
    (Result.ok value >>= next) = next value := rfl
@[simp] theorem error_bind (reason : ε) (next : α → Result ε β) :
    (Result.error reason >>= next) = .error reason := rfl
@[simp] theorem panic_bind (next : α → Result ε β) : (Result.panic >>= next) = .panic := rfl
@[simp] theorem pure_eq : (pure value : Result ε α) = .ok value := rfl

theorem bind_eq_ok {next : α → Result ε β} :
    (r >>= next) = .ok value ↔ ∃ a, r = .ok a ∧ next a = .ok value := by
  cases r <;> simp

/-- `if c { return Err(reason) }`. -/
def refuse (c : Prop) [Decidable c] (reason : ε) : Result ε Unit :=
  if c then .error reason else .ok ()

/-- `ok_or`. -/
def require (option : Option α) (reason : ε) : Result ε α :=
  match option with
  | some value => .ok value
  | none => .error reason

/-- `expect`. -/
def expect (option : Option α) : Result ε α :=
  match option with
  | some value => .ok value
  | none => .panic

theorem refuse_eq_ok [Decidable c] : refuse c reason = .ok value ↔ ¬ c := by
  rw [refuse]
  split <;> simp_all

theorem refuse_of [Decidable c] (holds : c) (next : Unit → Result ε β) :
    (refuse c reason >>= next) = .error reason := by
  rw [refuse, if_pos holds, error_bind]

theorem refuse_of_not [Decidable c] (fails : ¬ c) (next : Unit → Result ε β) :
    (refuse c reason >>= next) = next () := by
  rw [refuse, if_neg fails, ok_bind]

theorem require_eq_ok : require option reason = .ok value ↔ option = some value := by
  cases option <;> simp [require]

theorem expect_eq_ok : (expect option : Result ε α) = .ok value ↔ option = some value := by
  cases option <;> simp [expect]

theorem bind_ne_panic {next : α → Result ε β} (first : r ≠ .panic)
    (rest : ∀ value, next value ≠ .panic) : (r >>= next) ≠ .panic := by
  cases r with
  | ok value => exact rest value
  | error => simp
  | panic => exact absurd rfl first

theorem refuse_ne_panic [Decidable c] : refuse c reason ≠ .panic := by
  rw [refuse]
  split <;> simp

theorem require_ne_panic : require option reason ≠ .panic := by
  cases option <;> simp [require]

/-- Whether a sequence returns depends only on whether its parts do. -/
theorem isOk_bind_congr {next : α → Result ε β} {next' : γ → Result ε β} (first : r.isOk = r'.isOk)
    (rest : ∀ a c, (next a).isOk = (next' c).isOk) : (r >>= next).isOk = (r' >>= next').isOk := by
  cases r <;> cases r' <;> first | exact rest _ _ | rfl | cases first

theorem isOk_iff {r : Result ε α} : r.isOk ↔ ∃ value, r = .ok value := by
  cases r <;> simp [isOk]

theorem isOk_mapError (r : Result ε α) : (r.mapError f).isOk = r.isOk := by
  cases r <;> rfl

end Result

/-- How a computation that may change a state of type `σ` ends. -/
inductive Outcome (σ ε α : Type) where
  | ok (value : α) (state : σ)
  | error (reason : ε) (state : σ)
  | panic

namespace Outcome
variable {σ τ ε α : Type}

/-- The state left behind, by a return or by an error. -/
def state? : Outcome σ ε α → Option σ
  | .ok _ state => some state
  | .error _ state => some state
  | .panic => none

def value? : Outcome σ ε α → Option α
  | .ok value _ => some value
  | .error _ _ => none
  | .panic => none

def mapState (φ : σ → τ) : Outcome σ ε α → Outcome τ ε α
  | .ok value state => .ok value (φ state)
  | .error reason state => .error reason (φ state)
  | .panic => .panic

@[simp] theorem state?_ok : (Outcome.ok value s : Outcome σ ε α).state? = some s := rfl
@[simp] theorem state?_error : (Outcome.error reason s : Outcome σ ε α).state? = some s := rfl
@[simp] theorem state?_panic : (Outcome.panic : Outcome σ ε α).state? = none := rfl
@[simp] theorem mapState_ok (φ : σ → τ) (value : α) (s : σ) :
    (Outcome.ok value s : Outcome σ ε α).mapState φ = .ok value (φ s) := rfl
@[simp] theorem mapState_error (φ : σ → τ) (reason : ε) (s : σ) :
    (Outcome.error reason s : Outcome σ ε α).mapState φ = .error reason (φ s) := rfl
@[simp] theorem mapState_panic : (Outcome.panic : Outcome σ ε α).mapState φ = .panic := rfl

theorem mapState_of_fixed {o : Outcome σ ε α} (fixed : ∀ t, o.state? = some t → φ t = t) :
    o.mapState φ = o := by
  cases o with
  | ok value t => rw [mapState_ok, fixed t rfl]
  | error reason t => rw [mapState_error, fixed t rfl]
  | panic => rfl

end Outcome

structure Exec (σ ε α : Type) where
  run : σ → Outcome σ ε α

namespace Exec
variable {σ τ ε δ α β : Type}

def bind (f : Exec σ ε α) (next : α → Exec σ ε β) : Exec σ ε β where
  run s :=
    match f.run s with
    | .ok value t => (next value).run t
    | .error reason t => .error reason t
    | .panic => .panic

instance : Monad (Exec σ ε) where
  pure value := ⟨fun s => .ok value s⟩
  bind := bind

def get : Exec σ ε σ := ⟨fun s => .ok s s⟩

def modify (f : σ → σ) : Exec σ ε Unit := ⟨fun s => .ok () (f s)⟩

def throw (reason : ε) : Exec σ ε α := ⟨fun s => .error reason s⟩

def panic : Exec σ ε α := ⟨fun _ => .panic⟩

/-- Run a function that inspects the state without changing it. -/
def read (f : σ → Result ε α) : Exec σ ε α where
  run s :=
    match f s with
    | .ok value => .ok value s
    | .error reason => .error reason s
    | .panic => .panic

/-- Run a computation on one component of a larger state. -/
def zoom (view : τ → σ) (put : τ → σ → τ) (f : Exec σ ε α) : Exec τ ε α where
  run t := (f.run (view t)).mapState (put t)

def mapError (f : ε → δ) (body : Exec σ ε α) : Exec σ δ α where
  run s :=
    match body.run s with
    | .ok value t => .ok value t
    | .error reason t => .error (f reason) t
    | .panic => .panic

/-- Run a computation and update the state it leaves, also after an error. -/
def ensuring (body : Exec σ ε α) (after : σ → σ) : Exec σ ε α where
  run s := (body.run s).mapState after

/-- A counted loop that threads its own variables. -/
def loop (body : β → Exec σ ε β) : Nat → β → Exec σ ε β
  | 0, vars => pure vars
  | n + 1, vars => do
    let next ← body vars
    loop body n next

/-- A countdown loop whose body may ask to leave it. The remaining count is returned. -/
def countdown (body : β → Exec σ ε (β × Bool)) : Nat → β → Exec σ ε (β × Nat)
  | 0, vars => pure (vars, 0)
  | n + 1, vars => do
    let (next, leave) ← body vars
    if leave then pure (next, n) else countdown body n next

def forEach (body : α → Exec σ ε Unit) : List α → Exec σ ε Unit
  | [] => pure ()
  | a :: rest => do
    body a
    forEach body rest

theorem bind_assoc (f : Exec σ ε α) (next : α → Exec σ ε β) (last : β → Exec σ ε γ) :
    (f >>= next) >>= last = f >>= fun value => next value >>= last := by
  simp only [Bind.bind, bind]
  congr 1
  funext s
  cases f.run s <;> rfl

theorem forEach_append :
    forEach body (xs ++ ys) = (forEach body xs >>= fun _ => forEach body ys) := by
  induction xs with
  | nil => rfl
  | cons a rest ih => rw [List.cons_append, forEach, forEach, ih, bind_assoc]

/-- A loop whose variables are a function of the round is a pass over the rounds. -/
theorem loop_eq_forEach {round : Nat → Exec σ ε Unit} {vars : Nat → β}
    (step : ∀ k, body (vars k) = (round k >>= fun _ => pure (vars (k + 1)))) (n k : Nat) :
    loop body n (vars k) = (forEach round (List.range' k n) >>= fun _ => pure (vars (k + n))) := by
  induction n generalizing k with
  | zero => rfl
  | succ n ih =>
    have rest (done : Nat) : loop body n (vars (done + 1)) =
        (forEach round (List.range' (done + 1) n) >>= fun _ => pure (vars (done + (n + 1)))) := by
      rw [ih, Nat.add_right_comm, Nat.add_assoc]
    rw [loop, step, bind_assoc, List.range'_succ, forEach, bind_assoc]
    exact congrArg (round k >>= ·) (funext fun _ => rest k)

/-- The same for a countdown: what is left of it is the number of rounds. -/
theorem countdown_eq {round : Nat → Exec σ ε Bool} {vars : Nat → β}
    (step : ∀ k, body (vars k) = (round k >>= fun leave => pure (vars (k + 1), leave))) (n k : Nat) :
    countdown body n (vars k) =
      (countdown (fun k => round k >>= fun leave => pure (k + 1, leave)) n k >>= fun done =>
        pure (vars done.1, done.2)) := by
  induction n generalizing k with
  | zero => rfl
  | succ n ih =>
    rw [countdown, step, bind_assoc, countdown, bind_assoc, bind_assoc]
    refine congrArg (round k >>= ·) (funext fun leave => ?_)
    cases leave with
    | true => rfl
    | false => exact ih (k + 1)

section Running
variable {f : Exec σ ε α} {next : α → Exec σ ε β} {s t u : σ} {value : α} {reason : ε}

@[simp] theorem pure_run (value : α) (s : σ) : (pure value : Exec σ ε α).run s = .ok value s := rfl
@[simp] theorem modify_run (f : σ → σ) (s : σ) :
    (modify f : Exec σ ε Unit).run s = .ok () (f s) := rfl
@[simp] theorem get_bind_run (next : σ → Exec σ ε β) (s : σ) :
    (get >>= next).run s = (next s).run s := rfl
@[simp] theorem modify_bind_run (f : σ → σ) (next : Unit → Exec σ ε β) (s : σ) :
    (modify f >>= next).run s = (next ()).run (f s) := rfl

theorem bind_of_ok (ran : f.run s = .ok value t) : (f >>= next).run s = (next value).run t := by
  simp [Bind.bind, bind, ran]

theorem bind_of_error (ran : f.run s = .error reason t) : (f >>= next).run s = .error reason t := by
  simp [Bind.bind, bind, ran]

theorem bind_of_panic (ran : f.run s = .panic) : (f >>= next).run s = .panic := by
  simp [Bind.bind, bind, ran]

theorem bind_eq_ok : (f >>= next).run s = .ok result u ↔
    ∃ value t, f.run s = .ok value t ∧ (next value).run t = .ok result u := by
  cases ran : f.run s with
  | ok => simp [bind_of_ok ran, and_assoc]
  | error => simp [bind_of_error ran]
  | panic => simp [bind_of_panic ran]

theorem bind_eq_error : (f >>= next).run s = .error reason u ↔
    f.run s = .error reason u ∨ ∃ value t, f.run s = .ok value t ∧
      (next value).run t = .error reason u := by
  cases ran : f.run s with
  | ok => simp [bind_of_ok ran, and_assoc]
  | error => simp [bind_of_error ran]
  | panic => simp [bind_of_panic ran]

theorem bind_state : ((f >>= next).run s).state? = some u ↔
    (∃ reason, f.run s = .error reason u) ∨
      ∃ value t, f.run s = .ok value t ∧ ((next value).run t).state? = some u := by
  cases ran : f.run s with
  | ok => simp [bind_of_ok ran, and_assoc]
  | error => simp [bind_of_error ran]
  | panic => simp [bind_of_panic ran]

theorem bind_pure_state {g : α → β} :
    ((f >>= fun value => pure (g value)).run s).state? = (f.run s).state? := by
  cases ran : f.run s with
  | ok => simp [bind_of_ok ran]
  | error => simp [bind_of_error ran]
  | panic => simp [bind_of_panic ran]

theorem read_eq (g : σ → Result ε α) (s : σ) : (read g).run s =
    match g s with
    | .ok value => .ok value s
    | .error reason => .error reason s
    | .panic => .panic := rfl

theorem mapError_run (g : ε → δ) (f : Exec σ ε α) (s : σ) : (mapError g f).run s =
    match f.run s with
    | .ok value t => .ok value t
    | .error reason t => .error (g reason) t
    | .panic => .panic := rfl

theorem ensuring_run (body : Exec σ ε α) :
    (ensuring body after).run s = (body.run s).mapState after := rfl

theorem zoom_run (view : τ → σ) (put : τ → σ → τ) (f : Exec σ ε α) (t : τ) :
    (zoom view put f).run t = (f.run (view t)).mapState (put t) := rfl

theorem read_of_ok (returned : g s = .ok value) : (read g).run s = .ok value s := by
  rw [read_eq, returned]

theorem read_eq_ok : (read g).run s = .ok value t ↔ g s = .ok value ∧ t = s := by
  rw [read_eq]
  cases g s <;> simp [eq_comm]

theorem read_bind_run (g : σ → Result ε α) (next : α → Exec σ ε β) (s : σ) :
    (read g >>= next).run s =
      match g s with
      | .ok value => (next value).run s
      | .error reason => .error reason s
      | .panic => .panic := by
  simp only [Bind.bind, bind, read_eq]
  cases g s <;> rfl

end Running

/-! ## What every run leaves behind -/

/-- Every state in which the computation ends is related to the one it began in. -/
def Relates (R : σ → σ → Prop) (f : Exec σ ε α) : Prop := ∀ s t, (f.run s).state? = some t → R s t

def Same (obs : σ → β) (s t : σ) : Prop := obs t = obs s

instance (obs : σ → β) : IsPreorder σ (Same obs) where
  refl _ := rfl
  trans _ _ _ first second := Eq.trans second first

def Carries (I : σ → Prop) (s t : σ) : Prop := I s → I t

instance (I : σ → Prop) : IsPreorder σ (Carries I) where
  refl _ := id
  trans _ _ _ first second := second ∘ first

namespace Relates
variable {R : σ → σ → Prop} [IsPreorder σ R]

theorem pure (value : α) : Relates R (pure value : Exec σ ε α) := by
  rintro s t ⟨⟩
  exact refl_of R s

theorem get : Relates R (get : Exec σ ε σ) := by
  rintro s t ⟨⟩
  exact refl_of R s

theorem throw (reason : ε) : Relates R (throw reason : Exec σ ε α) := by
  rintro s t ⟨⟩
  exact refl_of R s

omit [IsPreorder σ R] in
theorem panic : Relates R (panic : Exec σ ε α) := by
  rintro s t ⟨⟩

theorem read (g : σ → Result ε α) : Relates R (read g) := by
  intro s t ended
  rw [read_eq] at ended
  cases returned : g s with
  | ok | error => rw [returned] at ended; cases ended; exact refl_of R s
  | panic => rw [returned] at ended; cases ended

omit [IsPreorder σ R] in
theorem modify (step : ∀ s, R s (g s)) : Relates R (modify g : Exec σ ε Unit) := by
  rintro s t ⟨⟩
  exact step s

theorem bind (first : Relates R f) (rest : ∀ value, Relates R (next value)) :
    Relates R (f >>= next) := by
  intro s u ended
  rcases bind_state.mp ended with ⟨reason, failed⟩ | ⟨value, t, ran, ended⟩
  · exact first s u (by rw [failed]; rfl)
  · exact trans_of R (first s t (by rw [ran]; rfl)) (rest value t u ended)

omit [IsPreorder σ R] in
theorem ite [Decidable c] (yes : Relates R f) (no : Relates R g) :
    Relates R (if c then f else g) := by
  split
  · exact yes
  · exact no

omit [IsPreorder σ R] in
theorem mapError (body : Relates R f) : Relates R (mapError g f) := by
  intro s t ended
  apply body s t
  rw [mapError_run] at ended
  cases ran : f.run s with
  | ok | error => rw [ran] at ended; exact ended
  | panic => rw [ran] at ended; cases ended

omit [IsPreorder σ R] in
theorem zoom (body : Relates Q f) (lifts : ∀ s t, Q (view s) t → R s (put s t)) :
    Relates R (zoom view put f) := by
  intro s u ended
  rw [zoom_run] at ended
  cases ran : f.run (view s) with
  | ok value t | error reason t =>
    rw [ran] at ended; cases ended; exact lifts s t (body _ t (by rw [ran]; rfl))
  | panic => rw [ran] at ended; cases ended

theorem loop (step : ∀ vars, Relates R (body vars)) (n : Nat) (vars : β) :
    Relates R (loop body n vars) := by
  induction n generalizing vars with
  | zero => exact pure vars
  | succ n ih => exact bind (step vars) ih

theorem countdown (step : ∀ vars, Relates R (body vars)) (n : Nat) (vars : β) :
    Relates R (countdown body n vars) := by
  induction n generalizing vars with
  | zero => exact pure (vars, 0)
  | succ n ih =>
    refine bind (step vars) fun next => ?_
    obtain ⟨next, leave⟩ := next
    cases leave
    · exact ih next
    · exact pure (next, n)

theorem forEach (step : ∀ a ∈ xs, Relates R (body a)) : Relates R (forEach body xs) := by
  induction xs with
  | nil => exact pure ()
  | cons a rest ih =>
    exact bind (step a List.mem_cons_self) fun _ => ih fun b member =>
      step b (List.mem_cons_of_mem a member)

end Relates

/-! ## What an error leaves behind -/

def NeverFails (f : Exec σ ε α) : Prop := ∀ s reason t, f.run s ≠ .error reason t

/-- A reported error leaves the observation as it was at the start. -/
def Atomic (obs : σ → β) (f : Exec σ ε α) : Prop :=
  ∀ s reason t, f.run s = .error reason t → obs t = obs s

namespace NeverFails

theorem pure (value : α) : NeverFails (pure value : Exec σ ε α) := by
  rintro s reason t ⟨⟩

theorem get : NeverFails (get : Exec σ ε σ) := by
  rintro s reason t ⟨⟩

theorem modify (g : σ → σ) : NeverFails (modify g : Exec σ ε Unit) := by
  rintro s reason t ⟨⟩

theorem panic : NeverFails (panic : Exec σ ε α) := by
  rintro s reason t ⟨⟩

theorem bind (first : NeverFails f) (rest : ∀ value, NeverFails (next value)) :
    NeverFails (f >>= next) := by
  intro s reason u failed
  rcases bind_eq_error.mp failed with failed | ⟨value, t, _, failed⟩
  · exact first s reason u failed
  · exact rest value t reason u failed

theorem ite [Decidable c] (yes : NeverFails f) (no : NeverFails g) :
    NeverFails (if c then f else g) := by
  split
  · exact yes
  · exact no

end NeverFails

namespace Atomic
variable {γ : Type} {obs : σ → γ}

theorem of_never (never : NeverFails f) : Atomic obs f :=
  fun s reason t failed => absurd failed (never s reason t)

theorem of_same (same : Relates (Same obs) f) : Atomic obs f :=
  fun s _ t failed => same s t (by rw [failed]; rfl)

theorem ite [Decidable c] (yes : Atomic obs f) (no : Atomic obs g) :
    Atomic obs (if c then f else g) := by
  split
  · exact yes
  · exact no

/-- Whatever comes before the fallible part has not touched the observation. -/
theorem bind_same (first : Relates (Same obs) f) (rest : ∀ value, Atomic obs (next value)) :
    Atomic obs (f >>= next) := by
  intro s reason u failed
  rcases bind_eq_error.mp failed with failed | ⟨value, t, ran, failed⟩
  · exact of_same first s reason u failed
  · have kept : obs t = obs s := first s t (by rw [ran]; rfl)
    exact (rest value t reason u failed).trans kept

/-- Whatever comes after the fallible part cannot fail. -/
theorem bind_never (first : Atomic obs f) (rest : ∀ value, NeverFails (next value)) :
    Atomic obs (f >>= next) := by
  intro s reason u failed
  rcases bind_eq_error.mp failed with failed | ⟨value, t, _, failed⟩
  · exact first s reason u failed
  · exact absurd failed (rest value t reason u)

theorem mapError (body : Atomic obs f) : Atomic obs (mapError g f) := by
  intro s reason t failed
  rw [mapError_run] at failed
  cases ran : f.run s with
  | ok | panic => rw [ran] at failed; cases failed
  | error reason u => rw [ran] at failed; cases failed; exact body s reason _ ran

theorem zoom (body : Atomic obs f) (lifts : ∀ t s, obs s = obs (view t) → obs' (put t s) = obs' t) :
    Atomic obs' (zoom view put f) := by
  intro t reason u failed
  rw [zoom_run] at failed
  cases ran : f.run (view t) with
  | ok | panic => rw [ran] at failed; cases failed
  | error reason s => rw [ran] at failed; cases failed; exact lifts t s (body _ _ _ ran)

end Atomic

/-! ## Errors from one starting state -/

/-- A reported error leaves the observation as it was in `s`. -/
def AtomicAt (obs : σ → β) (s : σ) (f : Exec σ ε α) : Prop :=
  ∀ reason t, f.run s = .error reason t → obs t = obs s

namespace AtomicAt
variable {γ : Type} {obs : σ → γ}

theorem of_returns {f : Exec σ ε α} (returns : ∃ value t, f.run s = .ok value t) :
    AtomicAt obs s f := by
  intro reason t failed
  obtain ⟨value, u, ran⟩ := returns
  cases ran.symm.trans failed

theorem bind_of_ok (ran : f.run s = .ok value t) (same : obs t = obs s)
    (rest : AtomicAt obs t (next value)) : AtomicAt obs s (f >>= next) := by
  intro reason u failed
  rw [Exec.bind_of_ok ran] at failed
  exact (rest reason u failed).trans same

theorem read_bind {next : α → Exec σ ε β}
    (rest : ∀ value, g s = .ok value → AtomicAt obs s (next value)) :
    AtomicAt obs s (read g >>= next) := by
  intro reason t failed
  rw [read_bind_run] at failed
  cases returned : g s with
  | ok value => rw [returned] at failed; exact rest value returned reason t failed
  | error => rw [returned] at failed; cases failed; rfl
  | panic => rw [returned] at failed; cases failed

theorem bind_never (first : AtomicAt obs s f) (rest : ∀ value, NeverFails (next value)) :
    AtomicAt obs s (f >>= next) := by
  intro reason u failed
  rcases bind_eq_error.mp failed with failed | ⟨value, t, _, failed⟩
  · exact first reason u failed
  · exact absurd failed (rest value t reason u)

end AtomicAt

/-! ## Computations of several parts -/

/-- From a state with the invariant the computation returns exactly if it is
allowed to, and keeps the invariant. -/
structure Gated (inv : σ → Prop) (allowed : Prop) (f : Exec σ ε α) : Prop where
  passes : inv s → allowed → ∃ value t, f.run s = .ok value t ∧ inv t
  refused : inv s → ¬ allowed → ∀ value t, f.run s ≠ .ok value t

/-- Of the parts in a row all go through, or the first one is refused. -/
def AllOrFirst (allowed : α → Prop) (parts : List α) : Prop :=
  (∀ part ∈ parts, allowed part) ∨ ∀ part ∈ parts.head?, ¬ allowed part

namespace Gated
variable {inv : σ → Prop} {allowed : α → Prop}

theorem pure (value : α) : Gated inv True (pure value : Exec σ ε α) :=
  ⟨fun holds _ => ⟨value, _, rfl, holds⟩, fun _ never => absurd trivial never⟩

theorem modify (keeps : ∀ s, inv s → inv (g s)) : Gated inv True (modify g : Exec σ ε Unit) :=
  ⟨fun holds _ => ⟨(), _, rfl, keeps _ holds⟩, fun _ never => absurd trivial never⟩

theorem throw (never : ¬ p) : Gated inv p (throw reason : Exec σ ε α) := by
  refine ⟨fun _ passes => absurd passes never, ?_⟩
  rintro s - - value t ⟨⟩

theorem panic (never : ¬ p) : Gated inv p (panic : Exec σ ε α) := by
  refine ⟨fun _ passes => absurd passes never, ?_⟩
  rintro s - - value t ⟨⟩

theorem read {g : σ → Result ε α} (same : ∀ s, inv s → ((g s).isOk ↔ p)) :
    Gated inv p (read g) where
  passes holds passes := by
    obtain ⟨value, returned⟩ := Result.isOk_iff.mp ((same _ holds).mpr passes)
    exact ⟨value, _, read_of_ok returned, holds⟩
  refused holds refused value t ran :=
    refused ((same _ holds).mp (Result.isOk_iff.mpr ⟨value, (read_eq_ok.mp ran).1⟩))

theorem zoom (body : Gated inv p f) (keeps : ∀ t s, view (put t s) = s) :
    Gated (inv ∘ view) p (zoom view put f) where
  passes {t} holds passes := by
    obtain ⟨value, s, ran, holds⟩ := body.passes holds passes
    refine ⟨value, put t s, by rw [zoom_run, ran]; rfl, ?_⟩
    rwa [Function.comp_apply, keeps]
  refused {t} holds refused value u ran := by
    rw [zoom_run] at ran
    cases inner : f.run (view t) with
    | ok => exact body.refused holds refused _ _ inner
    | error | panic => rw [inner] at ran; cases ran

theorem of_iff (same : p ↔ q) (gate : Gated inv p f) : Gated inv q f :=
  ⟨fun holds passes => gate.passes holds (same.mpr passes),
    fun holds refused => gate.refused holds fun passes => refused (same.mp passes)⟩

theorem bind (first : Gated inv p f) (rest : ∀ value, Gated inv q (next value)) :
    Gated inv (p ∧ q) (f >>= next) where
  passes holds allowed := by
    obtain ⟨value, t, ran, holds⟩ := first.passes holds allowed.1
    obtain ⟨result, u, done, holds⟩ := (rest value).passes holds allowed.2
    exact ⟨result, u, (bind_of_ok ran).trans done, holds⟩
  refused holds refused result u returned := by
    obtain ⟨value, t, ran, done⟩ := bind_eq_ok.mp returned
    by_cases passes : p
    · obtain ⟨_, _, again, holds⟩ := first.passes holds passes
      cases again.symm.trans ran
      exact (rest value).refused holds (fun more => refused ⟨passes, more⟩) result u done
    · exact first.refused holds passes value t ran

theorem forEach (each : ∀ a, Gated inv (allowed a) (body a)) :
    Gated inv (∀ a ∈ xs, allowed a) (forEach body xs) := by
  induction xs with
  | nil => exact of_iff (by simp) (pure ())
  | cons a rest ih => exact of_iff List.forall_mem_cons.symm (bind (each a) fun _ => ih)

theorem loop {allowed : β → Prop} {round : β → Exec σ ε Unit}
    (step : ∀ vars, body vars = (round vars >>= fun _ => Pure.pure (advance vars)))
    (each : ∀ vars, Gated inv (allowed vars) (round vars)) :
    Gated inv (∀ i < n, allowed (advance^[i] vars)) (loop body n vars) := by
  induction n generalizing vars with
  | zero => exact of_iff (by simp) (pure vars)
  | succ n ih =>
    rw [Exec.loop, step, bind_assoc]
    exact of_iff (Nat.forall_lt_succ_left (p := fun i => allowed (advance^[i] vars))).symm
      (bind (each vars) fun _ => ih)

end Gated

section Parts
variable {γ : Type} {obs : σ → γ} {inv : σ → Prop} {allowed : α → Prop}

/-- A second part that is let through whenever the first one is. -/
theorem AtomicAt.of_gated (atomic : Atomic obs f) (first : Gated inv p f)
    (rest : ∀ value, Gated inv q (next value)) (holds : inv s) (clean : p → q) :
    AtomicAt obs s (f >>= next) := by
  by_cases passes : p
  · obtain ⟨value, t, ran, -⟩ := (first.bind rest).passes holds ⟨passes, clean passes⟩
    exact .of_returns ⟨value, t, ran⟩
  · intro reason u failed
    rcases bind_eq_error.mp failed with failed | ⟨value, t, ran, -⟩
    · exact atomic s reason u failed
    · exact absurd ran (first.refused holds passes value t)

/-- A pass of atomic parts is atomic if it stops at its first part or not at all. -/
theorem AtomicAt.forEach (atomic : ∀ a, Atomic obs (body a))
    (each : ∀ a, Gated inv (allowed a) (body a)) (holds : inv s) (clean : AllOrFirst allowed xs) :
    AtomicAt obs s (forEach body xs) := by
  cases xs with
  | nil => exact .of_returns ⟨(), s, rfl⟩
  | cons a rest =>
    refine .of_gated (atomic a) (each a) (fun _ => .forEach each) holds fun passes => ?_
    rcases clean with all | first
    · exact (List.forall_mem_cons.mp all).2
    · exact absurd passes (first a rfl)

theorem AllOrFirst.succ {allowed : Nat → Prop} (clean : AllOrFirst allowed (List.range (n + 1)))
    (first : allowed 0) : ∀ i < n, allowed (i + 1) := by
  rcases clean with all | refused
  · exact fun i below => all (i + 1) (List.mem_range.mpr (Nat.succ_lt_succ below))
  · exact absurd first (refused 0 (by simp [List.head?_range]))

theorem AtomicAt.loop {allowed : β → Prop} {round : β → Exec σ ε Unit}
    (step : ∀ vars, body vars = (round vars >>= fun _ => Pure.pure (advance vars)))
    (atomic : ∀ vars, Atomic obs (round vars))
    (each : ∀ vars, Gated inv (allowed vars) (round vars)) (holds : inv s)
    (clean : AllOrFirst (fun i => allowed (advance^[i] vars)) (List.range n)) :
    AtomicAt obs s (loop body n vars) := by
  cases n with
  | zero => exact .of_returns ⟨vars, s, rfl⟩
  | succ n =>
    rw [Exec.loop, step, bind_assoc]
    exact .of_gated (atomic vars) (each vars) (fun _ => .loop step each) holds clean.succ

end Parts

/-! ## Two computations in step -/

/-- Running `g` on the image of a state ends in the image of where `f` ends. -/
def Commutes (φ : σ → τ) (f : Exec σ ε α) (g : Exec τ ε α) : Prop :=
  ∀ s, g.run (φ s) = (f.run s).mapState φ

namespace Commutes
variable {φ : σ → τ}

theorem pure (value : α) : Commutes φ (pure value : Exec σ ε α) (pure value) := fun _ => rfl

theorem throw (reason : ε) : Commutes φ (throw reason : Exec σ ε α) (throw reason) := fun _ => rfl

theorem modify (step : ∀ s, h (φ s) = φ (g s)) :
    Commutes φ (modify g : Exec σ ε Unit) (modify h) := by
  intro s
  simp only [modify_run, Outcome.mapState_ok, step]

theorem read (same : ∀ s, h (φ s) = g s) : Commutes φ (read g) (read h) := by
  intro s
  rw [read_eq, read_eq, same]
  cases g s <;> rfl

theorem bind (first : Commutes φ f f') (rest : ∀ value, Commutes φ (next value) (next' value)) :
    Commutes φ (f >>= next) (f' >>= next') := by
  intro s
  cases ran : f.run s with
  | ok value t =>
    have ran' : f'.run (φ s) = .ok value (φ t) := by rw [first s, ran]; rfl
    rw [bind_of_ok ran, bind_of_ok ran', rest value t]
  | error reason t =>
    have ran' : f'.run (φ s) = .error reason (φ t) := by rw [first s, ran]; rfl
    rw [bind_of_error ran, bind_of_error ran', Outcome.mapState_error]
  | panic =>
    have ran' : f'.run (φ s) = .panic := by rw [first s, ran]; rfl
    rw [bind_of_panic ran, bind_of_panic ran', Outcome.mapState_panic]

theorem ite [Decidable c] (yes : Commutes φ f f') (no : Commutes φ g g') :
    Commutes φ (if c then f else g) (if c then f' else g') := by
  split
  · exact yes
  · exact no

theorem zoom (seen : ∀ s, view' (φ s) = view s) (stored : ∀ s r, put' (φ s) r = φ (put s r)) :
    Commutes φ (zoom view put f) (zoom view' put' f) := by
  intro s
  rw [zoom_run, zoom_run, seen]
  cases f.run (view s) with
  | ok => simp only [Outcome.mapState_ok, stored]
  | error => simp only [Outcome.mapState_error, stored]
  | panic => rfl

theorem forEach (step : ∀ b, Commutes φ (body b) (body' b)) :
    Commutes φ (forEach body xs) (forEach body' xs) := by
  induction xs with
  | nil => exact pure ()
  | cons b rest ih => exact bind (step b) fun _ => ih

end Commutes

end Exec
end Effect
