import Exo.Library.Checks

/-!
# Operations on a state in place

An operation that changes a state through a mutable reference and may fail on the way: what it has
changed by then stays.  Such an operation is atomic if it leaves the state alone whenever it fails.
The rules build that up from operations that only look at the state.
-/

namespace Exo.Library

abbrev InPlace (σ α : Type) := ExceptT String (StateM σ) α

namespace InPlace

variable {σ α β : Type}

section
variable (operation : InPlace σ α)

/-- The result of the operation, and the state it leaves behind. -/
def runOn (state : σ) : Except String α × σ := operation.run.run state

/-- Look at the state. -/
def look (view : σ → Except String α) : InPlace σ α := fun state ↦ (view state, state)

def check (value : Except String α) : InPlace σ α := look fun _ ↦ value

def update (change : σ → σ) : InPlace σ Unit := fun state ↦ (.ok (), change state)

/-- The result as a value: the caller looks at the error and goes on. -/
def attempt : InPlace σ (Except String α) := fun state ↦
  ((.ok (operation.runOn state).1), (operation.runOn state).2)

/-- The operation leaves the state alone. -/
def ReadOnly : Prop := ∀ state, (operation.runOn state).2 = state

/-- The operation leaves the state alone if it fails. -/
def Atomic : Prop :=
  ∀ state message, (operation.runOn state).1 = .error message → (operation.runOn state).2 = state

theorem runOn_bind (first : InPlace σ α) (next : α → InPlace σ β) (state : σ) :
    (first >>= next).runOn state =
      match first.runOn state with
      | (.ok value, state') => (next value).runOn state'
      | (.error message, state') => (.error message, state') := by
  simp only [runOn, ExceptT.run_bind, StateT.run_bind]
  cases hfirst : StateT.run (ExceptT.run first) state with
  | mk result state' => cases result <;> rfl

@[simp]
theorem runOn_pure (value : α) (state : σ) :
    (pure value : InPlace σ α).runOn state = (.ok value, state) := rfl

@[simp]
theorem runOn_look (view : σ → Except String α) (state : σ) :
    (look view).runOn state = (view state, state) := rfl

@[simp]
theorem runOn_check (value : Except String α) (state : σ) :
    (check value).runOn state = (value, state) := rfl

@[simp]
theorem runOn_update (change : σ → σ) (state : σ) :
    (update change).runOn state = (.ok (), change state) := rfl

@[simp]
theorem runOn_attempt (state : σ) : (attempt operation).runOn state =
      (.ok (operation.runOn state).1, (operation.runOn state).2) := rfl

end

variable {first : InPlace σ α} {next : α → InPlace σ β} {state state' : σ} {result : α}

theorem bind_ok {result : β} : (first >>= next).runOn state = (.ok result, state') ↔
      ∃ value middle, first.runOn state = (.ok value, middle) ∧
        (next value).runOn middle = (.ok result, state') := by
  rw [runOn_bind]
  cases hfirst : first.runOn state with
  | mk value middle => cases value <;> simp

theorem look_ok {view : σ → Except String α} :
    (look view).runOn state = (.ok result, state') ↔ view state = .ok result ∧ state = state' := by
  rw [runOn_look, Prod.mk.injEq]

theorem check_ok {value : Except String α} :
    (check value).runOn state = (.ok result, state') ↔ value = .ok result ∧ state = state' := by
  rw [runOn_check, Prod.mk.injEq]

theorem update_ok {change : σ → σ} {result : Unit} :
    (update change).runOn state = (.ok result, state') ↔ change state = state' := by
  simp

theorem pure_ok {value : α} : (pure value : InPlace σ α).runOn state = (.ok result, state') ↔
      value = result ∧ state = state' := by
  simp

theorem readOnly_look (view : σ → Except String α) : ReadOnly (look view) := fun _ ↦ rfl

theorem readOnly_check (value : Except String α) : ReadOnly (check value : InPlace σ α) :=
  fun _ ↦ rfl

theorem readOnly_pure (value : α) : ReadOnly (pure value : InPlace σ α) := fun _ ↦ rfl

theorem ReadOnly.bind (hfirst : ReadOnly first) (hnext : ∀ value, ReadOnly (next value)) :
    ReadOnly (first >>= next) := by
  intro state
  have hstate := hfirst state
  rw [runOn_bind]
  cases hrun : first.runOn state with
  | mk value middle =>
    rw [hrun] at hstate
    cases value with
    | error message => exact hstate
    | ok value => exact (hnext value middle).trans hstate

theorem ReadOnly.atomic {operation : InPlace σ α} (hoperation : ReadOnly operation) :
    Atomic operation := fun state _ _ ↦ hoperation state

theorem ReadOnly.bind_atomic (hfirst : ReadOnly first) (hnext : ∀ value, Atomic (next value)) :
    Atomic (first >>= next) := by
  intro state message hfails
  have hstate := hfirst state
  rw [runOn_bind] at hfails ⊢
  cases hrun : first.runOn state with
  | mk value middle =>
    rw [hrun] at hstate hfails
    cases value with
    | error message => exact hstate
    | ok value => exact (hnext value middle message hfails).trans hstate

/-- The change comes last. -/
theorem atomic_update_pure (change : σ → σ) (value : α) :
    Atomic (do update change; return value : InPlace σ α) := nofun

end InPlace

end Exo.Library
