import Mathlib.Logic.Function.Basic
import Exo.TurnCoordinator.Operations

/-!
# Thread states, mutation locks and leases

The layer under `Coordinator`: how `TurnQueueLocks` hands out the one `ThreadState` of a thread.
The map holds a weak pointer; an operation upgrades it or allocates a new state, waits for the
mutation lock of the state it got, runs its critical section, unlocks and drops its `Arc`.  A lease
holds another `Arc` of the state behind its guard until its last clone is dropped, and `Drop` of a
state removes the map entry only if the entry is still its own.

Addresses are reused as soon as the allocation is gone.  In flight, in any order: any number of
operations at any stage, clones of any number of leases, half-dropped leases, and states whose
`Drop` has not run yet.
-/

namespace Exo.TurnCoordinator

open Library Coordinator

variable {Work : Type}

/-- The operations that take the mutation lock. -/
def Op.locks : Op Work → Bool
  | .poll _ => false
  | .dropLease _ => false
  | .dropThreadState => false
  | _ => true

namespace Locks

/-- The address of a `ThreadState`. -/
abbrev Address := ℕ

/-- One `TurnLease` value.  Its fields drop in order, the identity before the guard.  `claim` counts
the successful claims up to the one that made it, and is read by no step. -/
structure Lease where
  identity : Option LeaseIdentity
  guard : Address
  claim : ℕ
  deriving DecidableEq

/-- Where an operation stands after it got its `ThreadState`. -/
inductive Stage where
  | waiting
  | locked
  | returned
  | unlocked
  deriving DecidableEq

/-- Whether the mutation lock is held. -/
def Stage.holds : Stage → Bool
  | .waiting => false
  | .locked => true
  | .returned => true
  | .unlocked => false

/-- An operation in flight: the state it holds an `Arc` of and the lease it borrows. -/
structure InFlight (Work : Type) where
  op : Op Work
  state : Address
  borrowed : Option Lease
  stage : Stage := .waiting

end Locks

/-- One thread's entry in `TurnQueueLocks`, the allocated `ThreadState`s of the thread, and
everything that holds one of them. -/
structure Locks (Work : Type) where
  threads : Option Locks.Address := none
  states : Locks.Address → Option ThreadMutation := fun _ ↦ none
  operations : List (Locks.InFlight Work) := []
  leases : List Locks.Lease := []
  stored : TurnQueueState Work := {}
  watches : List (Watch TurnControl) := []
  claims : ℕ := 0

namespace Locks

section
variable (s : Locks Work)

/-- Some strong pointer to the state exists. -/
def Alive (state : Address) : Prop :=
  (∃ operation ∈ s.operations, operation.state = state) ∨ ∃ lease ∈ s.leases, lease.guard = state

instance (s : Locks Work) (state : Address) : Decidable (s.Alive state) :=
  inferInstanceAs (Decidable (_ ∨ _))

/-- The identities of which a clone is alive. -/
def live : List LeaseIdentity := s.leases.filterMap (·.identity)

/-- `Weak::upgrade` of the map entry. -/
def upgrade : Option Address :=
  match s.threads with
  | some state => if s.Alive state then some state else none
  | none => none

/-- The thread as an operation that has locked `mutation` sees it. -/
def view (mutation : ThreadMutation) : Coordinator Work where
  stored := s.stored
  mutation := mutation
  live := s.live
  watches := s.watches

/-- `TurnQueueLocks::thread`, with the address a new state would be allocated at. -/
def thread (fresh : Address) : Address × Locks Work :=
  match s.upgrade with
  | some state => (state, s)
  | none => (fresh, { s with
    threads := some fresh
    states := Function.update s.states fresh (some {}) })

/-- Move the operation at `index` to another stage. -/
def moveTo (stage : Stage) (index : ℕ) (operations : List (InFlight Work)) : List (InFlight Work) :=
  operations.modify index (fun operation ↦ { operation with stage := stage })

section
variable (state : Address)

/-- The lease a critical section created. -/
def created : Response Work → List Lease
  | .claimed (some identity) => [⟨some identity, state, s.claims + 1⟩]
  | _ => []

/-- The state with the results of a critical section on `state`. -/
def save (result : Coordinator Work) (leases : List Lease) : Locks Work :=
  { s with
    states := Function.update s.states state (some result.mutation)
    leases := leases ++ s.leases
    stored := result.stored
    watches := result.watches
    claims := s.claims + leases.length }

/-- The critical section of the operation at `index`. -/
def critical (index : ℕ) (operation : InFlight Work)
    (mutation : ThreadMutation) : Locks Work :=
  let result := (s.view mutation).perform operation.op
  { s.save operation.state result.2 (s.created operation.state result.1) with
    operations := moveTo .returned index s.operations }

/-- `Drop for ThreadState`, then the drop of its fields. -/
def dropState (mutation : ThreadMutation) : Locks Work :=
  { s with
    threads := if s.threads = some state then none else s.threads
    states := Function.update s.states state none
    watches := (s.view mutation).dropControl.watches }

end

/-- One step of some task.  The operations in flight are named by their position. -/
inductive Step (Work : Type) where
  | begin (op : Op Work) (borrowed : Option Lease) (fresh : Address)
  | lock (index : ℕ)
  | critical (index : ℕ)
  | unlock (index : ℕ)
  | finish (index : ℕ)
  | cloneLease (lease : Lease)
  | dropIdentity (lease : Lease)
  | dropGuard (lease : Lease)
  | dropState (state : Address)

/-- A leased operation borrows a lease with that identity, a borrowed lease is not dropped, an
allocation is made where nothing is, and a state is dropped once nothing points to it.  An operation
may be abandoned at any await. -/
def enabled : Step Work → Prop
  | .begin op borrowed fresh =>
    op.locks = true ∧ borrowed.map (·.identity) = op.lease.map some ∧
      (∀ lease ∈ borrowed, lease ∈ s.leases) ∧ (s.upgrade = none → s.states fresh = none)
  | .lock index =>
    ∃ operation ∈ s.operations[index]?, operation.stage = .waiting ∧
      ∀ other ∈ s.operations, other.state = operation.state → other.stage.holds = false
  | .critical index =>
    ∃ operation ∈ s.operations[index]?, operation.stage = .locked ∧
      ∀ mutation ∈ s.states operation.state, (s.view mutation).enabled operation.op
  | .unlock index => ∃ operation ∈ s.operations[index]?, operation.stage.holds = true
  | .finish index => ∃ operation ∈ s.operations[index]?, operation.stage.holds = false
  | .cloneLease lease => lease ∈ s.leases ∧ lease.identity.isSome = true
  | .dropIdentity lease =>
    lease ∈ s.leases ∧ lease.identity.isSome = true ∧
      ∀ operation ∈ s.operations, operation.borrowed = some lease → lease ∈ s.leases.erase lease
  | .dropGuard lease => lease ∈ s.leases ∧ lease.identity = none
  | .dropState state => (s.states state).isSome = true ∧ ¬ s.Alive state

def next : Step Work → Locks Work
  | .begin op borrowed fresh =>
    let result := s.thread fresh
    { result.2 with operations := ⟨op, result.1, borrowed, .waiting⟩ :: result.2.operations }
  | .lock index => { s with operations := moveTo .locked index s.operations }
  | .critical index =>
    match s.operations[index]? with
    | some operation =>
      match s.states operation.state with
      | some mutation => s.critical index operation mutation
      | none => s
    | none => s
  | .unlock index => { s with operations := moveTo .unlocked index s.operations }
  | .finish index => { s with operations := s.operations.eraseIdx index }
  | .cloneLease lease => { s with leases := lease :: s.leases }
  | .dropIdentity lease =>
    { s with leases := { lease with identity := none } :: s.leases.erase lease }
  | .dropGuard lease => { s with leases := s.leases.erase lease }
  | .dropState state =>
    match s.states state with
    | some mutation => s.dropState state mutation
    | none => s

end

/-- The tasks of one thread as a transition system. -/
def system (Work : Type) : System (Locks Work) (Step Work) where
  enabled := enabled
  next := next

instance (c : Coordinator Work) (op : Op Work) : Decidable (c.enabled op) :=
  inferInstanceAs (Decidable ((Coordinator.system Work).enabled c op))

instance (s : Locks Work) (step : Step Work) : Decidable ((system Work).enabled s step) :=
  match step with
  | .begin _ _ _ => inferInstanceAs (Decidable (_ ∧ _ ∧ _ ∧ _))
  | .lock _ | .critical _ | .unlock _ | .finish _ =>
    inferInstanceAs (Decidable (∃ operation ∈ _, _))
  | .cloneLease _ | .dropGuard _ | .dropState _ => inferInstanceAs (Decidable (_ ∧ _))
  | .dropIdentity _ => inferInstanceAs (Decidable (_ ∧ _ ∧ _))

end Locks

end Exo.TurnCoordinator
