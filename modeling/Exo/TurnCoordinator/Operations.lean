import Exo.Library.System
import Exo.TurnCoordinator.Queue

/-!
# Runs of the turn coordinator

The coordinator as a guarded transition system.  A label is one operation with all its inputs: the
caller's arguments, the clock, the outcome of the store and the address a claim allocates.  A run
is therefore any interleaving of any number of submitters, controllers and workers, each operation
being one critical section.

`QueueEffect` says once what an operation can do to the stored record.  The invariants of the
queue are proved from it, without unfolding the operations again.
-/

namespace Exo.TurnCoordinator

open Library

variable {Work : Type}

/-- One operation on the thread, with the inputs it reads. -/
inductive Op (Work : Type) where
  | enqueue (store : StoreOutcome) (now : ℤ) (turn : TurnSubmission Work)
  | cancel (store : StoreOutcome) (turn : TurnId) (authority : TurnAuthority)
  | setSuspended (store : StoreOutcome) (turn : TurnId) (authority : TurnAuthority)
      (suspended : Bool)
  | claim (identity : LeaseIdentity)
  | get (store : StoreOutcome) (turn : TurnId)
  | peek (store : StoreOutcome) (lease : LeaseIdentity)
  | start (store : StoreOutcome) (lease : LeaseIdentity) (turn : TurnId)
  | acknowledge (store : StoreOutcome) (lease : LeaseIdentity) (turn : TurnId)
  | releaseIfIdle (store : StoreOutcome) (lease : LeaseIdentity)
  | poll (watch : WatchId)
  | dropLease (lease : LeaseIdentity)
  | dropThreadState

/-- What the caller of an operation gets back. -/
inductive Response (Work : Type) where
  | accepted (turn : AcceptedTurn)
  | outcome (outcome : TurnControlOutcome)
  | claimed (lease : Option LeaseIdentity)
  | entry (entry : Option (QueuedTurn Work))
  | started (head : QueuedTurn Work) (watch : WatchId)
  | released (released : Bool)
  | polled (poll : Poll TurnControl)
  | done
  | failed (error : CoordinatorError)
  deriving DecidableEq

/-- Wrap the result of a fallible operation. -/
def Response.ofExcept {α : Type} (wrap : α → Response Work) :
    Except CoordinatorError α → Response Work
  | .ok value => wrap value
  | .error error => .failed error

/-- The turn, the authority and the control a control request asks for. -/
def Op.controlRequest : Op Work → Option (TurnId × TurnAuthority × TurnControl)
  | .cancel _ turn authority => some (turn, authority, .cancel)
  | .setSuspended _ turn authority suspended =>
    some (turn, authority, if suspended then .suspend else .run)
  | _ => none

/-- The lease an operation is issued with, for the operations that check one. -/
def Op.lease : Op Work → Option LeaseIdentity
  | .peek _ lease => some lease
  | .start _ lease _ => some lease
  | .acknowledge _ lease _ => some lease
  | .releaseIfIdle _ lease => some lease
  | _ => none

namespace Coordinator

/-- Perform one operation. -/
def perform (c : Coordinator Work) : Op Work → Response Work × Coordinator Work
  | .enqueue store now turn =>
    let result := c.enqueue store now turn
    (.ofExcept .accepted result.1, result.2)
  | .cancel store turn authority =>
    let result := c.cancel store turn authority
    (.ofExcept .outcome result.1, result.2)
  | .setSuspended store turn authority suspended =>
    let result := c.setSuspended store turn authority suspended
    (.ofExcept .outcome result.1, result.2)
  | .claim identity => (.claimed (c.claim identity).1, (c.claim identity).2)
  | .get store turn => (.ofExcept .entry (c.get store turn), c)
  | .peek store lease => (.ofExcept .entry (c.peek store lease), c)
  | .start store lease turn =>
    let result := c.start store lease turn
    (.ofExcept (fun started ↦ .started started.1 started.2) result.1, result.2)
  | .acknowledge store lease turn =>
    let result := c.acknowledge store lease turn
    (.ofExcept .entry result.1, result.2)
  | .releaseIfIdle store lease =>
    let result := c.releaseIfIdle store lease
    (.ofExcept .released result.1, result.2)
  | .poll watch => (.polled (c.poll watch).1, (c.poll watch).2)
  | .dropLease lease => (.done, c.dropLease lease)
  | .dropThreadState => (.done, c.dropThreadState)

/-- An identity is allocated where nothing is: no clone of a lease lives there and the owner
pointer does not keep the allocation.  The thread state dies only after every lease. -/
def enabled (c : Coordinator Work) : Op Work → Prop
  | .claim identity => identity ∉ c.live ∧ c.mutation.owner ≠ some identity
  | .dropThreadState => c.live = []
  | _ => True

/-- The coordinator of one thread as a transition system. -/
def system (Work : Type) : System (Coordinator Work) (Op Work) where
  enabled := enabled
  next c op := (c.perform op).2

instance (c : Coordinator Work) (op : Op Work) : Decidable ((system Work).enabled c op) :=
  match op with
  | .claim identity =>
    inferInstanceAs (Decidable (identity ∉ c.live ∧ c.mutation.owner ≠ some identity))
  | .dropThreadState => inferInstanceAs (Decidable (c.live = []))
  | .enqueue _ _ _ | .cancel _ _ _ | .setSuspended _ _ _ _ | .get _ _ | .peek _ _ | .start _ _ _
  | .acknowledge _ _ _ | .releaseIfIdle _ _ | .poll _ | .dropLease _ => isTrue trivial

@[simp]
theorem system_next (c : Coordinator Work) (op : Op Work) :
    (system Work).next c op = (c.perform op).2 := rfl

section
variable (c : Coordinator Work)

section
variable (turn : TurnId) (control : TurnControl)

@[simp]
theorem notify_stored : (c.notify turn control).stored = c.stored := by
  unfold notify
  repeat' split
  all_goals rfl

@[simp]
theorem notify_mutation : (c.notify turn control).mutation = c.mutation := by
  unfold notify
  repeat' split
  all_goals rfl

@[simp]
theorem notify_live : (c.notify turn control).live = c.live := by
  unfold notify
  repeat' split
  all_goals rfl

end

section
variable (interrupted : Option TurnId)

@[simp]
theorem notifyInterrupted_stored : (c.notifyInterrupted interrupted).stored = c.stored := by
  cases interrupted <;> simp [notifyInterrupted]

@[simp]
theorem notifyInterrupted_mutation : (c.notifyInterrupted interrupted).mutation = c.mutation := by
  cases interrupted <;> simp [notifyInterrupted]

@[simp]
theorem notifyInterrupted_live : (c.notifyInterrupted interrupted).live = c.live := by
  cases interrupted <;> simp [notifyInterrupted]

end

@[simp]
theorem dropControl_stored : c.dropControl.stored = c.stored := by
  unfold dropControl
  split <;> rfl

@[simp]
theorem dropControl_live : c.dropControl.live = c.live := by
  unfold dropControl
  split <;> rfl

@[simp]
theorem dropControl_owner : c.dropControl.mutation.owner = c.mutation.owner := by
  unfold dropControl
  split <;> rfl

theorem dropControl_control : c.dropControl.mutation.control = none := by
  unfold dropControl
  split
  · rfl
  · assumption

@[simp]
theorem startedHead_turn (head : QueuedTurn Work) : (startedHead head).turn = head.turn := by
  unfold startedHead
  split <;> rfl

@[simp]
theorem startedHead_control (head : QueuedTurn Work) :
    (startedHead head).control = head.control := by
  unfold startedHead
  split <;> rfl

@[simp]
theorem poll_stored (watch : WatchId) : (c.poll watch).2.stored = c.stored := by
  unfold poll
  split <;> rfl

@[simp]
theorem claim_stored (identity : LeaseIdentity) : (c.claim identity).2.stored = c.stored := by
  unfold claim
  split <;> rfl

end

/-- Everything an operation can do to the stored record, with the guards it passed. -/
inductive QueueEffect (c : Coordinator Work) (op : Op Work) :
    Response Work → TurnQueueState Work → Prop where
  | unchanged {response : Response Work} (hresponse : ∀ turn, response ≠ .accepted ⟨turn, false⟩) :
      QueueEffect c op response c.stored
  | admitted {now : ℤ} {turn : TurnSubmission Work} (hop : op = .enqueue .ok now turn)
      (hnew : duplicateOf c.stored.pending (retainReceipts now c.stored.receipts) turn = none) :
      QueueEffect c op (.accepted ⟨turn.turn, false⟩) (c.acceptState now turn)
  | controlled {turn : TurnId} {authority : TurnAuthority} {control : TurnControl}
      {entry : QueuedTurn Work} (hop : op.controlRequest = some (turn, authority, control))
      (hfind : c.stored.pending.find? (fun entry ↦ entry.turn.id = turn) = some entry)
      (hpermits : authority.permits entry = true)
      (hfinal : entry.control = .cancel → control = .cancel) :
      QueueEffect c op (.outcome (if entry.started then .running else .queued))
        { c.stored with pending := setControl turn control c.stored.pending }
  | started {store : StoreOutcome} {lease : LeaseIdentity} {head : QueuedTurn Work}
      {rest : List (QueuedTurn Work)} {watch : WatchId}
      (hop : op = .start store lease head.turn.id)
      (hcheck : c.mutation.check c.live lease = true)
      (hpending : c.stored.pending = head :: rest) :
      QueueEffect c op (.started (startedHead head) watch)
        { c.stored with pending := startedHead head :: rest }
  | removed {store : StoreOutcome} {lease : LeaseIdentity} {head : QueuedTurn Work}
      {rest : List (QueuedTurn Work)}
      (hop : op = .acknowledge store lease head.turn.id)
      (hcheck : c.mutation.check c.live lease = true)
      (hpending : c.stored.pending = head :: rest)
      (hnew : c.stored.acknowledged ≠ some head.turn.id) :
      QueueEffect c op (.entry rest.head?)
        { c.stored with pending := rest, acknowledged := some head.turn.id }

theorem QueueEffect.failed {c : Coordinator Work} {op : Op Work} {α : Type}
    {wrap : α → Response Work} {error : CoordinatorError} :
    QueueEffect c op (.ofExcept wrap (.error error)) c.stored :=
  .unchanged nofun

section
variable (c : Coordinator Work)

theorem updateControl_effect (op : Op Work) (store : StoreOutcome)
    (turn : TurnId) (authority : TurnAuthority) (control : TurnControl)
    (hop : op.controlRequest = some (turn, authority, control)) :
    QueueEffect c op (.ofExcept .outcome (c.updateControl store turn authority control).1)
      (c.updateControl store turn authority control).2.stored := by
  unfold updateControl
  split
  · exact .failed
  cases hfind : c.stored.pending.find? (fun entry ↦ entry.turn.id = turn) with
  | none => exact .unchanged (by simp [Response.ofExcept])
  | some entry =>
    dsimp only
    split
    · exact .unchanged (by simp [Response.ofExcept])
    split
    · exact .failed
    split
    · exact .failed
    rename_i hpermits hfinal _
    rw [notify_stored]
    refine .controlled hop hfind (by simpa using hpermits) ?_
    intro hcancel
    by_contra hcontrol
    exact hfinal ⟨hcancel, hcontrol⟩

section
variable (store : StoreOutcome)

theorem enqueue_effect (now : ℤ)
    (turn : TurnSubmission Work) :
    QueueEffect c (.enqueue store now turn) (.ofExcept .accepted (c.enqueue store now turn).1)
      (c.enqueue store now turn).2.stored := by
  unfold enqueue
  split
  · exact .failed
  cases hnew : duplicateOf c.stored.pending (retainReceipts now c.stored.receipts) turn with
  | some record => exact .unchanged (by simp [Response.ofExcept])
  | none =>
    dsimp only
    split
    · exact .failed
    have hstore : store = .ok := by cases store <;> simp_all
    rw [notifyInterrupted_stored]
    exact .admitted (by rw [hstore]) hnew

section
variable (lease : LeaseIdentity) (turn : TurnId)

theorem start_effect : QueueEffect c (.start store lease turn)
      (.ofExcept (fun started ↦ .started started.1 started.2) (c.start store lease turn).1)
      (c.start store lease turn).2.stored := by
  unfold start
  split
  · exact .failed
  split
  · exact .failed
  cases hpending : c.stored.pending with
  | nil => exact .failed
  | cons head rest =>
    dsimp only
    split
    · exact .failed
    split
    · exact .failed
    rename_i hcheck _ hid _
    have hturn : head.turn.id = turn := by simpa using hid
    subst hturn
    exact .started rfl (by simpa using hcheck) hpending

theorem acknowledge_effect : QueueEffect c (.acknowledge store lease turn)
      (.ofExcept .entry (c.acknowledge store lease turn).1)
      (c.acknowledge store lease turn).2.stored := by
  unfold acknowledge
  split
  · exact .failed
  split
  · exact .failed
  split
  · exact .unchanged (by simp [Response.ofExcept])
  cases hpending : c.stored.pending with
  | nil => exact .failed
  | cons head rest =>
    dsimp only
    split
    · exact .failed
    split
    · exact .failed
    rename_i hcheck _ hnew hid _
    have hturn : head.turn.id = turn := by simpa using hid
    subst hturn
    exact .removed rfl (by simpa using hcheck) hpending hnew

end

end

theorem Response.ofExcept_ne {α : Type} {wrap : α → Response Work} {response : Response Work}
    (hwrap : ∀ value, wrap value ≠ response) (hfailed : ∀ error, .failed error ≠ response)
    (result : Except CoordinatorError α) : Response.ofExcept wrap result ≠ response := by
  cases result with
  | ok value => exact hwrap value
  | error error => exact hfailed error

/-- Only `start` answers with a stream, and only on the head and for the owner. -/
theorem perform_started {c : Coordinator Work} {op : Op Work} {head : QueuedTurn Work}
    {watch : WatchId} (hstarted : (c.perform op).1 = .started head watch) :
    ∃ store lease first rest, op = .start store lease first.turn.id ∧
      c.mutation.check c.live lease = true ∧ c.stored.pending = first :: rest ∧
      head = startedHead first ∧ watch = c.watches.length ∧
      (c.perform op).2 = { c with
        stored := { c.stored with pending := startedHead first :: rest }
        mutation := { c.mutation with control := some (first.turn.id, c.watches.length) }
        watches := c.dropControl.watches ++ [Watch.channel first.control] } := by
  cases op with
  | start store lease turn =>
    revert hstarted
    simp only [perform]
    unfold start
    split
    · intro hstarted; cases hstarted
    split
    · intro hstarted; cases hstarted
    cases hpending : c.stored.pending with
    | nil => intro hstarted; cases hstarted
    | cons first rest =>
      dsimp only
      split
      · intro hstarted; cases hstarted
      split
      · intro hstarted; cases hstarted
      rename_i hcheck _ hid _
      have hturn : first.turn.id = turn := by simpa using hid
      subst hturn
      intro hstarted
      cases hstarted
      exact ⟨store, lease, first, rest, rfl, by simpa using hcheck, rfl, rfl, rfl, rfl⟩
  | claim | poll | dropLease | dropThreadState => cases hstarted
  | _ =>
    exact absurd hstarted (Response.ofExcept_ne (by simp) (by simp) _)

@[simp]
theorem releaseIfIdle_stored (store : StoreOutcome)
    (lease : LeaseIdentity) : (c.releaseIfIdle store lease).2.stored = c.stored := by
  unfold releaseIfIdle
  repeat' split
  all_goals simp

/-- The stored record after any operation is given by one of the effects. -/
theorem perform_effect (op : Op Work) :
    QueueEffect c op (c.perform op).1 (c.perform op).2.stored := by
  cases op with
  | enqueue store now turn => exact enqueue_effect c store now turn
  | cancel store turn authority => exact updateControl_effect c _ store turn authority _ rfl
  | setSuspended store turn authority suspended =>
    exact updateControl_effect c _ store turn authority _ rfl
  | start store lease turn => exact start_effect c store lease turn
  | acknowledge store lease turn => exact acknowledge_effect c store lease turn
  | claim identity =>
    simp only [perform, claim_stored]
    exact .unchanged (by simp)
  | get store turn =>
    exact .unchanged (by simp only [perform]; cases c.get store turn <;> simp [Response.ofExcept])
  | peek store lease =>
    exact .unchanged (by simp only [perform]; cases c.peek store lease <;> simp [Response.ofExcept])
  | releaseIfIdle store lease =>
    simp only [perform, releaseIfIdle_stored]
    exact .unchanged (by
      cases (c.releaseIfIdle store lease).1 <;> simp [Response.ofExcept])
  | poll watch =>
    simp only [perform, poll_stored]
    exact .unchanged (by simp)
  | dropLease lease => exact .unchanged (by simp [perform])
  | dropThreadState =>
    simp only [perform, dropThreadState, dropControl_stored]
    exact .unchanged (by simp)

end

end Coordinator

end Exo.TurnCoordinator
