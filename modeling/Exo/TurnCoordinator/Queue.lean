import Mathlib.Data.Int.Order.Basic
import Exo.Library.UpdateFirst
import Exo.Library.WatchChannel

/-!
# The stored turn coordinator

One thread's turn queue as `StoredTurnCoordinator` keeps it: the record behind the
`TurnQueueStore`, the in-memory `ThreadMutation` (the owner pointer and the control watch), and the
set of lease identities of which some clone is still alive.  Every operation below is one critical
section of the source under the per-thread mutation lock, with the store call that may fail in it
as an argument; a failing store call has no effect.

A `Weak` owner pointer upgrades exactly while a clone of that lease identity is alive.  Identities
are addresses: a fresh one is only known not to be in use at the moment of the claim.
-/

namespace Exo.TurnCoordinator

open Library

abbrev Uuid7 := ℕ
abbrev TurnId := Uuid7
abbrev SessionId := Uuid7

/-- The address of the `Arc<()>` that identifies a lease. -/
abbrev LeaseIdentity := ℕ
abbrev WatchId := ℕ

structure TurnRecord where
  id : TurnId
  sessionId : SessionId
  deriving DecidableEq

inductive TurnAttention where
  | wake
  | interrupt
  deriving DecidableEq

structure TurnOptions where
  idempotencyKey : Option String := none
  attention : TurnAttention := .wake

section
variable (Work : Type)

/-- Caller-supplied work. -/
structure TurnSubmission where
  turn : TurnRecord
  work : Work
  principal : Option String
  options : TurnOptions := {}

inductive TurnControl where
  | run
  | cancel
  | suspend
  deriving DecidableEq

/-- A coordinator-owned snapshot of pending work. -/
structure QueuedTurn where
  turn : TurnRecord
  work : Work
  principal : Option String
  started : Bool
  control : TurnControl
  deriving DecidableEq

structure AcceptedTurn where
  turn : TurnRecord
  duplicate : Bool
  deriving DecidableEq

inductive TurnControlOutcome where
  | notFound
  | notAccessible
  | queued
  | running
  deriving DecidableEq

inductive TurnAuthority where
  | threadOwner
  | submitter (principal : String)

structure TurnReceipt where
  principal : Option String
  key : String
  turn : TurnRecord
  expiresAt : ℤ

structure TurnQueueState where
  pending : List (QueuedTurn Work) := []
  receipts : List TurnReceipt := []
  acknowledged : Option TurnId := none

/-- The in-memory half of a thread: the owner pointer and the sender of the current watch. -/
structure ThreadMutation where
  owner : Option LeaseIdentity := none
  control : Option (TurnId × WatchId) := none

inductive CoordinatorError where
  | store
  | ownershipLost
  | queueEmpty
  | notQueueHead
  | cancelledTurn
  deriving DecidableEq

/-- The texts of the checks; a store error carries the store's own text. -/
def CoordinatorError.message : CoordinatorError → String
  | .store => ""
  | .ownershipLost => "turn ownership lost"
  | .queueEmpty => "turn queue is empty"
  | .notQueueHead => "turn is not the queue head"
  | .cancelledTurn => "cancelled turns cannot be resumed or suspended"

/-- Which call of the store fails, if any, during one operation. -/
inductive StoreOutcome where
  | ok
  | loadFails
  | saveFails
  deriving DecidableEq

/-- One thread of a coordinator: its durable record and its volatile state. -/
structure Coordinator where
  stored : TurnQueueState Work := {}
  mutation : ThreadMutation := {}
  live : List LeaseIdentity := []
  watches : List (Watch TurnControl) := []

end

variable {Work : Type}

section
variable (mutation : ThreadMutation) (live : List LeaseIdentity)

/-- `owner.upgrade().is_some()`. -/
def ThreadMutation.ownerAlive : Bool :=
  match mutation.owner with
  | some owner => decide (owner ∈ live)
  | none => false

/-- `ThreadMutation::check`: the owner pointer upgrades to this very lease. -/
def ThreadMutation.check (lease : LeaseIdentity) : Bool :=
  match mutation.owner with
  | some owner => decide (owner ∈ live) && decide (owner = lease)
  | none => false

end

/-- Whether `authority` may control `entry`. -/
def TurnAuthority.permits (authority : TurnAuthority) (entry : QueuedTurn Work) : Bool :=
  match authority with
  | .threadOwner => true
  | .submitter principal => decide (entry.principal = some principal)

namespace Coordinator

section
variable (c : Coordinator Work)

/-- `ThreadMutation::notify`: send to the watch if it is the one of this turn. -/
def notify (turn : TurnId) (control : TurnControl) : Coordinator Work :=
  match c.mutation.control with
  | some (id, watch) =>
    if id = turn then { c with watches := c.watches.modify watch (·.sendReplace control) } else c
  | none => c

/-- Tell the watch of an interrupted head, if there is one, that it is cancelled. -/
def notifyInterrupted (interrupted : Option TurnId) : Coordinator Work :=
  match interrupted with
  | some id => c.notify id .cancel
  | none => c

/-- Drop the sender of the current watch, which ends its stream. -/
def dropControl : Coordinator Work :=
  match c.mutation.control with
  | some (_, watch) =>
    { c with
      mutation := { c.mutation with control := none }
      watches := c.watches.modify watch (·.close) }
  | none => c

end

/-- Write `control` to the first entry with this id. -/
def setControl (turn : TurnId) (control : TurnControl) (pending : List (QueuedTurn Work)) :
    List (QueuedTurn Work) :=
  updateFirst (fun entry ↦ entry.turn.id = turn) (fun entry ↦ { entry with control := control })
    pending

section
variable (store : StoreOutcome)

section
variable (c : Coordinator Work)

section
variable (turn : TurnId) (authority : TurnAuthority)

/-- `update_control`, the body shared by `cancel` and `set_suspended`. -/
def updateControl (control : TurnControl) :
    Except CoordinatorError TurnControlOutcome × Coordinator Work :=
  if store = .loadFails then (.error .store, c) else
  match c.stored.pending.find? (fun entry ↦ entry.turn.id = turn) with
  | none => (.ok .notFound, c)
  | some entry =>
    if !authority.permits entry then (.ok .notAccessible, c)
    else if entry.control = .cancel ∧ control ≠ .cancel then (.error .cancelledTurn, c)
    else if store = .saveFails then (.error .store, c)
    else
      let saved := { c with
        stored := { c.stored with pending := setControl turn control c.stored.pending } }
      (.ok (if entry.started then .running else .queued), saved.notify turn control)

def cancel (turn : TurnId)
    (authority : TurnAuthority) : Except CoordinatorError TurnControlOutcome × Coordinator Work :=
  updateControl store c turn authority .cancel

def setSuspended (suspended : Bool) :
    Except CoordinatorError TurnControlOutcome × Coordinator Work :=
  updateControl store c turn authority (if suspended then .suspend else .run)

end

/-- The receipts still valid at `now`. -/
def retainReceipts (now : ℤ) (receipts : List TurnReceipt) : List TurnReceipt :=
  receipts.filter (fun receipt ↦ now < receipt.expiresAt)

/-- The record a submission is a duplicate of: a pending entry with its id, else a receipt with
its key and principal. -/
def duplicateOf (pending : List (QueuedTurn Work)) (receipts : List TurnReceipt)
    (turn : TurnSubmission Work) : Option TurnRecord :=
  match pending.find? (fun entry ↦ entry.turn.id = turn.turn.id) with
  | some entry => some entry.turn
  | none =>
    match turn.options.idempotencyKey with
    | none => none
    | some key =>
      (receipts.find? (fun receipt ↦
        receipt.key = key ∧ receipt.principal = turn.principal)).map (·.turn)

section
variable (turn : TurnSubmission Work)

/-- Whether an interrupting submission cancels this head. -/
def interrupts (head : QueuedTurn Work) : Bool :=
  decide (turn.options.attention = .interrupt) &&
    (head.started || c.mutation.ownerAlive c.live) && decide (head.principal = turn.principal)

/-- The head an interrupting submission cancels. -/
def interrupted : Option TurnId :=
  match c.stored.pending with
  | [] => none
  | head :: _ => if c.interrupts turn head then some head.turn.id else none

/-- The entry a submission is queued as. -/
def entryOf : QueuedTurn Work where
  turn := turn.turn
  work := turn.work
  principal := turn.principal
  started := false
  control := .run

/-- The retention of a receipt, in seconds. -/
def receiptLifetime : ℤ := 24 * 60 * 60

/-- The receipt of a keyed submission accepted at `now`. -/
def receiptOf (now : ℤ) (turn : TurnSubmission Work) : List TurnReceipt :=
  match turn.options.idempotencyKey with
  | none => []
  | some key => [⟨turn.principal, key, turn.turn, now + receiptLifetime⟩]

/-- The pending entries after the interruption, if any, and before the append. -/
def cancelHead : List (QueuedTurn Work) :=
  if (c.interrupted turn).isSome then
    c.stored.pending.modifyHead (fun head ↦ { head with control := .cancel })
  else c.stored.pending

end

section
variable (now : ℤ) (c : Coordinator Work) (turn : TurnSubmission Work)

/-- The record saved when a submission is accepted at `now`. -/
def acceptState : TurnQueueState Work :=
  { c.stored with
    pending := c.cancelHead turn ++ [entryOf turn]
    receipts := retainReceipts now c.stored.receipts ++ receiptOf now turn }

def enqueue : Except CoordinatorError AcceptedTurn × Coordinator Work :=
  if store = .loadFails then (.error .store, c) else
  match duplicateOf c.stored.pending (retainReceipts now c.stored.receipts) turn with
  | some record => (.ok ⟨record, true⟩, c)
  | none =>
    if store = .saveFails then (.error .store, c)
    else
      let saved := { c with stored := c.acceptState now turn }
      (.ok ⟨turn.turn, false⟩, saved.notifyInterrupted (c.interrupted turn))

end

/-- `claim`, with the address the new lease identity is allocated at. -/
def claim (identity : LeaseIdentity) : Option LeaseIdentity × Coordinator Work :=
  if c.mutation.ownerAlive c.live then (none, c)
  else (some identity, { c with
    mutation := { c.mutation with owner := some identity }
    live := identity :: c.live })

/-- Read a pending turn's accepted work and control state. -/
def get (turn : TurnId) : Except CoordinatorError (Option (QueuedTurn Work)) :=
  if store = .loadFails then .error .store
  else .ok (c.stored.pending.find? (fun entry ↦ entry.turn.id = turn))

section
variable (lease : LeaseIdentity)

def peek : Except CoordinatorError (Option (QueuedTurn Work)) :=
  if !c.mutation.check c.live lease then .error .ownershipLost
  else if store = .loadFails then .error .store
  else .ok c.stored.pending.head?

/-- Whether `start` persists the head as started. -/
def marksStarted (head : QueuedTurn Work) : Bool :=
  !head.started && decide (head.control ≠ .suspend)

/-- The head as `start` leaves and returns it. -/
def startedHead (head : QueuedTurn Work) : QueuedTurn Work :=
  if marksStarted head then { head with started := true } else head

def start (turn : TurnId) :
    Except CoordinatorError (QueuedTurn Work × WatchId) × Coordinator Work :=
  if !c.mutation.check c.live lease then (.error .ownershipLost, c)
  else if store = .loadFails then (.error .store, c)
  else match c.stored.pending with
  | [] => (.error .queueEmpty, c)
  | head :: rest =>
    if head.turn.id ≠ turn then (.error .notQueueHead, c)
    else if marksStarted head ∧ store = .saveFails then (.error .store, c)
    else
      -- Installing the new sender drops the previous one.
      (.ok (startedHead head, c.watches.length), { c with
        stored := { c.stored with pending := startedHead head :: rest }
        mutation := { c.mutation with control := some (turn, c.watches.length) }
        watches := c.dropControl.watches ++ [Watch.channel head.control] })

def acknowledge
    (turn : TurnId) : Except CoordinatorError (Option (QueuedTurn Work)) × Coordinator Work :=
  if !c.mutation.check c.live lease then (.error .ownershipLost, c)
  else if store = .loadFails then (.error .store, c)
  else if c.stored.acknowledged = some turn then (.ok c.stored.pending.head?, c)
  else match c.stored.pending with
  | [] => (.error .notQueueHead, c)
  | head :: rest =>
    if head.turn.id ≠ turn then (.error .notQueueHead, c)
    else if store = .saveFails then (.error .store, c)
    else (.ok rest.head?, { c.dropControl with
      stored := { c.stored with pending := rest, acknowledged := some turn } })

/-- Whether the stored head, if any, keeps its owner from releasing. -/
def runnable (pending : List (QueuedTurn Work)) : Bool :=
  match pending with
  | [] => false
  | head :: _ => decide (head.control ≠ .suspend)

def releaseIfIdle : Except CoordinatorError Bool × Coordinator Work :=
  if !c.mutation.check c.live lease then (.error .ownershipLost, c)
  else if store = .loadFails then (.error .store, c)
  else if runnable c.stored.pending then (.ok false, c)
  else (.ok true, { c.dropControl with mutation := {} })

end

end

end

section
variable (c : Coordinator Work)

/-- Drop the last clone of a lease. -/
def dropLease (lease : LeaseIdentity) : Coordinator Work :=
  { c with live := c.live.filter (· ≠ lease) }

/-- The thread state is destroyed when its last `Arc` goes; the next operation makes a new one. -/
def dropThreadState : Coordinator Work :=
  { c.dropControl with mutation := {} }

/-- Poll the control stream that `start` returned. -/
def poll (watch : WatchId) : Poll TurnControl × Coordinator Work :=
  match c.watches[watch]? with
  | none => (.ended, c)
  | some channel =>
    (channel.poll.1, { c with watches := c.watches.modify watch (fun channel ↦ channel.poll.2) })

end

end Coordinator

end Exo.TurnCoordinator
