import Mathlib.Algebra.Ring.Nat
import Mathlib.Data.List.Sort
import Exo.Library.System

/-!
# The adapter outbox

An outbound message moves between four directories: `outbox`, `outbox-inflight`, `outbox-delivered`
and `outbox-failed`.  A file is replaced atomically, but a move is a write and one or two removals,
and the process can die between any two of them.  A claim writes the new file before it removes the
old one, and so does an acknowledgement; a negative acknowledgement removes first and writes last.
After a crash the worker starts again by requeueing what is in flight.
-/

namespace Exo.Adapters

open Library

inductive AdapterDeliveryStatus where
  | queued
  | inFlight
  | delivered
  | failed
  deriving DecidableEq

structure AdapterOutboundMessageRecord where
  id : String
  createdAtMs : ℕ
  text : String
  target : Option String
  status : AdapterDeliveryStatus
  attempt : ℕ
  updatedAtMs : ℕ
  completedAtMs : Option ℕ
  lastError : Option String
  deriving DecidableEq

def maxQueuedMessagesPerAdapter : ℕ := 1000

def maxMessagesPerClaim : ℕ := 100

def maxDeliveryAttempts : ℕ := 3

/-- `AdapterOutboundMessageRecord::new`, with the identifier and the time it draws. -/
def AdapterOutboundMessageRecord.new (id text : String) (target : Option String) (nowMs : ℕ) :
    AdapterOutboundMessageRecord :=
  ⟨id, nowMs, text, target, .queued, 0, nowMs, none, none⟩

/-- `attempt.saturating_add(1)` on 32 bits. -/
def nextAttempt (attempt : ℕ) : ℕ := min (attempt + 1) (2 ^ 32 - 1)

/-- A directory of messages, by file stem. -/
abbrev Directory := String → Option AdapterOutboundMessageRecord

namespace Directory

variable (directory : Directory)

section
variable (message : AdapterOutboundMessageRecord)

/-- `write_json_file`. -/
def write : Directory :=
  fun id ↦ if id = message.id then some message else directory id

/-- `remove_file_if_exists`. -/
def remove (messageId : String) : Directory :=
  fun id ↦ if id = messageId then none else directory id

theorem write_self : directory.write message message.id = some message := by
  simp [write]

end

theorem write_of_ne {message : AdapterOutboundMessageRecord} {id : String} (hid : id ≠ message.id) :
    directory.write message id = directory id := by
  simp [write, hid]

theorem remove_self (messageId : String) : directory.remove messageId messageId = none := by
  simp [remove]

theorem remove_of_ne {messageId id : String} (hid : id ≠ messageId) :
    directory.remove messageId id = directory id := by
  simp [remove, hid]

end Directory

/-- Where a call stands: what it has in memory and which file step comes next. -/
inductive OutboxTask where
  /-- The loop of `claim_outbound_messages` over the entries of the outbox. -/
  | claiming (entries : List String) (messages : List AdapterOutboundMessageRecord)
  /-- The message is in flight and its outbox file will be removed. -/
  | claimed (message : AdapterOutboundMessageRecord) (entries : List String)
    (messages : List AdapterOutboundMessageRecord)
  /-- `acknowledge_outbound_message`, before each of its three steps. -/
  | delivering (message : AdapterOutboundMessageRecord)
  | delivered (message : AdapterOutboundMessageRecord)
  | unqueueing (message : AdapterOutboundMessageRecord)
  /-- `nack_outbound_message`, before each of its three steps; `rest` is what
  `requeue_inflight_messages` has left to do. -/
  | retracting (message : AdapterOutboundMessageRecord) (rest : List String)
  | withdrawing (message : AdapterOutboundMessageRecord) (rest : List String)
  | returning (message : AdapterOutboundMessageRecord) (rest : List String)
  /-- The loop of `requeue_inflight_messages`. -/
  | requeueing (rest : List String)

/-- The calls of the worker; `entries` is the order in which a directory is listed. -/
inductive OutboxCall where
  | claimOutboundMessages (entries : List String)
  | acknowledgeOutboundMessage (messageId : String)
  | nackOutboundMessage (messageId error : String)
  | requeueOutboundMessage (messageId : String)
  | requeueInflightMessages (entries : List String)

/-- The directories of an adapter, the call in progress and what happened so far: the identifiers
of all messages enqueued and the messages that claims returned. -/
structure Outbox where
  outbox : Directory
  inflight : Directory
  delivered : Directory
  failed : Directory
  task : Option OutboxTask
  restarting : Bool
  enqueued : List String
  returned : List AdapterOutboundMessageRecord

/-- A message is enqueued, at any time and with a new identifier; a call of the worker begins with
its reads, takes its next file step, or the process dies. -/
inductive OutboxLabel where
  | enqueue (id text : String) (target : Option String) (nowMs : ℕ)
  | begin (call : OutboxCall) (nowMs : ℕ)
  | step (nowMs : ℕ)
  | crash

def requeueError : String := "worker stopped before acknowledging command"

namespace Outbox

variable (state : Outbox)

/-- The files of a directory. -/
def files (directory : Directory) : List String :=
  state.enqueued.filter fun id ↦ (directory id).isSome

/-- `count_pending_messages`. -/
def countPendingMessages : ℕ :=
  (state.files state.outbox).length + (state.files state.inflight).length

/-- `read_pending_outbound_message`: what is in flight comes first. -/
def readPendingOutboundMessage (messageId : String) : Option AdapterOutboundMessageRecord :=
  state.inflight messageId <|> state.outbox messageId

/-- `enqueue_outbound_message`: nothing is written when the queue is full. -/
def enqueueOutboundMessage (message : AdapterOutboundMessageRecord) : Outbox :=
  if state.countPendingMessages ≥ maxQueuedMessagesPerAdapter then state
  else
    { state with
      outbox := state.outbox.write message, enqueued := state.enqueued ++ [message.id] }

/-- The first read of `nack_outbound_message`, and what it makes of the message. -/
def nack (messageId error : String) (nowMs : ℕ) (rest : List String) : Option OutboxTask :=
  match state.readPendingOutboundMessage messageId with
  | none => some (.requeueing rest)
  | some message =>
    some (.retracting { message with lastError := some error, updatedAtMs := nowMs } rest)

/-- The reads with which a call begins. -/
def begin (call : OutboxCall) (nowMs : ℕ) : Outbox :=
  match call with
  | .claimOutboundMessages entries => { state with task := some (.claiming entries []) }
  | .acknowledgeOutboundMessage messageId =>
    { state with
      task := (state.readPendingOutboundMessage messageId).map fun message ↦
        .delivering { message with
          status := .delivered, updatedAtMs := nowMs, completedAtMs := some nowMs,
          lastError := none } }
  | .nackOutboundMessage messageId error =>
    { state with task := state.nack messageId error nowMs [] }
  | .requeueOutboundMessage messageId =>
    { state with task := state.nack messageId requeueError nowMs [] }
  | .requeueInflightMessages entries =>
    { state with task := some (.requeueing entries), restarting := false }

/-- `messages.sort_by_key(|message| message.created_at_ms)`, a stable sort. -/
def sortMessages (messages : List AdapterOutboundMessageRecord) :
    List AdapterOutboundMessageRecord :=
  messages.insertionSort fun first second ↦ first.createdAtMs ≤ second.createdAtMs

/-- The next step of the call in progress, and the messages it returns. -/
def advance (nowMs : ℕ) : OutboxTask → Outbox × List AdapterOutboundMessageRecord
  | .claiming entries messages =>
    if messages.length < maxMessagesPerClaim then
      match entries with
      | [] => ({ state with task := none }, sortMessages messages)
      | id :: entries =>
        match state.outbox id with
        | none => ({ state with task := none }, [])
        | some message =>
          let message := { message with
            status := .inFlight, attempt := nextAttempt message.attempt, updatedAtMs := nowMs }
          ({ state with
              inflight := state.inflight.write message
              task := some (.claimed message entries messages) }, [])
    else ({ state with task := none }, sortMessages messages)
  | .claimed message entries messages =>
    ({ state with
        outbox := state.outbox.remove message.id
        task := some (.claiming entries (messages ++ [message])) }, [])
  | .delivering message =>
    ({ state with
        delivered := state.delivered.write message, task := some (.delivered message) }, [])
  | .delivered message =>
    ({ state with
        inflight := state.inflight.remove message.id, task := some (.unqueueing message) }, [])
  | .unqueueing message =>
    ({ state with outbox := state.outbox.remove message.id, task := none }, [])
  | .retracting message rest =>
    ({ state with
        inflight := state.inflight.remove message.id
        task := some (.withdrawing message rest) }, [])
  | .withdrawing message rest =>
    ({ state with
        outbox := state.outbox.remove message.id, task := some (.returning message rest) }, [])
  | .returning message rest =>
    if message.attempt ≥ maxDeliveryAttempts then
      let message := { message with
        status := .failed, completedAtMs := some message.updatedAtMs }
      ({ state with
          failed := state.failed.write message, task := some (.requeueing rest) }, [])
    else
      let message := { message with status := .queued }
      ({ state with
          outbox := state.outbox.write message, task := some (.requeueing rest) }, [])
  | .requeueing [] => ({ state with task := none }, [])
  | .requeueing (id :: rest) => ({ state with task := state.nack id requeueError nowMs rest }, [])

/-- What the step returns to a caller of `claim_outbound_messages`. -/
def returns : OutboxLabel → List AdapterOutboundMessageRecord
  | .step nowMs => (state.task.map fun task ↦ (state.advance nowMs task).2).getD []
  | _ => []

/-- The order in which the files of a directory are listed. -/
def Lists (directory : Directory) (entries : List String) : Prop :=
  entries.Perm (state.files directory)

instance (directory : Directory) (entries : List String) :
    Decidable (state.Lists directory entries) := inferInstanceAs (Decidable (List.Perm _ _))

/-- After a crash the worker begins with `requeue_inflight_messages`. -/
def Begins : OutboxCall → Prop
  | .claimOutboundMessages entries =>
    state.restarting = false ∧ state.Lists state.outbox entries
  | .requeueInflightMessages entries => state.Lists state.inflight entries
  | _ => state.restarting = false

instance (call : OutboxCall) : Decidable (state.Begins call) :=
  match call with
  | .claimOutboundMessages _ => inferInstanceAs (Decidable (_ ∧ _))
  | .acknowledgeOutboundMessage _ | .nackOutboundMessage _ _ | .requeueOutboundMessage _ =>
    inferInstanceAs (Decidable (_ = _))
  | .requeueInflightMessages entries =>
    inferInstanceAs (Decidable (state.Lists state.inflight entries))

end Outbox

/-- The calls of the worker on one adapter, one after another and file step by file step. -/
def outboxCalls : System Outbox OutboxLabel where
  enabled state
    | .enqueue id _ _ _ => id ∉ state.enqueued
    | .begin call _ => state.task = none ∧ state.Begins call
    | .step _ => state.task.isSome = true
    | .crash => True
  next state
    | .enqueue id text target nowMs =>
      state.enqueueOutboundMessage (.new id text target nowMs)
    | .begin call nowMs => state.begin call nowMs
    | .step nowMs =>
      match state.task with
      | none => state
      | some task =>
        let (after, messages) := state.advance nowMs task
        { after with returned := state.returned ++ messages }
    | .crash => { state with task := none, restarting := true }

instance (state : Outbox) (label : OutboxLabel) : Decidable (outboxCalls.enabled state label) :=
  match label with
  | .enqueue id _ _ _ => inferInstanceAs (Decidable (id ∉ state.enqueued))
  | .begin _ _ => inferInstanceAs (Decidable (_ ∧ _))
  | .step _ => inferInstanceAs (Decidable (_ = _))
  | .crash => isTrue trivial

/-- No message yet. -/
def Outbox.initial : Outbox :=
  ⟨fun _ ↦ none, fun _ ↦ none, fun _ ↦ none, fun _ ↦ none, none, false, [], []⟩

end Exo.Adapters
