import Exo.Library.System

/-!
# The mutators of a thread

Every operation that changes the storage of a conversation is written down as its sequence of steps in
the order of the source: claims of the session scope, locks, loads of `record.json`, puts.  The steps of
the operations that run at the same time interleave; a lock is held to the end of its operation unless
it is dropped before.  An operation fails where it looks for something that is gone, and it may fail or
be dropped at any other step as well (a policy check, the storage, a cancelled request), which releases
its locks.  The storage works in blocking tasks that nothing cancels: the put or delete that a dropped
operation was waiting for takes effect at some later step.
-/

namespace Exo.Threads

open Library

/-- The objects below the directory of a conversation. -/
inductive ThreadKey where
  | record
  | caller
  | turnQueue
  | event (id : ℕ)
  | artifactMetadata (id : ℕ)
  | artifactContents (id : ℕ)
  | sandbox (id : ℕ)
  deriving DecidableEq

/-- The id of a sandbox record. -/
def ThreadKey.sandbox? : ThreadKey → Option ℕ
  | .sandbox id => some id
  | _ => none

/-- The steps of the operations. -/
inductive Action where
  /-- `claim_local_scope` asks whether this process owns the scope. -/
  | owns
  /-- `sessions.claim` after that answer was yes. -/
  | claimOwned
  | claim
  /-- `agent_change`. -/
  | lockNamespace
  | unlockNamespace
  /-- "session owner no longer exists". -/
  | requireRecord
  /-- The recovery of a new lease, which stops what a crashed owner left running. -/
  | recover
  | stopSandbox (id : ℕ)
  | recovered
  /-- `lock_thread_resources`. -/
  | lockResources
  | lockWrite
  | unlockWrite
  /-- `load_conversation_record`. -/
  | loadRecord
  /-- A put after the record was looked at under a lock that is still held. -/
  | put (key : ThreadKey)
  /-- A put of a new event object, likewise. -/
  | appendEvents
  /-- A put that no look at the record precedes. -/
  | putUnchecked (key : ThreadKey)
  | putCaller (principal : String)
  | stopIfFinished (turn : ℕ)
  | setFinished (turn : ℕ)
  | stopIfCaller (principal : String)
  /-- `terminate_managed_sandboxes`, and the same under the write lock. -/
  | terminateSandboxes
  | terminateSandboxesLocked
  | loadSandbox (id : ℕ)
  | deleteSandbox (id : ℕ)
  /-- The event of a sandbox that was running, for a record that still loads. -/
  | sandboxStopped
  | stopIfEmpty
  /-- `prepare_sandbox_scopes_for_deletion`, with the attempts that are left. -/
  | prepare (attempts : ℕ)
  /-- The `ThreadDeleted` event, if the record loads. -/
  | appendDeleted
  | deletePrefix
  /-- The rest of `delete_prefix`: the walk that lists the keys, begun by the step before, and the
  deletes.  What is put meanwhile may escape the walk. -/
  | deleteKeys (keys : List ThreadKey)
  | release
  | returnDeleted
  | bail
  deriving DecidableEq

inductive OperationKind where
  | deleteConversation
  /-- `add_events`, `start_session` and `end_session` of a conversation. -/
  | addEvents
  | beginTurn
  | turnAddEvents
  | turnWriteArtifact
  | finish (turn : ℕ)
  | writeArtifact
  | attachVaults
  /-- Whether the environment changes, and whether with it the sandboxes have to be replaced. -/
  | updateEnvironment (changes replaces : Bool)
  | activateCaller (caller : Option String)
  | saveQueue

/-- One round of the loop of `delete_conversation`, and the rounds that are left. -/
def deleteLoop : ℕ → List Action
  | 0 => [.bail]
  | attempts + 1 =>
    [.terminateSandboxes, .lockWrite, .stopIfEmpty, .prepare attempts, .appendDeleted,
      .deletePrefix, .release, .returnDeleted]

def deleteConversation (sessions : Bool) : List Action :=
  [.lockResources, .stopIfEmpty] ++ (if sessions then [.lockNamespace, .claim] else []) ++
    deleteLoop 5

/-- `append_events_internal`, which `begin_turn` and `add_events` of a turn repeat. -/
def appendEventsInternal : List Action :=
  [.owns, .lockWrite, .loadRecord, .appendEvents]

def turnWriteArtifact (operation : ℕ) : List Action :=
  [.owns, .lockWrite, .loadRecord, .put (.artifactMetadata operation),
    .put (.artifactContents operation), .appendEvents]

def finish (turn : ℕ) : List Action :=
  [.owns, .lockWrite, .stopIfFinished turn, .loadRecord, .appendEvents, .setFinished turn]

/-- `write_artifact` of a conversation puts the artifact before it looks at the record. -/
def writeArtifact (operation : ℕ) : List Action :=
  [.owns, .lockWrite, .putUnchecked (.artifactMetadata operation),
    .putUnchecked (.artifactContents operation), .loadRecord, .appendEvents]

def attachVaults : List Action :=
  [.owns, .lockWrite, .loadRecord, .put .record]

def updateEnvironment (changes replaces : Bool) : List Action :=
  [.owns, .lockResources, .lockWrite, .loadRecord] ++
    if changes then
      (if replaces then [.terminateSandboxesLocked, .loadRecord] else []) ++ [.put .record]
    else []

/-- `activate_caller` takes no lock and never looks at the record. -/
def activateCaller : Option String → List Action
  | none => [.owns]
  | some principal =>
    [.owns, .stopIfCaller principal, .terminateSandboxes, .putCaller principal]

/-- `save` of the turn queue. -/
def saveQueue : List Action :=
  [.lockResources, .loadRecord, .put .turnQueue]

/-- The steps of an operation. -/
def OperationKind.program (sessions : Bool) (operation : ℕ) : OperationKind → List Action
  | .deleteConversation => Threads.deleteConversation sessions
  | .addEvents => appendEventsInternal
  | .beginTurn => appendEventsInternal
  | .turnAddEvents => appendEventsInternal
  | .turnWriteArtifact => Threads.turnWriteArtifact operation
  | .finish turn => Threads.finish turn
  | .writeArtifact => Threads.writeArtifact operation
  | .attachVaults => Threads.attachVaults
  | .updateEnvironment changes replaces => Threads.updateEnvironment changes replaces
  | .activateCaller caller => Threads.activateCaller caller
  | .saveQueue => Threads.saveQueue

/-- A call of the storage that changes it. -/
inductive StorageCall where
  | put (key : ThreadKey)
  | putCaller (principal : String)
  | delete (key : ThreadKey)
  deriving DecidableEq

/-- How an operation ended; `deleted` and `absent` are the two answers of `delete_conversation`. -/
inductive Outcome where
  | returned
  | deleted
  | absent
  | failed
  deriving DecidableEq

/-- An operation, with the steps it still has to do.  `failure` says that its recovery could not stop
some sandbox, and `late` that it was called after a deletion had returned. -/
structure Operation where
  kind : OperationKind
  program : List Action
  outcome : Option Outcome
  failure : Bool
  late : Bool

/-- A thread with its operations.  The locks name the operation that holds them. -/
structure ThreadState where
  /-- The harness has local sessions. -/
  sessions : Bool
  keys : List ThreadKey
  /-- What `caller.json` holds, where it exists. -/
  principal : String
  lease : Bool
  writeLock : Option ℕ
  resources : Option ℕ
  namespaceLock : Option ℕ
  finished : ℕ → Bool
  /-- The sandboxes that this process has to terminate. -/
  managed : ℕ → Bool
  nextEvent : ℕ
  operations : List Operation
  /-- What dropped operations have asked of the storage and is still under way. -/
  inFlight : List StorageCall

/-- A call, a step of an operation, or its end before.  `running` says whether the sandbox that a step
is about was running, and whether there is one to recover. -/
inductive ThreadLabel where
  | start (kind : OperationKind)
  | step (operation : ℕ) (running : Bool)
  | fail (operation : ℕ)
  /-- The operation is dropped while it waits for a call of its next step. -/
  | drop (operation : ℕ) (call : StorageCall)
  /-- A call of a dropped operation takes effect. -/
  | land (call : StorageCall)

/-- `stop_sandbox`, in the loop of `stop_owned_sandboxes`. -/
def recoverSandbox (id : ℕ) : List Action :=
  [.lockWrite, .stopSandbox id, .unlockWrite]

/-- `terminate_sandbox`. -/
def terminateSandbox (id : ℕ) : List Action :=
  [.lockWrite, .loadSandbox id, .deleteSandbox id, .sandboxStopped, .unlockWrite]

/-- `terminate_sandbox_locked`. -/
def terminateSandboxLocked (id : ℕ) : List Action :=
  [.loadSandbox id, .deleteSandbox id, .sandboxStopped]

namespace ThreadState

variable (state : ThreadState)

/-- A deletion has returned true. -/
def deleted : Bool :=
  state.operations.any (·.outcome = some .deleted)

/-- `list_sandboxes`. -/
def sandboxes : List ℕ :=
  state.keys.filterMap (·.sandbox?)

/-- The principal in `caller.json`. -/
def activeCaller : Option String :=
  if .caller ∈ state.keys then some state.principal else none

section
variable (operation : ℕ)

def proceed (program : List Action) : ThreadState :=
  { state with
    operations := state.operations.modify operation fun entry ↦ { entry with program := program } }

/-- The recovery goes on after a sandbox that could not be stopped. -/
def markFailure : ThreadState :=
  { state with
    operations := state.operations.modify operation fun entry ↦ { entry with failure := true } }

/-- The end of an operation, at which its guards are dropped. -/
def finish (outcome : Outcome) : ThreadState :=
  { state with
    writeLock := if state.writeLock = some operation then none else state.writeLock
    resources := if state.resources = some operation then none else state.resources
    namespaceLock := if state.namespaceLock = some operation then none else state.namespaceLock
    operations := state.operations.modify operation fun entry ↦
      { entry with outcome := some outcome } }

section
variable (key : ThreadKey)

def putKey : ThreadState :=
  { state with keys := if key ∈ state.keys then state.keys else key :: state.keys }

def deleteKey : ThreadState :=
  { state with keys := state.keys.filter (· ≠ key) }

/-- A new event object. -/
def putEvent : ThreadState :=
  { state.putKey (.event state.nextEvent) with nextEvent := state.nextEvent + 1 }

/-- The calls of the storage that a step waits for, one after the other. -/
def calls : Action → List StorageCall
  | .put key => [.put key]
  | .putUnchecked key => [.put key]
  | .putCaller principal => [.putCaller principal]
  | .appendEvents => [.put (.event state.nextEvent)]
  | .stopSandbox id =>
    if .sandbox id ∈ state.keys then .put (.sandbox id) ::
      if .record ∈ state.keys then [.put (.event state.nextEvent)] else []
    else []
  | .deleteSandbox id => [.delete (.sandbox id)]
  | .sandboxStopped => if .record ∈ state.keys then [.put (.event state.nextEvent)] else []
  | .appendDeleted => if .record ∈ state.keys then [.put (.event state.nextEvent)] else []
  | .deleteKeys (key :: _) => [.delete key]
  | _ => []

/-- What a call does when it takes effect. -/
def land : StorageCall → ThreadState
  | .put key => state.putKey key
  | .putCaller principal => { state.putKey .caller with principal := principal }
  | .delete key => state.deleteKey key

/-- An operation goes on if the object is there. -/
def require (operation : ℕ) (rest : List Action) : ThreadState :=
  if key ∈ state.keys then state.proceed operation rest else state.finish operation .failed

end

/-- What a step does, and what is left to do after it. -/
def perform (running : Bool) : Action → List Action → ThreadState
  | .owns, rest =>
    if state.sessions then
      state.proceed operation (if state.lease then .claimOwned :: .recover :: rest
        else .lockNamespace :: .requireRecord :: .claim :: .unlockNamespace :: .recover :: rest)
    else state.proceed operation rest
  | .claimOwned, rest => { state.proceed operation rest with lease := true }
  | .claim, rest => { state.proceed operation rest with lease := true }
  | .lockNamespace, rest => { state.proceed operation rest with namespaceLock := some operation }
  | .unlockNamespace, rest => { state.proceed operation rest with namespaceLock := none }
  | .requireRecord, rest => state.require .record operation rest
  | .recover, rest =>
    state.proceed operation
      (if running then state.sandboxes.flatMap recoverSandbox ++ .recovered :: rest else rest)
  | .stopSandbox id, rest =>
    if running then
      if .sandbox id ∈ state.keys ∧ .record ∈ state.keys then
        state.putEvent.proceed operation rest
      else (state.markFailure operation).proceed operation rest
    else state.proceed operation rest
  | .recovered, rest =>
    if (state.operations[operation]?).any (·.failure) then state.finish operation .failed
    else state.proceed operation rest
  | .lockResources, rest => { state.proceed operation rest with resources := some operation }
  | .lockWrite, rest => { state.proceed operation rest with writeLock := some operation }
  | .unlockWrite, rest => { state.proceed operation rest with writeLock := none }
  | .loadRecord, rest => state.require .record operation rest
  | .put key, rest => (state.putKey key).proceed operation rest
  | .appendEvents, rest => state.putEvent.proceed operation rest
  | .putUnchecked key, rest => (state.putKey key).proceed operation rest
  | .putCaller principal, rest =>
    { (state.putKey .caller).proceed operation rest with principal := principal }
  | .stopIfFinished turn, rest =>
    if state.finished turn then state.finish operation .returned else state.proceed operation rest
  | .setFinished turn, rest =>
    { state.proceed operation rest with
      finished := fun other ↦ if other = turn then true else state.finished other }
  | .stopIfCaller principal, rest =>
    if state.activeCaller = some principal then state.finish operation .returned
    else state.proceed operation rest
  | .terminateSandboxes, rest =>
    state.proceed operation
      ((state.sandboxes.filter state.managed).flatMap terminateSandbox ++ rest)
  | .terminateSandboxesLocked, rest =>
    state.proceed operation (state.sandboxes.flatMap terminateSandboxLocked ++ rest)
  | .loadSandbox id, rest => state.require (.sandbox id) operation rest
  | .deleteSandbox id, rest => (state.deleteKey (.sandbox id)).proceed operation rest
  | .sandboxStopped, rest =>
    if running then
      if .record ∈ state.keys then state.putEvent.proceed operation rest
      else state.finish operation .failed
    else state.proceed operation rest
  | .stopIfEmpty, rest =>
    if state.keys = [] then state.finish operation .absent else state.proceed operation rest
  | .prepare attempts, rest =>
    if state.sandboxes.any state.managed then
      { state.proceed operation (deleteLoop attempts) with writeLock := none }
    else state.proceed operation rest
  | .appendDeleted, rest =>
    if .record ∈ state.keys then state.putEvent.proceed operation rest
    else state.proceed operation rest
  | .deletePrefix, rest => state.proceed operation (.deleteKeys state.keys :: rest)
  | .deleteKeys [], rest => state.proceed operation rest
  | .deleteKeys (key :: keys), rest =>
    (state.deleteKey key).proceed operation (.deleteKeys keys :: rest)
  | .release, rest => { state.proceed operation rest with lease := false }
  | .returnDeleted, _ => state.finish operation .deleted
  | .bail, _ => state.finish operation .failed

/-- A lock that a step waits for is free. -/
def available : Action → Bool
  | .lockNamespace => state.namespaceLock.isNone
  | .lockResources => state.resources.isNone
  | .lockWrite => state.writeLock.isNone
  | _ => true

/-- The step that an operation is about to do. -/
def action? : Option Action :=
  (state.operations[operation]?).bind fun entry ↦ entry.program.head?

/-- The operation is under way. -/
def isRunning : Bool :=
  (state.operations[operation]?).any (·.outcome = none)

/-- The next step of an operation; an operation with nothing left to do returns. -/
def step (running : Bool) : ThreadState :=
  match state.operations[operation]? with
  | none => state
  | some entry =>
    match entry.program with
    | [] => state.finish operation .returned
    | action :: rest => state.perform operation running action rest

end

end ThreadState

/-- The operations on one thread. -/
def thread : System ThreadState ThreadLabel where
  enabled state
    | .start _ => True
    | .step operation _ =>
      state.isRunning operation = true ∧ (state.action? operation).all state.available = true
    | .fail operation => state.isRunning operation = true
    | .drop operation call => state.isRunning operation = true ∧
      (state.action? operation).any (call ∈ state.calls ·) = true
    | .land call => call ∈ state.inFlight
  next state
    | .start kind =>
      { state with
        operations := state.operations ++
          [⟨kind, kind.program state.sessions state.operations.length, none, false,
            state.deleted⟩] }
    | .step operation running => state.step operation running
    | .fail operation => state.finish operation .failed
    | .drop operation call =>
      { state.finish operation .failed with
        nextEvent := state.nextEvent + 1
        inFlight := call :: state.inFlight }
    | .land call => { state.land call with inFlight := state.inFlight.erase call }

instance (state : ThreadState) (label : ThreadLabel) : Decidable (thread.enabled state label) :=
  match label with
  | .start _ => isTrue trivial
  | .step _ _ => inferInstanceAs (Decidable (_ ∧ _))
  | .fail _ => inferInstanceAs (Decidable (_ = _))
  | .drop _ _ => inferInstanceAs (Decidable (_ ∧ _))
  | .land _ => inferInstanceAs (Decidable (_ ∈ _))

/-- A thread before any of the operations; whatever is stored, and whatever is finished. -/
def ThreadState.start (sessions lease : Bool) (keys : List ThreadKey) (principal : String)
    (finished managed : ℕ → Bool) (nextEvent : ℕ) : ThreadState :=
  ⟨sessions, keys, principal, lease, none, none, none, finished, managed, nextEvent, [], []⟩

end Exo.Threads
