import Mathlib.Data.String.Basic
import Exo.Library.System
import Exo.Library.WeakLocks

/-!
# Lifecycle operations

The operations of the controllers of one state root.  Each takes the locks of its sandbox or of the
machine's family, in order if there are two, and then goes through sections on machines: it ensures,
cleans up or captures one.  Which machine of its family an operation works on, and what comes of it,
is left open.

The family of a warm machine is its sandbox, but that of a one-shot is made from the sandbox, the
process id and a sequence that starts over with the process; the acquire of a one-shot holds the
sandbox's lock only.  A family is the text that `stable_id` hashes.
-/

namespace Exo.Firecracker

open Library

structure MachineName where
  /-- The text that is hashed into the id. -/
  family : String
  /-- Eight digits of the spec hash. -/
  spec : String
  deriving DecidableEq

namespace MachineName

def specPrefix (specHash : String) : String := String.ofList (specHash.toList.take 8)

def machineId (sandboxId specHash : String) : MachineName := ⟨sandboxId, specPrefix specHash⟩

def oneShotFamily (sandboxId : String) (pid sequence : ℕ) : String :=
  sandboxId ++ "\n" ++ toString pid ++ "\n" ++ toString sequence

def oneShotMachineId (sandboxId specHash : String) (pid sequence : ℕ) : MachineName :=
  ⟨oneShotFamily sandboxId pid sequence, specPrefix specHash⟩

end MachineName

/-- A sandbox id as they are generated, without a line break. -/
def PlainId (sandboxId : String) : Prop := '\n' ∉ sandboxId.toList

instance (sandboxId : String) : Decidable (PlainId sandboxId) :=
  inferInstanceAs (Decidable ('\n' ∉ sandboxId.toList))

inductive LifecycleOp where
  /-- A one-shot has its number in the sequence. -/
  | acquire (sandboxId specHash runtime : String) (sequence : Option ℕ)
  | restore (sandboxId specHash runtime : String)
  /-- `shutdown_request`, for a stop or a terminate of the sandbox. -/
  | shutdown (sandboxId : String)
  | fork (source target specHash runtime : String)
  | terminateAll (machine : MachineName)
  | reapStale (machine : MachineName)
  | reapExpired (machine : MachineName)
  /-- Stop or snapshot through a handle, and the end of a one-shot's command. -/
  | handle (machine : MachineName)

/-- What an operation does while it has its locks. -/
inductive LifecycleSection where
  /-- `ensure_machine`; the manifest has an idle TTL if `ttl`. -/
  | ensure (machine : MachineName) (specHash runtime : String) (ttl : Bool)
  | cleanup (machine : MachineName)
  | capture (machine : MachineName)

def LifecycleSection.machine : LifecycleSection → MachineName
  | ensure machine _ _ _ | cleanup machine | capture machine => machine

namespace LifecycleOp

/-- The keys that are locked, in order. -/
def keys : LifecycleOp → List String
  | acquire sandboxId _ _ _ | restore sandboxId _ _ | shutdown sandboxId => [sandboxId]
  | fork source target _ _ =>
    if source = target then [source]
    else if source < target then [source, target] else [target, source]
  | terminateAll machine | reapStale machine | reapExpired machine | handle machine =>
    [machine.family]

/-- The sandboxes that are asked for. -/
def sandboxIds : LifecycleOp → List String
  | acquire sandboxId _ _ _ | restore sandboxId _ _ | shutdown sandboxId => [sandboxId]
  | fork source target _ _ => [source, target]
  | terminateAll _ | reapStale _ | reapExpired _ | handle _ => []

/-- The machine of an operation on one machine. -/
def machine? : LifecycleOp → Option MachineName
  | terminateAll machine | reapStale machine | reapExpired machine | handle machine => some machine
  | _ => none

def sequence? : LifecycleOp → Option ℕ
  | acquire _ _ _ sequence => sequence
  | _ => none

/-- The sections an operation may come to, in a process with the pid. -/
def MayEnter (pid : ℕ) : LifecycleOp → LifecycleSection → Prop
  | acquire sandboxId specHash runtime none, .ensure machine specHash' runtime' ttl =>
    machine = .machineId sandboxId specHash ∧ specHash' = specHash ∧ runtime' = runtime ∧ ttl = true
  | acquire sandboxId specHash runtime (some sequence), .ensure machine specHash' runtime' ttl =>
    machine = .oneShotMachineId sandboxId specHash pid sequence ∧ specHash' = specHash ∧
      runtime' = runtime ∧ ttl = false
  | restore sandboxId specHash runtime, .ensure machine specHash' runtime' ttl =>
    machine = .machineId sandboxId specHash ∧ specHash' = specHash ∧ runtime' = runtime ∧ ttl = true
  | fork _ target specHash runtime, .ensure machine specHash' runtime' ttl =>
    machine = .machineId target specHash ∧ specHash' = specHash ∧ runtime' = runtime ∧ ttl = true
  -- The machine of the provider state or of the warm entry, or one that failed.
  | acquire sandboxId _ _ _, .cleanup machine => machine.family = sandboxId
  | restore sandboxId _ _, .cleanup machine => machine.family = sandboxId
  | shutdown sandboxId, .cleanup machine => machine.family = sandboxId
  | fork _ target _ _, .cleanup machine => machine.family = target
  | fork source _ _ _, .capture machine => machine.family = source
  | terminateAll machine, .cleanup machine' => machine' = machine
  | reapStale machine, .cleanup machine' => machine' = machine
  | reapExpired machine, .cleanup machine' => machine' = machine
  | handle machine, .cleanup machine' => machine' = machine
  | handle machine, .capture machine' => machine' = machine
  | _, _ => False

end LifecycleOp

structure LifecycleTask where
  op : LifecycleOp
  /-- The keys that are not asked for yet. -/
  remaining : List String
  inside : Option LifecycleSection
  /-- The `ensure_machine` was entered. -/
  ensured : Bool
  /-- It has the manifest that it was called for. -/
  recorded : Bool

structure StoredMachine where
  specHash : String
  runtime : String
  ttl : Bool
  /-- The VM that runs. -/
  vm : Option ℕ

structure MachineHandle where
  machine : MachineName
  specHash : String
  runtime : String
  oneShot : Bool
  /-- The VM that was returned. -/
  vm : ℕ

structure LifecycleState where
  /-- The process id of the controller. -/
  pid : ℕ
  /-- `ONE_SHOT_SEQUENCE`. -/
  sequence : ℕ
  locks : WeakLocks String ℕ
  tasks : ℕ → Option LifecycleTask
  machines : MachineName → Option StoredMachine
  /-- The handles of the controller that are in use. -/
  handles : List MachineHandle
  /-- All handles that were ever returned, the newest first. -/
  issued : List MachineHandle
  /-- The next VM. -/
  vms : ℕ

/-- What comes of a section. -/
inductive SectionOutcome where
  /-- The machine is removed. -/
  | removed
  /-- Its VM is stopped, and the manifest stays. -/
  | stopped
  | untouched
  /-- A VM was booted, and an error is returned. -/
  | abandoned
  /-- The running VM is returned. -/
  | reused
  /-- A new VM is returned. -/
  | booted

inductive LifecycleLabel where
  | begin (task : ℕ) (op : LifecycleOp)
  /-- `lock_key` up to the wait. -/
  | request (task : ℕ)
  | grant (task : ℕ)
  | enter (task : ℕ) (inside : LifecycleSection)
  /-- `ensure_machine` finds its manifest or writes it. -/
  | record (task : ℕ)
  | leave (task : ℕ) (outcome : SectionOutcome)
  | finish (task : ℕ)
  /-- A VM exits. -/
  | exits (machine : MachineName)
  | drop (index : ℕ)
  /-- Another controller goes on with the state root. -/
  | restart (pid : ℕ)

namespace LifecycleState

variable (state : LifecycleState)

/-- The operation can be called for: a scan found the machine, or a handle has it. -/
def Startable : LifecycleOp → Prop
  | .acquire _ _ _ sequence => ∀ number ∈ sequence, number = state.sequence
  | .restore _ _ _ | .shutdown _ => True
  | .fork source target _ _ => source ≠ target
  | .terminateAll machine => state.machines machine ≠ none
  | .reapStale machine => state.machines machine ≠ none
  -- A manifest or a warm entry with an idle TTL.
  | .reapExpired machine => state.machines machine ≠ none ∨ PlainId machine.family
  | .handle machine => ∃ handle ∈ state.handles, handle.machine = machine

/-- The checks that are made under the lock. -/
def Permitted (task : LifecycleTask) : LifecycleSection → Prop
  | .ensure _ _ _ _ => task.ensured = false
  | .capture _ => True
  | .cleanup machine =>
    match task.op with
    | .reapStale _ =>
      (∃ stored ∈ state.machines machine, stored.vm = none) ∧
        -- The machine is not in the starting set.
        ∀ other running, state.tasks other = some running →
          ∀ specHash runtime ttl, running.inside ≠ some (.ensure machine specHash runtime ttl)
    | .reapExpired _ => ∃ stored ∈ state.machines machine, stored.ttl = true
    | _ => True

def Possible (task : LifecycleTask) : LifecycleSection → SectionOutcome → Prop
  | .ensure machine _ _ _, .reused =>
    task.recorded = true ∧ ∃ stored ∈ state.machines machine, stored.vm ≠ none
  | .ensure _ _ _ _, .booted | .ensure _ _ _ _, .abandoned => task.recorded = true
  | .ensure _ _ _ _, _ => True
  | .cleanup _, .removed | .cleanup _, .stopped | .cleanup _, .untouched => True
  | .capture _, .untouched => True
  | _, _ => False

def Enabled : LifecycleLabel → Prop
  | .begin task op => state.tasks task = none ∧ state.Startable op
  | .request task =>
    ∃ running ∈ state.tasks task, running.remaining ≠ [] ∧ state.locks.waits task = none
  | .grant task => state.locks.Grantable task
  | .enter task inside =>
    ∃ running ∈ state.tasks task, running.remaining = [] ∧ state.locks.waits task = none ∧
      running.inside = none ∧ running.op.MayEnter state.pid inside ∧
      state.Permitted running inside
  | .record task =>
    ∃ running ∈ state.tasks task, ∃ machine specHash runtime ttl,
      running.inside = some (.ensure machine specHash runtime ttl)
  | .leave task outcome =>
    ∃ running ∈ state.tasks task, ∃ inside ∈ running.inside, state.Possible running inside outcome
  | .finish task =>
    ∃ running ∈ state.tasks task, running.inside = none ∧ state.locks.waits task = none
  | .exits _ | .drop _ | .restart _ => True

/-- The manifest after `ensure_machine` has found or written it. -/
def recordMachine (stored : Option StoredMachine) (specHash runtime : String) (ttl : Bool) :
    StoredMachine :=
  match stored with
  | some stored =>
    if stored.specHash = specHash ∧ stored.runtime = runtime then stored
    else ⟨specHash, runtime, ttl, none⟩
  | none => ⟨specHash, runtime, ttl, none⟩

/-- What a section leaves of its machine. -/
def leaveMachine (stored : Option StoredMachine) : SectionOutcome → Option StoredMachine
  | .removed => none
  | .stopped => stored.map ({ · with vm := none })
  | .untouched | .reused => stored
  | .abandoned | .booted => stored.map ({ · with vm := some state.vms })

/-- The handle that is returned, if one is. -/
def leaveHandle (op : LifecycleOp) : LifecycleSection → SectionOutcome → Option MachineHandle
  | .ensure machine specHash runtime _, .reused =>
    (state.machines machine).bind fun stored ↦ stored.vm.map fun vm ↦
      ⟨machine, specHash, runtime, op.sequence?.isSome, vm⟩
  | .ensure machine specHash runtime _, .booted =>
    some ⟨machine, specHash, runtime, op.sequence?.isSome, state.vms⟩
  | _, _ => none

def enterTask (running : LifecycleTask) (inside : LifecycleSection) : LifecycleTask where
  op := running.op
  remaining := running.remaining
  inside := some inside
  ensured := match inside with
    | .ensure _ _ _ _ => true
    | _ => running.ensured
  recorded := false

def next : LifecycleLabel → LifecycleState
  | .begin task op =>
    { state with
      tasks := Function.update state.tasks task (some ⟨op, op.keys, none, false, false⟩)
      sequence := if op.sequence?.isSome then state.sequence + 1 else state.sequence }
  | .request task =>
    match state.tasks task with
    | some running =>
      match running.remaining with
      | key :: remaining =>
        { state with
          tasks := Function.update state.tasks task (some { running with remaining })
          locks := state.locks.request task key }
      | [] => state
    | none => state
  | .grant task => { state with locks := state.locks.grant task }
  | .enter task inside =>
    match state.tasks task with
    | some running =>
      { state with tasks := Function.update state.tasks task (some (enterTask running inside)) }
    | none => state
  | .record task =>
    match state.tasks task with
    | some running =>
      match running.inside with
      | some (.ensure machine specHash runtime ttl) =>
        { state with
          tasks := Function.update state.tasks task (some { running with recorded := true })
          machines := Function.update state.machines machine
            (some (recordMachine (state.machines machine) specHash runtime ttl)) }
      | _ => state
    | none => state
  | .leave task outcome =>
    match state.tasks task with
    | some running =>
      match running.inside with
      | some inside =>
        let handle := (state.leaveHandle running.op inside outcome).toList
        { state with
          tasks := Function.update state.tasks task (some { running with inside := none })
          machines := Function.update state.machines inside.machine
            (state.leaveMachine (state.machines inside.machine) outcome)
          handles := handle ++ state.handles
          issued := handle ++ state.issued
          vms := state.vms + 1 }
      | none => state
    | none => state
  | .finish task =>
    { state with
      tasks := Function.update state.tasks task none
      locks := state.locks.release task }
  | .exits machine =>
    { state with
      machines := Function.update state.machines machine
        ((state.machines machine).map ({ · with vm := none })) }
  | .drop index => { state with handles := state.handles.eraseIdx index }
  | .restart pid =>
    { state with pid, sequence := 0, locks := .empty, tasks := fun _ ↦ none, handles := [] }

end LifecycleState

def lifecycles : System LifecycleState LifecycleLabel where
  enabled := LifecycleState.Enabled
  next := LifecycleState.next

/-- A state root without a machine. -/
def LifecycleState.fresh (pid : ℕ) : LifecycleState :=
  ⟨pid, 0, .empty, fun _ ↦ none, fun _ ↦ none, [], [], 0⟩

/-- One operation at a time works on a machine, no operations wait for each other, a handle only
finds its own machine, and the VM of a one-shot was never returned before. -/
structure LifecycleState.Orderly (state : LifecycleState) : Prop where
  exclusive : ∀ task other running running' inside inside', state.tasks task = some running →
    state.tasks other = some running' → running.inside = some inside →
    running'.inside = some inside' → inside.machine = inside'.machine → task = other
  progress : ∀ tasks, ¬state.locks.Deadlocked tasks
  handles : ∀ handle ∈ state.handles, ∀ stored, state.machines handle.machine = some stored →
    stored.specHash = handle.specHash ∧ stored.runtime = handle.runtime
  oneShots : ∀ later handle earlier, state.issued = later ++ handle :: earlier →
    handle.oneShot = true → ∀ other ∈ earlier, other.vm ≠ handle.vm

/-- Sandbox ids have no line break; `terminate_all` does not reach a one-shot's machine while it is
ensured; no handle is in use for a machine whose manifest is written with another spec or runtime;
and a controller that gets the pid of an earlier one finds no machine of that one's one-shots. -/
def LifecycleState.Separate (state : LifecycleState) : LifecycleLabel → Prop
  | .begin _ op => ∀ sandboxId ∈ op.sandboxIds, PlainId sandboxId
  | .enter task (.cleanup machine) =>
    (∃ running ∈ state.tasks task, running.op = .terminateAll machine) →
      ∀ other running, state.tasks other = some running → running.op.sequence? ≠ none →
        ∀ specHash runtime ttl, running.inside ≠ some (.ensure machine specHash runtime ttl)
  | .record task =>
    ∀ running machine specHash runtime ttl, state.tasks task = some running →
      running.inside = some (.ensure machine specHash runtime ttl) →
      ∀ handle ∈ state.handles, handle.machine = machine →
        handle.specHash = specHash ∧ handle.runtime = runtime
  | .restart pid => ∀ machine, state.machines machine ≠ none →
    ∀ sandboxId sequence, machine.family ≠ MachineName.oneShotFamily sandboxId pid sequence
  | _ => True

end Exo.Firecracker
