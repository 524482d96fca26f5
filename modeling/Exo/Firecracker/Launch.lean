import Mathlib.Logic.Function.Basic
import Exo.Library.Outcomes
import Exo.Library.System

/-!
# The launch of a machine

One machine of a Firecracker host: its manifest, its overlay, the pid file in its jail, and the
processes of the host.  A pid file outlives its process, and the kernel may give the pid to another
one.

`ensure_machine` trusts a running machine that answers a ping, and otherwise boots one in five
steps.  Every host command on the way may fail, also those of the cleanup that answers a failure.
-/

namespace Exo.Firecracker

open Library Library.InPlace

inductive SnapshotTemplateLifecycle where
  | machine
  | snapshot
  deriving DecidableEq

structure MachineRecord where
  specHash : String
  runtime : String
  slot : ℕ
  networkEnabled : Bool
  /-- There is a durable workspace. -/
  workspace : Bool
  resourcePaths : List String
  snapshotTemplate : Option SnapshotTemplateLifecycle
  snapshotNetworkSlot : Option ℕ

structure MachineRequest where
  specHash : String
  runtime : String
  networkEnabled : Bool
  workspace : Bool
  /-- The guest paths of the resource mounts. -/
  mounts : List String
  egressProxy : Bool

/-- What runs in a VMM.  A guest that boots takes its address and its mounts from the kernel command
line, before its agent answers. -/
inductive GuestSystem where
  | booting (address : ℕ) (mounts : List String)
  | up (address : ℕ) (mounted : List String)
  /-- The agent does not answer. -/
  | stuck
  deriving DecidableEq

inductive HostProcess where
  /-- A VMM of the machine, in its cgroup. -/
  | vmm (guest : GuestSystem)
  | other
  deriving DecidableEq

structure MachineHost where
  record : Option MachineRecord
  /-- `cows/<machine>.img` exists. -/
  overlay : Bool
  /-- The pid in `firecracker.pid`. -/
  pidFile : Option ℕ
  processes : ℕ → Option HostProcess

/-- The steps of `cleanup_machine` that may fail. -/
inductive CleanupStep where
  | loadRecord
  | stopProcess
  | removeOverlay
  | removeCgroup
  | removeSnapshotJail
  | removeTemplate
  | removeJail
  | removeManifest
  | removeLease
  | releaseSlot
  deriving DecidableEq

/-- Where `prepare_and_launch` fails. -/
inductive LaunchFailure where
  /-- Before a file is touched. -/
  | network
  /-- Before the jailer is spawned. -/
  | files
  /-- At the API of a clone's VMM. -/
  | api
  deriving DecidableEq

/-- What the host makes of an `ensure_machine`; the part of a step that is not taken counts for
nothing. -/
structure EnsureOutcomes where
  /-- Reading the manifest fails. -/
  load : Bool
  /-- The VMM that answers the ping, if one does. -/
  answer : Option ℕ
  /-- The warm entry has another proxy than the request. -/
  staleProxy : Bool
  /-- Loading the proxy's rules fails. -/
  proxyRules : Bool
  /-- The cleanup before the launch. -/
  stale : CleanupStep → Bool
  /-- The slot that `new_machine_record` gets, if it gets one. -/
  slot : Option ℕ
  /-- The pid of the VMM. -/
  pid : ℕ
  /-- The jailer writes the pid file right away. -/
  observed : Bool
  launch : Option LaunchFailure
  /-- The guest does not become ready. -/
  ready : Bool
  /-- Reconfiguring the network fails. -/
  reconfigure : Bool
  /-- How many resources are mounted before mounting fails, if it does. -/
  mount : Option ℕ
  /-- The cleanup after a failure. -/
  failed : CleanupStep → Bool

inductive ShutdownMode where
  | stop
  | terminate
  deriving DecidableEq

abbrev HostOp (α : Type) := InPlace MachineHost α

namespace MachineHost

variable (host : MachineHost)

/-- The process that the pid file points to. -/
def process : Option HostProcess := host.pidFile.bind host.processes

/-- `process_running`: some process has the pid. -/
def processRunning : Bool := host.process.isSome

/-- The VMM with the pid has a guest whose agent answers. -/
def answers (pid : Option ℕ) : Bool :=
  match pid.bind host.processes with
  | some (.vmm (.up _ _)) => true
  | _ => false

def setProcess (pid : ℕ) (process : Option HostProcess) : MachineHost :=
  { host with processes := Function.update host.processes pid process }

/-- The process with the pid of the pid file is killed. -/
def stopProcess : MachineHost :=
  match host.pidFile with
  | some pid => host.setProcess pid none
  | none => host

def changeGuest (pid : ℕ) (change : GuestSystem → GuestSystem) : MachineHost :=
  match host.processes pid with
  | some (.vmm guest) => host.setProcess pid (some (.vmm (change guest)))
  | _ => host

end MachineHost

namespace GuestSystem

/-- The boot is over, and the agent answers. -/
def comeUp : GuestSystem → GuestSystem
  | booting address mounts => up address mounts
  | guest => guest

def configureNetwork (address : ℕ) : GuestSystem → GuestSystem
  | up _ mounted => up address mounted
  | guest => guest

/-- `mount_resources`; mounting a resource again changes nothing. -/
def mountResources (mounts : List String) : GuestSystem → GuestSystem
  | up address mounted => up address (mounted ++ mounts)
  | guest => guest

end GuestSystem

/-- A host command that may fail. -/
def command (fails : Bool) (message : String) (change : MachineHost → MachineHost) : HostOp Unit :=
  do
    check (ensure (!fails) message)
    update change

def loadMachineRecord (fails : Bool) : HostOp (Option MachineRecord) := do
  check (ensure (!fails) "reading Firecracker manifest")
  look fun host ↦ .ok host.record

def stopMachineProcess (fails : Bool) : HostOp Unit := do
  check (ensure (!fails) "signaling Firecracker process")
  look fun host ↦ ensure (host.process != some .other)
    "refusing to stop pid: it does not match Firecracker machine"
  update MachineHost.stopProcess

def removeJail (host : MachineHost) : MachineHost := { host with pidFile := none }

/-- `cleanup_machine` once the process is stopped. -/
def removeFiles (deleteRootfs : Bool) (record : Option MachineRecord)
    (fails : CleanupStep → Bool) : HostOp Unit := do
  when (deleteRootfs && record.isSome)
    (command (fails .removeOverlay) "removing Firecracker snapshot overlay"
      fun host ↦ { host with overlay := false })
  command (fails .removeCgroup) "removing Firecracker cgroup" id
  when (!deleteRootfs && record.any (·.snapshotTemplate.isSome))
    (command (fails .removeSnapshotJail) "removing Firecracker jail" removeJail)
  when (deleteRootfs && record.any (·.snapshotTemplate == some .machine))
    (command (fails .removeTemplate) "removing Firecracker snapshot" id)
  when deleteRootfs (command (fails .removeJail) "removing Firecracker jail" removeJail)
  when deleteRootfs (command (fails .removeManifest) "removing Firecracker manifest"
    fun host ↦ { host with record := none })
  when deleteRootfs (command (fails .removeLease) "removing Firecracker lease" id)
  when deleteRootfs
    (command (fails .releaseSlot) "releasing Firecracker resource slot" id)

/-- `cleanup_machine`; with `deleteRootfs` nothing of the machine stays. -/
def cleanupMachine (deleteRootfs : Bool) (fails : CleanupStep → Bool) : HostOp Unit := do
  let record ← loadMachineRecord (fails .loadRecord)
  stopMachineProcess (fails .stopProcess)
  removeFiles deleteRootfs record fails

section
variable (request : MachineRequest)

def newRecord (slot : ℕ)
    (snapshot : Option (SnapshotTemplateLifecycle × ℕ)) : MachineRecord where
  specHash := request.specHash
  runtime := request.runtime
  slot := slot
  networkEnabled := request.networkEnabled
  workspace := request.workspace && snapshot.isNone
  resourcePaths := request.mounts
  snapshotTemplate := snapshot.map Prod.fst
  snapshotNetworkSlot := snapshot.map Prod.snd

/-- `new_machine_record`; the manifest is only written where there is none. -/
def newMachineRecord (slot : Option ℕ)
    (snapshot : Option (SnapshotTemplateLifecycle × ℕ)) : HostOp MachineRecord := do
  let slot ← check (context slot "no Firecracker resource slots are available")
  look fun host ↦ ensure host.record.isNone "publishing Firecracker manifest"
  update fun host ↦ { host with record := some (newRecord request slot snapshot) }
  return newRecord request slot snapshot

section
variable (record : MachineRecord) (outcomes : EnsureOutcomes)

/-- A clone has the address of the snapshot's source and no mounts. -/
def launchedGuest (clone : Bool) : GuestSystem :=
  if !clone then .booting record.slot request.mounts
  else if outcomes.launch = some .api then .stuck
  else .up (record.snapshotNetworkSlot.getD record.slot) []

/-- `prepare_and_launch`.  A record with a template is cloned while it has no overlay, and boots
from its overlay afterwards. -/
def prepareAndLaunch : HostOp Unit := do
  check (ensure (outcomes.launch != some .network) "preparing Firecracker network")
  let overlay ← look fun host ↦ .ok host.overlay
  let clone := record.snapshotTemplate.isSome && !overlay
  when record.snapshotTemplate.isSome (update fun host ↦ { host with overlay := true })
  when (!clone) (update fun host ↦ { host with pidFile := none })
  check (ensure (outcomes.launch != some .files) "linking Firecracker asset")
  update (·.setProcess outcomes.pid (some (.vmm (launchedGuest request record outcomes clone))))
  when outcomes.observed (update fun host ↦ { host with pidFile := some outcomes.pid })
  when clone (check (ensure (outcomes.launch != some .api) "Firecracker API request failed"))

end

end

/-- `wait_for_guest` and `wait_for_restored_guest`. -/
def waitForGuest (outcomes : EnsureOutcomes) : HostOp Unit :=
  command outcomes.ready "Firecracker guest agent did not become ready"
    (·.changeGuest outcomes.pid .comeUp)

def reconfigureRestoredNetwork (record : MachineRecord) (outcomes : EnsureOutcomes) : HostOp Unit :=
  command outcomes.reconfigure "Firecracker guest request failed"
    (·.changeGuest outcomes.pid (.configureNetwork record.slot))

section
variable (request : MachineRequest)

section
variable (outcomes : EnsureOutcomes)

/-- `GuestClient::mount_resources`; the mounts before a failure stay. -/
def mountResources : HostOp Unit := do
  let mounts := request.mounts.take (outcomes.mount.getD request.mounts.length)
  update (·.changeGuest outcomes.pid (.mountResources mounts))
  check (ensure outcomes.mount.isNone "Firecracker guest request failed")

/-- `ensure_machine` from the launch on. -/
def startMachine (reusing : Bool)
    (record : MachineRecord) : HostOp MachineRecord := do
  (prepareAndLaunch request record outcomes).onFailure (cleanupMachine (!reusing) outcomes.failed)
  (waitForGuest outcomes).onFailure (cleanupMachine (!reusing) outcomes.failed)
  when (record.networkEnabled && record.snapshotNetworkSlot.any (· != record.slot))
    ((reconfigureRestoredNetwork record outcomes).onFailure (cleanupMachine true outcomes.failed))
  when (record.snapshotTemplate.isSome && request.mounts != []) (mountResources request outcomes)
  return record

def MachineRecord.matches (record : MachineRecord) (request : MachineRequest) : Bool :=
  record.specHash == request.specHash && record.runtime == request.runtime

def ensureMachine : HostOp MachineRecord := do
  let existing ← loadMachineRecord outcomes.load
  match existing with
  | none =>
    let record ← newMachineRecord request outcomes.slot none
    startMachine request outcomes false record
  | some record =>
    if record.matches request = true then
      let trusted ← look fun host ↦ .ok (host.processRunning && host.answers outcomes.answer)
      if trusted = true then
        when (request.egressProxy && outcomes.staleProxy)
          (check (ensure (!outcomes.proxyRules) "nft failed"))
        return record
      else
        cleanupMachine false outcomes.stale
        startMachine request outcomes true record
    else
      cleanupMachine true outcomes.stale
      let record ← newMachineRecord request outcomes.slot none
      startMachine request outcomes false record

end

/-- `shutdown_machine_locked`, where `sync` is the VMM that syncs the filesystems, if one does. -/
def shutdownMachine (mode : ShutdownMode) (load : Bool) (sync : Option ℕ)
    (fails : CleanupStep → Bool) : HostOp Unit := do
  let record ← loadMachineRecord load
  let unsynced ← look fun host ↦ .ok
    (record.any (fun record ↦ record.workspace || record.resourcePaths != []) &&
      host.processRunning && !host.answers sync)
  check (ensure (mode == .terminate || !unsynced)
    "syncing Firecracker durable filesystem before stop")
  cleanupMachine true fails

/-- `restore_snapshot_locked` from the new record on. -/
def restoreMachine (slot : Option ℕ)
    (snapshot : SnapshotTemplateLifecycle × ℕ) (outcomes : EnsureOutcomes)
    (fails : CleanupStep → Bool) : HostOp MachineRecord := do
  let _ ← newMachineRecord request slot (some snapshot)
  (ensureMachine request outcomes).onFailure (cleanupMachine true fails)

end

inductive LaunchLabel where
  | acquire (request : MachineRequest) (outcomes : EnsureOutcomes)
  | restore (request : MachineRequest) (slot : Option ℕ)
      (snapshot : SnapshotTemplateLifecycle × ℕ) (outcomes : EnsureOutcomes)
      (fails : CleanupStep → Bool)
  | shutdown (mode : ShutdownMode) (load : Bool) (sync : Option ℕ) (fails : CleanupStep → Bool)
  /-- The reaper, `terminate_all`, or an acquire that replaces the machine. -/
  | clean (fails : CleanupStep → Bool)
  | exits (pid : ℕ)
  /-- Another process gets the pid. -/
  | starts (pid : ℕ)
  /-- A guest comes up after the wait for it is over. -/
  | comesUp (pid : ℕ)
  | hangs (pid : ℕ)
  /-- A jailer writes the pid file late. -/
  | writesPid (pid : ℕ)

namespace MachineHost

variable (host : MachineHost)

def enabled : LaunchLabel → Prop
  | .acquire _ outcomes | .restore _ _ _ outcomes _ => host.processes outcomes.pid = none
  | .exits pid => host.processes pid ≠ none
  | .starts pid => host.processes pid = none
  | .writesPid pid => host.pidFile = none ∧ ∃ guest, host.processes pid = some (.vmm guest)
  | .shutdown _ _ _ _ | .clean _ | .comesUp _ | .hangs _ => True

def next : LaunchLabel → MachineHost
  | .acquire request outcomes => ((ensureMachine request outcomes).runOn host).2
  | .restore request slot snapshot outcomes fails =>
    ((restoreMachine request slot snapshot outcomes fails).runOn host).2
  | .shutdown mode load sync fails => ((shutdownMachine mode load sync fails).runOn host).2
  | .clean fails => ((cleanupMachine true fails).runOn host).2
  | .exits pid => host.setProcess pid none
  | .starts pid => host.setProcess pid (some .other)
  | .comesUp pid => host.changeGuest pid .comeUp
  | .hangs pid => host.changeGuest pid fun _ ↦ .stuck
  | .writesPid pid => { host with pidFile := some pid }

end MachineHost

/-- The lifecycle lock of the machine lets one operation at a time work on it. -/
def launches : System MachineHost LaunchLabel where
  enabled := MachineHost.enabled
  next := MachineHost.next

/-- A host on which the machine was never launched. -/
def MachineHost.fresh (processes : ℕ → Option HostProcess) : MachineHost :=
  ⟨none, false, none, processes⟩

/-- No VMM of the machine is running. -/
def MachineHost.Exited (host : MachineHost) : Prop :=
  ∀ pid guest, host.processes pid ≠ some (.vmm guest)

/-- A guest that answers, at its own address and with the resources mounted. -/
def GuestSystem.Complete (record : MachineRecord) (mounts : List String) (guest : GuestSystem) :
    Prop :=
  ∃ address mounted, guest = .up address mounted ∧
    (record.networkEnabled = true → address = record.slot) ∧ ∀ path ∈ mounts, path ∈ mounted

/-- What `ensure_machine` promises of both outcomes. -/
def Delivers (request : MachineRequest) : Except String MachineRecord × MachineHost → Prop
  | (.error _, host) => host.Exited
  | (.ok record, host) =>
    ∃ pid guest, host.processes pid = some (.vmm guest) ∧ guest.Complete record request.mounts

/-- Nothing fails from here on. -/
structure EnsureOutcomes.Faultless (outcomes : EnsureOutcomes) : Prop where
  load : outcomes.load = false
  proxyRules : outcomes.proxyRules = false
  stale : ∀ step, outcomes.stale step = false
  slot : outcomes.slot ≠ none
  observed : outcomes.observed = true
  launch : outcomes.launch = none
  ready : outcomes.ready = false
  reconfigure : outcomes.reconfigure = false
  mount : outcomes.mount = none

/-- A machine can be stopped, terminated and acquired again. -/
structure MachineHost.Removable (host : MachineHost) : Prop where
  shutdown : ∀ mode sync fails, (∀ step, fails step = false) →
    ((shutdownMachine mode false sync fails).runOn host).1 = .ok ()
  acquire : ∀ request outcomes, outcomes.Faultless → host.processes outcomes.pid = none →
    ∃ record, ((ensureMachine request outcomes).runOn host).1 = .ok record

/-- Every acquire and restore delivers, and a machine whose VMM has exited is removable. -/
def LaunchProperty (host : MachineHost) (label : LaunchLabel) : Prop :=
  (host.Exited → host.Removable) ∧
    match label with
    | .acquire request outcomes => Delivers request ((ensureMachine request outcomes).runOn host)
    | .restore request slot snapshot outcomes _ =>
      ∀ record host', (newMachineRecord request slot (some snapshot)).runOn host =
        (.ok record, host') → Delivers request ((ensureMachine request outcomes).runOn host')
    | _ => True

/-- Nothing fails that leaves a VMM behind: reading the manifest, stopping the VMM and loading the
proxy's rules while one runs, mounting the resources, and reading the manifest and stopping the VMM
again after a failure of a launched one.  Records with one hash are made for the same resources. -/
structure EnsureOutcomes.Contained (host : MachineHost) (request : MachineRequest)
    (outcomes : EnsureOutcomes) : Prop where
  sameMounts : ∀ record ∈ host.record, record.matches request = true →
    record.resourcePaths = request.mounts
  running : host.Exited ∨ outcomes.load = false ∧ outcomes.proxyRules = false ∧
    outcomes.stale .loadRecord = false ∧ outcomes.stale .stopProcess = false
  observed : outcomes.observed = true
  failed : outcomes.launch = some .network ∨ outcomes.launch = some .files ∨
    outcomes.failed .loadRecord = false ∧ outcomes.failed .stopProcess = false
  mount : outcomes.mount = none

/-- The steps are contained, and no other process gets the pid in the pid file. -/
def ContainedStep (host : MachineHost) : LaunchLabel → Prop
  | .acquire request outcomes => outcomes.Contained host request
  | .restore request slot snapshot outcomes _ =>
    ∀ record host', (newMachineRecord request slot (some snapshot)).runOn host =
      (.ok record, host') → outcomes.Contained host' request
  | .starts pid => host.pidFile ≠ some pid
  | _ => True

end Exo.Firecracker
