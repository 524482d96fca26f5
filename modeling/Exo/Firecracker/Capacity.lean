import Mathlib.Data.Finset.Card
import Mathlib.Data.Finset.Lattice.Basic
import Exo.Library.System

/-!
# The ceiling on Firecracker machines

An acquire or a restore scans the manifests for machines whose VMM runs, then admits its machine
against what the scan found and the set of starting machines, and keeps its reservation in that set
until the launch is over.  The gate keeps two scans apart, but a reservation is dropped without it:
a machine that the scan found dead may run, and its reservation be gone, when the set is read.  A scan
finds what the manifests and the pid files show, and a launch goes on in its blocking task when its call
is dropped.

Releases are right in every run, refusals where the pid files tell the truth, and the ceiling holds
there if no reservation is dropped in that window and no running machine loses its manifest.
-/

namespace Exo.Firecracker

open Library

abbrev MachineId := String

def ensureMachineCapacity (maxMachines liveMachines : ℕ) (targetAlreadyExists : Bool) :
    Except String Unit :=
  if targetAlreadyExists || liveMachines < maxMachines then .ok ()
  else .error (s!"Firecracker host VM capacity exhausted: {liveMachines} live, limit " ++
    s!"{maxMachines}; stop a VM or raise the host limit")

def admitMachineCapacity (maxMachines : ℕ) (liveMachineIds : List MachineId)
    (startingMachineIds : Finset MachineId) (machineId : MachineId) :
    Except String (Finset MachineId) :=
  if machineId ∈ startingMachineIds then
    .error s!"Firecracker machine {machineId} is already being admitted"
  else
    let occupiedMachineIds := liveMachineIds.toFinset ∪ startingMachineIds
    match ensureMachineCapacity maxMachines occupiedMachineIds.card
        (machineId ∈ occupiedMachineIds) with
    | .ok () => .ok (insert machineId startingMachineIds)
    | .error message => .error message

/-- Where an acquire or a restore is. -/
inductive Phase where
  /-- It waits for `capacity_gate`. -/
  | waiting
  /-- It holds the gate and reads manifests: `due` were there when it opened the directory and are
  not read yet, `live` were found running. -/
  | scanning (due : Finset MachineId) (live : List MachineId)
  /-- It holds a reservation; between two launches or in one. -/
  | reserved (launching : Bool)
  /-- Its reservation was dropped. -/
  | released
  | refused (message : String)
  /-- The scan ended with an error. -/
  | failed
  deriving DecidableEq

structure Call where
  machineId : MachineId
  phase : Phase
  deriving DecidableEq

/-- The machines of a host and the calls so far. -/
structure Host where
  manifests : Finset MachineId
  /-- The machines whose pid file names a process that exists. -/
  processes : Finset MachineId
  /-- The machines whose VMM runs. -/
  running : Finset MachineId
  /-- `starting_machines`. -/
  starting : Finset MachineId
  /-- The machines whose launch goes on without its call. -/
  orphans : Finset MachineId
  calls : List Call

def Phase.inProgress : Phase → Bool
  | waiting | scanning _ _ | reserved _ => true
  | released | refused _ | failed => false

def Phase.isScanning : Phase → Bool
  | scanning _ _ => true
  | _ => false

def Phase.isReserved : Phase → Bool
  | reserved _ => true
  | _ => false

inductive Label where
  /-- An acquire or a restore of a machine begins. -/
  | call (machineId : MachineId)
  /-- `reserve_machine_capacity` takes the gate and opens the directory. -/
  | enter (index : ℕ)
  /-- The scan reads a manifest and asks whether the process runs. -/
  | look (index : ℕ) (machineId : MachineId)
  /-- The scan meets an unreadable manifest, or the call is dropped before its admission. -/
  | fail (index : ℕ)
  /-- `admit_machine_capacity`, and the gate is left. -/
  | admitCapacity (index : ℕ)
  /-- `new_machine_record`. -/
  | record (index : ℕ)
  /-- `prepare_and_launch` begins. -/
  | launch (index : ℕ)
  /-- The VMM runs. -/
  | launched (index : ℕ)
  /-- The launch failed and was cleaned up. -/
  | cleaned (index : ℕ)
  /-- The reservation is dropped, after a launch or with the call during one. -/
  | drop (index : ℕ)
  /-- The launch of a dropped call is over. -/
  | land (machineId : MachineId) (runs : Bool)
  /-- A VMM exits, by itself or because it is stopped. -/
  | exit (machineId : MachineId)
  /-- A launch writes the pid file, a cleanup removes it, a pid is freed or used again. -/
  | process (machineId : MachineId) (shows : Bool)
  /-- `cleanup_machine` removes the manifest.  The lock it holds is that of the id, which for a one-shot
  is not that of its launch. -/
  | remove (machineId : MachineId)
  deriving DecidableEq

namespace Host

variable (host : Host)

/-- The machines whose VMM runs or is being launched. -/
def occupied : Finset MachineId := host.running ∪ host.orphans ∪ host.starting

/-- The call at an index gets to another phase. -/
def move (index : ℕ) (phase : Phase) : Host :=
  { host with calls := host.calls.modify index fun call ↦ { call with phase } }

/-- `admit_machine_capacity` for the call at an index. -/
def admitCapacity (maxMachines index : ℕ) (machineId : MachineId) (live : List MachineId) : Host :=
  match admitMachineCapacity maxMachines live host.starting machineId with
  | .ok starting => { host with starting }.move index (.reserved false)
  | .error message => host.move index (.refused message)

/-- One step, if it can be taken.  The lifecycle lock of a machine lets one acquire at a time work
on it, and a launch begins where the manifest was just read or written. -/
def step (maxMachines : ℕ) : Label → Option Host
  | .call machineId =>
    if ∀ call ∈ host.calls, call.machineId = machineId → call.phase.inProgress = false then
      some { host with calls := host.calls ++ [⟨machineId, .waiting⟩] }
    else none
  | .enter index =>
    match host.calls[index]? with
    | some ⟨_, .waiting⟩ =>
      if ∀ call ∈ host.calls, call.phase.isScanning = false then
        some (host.move index (.scanning host.manifests []))
      else none
    | _ => none
  | .look index machineId =>
    match host.calls[index]? with
    | some ⟨_, .scanning due live⟩ =>
      if machineId ∈ host.manifests ∧ machineId ∈ host.processes then
        some (host.move index (.scanning (due.erase machineId) (live ++ [machineId])))
      else some (host.move index (.scanning (due.erase machineId) live))
    | _ => none
  | .fail index =>
    match host.calls[index]? with
    | some ⟨_, .waiting⟩ | some ⟨_, .scanning _ _⟩ => some (host.move index .failed)
    | _ => none
  | .admitCapacity index =>
    match host.calls[index]? with
    | some ⟨machineId, .scanning due live⟩ =>
      if due = ∅ then some (host.admitCapacity maxMachines index machineId live) else none
    | _ => none
  | .record index =>
    match host.calls[index]? with
    | some ⟨machineId, .reserved _⟩ =>
      some { host with manifests := insert machineId host.manifests }
    | _ => none
  | .launch index =>
    match host.calls[index]? with
    | some ⟨machineId, .reserved false⟩ =>
      if machineId ∈ host.manifests then some (host.move index (.reserved true)) else none
    | _ => none
  | .launched index =>
    match host.calls[index]? with
    | some ⟨machineId, .reserved true⟩ =>
      some ({ host with running := insert machineId host.running }.move index (.reserved false))
    | _ => none
  | .cleaned index =>
    match host.calls[index]? with
    | some ⟨_, .reserved true⟩ => some (host.move index (.reserved false))
    | _ => none
  | .drop index =>
    match host.calls[index]? with
    | some ⟨machineId, .reserved launching⟩ =>
      some ({ host with
        starting := host.starting.erase machineId
        orphans := if launching then insert machineId host.orphans else host.orphans }.move
          index .released)
    | _ => none
  | .land machineId runs =>
    if machineId ∈ host.orphans then
      some { host with
        running := if runs then insert machineId host.running else host.running
        orphans := host.orphans.erase machineId }
    else none
  | .exit machineId => some { host with running := host.running.erase machineId }
  | .process machineId shows =>
    some { host with
      processes :=
        if shows then insert machineId host.processes else host.processes.erase machineId }
  | .remove machineId => some { host with manifests := host.manifests.erase machineId }

end Host

/-- Any acquires, restores, terminations and exits on one host. -/
def firecracker (maxMachines : ℕ) : System Host Label where
  enabled host label := (host.step maxMachines label).isSome
  next host label := (host.step maxMachines label).getD host

instance (maxMachines : ℕ) (host : Host) (label : Label) :
    Decidable ((firecracker maxMachines).enabled host label) :=
  inferInstanceAs (Decidable ((host.step maxMachines label).isSome = true))

/-- No call is in progress, nothing is starting, and the machines that run have their manifests. -/
structure Host.Idle (host : Host) : Prop where
  calls : host.calls = []
  starting : host.starting = ∅
  orphans : host.orphans = ∅
  running : host.running ⊆ host.manifests

/-- A call that scans has found the machine running, or has its manifest still to read. -/
def Phase.Sees (machineId : MachineId) : Phase → Prop
  | scanning due live => machineId ∈ due ∨ machineId ∈ live
  | _ => True

instance (machineId : MachineId) : (phase : Phase) → Decidable (phase.Sees machineId)
  | .scanning _ _ => inferInstanceAs (Decidable (_ ∨ _))
  | .waiting | .reserved _ | .released | .refused _ | .failed => isTrue trivial

/-- A manifest that is read shows no machine as running that is not occupied, and no machine as dead
that runs without a reservation. -/
def LooksTruly (host : Host) : Label → Prop
  | .look _ machineId => machineId ∈ host.manifests →
      (machineId ∈ host.processes → machineId ∈ host.occupied) ∧
      (machineId ∈ host.running → machineId ∉ host.starting → machineId ∈ host.processes)
  | _ => True

instance (host : Host) : (label : Label) → Decidable (LooksTruly host label)
  | .look _ _ => inferInstanceAs (Decidable (_ → _))
  | .call _ | .enter _ | .fail _ | .admitCapacity _ | .record _ | .launch _ | .launched _
  | .cleaned _ | .drop _ | .land _ _ | .exit _ | .process _ _ | .remove _ => isTrue trivial

/-- A reservation is not dropped during the launch, nor while its VMM runs if the manifest is gone or
another call scans and does not see it; and no manifest is removed of a machine that runs without a
reservation. -/
def StaysSeen (host : Host) : Label → Prop
  | .drop index => ∀ call ∈ host.calls[index]?, call.phase ≠ .reserved true ∧
      (call.machineId ∈ host.running → call.machineId ∈ host.manifests ∧
        ∀ other ∈ host.calls, other.phase.Sees call.machineId)
  | .remove machineId => machineId ∈ host.running → machineId ∈ host.starting
  | _ => True

instance (host : Host) : (label : Label) → Decidable (StaysSeen host label)
  | .drop index => inferInstanceAs (Decidable (∀ call ∈ host.calls[index]?,
      call.phase ≠ .reserved true ∧ (call.machineId ∈ host.running →
        call.machineId ∈ host.manifests ∧ ∀ other ∈ host.calls, other.phase.Sees call.machineId)))
  | .remove _ => inferInstanceAs (Decidable (_ → _))
  | .call _ | .enter _ | .look _ _ | .fail _ | .admitCapacity _ | .record _ | .launch _ | .launched _
  | .cleaned _ | .land _ _ | .exit _ | .process _ _ => isTrue trivial

variable (maxMachines : ℕ) (host : Host) in
/-- A step with what it found. -/
inductive Steps : Label → Host → Prop where
  | call {machineId : MachineId} (hfree : ∀ call ∈ host.calls, call.machineId = machineId →
      call.phase.inProgress = false) :
    Steps (.call machineId) { host with calls := host.calls ++ [⟨machineId, .waiting⟩] }
  | enter {index : ℕ} {machineId : MachineId}
      (hcall : host.calls[index]? = some ⟨machineId, .waiting⟩)
      (hgate : ∀ call ∈ host.calls, call.phase.isScanning = false) :
    Steps (.enter index) (host.move index (.scanning host.manifests []))
  | found {index : ℕ} {machineId seen : MachineId} {due : Finset MachineId}
      {live : List MachineId} (hcall : host.calls[index]? = some ⟨machineId, .scanning due live⟩)
      (hprocess : seen ∈ host.manifests ∧ seen ∈ host.processes) :
    Steps (.look index seen) (host.move index (.scanning (due.erase seen) (live ++ [seen])))
  | missed {index : ℕ} {machineId seen : MachineId} {due : Finset MachineId}
      {live : List MachineId} (hcall : host.calls[index]? = some ⟨machineId, .scanning due live⟩)
      (hdead : seen ∈ host.manifests → seen ∉ host.processes) :
    Steps (.look index seen) (host.move index (.scanning (due.erase seen) live))
  | fail {index : ℕ} {machineId : MachineId} {phase : Phase}
      (hcall : host.calls[index]? = some ⟨machineId, phase⟩)
      (hphase : phase.inProgress = true ∧ phase.isReserved = false) :
    Steps (.fail index) (host.move index .failed)
  | admitted {index : ℕ} {machineId : MachineId} {live : List MachineId}
      {starting : Finset MachineId}
      (hcall : host.calls[index]? = some ⟨machineId, .scanning ∅ live⟩)
      (hadmission : admitMachineCapacity maxMachines live host.starting machineId = .ok starting) :
    Steps (.admitCapacity index) ({ host with starting }.move index (.reserved false))
  | refused {index : ℕ} {machineId : MachineId} {live : List MachineId} {message : String}
      (hcall : host.calls[index]? = some ⟨machineId, .scanning ∅ live⟩)
      (hadmission : admitMachineCapacity maxMachines live host.starting machineId = .error message) :
    Steps (.admitCapacity index) (host.move index (.refused message))
  | record {index : ℕ} {machineId : MachineId} {launching : Bool}
      (hcall : host.calls[index]? = some ⟨machineId, .reserved launching⟩) :
    Steps (.record index) { host with manifests := insert machineId host.manifests }
  | launch {index : ℕ} {machineId : MachineId}
      (hcall : host.calls[index]? = some ⟨machineId, .reserved false⟩)
      (hmanifest : machineId ∈ host.manifests) :
    Steps (.launch index) (host.move index (.reserved true))
  | launched {index : ℕ} {machineId : MachineId}
      (hcall : host.calls[index]? = some ⟨machineId, .reserved true⟩) :
    Steps (.launched index)
      ({ host with running := insert machineId host.running }.move index (.reserved false))
  | cleaned {index : ℕ} {machineId : MachineId}
      (hcall : host.calls[index]? = some ⟨machineId, .reserved true⟩) :
    Steps (.cleaned index) (host.move index (.reserved false))
  | drop {index : ℕ} {machineId : MachineId} {launching : Bool}
      (hcall : host.calls[index]? = some ⟨machineId, .reserved launching⟩) :
    Steps (.drop index) ({ host with
      starting := host.starting.erase machineId
      orphans := if launching then insert machineId host.orphans else host.orphans }.move
        index .released)
  | land {machineId : MachineId} {runs : Bool} (horphan : machineId ∈ host.orphans) :
    Steps (.land machineId runs) { host with
      running := if runs then insert machineId host.running else host.running
      orphans := host.orphans.erase machineId }
  | exit {machineId : MachineId} :
    Steps (.exit machineId) { host with running := host.running.erase machineId }
  | process {machineId : MachineId} {shows : Bool} :
    Steps (.process machineId shows) { host with
      processes :=
        if shows then insert machineId host.processes else host.processes.erase machineId }
  | remove {machineId : MachineId} :
    Steps (.remove machineId) { host with manifests := host.manifests.erase machineId }

section Runs
variable {maxMachines : ℕ} {host host' : Host} {label : Label}

theorem steps_of_step (hstep : host.step maxMachines label = some host') :
    Steps maxMachines host label host' := by
  revert hstep
  fun_cases Host.step host maxMachines label <;> rintro ⟨⟩
  · exact .call ‹_›
  · exact .enter ‹_› ‹_›
  · rename_i hcall hfound
    exact .found hcall hfound
  · rename_i hcall hfound
    exact .missed hcall fun hmanifest hprocess ↦ hfound ⟨hmanifest, hprocess⟩
  · exact .fail ‹_› ⟨rfl, rfl⟩
  · exact .fail ‹_› ⟨rfl, rfl⟩
  · rename_i hcall
    unfold Host.admitCapacity
    split
    · exact .admitted hcall ‹_›
    · exact .refused hcall ‹_›
  · exact .record ‹_›
  · exact .launch ‹_› ‹_›
  · exact .launched ‹_›
  · exact .cleaned ‹_›
  · exact .drop ‹_›
  · exact .land ‹_›
  · exact .exit
  · exact .process
  · exact .remove

theorem steps_of_enabled (henabled : (firecracker maxMachines).enabled host label) :
    Steps maxMachines host label ((firecracker maxMachines).next host label) :=
  steps_of_step (Option.getD_of_ne_none (Option.isSome_iff_ne_none.1 henabled) _).symm

theorem getElem?_move {index : ℕ} {machineId : MachineId} {old phase : Phase}
    (hcall : host.calls[index]? = some ⟨machineId, old⟩) (other : ℕ) :
    (host.move index phase).calls[other]? =
      if other = index then some ⟨machineId, phase⟩ else host.calls[other]? := by
  simp only [Host.move, List.getElem?_modify]
  by_cases hother : index = other
  · subst hother
    simp [hcall]
  · simp [hother, Ne.symm hother]

end Runs

end Exo.Firecracker
