import Mathlib.Data.Finset.Insert
import Exo.Library.System

/-!
# Firecracker snapshots

A capture pauses the VM, copies a base, has Firecracker write the dirty pages over the copy, and
publishes the result as a template.  The base is the file `snapshot-memory` of the jail, which the
last capture left there, or else the template of the machine's record.  The file `snapshot-pending`
stands in the jail from before the diff until the capture is complete, and refuses other captures.

The two files and the record live longer than the VM: a relaunch sweeps the jail only if the record
has a template, and it boots from zero if the overlay of the template was made before.
-/

namespace Exo.Firecracker

open Library

/-- The contents of the pages, as numbers. -/
abbrev Memory := ℕ → ℕ

abbrev TemplateKey := String

/-- A published template.  `paused` is the memory of the source when it was paused. -/
structure Template where
  memory : Memory
  paused : Memory

/-- A VM with its dirty pages.  `loaded` is the memory it was restored from, `captured` says that a
capture of it has linked `snapshot-memory`, and `marked` that a capture of it has left
`snapshot-pending`. -/
structure Vm where
  memory : Memory
  dirty : Finset ℕ
  paused : Bool
  loaded : Option Memory
  captured : Bool
  marked : Bool

namespace Vm

/-- A cold boot starts from memory that is all zero. -/
def boot : Vm := ⟨fun _ ↦ 0, ∅, false, none, false, false⟩

/-- `PUT /snapshot/load`, and the VM is resumed. -/
def load (memory : Memory) : Vm := ⟨memory, ∅, false, some memory, false, false⟩

/-- The guest writes to a page. -/
def write (vm : Vm) (page content : ℕ) : Vm :=
  { vm with memory := Function.update vm.memory page content, dirty := insert page vm.dirty }

/-- A `Diff` writes the dirty pages over the file. -/
def diff (vm : Vm) (file : Memory) : Memory :=
  fun page ↦ if page ∈ vm.dirty then vm.memory page else file page

/-- A capture of the VM leaves `snapshot-pending`, or removes it. -/
def mark (marked : Bool) (vm : Vm) : Vm := { vm with marked }

/-- A capture of the VM has linked `snapshot-memory`. -/
def capture (vm : Vm) : Vm := { vm with captured := true }

end Vm

/-- How far a capture got. -/
inductive CaptureStage where
  | paused
  /-- The base is copied; without a base the file is absent and reads as zero. -/
  | seeded (seed : Memory)
  /-- `snapshot-pending` is created. -/
  | marked (seed : Memory)
  /-- The diff is written. -/
  | captured (image : Memory)
  /-- The VM runs again. -/
  | resumed (image : Memory)
  /-- The template is in its place. -/
  | published (image : Memory)
  /-- `snapshot-memory` is the memory of the template. -/
  | linked (image : Memory)

/-- A call of `capture_snapshot_template`, with the memory of the VM when it was paused. -/
structure Capture where
  key : TemplateKey
  memory : Memory
  stage : CaptureStage

/-- The record of a machine, its files, its VM and the capture that holds its lifecycle lock. -/
structure Machine where
  template : Option TemplateKey
  cow : Bool
  pending : Bool
  memoryBase : Option Memory
  vm : Option Vm
  capture : Option Capture

/-- What happens to a machine. -/
inductive Op where
  /-- `ensure_machine` for a machine whose VM does not run. -/
  | launch
  /-- The same, but it fails once the overlay is made. -/
  | launchFails
  | write (page content : ℕ)
  /-- The VMM dies or is stopped. -/
  | die
  | removeCow
  | removeJail
  /-- The checks of a capture, and the pause. -/
  | begin (key : TemplateKey)
  | seed
  | mark
  | diff
  /-- The request fails, with the dirty pages forgotten or not. -/
  | diffFails (cleared resumed : Bool)
  | resume
  | publish
  | link
  /-- The old `snapshot-memory` is removed and the new one cannot be linked. -/
  | linkFails
  | unmark
  /-- The capture ends with an error, or the process dies. -/
  | abort (resumed : Bool)

inductive SnapshotLabel where
  /-- `new_machine_record`, of a boot or of a restore. -/
  | record (machineId : String) (template : Option TemplateKey)
  | op (machineId : String) (op : Op)
  /-- The last step of a terminate: the manifest is removed. -/
  | forget (machineId : String)
  /-- A template is reclaimed. -/
  | reclaim (key : TemplateKey)

namespace Machine

variable (machine : Machine)

/-- `new_machine_record`. -/
def new (template : Option TemplateKey) : Machine := ⟨template, false, false, none, none, none⟩

/-- `cleanup_machine` without deletion of the root file system removes the jail only of a machine
with a template. -/
def sweep : Machine :=
  if machine.template.isSome then { machine with pending := false, memoryBase := none } else machine

section
variable (templates : TemplateKey → Option Template)

/-- `prepare_and_launch_blocking`: the template is loaded if its overlay had to be made. -/
def launch : Option Machine :=
  match machine.template, machine.cow with
  | some key, false =>
    (templates key).map fun template ↦
      { machine with cow := true, vm := some (.load template.memory) }
  | _, _ => some { machine with vm := some .boot }

/-- The base of a capture, or zero; a template that is gone cannot be copied. -/
def base : Option Memory :=
  match machine.memoryBase, machine.template with
  | some memory, _ => some memory
  | none, some key => (templates key).map Template.memory
  | none, none => some fun _ ↦ 0

/-- The capture is at another stage. -/
def goTo (capture : Capture) (stage : CaptureStage) : Machine :=
  { machine with capture := some { capture with stage } }

/-- The capture is over. -/
def finish (resumed : Bool) : Machine :=
  { machine with
    capture := none
    vm := machine.vm.map fun vm ↦ { vm with paused := vm.paused && !resumed } }

/-- What an operation makes of the machine and of the templates, if it is possible. -/
def step : Op → Option (Machine × (TemplateKey → Option Template))
  | .launch =>
    match machine.vm, machine.capture with
    | none, none => (machine.sweep.launch templates).map (·, templates)
    | _, _ => none
  | .launchFails =>
    match machine.vm, machine.capture with
    | none, none =>
      some ({ machine.sweep with cow := machine.cow || machine.template.isSome }, templates)
    | _, _ => none
  | .write page content =>
    match machine.vm with
    | some vm =>
      if vm.paused then none
      else some ({ machine with vm := some (vm.write page content) }, templates)
    | none => none
  | .die => some ({ machine with vm := none }, templates)
  | .removeCow =>
    match machine.vm, machine.capture with
    | none, none => some ({ machine with cow := false }, templates)
    | _, _ => none
  | .removeJail =>
    match machine.vm, machine.capture with
    | none, none => some ({ machine with pending := false, memoryBase := none }, templates)
    | _, _ => none
  | .begin key =>
    match machine.vm, machine.capture with
    | some vm, none =>
      -- "a previous Firecracker capture did not complete"
      if machine.pending then some (machine, templates)
      else some
        ({ machine with
            vm := some { vm with paused := true }
            capture := some ⟨key, vm.memory, .paused⟩ }, Function.update templates key none)
    | _, _ => none
  | .seed =>
    match machine.capture with
    | some ⟨key, memory, .paused⟩ =>
      (machine.base templates).map fun seed ↦
        (machine.goTo ⟨key, memory, .paused⟩ (.seeded seed), templates)
    | _ => none
  | .mark =>
    match machine.capture with
    | some ⟨key, memory, .seeded seed⟩ =>
      some ({ machine with
        pending := true
        vm := machine.vm.map (Vm.mark true) }.goTo
          ⟨key, memory, .seeded seed⟩ (.marked seed), templates)
    | _ => none
  | .diff =>
    match machine.vm, machine.capture with
    | some vm, some ⟨key, memory, .marked seed⟩ =>
      some ({ machine with vm := some { vm with dirty := ∅ } }.goTo
        ⟨key, memory, .marked seed⟩ (.captured (vm.diff seed)), templates)
    | _, _ => none
  | .diffFails cleared resumed =>
    match machine.vm, machine.capture with
    | some vm, some ⟨_, _, .marked _⟩ =>
      let dirty := if cleared then ∅ else vm.dirty
      some ({ machine with vm := some { vm with dirty } }.finish resumed, templates)
    | _, _ => none
  | .resume =>
    match machine.vm, machine.capture with
    | some vm, some ⟨key, memory, .captured image⟩ =>
      some ({ machine with vm := some { vm with paused := false } }.goTo
        ⟨key, memory, .captured image⟩ (.resumed image), templates)
    | _, _ => none
  | .publish =>
    match machine.capture with
    | some ⟨key, memory, .resumed image⟩ =>
      some (machine.goTo ⟨key, memory, .resumed image⟩ (.published image),
        Function.update templates key (some ⟨image, memory⟩))
    | _ => none
  | .link =>
    match machine.capture with
    | some ⟨key, memory, .published image⟩ =>
      some ({ machine with
        memoryBase := some image
        vm := machine.vm.map Vm.capture }.goTo
          ⟨key, memory, .published image⟩ (.linked image), templates)
    | _ => none
  | .linkFails =>
    match machine.capture with
    | some ⟨_, _, .published _⟩ =>
      some ({ machine with memoryBase := none }.finish false, templates)
    | _ => none
  | .unmark =>
    match machine.capture with
    | some ⟨_, _, .linked _⟩ =>
      some ({ machine with
        pending := false
        vm := machine.vm.map (Vm.mark false) }.finish false, templates)
    | _ => none
  | .abort resumed =>
    match machine.capture with
    | some _ => some (machine.finish resumed, templates)
    | none => none

end

end Machine

/-- The machines of a host and the published templates. -/
structure Snapshots where
  machines : String → Option Machine
  templates : TemplateKey → Option Template

namespace Snapshots

variable (host : Snapshots)

def empty : Snapshots := ⟨fun _ ↦ none, fun _ ↦ none⟩

def step : SnapshotLabel → Option Snapshots
  | .record machineId template =>
    -- the manifest is linked into its place, which fails if there is one
    if (host.machines machineId).isNone ∧ ∀ key ∈ template, (host.templates key).isSome then
      some { host with
        machines := Function.update host.machines machineId (some (.new template)) }
    else none
  | .op machineId op =>
    (host.machines machineId).bind fun machine ↦
      (machine.step host.templates op).map fun (after, templates) ↦
        ⟨Function.update host.machines machineId (some after), templates⟩
  | .forget machineId =>
    match host.machines machineId with
    | some ⟨_, false, false, none, none, none⟩ =>
      some { host with machines := Function.update host.machines machineId none }
    | _ => none
  | .reclaim key => some { host with templates := Function.update host.templates key none }

end Snapshots

/-- Any boots, restores, writes, captures, deaths, relaunches and terminations on one host. -/
def snapshots : System Snapshots SnapshotLabel where
  enabled host label := (host.step label).isSome
  next host label := (host.step label).getD host

instance (host : Snapshots) (label : SnapshotLabel) : Decidable (snapshots.enabled host label) :=
  inferInstanceAs (Decidable ((host.step label).isSome = true))

end Exo.Firecracker
