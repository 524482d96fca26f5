import Exo.Firecracker.Snapshots

/-!
# What a template holds

The clean pages of a VM are those of the memory it was loaded from, or of its last capture.  So a
diff over a base that is one of these gives the memory of the VM; over what an earlier VM of the
machine or the template of a machine that was booted has left, it does not.
-/

namespace Exo.Firecracker

open Library Function Option System

variable {machine after : Machine} {templates templates' : TemplateKey → Option Template}

/-! ## The clean pages -/

/-- The clean pages of the VM are as in the image. -/
def Vm.CleanIn (vm : Vm) (image : Memory) : Prop := ∀ page ∉ vm.dirty, vm.memory page = image page

/-- The VM is paused with this memory. -/
def Vm.Holds (vm : Vm) (memory : Memory) : Prop := vm.paused = true ∧ vm.memory = memory

variable {vm : Vm} {op : Op}

theorem Vm.CleanIn.write {image : Memory} (hclean : vm.CleanIn image) (page content : ℕ) :
    (vm.write page content).CleanIn image := by
  intro other hother
  obtain ⟨hne, hother⟩ : other ≠ page ∧ other ∉ vm.dirty := by
    simpa [Vm.write] using hother
  calc (vm.write page content).memory other = vm.memory other := by simp [Vm.write, hne]
    _ = image other := hclean other hother

theorem Vm.CleanIn.diff_eq {seed : Memory} (hclean : vm.CleanIn seed) :
    vm.diff seed = vm.memory := by
  funext page
  by_cases hdirty : page ∈ vm.dirty
  · exact if_pos hdirty
  · exact (if_neg hdirty).trans (hclean page hdirty).symm

namespace Machine

section
variable (machine : Machine)

/-- The clean pages are those of the last capture of the VM, or of what it was started from. -/
def Settled (vm : Vm) : Prop :=
  if vm.captured then ∃ base ∈ machine.memoryBase, vm.CleanIn base
  else vm.CleanIn (vm.loaded.getD fun _ ↦ 0)

/-- What holds of the files of a machine at each stage of a capture. -/
def FilesSound : Prop :=
  match machine.capture with
  | none => True
  | some ⟨_, _, .paused⟩ | some ⟨_, _, .seeded _⟩ => machine.pending = false
  | some ⟨_, _, .marked _⟩ => machine.pending = true
  | some ⟨_, memory, .captured image⟩ | some ⟨_, memory, .resumed image⟩
  | some ⟨_, memory, .published image⟩ => machine.pending = true ∧ image = memory
  | some ⟨_, _, .linked image⟩ => machine.pending = true ∧ machine.memoryBase = some image

/-- What holds of the VM of a machine at each stage of a capture. -/
def VmSound (vm : Vm) : Prop :=
  match machine.capture with
  | none => machine.pending = false → machine.Settled vm
  | some ⟨_, memory, .paused⟩ => vm.Holds memory ∧ machine.Settled vm
  | some ⟨_, memory, .seeded seed⟩ => vm.Holds memory ∧ machine.Settled vm ∧ vm.CleanIn seed
  | some ⟨_, memory, .marked image⟩ | some ⟨_, memory, .captured image⟩ =>
    vm.Holds memory ∧ vm.CleanIn image
  | some ⟨_, _, .resumed image⟩ | some ⟨_, _, .published image⟩ => vm.CleanIn image
  | some ⟨_, _, .linked image⟩ => vm.captured = true ∧ vm.CleanIn image

end

structure Sound (machine : Machine) : Prop where
  files : machine.FilesSound
  vm : ∀ vm ∈ machine.vm, machine.VmSound vm

/-- The base is the last capture of the VM that runs, or the template it was loaded from. -/
def Fits (templates : TemplateKey → Option Template) (machine : Machine) : Prop :=
  ∀ vm ∈ machine.vm,
    match machine.memoryBase with
    | some _ => vm.captured = true
    | none => vm.loaded = machine.template.bind fun key ↦ (templates key).map Template.memory

theorem cleanIn_base {seed : Memory} (hvm : vm ∈ machine.vm) (hsettled : machine.Settled vm)
    (hfits : machine.Fits templates) (hbase : machine.base templates = some seed) :
    vm.CleanIn seed := by
  have hfit := hfits vm hvm
  unfold Settled at hsettled
  unfold base at hbase
  cases hmemory : machine.memoryBase with
  | some memory =>
    simp only [hmemory] at hfit hbase hsettled
    obtain rfl := some.inj hbase
    rw [if_pos hfit] at hsettled
    obtain ⟨base, hmem, hclean⟩ := hsettled
    exact some.inj hmem ▸ hclean
  | none =>
    simp only [hmemory] at hfit hbase hsettled
    split at hsettled
    · obtain ⟨base, hmem, -⟩ := hsettled
      cases hmem
    · cases htemplate : machine.template with
      | none =>
        simp only [htemplate] at hfit hbase
        rw [hfit] at hsettled
        exact some.inj hbase ▸ hsettled
      | some key =>
        simp only [htemplate] at hfit hbase
        rw [hfit, bind_some, hbase] at hsettled
        exact hsettled

theorem sound_of_idle (hcapture : machine.capture = none) (hvm : machine.vm = none) :
    machine.Sound where
  files := by
    rw [FilesSound, hcapture]
    trivial
  vm := by simp [hvm]

/-- After a capture that did not complete nothing is left to hold. -/
theorem sound_of_pending (hcapture : machine.capture = none)
    (hpending : machine.pending = true) : machine.Sound where
  files := by
    rw [FilesSound, hcapture]
    trivial
  vm := by
    intro vm _
    rw [VmSound, hcapture]
    intro hnot
    rw [hpending] at hnot
    cases hnot

theorem settled_of_captured {image : Memory} (hcaptured : vm.captured = true)
    (hbase : machine.memoryBase = some image) (hclean : vm.CleanIn image) : machine.Settled vm := by
  rw [Settled, if_pos hcaptured]
  exact ⟨image, hbase, hclean⟩

theorem Settled.write (hsettled : machine.Settled vm) (page content : ℕ) :
    machine.Settled (vm.write page content) := by
  unfold Settled at hsettled ⊢
  show if vm.captured then _ else _
  split at hsettled
  · obtain ⟨base, hbase, hclean⟩ := hsettled
    rw [if_pos ‹_›]
    exact ⟨base, hbase, hclean.write page content⟩
  · rw [if_neg ‹_›]
    exact hsettled.write page content

theorem VmSound.write (hsound : machine.VmSound vm) (hrunning : vm.paused = false)
    (page content : ℕ) : machine.VmSound (vm.write page content) := by
  have hnot : ∀ memory, ¬ vm.Holds memory := by
    intro memory hholds
    rw [hholds.1] at hrunning
    cases hrunning
  unfold VmSound at hsound ⊢
  split at hsound
  · exact fun hpending ↦ (hsound hpending).write page content
  · exact absurd hsound.1 (hnot _)
  · exact absurd hsound.1 (hnot _)
  · exact absurd hsound.1 (hnot _)
  · exact absurd hsound.1 (hnot _)
  · exact hsound.write page content
  · exact hsound.write page content
  · exact ⟨hsound.1, hsound.2.write page content⟩

/-! ## The steps of a machine -/

theorem Sound.finish (hsound : machine.Sound) (resumed : Bool) :
    (machine.finish resumed).Sound := by
  refine ⟨trivial, fun vm hvm (hpending : machine.pending = false) ↦ ?_⟩
  obtain ⟨before, hbefore, rfl⟩ := map_eq_some_iff.1 hvm
  have hfiles := hsound.files
  have hvm := hsound.vm before hbefore
  unfold FilesSound at hfiles
  unfold VmSound at hvm
  split at hvm
  · exact hvm hpending
  · exact hvm.2
  · exact hvm.2.1
  all_goals simp [*] at hfiles

theorem sound_launch (hcapture : machine.capture = none)
    (hlaunch : machine.launch templates = some after) : after.Sound := by
  unfold launch at hlaunch
  split at hlaunch
  · obtain ⟨template, -, rfl⟩ := map_eq_some_iff.1 hlaunch
    refine ⟨by simp only [FilesSound, hcapture], fun vm hvm ↦ ?_⟩
    cases hvm
    simp only [VmSound, hcapture]
    exact fun _ _ _ ↦ rfl
  · cases hlaunch
    refine ⟨by simp only [FilesSound, hcapture], fun vm hvm ↦ ?_⟩
    cases hvm
    simp only [VmSound, hcapture]
    exact fun _ _ _ ↦ rfl

@[simp]
theorem capture_sweep (machine : Machine) : machine.sweep.capture = machine.capture := by
  unfold sweep
  split <;> rfl

@[simp]
theorem vm_sweep (machine : Machine) : machine.sweep.vm = machine.vm := by
  unfold sweep
  split <;> rfl

variable (machine : Machine) (templates : TemplateKey → Option Template) in
/-- The steps that are possible, and what they make of the machine and of the templates. -/
inductive Steps :
    Op → Machine → (TemplateKey → Option Template) → Prop
  | launch {launched : Machine} (hvm : machine.vm = none) (hcapture : machine.capture = none)
      (hlaunch : machine.sweep.launch templates = some launched) :
      Steps .launch launched templates
  | launchFails (hvm : machine.vm = none) (hcapture : machine.capture = none) : Steps .launchFails
        { machine.sweep with cow := machine.cow || machine.template.isSome } templates
  | write {vm : Vm} (page content : ℕ) (hvm : machine.vm = some vm) (hrunning : vm.paused = false) :
      Steps (.write page content) { machine with vm := some (vm.write page content) } templates
  | die : Steps .die { machine with vm := none } templates
  | removeCow (hvm : machine.vm = none) (hcapture : machine.capture = none) :
      Steps .removeCow { machine with cow := false } templates
  | removeJail (hvm : machine.vm = none) (hcapture : machine.capture = none) :
      Steps .removeJail { machine with pending := false, memoryBase := none } templates
  | refuse {vm : Vm} (key : TemplateKey) (hvm : machine.vm = some vm)
      (hpending : machine.pending = true) : Steps (.begin key) machine templates
  | begin {vm : Vm} (key : TemplateKey) (hvm : machine.vm = some vm)
      (hcapture : machine.capture = none) (hpending : machine.pending = false) :
      Steps (.begin key)
        { machine with
          vm := some { vm with paused := true }
          capture := some ⟨key, vm.memory, .paused⟩ }
        (Function.update templates key none)
  | seed {key : TemplateKey} {memory seed : Memory}
      (hcapture : machine.capture = some ⟨key, memory, .paused⟩)
      (hbase : machine.base templates = some seed) :
      Steps .seed (machine.goTo ⟨key, memory, .paused⟩ (.seeded seed)) templates
  | mark {key : TemplateKey} {memory seed : Memory}
      (hcapture : machine.capture = some ⟨key, memory, .seeded seed⟩) :
      Steps .mark ({ machine with pending := true, vm := machine.vm.map (Vm.mark true) }.goTo
          ⟨key, memory, .seeded seed⟩ (.marked seed)) templates
  | diff {vm : Vm} {key : TemplateKey} {memory seed : Memory} (hvm : machine.vm = some vm)
      (hcapture : machine.capture = some ⟨key, memory, .marked seed⟩) :
      Steps .diff ({ machine with vm := some { vm with dirty := ∅ } }.goTo
          ⟨key, memory, .marked seed⟩ (.captured (vm.diff seed))) templates
  | diffFails {vm : Vm} {key : TemplateKey} {memory seed : Memory} (cleared resumed : Bool)
      (hvm : machine.vm = some vm)
      (hcapture : machine.capture = some ⟨key, memory, .marked seed⟩) :
      Steps (.diffFails cleared resumed)
        ({ machine with vm := some { vm with dirty := if cleared then ∅ else vm.dirty } }.finish
          resumed) templates
  | resume {vm : Vm} {key : TemplateKey} {memory image : Memory} (hvm : machine.vm = some vm)
      (hcapture : machine.capture = some ⟨key, memory, .captured image⟩) :
      Steps .resume ({ machine with vm := some { vm with paused := false } }.goTo
          ⟨key, memory, .captured image⟩ (.resumed image)) templates
  | publish {key : TemplateKey} {memory image : Memory}
      (hcapture : machine.capture = some ⟨key, memory, .resumed image⟩) :
      Steps .publish (machine.goTo ⟨key, memory, .resumed image⟩ (.published image))
        (Function.update templates key (some ⟨image, memory⟩))
  | link {key : TemplateKey} {memory image : Memory}
      (hcapture : machine.capture = some ⟨key, memory, .published image⟩) :
      Steps .link ({ machine with memoryBase := some image, vm := machine.vm.map Vm.capture }.goTo
          ⟨key, memory, .published image⟩ (.linked image)) templates
  | linkFails {key : TemplateKey} {memory image : Memory}
      (hcapture : machine.capture = some ⟨key, memory, .published image⟩) :
      Steps .linkFails ({ machine with memoryBase := none }.finish false) templates
  | unmark {key : TemplateKey} {memory image : Memory}
      (hcapture : machine.capture = some ⟨key, memory, .linked image⟩) :
      Steps .unmark
        ({ machine with pending := false, vm := machine.vm.map (Vm.mark false) }.finish false)
        templates
  | abort (resumed : Bool) : Steps (.abort resumed) (machine.finish resumed) templates

theorem steps_of_step (hstep : machine.step templates op = some (after, templates')) :
    machine.Steps templates op after templates' := by
  revert hstep
  fun_cases Machine.step machine templates op <;> intro hstep <;>
    first
    | cases hstep
    | obtain ⟨_, hfound, heq⟩ := map_eq_some_iff.1 hstep
      cases heq
  all_goals first | (constructor <;> assumption) | skip
  · exact .write _ _ ‹_› (Bool.eq_false_iff.2 ‹_›)
  · exact .begin _ ‹_› ‹_› (Bool.eq_false_iff.2 ‹_›)

theorem Sound.steps (hsound : machine.Sound) (hfits : op = .seed → machine.Fits templates)
    (hstep : machine.Steps templates op after templates') : after.Sound := by
  obtain ⟨hfiles, hvms⟩ := hsound
  cases hstep with
  | launch hvm hcapture hlaunch => exact sound_launch (by rw [capture_sweep, hcapture]) hlaunch
  | launchFails hvm hcapture | removeCow hvm hcapture | removeJail hvm hcapture =>
    exact sound_of_idle (by simp [hcapture]) (by simp [hvm])
  | @write vm page content hvm hrunning =>
    refine ⟨hfiles, fun vm' hvm' ↦ ?_⟩
    cases hvm'
    exact (hvms vm hvm).write hrunning page content
  | die => exact ⟨hfiles, by simp⟩
  | refuse key hvm hpending => exact ⟨hfiles, hvms⟩
  | @begin vm key hvm hcapture hpending =>
    simp only [VmSound, hcapture] at hvms
    refine ⟨hpending, fun vm' hvm' ↦ ?_⟩
    cases hvm'
    exact ⟨⟨rfl, rfl⟩, hvms vm hvm hpending⟩
  | seed hcapture hbase =>
    simp only [FilesSound, VmSound, hcapture] at hfiles hvms
    refine ⟨hfiles, fun vm hvm ↦ ?_⟩
    obtain ⟨hholds, hsettled⟩ := hvms vm hvm
    exact ⟨hholds, hsettled, cleanIn_base hvm hsettled (hfits rfl) hbase⟩
  | mark hcapture =>
    simp only [VmSound, hcapture] at hvms
    refine ⟨rfl, fun vm' hvm' ↦ ?_⟩
    obtain ⟨vm, hvm, rfl⟩ := map_eq_some_iff.1 hvm'
    obtain ⟨hholds, -, hclean⟩ := hvms vm hvm
    exact ⟨hholds, hclean⟩
  | @diff vm _ _ _ hvm hcapture =>
    simp only [FilesSound, VmSound, hcapture] at hfiles hvms
    obtain ⟨hholds, hclean⟩ := hvms vm hvm
    refine ⟨⟨hfiles, hclean.diff_eq.trans hholds.2⟩, fun vm' hvm' ↦ ?_⟩
    cases hvm'
    exact ⟨hholds, fun page _ ↦ congrFun hclean.diff_eq.symm page⟩
  | diffFails cleared resumed hvm hcapture =>
    simp only [FilesSound, hcapture] at hfiles
    exact sound_of_pending rfl hfiles
  | @resume vm _ _ _ hvm hcapture =>
    simp only [FilesSound, VmSound, hcapture] at hfiles hvms
    refine ⟨hfiles, fun vm' hvm' ↦ ?_⟩
    cases hvm'
    exact (hvms vm hvm).2
  | publish hcapture =>
    simp only [FilesSound, VmSound, hcapture] at hfiles hvms
    exact ⟨hfiles, hvms⟩
  | link hcapture =>
    simp only [FilesSound, VmSound, hcapture] at hfiles hvms
    refine ⟨⟨hfiles.1, rfl⟩, fun vm' hvm' ↦ ?_⟩
    obtain ⟨vm, hvm, rfl⟩ := map_eq_some_iff.1 hvm'
    exact ⟨rfl, hvms vm hvm⟩
  | linkFails hcapture =>
    simp only [FilesSound, hcapture] at hfiles
    exact sound_of_pending rfl hfiles.1
  | unmark hcapture =>
    simp only [FilesSound, VmSound, hcapture] at hfiles hvms
    refine ⟨trivial, fun vm' hvm' _ ↦ ?_⟩
    obtain ⟨before, hbefore, rfl⟩ := map_eq_some_iff.1 hvm'
    obtain ⟨vm, hvm, rfl⟩ := map_eq_some_iff.1 hbefore
    obtain ⟨hcaptured, hclean⟩ := hvms vm hvm
    exact settled_of_captured hcaptured hfiles.2 hclean
  | abort resumed => exact Sound.finish ⟨hfiles, hvms⟩ resumed

end Machine

theorem mem_of_mem_update_none {κ α : Type*} [DecidableEq κ] {files : κ → Option α} {key other : κ}
    {value : α} (hmem : value ∈ Function.update files other none key) : value ∈ files key := by
  by_cases hkey : key = other
  · rw [hkey, update_self] at hmem
    cases hmem
  · rwa [update_of_ne hkey] at hmem

/-- A template of the host was there before, or is the image of a capture that has resumed. -/
theorem Machine.templates_of_steps (hstep : machine.Steps templates op after templates')
    (key : TemplateKey) : ∀ template ∈ templates' key, template ∈ templates key ∨
      machine.capture = some ⟨key, template.paused, .resumed template.memory⟩ := by
  intro template hmem
  cases hstep with
  | begin other => exact .inl (mem_of_mem_update_none hmem)
  | @publish other memory image hcapture =>
    by_cases hkey : key = other
    · rw [hkey, update_self] at hmem
      cases hmem
      exact .inr (hkey ▸ hcapture)
    · rw [update_of_ne hkey] at hmem
      exact .inl hmem
  | _ => exact .inl hmem

/-- A relation between the mark of a VM and the file in the jail that a step keeps, if it holds for
the VM that a launch starts. -/
theorem Machine.marked_of_steps {R : Bool → Bool → Prop} (hrefl : ∀ marked, R marked marked)
    (hlaunch : op = .launch → R false machine.sweep.pending)
    (hmarked : ∀ vm ∈ machine.vm, R vm.marked machine.pending)
    (hstep : machine.Steps templates op after templates') :
    ∀ vm ∈ after.vm, R vm.marked after.pending := by
  intro vm' hvm'
  cases hstep with
  | launch hvm hcapture hlaunched =>
    unfold Machine.launch at hlaunched
    split at hlaunched
    · obtain ⟨template, -, rfl⟩ := map_eq_some_iff.1 hlaunched
      cases hvm'
      exact hlaunch rfl
    · cases hlaunched
      cases hvm'
      exact hlaunch rfl
  | launchFails hvm hcapture | removeCow hvm hcapture | removeJail hvm hcapture =>
    simp [hvm] at hvm'
  | die => cases hvm'
  | refuse | seed | publish => exact hmarked vm' hvm'
  | @write vm page content hvm | @begin vm key hvm | @diff vm _ _ _ hvm
  | @diffFails vm _ _ _ _ _ hvm | @resume vm _ _ _ hvm =>
    cases hvm'
    exact hmarked vm hvm
  | mark hcapture =>
    obtain ⟨vm, -, rfl⟩ := map_eq_some_iff.1 hvm'
    exact hrefl true
  | link hcapture | linkFails hcapture | abort resumed =>
    obtain ⟨vm, hvm, rfl⟩ := map_eq_some_iff.1 hvm'
    exact hmarked vm hvm
  | unmark hcapture =>
    obtain ⟨before, hbefore, rfl⟩ := map_eq_some_iff.1 hvm'
    obtain ⟨vm, -, rfl⟩ := map_eq_some_iff.1 hbefore
    exact hrefl false

/-! ## Runs -/

variable {host : Snapshots} {label : SnapshotLabel} {labels : List SnapshotLabel}

theorem Snapshots.step_of_enabled (henabled : snapshots.enabled host label) :
    host.step label = some (snapshots.next host label) :=
  (getD_of_ne_none (isSome_iff_ne_none.1 henabled) _).symm

/-- A property of machines that a new one has and that every possible step keeps. -/
theorem Snapshots.machines_next {P : Machine → Prop} (hnew : ∀ template, P (.new template))
    (hop : ∀ machineId op machine after templates', label = .op machineId op →
      machine ∈ host.machines machineId → P machine →
      machine.Steps host.templates op after templates' → P after)
    (hhost : ∀ machineId, ∀ machine ∈ host.machines machineId, P machine)
    (henabled : snapshots.enabled host label) :
    ∀ machineId, ∀ machine ∈ (snapshots.next host label).machines machineId, P machine := by
  have hstep := step_of_enabled henabled
  generalize snapshots.next host label = host' at hstep ⊢
  -- a step changes the machine of one id
  have hupdate : ∀ machineId (changed : Option Machine), (∀ machine ∈ changed, P machine) →
      ∀ other, ∀ machine ∈ update host.machines machineId changed other, P machine := by
    intro machineId changed hchanged other machine hmachine
    by_cases hother : other = machineId
    · rw [hother, update_self] at hmachine
      exact hchanged machine hmachine
    · rw [update_of_ne hother] at hmachine
      exact hhost other machine hmachine
  cases label with
  | record machineId template =>
    simp only [step] at hstep
    split at hstep <;> cases hstep
    refine hupdate machineId _ fun machine hmachine ↦ ?_
    cases hmachine
    exact hnew template
  | op machineId op =>
    obtain ⟨machine, hmachine, hmap⟩ := bind_eq_some_iff.1 hstep
    obtain ⟨⟨after, templates'⟩, hop', rfl⟩ := map_eq_some_iff.1 hmap
    refine hupdate machineId _ fun after' hafter ↦ ?_
    cases hafter
    exact hop machineId op machine _ templates' rfl hmachine (hhost machineId machine hmachine)
      (Machine.steps_of_step hop')
  | forget machineId =>
    simp only [step] at hstep
    split at hstep <;> cases hstep
    exact hupdate machineId none (by simp)
  | reclaim key =>
    cases hstep
    exact hhost

/-- The machines are sound, and the templates hold the memory of their paused sources. -/
structure Snapshots.Sound (host : Snapshots) : Prop where
  machines : ∀ machineId, ∀ machine ∈ host.machines machineId, machine.Sound
  templates : ∀ key, ∀ template ∈ host.templates key, template.memory = template.paused

section
variable (host : Snapshots)

/-- At a capture, the base that is chosen is that of the VM. -/
def BasesFit : SnapshotLabel → Prop
  | .op machineId .seed => ∀ machine ∈ host.machines machineId, machine.Fits host.templates
  | _ => True

/-- A machine in whose jail a capture has left its file is relaunched only if it has a template. -/
def RestartsClean : SnapshotLabel → Prop
  | .op machineId .launch =>
    ∀ machine ∈ host.machines machineId, machine.pending = true → machine.template.isSome = true
  | _ => True

/-- A capture is refused if one of the same VM was interrupted. -/
def RefusesInterrupted : SnapshotLabel → Prop
  | .op machineId (.begin _) => ∀ machine ∈ host.machines machineId, ∀ vm ∈ machine.vm,
    vm.marked = true → machine.pending = true
  | _ => True

/-- A capture is refused only if one of the same VM was interrupted. -/
def RefusesOnlyInterrupted : SnapshotLabel → Prop
  | .op machineId (.begin _) => ∀ machine ∈ host.machines machineId, ∀ vm ∈ machine.vm,
    machine.pending = true → vm.marked = true
  | _ => True

end

instance (host : Snapshots) (label : SnapshotLabel) :
    Decidable (RefusesOnlyInterrupted host label) := by
  unfold RefusesOnlyInterrupted
  split <;> infer_instance

theorem Snapshots.Sound.next (hsound : host.Sound) (henabled : snapshots.enabled host label)
    (hfit : BasesFit host label) : (snapshots.next host label).Sound where
  machines := by
    refine machines_next (P := Machine.Sound) ?_ ?_ hsound.machines henabled
    · exact fun template ↦ Machine.sound_of_idle rfl rfl
    · rintro machineId op machine after templates' rfl hmachine hbefore hsteps
      refine hbefore.steps ?_ hsteps
      rintro rfl
      exact hfit machine hmachine
  templates := by
    have hstep := step_of_enabled henabled
    generalize snapshots.next host label = host' at hstep ⊢
    intro key template htemplate
    cases label with
    | record machineId template' | forget machineId =>
      simp only [step] at hstep
      split at hstep <;> cases hstep
      exact hsound.templates key template htemplate
    | op machineId op =>
      obtain ⟨machine, hmachine, hmap⟩ := bind_eq_some_iff.1 hstep
      obtain ⟨⟨after, templates'⟩, hop, rfl⟩ := map_eq_some_iff.1 hmap
      rcases Machine.templates_of_steps (Machine.steps_of_step hop) key template htemplate with
        hold | hcapture
      · exact hsound.templates key template hold
      · have hfiles := (hsound.machines machineId machine hmachine).files
        simp only [Machine.FilesSound, hcapture] at hfiles
        exact hfiles.2
    | reclaim other =>
      cases hstep
      exact hsound.templates key template (mem_of_mem_update_none htemplate)

theorem refusesInterrupted_throughout (hrun : snapshots.Admits .empty labels) :
    snapshots.Throughout RefusesInterrupted .empty labels := by
  refine throughout_of_invariant (fun host ↦ ∀ machineId,
    ∀ machine ∈ host.machines machineId, ∀ vm ∈ machine.vm,
      vm.marked = true → machine.pending = true) ?_ ?_ (by simp [Snapshots.empty]) hrun
  · intro host label hhost henabled
    refine Snapshots.machines_next (P := fun machine ↦ ∀ vm ∈ machine.vm,
      vm.marked = true → machine.pending = true) (by simp [Machine.new]) ?_ hhost henabled
    intro machineId op machine after templates' _ _ hbefore hsteps
    exact Machine.marked_of_steps (R := fun marked pending ↦ marked = true → pending = true)
      (fun _ ↦ id) (by simp) hbefore hsteps
  · intro host label hhost _
    unfold RefusesInterrupted
    split
    · exact hhost _
    · trivial

theorem refusesOnlyInterrupted_throughout (hrun : snapshots.Admits .empty labels)
    (hclean : snapshots.Throughout RestartsClean .empty labels) :
    snapshots.Throughout RefusesOnlyInterrupted .empty labels := by
  have hrestrict := (admits_restrict_iff RestartsClean .empty labels).2 ⟨hrun, hclean⟩
  rw [← throughout_restrict RestartsClean]
  refine throughout_of_invariant (fun host ↦ ∀ machineId,
    ∀ machine ∈ host.machines machineId, ∀ vm ∈ machine.vm,
      machine.pending = true → vm.marked = true) ?_ ?_ (by simp [Snapshots.empty]) hrestrict
  · rintro host label hhost ⟨henabled, hlaunch⟩
    refine Snapshots.machines_next (P := fun machine ↦ ∀ vm ∈ machine.vm,
      machine.pending = true → vm.marked = true) (by simp [Machine.new]) ?_ hhost henabled
    rintro machineId op machine after templates' rfl hmachine hbefore hsteps
    refine Machine.marked_of_steps (R := fun marked pending ↦ pending = true → marked = true)
      (fun _ ↦ id) ?_ hbefore hsteps
    rintro rfl hpending
    have htemplate := hlaunch machine hmachine
    unfold Machine.sweep at hpending
    split at hpending
    · cases hpending
    · exact absurd (htemplate hpending) ‹_›
  · intro host label hhost _
    unfold RefusesOnlyInterrupted
    split
    · exact hhost _
    · trivial

/-- In every run: if the base of every capture is the last capture of the VM or the template it was
loaded from, every template holds the memory of its source when it was paused.  A capture is refused
if one of the same VM was interrupted, and only then, if no machine without a template is relaunched
with the file of a capture in its jail. -/
theorem snapshots_exact (hrun : snapshots.Admits .empty labels) :
    (snapshots.Throughout BasesFit .empty labels →
      ∀ key, ∀ template ∈ (snapshots.exec .empty labels).templates key,
        template.memory = template.paused) ∧
    snapshots.Throughout RefusesInterrupted .empty labels ∧
    (snapshots.Throughout RestartsClean .empty labels →
      snapshots.Throughout RefusesOnlyInterrupted .empty labels) := by
  refine ⟨fun hfit ↦ ?_, refusesInterrupted_throughout hrun, refusesOnlyInterrupted_throughout hrun⟩
  have hrestrict := (admits_restrict_iff BasesFit .empty labels).2 ⟨hrun, hfit⟩
  exact (invariant_of_restrict Snapshots.Sound
    (fun _ _ hsound henabled hbase ↦ hsound.next henabled hbase)
    ⟨by simp [Snapshots.empty], by simp [Snapshots.empty]⟩ hrestrict).templates

/-- A capture of a machine from its first step to its last. -/
def captureRun (machineId key : String) : List SnapshotLabel :=
  [.begin key, .seed, .mark, .diff, .resume, .publish, .link, .unmark].map (.op machineId)

/-- A machine is booted and captured. -/
def capturedRun : List SnapshotLabel :=
  [.record "fc-a" none, .op "fc-a" .launch, .op "fc-a" (.write 3 7)] ++ captureRun "fc-a" "k"

theorem snapshots_exact_captured :
    ((snapshots.exec .empty capturedRun).templates "k").map Template.memory =
      ((snapshots.exec .empty capturedRun).templates "k").map Template.paused := by
  have hrun : snapshots.Admits .empty capturedRun := by decide +kernel
  apply Option.map_congr
  refine (snapshots_exact hrun).1 ⟨trivial, trivial, trivial, trivial, ?_, trivial, trivial,
    trivial, trivial, trivial, trivial, trivial⟩ "k"
  intro machine hmachine vm hvm
  obtain rfl := Option.some.inj hmachine
  obtain rfl := Option.some.inj hvm
  rfl

/-- The VM of a captured machine dies, and the machine is captured again after its relaunch. -/
def relaunchedRun : List SnapshotLabel :=
  capturedRun ++ [.op "fc-a" .die, .op "fc-a" .launch] ++ captureRun "fc-a" "l"

/-- The VM of a restored machine dies, and the machine is captured after its relaunch. -/
def restoredRun : List SnapshotLabel :=
  capturedRun ++ [.record "fc-b" (some "k"), .op "fc-b" .launch, .op "fc-b" .die,
    .op "fc-b" .launch] ++ captureRun "fc-b" "l"

/-- A capture is interrupted, the VM dies, and the machine is relaunched and captured. -/
def interruptedRun : List SnapshotLabel :=
  [.record "fc-a" none, .op "fc-a" .launch, .op "fc-a" (.begin "k"), .op "fc-a" .seed,
    .op "fc-a" .mark, .op "fc-a" (.diffFails true true), .op "fc-a" .die, .op "fc-a" .launch,
    .op "fc-a" (.begin "l")]

theorem snapshots_inexact : (snapshots.Admits .empty relaunchedRun ∧
      ((snapshots.exec .empty relaunchedRun).templates "l").map
        (fun template ↦ (template.memory 3, template.paused 3)) = some (7, 0)) ∧
    (snapshots.Admits .empty restoredRun ∧
      ((snapshots.exec .empty restoredRun).templates "l").map
        (fun template ↦ (template.memory 3, template.paused 3)) = some (7, 0)) ∧
    snapshots.Admits .empty interruptedRun ∧
      ¬ snapshots.Throughout RefusesOnlyInterrupted .empty interruptedRun := by
  decide +kernel

end Exo.Firecracker
