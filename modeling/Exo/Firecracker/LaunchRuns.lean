import Exo.Firecracker.Launch

/-!
# What a failed launch leaves

A cleanup that reads the manifest and stops the process leaves no VMM behind, whatever fails in it
afterwards.  From there on every step of a launch is followed, until the guest that is delivered
answers at its own address with the resources mounted.

Three failures are not answered that way: a failed `mount_resources` is returned without a cleanup,
a failed cleanup is only logged, and a VMM whose pid another process got can be neither stopped nor
removed.
-/

namespace Exo.Firecracker

open Library Library.InPlace System Option

section Hosts
variable {host : MachineHost} {record : MachineRecord} {request : MachineRequest}
  {outcomes : EnsureOutcomes} {fails : CleanupStep → Bool}

/-! ## Invariants -/

section
variable (host : MachineHost)

/-- A VMM only runs under the pid in the pid file, and no other process has that pid. -/
structure MachineHost.Stoppable : Prop where
  listed : ∀ pid guest, host.processes pid = some (.vmm guest) → host.pidFile = some pid
  own : host.process ≠ some .other

structure MachineHost.Gone : Prop where
  exited : host.Exited
  own : host.process ≠ some .other

/-- What a guest answers with once it is up. -/
def MachineRecord.Fits (record : MachineRecord) : GuestSystem → Prop
  | .booting address mounted | .up address mounted =>
    (record.networkEnabled = true → address = record.slot) ∧
      ∀ path ∈ record.resourcePaths, path ∈ mounted
  | .stuck => True

/-- Between the operations: the VMM that runs was launched for the manifest. -/
structure MachineHost.Sound : Prop where
  stoppable : host.Stoppable
  fits : ∀ pid guest, host.processes pid = some (.vmm guest) →
    ∃ record, host.record = some record ∧ record.Fits guest

end

theorem MachineHost.Gone.stoppable (hgone : host.Gone) : host.Stoppable :=
  ⟨fun pid guest hvmm ↦ absurd hvmm (hgone.exited pid guest), hgone.own⟩

theorem MachineHost.Gone.sound (hgone : host.Gone) : host.Sound :=
  ⟨hgone.stoppable, fun pid guest hvmm ↦ absurd hvmm (hgone.exited pid guest)⟩

theorem MachineHost.Gone.removeJail (hgone : host.Gone) : (removeJail host).Gone :=
  ⟨hgone.exited, by simp [MachineHost.process, Firecracker.removeJail]⟩

theorem setProcess_processes (pid other : ℕ) (process : Option HostProcess) :
    (host.setProcess pid process).processes other =
      if other = pid then process else host.processes other :=
  Function.update_apply host.processes pid process other

theorem MachineHost.Stoppable.stopProcess (hstoppable : host.Stoppable) :
    host.stopProcess.Gone := by
  cases hfile : host.pidFile with
  | none =>
    have hstop : host.stopProcess = host := by rw [MachineHost.stopProcess, hfile]
    rw [hstop]
    refine ⟨fun pid guest hvmm ↦ ?_, hstoppable.own⟩
    have hlisted := hstoppable.listed pid guest hvmm
    rw [hfile] at hlisted
    cases hlisted
  | some pid =>
    have hstop : host.stopProcess = host.setProcess pid none := by
      rw [MachineHost.stopProcess, hfile]
    rw [hstop]
    constructor
    · intro other guest hvmm
      rw [setProcess_processes] at hvmm
      split_ifs at hvmm with heq
      have hlisted := hstoppable.listed other guest hvmm
      rw [hfile] at hlisted
      exact heq (some.inj hlisted).symm
    · have hfile' : (host.setProcess pid none).pidFile = some pid := hfile
      simp [MachineHost.process, hfile', setProcess_processes]

/-! ## The cleanup -/

section Triples
variable {P E : MachineHost → Prop}
  {failing deleteRootfs reusing : Bool} {change : GuestSystem → GuestSystem}
  {found : Option MachineRecord} {pid : ℕ} {P' : GuestSystem → Prop} {guest : GuestSystem}
  {slot : Option ℕ}
  {message : String} {failure : Prop} {snapshot : Option (SnapshotTemplateLifecycle × ℕ)}
  {mode : ShutdownMode} {sync : Option ℕ} {label : LaunchLabel}

theorem meets_command {change : MachineHost → MachineHost} {Q : Unit → MachineHost → Prop}
    (hchange : ∀ host, P host → Q () (change host))
    (hfails : ∀ host, P host → failing = true → E host) :
    (command failing message change).Meets P Q E :=
  Meets.ensure (fun _ ↦ meets_update hchange) fun host hhost hguard ↦
    hfails host hhost (by simpa using hguard)

theorem meets_loadMachineRecord {Q : Option MachineRecord → MachineHost → Prop}
    (hload : ∀ host, P host → Q host.record host)
    (hfails : ∀ host, P host → failing = true → E host) :
    (loadMachineRecord failing).Meets P Q E := by
  refine Meets.ensure (fun _ ↦ ?_) fun host hhost hguard ↦
    hfails host hhost (by simpa using hguard)
  refine meets_look (fun host value hhost hvalue ↦ ?_) nofun
  cases hvalue
  exact hload host hhost

/-- Nothing that is removed brings a process back. -/
theorem meets_removeFiles
    (hoverlay : deleteRootfs = true → ∀ host, P host → P { host with overlay := false })
    (hjail : ∀ host, P host → P (removeJail host))
    (hmanifest : deleteRootfs = true → ∀ host, P host → P { host with record := none })
    (hfails : ∀ step, fails step = true → ∀ host, P host → E host) :
    (removeFiles deleteRootfs found fails).Meets P
      (fun _ host ↦ P host ∧ (deleteRootfs = true → host.record = none)) E := by
  have hkeep (step : CleanupStep) (message : String) :
      (command (fails step) message id).Meets P (fun _ ↦ P) E :=
    meets_command (fun _ ↦ id) fun host hhost hstep ↦ hfails step hstep host hhost
  have hremoveJail (step : CleanupStep) (message : String) :
      (command (fails step) message removeJail).Meets P (fun _ ↦ P) E :=
    meets_command hjail fun host hhost hstep ↦ hfails step hstep host hhost
  let Listed : MachineHost → Prop := fun host ↦
    P host ∧ (deleteRootfs = true → host.record = none)
  have hlast (step : CleanupStep) (message : String) :
      (command (fails step) message id).Meets Listed (fun _ ↦ Listed) E :=
    meets_command (fun _ ↦ id) fun host hhost hstep ↦ hfails step hstep host hhost.1
  refine Meets.bind (Meets.when (fun hcondition ↦ ?_) fun _ _ ↦ id) fun _ ↦ ?_
  · have hdelete : deleteRootfs = true := by simp_all
    exact meets_command (hoverlay hdelete) fun host hhost hstep ↦ hfails _ hstep host hhost
  refine Meets.bind (hkeep _ _) fun _ ↦ ?_
  refine Meets.bind (Meets.when (fun _ ↦ hremoveJail _ _) fun _ _ ↦ id) fun _ ↦ ?_
  refine Meets.bind (Meets.when (fun _ ↦ hkeep _ _) fun _ _ ↦ id) fun _ ↦ ?_
  refine Meets.bind (Meets.when (fun _ ↦ hremoveJail _ _) fun _ _ ↦ id) fun _ ↦ ?_
  refine Meets.bind (Q := fun _ ↦ Listed) (Meets.when (fun hdelete ↦ ?_) ?_) fun _ ↦ ?_
  · exact meets_command (fun host hhost ↦ ⟨hmanifest hdelete host hhost, fun _ ↦ rfl⟩)
      fun host hhost hstep ↦ hfails _ hstep host hhost
  · exact fun host hkept hhost ↦ ⟨hhost, fun hdelete ↦ by rw [hkept] at hdelete; cases hdelete⟩
  refine Meets.bind (Meets.when (fun _ ↦ hlast _ _) fun _ _ ↦ id) fun _ ↦ ?_
  exact Meets.when (fun _ ↦ hlast _ _) fun _ _ ↦ id

theorem stopProcess_record : host.stopProcess.record = host.record := by
  rw [MachineHost.stopProcess]
  split <;> rfl

/-- The process is the machine's own, so that only a failing command keeps it alive. -/
theorem meets_stopMachineProcess (hstoppable : ∀ host, P host → host.Stoppable)
    (hfails : ∀ host, P host → failing = true → E host) :
    (stopMachineProcess failing).Meets P
      (fun _ host ↦ host.Gone ∧ ∃ before, P before ∧ host.record = before.record) E := by
  refine Meets.ensure (fun _ ↦ ?_) fun host hhost hguard ↦
    hfails host hhost (by simpa using hguard)
  refine Meets.bind (Q := fun _ ↦ P) ?_ fun _ ↦ ?_
  · refine meets_look (fun _ _ hhost _ ↦ hhost) fun host message hhost herror ↦ ?_
    have hown : (host.process != some .other) = true := by simpa using (hstoppable host hhost).own
    rw [hown] at herror
    cases herror
  · exact meets_update fun host hhost ↦
      ⟨(hstoppable host hhost).stopProcess, host, hhost, stopProcess_record⟩

/-- A cleanup that gets as far as stopping the process leaves no VMM. -/
theorem meets_cleanup (hstoppable : ∀ host, P host → host.Stoppable)
    (hload : ∀ host, P host → fails .loadRecord = true → E host)
    (hstop : ∀ host, P host → fails .stopProcess = true → E host)
    (hgone : ∀ step, fails step = true → ∀ host, host.Gone → E host) :
    (cleanupMachine deleteRootfs fails).Meets P (fun _ ↦ MachineHost.Gone) E := by
  refine Meets.keeping (meets_loadMachineRecord (fun _ ↦ id) hload) fun found ↦ ?_
  refine Meets.bind (Q := fun _ ↦ MachineHost.Gone) ?_ fun _ ↦ ?_
  · exact (meets_stopMachineProcess hstoppable hstop).result fun _ _ hhost ↦ hhost.1
  · -- once the process is stopped, nothing brings a VMM back
    have hfiles : (removeFiles deleteRootfs found fails).Meets MachineHost.Gone _ E :=
      meets_removeFiles (fun _ _ hhost ↦ ⟨hhost.exited, hhost.own⟩)
        (fun _ hhost ↦ hhost.removeJail) (fun _ _ hhost ↦ ⟨hhost.exited, hhost.own⟩) hgone
    exact hfiles.result fun _ _ hhost ↦ hhost.1

theorem meets_cleanup_sound : (cleanupMachine deleteRootfs fails).Meets MachineHost.Sound
      (fun _ ↦ MachineHost.Sound) MachineHost.Sound :=
  (meets_cleanup (fun _ hhost ↦ hhost.stoppable) (fun _ hhost _ ↦ hhost) (fun _ hhost _ ↦ hhost)
    fun _ _ _ hhost ↦ hhost.sound).result fun _ _ hhost ↦ hhost.sound

/-- What neither a stopped process nor a removed file changes. -/
theorem meets_cleanup_keeps (hstop : ∀ host, P host → P host.stopProcess)
    (hoverlay : deleteRootfs = true → ∀ host, P host → P { host with overlay := false })
    (hjail : ∀ host, P host → P (removeJail host))
    (hmanifest : deleteRootfs = true → ∀ host, P host → P { host with record := none }) :
    (cleanupMachine deleteRootfs fails).Meets P
      (fun _ host ↦ P host ∧ (deleteRootfs = true → host.record = none)) P := by
  refine Meets.keeping (meets_loadMachineRecord (fun _ ↦ id) fun _ hhost _ ↦ hhost) fun found ↦ ?_
  refine Meets.keeping ?_ fun _ ↦
    meets_removeFiles hoverlay hjail hmanifest fun _ _ _ ↦ id
  refine Meets.ensure (fun _ ↦ ?_) fun host hhost _ ↦ hhost
  exact Meets.looking (fun _ _ hhost _ ↦ hhost) fun _ ↦ meets_update hstop

/-- A free pid stays free, and a cleanup that keeps the rootfs keeps the manifest. -/
theorem meets_cleanup_free : (cleanupMachine deleteRootfs fails).Meets
      (fun host ↦ host.processes pid = none ∧ host.record = found)
      (fun _ host ↦ host.record = (if deleteRootfs then none else found) ∧
        host.processes pid = none) fun host ↦ host.processes pid = none := by
  have hkeeps : (cleanupMachine deleteRootfs fails).Meets
      (fun host ↦ host.processes pid = none ∧ (deleteRootfs = false → host.record = found)) _ _ :=
    meets_cleanup_keeps (fun host hhost ↦ ?_) (fun _ _ ↦ id) (fun _ ↦ id)
      fun hdelete host hhost ↦ ⟨hhost.1, fun hkept ↦ by rw [hkept] at hdelete; cases hdelete⟩
  · refine hkeeps.weaken (fun _ hhost ↦ ⟨hhost.1, fun _ ↦ hhost.2⟩) (fun _ _ hhost ↦ ?_)
      fun _ hhost ↦ hhost.1
    cases deleteRootfs with
    | false => exact ⟨hhost.1.2 rfl, hhost.1.1⟩
    | true => exact ⟨hhost.2 rfl, hhost.1.1⟩
  · refine ⟨?_, fun hkept ↦ stopProcess_record.trans (hhost.2 hkept)⟩
    rw [MachineHost.stopProcess]
    split
    · rw [setProcess_processes, hhost.1, ite_self]
    · exact hhost.1

theorem meets_cleanup_faultless (hfaultless : ∀ step, fails step = false) :
    (cleanupMachine deleteRootfs fails).Meets MachineHost.Gone (fun _ ↦ MachineHost.Gone)
      fun _ ↦ False := by
  have hnever {step : CleanupStep} (hfails : fails step = true) : False := by
    rw [hfaultless step] at hfails
    cases hfails
  exact meets_cleanup (fun _ hhost ↦ hhost.stoppable) (fun _ _ ↦ hnever) (fun _ _ ↦ hnever)
    fun _ hfails _ _ ↦ hnever hfails

/-! ## The launch -/

/-- The VMM under the pid is the only one, and its pid is written. -/
structure MachineHost.Running (record : MachineRecord) (pid : ℕ) (P : GuestSystem → Prop)
    (host : MachineHost) : Prop where
  listed : host.record = some record
  pidFile : host.pidFile = some pid
  guest : ∃ guest, host.processes pid = some (.vmm guest) ∧ P guest
  only : ∀ other guest, host.processes other = some (.vmm guest) → other = pid

theorem MachineHost.Running.stoppable {P : GuestSystem → Prop}
    (hrunning : host.Running record pid P) : host.Stoppable := by
  obtain ⟨guest, hguest, -⟩ := hrunning.guest
  constructor
  · intro other guest hvmm
    rw [hrunning.only other guest hvmm]
    exact hrunning.pidFile
  · rw [MachineHost.process, hrunning.pidFile, bind_some, hguest]
    simp

theorem MachineHost.Running.weaken {P : GuestSystem → Prop} (hrunning : host.Running record pid P)
    (hguest : ∀ guest, P guest → P' guest) : host.Running record pid P' := by
  obtain ⟨guest, hvmm, hP⟩ := hrunning.guest
  exact ⟨hrunning.listed, hrunning.pidFile, ⟨guest, hvmm, hguest guest hP⟩, hrunning.only⟩

theorem MachineHost.Running.changeGuest {P : GuestSystem → Prop}
    (hrunning : host.Running record pid P) (hchange : ∀ guest, P guest → P' (change guest)) :
    (host.changeGuest pid change).Running record pid P' := by
  obtain ⟨guest, hvmm, hP⟩ := hrunning.guest
  have hhost : host.changeGuest pid change = host.setProcess pid (some (.vmm (change guest))) := by
    rw [MachineHost.changeGuest, hvmm]
  rw [hhost]
  refine ⟨hrunning.listed, hrunning.pidFile, ⟨change guest, ?_, hchange guest hP⟩, ?_⟩
  · rw [setProcess_processes, if_pos rfl]
  · intro other guest' hother
    rw [setProcess_processes] at hother
    by_contra hne
    rw [if_neg hne] at hother
    exact hne (hrunning.only other guest' hother)

/-- A guest as the launch leaves it. -/
def Launched (record : MachineRecord) (request : MachineRequest) (guest : GuestSystem) : Prop :=
  guest = .booting record.slot request.mounts ∨
    record.snapshotTemplate.isSome = true ∧
      guest = .up (record.snapshotNetworkSlot.getD record.slot) []

/-- The launch fails before the jailer is spawned. -/
def EnsureOutcomes.Early (outcomes : EnsureOutcomes) : Prop :=
  outcomes.launch = some .network ∨ outcomes.launch = some .files

/-- Before the jailer is spawned. -/
structure MachineHost.Ready (record : MachineRecord) (pid : ℕ) (host : MachineHost) : Prop where
  gone : host.Gone
  listed : host.record = some record
  free : host.processes pid = none

theorem meets_prepareAndLaunch (hobserved : outcomes.observed = true) :
    (prepareAndLaunch request record outcomes).Meets (MachineHost.Ready record outcomes.pid)
      (fun _ host ↦ ¬outcomes.Early ∧ host.Running record outcomes.pid (Launched record request))
      fun host ↦ outcomes.launch ≠ none ∧ host.Stoppable ∧ (outcomes.Early → host.Gone) := by
  refine Meets.ensure (fun hnetwork ↦ ?_) fun host hhost hguard ↦ ?_
  swap
  · have hlaunch : outcomes.launch = some .network := by simpa using hguard
    exact ⟨by simp [hlaunch], hhost.gone.stoppable, fun _ ↦ hhost.gone⟩
  refine Meets.looking nofun fun overlay ↦ ?_
  refine Meets.keeping (Meets.when (fun _ ↦ meets_update fun host hhost ↦ ?_) fun _ _ ↦ id)
    fun _ ↦ ?_
  · exact ⟨⟨hhost.gone.exited, hhost.gone.own⟩, hhost.listed, hhost.free⟩
  refine Meets.keeping (Meets.when (fun _ ↦ meets_update fun host hhost ↦ ?_) fun _ _ ↦ id)
    fun _ ↦ ?_
  · exact ⟨hhost.gone.removeJail, hhost.listed, hhost.free⟩
  refine Meets.ensure (fun hfiles ↦ ?_) fun host hhost hguard ↦ ?_
  swap
  · have hlaunch : outcomes.launch = some .files := by simpa using hguard
    exact ⟨by simp [hlaunch], hhost.gone.stoppable, fun _ ↦ hhost.gone⟩
  have hlate : ¬outcomes.Early := by
    intro hearly
    rcases hearly with hearly | hearly
    · simp [hearly] at hnetwork
    · simp [hearly] at hfiles
  generalize hclone : (record.snapshotTemplate.isSome && !overlay) = clone
  let Spawned : GuestSystem → Prop := fun guest ↦
    outcomes.launch = some .api ∧ clone = true ∨ Launched record request guest
  -- Nothing is known of the pid file before the jailer has written it.
  refine Meets.bind (Q := fun _ host ↦
    ({ host with pidFile := some outcomes.pid }).Running record outcomes.pid Spawned)
    (meets_update fun host hhost ↦ ?_) fun _ ↦ ?_
  · refine ⟨hhost.listed, rfl, ⟨launchedGuest request record outcomes clone, ?_, ?_⟩,
      fun other guest hother ↦ ?_⟩
    · exact (setProcess_processes _ _ _).trans (if_pos rfl)
    · cases clone with
      | false => exact .inr (.inl rfl)
      | true =>
        by_cases hapi : outcomes.launch = some .api
        · exact .inl ⟨hapi, rfl⟩
        · have hsome : record.snapshotTemplate.isSome = true := by simp_all
          exact .inr (.inr ⟨hsome, by simp [launchedGuest, hapi]⟩)
    · have hother' := (setProcess_processes _ _ _).symm.trans hother
      by_contra hne
      rw [if_neg hne] at hother'
      exact hhost.gone.exited other guest hother'
  refine Meets.bind (Q := fun _ ↦ MachineHost.Running record outcomes.pid Spawned)
    (Meets.when (fun _ ↦ meets_update fun _ ↦ id) fun _ hfalse _ ↦ ?_) fun _ ↦ ?_
  · rw [hobserved] at hfalse
    cases hfalse
  refine Meets.when (fun htrue ↦ meets_check (fun host _ hhost hchecked ↦ ?_)
    fun host _ hhost hfails ↦ ?_) fun host hfalse hhost ↦ ?_
  · refine ⟨hlate, hhost.weaken fun guest hguest ↦ hguest.resolve_left fun hapi ↦ ?_⟩
    simp [hapi.1, ensure] at hchecked
  · have hlaunch : outcomes.launch = some .api := by
      by_contra hne
      simp [ensure, hne] at hfails
    exact ⟨by simp [hlaunch], hhost.stoppable, fun hearly ↦ absurd hearly hlate⟩
  · refine ⟨hlate, hhost.weaken fun guest hguest ↦ hguest.resolve_left fun hapi ↦ ?_⟩
    rw [hfalse] at hapi
    cases hapi.2

/-- What can be known of the cleanup after a failure of the launch. -/
def EnsureOutcomes.Cleans (outcomes : EnsureOutcomes) : Prop :=
  outcomes.Early ∨ outcomes.failed .loadRecord = false ∧ outcomes.failed .stopProcess = false

/-- A launch that has failed: no VMM is left, if the cleanup gets as far as stopping it. -/
def MachineHost.Failed (outcomes : EnsureOutcomes) (failure : Prop) (host : MachineHost) : Prop :=
  failure ∧ (outcomes.Cleans → host.Gone)

theorem meets_failed_cleanup (hfailure : ∀ host, P host → failure)
    (hstoppable : ∀ host, P host → host.Stoppable)
    (hearly : ∀ host, P host → outcomes.Early → host.Gone) :
    (cleanupMachine deleteRootfs outcomes.failed).Meets P
      (fun _ ↦ MachineHost.Failed outcomes failure) (MachineHost.Failed outcomes failure) := by
  intro host hhost
  have hfact := hfailure host hhost
  by_cases hcleans : outcomes.Cleans
  · refine Meets.weaken (E := MachineHost.Gone) (meets_cleanup hstoppable ?_ ?_ fun _ _ _ ↦ id)
      (fun _ ↦ id) (fun _ _ hhost ↦ ⟨hfact, fun _ ↦ hhost⟩)
      (fun _ hhost ↦ ⟨hfact, fun _ ↦ hhost⟩) host hhost
    · intro host hhost hfails
      rcases hcleans with hbefore | hcleans
      · exact hearly host hhost hbefore
      · rw [hcleans.1] at hfails
        cases hfails
    · intro host hhost hfails
      rcases hcleans with hbefore | hcleans
      · exact hearly host hhost hbefore
      · rw [hcleans.2] at hfails
        cases hfails
  · exact Meets.weaken (P := fun _ ↦ True) (E := fun _ ↦ True)
      (meets_of_forall (fun _ _ ↦ trivial) fun _ ↦ trivial) (fun _ _ ↦ trivial)
      (fun _ _ _ ↦ ⟨hfact, fun h ↦ absurd h hcleans⟩)
      (fun _ _ ↦ ⟨hfact, fun h ↦ absurd h hcleans⟩) host hhost

/-- A step on the guest that runs, with its cleanup. -/
theorem meets_guest_command {P : GuestSystem → Prop} (hlate : ¬outcomes.Early)
    (hchange : ∀ guest, P guest → P' (change guest)) :
    ((command failing message (·.changeGuest outcomes.pid change)).onFailure
      (cleanupMachine deleteRootfs outcomes.failed)).Meets
        (MachineHost.Running record outcomes.pid P)
        (fun _ ↦ MachineHost.Running record outcomes.pid P')
        (MachineHost.Failed outcomes (failing = true)) := by
  refine Meets.onFailure (E := fun host ↦ host.Running record outcomes.pid P ∧ failing = true)
    (meets_command (fun _ hhost ↦ hhost.changeGuest hchange)
      fun _ hhost hfails ↦ ⟨hhost, hfails⟩) ?_
  exact meets_failed_cleanup (fun _ hhost ↦ hhost.2) (fun _ hhost ↦ hhost.1.stoppable)
    fun _ _ hearly ↦ absurd hearly hlate

section
variable (record : MachineRecord) (request : MachineRequest) (guest : GuestSystem)

/-- A guest that is up, as the boot or the snapshot has it. -/
def CameUp : Prop :=
  guest = .up record.slot request.mounts ∨
    record.snapshotTemplate.isSome = true ∧
      guest = .up (record.snapshotNetworkSlot.getD record.slot) []

/-- A guest at its own address. -/
def Addressed : Prop :=
  ∃ address mounted, guest = .up address mounted ∧
    (record.networkEnabled = true → address = record.slot) ∧
    (record.snapshotTemplate.isSome = true ∨ mounted = request.mounts)

end

theorem CameUp.configureNetwork (hguest : CameUp record request guest) :
    Addressed record request (guest.configureNetwork record.slot) := by
  rcases hguest with rfl | ⟨hsnapshot, rfl⟩
  · exact ⟨record.slot, request.mounts, rfl, fun _ ↦ rfl, .inr rfl⟩
  · exact ⟨record.slot, [], rfl, fun _ ↦ rfl, .inl hsnapshot⟩

/-- Without a reconfiguration the address is the machine's own already. -/
theorem CameUp.addressed (hguest : CameUp record request guest)
    (hsame : (record.networkEnabled && record.snapshotNetworkSlot.any (· != record.slot)) = false) :
    Addressed record request guest := by
  rcases hguest with rfl | ⟨hsnapshot, rfl⟩
  · exact ⟨record.slot, request.mounts, rfl, fun _ ↦ rfl, .inr rfl⟩
  · refine ⟨_, [], rfl, fun hnetwork ↦ ?_, .inl hsnapshot⟩
    rw [hnetwork, Bool.true_and] at hsame
    cases hslot : record.snapshotNetworkSlot with
    | none => rfl
    | some slot =>
      rw [hslot] at hsame
      simpa using hsame

theorem Addressed.mountResources (hguest : Addressed record request guest) :
    (guest.mountResources request.mounts).Complete record request.mounts := by
  obtain ⟨address, mounted, rfl, haddress, -⟩ := hguest
  exact ⟨address, mounted ++ request.mounts, rfl, haddress, fun path hpath ↦
    List.mem_append_right mounted hpath⟩

/-- A guest that booted has its mounts, and there may be none to make. -/
theorem Addressed.complete (hguest : Addressed record request guest)
    (hskip : (record.snapshotTemplate.isSome && request.mounts != []) = false) :
    guest.Complete record request.mounts := by
  obtain ⟨address, mounted, rfl, haddress, hmounted⟩ := hguest
  refine ⟨address, mounted, rfl, haddress, fun path hpath ↦ ?_⟩
  rcases hmounted with hsnapshot | rfl
  · rw [hsnapshot, Bool.true_and] at hskip
    have hnone : request.mounts = [] := by simpa using hskip
    rw [hnone] at hpath
    cases hpath
  · exact hpath

theorem meets_mountResources (hmount : outcomes.mount = none) :
    (mountResources request outcomes).Meets
      (MachineHost.Running record outcomes.pid (Addressed record request))
      (fun _ ↦ MachineHost.Running record outcomes.pid
        (GuestSystem.Complete record request.mounts)) E := by
  have htake : request.mounts.take (outcomes.mount.getD request.mounts.length) =
      request.mounts := by
    rw [hmount]
    exact List.take_length
  rw [mountResources, htake]
  refine Meets.bind (Q := fun _ ↦ MachineHost.Running record outcomes.pid
    (GuestSystem.Complete record request.mounts)) (meets_update fun _ hhost ↦
    hhost.changeGuest fun guest hguest ↦ hguest.mountResources) fun _ ↦ ?_
  refine meets_check (fun _ _ hhost _ ↦ hhost) fun _ _ _ hfails ↦ ?_
  simp [hmount, ensure] at hfails

/-- A step of the launch fails. -/
def EnsureOutcomes.Fails (outcomes : EnsureOutcomes) : Prop :=
  outcomes.launch ≠ none ∨ outcomes.ready = true ∨ outcomes.reconfigure = true

theorem MachineHost.Failed.weaken {failure' : Prop} (hfailed : host.Failed outcomes failure)
    (himplies : failure → failure') : host.Failed outcomes failure' :=
  ⟨himplies hfailed.1, hfailed.2⟩

theorem meets_startMachine (hobserved : outcomes.observed = true) (hmount : outcomes.mount = none) :
    (startMachine request outcomes reusing record).Meets (MachineHost.Ready record outcomes.pid)
      (fun found host ↦ found = record ∧
        host.Running record outcomes.pid (GuestSystem.Complete record request.mounts))
      (MachineHost.Failed outcomes outcomes.Fails) := by
  refine Meets.bind (((meets_prepareAndLaunch hobserved).onFailure
    (meets_failed_cleanup (fun _ hhost ↦ hhost.1) (fun _ hhost ↦ hhost.2.1)
      fun _ hhost ↦ hhost.2.2)).failure fun _ hhost ↦ hhost.weaken .inl) fun _ ↦ ?_
  intro host hhost
  obtain ⟨hlate, hrunning⟩ := hhost
  refine Meets.bind (P := MachineHost.Running record outcomes.pid (Launched record request))
    (Q := fun _ ↦ MachineHost.Running record outcomes.pid (CameUp record request)) ?_ ?_ host
    hrunning
  · refine (meets_guest_command hlate fun guest hguest ↦ ?_).failure
      fun _ hhost ↦ hhost.weaken fun hready ↦ .inr (.inl hready)
    rcases hguest with rfl | ⟨hsnapshot, rfl⟩
    · exact .inl rfl
    · exact .inr ⟨hsnapshot, rfl⟩
  intro _
  refine Meets.bind (Q := fun _ ↦ MachineHost.Running record outcomes.pid
    (Addressed record request)) (Meets.when (fun _ ↦ ?_) ?_) fun _ ↦ ?_
  · exact (meets_guest_command hlate fun guest hguest ↦ hguest.configureNetwork).failure
      fun _ hhost ↦ hhost.weaken fun hfails ↦ .inr (.inr hfails)
  · exact fun _ hsame hhost ↦ hhost.weaken fun guest hguest ↦ hguest.addressed hsame
  refine Meets.bind (Q := fun _ ↦ MachineHost.Running record outcomes.pid
    (GuestSystem.Complete record request.mounts)) (Meets.when (fun _ ↦ ?_) ?_) fun _ ↦
    meets_pure fun _ hhost ↦ ⟨rfl, hhost⟩
  · exact meets_mountResources hmount
  · exact fun _ hskip hhost ↦ hhost.weaken fun guest hguest ↦ hguest.complete hskip

/-! ## `ensure_machine` -/

/-- A manifest is only written where there is none. -/
theorem meets_newMachineRecord {Q : MachineRecord → MachineHost → Prop}
    (hfails : ∀ host, P host → slot = none ∨ host.record ≠ none → E host)
    (hnew : ∀ host slot, P host → host.record = none → Q (newRecord request slot snapshot)
        { host with record := some (newRecord request slot snapshot) }) :
    (newMachineRecord request slot snapshot).Meets P Q E := by
  refine Meets.looking (fun host _ hhost herror ↦ hfails host hhost ?_) fun slot ↦ ?_
  · cases slot <;> simp_all [context]
  refine Meets.bind (Q := fun _ host ↦ P host ∧ host.record = none)
    (meets_look (fun host _ hhost hnone ↦ ⟨hhost, ?_⟩) fun host _ hhost herror ↦
      hfails host hhost (.inr ?_)) fun _ ↦ ?_
  · cases hrecord : host.record <;> simp_all [ensure]
  · rintro hnone
    simp [hnone, ensure] at herror
  · exact Meets.bind (Q := fun _ ↦ Q (newRecord request slot snapshot))
      (meets_update fun host hhost ↦ hnew host slot hhost.1 hhost.2) fun _ ↦ meets_pure fun _ ↦ id

/-- The machine is delivered, and the manifest is its own. -/
def Delivered (request : MachineRequest) (record : MachineRecord) (host : MachineHost) : Prop :=
  host.Sound ∧
    ∃ pid guest, host.processes pid = some (.vmm guest) ∧ guest.Complete record request.mounts

theorem GuestSystem.Complete.fits {mounts : List String} (hguest : guest.Complete record mounts)
    (hmounts : record.resourcePaths = mounts) : record.Fits guest := by
  obtain ⟨address, mounted, rfl, haddress, hmounted⟩ := hguest
  exact ⟨haddress, hmounts ▸ hmounted⟩

theorem MachineHost.Running.delivered
    (hrunning : host.Running record pid (GuestSystem.Complete record request.mounts))
    (hmounts : record.resourcePaths = request.mounts) : Delivered request record host := by
  obtain ⟨guest, hvmm, hguest⟩ := hrunning.guest
  refine ⟨⟨hrunning.stoppable, fun other guest' hother ↦ ?_⟩, pid, guest, hvmm, hguest⟩
  refine ⟨record, hrunning.listed, ?_⟩
  have hsame := hrunning.only other guest' hother
  rw [hsame, hvmm] at hother
  cases hother
  exact hguest.fits hmounts

theorem meets_startMachine_delivered (hobserved : outcomes.observed = true)
    (hcleans : outcomes.Cleans) (hmount : outcomes.mount = none)
    (hmounts : record.resourcePaths = request.mounts) :
    (startMachine request outcomes reusing record).Meets (MachineHost.Ready record outcomes.pid)
      (Delivered request) MachineHost.Gone :=
  (meets_startMachine hobserved hmount).weaken (fun _ ↦ id)
    (fun _ _ hhost ↦ hhost.1 ▸ hhost.2.delivered hmounts) fun _ hhost ↦ hhost.2 hcleans

/-- The VMM that answers was launched for the manifest. -/
theorem MachineHost.Sound.delivered {answer : Option ℕ} (hsound : host.Sound)
    (hlisted : host.record = some record) (hmounts : record.resourcePaths = request.mounts)
    (hanswers : host.answers answer = true) : Delivered request record host := by
  refine ⟨hsound, ?_⟩
  rw [MachineHost.answers] at hanswers
  split at hanswers
  case h_2 => cases hanswers
  case h_1 address mounted hprocess =>
    cases answer with
    | none => cases hprocess
    | some pid =>
      rw [bind_some] at hprocess
      obtain ⟨found, hfound, hfits⟩ := hsound.fits pid _ hprocess
      rw [hlisted] at hfound
      cases hfound
      exact ⟨pid, .up address mounted, hprocess, address, mounted, rfl, hfits.1, hmounts ▸ hfits.2⟩

theorem MachineHost.Sound.gone (hsound : host.Sound) (hexited : host.Exited) : host.Gone :=
  ⟨hexited, hsound.stoppable.own⟩

theorem MachineHost.Sound.gone_of_none (hsound : host.Sound) (hnone : host.record = none) :
    host.Gone := by
  refine hsound.gone fun pid guest hvmm ↦ ?_
  obtain ⟨record, hrecord, -⟩ := hsound.fits pid guest hvmm
  rw [hnone] at hrecord
  cases hrecord

/-- The ways through `ensure_machine`. -/
theorem meets_ensureMachine_of {Q : MachineRecord → MachineHost → Prop}
    (hfree : host.processes outcomes.pid = none) (hload : outcomes.load = true → E host)
    (hnew : host.record = none → host.Gone)
    (hslot : outcomes.slot = none → ∀ host, MachineHost.Gone host → E host)
    (hcreate : ∀ record, MachineRecord.resourcePaths record = request.mounts →
      (startMachine request outcomes false record).Meets (MachineHost.Ready record outcomes.pid)
        Q E)
    (hstale : ∀ deleteRootfs, (cleanupMachine deleteRootfs outcomes.stale).Meets (· = host)
      (fun _ host' ↦ host'.Gone ∧ host'.record = (if deleteRootfs then none else host.record) ∧
        host'.processes outcomes.pid = none) E)
    (hstart : ∀ record ∈ host.record, record.matches request = true →
      (startMachine request outcomes true record).Meets (MachineHost.Ready record outcomes.pid) Q E)
    (htrusted : ∀ record ∈ host.record, record.matches request = true →
      host.answers outcomes.answer = true → Q record host)
    (hrules : outcomes.proxyRules = true → E host) :
    (ensureMachine request outcomes).Meets (· = host) Q E := by
  have hfresh : (do
      let record ← newMachineRecord request outcomes.slot none
      startMachine request outcomes false record : HostOp MachineRecord).Meets
        (fun host ↦ host.Gone ∧ host.record = none ∧ host.processes outcomes.pid = none) Q E := by
    refine Meets.bind (Q := fun record host ↦ host.Ready record outcomes.pid ∧
        record.resourcePaths = request.mounts)
      (meets_newMachineRecord (fun host hhost hfails ↦ ?_) fun host slot hhost _ ↦
        ⟨⟨⟨hhost.1.exited, hhost.1.own⟩, rfl, hhost.2.2⟩, rfl⟩)
      fun record host hhost ↦ hcreate record hhost.2 host hhost.1
    exact hslot (hfails.resolve_right (absurd hhost.2.1)) host hhost.1
  refine Meets.bind (Q := fun found host' ↦ host' = host ∧ found = host.record)
    (meets_loadMachineRecord (fun host' hhost ↦ ⟨hhost, by rw [hhost]⟩)
      fun host' hhost hfails ↦ hhost ▸ hload hfails) fun found ↦ ?_
  cases found with
  | none =>
    refine hfresh.start fun host' hhost ↦ ?_
    rw [hhost.1]
    exact ⟨hnew hhost.2.symm, hhost.2.symm, hfree⟩
  | some record =>
    refine meets_ite (fun hmatches ↦ ?_) fun _ ↦ ?_
    swap
    · exact Meets.bind ((hstale true).start fun _ hhost ↦ hhost.1) fun _ ↦ hfresh
    intro host' hhost
    obtain ⟨rfl, hlisted⟩ := hhost
    refine Meets.bind (P := (· = host'))
      (Q := fun trusted host ↦ host = host' ∧
        trusted = (host'.processRunning && host'.answers outcomes.answer))
      (meets_look (fun host trusted hhost hview ↦ ?_) nofun)
      (fun trusted ↦ ?_) host' rfl
    · cases hview
      exact ⟨hhost, by rw [hhost]⟩
    refine meets_ite (fun htrue ↦ ?_) fun _ ↦ ?_
    · intro host hhost
      obtain ⟨rfl, hanswers⟩ := hhost
      rw [htrue, eq_comm, Bool.and_eq_true] at hanswers
      have hready : Q record host := htrusted record hlisted.symm hmatches hanswers.2
      refine Meets.bind (P := (· = host)) (Q := fun _ ↦ Q record)
        (Meets.when (fun _ ↦ meets_check (fun _ _ hhost _ ↦ hhost ▸ hready) ?_)
          fun _ _ hhost ↦ hhost ▸ hready)
        (fun _ ↦ meets_pure fun _ ↦ id) host rfl
      intro other message hhost hfails
      refine hhost ▸ hrules ?_
      by_contra hfine
      rw [Bool.not_eq_true] at hfine
      simp [ensure, hfine] at hfails
    · refine Meets.bind (Q := fun _ ↦ MachineHost.Ready record outcomes.pid) ?_ fun _ ↦
        hstart record hlisted.symm hmatches
      refine ((hstale false).start fun _ hhost ↦ hhost.1).result fun _ host hhost ↦ ?_
      exact ⟨hhost.1, hhost.2.1.trans hlisted.symm, hhost.2.2⟩

/-- `ensure_machine` keeps what it promises of both outcomes. -/
theorem meets_ensureMachine (hsound : host.Sound) (hfree : host.processes outcomes.pid = none)
    (hcontained : outcomes.Contained host request) :
    (ensureMachine request outcomes).Meets (· = host) (Delivered request) MachineHost.Gone := by
  have hcleans : outcomes.Cleans := by
    rcases hcontained.failed with hearly | hearly | hclean
    · exact .inl (.inl hearly)
    · exact .inl (.inr hearly)
    · exact .inr hclean
  -- A command that fails while a VMM runs is excluded.
  have hgone {failing : Bool} (hfails : failing = true)
      (hrunning : outcomes.load = false ∧ outcomes.proxyRules = false ∧
        outcomes.stale .loadRecord = false ∧ outcomes.stale .stopProcess = false →
        failing = false) : host.Gone := by
    rcases hcontained.running with hexited | houtcomes
    · exact hsound.gone hexited
    · rw [hrunning houtcomes] at hfails
      cases hfails
  refine meets_ensureMachine_of hfree (fun hfails ↦ hgone hfails And.left) hsound.gone_of_none
    (fun _ _ ↦ id)
    (fun _ ↦ meets_startMachine_delivered hcontained.observed hcleans hcontained.mount)
    (fun deleteRootfs ↦ ?_) (fun record hlisted hmatches ↦ ?_)
    (fun record hlisted hmatches ↦ ?_) fun hfails ↦ hgone hfails fun houtcomes ↦ houtcomes.2.1
  · have hstopped : (cleanupMachine deleteRootfs outcomes.stale).Meets (· = host)
        (fun _ ↦ MachineHost.Gone) MachineHost.Gone :=
      meets_cleanup (fun _ hhost ↦ hhost ▸ hsound.stoppable)
        (fun _ hhost hfails ↦ hhost ▸ hgone hfails fun houtcomes ↦ houtcomes.2.2.1)
        (fun _ hhost hfails ↦ hhost ▸ hgone hfails fun houtcomes ↦ houtcomes.2.2.2)
        fun _ _ _ ↦ id
    exact (hstopped.and meets_cleanup_free).weaken (fun _ hhost ↦ by
      rw [hhost]
      exact ⟨rfl, hfree, rfl⟩) (fun _ _ ↦ id) fun _ hhost ↦ hhost.1
  · exact meets_startMachine_delivered hcontained.observed hcleans hcontained.mount
      (hcontained.sameMounts record hlisted hmatches)
  · exact hsound.delivered hlisted (hcontained.sameMounts record hlisted hmatches)

/-! ## Without failures -/

theorem meets_startMachine_faultless (hfaultless : outcomes.Faultless) :
    (startMachine request outcomes reusing record).Meets (MachineHost.Ready record outcomes.pid)
      (fun _ _ ↦ True) fun _ ↦ False := by
  refine (meets_startMachine hfaultless.observed hfaultless.mount).weaken (fun _ ↦ id)
    (fun _ _ _ ↦ trivial) fun _ hhost ↦ ?_
  rcases hhost.1 with hlaunch | hready | hreconfigure
  · exact hlaunch hfaultless.launch
  · rw [hfaultless.ready] at hready
    cases hready
  · rw [hfaultless.reconfigure] at hreconfigure
    cases hreconfigure

/-- A machine whose VMM has exited is acquired again. -/
theorem meets_ensureMachine_faultless (hfaultless : outcomes.Faultless) (hgone : host.Gone)
    (hfree : host.processes outcomes.pid = none) :
    (ensureMachine request outcomes).Meets (· = host) (fun _ _ ↦ True) fun _ ↦ False := by
  have hnever {failing : Bool} (hfine : failing = false) (hfails : failing = true) : False := by
    rw [hfine] at hfails
    cases hfails
  refine meets_ensureMachine_of hfree (hnever hfaultless.load) (fun _ ↦ hgone)
    (fun hnone ↦ absurd hnone hfaultless.slot) (fun _ _ ↦ meets_startMachine_faultless hfaultless)
    (fun deleteRootfs ↦ ?_) (fun _ _ _ ↦ meets_startMachine_faultless hfaultless)
    (fun _ _ _ _ ↦ trivial) (hnever hfaultless.proxyRules)
  refine ((meets_cleanup_faultless hfaultless.stale).and meets_cleanup_free).weaken
    (fun host' hhost ↦ ?_) (fun _ _ ↦ id) fun _ hhost ↦ hhost.1
  rw [hhost]
  exact ⟨hgone, hfree, rfl⟩

theorem MachineHost.Gone.processRunning (hgone : host.Gone) : host.processRunning = false := by
  cases hfile : host.pidFile with
  | none => simp [MachineHost.processRunning, MachineHost.process, hfile]
  | some pid =>
    have hprocess : host.process = host.processes pid := by
      rw [MachineHost.process, hfile, bind_some]
    cases hvmm : host.processes pid with
    | none => rw [MachineHost.processRunning, hprocess, hvmm, isSome_none]
    | some process =>
      cases process with
      | vmm guest => exact absurd hvmm (hgone.exited pid guest)
      | other => exact absurd (hprocess.trans hvmm) hgone.own

theorem meets_shutdownMachine_faultless (hfaultless : ∀ step, fails step = false)
    (hgone : host.Gone) :
    (shutdownMachine mode false sync fails).Meets (· = host) (fun _ _ ↦ True) fun _ ↦ False := by
  refine Meets.keeping (meets_loadMachineRecord (fun _ ↦ id) nofun) fun found ↦ ?_
  refine Meets.bind (Q := fun unsynced host' ↦ host' = host ∧ unsynced = false)
    (meets_look (fun host' unsynced hhost hview ↦ ?_) nofun)
    fun unsynced ↦ ?_
  · cases hview
    rw [hhost]
    exact ⟨rfl, by simp [hgone.processRunning]⟩
  refine Meets.ensure (fun _ ↦ ?_) fun _ hhost hguard ↦ ?_
  · refine (meets_cleanup_faultless hfaultless).weaken (fun host' hhost ↦ ?_)
      (fun _ _ _ ↦ trivial) fun _ ↦ id
    rw [hhost.1]
    exact hgone
  · simp [hhost.2] at hguard

theorem MachineHost.Gone.removable (hgone : host.Gone) : host.Removable where
  shutdown mode sync fails hfaultless := by
    have hshutdown : (shutdownMachine mode false sync fails).Meets (· = host) _ _ :=
      meets_shutdownMachine_faultless hfaultless hgone
    obtain ⟨value, hvalue⟩ := hshutdown.succeeds rfl
    exact hvalue
  acquire request outcomes hfaultless hfree := by
    have hensure : (ensureMachine request outcomes).Meets (· = host) _ _ :=
      meets_ensureMachine_faultless hfaultless hgone hfree
    exact hensure.succeeds rfl

/-! ## Steps -/

theorem delivers_of_meets (hensure : (ensureMachine request outcomes).Meets (· = host)
    (Delivered request) MachineHost.Gone) :
    Delivers request ((ensureMachine request outcomes).runOn host) := by
  have houtcome := hensure host rfl
  cases hrun : (ensureMachine request outcomes).runOn host with
  | mk result host' =>
    rw [hrun] at houtcome
    cases result with
    | ok record => exact houtcome.2
    | error message => exact houtcome.exited

theorem meets_newMachineRecord_sound (hsound : host.Sound) :
    (newMachineRecord request slot snapshot).Meets (· = host)
      (fun _ host' ↦ host'.Gone ∧ host'.processes = host.processes) (· = host) := by
  refine meets_newMachineRecord (fun _ hhost _ ↦ hhost) fun host' slot hhost hnone ↦ ?_
  subst hhost
  have hgone := hsound.gone_of_none hnone
  exact ⟨⟨hgone.exited, hgone.own⟩, rfl⟩

theorem meets_restoreMachine {snapshot : SnapshotTemplateLifecycle × ℕ} (hsound : host.Sound)
    (hfree : host.processes outcomes.pid = none)
    (hcontained : ContainedStep host (.restore request slot snapshot outcomes fails)) :
    (restoreMachine request slot snapshot outcomes fails).Meets (· = host)
      (fun _ ↦ MachineHost.Sound) MachineHost.Sound := by
  refine Meets.bind (((meets_newMachineRecord_sound hsound).and (meets_run _ host)).weaken
    (fun _ hhost ↦ ⟨hhost, hhost⟩) (fun _ _ ↦ id) fun _ hhost ↦ hhost.1 ▸ hsound)
    fun record ↦ ?_
  intro host' hhost
  obtain ⟨⟨hgone, hprocesses⟩, hrun⟩ := hhost
  have hensure : (ensureMachine request outcomes).Meets (· = host') _ _ :=
    meets_ensureMachine hgone.sound (hprocesses ▸ hfree) (hcontained record host' hrun)
  refine Meets.onFailure (P := (· = host')) (E := MachineHost.Gone)
    (hensure.result fun _ _ hhost ↦ hhost.1) ?_ host' rfl
  exact meets_cleanup_sound.start fun _ hhost ↦ hhost.sound

theorem meets_shutdownMachine_sound {load : Bool} :
    (shutdownMachine mode load sync fails).Meets MachineHost.Sound (fun _ ↦ MachineHost.Sound)
      MachineHost.Sound := by
  refine Meets.keeping (meets_loadMachineRecord (fun _ ↦ id) fun _ hhost _ ↦ hhost) fun found ↦ ?_
  refine Meets.looking (fun _ _ hhost _ ↦ hhost) fun unsynced ↦ ?_
  exact Meets.ensure (fun _ ↦ meets_cleanup_sound) fun _ hhost _ ↦ hhost

/-- A process that comes or goes elsewhere. -/
theorem MachineHost.Sound.setProcess (hsound : host.Sound) {process : Option HostProcess}
    (hvmm : ∀ guest, process ≠ some (.vmm guest))
    (hown : host.pidFile = some pid → process ≠ some .other) :
    (host.setProcess pid process).Sound := by
  have hkept (other : ℕ) (guest : GuestSystem)
      (hother : (host.setProcess pid process).processes other = some (.vmm guest)) :
      host.processes other = some (.vmm guest) := by
    rw [setProcess_processes] at hother
    split_ifs at hother
    · exact absurd hother (hvmm guest)
    · exact hother
  refine ⟨⟨fun other guest hother ↦ hsound.stoppable.listed other guest (hkept other guest hother),
    ?_⟩, fun other guest hother ↦ hsound.fits other guest (hkept other guest hother)⟩
  have hfile : (host.setProcess pid process).pidFile = host.pidFile := rfl
  rw [MachineHost.process, hfile]
  cases hpid : host.pidFile with
  | none => simp
  | some listed =>
    rw [bind_some, setProcess_processes]
    have hbefore : host.processes listed ≠ some .other := by
      have hprocess := hsound.stoppable.own
      rwa [MachineHost.process, hpid, bind_some] at hprocess
    split_ifs with heq
    · exact hown (hpid.trans (congrArg some heq))
    · exact hbefore

theorem MachineHost.Sound.changeGuest (hsound : host.Sound)
    (hchange : ∀ record guest, MachineRecord.Fits record guest → record.Fits (change guest)) :
    (host.changeGuest pid change).Sound := by
  rw [MachineHost.changeGuest]
  split
  case h_2 => exact hsound
  case h_1 guest hvmm =>
    have hlisted := hsound.stoppable.listed pid guest hvmm
    constructor
    · constructor
      · intro other guest' hother
        rw [setProcess_processes] at hother
        split_ifs at hother with heq
        · exact heq ▸ hlisted
        · exact hsound.stoppable.listed other guest' hother
      · have hfile : (host.setProcess pid (some (.vmm (change guest)))).pidFile = some pid :=
          hlisted
        simp [MachineHost.process, hfile, setProcess_processes]
    · intro other guest' hother
      rw [setProcess_processes] at hother
      split_ifs at hother with heq
      · cases hother
        obtain ⟨record, hrecord, hfits⟩ := hsound.fits pid guest hvmm
        exact ⟨record, hrecord, hchange record guest hfits⟩
      · exact hsound.fits other guest' hother

section
variable (hsound : host.Sound) (henabled : launches.enabled host label)
  (hcontained : ContainedStep host label)
include hsound henabled hcontained

/-- Every step that is contained keeps the host sound. -/
theorem MachineHost.Sound.next : (launches.next host label).Sound := by
  cases label with
  | acquire request outcomes =>
    have hensure : (ensureMachine request outcomes).Meets (· = host) _ _ :=
      meets_ensureMachine hsound henabled hcontained
    exact (hensure.weaken (fun _ ↦ id) (fun _ _ hhost ↦ hhost.1)
      fun _ hhost ↦ hhost.sound).state rfl
  | restore request slot snapshot outcomes fails =>
    exact (meets_restoreMachine hsound henabled hcontained).state rfl
  | shutdown mode load sync fails => exact meets_shutdownMachine_sound.state hsound
  | clean fails => exact meets_cleanup_sound.state hsound
  | exits pid => exact hsound.setProcess (by simp) (by simp)
  | starts pid => exact hsound.setProcess (by simp) fun hfile ↦ absurd hfile hcontained
  | comesUp pid =>
    refine hsound.changeGuest fun record guest hfits ↦ ?_
    cases guest <;> exact hfits
  | hangs pid => exact hsound.changeGuest fun _ _ _ ↦ trivial
  | writesPid pid =>
    obtain ⟨hnone, guest, hvmm⟩ := henabled
    have hlisted := hsound.stoppable.listed pid guest hvmm
    rw [hnone] at hlisted
    cases hlisted

theorem MachineHost.Sound.property : LaunchProperty host label := by
  refine ⟨fun hexited ↦ (hsound.gone hexited).removable, ?_⟩
  cases label with
  | acquire request outcomes =>
    exact delivers_of_meets (meets_ensureMachine hsound henabled hcontained)
  | restore request slot snapshot outcomes fails =>
    intro record host' hrun
    have hnew : (newMachineRecord request slot (some snapshot)).Meets (· = host) _ _ :=
      meets_newMachineRecord_sound hsound
    have houtcome := hnew host rfl
    rw [hrun] at houtcome
    obtain ⟨hgone, hprocesses⟩ := houtcome
    exact delivers_of_meets
      (meets_ensureMachine hgone.sound (hprocesses ▸ henabled) (hcontained record host' hrun))
  | _ => trivial

end

end Triples

end Hosts

/-! ## Runs -/

/-- In a run in which every failure that leaves a VMM behind is kept out, and no other process gets
the pid of the machine, a failed launch leaves nothing, what an acquire returns is complete, and a
machine whose VMM has exited can be stopped, terminated and acquired again. -/
theorem launch_leaves_nothing {processes : ℕ → Option HostProcess} {labels : List LaunchLabel}
    (hnew : (MachineHost.fresh processes).Exited)
    (hadmits : launches.Admits (.fresh processes) labels)
    (hcontained : launches.Throughout ContainedStep (.fresh processes) labels) :
    launches.Throughout LaunchProperty (.fresh processes) labels ∧
      ((launches.exec (.fresh processes) labels).Exited →
        (launches.exec (.fresh processes) labels).Removable) := by
  have hsound : (MachineHost.fresh processes).Sound := by
    have hgone : (MachineHost.fresh processes).Gone :=
      ⟨hnew, by simp [MachineHost.process, MachineHost.fresh]⟩
    exact hgone.sound
  have hrun := (admits_restrict_iff ContainedStep (.fresh processes) labels).2 ⟨hadmits, hcontained⟩
  constructor
  · have hproperty :
        (launches.restrict ContainedStep).Throughout LaunchProperty (.fresh processes) labels := by
      refine throughout_of_invariant MachineHost.Sound ?_ ?_ hsound hrun
      · intro host label hsound hlabel
        exact hsound.next hlabel.1 hlabel.2
      · intro host label hsound hlabel
        exact hsound.property hlabel.1 hlabel.2
    exact (throughout_restrict ContainedStep LaunchProperty _ labels).1 hproperty
  · have hreached : (launches.exec (.fresh processes) labels).Sound :=
      invariant_of_restrict MachineHost.Sound
        (fun _ _ hsound henabled hlabel ↦ hsound.next henabled hlabel) hsound hrun
    exact fun hexited ↦ (hreached.gone hexited).removable

/-- Nothing fails, and the pid of the new VMM is given. -/
def EnsureOutcomes.successful (pid : ℕ) : EnsureOutcomes where
  load := false
  answer := none
  staleProxy := false
  proxyRules := false
  stale := fun _ ↦ false
  slot := some 3
  pid := pid
  observed := true
  launch := none
  ready := false
  reconfigure := false
  mount := none
  failed := fun _ ↦ false

def resourceRequest : MachineRequest := ⟨"3f", "v1", true, false, ["/data"], false⟩

/-- A guest does not become ready; the next one does, its VMM exits, and another process starts. -/
def relaunchRun : List LaunchLabel :=
  [.acquire resourceRequest { EnsureOutcomes.successful 7 with ready := true },
    .acquire resourceRequest (.successful 8), .exits 8, .starts 9,
    .acquire resourceRequest (.successful 10), .shutdown .stop false (some 10) fun _ ↦ false]

theorem launch_leaves_nothing_relaunchRun :
    launches.Throughout LaunchProperty (.fresh fun _ ↦ none) relaunchRun ∧
      ((launches.exec (.fresh fun _ ↦ none) relaunchRun).Exited →
        (launches.exec (.fresh fun _ ↦ none) relaunchRun).Removable) := by
  have hcontained (host : MachineHost) (outcomes : EnsureOutcomes)
      (hmounts : ∀ record ∈ host.record, record.resourcePaths = resourceRequest.mounts)
      (houtcomes : ∃ pid ready, outcomes = { EnsureOutcomes.successful pid with ready := ready }) :
      outcomes.Contained host resourceRequest := by
    obtain ⟨pid, ready, rfl⟩ := houtcomes
    exact ⟨fun record hrecord _ ↦ hmounts record hrecord, .inr ⟨rfl, rfl, rfl, rfl⟩, rfl,
      .inr (.inr ⟨rfl, rfl⟩), rfl⟩
  refine launch_leaves_nothing nofun ?_ ?_
  · exact ⟨rfl, rfl, nofun, rfl, rfl, trivial, trivial⟩
  · refine ⟨?_, ?_, trivial, nofun, ?_, trivial, trivial⟩
    · exact hcontained _ _ nofun ⟨7, true, rfl⟩
    · exact hcontained _ _ nofun ⟨8, false, rfl⟩
    · exact hcontained _ _ (fun _ hrecord ↦ by cases hrecord; rfl) ⟨10, false, rfl⟩

/-- Mounting fails in a clone, the cleanup cannot read the manifest, and the sandbox is acquired. -/
def mountlessRun : List LaunchLabel :=
  [.restore resourceRequest (some 3) (.snapshot, 5)
      { EnsureOutcomes.successful 7 with mount := some 0 } (· == .loadRecord),
    .acquire resourceRequest { EnsureOutcomes.successful 8 with answer := some 7 }]

/-- The VMM exits, and another process gets its pid. -/
def reusedPidRun : List LaunchLabel :=
  [.acquire resourceRequest (.successful 7), .exits 7, .starts 7]

/-- The failed restore leaves its VMM, which the next acquire returns without the resource; and a
machine whose pid was given away cannot be stopped. -/
theorem half_made_machine : launches.Admits (.fresh fun _ ↦ none) mountlessRun ∧
      ¬launches.Throughout LaunchProperty (.fresh fun _ ↦ none) (mountlessRun.take 1) ∧
      ¬LaunchProperty (launches.exec (.fresh fun _ ↦ none) (mountlessRun.take 1))
        (.acquire resourceRequest { EnsureOutcomes.successful 8 with answer := some 7 }) ∧
      launches.Admits (.fresh fun _ ↦ none) reusedPidRun ∧
      (launches.exec (.fresh fun _ ↦ none) reusedPidRun).Exited ∧
      ¬(launches.exec (.fresh fun _ ↦ none) reusedPidRun).Removable := by
  have hprocess (pid : ℕ) (guest : GuestSystem)
      (hvmm : (launches.exec (.fresh fun _ ↦ none) (mountlessRun.take 1)).processes pid =
        some (.vmm guest)) : guest = .up 3 [] := by
    match pid, hvmm with
    | 7, hvmm => cases hvmm; rfl
    | 0, hvmm | 1, hvmm | 2, hvmm | 3, hvmm | 4, hvmm | 5, hvmm | 6, hvmm => cases hvmm
    | pid + 8, hvmm => cases hvmm
  refine ⟨⟨rfl, rfl, trivial⟩, ?_, ?_, ⟨rfl, nofun, rfl, trivial⟩, ?_, ?_⟩
  · intro hproperty
    have hexited := hproperty.1.2 _ _ rfl
    exact hexited 7 (.up 3 []) rfl
  · intro hproperty
    obtain ⟨pid, guest, hvmm, address, mounted, rfl, -, hmounted⟩ := hproperty.2
    have hempty := hprocess pid _ hvmm
    cases hempty
    have hmount := hmounted "/data" (List.mem_singleton_self _)
    cases hmount
  · intro pid guest hvmm
    match pid, hvmm with
    | 7, hvmm => cases hvmm
    | 0, hvmm | 1, hvmm | 2, hvmm | 3, hvmm | 4, hvmm | 5, hvmm | 6, hvmm => cases hvmm
    | pid + 8, hvmm => cases hvmm
  · intro hremovable
    have hshutdown := hremovable.shutdown .terminate none (fun _ ↦ false) fun _ ↦ rfl
    cases hshutdown

end Exo.Firecracker
