import Exo.Firecracker.LifecycleRuns

/-!
# What the handles find

While a machine is ensured its manifest is the one that was asked for, since nobody else is on the
machine; so a new handle fits the manifest.  VMs are numbered as they boot, and the first VM of a
one-shot's machine is the one that its acquire boots.  With the exclusion this is the whole property
of the lifecycle operations, for the runs that keep one-shots and specs separate.
-/

namespace Exo.Firecracker

open Library Function Option List

section HandleRuns
variable {state state' : LifecycleState} {label : LifecycleLabel}

structure LifecycleState.Handled (state : LifecycleState) : Prop where
  recorded : ∀ task running machine specHash runtime ttl, state.tasks task = some running →
    running.inside = some (.ensure machine specHash runtime ttl) → running.recorded = true →
    ∀ stored, state.machines machine = some stored →
      stored.specHash = specHash ∧ stored.runtime = runtime
  handles : ∀ handle ∈ state.handles, ∀ stored, state.machines handle.machine = some stored →
    stored.specHash = handle.specHash ∧ stored.runtime = handle.runtime
  issued : ∀ handle ∈ state.issued, handle.vm < state.vms
  running : ∀ machine stored vm, state.machines machine = some stored → stored.vm = some vm →
    vm < state.vms
  oneShots : ∀ later handle earlier, state.issued = later ++ handle :: earlier →
    handle.oneShot = true → ∀ other ∈ earlier, other.vm ≠ handle.vm

theorem LifecycleState.Handled.fresh (pid : ℕ) : (LifecycleState.fresh pid).Handled where
  recorded _ _ _ _ _ _ hrunning := by cases hrunning
  handles _ hmem := by cases hmem
  issued _ hmem := by cases hmem
  running _ _ _ hstored := by cases hstored
  oneShots _ _ _ hissued := by simp [LifecycleState.fresh] at hissued

/-- A step that writes no manifest, boots no VM and returns no handle. -/
theorem LifecycleState.Handled.calm (hhandled : state.Handled)
    (htasks : ∀ task running', state'.tasks task = some running' → running'.recorded = true →
      running'.inside = none ∨ ∃ running, state.tasks task = some running ∧
        running.inside = running'.inside ∧ running.recorded = true)
    (hmachines : ∀ machine stored', state'.machines machine = some stored' →
      ∃ stored, state.machines machine = some stored ∧ stored'.specHash = stored.specHash ∧
        stored'.runtime = stored.runtime ∧ (stored'.vm = none ∨ stored'.vm = stored.vm))
    (hhandles : ∀ handle ∈ state'.handles, handle ∈ state.handles)
    (hissued : state'.issued = state.issued) (hvms : state'.vms = state.vms) :
    state'.Handled := by
  constructor
  case recorded =>
    intro task running' machine specHash runtime ttl hrunning' hinside hrecorded stored' hstored'
    obtain ⟨stored, hstored, hspec, hruntime, -⟩ := hmachines machine stored' hstored'
    rcases htasks task running' hrunning' hrecorded with hnone | ⟨running, hrunning, hsame, hbefore⟩
    · rw [hnone] at hinside
      cases hinside
    · rw [hspec, hruntime]
      exact hhandled.recorded task running machine specHash runtime ttl hrunning
        (hsame.trans hinside) hbefore stored hstored
  case handles =>
    intro handle hmem stored' hstored'
    obtain ⟨stored, hstored, hspec, hruntime, -⟩ := hmachines handle.machine stored' hstored'
    rw [hspec, hruntime]
    exact hhandled.handles handle (hhandles handle hmem) stored hstored
  case issued =>
    rw [hissued, hvms]
    exact hhandled.issued
  case running =>
    intro machine stored' vm hstored' hvm
    obtain ⟨stored, hstored, -, -, hnone | hsame⟩ := hmachines machine stored' hstored'
    · rw [hnone] at hvm
      cases hvm
    · exact hvms ▸ hhandled.running machine stored vm hstored (hsame ▸ hvm)
  case oneShots =>
    rw [hissued]
    exact hhandled.oneShots

theorem recordMachine_fits (stored : Option StoredMachine) (specHash runtime : String)
    (ttl : Bool) :
    (LifecycleState.recordMachine stored specHash runtime ttl).specHash = specHash ∧
      (LifecycleState.recordMachine stored specHash runtime ttl).runtime = runtime := by
  cases stored with
  | none => exact ⟨rfl, rfl⟩
  | some stored =>
    rw [LifecycleState.recordMachine]
    split_ifs with hsame
    · exact hsame
    · exact ⟨rfl, rfl⟩

variable {stored : Option StoredMachine} {specHash runtime : String} {ttl : Bool}
  {inside : LifecycleSection}

theorem recordMachine_vm {vm : ℕ}
    (hvm : (LifecycleState.recordMachine stored specHash runtime ttl).vm = some vm) :
    ∃ found, stored = some found ∧ found.vm = some vm := by
  cases stored with
  | none => cases hvm
  | some stored =>
    rw [LifecycleState.recordMachine] at hvm
    split_ifs at hvm
    exact ⟨stored, rfl, hvm⟩

variable {task : ℕ} {running : LifecycleTask} {outcome : SectionOutcome}

theorem LifecycleState.Handled.record (hhandled : state.Handled) (hlocked : state.Locked)
    (hones : state.OneShots) {machine : MachineName} (hrunning : state.tasks task = some running)
    (hinside : running.inside = some (.ensure machine specHash runtime ttl))
    (hseparate : state.Separate (.record task)) :
    ({ state with
      tasks := Function.update state.tasks task (some { running with recorded := true })
      machines := Function.update state.machines machine
        (some (LifecycleState.recordMachine (state.machines machine) specHash runtime ttl)) } :
          LifecycleState).Handled := by
  constructor
  case recorded =>
    intro other found machine' specHash' runtime' ttl' hfound hfinside hrecorded stored hstored
    rcases update_task_cases hfound with ⟨-, rfl⟩ | ⟨hne, hother⟩
    · rw [hinside] at hfinside
      cases hfinside
      simp only [update_self, some.injEq] at hstored
      exact hstored ▸ recordMachine_fits _ specHash runtime ttl
    · have hmachine : machine' ≠ machine := by
        intro hsame
        exact hne (hones.exclusive hlocked hother hrunning hfinside hinside hsame)
      simp only [update_of_ne hmachine] at hstored
      exact hhandled.recorded other found machine' specHash' runtime' ttl' hother hfinside hrecorded
        stored hstored
  case handles =>
    intro handle hmem stored hstored
    simp only [update_apply] at hstored
    split_ifs at hstored with hmachine
    · obtain ⟨hspec, hruntime⟩ := hseparate running machine specHash runtime ttl hrunning hinside
        handle hmem hmachine
      rw [hspec, hruntime, ← some.inj hstored]
      exact recordMachine_fits _ specHash runtime ttl
    · exact hhandled.handles handle hmem stored hstored
  case issued => exact hhandled.issued
  case running =>
    intro other stored vm hstored hvm
    simp only [update_apply] at hstored
    split_ifs at hstored with hmachine
    · rw [← some.inj hstored] at hvm
      obtain ⟨found, hfound, hsame⟩ := recordMachine_vm hvm
      exact hhandled.running machine found vm hfound hsame
    · exact hhandled.running other stored vm hstored hvm
  case oneShots => exact hhandled.oneShots

/-- A section leaves the manifest that it found, and the VM is that one or the next, if any. -/
theorem leaveMachine_cases {stored' : StoredMachine}
    (hleave : state.leaveMachine stored outcome = some stored') :
    ∃ found, stored = some found ∧ stored'.specHash = found.specHash ∧
      stored'.runtime = found.runtime ∧
      (stored'.vm = none ∨ stored'.vm = found.vm ∨ stored'.vm = some state.vms) := by
  cases outcome with
  | removed => cases hleave
  | stopped =>
    obtain ⟨found, hfound, rfl⟩ := map_eq_some_iff.1 hleave
    exact ⟨found, hfound, rfl, rfl, .inl rfl⟩
  | untouched | reused => exact ⟨stored', hleave, rfl, rfl, .inr (.inl rfl)⟩
  | abandoned | booted =>
    obtain ⟨found, hfound, rfl⟩ := map_eq_some_iff.1 hleave
    exact ⟨found, hfound, rfl, rfl, .inr (.inr rfl)⟩

section
variable (hhandled : state.Handled)
include hhandled

/-- The VM of a new handle is not above the next one, and that of a one-shot is the next one. -/
theorem LifecycleState.Handled.leave_vm (hones : state.OneShots)
    {handle : MachineHandle} (hrunning : state.tasks task = some running)
    (hinside : running.inside = some inside) (hpossible : state.Possible running inside outcome)
    (hhandle : state.leaveHandle running.op inside outcome = some handle) :
    handle.vm ≤ state.vms ∧ (handle.oneShot = true → handle.vm = state.vms) := by
  obtain ⟨ttl, hensure, -, honeShot, hvm⟩ := leaveHandle_eq_some hpossible hhandle
  rcases hvm with ⟨-, stored, hstored, hruns⟩ | ⟨-, hnext⟩
  · have hless := hhandled.running handle.machine stored handle.vm hstored hruns
    refine ⟨by omega, fun htrue ↦ ?_⟩
    -- The machine of a one-shot has no VM to return.
    have hsequence : running.op.sequence? ≠ none := by
      rw [htrue] at honeShot
      exact isSome_iff_ne_none.1 honeShot.symm
    have halone := hones.alone task running _ _ _ _ hrunning hsequence (hensure ▸ hinside)
    rw [(halone.unbooted stored hstored).1] at hruns
    cases hruns
  · exact ⟨le_of_eq hnext, fun _ ↦ hnext⟩

theorem LifecycleState.Handled.leave (hones : state.OneShots)
    (hrunning : state.tasks task = some running) (hinside : running.inside = some inside)
    (hpossible : state.Possible running inside outcome) :
    ({ state with
      tasks := Function.update state.tasks task (some { running with inside := none })
      machines := Function.update state.machines inside.machine
        (state.leaveMachine (state.machines inside.machine) outcome)
      handles := (state.leaveHandle running.op inside outcome).toList ++ state.handles
      issued := (state.leaveHandle running.op inside outcome).toList ++ state.issued
      vms := state.vms + 1 } : LifecycleState).Handled := by
  have hmachines (machine : MachineName) (stored' : StoredMachine)
      (hstored' : update state.machines inside.machine
        (state.leaveMachine (state.machines inside.machine) outcome) machine = some stored') :
      ∃ stored, state.machines machine = some stored ∧ stored'.specHash = stored.specHash ∧
        stored'.runtime = stored.runtime ∧
        (stored'.vm = none ∨ stored'.vm = stored.vm ∨ stored'.vm = some state.vms) := by
    rw [update_apply] at hstored'
    split_ifs at hstored' with hsame
    · exact hsame ▸ leaveMachine_cases hstored'
    · exact ⟨stored', hstored', rfl, rfl, .inr (.inl rfl)⟩
  constructor
  case recorded =>
    intro other found machine specHash runtime ttl hfound hfinside hrecorded stored' hstored'
    rcases update_task_cases hfound with ⟨-, rfl⟩ | ⟨-, hother⟩
    · cases hfinside
    · obtain ⟨stored, hstored, hspec, hruntime, -⟩ := hmachines machine stored' hstored'
      rw [hspec, hruntime]
      exact hhandled.recorded other found machine specHash runtime ttl hother hfinside hrecorded
        stored hstored
  case handles =>
    intro handle hmem stored' hstored'
    obtain ⟨stored, hstored, hspec, hruntime, -⟩ := hmachines handle.machine stored' hstored'
    rw [hspec, hruntime]
    rcases mem_append.1 hmem with hnew | hold
    · obtain ⟨ttl, hensure, hrecorded, -⟩ :=
        leaveHandle_eq_some hpossible (mem_toList.1 hnew)
      exact hhandled.recorded task running handle.machine handle.specHash handle.runtime ttl
        hrunning (hensure ▸ hinside) hrecorded stored hstored
    · exact hhandled.handles handle hold stored hstored
  case issued =>
    intro handle hmem
    show handle.vm < state.vms + 1
    rcases mem_append.1 hmem with hnew | hold
    · have hvm := (hhandled.leave_vm hones hrunning hinside hpossible (mem_toList.1 hnew)).1
      omega
    · have hvm := hhandled.issued handle hold
      omega
  case running =>
    intro machine stored' vm hstored' hvm
    show vm < state.vms + 1
    obtain ⟨stored, hstored, -, -, hnone | hsame | hnext⟩ := hmachines machine stored' hstored'
    · rw [hnone] at hvm
      cases hvm
    · have hless := hhandled.running machine stored vm hstored (hsame ▸ hvm)
      omega
    · rw [hnext] at hvm
      cases hvm
      omega
  case oneShots =>
    intro later handle earlier hissued honeShot other hmem
    cases hnew : state.leaveHandle running.op inside outcome with
    | none =>
      rw [hnew] at hissued
      exact hhandled.oneShots later handle earlier hissued honeShot other hmem
    | some new =>
      simp only [hnew, toList_some, singleton_append] at hissued
      cases later with
      | nil =>
        obtain ⟨rfl, rfl⟩ := cons.inj hissued
        have hvm := (hhandled.leave_vm hones hrunning hinside hpossible hnew).2 honeShot
        have hless := hhandled.issued other hmem
        omega
      | cons _ later =>
        obtain ⟨-, hold⟩ := cons.inj hissued
        exact hhandled.oneShots later handle earlier hold honeShot other hmem

theorem LifecycleState.Handled.steps (hlocked : state.Locked)
    (hones : state.OneShots) (hseparate : state.Separate label)
    (hstep : LifecycleSteps state label state') : state'.Handled := by
  have hkept (machine : MachineName) (stored : StoredMachine)
      (hstored : state.machines machine = some stored) :
      ∃ found, state.machines machine = some found ∧ stored.specHash = found.specHash ∧
        stored.runtime = found.runtime ∧ (stored.vm = none ∨ stored.vm = found.vm) :=
    ⟨stored, hstored, rfl, rfl, .inr rfl⟩
  cases hstep with
  | begin hnone hstartable =>
    refine hhandled.calm (fun other found hfound hrecorded ↦ ?_) hkept (fun _ ↦ id) rfl rfl
    rcases update_task_cases hfound with ⟨-, rfl⟩ | ⟨-, hold⟩
    · exact .inl rfl
    · exact .inr ⟨found, hold, rfl, hrecorded⟩
  | @request task running key remaining hrunning hremaining hwaits =>
    refine hhandled.calm (fun other found hfound hrecorded ↦ ?_) hkept (fun _ ↦ id) rfl rfl
    rcases update_task_cases hfound with ⟨rfl, rfl⟩ | ⟨-, hold⟩
    · exact .inr ⟨running, hrunning, rfl, hrecorded⟩
    · exact .inr ⟨found, hold, rfl, hrecorded⟩
  | grant hgrantable =>
    exact hhandled.calm (fun _ found hfound hrecorded ↦ .inr ⟨found, hfound, rfl, hrecorded⟩) hkept
      (fun _ ↦ id) rfl rfl
  | @enter task running inside hrunning hremaining hwaits hinside hmayEnter hpermitted =>
    refine hhandled.calm (fun other found hfound hrecorded ↦ ?_) hkept (fun _ ↦ id) rfl rfl
    rcases update_task_cases hfound with ⟨-, rfl⟩ | ⟨-, hold⟩
    · cases hrecorded
    · exact .inr ⟨found, hold, rfl, hrecorded⟩
  | record hrunning hinside => exact hhandled.record hlocked hones hrunning hinside hseparate
  | leave hrunning hinside hpossible =>
    exact hhandled.leave hones hrunning hinside hpossible
  | @finish task running hrunning hinside hwaits =>
    refine hhandled.calm (fun other found hfound hrecorded ↦ ?_) hkept (fun _ ↦ id) rfl rfl
    simp only [update_apply] at hfound
    split_ifs at hfound
    exact .inr ⟨found, hfound, rfl, hrecorded⟩
  | @exits machine =>
    refine hhandled.calm (fun _ found hfound hrecorded ↦ .inr ⟨found, hfound, rfl, hrecorded⟩)
      (fun other stored hstored ↦ ?_) (fun _ ↦ id) rfl rfl
    simp only [update_apply] at hstored
    split_ifs at hstored with hsame
    · obtain ⟨found, hfound, rfl⟩ := map_eq_some_iff.1 hstored
      exact ⟨found, hsame ▸ hfound, rfl, rfl, .inl rfl⟩
    · exact hkept other stored hstored
  | drop =>
    exact hhandled.calm (fun _ found hfound hrecorded ↦ .inr ⟨found, hfound, rfl, hrecorded⟩) hkept
      (fun _ hmem ↦ mem_of_mem_eraseIdx hmem) rfl rfl
  | restart =>
    exact hhandled.calm (fun _ _ hrunning ↦ by cases hrunning) hkept (fun _ hmem ↦ by cases hmem)
      rfl rfl

end

theorem handled_exec {pid : ℕ} {labels : List LifecycleLabel}
    (hadmits : lifecycles.Admits (.fresh pid) labels)
    (hseparate : lifecycles.Throughout LifecycleState.Separate (.fresh pid) labels) :
    (lifecycles.exec (.fresh pid) labels).Locked ∧ (lifecycles.exec (.fresh pid) labels).OneShots ∧
      (lifecycles.exec (.fresh pid) labels).Handled := by
  refine System.invariant_of_restrict
    (fun state : LifecycleState ↦ state.Locked ∧ state.OneShots ∧ state.Handled) ?_
    ⟨.fresh pid, .fresh pid, .fresh pid⟩
    ((System.admits_restrict_iff _ _ _).2 ⟨hadmits, hseparate⟩)
  intro state label ⟨hlocked, hones, hhandled⟩ henabled hseparate
  have hstep := lifecycleSteps_of_enabled henabled
  exact ⟨hlocked.steps hseparate hstep, hones.steps hlocked hseparate hstep,
    hhandled.steps hlocked hones hseparate hstep⟩

/-- An acquire of a one-shot, by a process with the pid 7. -/
def oneShotRun (task : ℕ) (outcome : SectionOutcome) : List LifecycleLabel :=
  [.begin task (.acquire "s" "0123456789" "v1" (some 0)), .request task, .grant task,
    .enter task (.ensure (.oneShotMachineId "s" "0123456789" 7 0) "0123456789" "v1" false),
    .record task, .leave task outcome, .finish task]

/-- A one-shot is removed before another controller with the same pid has its first one. -/
def removedOneShotRun : List LifecycleLabel :=
  oneShotRun 0 .booted ++
    [.begin 0 (.handle (.oneShotMachineId "s" "0123456789" 7 0)), .request 0, .grant 0,
      .enter 0 (.cleanup (.oneShotMachineId "s" "0123456789" 7 0)), .leave 0 .removed, .finish 0,
      .restart 7] ++
    oneShotRun 0 .booted

/-- `terminate_all` finds the manifest of a one-shot that boots. -/
def terminatedOneShotRun : List LifecycleLabel :=
  (oneShotRun 0 .booted).take 5 ++
    [.begin 1 (.terminateAll (.oneShotMachineId "s" "0123456789" 7 0)), .request 1, .grant 1,
      .enter 1 (.cleanup (.oneShotMachineId "s" "0123456789" 7 0))]

/-- The controller crashes while its one-shot runs, and the next one has the same pid. -/
def restartedOneShotRun : List LifecycleLabel :=
  oneShotRun 0 .booted ++ [.restart 7] ++ oneShotRun 0 .reused

end HandleRuns

end Exo.Firecracker
