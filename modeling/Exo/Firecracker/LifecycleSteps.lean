import Exo.Firecracker.Lifecycle

/-!
# The locks of lifecycle operations

What every step of the controllers does, and that an operation in a section holds all its keys.
Two operations on one machine then exclude each other as soon as both hold the key of its family:
all do but the acquire of a one-shot.
-/

namespace Exo.Firecracker

open Library Function List Option

/-- A step with what it found. -/
inductive LifecycleSteps (state : LifecycleState) : LifecycleLabel → LifecycleState → Prop where
  | begin {task : ℕ} {op : LifecycleOp} (hnone : state.tasks task = none)
      (hstartable : state.Startable op) :
    LifecycleSteps state (.begin task op)
      { state with
        tasks := Function.update state.tasks task (some ⟨op, op.keys, none, false, false⟩)
        sequence := if op.sequence?.isSome then state.sequence + 1 else state.sequence }
  | request {task : ℕ} {running : LifecycleTask} {key : String} {remaining : List String}
      (hrunning : state.tasks task = some running)
      (hremaining : running.remaining = key :: remaining)
      (hwaits : state.locks.waits task = none) :
    LifecycleSteps state (.request task)
      { state with
        tasks := Function.update state.tasks task (some { running with remaining })
        locks := state.locks.request task key }
  | grant {task : ℕ} (hgrantable : state.locks.Grantable task) :
    LifecycleSteps state (.grant task) { state with locks := state.locks.grant task }
  | enter {task : ℕ} {running : LifecycleTask} {inside : LifecycleSection}
      (hrunning : state.tasks task = some running) (hremaining : running.remaining = [])
      (hwaits : state.locks.waits task = none) (hinside : running.inside = none)
      (hmayEnter : running.op.MayEnter state.pid inside)
      (hpermitted : state.Permitted running inside) :
    LifecycleSteps state (.enter task inside)
      { state with
        tasks := Function.update state.tasks task (some (LifecycleState.enterTask running inside)) }
  | record {task : ℕ} {running : LifecycleTask} {machine : MachineName} {specHash runtime : String}
      {ttl : Bool} (hrunning : state.tasks task = some running)
      (hinside : running.inside = some (.ensure machine specHash runtime ttl)) :
    LifecycleSteps state (.record task)
      { state with
        tasks := Function.update state.tasks task (some { running with recorded := true })
        machines := Function.update state.machines machine
          (some (LifecycleState.recordMachine (state.machines machine) specHash runtime ttl)) }
  | leave {task : ℕ} {running : LifecycleTask} {inside : LifecycleSection}
      {outcome : SectionOutcome} (hrunning : state.tasks task = some running)
      (hinside : running.inside = some inside) (hpossible : state.Possible running inside outcome) :
    LifecycleSteps state (.leave task outcome)
      { state with
        tasks := Function.update state.tasks task (some { running with inside := none })
        machines := Function.update state.machines inside.machine
          (state.leaveMachine (state.machines inside.machine) outcome)
        handles := (state.leaveHandle running.op inside outcome).toList ++ state.handles
        issued := (state.leaveHandle running.op inside outcome).toList ++ state.issued
        vms := state.vms + 1 }
  | finish {task : ℕ} {running : LifecycleTask} (hrunning : state.tasks task = some running)
      (hinside : running.inside = none) (hwaits : state.locks.waits task = none) :
    LifecycleSteps state (.finish task)
      { state with
        tasks := Function.update state.tasks task none
        locks := state.locks.release task }
  | exits {machine : MachineName} : LifecycleSteps state (.exits machine)
      { state with
        machines := Function.update state.machines machine
          ((state.machines machine).map ({ · with vm := none })) }
  | drop {index : ℕ} :
    LifecycleSteps state (.drop index) { state with handles := state.handles.eraseIdx index }
  | restart {pid : ℕ} : LifecycleSteps state (.restart pid)
      { state with pid, sequence := 0, locks := .empty, tasks := fun _ ↦ none, handles := [] }

section LifecycleRuns
variable {state state' : LifecycleState} {label : LifecycleLabel}

theorem lifecycleSteps_of_enabled (henabled : lifecycles.enabled state label) :
    LifecycleSteps state label (lifecycles.next state label) := by
  cases label with
  | begin task op => exact .begin henabled.1 henabled.2
  | request task =>
    obtain ⟨running, hrunning, hremaining, hwaits⟩ := henabled
    obtain ⟨key, remaining, hkeys⟩ := exists_cons_of_ne_nil hremaining
    simp only [lifecycles, LifecycleState.next, mem_def.1 hrunning, hkeys]
    exact .request hrunning hkeys hwaits
  | grant task => exact .grant henabled
  | enter task inside =>
    obtain ⟨running, hrunning, hremaining, hwaits, hinside, hmayEnter, hpermitted⟩ := henabled
    simp only [lifecycles, LifecycleState.next, mem_def.1 hrunning]
    exact .enter hrunning hremaining hwaits hinside hmayEnter hpermitted
  | record task =>
    obtain ⟨running, hrunning, machine, specHash, runtime, ttl, hinside⟩ := henabled
    have hstep := LifecycleSteps.record hrunning hinside
    simpa only [lifecycles, LifecycleState.next, mem_def.1 hrunning, hinside] using hstep
  | leave task outcome =>
    obtain ⟨running, hrunning, inside, hinside, hpossible⟩ := henabled
    simp only [lifecycles, LifecycleState.next, mem_def.1 hrunning, mem_def.1 hinside]
    exact .leave hrunning hinside hpossible
  | finish task =>
    obtain ⟨running, hrunning, hinside, hwaits⟩ := henabled
    exact .finish hrunning hinside hwaits
  | exits machine => exact .exits
  | drop index => exact .drop
  | restart pid => exact .restart

/-- What a task has asked for and asks for next are its operation's keys, in order, and it is in a
section only when it holds all of them. -/
structure LifecycleState.Locked (state : LifecycleState) : Prop where
  locks : state.locks.Sound
  idle : ∀ task, state.tasks task = none →
    state.locks.waits task = none ∧ state.locks.holds task = []
  keys : ∀ task running, state.tasks task = some running →
    ((state.locks.holds task).map Prod.fst).reverse ++
      ((state.locks.waits task).map Prod.fst).toList ++ running.remaining = running.op.keys
  inside : ∀ task running inside, state.tasks task = some running →
    running.inside = some inside → running.remaining = [] ∧ state.locks.waits task = none ∧
      running.op.MayEnter state.pid inside
  ensured : ∀ task running machine specHash runtime ttl, state.tasks task = some running →
    running.inside = some (.ensure machine specHash runtime ttl) → running.ensured = true
  plain : ∀ task running, state.tasks task = some running →
    ∀ sandboxId ∈ running.op.sandboxIds, PlainId sandboxId

theorem LifecycleState.Locked.fresh (pid : ℕ) : (LifecycleState.fresh pid).Locked where
  locks := WeakLocks.sound_empty
  idle _ _ := ⟨rfl, rfl⟩
  keys _ _ hrunning := by cases hrunning
  inside _ _ _ hrunning := by cases hrunning
  ensured _ _ _ _ _ _ hrunning := by cases hrunning
  plain _ _ hrunning := by cases hrunning

variable {task other : ℕ} {running running' : LifecycleTask} {inside : LifecycleSection} {key : String}
  {op : LifecycleOp}

theorem update_task_cases {tasks : ℕ → Option LifecycleTask} {found : LifecycleTask}
    (hfound : Function.update tasks task (some running) other = some found) :
    other = task ∧ found = running ∨ other ≠ task ∧ tasks other = some found := by
  rw [update_apply] at hfound
  split_ifs at hfound with heq
  · exact .inl ⟨heq, (some.inj hfound).symm⟩
  · exact .inr ⟨heq, hfound⟩

theorem update_finished_eq_some {tasks : ℕ → Option LifecycleTask} {found : LifecycleTask}
    (hfound : Function.update tasks task none other = some found) :
    other ≠ task ∧ tasks other = some found := by
  rw [update_apply] at hfound
  split_ifs at hfound with heq
  exact ⟨heq, hfound⟩

/-- What is known of one task. -/
structure LifecycleTask.Locked (locks : WeakLocks String ℕ) (pid task : ℕ)
    (running : LifecycleTask) : Prop where
  keys : ((locks.holds task).map Prod.fst).reverse ++ ((locks.waits task).map Prod.fst).toList ++
    running.remaining = running.op.keys
  inside : ∀ inside, running.inside = some inside → running.remaining = [] ∧
    locks.waits task = none ∧ running.op.MayEnter pid inside
  ensured : ∀ machine specHash runtime ttl,
    running.inside = some (.ensure machine specHash runtime ttl) → running.ensured = true
  plain : ∀ sandboxId ∈ running.op.sandboxIds, PlainId sandboxId

theorem LifecycleState.Locked.ofTask (hlocked : state.Locked)
    (hrunning : state.tasks task = some running) :
    running.Locked state.locks state.pid task where
  keys := hlocked.keys task running hrunning
  inside inside := hlocked.inside task running inside hrunning
  ensured machine specHash runtime ttl :=
    hlocked.ensured task running machine specHash runtime ttl hrunning
  plain := hlocked.plain task running hrunning

theorem LifecycleState.Locked.of_tasks (hlocks : state.locks.Sound)
    (hidle : ∀ task, state.tasks task = none →
      state.locks.waits task = none ∧ state.locks.holds task = [])
    (htasks : ∀ task running, state.tasks task = some running →
      running.Locked state.locks state.pid task) : state.Locked where
  locks := hlocks
  idle := hidle
  keys task running hrunning := (htasks task running hrunning).keys
  inside task running inside hrunning := (htasks task running hrunning).inside inside
  ensured task running machine specHash runtime ttl hrunning :=
    (htasks task running hrunning).ensured machine specHash runtime ttl
  plain task running hrunning := (htasks task running hrunning).plain

/-- The locks of the task are as they were. -/
theorem LifecycleTask.Locked.of_same {locks locks' : WeakLocks String ℕ} {pid : ℕ}
    (hlocked : running.Locked locks pid task) (hwaits : locks'.waits task = locks.waits task)
    (hholds : locks'.holds task = locks.holds task) : running.Locked locks' pid task where
  keys := by
    rw [hwaits, hholds]
    exact hlocked.keys
  inside := by
    rw [hwaits]
    exact hlocked.inside
  ensured := hlocked.ensured
  plain := hlocked.plain

/-- A step that only changes one task, which keeps its locks. -/
theorem LifecycleState.Locked.change (hlocked : state.Locked) (hlocks : state'.locks = state.locks)
    (hpid : state'.pid = state.pid)
    (htasks : state'.tasks = Function.update state.tasks task (some running'))
    (htask : running'.Locked state.locks state.pid task) : state'.Locked := by
  refine .of_tasks (hlocks ▸ hlocked.locks) ?_ ?_
  · intro other hnone
    rw [htasks, update_apply] at hnone
    split_ifs at hnone
    exact hlocks ▸ hlocked.idle other hnone
  · intro other found hfound
    rw [htasks] at hfound
    rw [hlocks, hpid]
    rcases update_task_cases hfound with ⟨rfl, rfl⟩ | ⟨-, hold⟩
    · exact htask
    · exact hlocked.ofTask hold

theorem LifecycleState.Locked.steps (hlocked : state.Locked) (hseparate : state.Separate label)
    (hstep : LifecycleSteps state label state') : state'.Locked := by
  cases hstep with
  | @begin task op hnone hstartable =>
    obtain ⟨hwaits, hholds⟩ := hlocked.idle task hnone
    exact hlocked.change rfl rfl rfl
      ⟨by simp [hwaits, hholds], (fun _ hfound ↦ by cases hfound),
        (fun _ _ _ _ hfound ↦ by cases hfound), hseparate⟩
  | @request task running key remaining hrunning hremaining hwaits =>
    have hothers (other : ℕ) (hne : other ≠ task) :
        (state.locks.request task key).waits other = state.locks.waits other := by
      rw [WeakLocks.request_waits, if_neg hne]
    refine .of_tasks hlocked.locks.request ?_ ?_
    · intro other hother
      simp only [update_apply] at hother
      split_ifs at hother with heq
      rw [hothers other heq]
      exact hlocked.idle other hother
    · intro other found hfound
      rcases update_task_cases hfound with ⟨rfl, rfl⟩ | ⟨hne, hold⟩
      · have htask := hlocked.ofTask hrunning
        refine ⟨?_, ?_, htask.ensured, htask.plain⟩
        · have hkeys := htask.keys
          rw [hwaits, hremaining] at hkeys
          show ((state.locks.holds other).map Prod.fst).reverse ++ _ ++ remaining = running.op.keys
          rw [WeakLocks.request_waits, if_pos rfl]
          simpa using hkeys
        · intro inside hinside
          cases hremaining.symm.trans (htask.inside inside hinside).1
      · exact (hlocked.ofTask hold).of_same (hothers other hne) rfl
  | @grant task hgrantable =>
    obtain ⟨⟨key, lock⟩, hwaits, hfree⟩ := hgrantable
    have hwaits : state.locks.waits task = some (key, lock) := hwaits
    refine .of_tasks (hlocked.locks.grant ⟨(key, lock), hwaits, hfree⟩) ?_ ?_
    · intro other hnone
      have hidle := hlocked.idle other hnone
      have hne : other ≠ task := by
        intro heq
        rw [heq, hwaits] at hidle
        cases hidle.1
      rw [WeakLocks.grant_waits hwaits, WeakLocks.grant_holds hwaits, if_neg hne, if_neg hne]
      exact hidle
    · intro other found hother
      have htask := hlocked.ofTask hother
      refine ⟨?_, ?_, htask.ensured, htask.plain⟩
      · have hkeys := htask.keys
        rw [WeakLocks.grant_waits hwaits, WeakLocks.grant_holds hwaits]
        split_ifs with heq
        · rw [heq, hwaits] at hkeys
          simpa using hkeys
        · exact hkeys
      · intro inside hinside
        obtain ⟨hremaining, hnone, hmayEnter⟩ := htask.inside inside hinside
        refine ⟨hremaining, ?_, hmayEnter⟩
        rw [WeakLocks.grant_waits hwaits, hnone, ite_self]
  | @enter task running inside hrunning hremaining hwaits hinside hmayEnter hpermitted =>
    have htask := hlocked.ofTask hrunning
    refine hlocked.change rfl rfl rfl ⟨htask.keys, ?_, ?_, htask.plain⟩
    · intro found hfound
      cases hfound
      exact ⟨hremaining, hwaits, hmayEnter⟩
    · intro machine specHash runtime ttl hfound
      cases hfound
      rfl
  | @record task running machine specHash runtime ttl hrunning hinside =>
    have htask := hlocked.ofTask hrunning
    exact hlocked.change rfl rfl rfl ⟨htask.keys, htask.inside, htask.ensured, htask.plain⟩
  | @leave task running inside outcome hrunning hinside hpossible =>
    have htask := hlocked.ofTask hrunning
    exact hlocked.change rfl rfl rfl ⟨htask.keys, (fun _ hfound ↦ by cases hfound),
      (fun _ _ _ _ hfound ↦ by cases hfound), htask.plain⟩
  | @finish task running hrunning hinside hwaits =>
    refine .of_tasks (hlocked.locks.release hwaits) ?_ ?_
    · intro other hother
      rw [WeakLocks.release_holds]
      simp only [update_apply] at hother
      split_ifs at hother ⊢ with heq
      · exact ⟨heq ▸ hwaits, rfl⟩
      · exact hlocked.idle other hother
    · intro other found hfound
      obtain ⟨hne, hold⟩ := update_finished_eq_some hfound
      exact (hlocked.ofTask hold).of_same rfl (by rw [WeakLocks.release_holds, if_neg hne])
  | exits | drop => exact .of_tasks hlocked.locks hlocked.idle fun _ _ ↦ hlocked.ofTask
  | restart =>
    exact .of_tasks WeakLocks.sound_empty (fun _ _ ↦ ⟨rfl, rfl⟩)
      (fun _ _ hrunning ↦ by cases hrunning)

theorem keys_sorted (op : LifecycleOp) : op.keys.Pairwise (· < ·) := by
  cases op with
  | fork source target specHash runtime =>
    rw [LifecycleOp.keys]
    split_ifs with hsame hless
    · exact pairwise_singleton _ _
    · exact pairwise_pair.2 hless
    · exact pairwise_pair.2 (lt_of_le_of_ne (le_of_not_gt hless) (Ne.symm hsame))
  | _ => exact pairwise_singleton _ _

theorem LifecycleState.Locked.ordered (hlocked : state.Locked) : state.locks.Ordered := by
  intro task key lock hwaits other held hholds
  cases hrunning : state.tasks task with
  | none =>
    rw [(hlocked.idle task hrunning).1] at hwaits
    cases hwaits
  | some running =>
    have hkeys := hlocked.keys task running hrunning
    have hsorted := keys_sorted running.op
    rw [← hkeys, hwaits, append_assoc, pairwise_append] at hsorted
    refine hsorted.2.2 other ?_ key (by simp)
    exact mem_reverse.2 (mem_map.2 ⟨(other, held), hholds, rfl⟩)

/-- In a section every key of the operation is held. -/
theorem LifecycleState.Locked.holds (hlocked : state.Locked)
    (hrunning : state.tasks task = some running) (hinside : running.inside = some inside)
    (hkey : key ∈ running.op.keys) : ∃ lock, (key, lock) ∈ state.locks.holds task := by
  obtain ⟨hremaining, hwaits, -⟩ := hlocked.inside task running inside hrunning hinside
  have hkeys := hlocked.keys task running hrunning
  rw [hwaits, hremaining] at hkeys
  have hmem : key ∈ (state.locks.holds task).map Prod.fst := by
    rw [← hkeys] at hkey
    simpa using hkey
  obtain ⟨⟨found, lock⟩, hholds, rfl⟩ := mem_map.1 hmem
  exact ⟨lock, hholds⟩

theorem LifecycleState.Locked.exclusive (hlocked : state.Locked) {other : ℕ}
    {inside' : LifecycleSection} (hrunning : state.tasks task = some running)
    (hrunning' : state.tasks other = some running') (hinside : running.inside = some inside)
    (hinside' : running'.inside = some inside') (hkey : key ∈ running.op.keys)
    (hkey' : key ∈ running'.op.keys) : task = other := by
  obtain ⟨lock, hholds⟩ := hlocked.holds hrunning hinside hkey
  obtain ⟨lock', hholds'⟩ := hlocked.holds hrunning' hinside' hkey'
  exact hlocked.locks.exclusive hholds hholds'

/-- The sections of an operation: on a machine of its sandboxes, on its machine, or on the machine
of its one-shot. -/
theorem mayEnter_cases {pid : ℕ} (hmayEnter : op.MayEnter pid inside) :
    inside.machine.family ∈ op.sandboxIds ∨ op.machine? = some inside.machine ∨
      ∃ sandboxId specHash runtime sequence,
        op = .acquire sandboxId specHash runtime (some sequence) ∧
        inside = .ensure (.oneShotMachineId sandboxId specHash pid sequence) specHash runtime
          false := by
  cases op with
  | acquire sandboxId specHash runtime sequence =>
    cases inside with
    | ensure machine specHash' runtime' ttl =>
      cases sequence with
      | none =>
        obtain ⟨rfl, rfl, rfl, rfl⟩ := hmayEnter
        exact .inl mem_cons_self
      | some sequence =>
        obtain ⟨rfl, rfl, rfl, rfl⟩ := hmayEnter
        exact .inr (.inr ⟨sandboxId, specHash', runtime', sequence, rfl, rfl⟩)
    | cleanup machine =>
      have hfamily : machine.family = sandboxId := by cases sequence <;> exact hmayEnter
      exact .inl (hfamily ▸ mem_cons_self)
    | capture machine => cases sequence <;> cases hmayEnter
  | restore sandboxId specHash runtime =>
    cases inside with
    | ensure machine specHash' runtime' ttl =>
      obtain ⟨rfl, rfl, rfl, rfl⟩ := hmayEnter
      exact .inl mem_cons_self
    | cleanup machine => exact .inl (hmayEnter ▸ mem_cons_self)
    | capture machine => cases hmayEnter
  | shutdown sandboxId =>
    cases inside with
    | ensure machine specHash' runtime' ttl => cases hmayEnter
    | cleanup machine => exact .inl (hmayEnter ▸ mem_cons_self)
    | capture machine => cases hmayEnter
  | fork source target specHash runtime =>
    cases inside with
    | ensure machine specHash' runtime' ttl =>
      obtain ⟨rfl, rfl, rfl, rfl⟩ := hmayEnter
      exact .inl (mem_cons_of_mem _ mem_cons_self)
    | cleanup machine => exact .inl (hmayEnter ▸ mem_cons_of_mem _ mem_cons_self)
    | capture machine => exact .inl (hmayEnter ▸ mem_cons_self)
  | terminateAll machine | reapStale machine | reapExpired machine =>
    cases inside with
    | cleanup machine' => exact .inr (.inl (congrArg some hmayEnter.symm))
    | _ => cases hmayEnter
  | handle machine =>
    cases inside with
    | ensure machine' specHash' runtime' ttl => cases hmayEnter
    | cleanup machine' | capture machine' => exact .inr (.inl (congrArg some hmayEnter.symm))

/-- The lock of every sandbox and machine of an operation is among its keys. -/
theorem mem_keys {machine : MachineName}
    (hcovered : machine.family ∈ op.sandboxIds ∨ op.machine? = some machine) :
    machine.family ∈ op.keys := by
  cases op with
  | acquire | restore | shutdown => exact hcovered.resolve_right fun hnone ↦ by cases hnone
  | fork source target specHash runtime =>
    have hmem := hcovered.resolve_right fun hnone ↦ by cases hnone
    simp only [LifecycleOp.sandboxIds, LifecycleOp.keys] at hmem ⊢
    grind
  | _ =>
    have hsome := hcovered.resolve_left fun hmem ↦ by cases hmem
    cases hsome
    exact mem_singleton_self _

/-- A handle is returned by an `ensure_machine` that has its manifest, for the VM that runs or for
the next one. -/
theorem leaveHandle_eq_some {outcome : SectionOutcome} {handle : MachineHandle}
    (hpossible : state.Possible running inside outcome)
    (hhandle : state.leaveHandle running.op inside outcome = some handle) :
    ∃ ttl, inside = .ensure handle.machine handle.specHash handle.runtime ttl ∧
      running.recorded = true ∧ handle.oneShot = running.op.sequence?.isSome ∧
      (outcome = .reused ∧ (∃ stored, state.machines handle.machine = some stored ∧
        stored.vm = some handle.vm) ∨ outcome = .booted ∧ handle.vm = state.vms) := by
  cases inside with
  | ensure machine specHash runtime ttl =>
    cases outcome with
    | reused =>
      simp only [LifecycleState.leaveHandle, bind_eq_some_iff, map_eq_some_iff] at hhandle
      obtain ⟨stored, hstored, vm, hvm, rfl⟩ := hhandle
      exact ⟨ttl, rfl, hpossible.1, rfl, .inl ⟨rfl, stored, hstored, hvm⟩⟩
    | booted =>
      cases hhandle
      exact ⟨ttl, rfl, hpossible, rfl, .inr ⟨rfl, rfl⟩⟩
    | _ => cases hhandle
  | _ => cases hhandle

end LifecycleRuns

end Exo.Firecracker
