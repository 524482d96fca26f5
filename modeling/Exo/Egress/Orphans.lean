import Exo.Egress.RuntimeInvariant

/-!
# No proxy is orphaned

Over whole runs: the operations on a sandbox take turns, an open proxy is in the map or belongs to an
operation in progress, and shutting down leaves none open.  An acquisition that has made its last check
of the runtime before the shutdown may still succeed; its proxy is closed like the others.
-/

namespace Exo.Egress.Runtime

open Library EgressRuntime List System

variable {Rest : Type} [DecidableEq Rest] {r r' : EgressRuntime Rest} {s s' : Shared Rest}
  {labels : List (EgressRuntime.Label Rest)} {stage stage' : Stage Rest} {new : List Call}
  {free : Bool} {env : Env} {request : SandboxRequest Rest} {externalProxy : Option ExternalProxyConfig}
  {label : EgressRuntime.Label Rest} {i : ℕ} {task task' : Task Rest} {calls : List Call}

theorem step_of_enabled (henabled : system.enabled r label) :
    r.step label = some (system.next r label) :=
  (Option.getD_of_ne_none (Option.isSome_iff_ne_none.1 henabled) _).symm

theorem orderly_exec (hrun : system.Admits {} labels) :
    Orderly (system.exec ({} : EgressRuntime Rest) labels) := by
  exact invariant Orderly (fun r label horderly henabled ↦
    horderly.next (step_of_enabled henabled)) orderly_start hrun

/-- The acquisition has found its cached proxy open, or the runtime open to register its handle. -/
def Stage.committed : Stage Rest → Bool
  | running .. => true
  | registering .. => true
  | unlocking outcome | dropping outcome | finished outcome => outcome.isOk
  | _ => false

omit [DecidableEq Rest] in
theorem late_remove {id : String}
    (hadvance : advanceRemove s free env id stage = some (s', stage', new)) :
    stage'.committed = false ∧ stage' ≠ .building none ∧ s'.closed = s.closed := by
  revert hadvance
  fun_cases advanceRemove s free env id stage <;> rintro ⟨⟩ <;> exact ⟨rfl, by simp, rfl⟩

/-- An acquisition that needs a proxy and has a check before it meets the closed runtime there. -/
theorem late_acquire (hclosed : s.closed = true)
    (hproxy : request.spec.policy.requiresProxy = true) (hstage : stage.committed = false)
    (hbuilding : stage ≠ .building none)
    (hadvance : advanceAcquire s free env request externalProxy stage = some (s', stage', new)) :
    stage'.committed = false ∧ stage' ≠ .building none := by
  revert hadvance
  fun_cases advanceAcquire s free env request externalProxy stage <;>
    first
    | exact fun hadvance ↦ (late_remove hadvance).imp_right And.left
    | rintro ⟨⟩ <;> simp_all [Stage.committed, Except.isOk, Except.toBool, Shared.isOpen_of_closed]

/-- An acquisition that needs a proxy never boots without one. -/
theorem not_building_none (hproxy : request.spec.policy.requiresProxy = true)
    (hbuilding : stage ≠ .building none)
    (hadvance : advanceAcquire s free env request externalProxy stage = some (s', stage', new)) :
    stage' ≠ .building none := by
  revert hadvance
  fun_cases advanceAcquire s free env request externalProxy stage <;>
    first
    | exact fun hadvance ↦ (late_remove hadvance).2.1
    | rintro ⟨⟩ <;> simp_all

theorem closed_of_advance {op : Op Rest} (hclosed : s.closed = true)
    (hadvance : op.advance s free env stage = some (s', stage', new)) : s'.closed = true := by
  have hremove : ∀ id, advanceRemove s free env id stage = some (s', stage', new) →
      s'.closed = true := fun id hadvance ↦ (late_remove hadvance).2.2.trans hclosed
  cases op with
  | acquire request externalProxy =>
    revert hadvance
    rw [Op.advance]
    fun_cases advanceAcquire s free env request externalProxy stage <;>
      first
      | exact hremove _
      | rintro ⟨⟩ <;> exact hclosed
  | terminate id =>
    revert hadvance
    rw [Op.advance]
    fun_cases advanceTerminate s free env id stage <;>
      first
      | exact hremove _
      | (rintro ⟨⟩; exact hclosed)
  | shutdown =>
    revert hadvance
    rw [Op.advance]
    fun_cases advanceShutdown s free stage <;> rintro ⟨⟩ <;> first | rfl | exact hclosed

/-- The steps about the lock, which make no calls. -/
inductive LockStep : Stage Rest → Stage Rest → Prop
  | lookup : LockStep .start .waiting
  | lock : LockStep .waiting .locked
  | unlock (outcome : Outcome) : LockStep (.unlocking outcome) (.dropping outcome)
  | drop (outcome : Outcome) : LockStep (.dropping outcome) (.finished outcome)

/-- What a step of the runtime makes of a task. -/
structure Stepped (r : EgressRuntime Rest) (task task' : Task Rest) : Prop where
  op : task'.op = task.op
  step : (LockStep task.stage task'.stage ∧ task'.calls = task.calls) ∨
    ∃ env s' new, task.op.advance r.shared r.free env task.stage = some (s', task'.stage, new) ∧
      task'.calls = task.calls ++ new

theorem stepped_of_stepTask (hstep : r.stepTask i task env = some r') :
    ∃ task' : Task Rest, r'.tasks = r.tasks.set i task' ∧ Stepped r task task' ∧
      (r.shared.closed = true → r'.shared.closed = true) := by
  rcases stepTask_cases hstep with ⟨id, hid, hstage, rfl⟩ | ⟨id, hid, hstage, hfree, rfl⟩ |
    ⟨id, outcome, hid, hstage, rfl⟩ | ⟨id, outcome, hid, hstage, rfl⟩ |
    ⟨s', stage, new, hadvance, rfl⟩
  · refine ⟨{ task with lock := some (r.lockFor id), stage := .waiting }, ?_,
      ⟨rfl, .inl ⟨hstage ▸ .lookup, rfl⟩⟩, ?_⟩
    · rw [afterLookup_eq]
      rfl
    · rw [afterLookup_eq]
      exact fun hclosed ↦ hclosed
  · exact ⟨_, rfl, ⟨rfl, .inl ⟨hstage ▸ .lock, rfl⟩⟩, fun hclosed ↦ hclosed⟩
  · exact ⟨_, rfl, ⟨rfl, .inl ⟨hstage ▸ .unlock outcome, rfl⟩⟩, fun hclosed ↦ hclosed⟩
  · exact ⟨_, rfl, ⟨rfl, .inl ⟨hstage ▸ .drop outcome, rfl⟩⟩, fun hclosed ↦ hclosed⟩
  · refine ⟨_, rfl, ⟨rfl, .inr ⟨env, s', new, hadvance, rfl⟩⟩, fun hclosed ↦ ?_⟩
    exact closed_of_advance hclosed hadvance

theorem closed_of_step (hclosed : r.shared.closed = true) (hstep : r.step label = some r') :
    r'.shared.closed = true := by
  cases label with
  | call op =>
    cases hstep
    exact hclosed
  | die egress =>
    cases hstep
    exact hclosed
  | step i env =>
    obtain ⟨task, -, hstep⟩ := Option.bind_eq_some_iff.1 hstep
    obtain ⟨-, -, -, hmono⟩ := stepped_of_stepTask hstep
    exact hmono hclosed

/-- A task after a step: as it was, new, or stepped. -/
theorem task_of_step (hstep : r.step label = some r') (hi : r'.tasks[i]? = some task') :
    r.tasks[i]? = some task' ∨ (∃ op, task' = { op }) ∨
      ∃ task, r.tasks[i]? = some task ∧ Stepped r task task' := by
  cases label with
  | call op =>
    cases hstep
    rcases Nat.lt_or_ge i r.tasks.length with hlt | hge
    · rw [List.getElem?_append_left hlt] at hi
      exact .inl hi
    · rw [List.getElem?_append_right hge, List.getElem?_singleton] at hi
      split at hi <;> cases hi
      exact .inr (.inl ⟨op, rfl⟩)
  | die egress =>
    cases hstep
    exact .inl hi
  | step j env =>
    obtain ⟨task, hj, hstep⟩ := Option.bind_eq_some_iff.1 hstep
    obtain ⟨changed, htasks, hstepped, -⟩ := stepped_of_stepTask hstep
    rw [htasks] at hi
    by_cases heq : i = j
    · subst heq
      rw [List.getElem?_set_self (List.getElem?_eq_some_iff.1 hj).1] at hi
      cases hi
      exact .inr (.inr ⟨task, hj, hstepped⟩)
    · rw [List.getElem?_set_ne (Ne.symm heq)] at hi
      exact .inl hi

/-- A property of the acquisitions that new ones have and steps keep. -/
theorem acquire_of_step {P : Task Rest → Prop} (hnew : P { op := .acquire request externalProxy })
    (hlock : ∀ task task' : Task Rest, LockStep task.stage task'.stage → task'.calls = task.calls →
      P task → P task') (hadvance : ∀ (task task' : Task Rest) env s' new,
      advanceAcquire r.shared r.free env request externalProxy task.stage =
        some (s', task'.stage, new) →
      task'.calls = task.calls ++ new → P task → P task') (hstep : r.step label = some r')
    (hbefore : ∀ task, r.tasks[i]? = some task → task.op = .acquire request externalProxy → P task)
    (hi : r'.tasks[i]? = some task') (hop : task'.op = .acquire request externalProxy) :
    P task' := by
  rcases task_of_step hstep hi with hsame | ⟨op, rfl⟩ | ⟨task, hj, hstepped⟩
  · exact hbefore task' hsame hop
  · cases hop
    exact hnew
  · have hold : task.op = .acquire request externalProxy := hstepped.op.symm.trans hop
    have htask := hbefore task hj hold
    rcases hstepped.step with ⟨hsteps, hcalls⟩ | ⟨env, s', new, hadv, hcalls⟩
    · exact hlock task task' hsteps hcalls htask
    · rw [hold] at hadv
      exact hadvance task task' env s' new hadv hcalls htask

omit [DecidableEq Rest] in
theorem committed_of_lockStep (hstep : LockStep stage stage') :
    stage'.committed = stage.committed ∧ stage' ≠ .building none := by
  cases hstep <;> exact ⟨rfl, by simp⟩

/-- Once the runtime is closed, an acquisition that has a check before it does not succeed. -/
theorem late_step (hstep : r.step label = some r') (hclosed : r.shared.closed = true)
    (hproxy : request.spec.policy.requiresProxy = true)
    (hlate : ∀ task, r.tasks[i]? = some task → task.op = .acquire request externalProxy →
      task.stage.committed = false ∧ task.stage ≠ .building none) (hi : r'.tasks[i]? = some task')
    (hop : task'.op = .acquire request externalProxy) :
    task'.stage.committed = false ∧ task'.stage ≠ .building none := by
  refine acquire_of_step (P := fun task ↦ task.stage.committed = false ∧ task.stage ≠ .building none)
    ⟨rfl, by simp⟩ ?_ ?_ hstep hlate hi hop
  · intro task task' hlock _ hbefore
    obtain ⟨hsame, hnot⟩ := committed_of_lockStep hlock
    exact ⟨hsame.trans hbefore.1, hnot⟩
  · intro task task' env s' new hadvance _ hbefore
    exact late_acquire hclosed hproxy hbefore.1 hbefore.2 hadvance

theorem not_building_of_step (hstep : r.step label = some r')
    (hproxy : request.spec.policy.requiresProxy = true)
    (hbefore : ∀ task, r.tasks[i]? = some task → task.op = .acquire request externalProxy →
      task.stage ≠ .building none) (hi : r'.tasks[i]? = some task')
    (hop : task'.op = .acquire request externalProxy) : task'.stage ≠ .building none :=
  acquire_of_step (P := fun task ↦ task.stage ≠ .building none) (by simp)
    (fun _ _ hlock _ _ ↦ (committed_of_lockStep hlock).2)
    (fun _ _ _ _ _ hadvance _ hnot ↦ not_building_none hproxy hnot hadvance) hstep hbefore hi hop

section
variable (labels : List (EgressRuntime.Label Rest))

/-- At some point of the run the map had the entry. -/
def Had (id : String) (cached : CachedSandbox Rest) : Prop :=
  ∃ first, first <+: labels ∧ (system.exec {} first).shared.cached id = some cached

/-- At some point of the run the proxy was open. -/
def WasOpen (egress : ProxyId) : Prop :=
  ∃ first, first <+: labels ∧
    (system.exec ({} : EgressRuntime Rest) first).shared.isOpen egress = true

section
variable (request : SandboxRequest Rest) (externalProxy : Option ExternalProxyConfig)

/-- The handle is of an entry with this specification, scope and proxy. -/
def CachedFor (handle : ℕ) : Prop :=
  ∃ cached, Had labels request.sandboxId cached ∧ cached.handle = some handle ∧
    cached.request.spec = request.spec ∧ cached.request.scope = request.scope ∧
    cached.externalProxy = externalProxy ∧ WasOpen labels cached.egress

/-- What an acquisition knows of the entry that it found. -/
def Stage.Knows (calls : List Call) : Stage Rest → Prop
  | found cached => Had labels request.sandboxId cached
  | running cached handle => Had labels request.sandboxId cached ∧
    cached.handle = some handle ∧ WasOpen labels cached.egress
  | building _ | built .. | registering .. => calls ≠ []
  | unlocking outcome | dropping outcome | finished outcome => ∀ handle,
    outcome = .ok (some handle) → calls = [] → CachedFor labels request externalProxy handle
  | _ => True

end

end

theorem Had.mono {id : String} {cached : CachedSandbox Rest} (hhad : Had labels id cached)
    (label : EgressRuntime.Label Rest) : Had (labels ++ [label]) id cached := by
  obtain ⟨first, hinit, hcached⟩ := hhad
  exact ⟨first, hinit.trans (prefix_append _ _), hcached⟩

theorem WasOpen.mono {egress : ProxyId} (hopen : WasOpen labels egress)
    (label : EgressRuntime.Label Rest) :
    WasOpen (labels ++ [label]) egress := by
  obtain ⟨first, hinit, hfirst⟩ := hopen
  exact ⟨first, hinit.trans (prefix_append _ _), hfirst⟩

theorem Stage.Knows.mono (label : EgressRuntime.Label Rest)
    (hknows : stage.Knows labels request externalProxy calls) :
    stage.Knows (labels ++ [label]) request externalProxy calls := by
  have hcached : ∀ outcome : Outcome, (∀ handle, outcome = .ok (some handle) → calls = [] →
      CachedFor labels request externalProxy handle) → ∀ handle, outcome = .ok (some handle) →
      calls = [] → CachedFor (labels ++ [label]) request externalProxy handle := by
    intro outcome hknows handle houtcome hcalls
    obtain ⟨cached, hhad, hhandle, hspec, hscope, hexternal, hopen⟩ := hknows handle houtcome hcalls
    exact ⟨cached, hhad.mono label, hhandle, hspec, hscope, hexternal, hopen.mono label⟩
  unfold Stage.Knows at hknows ⊢
  split at hknows
  case h_1 => exact hknows.mono label
  case h_2 => exact ⟨hknows.1.mono label, hknows.2.1, hknows.2.2.mono label⟩
  all_goals first | exact hknows | exact hcached _ hknows

theorem knows_of_error (labels : List (EgressRuntime.Label Rest)) {message : String} :
    ∀ handle, (.error message : Outcome) = .ok (some handle) → calls = [] →
      CachedFor labels request externalProxy handle := nofun

/-- A step of an acquisition at some point of a run. -/
theorem knows_advance {first : List (EgressRuntime.Label Rest)} (hinit : first <+: labels)
    (hknows : stage.Knows labels request externalProxy calls)
    (hadvance : advanceAcquire (system.exec {} first).shared free env request externalProxy stage =
      some (s', stage', new)) : stage'.Knows labels request externalProxy (calls ++ new) := by
  have hremove : advanceRemove (system.exec {} first).shared free env request.sandboxId stage =
      some (s', stage', new) → stage'.Knows labels request externalProxy (calls ++ new) := by
    fun_cases advanceRemove (system.exec {} first).shared free env request.sandboxId stage <;>
      rintro ⟨⟩ <;> first | trivial | exact knows_of_error labels
  revert hadvance
  fun_cases advanceAcquire (system.exec {} first).shared free env request externalProxy stage <;>
    first
    | exact hremove
    | (rintro ⟨⟩; try first | trivial | exact knows_of_error labels | simp [Stage.Knows])
  -- `locked`
  · rename_i cached hcached
    exact ⟨first, hinit, hcached⟩
  -- `found`
  · rename_i cached handle hhandle hopen
    exact ⟨hknows, hhandle, first, hinit, hopen⟩
  -- `running`
  · rename_i cached handle _ _ hunchanged
    obtain ⟨hhad, hhandle, hopen⟩ := hknows
    simp only [CachedSandbox.unchanged, Bool.and_eq_true, decide_eq_true_eq] at hunchanged
    intro _
    exact ⟨_, hhad, hhandle, hunchanged.1.1, hunchanged.1.2, hunchanged.2, hopen⟩
  -- `building`
  · exact fun hcalls ↦ absurd hcalls hknows
  · simpa [Stage.Knows] using hknows
  -- `built`
  · simpa [Stage.Knows] using hknows
  -- `registering`
  · exact fun hcalls ↦ absurd hcalls hknows

theorem knows_of_lockStep (hlock : LockStep stage stage')
    (hknows : stage.Knows labels request externalProxy calls) :
    stage'.Knows labels request externalProxy calls := by
  cases hlock
  · trivial
  · trivial
  · exact hknows
  · exact hknows

theorem knows_exec (hrun : system.Admits {} labels)
    (hi : (system.exec {} labels).tasks[i]? = some task)
    (hop : task.op = .acquire request externalProxy) :
    task.stage.Knows labels request externalProxy task.calls := by
  refine @traceInvariant _ _ system (fun labels r ↦ ∀ (i : ℕ) (task : Task Rest),
    r.tasks[i]? = some task → task.op = .acquire request externalProxy →
      task.stage.Knows labels request externalProxy task.calls) {} (by simp) ?_ _ hrun i task hi hop
  intro labels label _ hknows henabled i task hi hop
  have hstep := step_of_enabled henabled
  refine acquire_of_step
    (P := fun task ↦ task.stage.Knows (labels ++ [label]) request externalProxy task.calls)
    trivial ?_ ?_ hstep (fun task hj hold ↦ (hknows _ task hj hold).mono label) hi hop
  · intro task task' hlock hcalls hbefore
    rw [hcalls]
    exact knows_of_lockStep hlock hbefore
  · intro task task' env s' new hadvance hcalls hbefore
    rw [hcalls]
    exact knows_advance (prefix_append _ _) hbefore hadvance

/-- An acquisition that needs a proxy is never at a boot without one. -/
theorem not_building_exec (hrun : system.Admits ({} : EgressRuntime Rest) labels)
    (hproxy : request.spec.policy.requiresProxy = true)
    (hi : (system.exec {} labels).tasks[i]? = some task)
    (hop : task.op = .acquire request externalProxy) : task.stage ≠ .building none := by
  have hinvariant := invariant (fun r : EgressRuntime Rest ↦
    ∀ task, r.tasks[i]? = some task → task.op = .acquire request externalProxy →
      task.stage ≠ .building none) (fun r label hbefore henabled ↦ ?_) (by simp) hrun
  · exact hinvariant task hi hop
  · exact fun task' hi' hop' ↦
      not_building_of_step (step_of_enabled henabled) hproxy hbefore hi' hop'

/-- After the runtime is closed. -/
theorem late_exec {rest : List (EgressRuntime.Label Rest)} (hclosed : r.shared.closed = true)
    (hrun : system.Admits r rest) (hproxy : request.spec.policy.requiresProxy = true)
    (hlate : ∀ task, r.tasks[i]? = some task → task.op = .acquire request externalProxy →
      task.stage.committed = false ∧ task.stage ≠ .building none)
    (hi : (system.exec r rest).tasks[i]? = some task)
    (hop : task.op = .acquire request externalProxy) : task.stage.committed = false := by
  have hinvariant := invariant (fun r : EgressRuntime Rest ↦ r.shared.closed = true ∧
    ∀ task, r.tasks[i]? = some task → task.op = .acquire request externalProxy →
      task.stage.committed = false ∧ task.stage ≠ .building none)
    (fun r label hbefore henabled ↦ ?_) ⟨hclosed, hlate⟩ hrun
  · exact (hinvariant.2 task hi hop).1
  · have hstep := step_of_enabled henabled
    exact ⟨closed_of_step hbefore.1 hstep, fun task' hi' hop' ↦
      late_step hstep hbefore.1 hproxy hbefore.2 hi' hop'⟩

/-- Whatever the order of the steps: the operations on a sandbox take turns; an open proxy is in the map
or belongs to an operation in progress; a failed acquisition leaves its proxy closed, and if it began to
boot it has shut the proxy down and then terminated the sandbox; once the runtime is closed no proxy is
open, and acquisitions with a check before them fail; a cached handle is returned only for what it was
made for; and no registration finds its entry gone. -/
theorem proxies_not_orphaned (hrun : system.Admits ({} : EgressRuntime Rest) labels) :
    let r := system.exec ({} : EgressRuntime Rest) labels
    (∀ (i j : ℕ) (ti tj : Task Rest), r.tasks[i]? = some ti → r.tasks[j]? = some tj →
      ti.stage.holds = true → tj.stage.holds = true → ti.op.sandboxId = tj.op.sandboxId → i = j) ∧
    (∀ egress, r.shared.isOpen egress = true →
      Listed r.shared egress ∨ ∃ task ∈ r.tasks, task.stage.owned = some egress) ∧
    (∀ task ∈ r.tasks, ∀ message egress, task.stage = .finished (.error message) →
      .create egress ∈ task.calls → r.shared.isOpen egress = false ∧
        (task.calls = [.create egress, .build (some egress), .shutdown egress, .terminate] ∨
          task.calls = [.create egress] ∧ r.shared.closed = true)) ∧
    (∀ task ∈ r.tasks, ∀ outcome, task.op = .shutdown → task.stage = .finished outcome →
      r.shared.sandboxes = [] ∧ ∀ egress, r.shared.isOpen egress = false) ∧
    (∀ first rest, labels = first ++ rest → (system.exec {} first).shared.closed = true →
      ∀ (i : ℕ) (task : Task Rest) request externalProxy outcome, r.tasks[i]? = some task →
        task.op = .acquire request externalProxy → request.spec.policy.requiresProxy = true →
        task.stage = .finished outcome →
        (∀ earlier : Task Rest, (system.exec {} first).tasks[i]? = some earlier →
          earlier.stage.committed = false) →
        ∃ message, outcome = .error message) ∧
    (∀ task ∈ r.tasks, ∀ request externalProxy handle, task.op = .acquire request externalProxy →
      task.stage = .finished (.ok (some handle)) → task.calls = [] →
        CachedFor labels request externalProxy handle) ∧
    ∀ task ∈ r.tasks, task.stage ≠ .panicked := by
  intro r
  have horderly : Orderly r := orderly_exec hrun
  refine ⟨fun i j ti tj ↦ horderly.exclusive, horderly.owned, ?_, ?_, ?_, ?_, ?_⟩
  · intro task htask message egress hstage hcreate
    have hcalls := horderly.calls_ok task htask
    rw [hstage] at hcalls
    rcases hcalls with hnil | hbuild | ⟨own, hshut, ⟨hclosed, hown⟩ | hown⟩
    · simp [hnil] at hcreate
    · simp [hbuild] at hcreate
    · obtain rfl : egress = own := by simpa [hown] using hcreate
      exact ⟨hshut.2, .inr ⟨hown, hclosed⟩⟩
    · obtain rfl : egress = own := by simpa [hown] using hcreate
      exact ⟨hshut.2, .inl hown⟩
  · intro task htask outcome hop hstage
    obtain ⟨-, hclosed, hdrained⟩ := horderly.shutdown task htask hop
    rw [hstage] at hclosed hdrained
    exact ⟨(hdrained (by simp) (by simp)).1, fun _ ↦ Shared.isOpen_of_closed (hclosed (by simp))⟩
  · rintro first rest rfl hclosed i task request externalProxy outcome hi hop hproxy hstage hlate
    obtain ⟨hfirst, hrest⟩ := (system.admits_append _ first rest).1 hrun
    have hi' : (system.exec (system.exec {} first) rest).tasks[i]? = some task := by
      rwa [← exec_append]
    have hcommitted := late_exec hclosed hrest hproxy (fun earlier hearlier hop' ↦
      ⟨hlate earlier hearlier, not_building_exec hfirst hproxy hearlier hop'⟩) hi' hop
    rw [hstage] at hcommitted
    cases outcome with
    | error message => exact ⟨message, rfl⟩
    | ok handle => cases hcommitted
  · intro task htask request externalProxy handle hop hstage hcalls
    obtain ⟨i, hi⟩ := mem_iff_getElem?.1 htask
    have hknows := knows_exec hrun hi hop
    rw [hstage] at hknows
    exact hknows handle rfl hcalls
  · intro task htask hpanicked
    cases hid : task.op.sandboxId with
    | some id =>
      have hok := horderly.map_ok task htask id hid
      rw [hpanicked] at hok
      exact hok
    | none =>
      have hop : task.op = .shutdown := by
        cases hop : task.op <;> simp [hop, Op.sandboxId] at hid ⊢
      obtain ⟨hstages, -, -⟩ := horderly.shutdown task htask hop
      rw [hpanicked] at hstages
      simp at hstages

def limitedRequest : SandboxRequest Unit where
  sandboxId := "one"
  scope := .global
  spec := ⟨⟨.limited ["api.test"], none, []⟩, ()⟩
  idleTtl := some 60

/-- The next steps of a task, all answered with success. -/
def steps (i count : ℕ) : List (EgressRuntime.Label Unit) :=
  List.replicate count (.step i { handle := 5 })

def acquired : List (EgressRuntime.Label Unit) :=
  .call (.acquire limitedRequest none) :: steps 0 12

def acquiredTwice : List (EgressRuntime.Label Unit) :=
  acquired ++ .call (.acquire limitedRequest none) :: steps 1 7

theorem proxies_not_orphaned_cached : CachedFor acquiredTwice limitedRequest none 5 := by
  have hrun : system.Admits ({} : EgressRuntime Unit) acquiredTwice := by decide +kernel
  have htask : (system.exec ({} : EgressRuntime Unit) acquiredTwice).tasks[1]? =
      some ⟨.acquire limitedRequest none, none, .finished (.ok (some 5)), []⟩ := by
    decide +kernel
  obtain ⟨-, -, -, -, -, hcached, -⟩ := proxies_not_orphaned hrun
  exact hcached _ (mem_of_getElem? htask) limitedRequest none 5 rfl rfl rfl

/-- The runtime is closed while the proxy is created: the sandbox is not terminated. -/
def closedWhileCreating : List (EgressRuntime.Label Unit) :=
  .call (.acquire limitedRequest none) :: steps 0 5 ++ .call .shutdown :: steps 1 3 ++ steps 0 3

/-- A termination has removed the entry and not closed the proxy yet. -/
def betweenRemoveAndClose : List (EgressRuntime.Label Unit) :=
  acquired ++ .call (.terminate "one") :: steps 1 4

/-- The runtime is shut down while an acquisition asks whether the cached sandbox runs. -/
def closedWhileRunning : List (EgressRuntime.Label Unit) :=
  acquired ++ .call (.acquire limitedRequest none) :: steps 1 4 ++
    .call .shutdown :: steps 2 4 ++ steps 1 3

/-- A failed acquisition without a termination; an open proxy that only a termination has; and an
acquisition that succeeds after the shutdown, which it had begun before. -/
theorem orphans_in_passing : (system.Admits {} closedWhileCreating ∧
      (system.exec {} closedWhileCreating).tasks[0]? = some ⟨.acquire limitedRequest none, none,
        .finished (.error shutDownMessage), [.create 0]⟩) ∧
    (system.Admits {} betweenRemoveAndClose ∧ (let r := system.exec {} betweenRemoveAndClose
      r.shared.isOpen 0 = true ∧ r.shared.sandboxes = [] ∧
        r.tasks.map (fun task ↦ (task.op, task.stage)) =
          [(.acquire limitedRequest none, .finished (.ok (some 5))),
            (.terminate "one", .closing 0)])) ∧
    system.Admits {} closedWhileRunning ∧
      (system.exec {} closedWhileRunning).tasks.map (fun task ↦ (task.op, task.stage)) =
        [(.acquire limitedRequest none, .finished (.ok (some 5))),
          (.acquire limitedRequest none, .finished (.ok (some 5))),
          (.shutdown, .finished (.ok none))] := by
  refine ⟨⟨?_, ?_⟩, ⟨?_, ?_⟩, ?_, ?_⟩
  all_goals decide +kernel

end Exo.Egress.Runtime
