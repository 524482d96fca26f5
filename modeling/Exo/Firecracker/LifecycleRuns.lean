import Mathlib.Data.List.TakeWhile
import Exo.Firecracker.LifecycleSteps

/-!
# One operation for each machine

The machine of a one-shot is in nobody's family, and its number was not given out before.  So nobody
has heard of it when its acquire comes to `ensure_machine`, and while it is there only the scans of
manifests can find it.  That carries the exclusion over to one-shots, and says that their VMs are
new.
-/

namespace Exo.Firecracker

open Library Function List Option

/-! ## Names -/

section
variable (sandboxId : String) (pid sequence : ℕ)

theorem toList_oneShotFamily : (MachineName.oneShotFamily sandboxId pid sequence).toList =
      (sandboxId.toList ++ '\n' :: Nat.toDigits 10 pid) ++ '\n' :: Nat.toDigits 10 sequence := by
  simp [MachineName.oneShotFamily, Nat.repr]

theorem not_plainId_oneShotFamily :
    ¬PlainId (MachineName.oneShotFamily sandboxId pid sequence) := by
  rw [PlainId, toList_oneShotFamily]
  simp

end

/-- The number is what follows the last line break. -/
theorem sequence_eq_of_oneShotFamily {sandboxId sandboxId' : String}
    {pid pid' sequence sequence' : ℕ}
    (hfamily : MachineName.oneShotFamily sandboxId pid sequence =
      MachineName.oneShotFamily sandboxId' pid' sequence') : sequence = sequence' := by
  have hlast (before : List Char) (number : ℕ) :
      (before ++ '\n' :: Nat.toDigits 10 number).reverse.takeWhile (· ≠ '\n') =
        (Nat.toDigits 10 number).reverse := by
    have hdigits : ∀ c ∈ (Nat.toDigits 10 number).reverse, decide (c ≠ '\n') = true := by
      intro c hc
      have hdigit := Nat.isDigit_of_mem_toDigits (by decide) (by decide) (mem_reverse.1 hc)
      rw [decide_eq_true_eq]
      intro hbreak
      rw [hbreak] at hdigit
      cases hdigit
    rw [reverse_append, reverse_cons, append_assoc, takeWhile_append_of_pos hdigits]
    simp
  have hsame := congrArg (fun family : String ↦ family.toList.reverse.takeWhile (· ≠ '\n')) hfamily
  simp only [toList_oneShotFamily, hlast] at hsame
  have hvalue := congrArg (Nat.ofDigitChars 10 · 0) (reverse_injective hsame)
  simpa only [Nat.ofDigitChars_ten_toDigits] using hvalue

section OneShotRuns
variable {state state' : LifecycleState} {label : LifecycleLabel}

/-! ## One-shots -/

section
variable (state : LifecycleState)

/-- Nobody has heard of the machine. -/
structure LifecycleState.Untouched (machine : MachineName) : Prop where
  absent : state.machines machine = none
  handles : ∀ handle ∈ state.handles, handle.machine ≠ machine
  tasks : ∀ task running, state.tasks task = some running → running.op.machine? ≠ some machine

/-- The task is alone with the machine, which has no VM yet. -/
structure LifecycleState.Alone (task : ℕ) (machine : MachineName) :
    Prop where
  inside : ∀ other running inside, state.tasks other = some running →
    running.inside = some inside → inside.machine = machine → other = task
  handles : ∀ handle ∈ state.handles, handle.machine ≠ machine
  tasks : ∀ other running, state.tasks other = some running → running.op ≠ .handle machine
  unbooted : ∀ stored, state.machines machine = some stored → stored.vm = none ∧ stored.ttl = false

/-- The number is not given out yet, or its acquire has not come to `ensure_machine`. -/
def LifecycleState.Unused (sequence : ℕ) : Prop :=
  state.sequence ≤ sequence ∨ ∃ task running, state.tasks task = some running ∧
    running.op.sequence? = some sequence ∧ running.ensured = false

structure LifecycleState.OneShots : Prop where
  numbered : ∀ task running sequence, state.tasks task = some running →
    running.op.sequence? = some sequence → sequence < state.sequence
  unique : ∀ task other running running' sequence, state.tasks task = some running →
    state.tasks other = some running' → running.op.sequence? = some sequence →
    running'.op.sequence? = some sequence → task = other
  untouched : ∀ machine sandboxId sequence,
    machine.family = MachineName.oneShotFamily sandboxId state.pid sequence →
    state.Unused sequence → state.Untouched machine
  alone : ∀ task running machine specHash runtime ttl, state.tasks task = some running →
    running.op.sequence? ≠ none → running.inside = some (.ensure machine specHash runtime ttl) →
    state.Alone task machine

end

variable {running : LifecycleTask} {inside : LifecycleSection} {sandboxId : String}
  {sequence task other : ℕ} {machine : MachineName}
  {pid : ℕ} {specHash runtime : String} {ttl : Bool} {op : LifecycleOp}
  {running' : LifecycleTask}

/-- Who may be on the machine of a one-shot: an operation on that machine, or the one-shot. -/
theorem mayEnter_oneShot (hplain : ∀ sandboxId ∈ running.op.sandboxIds, PlainId sandboxId)
    (hmayEnter : running.op.MayEnter pid inside)
    (hfamily : inside.machine.family = MachineName.oneShotFamily sandboxId pid sequence) :
    running.op.machine? = some inside.machine ∨
      running.op.sequence? = some sequence ∧ ∃ specHash runtime,
        inside = .ensure inside.machine specHash runtime false := by
  rcases mayEnter_cases hmayEnter with hsandbox | hmachine | ⟨sandboxId', specHash, runtime,
    sequence', hop, hinside⟩
  · exact absurd (hfamily ▸ hplain _ hsandbox) (not_plainId_oneShotFamily _ _ _)
  · exact .inl hmachine
  · rw [hinside] at hfamily
    have hsequence := sequence_eq_of_oneShotFamily hfamily
    rw [hop, hinside]
    exact .inr ⟨congrArg some hsequence, specHash, runtime, rfl⟩

namespace LifecycleState

/-- The machine of a one-shot that is ensured. -/
theorem Locked.oneShot (hlocked : state.Locked)
    (hrunning : state.tasks task = some running) (honeShot : running.op.sequence? ≠ none)
    (hinside : running.inside = some (.ensure machine specHash runtime ttl)) :
    ttl = false ∧ ∃ sandboxId sequence, running.op.sequence? = some sequence ∧
      machine.family = MachineName.oneShotFamily sandboxId state.pid sequence := by
  have hmayEnter := (hlocked.inside task running _ hrunning hinside).2.2
  cases hop : running.op with
  | acquire sandboxId specHash' runtime' sequence =>
    cases sequence with
    | none =>
      rw [hop] at honeShot
      exact absurd rfl honeShot
    | some sequence =>
      rw [hop] at hmayEnter
      obtain ⟨rfl, -, -, httl⟩ := hmayEnter
      exact ⟨httl, sandboxId, sequence, rfl, rfl⟩
  | _ =>
    rw [hop] at honeShot
    exact absurd rfl honeShot

/-- Nobody is on a machine whose number is unused. -/
theorem OneShots.not_inside (hones : state.OneShots) (hlocked : state.Locked)
    (hfamily : machine.family = MachineName.oneShotFamily sandboxId state.pid sequence)
    (hunused : state.Unused sequence) (hrunning : state.tasks task = some running)
    (hinside : running.inside = some inside) : inside.machine ≠ machine := by
  intro hsame
  have hmayEnter := (hlocked.inside task running inside hrunning hinside).2.2
  rcases mayEnter_oneShot (hlocked.plain task running hrunning) hmayEnter (hsame ▸ hfamily) with
    hmachine | ⟨hsequence, specHash, runtime, hensure⟩
  · exact (hones.untouched machine sandboxId sequence hfamily hunused).tasks task running hrunning
      (hsame ▸ hmachine)
  · rcases hunused with hlater | ⟨other, running', hrunning', hsequence', hensured'⟩
    · have hless := hones.numbered task running sequence hrunning hsequence
      omega
    · have hother := hones.unique task other running running' sequence hrunning hrunning' hsequence
        hsequence'
      rw [← hother, hrunning] at hrunning'
      cases hrunning'
      rw [hensure] at hinside
      rw [hlocked.ensured task running _ _ _ _ hrunning hinside] at hensured'
      cases hensured'

section
variable (hones : state.OneShots) (hpid : state'.pid = state.pid)
  (hsequence : state'.sequence = state.sequence)
include hones hpid hsequence

/-- A step that starts nothing: which operations there are, and which have not come to
`ensure_machine`, was so before. -/
theorem OneShots.carry
    (hold : ∀ task running, state'.tasks task = some running → ∃ old, state.tasks task = some old ∧
      old.op = running.op ∧ (running.ensured = false → old.ensured = false))
    (hunheard : ∀ machine sandboxId sequence,
      machine.family = MachineName.oneShotFamily sandboxId state.pid sequence →
      state.Unused sequence → state.Untouched machine →
      state'.machines machine = none ∧ ∀ handle ∈ state'.handles, handle.machine ≠ machine)
    (halone : ∀ task running machine specHash runtime ttl, state'.tasks task = some running →
      running.op.sequence? ≠ none → running.inside = some (.ensure machine specHash runtime ttl) →
      state'.Alone task machine) : state'.OneShots := by
  constructor
  case numbered =>
    intro task running sequence hrunning hnumber
    obtain ⟨old, hold, hop, -⟩ := hold task running hrunning
    rw [hsequence]
    exact hones.numbered task old sequence hold (hop ▸ hnumber)
  case unique =>
    intro task other running running' sequence hrunning hrunning' hnumber hnumber'
    obtain ⟨old, htask, hop, -⟩ := hold task running hrunning
    obtain ⟨old', hother, hop', -⟩ := hold other running' hrunning'
    exact hones.unique task other old old' sequence htask hother (hop ▸ hnumber) (hop' ▸ hnumber')
  case untouched =>
    intro machine sandboxId sequence hfamily hunused
    rw [hpid] at hfamily
    have hunused' : state.Unused sequence := by
      rcases hunused with hlater | ⟨task, running, hrunning, hnumber, hensured⟩
      · exact .inl (hsequence ▸ hlater)
      · obtain ⟨old, hold, hop, hbefore⟩ := hold task running hrunning
        exact .inr ⟨task, old, hold, hop ▸ hnumber, hbefore hensured⟩
    have huntouched := hones.untouched machine sandboxId sequence hfamily hunused'
    obtain ⟨habsent, hhandles⟩ := hunheard machine sandboxId sequence hfamily hunused' huntouched
    refine ⟨habsent, hhandles, fun task running hrunning ↦ ?_⟩
    obtain ⟨old, hold, hop, -⟩ := hold task running hrunning
    exact hop ▸ huntouched.tasks task old hold
  case alone => exact halone

/-- A step that starts nothing and enters nothing: what the tasks are and where they are was so
before, and no machine gains a manifest, a VM or a TTL. -/
theorem OneShots.calm (htasks : ∀ task running', state'.tasks task = some running' →
      ∃ running, state.tasks task = some running ∧ running.op = running'.op ∧
        running.inside = running'.inside ∧ running.ensured = running'.ensured)
    (hhandles : ∀ handle ∈ state'.handles, handle ∈ state.handles)
    (hmachines : ∀ machine stored', state'.machines machine = some stored' →
      ∃ stored, state.machines machine = some stored ∧ (stored.vm = none → stored'.vm = none) ∧
        stored.ttl = stored'.ttl) : state'.OneShots := by
  have habsent (machine : MachineName) (hnone : state.machines machine = none) :
      state'.machines machine = none := by
    cases hstored : state'.machines machine with
    | none => rfl
    | some stored' =>
      obtain ⟨stored, hsome, -⟩ := hmachines machine stored' hstored
      rw [hnone] at hsome
      cases hsome
  have hold (task : ℕ) (running' : LifecycleTask) (hrunning' : state'.tasks task = some running') :
      ∃ running, state.tasks task = some running ∧ running.op = running'.op ∧
        (running'.ensured = false → running.ensured = false) := by
    obtain ⟨running, hrunning, hop, -, hensured⟩ := htasks task running' hrunning'
    exact ⟨running, hrunning, hop, hensured.trans⟩
  refine hones.carry hpid hsequence hold ?_ ?_
  · intro machine sandboxId sequence hfamily hunused huntouched
    exact ⟨habsent machine huntouched.absent,
      fun handle hmem ↦ huntouched.handles handle (hhandles handle hmem)⟩
  · intro task running' machine specHash runtime ttl hrunning' hnumber hinside
    obtain ⟨running, hrunning, hop, hsame, -⟩ := htasks task running' hrunning'
    obtain ⟨hin, hhandle, htask, hunbooted⟩ := hones.alone task running machine specHash runtime ttl
      hrunning (hop ▸ hnumber) (hsame.trans hinside)
    refine ⟨fun other found inside hfound hfinside hmachine ↦ ?_,
      fun handle hmem ↦ hhandle handle (hhandles handle hmem), fun other found hfound ↦ ?_,
      fun stored' hstored' ↦ ?_⟩
    · obtain ⟨old, hold, -, hoinside, -⟩ := htasks other found hfound
      exact hin other old inside hold (hoinside.trans hfinside) hmachine
    · obtain ⟨old, hold, hoop, -, -⟩ := htasks other found hfound
      exact hoop ▸ htask other old hold
    · obtain ⟨stored, hstored, hvm, httl⟩ := hmachines machine stored' hstored'
      obtain ⟨hnovm, hnottl⟩ := hunbooted stored hstored
      exact ⟨hvm hnovm, httl ▸ hnottl⟩

end

/-- A call can only name a machine that somebody has heard of. -/
theorem Untouched.not_startable (huntouched : state.Untouched machine)
    (hfamily : machine.family = MachineName.oneShotFamily sandboxId pid sequence)
    (hstartable : state.Startable op) : op.machine? ≠ some machine := by
  intro hmachine
  cases op with
  | acquire | restore | shutdown | fork => cases hmachine
  | terminateAll | reapStale =>
    cases hmachine
    exact hstartable huntouched.absent
  | reapExpired =>
    cases hmachine
    rcases hstartable with hstored | hplain
    · exact hstored huntouched.absent
    · exact not_plainId_oneShotFamily sandboxId pid sequence (hfamily ▸ hplain)
  | handle =>
    cases hmachine
    obtain ⟨handle, hmem, hsame⟩ := hstartable
    exact huntouched.handles handle hmem hsame

theorem OneShots.begin (hones : state.OneShots) (hstartable : state.Startable op) : ({ state with
      tasks := Function.update state.tasks task (some ⟨op, op.keys, none, false, false⟩)
      sequence := if op.sequence?.isSome then state.sequence + 1 else state.sequence } :
        LifecycleState).OneShots := by
  have hle : state.sequence ≤
      if op.sequence?.isSome then state.sequence + 1 else state.sequence := by
    split_ifs <;> omega
  -- A new number is the next one.
  have hnew (sequence : ℕ) (hnumber : op.sequence? = some sequence) :
      sequence = state.sequence ∧
        sequence < if op.sequence?.isSome then state.sequence + 1 else state.sequence := by
    have hnext : sequence = state.sequence := by
      cases op with
      | acquire sandboxId specHash runtime number => exact hstartable sequence hnumber
      | _ => cases hnumber
    rw [hnumber, isSome_some, if_pos rfl]
    omega
  constructor
  case numbered =>
    intro other found sequence hfound hnumber
    rcases update_task_cases hfound with ⟨-, rfl⟩ | ⟨-, hold⟩
    · exact (hnew sequence hnumber).2
    · exact lt_of_lt_of_le (hones.numbered other found sequence hold hnumber) hle
  case unique =>
    intro first second found found' sequence hfound hfound' hnumber hnumber'
    rcases update_task_cases hfound with ⟨rfl, rfl⟩ | ⟨-, hold⟩
    · rcases update_task_cases hfound' with ⟨rfl, -⟩ | ⟨-, hold'⟩
      · rfl
      · have hless := hones.numbered second found' sequence hold' hnumber'
        have heq := (hnew sequence hnumber).1
        omega
    · rcases update_task_cases hfound' with ⟨rfl, rfl⟩ | ⟨-, hold'⟩
      · have hless := hones.numbered first found sequence hold hnumber
        have heq := (hnew sequence hnumber').1
        omega
      · exact hones.unique first second found found' sequence hold hold' hnumber hnumber'
  case untouched =>
    intro machine sandboxId sequence hfamily hunused
    have hunused' : state.Unused sequence := by
      rcases hunused with hlater | ⟨other, found, hfound, hnumber, hensured⟩
      · exact .inl (le_trans hle hlater)
      · rcases update_task_cases hfound with ⟨-, rfl⟩ | ⟨-, hold⟩
        · exact .inl (le_of_eq (hnew sequence hnumber).1.symm)
        · exact .inr ⟨other, found, hold, hnumber, hensured⟩
    have huntouched := hones.untouched machine sandboxId sequence hfamily hunused'
    refine ⟨huntouched.absent, huntouched.handles, fun other found hfound ↦ ?_⟩
    rcases update_task_cases hfound with ⟨-, rfl⟩ | ⟨-, hold⟩
    · exact huntouched.not_startable hfamily hstartable
    · exact huntouched.tasks other found hold
  case alone =>
    intro first found machine specHash runtime ttl hfound hnumber hinside
    rcases update_task_cases hfound with ⟨-, rfl⟩ | ⟨-, hold⟩
    · cases hinside
    have halone := hones.alone first found machine specHash runtime ttl hold hnumber hinside
    refine ⟨fun other found' inside hfound' hinside' hmachine ↦ ?_, halone.handles,
      fun other found' hfound' ↦ ?_, halone.unbooted⟩
    · rcases update_task_cases hfound' with ⟨-, rfl⟩ | ⟨-, hold'⟩
      · cases hinside'
      · exact halone.inside other found' inside hold' hinside' hmachine
    · rcases update_task_cases hfound' with ⟨-, rfl⟩ | ⟨-, hold'⟩
      · intro hop
        cases hop
        obtain ⟨handle, hmem, hsame⟩ := hstartable
        exact halone.handles handle hmem hsame
      · exact halone.tasks other found' hold'

/-- Nobody enters the machine of a one-shot that is ensured. -/
theorem Alone.not_entered (halone : state.Alone task machine)
    (hlocked : state.Locked) (hones : state.OneShots) {ensuring : LifecycleTask}
    (hensuring : state.tasks task = some ensuring) (honeShot : ensuring.op.sequence? ≠ none)
    (hinside : ensuring.inside = some (.ensure machine specHash runtime ttl))
    (hrunning : state.tasks other = some running) (hmayEnter : running.op.MayEnter state.pid inside)
    (hpermitted : state.Permitted running inside) (hseparate : state.Separate (.enter other inside))
    (hmachine : inside.machine = machine) : other = task := by
  obtain ⟨-, sandboxId, sequence, hsequence, hfamily⟩ := hlocked.oneShot hensuring honeShot hinside
  rcases mayEnter_oneShot (hlocked.plain other running hrunning) hmayEnter (hmachine ▸ hfamily) with
    hop | ⟨hnumber, -⟩
  · rw [hmachine] at hop
    cases hkind : running.op with
    | acquire | restore | shutdown | fork =>
      rw [hkind] at hop
      cases hop
    | terminateAll found =>
      rw [hkind] at hop hmayEnter
      cases hop
      cases inside with
      | cleanup cleaned =>
        cases hmayEnter
        exact absurd hinside
          (hseparate ⟨running, hrunning, hkind⟩ task ensuring hensuring honeShot _ _ _)
      | _ => cases hmayEnter
    | reapStale found =>
      rw [hkind] at hop hmayEnter
      cases hop
      cases inside with
      | cleanup cleaned =>
        cases hmayEnter
        rw [Permitted, hkind] at hpermitted
        exact absurd hinside (hpermitted.2 task ensuring hensuring _ _ _)
      | _ => cases hmayEnter
    | reapExpired found =>
      rw [hkind] at hop hmayEnter
      cases hop
      cases inside with
      | cleanup cleaned =>
        cases hmayEnter
        rw [Permitted, hkind] at hpermitted
        obtain ⟨stored, hstored, httl⟩ := hpermitted
        rw [(halone.unbooted stored hstored).2] at httl
        cases httl
      | _ => cases hmayEnter
    | handle found =>
      rw [hkind] at hop
      cases hop
      exact absurd hkind (halone.tasks other running hrunning)
  · exact hones.unique other task running ensuring sequence hrunning hensuring hnumber hsequence

section
variable (hones : state.OneShots) (hlocked : state.Locked)
  (hrunning : state.tasks task = some running)
include hones hlocked hrunning

theorem OneShots.enter (hmayEnter : running.op.MayEnter state.pid inside)
    (hpermitted : state.Permitted running inside)
    (hseparate : state.Separate (.enter task inside)) :
    ({ state with
      tasks := Function.update state.tasks task
        (some (enterTask running inside)) } : LifecycleState).OneShots := by
  have hold (other : ℕ) (found : LifecycleTask) (hfound : update state.tasks task
        (some (enterTask running inside)) other = some found) :
      ∃ old, state.tasks other = some old ∧ old.op = found.op ∧
        (found.ensured = false → old.ensured = false) := by
    rcases update_task_cases hfound with ⟨rfl, rfl⟩ | ⟨-, hold⟩
    · refine ⟨running, hrunning, rfl, fun hensured ↦ ?_⟩
      cases inside with
      | ensure => cases hensured
      | _ => exact hensured
    · exact ⟨found, hold, rfl, id⟩
  refine hones.carry rfl rfl hold ?_ ?_
  · exact fun _ _ _ _ _ huntouched ↦ ⟨huntouched.absent, huntouched.handles⟩
  · intro first found machine specHash runtime ttl hfound hnumber hensure
    -- Either the task enters now, or it was there before.
    rcases update_task_cases hfound with ⟨rfl, rfl⟩ | ⟨hne, hfirst⟩
    · cases hensure
      have hfamily : ∃ sandboxId sequence, running.op.sequence? = some sequence ∧
          machine.family = MachineName.oneShotFamily sandboxId state.pid sequence := by
        cases hop : running.op with
        | acquire sandboxId specHash' runtime' sequence =>
          cases sequence with
          | none => exact absurd (congrArg LifecycleOp.sequence? hop) hnumber
          | some sequence =>
            rw [hop] at hmayEnter
            exact ⟨sandboxId, sequence, rfl, by rw [hmayEnter.1]; rfl⟩
        | _ => exact absurd (congrArg LifecycleOp.sequence? hop) hnumber
      obtain ⟨sandboxId, sequence, hsequence, hfamily⟩ := hfamily
      have hunused : state.Unused sequence := .inr ⟨first, running, hrunning, hsequence, hpermitted⟩
      have huntouched := hones.untouched machine sandboxId sequence hfamily hunused
      refine ⟨fun other found inside hfound hinside' hmachine ↦ ?_, huntouched.handles,
        fun other found hfound hop ↦ ?_, fun stored hstored ↦ ?_⟩
      · rcases update_task_cases hfound with ⟨rfl, -⟩ | ⟨-, hother⟩
        · rfl
        · exact absurd hmachine (hones.not_inside hlocked hfamily hunused hother hinside')
      · obtain ⟨old, hother, hsame, -⟩ := hold other found hfound
        refine huntouched.tasks other old hother ?_
        rw [hsame, hop]
        rfl
      · rw [huntouched.absent] at hstored
        cases hstored
    · have halone := hones.alone first found machine specHash runtime ttl hfirst hnumber hensure
      refine ⟨fun other found' inside' hfound' hinside' hmachine ↦ ?_, halone.handles,
        fun other found' hfound' ↦ ?_, halone.unbooted⟩
      · rcases update_task_cases hfound' with ⟨rfl, rfl⟩ | ⟨-, hother⟩
        · cases hinside'
          exact halone.not_entered hlocked hones hfirst hnumber hensure hrunning hmayEnter
            hpermitted hseparate hmachine
        · exact halone.inside other found' inside' hother hinside' hmachine
      · obtain ⟨old, hother, hsame, -⟩ := hold other found' hfound'
        exact hsame ▸ halone.tasks other old hother

/-- A step of a task in a section, which only changes the section's machine and its handles. -/
theorem OneShots.within (hinside : running.inside = some inside)
    (hpid : state'.pid = state.pid) (hsequence : state'.sequence = state.sequence)
    (htasks : state'.tasks = Function.update state.tasks task (some running'))
    (hop : running'.op = running.op) (hensured : running'.ensured = running.ensured)
    (hstays : running'.inside = none ∨ running'.inside = running.inside)
    (hmachines : ∀ machine, machine ≠ inside.machine →
      state'.machines machine = state.machines machine)
    (hhandles : ∀ handle ∈ state'.handles, handle ∈ state.handles ∨
      running'.inside = none ∧ handle.machine = inside.machine)
    (hunbooted : running'.inside = running.inside → ∀ machine specHash runtime ttl,
      inside = .ensure machine specHash runtime ttl → running.op.sequence? ≠ none →
      ∀ stored, state'.machines machine = some stored → stored.vm = none ∧ stored.ttl = false) :
    state'.OneShots := by
  have hold (other : ℕ) (found : LifecycleTask) (hfound : state'.tasks other = some found) :
      ∃ old, state.tasks other = some old ∧ old.op = found.op ∧ old.ensured = found.ensured ∧
        ∀ inside, found.inside = some inside → old.inside = some inside := by
    rw [htasks] at hfound
    rcases update_task_cases hfound with ⟨rfl, rfl⟩ | ⟨-, hother⟩
    · refine ⟨running, hrunning, hop.symm, hensured.symm, fun inside' hinside' ↦ ?_⟩
      rcases hstays with hnone | hsame
      · rw [hnone] at hinside'
        cases hinside'
      · exact hsame ▸ hinside'
    · exact ⟨found, hother, rfl, rfl, fun _ ↦ id⟩
  refine hones.carry hpid hsequence ?_ ?_ ?_
  · intro other found hfound
    obtain ⟨old, hother, hsame, hsame', -⟩ := hold other found hfound
    exact ⟨old, hother, hsame, hsame'.trans⟩
  · intro machine sandboxId sequence hfamily hunused huntouched
    have hne := hones.not_inside hlocked hfamily hunused hrunning hinside
    refine ⟨(hmachines machine hne.symm).trans huntouched.absent, fun handle hmem ↦ ?_⟩
    rcases hhandles handle hmem with hmem | ⟨-, hsame⟩
    · exact huntouched.handles handle hmem
    · exact hsame ▸ hne
  · intro first found machine specHash runtime ttl hfound hnumber hensure
    obtain ⟨old, hfirst, hsame, -, hin⟩ := hold first found hfound
    have halone := hones.alone first old machine specHash runtime ttl hfirst (hsame ▸ hnumber)
      (hin _ hensure)
    -- If the section is on this machine, then the task is the one-shot's own.
    have hown (hmachine : inside.machine = machine) : task = first :=
      halone.inside task running inside hrunning hinside hmachine
    refine ⟨fun other found' inside' hfound' hinside' hmachine ↦ ?_, fun handle hmem ↦ ?_,
      fun other found' hfound' ↦ ?_, fun stored hstored ↦ ?_⟩
    · obtain ⟨old', hother, -, -, hin'⟩ := hold other found' hfound'
      exact halone.inside other old' inside' hother (hin' _ hinside') hmachine
    · rcases hhandles handle hmem with hmem | ⟨hnone, hsame'⟩
      · exact halone.handles handle hmem
      · intro hmachine
        have htask := hown (hsame'.symm.trans hmachine)
        rw [htasks, ← htask, update_self] at hfound
        cases hfound
        rw [hnone] at hensure
        cases hensure
    · obtain ⟨old', hother, hsame', -⟩ := hold other found' hfound'
      exact hsame' ▸ halone.tasks other old' hother
    · by_cases hmachine : machine = inside.machine
      · have htask := hown hmachine.symm
        rw [htasks, ← htask, update_self] at hfound
        cases hfound
        have hkept : running'.inside = running.inside := by
          rcases hstays with hnone | hkept
          · rw [hnone] at hensure
            cases hensure
          · exact hkept
        rw [hkept, hinside] at hensure
        exact hunbooted hkept machine specHash runtime ttl (some.inj hensure)
          (hop ▸ hnumber) stored hstored
      · exact halone.unbooted stored (hmachines machine hmachine ▸ hstored)

end

theorem OneShots.fresh (pid : ℕ) : (fresh pid).OneShots where
  numbered _ _ _ hrunning := by cases hrunning
  unique _ _ _ _ _ hrunning := by cases hrunning
  untouched _ _ _ _ _ :=
    ⟨rfl, (fun _ hmem ↦ by cases hmem), (fun _ _ hrunning ↦ by cases hrunning)⟩
  alone _ _ _ _ _ _ hrunning := by cases hrunning

theorem OneShots.steps (hones : state.OneShots) (hlocked : state.Locked)
    (hseparate : state.Separate label) (hstep : LifecycleSteps state label state') :
    state'.OneShots := by
  cases hstep with
  | begin hnone hstartable => exact hones.begin hstartable
  | @request task running key remaining hrunning hremaining hwaits =>
    refine hones.calm rfl rfl (fun other found hfound ↦ ?_) (fun _ ↦ id)
      fun machine stored hstored ↦ ⟨stored, hstored, id, rfl⟩
    rcases update_task_cases hfound with ⟨rfl, rfl⟩ | ⟨-, hold⟩
    · exact ⟨running, hrunning, rfl, rfl, rfl⟩
    · exact ⟨found, hold, rfl, rfl, rfl⟩
  | grant hgrantable =>
    exact hones.calm rfl rfl (fun _ found hfound ↦ ⟨found, hfound, rfl, rfl, rfl⟩)
      (fun _ ↦ id) fun _ stored hstored ↦ ⟨stored, hstored, id, rfl⟩
  | @enter task running inside hrunning hremaining hwaits hinside hmayEnter hpermitted =>
    exact hones.enter hlocked hrunning hmayEnter hpermitted hseparate
  | @record task running machine specHash runtime ttl hrunning hinside =>
    refine hones.within hlocked hrunning hinside rfl rfl rfl rfl rfl (.inr rfl)
      (fun other hne ↦ update_of_ne hne _ _) (fun _ hmem ↦ .inl hmem) ?_
    intro _ machine' specHash' runtime' ttl' hsame honeShot stored hstored
    cases hsame
    have halone := hones.alone task running machine specHash runtime ttl hrunning honeShot hinside
    obtain ⟨httl, -⟩ := hlocked.oneShot hrunning honeShot hinside
    simp only [update_self, some.injEq] at hstored
    rw [← hstored]
    cases hfound : state.machines machine with
    | none => exact ⟨rfl, httl⟩
    | some found =>
      rw [recordMachine]
      split_ifs
      · exact halone.unbooted found hfound
      · exact ⟨rfl, httl⟩
  | @leave task running inside outcome hrunning hinside hpossible =>
    refine hones.within hlocked hrunning hinside rfl rfl rfl rfl rfl (.inl rfl)
      (fun other hne ↦ update_of_ne hne _ _) (fun handle hmem ↦ ?_) fun hsame ↦ ?_
    · rcases mem_append.1 hmem with hnew | hold
      · obtain ⟨ttl, hensure, -⟩ := leaveHandle_eq_some hpossible (mem_toList.1 hnew)
        exact .inr ⟨rfl, congrArg LifecycleSection.machine hensure.symm⟩
      · exact .inl hold
    · rw [hinside] at hsame
      cases hsame
  | @finish task running hrunning hinside hwaits =>
    refine hones.calm rfl rfl (fun other found hfound ↦ ?_) (fun _ ↦ id)
      fun machine stored hstored ↦ ⟨stored, hstored, id, rfl⟩
    exact ⟨found, (update_finished_eq_some hfound).2, rfl, rfl, rfl⟩
  | @exits machine =>
    refine hones.calm rfl rfl (fun _ found hfound ↦ ⟨found, hfound, rfl, rfl, rfl⟩)
      (fun _ ↦ id) fun other stored hstored ↦ ?_
    simp only [update_apply] at hstored
    split_ifs at hstored with heq
    · obtain ⟨old, hold, rfl⟩ := map_eq_some_iff.1 hstored
      exact ⟨old, heq ▸ hold, fun _ ↦ rfl, rfl⟩
    · exact ⟨stored, hstored, id, rfl⟩
  | @drop index =>
    exact hones.calm rfl rfl (fun _ found hfound ↦ ⟨found, hfound, rfl, rfl, rfl⟩)
      (fun _ hmem ↦ mem_of_mem_eraseIdx hmem) fun _ stored hstored ↦ ⟨stored, hstored, id, rfl⟩
  | @restart pid =>
    refine ⟨(fun _ _ _ hrunning ↦ by cases hrunning), (fun _ _ _ _ _ hrunning ↦ by cases hrunning),
      fun machine sandboxId sequence hfamily _ ↦ ?_,
      (fun _ _ _ _ _ _ hrunning ↦ by cases hrunning)⟩
    refine ⟨?_, (fun _ hmem ↦ by cases hmem), (fun _ _ hrunning ↦ by cases hrunning)⟩
    by_contra hstored
    exact hseparate machine hstored sandboxId sequence hfamily

/-- One operation at a time is in a section on a machine. -/
theorem OneShots.exclusive (hones : state.OneShots) (hlocked : state.Locked)
    {inside' : LifecycleSection} (hrunning : state.tasks task = some running)
    (hrunning' : state.tasks other = some running') (hinside : running.inside = some inside)
    (hinside' : running'.inside = some inside') (hmachine : inside.machine = inside'.machine) :
    task = other := by
  have hcovered {task : ℕ} {running : LifecycleTask} {inside : LifecycleSection}
      (hrunning : state.tasks task = some running) (hinside : running.inside = some inside) :
      inside.machine.family ∈ running.op.keys ∨ state.Alone task inside.machine := by
    rcases mayEnter_cases (hlocked.inside task running inside hrunning hinside).2.2 with
      hsandbox | hop | ⟨sandboxId, specHash, runtime, sequence, hop, hensure⟩
    · exact .inl (mem_keys (.inl hsandbox))
    · exact .inl (mem_keys (.inr hop))
    · have honeShot : running.op.sequence? ≠ none := by
        rw [hop]
        exact some_ne_none sequence
      rw [hensure] at hinside ⊢
      exact .inr (hones.alone task running _ _ _ _ hrunning honeShot hinside)
  rcases hcovered hrunning hinside with hkey | halone
  · rcases hcovered hrunning' hinside' with hkey' | halone'
    · exact hlocked.exclusive hrunning hrunning' hinside hinside' hkey (hmachine ▸ hkey')
    · exact halone'.inside task running inside hrunning hinside hmachine
  · exact (halone.inside other running' inside' hrunning' hinside' hmachine.symm).symm

end LifecycleState

end OneShotRuns

end Exo.Firecracker
