import Exo.Library.System
import Exo.Scheduler.Tasks

/-!
# Passes against disabling and deleting

The stored record of one task and the calls that work on it.  A pass reads the record when it is
due, writes its lease, plans, writes its copy after every fire and once more when it resumes; the
disable and delete tools read the record and then write or remove it.  Every write puts the whole
copy back, however long ago it was read.  A copy is stale once the record has been disabled or
deleted since; exactly the writes of stale copies undo what the user asked for.
-/

namespace Exo.Scheduler

open Library Option

/-- How many times the record had been disabled and removed at some moment. -/
structure Seen where
  disables : ℕ
  deletes : ℕ

/-- Where a call stands: a pass between its read and its last write, or one of the tools between
its read and its write. -/
inductive Stage where
  | claiming
  | ready
  | firing (plan : MissedFirePlan) (remaining : List ℕ)
  | disabling
  | deleting

/-- A call in flight, with its copy of the record and what had happened when it was read. -/
structure Call where
  task : ScheduledTaskRecord
  stage : Stage
  seen : Seen

/-- The next thing a call does; `abandon` is a crash or an error that ends it. -/
inductive Action where
  | claim (leaseId nowMs leaseMs : ℕ)
  | plan (nowMs : ℕ)
  | fire (run : ScheduledTaskRunRecord)
  | resume (nowMs : ℕ)
  | disable (nowMs : ℕ)
  | remove
  | abandon

/-- What an action does to the stored record. -/
inductive Write where
  | keep
  | put (task : ScheduledTaskRecord)
  | remove

/-- The calls that read the record. -/
inductive Request where
  | due (nowMs : ℕ)
  | onDemand
  | disable
  | delete

structure TaskStore where
  stored : Option ScheduledTaskRecord
  calls : List Call
  done : Seen

inductive PassLabel where
  | request (request : Request)
  | act (index : ℕ) (action : Action)

section Calls
variable (parseRfc3339 : TimestampParser)

/-- One step of a call: what it writes and what is left of it.  `fire` is the end of `fire_once`,
and the loop over the slots stops when the copy has been disabled. -/
def Call.act (call : Call) : Action → Option (Write × Option Call)
  | .claim leaseId nowMs leaseMs =>
    match call.stage with
    | .claiming =>
      let task := call.task.claim leaseId nowMs leaseMs
      some (.put task, some { call with task := task, stage := .ready })
    | _ => none
  | .plan nowMs =>
    match call.stage with
    | .ready =>
      match call.task.planMissedFires parseRfc3339 nowMs with
      | .ok plan => some (.keep, some { call with stage := .firing plan plan.fireSlots })
      | .error _ => some (.keep, none)
    | _ => none
  | .fire run =>
    match call.stage with
    | .firing plan (_ :: remaining) =>
      let task := call.task.recordRun run
      let remaining := if task.enabled then remaining else []
      some (.put task, some { call with task := task, stage := .firing plan remaining })
    | _ => none
  | .resume nowMs =>
    match call.stage with
    | .firing plan [] => some (.put (call.task.resumeAfterFires plan nowMs), none)
    | _ => none
  | .disable nowMs =>
    match call.stage with
    | .disabling => some (.put { call.task with enabled := false, updatedAtMs := nowMs }, none)
    | _ => none
  | .remove =>
    match call.stage with
    | .deleting => some (.remove, none)
    | _ => none
  | .abandon => some (.keep, none)

/-- The call a request starts, unless it finds nothing. -/
def Request.call (request : Request) (task : ScheduledTaskRecord) (seen : Seen) : Option Call :=
  match request with
  | .due nowMs => if task.isDue nowMs then some ⟨task, .claiming, seen⟩ else none
  | .onDemand => some ⟨task, .ready, seen⟩
  | .disable => some ⟨task, .disabling, seen⟩
  | .delete => some ⟨task, .deleting, seen⟩

/-- Count a write of one of the tools. -/
def Seen.count (seen : Seen) (action : Action) : Seen :=
  match action with
  | .disable _ => { seen with disables := seen.disables + 1 }
  | .remove => { seen with deletes := seen.deletes + 1 }
  | _ => seen

def TaskStore.write (store : TaskStore) : Write → TaskStore
  | .keep => store
  | .put task => { store with stored := some task }
  | .remove => { store with stored := none }

/-- What the call at an index does in a state. -/
def TaskStore.action (store : TaskStore) (index : ℕ) (action : Action) :
    Option (Call × Write × Option Call) := do
  let call ← store.calls[index]?
  let result ← call.act parseRfc3339 action
  return (call, result)

/-- Any number of passes and tool calls on one task, step by step. -/
def passes : System TaskStore PassLabel where
  enabled store
    | .request _ => True
    | .act index action => (store.action parseRfc3339 index action).isSome = true
  next store
    | .request request =>
      { store with
        calls := store.calls ++ (store.stored.bind (request.call · store.done)).toList }
    | .act index action =>
      match store.action parseRfc3339 index action with
      | none => store
      | some (_, write, after) =>
        { store.write write with
          calls := match after with
            | some call => store.calls.set index call
            | none => store.calls.eraseIdx index
          done := store.done.count action }

instance (store : TaskStore) (label : PassLabel) :
    Decidable ((passes parseRfc3339).enabled store label) :=
  match label with
  | .request _ => isTrue trivial
  | .act index action =>
    inferInstanceAs (Decidable ((store.action parseRfc3339 index action).isSome = true))

/-- A disabled task stays disabled and a removed one stays removed; neither is ever due. -/
def Sticks (store : TaskStore) : Prop :=
  (0 < store.done.disables → ∀ task ∈ store.stored,
    task.enabled = false ∧ ∀ nowMs, task.isDue nowMs = false) ∧
  (0 < store.done.deletes → store.stored = none)

/-- A copy that was read at `seen` is not stale for this write: the record has not been removed
since, and if what is written is enabled, it has not been disabled either. -/
def Write.Fresh (seen done : Seen) : Write → Prop
  | .put task =>
    seen.deletes = done.deletes ∧ (task.enabled = true → seen.disables = done.disables)
  | _ => True

instance (seen done : Seen) (write : Write) : Decidable (write.Fresh seen done) :=
  match write with
  | .keep => isTrue trivial
  | .put task => inferInstanceAs (Decidable (_ ∧ (task.enabled = true → _)))
  | .remove => isTrue trivial

/-- The step writes no stale copy. -/
def WritesFresh (store : TaskStore) : PassLabel → Prop
  | .request _ => True
  | .act index action => ∀ step ∈ store.action parseRfc3339 index action,
    step.2.1.Fresh step.1.seen store.done

instance (store : TaskStore) (label : PassLabel) :
    Decidable (WritesFresh parseRfc3339 store label) :=
  match label with
  | .request _ => isTrue trivial
  | .act index action => inferInstanceAs (Decidable
      (∀ step ∈ store.action parseRfc3339 index action, step.2.1.Fresh step.1.seen store.done))

end Calls

section Steps
variable {parseRfc3339 : TimestampParser} {store : TaskStore}
  {task : ScheduledTaskRecord} {call : Call} {action : Action} {write : Write}
  {after : Option Call}

theorem recordRun_enabled {run : ScheduledTaskRunRecord}
    (henabled : (task.recordRun run).enabled = true) : task.enabled = true := by
  unfold ScheduledTaskRecord.recordRun ScheduledTaskRecord.markCompleted at henabled
  split at henabled
  · cases henabled
  · exact henabled

/-- What every step of a call does: it does not enable its copy or change what it has seen, and
the writes of the tools, which are the ones counted, disable or remove. -/
structure Acts (call : Call) (action : Action) (write : Write) (after : Option Call) : Prop where
  enabled : ∀ task, write = .put task → task.enabled = true → call.task.enabled = true
  rest : ∀ rest ∈ after, rest.seen = call.seen ∧
    (rest.task.enabled = true → call.task.enabled = true)
  counted : ∀ seen : Seen, (seen.count action = seen ∧ write ≠ .remove) ∨
    (seen.count action = { seen with disables := seen.disables + 1 } ∧
      ∃ task, write = .put task ∧ task.enabled = false) ∨
    (seen.count action = { seen with deletes := seen.deletes + 1 } ∧ write = .remove)

theorem Call.act_spec (hact : call.act parseRfc3339 action = some (write, after)) :
    Acts call action write after := by
  cases action with
  | claim leaseId nowMs leaseMs =>
    simp only [Call.act] at hact
    split at hact <;> cases hact
    refine ⟨?_, ?_, fun _ ↦ .inl ⟨rfl, by simp⟩⟩
    · rintro _ ⟨⟩ henabled
      exact henabled
    · rintro _ ⟨⟩
      exact ⟨rfl, id⟩
  | plan nowMs =>
    simp only [Call.act] at hact
    split at hact <;> try cases hact
    split at hact <;> cases hact
    · refine ⟨by simp, ?_, fun _ ↦ .inl ⟨rfl, by simp⟩⟩
      rintro _ ⟨⟩
      exact ⟨rfl, id⟩
    · exact ⟨by simp, by simp, fun _ ↦ .inl ⟨rfl, by simp⟩⟩
  | fire run =>
    simp only [Call.act] at hact
    split at hact <;> cases hact
    refine ⟨?_, ?_, fun _ ↦ .inl ⟨rfl, by simp⟩⟩
    · rintro _ ⟨⟩ henabled
      exact recordRun_enabled henabled
    · rintro _ ⟨⟩
      exact ⟨rfl, recordRun_enabled⟩
  | resume nowMs =>
    simp only [Call.act] at hact
    split at hact <;> cases hact
    refine ⟨?_, by simp, fun _ ↦ .inl ⟨rfl, by simp⟩⟩
    rintro _ ⟨⟩ henabled
    exact henabled
  | disable nowMs =>
    simp only [Call.act] at hact
    split at hact <;> cases hact
    refine ⟨?_, by simp, fun _ ↦ .inr (.inl ⟨rfl, _, rfl, rfl⟩)⟩
    rintro _ ⟨⟩ henabled
    cases henabled
  | remove =>
    simp only [Call.act] at hact
    split at hact <;> cases hact
    exact ⟨by simp, by simp, fun _ ↦ .inr (.inr ⟨rfl, rfl⟩)⟩
  | abandon =>
    cases hact
    exact ⟨by simp, by simp, fun _ ↦ .inl ⟨rfl, by simp⟩⟩

theorem action_eq_some {index : ℕ} :
    store.action parseRfc3339 index action = some (call, write, after) ↔
      store.calls[index]? = some call ∧ call.act parseRfc3339 action = some (write, after) := by
  simp only [TaskStore.action, bind_eq_bind, bind_eq_some_iff, pure_def, some.injEq, Prod.mk.injEq]
  constructor
  · rintro ⟨found, hfound, result, hresult, rfl, rfl⟩
    exact ⟨hfound, hresult⟩
  · rintro ⟨hcall, hact⟩
    exact ⟨call, hcall, (write, after), hact, rfl, rfl⟩

theorem passes_next_act {index : ℕ}
    (hstep : store.action parseRfc3339 index action = some (call, write, after)) :
    let next := (passes parseRfc3339).next store (.act index action)
    next.stored = (store.write write).stored ∧ next.done = store.done.count action ∧
      ∀ other ∈ next.calls, other ∈ store.calls ∨ other ∈ after := by
  simp only [passes, hstep, true_and]
  intro other hother
  cases after with
  | none => exact .inl (List.mem_of_mem_eraseIdx hother)
  | some rest => exact (List.mem_or_eq_of_mem_set hother).imp_right fun heq ↦ by rw [heq]; rfl

/-- The user's word holds so far, and no call in flight read an enabled copy after a disable or any
copy after a removal. -/
structure Held (store : TaskStore) : Prop where
  sticks : Sticks store
  copies : ∀ call ∈ store.calls, call.seen.deletes = 0 ∧
    (call.task.enabled = true → call.seen.disables = 0)

theorem isDue_eq_false (hdisabled : task.enabled = false) (nowMs : ℕ) :
    task.isDue nowMs = false := by
  simp [ScheduledTaskRecord.isDue, hdisabled]

/-- A copy read before any removal, and if it is enabled before any disable, is fresh unless it
is enabled after a disable or written after a removal. -/
theorem fresh_put_iff {seen done : Seen} (hdeletes : seen.deletes = 0)
    (hdisables : task.enabled = true → seen.disables = 0) :
    (Write.put task).Fresh seen done ↔
      (0 < done.disables → task.enabled = false) ∧ ¬ 0 < done.deletes := by
  rw [Write.Fresh, and_comm]
  apply and_congr
  · constructor
    · intro hsame hpos
      by_contra hoff
      have hon : task.enabled = true := by simpa using hoff
      have hzero := hdisables hon
      rw [hsame hon] at hzero
      omega
    · intro hoff hon
      rw [hdisables hon]
      by_contra hne
      rw [hoff (Nat.pos_of_ne_zero fun h ↦ hne h.symm)] at hon
      cases hon
  · rw [hdeletes]
    omega

/-- The user's word holds for a written copy unless it is enabled after a disable or was removed. -/
theorem sticks_put_iff (hstored : store.stored = some task) :
    Sticks store ↔ (0 < store.done.disables → task.enabled = false) ∧ ¬ 0 < store.done.deletes := by
  simp only [Sticks, hstored, mem_some_iff, forall_eq', reduceCtorEq, imp_false]
  refine and_congr_left fun _ ↦ ⟨fun h hpos ↦ (h hpos).1, fun h hpos ↦ ?_⟩
  exact ⟨h hpos, isDue_eq_false (h hpos)⟩

/-- Under the invariant, the steps that leave the user's word standing are the fresh writes. -/
theorem Held.sticks_iff (hheld : Held store) {label : PassLabel}
    (henabled : (passes parseRfc3339).enabled store label) :
    Sticks ((passes parseRfc3339).next store label) ↔ WritesFresh parseRfc3339 store label := by
  cases label with
  | request request => exact iff_of_true hheld.sticks trivial
  | act index action =>
    obtain ⟨⟨call, write, after⟩, hstep⟩ := isSome_iff_exists.1 henabled
    obtain ⟨hcall, hact⟩ := action_eq_some.1 hstep
    obtain ⟨hdeletes, hdisables⟩ := hheld.copies call (List.mem_of_getElem? hcall)
    obtain ⟨hstored, hdone, -⟩ := passes_next_act hstep
    have hacts := Call.act_spec hact
    have hfresh : WritesFresh parseRfc3339 store (.act index action) ↔
        write.Fresh call.seen store.done := by
      simp [WritesFresh, hstep]
    rw [hfresh]
    cases write with
    | keep =>
      obtain ⟨hcount, -⟩ | ⟨-, task, hput, -⟩ | ⟨-, hremove⟩ := hacts.counted store.done
      · rw [Sticks, hstored, hdone, hcount]
        exact iff_of_true hheld.sticks trivial
      · cases hput
      · cases hremove
    | remove =>
      rw [Sticks, hstored]
      exact iff_of_true ⟨fun _ _ htask ↦ (by cases htask), fun _ ↦ rfl⟩ trivial
    | put task =>
      rw [sticks_put_iff hstored, hdone,
        fresh_put_iff hdeletes fun hon ↦ hdisables (hacts.enabled task rfl hon)]
      obtain ⟨hcount, -⟩ | ⟨hcount, other, hput, hother⟩ | ⟨-, hremove⟩ :=
        hacts.counted store.done
      · rw [hcount]
      · -- the disable that is counted here writes a disabled copy
        obtain rfl := Write.put.inj hput
        rw [hcount]
        exact and_congr_left fun _ ↦ iff_of_true (fun _ ↦ hother) fun _ ↦ hother
      · cases hremove

/-- A fresh write keeps the invariant, and so does every read. -/
theorem Held.step (hheld : Held store) {label : PassLabel}
    (henabled : (passes parseRfc3339).enabled store label)
    (hfresh : WritesFresh parseRfc3339 store label) :
    Held ((passes parseRfc3339).next store label) := by
  refine ⟨(hheld.sticks_iff henabled).2 hfresh, ?_⟩
  cases label with
  | request request =>
    intro call hcall
    rcases List.mem_append.1 hcall with hold | hnew
    · exact hheld.copies call hold
    · -- whatever is still stored has not been removed, and not been disabled if it is enabled
      obtain ⟨task, htask, hrequest⟩ := bind_eq_some_iff.1 (mem_toList.1 hnew)
      have hcopy : call.task = task ∧ call.seen = store.done := by
        unfold Request.call at hrequest
        split at hrequest
        · split_ifs at hrequest
          cases hrequest
          exact ⟨rfl, rfl⟩
        all_goals
          cases hrequest
          exact ⟨rfl, rfl⟩
      rw [hcopy.1, hcopy.2]
      constructor
      · by_contra hne
        rw [hheld.sticks.2 (Nat.pos_of_ne_zero hne)] at htask
        cases htask
      · intro hon
        by_contra hne
        rw [(hheld.sticks.1 (Nat.pos_of_ne_zero hne) task htask).1] at hon
        cases hon
  | act index action =>
    obtain ⟨⟨call, write, after⟩, hstep⟩ := isSome_iff_exists.1 henabled
    obtain ⟨hcall, hact⟩ := action_eq_some.1 hstep
    obtain ⟨-, -, hcalls⟩ := passes_next_act hstep
    intro other hother
    rcases hcalls other hother with hold | hrest
    · exact hheld.copies other hold
    · have hcopy := hheld.copies call (List.mem_of_getElem? hcall)
      obtain ⟨hseen, hon⟩ := (Call.act_spec hact).rest other hrest
      rw [hseen]
      exact ⟨hcopy.1, fun h ↦ hcopy.2 (hon h)⟩

end Steps

/-- **Disabling and deleting stick.**  In every interleaving of any number of passes and tool calls
on a task: after each step a disabled task is disabled and never due, and a removed one is absent,
if and only if no step writes a stale copy. -/
theorem sticks_iff_writesFresh (parseRfc3339 : TimestampParser)
    (stored : Option ScheduledTaskRecord) {labels : List PassLabel}
    (hrun : (passes parseRfc3339).Admits ⟨stored, [], ⟨0, 0⟩⟩ labels) :
    (passes parseRfc3339).Throughout
        (fun store label ↦ Sticks ((passes parseRfc3339).next store label))
        ⟨stored, [], ⟨0, 0⟩⟩ labels ↔
      (passes parseRfc3339).Throughout (WritesFresh parseRfc3339) ⟨stored, [], ⟨0, 0⟩⟩ labels := by
  refine System.throughout_congr Held ?_ ?_ ⟨?_, by simp⟩ hrun
  · exact fun store label hheld henabled ↦ hheld.sticks_iff henabled
  · exact fun store label hheld henabled hfresh ↦ hheld.step henabled hfresh
  · exact ⟨fun hpos ↦ absurd hpos (lt_irrefl 0), fun hpos ↦ absurd hpos (lt_irrefl 0)⟩

/-- A disable between two passes, an on-demand run of the disabled task, and a delete after it. -/
theorem sticks_iff_writesFresh_run : (passes fun _ ↦ none).Throughout
      (fun store label ↦ Sticks ((passes fun _ ↦ none).next store label))
      ⟨some (minutely .once), [], ⟨0, 0⟩⟩
      [.request (.due 60000), .act 0 (.claim 1 60000 600000), .act 0 (.plan 60000),
        .act 0 (.fire ⟨1, 61000, none, none⟩), .act 0 (.resume 61000), .request .disable,
        .act 0 (.disable 62000), .request .onDemand, .act 0 (.plan 63000),
        .act 0 (.fire ⟨2, 64000, none, none⟩), .act 0 (.resume 64000), .request .delete,
        .act 0 .remove] :=
  (sticks_iff_writesFresh _ _ (by decide +kernel)).2 (by decide +kernel)

/-- A task disabled while its command runs is enabled again when the run is written back. -/
theorem disable_undone :
    ¬ ∀ stored labels, (passes fun _ ↦ none).Admits ⟨stored, [], ⟨0, 0⟩⟩ labels →
      (passes fun _ ↦ none).Throughout
        (fun store label ↦ Sticks ((passes fun _ ↦ none).next store label))
        ⟨stored, [], ⟨0, 0⟩⟩ labels := by
  intro hall
  have hsticks := hall (some (minutely .once))
    [.request (.due 60000), .act 0 (.claim 1 60000 600000), .act 0 (.plan 60000),
      .request .disable, .act 1 (.disable 60100), .act 0 (.fire ⟨1, 61000, none, none⟩)]
    (by decide +kernel)
  obtain ⟨-, -, -, -, -, hlast, -⟩ := hsticks
  have hdisabled := (hlast.1 (by decide +kernel) _ rfl).1
  exact absurd hdisabled (by decide +kernel)

end Exo.Scheduler
