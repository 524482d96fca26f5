import Exo.Scheduler.Schedule

/-!
# Scheduled tasks

The record of a task and the methods that read and change it: whether it is due, the lease of a
claim, the plan for the slots it owes, and the resume that puts it back on its grid.  Fields that
only describe the command to run are left out.
-/

namespace Exo.Scheduler

open Library

/-- What a downed host owes a task. -/
inductive MissedPolicy where
  | skip
  | once
  | all
  deriving DecidableEq

/-- `MAX_MISSED_FIRE_CATCHUP`. -/
def maxMissedFireCatchup : ℕ := 100

/-- `u32::try_from(..).unwrap_or(u32::MAX)`. -/
def clampU32 (count : ℕ) : ℕ := min count (2 ^ 32 - 1)

structure MissedFireOutcome where
  policy : MissedPolicy
  evaluatedAtMs : ℕ
  dueSlotMs : ℕ
  firedSlots : ℕ
  skippedSlots : ℕ
  truncated : Bool

structure MissedFirePlan where
  fireSlots : List ℕ
  nextRunAtMs : ℕ
  completes : Bool
  outcome : MissedFireOutcome

structure ScheduledTaskLease where
  id : ℕ
  leasedAtMs : ℕ
  expiresAtMs : ℕ

structure ScheduledTaskRecord where
  id : String
  agentId : String
  conversationId : String
  name : String
  schedule : List Char
  enabled : Bool
  missed : MissedPolicy
  createdAtMs : ℕ
  updatedAtMs : ℕ
  anchorMs : ℕ
  nextRunAtMs : ℕ
  lastRunAtMs : Option ℕ
  lastFiredSlotMs : Option ℕ
  lastMissedFire : Option MissedFireOutcome
  completedAtMs : Option ℕ
  latestRunId : Option ℕ
  latestResultArtifactId : Option String
  lease : Option ScheduledTaskLease

/-- What a run leaves in its record, as far as the task's record takes it over. -/
structure ScheduledTaskRunRecord where
  id : ℕ
  finishedAtMs : ℕ
  resultArtifactId : Option String
  error : Option String

namespace ScheduledTaskRecord

variable (task : ScheduledTaskRecord)

/-- `is_due`. -/
def isDue (nowMs : ℕ) : Bool :=
  task.enabled && task.completedAtMs.isNone && decide (task.nextRunAtMs ≤ nowMs) &&
    task.lease.all fun lease ↦ decide (lease.expiresAtMs ≤ nowMs)

/-- `claim`; the lease's identifier is drawn by the caller. -/
def claim (leaseId nowMs leaseMs : ℕ) : ScheduledTaskRecord :=
  { task with
    lease := some ⟨leaseId, nowMs, saturatingAdd nowMs leaseMs⟩
    updatedAtMs := nowMs }

/-- `mark_completed`. -/
def markCompleted (run : ScheduledTaskRunRecord) (resultArtifactId : Option String) (nowMs : ℕ) :
    ScheduledTaskRecord :=
  { task with
    updatedAtMs := nowMs
    lastRunAtMs := some run.finishedAtMs
    latestRunId := some run.id
    latestResultArtifactId := resultArtifactId }

section
variable (intervalMs nowMs : ℕ)

/-- The slots that came and went behind the due one. -/
def overdue : ℕ := (nowMs - task.nextRunAtMs) / intervalMs

/-- The slots an interval schedule fires, and whether the catch-up was cut. -/
def fireSlots : List ℕ × Bool :=
  let dueSlotMs := task.nextRunAtMs
  let overdue := task.overdue intervalMs nowMs
  let backlog := saturatingAdd overdue 1
  match task.missed with
  | .skip => if 0 < overdue then ([], false) else ([dueSlotMs], false)
  | .once => ([dueSlotMs], false)
  | .all =>
    if 0 < overdue then
      let first := backlog - min maxMissedFireCatchup backlog
      ((List.range' first (backlog - first)).map fun slot ↦
        saturatingAdd dueSlotMs (saturatingMul slot intervalMs),
        decide (maxMissedFireCatchup < backlog))
    else ([dueSlotMs], false)

/-- `plan_missed_fires` of an interval schedule. -/
def planEvery : MissedFirePlan :=
  let backlog := saturatingAdd (task.overdue intervalMs nowMs) 1
  let fires := task.fireSlots intervalMs nowMs
  { fireSlots := fires.1
    nextRunAtMs := (ParsedSchedule.every intervalMs).nextSlotAfterMs task.anchorMs nowMs
    completes := false
    outcome :=
      { policy := task.missed
        evaluatedAtMs := nowMs
        dueSlotMs := task.nextRunAtMs
        firedSlots := clampU32 fires.1.length
        skippedSlots := clampU32 (backlog - fires.1.length)
        truncated := fires.2 } }

end

/-- `plan_missed_fires` of a one-shot. -/
def planAt (atMs nowMs : ℕ) : MissedFirePlan :=
  let slots := if task.completedAtMs.isSome then [] else [atMs]
  { fireSlots := slots
    nextRunAtMs := atMs
    completes := true
    outcome :=
      { policy := task.missed
        evaluatedAtMs := nowMs
        dueSlotMs := task.nextRunAtMs
        firedSlots := clampU32 slots.length
        skippedSlots := 0
        truncated := false } }

/-- `plan_missed_fires`. -/
def planMissedFires (parseRfc3339 : TimestampParser) (nowMs : ℕ) :
    Except ScheduleError MissedFirePlan := do
  match ← parseSchedule parseRfc3339 task.schedule with
  | .every intervalMs => return task.planEvery intervalMs nowMs
  | .at atMs => return task.planAt atMs nowMs

/-- `resume_after_fires`. -/
def resumeAfterFires (plan : MissedFirePlan) (nowMs : ℕ) : ScheduledTaskRecord :=
  { task with
    updatedAtMs := nowMs
    nextRunAtMs := plan.nextRunAtMs
    lastFiredSlotMs := plan.fireSlots.getLast?.or task.lastFiredSlotMs
    lastMissedFire := some plan.outcome
    completedAtMs := if plan.completes then some nowMs else task.completedAtMs
    lease := none }

end ScheduledTaskRecord

/-- `is_missing_task_owner_error`. -/
def isMissingTaskOwnerError (error : String) : Bool :=
  "scheduled task agent does not exist:".toList.isPrefixOf error.toList ||
    "scheduled task conversation does not exist:".toList.isPrefixOf error.toList

/-- What `fire_once` makes of its copy of the task when a run has finished. -/
def ScheduledTaskRecord.recordRun (task : ScheduledTaskRecord) (run : ScheduledTaskRunRecord) :
    ScheduledTaskRecord :=
  let task := task.markCompleted run run.resultArtifactId run.finishedAtMs
  if run.error.any isMissingTaskOwnerError then
    { task with enabled := false, updatedAtMs := run.finishedAtMs }
  else task

namespace ScheduledTaskRecord

variable (task : ScheduledTaskRecord)

/-! A run changes neither the schedule nor where it stands. -/

section
variable (run : ScheduledTaskRunRecord)

@[simp]
theorem recordRun_schedule : (task.recordRun run).schedule = task.schedule := by
  unfold recordRun markCompleted
  split <;> rfl

@[simp]
theorem recordRun_missed : (task.recordRun run).missed = task.missed := by
  unfold recordRun markCompleted
  split <;> rfl

@[simp]
theorem recordRun_anchorMs : (task.recordRun run).anchorMs = task.anchorMs := by
  unfold recordRun markCompleted
  split <;> rfl

end

end ScheduledTaskRecord

/-- A task every minute, created at time zero. -/
def minutely (missed : MissedPolicy) : ScheduledTaskRecord where
  id := "task"
  agentId := "agent"
  conversationId := "conversation"
  name := "check"
  schedule := "@every 1m".toList
  enabled := true
  missed := missed
  createdAtMs := 0
  updatedAtMs := 0
  anchorMs := 0
  nextRunAtMs := 60000
  lastRunAtMs := none
  lastFiredSlotMs := none
  lastMissedFire := none
  completedAtMs := none
  latestRunId := none
  latestResultArtifactId := none
  lease := none

end Exo.Scheduler
