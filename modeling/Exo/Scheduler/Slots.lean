import Exo.Library.System
import Exo.Scheduler.Tasks

/-!
# Firing the slots of an interval schedule

An evaluation plans the slots a task owes, fires them and resumes the task at the first grid slot
after the time of the plan.  An evaluation at or after the due slot resumes behind everything it has
fired.  One before the due slot fires the due slot and resumes at or before it, so the slot is fired
again.  `Advances` is what keeps the fired slots apart: the due slot lies before the grid slot at
which the task resumes, and that slot fits into 64 bits.
-/

namespace Exo.Scheduler

open Library List System

section Plan
variable {task : ScheduledTaskRecord} {intervalMs nowMs : ℕ} {k : ℕ}

theorem slot_le_now (hk : k ≤ task.overdue intervalMs nowMs) (hdue : task.nextRunAtMs ≤ nowMs) :
    task.nextRunAtMs + k * intervalMs ≤ nowMs := by
  have hmul : k * intervalMs ≤ nowMs - task.nextRunAtMs :=
    le_trans (Nat.mul_le_mul_right _ hk) (Nat.div_mul_le_self _ _)
  omega

theorem le_overdue (hinterval : 0 < intervalMs)
    (hslot : task.nextRunAtMs + k * intervalMs ≤ nowMs) : k ≤ task.overdue intervalMs nowMs := by
  rw [ScheduledTaskRecord.overdue, Nat.le_div_iff_mul_le hinterval]
  omega

theorem due_of_overdue (hoverdue : 0 < task.overdue intervalMs nowMs) :
    task.nextRunAtMs ≤ nowMs := by
  by_contra hearly
  rw [ScheduledTaskRecord.overdue, Nat.sub_eq_zero_of_le (le_of_not_ge hearly),
    Nat.zero_div] at hoverdue
  exact lt_irrefl 0 hoverdue

/-- The fired slots are consecutive ones of the backlog; without a cut, catching up fires all of
it. -/
theorem fireSlots_spec (task : ScheduledTaskRecord) (hnow : nowMs < u64Max) :
    ∃ first count, (task.fireSlots intervalMs nowMs).1 =
        (List.range' first count).map (fun k ↦ task.nextRunAtMs + k * intervalMs) ∧
      first + count ≤ task.overdue intervalMs nowMs + 1 ∧
      (task.missed = .all → (task.fireSlots intervalMs nowMs).2 = false →
        first = 0 ∧ count = task.overdue intervalMs nowMs + 1) := by
  have hone : [task.nextRunAtMs] =
      (range' 0 1).map (fun k ↦ task.nextRunAtMs + k * intervalMs) := by simp
  unfold ScheduledTaskRecord.fireSlots
  by_cases hoverdue : 0 < task.overdue intervalMs nowMs
  · cases hmissed : task.missed with
    | skip => exact ⟨0, 0, by simp [hoverdue], by omega, by simp⟩
    | once => exact ⟨0, 1, hone, by omega, by simp⟩
    | all =>
      have hdue := due_of_overdue hoverdue
      have hbacklog : saturatingAdd (task.overdue intervalMs nowMs) 1 =
          task.overdue intervalMs nowMs + 1 := by
        have hle : task.overdue intervalMs nowMs ≤ nowMs - task.nextRunAtMs := Nat.div_le_self _ _
        exact min_eq_left (by omega)
      have hslot : ∀ k, k ≤ task.overdue intervalMs nowMs →
          saturatingAdd task.nextRunAtMs (saturatingMul k intervalMs) =
            task.nextRunAtMs + k * intervalMs := by
        intro k hk
        have hle := slot_le_now hk hdue
        rw [saturatingMul, min_eq_left (by omega), saturatingAdd, min_eq_left (by omega)]
      simp only [hoverdue, if_true, hbacklog]
      refine ⟨_, _, map_congr_left fun k hk ↦ hslot k ?_, by omega, ?_⟩
      · rw [mem_range'_1] at hk
        omega
      · intro _ huncut
        have hle := of_decide_eq_false huncut
        rw [min_eq_right (by omega)]
        omega
  · have hzero : task.overdue intervalMs nowMs = 0 := by omega
    refine ⟨0, 1, ?_, by omega, fun _ _ ↦ ⟨rfl, by omega⟩⟩
    rw [← hone]
    cases task.missed <;> simp [hzero]

/-- The slots are increasing, from the due slot on, and before the slot after the evaluation. -/
theorem fireSlots_bounds (task : ScheduledTaskRecord) (hinterval : 0 < intervalMs)
    (hnow : nowMs < u64Max) :
    (task.fireSlots intervalMs nowMs).1.Pairwise (· < ·) ∧
      ∀ slot ∈ (task.fireSlots intervalMs nowMs).1,
        task.nextRunAtMs ≤ slot ∧ (slot = task.nextRunAtMs ∨ slot ≤ nowMs) := by
  obtain ⟨first, count, hslots, hcount, -⟩ := fireSlots_spec task hnow
  rw [hslots]
  constructor
  · rw [pairwise_map]
    refine List.Pairwise.imp (fun hlt ↦ ?_) pairwise_lt_range'
    exact Nat.add_lt_add_left (Nat.mul_lt_mul_of_pos_right hlt hinterval) _
  · intro slot hslot
    obtain ⟨k, hk, rfl⟩ := mem_map.1 hslot
    rw [mem_range'_1] at hk
    refine ⟨Nat.le_add_right _ _, ?_⟩
    rcases Nat.eq_zero_or_pos k with rfl | hpos
    · exact .inl (by simp)
    · have hle : k ≤ task.overdue intervalMs nowMs := by omega
      exact .inr (slot_le_now hle (due_of_overdue (lt_of_lt_of_le hpos hle)))

/-- An uncut catch-up fires every slot of the backlog. -/
theorem mem_fireSlots_all (hinterval : 0 < intervalMs) (hnow : nowMs < u64Max)
    (hmissed : task.missed = .all) (huncut : (task.fireSlots intervalMs nowMs).2 = false)
    (hk : task.nextRunAtMs + k * intervalMs ≤ nowMs) :
    task.nextRunAtMs + k * intervalMs ∈ (task.fireSlots intervalMs nowMs).1 := by
  obtain ⟨first, count, hslots, -, hall⟩ := fireSlots_spec task hnow
  obtain ⟨rfl, rfl⟩ := hall hmissed huncut
  have hle := le_overdue hinterval hk
  rw [hslots]
  exact mem_map_of_mem (mem_range'_1.2 ⟨by omega, by omega⟩)

end Plan

/-- A task between evaluations, and the latest time seen. -/
structure Evaluated where
  task : ScheduledTaskRecord
  clock : ℕ

/-- One evaluation: the time of the plan, the runs it made, and the time of the resume. -/
structure Evaluation where
  nowMs : ℕ
  runs : List ScheduledTaskRunRecord
  finishedMs : ℕ

section Evaluations
variable (parseRfc3339 : TimestampParser)

/-- The slots the evaluation fires. -/
def plannedSlots (state : Evaluated) (evaluation : Evaluation) : List ℕ :=
  match state.task.planMissedFires parseRfc3339 evaluation.nowMs with
  | .ok plan => plan.fireSlots
  | .error _ => []

/-- `run_task` over and over with a clock that does not go back, due or on demand. -/
def evaluations : System Evaluated Evaluation where
  enabled state evaluation :=
    state.clock ≤ evaluation.nowMs ∧ evaluation.nowMs ≤ evaluation.finishedMs
  next state evaluation :=
    match state.task.planMissedFires parseRfc3339 evaluation.nowMs with
    | .ok plan =>
      { task := (evaluation.runs.foldl ScheduledTaskRecord.recordRun state.task).resumeAfterFires
          plan evaluation.finishedMs
        clock := evaluation.finishedMs }
    | .error _ => { state with clock := evaluation.nowMs }

instance (state : Evaluated) (evaluation : Evaluation) :
    Decidable ((evaluations parseRfc3339).enabled state evaluation) :=
  inferInstanceAs (Decidable (_ ∧ _))

section
variable (intervalMs : ℕ) (state : Evaluated) (evaluation : Evaluation)

/-- The due slot lies before the grid slot at which the task resumes, and that one fits. -/
def Advances : Prop :=
  state.task.nextRunAtMs < Grid.nextAfter state.task.anchorMs intervalMs evaluation.nowMs ∧
    Grid.nextAfter state.task.anchorMs intervalMs evaluation.nowMs ≤ u64Max

instance (intervalMs : ℕ) (state : Evaluated) (evaluation : Evaluation) :
    Decidable (Advances intervalMs state evaluation) :=
  inferInstanceAs (Decidable (_ ∧ _))

/-- The evaluation is due and its catch-up is not cut. -/
def DueUncut : Prop :=
  state.task.nextRunAtMs ≤ evaluation.nowMs ∧
    (state.task.planEvery intervalMs evaluation.nowMs).outcome.truncated = false

end

instance (intervalMs : ℕ) (state : Evaluated) (evaluation : Evaluation) :
    Decidable (DueUncut intervalMs state evaluation) :=
  inferInstanceAs (Decidable (_ ∧ _))

end Evaluations

section Step
variable {parseRfc3339 : TimestampParser} {state : Evaluated} {evaluation : Evaluation}
  {intervalMs : ℕ}

section
variable (hschedule : parseSchedule parseRfc3339 state.task.schedule = .ok (.every intervalMs))
include hschedule

theorem planMissedFires_every (nowMs : ℕ) : state.task.planMissedFires parseRfc3339 nowMs =
      .ok (state.task.planEvery intervalMs nowMs) := by
  rw [ScheduledTaskRecord.planMissedFires, hschedule]
  rfl

theorem plannedSlots_every : plannedSlots parseRfc3339 state evaluation =
      (state.task.fireSlots intervalMs evaluation.nowMs).1 := by
  rw [plannedSlots, planMissedFires_every hschedule]
  rfl

end

theorem foldl_recordRun (task : ScheduledTaskRecord) (runs : List ScheduledTaskRunRecord) :
    let after := runs.foldl ScheduledTaskRecord.recordRun task
    after.schedule = task.schedule ∧ after.missed = task.missed ∧
      after.anchorMs = task.anchorMs := by
  induction runs generalizing task with
  | nil => exact ⟨rfl, rfl, rfl⟩
  | cons run runs ih => simpa using ih (task.recordRun run)

/-- What one evaluation does to a task on an interval schedule. -/
theorem evaluations_next
    (hschedule : parseSchedule parseRfc3339 state.task.schedule = .ok (.every intervalMs))
    (hadvances : Advances intervalMs state evaluation) :
    let after := ((evaluations parseRfc3339).next state evaluation).task
    after.schedule = state.task.schedule ∧ after.missed = state.task.missed ∧
      after.anchorMs = state.task.anchorMs ∧
      after.nextRunAtMs = Grid.nextAfter state.task.anchorMs intervalMs evaluation.nowMs := by
  have hslot := nextSlotAfterMs_every (parseSchedule_pos hschedule) hadvances.2
  obtain ⟨hsame, hmissed, hanchor⟩ := foldl_recordRun state.task evaluation.runs
  simp only [evaluations, planMissedFires_every hschedule]
  exact ⟨hsame, hmissed, hanchor, hslot⟩

end Step

section Runs
variable {parseRfc3339 : TimestampParser} {start : Evaluated} {intervalMs : ℕ}

/-- What holds after some evaluations: the task is the same, the fired slots are increasing and all
before the next one, which lies on the grid. -/
structure Apart (intervalMs : ℕ) (start : Evaluated) (fired : List ℕ)
    (evaluated : List Evaluation) (state : Evaluated) : Prop where
  schedule : state.task.schedule = start.task.schedule
  missed : state.task.missed = start.task.missed
  anchor : state.task.anchorMs = start.task.anchorMs
  increasing : fired.Pairwise (· < ·)
  before : ∀ slot ∈ fired, slot < state.task.nextRunAtMs
  onGrid : evaluated ≠ [] → Grid.Point start.task.anchorMs intervalMs state.task.nextRunAtMs

variable {evaluated : List Evaluation}
  {fired : List ℕ} {state : Evaluated} {evaluation : Evaluation}

section
variable (hschedule : parseSchedule parseRfc3339 start.task.schedule = .ok (.every intervalMs))
include hschedule

theorem Apart.step (hapart : Apart intervalMs start fired evaluated state)
    (hadvances : Advances intervalMs state evaluation) :
    Apart intervalMs start (fired ++ plannedSlots parseRfc3339 state evaluation)
      (evaluated ++ [evaluation]) ((evaluations parseRfc3339).next state evaluation) := by
  have hinterval := parseSchedule_pos hschedule
  have hsame : parseSchedule parseRfc3339 state.task.schedule = .ok (.every intervalMs) := by
    rw [hapart.schedule, hschedule]
  have hlater := Grid.lt_nextAfter hinterval state.task.anchorMs evaluation.nowMs
  have hnow : evaluation.nowMs < u64Max := lt_of_lt_of_le hlater hadvances.2
  obtain ⟨hincreasing, hbounds⟩ := fireSlots_bounds state.task hinterval hnow
  obtain ⟨htext, hmissed, hanchor, hnext⟩ := evaluations_next hsame hadvances
  rw [plannedSlots_every hsame]
  refine ⟨htext.trans hapart.schedule, hmissed.trans hapart.missed, hanchor.trans hapart.anchor,
    ?_, ?_, ?_⟩
  · rw [pairwise_append]
    refine ⟨hapart.increasing, hincreasing, fun slot hslot other hother ↦ ?_⟩
    exact lt_of_lt_of_le (hapart.before slot hslot) (hbounds other hother).1
  · intro slot hslot
    rw [hnext]
    rcases mem_append.1 hslot with hslot | hslot
    · exact lt_trans (hapart.before slot hslot) hadvances.1
    · rcases (hbounds slot hslot).2 with heq | hle
      · rw [heq]
        exact hadvances.1
      · exact lt_of_le_of_lt hle hlater
  · intro _
    rw [hnext, hapart.anchor]
    exact Grid.point_nextAfter _ _ _

theorem Apart.run
    (hrun : ((evaluations parseRfc3339).restrict (Advances intervalMs)).Admits start evaluated) :
    Apart intervalMs start ((evaluations parseRfc3339).collect (plannedSlots parseRfc3339) start
      evaluated) evaluated ((evaluations parseRfc3339).exec start evaluated) := by
  rw [← exec_restrict (Advances intervalMs)]
  refine traceInvariant (fun evaluated state ↦ Apart intervalMs start
    ((evaluations parseRfc3339).collect (plannedSlots parseRfc3339) start evaluated) evaluated
    state) start ?_ ?_ hrun
  · exact ⟨rfl, rfl, rfl, List.Pairwise.nil, by simp, by simp⟩
  · intro evaluated evaluation _ hapart henabled
    rw [collect_snoc, ← exec_restrict (Advances intervalMs)]
    exact hapart.step hschedule henabled.2

end

/-- Every grid slot from the first due slot on has been fired, up to the next one. -/
def Covered (intervalMs : ℕ) (start : Evaluated) (fired : List ℕ) (state : Evaluated) : Prop :=
  Grid.Point start.task.anchorMs intervalMs state.task.nextRunAtMs ∧
    ∀ slot, Grid.Point start.task.anchorMs intervalMs slot → start.task.nextRunAtMs ≤ slot →
      slot < state.task.nextRunAtMs → slot ∈ fired

section
variable (hschedule : parseSchedule parseRfc3339 start.task.schedule = .ok (.every intervalMs))
  (hmissed : start.task.missed = .all)
include hschedule hmissed

theorem Covered.step (hapart : Apart intervalMs start fired evaluated state)
    (hcovered : Covered intervalMs start fired state)
    (hadvances : Advances intervalMs state evaluation)
    (hdue : DueUncut intervalMs state evaluation) :
    Covered intervalMs start (fired ++ plannedSlots parseRfc3339 state evaluation)
      ((evaluations parseRfc3339).next state evaluation) := by
  have hinterval := parseSchedule_pos hschedule
  have hsame : parseSchedule parseRfc3339 state.task.schedule = .ok (.every intervalMs) := by
    rw [hapart.schedule, hschedule]
  have hlater := Grid.lt_nextAfter hinterval state.task.anchorMs evaluation.nowMs
  have hnow : evaluation.nowMs < u64Max := lt_of_lt_of_le hlater hadvances.2
  obtain ⟨-, -, -, hnext⟩ := evaluations_next hsame hadvances
  rw [Covered, plannedSlots_every hsame, hnext, hapart.anchor]
  refine ⟨Grid.point_nextAfter _ _ _, fun slot hslot hfirst hbefore ↦ ?_⟩
  rw [mem_append]
  by_cases hold : slot < state.task.nextRunAtMs
  · exact .inl (hcovered.2 slot hslot hfirst hold)
  · have hle : slot ≤ evaluation.nowMs := by
      by_contra hafter
      exact absurd (Grid.nextAfter_le hslot (not_le.1 hafter)) (not_le.2 hbefore)
    obtain ⟨k, rfl⟩ := hcovered.1.exists_add hslot (not_lt.1 hold) hinterval
    exact .inr (mem_fireSlots_all hinterval hnow (hapart.missed.trans hmissed) hdue.2 hle)

theorem Covered.run (hstart : Grid.Point start.task.anchorMs intervalMs start.task.nextRunAtMs)
    (hrun : (((evaluations parseRfc3339).restrict (Advances intervalMs)).restrict
      (DueUncut intervalMs)).Admits start evaluated) :
    Covered intervalMs start ((evaluations parseRfc3339).collect (plannedSlots parseRfc3339) start
      evaluated) ((evaluations parseRfc3339).exec start evaluated) := by
  rw [← exec_restrict (Advances intervalMs), ← exec_restrict (DueUncut intervalMs)]
  refine traceInvariant (fun evaluated state ↦ Covered intervalMs start
    ((evaluations parseRfc3339).collect (plannedSlots parseRfc3339) start evaluated) state) start
    ?_ ?_ hrun
  · exact ⟨hstart, fun slot _ hfirst hbefore ↦ absurd hbefore (not_lt.2 hfirst)⟩
  · intro evaluated evaluation hsofar hcovered henabled
    have hapart := Apart.run hschedule
      ((admits_restrict_iff (DueUncut intervalMs) start evaluated).1 hsofar).1
    rw [exec_restrict, exec_restrict] at hcovered henabled ⊢
    rw [collect_snoc]
    exact hcovered.step hschedule hmissed hapart henabled.1.2 henabled.2

end

/-- The fired slots are increasing; after the first resume the task stands on a grid slot that has
not been fired; catching up without a cut at due evaluations only, a task that starts on its grid
fires every slot from there to the last evaluation. -/
def SlotsFireOnce (parseRfc3339 : TimestampParser) (intervalMs : ℕ) (start : Evaluated)
    (evaluated : List Evaluation) : Prop :=
  let fired := (evaluations parseRfc3339).collect (plannedSlots parseRfc3339) start evaluated
  let after := ((evaluations parseRfc3339).exec start evaluated).task
  fired.Pairwise (· < ·) ∧
  (evaluated ≠ [] → (∃ n, after.nextRunAtMs = start.task.anchorMs + n * intervalMs) ∧
    after.nextRunAtMs ∉ fired) ∧
  (start.task.missed = .all →
    (∃ n, 1 ≤ n ∧ start.task.nextRunAtMs = start.task.anchorMs + n * intervalMs) →
    (evaluations parseRfc3339).Throughout (DueUncut intervalMs) start evaluated →
    ∀ last ∈ evaluated.getLast?, ∀ n, 1 ≤ n →
      start.task.nextRunAtMs ≤ start.task.anchorMs + n * intervalMs →
      start.task.anchorMs + n * intervalMs ≤ last.nowMs →
      start.task.anchorMs + n * intervalMs ∈ fired)

theorem lt_nextRunAtMs_of_getLast {last : Evaluation}
    (hschedule : parseSchedule parseRfc3339 start.task.schedule = .ok (.every intervalMs))
    (hrun : ((evaluations parseRfc3339).restrict (Advances intervalMs)).Admits start evaluated)
    (hlast : last ∈ evaluated.getLast?) :
    last.nowMs < ((evaluations parseRfc3339).exec start evaluated).task.nextRunAtMs := by
  obtain ⟨earlier, rfl⟩ := getLast?_eq_some_iff.1 hlast
  rw [admits_append] at hrun
  have hapart := Apart.run hschedule hrun.1
  have hsame : parseSchedule parseRfc3339
      ((evaluations parseRfc3339).exec start earlier).task.schedule = .ok (.every intervalMs) := by
    rw [hapart.schedule, hschedule]
  have hadvances : Advances intervalMs ((evaluations parseRfc3339).exec start earlier) last := by
    rw [← exec_restrict (Advances intervalMs)]
    exact hrun.2.1.2
  rw [exec_append]
  show last.nowMs < ((evaluations parseRfc3339).next _ last).task.nextRunAtMs
  rw [(evaluations_next hsame hadvances).2.2.2]
  exact Grid.lt_nextAfter (parseSchedule_pos hschedule) _ _

/-- **Each slot fires at most once.**  In every sequence of evaluations of an interval schedule at
which the due slot lies before the grid slot the task resumes at, which fits into 64 bits. -/
theorem slots_fire_once
    (hschedule : parseSchedule parseRfc3339 start.task.schedule = .ok (.every intervalMs))
    {evaluated : List Evaluation}
    (hrun : ((evaluations parseRfc3339).restrict (Advances intervalMs)).Admits start evaluated) :
    SlotsFireOnce parseRfc3339 intervalMs start evaluated := by
  have hapart := Apart.run hschedule hrun
  refine ⟨hapart.increasing, fun hevaluated ↦ ⟨?_, ?_⟩, ?_⟩
  · obtain ⟨n, -, hn⟩ := hapart.onGrid hevaluated
    exact ⟨n, hn⟩
  · intro hfired
    exact lt_irrefl _ (hapart.before _ hfired)
  · intro hmissed hstart hdue last hlast n hn hfirst hle
    have hboth := (admits_restrict_iff (DueUncut intervalMs) start evaluated).2
      ⟨hrun, (throughout_restrict _ _ _ _).2 hdue⟩
    have hcovered := Covered.run hschedule hmissed hstart hboth
    have hlater := lt_nextRunAtMs_of_getLast hschedule hrun hlast
    exact hcovered.2 _ ⟨n, hn, rfl⟩ hfirst (lt_of_le_of_lt hle hlater)

end Runs

/-- An evaluation on time, one after some downtime, and one on time again. -/
theorem slots_fire_once_minutely : SlotsFireOnce (fun _ ↦ none) 60000 ⟨minutely .all, 0⟩
      [⟨60500, [], 61000⟩, ⟨240500, [], 245000⟩, ⟨300000, [], 300200⟩] :=
  slots_fire_once (by decide) (by decide)

/-- A run on demand, half a minute early, fires the coming slot; at its time the slot is fired
again. -/
theorem slots_fire_twice : ¬ ∀ start intervalMs evaluated,
      parseSchedule (fun _ ↦ none) start.task.schedule = .ok (.every intervalMs) →
      (evaluations fun _ ↦ none).Admits start evaluated →
      SlotsFireOnce (fun _ ↦ none) intervalMs start evaluated := by
  intro hall
  have honce := hall ⟨minutely .once, 0⟩ 60000 [⟨30000, [], 30500⟩, ⟨60000, [], 60500⟩]
    (by decide) (by decide)
  have hfired : (evaluations fun _ ↦ none).collect (plannedSlots fun _ ↦ none)
      ⟨minutely .once, 0⟩ [⟨30000, [], 30500⟩, ⟨60000, [], 60500⟩] = [60000, 60000] := by
    decide
  exact absurd (hfired ▸ honce.1) (by decide)

end Exo.Scheduler
