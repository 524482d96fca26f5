import Mathlib.Order.Bounds.Basic
import Exo.Scheduler.Slots

/-!
# The account of missed fires

The backlog of an evaluation is the due slot and every slot that elapsed behind it.  A plan fires a
part of it and counts the rest as skipped; which part is a matter of the policy and of the cap.
-/

namespace Exo.Scheduler

open Library List

section Account
variable (task : ScheduledTaskRecord) (intervalMs nowMs : ℕ)

/-- The due slot and the slots that elapsed behind it. -/
def ScheduledTaskRecord.backlogSlots : List ℕ :=
  (List.range (task.overdue intervalMs nowMs + 1)).map fun k ↦ task.nextRunAtMs + k * intervalMs

/-- A plan that fires its part of the backlog, counts all of it and goes on with the grid. -/
structure MissedFirePlan.Accounts (plan : MissedFirePlan) : Prop where
  increasing : plan.fireSlots.Pairwise (· < ·)
  sublist : List.Sublist plan.fireSlots (task.backlogSlots intervalMs nowMs)
  onTime : task.overdue intervalMs nowMs = 0 → plan.fireSlots = [task.nextRunAtMs]
  skip : task.missed = .skip → 0 < task.overdue intervalMs nowMs → plan.fireSlots = []
  once : task.missed = .once → 0 < task.overdue intervalMs nowMs →
    plan.fireSlots = [task.nextRunAtMs]
  all : task.missed = .all → task.overdue intervalMs nowMs + 1 ≤ maxMissedFireCatchup →
    plan.fireSlots = task.backlogSlots intervalMs nowMs
  capped : task.missed = .all → maxMissedFireCatchup < task.overdue intervalMs nowMs + 1 →
    plan.fireSlots = (task.backlogSlots intervalMs nowMs).drop
      (task.overdue intervalMs nowMs + 1 - maxMissedFireCatchup) ∧
    plan.fireSlots.length = maxMissedFireCatchup
  truncated : plan.outcome.truncated = true ↔
    task.missed = .all ∧ maxMissedFireCatchup < task.overdue intervalMs nowMs + 1
  counted : ∃ skipped, plan.fireSlots.length + skipped = task.overdue intervalMs nowMs + 1 ∧
    plan.outcome.firedSlots = clampU32 plan.fireSlots.length ∧
    plan.outcome.skippedSlots = clampU32 skipped
  next : IsLeast {time | Grid.Point task.anchorMs intervalMs time ∧ nowMs < time} plan.nextRunAtMs

variable {task intervalMs nowMs}

theorem length_backlogSlots :
    (task.backlogSlots intervalMs nowMs).length = task.overdue intervalMs nowMs + 1 := by
  rw [ScheduledTaskRecord.backlogSlots, length_map, length_range]

theorem backlogSlots_of_onTime (honTime : task.overdue intervalMs nowMs = 0) :
    task.backlogSlots intervalMs nowMs = [task.nextRunAtMs] := by
  rw [ScheduledTaskRecord.backlogSlots, honTime]
  simp

theorem backlogSlots_increasing (hinterval : 0 < intervalMs) :
    (task.backlogSlots intervalMs nowMs).Pairwise (· < ·) := by
  rw [ScheduledTaskRecord.backlogSlots, pairwise_map]
  refine List.Pairwise.imp (fun hlt ↦ ?_) pairwise_lt_range
  exact Nat.add_lt_add_left (Nat.mul_lt_mul_of_pos_right hlt hinterval) _

theorem dueSlot_sublist : List.Sublist [task.nextRunAtMs] (task.backlogSlots intervalMs nowMs) := by
  rw [singleton_sublist, ScheduledTaskRecord.backlogSlots, mem_map]
  exact ⟨0, mem_range.2 (Nat.succ_pos _), by simp⟩

theorem drop_backlogSlots (first : ℕ) : (task.backlogSlots intervalMs nowMs).drop first =
      (List.range' first (task.overdue intervalMs nowMs + 1 - first)).map
        fun k ↦ task.nextRunAtMs + k * intervalMs := by
  rw [ScheduledTaskRecord.backlogSlots, range_eq_range', ← map_drop, drop_range']
  simp

/-- Where the time of the plan fits into 64 bits, the count of the backlog and its slots do. -/
theorem saturatingAdd_overdue (hnow : nowMs < u64Max) :
    saturatingAdd (task.overdue intervalMs nowMs) 1 = task.overdue intervalMs nowMs + 1 := by
  have hle : task.overdue intervalMs nowMs ≤ nowMs - task.nextRunAtMs := Nat.div_le_self _ _
  exact min_eq_left (by omega)

theorem saturatingAdd_slot (hnow : nowMs < u64Max) (hoverdue : 0 < task.overdue intervalMs nowMs)
    {k : ℕ} (hk : k ≤ task.overdue intervalMs nowMs) :
    saturatingAdd task.nextRunAtMs (saturatingMul k intervalMs) =
      task.nextRunAtMs + k * intervalMs := by
  have hle := slot_le_now hk (due_of_overdue hoverdue)
  rw [saturatingMul, min_eq_left (by omega), saturatingAdd, min_eq_left (by omega)]

/-- Catching up fires the newest slots up to the cap, and says whether there were more. -/
theorem fireSlots_all (hnow : nowMs < u64Max) (hmissed : task.missed = .all) :
    task.fireSlots intervalMs nowMs = ((task.backlogSlots intervalMs nowMs).drop
        (task.overdue intervalMs nowMs + 1 - maxMissedFireCatchup),
        decide (maxMissedFireCatchup < task.overdue intervalMs nowMs + 1)) := by
  rw [ScheduledTaskRecord.fireSlots]
  simp only [hmissed, saturatingAdd_overdue hnow]
  split_ifs with hoverdue
  · have hfirst : task.overdue intervalMs nowMs + 1 -
        min maxMissedFireCatchup (task.overdue intervalMs nowMs + 1) =
        task.overdue intervalMs nowMs + 1 - maxMissedFireCatchup := by omega
    rw [hfirst, drop_backlogSlots]
    refine Prod.ext (map_congr_left fun k hk ↦ saturatingAdd_slot hnow hoverdue ?_) rfl
    rw [mem_range'_1] at hk
    omega
  · have honTime : task.overdue intervalMs nowMs = 0 := by omega
    rw [backlogSlots_of_onTime honTime, honTime]
    rfl

/-- Every policy but catching up fires the due slot or nothing, and cuts nothing. -/
theorem fireSlots_single (hmissed : task.missed ≠ .all) : task.fireSlots intervalMs nowMs =
      (if task.missed = .skip ∧ 0 < task.overdue intervalMs nowMs then [] else [task.nextRunAtMs],
        false) := by
  rw [ScheduledTaskRecord.fireSlots]
  cases hpolicy : task.missed with
  | skip =>
    simp only [true_and]
    split_ifs <;> rfl
  | once => rfl
  | all => exact absurd hpolicy hmissed

theorem fireSlots_sublist (hnow : nowMs < u64Max) :
    List.Sublist (task.fireSlots intervalMs nowMs).1 (task.backlogSlots intervalMs nowMs) := by
  by_cases hmissed : task.missed = .all
  · rw [fireSlots_all hnow hmissed]
    exact drop_sublist _ _
  · rw [fireSlots_single hmissed]
    split_ifs
    · exact nil_sublist _
    · exact dueSlot_sublist

theorem isLeast_nextAfter (hinterval : 0 < intervalMs) (anchorMs : ℕ) :
    IsLeast {time | Grid.Point anchorMs intervalMs time ∧ nowMs < time}
      (Grid.nextAfter anchorMs intervalMs nowMs) := by
  refine ⟨⟨Grid.point_nextAfter anchorMs intervalMs nowMs,
    Grid.lt_nextAfter hinterval anchorMs nowMs⟩, ?_⟩
  intro time ⟨hpoint, hafter⟩
  exact Grid.nextAfter_le hpoint hafter

theorem planEvery_accounts (hinterval : 0 < intervalMs)
    (hfits : Grid.nextAfter task.anchorMs intervalMs nowMs ≤ u64Max) :
    MissedFirePlan.Accounts task intervalMs nowMs (task.planEvery intervalMs nowMs) := by
  have hnow : nowMs < u64Max :=
    lt_of_lt_of_le (Grid.lt_nextAfter hinterval task.anchorMs nowMs) hfits
  have hsublist : List.Sublist (task.fireSlots intervalMs nowMs).1
      (task.backlogSlots intervalMs nowMs) := fireSlots_sublist hnow
  constructor
  case increasing => exact (backlogSlots_increasing hinterval).sublist hsublist
  case sublist => exact hsublist
  case onTime =>
    intro honTime
    show (task.fireSlots intervalMs nowMs).1 = [task.nextRunAtMs]
    by_cases hmissed : task.missed = .all
    · rw [fireSlots_all hnow hmissed, backlogSlots_of_onTime honTime, honTime]
      rfl
    · rw [fireSlots_single hmissed, if_neg (by omega)]
  case skip =>
    intro hmissed hoverdue
    show (task.fireSlots intervalMs nowMs).1 = []
    rw [fireSlots_single (by rw [hmissed]; decide), if_pos ⟨hmissed, hoverdue⟩]
  case once =>
    intro hmissed _
    show (task.fireSlots intervalMs nowMs).1 = [task.nextRunAtMs]
    rw [fireSlots_single (by rw [hmissed]; decide), if_neg (by rw [hmissed]; simp)]
  case all =>
    intro hmissed huncapped
    show (task.fireSlots intervalMs nowMs).1 = _
    rw [fireSlots_all hnow hmissed, Nat.sub_eq_zero_of_le huncapped]
    rfl
  case capped =>
    intro hmissed hcapped
    show (task.fireSlots intervalMs nowMs).1 = _ ∧ (task.fireSlots intervalMs nowMs).1.length = _
    rw [fireSlots_all hnow hmissed]
    refine ⟨rfl, ?_⟩
    rw [length_drop, length_backlogSlots]
    omega
  case truncated =>
    show (task.fireSlots intervalMs nowMs).2 = true ↔ _
    by_cases hmissed : task.missed = .all
    · rw [fireSlots_all hnow hmissed, decide_eq_true_eq, and_iff_right hmissed]
    · rw [fireSlots_single hmissed]
      exact iff_of_false Bool.false_ne_true fun hcapped ↦ hmissed hcapped.1
  case counted =>
    have hlength := hsublist.length_le
    rw [length_backlogSlots] at hlength
    refine ⟨task.overdue intervalMs nowMs + 1 - (task.fireSlots intervalMs nowMs).1.length,
      Nat.add_sub_of_le hlength, rfl, ?_⟩
    show clampU32 (saturatingAdd (task.overdue intervalMs nowMs) 1 - _) = _
    rw [saturatingAdd_overdue hnow]
  case next =>
    have hnext : (task.planEvery intervalMs nowMs).nextRunAtMs =
        Grid.nextAfter task.anchorMs intervalMs nowMs := nextSlotAfterMs_every hinterval hfits
    rw [hnext]
    exact isLeast_nextAfter hinterval task.anchorMs

/-- Planning accounts for every slot of an interval schedule when nothing saturates. -/
theorem planMissedFires_accounts {parseRfc3339 : TimestampParser}
    (hschedule : parseSchedule parseRfc3339 task.schedule = .ok (.every intervalMs))
    (hfits : Grid.nextAfter task.anchorMs intervalMs nowMs ≤ u64Max) :
    ∃ plan, task.planMissedFires parseRfc3339 nowMs = .ok plan ∧
      plan.Accounts task intervalMs nowMs := by
  refine ⟨task.planEvery intervalMs nowMs, ?_,
    planEvery_accounts (parseSchedule_pos hschedule) hfits⟩
  rw [ScheduledTaskRecord.planMissedFires, hschedule]
  rfl

/-- A day of downtime of a task every minute that catches up. -/
theorem planMissedFires_accounts_minutely :
    ∃ plan, (minutely .all).planMissedFires (fun _ ↦ none) 86400000 = .ok plan ∧
      plan.Accounts (minutely .all) 60000 86400000 :=
  planMissedFires_accounts (by decide) (by decide)

end Account

end Exo.Scheduler
