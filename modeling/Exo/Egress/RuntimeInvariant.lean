import Exo.Egress.RuntimeSteps

/-!
# What is so of the egress runtime at every step

The tasks of one sandbox have the same lock, as a lock that some task refers to stays in the map.  From
that no two of them are under it, so that the entry of a sandbox is as its task left it, unless the
runtime was shut down.
-/

namespace Exo.Egress.Runtime

open Library List Option

variable {Rest : Type} {s s' : Shared Rest} {id : String} {stage : Stage Rest} {calls : List Call}

/-! ## Facts of a stage that other tasks keep -/

theorem Stage.MapOk.congr (hclosed : s.closed = true → s'.closed = true)
    (hcached : s'.cached id = s.cached id) (hok : stage.MapOk s id) : stage.MapOk s' id := by
  unfold Stage.MapOk at hok ⊢
  rw [hcached]
  split at hok
  all_goals first | exact hok | exact hok.imp hclosed fun h ↦ h

theorem Stage.MapOk.of_not_holds (hholds : stage.holds = false) (hok : stage.MapOk s id) :
    stage.MapOk s' id := by
  cases stage <;> first | exact hok | trivial

/-- The map is emptied while no task is in it. -/
theorem Stage.MapOk.drain (hclosed : s'.closed = true) (hempty : s'.sandboxes = [])
    (hinMap : stage.inMap = false) (hok : stage.MapOk s id) : stage.MapOk s' id := by
  have hnone : s'.cached id = none := by simp [Shared.cached, hempty]
  unfold Stage.MapOk at hok ⊢
  split
  all_goals first | exact hnone | exact .inl hclosed | exact hok | trivial

theorem Settled.mono {outcome : Outcome} (hclosed : s.closed = true → s'.closed = true)
    (hshut : ∀ egress, s.Shut egress → s'.Shut egress) (hsettled : Settled s calls outcome) :
    Settled s' calls outcome := by
  cases outcome with
  | ok handle => exact hsettled
  | error message =>
    refine hsettled.imp id (Or.imp id ?_)
    rintro ⟨egress, hegress, hcalls⟩
    exact ⟨egress, hshut egress hegress, hcalls.imp (And.imp_left hclosed) id⟩

theorem Stage.CallsOk.mono (hclosed : s.closed = true → s'.closed = true)
    (hlength : s.proxies.length ≤ s'.proxies.length)
    (hshut : ∀ egress, s.Shut egress → s'.Shut egress) (hok : stage.CallsOk s calls) :
    stage.CallsOk s' calls := by
  unfold Stage.CallsOk at hok ⊢
  split at hok
  all_goals
    first
    | exact hok
    | exact hok.mono hclosed hshut
    | exact ⟨hok.1, Nat.lt_of_lt_of_le hok.2 hlength⟩
    | exact ⟨hok.1, hshut _ hok.2⟩

/-! ## The invariant -/

/-- The stages of `shutdown`. -/
structure ShutdownOk (r : EgressRuntime Rest) (stage : Stage Rest) : Prop where
  stages : stage = .start ∨ stage = .cancelled ∨ (∃ rest, stage = .closingAll rest) ∨
    ∃ outcome, stage = .finished outcome
  closed : stage ≠ .start → r.shared.closed = true
  drained : stage ≠ .start → stage ≠ .cancelled →
    r.shared.sandboxes = [] ∧ ∀ task ∈ r.tasks, task.stage.inMap = false

/-- At most one task is under each lock. -/
def Exclusive (tasks : List (Task Rest)) : Prop :=
  ∀ (i j : ℕ) (ti tj : Task Rest), tasks[i]? = some ti → tasks[j]? = some tj →
    ti.stage.holds = true → tj.stage.holds = true → ti.lock = tj.lock → i = j

/-- The stages of an operation that waits for the lock or holds it. -/
def Stage.refers : Stage Rest → Bool
  | waiting => true
  | stage => stage.holds

theorem Stage.refers_of_holds (hholds : stage.holds = true) : stage.refers = true := by
  cases stage <;> first | exact hholds | rfl

structure Orderly (r : EgressRuntime Rest) : Prop where
  locks : ∀ task ∈ r.tasks, ∀ lock, task.lock = some lock →
    ∃ id, task.op.sandboxId = some id ∧ r.locks.lookup id = some lock
  has_lock : ∀ task ∈ r.tasks, task.stage.refers = true → task.lock.isSome = true
  held : Exclusive r.tasks
  map_ok : ∀ task ∈ r.tasks, ∀ id, task.op.sandboxId = some id → task.stage.MapOk r.shared id
  calls_ok : ∀ task ∈ r.tasks, task.stage.CallsOk r.shared task.calls
  owned : ∀ egress, r.shared.isOpen egress = true →
    Listed r.shared egress ∨ ∃ task ∈ r.tasks, task.stage.owned = some egress
  shutdown : ∀ task ∈ r.tasks, task.op = .shutdown → ShutdownOk r task.stage

variable {r : EgressRuntime Rest} {i : ℕ} {task task' : Task Rest}

/-- Of the operations on a sandbox at most one is under its lock. -/
theorem Orderly.exclusive (horderly : Orderly r) {j : ℕ} {ti tj : Task Rest}
    (hi : r.tasks[i]? = some ti) (hj : r.tasks[j]? = some tj) (hholds : ti.stage.holds = true)
    (hholds' : tj.stage.holds = true) (hsame : ti.op.sandboxId = tj.op.sandboxId) : i = j := by
  have hmem := mem_of_getElem? hi
  have hmem' := mem_of_getElem? hj
  obtain ⟨lock, hlock⟩ := isSome_iff_exists.1 (horderly.has_lock ti hmem (Stage.refers_of_holds hholds))
  obtain ⟨lock', hlock'⟩ := isSome_iff_exists.1 (horderly.has_lock tj hmem' (Stage.refers_of_holds hholds'))
  obtain ⟨id, hid, hlookup⟩ := horderly.locks ti hmem lock hlock
  obtain ⟨id', hid', hlookup'⟩ := horderly.locks tj hmem' lock' hlock'
  rw [hid, hid', some.injEq] at hsame
  subst hsame
  cases hlookup.symm.trans hlookup'
  exact horderly.held i j ti tj hi hj hholds hholds' (hlock.trans hlock'.symm)

/-! ### Changing one task -/

theorem mem_set (hi : r.tasks[i]? = some task) {other : Task Rest}
    (hother : other ∈ r.tasks.set i task') :
    other = task' ∨ ∃ j, j ≠ i ∧ r.tasks[j]? = some other := by
  obtain ⟨j, hj⟩ := List.mem_iff_getElem?.1 hother
  by_cases heq : j = i
  · subst heq
    rw [List.getElem?_set_self (List.getElem?_eq_some_iff.1 hi).1] at hj
    cases hj
    exact .inl rfl
  · rw [List.getElem?_set_ne (Ne.symm heq)] at hj
    exact .inr ⟨j, heq, hj⟩

theorem mem_set_self (hi : r.tasks[i]? = some task) : task' ∈ r.tasks.set i task' :=
  List.mem_iff_getElem?.2 ⟨i, List.getElem?_set_self (List.getElem?_eq_some_iff.1 hi).1⟩

theorem mem_set_of_ne {j : ℕ} (hne : j ≠ i) {other : Task Rest} (hj : r.tasks[j]? = some other) :
    other ∈ r.tasks.set i task' :=
  mem_iff_getElem?.2 ⟨j, by rwa [getElem?_set_ne (Ne.symm hne)]⟩

/-- What is so of all other tasks, and of the changed one. -/
theorem forall_set (hi : r.tasks[i]? = some task) {P : Task Rest → Prop} (hself : P task')
    (hothers : ∀ j other, j ≠ i → r.tasks[j]? = some other → P other) :
    ∀ other ∈ r.tasks.set i task', P other := by
  intro other hother
  rcases mem_set hi hother with rfl | ⟨j, hne, hj⟩
  · exact hself
  · exact hothers j other hne hj

section
variable (horderly : Orderly r) (hi : r.tasks[i]? = some task)
include horderly hi

/-- A task with the lock that it had, under it only if it was. -/
theorem Orderly.held_set (hholds : task'.stage.holds = true → task.stage.holds = true)
    (hlock : task'.stage.holds = true → task'.lock = task.lock) :
    Exclusive (r.tasks.set i task') := by
  have hbefore : ∀ (a : ℕ) (ta : Task Rest), (r.tasks.set i task')[a]? = some ta → ta.stage.holds = true →
      ∃ old : Task Rest, r.tasks[a]? = some old ∧ old.stage.holds = true ∧ ta.lock = old.lock := by
    intro a ta ha htrue
    by_cases heq : a = i
    · subst heq
      rw [List.getElem?_set_self (List.getElem?_eq_some_iff.1 hi).1] at ha
      cases ha
      exact ⟨task, hi, hholds htrue, hlock htrue⟩
    · rw [List.getElem?_set_ne (Ne.symm heq)] at ha
      exact ⟨ta, ha, htrue, rfl⟩
  intro a b ta tb ha hb htrue htrue' hsame
  obtain ⟨old, hold, holdHolds, holdLock⟩ := hbefore a ta ha htrue
  obtain ⟨old', hold', holdHolds', holdLock'⟩ := hbefore b tb hb htrue'
  exact horderly.held a b old old' hold hold' holdHolds holdHolds'
    (holdLock.symm.trans (hsame.trans holdLock'))

/-- A task that does not touch what is shared. -/
theorem Orderly.setTask (hop : task'.op = task.op) (hlock : ∀ lock, task'.lock = some lock →
      ∃ id, task'.op.sandboxId = some id ∧ r.locks.lookup id = some lock)
    (hhasLock : task'.stage.refers = true → task'.lock.isSome = true)
    (hheld : Exclusive (r.tasks.set i task')) (hsandbox : task.op ≠ .shutdown)
    (hinMap : task'.stage.inMap = false) (howned : task.stage.owned = none)
    (hmap : ∀ id, task'.op.sandboxId = some id → task'.stage.MapOk r.shared id)
    (hcalls : task'.stage.CallsOk r.shared task'.calls) : Orderly (r.setTask i task') where
  locks := forall_set hi hlock fun j other _ hj ↦ horderly.locks other (List.mem_of_getElem? hj)
  has_lock := forall_set hi hhasLock
    fun j other _ hj ↦ horderly.has_lock other (List.mem_of_getElem? hj)
  held := hheld
  map_ok := forall_set hi hmap fun j other _ hj ↦ horderly.map_ok other (List.mem_of_getElem? hj)
  calls_ok := forall_set hi hcalls
    fun j other _ hj ↦ horderly.calls_ok other (List.mem_of_getElem? hj)
  owned := by
    intro egress hopen
    refine (horderly.owned egress hopen).imp_right ?_
    rintro ⟨other, hother, hegress⟩
    obtain ⟨j, hj⟩ := mem_iff_getElem?.1 hother
    have hne : j ≠ i := by
      rintro rfl
      cases hi.symm.trans hj
      simp [howned] at hegress
    exact ⟨other, mem_set_of_ne hne hj, hegress⟩
  shutdown := forall_set hi (fun hshutdown ↦ absurd (hop ▸ hshutdown) hsandbox) (by
    intro j other hne hj hshutdown
    obtain ⟨hstages, hclosed, hdrained⟩ :=
      horderly.shutdown other (mem_of_getElem? hj) hshutdown
    refine ⟨hstages, hclosed, fun hstart hcancelled ↦ ⟨(hdrained hstart hcancelled).1, ?_⟩⟩
    exact forall_set hi hinMap
      fun k another _ hk ↦ (hdrained hstart hcancelled).2 another (mem_of_getElem? hk))

/-- A step under the lock. -/
theorem Orderly.moved (hid : task.op.sandboxId = some id) {new : List Call}
    (hmoved : Moved id r.shared s' task.stage stage task.calls (task.calls ++ new)) :
    Orderly ({ r with shared := s' }.setTask i
      { task with stage, calls := task.calls ++ new }) := by
  have hclosed : r.shared.closed = true → s'.closed = true := hmoved.closed.trans
  have hmem := mem_of_getElem? hi
  have hlock := horderly.has_lock task hmem (Stage.refers_of_holds hmoved.holds)
  refine ⟨?_, ?_, ?_, ?_, ?_, ?_, ?_⟩
  · exact forall_set hi (horderly.locks task hmem)
      fun j other _ hj ↦ horderly.locks other (mem_of_getElem? hj)
  · exact forall_set hi (fun _ ↦ hlock)
      fun j other _ hj ↦ horderly.has_lock other (mem_of_getElem? hj)
  · exact horderly.held_set hi (fun _ ↦ hmoved.holds) fun _ ↦ rfl
  · refine forall_set hi (fun id' hid' ↦ ?_) fun j other hne hj id' hid' ↦ ?_
    · cases hid.symm.trans hid'
      exact hmoved.map_ok
    · have hok := horderly.map_ok other (mem_of_getElem? hj) id' hid'
      by_cases heq : id' = id
      · subst heq
        refine hok.of_not_holds (Bool.eq_false_iff.2 fun hholds ↦ hne ?_)
        exact horderly.exclusive hj hi hholds hmoved.holds (hid'.trans hid.symm)
      · exact hok.congr hclosed (hmoved.others id' heq)
  · refine forall_set hi hmoved.calls_ok fun j other _ hj ↦ ?_
    exact (horderly.calls_ok other (mem_of_getElem? hj)).mono hclosed hmoved.length hmoved.shut
  · intro egress hopen
    by_cases hothers : ∃ j other, j ≠ i ∧ r.tasks[j]? = some other ∧ other.stage.owned = some egress
    · obtain ⟨j, other, hne, hj, hegress⟩ := hothers
      exact .inr ⟨other, mem_set_of_ne hne hj, hegress⟩
    · refine (hmoved.open_or egress hopen fun hbefore ↦ ?_).imp_right
        fun hegress ↦ ⟨_, mem_set_self hi, hegress⟩
      refine (horderly.owned egress hbefore).imp_right ?_
      rintro ⟨other, hother, hegress⟩
      obtain ⟨j, hj⟩ := mem_iff_getElem?.1 hother
      by_cases heq : j = i
      · subst heq
        cases hi.symm.trans hj
        exact hegress
      · exact absurd ⟨j, other, heq, hj, hegress⟩ hothers
  · refine forall_set hi (fun hshutdown ↦ ?_) fun j other hne hj hshutdown ↦ ?_
    · have hop : task.op = .shutdown := hshutdown
      rw [hop] at hid
      cases hid
    · obtain ⟨hstages, hwasClosed, hdrained⟩ :=
        horderly.shutdown other (mem_of_getElem? hj) hshutdown
      refine ⟨hstages, fun hstart ↦ hclosed (hwasClosed hstart), fun hstart hcancelled ↦ ?_⟩
      obtain ⟨hempty, hinMap⟩ := hdrained hstart hcancelled
      refine ⟨hmoved.empty (hinMap task hmem) hempty, forall_set hi ?_
        fun k another _ hk ↦ hinMap another (mem_of_getElem? hk)⟩
      refine Bool.eq_false_iff.2 fun htrue ↦ ?_
      have hopen := hmoved.in_map htrue
      rw [hwasClosed hstart] at hopen
      cases hopen

end

/-! ### The steps of the runtime -/

theorem orderly_start : Orderly ({} : EgressRuntime Rest) := by
  refine ⟨by simp, by simp, fun i j ti tj hi ↦ by simp at hi, by simp, by simp, ?_, by simp⟩
  intro egress hopen
  simp [Shared.isOpen] at hopen

theorem Orderly.call (horderly : Orderly r) (op : Op Rest) :
    Orderly { r with tasks := r.tasks ++ [{ op }] } := by
  have hnew : ∀ {P : Task Rest → Prop}, (∀ task ∈ r.tasks, P task) → P { op } →
      ∀ task ∈ r.tasks ++ [({ op } : Task Rest)], P task := by
    intro P hold hself task htask
    rcases mem_append.1 htask with htask | htask
    · exact hold task htask
    · rw [mem_singleton.1 htask]
      exact hself
  refine ⟨hnew horderly.locks (by simp), hnew horderly.has_lock (by simp [Stage.refers, Stage.holds]), ?_,
    hnew horderly.map_ok fun _ _ ↦ trivial, hnew horderly.calls_ok rfl, ?_, ?_⟩
  · have hheld : ∀ (i : ℕ) (task : Task Rest), (r.tasks ++ [({ op } : Task Rest)])[i]? = some task →
        task.stage.holds = true → r.tasks[i]? = some task := by
      intro i task hi hholds
      rcases Nat.lt_or_ge i r.tasks.length with hlt | hge
      · rwa [getElem?_append_left hlt] at hi
      · rw [getElem?_append_right hge, getElem?_singleton] at hi
        split at hi <;> cases hi
        cases hholds
    intro i j ti tj hi hj hholds hholds'
    exact horderly.held i j ti tj (hheld i ti hi hholds) (hheld j tj hj hholds') hholds hholds'
  · intro egress hopen
    refine (horderly.owned egress hopen).imp_right ?_
    rintro ⟨task, htask, hegress⟩
    exact ⟨task, mem_append_left _ htask, hegress⟩
  · refine hnew (fun task htask hshutdown ↦ ?_) fun _ ↦ ⟨.inl rfl, by simp, by simp⟩
    obtain ⟨hstages, hclosed, hdrained⟩ := horderly.shutdown task htask hshutdown
    exact ⟨hstages, hclosed, fun hstart hcancelled ↦ ⟨(hdrained hstart hcancelled).1,
      hnew (hdrained hstart hcancelled).2 rfl⟩⟩

theorem Orderly.die (horderly : Orderly r) (egress : ProxyId) :
    Orderly { r with shared := r.shared.close egress } := by
  refine ⟨horderly.locks, horderly.has_lock, horderly.held, horderly.map_ok, fun task htask ↦ ?_,
    fun other hopen ↦ ?_, fun task htask hshutdown ↦ ?_⟩
  · have hshut : ∀ other, r.shared.Shut other → (r.shared.close egress).Shut other :=
      fun _ hshut ↦ hshut.close
    show task.stage.CallsOk (r.shared.close egress) task.calls
    exact (horderly.calls_ok task htask).mono (s := r.shared) (fun hclosed ↦ hclosed)
      (by simp [Shared.close]) hshut
  · rw [Shared.isOpen_close, Bool.and_eq_true] at hopen
    exact horderly.owned other hopen.1
  · obtain ⟨hstages, hclosed, hdrained⟩ := horderly.shutdown task htask hshutdown
    exact ⟨hstages, hclosed, hdrained⟩

section Locks

theorem alive_of_mem (htask : task ∈ r.tasks) {lock : ℕ} (hlock : task.lock = some lock) :
    r.alive lock = true :=
  any_eq_true.2 ⟨task, htask, by simp [hlock]⟩

theorem lookup_retained {lock : ℕ} (hlookup : r.locks.lookup id = some lock)
    (halive : r.alive lock = true) : r.retained.lookup id = some lock := by
  obtain ⟨before, after, heq, hbefore⟩ := lookup_eq_some_iff.1 hlookup
  refine lookup_eq_some_iff.2 ⟨before.filter fun entry ↦ r.alive entry.2,
    after.filter fun entry ↦ r.alive entry.2, ?_, fun entry hentry ↦ ?_⟩
  · rw [EgressRuntime.retained, heq, filter_append, filter_cons_of_pos (a := (id, lock)) halive]
  · exact hbefore entry (mem_of_mem_filter hentry)

theorem lookup_afterLookup_self : (r.afterLookup id).locks.lookup id = some (r.lockFor id) := by
  unfold EgressRuntime.afterLookup EgressRuntime.lockFor
  split
  · rename_i lock hlock
    rw [hlock]
    rfl
  · rename_i hnone
    rw [hnone]
    simp

theorem lookup_afterLookup {other : String} {lock : ℕ} (hlookup : r.locks.lookup other = some lock)
    (halive : r.alive lock = true) : (r.afterLookup id).locks.lookup other = some lock := by
  have hretained := lookup_retained hlookup halive
  unfold EgressRuntime.afterLookup
  split
  · exact hretained
  · rename_i hnone
    have hne : other ≠ id := by
      rintro rfl
      cases hnone.symm.trans hretained
    rw [lookup_cons, beq_eq_false_iff_ne.2 hne]
    exact hretained

theorem Orderly.withLocks (horderly : Orderly r) {locks : List (String × ℕ)} {allocated : ℕ}
    (hlocks : ∀ task ∈ r.tasks, ∀ lock, task.lock = some lock →
      ∃ id, task.op.sandboxId = some id ∧ locks.lookup id = some lock) :
    Orderly { r with locks, allocated } := by
  refine ⟨hlocks, horderly.has_lock, horderly.held, horderly.map_ok, horderly.calls_ok,
    horderly.owned, fun task htask hshutdown ↦ ?_⟩
  obtain ⟨hstages, hclosed, hdrained⟩ := horderly.shutdown task htask hshutdown
  exact ⟨hstages, hclosed, hdrained⟩

end Locks

theorem afterLookup_eq : r.afterLookup id =
    { r with
      locks := (r.afterLookup id).locks
      allocated := (r.afterLookup id).allocated } := by
  unfold EgressRuntime.afterLookup
  split <;> rfl

theorem Orderly.lookup (horderly : Orderly r) (hi : r.tasks[i]? = some task)
    (hstage : task.stage = .start) (hid : task.op.sandboxId = some id) :
    Orderly ((r.afterLookup id).setTask i
      { task with lock := some (r.lockFor id), stage := .waiting }) := by
  have hafter : Orderly (r.afterLookup id) := by
    rw [afterLookup_eq]
    refine horderly.withLocks fun other hother lock hlock ↦ ?_
    obtain ⟨otherId, hotherId, hlookup⟩ := horderly.locks other hother lock hlock
    exact ⟨otherId, hotherId, lookup_afterLookup hlookup (alive_of_mem hother hlock)⟩
  have htasks : (r.afterLookup id).tasks = r.tasks := by rw [afterLookup_eq]
  have hi' : (r.afterLookup id).tasks[i]? = some task := htasks ▸ hi
  have hcalls : task.stage.CallsOk r.shared task.calls :=
    horderly.calls_ok task (mem_of_getElem? hi)
  rw [hstage] at hcalls
  refine hafter.setTask hi' rfl (fun lock hlock ↦ ?_) (by simp) ?_ ?_ rfl (by simp [hstage, Stage.owned])
    (fun _ _ ↦ trivial) hcalls
  · cases hlock
    exact ⟨id, hid, lookup_afterLookup_self⟩
  · exact hafter.held_set hi' (by simp [Stage.holds]) (by simp [Stage.holds])
  · intro hop
    rw [hop] at hid
    cases hid

theorem Orderly.shutdownStep (horderly : Orderly r) (hi : r.tasks[i]? = some task)
    (hop : task.op = .shutdown) (hclosed : s'.closed = true)
    (hlength : r.shared.proxies.length ≤ s'.proxies.length)
    (hshut : ∀ egress, r.shared.Shut egress → s'.Shut egress)
    (hsandboxes : s'.sandboxes = r.shared.sandboxes ∨
      s'.sandboxes = [] ∧ ∀ other ∈ r.tasks, other.stage.inMap = false)
    (hstage : stage = .cancelled ∨ (∃ rest, stage = .closingAll rest) ∨
      ∃ outcome, stage = .finished outcome)
    (hdrained : stage ≠ .cancelled →
      s'.sandboxes = [] ∧ ∀ other ∈ r.tasks, other.stage.inMap = false)
    (hcalls : stage.CallsOk s' calls) :
    Orderly ({ r with shared := s' }.setTask i { task with stage, calls }) := by
  have hholds : stage.holds = false := by
    rcases hstage with rfl | ⟨rest, rfl⟩ | ⟨outcome, rfl⟩ <;> rfl
  have hinMap : stage.inMap = false := by
    rcases hstage with rfl | ⟨rest, rfl⟩ | ⟨outcome, rfl⟩ <;> rfl
  have hrefers : stage.refers = false := by
    rcases hstage with rfl | ⟨rest, rfl⟩ | ⟨outcome, rfl⟩ <;> rfl
  have hmem := List.mem_of_getElem? hi
  have hempty : r.shared.sandboxes = [] → s'.sandboxes = [] := fun hold ↦
    hsandboxes.elim (fun hsame ↦ hsame.trans hold) fun hnone ↦ hnone.1
  refine ⟨?_, ?_, ?_, ?_, ?_, ?_, ?_⟩
  · exact forall_set hi (horderly.locks task hmem)
      fun j other _ hj ↦ horderly.locks other (List.mem_of_getElem? hj)
  · exact forall_set hi (fun htrue ↦ by simp [hrefers] at htrue)
      fun j other _ hj ↦ horderly.has_lock other (List.mem_of_getElem? hj)
  · exact horderly.held_set hi (fun htrue ↦ by simp [hholds] at htrue)
      fun htrue ↦ by simp [hholds] at htrue
  · refine forall_set hi (fun id hid ↦ ?_) fun j other _ hj id hid ↦ ?_
    · have hid' : task.op.sandboxId = some id := hid
      rw [hop] at hid'
      cases hid'
    · have hotherMem := List.mem_of_getElem? hj
      have hok := horderly.map_ok other hotherMem id hid
      rcases hsandboxes with hsame | ⟨hnone, hfree⟩
      · exact hok.congr (fun _ ↦ hclosed) (congrArg (List.lookup id) hsame)
      · exact hok.drain hclosed hnone (hfree other hotherMem)
  · exact forall_set hi hcalls fun j other _ hj ↦
      (horderly.calls_ok other (List.mem_of_getElem? hj)).mono (fun _ ↦ hclosed) hlength hshut
  · intro egress hopen
    rw [EgressRuntime.setTask, Shared.isOpen_of_closed hclosed] at hopen
    cases hopen
  · refine forall_set hi (fun _ ↦ ?_) fun j other _ hj hshutdown ↦ ?_
    · refine ⟨.inr hstage, fun _ ↦ hclosed, fun _ hcancelled ↦ ?_⟩
      exact ⟨(hdrained hcancelled).1, forall_set hi hinMap
        fun k another _ hk ↦ (hdrained hcancelled).2 another (List.mem_of_getElem? hk)⟩
    · obtain ⟨hstages, -, hold⟩ := horderly.shutdown other (List.mem_of_getElem? hj) hshutdown
      refine ⟨hstages, fun _ ↦ hclosed, fun hstart hcancelled ↦ ?_⟩
      exact ⟨hempty (hold hstart hcancelled).1, forall_set hi hinMap
        fun k another _ hk ↦ (hold hstart hcancelled).2 another (List.mem_of_getElem? hk)⟩

theorem Shared.Shut.closeAll {egress : ProxyId} (hshut : s.Shut egress) :
    Shut { s with closed := true } egress :=
  ⟨hshut.1, Shared.isOpen_of_closed rfl⟩

theorem free_iff : r.free = true ↔ ∀ task ∈ r.tasks, task.stage.inMap = false := by
  simp [EgressRuntime.free]

theorem Orderly.advanceShutdown {new : List Call} (horderly : Orderly r)
    (hi : r.tasks[i]? = some task) (hop : task.op = .shutdown)
    (hadvance : advanceShutdown r.shared r.free task.stage = some (s', stage, new)) :
    Orderly ({ r with shared := s' }.setTask i
      { task with stage, calls := task.calls ++ new }) := by
  have hmem := mem_of_getElem? hi
  obtain ⟨-, hclosed, hdrained⟩ := horderly.shutdown task hmem hop
  have hcalls := horderly.calls_ok task hmem
  unfold Runtime.advanceShutdown at hadvance
  split at hadvance
  · rename_i hstage
    rw [hstage] at hcalls
    cases hadvance
    exact horderly.shutdownStep hi hop rfl (Nat.le_refl _) (fun _ hshut ↦ hshut.closeAll)
      (.inl rfl) (.inl rfl) (fun hne ↦ absurd rfl hne) (by rw [append_nil]; exact hcalls)
  · rename_i hstage
    rw [hstage] at hcalls hclosed
    split at hadvance <;> cases hadvance
    rename_i hfree
    exact horderly.shutdownStep hi hop (hclosed (by simp)) (Nat.le_refl _) (fun _ ↦ id)
      (.inr ⟨rfl, free_iff.1 hfree⟩) (.inr (.inl ⟨_, rfl⟩)) (fun _ ↦ ⟨rfl, free_iff.1 hfree⟩)
      (by rw [append_nil]; exact hcalls)
  · rename_i hstage
    rw [hstage] at hcalls hclosed hdrained
    cases hadvance
    exact horderly.shutdownStep hi hop (hclosed (by simp)) (Nat.le_refl _) (fun _ ↦ id)
      (.inl rfl) (.inr (.inr ⟨_, rfl⟩)) (fun _ ↦ hdrained (by simp) (by simp)) (.inl (by
        rw [append_nil]
        exact hcalls))
  · rename_i egress rest hstage
    rw [hstage] at hcalls hclosed hdrained
    cases hadvance
    exact horderly.shutdownStep hi hop (hclosed (by simp)) (by simp [Shared.close])
      (fun _ hshut ↦ hshut.close) (.inl rfl) (.inr (.inl ⟨_, rfl⟩))
      (fun _ ↦ hdrained (by simp) (by simp)) (by rw [append_nil]; exact hcalls)
  · cases hadvance

/-! ### All steps -/

section Steps
variable {r' : EgressRuntime Rest} {env : Env} {label : EgressRuntime.Label Rest}

theorem Orderly.lockStep (horderly : Orderly r) (hi : r.tasks[i]? = some task)
    (hid : task.op.sandboxId = some id) (hstage : task.stage = .waiting)
    (hfree : task.lock.any r.held = false) (hlock : task.lock.isSome = true) :
    Orderly (r.setTask i { task with stage := .locked }) := by
  have hmem := List.mem_of_getElem? hi
  have hcalls := horderly.calls_ok task hmem
  rw [hstage] at hcalls
  refine horderly.setTask hi rfl (horderly.locks task hmem) (fun _ ↦ hlock) ?_ (fun hop ↦ ?_) rfl
    (by simp [hstage, Stage.owned]) (fun _ _ ↦ trivial) hcalls
  · have hnone : ∀ (j : ℕ) (other : Task Rest), r.tasks[j]? = some other →
        other.stage.holds = true → other.lock ≠ task.lock := by
      intro j other hj hholds hsame
      obtain ⟨lock, hlock⟩ := isSome_iff_exists.1 hlock
      rw [hlock, any_some, EgressRuntime.held, List.any_eq_false] at hfree
      exact hfree other (List.mem_of_getElem? hj) (by simp [hsame, hlock, hholds])
    have hbefore : ∀ (a : ℕ) (ta : Task Rest),
        (r.tasks.set i { task with stage := .locked })[a]? = some ta → ta.stage.holds = true →
          (a = i ∧ ta.lock = task.lock) ∨ (r.tasks[a]? = some ta ∧ ta.lock ≠ task.lock) := by
      intro a ta ha hholds
      by_cases heq : a = i
      · subst heq
        rw [List.getElem?_set_self (List.getElem?_eq_some_iff.1 hi).1] at ha
        cases ha
        exact .inl ⟨rfl, rfl⟩
      · rw [List.getElem?_set_ne (Ne.symm heq)] at ha
        exact .inr ⟨ha, hnone a ta ha hholds⟩
    intro a b ta tb ha hb hholds hholds' hsame
    rcases hbefore a ta ha hholds with ⟨rfl, hta⟩ | ⟨hold, hta⟩ <;>
    rcases hbefore b tb hb hholds' with ⟨rfl, htb⟩ | ⟨hold', htb⟩
    · rfl
    · exact absurd (hsame.symm.trans hta) htb
    · exact absurd (hsame.trans htb) hta
    · exact horderly.held a b ta tb hold hold' hholds hholds' hsame
  · rw [hop] at hid
    cases hid

variable [DecidableEq Rest]

/-- What a step of a task is: about its lock, or an advance. -/
theorem stepTask_cases (hstep : r.stepTask i task env = some r') :
    (∃ id, task.op.sandboxId = some id ∧ task.stage = .start ∧ r' = (r.afterLookup id).setTask i
      { task with lock := some (r.lockFor id), stage := .waiting }) ∨
    (∃ id, task.op.sandboxId = some id ∧ task.stage = .waiting ∧
      task.lock.any r.held = false ∧ r' = r.setTask i { task with stage := .locked }) ∨
    (∃ id outcome, task.op.sandboxId = some id ∧ task.stage = .unlocking outcome ∧
      r' = r.setTask i { task with stage := .dropping outcome }) ∨
    (∃ id outcome, task.op.sandboxId = some id ∧ task.stage = .dropping outcome ∧
      r' = r.setTask i { task with lock := none, stage := .finished outcome }) ∨
    ∃ s' stage new, task.op.advance r.shared r.free env task.stage = some (s', stage, new) ∧
      r' = { r with shared := s' }.setTask i { task with stage, calls := task.calls ++ new } := by
  unfold EgressRuntime.stepTask at hstep
  split at hstep
  · rename_i id hstage hid
    cases hstep
    exact .inl ⟨id, hid, hstage, rfl⟩
  · rename_i id hstage hid
    split at hstep <;> cases hstep
    rename_i hheld
    exact .inr (.inl ⟨id, hid, hstage, by simpa using hheld, rfl⟩)
  · rename_i outcome id hstage hid
    cases hstep
    exact .inr (.inr (.inl ⟨id, outcome, hid, hstage, rfl⟩))
  · rename_i outcome id hstage hid
    cases hstep
    exact .inr (.inr (.inr (.inl ⟨id, outcome, hid, hstage, rfl⟩)))
  · obtain ⟨⟨s', stage, new⟩, hadvance, rfl⟩ := map_eq_some_iff.1 hstep
    exact .inr (.inr (.inr (.inr ⟨s', stage, new, hadvance, rfl⟩)))

theorem Orderly.next (horderly : Orderly r) (hstep : r.step label = some r') : Orderly r' := by
  cases label with
  | call op =>
    cases hstep
    exact horderly.call op
  | die egress =>
    cases hstep
    exact horderly.die egress
  | step i env =>
    obtain ⟨task, hi, hstep⟩ := bind_eq_some_iff.1 hstep
    have hmem := mem_of_getElem? hi
    have hcalls := horderly.calls_ok task hmem
    have hsandbox : ∀ {id}, task.op.sandboxId = some id → task.op ≠ .shutdown := by
      intro id hid hop
      rw [hop] at hid
      cases hid
    rcases stepTask_cases hstep with ⟨id, hid, hstage, rfl⟩ | ⟨id, hid, hstage, hfree, rfl⟩ |
      ⟨id, outcome, hid, hstage, rfl⟩ | ⟨id, outcome, hid, hstage, rfl⟩ |
      ⟨s', stage, new, hadvance, rfl⟩
    · exact horderly.lookup hi hstage hid
    · exact horderly.lockStep hi hid hstage hfree
        (horderly.has_lock task hmem (by simp [hstage, Stage.refers]))
    · rw [hstage] at hcalls
      have hlock := horderly.has_lock task hmem (by simp [hstage, Stage.refers, Stage.holds])
      exact horderly.setTask hi rfl (horderly.locks task hmem) (fun _ ↦ hlock)
        (horderly.held_set hi (by simp [Stage.holds]) fun _ ↦ rfl) (hsandbox hid) rfl
        (by simp [hstage, Stage.owned]) (fun _ _ ↦ trivial) hcalls
    · rw [hstage] at hcalls
      exact horderly.setTask hi rfl (by simp) (by simp [Stage.refers, Stage.holds])
        (horderly.held_set hi (by simp [Stage.holds]) (by simp [Stage.holds])) (hsandbox hid) rfl
        (by simp [hstage, Stage.owned]) (fun _ _ ↦ trivial) hcalls
    · cases hop : task.op with
      | acquire request externalProxy =>
        rw [hop] at hadvance
        have hid : task.op.sandboxId = some request.sandboxId := by rw [hop]; rfl
        rw [← hop]
        exact horderly.moved hi hid
          (moved_acquire hadvance (horderly.map_ok task hmem _ hid) hcalls)
      | terminate id =>
        rw [hop] at hadvance
        have hid : task.op.sandboxId = some id := by rw [hop]; rfl
        rw [← hop]
        exact horderly.moved hi hid
          (moved_terminate hadvance (horderly.map_ok task hmem _ hid) hcalls)
      | shutdown =>
        rw [hop] at hadvance
        rw [← hop]
        exact horderly.advanceShutdown hi hop hadvance

end Steps

end Exo.Egress.Runtime
