import Mathlib.Logic.Function.Basic
import Exo.Library.System

/-!
# The lock of a conversation's wakeups

`send_conversation_wakeup_content` holds a lock file from before it sends the wakeup until the
session has ended.  A caller that finds the file there reads its age and removes it if it is older
than thirty minutes.  The age check and the removal are separate steps, and both the removal and the
drop of a lock remove the file by its name.

A caller is one call, in any process.  It may run arbitrarily long, fail or crash at any point, and
the steps of all callers interleave freely.
-/

namespace Exo.Scheduler

open Library Option Function System

/-! ## The lock file -/

/-- `STALE_AFTER`, in nanoseconds. -/
def staleAfter : ℕ := 30 * 60 * 1000000000

/-- The age of the file is over the limit; a file from the future is not stale. -/
def isStale (now modified : ℕ) : Bool := decide (modified + staleAfter < now)

/-- The file, with the call that created it. -/
structure LockFile (Caller : Type*) where
  creator : Caller
  modified : ℕ
  deriving DecidableEq

/-- Where a call stands: before `create_new`, in `remove_stale_lock` before the metadata is read,
before its age is taken and before the file is removed, between `acquire` and the drop, after it,
left with an error, or gone with its process. -/
inductive WakeupPhase where
  | idle
  | creating
  | found
  | judging (modified : ℕ)
  | removing
  | holding
  | done
  | failed
  | crashed

/-- The call is on its way to the lock. -/
def WakeupPhase.acquiring : WakeupPhase → Bool
  | .creating | .found | .judging _ | .removing => true
  | _ => false

structure WakeupLock (Caller : Type*) where
  now : ℕ := 0
  file : Option (LockFile Caller) := none
  phase : Caller → WakeupPhase := fun _ ↦ .idle

/-- The steps of callers and the clock.  A drop that cannot remove the file only logs it; a call
fails on any other error of the file system. -/
inductive WakeupLockLabel (Caller : Type*) where
  | advance (nanoseconds : ℕ)
  | call (caller : Caller)
  | createNew (caller : Caller)
  | metadata (caller : Caller)
  | judge (caller : Caller)
  | removeFile (caller : Caller)
  | fail (caller : Caller)
  | drop (caller : Caller) (removes : Bool)
  | crash (caller : Caller)

namespace WakeupLock

variable {Caller : Type*} [DecidableEq Caller]

section
variable (state : WakeupLock Caller)

section
variable (caller : Caller)

section
variable (phase : WakeupPhase)

def setPhase : WakeupLock Caller :=
  { state with phase := Function.update state.phase caller phase }

@[simp]
theorem setPhase_now : (state.setPhase caller phase).now = state.now := rfl

@[simp]
theorem setPhase_file : (state.setPhase caller phase).file = state.file := rfl

@[simp]
theorem setPhase_self : (state.setPhase caller phase).phase caller = phase := update_self ..

end

theorem setPhase_of_ne {caller other : Caller} (hne : other ≠ caller)
    (phase : WakeupPhase) : (state.setPhase caller phase).phase other = state.phase other :=
  update_of_ne hne ..

/-- `create_new`: it makes the file, or finds that there is one. -/
def createNew : WakeupLock Caller :=
  match state.file with
  | none => { state with file := some ⟨caller, state.now⟩ }.setPhase caller .holding
  | some _ => state.setPhase caller .found

/-- The modification time; without it nothing is removed. -/
def metadata : WakeupLock Caller :=
  match state.file with
  | none => state.setPhase caller .creating
  | some file => state.setPhase caller (.judging file.modified)

def judge : WakeupLock Caller :=
  match state.phase caller with
  | .judging modified =>
    if isStale state.now modified then state.setPhase caller .removing
    else state.setPhase caller .creating
  | _ => state

end

/-- Whatever file has the name is gone. -/
def removeFile : WakeupLock Caller := { state with file := none }

end

theorem createNew_none {state : WakeupLock Caller} (hfile : state.file = none) (caller : Caller) :
    state.createNew caller =
      { state with file := some ⟨caller, state.now⟩ }.setPhase caller .holding := by
  unfold createNew
  rw [hfile]

variable {file : LockFile Caller} {phase : WakeupPhase}

theorem createNew_some {state : WakeupLock Caller} (hfile : state.file = some file)
    (caller : Caller) : state.createNew caller = state.setPhase caller .found := by
  unfold createNew
  rw [hfile]

theorem metadata_none {state : WakeupLock Caller} (hfile : state.file = none) (caller : Caller) :
    state.metadata caller = state.setPhase caller .creating := by
  unfold metadata
  rw [hfile]

theorem metadata_some {state : WakeupLock Caller} (hfile : state.file = some file)
    (caller : Caller) : state.metadata caller = state.setPhase caller (.judging file.modified) := by
  unfold metadata
  rw [hfile]

theorem judge_judging {state : WakeupLock Caller} {caller : Caller} {modified : ℕ}
    (hphase : state.phase caller = .judging modified) :
    state.judge caller =
      state.setPhase caller (if isStale state.now modified then .removing else .creating) := by
  unfold judge
  rw [hphase, apply_ite (state.setPhase caller)]

def enabled (state : WakeupLock Caller) : WakeupLockLabel Caller → Prop
  | .advance _ => True
  | .call caller => state.phase caller = .idle
  | .createNew caller => state.phase caller = .creating
  | .metadata caller => state.phase caller = .found
  | .judge caller => ∃ modified, state.phase caller = .judging modified
  | .removeFile caller => state.phase caller = .removing
  | .fail caller => state.phase caller = .creating ∨ state.phase caller = .removing
  | .drop caller _ => state.phase caller = .holding
  | .crash caller => (state.phase caller).acquiring = true ∨ state.phase caller = .holding

def next (state : WakeupLock Caller) : WakeupLockLabel Caller → WakeupLock Caller
  | .advance nanoseconds => { state with now := state.now + nanoseconds }
  | .call caller => state.setPhase caller .creating
  | .createNew caller => state.createNew caller
  | .metadata caller => state.metadata caller
  | .judge caller => state.judge caller
  | .removeFile caller => state.removeFile.setPhase caller .creating
  | .fail caller => state.setPhase caller .failed
  | .drop caller removes =>
    (if removes then state.removeFile else state).setPhase caller .done
  | .crash caller => state.setPhase caller .crashed

/-- The calls of `send_conversation_wakeup` for one conversation. -/
def callers : System (WakeupLock Caller) (WakeupLockLabel Caller) where
  enabled := enabled
  next := next

/-! ## Exclusion -/

section
variable (state : WakeupLock Caller)

/-- At most one caller is between `acquire` and its drop. -/
def Exclusive : Prop :=
  ∀ caller other, state.phase caller = .holding → state.phase other = .holding → caller = other

/-- A drop removes only the file its caller has created. -/
def DropsOwn : WakeupLockLabel Caller → Prop
  | .drop caller true => ∀ file, state.file = some file → file.creator = caller
  | _ => True

/-- The file that a waiter removes is not the file of a caller that still holds the lock. -/
def Spares : WakeupLockLabel Caller → Prop
  | .removeFile _ => ∀ file, state.file = some file → state.phase file.creator ≠ .holding
  | _ => True

/-- Every holder has its own file in place. -/
def Guarded : Prop :=
  ∀ caller, state.phase caller = .holding → ∃ file, state.file = some file ∧ file.creator = caller

end

variable {state : WakeupLock Caller} {caller : Caller}

omit [DecidableEq Caller] in
theorem Guarded.exclusive (hguarded : state.Guarded) : state.Exclusive := by
  intro caller other hcaller hother
  obtain ⟨file, hfile, rfl⟩ := hguarded caller hcaller
  obtain ⟨same, hsame, rfl⟩ := hguarded other hother
  rw [some.inj (hfile.symm.trans hsame)]

variable {label : WakeupLockLabel Caller}

omit [DecidableEq Caller] in
theorem Guarded.dropsOwn (hguarded : state.Guarded) (henabled : state.enabled label) :
    state.DropsOwn label := by
  cases label with
  | drop caller removes =>
    cases removes with
    | false => trivial
    | true =>
      intro file hfile
      obtain ⟨own, hown, rfl⟩ := hguarded caller henabled
      rw [some.inj (hfile.symm.trans hown)]
  | _ => trivial

/-- A caller that does not hold the lock afterwards changes nothing about the holders. -/
theorem Guarded.setPhase (hguarded : state.Guarded) (hphase : phase ≠ .holding) :
    (state.setPhase caller phase).Guarded := by
  intro other hholding
  by_cases hsame : other = caller
  · subst hsame
    rw [setPhase_self] at hholding
    exact absurd hholding hphase
  · rw [setPhase_of_ne state hsame] at hholding
    exact hguarded other hholding

/-- A file that no other caller holds can be removed by a caller that does not hold it
afterwards. -/
theorem Guarded.removeFile (hguarded : state.Guarded) (hphase : phase ≠ .holding)
    (hfile : ∀ file, state.file = some file →
      file.creator = caller ∨ state.phase file.creator ≠ .holding) :
    (state.removeFile.setPhase caller phase).Guarded := by
  intro other hholding
  by_cases hsame : other = caller
  · subst hsame
    rw [setPhase_self] at hholding
    exact absurd hholding hphase
  · rw [setPhase_of_ne _ hsame] at hholding
    obtain ⟨file, hother, rfl⟩ := hguarded other hholding
    rcases hfile file hother with hcreator | hnot
    · exact absurd hcreator hsame
    · exact absurd hholding hnot

theorem Guarded.createNew (hguarded : state.Guarded) (caller : Caller) :
    (state.createNew caller).Guarded := by
  cases hfile : state.file with
  | some file =>
    rw [createNew_some hfile]
    exact hguarded.setPhase (by simp)
  | none =>
    rw [createNew_none hfile]
    intro other hholding
    by_cases hsame : other = caller
    · subst hsame
      exact ⟨_, rfl, rfl⟩
    · rw [setPhase_of_ne _ hsame] at hholding
      obtain ⟨file, hother, -⟩ := hguarded other hholding
      cases hfile.symm.trans hother

/-- A step that spares the file of a holder keeps the holders' files in place. -/
theorem Guarded.next (hguarded : state.Guarded) (henabled : state.enabled label)
    (hspares : state.Spares label) : (state.next label).Guarded := by
  cases label with
  | advance nanoseconds => exact hguarded
  | call caller | fail caller | crash caller => exact hguarded.setPhase (by simp)
  | createNew caller => exact hguarded.createNew caller
  | metadata caller =>
    simp only [WakeupLock.next]
    cases hfile : state.file with
    | none =>
      rw [metadata_none hfile]
      exact hguarded.setPhase (by simp)
    | some file =>
      rw [metadata_some hfile]
      exact hguarded.setPhase (by simp)
  | judge caller =>
    obtain ⟨modified, hphase⟩ := henabled
    simp only [WakeupLock.next]
    rw [judge_judging hphase]
    exact hguarded.setPhase (by split_ifs <;> simp)
  | removeFile caller =>
    exact hguarded.removeFile (by simp) (fun file hfile ↦ .inr (hspares file hfile))
  | drop caller removes =>
    cases removes with
    | false => exact hguarded.setPhase (by simp)
    | true =>
      refine hguarded.removeFile (by simp) ?_
      intro file hfile
      obtain ⟨own, hown, rfl⟩ := hguarded caller henabled
      rw [some.inj (hfile.symm.trans hown)]
      exact .inl rfl

/-! ## A lock left behind -/

end WakeupLock

/-- The call that takes the step. -/
def WakeupLockLabel.caller? {Caller : Type*} : WakeupLockLabel Caller → Option Caller
  | .advance _ => none
  | .call caller | .createNew caller | .metadata caller | .judge caller | .removeFile caller
  | .fail caller | .drop caller _ | .crash caller => some caller

/-- A step of the loop of `acquire`. -/
def WakeupLockLabel.acquires {Caller : Type*} : WakeupLockLabel Caller → Bool
  | .createNew _ | .metadata _ | .judge _ | .removeFile _ => true
  | _ => false

/-- The call leaves the loop without the lock. -/
def WakeupLockLabel.gives {Caller : Type*} : WakeupLockLabel Caller → Bool
  | .fail _ | .crash _ => true
  | _ => false

namespace WakeupLock

variable {Caller : Type*} [DecidableEq Caller] {state : WakeupLock Caller} {caller : Caller}
  {file : LockFile Caller} {label : WakeupLockLabel Caller}

/-- The steps of the loop that this call takes. -/
def rounds (caller : Caller) (labels : List (WakeupLockLabel Caller)) : ℕ :=
  labels.countP fun label ↦ label.acquires && decide (label.caller? = some caller)

/-- How many steps of the loop it takes a call at most to remove a stale file. -/
def roundsLeft (now : ℕ) : WakeupPhase → ℕ
  | .creating => 4
  | .found => 3
  | .judging modified => if isStale now modified then 2 else 5
  | .removing => 1
  | _ => 0

theorem roundsLeft_le (now : ℕ) (phase : WakeupPhase) : roundsLeft now phase ≤ 5 := by
  cases phase with
  | judging modified =>
    simp only [roundsLeft]
    split_ifs <;> omega
  | _ =>
    simp [roundsLeft]

variable {now later : ℕ} {labels : List (WakeupLockLabel Caller)}

theorem isStale_mono {modified : ℕ} (hstale : isStale now modified = true) (hle : now ≤ later) :
    isStale later modified = true := by
  have hlt := of_decide_eq_true hstale
  exact decide_eq_true (by omega)

theorem roundsLeft_mono (hle : now ≤ later) (phase : WakeupPhase) :
    roundsLeft later phase ≤ roundsLeft now phase := by
  cases phase with
  | judging modified =>
    simp only [roundsLeft]
    by_cases hstale : isStale now modified = true
    · exact Nat.le_of_eq (by rw [if_pos hstale, if_pos (isStale_mono hstale hle)])
    · rw [if_neg hstale]
      split_ifs <;> omega
  | _ => exact Nat.le_refl _

/-- A step of a call changes the file and the phase of the call. -/
theorem next_eq_setPhase (hcaller : label.caller? = some caller) :
    ∃ present phase, state.next label = { state with file := present }.setPhase caller phase := by
  cases label with
  | advance nanoseconds => cases hcaller
  | call other | fail other | crash other =>
    obtain rfl := some.inj hcaller
    exact ⟨state.file, _, rfl⟩
  | removeFile other =>
    obtain rfl := some.inj hcaller
    exact ⟨none, _, rfl⟩
  | createNew other =>
    obtain rfl := some.inj hcaller
    cases hfile : state.file with
    | none => exact ⟨_, .holding, createNew_none hfile other⟩
    | some file => exact ⟨state.file, .found, createNew_some hfile other⟩
  | metadata other =>
    obtain rfl := some.inj hcaller
    cases hfile : state.file with
    | none => exact ⟨state.file, .creating, metadata_none hfile other⟩
    | some file => exact ⟨state.file, .judging file.modified, metadata_some hfile other⟩
  | judge other =>
    obtain rfl := some.inj hcaller
    have hself : state.setPhase other (state.phase other) = state := by
      unfold WakeupLock.setPhase
      rw [update_eq_self]
    cases hphase : state.phase other with
    | judging modified => exact ⟨state.file, _, judge_judging hphase⟩
    | _ =>
      refine ⟨state.file, state.phase other, ?_⟩
      rw [hself]
      simp [next, judge, hphase]
  | drop other removes =>
    obtain rfl := some.inj hcaller
    cases removes with
    | false => exact ⟨state.file, .done, rfl⟩
    | true => exact ⟨none, .done, rfl⟩

theorem now_le_next (state : WakeupLock Caller) (label : WakeupLockLabel Caller) :
    state.now ≤ (state.next label).now := by
  cases hcaller : label.caller? with
  | some caller =>
    obtain ⟨present, phase, heq⟩ := state.next_eq_setPhase hcaller
    rw [heq]
    exact Nat.le_refl _
  | none =>
    cases label with
    | advance nanoseconds => exact Nat.le_add_right _ _
    | _ => cases hcaller

theorem phase_next_of_ne (hne : label.caller? ≠ some caller) :
    (state.next label).phase caller = state.phase caller := by
  cases hother : label.caller? with
  | some other =>
    obtain ⟨present, phase, heq⟩ := state.next_eq_setPhase hother
    rw [heq]
    exact setPhase_of_ne _ (fun hsame ↦ hne (hother.trans (congrArg some hsame.symm))) phase
  | none =>
    cases label with
    | advance nanoseconds => rfl
    | _ => cases hother

theorem crashed_next (hcrashed : state.phase caller = .crashed) (henabled : state.enabled label) :
    (state.next label).phase caller = .crashed := by
  rw [phase_next_of_ne, hcrashed]
  intro hself
  cases label with
  | advance nanoseconds => cases hself
  | call other | createNew other | metadata other | removeFile other | drop other removes =>
    obtain rfl := some.inj hself
    cases hcrashed.symm.trans henabled
  | judge other =>
    obtain rfl := some.inj hself
    obtain ⟨modified, hphase⟩ := henabled
    cases hcrashed.symm.trans hphase
  | fail other =>
    obtain rfl := some.inj hself
    rcases henabled with hphase | hphase <;> cases hcrashed.symm.trans hphase
  | crash other =>
    obtain rfl := some.inj hself
    rcases henabled with hphase | hphase
    · rw [hcrashed] at hphase
      cases hphase
    · cases hcrashed.symm.trans hphase

theorem file_ne_next (hcrashed : state.phase file.creator = .crashed)
    (hgone : state.file ≠ some file) (henabled : state.enabled label) :
    (state.next label).file ≠ some file := by
  cases label with
  | advance | call | fail | crash => exact hgone
  | createNew other =>
    simp only [WakeupLock.next]
    cases hfile : state.file with
    | none =>
      rw [createNew_none hfile]
      intro heq
      obtain rfl := some.inj heq
      cases hcrashed.symm.trans henabled
    | some present =>
      rw [createNew_some hfile]
      exact hgone
  | metadata other =>
    simp only [WakeupLock.next]
    cases hfile : state.file with
    | none =>
      rw [metadata_none hfile]
      exact hgone
    | some present =>
      rw [metadata_some hfile]
      exact hgone
  | judge other =>
    obtain ⟨modified, hphase⟩ := henabled
    simp only [WakeupLock.next]
    rw [judge_judging hphase]
    exact hgone
  | removeFile other => exact some_ne_none file |>.symm
  | drop other removes =>
    cases removes with
    | false => exact hgone
    | true => exact some_ne_none file |>.symm

theorem file_ne_exec (hcrashed : state.phase file.creator = .crashed)
    (hgone : state.file ≠ some file) (hadmits : callers.Admits state labels) :
    (callers.exec state labels).file ≠ some file := by
  induction labels generalizing state with
  | nil => exact hgone
  | cons label labels ih =>
    exact ih (crashed_next hcrashed hadmits.1) (file_ne_next hcrashed hgone hadmits.1) hadmits.2

/-- While a stale file stays, a step of the loop brings its call closer to the removal. -/
theorem roundsLeft_next (hfile : state.file = some file)
    (hstale : isStale state.now file.modified = true)
    (hacquiring : (state.phase caller).acquiring = true) (henabled : state.enabled label)
    (hstays : ¬(label.gives = true ∧ label.caller? = some caller))
    (hnext : (state.next label).file = some file) :
    ((state.next label).phase caller).acquiring = true ∧
      roundsLeft (state.next label).now ((state.next label).phase caller) + rounds caller [label] ≤
        roundsLeft state.now (state.phase caller) := by
  by_cases hself : label.caller? = some caller
  · cases label with
    | advance nanoseconds => cases hself
    | call other =>
      obtain rfl := some.inj hself
      rw [show state.phase other = .idle from henabled] at hacquiring
      cases hacquiring
    | createNew other =>
      obtain rfl := some.inj hself
      have hphase : state.phase other = .creating := henabled
      simp only [WakeupLock.next]
      rw [createNew_some hfile, hphase]
      simp [WakeupPhase.acquiring, roundsLeft, rounds, WakeupLockLabel.acquires,
        WakeupLockLabel.caller?]
    | metadata other =>
      obtain rfl := some.inj hself
      have hphase : state.phase other = .found := henabled
      simp only [WakeupLock.next]
      rw [metadata_some hfile, hphase]
      simp [WakeupPhase.acquiring, roundsLeft, rounds, WakeupLockLabel.acquires,
        WakeupLockLabel.caller?, hstale]
    | judge other =>
      obtain rfl := some.inj hself
      obtain ⟨modified, hphase⟩ := henabled
      simp only [WakeupLock.next]
      rw [judge_judging hphase, hphase]
      by_cases hold : isStale state.now modified = true
      · simp [WakeupPhase.acquiring, roundsLeft, rounds, WakeupLockLabel.acquires,
          WakeupLockLabel.caller?, hold]
      · simp [WakeupPhase.acquiring, roundsLeft, rounds, WakeupLockLabel.acquires,
          WakeupLockLabel.caller?, hold]
    | removeFile other => cases hnext
    | fail | crash => exact absurd ⟨rfl, hself⟩ hstays
    | drop other removes =>
      obtain rfl := some.inj hself
      rw [show state.phase other = .holding from henabled] at hacquiring
      cases hacquiring
  · have hnone : rounds caller [label] = 0 := by
      simp [rounds, hself]
    rw [phase_next_of_ne hself, hnone]
    exact ⟨hacquiring, roundsLeft_mono (state.now_le_next label) _⟩

/-- A stale file of a crashed call is gone once another call has taken so many steps of its loop. -/
theorem file_ne_of_rounds (hfile : state.file = some file)
    (hcrashed : state.phase file.creator = .crashed)
    (hstale : isStale state.now file.modified = true)
    (hacquiring : (state.phase caller).acquiring = true) (hadmits : callers.Admits state labels)
    (hstays : ∀ label ∈ labels, ¬(label.gives = true ∧ label.caller? = some caller))
    (hrounds : roundsLeft state.now (state.phase caller) ≤ rounds caller labels) :
    (callers.exec state labels).file ≠ some file := by
  induction labels generalizing state with
  | nil =>
    have hpos : 0 < roundsLeft state.now (state.phase caller) := by
      cases hphase : state.phase caller with
      | judging modified =>
        simp only [roundsLeft]
        split_ifs <;> omega
      | creating | found | removing => simp [roundsLeft]
      | _ =>
        rw [hphase] at hacquiring
        cases hacquiring
    exact absurd hrounds (Nat.not_le.mpr hpos)
  | cons label labels ih =>
    have hcrashed' := crashed_next hcrashed hadmits.1
    by_cases hnext : (state.next label).file = some file
    · have hstep := roundsLeft_next hfile hstale hacquiring hadmits.1
        (hstays label List.mem_cons_self) hnext
      refine ih hnext hcrashed' (isStale_mono hstale (state.now_le_next label)) hstep.1 hadmits.2
        (fun other hother ↦ hstays other (List.mem_cons_of_mem _ hother)) ?_
      have hcount : rounds caller ([label] ++ labels) =
          rounds caller [label] + rounds caller labels := List.countP_append
      rw [List.singleton_append] at hcount
      have hleft := hstep.2
      change roundsLeft (state.next label).now ((state.next label).phase caller) ≤ _
      omega
    · have hgone : (callers.exec (state.next label) labels).file ≠ some file :=
        file_ne_exec hcrashed' hnext hadmits.2
      exact hgone

/-- The lock file of a crashed call does not block the others: once it is stale, it is gone by the
time that any of them has taken five steps of its loop. -/
def Unblocks (state : WakeupLock Caller) : Prop :=
  ∀ (file : LockFile Caller) (caller : Caller) (labels : List (WakeupLockLabel Caller)),
    state.file = some file → state.phase file.creator = .crashed →
    isStale state.now file.modified = true → (state.phase caller).acquiring = true →
    callers.Admits state labels →
    (∀ label ∈ labels, ¬(label.gives = true ∧ label.caller? = some caller)) →
    5 ≤ rounds caller labels → (callers.exec state labels).file ≠ some file

theorem unblocks (state : WakeupLock Caller) : state.Unblocks :=
  fun _ _ _ hfile hcrashed hstale hacquiring hadmits hstays hrounds ↦
    file_ne_of_rounds hfile hcrashed hstale hacquiring hadmits hstays
      (Nat.le_trans (roundsLeft_le _ _) hrounds)

end WakeupLock

/-- In every run whose removals spare the file of a holder, at most one caller holds the lock at a
time, a drop removes only the file of its own caller, and a lock left behind does not block. -/
theorem wakeups_serialized {Caller : Type*} [DecidableEq Caller]
    {labels : List (WakeupLockLabel Caller)} (hadmits : WakeupLock.callers.Admits {} labels)
    (hspares : WakeupLock.callers.Throughout WakeupLock.Spares {} labels) :
    WakeupLock.callers.Throughout (fun state label ↦ state.Exclusive ∧ state.DropsOwn label) {}
        labels ∧
      (WakeupLock.callers.exec {} labels).Exclusive ∧
      (WakeupLock.callers.exec {} labels).Unblocks := by
  have hrun := (admits_restrict_iff _ _ _).2 ⟨hadmits, hspares⟩
  have hinit : WakeupLock.Guarded ({} : WakeupLock Caller) := nofun
  have hstep (state : WakeupLock Caller) (label : WakeupLockLabel Caller)
      (hguarded : state.Guarded) (henabled : WakeupLock.callers.enabled state label)
      (hspared : state.Spares label) : (WakeupLock.callers.next state label).Guarded :=
    hguarded.next henabled hspared
  refine ⟨?_, (invariant_of_restrict _ hstep hinit hrun).exclusive, WakeupLock.unblocks _⟩
  refine (throughout_restrict WakeupLock.Spares _ _ _).1
    (throughout_of_invariant WakeupLock.Guarded ?_ ?_ hinit hrun)
  · exact fun state label hguarded hlabel ↦ hstep state label hguarded hlabel.1 hlabel.2
  · exact fun state label hguarded hlabel ↦ ⟨hguarded.exclusive, hguarded.dropsOwn hlabel.1⟩

/-- A call that crashes, and one that removes its lock file, holds the lock and drops it. -/
def recoveredRun : List (WakeupLockLabel ℕ) :=
  [.call 0, .createNew 0, .crash 0, .advance (staleAfter + 1), .call 1, .createNew 1, .metadata 1,
    .judge 1, .removeFile 1, .createNew 1, .advance 5, .drop 1 true]

theorem wakeups_serialized_recoveredRun : (WakeupLock.callers.exec {} recoveredRun).Exclusive ∧
      (WakeupLock.callers.exec {} recoveredRun).Unblocks :=
  have hadmits : WakeupLock.callers.Admits {} recoveredRun :=
    ⟨rfl, rfl, .inr rfl, trivial, rfl, rfl, rfl, ⟨_, rfl⟩, rfl, rfl, trivial, rfl, trivial⟩
  have hspares : WakeupLock.callers.Throughout WakeupLock.Spares {} recoveredRun := by
    refine ⟨trivial, trivial, trivial, trivial, trivial, trivial, trivial, trivial, ?_, trivial,
      trivial, trivial, trivial⟩
    intro file hfile hholding
    obtain rfl := some.inj hfile
    cases hholding
  (wakeups_serialized hadmits hspares).2

/-- Two calls find the file of a crashed one stale; the second removes the new file of the first. -/
def racingRun : List (WakeupLockLabel ℕ) :=
  [.call 0, .createNew 0, .crash 0, .advance (staleAfter + 1), .call 1, .createNew 1, .metadata 1,
    .judge 1, .call 2, .createNew 2, .metadata 2, .judge 2, .removeFile 1, .createNew 1,
    .removeFile 2, .createNew 2]

/-- A call holds the lock for more than thirty minutes while another one waits. -/
def longTurnRun : List (WakeupLockLabel ℕ) :=
  [.call 0, .createNew 0, .advance (staleAfter + 1), .call 1, .createNew 1, .metadata 1, .judge 1,
    .removeFile 1, .createNew 1]

/-- Two calls hold the lock, and the first of them drops the file of the other. -/
theorem not_serialized : (WakeupLock.callers.Admits {} racingRun ∧
        ¬(WakeupLock.callers.exec {} racingRun).Exclusive ∧
        ¬(WakeupLock.callers.exec {} racingRun).DropsOwn (.drop 1 true)) ∧
      WakeupLock.callers.Admits {} longTurnRun ∧
        ¬(WakeupLock.callers.exec {} longTurnRun).Exclusive ∧
        ¬(WakeupLock.callers.exec {} longTurnRun).DropsOwn (.drop 0 true) := by
  refine ⟨⟨⟨rfl, rfl, .inr rfl, trivial, rfl, rfl, rfl, ⟨_, rfl⟩, rfl, rfl, rfl, ⟨_, rfl⟩, rfl,
    rfl, rfl, rfl, trivial⟩, ?_, ?_⟩, ⟨rfl, rfl, trivial, rfl, rfl, rfl, ⟨_, rfl⟩, rfl, rfl,
    trivial⟩, ?_, ?_⟩
  · intro hexclusive
    cases hexclusive 1 2 rfl rfl
  · intro hdrops
    cases hdrops _ rfl
  · intro hexclusive
    cases hexclusive 0 1 rfl rfl
  · intro hdrops
    cases hdrops _ rfl

end Exo.Scheduler
