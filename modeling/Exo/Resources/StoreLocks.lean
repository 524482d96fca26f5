import Exo.Resources.StoreSteps

/-!
# The locks of the store

The files of a snapshot and of a thread change only in calls that hold their lock.  A call has the
locks it had and the one it waited for, and what it knows of the files when it enters a stage stays
true as long as it holds them.
-/

namespace Exo.Resources

open Library List

variable {files : Files} {stage after : Stage} {move : Move}

/-- A step leaves a snapshot alone unless the call holds its lock. -/
theorem Takes.snapshots_frame {key : Key} (htakes : Takes files stage move)
    (hlock : LockName.snapshot key ∉ stage.locks) :
    move.1.snapshots key = files.snapshots key ∧ move.1.published key = files.published key := by
  have hne (other : Key) (heq : stage.locks = [.snapshot other]) : key ≠ other := by
    intro hkey
    rw [heq, hkey] at hlock
    exact hlock (mem_singleton_self _)
  cases htakes with
  | publishing other | replacing other | removingSnapshot other =>
    exact ⟨Files.setSnapshot_of_ne files (hne other rfl) _, rfl⟩
  | moving other | removing other =>
    have hkey := hne other rfl
    exact ⟨Files.setSnapshot_of_ne files hkey _, Files.setPublished_of_ne files hkey _⟩
  | _ => exact ⟨rfl, rfl⟩

variable {thread : ThreadId}

/-- A step leaves the directory of a thread alone unless the call holds its lock. -/
theorem Takes.threads_frame (htakes : Takes files stage move)
    (hlock : LockName.thread thread ∉ stage.locks) :
    move.1.threads thread = files.threads thread := by
  have hne (other : ThreadId) (hmem : LockName.thread other ∈ stage.locks) : thread ≠ other := by
    intro hthread
    rw [hthread] at hlock
    exact hlock hmem
  cases htakes with
  | leavingThread | removingManifest | removingThread | reading | cloning =>
    exact Files.setThread_of_ne files (hne _ (mem_singleton_self _)) _
  | _ => rfl

/-- The next stage, if the call goes on, is such. -/
def Then (P : Stage → Prop) : Stage ⊕ CallResult → Prop
  | .inl stage => P stage
  | .inr _ => True

/-- The locks of a stage are those of the stage before it and the one that it waited for. -/
def Stage.LockedFrom (stage after : Stage) : Prop :=
  ∀ name ∈ after.locks, name ∈ stage.locks ∨ name ∈ stage.wants

theorem Goes.locked (hgoes : Goes files stage after) : stage.LockedFrom after := by
  cases hgoes with
  | prepare | prepareVolume | removeSnapshot | lockThread =>
    intro name hname
    obtain rfl := mem_singleton.1 hname
    exact .inr rfl
  | cloning hremaining hsnapshot | cloningGit hremaining hsnapshot =>
    intro name hname
    rcases mem_cons.1 hname with rfl | hname
    · exact .inl (mem_singleton_self _)
    · obtain rfl := mem_singleton.1 hname
      exact .inr (by simp [Stage.wants, PreparedResource.lock, hremaining, hsnapshot])
  | cloneSnapshot | clone =>
    intro name hname
    obtain rfl := mem_singleton.1 hname
    exact .inl (mem_cons_self ..)
  | _ => exact fun name hname ↦ .inl hname

theorem Takes.locked (htakes : Takes files stage move) : Then stage.LockedFrom move.2 := by
  cases htakes with
  | goes _ hgoes => exact hgoes.locked
  | returns | moving | removingSnapshot | removeThread | removingThread => trivial
  | materialize thread hne =>
    intro name hname
    obtain rfl := mem_singleton.1 hname
    exact .inr (by simp [Stage.wants, hne])
  | _ => exact fun name hname ↦ .inl hname

/-- What a call knows of the files when it enters its next stage. -/
theorem Takes.placed (htakes : Takes files stage move) (hplaced : stage.Placed files) :
    Then (Stage.Placed move.1) move.2 := by
  cases htakes with
  | goes _ hgoes =>
    cases hgoes with
    | unmounting => exact hplaced
    | publishing content hnone => exact ⟨hnone, hplaced⟩
    | _ => trivial
  | populating key text => exact mem_append_right _ (mem_singleton_self _)
  | publishing => exact hplaced
  | replacing key => exact ⟨Files.setSnapshot_self files key none, hplaced⟩
  | removing key => exact Files.setPublished_self _ key false
  | reading | cloning =>
    intro hnone
    cases (Files.setThread_self ..).symm.trans hnone
  | _ => trivial

theorem Takes.outputs (htakes : Takes files stage move) : files.outputs ⊆ move.1.outputs := by
  cases htakes with
  | populating => exact subset_append_left _ _
  | _ => exact List.Subset.refl _

/-- What a stage knows is about files under its locks. -/
theorem Stage.Placed.of_frame {other : Stage} (hplaced : other.Placed files)
    (htakes : Takes files stage move) (hapart : ∀ name ∈ other.locks, name ∉ stage.locks) :
    other.Placed move.1 := by
  cases other with
  | unmounting key populated =>
    cases populated with
    | none => trivial
    | some content => exact htakes.outputs hplaced
  | publishing | replacing => exact htakes.outputs hplaced
  | moving key content =>
    have hframe := htakes.snapshots_frame (hapart (.snapshot key) (mem_singleton_self _))
    exact ⟨hframe.1.trans hplaced.1, htakes.outputs hplaced.2⟩
  | removingSnapshot key =>
    have hframe := htakes.snapshots_frame (hapart (.snapshot key) (mem_singleton_self _))
    exact hframe.2.trans hplaced
  | mounting thread =>
    have hframe := htakes.threads_frame (hapart (.thread thread) (mem_singleton_self _))
    intro hnone
    exact hplaced (hframe.symm.trans hnone)
  | _ => trivial

/-- The stages of a `remove_thread` that change the directory. -/
def Stage.Leaves (thread : ThreadId) : Stage → Prop
  | .leavingThread other | .removingThread other _ => other = thread
  | _ => False

/-- The paths of a thread do not depend on the files in its workspaces. -/
def ThreadDirectory.names (directory : ThreadDirectory) : List String :=
  directory.instances.map fun entry ↦ entry.prepared.name

theorem Stage.Materializes.locks (hstage : stage.Materializes thread) :
    LockName.thread thread ∈ stage.locks := by
  cases stage with
  | reading other resources | mounting other =>
    obtain rfl : other = thread := hstage
    exact mem_cons_self ..
  | cloning staging | cloneSnapshot staging resource key | cloneGit staging resource step =>
    obtain rfl : staging.thread = thread := hstage
    exact mem_cons_self ..
  | _ => exact hstage.elim

/-- The only stages with the lock of a thread are those of `materialize` and `remove_thread`. -/
theorem Stage.materializes_or_leaves (hlock : LockName.thread thread ∈ stage.locks) :
    stage.Materializes thread ∨ stage.Leaves thread := by
  cases stage with
  | reading | cloning | mounting =>
    exact .inl (LockName.thread.inj (mem_singleton.1 hlock)).symm
  | cloneSnapshot staging | cloneGit staging =>
    have hthread : thread = staging.thread := by simpa [locks] using hlock
    exact .inl hthread.symm
  | leavingThread | removingThread =>
    exact .inr (LockName.thread.inj (mem_singleton.1 hlock)).symm
  | _ => simp [locks] at hlock

section
variable (htakes : Takes files stage move)
include htakes

theorem Takes.absent (hstage : ¬stage.Materializes thread)
    (hnone : files.threads thread = none) : move.1.threads thread = none := by
  by_cases hlock : LockName.thread thread ∈ stage.locks
  · have hleaves := (Stage.materializes_or_leaves hlock).resolve_left hstage
    cases htakes with
    | @leavingThread other directory hdirectory =>
      obtain rfl : other = thread := hleaves
      cases hnone.symm.trans hdirectory
    | removingManifest other =>
      obtain rfl : other = thread := hleaves
      calc (files.setThread other ((files.threads other).map
              ({ · with manifest := false }))).threads other
          = (files.threads other).map ({ · with manifest := false }) := Files.setThread_self ..
        _ = none := by rw [hnone, Option.map_none]
    | removingThread other =>
      obtain rfl : other = thread := hleaves
      exact Files.setThread_self files other none
    | returns | goes => exact hnone
    | _ => exact hleaves.elim
  · exact (htakes.threads_frame hlock).trans hnone

/-- A `materialize` that goes on had begun, or it begins and the thread is not removed any more. -/
theorem Takes.materializes (hnext : Next (Stage.Materializes thread) move.2) :
    stage.Materializes thread ∨ move.1.removed thread = false := by
  cases htakes with
  | goes _ hgoes =>
    cases hgoes with
    | reading | cloning | cloningGit | cloneSnapshot | fetch | clone => exact .inl hnext
    | _ => exact hnext.elim
  | materialize other =>
    obtain rfl : other = thread := hnext
    exact .inr (Files.setRemoved_self files other false)
  | reading | cloning | cache | init | remote => exact .inl hnext
  | _ => exact hnext.elim

/-- A thread is removed by a `remove_thread` that finds no directory or removes it. -/
theorem Takes.removed (hremoved : move.1.removed thread = true) : files.removed thread = true ∨
      (stage = .removeThread thread ∧ files.threads thread = none) ∨
      stage = .removingThread thread true := by
  cases htakes with
  | @removeThread other hnone =>
    by_cases hthread : thread = other
    · subst hthread
      exact .inr (.inl ⟨rfl, hnone⟩)
    · exact .inl ((Files.setRemoved_of_ne files hthread true).symm.trans hremoved)
  | removingThread other =>
    by_cases hthread : thread = other
    · exact .inr (.inr (by rw [hthread]))
    · exact .inl ((Files.setRemoved_of_ne _ hthread true).symm.trans hremoved)
  | materialize other =>
    by_cases hthread : thread = other
    · subst hthread
      cases (Files.setRemoved_self files thread false).symm.trans hremoved
    · exact .inl ((Files.setRemoved_of_ne files hthread false).symm.trans hremoved)
  | _ => exact .inl hremoved

end

/-- The resources that a manifest admits have the names of its own. -/
theorem names_updateInstances {instances : List Instance} {resources : List PreparedResource}
    (hsame : sameResources instances resources = true) :
    (updateInstances instances resources).map (fun entry ↦ entry.prepared.name) =
      instances.map fun entry ↦ entry.prepared.name := by
  induction instances generalizing resources with
  | nil => cases resources <;> rfl
  | cons entry instances ih =>
    cases resources with
    | nil => simp [sameResources] at hsame
    | cons resource resources =>
      have hhead : entry.prepared.name = resource.name := by
        simp only [sameResources, PreparedResource.sameWorkspace, zip_cons_cons,
          all_cons, Bool.and_eq_true, beq_iff_eq] at hsame
        exact hsame.2.1.1.2
      have htail : sameResources instances resources = true := by
        simp only [sameResources, length_cons, zip_cons_cons, all_cons,
          Bool.and_eq_true, beq_iff_eq, Nat.add_right_cancel_iff] at hsame ⊢
        exact ⟨hsame.1, hsame.2.2⟩
      calc (updateInstances (entry :: instances) (resource :: resources)).map
              (fun entry ↦ entry.prepared.name)
          = resource.name ::
              (updateInstances instances resources).map (fun entry ↦ entry.prepared.name) := rfl
        _ = entry.prepared.name :: instances.map (fun entry ↦ entry.prepared.name) := by
            rw [ih htail, hhead]

/-- A step that is not of `remove_thread` keeps the paths of a thread and its files. -/
theorem Takes.keeps {directory : ThreadDirectory} (htakes : Takes files stage move)
    (hdirectory : files.threads thread = some directory) (hstage : ¬stage.Leaves thread) :
    ∃ after, move.1.threads thread = some after ∧
      after.names = directory.names ∧ after.workspaces = directory.workspaces := by
  by_cases hlock : LockName.thread thread ∈ stage.locks
  · have hmaterializes := (Stage.materializes_or_leaves hlock).resolve_right hstage
    cases htakes with
    | @reading other resources found hfound hsame =>
      obtain rfl : other = thread := hmaterializes
      obtain rfl := Option.some.inj (hdirectory.symm.trans hfound)
      exact ⟨_, Files.setThread_self files other _, names_updateInstances hsame, rfl⟩
    | @cloning staging hnone =>
      obtain rfl : staging.thread = thread := hmaterializes
      cases hnone.symm.trans hdirectory
    | leavingThread | removingManifest | removingThread => exact hmaterializes.elim
    | _ => exact ⟨directory, hdirectory, rfl, rfl⟩
  · exact ⟨directory, (htakes.threads_frame hlock).trans hdirectory, rfl, rfl⟩

end Exo.Resources
