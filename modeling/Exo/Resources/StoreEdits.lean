import Exo.Resources.StoreSteps

/-!
# The edits of a thread

Workspaces and snapshots are copies.  No step reads the files in the workspaces of a thread, so two
states of the store that differ only in them stay so, and whatever a thread writes is seen nowhere
else.
-/

namespace Exo.Resources

open Library Option

/-- The directory of `other` without the files in its workspaces if it is that of the thread. -/
def veil (thread other : ThreadId) (directory : ThreadDirectory) : ThreadDirectory :=
  if other = thread then { directory with workspaces := [] } else directory

/-- Everything but what is in the workspaces of a thread. -/
def Files.hide (files : Files) (thread : ThreadId) : Files :=
  { files with threads := fun other ↦ (files.threads other).map (veil thread other) }

/-- Everything but what is in the workspaces of a thread. -/
def ResourceState.hide (state : ResourceState) (thread : ThreadId) : ResourceState :=
  { state with files := state.files.hide thread }

def ResourceLabel.edits (thread : ThreadId) : ResourceLabel → Bool
  | .edit other _ _ => other == thread
  | _ => false

variable {files : Files} {text : String} {stage : Stage} {thread : ThreadId}

section
variable (thread other : ThreadId) (directory : ThreadDirectory)

@[simp]
theorem veil_instances : (veil thread other directory).instances = directory.instances := by
  unfold veil
  split_ifs <;> rfl

@[simp]
theorem veil_manifest : (veil thread other directory).manifest = directory.manifest := by
  unfold veil
  split_ifs <;> rfl

/-- An update that leaves the workspaces alone gives the same behind the veil. -/
theorem veil_update (thread other : ThreadId) (instances : List Instance → List Instance)
    (manifest whole : Bool → Bool) (directory : ThreadDirectory) :
    veil thread other { veil thread other directory with
        instances := instances (veil thread other directory).instances
        manifest := manifest (veil thread other directory).manifest
        whole := whole (veil thread other directory).whole } =
      veil thread other { directory with
        instances := instances directory.instances
        manifest := manifest directory.manifest
        whole := whole directory.whole } := by
  unfold veil
  split_ifs <;> rfl

theorem veil_veil :
    veil thread other (veil thread other directory) = veil thread other directory := by
  unfold veil
  split_ifs <;> rfl

end

section
variable (files : Files)

theorem hide_threads (thread other : ThreadId) :
    (files.hide thread).threads other = (files.threads other).map (veil thread other) := rfl

/-- A write of a directory, seen through the veil. -/
theorem hide_setThread (thread other : ThreadId)
    (directory : Option ThreadDirectory) :
    (files.setThread other directory).hide thread =
      (files.hide thread).setThread other (directory.map (veil thread other)) := by
  have hthreads : ((files.setThread other directory).hide thread).threads =
      ((files.hide thread).setThread other (directory.map (veil thread other))).threads := by
    funext name
    by_cases hname : name = other
    · subst hname
      rw [hide_threads, Files.setThread_self, Files.setThread_self]
    · rw [hide_threads, Files.setThread_of_ne _ hname, Files.setThread_of_ne _ hname, hide_threads]
  exact congrArg (fun threads ↦ { files with threads }) hthreads

section
variable (thread : ThreadId)

theorem hide_hide : (files.hide thread).hide thread = files.hide thread := by
  have hthreads : ((files.hide thread).hide thread).threads = (files.hide thread).threads := by
    funext other
    rw [hide_threads, hide_threads, map_map]
    congr 1
    funext directory
    exact veil_veil thread other directory
  exact congrArg (fun threads ↦ { files with threads }) hthreads

/-- The same next stage or result, and the same files behind the veil. -/
def Alike (move other : Move) : Prop :=
  move.1.hide thread = other.1.hide thread ∧ move.2 = other.2

/-- An update of anything else is the same behind the veil. -/
theorem Alike.update (update : Files → Files)
    (hcomm : ∀ files : Files, (update files).hide thread = update (files.hide thread))
    (next : Stage ⊕ CallResult) :
    Alike thread (update (files.hide thread), next) (update files, next) := by
  refine ⟨?_, rfl⟩
  calc (update (files.hide thread)).hide thread
      = update ((files.hide thread).hide thread) := hcomm _
    _ = update (files.hide thread) := by rw [hide_hide]
    _ = (update files).hide thread := (hcomm files).symm

theorem Alike.same (next : Stage ⊕ CallResult) :
    Alike thread (files.hide thread, next) (files, next) := ⟨hide_hide files thread, rfl⟩

end

/-- A directory written into both is the same behind the veil. -/
theorem Alike.setThread (thread other : ThreadId)
    {hidden directory : Option ThreadDirectory}
    (heq : hidden.map (veil thread other) = directory.map (veil thread other))
    (next : Stage ⊕ CallResult) :
    Alike thread ((files.hide thread).setThread other hidden, next)
      (files.setThread other directory, next) := by
  refine ⟨?_, rfl⟩
  rw [hide_setThread, hide_setThread, hide_hide, heq]

section
variable (text : String) (stage : Stage) (thread : ThreadId)

theorem alike_publishStep :
    Alike thread (publishStep (files.hide thread) text stage) (publishStep files text stage) := by
  cases stage with
  | unmounting key populated => cases populated <;> exact Alike.same files thread _
  | publishing key content =>
    have hsame : (files.hide thread).snapshots key = files.snapshots key := rfl
    simp only [publishStep, hsame]
    cases files.snapshots key with
    | none => exact Alike.same files thread _
    | some snapshot =>
      exact Alike.update files thread (·.setSnapshot key (some { snapshot with whole := false }))
        (fun _ ↦ rfl) _
  | replacing key content =>
    exact Alike.update files thread (·.setSnapshot key none) (fun _ ↦ rfl) _
  | populating key => exact Alike.update files thread (·.populate key text) (fun _ ↦ rfl) _
  | moving key content => exact Alike.update files thread (·.publish key content) (fun _ ↦ rfl) _
  | _ => exact Alike.same files thread _

theorem alike_snapshotStep :
    Alike thread (snapshotStep (files.hide thread) text stage) (snapshotStep files text stage) := by
  cases stage with
  | prepare | prepareVolume | removeSnapshot => exact Alike.same files thread _
  | preparing key =>
    have hsame : (files.hide thread).snapshots key = files.snapshots key := rfl
    simp only [snapshotStep, hsame]
    split_ifs <;> exact Alike.same files thread _
  | removing key =>
    have hsame : (files.hide thread).snapshots key = files.snapshots key := rfl
    simp only [snapshotStep, hsame]
    cases files.snapshots key with
    | none => exact Alike.same files thread _
    | some snapshot =>
      exact Alike.update files thread
        (fun files ↦ (files.setSnapshot key (some { snapshot with whole := false })).setPublished
          key false) (fun _ ↦ rfl) _
  | removingSnapshot key =>
    exact Alike.update files thread (·.setSnapshot key none) (fun _ ↦ rfl) _
  | _ => exact alike_publishStep files text _ thread

theorem alike_removeThreadStep (stage : Stage) (thread : ThreadId) :
    Alike thread (removeThreadStep (files.hide thread) stage) (removeThreadStep files stage) := by
  cases stage with
  | removeThread other =>
    have hsame : ((files.hide thread).threads other).isSome = (files.threads other).isSome :=
      Option.isSome_map ..
    simp only [removeThreadStep, hsame]
    split_ifs
    · exact Alike.same files thread _
    · exact Alike.update files thread (·.setRemoved other true) (fun _ ↦ rfl) _
  | leavingThread other =>
    simp only [removeThreadStep, hide_threads]
    cases files.threads other with
    | none => exact Alike.same files thread _
    | some directory =>
      have hveil := veil_update thread other id id (fun _ ↦ false) directory
      refine Alike.setThread files thread other ?_ _
      exact congrArg some hveil
  | removingThread other gone =>
    cases gone with
    | false =>
      refine Alike.setThread files thread other ?_ _
      rw [hide_threads]
      cases files.threads other with
      | none => rfl
      | some directory =>
        exact congrArg some (veil_update thread other id (fun _ ↦ false) id directory)
    | true =>
      have hgone := Alike.setThread files thread other (rfl : Option.map (veil thread other) none =
        none.map (veil thread other)) (.inr (.ok []))
      exact ⟨congrArg (fun after ↦ after.setRemoved other true) hgone.1, rfl⟩
  | _ => exact Alike.same files thread _

/-- A step goes on in the same way whatever is in the workspaces of a thread. -/
theorem alike_materializeStep : Alike thread (materializeStep (files.hide thread) text stage)
      (materializeStep files text stage) := by
  cases stage with
  | materialize other resources =>
    simp only [materializeStep]
    split_ifs
    · exact Alike.same files thread _
    · exact Alike.update files thread (·.setRemoved other false) (fun _ ↦ rfl) _
  | reading other resources =>
    simp only [materializeStep, hide_threads]
    cases files.threads other with
    | none => exact Alike.same files thread _
    | some directory =>
      simp only [map_some, veil_manifest, veil_instances]
      split_ifs
      · have hveil := veil_update thread other (updateInstances · resources) id id directory
        rw [veil_instances, veil_manifest] at hveil
        refine Alike.setThread files thread other ?_ _
        exact congrArg some hveil
      · exact Alike.same files thread _
      · exact Alike.same files thread _
  | cloning staging =>
    simp only [materializeStep, cloningStep, hide_threads]
    cases staging.remaining with
    | nil =>
      dsimp only
      cases files.threads staging.thread with
      | some directory => exact Alike.same files thread _
      | none => exact Alike.setThread files thread staging.thread rfl _
    | cons resource remaining =>
      dsimp only
      cases resource.snapshot <;> exact Alike.same files thread _
  | cloneSnapshot staging resource key =>
    have hsame : (files.hide thread).snapshots key = files.snapshots key := rfl
    simp only [materializeStep, hsame]
    cases files.snapshots key <;> exact Alike.same files thread _
  | cloneGit staging resource step =>
    cases step with
    | cache =>
      exact Alike.update files thread (fun files ↦ files.setCache resource.gitKey
          ((files.caches resource.gitKey).getD ⟨false, false⟩)) (fun _ ↦ rfl) _
    | init =>
      exact Alike.update files thread (·.setCache resource.gitKey ⟨true, false⟩) (fun _ ↦ rfl) _
    | remote =>
      exact Alike.update files thread (·.setCache resource.gitKey ⟨true, true⟩) (fun _ ↦ rfl) _
    | fetch =>
      have hsame : (files.hide thread).caches = files.caches := rfl
      simp only [materializeStep, cloneGitStep, hsame]
      split_ifs <;> exact Alike.same files thread _
    | clone tree => exact Alike.same files thread _
  | mounting other =>
    have hpaths : paths other ((files.hide thread).threads other) =
        paths other (files.threads other) := by
      rw [hide_threads]
      cases files.threads other with
      | none => rfl
      | some directory => simp only [map_some, paths, veil_instances]
    simp only [materializeStep, hpaths]
    exact Alike.same files thread _
  | _ => exact Alike.same files thread _

theorem alike_succeed :
    Alike thread (succeed (files.hide thread) text stage) (succeed files text stage) := by
  cases stage with
  | removeThread | lockThread | leavingThread | removingThread =>
    exact alike_removeThreadStep files _ thread
  | materialize | reading | cloning | cloneSnapshot | cloneGit | mounting =>
    exact alike_materializeStep files text _ thread
  | _ => exact alike_snapshotStep files text _ thread

end

theorem alike_proceed (stage : Stage) (outcome : Option String)
    (thread : ThreadId) :
    Alike thread (proceed (files.hide thread) stage outcome) (proceed files stage outcome) := by
  cases outcome with
  | some text => exact alike_succeed files text stage thread
  | none => cases stage <;> exact Alike.same files thread _

end

section
variable (state : ResourceState)

theorem ResourceState.hide_hide (thread : ThreadId) :
    (state.hide thread).hide thread = state.hide thread :=
  congrArg (fun files ↦ { state with files }) (Resources.hide_hide state.files thread)

/-- Moves that are alike lead to states that agree behind the veil. -/
theorem Alike.apply {state other : ResourceState} {move otherMove : Move}
    (halike : Alike thread move otherMove) (htasks : state.tasks = other.tasks)
    (hresults : state.results = other.results) (caller : ℕ) :
    (state.apply caller move).hide thread = (other.apply caller otherMove).hide thread := by
  obtain ⟨files, next⟩ := move
  obtain ⟨otherFiles, otherNext⟩ := otherMove
  obtain ⟨hfiles, hnext⟩ := halike
  dsimp only at hfiles hnext
  subst hnext
  cases next with
  | inl stage | inr result =>
    simp only [ResourceState.apply, ResourceState.hide, hfiles, htasks, hresults]

/-- A step does the same behind the veil. -/
theorem hide_next (label : ResourceLabel) (thread : ThreadId) :
    (store.next (state.hide thread) label).hide thread = (store.next state label).hide thread := by
  cases label with
  | call caller stage =>
    exact (store.next state (.call caller stage)).hide_hide thread
  | crash caller => exact (store.next state (.crash caller)).hide_hide thread
  | edit other index content =>
    let edited (directory : ThreadDirectory) : ThreadDirectory :=
      { directory with workspaces := directory.workspaces.set index content }
    have hedited (directory : ThreadDirectory) :
        veil thread other (edited (veil thread other directory)) =
          veil thread other (edited directory) := by
      unfold veil
      split_ifs <;> rfl
    have hdirectory :
        (((state.files.hide thread).threads other).map edited).map (veil thread other) =
          ((state.files.threads other).map edited).map (veil thread other) := by
      rw [hide_threads]
      cases state.files.threads other with
      | none => rfl
      | some directory => exact congrArg some (hedited directory)
    have halike := Alike.setThread state.files thread other hdirectory (.inr .error)
    exact congrArg (fun files ↦ { state with files }) halike.1
  | step caller outcome =>
    have htasks : (state.hide thread).tasks = state.tasks := rfl
    simp only [store, ResourceState.next, htasks]
    cases state.tasks caller with
    | none => exact state.hide_hide thread
    | some stage =>
      exact (alike_proceed state.files stage outcome thread).apply rfl rfl caller

theorem hide_edit {label : ResourceLabel} (hlabel : label.edits thread) :
    (store.next state label).hide thread = state.hide thread := by
  cases label with
  | edit other index content =>
    obtain rfl : other = thread := eq_of_beq hlabel
    let edited (directory : ThreadDirectory) : ThreadDirectory :=
      { directory with workspaces := directory.workspaces.set index content }
    have hveil : veil other other ∘ edited = veil other other := by
      funext directory
      simp only [Function.comp_apply, veil, if_true, edited]
    have hfiles :
        (state.files.setThread other ((state.files.threads other).map edited)).hide other =
          state.files.hide other := by
      rw [hide_setThread, map_map, hveil, ← hide_threads]
      exact congrArg (fun threads ↦ { state.files.hide other with threads })
        (Function.update_eq_self other _)
    exact congrArg (fun files ↦ { state with files }) hfiles
  | call | crash => cases hlabel
  | step => cases hlabel

end

/-- A run without the edits of a thread ends in the same state but for the files of the thread. -/
theorem hide_exec (state other : ResourceState) (labels : List ResourceLabel) (thread : ThreadId)
    (hsame : state.hide thread = other.hide thread) :
    (store.exec state labels).hide thread =
      (store.exec other (labels.filter fun label ↦ !label.edits thread)).hide thread := by
  induction labels generalizing state other with
  | nil => exact hsame
  | cons label labels ih =>
    cases hlabel : label.edits thread with
    | true =>
      rw [List.filter_cons_of_neg (by simp [hlabel])]
      exact ih _ _ ((hide_edit state hlabel).trans hsame)
    | false =>
      rw [List.filter_cons_of_pos (by simp [hlabel])]
      refine ih _ _ ?_
      calc (store.next state label).hide thread
          = (store.next (state.hide thread) label).hide thread :=
            (hide_next state label thread).symm
        _ = (store.next (other.hide thread) label).hide thread := by rw [hsame]
        _ = (store.next other label).hide thread := hide_next other label thread

end Exo.Resources
