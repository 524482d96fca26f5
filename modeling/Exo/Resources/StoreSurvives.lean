import Exo.Resources.StoreRuns

/-!
# What survives in the store

In a run without the steps that nothing repairs, a snapshot is the output of a populate, the
directory of a thread is complete, a removed thread stays removed, a thread keeps its paths and its
edits and shows them nowhere else, and a call that is tried again succeeds.  A process that dies
between the removal of a snapshot and the rename of its successor loses it.
-/

namespace Exo.Resources

open Library List Function System

section
variable (state : ResourceState)

structure Survives : Prop where
  /-- A snapshot is the complete output of a populate, or it is being replaced or removed. -/
  snapshots : ∀ key snapshot, state.files.snapshots key = some snapshot →
    (snapshot.whole = true ∧ (key, snapshot.content) ∈ state.files.outputs) ∨
      state.Busy (Stage.Disturbs key)
  published : ∀ key, state.files.published key = true →
    state.files.snapshots key ≠ none ∨ state.Busy (Stage.Disturbs key)
  /-- Any other call with the lock finds the snapshot at rest. -/
  found : ∀ caller stage key, state.tasks caller = some stage → .snapshot key ∈ stage.locks →
    stage.Disturbs key ∨ SnapshotWhole state.files key
  threads : ∀ thread directory, state.files.threads thread = some directory →
    (directory.whole = true ∧ directory.manifest = true) ∨ state.Busy (Stage.Removes thread)
  removed : ∀ thread, state.files.removed thread = true → state.files.threads thread = none

/-- A thread keeps its paths, which every `materialize` returns, and its files change only in its
own edits, until it is removed. -/
structure Keeps (label : ResourceLabel) : Prop where
  threads : ∀ thread directory, state.files.threads thread = some directory →
    (∃ caller outcome stage, label = .step caller outcome ∧ state.tasks caller = some stage ∧
      stage.Leaves thread) ∨
    ∃ after, (store.next state label).files.threads thread = some after ∧
      after.names = directory.names ∧
      (after.workspaces = directory.workspaces ∨ label.edits thread = true)
  returned : ∀ caller text thread, label = .step caller (some text) →
    state.tasks caller = some (.mounting thread) →
    ∃ directory, state.files.threads thread = some directory ∧
      (store.next state label).results caller =
        some (.ok (directory.names.map fun name ↦ (thread, name)))

/-- A call made while nobody holds the locks it takes returns when its commands succeed. -/
def Retries : Prop :=
  ∀ caller stage, stage.isEntry = true → state.tasks caller = none →
    (∀ name ∈ stage.needs, state.Free name) → stage.Ready state.files →
    ∃ count, ∀ texts : List String, texts.length = count →
      store.Admits state (.call caller stage :: steps caller texts) ∧
      ∃ paths, (store.exec state (.call caller stage :: steps caller texts)).results caller =
        some (.ok paths)

end

structure Recovers (labels : List ResourceLabel) : Prop where
  survives : Survives (store.exec {} labels)
  keeps : store.Throughout Keeps {} labels
  /-- Without the edits of a thread the run is the same but for the files of the thread. -/
  unseen : ∀ thread, (store.exec {} labels).hide thread =
    (store.exec {} (labels.filter fun label ↦ !label.edits thread)).hide thread
  retries : Retries (store.exec {} labels)

variable {state : ResourceState} {caller : ℕ} {stage : Stage}
  {key : Key} {name : LockName} {labels : List ResourceLabel}

theorem Stage.Disturbs.locks (hstage : stage.Disturbs key) :
    LockName.snapshot key ∈ stage.locks := by
  cases stage with
  | replacing other content | moving other content | removingSnapshot other =>
    obtain rfl : other = key := hstage
    exact mem_singleton_self _
  | _ => exact hstage.elim

theorem Stage.Removes.locks {thread : ThreadId} (hstage : stage.Removes thread) :
    LockName.thread thread ∈ stage.locks := by
  cases stage with
  | removingThread other gone =>
    obtain rfl : other = thread := hstage
    exact mem_singleton_self _
  | _ => exact hstage.elim

theorem Stage.AddsRemote.locks (hstage : stage.AddsRemote key) :
    LockName.git key ∈ stage.locks := by
  cases stage with
  | cloneGit staging resource step =>
    cases step with
    | remote =>
      obtain rfl : resource.gitKey = key := hstage
      exact mem_cons_of_mem _ (mem_singleton_self _)
    | _ => exact hstage.elim
  | _ => exact hstage.elim

theorem not_busy_of_free {P : Stage → Prop} (hfree : state.Free name)
    (hlocks : ∀ stage : Stage, P stage → name ∈ stage.locks) : ¬state.Busy P := by
  intro hbusy
  obtain ⟨caller, stage, htask, hstage⟩ := hbusy
  exact hfree caller stage htask (hlocks stage hstage)

section
variable (hsound : Sound state)
include hsound

theorem Sound.survives : Survives state where
  snapshots := fun key snapshot hsnapshot ↦
    (hsound.snapshots key).imp_left fun hwhole ↦ hwhole.1 snapshot hsnapshot
  published := fun key hpublished ↦
    (hsound.snapshots key).imp_left fun hwhole ↦ hwhole.2 hpublished
  found := by
    intro caller stage key htask hlock
    rcases hsound.snapshots key with hwhole | hbusy
    · exact .inr hwhole
    · obtain ⟨other, otherStage, hother, hstage⟩ := hbusy
      obtain rfl := hsound.exclusive other caller otherStage stage _ hother htask hstage.locks hlock
      obtain rfl := Option.some.inj (hother.symm.trans htask)
      exact .inl hstage
  threads := fun thread directory hdirectory ↦
    (hsound.threads thread).imp_left fun hwhole ↦ hwhole directory hdirectory
  removed := fun thread hremoved ↦ (hsound.removed thread hremoved).1

theorem Sound.keeps (label : ResourceLabel) : Keeps state label where
  threads := by
    intro thread directory hdirectory
    have hsame (hfiles : (store.next state label).files = state.files) :
        ∃ after, (store.next state label).files.threads thread = some after ∧
          after.names = directory.names ∧
          (after.workspaces = directory.workspaces ∨ label.edits thread = true) := by
      rw [hfiles]
      exact ⟨directory, hdirectory, rfl, .inl rfl⟩
    cases label with
    | call | crash => exact .inr (hsame rfl)
    | edit other index content =>
      refine .inr ?_
      by_cases hother : thread = other
      · subst hother
        have hedited := Files.setThread_self state.files thread
          ((state.files.threads thread).map fun directory ↦
            { directory with workspaces := directory.workspaces.set index content })
        exact ⟨_, hedited.trans (congrArg (Option.map _) hdirectory), rfl,
          .inr (beq_self_eq_true _)⟩
      · have hframe := Files.setThread_of_ne state.files hother
          ((state.files.threads other).map fun directory ↦
            { directory with workspaces := directory.workspaces.set index content })
        exact ⟨directory, hframe.trans hdirectory, rfl, .inl rfl⟩
    | step caller outcome =>
      cases htask : state.tasks caller with
      | none =>
        refine .inr (hsame ?_)
        simp only [store, ResourceState.next, htask]
      | some stage =>
        by_cases hleaves : stage.Leaves thread
        · exact .inl ⟨caller, outcome, stage, rfl, htask, hleaves⟩
        · have hfiles : (store.next state (.step caller outcome)).files =
              (proceed state.files stage outcome).1 := by
            simp only [store, ResourceState.next, htask, apply_files]
          refine .inr ?_
          cases outcome with
          | none =>
            refine hsame (hfiles.trans ?_)
            rcases proceed_none state.files stage with hfail | ⟨key, -, hunmount⟩
            · rw [hfail]
            · rw [hunmount]
          | some text =>
            rw [hfiles]
            obtain ⟨after, hafter, hnames, hworkspaces⟩ :=
              (takes_succeed ..).keeps hdirectory hleaves
            exact ⟨after, hafter, hnames, .inl hworkspaces⟩
  returned := by
    intro caller text thread hlabel htask
    subst hlabel
    obtain ⟨directory, hdirectory⟩ :=
      Option.ne_none_iff_exists'.1 (hsound.placed caller _ htask)
    refine ⟨directory, hdirectory, ?_⟩
    have hpaths : paths thread (state.files.threads thread) =
        directory.names.map fun name ↦ (thread, name) := by
      rw [hdirectory, ThreadDirectory.names, map_map]
      rfl
    have hresult : (store.next state (.step caller (some text))).results caller =
        some (.ok (paths thread (state.files.threads thread))) := by
      simp only [store, ResourceState.next, htask]
      exact update_self ..
    rw [hresult, hpaths]

/-- What a call needs is at rest while nobody holds its locks. -/
theorem Sound.finishes (hentry : stage.isEntry = true)
    (hfree : ∀ name ∈ stage.needs, state.Free name) (hready : stage.Ready state.files) :
    ∃ count, Finishes count state.files stage := by
  cases stage with
  | prepare key => exact finishes_prepare state.files key
  | prepareVolume key =>
    obtain ⟨count, hcopying⟩ := finishes_copying state.files key
    exact ⟨count + 1, fun _ ↦ hcopying⟩
  | removeSnapshot key => exact finishes_removeSnapshot state.files key
  | removeThread thread => exact finishes_removeThread state.files thread
  | materialize thread resources =>
    have hthread := hfree (.thread thread) (mem_cons_self ..)
    have hwhole : ThreadWhole state.files thread :=
      (hsound.threads thread).resolve_right (not_busy_of_free hthread fun _ ↦ Stage.Removes.locks)
    refine finishes_materialize hready hwhole ?_
    intro resource hresource hsnapshot
    have hlock : resource.lock = .git resource.gitKey := by
      simp only [PreparedResource.lock, hsnapshot]
    have hgit : state.Free (.git resource.gitKey) := by
      rw [← hlock]
      exact hfree resource.lock (mem_cons_of_mem _ (mem_map_of_mem hresource))
    exact (hsound.caches resource.gitKey).resolve_right
      (not_busy_of_free hgit fun _ ↦ Stage.AddsRemote.locks)
  | _ => cases hentry

theorem Sound.retries : Retries state := by
  intro caller stage hentry hidle hfree hready
  obtain ⟨count, hfinishes⟩ := hsound.finishes hentry hfree hready
  refine ⟨count, fun texts hcount ↦ ?_⟩
  have htask : (store.next state (.call caller stage)).tasks caller = some stage :=
    update_self ..
  have hrun := exec_finishes htask hfinishes (fun other otherStage hcaller hother name hname ↦
    hfree name hname other otherStage ((update_of_ne hcaller ..).symm.trans hother)) hcount
  exact ⟨⟨⟨hidle, hentry⟩, hrun.1⟩, hrun.2⟩

end

def ResourceLabel.calledBy : ResourceLabel → Option ℕ
  | .call caller _ | .step caller _ | .crash caller => some caller
  | .edit _ _ _ => none

theorem tasks_exec_of_ne {other : ℕ} (state : ResourceState)
    (hcaller : ∀ label ∈ labels, label.calledBy = some caller) (hne : other ≠ caller) :
    (store.exec state labels).tasks other = state.tasks other := by
  induction labels generalizing state with
  | nil => rfl
  | cons label labels ih =>
    have hlabel := hcaller label (mem_cons_self ..)
    have hnext : (store.next state label).tasks other = state.tasks other := by
      cases label with
      | call name stage | crash name =>
        obtain rfl := Option.some.inj hlabel
        exact update_of_ne hne ..
      | edit => rfl
      | step name outcome =>
        obtain rfl := Option.some.inj hlabel
        simp only [store, ResourceState.next]
        cases state.tasks name with
        | none => rfl
        | some stage => exact apply_tasks_of_ne state hne _
    calc (store.exec (store.next state label) labels).tasks other
        = (store.next state label).tasks other :=
          ih _ fun later hlater ↦ hcaller later (mem_cons_of_mem _ hlater)
      _ = state.tasks other := hnext

/-- In the run of one caller nobody else holds a lock. -/
theorem free_alone (hcaller : ∀ label ∈ labels, label.calledBy = some caller)
    (htask : (store.exec {} labels).tasks caller = some stage) (hlocks : name ∉ stage.locks) :
    (store.exec {} labels).Free name := by
  intro other otherStage hother
  by_cases hne : other = caller
  · subst hne
    obtain rfl := Option.some.inj (htask.symm.trans hother)
    exact hlocks
  · cases (tasks_exec_of_ne {} hcaller hne).symm.trans hother

/-- A snapshot is published, and the call that publishes it again gets this far. -/
def republishing : List ResourceLabel :=
  [.call 0 (.prepareVolume "disk"), .step 0 (some ""), .step 0 (some ""), .step 0 (some "first"),
    .step 0 (some ""), .step 0 (some ""), .step 0 (some ""), .call 0 (.prepareVolume "disk"),
    .step 0 (some ""), .step 0 (some ""), .step 0 (some "second"), .step 0 (some "")]

/-- The process dies with the new copy populated and the old one in place. -/
def keptRun : List ResourceLabel := republishing ++ [.crash 0]

theorem republishing_admitted : store.Admits {} republishing := by
  have hidle {state : ResourceState} : ∀ name ∈ (none : Option LockName), state.Free name :=
    nofun
  have hcaller (count : ℕ) : ∀ label ∈ republishing.take count, label.calledBy = some 0 := by
    have hall : ∀ label ∈ republishing, label.calledBy = some 0 := by decide
    exact fun label hlabel ↦ hall label (mem_of_mem_take hlabel)
  have hfirst : ∀ name ∈ (Stage.prepareVolume "disk").wants,
      (store.exec {} (republishing.take 1)).Free name :=
    fun _ _ ↦ free_alone (hcaller 1) rfl not_mem_nil
  have hsecond : ∀ name ∈ (Stage.prepareVolume "disk").wants,
      (store.exec {} (republishing.take 8)).Free name :=
    fun _ _ ↦ free_alone (hcaller 8) rfl not_mem_nil
  exact ⟨⟨rfl, rfl⟩, ⟨_, rfl, hfirst⟩, ⟨_, rfl, hidle⟩, ⟨_, rfl, hidle⟩, ⟨_, rfl, hidle⟩,
    ⟨_, rfl, hidle⟩, ⟨_, rfl, hidle⟩, ⟨rfl, rfl⟩, ⟨_, rfl, hsecond⟩, ⟨_, rfl, hidle⟩,
    ⟨_, rfl, hidle⟩, ⟨_, rfl, hidle⟩, trivial⟩

/-- The process dies with the old copy removed and the new one not yet renamed. -/
def lostRun : List ResourceLabel :=
  republishing ++ [.step 0 (some ""), .step 0 (some ""), .crash 0]

end Exo.Resources
