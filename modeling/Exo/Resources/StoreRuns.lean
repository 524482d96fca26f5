import Exo.Resources.StoreEdits
import Exo.Resources.StoreRetry

/-!
# Runs of the store

A failure or a crash leaves the files at rest unless it comes while a directory is being replaced or
removed, or between `git init` and `git remote add`: nothing repairs these later.  The other way to
go wrong is a `remove_thread` that finds no directory while a `materialize` of the thread is at
work, since it asks before it takes the lock.  In the runs without these steps the snapshots, the
threads and the caches survive.
-/

namespace Exo.Resources

open Library Function Option

namespace ResourceState

/-- Some call is in such a stage. -/
def Busy (state : ResourceState) (P : Stage → Prop) : Prop :=
  ∃ caller stage, state.tasks caller = some stage ∧ P stage

end ResourceState

section
variable (state : ResourceState)

structure Sound : Prop where
  exclusive : ∀ caller other stage otherStage name, state.tasks caller = some stage →
    state.tasks other = some otherStage → name ∈ stage.locks → name ∈ otherStage.locks →
    caller = other
  placed : ∀ caller stage, state.tasks caller = some stage → stage.Placed state.files
  snapshots : ∀ key, SnapshotWhole state.files key ∨ state.Busy (Stage.Disturbs key)
  threads : ∀ thread, ThreadWhole state.files thread ∨ state.Busy (Stage.Removes thread)
  caches : ∀ key, CacheWhole state.files key ∨ state.Busy (Stage.AddsRemote key)
  removed : ∀ thread, state.files.removed thread = true →
    state.files.threads thread = none ∧ ¬state.Busy (Stage.Materializes thread)

/-- A `remove_thread` finds no directory only while no `materialize` of the thread is at work. -/
def Stage.Prompt : Stage → Prop
  | .removeThread thread => state.files.threads thread = none →
      ¬state.Busy (Stage.Materializes thread)
  | _ => True

/-- No failure and no crash in the middle of a removal, a replacement or the set-up of a cache, and
every `remove_thread` is prompt. -/
def Careful : ResourceLabel → Prop
  | .step caller outcome =>
    match state.tasks caller with
    | none => True
    | some stage =>
      match outcome with
      | some _ => stage.Prompt state
      | none => ¬stage.Fragile state.files
  | .crash caller =>
    match state.tasks caller with
    | none => True
    | some stage => ¬stage.Fragile state.files
  | .call _ _ | .edit _ _ _ => True

/-- What a step may do to the files, given what the call knows. -/
structure Gentle (caller : ℕ) (stage : Stage) (move : Move) : Prop where
  locked : Then (fun after ↦ ∀ name ∈ after.locks, name ∈ stage.locks ∨ state.Free name) move.2
  placed : Then (Stage.Placed move.1) move.2
  others : ∀ other : Stage, other.Placed state.files →
    (∀ name ∈ other.locks, name ∉ stage.locks) → other.Placed move.1
  snapshots : ∀ key, SnapshotWhole state.files key ∨ stage.Disturbs key →
    SnapshotWhole move.1 key ∨ Next (Stage.Disturbs key) move.2
  threads : ∀ thread, ThreadWhole state.files thread ∨ stage.Removes thread →
    ThreadWhole move.1 thread ∨ Next (Stage.Removes thread) move.2
  caches : ∀ key, CacheWhole state.files key ∨ stage.AddsRemote key →
    CacheWhole move.1 key ∨ Next (Stage.AddsRemote key) move.2
  removed : ∀ thread, move.1.removed thread = true →
    move.1.threads thread = none ∧ ¬Next (Stage.Materializes thread) move.2 ∧
      ∀ other otherStage, other ≠ caller → state.tasks other = some otherStage →
        ¬otherStage.Materializes thread

end

variable {state : ResourceState} {caller : ℕ} {stage : Stage} {move : Move}

@[simp]
theorem apply_files (state : ResourceState) (caller : ℕ) (move : Move) :
    (state.apply caller move).files = move.1 := by
  obtain ⟨files, next⟩ := move
  cases next <;> rfl

theorem apply_tasks_of_ne (state : ResourceState) {other : ℕ} (hne : other ≠ caller) (move : Move) :
    (state.apply caller move).tasks other = state.tasks other := by
  obtain ⟨files, next⟩ := move
  cases next <;> exact update_of_ne hne ..

variable {after : Stage} {P : Stage → Prop} {files : Files}

/-- The stage of the caller after its step is the next one. -/
theorem apply_tasks_self (htask : (state.apply caller move).tasks caller = some after) :
    move.2 = .inl after := by
  obtain ⟨files, next⟩ := move
  rcases next with stage | result
  · have hself : (state.apply caller (files, .inl stage)).tasks caller = some stage :=
      update_self ..
    exact congrArg Sum.inl (some.inj (hself.symm.trans htask))
  · have hself : (state.apply caller (files, .inr result)).tasks caller = none :=
      update_self ..
    cases hself.symm.trans htask

theorem Then.of_eq {next : Stage ⊕ CallResult} (hthen : Then P next) (heq : next = .inl after) :
    P after := by
  subst heq
  exact hthen

theorem Then.mono {Q : Stage → Prop} {next : Stage ⊕ CallResult} (hthen : Then P next)
    (himp : ∀ after, P after → Q after) : Then Q next := by
  rcases next with after | result
  · exact himp after hthen
  · trivial

/-- A lock held after the step was held before, or nobody held it. -/
theorem locks_apply {other : ℕ} {name : LockName} (htask : state.tasks caller = some stage)
    (hgentle : Gentle state caller stage move)
    (hother : (state.apply caller move).tasks other = some after) (hname : name ∈ after.locks) :
    (∃ before, state.tasks other = some before ∧ name ∈ before.locks) ∨
      (other = caller ∧ state.Free name) := by
  by_cases hcaller : other = caller
  · subst hcaller
    have hfrom := hgentle.locked.of_eq (apply_tasks_self hother)
    exact (hfrom name hname).imp (fun hheld ↦ ⟨stage, htask, hheld⟩) fun hfree ↦ ⟨rfl, hfree⟩
  · exact .inl ⟨after, (apply_tasks_of_ne state hcaller move).symm.trans hother, hname⟩

/-- What was at rest or in the hands of a call is so after the step of a call. -/
theorem busy_apply {whole after : Prop} (htask : state.tasks caller = some stage)
    (hbefore : whole ∨ state.Busy P) (hmove : whole ∨ P stage → after ∨ Next P move.2) :
    after ∨ (state.apply caller move).Busy P := by
  have hown (hstage : whole ∨ P stage) : after ∨ (state.apply caller move).Busy P := by
    refine (hmove hstage).imp_right ?_
    intro hnext
    obtain ⟨files, next⟩ := move
    rcases next with stage | result
    · exact ⟨caller, stage, update_self .., hnext⟩
    · exact hnext.elim
  rcases hbefore with hwhole | hbusy
  · exact hown (.inl hwhole)
  · obtain ⟨other, otherStage, hother, hstage⟩ := hbusy
    by_cases hcaller : other = caller
    · subst hcaller
      obtain rfl := some.inj (htask.symm.trans hother)
      exact hown (.inr hstage)
    · exact .inr ⟨other, otherStage, (apply_tasks_of_ne state hcaller move).trans hother, hstage⟩

section
variable (hsound : Sound state) (htask : state.tasks caller = some stage)
include hsound htask

/-- The invariant is kept by a step that does no more than its locks allow. -/
theorem Sound.apply
    (hgentle : Gentle state caller stage move) : Sound (state.apply caller move) where
  exclusive := by
    intro first second firstStage secondStage name hfirst hsecond hnameFirst hnameSecond
    rcases locks_apply htask hgentle hfirst hnameFirst with hold | hnew
    · obtain ⟨before, hbefore, hheld⟩ := hold
      rcases locks_apply htask hgentle hsecond hnameSecond with hold | hnew
      · obtain ⟨other, hother, hheldOther⟩ := hold
        exact hsound.exclusive first second before other name hbefore hother hheld hheldOther
      · exact absurd hheld (hnew.2 first before hbefore)
    · rcases locks_apply htask hgentle hsecond hnameSecond with hold | hnewSecond
      · obtain ⟨other, hother, hheldOther⟩ := hold
        exact absurd hheldOther (hnew.2 second other hother)
      · exact hnew.1.trans hnewSecond.1.symm
  placed := by
    intro other otherStage hother
    rw [apply_files]
    by_cases hcaller : other = caller
    · subst hcaller
      exact hgentle.placed.of_eq (apply_tasks_self hother)
    · have hold := (apply_tasks_of_ne state hcaller move).symm.trans hother
      refine hgentle.others otherStage (hsound.placed other otherStage hold) ?_
      intro name hname hheld
      exact hcaller (hsound.exclusive other caller otherStage stage name hold htask hname hheld)
  snapshots := by
    intro key
    rw [apply_files]
    exact busy_apply htask (hsound.snapshots key) (hgentle.snapshots key)
  threads := by
    intro thread
    rw [apply_files]
    exact busy_apply htask (hsound.threads thread) (hgentle.threads thread)
  caches := by
    intro key
    rw [apply_files]
    exact busy_apply htask (hsound.caches key) (hgentle.caches key)
  removed := by
    intro thread hremoved
    rw [apply_files] at hremoved ⊢
    obtain ⟨hnone, hnext, hothers⟩ := hgentle.removed thread hremoved
    refine ⟨hnone, ?_⟩
    intro hbusy
    obtain ⟨other, otherStage, hother, hstage⟩ := hbusy
    by_cases hcaller : other = caller
    · subst hcaller
      rw [apply_tasks_self hother] at hnext
      exact hnext hstage
    · exact hothers other otherStage hcaller
        ((apply_tasks_of_ne state hcaller move).symm.trans hother) hstage

theorem Sound.gentle_takes
    (hfree : ∀ name ∈ stage.wants, state.Free name) (hprompt : stage.Prompt state)
    (htakes : Takes state.files stage move) : Gentle state caller stage move where
  locked := htakes.locked.mono fun _ hlocked name hname ↦
    (hlocked name hname).imp_right (hfree name)
  placed := htakes.placed (hsound.placed caller stage htask)
  others := fun other hplaced hapart ↦ hplaced.of_frame htakes hapart
  snapshots := fun key hbefore ↦ htakes.snapshots (hsound.placed caller stage htask) hbefore
  threads := fun thread hbefore ↦ htakes.threads hbefore
  caches := fun key hbefore ↦ htakes.caches hbefore
  removed := by
    intro thread hremoved
    have hidles (hidle : ¬state.Busy (Stage.Materializes thread)) :
        ¬Next (Stage.Materializes thread) move.2 ∧ ∀ other otherStage, other ≠ caller →
          state.tasks other = some otherStage → ¬otherStage.Materializes thread := by
      refine ⟨?_, fun other otherStage _ hother hmaterializes ↦
        hidle ⟨other, otherStage, hother, hmaterializes⟩⟩
      intro hnext
      rcases htakes.materializes hnext with hmaterializes | hfalse
      · exact hidle ⟨caller, stage, htask, hmaterializes⟩
      · cases hfalse.symm.trans hremoved
    rcases htakes.removed hremoved with hold | ⟨rfl, hnone⟩ | rfl
    · obtain ⟨hnone, hidle⟩ := hsound.removed thread hold
      exact ⟨htakes.absent (fun hstage ↦ hidle ⟨caller, stage, htask, hstage⟩) hnone, hidles hidle⟩
    · exact ⟨htakes.absent id hnone, hidles (hprompt hnone)⟩
    · cases htakes with
      | removingThread =>
        refine ⟨Files.setThread_self state.files thread none, id, ?_⟩
        intro other otherStage hother htaskOther hmaterializes
        exact hother (hsound.exclusive other caller otherStage _ (.thread thread) htaskOther htask
          hmaterializes.locks (List.mem_singleton_self _))
      | returns hquiet | goes hquiet => cases hquiet

end

/-- A snapshot that is not there and was not published is at rest. -/
theorem snapshotWhole_of_not_fragile {key : Key} (hplaced : stage.Placed files)
    (hfragile : ¬stage.Fragile files) (hdisturbs : stage.Disturbs key) :
    SnapshotWhole files key := by
  cases stage with
  | moving other content =>
    obtain rfl : other = key := hdisturbs
    have hnone : files.snapshots other = none := hplaced.1
    refine ⟨?_, fun hpublished ↦ absurd hpublished hfragile⟩
    intro snapshot hsnapshot
    cases hnone.symm.trans hsnapshot
  | replacing | removingSnapshot => exact absurd trivial hfragile
  | _ => exact hdisturbs.elim

theorem fragile_of_removes {thread : ThreadId} (hremoves : stage.Removes thread) :
    stage.Fragile files := by
  cases stage with
  | removingThread => trivial
  | _ => exact hremoves.elim

theorem fragile_of_addsRemote {key : Key} (hadds : stage.AddsRemote key) : stage.Fragile files := by
  cases stage with
  | cloneGit staging resource step =>
    cases step with
    | remote => trivial
    | _ => exact hadds.elim
  | _ => exact hadds.elim

/-- A call that fails leaves the files and returns, or it unmounts the volume first. -/
theorem proceed_none (files : Files) (stage : Stage) :
    proceed files stage none = (files, .inr .error) ∨
      ∃ key, stage = .populating key ∧
        proceed files stage none = (files, .inl (.unmounting key none)) := by
  cases stage with
  | populating key => exact .inr ⟨key, rfl, rfl⟩
  | _ => exact .inl rfl

/-- A step that leaves the files and does not end in the middle of something. -/
theorem Sound.gentle_rest (hsound : Sound state) (htask : state.tasks caller = some stage)
    (hfragile : ¬stage.Fragile state.files) {next : Stage ⊕ CallResult}
    (hnext : next = .inr .error ∨
      ∃ key, stage = .populating key ∧ next = .inl (.unmounting key none)) :
    Gentle state caller stage (state.files, next) where
  locked := by
    rcases hnext with rfl | ⟨key, rfl, rfl⟩
    · trivial
    · exact fun name hname ↦ .inl hname
  placed := by rcases hnext with rfl | ⟨key, rfl, rfl⟩ <;> trivial
  others := fun other hplaced _ ↦ hplaced
  snapshots := by
    intro key hbefore
    have hplaced := hsound.placed caller stage htask
    exact .inl (hbefore.elim id (snapshotWhole_of_not_fragile hplaced hfragile))
  threads := fun thread hbefore ↦
    .inl (hbefore.resolve_right fun hremoves ↦ hfragile (fragile_of_removes hremoves))
  caches := fun key hbefore ↦
    .inl (hbefore.resolve_right fun hadds ↦ hfragile (fragile_of_addsRemote hadds))
  removed := by
    intro thread hremoved
    obtain ⟨hnone, hidle⟩ := hsound.removed thread hremoved
    refine ⟨hnone, ?_, fun other otherStage _ hother hstage ↦
      hidle ⟨other, otherStage, hother, hstage⟩⟩
    rcases hnext with rfl | ⟨key, rfl, rfl⟩ <;> exact id

/-- The invariant says nothing about the results. -/
theorem Sound.of_same {other : ResourceState} (hsound : Sound state)
    (hfiles : other.files = state.files) (htasks : other.tasks = state.tasks) : Sound other := by
  obtain ⟨files, tasks, results⟩ := other
  dsimp only at hfiles htasks
  subst hfiles htasks
  exact ⟨hsound.exclusive, hsound.placed, hsound.snapshots, hsound.threads, hsound.caches,
    hsound.removed⟩

theorem Stage.entry_locks (hentry : stage.isEntry = true) : stage.locks = [] := by
  cases stage with
  | prepare | prepareVolume | removeSnapshot | removeThread | materialize => rfl
  | _ => cases hentry

/-- A call that begins knows nothing, holds nothing and is in the middle of nothing. -/
theorem Sound.call (hsound : Sound state) (hidle : state.tasks caller = none)
    (hentry : stage.isEntry = true) : Sound (store.next state (.call caller stage)) := by
  have hother {other : ℕ} {otherStage : Stage} (hne : other ≠ caller) :
      (store.next state (.call caller stage)).tasks other = some otherStage ↔
        state.tasks other = some otherStage := by
    rw [show (store.next state (.call caller stage)).tasks other = state.tasks other from
      update_of_ne hne ..]
  have hself : (store.next state (.call caller stage)).tasks caller = some stage :=
    update_self ..
  have hold {other : ℕ} {otherStage : Stage} (htask : state.tasks other = some otherStage) :
      (store.next state (.call caller stage)).tasks other = some otherStage := by
    refine (hother ?_).2 htask
    rintro rfl
    cases hidle.symm.trans htask
  have hbusy {P : Stage → Prop} {whole : Prop} (hbefore : whole ∨ state.Busy P) :
      whole ∨ (store.next state (.call caller stage)).Busy P :=
    hbefore.imp_right fun ⟨other, otherStage, htask, hstage⟩ ↦
      ⟨other, otherStage, hold htask, hstage⟩
  refine ⟨?_, ?_, fun key ↦ hbusy (hsound.snapshots key),
    fun thread ↦ hbusy (hsound.threads thread), fun key ↦ hbusy (hsound.caches key), ?_⟩
  · intro first second firstStage secondStage name hfirst hsecond hnameFirst hnameSecond
    have hne {other : ℕ} {otherStage : Stage} (hname : name ∈ otherStage.locks)
        (htask : (store.next state (.call caller stage)).tasks other = some otherStage) :
        other ≠ caller := by
      rintro rfl
      obtain rfl := some.inj (hself.symm.trans htask)
      rw [Stage.entry_locks hentry] at hname
      exact List.not_mem_nil hname
    exact hsound.exclusive first second firstStage secondStage name
      ((hother (hne hnameFirst hfirst)).1 hfirst) ((hother (hne hnameSecond hsecond)).1 hsecond)
      hnameFirst hnameSecond
  · intro other otherStage htask
    by_cases hcaller : other = caller
    · subst hcaller
      obtain rfl := some.inj (hself.symm.trans htask)
      cases stage with
      | prepare | prepareVolume | removeSnapshot | removeThread | materialize => trivial
      | _ => cases hentry
    · exact hsound.placed other otherStage ((hother hcaller).1 htask)
  · intro thread hremoved
    obtain ⟨hnone, hquiet⟩ := hsound.removed thread hremoved
    refine ⟨hnone, ?_⟩
    rintro ⟨other, otherStage, htask, hmaterializes⟩
    by_cases hcaller : other = caller
    · subst hcaller
      obtain rfl := some.inj (hself.symm.trans htask)
      have hlock := hmaterializes.locks
      rw [Stage.entry_locks hentry] at hlock
      exact List.not_mem_nil hlock
    · exact hquiet ⟨other, otherStage, (hother hcaller).1 htask, hmaterializes⟩

theorem Sound.edit (hsound : Sound state) (thread : ThreadId) (index : ℕ) (content : String) :
    Sound (store.next state (.edit thread index content)) := by
  let edited (directory : ThreadDirectory) : ThreadDirectory :=
    { directory with workspaces := directory.workspaces.set index content }
  have hthreads (other : ThreadId) : ∃ edit : ThreadDirectory → ThreadDirectory,
      (store.next state (.edit thread index content)).files.threads other =
        (state.files.threads other).map edit ∧
      ∀ directory, (edit directory).whole = directory.whole ∧
        (edit directory).manifest = directory.manifest := by
    by_cases hother : other = thread
    · subst hother
      exact ⟨edited, Files.setThread_self .., fun _ ↦ ⟨rfl, rfl⟩⟩
    · refine ⟨id, ?_, fun _ ↦ ⟨rfl, rfl⟩⟩
      rw [map_id]
      exact Files.setThread_of_ne state.files hother _
  refine ⟨hsound.exclusive, ?_, hsound.snapshots, ?_, hsound.caches, ?_⟩
  · intro caller stage htask
    have hplaced := hsound.placed caller stage htask
    cases stage with
    | mounting other =>
      obtain ⟨edit, hedit, -⟩ := hthreads other
      intro hnone
      exact hplaced (map_eq_none_iff.1 (hedit.symm.trans hnone))
    | unmounting key populated => cases populated <;> exact hplaced
    | publishing | replacing | moving | removingSnapshot => exact hplaced
    | _ => trivial
  · intro other
    refine (hsound.threads other).imp_left ?_
    intro hwhole directory hdirectory
    obtain ⟨edit, hedit, hkeeps⟩ := hthreads other
    obtain ⟨old, hold, rfl⟩ := map_eq_some_iff.1 (hedit.symm.trans hdirectory)
    rw [(hkeeps old).1, (hkeeps old).2]
    exact hwhole old hold
  · intro other hremoved
    obtain ⟨hnone, hidle⟩ := hsound.removed other hremoved
    obtain ⟨edit, hedit, -⟩ := hthreads other
    refine ⟨?_, hidle⟩
    rw [hedit, hnone, map_none]

theorem Sound.next (hsound : Sound state) {label : ResourceLabel}
    (henabled : store.enabled state label) (hcareful : Careful state label) :
    Sound (store.next state label) := by
  cases label with
  | call caller stage => exact hsound.call henabled.1 henabled.2
  | edit thread index content => exact hsound.edit thread index content
  | crash caller =>
    obtain ⟨stage, htask⟩ := ne_none_iff_exists'.1 henabled
    have hfragile : ¬stage.Fragile state.files := by simpa only [Careful, htask] using hcareful
    have hreturned := hsound.apply htask (hsound.gentle_rest htask hfragile (.inl rfl))
    exact hreturned.of_same rfl rfl
  | step caller outcome =>
    obtain ⟨stage, htask, hfree⟩ := henabled
    have hnext : store.next state (.step caller outcome) =
        state.apply caller (proceed state.files stage outcome) := by
      simp only [store, ResourceState.next, htask]
    rw [hnext]
    cases outcome with
    | some text =>
      have hprompt : stage.Prompt state := by simpa only [Careful, htask] using hcareful
      exact hsound.apply htask (hsound.gentle_takes htask hfree hprompt (takes_succeed ..))
    | none =>
      have hfragile : ¬stage.Fragile state.files := by simpa only [Careful, htask] using hcareful
      rcases proceed_none state.files stage with hfail | ⟨key, hstage, hunmount⟩
      · rw [hfail]
        exact hsound.apply htask (hsound.gentle_rest htask hfragile (.inl rfl))
      · rw [hunmount]
        exact hsound.apply htask (hsound.gentle_rest htask hfragile (.inr ⟨key, hstage, rfl⟩))

theorem Sound.init : Sound {} where
  exclusive := fun _ _ _ _ _ htask ↦ nomatch htask
  placed := nofun
  snapshots := fun _ ↦ .inl ⟨fun _ hsnapshot ↦ (nomatch hsnapshot), fun htrue ↦ (nomatch htrue)⟩
  threads := fun _ ↦ .inl nofun
  caches := fun _ ↦ .inl nofun
  removed := nofun

end Exo.Resources
