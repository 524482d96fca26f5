import Exo.Resources.Store

/-!
# What a step of the store does

A snapshot, the directory of a thread and a Git cache are at rest, or the call that holds their lock
is in the middle of replacing, removing or setting up one of them.  A call must not end there.  Each
kind of file has one lemma: a step takes it from rest, or from such a stage, to rest or to such a
stage.
-/

namespace Exo.Resources

open Library

/-- A snapshot is the complete output of a populate for its key, and a published one is there. -/
def SnapshotWhole (files : Files) (key : Key) : Prop :=
  (∀ snapshot, files.snapshots key = some snapshot →
    snapshot.whole = true ∧ (key, snapshot.content) ∈ files.outputs) ∧
  (files.published key = true → files.snapshots key ≠ none)

/-- The directory of a thread is complete and has its manifest. -/
def ThreadWhole (files : Files) (thread : ThreadId) : Prop :=
  ∀ directory, files.threads thread = some directory →
    directory.whole = true ∧ directory.manifest = true

/-- A cache with a repository has its remote. -/
def CacheWhole (files : Files) (key : Key) : Prop :=
  ∀ cache, files.caches key = some cache → cache.initialized = true → cache.origin = true

namespace Stage

/-- The snapshot is being replaced or removed. -/
def Disturbs (key : Key) : Stage → Prop
  | .replacing other _ | .moving other _ | .removingSnapshot other => other = key
  | _ => False

/-- The directory of the thread is being removed. -/
def Removes (thread : ThreadId) : Stage → Prop
  | .removingThread other _ => other = thread
  | _ => False

/-- The repository of the cache has no remote yet. -/
def AddsRemote (key : Key) : Stage → Prop
  | .cloneGit _ resource .remote => resource.gitKey = key
  | _ => False

/-- A `materialize` that has the lock of its thread. -/
def Materializes (thread : ThreadId) : Stage → Prop
  | .reading other _ | .mounting other => other = thread
  | .cloning staging | .cloneSnapshot staging _ _ | .cloneGit staging _ _ =>
    staging.thread = thread
  | _ => False

/-- What a stage that holds a lock knows of the files: what it publishes was populated, and there is
nothing in its way. -/
def Placed (files : Files) : Stage → Prop
  | .unmounting key (some content) | .publishing key content | .replacing key content =>
    (key, content) ∈ files.outputs
  | .moving key content => files.snapshots key = none ∧ (key, content) ∈ files.outputs
  | .removingSnapshot key => files.published key = false
  | .mounting thread => files.threads thread ≠ none
  | _ => True

/-- A call must not end here: something is half done. -/
def Fragile (files : Files) : Stage → Prop
  | .replacing _ _ | .removingSnapshot _ | .removingThread _ _ | .cloneGit _ _ .remote => True
  | .moving key _ => files.published key = true
  | _ => False

end Stage

/-- The next stage, if the call goes on, is such. -/
def Next (P : Stage → Prop) : Stage ⊕ CallResult → Prop
  | .inl stage => P stage
  | .inr _ => False

/-- Nothing is half done. -/
def Stage.isQuiet : Stage → Bool
  | .replacing _ _ | .moving _ _ | .removingSnapshot _ | .removingThread _ _
  | .cloneGit _ _ .remote => false
  | _ => true

variable (files : Files) in
/-- The stages between which a call leaves the files. -/
inductive Goes : Stage → Stage → Prop
  | prepare (key : Key) : Goes (.prepare key) (.preparing key)
  | preparing (key : Key) : Goes (.preparing key) (.copying key)
  | prepareVolume (key : Key) : Goes (.prepareVolume key) (.copying key)
  | copying (key : Key) : Goes (.copying key) (.populating key)
  | unmounting (key : Key) (content : String) :
    Goes (.unmounting key (some content)) (.publishing key content)
  | publishing {key : Key} (content : String) (hnone : files.snapshots key = none) :
    Goes (.publishing key content) (.moving key content)
  | removeSnapshot (key : Key) : Goes (.removeSnapshot key) (.removing key)
  | removeThread (thread : ThreadId) : Goes (.removeThread thread) (.lockThread thread)
  | lockThread (thread : ThreadId) : Goes (.lockThread thread) (.leavingThread thread)
  | reading (thread : ThreadId) (resources : List PreparedResource) :
    Goes (.reading thread resources) (.cloning { thread, remaining := resources })
  | cloning {staging : Staging} {resource : PreparedResource} {remaining : List PreparedResource}
    {key : Key} (hremaining : staging.remaining = resource :: remaining)
    (hsnapshot : resource.snapshot = some key) :
    Goes (.cloning staging) (.cloneSnapshot { staging with remaining } resource key)
  | cloningGit {staging : Staging} {resource : PreparedResource}
    {remaining : List PreparedResource} (hremaining : staging.remaining = resource :: remaining)
    (hsnapshot : resource.snapshot = none) :
    Goes (.cloning staging) (.cloneGit { staging with remaining } resource .cache)
  | cloneSnapshot (staging : Staging) (resource : PreparedResource) (key : Key) (entry : Instance)
    (workspace : String) :
    Goes (.cloneSnapshot staging resource key) (.cloning (staging.add entry workspace))
  | fetch (staging : Staging) (resource : PreparedResource) (tree : String) :
    Goes (.cloneGit staging resource .fetch) (.cloneGit staging resource (.clone tree))
  | clone (staging : Staging) (resource : PreparedResource) (tree : String) (entry : Instance)
    (workspace : String) :
    Goes (.cloneGit staging resource (.clone tree)) (.cloning (staging.add entry workspace))

variable (files : Files) in
/-- A step returns or goes on and leaves the files, or it writes one of them. -/
inductive Takes : Stage → Move → Prop
  | returns {stage : Stage} (hquiet : stage.isQuiet) (result : CallResult) :
    Takes stage (files, .inr result)
  | goes {stage after : Stage} (hquiet : stage.isQuiet) (hgoes : Goes files stage after) :
    Takes stage (files, .inl after)
  | populating (key : Key) (text : String) :
    Takes (.populating key) (files.populate key text, .inl (.unmounting key (some text)))
  | publishing (key : Key) (content : String) (snapshot : Snapshot) :
    Takes (.publishing key content)
      (files.setSnapshot key (some snapshot), .inl (.replacing key content))
  | replacing (key : Key) (content : String) :
    Takes (.replacing key content) (files.setSnapshot key none, .inl (.moving key content))
  | moving (key : Key) (content : String) :
    Takes (.moving key content) (ok (files.publish key content))
  | removing (key : Key) (snapshot : Snapshot) : Takes (.removing key)
      ((files.setSnapshot key (some snapshot)).setPublished key false, .inl (.removingSnapshot key))
  | removingSnapshot (key : Key) : Takes (.removingSnapshot key) (ok (files.setSnapshot key none))
  | removeThread {thread : ThreadId} (hnone : files.threads thread = none) :
    Takes (.removeThread thread) (ok (files.setRemoved thread true))
  | leavingThread {thread : ThreadId} {directory : ThreadDirectory}
    (hdirectory : files.threads thread = some directory) :
    Takes (.leavingThread thread)
      (files.setThread thread (some { directory with whole := false }),
        .inl (.removingThread thread false))
  | removingManifest (thread : ThreadId) : Takes (.removingThread thread false)
      (files.setThread thread ((files.threads thread).map ({ · with manifest := false })),
        .inl (.removingThread thread true))
  | removingThread (thread : ThreadId) :
    Takes (.removingThread thread true) (ok ((files.setThread thread none).setRemoved thread true))
  | materialize (thread : ThreadId) {resources : List PreparedResource} (hne : resources ≠ []) :
    Takes (.materialize thread resources)
      (files.setRemoved thread false, .inl (.reading thread resources))
  | reading {thread : ThreadId} {resources : List PreparedResource} {directory : ThreadDirectory}
    (hdirectory : files.threads thread = some directory)
    (hsame : sameResources directory.instances resources = true) :
    Takes (.reading thread resources)
      (files.setThread thread (some { directory with
        instances := updateInstances directory.instances resources }), .inl (.mounting thread))
  | cloning {staging : Staging} (hnone : files.threads staging.thread = none) :
    Takes (.cloning staging) (files.setThread staging.thread
        (some ⟨staging.instances, staging.workspaces, true, true⟩), .inl (.mounting staging.thread))
  | cache (staging : Staging) (resource : PreparedResource) (step : GitStep) :
    Takes (.cloneGit staging resource .cache)
      (files.setCache resource.gitKey ((files.caches resource.gitKey).getD ⟨false, false⟩),
        .inl (.cloneGit staging resource step))
  | init (staging : Staging) (resource : PreparedResource) :
    Takes (.cloneGit staging resource .init)
      (files.setCache resource.gitKey ⟨true, false⟩, .inl (.cloneGit staging resource .remote))
  | remote (staging : Staging) (resource : PreparedResource) :
    Takes (.cloneGit staging resource .remote)
      (files.setCache resource.gitKey ⟨true, true⟩, .inl (.cloneGit staging resource .fetch))

variable {files : Files} {stage : Stage} {move : Move}

section
variable (files : Files) (text : String) (stage : Stage)

theorem takes_publishStep (hquiet : stage.isQuiet) :
    Takes files stage (publishStep files text stage) := by
  cases stage with
  | copying key => exact .goes rfl (.copying key)
  | populating key => exact .populating key text
  | unmounting key populated =>
    cases populated with
    | none => exact .returns rfl _
    | some content => exact .goes rfl (.unmounting key content)
  | publishing key content =>
    rw [publishStep]
    cases hsnapshot : files.snapshots key with
    | none => exact .goes rfl (.publishing content hsnapshot)
    | some snapshot => exact .publishing key content _
  | replacing | moving => cases hquiet
  | _ => exact .returns hquiet _

theorem takes_succeed : Takes files stage (succeed files text stage) := by
  cases stage with
  | prepare key => exact .goes rfl (.prepare key)
  | prepareVolume key => exact .goes rfl (.prepareVolume key)
  | removeSnapshot key => exact .goes rfl (.removeSnapshot key)
  | lockThread thread => exact .goes rfl (.lockThread thread)
  | copying | populating | unmounting | publishing => exact takes_publishStep files text _ rfl
  | replacing key content => exact .replacing key content
  | moving key content => exact .moving key content
  | removingSnapshot key => exact .removingSnapshot key
  | mounting thread => exact .returns rfl _
  | preparing key =>
    simp only [succeed, snapshotStep]
    split_ifs
    · exact .returns rfl _
    · exact .goes rfl (.preparing key)
  | removing key =>
    simp only [succeed, snapshotStep]
    cases files.snapshots key with
    | none => exact .returns rfl _
    | some snapshot => exact .removing key _
  | removeThread thread =>
    simp only [succeed, removeThreadStep]
    cases hdirectory : files.threads thread with
    | none => exact .removeThread hdirectory
    | some directory => exact .goes rfl (.removeThread thread)
  | leavingThread thread =>
    simp only [succeed, removeThreadStep]
    cases hdirectory : files.threads thread with
    | none => exact .returns rfl _
    | some directory => exact .leavingThread hdirectory
  | removingThread thread gone =>
    cases gone with
    | false => exact .removingManifest thread
    | true => exact .removingThread thread
  | materialize thread resources =>
    simp only [succeed, materializeStep]
    split_ifs with hempty
    · exact .returns rfl _
    · exact .materialize thread hempty
  | reading thread resources =>
    simp only [succeed, materializeStep]
    cases hdirectory : files.threads thread with
    | none => exact .goes rfl (.reading thread resources)
    | some directory =>
      dsimp only
      split_ifs with hmanifest hsame
      · exact .reading hdirectory hsame
      · exact .returns rfl _
      · exact .goes rfl (.reading thread resources)
  | cloning staging =>
    simp only [succeed, materializeStep, cloningStep]
    cases hremaining : staging.remaining with
    | nil =>
      dsimp only
      cases hdirectory : files.threads staging.thread with
      | none => exact .cloning hdirectory
      | some directory => exact .returns rfl _
    | cons resource remaining =>
      dsimp only
      cases hsnapshot : resource.snapshot with
      | none => exact .goes rfl (.cloningGit hremaining hsnapshot)
      | some key => exact .goes rfl (.cloning hremaining hsnapshot)
  | cloneSnapshot staging resource key =>
    simp only [succeed, materializeStep]
    cases files.snapshots key with
    | none => exact .returns rfl _
    | some snapshot => exact .goes rfl (.cloneSnapshot staging resource key _ _)
  | cloneGit staging resource step =>
    cases step with
    | cache => exact .cache staging resource _
    | init => exact .init staging resource
    | remote => exact .remote staging resource
    | clone tree => exact .goes rfl (.clone staging resource tree _ _)
    | fetch =>
      simp only [succeed, materializeStep, cloneGitStep]
      split_ifs
      · exact .goes rfl (.fetch staging resource text)
      · exact .returns rfl _

end

variable {key other : Key} {thread : ThreadId}

theorem Stage.quiet_spec (hquiet : stage.isQuiet) :
    (∀ key, ¬stage.Disturbs key ∧ ¬stage.AddsRemote key) ∧ ∀ thread, ¬stage.Removes thread := by
  cases stage with
  | replacing | moving | removingSnapshot | removingThread => cases hquiet
  | cloneGit staging resource step =>
    cases step with
    | remote => cases hquiet
    | _ => exact ⟨fun _ ↦ ⟨id, id⟩, fun _ ↦ id⟩
  | _ => exact ⟨fun _ ↦ ⟨id, id⟩, fun _ ↦ id⟩

theorem SnapshotWhole.of_ne (hwhole : SnapshotWhole files key) (hne : key ≠ other)
    (snapshot : Option Snapshot) : SnapshotWhole (files.setSnapshot other snapshot) key := by
  unfold SnapshotWhole
  rw [Files.setSnapshot_of_ne files hne]
  exact hwhole

/-- What a populate has given is published whole. -/
theorem SnapshotWhole.publish {content : String} (hwhole : SnapshotWhole files key ∨ key = other)
    (hpopulated : (other, content) ∈ files.outputs) :
    SnapshotWhole (files.publish other content) key := by
  by_cases hkey : key = other
  · subst hkey
    simpa [SnapshotWhole, Files.publish, Files.setSnapshot, Files.setPublished] using hpopulated
  · have hrest := hwhole.resolve_right hkey
    have hsnapshots : (files.publish other content).snapshots key = files.snapshots key :=
      Function.update_of_ne hkey ..
    have hpublished : (files.publish other content).published key = files.published key :=
      Function.update_of_ne hkey ..
    unfold SnapshotWhole
    rw [hsnapshots, hpublished]
    exact hrest

theorem SnapshotWhole.populate (hwhole : SnapshotWhole files key) (other : Key)
    (content : String) : SnapshotWhole (files.populate other content) key := by
  refine ⟨fun snapshot hsnapshot ↦ ?_, hwhole.2⟩
  obtain ⟨hcomplete, houtput⟩ := hwhole.1 snapshot hsnapshot
  exact ⟨hcomplete, List.mem_append_left _ houtput⟩

/-- What a step that succeeds does to a snapshot. -/
theorem Takes.snapshots (htakes : Takes files stage move) (hplaced : stage.Placed files)
    (hbefore : SnapshotWhole files key ∨ stage.Disturbs key) :
    SnapshotWhole move.1 key ∨ Next (Stage.Disturbs key) move.2 := by
  cases htakes with
  | returns hquiet | goes hquiet =>
    exact .inl (hbefore.resolve_right ((Stage.quiet_spec hquiet).1 key).1)
  | populating other text => exact .inl ((hbefore.resolve_right id).populate other text)
  | publishing other content snapshot =>
    by_cases hkey : key = other
    · exact .inr hkey.symm
    · exact .inl ((hbefore.resolve_right id).of_ne hkey _)
  | replacing other content =>
    by_cases hkey : other = key
    · exact .inr hkey
    · exact .inl ((hbefore.resolve_right hkey).of_ne (Ne.symm hkey) none)
  | moving other content =>
    exact .inl (SnapshotWhole.publish (hbefore.imp_right Eq.symm) hplaced.2)
  | removing other snapshot =>
    by_cases hkey : key = other
    · exact .inr hkey.symm
    · have hother := (hbefore.resolve_right id).of_ne hkey (some snapshot)
      refine .inl ⟨hother.1, ?_⟩
      intro hpublished
      refine hother.2 ?_
      exact (Files.setPublished_of_ne _ hkey false).symm.trans hpublished
  | removingSnapshot other =>
    by_cases hkey : key = other
    · subst hkey
      refine .inl ⟨?_, ?_⟩
      · intro snapshot hsnapshot
        cases (Files.setSnapshot_self files key none).symm.trans hsnapshot
      · intro htrue
        cases Eq.trans (Eq.symm hplaced) htrue
    · exact .inl ((hbefore.resolve_right (Ne.symm hkey)).of_ne hkey none)
  | _ => exact .inl (hbefore.resolve_right id)

theorem ThreadWhole.of_ne {other : ThreadId} (hwhole : ThreadWhole files thread)
    (hne : thread ≠ other) (directory : Option ThreadDirectory) :
    ThreadWhole (files.setThread other directory) thread := by
  unfold ThreadWhole
  rw [Files.setThread_of_ne files hne]
  exact hwhole

/-- The directory is complete wherever it is written. -/
theorem ThreadWhole.set {other : ThreadId} (hwhole : ThreadWhole files thread)
    {directory : Option ThreadDirectory}
    (hdirectory : ∀ value, directory = some value → value.whole = true ∧ value.manifest = true) :
    ThreadWhole (files.setThread other directory) thread := by
  by_cases hthread : thread = other
  · subst hthread
    intro value hvalue
    exact hdirectory value ((Files.setThread_self files thread directory).symm.trans hvalue)
  · exact hwhole.of_ne hthread directory

/-- What a step that succeeds does to the directory of a thread. -/
theorem Takes.threads (htakes : Takes files stage move)
    (hbefore : ThreadWhole files thread ∨ stage.Removes thread) :
    ThreadWhole move.1 thread ∨ Next (Stage.Removes thread) move.2 := by
  cases htakes with
  | returns hquiet | goes hquiet =>
    exact .inl (hbefore.resolve_right ((Stage.quiet_spec hquiet).2 thread))
  | @leavingThread other directory hdirectory =>
    by_cases hthread : thread = other
    · exact .inr hthread.symm
    · exact .inl ((hbefore.resolve_right id).of_ne hthread _)
  | removingManifest other =>
    by_cases hthread : thread = other
    · exact .inr hthread.symm
    · exact .inl ((hbefore.resolve_right (Ne.symm hthread)).of_ne hthread _)
  | removingThread other =>
    by_cases hthread : thread = other
    · subst hthread
      refine .inl ?_
      intro directory hdirectory
      cases (Files.setThread_self files thread none).symm.trans hdirectory
    · exact .inl ((hbefore.resolve_right (Ne.symm hthread)).of_ne hthread none)
  | @reading other resources directory hdirectory hsame =>
    have hwhole := hbefore.resolve_right id
    by_cases hthread : thread = other
    · subst hthread
      refine .inl (hwhole.set ?_)
      rintro _ ⟨⟩
      exact hwhole directory hdirectory
    · exact .inl (hwhole.of_ne hthread _)
  | cloning hnone =>
    refine .inl ((hbefore.resolve_right id).set ?_)
    rintro _ ⟨⟩
    exact ⟨rfl, rfl⟩
  | _ => exact .inl (hbefore.resolve_right id)

theorem CacheWhole.set {cache : GitCache} (hwhole : key ≠ other → CacheWhole files key)
    (hcache : key = other → cache.initialized = true → cache.origin = true) :
    CacheWhole (files.setCache other cache) key := by
  by_cases hkey : key = other
  · have hset := hcache hkey
    subst hkey
    intro value hvalue
    obtain rfl := Option.some.inj ((Files.setCache_self files key cache).symm.trans hvalue)
    exact hset
  · unfold CacheWhole
    rw [Files.setCache_of_ne files hkey]
    exact hwhole hkey

/-- What a step that succeeds does to a Git cache. -/
theorem Takes.caches (htakes : Takes files stage move)
    (hbefore : CacheWhole files key ∨ stage.AddsRemote key) :
    CacheWhole move.1 key ∨ Next (Stage.AddsRemote key) move.2 := by
  cases htakes with
  | returns hquiet | goes hquiet =>
    exact .inl (hbefore.resolve_right ((Stage.quiet_spec hquiet).1 key).2)
  | cache staging resource step =>
    have hwhole := hbefore.resolve_right id
    refine .inl (CacheWhole.set (fun _ ↦ hwhole) ?_)
    intro hkey
    subst hkey
    cases hcache : files.caches resource.gitKey with
    | none => exact fun hinitialized ↦ Bool.noConfusion hinitialized
    | some cache => exact hwhole cache hcache
  | init staging resource =>
    by_cases hkey : resource.gitKey = key
    · exact .inr hkey
    · have hwhole := hbefore.resolve_right id
      exact .inl (CacheWhole.set (fun _ ↦ hwhole) fun heq ↦ absurd heq.symm hkey)
  | remote staging resource =>
    refine .inl (CacheWhole.set ?_ (fun _ _ ↦ rfl))
    exact fun hne ↦ hbefore.resolve_right (Ne.symm hne)
  | _ => exact .inl (hbefore.resolve_right id)

end Exo.Resources
