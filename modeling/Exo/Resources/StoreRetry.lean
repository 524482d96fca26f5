import Exo.Resources.StoreLocks

/-!
# Calls that are tried again

A call that is made when nobody holds the locks it takes, and whose commands all succeed, returns:
whatever earlier calls left behind, as long as the files under these locks are at rest.
-/

namespace Exo.Resources

open Library List Function Option

variable {files : Files} {stage : Stage}

/-- The locks that a call takes from here on. -/
def Stage.needs : Stage → List LockName
  | .prepare key | .preparing key | .prepareVolume key | .copying key | .populating key
  | .unmounting key _ | .publishing key _ | .replacing key _ | .moving key _ | .removeSnapshot key
  | .removing key | .removingSnapshot key => [.snapshot key]
  | .removeThread thread | .lockThread thread | .leavingThread thread | .removingThread thread _
  | .mounting thread => [.thread thread]
  | .materialize thread resources | .reading thread resources =>
    .thread thread :: resources.map PreparedResource.lock
  | .cloning staging => .thread staging.thread :: staging.remaining.map PreparedResource.lock
  | .cloneSnapshot staging _ key =>
    .thread staging.thread :: .snapshot key :: staging.remaining.map PreparedResource.lock
  | .cloneGit staging resource _ =>
    .thread staging.thread :: .git resource.gitKey :: staging.remaining.map PreparedResource.lock

/-- The call returns after so many steps, whatever they give. -/
def Finishes : ℕ → Files → Stage → Prop
  | 0, _, _ => False
  | count + 1, files, stage => ∀ text,
    match succeed files text stage with
    | (after, .inl stage) => Finishes count after stage
    | (_, .inr (.ok _)) => count = 0
    | (_, .inr .error) => False

theorem finishes_moving (key : Key) (content : String) : Finishes 1 files (.moving key content) :=
  fun _ ↦ rfl

section
variable (files : Files) (key : Key)

/-- How long it takes does not depend on what was populated. -/
theorem finishes_publishing : ∃ count, ∀ outputs content,
    Finishes count { files with outputs } (.publishing key content) := by
  cases hsnapshot : files.snapshots key with
  | none =>
    refine ⟨2, fun outputs content text ↦ ?_⟩
    simp only [succeed, snapshotStep, publishStep, hsnapshot, goto]
    exact finishes_moving key content
  | some snapshot =>
    refine ⟨3, fun outputs content text ↦ ?_⟩
    simp only [succeed, snapshotStep, publishStep, hsnapshot, goto]
    exact fun _ ↦ finishes_moving key content

theorem finishes_copying : ∃ count, Finishes count files (.copying key) := by
  obtain ⟨count, hpublishing⟩ := finishes_publishing files key
  exact ⟨count + 3, fun _ populated _ ↦ hpublishing _ populated⟩

theorem finishes_prepare : ∃ count, Finishes count files (.prepare key) := by
  cases hsnapshot : files.snapshots key with
  | some snapshot =>
    refine ⟨2, fun _ text ↦ ?_⟩
    simp only [succeed, snapshotStep, hsnapshot, isSome_some, if_true, ok, finish]
  | none =>
    obtain ⟨count, hcopying⟩ := finishes_copying files key
    refine ⟨count + 2, fun _ text ↦ ?_⟩
    simp only [succeed, snapshotStep, hsnapshot, isSome_none, goto]
    exact hcopying

theorem finishes_removeSnapshot : ∃ count, Finishes count files (.removeSnapshot key) := by
  cases hsnapshot : files.snapshots key with
  | none =>
    refine ⟨2, fun _ text ↦ ?_⟩
    simp only [succeed, snapshotStep, hsnapshot, ok, finish]
  | some snapshot =>
    refine ⟨3, fun _ text ↦ ?_⟩
    simp only [succeed, snapshotStep, hsnapshot, goto]
    exact fun _ ↦ rfl

end

theorem finishes_removeThread (files : Files) (thread : ThreadId) :
    ∃ count, Finishes count files (.removeThread thread) := by
  cases hdirectory : files.threads thread with
  | none =>
    refine ⟨1, fun text ↦ ?_⟩
    simp only [succeed, removeThreadStep, hdirectory, isSome_none, Bool.false_eq_true,
      if_false, ok, finish]
  | some directory =>
    refine ⟨5, fun text ↦ ?_⟩
    simp only [succeed, removeThreadStep, hdirectory, isSome_some, if_true, goto]
    intro _ text
    simp only [succeed, removeThreadStep, hdirectory, goto]
    exact fun _ _ ↦ rfl

theorem finishes_mounting (thread : ThreadId) : Finishes 1 files (.mounting thread) := fun _ ↦ rfl

/-- What a call still clones is there. -/
def Available (files : Files) (remaining : List PreparedResource) : Prop :=
  ∀ resource ∈ remaining,
    (∀ key, resource.snapshot = some key → files.snapshots key ≠ none) ∧
    (resource.snapshot = none → CacheWhole files resource.gitKey)

variable {remaining : List PreparedResource} {cache : GitCache} {resource : PreparedResource}
  {count : ℕ} {thread : ThreadId}

theorem Available.setCache {key : Key} (havailable : Available files remaining)
    (hcache : cache.initialized = true → cache.origin = true) :
    Available (files.setCache key cache) remaining := by
  intro resource hresource
  have hold := havailable resource hresource
  exact ⟨hold.1, fun hsnapshot ↦ CacheWhole.set (fun _ ↦ hold.2 hsnapshot) fun _ ↦ hcache⟩

theorem Files.setCache_setCache (files : Files) (key : Key) (cache other : GitCache) :
    (files.setCache key cache).setCache key other = files.setCache key other :=
  congrArg (fun caches ↦ { files with caches }) (update_idem ..)

/-- A fetch into a cache with its remote. -/
theorem finishes_fetch {staging : Staging} (hcache : files.caches resource.gitKey = some cache)
    (horigin : cache.origin = true) (hrest : ∀ tree, Finishes count files
      (.cloning (staging.add ⟨resource, resource.gitKey, some tree⟩ tree))) :
    Finishes (count + 2) files (.cloneGit staging resource .fetch) := by
  intro tree
  simp only [succeed, materializeStep, cloneGitStep, hcache, horigin, map_some,
    getD_some, if_true, goto]
  exact fun _ ↦ hrest tree

/-- The remote is added with the repository, or it was there with it. -/
theorem finishes_cloneGit (staging : Staging) (hwhole : CacheWhole files resource.gitKey)
    (hrest : ∀ cache : GitCache, (cache.initialized = true → cache.origin = true) →
      ∃ count, ∀ instances workspaces, Finishes count (files.setCache resource.gitKey cache)
        (.cloning { staging with instances, workspaces })) :
    ∃ count, ∀ instances workspaces,
      Finishes count files (.cloneGit { staging with instances, workspaces } resource .cache) := by
  generalize hcache : (files.caches resource.gitKey).getD ⟨false, false⟩ = cache
  cases hinitialized : cache.initialized with
  | true =>
    have horigin : cache.origin = true := by
      cases hfound : files.caches resource.gitKey with
      | none =>
        rw [hfound] at hcache
        subst hcache
        cases hinitialized
      | some found =>
        rw [hfound] at hcache
        obtain rfl : found = cache := hcache
        exact hwhole found hfound hinitialized
    obtain ⟨count, hfinishes⟩ := hrest cache fun _ ↦ horigin
    refine ⟨count + 3, fun instances workspaces text ↦ ?_⟩
    simp only [succeed, materializeStep, cloneGitStep, hcache, hinitialized, if_true, goto]
    exact finishes_fetch (Files.setCache_self ..) horigin fun tree ↦ hfinishes _ _
  | false =>
    obtain ⟨count, hfinishes⟩ := hrest ⟨true, true⟩ fun _ ↦ rfl
    refine ⟨count + 5, fun instances workspaces text ↦ ?_⟩
    simp only [succeed, materializeStep, cloneGitStep, hcache, hinitialized, goto]
    intro _ _
    simp only [succeed, materializeStep, cloneGitStep, goto, Files.setCache_setCache]
    exact finishes_fetch (Files.setCache_self ..) rfl fun tree ↦ hfinishes _ _

/-- The induction is on the resources still to clone; the caches change as they are cloned. -/
theorem finishes_cloning (hnone : files.threads thread = none)
    (havailable : Available files remaining) :
    ∃ count, ∀ instances workspaces,
      Finishes count files (.cloning ⟨thread, remaining, instances, workspaces⟩) := by
  induction remaining generalizing files with
  | nil =>
    refine ⟨2, fun instances workspaces text ↦ ?_⟩
    simp only [succeed, materializeStep, cloningStep, hnone, goto]
    exact finishes_mounting thread
  | cons resource remaining ih =>
    have hresource := havailable resource (mem_cons_self ..)
    have hremaining : Available files remaining :=
      fun other hother ↦ havailable other (mem_cons_of_mem _ hother)
    cases hsnapshot : resource.snapshot with
    | some key =>
      obtain ⟨count, hfinishes⟩ := ih hnone hremaining
      obtain ⟨snapshot, hkey⟩ := ne_none_iff_exists'.1 (hresource.1 key hsnapshot)
      refine ⟨count + 2, fun instances workspaces text ↦ ?_⟩
      simp only [succeed, materializeStep, cloningStep, hsnapshot, goto]
      intro text
      simp only [succeed, materializeStep, hkey, goto]
      exact hfinishes _ _
    | none =>
      obtain ⟨count, hfinishes⟩ := finishes_cloneGit ⟨thread, remaining, [], []⟩
        (hresource.2 hsnapshot) fun cache hcache ↦ ih hnone (hremaining.setCache hcache)
      refine ⟨count + 1, fun instances workspaces text ↦ ?_⟩
      simp only [succeed, materializeStep, cloningStep, hsnapshot, goto]
      exact hfinishes _ _

/-- The directory has the resources of the call, or what the call clones is there. -/
def Stage.Ready (files : Files) : Stage → Prop
  | .materialize thread resources =>
    match files.threads thread with
    | some directory => sameResources directory.instances resources = true
    | none => ∀ resource ∈ resources, ∀ key, resource.snapshot = some key →
        files.snapshots key ≠ none
  | _ => True

theorem finishes_materialize {resources : List PreparedResource}
    (hready : (Stage.materialize thread resources).Ready files) (hwhole : ThreadWhole files thread)
    (hcaches : ∀ resource ∈ resources, resource.snapshot = none →
      CacheWhole files resource.gitKey) :
    ∃ count, Finishes count files (.materialize thread resources) := by
  by_cases hempty : resources = []
  · refine ⟨1, fun text ↦ ?_⟩
    simp only [succeed, materializeStep, hempty, if_true, ok, finish]
  · cases hdirectory : files.threads thread with
    | some directory =>
      have hmanifest := (hwhole directory hdirectory).2
      have hsame : sameResources directory.instances resources = true := by
        simpa only [Stage.Ready, hdirectory] using hready
      refine ⟨3, fun text ↦ ?_⟩
      simp only [succeed, materializeStep, hempty, if_false, goto]
      intro text
      have hthere : (files.setRemoved thread false).threads thread = some directory := hdirectory
      simp only [succeed, materializeStep, hthere, hmanifest, hsame, if_true, goto]
      exact finishes_mounting thread
    | none =>
      have hsnapshots : ∀ resource ∈ resources, ∀ key, resource.snapshot = some key →
          files.snapshots key ≠ none := by
        simpa only [Stage.Ready, hdirectory] using hready
      have hnone : (files.setRemoved thread false).threads thread = none := hdirectory
      have havailable : Available (files.setRemoved thread false) resources :=
        fun resource hresource ↦ ⟨hsnapshots resource hresource, hcaches resource hresource⟩
      obtain ⟨count, hfinishes⟩ := finishes_cloning hnone havailable
      refine ⟨count + 2, fun text ↦ ?_⟩
      simp only [succeed, materializeStep, hempty, if_false, goto]
      intro text
      simp only [succeed, materializeStep, hnone, goto]
      exact hfinishes [] []

theorem Stage.wants_needs {name : LockName} (hwants : name ∈ stage.wants) :
    name ∈ stage.needs ∧ name ∉ stage.locks := by
  cases stage with
  | prepare key | prepareVolume key | removeSnapshot key | lockThread thread =>
    obtain rfl := some.inj hwants
    exact ⟨mem_cons_self .., not_mem_nil⟩
  | materialize thread resources =>
    simp only [wants] at hwants
    split_ifs at hwants
    · cases hwants
    · obtain rfl := some.inj hwants
      exact ⟨mem_cons_self .., not_mem_nil⟩
  | cloning staging =>
    obtain ⟨resource, hresource, rfl⟩ := map_eq_some_iff.1 hwants
    refine ⟨mem_cons_of_mem _ (mem_map_of_mem (mem_of_mem_head? hresource)), ?_⟩
    unfold PreparedResource.lock
    cases resource.snapshot <;> simp [locks]
  | _ => cases hwants

theorem Goes.needs {after : Stage} (hgoes : Goes files stage after) :
    after.needs ⊆ stage.needs := by
  cases hgoes with
  | cloning hremaining hsnapshot | cloningGit hremaining hsnapshot =>
    simp [Stage.needs, hremaining, PreparedResource.lock, hsnapshot]
  | cloneSnapshot | clone => exact cons_subset_cons _ (subset_cons_self ..)
  | _ => exact List.Subset.refl _

theorem Takes.needs {move : Move} (htakes : Takes files stage move) :
    Then (fun after ↦ after.needs ⊆ stage.needs) move.2 := by
  cases htakes with
  | goes _ hgoes => exact hgoes.needs
  | returns | moving | removingSnapshot | removeThread | removingThread => trivial
  | reading | cloning => exact cons_subset_cons _ (nil_subset _)
  | _ => exact List.Subset.refl _

/-- The steps of a call whose commands all succeed. -/
def steps (caller : ℕ) (texts : List String) : List ResourceLabel :=
  texts.map fun text ↦ .step caller (some text)

/-- A call that is made alone on its locks takes its steps and returns. -/
theorem exec_finishes {caller : ℕ} {state : ResourceState} (htask : state.tasks caller = some stage)
    (hfinishes : Finishes count state.files stage)
    (hfree : ∀ other otherStage, other ≠ caller → state.tasks other = some otherStage →
      ∀ name ∈ stage.needs, name ∉ otherStage.locks) {texts : List String}
    (hcount : texts.length = count) :
    store.Admits state (steps caller texts) ∧
      ∃ paths, (store.exec state (steps caller texts)).results caller = some (.ok paths) := by
  induction texts generalizing state stage count with
  | nil =>
    subst hcount
    exact hfinishes.elim
  | cons text texts ih =>
    subst hcount
    have henabled : store.enabled state (.step caller (some text)) := by
      refine ⟨stage, htask, ?_⟩
      intro name hwants other otherStage hother
      by_cases hcaller : other = caller
      · subst hcaller
        obtain rfl := some.inj (htask.symm.trans hother)
        exact (Stage.wants_needs hwants).2
      · exact hfree other otherStage hcaller hother name (Stage.wants_needs hwants).1
    have hneeds := (takes_succeed state.files text stage).needs
    have hstep := hfinishes text
    have hnext : store.next state (.step caller (some text)) =
        state.apply caller (succeed state.files text stage) := by
      simp only [store, ResourceState.next, htask, proceed]
    rw [steps, map_cons, System.admits_cons, System.exec_cons, hnext]
    generalize succeed state.files text stage = move at hneeds hstep
    obtain ⟨after, next⟩ := move
    rcases next with stage | result
    · have htasks : (state.apply caller (after, .inl stage)).tasks caller = some stage :=
        update_self ..
      have hrest := ih htasks hstep (fun other otherStage hcaller hother name hname ↦
        hfree other otherStage hcaller
          ((update_of_ne hcaller ..).symm.trans hother) name (hneeds hname)) rfl
      exact ⟨⟨henabled, hrest.1⟩, hrest.2⟩
    · cases result with
      | error => exact hstep.elim
      | ok paths =>
        obtain rfl := length_eq_zero_iff.1 hstep
        exact ⟨⟨henabled, trivial⟩, paths, update_self ..⟩

end Exo.Resources
