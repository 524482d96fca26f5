import Mathlib.Logic.Function.Basic
import Exo.Library.System

/-!
# The resource store

`ResourceStore` publishes snapshots of resources and materializes them as workspaces of threads.
Every call is a sequence of file operations and commands under file locks, which the kernel releases
when the call returns or its process ends.  Any operation may fail and a process may crash between
any two of them; the calls of all processes interleave freely.

A digest is injective: a snapshot, a Git cache and a thread are known by their key.  The rename of a
directory is one step; the removal of a directory is not, and leaves part of it in between.  What a
populate or a fetch gives is a parameter of the step.
-/

namespace Exo.Resources

open Library Function

abbrev Key := String

abbrev ThreadId := String

/-- A resource; `definition` is everything in its definition but the name and the credential. -/
structure PreparedResource where
  name : String
  definition : String
  credential : Option String
  snapshot : Option Key
  /-- The key of the Git cache, used without a snapshot. -/
  gitKey : Key

def PreparedResource.sameWorkspace (resource other : PreparedResource) : Bool :=
  resource.snapshot == other.snapshot && resource.name == other.name &&
    resource.definition == other.definition

structure Instance where
  prepared : PreparedResource
  snapshot : Key
  revision : Option String

/-- A directory under `snapshots`. -/
structure Snapshot where
  content : String
  whole : Bool

/-- The directory of a thread, with its manifest and one workspace for each resource. -/
structure ThreadDirectory where
  instances : List Instance
  workspaces : List String
  manifest : Bool
  whole : Bool

structure GitCache where
  initialized : Bool
  origin : Bool

/-- The directories under the root, the outputs of successful populates, the keys whose snapshot was
published and not removed since, and the threads whose removal has returned and that no later call
materializes. -/
structure Files where
  snapshots : Key → Option Snapshot := fun _ ↦ none
  threads : ThreadId → Option ThreadDirectory := fun _ ↦ none
  caches : Key → Option GitCache := fun _ ↦ none
  outputs : List (Key × String) := []
  published : Key → Bool := fun _ ↦ false
  removed : ThreadId → Bool := fun _ ↦ false

namespace Files

section
variable (files : Files)

section
variable (key : Key)

def setSnapshot (snapshot : Option Snapshot) : Files :=
  { files with snapshots := Function.update files.snapshots key snapshot }

section
variable (thread : ThreadId)

section
variable (directory : Option ThreadDirectory)

def setThread : Files :=
  { files with threads := Function.update files.threads thread directory }

def setCache (cache : GitCache) : Files :=
  { files with caches := Function.update files.caches key (some cache) }

def setPublished (published : Bool) : Files :=
  { files with published := Function.update files.published key published }

def setRemoved (removed : Bool) : Files :=
  { files with removed := Function.update files.removed thread removed }

@[simp]
theorem setSnapshot_self (snapshot : Option Snapshot) :
    (files.setSnapshot key snapshot).snapshots key = snapshot := update_self ..

theorem setSnapshot_of_ne {key other : Key} (hne : other ≠ key)
    (snapshot : Option Snapshot) :
    (files.setSnapshot key snapshot).snapshots other = files.snapshots other :=
  update_of_ne hne ..

@[simp]
theorem setThread_self :
    (files.setThread thread directory).threads thread = directory := update_self ..

end

theorem setThread_of_ne {thread other : ThreadId} (hne : other ≠ thread)
    (directory : Option ThreadDirectory) :
    (files.setThread thread directory).threads other = files.threads other :=
  update_of_ne hne ..

@[simp]
theorem setCache_self (cache : GitCache) :
    (files.setCache key cache).caches key = some cache := update_self ..

theorem setCache_of_ne {key other : Key} (hne : other ≠ key) (cache : GitCache) :
    (files.setCache key cache).caches other = files.caches other := update_of_ne hne ..

@[simp]
theorem setPublished_self (published : Bool) :
    (files.setPublished key published).published key = published := update_self ..

theorem setPublished_of_ne {key other : Key} (hne : other ≠ key)
    (published : Bool) : (files.setPublished key published).published other =
      files.published other :=
  update_of_ne hne ..

@[simp]
theorem setRemoved_self (removed : Bool) :
    (files.setRemoved thread removed).removed thread = removed := update_self ..

end

theorem setRemoved_of_ne {thread other : ThreadId} (hne : other ≠ thread)
    (removed : Bool) : (files.setRemoved thread removed).removed other = files.removed other :=
  update_of_ne hne ..

/-- A populate has succeeded and left this in the staged volume. -/
def populate (content : String) : Files :=
  { files with outputs := files.outputs ++ [(key, content)] }

/-- The rename of the staged volume, once nothing is in its way. -/
def publish (content : String) : Files :=
  (files.setSnapshot key (some ⟨content, true⟩)).setPublished key true

end

end

end Files

inductive LockName where
  | snapshot (key : Key)
  | git (key : Key)
  | thread (thread : ThreadId)
  deriving DecidableEq

/-- The lock under which a resource is cloned. -/
def PreparedResource.lock (resource : PreparedResource) : LockName :=
  match resource.snapshot with
  | some key => .snapshot key
  | none => .git resource.gitKey

/-- A `materialize` without a manifest: the resources still to clone, and the staged ones. -/
structure Staging where
  thread : ThreadId
  remaining : List PreparedResource
  instances : List Instance := []
  workspaces : List String := []

/-- `clone_git_resource`: the cache is created, `git init`, `git remote add`, the fetch and the
checkout, and the clone of the cache. -/
inductive GitStep where
  | cache
  | init
  | remote
  | fetch
  | clone (tree : String)

/-- What a call does next.  `prepare`, `prepareVolume`, `removeSnapshot`, `lockThread` and
`materialize` wait for their lock; `cloning` waits for that of the next resource. -/
inductive Stage where
  | prepare (key : Key)
  | preparing (key : Key)
  | prepareVolume (key : Key)
  | copying (key : Key)
  | populating (key : Key)
  | unmounting (key : Key) (populated : Option String)
  | publishing (key : Key) (content : String)
  | replacing (key : Key) (content : String)
  | moving (key : Key) (content : String)
  | removeSnapshot (key : Key)
  | removing (key : Key)
  | removingSnapshot (key : Key)
  | removeThread (thread : ThreadId)
  | lockThread (thread : ThreadId)
  | leavingThread (thread : ThreadId)
  | removingThread (thread : ThreadId) (manifestGone : Bool)
  | materialize (thread : ThreadId) (resources : List PreparedResource)
  | reading (thread : ThreadId) (resources : List PreparedResource)
  | cloning (staging : Staging)
  | cloneSnapshot (staging : Staging) (resource : PreparedResource) (key : Key)
  | cloneGit (staging : Staging) (resource : PreparedResource) (step : GitStep)
  | mounting (thread : ThreadId)

namespace Stage

/-- The locks that are held. -/
def locks : Stage → List LockName
  | .preparing key | .copying key | .populating key | .unmounting key _ | .publishing key _
  | .replacing key _ | .moving key _ | .removing key | .removingSnapshot key => [.snapshot key]
  | .leavingThread thread | .removingThread thread _ | .reading thread _ | .mounting thread =>
    [.thread thread]
  | .cloning staging => [.thread staging.thread]
  | .cloneSnapshot staging _ key => [.thread staging.thread, .snapshot key]
  | .cloneGit staging resource _ => [.thread staging.thread, .git resource.gitKey]
  | .prepare _ | .prepareVolume _ | .removeSnapshot _ | .removeThread _ | .lockThread _
  | .materialize _ _ => []

/-- The lock that the next step waits for. -/
def wants : Stage → Option LockName
  | .prepare key | .prepareVolume key | .removeSnapshot key => some (.snapshot key)
  | .lockThread thread => some (.thread thread)
  | .materialize thread resources => if resources = [] then none else some (.thread thread)
  | .cloning staging => staging.remaining.head?.map PreparedResource.lock
  | _ => none

/-- The first stage of a call. -/
def isEntry : Stage → Bool
  | .prepare _ | .prepareVolume _ | .removeSnapshot _ | .removeThread _ | .materialize _ _ => true
  | _ => false

end Stage

inductive CallResult where
  | ok (paths : List (ThreadId × String))
  | error

structure ResourceState where
  files : Files := {}
  tasks : ℕ → Option Stage := fun _ ↦ none
  results : ℕ → Option CallResult := fun _ ↦ none

/-- A call begins, takes a step that gives something or fails, or dies with its process; a thread
writes into one of its workspaces. -/
inductive ResourceLabel where
  | call (caller : ℕ) (stage : Stage)
  | step (caller : ℕ) (outcome : Option String)
  | crash (caller : ℕ)
  | edit (thread : ThreadId) (index : ℕ) (content : String)

/-- The next stage of a call or its result, and the files. -/
abbrev Move := Files × (Stage ⊕ CallResult)

section
variable (files : Files)

/-- The locks are released with the return. -/
def finish (result : CallResult) : Move := (files, .inr result)

def goto (stage : Stage) : Move := (files, .inl stage)

def ok : Move := finish files (.ok [])

def fail : Move := finish files .error

section
variable (text : String)

/-- `publish`, from the staged copy of the snapshot or an empty volume to the rename. -/
def publishStep : Stage → Move
  | .copying key => goto files (.populating key)
  | .populating key => goto (files.populate key text) (.unmounting key (some text))
  | .unmounting _ none => fail files
  | .unmounting key (some content) => goto files (.publishing key content)
  | .publishing key content =>
    match files.snapshots key with
    | some snapshot =>
      goto (files.setSnapshot key (some { snapshot with whole := false })) (.replacing key content)
    | none => goto files (.moving key content)
  | .replacing key content => goto (files.setSnapshot key none) (.moving key content)
  | .moving key content => ok (files.publish key content)
  | _ => fail files

/-- `prepare` for one resource, `prepare_volume` and `remove_snapshot`. -/
def snapshotStep : Stage → Move
  | .prepare key => goto files (.preparing key)
  | .preparing key =>
    if (files.snapshots key).isSome then ok files else goto files (.copying key)
  | .prepareVolume key => goto files (.copying key)
  | .removeSnapshot key => goto files (.removing key)
  | .removing key =>
    match files.snapshots key with
    | none => ok files
    | some snapshot =>
      goto ((files.setSnapshot key (some { snapshot with whole := false })).setPublished key false)
        (.removingSnapshot key)
  | .removingSnapshot key => ok (files.setSnapshot key none)
  | stage => publishStep files text stage

/-- `remove_thread`; whether there is a directory is asked before the lock is taken. -/
def removeThreadStep : Stage → Move
  | .removeThread thread =>
    if (files.threads thread).isSome then goto files (.lockThread thread)
    else ok (files.setRemoved thread true)
  | .lockThread thread => goto files (.leavingThread thread)
  | .leavingThread thread =>
    match files.threads thread with
    | none => fail files
    | some directory =>
      goto (files.setThread thread (some { directory with whole := false }))
        (.removingThread thread false)
  | .removingThread thread false =>
    goto (files.setThread thread ((files.threads thread).map ({ · with manifest := false })))
      (.removingThread thread true)
  | .removingThread thread true => ok ((files.setThread thread none).setRemoved thread true)
  | _ => fail files

section
variable (instances : List Instance) (resources : List PreparedResource)

/-- The resources of the manifest and those of the call make the same workspaces. -/
def sameResources : Bool :=
  instances.length == resources.length &&
    (instances.zip resources).all fun pair ↦ pair.1.prepared.sameWorkspace pair.2

def updateInstances : List Instance :=
  instances.zipWith (fun entry resource ↦ { entry with prepared := resource }) resources

end

def paths (thread : ThreadId) (directory : Option ThreadDirectory) : List (ThreadId × String) :=
  match directory with
  | none => []
  | some directory => directory.instances.map fun entry ↦ (thread, entry.prepared.name)

section
variable (staging : Staging)

def Staging.add (entry : Instance) (workspace : String) : Staging :=
  { staging with
    instances := staging.instances ++ [entry]
    workspaces := staging.workspaces ++ [workspace] }

/-- The next resource, or the manifest and the rename, which fails if there is a directory. -/
def cloningStep : Move :=
  match staging.remaining with
  | [] =>
    match files.threads staging.thread with
    | some _ => fail files
    | none =>
      goto (files.setThread staging.thread
        (some ⟨staging.instances, staging.workspaces, true, true⟩)) (.mounting staging.thread)
  | resource :: remaining =>
    match resource.snapshot with
    | some key => goto files (.cloneSnapshot { staging with remaining } resource key)
    | none => goto files (.cloneGit { staging with remaining } resource .cache)

/-- `clone_git_resource`; the remote is added only together with `git init`. -/
def cloneGitStep (resource : PreparedResource) : GitStep → Move
  | .cache =>
    let cache := (files.caches resource.gitKey).getD ⟨false, false⟩
    goto (files.setCache resource.gitKey cache)
      (.cloneGit staging resource (if cache.initialized then .fetch else .init))
  | .init =>
    goto (files.setCache resource.gitKey ⟨true, false⟩) (.cloneGit staging resource .remote)
  | .remote =>
    goto (files.setCache resource.gitKey ⟨true, true⟩) (.cloneGit staging resource .fetch)
  | .fetch =>
    if ((files.caches resource.gitKey).map (·.origin)).getD false then
      goto files (.cloneGit staging resource (.clone text))
    else fail files
  | .clone tree => goto files (.cloning (staging.add ⟨resource, resource.gitKey, some tree⟩ tree))

end

/-- `materialize`. -/
def materializeStep : Stage → Move
  | .materialize thread resources =>
    if resources = [] then ok files
    else goto (files.setRemoved thread false) (.reading thread resources)
  | .reading thread resources =>
    match files.threads thread with
    | none => goto files (.cloning { thread, remaining := resources })
    | some directory =>
      if directory.manifest then
        if sameResources directory.instances resources then
          goto (files.setThread thread (some { directory with
            instances := updateInstances directory.instances resources })) (.mounting thread)
        else fail files
      else goto files (.cloning { thread, remaining := resources })
  | .cloning staging => cloningStep files staging
  | .cloneSnapshot staging resource key =>
    match files.snapshots key with
    | none => fail files
    | some snapshot =>
      goto files (.cloning (staging.add ⟨resource, key, none⟩ snapshot.content))
  | .cloneGit staging resource step => cloneGitStep files text staging resource step
  | .mounting thread => finish files (.ok (paths thread (files.threads thread)))
  | _ => fail files

/-- A step that succeeds. -/
def succeed : Stage → Move
  | .removeThread thread => removeThreadStep files (.removeThread thread)
  | .lockThread thread => removeThreadStep files (.lockThread thread)
  | .leavingThread thread => removeThreadStep files (.leavingThread thread)
  | .removingThread thread gone => removeThreadStep files (.removingThread thread gone)
  | .materialize thread resources => materializeStep files text (.materialize thread resources)
  | .reading thread resources => materializeStep files text (.reading thread resources)
  | .cloning staging => materializeStep files text (.cloning staging)
  | .cloneSnapshot staging resource key =>
    materializeStep files text (.cloneSnapshot staging resource key)
  | .cloneGit staging resource step => materializeStep files text (.cloneGit staging resource step)
  | .mounting thread => materializeStep files text (.mounting thread)
  | stage => snapshotStep files text stage

end

/-- A step that may fail: a failed populate still unmounts the volume, any other failure returns. -/
def proceed (stage : Stage) : Option String → Move
  | some text => succeed files text stage
  | none =>
    match stage with
    | .populating key => goto files (.unmounting key none)
    | _ => fail files

end

namespace ResourceState

section
variable (state : ResourceState)

/-- Nobody holds the lock. -/
def Free (name : LockName) : Prop :=
  ∀ caller stage, state.tasks caller = some stage → name ∉ stage.locks

def apply (caller : ℕ) (move : Move) : ResourceState :=
  match move with
  | (files, .inl stage) =>
    { state with files, tasks := Function.update state.tasks caller (some stage) }
  | (files, .inr result) =>
    { files
      tasks := Function.update state.tasks caller none
      results := Function.update state.results caller (some result) }

def enabled : ResourceLabel → Prop
  | .call caller stage => state.tasks caller = none ∧ stage.isEntry = true
  | .step caller _ => ∃ stage, state.tasks caller = some stage ∧
      ∀ name ∈ stage.wants, state.Free name
  | .crash caller => state.tasks caller ≠ none
  | .edit thread _ _ => state.files.threads thread ≠ none

def next : ResourceLabel → ResourceState
  | .call caller stage =>
    { state with
      tasks := Function.update state.tasks caller (some stage)
      results := Function.update state.results caller none }
  | .step caller outcome =>
    match state.tasks caller with
    | none => state
    | some stage => state.apply caller (proceed state.files stage outcome)
  | .crash caller => { state with tasks := Function.update state.tasks caller none }
  | .edit thread index content =>
    { state with
      files := state.files.setThread thread ((state.files.threads thread).map fun directory ↦
        { directory with workspaces := directory.workspaces.set index content }) }

end

end ResourceState

/-- The calls of all processes on one store. -/
def store : System ResourceState ResourceLabel where
  enabled := ResourceState.enabled
  next := ResourceState.next

end Exo.Resources
