import Exo.Library.InPlace
import Exo.Scheduler.Schedule

/-!
# Creating agents and threads

A provider keeps agents and threads, and each call on it may fail; deletion succeeds.  Creating an
agent is cleaned up after every failure.  Opening a thread is cleaned up if its configuration fails,
and not if a call before or after that fails; a thread that existed keeps a new environment and new
vaults if a later call fails.
-/

namespace Exo.ManagedAgents

open Library InPlace Function

structure AgentDefinition where
  name : String
  source : String

structure Agent where
  slug : String
  name : String
  definition : Option String

section
variable (Environment : Type)

structure Thread where
  slug : String
  environment : Option Environment
  vaults : List ℕ
  modelOverride : Option String

structure NewThreadRequest where
  environment : Option Environment
  vaults : List ℕ
  slug : Option String
  name : Option String

structure ThreadInfo where
  model : Option String
  mcpTools : Option ℕ

inductive ThreadVisibility where
  | owner
  | project
  deriving DecidableEq

structure CreateThreadBody where
  environment : Option Environment
  vaults : List ℕ
  threadId : Option ℕ
  threadSlug : Option String
  threadName : Option String
  harness : Option String
  model : Option String
  endpointName : Option String
  reasoningEffort : Option String
  visibility : ThreadVisibility
  source : Option String

/-- The agents, the threads of one agent, and these as a listing gives them. -/
structure Storage where
  agents : ℕ → Option Agent
  threads : ℕ → Option (Thread Environment)
  listed : List ℕ

/-- The calls on a provider that may fail. -/
inductive Call where
  | newAgent
  | configureAgent
  | writeArtifact
  | getAgentConfig
  | loadDefinition
  | findThread
  | newThread
  | updateEnvironment
  | attachVaults
  | configureThread
  | registerPreviews
  | addEvents

/-- A provider: which calls succeed, the next `Uuid7`, the record that `new_thread` makes, and what
the harness and the configuration of a thread are.  A call that fails changes nothing. -/
structure Backend where
  succeeds : Call → Bool
  message : Call → String
  nextId : ℕ
  opened : NewThreadRequest Environment → Thread Environment
  parseId : String → Option ℕ
  harness : String
  isBasic : Bool
  info : ThreadInfo

end

abbrev Calls (Environment α : Type) := InPlace (Storage Environment) α

abbrev Outcome (Environment α : Type) := Except String α × Storage Environment

variable {Environment α : Type} {storage : Storage Environment} {id : ℕ}
  {thread : Thread Environment}

section
variable (body : CreateThreadBody Environment)

def CreateThreadBody.isSupported : Bool :=
  body.threadId.isNone && body.endpointName.isNone && body.reasoningEffort.isNone &&
    body.visibility == .owner && body.source.isNone

def CreateThreadBody.request : NewThreadRequest Environment :=
  ⟨body.environment, body.vaults, body.threadSlug, body.threadName⟩

end

def NewThreadRequest.changesEnvironment [DecidableEq Environment]
    (request : NewThreadRequest Environment) (thread : Thread Environment) : Bool :=
  request.environment.isSome && thread.environment != request.environment

def NewThreadRequest.addsVaults (request : NewThreadRequest Environment)
    (thread : Thread Environment) : Bool :=
  request.vaults.any fun id ↦ !thread.vaults.contains id

def attached (held vaults : List ℕ) : List ℕ :=
  vaults.foldl (fun held id ↦ if held.contains id then held else held ++ [id]) held

theorem mem_attached {vaults held : List ℕ} (hid : id ∈ held ∨ id ∈ vaults) :
    id ∈ attached held vaults := by
  induction vaults generalizing held with
  | nil => simpa [attached] using hid
  | cons vault vaults ih =>
    refine ih ?_
    by_cases hheld : held.contains vault <;> grind

theorem attached_ne {request : NewThreadRequest Environment}
    (hadds : request.addsVaults thread = true) :
    attached thread.vaults request.vaults ≠ thread.vaults := by
  intro hequal
  obtain ⟨vault, hvault, hnew⟩ := List.any_eq_true.1 hadds
  have hmem : vault ∈ thread.vaults := hequal ▸ mem_attached (.inr hvault)
  simp [hmem] at hnew

section
variable (storage : Storage Environment)

def Storage.setAgent (id : ℕ) (agent : Option Agent) : Storage Environment :=
  { storage with agents := update storage.agents id agent }

def Storage.setThread (id : ℕ)
    (thread : Option (Thread Environment)) : Storage Environment :=
  { storage with threads := update storage.threads id thread }

def Storage.addThread (id : ℕ) (thread : Thread Environment) : Storage Environment :=
  { storage.setThread id (some thread) with listed := id :: storage.listed }

section
variable (outcome : Outcome Environment α)

def Failed : Prop :=
  ∃ message, outcome.1 = .error message

def LeavesNoAgent : Prop :=
  Failed outcome → ∀ id, outcome.2.agents id ≠ none → storage.agents id ≠ none

def LeavesNoThread : Prop :=
  Failed outcome → ∀ id, outcome.2.threads id ≠ none → storage.threads id ≠ none

def Thread.settings (thread : Thread Environment) : Option Environment × List ℕ :=
  (thread.environment, thread.vaults)

def KeepsSettings : Prop :=
  Failed outcome → ∀ id, (outcome.2.threads id).map Thread.settings =
    (storage.threads id).map Thread.settings

end

end

theorem ne_none_of_update_none {values : ℕ → Option α} {other : ℕ}
    (hvalue : update values id none other ≠ none) : values other ≠ none := by
  intro hnone
  by_cases hsame : other = id <;> simp [hsame, hnone] at hvalue

theorem settings_setThread (hstored : storage.threads id = some thread)
    (thread' : Thread Environment) :
    (∀ other, ((storage.setThread id (some thread')).threads other).map Thread.settings =
      (storage.threads other).map Thread.settings) ↔ thread'.settings = thread.settings := by
  constructor
  · intro hall
    simpa [Storage.setThread, hstored] using hall id
  · intro hsettings other
    by_cases hother : other = id
    · subst hother
      simpa [Storage.setThread, hstored] using hsettings
    · simp [Storage.setThread, hother]

namespace Backend

variable (backend : Backend Environment)

def call (call : Call) : Calls Environment Unit :=
  check (if backend.succeeds call then .ok () else .error (backend.message call))

@[simp]
theorem runOn_call (call : Call) (storage : Storage Environment) :
    (backend.call call).runOn storage =
      (if backend.succeeds call then .ok () else .error (backend.message call), storage) := rfl

def createAgent (definition : AgentDefinition) (slug : String) : Calls Environment ℕ := do
  if slug.toList.all Scheduler.isWhitespace then
    check (.error "saved agent name must not be empty")
  backend.call .newAgent
  let id := backend.nextId
  InPlace.update (·.setAgent id (some ⟨slug, definition.name, none⟩))
  let saved ← attempt do
    backend.call .configureAgent
    backend.call .writeArtifact
    InPlace.update (·.setAgent id (some ⟨slug, definition.name, some definition.source⟩))
  match saved with
  | .error message =>
    InPlace.update (·.setAgent id none)
    check (.error message)
  | .ok () => return id

theorem createAgent_leaves_nothing (storage : Storage Environment)
    (definition : AgentDefinition) (slug : String) :
    LeavesNoAgent storage ((backend.createAgent definition slug).runOn storage) := by
  cases hblank : slug.toList.all Scheduler.isWhitespace <;>
    cases hnew : backend.succeeds .newAgent <;>
    cases hconfigure : backend.succeeds .configureAgent <;>
    cases hwrite : backend.succeeds .writeArtifact <;>
    simp [createAgent, runOn_bind, hblank, hnew, hconfigure, hwrite, LeavesNoAgent, Failed,
      Storage.setAgent]
  all_goals exact fun _ ↦ ne_none_of_update_none

/-- By id, and then by slug among the threads listed. -/
def getThread (storage : Storage Environment) (reference : String) :
    Option (ℕ × Thread Environment) :=
  ((backend.parseId reference).bind fun id ↦ (storage.threads id).map (id, ·)).or
    ((storage.listed.filterMap fun id ↦ (storage.threads id).map (id, ·)).find?
      (·.2.slug = reference))

theorem getThread_stored {reference : String}
    (hfound : backend.getThread storage reference = some (id, thread)) :
    storage.threads id = some thread := by
  rcases Option.or_eq_some_iff.1 hfound with hid | ⟨-, hslug⟩
  · obtain ⟨byId, -, hmap⟩ := Option.bind_eq_some_iff.1 hid
    obtain ⟨_, hstored, heq⟩ := Option.map_eq_some_iff.1 hmap
    cases heq
    exact hstored
  · obtain ⟨listed, -, hmap⟩ := List.mem_filterMap.1 (List.mem_of_find?_eq_some hslug)
    obtain ⟨_, hstored, heq⟩ := Option.map_eq_some_iff.1 hmap
    cases heq
    exact hstored

def findThread (reference : String) : Calls Environment (ℕ × Thread Environment) := do
  backend.call .findThread
  look fun storage ↦ match backend.getThread storage reference with
    | some found => .ok found
    | none => .error s!"thread not found: {reference}"

def newThread (request : NewThreadRequest Environment) :
    Calls Environment (ℕ × Thread Environment) := do
  backend.call .newThread
  let thread := backend.opened request
  InPlace.update (·.addThread backend.nextId thread)
  return (backend.nextId, thread)

def putRecord (call : Call) (id : ℕ) (thread : Thread Environment) :
    Calls Environment (Thread Environment) := do
  backend.call call
  InPlace.update (·.setThread id (some thread))
  return thread

def updateEnvironment (id : ℕ) (thread : Thread Environment) (environment : Option Environment) :
    Calls Environment (Thread Environment) :=
  backend.putRecord .updateEnvironment id { thread with environment }

def attachVaults (id : ℕ) (thread : Thread Environment) (vaults : List ℕ) :
    Calls Environment (Thread Environment) :=
  backend.putRecord .attachVaults id { thread with vaults := attached thread.vaults vaults }

/-- What is done with a thread once it is open. -/
def finishThread (id : ℕ) (model : Option String) : Calls Environment ℕ := do
  backend.call .registerPreviews
  if let some model := model then
    backend.call .addEvents
    InPlace.update fun storage ↦ storage.setThread id
      ((storage.threads id).map ({ · with modelOverride := some model }))
  return id

def runs (requested : String) : Bool :=
  requested == backend.harness || requested == "native" && backend.isBasic

section
variable (requested : Option String)

def checkHarness : Calls Environment Unit := do
  if let some requested := requested then
    backend.call .loadDefinition
    if !backend.runs requested then
      check (.error "choose the harness in the saved agent definition")

def serves : Bool :=
  requested.all fun requested ↦ backend.succeeds .loadDefinition && backend.runs requested

theorem runOn_checkHarness (storage : Storage Environment) : if backend.serves requested then
      (backend.checkHarness requested).runOn storage = (.ok (), storage)
    else ∃ message, (backend.checkHarness requested).runOn storage = (.error message, storage) := by
  cases requested with
  | none => rfl
  | some requested =>
    cases hload : backend.succeeds .loadDefinition <;> cases hruns : backend.runs requested <;>
      simp [checkHarness, serves, runOn_bind, hload, hruns]

end

variable [DecidableEq Environment]

/-- The environment and the vaults asked for, where the thread has not got them. -/
def settle (request : NewThreadRequest Environment) (id : ℕ) (thread : Thread Environment) :
    Calls Environment Unit := do
  let thread ← if request.changesEnvironment thread then
      backend.updateEnvironment id thread request.environment
    else pure thread
  if request.addsVaults thread then
    let _ ← backend.attachVaults id thread request.vaults

/-- `open_thread` from where the thread is there. -/
def configure (created : Bool) (request : NewThreadRequest Environment)
    (opened : ℕ × Thread Environment) : Calls Environment (ℕ × ThreadInfo) := do
  backend.settle request opened.1 opened.2
  let configured ← attempt (backend.call .configureThread)
  match configured with
  | .error message =>
    if created then
      InPlace.update (·.setThread opened.1 none)
    check (.error message)
  | .ok () => return (opened.1, backend.info)

def openThread (reference : Option String) (request : NewThreadRequest Environment) :
    Calls Environment (ℕ × ThreadInfo) :=
  match reference with
  | some reference => backend.findThread reference >>= backend.configure false request
  | none => backend.newThread request >>= backend.configure true request

def createThread (body : CreateThreadBody Environment) : Calls Environment ℕ := do
  if !body.isSupported then
    check (.error ("local runtime does not support supplied thread IDs, " ++
      "endpoint/reasoning overrides, or shared/automation threads"))
  backend.call .getAgentConfig
  backend.checkHarness body.harness
  let (id, _) ← backend.openThread none body.request
  backend.finishThread id body.model

/-! ## What a failure leaves behind -/

section
variable (request : NewThreadRequest Environment)

/-- One of the two calls that settle the thread is made and fails. -/
def isStuck (thread : Thread Environment) : Bool :=
  request.changesEnvironment thread && !backend.succeeds .updateEnvironment ||
    request.addsVaults thread && !backend.succeeds .attachVaults

/-- The first of the two calls that is made fails, or none is made. -/
def isUnchanged (thread : Thread Environment) : Bool :=
  if request.changesEnvironment thread then !backend.succeeds .updateEnvironment
  else !(request.addsVaults thread && backend.succeeds .attachVaults)

/-- A new thread is settled when its record is made, or the calls for it succeed. -/
def OpensSettled : Prop :=
  backend.succeeds .newThread → ¬backend.isStuck request (backend.opened request)

/-- No call for a new thread fails but `new_thread` and its configuration. -/
def CreatesSettled (body : CreateThreadBody Environment) : Prop :=
  body.isSupported → backend.succeeds .getAgentConfig → backend.serves body.harness →
    backend.succeeds .newThread → ¬backend.isStuck body.request (backend.opened body.request) ∧
      (backend.succeeds .configureThread → backend.succeeds .registerPreviews ∧
        (body.model ≠ none → backend.succeeds .addEvents))

/-- A thread that is there has not been changed when a call for it fails. -/
def OpensUnchanged (storage : Storage Environment) (reference : String)
    (request : NewThreadRequest Environment) : Prop :=
  backend.succeeds .findThread → ∀ id thread,
    backend.getThread storage reference = some (id, thread) →
      backend.isStuck request thread ∨ ¬backend.succeeds .configureThread →
        backend.isUnchanged request thread

/-- What settling a thread changes of it, and when it fails. -/
theorem settle_spec (hstored : storage.threads id = some thread) :
    let outcome := (backend.settle request id thread).runOn storage
    (Failed outcome ↔ backend.isStuck request thread) ∧
      ∃ thread', outcome.2 = storage.setThread id (some thread') ∧
        (thread'.settings = thread.settings ↔ backend.isUnchanged request thread) := by
  have hsame : storage = storage.setThread id (some thread) := by
    rw [← hstored, Storage.setThread, update_eq_self]
  have hvaults : request.addsVaults { thread with environment := request.environment } =
      request.addsVaults thread := rfl
  have hne : request.changesEnvironment thread → request.environment ≠ thread.environment :=
    fun hchanges hequal ↦ by simp [NewThreadRequest.changesEnvironment, hequal] at hchanges
  intro outcome
  cases hchanges : request.changesEnvironment thread <;>
    cases hadds : request.addsVaults thread <;>
    cases hupdate : backend.succeeds .updateEnvironment <;>
    cases hattach : backend.succeeds .attachVaults <;>
    simp [outcome, settle, runOn_bind, updateEnvironment, attachVaults, putRecord, Failed, isStuck,
      isUnchanged, Thread.settings, hchanges, hadds, hupdate, hattach, hvaults, Storage.setThread,
      -bind_pure_comp]
  all_goals first
    | exact ⟨thread, hsame, rfl, rfl⟩
    | exact ⟨_, rfl, fun _ ↦ attached_ne hadds⟩
    | exact ⟨_, rfl, fun hequal ↦ absurd hequal (hne hchanges)⟩

end

/-- The three ways in which configuring a thread ends. -/
theorem configure_cases (created : Bool) (request : NewThreadRequest Environment)
    (hstored : storage.threads id = some thread) :
    let outcome := (backend.configure created request (id, thread)).runOn storage
    ∃ thread', (thread'.settings = thread.settings ↔ backend.isUnchanged request thread) ∧
      ((backend.isStuck request thread ∧ Failed outcome ∧
          outcome.2 = storage.setThread id (some thread')) ∨
        (¬backend.isStuck request thread ∧ ¬backend.succeeds .configureThread ∧ Failed outcome ∧
          outcome.2 = storage.setThread id (if created then none else some thread')) ∨
        (¬backend.isStuck request thread ∧ backend.succeeds .configureThread ∧
          outcome = (.ok (id, backend.info), storage.setThread id (some thread')))) := by
  obtain ⟨hfails, thread', hstate, hsettings⟩ := backend.settle_spec request hstored
  intro outcome
  refine ⟨thread', hsettings, ?_⟩
  simp only [outcome, configure, runOn_bind]
  generalize (backend.settle request id thread).runOn storage = settled at *
  obtain ⟨result, state⟩ := settled
  obtain rfl : state = _ := hstate
  cases result with
  | error message => exact .inl ⟨hfails.1 ⟨message, rfl⟩, ⟨message, rfl⟩, rfl⟩
  | ok value =>
    have hfree : ¬backend.isStuck request thread := fun hstuck ↦ by
      obtain ⟨message, herror⟩ := hfails.2 hstuck
      cases herror
    cases hconfigure : backend.succeeds .configureThread with
    | true => exact .inr (.inr ⟨hfree, rfl, by simp [hconfigure]⟩)
    | false =>
      refine .inr (.inl ⟨hfree, nofun, ?_⟩)
      cases created <;> simp [runOn_bind, hconfigure, Failed, Storage.setThread]

theorem openThread_keeps_settings (storage : Storage Environment) (reference : String)
    (request : NewThreadRequest Environment) :
    KeepsSettings storage ((backend.openThread (some reference) request).runOn storage) ↔
      backend.OpensUnchanged storage reference request := by
  simp only [openThread, findThread, runOn_bind, runOn_call, OpensUnchanged]
  cases hfind : backend.succeeds .findThread with
  | false => simp [KeepsSettings]
  | true =>
    simp only [if_true, runOn_look, forall_const]
    cases hfound : backend.getThread storage reference with
    | none => simp [KeepsSettings]
    | some found =>
      obtain ⟨id, thread⟩ := found
      have hstored := backend.getThread_stored hfound
      have hkept := settings_setThread hstored
      obtain ⟨thread', hsettings, ⟨hstuck, hfailed, hstate⟩ | ⟨-, hconfigure, hfailed, hstate⟩ |
        ⟨hfree, hconfigure, houtcome⟩⟩ := backend.configure_cases false request hstored
      · simp [KeepsSettings, hfailed, hstate, hkept, hsettings, hstuck]
      · simp [KeepsSettings, hfailed, hstate, hkept, hsettings, hconfigure]
      · simp [KeepsSettings, Failed, houtcome, hfree, hconfigure]

theorem openThread_new_cases (storage : Storage Environment)
    (request : NewThreadRequest Environment) :
    let outcome := (backend.openThread none request).runOn storage
    let stuck := backend.isStuck request (backend.opened request)
    (¬backend.succeeds .newThread ∧ Failed outcome ∧ outcome.2 = storage) ∨
      (backend.succeeds .newThread ∧ stuck ∧ Failed outcome ∧
        outcome.2.threads backend.nextId ≠ none) ∨
      (backend.succeeds .newThread ∧ ¬stuck ∧ ¬backend.succeeds .configureThread ∧ Failed outcome ∧
        outcome.2.threads = update storage.threads backend.nextId none) ∨
      (backend.succeeds .newThread ∧ ¬stuck ∧ backend.succeeds .configureThread ∧
        ∃ after, outcome = (.ok (backend.nextId, backend.info), after) ∧
          after.threads backend.nextId ≠ none) := by
  simp only [openThread, newThread, runOn_bind, runOn_call]
  cases hnew : backend.succeeds .newThread with
  | false => exact .inl ⟨nofun, ⟨_, rfl⟩, rfl⟩
  | true =>
    have hstored : (storage.addThread backend.nextId (backend.opened request)).threads
        backend.nextId = some (backend.opened request) := by
      simp [Storage.addThread, Storage.setThread]
    obtain ⟨thread', -, ⟨hstuck, hfailed, hstate⟩ | ⟨hfree, hconfigure, hfailed, hstate⟩ |
      ⟨hfree, hconfigure, houtcome⟩⟩ := backend.configure_cases true request hstored
    · exact .inr (.inl ⟨rfl, hstuck, hfailed, by
        simp only [runOn_update, if_true, runOn_pure, hstate]; simp [Storage.setThread]⟩)
    · exact .inr (.inr (.inl ⟨rfl, hfree, hconfigure, hfailed, by
        simp only [runOn_update, if_true, runOn_pure, hstate]
        simp [Storage.setThread, Storage.addThread]⟩))
    · exact .inr (.inr (.inr ⟨rfl, hfree, hconfigure, _, houtcome, by simp [Storage.setThread]⟩))

theorem openThread_leaves_nothing (hnew : storage.threads backend.nextId = none)
    (request : NewThreadRequest Environment) :
    LeavesNoThread storage ((backend.openThread none request).runOn storage) ↔
      backend.OpensSettled request := by
  rcases backend.openThread_new_cases storage request with ⟨hok, hfailed, hstate⟩ |
    ⟨hok, hstuck, hfailed, hleft⟩ | ⟨hok, hfree, -, hfailed, hstate⟩ |
    ⟨hok, hfree, -, after, houtcome, -⟩
  · simp [LeavesNoThread, hstate, OpensSettled, hok]
  · exact iff_of_false (fun hleaves ↦ hleaves hfailed _ hleft hnew)
      (by simp [OpensSettled, hok, hstuck])
  · exact iff_of_true (fun _ id hid ↦ ne_none_of_update_none (hstate ▸ hid))
      (by simp [OpensSettled, hfree])
  · exact iff_of_true (by simp [LeavesNoThread, Failed, houtcome]) (by simp [OpensSettled, hfree])

theorem createThread_leaves_nothing (hnew : storage.threads backend.nextId = none)
    (body : CreateThreadBody Environment) :
    LeavesNoThread storage ((backend.createThread body).runOn storage) ↔
      backend.CreatesSettled body := by
  have hharness := backend.runOn_checkHarness body.harness storage
  simp only [createThread, CreatesSettled]
  cases hsupported : body.isSupported with
  | false => simp [runOn_bind, LeavesNoThread]
  | true =>
    cases hconfig : backend.succeeds .getAgentConfig with
    | false => simp [runOn_bind, LeavesNoThread, hconfig]
    | true =>
      cases hserves : backend.serves body.harness with
      | false =>
        obtain ⟨message, hrun⟩ := by simpa only [hserves] using hharness
        simp [runOn_bind, LeavesNoThread, hconfig, hrun]
      | true =>
        have hrun : (backend.checkHarness body.harness).runOn storage = (.ok (), storage) := by
          simpa only [hserves, if_true] using hharness
        have hcases := backend.openThread_new_cases storage body.request
        simp only [runOn_bind, runOn_call, Bool.not_true, Bool.false_eq_true, if_false, if_true,
          hconfig, hrun, forall_const]
        generalize (backend.openThread none body.request).runOn storage = outcome at *
        obtain ⟨result, state⟩ := outcome
        rcases hcases with ⟨hok, ⟨_, rfl⟩, rfl⟩ | ⟨hok, hstuck, ⟨_, rfl⟩, hleft⟩ |
          ⟨hok, hfree, hconfigure, ⟨_, rfl⟩, hstate⟩ |
          ⟨hok, hfree, hconfigure, after, houtcome, hleft⟩
        · simp [LeavesNoThread, hok]
        · exact iff_of_false (fun hleaves ↦ hleaves ⟨_, rfl⟩ _ hleft hnew) (by simp [hok, hstuck])
        · exact iff_of_true (fun _ id hid ↦ ne_none_of_update_none (hstate ▸ hid))
            (by simp [hfree, hconfigure])
        · cases houtcome
          have hremains : ∀ message,
              ¬LeavesNoThread storage ((.error message, state) : Except String ℕ × _) :=
            fun message hleaves ↦ hleaves ⟨message, rfl⟩ _ hleft hnew
          cases hmodel : body.model <;> cases hpreviews : backend.succeeds .registerPreviews <;>
            cases hadd : backend.succeeds .addEvents <;>
            simp [-bind_pure_comp, finishThread, runOn_bind, hremains, hok, hfree, hconfigure,
              hpreviews, hadd] <;>
            simp [LeavesNoThread, Failed]

/-- `create_agent` leaves no agent.  A new thread stays behind exactly when a call between
`new_thread` and its configuration fails, or one after that; a thread that was there is changed
exactly when a call fails behind one that has changed it. -/
theorem failed_creation_leaves_nothing (hnew : storage.threads backend.nextId = none)
    (definition : AgentDefinition) (slug reference : String)
    (request : NewThreadRequest Environment) (body : CreateThreadBody Environment) :
    LeavesNoAgent storage ((backend.createAgent definition slug).runOn storage) ∧
      (LeavesNoThread storage ((backend.openThread none request).runOn storage) ↔
        backend.OpensSettled request) ∧
      (LeavesNoThread storage ((backend.createThread body).runOn storage) ↔
        backend.CreatesSettled body) ∧
      (KeepsSettings storage ((backend.openThread (some reference) request).runOn storage) ↔
        backend.OpensUnchanged storage reference request) :=
  ⟨backend.createAgent_leaves_nothing storage definition slug,
    backend.openThread_leaves_nothing hnew request, backend.createThread_leaves_nothing hnew body,
    backend.openThread_keeps_settings storage reference request⟩

end Backend

/-- No event can be added. -/
def withoutEvents : Backend String where
  succeeds call := !call matches .addEvents
  message _ := "unavailable"
  nextId := 1
  opened request := ⟨"support", request.environment, request.vaults, none⟩
  parseId _ := none
  harness := "basic"
  isBasic := true
  info := ⟨none, none⟩

def withModel : CreateThreadBody String :=
  ⟨none, [], none, none, none, none, some "small", none, none, .owner, none⟩

def emptyStorage : Storage String := ⟨fun _ ↦ none, fun _ ↦ none, []⟩

theorem failed_creation_leaves_nothing_withModel : LeavesNoThread emptyStorage
        ((withoutEvents.createThread withModel).runOn emptyStorage) ↔
      withoutEvents.CreatesSettled withModel :=
  (withoutEvents.failed_creation_leaves_nothing rfl ⟨"", ""⟩ "" "" withModel.request
    withModel).2.2.1

/-- The thread is there without the model asked for. -/
theorem failed_creation_leaves_thread :
    ¬∀ (backend : Backend String) (storage : Storage String) (body : CreateThreadBody String),
      storage.threads backend.nextId = none →
        LeavesNoThread storage ((backend.createThread body).runOn storage) := by
  intro hall
  have hsettled := (withoutEvents.createThread_leaves_nothing rfl withModel).1
    (hall withoutEvents emptyStorage withModel rfl)
  exact absurd ((hsettled rfl rfl rfl rfl).2 rfl).2 (by decide)

end Exo.ManagedAgents
