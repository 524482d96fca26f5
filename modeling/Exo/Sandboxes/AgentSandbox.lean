import Exo.Library.System
import Exo.Sandboxes.Requests

/-!
# The sandbox of an agent

The first call for an agent's sandbox finds no record, creates a sandbox under a new name and writes
the record afterwards; later calls find the record and ask for the sandbox by its name.  The read,
the creation and the write are separate steps of each call, without a lock, and the last record
that was written decides.

Two first calls can both find no record, and a crash or a failed write leaves a sandbox without one.
In the runs in which neither happens all calls give one sandbox.
-/

namespace Exo.Sandboxes

open Library List

/-! ## Records -/

structure ConversationSandboxSpec where
  provider : SandboxProvider
  image : String
  defaultWorkdir : String
  fileSystemMounts : List FileSystemMount
  durableFileSystems : List DurableFileSystem
  tcpPorts : List ℕ
  resources : Option SandboxResourceShape
  enableNetworking : Bool
  idleSeconds : ℕ
  deriving DecidableEq

/-- `AgentConfig::sandbox` -/
structure AgentSandboxConfig where
  image : Option String
  provider : SandboxProvider
  mounts : List FileSystemMount
  enableNetworking : Bool
  deriving DecidableEq

structure AgentSandboxRecord where
  sandboxName : String
  provider : SandboxProvider
  image : String
  defaultWorkdir : String
  fileSystemMounts : List FileSystemMount
  durableFileSystems : List DurableFileSystem
  enableNetworking : Bool
  idleSeconds : ℕ
  deriving DecidableEq

def normalizeMounts (mounts : List FileSystemMount) : List FileSystemMount :=
  mounts.map fun mount ↦ { mount with isInternal := some (mount.isInternal.getD false) }

def defaultDockerImage : String := "docker.io/library/ubuntu:24.04"

def agentSandboxSpec (config : AgentSandboxConfig) : ConversationSandboxSpec where
  provider := config.provider
  image := config.image.getD defaultDockerImage
  defaultWorkdir := (config.mounts.head?.map (·.mountPath)).getD "/"
  fileSystemMounts := normalizeMounts config.mounts
  durableFileSystems := []
  tcpPorts := []
  resources := none
  enableNetworking := config.enableNetworking
  idleSeconds := 300

def AgentSandboxRecord.spec (record : AgentSandboxRecord) : ConversationSandboxSpec where
  provider := record.provider
  image := record.image
  defaultWorkdir := record.defaultWorkdir
  fileSystemMounts := record.fileSystemMounts
  durableFileSystems := record.durableFileSystems
  tcpPorts := []
  resources := none
  enableNetworking := record.enableNetworking
  idleSeconds := record.idleSeconds

section
variable (sandboxName : String) (spec : ConversationSandboxSpec)

/-- `AgentSandboxRecord::new` -/
def AgentSandboxRecord.ofSpec : AgentSandboxRecord where
  sandboxName := sandboxName
  provider := spec.provider
  image := spec.image
  defaultWorkdir := spec.defaultWorkdir
  fileSystemMounts := spec.fileSystemMounts
  durableFileSystems := spec.durableFileSystems
  enableNetworking := spec.enableNetworking
  idleSeconds := spec.idleSeconds

/-- `new_agent_sandbox_name` -/
def newAgentSandboxName (uuid : ℕ) : String := "agent-sandbox-" ++ Policy.idText uuid

/-- The request of `attach_agent_sandbox`. -/
def attachRequest : CreateSandboxRequest where
  name := some sandboxName
  provider := spec.provider
  image := spec.image
  resources := none
  defaultWorkdir := some spec.defaultWorkdir
  fileSystemMounts := some spec.fileSystemMounts
  durableFileSystems := some spec.durableFileSystems
  policy := none
  enableNetworking := some spec.enableNetworking
  idleSeconds := some spec.idleSeconds
  tcpPorts := []

end

/-! ## Calls -/

/-- Where a call of `ensure_agent_sandbox` is. -/
inductive Phase where
  | loading (config : AgentSandboxConfig)
  /-- It found a record. -/
  | attaching (record : AgentSandboxRecord)
  /-- It found none, and drew a name. -/
  | creating (sandboxName : String) (spec : ConversationSandboxSpec)
  /-- The sandbox is created, and its record is not written. -/
  | storing (record : AgentSandboxRecord) (id : SandboxId)
  | returned (id : SandboxId)
  | failed (message : String)
  | crashed
  deriving DecidableEq

structure Call where
  principal : Option String
  phase : Phase

/-- An agent: the versions of its record, its stored sandboxes, the uuids drawn and the calls. -/
structure AgentState where
  records : List AgentSandboxRecord
  sandboxes : List StoredSandbox
  drawn : List ℕ
  calls : List Call

/-- Whether a call is one that found no record. -/
def Phase.firstUse : Phase → Bool
  | creating _ _ | storing _ _ => true
  | loading _ | attaching _ | returned _ | failed _ | crashed => false

def Phase.isStoring : Phase → Bool
  | storing _ _ => true
  | loading _ | attaching _ | creating _ _ | returned _ | failed _ | crashed => false

def Phase.afterCrash : Phase → Phase
  | returned id => returned id
  | failed message => failed message
  | loading _ | attaching _ | creating _ _ | storing _ _ | crashed => crashed

inductive Label where
  | call (config : AgentSandboxConfig) (principal : Option String)
  /-- `load_agent_sandbox_record`; the uuid is for a name. -/
  | load (index uuid : ℕ)
  /-- `create_sandbox`; the uuid is for a new sandbox. -/
  | create (index : ℕ) (settings : Settings) (backend : Except String Unit) (uuid : ℕ)
  /-- `store_agent_sandbox_record`, which may fail. -/
  | store (index : ℕ) (written : Except String Unit)
  /-- The process crashes. -/
  | crash

namespace AgentState

variable (state : AgentState)

def move (index : ℕ) (phase : Phase) : AgentState :=
  { state with calls := state.calls.modify index fun call ↦ { call with phase } }

/-- The ids that calls returned. -/
def returned : List SandboxId :=
  state.calls.filterMap fun call ↦
    match call.phase with
    | .returned id => some id
    | _ => none

/-- One step, if it can be taken. -/
def step : Label → Option AgentState
  | .call config principal =>
    some { state with calls := state.calls ++ [⟨principal, .loading config⟩] }
  | .load index uuid =>
    match state.calls[index]? with
    | some ⟨_, .loading config⟩ =>
      if uuid ∉ state.drawn then
        match state.records.getLast? with
        | some record => some (state.move index (.attaching record))
        | none =>
          some ({ state with drawn := uuid :: state.drawn }.move index
            (.creating (newAgentSandboxName uuid) (agentSandboxSpec config)))
      else none
    | _ => none
  | .create index settings backend uuid =>
    match state.calls[index]? with
    | some ⟨principal, .attaching record⟩ =>
      if uuid ∉ state.drawn then
        match createSandbox state.sandboxes settings backend principal
            (attachRequest record.sandboxName record.spec) uuid with
        | .ok (id, sandboxes) =>
          some ({ state with sandboxes, drawn := uuid :: state.drawn }.move index (.returned id))
        | .error message => some (state.move index (.failed message))
      else none
    | some ⟨principal, .creating sandboxName spec⟩ =>
      if uuid ∉ state.drawn then
        match createSandbox state.sandboxes settings backend principal
            (attachRequest sandboxName spec) uuid with
        | .ok (id, sandboxes) =>
          some ({ state with sandboxes, drawn := uuid :: state.drawn }.move index
            (.storing (.ofSpec sandboxName spec) id))
        | .error message => some (state.move index (.failed message))
      else none
    | _ => none
  | .store index written =>
    match state.calls[index]? with
    | some ⟨_, .storing record id⟩ =>
      match written with
      | .ok () =>
        some ({ state with records := state.records ++ [record] }.move index (.returned id))
      | .error message => some (state.move index (.failed message))
    | _ => none
  | .crash =>
    some { state with
      calls := state.calls.map fun call ↦ { call with phase := call.phase.afterCrash } }

end AgentState

/-- Any calls for the sandbox of one agent. -/
def agentSandboxes : System AgentState Label where
  enabled state label := (state.step label).isSome
  next state label := (state.step label).getD state

instance (state : AgentState) (label : Label) : Decidable (agentSandboxes.enabled state label) :=
  inferInstanceAs (Decidable ((state.step label).isSome = true))

/-- An agent whose sandbox was not used yet. -/
def AgentState.unused : AgentState := ⟨[], [], [], []⟩

/-- No first use begins while another one is on its way, a first use is not interrupted before its
record is written, and no call is kept from a sandbox that another principal created. -/
def UndisturbedFirstUse (state : AgentState) : Label → Prop
  | .load _ _ => state.records = [] → ∀ call ∈ state.calls, call.phase.firstUse = false
  | .create index _ _ _ => ∀ call ∈ state.calls[index]?, call.principal = none ∨
      ∀ sandbox ∈ state.sandboxes, sandbox.principal = call.principal
  | .store _ written => written = .ok ()
  | .crash => ∀ call ∈ state.calls, call.phase.isStoring = false
  | .call _ _ => True

instance (state : AgentState) : (label : Label) → Decidable (UndisturbedFirstUse state label)
  | .load _ _ => inferInstanceAs (Decidable (_ → _))
  | .create index _ _ _ => inferInstanceAs (Decidable (∀ call ∈ state.calls[index]?,
      call.principal = none ∨ ∀ sandbox ∈ state.sandboxes, sandbox.principal = call.principal))
  | .store _ (.ok ()) => isTrue rfl
  | .store _ (.error _) => isFalse nofun
  | .crash => inferInstanceAs (Decidable (∀ call ∈ state.calls, call.phase.isStoring = false))
  | .call _ _ => isTrue trivial

/-- All calls that returned gave one sandbox, and every sandbox is named by a record or is being
recorded. -/
structure AgentState.OneSandbox (state : AgentState) : Prop where
  same : ∀ id ∈ state.returned, ∀ other ∈ state.returned, id = other
  recorded : ∀ sandbox ∈ state.sandboxes,
    (∃ record ∈ state.records, sandbox.name = some record.sandboxName) ∨
    ∃ call ∈ state.calls, ∃ record, call.phase = .storing record sandbox.id ∧
      sandbox.name = some record.sandboxName

/-! ## What a step does -/

/-- A step with what it found. -/
inductive Steps (state : AgentState) : Label → AgentState → Prop where
  | call {config : AgentSandboxConfig} {principal : Option String} :
    Steps state (.call config principal)
      { state with calls := state.calls ++ [⟨principal, .loading config⟩] }
  | found {index uuid : ℕ} {principal : Option String} {config : AgentSandboxConfig}
      {record : AgentSandboxRecord}
      (hcall : state.calls[index]? = some ⟨principal, .loading config⟩)
      (hrecord : state.records.getLast? = some record) :
    Steps state (.load index uuid) (state.move index (.attaching record))
  | first {index uuid : ℕ} {principal : Option String} {config : AgentSandboxConfig}
      (hcall : state.calls[index]? = some ⟨principal, .loading config⟩)
      (hrecords : state.records = []) :
    Steps state (.load index uuid) ({ state with drawn := uuid :: state.drawn }.move index
        (.creating (newAgentSandboxName uuid) (agentSandboxSpec config)))
  | attached {index uuid : ℕ} {settings : Settings} {backend : Except String Unit}
      {principal : Option String} {record : AgentSandboxRecord} {id : SandboxId}
      {sandboxes : List StoredSandbox}
      (hcall : state.calls[index]? = some ⟨principal, .attaching record⟩)
      (hcreate : createSandbox state.sandboxes settings backend principal
        (attachRequest record.sandboxName record.spec) uuid = .ok (id, sandboxes)) :
    Steps state (.create index settings backend uuid)
      ({ state with sandboxes, drawn := uuid :: state.drawn }.move index (.returned id))
  | created {index uuid : ℕ} {settings : Settings} {backend : Except String Unit}
      {principal : Option String} {sandboxName : String} {spec : ConversationSandboxSpec}
      {id : SandboxId} {sandboxes : List StoredSandbox}
      (hcall : state.calls[index]? = some ⟨principal, .creating sandboxName spec⟩)
      (hcreate : createSandbox state.sandboxes settings backend principal
        (attachRequest sandboxName spec) uuid = .ok (id, sandboxes)) :
    Steps state (.create index settings backend uuid)
      ({ state with sandboxes, drawn := uuid :: state.drawn }.move index
        (.storing (.ofSpec sandboxName spec) id))
  | notAttached {index uuid : ℕ} {settings : Settings} {backend : Except String Unit}
      {principal : Option String} {record : AgentSandboxRecord} {message : String}
      (hcall : state.calls[index]? = some ⟨principal, .attaching record⟩) :
    Steps state (.create index settings backend uuid) (state.move index (.failed message))
  | notCreated {index uuid : ℕ} {settings : Settings} {backend : Except String Unit}
      {principal : Option String} {sandboxName : String} {spec : ConversationSandboxSpec}
      {message : String}
      (hcall : state.calls[index]? = some ⟨principal, .creating sandboxName spec⟩) :
    Steps state (.create index settings backend uuid) (state.move index (.failed message))
  | stored {index : ℕ} {principal : Option String} {record : AgentSandboxRecord} {id : SandboxId}
      (hcall : state.calls[index]? = some ⟨principal, .storing record id⟩) :
    Steps state (.store index (.ok ()))
      ({ state with records := state.records ++ [record] }.move index (.returned id))
  | notStored {index : ℕ} {principal : Option String} {record : AgentSandboxRecord}
      {id : SandboxId} {message : String}
      (hcall : state.calls[index]? = some ⟨principal, .storing record id⟩) :
    Steps state (.store index (.error message)) (state.move index (.failed message))
  | crash :
    Steps state .crash { state with
      calls := state.calls.map fun call ↦ { call with phase := call.phase.afterCrash } }

section Runs
variable {state state' : AgentState} {label : Label}

theorem steps_of_step (hstep : state.step label = some state') : Steps state label state' := by
  revert hstep
  fun_cases AgentState.step state label <;> intro hstep <;> cases hstep
  · exact .call
  · exact .found ‹_› ‹_›
  · exact .first ‹_› (getLast?_eq_none_iff.1 ‹_›)
  · exact .attached ‹_› ‹_›
  · exact .notAttached ‹_›
  · exact .created ‹_› ‹_›
  · exact .notCreated ‹_›
  · exact .stored ‹_›
  · exact .notStored ‹_›
  · exact .crash

theorem steps_of_enabled (henabled : agentSandboxes.enabled state label) :
    Steps state label (agentSandboxes.next state label) :=
  steps_of_step (Option.getD_of_ne_none (Option.isSome_iff_ne_none.1 henabled) _).symm

variable {index : ℕ} {principal : Option String} {old phase : Phase}

theorem getElem?_move (hcall : state.calls[index]? = some ⟨principal, old⟩) (other : ℕ) :
    (state.move index phase).calls[other]? =
      if other = index then some ⟨principal, phase⟩ else state.calls[other]? := by
  simp only [AgentState.move, getElem?_modify]
  by_cases hother : index = other
  · subst hother
    simp [hcall]
  · simp [hother, Ne.symm hother]

/-! ## The stages of an agent -/

/-- A phase in which a call knows of no sandbox. -/
def Phase.Idle : Phase → Prop
  | loading _ | failed _ | crashed => True
  | attaching _ | creating _ _ | storing _ _ | returned _ => False

/-- How far the first use of an agent's sandbox got. -/
inductive Stage where
  | unused
  | creating (index : ℕ)
  | storing (index : ℕ) (record : AgentSandboxRecord) (sandbox : StoredSandbox)
  | shared (record : AgentSandboxRecord) (sandbox : StoredSandbox)

namespace Stage

def records : Stage → List AgentSandboxRecord
  | unused | creating _ | storing _ _ _ => []
  | shared record _ => [record]

def sandboxes : Stage → List StoredSandbox
  | unused | creating _ => []
  | storing _ _ sandbox | shared _ sandbox => [sandbox]

/-- The sandbox of the stage runs under the name in its record. -/
def Named : Stage → Prop
  | unused | creating _ => True
  | storing _ record sandbox | shared record sandbox =>
    sandbox.name = some record.sandboxName ∧ sandbox.running = true

/-- The phases that the stage allows to the call at an index. -/
def Permits : Stage → ℕ → Phase → Prop
  | unused, _, phase => phase.Idle
  | creating index, other, phase =>
    if other = index then ∃ sandboxName spec, phase = .creating sandboxName spec else phase.Idle
  | storing index record sandbox, other, phase =>
    if other = index then phase = .storing record sandbox.id else phase.Idle
  | shared record sandbox, _, phase =>
    phase.Idle ∨ phase = .attaching record ∨ phase = .returned sandbox.id

/-- The call that is on its way to the record is there. -/
def Present (calls : List Call) : Stage → Prop
  | unused | shared _ _ => True
  | creating index | storing index _ _ => index < calls.length

end Stage

/-- The state is in a stage. -/
structure AgentState.At (state : AgentState) (stage : Stage) : Prop where
  records : state.records = stage.records
  sandboxes : state.sandboxes = stage.sandboxes
  named : stage.Named
  calls : ∀ index call, state.calls[index]? = some call → stage.Permits index call.phase
  present : stage.Present state.calls

variable {stage : Stage}

theorem Stage.Present.mono {calls calls' : List Call} (hpresent : stage.Present calls)
    (hlength : calls.length ≤ calls'.length) : stage.Present calls' := by
  cases stage with
  | unused | shared _ _ => trivial
  | creating index | storing index _ _ => exact lt_of_lt_of_le hpresent hlength

/-- A call that gets to a phase which the new stage allows brings the state to that stage. -/
theorem AgentState.At.move {stage' : Stage} (hat : state.At stage)
    (hcall : state.calls[index]? = some ⟨principal, old⟩)
    (hcalls : state'.calls = (state.move index phase).calls)
    (hrecords : state'.records = stage'.records) (hsandboxes : state'.sandboxes = stage'.sandboxes)
    (hnamed : stage'.Named) (hphase : stage'.Permits index phase)
    (hothers : ∀ other phase, other ≠ index → stage.Permits other phase →
      stage'.Permits other phase) (hpresent : stage'.Present state.calls) : state'.At stage' where
  records := hrecords
  sandboxes := hsandboxes
  named := hnamed
  calls other call hother := by
    rw [hcalls, getElem?_move hcall] at hother
    split_ifs at hother with heq
    · cases hother
      exact heq ▸ hphase
    · exact hothers other call.phase heq (hat.calls other call hother)
  present := by
    apply hpresent.mono
    rw [hcalls, AgentState.move, length_modify]

/-- A call that fails, or gets to another phase that the stage allows, leaves the stage. -/
theorem AgentState.At.stay (hat : state.At stage)
    (hcall : state.calls[index]? = some ⟨principal, old⟩) (hphase : stage.Permits index phase) :
    (state.move index phase).At stage :=
  hat.move hcall rfl hat.records hat.sandboxes hat.named hphase (fun _ _ _ ↦ id) hat.present

/-- A call that knows of a sandbox tells the stage. -/
theorem Stage.permits_cases (hpermits : stage.Permits index phase) : phase.Idle ∨
    (stage = .creating index ∧ ∃ sandboxName spec, phase = .creating sandboxName spec) ∨
    (∃ record sandbox, stage = .storing index record sandbox ∧
      phase = .storing record sandbox.id) ∨
    ∃ record sandbox, stage = .shared record sandbox ∧
      (phase = .attaching record ∨ phase = .returned sandbox.id) := by
  cases stage with
  | unused => exact .inl hpermits
  | creating first =>
    simp only [Stage.Permits] at hpermits
    split_ifs at hpermits with heq
    · exact .inr (.inl ⟨by rw [heq], hpermits⟩)
    · exact .inl hpermits
  | storing first record sandbox =>
    simp only [Stage.Permits] at hpermits
    split_ifs at hpermits with heq
    · exact .inr (.inr (.inl ⟨record, sandbox, by rw [heq], hpermits⟩))
    · exact .inl hpermits
  | shared record sandbox =>
    obtain hidle | hphase := hpermits
    · exact .inl hidle
    · exact .inr (.inr (.inr ⟨record, sandbox, rfl, hphase⟩))

section Calls
variable {stage : Stage} {index : ℕ} {principal : Option String}

theorem AgentState.At.shared_of_attaching {record : AgentSandboxRecord} (hat : state.At stage)
    (hcall : state.calls[index]? = some ⟨principal, .attaching record⟩) :
    ∃ sandbox, stage = .shared record sandbox := by
  obtain hidle | ⟨_, _, _, hphase⟩ | ⟨_, _, _, hphase⟩ | ⟨written, sandbox, hstage, hphase⟩ :=
    Stage.permits_cases (hat.calls index _ hcall)
  · exact hidle.elim
  · cases hphase
  · cases hphase
  · obtain hphase | hphase := hphase <;> cases hphase
    exact ⟨sandbox, hstage⟩

theorem AgentState.At.creating_of_call {sandboxName : String} {spec : ConversationSandboxSpec}
    (hat : state.At stage)
    (hcall : state.calls[index]? = some ⟨principal, .creating sandboxName spec⟩) :
    stage = .creating index := by
  obtain hidle | ⟨hstage, _⟩ | ⟨_, _, _, hphase⟩ | ⟨_, _, _, hphase⟩ :=
    Stage.permits_cases (hat.calls index _ hcall)
  · exact hidle.elim
  · exact hstage
  · cases hphase
  · obtain hphase | hphase := hphase <;> cases hphase

theorem AgentState.At.storing_of_call {record : AgentSandboxRecord} {id : SandboxId}
    (hat : state.At stage)
    (hcall : state.calls[index]? = some ⟨principal, .storing record id⟩) :
    ∃ sandbox, stage = .storing index record sandbox ∧ sandbox.id = id := by
  obtain hidle | ⟨_, _, _, hphase⟩ | ⟨written, sandbox, hstage, hphase⟩ | ⟨_, _, _, hphase⟩ :=
    Stage.permits_cases (hat.calls index _ hcall)
  · exact hidle.elim
  · cases hphase
  · cases hphase
    exact ⟨sandbox, hstage, rfl⟩
  · obtain hphase | hphase := hphase <;> cases hphase

end Calls

/-- A call whose first use failed leaves the agent's sandbox unused. -/
theorem AgentState.At.unused_of_creating (hat : state.At (.creating index))
    (hcall : state.calls[index]? = some ⟨principal, old⟩) (hphase : phase.Idle) :
    (state.move index phase).At .unused := by
  have hrecords : state.records = Stage.unused.records := hat.records
  have hsandboxes : state.sandboxes = Stage.unused.sandboxes := hat.sandboxes
  apply hat.move hcall rfl hrecords hsandboxes trivial hphase _ trivial
  intro other phase hother hpermits
  simpa [Stage.Permits, hother] using hpermits

theorem AgentState.At.exists_storing {record : AgentSandboxRecord} {sandbox : StoredSandbox}
    (hat : state.At (.storing index record sandbox)) :
    ∃ call ∈ state.calls, call.phase = .storing record sandbox.id := by
  obtain ⟨call, hcall⟩ : ∃ call, state.calls[index]? = some call :=
    ⟨_, getElem?_eq_getElem hat.present⟩
  refine ⟨call, mem_of_getElem? hcall, ?_⟩
  simpa [Stage.Permits] using hat.calls index call hcall

/-- A first use on its way is among the calls. -/
theorem AgentState.At.exists_firstUse (hat : state.At stage) (hstage : stage ≠ .unused)
    (hrecords : stage.records = []) : ∃ call ∈ state.calls, call.phase.firstUse = true := by
  cases stage with
  | unused => exact absurd rfl hstage
  | creating index =>
    obtain ⟨call, hcall⟩ : ∃ call, state.calls[index]? = some call :=
      ⟨_, getElem?_eq_getElem hat.present⟩
    obtain ⟨sandboxName, spec, hphase⟩ : ∃ sandboxName spec,
        call.phase = .creating sandboxName spec := by
      simpa [Stage.Permits] using hat.calls index call hcall
    exact ⟨call, mem_of_getElem? hcall, by rw [hphase]; rfl⟩
  | storing index record sandbox =>
    obtain ⟨call, hcall, hphase⟩ := hat.exists_storing
    exact ⟨call, hcall, by rw [hphase]; rfl⟩
  | shared record sandbox => cases hrecords

theorem AgentState.At.begin (hat : state.At stage) (config : AgentSandboxConfig)
    (principal : Option String) :
    ({ state with calls := state.calls ++ [⟨principal, .loading config⟩] } : AgentState).At
      stage where
  records := hat.records
  sandboxes := hat.sandboxes
  named := hat.named
  calls index call hcall := by
    rw [getElem?_append] at hcall
    split_ifs at hcall with hlt
    · exact hat.calls index call hcall
    · have hphase : call.phase = .loading config := by
        rw [getElem?_singleton] at hcall
        split_ifs at hcall
        cases hcall
        rfl
      have hpresent := hat.present
      rw [hphase]
      cases stage with
      | unused => trivial
      | creating first | storing first _ _ =>
        have hne : index ≠ first := fun heq ↦ hlt (heq ▸ hpresent)
        simp only [Stage.Permits, if_neg hne]
        trivial
      | shared record sandbox => exact .inl trivial
  present := hat.present.mono (by simp)

theorem Phase.Idle.afterCrash (hidle : phase.Idle) : phase.afterCrash.Idle := by
  cases phase <;> trivial

/-- A crash that does not interrupt the writing of the record leaves no call on its way. -/
theorem AgentState.At.crash (hat : state.At stage)
    (hcondition : ∀ call ∈ state.calls, call.phase.isStoring = false) :
    ∃ stage', ({ state with
      calls := state.calls.map fun call ↦ { call with phase := call.phase.afterCrash } } :
        AgentState).At stage' := by
  have hmapped {index : ℕ} {call : Call} (hcall : (state.calls.map fun call ↦
      { call with phase := call.phase.afterCrash })[index]? = some call) :
      ∃ before, stage.Permits index before ∧ call.phase = before.afterCrash := by
    rw [getElem?_map, Option.map_eq_some_iff] at hcall
    obtain ⟨before, hbefore, rfl⟩ := hcall
    exact ⟨before.phase, hat.calls index before hbefore, rfl⟩
  cases stage with
  | unused =>
    refine ⟨.unused, hat.records, hat.sandboxes, trivial, ?_, trivial⟩
    intro index call hcall
    obtain ⟨before, hbefore, hphase⟩ := hmapped hcall
    exact hphase ▸ Phase.Idle.afterCrash hbefore
  | creating first =>
    refine ⟨.unused, hat.records, hat.sandboxes, trivial, ?_, trivial⟩
    intro index call hcall
    obtain ⟨before, hbefore, hphase⟩ := hmapped hcall
    rw [hphase]
    simp only [Stage.Permits] at hbefore
    split_ifs at hbefore
    · obtain ⟨_, _, rfl⟩ := hbefore
      trivial
    · exact Phase.Idle.afterCrash hbefore
  | storing first record sandbox =>
    obtain ⟨call, hcall, hphase⟩ := hat.exists_storing
    have hstoring := hcondition call hcall
    rw [hphase] at hstoring
    cases hstoring
  | shared record sandbox =>
    refine ⟨.shared record sandbox, hat.records, hat.sandboxes, hat.named, ?_, trivial⟩
    intro index call hcall
    obtain ⟨before, hidle | rfl | rfl, hphase⟩ := hmapped hcall
    · exact hphase ▸ .inl (Phase.Idle.afterCrash hidle)
    · exact hphase ▸ .inl trivial
    · exact hphase ▸ .inr (.inr rfl)

theorem AgentState.At.steps (hat : state.At stage) (hstep : Steps state label state')
    (hcondition : UndisturbedFirstUse state label) : ∃ stage', state'.At stage' := by
  cases hstep with
  | call => exact ⟨stage, hat.begin _ _⟩
  | found hcall hrecord =>
    refine ⟨stage, hat.stay hcall ?_⟩
    cases stage with
    | unused | creating _ | storing _ _ _ => simp [hat.records, Stage.records] at hrecord
    | shared written sandbox =>
      rw [hat.records, Stage.records, List.getLast?_singleton] at hrecord
      cases hrecord
      exact .inr (.inl rfl)
  | @first index uuid principal config hcall hrecords =>
    obtain rfl : stage = .unused := by
      by_contra hstage
      obtain ⟨call, hmem, hfirst⟩ := hat.exists_firstUse hstage (hat.records ▸ hrecords)
      rw [hcondition hrecords call hmem] at hfirst
      cases hfirst
    refine ⟨.creating index, hat.move hcall rfl hrecords hat.sandboxes trivial ?_ ?_
      (List.getElem?_eq_some_iff.1 hcall).1⟩
    · simp [Stage.Permits]
    · intro other phase hother hidle
      simpa [Stage.Permits, hother] using hidle
  | @attached index uuid settings backend principal record id sandboxes hcall hcreate =>
    obtain ⟨sandbox, rfl⟩ := hat.shared_of_attaching hcall
    have hprincipal : principal = none ∨ sandbox.principal = principal := by
      obtain hnone | hsame := hcondition _ hcall
      · exact .inl hnone
      · exact .inr (hsame sandbox (by simp [hat.sandboxes, Stage.sandboxes]))
    rw [hat.sandboxes] at hcreate
    obtain ⟨rfl, rfl⟩ := createSandbox_singleton rfl hat.named.1 hat.named.2 hprincipal hcreate
    exact ⟨_, hat.move hcall rfl hat.records rfl hat.named (.inr (.inr rfl))
      (fun _ _ _ ↦ id) trivial⟩
  | @created index uuid settings backend principal sandboxName spec id sandboxes hcall hcreate =>
    obtain rfl := hat.creating_of_call hcall
    rw [hat.sandboxes] at hcreate
    obtain ⟨sandbox, rfl, rfl, hname, hrunning⟩ := createSandbox_nil hcreate
    refine ⟨.storing index (.ofSpec sandboxName spec) sandbox, hat.move hcall rfl hat.records rfl
      ⟨hname, hrunning⟩ ?_ ?_ hat.present⟩
    · simp [Stage.Permits]
    · intro other phase hother hpermits
      simpa [Stage.Permits, hother] using hpermits
  | notAttached hcall =>
    obtain ⟨sandbox, rfl⟩ := hat.shared_of_attaching hcall
    exact ⟨_, hat.stay hcall (.inl trivial)⟩
  | notCreated hcall =>
    obtain rfl := hat.creating_of_call hcall
    exact ⟨.unused, hat.unused_of_creating hcall trivial⟩
  | @stored index principal record id hcall =>
    obtain ⟨sandbox, rfl, rfl⟩ := hat.storing_of_call hcall
    refine ⟨.shared record sandbox, hat.move hcall rfl ?_ hat.sandboxes hat.named
      (.inr (.inr rfl)) ?_ trivial⟩
    · show state.records ++ [record] = [record]
      rw [hat.records, Stage.records, List.nil_append]
    · intro other phase hother hpermits
      exact .inl (by simpa [Stage.Permits, hother] using hpermits)
  | notStored hcall => cases hcondition
  | crash => exact hat.crash hcondition

/-- In every stage there is one sandbox at most, and it is recorded or about to be. -/
theorem AgentState.At.oneSandbox (hat : state.At stage) : state.OneSandbox where
  same id hid other hother := by
    have hshared (id : SandboxId) (hid : id ∈ state.returned) :
        ∃ record sandbox, stage = .shared record sandbox ∧ id = sandbox.id := by
      obtain ⟨call, hcall, hreturned⟩ := mem_filterMap.1 hid
      obtain ⟨index, hindex⟩ := getElem?_of_mem hcall
      have hphase : call.phase = .returned id := by
        split at hreturned <;> cases hreturned
        assumption
      have hpermits := hat.calls index call hindex
      rw [hphase] at hpermits
      obtain hidle | ⟨_, _, _, hother⟩ | ⟨_, _, _, hother⟩ | ⟨record, sandbox, hstage, hother⟩ :=
        Stage.permits_cases hpermits
      · exact hidle.elim
      · cases hother
      · cases hother
      · obtain hother | hother := hother <;> cases hother
        exact ⟨record, sandbox, hstage, rfl⟩
    obtain ⟨record, sandbox, rfl, rfl⟩ := hshared id hid
    obtain ⟨_, _, hstage, rfl⟩ := hshared other hother
    cases hstage
    rfl
  recorded sandbox hsandbox := by
    rw [hat.sandboxes] at hsandbox
    cases stage with
    | unused | creating _ => cases hsandbox
    | storing index record created =>
      obtain rfl := mem_singleton.1 hsandbox
      obtain ⟨call, hcall, hphase⟩ := hat.exists_storing
      exact .inr ⟨call, hcall, record, hphase, hat.named.1⟩
    | shared record created =>
      obtain rfl := mem_singleton.1 hsandbox
      exact .inl ⟨record, by simp [hat.records, Stage.records], hat.named.1⟩

/-- The sandbox of an agent in every run whose first use is undisturbed. -/
theorem agent_has_one_sandbox {labels : List Label}
    (hrun : agentSandboxes.Admits .unused labels)
    (hundisturbed : agentSandboxes.Throughout UndisturbedFirstUse .unused labels) :
    (agentSandboxes.exec .unused labels).OneSandbox := by
  have hstages : ∃ stage, (agentSandboxes.exec .unused labels).At stage := by
    refine System.invariant_of_restrict (fun state : AgentState ↦ ∃ stage, state.At stage) ?_ ?_
      ((System.admits_restrict_iff _ _ _).2 ⟨hrun, hundisturbed⟩)
    · intro state label hstate henabled hcondition
      obtain ⟨stage, hat⟩ := hstate
      exact hat.steps (steps_of_enabled henabled) hcondition
    · exact ⟨.unused, rfl, rfl, trivial, by simp [AgentState.unused], trivial⟩
  obtain ⟨stage, hat⟩ := hstages
  exact hat.oneSandbox

end Runs

/-! ## Runs with two first uses -/

def plainSettings : Settings := ⟨fun _ ↦ none, none, fun _ ↦ .ok none⟩

def networkedConfig : AgentSandboxConfig := ⟨none, "docker", [], true⟩

def changedConfig : AgentSandboxConfig := ⟨some "debian:12", "docker", [], false⟩

/-- A call after the first one has returned, under another configuration. -/
def secondUse : List Label :=
  [.call networkedConfig none, .load 0 1, .create 0 plainSettings (.ok ()) 2, .store 0 (.ok ()),
    .call changedConfig none, .load 1 3, .create 1 plainSettings (.ok ()) 4]

theorem agent_has_one_sandbox_secondUse : agentSandboxes.Admits .unused secondUse ∧
      agentSandboxes.Throughout UndisturbedFirstUse .unused secondUse ∧
      (agentSandboxes.exec .unused secondUse).returned = [2, 2] ∧
      (agentSandboxes.exec .unused secondUse).OneSandbox :=
  have hrun : agentSandboxes.Admits .unused secondUse := by decide +kernel
  have hundisturbed : agentSandboxes.Throughout UndisturbedFirstUse .unused secondUse := by
    decide +kernel
  ⟨hrun, hundisturbed, by decide +kernel, agent_has_one_sandbox hrun hundisturbed⟩

/-- Two calls that both find no record. -/
def racingFirstUses : List Label :=
  [.call networkedConfig none, .call changedConfig none, .load 0 1, .load 1 2,
    .create 0 plainSettings (.ok ()) 3, .create 1 plainSettings (.ok ()) 4, .store 0 (.ok ()),
    .store 1 (.ok ())]

/-- A crash before the record is written. -/
def interruptedFirstUse : List Label :=
  [.call networkedConfig none, .load 0 1, .create 0 plainSettings (.ok ()) 2, .crash]

/-- Racing calls return different sandboxes, and an interrupted one leaves a sandbox that no record
names. -/
theorem agent_has_two_sandboxes : (agentSandboxes.Admits .unused racingFirstUses ∧
      (agentSandboxes.exec .unused racingFirstUses).returned = [3, 4]) ∧
    agentSandboxes.Admits .unused interruptedFirstUse ∧
      (agentSandboxes.exec .unused interruptedFirstUse).sandboxes.length = 1 ∧
      (agentSandboxes.exec .unused interruptedFirstUse).records = [] ∧
      ∀ call ∈ (agentSandboxes.exec .unused interruptedFirstUse).calls, call.phase = .crashed := by
  decide +kernel

end Exo.Sandboxes
