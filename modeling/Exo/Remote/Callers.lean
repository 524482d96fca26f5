import Exo.Remote.Access

/-!
# Callers over time

Logins, adoption, restarts, and the calls that create agents, threads and vaults, delete and attach
vaults, and list them.  A call is split where it gives up a lock; the calls of one harness exclude
each other in part, which is not used here.  A process without a caller works on the same root: what
it creates belongs to nobody.

An id is a new one, and the history has those that were drawn.
-/

namespace Exo.Remote

open Library Vault
open Egress.Runtime (ResourceScope)
open Exo.Policy (idText)

/-- The record of an agent or a thread. -/
structure ResourceRecord where
  scope : ResourceScope
  vaults : List VaultId

/-- The record that a call is about to put. -/
inductive ResourcePut where
  | agent (vaults : List VaultId)
  | thread (agentId : ℕ) (vaults : List VaultId)
  | attached (scope : ResourceScope) (vaults : List VaultId)
  deriving DecidableEq

/-- How far a call got. -/
inductive AccessCall where
  /-- `require_vaults` has these left. -/
  | requiring (principal : String) (put : ResourcePut) (left : List VaultId)
  /-- The resource belongs to the caller; its record is next. -/
  | claimed (principal : String) (scope : ResourceScope) (vaults : List VaultId)
  /-- `create_vault` is about to create. -/
  | naming (principal name : String)
  /-- The vault exists; `vault_created` is next. -/
  | vaultMade (principal : String) (id : VaultId) (name : String)
  | rollingBack (id : VaultId)
  | deleting (principal : String) (id : VaultId)
  /-- `list_vaults` is about to look up the default vault. -/
  | defaulting (principal : String) (id : VaultId) (rest : List VaultId)
  | listing (principal : String) (rest found : List VaultId)
  deriving DecidableEq

structure AccessHistory where
  drawn : List ℕ := []
  /-- The agents and threads whose record was put, with the caller if there was one. -/
  created : List (ResourceScope × Option String) := []

structure AccessServer where
  base : Server
  multiplayer : Bool
  authVault : VaultId
  records : List ResourceRecord := []
  calls : ℕ → Option AccessCall := fun _ ↦ none
  history : AccessHistory := {}

/-- A step of a call.  The vaults of a handle are as they were when the handle was made. -/
inductive CallStep where
  | newAgent (principal : String) (vaults : List VaultId)
  | newThread (principal : String) (agentId : ℕ) (vaults : List VaultId)
  | fork (principal : String) (agentId threadId : ℕ) (vaults : List VaultId)
  | attachVaults (principal : String) (agentId threadId : ℕ) (vaults : List VaultId)
  /-- The next vault of `require_vaults`. -/
  | require
  | claim (id : ℕ) (outcome : Outcome)
  | put (outcome : Outcome)
  | createVault (principal name : String)
  | make (draw : Draw) (outcome : Outcome)
  | vaultCreated (outcome : Outcome)
  | rollback (outcome : Outcome)
  | deleteVault (principal : String) (id : VaultId)
  | erase (outcome : Outcome)
  | listAgent (principal : String) (agentId : ℕ) (vaults : List VaultId)
  | listThread (principal : String) (agentId threadId : ℕ) (vaults : List VaultId)
  /-- The next vault of `list_vaults`. -/
  | look
  /-- The call returns or is given up. -/
  | finish

inductive AccessLabel where
  | enrolment (label : EnrolLabel)
  | adopt (outcome : Outcome)
  | call (call : ℕ) (step : CallStep)
  /-- A process without a caller puts a record. -/
  | localPut (scope : ResourceScope) (vaults : List VaultId)
  | localVault (draw : Draw) (name : String)
  /-- Somebody deletes an agent or a thread. -/
  | remove (scope : ResourceScope)
  | restart (config : AuthConfig) (multiplayer : Bool)

def Task.isIdle : Task → Bool
  | .idle => true
  | _ => false

/-- The id that is new in a scope. -/
def scopeId : ResourceScope → ℕ
  | .global => 0
  | .agent agentId => agentId
  | .thread _ threadId => threadId

/-- The scope is that of an agent or a thread, and its ids have 128 bits. -/
def ValidScope : ResourceScope → Prop
  | .global => False
  | .agent agentId => agentId < 2 ^ 128
  | .thread agentId threadId => agentId < 2 ^ 128 ∧ threadId < 2 ^ 128

instance : (scope : ResourceScope) → Decidable (ValidScope scope)
  | .global => isFalse id
  | .agent _ => inferInstanceAs (Decidable (_ < _))
  | .thread _ _ => inferInstanceAs (Decidable (_ ∧ _))

/-- The new resource with its vaults, unless the put is to a thread that is there. -/
def ResourcePut.resource (id : ℕ) : ResourcePut → Option ResourceRecord
  | .agent vaults => some ⟨.agent id, vaults⟩
  | .thread agentId vaults => some ⟨.thread agentId id, vaults⟩
  | .attached _ _ => none

/-- `attach_vaults` appends the vaults that are not there yet. -/
def ResourceRecord.attach (vaults : List VaultId) (record : ResourceRecord) : ResourceRecord :=
  { record with
    vaults := vaults.foldl (fun attached id ↦ if id ∈ attached then attached else attached ++ [id])
      record.vaults }

/-- The ids that a step of an enrolment draws for vaults. -/
def EnrolLabel.drawn : EnrolLabel → List ℕ
  | .createVault draw _ => [draw.id]
  | _ => []

namespace AccessServer

/-- A server on a root where only the auth vault is. -/
def new (config : AuthConfig) (multiplayer : Bool) (owner : String) (authVault : VaultId) :
    AccessServer :=
  { base := .new config owner ⟨[⟨⟨authVault, "auth", 0⟩, []⟩]⟩
    multiplayer
    authVault
    history := { drawn := [authVault] } }

section
variable (server : AccessServer)

def state : State := server.base.stored

def policy : Policy :=
  ⟨server.base.config, server.multiplayer, server.authVault⟩

def vaultRecords : List VaultRecord :=
  server.base.vaults.vaults.map (·.record)

def find (scope : ResourceScope) : Option ResourceRecord :=
  server.records.find? (·.scope == scope)

/-- The agents with their threads. -/
def scopes : List ResourceScope :=
  server.records.flatMap fun record ↦
    match record.scope with
    | .agent agentId => .agent agentId :: (server.records.map (·.scope)).filter fun
      | .thread other _ => other == agentId
      | _ => false
    | _ => []

def setCall (call : ℕ) (stage : Option AccessCall) : AccessServer :=
  { server with calls := Function.update server.calls call stage }

def draw (ids : List ℕ) : AccessServer :=
  { server with history := { server.history with drawn := ids ++ server.history.drawn } }

/-- The state is saved, and stored if that succeeds. -/
def commit (outcome : Outcome) (next : State) : AccessServer :=
  { server with
    base := { server.base with
      saved := outcome.leaves server.base.saved next
      stored := match outcome with
        | .done => next
        | .failed _ _ => server.base.stored } }

def setVaults (vaults : Catalog Unit) : AccessServer :=
  { server with base := { server.base with vaults } }

/-- The vault is deleted, if it is there. -/
def dropVault (id : VaultId) (outcome : Outcome) : AccessServer :=
  match (deleteVault id).runOn server.base.vaults with
  | (.error _, _) => server
  | (.ok (), vaults) => server.setVaults (outcome.leaves server.base.vaults vaults)

/-- `get_vault`. -/
def getVault (principal : String) (id : VaultId) : Except String (Option VaultRecord) := do
  server.policy.check principal .global server.state
  match server.vaultRecords.find? (·.id == id) with
  | none => return none
  | some record => server.policy.vault principal record false server.state

def requireVault (principal : String) (id : VaultId) : Except String VaultRecord := do
  context (← server.getVault principal id) ("vault " ++ idText id ++ " is unavailable")

/-- The caller sees a vault with this name. -/
def named (principal name : String) : Bool :=
  server.vaultRecords.any fun record ↦
    match server.policy.vault principal record false server.state with
    | .ok (some record) => record.name == name
    | _ => false

end

section
variable (server : AccessServer)

section
variable (principal : String)

def checkThread (agentId : ℕ) : Except String Unit := do
  server.policy.check principal (.agent agentId) server.state
  ensure (server.find (.agent agentId)).isSome "agent no longer exists"

def checkFork (agentId threadId : ℕ) : Except String Unit := do
  server.policy.check principal (.thread agentId threadId) server.state
  ensure (server.find (.agent agentId)).isSome "agent no longer exists"

def checkName (principal name : String) : Except String Unit := do
  server.policy.check principal .global server.state
  ensure (! server.named principal name) ("vault already exists: " ++ name)

def checkDelete (id : VaultId) : Except String Unit := do
  let record ← server.requireVault principal id
  let personal ← server.policy.defaultVault principal server.state
  ensure (personal != id) "the personal vault cannot be deleted"
  let writable ← server.policy.vault principal record true server.state
  ensure writable.isSome "vault is read-only"

/-- The default vault of the caller. -/
def listAgent (agentId : ℕ) : Except String VaultId := do
  server.policy.check principal (.agent agentId) server.state
  server.policy.defaultVault principal server.state

/-- The default vault of the caller and the record of the agent. -/
def listThread (agentId threadId : ℕ) : Except String (VaultId × ResourceRecord) := do
  server.policy.check principal (.thread agentId threadId) server.state
  let id ← server.listAgent principal agentId
  let agent ← context (server.find (.agent agentId)) "agent is unavailable"
  return (id, agent)

end

end

/-- A call begins, if its checks allow it. -/
def start {α : Type} (server : AccessServer) (call : ℕ) (allowed : Except String α)
    (stage : α → AccessCall) : Option AccessServer :=
  if server.calls call = none ∧ server.base.task.isIdle then
    match allowed with
    | .error _ => some server
    | .ok value => some (server.setCall call (some (stage value)))
  else none

/-- What a call makes of its stage. -/
def callStep (server : AccessServer) (call : ℕ) : CallStep → Option AccessServer
  | .newAgent principal vaults =>
    server.start call (server.policy.check principal .global server.state) fun _ ↦
      .requiring principal (.agent vaults) vaults
  | .newThread principal agentId vaults =>
    server.start call (server.checkThread principal agentId) fun _ ↦
      .requiring principal (.thread agentId vaults) vaults
  | .fork principal agentId threadId vaults =>
    server.start call (server.checkFork principal agentId threadId) fun _ ↦
      .requiring principal (.thread agentId vaults) []
  | .attachVaults principal agentId threadId vaults =>
    server.start call (server.policy.check principal (.thread agentId threadId) server.state)
      fun _ ↦ .requiring principal (.attached (.thread agentId threadId) vaults) vaults
  | .createVault principal name =>
    server.start call (server.checkName principal name) fun _ ↦ .naming principal name
  | .deleteVault principal id =>
    server.start call (server.checkDelete principal id) fun _ ↦ .deleting principal id
  | .listAgent principal agentId vaults =>
    server.start call (server.listAgent principal agentId) fun id ↦ .defaulting principal id vaults
  | .listThread principal agentId threadId vaults =>
    server.start call (server.listThread principal agentId threadId) fun found ↦
      .defaulting principal found.1 (found.2.vaults ++ vaults)
  | .require =>
    match server.calls call with
    | some (.requiring principal put (id :: left)) =>
      if server.base.task.isIdle then
        match server.requireVault principal id with
        | .error _ => some (server.setCall call none)
        | .ok _ => some (server.setCall call (some (.requiring principal put left)))
      else none
    | _ => none
  | .claim id outcome =>
    match server.calls call with
    | some (.requiring principal put []) =>
      match put.resource id with
      | none => none
      | some record =>
        if server.base.task.isIdle ∧ ValidScope record.scope ∧ id ∉ server.history.drawn then
          match server.policy.created principal record.scope server.state with
          | .error _ => some ((server.draw [id]).setCall call none)
          | .ok next =>
            let server := (server.draw [id]).commit outcome next
            match outcome with
            | .done => some (server.setCall call (some (.claimed principal record.scope
                record.vaults)))
            | .failed _ _ => some (server.setCall call none)
        else none
    | _ => none
  | .put outcome =>
    match server.calls call with
    | some (.claimed principal scope vaults) =>
      let created := (scope, some principal) :: server.history.created
      some { server.setCall call none with
        records := outcome.leaves server.records (server.records ++ [⟨scope, vaults⟩])
        history := { server.history with
          created := outcome.leaves server.history.created created } }
    | some (.requiring _ (.attached scope vaults) []) =>
      let attach (record : ResourceRecord) :=
        if record.scope = scope then record.attach vaults else record
      some { server.setCall call none with
        records := outcome.leaves server.records (server.records.map attach) }
    | _ => none
  | .make draw outcome =>
    match server.calls call with
    | some (.naming principal name) =>
      if draw.id ∉ server.history.drawn then
        match (createVault draw (principal ++ ":" ++ name)).runOn server.base.vaults with
        | (.error _, _) => some ((server.draw [draw.id]).setCall call none)
        | (.ok record, vaults) =>
          let server := (server.draw [draw.id]).setVaults (outcome.leaves server.base.vaults vaults)
          match outcome with
          | .done => some (server.setCall call (some (.vaultMade principal record.id name)))
          | .failed _ _ => some (server.setCall call none)
      else none
    | _ => none
  | .vaultCreated outcome =>
    match server.calls call with
    | some (.vaultMade principal id name) =>
      if server.base.task.isIdle then
        match server.policy.vaultCreated principal id name server.state with
        | .error _ => some (server.setCall call (some (.rollingBack id)))
        | .ok next =>
          let server := server.commit outcome next
          match outcome with
          | .done => some (server.setCall call none)
          | .failed _ _ => some (server.setCall call (some (.rollingBack id)))
      else none
    | _ => none
  | .rollback outcome =>
    match server.calls call with
    | some (.rollingBack id) => some ((server.dropVault id outcome).setCall call none)
    | _ => none
  | .erase outcome =>
    match server.calls call with
    | some (.deleting _ id) =>
      let attached := server.records.any (·.vaults.contains id)
      some ((if attached then server else server.dropVault id outcome).setCall call none)
    | _ => none
  | .look =>
    if server.base.task.isIdle then
      match server.calls call with
      | some (.defaulting principal id rest) =>
        match server.requireVault principal id with
        | .error _ => some (server.setCall call none)
        | .ok _ => some (server.setCall call (some (.listing principal rest [id])))
      | some (.listing principal (id :: rest) found) =>
        match server.getVault principal id with
        | .error _ => some (server.setCall call none)
        | .ok none => some (server.setCall call (some (.listing principal rest found)))
        | .ok (some _) => some (server.setCall call (some (.listing principal rest
            (if id ∈ found then found else found ++ [id]))))
      | _ => none
    else none
  | .finish => (server.calls call).map fun _ ↦ server.setCall call none

/-- A step of the server, if it is possible. -/
def step (server : AccessServer) : AccessLabel → Option AccessServer
  | .enrolment (.restart _) => none
  | .enrolment label =>
    if ∀ id ∈ label.drawn, id ∉ server.history.drawn then
      (server.base.step label).map fun result ↦
        { server.draw label.drawn with base := result.1 }
    else none
  | .adopt outcome =>
    if server.base.task.isIdle then
      match server.policy.adopt server.scopes server.vaultRecords server.state with
      | .error _ => some server
      | .ok next => some (server.commit outcome next)
    else none
  | .call call step => server.callStep call step
  | .localPut scope vaults =>
    if ValidScope scope ∧ scopeId scope ∉ server.history.drawn then
      some { server with
        records := server.records ++ [⟨scope, vaults⟩]
        history :=
          { drawn := scopeId scope :: server.history.drawn
            created := (scope, none) :: server.history.created } }
    else none
  | .localVault draw name =>
    if draw.id ∉ server.history.drawn then
      some ((server.draw [draw.id]).setVaults ((createVault draw name).runOn server.base.vaults).2)
    else none
  | .remove scope => some { server with records := server.records.filter (·.scope != scope) }
  | .restart config multiplayer =>
    match openStore config server.base.saved with
    | .error _ => none
    | .ok state =>
      some { server with
        base := { server.base with config, stored := state, task := .idle }
        multiplayer
        calls := fun _ ↦ none }

end AccessServer

/-- The server with its callers. -/
def callers : System AccessServer AccessLabel where
  enabled server label := (server.step label).isSome
  next server label := (server.step label).getD server

instance (server : AccessServer) (label : AccessLabel) : Decidable (callers.enabled server label) :=
  inferInstanceAs (Decidable (_ = true))

end Exo.Remote
