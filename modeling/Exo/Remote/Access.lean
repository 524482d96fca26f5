import Exo.Egress.Runtime
import Exo.Policy.SandboxPolicy
import Exo.Remote.Accounts

/-!
# Access

What belongs to whom is in three maps of the state, and what is in none of them belongs to the owner
of the server.  `created` and `vault_created` add to the maps, and a server that starts adopts what
is there already.

A function here is what is done under one lock.  Each method of the policy makes its check under a
lock of its own before; while a server runs, nobody loses what a check has found.
-/

namespace Exo.Remote

open Library Vault
open Egress.Runtime (ResourceScope)
open Exo.Policy (idText)

/-- The name of a resource in `owners`. -/
def key : ResourceScope → String
  | .global => "global"
  | .agent agentId => "agent/" ++ idText agentId
  | .thread agentId threadId => "agent/" ++ idText agentId ++ "/thread/" ++ idText threadId

structure Policy where
  config : AuthConfig
  multiplayer : Bool
  authVault : VaultId

namespace Policy

variable (policy : Policy)

section
variable (principal : String)

section
variable (scope : ResourceScope) (state : State)

def check : Except String Unit := do
  ensure (state.owner == principal ||
      state.principals[principal]?.any fun p ↦ policy.config.admitted p.email)
    "identity is not admitted"
  ensure (scope == .global ||
      match state.owners[key scope]? with
      | none => state.owner == principal
      | some owner => owner == principal || policy.multiplayer)
    "resource not available"

/-- The state that `created` saves. -/
def created : Except String State := do
  policy.check principal .global state
  ensure (state.owners[key scope]?.all (· == principal))
    "resource already belongs to another identity"
  return { state with owners := state.owners.insert (key scope) principal }

end

def vault (record : VaultRecord) (write : Bool) (state : State) :
    Except String (Option VaultRecord) := do
  policy.check principal .global state
  let owns := state.vaultOwners[record.id]? == some principal
  if record.id == policy.authVault ||
      ! owns && (write || ! state.sharedVaults.contains record.id) then
    return none
  else
    return some { record with name := state.vaultNames[record.id]?.getD record.name }

/-- The state that `vault_created` saves. -/
def vaultCreated (id : VaultId) (name : String) (state : State) : Except String State := do
  policy.check principal .global state
  return { state with
    vaultOwners := state.vaultOwners.insert id principal
    vaultNames := state.vaultNames.insert id name }

def defaultVault (state : State) : Except String VaultId := do
  policy.check principal .global state
  let account ← context state.principals[principal]?
    "the server owner must log in before running adapters"
  return account.vault

end

/-- The vault that a reference of `shared_vaults` is to. -/
def sharedVault (vaults : List VaultRecord) (state : State) (reference : String) :
    Except String VaultId := do
  let vault ← context
    (vaults.find? fun vault ↦ vault.name == reference || idText vault.id == reference)
    ("shared vault not found: " ++ reference)
  ensure (vault.id != policy.authVault && ! state.accounts.any (·.vault == vault.id))
    "auth and personal vaults cannot be shared"
  return vault.id

/-- The state that `adopt_local_state` saves, for the agents, threads and vaults there are. -/
def adopt (scopes : List ResourceScope) (vaults : List VaultRecord) (state : State) :
    Except String State := do
  let sharedVaults ← policy.config.sharedVaults.mapM (policy.sharedVault vaults state)
  let others := vaults.filter (·.id != policy.authVault)
  return { state with
    owners := insertAll key (fun _ ↦ state.owner) scopes state.owners
    sharedVaults
    vaultOwners := insertAll (·.id) (fun _ ↦ state.owner) others state.vaultOwners
    vaultNames := insertAll (·.id) (·.name) others state.vaultNames }

end Policy

end Exo.Remote
