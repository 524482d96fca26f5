import Exo.Library.System
import Exo.Remote.State

/-!
# Enrolment

An identity that is not known yet gets a personal vault, named after the id of the account to be,
and then the account is saved.  The lock of the state is held from the lookups to the end, so one
enrolment is under way at a time; each storage call may fail, with or without effect, and the server
may be restarted between any two of them.

The id of an account is new, except that the owner of the server has an id from the start.
-/

namespace Exo.Remote

open Library Vault

/-- What the provider says of a login.  `Oidc::identity` writes the email in lower case. -/
structure Identity where
  issuer : String
  subject : String
  email : String
  lower : email.toList.map Char.toLower = email.toList

/-- The account is that of the identity. -/
def Principal.IsOf (principal : Principal) (identity : Identity) : Prop :=
  principal.issuer = identity.issuer ∧ principal.subject = identity.subject

instance (principal : Principal) (identity : Identity) : Decidable (principal.IsOf identity) :=
  inferInstanceAs (Decidable (_ ∧ _))

section
variable (config : AuthConfig) (state : State) (identity : Identity)

/-- `Store::enroll` before it creates a vault: the account of the identity, if it has one. -/
def admitIdentity : Except String (Option Principal) := do
  ensure (config.admitted identity.email) "this identity is not admitted to this server"
  match state.accounts.find? fun principal ↦ principal.email = identity.email with
  | some principal =>
    ensure (principal.IsOf identity)
      "email is already bound to another identity; contact the server operator"
    return some principal
  | none =>
    match state.accounts.find? fun principal ↦ principal.IsOf identity with
    | some principal =>
      ensure (config.admitted principal.email) "identity admission has been removed"
      return some principal
    | none => return none

/-- The id of the account to be; `fresh` is from `Uuid7::now`. -/
def accountId (fresh : String) : String :=
  if eqIgnoreAsciiCase config.ownerEmail identity.email then state.owner else fresh

end

def personalVault (id : String) : String := "personal-" ++ id

/-- The state with the account in it. -/
def State.enrol (state : State) (principal : Principal) : State :=
  { state with
    vaultOwners := state.vaultOwners.insert principal.vault principal.id
    vaultNames := state.vaultNames.insert principal.vault "personal"
    principals := state.principals.insert principal.id principal }

/-- How far the enrolment that holds the lock got. -/
inductive Task where
  | idle
  /-- `create_vault` is next. -/
  | creating (identity : Identity) (id : String)
  /-- The vault exists; `save` is next. -/
  | saving (principal : Principal)
  /-- The save failed; `delete_vault` is next. -/
  | rollingBack (principal : Principal) (message : String)

/-- What comes of a storage call.  A call that fails may have written before. -/
inductive Outcome where
  | done
  | failed (message : String) (written : Bool)

/-- What a storage call leaves. -/
def Outcome.leaves {α : Type} (outcome : Outcome) (before after : α) : α :=
  match outcome with
  | .done | .failed _ true => after
  | .failed _ false => before

/-- The server: `saved` is in the auth vault, `stored` behind the lock, `vaults` is the catalog of
the vaults of the harness. -/
structure Server where
  config : AuthConfig
  saved : State
  stored : State
  vaults : Catalog Unit
  task : Task

inductive EnrolLabel where
  /-- A login gets the lock.  `fresh` is the id that would be drawn. -/
  | enroll (identity : Identity) (fresh : String)
  | createVault (draw : Draw) (outcome : Outcome)
  | save (outcome : Outcome)
  | deleteVault (outcome : Outcome)
  /-- The server is stopped or crashes, and starts with other allowed emails. -/
  | restart (allowedEmails : List String)

namespace Server

/-- A server whose auth vault has no state yet. -/
def new (config : AuthConfig) (owner : String) (vaults : Catalog Unit) : Server :=
  ⟨config, newState config owner, newState config owner, vaults, .idle⟩

section
variable (server : Server)

def vaultNames : List String := server.vaults.vaults.map (·.record.name)

/-- The id is that of no account, and no vault is named after it. -/
def FreshId (id : String) : Prop :=
  id ≠ server.stored.owner ∧ server.stored.principals[id]? = none ∧
    server.saved.principals[id]? = none ∧ personalVault id ∉ server.vaultNames

/-- The id is that of no vault, nor of one that an account had. -/
def FreshVault (id : VaultId) : Prop :=
  (∀ vault ∈ server.vaults.vaults, vault.record.id ≠ id) ∧
    (∀ principal ∈ server.stored.accounts, principal.vault ≠ id) ∧
    ∀ principal ∈ server.saved.accounts, principal.vault ≠ id

instance (server : Server) (id : String) : Decidable (server.FreshId id) :=
  inferInstanceAs (Decidable (_ ∧ _))

instance (server : Server) (id : VaultId) : Decidable (server.FreshVault id) :=
  inferInstanceAs (Decidable (_ ∧ _))

/-- The server after a step, and the answer to the login if the step ends it. -/
def step : EnrolLabel → Option (Server × Option (Except String Principal))
  | .enroll identity fresh =>
    match server.task with
    | .idle =>
      if server.FreshId fresh then
        match admitIdentity server.config server.stored identity with
        | .error message => some (server, some (.error message))
        | .ok (some principal) => some (server, some (.ok principal))
        | .ok none =>
          let id := accountId server.config server.stored identity fresh
          some ({ server with task := .creating identity id }, none)
      else none
    | _ => none
  | .createVault draw outcome =>
    match server.task with
    | .creating identity id =>
      if server.FreshVault draw.id then
        match (createVault draw (personalVault id)).runOn server.vaults with
        | (.error message, _) => some ({ server with task := .idle }, some (.error message))
        | (.ok record, vaults) =>
          let server := { server with vaults := outcome.leaves server.vaults vaults }
          match outcome with
          | .done =>
            let principal : Principal :=
              ⟨id, identity.issuer, identity.subject, identity.email, record.id⟩
            some ({ server with task := .saving principal }, none)
          | .failed message _ => some ({ server with task := .idle }, some (.error message))
      else none
    | _ => none
  | .save outcome =>
    match server.task with
    | .saving principal =>
      let next := server.stored.enrol principal
      let server := { server with saved := outcome.leaves server.saved next }
      match outcome with
      | .done => some ({ server with stored := next, task := .idle }, some (.ok principal))
      | .failed message _ => some ({ server with task := .rollingBack principal message }, none)
    | _ => none
  | .deleteVault outcome =>
    match server.task with
    | .rollingBack principal message =>
      let server := { server with task := .idle }
      let failure := "rolling back personal vault after enrollment failed"
      match (deleteVault principal.vault).runOn server.vaults with
      | (.error _, _) => some (server, some (.error failure))
      | (.ok (), vaults) =>
        let server := { server with vaults := outcome.leaves server.vaults vaults }
        match outcome with
        | .done => some (server, some (.error message))
        | .failed _ _ => some (server, some (.error failure))
    | _ => none
  | .restart allowedEmails =>
    let config := { server.config with allowedEmails }
    match openStore config server.saved with
    | .error _ => none
    | .ok state => some ({ server with config, stored := state, task := .idle }, none)

end

end Server

/-- The server, with logins in any order, failures and restarts. -/
def enrolments : System Server EnrolLabel where
  enabled server label := (server.step label).isSome
  next server label := ((server.step label).map Prod.fst).getD server

instance (server : Server) (label : EnrolLabel) : Decidable (enrolments.enabled server label) :=
  inferInstanceAs (Decidable (_ = true))

/-- The answer that a step gives to the login that it ends. -/
def Server.answer (server : Server) (label : EnrolLabel) : Option (Except String Principal) :=
  (server.step label).bind Prod.snd

end Exo.Remote
