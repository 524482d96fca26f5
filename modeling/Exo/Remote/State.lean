import Exo.Library.Tables
import Exo.Vault.Catalog

/-!
# The state of the login server

The server keeps its accounts, clients and sessions, and what belongs to whom, in one secret of the
auth vault.  A save replaces the whole state, and a server that starts reads it back.
-/

namespace Exo.Remote

open Library Vault

structure Principal where
  id : String
  issuer : String
  subject : String
  email : String
  vault : VaultId

structure Client where
  redirectUris : List String
  expires : ℤ

structure Session where
  principal : String
  client : Option String
  access : String
  refresh : Option String
  accessExpires : ℤ
  expires : ℤ
  deriving DecidableEq

structure State where
  deployment : String := ""
  owner : String := ""
  owners : Std.TreeMap String String := ∅
  vaultNames : Std.TreeMap VaultId String := ∅
  vaultOwners : Std.TreeMap VaultId String := ∅
  sharedVaults : List VaultId := []
  principals : Std.TreeMap String Principal := ∅
  clients : Std.TreeMap String Client := ∅
  sessions : Std.TreeMap String Session := ∅

/-- The principals that are enrolled. -/
def State.accounts (state : State) : List Principal := values state.principals

structure OidcConfig where
  issuer : String
  clientId : String

structure AuthConfig where
  publicUrl : String
  oidc : OidcConfig
  ownerEmail : String
  allowedEmails : List String := []
  sharedVaults : List String := []

/-- `str::eq_ignore_ascii_case`. -/
def eqIgnoreAsciiCase (text other : String) : Bool :=
  text.toList.map Char.toLower == other.toList.map Char.toLower

namespace AuthConfig

def admitted (config : AuthConfig) (email : String) : Bool :=
  eqIgnoreAsciiCase config.ownerEmail email ||
    config.allowedEmails.any fun allowed ↦ eqIgnoreAsciiCase allowed email

/-- The server and the client that a state is for. -/
def deployment (config : AuthConfig) : String :=
  config.publicUrl ++ "|" ++ config.oidc.issuer ++ "|" ++ config.oidc.clientId

end AuthConfig

/-- `Store::open` on a state that is there. -/
def openStore (config : AuthConfig) (state : State) : Except String State := do
  ensure (state.deployment == config.deployment)
    "auth vault belongs to a different server or OIDC client"
  ensure (state.principals[state.owner]?.all fun principal ↦
      eqIgnoreAsciiCase principal.email config.ownerEmail)
    "owner_email is already bound; use the original owner email"
  return state

/-- `Store::open` on an auth vault that has no state yet. -/
def newState (config : AuthConfig) (owner : String) : State :=
  { deployment := config.deployment, owner }

theorem eqIgnoreAsciiCase_comm (text other : String) :
    eqIgnoreAsciiCase text other = eqIgnoreAsciiCase other text := by
  rw [eqIgnoreAsciiCase, eqIgnoreAsciiCase, Bool.beq_comm]

/-- Two texts in lower case that are both equal to a third one but for the case are equal. -/
theorem eq_of_eqIgnoreAsciiCase {text first second : String}
    (hfirst : first.toList.map Char.toLower = first.toList)
    (hsecond : second.toList.map Char.toLower = second.toList)
    (heq : eqIgnoreAsciiCase text first = true) (heq' : eqIgnoreAsciiCase text second = true) :
    first = second := by
  simp only [eqIgnoreAsciiCase, beq_iff_eq] at heq heq'
  apply String.toList_inj.1
  calc first.toList = text.toList.map Char.toLower := by rw [heq, hfirst]
    _ = second.toList := by rw [heq', hsecond]

end Exo.Remote
