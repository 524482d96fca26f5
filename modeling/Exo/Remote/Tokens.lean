import Exo.Remote.Auth

/-!
# The login server over time

Any number of calls are under way; each is split where it gives up a lock or waits for the provider
or the vault.  A step reads the clock once.  A save either has no effect or succeeds, so the state
that is stored is the one that is saved, and a restart only loses the rest.

The history has what the steps have done, for the statements about runs; no step reads it.
-/

namespace Exo.Remote

open Library Vault

/-- A code was given out for a request. -/
structure Grant where
  key : String
  request : Authorization
  principal : String
  created : ℤ
  deriving DecidableEq

/-- The token endpoint has accepted a code. -/
structure Redemption where
  key : String
  request : CodeRequest
  time : ℤ

/-- Tokens were issued for a new session; `code` is the digest of the code they were issued for. -/
structure Birth where
  session : String
  principal : String
  code : Option String
  created : ℤ
  deriving DecidableEq

/-- Tokens and codes are by their digest. -/
structure History where
  /-- The values of `random`. -/
  drawn : List String := []
  /-- The requests that `authorize` has accepted. -/
  requests : List Authorization := []
  /-- The principals that a callback has enrolled or found. -/
  logins : List String := []
  grants : List Grant := []
  redemptions : List Redemption := []
  births : List Birth := []
  /-- Every token with the id of its session. -/
  tokens : List (String × String) := []
  /-- The tokens that a refresh has replaced. -/
  rotated : List String := []
  /-- The sessions that `revoke` or `logout` has removed. -/
  ended : List String := []

/-- The token was replaced, or its session removed. -/
def History.Dead (history : History) (token : String) : Prop :=
  token ∈ history.rotated ∨ ∃ id ∈ history.ended, (token, id) ∈ history.tokens

instance (history : History) (token : String) : Decidable (history.Dead token) :=
  inferInstanceAs (Decidable (_ ∨ _))

/-- How far a call got. -/
inductive AuthCall where
  /-- `callback` waits for the provider, then for `enroll`. -/
  | exchanging (request : Option Authorization)
  /-- `callback` has a principal. -/
  | enrolled (request : Option Authorization) (principal : String)
  /-- `issue` is next, for the code with this digest or for a browser. -/
  | issuing (code : Option String) (principal : String) (client : Option String)
  /-- `authenticate` has found the session; a logout also has the cookie. -/
  | authenticating (token session : String) (logout : Option (Option String))
  /-- `logout` is about to remove the sessions with this access token. -/
  | removing (cookie : String)
  deriving DecidableEq

structure AuthServer where
  origin : String
  config : AuthConfig
  state : State
  pending : Std.TreeMap String Pending := ∅
  codes : Std.TreeMap String Code := ∅
  clock : ℤ := 0
  calls : ℕ → Option AuthCall := fun _ ↦ none
  history : History := {}

inductive AuthLabel where
  | tick (seconds : ℕ)
  | register (registration : Registration) (id : String) (saves : Bool)
  | authorize (query : Authorization) (state browser : String)
  | login (state browser : String)
  /-- The lock of the pending logins. -/
  | callback (call : ℕ) (query : Callback) (browser : String)
  /-- The provider has answered; `id` and `vault` are for an account that is new. -/
  | enroll (call : ℕ) (identity : Identity) (id : String) (vault : VaultId) (saves : Bool)
  /-- The lock of the codes, in `callback`. -/
  | grant (call : ℕ) (code : String)
  /-- The lock of the codes, in `token`. -/
  | redeem (call : ℕ) (request : CodeRequest)
  | issue (call : ℕ) (draw : TokenDraw) (id : String) (saves : Bool)
  | refresh (request : RefreshRequest) (draw : TokenDraw) (saves : Bool)
  | revoke (revocation : Revocation) (saves : Bool)
  /-- The first half of `authenticate`. -/
  | authenticate (call : ℕ) (request : HttpRequest)
  /-- The same, in `logout`. -/
  | logout (call : ℕ) (request : HttpRequest)
  /-- The second half of `authenticate`. -/
  | principal (call : ℕ)
  /-- The last lock of `logout`. -/
  | remove (call : ℕ) (saves : Bool)
  /-- The provider refuses, or the call is given up. -/
  | drop (call : ℕ)
  | restart (allowedEmails : List String)

namespace AuthServer

variable (crypto : Crypto)

def new (origin : String) (config : AuthConfig) (owner : String) : AuthServer :=
  { origin, config, state := newState config owner }

section
variable (server : AuthServer)

def resource : String := server.origin ++ "/exo"

def setCall (call : ℕ) (stage : Option AuthCall) : AuthServer :=
  { server with calls := Function.update server.calls call stage }

/-- The values are new ones of `random`. -/
def Fresh (values : List String) : Prop :=
  values.Nodup ∧ ∀ value ∈ values, value ∉ server.history.drawn

instance (server : AuthServer) (values : List String) : Decidable (server.Fresh values) :=
  inferInstanceAs (Decidable (_ ∧ _))

def draw (values : List String) : AuthServer :=
  { server with history := { server.history with drawn := values ++ server.history.drawn } }

/-- `start_login`. -/
def startLogin (state browser : String) (request : Option Authorization) : AuthServer :=
  let (_, pending) := (Remote.startLogin crypto server.clock state browser request).runOn
    server.pending
  { server.draw [state, browser] with pending }

/-- The first half of `authenticate`; `logout` has the cookie of a logout. -/
def startAuthenticate (call : ℕ) (request : HttpRequest)
    (logout : Option (Option String)) : AuthServer :=
  match request.token server.origin with
  | .error _ => server
  | .ok token =>
    match findSession crypto server.clock token server.state with
    | .error _ => server
    | .ok id => server.setCall call (some (.authenticating token id logout))

/-- `sessions.retain` and a save; the sessions that go are ended. -/
def endSessions (keep : Session → Bool) : AuthServer :=
  { server with
    state := server.state.retainSessions keep
    history := { server.history with
      ended := ((server.state.sessions.toList.filter fun entry ↦ ! keep entry.2).map Prod.fst) ++
        server.history.ended } }

/-- The account of an identity, and the state with it; the account may be new. -/
def enrollIn (identity : Identity) (id : String) (vault : VaultId)
    (saves : Bool) : Except String (State × Principal) := do
  match ← admitIdentity server.config server.state identity with
  | some principal => return (server.state, principal)
  | none =>
    ensure saves "save failed"
    let principal : Principal :=
      ⟨accountId server.config server.state identity id, identity.issuer, identity.subject,
        identity.email, vault⟩
    return (server.state.enrol principal, principal)

/-- A step of the server, if it is possible. -/
def step : AuthLabel → Option AuthServer
  | .tick seconds => some { server with clock := server.clock + seconds }
  | .register registration id saves =>
    if server.Fresh [id] then
      match Remote.register crypto server.clock id registration server.state with
      | .error _ => some server
      | .ok state => some { server.draw [id] with state := if saves then state else server.state }
    else none
  | .authorize query state browser =>
    if server.Fresh [state, browser] then
      match checkAuthorization crypto server.resource server.clock query server.state with
      | .error _ => some server
      | .ok () =>
        let server := server.startLogin crypto state browser (some query)
        some { server with
          history := { server.history with requests := query :: server.history.requests } }
    else none
  | .login state browser =>
    if server.Fresh [state, browser] then some (server.startLogin crypto state browser none)
    else none
  | .callback call query browser =>
    if server.calls call = none then
      match (takePending crypto server.clock query browser).runOn server.pending with
      | (.error _, pending) => some { server with pending }
      | (.ok login, pending) =>
        some { server.setCall call (some (.exchanging login.request)) with pending }
    else none
  | .enroll call identity id vault saves =>
    match server.calls call with
    | some (.exchanging request) =>
      match server.enrollIn identity id vault saves with
      | .error _ => some (server.setCall call none)
      | .ok (state, principal) =>
        let server := server.setCall call (some (.enrolled request principal.id))
        some { server with
          state
          history := { server.history with logins := principal.id :: server.history.logins } }
    | _ => none
  | .grant call code =>
    match server.calls call with
    | some (.enrolled none principal) =>
      some (server.setCall call (some (.issuing none principal none)))
    | some (.enrolled (some request) principal) =>
      if server.Fresh [code] then
        let server := server.setCall call none
        match (putCode crypto server.clock code request principal).runOn server.codes with
        | (.error _, codes) => some { server with codes }
        | (.ok (), codes) =>
          let grant : Grant := ⟨crypto.digest code, request, principal, server.clock⟩
          let server := server.draw [code]
          some { server with
            codes
            history := { server.history with grants := grant :: server.history.grants } }
      else none
    | _ => none
  | .redeem call request =>
    if server.calls call = none then
      match (takeCode crypto server.clock request).runOn server.codes with
      | (.error _, codes) => some { server with codes }
      | (.ok grant, codes) =>
        let key := crypto.digest request.code
        let server := server.setCall call
          (some (.issuing (some key) grant.principal (some request.clientId)))
        let redemption : Redemption := ⟨key, request, server.clock⟩
        some { server with
          codes
          history := { server.history with
            redemptions := redemption :: server.history.redemptions } }
    else none
  | .issue call draw id saves =>
    match server.calls call with
    | some (.issuing code principal client) =>
      if server.Fresh [draw.access, draw.refresh, id] then
        match Remote.issue crypto server.clock draw id principal client server.state with
        | .error _ => some (server.setCall call none)
        | .ok state =>
          let server := (server.setCall call none).draw [draw.access, draw.refresh, id]
          if saves then
            some { server with
              state
              history := { server.history with
                births := ⟨id, principal, code, server.clock⟩ :: server.history.births
                tokens := (crypto.digest draw.access, id) :: (crypto.digest draw.refresh, id) ::
                  server.history.tokens } }
          else some server
      else none
    | _ => none
  | .refresh request draw saves =>
    if server.Fresh [draw.access, draw.refresh] then
      match refreshable crypto server.resource server.config server.clock request server.state with
      | .error _ => some server
      | .ok (id, session) =>
        let rotated := session.rotate crypto server.clock draw
        let after := server.draw [draw.access, draw.refresh]
        if saves then
          some { after with
            state := { server.state with sessions := server.state.sessions.insert id rotated }
            history := { after.history with
              tokens := (crypto.digest draw.access, id) :: (crypto.digest draw.refresh, id) ::
                server.history.tokens
              rotated := session.access :: crypto.digest request.refreshToken ::
                server.history.rotated } }
        else some after
    else none
  | .revoke revocation saves =>
    some (if saves then server.endSessions (revocation.keeps crypto) else server)
  | .authenticate call request =>
    if server.calls call = none then some (server.startAuthenticate crypto call request none)
    else none
  | .logout call request =>
    if server.calls call = none then
      some (server.startAuthenticate crypto call request (some request.cookie))
    else none
  | .principal call =>
    match server.calls call with
    | some (.authenticating _ id logout) =>
      match sessionPrincipal server.config server.clock id server.state, logout with
      | .ok _, some (some cookie) => some (server.setCall call (some (.removing cookie)))
      | _, _ => some (server.setCall call none)
    | _ => none
  | .remove call saves =>
    match server.calls call with
    | some (.removing cookie) =>
      let server := server.setCall call none
      some (if saves then server.endSessions fun session ↦ session.access != crypto.digest cookie
        else server)
    | _ => none
  | .drop call => (server.calls call).map fun _ ↦ server.setCall call none
  | .restart allowedEmails =>
    some { server with
      config := { server.config with allowedEmails }
      pending := ∅
      codes := ∅
      calls := fun _ ↦ none }

end

end AuthServer

/-- The login server, with calls of any clients. -/
def authServer (crypto : Crypto) : System AuthServer AuthLabel where
  enabled server label := (server.step crypto label).isSome
  next server label := (server.step crypto label).getD server

instance (crypto : Crypto) (server : AuthServer) (label : AuthLabel) :
    Decidable ((authServer crypto).enabled server label) :=
  inferInstanceAs (Decidable (_ = true))

end Exo.Remote
