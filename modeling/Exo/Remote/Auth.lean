import Exo.Remote.Enrolment

/-!
# The endpoints of the login server

What each endpoint does under one of the three locks: that of the state, that of the logins that
wait for the provider, and that of the authorization codes.  Tokens and codes are stored by their
digest only, and lookups go over all sessions.
-/

namespace Exo.Remote

open Library Vault

/-- The crates that the server calls.  The digest is taken to be injective. -/
structure Crypto where
  /-- `sha2` and `base64`. -/
  digest : String → String
  digest_injective : Function.Injective digest
  /-- The bytes that a text in `base64` stands for. -/
  decode : String → Option (List UInt8)
  /-- `url`: an `http` address of this host with neither credentials, query nor fragment. -/
  loopbackRedirect : String → Bool

def accessSeconds : ℤ := 900

def sessionSeconds : ℤ := 30 * 86400

def loginSeconds : ℤ := 300

def maxPending : ℕ := 256

structure Authorization where
  responseType : String
  clientId : String
  redirectUri : String
  state : String
  codeChallenge : String
  codeChallengeMethod : String
  resource : String
  scope : String
  deriving DecidableEq

/-- A login that waits for the provider. -/
structure Pending where
  request : Option Authorization
  browser : String
  expires : ℤ

structure Code where
  request : Authorization
  principal : String
  expires : ℤ

structure Registration where
  redirectUris : List String
  tokenEndpointAuthMethod : Option String
  grantTypes : Option (List String)
  responseTypes : Option (List String)

structure Callback where
  code : Option String
  state : String
  error : Option String

/-- `TokenRequest::AuthorizationCode`. -/
structure CodeRequest where
  code : String
  clientId : String
  redirectUri : String
  codeVerifier : String
  resource : String

/-- `TokenRequest::RefreshToken`. -/
structure RefreshRequest where
  refreshToken : String
  clientId : String
  resource : String
  scope : Option String

structure Revocation where
  token : String
  clientId : String

/-- What `authenticate` reads of a request; `safe` is for `GET` and `HEAD`. -/
structure HttpRequest where
  bearer : Option String
  cookie : Option String
  safe : Bool
  origin : Option String
  csrf : Option String

/-- A scope has a word that is not `exo`. -/
def foreignScope (scope : String) : Bool :=
  (Scheduler.splitWhitespace [] scope.toList).any (· != "exo".toList)

variable (crypto : Crypto)

def Registration.valid (registration : Registration) : Bool :=
  ! registration.redirectUris.isEmpty && registration.redirectUris.length ≤ 4 &&
    registration.redirectUris.all crypto.loopbackRedirect &&
    registration.tokenEndpointAuthMethod.all (· == "none") &&
    registration.grantTypes.all (·.all fun grant ↦
      grant == "authorization_code" || grant == "refresh_token") &&
    registration.responseTypes.all (· == ["code"])

/-- `register`; the id is from `random`. -/
def register (now : ℤ) (id : String) (registration : Registration) (state : State) :
    Except String State := do
  ensure (registration.valid crypto) "invalid_client_metadata"
  let clients := state.clients.filter fun _ client ↦ client.expires > now
  ensure (clients.size < 1024) "temporarily_unavailable"
  let client : Client := ⟨registration.redirectUris, now + sessionSeconds⟩
  return { state with clients := clients.insert id client }

/-- `authorize` before it starts the login. -/
def checkAuthorization (resource : String) (now : ℤ) (query : Authorization) (state : State) :
    Except String Unit := do
  let client ← context (state.clients[query.clientId]?.filter (·.expires > now)) "invalid_client"
  ensure (client.redirectUris.contains query.redirectUri && query.responseType == "code" &&
      query.resource == resource && query.codeChallengeMethod == "S256" &&
      query.codeChallenge.utf8ByteSize == 43 &&
      (crypto.decode query.codeChallenge).any (·.length == 32) && query.state != "" &&
      ! foreignScope query.scope)
    "invalid_request"

section
variable (now : ℤ)

/-- `start_login`; the state and the value of the cookie are from `random`. -/
def startLogin (state browser : String) (request : Option Authorization) :
    InPlace (Std.TreeMap String Pending) Unit := do
  .update (·.filter fun _ login ↦ login.expires > now)
  let count ← .look fun pending ↦ .ok pending.size
  .check (ensure (count < maxPending) "temporarily_unavailable")
  .update (·.insert (crypto.digest state) ⟨request, crypto.digest browser, now + loginSeconds⟩)

/-- `callback` before it asks the provider. -/
def takePending (query : Callback) (browser : String) :
    InPlace (Std.TreeMap String Pending) Pending := do
  let key := crypto.digest query.state
  let login ← .look fun pending ↦ context (pending[key]?.filter fun login ↦
    login.expires > now && login.browser == crypto.digest browser) "invalid_request"
  .update (·.erase key)
  .check (ensure (query.error.isNone && query.code.isSome) "access_denied")
  return login

/-- `callback` when it answers with a code, which is from `random`. -/
def putCode (code : String) (request : Authorization) (principal : String) :
    InPlace (Std.TreeMap String Code) Unit := do
  .update (·.filter fun _ grant ↦ grant.expires > now)
  let count ← .look fun codes ↦ .ok codes.size
  .check (ensure (count < maxPending) "temporarily_unavailable")
  .update (·.insert (crypto.digest code) ⟨request, principal, now + 60⟩)

/-- The verifier has 43 to 128 unreserved characters. -/
def validVerifier (verifier : String) : Bool :=
  43 ≤ verifier.utf8ByteSize && verifier.utf8ByteSize ≤ 128 &&
    verifier.toList.all fun c ↦ c.isAlphanum || "-._~".toList.contains c

/-- The request repeats what the code was granted for. -/
def CodeRequest.fits (request : CodeRequest) (grant : Code) : Bool :=
  grant.expires > now && grant.request.clientId == request.clientId &&
    grant.request.redirectUri == request.redirectUri &&
    grant.request.resource == request.resource && validVerifier request.codeVerifier &&
    crypto.digest request.codeVerifier == grant.request.codeChallenge

/-- `token` for a code, before it issues. -/
def takeCode (request : CodeRequest) : InPlace (Std.TreeMap String Code) Code := do
  let key := crypto.digest request.code
  let grant ← .look fun codes ↦ context codes[key]? "invalid_grant"
  .update (·.erase key)
  .check (ensure (request.fits crypto now grant) "invalid_grant")
  return grant

end

/-- The random values of a new pair of tokens. -/
structure TokenDraw where
  access : String
  refresh : String

/-- `issue`; the id of the session is from `random`. -/
def issue (now : ℤ) (draw : TokenDraw) (id principal : String) (client : Option String)
    (state : State) : Except String State := do
  let sessions := state.sessions.filter fun _ session ↦ session.expires > now
  ensure ((values sessions).countP (·.principal == principal) < 64)
    "too many sessions; log out on another device"
  let session : Session :=
    { principal, client, access := crypto.digest draw.access
      refresh := client.map fun _ ↦ crypto.digest draw.refresh
      accessExpires := now + if client.isSome then accessSeconds else sessionSeconds
      expires := now + sessionSeconds }
  return { state with sessions := sessions.insert id session }

/-- The session that a refresh token is for. -/
def refreshable (resource : String) (config : AuthConfig) (now : ℤ) (request : RefreshRequest)
    (state : State) : Except String (String × Session) := do
  ensure (request.resource == resource && ! request.scope.any foreignScope) "invalid_grant"
  let entry ← context (state.sessions.toList.find? fun entry ↦
    entry.2.refresh == some (crypto.digest request.refreshToken) &&
      entry.2.client == some request.clientId && entry.2.expires > now) "invalid_grant"
  let principal ← context state.principals[entry.2.principal]? "invalid_grant"
  ensure (config.admitted principal.email) "invalid_grant"
  return entry

/-- The session with new tokens. -/
def Session.rotate (now : ℤ) (draw : TokenDraw) (session : Session) : Session :=
  { session with
    access := crypto.digest draw.access
    refresh := some (crypto.digest draw.refresh)
    accessExpires := now + accessSeconds }

/-- `sessions.retain`. -/
def State.retainSessions (keep : Session → Bool) (state : State) : State :=
  { state with sessions := state.sessions.filter fun _ session ↦ keep session }

/-- The session is not one of the client with this token. -/
def Revocation.keeps (revocation : Revocation) (session : Session) : Bool :=
  session.client != some revocation.clientId ||
    session.access != crypto.digest revocation.token &&
      session.refresh != some (crypto.digest revocation.token)

/-- The token of a request. -/
def HttpRequest.token (origin : String) (request : HttpRequest) : Except String String := do
  ensure (request.bearer.isSome || request.safe ||
    request.origin == some origin && request.csrf == some "1") "invalid browser request origin"
  context (request.bearer.or request.cookie) "authentication required"

/-- The first half of `authenticate`: the session of a token. -/
def findSession (now : ℤ) (token : String) (state : State) : Except String String :=
  context ((state.sessions.toList.find? fun entry ↦
      entry.2.access == crypto.digest token && entry.2.accessExpires > now).map Prod.fst)
    "access token expired or revoked"

/-- The second half of `authenticate`. -/
def sessionPrincipal (config : AuthConfig) (now : ℤ) (id : String) (state : State) :
    Except String String := do
  let session ← context (state.sessions[id]?.filter (·.expires > now)) "session expired or revoked"
  let principal ← context state.principals[session.principal]? "identity missing"
  ensure (config.admitted principal.email) "identity admission has been removed"
  return principal.id

end Exo.Remote
