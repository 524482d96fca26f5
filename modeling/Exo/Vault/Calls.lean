import Mathlib.Logic.Function.Basic
import Exo.Library.System
import Exo.Vault.Storage

/-!
# Calls on a vault store

Any number of handles and processes share one store.  Every call is cut into its accesses of the
catalog, which are atomic; the accesses of different calls interleave.  A refresh waits for the refresh
lock, reads the secret, asks the token endpoint, and writes if the secret has changed; it holds the lock
to its end.  Clocks, the answers of the endpoint and what the file system refuses come with the steps.
-/

namespace Exo.Vault

open Library Egress

/-- What a token endpoint answers. -/
structure TokenResponse where
  accessToken : String
  refreshToken : Option String
  expiresIn : Option ℕ
  scopes : Option (List String)

/-- What the rest of the world contributes to a step. -/
structure Environment where
  fault : Option Fault := none
  nonce : ℕ := 0
  /-- Seconds since the epoch. -/
  now : ℕ := 0
  /-- Seconds of the monotonic clock. -/
  instant : ℕ := 0
  /-- `github_cli_token`. -/
  githubToken : Except String String := .error "GitHub CLI is missing"
  tokenResponse : Except String TokenResponse := .error "OAuth token refresh failed"

variable (lib : Libraries)

/-- `oauth::needs_refresh`. -/
def needsRefresh (now : ℕ) : Secret → Bool
  | .oauth _ _ (some expiresAt) _ => expiresAt ≤ Scheduler.saturatingAdd now 60
  | _ => false

/-- The configuration and the refresh token that `oauth::refresh` sends. -/
def oauthRequest : Secret → Except String (OAuthRefresh × String)
  | .oauth _ refreshToken _ refresh => do
    let config ← context refresh
      "OAuth refresh credentials are missing; re-authorize this credential"
    let refreshToken ← context refreshToken
      "OAuth refresh credentials are missing; re-authorize this credential"
    ensure (lib.parseUrl config.tokenEndpoint).isSome "invalid OAuth token endpoint"
    return (config, refreshToken)
  | _ => .error "credential is not an OAuth grant"

/-- The secret that `oauth::refresh` makes of the answer. -/
def oauthSecret (config : OAuthRefresh) (refreshToken : String) (receivedAt : ℕ)
    (response : TokenResponse) : Secret :=
  .oauth response.accessToken (some (response.refreshToken.getD refreshToken))
    (response.expiresIn.map (Scheduler.saturatingAdd receivedAt))
    (some { config with scopes := response.scopes.getD config.scopes })

/-- Whether there is something to send for the secret. -/
def sendable (secret : Secret) : Except String Unit :=
  if secret.isGithubCli then return ()
  else do
    let _ ← oauthRequest lib secret
    return ()

/-- The secret after the exchange. -/
def exchanged (env : Environment) (sentAt : ℕ) : Secret → Except String Secret
  | .githubCli _ account => do
    let value ← env.githubToken
    return .githubCli value account
  | secret => do
    let (config, refreshToken) ← oauthRequest lib secret
    let response ← env.tokenResponse
    return oauthSecret config refreshToken sentAt response

/-- An entry of `github_checked`. -/
structure Checked where
  id : SecretId
  revision : ℕ
  instant : ℕ

def githubCacheTtl : ℕ := 24 * 60 * 60

section
variable (checked : List Checked) (instant : ℕ) (id : SecretId) (revision : ℕ)

def githubCacheFresh : Bool :=
  (checked.find? (·.id = id)).any fun entry ↦
    entry.revision == revision && instant - entry.instant < githubCacheTtl

def remember : List Checked :=
  ⟨id, revision, instant⟩ ::
    checked.filter fun entry ↦ instant - entry.instant < githubCacheTtl && entry.id != id

end

inductive Call where
  | globalVault
  | createVault (name : String)
  | deleteVault (vaultId : VaultId)
  | putSecret (vaultId : VaultId) (request : PutSecretRequest)
  | updateSecret (vaultId : VaultId) (id : SecretId) (request : UpdateSecretRequest)
  | deleteSecret (vaultId : VaultId) (id : SecretId)
  | resolveSecret (vaultId : VaultId) (id : SecretId) (target : CredentialDestination)
  | refreshSecret (vaultId : VaultId) (id : SecretId) (target : CredentialDestination)
      (rejectedRevision : ℕ)

inductive Answer where
  | unit
  | vault (record : VaultRecord)
  | secretId (id : SecretId)
  | metadata (metadata : SecretMetadata)
  | resolved (resolved : ResolvedSecret)

/-- The arguments of `refresh`. -/
structure Refresh where
  vaultId : VaultId
  id : SecretId
  target : CredentialDestination
  rejectedRevision : ℕ
  force : Bool

/-- How far a refresh has come. -/
inductive Stage where
  /-- `refresh_guard`. -/
  | lock
  | read
  /-- The exchange is under way. -/
  | exchange (resolved : ResolvedSecret) (sentAt : ℕ)
  /-- The secret has not changed. -/
  | reread (resolved : ResolvedSecret)
  | write (resolved : ResolvedSecret) (secret : Secret)
  /-- Entering a GitHub credential in the cache. -/
  | remember (resolved : ResolvedSecret)

/-- How far a call has come.  An abandoned call has returned nothing. -/
inductive Phase where
  | start
  /-- The second access of `global_vault`. -/
  | create
  | refresh (refresh : Refresh) (stage : Stage)
  | finished (result : Except String Answer)
  | abandoned

def finishedWith {α : Type} (answer : α → Answer) : Except String α → Phase
  | .ok value => .finished (.ok (answer value))
  | .error message => .finished (.error message)

/-- The access that a step makes, and how the call goes on. -/
inductive Action (Encrypted : Type) : Type 1 where
  | none (phase : Phase)
  | read {α : Type} (operation : InPlace (Catalog Encrypted) α) (next : Except String α → Phase)
  | write {α : Type} (operation : InPlace (Catalog Encrypted) α) (next : Except String α → Phase)

variable {Encrypted Data : Type} (cipher : SecretCipher Encrypted Data)

def afterFind : Except String (Option VaultRecord) → Phase
  | .ok (some record) => .finished (.ok (.vault record))
  | .ok none => .create
  | .error message => .finished (.error message)

section
variable (env : Environment)

/-- Whether `resolve_credentials` refreshes the secret it has read. -/
def isStale (checked : List Checked) (id : SecretId)
    (resolved : ResolvedSecret) : Bool :=
  match resolved.secret with
  | .githubCli .. => ! githubCacheFresh checked env.instant id resolved.revision
  | secret => needsRefresh env.now secret

/-- `resolve_credentials` after its access. -/
def afterResolve (checked : List Checked) (vaultId : VaultId) (id : SecretId)
    (target : CredentialDestination) : Except String ResolvedSecret → Phase
  | .error message => .finished (.error message)
  | .ok resolved =>
    if isStale env checked id resolved then
      .refresh ⟨vaultId, id, target, resolved.revision, false⟩ .lock
    else .finished (.ok (.resolved resolved))

/-- The first access of a call. -/
def Call.start (draw : Draw) (checked : List Checked) : Call → Action Encrypted
  | .globalVault => .read findGlobal afterFind
  | .createVault name => .write (Vault.createVault draw name) (finishedWith .vault)
  | .deleteVault vaultId => .write (Vault.deleteVault vaultId) (finishedWith fun _ ↦ .unit)
  | .putSecret vaultId request =>
    .write (Vault.putSecret lib cipher draw vaultId request) (finishedWith .secretId)
  | .updateSecret vaultId id request =>
    if request.secret.isSome || request.policy.isSome then
      .write (Vault.updateSecret lib cipher draw vaultId id request) (finishedWith .metadata)
    else .none (.finished (.error "provide a secret value or destination to update"))
  | .deleteSecret vaultId id => .write (Vault.deleteSecret vaultId id) (finishedWith fun _ ↦ .unit)
  | .resolveSecret vaultId id target =>
    .read (readForDestination lib cipher vaultId id target) (afterResolve env checked vaultId id target)
  | .refreshSecret vaultId id target rejectedRevision =>
    .none (.refresh ⟨vaultId, id, target, rejectedRevision, true⟩ .lock)

end

section
variable (refresh : Refresh)

/-- `refresh` after it has read the secret. -/
def Refresh.afterRead (env : Environment) (checked : List Checked) :
    Except String ResolvedSecret → Phase
  | .error message => .finished (.error message)
  | .ok resolved =>
    if resolved.revision != refresh.rejectedRevision ||
        resolved.secret.isGithubCli && ! refresh.force &&
          githubCacheFresh checked env.instant refresh.id resolved.revision then
      .finished (.ok (.resolved resolved))
    else
      match sendable lib resolved.secret with
      | .error message => .finished (.error message)
      | .ok () => .refresh refresh (.exchange resolved env.now)

section
variable (resolved : ResolvedSecret)

/-- `refresh` after the exchange. -/
def Refresh.afterExchange : Except String Secret → Phase
  | .error message => .finished (.error message)
  | .ok secret =>
    if secret = resolved.secret then .refresh refresh (.reread resolved)
    else .refresh refresh (.write resolved secret)

/-- The end of a refresh, which enters a GitHub credential in the cache. -/
def Refresh.conclude (github : Bool) (resolved : ResolvedSecret) : Phase :=
  if github then .refresh refresh (.remember resolved) else .finished (.ok (.resolved resolved))

def Refresh.afterReread : Except String ResolvedSecret → Phase
  | .error message => .finished (.error message)
  | .ok current =>
    if current.revision ≠ resolved.revision then .finished (.ok (.resolved current))
    else refresh.conclude resolved.secret.isGithubCli current

def Refresh.afterWrite : Except String ResolvedSecret → Phase
  | .error message => .finished (.error message)
  | .ok written => refresh.conclude resolved.secret.isGithubCli written

end

def Refresh.action (env : Environment) (draw : Draw) (checked : List Checked) :
    Stage → Action Encrypted
  | .lock => .none (.refresh refresh .read)
  | .read =>
    .read (readForDestination lib cipher refresh.vaultId refresh.id refresh.target)
      (refresh.afterRead lib env checked)
  | .exchange resolved sentAt =>
    .none (refresh.afterExchange resolved (exchanged lib env sentAt resolved.secret))
  | .reread resolved =>
    .read (readForDestination lib cipher refresh.vaultId refresh.id refresh.target)
      (refresh.afterReread resolved)
  | .write resolved secret =>
    .write (storeRefreshed lib cipher draw refresh.vaultId refresh.id resolved.revision secret)
      (refresh.afterWrite resolved)
  | .remember resolved => .none (.finished (.ok (.resolved resolved)))

end

/-- A call, and the process that makes it. -/
structure Task where
  process : ℕ
  call : Call
  phase : Phase

def Task.action (task : Task) (env : Environment) (draw : Draw) (checked : List Checked) :
    Action Encrypted :=
  match task.phase with
  | .start => task.call.start lib cipher env draw checked
  | .create => .write (createGlobal draw) (finishedWith .vault)
  | .refresh refresh stage => refresh.action lib cipher env draw checked stage
  | .finished result => .none (.finished result)
  | .abandoned => .none .abandoned

def Action.run (env : Environment) (storage : Storage Encrypted) :
    Action Encrypted → Phase × Storage Encrypted
  | .none phase => (phase, storage)
  | .read operation next =>
    let (result, storage) := access lib cipher env.fault env.nonce false operation storage
    (next result, storage)
  | .write operation next =>
    let (result, storage) := access lib cipher env.fault env.nonce true operation storage
    (next result, storage)

/-- A store, the refresh lock, the caches of the processes, and the calls made so far. -/
structure Vaults (Encrypted : Type) where
  storage : Storage Encrypted
  /-- The next `Uuid7::now`. -/
  nextId : ℕ := 0
  /-- The call that holds the refresh lock. -/
  lock : Option ℕ := none
  checked : ℕ → List Checked := fun _ ↦ []
  tasks : List Task := []

def Phase.isRunning : Phase → Bool
  | .finished _ => false
  | .abandoned => false
  | _ => true

def Phase.isWaiting : Phase → Bool
  | .refresh _ .lock => true
  | _ => false

/-- The call holds the refresh lock. -/
def Phase.isLocked : Phase → Bool
  | .refresh _ .lock => false
  | .refresh _ _ => true
  | _ => false

inductive Label where
  | call (process : ℕ) (call : Call)
  | step (task : ℕ) (env : Environment)
  /-- The refresh lock was not to be had within a minute, or its file could not be opened. -/
  | lockFails (task : ℕ) (message : String)
  /-- The process of the call ends. -/
  | abandon (task : ℕ)

namespace Vaults

variable (vaults : Vaults Encrypted)

def isMemory : Bool :=
  match vaults.storage with
  | .memory _ => true
  | .file _ => false

def enabled : Label → Prop
  /- A store in memory belongs to one process. -/
  | .call process _ => vaults.isMemory → process = 0
  | .step i _ => (vaults.tasks[i]?).any fun task ↦
      task.phase.isRunning && (! task.phase.isWaiting || vaults.lock.isNone)
  | .lockFails i _ => (vaults.tasks[i]?).any fun task ↦ task.phase.isWaiting
  | .abandon i => (vaults.tasks[i]?).any fun task ↦ task.phase.isRunning

instance (label : Label) : Decidable (vaults.enabled label) := by
  cases label <;> unfold enabled <;> infer_instance

/-- The holder of the refresh lock when a call is in a new phase. -/
def lockAfter (i : ℕ) (phase : Phase) : Option ℕ :=
  if phase.isLocked then some i else if vaults.lock = some i then none else vaults.lock

/-- The call goes on in a phase; a call that ends drops the lock. -/
def proceed (i : ℕ) (task : Task) (phase : Phase) : Vaults Encrypted :=
  { vaults with
    lock := vaults.lockAfter i phase, tasks := vaults.tasks.set i { task with phase } }

/-- The cache after a step. -/
def checkedAfter (task : Task) (env : Environment) : ℕ → List Checked :=
  match task.phase with
  | .refresh refresh (.remember resolved) =>
    Function.update vaults.checked task.process
      (remember (vaults.checked task.process) env.instant refresh.id resolved.revision)
  | _ => vaults.checked

def draw (env : Environment) : Draw := ⟨vaults.nextId, env.now, env.nonce⟩

/-- The phase and the storage after a step. -/
def run (task : Task) (env : Environment) : Phase × Storage Encrypted :=
  (task.action lib cipher env (vaults.draw env) (vaults.checked task.process)).run lib cipher env
    vaults.storage

def step (i : ℕ) (task : Task) (env : Environment) : Vaults Encrypted :=
  let (phase, storage) := vaults.run lib cipher task env
  { vaults.proceed i task phase with
    storage, nextId := vaults.nextId + 1, checked := vaults.checkedAfter task env }

def next : Label → Vaults Encrypted
  | .call process call => { vaults with tasks := vaults.tasks ++ [⟨process, call, .start⟩] }
  | .step i env =>
    match vaults.tasks[i]? with
    | some task => vaults.step lib cipher i task env
    | none => vaults
  | .lockFails i message =>
    match vaults.tasks[i]? with
    | some task => vaults.proceed i task (.finished (.error message))
    | none => vaults
  | .abandon i =>
    match vaults.tasks[i]? with
    | some task => vaults.proceed i task .abandoned
    | none => vaults

def system : System (Vaults Encrypted) Label := ⟨enabled, next lib cipher⟩

instance (label : Label) : Decidable ((system lib cipher).enabled vaults label) :=
  inferInstanceAs (Decidable (vaults.enabled label))

end Vaults

/-- A store that was just created. -/
inductive Storage.New : Storage Encrypted → Prop where
  | file : New (.file none)
  | memory : New (.memory {})

end Exo.Vault
