import Exo.Egress.Proxy
import Exo.Library.UpdateFirst
import Exo.Vault.Secrets

/-!
# The egress policy of a sandbox

The policy of the environment is taken, and three passes add credential bindings to it: for the Git
resources of the conversation, for the model endpoint, and for the selected MCP servers.  A pass may
find a binding for its variable that is there already, and then uses it.
-/

namespace Exo.Policy

open Library Egress Storage Vault

structure SecretReference where
  vaultId : VaultId
  secretId : SecretId
  deriving DecidableEq

structure VaultHandle where
  id : VaultId
  listSecrets : Except String (List SecretMetadata)

/-- `VaultContext`: the vaults that a conversation sees. -/
structure VaultContext where
  listVaults : Except String (List VaultHandle)

/-- `Display` of an id. -/
def idText (id : ℕ) : String := .ofList (uuidText.text (Fin.ofNat (2 ^ 128) id))

/-- `FromStr` of an id. -/
def parseId (text : String) : Option ℕ := (uuidText.parse text.toList).map (·.val)

section
variable (conversation : VaultContext)

def findSecret (reference : String) : Except String (Option SecretReference) := do
  let vaults ← conversation.listVaults
  let secrets ← vaults.mapM (·.listSecrets)
  let matching (secret : SecretMetadata) : Bool :=
    match parseId reference with
    | some id => secret.id == id
    | none => secret.name == reference
  return (vaults.zip secrets).reverse.findSome? fun (vault, secrets) ↦
    (secrets.find? matching).map fun secret ↦ ⟨vault.id, secret.id⟩

def requireVault (id : VaultId) : Except String VaultHandle := do
  let vaults ← conversation.listVaults
  context (vaults.find? (·.id == id)) ("vault " ++ idText id ++ " is unavailable")

def credentialPolicy (reference : SecretReference) : Except String CredentialPolicy := do
  let vault ← requireVault conversation reference.vaultId
  let secrets ← vault.listSecrets
  let secret ← context (secrets.find? (·.id == reference.secretId)) "credential is unavailable"
  context secret.policy ("credential has no permitted destinations; set its policy with " ++
    "--allow-origin, --allow-url, or --policy")

end

variable (lib : Libraries)

def forDestination (policy : CredentialPolicy) (destination : CredentialDestination) :
    Except String CredentialPolicy := do
  ensure (policy.permits lib destination)
    ("credential policy does not permit " ++ destination.asStr)
  return .destinations [destination]

/-- `CredentialPolicy::binding`. -/
def bind (policy : CredentialPolicy) (name environmentVariable : String) :
    EgressCredentialBinding :=
  ⟨name, environmentVariable, policy.networking, policy.header⟩

/-- The policy that a binding stands for. -/
def bindingPolicy (binding : EgressCredentialBinding) : CredentialPolicy :=
  ⟨binding.networking, binding.header⟩

inductive ResourceSource where
  | directory
  | gitRepository (url credential : Option String)

structure PreparedResource where
  name : String
  source : ResourceSource

def PreparedResource.isGit (resource : PreparedResource) : Bool :=
  match resource.source with
  | .gitRepository .. => true
  | .directory => false

/-- Two lower-case hexadecimal digits for each byte. -/
def hexBytes (bytes : Bytes) : List Char := bytes.flatMap fun byte ↦ paddedHex 2 byte.toNat

def PreparedResource.gitCredentialVariable (resource : PreparedResource) : String :=
  "EXO_GIT_" ++ .ofList (hexBytes (bytesOf resource.name))

/-- `credential_variable` of the MCP types. -/
def credentialVariable (id : SecretId) : String :=
  "EXO_MCP_" ++ .ofList ((idText id).toList.map fun c ↦ if c = '-' then '_' else c)

structure McpCredentialBinding where
  serverName : String
  target : CredentialDestination
  secret : Option SecretReference

structure Environment where
  policy : Option EgressPolicy
  enableNetworking : Option Bool

structure ConversationConfig where
  environment : Option Environment
  egressPolicy : Option EgressPolicy
  resources : List PreparedResource

structure AgentConfig where
  /-- `typescript.module_path`. -/
  modulePath : Option String
  model : String
  baseUrl : Option String
  credential : Option String
  /-- `sandbox.enable_networking`. -/
  enableNetworking : Bool

def networkingEnabled (policy : EgressPolicy) : Bool := policy.networking != .disabled

/-- `Path::file_name`. -/
def fileName (path : String) : Option String :=
  match ((path.toList.splitOn '/').filter fun part ↦ part != [] && part != ['.']).getLast? with
  | some part => if part = ['.', '.'] then none else some (.ofList part)
  | none => none

def AgentConfig.module (config : AgentConfig) : Option String := config.modulePath.bind fileName

/-- The provider in the name of a Pi model. -/
def piProvider (model : String) : String :=
  if model.toList.contains '/' then .ofList (model.toList.takeWhile (· != '/')) else "openai"

def sandboxModelCredentialVariable (config : AgentConfig) : Except String (Option String) :=
  match config.module with
  | some "codex-harness.ts" => return some "OPENAI_API_KEY"
  | some "claude-code-harness.ts" => return some "ANTHROPIC_API_KEY"
  | some "pi-harness.ts" =>
    match piProvider config.model with
    | "openai" => return some "OPENAI_API_KEY"
    | "anthropic" => return some "ANTHROPIC_API_KEY"
    | "google" => return some "GEMINI_API_KEY"
    | provider => .error ("Pi API-key credentials are not configured for provider " ++ provider)
  | _ => return none

def defaultModelUrl (environmentVariable : String) : Except String String :=
  match environmentVariable with
  | "OPENAI_API_KEY" => return "https://api.openai.com/v1"
  | "ANTHROPIC_API_KEY" => return "https://api.anthropic.com"
  | "GEMINI_API_KEY" => return "https://generativelanguage.googleapis.com"
  | _ => .error ("unsupported sandbox model credential variable: " ++ environmentVariable)

def modelEndpoint (baseUrl : Option String) (environmentVariable : String) : Except String Url := do
  let defaultUrl ← defaultModelUrl environmentVariable
  let url ← context (lib.parseUrl (baseUrl.getD defaultUrl)) "invalid URL"
  ensure (url.scheme == "https" && url.hostStr.isSome && url.port == some 443 &&
      url.username.isEmpty && url.password.isNone && url.query.isNone && url.fragment.isNone)
    "sandbox model credentials require an HTTPS model endpoint on port 443"
  return url

/-- The host passes the network policy. -/
def hostAllowed (networking : SandboxNetworkPolicy) (host : String) : Bool :=
  match networking with
  | .limited allowedHosts =>
    allowedHosts.any fun allowed ↦ toAsciiLowercase allowed == toAsciiLowercase host
  | _ => true

section
variable (policy : EgressPolicy)

def ensureHostAllowed (host what : String) : Except String Unit :=
  ensure (hostAllowed policy.networking host)
    (what ++ " " ++ host ++ " is not allowed by the environment network policy")

def pushBinding (binding : EgressCredentialBinding) : EgressPolicy :=
  { policy with credentials := policy.credentials ++ [binding] }

def findBinding (envVariable : String) : Option EgressCredentialBinding :=
  policy.credentials.find? (·.environmentVariable == envVariable)

end

section
variable (conversation : VaultContext)

/-- The secret of a Git resource. -/
def resourceReference (resource : PreparedResource) : Except String (Option SecretReference) :=
  match resource.source with
  | .gitRepository _ (some name) => do
    let reference ← context (← findSecret conversation name)
      ("Git resource credential " ++ name ++ " is not in the selected vaults")
    return some reference
  | _ => return none

def githubApi : String := "https://api.github.com"

/-- The automatic `GH_TOKEN` of a resource at GitHub. -/
def addGithubToken (credentialPolicy : CredentialPolicy) (githubApi : CredentialDestination)
    (reference : SecretReference) (policy : EgressPolicy) : Except String EgressPolicy := do
  ensureHostAllowed policy "api.github.com" "GitHub API host"
  match findBinding policy "GH_TOKEN" with
  | some existing => do
    ensure (existing.name == idText reference.secretId)
      "GitHub resources must share a credential for automatic GH_TOKEN selection"
    return policy
  | none => do
    let granted ← forDestination lib credentialPolicy githubApi
    return pushBinding policy (bind granted (idText reference.secretId) "GH_TOKEN")

/-- The host is GitHub and the credential may travel to its API. -/
def addGithubAccess (host : String) (credentialPolicy : CredentialPolicy)
    (githubApi : CredentialDestination) (reference : SecretReference) (policy : EgressPolicy) :
    Except String EgressPolicy :=
  if host == "github.com" && credentialPolicy.permits lib githubApi then
    addGithubToken lib credentialPolicy githubApi reference policy
  else return policy

/-- One round for a resource that has a URL and a credential. -/
def addGitResource (resource : PreparedResource) (url : String)
    (reference : SecretReference) (policy : EgressPolicy) : Except String EgressPolicy := do
  let endpoint ← context (lib.parseUrl url) "invalid URL"
  ensure (endpoint.scheme == "https" && endpoint.port == some 443)
    "sandbox Git credentials require HTTPS on port 443"
  let host ← context endpoint.hostStr "Git resource URL has no host"
  let credentialPolicy ← credentialPolicy conversation reference
  let target ← CredentialDestination.ofOrigin lib endpoint.origin
  let gitPolicy ← forDestination lib credentialPolicy target
  let githubApi ← CredentialDestination.ofOrigin lib githubApi
  ensure (networkingEnabled policy) "Git credentials require sandbox networking"
  ensureHostAllowed policy host "Git resource host"
  let policy ← addGithubAccess lib host credentialPolicy githubApi reference policy
  return pushBinding policy
    (bind gitPolicy (idText reference.secretId) resource.gitCredentialVariable)

/-- The loop over the resources; it has a policy where it has a Git resource. -/
def addGitResources (conversation : VaultContext) :
    List (PreparedResource × Option SecretReference) → EgressPolicy → Except String EgressPolicy
  | [], policy => return policy
  | (resource, reference) :: rest, policy =>
    match resource.source, reference with
    | .gitRepository (some url) (some _), some reference => do
      let policy ← addGitResource lib conversation resource url reference policy
      addGitResources conversation rest policy
    | _, _ => addGitResources conversation rest policy

def addGitResourceBindings (config : ConversationConfig)
    (configured : Option EgressPolicy) (defaultPolicy : EgressPolicy) :
    Except String (Option EgressPolicy) := do
  let credentials ← config.resources.mapM (resourceReference conversation)
  if config.resources.any PreparedResource.isGit then
    return some (← addGitResources lib conversation (config.resources.zip credentials)
      (configured.getD defaultPolicy))
  else return configured

def modelCredential (config : AgentConfig) : Except String SecretReference := do
  let name ← context config.credential
    "agent config.credential must name a credential in a selected vault"
  context (← findSecret conversation name)
    ("model credential " ++ reprStr name ++ " was not found in the selected vaults")

/-- A binding that is there is given the id of the model credential, if it is that credential. -/
def useModelBinding (envVariable : String)
    (reference : SecretReference) (target : CredentialDestination)
    (existing : EgressCredentialBinding) (policy : EgressPolicy) :
    Except String EgressPolicy := do
  let selected ← findSecret conversation existing.name
  ensure (selected == some reference && existing.header && existing.networking.permits lib target)
    ("environment credential " ++ envVariable ++ " conflicts with the model credential")
  return { policy with
    credentials := updateFirst (·.environmentVariable == envVariable)
      (fun binding ↦ { binding with name := idText reference.secretId }) policy.credentials }

def addModelBinding (agentConfig : AgentConfig) (envVariable : String)
    (configured : Option EgressPolicy) (defaultPolicy : EgressPolicy) :
    Except String EgressPolicy := do
  let reference ← modelCredential conversation agentConfig
  let endpoint ← modelEndpoint lib agentConfig.baseUrl envVariable
  let host ← context endpoint.hostStr "validated model endpoint"
  let target ← CredentialDestination.ofOrigin lib endpoint.origin
  let stored ← credentialPolicy conversation reference
  let granted ← forDestination lib stored target
  let policy := configured.getD defaultPolicy
  ensure (networkingEnabled policy) "sandbox models require networking"
  ensureHostAllowed policy host "model endpoint"
  match findBinding policy envVariable with
  | some existing => useModelBinding lib conversation envVariable reference target existing policy
  | none => return pushBinding policy (bind granted (idText reference.secretId) envVariable)

/-- The binding for a server that has a secret. -/
def addServerSecret (serverName serverUrl : String) (endpoint : Url)
    (secret : SecretReference) (policy : EgressPolicy) : Except String EgressPolicy := do
  ensure (endpoint.scheme == "https" && endpoint.port == some 443)
    "sandbox MCP credentials require HTTPS on port 443"
  match findBinding policy (credentialVariable secret.secretId) with
  | some existing => do
    ensure (existing.name == idText secret.secretId)
      ("environment credential conflicts with MCP server " ++ serverName)
    return policy
  | none => do
    let stored ← credentialPolicy conversation secret
    let target ← CredentialDestination.ofUrl lib serverUrl
    let granted ← forDestination lib stored target
    return pushBinding policy
      (bind granted (idText secret.secretId) (credentialVariable secret.secretId))

/-- One round for a selected server. -/
def addServer (selected : McpCredentialBinding)
    (policy : EgressPolicy) : Except String EgressPolicy :=
  match selected.target with
  | .origin _ => .error "expected MCP destination"
  | .url serverUrl => do
    let endpoint ← context (lib.parseUrl serverUrl) "invalid URL"
    let host ← context endpoint.hostStr "MCP endpoint has no host"
    ensureHostAllowed policy host "MCP endpoint"
    match selected.secret with
    | none => return policy
    | some secret =>
      addServerSecret lib conversation selected.serverName serverUrl endpoint secret policy

def addServers (conversation : VaultContext) :
    List McpCredentialBinding → EgressPolicy → Except String EgressPolicy
  | [], policy => return policy
  | selected :: rest, policy => do
    let policy ← addServer lib conversation selected policy
    addServers conversation rest policy

/-- The bindings of the saved selection. -/
def addNativeMcpBindings
    (selection : Option (List McpCredentialBinding)) (configured : Option EgressPolicy)
    (defaultPolicy : EgressPolicy) : Except String (Option EgressPolicy) :=
  match selection with
  | none => return configured
  | some [] => return configured
  | some bindings => do
    ensure (networkingEnabled (configured.getD defaultPolicy))
      "native MCP requires sandbox networking"
    return some (← addServers lib conversation bindings (configured.getD defaultPolicy))

end

/-- The policy that the passes start from. -/
def configuredPolicy (config : ConversationConfig) : Option EgressPolicy :=
  (config.environment.bind (·.policy)).or config.egressPolicy

def defaultPolicy (agentConfig : AgentConfig) (config : ConversationConfig) : EgressPolicy :=
  let enabled := (config.environment.bind fun environment ↦
    (environment.policy.map networkingEnabled).or environment.enableNetworking).getD
      agentConfig.enableNetworking
  ⟨if enabled then .unrestricted else .disabled, none, []⟩

def isNative (agentConfig : AgentConfig) : Bool :=
  agentConfig.module == some "codex-harness.ts" ||
    agentConfig.module == some "claude-code-harness.ts"

/-- The pass for the model, if the agent has a variable for it. -/
def addModel (conversation : VaultContext) (agentConfig : AgentConfig)
    (configured : Option EgressPolicy) (defaultPolicy : EgressPolicy) :
    Option String → Except String (Option EgressPolicy)
  | some envVariable => do
    return some (←
      addModelBinding lib conversation agentConfig envVariable configured defaultPolicy)
  | none => return configured

/-- `selection` is what `load_selection` answers. -/
def sandboxPolicy (conversation : VaultContext)
    (selection : Except String (Option (List McpCredentialBinding))) (agentConfig : AgentConfig)
    (config : ConversationConfig) : Except String (Option EgressPolicy) := do
  let default := defaultPolicy agentConfig config
  let configured ← addGitResourceBindings lib conversation config (configuredPolicy config) default
  let envVariable ← sandboxModelCredentialVariable agentConfig
  let configured ← addModel lib conversation agentConfig configured default envVariable
  if isNative agentConfig then do
    let selection ← selection
    addNativeMcpBindings lib conversation selection configured default
  else return configured

end Exo.Policy
