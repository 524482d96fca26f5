import Exo.Policy.SandboxPolicy

/-!
# Bindings and their JSON

A stored binding is decoded without a tag that tells its version: the current version is tried first,
the legacy version after it.  Both refuse unknown fields, so that the field of a secret tells the two
apart.  Each version of a binding is written with all its fields.
-/

namespace Exo.Migration

open Library Vault List

/-- A string that is an id is kept as the id. -/
inductive Json where
  | null
  | number (value : ℕ)
  | text (value : String)
  | id (value : ℕ)
  | array (items : List Json)
  | object (fields : List (String × Json))

abbrev Fields := List (String × Json)

namespace Json

def asText : Json → Option String
  | text value => some value
  | id value => some (Policy.idText value)
  | _ => none

def asId : Json → Option ℕ
  | id value => some value
  | _ => none

def asNumber : Json → Option ℕ
  | number value => some value
  | _ => none

/-- A positive number of 32 bits. -/
def asNonZero (json : Json) : Option ℕ :=
  json.asNumber.filter fun value ↦ decide (0 < value) && decide (value < 2 ^ 32)

def asTexts : Json → Option (List String)
  | array items => items.mapM asText
  | _ => none

def asFields : Json → Option Fields
  | object fields => some fields
  | _ => none

end Json

namespace Fields

variable {α : Type}

/-- `deny_unknown_fields`; no field is there twice. -/
def known (names : List String) (fields : Fields) : Option Unit :=
  guard ((fields.map Prod.fst).all names.contains && decide (fields.map Prod.fst).Nodup)

section
variable (name : String) (read : Json → Option α)

def required (fields : Fields) : Option α :=
  (fields.lookup name).bind read

/-- A field of type `Option`, which may be missing or null. -/
def optional (fields : Fields) : Option (Option α) :=
  match fields.lookup name with
  | none => some none
  | some .null => some none
  | some json => (read json).map some

/-- `serde(default)`. -/
def withDefault (default : α) (fields : Fields) : Option α :=
  match fields.lookup name with
  | none => some default
  | some json => read json

end

/-- The fields that are not skipped. -/
def encode (fields : List (String × Option Json)) : Fields :=
  fields.filterMap fun (name, json) ↦ json.map (name, ·)

variable {fields : List (String × Option Json)}

theorem mem_names_encode {name : String} (hname : name ∈ (encode fields).map Prod.fst) :
    name ∈ fields.map Prod.fst := by
  obtain ⟨⟨_, json⟩, hmem, rfl⟩ := mem_map.1 hname
  obtain ⟨⟨other, value⟩, hfield, hsome⟩ := mem_filterMap.1 hmem
  obtain ⟨_, _, heq⟩ := Option.map_eq_some_iff.1 hsome
  cases heq
  exact mem_map.2 ⟨_, hfield, rfl⟩

theorem encode_cons (name : String) (json : Option Json) (fields : List (String × Option Json)) :
    encode ((name, json) :: fields) = (json.map (name, ·)).toList ++ encode fields := by
  cases json <;> simp [encode]

theorem nodup_names_encode (hnodup : (fields.map Prod.fst).Nodup) :
    ((encode fields).map Prod.fst).Nodup := by
  induction fields with
  | nil => simp [encode]
  | cons field fields ih =>
    obtain ⟨name, json⟩ := field
    obtain ⟨hname, hrest⟩ := nodup_cons.1 hnodup
    rw [encode_cons]
    cases json with
    | none => exact ih hrest
    | some json => exact nodup_cons.2 ⟨fun hmem ↦ hname (mem_names_encode hmem), ih hrest⟩

theorem lookup_eq_none_of_not_mem {fields : Fields} {name : String}
    (hname : name ∉ fields.map Prod.fst) : fields.lookup name = none := by
  rw [lookup_eq_none_iff]
  intro field hfield
  simpa using fun heq : name = field.1 ↦ hname (heq ▸ mem_map_of_mem hfield)

theorem lookup_encode (hnodup : (fields.map Prod.fst).Nodup) (name : String) :
    (encode fields).lookup name = (fields.lookup name).join := by
  induction fields with
  | nil => rfl
  | cons field fields ih =>
    obtain ⟨other, json⟩ := field
    obtain ⟨hother, hrest⟩ := nodup_cons.1 hnodup
    rw [encode_cons, lookup_cons]
    cases heq : name == other with
    | true =>
      cases json with
      | none =>
        rw [beq_iff_eq.1 heq]
        exact lookup_eq_none_of_not_mem fun hmem ↦ hother (mem_names_encode hmem)
      | some json => simp [lookup_cons, heq]
    | false =>
      cases json with
      | none => simpa using ih hrest
      | some json => simpa [lookup_cons, heq] using ih hrest

theorem known_encode {names : List String} (hnames : fields.map Prod.fst = names)
    (hnodup : names.Nodup) : known names (encode fields) = some () := by
  subst hnames
  have hall : ((encode fields).map Prod.fst).all (fields.map Prod.fst).contains = true := by
    rw [all_eq_true]
    exact fun name hname ↦ contains_iff_mem.2 (mem_names_encode hname)
  rw [known, hall, decide_eq_true (nodup_names_encode hnodup)]
  rfl

section Encoded
variable {fields : List (String × Option Json)} (hnodup : (fields.map Prod.fst).Nodup)

include hnodup

theorem known_encode_self : known (fields.map Prod.fst) (encode fields) = some () :=
  known_encode rfl hnodup

section
variable (name : String) (read : Json → Option α)

theorem required_encode :
    required name read (encode fields) = (fields.lookup name).join.bind read := by
  rw [required, lookup_encode hnodup]

theorem optional_encode : optional name read (encode fields) = match (fields.lookup name).join with
      | none => some none
      | some .null => some none
      | some json => (read json).map some := by
  rw [optional, lookup_encode hnodup]

theorem withDefault_encode (default : α) :
    withDefault name read default (encode fields) = match (fields.lookup name).join with
      | none => some default
      | some json => read json := by
  rw [withDefault, lookup_encode hnodup]

end

end Encoded

end Fields

/-- `SecretReference`, with the vaults given by `V`. -/
structure Reference (V : Type) where
  vault : V
  secret : SecretId

inductive SandboxProviderConfig (V : Type) where
  | docker (defaultImage : String)
  | smolvm (defaultImage : String) (binary bootBinary : Option String)
      (storageGib overlayGib : Option ℕ)
  | firecracker (defaultImage : String)
  | daytona (apiKeySecret : Reference V) (region organizationId apiUrl : Option String)
      (defaultImage : String)
  | vercel (apiTokenSecret : Reference V) (teamId projectId : String) (apiUrl : Option String)
      (defaultImage : String)
  | e2b (apiKeySecret : Reference V) (apiUrl : Option String) (defaultImage : String)
  | sprites (tokenSecret : Reference V) (apiUrl urlAuth organization : Option String)
      (labels : List String)
  | awsAgentCore (runtimeArn region : String)
      (qualifier endpointUrl sessionStorageMountPath : Option String) (defaultImage : String)

inductive Binding (V : Type) where
  | env (name envVar : String) (secret : Reference V)
  | mcp (name serverUrl : String) (secret : Option (Reference V))
  /-- Kept for stores that have it. -/
  | llm (name model : String) (baseUrl : Option String) (secret : Option (Reference V))
  | sandbox (name : String) (config : SandboxProviderConfig V)

def defaultDockerImage : String := "docker.io/library/ubuntu:24.04"
def defaultFirecrackerImage : String := "/var/lib/exo/firecracker/rootfs.ext4"
def defaultDaytonaImage : String := "daytonaio/sandbox:0.8.0"
def defaultVercelImage : String := "node24"
def defaultE2bTemplate : String := "base"
def defaultAwsAgentcoreImage : String := ""

open Fields Json

def Reference.decode (json : Json) : Option (Reference VaultId) := do
  let fields ← json.asFields
  return ⟨← fields.required "vault_id" asId, ← fields.required "secret_id" asId⟩

def Reference.encode (reference : Reference VaultId) : Json :=
  .object [("vault_id", .id reference.vault), ("secret_id", .id reference.secret)]

def encodeTexts (texts : List String) : Json := .array (texts.map text)

def SandboxProviderConfig.decode (json : Json) : Option (SandboxProviderConfig VaultId) := do
  let fields ← json.asFields
  match ← fields.required "provider" asText with
  | "docker" =>
    fields.known ["provider", "default_image"]
    return .docker (← fields.withDefault "default_image" asText defaultDockerImage)
  | "smolvm" =>
    fields.known ["provider", "default_image", "binary", "boot_binary", "storage_gib",
      "overlay_gib"]
    return .smolvm (← fields.withDefault "default_image" asText defaultDockerImage)
      (← fields.optional "binary" asText) (← fields.optional "boot_binary" asText)
      (← fields.optional "storage_gib" asNonZero) (← fields.optional "overlay_gib" asNonZero)
  | "firecracker" =>
    fields.known ["provider", "default_image"]
    return .firecracker (← fields.withDefault "default_image" asText defaultFirecrackerImage)
  | "daytona" =>
    fields.known ["provider", "api_key_secret", "region", "organization_id", "api_url",
      "default_image"]
    return .daytona (← fields.required "api_key_secret" Reference.decode)
      (← fields.optional "region" asText) (← fields.optional "organization_id" asText)
      (← fields.optional "api_url" asText)
      (← fields.withDefault "default_image" asText defaultDaytonaImage)
  | "vercel" =>
    fields.known ["provider", "api_token_secret", "team_id", "project_id", "api_url",
      "default_image"]
    return .vercel (← fields.required "api_token_secret" Reference.decode)
      (← fields.required "team_id" asText) (← fields.required "project_id" asText)
      (← fields.optional "api_url" asText)
      (← fields.withDefault "default_image" asText defaultVercelImage)
  | "e2b" =>
    fields.known ["provider", "api_key_secret", "api_url", "default_image"]
    return .e2b (← fields.required "api_key_secret" Reference.decode)
      (← fields.optional "api_url" asText)
      (← fields.withDefault "default_image" asText defaultE2bTemplate)
  | "sprites" =>
    fields.known ["provider", "token_secret", "api_url", "url_auth", "organization", "labels"]
    return .sprites (← fields.required "token_secret" Reference.decode)
      (← fields.optional "api_url" asText) (← fields.optional "url_auth" asText)
      (← fields.optional "organization" asText) (← fields.withDefault "labels" asTexts [])
  | "aws_agentcore" | "aws-agentcore" =>
    fields.known ["provider", "runtime_arn", "region", "qualifier", "endpoint_url",
      "session_storage_mount_path", "default_image"]
    return .awsAgentCore (← fields.required "runtime_arn" asText)
      (← fields.required "region" asText) (← fields.optional "qualifier" asText)
      (← fields.optional "endpoint_url" asText)
      (← fields.optional "session_storage_mount_path" asText)
      (← fields.withDefault "default_image" asText defaultAwsAgentcoreImage)
  | _ => none

def SandboxProviderConfig.fields : SandboxProviderConfig VaultId → List (String × Option Json)
  | docker defaultImage =>
    [("provider", some (text "docker")), ("default_image", some (text defaultImage))]
  | smolvm defaultImage binary bootBinary storageGib overlayGib =>
    [("provider", some (text "smolvm")), ("default_image", some (text defaultImage)),
      ("binary", binary.map text), ("boot_binary", bootBinary.map text),
      ("storage_gib", storageGib.map number), ("overlay_gib", overlayGib.map number)]
  | firecracker defaultImage =>
    [("provider", some (text "firecracker")), ("default_image", some (text defaultImage))]
  | daytona apiKeySecret region organizationId apiUrl defaultImage =>
    [("provider", some (text "daytona")), ("api_key_secret", some apiKeySecret.encode),
      ("region", region.map text), ("organization_id", organizationId.map text),
      ("api_url", apiUrl.map text), ("default_image", some (text defaultImage))]
  | vercel apiTokenSecret teamId projectId apiUrl defaultImage =>
    [("provider", some (text "vercel")), ("api_token_secret", some apiTokenSecret.encode),
      ("team_id", some (text teamId)), ("project_id", some (text projectId)),
      ("api_url", apiUrl.map text), ("default_image", some (text defaultImage))]
  | e2b apiKeySecret apiUrl defaultImage =>
    [("provider", some (text "e2b")), ("api_key_secret", some apiKeySecret.encode),
      ("api_url", apiUrl.map text), ("default_image", some (text defaultImage))]
  | sprites tokenSecret apiUrl urlAuth organization labels =>
    [("provider", some (text "sprites")), ("token_secret", some tokenSecret.encode),
      ("api_url", apiUrl.map text), ("url_auth", urlAuth.map text),
      ("organization", organization.map text),
      ("labels", if labels.isEmpty then none else some (encodeTexts labels))]
  | awsAgentCore runtimeArn region qualifier endpointUrl sessionStorageMountPath defaultImage =>
    [("provider", some (text "aws_agentcore")), ("runtime_arn", some (text runtimeArn)),
      ("region", some (text region)), ("qualifier", qualifier.map text),
      ("endpoint_url", endpointUrl.map text),
      ("session_storage_mount_path", sessionStorageMountPath.map text),
      ("default_image", some (text defaultImage))]

def SandboxProviderConfig.encode (config : SandboxProviderConfig VaultId) : Json :=
  .object (Fields.encode config.fields)

def Binding.decode (json : Json) : Option (Binding VaultId) := do
  let fields ← json.asFields
  match ← fields.required "type" asText with
  | "env" =>
    fields.known ["type", "name", "env_var", "secret"]
    return .env (← fields.required "name" asText) (← fields.required "env_var" asText)
      (← fields.required "secret" Reference.decode)
  | "mcp" =>
    fields.known ["type", "name", "server_url", "secret"]
    return .mcp (← fields.required "name" asText) (← fields.required "server_url" asText)
      (← fields.optional "secret" Reference.decode)
  | "llm" =>
    fields.known ["type", "name", "model", "base_url", "secret"]
    return .llm (← fields.required "name" asText) (← fields.required "model" asText)
      (← fields.optional "base_url" asText) (← fields.optional "secret" Reference.decode)
  | "sandbox" =>
    fields.known ["type", "name", "config"]
    return .sandbox (← fields.required "name" asText)
      (← fields.required "config" SandboxProviderConfig.decode)
  | _ => none

/-- A field that is not skipped where it is `None`. -/
def orNull (json : Option Json) : Option Json := some (json.getD null)

def Binding.fields : Binding VaultId → List (String × Option Json)
  | env name envVar secret =>
    [("type", some (text "env")), ("name", some (text name)), ("env_var", some (text envVar)),
      ("secret", some secret.encode)]
  | mcp name serverUrl secret =>
    [("type", some (text "mcp")), ("name", some (text name)),
      ("server_url", some (text serverUrl)), ("secret", orNull (secret.map Reference.encode))]
  | llm name model baseUrl secret =>
    [("type", some (text "llm")), ("name", some (text name)), ("model", some (text model)),
      ("base_url", orNull (baseUrl.map text)), ("secret", orNull (secret.map Reference.encode))]
  | sandbox name config =>
    [("type", some (text "sandbox")), ("name", some (text name)), ("config", some config.encode)]

def Binding.encode (binding : Binding VaultId) : Json := .object (Fields.encode binding.fields)

inductive LegacySandboxProviderConfig where
  | daytona (apiKeySecretId : SecretId) (region organizationId apiUrl : Option String)
      (defaultImage : String)
  | vercel (apiTokenSecretId : SecretId) (teamId projectId : String) (apiUrl : Option String)
      (defaultImage : String)
  | e2b (apiKeySecretId : SecretId) (apiUrl : Option String) (defaultImage : String)
  | sprites (tokenSecretId : SecretId) (apiUrl urlAuth organization : Option String)
      (labels : List String)

inductive LegacyBinding where
  | env (name envVar : String) (secretId : SecretId)
  | mcp (name serverUrl : String) (secretId : Option SecretId)
  | llm (name model : String) (baseUrl : Option String) (secretId : Option SecretId)
  | sandbox (name : String) (config : LegacySandboxProviderConfig)

def LegacySandboxProviderConfig.decode (json : Json) : Option LegacySandboxProviderConfig := do
  let fields ← json.asFields
  match ← fields.required "provider" asText with
  | "daytona" =>
    fields.known ["provider", "api_key_secret_id", "region", "organization_id", "api_url",
      "default_image"]
    return .daytona (← fields.required "api_key_secret_id" asId)
      (← fields.optional "region" asText) (← fields.optional "organization_id" asText)
      (← fields.optional "api_url" asText)
      (← fields.withDefault "default_image" asText defaultDaytonaImage)
  | "vercel" =>
    fields.known ["provider", "api_token_secret_id", "team_id", "project_id", "api_url",
      "default_image"]
    return .vercel (← fields.required "api_token_secret_id" asId)
      (← fields.required "team_id" asText) (← fields.required "project_id" asText)
      (← fields.optional "api_url" asText)
      (← fields.withDefault "default_image" asText defaultVercelImage)
  | "e2b" =>
    fields.known ["provider", "api_key_secret_id", "api_url", "default_image"]
    return .e2b (← fields.required "api_key_secret_id" asId)
      (← fields.optional "api_url" asText)
      (← fields.withDefault "default_image" asText defaultE2bTemplate)
  | "sprites" =>
    fields.known ["provider", "token_secret_id", "api_url", "url_auth", "organization", "labels"]
    return .sprites (← fields.required "token_secret_id" asId)
      (← fields.optional "api_url" asText) (← fields.optional "url_auth" asText)
      (← fields.optional "organization" asText) (← fields.withDefault "labels" asTexts [])
  | _ => none

def LegacyBinding.decode (json : Json) : Option LegacyBinding := do
  let fields ← json.asFields
  match ← fields.required "type" asText with
  | "env" =>
    fields.known ["type", "name", "env_var", "secret_id"]
    return .env (← fields.required "name" asText) (← fields.required "env_var" asText)
      (← fields.required "secret_id" asId)
  | "mcp" =>
    fields.known ["type", "name", "server_url", "secret_id"]
    return .mcp (← fields.required "name" asText) (← fields.required "server_url" asText)
      (← fields.optional "secret_id" asId)
  | "llm" =>
    fields.known ["type", "name", "model", "base_url", "secret_id"]
    return .llm (← fields.required "name" asText) (← fields.required "model" asText)
      (← fields.optional "base_url" asText) (← fields.optional "secret_id" asId)
  | "sandbox" =>
    fields.known ["type", "name", "config"]
    return .sandbox (← fields.required "name" asText)
      (← fields.required "config" LegacySandboxProviderConfig.decode)
  | _ => none

/-- `StoredBindingVersion`. -/
inductive StoredBindingVersion (V : Type) where
  | current (binding : Binding V)
  | legacy (binding : LegacyBinding)

def StoredBindingVersion.decode (json : Json) : Option (StoredBindingVersion VaultId) :=
  ((Binding.decode json).map .current).or ((LegacyBinding.decode json).map .legacy)

end Exo.Migration
