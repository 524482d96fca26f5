import Exo.Migration.Bindings

/-!
# Reading and migrating bindings

What a migration writes is read back as a current binding, and a legacy binding that refers to a
secret is never taken for a current one.
-/

namespace Exo.Migration

open Library Vault Fields Json List

theorem Reference.decode_encode (reference : Reference VaultId) :
    Reference.decode reference.encode = some reference := by
  simp [Reference.decode, Reference.encode, asFields, required, lookup_cons, asId]

theorem asTexts_encodeTexts (texts : List String) : (encodeTexts texts).asTexts = some texts := by
  induction texts with
  | nil => simp [encodeTexts, asTexts]
  | cons first texts ih =>
    simp only [encodeTexts, asTexts] at ih
    simp [encodeTexts, asTexts, asText, ih]

theorem SandboxProviderConfig.nodup_fields (config : SandboxProviderConfig VaultId) :
    (config.fields.map Prod.fst).Nodup := by
  cases config <;> simp [fields]

/-- The secrets that a configuration refers to. -/
def SandboxProviderConfig.references {V : Type} : SandboxProviderConfig V → List (Reference V)
  | daytona apiKeySecret .. => [apiKeySecret]
  | vercel apiTokenSecret .. => [apiTokenSecret]
  | e2b apiKeySecret .. => [apiKeySecret]
  | sprites tokenSecret .. => [tokenSecret]
  | _ => []

def Binding.references {V : Type} : Binding V → List (Reference V)
  | env _ _ secret => [secret]
  | mcp _ _ secret => secret.toList
  | llm _ _ _ secret => secret.toList
  | sandbox _ config => config.references

theorem SandboxProviderConfig.decode_encode (config : SandboxProviderConfig VaultId)
    (hremote : config.references ≠ []) :
    SandboxProviderConfig.decode config.encode = some config := by
  have hknown := known_encode_self config.nodup_fields
  have hrequired (α : Type) (name : String) (read : Json → Option α) :=
    required_encode config.nodup_fields name read
  have hoptional (α : Type) (name : String) (read : Json → Option α) :=
    optional_encode config.nodup_fields name read
  have hdefault (α : Type) (name : String) (read : Json → Option α) (default : α) :=
    withDefault_encode config.nodup_fields name read default
  unfold SandboxProviderConfig.encode
  generalize Fields.encode config.fields = encoded at *
  simp only [SandboxProviderConfig.decode, asFields, Option.bind_eq_bind, Option.bind_some,
    hrequired, hoptional, hdefault]
  cases config with
  | daytona apiKeySecret region organizationId apiUrl defaultImage =>
    simp only [SandboxProviderConfig.fields, map_cons, map_nil] at hknown
    cases region <;> cases organizationId <;> cases apiUrl <;>
      simp [SandboxProviderConfig.fields, lookup_cons, hknown, asText, Reference.decode_encode]
  | vercel apiTokenSecret teamId projectId apiUrl defaultImage
  | e2b apiKeySecret apiUrl defaultImage =>
    simp only [SandboxProviderConfig.fields, map_cons, map_nil] at hknown
    cases apiUrl <;>
      simp [SandboxProviderConfig.fields, lookup_cons, hknown, asText, Reference.decode_encode]
  | sprites tokenSecret apiUrl urlAuth organization labels =>
    simp only [SandboxProviderConfig.fields, map_cons, map_nil] at hknown
    cases apiUrl <;> cases urlAuth <;> cases organization <;> cases labels <;>
      simp [SandboxProviderConfig.fields, lookup_cons, hknown, asText, Reference.decode_encode,
        asTexts_encodeTexts]
  | _ =>
    exact absurd rfl hremote

theorem Binding.nodup_fields (binding : Binding VaultId) : (binding.fields.map Prod.fst).Nodup := by
  cases binding <;> simp [fields]

/-- The configurations that a migration writes are read back, and all other bindings are too. -/
theorem Binding.decode_encode (binding : Binding VaultId)
    (hremote : ∀ name config, binding = .sandbox name config → config.references ≠ []) :
    Binding.decode binding.encode = some binding := by
  have hknown := known_encode_self binding.nodup_fields
  have hrequired (α : Type) (name : String) (read : Json → Option α) :=
    required_encode binding.nodup_fields name read
  have hoptional (α : Type) (name : String) (read : Json → Option α) :=
    optional_encode binding.nodup_fields name read
  unfold Binding.encode
  generalize Fields.encode binding.fields = encoded at *
  simp only [Binding.decode, asFields, Option.bind_eq_bind, Option.bind_some, hrequired, hoptional]
  cases binding with
  | env name envVar secret =>
    simp only [Binding.fields, map_cons, map_nil] at hknown
    simp [Binding.fields, lookup_cons, hknown, asText, Reference.decode_encode]
  | mcp name serverUrl secret =>
    simp only [Binding.fields, map_cons, map_nil] at hknown
    cases secret <;>
      simp [Binding.fields, lookup_cons, hknown, asText, asId, asFields, orNull,
        Reference.encode, Reference.decode, required]
  | llm name model baseUrl secret =>
    simp only [Binding.fields, map_cons, map_nil] at hknown
    cases baseUrl <;> cases secret <;>
      simp [Binding.fields, lookup_cons, hknown, asText, asId, asFields, orNull,
        Reference.encode, Reference.decode, required]
  | sandbox name config =>
    simp only [Binding.fields, map_cons, map_nil] at hknown
    simp [Binding.fields, lookup_cons, hknown, asText,
      config.decode_encode (hremote name config rfl)]

/-- The secrets that a legacy binding refers to. -/
def LegacySandboxProviderConfig.secretId : LegacySandboxProviderConfig → SecretId
  | daytona apiKeySecretId .. => apiKeySecretId
  | vercel apiTokenSecretId .. => apiTokenSecretId
  | e2b apiKeySecretId .. => apiKeySecretId
  | sprites tokenSecretId .. => tokenSecretId

def LegacyBinding.secretIds : LegacyBinding → List SecretId
  | env _ _ secretId => [secretId]
  | mcp _ _ secretId => secretId.toList
  | llm _ _ _ secretId => secretId.toList
  | sandbox _ config => [config.secretId]

section Migrate
variable {V W : Type} (resolve : SecretId → Except String (Reference V))

def LegacySandboxProviderConfig.migrate :
    LegacySandboxProviderConfig → Except String (SandboxProviderConfig V)
  | daytona apiKeySecretId region organizationId apiUrl defaultImage => do
    return .daytona (← resolve apiKeySecretId) region organizationId apiUrl defaultImage
  | vercel apiTokenSecretId teamId projectId apiUrl defaultImage => do
    return .vercel (← resolve apiTokenSecretId) teamId projectId apiUrl defaultImage
  | e2b apiKeySecretId apiUrl defaultImage => do
    return .e2b (← resolve apiKeySecretId) apiUrl defaultImage
  | sprites tokenSecretId apiUrl urlAuth organization labels => do
    return .sprites (← resolve tokenSecretId) apiUrl urlAuth organization labels

/-- A model binding is retired: there is none to put in its place. -/
def LegacyBinding.migrate : LegacyBinding → Except String (Option (Binding V))
  | env name envVar secretId => do
    return some (.env name envVar (← resolve secretId))
  | mcp name serverUrl secretId =>
    match secretId with
    | some secretId => do return some (.mcp name serverUrl (some (← resolve secretId)))
    | none => return some (.mcp name serverUrl none)
  | llm .. => return none
  | sandbox name config => do
    return some (.sandbox name (← config.migrate resolve))

variable (f : V → W)

def Reference.map (reference : Reference V) : Reference W := ⟨f reference.vault, reference.secret⟩

def SandboxProviderConfig.map : SandboxProviderConfig V → SandboxProviderConfig W
  | docker defaultImage => .docker defaultImage
  | smolvm defaultImage binary bootBinary storageGib overlayGib =>
    .smolvm defaultImage binary bootBinary storageGib overlayGib
  | firecracker defaultImage => .firecracker defaultImage
  | daytona apiKeySecret region organizationId apiUrl defaultImage =>
    .daytona (apiKeySecret.map f) region organizationId apiUrl defaultImage
  | vercel apiTokenSecret teamId projectId apiUrl defaultImage =>
    .vercel (apiTokenSecret.map f) teamId projectId apiUrl defaultImage
  | e2b apiKeySecret apiUrl defaultImage => .e2b (apiKeySecret.map f) apiUrl defaultImage
  | sprites tokenSecret apiUrl urlAuth organization labels =>
    .sprites (tokenSecret.map f) apiUrl urlAuth organization labels
  | awsAgentCore runtimeArn region qualifier endpointUrl sessionStorageMountPath defaultImage =>
    .awsAgentCore runtimeArn region qualifier endpointUrl sessionStorageMountPath defaultImage

def Binding.map : Binding V → Binding W
  | env name envVar secret => .env name envVar (secret.map f)
  | mcp name serverUrl secret => .mcp name serverUrl (secret.map (Reference.map f))
  | llm name model baseUrl secret => .llm name model baseUrl (secret.map (Reference.map f))
  | sandbox name config => .sandbox name (config.map f)

def StoredBindingVersion.map : StoredBindingVersion V → StoredBindingVersion W
  | current binding => .current (binding.map f)
  | legacy binding => .legacy binding

end Migrate

theorem Binding.map_congr {V W : Type} {f g : V → W} (binding : Binding V)
    (hsame : ∀ reference ∈ binding.references, f reference.vault = g reference.vault) :
    binding.map f = binding.map g := by
  cases binding with
  | env name envVar secret => simp_all [Binding.map, Binding.references, Reference.map]
  | mcp name serverUrl secret | llm name model baseUrl secret =>
    cases secret <;> simp_all [Binding.map, Binding.references, Reference.map]
  | sandbox name config =>
    cases config <;>
      simp_all [Binding.map, Binding.references, SandboxProviderConfig.map,
        SandboxProviderConfig.references, Reference.map]

section Migrated
variable {V W : Type} {resolve : SecretId → Except String (Reference V)}

theorem LegacySandboxProviderConfig.references_of_migrate {config : LegacySandboxProviderConfig}
    {config' : SandboxProviderConfig V} (hmigrate : config.migrate resolve = .ok config') :
    ∃ reference, resolve config.secretId = .ok reference ∧ config'.references = [reference] := by
  cases config <;>
  · simp only [migrate, bind_eq_ok, pure_eq_ok] at hmigrate
    obtain ⟨reference, hresolve, rfl⟩ := hmigrate
    exact ⟨reference, hresolve, rfl⟩

/-- Each secret of a migrated binding is the one that its legacy id was resolved to. -/
theorem LegacyBinding.references_of_migrate {binding : LegacyBinding} {binding' : Binding V}
    (hmigrate : binding.migrate resolve = .ok (some binding')) :
    ∀ reference ∈ binding'.references, ∃ id ∈ binding.secretIds, resolve id = .ok reference := by
  cases binding with
  | env name envVar secretId =>
    simp only [migrate, bind_eq_ok, pure_eq_ok] at hmigrate
    obtain ⟨reference, hresolve, heq⟩ := hmigrate
    cases heq
    simpa [Binding.references, secretIds] using hresolve
  | mcp name serverUrl secretId =>
    cases secretId with
    | none =>
      cases hmigrate
      simp [Binding.references]
    | some secretId =>
      simp only [migrate, bind_eq_ok, pure_eq_ok] at hmigrate
      obtain ⟨reference, hresolve, heq⟩ := hmigrate
      cases heq
      simpa [Binding.references, secretIds] using hresolve
  | llm => cases hmigrate
  | sandbox name config =>
    simp only [migrate, bind_eq_ok, pure_eq_ok] at hmigrate
    obtain ⟨config', hconfig, heq⟩ := hmigrate
    cases heq
    obtain ⟨reference, hresolve, hreferences⟩ := config.references_of_migrate hconfig
    simpa [Binding.references, secretIds, hreferences] using hresolve

/-- What is written for a migrated binding is read back. -/
theorem LegacyBinding.decode_encode_of_migrate {resolve : SecretId → Except String (Reference VaultId)}
    {binding : LegacyBinding} {binding' : Binding VaultId}
    (hmigrate : binding.migrate resolve = .ok (some binding')) :
    StoredBindingVersion.decode binding'.encode = some (.current binding') := by
  have hdecode : Binding.decode binding'.encode = some binding' := by
    refine binding'.decode_encode fun name config heq ↦ ?_
    subst heq
    cases binding with
    | env name' envVar secretId =>
      simp only [migrate, bind_eq_ok, pure_eq_ok] at hmigrate
      obtain ⟨reference, -, heq⟩ := hmigrate
      cases heq
    | mcp name' serverUrl secretId =>
      cases secretId with
      | none => cases hmigrate
      | some secretId =>
        simp only [migrate, bind_eq_ok, pure_eq_ok] at hmigrate
        obtain ⟨reference, -, heq⟩ := hmigrate
        cases heq
    | llm => cases hmigrate
    | sandbox name' config' =>
      simp only [migrate, bind_eq_ok, pure_eq_ok] at hmigrate
      obtain ⟨config'', hconfig, heq⟩ := hmigrate
      cases heq
      obtain ⟨reference, -, hreferences⟩ := config'.references_of_migrate hconfig
      simp [hreferences]
  simp [StoredBindingVersion.decode, hdecode]

/-- Resolving to other names of the vaults gives the same binding with other names. -/
theorem LegacyBinding.migrate_map (f : V → W) (binding : LegacyBinding) :
    binding.migrate (fun id ↦ Reference.map f <$> resolve id) =
      Option.map (Binding.map f) <$> binding.migrate resolve := by
  cases binding with
  | env name envVar secretId =>
    cases hresolve : resolve secretId <;>
      simp [migrate, hresolve, Binding.map, bind, Except.bind, pure, Except.pure]
  | mcp name serverUrl secretId =>
    cases secretId with
    | none => simp [migrate, Binding.map, pure, Except.pure]
    | some secretId =>
      cases hresolve : resolve secretId <;>
        simp [migrate, hresolve, Binding.map, bind, Except.bind, pure, Except.pure]
  | llm => simp [migrate, pure, Except.pure]
  | sandbox name config =>
    cases config with
    | daytona secretId | vercel secretId | e2b secretId | sprites secretId =>
      cases hresolve : resolve secretId <;>
        simp [migrate, LegacySandboxProviderConfig.migrate, hresolve, Binding.map,
          SandboxProviderConfig.map, bind, Except.bind, pure, Except.pure]

end Migrated

end Exo.Migration
