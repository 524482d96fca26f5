import Exo.Egress.Credentials
import Exo.Library.InPlace
import Exo.Scheduler.Schedule

/-!
# Secrets

A secret with its policy, the metadata that is stored beside it in the clear, and the encryption that
binds the two together: a ciphertext is read back under the bytes of the vault id and the metadata it
was written with, and under no other.
-/

namespace Exo.Vault

open Library Egress

abbrev VaultId := ℕ

abbrev SecretId := ℕ

structure OAuthRefresh where
  tokenEndpoint : String
  clientId : String
  clientSecret : Option String
  clientSecretBasic : Bool
  resource : Option String
  scopes : List String
  deriving DecidableEq

inductive Secret where
  | key (value : String)
  | githubCli (value account : String)
  | oauth (accessToken : String) (refreshToken : Option String) (expiresAt : Option ℕ)
      (refresh : Option OAuthRefresh)
  deriving DecidableEq

inductive SecretType where
  | key
  | oauth
  | githubCli
  deriving DecidableEq

def secretType : Secret → SecretType
  | .key _ => .key
  | .oauth .. => .oauth
  | .githubCli .. => .githubCli

def Secret.bearerValue : Secret → String
  | .key value => value
  | .githubCli value _ => value
  | .oauth accessToken .. => accessToken

def Secret.isGithubCli : Secret → Bool
  | .githubCli .. => true
  | _ => false

structure CredentialPolicy where
  networking : CredentialNetworkPolicy
  /-- `injection_location.header`. -/
  header : Bool
  deriving DecidableEq

structure SecretMetadata where
  policy : Option CredentialPolicy
  revision : ℕ
  id : SecretId
  type : SecretType
  name : String
  createdAt : ℕ
  deriving DecidableEq

/-- The target of a secret in a catalog from before credential policies. -/
inductive LegacyTarget where
  | mcp (serverUrl : String)
  | http (origin : String)
  deriving DecidableEq

structure LegacyMetadata where
  target : Option LegacyTarget
  revision : ℕ
  id : SecretId
  type : SecretType
  name : String
  createdAt : ℕ
  deriving DecidableEq

structure PutSecretRequest where
  policy : Option CredentialPolicy
  name : String
  secret : Secret

structure UpdateSecretRequest where
  secret : Option Secret
  policy : Option CredentialPolicy

variable (lib : Libraries)

namespace CredentialPolicy

def destinations (allowedDestinations : List CredentialDestination) : CredentialPolicy :=
  ⟨.destinations allowedDestinations, true⟩

section
variable (policy : CredentialPolicy)

/-- One of the destinations is a URL. -/
def isResource : Bool :=
  match policy.networking with
  | .destinations allowedDestinations => allowedDestinations.any fun
    | .url _ => true
    | .origin _ => false
  | .limited _ => false

def normalized : Except String CredentialPolicy := do
  let networking ← policy.networking.normalized lib
  return { policy with networking }

def permits (destination : CredentialDestination) : Bool :=
  policy.header && policy.networking.permits lib destination

end

end CredentialPolicy

/-- `policy.map(|target| target.normalized()).transpose()`. -/
def normalizedTarget : Option CredentialPolicy → Except String (Option CredentialPolicy)
  | some policy => do return some (← policy.normalized lib)
  | none => return none

def validateOauthEndpoint (endpoint : String) : Except String Unit := do
  let url ← context (lib.parseUrl endpoint) "invalid OAuth token endpoint"
  ensure ((url.scheme == "https" || url.scheme == "http" && isLoopback url) &&
      url.username.isEmpty && url.password.isNone && url.fragment.isNone)
    "OAuth token endpoint must use HTTPS or loopback HTTP without embedded credentials or a fragment"

def isAsciiAlphanumeric (byte : UInt8) : Bool :=
  (48 ≤ byte && byte ≤ 57) || (65 ≤ byte && byte ≤ 90) || (97 ≤ byte && byte ≤ 122)

def isAsciiGraphic (byte : UInt8) : Bool := 33 ≤ byte && byte ≤ 126

def validateAccount : Secret → Except String Unit
  | .githubCli _ account =>
    ensure (! account.isEmpty && (bytesOf account).length ≤ 39 &&
        (bytesOf account).all fun byte ↦ isAsciiAlphanumeric byte || byte == 45)
      "invalid GitHub account"
  | _ => return ()

def validateRefresh : Secret → Except String Unit
  | .oauth _ _ _ (some refresh) => do
    validateOauthEndpoint lib refresh.tokenEndpoint
    ensure (! refresh.clientId.isEmpty) "OAuth client ID is missing"
  | _ => return ()

/-- A secret that has destinations must be fit for a header. -/
def validateBearer (secret : Secret) : Except String Unit := do
  validateRefresh lib secret
  ensure (! (bytesOf secret.bearerValue).isEmpty && (bytesOf secret.bearerValue).all isAsciiGraphic)
    "bearer token must be nonempty ASCII without whitespace or control characters"

def validateSecret (secret : Secret) (policy : Option CredentialPolicy) : Except String Unit := do
  validateAccount secret
  checkSome policy fun _ ↦ validateBearer lib secret

/-- The cipher with the serialization of the data it authenticates. -/
structure SecretCipher (Encrypted Data : Type) where
  /-- The random nonce comes first. -/
  encryptBound : ℕ → Secret → Data → Except String Encrypted
  decryptBound : Encrypted → Data → Except String Secret
  /-- `serde_json::to_vec(&(vault_id, metadata))`. -/
  toVec : VaultId → SecretMetadata → Data
  /-- The same for metadata from before credential policies. -/
  legacyToVec : VaultId → LegacyMetadata → Data

variable {Encrypted Data : Type}

/-- Authenticated encryption, of data whose serialization can be read back. -/
structure SecretCipher.Lawful (cipher : SecretCipher Encrypted Data) : Prop where
  decrypt_encrypt : ∀ {nonce secret data encrypted},
    cipher.encryptBound nonce secret data = .ok encrypted →
      cipher.decryptBound encrypted data = .ok secret
  decrypt_other : ∀ {nonce secret data encrypted other result},
    cipher.encryptBound nonce secret data = .ok encrypted →
      cipher.decryptBound encrypted other = .ok result → other = data
  toVec_injective : ∀ {vault vault' metadata metadata'},
    cipher.toVec vault metadata = cipher.toVec vault' metadata' → vault = vault' ∧ metadata = metadata'

variable (cipher : SecretCipher Encrypted Data)

def encrypt (nonce : ℕ) (vaultId : VaultId) (metadata : SecretMetadata) (secret : Secret) :
    Except String Encrypted := do
  validateSecret lib secret metadata.policy
  cipher.encryptBound nonce secret (cipher.toVec vaultId metadata)

/-- The ciphertext is the secret, and is so under this vault id and metadata only. -/
def SecretCipher.Seals (encrypted : Encrypted) (vaultId : VaultId) (metadata : SecretMetadata)
    (secret : Secret) : Prop :=
  ∀ vaultId' metadata' secret',
    cipher.decryptBound encrypted (cipher.toVec vaultId' metadata') = .ok secret' ↔
      vaultId' = vaultId ∧ metadata' = metadata ∧ secret' = secret

variable {lib} {cipher}
  {encrypted : Encrypted} {vaultId : VaultId} {metadata : SecretMetadata} {secret : Secret}

theorem SecretCipher.Seals.decrypt (hseals : cipher.Seals encrypted vaultId metadata secret) :
    cipher.decryptBound encrypted (cipher.toVec vaultId metadata) = .ok secret :=
  (hseals vaultId metadata secret).2 ⟨rfl, rfl, rfl⟩

theorem SecretCipher.Seals.eq_of_decrypt {secret' : Secret}
    (hseals : cipher.Seals encrypted vaultId metadata secret)
    (hdecrypt : cipher.decryptBound encrypted (cipher.toVec vaultId metadata) = .ok secret') :
    secret' = secret :=
  ((hseals vaultId metadata secret').1 hdecrypt).2.2

theorem seals_encrypt (hcipher : cipher.Lawful) {nonce : ℕ}
    (hencrypt : encrypt lib cipher nonce vaultId metadata secret = .ok encrypted) :
    cipher.Seals encrypted vaultId metadata secret := by
  simp only [encrypt, bind_eq_ok] at hencrypt
  obtain ⟨_, _, hbound⟩ := hencrypt
  intro vaultId' metadata' secret'
  have hdecrypt := hcipher.decrypt_encrypt hbound
  constructor
  · intro hother
    have hdata := hcipher.decrypt_other hbound hother
    obtain ⟨hvault, hmetadata⟩ := hcipher.toVec_injective hdata
    rw [hdata, hdecrypt] at hother
    exact ⟨hvault, hmetadata, (Except.ok.inj hother).symm⟩
  · rintro ⟨rfl, rfl, rfl⟩
    exact hdecrypt

end Exo.Vault
