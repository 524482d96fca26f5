import Exo.Library.UpdateFirst
import Exo.Vault.Secrets

/-!
# The catalog of vaults

The closures that the vault store runs on its catalog.  Each one looks for its vault, checks, encrypts,
and only then writes; the metadata it writes is what it has encrypted under.
-/

namespace Exo.Vault

open Library Egress

structure VaultRecord where
  id : VaultId
  name : String
  createdAt : ℕ
  deriving DecidableEq

section
variable (Encrypted : Type)

structure StoredSecret where
  metadata : SecretMetadata
  secret : Encrypted
  deriving DecidableEq

structure StoredVault where
  record : VaultRecord
  secrets : List (StoredSecret Encrypted)
  deriving DecidableEq

structure Catalog where
  vaults : List (StoredVault Encrypted) := []
  deriving DecidableEq

end

structure ResolvedSecret where
  revision : ℕ
  secret : Secret
  deriving DecidableEq

/-- What a call takes from the rest of the world: `Uuid7::now`, `Utc::now` and a nonce. -/
structure Draw where
  id : ℕ
  now : ℕ
  nonce : ℕ

variable {Encrypted Data : Type}

/-- The secret of a vault with an id. -/
def StoredVault.find (vault : StoredVault Encrypted) (id : SecretId) :
    Option (StoredSecret Encrypted) :=
  vault.secrets.find? (·.metadata.id = id)

namespace Catalog

def vault (vaultId : VaultId) (catalog : Catalog Encrypted) : Except String (StoredVault Encrypted) :=
  context (catalog.vaults.find? (·.record.id = vaultId))
    ("vault " ++ toString vaultId ++ " is unavailable")

def pushVault (vault : StoredVault Encrypted) (catalog : Catalog Encrypted) : Catalog Encrypted :=
  ⟨catalog.vaults ++ [vault]⟩

section
variable (vaultId : VaultId)

def removeVault (catalog : Catalog Encrypted) : Catalog Encrypted :=
  ⟨catalog.vaults.filter (·.record.id != vaultId)⟩

/-- Write to the secrets of the vault that `vault` finds. -/
def modifySecrets (change : List (StoredSecret Encrypted) → List (StoredSecret Encrypted))
    (catalog : Catalog Encrypted) : Catalog Encrypted :=
  ⟨updateFirst (·.record.id = vaultId) (fun vault ↦ { vault with secrets := change vault.secrets })
    catalog.vaults⟩

def pushSecret (stored : StoredSecret Encrypted) : Catalog Encrypted → Catalog Encrypted :=
  modifySecrets vaultId (· ++ [stored])

def removeSecret (id : SecretId) : Catalog Encrypted → Catalog Encrypted :=
  modifySecrets vaultId (·.filter (·.metadata.id != id))

/-- Write the metadata and the ciphertext of the secret that `find` finds. -/
def replaceSecret (id : SecretId) (stored : StoredSecret Encrypted) :
    Catalog Encrypted → Catalog Encrypted :=
  modifySecrets vaultId (updateFirst (·.metadata.id = id) fun _ ↦ stored)

end

end Catalog

variable (lib : Libraries) (cipher : SecretCipher Encrypted Data)

def create (draw : Draw) (name : String) : InPlace (Catalog Encrypted) VaultRecord := do
  .update (Catalog.pushVault ⟨⟨draw.id, name, draw.now⟩, []⟩)
  return ⟨draw.id, name, draw.now⟩

/-- The first closure of `global_vault`. -/
def findGlobal : InPlace (Catalog Encrypted) (Option VaultRecord) :=
  .look fun catalog ↦ .ok ((catalog.vaults.find? (·.record.name == "global")).map (·.record))

/-- The second closure of `global_vault`. -/
def createGlobal (draw : Draw) : InPlace (Catalog Encrypted) VaultRecord := do
  match ← findGlobal with
  | some record => return record
  | none => create draw "global"

def createVault (draw : Draw) (name : String) : InPlace (Catalog Encrypted) VaultRecord := do
  .check (ensure (! (Scheduler.trim name.toList).isEmpty) "vault name must not be empty")
  let taken ← .look fun catalog ↦ .ok (catalog.vaults.any (·.record.name == name))
  .check (ensure (! taken) ("vault already exists: " ++ name))
  create draw name

def deleteVault (vaultId : VaultId) : InPlace (Catalog Encrypted) Unit := do
  let vault ← .look (Catalog.vault vaultId)
  .check (ensure (vault.record.name != "global") "cannot delete the global vault")
  .update (Catalog.removeVault vaultId)
  return ()

section
variable (vaultId : VaultId)

def SecretCipher.decrypt (stored : StoredSecret Encrypted) : Except String Secret :=
  cipher.decryptBound stored.secret (cipher.toVec vaultId stored.metadata)

def putSecret (draw : Draw) (vaultId : VaultId) (request : PutSecretRequest) :
    InPlace (Catalog Encrypted) SecretId := do
  let vault ← .look (Catalog.vault vaultId)
  .check (ensure (! (Scheduler.trim request.name.toList).isEmpty) "secret name must not be empty")
  let target ← .check (normalizedTarget lib request.policy)
  .check (ensure (! vault.secrets.any fun stored ↦ stored.metadata.name == request.name ||
      target.any CredentialPolicy.isResource && stored.metadata.policy == target)
    ("a secret with this name or destination already exists in vault " ++ toString vaultId))
  let metadata : SecretMetadata :=
    { id := draw.id, name := request.name, type := secretType request.secret, policy := target,
      revision := 1, createdAt := draw.now }
  let secret ← .check (encrypt lib cipher draw.nonce vaultId metadata request.secret)
  .update (Catalog.pushSecret vaultId ⟨metadata, secret⟩)
  return metadata.id

/-- `revision.checked_add(1)`. -/
def nextRevision (revision : ℕ) : Except String ℕ := do
  ensure (revision < Scheduler.u64Max) "secret revision overflow"
  return revision + 1

/-- The value after an update: the new one, or the one that is stored. -/
def updatedSecret (stored : StoredSecret Encrypted) : Option Secret → Except String Secret
  | some secret => .ok secret
  | none => cipher.decrypt vaultId stored

/-- The closure of `update_secret`. -/
def updateSecret (draw : Draw) (vaultId : VaultId) (id : SecretId) (request : UpdateSecretRequest) :
    InPlace (Catalog Encrypted) SecretMetadata := do
  let vault ← .look (Catalog.vault vaultId)
  let target ← .check (normalizedTarget lib request.policy)
  .check (ensure (! (target.any CredentialPolicy.isResource && vault.secrets.any fun stored ↦
      stored.metadata.id != id && stored.metadata.policy == target))
    "a secret with this resource policy already exists in the vault")
  let stored ← .check (context (vault.find id) "secret is unavailable")
  let secret ← .check (updatedSecret cipher vaultId stored request.secret)
  let revision ← .check (nextRevision stored.metadata.revision)
  let metadata : SecretMetadata :=
    { stored.metadata with
      revision, policy := target.or stored.metadata.policy, type := secretType secret }
  let encrypted ← .check (encrypt lib cipher draw.nonce vaultId metadata secret)
  .update (Catalog.replaceSecret vaultId id ⟨metadata, encrypted⟩)
  return metadata

def deleteSecret (id : SecretId) : InPlace (Catalog Encrypted) Unit := do
  let vault ← .look (Catalog.vault vaultId)
  .check (ensure (vault.secrets.any (·.metadata.id == id)) "secret is unavailable")
  .update (Catalog.removeSecret vaultId id)
  return ()

def readForDestination (id : SecretId) (target : CredentialDestination) :
    InPlace (Catalog Encrypted) ResolvedSecret := do
  let target ← .check (target.normalized lib)
  let vault ← .look (Catalog.vault vaultId)
  let stored ← .check (context (vault.find id) "secret is unavailable")
  .check (ensure (stored.metadata.policy.any fun policy ↦ policy.permits lib target)
    ("secret " ++ reprStr stored.metadata.name ++ " is not authorized for " ++ target.asStr ++
      "; update its policy with --allow-origin or --allow-url"))
  let secret ← .check (cipher.decrypt vaultId stored)
  .check (validateSecret lib secret stored.metadata.policy)
  return ⟨stored.metadata.revision, secret⟩

end

/-- The closure of `refresh` that writes a secret that has changed. -/
def storeRefreshed (draw : Draw) (vaultId : VaultId) (id : SecretId) (revision : ℕ)
    (secret : Secret) : InPlace (Catalog Encrypted) ResolvedSecret := do
  let vault ← .look (Catalog.vault vaultId)
  let stored ← .check (context (vault.find id) "secret is unavailable")
  .check (ensure (stored.metadata.revision == revision)
    "credential changed during refresh; retry the operation")
  let next ← .check (nextRevision stored.metadata.revision)
  let metadata : SecretMetadata := { stored.metadata with revision := next }
  let encrypted ← .check (encrypt lib cipher draw.nonce vaultId metadata secret)
  .update (Catalog.replaceSecret vaultId id ⟨metadata, encrypted⟩)
  return ⟨next, secret⟩

/-! ## What the closures do

Reading closures change nothing; a writing closure changes nothing if it fails. -/

open InPlace

variable {lib} {cipher}

theorem readOnly_findGlobal :
    ReadOnly (findGlobal : InPlace (Catalog Encrypted) (Option VaultRecord)) := readOnly_look _

theorem readOnly_readForDestination (vaultId : VaultId) (id : SecretId)
    (target : CredentialDestination) : ReadOnly (readForDestination lib cipher vaultId id target) := by
  refine (readOnly_check _).bind fun _ ↦ (readOnly_look _).bind fun _ ↦ ?_
  refine (readOnly_check _).bind fun _ ↦ (readOnly_check _).bind fun _ ↦ ?_
  exact (readOnly_check _).bind fun _ ↦ (readOnly_check _).bind fun _ ↦ readOnly_pure _

section
variable (draw : Draw)

theorem atomic_create (name : String) :
    Atomic (create draw name : InPlace (Catalog Encrypted) VaultRecord) :=
  atomic_update_pure _ _

theorem atomic_createGlobal :
    Atomic (createGlobal draw : InPlace (Catalog Encrypted) VaultRecord) := by
  refine readOnly_findGlobal.bind_atomic fun record ↦ ?_
  cases record with
  | none => exact atomic_create draw "global"
  | some record => exact (readOnly_pure record).atomic

theorem atomic_createVault (name : String) :
    Atomic (createVault draw name : InPlace (Catalog Encrypted) VaultRecord) := by
  refine (readOnly_check _).bind_atomic fun _ ↦ (readOnly_look _).bind_atomic fun _ ↦ ?_
  exact (readOnly_check _).bind_atomic fun _ ↦ atomic_create draw name

section
variable (vaultId : VaultId)

theorem atomic_deleteVault : Atomic (deleteVault vaultId : InPlace (Catalog Encrypted) Unit) :=
  (readOnly_look _).bind_atomic fun _ ↦ (readOnly_check _).bind_atomic fun _ ↦
    atomic_update_pure _ _

theorem atomic_putSecret (request : PutSecretRequest) :
    Atomic (putSecret lib cipher draw vaultId request) := by
  refine (readOnly_look _).bind_atomic fun _ ↦ (readOnly_check _).bind_atomic fun _ ↦ ?_
  refine (readOnly_check _).bind_atomic fun _ ↦ (readOnly_check _).bind_atomic fun _ ↦ ?_
  exact (readOnly_check _).bind_atomic fun _ ↦ atomic_update_pure _ _

theorem atomic_updateSecret (id : SecretId)
    (request : UpdateSecretRequest) :
    Atomic (updateSecret lib cipher draw vaultId id request) := by
  refine (readOnly_look _).bind_atomic fun _ ↦ (readOnly_check _).bind_atomic fun _ ↦ ?_
  refine (readOnly_check _).bind_atomic fun _ ↦ (readOnly_check _).bind_atomic fun _ ↦ ?_
  refine (readOnly_check _).bind_atomic fun _ ↦ (readOnly_check _).bind_atomic fun _ ↦ ?_
  exact (readOnly_check _).bind_atomic fun _ ↦ atomic_update_pure _ _

theorem atomic_deleteSecret (id : SecretId) :
    Atomic (deleteSecret vaultId id : InPlace (Catalog Encrypted) Unit) :=
  (readOnly_look _).bind_atomic fun _ ↦ (readOnly_check _).bind_atomic fun _ ↦
    atomic_update_pure _ _

theorem atomic_storeRefreshed (id : SecretId) (revision : ℕ)
    (secret : Secret) : Atomic (storeRefreshed lib cipher draw vaultId id revision secret) := by
  refine (readOnly_look _).bind_atomic fun _ ↦ (readOnly_check _).bind_atomic fun _ ↦ ?_
  refine (readOnly_check _).bind_atomic fun _ ↦ (readOnly_check _).bind_atomic fun _ ↦ ?_
  exact (readOnly_check _).bind_atomic fun _ ↦ atomic_update_pure _ _

end

end

theorem trim_cons {c : Char} (hc : Scheduler.isWhitespace c = false) (text : List Char) :
    (Scheduler.trim (c :: text)).isEmpty = false := by
  have hne : ((c :: text).reverse.dropWhile Scheduler.isWhitespace) ≠ [] := by
    rw [Ne, List.dropWhile_eq_nil_iff]
    intro hall
    have hwhite := hall c (by simp)
    rw [hc] at hwhite
    cases hwhite
  rw [Scheduler.trim, List.dropWhile_cons_of_neg (by simp [hc])]
  simpa using hne

variable {catalog : Catalog Encrypted} {name : String}

section
variable (draw : Draw) (hempty : (Scheduler.trim name.toList).isEmpty = false)
include hempty

theorem createVault_run (hname : name ∉ catalog.vaults.map (·.record.name)) :
    (createVault draw name).runOn catalog =
      (.ok ⟨draw.id, name, draw.now⟩, catalog.pushVault ⟨⟨draw.id, name, draw.now⟩, []⟩) := by
  have htaken : catalog.vaults.any (·.record.name == name) = false := by
    simpa using hname
  simp only [createVault, InPlace.runOn_bind, InPlace.runOn_check, InPlace.runOn_look, hempty,
    ensure, Bool.not_false, if_true, htaken]
  rfl

theorem createVault_run_taken (hname : name ∈ catalog.vaults.map (·.record.name)) :
    (createVault draw name).runOn catalog = (.error ("vault already exists: " ++ name), catalog) := by
  have htaken : catalog.vaults.any (·.record.name == name) = true := by
    simpa using hname
  simp only [createVault, InPlace.runOn_bind, InPlace.runOn_check, InPlace.runOn_look, hempty,
    ensure, Bool.not_false, if_true, htaken, Bool.not_true]
  rfl

end

end Exo.Vault
