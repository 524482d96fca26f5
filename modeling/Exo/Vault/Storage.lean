import Exo.Vault.Catalog

/-!
# Where the catalog is kept

In memory, where a closure runs on the catalog itself, or in `vaults.json`, where it runs on a copy that
then replaces the file.  A file from before credential policies is migrated when it is read.  The file
system may refuse any step; after the new file is in its place there is one more, the synchronization of
the directory.
-/

namespace Exo.Vault

open Library Egress

structure LegacySecret (Encrypted : Type) where
  metadata : LegacyMetadata
  secret : Encrypted
  deriving DecidableEq

structure LegacyVault (Encrypted : Type) where
  record : VaultRecord
  secrets : List (LegacySecret Encrypted)
  deriving DecidableEq

/-- What `vaults.json` holds. -/
inductive CatalogFile (Encrypted : Type) where
  | current (catalog : Catalog Encrypted)
  | legacy (vaults : List (LegacyVault Encrypted))
  | unreadable
  deriving DecidableEq

inductive Storage (Encrypted : Type) where
  | file (contents : Option (CatalogFile Encrypted))
  | memory (catalog : Catalog Encrypted)
  deriving DecidableEq

/-- The step of `access_file` that the file system refuses. -/
inductive Fault where
  | lock
  | read
  /-- Writing the temporary file, synchronizing it, or renaming it. -/
  | write
  /-- `File::open(root)?.sync_all()?`. -/
  | syncDirectory
  deriving DecidableEq

def Fault.message : Fault → String
  | .lock => "cannot lock vaults.lock"
  | .read => "cannot read vaults.json"
  | .write => "cannot write vaults.json"
  | .syncDirectory => "cannot synchronize the directory"

/-- Whether a step gets through. -/
def passes (fault : Option Fault) (step : Fault) : Except String Unit :=
  ensure (fault != some step) step.message

variable {Encrypted Data α : Type} (lib : Libraries) (cipher : SecretCipher Encrypted Data)

def legacyPolicy : Option LegacyTarget → Except String (Option CredentialPolicy)
  | some (.mcp serverUrl) => do
    return some (.destinations [← CredentialDestination.ofUrl lib serverUrl])
  | some (.http origin) => do
    return some (.destinations [← CredentialDestination.ofOrigin lib origin])
  | none => return none

def migrateSecret (nonce : ℕ) (vaultId : VaultId) (stored : LegacySecret Encrypted) :
    Except String (StoredSecret Encrypted) := do
  let secret ← cipher.decryptBound stored.secret (cipher.legacyToVec vaultId stored.metadata)
  let policy ← legacyPolicy lib stored.metadata.target
  let metadata : SecretMetadata :=
    { policy, revision := stored.metadata.revision, id := stored.metadata.id,
      type := stored.metadata.type, name := stored.metadata.name,
      createdAt := stored.metadata.createdAt }
  let secret ← encrypt lib cipher nonce vaultId metadata secret
  return ⟨metadata, secret⟩

def migrateVault (nonce : ℕ) (vault : LegacyVault Encrypted) :
    Except String (StoredVault Encrypted) := do
  let secrets ← vault.secrets.mapM (migrateSecret lib cipher nonce vault.record.id)
  return ⟨vault.record, secrets⟩

/-- The catalog, and whether it was migrated. -/
def readCatalog (nonce : ℕ) : Option (CatalogFile Encrypted) →
    Except String (Catalog Encrypted × Bool)
  | none => return ({}, false)
  | some (.current catalog) => return (catalog, false)
  | some (.legacy vaults) => do
    let vaults ← vaults.mapM (migrateVault lib cipher nonce)
    return (⟨vaults⟩, true)
  | some .unreadable => .error "reading vault catalog"

section
variable (fault : Option Fault) (nonce : ℕ) (write : Bool)
  (operation : InPlace (Catalog Encrypted) α)

def accessFile : InPlace (Option (CatalogFile Encrypted)) α := do
  .check (passes fault .lock)
  .check (passes fault .read)
  let (catalog, migrated) ← .look (readCatalog lib cipher nonce)
  let result ← .check (operation.runOn catalog).1
  if ! write && ! migrated then return result
  else
    .check (passes fault .write)
    .update fun _ ↦ some (.current (operation.runOn catalog).2)
    .check (passes fault .syncDirectory)
    return result

/-- `BasicVaultStore::access`. -/
def access (storage : Storage Encrypted) : Except String α × Storage Encrypted :=
  match storage with
  | .memory catalog =>
    let (result, catalog) := operation.runOn catalog
    (result, .memory catalog)
  | .file contents =>
    let (result, contents) := (accessFile lib cipher fault nonce write operation).runOn contents
    (result, .file contents)

end

namespace Storage

/-- Nothing has to be migrated. -/
def Current : Storage Encrypted → Prop
  | .file (some (.legacy _)) => False
  | .file (some .unreadable) => False
  | _ => True

/-- The catalog of a storage that is current. -/
def catalog : Storage Encrypted → Catalog Encrypted
  | .file (some (.current catalog)) => catalog
  | .file _ => {}
  | .memory catalog => catalog

section
variable (catalog : Catalog Encrypted)

/-- The storage with another catalog in it. -/
def replaceCatalog : Storage Encrypted → Storage Encrypted
  | .file _ => .file (some (.current catalog))
  | .memory _ => .memory catalog

@[simp]
theorem catalog_replaceCatalog (storage : Storage Encrypted) :
    (storage.replaceCatalog catalog).catalog = catalog := by
  cases storage <;> rfl

theorem current_replaceCatalog (storage : Storage Encrypted) :
    (storage.replaceCatalog catalog).Current := by
  cases storage <;> trivial

end

variable {lib} {cipher} in
theorem readCatalog_of_current {contents : Option (CatalogFile Encrypted)}
    (hcurrent : (Storage.file contents).Current) (nonce : ℕ) :
    readCatalog lib cipher nonce contents = .ok ((Storage.file contents).catalog, false) := by
  cases contents with
  | none => rfl
  | some contents =>
    cases contents with
    | current catalog => rfl
    | legacy vaults => cases hcurrent
    | unreadable => cases hcurrent

end Storage

open InPlace

variable {operation : InPlace (Catalog Encrypted) α} {storage : Storage Encrypted} {lib} {cipher} in
theorem runOn_accessFile {contents : Option (CatalogFile Encrypted)}
    (hcurrent : (Storage.file contents).Current) (fault : Option Fault) (nonce : ℕ)
    (write : Bool) (operation : InPlace (Catalog Encrypted) α) :
    (accessFile lib cipher fault nonce write operation).runOn contents =
      match passes fault .lock, passes fault .read,
        operation.runOn (Storage.file contents).catalog with
      | .error message, _, _ => (.error message, contents)
      | .ok _, .error message, _ => (.error message, contents)
      | .ok _, .ok _, (.error message, _) => (.error message, contents)
      | .ok _, .ok _, (.ok result, catalog) =>
        if write then
          match passes fault .write, passes fault .syncDirectory with
          | .error message, _ => (.error message, contents)
          | .ok _, .error message => (.error message, some (.current catalog))
          | .ok _, .ok _ => (.ok result, some (.current catalog))
        else (.ok result, contents) := by
  simp only [accessFile, runOn_bind, runOn_check]
  cases passes fault .lock with
  | error message => rfl
  | ok =>
    cases passes fault .read with
    | error message => rfl
    | ok =>
      simp only [runOn_look, Storage.readCatalog_of_current hcurrent]
      cases hrun : operation.runOn (Storage.file contents).catalog with
      | mk result catalog =>
        cases result with
        | error message => simp
        | ok result =>
          cases write with
          | false => simp
          | true =>
            simp only [runOn_bind, runOn_check, runOn_update, Bool.not_true, Bool.false_and,
              Bool.false_eq_true, if_false, if_true]
            cases passes fault .write with
            | error message => rfl
            | ok => cases passes fault .syncDirectory <;> rfl

/-- A closure that only reads leaves the storage alone. -/
theorem access_read (hcurrent : storage.Current) (hoperation : ReadOnly operation)
    (fault : Option Fault) (nonce : ℕ) :
    (access lib cipher fault nonce false operation storage).2 = storage ∧
      ∀ result, (access lib cipher fault nonce false operation storage).1 = .ok result →
        operation.runOn storage.catalog = (.ok result, storage.catalog) := by
  have hread := hoperation storage.catalog
  cases storage with
  | memory catalog =>
    refine ⟨congrArg Storage.memory hread, fun result hresult ↦ ?_⟩
    exact Prod.ext hresult hread
  | file contents =>
    simp only [access, runOn_accessFile hcurrent]
    cases passes fault .lock with
    | error message => exact ⟨rfl, nofun⟩
    | ok =>
      cases passes fault .read with
      | error message => exact ⟨rfl, nofun⟩
      | ok =>
        cases hrun : operation.runOn (Storage.file contents).catalog with
        | mk result catalog =>
          rw [hrun] at hread
          cases result with
          | error message => exact ⟨rfl, nofun⟩
          | ok result => exact ⟨rfl, fun value hvalue ↦ by cases hvalue; rw [← hread]⟩

/-- A writing access changes nothing and fails, or it puts in place what the closure has made of the
catalog; then it succeeds, unless the directory could not be synchronized. -/
theorem access_write (hcurrent : storage.Current) (hoperation : Atomic operation)
    (fault : Option Fault) (nonce : ℕ) :
    ((access lib cipher fault nonce true operation storage).2 = storage ∧
        ∃ message, (access lib cipher fault nonce true operation storage).1 = .error message) ∨
      ∃ result catalog, operation.runOn storage.catalog = (.ok result, catalog) ∧
        (access lib cipher fault nonce true operation storage).2 =
          storage.replaceCatalog catalog ∧
        ((access lib cipher fault nonce true operation storage).1 = .ok result ∨
          fault = some .syncDirectory ∧
            ∃ message, (access lib cipher fault nonce true operation storage).1 =
              .error message) := by
  have hatomic := hoperation storage.catalog
  cases storage with
  | memory catalog =>
    cases hrun : operation.runOn catalog with
    | mk result catalog' =>
      simp only [Storage.catalog, hrun] at hatomic
      simp only [access, Storage.catalog, hrun]
      cases result with
      | error message => exact .inl ⟨by rw [hatomic message rfl], message, rfl⟩
      | ok result => exact .inr ⟨result, catalog', rfl, rfl, .inl rfl⟩
  | file contents =>
    simp only [access, runOn_accessFile hcurrent]
    cases passes fault .lock with
    | error message => exact .inl ⟨rfl, message, rfl⟩
    | ok =>
      cases passes fault .read with
      | error message => exact .inl ⟨rfl, message, rfl⟩
      | ok =>
        cases hrun : operation.runOn (Storage.file contents).catalog with
        | mk result catalog =>
          cases result with
          | error message => exact .inl ⟨rfl, message, rfl⟩
          | ok result =>
            cases passes fault .write with
            | error message => exact .inl ⟨rfl, message, rfl⟩
            | ok =>
              refine .inr ⟨result, catalog, rfl, ?_⟩
              cases hsync : passes fault .syncDirectory with
              | ok => exact ⟨rfl, .inl rfl⟩
              | error message =>
                have hfault : fault = some .syncDirectory := by
                  by_contra hne
                  simp [passes, ensure, hne] at hsync
                exact ⟨rfl, .inr ⟨hfault, message, rfl⟩⟩

end Exo.Vault
