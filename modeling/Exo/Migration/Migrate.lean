import Exo.Library.Durable
import Exo.Migration.BindingVersions
import Exo.Vault.Catalog

/-!
# The migration of legacy secrets

The secrets of each scope move into a vault of the scope; then the bindings are rewritten to refer to
vaults; then the old secrets are deleted and the marker is written.  Every write is durable by itself,
and a run starts again from the files that it finds.
-/

namespace Exo.Migration

open Library Egress Vault

/-- The components of a key. -/
abbrev Path := List String

structure BindingHeader where
  id : ℕ
  type : String
  name : String
  createdAt : ℕ

structure AgentRecord (V : Type) where
  id : ℕ
  slug : String
  name : String
  vaults : List V

structure ConversationRecord (V : Type) where
  id : ℕ
  slug : String
  name : String
  latestEventId : Option ℕ
  environment : Option String
  vaults : List V

/-- The JSON files of a store, with vaults given by `V`, encrypted secrets by `S`, bindings by `B`. -/
inductive Doc (V S B : Type) where
  | secret (metadata : SecretMetadata) (secret : S)
  | binding (header : BindingHeader) (binding : B)
  | agent (record : AgentRecord V)
  | conversation (record : ConversationRecord V)
  | other

/-- Files in the order of their keys. -/
abbrev Files (D : Type) := List (Path × D)

namespace Files

variable {D : Type}

def keys (files : Files D) : List Path := files.map Prod.fst

def get (files : Files D) (path : Path) : Option D := files.lookup path

/-- Write the file of a key that is there. -/
def put (path : Path) (doc : D) (files : Files D) : Files D :=
  files.map fun file ↦ if file.1 = path then (path, doc) else file

def delete (path : Path) (files : Files D) : Files D := files.filter (·.1 ≠ path)

end Files

structure Store (Encrypted Legacy : Type) where
  catalog : Catalog Encrypted
  files : Files (Doc VaultId Legacy Json)
  /-- `vaults/legacy-migration.json`. -/
  marker : Bool

/-- `path.extension()` is `json`. -/
def hasJsonExtension (name : String) : Bool :=
  decide (".json".toList <:+ name.toList) && decide (5 < name.toList.length)

/-- A JSON file right inside a directory of this name. -/
def isFileIn (directory : String) (path : Path) : Bool :=
  match path.reverse with
  | name :: parent :: _ => hasJsonExtension name && parent == directory
  | _ => false

def scopeOf (path : Path) : Path := path.dropLast.dropLast

/-- The name of the vault of a scope. -/
def scopeName : Path → Except String String
  | [] => return "global"
  | ["agents", agentId] => return "agent:" ++ agentId
  | ["agents", _, "conversations", threadId] => return "thread:" ++ threadId
  | scope => .error ("unrecognized legacy secret scope: " ++ "/".intercalate scope)

def recordPath (scope : Path) : Path := scope ++ ["record.json"]

/-- The scopes whose secrets a binding may refer to, the innermost first. -/
def scopesOf (scope : Path) : List Path :=
  [scope] ++ (if scope.length = 4 then [scope.dropLast.dropLast] else []) ++ [[]]

variable {Encrypted Data Legacy : Type} (lib : Libraries) (cipher : SecretCipher Encrypted Data)

/-- The closure of `import_secret`. -/
def importSecret (draw : Draw) (vaultId : VaultId) (metadata : SecretMetadata) (secret : Secret) :
    InPlace (Catalog Encrypted) Unit := do
  let vault ← .look (Catalog.vault vaultId)
  match vault.find metadata.id with
  | some stored => do
    let existing ← .check (cipher.decrypt vaultId stored)
    .check (ensure (stored.metadata == metadata && existing == secret)
      "migrated secret conflicts with an existing vault entry")
  | none => do
    let encrypted ← .check (encrypt lib cipher draw.nonce vaultId metadata secret)
    .update (Catalog.pushSecret vaultId ⟨metadata, encrypted⟩)

/-- What a call takes from the rest of the world. -/
abbrev Draws (Encrypted : Type) := Catalog Encrypted → Draw

variable (draws : Draws Encrypted)

/-- An access of the vault store. -/
def accessCatalog {α : Type} (operation : Draw → InPlace (Catalog Encrypted) α) :
    Durable (Store Encrypted Legacy) α := fun store ↦
  Durable.access Store.catalog (fun catalog store ↦ { store with catalog })
    (operation (draws store.catalog)) store

def findVault (name : String) : Durable (Store Encrypted Legacy) (Option VaultRecord) :=
  Durable.read fun store ↦
    .ok ((store.catalog.vaults.find? (·.record.name == name)).map (·.record))

def globalVault : Durable (Store Encrypted Legacy) VaultRecord := do
  match ← findVault "global" with
  | some record => return record
  | none => accessCatalog draws createGlobal

/-- The vault of a name, among those that `list_vaults` gives; it makes the global one first. -/
def scopeVault (name : String) : Durable (Store Encrypted Legacy) VaultRecord := do
  let _ ← globalVault draws
  match ← findVault name with
  | some record => return record
  | none => accessCatalog draws (createVault · name)

/-- The record with the vault in its list, if it is not there yet. -/
def attach {V S B : Type} [DecidableEq V] (scope : Path) (vault : V) :
    Doc V S B → Except String (Option (Doc V S B))
  | .agent record =>
    if scope.length = 2 then
      if vault ∈ record.vaults then .ok none
      else .ok (some (.agent { record with vaults := record.vaults ++ [vault] }))
    else .error "invalid conversation record"
  | .conversation record =>
    if scope.length = 2 then .error "invalid agent record"
    else if vault ∈ record.vaults then .ok none
      else .ok (some (.conversation { record with vaults := record.vaults ++ [vault] }))
  | _ => .error "invalid record"

def getFile {D : Type} (files : Files D) (path : Path) : Except String D :=
  context (files.get path) ("object not found: " ++ "/".intercalate path)

/-- The record of the scope lists the vault; the global scope has no record. -/
def attachVault (scope : Path) (vaultId : VaultId) : Durable (Store Encrypted Legacy) Unit := do
  if scope = [] then return ()
  else do
    let attached ← Durable.read fun store ↦ do
      attach scope vaultId (← getFile store.files (recordPath scope))
    match attached with
    | none => return ()
    | some record =>
      Durable.write fun store ↦ { store with files := store.files.put (recordPath scope) record }

variable (decryptSecret : Legacy → Except String Secret)

/-- The metadata and the value of a legacy secret. -/
def readSecret (path : Path) (store : Store Encrypted Legacy) :
    Except String (SecretMetadata × Secret) := do
  match ← getFile store.files path with
  | .secret metadata secret => return (metadata, ← decryptSecret secret)
  | _ => .error "invalid secret"

/-- The scopes and ids of the secrets found, with their references. -/
abbrev References := List ((Path × SecretId) × Reference VaultId)

/-- One round of the loop over the secrets. -/
def migrateSecret (path : Path) :
    Durable (Store Encrypted Legacy) ((Path × SecretId) × Reference VaultId) := do
  let name ← Durable.read fun _ ↦ scopeName (scopeOf path)
  let vault ← scopeVault draws name
  let (metadata, secret) ← Durable.read (readSecret decryptSecret path)
  accessCatalog draws (importSecret lib cipher · vault.id metadata secret)
  attachVault (scopeOf path) vault.id
  return ((scopeOf path, metadata.id), ⟨vault.id, metadata.id⟩)

/-- The loop over the secrets; it collects the references. -/
def migrateSecrets : List Path → References → Durable (Store Encrypted Legacy) References
  | [], references => return references
  | path :: paths, references => do
    if isFileIn "secrets" path then
      let reference ← migrateSecret lib cipher draws decryptSecret path
      migrateSecrets paths (reference :: references)
    else migrateSecrets paths references

/-- The innermost scope that has the secret. -/
def resolve (references : References) (scope : Path) (id : SecretId) :
    Except String (Reference VaultId) :=
  context ((scopesOf scope).findSome? fun scope ↦ references.lookup (scope, id))
    ("legacy binding references missing secret " ++ toString id)

/-- The version of a stored binding. -/
def readBinding (path : Path) (store : Store Encrypted Legacy) :
    Except String (BindingHeader × StoredBindingVersion VaultId) := do
  match ← getFile store.files path with
  | .binding header json =>
    return (header, ← context (StoredBindingVersion.decode json)
      "data did not match any variant of untagged enum StoredBindingVersion")
  | _ => .error "invalid binding"

/-- One round of the loop over the bindings. -/
def migrateBinding (references : References) (path : Path) : Durable (Store Encrypted Legacy) Unit := do
  let (header, version) ← Durable.read (readBinding path)
  match version with
  | .current _ => return ()
  | .legacy binding => do
    let migrated ← Durable.read fun _ ↦ binding.migrate (resolve references (scopeOf path))
    match migrated with
    | none => Durable.write fun store ↦ { store with files := store.files.delete path }
    | some binding => Durable.write fun store ↦
        { store with files := store.files.put path (.binding header binding.encode) }

def migrateBindings (references : References) : List Path → Durable (Store Encrypted Legacy) Unit
  | [] => return ()
  | path :: paths => do
    if isFileIn "bindings" path then
      migrateBinding references path
      migrateBindings references paths
    else migrateBindings references paths

def deleteSecrets : List Path → Durable (Store Encrypted Legacy) Unit
  | [] => return ()
  | path :: paths => do
    Durable.write fun store ↦ { store with files := store.files.delete path }
    deleteSecrets paths

def migrateLegacySecrets : Durable (Store Encrypted Legacy) Unit := do
  if ← Durable.read fun store ↦ .ok store.marker then return ()
  else do
    let keys ← Durable.read fun store ↦ .ok store.files.keys
    let references ← migrateSecrets lib cipher draws decryptSecret keys []
    migrateBindings references keys
    deleteSecrets (keys.filter (isFileIn "secrets"))
    Durable.write fun store ↦ { store with marker := true }

end Exo.Migration
