import Mathlib.Algebra.Order.BigOperators.Group.List
import Exo.Migration.Outcome
import Exo.Vault.Runs

/-!
# Migrations that are stopped and started again

Any number of runs, each stopped after any of its writes, and then a run to its end, leave what one run
leaves, with other vault ids.  What that is follows from what every step keeps.
-/

namespace Exo.Migration

open Library Egress Vault List

variable {Encrypted Data Legacy : Type} {cipher : SecretCipher Encrypted Data}
  {decryptSecret : Legacy → Except String Secret} {lib : Libraries}
  {start store : Store Encrypted Legacy} {o m : Meaning} {path : Path}

/-- A store from before there were vaults. -/
structure LegacyStore (start : Store Encrypted Legacy) : Prop where
  vaults : start.catalog.vaults = []
  marker : start.marker = false
  keys : start.files.keys.Nodup
  mentions : ∀ file ∈ start.files, file.2.mentions = []

theorem LegacyStore.good (hlegacy : LegacyStore start) : Good start where
  ids := by simp [vaultRecords, hlegacy.vaults]
  names := by simp [vaultRecords, hlegacy.vaults]
  keys := hlegacy.keys
  mentions := fun file hfile id hid ↦ by simp [hlegacy.mentions file hfile] at hid

theorem vaults_plain {records : List VaultRecord} {doc : Doc VaultId Legacy Json}
    (hmentions : doc.mentions = []) : (doc.plain decryptSecret records).vaults = [] := by
  cases doc with
  | agent | conversation =>
    simp only [Doc.mentions] at hmentions
    simp [Doc.plain, Doc.vaults, hmentions]
  | secret | binding | other => rfl

theorem LegacyStore.underway (hlegacy : LegacyStore start) :
    Underway lib (meaning cipher decryptSecret start) (meaning cipher decryptSecret start) := by
  have hkeys : (meaning cipher decryptSecret start).files.keys.Nodup := by
    rw [keys_meaning]
    exact hlegacy.keys
  refine ⟨hkeys, hkeys, fun name secrets hlookup ↦ ?_, fun _ _ _ _ hget ↦ .inl hget,
    fun _ _ _ ↦ id, fun _ _ _ _ hget ↦ .inl hget, fun path doc hget ↦ ?_, fun htrue ↦ ?_⟩
  · simp [meaning, hlegacy.vaults] at hlookup
  · rw [get_meaning, Option.map_eq_some_iff] at hget
    obtain ⟨doc, hget, rfl⟩ := hget
    rw [vaults_plain (hlegacy.mentions _ (mem_of_get hget))]
    exact nodup_nil
  · cases hlegacy.marker.symm.trans htrue

/-- The secret that a vault has under an id. -/
def Meaning.readVault (m : Meaning) (name : String) (id : SecretId) :
    Option (SecretMetadata × Option Secret) :=
  (m.vaults.lookup name).bind fun secrets ↦ secrets.find? (·.1.id = id)

/-- A thread is told by its id. -/
def SameScope (scope scope' : Path) : Prop :=
  scope = scope' ∨ ∃ agentId agentId' threadId,
    scope = ["agents", agentId, "conversations", threadId] ∧
      scope' = ["agents", agentId', "conversations", threadId]

variable {scope : Path} {name : String}

theorem scopeName_cases (hname : scopeName scope = .ok name) : (scope = [] ∧ name = "global") ∨
      (∃ agentId, scope = ["agents", agentId] ∧ name = "agent:" ++ agentId) ∨
      ∃ agentId threadId, scope = ["agents", agentId, "conversations", threadId] ∧
        name = "thread:" ++ threadId := by
  unfold scopeName at hname
  split at hname <;> cases hname
  · exact .inl ⟨rfl, rfl⟩
  · exact .inr (.inl ⟨_, rfl, rfl⟩)
  · exact .inr (.inr ⟨_, _, rfl, rfl⟩)

theorem sameScope_of_scopeName {scope' : Path} (hscope : scopeName scope = .ok name)
    (hscope' : scopeName scope' = .ok name) : SameScope scope scope' := by
  rcases scopeName_cases hscope with
    ⟨rfl, hname⟩ | ⟨agentId, rfl, hname⟩ | ⟨agentId, threadId, rfl, hname⟩ <;>
  rcases scopeName_cases hscope' with
    ⟨rfl, hname'⟩ | ⟨agentId', rfl, hname'⟩ | ⟨agentId', threadId', rfl, hname'⟩
  all_goals
    have hsame := congrArg String.toList (hname.symm.trans hname')
    simp only [String.toList_append] at hsame
  case inl.inl => exact .inl rfl
  case inr.inl.inr.inl => exact .inl (by rw [String.toList_inj.1 (append_cancel_left hsame)])
  case inr.inr.inr.inr =>
    refine .inr ⟨agentId, agentId', threadId, rfl, ?_⟩
    rw [String.toList_inj.1 (append_cancel_left hsame)]
  all_goals simp at hsame

/-- Every binding refers to the secrets that the innermost scopes have. -/
def BindingsRewritten (o m : Meaning) : Prop :=
  ∀ path header version, isFileIn "bindings" path →
    o.files.get path = some (.binding header version) →
    (∃ binding, version = some (.current binding) ∧
      m.files.get path = some (.binding header version)) ∨
    ∃ binding, version = some (.legacy binding) ∧
      Rewritten (o.resolve (scopeOf path)) header binding (m.files.get path)

/-- What the migration of a legacy store comes to. -/
structure Migrated (o m : Meaning) : Prop where
  readable : ∀ path metadata value, isFileIn "secrets" path →
    o.files.get path = some (.secret metadata value) →
    ∃ name secret, scopeName (scopeOf path) = .ok name ∧ value = some secret ∧
      m.readVault name metadata.id = some (metadata, some secret)
  no_other : ∀ scope name id entry, scopeName scope = .ok name →
    m.readVault name id = some entry →
    ∃ path, isFileIn "secrets" path ∧ SameScope (scopeOf path) scope ∧
      o.files.get path = some (.secret entry.1 entry.2) ∧ entry.1.id = id
  bindings : BindingsRewritten o m
  records : ∀ path metadata value, isFileIn "secrets" path →
    o.files.get path = some (.secret metadata value) → scopeOf path ≠ [] →
    ∃ name record, scopeName (scopeOf path) = .ok name ∧
      m.files.get (recordPath (scopeOf path)) = some record ∧ record.vaults.count name = 1
  deleted : ∀ path ∈ m.files.keys, ¬ isFileIn "secrets" path
  marker : m.marker = true

theorem Underway.bindingsRewritten (hunderway : Underway lib o m) (hfinished : Finished lib o m) :
    BindingsRewritten o m := by
  intro path header version hfile hget
  rcases hunderway.bindings path header version hfile hget with hsame | hrewritten
  · have hkey : path ∈ m.files.keys := by
      rw [← Files.isSome_get, hsame]
      rfl
    obtain ⟨header', binding, hcurrent⟩ :=
      bindingWork_eq_none.1 (hfinished.bindings path hkey) hfile
    cases hsame.symm.trans hcurrent
    exact .inl ⟨binding, rfl, hsame⟩
  · exact .inr hrewritten

theorem count_of_attached {doc : Plain} (hattach : attach scope name doc = .ok none)
    (hnodup : doc.vaults.Nodup) : doc.vaults.count name = 1 := by
  refine count_eq_one_of_mem hnodup ?_
  unfold attach at hattach
  split at hattach
  · split at hattach
    · split at hattach
      · assumption
      · cases hattach
    · cases hattach
  · split at hattach
    · cases hattach
    · split at hattach
      · assumption
      · cases hattach
  · cases hattach

theorem Underway.migrated (hunderway : Underway lib o m) (hmarker : m.marker = true) :
    Migrated o m := by
  obtain ⟨hfinished, hdeleted⟩ := hunderway.marker hmarker
  refine ⟨?_, ?_, hunderway.bindingsRewritten hfinished, ?_, hdeleted, hmarker⟩
  · intro path metadata value hfile hget
    obtain ⟨secret, rfl, -, name, secrets, hname, hsecrets, hfind, -⟩ :=
      hfinished.imported path metadata value hfile hget
    exact ⟨name, secret, hname, rfl, by rw [Meaning.readVault, hsecrets, Option.bind_some, hfind]⟩
  · intro scope name id entry hname hread
    obtain ⟨secrets, hsecrets, hfind⟩ := Option.bind_eq_some_iff.1 hread
    obtain ⟨path, hfile, hscope, hget⟩ :=
      hunderway.vaults name secrets hsecrets entry (mem_of_find?_eq_some hfind)
    exact ⟨path, hfile, sameScope_of_scopeName hscope hname, hget, by simpa using find?_some hfind⟩
  · intro path metadata value hfile hget hscope
    obtain ⟨secret, rfl, -, name, secrets, hname, -, -, hattached⟩ :=
      hfinished.imported path metadata value hfile hget
    obtain ⟨record, hrecord, hattach⟩ := hattached.resolve_left hscope
    exact ⟨name, record, hname, hrecord, count_of_attached hattach (hunderway.records _ _ hrecord)⟩

/-- The runs of the migration, with any new ids for vaults. -/
def IsMigration (lib : Libraries) (cipher : SecretCipher Encrypted Data)
    (decryptSecret : Legacy → Except String Secret)
    (program : Durable (Store Encrypted Legacy) Unit) : Prop :=
  ∃ draws, Fresh draws ∧ program = migrateLegacySecrets lib cipher draws decryptSecret

theorem not_finished_of_error {message : String} (hstep : nextStep lib m = .error message) :
    ¬ Finished lib o m := by
  intro hfinished
  cases hmarker : m.marker with
  | true =>
    rw [nextStep, if_pos hmarker] at hstep
    cases hstep
  | false =>
    cases (nextStep_of_lastWork hmarker hfinished.secrets hfinished.bindings).symm.trans hstep

theorem marker_of_nextStep (hstep : nextStep lib m = .ok none) : m.marker = true := by
  unfold nextStep at hstep
  split at hstep
  · assumption
  · rw [bind_eq_ok] at hstep
    obtain ⟨secret, -, hstep⟩ := hstep
    split at hstep
    · cases hstep
    · rw [bind_eq_ok] at hstep
      obtain ⟨binding, -, hstep⟩ := hstep
      split at hstep <;> cases hstep

theorem follows_of_isMigration (lib : Libraries) (decryptSecret : Legacy → Except String Secret)
    (hcipher : cipher.Lawful) (hencrypts : Encrypts cipher)
    (program : Durable (Store Encrypted Legacy) Unit)
    (hprogram : IsMigration lib cipher decryptSecret program) :
    Durable.Follows Good (meaning cipher decryptSecret) (nextStep lib) (fun _ ↦ True) program
      fun _ store ↦ nextStep lib (meaning cipher decryptSecret store) = .ok none := by
  obtain ⟨draws, hfresh, rfl⟩ := hprogram
  exact follows_migrateLegacySecrets hfresh hcipher hencrypts

/-- What is so of every store that runs leave, each of them stopped after any of its writes. -/
theorem underway_of_stopped (hcipher : cipher.Lawful) (hencrypts : Encrypts cipher)
    (hlegacy : LegacyStore start)
    (hstopped : Durable.Stopped (IsMigration lib cipher decryptSecret) start store) :
    Good store ∧
      Underway lib (meaning cipher decryptSecret start) (meaning cipher decryptSecret store) := by
  obtain ⟨hgood, hreaches⟩ :=
    hstopped.reaches (follows_of_isMigration lib decryptSecret hcipher hencrypts) hlegacy.good
  exact ⟨hgood, hlegacy.underway.reaches hreaches⟩

/-- Any number of stopped runs and then a run to its end leave what a single run leaves, but for the
ids of the vaults, and fail if that fails.  A run that succeeds leaves the store migrated; one that
fails has deleted no secret.  Whenever a run is stopped, or a write of it fails, secrets are missing
only if all bindings are rewritten. -/
theorem migration_across_retries (hcipher : cipher.Lawful) (hencrypts : Encrypts cipher)
    (hlegacy : LegacyStore start)
    (hstopped : Durable.Stopped (IsMigration lib cipher decryptSecret) start store)
    {run single : Durable (Store Encrypted Legacy) Unit}
    (hrun : IsMigration lib cipher decryptSecret run)
    (hsingle : IsMigration lib cipher decryptSecret single) :
    let meaning := meaning cipher decryptSecret
    (meaning (run.final store) = meaning (single.final start) ∧
      ((run store).result.isOk ↔ (single start).result.isOk)) ∧
    ((run store).result.isOk → Migrated (meaning start) (meaning (run.final store))) ∧
    (¬ (run store).result.isOk → ∀ path metadata value, isFileIn "secrets" path →
      (meaning start).files.get path = some (.secret metadata value) →
        (meaning (run.final store)).files.get path = some (.secret metadata value)) ∧
    ∀ store', run.Leaves store store' ∨ run.Breaks store store' →
      (∃ path metadata value, isFileIn "secrets" path ∧
        (meaning start).files.get path = some (.secret metadata value) ∧
        (meaning store').files.get path = none) →
      BindingsRewritten (meaning start) (meaning store') := by
  intro meaning
  have hfollows := follows_of_isMigration lib decryptSecret hcipher hencrypts
  have hfinal : Durable.Stopped (IsMigration lib cipher decryptSecret) start (run.final store) :=
    hstopped.run hrun (run.leaves_final store)
  obtain ⟨hgood, -⟩ := underway_of_stopped hcipher hencrypts hlegacy hstopped
  obtain ⟨-, hunderway⟩ := underway_of_stopped hcipher hencrypts hlegacy hfinal
  obtain ⟨-, hresult⟩ := hfollows run hrun store hgood trivial
  refine ⟨hstopped.final_eq hfollows hlegacy.good hrun hsingle, ?_, ?_, ?_⟩
  · intro hok
    cases hvalue : (run store).result with
    | error message =>
      rw [hvalue] at hok
      cases hok
    | ok _ =>
      rw [hvalue] at hresult
      exact hunderway.migrated (marker_of_nextStep hresult)
  · intro hfails path metadata value hfile hget
    cases hvalue : (run store).result with
    | error message =>
      rw [hvalue] at hresult
      obtain ⟨message', hmessage'⟩ := hresult
      exact hunderway.secret_of_not_finished (not_finished_of_error hmessage') hfile hget
    | ok _ =>
      rw [hvalue] at hfails
      exact absurd rfl hfails
  · rintro store' hleaves ⟨path, metadata, value, hfile, hget, hmissing⟩
    have hleaves' : run.Leaves store store' := hleaves.elim id Durable.Breaks.leaves
    obtain ⟨-, hunderway'⟩ :=
      underway_of_stopped hcipher hencrypts hlegacy (hstopped.run hrun hleaves')
    rcases hunderway'.secrets path metadata value hfile hget with hpresent | hfinished
    · cases hmissing.symm.trans hpresent
    · exact hunderway'.bindingsRewritten hfinished

/-- The next id, with a nonce that is not looked at. -/
def nextId : Draws Encrypted := fun catalog ↦
  ⟨((vaultRecords catalog).map (·.id)).sum + 1, 0, 0⟩

theorem fresh_nextId : Fresh (nextId : Draws Encrypted) := by
  intro catalog hmem
  have hle := le_sum_of_mem hmem
  exact absurd hle (Nat.not_succ_le_self _)

theorem encrypts_pairCipher : Encrypts pairCipher := fun _ _ _ ↦ ⟨_, rfl⟩

def token (value : String) : Doc VaultId Secret Json :=
  .secret ⟨none, 0, 7, .key, "token", 0⟩ (.key value)

/-- A secret of the same id in the global scope and in the scope of an agent, which has a binding. -/
def tokenStore : Store (Secret × Authenticated) Secret where
  catalog := {}
  files := [(["agents", "coder", "bindings", "env.json"],
      .binding ⟨3, "env", "token", 0⟩ (.object [("type", .text "env"), ("name", .text "token"),
        ("env_var", .text "TOKEN"), ("secret_id", .id 7)])),
    (["agents", "coder", "record.json"], .agent ⟨2, "coder", "Coder", []⟩),
    (["agents", "coder", "secrets", "token.json"], token "inner"),
    (["secrets", "token.json"], token "outer")]
  marker := false

def tokenMigration : Durable (Store (Secret × Authenticated) Secret) Unit :=
  migrateLegacySecrets tokenLibraries pairCipher nextId .ok

theorem legacyStore_tokenStore : LegacyStore tokenStore :=
  ⟨rfl, rfl, by decide +kernel, by decide +kernel⟩

theorem isMigration_tokenMigration : IsMigration tokenLibraries pairCipher .ok tokenMigration :=
  ⟨nextId, fresh_nextId, rfl⟩

/-- The store after the first writes of a run. -/
def tokenStopped (writes : ℕ) : Store (Secret × Authenticated) Secret :=
  ((tokenMigration tokenStore).stores.take writes).getLastD tokenStore

theorem breaks_tokenStopped {writes : ℕ} (hwrites : writes < (tokenMigration tokenStore).stores.length) :
    tokenMigration.Breaks tokenStore (tokenStopped writes) :=
  ⟨_, _, (take_append_drop writes _).symm, by simpa using hwrites, rfl⟩

theorem migration_across_retries_tokens : Migrated (meaning pairCipher .ok tokenStore)
        (meaning pairCipher .ok (tokenMigration.final (tokenStopped 3))) ∧
      meaning pairCipher .ok (tokenMigration.final (tokenStopped 3)) =
        meaning pairCipher .ok (tokenMigration.final tokenStore) := by
  have hstopped : Durable.Stopped (IsMigration tokenLibraries pairCipher .ok) tokenStore
      (tokenStopped 3) :=
    .run .start isMigration_tokenMigration (breaks_tokenStopped (by decide +kernel)).leaves
  have hspec := migration_across_retries lawful_pairCipher encrypts_pairCipher
    legacyStore_tokenStore hstopped isMigration_tokenMigration isMigration_tokenMigration
  exact ⟨hspec.2.1 (by decide +kernel), hspec.1.1⟩

/-- The last write fails: the run fails, and both secrets are deleted. -/
theorem failing_write_after_deletions :
    ∃ store, tokenMigration.Breaks tokenStore store ∧ store.marker = false ∧
      secretPaths tokenStore = [["agents", "coder", "secrets", "token.json"],
        ["secrets", "token.json"]] ∧ secretPaths store = [] :=
  ⟨tokenStopped 8, breaks_tokenStopped (by decide +kernel), by decide +kernel, by decide +kernel,
    by decide +kernel⟩

end Exo.Migration
