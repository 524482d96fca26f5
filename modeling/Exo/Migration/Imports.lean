import Exo.Migration.Refinement

/-!
# The loop over the secrets

At a file of the loop all earlier secrets are done.  Each access of the vault store and each write of a
record is the next step, or changes nothing.
-/

namespace Exo.Migration

open Library Egress Vault List Option

variable {Encrypted Data Legacy : Type} {lib : Libraries} {cipher : SecretCipher Encrypted Data}
  {decryptSecret : Legacy → Except String Secret} {references : References} {path : Path}
  {rest : List Path} {name : String} {record : VaultRecord} {metadata : SecretMetadata}
  {secret : Secret} {store store' : Store Encrypted Legacy} {draws : Draws Encrypted}

/-- Ids of new vaults are not taken. -/
def Fresh (draws : Draws Encrypted) : Prop :=
  ∀ catalog, (draws catalog).id ∉ (vaultRecords catalog).map (·.id)

/-- The id of the secret in a file. -/
def Meaning.secretId (m : Meaning) (path : Path) : Option SecretId :=
  match m.files.get path with
  | some (.secret metadata _) => some metadata.id
  | _ => none

/-- The references are those of the secrets at the paths. -/
structure Collected (paths : List Path) (references : References) (records : List VaultRecord)
    (m : Meaning) : Prop where
  found : ∀ scope id reference, references.lookup (scope, id) = some reference →
    reference.secret = id ∧ ∃ record ∈ records, record.id = reference.vault ∧
      scopeName scope = .ok record.name
  complete : ∀ scope id, (references.lookup (scope, id)).isSome ↔
    ∃ path ∈ paths, isFileIn "secrets" path ∧ scopeOf path = scope ∧ m.secretId path = some id

variable (lib cipher decryptSecret references rest store) in
/-- The loop is before the rest of the paths; the secrets at the paths before are done. -/
structure AtSecrets : Prop where
  marker : store.marker = false
  keys : ∃ done, store.files.keys = done ++ rest ∧
    (∀ path ∈ done, secretWork lib path (meaning cipher decryptSecret store) = .ok none) ∧
    Collected done references (vaultRecords store.catalog) (meaning cipher decryptSecret store)

/-- A write that keeps what was done. -/
structure Advances (cipher : SecretCipher Encrypted Data)
    (decryptSecret : Legacy → Except String Secret) (store store' : Store Encrypted Legacy) :
    Prop where
  keys : store'.files.keys = store.files.keys
  marker : store'.marker = store.marker
  records : ∀ record ∈ vaultRecords store.catalog, record ∈ vaultRecords store'.catalog
  keeps : ∀ path, Keeps path (meaning cipher decryptSecret store)
    (meaning cipher decryptSecret store')

variable {m : Meaning} {pre : Store Encrypted Legacy → Prop} {vault : StoredVault Encrypted}
  {secrets : PlainSecrets}
  {m' : Meaning} {result : Except String (Option Meaning)} {catalog : Catalog Encrypted}
  {scope : Path} {paths : List Path} {records : List VaultRecord}

theorem secretId_of_done (hpath : isFileIn "secrets" path)
    (hdone : secretWork lib path m = .ok none) (hkeeps : Keeps path m m') :
    m'.secretId path = m.secretId path := by
  obtain ⟨metadata, secret, hget, -⟩ := (secretWork_eq_none hpath).1 hdone
  rw [Meaning.secretId, Meaning.secretId, hget, hkeeps.secret _ _ hget]

theorem AtSecrets.advances (hat : AtSecrets lib cipher decryptSecret references rest store)
    (hadvances : Advances cipher decryptSecret store store') :
    AtSecrets lib cipher decryptSecret references rest store' := by
  obtain ⟨hmarker, done, hkeys, hdone, hfound, hcomplete⟩ := hat
  refine ⟨hadvances.marker.trans hmarker, done, hadvances.keys.trans hkeys,
    fun path hpath ↦ (hadvances.keeps path).secretWork (hdone path hpath), ?_, ?_⟩
  · intro scope id reference hlookup
    obtain ⟨hid, record, hrecord, hrest⟩ := hfound scope id reference hlookup
    exact ⟨hid, record, hadvances.records record hrecord, hrest⟩
  · intro scope id
    rw [hcomplete]
    refine exists_congr fun path ↦ and_congr_right fun hpath ↦ and_congr_right fun hfile ↦
      and_congr_right fun _ ↦ ?_
    rw [secretId_of_done hfile (hdone path hpath) (hadvances.keeps path)]

/-- The next step is the work at the first of the rest. -/
theorem AtSecrets.nextStep
    (hat : AtSecrets lib cipher decryptSecret references (path :: rest) store)
    (hwork : secretWork lib path (meaning cipher decryptSecret store) = result)
    (hresult : result ≠ .ok none) : nextStep lib (meaning cipher decryptSecret store) = result := by
  obtain ⟨hmarker, done, hkeys, hdone, -⟩ := hat
  have hmeaningKeys : (meaning cipher decryptSecret store).files.keys = done ++ path :: rest := by
    rw [meaning, Files.keys_mapDocs, hkeys]
  exact nextStep_of_secretWork hmarker hmeaningKeys hdone hwork hresult

/-! ## Accesses of the vault store -/

theorem follows_accessCatalog {α : Type} {operation : Draw → InPlace (Catalog Encrypted) α}
    {post : α → Store Encrypted Legacy → Prop}
    (hok : ∀ store value catalog, Good store → pre store →
      (operation (draws store.catalog)).runOn store.catalog = (.ok value, catalog) →
      Good (withCatalog catalog store) ∧
        Durable.Reaches (nextStep lib) (meaning cipher decryptSecret store)
          (meaning cipher decryptSecret (withCatalog catalog store)) ∧
        post value (withCatalog catalog store))
    (hstuck : ∀ store message catalog, Good store → pre store →
      (operation (draws store.catalog)).runOn store.catalog = (.error message, catalog) →
      ∃ message, nextStep lib (meaning cipher decryptSecret store) = .error message) :
    Durable.Follows Good (meaning cipher decryptSecret) (nextStep lib) pre
      (accessCatalog draws operation) post := by
  refine Durable.follows_of_trace fun store hgood hpre ↦ ?_
  cases hrun : (operation (draws store.catalog)).runOn store.catalog with
  | mk result catalog =>
    cases result with
    | error message =>
      obtain ⟨message', hmessage'⟩ := hstuck store message catalog hgood hpre hrun
      exact .inl ⟨message, message', Durable.access_of_error hrun, hmessage'⟩
    | ok value =>
      obtain ⟨hgood', hreaches, hpost⟩ := hok store value catalog hgood hpre hrun
      exact .inr ⟨value, withCatalog catalog store, Durable.access_of_ok hrun, hgood', hreaches,
        hpost⟩

theorem follows_findVault (name : String) :
    Durable.Follows Good (meaning cipher decryptSecret) (nextStep lib) pre (findVault name)
      fun found store ↦ pre store ∧ match found with
        | some record => record ∈ vaultRecords store.catalog ∧ record.name = name
        | none => name ∉ (vaultRecords store.catalog).map (·.name) := by
  refine Durable.follows_read ?_ ?_
  · intro store found _ hpre hfound
    cases hfound
    refine ⟨hpre, ?_⟩
    cases hfind : store.catalog.vaults.find? (·.record.name == name) with
    | none => simpa [vaultRecords] using hfind
    | some vault =>
      exact ⟨mem_map_of_mem (mem_of_find?_eq_some hfind), by simpa using find?_some hfind⟩
  · intro store message _ _ herror
    cases herror

variable (lib cipher decryptSecret references path rest name store) in
/-- The store at a file whose vault has this name. -/
structure AtSecret : Prop where
  at_secrets : AtSecrets lib cipher decryptSecret references (path :: rest) store
  file : isFileIn "secrets" path
  scope : scopeName (scopeOf path) = .ok name

theorem lookup_isSome_of_record {record : VaultRecord}
    (hgood : Good store) (hrecord : record ∈ vaultRecords store.catalog) :
    ((meaning cipher decryptSecret store).vaults.lookup record.name).isSome := by
  obtain ⟨vault, hvault, rfl⟩ := mem_map.1 hrecord
  rw [lookup_vaults hgood hvault]
  rfl

theorem lookup_eq_none_of_name (hname : name ∉ (vaultRecords store.catalog).map (·.name)) :
    (meaning cipher decryptSecret store).vaults.lookup name = none := by
  cases hlookup : (meaning cipher decryptSecret store).vaults.lookup name with
  | none => rfl
  | some secrets =>
    obtain ⟨vault, hvault, heq⟩ := exists_of_lookup_vaults hlookup
    have hvaultName : vault.record.name = name := congrArg Prod.fst heq
    exact absurd (hvaultName ▸ mem_map_of_mem (mem_map_of_mem hvault)) hname

theorem advances_pushVault (hgood : Good store) (record : VaultRecord) :
    Advances cipher decryptSecret store
      (withCatalog (store.catalog.pushVault ⟨record, []⟩) store) where
  keys := rfl
  marker := rfl
  records := by
    intro other hother
    rw [withCatalog, records_pushVault]
    exact mem_append_left _ hother
  keeps := by
    intro path
    rw [meaning_pushVault hgood]
    exact .pushVault

section
variable (hat : AtSecret lib cipher decryptSecret references path rest name store)
include hat

theorem AtSecret.advances (hadvances : Advances cipher decryptSecret store store') :
    AtSecret lib cipher decryptSecret references path rest name store' :=
  ⟨hat.at_secrets.advances hadvances, hat.file, hat.scope⟩

theorem AtSecret.nextStep
    (hwork : secretWork lib path (meaning cipher decryptSecret store) = result)
    (hresult : result ≠ .ok none) :
    Migration.nextStep lib (meaning cipher decryptSecret store) = result :=
  hat.at_secrets.nextStep hwork hresult

end

/-! ### The work at a file, by what is missing -/

section Work
variable {m : Meaning} {secrets : PlainSecrets}

section
variable (hfile : isFileIn "secrets" path) (hscope : scopeName (scopeOf path) = .ok name)
include hfile hscope

theorem secretWork_of_no_global (hglobal : m.vaults.lookup "global" = none) :
    secretWork lib path m = .ok (some (m.pushVault "global")) := by
  rw [secretWork, if_pos hfile, hscope, hglobal]
  rfl

theorem secretWork_of_no_vault (hglobal : (m.vaults.lookup "global").isSome)
    (hvault : m.vaults.lookup name = none) :
    secretWork lib path m = .ok (some (m.pushVault name)) := by
  obtain ⟨globals, hglobals⟩ := isSome_iff_exists.1 hglobal
  simp only [secretWork, if_pos hfile, hscope, hglobals, hvault, bind, Except.bind,
    isNone_some, Bool.false_eq_true, if_false]
  rfl

theorem secretWork_of_vault (hglobal : (m.vaults.lookup "global").isSome)
    (hvault : m.vaults.lookup name = some secrets) :
    secretWork lib path m = importWork lib path name secrets m := by
  obtain ⟨globals, hglobals⟩ := isSome_iff_exists.1 hglobal
  simp only [secretWork, if_pos hfile, hscope, hglobals, hvault, bind, Except.bind,
    isNone_some, Bool.false_eq_true, if_false]

end

end Work

/-! ### The vault of the scope -/

theorem createGlobal_run (draw : Draw) (hname : "global" ∉ (vaultRecords catalog).map (·.name)) :
    (createGlobal draw).runOn catalog =
      (.ok ⟨draw.id, "global", draw.now⟩,
        catalog.pushVault ⟨⟨draw.id, "global", draw.now⟩, []⟩) := by
  have hfind : catalog.vaults.find? (·.record.name == "global") = none := by
    simpa [vaultRecords] using hname
  simp only [createGlobal, findGlobal, InPlace.runOn_bind, InPlace.runOn_look, hfind]
  rfl

/-- The name of a vault starts with a letter. -/
theorem trim_scopeName (hname : scopeName scope = .ok name) :
    (Scheduler.trim name.toList).isEmpty = false := by
  unfold scopeName at hname
  split at hname <;> cases hname
  · decide
  · rw [String.toList_append]
    exact trim_cons (by decide) _
  · rw [String.toList_append]
    exact trim_cons (by decide) _

/-- A new vault is the next step, if that is to make a vault of its name. -/
theorem follows_push (references : References) (path : Path) (rest : List Path)
    (name name' : String) {operation : Draw → InPlace (Catalog Encrypted) VaultRecord}
    (hfresh : Fresh draws) (hpre : ∀ store, pre store →
      AtSecret lib cipher decryptSecret references path rest name store ∧
        name' ∉ (vaultRecords store.catalog).map (·.name) ∧
        (operation (draws store.catalog)).runOn store.catalog =
          (.ok ⟨(draws store.catalog).id, name', (draws store.catalog).now⟩, store.catalog.pushVault
              ⟨⟨(draws store.catalog).id, name', (draws store.catalog).now⟩, []⟩) ∧
        secretWork lib path (meaning cipher decryptSecret store) =
          .ok (some ((meaning cipher decryptSecret store).pushVault name'))) :
    Durable.Follows Good (meaning cipher decryptSecret) (nextStep lib) pre
      (accessCatalog draws operation)
      fun record store ↦ AtSecret lib cipher decryptSecret references path rest name store ∧
        record ∈ vaultRecords store.catalog ∧ record.name = name' ∧
        ∃ before, pre before ∧ Advances cipher decryptSecret before store := by
  refine follows_accessCatalog ?_ ?_
  · intro store value catalog hgood hstore hrun
    obtain ⟨hat, hname, hrun', hwork⟩ := hpre store hstore
    cases hrun'.symm.trans hrun
    have hadvances : Advances cipher decryptSecret store (withCatalog (store.catalog.pushVault
        ⟨⟨(draws store.catalog).id, name', (draws store.catalog).now⟩, []⟩) store) :=
      advances_pushVault hgood _
    refine ⟨hgood.pushVault (hfresh store.catalog) hname, ?_, hat.advances hadvances, ?_, rfl,
      store, hstore, hadvances⟩
    · rw [meaning_pushVault hgood]
      exact .single (hat.nextStep hwork (by simp))
    · rw [withCatalog, records_pushVault]
      exact mem_append_right _ (mem_singleton_self _)
  · intro store message catalog _ hstore hrun
    obtain ⟨-, -, hrun', -⟩ := hpre store hstore
    cases hrun'.symm.trans hrun

/-- Making the global vault is the next step when there is none. -/
theorem follows_globalVault (hfresh : Fresh draws) :
    Durable.Follows Good (meaning cipher decryptSecret) (nextStep lib)
      (AtSecret lib cipher decryptSecret references path rest name) (globalVault draws)
      fun _ store ↦ AtSecret lib cipher decryptSecret references path rest name store ∧
        ((meaning cipher decryptSecret store).vaults.lookup "global").isSome := by
  refine (follows_findVault "global").bind fun found ↦ ?_
  cases found with
  | some record =>
    refine Durable.follows_pure fun store hgood hpre ↦ ?_
    obtain ⟨hat, hrecord, hname⟩ := hpre
    exact ⟨hat, hname ▸ lookup_isSome_of_record hgood hrecord⟩
  | none =>
    refine (follows_push references path rest name "global" hfresh fun store hpre ↦ ?_).weaken
      (fun _ _ ↦ id) fun record store hgood hpost ↦ ?_
    · obtain ⟨hat, hname⟩ := hpre
      exact ⟨hat, hname, createGlobal_run _ hname,
        secretWork_of_no_global hat.file hat.scope (lookup_eq_none_of_name hname)⟩
    · obtain ⟨hat, hrecord, hname, -⟩ := hpost
      exact ⟨hat, hname ▸ lookup_isSome_of_record hgood hrecord⟩

variable (lib cipher decryptSecret references path rest record store) in
/-- The store has the vault of the file, and the global one. -/
structure HasVault : Prop where
  at_secret : AtSecret lib cipher decryptSecret references path rest record.name store
  global : ((meaning cipher decryptSecret store).vaults.lookup "global").isSome
  record : record ∈ vaultRecords store.catalog

theorem isSome_lookup_of_keeps (hkeeps : Keeps path m m') (hsome : (m.vaults.lookup name).isSome) :
    (m'.vaults.lookup name).isSome := by
  obtain ⟨secrets, hsecrets⟩ := isSome_iff_exists.1 hsome
  obtain ⟨secrets', hsecrets', -⟩ := hkeeps.vaults name secrets hsecrets
  rw [hsecrets']
  rfl

theorem follows_scopeVault (hfresh : Fresh draws) :
    Durable.Follows Good (meaning cipher decryptSecret) (nextStep lib)
      (AtSecret lib cipher decryptSecret references path rest name) (scopeVault draws name)
      fun record store ↦ record.name = name ∧
        HasVault lib cipher decryptSecret references path rest record store := by
  refine (follows_globalVault hfresh).bind fun _ ↦ (follows_findVault name).bind fun found ↦ ?_
  cases found with
  | some record =>
    refine Durable.follows_pure fun store hgood hpre ↦ ?_
    obtain ⟨⟨hat, hglobal⟩, hrecord, rfl⟩ := hpre
    exact ⟨rfl, hat, hglobal, hrecord⟩
  | none =>
    refine (follows_push references path rest name name hfresh fun store hpre ↦ ?_).weaken
      (fun _ _ ↦ id) fun record store hgood hpost ↦ ?_
    · obtain ⟨⟨hat, hglobal⟩, hname⟩ := hpre
      have hfree : name ∉ store.catalog.vaults.map (·.record.name) := by
        simpa [vaultRecords] using hname
      exact ⟨hat, hname, createVault_run _ (trim_scopeName hat.scope) hfree,
        secretWork_of_no_vault hat.file hat.scope hglobal (lookup_eq_none_of_name hname)⟩
    · obtain ⟨hat, hrecord, rfl, before, ⟨⟨-, hglobal⟩, -⟩, hadvances⟩ := hpost
      exact ⟨rfl, hat, isSome_lookup_of_keeps (hadvances.keeps path) hglobal, hrecord⟩

/-! ### The secret -/

theorem readSecret_meaning {value : SecretMetadata × Secret} :
    readSecret decryptSecret path store = .ok value ↔
      (meaning cipher decryptSecret store).readSecret path = .ok value := by
  obtain ⟨metadata, secret⟩ := value
  rw [readSecret_eq_ok, meaning, Files.get_mapDocs, map_eq_some_iff]
  simp only [readSecret, bind_eq_ok, getFile, context_eq_ok]
  refine exists_congr fun doc ↦ and_congr_right fun _ ↦ ?_
  cases doc with
  | secret metadata' encrypted =>
    simp only [Doc.plain, bind_eq_ok, pure_eq_ok, Prod.mk.injEq, Doc.secret.injEq]
    constructor
    · rintro ⟨value, hvalue, rfl, rfl⟩
      exact ⟨rfl, by rw [hvalue]; rfl⟩
    · rintro ⟨rfl, hvalue⟩
      exact ⟨secret, eq_ok_of_toOption hvalue, rfl, rfl⟩
  | _ => simp [Doc.plain]

theorem error_of_not_ok {α : Type} {value : Except String α}
    (hvalue : ∀ result, value ≠ .ok result) : ∃ message, value = .error message := by
  cases value with
  | error message => exact ⟨message, rfl⟩
  | ok result => exact absurd rfl (hvalue result)

variable (lib cipher decryptSecret references path rest record metadata secret store) in
/-- The secret of the file is read. -/
structure HasSecret : Prop where
  has_vault : HasVault lib cipher decryptSecret references path rest record store
  read : (meaning cipher decryptSecret store).files.get path = some (.secret metadata (some secret))

section
variable (hhas : HasVault lib cipher decryptSecret references path rest record store)
include hhas

/-- What is done at a file that has its vault. -/
theorem HasVault.secretWork
    (hgood : Good store) (hvault : vault ∈ store.catalog.vaults) (hrecord : vault.record = record) :
    secretWork lib path (meaning cipher decryptSecret store) =
      importWork lib path record.name (plainVault cipher vault).2
        (meaning cipher decryptSecret store) := by
  subst hrecord
  exact secretWork_of_vault hhas.at_secret.file hhas.at_secret.scope hhas.global
    (lookup_vaults hgood hvault)

theorem HasVault.exists_vault :
    ∃ vault ∈ store.catalog.vaults, vault.record = record := mem_map.1 hhas.record

end

theorem follows_readSecret : Durable.Follows Good (meaning cipher decryptSecret) (nextStep lib)
      (HasVault lib cipher decryptSecret references path rest record)
      (Durable.read (readSecret decryptSecret path))
      fun value store ↦
        HasSecret lib cipher decryptSecret references path rest record value.1 value.2 store := by
  refine Durable.follows_read ?_ ?_
  · intro store value hgood hpre hread
    exact ⟨hpre, readSecret_eq_ok.1 (readSecret_meaning.1 hread)⟩
  · intro store message hgood hpre hread
    obtain ⟨message', hmessage'⟩ : ∃ message,
        (meaning cipher decryptSecret store).readSecret path = .error message :=
      error_of_not_ok fun result hresult ↦ by
        rw [readSecret_meaning.2 hresult] at hread
        cases hread
    obtain ⟨vault, hvault, hrecord⟩ := hpre.exists_vault
    refine ⟨message', hpre.at_secret.nextStep ?_ (by simp)⟩
    rw [hpre.secretWork hgood hvault hrecord, importWork, hmessage']
    rfl

/-! ### The import -/

section
variable (cipher : SecretCipher Encrypted Data)

/-- Encryption by itself does not fail. -/
def Encrypts : Prop :=
  ∀ nonce secret data, ∃ encrypted, cipher.encryptBound nonce secret data = .ok encrypted

theorem find_plain (vault : StoredVault Encrypted) (id : SecretId) :
    (plainVault cipher vault).2.find? (·.1.id = id) = (vault.find id).map fun stored ↦
      (stored.metadata, (cipher.decrypt vault.record.id stored).toOption) := by
  simp only [plainVault, StoredVault.find, find?_map, Function.comp_def]

end

theorem catalog_vault (hgood : Good store) (hvault : vault ∈ store.catalog.vaults) :
    store.catalog.vault vault.record.id = .ok vault := by
  rw [Catalog.vault, context_eq_ok]
  exact (find?_key_iff (fun vault : StoredVault Encrypted ↦ vault.record.id) hgood.vault_ids).2
    ⟨hvault, rfl⟩

variable (lib cipher decryptSecret references path rest record metadata secret store) in
/-- The secret of the file is in the vault. -/
def InVault : Prop :=
  HasSecret lib cipher decryptSecret references path rest record metadata secret store ∧
    ∃ secrets, (meaning cipher decryptSecret store).vaults.lookup record.name = some secrets ∧
      secrets.find? (·.1.id = metadata.id) = some (metadata, some secret)

theorem importSecret_cases {catalog' : Catalog Encrypted} {draw : Draw}
    {result : Except String Unit} (hvault : catalog.vault vault.record.id = .ok vault)
    (hrun : (importSecret lib cipher draw vault.record.id metadata secret).runOn catalog =
      (result, catalog')) :
    (∃ stored, vault.find metadata.id = some stored ∧
      ((stored.metadata = metadata ∧ cipher.decrypt vault.record.id stored = .ok secret ∧
          result = .ok () ∧ catalog' = catalog) ∨
        (¬ (stored.metadata = metadata ∧ cipher.decrypt vault.record.id stored = .ok secret) ∧
          ∃ message, result = .error message))) ∨
      (vault.find metadata.id = none ∧
        ((∃ encrypted, encrypt lib cipher draw.nonce vault.record.id metadata secret =
            .ok encrypted ∧ result = .ok () ∧
            catalog' = catalog.pushSecret vault.record.id ⟨metadata, encrypted⟩) ∨
          ∃ message, encrypt lib cipher draw.nonce vault.record.id metadata secret =
            .error message ∧ result = .error message)) := by
  simp only [importSecret, InPlace.runOn_bind, InPlace.runOn_look, hvault] at hrun
  cases hfind : vault.find metadata.id with
  | some stored =>
    refine .inl ⟨stored, rfl, ?_⟩
    simp only [hfind, InPlace.runOn_bind, InPlace.runOn_check] at hrun
    cases hdecrypt : cipher.decrypt vault.record.id stored with
    | error message =>
      simp only [hdecrypt] at hrun
      cases hrun
      exact .inr ⟨by simp, message, rfl⟩
    | ok existing =>
      simp only [hdecrypt, ensure] at hrun
      split at hrun <;> cases hrun
      · rename_i hsame
        simp only [Bool.and_eq_true, beq_iff_eq] at hsame
        exact .inl ⟨hsame.1, by rw [hsame.2], rfl, rfl⟩
      · rename_i hsame
        refine .inr ⟨fun hboth ↦ hsame ?_, _, rfl⟩
        obtain ⟨hmetadata, hexisting⟩ := hboth
        cases hexisting
        simp [hmetadata]
  | none =>
    refine .inr ⟨rfl, ?_⟩
    simp only [hfind, InPlace.runOn_bind, InPlace.runOn_check] at hrun
    cases hencrypt : encrypt lib cipher draw.nonce vault.record.id metadata secret with
    | error message =>
      simp only [hencrypt] at hrun
      cases hrun
      exact .inr ⟨message, rfl, rfl⟩
    | ok encrypted =>
      simp only [hencrypt, InPlace.runOn_update] at hrun
      cases hrun
      exact .inl ⟨encrypted, rfl, rfl, rfl⟩

theorem advances_pushSecret (hgood : Good store) (hvault : vault ∈ store.catalog.vaults)
    {stored : StoredSecret Encrypted}
    (hdecrypt : cipher.decrypt vault.record.id stored = .ok secret) :
    Advances cipher decryptSecret store
      (withCatalog (store.catalog.pushSecret vault.record.id stored) store) where
  keys := rfl
  marker := rfl
  records := by
    intro other hother
    rwa [withCatalog, records_pushSecret]
  keeps := by
    intro path
    rw [meaning_pushSecret hgood hvault hdecrypt]
    exact .pushSecret _

theorem HasVault.advances
    (hhas : HasVault lib cipher decryptSecret references path rest record store)
    (hadvances : Advances cipher decryptSecret store store') :
    HasVault lib cipher decryptSecret references path rest record store' :=
  ⟨hhas.at_secret.advances hadvances,
    isSome_lookup_of_keeps (hadvances.keeps path) hhas.global, hadvances.records _ hhas.record⟩

theorem HasSecret.advances
    (hhas : HasSecret lib cipher decryptSecret references path rest record metadata secret store)
    (hadvances : Advances cipher decryptSecret store store') :
    HasSecret lib cipher decryptSecret references path rest record metadata secret store' :=
  ⟨hhas.has_vault.advances hadvances, (hadvances.keeps path).secret _ _ hhas.read⟩

section
variable (hread : m.files.get path = some (.secret metadata (some secret)))
include hread

theorem importWork_of_find
    (hfind : secrets.find? (·.1.id = metadata.id) = some (metadata, some secret)) :
    importWork lib path name secrets m = recordWork (scopeOf path) name m := by
  simp [importWork, readSecret_eq_ok.2 hread, hfind, bind, Except.bind, ensure]

theorem importWork_of_conflict {stored : SecretMetadata × Option Secret}
    (hfind : secrets.find? (·.1.id = metadata.id) = some stored)
    (hconflict : stored ≠ (metadata, some secret)) :
    ∃ message, importWork lib path name secrets m = .error message := by
  refine ⟨"migrated secret conflicts with an existing vault entry", ?_⟩
  simp [importWork, readSecret_eq_ok.2 hread, hfind, bind, Except.bind, ensure, hconflict]

theorem importWork_of_none (hfind : secrets.find? (·.1.id = metadata.id) = none) :
    importWork lib path name secrets m = validateSecret lib secret metadata.policy >>= fun _ ↦
      .ok (some (m.pushSecret name (metadata, some secret))) := by
  simp only [importWork, readSecret_eq_ok.2 hread, hfind, bind, Except.bind]
  rfl

end

theorem follows_importSecret (hcipher : cipher.Lawful) (hencrypts : Encrypts cipher) :
    Durable.Follows Good (meaning cipher decryptSecret) (nextStep lib)
      (HasSecret lib cipher decryptSecret references path rest record metadata secret)
      (accessCatalog draws (importSecret lib cipher · record.id metadata secret))
      fun _ store ↦
        InVault lib cipher decryptSecret references path rest record metadata secret store := by
  refine follows_accessCatalog ?_ ?_
  · intro store value catalog hgood hpre hrun
    obtain ⟨vault, hvault, rfl⟩ := hpre.has_vault.exists_vault
    have hwork := hpre.has_vault.secretWork hgood hvault rfl
    have hplain := find_plain cipher vault metadata.id
    rcases importSecret_cases (catalog_vault hgood hvault) hrun with
      ⟨stored, hfind, hcase⟩ | ⟨hfind, hcase⟩
    · rcases hcase with ⟨hmetadata, hdecrypt, -, rfl⟩ | ⟨-, message, hmessage⟩
      · refine ⟨hgood, .refl, hpre, _, lookup_vaults hgood hvault, ?_⟩
        rw [hplain, hfind, ← hmetadata, map_some, hdecrypt]
        rfl
      · cases hmessage
    · rcases hcase with ⟨encrypted, hencrypt, -, rfl⟩ | ⟨message, -, hmessage⟩
      · rw [encrypt, bind_eq_ok] at hencrypt
        obtain ⟨_, hvalid, hencrypt⟩ := hencrypt
        have hdecrypt : cipher.decrypt vault.record.id ⟨metadata, encrypted⟩ = .ok secret :=
          hcipher.decrypt_encrypt hencrypt
        have hadvances : Advances cipher decryptSecret store (withCatalog
            (store.catalog.pushSecret vault.record.id ⟨metadata, encrypted⟩) store) :=
          advances_pushSecret hgood hvault hdecrypt
        refine ⟨hgood.pushSecret _ _, ?_, hpre.advances hadvances, ?_⟩
        · rw [meaning_pushSecret hgood hvault hdecrypt]
          refine .single (hpre.has_vault.at_secret.nextStep ?_ (by simp))
          rw [hwork, importWork_of_none hpre.read (by rw [hplain, hfind]; rfl), hvalid]
          rfl
        · rw [meaning_pushSecret hgood hvault hdecrypt, Meaning.pushSecret]
          dsimp only
          rw [lookup_pushSecret, lookup_vaults hgood hvault, map_some, if_pos rfl]
          refine ⟨_, rfl, ?_⟩
          rw [find?_append, hplain, hfind]
          simp
      · cases hmessage
  · intro store message catalog hgood hpre hrun
    obtain ⟨vault, hvault, rfl⟩ := hpre.has_vault.exists_vault
    have hwork := hpre.has_vault.secretWork hgood hvault rfl
    have hplain := find_plain cipher vault metadata.id
    obtain ⟨message', hmessage'⟩ : ∃ message,
        secretWork lib path (meaning cipher decryptSecret store) = .error message := by
      rw [hwork]
      rcases importSecret_cases (catalog_vault hgood hvault) hrun with
        ⟨stored, hfind, hcase⟩ | ⟨hfind, hcase⟩
      · rcases hcase with ⟨-, -, hresult, -⟩ | ⟨hnot, -⟩
        · cases hresult
        · refine importWork_of_conflict hpre.read (hplain.trans (by rw [hfind]; rfl)) ?_
          rintro heq
          obtain ⟨hmetadata, hvalue⟩ := Prod.mk.inj heq
          exact hnot ⟨hmetadata, eq_ok_of_toOption hvalue⟩
      · rcases hcase with ⟨encrypted, -, hresult, -⟩ | ⟨message', hencrypt, -⟩
        · cases hresult
        · rw [importWork_of_none hpre.read (by rw [hplain, hfind]; rfl)]
          obtain ⟨encrypted, hencrypted⟩ := hencrypts (draws store.catalog).nonce secret
            (cipher.toVec vault.record.id metadata)
          cases hvalid : validateSecret lib secret metadata.policy with
          | error message => exact ⟨message, rfl⟩
          | ok _ =>
            rw [encrypt, hvalid] at hencrypt
            cases hencrypted.symm.trans hencrypt
    exact ⟨message', hpre.has_vault.at_secret.nextStep hmessage' (by simp)⟩

/-! ### The record of the scope -/

theorem InVault.secretWork
    (hin : InVault lib cipher decryptSecret references path rest record metadata secret store) :
    secretWork lib path (meaning cipher decryptSecret store) =
      recordWork (scopeOf path) record.name (meaning cipher decryptSecret store) := by
  obtain ⟨hhas, secrets, hsecrets, hfind⟩ := hin
  have hat := hhas.has_vault.at_secret
  rw [secretWork_of_vault hat.file hat.scope hhas.has_vault.global hsecrets,
    importWork_of_find hhas.read hfind]

variable (lib cipher decryptSecret references path rest record metadata store) in
/-- The work at the file is done. -/
structure SecretDone : Prop where
  at_secret : AtSecret lib cipher decryptSecret references path rest record.name store
  record : record ∈ vaultRecords store.catalog
  secret : (meaning cipher decryptSecret store).secretId path = some metadata.id
  done : secretWork lib path (meaning cipher decryptSecret store) = .ok none

theorem InVault.done
    (hin : InVault lib cipher decryptSecret references path rest record metadata secret store)
    (hrecord : recordWork (scopeOf path) record.name (meaning cipher decryptSecret store) =
      .ok none) :
    SecretDone lib cipher decryptSecret references path rest record metadata store :=
  ⟨hin.1.has_vault.at_secret, hin.1.has_vault.record, by rw [Meaning.secretId, hin.1.read],
    hin.secretWork.trans hrecord⟩

theorem mem_of_get {D : Type} {files : Files D} {doc : D} (hget : files.get path = some doc) :
    (path, doc) ∈ files := by
  obtain ⟨before, after, heq, -⟩ := lookup_eq_some_iff.1 hget
  rw [heq]
  simp

/-- What attaching the vault does, and what it does by name, is the same. -/
theorem recordWork_meaning (cipher : SecretCipher Encrypted Data)
    (decryptSecret : Legacy → Except String Secret) (hgood : Good store)
    (hrecord : record ∈ vaultRecords store.catalog) (hscope : scope ≠ []) :
    recordWork scope record.name (meaning cipher decryptSecret store) =
      (getFile store.files (recordPath scope) >>= attach scope record.id).map
        (Option.map fun doc ↦ (meaning cipher decryptSecret store).put (recordPath scope)
          (doc.plain decryptSecret (vaultRecords store.catalog))) := by
  rw [recordWork, if_neg hscope, getFile, getFile]
  cases hget : store.files.get (recordPath scope) with
  | none =>
    have hplain : (meaning cipher decryptSecret store).files.get (recordPath scope) = none := by
      rw [meaning, Files.get_mapDocs, hget]
      rfl
    rw [hplain]
    rfl
  | some doc =>
    have hplain : (meaning cipher decryptSecret store).files.get (recordPath scope) =
        some (doc.plain decryptSecret (vaultRecords store.catalog)) := by
      rw [meaning, Files.get_mapDocs, hget]
      rfl
    have hattach := attach_plain decryptSecret hgood.ids hgood.names hrecord scope
      (hgood.mentions _ (mem_of_get hget))
    rw [hplain]
    simp only [context, bind, Except.bind, hattach]
    cases attach scope record.id doc with
    | error message => rfl
    | ok attached => cases attached <;> rfl

theorem InVault.advances
    (hin : InVault lib cipher decryptSecret references path rest record metadata secret store)
    (hadvances : Advances cipher decryptSecret store store') :
    InVault lib cipher decryptSecret references path rest record metadata secret store' := by
  obtain ⟨hhas, secrets, hsecrets, hfind⟩ := hin
  obtain ⟨secrets', hsecrets', hkept⟩ := (hadvances.keeps path).vaults _ _ hsecrets
  exact ⟨hhas.advances hadvances, secrets', hsecrets', hkept _ _ hfind⟩

theorem attached_file {D : Type} {files : Files D} {file : Path} {work : D → Except String (Option D)}
    {doc : D} (hattached : (getFile files file >>= work) = .ok (some doc)) :
    ∃ old, files.get file = some old ∧ work old = .ok (some doc) := by
  simpa only [bind_eq_ok, getFile, context_eq_ok] using hattached

theorem follows_attachVault : Durable.Follows Good (meaning cipher decryptSecret) (nextStep lib)
      (InVault lib cipher decryptSecret references path rest record metadata secret)
      (attachVault (scopeOf path) record.id)
      fun _ store ↦
        SecretDone lib cipher decryptSecret references path rest record metadata store := by
  unfold attachVault
  split
  · rename_i hscope
    refine Durable.follows_pure fun store _ hin ↦ hin.done ?_
    exact recordWork_eq_none.2 (.inl hscope)
  rename_i hscope
  have hread : Durable.Follows Good (meaning cipher decryptSecret) (nextStep lib)
      (InVault lib cipher decryptSecret references path rest record metadata secret)
      (Durable.read fun store : Store Encrypted Legacy ↦ do
        attach (scopeOf path) record.id (← getFile store.files (recordPath (scopeOf path))))
      fun attached store ↦
        InVault lib cipher decryptSecret references path rest record metadata secret store ∧
          (getFile store.files (recordPath (scopeOf path)) >>= attach (scopeOf path) record.id) =
            .ok attached := by
    refine Durable.follows_read (fun store attached _ hin hview ↦ ⟨hin, hview⟩) ?_
    intro store message hgood hin hview
    have hwork := recordWork_meaning cipher decryptSecret hgood hin.1.has_vault.record hscope
    refine ⟨message, hin.1.has_vault.at_secret.nextStep ?_ (by simp)⟩
    rw [hin.secretWork, hwork]
    exact congrArg (Except.map _) hview
  refine hread.bind fun attached ↦ ?_
  cases attached with
  | none =>
    refine Durable.follows_pure fun store hgood hin ↦ hin.1.done ?_
    rw [recordWork_meaning _ _ hgood hin.1.1.has_vault.record hscope, hin.2]
    rfl
  | some doc =>
    refine Durable.follows_write ?_ ?_ ?_
    · intro store hgood hpre
      obtain ⟨old, hget, hattach⟩ := attached_file hpre.2
      refine hgood.put fun id hid ↦ ?_
      rcases mentions_of_attach hattach id hid with hold | rfl
      · exact hgood.mentions _ (mem_of_get hget) id hold
      · exact mem_map_of_mem hpre.1.1.has_vault.record
    · intro store hgood hpre
      rw [meaning_put]
      refine .single (hpre.1.1.has_vault.at_secret.nextStep ?_ (by simp))
      rw [hpre.1.secretWork, recordWork_meaning _ _ hgood hpre.1.1.has_vault.record hscope, hpre.2]
      rfl
    · intro store hgood hpre
      obtain ⟨hin, hattached⟩ := hpre
      obtain ⟨old, hget, hattach⟩ := attached_file hattached
      have hplain := attach_plain decryptSecret hgood.ids hgood.names
        hin.1.has_vault.record (scopeOf path) (hgood.mentions _ (mem_of_get hget))
      rw [hattach] at hplain
      have hgetPlain : (meaning cipher decryptSecret store).files.get (recordPath (scopeOf path)) =
          some (old.plain decryptSecret (vaultRecords store.catalog)) := by
        rw [meaning, Files.get_mapDocs, hget]
        rfl
      have hadvances : Advances cipher decryptSecret store
          { store with files := store.files.put (recordPath (scopeOf path)) doc } := by
        refine ⟨Files.keys_put _ _ _, rfl, fun _ ↦ id, fun other ↦ ?_⟩
        rw [meaning_put]
        exact .putRecord hgetPlain hplain
      refine (hin.advances hadvances).done ?_
      rw [meaning_put, recordWork_eq_none]
      refine .inr ⟨_, Files.get_put_self _ (by rw [hgetPlain]; rfl), ?_⟩
      exact attach_attached hplain record.name (.inl rfl)

/-! ## The loop -/

theorem collected_nil (records : List VaultRecord) (m : Meaning) : Collected [] [] records m :=
  ⟨fun _ _ _ hlookup ↦ by simp at hlookup, fun _ _ ↦ by simp⟩

theorem Collected.skip (hcollected : Collected paths references records m)
    (hfile : ¬ isFileIn "secrets" path) : Collected (paths ++ [path]) references records m where
  found := hcollected.found
  complete := by
    intro scope id
    rw [hcollected.complete]
    refine exists_congr fun other ↦ ?_
    constructor
    · rintro ⟨hmem, hrest⟩
      exact ⟨mem_append_left _ hmem, hrest⟩
    · rintro ⟨hmem, hother, hrest⟩
      rcases mem_append.1 hmem with hmem | hmem
      · exact ⟨hmem, hother, hrest⟩
      · exact absurd (mem_singleton.1 hmem ▸ hother) hfile

theorem Collected.push (hcollected : Collected paths references records m)
    (hfile : isFileIn "secrets" path) (hid : m.secretId path = some metadata.id)
    (hrecord : record ∈ records) (hname : scopeName (scopeOf path) = .ok record.name) :
    Collected (paths ++ [path])
      (((scopeOf path, metadata.id), ⟨record.id, metadata.id⟩) :: references) records m where
  found := by
    intro scope id reference hlookup
    rw [lookup_cons] at hlookup
    cases heq : (scope, id) == (scopeOf path, metadata.id) with
    | false =>
      rw [heq] at hlookup
      exact hcollected.found scope id reference hlookup
    | true =>
      rw [heq] at hlookup
      cases hlookup
      obtain ⟨rfl, rfl⟩ := Prod.mk.inj (beq_iff_eq.1 heq)
      exact ⟨rfl, record, hrecord, rfl, hname⟩
  complete := by
    intro scope id
    rw [lookup_cons]
    cases heq : (scope, id) == (scopeOf path, metadata.id) with
    | false =>
      rw [hcollected.complete]
      refine exists_congr fun other ↦ ?_
      constructor
      · rintro ⟨hmem, hrest⟩
        exact ⟨mem_append_left _ hmem, hrest⟩
      · rintro ⟨hmem, hother, rfl, hotherId⟩
        rcases mem_append.1 hmem with hmem | hmem
        · exact ⟨hmem, hother, rfl, hotherId⟩
        · obtain rfl := mem_singleton.1 hmem
          rw [hid, some.injEq] at hotherId
          rw [hotherId] at heq
          simp at heq
    | true =>
      obtain ⟨rfl, rfl⟩ := Prod.mk.inj (beq_iff_eq.1 heq)
      simp only [isSome_some, true_iff]
      exact ⟨path, by simp, hfile, rfl, hid⟩

theorem AtSecrets.skip (hat : AtSecrets lib cipher decryptSecret references (path :: rest) store)
    (hfile : ¬ isFileIn "secrets" path) :
    AtSecrets lib cipher decryptSecret references rest store := by
  obtain ⟨hmarker, done, hkeys, hdone, hcollected⟩ := hat
  refine ⟨hmarker, done ++ [path], by simp [hkeys], fun other hother ↦ ?_, hcollected.skip hfile⟩
  rcases mem_append.1 hother with hother | hother
  · exact hdone other hother
  · rw [mem_singleton.1 hother, secretWork, if_neg hfile]
    rfl

theorem SecretDone.collect
    (hsecret : SecretDone lib cipher decryptSecret references path rest record metadata store) :
    AtSecrets lib cipher decryptSecret
      (((scopeOf path, metadata.id), ⟨record.id, metadata.id⟩) :: references) rest store := by
  obtain ⟨⟨⟨hmarker, done, hkeys, hdone, hcollected⟩, hfile, hname⟩, hrecord, hid, hwork⟩ := hsecret
  refine ⟨hmarker, done ++ [path], by simp [hkeys], fun other hother ↦ ?_,
    hcollected.push hfile hid hrecord hname⟩
  rcases mem_append.1 hother with hother | hother
  · exact hdone other hother
  · rw [mem_singleton.1 hother]
    exact hwork

section Loop
variable (hfresh : Fresh draws) (hcipher : cipher.Lawful) (hencrypts : Encrypts cipher)

include hfresh hcipher hencrypts

theorem follows_migrateSecret (hfile : isFileIn "secrets" path) :
    Durable.Follows Good (meaning cipher decryptSecret) (nextStep lib)
      (AtSecrets lib cipher decryptSecret references (path :: rest))
      (migrateSecret lib cipher draws decryptSecret path)
      fun reference store ↦
        AtSecrets lib cipher decryptSecret (reference :: references) rest store := by
  have hname : Durable.Follows Good (meaning cipher decryptSecret) (nextStep lib)
      (AtSecrets lib cipher decryptSecret references (path :: rest))
      (Durable.read fun _ : Store Encrypted Legacy ↦ scopeName (scopeOf path))
      (AtSecret lib cipher decryptSecret references path rest) := by
    refine Durable.follows_read (fun store name _ hat hscope ↦ ⟨hat, hfile, hscope⟩) ?_
    intro store message _ hat hscope
    refine ⟨message, hat.nextStep ?_ (by simp)⟩
    rw [secretWork, if_pos hfile, hscope]
    rfl
  refine hname.bind fun name ↦ (follows_scopeVault hfresh).bind fun vault ↦ ?_
  refine (follows_readSecret.weaken (fun _ _ hvault ↦ hvault.2) (fun _ _ _ ↦ id)).bind fun read ↦ ?_
  obtain ⟨metadata, secret⟩ := read
  refine (follows_importSecret hcipher hencrypts).bind fun _ ↦ follows_attachVault.bind fun _ ↦ ?_
  exact Durable.follows_pure fun store _ hsecret ↦ hsecret.collect

theorem follows_migrateSecrets : Durable.Follows Good (meaning cipher decryptSecret) (nextStep lib)
      (AtSecrets lib cipher decryptSecret references rest)
      (migrateSecrets lib cipher draws decryptSecret rest references)
      fun references store ↦ AtSecrets lib cipher decryptSecret references [] store := by
  induction rest generalizing references with
  | nil => exact Durable.follows_pure fun _ _ ↦ id
  | cons path rest ih =>
    unfold migrateSecrets
    split
    · rename_i hfile
      exact (follows_migrateSecret hfresh hcipher hencrypts hfile).bind fun reference ↦ ih
    · rename_i hfile
      exact ih.weaken (fun _ _ hat ↦ hat.skip hfile) fun _ _ _ ↦ id

end Loop

end Exo.Migration
