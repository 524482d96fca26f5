import Exo.Migration.Progress

/-!
# The migration takes the next step

The writes of the migration, seen on meanings, are the steps of the step function: at the file where
the code is, all earlier files are done, so that the next step is the one the code takes.
-/

namespace Exo.Migration

open Library Egress Vault List

variable {Encrypted Data Legacy : Type}

def vaultRecords (catalog : Catalog Encrypted) : List VaultRecord := catalog.vaults.map (·.record)

/-- The name of a vault. -/
def nameOf (records : List VaultRecord) (id : VaultId) : String :=
  ((records.find? (·.id = id)).map (·.name)).getD ""

def Doc.plain (decryptSecret : Legacy → Except String Secret) (records : List VaultRecord) :
    Doc VaultId Legacy Json → Plain
  | .secret metadata encrypted => .secret metadata (decryptSecret encrypted).toOption
  | .binding header json =>
    .binding header ((StoredBindingVersion.decode json).map (.map (nameOf records)))
  | .agent record => .agent ⟨record.id, record.slug, record.name, record.vaults.map (nameOf records)⟩
  | .conversation record =>
    .conversation ⟨record.id, record.slug, record.name, record.latestEventId, record.environment,
      record.vaults.map (nameOf records)⟩
  | .other => .other

section
variable (cipher : SecretCipher Encrypted Data)

def plainVault (vault : StoredVault Encrypted) : String × PlainSecrets :=
  (vault.record.name, vault.secrets.map fun stored ↦
    (stored.metadata, (cipher.decrypt vault.record.id stored).toOption))

def meaning (decryptSecret : Legacy → Except String Secret)
    (store : Store Encrypted Legacy) : Meaning where
  vaults := store.catalog.vaults.map (plainVault cipher)
  files := store.files.mapDocs (Doc.plain decryptSecret (vaultRecords store.catalog))
  marker := store.marker

end

/-- The vaults that a file refers to. -/
def Doc.mentions : Doc VaultId Legacy Json → List VaultId
  | .agent record => record.vaults
  | .conversation record => record.vaults
  | .binding _ json =>
    match StoredBindingVersion.decode json with
    | some (.current current) => current.references.map (·.vault)
    | _ => []
  | _ => []

structure Good (store : Store Encrypted Legacy) : Prop where
  ids : ((vaultRecords store.catalog).map (·.id)).Nodup
  names : ((vaultRecords store.catalog).map (·.name)).Nodup
  keys : store.files.keys.Nodup
  mentions : ∀ file ∈ store.files, ∀ id ∈ file.2.mentions,
    id ∈ (vaultRecords store.catalog).map (·.id)

variable {cipher : SecretCipher Encrypted Data} {decryptSecret : Legacy → Except String Secret}
  {lib : Libraries} {draws : Draws Encrypted} {store : Store Encrypted Legacy}

theorem Good.vault_ids (hgood : Good store) :
    (store.catalog.vaults.map fun vault ↦ vault.record.id).Nodup := by
  have hids := hgood.ids
  rwa [vaultRecords, map_map] at hids

theorem Good.vault_names (hgood : Good store) :
    (store.catalog.vaults.map fun vault ↦ vault.record.name).Nodup := by
  have hnames := hgood.names
  rwa [vaultRecords, map_map] at hnames

variable {records : List VaultRecord} {record : VaultRecord} {doc : Doc VaultId Legacy Json}

theorem nameOf_eq (hids : (records.map (·.id)).Nodup) (hrecord : record ∈ records) :
    nameOf records record.id = record.name := by
  rw [nameOf, (find?_key_iff (·.id) hids).2 ⟨hrecord, rfl⟩]
  rfl

theorem nameOf_append {more : List VaultRecord} {id : VaultId} (hid : id ∈ records.map (·.id)) :
    nameOf (records ++ more) id = nameOf records id := by
  unfold nameOf
  obtain ⟨record, hrecord, rfl⟩ := mem_map.1 hid
  obtain ⟨other, hother⟩ : ∃ other, records.find? (·.id = record.id) = some other :=
    Option.isSome_iff_exists.1 (find?_isSome.2 ⟨record, hrecord, by simp⟩)
  rw [find?_append, hother]
  rfl

/-- A vault that has the name of another is that other. -/
theorem eq_of_nameOf (hids : (records.map (·.id)).Nodup) (hnames : (records.map (·.name)).Nodup)
    (hrecord : record ∈ records) {id : VaultId} (hid : id ∈ records.map (·.id))
    (hname : nameOf records id = record.name) : id = record.id := by
  obtain ⟨other, hother, rfl⟩ := mem_map.1 hid
  rw [nameOf_eq hids hother] at hname
  rw [inj_on_of_nodup_map hnames hother hrecord hname]

theorem Doc.plain_congr {records' : List VaultRecord}
    (hsame : ∀ id ∈ doc.mentions, nameOf records' id = nameOf records id) :
    doc.plain decryptSecret records' = doc.plain decryptSecret records := by
  cases doc with
  | secret metadata secret => rfl
  | binding header json =>
    simp only [Doc.mentions] at hsame
    simp only [Doc.plain]
    cases hversion : StoredBindingVersion.decode json with
    | none => rfl
    | some version =>
      cases version with
      | legacy binding => rfl
      | current binding =>
        rw [hversion] at hsame
        have hbinding : binding.map (nameOf records') = binding.map (nameOf records) :=
          binding.map_congr fun reference hreference ↦ hsame _ (mem_map_of_mem hreference)
        simp [StoredBindingVersion.map, hbinding]
  | agent record | conversation record =>
    have hvaults : record.vaults.map (nameOf records') = record.vaults.map (nameOf records) :=
      map_congr_left hsame
    simp only [Doc.plain, hvaults]
  | other => rfl

theorem lookup_of_mem {κ β : Type} [BEq κ] [LawfulBEq κ] {entries : List (κ × β)} {key : κ} {value : β}
    (hnodup : (entries.map Prod.fst).Nodup) (hmem : (key, value) ∈ entries) :
    entries.lookup key = some value := by
  obtain ⟨before, after, rfl⟩ := append_of_mem hmem
  refine lookup_eq_some_iff.2 ⟨before, after, rfl, fun entry hentry ↦ ?_⟩
  rw [map_append, map_cons, nodup_middle, nodup_cons] at hnodup
  have hbefore : entry.1 ∈ before.map Prod.fst := mem_map_of_mem hentry
  rw [bne_iff_ne]
  rintro rfl
  exact hnodup.1 (mem_append_left _ hbefore)

theorem lookup_vaults (hgood : Good store) {vault : StoredVault Encrypted}
    (hvault : vault ∈ store.catalog.vaults) :
    (meaning cipher decryptSecret store).vaults.lookup vault.record.name =
      some (plainVault cipher vault).2 := by
  refine lookup_of_mem ?_ (mem_map.2 ⟨vault, hvault, rfl⟩)
  have hnames := hgood.names
  rw [vaultRecords, map_map] at hnames
  rw [meaning, map_map]
  exact hnames

/-- The vault that is found by name. -/
theorem exists_of_lookup_vaults {name : String} {secrets : PlainSecrets}
    (hlookup : (meaning cipher decryptSecret store).vaults.lookup name = some secrets) :
    ∃ vault ∈ store.catalog.vaults, plainVault cipher vault = (name, secrets) := by
  obtain ⟨before, after, heq, -⟩ := lookup_eq_some_iff.1 hlookup
  have hmem : (name, secrets) ∈ (meaning cipher decryptSecret store).vaults := by
    rw [heq]
    simp
  exact mem_map.1 hmem

section
variable (catalog : Catalog Encrypted)

/-- The store with another catalog. -/
def withCatalog (store : Store Encrypted Legacy) : Store Encrypted Legacy := { store with catalog }

/-- More vaults change the names of none of those that are mentioned. -/
theorem mapDocs_plain_append (hgood : Good store) (more : List VaultRecord) :
    store.files.mapDocs (Doc.plain decryptSecret (vaultRecords store.catalog ++ more)) =
      store.files.mapDocs (Doc.plain decryptSecret (vaultRecords store.catalog)) := by
  unfold Files.mapDocs
  apply map_congr_left
  intro file hfile
  rw [Doc.plain_congr fun id hid ↦ nameOf_append (hgood.mentions file hfile id hid)]

theorem records_pushVault (record : VaultRecord) :
    vaultRecords (catalog.pushVault ⟨record, []⟩) = vaultRecords catalog ++ [record] := by
  simp [vaultRecords, Catalog.pushVault]

theorem meaning_pushVault (hgood : Good store) (record : VaultRecord) :
    meaning cipher decryptSecret (withCatalog (store.catalog.pushVault ⟨record, []⟩) store) =
      (meaning cipher decryptSecret store).pushVault record.name := by
  unfold meaning Meaning.pushVault withCatalog
  dsimp only
  rw [records_pushVault, mapDocs_plain_append hgood]
  simp [Catalog.pushVault, plainVault]

theorem Good.pushVault (hgood : Good store)
    (hid : record.id ∉ (vaultRecords store.catalog).map (·.id))
    (hname : record.name ∉ (vaultRecords store.catalog).map (·.name)) :
    Good (withCatalog (store.catalog.pushVault ⟨record, []⟩) store) where
  ids := by
    rw [withCatalog, records_pushVault, map_append]
    simpa using hgood.ids.concat hid
  names := by
    rw [withCatalog, records_pushVault, map_append]
    simpa using hgood.names.concat hname
  keys := hgood.keys
  mentions := by
    intro file hfile id hid
    rw [withCatalog, records_pushVault, map_append]
    exact mem_append_left _ (hgood.mentions file hfile id hid)

theorem records_pushSecret (vaultId : VaultId)
    (stored : StoredSecret Encrypted) :
    vaultRecords (catalog.pushSecret vaultId stored) = vaultRecords catalog := by
  have hrecord : ∀ vault : StoredVault Encrypted,
      { vault with secrets := vault.secrets ++ [stored] }.record = vault.record := fun _ ↦ rfl
  exact map_updateFirst _ _ StoredVault.record hrecord catalog.vaults

end

theorem Good.pushSecret (hgood : Good store) (vaultId : VaultId) (stored : StoredSecret Encrypted) :
    Good (withCatalog (store.catalog.pushSecret vaultId stored) store) := by
  have hrecords : vaultRecords (withCatalog (store.catalog.pushSecret vaultId stored) store).catalog =
      vaultRecords store.catalog := records_pushSecret _ _ _
  exact ⟨hrecords ▸ hgood.ids, hrecords ▸ hgood.names, hgood.keys,
    fun file hfile id hid ↦ hrecords ▸ hgood.mentions file hfile id hid⟩

theorem meaning_pushSecret (hgood : Good store) {vault : StoredVault Encrypted}
    (hvault : vault ∈ store.catalog.vaults) {stored : StoredSecret Encrypted} {secret : Secret}
    (hdecrypt : cipher.decrypt vault.record.id stored = .ok secret) :
    meaning cipher decryptSecret
        (withCatalog (store.catalog.pushSecret vault.record.id stored) store) =
      (meaning cipher decryptSecret store).pushSecret vault.record.name
        (stored.metadata, some secret) := by
  have hids := hgood.vault_ids
  have hnames := hgood.vault_names
  have hvaults : (store.catalog.pushSecret vault.record.id stored).vaults.map (plainVault cipher) =
      (store.catalog.vaults.map (plainVault cipher)).map fun plain ↦
        if plain.1 = vault.record.name
        then (vault.record.name, plain.2 ++ [(stored.metadata, some secret)]) else plain := by
    unfold Catalog.pushSecret Catalog.modifySecrets
    dsimp only
    rw [updateFirst_eq_map (fun vault : StoredVault Encrypted ↦ vault.record.id) _ _ hids,
      map_map, map_map]
    apply map_congr_left
    intro other hother
    by_cases hid : other.record.id = vault.record.id
    · have heq := inj_on_of_nodup_map hids hother hvault hid
      subst heq
      simp [plainVault, hdecrypt, Except.toOption]
    · have hname : other.record.name ≠ vault.record.name := fun hname ↦
        hid (by rw [inj_on_of_nodup_map hnames hother hvault hname])
      simp [plainVault, hid, hname]
  unfold meaning Meaning.pushSecret withCatalog
  dsimp only
  rw [records_pushSecret, hvaults]

theorem Good.put (hgood : Good store) {path : Path}
    (hmentions : ∀ id ∈ doc.mentions, id ∈ (vaultRecords store.catalog).map (·.id)) :
    Good { store with files := store.files.put path doc } where
  ids := hgood.ids
  names := hgood.names
  keys := by
    rw [Files.keys_put]
    exact hgood.keys
  mentions := by
    intro file hfile
    obtain ⟨original, horiginal, heq⟩ := mem_map.1 hfile
    split at heq
    · rw [← heq]
      exact hmentions
    · rw [← heq]
      exact hgood.mentions original horiginal

theorem Good.delete (hgood : Good store) (path : Path) :
    Good { store with files := store.files.delete path } where
  ids := hgood.ids
  names := hgood.names
  keys := by
    rw [Files.keys_delete]
    exact hgood.keys.filter _
  mentions := fun file hfile ↦ hgood.mentions file (mem_of_mem_filter hfile)

theorem meaning_put (path : Path) (doc : Doc VaultId Legacy Json) :
    meaning cipher decryptSecret { store with files := store.files.put path doc } =
      (meaning cipher decryptSecret store).put path
        (doc.plain decryptSecret (vaultRecords store.catalog)) := by
  simp only [meaning, Meaning.put, Files.mapDocs_put]

theorem meaning_delete (path : Path) :
    meaning cipher decryptSecret { store with files := store.files.delete path } =
      (meaning cipher decryptSecret store).delete path := by
  simp only [meaning, Meaning.delete, Files.mapDocs_delete]

/-- A vault is attached by its name as by its id. -/
theorem attach_plain (decryptSecret : Legacy → Except String Secret)
    (hids : (records.map (·.id)).Nodup) (hnames : (records.map (·.name)).Nodup)
    (hrecord : record ∈ records) (scope : Path)
    (hmentions : ∀ id ∈ doc.mentions, id ∈ records.map (·.id)) :
    attach scope record.name (doc.plain decryptSecret records) =
      (attach scope record.id doc).map (Option.map (Doc.plain decryptSecret records)) := by
  have hname := nameOf_eq hids hrecord
  have hmem : ∀ vaults : List VaultId, (∀ id ∈ vaults, id ∈ records.map (·.id)) →
      (record.name ∈ vaults.map (nameOf records) ↔ record.id ∈ vaults) := by
    intro vaults hvaults
    constructor
    · intro hmem
      obtain ⟨id, hid, hsame⟩ := mem_map.1 hmem
      rwa [← eq_of_nameOf hids hnames hrecord (hvaults id hid) hsame]
    · intro hmem
      exact mem_map.2 ⟨record.id, hmem, hname⟩
  cases doc with
  | agent agent =>
    simp only [Doc.plain, attach, hmem agent.vaults hmentions]
    split_ifs <;> simp [Except.map, Doc.plain, hname]
  | conversation conversation =>
    simp only [Doc.plain, attach, hmem conversation.vaults hmentions]
    split_ifs <;> simp [Except.map, Doc.plain, hname]
  | secret | binding | other => rfl

theorem mentions_of_attach {scope : Path} {vaultId : VaultId} {doc' : Doc VaultId Legacy Json}
    (hattach : attach scope vaultId doc = .ok (some doc')) :
    ∀ id ∈ doc'.mentions, id ∈ doc.mentions ∨ id = vaultId := by
  unfold attach at hattach
  split at hattach
  · split at hattach
    · split at hattach <;> cases hattach
      simp [Doc.mentions]
    · cases hattach
  · split at hattach
    · cases hattach
    · split at hattach <;> cases hattach
      simp [Doc.mentions]
  · cases hattach

end Exo.Migration
