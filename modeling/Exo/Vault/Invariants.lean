import Mathlib.Data.List.Pairwise
import Exo.Vault.Catalog

/-!
# The invariant of the catalog

What a closure may do to the catalog is one `Change`, which also says which value was sealed where.  The
names, the ids, the resource policies and the ciphertexts are followed through a change once, whichever
closure made it.
-/

namespace Exo.Vault

open Library Egress List

variable {Encrypted Data : Type}

/-- Two policies that are the same resource policy. -/
def SameResource (policy policy' : Option CredentialPolicy) : Prop :=
  policy = policy' ∧ policy.any CredentialPolicy.isResource

theorem SameResource.symm {policy policy' : Option CredentialPolicy}
    (hsame : SameResource policy policy') : SameResource policy' policy :=
  ⟨hsame.1.symm, hsame.1 ▸ hsame.2⟩

/-- Ids and names of the secrets are distinct, and no two have the same resource policy. -/
structure ValidSecrets (secrets : List (StoredSecret Encrypted)) : Prop where
  ids : (secrets.map (·.metadata.id)).Nodup
  names : (secrets.map (·.metadata.name)).Nodup
  resources : secrets.Pairwise fun stored other ↦
    ¬ SameResource stored.metadata.policy other.metadata.policy

structure Catalog.Valid (catalog : Catalog Encrypted) : Prop where
  ids : (catalog.vaults.map (·.record.id)).Nodup
  names : (catalog.vaults.map (·.record.name)).Nodup
  secrets : ∀ vault ∈ catalog.vaults, ValidSecrets vault.secrets

/-- Every id in the catalog was drawn before. -/
structure Catalog.Below (nextId : ℕ) (catalog : Catalog Encrypted) : Prop where
  vaults : ∀ vault ∈ catalog.vaults, vault.record.id < nextId
  secrets : ∀ vault ∈ catalog.vaults, ∀ stored ∈ vault.secrets, stored.metadata.id < nextId

/-- A value that was put into the catalog. -/
structure Write where
  vaultId : VaultId
  id : SecretId
  secret : Secret
  deriving DecidableEq

variable (cipher : SecretCipher Encrypted Data) (nextId : ℕ)

/-- What a closure may do to the secrets of a vault. -/
inductive SecretChange (vaultId : VaultId) (secrets : List (StoredSecret Encrypted)) :
    List (StoredSecret Encrypted) → Option Write → Prop where
  | push (stored : StoredSecret Encrypted) (secret : Secret) (hid : stored.metadata.id = nextId)
      (hnames : ∀ other ∈ secrets, other.metadata.name ≠ stored.metadata.name)
      (hresources : ∀ other ∈ secrets, ¬ SameResource other.metadata.policy stored.metadata.policy)
      (hseals : cipher.Seals stored.secret vaultId stored.metadata secret) :
      SecretChange vaultId secrets (secrets ++ [stored]) (some ⟨vaultId, nextId, secret⟩)
  | remove (id : SecretId) :
      SecretChange vaultId secrets (secrets.filter (·.metadata.id != id)) none
  | replace (old new : StoredSecret Encrypted) (secret : Secret)
      (hold : secrets.find? (·.metadata.id = old.metadata.id) = some old)
      (hid : new.metadata.id = old.metadata.id) (hname : new.metadata.name = old.metadata.name)
      (hrevision : new.metadata.revision = old.metadata.revision + 1)
      (hresources : new.metadata.policy = old.metadata.policy ∨ ∀ other ∈ secrets,
        other.metadata.id ≠ old.metadata.id →
          ¬ SameResource other.metadata.policy new.metadata.policy)
      (hseals : cipher.Seals new.secret vaultId new.metadata secret) :
      SecretChange vaultId secrets
        (updateFirst (·.metadata.id = old.metadata.id) (fun _ ↦ new) secrets)
        (some ⟨vaultId, old.metadata.id, secret⟩)

/-- What a closure may do to the catalog, and the value it seals. -/
inductive Change (catalog : Catalog Encrypted) : Catalog Encrypted → Option Write → Prop where
  | none : Change catalog catalog none
  | create (record : VaultRecord) (hid : record.id = nextId)
      (hname : ∀ vault ∈ catalog.vaults, vault.record.name ≠ record.name) :
      Change catalog (catalog.pushVault ⟨record, []⟩) none
  | removeVault (vaultId : VaultId) (vault : StoredVault Encrypted)
      (hvault : catalog.vault vaultId = .ok vault) (hglobal : vault.record.name ≠ "global") :
      Change catalog (catalog.removeVault vaultId) none
  | secrets (vaultId : VaultId) (vault : StoredVault Encrypted)
      (change : List (StoredSecret Encrypted) → List (StoredSecret Encrypted))
      (write : Option Write) (hvault : catalog.vault vaultId = .ok vault)
      (hchange : SecretChange cipher nextId vaultId vault.secrets (change vault.secrets) write) :
      Change catalog (catalog.modifySecrets vaultId change) write

variable {cipher} {nextId} {lib : Libraries} {catalog catalog' : Catalog Encrypted}
  {vaultId : VaultId} {vault : StoredVault Encrypted} {draw : Draw} {record : VaultRecord}
  {id : SecretId} {secrets secrets' : List (StoredSecret Encrypted)} {write : Option Write}
  {stored : StoredSecret Encrypted}

theorem Catalog.vault_eq_ok : catalog.vault vaultId = .ok vault ↔
      catalog.vaults.find? (·.record.id = vaultId) = some vault := context_eq_ok

theorem Catalog.mem_of_vault (hvault : catalog.vault vaultId = .ok vault) :
    vault ∈ catalog.vaults ∧ vault.record.id = vaultId := by
  rw [vault_eq_ok] at hvault
  exact ⟨mem_of_find?_eq_some hvault, by simpa using find?_some hvault⟩

open InPlace

theorem create_change {name : String} (hname : ∀ vault ∈ catalog.vaults, vault.record.name ≠ name)
    (hrun : (create draw name).runOn catalog = (.ok record, catalog')) :
    Change cipher draw.id catalog catalog' none := by
  simp only [create, bind_ok, update_ok, pure_ok] at hrun
  obtain ⟨_, _, rfl, _, rfl⟩ := hrun
  exact .create ⟨draw.id, name, draw.now⟩ rfl hname

theorem createGlobal_change (hrun : (createGlobal draw).runOn catalog = (.ok record, catalog')) :
    Change cipher draw.id catalog catalog' none := by
  simp only [createGlobal, findGlobal, bind_ok, look_ok, Except.ok.injEq] at hrun
  obtain ⟨_, _, ⟨rfl, rfl⟩, hrun⟩ := hrun
  cases hfind : catalog.vaults.find? (·.record.name == "global") with
  | some vault =>
    simp only [hfind, Option.map_some, pure_ok] at hrun
    exact hrun.2 ▸ .none
  | none =>
    simp only [hfind, Option.map_none] at hrun
    refine create_change (fun vault hvault hname ↦ ?_) hrun
    simpa [hname] using find?_eq_none.1 hfind vault hvault

theorem createVault_change {name : String}
    (hrun : (createVault draw name).runOn catalog = (.ok record, catalog')) :
    Change cipher draw.id catalog catalog' none := by
  simp only [createVault, bind_ok, check_ok, look_ok, Except.ok.injEq, ensure_eq_ok] at hrun
  obtain ⟨_, _, ⟨_, rfl⟩, _, _, ⟨rfl, rfl⟩, _, _, ⟨htaken, rfl⟩, hrun⟩ := hrun
  refine create_change (fun vault hvault hname ↦ ?_) hrun
  simp only [Bool.not_eq_true', any_eq_false, beq_iff_eq] at htaken
  exact htaken vault hvault hname

theorem deleteVault_change {result : Unit}
    (hrun : (deleteVault vaultId).runOn catalog = (.ok result, catalog')) :
    Change cipher nextId catalog catalog' none := by
  simp only [deleteVault, bind_ok, look_ok, check_ok, ensure_eq_ok, update_ok, pure_ok] at hrun
  obtain ⟨vault, _, ⟨hvault, rfl⟩, _, _, ⟨hglobal, rfl⟩, _, _, rfl, _, rfl⟩ := hrun
  exact .removeVault vaultId vault hvault (by simpa using hglobal)

theorem deleteSecret_change {result : Unit}
    (hrun : (deleteSecret vaultId id).runOn catalog = (.ok result, catalog')) :
    Change cipher nextId catalog catalog' none := by
  simp only [deleteSecret, bind_ok, look_ok, check_ok, ensure_eq_ok, update_ok, pure_ok] at hrun
  obtain ⟨vault, _, ⟨hvault, rfl⟩, _, _, ⟨_, rfl⟩, _, _, rfl, _, rfl⟩ := hrun
  exact .secrets vaultId vault _ none hvault (.remove id)

theorem putSecret_change (hcipher : cipher.Lawful) {request : PutSecretRequest}
    (hrun : (putSecret lib cipher draw vaultId request).runOn catalog = (.ok id, catalog')) :
    Change cipher draw.id catalog catalog' (some ⟨vaultId, draw.id, request.secret⟩) := by
  simp only [putSecret, bind_ok, look_ok, check_ok, ensure_eq_ok, update_ok, pure_ok] at hrun
  obtain ⟨vault, _, ⟨hvault, rfl⟩, _, _, ⟨_, rfl⟩, target, _, ⟨_, rfl⟩, _, _, ⟨htaken, rfl⟩,
    encrypted, _, ⟨hencrypt, rfl⟩, _, _, rfl, _, rfl⟩ := hrun
  simp only [Bool.not_eq_true', any_eq_false, Bool.or_eq_true, Bool.and_eq_true, beq_iff_eq,
    not_or, not_and] at htaken
  refine .secrets vaultId vault _ _ hvault (.push _ _ rfl ?_ ?_ (seals_encrypt hcipher hencrypt))
  · exact fun other hother ↦ (htaken other hother).1
  · exact fun other hother hsame ↦ (htaken other hother).2 hsame.symm.2 hsame.1

theorem updateSecret_change (hcipher : cipher.Lawful) (nextId : ℕ) {request : UpdateSecretRequest}
    {metadata : SecretMetadata}
    (hrun : (updateSecret lib cipher draw vaultId id request).runOn catalog =
      (.ok metadata, catalog')) :
    ∃ vault stored secret, catalog.vault vaultId = .ok vault ∧ vault.find id = some stored ∧
      updatedSecret cipher vaultId stored request.secret = .ok secret ∧
        Change cipher nextId catalog catalog' (some ⟨vaultId, id, secret⟩) := by
  simp only [updateSecret, bind_ok, look_ok, check_ok, ensure_eq_ok, update_ok, pure_ok,
    context_eq_ok] at hrun
  obtain ⟨vault, _, ⟨hvault, rfl⟩, target, _, ⟨_, rfl⟩, _, _, ⟨htaken, rfl⟩, stored, _,
    ⟨hstored, rfl⟩, secret, _, ⟨hsecret, rfl⟩, revision, _, ⟨hrevision, rfl⟩, encrypted, _,
    ⟨hencrypt, rfl⟩, _, _, rfl, _, rfl⟩ := hrun
  have hid : stored.metadata.id = id := by simpa using find?_some hstored
  refine ⟨vault, stored, secret, hvault, hstored, hsecret, ?_⟩
  simp only [nextRevision, bind_eq_ok, pure_eq_ok] at hrevision
  obtain ⟨_, _, rfl⟩ := hrevision
  subst hid
  refine .secrets vaultId vault _ _ hvault
    (.replace stored _ secret hstored rfl rfl rfl ?_ (seals_encrypt hcipher hencrypt))
  cases target with
  | none => exact .inl rfl
  | some target =>
    refine .inr fun other hother hne hsame ↦ ?_
    simp only [Bool.not_eq_true', Bool.and_eq_false_iff, any_eq_false, Bool.and_eq_true,
      bne_iff_ne, beq_iff_eq, not_and] at htaken
    rcases htaken with hresource | htaken
    · exact absurd hsame.symm.2 (by simp [hresource])
    · exact htaken other hother hne hsame.1

theorem storeRefreshed_change (hcipher : cipher.Lawful) {revision : ℕ} {secret : Secret}
    {resolved : ResolvedSecret}
    (hrun : (storeRefreshed lib cipher draw vaultId id revision secret).runOn catalog =
      (.ok resolved, catalog')) :
    (∃ vault stored, catalog.vault vaultId = .ok vault ∧ vault.find id = some stored ∧
      stored.metadata.revision = revision ∧ resolved = ⟨revision + 1, secret⟩) ∧
        Change cipher nextId catalog catalog' (some ⟨vaultId, id, secret⟩) := by
  simp only [storeRefreshed, bind_ok, look_ok, check_ok, ensure_eq_ok, update_ok, pure_ok,
    context_eq_ok] at hrun
  obtain ⟨vault, _, ⟨hvault, rfl⟩, stored, _, ⟨hstored, rfl⟩, _, _, ⟨hrevision, rfl⟩, next, _,
    ⟨hnext, rfl⟩, encrypted, _, ⟨hencrypt, rfl⟩, _, _, rfl, rfl, rfl⟩ := hrun
  have hid : stored.metadata.id = id := by simpa using find?_some hstored
  simp only [nextRevision, bind_eq_ok, pure_eq_ok] at hnext
  obtain ⟨_, _, rfl⟩ := hnext
  simp only [beq_iff_eq] at hrevision
  refine ⟨⟨vault, stored, hvault, hstored, hrevision, by rw [hrevision]⟩, ?_⟩
  subst hid
  exact .secrets vaultId vault _ _ hvault
    (.replace stored _ secret hstored rfl rfl rfl (.inl rfl) (seals_encrypt hcipher hencrypt))

theorem nodup_map_snoc {α β : Type} {f : α → β} {entries : List α} {new : α}
    (hentries : (entries.map f).Nodup) (hnew : ∀ other ∈ entries, f other ≠ f new) :
    ((entries ++ [new]).map f).Nodup := by
  rw [map_append, map_singleton]
  simpa using hentries.concat (a := f new) fun hmem ↦ by
    obtain ⟨other, hother, heq⟩ := mem_map.1 hmem
    exact hnew other hother heq

theorem SecretChange.valid (hchange : SecretChange cipher nextId vaultId secrets secrets' write)
    (hbelow : ∀ stored ∈ secrets, stored.metadata.id < nextId) (hvalid : ValidSecrets secrets) :
    ValidSecrets secrets' := by
  cases hchange with
  | push stored secret hid hnames hresources hseals =>
    constructor
    · refine nodup_map_snoc hvalid.ids fun other hother heq ↦ ?_
      exact (hbelow other hother).ne (heq.trans hid)
    · exact nodup_map_snoc hvalid.names hnames
    · rw [pairwise_append]
      refine ⟨hvalid.resources, pairwise_singleton _ _, ?_⟩
      simpa using hresources
  | remove id =>
    have hsub : (secrets.filter (·.metadata.id != id)).Sublist secrets := filter_sublist
    exact ⟨hvalid.ids.sublist (hsub.map _), hvalid.names.sublist (hsub.map _),
      hvalid.resources.sublist hsub⟩
  | replace old new secret hold hid hname hrevision hresources hseals =>
    have hmem := mem_of_find?_eq_some hold
    have hmap := updateFirst_eq_map (fun stored : StoredSecret Encrypted ↦ stored.metadata.id)
      old.metadata.id (fun _ ↦ new) hvalid.ids
    have honly : ∀ stored ∈ secrets, stored.metadata.id = old.metadata.id → stored = old :=
      fun stored hstored heq ↦ inj_on_of_nodup_map hvalid.ids hstored hmem heq
    have hids : (updateFirst (·.metadata.id = old.metadata.id) (fun _ ↦ new) secrets).map
        (·.metadata.id) = secrets.map (·.metadata.id) := by
      rw [hmap, map_map]
      refine map_congr_left fun stored _ ↦ ?_
      by_cases heq : stored.metadata.id = old.metadata.id <;> simp [heq, hid]
    have hnames : (updateFirst (·.metadata.id = old.metadata.id) (fun _ ↦ new) secrets).map
        (·.metadata.name) = secrets.map (·.metadata.name) := by
      rw [hmap, map_map]
      refine map_congr_left fun stored hstored ↦ ?_
      by_cases heq : stored.metadata.id = old.metadata.id
      · simp [hname, honly stored hstored heq]
      · simp [heq]
    have hother : ∀ other ∈ secrets, other.metadata.id ≠ old.metadata.id →
        ¬ SameResource other.metadata.policy new.metadata.policy := by
      intro other hmemOther hne
      rcases hresources with hpolicy | hresources
      · rw [hpolicy]
        have hneq : other ≠ old := fun heq ↦ hne (heq ▸ rfl)
        have : Std.Symm fun stored other : StoredSecret Encrypted ↦
            ¬ SameResource stored.metadata.policy other.metadata.policy :=
          ⟨fun _ _ h hsame ↦ h hsame.symm⟩
        exact hvalid.resources.forall hmemOther hmem hneq
      · exact hresources other hmemOther hne
    refine ⟨hids ▸ hvalid.ids, hnames ▸ hvalid.names, ?_⟩
    rw [hmap, pairwise_map]
    have hdistinct : secrets.Pairwise fun stored other ↦ stored.metadata.id ≠ other.metadata.id :=
      pairwise_map.1 hvalid.ids
    refine (hvalid.resources.and hdistinct).imp_of_mem ?_
    rintro stored other hstored hotherMem ⟨hresource, hne⟩
    by_cases heq : stored.metadata.id = old.metadata.id
    · have hneOther : other.metadata.id ≠ old.metadata.id := fun h ↦ hne (heq.trans h.symm)
      rw [if_pos heq, if_neg hneOther]
      exact fun hsame ↦ hother other hotherMem hneOther hsame.symm
    · rw [if_neg heq]
      by_cases heqOther : other.metadata.id = old.metadata.id
      · rw [if_pos heqOther]
        exact hother stored hstored heq
      · rwa [if_neg heqOther]

theorem Catalog.mem_modifySecrets (hvalid : catalog.Valid)
    {change : List (StoredSecret Encrypted) → List (StoredSecret Encrypted)} :
    vault ∈ (catalog.modifySecrets vaultId change).vaults ↔
      (vault ∈ catalog.vaults ∧ vault.record.id ≠ vaultId) ∨
        ∃ old, catalog.vault vaultId = .ok old ∧
          vault = { old with secrets := change old.secrets } := by
  simp only [vault_eq_ok]
  exact mem_updateFirst (fun vault : StoredVault Encrypted ↦ vault.record.id) vaultId
    (fun vault ↦ { vault with secrets := change vault.secrets }) hvalid.ids

theorem Catalog.map_record_modifySecrets (vaultId : VaultId)
    (change : List (StoredSecret Encrypted) → List (StoredSecret Encrypted)) :
    (catalog.modifySecrets vaultId change).vaults.map (·.record) = catalog.vaults.map (·.record) :=
  map_updateFirst _ (fun vault ↦ { vault with secrets := change vault.secrets }) (·.record)
    (fun _ ↦ rfl) catalog.vaults

theorem Change.valid (hchange : Change cipher nextId catalog catalog' write)
    (hbelow : catalog.Below nextId) (hvalid : catalog.Valid) : catalog'.Valid := by
  cases hchange with
  | none => exact hvalid
  | create record hid hname =>
    constructor
    · refine nodup_map_snoc hvalid.ids fun vault hvault heq ↦ ?_
      exact (hbelow.vaults vault hvault).ne (heq.trans hid)
    · exact nodup_map_snoc hvalid.names hname
    · simp only [Catalog.pushVault, mem_append, mem_singleton]
      rintro vault (hvault | rfl)
      · exact hvalid.secrets vault hvault
      · exact ⟨nodup_nil, nodup_nil, List.Pairwise.nil⟩
  | removeVault vaultId vault hvault hglobal =>
    have hsub : (catalog.removeVault vaultId).vaults.Sublist catalog.vaults :=
      filter_sublist
    exact ⟨hvalid.ids.sublist (hsub.map _), hvalid.names.sublist (hsub.map _),
      fun vault hmem ↦ hvalid.secrets vault (hsub.subset hmem)⟩
  | secrets vaultId vault change write hvault hchange =>
    have hrecords := catalog.map_record_modifySecrets vaultId change
    constructor
    · have hids := congrArg (map (·.id)) hrecords
      simp only [map_map] at hids
      exact hids.symm ▸ hvalid.ids
    · have hnames := congrArg (map (·.name)) hrecords
      simp only [map_map] at hnames
      exact hnames.symm ▸ hvalid.names
    · intro vault' hvault'
      rcases (Catalog.mem_modifySecrets hvalid).1 hvault' with ⟨hmem, _⟩ | ⟨old, hold, rfl⟩
      · exact hvalid.secrets vault' hmem
      · cases Except.ok.inj (hold.symm.trans hvault)
        have hmem := (Catalog.mem_of_vault hvault).1
        exact hchange.valid (hbelow.secrets vault hmem) (hvalid.secrets vault hmem)

/-- The secret is in the vault. -/
def Catalog.Holds (catalog : Catalog Encrypted) (vaultId : VaultId)
    (stored : StoredSecret Encrypted) : Prop :=
  ∃ vault ∈ catalog.vaults, vault.record.id = vaultId ∧ stored ∈ vault.secrets

theorem Catalog.Below.holds (hbelow : catalog.Below nextId)
    (hholds : catalog.Holds vaultId stored) : stored.metadata.id < nextId := by
  obtain ⟨vault, hvault, _, hstored⟩ := hholds
  exact hbelow.secrets vault hvault stored hstored

/-- An id of a vault names one secret. -/
theorem Catalog.Valid.holds_inj (hvalid : catalog.Valid) {other : StoredSecret Encrypted}
    (hstored : catalog.Holds vaultId stored) (hother : catalog.Holds vaultId other)
    (hid : stored.metadata.id = other.metadata.id) : stored = other := by
  obtain ⟨vault, hvault, hvaultId, hmem⟩ := hstored
  obtain ⟨vault', hvault', hvaultId', hmem'⟩ := hother
  have heq : vault = vault' :=
    inj_on_of_nodup_map hvalid.ids hvault hvault' (hvaultId.trans hvaultId'.symm)
  subst heq
  exact inj_on_of_nodup_map (hvalid.secrets vault hvault).ids hmem hmem' hid

section
variable (hchange : SecretChange cipher nextId vaultId secrets secrets' write)
include hchange

theorem SecretChange.vaultId_eq : ∀ item ∈ write, item.vaultId = vaultId := by
  intro item hitem
  cases hchange <;> cases hitem <;> rfl

theorem SecretChange.mem
    (hbelow : ∀ stored ∈ secrets, stored.metadata.id < nextId) (hvalid : ValidSecrets secrets)
    (hstored : stored ∈ secrets') :
    (stored ∈ secrets ∧ ∀ item ∈ write, item.id ≠ stored.metadata.id) ∨
      ∃ secret, write = some ⟨vaultId, stored.metadata.id, secret⟩ ∧
        cipher.Seals stored.secret vaultId stored.metadata secret ∧
          (stored.metadata.id = nextId ∨ ∃ old ∈ secrets, stored.metadata.id = old.metadata.id ∧
            stored.metadata.revision = old.metadata.revision + 1) := by
  cases hchange with
  | push new secret hid hnames hresources hseals =>
    rcases mem_append.1 hstored with hmem | hmem
    · refine .inl ⟨hmem, fun item hitem ↦ ?_⟩
      cases hitem
      exact (hbelow stored hmem).ne'
    · cases mem_singleton.1 hmem
      exact .inr ⟨secret, by rw [hid], hseals, .inl hid⟩
  | remove id => exact .inl ⟨(mem_filter.1 hstored).1, nofun⟩
  | replace old new secret hold hid hname hrevision hresources hseals =>
    rcases (mem_updateFirst (fun stored : StoredSecret Encrypted ↦ stored.metadata.id) _ _
      hvalid.ids).1 hstored with ⟨hmem, hne⟩ | ⟨_, _, rfl⟩
    · refine .inl ⟨hmem, fun item hitem ↦ ?_⟩
      cases hitem
      exact Ne.symm hne
    · exact .inr ⟨secret, by rw [hid], hseals,
        .inr ⟨old, mem_of_find?_eq_some hold, hid, hrevision⟩⟩

end

section
variable (hchange : Change cipher nextId catalog catalog' write) (hbelow : catalog.Below nextId)
  (hvalid : catalog.Valid)
include hchange hbelow hvalid

/-- A secret that is there after a change was there before, or it is the one that was written: it is
new, or it follows its former self. -/
theorem Change.holds (hholds : catalog'.Holds vaultId stored) : (catalog.Holds vaultId stored ∧
        ∀ item ∈ write, ¬ (item.vaultId = vaultId ∧ item.id = stored.metadata.id)) ∨
      ∃ secret, write = some ⟨vaultId, stored.metadata.id, secret⟩ ∧
        cipher.Seals stored.secret vaultId stored.metadata secret ∧
          (stored.metadata.id = nextId ∨ ∃ old, catalog.Holds vaultId old ∧
            stored.metadata.id = old.metadata.id ∧
              stored.metadata.revision = old.metadata.revision + 1) := by
  obtain ⟨vault, hvault, hvaultId, hstored⟩ := hholds
  cases hchange with
  | none => exact .inl ⟨⟨vault, hvault, hvaultId, hstored⟩, nofun⟩
  | create record hid hname =>
    rcases mem_append.1 hvault with hmem | hmem
    · exact .inl ⟨⟨vault, hmem, hvaultId, hstored⟩, nofun⟩
    · cases mem_singleton.1 hmem
      cases hstored
  | removeVault removed _ _ _ =>
    have hmem := (mem_filter.1 hvault).1
    exact .inl ⟨⟨vault, hmem, hvaultId, hstored⟩, nofun⟩
  | secrets changed old change write hold hchange =>
    obtain ⟨hmemOld, hidOld⟩ := Catalog.mem_of_vault hold
    rcases (Catalog.mem_modifySecrets hvalid).1 hvault with ⟨hmem, hne⟩ | ⟨_, hold', rfl⟩
    · refine .inl ⟨⟨vault, hmem, hvaultId, hstored⟩, fun item hitem heq ↦ ?_⟩
      exact hne (hvaultId.trans (heq.1.symm.trans (hchange.vaultId_eq item hitem)))
    · cases Except.ok.inj (hold'.symm.trans hold)
      have hchanged : changed = vaultId := hidOld.symm.trans hvaultId
      subst hchanged
      rcases hchange.mem (hbelow.secrets old hmemOld) (hvalid.secrets old hmemOld) hstored with
        ⟨hmem, hwrite⟩ | ⟨secret, hwrite, hseals, hid | ⟨former, hformer, hid, hrevision⟩⟩
      · exact .inl ⟨⟨old, hmemOld, hidOld, hmem⟩, fun item hitem heq ↦ hwrite item hitem heq.2⟩
      · exact .inr ⟨secret, hwrite, hseals, .inl hid⟩
      · exact .inr ⟨secret, hwrite, hseals,
          .inr ⟨former, ⟨old, hmemOld, hidOld, hformer⟩, hid, hrevision⟩⟩

theorem Change.below : catalog'.Below (nextId + 1) := by
  have hsecrets : ∀ vault ∈ catalog'.vaults, ∀ stored ∈ vault.secrets,
      stored.metadata.id < nextId + 1 := by
    intro vault hvault stored hstored
    rcases hchange.holds hbelow hvalid ⟨vault, hvault, rfl, hstored⟩ with
      ⟨hholds, _⟩ | ⟨_, _, _, hid | ⟨old, hold, hid, _⟩⟩
    · exact (hbelow.holds hholds).trans (Nat.lt_succ_self _)
    · exact hid ▸ Nat.lt_succ_self nextId
    · exact hid ▸ (hbelow.holds hold).trans (Nat.lt_succ_self _)
  refine ⟨fun vault hvault ↦ ?_, hsecrets⟩
  cases hchange with
  | none => exact (hbelow.vaults vault hvault).trans (Nat.lt_succ_self _)
  | create record hid hname =>
    rcases mem_append.1 hvault with hmem | hmem
    · exact (hbelow.vaults vault hmem).trans (Nat.lt_succ_self _)
    · cases mem_singleton.1 hmem
      exact hid ▸ Nat.lt_succ_self _
  | removeVault removed _ _ _ =>
    exact (hbelow.vaults vault (mem_filter.1 hvault).1).trans (Nat.lt_succ_self _)
  | secrets changed old change write hold hchange =>
    rcases (Catalog.mem_modifySecrets hvalid).1 hvault with ⟨hmem, _⟩ | ⟨old', hold', rfl⟩
    · exact (hbelow.vaults vault hmem).trans (Nat.lt_succ_self _)
    · exact (hbelow.vaults old' (Catalog.mem_of_vault hold').1).trans (Nat.lt_succ_self _)

end

/-- The value that was written last. -/
def lastWritten (writes : List Write) (vaultId : VaultId) (id : SecretId) : Option Secret :=
  (writes.reverse.find? fun write ↦ write.vaultId = vaultId ∧ write.id = id).map (·.secret)

/-- Every ciphertext is the value that was written last, sealed under its vault and its metadata. -/
def Catalog.Sealed (cipher : SecretCipher Encrypted Data) (writes : List Write)
    (catalog : Catalog Encrypted) : Prop :=
  ∀ vaultId stored, catalog.Holds vaultId stored →
    ∃ secret, lastWritten writes vaultId stored.metadata.id = some secret ∧
      cipher.Seals stored.secret vaultId stored.metadata secret

theorem lastWritten_snoc (writes : List Write) (write : Write) (vaultId : VaultId)
    (id : SecretId) :
    lastWritten (writes ++ [write]) vaultId id =
      if write.vaultId = vaultId ∧ write.id = id then some write.secret
      else lastWritten writes vaultId id := by
  rw [lastWritten, reverse_append, reverse_singleton, singleton_append, find?_cons]
  split
  · rename_i hwrite
    rw [if_pos (of_decide_eq_true hwrite)]
    rfl
  · rename_i hwrite
    rw [if_neg (of_decide_eq_false hwrite)]
    rfl

theorem Change.seals (hchange : Change cipher nextId catalog catalog' write)
    (hbelow : catalog.Below nextId) (hvalid : catalog.Valid) {writes : List Write}
    (hsealed : catalog.Sealed cipher writes) : catalog'.Sealed cipher (writes ++ write.toList) := by
  intro vaultId stored hholds
  rcases hchange.holds hbelow hvalid hholds with ⟨hholds, hwrite⟩ | ⟨secret, rfl, hseals, _⟩
  · obtain ⟨secret, hlast, hseals⟩ := hsealed vaultId stored hholds
    refine ⟨secret, ?_, hseals⟩
    cases write with
    | none => simpa using hlast
    | some write =>
      rw [Option.toList_some, lastWritten_snoc, if_neg (hwrite write rfl)]
      exact hlast
  · refine ⟨secret, ?_, hseals⟩
    rw [Option.toList_some, lastWritten_snoc, if_pos ⟨rfl, rfl⟩]

end Exo.Vault
