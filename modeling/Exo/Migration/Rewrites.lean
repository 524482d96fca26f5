import Exo.Migration.Imports

/-!
# The loop over the bindings, and the end of the migration

After the loop over the secrets the references are those that the innermost scope gives.  The bindings
are rewritten with them; after that the secrets are deleted, and last the marker is written.
-/

namespace Exo.Migration

open Library Egress Vault List

variable {Encrypted Data Legacy : Type} {lib : Libraries} {cipher : SecretCipher Encrypted Data}
  {decryptSecret : Legacy → Except String Secret} {references : References} {path : Path}
  {rest : List Path} {header : BindingHeader} {version : StoredBindingVersion VaultId}
  {store store' : Store Encrypted Legacy} {draws : Draws Encrypted} {m m' : Meaning} {scope : Path}
  {id : SecretId}

/-! ## The secrets of a scope -/

theorem hasSecret_iff (hkeys : m.files.keys.Nodup) :
    m.hasSecret scope id ↔ ∃ path ∈ m.files.keys, isFileIn "secrets" path ∧ scopeOf path = scope ∧
      m.secretId path = some id := by
  rw [Meaning.hasSecret, any_eq_true]
  constructor
  · rintro ⟨⟨path, doc⟩, hmem, hfile⟩
    simp only [Bool.and_eq_true, beq_iff_eq] at hfile
    obtain ⟨⟨hpath, hscope⟩, hid⟩ := hfile
    refine ⟨path, mem_map_of_mem hmem, hpath, hscope, ?_⟩
    rw [Meaning.secretId, Files.get, lookup_of_mem hkeys hmem]
    cases doc with
    | secret metadata secret => simpa using hid
    | _ => simp at hid
  · rintro ⟨path, -, hpath, hscope, hid⟩
    unfold Meaning.secretId at hid
    split at hid
    · rename_i metadata secret hget
      rw [Option.some.injEq] at hid
      exact ⟨(path, _), mem_of_get hget, by simp [hpath, hscope, hid]⟩
    · cases hid

theorem mem_keys_of_secretId (hid : m.secretId path = some id) : path ∈ m.files.keys := by
  unfold Meaning.secretId at hid
  split at hid
  · rename_i metadata secret hget
    rw [← Files.isSome_get, hget]
    rfl
  · cases hid

theorem hasSecret_congr (hkeys : m.files.keys.Nodup) (hkeys' : m'.files.keys.Nodup)
    (hsame : ∀ path, isFileIn "secrets" path → m'.secretId path = m.secretId path) :
    m'.hasSecret = m.hasSecret := by
  funext scope id
  rw [Bool.eq_iff_iff, hasSecret_iff hkeys, hasSecret_iff hkeys']
  refine exists_congr fun path ↦ ?_
  constructor
  · rintro ⟨-, hpath, hscope, hid⟩
    rw [hsame path hpath] at hid
    exact ⟨mem_keys_of_secretId hid, hpath, hscope, hid⟩
  · rintro ⟨-, hpath, hscope, hid⟩
    rw [← hsame path hpath] at hid
    exact ⟨mem_keys_of_secretId hid, hpath, hscope, hid⟩

theorem resolve_congr (hsame : m'.hasSecret = m.hasSecret) : m'.resolve = m.resolve := by
  funext scope id
  rw [Meaning.resolve, Meaning.resolve, hsame]

/-- The references are those of all secrets. -/
structure Complete (references : References) (records : List VaultRecord) (m : Meaning) : Prop where
  found : ∀ scope id reference, references.lookup (scope, id) = some reference →
    reference.secret = id ∧ ∃ record ∈ records, record.id = reference.vault ∧
      scopeName scope = .ok record.name
  complete : ∀ scope id, (references.lookup (scope, id)).isSome = m.hasSecret scope id

theorem findSome?_eq {α β : Type} (f : α → Option β) (items : List α) :
    items.findSome? f = (items.find? fun item ↦ (f item).isSome).bind f := by
  induction items with
  | nil => rfl
  | cons item items ih =>
    cases hitem : f item with
    | none => simp [hitem, ih]
    | some value => simp [hitem]

/-- The references give what the innermost scope gives, with ids of vaults for names. -/
theorem Complete.resolve {records : List VaultRecord} (hcomplete : Complete references records m)
    (hids : (records.map (·.id)).Nodup) (scope : Path) (id : SecretId) :
    Reference.map (nameOf records) <$> resolve references scope id = m.resolve scope id := by
  rw [Migration.resolve, Meaning.resolve, findSome?_eq]
  simp only [hcomplete.complete]
  cases hfind : (scopesOf scope).find? fun scope ↦ m.hasSecret scope id with
  | none => rfl
  | some inner =>
    have hhas : m.hasSecret inner id = true :=
      find?_some (p := fun scope ↦ m.hasSecret scope id) hfind
    rw [← hcomplete.complete] at hhas
    obtain ⟨reference, hlookup⟩ := Option.isSome_iff_exists.1 hhas
    obtain ⟨hid, record, hrecord, hvault, hname⟩ := hcomplete.found _ _ _ hlookup
    have hmap : Reference.map (nameOf records) reference = ⟨record.name, id⟩ := by
      rw [Reference.map, ← hvault, nameOf_eq hids hrecord, hid]
    rw [Option.bind_some, hlookup]
    simp only [context, Except.map, Functor.map, hmap, hname, bind, Except.bind]
    rfl

/-! ## The loop over the bindings -/

theorem bindingWork_eq_none : bindingWork path m = .ok none ↔ (isFileIn "bindings" path →
    ∃ header binding, m.files.get path = some (.binding header (some (.current binding)))) := by
  unfold bindingWork
  split
  · rename_i hfile
    simp only [hfile, true_implies, bind_eq_ok, getFile, context_eq_ok]
    constructor
    · rintro ⟨doc, hget, hwork⟩
      split at hwork
      · exact ⟨_, _, hget⟩
      · rw [bind_eq_ok] at hwork
        obtain ⟨migrated, -, hwork⟩ := hwork
        split at hwork <;> cases hwork
      · cases hwork
    · rintro ⟨header, binding, hget⟩
      exact ⟨_, hget, rfl⟩
  · rename_i hfile
    simp [hfile, pure, Except.pure]

theorem not_secret_of_binding (hfile : isFileIn "bindings" path) : ¬ isFileIn "secrets" path := by
  unfold isFileIn at hfile ⊢
  split at hfile
  · simp only [Bool.and_eq_true, beq_iff_eq] at hfile
    simp [hfile.2]
  · cases hfile

variable (lib cipher decryptSecret references rest store) in
/-- The loop is before the rest of the paths; the secrets and the bindings before are done. -/
structure AtBindings : Prop where
  marker : store.marker = false
  secrets : ∀ path ∈ store.files.keys,
    secretWork lib path (meaning cipher decryptSecret store) = .ok none
  complete : Complete references (vaultRecords store.catalog) (meaning cipher decryptSecret store)
  keys : rest <:+ store.files.keys
  bindings : ∀ path ∈ store.files.keys, path ∉ rest →
    bindingWork path (meaning cipher decryptSecret store) = .ok none

@[simp]
theorem keys_meaning (store : Store Encrypted Legacy) :
    (meaning cipher decryptSecret store).files.keys = store.files.keys :=
  Files.keys_mapDocs _ _

theorem Collected.complete_of_all (hgood : Good store)
    (hcollected : Collected store.files.keys references (vaultRecords store.catalog)
      (meaning cipher decryptSecret store)) :
    Complete references (vaultRecords store.catalog) (meaning cipher decryptSecret store) where
  found := hcollected.found
  complete := by
    intro scope id
    have hkeys : (meaning cipher decryptSecret store).files.keys.Nodup := by
      rw [keys_meaning]
      exact hgood.keys
    rw [Bool.eq_iff_iff, hcollected.complete, hasSecret_iff hkeys, keys_meaning]

theorem AtSecrets.atBindings (hgood : Good store)
    (hat : AtSecrets lib cipher decryptSecret references [] store) :
    AtBindings lib cipher decryptSecret references store.files.keys store := by
  obtain ⟨hmarker, done, hkeys, hdone, hcollected⟩ := hat
  rw [append_nil] at hkeys
  rw [← hkeys] at hdone hcollected
  exact ⟨hmarker, hdone, hcollected.complete_of_all hgood, suffix_rfl,
    fun _ hmem hnot ↦ absurd hmem hnot⟩

theorem AtBindings.nextStep (hgood : Good store)
    (hat : AtBindings lib cipher decryptSecret references (path :: rest) store)
    {result : Except String (Option Meaning)}
    (hwork : bindingWork path (meaning cipher decryptSecret store) = result)
    (hresult : result ≠ .ok none) :
    nextStep lib (meaning cipher decryptSecret store) = result := by
  obtain ⟨done, hkeys⟩ := hat.keys
  refine nextStep_of_bindingWork hat.marker ((keys_meaning store).trans hkeys.symm) ?_ ?_ hwork
    hresult
  · rw [keys_meaning]
    exact hat.secrets
  · intro other hother
    have hnodup := hgood.keys
    rw [← hkeys] at hnodup
    refine hat.bindings other (hkeys ▸ mem_append_left _ hother) fun hmem ↦ ?_
    exact (nodup_append.1 hnodup).2.2 other hother other hmem rfl

theorem AtBindings.skip (hat : AtBindings lib cipher decryptSecret references (path :: rest) store)
    (hwork : bindingWork path (meaning cipher decryptSecret store) = .ok none) :
    AtBindings lib cipher decryptSecret references rest store := by
  obtain ⟨hmarker, hsecrets, hcomplete, hkeys, hbindings⟩ := hat
  refine ⟨hmarker, hsecrets, hcomplete, (suffix_cons _ _).trans hkeys, fun other hmem hnot ↦ ?_⟩
  by_cases heq : other = path
  · rw [heq]
    exact hwork
  · exact hbindings other hmem fun hcons ↦ (mem_cons.1 hcons).elim heq hnot

theorem get_meaning (file : Path) : (meaning cipher decryptSecret store).files.get file =
    (store.files.get file).map (Doc.plain decryptSecret (vaultRecords store.catalog)) := by
  rw [meaning, Files.get_mapDocs]

/-- A change of the file of a binding alone. -/
theorem AtBindings.rewrite {files : Files (Doc VaultId Legacy Json)} {json : Json}
    (hgood : Good store) (hgood' : Good { store with files })
    (hat : AtBindings lib cipher decryptSecret references (path :: rest) store)
    (hfile : isFileIn "bindings" path) (hget : store.files.get path = some (.binding header json))
    (hother : ∀ other, other ≠ path → files.get other = store.files.get other)
    (hkeys : rest <:+ files.keys)
    (hdone : bindingWork path (meaning cipher decryptSecret { store with files }) = .ok none ∨
      path ∉ files.keys) :
    AtBindings lib cipher decryptSecret references rest { store with files } := by
  have hsame : ∀ other, other ≠ path →
      (meaning cipher decryptSecret { store with files }).files.get other =
        (meaning cipher decryptSecret store).files.get other := by
    intro other hne
    rw [get_meaning, get_meaning, hother other hne]
  have hkeep : ∀ other, Keeps other (meaning cipher decryptSecret store)
      (meaning cipher decryptSecret { store with files }) := by
    intro other
    refine .of_files rfl ((get_meaning path).trans (by rw [hget]; rfl)) hsame (.inr ?_) ?_
    · simp [Doc.plain]
    · simp [Doc.plain, attach]
  have hmem : ∀ other ∈ files.keys, other ∈ store.files.keys := by
    intro other hmem
    rw [← Files.isSome_get] at hmem ⊢
    by_cases heq : other = path
    · rw [heq, hget]
      rfl
    · rwa [← hother other heq]
  refine ⟨hat.marker, fun other hkey ↦ (hkeep other).secretWork (hat.secrets other (hmem other hkey)),
    ⟨hat.complete.found, fun scope id ↦ ?_⟩, hkeys, fun other hkey hnot ↦ ?_⟩
  · rw [hat.complete.complete]
    refine (congrFun (congrFun (hasSecret_congr ?_ ?_ fun secretPath hsecret ↦ ?_) scope) id).symm
    · rw [keys_meaning]
      exact hgood.keys
    · rw [keys_meaning]
      exact hgood'.keys
    · have hne : secretPath ≠ path := fun heq ↦ not_secret_of_binding hfile (heq ▸ hsecret)
      rw [Meaning.secretId, Meaning.secretId, hsame secretPath hne]
  · by_cases heq : other = path
    · subst heq
      exact hdone.resolve_right fun hnotKey ↦ hnotKey hkey
    · have hwork := hat.bindings other (hmem other hkey) fun hcons ↦
        (mem_cons.1 hcons).elim heq hnot
      rw [bindingWork_eq_none, hsame other heq, ← bindingWork_eq_none]
      exact hwork

variable (lib cipher decryptSecret references path rest header version store) in
/-- The file of a binding has this version. -/
structure AtVersion : Prop where
  at_bindings : AtBindings lib cipher decryptSecret references (path :: rest) store
  file : isFileIn "bindings" path
  version : ∃ json, store.files.get path = some (.binding header json) ∧
    StoredBindingVersion.decode json = some version

variable {binding : LegacyBinding}

theorem AtVersion.get
    (hat : AtVersion lib cipher decryptSecret references path rest header version store) :
    (meaning cipher decryptSecret store).files.get path =
      some (.binding header (some (version.map (nameOf (vaultRecords store.catalog))))) := by
  obtain ⟨json, hget, hversion⟩ := hat.version
  rw [get_meaning, hget]
  simp [Doc.plain, hversion]

theorem follows_readBinding (hfile : isFileIn "bindings" path) :
    Durable.Follows Good (meaning cipher decryptSecret) (nextStep lib)
      (AtBindings lib cipher decryptSecret references (path :: rest))
      (Durable.read (readBinding path))
      fun value ↦ AtVersion lib cipher decryptSecret references path rest value.1 value.2 := by
  refine Durable.follows_read ?_ ?_
  · rintro store ⟨header, version⟩ _ hat hread
    simp only [readBinding, bind_eq_ok, getFile, context_eq_ok] at hread
    obtain ⟨doc, hget, hread⟩ := hread
    cases doc with
    | binding header' json =>
      simp only [bind_eq_ok, context_eq_ok, pure_eq_ok] at hread
      obtain ⟨version', hversion, heq⟩ := hread
      cases heq
      exact ⟨hat, hfile, json, hget, hversion⟩
    | _ => cases hread
  · intro store message hgood hat hread
    have hwork : ∃ message, bindingWork path (meaning cipher decryptSecret store) =
        .error message := by
      rw [bindingWork, if_pos hfile, getFile, get_meaning]
      rw [readBinding, getFile] at hread
      cases hget : store.files.get path with
      | none => exact ⟨_, rfl⟩
      | some doc =>
        rw [hget] at hread
        cases doc with
        | binding header json =>
          cases hversion : StoredBindingVersion.decode json with
          | none => exact ⟨"invalid binding", by simp [Doc.plain, hversion, context, bind, Except.bind]⟩
          | some version =>
            simp [context, bind, Except.bind, hversion, pure, Except.pure] at hread
        | _ => exact ⟨_, rfl⟩
    obtain ⟨message', hmessage'⟩ := hwork
    exact ⟨message', hat.nextStep hgood hmessage' (by simp)⟩

section
variable (hgood : Good store)
  (hat : AtVersion lib cipher decryptSecret references path rest header (.legacy binding) store)
include hgood hat

/-- Migrating a binding by ids of vaults, or by their names. -/
theorem AtVersion.migrate :
    binding.migrate ((meaning cipher decryptSecret store).resolve (scopeOf path)) =
      Option.map (Binding.map (nameOf (vaultRecords store.catalog))) <$>
        binding.migrate (resolve references (scopeOf path)) := by
  rw [← LegacyBinding.migrate_map]
  congr 1
  funext id
  exact (hat.at_bindings.complete.resolve hgood.ids _ _).symm

theorem AtVersion.bindingWork {result : Except String (Option (Binding VaultId))}
    (hmigrate : binding.migrate (resolve references (scopeOf path)) = result) :
    bindingWork path (meaning cipher decryptSecret store) = result.map fun migrated ↦
      some (match migrated with
        | none => (meaning cipher decryptSecret store).delete path
        | some binding => (meaning cipher decryptSecret store).put path (.binding header
            (some (.current (binding.map (nameOf (vaultRecords store.catalog))))))) := by
  have hplain := hat.migrate hgood
  rw [hmigrate] at hplain
  rw [Migration.bindingWork, if_pos hat.file, getFile, hat.get]
  simp only [context, bind, Except.bind, StoredBindingVersion.map, hplain]
  cases result with
  | error message => rfl
  | ok migrated => cases migrated <;> rfl

end

theorem AtVersion.suffix_delete (hgood : Good store)
    (hat : AtVersion lib cipher decryptSecret references path rest header version store) :
    rest <:+ (store.files.delete path).keys := by
  obtain ⟨done, hkeys⟩ := hat.at_bindings.keys
  have hnodup := hgood.keys
  rw [← hkeys] at hnodup
  have hpath : path ∉ rest := (nodup_cons.1 (nodup_append.1 hnodup).2.1).1
  rw [Files.keys_delete, ← hkeys, filter_append, filter_cons_of_neg (by simp)]
  refine ⟨_, congrArg _ (filter_eq_self.2 fun other hother ↦ ?_).symm⟩
  simpa using fun heq : other = path ↦ hpath (heq ▸ hother)

theorem follows_migrateBinding (hfile : isFileIn "bindings" path) :
    Durable.Follows Good (meaning cipher decryptSecret) (nextStep lib)
      (AtBindings lib cipher decryptSecret references (path :: rest))
      (migrateBinding references path)
      fun _ store ↦ AtBindings lib cipher decryptSecret references rest store := by
  refine (follows_readBinding hfile).bind fun ⟨header, version⟩ ↦ ?_
  cases version with
  | current binding =>
    refine Durable.follows_pure fun store _ hat ↦ hat.at_bindings.skip ?_
    exact bindingWork_eq_none.2 fun _ ↦ ⟨header, _, hat.get⟩
  | legacy binding =>
    have hmigrated : Durable.Follows Good (meaning cipher decryptSecret) (nextStep lib)
        (AtVersion lib cipher decryptSecret references path rest header (.legacy binding))
        (Durable.read fun _ : Store Encrypted Legacy ↦
          binding.migrate (resolve references (scopeOf path)))
        fun migrated store ↦
          AtVersion lib cipher decryptSecret references path rest header (.legacy binding) store ∧
            binding.migrate (resolve references (scopeOf path)) = .ok migrated := by
      refine Durable.follows_read (fun store migrated _ hat hview ↦ ⟨hat, hview⟩) ?_
      intro store message hgood hat hview
      exact ⟨message, hat.at_bindings.nextStep hgood (hat.bindingWork hgood hview) (by simp)⟩
    refine hmigrated.bind fun migrated ↦ ?_
    cases migrated with
    | none =>
      refine Durable.follows_write (fun store hgood _ ↦ hgood.delete path) ?_ ?_
      · intro store hgood hpre
        rw [meaning_delete]
        exact .single (hpre.1.at_bindings.nextStep hgood (hpre.1.bindingWork hgood hpre.2)
          (by simp))
      · rintro store hgood ⟨hat, -⟩
        obtain ⟨json, hget, -⟩ := hat.version
        refine hat.at_bindings.rewrite hgood (hgood.delete path) hfile hget
          (fun other hne ↦ Files.get_delete_of_ne _ hne) (hat.suffix_delete hgood) (.inr ?_)
        simp
    | some migrated =>
      have hgoodPut : ∀ store, Good store →
          (AtVersion lib cipher decryptSecret references path rest header (.legacy binding) store ∧
            binding.migrate (resolve references (scopeOf path)) = .ok (some migrated)) →
          Good { store with files := store.files.put path (.binding header migrated.encode) } := by
        rintro store hgood ⟨hat, hmigrate⟩
        refine hgood.put ?_
        simp only [Doc.mentions, LegacyBinding.decode_encode_of_migrate hmigrate, mem_map]
        rintro _ ⟨reference, hreference, rfl⟩
        obtain ⟨id, -, hresolve⟩ := LegacyBinding.references_of_migrate hmigrate reference hreference
        rw [resolve, context_eq_ok] at hresolve
        obtain ⟨scope, -, hlookup⟩ := exists_of_findSome?_eq_some hresolve
        obtain ⟨-, record, hrecord, hvault, -⟩ :=
          hat.at_bindings.complete.found _ _ _ hlookup
        exact ⟨record, hrecord, hvault⟩
      refine Durable.follows_write hgoodPut ?_ ?_
      · intro store hgood hpre
        rw [meaning_put, Doc.plain, LegacyBinding.decode_encode_of_migrate hpre.2]
        exact .single (hpre.1.at_bindings.nextStep hgood (hpre.1.bindingWork hgood hpre.2)
          (by simp))
      · intro store hgood hpre
        have hgood' := hgoodPut store hgood hpre
        obtain ⟨hat, hmigrate⟩ := hpre
        obtain ⟨json, hget, -⟩ := hat.version
        refine hat.at_bindings.rewrite hgood hgood' hfile hget
          (fun other hne ↦ Files.get_put_of_ne _ hne) ?_ (.inl ?_)
        · rw [Files.keys_put]
          exact (suffix_cons _ _).trans hat.at_bindings.keys
        · rw [bindingWork_eq_none, get_meaning, Files.get_put_self _ (by rw [hget]; rfl)]
          intro _
          simp [Doc.plain, LegacyBinding.decode_encode_of_migrate hmigrate,
            StoredBindingVersion.map]

theorem follows_migrateBindings : Durable.Follows Good (meaning cipher decryptSecret) (nextStep lib)
      (AtBindings lib cipher decryptSecret references rest)
      (migrateBindings references rest)
      fun _ store ↦ AtBindings lib cipher decryptSecret references [] store := by
  induction rest with
  | nil => exact Durable.follows_pure fun _ _ ↦ id
  | cons path rest ih =>
    unfold migrateBindings
    split
    · rename_i hfile
      exact (follows_migrateBinding hfile).bind fun _ ↦ ih
    · rename_i hfile
      refine ih.weaken (fun store _ hat ↦ hat.skip ?_) fun _ _ _ ↦ id
      exact bindingWork_eq_none.2 fun hbinding ↦ absurd hbinding hfile

/-! ## Deleting the secrets -/

def secretPaths (store : Store Encrypted Legacy) : List Path :=
  store.files.keys.filter (isFileIn "secrets")

variable (lib cipher decryptSecret rest store) in
/-- All is done but for the deletion of the rest of the secrets. -/
structure AtDeletes : Prop where
  marker : store.marker = false
  secrets : ∀ path ∈ store.files.keys,
    secretWork lib path (meaning cipher decryptSecret store) = .ok none
  bindings : ∀ path ∈ store.files.keys,
    bindingWork path (meaning cipher decryptSecret store) = .ok none
  rest : secretPaths store = rest

theorem AtDeletes.nextStep (hat : AtDeletes lib cipher decryptSecret rest store) :
    nextStep lib (meaning cipher decryptSecret store) =
      .ok (some (lastWork (meaning cipher decryptSecret store))) := by
  refine nextStep_of_lastWork hat.marker ?_ ?_
  · rw [keys_meaning]
    exact hat.secrets
  · rw [keys_meaning]
    exact hat.bindings

theorem find?_of_filter {α : Type} {keep : α → Bool} {items : List α} :
    items.find? keep = (items.filter keep).head? := head?_filter.symm

theorem AtDeletes.delete (hat : AtDeletes lib cipher decryptSecret (path :: rest) store)
    (hgood : Good store) :
    AtDeletes lib cipher decryptSecret rest { store with files := store.files.delete path } := by
  have hmem : path ∈ secretPaths store := by simp [hat.rest]
  obtain ⟨hkey, hfile⟩ := mem_filter.1 hmem
  obtain ⟨metadata, secret, hget, -⟩ := (secretWork_eq_none hfile).1 (hat.secrets path hkey)
  have hother : ∀ other ∈ (store.files.delete path).keys,
      other ∈ store.files.keys ∧ other ≠ path := by
    intro other hother
    rw [Files.keys_delete, mem_filter, decide_eq_true_eq] at hother
    exact hother
  refine ⟨hat.marker, fun other hkeys ↦ ?_, fun other hkeys ↦ ?_, ?_⟩
  · obtain ⟨hmem, hne⟩ := hother other hkeys
    rw [meaning_delete]
    refine Keeps.secretWork ?_ (hat.secrets other hmem)
    exact .of_files rfl hget (fun _ hne ↦ Files.get_delete_of_ne _ hne) (.inl hne)
      (by simp [attach])
  · obtain ⟨hmem, hne⟩ := hother other hkeys
    have hwork := hat.bindings other hmem
    rw [meaning_delete]
    rw [bindingWork_eq_none] at hwork ⊢
    rwa [Meaning.delete, Files.get_delete_of_ne _ hne]
  · have hnodup : (secretPaths store).Nodup := hgood.keys.filter _
    rw [hat.rest, nodup_cons] at hnodup
    rw [secretPaths, Files.keys_delete, filter_comm, ← secretPaths, hat.rest,
      filter_cons_of_neg (by simp), filter_eq_self]
    intro other hmem
    simpa using ne_of_mem_of_not_mem hmem hnodup.1

theorem follows_deleteSecrets : Durable.Follows Good (meaning cipher decryptSecret) (nextStep lib)
      (AtDeletes lib cipher decryptSecret rest) (deleteSecrets rest)
      fun _ store ↦ AtDeletes lib cipher decryptSecret [] store := by
  induction rest with
  | nil => exact Durable.follows_pure fun _ _ ↦ id
  | cons path rest ih =>
    have hwrite : Durable.Follows Good (meaning cipher decryptSecret) (nextStep lib)
        (AtDeletes lib cipher decryptSecret (path :: rest))
        (Durable.write fun store ↦ { store with files := store.files.delete path })
        fun _ store ↦ AtDeletes lib cipher decryptSecret rest store := by
      refine Durable.follows_write (fun store hgood _ ↦ hgood.delete path) ?_
        fun store hgood hat ↦ hat.delete hgood
      intro store hgood hat
      rw [meaning_delete]
      refine .single (hat.nextStep.trans ?_)
      have hfind : (meaning cipher decryptSecret store).files.keys.find? (isFileIn "secrets") =
          some path := by
        rw [keys_meaning, find?_of_filter, ← secretPaths, hat.rest]
        rfl
      rw [lastWork, hfind]
    exact hwrite.bind fun _ ↦ ih

/-! ## The migration -/

/-- The keys of the files. -/
def Store.keys (store : Store Encrypted Legacy) : List Path := store.files.keys

theorem frames_migrateSecret (path : Path) :
    Durable.Frames Store.keys (migrateSecret lib cipher draws decryptSecret path) := by
  have haccess : ∀ {α : Type} (operation : Draw → InPlace (Catalog Encrypted) α),
      Durable.Frames Store.keys
        (accessCatalog draws operation : Durable (Store Encrypted Legacy) α) := by
    intro α operation store
    have hframes : Durable.Frames (Store.keys : Store Encrypted Legacy → List Path)
        (Durable.access Store.catalog (fun catalog store ↦ { store with catalog })
          (operation (draws store.catalog))) := Durable.frames_access fun _ _ ↦ rfl
    exact hframes store
  have hglobal : Durable.Frames Store.keys
      (globalVault draws : Durable (Store Encrypted Legacy) VaultRecord) := by
    refine (Durable.frames_read _).bind fun found ↦ ?_
    cases found with
    | none => exact haccess _
    | some record => exact Durable.frames_pure _
  refine (Durable.frames_read _).bind fun name ↦ ?_
  refine Durable.Frames.bind ?_ fun vault ↦ ?_
  · refine hglobal.bind fun _ ↦ (Durable.frames_read _).bind fun found ↦ ?_
    cases found with
    | none => exact haccess _
    | some record => exact Durable.frames_pure _
  refine (Durable.frames_read _).bind fun value ↦ (haccess _).bind fun _ ↦ ?_
  refine Durable.Frames.bind ?_ fun _ ↦ Durable.frames_pure _
  unfold attachVault
  split
  · exact Durable.frames_pure _
  · refine (Durable.frames_read _).bind fun attached ↦ ?_
    cases attached with
    | none => exact Durable.frames_pure _
    | some record => exact Durable.frames_write fun store ↦ Files.keys_put _ _ _

theorem frames_migrateSecrets (paths : List Path) (references : References) :
    Durable.Frames Store.keys (migrateSecrets lib cipher draws decryptSecret paths references) := by
  induction paths generalizing references with
  | nil => exact Durable.frames_pure _
  | cons path paths ih =>
    unfold migrateSecrets
    split
    · exact (frames_migrateSecret path).bind fun reference ↦ ih _
    · exact ih _

theorem frames_migrateBinding (hfile : isFileIn "bindings" path) :
    Durable.Frames (secretPaths : Store Encrypted Legacy → List Path)
      (migrateBinding references path) := by
  refine (Durable.frames_read _).bind fun ⟨header, version⟩ ↦ ?_
  cases version with
  | current binding => exact Durable.frames_pure _
  | legacy binding =>
    refine (Durable.frames_read _).bind fun migrated ↦ ?_
    cases migrated with
    | none =>
      refine Durable.frames_write fun store ↦ ?_
      rw [secretPaths, Files.keys_delete, filter_filter]
      refine filter_congr fun other _ ↦ ?_
      by_cases heq : other = path
      · subst heq
        simpa using not_secret_of_binding hfile
      · simp [heq]
    | some migrated =>
      exact Durable.frames_write fun store ↦ by rw [secretPaths, Files.keys_put]; rfl

theorem frames_migrateBindings (paths : List Path) :
    Durable.Frames (secretPaths : Store Encrypted Legacy → List Path)
      (migrateBindings references paths) := by
  induction paths with
  | nil => exact Durable.frames_pure _
  | cons path paths ih =>
    unfold migrateBindings
    split
    · rename_i hfile
      exact (frames_migrateBinding hfile).bind fun _ ↦ ih
    · exact ih

/-- After the loops over the secrets and the bindings there are only the secrets to delete. -/
theorem AtBindings.atDeletes (hat : AtBindings lib cipher decryptSecret references [] store) :
    AtDeletes lib cipher decryptSecret (secretPaths store) store :=
  ⟨hat.marker, hat.secrets, fun path hpath ↦ hat.bindings path hpath (by simp), rfl⟩

/-- Every write of the migration takes the next step or changes nothing that matters. -/
theorem follows_migrateLegacySecrets (hfresh : Fresh draws) (hcipher : cipher.Lawful)
    (hencrypts : Encrypts cipher) :
    Durable.Follows Good (meaning cipher decryptSecret) (nextStep lib) (fun _ ↦ True)
      (migrateLegacySecrets lib cipher draws decryptSecret)
      fun _ store ↦ nextStep lib (meaning cipher decryptSecret store) = .ok none := by
  have hmarker : Durable.Follows Good (meaning cipher decryptSecret) (nextStep lib) (fun _ ↦ True)
      (Durable.read fun store : Store Encrypted Legacy ↦ .ok store.marker)
      fun marker store ↦ store.marker = marker :=
    Durable.follows_read (fun store marker _ _ hview ↦ Except.ok.inj hview)
      nofun
  have hkeys : Durable.Follows Good (meaning cipher decryptSecret) (nextStep lib)
      (fun store : Store Encrypted Legacy ↦ store.marker = false)
      (Durable.read fun store : Store Encrypted Legacy ↦ .ok store.files.keys)
      fun keys store ↦ AtSecrets lib cipher decryptSecret [] keys store ∧ store.keys = keys := by
    refine Durable.follows_read (fun store keys _ hfalse hview ↦ ?_)
      nofun
    cases hview
    exact ⟨⟨hfalse, [], rfl, by simp, collected_nil _ _⟩, rfl⟩
  have hlast : Durable.Follows Good (meaning cipher decryptSecret) (nextStep lib)
      (AtDeletes lib cipher decryptSecret [])
      (Durable.write fun store : Store Encrypted Legacy ↦ { store with marker := true })
      fun _ store ↦ nextStep lib (meaning cipher decryptSecret store) = .ok none := by
    refine Durable.follows_write (fun store hgood _ ↦ ⟨hgood.ids, hgood.names, hgood.keys,
      hgood.mentions⟩) (fun store hgood hat ↦ .single (hat.nextStep.trans ?_)) fun _ _ _ ↦ rfl
    have hfind : (meaning cipher decryptSecret store).files.keys.find? (isFileIn "secrets") =
        none := by
      rw [keys_meaning, find?_of_filter, ← secretPaths, hat.rest]
      rfl
    rw [lastWork, hfind]
    rfl
  unfold migrateLegacySecrets
  refine hmarker.bind fun marker ↦ ?_
  cases marker with
  | true =>
    refine Durable.follows_pure fun store _ htrue ↦ ?_
    have hmeaning : (meaning cipher decryptSecret store).marker = true := htrue
    rw [nextStep, if_pos hmeaning]
    rfl
  | false =>
    refine hkeys.bind fun keys ↦ ?_
    refine ((follows_migrateSecrets hfresh hcipher hencrypts).frame
      (frames_migrateSecrets _ _) _).bind fun references ↦ ?_
    have hrewrites : Durable.Follows Good (meaning cipher decryptSecret) (nextStep lib)
        (fun store ↦ AtSecrets lib cipher decryptSecret references [] store ∧ store.keys = keys)
        (migrateBindings references keys)
        fun _ store ↦ AtBindings lib cipher decryptSecret references [] store ∧
          secretPaths store = keys.filter (isFileIn "secrets") := by
      refine (follows_migrateBindings.frame (frames_migrateBindings keys) _).weaken ?_
        fun _ _ _ ↦ id
      rintro store hgood ⟨hat, rfl⟩
      exact ⟨hat.atBindings hgood, rfl⟩
    refine hrewrites.bind fun _ ↦ (follows_deleteSecrets.weaken ?_ fun _ _ _ ↦ id).bind
      fun _ ↦ hlast
    rintro store hgood ⟨hat, hpaths⟩
    exact hpaths ▸ hat.atDeletes

end Exo.Migration
