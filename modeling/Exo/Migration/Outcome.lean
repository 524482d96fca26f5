import Exo.Migration.Rewrites

/-!
# What a migration comes to

From a legacy store each step keeps a few facts: a vault holds secrets of its scopes only, a binding is
as it was or as the innermost scopes have it, a record lists no vault twice, and nothing is deleted
before the secrets are in their vaults and the bindings are rewritten.
-/

namespace Exo.Migration

open Library Egress Vault List Option

variable {lib : Libraries} {o m m' : Meaning} {path : Path} {scope : Path} {name : String}

variable {work : Path → Meaning → Except String (Option Meaning)} {paths : List Path}

theorem exists_of_firstWork (hwork : firstWork work m paths = .ok (some m')) :
    ∃ path ∈ paths, work path m = .ok (some m') := by
  induction paths with
  | nil => cases hwork
  | cons path paths ih =>
    rw [firstWork, bind_eq_ok] at hwork
    obtain ⟨result, hpath, hwork⟩ := hwork
    split at hwork
    · cases hwork
      exact ⟨path, by simp, hpath⟩
    · obtain ⟨other, hmem, hother⟩ := ih hwork
      exact ⟨other, mem_cons_of_mem _ hmem, hother⟩

theorem all_of_firstWork (hwork : firstWork work m paths = .ok none) :
    ∀ path ∈ paths, work path m = .ok none := by
  induction paths with
  | nil => simp
  | cons path paths ih =>
    rw [firstWork, bind_eq_ok] at hwork
    obtain ⟨result, hpath, hwork⟩ := hwork
    split at hwork
    · cases hwork
    · exact forall_mem_cons.2 ⟨hpath, ih hwork⟩

theorem nextStep_cases (hstep : nextStep lib m = .ok (some m')) : m.marker = false ∧
    ((∃ path ∈ m.files.keys, secretWork lib path m = .ok (some m')) ∨
      (∀ path ∈ m.files.keys, secretWork lib path m = .ok none) ∧
        ((∃ path ∈ m.files.keys, bindingWork path m = .ok (some m')) ∨
          (∀ path ∈ m.files.keys, bindingWork path m = .ok none) ∧ m' = lastWork m)) := by
  unfold nextStep at hstep
  split at hstep
  · cases hstep
  rename_i hmarker
  refine ⟨by simpa using hmarker, ?_⟩
  rw [bind_eq_ok] at hstep
  obtain ⟨secret, hsecret, hstep⟩ := hstep
  split at hstep
  · cases hstep
    exact .inl (exists_of_firstWork hsecret)
  refine .inr ⟨all_of_firstWork hsecret, ?_⟩
  rw [bind_eq_ok] at hstep
  obtain ⟨binding, hbinding, hstep⟩ := hstep
  split at hstep <;> cases hstep
  · exact .inl (exists_of_firstWork hbinding)
  · exact .inr ⟨all_of_firstWork hbinding, rfl⟩

/-- The steps for a secret of a scope with this name. -/
inductive SecretStep (path : Path) (name : String) (m : Meaning) : Meaning → Prop
  | vault (name' : String) (hnone : m.vaults.lookup name' = none) :
    SecretStep path name m (m.pushVault name')
  | secret {metadata : SecretMetadata} {secret : Secret}
      (hget : m.files.get path = some (.secret metadata (some secret))) :
    SecretStep path name m (m.pushSecret name (metadata, some secret))
  | record {doc doc' : Plain} (hget : m.files.get (recordPath (scopeOf path)) = some doc)
      (hattach : attach (scopeOf path) name doc = .ok (some doc')) :
    SecretStep path name m (m.put (recordPath (scopeOf path)) doc')

theorem secretStep_of_recordWork (hwork : recordWork (scopeOf path) name m = .ok (some m')) :
    SecretStep path name m m' := by
  unfold recordWork at hwork
  split at hwork
  · cases hwork
  · simp only [bind_eq_ok, getFile, context_eq_ok, pure_eq_ok] at hwork
    obtain ⟨doc, hget, attached, hattach, hwork⟩ := hwork
    obtain ⟨doc', rfl, rfl⟩ := map_eq_some_iff.1 hwork
    exact .record hget hattach

theorem secretStep_of_importWork {secrets : PlainSecrets}
    (hwork : importWork lib path name secrets m = .ok (some m')) : SecretStep path name m m' := by
  rw [importWork, bind_eq_ok] at hwork
  obtain ⟨⟨metadata, secret⟩, hread, hwork⟩ := hwork
  dsimp only at hwork
  split at hwork
  · rw [bind_eq_ok] at hwork
    obtain ⟨_, -, hwork⟩ := hwork
    exact secretStep_of_recordWork hwork
  · rw [bind_eq_ok] at hwork
    obtain ⟨_, -, hwork⟩ := hwork
    cases hwork
    exact .secret (readSecret_eq_ok.1 hread)

theorem secretStep_of_secretWork (hwork : secretWork lib path m = .ok (some m')) :
    isFileIn "secrets" path ∧ ∃ name, scopeName (scopeOf path) = .ok name ∧
      SecretStep path name m m' := by
  unfold secretWork at hwork
  split at hwork
  · rename_i hfile
    refine ⟨hfile, ?_⟩
    rw [bind_eq_ok] at hwork
    obtain ⟨name, hname, hwork⟩ := hwork
    refine ⟨name, hname, ?_⟩
    split at hwork
    · rename_i hglobal
      cases hwork
      exact .vault _ (isNone_iff_eq_none.1 hglobal)
    split at hwork
    · rename_i hnone
      cases hwork
      exact .vault _ hnone
    · exact secretStep_of_importWork hwork
  · cases hwork

/-- What a legacy binding becomes; a retired one is deleted. -/
def Rewritten (resolve : SecretId → Except String (Reference String)) (header : BindingHeader)
    (binding : LegacyBinding) (now : Option Plain) : Prop :=
  ∃ migrated, binding.migrate resolve = .ok migrated ∧
    now = migrated.map fun binding ↦ .binding header (some (.current binding))

theorem bindingWork_cases (hwork : bindingWork path m = .ok (some m')) :
    isFileIn "bindings" path ∧ ∃ header binding,
      m.files.get path = some (.binding header (some (.legacy binding))) ∧
      ((binding.migrate (m.resolve (scopeOf path)) = .ok none ∧ m' = m.delete path) ∨
        ∃ migrated, binding.migrate (m.resolve (scopeOf path)) = .ok (some migrated) ∧
          m' = m.put path (.binding header (some (.current migrated)))) := by
  unfold bindingWork at hwork
  split at hwork
  · rename_i hfile
    refine ⟨hfile, ?_⟩
    simp only [bind_eq_ok, getFile, context_eq_ok] at hwork
    obtain ⟨doc, hget, hwork⟩ := hwork
    split at hwork
    · cases hwork
    · rw [bind_eq_ok] at hwork
      obtain ⟨migrated, hmigrate, hwork⟩ := hwork
      split at hwork <;> cases hwork
      · exact ⟨_, _, hget, .inl ⟨hmigrate, rfl⟩⟩
      · exact ⟨_, _, hget, .inr ⟨_, hmigrate, rfl⟩⟩
    · cases hwork
  · cases hwork

/-- The vaults that a record lists. -/
def Doc.vaults {V S B : Type} : Doc V S B → List V
  | .agent record => record.vaults
  | .conversation record => record.vaults
  | _ => []

/-- Only the deletion of the secrets is left. -/
structure Finished (lib : Libraries) (o m : Meaning) : Prop where
  secrets : ∀ path ∈ m.files.keys, secretWork lib path m = .ok none
  bindings : ∀ path ∈ m.files.keys, bindingWork path m = .ok none
  imported : ∀ path metadata value, isFileIn "secrets" path →
    o.files.get path = some (.secret metadata value) →
    ∃ secret, value = some secret ∧ Imported (scopeOf path) metadata secret m

/-- What is so at each step of the migration of a legacy store. -/
structure Underway (lib : Libraries) (o m : Meaning) : Prop where
  start : o.files.keys.Nodup
  keys : m.files.keys.Nodup
  vaults : ∀ name secrets, m.vaults.lookup name = some secrets → ∀ entry ∈ secrets,
    ∃ path, isFileIn "secrets" path ∧ scopeName (scopeOf path) = .ok name ∧
      o.files.get path = some (.secret entry.1 entry.2)
  secrets : ∀ path metadata value, isFileIn "secrets" path →
    o.files.get path = some (.secret metadata value) →
    m.files.get path = some (.secret metadata value) ∨ Finished lib o m
  no_more : ∀ path metadata value, m.files.get path = some (.secret metadata value) →
    o.files.get path = some (.secret metadata value)
  bindings : ∀ path header version, isFileIn "bindings" path →
    o.files.get path = some (.binding header version) →
    m.files.get path = some (.binding header version) ∨ ∃ binding, version = some (.legacy binding) ∧
      Rewritten (o.resolve (scopeOf path)) header binding (m.files.get path)
  records : ∀ path doc, m.files.get path = some doc → doc.vaults.Nodup
  marker : m.marker = true → Finished lib o m ∧ ∀ path ∈ m.files.keys, ¬ isFileIn "secrets" path

/-- While some secret or binding needs work, nothing is deleted. -/
theorem Underway.secret_of_not_finished (hunderway : Underway lib o m)
    (hnot : ¬ Finished lib o m) {metadata : SecretMetadata} {value : Option Secret}
    (hfile : isFileIn "secrets" path) (hget : o.files.get path = some (.secret metadata value)) :
    m.files.get path = some (.secret metadata value) :=
  (hunderway.secrets path metadata value hfile hget).resolve_right hnot

theorem attach_cases {doc doc' : Plain} (hattach : attach scope name doc = .ok (some doc')) :
    doc'.vaults = doc.vaults ++ [name] ∧ name ∉ doc.vaults ∧
      (∀ metadata value, doc ≠ .secret metadata value ∧ doc' ≠ .secret metadata value) ∧
      ∀ header version, doc ≠ .binding header version ∧ doc' ≠ .binding header version := by
  unfold attach at hattach
  split at hattach
  · split at hattach
    · split at hattach <;> cases hattach
      rename_i hnot
      exact ⟨rfl, hnot, by simp, by simp⟩
    · cases hattach
  · split at hattach
    · cases hattach
    · split at hattach <;> cases hattach
      rename_i hnot
      exact ⟨rfl, hnot, by simp, by simp⟩
  · cases hattach

/-- A step for a secret changes no secret and no binding. -/
structure Grows (m m' : Meaning) : Prop where
  keys : m'.files.keys = m.files.keys
  marker : m'.marker = m.marker
  secret : ∀ path metadata value, m'.files.get path = some (.secret metadata value) ↔
    m.files.get path = some (.secret metadata value)
  binding : ∀ path header version, m'.files.get path = some (.binding header version) ↔
    m.files.get path = some (.binding header version)
  records : (∀ path doc, m.files.get path = some doc → doc.vaults.Nodup) →
    ∀ path doc, m'.files.get path = some doc → doc.vaults.Nodup

theorem grows_of_files (hfiles : m'.files = m.files) (hmarker : m'.marker = m.marker) :
    Grows m m' :=
  ⟨by rw [hfiles], hmarker, fun _ _ _ ↦ by rw [hfiles], fun _ _ _ ↦ by rw [hfiles],
    fun hrecords ↦ by rwa [hfiles]⟩

theorem Grows.rewritten {resolve : SecretId → Except String (Reference String)}
    {header : BindingHeader} {binding : LegacyBinding} (hgrows : Grows m m')
    (hrewritten : Rewritten resolve header binding (m.files.get path)) :
    Rewritten resolve header binding (m'.files.get path) := by
  obtain ⟨migrated, hmigrate, hnow⟩ := hrewritten
  refine ⟨migrated, hmigrate, ?_⟩
  cases migrated with
  | none =>
    have hmissing : path ∉ m'.files.keys := by
      rw [hgrows.keys, ← Files.isSome_get, hnow]
      simp
    simpa [← Files.isSome_get] using hmissing
  | some migrated => exact (hgrows.binding _ _ _).2 hnow

theorem SecretStep.grows (hstep : SecretStep path name m m') : Grows m m' := by
  cases hstep with
  | vault name' => exact grows_of_files rfl rfl
  | secret => exact grows_of_files rfl rfl
  | @record doc doc' hget hattach =>
    obtain ⟨hvaults, hnot, hsecret, hbinding⟩ := attach_cases hattach
    have hself : (m.put (recordPath (scopeOf path)) doc').files.get (recordPath (scopeOf path)) =
        some doc' := Files.get_put_self _ (by rw [hget]; rfl)
    have hother : ∀ other, other ≠ recordPath (scopeOf path) →
        (m.put (recordPath (scopeOf path)) doc').files.get other = m.files.get other :=
      fun other hne ↦ Files.get_put_of_ne _ hne
    refine ⟨Files.keys_put _ _ _, rfl, fun other metadata value ↦ ?_, fun other header version ↦ ?_,
      fun hrecords other doc'' ↦ ?_⟩
    · by_cases heq : other = recordPath (scopeOf path)
      · rw [heq, hself, hget]
        simp [hsecret metadata value]
      · rw [hother other heq]
    · by_cases heq : other = recordPath (scopeOf path)
      · rw [heq, hself, hget]
        simp [hbinding header version]
      · rw [hother other heq]
    · by_cases heq : other = recordPath (scopeOf path)
      · rw [heq, hself, some.injEq]
        rintro rfl
        rw [hvaults]
        simpa using (hrecords _ _ hget).concat hnot
      · rw [hother other heq]
        exact hrecords other doc''

/-- Every entry of a vault is a secret of a scope of the vault. -/
theorem SecretStep.vaults (hunderway : Underway lib o m) (hfile : isFileIn "secrets" path)
    (hname : scopeName (scopeOf path) = .ok name) (hstep : SecretStep path name m m') :
    ∀ name secrets, m'.vaults.lookup name = some secrets → ∀ entry ∈ secrets,
      ∃ path, isFileIn "secrets" path ∧ scopeName (scopeOf path) = .ok name ∧
        o.files.get path = some (.secret entry.1 entry.2) := by
  intro other secrets hlookup entry hentry
  cases hstep with
  | vault name' hnone =>
    rw [Meaning.pushVault, lookup_append] at hlookup
    cases hold : m.vaults.lookup other with
    | some old =>
      rw [hold] at hlookup
      cases hlookup
      exact hunderway.vaults other _ hold entry hentry
    | none =>
      rw [hold, none_or, lookup_cons] at hlookup
      split at hlookup <;> cases hlookup
      cases hentry
  | @secret metadata secret hget =>
    rw [Meaning.pushSecret, lookup_pushSecret, map_eq_some_iff] at hlookup
    obtain ⟨old, hold, heq⟩ := hlookup
    split at heq
    · rename_i hsame
      subst hsame heq
      rcases mem_append.1 hentry with hentry | hentry
      · exact hunderway.vaults _ _ hold entry hentry
      · rw [mem_singleton.1 hentry]
        exact ⟨path, hfile, hname, hunderway.no_more _ _ _ hget⟩
    · subst heq
      exact hunderway.vaults _ _ hold entry hentry
  | record => exact hunderway.vaults other _ hlookup entry hentry

theorem not_finished_of_secretWork (hpath : path ∈ m.files.keys)
    (hwork : secretWork lib path m = .ok (some m')) : ¬ Finished lib o m := by
  intro hfinished
  cases (hfinished.secrets path hpath).symm.trans hwork

theorem not_finished_of_bindingWork (hpath : path ∈ m.files.keys)
    (hwork : bindingWork path m = .ok (some m')) : ¬ Finished lib o m := by
  intro hfinished
  cases (hfinished.bindings path hpath).symm.trans hwork

section
variable (hunderway : Underway lib o m)
include hunderway

theorem Underway.secretStep (hmarker : m.marker = false) (hpath : path ∈ m.files.keys)
    (hwork : secretWork lib path m = .ok (some m')) : Underway lib o m' := by
  have hnot : ¬ Finished lib o m := not_finished_of_secretWork hpath hwork
  obtain ⟨hfile, name, hname, hstep⟩ := secretStep_of_secretWork hwork
  have hgrows : Grows m m' := hstep.grows
  refine ⟨hunderway.start, hgrows.keys ▸ hunderway.keys, hstep.vaults hunderway hfile hname, ?_, ?_, ?_,
    hgrows.records hunderway.records, fun htrue ↦ ?_⟩
  · intro other metadata value hother hget
    exact .inl ((hgrows.secret _ _ _).2 (hunderway.secret_of_not_finished hnot hother hget))
  · intro other metadata value hget
    exact hunderway.no_more _ _ _ ((hgrows.secret _ _ _).1 hget)
  · intro other header version hother hget
    rcases hunderway.bindings other header version hother hget with
      hsame | ⟨binding, hversion, hrewritten⟩
    · exact .inl ((hgrows.binding _ _ _).2 hsame)
    · exact .inr ⟨binding, hversion, hgrows.rewritten hrewritten⟩
  · rw [hgrows.marker, hmarker] at htrue
    cases htrue

theorem Underway.resolve_eq (hnot : ¬ Finished lib o m) : m.resolve = o.resolve := by
  refine resolve_congr (hasSecret_congr hunderway.start hunderway.keys fun path hfile ↦ ?_)
  have hsame : ∀ metadata value, m.files.get path = some (.secret metadata value) ↔
      o.files.get path = some (.secret metadata value) := fun _ _ ↦
    ⟨hunderway.no_more _ _ _, hunderway.secret_of_not_finished hnot hfile⟩
  rw [Meaning.secretId, Meaning.secretId]
  split
  · rename_i metadata value hget
    rw [(hsame metadata value).1 hget]
  · rename_i hnone
    split
    · rename_i metadata value hget
      exact absurd ((hsame metadata value).2 hget) (hnone metadata value)
    · rfl

theorem Underway.rewrite (hmarker : m.marker = false) (hnot : ¬ Finished lib o m)
    (hfile : isFileIn "bindings" path) {header : BindingHeader} {binding : LegacyBinding}
    {migrated : Option (Binding String)}
    (hget : m.files.get path = some (.binding header (some (.legacy binding))))
    (hmigrate : binding.migrate (m.resolve (scopeOf path)) = .ok migrated)
    (hkeys : m'.files.keys.Nodup) (hvaults : m'.vaults = m.vaults) (hmarker' : m'.marker = m.marker)
    (hother : ∀ other, other ≠ path → m'.files.get other = m.files.get other)
    (hnow : m'.files.get path =
      migrated.map fun binding ↦ .binding header (some (.current binding))) :
    Underway lib o m' := by
  refine ⟨hunderway.start, hkeys, hvaults ▸ hunderway.vaults, ?_, ?_, ?_, ?_, fun htrue ↦ ?_⟩
  · intro secretPath metadata value hsecret hsecretGet
    have hne : secretPath ≠ path := fun heq ↦ not_secret_of_binding hfile (heq ▸ hsecret)
    rw [hother secretPath hne]
    exact .inl (hunderway.secret_of_not_finished hnot hsecret hsecretGet)
  · intro secretPath metadata value hsecretGet
    by_cases heq : secretPath = path
    · rw [heq, hnow] at hsecretGet
      cases migrated <;> cases hsecretGet
    · rw [hother secretPath heq] at hsecretGet
      exact hunderway.no_more _ _ _ hsecretGet
  · intro other header' version hotherFile hotherGet
    by_cases heq : other = path
    · subst heq
      rcases hunderway.bindings _ _ _ hotherFile hotherGet with hsame | ⟨binding', -, earlier, -, hearlier⟩
      · cases hget.symm.trans hsame
        rw [hunderway.resolve_eq hnot] at hmigrate
        exact .inr ⟨binding, rfl, migrated, hmigrate, hnow⟩
      · rw [hget] at hearlier
        cases earlier <;> cases hearlier
    · rw [hother other heq]
      exact hunderway.bindings _ _ _ hotherFile hotherGet
  · intro other doc hotherGet
    by_cases heq : other = path
    · rw [heq, hnow] at hotherGet
      obtain ⟨_, -, rfl⟩ := map_eq_some_iff.1 hotherGet
      exact nodup_nil
    · rw [hother other heq] at hotherGet
      exact hunderway.records _ _ hotherGet
  · rw [hmarker', hmarker] at htrue
    cases htrue

theorem Underway.bindingStep (hmarker : m.marker = false) (hpath : path ∈ m.files.keys)
    (hwork : bindingWork path m = .ok (some m')) : Underway lib o m' := by
  have hnot : ¬ Finished lib o m := not_finished_of_bindingWork hpath hwork
  obtain ⟨hfile, header, binding, hget, ⟨hmigrate, rfl⟩ | ⟨migrated, hmigrate, rfl⟩⟩ :=
    bindingWork_cases hwork
  · refine hunderway.rewrite hmarker hnot hfile hget hmigrate ?_ rfl rfl
      (fun other hne ↦ Files.get_delete_of_ne _ hne) ?_
    · rw [Meaning.delete, Files.keys_delete]
      exact hunderway.keys.filter _
    · have hmissing : path ∉ (m.delete path).files.keys := by
        rw [Meaning.delete, Files.keys_delete]
        simp
      simpa [← Files.isSome_get] using hmissing
  · refine hunderway.rewrite hmarker hnot hfile hget hmigrate ?_ rfl rfl
      (fun other hne ↦ Files.get_put_of_ne _ hne) (Files.get_put_self _ (by rw [hget]; rfl))
    rw [Meaning.put, Files.keys_put]
    exact hunderway.keys

theorem Underway.finished (hsecrets : ∀ path ∈ m.files.keys, secretWork lib path m = .ok none)
    (hbindings : ∀ path ∈ m.files.keys, bindingWork path m = .ok none) : Finished lib o m := by
  refine ⟨hsecrets, hbindings, fun path metadata value hfile hget ↦ ?_⟩
  rcases hunderway.secrets path metadata value hfile hget with hpresent | hfinished
  · have hkey : path ∈ m.files.keys := by
      rw [← Files.isSome_get, hpresent]
      rfl
    obtain ⟨metadata', secret, hget', himported⟩ := (secretWork_eq_none hfile).1 (hsecrets path hkey)
    cases hpresent.symm.trans hget'
    exact ⟨secret, rfl, himported⟩
  · exact hfinished.imported path metadata value hfile hget

end

theorem Finished.keeps (hfinished : Finished lib o m)
    (hkeys : ∀ other ∈ m'.files.keys, other ∈ m.files.keys)
    (hkeeps : ∀ other ∈ m'.files.keys, Keeps other m m') (hnone : ∃ other, Keeps other m m')
    (hget : ∀ other ∈ m'.files.keys, m'.files.get other = m.files.get other) :
    Finished lib o m' := by
  refine ⟨fun other hother ↦ (hkeeps other hother).secretWork
    (hfinished.secrets other (hkeys other hother)), fun other hother ↦ ?_, ?_⟩
  · have hwork := hfinished.bindings other (hkeys other hother)
    rw [bindingWork_eq_none] at hwork ⊢
    rwa [hget other hother]
  · intro path metadata value hfile hstart
    obtain ⟨secret, hvalue, himported⟩ := hfinished.imported path metadata value hfile hstart
    obtain ⟨other, hother⟩ := hnone
    exact ⟨secret, hvalue, himported.keeps hother⟩

section
variable (hunderway : Underway lib o m)
include hunderway

theorem Underway.delete (hmarker : m.marker = false)
    (hfinished : Finished lib o m) (hpath : path ∈ m.files.keys) (hfile : isFileIn "secrets" path) :
    Underway lib o (m.delete path) := by
  obtain ⟨metadata, secret, hget, -⟩ := (secretWork_eq_none hfile).1 (hfinished.secrets path hpath)
  have hother : ∀ other, other ≠ path → (m.delete path).files.get other = m.files.get other :=
    fun other hne ↦ Files.get_delete_of_ne _ hne
  have hmem : ∀ other ∈ (m.delete path).files.keys, other ∈ m.files.keys ∧ other ≠ path := by
    intro other hother
    rw [Meaning.delete, Files.keys_delete, mem_filter, decide_eq_true_eq] at hother
    exact hother
  have hgone : (m.delete path).files.get path = none := by
    have hmissing : path ∉ (m.delete path).files.keys := fun hkey ↦ (hmem path hkey).2 rfl
    simpa [← Files.isSome_get] using hmissing
  have hkeeps : ∀ other, other ≠ path → Keeps other m (m.delete path) := fun other hne ↦
    .of_files rfl hget hother (.inl hne) (by simp [attach])
  have hfinished' : Finished lib o (m.delete path) := by
    refine hfinished.keeps (fun other hkey ↦ (hmem other hkey).1)
      (fun other hkey ↦ hkeeps other (hmem other hkey).2) ⟨[], hkeeps [] ?_⟩
      fun other hkey ↦ hother other (hmem other hkey).2
    rintro rfl
    cases hfile
  have hback : ∀ other doc, (m.delete path).files.get other = some doc →
      m.files.get other = some doc := by
    intro other doc hdoc
    by_cases heq : other = path
    · rw [heq, hgone] at hdoc
      cases hdoc
    · rwa [hother other heq] at hdoc
  refine ⟨hunderway.start, ?_, hunderway.vaults, fun _ _ _ _ _ ↦ .inr hfinished', ?_, ?_, ?_,
    fun htrue ↦ ?_⟩
  · rw [Meaning.delete, Files.keys_delete]
    exact hunderway.keys.filter _
  · exact fun other _ _ hdoc ↦ hunderway.no_more _ _ _ (hback other _ hdoc)
  · intro other header version hotherFile hotherGet
    have hne : other ≠ path := fun heq ↦ not_secret_of_binding hotherFile (heq ▸ hfile)
    rw [hother other hne]
    exact hunderway.bindings _ _ _ hotherFile hotherGet
  · exact fun other _ hdoc ↦ hunderway.records _ _ (hback other _ hdoc)
  · rw [Meaning.delete, hmarker] at htrue
    cases htrue

theorem Underway.mark (hfinished : Finished lib o m)
    (hnone : ∀ path ∈ m.files.keys, ¬ isFileIn "secrets" path) :
    Underway lib o { m with marker := true } := by
  have hkeeps : ∀ other, Keeps other m { m with marker := true } := fun other ↦
    ⟨fun _ secrets hsecrets ↦ ⟨secrets, hsecrets, fun _ _ ↦ id⟩, fun _ _ ↦ id, fun _ _ ↦ id⟩
  have hfinished' : Finished lib o { m with marker := true } :=
    hfinished.keeps (fun _ ↦ id) (fun other _ ↦ hkeeps other) ⟨[], hkeeps []⟩ fun _ _ ↦ rfl
  exact ⟨hunderway.start, hunderway.keys, hunderway.vaults, fun _ _ _ _ _ ↦ .inr hfinished',
    hunderway.no_more, hunderway.bindings, hunderway.records, fun _ ↦ ⟨hfinished', hnone⟩⟩

theorem Underway.step (hstep : nextStep lib m = .ok (some m')) : Underway lib o m' := by
  obtain ⟨hmarker, ⟨path, hpath, hwork⟩ | ⟨hsecrets, ⟨path, hpath, hwork⟩ | ⟨hbindings, rfl⟩⟩⟩ :=
    nextStep_cases hstep
  · exact hunderway.secretStep hmarker hpath hwork
  · exact hunderway.bindingStep hmarker hpath hwork
  · have hfinished := hunderway.finished hsecrets hbindings
    unfold lastWork
    split
    · rename_i path hfind
      exact hunderway.delete hmarker hfinished (mem_of_find?_eq_some hfind) (find?_some hfind)
    · rename_i hfind
      exact hunderway.mark hfinished (find?_eq_none.1 hfind)

theorem Underway.reaches (hreaches : Durable.Reaches (nextStep lib) m m') : Underway lib o m' := by
  induction hreaches with
  | refl => exact hunderway
  | tail _ hstep ih => exact ih.step hstep

end

end Exo.Migration
