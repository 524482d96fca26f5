import Exo.Migration.Meaning

/-!
# Steps keep what was done

A secret whose work is done stays so under every later step, until its file is deleted.  From that the
state of the migration at any step is known: which secrets are in which vaults, which bindings were
rewritten, and what has been deleted.
-/

namespace Exo.Migration

open Library Egress Vault

variable {lib : Libraries} {m m' : Meaning} {path : Path} {scope : Path} {name : String}

/-- A scope that is not global has a record, which lists the vault. -/
def Attached (scope : Path) (name : String) (m : Meaning) : Prop :=
  scope = [] ∨ ∃ doc, m.files.get (recordPath scope) = some doc ∧ attach scope name doc = .ok none

/-- The secret is in its vault, and the record of its scope lists the vault. -/
structure Imported (scope : Path) (metadata : SecretMetadata) (secret : Secret) (m : Meaning) :
    Prop where
  global : (m.vaults.lookup "global").isSome
  vault : ∃ name secrets, scopeName scope = .ok name ∧ m.vaults.lookup name = some secrets ∧
    secrets.find? (·.1.id = metadata.id) = some (metadata, some secret) ∧ Attached scope name m

theorem recordWork_eq_none : recordWork scope name m = .ok none ↔ Attached scope name m := by
  unfold recordWork Attached
  split
  · rename_i hscope
    simp [hscope, pure, Except.pure]
  · rename_i hscope
    simp only [bind_eq_ok, pure_eq_ok, Option.map_eq_none_iff, getFile, context_eq_ok, hscope,
      false_or]
    constructor
    · rintro ⟨doc, hdoc, _, hattach, rfl⟩
      exact ⟨doc, hdoc, hattach⟩
    · rintro ⟨doc, hdoc, hattach⟩
      exact ⟨doc, hdoc, none, hattach, rfl⟩

variable {metadata : SecretMetadata} {secret : Secret} {doc doc' : Plain}

theorem readSecret_eq_ok : m.readSecret path = .ok (metadata, secret) ↔
      m.files.get path = some (.secret metadata (some secret)) := by
  simp only [Meaning.readSecret, bind_eq_ok, getFile, context_eq_ok]
  constructor
  · rintro ⟨doc, hdoc, hread⟩
    split at hread
    · simp only [bind_eq_ok, context_eq_ok, pure_eq_ok] at hread
      obtain ⟨_, rfl, heq⟩ := hread
      cases heq
      exact hdoc
    · cases hread
  · intro hget
    exact ⟨_, hget, rfl⟩

theorem secretWork_eq_none (hpath : isFileIn "secrets" path) :
    secretWork lib path m = .ok none ↔ ∃ metadata secret,
      m.files.get path = some (.secret metadata (some secret)) ∧
        Imported (scopeOf path) metadata secret m := by
  rw [secretWork, if_pos hpath]
  constructor
  · intro hwork
    rw [bind_eq_ok] at hwork
    obtain ⟨name, hname, hwork⟩ := hwork
    split at hwork
    · cases hwork
    rename_i hglobal
    split at hwork
    · cases hwork
    rename_i secrets hsecrets
    rw [importWork, bind_eq_ok] at hwork
    obtain ⟨⟨metadata, secret⟩, hread, hwork⟩ := hwork
    dsimp only at hwork
    split at hwork
    · rename_i stored hstored
      simp only [bind_eq_ok, ensure_eq_ok, beq_iff_eq] at hwork
      obtain ⟨-, rfl, hrecord⟩ := hwork
      refine ⟨metadata, secret, readSecret_eq_ok.1 hread, ?_, name, secrets, hname, hsecrets,
        hstored, recordWork_eq_none.1 hrecord⟩
      simpa [Option.isSome_iff_ne_none] using hglobal
    · rw [bind_eq_ok] at hwork
      obtain ⟨_, -, hwork⟩ := hwork
      cases hwork
  · rintro ⟨metadata, secret, hget, hglobal, name, secrets, hname, hsecrets, hstored, hattached⟩
    have hglobal : (m.vaults.lookup "global").isNone = false := by
      rw [← Option.not_isSome, hglobal]
      rfl
    simp only [hname, hglobal, hsecrets, importWork, readSecret_eq_ok.2 hget, hstored,
      bind, Except.bind, ensure]
    simpa using recordWork_eq_none.2 hattached

/-- What was done for the secret at a path stays done. -/
structure Keeps (path : Path) (m m' : Meaning) : Prop where
  vaults : ∀ name secrets, m.vaults.lookup name = some secrets →
    ∃ secrets', m'.vaults.lookup name = some secrets' ∧ ∀ id stored,
      secrets.find? (·.1.id = id) = some stored → secrets'.find? (·.1.id = id) = some stored
  secret : ∀ metadata secret, m.files.get path = some (.secret metadata secret) →
    m'.files.get path = some (.secret metadata secret)
  records : ∀ scope name, Attached scope name m → Attached scope name m'

theorem Imported.keeps (himported : Imported scope metadata secret m) (hkeeps : Keeps path m m') :
    Imported scope metadata secret m' := by
  obtain ⟨hglobal, name, secrets, hname, hsecrets, hstored, hattached⟩ := himported
  obtain ⟨secrets', hsecrets', hfind⟩ := hkeeps.vaults name secrets hsecrets
  obtain ⟨globals, hglobals⟩ := Option.isSome_iff_exists.1 hglobal
  obtain ⟨globals', hglobals', -⟩ := hkeeps.vaults _ _ hglobals
  exact ⟨by rw [hglobals']; rfl, name, secrets', hname, hsecrets', hfind _ _ hstored,
    hkeeps.records scope name hattached⟩

theorem Keeps.secretWork (hkeeps : Keeps path m m') (hwork : secretWork lib path m = .ok none) :
    secretWork lib path m' = .ok none := by
  by_cases hpath : isFileIn "secrets" path
  · rw [secretWork_eq_none hpath] at hwork ⊢
    obtain ⟨metadata, secret, hget, himported⟩ := hwork
    exact ⟨metadata, secret, hkeeps.secret _ _ hget, himported.keeps hkeeps⟩
  · rw [Migration.secretWork, if_neg hpath]
    rfl

theorem Keeps.pushVault : Keeps path m (m.pushVault name) where
  vaults := by
    intro other secrets hsecrets
    refine ⟨secrets, ?_, fun _ _ ↦ id⟩
    rw [Meaning.pushVault, List.lookup_append, hsecrets]
    rfl
  secret := fun _ _ ↦ id
  records := fun _ _ ↦ id

theorem lookup_pushSecret (vaults : List (String × PlainSecrets)) (other : String)
    (secret : SecretMetadata × Option Secret) :
    (vaults.map fun vault ↦ if vault.1 = name then (name, vault.2 ++ [secret]) else vault).lookup
        other =
      (vaults.lookup other).map fun secrets ↦
        if other = name then secrets ++ [secret] else secrets := by
  induction vaults with
  | nil => rfl
  | cons vault vaults ih =>
    obtain ⟨key, secrets⟩ := vault
    by_cases hother : other = key
    · subst hother
      by_cases hname : other = name
      · subst hname
        simp
      · simp [hname]
    · have hfalse : (other == key) = false := beq_eq_false_iff_ne.2 hother
      by_cases hkey : key = name
      · subst hkey
        simpa [hfalse, List.lookup_cons] using ih
      · simpa [hfalse, hkey, List.lookup_cons] using ih

theorem Keeps.pushSecret (secret : SecretMetadata × Option Secret) :
    Keeps path m (m.pushSecret name secret) where
  vaults := by
    intro other secrets hsecrets
    rw [Meaning.pushSecret, lookup_pushSecret, hsecrets]
    refine ⟨_, rfl, fun id stored hfind ↦ ?_⟩
    split
    · rw [List.find?_append, hfind]
      rfl
    · exact hfind
  secret := fun _ _ ↦ id
  records := fun _ _ ↦ id

/-- A step that changes one file, which is neither the secret nor a record. -/
theorem Keeps.of_files {changed : Path} (hvaults : m'.vaults = m.vaults)
    (hget : m.files.get changed = some doc)
    (hother : ∀ other, other ≠ changed → m'.files.get other = m.files.get other)
    (hsecret : path ≠ changed ∨ ∀ metadata secret, doc ≠ .secret metadata secret)
    (hrecord : ∀ scope name, attach scope name doc ≠ .ok none) : Keeps path m m' where
  vaults := by
    intro name secrets hsecrets
    rw [hvaults]
    exact ⟨secrets, hsecrets, fun _ _ ↦ id⟩
  secret := by
    intro metadata secret hpath
    by_cases heq : path = changed
    · subst heq
      cases hget.symm.trans hpath
      exact absurd rfl ((hsecret.resolve_left fun hne ↦ hne rfl) metadata secret)
    · rwa [hother path heq]
  records := by
    rintro scope name (hscope | ⟨record, hrecordGet, hattach⟩)
    · exact .inl hscope
    · refine .inr ⟨record, ?_, hattach⟩
      by_cases heq : recordPath scope = changed
      · subst heq
        cases hget.symm.trans hrecordGet
        exact absurd hattach (hrecord scope name)
      · rwa [hother _ heq]

/-- The record with the vault lists it, and all that it listed before. -/
theorem attach_attached (hattach : attach scope name doc = .ok (some doc')) (other : String)
    (hother : other = name ∨ attach scope other doc = .ok none) :
    attach scope other doc' = .ok none := by
  unfold attach at hattach hother ⊢
  split at hattach
  · split at hattach
    · rename_i hlength
      split at hattach <;> cases hattach
      simp_all
      grind
    · cases hattach
  · split at hattach
    · cases hattach
    · rename_i hlength
      split at hattach <;> cases hattach
      simp_all
      grind
  · cases hattach

theorem Keeps.putRecord (hget : m.files.get (recordPath scope) = some doc)
    (hattach : attach scope name doc = .ok (some doc')) :
    Keeps path m (m.put (recordPath scope) doc') where
  vaults := fun _ secrets hsecrets ↦ ⟨secrets, hsecrets, fun _ _ ↦ id⟩
  secret := by
    intro metadata secret hpath
    by_cases heq : path = recordPath scope
    · subst heq
      cases hget.symm.trans hpath
      cases hattach
    · rwa [Meaning.put, Files.get_put_of_ne _ heq]
  records := by
    rintro scope' name' (hscope | ⟨record, hrecord, hnone⟩)
    · exact .inl hscope
    · by_cases heq : recordPath scope' = recordPath scope
      · obtain rfl := List.append_cancel_right heq
        cases hget.symm.trans hrecord
        refine .inr ⟨doc', Files.get_put_self _ (by rw [hget]; rfl), ?_⟩
        exact attach_attached hattach name' (.inr hnone)
      · exact .inr ⟨record, by rwa [Meaning.put, Files.get_put_of_ne _ heq], hnone⟩

end Exo.Migration
