import Exo.Migration.Migrate

/-!
# What a migration is for

The meaning of a store has the vaults by their names and the secrets in the clear.  On meanings the
migration is a step function: it looks for the first file that is not as it should be and mends it.
What the next step is depends on the store alone, and a step undoes none of the earlier ones.
-/

namespace Exo.Migration

open Library Egress Vault List

namespace Files

variable {D E : Type} (files : Files D) {path path' : Path} {doc : D}

@[simp]
theorem keys_put (path : Path) (doc : D) : keys (files.put path doc) = files.keys := by
  unfold keys put
  rw [map_map]
  apply map_congr_left
  intro file _
  by_cases hfile : file.1 = path
  · simp [hfile]
  · simp [hfile]

@[simp]
theorem keys_delete (path : Path) : keys (files.delete path) = files.keys.filter (· ≠ path) := by
  unfold keys delete
  rw [filter_map]
  rfl

theorem get_put_of_ne (hne : path' ≠ path) : get (files.put path doc) path' = files.get path' := by
  unfold get put
  induction files with
  | nil => rfl
  | cons file files ih =>
    obtain ⟨key, content⟩ := file
    by_cases hkey : key = path
    · subst hkey
      have hother : (path' == key) = false := beq_eq_false_iff_ne.2 hne
      simp only [map_cons, if_true, lookup_cons, hother, ih]
    · simp only [map_cons, if_neg hkey, lookup_cons, ih]

theorem get_put_self (hget : (files.get path).isSome) : get (files.put path doc) path = some doc := by
  unfold get at hget ⊢
  unfold put
  induction files with
  | nil => simp at hget
  | cons file files ih =>
    obtain ⟨key, content⟩ := file
    by_cases hkey : key = path
    · simp [hkey]
    · have hother : (path == key) = false := beq_eq_false_iff_ne.2 fun heq ↦ hkey heq.symm
      simp only [lookup_cons, hother] at hget
      simp only [map_cons, if_neg hkey, lookup_cons, hother]
      exact ih hget

theorem get_delete_of_ne (hne : path' ≠ path) : get (files.delete path) path' = files.get path' := by
  unfold get delete
  induction files with
  | nil => rfl
  | cons file files ih =>
    obtain ⟨key, content⟩ := file
    by_cases hkey : key = path
    · subst hkey
      have hother : (path' == key) = false := beq_eq_false_iff_ne.2 hne
      rw [filter_cons_of_neg (by simp), lookup_cons, hother]
      exact ih
    · rw [filter_cons_of_pos (by simpa using hkey)]
      simp only [lookup_cons, ih]

theorem isSome_get : (files.get path).isSome ↔ path ∈ files.keys := by
  unfold get keys
  induction files with
  | nil => simp
  | cons file files ih =>
    obtain ⟨key, content⟩ := file
    by_cases hkey : path = key
    · simp [hkey]
    · have hother : (path == key) = false := beq_eq_false_iff_ne.2 hkey
      simp only [lookup_cons, hother, map_cons, mem_cons, hkey, false_or, ih]

section
variable (f : D → E)

/-- Change the documents. -/
def mapDocs (files : Files D) : Files E := files.map fun file ↦ (file.1, f file.2)

@[simp]
theorem keys_mapDocs : keys (files.mapDocs f) = files.keys := by
  simp [keys, mapDocs]

@[simp]
theorem get_mapDocs (path : Path) : get (files.mapDocs f) path = (files.get path).map f := by
  unfold get mapDocs
  induction files with
  | nil => rfl
  | cons file files ih =>
    obtain ⟨key, content⟩ := file
    simp only [map_cons, lookup_cons, ih]
    split <;> rfl

theorem mapDocs_put (path : Path) (doc : D) :
    (files.put path doc).mapDocs f = (files.mapDocs f).put path (f doc) := by
  unfold mapDocs put
  rw [map_map, map_map]
  apply map_congr_left
  intro file _
  by_cases hfile : file.1 = path <;> simp [hfile]

theorem mapDocs_delete (path : Path) :
    (files.delete path).mapDocs f = (files.mapDocs f).delete path := by
  unfold mapDocs delete
  rw [filter_map]
  rfl

end

end Files

/-- The documents, with vaults by name, secrets in the clear, and bindings decoded. -/
abbrev Plain := Doc String (Option Secret) (Option (StoredBindingVersion String))

abbrev PlainSecrets := List (SecretMetadata × Option Secret)

structure Meaning where
  vaults : List (String × PlainSecrets)
  files : Files Plain
  marker : Bool

namespace Meaning

variable (m : Meaning)

def pushVault (name : String) : Meaning := { m with vaults := m.vaults ++ [(name, [])] }

def pushSecret (name : String) (secret : SecretMetadata × Option Secret) : Meaning :=
  { m with vaults := m.vaults.map fun vault ↦
      if vault.1 = name then (name, vault.2 ++ [secret]) else vault }

def put (path : Path) (doc : Plain) : Meaning := { m with files := m.files.put path doc }

def delete (path : Path) : Meaning := { m with files := m.files.delete path }

def readSecret (path : Path) : Except String (SecretMetadata × Secret) := do
  match ← getFile m.files path with
  | .secret metadata secret => return (metadata, ← context secret "secret cannot be decrypted")
  | _ => .error "invalid secret"

/-- A scope has a legacy secret with this id. -/
def hasSecret (scope : Path) (id : SecretId) : Bool :=
  m.files.any fun (path, doc) ↦ isFileIn "secrets" path && scopeOf path == scope &&
    match doc with
    | .secret metadata _ => metadata.id == id
    | _ => false

/-- The innermost scope that has the secret. -/
def resolve (scope : Path) (id : SecretId) : Except String (Reference String) := do
  let scope ← context ((scopesOf scope).find? fun scope ↦ m.hasSecret scope id)
    ("legacy binding references missing secret " ++ toString id)
  return ⟨← scopeName scope, id⟩

end Meaning

variable (lib : Libraries)

/-- The record of a scope lists its vault. -/
def recordWork (scope : Path) (name : String) (m : Meaning) : Except String (Option Meaning) :=
  if scope = [] then return none
  else do
    let attached ← attach scope name (← getFile m.files (recordPath scope))
    return attached.map (m.put (recordPath scope))

/-- The secret is in its vault. -/
def importWork (path : Path) (name : String) (secrets : PlainSecrets) (m : Meaning) :
    Except String (Option Meaning) := do
  let (metadata, secret) ← m.readSecret path
  match secrets.find? (·.1.id = metadata.id) with
  | some stored => do
    ensure (stored == (metadata, some secret))
      "migrated secret conflicts with an existing vault entry"
    recordWork (scopeOf path) name m
  | none => do
    validateSecret lib secret metadata.policy
    return some (m.pushSecret name (metadata, some secret))

def secretWork (path : Path) (m : Meaning) : Except String (Option Meaning) :=
  if isFileIn "secrets" path then do
    let name ← scopeName (scopeOf path)
    if (m.vaults.lookup "global").isNone then return some (m.pushVault "global")
    else match m.vaults.lookup name with
      | none => return some (m.pushVault name)
      | some secrets => importWork lib path name secrets m
  else return none

def bindingWork (path : Path) (m : Meaning) : Except String (Option Meaning) :=
  if isFileIn "bindings" path then do
    match ← getFile m.files path with
    | .binding _ (some (.current _)) => return none
    | .binding header (some (.legacy binding)) => do
      match ← binding.migrate (m.resolve (scopeOf path)) with
      | none => return some (m.delete path)
      | some binding => return some (m.put path (.binding header (some (.current binding))))
    | _ => .error "invalid binding"
  else return none

/-- The first of the files that needs work. -/
def firstWork (work : Path → Meaning → Except String (Option Meaning)) (m : Meaning) :
    List Path → Except String (Option Meaning)
  | [] => return none
  | path :: paths => do
    match ← work path m with
    | some m' => return some m'
    | none => firstWork work m paths

/-- When all secrets and bindings are as they should be. -/
def lastWork (m : Meaning) : Meaning :=
  match m.files.keys.find? (isFileIn "secrets") with
  | some path => m.delete path
  | none => { m with marker := true }

def nextStep (m : Meaning) : Except String (Option Meaning) :=
  if m.marker then return none
  else do
    match ← firstWork (secretWork lib) m m.files.keys with
    | some m' => return some m'
    | none => do
      match ← firstWork bindingWork m m.files.keys with
      | some m' => return some m'
      | none => return some (lastWork m)

variable {lib} {m m' : Meaning} {path : Path} {before after : List Path}
  {work : Path → Meaning → Except String (Option Meaning)}

theorem firstWork_append (hbefore : ∀ other ∈ before, work other m = .ok none) :
    firstWork work m (before ++ after) = firstWork work m after := by
  induction before with
  | nil => rfl
  | cons other before ih =>
    obtain ⟨hother, hrest⟩ := forall_mem_cons.1 hbefore
    rw [cons_append, firstWork, hother]
    exact ih hrest

theorem firstWork_eq_none (hall : ∀ other ∈ before, work other m = .ok none) :
    firstWork work m before = .ok none := by
  have happend : firstWork work m (before ++ []) = firstWork work m [] := firstWork_append hall
  rwa [append_nil] at happend

variable {result : Except String (Option Meaning)}

/-- What is done up to some file, and the work at that file. -/
theorem firstWork_eq (hbefore : ∀ other ∈ before, work other m = .ok none)
    (hpath : work path m = result) (hresult : result ≠ .ok none) :
    firstWork work m (before ++ path :: after) = result := by
  rw [firstWork_append hbefore, firstWork, hpath]
  cases result with
  | error message => rfl
  | ok next =>
    cases next with
    | none => exact absurd rfl hresult
    | some next => rfl

section
variable (hmarker : m.marker = false) (hkeys : m.files.keys = before ++ path :: after)
include hmarker hkeys

theorem nextStep_of_secretWork (hbefore : ∀ other ∈ before, secretWork lib other m = .ok none)
    (hpath : secretWork lib path m = result) (hresult : result ≠ .ok none) :
    nextStep lib m = result := by
  rw [nextStep, hkeys, firstWork_eq hbefore hpath hresult, hmarker]
  cases result with
  | error message => rfl
  | ok next =>
    cases next with
    | none => exact absurd rfl hresult
    | some next => rfl

theorem nextStep_of_bindingWork
    (hsecrets : ∀ other ∈ m.files.keys, secretWork lib other m = .ok none)
    (hbefore : ∀ other ∈ before, bindingWork other m = .ok none)
    (hpath : bindingWork path m = result) (hresult : result ≠ .ok none) :
    nextStep lib m = result := by
  have hbindings : firstWork bindingWork m (before ++ path :: after) = result :=
    firstWork_eq hbefore hpath hresult
  rw [← hkeys] at hbindings
  rw [nextStep, firstWork_eq_none hsecrets, hmarker]
  cases result with
  | error message => simp [hbindings, bind, Except.bind]
  | ok next =>
    cases next with
    | none => exact absurd rfl hresult
    | some next => simp [hbindings, bind, Except.bind, pure, Except.pure]

end

theorem nextStep_of_lastWork (hmarker : m.marker = false)
    (hsecrets : ∀ other ∈ m.files.keys, secretWork lib other m = .ok none)
    (hbindings : ∀ other ∈ m.files.keys, bindingWork other m = .ok none) :
    nextStep lib m = .ok (some (lastWork m)) := by
  rw [nextStep, firstWork_eq_none hsecrets, firstWork_eq_none hbindings, hmarker]
  rfl

end Exo.Migration
