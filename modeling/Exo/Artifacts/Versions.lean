import Mathlib.Data.Nat.Digits.Defs
import Exo.Library.System
import Exo.Storage.ObjectStore

/-!
# Artifact versions

An artifact version is two objects: its metadata under `<version>.json` and its contents under
`<version>.bin`, both below the directory of the artifact's id.  Versions are allocated from a
listing of the metadata.  The metadata is put first, then the contents; conversations and turns
then append an `ArtifactWritten` event to their journal, agents have none.  Any of the three puts
may fail, which fails the call.

`writes` records every call that put its metadata and is read by no operation.
-/

namespace Exo.Artifacts

open Storage Library

/-- `ArtifactVersion`. -/
structure ArtifactVersion (Id : Type) where
  artifactId : Id
  path : String
  version : ℕ
  createdAt : ℕ
  sizeBytes : ℕ
  deriving DecidableEq

/-- The bytes of an artifact. -/
abbrev Bytes := List UInt8

/-- `Artifact`. -/
structure Artifact (Id : Type) where
  version : ArtifactVersion Id
  contents : Bytes

/-- The objects of an artifacts directory.  Old stores hold the contents inside the metadata. -/
inductive ArtifactObject (Id : Type) where
  | metadata (version : ArtifactVersion Id)
  | legacy (artifact : Artifact Id)
  | bytes (contents : Bytes)

namespace ArtifactObject

variable {Id : Type}

/-- Decode as `StoredArtifactMetadata`; unknown fields are ignored. -/
def asMetadata : ArtifactObject Id → Option (ArtifactVersion Id)
  | .metadata version => some version
  | .legacy artifact => some artifact.version
  | .bytes _ => none

/-- Decode as `Artifact`, whose contents must be there. -/
def asArtifact : ArtifactObject Id → Option (Artifact Id)
  | .legacy artifact => some artifact
  | _ => none

/-- The raw bytes of a contents object. -/
def asBytes : ArtifactObject Id → Option Bytes
  | .bytes contents => some contents
  | _ => none

end ArtifactObject

/-- `WriteArtifactRequest`. -/
structure WriteArtifactRequest where
  path : String
  contents : Bytes

/-- `ReadArtifactRequest`. -/
structure ReadArtifactRequest (Id : Type) where
  artifactId : Id
  version : Option ℕ

/-- What the artifact calls can fail with. -/
inductive ArtifactError where
  | storage (error : StorageError)
  | missingArtifactContents (key : Key)
  | journalAppend

/-- The objects below an artifacts directory. -/
abbrev ArtifactStore (Id : Type) := ObjectStore (ArtifactObject Id)

section Keys
variable {Id : Type} (ids : IdText Id) (artifactsDir : Key)

section
variable (artifactId : Id)

/-- The key of one of a version's two objects. -/
def versionPath (version : ℕ) (extension : List Char) : Key :=
  (artifactsDir.join (ids.text artifactId)).join (Nat.toDigits 10 version ++ '.' :: extension)

/-- `<version>.json`. -/
def metadataPath (version : ℕ) : Key :=
  versionPath ids artifactsDir artifactId version "json".toList

/-- `<version>.bin`. -/
def contentsPath (version : ℕ) : Key :=
  versionPath ids artifactsDir artifactId version "bin".toList

end

variable {ids artifactsDir}

theorem not_mem_toDigits {c : Char} (hc : c.isDigit = false) (version : ℕ) :
    c ∉ Nat.toDigits 10 version := by
  intro hmem
  have hdigit := Nat.isDigit_of_mem_toDigits (by decide) (by decide) hmem
  rw [hc] at hdigit
  cases hdigit

variable {artifactId other : Id} {version another : ℕ}

/-- A key names its artifact, its version and its kind. -/
theorem versionPath_inj {extension kind : List Char} (hextension : '/' ∉ extension)
    (hkind : '/' ∉ kind) (hkey : versionPath ids artifactsDir artifactId version extension =
      versionPath ids artifactsDir other another kind) :
    artifactId = other ∧ version = another ∧ extension = kind := by
  have hdigits : ∀ version, '/' ∉ Nat.toDigits 10 version := not_mem_toDigits (by decide)
  have hname : ∀ {version : ℕ} {extension : List Char}, '/' ∉ extension →
      '/' ∉ Nat.toDigits 10 version ++ '.' :: extension := by
    intro version extension hextension
    simp [hdigits version, hextension]
  obtain ⟨hdir, hnames⟩ := join_inj (hname hextension) (hname hkind) hkey
  obtain ⟨-, htext⟩ := join_inj (ids.not_mem_text (by decide) artifactId)
    (ids.not_mem_text (by decide) other) hdir
  have hsplit := congrArg (splitOnce '.') hnames
  rw [splitOnce_append (not_mem_toDigits (by decide) version),
    splitOnce_append (not_mem_toDigits (by decide) another)] at hsplit
  simp only [Option.some.injEq, Prod.mk.injEq] at hsplit
  have hversion := congrArg (Nat.ofDigitChars 10 · 0) hsplit.1
  simp only [Nat.ofDigitChars_ten_toDigits] at hversion
  exact ⟨ids.text_injective htext, hversion, hsplit.2⟩

theorem metadataPath_inj (hkey : metadataPath ids artifactsDir artifactId version =
      metadataPath ids artifactsDir other another) : artifactId = other ∧ version = another := by
  obtain ⟨hid, hversion, -⟩ := versionPath_inj (by decide) (by decide) hkey
  exact ⟨hid, hversion⟩

theorem contentsPath_inj (hkey : contentsPath ids artifactsDir artifactId version =
      contentsPath ids artifactsDir other another) : artifactId = other ∧ version = another := by
  obtain ⟨hid, hversion, -⟩ := versionPath_inj (by decide) (by decide) hkey
  exact ⟨hid, hversion⟩

theorem metadataPath_ne_contentsPath (artifactId other : Id) (version another : ℕ) :
    metadataPath ids artifactsDir artifactId version ≠
      contentsPath ids artifactsDir other another := by
  intro hkey
  obtain ⟨-, -, hkind⟩ := versionPath_inj (by decide) (by decide) hkey
  exact absurd hkind (by decide)

section
variable (artifactId : Id)

theorem under_versionPath (version : ℕ) (extension : List Char) :
    Under artifactsDir (versionPath ids artifactsDir artifactId version extension) := by
  refine ⟨ids.text artifactId ++ '/' :: (Nat.toDigits 10 version ++ '.' :: extension), ?_⟩
  simp [versionPath, Key.join]

theorem json_suffix_metadataPath (version : ℕ) :
    ".json".toList <:+ metadataPath ids artifactsDir artifactId version := by
  refine ⟨artifactsDir.join (ids.text artifactId) ++ '/' :: Nat.toDigits 10 version, ?_⟩
  simp [metadataPath, versionPath, Key.join]

theorem not_json_suffix_contentsPath (version : ℕ) :
    ¬ ".json".toList <:+ contentsPath ids artifactsDir artifactId version := by
  intro hjson
  have hbin : ".bin".toList <:+ contentsPath ids artifactsDir artifactId version := by
    refine ⟨artifactsDir.join (ids.text artifactId) ++ '/' :: Nat.toDigits 10 version, ?_⟩
    simp [contentsPath, versionPath, Key.join]
  exact absurd (List.suffix_of_suffix_length_le hbin hjson (by decide)) (by decide)

end

end Keys

/-- One step of `max_by_key(version)`: a later version wins a tie. -/
def laterMax {Id : Type} (best : Option (ArtifactVersion Id)) (version : ArtifactVersion Id) :
    Option (ArtifactVersion Id) :=
  match best with
  | none => some version
  | some best => if best.version ≤ version.version then some version else some best

/-- `max_by_key(version)`. -/
def maxByVersion {Id : Type} (versions : List (ArtifactVersion Id)) :
    Option (ArtifactVersion Id) := versions.foldl laterMax none

section Calls
variable {Id : Type} [LinearOrder Id] (ids : IdText Id) (artifactsDir : Key)

section
variable (store : ArtifactStore Id)

/-- `load_artifact_versions`. -/
def loadArtifactVersions : Except StorageError (List (ArtifactVersion Id)) := do
  let versions ← store.listJsonMatchingSuffix ArtifactObject.asMetadata artifactsDir ".json".toList
  return versions.insertionSort fun version other ↦
    version.artifactId < other.artifactId ∨
      version.artifactId = other.artifactId ∧ version.version ≤ other.version

/-- The version a write allocates: the next one of its path, or the first of a new artifact. -/
def allocate (versions : List (ArtifactVersion Id)) (request : WriteArtifactRequest) (newId : Id)
    (createdAt : ℕ) : ArtifactVersion Id :=
  let existing := maxByVersion (versions.filter (·.path = request.path))
  { artifactId := existing.elim newId ArtifactVersion.artifactId
    path := request.path
    version := existing.elim 1 (·.version + 1)
    createdAt := createdAt
    sizeBytes := request.contents.length }

/-- The puts of one write that succeed. -/
structure Puts where
  metadata : Bool
  contents : Bool
  journal : Bool

/-- `write_artifact_version`. -/
def writeArtifactVersion (request : WriteArtifactRequest) (newId : Id)
    (createdAt : ℕ) (puts : Puts) : ArtifactStore Id × Except ArtifactError (ArtifactVersion Id) :=
  match loadArtifactVersions artifactsDir store with
  | .error error => (store, .error (.storage error))
  | .ok versions =>
    let version := allocate versions request newId createdAt
    let metadataKey := metadataPath ids artifactsDir version.artifactId version.version
    let contentsKey := contentsPath ids artifactsDir version.artifactId version.version
    if puts.metadata then
      let store := store.insert metadataKey (.metadata version)
      if puts.contents then
        (store.insert contentsKey (.bytes request.contents), .ok version)
      else (store, .error (.storage (.failedToPut contentsKey)))
    else (store, .error (.storage (.failedToPut metadataKey)))

/-- `load_artifact_contents`. -/
def loadArtifactContents (artifactId : Id) (version : ℕ) : Except ArtifactError Bytes :=
  match (store.lookup (contentsPath ids artifactsDir artifactId version)).bind
      ArtifactObject.asBytes with
  | some contents => .ok contents
  | none =>
    let metadataKey := metadataPath ids artifactsDir artifactId version
    match store.getJsonIfExists ArtifactObject.asArtifact metadataKey with
    | .error error => .error (.storage error)
    | .ok none => .error (.missingArtifactContents metadataKey)
    | .ok (some legacyArtifact) => .ok legacyArtifact.contents

/-- `read_artifact`. -/
def readArtifact (request : ReadArtifactRequest Id) : Except ArtifactError (Option (Artifact Id)) :=
  match loadArtifactVersions artifactsDir store with
  | .error error => .error (.storage error)
  | .ok versions =>
    let selected := maxByVersion ((versions.filter (·.artifactId = request.artifactId)).filter
      (fun artifact ↦ request.version.all (artifact.version = ·)))
    match selected with
    | none => .ok none
    | some selected =>
      (loadArtifactContents ids artifactsDir store selected.artifactId selected.version).map
        fun contents ↦ some ⟨selected, contents⟩

end

/-- The three handles that write artifacts. -/
inductive EntryPoint where
  | agent
  | conversation
  | turn
  deriving DecidableEq

/-- A write that put its metadata. -/
structure Write (Id : Type) where
  version : ArtifactVersion Id
  contents : Bytes
  succeeded : Bool
  deriving DecidableEq

/-- An artifacts directory, the `ArtifactWritten` events, and the writes so far. -/
structure ArtifactState (Id : Type) where
  store : ArtifactStore Id
  journal : List (ArtifactVersion Id)
  writes : List (Write Id)

/-- One call of `write_artifact`; `newId` is what `Uuid7::now` would give. -/
structure WriteLabel (Id : Type) where
  entry : EntryPoint
  request : WriteArtifactRequest
  newId : Id
  createdAt : ℕ
  puts : Puts

/-- The call returns a version: every put it makes succeeds. -/
def WriteLabel.succeeds (label : WriteLabel Id) : Bool :=
  label.puts.metadata && label.puts.contents && (label.entry = .agent || label.puts.journal)

/-- `write_artifact` of the three handles, without the journal of an agent. -/
def writeArtifact (state : ArtifactState Id) (label : WriteLabel Id) :
    ArtifactState Id × Except ArtifactError (ArtifactVersion Id) :=
  match writeArtifactVersion ids artifactsDir state.store label.request label.newId
      label.createdAt label.puts with
  | (store, .error error) => ({ state with store := store }, .error error)
  | (store, .ok version) =>
    if label.entry = .agent then ({ state with store := store }, .ok version)
    else if label.puts.journal then
      ({ state with store := store, journal := state.journal ++ [version] }, .ok version)
    else ({ state with store := store }, .error .journalAppend)

/-- Any sequence of `write_artifact` calls; drawn ids are new. -/
def writeSystem : System (ArtifactState Id) (WriteLabel Id) where
  enabled state label := ∀ write ∈ state.writes, write.version.artifactId ≠ label.newId
  next state label :=
    let after := (writeArtifact ids artifactsDir state label).1
    match loadArtifactVersions artifactsDir state.store with
    | .ok versions =>
      if label.puts.metadata then
        { after with
          writes := state.writes ++ [⟨allocate versions label.request label.newId label.createdAt,
            label.request.contents, label.succeeds⟩] }
      else after
    | .error _ => after

instance (state : ArtifactState Id) (label : WriteLabel Id) :
    Decidable ((writeSystem ids artifactsDir).enabled state label) :=
  inferInstanceAs (Decidable (∀ _ ∈ _, _))

/-- An empty artifacts directory. -/
def ArtifactState.init : ArtifactState Id := ⟨∅, [], []⟩

end Calls

end Exo.Artifacts
