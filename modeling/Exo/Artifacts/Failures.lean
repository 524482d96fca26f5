import Exo.Artifacts.Versions

/-!
# Artifact writes that fail halfway

What a reader sees is decided by the metadata: a version is listed as soon as its metadata is put.
A contents put that fails leaves a listed version nobody can read; a journal append that fails
leaves a version the caller was told has failed, and an unversioned read returns it.  Exactly the
runs in which neither happens keep the readers' view intact.
-/

namespace Exo.Artifacts

open Storage Library List Option

variable {Id : Type}

section
variable (writes : List (Write Id)) (path : String)

/-- The writes of a path, oldest first. -/
def writesOf : List (Write Id) :=
  writes.filter (·.version.path = path)

/-- The newest write of a path that returned a version. -/
def newestSuccess : Option (Write Id) :=
  ((writesOf writes path).filter (·.succeeded)).getLast?

end

variable {writes : List (Write Id)} {path : String} {write : Write Id}
  {versions : List (ArtifactVersion Id)}

theorem mem_writesOf :
    write ∈ writesOf writes path ↔ write ∈ writes ∧ write.version.path = path := by
  simp [writesOf]

theorem mem_of_newestSuccess (hwrite : write ∈ newestSuccess writes path) :
    write ∈ writesOf writes path ∧ write.succeeded = true := by
  have hmem := mem_of_getLast? hwrite
  simpa using hmem

/-! ## The largest version -/

theorem maxByVersion_spec (versions : List (ArtifactVersion Id)) :
    (maxByVersion versions = none → versions = []) ∧
      ∀ best ∈ maxByVersion versions,
        best ∈ versions ∧ ∀ version ∈ versions, version.version ≤ best.version := by
  induction versions using reverseRecOn with
  | nil => simp [maxByVersion]
  | append_singleton versions version ih =>
    have happend : maxByVersion (versions ++ [version]) =
        laterMax (maxByVersion versions) version := by simp [maxByVersion]
    rw [happend]
    cases hbest : maxByVersion versions with
    | none =>
      rw [ih.1 hbest]
      simp [laterMax]
    | some best =>
      obtain ⟨hmem, hmax⟩ := ih.2 best hbest
      by_cases hle : best.version ≤ version.version
      · simp only [laterMax, hle, if_true, mem_some_iff, forall_eq', reduceCtorEq,
          false_implies, true_and]
        refine ⟨by simp, fun other hother ↦ ?_⟩
        rcases mem_append.1 hother with hother | hother
        · exact (hmax other hother).trans hle
        · rw [mem_singleton.1 hother]
      · simp only [laterMax, hle, if_false, mem_some_iff, forall_eq', reduceCtorEq,
          false_implies, true_and]
        refine ⟨mem_append_left _ hmem, fun other hother ↦ ?_⟩
        rcases mem_append.1 hother with hother | hother
        · exact hmax other hother
        · rw [mem_singleton.1 hother]
          omega

theorem maxByVersion_eq_some {best : ArtifactVersion Id} (hbest : best ∈ versions)
    (hmax : ∀ version ∈ versions, version ≠ best → version.version < best.version) :
    maxByVersion versions = some best := by
  obtain ⟨hempty, hspec⟩ := maxByVersion_spec versions
  cases hfound : maxByVersion versions with
  | none =>
    rw [hempty hfound] at hbest
    cases hbest
  | some found =>
    obtain ⟨hmem, hle⟩ := hspec found hfound
    by_contra hne
    have hlt := hmax found hmem (fun heq ↦ hne (by rw [heq]))
    exact absurd (hle best hbest) (not_le.2 hlt)

variable [LinearOrder Id]

section Readers
variable (ids : IdText Id) (artifactsDir : Key)

section
variable (state : ArtifactState Id)

/-- Listing succeeds, and every listed version reads as the contents of the write that made it. -/
def ListedReadable : Prop :=
  ∃ versions, loadArtifactVersions artifactsDir state.store = .ok versions ∧
    ∀ version ∈ versions, ∃ write ∈ state.writes, write.version = version ∧
      readArtifact ids artifactsDir state.store ⟨version.artifactId, some version.version⟩ =
        .ok (some ⟨version, write.contents⟩)

/-- A read without a version returns the contents of the newest successful write of the path. -/
def NewestRead : Prop :=
  ∀ path, ∀ write ∈ newestSuccess state.writes path,
    ∃ artifact, readArtifact ids artifactsDir state.store ⟨write.version.artifactId, none⟩ =
      .ok (some artifact) ∧ artifact.contents = write.contents

/-- After the call the readers' view is intact. -/
def ViewIntact (label : WriteLabel Id) : Prop :=
  let after := (writeSystem ids artifactsDir).next state label
  ListedReadable ids artifactsDir after ∧ NewestRead ids artifactsDir after

/-- Once the metadata is put the contents follow, and the call succeeds or writes what the newest
successful write of its path wrote. -/
def Completes (label : WriteLabel Id) : Prop :=
  label.puts.metadata = true → label.puts.contents = true ∧
    (label.succeeds = true ∨ ∀ write ∈ newestSuccess state.writes label.request.path,
      write.contents = label.request.contents)

end

instance (state : ArtifactState Id) (label : WriteLabel Id) : Decidable (Completes state label) :=
  inferInstanceAs (Decidable (_ → _ ∧ (_ ∨ _)))

end Readers

/-! ## What the listing says -/

variable (ids : IdText Id) (artifactsDir : Key)

/-- The objects are the metadata and contents of the writes; the writes of one path are the
versions of one artifact, in increasing order. -/
structure Listed (state : ArtifactState Id) : Prop where
  objects : ∀ key object, state.store.lookup key = some object →
    ∃ write ∈ state.writes,
      key = metadataPath ids artifactsDir write.version.artifactId write.version.version ∧
        object = .metadata write.version ∨
      key = contentsPath ids artifactsDir write.version.artifactId write.version.version ∧
        object = .bytes write.contents
  metadata : ∀ write ∈ state.writes,
    state.store.lookup (metadataPath ids artifactsDir write.version.artifactId
      write.version.version) = some (.metadata write.version)
  paths : ∀ write ∈ state.writes, ∀ other ∈ state.writes,
    write.version.path = other.version.path ↔ write.version.artifactId = other.version.artifactId
  ordered : state.writes.Pairwise fun earlier later ↦
    earlier.version.path = later.version.path → earlier.version.version < later.version.version

/-- The contents of every write are there. -/
def Readable (state : ArtifactState Id) : Prop :=
  ∀ write ∈ state.writes, state.store.lookup (contentsPath ids artifactsDir
    write.version.artifactId write.version.version) = some (.bytes write.contents)

/-- The newest write of a path has the contents of the newest successful one. -/
def NewestAgrees (writes : List (Write Id)) : Prop :=
  ∀ path, ∀ success ∈ newestSuccess writes path, ∀ newest ∈ (writesOf writes path).getLast?,
    newest.contents = success.contents

variable {ids artifactsDir} {state : ArtifactState Id}

/-- The listing is the versions of the writes. -/
theorem Listed.loadArtifactVersions_eq (hstate : Listed ids artifactsDir state) :
    ∃ versions, loadArtifactVersions artifactsDir state.store = .ok versions ∧
      ∀ version, version ∈ versions ↔ ∃ write ∈ state.writes, write.version = version := by
  have hmetadata : ∀ key object, state.store.lookup key = some object → Under artifactsDir key →
      ".json".toList <:+ key → ∃ write ∈ state.writes, object = .metadata write.version := by
    intro key object hobject _ hsuffix
    obtain ⟨write, hwrite, ⟨-, hmetadata⟩ | ⟨hkey, -⟩⟩ := hstate.objects key object hobject
    · exact ⟨write, hwrite, hmetadata⟩
    · rw [hkey] at hsuffix
      exact absurd hsuffix (not_json_suffix_contentsPath _ _)
  have hdecode : ∀ key object, state.store.lookup key = some object → Under artifactsDir key →
      ".json".toList <:+ key → (ArtifactObject.asMetadata object).isSome = true := by
    intro key object hobject hunder hsuffix
    obtain ⟨write, -, rfl⟩ := hmetadata key object hobject hunder hsuffix
    rfl
  obtain ⟨values, hlist, hvalues⟩ := ObjectStore.listJsonMatchingSuffix_eq_ok hdecode
  refine ⟨_, by rw [loadArtifactVersions, hlist]; rfl, fun version ↦ ?_⟩
  rw [mem_insertionSort, hvalues]
  constructor
  · rintro ⟨key, object, hobject, hunder, hsuffix, hvalue⟩
    obtain ⟨write, hwrite, rfl⟩ := hmetadata key object hobject hunder hsuffix
    exact ⟨write, hwrite, some.inj hvalue⟩
  · rintro ⟨write, hwrite, rfl⟩
    exact ⟨_, _, hstate.metadata write hwrite, under_versionPath _ _ _,
      json_suffix_metadataPath _ _, rfl⟩

theorem Listed.eq_of_version (hstate : Listed ids artifactsDir state) {other : Write Id}
    (hwrite : write ∈ state.writes) (hother : other ∈ state.writes)
    (hid : write.version.artifactId = other.version.artifactId)
    (hversion : write.version.version = other.version.version) : write = other := by
  have hdistinct : state.writes.Pairwise fun earlier later ↦
      earlier.version.path = later.version.path →
        earlier.version.version ≠ later.version.version :=
    hstate.ordered.imp fun hlt hpath ↦ (hlt hpath).ne
  have hsymm : Std.Symm fun earlier later : Write Id ↦
      earlier.version.path = later.version.path →
        earlier.version.version ≠ later.version.version :=
    ⟨fun _ _ hne hpath ↦ (hne hpath.symm).symm⟩
  by_contra hne
  exact hdistinct.forall hwrite hother hne ((hstate.paths write hwrite other hother).2 hid) hversion

omit [LinearOrder Id] in
/-- The last write of a path has its largest version. -/
theorem Listed.lt_newest (hstate : Listed ids artifactsDir state) {newest : Write Id}
    (hnewest : newest ∈ (writesOf state.writes path).getLast?)
    (hwrite : write ∈ writesOf state.writes path) (hne : write ≠ newest) :
    write.version.version < newest.version.version := by
  obtain ⟨before, hbefore⟩ := getLast?_eq_some_iff.1 hnewest
  have hpairwise : (writesOf state.writes path).Pairwise fun earlier later ↦
      earlier.version.path = later.version.path →
        earlier.version.version < later.version.version := hstate.ordered.filter _
  have hpath := (mem_writesOf.1 hwrite).2
  have hlast := (mem_writesOf.1 (mem_of_getLast? hnewest)).2
  rw [hbefore, pairwise_append] at hpairwise
  rw [hbefore, mem_append, mem_singleton] at hwrite
  exact hpairwise.2.2 write (hwrite.resolve_right hne) newest (mem_singleton_self _)
    (hpath.trans hlast.symm)

section
variable (hstate : Listed ids artifactsDir state)
include hstate

/-- A read of a version reads that version's contents. -/
theorem Listed.readArtifact_version (hwrite : write ∈ state.writes) :
    readArtifact ids artifactsDir state.store
        ⟨write.version.artifactId, some write.version.version⟩ =
      (loadArtifactContents ids artifactsDir state.store write.version.artifactId
        write.version.version).map fun contents ↦ some ⟨write.version, contents⟩ := by
  obtain ⟨versions, hload, hversions⟩ := hstate.loadArtifactVersions_eq
  have hselected : maxByVersion ((versions.filter (·.artifactId = write.version.artifactId)).filter
      (fun artifact ↦ (some write.version.version).all (artifact.version = ·))) =
        some write.version := by
    apply maxByVersion_eq_some
    · simp [(hversions write.version).2 ⟨write, hwrite, rfl⟩]
    · intro version hversion hne
      simp only [mem_filter, all_some, decide_eq_true_eq] at hversion
      obtain ⟨other, hother, rfl⟩ := (hversions version).1 hversion.1.1
      exact absurd (congrArg Write.version
        (hstate.eq_of_version hother hwrite hversion.1.2 hversion.2)) hne
  simp only [readArtifact, hload, hselected]

/-- A read without a version reads the last write of the path. -/
theorem Listed.readArtifact_newest {newest : Write Id}
    (hnewest : newest ∈ (writesOf state.writes path).getLast?)
    (hwrite : write ∈ writesOf state.writes path) :
    readArtifact ids artifactsDir state.store ⟨write.version.artifactId, none⟩ =
      (loadArtifactContents ids artifactsDir state.store newest.version.artifactId
        newest.version.version).map fun contents ↦ some ⟨newest.version, contents⟩ := by
  obtain ⟨versions, hload, hversions⟩ := hstate.loadArtifactVersions_eq
  obtain ⟨hmem, hpath⟩ := mem_writesOf.1 hwrite
  obtain ⟨hlast, hlastPath⟩ := mem_writesOf.1 (mem_of_getLast? hnewest)
  have hid : newest.version.artifactId = write.version.artifactId :=
    (hstate.paths newest hlast write hmem).1 (hlastPath.trans hpath.symm)
  have hselected : maxByVersion ((versions.filter (·.artifactId = write.version.artifactId)).filter
      (fun artifact ↦ (none : Option ℕ).all (artifact.version = ·))) = some newest.version := by
    apply maxByVersion_eq_some
    · simp [(hversions newest.version).2 ⟨newest, hlast, rfl⟩, hid]
    · intro version hversion hne
      simp only [mem_filter, decide_eq_true_eq] at hversion
      obtain ⟨other, hother, rfl⟩ := (hversions version).1 hversion.1.1
      have hotherPath : other.version.path = path :=
        ((hstate.paths other hother write hmem).2 hversion.1.2).trans hpath
      exact hstate.lt_newest hnewest (mem_writesOf.2 ⟨hother, hotherPath⟩)
        (fun heq ↦ hne (by rw [heq]))
  simp only [readArtifact, hload, hselected]

theorem Listed.lookup_contentsPath (hwrite : write ∈ state.writes) {object : ArtifactObject Id}
    (hobject : state.store.lookup (contentsPath ids artifactsDir write.version.artifactId
      write.version.version) = some object) : object = .bytes write.contents := by
  obtain ⟨other, hother, ⟨hkey, -⟩ | ⟨hkey, hbytes⟩⟩ := hstate.objects _ object hobject
  · exact absurd hkey.symm (metadataPath_ne_contentsPath _ _ _ _)
  · obtain ⟨hid, hversion⟩ := contentsPath_inj hkey
    rw [hbytes, hstate.eq_of_version hwrite hother hid hversion]

/-- Contents are there as the write gave them, or reading them fails. -/
theorem Listed.loadArtifactContents_eq (hwrite : write ∈ state.writes) (contents : Bytes) :
    loadArtifactContents ids artifactsDir state.store write.version.artifactId
        write.version.version = .ok contents ↔
      contents = write.contents ∧ state.store.lookup (contentsPath ids artifactsDir
        write.version.artifactId write.version.version) = some (.bytes write.contents) := by
  cases hobject : state.store.lookup (contentsPath ids artifactsDir write.version.artifactId
      write.version.version) with
  | none =>
    have hmetadata := hstate.metadata write hwrite
    simp [loadArtifactContents, hobject, ObjectStore.getJsonIfExists, hmetadata,
      ArtifactObject.asArtifact]
  | some object =>
    have hbytes := hstate.lookup_contentsPath hwrite hobject
    subst hbytes
    simp [loadArtifactContents, hobject, ArtifactObject.asBytes, eq_comm]

/-- Every listed version is readable exactly if every write's contents are there. -/
theorem Listed.listedReadable_iff :
    ListedReadable ids artifactsDir state ↔ Readable ids artifactsDir state := by
  obtain ⟨versions, hload, hversions⟩ := hstate.loadArtifactVersions_eq
  constructor
  · rintro ⟨listed, hlisted, hread⟩ write hwrite
    rw [hload, Except.ok.injEq] at hlisted
    obtain ⟨other, hother, hsame, hother'⟩ :=
      hread write.version (hlisted ▸ (hversions write.version).2 ⟨write, hwrite, rfl⟩)
    rw [hstate.readArtifact_version hwrite] at hother'
    cases hcontents : loadArtifactContents ids artifactsDir state.store write.version.artifactId
        write.version.version with
    | error error =>
      rw [hcontents] at hother'
      cases hother'
    | ok contents => exact ((hstate.loadArtifactContents_eq hwrite contents).1 hcontents).2
  · intro hreadable
    refine ⟨versions, hload, fun version hversion ↦ ?_⟩
    obtain ⟨write, hwrite, rfl⟩ := (hversions version).1 hversion
    refine ⟨write, hwrite, rfl, ?_⟩
    rw [hstate.readArtifact_version hwrite,
      (hstate.loadArtifactContents_eq hwrite write.contents).2 ⟨rfl, hreadable write hwrite⟩]
    rfl

/-- With all contents there, an unversioned read sees the newest success exactly if the last write
of its path has the same contents. -/
theorem Listed.newestRead_iff (hreadable : Readable ids artifactsDir state) :
    NewestRead ids artifactsDir state ↔ NewestAgrees state.writes := by
  have hread : ∀ path success newest, success ∈ newestSuccess state.writes path →
      newest ∈ (writesOf state.writes path).getLast? →
      readArtifact ids artifactsDir state.store ⟨success.version.artifactId, none⟩ =
        .ok (some ⟨newest.version, newest.contents⟩) := by
    intro path success newest hsuccess hnewest
    have hlast := (mem_writesOf.1 (mem_of_getLast? hnewest)).1
    rw [hstate.readArtifact_newest hnewest (mem_of_newestSuccess hsuccess).1,
      (hstate.loadArtifactContents_eq hlast newest.contents).2 ⟨rfl, hreadable newest hlast⟩]
    rfl
  constructor
  · intro hview path success hsuccess newest hnewest
    obtain ⟨artifact, hartifact, hcontents⟩ := hview path success hsuccess
    rw [hread path success newest hsuccess hnewest] at hartifact
    cases hartifact
    exact hcontents
  · intro hagrees path success hsuccess
    have hne : writesOf state.writes path ≠ [] :=
      ne_nil_of_mem (mem_of_newestSuccess hsuccess).1
    have hnewest := getLast?_eq_some_getLast hne
    exact ⟨_, hread path success _ hsuccess hnewest, hagrees path success hsuccess _ hnewest⟩

/-! ## One write -/

/-- The version a write allocates is a larger one of its path's artifact, or of a new artifact. -/
theorem Listed.allocate_spec {label : WriteLabel Id}
    (henabled : (writeSystem ids artifactsDir).enabled state label)
    (hload : loadArtifactVersions artifactsDir state.store = .ok versions) :
    let version := allocate versions label.request label.newId label.createdAt
    ∀ write ∈ state.writes,
      (write.version.path = version.path ↔ write.version.artifactId = version.artifactId) ∧
        (write.version.path = version.path → write.version.version < version.version) := by
  obtain ⟨listed, hlisted, hversions⟩ := hstate.loadArtifactVersions_eq
  rw [hload, Except.ok.injEq] at hlisted
  subst hlisted
  intro version write hwrite
  have hpath : version.path = label.request.path := rfl
  rcases eq_nil_or_concat (writesOf state.writes label.request.path) with
    hnone | ⟨before, newest, hsome⟩
  · -- no version of the path is listed, so the artifact is new
    have hfilter : versions.filter (·.path = label.request.path) = [] := by
      rw [filter_eq_nil_iff]
      intro other hother hpath
      obtain ⟨write, hwrite, rfl⟩ := (hversions other).1 hother
      have hmem := mem_writesOf.2 ⟨hwrite, of_decide_eq_true hpath⟩
      rw [hnone] at hmem
      cases hmem
    have hid : version.artifactId = label.newId := by
      simp [version, allocate, hfilter, maxByVersion]
    have hother : write.version.path ≠ version.path := by
      intro hsame
      have hmem := mem_writesOf.2 ⟨hwrite, hsame.trans hpath⟩
      rw [hnone] at hmem
      cases hmem
    have hne : write.version.artifactId ≠ version.artifactId := by
      rw [hid]
      exact henabled write hwrite
    exact ⟨⟨fun h ↦ absurd h hother, fun h ↦ absurd h hne⟩, fun h ↦ absurd h hother⟩
  · -- the last write of the path has the largest listed version
    have hnewest : newest ∈ (writesOf state.writes label.request.path).getLast? := by
      rw [hsome]
      simp
    obtain ⟨hlast, hlastPath⟩ := mem_writesOf.1 (mem_of_getLast? hnewest)
    have hmax : maxByVersion (versions.filter (·.path = label.request.path)) =
        some newest.version := by
      apply maxByVersion_eq_some
      · simp [(hversions newest.version).2 ⟨newest, hlast, rfl⟩, hlastPath]
      · intro other hother hne
        rw [mem_filter, decide_eq_true_eq] at hother
        obtain ⟨write, hwrite, rfl⟩ := (hversions other).1 hother.1
        exact hstate.lt_newest hnewest (mem_writesOf.2 ⟨hwrite, hother.2⟩)
          (fun heq ↦ hne (by rw [heq]))
    have hid : version.artifactId = newest.version.artifactId := by
      simp [version, allocate, hmax]
    have hversion : version.version = newest.version.version + 1 := by
      simp [version, allocate, hmax]
    have hsame := hstate.paths write hwrite newest hlast
    rw [hlastPath, ← hpath, ← hid] at hsame
    refine ⟨hsame, fun hpath' ↦ ?_⟩
    rw [hversion]
    by_cases heq : write = newest
    · rw [heq]
      omega
    · have hlt := hstate.lt_newest hnewest (mem_writesOf.2 ⟨hwrite, hpath'.trans hpath⟩) heq
      omega

end

/-- What a write leaves: nothing, its metadata, or its metadata and its contents. -/
theorem next_eq (ids : IdText Id) (label : WriteLabel Id)
    (hload : loadArtifactVersions artifactsDir state.store = .ok versions) :
    let version := allocate versions label.request label.newId label.createdAt
    let metadataKey := metadataPath ids artifactsDir version.artifactId version.version
    let contentsKey := contentsPath ids artifactsDir version.artifactId version.version
    let next := (writeSystem ids artifactsDir).next state label
    next.writes = (if label.puts.metadata then
        state.writes ++ [⟨version, label.request.contents, label.succeeds⟩] else state.writes) ∧
      next.store = if label.puts.metadata then
          if label.puts.contents then
            (state.store.insert metadataKey (.metadata version)).insert contentsKey
              (.bytes label.request.contents)
          else state.store.insert metadataKey (.metadata version)
        else state.store := by
  intro version metadataKey contentsKey next
  rcases hputs : label.puts with ⟨metadata, contents, journal⟩
  cases metadata with
  | false => simp [next, writeSystem, writeArtifact, writeArtifactVersion, hload, hputs]
  | true =>
    cases contents with
    | false =>
      simp [next, writeSystem, writeArtifact, writeArtifactVersion, hload, hputs, metadataKey,
        version]
    | true =>
      by_cases hagent : label.entry = .agent
      · simp [next, writeSystem, writeArtifact, writeArtifactVersion, hload, hputs, hagent,
          metadataKey, contentsKey, version]
      · cases journal <;> simp [next, writeSystem, writeArtifact, writeArtifactVersion, hload,
          hputs, hagent, metadataKey, contentsKey, version]

variable {label : WriteLabel Id} {version : ArtifactVersion Id}

omit [LinearOrder Id] in
theorem Listed.lookup_new (hstate : Listed ids artifactsDir state)
    (hnew : ∀ write ∈ state.writes,
      (write.version.path = version.path ↔ write.version.artifactId = version.artifactId) ∧
        (write.version.path = version.path → write.version.version < version.version)) :
    state.store.lookup (metadataPath ids artifactsDir version.artifactId version.version) = none ∧
      state.store.lookup (contentsPath ids artifactsDir version.artifactId version.version) =
        none := by
  have hfresh : ∀ write ∈ state.writes, ¬ (version.artifactId = write.version.artifactId ∧
      version.version = write.version.version) := by
    rintro write hwrite ⟨hid, hversion⟩
    have hlt := (hnew write hwrite).2 ((hnew write hwrite).1.2 hid.symm)
    omega
  constructor
  · rw [eq_none_iff_forall_not_mem]
    intro object hobject
    obtain ⟨write, hwrite, ⟨hkey, -⟩ | ⟨hkey, -⟩⟩ := hstate.objects _ object hobject
    · exact hfresh write hwrite (metadataPath_inj hkey)
    · exact metadataPath_ne_contentsPath _ _ _ _ hkey
  · rw [eq_none_iff_forall_not_mem]
    intro object hobject
    obtain ⟨write, hwrite, ⟨hkey, -⟩ | ⟨hkey, -⟩⟩ := hstate.objects _ object hobject
    · exact metadataPath_ne_contentsPath _ _ _ _ hkey.symm
    · exact hfresh write hwrite (contentsPath_inj hkey)

section
variable (hstate : Listed ids artifactsDir state)
include hstate

/-- A write that puts its metadata: the two objects it concerns, and all others. -/
theorem Listed.next_spec (henabled : (writeSystem ids artifactsDir).enabled state label)
    (hmetadata : label.puts.metadata = true) :
    ∃ version : ArtifactVersion Id,
      let next := (writeSystem ids artifactsDir).next state label
      let metadataKey := metadataPath ids artifactsDir version.artifactId version.version
      let contentsKey := contentsPath ids artifactsDir version.artifactId version.version
      version.path = label.request.path ∧
      (∀ write ∈ state.writes,
        (write.version.path = version.path ↔ write.version.artifactId = version.artifactId) ∧
          (write.version.path = version.path → write.version.version < version.version)) ∧
      next.writes = state.writes ++ [⟨version, label.request.contents, label.succeeds⟩] ∧
      next.store.lookup metadataKey = some (.metadata version) ∧
      next.store.lookup contentsKey =
        (if label.puts.contents then some (.bytes label.request.contents) else none) ∧
      ∀ key, key ≠ metadataKey → key ≠ contentsKey →
        next.store.lookup key = state.store.lookup key := by
  obtain ⟨versions, hload, -⟩ := hstate.loadArtifactVersions_eq
  have hnew := hstate.allocate_spec henabled hload
  obtain ⟨hwrites, hstore⟩ := next_eq ids label hload
  refine ⟨allocate versions label.request label.newId label.createdAt, ?_⟩
  intro next metadataKey contentsKey
  have hne : metadataKey ≠ contentsKey := metadataPath_ne_contentsPath _ _ _ _
  have hfresh := hstate.lookup_new hnew
  rw [hmetadata, if_pos rfl] at hwrites hstore
  refine ⟨rfl, hnew, hwrites, ?_, ?_, ?_⟩
  · rw [hstore]
    split
    · rw [AList.lookup_insert_ne hne, AList.lookup_insert]
    · rw [AList.lookup_insert]
  · rw [hstore]
    split
    · rw [AList.lookup_insert]
    · rw [AList.lookup_insert_ne hne.symm]
      exact hfresh.2
  · intro key hkey hkey'
    rw [hstore]
    split
    · rw [AList.lookup_insert_ne hkey', AList.lookup_insert_ne hkey]
    · rw [AList.lookup_insert_ne hkey]

/-- A write that does not put its metadata leaves the objects and the record of writes. -/
theorem Listed.next_unlisted (hmetadata : label.puts.metadata = false) :
    ((writeSystem ids artifactsDir).next state label).writes = state.writes ∧
      ((writeSystem ids artifactsDir).next state label).store = state.store := by
  obtain ⟨versions, hload, -⟩ := hstate.loadArtifactVersions_eq
  obtain ⟨hwrites, hstore⟩ := next_eq ids label hload
  rw [hmetadata] at hwrites hstore
  exact ⟨hwrites, hstore⟩

theorem Listed.next (henabled : (writeSystem ids artifactsDir).enabled state label) :
    Listed ids artifactsDir ((writeSystem ids artifactsDir).next state label) := by
  cases hmetadata : label.puts.metadata with
  | false =>
    obtain ⟨hwrites, hstore⟩ := hstate.next_unlisted hmetadata
    constructor <;> rw [hwrites]
    · rw [hstore]
      exact hstate.objects
    · rw [hstore]
      exact hstate.metadata
    · exact hstate.paths
    · exact hstate.ordered
  | true =>
    obtain ⟨version, hpath, hnew, hwrites, hput, hcontents, hframe⟩ :=
      hstate.next_spec henabled hmetadata
    -- the keys of earlier writes are not the keys of this one
    have hother : ∀ write ∈ state.writes, ¬ (write.version.artifactId = version.artifactId ∧
        write.version.version = version.version) := by
      rintro write hwrite ⟨hid, hversion⟩
      exact absurd hversion ((hnew write hwrite).2 ((hnew write hwrite).1.2 hid)).ne
    constructor
    · intro key object hobject
      rw [hwrites]
      by_cases hkey : key = metadataPath ids artifactsDir version.artifactId version.version
      · rw [hkey, hput, some.injEq] at hobject
        exact ⟨_, mem_append_right _ (mem_singleton_self _), .inl ⟨hkey, hobject.symm⟩⟩
      · by_cases hkey' : key = contentsPath ids artifactsDir version.artifactId version.version
        · rw [hkey', hcontents] at hobject
          split at hobject
          · exact ⟨_, mem_append_right _ (mem_singleton_self _),
              .inr ⟨hkey', (some.inj hobject).symm⟩⟩
          · cases hobject
        · rw [hframe key hkey hkey'] at hobject
          obtain ⟨write, hwrite, hplace⟩ := hstate.objects key object hobject
          exact ⟨write, mem_append_left _ hwrite, hplace⟩
    · intro write hwrite
      rw [hwrites, mem_append, mem_singleton] at hwrite
      rcases hwrite with hwrite | rfl
      · rw [hframe _ (fun hkey ↦ hother write hwrite (metadataPath_inj hkey))
          (metadataPath_ne_contentsPath _ _ _ _)]
        exact hstate.metadata write hwrite
      · exact hput
    · intro write hwrite other hother
      rw [hwrites, mem_append, mem_singleton] at hwrite hother
      rcases hwrite with hwrite | rfl
      · rcases hother with hother | rfl
        · exact hstate.paths write hwrite other hother
        · exact (hnew write hwrite).1
      · rcases hother with hother | rfl
        · rw [eq_comm, (hnew other hother).1, eq_comm]
        · simp
    · rw [hwrites, pairwise_append]
      refine ⟨hstate.ordered, pairwise_singleton _ _, ?_⟩
      intro earlier hearlier later hlater
      rw [mem_singleton.1 hlater]
      exact (hnew earlier hearlier).2

/-- The contents of all writes are still there exactly if the new ones are put. -/
theorem Listed.readable_next_iff (hreadable : Readable ids artifactsDir state)
    (henabled : (writeSystem ids artifactsDir).enabled state label) :
    Readable ids artifactsDir ((writeSystem ids artifactsDir).next state label) ↔
      (label.puts.metadata = true → label.puts.contents = true) := by
  cases hmetadata : label.puts.metadata with
  | false =>
    obtain ⟨hwrites, hstore⟩ := hstate.next_unlisted hmetadata
    simpa [Readable, hwrites, hstore] using hreadable
  | true =>
    obtain ⟨version, hpath, hnew, hwrites, hput, hcontents, hframe⟩ :=
      hstate.next_spec henabled hmetadata
    have hold : ∀ write ∈ state.writes,
        ((writeSystem ids artifactsDir).next state label).store.lookup
          (contentsPath ids artifactsDir write.version.artifactId write.version.version) =
            some (.bytes write.contents) := by
      intro write hwrite
      rw [hframe _ (metadataPath_ne_contentsPath _ _ _ _).symm ?_]
      · exact hreadable write hwrite
      · intro hkey
        obtain ⟨hid, hversion⟩ := contentsPath_inj hkey
        exact absurd hversion ((hnew write hwrite).2 ((hnew write hwrite).1.2 hid)).ne
    simp only [Readable, hwrites, mem_append, mem_singleton, or_imp, forall_and,
      forall_eq, hcontents]
    simpa using fun _ ↦ hold

end

omit [LinearOrder Id] in
theorem writesOf_append (writes : List (Write Id)) (write : Write Id) (path : String) :
    writesOf (writes ++ [write]) path =
      writesOf writes path ++ if write.version.path = path then [write] else [] := by
  by_cases hpath : write.version.path = path <;> simp [writesOf, hpath]

omit [LinearOrder Id] in
/-- One more write leaves the newest contents right exactly if it succeeded or changed nothing. -/
theorem newestAgrees_append_iff (hwrites : NewestAgrees writes) (write : Write Id) :
    NewestAgrees (writes ++ [write]) ↔
      write.succeeded = true ∨ ∀ success ∈ newestSuccess writes write.version.path,
        success.contents = write.contents := by
  have hlast : (writesOf (writes ++ [write]) write.version.path).getLast? = some write := by
    simp [writesOf_append]
  have hnewest : newestSuccess (writes ++ [write]) write.version.path =
      if write.succeeded then some write else newestSuccess writes write.version.path := by
    cases hsucceeded : write.succeeded <;>
      simp [newestSuccess, writesOf_append, hsucceeded]
  have hother : ∀ path, path ≠ write.version.path →
      writesOf (writes ++ [write]) path = writesOf writes path := by
    intro path hpath
    simp [writesOf_append, hpath.symm]
  constructor
  · intro hagrees
    cases hsucceeded : write.succeeded with
    | true => exact .inl rfl
    | false =>
      refine .inr fun success hsuccess ↦ ?_
      have hmem : success ∈ newestSuccess (writes ++ [write]) write.version.path := by
        rw [hnewest, hsucceeded]
        exact hsuccess
      exact (hagrees _ success hmem write hlast).symm
  · intro hwrite path success hsuccess newest hmem
    by_cases hpath : path = write.version.path
    · rw [hpath, hlast, mem_some_iff] at hmem
      rw [hpath, hnewest] at hsuccess
      cases hsucceeded : write.succeeded with
      | true =>
        rw [hsucceeded, if_pos rfl, mem_some_iff] at hsuccess
        rw [← hmem, ← hsuccess]
      | false =>
        rw [hsucceeded] at hsuccess
        rw [← hmem]
        exact (hwrite.resolve_left (by simp [hsucceeded]) success hsuccess).symm
    · rw [newestSuccess, hother path hpath] at hsuccess
      rw [hother path hpath] at hmem
      exact hwrites path success hsuccess newest hmem

theorem Listed.newestAgrees_next_iff (hstate : Listed ids artifactsDir state)
    (hnewest : NewestAgrees state.writes)
    (henabled : (writeSystem ids artifactsDir).enabled state label) :
    NewestAgrees ((writeSystem ids artifactsDir).next state label).writes ↔
      (label.puts.metadata = true → label.succeeds = true ∨
        ∀ write ∈ newestSuccess state.writes label.request.path,
          write.contents = label.request.contents) := by
  cases hmetadata : label.puts.metadata with
  | false =>
    rw [(hstate.next_unlisted hmetadata).1]
    simpa using hnewest
  | true =>
    obtain ⟨version, hpath, -, hwrites, -⟩ := hstate.next_spec henabled hmetadata
    rw [hwrites, newestAgrees_append_iff hnewest, hpath]
    simp

/-! ## Every run -/

variable (ids artifactsDir) in
/-- The listing, the contents and the newest contents of the writes are as a reader expects. -/
structure Intact (state : ArtifactState Id) : Prop where
  listed : Listed ids artifactsDir state
  readable : Readable ids artifactsDir state
  newest : NewestAgrees state.writes

omit [LinearOrder Id] in
theorem intact_init : Intact ids artifactsDir (ArtifactState.init : ArtifactState Id) where
  listed := ⟨by simp [ArtifactState.init], by simp [ArtifactState.init],
    by simp [ArtifactState.init], List.Pairwise.nil⟩
  readable := by simp [Readable, ArtifactState.init]
  newest := by simp [NewestAgrees, newestSuccess, writesOf, ArtifactState.init]

section
variable (hstate : Intact ids artifactsDir state)
  (henabled : (writeSystem ids artifactsDir).enabled state label)
include hstate henabled

theorem Intact.next_iff :
    Readable ids artifactsDir ((writeSystem ids artifactsDir).next state label) ∧
        NewestAgrees ((writeSystem ids artifactsDir).next state label).writes ↔
      Completes state label := by
  rw [hstate.listed.readable_next_iff hstate.readable henabled,
    hstate.listed.newestAgrees_next_iff hstate.newest henabled]
  unfold Completes
  tauto

theorem Intact.next (hcompletes : Completes state label) :
    Intact ids artifactsDir ((writeSystem ids artifactsDir).next state label) := by
  obtain ⟨hreadable, hnewest⟩ := (hstate.next_iff henabled).2 hcompletes
  exact ⟨hstate.listed.next henabled, hreadable, hnewest⟩

theorem Intact.viewIntact_iff :
    ViewIntact ids artifactsDir state label ↔ Completes state label := by
  have hnext := hstate.listed.next henabled
  rw [← hstate.next_iff henabled, ViewIntact, hnext.listedReadable_iff]
  constructor
  · rintro ⟨hreadable, hread⟩
    exact ⟨hreadable, (hnext.newestRead_iff hreadable).1 hread⟩
  · rintro ⟨hreadable, hagrees⟩
    exact ⟨hreadable, (hnext.newestRead_iff hreadable).2 hagrees⟩

end

/-- Along every run of writes whose puts may fail, every listed version stays readable and an
unversioned read returns the newest successful write, exactly if no write stops after its metadata
put, be it before the contents or before the journal append. -/
theorem artifact_view_intact_iff (labels : List (WriteLabel Id))
    (hrun : (writeSystem ids artifactsDir).Admits ArtifactState.init labels) :
    (writeSystem ids artifactsDir).Throughout (ViewIntact ids artifactsDir) ArtifactState.init
        labels ↔
      (writeSystem ids artifactsDir).Throughout Completes ArtifactState.init labels :=
  System.throughout_congr (Intact ids artifactsDir)
    (fun _ _ hstate henabled ↦ hstate.viewIntact_iff henabled)
    (fun _ _ hstate henabled hcompletes ↦ hstate.next henabled hcompletes) intact_init hrun

/-- One write whose contents put fails. -/
def contentsLost : List (WriteLabel (Fin (2 ^ 128))) :=
  [⟨.agent, ⟨"notes.md", [104, 105]⟩, 1, 0, ⟨true, false, true⟩⟩]

/-- A write, and then one whose journal append fails. -/
def journalLost : List (WriteLabel (Fin (2 ^ 128))) :=
  [⟨.conversation, ⟨"notes.md", [104, 105]⟩, 1, 0, ⟨true, true, true⟩⟩,
    ⟨.conversation, ⟨"notes.md", [104, 111]⟩, 2, 1, ⟨true, true, false⟩⟩]

theorem failed_writes_are_visible :
    ((writeSystem uuidText "artifacts".toList).Admits ArtifactState.init contentsLost ∧
      ¬ (writeSystem uuidText "artifacts".toList).Throughout
        (ViewIntact uuidText "artifacts".toList) ArtifactState.init contentsLost) ∧
    (writeSystem uuidText "artifacts".toList).Admits ArtifactState.init journalLost ∧
      ¬ (writeSystem uuidText "artifacts".toList).Throughout
        (ViewIntact uuidText "artifacts".toList) ArtifactState.init journalLost := by
  refine ⟨⟨by decide +kernel, fun hrun ↦ ?_⟩, by decide +kernel, fun hrun ↦ ?_⟩
  · exact absurd ((intact_init.viewIntact_iff (by decide +kernel)).1 hrun.1) (by decide +kernel)
  · have hcompletes := (intact_init.viewIntact_iff (by decide +kernel)).1 hrun.1
    have hfirst : Intact uuidText "artifacts".toList
        ((writeSystem uuidText "artifacts".toList).next ArtifactState.init _) :=
      intact_init.next (by decide +kernel) hcompletes
    exact absurd ((hfirst.viewIntact_iff (by decide +kernel)).1 hrun.2.1) (by decide +kernel)

/-- Two writes of one path through different handles, one that stores nothing, and another path. -/
def completeWrites : List (WriteLabel (Fin (2 ^ 128))) :=
  [⟨.conversation, ⟨"notes.md", [104, 105]⟩, 1, 0, ⟨true, true, true⟩⟩,
    ⟨.turn, ⟨"notes.md", [104, 111]⟩, 2, 1, ⟨false, true, true⟩⟩,
    ⟨.turn, ⟨"notes.md", [104, 111]⟩, 3, 2, ⟨true, true, true⟩⟩,
    ⟨.conversation, ⟨"todo.md", []⟩, 4, 3, ⟨true, true, true⟩⟩]

theorem artifact_view_intact_completeWrites :
    (writeSystem uuidText "artifacts".toList).Admits ArtifactState.init completeWrites ∧
      (writeSystem uuidText "artifacts".toList).Throughout (ViewIntact uuidText "artifacts".toList)
        ArtifactState.init completeWrites :=
  ⟨by decide +kernel,
    (artifact_view_intact_iff completeWrites (by decide +kernel)).2 (by decide +kernel)⟩

end Exo.Artifacts
