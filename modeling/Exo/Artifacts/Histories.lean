import Exo.Artifacts.Failures

/-!
# The history of a path

When no storage call fails, the writes of a path through any of the handles make one history: one
artifact, numbered from 1 in the order of the calls.  Writers find the artifact by its path and
readers by its id, and both read the same listing.
-/

namespace Exo.Artifacts

open Storage Library List

variable {Id : Type} [LinearOrder Id]

section Definitions
variable (ids : IdText Id) (artifactsDir : Key)

section
variable (labels : List (WriteLabel Id))

/-- What the calls of a run return. -/
def results : List (Except ArtifactError (ArtifactVersion Id)) :=
  (writeSystem ids artifactsDir).collect (fun state label ↦
    [(writeArtifact ids artifactsDir state label).2]) .init labels

/-- The state after a run, which began with an empty directory. -/
def after : ArtifactState Id :=
  (writeSystem ids artifactsDir).exec .init labels

section
variable (written : List (WriteLabel Id × ArtifactVersion Id))

/-- The calls and what they wrote, for one path. -/
def historyOf (path : String) :
    List (WriteLabel Id × ArtifactVersion Id) := written.filter (·.1.request.path = path)

/-- Every call returns a version, and the versions of a path are one linear history. -/
structure LinearHistory : Prop where
  calls : written.map Prod.fst = labels
  returned : results ids artifactsDir labels = written.map fun write ↦ .ok write.2
  paths : ∀ write ∈ written, write.2.path = write.1.request.path
  artifact : ∀ write ∈ written, ∀ other ∈ written,
    write.2.path = other.2.path ↔ write.2.artifactId = other.2.artifactId
  numbered : ∀ path, (historyOf written path).map (·.2.version) =
    List.range' 1 (historyOf written path).length
  listed : ∃ versions,
    loadArtifactVersions artifactsDir (after ids artifactsDir labels).store = .ok versions ∧
      ∀ version, version ∈ versions ↔ version ∈ written.map Prod.snd
  read : ∀ write ∈ written, readArtifact ids artifactsDir (after ids artifactsDir labels).store
    ⟨write.2.artifactId, some write.2.version⟩ = .ok (some ⟨write.2, write.1.request.contents⟩)
  newest : ∀ path, ∀ write ∈ (historyOf written path).getLast?,
    readArtifact ids artifactsDir (after ids artifactsDir labels).store
      ⟨write.2.artifactId, none⟩ = .ok (some ⟨write.2, write.1.request.contents⟩)
  /-- The `ArtifactWritten` events, of which an agent has none. -/
  journal : (after ids artifactsDir labels).journal =
    (written.filter (·.1.entry ≠ .agent)).map Prod.snd

end

end

/-- A call and its version, as the directory keeps it. -/
def recorded (write : WriteLabel Id × ArtifactVersion Id) : Write Id :=
  ⟨write.2, write.1.request.contents, true⟩

/-- What a run without failures keeps. -/
structure Recorded (written : List (WriteLabel Id × ArtifactVersion Id))
    (labels : List (WriteLabel Id)) (state : ArtifactState Id) : Prop where
  intact : Intact ids artifactsDir state
  calls : written.map Prod.fst = labels
  returned : results ids artifactsDir labels = written.map fun write ↦ .ok write.2
  writes : state.writes = written.map recorded
  paths : ∀ write ∈ written, write.2.path = write.1.request.path
  numbered : ∀ path, (historyOf written path).map (·.2.version) =
    List.range' 1 (historyOf written path).length
  journal : state.journal = (written.filter (·.1.entry ≠ .agent)).map Prod.snd

end Definitions

variable {ids : IdText Id} {artifactsDir : Key} {state : ArtifactState Id} {label : WriteLabel Id}
  {labels : List (WriteLabel Id)} {written : List (WriteLabel Id × ArtifactVersion Id)}
  {versions : List (ArtifactVersion Id)}

variable (ids) in
/-- A call in which no put fails returns what it allocates, and an agent has no journal. -/
theorem succeeds_spec (hsucceeds : label.succeeds = true)
    (hload : loadArtifactVersions artifactsDir state.store = .ok versions) :
    let version := allocate versions label.request label.newId label.createdAt
    let next := (writeSystem ids artifactsDir).next state label
    (writeArtifact ids artifactsDir state label).2 = .ok version ∧
      next.writes = state.writes ++ [⟨version, label.request.contents, true⟩] ∧
      next.journal = state.journal ++ if label.entry = .agent then [] else [version] := by
  intro version next
  simp only [WriteLabel.succeeds, Bool.and_eq_true, Bool.or_eq_true, decide_eq_true_eq] at hsucceeds
  obtain ⟨⟨hmetadata, hcontents⟩, hentry⟩ := hsucceeds
  by_cases hagent : label.entry = .agent
  · simp [next, version, writeSystem, writeArtifact, writeArtifactVersion, hload, hmetadata,
      hcontents, hagent, WriteLabel.succeeds]
  · simp [next, version, writeSystem, writeArtifact, writeArtifactVersion, hload, hmetadata,
      hcontents, hagent, hentry.resolve_left hagent, WriteLabel.succeeds]

omit [LinearOrder Id] in
theorem historyOf_concat (written : List (WriteLabel Id × ArtifactVersion Id))
    (write : WriteLabel Id × ArtifactVersion Id) (path : String) :
    historyOf (written ++ [write]) path =
      historyOf written path ++ if write.1.request.path = path then [write] else [] := by
  by_cases hpath : write.1.request.path = path <;> simp [historyOf, hpath]

omit [LinearOrder Id] in
theorem writesOf_recorded (hpaths : ∀ write ∈ written, write.2.path = write.1.request.path)
    (path : String) :
    writesOf (written.map recorded) path = (historyOf written path).map recorded := by
  rw [writesOf, historyOf, filter_map]
  congr 1
  refine filter_congr fun write hwrite ↦ ?_
  simp [recorded, hpaths write hwrite]

/-- The next version of a path is one more than it has. -/
theorem Recorded.allocate_version (hrecorded : Recorded ids artifactsDir written labels state)
    (label : WriteLabel Id)
    (hload : loadArtifactVersions artifactsDir state.store = .ok versions) :
    (allocate versions label.request label.newId label.createdAt).version =
      (historyOf written label.request.path).length + 1 := by
  obtain ⟨listed, hlisted, hversions⟩ := hrecorded.intact.listed.loadArtifactVersions_eq
  rw [hload, Except.ok.injEq] at hlisted
  subst hlisted
  -- the numbers of the listed versions of the path are those of its history
  have hnumber : ∀ number, number ∈ range' 1 (historyOf written label.request.path).length ↔
      ∃ version ∈ versions.filter (·.path = label.request.path), version.version = number := by
    intro number
    rw [← hrecorded.numbered]
    simp only [mem_map, mem_filter, hversions, hrecorded.writes, decide_eq_true_eq, historyOf]
    constructor
    · rintro ⟨write, ⟨hwrite, hpath⟩, rfl⟩
      exact ⟨write.2, ⟨⟨_, ⟨write, hwrite, rfl⟩, rfl⟩, (hrecorded.paths write hwrite).trans hpath⟩,
        rfl⟩
    · rintro ⟨version, ⟨⟨_, ⟨write, hwrite, rfl⟩, rfl⟩, hpath⟩, rfl⟩
      exact ⟨write, ⟨hwrite, (hrecorded.paths write hwrite).symm.trans hpath⟩, rfl⟩
  obtain ⟨hnone, hbest⟩ := maxByVersion_spec (versions.filter (·.path = label.request.path))
  simp only [mem_range'_1] at hnumber
  unfold allocate
  cases hmax : maxByVersion (versions.filter (·.path = label.request.path)) with
  | none =>
    have hzero := hnumber (historyOf written label.request.path).length
    rw [hnone hmax] at hzero
    simp only [not_mem_nil, false_and, exists_false, iff_false] at hzero
    simp only [Option.elim_none]
    omega
  | some best =>
    obtain ⟨hmem, hle⟩ := hbest best hmax
    have hbound := (hnumber best.version).2 ⟨best, hmem, rfl⟩
    obtain ⟨last, hlast, hnumber'⟩ := (hnumber (historyOf written label.request.path).length).1
      (by omega)
    have hlast' := hle last hlast
    simp only [Option.elim_some]
    omega

theorem recorded_init : Recorded ids artifactsDir [] [] (.init : ArtifactState Id) where
  intact := intact_init
  calls := rfl
  returned := rfl
  writes := rfl
  paths := by simp
  numbered path := rfl
  journal := rfl

section
variable (hrecorded : Recorded ids artifactsDir written labels (after ids artifactsDir labels))
include hrecorded

/-- Another call that succeeds adds the next version of its path. -/
theorem Recorded.next
    (henabled : (writeSystem ids artifactsDir).enabled (after ids artifactsDir labels) label)
    (hsucceeds : label.succeeds = true) :
    ∃ version, Recorded ids artifactsDir (written ++ [(label, version)]) (labels ++ [label])
      ((writeSystem ids artifactsDir).next (after ids artifactsDir labels) label) := by
  obtain ⟨versions, hload, -⟩ := hrecorded.intact.listed.loadArtifactVersions_eq
  obtain ⟨hresult, hwrites, hjournal⟩ := succeeds_spec ids hsucceeds hload
  have hcompletes : Completes (after ids artifactsDir labels) label := by
    have hputs := hsucceeds
    simp only [WriteLabel.succeeds, Bool.and_eq_true] at hputs
    exact fun _ ↦ ⟨hputs.1.2, .inl hsucceeds⟩
  refine ⟨allocate versions label.request label.newId label.createdAt, ?_⟩
  constructor
  · exact hrecorded.intact.next henabled hcompletes
  · simp [hrecorded.calls]
  · have hcollect := System.collect_snoc (writeSystem ids artifactsDir) (fun state label ↦
      [(writeArtifact ids artifactsDir state label).2]) .init labels label
    rw [results, hcollect, map_append, ← hrecorded.returned]
    exact congrArg (results ids artifactsDir labels ++ [·]) hresult
  · rw [hwrites, hrecorded.writes, map_append]
    rfl
  · intro write hwrite
    rcases mem_append.1 hwrite with hwrite | hwrite
    · exact hrecorded.paths write hwrite
    · rw [mem_singleton.1 hwrite]
      rfl
  · intro path
    rw [historyOf_concat]
    split_ifs with hpath
    · have hversion := hrecorded.allocate_version label hload
      rw [hpath] at hversion
      rw [map_append, hrecorded.numbered, length_append, length_singleton, range'_concat]
      simp [hversion, Nat.add_comm]
    · simpa using hrecorded.numbered path
  · rw [hjournal, hrecorded.journal, filter_append, map_append]
    by_cases hagent : label.entry = .agent <;> simp [hagent]

/-- What the run keeps is what the readers see. -/
theorem Recorded.linear : LinearHistory ids artifactsDir labels written := by
  have hlisted := hrecorded.intact.listed
  have hmem : ∀ write ∈ written, recorded write ∈ (after ids artifactsDir labels).writes :=
    fun write hwrite ↦ hrecorded.writes ▸ mem_map_of_mem hwrite
  have hcontents : ∀ write ∈ written, loadArtifactContents ids artifactsDir
      (after ids artifactsDir labels).store write.2.artifactId write.2.version =
        .ok write.1.request.contents := fun write hwrite ↦
    (hlisted.loadArtifactContents_eq (hmem write hwrite) _).2
      ⟨rfl, hrecorded.intact.readable _ (hmem write hwrite)⟩
  refine ⟨hrecorded.calls, hrecorded.returned, hrecorded.paths, ?_, hrecorded.numbered, ?_, ?_, ?_,
    hrecorded.journal⟩
  · exact fun write hwrite other hother ↦
      hlisted.paths _ (hmem write hwrite) _ (hmem other hother)
  · obtain ⟨versions, hload, hversions⟩ := hlisted.loadArtifactVersions_eq
    refine ⟨versions, hload, fun version ↦ ?_⟩
    rw [hversions, hrecorded.writes]
    simp [recorded]
  · intro write hwrite
    refine (hlisted.readArtifact_version (hmem write hwrite)).trans ?_
    exact congrArg (Except.map _) (hcontents write hwrite)
  · intro path write hwrite
    have hnewest : recorded write ∈
        (writesOf (after ids artifactsDir labels).writes path).getLast? := by
      rw [hrecorded.writes, writesOf_recorded hrecorded.paths, getLast?_map]
      exact Option.mem_map_of_mem recorded hwrite
    have hhistory := mem_filter.1 (mem_of_getLast? hwrite)
    refine (hlisted.readArtifact_newest hnewest (mem_of_getLast? hnewest)).trans ?_
    exact congrArg (Except.map _) (hcontents write hhistory.1)

end

/-- Calls through the handles of which no put fails make one linear history of every path. -/
theorem linear_history (hrun : (writeSystem ids artifactsDir).Admits ArtifactState.init labels)
    (hsucceeds : ∀ label ∈ labels, label.succeeds = true) :
    ∃ written, LinearHistory ids artifactsDir labels written := by
  have hrecorded : (∀ label ∈ labels, label.succeeds = true) → ∃ written,
      Recorded ids artifactsDir written labels (after ids artifactsDir labels) := by
    refine System.traceInvariant (fun labels state ↦ (∀ label ∈ labels, label.succeeds = true) →
      ∃ written, Recorded ids artifactsDir written labels state) .init ?_ ?_ hrun
    · exact fun _ ↦ ⟨[], recorded_init⟩
    · intro labels label _ hrecorded henabled hsucceeds
      obtain ⟨written, hrecorded⟩ := hrecorded fun other hother ↦
        hsucceeds other (mem_append_left _ hother)
      obtain ⟨version, hnext⟩ := hrecorded.next henabled
        (hsucceeds label (mem_append_right _ (mem_singleton_self _)))
      exact ⟨_, hnext⟩
  obtain ⟨written, hrecorded⟩ := hrecorded hsucceeds
  exact ⟨written, hrecorded.linear⟩

/-- A path written twice, with another one between, through three handles. -/
def interleavedWrites : List (WriteLabel (Fin (2 ^ 128))) :=
  [⟨.turn, ⟨"notes.md", [104, 105]⟩, 1, 0, ⟨true, true, true⟩⟩,
    ⟨.agent, ⟨"todo.md", []⟩, 2, 1, ⟨true, true, true⟩⟩,
    ⟨.conversation, ⟨"notes.md", [104, 111]⟩, 3, 2, ⟨true, true, true⟩⟩]

theorem linear_history_interleavedWrites : ∃ written,
    LinearHistory uuidText "artifacts".toList interleavedWrites written :=
  linear_history (by decide +kernel) (by decide)

end Exo.Artifacts
