import Exo.Agents.Registry

/-!
# The slug index

As long as every record is reserved by its marker and every marker by a record, creation refuses
exactly the slugs of the listed agents.  Two things break this.  An ambiguous slug reserves the
marker of other slugs as well.  A failure between the two writes of a creation, or between the
marker and the record of a deletion, leaves a listed agent whose slug is free.
-/

namespace Exo.Agents

open Storage Library Option

variable {Id : Type} {ids : IdText Id} {store : AgentStore Id}

section
variable (ids : IdText Id) (store : AgentStore Id)

/-- Records and markers belong together, and no record's slug is ambiguous. -/
structure Indexed : Prop where
  shaped : Shaped ids store
  marked : ∀ record, Live ids store record → slugMarkerPath record.slug ∈ store
  backed : ∀ slug, slugMarkerPath slug ∈ store →
    ∃ record, Live ids store record ∧ encode record.slug = encode slug
  unambiguous : ∀ record, Live ids store record → ¬ Ambiguous record.slug
  distinct : ∀ record other, Live ids store record → Live ids store other →
    record.slug = other.slug → record = other

/-- A call that leaves the index in step with the records: a creation puts the marker of a record
it has put and its slug is not ambiguous; a deletion that has removed the marker gets as far as the
record. -/
def KeepsIndex : Label Id → Prop
  | .newAgent _ request fault =>
    slugMarkerPath request.slug ∉ store → fault ≠ some 0 → fault ≠ some 1 ∧ ¬ Ambiguous request.slug
  | .deleteAgent id fault =>
    recordPath ids id ∈ store → fault ≠ some 0 →
      recordPath ids id ∈ reached (store.listKeys (agentDir ids id)) (fault.map (· - 1))
  | .putObject _ _ => True
  | .deleteObject _ _ => True

end

instance (ids : IdText Id) (store : AgentStore Id) (label : Label Id) :
    Decidable (KeepsIndex ids store label) :=
  match label with
  | .newAgent _ _ _ => inferInstanceAs (Decidable (_ → _ → _ ∧ _))
  | .deleteAgent _ _ => inferInstanceAs (Decidable (_ → _ → _))
  | .putObject _ _ | .deleteObject _ _ => isTrue trivial

theorem Indexed.empty : Indexed ids (∅ : AgentStore Id) where
  shaped key object hobject := by simp at hobject
  marked record hlive := by simp [Live] at hlive
  backed slug hmarker := absurd hmarker (AList.notMem_empty _)
  unambiguous record hlive := by simp [Live] at hlive
  distinct record other hlive := by simp [Live] at hlive

/-- The index only depends on the records and the markers. -/
theorem Indexed.of_lookup_eq {after : AgentStore Id} (hindexed : Indexed ids store)
    (hshaped : Shaped ids after)
    (hrecord : ∀ id, after.lookup (recordPath ids id) = store.lookup (recordPath ids id))
    (hmarker : ∀ slug, after.lookup (slugMarkerPath slug) = store.lookup (slugMarkerPath slug)) :
    Indexed ids after := by
  have hlive : ∀ record, Live ids after record ↔ Live ids store record := by
    intro record
    rw [Live, Live, hrecord]
  have hmem : ∀ slug, slugMarkerPath slug ∈ after ↔ slugMarkerPath slug ∈ store := by
    intro slug
    rw [← AList.lookup_isSome, ← AList.lookup_isSome, hmarker]
  refine ⟨hshaped, ?_, ?_, ?_, ?_⟩
  · intro record hrecord
    exact (hmem _).2 (hindexed.marked record ((hlive record).1 hrecord))
  · intro slug hslug
    obtain ⟨record, hrecord, hencode⟩ := hindexed.backed slug ((hmem slug).1 hslug)
    exact ⟨record, (hlive record).2 hrecord, hencode⟩
  · intro record hrecord
    exact hindexed.unambiguous record ((hlive record).1 hrecord)
  · intro record other hrecord hother
    exact hindexed.distinct record other ((hlive record).1 hrecord) ((hlive other).1 hother)

theorem Indexed.slug_ne (hindexed : Indexed ids store) {slug : List Char}
    (hfree : slugMarkerPath slug ∉ store) {record : AgentRecord Id}
    (hlive : Live ids store record) : encode record.slug ≠ encode slug := by
  intro hencode
  have hmarker := hindexed.marked record hlive
  rw [slugMarkerPath_inj.2 hencode] at hmarker
  exact hfree hmarker

/-! ## Creation -/

section Creation
variable {id : Id} {request : NewAgentRequest Id}

theorem live_created (hindex : ids.parse indexName = none) (hid : recordPath ids id ∉ store)
    {record : AgentRecord Id} :
    Live ids (created ids store id request) record ↔
      record = request.record id ∨ Live ids store record := by
  have hpath : recordPath ids record.id ≠ slugMarkerPath request.slug :=
    (slugMarkerPath_ne_recordPath hindex _ record.id).symm
  rw [Live, created, AList.lookup_insert_ne hpath]
  by_cases hsame : record.id = id
  · have hstored : ¬ Live ids store record := by
      rw [Live, hsame, AList.lookup_eq_none.2 hid]
      simp
    rw [hsame, AList.lookup_insert, some.injEq, AgentObject.record.injEq]
    simp [hstored, eq_comm]
  · have hne : record ≠ request.record id := fun heq ↦ hsame (congrArg AgentRecord.id heq)
    rw [AList.lookup_insert_ne fun heq ↦ hsame (recordPath_inj.1 heq)]
    simp [hne, Live]

theorem slugMarkerPath_mem_created (hindex : ids.parse indexName = none) {slug : List Char} :
    slugMarkerPath slug ∈ created ids store id request ↔
      encode slug = encode request.slug ∨ slugMarkerPath slug ∈ store := by
  rw [created, AList.mem_insert, AList.mem_insert, slugMarkerPath_inj]
  simp [slugMarkerPath_ne_recordPath hindex]

theorem Shaped.insertAgent (hshaped : Shaped ids store) :
    Shaped ids (created ids store id request) := by
  intro key object hobject
  rw [created] at hobject
  by_cases hmarker : key = slugMarkerPath request.slug
  · rw [hmarker, AList.lookup_insert] at hobject
    exact .inr (.inl ⟨request.slug, id, hmarker, (some.inj hobject).symm⟩)
  · rw [AList.lookup_insert_ne hmarker] at hobject
    by_cases hrecord : key = recordPath ids id
    · rw [hrecord, AList.lookup_insert] at hobject
      exact .inl ⟨request.record id, hrecord, (some.inj hobject).symm⟩
    · rw [AList.lookup_insert_ne hrecord] at hobject
      exact hshaped key object hobject

theorem Indexed.insertAgent (hindex : ids.parse indexName = none) (hindexed : Indexed ids store)
    (hid : recordPath ids id ∉ store) (hfree : slugMarkerPath request.slug ∉ store)
    (hslug : ¬ Ambiguous request.slug) : Indexed ids (created ids store id request) := by
  refine ⟨hindexed.shaped.insertAgent, ?_, ?_, ?_, ?_⟩
  · intro record hrecord
    rw [slugMarkerPath_mem_created hindex]
    rcases (live_created hindex hid).1 hrecord with rfl | hstored
    · exact .inl rfl
    · exact .inr (hindexed.marked record hstored)
  · intro slug hmarker
    rcases (slugMarkerPath_mem_created hindex).1 hmarker with hencode | hstored
    · exact ⟨request.record id, (live_created hindex hid).2 (.inl rfl), hencode.symm⟩
    · obtain ⟨record, hrecord, hencode⟩ := hindexed.backed slug hstored
      exact ⟨record, (live_created hindex hid).2 (.inr hrecord), hencode⟩
  · intro record hrecord
    rcases (live_created hindex hid).1 hrecord with rfl | hstored
    · exact hslug
    · exact hindexed.unambiguous record hstored
  · intro record other hrecord hother heq
    rcases (live_created hindex hid).1 hrecord with rfl | hrecord <;>
      rcases (live_created hindex hid).1 hother with rfl | hother
    · rfl
    · exact absurd (congrArg encode heq.symm) (hindexed.slug_ne hfree hother)
    · exact absurd (congrArg encode heq) (hindexed.slug_ne hfree hrecord)
    · exact hindexed.distinct record other hrecord hother heq

end Creation

/-! ## Deletion -/

variable {id : Id}

theorem not_mem_reached_of_ne {other : Id} (hne : other ≠ id) (fault : Option ℕ) :
    recordPath ids other ∉ reached (store.listKeys (agentDir ids id)) fault := by
  intro hmem
  have hunder := (ObjectStore.mem_listKeys.1 (reached_subset hmem)).2
  exact hne (under_agentDir_recordPath.1 hunder).symm

theorem marker_not_mem_reached (hindex : ids.parse indexName = none) (id : Id) (slug : List Char)
    (fault : Option ℕ) :
    slugMarkerPath slug ∉ reached (store.listKeys (agentDir ids id)) fault := by
  intro hmem
  have hunder := (ObjectStore.mem_listKeys.1 (reached_subset hmem)).2
  exact not_under_slugMarkerPath hindex id slug hunder

section Removal
variable {record : AgentRecord Id} {fault : Option ℕ}

section
variable (hindex : ids.parse indexName = none) (hlive : Live ids store record)
  (hfault : fault ≠ some 0)
include hindex hlive hfault

theorem live_removed (hreached : recordPath ids record.id ∈
      reached (store.listKeys (agentDir ids record.id)) (fault.map (· - 1)))
    {other : AgentRecord Id} :
    Live ids (deleteAgent ids store record.id fault).2 other ↔
      Live ids store other ∧ other.id ≠ record.id := by
  rw [Live, lookup_deleteAgent_record hindex hlive hfault,
    if_neg (slugMarkerPath_ne_recordPath hindex record.slug other.id).symm]
  by_cases hsame : other.id = record.id
  · rw [hsame, if_pos hreached]
    simp
  · rw [if_neg (not_mem_reached_of_ne hsame _)]
    simp [hsame, Live]

theorem slugMarkerPath_mem_removed {slug : List Char} :
    slugMarkerPath slug ∈ (deleteAgent ids store record.id fault).2 ↔
      slugMarkerPath slug ∈ store ∧ encode slug ≠ encode record.slug := by
  rw [← AList.lookup_isSome, lookup_deleteAgent_record hindex hlive hfault,
    if_neg (marker_not_mem_reached hindex _ _ _), ← AList.lookup_isSome]
  by_cases hsame : encode slug = encode record.slug
  · rw [if_pos (slugMarkerPath_inj.2 hsame)]
    simp [hsame]
  · rw [if_neg fun heq ↦ hsame (slugMarkerPath_inj.1 heq)]
    simp [hsame]

end

theorem Indexed.removed (hindex : ids.parse indexName = none) (hindexed : Indexed ids store)
    (hlive : Live ids store record) (hfault : fault ≠ some 0)
    (hreached : recordPath ids record.id ∈
      reached (store.listKeys (agentDir ids record.id)) (fault.map (· - 1))) :
    Indexed ids (deleteAgent ids store record.id fault).2 := by
  have hafter : ∀ other, Live ids (deleteAgent ids store record.id fault).2 other ↔
      Live ids store other ∧ other.id ≠ record.id :=
    fun _ ↦ live_removed hindex hlive hfault hreached
  refine ⟨?_, ?_, ?_, ?_, ?_⟩
  · refine hindexed.shaped.of_subset fun key object hobject ↦ ?_
    rw [lookup_deleteAgent_record hindex hlive hfault] at hobject
    split_ifs at hobject
    exact hobject
  · intro other hother
    obtain ⟨hstored, hne⟩ := (hafter other).1 hother
    refine (slugMarkerPath_mem_removed hindex hlive hfault).2
      ⟨hindexed.marked other hstored, fun hencode ↦ hne ?_⟩
    have hslug := encode_inj_of_not_ambiguous (hindexed.unambiguous record hlive) hencode
    rw [hindexed.distinct other record hstored hlive hslug]
  · intro slug hmarker
    obtain ⟨hstored, hne⟩ := (slugMarkerPath_mem_removed hindex hlive hfault).1 hmarker
    obtain ⟨other, hother, hencode⟩ := hindexed.backed slug hstored
    refine ⟨other, (hafter other).2 ⟨hother, fun hsame ↦ hne ?_⟩, hencode⟩
    have heq : other = record := by
      rw [Live, hsame] at hother
      simpa using hother.symm.trans hlive
    rw [← hencode, heq]
  · intro other hother
    exact hindexed.unambiguous other ((hafter other).1 hother).1
  · intro other another hother hanother
    exact hindexed.distinct other another ((hafter other).1 hother).1
      ((hafter another).1 hanother).1

end Removal

section
variable (hindex : ids.parse indexName = none) (hindexed : Indexed ids store)
include hindex hindexed

/-- Deleting the remains of an agent without a record touches neither records nor markers. -/
theorem Indexed.swept (habsent : recordPath ids id ∉ store) (fault : Option ℕ) :
    Indexed ids (deleteAgent ids store id fault).2 := by
  refine hindexed.of_lookup_eq (hindexed.shaped.of_subset fun key object hobject ↦ ?_) ?_ ?_
  · rw [lookup_deleteAgent_absent habsent] at hobject
    split_ifs at hobject
    exact hobject
  · intro other
    rw [lookup_deleteAgent_absent habsent]
    by_cases hsame : other = id
    · rw [hsame, AList.lookup_eq_none.2 habsent, ite_self]
    · rw [if_neg (not_mem_reached_of_ne hsame fault)]
  · intro slug
    rw [lookup_deleteAgent_absent habsent, if_neg (marker_not_mem_reached hindex id slug fault)]

/-! ## Every step -/

theorem Indexed.newAgent_step {request : NewAgentRequest Id} {fault : Option ℕ}
    (hid : recordPath ids id ∉ store) (hkeeps : KeepsIndex ids store (.newAgent id request fault)) :
    Indexed ids (newAgent ids store id request fault).2 := by
  by_cases hmarker : slugMarkerPath request.slug ∈ store
  · obtain ⟨object, hobject⟩ := isSome_iff_exists.1 (AList.lookup_isSome.2 hmarker)
    obtain ⟨holder, rfl⟩ := hindexed.shaped.marker hindex hobject
    rw [newAgent_refused hobject]
    exact hindexed
  · rw [newAgent_free hmarker]
    by_cases hfault : fault = some 0
    · rw [if_pos hfault]
      exact hindexed
    · obtain ⟨hput, hslug⟩ := hkeeps hmarker hfault
      rw [if_neg hfault, if_neg hput]
      exact hindexed.insertAgent hindex hid hmarker hslug

theorem Indexed.deleteAgent_step {fault : Option ℕ}
    (hkeeps : KeepsIndex ids store (.deleteAgent id fault)) :
    Indexed ids (deleteAgent ids store id fault).2 := by
  by_cases hrecord : recordPath ids id ∈ store
  · obtain ⟨object, hobject⟩ := isSome_iff_exists.1 (AList.lookup_isSome.2 hrecord)
    obtain ⟨record, rfl, rfl⟩ := hindexed.shaped.record hindex hobject
    by_cases hfault : fault = some 0
    · rw [hfault, deleteAgent_of_fault hobject]
      exact hindexed
    · exact hindexed.removed hindex hobject hfault (hkeeps hrecord hfault)
  · exact hindexed.swept hindex hrecord fault

theorem Indexed.step {label : Label Id} (henabled : (registry ids).enabled store label)
    (hkeeps : KeepsIndex ids store label) : Indexed ids ((registry ids).next store label) := by
  cases label with
  | newAgent id request fault => exact hindexed.newAgent_step hindex henabled hkeeps
  | deleteAgent id fault => exact hindexed.deleteAgent_step hindex hkeeps
  | putObject id rest =>
    have hpath : rest ≠ recordName := henabled
    refine hindexed.of_lookup_eq ?_ ?_ ?_
    · intro key object hobject
      by_cases hkey : key = (agentDir ids id).join rest
      · exact .inr (.inr ⟨id, rest, hkey, hpath⟩)
      · exact hindexed.shaped key object ((AList.lookup_insert_ne hkey).symm.trans hobject)
    · intro other
      exact AList.lookup_insert_ne (recordPath_ne_join hpath)
    · intro slug
      exact AList.lookup_insert_ne (slugMarkerPath_ne_join hindex slug id rest)
  | deleteObject id rest =>
    have hpath : rest ≠ recordName := henabled
    refine hindexed.of_lookup_eq ?_ ?_ ?_
    · refine hindexed.shaped.of_subset fun key object hobject ↦ ?_
      by_cases hkey : key = (agentDir ids id).join rest
      · have hgone : (store.erase ((agentDir ids id).join rest)).lookup key = none := by
          rw [hkey, AList.lookup_erase]
        exact absurd (hgone.symm.trans hobject) (by simp)
      · exact (AList.lookup_erase_ne hkey).symm.trans hobject
    · intro other
      exact AList.lookup_erase_ne (recordPath_ne_join hpath)
    · intro slug
      exact AList.lookup_erase_ne (slugMarkerPath_ne_join hindex slug id rest)

end

/-! ## The index is exact -/

section Exactness

/-- Creation is refused because the slug exists. -/
def Refused (ids : IdText Id) (store : AgentStore Id) (id : Id) (request : NewAgentRequest Id) :
    Prop :=
  (newAgent ids store id request none).1 = .error (.slugAlreadyExists request.slug)

theorem Shaped.refused_iff (hshaped : Shaped ids store) (hindex : ids.parse indexName = none)
    {id : Id} {request : NewAgentRequest Id} :
    Refused ids store id request ↔ slugMarkerPath request.slug ∈ store := by
  by_cases hmarker : slugMarkerPath request.slug ∈ store
  · obtain ⟨object, hobject⟩ := isSome_iff_exists.1 (AList.lookup_isSome.2 hmarker)
    obtain ⟨holder, rfl⟩ := hshaped.marker hindex hobject
    rw [Refused, newAgent_refused hobject]
    simp [hmarker]
  · rw [Refused, newAgent_free hmarker]
    simp [hmarker]

theorem Indexed.marker_mem_iff (hindexed : Indexed ids store) {slug : List Char} :
    slugMarkerPath slug ∈ store ↔ ∃ record, Live ids store record ∧ record.slug = slug := by
  constructor
  · intro hmarker
    obtain ⟨record, hlive, hencode⟩ := hindexed.backed slug hmarker
    have hslug := encode_inj_of_not_ambiguous (hindexed.unambiguous record hlive) hencode.symm
    exact ⟨record, hlive, hslug.symm⟩
  · rintro ⟨record, hlive, rfl⟩
    exact hindexed.marked record hlive

variable [LinearOrder Id]

section
variable (ids : IdText Id) (store : AgentStore Id)

/-- Creation is refused for exactly the slugs of the listed agents. -/
def Exact : Prop :=
  ∃ records, listAgents ids store = .ok records ∧
    ∀ id request, Refused ids store id request ↔ request.slug ∈ records.map (·.slug)

/-- Deleting a listed agent makes exactly its own slug available. -/
def FreesOwnSlug : Label Id → Prop
  | .deleteAgent id fault => ∀ records, listAgents ids store = .ok records →
    ∀ record ∈ records, record.id = id → ∀ newId request,
      Refused ids (deleteAgent ids store id fault).2 newId request ↔
        Refused ids store newId request ∧ request.slug ≠ record.slug
  | _ => True

/-- The call leaves an exact index, and a deletion frees what it should. -/
def ExactStep (label : Label Id) : Prop :=
  FreesOwnSlug ids store label ∧ Exact ids ((registry ids).next store label)

end

/-- No write of the call fails. -/
def NoFault (_ : AgentStore Id) : Label Id → Prop
  | .newAgent _ _ fault => fault = none
  | .deleteAgent _ fault => fault = none
  | _ => True

/-- A creation asks for a slug that shares its marker with no other slug. -/
def AsksUnambiguous (_ : AgentStore Id) : Label Id → Prop
  | .newAgent _ request _ => ¬ Ambiguous request.slug
  | _ => True

instance (store : AgentStore Id) (label : Label Id) : Decidable (NoFault store label) :=
  match label with
  | .newAgent _ _ fault => inferInstanceAs (Decidable (fault = none))
  | .deleteAgent _ fault => inferInstanceAs (Decidable (fault = none))
  | .putObject _ _ | .deleteObject _ _ => isTrue trivial

instance (store : AgentStore Id) (label : Label Id) : Decidable (AsksUnambiguous store label) :=
  match label with
  | .newAgent _ request _ => inferInstanceAs (Decidable (¬ Ambiguous request.slug))
  | .deleteAgent _ _ | .putObject _ _ | .deleteObject _ _ => isTrue trivial

theorem Indexed.exact (hindex : ids.parse indexName = none) (hindexed : Indexed ids store) :
    Exact ids store := by
  obtain ⟨records, hlist, -, hrecords⟩ := hindexed.shaped.listAgents_eq hindex
  refine ⟨records, hlist, fun id request ↦ ?_⟩
  rw [hindexed.shaped.refused_iff hindex, hindexed.marker_mem_iff, List.mem_map]
  simp [hrecords]

/-- A single component, neither the directory itself nor its parent. -/
def SingleComponent (name : List Char) : Prop :=
  name ≠ [] ∧ name ≠ ['.'] ∧ name ≠ ['.', '.'] ∧ '/' ∉ name

theorem singleComponent_slugMarkerName (slug : List Char) :
    SingleComponent (slugMarkerName slug) := by
  have hlength : 5 ≤ (slugMarkerName slug).length := by
    simp [slugMarkerName, slugSuffix]
  refine ⟨?_, ?_, ?_, ?_⟩
  · intro hname
    simp [hname] at hlength
  · intro hname
    simp [hname] at hlength
  · intro hname
    simp [hname] at hlength
  · intro hmem
    rw [slugMarkerName, List.mem_append] at hmem
    rcases hmem with hmem | hmem
    · rcases mem_encode hmem with hslash | hslash
      · exact absurd hslash (by decide)
      · exact hslash (by decide)
    · exact absurd hmem (by decide)

variable {label : Label Id}

omit [LinearOrder Id] in
theorem keepsIndex_of_noFault (hfault : NoFault store label) (hslug : AsksUnambiguous store label) :
    KeepsIndex ids store label := by
  cases label with
  | newAgent id request fault =>
    obtain rfl : fault = none := hfault
    exact fun _ _ ↦ ⟨by simp, hslug⟩
  | deleteAgent id fault =>
    obtain rfl : fault = none := hfault
    exact fun hrecord _ ↦
      ObjectStore.mem_listKeys.2 ⟨hrecord, under_agentDir_recordPath.2 rfl⟩
  | putObject id rest => trivial
  | deleteObject id rest => trivial

section
variable (hindex : ids.parse indexName = none) (hindexed : Indexed ids store)
include hindex hindexed

theorem Indexed.freesOwnSlug (hfault : NoFault store label) : FreesOwnSlug ids store label := by
  cases label with
  | newAgent id request fault => trivial
  | putObject id rest => trivial
  | deleteObject id rest => trivial
  | deleteAgent id fault =>
    obtain rfl : fault = none := hfault
    rintro records hlist record hrecord rfl newId request
    obtain ⟨listed, hlisted, -, hlive⟩ := hindexed.shaped.listAgents_eq hindex
    obtain rfl : listed = records := Except.ok.inj (hlisted.symm.trans hlist)
    have hstored := (hlive record).1 hrecord
    have hafter : Indexed ids (deleteAgent ids store record.id none).2 :=
      hindexed.deleteAgent_step hindex (keepsIndex_of_noFault rfl trivial)
    rw [hafter.shaped.refused_iff hindex, hindexed.shaped.refused_iff hindex,
      slugMarkerPath_mem_removed hindex hstored (by simp)]
    have hencode : encode request.slug = encode record.slug ↔ request.slug = record.slug :=
      ⟨encode_inj_of_not_ambiguous (hindexed.unambiguous record hstored), congrArg encode⟩
    simp only [ne_eq, hencode]

/-- Creating an ambiguous slug also reserves a slug no agent has. -/
theorem Indexed.not_exact_created {id : Id} {request : NewAgentRequest Id}
    (hid : recordPath ids id ∉ store) (hslug : Ambiguous request.slug) :
    ¬ Exact ids (newAgent ids store id request none).2 := by
  rintro ⟨records, hlist, hexact⟩
  obtain ⟨other, hne, hencode⟩ := ambiguous_iff.1 hslug
  have hother : Ambiguous other := ambiguous_iff.2 ⟨request.slug, hne.symm, hencode.symm⟩
  have hfree : slugMarkerPath request.slug ∉ store := by
    intro hmarker
    obtain ⟨record, hlive, heq⟩ := hindexed.marker_mem_iff.1 hmarker
    exact hindexed.unambiguous record hlive (heq ▸ hslug)
  have hafter : (newAgent ids store id request none).2 = created ids store id request := by
    rw [newAgent_free hfree]
    rfl
  have hshaped : Shaped ids (created ids store id request) := hindexed.shaped.insertAgent
  rw [hafter] at hlist hexact
  obtain ⟨listed, hlisted, -, hlive⟩ := hshaped.listAgents_eq hindex
  obtain rfl : listed = records := Except.ok.inj (hlisted.symm.trans hlist)
  have hrefused : Refused ids (created ids store id request) id { request with slug := other } :=
    (hshaped.refused_iff hindex).2 ((slugMarkerPath_mem_created hindex).2 (.inl hencode))
  obtain ⟨record, hrecord, hlisted⟩ := List.mem_map.1 ((hexact _ _).1 hrefused)
  have heq : record.slug = other := hlisted
  rcases (live_created hindex hid).1 ((hlive record).1 hrecord) with rfl | hstored
  · exact hne heq.symm
  · rw [← heq] at hother
    exact hindexed.unambiguous record hstored hother

theorem Indexed.exactStep_iff (henabled : (registry ids).enabled store label)
    (hfault : NoFault store label) : ExactStep ids store label ↔ AsksUnambiguous store label := by
  constructor
  · rintro ⟨-, hexact⟩
    cases label with
    | newAgent id request fault =>
      obtain rfl : fault = none := hfault
      exact fun hslug ↦ hindexed.not_exact_created hindex henabled hslug hexact
    | deleteAgent id fault => trivial
    | putObject id rest => trivial
    | deleteObject id rest => trivial
  · intro hslug
    have hafter := hindexed.step hindex henabled (keepsIndex_of_noFault hfault hslug)
    exact ⟨hindexed.freesOwnSlug hindex hfault, hafter.exact hindex⟩

end

/-- **The slug index.**  A slug's marker is always a single component of the index directory, and
no other slug has it exactly if the slug is not ambiguous.  In every run without storage failures
the index is exact at every step if and only if no creation asks for an ambiguous slug. -/
theorem slugIndex_exact_iff (hindex : ids.parse indexName = none) {labels : List (Label Id)}
    (hrun : ((registry ids).restrict NoFault).Admits ∅ labels) :
    (∀ slug, slugMarkerPath slug = slugIndexDir.join (slugMarkerName slug) ∧
      SingleComponent (slugMarkerName slug)) ∧
    (∀ slug, (∀ other, slugMarkerPath other = slugMarkerPath slug → other = slug) ↔
      ¬ Ambiguous slug) ∧
    (((registry ids).restrict NoFault).Throughout (ExactStep ids) ∅ labels ↔
      ((registry ids).restrict NoFault).Throughout AsksUnambiguous ∅ labels) := by
  refine ⟨fun slug ↦ ⟨rfl, singleComponent_slugMarkerName slug⟩, fun slug ↦ ?_, ?_⟩
  · rw [ambiguous_iff]
    push Not
    constructor
    · intro hinj other hne hencode
      exact hne (hinj other (slugMarkerPath_inj.2 hencode))
    · intro hinj other hpath
      by_contra hne
      exact hinj other hne (slugMarkerPath_inj.1 hpath)
  · refine System.throughout_congr (Indexed ids) ?_ ?_ Indexed.empty hrun
    · intro store label hindexed hlabel
      exact hindexed.exactStep_iff hindex hlabel.1 hlabel.2
    · intro store label hindexed hlabel hslug
      exact hindexed.step hindex hlabel.1 (keepsIndex_of_noFault hlabel.2 hslug)

end Exactness

/-- The request of an agent with this slug. -/
def requestFor (slug : String) : NewAgentRequest (Fin (2 ^ 128)) := ⟨slug.toList, "agent", []⟩

/-- A run with a reserved character in a slug, a second agent and a deletion. -/
theorem slugIndex_exact_iff_run :
    ((registry uuidText).restrict NoFault).Throughout (ExactStep uuidText) ∅
      [.newAgent 1 (requestFor "who knows?") none, .newAgent 2 (requestFor "main") none,
        .putObject 1 "sandboxes/1.json".toList, .deleteAgent 1 none] :=
  ((slugIndex_exact_iff (by decide +kernel) (by decide +kernel)).2.2).2 (by decide +kernel)

/-- After an agent `" 0"` was created, the slug `"Ȁ"` is refused although no agent has it: both are
encoded as `%200`. -/
theorem slugIndex_not_exact : ¬ ∀ labels, ((registry uuidText).restrict NoFault).Admits ∅ labels →
      ((registry uuidText).restrict NoFault).Throughout (ExactStep uuidText) ∅ labels := by
  intro hall
  have hrun := hall [.newAgent 1 (requestFor " 0") none] (by decide +kernel)
  have hindex : uuidText.parse indexName = none := by decide +kernel
  have hid : recordPath uuidText 1 ∉ (∅ : AgentStore (Fin (2 ^ 128))) := AList.notMem_empty _
  exact Indexed.empty.not_exact_created hindex hid (by decide +kernel) hrun.1.2

/-! ## Slugs stay unique -/

section Uniqueness
variable [LinearOrder Id]

section
variable (ids : IdText Id) (store : AgentStore Id)

/-- The listed agents have different slugs. -/
def SlugsUnique : Prop :=
  ∃ records, listAgents ids store = .ok records ∧ (records.map (·.slug)).Nodup

/-- With working storage, a slug no listed agent has can be created and is listed afterwards. -/
def Creatable : Prop :=
  ∀ records, listAgents ids store = .ok records → ∀ id request, recordPath ids id ∉ store →
    request.slug ∉ records.map (·.slug) →
      (newAgent ids store id request none).1 = .ok (request.record id) ∧
        ∃ after, listAgents ids (newAgent ids store id request none).2 = .ok after ∧
          request.record id ∈ after

end

section
variable (hindex : ids.parse indexName = none) (hindexed : Indexed ids store)
include hindex hindexed

theorem Indexed.slugsUnique : SlugsUnique ids store := by
  obtain ⟨records, hlist, hnodup, hrecords⟩ := hindexed.shaped.listAgents_eq hindex
  refine ⟨records, hlist, hnodup.map_on ?_⟩
  intro record hrecord other hother heq
  exact hindexed.distinct record other ((hrecords record).1 hrecord) ((hrecords other).1 hother) heq

theorem Indexed.creatable : Creatable ids store := by
  intro records hlist id request hid hslug
  obtain ⟨listed, hlisted, -, hlive⟩ := hindexed.shaped.listAgents_eq hindex
  obtain rfl : listed = records := Except.ok.inj (hlisted.symm.trans hlist)
  have hfree : slugMarkerPath request.slug ∉ store := by
    intro hmarker
    obtain ⟨record, hrecord, heq⟩ := hindexed.marker_mem_iff.1 hmarker
    exact hslug (List.mem_map.2 ⟨record, (hlive record).2 hrecord, heq⟩)
  have hresult : newAgent ids store id request none =
      (.ok (request.record id), created ids store id request) := newAgent_free hfree id none
  have hshaped : Shaped ids (created ids store id request) := hindexed.shaped.insertAgent
  obtain ⟨after, hafter, -, hrecords⟩ := hshaped.listAgents_eq hindex
  rw [hresult]
  exact ⟨rfl, after, hafter, (hrecords _).2 ((live_created hindex hid).2 (.inl rfl))⟩

end

/-- **Unique slugs under storage failures.**  In every run in which a creation that puts its record
also puts its marker, a deletion that removes the marker also removes the record, and no ambiguous
slug is created: the listed slugs are distinct, and every slug that is not listed can be created. -/
theorem slugs_unique_of_keepsIndex (hindex : ids.parse indexName = none) {labels : List (Label Id)}
    (hrun : ((registry ids).restrict (KeepsIndex ids)).Admits ∅ labels) :
    SlugsUnique ids ((registry ids).exec ∅ labels) ∧
      Creatable ids ((registry ids).exec ∅ labels) := by
  have hindexed : Indexed ids ((registry ids).exec ∅ labels) :=
    System.invariant_of_restrict (Indexed ids)
      (fun _ _ hindexed henabled hkeeps ↦ hindexed.step hindex henabled hkeeps)
      Indexed.empty hrun
  exact ⟨hindexed.slugsUnique hindex, hindexed.creatable hindex⟩

end Uniqueness

/-- A run with a failed record put, its retry, a failed marker delete, its retry and a deletion that
fails behind the record. -/
theorem slugs_unique_of_keepsIndex_run : let labels : List (Label (Fin (2 ^ 128))) :=
      [.newAgent 1 (requestFor "main") (some 0), .newAgent 2 (requestFor "main") none,
        .putObject 2 "sandboxes/1.json".toList, .deleteAgent 2 (some 0), .deleteAgent 2 (some 2),
        .newAgent 3 (requestFor "main") none]
    SlugsUnique uuidText ((registry uuidText).exec ∅ labels) ∧
      Creatable uuidText ((registry uuidText).exec ∅ labels) :=
  slugs_unique_of_keepsIndex (by decide +kernel) (by decide +kernel)

/-- A creation whose marker put fails leaves a listed agent without a marker; the retry creates a
second agent with the same slug. -/
theorem slugs_not_unique : ¬ ∀ labels, (registry uuidText).Admits ∅ labels →
      SlugsUnique uuidText ((registry uuidText).exec ∅ labels) ∧
        Creatable uuidText ((registry uuidText).exec ∅ labels) := by
  intro hall
  obtain ⟨⟨records, hlist, hnodup⟩, -⟩ := hall
    [.newAgent 1 (requestFor "main") (some 1), .newAgent 2 (requestFor "main") none]
    (by decide +kernel)
  have hrecords : listAgents uuidText ((registry uuidText).exec ∅
      [.newAgent 1 (requestFor "main") (some 1), .newAgent 2 (requestFor "main") none]) =
      .ok [(requestFor "main").record 1, (requestFor "main").record 2] := by
    decide +kernel
  obtain rfl := Except.ok.inj (hlist.symm.trans hrecords)
  exact absurd hnodup (by decide +kernel)

end Exo.Agents
