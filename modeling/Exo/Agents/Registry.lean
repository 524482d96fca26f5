import Mathlib.Data.List.Dedup
import Exo.Agents.Slugs
import Exo.Library.System
import Exo.Storage.ObjectStore

/-!
# The agent registry

An agent is its record under `agents/<id>`; a marker under `agents/by-slug` reserves its slug.
Creation reads the marker and then puts the record and the marker, in this order.  Deletion removes
the marker of the record it finds and then the objects below the agent's directory one by one, in
the order of their keys.  Both run under the write lock, so a call is one step; any of its puts and
deletes may fail, which ends the call where it stands.
-/

namespace Exo.Agents

open Storage Library List Option

variable {Id : Type}

structure AgentRecord (Id : Type) where
  id : Id
  slug : List Char
  name : String
  vaults : List Id
  deriving DecidableEq

structure NewAgentRequest (Id : Type) where
  slug : List Char
  name : String
  vaults : List Id

/-- What the keys below `agents` hold: agent records, slug markers, and the other objects of an
agent (its threads, artifacts, bindings and sandboxes). -/
inductive AgentObject (Id : Type) where
  | record (stored : AgentRecord Id)
  | marker (id : Id)
  | other

def AgentObject.asRecord : AgentObject Id → Option (AgentRecord Id)
  | .record stored => some stored
  | _ => none

def AgentObject.asMarker : AgentObject Id → Option Id
  | .marker id => some id
  | _ => none

inductive AgentError where
  | slugAlreadyExists (slug : List Char)
  | storage (error : StorageError)

abbrev AgentStore (Id : Type) := ObjectStore (AgentObject Id)

def agentsDir : Key := "agents".toList

def indexName : List Char := "by-slug".toList

def recordName : List Char := "record.json".toList

def slugSuffix : List Char := ".slug".toList

/-- The directory of the slug markers. -/
def slugIndexDir : Key := agentsDir.join indexName

/-- The file name of a slug's marker. -/
def slugMarkerName (slug : List Char) : List Char := encode slug ++ slugSuffix

def slugMarkerPath (slug : List Char) : Key := slugIndexDir.join (slugMarkerName slug)

section Operations
variable (ids : IdText Id)

def agentDir (id : Id) : Key := agentsDir.join (ids.text id)

def recordPath (id : Id) : Key := (agentDir ids id).join recordName

/-- `new_agent`.  `fault` is the number of puts that succeed before one fails. -/
def newAgent (store : AgentStore Id) (id : Id) (request : NewAgentRequest Id) (fault : Option ℕ) :
    Except AgentError (AgentRecord Id) × AgentStore Id :=
  let marker := slugMarkerPath request.slug
  match store.getJsonIfExists AgentObject.asMarker marker with
  | .error error => (.error (.storage error), store)
  | .ok (some _) => (.error (.slugAlreadyExists request.slug), store)
  | .ok none =>
    let record : AgentRecord Id := ⟨id, request.slug, request.name, request.vaults⟩
    if fault = some 0 then (.error (.storage (.failedToPut (recordPath ids id))), store)
    else
      let store := store.insert (recordPath ids id) (.record record)
      if fault = some 1 then (.error (.storage (.failedToPut marker)), store)
      else (.ok record, store.insert marker (.marker id))

/-- The loop of `delete_prefix`, in which a delete may fail. -/
def deleteKeys : List Key → Option ℕ → AgentStore Id → Except StorageError Unit × AgentStore Id
  | [], _, store => (.ok (), store)
  | key :: _, some 0, store => (.error (.failedToDelete key), store)
  | key :: keys, some (remaining + 1), store => deleteKeys keys (some remaining) (store.erase key)
  | key :: keys, none, store => deleteKeys keys none (store.erase key)

/-- `delete_prefix`. -/
def deletePrefix (directory : Key) (fault : Option ℕ) (store : AgentStore Id) :
    Except StorageError Unit × AgentStore Id :=
  deleteKeys (store.listKeys directory) fault store

/-- The part of `delete_agent` that runs under the write lock, once no sandbox is left.  A record
that is missing leaves the marker in place and the rest is deleted. -/
def deleteAgent (store : AgentStore Id) (id : Id) (fault : Option ℕ) :
    Except AgentError Bool × AgentStore Id :=
  if store.listKeys (agentDir ids id) = [] then (.ok false, store)
  else
    match store.getJsonIfExists AgentObject.asRecord (recordPath ids id) with
    | .error error => (.error (.storage error), store)
    | .ok (some record) =>
      let marker := slugMarkerPath record.slug
      if fault = some 0 then (.error (.storage (.failedToDelete marker)), store)
      else
        let result := deletePrefix (agentDir ids id) (fault.map (· - 1)) (store.erase marker)
        (result.1.map (fun _ ↦ true) |>.mapError .storage, result.2)
    | .ok none =>
      let result := deletePrefix (agentDir ids id) fault store
      (result.1.map (fun _ ↦ true) |>.mapError .storage, result.2)

/-- `list_directories`: the directories directly below one, sorted and without repetition. -/
def listDirectories (directory : Key) (store : AgentStore Id) : List Key :=
  let names := (store.listKeys directory).filterMap fun key ↦
    (splitOnce '/' (key.drop (directory.length + 1))).map (directory.join ·.1)
  names.dedup.insertionSort (· ≤ ·)

/-- The directories below `agents` whose name is an identifier. -/
def agentDirectories (store : AgentStore Id) : List Key :=
  (listDirectories agentsDir store).filter fun directory ↦
    (ids.parse (rsplitNext '/' directory)).isSome

/-- `list_agent_records`: the records of the agents' directories that have one. -/
def listAgentRecords [LinearOrder Id] (store : AgentStore Id) :
    Except StorageError (List (AgentRecord Id)) := do
  let records ← gather (fun directory : Key ↦
    (store.getJsonIfExists AgentObject.asRecord (directory.join recordName)).map Option.toList)
    (agentDirectories ids store)
  return records.insertionSort (·.id ≤ ·.id)

/-- `list_agents`, for a caller who may see every agent. -/
def listAgents [LinearOrder Id] (store : AgentStore Id) :
    Except StorageError (List (AgentRecord Id)) :=
  listAgentRecords ids store

end Operations

/-! ## Keys -/

theorem slash_not_mem_indexName : '/' ∉ indexName := by decide

/-- A key below a directory of `agents` determines the directory's name and the rest. -/
theorem agentsDir_join_inj {name other rest another : List Char} (hname : '/' ∉ name)
    (hother : '/' ∉ other)
    (hkey : (agentsDir.join name).join rest = (agentsDir.join other).join another) :
    name = other ∧ rest = another := by
  have hrest : name ++ '/' :: rest = other ++ '/' :: another := by
    simpa [Key.join] using hkey
  have hsplit := congrArg (splitOnce '/') hrest
  rw [splitOnce_append hname, splitOnce_append hother] at hsplit
  exact Prod.mk.inj (some.inj hsplit)

theorem slugMarkerPath_inj {slug other : List Char} :
    slugMarkerPath slug = slugMarkerPath other ↔ encode slug = encode other := by
  constructor
  · intro hpath
    have hname := (agentsDir_join_inj slash_not_mem_indexName slash_not_mem_indexName hpath).2
    exact append_cancel_right hname
  · intro hencode
    rw [slugMarkerPath, slugMarkerName, hencode]
    rfl

section Keys
variable {ids : IdText Id}

theorem slash_not_mem_text (id : Id) : '/' ∉ ids.text id := ids.not_mem_text (by decide) id

variable {id other : Id}

theorem agentDir_join_inj {rest another : List Char} :
    (agentDir ids id).join rest = (agentDir ids other).join another ↔
      id = other ∧ rest = another := by
  constructor
  · intro hkey
    have hparts := agentsDir_join_inj (slash_not_mem_text id) (slash_not_mem_text other) hkey
    exact ⟨ids.text_injective hparts.1, hparts.2⟩
  · rintro ⟨rfl, rfl⟩
    rfl

theorem recordPath_inj : recordPath ids id = recordPath ids other ↔ id = other := by
  simp [recordPath, agentDir_join_inj]

theorem recordPath_ne_join {rest : List Char} (hrest : rest ≠ recordName) :
    recordPath ids id ≠ (agentDir ids other).join rest :=
  fun hkey ↦ hrest (agentDir_join_inj.1 hkey).2.symm

theorem under_agentDir {key : Key} :
    Under (agentDir ids id) key ↔ ∃ rest, key = (agentDir ids id).join rest := by
  constructor
  · rintro ⟨rest, rfl⟩
    exact ⟨rest, by simp [Key.join]⟩
  · rintro ⟨rest, rfl⟩
    exact ⟨rest, by simp [Key.join]⟩

theorem under_agentDir_recordPath :
    Under (agentDir ids id) (recordPath ids other) ↔ id = other := by
  rw [under_agentDir]
  constructor
  · rintro ⟨rest, hkey⟩
    exact (agentDir_join_inj.1 hkey).1.symm
  · rintro rfl
    exact ⟨recordName, rfl⟩

section
variable (hindex : ids.parse indexName = none)
include hindex

theorem text_ne_indexName (id : Id) : ids.text id ≠ indexName := by
  intro htext
  have hparse := ids.parse_text id
  rw [htext, hindex] at hparse
  cases hparse

theorem slugMarkerPath_ne_join (slug : List Char) (id : Id)
    (rest : List Char) : slugMarkerPath slug ≠ (agentDir ids id).join rest := by
  intro hkey
  have hparts := agentsDir_join_inj slash_not_mem_indexName (slash_not_mem_text id) hkey
  exact text_ne_indexName hindex id hparts.1.symm

theorem slugMarkerPath_ne_recordPath (slug : List Char)
    (id : Id) : slugMarkerPath slug ≠ recordPath ids id :=
  slugMarkerPath_ne_join hindex slug id recordName

end

end Keys

/-! ## The listing -/

section Listing
variable {ids : IdText Id} {store : AgentStore Id}

section
variable (ids : IdText Id) (store : AgentStore Id)

/-- Every object below `agents` is an agent's record, a slug's marker or another object of an
agent. -/
def Shaped : Prop :=
  ∀ key object, store.lookup key = some object →
    (∃ record : AgentRecord Id, key = recordPath ids record.id ∧ object = .record record) ∨
    (∃ slug id, key = slugMarkerPath slug ∧ object = .marker id) ∨
    ∃ id rest, key = (agentDir ids id).join rest ∧ rest ≠ recordName

/-- The record is the stored one of its agent. -/
def Live (record : AgentRecord Id) : Prop :=
  store.lookup (recordPath ids record.id) = some (.record record)

end

variable {id : Id}

section
variable (hshaped : Shaped ids store) (hindex : ids.parse indexName = none)
include hshaped hindex

theorem Shaped.record
    {object : AgentObject Id} (hobject : store.lookup (recordPath ids id) = some object) :
    ∃ record : AgentRecord Id, object = .record record ∧ record.id = id := by
  rcases hshaped _ _ hobject with
    ⟨record, hkey, rfl⟩ | ⟨slug, -, hkey, -⟩ | ⟨other, rest, hkey, hrest⟩
  · exact ⟨record, rfl, (recordPath_inj.1 hkey).symm⟩
  · exact absurd hkey.symm (slugMarkerPath_ne_recordPath hindex slug id)
  · exact absurd hkey (recordPath_ne_join hrest)

theorem Shaped.marker {slug : List Char} {object : AgentObject Id}
    (hobject : store.lookup (slugMarkerPath slug) = some object) : ∃ id, object = .marker id := by
  rcases hshaped _ _ hobject with ⟨record, hkey, -⟩ | ⟨-, id, -, rfl⟩ | ⟨id, rest, hkey, -⟩
  · exact absurd hkey (slugMarkerPath_ne_recordPath hindex slug record.id)
  · exact ⟨id, rfl⟩
  · exact absurd hkey (slugMarkerPath_ne_join hindex slug id rest)

end

theorem Shaped.of_subset {after : AgentStore Id} (hshaped : Shaped ids store)
    (hsubset : ∀ key object, after.lookup key = some object → store.lookup key = some object) :
    Shaped ids after :=
  fun key object hobject ↦ hshaped key object (hsubset key object hobject)

theorem mem_listDirectories {directory : Key} : directory ∈ listDirectories agentsDir store ↔
      ∃ name rest, '/' ∉ name ∧ (agentsDir.join name).join rest ∈ store ∧
        directory = agentsDir.join name := by
  simp only [listDirectories, mem_insertionSort, mem_dedup, mem_filterMap,
    ObjectStore.mem_listKeys, map_eq_some_iff, Prod.exists, splitOnce_eq_some]
  constructor
  · rintro ⟨key, ⟨hkey, relative, rfl⟩, name, rest, ⟨hrelative, hname⟩, rfl⟩
    have hdrop : (agentsDir ++ ['/'] ++ relative).drop (agentsDir.length + 1) = relative := by
      rw [drop_append_of_le_length (by simp)]
      simp
    rw [hdrop] at hrelative
    refine ⟨name, rest, hname, ?_, rfl⟩
    simpa [hrelative, Key.join] using hkey
  · rintro ⟨name, rest, hname, hkey, rfl⟩
    refine ⟨_, ⟨hkey, name ++ '/' :: rest, by simp [Key.join]⟩, name, rest, ⟨?_, hname⟩, rfl⟩
    simp [Key.join, drop_append_of_le_length]

theorem nodup_agentDirectories : (agentDirectories ids store).Nodup :=
  ((perm_insertionSort _ _).nodup_iff.2 (nodup_dedup _)).filter _

theorem Shaped.directory (hshaped : Shaped ids store) (hindex : ids.parse indexName = none)
    {directory : Key} (hdirectory : directory ∈ agentDirectories ids store) :
    ∃ id, directory = agentDir ids id := by
  obtain ⟨hlisted, hparse⟩ := mem_filter.1 hdirectory
  obtain ⟨name, rest, hname, hkey, rfl⟩ := mem_listDirectories.1 hlisted
  obtain ⟨object, hobject⟩ := isSome_iff_exists.1 (AList.lookup_isSome.2 hkey)
  have hagent : ∀ id another, (agentsDir.join name).join rest = (agentDir ids id).join another →
      agentsDir.join name = agentDir ids id := by
    intro id another hjoin
    rw [(agentsDir_join_inj hname (slash_not_mem_text id) hjoin).1]
    rfl
  rcases hshaped _ _ hobject with ⟨record, hkey, -⟩ | ⟨slug, -, hkey, -⟩ | ⟨id, another, hkey, -⟩
  · exact ⟨record.id, hagent record.id recordName hkey⟩
  · rw [(agentsDir_join_inj hname slash_not_mem_indexName hkey).1, Key.join,
      rsplitNext_join slash_not_mem_indexName, hindex] at hparse
    cases hparse
  · exact ⟨id, hagent id another hkey⟩

theorem agentDir_mem_agentDirectories (hkey : recordPath ids id ∈ store) :
    agentDir ids id ∈ agentDirectories ids store := by
  refine mem_filter.2 ⟨?_, ?_⟩
  · exact mem_listDirectories.2 ⟨ids.text id, recordName, slash_not_mem_text id, hkey, rfl⟩
  · rw [agentDir, Key.join, rsplitNext_join (slash_not_mem_text id), ids.parse_text]
    rfl

/-- The record the listing finds in a directory. -/
def recordIn (store : AgentStore Id) (directory : Key) : Option (AgentRecord Id) :=
  (store.lookup (directory.join recordName)).bind AgentObject.asRecord

section
variable (hshaped : Shaped ids store) (hindex : ids.parse indexName = none)
include hshaped hindex

theorem Shaped.recordIn_eq_some {record : AgentRecord Id} :
    recordIn store (agentDir ids id) = some record ↔ Live ids store record ∧ record.id = id := by
  rw [recordIn, bind_eq_some_iff]
  constructor
  · rintro ⟨object, hobject, hdecode⟩
    obtain ⟨stored, rfl, rfl⟩ := hshaped.record hindex hobject
    obtain rfl := some.inj hdecode
    exact ⟨hobject, rfl⟩
  · rintro ⟨hlive, rfl⟩
    exact ⟨_, hlive, rfl⟩

theorem Shaped.read_record (id : Id) :
    (store.getJsonIfExists AgentObject.asRecord ((agentDir ids id).join recordName)).map
      Option.toList = .ok (recordIn store (agentDir ids id)).toList := by
  rw [recordIn]
  cases hobject : store.lookup ((agentDir ids id).join recordName) with
  | none =>
    rw [ObjectStore.getJsonIfExists_absent _ hobject]
    rfl
  | some object =>
    obtain ⟨record, rfl, -⟩ := hshaped.record hindex hobject
    have hdecode : AgentObject.asRecord (.record record) = some record := rfl
    rw [ObjectStore.getJsonIfExists_eq hobject hdecode]
    rfl

end

variable [LinearOrder Id]

theorem Shaped.listAgents_eq (hshaped : Shaped ids store) (hindex : ids.parse indexName = none) :
    ∃ records, listAgents ids store = .ok records ∧ records.Nodup ∧
      ∀ record, record ∈ records ↔ Live ids store record := by
  let found := fun directory ↦ (recordIn store directory).toList
  have hread : ∀ directory ∈ agentDirectories ids store,
      (store.getJsonIfExists AgentObject.asRecord (Key.join directory recordName)).map
        toList = .ok (found directory) := by
    intro directory hdirectory
    obtain ⟨id, rfl⟩ := hshaped.directory hindex hdirectory
    exact hshaped.read_record hindex id
  have hfound : ∀ directory ∈ agentDirectories ids store, ∀ record ∈ found directory,
      directory = agentDir ids record.id ∧ Live ids store record := by
    intro directory hdirectory record hrecord
    obtain ⟨id, rfl⟩ := hshaped.directory hindex hdirectory
    obtain ⟨hlive, rfl⟩ := (hshaped.recordIn_eq_some hindex).1 (mem_toList.1 hrecord)
    exact ⟨rfl, hlive⟩
  have hlist : listAgents ids store =
      .ok (((agentDirectories ids store).flatMap found).insertionSort (·.id ≤ ·.id)) := by
    rw [listAgents, listAgentRecords, gather_eq_ok hread]
    rfl
  refine ⟨_, hlist, ?_, fun record ↦ ?_⟩
  · rw [(perm_insertionSort _ _).nodup_iff, nodup_flatMap]
    constructor
    · intro directory _
      cases hrecord : recordIn store directory <;> simp [found, hrecord]
    · refine List.Pairwise.imp_of_mem ?_ nodup_agentDirectories
      intro directory other hdirectory hother hne record hfirst hsecond
      have heq := (hfound directory hdirectory record hfirst).1
      have heq' := (hfound other hother record hsecond).1
      exact hne (heq.trans heq'.symm)
  · rw [mem_insertionSort, mem_flatMap]
    constructor
    · rintro ⟨directory, hdirectory, hrecord⟩
      exact (hfound directory hdirectory record hrecord).2
    · intro hlive
      have hkey : recordPath ids record.id ∈ store :=
        AList.lookup_isSome.1 (isSome_iff_exists.2 ⟨_, hlive⟩)
      have hrecord := (hshaped.recordIn_eq_some hindex).2 ⟨hlive, rfl⟩
      exact ⟨_, agentDir_mem_agentDirectories hkey, mem_toList.2 hrecord⟩

end Listing

/-! ## What the calls write -/

section Writes
variable {ids : IdText Id} {store : AgentStore Id}

theorem newAgent_refused {request : NewAgentRequest Id} {holder : Id}
    (hmarker : store.lookup (slugMarkerPath request.slug) = some (.marker holder)) (id : Id)
    (fault : Option ℕ) :
    newAgent ids store id request fault = (.error (.slugAlreadyExists request.slug), store) := by
  have hdecode : AgentObject.asMarker (.marker holder : AgentObject Id) = some holder := rfl
  rw [newAgent, ObjectStore.getJsonIfExists_eq hmarker hdecode]

/-- The record a new agent gets. -/
def NewAgentRequest.record (request : NewAgentRequest Id) (id : Id) : AgentRecord Id :=
  ⟨id, request.slug, request.name, request.vaults⟩

/-- The store after both puts of a creation. -/
def created (ids : IdText Id) (store : AgentStore Id) (id : Id) (request : NewAgentRequest Id) :
    AgentStore Id :=
  (store.insert (recordPath ids id) (.record (request.record id))).insert
    (slugMarkerPath request.slug) (.marker id)

theorem newAgent_free {request : NewAgentRequest Id}
    (hmarker : slugMarkerPath request.slug ∉ store) (id : Id) (fault : Option ℕ) :
    newAgent ids store id request fault =
      if fault = some 0 then (.error (.storage (.failedToPut (recordPath ids id))), store)
      else if fault = some 1 then
        (.error (.storage (.failedToPut (slugMarkerPath request.slug))),
          store.insert (recordPath ids id) (.record (request.record id)))
      else (.ok (request.record id), created ids store id request) := by
  rw [newAgent, ObjectStore.getJsonIfExists_absent _ (AList.lookup_eq_none.2 hmarker)]
  rfl

/-- The keys a `delete_prefix` gets to. -/
def reached (keys : List Key) : Option ℕ → List Key
  | none => keys
  | some count => keys.take count

theorem lookup_deleteKeys (keys : List Key) (fault : Option ℕ) (store : AgentStore Id) (key : Key) :
    (deleteKeys keys fault store).2.lookup key =
      if key ∈ reached keys fault then none else store.lookup key := by
  have herase : ∀ (store : AgentStore Id) (first : Key) (rest : List Key),
      (if key ∈ rest then none else (store.erase first).lookup key) =
        if key ∈ first :: rest then none else store.lookup key := by
    intro store first rest
    by_cases hkey : key = first
    · subst hkey
      simp
    · simp [hkey, AList.lookup_erase_ne hkey]
  induction keys generalizing fault store with
  | nil => cases fault <;> simp [deleteKeys, reached]
  | cons first keys ih =>
    match fault with
    | none => rw [deleteKeys, ih, reached, reached, herase]
    | some 0 => simp [deleteKeys, reached]
    | some (count + 1) =>
      rw [deleteKeys, ih, reached, reached, take_succ_cons, herase]

theorem reached_subset {keys : List Key} {fault : Option ℕ} : reached keys fault ⊆ keys := by
  cases fault with
  | none => exact List.Subset.refl _
  | some count => exact take_subset _ _

theorem not_under_slugMarkerPath (hindex : ids.parse indexName = none) (id : Id)
    (slug : List Char) : ¬ Under (agentDir ids id) (slugMarkerPath slug) := by
  intro hunder
  obtain ⟨rest, hkey⟩ := under_agentDir.1 hunder
  exact slugMarkerPath_ne_join hindex slug id rest hkey

/-- Deleting an agent that has a record, past its marker. -/
theorem lookup_deleteAgent_record (hindex : ids.parse indexName = none) {record : AgentRecord Id}
    (hlive : Live ids store record) {fault : Option ℕ} (hfault : fault ≠ some 0) (key : Key) :
    (deleteAgent ids store record.id fault).2.lookup key =
      if key ∈ reached (store.listKeys (agentDir ids record.id)) (fault.map (· - 1)) then none
      else if key = slugMarkerPath record.slug then none else store.lookup key := by
  have hkeys : store.listKeys (agentDir ids record.id) ≠ [] := by
    have hmem : recordPath ids record.id ∈ store.listKeys (agentDir ids record.id) :=
      ObjectStore.mem_listKeys.2 ⟨AList.lookup_isSome.1 (isSome_iff_exists.2 ⟨_, hlive⟩),
        under_agentDir_recordPath.2 rfl⟩
    exact ne_nil_of_mem hmem
  have hdecode : AgentObject.asRecord (.record record) = some record := rfl
  rw [deleteAgent, if_neg hkeys, ObjectStore.getJsonIfExists_eq hlive hdecode]
  simp only [hfault, if_false, deletePrefix, lookup_deleteKeys,
    ObjectStore.listKeys_erase (not_under_slugMarkerPath hindex record.id record.slug)]
  by_cases hkey : key = slugMarkerPath record.slug
  · subst hkey
    simp
  · simp [hkey, AList.lookup_erase_ne hkey]

theorem deleteAgent_of_fault {record : AgentRecord Id} (hlive : Live ids store record) :
    (deleteAgent ids store record.id (some 0)).2 = store := by
  have hdecode : AgentObject.asRecord (.record record) = some record := rfl
  rw [deleteAgent, ObjectStore.getJsonIfExists_eq hlive hdecode]
  split <;> rfl

/-- Deleting what is left of an agent without a record. -/
theorem lookup_deleteAgent_absent {id : Id} (habsent : recordPath ids id ∉ store)
    (fault : Option ℕ) (key : Key) :
    (deleteAgent ids store id fault).2.lookup key =
      if key ∈ reached (store.listKeys (agentDir ids id)) fault then none
      else store.lookup key := by
  rw [deleteAgent, ObjectStore.getJsonIfExists_absent _ (AList.lookup_eq_none.2 habsent)]
  split
  case isTrue hkeys =>
    rw [hkeys]
    cases fault <;> simp [reached]
  case isFalse => exact lookup_deleteKeys _ _ _ _

end Writes

/-! ## Runs -/

/-- The calls of a run; `fault` is where the call's writes start to fail. -/
inductive Label (Id : Type) where
  | newAgent (id : Id) (request : NewAgentRequest Id) (fault : Option ℕ)
  | deleteAgent (id : Id) (fault : Option ℕ)
  | putObject (id : Id) (rest : List Char)
  | deleteObject (id : Id) (rest : List Char)

/-- The registry's calls and the writes of everything else an agent's directory holds.  A new agent
gets an identifier no agent has. -/
def registry (ids : IdText Id) : System (AgentStore Id) (Label Id) where
  enabled store
    | .newAgent id _ _ => recordPath ids id ∉ store
    | .deleteAgent _ _ => True
    | .putObject _ rest => rest ≠ recordName
    | .deleteObject _ rest => rest ≠ recordName
  next store
    | .newAgent id request fault => (newAgent ids store id request fault).2
    | .deleteAgent id fault => (deleteAgent ids store id fault).2
    | .putObject id rest => store.insert ((agentDir ids id).join rest) .other
    | .deleteObject id rest => store.erase ((agentDir ids id).join rest)

instance (ids : IdText Id) (store : AgentStore Id) (label : Label Id) :
    Decidable ((registry ids).enabled store label) :=
  match label with
  | .newAgent id _ _ => inferInstanceAs (Decidable (recordPath ids id ∉ store))
  | .deleteAgent _ _ => isTrue trivial
  | .putObject _ rest => inferInstanceAs (Decidable (rest ≠ recordName))
  | .deleteObject _ rest => inferInstanceAs (Decidable (rest ≠ recordName))

end Exo.Agents
