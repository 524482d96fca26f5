import Mathlib.Logic.Function.Basic
import Exo.EventLog.Objects
import Exo.Library.IntervalIndex
import Exo.Library.System

/-!
# Looking an event up by its id

`get_event` first tries the batches its handle's cached index names, then the object of a single
event, then lists the directory anew, replaces the cached index and reads the batches it has not
tried yet.  The cache of a handle may be absent, may lack the batches of other handles and other
processes, and may hold nothing but what `remember_appended_batch` put into it.  Whatever it holds,
the lookup agrees with the log.
-/

namespace Exo.EventLog

open Storage Library List Function Option

variable {Id Data : Type} [LinearOrder Id] (ids : IdText Id) (conversationDir : Key)

/-- `EventBatchIndex`. -/
abbrev EventBatchIndex (Id : Type) [LinearOrder Id] := IntervalIndex Id Key

/-- `EventBatchIndex::from_keys`. -/
def fromKeys (keys : List Key) : EventBatchIndex Id :=
  IntervalIndex.ofRanges (keys.filterMap fun key ↦
    (eventBatchRangeFromKey ids key).map fun range ↦ (range.1, range.2, key))

section
variable (index : Option (EventBatchIndex Id))

/-- `remember_appended_batch`. -/
def rememberAppendedBatch (added : AddEventsResult Id) : Option (EventBatchIndex Id) :=
  match added.eventIds with
  | first :: _ :: _ =>
    some ((index.getD IntervalIndex.empty).insert first added.latestEventId
      (eventBatchPath ids conversationDir first added.latestEventId))
  | _ => index

/-- `read_event_from_batches`: the first match in the order of the keys. -/
def readEventFromBatches (store : EventStore Id Data) (id : Id) :
    List Key → Except StorageError (Option (Event Id Data))
  | [] => .ok none
  | key :: keys => do
    match (← store.getJsonIfExists EventObject.asBatch key).bind
        (fun events ↦ events.find? (·.id = id)) with
    | some event => return some event
    | none => readEventFromBatches store id keys

/-- `cached_keys`: what the cached index names for the id, nothing without an index. -/
def cachedKeys (id : Id) : List Key :=
  (index.map (·.containing id)).getD []

section
variable (store : EventStore Id Data) (id : Id)

/-- `new_keys`: the batches a fresh listing names and the cached index did not. -/
def newKeys : List Key :=
  ((fromKeys ids (store.listKeys (eventsDir conversationDir))).containing id).filter
    (fun key ↦ key ∉ cachedKeys index id)

/-- `get_event`, with the cached index before and after the call. -/
def getEvent : Except StorageError (Option (Event Id Data)) × Option (EventBatchIndex Id) :=
  match readEventFromBatches store id (cachedKeys index id) with
  | .error error => (.error error, index)
  | .ok (some event) => (.ok (some event), index)
  | .ok none =>
    match store.getJsonIfExists EventObject.asEvent (eventPath ids conversationDir id) with
    | .error error => (.error error, index)
    | .ok (some event) => (.ok (some event), index)
    | .ok none =>
      -- A miss may be a batch appended by another handle or process.
      (readEventFromBatches store id (newKeys ids conversationDir index store id),
        some (fromKeys ids (store.listKeys (eventsDir conversationDir))))

end

end

/-- The stored objects, the cached index of every handle, and the appends whose writers have not
remembered them yet. -/
structure LookupState (Id Data : Type) [LinearOrder Id] where
  store : EventStore Id Data
  indexes : ℕ → Option (EventBatchIndex Id)
  unremembered : List (ℕ × AddEventsResult Id)

/-- The steps: an append through a handle of any process, the remembering that may follow it, and
a lookup. -/
inductive LookupLabel (Id Data : Type) where
  | append (handle : ℕ) (expectedHead : Option Id) (events : List (Event Id Data))
  | remember (handle : ℕ) (added : AddEventsResult Id)
  | lookup (handle : ℕ) (id : Id)

/-- Appends, rememberings and lookups in any order. -/
def lookupSystem : System (LookupState Id Data) (LookupLabel Id Data) where
  enabled state
    | .append _ _ events => Drawn state.store events
    | .remember handle added => (handle, added) ∈ state.unremembered
    | .lookup _ _ => True
  next state
    | .append handle expectedHead events =>
      match appendEvents ids conversationDir state.store
          (latestCommittedEventId ids conversationDir state.store) expectedHead events with
      | .error _ => state
      | .ok (store, added) =>
        { state with
          store := store, unremembered := (handle, added) :: state.unremembered }
    | .remember handle added =>
      { state with
        indexes := Function.update state.indexes handle
          (rememberAppendedBatch ids conversationDir (state.indexes handle) added) }
    | .lookup handle id =>
      { state with
        indexes := Function.update state.indexes handle
          (getEvent ids conversationDir (state.indexes handle) state.store id).2 }

instance (state : LookupState Id Data) :
    ∀ label, Decidable ((lookupSystem ids conversationDir).enabled state label)
  | .append _ _ events => inferInstanceAs (Decidable (Drawn state.store events))
  | .remember _ _ => inferInstanceAs (Decidable (_ ∈ _))
  | .lookup _ _ => isTrue trivial

/-- No object and no cached index. -/
def LookupState.init : LookupState Id Data := ⟨∅, fun _ ↦ none, []⟩

/-- An index names every batch by its own range. -/
def Indexed (index : EventBatchIndex Id) : Prop :=
  ∀ first last key, (first, last, key) ∈ index.ranges →
    key = eventBatchPath ids conversationDir first last

variable {ids conversationDir} {store : EventStore Id Data} {object : EventObject Id Data}

theorem batch_of_lookup (hstore : WellFormed ids conversationDir store) {first last : Id}
    (hobject : store.lookup (eventBatchPath ids conversationDir first last) = some object) :
    ∃ events, object = .batch events := by
  obtain ⟨head, rest, hplaced, -⟩ := hstore.placed _ object hobject
  cases rest with
  | nil =>
    have hrange := congrArg (eventBatchRangeFromKey ids) (congrArg Prod.fst hplaced)
    simp [appendedObject] at hrange
  | cons second rest => exact ⟨_, (congrArg Prod.snd hplaced).symm⟩

variable {id : Id} {index : Option (EventBatchIndex Id)}

theorem single_of_lookup (hstore : WellFormed ids conversationDir store)
    (hobject : store.lookup (eventPath ids conversationDir id) = some object) :
    ∃ event, object = .single event ∧ event.id = id := by
  obtain ⟨head, rest, hplaced, -⟩ := hstore.placed _ object hobject
  have hkey := congrArg Prod.fst hplaced
  cases rest with
  | nil => exact ⟨head, (congrArg Prod.snd hplaced).symm, eventPath_injective ids hkey⟩
  | cons second rest =>
    have hrange := congrArg (eventBatchRangeFromKey ids) hkey
    simp [appendedObject] at hrange

/-- Reading batches finds an event with the id, or shows that none of them has one. -/
theorem readEventFromBatches_spec (hstore : WellFormed ids conversationDir store) (id : Id)
    {keys : List Key}
    (hkeys : ∀ key ∈ keys, ∃ first last, key = eventBatchPath ids conversationDir first last) :
    ∃ found, readEventFromBatches store id keys = .ok found ∧
      (∀ event, found = some event →
        event ∈ store.contents EventObject.events ∧ event.id = id) ∧
      (found = none → ∀ key ∈ keys, ∀ object, store.lookup key = some object →
        ∀ event ∈ object.events, event.id ≠ id) := by
  induction keys with
  | nil => exact ⟨none, rfl, by simp, by simp⟩
  | cons key keys ih =>
    obtain ⟨found, hread, hfound, hnone⟩ :=
      ih fun other hother ↦ hkeys other (mem_cons_of_mem _ hother)
    obtain ⟨first, last, hkey⟩ := hkeys key mem_cons_self
    cases hlookup : store.lookup key with
    | none =>
      refine ⟨found, ?_, hfound, ?_⟩
      · rw [readEventFromBatches, ObjectStore.getJsonIfExists_absent _ hlookup]
        exact hread
      · intro hmiss other hother object hobject
        rcases mem_cons.1 hother with rfl | hother
        · rw [hlookup] at hobject
          cases hobject
        · exact hnone hmiss other hother object hobject
    | some object =>
      obtain ⟨events, rfl⟩ := batch_of_lookup hstore (hkey ▸ hlookup)
      have hjson : store.getJsonIfExists EventObject.asBatch key = .ok (some events) :=
        ObjectStore.getJsonIfExists_eq hlookup rfl
      cases hfind : events.find? (·.id = id) with
      | some event =>
        refine ⟨some event, ?_, ?_, by simp⟩
        · rw [readEventFromBatches, hjson]
          simp only [bind, Except.bind, Option.bind, hfind]
          rfl
        · rintro _ ⟨rfl⟩
          have hmem : event ∈ events := mem_of_find?_eq_some hfind
          have hid : event.id = id := by simpa using find?_some hfind
          exact ⟨ObjectStore.mem_contents.2 ⟨key, _, hlookup, hmem⟩, hid⟩
      | none =>
        refine ⟨found, ?_, hfound, ?_⟩
        · rw [readEventFromBatches, hjson]
          simp only [bind, Except.bind, Option.bind, hfind]
          exact hread
        · intro hmiss other hother object hobject
          rcases mem_cons.1 hother with rfl | hother
          · rw [hlookup] at hobject
            cases hobject
            intro event hevent hid
            have hne := find?_eq_none.1 hfind event hevent
            simp [hid] at hne
          · exact hnone hmiss other hother object hobject

theorem indexed_empty : Indexed ids conversationDir IntervalIndex.empty := by
  intro first last key hrange
  simp at hrange

theorem indexed_rememberAppendedBatch
    (hindex : ∀ cached ∈ index, Indexed ids conversationDir cached) (added : AddEventsResult Id) :
    ∀ cached ∈ rememberAppendedBatch ids conversationDir index added,
      Indexed ids conversationDir cached := by
  have hbase : Indexed ids conversationDir (index.getD IntervalIndex.empty) := by
    cases index with
    | none => exact indexed_empty
    | some cached => exact hindex cached rfl
  intro cached hcached
  unfold rememberAppendedBatch at hcached
  split at hcached
  · cases hcached
    intro first last key hrange
    rcases (IntervalIndex.mem_ranges_insert _ _ _ _ _).1 hrange with hnew | hold
    · cases hnew
      rfl
    · exact hbase first last key hold
  · exact hindex cached hcached

/-- What a listing of the directory indexes: exactly the batches of the store. -/
theorem mem_ranges_fromKeys (hstore : WellFormed ids conversationDir store) (first last : Id)
    (key : Key) :
    (first, last, key) ∈ (fromKeys ids (store.listKeys (eventsDir conversationDir))).ranges ↔
      key ∈ store ∧ key = eventBatchPath ids conversationDir first last := by
  simp only [fromKeys, IntervalIndex.mem_ranges_ofRanges, mem_filterMap,
    map_eq_some_iff, Prod.mk.injEq, ObjectStore.mem_listKeys, Prod.exists]
  constructor
  · rintro ⟨key, ⟨hkey, -⟩, first, last, hrange, rfl, rfl, rfl⟩
    refine ⟨hkey, ?_⟩
    obtain ⟨object, hobject⟩ := isSome_iff_exists.1 (AList.lookup_isSome.2 hkey)
    obtain ⟨head, rest, hplaced, -⟩ := hstore.placed key object hobject
    cases rest with
    | nil =>
      cases hplaced
      simp at hrange
    | cons second rest =>
      cases hplaced
      rw [eventBatchRangeFromKey_eventBatchPath] at hrange
      cases hrange
      rfl
  · rintro ⟨hkey, rfl⟩
    exact ⟨_, ⟨hkey, under_eventBatchPath ids first last⟩, first, last, by simp, rfl, rfl, rfl⟩

theorem indexed_fromKeys (hstore : WellFormed ids conversationDir store) :
    Indexed ids conversationDir (fromKeys ids (store.listKeys (eventsDir conversationDir))) :=
  fun first last key hrange ↦ ((mem_ranges_fromKeys hstore first last key).1 hrange).2

theorem Indexed.containing {index : EventBatchIndex Id} (hindex : Indexed ids conversationDir index)
    {key : Key} (hkey : key ∈ index.containing id) :
    ∃ first last, key = eventBatchPath ids conversationDir first last := by
  obtain ⟨first, last, hrange, -⟩ := (index.mem_containing id key).1 hkey
  exact ⟨first, last, hindex first last key hrange⟩

/-- The answer of a lookup is the stored event with the id, if there is one. -/
def Locates (store : EventStore Id Data) (id : Id) (found : Option (Event Id Data)) : Prop :=
  ∀ event, found = some event ↔ event ∈ store.contents EventObject.events ∧ event.id = id

section
variable (hstore : WellFormed ids conversationDir store)
include hstore

variable {event : Event Id Data}

theorem locates_some (hevent : event ∈ store.contents EventObject.events ∧ event.id = id) :
    Locates store id (some event) := by
  intro other
  constructor
  · rintro ⟨rfl⟩
    exact hevent
  · rintro ⟨hother, hid⟩
    have hsame : event = other :=
      inj_on_of_nodup_map hstore.distinct hevent.1 hother (hevent.2.trans hid.symm)
    rw [hsame]

/-- A stored event is in the object of its own id or in a batch whose name spans its id. -/
theorem stored_in (hevent : event ∈ store.contents EventObject.events) :
    store.lookup (eventPath ids conversationDir event.id) = some (.single event) ∨
      ∃ first last object, store.lookup (eventBatchPath ids conversationDir first last) =
        some object ∧ event ∈ object.events ∧ first ≤ event.id ∧ event.id ≤ last := by
  obtain ⟨key, object, hobject, hmem⟩ := ObjectStore.mem_contents.1 hevent
  obtain ⟨first, rest, hplaced, hspanned⟩ := hstore.placed key object hobject
  cases rest with
  | nil =>
    cases hplaced
    rw [EventObject.events, mem_singleton] at hmem
    exact .inl (hmem ▸ hobject)
  | cons second rest =>
    cases hplaced
    exact .inr ⟨_, _, _, hobject, hmem, hspanned event hmem⟩

/-- With every batch around the id and the single object tried in vain, no event has the id. -/
theorem locates_none
    (hcached : ∀ key ∈ cachedKeys index id, ∀ object, store.lookup key = some object →
      ∀ event ∈ object.events, event.id ≠ id)
    (hsingle : store.lookup (eventPath ids conversationDir id) = none)
    (hnew : ∀ key ∈ newKeys ids conversationDir index store id, ∀ object,
      store.lookup key = some object → ∀ event ∈ object.events, event.id ≠ id) :
    Locates store id none := by
  intro event
  constructor
  · intro hnone
    cases hnone
  · rintro ⟨hevent, rfl⟩
    rcases stored_in hstore hevent with hobject | ⟨first, last, object, hobject, hmem, hspan⟩
    · rw [hsingle] at hobject
      cases hobject
    · by_cases htried : eventBatchPath ids conversationDir first last ∈ cachedKeys index event.id
      · exact absurd rfl (hcached _ htried object hobject event hmem)
      · have hlisted : eventBatchPath ids conversationDir first last ∈ store :=
          AList.lookup_isSome.1 (by rw [hobject]; rfl)
        have hcontains := ((fromKeys ids
          (store.listKeys (eventsDir conversationDir))).mem_containing event.id _).2
            ⟨first, last, (mem_ranges_fromKeys hstore _ _ _).2 ⟨hlisted, rfl⟩, hspan⟩
        have htry : eventBatchPath ids conversationDir first last ∈
            newKeys ids conversationDir index store event.id :=
          mem_filter.2 ⟨hcontains, decide_eq_true htried⟩
        exact absurd rfl (hnew _ htry object hobject event hmem)

/-- A lookup with any index that names batches by their ranges agrees with the store. -/
theorem getEvent_spec (hindex : ∀ cached ∈ index, Indexed ids conversationDir cached) (id : Id) :
    (∃ found, (getEvent ids conversationDir index store id).1 = .ok found ∧
      Locates store id found) ∧
      ∀ cached ∈ (getEvent ids conversationDir index store id).2,
        Indexed ids conversationDir cached := by
  have hcached : ∀ key ∈ cachedKeys index id,
      ∃ first last, key = eventBatchPath ids conversationDir first last := by
    intro key hkey
    cases index with
    | none => cases hkey
    | some cached => exact (hindex cached rfl).containing hkey
  have hfresh := indexed_fromKeys hstore
  have hnew : ∀ key ∈ newKeys ids conversationDir index store id,
      ∃ first last, key = eventBatchPath ids conversationDir first last :=
    fun key hkey ↦ hfresh.containing (mem_of_mem_filter hkey)
  obtain ⟨found, hread, hfound, hmissed⟩ := readEventFromBatches_spec hstore id hcached
  cases found with
  | some event =>
    simp only [getEvent, hread]
    exact ⟨⟨some event, rfl, locates_some hstore (hfound event rfl)⟩, hindex⟩
  | none =>
    cases hsingle : store.lookup (eventPath ids conversationDir id) with
    | some object =>
      obtain ⟨event, rfl, hid⟩ := single_of_lookup hstore hsingle
      have hjson : store.getJsonIfExists EventObject.asEvent (eventPath ids conversationDir id) =
          .ok (some event) := ObjectStore.getJsonIfExists_eq hsingle rfl
      have hmem : event ∈ store.contents EventObject.events :=
        ObjectStore.mem_contents.2 ⟨_, _, hsingle, mem_singleton_self event⟩
      simp only [getEvent, hread, hjson]
      exact ⟨⟨some event, rfl, locates_some hstore ⟨hmem, hid⟩⟩, hindex⟩
    | none =>
      obtain ⟨found, hreread, hfound, hagain⟩ := readEventFromBatches_spec hstore id hnew
      simp only [getEvent, hread, ObjectStore.getJsonIfExists_absent _ hsingle, hreread]
      refine ⟨⟨found, rfl, ?_⟩, fun cached hmem ↦ some.inj hmem ▸ hfresh⟩
      cases found with
      | some event => exact locates_some hstore (hfound event rfl)
      | none => exact locates_none hstore (hmissed rfl) hsingle (hagain rfl)

end

variable (ids conversationDir) in
/-- The store is what appends made it, and every cached index names batches by their ranges. -/
structure LookupInvariant (state : LookupState Id Data) : Prop where
  store : WellFormed ids conversationDir state.store
  indexes : ∀ handle, ∀ index ∈ state.indexes handle, Indexed ids conversationDir index

theorem lookupInvariant_init : LookupInvariant ids conversationDir
    (LookupState.init : LookupState Id Data) where
  store := WellFormed.empty
  indexes := nofun

theorem LookupInvariant.next {state : LookupState Id Data}
    (hstate : LookupInvariant ids conversationDir state) {label : LookupLabel Id Data}
    (henabled : (lookupSystem ids conversationDir).enabled state label) :
    LookupInvariant ids conversationDir ((lookupSystem ids conversationDir).next state label) := by
  have hupdate : ∀ (handle : ℕ) (index : Option (EventBatchIndex Id)),
      (∀ cached ∈ index, Indexed ids conversationDir cached) →
      ∀ other, ∀ cached ∈ update state.indexes handle index other,
        Indexed ids conversationDir cached := by
    intro handle index hindex other
    by_cases hother : other = handle
    · rw [hother, update_self]
      exact hindex
    · rw [update_of_ne hother]
      exact hstate.indexes other
  cases label with
  | append handle expectedHead events =>
    simp only [lookupSystem]
    split
    · exact hstate
    · rename_i happend
      exact ⟨(appendEvents_spec hstate.store henabled happend).1, hstate.indexes⟩
  | remember handle added =>
    exact ⟨hstate.store, hupdate handle _
      (indexed_rememberAppendedBatch (hstate.indexes handle) added)⟩
  | lookup handle id =>
    exact ⟨hstate.store, hupdate handle _ (getEvent_spec hstate.store (hstate.indexes handle) id).2⟩

/-- In every state that appends, rememberings and lookups of any number of handles and processes
lead to, a lookup through any handle returns an event exactly if the log has it under the id. -/
theorem getEvent_eq_some_iff (labels : List (LookupLabel Id Data))
    (hrun : (lookupSystem ids conversationDir).Admits LookupState.init labels) (handle : ℕ)
    (id : Id) :
    let state := (lookupSystem ids conversationDir).exec LookupState.init labels
    ∃ log found, loadEvents ids conversationDir state.store = .ok log ∧
      (getEvent ids conversationDir (state.indexes handle) state.store id).1 = .ok found ∧
      ∀ event, found = some event ↔ event ∈ log ∧ event.id = id := by
  intro state
  have hstate : LookupInvariant ids conversationDir state :=
    System.invariant _ (fun _ _ hinv henabled ↦ hinv.next henabled) lookupInvariant_init hrun
  obtain ⟨log, hload, hperm, -⟩ := loadEvents_spec hstate.store
  obtain ⟨⟨found, hget, hlocates⟩, -⟩ := getEvent_spec hstate.store (hstate.indexes handle) id
  refine ⟨log, found, hload, hget, fun event ↦ ?_⟩
  rw [hlocates event, hperm.mem_iff]

/-- Two handles append overlapping batches, and one of them has remembered only its own. -/
def overlappingAppends : List (LookupLabel (Fin (2 ^ 128)) Unit) :=
  [.append 0 none [⟨10, none, none, ()⟩, ⟨40, none, none, ()⟩],
    .append 1 none [⟨20, none, none, ()⟩, ⟨25, none, none, ()⟩, ⟨30, none, none, ()⟩],
    .remember 0 ⟨[10, 40], 40⟩, .append 1 none [⟨50, none, none, ()⟩], .lookup 1 50]

theorem getEvent_eq_some_iff_overlapping :
    (lookupSystem uuidText "thread".toList).Admits LookupState.init overlappingAppends ∧
      let state := (lookupSystem uuidText "thread".toList).exec LookupState.init overlappingAppends
      ∃ log found, loadEvents uuidText "thread".toList state.store = .ok log ∧
        (getEvent uuidText "thread".toList (state.indexes 0) state.store 25).1 = .ok found ∧
        ∀ event, found = some event ↔ event ∈ log ∧ event.id = 25 :=
  ⟨by decide +kernel, getEvent_eq_some_iff overlappingAppends (by decide +kernel) 0 25⟩

end Exo.EventLog
