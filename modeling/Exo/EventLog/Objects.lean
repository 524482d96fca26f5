import Exo.Storage.ObjectStore

/-!
# Event objects of a conversation

A conversation's journal is a set of objects in its `events` directory.  One event is stored under
its own id, several appended together under the ids of the first and the last of them; one put
commits the whole batch.  The log is what `load_events` reads back: the events of all objects,
sorted by id.
-/

namespace Exo.EventLog

open Storage List Option

/-- A stored event.  The thread and the creation time are fixed by the conversation and the id. -/
structure Event (Id Data : Type) where
  id : Id
  sessionId : Option Id
  turnId : Option Id
  data : Data
  deriving DecidableEq

/-- A stored object: one event, or `StoredEventBatch`. -/
inductive EventObject (Id Data : Type) where
  | single (event : Event Id Data)
  | batch (events : List (Event Id Data))

namespace EventObject

variable {Id Data : Type}

/-- Decode as `Event`. -/
def asEvent : EventObject Id Data → Option (Event Id Data)
  | .single event => some event
  | .batch _ => none

/-- Decode as `StoredEventBatch`. -/
def asBatch : EventObject Id Data → Option (List (Event Id Data))
  | .single _ => none
  | .batch events => some events

/-- The events of an object. -/
def events : EventObject Id Data → List (Event Id Data)
  | .single event => [event]
  | .batch events => events

end EventObject

/-- `ConversationHeadMismatch` and the refusal of an empty append. -/
inductive AppendError (Id : Type) where
  | zeroEvents
  | headMismatch (currentHead expectedHead : Option Id)

/-- `AddEventsResult`. -/
structure AddEventsResult (Id : Type) where
  eventIds : List Id
  latestEventId : Id
  deriving DecidableEq

/-- The objects of one conversation's `events` directory. -/
abbrev EventStore (Id Data : Type) := ObjectStore (EventObject Id Data)

/-- The suffix of a single event's object. -/
def jsonSuffix : List Char := ".json".toList

/-- The suffix of a batch. -/
def batchSuffix : List Char := ".batch.json".toList

section Keys
variable {Id : Type} (ids : IdText Id) (conversationDir : Key)

/-- The directory of a conversation's events. -/
def eventsDir : Key := conversationDir.join "events".toList

/-- The key of a single event. -/
def eventPath (id : Id) : Key := (eventsDir conversationDir).join (ids.text id ++ jsonSuffix)

/-- `event_batch_path`. -/
def eventBatchPath (first last : Id) : Key :=
  (eventsDir conversationDir).join (ids.text first ++ '_' :: (ids.text last ++ batchSuffix))

/-- `event_batch_range_from_key`. -/
def eventBatchRangeFromKey (key : Key) : Option (Id × Id) := do
  let range ← stripSuffix batchSuffix (rsplitNext '/' key)
  let (first, last) ← splitOnce '_' range
  return (← ids.parse first, ← ids.parse last)

/-- `event_id_from_key`: the last id of a batch, or the id of a single event. -/
def eventIdFromKey (key : Key) : Option Id :=
  match eventBatchRangeFromKey ids key with
  | some (_, last) => some last
  | none => do ids.parse (← stripSuffix jsonSuffix (rsplitNext '/' key))

/-- `is_event_batch_key`. -/
def isEventBatchKey (key : Key) : Bool := batchSuffix.isSuffixOf key

variable {conversationDir}

theorem rsplitNext_eventPath (id : Id) :
    rsplitNext '/' (eventPath ids conversationDir id) = ids.text id ++ jsonSuffix := by
  have hplain : '/' ∉ ids.text id := ids.not_mem_text (by decide) id
  have hsuffix : '/' ∉ jsonSuffix := by decide
  have hname : '/' ∉ ids.text id ++ jsonSuffix := by simp [hplain, hsuffix]
  rw [eventPath, Key.join, rsplitNext_join hname]

theorem rsplitNext_eventBatchPath (first last : Id) :
    rsplitNext '/' (eventBatchPath ids conversationDir first last) =
      ids.text first ++ '_' :: (ids.text last ++ batchSuffix) := by
  have hplain : ∀ id, '/' ∉ ids.text id := ids.not_mem_text (by decide)
  have hsuffix : '/' ∉ batchSuffix := by decide
  have hname : '/' ∉ ids.text first ++ '_' :: (ids.text last ++ batchSuffix) := by
    simp [hplain, hsuffix]
  rw [eventBatchPath, Key.join, rsplitNext_join hname]

@[simp]
theorem eventBatchRangeFromKey_eventBatchPath (first last : Id) :
    eventBatchRangeFromKey ids (eventBatchPath ids conversationDir first last) =
      some (first, last) := by
  have hstrip : stripSuffix batchSuffix
      (rsplitNext '/' (eventBatchPath ids conversationDir first last)) =
        some (ids.text first ++ '_' :: ids.text last) := by
    rw [rsplitNext_eventBatchPath, ← cons_append, ← append_assoc, stripSuffix_append]
  have hsplit : splitOnce '_' (ids.text first ++ '_' :: ids.text last) =
      some (ids.text first, ids.text last) :=
    splitOnce_append (ids.not_mem_text (by decide) first) _
  simp [eventBatchRangeFromKey, hstrip, hsplit, ids.parse_text]

section
variable (id : Id)

theorem not_batch_suffix : ¬ batchSuffix <:+ ids.text id ++ jsonSuffix := by
  rintro ⟨before, hbefore⟩
  have hdrop : before ++ ".batch".toList = ids.text id := by
    have hsplit : before ++ ".batch".toList ++ jsonSuffix = ids.text id ++ jsonSuffix := by
      rw [← hbefore, append_assoc]
      rfl
    exact append_cancel_right hsplit
  have hdot : '.' ∈ ids.text id := by
    rw [← hdrop]
    exact mem_append_right _ (by decide)
  exact ids.not_mem_text (by decide) id hdot

@[simp]
theorem eventBatchRangeFromKey_eventPath :
    eventBatchRangeFromKey ids (eventPath ids conversationDir id) = none := by
  simp only [eventBatchRangeFromKey, rsplitNext_eventPath]
  rw [stripSuffix, if_neg (not_batch_suffix ids id)]
  rfl

@[simp]
theorem eventIdFromKey_eventPath :
    eventIdFromKey ids (eventPath ids conversationDir id) = some id := by
  simp [eventIdFromKey, rsplitNext_eventPath, ids.parse_text]

@[simp]
theorem eventIdFromKey_eventBatchPath (first last : Id) :
    eventIdFromKey ids (eventBatchPath ids conversationDir first last) = some last := by
  simp [eventIdFromKey]

theorem isEventBatchKey_eventBatchPath (first last : Id) :
    isEventBatchKey (eventBatchPath ids conversationDir first last) = true := by
  rw [isEventBatchKey, isSuffixOf_iff_suffix]
  refine ⟨eventsDir conversationDir ++ '/' :: (ids.text first ++ '_' :: ids.text last), ?_⟩
  simp [eventBatchPath, Key.join]

theorem isEventBatchKey_eventPath : isEventBatchKey (eventPath ids conversationDir id) = false := by
  rw [Bool.eq_false_iff]
  intro hbatch
  rw [isEventBatchKey, isSuffixOf_iff_suffix] at hbatch
  exact not_batch_suffix ids id (suffix_of_suffix_join (by decide) hbatch)

theorem under_eventPath : Under (eventsDir conversationDir) (eventPath ids conversationDir id) :=
  ⟨_, (append_assoc _ _ _).trans rfl⟩

end

theorem under_eventBatchPath (first last : Id) :
    Under (eventsDir conversationDir) (eventBatchPath ids conversationDir first last) :=
  ⟨_, (append_assoc _ _ _).trans rfl⟩

theorem eventPath_injective : Function.Injective (eventPath ids conversationDir) := by
  intro id other hkey
  have hid := congrArg (eventIdFromKey ids) hkey
  simpa using hid

end Keys

section Objects
variable {Id Data : Type} (ids : IdText Id) (conversationDir : Key)

/-- The key and the object of an append: one event alone, or one batch for all. -/
def appendedObject (first : Event Id Data) (rest : List (Event Id Data)) :
    Key × EventObject Id Data :=
  match rest with
  | [] => (eventPath ids conversationDir first.id, .single first)
  | _ :: _ =>
    (eventBatchPath ids conversationDir first.id (rest.getLastD first).id, .batch (first :: rest))

/-- Read the events of one object, as the kind its key says. -/
def readEvents (store : EventStore Id Data) (key : Key) :
    Except StorageError (List (Event Id Data)) :=
  if isEventBatchKey key then
    (store.getJsonIfExists EventObject.asBatch key).map (·.getD [])
  else
    (store.getJsonIfExists EventObject.asEvent key).map Option.toList

variable {ids conversationDir}

section
variable (first : Event Id Data) (rest : List (Event Id Data))

@[simp]
theorem appendedObject_events :
    (appendedObject ids conversationDir first rest).2.events = first :: rest := by
  cases rest <;> rfl

theorem under_appendedObject :
    Under (eventsDir conversationDir) (appendedObject ids conversationDir first rest).1 := by
  cases rest with
  | nil => exact under_eventPath ids _
  | cons second rest => exact under_eventBatchPath ids _ _

theorem eventIdFromKey_appendedObject :
    eventIdFromKey ids (appendedObject ids conversationDir first rest).1 =
      some (rest.getLastD first).id := by
  cases rest with
  | nil => exact eventIdFromKey_eventPath ids _
  | cons second rest => exact eventIdFromKey_eventBatchPath ids _ _

end

/-- The name of an object tells the id of its first event. -/
theorem first_id_of_key_eq {first other : Event Id Data} {rest others : List (Event Id Data)}
    (hkey : (appendedObject ids conversationDir first rest).1 =
      (appendedObject ids conversationDir other others).1) : first.id = other.id := by
  have hrange := congrArg (eventBatchRangeFromKey ids) hkey
  cases rest with
  | nil =>
    cases others with
    | nil => exact eventPath_injective ids hkey
    | cons second others => simp [appendedObject] at hrange
  | cons second rest =>
    cases others with
    | nil => simp [appendedObject] at hrange
    | cons second' others =>
      simp only [appendedObject, eventBatchRangeFromKey_eventBatchPath, some.injEq,
        Prod.mk.injEq] at hrange
      exact hrange.1

/-- An appended object is read back as the kind it was put as. -/
theorem readEvents_appendedObject {store : EventStore Id Data} {first : Event Id Data}
    {rest : List (Event Id Data)}
    (hobject : store.lookup (appendedObject ids conversationDir first rest).1 =
      some (appendedObject ids conversationDir first rest).2) :
    readEvents store (appendedObject ids conversationDir first rest).1 = .ok (first :: rest) := by
  cases rest with
  | nil =>
    have hkind : isEventBatchKey (eventPath ids conversationDir first.id) = false :=
      isEventBatchKey_eventPath ids first.id
    have hjson : store.getJsonIfExists EventObject.asEvent
        (eventPath ids conversationDir first.id) = .ok (some first) :=
      ObjectStore.getJsonIfExists_eq hobject rfl
    simp [appendedObject, readEvents, hkind, hjson, Except.map]
  | cons second rest =>
    have hkind : isEventBatchKey (eventBatchPath ids conversationDir first.id
        ((second :: rest).getLastD first).id) = true := isEventBatchKey_eventBatchPath ids _ _
    have hjson : store.getJsonIfExists EventObject.asBatch (eventBatchPath ids conversationDir
        first.id ((second :: rest).getLastD first).id) = .ok (some (first :: second :: rest)) :=
      ObjectStore.getJsonIfExists_eq hobject rfl
    rw [readEvents, appendedObject, if_pos hkind, hjson]
    rfl

end Objects

section Store
variable {Id Data : Type} [LinearOrder Id] (ids : IdText Id) (conversationDir : Key)

section
variable (store : EventStore Id Data)

/-- `load_events`. -/
def loadEvents : Except StorageError (List (Event Id Data)) := do
  let keys := (store.listKeys (eventsDir conversationDir)).filter
    (fun key ↦ (eventIdFromKey ids key).isSome)
  let events ← gather (readEvents store) keys
  return events.insertionSort (·.id ≤ ·.id)

/-- `latest_event_id_from_keys`. -/
def latestEventIdFromKeys (keys : List Key) : Option Id :=
  (keys.filterMap (eventIdFromKey ids)).max?

/-- `latest_committed_event_id`. -/
def latestCommittedEventId : Option Id :=
  latestEventIdFromKeys ids (store.listKeys (eventsDir conversationDir))

section
variable (currentHead expectedHead : Option Id)

/-- `ensure_conversation_head`. -/
def ensureConversationHead : Except (AppendError Id) Unit :=
  if currentHead = expectedHead then .ok () else .error (.headMismatch currentHead expectedHead)

/-- `append_events_to_conversation` up to the notifications, for events that have their ids.
The head is checked only where the caller expects one. -/
def appendEvents :
    List (Event Id Data) → Except (AppendError Id) (EventStore Id Data × AddEventsResult Id)
  | [] => .error .zeroEvents
  | first :: rest => do
    if expectedHead.isSome then
      ensureConversationHead currentHead expectedHead
    let (key, object) := appendedObject ids conversationDir first rest
    return (store.insert key object, ⟨(first :: rest).map Event.id, (rest.getLastD first).id⟩)

end

/-- The events of a batch lie between the ids in the name of its object. -/
def Spanned (first : Event Id Data) (rest : List (Event Id Data)) : Prop :=
  ∀ event ∈ first :: rest, first.id ≤ event.id ∧ event.id ≤ (rest.getLastD first).id

instance (first : Event Id Data) (rest : List (Event Id Data)) : Decidable (Spanned first rest) :=
  inferInstanceAs (Decidable (∀ _ ∈ _, _))

/-- The order of a log: ids strictly increase. -/
def Increasing (log : List (Event Id Data)) : Prop :=
  log.Pairwise (fun earlier later ↦ earlier.id < later.id)

instance (log : List (Event Id Data)) : Decidable (Increasing log) :=
  inferInstanceAs (Decidable (List.Pairwise _ _))

/-- The ids of an append are new and distinct, and lie between the ids its object is named by. -/
def Drawn : List (Event Id Data) → Prop
  | [] => True
  | first :: rest =>
    Spanned first rest ∧ ((first :: rest).map Event.id).Nodup ∧
      ∀ event ∈ first :: rest, event.id ∉ (store.contents EventObject.events).map Event.id

end

instance (store : EventStore Id Data) :
    ∀ events : List (Event Id Data), Decidable (Drawn store events)
  | [] => isTrue trivial
  | _ :: _ => inferInstanceAs (Decidable (_ ∧ _ ∧ _))

/-- The objects of a conversation are those its appends put, and no event id occurs twice. -/
structure WellFormed (store : EventStore Id Data) : Prop where
  placed : ∀ key object, store.lookup key = some object →
    ∃ first rest, appendedObject ids conversationDir first rest = (key, object) ∧ Spanned first rest
  distinct : ((store.contents EventObject.events).map Event.id).Nodup

variable {ids conversationDir} {store : EventStore Id Data}

theorem WellFormed.empty : WellFormed ids conversationDir (∅ : EventStore Id Data) where
  placed key object hobject := by simp at hobject
  distinct := nodup_nil

/-- Appending fresh ids puts one new object and keeps the store well formed. -/
theorem WellFormed.insert (hstore : WellFormed ids conversationDir store) {first : Event Id Data}
    {rest : List (Event Id Data)} (hspanned : Spanned first rest)
    (hnodup : ((first :: rest).map Event.id).Nodup)
    (hfresh : ∀ event ∈ first :: rest,
      event.id ∉ (store.contents EventObject.events).map Event.id) :
    (appendedObject ids conversationDir first rest).1 ∉ store ∧
      WellFormed ids conversationDir (store.insert (appendedObject ids conversationDir first rest).1
        (appendedObject ids conversationDir first rest).2) := by
  have hkey : (appendedObject ids conversationDir first rest).1 ∉ store := by
    intro hmem
    obtain ⟨object, hobject⟩ := isSome_iff_exists.1 (AList.lookup_isSome.2 hmem)
    obtain ⟨other, others, hplaced, -⟩ := hstore.placed _ object hobject
    have hid : first.id = other.id := first_id_of_key_eq (by rw [hplaced])
    have hother : other ∈ object.events := by
      have hevents : (appendedObject ids conversationDir other others).2.events =
          other :: others := appendedObject_events other others
      rw [hplaced] at hevents
      simp only [hevents, mem_cons_self]
    apply hfresh first mem_cons_self
    rw [hid]
    exact mem_map_of_mem (ObjectStore.mem_contents.2 ⟨_, object, hobject, hother⟩)
  refine ⟨hkey, ?_, ?_⟩
  · intro key object hobject
    by_cases hnew : key = (appendedObject ids conversationDir first rest).1
    · rw [hnew, AList.lookup_insert, some.injEq] at hobject
      exact ⟨first, rest, by rw [hnew, ← hobject], hspanned⟩
    · rw [AList.lookup_insert_ne hnew] at hobject
      exact hstore.placed key object hobject
  · rw [ObjectStore.contents_insert _ hkey, appendedObject_events, map_append, nodup_append]
    refine ⟨hnodup, hstore.distinct, ?_⟩
    intro id hid other hother heq
    obtain ⟨event, hevent, rfl⟩ := mem_map.1 hid
    exact hfresh event hevent (heq ▸ hother)

variable {currentHead expectedHead : Option Id} {events log : List (Event Id Data)}
  {result : EventStore Id Data × AddEventsResult Id}

/-- An append either refuses and stores nothing, or puts its one object. -/
theorem appendEvents_ok
    (happend : appendEvents ids conversationDir store currentHead expectedHead events =
      .ok result) :
    ∃ first rest, events = first :: rest ∧
      result.1 = store.insert (appendedObject ids conversationDir first rest).1
        (appendedObject ids conversationDir first rest).2 ∧
      result.2 = ⟨events.map Event.id, (rest.getLastD first).id⟩ := by
  cases events with
  | nil => cases happend
  | cons first rest =>
    simp only [appendEvents, ensureConversationHead] at happend
    split at happend
    · split at happend <;> cases happend
      exact ⟨first, rest, rfl, rfl, rfl⟩
    · cases happend
      exact ⟨first, rest, rfl, rfl, rfl⟩

/-- An append of new ids keeps the store well formed and adds its events to it. -/
theorem appendEvents_spec (hstore : WellFormed ids conversationDir store)
    (hdrawn : Drawn store events)
    (happend : appendEvents ids conversationDir store currentHead expectedHead events =
      .ok result) :
    WellFormed ids conversationDir result.1 ∧
      ObjectStore.contents EventObject.events result.1 =
        events ++ store.contents EventObject.events := by
  obtain ⟨first, rest, rfl, hput, -⟩ := appendEvents_ok happend
  obtain ⟨hspanned, hnodup, hfresh⟩ := hdrawn
  obtain ⟨hkey, hnext⟩ := hstore.insert hspanned hnodup hfresh
  rw [hput, ObjectStore.contents_insert _ hkey, appendedObject_events]
  exact ⟨hnext, rfl⟩

theorem pairwise_insertionSort_id (events : List (Event Id Data)) :
    (events.insertionSort (·.id ≤ ·.id)).Pairwise (fun earlier later ↦ earlier.id ≤ later.id) := by
  have htotal : Std.Total (fun earlier later : Event Id Data ↦ earlier.id ≤ later.id) :=
    ⟨fun earlier later ↦ le_total earlier.id later.id⟩
  have htrans : IsTrans (Event Id Data) (fun earlier later ↦ earlier.id ≤ later.id) :=
    ⟨fun _ _ _ hle hle' ↦ hle.trans hle'⟩
  exact pairwise_insertionSort _ _

theorem pairwise_id_lt (hdistinct : (events.map Event.id).Nodup)
    (hsorted : events.Pairwise (fun earlier later ↦ earlier.id ≤ later.id)) :
    events.Pairwise (fun earlier later ↦ earlier.id < later.id) := by
  have hne : events.Pairwise (fun earlier later ↦ earlier.id ≠ later.id) :=
    pairwise_map.1 hdistinct
  exact hsorted.imp₂ (fun _ _ hle hne ↦ lt_of_le_of_ne hle hne) hne

theorem readEvents_eq (hstore : WellFormed ids conversationDir store) {key : Key}
    {object : EventObject Id Data} (hobject : store.lookup key = some object) :
    readEvents store key = .ok object.events := by
  obtain ⟨first, rest, hplaced, -⟩ := hstore.placed key object hobject
  have hkey : key = (appendedObject ids conversationDir first rest).1 := by rw [hplaced]
  have hput : object = (appendedObject ids conversationDir first rest).2 := by rw [hplaced]
  subst hkey hput
  rw [readEvents_appendedObject hobject, appendedObject_events]

/-- Loading succeeds and reads every stored event once, in the order of the ids. -/
theorem loadEvents_spec (hstore : WellFormed ids conversationDir store) :
    ∃ log, loadEvents ids conversationDir store = .ok log ∧
      log.Perm (store.contents EventObject.events) ∧
      log.Pairwise (fun earlier later ↦ earlier.id < later.id) := by
  have hlisted : ∀ key ∈ store, Under (eventsDir conversationDir) key ∧
      (eventIdFromKey ids key).isSome = true := by
    intro key hkey
    obtain ⟨object, hobject⟩ := isSome_iff_exists.1 (AList.lookup_isSome.2 hkey)
    obtain ⟨first, rest, hplaced, -⟩ := hstore.placed key object hobject
    have heq : (appendedObject ids conversationDir first rest).1 = key := by rw [hplaced]
    rw [← heq, eventIdFromKey_appendedObject]
    exact ⟨under_appendedObject first rest, rfl⟩
  have hkeys : (store.listKeys (eventsDir conversationDir)).filter
      (fun key ↦ (eventIdFromKey ids key).isSome) = store.listKeys (eventsDir conversationDir) :=
    filter_eq_self.2 fun key hkey ↦ (hlisted key (ObjectStore.mem_listKeys.1 hkey).1).2
  have hread : ∀ key ∈ store.listKeys (eventsDir conversationDir),
      readEvents store key = .ok (((store.lookup key).map EventObject.events).getD []) := by
    intro key hkey
    obtain ⟨object, hobject⟩ := isSome_iff_exists.1
      (AList.lookup_isSome.2 (ObjectStore.mem_listKeys.1 hkey).1)
    rw [readEvents_eq hstore hobject, hobject]
    rfl
  have hperm := (ObjectStore.listKeys_perm fun key hkey ↦ (hlisted key hkey).1).flatMap_right
    (fun key ↦ ((store.lookup key).map EventObject.events).getD [])
  rw [ObjectStore.flatMap_keys] at hperm
  refine ⟨_, ?_, (perm_insertionSort (fun earlier later ↦ earlier.id ≤ later.id) _).trans hperm, ?_⟩
  · rw [loadEvents, hkeys, gather_eq_ok hread]
    rfl
  · apply pairwise_id_lt
    · exact (((perm_insertionSort _ _).trans hperm).map Event.id).nodup_iff.2 hstore.distinct
    · exact pairwise_insertionSort_id _

/-- Ids that increase past the log are new, distinct and span their batch. -/
theorem drawn_of_increasing (hcontents : (store.contents EventObject.events).Perm log)
    (hincreasing : Increasing (log ++ events)) : Drawn store events := by
  obtain ⟨-, hevents, hacross⟩ := pairwise_append.1 hincreasing
  cases events with
  | nil => trivial
  | cons first rest =>
    refine ⟨?_, pairwise_map.2 (hevents.imp fun hlt ↦ hlt.ne), ?_⟩
    · intro event hevent
      have hle : (first :: rest).Pairwise (fun earlier later ↦ earlier.id ≤ later.id) :=
        hevents.imp fun hlt ↦ hlt.le
      constructor
      · rcases mem_cons.1 hevent with rfl | hrest
        · exact le_refl _
        · exact (pairwise_cons.1 hle).1 event hrest
      · rw [← getLast_eq_getLastD (cons_ne_nil first rest)]
        exact hle.rel_getLast_of_rel_getLast_getLast hevent (le_refl _)
    · intro event hevent hmem
      obtain ⟨earlier, hearlier, hid⟩ := mem_map.1 hmem
      have hlt := hacross earlier (hcontents.mem_iff.1 hearlier) event hevent
      exact absurd hid hlt.ne

variable (ids conversationDir) in
/-- The store holds exactly the events of the log, whose ids increase. -/
structure Logged (store : EventStore Id Data) (log : List (Event Id Data)) : Prop where
  wellFormed : WellFormed ids conversationDir store
  contents : (store.contents EventObject.events).Perm log
  increasing : Increasing log

theorem logged_empty : Logged ids conversationDir (∅ : EventStore Id Data) [] where
  wellFormed := WellFormed.empty
  contents := List.Perm.refl _
  increasing := List.Pairwise.nil

/-- The log the appends made is the log `load_events` reads. -/
theorem Logged.loadEvents_eq (hlogged : Logged ids conversationDir store log) :
    loadEvents ids conversationDir store = .ok log := by
  obtain ⟨read, hload, hperm, hsorted⟩ := loadEvents_spec hlogged.wellFormed
  have hlog : read = log :=
    (hperm.trans hlogged.contents).eq_of_pairwise
      (fun _ _ _ _ hlt hgt ↦ absurd (hlt.trans hgt) (lt_irrefl _)) hsorted hlogged.increasing
  rw [hload, hlog]

/-- An append leaves the objects that are there as they are. -/
theorem Logged.lookup_append (hlogged : Logged ids conversationDir store log)
    (hincreasing : Increasing (log ++ events))
    (happend : appendEvents ids conversationDir store currentHead expectedHead events =
      .ok result) {key : Key} {object : EventObject Id Data}
    (hobject : store.lookup key = some object) : result.1.lookup key = some object := by
  have hdrawn := drawn_of_increasing hlogged.contents hincreasing
  obtain ⟨first, rest, rfl, hput, -⟩ := appendEvents_ok happend
  obtain ⟨hspanned, hnodup, hfresh⟩ := hdrawn
  have hnew := (hlogged.wellFormed.insert hspanned hnodup hfresh).1
  rw [hput, AList.lookup_insert_ne]
  · exact hobject
  · rintro rfl
    exact hnew (AList.lookup_isSome.1 (isSome_iff_exists.2 ⟨object, hobject⟩))

theorem Logged.append
    (hlogged : Logged ids conversationDir store log) (hincreasing : Increasing (log ++ events))
    (happend : appendEvents ids conversationDir store currentHead expectedHead events =
      .ok result) : Logged ids conversationDir result.1 (log ++ events) := by
  have hdrawn := drawn_of_increasing hlogged.contents hincreasing
  obtain ⟨hstore, hcontents⟩ := appendEvents_spec hlogged.wellFormed hdrawn happend
  refine ⟨hstore, ?_, hincreasing⟩
  rw [hcontents]
  exact perm_append_comm.trans (hlogged.contents.append_right events)

end Store

end Exo.EventLog
