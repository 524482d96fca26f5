import Exo.EventLog.Objects
import Exo.Library.System
import Exo.Library.UpdateFirst

/-!
# Turn handles

A turn is written through `BasicTurnHandle`s.  Any number of them may exist for one turn: the one
`begin_turn` returns, and those `turn_handle` rebuilds from the log for the finalizer, recovery and
approvals.  Every handle caches whether the turn has finished and the id of the latest event it
knows of.  All appends hold the write lock from the read of the head to the end of the put, but the
cached flag is not read again under it.

`log` lists the events in the order of their appends and is read by no operation; what the
operations read is the store.
-/

namespace Exo.EventLog

open Storage Library List Option

/-- The event data turn handles write themselves, and everything else. -/
inductive TurnEventData (Payload : Type) where
  | sessionStarted
  | turnStarted
  | turnEnded
  | messages (payload : Payload)
  | artifactWritten (payload : Payload)
  | other (payload : Payload)

/-- `TurnRecord`. -/
structure TurnRecord (Id : Type) where
  id : Id
  sessionId : Id
  deriving DecidableEq

/-- `BasicTurnHandle` with its `BasicTurnState`. -/
structure TurnHandle (Id : Type) where
  record : TurnRecord Id
  latestEventId : Option Id
  finished : Bool

/-- `BeginTurnRequest`; an empty input is none. -/
structure BeginTurnRequest (Id Payload : Type) where
  turn : TurnRecord Id
  newSession : Bool
  initialEvents : List (TurnEventData Payload)
  input : Option Payload

variable {Id Payload : Type}

/-- `events_to_append` of `begin_turn`. -/
def BeginTurnRequest.eventsToAppend (request : BeginTurnRequest Id Payload) :
    List (TurnEventData Payload) :=
  (if request.newSession then [.sessionStarted] else []) ++ [.turnStarted] ++
    request.initialEvents ++ (request.input.map .messages).toList

/-- The events of an append under the turn's session and id. -/
def TurnRecord.events (record : TurnRecord Id) (ids : List Id)
    (data : List (TurnEventData Payload)) : List (Event Id (TurnEventData Payload)) :=
  List.zipWith (fun id data ↦ ⟨id, some record.sessionId, some record.id, data⟩) ids data

variable [LinearOrder Id]

/-- The event belongs to the turn. -/
def TurnRecord.owns (record : TurnRecord Id) (event : Event Id (TurnEventData Payload)) : Bool :=
  event.sessionId = some record.sessionId && event.turnId = some record.id

/-- Whether the event data is `TurnEnded`. -/
def TurnEventData.isTurnEnded : TurnEventData Payload → Bool
  | .turnEnded => true
  | _ => false

/-- The loop of `turn_handle`: the id of the last event of the turn, and whether it ends it. -/
def TurnRecord.rebuild (record : TurnRecord Id) (events : List (Event Id (TurnEventData Payload))) :
    Option Id × Bool :=
  (events.filter record.owns).foldl (fun _ event ↦ (some event.id, event.data.isTurnEnded))
    (none, false)

/-- A conversation's events and the handles of its turns. -/
structure TurnState (Id Payload : Type) where
  store : EventStore Id (TurnEventData Payload)
  log : List (Event Id (TurnEventData Payload))
  handles : List (TurnHandle Id)

/-- The calls.  Ids are drawn under the lock; `stored` tells whether the put succeeds. -/
inductive TurnLabel (Id Payload : Type) where
  | beginTurn (request : BeginTurnRequest Id Payload) (ids : List Id) (stored : Bool)
  | turnHandle (record : TurnRecord Id)
  | addEvents (handle : ℕ) (data : List (TurnEventData Payload)) (ids : List Id) (stored : Bool)
  | writeArtifact (handle : ℕ) (payload : Payload) (id : Id) (stored : Bool)
  | finish (handle : ℕ) (id : Id) (stored : Bool)

section Calls
variable (text : IdText Id) (conversationDir : Key)

section
variable (state : TurnState Id Payload)

section
variable (record : TurnRecord Id)

section
variable (data : List (TurnEventData Payload))

/-- Append under the lock, with the head just read as the expected one. -/
def TurnState.append (ids : List Id) (stored : Bool) : Option (TurnState Id Payload × Id) :=
  let head := latestCommittedEventId text conversationDir state.store
  match appendEvents text conversationDir state.store head head (record.events ids data) with
  | .ok (store, added) =>
    if stored then
      some ({ state with store := store, log := state.log ++ record.events ids data },
        added.latestEventId)
    else none
  | .error _ => none

/-- What an append through a handle leaves in it. -/
def TurnHandle.touch (latest : Id) (finishes : Bool) (entry : TurnHandle Id) : TurnHandle Id :=
  { entry with latestEventId := some latest, finished := entry.finished || finishes }

/-- An append through a handle, which then knows its latest event. -/
def TurnState.appendThrough (handle : ℕ)
    (data : List (TurnEventData Payload)) (ids : List Id) (stored finishes : Bool) :
    Option (TurnState Id Payload × Id) := do
  let entry ← state.handles[handle]?
  let (next, latest) ← state.append text conversationDir entry.record data ids stored
  return ({ next with handles := next.handles.modify handle (TurnHandle.touch latest finishes) },
    latest)

/-- `begin_turn`. -/
def TurnState.beginTurn (request : BeginTurnRequest Id Payload)
    (ids : List Id) (stored : Bool) : TurnState Id Payload :=
  match state.append text conversationDir request.turn request.eventsToAppend ids stored with
  | some (next, latest) =>
    { next with handles := next.handles ++ [⟨request.turn, some latest, false⟩] }
  | none => state

/-- `turn_handle`; a turn without events is not found. -/
def TurnState.turnHandle : TurnState Id Payload :=
  match loadEvents text conversationDir state.store with
  | .ok events =>
    match record.rebuild events with
    | (some latest, finished) =>
      { state with handles := state.handles ++ [⟨record, some latest, finished⟩] }
    | (none, _) => state
  | .error _ => state

/-- `finish`: the state it leaves and the id it returns, if it returns one. -/
def TurnState.finish (handle : ℕ) (id : Id) (stored : Bool) : TurnState Id Payload × Option Id :=
  match state.handles[handle]? with
  | none => (state, none)
  | some entry =>
    if entry.finished then (state, entry.latestEventId)
    else
      match state.appendThrough text conversationDir handle [.turnEnded] [id] stored true with
      | some (next, latest) => (next, some latest)
      | none => (state, none)

/-- The events of an append get as many ids as there are data, larger than all before. -/
def TurnState.Draws (ids : List Id) : Prop :=
  ids.length = data.length ∧ Increasing (state.log ++ record.events ids data)

end

end

instance (state : TurnState Id Payload) (record : TurnRecord Id)
    (data : List (TurnEventData Payload)) (ids : List Id) :
    Decidable (state.Draws record data ids) := inferInstanceAs (Decidable (_ ∧ _))

/-- A call through a handle that exists. -/
def TurnState.Through (handle : ℕ) (P : TurnHandle Id → Prop) :
    Prop := ∃ entry ∈ state.handles[handle]?, P entry

end

instance (state : TurnState Id Payload) (handle : ℕ) (P : TurnHandle Id → Prop) [DecidablePred P] :
    Decidable (state.Through handle P) := inferInstanceAs (Decidable (∃ _ ∈ _, _))

/-- The calls on one conversation, in any order.  A finished handle draws no id. -/
def turnSystem : System (TurnState Id Payload) (TurnLabel Id Payload) where
  enabled state
    | .beginTurn request ids _ => state.Draws request.turn request.eventsToAppend ids
    | .turnHandle _ => True
    | .addEvents handle data ids _ =>
      state.Through handle fun entry ↦ state.Draws entry.record data ids
    | .writeArtifact handle payload id _ =>
      state.Through handle fun entry ↦ state.Draws entry.record [.artifactWritten payload] [id]
    | .finish handle id _ =>
      state.Through handle fun entry ↦
        entry.finished = true ∨ state.Draws entry.record [.turnEnded] [id]
  next state
    | .beginTurn request ids stored => state.beginTurn text conversationDir request ids stored
    | .turnHandle record => state.turnHandle text conversationDir record
    | .addEvents handle data ids stored =>
      ((state.appendThrough text conversationDir handle data ids stored false).map Prod.fst).getD
        state
    | .writeArtifact handle payload id stored =>
      ((state.appendThrough text conversationDir handle [.artifactWritten payload] [id] stored
        false).map Prod.fst).getD state
    | .finish handle id stored => (state.finish text conversationDir handle id stored).1

instance (state : TurnState Id Payload) :
    ∀ label, Decidable ((turnSystem text conversationDir).enabled state label)
  | .beginTurn request ids _ =>
    inferInstanceAs (Decidable (state.Draws request.turn request.eventsToAppend ids))
  | .turnHandle _ => isTrue trivial
  | .addEvents _ _ _ _ | .writeArtifact _ _ _ _ | .finish _ _ _ =>
    inferInstanceAs (Decidable (TurnState.Through _ _ _))

end Calls

/-- A conversation without events. -/
def TurnState.init : TurnState Id Payload := ⟨∅, [], []⟩

section
variable (log : List (Event Id (TurnEventData Payload)))

/-- The `TurnEnded` events of a turn. -/
def endings (record : TurnRecord Id) : List (Event Id (TurnEventData Payload)) :=
  log.filter (fun event ↦ record.owns event && event.data.isTurnEnded)

/-- An append of these data leaves at most one ending: none is added, or the first one. -/
def MayEnd (record : TurnRecord Id)
    (data : List (TurnEventData Payload)) : Prop :=
  data.countP TurnEventData.isTurnEnded = 0 ∨
    data.countP TurnEventData.isTurnEnded = 1 ∧ endings log record = []

/-- The cached state of a handle agrees with the log: a finished handle knows the turn's ending, and
an unfinished one whose put succeeds finds none. -/
def CacheAgrees (stored : Bool)
    (entry : TurnHandle Id) : Prop :=
  if entry.finished then ∃ event ∈ endings log entry.record, entry.latestEventId = some event.id
  else stored = true → endings log entry.record = []

end

instance [DecidableEq Payload] (log : List (Event Id (TurnEventData Payload))) (stored : Bool)
    (entry : TurnHandle Id) : Decidable (CacheAgrees log stored entry) :=
  inferInstanceAs (Decidable (if entry.finished then
    ∃ event ∈ endings log entry.record, entry.latestEventId = some event.id else _ → _ = []))

/-- The cached state of the handles that finish agrees with the log, and no caller brings a
`TurnEnded` of its own to a turn that has one. -/
def Agrees (state : TurnState Id Payload) : TurnLabel Id Payload → Prop
  | .beginTurn request _ stored =>
    stored = true → MayEnd state.log request.turn request.eventsToAppend
  | .addEvents handle data _ stored =>
    ∀ entry ∈ state.handles[handle]?, stored = true → MayEnd state.log entry.record data
  | .finish handle _ stored =>
    ∀ entry ∈ state.handles[handle]?, CacheAgrees state.log stored entry
  | _ => True

instance [DecidableEq Payload] (state : TurnState Id Payload) :
    ∀ label, Decidable (Agrees state label)
  | .beginTurn _ _ _ => inferInstanceAs (Decidable (_ → _ = 0 ∨ _ ∧ _))
  | .turnHandle _ => isTrue trivial
  | .addEvents _ _ _ _ => inferInstanceAs (Decidable (∀ _ ∈ _, _ → _ = 0 ∨ _ ∧ _))
  | .writeArtifact _ _ _ _ => isTrue trivial
  | .finish _ _ stored =>
    inferInstanceAs (Decidable (∀ entry ∈ _, CacheAgrees state.log stored entry))

section Runs
variable (text : IdText Id) (conversationDir : Key)

section
variable (state : TurnState Id Payload)

/-- A `finish` whose put succeeds returns, and what it returns is the id of the turn's ending. -/
def ReturnsEnding : TurnLabel Id Payload → Prop
  | .finish handle id stored =>
    ∀ entry ∈ state.handles[handle]?,
      (stored = true → (state.finish text conversationDir handle id stored).2.isSome = true) ∧
        ∀ returned ∈ (state.finish text conversationDir handle id stored).2,
          ∃ event ∈ endings (state.finish text conversationDir handle id stored).1.log entry.record,
            event.id = returned
  | _ => True

/-- After the call every turn has at most one ending, and a `finish` has returned its id. -/
def EndsOnce (label : TurnLabel Id Payload) : Prop :=
  (∀ record, (endings ((turnSystem text conversationDir).next state label).log record).length ≤ 1) ∧
    ReturnsEnding text conversationDir state label

/-- The store holds the log, no turn has two endings, and a finished handle has a latest event. -/
structure TurnInvariant : Prop where
  logged : Logged text conversationDir state.store state.log
  once : ∀ record, (endings state.log record).length ≤ 1
  latest : ∀ entry ∈ state.handles, entry.finished = true → entry.latestEventId.isSome = true

end

variable {text conversationDir} {state : TurnState Id Payload} {record : TurnRecord Id}
  {data : List (TurnEventData Payload)} {ids : List Id}

theorem endings_append (log events : List (Event Id (TurnEventData Payload)))
    (record : TurnRecord Id) : endings (log ++ events) record =
      endings log record ++ endings events record := filter_append _ _

theorem endings_events_of_ne {other : TurnRecord Id} (hother : other ≠ record) :
    endings (record.events ids data) other = [] := by
  induction data generalizing ids with
  | nil => simp [TurnRecord.events, endings]
  | cons head data ih =>
    cases ids with
    | nil => rfl
    | cons id ids =>
      have howns : other.owns (⟨id, some record.sessionId, some record.id, head⟩ :
          Event Id (TurnEventData Payload)) = false := by
        rw [Bool.eq_false_iff]
        intro howns
        simp only [TurnRecord.owns, some.injEq, Bool.and_eq_true, decide_eq_true_eq] at howns
        apply hother
        cases other
        cases record
        simp_all
      have hrest : endings (record.events ids data) other = [] := ih
      simp only [endings] at hrest ⊢
      rw [TurnRecord.events, zipWith_cons_cons, filter_cons]
      simp only [howns, Bool.false_and, Bool.false_eq_true, if_false]
      exact hrest

theorem length_endings_events (hlength : ids.length = data.length) :
    (endings (record.events ids data) record).length =
      data.countP TurnEventData.isTurnEnded := by
  induction data generalizing ids with
  | nil => simp [TurnRecord.events, endings]
  | cons head data ih =>
    cases ids with
    | nil => simp at hlength
    | cons id ids =>
      have howns : record.owns (⟨id, some record.sessionId, some record.id, head⟩ :
          Event Id (TurnEventData Payload)) = true := by simp [TurnRecord.owns]
      have hrest : (endings (record.events ids data) record).length =
          data.countP TurnEventData.isTurnEnded := ih (by simpa using hlength)
      simp only [endings, TurnRecord.events] at hrest ⊢
      rw [zipWith_cons_cons, filter_cons, countP_cons]
      simp only [howns, Bool.true_and]
      split <;> simp [hrest]

/-- An append leaves every turn with at most one ending exactly if its data may end its turn. -/
theorem once_append_iff (honce : ∀ record, (endings state.log record).length ≤ 1)
    (hlength : ids.length = data.length) :
    (∀ other, (endings (state.log ++ record.events ids data) other).length ≤ 1) ↔
      MayEnd state.log record data := by
  have hown : (endings (state.log ++ record.events ids data) record).length =
      (endings state.log record).length + data.countP TurnEventData.isTurnEnded := by
    rw [endings_append, length_append, length_endings_events hlength]
  have hrecord := honce record
  unfold MayEnd
  rw [← length_eq_zero_iff]
  constructor
  · intro hafter
    have hbound := hafter record
    omega
  · intro hmay other
    by_cases hother : other = record
    · rw [hother]
      omega
    · rw [endings_append, endings_events_of_ne hother, append_nil]
      exact honce other

theorem appendEvents_same_head (store : EventStore Id (TurnEventData Payload)) (head : Option Id)
    {events : List (Event Id (TurnEventData Payload))} (hevents : events ≠ []) :
    ∃ result, appendEvents text conversationDir store head head events = .ok result := by
  cases events with
  | nil => exact absurd rfl hevents
  | cons first rest => cases head <;> exact ⟨_, by simp [appendEvents, ensureConversationHead]; rfl⟩

/-- The log after an append whose put may fail. -/
def TurnState.logAfter (state : TurnState Id Payload) (record : TurnRecord Id)
    (data : List (TurnEventData Payload)) (ids : List Id) (stored : Bool) :
    List (Event Id (TurnEventData Payload)) :=
  if stored then state.log ++ record.events ids data else state.log

omit [LinearOrder Id] in
theorem events_ne_nil (hlength : ids.length = data.length) (hdata : data ≠ []) :
    record.events ids data ≠ [] := by
  cases data with
  | nil => exact absurd rfl hdata
  | cons head data =>
    cases ids with
    | nil => simp at hlength
    | cons id ids => simp [TurnRecord.events]

variable {stored : Bool} {label : TurnLabel Id Payload}

/-- A successful append extends the log by its events and leaves the handles alone. -/
theorem append_eq_some (hlogged : Logged text conversationDir state.store state.log)
    (hdraws : state.Draws record data ids) {next : TurnState Id Payload} {latest : Id}
    (happend : state.append text conversationDir record data ids stored = some (next, latest)) :
    next.handles = state.handles ∧ next.log = state.logAfter record data ids stored ∧
      Logged text conversationDir next.store next.log ∧ stored = true ∧
      (record.events ids data).getLast?.map Event.id = some latest := by
  unfold TurnState.append at happend
  simp only at happend
  split at happend
  · rename_i store added hput
    split at happend
    · rename_i hstored
      obtain ⟨first, rest, hevents, -, hadded⟩ := appendEvents_ok hput
      cases happend
      refine ⟨rfl, by simp [TurnState.logAfter, hstored], hlogged.append hdraws.2 hput, hstored, ?_⟩
      simp only at hadded
      rw [hadded, hevents, getLast?_eq_some_getLast (cons_ne_nil _ _), getLast_eq_getLastD]
      rfl
    · cases happend
  · cases happend

/-- A failed append leaves the log; with a successful put, only empty data make it fail. -/
theorem append_eq_none (hlength : ids.length = data.length)
    (happend : state.append text conversationDir record data ids stored = none) :
    state.logAfter record data ids stored = state.log ∧ (stored = true → data = []) := by
  by_cases hdata : data = []
  · refine ⟨?_, fun _ ↦ hdata⟩
    simp [TurnState.logAfter, hdata, TurnRecord.events]
  · have hevents : record.events ids data ≠ [] := events_ne_nil hlength hdata
    obtain ⟨result, hput⟩ : ∃ result, appendEvents text conversationDir state.store
        (latestCommittedEventId text conversationDir state.store)
        (latestCommittedEventId text conversationDir state.store) (record.events ids data) =
          .ok result := appendEvents_same_head _ _ hevents
    simp only [TurnState.append, hput] at happend
    split at happend
    · cases happend
    · rename_i hstored
      exact ⟨by simp [TurnState.logAfter, hstored], fun h ↦ absurd h hstored⟩

section
variable (hstate : TurnInvariant text conversationDir state)
include hstate

theorem beginTurn_spec {request : BeginTurnRequest Id Payload}
    (hdraws : state.Draws request.turn request.eventsToAppend ids) (stored : Bool) :
    let next := state.beginTurn text conversationDir request ids stored
    next.log = state.logAfter request.turn request.eventsToAppend ids stored ∧
      Logged text conversationDir next.store next.log ∧
      ∀ entry ∈ next.handles, entry.finished = true → entry.latestEventId.isSome = true := by
  simp only [TurnState.beginTurn]
  split
  · rename_i next latest happend
    obtain ⟨hhandles, hlog, hlogged, -⟩ := append_eq_some hstate.logged hdraws happend
    refine ⟨hlog, hlogged, ?_⟩
    intro entry hentry
    simp only [hhandles, mem_append, mem_singleton] at hentry
    rcases hentry with hentry | rfl
    · exact hstate.latest entry hentry
    · exact fun _ ↦ rfl
  · rename_i happend
    obtain ⟨hlog, -⟩ := append_eq_none hdraws.1 happend
    exact ⟨hlog.symm, hstate.logged, hstate.latest⟩

variable {handle : ℕ} {entry : TurnHandle Id}

/-- An append through a handle: the log grows, and the handle knows its latest event. -/
theorem appendThrough_spec (hentry : state.handles[handle]? = some entry)
    (hdraws : state.Draws entry.record data ids) (stored finishes : Bool) :
    let result := state.appendThrough text conversationDir handle data ids stored finishes
    let next := (result.map Prod.fst).getD state
    next.log = state.logAfter entry.record data ids stored ∧
      Logged text conversationDir next.store next.log ∧
      (∀ entry ∈ next.handles, entry.finished = true → entry.latestEventId.isSome = true) ∧
      (∀ latest, result.map Prod.snd = some latest → stored = true ∧
        (entry.record.events ids data).getLast?.map Event.id = some latest) ∧
      (stored = true → data ≠ [] → result.isSome = true) := by
  have hthrough : state.appendThrough text conversationDir handle data ids stored finishes =
      (state.append text conversationDir entry.record data ids stored).map fun result ↦
        ({ result.1 with
            handles := result.1.handles.modify handle (TurnHandle.touch result.2 finishes) },
          result.2) := by
    simp only [TurnState.appendThrough, hentry, bind_eq_bind, bind_some]
    cases state.append text conversationDir entry.record data ids stored <;> rfl
  intro result next
  cases happend : state.append text conversationDir entry.record data ids stored with
  | none =>
    obtain ⟨hlog, hempty⟩ := append_eq_none hdraws.1 happend
    have hresult : result = none := by rw [← map_none, ← happend]; exact hthrough
    have hnext : next = state := by simp [next, hresult]
    rw [hnext, hresult]
    refine ⟨hlog.symm, hstate.logged, hstate.latest, by simp, ?_⟩
    exact fun hstored hdata ↦ absurd (hempty hstored) hdata
  | some appended =>
    obtain ⟨after, latest⟩ := appended
    obtain ⟨hhandles, hlog, hlogged, hstored, hlatest⟩ :=
      append_eq_some hstate.logged hdraws happend
    have hresult : result = some ({ after with
        handles := after.handles.modify handle (TurnHandle.touch latest finishes) }, latest) := by
      rw [happend] at hthrough
      exact hthrough
    have hnext : next = { after with
        handles := after.handles.modify handle (TurnHandle.touch latest finishes) } := by
      simp [next, hresult]
    rw [hnext, hresult]
    refine ⟨hlog, hlogged, ?_, ?_, fun _ _ ↦ rfl⟩
    · rw [hhandles]
      exact forall_mem_modify hstate.latest handle (fun _ _ _ _ ↦ rfl)
    · intro other hother
      cases hother
      exact ⟨hstored, hlatest⟩

/-- `finish` through a handle that has not finished appends one `TurnEnded` and returns its id. -/
theorem finish_unfinished (hentry : state.handles[handle]? = some entry)
    (hunfinished : entry.finished = false) {id : Id}
    (hdraws : state.Draws entry.record [.turnEnded] [id]) (stored : Bool) :
    let result := state.finish text conversationDir handle id stored
    result.1.log = state.logAfter entry.record [.turnEnded] [id] stored ∧
      Logged text conversationDir result.1.store result.1.log ∧
      (∀ entry ∈ result.1.handles, entry.finished = true → entry.latestEventId.isSome = true) ∧
      (stored = true → result.2.isSome = true) ∧
      ∀ returned ∈ result.2, stored = true ∧ returned = id := by
  have hfinish : state.finish text conversationDir handle id stored =
      (((state.appendThrough text conversationDir handle [.turnEnded] [id] stored true).map
        Prod.fst).getD state,
      (state.appendThrough text conversationDir handle [.turnEnded] [id] stored true).map
        Prod.snd) := by
    simp only [TurnState.finish, hentry, hunfinished, Bool.false_eq_true, if_false]
    cases state.appendThrough text conversationDir handle [.turnEnded] [id] stored true <;> rfl
  obtain ⟨hlog, hlogged, hlatest, hreturned, hsome⟩ :=
    appendThrough_spec hstate hentry hdraws stored true
  intro result
  have hresult : result = _ := hfinish
  rw [hresult]
  refine ⟨hlog, hlogged, hlatest, ?_, ?_⟩
  · intro hstored
    rw [isSome_map]
    exact hsome hstored (by simp)
  · intro returned hmem
    obtain ⟨hstored, hid⟩ := hreturned returned hmem
    simp only [TurnRecord.events, zipWith_cons_cons, zipWith_nil_right,
      getLast?_singleton, map_some, some.injEq] at hid
    exact ⟨hstored, hid.symm⟩

end

theorem turnInvariant_init :
    TurnInvariant text conversationDir (TurnState.init : TurnState Id Payload) where
  logged := logged_empty
  once record := by simp [TurnState.init, endings]
  latest := nofun

theorem turnHandle_spec (hstate : TurnInvariant text conversationDir state)
    (record : TurnRecord Id) :
    TurnInvariant text conversationDir (state.turnHandle text conversationDir record) := by
  rw [TurnState.turnHandle, hstate.logged.loadEvents_eq]
  simp only
  split
  · refine ⟨hstate.logged, hstate.once, ?_⟩
    intro entry hentry
    rcases mem_append.1 hentry with hentry | hentry
    · exact hstate.latest entry hentry
    · rw [mem_singleton.1 hentry]
      exact fun _ ↦ rfl
  · exact hstate

theorem once_logAfter_iff (honce : ∀ record, (endings state.log record).length ≤ 1)
    (hlength : ids.length = data.length) (stored : Bool) :
    (∀ other, (endings (state.logAfter record data ids stored) other).length ≤ 1) ↔
      (stored = true → MayEnd state.log record data) := by
  cases stored with
  | false => simpa [TurnState.logAfter] using honce
  | true => simpa [TurnState.logAfter] using once_append_iff honce hlength

section
variable (hstate : TurnInvariant text conversationDir state)
  (henabled : (turnSystem text conversationDir).enabled state label)
include hstate henabled

/-- A call keeps the turn's endings single and returns the right id exactly if it agrees. -/
theorem endsOnce_iff_agrees : EndsOnce text conversationDir state label ↔ Agrees state label := by
  cases label with
  | beginTurn request ids stored =>
    have hlog := (beginTurn_spec hstate henabled stored).1
    simp only [EndsOnce, ReturnsEnding, and_true, turnSystem, Agrees]
    rw [hlog]
    exact once_logAfter_iff hstate.once henabled.1 stored
  | turnHandle record =>
    simp only [EndsOnce, ReturnsEnding, and_true, turnSystem, Agrees, iff_true]
    exact (turnHandle_spec hstate record).once
  | addEvents handle data ids stored =>
    obtain ⟨entry, hentry, hdraws⟩ := henabled
    have hlog := (appendThrough_spec hstate hentry hdraws stored false).1
    simp only [EndsOnce, ReturnsEnding, and_true, turnSystem, Agrees]
    rw [hlog, once_logAfter_iff hstate.once hdraws.1, mem_def.1 hentry]
    simp
  | writeArtifact handle payload id stored =>
    obtain ⟨entry, hentry, hdraws⟩ := henabled
    have hlog := (appendThrough_spec hstate hentry hdraws stored false).1
    simp only [EndsOnce, ReturnsEnding, and_true, turnSystem, Agrees, iff_true]
    rw [hlog, once_logAfter_iff hstate.once hdraws.1]
    exact fun _ ↦ .inl rfl
  | finish handle id stored =>
    obtain ⟨entry, hentry, hready⟩ := henabled
    have hhandle : state.handles[handle]? = some entry := hentry
    simp only [EndsOnce, ReturnsEnding, turnSystem, Agrees, CacheAgrees, hhandle,
      mem_some_iff, forall_eq']
    cases hfinished : entry.finished with
    | true =>
      have hfinish : state.finish text conversationDir handle id stored =
          (state, entry.latestEventId) := by
        simp [TurnState.finish, hhandle, hfinished]
      obtain ⟨latest, hlatest⟩ := isSome_iff_exists.1
        (hstate.latest entry (mem_of_getElem? hhandle) hfinished)
      simp only [hfinish, hlatest, isSome_some, implies_true, true_and, mem_some_iff,
        if_true, some.injEq, eq_comm (a := latest), forall_eq]
      exact and_iff_right hstate.once
    | false =>
      have hdraws := hready.resolve_left (by simp [hfinished])
      obtain ⟨hlog, -, -, hsome, hreturned⟩ :=
        finish_unfinished hstate hhandle hfinished hdraws stored
      have hreturns : ∀ returned ∈ (state.finish text conversationDir handle id stored).2,
          ∃ event ∈ endings (state.finish text conversationDir handle id stored).1.log entry.record,
            event.id = returned := by
        intro returned hmem
        obtain ⟨hstored, rfl⟩ := hreturned returned hmem
        refine ⟨⟨returned, some entry.record.sessionId, some entry.record.id, .turnEnded⟩, ?_, rfl⟩
        rw [hlog, TurnState.logAfter, if_pos hstored, endings_append]
        apply mem_append_right
        simp [endings, TurnRecord.events, TurnRecord.owns, TurnEventData.isTurnEnded]
      have hmay : MayEnd state.log entry.record ([.turnEnded] : List (TurnEventData Payload)) ↔
          endings state.log entry.record = [] := by
        simp [MayEnd, TurnEventData.isTurnEnded]
      rw [and_iff_left ⟨hsome, hreturns⟩, hlog, once_logAfter_iff hstate.once hdraws.1, hmay]
      simp

theorem TurnInvariant.next (hagrees : Agrees state label) :
    TurnInvariant text conversationDir ((turnSystem text conversationDir).next state label) := by
  have honce := ((endsOnce_iff_agrees hstate henabled).2 hagrees).1
  cases label with
  | beginTurn request ids stored =>
    obtain ⟨-, hlogged, hlatest⟩ := beginTurn_spec hstate henabled stored
    exact ⟨hlogged, honce, hlatest⟩
  | turnHandle record => exact turnHandle_spec hstate record
  | addEvents handle data ids stored | writeArtifact handle payload id stored =>
    obtain ⟨entry, hentry, hdraws⟩ := henabled
    obtain ⟨-, hlogged, hlatest, -⟩ := appendThrough_spec hstate hentry hdraws stored false
    exact ⟨hlogged, honce, hlatest⟩
  | finish handle id stored =>
    obtain ⟨entry, hentry, hready⟩ := henabled
    have hhandle : state.handles[handle]? = some entry := hentry
    cases hfinished : entry.finished with
    | true =>
      have hnext : (turnSystem text conversationDir).next state (.finish handle id stored) =
          state := by
        simp [turnSystem, TurnState.finish, hhandle, hfinished]
      rw [hnext]
      exact hstate
    | false =>
      obtain ⟨-, hlogged, hlatest, -⟩ := finish_unfinished hstate hhandle hfinished
        (hready.resolve_left (by simp [hfinished])) stored
      exact ⟨hlogged, honce, hlatest⟩

end

/-- Along every run of calls, every turn has at most one ending and every `finish` returns its id,
exactly if every `finish` goes through a handle whose cached state agrees with the log and no
caller adds a `TurnEnded` to a turn that has one. -/
theorem turns_end_once_iff (labels : List (TurnLabel Id Payload))
    (hrun : (turnSystem text conversationDir).Admits TurnState.init labels) :
    (turnSystem text conversationDir).Throughout (EndsOnce text conversationDir) TurnState.init
        labels ↔
      (turnSystem text conversationDir).Throughout Agrees TurnState.init labels :=
  System.throughout_congr (TurnInvariant text conversationDir)
    (fun _ _ hstate henabled ↦ endsOnce_iff_agrees hstate henabled)
    (fun _ _ hstate henabled hagrees ↦ hstate.next henabled hagrees) turnInvariant_init hrun

end Runs

/-- A turn is begun, a second handle is rebuilt from the log, and both are finished. -/
def finishTwice : List (TurnLabel (Fin (2 ^ 128)) Unit) :=
  [.beginTurn ⟨⟨7, 8⟩, true, [], some ()⟩ [1, 2, 3] true, .turnHandle ⟨7, 8⟩, .finish 0 4 true,
    .finish 1 5 true]

theorem finishing_two_handles_ends_twice :
    (turnSystem uuidText "thread".toList).Admits TurnState.init finishTwice ∧
      ¬ (turnSystem uuidText "thread".toList).Throughout (EndsOnce uuidText "thread".toList)
        TurnState.init finishTwice := by
  refine ⟨by decide +kernel, fun hrun ↦ ?_⟩
  have honce := hrun.2.2.2.1.1 ⟨7, 8⟩
  exact absurd honce (by decide +kernel)

/-- A turn is begun and finished, finished again, rebuilt and finished once more. -/
def finishAgain : List (TurnLabel (Fin (2 ^ 128)) Unit) :=
  [.beginTurn ⟨⟨7, 8⟩, true, [], some ()⟩ [1, 2, 3] true, .addEvents 0 [.other ()] [4] true,
    .finish 0 5 true, .finish 0 6 true, .turnHandle ⟨7, 8⟩, .finish 1 6 true]

theorem turns_end_once_finishAgain :
    (turnSystem uuidText "thread".toList).Admits TurnState.init finishAgain ∧
      (turnSystem uuidText "thread".toList).Throughout (EndsOnce uuidText "thread".toList)
        TurnState.init finishAgain :=
  ⟨by decide +kernel, (turns_end_once_iff finishAgain (by decide +kernel)).2 (by decide +kernel)⟩

end Exo.EventLog
