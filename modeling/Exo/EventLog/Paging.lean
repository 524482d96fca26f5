import Exo.EventLog.Objects

/-!
# Paging through the log

`get_events` loads the whole log, keeps what the query asks for and returns the id of the last
event of the page as the position to resume from.  A reader that pages upwards without filters
holds a prefix of the log at every moment, whatever is appended between two of its pages: its
cursor is the id of the last event of that prefix.
-/

namespace Exo.EventLog

open Storage List

/-- `EventQueryDirection`. -/
inductive EventQueryDirection where
  | asc
  | desc

/-- `EventQuery`, with event kinds as their wire names. -/
structure EventQuery (Id : Type) where
  cursor : Option Id := none
  direction : Option EventQueryDirection := none
  limit : Option ℕ := none
  sessionId : Option Id := none
  turnId : Option Id := none
  types : Option (List String) := none

/-- `GetEventsResult`. -/
structure GetEventsResult (Id Data : Type) where
  events : List (Event Id Data)
  cursor : Option Id

/-- `canonical_event_kind`. -/
def canonicalEventKind : String → String
  | "conversation_created" => "thread_created"
  | "conversation_updated" => "thread_updated"
  | "conversation_deleted" => "thread_deleted"
  | "conversation_forked" => "thread_forked"
  | kind => kind

/-- `EventKind::matches`. -/
def kindMatches (kind other : String) : Bool := canonicalEventKind kind = canonicalEventKind other

variable {Id Data : Type} [LinearOrder Id]

section
variable (kind : Data → String) (query : EventQuery Id)

/-- The session, turn and type filters of a query. -/
def EventQuery.keeps (event : Event Id Data) : Bool :=
  query.sessionId.all (fun sessionId ↦ event.sessionId = some sessionId) &&
    query.turnId.all (fun turnId ↦ event.turnId = some turnId) &&
    query.types.all (fun types ↦ types.any (kindMatches · (kind event.data)))

/-- Order and position of a query: upwards after the cursor, or downwards before it. -/
def EventQuery.resume (query : EventQuery Id) (events : List (Event Id Data)) :
    List (Event Id Data) :=
  match query.direction.getD .asc with
  | .asc => events.filter (fun event ↦ query.cursor.all (· < event.id))
  | .desc => events.reverse.filter (fun event ↦ query.cursor.all (event.id < ·))

/-- The page a query selects from the log. -/
def EventQuery.page (log : List (Event Id Data)) : List (Event Id Data) :=
  let events := query.resume (log.filter (query.keeps kind))
  match query.limit with
  | some limit => events.take limit
  | none => events

end

/-- `get_events`. -/
def getEvents (ids : IdText Id) (conversationDir : Key) (kind : Data → String)
    (store : EventStore Id Data) (query : Option (EventQuery Id)) :
    Except StorageError (GetEventsResult Id Data) := do
  let log ← loadEvents ids conversationDir store
  let events := query.elim log (fun query ↦ query.page kind log)
  return { events := events, cursor := events.getLast?.map Event.id }

/-- A reader that pages upwards: the position to resume from and what it has read. -/
structure Reader (Id Data : Type) where
  cursor : Option Id
  collected : List (Event Id Data)

namespace Reader

/-- The query for the next page. -/
def query (reader : Reader Id Data) (limit : Option ℕ) : EventQuery Id :=
  { cursor := reader.cursor, limit := limit }

/-- Take a page; an empty one leaves the position. -/
def take (reader : Reader Id Data) (result : GetEventsResult Id Data) : Reader Id Data where
  cursor := result.cursor.or reader.cursor
  collected := reader.collected ++ result.events

/-- The reader holds a prefix of the log and resumes after its last event. -/
def At (log : List (Event Id Data)) (reader : Reader Id Data) : Prop :=
  reader.collected <+: log ∧ reader.cursor = reader.collected.getLast?.map Event.id

end Reader

/-- What follows an element of an ordered list is what comes later than it. -/
theorem filter_after {α : Type*} {r : α → α → Bool} (hasymm : ∀ a b, r a b = true → r b a = false)
    {before after : List α} {a : α}
    (hlist : (before ++ a :: after).Pairwise fun b c ↦ r b c = true) :
    (before ++ a :: after).filter (r a) = after := by
  obtain ⟨-, hafter, hbefore⟩ := pairwise_append.1 hlist
  have hfirst : before.filter (r a) = [] :=
    filter_eq_nil_iff.2 fun b hb ↦ by simp [hasymm b a (hbefore b hb a mem_cons_self)]
  have hlast : after.filter (r a) = after :=
    filter_eq_self.2 (pairwise_cons.1 hafter).1
  have hself : r a a = false := by
    cases hr : r a a with
    | false => rfl
    | true => exact hr ▸ hasymm a a hr
  rw [filter_append, filter_cons, hfirst, hlast]
  simp [hself]

namespace Reader

variable {log : List (Event Id Data)} {reader : Reader Id Data}

/-- What a reader has not read yet is what lies after its cursor. -/
theorem At.unread (hat : reader.At log) (hlog : Increasing log) :
    reader.collected ++ log.filter (fun event ↦ reader.cursor.all (· < event.id)) = log := by
  obtain ⟨⟨rest, hrest⟩, hcursor⟩ := hat
  rcases eq_nil_or_concat reader.collected with hnil | ⟨before, event, hlast⟩
  · rw [hnil] at hcursor ⊢
    rw [hcursor]
    simp
  · rw [hlast] at hcursor hrest ⊢
    simp only [concat_eq_append, append_assoc, singleton_append] at hrest ⊢
    rw [← hrest] at hlog ⊢
    have hafter := filter_after (r := fun event other : Event Id Data ↦ event.id < other.id)
      (by simp +contextual [le_of_lt]) (hlog.imp decide_eq_true)
    simp only [hcursor, concat_eq_append, getLast?_concat, Option.map_some, Option.all_some]
    rw [hafter]

theorem page_query (reader : Reader Id Data) (kind : Data → String) (limit : Option ℕ)
    (log : List (Event Id Data)) :
    (reader.query limit).page kind log <+:
      log.filter (fun event ↦ reader.cursor.all (· < event.id)) := by
  have hkeeps : log.filter ((reader.query limit).keeps kind) = log :=
    filter_eq_self.2 fun event _ ↦ by simp [EventQuery.keeps, query]
  unfold EventQuery.page
  rw [hkeeps]
  cases limit with
  | none => exact prefix_refl _
  | some limit => exact take_prefix _ _

/-- A page keeps the reader at a prefix of the log. -/
theorem At.take (hat : reader.At log) (hlog : Increasing log) (kind : Data → String)
    (limit : Option ℕ) :
    (reader.take ⟨(reader.query limit).page kind log,
      ((reader.query limit).page kind log).getLast?.map Event.id⟩).At log := by
  constructor
  · have hprefix := prefix_append_right_inj reader.collected |>.2 (page_query reader kind limit log)
    rwa [hat.unread hlog] at hprefix
  · simp only [Reader.take]
    rw [getLast?_append, Option.map_or, hat.2]

omit [LinearOrder Id] in
theorem At.append (hat : reader.At log) (events : List (Event Id Data)) :
    reader.At (log ++ events) :=
  ⟨hat.1.trans (prefix_append _ _), hat.2⟩

end Reader

end Exo.EventLog
