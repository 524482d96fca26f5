import Exo.EventLog.Paging
import Exo.Library.System
import Exo.Library.UpdateFirst

/-!
# Watching a conversation

An append holds the harness's write lock while it puts its object and then sends its events, one
by one, to every subscriber of the conversation.  `watch_events` holds the same lock while it loads
the events of its bound and registers a channel; the stream it returns yields the loaded events and
then the channel's.  Pages are read without the lock, by a walk through the directory that meets all
objects which were there when it began, and any of those that are put meanwhile.

`appended` lists the batches in the order of their puts, and a watcher's `snapshot` is the log at
its registration.  Neither is read by any operation.
-/

namespace Exo.EventLog

open Storage Library List System Option

/-- `std::ops::Bound` of event ids. -/
inductive EventBound (Id : Type) where
  | unbounded
  | included (id : Id)
  | excluded (id : Id)
  deriving DecidableEq

/-- The stream of one `watch_events` call and its sender among the subscribers. -/
structure Watcher (Id Data : Type) where
  bound : EventBound Id
  snapshot : List (Event Id Data)
  existing : List (Event Id Data)
  queue : List (Event Id Data)
  yielded : List (Event Id Data)
  subscribed : Bool
  dropped : Bool

/-- Who holds the write lock, and how far it is. -/
inductive LockHolder (Id Data : Type) where
  | free
  | appending
  | notifying (rest : List (Event Id Data))
  | watching (bound : EventBound Id)
  | loaded (bound : EventBound Id) (existing : List (Event Id Data))
  deriving DecidableEq

/-- A watcher has the lock and is about to load. -/
def LockHolder.isWatching {Id Data : Type} : LockHolder Id Data → Bool
  | .watching _ => true
  | _ => false

/-- A watcher has the lock and is about to register. -/
def LockHolder.isLoaded {Id Data : Type} : LockHolder Id Data → Bool
  | .loaded _ _ => true
  | _ => false

/-- A reader, and the objects that were there when the walk for its page began. -/
structure PageReader (Id Data : Type) extends Reader Id Data where
  listing : Option (List Key)

/-- A conversation with its writers, its watchers and its readers. -/
structure WatchState (Id Data : Type) where
  store : EventStore Id Data
  appended : List (List (Event Id Data))
  holder : LockHolder Id Data
  watchers : List (Watcher Id Data)
  readers : List (PageReader Id Data)

/-- The steps of writers, watchers and readers.  `missed` are the objects put during the walk for a
page that it does not meet. -/
inductive WatchLabel (Id Data : Type) where
  | lockAppend
  | put (expectsHead : Bool) (events : List (Event Id Data))
  | failPut
  | notify
  | unlock
  | lockWatch (bound : EventBound Id)
  | load
  | register
  | poll (watcher : ℕ)
  | drop (watcher : ℕ)
  | openReader
  | list (reader : ℕ)
  | page (reader : ℕ) (limit : Option ℕ) (missed : List Key)

variable {Id Data : Type} [LinearOrder Id]

/-- `matches_bound`. -/
def matchesBound (id : Id) : EventBound Id → Bool
  | .unbounded => false
  | .included bound => bound ≤ id
  | .excluded bound => bound < id

omit [LinearOrder Id] in
/-- `sender.send`, as `notify_subscribers` retains it: a dropped receiver loses its entry. -/
def Watcher.send (event : Event Id Data) (watcher : Watcher Id Data) : Watcher Id Data :=
  if watcher.subscribed then
    if watcher.dropped then { watcher with subscribed := false }
    else { watcher with queue := watcher.queue ++ [event] }
  else watcher

/-- One poll of the stream: the loaded events first, then the channel. -/
def Watcher.poll (watcher : Watcher Id Data) : Watcher Id Data :=
  match watcher.existing, watcher.queue with
  | event :: existing, _ =>
    { watcher with existing := existing, yielded := watcher.yielded ++ [event] }
  | [], event :: queue => { watcher with queue := queue, yielded := watcher.yielded ++ [event] }
  | [], [] => watcher

namespace WatchState

/-- The log, in the order of the appends. -/
def log (state : WatchState Id Data) : List (Event Id Data) := state.appended.flatten

/-- The stored events whose notification is still to come. -/
def unnotified (state : WatchState Id Data) : List (Event Id Data) :=
  match state.holder with
  | .notifying rest => rest
  | _ => []

/-- Nothing stored, nobody watching. -/
def init : WatchState Id Data := ⟨∅, [], .free, [], []⟩

end WatchState

section System
variable (ids : IdText Id) (conversationDir : Key) (kind : Data → String)

/-- Load the events of the bound; without a bound nothing is read. -/
def loadExisting (store : EventStore Id Data) (bound : EventBound Id) :
    Except StorageError (List (Event Id Data)) :=
  match bound with
  | .unbounded => .ok []
  | bound => (loadEvents ids conversationDir store).map
      (·.filter (fun event ↦ matchesBound event.id bound))

omit [LinearOrder Id] in
/-- The objects but for those that a walk has missed. -/
def seen (store : EventStore Id Data) (missed : List Key) : EventStore Id Data :=
  missed.foldl (fun store key ↦ store.erase key) store

/-- The steps of writers, watchers and readers, of which only readers do without the lock. -/
def watchSystem : System (WatchState Id Data) (WatchLabel Id Data) where
  enabled state
    | .lockAppend => state.holder = .free
    | .put _ events => state.holder = .appending ∧ Increasing (state.log ++ events)
    | .failPut => state.holder = .appending
    | .notify => state.unnotified ≠ []
    | .unlock => state.holder = .notifying []
    | .lockWatch _ => state.holder = .free
    | .load => state.holder.isWatching = true
    | .register => state.holder.isLoaded = true
    | .poll watcher => state.watchers[watcher]?.any (!·.dropped) = true
    | .drop watcher => watcher < state.watchers.length
    | .openReader => True
    | .list reader => reader < state.readers.length
    | .page reader _ missed => ∃ entry ∈ state.readers[reader]?, ∃ keys ∈ entry.listing,
      ∀ key ∈ missed, key ∉ keys
  next state
    | .lockAppend => { state with holder := .appending }
    | .put expectsHead events =>
      let head := latestCommittedEventId ids conversationDir state.store
      match appendEvents ids conversationDir state.store head (if expectsHead then head else none)
          events with
      | .error _ => { state with holder := .free }
      | .ok (store, _) =>
        { state with
          store := store, appended := state.appended ++ [events], holder := .notifying events }
    | .failPut => { state with holder := .free }
    | .notify =>
      match state.holder with
      | .notifying (event :: rest) =>
        { state with
          watchers := state.watchers.map (Watcher.send event), holder := .notifying rest }
      | _ => state
    | .unlock => { state with holder := .free }
    | .lockWatch bound => { state with holder := .watching bound }
    | .load =>
      match state.holder with
      | .watching bound =>
        match loadExisting ids conversationDir state.store bound with
        | .ok existing => { state with holder := .loaded bound existing }
        | .error _ => { state with holder := .free }
      | _ => state
    | .register =>
      match state.holder with
      | .loaded bound existing =>
        { state with
          watchers := state.watchers ++ [⟨bound, state.log, existing, [], [], true, false⟩],
          holder := .free }
      | _ => state
    | .poll watcher => { state with watchers := state.watchers.modify watcher Watcher.poll }
    | .drop watcher =>
      { state with
        watchers := state.watchers.modify watcher fun entry ↦ { entry with dropped := true } }
    | .openReader => { state with readers := state.readers ++ [⟨⟨none, []⟩, none⟩] }
    | .list reader =>
      { state with
        readers := state.readers.modify reader fun entry ↦
          { entry with listing := some state.store.keys } }
    | .page reader limit missed =>
      { state with
        readers := state.readers.modify reader fun entry ↦
          match getEvents ids conversationDir kind (seen state.store missed)
            (some (entry.query limit)) with
          | .ok result => ⟨entry.take result, none⟩
          | .error _ => { entry with listing := none } }

instance [DecidableEq Data] (state : WatchState Id Data) :
    ∀ label, Decidable ((watchSystem ids conversationDir kind).enabled state label)
  | .lockAppend | .lockWatch _ => inferInstanceAs (Decidable (state.holder = .free))
  | .put _ events =>
    inferInstanceAs (Decidable (state.holder = .appending ∧ Increasing (state.log ++ events)))
  | .failPut => inferInstanceAs (Decidable (state.holder = .appending))
  | .notify => inferInstanceAs (Decidable (state.unnotified ≠ []))
  | .unlock => inferInstanceAs (Decidable (state.holder = .notifying []))
  | .load => inferInstanceAs (Decidable (state.holder.isWatching = true))
  | .register => inferInstanceAs (Decidable (state.holder.isLoaded = true))
  | .poll _ => inferInstanceAs (Decidable (Option.any _ _ = true))
  | .drop _ | .list _ => inferInstanceAs (Decidable (_ < _))
  | .page _ _ _ => inferInstanceAs (Decidable (∃ _ ∈ _, ∃ _ ∈ _, ∀ _ ∈ _, _))
  | .openReader => isTrue trivial

end System

/-- The walk for a page of the reader sees a beginning of the log: it misses no event and sees a
later one. -/
def SeesPrefix (index : ℕ) (state : WatchState Id Data) : WatchLabel Id Data → Prop
  | .page reader _ missed => reader = index → ∃ n ≤ state.log.length,
    ((seen state.store missed).contents EventObject.events).Perm (state.log.take n)
  | _ => True

instance [DecidableEq Data] (index : ℕ) (state : WatchState Id Data) :
    ∀ label, Decidable (SeesPrefix index state label)
  | .page _ _ _ => inferInstanceAs (Decidable (_ = _ → ∃ _ ≤ _, _))
  | .lockAppend | .lockWatch _ | .put _ _ | .failPut | .notify | .unlock | .load | .register
  | .poll _ | .drop _ | .list _ | .openReader => isTrue trivial

/-! ## What holds at every moment -/

/-- What a stream has yielded and will yield without another notification. -/
def Watcher.stream (watcher : Watcher Id Data) : List (Event Id Data) :=
  watcher.yielded ++ watcher.existing ++ watcher.queue

/-- The stream has the events of its bound at its registration, and everything appended since but
for what is still to be notified. -/
def Watcher.Follows (log unnotified : List (Event Id Data)) (watcher : Watcher Id Data) : Prop :=
  ∃ later, log = watcher.snapshot ++ later ∧
    watcher.stream ++ unnotified =
      watcher.snapshot.filter (fun event ↦ matchesBound event.id watcher.bound) ++ later

/-- The invariant of the conversation. -/
structure WatchInvariant (ids : IdText Id) (conversationDir : Key) (state : WatchState Id Data) :
    Prop where
  logged : Logged ids conversationDir state.store state.log
  existing : ∀ bound existing, state.holder = .loaded bound existing →
    existing = state.log.filter (fun event ↦ matchesBound event.id bound)
  watchers : ∀ watcher ∈ state.watchers, watcher.dropped = false →
    watcher.subscribed = true ∧ watcher.Follows state.log state.unnotified

/-- The reader is at a beginning of the log, and a walk meets what it has read. -/
def PagingInvariant (index : ℕ) (state : WatchState Id Data) : Prop :=
  ∀ reader ∈ state.readers[index]?, reader.At state.log ∧
    ∀ keys ∈ reader.listing, ∀ event ∈ reader.collected, ∃ key ∈ keys, ∃ object,
      state.store.lookup key = some object ∧ event ∈ object.events

variable {ids : IdText Id} {conversationDir : Key} {kind : Data → String}
  {state : WatchState Id Data}

theorem loadExisting_eq (hstate : WatchInvariant ids conversationDir state)
    (bound : EventBound Id) :
    loadExisting ids conversationDir state.store bound =
      .ok (state.log.filter (fun event ↦ matchesBound event.id bound)) := by
  cases bound with
  | unbounded =>
    simp [loadExisting, matchesBound]
  | included id | excluded id => simp [loadExisting, hstate.logged.loadEvents_eq, Except.map]

namespace Watcher

variable {log unnotified : List (Event Id Data)} {watcher : Watcher Id Data}

omit [LinearOrder Id] in
/-- A poll moves an event within the stream and changes nothing else. -/
theorem poll_eq (watcher : Watcher Id Data) :
    watcher.poll.stream = watcher.stream ∧ watcher.poll.snapshot = watcher.snapshot ∧
      watcher.poll.bound = watcher.bound ∧ watcher.poll.subscribed = watcher.subscribed ∧
      watcher.poll.dropped = watcher.dropped := by
  unfold poll stream
  split <;> simp_all

theorem Follows.poll (hfollows : watcher.Follows log unnotified) :
    watcher.poll.Follows log unnotified := by
  obtain ⟨hstream, hsnapshot, hbound, -, -⟩ := poll_eq watcher
  unfold Follows
  rw [hstream, hsnapshot, hbound]
  exact hfollows

omit [LinearOrder Id] in
theorem send_dropped (event : Event Id Data) (watcher : Watcher Id Data) :
    (watcher.send event).dropped = watcher.dropped := by
  unfold send
  split
  · split <;> rfl
  · rfl

variable {event : Event Id Data}

theorem Follows.send (hsubscribed : watcher.subscribed = true) (hdropped : watcher.dropped = false)
    (hfollows : watcher.Follows log (event :: unnotified)) :
    (watcher.send event).Follows log unnotified := by
  obtain ⟨later, hlog, hstream⟩ := hfollows
  refine ⟨later, ?_, ?_⟩
  · simpa [Watcher.send, hsubscribed, hdropped] using hlog
  · simpa [Watcher.send, hsubscribed, hdropped, stream] using hstream

theorem Follows.append (hfollows : watcher.Follows log []) (events : List (Event Id Data)) :
    watcher.Follows (log ++ events) events := by
  obtain ⟨later, hlog, hstream⟩ := hfollows
  refine ⟨later ++ events, ?_, ?_⟩
  · rw [hlog, append_assoc]
  · rw [append_nil] at hstream
    rw [hstream, append_assoc]

/-- With its bound in the log at the registration, a stream has exactly the events of the bound. -/
theorem Follows.eq_filter (hfollows : watcher.Follows log unnotified) (hlog : Increasing log)
    (hevent : event ∈ watcher.snapshot)
    (hbound : watcher.bound = .included event.id ∨ watcher.bound = .excluded event.id) :
    watcher.stream ++ unnotified =
      log.filter (fun other ↦ matchesBound other.id watcher.bound) := by
  obtain ⟨later, rfl, hstream⟩ := hfollows
  have hlater : later.filter (fun other ↦ matchesBound other.id watcher.bound) = later := by
    rw [filter_eq_self]
    intro other hother
    have hlt : event.id < other.id := (pairwise_append.1 hlog).2.2 event hevent other hother
    rcases hbound with hbound | hbound
    · rw [hbound]
      exact decide_eq_true hlt.le
    · rw [hbound]
      exact decide_eq_true hlt
  rw [hstream, filter_append, hlater]

end Watcher

theorem watchInvariant_init :
    WatchInvariant ids conversationDir (WatchState.init : WatchState Id Data) where
  logged := logged_empty
  existing := nofun
  watchers := nofun

/-- A step that leaves the log, the subscribers and the notifications alone keeps the invariant. -/
theorem WatchInvariant.frame {next : WatchState Id Data}
    (hstate : WatchInvariant ids conversationDir state) (hstore : next.store = state.store)
    (happended : next.appended = state.appended) (hunnotified : next.unnotified = state.unnotified)
    (hexisting : ∀ bound existing, next.holder = .loaded bound existing →
      existing = state.log.filter (fun event ↦ matchesBound event.id bound))
    (hwatchers : ∀ watcher ∈ next.watchers, watcher.dropped = false →
      watcher.subscribed = true ∧ watcher.Follows state.log state.unnotified) :
    WatchInvariant ids conversationDir next := by
  have hlog : next.log = state.log := by rw [WatchState.log, happended]; rfl
  constructor
  · rw [hstore, hlog]
    exact hstate.logged
  · rw [hlog]
    exact hexisting
  · rw [hlog, hunnotified]
    exact hwatchers

variable {holder : LockHolder Id Data} {watcher : Watcher Id Data} {position : ℕ}

/-- Taking or freeing the lock, with no notification left before or after. -/
theorem WatchInvariant.relock (hstate : WatchInvariant ids conversationDir state)
    (hbefore : state.unnotified = [])
    (hafter : ({ state with holder := holder } : WatchState Id Data).unnotified = [])
    (hloaded : holder.isLoaded = false) :
    WatchInvariant ids conversationDir { state with holder := holder } := by
  refine hstate.frame rfl rfl (hafter.trans hbefore.symm) ?_ hstate.watchers
  rintro bound existing rfl
  cases hloaded

omit [LinearOrder Id] in
theorem exists_of_isWatching (hholder : holder.isWatching = true) :
    ∃ bound, holder = .watching bound := by
  cases holder with
  | watching bound => exact ⟨bound, rfl⟩
  | _ => cases hholder

omit [LinearOrder Id] in
theorem exists_of_isLoaded (hholder : holder.isLoaded = true) :
    ∃ bound existing, holder = .loaded bound existing := by
  cases holder with
  | loaded bound existing => exact ⟨bound, existing, rfl⟩
  | _ => cases hholder

omit [LinearOrder Id] in
theorem exists_of_unnotified (hstate : state.unnotified ≠ []) :
    ∃ event rest, state.holder = .notifying (event :: rest) ∧ state.unnotified = event :: rest := by
  unfold WatchState.unnotified at hstate ⊢
  split at hstate
  · rename_i pending hholder
    cases pending with
    | nil => exact absurd rfl hstate
    | cons event rest => exact ⟨event, rest, hholder, rfl⟩
  · exact absurd rfl hstate

section
variable (hstate : WatchInvariant ids conversationDir state)
include hstate

variable {bound : EventBound Id}

theorem WatchInvariant.load (hholder : state.holder = .watching bound) :
    WatchInvariant ids conversationDir
      ((watchSystem ids conversationDir kind).next state .load) := by
  have hnext : (watchSystem ids conversationDir kind).next state .load =
      { state with
        holder := .loaded bound (state.log.filter (fun event ↦ matchesBound event.id bound)) } := by
    simp only [watchSystem, hholder, loadExisting_eq hstate]
  rw [hnext]
  refine hstate.frame rfl rfl (by rw [WatchState.unnotified, WatchState.unnotified, hholder]) ?_
    hstate.watchers
  rintro _ _ ⟨⟩
  rfl

theorem WatchInvariant.register {existing : List (Event Id Data)}
    (hholder : state.holder = .loaded bound existing) :
    WatchInvariant ids conversationDir
      ((watchSystem ids conversationDir kind).next state .register) := by
  have hnext : (watchSystem ids conversationDir kind).next state .register =
      { state with
        watchers := state.watchers ++ [⟨bound, state.log, existing, [], [], true, false⟩],
        holder := .free } := by
    simp only [watchSystem, hholder]
  have hunnotified : state.unnotified = [] := by rw [WatchState.unnotified, hholder]
  rw [hnext]
  refine hstate.frame rfl rfl hunnotified.symm (by simp) ?_
  intro watcher hwatcher
  rcases mem_append.1 hwatcher with hwatcher | hwatcher
  · exact hstate.watchers watcher hwatcher
  · rw [mem_singleton.1 hwatcher, hunnotified]
    refine fun _ ↦ ⟨rfl, [], by simp, ?_⟩
    simp [Watcher.stream, hstate.existing bound existing hholder]

/-- The next event is sent to the subscribers. -/
theorem WatchInvariant.notify {event : Event Id Data} {rest : List (Event Id Data)}
    (hholder : state.holder = .notifying (event :: rest))
    (hunnotified : state.unnotified = event :: rest) :
    WatchInvariant ids conversationDir
      ((watchSystem ids conversationDir kind).next state .notify) := by
  have hnext : (watchSystem ids conversationDir kind).next state .notify =
      { state with
        watchers := state.watchers.map (Watcher.send event), holder := .notifying rest } := by
    simp only [watchSystem, hholder]
  rw [hnext]
  refine ⟨hstate.logged, by simp, ?_⟩
  intro watcher hwatcher hdropped
  obtain ⟨entry, hentry, rfl⟩ := mem_map.1 hwatcher
  have hkept : entry.dropped = false := by rwa [Watcher.send_dropped] at hdropped
  obtain ⟨hsubscribed, hfollows⟩ := hstate.watchers entry hentry hkept
  rw [hunnotified] at hfollows
  refine ⟨?_, hfollows.send hsubscribed hkept⟩
  simp [Watcher.send, hsubscribed, hkept]

/-- A batch is put; its notifications are due. -/
theorem WatchInvariant.put (hholder : state.holder = .appending) (expectsHead : Bool)
    {events : List (Event Id Data)} (hincreasing : Increasing (state.log ++ events)) :
    WatchInvariant ids conversationDir
      ((watchSystem ids conversationDir kind).next state (.put expectsHead events)) := by
  have hunnotified : state.unnotified = [] := by rw [WatchState.unnotified, hholder]
  simp only [watchSystem]
  split
  · exact hstate.frame rfl rfl hunnotified.symm (by simp) hstate.watchers
  · rename_i store added happend
    have hlog : (state.appended ++ [events]).flatten = state.log ++ events := by
      simp [WatchState.log]
    refine ⟨?_, by simp, ?_⟩
    · simp only [WatchState.log, hlog]
      exact hstate.logged.append hincreasing happend
    · intro watcher hwatcher hdropped
      obtain ⟨hsubscribed, hfollows⟩ := hstate.watchers watcher hwatcher hdropped
      simp only [WatchState.log, WatchState.unnotified, hlog]
      rw [hunnotified] at hfollows
      exact ⟨hsubscribed, hfollows.append events⟩

theorem WatchInvariant.next {label : WatchLabel Id Data}
    (henabled : (watchSystem ids conversationDir kind).enabled state label) :
    WatchInvariant ids conversationDir
      ((watchSystem ids conversationDir kind).next state label) := by
  cases label with
  | lockAppend | lockWatch bound =>
    have hholder : state.holder = .free := henabled
    exact hstate.relock (by rw [WatchState.unnotified, hholder]) rfl rfl
  | failPut =>
    have hholder : state.holder = .appending := henabled
    exact hstate.relock (by rw [WatchState.unnotified, hholder]) rfl rfl
  | unlock =>
    have hholder : state.holder = .notifying [] := henabled
    exact hstate.relock (by rw [WatchState.unnotified, hholder]) rfl rfl
  | openReader | list reader | page reader limit missed =>
    exact hstate.frame rfl rfl rfl hstate.existing hstate.watchers
  | drop watcher =>
    refine hstate.frame rfl rfl rfl hstate.existing ?_
    exact forall_mem_modify hstate.watchers watcher (fun entry _ _ hdropped ↦ by simp at hdropped)
  | poll watcher =>
    refine hstate.frame rfl rfl rfl hstate.existing ?_
    refine forall_mem_modify hstate.watchers watcher (fun entry _ hentry hdropped ↦ ?_)
    obtain ⟨-, -, -, hsubscribed, hkept⟩ := entry.poll_eq
    obtain ⟨hentry, hfollows⟩ := hentry (hkept ▸ hdropped)
    exact ⟨hsubscribed.trans hentry, hfollows.poll⟩
  | load =>
    obtain ⟨bound, hholder⟩ := exists_of_isWatching henabled
    exact hstate.load hholder
  | register =>
    obtain ⟨bound, existing, hholder⟩ := exists_of_isLoaded henabled
    exact hstate.register hholder
  | notify =>
    obtain ⟨event, rest, hholder, hunnotified⟩ := exists_of_unnotified henabled
    exact hstate.notify hholder hunnotified
  | put expectsHead events => exact hstate.put henabled.1 expectsHead henabled.2

end

/-! ## Pages -/

omit [LinearOrder Id] in
theorem lookup_seen (store : EventStore Id Data) (missed : List Key) (key : Key) :
    (seen store missed).lookup key = if key ∈ missed then none else store.lookup key := by
  induction missed generalizing store with
  | nil => rfl
  | cons other missed ih =>
    have hstep : seen store (other :: missed) = seen (store.erase other) missed := rfl
    rw [hstep, ih]
    by_cases hkey : key = other
    · subst hkey
      simp
    · simp [hkey, AList.lookup_erase_ne]

/-- A walk that sees a beginning of the log reads it. -/
theorem logged_seen (hlogged : Logged ids conversationDir state.store state.log)
    {missed : List Key} {n : ℕ}
    (hseen : ((seen state.store missed).contents EventObject.events).Perm (state.log.take n)) :
    Logged ids conversationDir (seen state.store missed) (state.log.take n) := by
  have hincreasing : Increasing (state.log.take n) := hlogged.increasing.take
  refine ⟨⟨fun key object hobject ↦ ?_, ?_⟩, hseen, hincreasing⟩
  · rw [lookup_seen] at hobject
    split_ifs at hobject
    exact hlogged.wellFormed.placed key object hobject
  · exact ((hseen.map Event.id).nodup_iff).2 (pairwise_map.2 (hincreasing.imp fun hlt ↦ hlt.ne))

variable (kind) in
/-- A page whose walk sees a beginning of the log keeps its reader at one: everything read before was
there when the walk began. -/
theorem at_page (hlogged : Logged ids conversationDir state.store state.log)
    {reader : PageReader Id Data} (hat : reader.At state.log) {missed keys : List Key}
    (hkeys : ∀ key ∈ missed, key ∉ keys)
    (hread : ∀ event ∈ reader.collected, ∃ key ∈ keys, ∃ object,
      state.store.lookup key = some object ∧ event ∈ object.events) {n : ℕ}
    (hseen : ((seen state.store missed).contents EventObject.events).Perm (state.log.take n))
    (limit : Option ℕ) :
    ∃ result, getEvents ids conversationDir kind (seen state.store missed)
        (some (reader.query limit)) = .ok result ∧ (reader.take result).At state.log := by
  have hlogged' := logged_seen hlogged hseen
  refine ⟨_, by rw [getEvents, hlogged'.loadEvents_eq]; rfl, ?_⟩
  have hsubset : reader.collected ⊆ state.log.take n := by
    intro event hevent
    obtain ⟨key, hkey, object, hobject, hmem⟩ := hread event hevent
    have hmissed : key ∉ missed := fun hmissed ↦ hkeys key hmissed hkey
    refine hseen.mem_iff.1 (ObjectStore.mem_contents.2 ⟨key, object, ?_, hmem⟩)
    rw [lookup_seen, if_neg hmissed, hobject]
  have hnodup : reader.collected.Nodup :=
    (hlogged.increasing.imp fun hlt heq ↦ absurd (congrArg Event.id heq) hlt.ne).sublist
      hat.1.sublist
  have hcut := take_prefix n state.log
  have hbegins : reader.collected <+: state.log.take n :=
    prefix_of_prefix_length_le hat.1 hcut (subperm_of_subset hnodup hsubset).length_le
  have htaken := Reader.At.take ⟨hbegins, hat.2⟩ hlogged'.increasing kind limit
  exact ⟨htaken.1.trans hcut, htaken.2⟩

theorem PagingInvariant.next {index : ℕ} (hreaders : PagingInvariant index state)
    (hstate : WatchInvariant ids conversationDir state) {label : WatchLabel Id Data}
    (henabled : (watchSystem ids conversationDir kind).enabled state label)
    (hlabel : SeesPrefix index state label) :
    PagingInvariant index ((watchSystem ids conversationDir kind).next state label) := by
  cases label with
  | put expectsHead events =>
    simp only [watchSystem]
    split
    · exact hreaders
    · rename_i store added happend
      intro reader hreader
      obtain ⟨hat, hlisting⟩ := hreaders reader hreader
      have hlog : (state.appended ++ [events]).flatten = state.log ++ events := by
        simp [WatchState.log]
      refine ⟨?_, fun keys hkeys event hevent ↦ ?_⟩
      · simp only [WatchState.log, hlog]
        exact hat.append events
      · obtain ⟨key, hkey, object, hobject, hmem⟩ := hlisting keys hkeys event hevent
        exact ⟨key, hkey, object, hstate.logged.lookup_append henabled.2 happend hobject, hmem⟩
  | openReader =>
    intro reader hreader
    rcases Nat.lt_or_ge index state.readers.length with hlt | hge
    · exact hreaders reader ((getElem?_append_left hlt).symm.trans hreader)
    · have hopened := (getElem?_append_right hge).symm.trans hreader
      rw [mem_singleton.1 (mem_of_getElem? hopened)]
      exact ⟨⟨state.log.nil_prefix, rfl⟩, nofun⟩
  | list reader =>
    refine forall_getElem?_modify hreaders reader fun _ entry _ hentry ↦ ⟨hentry.1, ?_⟩
    rintro keys ⟨⟩ event hevent
    have hstored := hstate.logged.contents.mem_iff.2 (hentry.1.1.subset hevent)
    obtain ⟨key, object, hobject, hmem⟩ := ObjectStore.mem_contents.1 hstored
    exact ⟨key, AList.mem_keys.1 (AList.lookup_isSome.1 (isSome_iff_exists.2 ⟨object, hobject⟩)),
      object, hobject, hmem⟩
  | page reader limit missed =>
    obtain ⟨walking, hwalking, keys, hkeys, hmissed⟩ := henabled
    refine forall_getElem?_modify hreaders reader fun hreader entry hindex hentry ↦ ?_
    obtain ⟨n, -, hseen⟩ := hlabel hreader
    obtain rfl : entry = walking := Option.some.inj (hindex.symm.trans hwalking)
    obtain ⟨result, hresult, htaken⟩ :=
      at_page kind hstate.logged hentry.1 hmissed (hentry.2 keys hkeys) hseen limit
    simp only [hresult]
    exact ⟨htaken, nofun⟩
  | notify | load | register =>
    simp only [watchSystem]
    split <;> first | exact hreaders | (split <;> exact hreaders)
  | _ => exact hreaders

/-! ## Streams run dry -/

/-- The parts of a watcher that neither a poll nor a notification changes. -/
def Watcher.SameCall (watcher later : Watcher Id Data) : Prop :=
  later.snapshot = watcher.snapshot ∧ later.bound = watcher.bound ∧ later.dropped = watcher.dropped

omit [LinearOrder Id] in
theorem Watcher.sameCall_poll (watcher : Watcher Id Data) : watcher.SameCall watcher.poll := by
  obtain ⟨-, hsnapshot, hbound, -, hdropped⟩ := watcher.poll_eq
  exact ⟨hsnapshot, hbound, hdropped⟩

omit [LinearOrder Id] in
theorem Watcher.sameCall_send (event : Event Id Data) (watcher : Watcher Id Data) :
    watcher.SameCall (watcher.send event) := by
  unfold send
  split
  · split <;> exact ⟨rfl, rfl, rfl⟩
  · exact ⟨rfl, rfl, rfl⟩

variable {left : ℕ} {later : Watcher Id Data}

omit [LinearOrder Id] in
theorem Watcher.length_poll (hleft : watcher.existing.length + watcher.queue.length = left + 1) :
    watcher.poll.existing.length + watcher.poll.queue.length = left := by
  unfold poll
  split
  · simp_all
    omega
  · simp_all
  · simp_all

/-- Polling a stream as often as it has events in store empties it. -/
theorem exec_polls (hwatcher : state.watchers[position]? = some watcher)
    (hdropped : watcher.dropped = false)
    (hleft : watcher.existing.length + watcher.queue.length = left) :
    (watchSystem ids conversationDir kind).Admits state (List.replicate left (.poll position)) ∧
      ∃ watchers, (watchSystem ids conversationDir kind).exec state
          (List.replicate left (.poll position)) = { state with watchers := watchers } ∧
        ∃ later, watchers[position]? = some later ∧ watcher.SameCall later ∧
          later.existing = [] ∧ later.queue = [] := by
  induction left generalizing state watcher with
  | zero =>
    refine ⟨trivial, state.watchers, rfl, watcher, hwatcher, ⟨rfl, rfl, rfl⟩, ?_, ?_⟩
    · exact eq_nil_of_length_eq_zero (by omega)
    · exact eq_nil_of_length_eq_zero (by omega)
  | succ left ih =>
    have hsame := watcher.sameCall_poll
    have hpolled : ((watchSystem ids conversationDir kind).next state
        (.poll position)).watchers[position]? = some watcher.poll := by
      simp [watchSystem, hwatcher]
    obtain ⟨hadmits, watchers, hexec, later, hlater, hcall, hempty⟩ :=
      ih hpolled (hsame.2.2.trans hdropped) (Watcher.length_poll hleft)
    have henabled : (watchSystem ids conversationDir kind).enabled state (.poll position) := by
      simp [watchSystem, hwatcher, hdropped]
    rw [replicate_succ]
    refine ⟨⟨henabled, hadmits⟩, watchers, hexec, later, hlater, ?_, hempty⟩
    exact ⟨hcall.1.trans hsame.1, hcall.2.1.trans hsame.2.1, hcall.2.2.trans hsame.2.2⟩

/-- The notifications that are due can be made, one after the other. -/
theorem exec_notifies {pending : List (Event Id Data)}
    (hpending : state.holder = .notifying pending)
    (hwatcher : state.watchers[position]? = some watcher) :
    (watchSystem ids conversationDir kind).Admits state
        (List.replicate pending.length .notify) ∧
      ∃ watchers, (watchSystem ids conversationDir kind).exec state
          (List.replicate pending.length .notify) =
            { state with watchers := watchers, holder := .notifying [] } ∧
        ∃ later, watchers[position]? = some later ∧ watcher.SameCall later := by
  induction pending generalizing state watcher with
  | nil =>
    refine ⟨trivial, state.watchers, ?_, watcher, hwatcher, rfl, rfl, rfl⟩
    simp [← hpending]
  | cons event rest ih =>
    have hsame := watcher.sameCall_send event
    have hnext : (watchSystem ids conversationDir kind).next state .notify =
        { state with
          watchers := state.watchers.map (Watcher.send event), holder := .notifying rest } := by
      simp only [watchSystem, hpending]
    have henabled : (watchSystem ids conversationDir kind).enabled state .notify := by
      simp [watchSystem, WatchState.unnotified, hpending]
    have hpending' : ((watchSystem ids conversationDir kind).next state .notify).holder =
        .notifying rest := by rw [hnext]
    have hsent : ((watchSystem ids conversationDir kind).next state .notify).watchers[position]? =
        some (watcher.send event) := by simp [hnext, hwatcher]
    obtain ⟨hadmits, watchers, hexec, later, hlater, hcall⟩ := ih hpending' hsent
    refine ⟨⟨henabled, hadmits⟩, watchers, ?_, later, hlater, ?_⟩
    · rw [length_cons, replicate_succ, exec_cons, hexec, hnext]
    · exact ⟨hcall.1.trans hsame.1, hcall.2.1.trans hsame.2.1, hcall.2.2.trans hsame.2.2⟩

/-- The bound was the id of an event of the log when the stream was opened. -/
def Watcher.Anchored (watcher : Watcher Id Data) : Prop :=
  ∃ event ∈ watcher.snapshot,
    watcher.bound = .included event.id ∨ watcher.bound = .excluded event.id

theorem WatchInvariant.stream_eq (hstate : WatchInvariant ids conversationDir state)
    (hwatcher : watcher ∈ state.watchers) (hdropped : watcher.dropped = false)
    (hanchored : watcher.Anchored) :
    watcher.stream ++ state.unnotified =
      state.log.filter (fun event ↦ matchesBound event.id watcher.bound) := by
  obtain ⟨event, hevent, hbound⟩ := hanchored
  exact (hstate.watchers watcher hwatcher hdropped).2.eq_filter hstate.logged.increasing hevent
    hbound

/-- The stream can be run dry by these steps, without another append. -/
def Drains (ids : IdText Id) (conversationDir : Key) (kind : Data → String)
    (state : WatchState Id Data) (position : ℕ) (watcher : Watcher Id Data)
    (labels : List (WatchLabel Id Data)) : Prop :=
  (∀ label ∈ labels, label = .notify ∨ label = .poll position) ∧
    (watchSystem ids conversationDir kind).Admits state labels ∧
    let final := (watchSystem ids conversationDir kind).exec state labels
    final.log = state.log ∧ final.unnotified = [] ∧
      ∃ later, final.watchers[position]? = some later ∧ watcher.SameCall later ∧
        later.existing = [] ∧ later.queue = []

section
variable (hwatcher : state.watchers[position]? = some watcher) (hdropped : watcher.dropped = false)
include hwatcher hdropped

theorem exists_drains_of_notified (hunnotified : state.unnotified = []) :
    ∃ labels, Drains ids conversationDir kind state position watcher labels := by
  obtain ⟨hadmits, watchers, hexec, hlater⟩ := exec_polls hwatcher hdropped rfl
  refine ⟨_, fun label hlabel ↦ .inr (eq_of_mem_replicate hlabel), hadmits, ?_⟩
  rw [hexec]
  exact ⟨rfl, hunnotified, hlater⟩

/-- From every state a stream can be run dry: the due notifications first, then the polls. -/
theorem exists_drains :
    ∃ labels, Drains ids conversationDir kind state position watcher labels := by
  cases hholder : state.holder with
  | notifying pending =>
    obtain ⟨hadmits, watchers, hexec, entry, hentry, hcall⟩ := exec_notifies hholder hwatcher
    have hnotified : ({ state with watchers := watchers, holder := .notifying [] } :
        WatchState Id Data).watchers[position]? = some entry := hentry
    obtain ⟨labels, hlabels, hadmits', hlog, hunnotified, later, hlater, hcall', hempty⟩ :=
      exists_drains_of_notified hnotified (hcall.2.2.trans hdropped) rfl
    refine ⟨replicate pending.length .notify ++ labels, ?_, ?_, ?_⟩
    · intro label hlabel
      rcases mem_append.1 hlabel with hlabel | hlabel
      · exact .inl (eq_of_mem_replicate hlabel)
      · exact hlabels label hlabel
    · rw [admits_append, hexec]
      exact ⟨hadmits, hadmits'⟩
    · rw [exec_append, hexec]
      refine ⟨hlog, hunnotified, later, hlater, ?_, hempty⟩
      exact ⟨hcall'.1.trans hcall.1, hcall'.2.1.trans hcall.2.1, hcall'.2.2.trans hcall.2.2⟩
  | _ => exact exists_drains_of_notified hwatcher hdropped (by rw [WatchState.unnotified, hholder])

end

/-! ## The log grows and calls remember it -/

theorem log_next (label : WatchLabel Id Data) :
    state.log <+: ((watchSystem ids conversationDir kind).next state label).log := by
  cases label with
  | put expectsHead events =>
    simp only [watchSystem]
    split
    · exact prefix_refl _
    · simp [WatchState.log]
  | notify | load | register =>
    simp only [watchSystem]
    split <;> first | exact prefix_refl _ | (split <;> exact prefix_refl _)
  | _ => exact prefix_refl _

omit [LinearOrder Id] in
theorem snapshot_modify {watchers : List (Watcher Id Data)} {f : Watcher Id Data → Watcher Id Data}
    (hf : ∀ watcher, (f watcher).snapshot = watcher.snapshot) {modified : ℕ}
    (hlater : (watchers.modify modified f)[position]? = some later) :
    ∃ watcher, watchers[position]? = some watcher ∧ later.snapshot = watcher.snapshot := by
  rw [getElem?_modify] at hlater
  obtain ⟨watcher, hwatcher, rfl⟩ := map_eq_some_iff.1 hlater
  refine ⟨watcher, hwatcher, ?_⟩
  split
  · exact hf watcher
  · rfl

/-- A step keeps every call as it was made; a new call has the log of its registration. -/
theorem snapshot_next {label : WatchLabel Id Data}
    (hlater : ((watchSystem ids conversationDir kind).next state label).watchers[position]? =
      some later) :
    (∃ watcher, state.watchers[position]? = some watcher ∧ later.snapshot = watcher.snapshot) ∨
      later.snapshot = state.log := by
  cases label with
  | put expectsHead events =>
    simp only [watchSystem] at hlater
    split at hlater <;> exact .inl ⟨later, hlater, rfl⟩
  | load =>
    simp only [watchSystem] at hlater
    split at hlater
    · split at hlater <;> exact .inl ⟨later, hlater, rfl⟩
    · exact .inl ⟨later, hlater, rfl⟩
  | notify =>
    simp only [watchSystem] at hlater
    split at hlater
    · obtain ⟨watcher, hwatcher, rfl⟩ :=
        map_eq_some_iff.1 (getElem?_map.symm.trans hlater)
      exact .inl ⟨watcher, hwatcher, (watcher.sameCall_send _).1⟩
    · exact .inl ⟨later, hlater, rfl⟩
  | register =>
    simp only [watchSystem] at hlater
    split at hlater
    · rw [getElem?_append] at hlater
      split at hlater
      · exact .inl ⟨later, hlater, rfl⟩
      · rw [mem_singleton.1 (mem_of_getElem? hlater)]
        exact .inr rfl
    · exact .inl ⟨later, hlater, rfl⟩
  | poll watcher => exact .inl (snapshot_modify (fun entry ↦ entry.sameCall_poll.1) hlater)
  | drop watcher =>
    exact .inl (snapshot_modify (f := fun entry ↦ { entry with dropped := true })
      (fun entry ↦ rfl) hlater)
  | _ => exact .inl ⟨later, hlater, rfl⟩

/-- What was in the log at some moment is in the log and in the snapshot of every later call. -/
def Remembers (start state : WatchState Id Data) : Prop :=
  start.log <+: state.log ∧ ∀ position watcher, start.watchers.length ≤ position →
    state.watchers[position]? = some watcher → start.log <+: watcher.snapshot

omit [LinearOrder Id] in
theorem remembers_self (start : WatchState Id Data) : Remembers start start := by
  refine ⟨prefix_refl _, fun position watcher hposition hwatcher ↦ ?_⟩
  rw [getElem?_eq_none hposition] at hwatcher
  cases hwatcher

theorem Remembers.next {start : WatchState Id Data} (hstart : Remembers start state)
    (label : WatchLabel Id Data) :
    Remembers start ((watchSystem ids conversationDir kind).next state label) := by
  obtain ⟨hlog, hsnapshots⟩ := hstart
  refine ⟨hlog.trans (log_next label), fun position watcher hposition hwatcher ↦ ?_⟩
  rcases snapshot_next hwatcher with ⟨earlier, hearlier, hsame⟩ | hnew
  · rw [hsame]
    exact hsnapshots position earlier hposition hearlier
  · rw [hnew]
    exact hlog

/-- A reader that pages to its cursor and then watches after it misses nothing. -/
theorem WatchInvariant.collected_append_stream {paged : WatchState Id Data}
    {index : ℕ} (hpaged : PagingInvariant index paged)
    (hstate : WatchInvariant ids conversationDir state) (hgrown : paged.log <+: state.log)
    {reader : PageReader Id Data} (hreader : reader ∈ paged.readers[index]?) {cursor : Id}
    (hcursor : reader.cursor = some cursor) (hwatcher : watcher ∈ state.watchers)
    (hdropped : watcher.dropped = false) (hbound : watcher.bound = .excluded cursor)
    (hsnapshot : paged.log <+: watcher.snapshot) :
    reader.collected ++ (watcher.stream ++ state.unnotified) = state.log := by
  have hat := (hpaged reader hreader).1
  obtain ⟨last, hlast, hid⟩ : ∃ last ∈ reader.collected, last.id = cursor := by
    obtain ⟨last, hlast, hid⟩ := map_eq_some_iff.1 (hat.2.symm.trans hcursor)
    exact ⟨last, mem_of_getLast? hlast, hid⟩
  have hanchored : watcher.Anchored :=
    ⟨last, hsnapshot.subset (hat.1.subset hlast), .inr (by rw [hbound, hid])⟩
  have hlater : reader.At state.log := ⟨hat.1.trans hgrown, hat.2⟩
  have hunread := hlater.unread hstate.logged.increasing
  rw [hcursor] at hunread
  rw [hstate.stream_eq hwatcher hdropped hanchored, hbound]
  exact hunread

/-- Watching neither misses nor repeats: in every state reached, the log is the batches in the
order of their appends; a stream opened at the id of an event of the log has yielded, together with
what is on its way to it, exactly the events of the log after (or from) that id, in that order, and
can be run dry.  A reader that pages to a cursor and then watches after it sees the whole log, if no
walk for one of its pages has missed an event and seen a later one. -/
theorem watch_sees_log (before after : List (WatchLabel Id Data))
    (hrun : (watchSystem ids conversationDir kind).Admits WatchState.init (before ++ after)) :
    let paged := (watchSystem ids conversationDir kind).exec WatchState.init before
    let state := (watchSystem ids conversationDir kind).exec paged after
    loadEvents ids conversationDir state.store = .ok state.appended.flatten ∧
      (∀ position watcher, state.watchers[position]? = some watcher → watcher.dropped = false →
        watcher.Anchored →
        watcher.stream ++ state.unnotified =
          state.appended.flatten.filter (fun event ↦ matchesBound event.id watcher.bound) ∧
        ∃ labels, (∀ label ∈ labels, label = .notify ∨ label = .poll position) ∧
          (watchSystem ids conversationDir kind).Admits state labels ∧
          (((watchSystem ids conversationDir kind).exec state labels).watchers[position]?).map
            Watcher.yielded = some (state.appended.flatten.filter
                (fun event ↦ matchesBound event.id watcher.bound))) ∧
      (∀ index, (watchSystem ids conversationDir kind).Throughout (SeesPrefix index)
          WatchState.init before →
        ∀ reader ∈ paged.readers[index]?, ∀ cursor, reader.cursor = some cursor →
          ∀ position watcher, state.watchers[position]? = some watcher →
          paged.watchers.length ≤ position → watcher.dropped = false →
          watcher.bound = .excluded cursor →
          reader.collected ++ (watcher.stream ++ state.unnotified) = state.appended.flatten) := by
  intro paged state
  have hstep : ∀ (state : WatchState Id Data) (label : WatchLabel Id Data),
      WatchInvariant ids conversationDir state →
      (watchSystem ids conversationDir kind).enabled state label →
      WatchInvariant ids conversationDir
        ((watchSystem ids conversationDir kind).next state label) :=
    fun _ _ hinv henabled ↦ hinv.next henabled
  obtain ⟨hbefore, hafter⟩ := (admits_append _ _ _ _).1 hrun
  have hpaged : WatchInvariant ids conversationDir paged :=
    invariant _ hstep watchInvariant_init hbefore
  have hstate : WatchInvariant ids conversationDir state := invariant _ hstep hpaged hafter
  have hremembers : Remembers paged state :=
    invariant (Remembers paged) (fun _ label hinv _ ↦ hinv.next label) (remembers_self paged) hafter
  refine ⟨hstate.logged.loadEvents_eq, ?_, ?_⟩
  · intro position watcher hwatcher hdropped hanchored
    refine ⟨hstate.stream_eq (mem_of_getElem? hwatcher) hdropped hanchored, ?_⟩
    obtain ⟨labels, hlabels, hadmits, hlog, hunnotified, later, hlater, hcall, hexisting, hqueue⟩ :=
      exists_drains hwatcher hdropped
    obtain ⟨event, hevent, hbound⟩ := hanchored
    have hfinal := (invariant _ hstep hstate hadmits).stream_eq
      (mem_of_getElem? hlater) (hcall.2.2.trans hdropped)
      ⟨event, hcall.1 ▸ hevent, hcall.2.1 ▸ hbound⟩
    rw [hunnotified, Watcher.stream, hexisting, hqueue, hlog, hcall.2.1] at hfinal
    refine ⟨labels, hlabels, hadmits, ?_⟩
    rw [hlater, map_some, ← WatchState.log, ← hfinal]
    simp
  · intro index hsees reader hreader cursor hcursor position watcher hwatcher hposition hdropped
      hbound
    have hrestricted :=
      (admits_restrict_iff (SeesPrefix index) WatchState.init before).2 ⟨hbefore, hsees⟩
    have hreaders : WatchInvariant ids conversationDir paged ∧ PagingInvariant index paged := by
      refine invariant_of_restrict
        (fun state ↦ WatchInvariant ids conversationDir state ∧ PagingInvariant index state)
        (fun _ _ hinv henabled hlabel ↦ ?_) ⟨watchInvariant_init, nofun⟩ hrestricted
      exact ⟨hinv.1.next henabled, hinv.2.next hinv.1 henabled hlabel⟩
    exact hstate.collected_append_stream hreaders.2 hremembers.1 hreader hcursor
      (mem_of_getElem? hwatcher) hdropped hbound
      (hremembers.2 position watcher hposition hwatcher)

/-- A reader pages a batch; an event that is put meanwhile is not met by its walk. -/
def pagedRun : List (WatchLabel (Fin (2 ^ 128)) Unit) :=
  [.lockAppend, .put false [⟨1, none, none, ()⟩, ⟨2, none, none, ()⟩], .notify, .notify, .unlock,
    .openReader, .list 0, .lockAppend, .put false [⟨3, none, none, ()⟩], .notify, .unlock,
    .page 0 (some 5) [eventPath uuidText "thread".toList 3]]

/-- The reader watches after its cursor; another batch is on its way to it. -/
def watchedRun : List (WatchLabel (Fin (2 ^ 128)) Unit) :=
  [.lockWatch (.excluded 2), .load, .register, .lockAppend,
    .put true [⟨4, none, none, ()⟩, ⟨5, none, none, ()⟩], .notify, .poll 0]

theorem watch_sees_log_paged :
    (watchSystem uuidText "thread".toList (fun _ ↦ "messages")).Admits WatchState.init
        (pagedRun ++ watchedRun) ∧
      let paged := (watchSystem uuidText "thread".toList (fun _ ↦ "messages")).exec
        WatchState.init pagedRun
      let state := (watchSystem uuidText "thread".toList (fun _ ↦ "messages")).exec paged watchedRun
      ∀ reader ∈ paged.readers[0]?, ∀ cursor, reader.cursor = some cursor → ∀ position watcher,
        state.watchers[position]? = some watcher → paged.watchers.length ≤ position →
        watcher.dropped = false → watcher.bound = .excluded cursor →
        reader.collected ++ (watcher.stream ++ state.unnotified) = state.appended.flatten :=
  ⟨by decide +kernel,
    (watch_sees_log pagedRun watchedRun (by decide +kernel)).2.2 0 (by decide +kernel)⟩

/-- Two events are put during the walk for a page, which meets the second of them only. -/
def skippingRun : List (WatchLabel (Fin (2 ^ 128)) Unit) :=
  [.openReader, .list 0, .lockAppend, .put false [⟨1, none, none, ()⟩], .notify, .unlock,
    .lockAppend, .put false [⟨2, none, none, ()⟩], .notify, .unlock,
    .page 0 none [eventPath uuidText "thread".toList 1]]

/-- The reader resumes after the second event, and the first one is neither paged nor watched. -/
theorem paging_skips_event :
    let system := watchSystem uuidText "thread".toList (fun _ : Unit ↦ "messages")
    ¬ ∀ before after, system.Admits WatchState.init (before ++ after) →
      let paged := system.exec WatchState.init before
      let state := system.exec paged after
      ∀ reader ∈ paged.readers, ∀ cursor ∈ reader.cursor, ∀ watcher ∈ state.watchers,
        watcher.dropped = false → watcher.bound = .excluded cursor →
        reader.collected ++ (watcher.stream ++ state.unnotified) = state.appended.flatten := by
  intro system hall
  have hskipped := hall skippingRun [.lockWatch (.excluded 2), .load, .register] (by decide +kernel)
  obtain ⟨reader, hreader, hcursor, hread⟩ :
      ∃ reader ∈ (system.exec WatchState.init skippingRun).readers,
        reader.cursor = some 2 ∧ reader.collected.length = 1 := by decide +kernel
  let state := system.exec (system.exec WatchState.init skippingRun)
    [.lockWatch (.excluded 2), .load, .register]
  obtain ⟨watcher, hwatcher, hdropped, hbound, hstream⟩ : ∃ watcher ∈ state.watchers,
      watcher.dropped = false ∧ watcher.bound = .excluded 2 ∧
        (watcher.stream ++ state.unnotified).length = 0 := by decide +kernel
  have hlog : state.appended.flatten.length = 2 := by decide +kernel
  have hlength := congrArg length
    (hskipped reader hreader 2 hcursor watcher hwatcher hdropped hbound)
  rw [length_append, hread, hstream, hlog] at hlength
  cases hlength

end Exo.EventLog
