import Exo.TurnCoordinator.Queue

/-!
# The durable journal of a thread

The events the drain of a queue writes and reads back.  The journal is one append-only list; an
event's id is its position.  A turn's events are those that carry its id.  What executors write
while they run matters here only as far as it is the completion marker or not.
-/

namespace Exo.TurnQueue

open TurnCoordinator List

/-- What the drain reads of the accepted work: whether the request opens a session and whether it
has input messages. -/
structure TurnWork where
  newSession : Bool := false
  hasInput : Bool := true
  deriving DecidableEq

inductive EventData where
  | sessionStarted
  | turnStarted
  | turnWork (work : TurnWork)
  | messages
  | progress
  | turnCompleted
  | error (message : String)
  | turnEnded
  deriving DecidableEq

structure Event where
  id : ℕ
  turn : TurnRecord
  data : EventData

abbrev Journal := List Event

section
variable (journal : Journal)

/-- Append one batch; a batch is durable as a whole. -/
def append (turn : TurnRecord) (batch : List EventData) : Journal :=
  journal ++ batch.mapIdx (fun index data ↦ ⟨journal.length + index, turn, data⟩)

/-- The events of a turn, as `get_events` with its `turn_id` returns them. -/
def eventsOf (turn : TurnId) : List Event :=
  journal.filter (fun event ↦ event.turn.id = turn)

/-- The batch of `begin_turn`. -/
def beginEvents (work : TurnWork) : List EventData :=
  (if work.newSession then [.sessionStarted] else []) ++ [.turnStarted, .turnWork work] ++
    (if work.hasInput then [.messages] else [])

/-- A finished turn failed with a message or completed with the id of its last event. -/
inductive JournalStatus where
  | unstarted
  | running
  | finished (result : Except String ℕ)
  deriving DecidableEq

/-- The message of an error event. -/
def EventData.errorMessage : EventData → Option String
  | .error message => some message
  | _ => none

def journalStatusFromEvents (events : List Event) : JournalStatus :=
  match events.find? (fun event ↦ event.data = .turnEnded) with
  | none => if events.any (fun event ↦ event.data = .turnStarted) then .running else .unstarted
  | some ended =>
    match events.findSome? (fun event ↦ event.data.errorMessage) with
    | some message => .finished (.error message)
    | none => .finished (.ok ended.id)

def journalStatus (turn : TurnId) : JournalStatus :=
  journalStatusFromEvents (eventsOf journal turn)

/-- The events after which a turn only has to be finished. -/
def EventData.settles : EventData → Bool
  | .error _ => true
  | .turnCompleted => true
  | _ => false

/-- `TurnWork::from_events`. -/
def workFromEvents (events : List Event) : Option TurnWork :=
  events.findSome? (fun event ↦
    match event.data with
    | .turnWork work => some work
    | _ => none)

/-- The `finished` flag of a handle made by `turn_handle`: the last event of the turn ended it. -/
def handleFinished (turn : TurnRecord) : Bool :=
  match (journal.filter (fun event ↦ event.turn = turn)).getLast? with
  | some event => decide (event.data = .turnEnded)
  | none => false

end

/-- The batch of `TurnHandle::finish` on a handle with this flag. -/
def finishEvents (finished : Bool) : List EventData := if finished then [] else [.turnEnded]

section
variable (journal : Journal)

/-- The data written for a turn, in order. -/
def dataOf (turn : TurnId) : List EventData :=
  (eventsOf journal turn).map (·.data)

section
variable (turn : TurnRecord) (batch : List EventData)

theorem dataOf_append (other : TurnId) : dataOf (append journal turn batch) other =
      if turn.id = other then dataOf journal other ++ batch else dataOf journal other := by
  have hdata : (batch.mapIdx (fun index data ↦
      (⟨journal.length + index, turn, data⟩ : Event))).map (·.data) = batch := by
    apply ext_getElem <;> simp
  have hturns : ∀ event ∈ batch.mapIdx (fun index data ↦
      (⟨journal.length + index, turn, data⟩ : Event)), event.turn = turn := by
    intro event hevent
    obtain ⟨index, _, rfl⟩ := mem_mapIdx.mp hevent
    rfl
  unfold dataOf eventsOf append
  generalize batch.mapIdx (fun index data ↦
    (⟨journal.length + index, turn, data⟩ : Event)) = events at hdata hturns ⊢
  rw [filter_append, map_append]
  split
  · rename_i hturn
    have hall : events.filter (fun event ↦ event.turn.id = other) = events := by
      apply filter_eq_self.mpr
      intro event hevent
      simp [hturns event hevent, hturn]
    rw [hall, hdata]
  · rename_i hturn
    have hnone : events.filter (fun event ↦ event.turn.id = other) = [] := by
      apply filter_eq_nil_iff.mpr
      intro event hevent
      simp [hturns event hevent, hturn]
    rw [hnone, map_nil, append_nil]

theorem dataOf_append_self :
    dataOf (append journal turn batch) turn.id = dataOf journal turn.id ++ batch := by
  rw [dataOf_append, if_pos rfl]

theorem dataOf_append_other {turn : TurnRecord} (batch : List EventData)
    {other : TurnId} (hne : turn.id ≠ other) :
    dataOf (append journal turn batch) other = dataOf journal other := by
  rw [dataOf_append, if_neg hne]

theorem take_append {n : ℕ}
    (hle : n ≤ journal.length) : (append journal turn batch).take n = journal.take n := by
  unfold append
  rw [take_append_of_le_length hle]

theorem length_append : journal.length ≤ (append journal turn batch).length := by
  simp [append]

end

end

section
variable (data : List EventData)

/-- Begun once and not ended. -/
def Open : Prop := data.count .turnStarted = 1 ∧ .turnEnded ∉ data

/-- Begun once, and ended once with nothing after the end. -/
def Closed : Prop := ∃ before, data = before ++ [.turnEnded] ∧ Open before

/-- The journals a turn may have: none, one that is open, one that is closed. -/
def Shaped : Prop := data = [] ∨ Open data ∨ Closed data

end

variable {data : List EventData}

theorem Closed.ended (hclosed : Closed data) : .turnEnded ∈ data := by
  obtain ⟨before, rfl, -⟩ := hclosed
  simp

theorem Closed.counts (hclosed : Closed data) :
    data.count .turnStarted = 1 ∧ data.count .turnEnded = 1 := by
  obtain ⟨before, rfl, hstarted, hended⟩ := hclosed
  constructor
  · rw [count_append, hstarted]
    rfl
  · rw [count_append, count_eq_zero.mpr hended]
    rfl

theorem Open.started (hopen : Open data) : .turnStarted ∈ data := by
  rw [← count_pos_iff, hopen.1]
  exact Nat.one_pos

/-- An event that neither begins nor ends a turn keeps it open. -/
theorem Open.snoc (hopen : Open data) {event : EventData} (hstarted : event ≠ .turnStarted)
    (hended : event ≠ .turnEnded) : Open (data ++ [event]) := by
  constructor
  · rw [count_append, hopen.1, count_singleton]
    simp [hstarted]
  · simp [hopen.2, hended.symm]

theorem Open.close (hopen : Open data) : Closed (data ++ [.turnEnded]) :=
  ⟨data, rfl, hopen⟩

theorem open_beginEvents (work : TurnWork) : Open (beginEvents work) := by
  obtain ⟨newSession, hasInput⟩ := work
  cases newSession <;> cases hasInput <;> simp [Open, beginEvents]

theorem Shaped.open_of_started (hshaped : Shaped data) (hstarted : .turnStarted ∈ data)
    (hended : .turnEnded ∉ data) : Open data := by
  rcases hshaped with rfl | hopen | hclosed
  · simp at hstarted
  · exact hopen
  · exact absurd hclosed.ended hended

theorem Shaped.closed_of_ended (hshaped : Shaped data) (hended : .turnEnded ∈ data) :
    Closed data := by
  rcases hshaped with rfl | hopen | hclosed
  · simp at hended
  · exact absurd hended hopen.2
  · exact hclosed

theorem Shaped.nil_of_unstarted (hshaped : Shaped data) (hstarted : .turnStarted ∉ data) :
    data = [] := by
  rcases hshaped with hnil | hopen | ⟨before, rfl, hopen⟩
  · exact hnil
  · exact absurd hopen.started hstarted
  · exact absurd (mem_append_left _ hopen.started) hstarted

/-- Nothing follows the end of a well-formed turn. -/
theorem Shaped.final {before after : List EventData} (hshaped : Shaped data)
    (heq : data = before ++ .turnEnded :: after) : after = [] := by
  have hclosed : Closed data := hshaped.closed_of_ended (by simp [heq])
  obtain ⟨initial, hinitial, -, hended⟩ := hclosed
  rw [heq] at hinitial
  rcases eq_nil_or_concat after with hnil | ⟨init, last, rfl⟩
  · exact hnil
  · exfalso
    apply hended
    have hwhole : before ++ .turnEnded :: init ++ [last] = initial ++ [.turnEnded] := by
      simpa using hinitial
    have hinit : before ++ .turnEnded :: init = initial := append_inj_left' hwhole rfl
    rw [← hinit]
    simp

theorem status_spec (events : List Event) : match journalStatusFromEvents events with
    | .unstarted => .turnStarted ∉ events.map (·.data) ∧ .turnEnded ∉ events.map (·.data)
    | .running => .turnStarted ∈ events.map (·.data) ∧ .turnEnded ∉ events.map (·.data)
    | .finished _ => .turnEnded ∈ events.map (·.data) := by
  unfold journalStatusFromEvents
  cases hfind : events.find? (fun event ↦ event.data = .turnEnded) with
  | some ended =>
    have hended : .turnEnded ∈ events.map (·.data) :=
      mem_map.mpr ⟨ended, mem_of_find?_eq_some hfind, by simpa using find?_some hfind⟩
    cases hmessage : events.findSome? (fun event ↦ event.data.errorMessage) with
    | some message => exact hended
    | none => exact hended
  | none =>
    have hended : .turnEnded ∉ events.map (·.data) := by
      intro hmem
      obtain ⟨event, hevent, hdata⟩ := mem_map.mp hmem
      rw [find?_eq_none] at hfind
      exact hfind event hevent (by simpa using hdata)
    dsimp only
    by_cases hany : events.any (fun event ↦ event.data = .turnStarted) = true
    · rw [if_pos hany]
      refine ⟨?_, hended⟩
      obtain ⟨event, hevent, hdata⟩ := any_eq_true.mp hany
      exact mem_map.mpr ⟨event, hevent, by simpa using hdata⟩
    · rw [if_neg hany]
      refine ⟨?_, hended⟩
      intro hmem
      obtain ⟨event, hevent, hdata⟩ := mem_map.mp hmem
      exact hany (any_eq_true.mpr ⟨event, hevent, by simpa using hdata⟩)

theorem handleFinished_of_open {journal : Journal} {turn : TurnRecord}
    (hended : .turnEnded ∉ dataOf journal turn.id) : handleFinished journal turn = false := by
  unfold handleFinished
  split
  · rename_i event hlast
    have hmem := mem_of_getLast? hlast
    simp only [mem_filter, decide_eq_true_eq] at hmem
    rw [decide_eq_false_iff_not]
    intro hdata
    apply hended
    rw [← hdata]
    exact mem_map_of_mem (mem_filter.mpr ⟨hmem.1, by simp [hmem.2]⟩)
  · rfl

end Exo.TurnQueue
