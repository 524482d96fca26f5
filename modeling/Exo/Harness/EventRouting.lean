import Exo.Library.Chronicle
import Exo.Library.System
import Exo.Library.UpdateFirst

/-!
# Routing of harness events

`HarnessEvents` routes what a harness emits for a turn to the turn's journal and, at the end, to the
channel on which the runtime waits for the outcome.  A turn is registered under its key; an emission
looks the turn up, waits for the turn's lock and holds it while the events are appended.  The append
may fail, and an emission of a dropped execution may be abandoned while it waits or appends; a put
that was in flight then still lands, though the lock is free.  An emission that looked its turn up in
time may get the lock long after the turn has stopped.
-/

namespace Exo.Harness

open Library

inductive HarnessTurnOutcome where
  | completed (response : Option String)
  | failed (error : String)
  | cancelled
  | interrupted
  | suspended

structure HarnessTurnKey (Uid : Type*) where
  agentId : Uid
  threadId : Uid
  turnId : Uid
  deriving DecidableEq

structure TurnRecord (Uid : Type*) where
  id : Uid
  sessionId : Uid

inductive HarnessEvent (Uid Data : Type*) where
  | turnEvents (key : HarnessTurnKey Uid) (events : List Data)
  | turnFinished (key : HarnessTurnKey Uid) (outcome : HarnessTurnOutcome) (events : List Data)
  | executionStopped (key : HarnessTurnKey Uid)

structure Event (Uid Data : Type*) where
  id : Uid
  threadId : Uid
  sessionId : Option Uid
  turnId : Option Uid
  createdAt : ℕ
  data : Data

variable {Uid Data : Type*}

namespace HarnessEvent

def key : HarnessEvent Uid Data → HarnessTurnKey Uid
  | .turnEvents key _ => key
  | .turnFinished key _ _ => key
  | .executionStopped key => key

/-- The payloads an emission submits. -/
def events : HarnessEvent Uid Data → List Data
  | .turnEvents _ events => events
  | .turnFinished _ _ events => events
  | .executionStopped _ => []

def isStop : HarnessEvent Uid Data → Bool
  | .executionStopped _ => true
  | _ => false

def isTurnEvents : HarnessEvent Uid Data → Bool
  | .turnEvents _ _ => true
  | _ => false

end HarnessEvent

/-- What happened to a registered turn, in order: an event was written to its journal, or an
emission that had got the lock was answered.  `ids` is what the append returned and `sends` what was
sent on the completion channel. -/
inductive Entry (Uid Data : Type*) where
  | wrote (data : Data)
  | handled (event : HarnessEvent Uid Data) (ids : List Uid)
    (reply : Except String (List (Event Uid Data))) (sends : List HarnessTurnOutcome)

/-- A registered turn.  `completion` says that the sender is still there; `appending` is the emission
that holds the lock, with the number of its events in the journal, and `late` what the puts of dropped
emissions have still to write; `log` is for the statements. -/
structure ActiveEventTurn (Uid Data : Type*) where
  threadId : Uid
  turn : TurnRecord Uid
  outcome : Option HarnessTurnOutcome
  completion : Bool
  appending : Option (HarnessEvent Uid Data × ℕ)
  late : List (List Data)
  log : List (Entry Uid Data)

/-- The registered turns ever, the routes by key and the emissions that wait for a lock. -/
structure HarnessEvents (Uid Data : Type*) where
  turns : List (ActiveEventTurn Uid Data)
  routes : HarnessTurnKey Uid → Option ℕ
  waiting : List (ℕ × HarnessEvent Uid Data)

/-- The scheduler's choices and the results of the journal.  `remove` is what follows a submission
that the harness refused; `land` and `settle` are of the put of a dropped emission, which may fail. -/
inductive RoutingLabel (Uid Data : Type*) where
  | register (agentId threadId : Uid) (turn : TurnRecord Uid)
  | remove (key : HarnessTurnKey Uid)
  | emit (event : HarnessEvent Uid Data)
  | lock (index : ℕ)
  | write (turn : ℕ)
  | appended (turn : ℕ) (result : Except String (List Uid))
  | dropWaiting (index : ℕ)
  | dropAppending (turn : ℕ)
  | land (turn index : ℕ)
  | settle (turn index : ℕ)

section Turns
variable (timestamp : Uid → Option ℕ) (debug : HarnessTurnKey Uid → String)

/-- The events of an acknowledgement, from the identifiers of the append. -/
def acknowledge (threadId : Uid) (turn : TurnRecord Uid) :
    List (Uid × Data) → Except String (List (Event Uid Data))
  | [] => .ok []
  | (id, data) :: rest =>
    match timestamp id with
    | none => .error "appended event id has no timestamp"
    | some createdAt => do
      let events ← acknowledge threadId turn rest
      return ⟨id, threadId, some turn.sessionId, some turn.id, createdAt, data⟩ :: events

namespace ActiveEventTurn

variable (active : ActiveEventTurn Uid Data)

/-- What `append` makes of the result of `add_events`. -/
def append (events : List Data) : Except String (List Uid) → Except String (List (Event Uid Data))
  | .error error => .error error
  | .ok ids =>
    if ids.length = events.length then
      acknowledge timestamp active.threadId active.turn (ids.zip events)
    else
      .error ("harness event append returned " ++ toString ids.length ++ " ids for " ++
        toString events.length ++ " events")

section
variable (event : HarnessEvent Uid Data) (ids : List Uid)
  (reply : Except String (List (Event Uid Data)))

/-- The emission is answered and releases the lock. -/
def answer (sends : List HarnessTurnOutcome) : ActiveEventTurn Uid Data :=
  { active with appending := none, log := active.log ++ [.handled event ids reply sends] }

/-- The outcome that `TurnFinished` records. -/
def recordOutcome (outcome : HarnessTurnOutcome) (reply : Except String (List (Event Uid Data))) :
    ActiveEventTurn Uid Data :=
  match reply with
  | .ok _ => { active with outcome := some outcome }
  | .error error => { active with outcome := some (.failed error) }

/-- The end of an emission whose append is done. -/
def conclude : ActiveEventTurn Uid Data :=
  match event with
  | .turnFinished _ outcome _ => (active.recordOutcome outcome reply).answer event ids reply []
  | _ => active.answer event ids reply []

end

/-- `emit` from the lock to its first wait: an append of no events does not wait. -/
def handle (event : HarnessEvent Uid Data) : ActiveEventTurn Uid Data :=
  if active.completion = false then
    active.answer event []
      (.error ("harness event references a stopped turn: " ++ debug event.key)) []
  else
    match event with
    | .executionStopped _ =>
      let outcome := active.outcome.getD (.failed "harness stopped without a terminal event")
      { active with outcome := none, completion := false }.answer event [] (.ok []) [outcome]
    | .turnEvents _ events =>
      if active.outcome.isSome then
        active.answer event [] (.error "harness emitted events after completion") []
      else if events.isEmpty then active.conclude event [] (.ok [])
      else { active with appending := some (event, 0) }
    | .turnFinished _ _ events =>
      if active.outcome.isSome then
        active.answer event [] (.error "harness completed the same turn twice") []
      else if events.isEmpty then active.conclude event [] (.ok [])
      else { active with appending := some (event, 0) }

/-- `add_events` writes the next event. -/
def write : ActiveEventTurn Uid Data :=
  match active.appending with
  | none => active
  | some (event, written) =>
    { active with
      appending := some (event, written + 1)
      log := active.log ++ (event.events[written]?.map Entry.wrote).toList }

/-- `add_events` returns. -/
def appended (result : Except String (List Uid)) : ActiveEventTurn Uid Data :=
  match active.appending with
  | none => active
  | some (event, _) =>
    active.conclude event (result.toOption.getD []) (active.append timestamp event.events result)

/-- The caller drops the emission that holds the lock, but not the put that it waits for. -/
def drop : ActiveEventTurn Uid Data :=
  match active.appending with
  | none => active
  | some (event, written) =>
    { active with appending := none, late := active.late ++ [event.events.drop written] }

/-- The put of a dropped emission writes the next event. -/
def land (index : ℕ) : ActiveEventTurn Uid Data :=
  match active.late[index]? with
  | some (data :: rest) =>
    { active with late := active.late.set index rest, log := active.log ++ [.wrote data] }
  | _ => active

/-- The put of a dropped emission has ended. -/
def settle (index : ℕ) : ActiveEventTurn Uid Data :=
  { active with late := active.late.eraseIdx index }

end ActiveEventTurn

variable [DecidableEq Uid]

namespace HarnessEvents

variable (harness : HarnessEvents Uid Data)

/-- `register`. -/
def register (agentId threadId : Uid) (turn : TurnRecord Uid) : HarnessEvents Uid Data :=
  let key : HarnessTurnKey Uid := ⟨agentId, threadId, turn.id⟩
  match harness.routes key with
  | some _ => harness
  | none =>
    { harness with
      turns := harness.turns ++ [⟨threadId, turn, none, true, none, [], []⟩]
      routes := fun other ↦ if other = key then some harness.turns.length else harness.routes other }

/-- `remove`. -/
def remove (key : HarnessTurnKey Uid) : HarnessEvents Uid Data :=
  { harness with routes := fun other ↦ if other = key then none else harness.routes other }

def update (turn : ℕ) (change : ActiveEventTurn Uid Data → ActiveEventTurn Uid Data) :
    HarnessEvents Uid Data :=
  { harness with turns := harness.turns.modify turn change }

/-- The emission at an index gets the lock; the turn's first stop also removes the route. -/
def lock (index : ℕ) : HarnessEvents Uid Data :=
  match harness.waiting[index]? with
  | none => harness
  | some (turn, event) =>
    let after := { harness with waiting := harness.waiting.eraseIdx index }.update turn
      (·.handle debug event)
    if event.isStop = true ∧ (harness.turns[turn]?.map (·.completion)) = some true then
      after.remove event.key
    else after

/-- The lock of the turn that an emission waits for is free. -/
def canLock (index : ℕ) : Bool :=
  harness.waiting[index]?.any fun (turn, _) ↦
    harness.turns[turn]?.any fun active ↦ active.appending.isNone

/-- An emission holds the lock of the turn, and meets the condition. -/
def holds (turn : ℕ) (condition : HarnessEvent Uid Data → ℕ → Bool) : Bool :=
  harness.turns[turn]?.any fun active ↦
    active.appending.any fun (event, written) ↦ condition event written

end HarnessEvents

/-- Any number of turns and emissions.  An append that succeeds has written all its events; only the
events of an execution are dropped while they are appended. -/
def routing : System (HarnessEvents Uid Data) (RoutingLabel Uid Data) where
  enabled harness
    | .register _ _ _ => True
    | .remove _ => True
    | .emit _ => True
    | .lock index => harness.canLock index = true
    | .write turn => harness.holds turn (fun event written ↦ written < event.events.length) = true
    | .appended turn result =>
      harness.holds turn (fun event written ↦
        result.toOption.isNone || written = event.events.length) = true
    | .dropWaiting index => index < harness.waiting.length
    | .dropAppending turn => harness.holds turn (fun event _ ↦ event.isTurnEvents) = true
    | .land _ _ | .settle _ _ => True
  next harness
    | .register agentId threadId turn => harness.register agentId threadId turn
    | .remove key => harness.remove key
    | .emit event =>
      { harness with
        waiting := harness.waiting ++ ((harness.routes event.key).map fun turn ↦ (turn, event)).toList }
    | .lock index => harness.lock debug index
    | .write turn => harness.update turn (·.write)
    | .appended turn result => harness.update turn (·.appended timestamp result)
    | .dropWaiting index => { harness with waiting := harness.waiting.eraseIdx index }
    | .dropAppending turn => harness.update turn (·.drop)
    | .land turn index => harness.update turn (·.land index)
    | .settle turn index => harness.update turn (·.settle index)

instance (harness : HarnessEvents Uid Data) (label : RoutingLabel Uid Data) :
    Decidable ((routing timestamp debug).enabled harness label) :=
  match label with
  | .register _ _ _ | .remove _ | .emit _ | .land _ _ | .settle _ _ => isTrue trivial
  | .lock _ | .write _ | .appended _ _ | .dropAppending _ => inferInstanceAs (Decidable (_ = true))
  | .dropWaiting _ => inferInstanceAs (Decidable (_ < _))

end Turns

/-- A `TurnFinished` or an `ExecutionStopped` gets the lock of its turn when no put of a dropped
emission is in flight. -/
def LocksSettled (harness : HarnessEvents Uid Data) : RoutingLabel Uid Data → Prop
  | .lock index => ∀ emission ∈ harness.waiting[index]?, emission.2.isTurnEvents = false →
    ∀ active ∈ harness.turns[emission.1]?, active.late = []
  | _ => True

instance [DecidableEq Data] (harness : HarnessEvents Uid Data) (label : RoutingLabel Uid Data) :
    Decidable (LocksSettled harness label) :=
  match label with
  | .lock _ => inferInstanceAs (Decidable (∀ _ ∈ _, _ → ∀ _ ∈ _, _))
  | .register _ _ _ | .remove _ | .emit _ | .write _ | .appended _ _ | .dropWaiting _
  | .dropAppending _ | .land _ _ | .settle _ _ => isTrue trivial

/-- No turn is registered. -/
def HarnessEvents.initial : HarnessEvents Uid Data := ⟨[], fun _ ↦ none, []⟩

/-! ## What the runtime relies on -/

/-- An emission of the kind was answered. -/
def Entry.stops : Entry Uid Data → Bool
  | .handled event _ _ _ => event.isStop
  | .wrote _ => false

/-- The outcome that the emission of a `TurnFinished` leads to. -/
def Entry.finishes : Entry Uid Data → Option HarnessTurnOutcome
  | .handled (.turnFinished _ outcome _) _ (.ok _) _ => some outcome
  | .handled (.turnFinished _ _ _) _ (.error error) _ => some (.failed error)
  | _ => none

/-- The outcome recorded by the first `TurnFinished`. -/
def recordedOutcome (log : List (Entry Uid Data)) : Option HarnessTurnOutcome :=
  log.findSome? Entry.finishes

/-- What the entry has to be, after what came before it.  Nothing is written after the first
`TurnFinished` or `ExecutionStopped`; the first `ExecutionStopped`, and nothing else, sends the
outcome of the first `TurnFinished`; an acknowledgement is of the submitted payloads in order, under
the identifiers of the append. -/
def Entry.Routed (before : List (Entry Uid Data)) : Entry Uid Data → Prop
  | .wrote _ => recordedOutcome before = none ∧ before.any Entry.stops = false
  | .handled event ids reply sends =>
    sends = (if event.isStop = true ∧ before.any Entry.stops = false then
        [(recordedOutcome before).getD (.failed "harness stopped without a terminal event")]
      else []) ∧
    ∀ events, reply = .ok events → events.map (·.data) = event.events ∧ events.map (·.id) = ids

/-! ## One registered turn -/

section Sound
variable {timestamp : Uid → Option ℕ} {debug : HarnessTurnKey Uid → String}
  {active : ActiveEventTurn Uid Data} {event : HarnessEvent Uid Data}
  {log : List (Entry Uid Data)} {entry : Entry Uid Data}

/-- The log is right so far, the sender is there until the first stop, the recorded outcome is the
one of the log, who appends does so before any `TurnFinished` or stop, and a put of a dropped emission
is in flight only before these have the lock. -/
structure ActiveEventTurn.Sound (active : ActiveEventTurn Uid Data) : Prop where
  routed : EachAfter Entry.Routed active.log
  completion : active.completion = !active.log.any Entry.stops
  outcome : active.completion = true → active.outcome = recordedOutcome active.log
  appending : ∀ appending ∈ active.appending,
    active.completion = true ∧ active.outcome = none ∧ appending.1.isStop = false
  late : active.late = [] ∨ active.completion = true ∧ active.outcome = none ∧
    ∀ appending ∈ active.appending, appending.1.isTurnEvents = true

section
variable (log : List (Entry Uid Data)) (entry : Entry Uid Data)

theorem recordedOutcome_snoc :
    recordedOutcome (log ++ [entry]) = (recordedOutcome log).or entry.finishes := by
  cases hentry : entry.finishes <;>
    simp [recordedOutcome, List.findSome?_append, hentry]

theorem any_stops_snoc :
    (log ++ [entry]).any Entry.stops = (log.any Entry.stops || entry.stops) := by
  simp

end

theorem ActiveEventTurn.Sound.not_stopped (hsound : active.Sound)
    (hopen : active.completion = true) : active.log.any Entry.stops = false := by
  have hcompletion := hsound.completion
  rw [hopen] at hcompletion
  simpa using hcompletion.symm

theorem acknowledge_spec (threadId : Uid) (turn : TurnRecord Uid) (pairs : List (Uid × Data))
    {events : List (Event Uid Data)}
    (hevents : acknowledge timestamp threadId turn pairs = .ok events) :
    events.map (·.data) = pairs.map Prod.snd ∧ events.map (·.id) = pairs.map Prod.fst := by
  induction pairs generalizing events with
  | nil =>
    cases hevents
    exact ⟨rfl, rfl⟩
  | cons pair rest ih =>
    obtain ⟨id, data⟩ := pair
    simp only [acknowledge] at hevents
    split at hevents
    · cases hevents
    · cases hrest : acknowledge timestamp threadId turn rest with
      | error error =>
        rw [hrest] at hevents
        cases hevents
      | ok events =>
        rw [hrest] at hevents
        cases hevents
        obtain ⟨hdata, hid⟩ := ih hrest
        exact ⟨congrArg (data :: ·) hdata, congrArg (id :: ·) hid⟩

/-- An acknowledgement names the submitted payloads in order, under the identifiers of the append. -/
theorem append_spec {events : List Data} {result : Except String (List Uid)}
    {acknowledged : List (Event Uid Data)}
    (happend : active.append timestamp events result = .ok acknowledged) :
    acknowledged.map (·.data) = events ∧ acknowledged.map (·.id) = result.toOption.getD [] := by
  cases result with
  | error error => cases happend
  | ok ids =>
    simp only [ActiveEventTurn.append] at happend
    split at happend
    · rename_i hlength
      obtain ⟨hdata, hid⟩ := acknowledge_spec _ _ _ happend
      rw [hdata, hid, List.map_snd_zip (by omega), List.map_fst_zip (by omega)]
      exact ⟨rfl, rfl⟩
    · cases happend

section
variable (hsound : active.Sound)
include hsound

namespace ActiveEventTurn

/-- An emission that is refused changes nothing but the log. -/
theorem Sound.refuse (hstop : event.isStop = true → active.completion = false)
    (hfinish : active.completion = true →
      ∀ key outcome events, event = .turnFinished key outcome events → active.outcome.isSome = true)
    (error : String) : (active.answer event [] (.error error) []).Sound where
  routed := by
    refine hsound.routed.snoc ⟨?_, by simp⟩
    rw [if_neg]
    rintro ⟨hisStop, hnone⟩
    have hcompletion := hsound.completion
    rw [hstop hisStop, hnone] at hcompletion
    cases hcompletion
  completion := by
    simp only [ActiveEventTurn.answer, any_stops_snoc, Bool.not_or, ← hsound.completion]
    cases hisStop : event.isStop with
    | false => simp [Entry.stops, hisStop]
    | true => simp [hstop hisStop]
  outcome := by
    intro hopen
    have houtcome := hsound.outcome hopen
    simp only [ActiveEventTurn.answer, recordedOutcome_snoc, houtcome]
    cases event with
    | turnEvents key events => simp [Entry.finishes]
    | executionStopped key => simp [Entry.finishes]
    | turnFinished key outcome events =>
      have hsome := hfinish hopen key outcome events rfl
      rw [houtcome] at hsome
      obtain ⟨recorded, hrecorded⟩ := Option.isSome_iff_exists.1 hsome
      rw [hrecorded, Option.some_or]
  appending := by simp [ActiveEventTurn.answer]
  late := hsound.late.imp_right fun hlate ↦ ⟨hlate.1, hlate.2.1, by simp [ActiveEventTurn.answer]⟩

section
variable (hopen : active.completion = true)
include hopen

/-- An append that is done is answered with what it returned, and a `TurnFinished` records its
outcome. -/
theorem Sound.conclude
    (hnone : active.outcome = none) (hstop : event.isStop = false)
    (hlate : active.late = [] ∨ event.isTurnEvents = true) {ids : List Uid}
    {reply : Except String (List (Event Uid Data))} (hreply : ∀ events, reply = .ok events →
      events.map (·.data) = event.events ∧ events.map (·.id) = ids) :
    (active.conclude event ids reply).Sound := by
  have hrecorded : recordedOutcome active.log = none := (hsound.outcome hopen).symm.trans hnone
  have hrouted : EachAfter Entry.Routed (active.log ++ [.handled event ids reply []]) := by
    refine hsound.routed.snoc ⟨?_, hreply⟩
    simp [hstop]
  have hcompletion :
      true = !(active.log ++ [Entry.handled event ids reply []]).any Entry.stops := by
    rw [any_stops_snoc, hsound.not_stopped hopen]
    simp [Entry.stops, hstop]
  cases event with
  | executionStopped key => cases hstop
  | turnEvents key events =>
    refine ⟨hrouted, hopen.trans hcompletion, fun _ ↦ ?_, by
      simp [ActiveEventTurn.conclude, ActiveEventTurn.answer], .inr ⟨hopen, hnone, by
      simp [ActiveEventTurn.conclude, ActiveEventTurn.answer]⟩⟩
    simp only [ActiveEventTurn.conclude, ActiveEventTurn.answer, recordedOutcome_snoc, hrecorded]
    exact hnone
  | turnFinished key outcome events =>
    cases reply with
    | ok acknowledged | error error =>
      refine ⟨hrouted, hopen.trans hcompletion, fun _ ↦ ?_, by
        simp [ActiveEventTurn.conclude, ActiveEventTurn.answer], .inl (hlate.resolve_right nofun)⟩
      simp only [ActiveEventTurn.conclude, ActiveEventTurn.answer, ActiveEventTurn.recordOutcome,
        recordedOutcome_snoc, hrecorded]
      rfl

/-- The first stop sends the recorded outcome. -/
theorem Sound.stop (hlate : active.late = []) (key : HarnessTurnKey Uid) :
    (ActiveEventTurn.answer { active with outcome := none, completion := false }
      (.executionStopped key) [] (.ok [])
      [active.outcome.getD (.failed "harness stopped without a terminal event")]).Sound where
  routed := by
    refine hsound.routed.snoc ⟨?_, ?_⟩
    · rw [hsound.not_stopped hopen, hsound.outcome hopen]
      simp [HarnessEvent.isStop]
    · rintro events ⟨⟩
      exact ⟨rfl, rfl⟩
  completion := by simp [ActiveEventTurn.answer, Entry.stops, HarnessEvent.isStop]
  outcome := by simp [ActiveEventTurn.answer]
  appending := by simp [ActiveEventTurn.answer]
  late := .inl hlate

theorem Sound.beginAppend (hnone : active.outcome = none) (hstop : event.isStop = false)
    (hlate : active.late = [] ∨ event.isTurnEvents = true) :
    ActiveEventTurn.Sound { active with appending := some (event, 0) } where
  routed := hsound.routed
  completion := hsound.completion
  outcome := hsound.outcome
  appending := by
    rintro _ ⟨⟩
    exact ⟨hopen, hnone, hstop⟩
  late := by
    refine hlate.imp_right fun hevents ↦ ⟨hopen, hnone, ?_⟩
    rintro _ ⟨⟩
    exact hevents

end

theorem Sound.handle (hlate : event.isTurnEvents = false → active.late = []) :
    (active.handle debug event).Sound := by
  unfold ActiveEventTurn.handle
  split
  · rename_i hclosed
    refine hsound.refuse (fun _ ↦ hclosed) (fun hopen ↦ ?_) _
    rw [hclosed] at hopen
    cases hopen
  · rename_i hnot
    have hopen : active.completion = true := by simpa using hnot
    cases event with
    | executionStopped key => exact hsound.stop hopen (hlate rfl) key
    | turnEvents key events =>
      simp only
      split
      · exact hsound.refuse (by simp [HarnessEvent.isStop]) (by simp) _
      · rename_i hunset
        have hnone : active.outcome = none := by simpa using hunset
        split
        · rename_i hempty
          refine hsound.conclude hopen hnone rfl (.inr rfl) ?_
          rintro _ ⟨⟩
          exact ⟨(List.isEmpty_iff.1 hempty).symm, rfl⟩
        · exact hsound.beginAppend hopen hnone rfl (.inr rfl)
    | turnFinished key outcome events =>
      simp only
      split
      · rename_i hset
        exact hsound.refuse (by simp [HarnessEvent.isStop]) (fun _ _ _ _ _ ↦ hset) _
      · rename_i hunset
        have hnone : active.outcome = none := by simpa using hunset
        split
        · rename_i hempty
          refine hsound.conclude hopen hnone rfl (.inl (hlate rfl)) ?_
          rintro _ ⟨⟩
          exact ⟨(List.isEmpty_iff.1 hempty).symm, rfl⟩
        · exact hsound.beginAppend hopen hnone rfl (.inl (hlate rfl))

theorem Sound.write : active.write.Sound := by
  unfold ActiveEventTurn.write
  split
  · exact hsound
  · rename_i event written happending
    obtain ⟨hopen, hnone, hstop⟩ := hsound.appending _ happending
    have hrecorded : recordedOutcome active.log = none := (hsound.outcome hopen).symm.trans hnone
    have hlate : active.late = [] ∨ active.completion = true ∧ active.outcome = none ∧
        ∀ appending ∈ some (event, written + 1), appending.1.isTurnEvents = true := by
      refine hsound.late.imp_right fun hlate ↦ ⟨hlate.1, hlate.2.1, ?_⟩
      rintro _ ⟨⟩
      exact hlate.2.2 (event, written) happending
    cases hdata : event.events[written]? with
    | none =>
      refine ⟨?_, ?_, ?_, ?_, hlate⟩
      · simpa using hsound.routed
      · simpa using hsound.completion
      · simpa using hsound.outcome
      · rintro _ ⟨⟩
        exact ⟨hopen, hnone, hstop⟩
    | some data =>
      refine ⟨?_, ?_, fun _ ↦ ?_, ?_, hlate⟩
      · exact hsound.routed.snoc ⟨hrecorded, hsound.not_stopped hopen⟩
      · simp [Entry.stops, hsound.completion]
      · simp only [Option.map_some, Option.toList_some, recordedOutcome_snoc, hrecorded, hnone]
        rfl
      · rintro _ ⟨⟩
        exact ⟨hopen, hnone, hstop⟩

theorem Sound.appended (result : Except String (List Uid)) :
    (active.appended timestamp result).Sound := by
  unfold ActiveEventTurn.appended
  split
  · exact hsound
  · rename_i event written happending
    obtain ⟨hopen, hnone, hstop⟩ := hsound.appending _ happending
    refine hsound.conclude hopen hnone hstop ?_ fun _ ↦ append_spec
    exact hsound.late.imp_right fun hlate ↦ hlate.2.2 _ happending

/-- A dropped emission leaves its put behind, before any `TurnFinished` or stop has the lock. -/
theorem Sound.drop : active.drop.Sound := by
  unfold ActiveEventTurn.drop
  split
  · exact hsound
  · rename_i event written happending
    obtain ⟨hopen, hnone, -⟩ := hsound.appending _ happending
    exact ⟨hsound.routed, hsound.completion, hsound.outcome, by simp, .inr ⟨hopen, hnone, by simp⟩⟩

theorem Sound.settle (index : ℕ) : (active.settle index).Sound where
  routed := hsound.routed
  completion := hsound.completion
  outcome := hsound.outcome
  appending := hsound.appending
  late := hsound.late.imp_left fun hnone ↦ by rw [ActiveEventTurn.settle, hnone, List.eraseIdx_nil]

/-- What a dropped emission has left in flight is written before any `TurnFinished` or stop. -/
theorem Sound.land (index : ℕ) : (active.land index).Sound := by
  unfold ActiveEventTurn.land
  split
  · rename_i data rest hindex
    have hlate := hsound.late.resolve_left fun hnone ↦ by simp [hnone] at hindex
    have hopen := hlate.1
    have hnone := hlate.2.1
    have hrecorded : recordedOutcome active.log = none := (hsound.outcome hopen).symm.trans hnone
    refine ⟨?_, ?_, fun _ ↦ ?_, hsound.appending, .inr hlate⟩
    · exact hsound.routed.snoc ⟨hrecorded, hsound.not_stopped hopen⟩
    · simp [Entry.stops, hsound.completion]
    · simp only [recordedOutcome_snoc, hrecorded, hnone]
      rfl
  · exact hsound

end ActiveEventTurn

end

end Sound

/-! ## All turns -/

section Runs
variable [DecidableEq Uid] {timestamp : Uid → Option ℕ} {debug : HarnessTurnKey Uid → String}
  {harness : HarnessEvents Uid Data}

/-- Every turn ever registered is sound. -/
def HarnessEvents.Sound (harness : HarnessEvents Uid Data) : Prop :=
  ∀ active ∈ harness.turns, active.Sound

omit [DecidableEq Uid] in
theorem HarnessEvents.Sound.update (hsound : harness.Sound) (turn : ℕ)
    {change : ActiveEventTurn Uid Data → ActiveEventTurn Uid Data}
    (hchange : ∀ active, harness.turns[turn]? = some active → active.Sound → (change active).Sound) :
    (harness.update turn change).Sound :=
  forall_mem_modify hsound turn hchange

theorem HarnessEvents.Sound.next (hsound : harness.Sound) {label : RoutingLabel Uid Data}
    (hlabel : LocksSettled harness label) : ((routing timestamp debug).next harness label).Sound := by
  cases label with
  | register agentId threadId turn =>
    simp only [routing, HarnessEvents.register]
    split
    · exact hsound
    · intro active hactive
      rcases List.mem_append.1 hactive with hold | hnew
      · exact hsound active hold
      · rw [List.mem_singleton.1 hnew]
        exact ⟨eachAfter_nil, rfl, fun _ ↦ rfl, by simp, .inl rfl⟩
  | remove key => exact hsound
  | emit event => exact hsound
  | lock index =>
    simp only [routing, HarnessEvents.lock]
    split
    · exact hsound
    · rename_i turn event hemission
      have hupdate : (HarnessEvents.update { harness with
          waiting := harness.waiting.eraseIdx index } turn (·.handle debug event)).Sound :=
        HarnessEvents.Sound.update hsound turn fun active hturn hactive ↦
          hactive.handle fun hevent ↦ hlabel _ hemission hevent active hturn
      split
      · exact hupdate
      · exact hupdate
  | write turn => exact hsound.update turn fun active _ hactive ↦ hactive.write
  | appended turn result => exact hsound.update turn fun active _ hactive ↦ hactive.appended result
  | dropWaiting index => exact hsound
  | dropAppending turn => exact hsound.update turn fun active _ hactive ↦ hactive.drop
  | land turn index => exact hsound.update turn fun active _ hactive ↦ hactive.land index
  | settle turn index => exact hsound.update turn fun active _ hactive ↦ hactive.settle index

/-- **Harness events.**  In every interleaving of registrations and emissions, with appends that may
fail, in which `TurnFinished` and `ExecutionStopped` find no put of a dropped emission in flight: for
every registered turn, the completion channel receives one outcome at the first `ExecutionStopped` and
none before or after, the one recorded by the first `TurnFinished`, or a failure if its append failed
or none arrived; nothing is written to the journal after the first `TurnFinished` or after
`ExecutionStopped`; and every acknowledgement lists the submitted payloads in order with the
identifiers the append returned. -/
theorem harness_events_routed {labels : List (RoutingLabel Uid Data)}
    (hrun : (routing timestamp debug).Admits .initial labels)
    (hsettled : (routing timestamp debug).Throughout LocksSettled .initial labels) :
    ∀ active ∈ ((routing timestamp debug).exec .initial labels).turns,
      EachAfter Entry.Routed active.log := by
  have hrestricted := (System.admits_restrict_iff LocksSettled .initial labels).2 ⟨hrun, hsettled⟩
  have hsound : ((routing timestamp debug).exec .initial labels).Sound := by
    refine System.invariant_of_restrict HarnessEvents.Sound ?_ ?_ hrestricted
    · exact fun harness label hharness _ hlabel ↦ hharness.next hlabel
    · simp [HarnessEvents.Sound, HarnessEvents.initial]
  exact fun active hactive ↦ (hsound active hactive).routed

end Runs

def turnKey : HarnessTurnKey ℕ := ⟨1, 2, 3⟩

/-- A turn that emits, drops an emission whose put lands, fails to append, is finished, gets a late
event and is stopped twice. -/
def finishedTurn : List (RoutingLabel ℕ String) :=
  [.register 1 2 ⟨3, 4⟩, .emit (.turnEvents turnKey ["a", "b"]), .lock 0, .write 0, .write 0,
    .appended 0 (.ok [10, 11]), .emit (.turnEvents turnKey ["c"]),
    .emit (.turnFinished turnKey .cancelled ["d"]), .emit (.turnEvents turnKey ["late"]),
    .emit (.executionStopped turnKey), .emit (.executionStopped turnKey), .lock 0, .dropAppending 0,
    .land 0 0, .settle 0 0, .lock 0, .write 0, .appended 0 (.error "disk full"), .lock 0, .lock 0,
    .lock 0]

theorem harness_events_routed_run :
    let system := routing (fun id ↦ some id) fun _ ↦ "key"
    system.Admits .initial finishedTurn ∧
      ∀ active ∈ (system.exec .initial finishedTurn).turns, EachAfter Entry.Routed active.log :=
  ⟨by decide +kernel, harness_events_routed (by decide +kernel) (by decide +kernel)⟩

/-- The put of an emission that is dropped on a cancellation lands after the turn was finished. -/
def lateTurn : List (RoutingLabel ℕ String) :=
  [.register 1 2 ⟨3, 4⟩, .emit (.turnEvents turnKey ["late"]), .lock 0, .dropAppending 0,
    .emit (.turnFinished turnKey .cancelled []), .lock 0, .land 0 0]

theorem event_after_finish : ¬ ∀ labels : List (RoutingLabel ℕ String),
      (routing (fun id ↦ some id) fun _ ↦ "key").Admits .initial labels →
      ∀ active ∈ ((routing (fun id ↦ some id) fun _ ↦ "key").exec .initial labels).turns,
        EachAfter Entry.Routed active.log := by
  intro hall
  have hwritten := hall lateTurn (by decide +kernel) _ List.mem_cons_self
    [.handled (.turnFinished turnKey .cancelled []) [] (.ok []) []] (.wrote "late") [] rfl
  cases hwritten.1

end Exo.Harness
