import Exo.BasicExecutor.Recovery
import Exo.Library.Fold

/-!
# Tool rounds as a protocol on the log

What the events of a turn say about its tool rounds when the executor behaves: a round opens only
when the one before it is answered, its calls are requested before the first result, and the results
come in the order of the requests.  `Rounds` is the state of this protocol, `roundsOf` accepts a
log that follows it.

On an accepted log the replay of `load_turn_progress` returns exactly the calls without a result,
also when ids repeat, and the list of `restore_recovery_tools` those of them whose id has no result
in the round.
-/

namespace Exo.BasicExecutor

open Library TurnCoordinator List

/-- The calls of the earlier rounds, and the calls of this round with and without a result. -/
structure Rounds where
  round : Option ℕ := none
  past : List ExecutableToolRequest := []
  done : List ExecutableToolRequest := []
  pending : List ExecutableToolRequest := []

namespace Rounds

section
variable (rounds : Rounds)

def step : EventData → Option Rounds
  | .toolRound round =>
    if rounds.pending = [] then some ⟨some round, rounds.past ++ rounds.done, [], []⟩ else none
  | .toolRequested call =>
    if rounds.round.isSome ∧ rounds.done = [] then
      some { rounds with pending := rounds.pending ++ [call] }
    else none
  | .toolResult toolCallId _ =>
    match rounds.pending with
    | [] => none
    | call :: rest =>
      if call.toolCallId = toolCallId then
        some { rounds with done := rounds.done ++ [call], pending := rest }
      else none
  | _ => some rounds

/-- The number of the next round. -/
def nextRound : ℕ :=
  match rounds.round with
  | none => 0
  | some round => round + 1

/-- All calls of the turn, in the order of their requests. -/
def calls : List ExecutableToolRequest :=
  rounds.past ++ rounds.done ++ rounds.pending

/-- The calls with a result. -/
def answered : List ExecutableToolRequest := rounds.past ++ rounds.done

end

end Rounds

/-- The state the events of a turn lead to, if they follow the protocol. -/
def roundsOf (events : List EventData) : Option Rounds := events.foldlM Rounds.step {}

/-- The events that say nothing about tool rounds. -/
def EventData.neutral : EventData → Bool
  | .toolRound _ => false
  | .toolRequested _ => false
  | .toolResult _ _ => false
  | _ => true

variable {events batch : List EventData} {rounds : Rounds} {event : EventData}

theorem roundsOf_append (hrounds : roundsOf events = some rounds) :
    roundsOf (events ++ batch) = batch.foldlM Rounds.step rounds := by
  unfold roundsOf at hrounds ⊢
  rw [foldlM_append, hrounds]
  rfl

namespace Rounds

theorem step_neutral (rounds : Rounds) (hneutral : event.neutral = true) :
    rounds.step event = some rounds := by
  cases event with
  | toolRound | toolRequested | toolResult => cases hneutral
  | _ => rfl

theorem foldlM_neutral (rounds : Rounds) (hneutral : ∀ event ∈ batch, event.neutral = true) :
    batch.foldlM step rounds = some rounds := by
  induction batch with
  | nil => rfl
  | cons event batch ih =>
    rw [foldlM_cons, rounds.step_neutral (hneutral event (by simp))]
    exact ih (fun other hother ↦ hneutral other (mem_cons_of_mem _ hother))

theorem foldlM_requested {rounds : Rounds} (hround : rounds.round.isSome = true)
    (hdone : rounds.done = []) (calls : List ExecutableToolRequest) :
    (calls.map EventData.toolRequested).foldlM step rounds =
      some { rounds with pending := rounds.pending ++ calls } := by
  induction calls generalizing rounds with
  | nil => simp
  | cons call calls ih =>
    rw [map_cons, foldlM_cons]
    have hstep : rounds.step (.toolRequested call) =
        some { rounds with pending := rounds.pending ++ [call] } := if_pos ⟨hround, hdone⟩
    rw [hstep]
    calc
      (calls.map EventData.toolRequested).foldlM step
          { rounds with pending := rounds.pending ++ [call] }
          = some { rounds with pending := rounds.pending ++ [call] ++ calls } := by
        exact @ih { rounds with pending := rounds.pending ++ [call] } hround hdone
      _ = some { rounds with pending := rounds.pending ++ call :: calls } := by simp

/-- What an event the protocol accepts does. -/
inductive Effect (rounds : Rounds) : EventData → Rounds → Prop where
  | round (round : ℕ) (hpending : rounds.pending = []) :
      Effect rounds (.toolRound round) ⟨some round, rounds.past ++ rounds.done, [], []⟩
  | requested (call : ExecutableToolRequest) (hround : rounds.round.isSome = true)
      (hdone : rounds.done = []) :
      Effect rounds (.toolRequested call) { rounds with pending := rounds.pending ++ [call] }
  | result (call : ExecutableToolRequest) (rest : List ExecutableToolRequest) (value : Value)
      (hpending : rounds.pending = call :: rest) :
      Effect rounds (.toolResult call.toolCallId value)
        { rounds with done := rounds.done ++ [call], pending := rest }
  | neutral {event : EventData} (hneutral : event.neutral = true) : Effect rounds event rounds

theorem effect_of_step {next : Rounds} (hstep : rounds.step event = some next) :
    rounds.Effect event next := by
  cases event with
  | toolRound round =>
    simp only [step] at hstep
    split at hstep <;> cases hstep
    rename_i hpending
    exact .round round hpending
  | toolRequested call =>
    simp only [step] at hstep
    split at hstep <;> cases hstep
    rename_i hopen
    exact .requested call hopen.1 hopen.2
  | toolResult toolCallId value =>
    simp only [step] at hstep
    split at hstep
    · cases hstep
    · rename_i call rest hpending
      split at hstep <;> cases hstep
      rename_i hid
      rw [← hid]
      exact .result call rest value hpending
  | _ =>
    cases hstep
    exact .neutral rfl

end Rounds

/-- The ids of the results, in order. -/
def resultIds (events : List EventData) : List ToolCallId :=
  events.filterMap (fun
    | .toolResult toolCallId _ => some toolCallId
    | _ => none)

/-- The numbers of the rounds, in order. -/
def roundNumbers (events : List EventData) : List ℕ :=
  events.filterMap (fun
    | .toolRound round => some round
    | _ => none)

def callIds (calls : List ExecutableToolRequest) : List ToolCallId := calls.map (·.toolCallId)

section
variable (first second : List EventData)

@[simp]
theorem collectToolRequests_append : collectToolRequests (first ++ second) =
      collectToolRequests first ++ collectToolRequests second :=
  filterMap_append

@[simp]
theorem resultIds_append : resultIds (first ++ second) = resultIds first ++ resultIds second :=
  filterMap_append

@[simp]
theorem roundNumbers_append :
    roundNumbers (first ++ second) = roundNumbers first ++ roundNumbers second :=
  filterMap_append

end

@[simp]
theorem callIds_append (first second : List ExecutableToolRequest) :
    callIds (first ++ second) = callIds first ++ callIds second :=
  map_append

theorem lists_of_neutral (hneutral : event.neutral = true) :
    collectToolRequests [event] = [] ∧ resultIds [event] = [] ∧ roundNumbers [event] = [] := by
  cases event with
  | toolRound | toolRequested | toolResult => cases hneutral
  | _ => exact ⟨rfl, rfl, rfl⟩

theorem resultIds_neutral (hneutral : ∀ event ∈ batch, event.neutral = true) :
    resultIds batch = [] := by
  apply filterMap_eq_nil_iff.mpr
  intro event hevent
  cases event with
  | toolResult => cases hneutral _ hevent
  | _ => rfl

/-- The calls are the requests of the log, the answered ones those of its results, and the round is
the one committed last. -/
theorem lists_of_roundsOf (hrounds : roundsOf events = some rounds) :
    collectToolRequests events = rounds.calls ∧ resultIds events = callIds rounds.answered ∧
      (roundNumbers events).getLast? = rounds.round := by
  refine foldlM_rule (fun events rounds ↦ collectToolRequests events = rounds.calls ∧
    resultIds events = callIds rounds.answered ∧ (roundNumbers events).getLast? = rounds.round)
    ⟨rfl, rfl, rfl⟩ ?_ hrounds
  intro events event rounds next hsame hstep
  obtain ⟨hcalls, hanswered, hround⟩ := hsame
  rw [collectToolRequests_append, resultIds_append, roundNumbers_append, hcalls, hanswered]
  cases Rounds.effect_of_step hstep with
  | round round hpending =>
    simp [Rounds.calls, Rounds.answered, collectToolRequests, resultIds, roundNumbers, hpending]
  | requested call hopen hdone =>
    refine ⟨?_, ?_, ?_⟩
    · simp [Rounds.calls, collectToolRequests]
    · simp [Rounds.answered, resultIds]
    · simpa [roundNumbers] using hround
  | result call rest value hpending =>
    refine ⟨?_, ?_, ?_⟩
    · simp [Rounds.calls, collectToolRequests, hpending]
    · simp [Rounds.answered, resultIds, callIds]
    · simpa [roundNumbers] using hround
  | neutral hneutral =>
    obtain ⟨hrequests, hresults, hnumbers⟩ := lists_of_neutral hneutral
    rw [hrequests, hresults, hnumbers, append_nil, append_nil, append_nil]
    exact ⟨rfl, rfl, hround⟩

/-- The replay keeps the pending calls of an accepted log, whether or not ids repeat. -/
theorem replay_of_roundsOf (hrounds : roundsOf events = some rounds) :
    events.foldlM Replay.step {} = .ok ⟨rounds.round, rounds.pending⟩ := by
  have hstep : ∀ rounds next replay event, replay = (⟨rounds.round, rounds.pending⟩ : Replay) →
      Rounds.step rounds event = some next →
        ∃ result, Replay.step replay event = .ok result ∧
          result = (⟨next.round, next.pending⟩ : Replay) := by
    rintro rounds next replay event rfl hstep
    refine ⟨⟨next.round, next.pending⟩, ?_, rfl⟩
    cases Rounds.effect_of_step hstep with
    | round round hpending => simp [Replay.step, hpending]
    | requested call hopen hdone => simp [Replay.step, hopen]
    | result call rest value hpending => simp [Replay.step, hpending]
    | neutral hneutral =>
      cases event with
      | toolRound | toolRequested | toolResult => cases hneutral
      | _ => rfl
  obtain ⟨result, hresult, rfl⟩ := foldlM_simulates Replay.step
    (fun rounds replay ↦ replay = ⟨rounds.round, rounds.pending⟩) rfl hstep hrounds
  exact hresult

/-- The calls whose id has no result in the round. -/
def Rounds.retained (rounds : Rounds) : List ExecutableToolRequest :=
  rounds.pending.filter (fun call ↦ call.toolCallId ∉ callIds rounds.done)

/-- The list of the recovery keeps the retained calls, each with the round. -/
theorem recovered_of_roundsOf (hrounds : roundsOf events = some rounds) :
    (events.foldl Recovered.step {}).toolRound = rounds.round ∧
      (events.foldl Recovered.step {}).pending =
        rounds.retained.map (fun call ↦ (rounds.round, call)) := by
  refine foldl_simulates Recovered.step (fun (rounds : Rounds) (recovered : Recovered) ↦
    recovered.toolRound = rounds.round ∧ recovered.pending =
      rounds.retained.map (fun call ↦ (rounds.round, call))) ⟨rfl, rfl⟩ ?_ hrounds
  rintro rounds next recovered event ⟨hround, hpending'⟩ hstep
  cases Rounds.effect_of_step hstep with
  | round round hpending =>
    refine ⟨rfl, ?_⟩
    simpa [Recovered.step, Rounds.retained, hpending] using hpending'
  | requested call hopen hdone =>
    refine ⟨hround, ?_⟩
    simp [Recovered.step, Rounds.retained, hdone, hpending', hround, callIds]
  | result call rest value hpending =>
    refine ⟨hround, ?_⟩
    simp only [Recovered.step, Rounds.retained, hpending', hpending, filter_map, filter_filter]
    congr 1
    rw [filter_cons_of_neg (by simp)]
    apply filter_congr
    intro other _
    have hiff : other.toolCallId ≠ call.toolCallId ∧ other.toolCallId ∉ callIds rounds.done ↔
        other.toolCallId ∉ callIds (rounds.done ++ [call]) := by
      rw [callIds_append, mem_append, not_or, and_comm]
      simp [callIds]
    rw [Function.comp_apply, ← Bool.decide_and]
    exact decide_eq_decide.mpr hiff
  | neutral hneutral =>
    cases event with
    | toolRound | toolRequested | toolResult => cases hneutral
    | _ => exact ⟨hround, hpending'⟩

theorem replayRounds_eq (log : Log) (turn : TurnRecord) :
    replayRounds log turn = (turnData log turn).foldlM Replay.step {} := by
  unfold replayRounds turnQuery
  rw [getEvents_turn_session]
  apply foldlM_filter_of_skip
  intro replay event hskip
  cases event with
  | toolRound | toolRequested | toolResult => cases hskip
  | _ => rfl

theorem recoveredTools_eq {log : Log} {turn : TurnRecord} (hsole : SoleRecord log turn) :
    recoveredTools log turn = (turnData log turn).foldl Recovered.step {} := by
  unfold recoveredTools
  rw [getEvents_turn hsole]
  apply foldl_filter_of_skip
  intro recovered event hskip
  cases event with
  | toolRound | toolRequested | toolResult | approvalRequested | approvalResponse => cases hskip
  | _ => rfl

theorem turnApprovals_eq (log : Log) (turn : TurnRecord) : turnApprovals log turn =
      (turnData log turn).filter (fun data ↦ approvalKinds.contains data.kind) :=
  getEvents_turn_session log turn approvalKinds

end Exo.BasicExecutor
