import Exo.BasicExecutor.Provider
import Exo.BasicExecutor.ToolExecution

/-!
# Open calls and settled decisions

A call is open until something has been decided about it: it may still ask, or it waits for an
approval that has no response up to the point from which the events are watched.  A decision is
settled: the journal has the response, and as long as the call has no result a resumed `authorize`
finds the same approval.  The inversion lemma says what a step of an execution does to either.
-/

namespace Exo.BasicExecutor.ApprovalDecisions

open Library TurnCoordinator ToolExecution List

section
variable (decisions : List ApprovalDecision)

section
variable (log : Log) (turn : TurnRecord)

/-- Nothing has been decided about the next call of the turn. -/
def Undecided : Prop :=
  ∀ decision ∈ decisions, decision.turn = turn → decision.index ≠ resolved log turn

/-- A call waits for an approval: it is the one a resumed `authorize` would find, unless that fails,
and every response to it comes behind the point from which the events are watched. -/
structure Awaits (round : ℕ) (call : ExecutableToolRequest)
    (approval : ApprovalRequest) (after : ℕ) : Prop where
  requested : .approvalRequested approval ∈ turnData log turn
  matched : approval.isFor round call
  current : (∃ message, existingApproval round call (turnData log turn) = .error message) ∨
    ∃ answer, existingApproval round call (turnData log turn) = .ok (some ⟨approval, answer⟩)
  bound : after < log.length
  behind : ∀ event ∈ log, event.turn = some turn → ∀ response,
    event.data = .approvalResponse response → response.approvalId = approval.approvalId →
      after < event.id

/-- What is known at a stage. -/
def StageOpen : Stage → Prop
  | .tool _ _ _ (.authorize false) | .tool _ _ _ .session | .tool _ _ _ .ask =>
    Undecided decisions log turn
  | .tool round call _ (.wait approval after) =>
    Undecided decisions log turn ∧ Awaits log turn round call approval after
  | _ => True

end

end

section
variable (events : List EventData) (decision : ApprovalDecision)

/-- The journal has the approval for the call and the response the decision follows. -/
def Recorded : Prop :=
  ∃ approval response, .approvalRequested approval ∈ events ∧
    approval.isFor decision.round decision.call ∧ approval.approvalId = decision.approvalId ∧
    .approvalResponse response ∈ events ∧ response.approvalId = decision.approvalId ∧
    response.approved = decision.approved

/-- What the journal of a turn says of a decision: the approval and the response, and, as long as
the call has no result, that a resumed `authorize` finds the same approval. -/
structure Settled : Prop where
  recorded : Recorded events decision
  reached : decision.index ≤ (resultIds events).length
  current : (resultIds events).length = decision.index → ∀ rounds, roundsOf events = some rounds →
    rounds.round = some decision.round ∧ ∃ rest, rounds.pending = decision.call :: rest
  replayed : (resultIds events).length = decision.index →
    (∃ message, existingApproval decision.round decision.call events = .error message) ∨
      ∃ approval answer, existingApproval decision.round decision.call events =
        .ok (some ⟨approval, answer⟩) ∧ approval.approvalId = decision.approvalId

end

/-- Two decisions about one call. -/
def ApprovalDecision.SameCall (first second : ApprovalDecision) : Prop :=
  first.turn = second.turn ∧ first.index = second.index

variable {batch : List EventData} {log : Log} {execution : Execution} {rounds : Rounds}

theorem resolved_append_neutral (log : Log) (turn : Option TurnRecord)
    (hneutral : ∀ event ∈ batch, event.neutral = true) (other : TurnRecord) :
    resolved (append log turn batch) other = resolved log other := by
  unfold resolved
  rw [turnData_append]
  split
  · rw [resultIds_append, resultIds_neutral hneutral, append_nil]
  · rfl

section Later
variable {events batch : List EventData} {decision : ApprovalDecision}

theorem Recorded.append (hrecorded : Recorded events decision) (batch : List EventData) :
    Recorded (events ++ batch) decision := by
  obtain ⟨approval, response, hrequested, hfor, hid, hresponse, hspec⟩ := hrecorded
  exact ⟨approval, response, mem_append_left _ hrequested, hfor, hid,
    mem_append_left _ hresponse, hspec⟩

variable (hsettled : Settled events decision)
include hsettled

/-- The journal goes on behind the call. -/
theorem Settled.append_passed (hpassed : decision.index ≠ (resultIds (events ++ batch)).length) :
    Settled (events ++ batch) decision := by
  have hnot (hindex : (resultIds (events ++ batch)).length = decision.index) : False :=
    hpassed hindex.symm
  refine ⟨hsettled.recorded.append batch, ?_, fun hindex ↦ (hnot hindex).elim,
    fun hindex ↦ (hnot hindex).elim⟩
  have hreached := hsettled.reached
  rw [resultIds_append, length_append]
  omega

/-- Events that are no tool events and ask for nothing. -/
theorem Settled.append_neutral {rounds : Rounds} (hrounds : roundsOf events = some rounds)
    (hneutral : ∀ event ∈ batch, event.neutral = true) (hasked : asked batch = []) :
    Settled (events ++ batch) decision := by
  have hsame : resultIds (events ++ batch) = resultIds events := by
    rw [resultIds_append, resultIds_neutral hneutral, append_nil]
  by_cases hindex : (resultIds events).length = decision.index
  · refine ⟨hsettled.recorded.append batch, by rw [hsame]; exact hsettled.reached, ?_, ?_⟩
    · intro _ rounds' hrounds'
      rw [roundsOf_append hrounds, rounds.foldlM_neutral hneutral] at hrounds'
      cases hrounds'
      exact hsettled.current hindex rounds hrounds
    · intro _
      rcases hsettled.replayed hindex with ⟨message, herror⟩ | ⟨approval, answer, hfound, hid⟩
      · exact .inl ⟨message, existingApproval_append_error herror batch⟩
      · obtain ⟨answer', hfound'⟩ := existingApproval_append_unasked hfound hasked
        exact .inr ⟨approval, answer', hfound', hid⟩
  · apply hsettled.append_passed
    rw [hsame]
    exact Ne.symm hindex

end Later

/-- A resumed `authorize` of the call decides in the same way.  It fails if the journal has an
approval for the id and the round of the call with another request. -/
def Replayed (log : Log) (decision : ApprovalDecision) : Prop :=
  ∀ policy,
    authorize log decision.turn policy decision.round decision.call true = decision.outcome ∨
      ((∃ approval ∈ asked (turnData log decision.turn),
          approval.toolCallId = some decision.call.toolCallId ∧
            approval.round = some decision.round ∧ approval.request ≠ decision.call.request) ∧
        authorize log decision.turn policy decision.round decision.call true =
          .result (.failure "saved approval has a different tool request"))

/-- The decision is repeated by a resumed `authorize`, as long as the call has no result. -/
theorem Settled.replays {decision : ApprovalDecision}
    (hsettled : Settled (turnData log decision.turn) decision)
    (horderly : Orderly (turnData log decision.turn))
    (hindex : resolved log decision.turn = decision.index) : Replayed log decision := by
  intro policy
  rcases hsettled.replayed hindex with ⟨message, herror⟩ | ⟨approval, answer, hfound, hid⟩
  · obtain ⟨rfl, hother⟩ := existingApproval_error herror
    refine .inr ⟨hother, ?_⟩
    unfold authorize
    rw [existingApproval_turnApprovals, herror]
    simp
  · left
    obtain ⟨-, response, -, -, -, hresponse, hanswers, happroved⟩ := hsettled.recorded
    have hanswer : answer = some response :=
      horderly.answer_eq hfound hresponse (hanswers.trans hid.symm)
    subst hanswer
    rw [authorize_saved policy hfound, happroved]
    rfl

/-- What is known at a stage stays known while others append. -/
theorem StageOpen.append {decisions : List ApprovalDecision} {turn : TurnRecord} {stage : Stage}
    (hopen : StageOpen decisions log turn stage) (other : Option TurnRecord)
    (hneutral : ∀ event ∈ batch, event.neutral = true) (hasked : asked batch = []) :
    StageOpen decisions (append log other batch) turn stage := by
  have hundecided (hbefore : Undecided decisions log turn) :
      Undecided decisions (BasicExecutor.append log other batch) turn := by
    intro decision hdecision hturn
    rw [resolved_append_neutral log other hneutral]
    exact hbefore decision hdecision hturn
  unfold StageOpen at hopen ⊢
  split at hopen
  · exact hundecided hopen
  · exact hundecided hopen
  · exact hundecided hopen
  · rename_i round call rest approval after
    obtain ⟨hbefore, hawaits⟩ := hopen
    refine ⟨hundecided hbefore, ?_, hawaits.matched, ?_, ?_, ?_⟩
    · exact mem_turnData_longer (fun event hevent ↦ mem_append_left _ hevent) hawaits.requested
    · rw [turnData_append]
      split
      · rcases hawaits.current with ⟨message, herror⟩ | ⟨answer, hfound⟩
        · exact .inl ⟨message, existingApproval_append_error herror batch⟩
        · exact .inr (existingApproval_append_unasked hfound hasked)
      · exact hawaits.current
    · exact Nat.lt_of_lt_of_le hawaits.bound (length_le_append log other batch)
    · intro event hevent hturn response hdata hid
      rcases mem_or_length_le_id hevent with hold | hlater
      · exact hawaits.behind event hold hturn response hdata hid
      · exact Nat.lt_of_lt_of_le hawaits.bound hlater
  · trivial

variable (log : Log) (execution : Execution) (rounds : Rounds) (choice : Choice) in
/-- What a step of an execution does about approvals. -/
inductive ApprovalStep :
    Move → Prop where
  | ended {batch : List EventData} (hneutral : ∀ event ∈ batch, event.neutral = true)
      (hsilent : ∀ event ∈ batch, event.silent = true) :
      ApprovalStep { batch := batch, stage := none }
  | moved {stage : Stage} {restored : Option (Finset ToolCallId)}
      {cache : Option HistoryCacheEntry} {starts : Bool}
      (hopen : ∀ decisions, StageOpen decisions log execution.turn execution.stage →
        StageOpen decisions log execution.turn stage) :
      ApprovalStep { stage := some stage, restored := restored, cache := cache, starts := starts }
  | resumed {round : ℕ} {call : ExecutableToolRequest} {rest : List ExecutableToolRequest}
      {approval : ApprovalRequest} {after : ℕ}
      (hfound : existingApproval round call (turnData log execution.turn) =
        .ok (some ⟨approval, none⟩))
      (hafter : (approvalEvents log (turnQuery execution.turn)).2 = some after)
      (hpending : rounds.round = some round ∧ rounds.pending = call :: rest) :
      ApprovalStep { stage := some (.tool round call rest (.wait approval after)) }
  | ask {round : ℕ} {call : ExecutableToolRequest} {rest : List ExecutableToolRequest}
      {approval : ApprovalRequest} (hstage : execution.stage = .tool round call rest .ask)
      (hchoice : choice = .ask approval.approvalId) (hfor : approval.isFor round call) :
      ApprovalStep
        { batch := [.approvalRequested approval]
          stage := some (.tool round call rest (.wait approval log.length)) }
  | committed {round : ℕ} {response : ModelResponse} {call : ExecutableToolRequest}
      {rest : List ExecutableToolRequest} (hpending : rounds.pending = []) :
      ApprovalStep
        { batch := .toolRound round :: modelResponseEvents response
          stage := some (.tool round call rest (.authorize false)) }
  | answered {round : ℕ} {toolCallId : ToolCallId} {rest : List ExecutableToolRequest}
      {value : Value} :
      ApprovalStep { batch := [.toolResult toolCallId value], stage := some (nextCall round rest) }

theorem advanceTool_approvalStep {round : ℕ} {call : ExecutableToolRequest}
    {rest : List ExecutableToolRequest} {phase : ToolPhase}
    (hstage : execution.stage = .tool round call rest phase)
    (hat : rounds.round = some round ∧ rounds.pending = call :: rest) (choice : Choice) :
    ApprovalStep log execution rounds choice
      (advanceTool log execution.turn execution.config round call rest phase choice) := by
  have hmoved {phase' : ToolPhase} {starts : Bool}
      (hopen : ∀ decisions, StageOpen decisions log execution.turn (.tool round call rest phase) →
        StageOpen decisions log execution.turn (.tool round call rest phase')) :
      ApprovalStep log execution rounds choice
        { stage := some (.tool round call rest phase'), starts := starts } := by
    apply ApprovalStep.moved
    rw [hstage]
    exact hopen
  unfold advanceTool
  split
  · rename_i resuming
    cases resuming with
    | false =>
      rcases authorize_first log execution.turn (execution.config.policy call.request.functionName)
        round call with ⟨hphase, -⟩ | hphase
      · rw [hphase]
        exact hmoved (fun _ _ ↦ trivial)
      · rw [hphase]
        exact hmoved (fun _ ↦ id)
    | true =>
      rcases authorize_resumed log execution.turn
        (execution.config.policy call.request.functionName) round call with
        ⟨approval, after, hphase, hfound, hafter⟩ | ⟨hphase, -⟩ | ⟨value, hphase⟩
      · rw [hphase]
        exact .resumed hfound hafter hat
      · rw [hphase]
        exact hmoved (fun _ _ ↦ trivial)
      · rw [hphase]
        exact hmoved (fun _ _ ↦ trivial)
  · rcases @authorizeSession_spec log call execution.turn.sessionId with ⟨hphase, -⟩ | hphase
    · rw [hphase]
      exact hmoved (fun _ _ ↦ trivial)
    · rw [hphase]
      exact hmoved (fun _ ↦ id)
  · exact .ask hstage rfl ⟨rfl, rfl, rfl⟩
  · unfold authorizeAnswer
    split
    · exact hmoved (fun _ _ ↦ trivial)
    · exact hmoved (fun _ _ ↦ trivial)
    · exact hmoved (fun _ _ ↦ trivial)
    · exact hmoved (fun _ ↦ id)
  · exact hmoved (fun _ _ ↦ trivial)
  · exact hmoved (fun _ _ ↦ trivial)
  · exact hmoved (fun _ _ ↦ trivial)
  · exact hmoved (fun _ _ ↦ trivial)
  · exact hmoved (fun _ _ ↦ trivial)
  · exact hmoved (fun _ _ ↦ trivial)
  · exact hmoved (fun _ _ ↦ trivial)
  · exact .answered
  · exact hmoved (fun _ ↦ id)

theorem advance_approvalStep (cache : Option HistoryCacheEntry) (hat : execution.stage.At rounds)
    (choice : Choice) :
    ApprovalStep log execution rounds choice (advance log cache execution choice) := by
  have hnone : ApprovalStep log execution rounds choice { stage := none } :=
    .ended (by simp) (by simp)
  unfold advance
  split
  · split
    · exact .moved (fun _ _ ↦ trivial)
    · exact hnone
  · split
    · exact .moved (fun _ _ ↦ trivial)
    · exact hnone
  · split
    · exact .moved (fun _ _ ↦ trivial)
    · exact .moved (fun _ _ ↦ trivial)
    · exact .moved (fun _ _ ↦ trivial)
    · exact hnone
  · split
    · exact hnone
    · exact .moved (fun _ _ ↦ trivial)
  · rename_i round prompt response hstage
    rw [hstage] at hat
    dsimp only
    split
    · rename_i hcalls
      rw [collectToolRequests_modelResponseEvents] at hcalls
      refine .ended (neutral_of_no_calls hcalls) ?_
      intro event hevent
      rcases mem_append.mp hevent with hresponse | hlast
      · exact silent_modelResponseEvents response event hresponse
      · rw [mem_singleton.mp hlast]
        rfl
    · exact .committed hat.1
  · rename_i round call rest phase choice hstage
    rw [hstage] at hat
    exact advanceTool_approvalStep hstage hat _
  · exact .moved (fun _ ↦ id)

end Exo.BasicExecutor.ApprovalDecisions
