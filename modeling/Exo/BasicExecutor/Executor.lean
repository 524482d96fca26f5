import Exo.BasicExecutor.History
import Exo.BasicExecutor.Recovery
import Exo.Library.System

/-!
# Turns of the basic executor

`run_turn_loop`, `execute_tool_round`, `authorize` and the recovery in front of them as steps of one
system: the durable log of a conversation, the history cache of the process, the execution that is
running and the approval responses that are on their way.  A step is one read of the log, one
append, one start or one end of a tool, or one decision.

An execution is dropped between any two steps: by a crash, which loses everything but the log, by a
cancellation, a shutdown or an error, or at a suspension boundary, when its set of pending calls is
empty.  Afterwards the turn is recovered any number of times, until it is concluded.
-/

namespace Exo.BasicExecutor

open Library TurnCoordinator

/-- What an execution reads of the agent's and the conversation's configuration. -/
structure Config where
  instructions : List Message := []
  maxToolRoundTrips : Option ℕ := none
  policy : String → PermissionPolicy := fun _ ↦ .alwaysAllow

/-- Where an execution stands within one tool call. -/
inductive ToolPhase where
  | authorize (resuming : Bool)
  | session
  | ask
  | wait (approval : ApprovalRequest) (after : ℕ)
  | execute
  | running
  | result (value : Value)
  deriving DecidableEq

inductive Stage where
  | restore
  | load
  | approvals (replay : Replay)
  | round (round : ℕ)
  | model (round : ℕ) (prompt : List Message)
  | tool (round : ℕ) (call : ExecutableToolRequest) (rest : List ExecutableToolRequest)
      (phase : ToolPhase)
  deriving DecidableEq

/-- One execution of a turn, with the pending set of its `HarnessTurn`. -/
structure Execution where
  turn : TurnRecord
  config : Config
  pendingTools : Finset ToolCallId := ∅
  stage : Stage

/-- How a call ends, what the model answers, or what a tool returns. -/
inductive Choice where
  | proceed
  | fail (error : String)
  | complete (response : ModelResponse)
  | ask (approvalId : ApprovalId)
  | output (result : Except String Value)

/-- What a step of an execution does: the batch it appends, the stage it goes to unless it is over,
the pending set it restores, the cache entry it writes, and whether it starts the tool. -/
structure Move where
  batch : List EventData := []
  stage : Option Stage
  restored : Option (Finset ToolCallId) := none
  cache : Option HistoryCacheEntry := none
  starts : Bool := false

def denied (call : ExecutableToolRequest) : String :=
  "tool call denied by the user: " ++ call.request.functionName

section
variable (log : Log)

section
variable (turn : TurnRecord)

/-- `authorize` at its first decision. -/
def authorize (policy : PermissionPolicy) (round : ℕ)
    (call : ExecutableToolRequest) (resuming : Bool) : ToolPhase :=
  if resuming = false ∧ policy = .alwaysAllow then .execute
  else if resuming then
    match existingApproval round call (turnApprovals log turn) with
    | .error error => .result (.failure error)
    | .ok none =>
      .result (.failure "cannot safely resume tool call without its pending approval")
    | .ok (some ⟨approval, none⟩) =>
      match (approvalEvents log (turnQuery turn)).2 with
      | some after => .wait approval after
      | none => .result (.failure "saved approval has no event")
    | .ok (some ⟨_, some response⟩) =>
      if response.approved then .execute else .result (.failure (denied call))
  else .session

/-- `authorize` when it looks for a response that allows the tool for the session. -/
def authorizeSession (session : SessionId) (call : ExecutableToolRequest) : ToolPhase :=
  if (sessionApprovals log session).any (allowsTool call.request.functionName) then .execute
  else .ask

/-- `authorize` when it waits for the answer to its approval. -/
def authorizeAnswer (call : ExecutableToolRequest)
    (approval : ApprovalRequest) (after : ℕ) : ToolPhase :=
  match watchAnswer turn approval.approvalId (log.filter (fun event ↦ after < event.id)) with
  | .response true => .execute
  | .response false => .result (.failure (denied call))
  | .ended => .result (.failure "turn ended while waiting for tool approval")
  | .waiting => .wait approval after

/-- The next call of a round, or the next round. -/
def nextCall (round : ℕ) : List ExecutableToolRequest → Stage
  | [] => .round (round + 1)
  | call :: rest => .tool round call rest (.authorize false)

/-- A step within a tool call. -/
def advanceTool (config : Config) (round : ℕ)
    (call : ExecutableToolRequest) (rest : List ExecutableToolRequest) :
    ToolPhase → Choice → Move
  | .authorize resuming, .proceed =>
    { stage := some (.tool round call rest
        (authorize log turn (config.policy call.request.functionName) round call resuming)) }
  | .session, .proceed =>
    { stage := some (.tool round call rest (authorizeSession log turn.sessionId call)) }
  | .ask, .ask approvalId =>
    let approval : ApprovalRequest := ⟨approvalId, some call.toolCallId, some round, call.request⟩
    { batch := [.approvalRequested approval]
      stage := some (.tool round call rest (.wait approval log.length)) }
  | .wait approval after, .proceed =>
    { stage := some (.tool round call rest (authorizeAnswer log turn call approval after)) }
  | .authorize _, .fail error | .session, .fail error | .ask, .fail error
  | .wait _ _, .fail error =>
    { stage := some (.tool round call rest (.result (.failure error))) }
  | .execute, .proceed => { stage := some (.tool round call rest .running), starts := true }
  | .running, .output (.ok value) => { stage := some (.tool round call rest (.result value)) }
  | .running, .output (.error error) =>
    { stage := some (.tool round call rest (.result (.failure error))) }
  | .result value, .proceed =>
    { batch := [.toolResult call.toolCallId value], stage := some (nextCall round rest) }
  | phase, _ => { stage := some (.tool round call rest phase) }

end

/-- A step of an execution. -/
def advance (cache : Option HistoryCacheEntry) (execution : Execution)
    (choice : Choice) : Move :=
  match execution.stage, choice with
  | .restore, .proceed =>
    match restoreRecoveryTools log execution.turn with
    | .ok pending => { stage := some .load, restored := some pending }
    | .error _ => { stage := none }
  | .load, .proceed =>
    match replayRounds log execution.turn with
    | .ok replay => { stage := some (.approvals replay) }
    | .error _ => { stage := none }
  | .approvals replay, .proceed =>
    match resumeProgress execution.turn replay (turnApprovals log execution.turn) with
    | .ok ⟨startRound, none⟩ => { stage := some (.round startRound) }
    | .ok ⟨startRound, some []⟩ => { stage := some (.round (startRound + 1)) }
    | .ok ⟨startRound, some (call :: rest)⟩ =>
      { stage := some (.tool startRound call rest (.authorize true)) }
    | .error _ => { stage := none }
  | .round round, .proceed =>
    if execution.config.maxToolRoundTrips.any (fun limit ↦ limit < round) then { stage := none }
    else
      let history := materializePromptHistory cache log execution.config.instructions
      { stage := some (.model round history.1), cache := some history.2 }
  | .model round _, .complete response =>
    let events := modelResponseEvents response
    match collectToolRequests events with
    | [] => { batch := events ++ [.turnCompleted], stage := none }
    | call :: rest =>
      { batch := .toolRound round :: events
        stage := some (.tool round call rest (.authorize false)) }
  | .tool round call rest phase, choice =>
    advanceTool log execution.turn execution.config round call rest phase choice
  | stage, _ => { stage := some stage }

end

/-- A started tool, with the policy it was authorized under and the length of the log then. -/
structure Start where
  turn : TurnRecord
  round : ℕ
  call : ExecutableToolRequest
  policy : PermissionPolicy
  position : ℕ

/-- A conversation.  No step reads `starts`. -/
structure Conversation where
  log : Log := []
  cache : Option HistoryCacheEntry := none
  execution : Option Execution := none
  responders : List (TurnRecord × ApprovalResponse) := []
  starts : List Start := []

inductive Label where
  | begin (turn : TurnRecord) (input : List Message) (config : Config)
  | recover (turn : TurnRecord) (config : Config)
  | step (choice : Choice)
  | stop
  | suspend
  | crash
  | respond (turn : TurnRecord) (body : ApprovalResponseBody)
  | deliver (index : ℕ)
  | conclude (turn : TurnRecord) (data : EventData)
  | note (turn : Option TurnRecord) (kind : String)

/-- The batch of `begin_turn`, without the events no one here reads. -/
def beginEvents (input : List Message) : List EventData :=
  .turnStarted :: if input = [] then [] else [.messages input]

/-- The events that conclude a turn, written by its finalizer or by the drain of the queue. -/
def EventData.concludes : EventData → Bool
  | .error _ => true
  | .turnCompleted => true
  | .turnEnded => true
  | _ => false

namespace Conversation

section
variable (s : Conversation)

/-- The turn has events. -/
def Begun (turn : TurnRecord) : Prop :=
  ∃ event ∈ s.log, event.turn = some turn

instance (s : Conversation) (turn : TurnRecord) : Decidable (s.Begun turn) :=
  inferInstanceAs (Decidable (∃ event ∈ s.log, _))

def enabled : Label → Prop
  | .begin turn _ _ => s.execution.isNone = true ∧
      ∀ event ∈ s.log, event.turn.map (·.id) ≠ some turn.id
  | .recover turn _ => s.execution.isNone = true ∧ s.Begun turn ∧
      (turnData s.log turn).any EventData.concludes = false
  | .step _ => s.execution.isSome = true
  | .stop => s.execution.isSome = true
  | .suspend => s.execution.any (fun execution ↦ execution.pendingTools = ∅) = true
  | .crash => True
  | .respond _ _ => True
  | .deliver index => index < s.responders.length
  | .conclude turn data => s.execution.isNone = true ∧ s.Begun turn ∧ data.concludes = true ∧
      .turnEnded ∉ turnData s.log turn
  | .note turn _ => ∀ record ∈ turn, s.Begun record

/-- Apply a step of the running execution; its events go through `HarnessTurn::add_events`. -/
def apply (execution : Execution) (move : Move) : Conversation :=
  { s with
    log := append s.log (some execution.turn) move.batch
    cache := move.cache.or s.cache
    execution := move.stage.map (fun stage ↦ { execution with
      stage := stage
      pendingTools :=
        move.batch.foldl updatePendingTools (move.restored.getD execution.pendingTools) })
    starts :=
      match move.starts, execution.stage with
      | true, .tool round call _ _ => s.starts ++ [⟨execution.turn, round, call,
          execution.config.policy call.request.functionName, s.log.length⟩]
      | _, _ => s.starts }

def next : Label → Conversation
  | .begin turn input config =>
    { s with
      log := append s.log (some turn) (beginEvents input)
      execution := some { turn, config, stage := .round 0 } }
  | .recover turn config => { s with execution := some { turn, config, stage := .restore } }
  | .step choice =>
    match s.execution with
    | some execution => s.apply execution (advance s.log s.cache execution choice)
    | none => s
  | .stop => { s with execution := none }
  | .suspend => { s with execution := none }
  | .crash => { s with cache := none, execution := none, responders := [] }
  | .respond turn body =>
    match BasicExecutor.respond s.log turn body with
    | .ok response => { s with responders := s.responders ++ [(turn, response)] }
    | .error _ => s
  | .deliver index =>
    match s.responders[index]? with
    | some (turn, response) =>
      { s with
        log := append s.log (some turn) [.approvalResponse response]
        responders := s.responders.eraseIdx index }
    | none => s
  | .conclude turn data => { s with log := append s.log (some turn) [data] }
  | .note turn kind => { s with log := append s.log turn [.other kind] }

end

/-- The turns of a conversation as a transition system. -/
def system : System Conversation Label where
  enabled := enabled
  next := next

instance (s : Conversation) (label : Label) : Decidable (system.enabled s label) :=
  match label with
  | .begin _ _ _ | .recover _ _ | .conclude _ _ => inferInstanceAs (Decidable (_ ∧ _))
  | .step _ | .stop => inferInstanceAs (Decidable (s.execution.isSome = true))
  | .suspend => inferInstanceAs (Decidable (s.execution.any _ = true))
  | .crash | .respond _ _ => isTrue trivial
  | .deliver index => inferInstanceAs (Decidable (index < s.responders.length))
  | .note turn _ => inferInstanceAs (Decidable (∀ record ∈ turn, s.Begun record))

end Conversation

end Exo.BasicExecutor
