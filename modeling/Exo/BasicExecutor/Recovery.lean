import Mathlib.Data.Finset.Basic
import Mathlib.Data.Finset.Dedup
import Exo.BasicExecutor.Events

/-!
# Pending calls, approvals and recovery

The three places that track which tool calls still wait for a result: the set `HarnessTurn` keeps
while a turn runs, the list `restore_recovery_tools` rebuilds before a turn is resumed, and the list
`load_turn_progress` rebuilds to continue the round.  The first two forget all calls with the id of
a result, the last one the first of them.

Next to them, what `authorize` and the approval endpoint read of the approvals.
-/

namespace Exo.BasicExecutor

open TurnCoordinator

def updatePendingTools (pending : Finset ToolCallId) : EventData → Finset ToolCallId
  | .toolRequested call => insert call.toolCallId pending
  | .toolResult toolCallId _ => pending.erase toolCallId
  | _ => pending

def approvalKinds : List EventKind := [.approvalRequested, .approvalResponse, .turnEnded]

section
variable (log : Log)

/-- `approval_events`, with its pages joined. -/
def approvalEvents (query : EventQuery) : List Event × Option ℕ :=
  getEvents log { query with types := some approvalKinds }

section
variable (turn : TurnRecord)

def turnQuery : EventQuery :=
  { turnId := some turn.id, sessionId := some turn.sessionId }

/-- The approval events of a turn. -/
def turnApprovals : List EventData :=
  (approvalEvents log (turnQuery turn)).1.map (·.data)

/-- The approval events of a session. -/
def sessionApprovals (session : SessionId) : List EventData :=
  (approvalEvents log { sessionId := some session }).1.map (·.data)

/-- `pending_from_events`, from the requests that are pending already. -/
def pendingFromEvents : List ApprovalRequest → List EventData → List ApprovalRequest
  | pending, [] => pending
  | pending, .approvalRequested approval :: events =>
    pendingFromEvents (pending.filter (fun other ↦ other.approvalId ≠ approval.approvalId) ++
      [approval]) events
  | pending, .approvalResponse response :: events =>
    pendingFromEvents (pending.filter (fun other ↦ other.approvalId ≠ response.approvalId)) events
  | _, .turnEnded :: _ => []
  | pending, _ :: events => pendingFromEvents pending events

/-- The body of a request to the approval endpoint. -/
structure ApprovalResponseBody where
  approvalId : ApprovalId
  approved : Bool
  allowForTool : Bool := false

/-- `respond` up to its append: the response to an approval that is pending. -/
def respond (body : ApprovalResponseBody) : Except String ApprovalResponse :=
  if body.allowForTool && !body.approved then
    .error "a denied request cannot allow future calls"
  else
    match (pendingFromEvents [] (turnApprovals log turn)).find? (fun request ↦
        request.approvalId = body.approvalId) with
    | none => .error "approval is not pending for this session and turn"
    | some request => .ok {
        approvalId := body.approvalId
        approved := body.approved
        allowedToolName := if body.allowForTool then some request.request.functionName else none }

end

end

/-- The approval `authorize` resumes, with the answer to it. -/
structure ExistingApproval where
  approval : ApprovalRequest
  answer : Option ApprovalResponse := none

section
variable (round : ℕ) (call : ExecutableToolRequest)

def existingStep (existing : Option ExistingApproval) :
    EventData → Except String (Option ExistingApproval)
  | .approvalRequested approval =>
    if approval.toolCallId = some call.toolCallId ∧ approval.round = some round then
      if approval.request = call.request then .ok (some { approval })
      else .error "saved approval has a different tool request"
    else .ok existing
  | .approvalResponse response =>
    match existing with
    | some found =>
      if response.approvalId = found.approval.approvalId then
        .ok (some { found with answer := some response })
      else .ok existing
    | none => .ok none
  | _ => .ok existing

/-- The first loop of `authorize`. -/
def existingApproval (events : List EventData) : Except String (Option ExistingApproval) :=
  events.foldlM (existingStep round call) none

end

/-- Whether an earlier response allows the tool for the whole session. -/
def allowsTool (toolName : String) : EventData → Bool
  | .approvalResponse response => response.approved && response.allowedToolName = some toolName
  | _ => false

/-- The answer `authorize` finds in the event stream behind its approval. -/
inductive Answer where
  | response (approved : Bool)
  | ended
  | waiting

def watchAnswer (turn : TurnRecord) (approvalId : ApprovalId) : List Event → Answer
  | [] => .waiting
  | event :: events =>
    if event.turn = some turn then
      match event.data with
      | .approvalResponse response =>
        if response.approvalId = approvalId then .response response.approved
        else watchAnswer turn approvalId events
      | .turnEnded => .ended
      | _ => watchAnswer turn approvalId events
    else watchAnswer turn approvalId events

/-- The round and its calls without a result. -/
structure Replay where
  round : Option ℕ := none
  pending : List ExecutableToolRequest := []
  deriving DecidableEq

def Replay.step (replay : Replay) : EventData → Except String Replay
  | .toolRound round =>
    if replay.pending = [] then .ok { replay with round := some round }
    else .error "previous tool round is incomplete"
  | .toolRequested call =>
    if replay.round.isSome then .ok { replay with pending := replay.pending ++ [call] }
    else .error "tool call has no saved round"
  | .toolResult toolCallId _ =>
    .ok { replay with pending := replay.pending.eraseP (fun call ↦ call.toolCallId = toolCallId) }
  | _ => .ok replay

def Replay.nextRound (replay : Replay) : ℕ :=
  match replay.round with
  | none => 0
  | some round => round + 1

def progressKinds : List EventKind := [.toolRound, .toolRequested, .toolResult]

/-- The first read of `load_turn_progress` and its loop. -/
def replayRounds (log : Log) (turn : TurnRecord) : Except String Replay :=
  ((getEvents log { turnQuery turn with types := some progressKinds }).1.map (·.data)).foldlM
    Replay.step {}

structure TurnProgress where
  startRound : ℕ
  pendingToolRequests : Option (List ExecutableToolRequest)
  deriving DecidableEq

def cannotResume (call : ExecutableToolRequest) (turn : TurnRecord) : String :=
  "cannot safely resume unresolved tool call `" ++ call.toolCallId ++ "` (`" ++
    call.request.functionName ++ "`) for turn " ++ toString turn.id

/-- The rest of `load_turn_progress`, with the approvals of its second read. -/
def resumeProgress (turn : TurnRecord) (replay : Replay) (approvals : List EventData) :
    Except String TurnProgress :=
  match replay.pending with
  | [] => .ok ⟨replay.nextRound, none⟩
  | first :: rest =>
    match replay.round with
    | none => .error "pending tool call has a saved round"
    | some round =>
      if (pendingFromEvents [] approvals).any (fun approval ↦
          approval.toolCallId = some first.toolCallId ∧ approval.round = some round ∧
            approval.request = first.request) then
        .ok ⟨round, some (first :: rest)⟩
      else .error (cannotResume first turn)

/-- A turn is resumed between two rounds, or within a round whose first pending call has an approval
without a response. -/
theorem resumeProgress_ok {turn : TurnRecord} {replay : Replay} {approvals : List EventData}
    {progress : TurnProgress} (hresume : resumeProgress turn replay approvals = .ok progress) :
    (replay.pending = [] ∧ progress = ⟨replay.nextRound, none⟩) ∨
      ∃ first rest round, replay.pending = first :: rest ∧ replay.round = some round ∧
        progress = ⟨round, some (first :: rest)⟩ := by
  unfold resumeProgress at hresume
  split at hresume
  · rename_i hpending
    cases hresume
    exact .inl ⟨hpending, rfl⟩
  · rename_i first rest hpending
    split at hresume
    · cases hresume
    · rename_i round hround
      split at hresume <;> cases hresume
      exact .inr ⟨first, rest, round, hpending, hround, rfl⟩

def loadTurnProgress (log : Log) (turn : TurnRecord) : Except String TurnProgress := do
  let replay ← replayRounds log turn
  resumeProgress turn replay (turnApprovals log turn)

structure Recovered where
  toolRound : Option ℕ := none
  pending : List (Option ℕ × ExecutableToolRequest) := []
  approvals : List ApprovalRequest := []
  responses : List ApprovalId := []

def Recovered.step (recovered : Recovered) : EventData → Recovered
  | .toolRound round => { recovered with toolRound := some round }
  | .approvalRequested approval =>
    { recovered with approvals := recovered.approvals ++ [approval] }
  | .approvalResponse response =>
    { recovered with responses := recovered.responses ++ [response.approvalId] }
  | .toolRequested call =>
    { recovered with pending := recovered.pending ++ [(recovered.toolRound, call)] }
  | .toolResult toolCallId _ =>
    { recovered with
      pending := recovered.pending.filter (fun call ↦ call.2.toolCallId ≠ toolCallId) }
  | _ => recovered

def recoveryKinds : List EventKind :=
  [.toolRequested, .toolResult, .toolRound, .approvalRequested, .approvalResponse]

def recoveredTools (log : Log) (turn : TurnRecord) : Recovered :=
  ((getEvents log { turnId := some turn.id, types := some recoveryKinds }).1.map (·.data)).foldl
    Recovered.step {}

/-- Whether an approval of the call is pending. -/
def Recovered.awaits (recovered : Recovered) (round : Option ℕ) (call : ExecutableToolRequest) :
    Bool :=
  recovered.approvals.any (fun approval ↦
    approval.toolCallId = some call.toolCallId ∧ approval.round = round ∧ round.isSome ∧
      approval.request = call.request ∧ approval.approvalId ∉ recovered.responses)

/-- The set of pending calls a resumed turn starts with. -/
def restoreRecoveryTools (log : Log) (turn : TurnRecord) : Except String (Finset ToolCallId) :=
  let recovered := recoveredTools log turn
  match recovered.pending with
  | [] => .ok ∅
  | (round, call) :: _ =>
    if recovered.awaits round call then
      .ok (recovered.pending.map (fun call ↦ call.2.toolCallId)).toFinset
    else .error (cannotResume call turn)

end Exo.BasicExecutor
