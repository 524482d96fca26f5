import Exo.TurnCoordinator.Queue

/-!
# The event log of a conversation

The events the basic executor, its tools, the approval endpoint and the host write to a conversation
and read back.  The log is append-only, a batch is durable as a whole, and the id of an event is its
position.  JSON is kept as text: nothing here looks into it, apart from the error object that the
executor makes itself.
-/

namespace Exo.BasicExecutor

open TurnCoordinator List

abbrev ToolCallId := String

abbrev ApprovalId := String

inductive ToolCallArguments where
  | valid (arguments : String)
  | invalid (text : String)
  deriving DecidableEq

/-- A JSON value: the object with `ok: false` and an error text, or any other one as its text. -/
inductive Value where
  | json (text : String)
  | failure (error : String)
  deriving DecidableEq

structure ToolResultPart where
  toolCallId : ToolCallId
  toolName : String
  output : Value
  deriving DecidableEq

inductive AssistantContentPart where
  | toolCall (toolCallId : ToolCallId) (toolName : String) (arguments : ToolCallArguments)
  /-- The result of a tool that the provider runs. -/
  | toolResult (result : ToolResultPart)
  | other (text : String)
  deriving DecidableEq

inductive AssistantContent where
  | string (text : String)
  | array (parts : List AssistantContentPart)
  deriving DecidableEq

inductive Message where
  | system (text : String)
  | developer (text : String)
  | user (text : String)
  | assistant (content : AssistantContent) (id : Option String)
  | tool (content : List ToolResultPart)
  deriving DecidableEq

structure ToolRequest where
  functionName : String
  arguments : String
  toolNamespace : Option String := none
  deriving DecidableEq

/-- A tool call as the executor runs it. -/
structure ExecutableToolRequest where
  toolCallId : ToolCallId
  request : ToolRequest
  deriving DecidableEq

structure ApprovalRequest where
  approvalId : ApprovalId
  toolCallId : Option ToolCallId
  round : Option ℕ
  request : ToolRequest
  deriving DecidableEq

structure ApprovalResponse where
  approvalId : ApprovalId
  approved : Bool
  allowedToolName : Option String
  deriving DecidableEq

inductive PermissionPolicy where
  | alwaysAllow
  | alwaysAsk
  deriving DecidableEq

/-- What a model round returns; `usage` says whether there is a usage record. -/
structure ModelResponse where
  messages : List Message
  toolCalls : List ExecutableToolRequest
  usage : Bool := true

/-- The payload of an event.  `toolRound`, `approvalRequested`, `approvalResponse` and
`turnCompleted` are the custom events `exo.basic.tool_round`, `agent_runtime.approval_requested`,
`agent_runtime.approval_response` and `exo.runtime.turn_completed`. -/
inductive EventData where
  | turnStarted
  | messages (messages : List Message)
  | toolRequested (call : ExecutableToolRequest)
  | toolResult (toolCallId : ToolCallId) (result : Value)
  | toolRound (round : ℕ)
  | approvalRequested (approval : ApprovalRequest)
  | approvalResponse (response : ApprovalResponse)
  | turnCompleted
  | error (message : String)
  | turnEnded
  | other (kind : String)
  deriving DecidableEq

inductive EventKind where
  | turnStarted
  | messages
  | toolRequested
  | toolResult
  | toolRound
  | approvalRequested
  | approvalResponse
  | turnCompleted
  | error
  | turnEnded
  | other
  deriving DecidableEq

def EventData.kind : EventData → EventKind
  | .turnStarted => .turnStarted
  | .messages _ => .messages
  | .toolRequested _ => .toolRequested
  | .toolResult _ _ => .toolResult
  | .toolRound _ => .toolRound
  | .approvalRequested _ => .approvalRequested
  | .approvalResponse _ => .approvalResponse
  | .turnCompleted => .turnCompleted
  | .error _ => .error
  | .turnEnded => .turnEnded
  | .other _ => .other

/-- An event of a turn, or of the host if it has no turn. -/
structure Event where
  id : ℕ
  turn : Option TurnRecord
  data : EventData

abbrev Log := List Event

/-- Append one batch. -/
def append (log : Log) (turn : Option TurnRecord) (batch : List EventData) : Log :=
  log ++ batch.mapIdx (fun index data ↦ ⟨log.length + index, turn, data⟩)

/-- An ascending query without a limit. -/
structure EventQuery where
  cursor : Option ℕ := none
  sessionId : Option SessionId := none
  turnId : Option TurnId := none
  types : Option (List EventKind) := none

def EventQuery.accepts (query : EventQuery) (event : Event) : Bool :=
  query.sessionId.all (fun session ↦ event.turn.map (·.sessionId) = some session) &&
    query.turnId.all (fun turn ↦ event.turn.map (·.id) = some turn) &&
    query.types.all (fun types ↦ types.contains event.data.kind) &&
    query.cursor.all (fun cursor ↦ cursor < event.id)

/-- The events that match, and the id of the last of them as the position to resume from. -/
def getEvents (log : Log) (query : EventQuery) : List Event × Option ℕ :=
  let events := log.filter query.accepts
  (events, events.getLast?.map (·.id))

/-- The events of a model response. -/
def modelResponseEvents (response : ModelResponse) : List EventData :=
  (if response.messages ≠ [] ∨ response.usage then [.messages response.messages] else []) ++
    response.toolCalls.map .toolRequested

theorem mem_modelResponseEvents {response : ModelResponse} {event : EventData}
    (hevent : event ∈ modelResponseEvents response) :
    event = .messages response.messages ∨
      ∃ call ∈ response.toolCalls, event = .toolRequested call := by
  rcases mem_append.mp hevent with hmessages | hcalls
  · split at hmessages
    · exact .inl (mem_singleton.mp hmessages)
    · cases hmessages
  · obtain ⟨call, hcall, rfl⟩ := mem_map.mp hcalls
    exact .inr ⟨call, hcall, rfl⟩

def collectToolRequests (events : List EventData) : List ExecutableToolRequest :=
  events.filterMap (fun
    | .toolRequested call => some call
    | _ => none)

section
variable (log : Log)

/-- What the log holds for a turn, in order. -/
def turnData (turn : TurnRecord) : List EventData :=
  (log.filter (fun event ↦ event.turn = some turn)).map (·.data)

section
variable (turn : Option TurnRecord) (batch : List EventData)

theorem append_eq : ∃ events, append log turn batch = log ++ events ∧ events.map (·.data) = batch ∧
      ∀ event ∈ events, event.turn = turn := by
  refine ⟨_, rfl, ?_, ?_⟩
  · apply ext_getElem <;> simp
  · intro event hevent
    obtain ⟨index, _, rfl⟩ := mem_mapIdx.mp hevent
    rfl

theorem turnData_append (other : TurnRecord) : turnData (append log turn batch) other =
      if turn = some other then turnData log other ++ batch else turnData log other := by
  obtain ⟨events, heq, hdata, hturns⟩ := append_eq log turn batch
  unfold turnData
  rw [heq, filter_append, map_append]
  split
  · rename_i hturn
    have hall : events.filter (fun event ↦ event.turn = some other) = events := by
      apply filter_eq_self.mpr
      intro event hevent
      simp [hturns event hevent, hturn]
    rw [hall, hdata]
  · rename_i hturn
    have hnone : events.filter (fun event ↦ event.turn = some other) = [] := by
      apply filter_eq_nil_iff.mpr
      intro event hevent
      simp [hturns event hevent, hturn]
    rw [hnone, map_nil, append_nil]

end

@[simp]
theorem turnData_append_self (turn : TurnRecord) (batch : List EventData) :
    turnData (append log (some turn) batch) turn = turnData log turn ++ batch := by
  rw [turnData_append, if_pos rfl]

end

variable {turn : Option TurnRecord} {log : Log}

theorem turnData_append_other (log : Log) (batch : List EventData) {other : TurnRecord}
    (hne : turn ≠ some other) : turnData (append log turn batch) other = turnData log other := by
  rw [turnData_append, if_neg hne]

/-- With the turn and the session, a query reads exactly the events of the turn. -/
theorem getEvents_turn_session (log : Log) (turn : TurnRecord) (kinds : List EventKind) :
    (getEvents log { turnId := some turn.id, sessionId := some turn.sessionId
                     types := some kinds }).1.map (·.data) =
      (turnData log turn).filter (fun data ↦ kinds.contains data.kind) := by
  unfold getEvents turnData
  rw [filter_map, filter_filter]
  congr 1
  apply filter_congr
  intro event _
  rw [Bool.eq_iff_iff]
  cases hturn : event.turn with
  | none => simp [EventQuery.accepts, hturn]
  | some record =>
    obtain ⟨id, sessionId⟩ := record
    obtain ⟨id', sessionId'⟩ := turn
    simp [EventQuery.accepts, hturn]
    tauto

/-- The record of a turn is the only one with its id. -/
def SoleRecord (log : Log) (turn : TurnRecord) : Prop :=
  ∀ event ∈ log, ∀ record, event.turn = some record → record.id = turn.id → record = turn

/-- With the turn alone, a query reads the same events if the record of the turn is the only one. -/
theorem getEvents_turn {turn : TurnRecord} (hsole : SoleRecord log turn) (kinds : List EventKind) :
    (getEvents log { turnId := some turn.id, types := some kinds }).1.map (·.data) =
      (turnData log turn).filter (fun data ↦ kinds.contains data.kind) := by
  unfold getEvents turnData
  rw [filter_map, filter_filter]
  congr 1
  apply filter_congr
  intro event hevent
  rw [Bool.eq_iff_iff]
  cases hturn : event.turn with
  | none => simp [EventQuery.accepts, hturn]
  | some record =>
    have hiff : record.id = turn.id ↔ record = turn :=
      ⟨hsole event hevent record hturn, fun heq ↦ by rw [heq]⟩
    simp [EventQuery.accepts, hturn, hiff, and_comm]

section
variable (log : Log) (turn : Option TurnRecord) (batch : List EventData)

theorem take_append_log {n : ℕ}
    (hle : n ≤ log.length) : (append log turn batch).take n = log.take n := by
  unfold append
  rw [take_append_of_le_length hle]

theorem length_le_append : log.length ≤ (append log turn batch).length := by
  simp [append]

end

theorem mem_append_log {batch : List EventData} {event : Event}
    (hevent : event ∈ append log turn batch) :
    event ∈ log ∨ (event.turn = turn ∧ event.data ∈ batch) := by
  obtain ⟨events, heq, hdata, hturns⟩ := append_eq log turn batch
  rw [heq] at hevent
  rcases mem_append.mp hevent with hold | hnew
  · exact .inl hold
  · refine .inr ⟨hturns event hnew, ?_⟩
    rw [← hdata]
    exact mem_map_of_mem hnew

theorem mem_or_length_le_id {batch : List EventData} {event : Event}
    (hevent : event ∈ append log turn batch) : event ∈ log ∨ log.length ≤ event.id := by
  rcases mem_append.mp hevent with hold | hnew
  · exact .inl hold
  · obtain ⟨index, _, rfl⟩ := mem_mapIdx.mp hnew
    exact .inr (Nat.le_add_right _ _)

end Exo.BasicExecutor
