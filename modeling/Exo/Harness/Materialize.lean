import Mathlib.Data.List.Dedup
import Exo.BasicExecutor.AnsweredLogs

/-!
# The history in TypeScript

`materializeEventsToMessages` rebuilds the messages of a conversation from the same log as
`extend_message_history`.  It keeps the calls that wait for a result in a map in the order of
insertion, and it takes a call out of the map for every result in a message, also for the result of
a tool that the provider runs, which stands in the message of the call.

`extend_message_history` leaves such a call pending.  The two agree if every call that was settled
in its own message gets one more result from a tool message before the pending calls are flushed.
-/

namespace Exo.Harness

open Library BasicExecutor List

/-- The state of the loop; `pending` is a map in the order of insertion. -/
structure Materializing where
  messages : List Message := []
  seen : List ToolCallId := []
  pending : List (ToolCallId × String) := []

def toolResultMessage (toolCallId : ToolCallId) (toolName : String) (output : Value) : Message :=
  .tool [⟨toolCallId, toolName, output⟩]

section
variable (pending : List (ToolCallId × String))

/-- `Map.set`: a present key keeps its place. -/
def setPending (toolCallId : ToolCallId)
    (toolName : String) : List (ToolCallId × String) :=
  if (pending.lookup toolCallId).isSome then
    pending.map fun entry ↦ if entry.1 = toolCallId then (toolCallId, toolName) else entry
  else pending ++ [(toolCallId, toolName)]

/-- `Map.delete`. -/
def deletePending (toolCallId : ToolCallId) : List (ToolCallId × String) :=
  pending.filter fun entry ↦ entry.1 ≠ toolCallId

end

namespace Materializing

section
variable (state : Materializing)

def flushed : List Message :=
  state.pending.map fun entry ↦ toolResultMessage entry.1 entry.2
    (.failure "tool execution did not complete before the previous turn ended")

def flush : Materializing :=
  { state with messages := state.messages ++ state.flushed, pending := [] }

def call (toolCallId : ToolCallId) (toolName : String) : Materializing :=
  { state with
    seen := toolCallId :: state.seen
    pending := setPending state.pending toolCallId toolName }

def delete (toolCallId : ToolCallId) : Materializing :=
  { state with pending := deletePending state.pending toolCallId }

def extendPart : AssistantContentPart → Materializing
  | .toolCall toolCallId toolName _ => state.call toolCallId toolName
  | .toolResult result => state.delete result.toolCallId
  | .other _ => state

/-- The results of a tool message. -/
def deleteAll (content : List ToolResultPart) : Materializing :=
  content.foldl (fun state result ↦ state.delete result.toolCallId) state

/-- A message with its content, if that is an array. -/
def extendMessage (message : Message) : Materializing :=
  let before :=
    match message with
    | .tool _ => state
    | _ => state.flush
  let read :=
    match message with
    | .assistant (.array parts) _ => parts.foldl extendPart before
    | .tool content => before.deleteAll content
    | _ => before
  { read with messages := read.messages ++ [message] }

def extendEvent : EventData → Materializing
  | .messages messages => messages.foldl extendMessage state
  | .toolRequested call =>
    if call.toolCallId ∈ state.seen then state
    else
      { state.call call.toolCallId call.request.functionName with
        messages := state.messages ++ [.assistant (.array [.toolCall call.toolCallId
          call.request.functionName (.valid call.request.arguments)]) none] }
  | .toolResult toolCallId result =>
    match state.pending.lookup toolCallId with
    | none => state
    | some toolName =>
      if toolName = "" then state
      else
        { state.delete toolCallId with
          messages := state.messages ++ [toolResultMessage toolCallId toolName result] }
  | _ => state

end

end Materializing

def materializeEventsToMessages (events : List EventData) : List Message :=
  (events.foldl Materializing.extendEvent {}).flush.messages

namespace Materializing

section
variable (state : Materializing)

def extendItem : HistoryItem → Materializing
  | .message message => state.extendMessage message
  | .toolRequested call => state.extendEvent (.toolRequested call)
  | .toolResult toolCallId result => state.extendEvent (.toolResult toolCallId result)

/-- What an item adds. -/
def added : HistoryItem → List Message
  | .message (.tool content) => [.tool content]
  | .message message => state.flushed ++ [message]
  | .toolRequested call =>
    if call.toolCallId ∈ state.seen then []
    else [.assistant (.array [.toolCall call.toolCallId call.request.functionName
      (.valid call.request.arguments)]) none]
  | .toolResult toolCallId result =>
    match state.pending.lookup toolCallId with
    | none => []
    | some toolName => if toolName = "" then [] else [toolResultMessage toolCallId toolName result]

/-- What items add, up to the last flush. -/
def addedItems (state : Materializing) : List HistoryItem → List Message
  | [] => state.flushed
  | item :: items => state.added item ++ addedItems (state.extendItem item) items

theorem foldl_extendPart_messages (parts : List AssistantContentPart) :
    (parts.foldl extendPart state).messages = state.messages := by
  induction parts generalizing state with
  | nil => rfl
  | cons part parts ih =>
    rw [foldl_cons, ih]
    cases part <;> rfl

theorem deleteAll_messages (content : List ToolResultPart) :
    (state.deleteAll content).messages = state.messages := by
  induction content generalizing state with
  | nil => rfl
  | cons result content ih => exact ih (state.delete result.toolCallId)

theorem extendItem_messages (item : HistoryItem) :
    (state.extendItem item).messages = state.messages ++ state.added item := by
  cases item with
  | message message =>
    cases message with
    | tool content =>
      exact congrArg (· ++ [Message.tool content]) (deleteAll_messages state content)
    | assistant content id =>
      cases content with
      | string text => exact append_assoc ..
      | array parts =>
        calc (state.extendItem (.message (.assistant (.array parts) id))).messages
            = (parts.foldl extendPart state.flush).messages ++ [.assistant (.array parts) id] := rfl
          _ = state.messages ++ state.flushed ++ [.assistant (.array parts) id] := by
              rw [foldl_extendPart_messages, flush]
          _ = _ := append_assoc ..
    | system text | developer text | user text => exact append_assoc ..
  | toolRequested call =>
    rw [added, extendItem, extendEvent]
    split_ifs
    · exact (append_nil _).symm
    · rfl
  | toolResult toolCallId result =>
    simp only [added, extendItem, extendEvent]
    cases state.pending.lookup toolCallId with
    | none => exact (append_nil _).symm
    | some toolName =>
      dsimp only
      split_ifs
      · exact (append_nil _).symm
      · rfl

theorem foldl_extendEvent_messages (events : List EventData) :
    (events.foldl extendEvent state).flush.messages =
      state.messages ++ state.addedItems (historyItems events) := by
  have hitems (items : List HistoryItem) (state : Materializing) :
      (items.foldl extendItem state).flush.messages = state.messages ++ state.addedItems items := by
    induction items generalizing state with
    | nil => rfl
    | cons item items ih =>
      rw [foldl_cons, ih, extendItem_messages, append_assoc]
      rfl
  rw [← hitems]
  congr 1
  induction events generalizing state with
  | nil => rfl
  | cons event events ih =>
    have hmessages (messages : List Message) (state : Materializing) :
        messages.foldl extendMessage state =
          (messages.map HistoryItem.message).foldl extendItem state := by
      rw [foldl_map]
      rfl
    rw [historyItems, flatMap_cons, foldl_append, foldl_cons, ih, historyItems]
    cases event with
    | messages messages =>
      rw [extendEvent, hmessages]
      rfl
    | _ => rfl

end

end Materializing

theorem materializeEventsToMessages_eq (events : List EventData) :
    materializeEventsToMessages events = Materializing.addedItems {} (historyItems events) := by
  rw [materializeEventsToMessages, Materializing.foldl_extendEvent_messages]
  rfl

end Exo.Harness
