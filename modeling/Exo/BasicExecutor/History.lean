import Exo.BasicExecutor.Events
import Exo.Library.Fold

/-!
# The prompt history

`extend_message_history` turns a batch of events into messages and answers the calls that are still
pending at the end of the batch with a cancellation result.  `materialize_conversation_messages`
runs it once over the whole log, `materialize_prompt_history` over the events after the cursor of
its cache.

The two agree at a cut if no call is pending there, or if what comes next is a message that flushes
the pending calls at once anyway.
-/

namespace Exo.BasicExecutor

open Library

/-- The messages so far, the names of the calls seen, and the calls that wait for a result. -/
structure History where
  messages : List Message := []
  toolCallNames : List (ToolCallId × String) := []
  pending : List ToolCallId := []

namespace History

/-- The result given to a call that got none. -/
def danglingResult (toolCallId : ToolCallId) (toolName : String) : Message :=
  .tool [⟨toolCallId, toolName,
    .failure "tool execution did not complete before the previous turn ended"⟩]

section
variable (h : History)

def flushDanglingToolResults : History :=
  { h with
    messages := h.messages ++ h.pending.filterMap (fun toolCallId ↦
      (h.toolCallNames.lookup toolCallId).map (danglingResult toolCallId))
    pending := [] }

/-- Remove the first pending call with this id. -/
def removePendingToolCall (pending : List ToolCallId) (toolCallId : ToolCallId) : List ToolCallId :=
  pending.erase toolCallId

def extendPart : AssistantContentPart → History
  | .toolCall toolCallId toolName _ =>
    { h with
      toolCallNames := (toolCallId, toolName) :: h.toolCallNames
      pending := h.pending ++ [toolCallId] }
  | .toolResult _ | .other _ => h

/-- What a message does to the pending calls before it is added. -/
def beforeMessage : Message → History
  | .tool content =>
    { h with pending := content.foldl (fun pending result ↦
        removePendingToolCall pending result.toolCallId) h.pending }
  | _ => h.flushDanglingToolResults

def extendMessage (message : Message) : History :=
  let before := h.beforeMessage message
  let called :=
    match message with
    | .assistant (.array parts) _ => parts.foldl extendPart before
    | _ => before
  { called with messages := called.messages ++ [message] }

def extendEvent : EventData → History
  | .messages messages => messages.foldl extendMessage h
  | .toolRequested call =>
    if (h.toolCallNames.lookup call.toolCallId).isSome then h
    else
      { messages := h.messages ++ [.assistant (.array [.toolCall call.toolCallId
          call.request.functionName (.valid call.request.arguments)]) none]
        toolCallNames := (call.toolCallId, call.request.functionName) :: h.toolCallNames
        pending := h.pending ++ [call.toolCallId] }
  | .toolResult toolCallId result =>
    if toolCallId ∈ h.pending then
      match h.toolCallNames.lookup toolCallId with
      | none => h
      | some toolName =>
        { h with
          messages := h.messages ++ [.tool [⟨toolCallId, toolName, result⟩]]
          pending := removePendingToolCall h.pending toolCallId }
    else h
  | _ => h

/-- `extend_message_history` before its final flush. -/
def extend (events : List EventData) : History := events.foldl extendEvent h

end

end History

/-- `extend_message_history`. -/
def extendMessageHistory (messages : List Message) (toolCallNames : List (ToolCallId × String))
    (events : List EventData) : History :=
  (History.extend { messages, toolCallNames } events).flushDanglingToolResults

/-- The whole log in one pass. -/
def materializeConversationMessages (log : Log) : List Message :=
  (extendMessageHistory [] [] ((getEvents log {}).1.map (·.data))).messages

structure HistoryCacheEntry where
  cursor : Option ℕ := none
  messages : List Message := []
  toolCallNames : List (ToolCallId × String) := []

/-- The kinds of events a history is made from. -/
def historyKinds : List EventKind := [.messages, .toolRequested, .toolResult]

/-- The events a read with this cursor gets. -/
def historyEvents (log : Log) (cursor : Option ℕ) : List Event × Option ℕ :=
  getEvents log { cursor, types := some historyKinds }

/-- The messages for the prompt, and the cache entry that is left. -/
def materializePromptHistory (cache : Option HistoryCacheEntry) (log : Log)
    (instructions : List Message) : List Message × HistoryCacheEntry :=
  let cached := cache.getD {}
  let result := historyEvents log cached.cursor
  let history := extendMessageHistory cached.messages cached.toolCallNames (result.1.map (·.data))
  (instructions ++ history.messages,
    { cursor := result.2.or cached.cursor
      messages := history.messages
      toolCallNames := history.toolCallNames })

namespace History

section
variable (h : History)

@[simp]
theorem flush_pending : h.flushDanglingToolResults.pending = [] := rfl

@[simp]
theorem flush_toolCallNames : h.flushDanglingToolResults.toolCallNames = h.toolCallNames := rfl

theorem flush_of_pending_nil {h : History} (hpending : h.pending = []) :
    h.flushDanglingToolResults = h := by
  unfold flushDanglingToolResults
  rw [hpending, List.filterMap_nil, List.append_nil, ← hpending]

@[simp]
theorem flush_flush :
    h.flushDanglingToolResults.flushDanglingToolResults = h.flushDanglingToolResults :=
  flush_of_pending_nil rfl

theorem extend_append (first second : List EventData) :
    h.extend (first ++ second) = (h.extend first).extend second :=
  List.foldl_append

/-- What follows a cut does nothing to the pending calls until a message flushes them. -/
def opensWithMessage (h : History) : List EventData → Bool
  | [] => true
  | .messages [] :: events => h.opensWithMessage events
  | .messages (.tool _ :: _) :: _ => false
  | .messages (_ :: _) :: _ => true
  | .toolRequested call :: events =>
    (h.toolCallNames.lookup call.toolCallId).isSome && h.opensWithMessage events
  | .toolResult toolCallId _ :: events =>
    decide (toolCallId ∉ h.pending) && h.opensWithMessage events
  | _ :: events => h.opensWithMessage events

/-- A message other than a tool message does not see whether the pending calls were flushed. -/
theorem extendMessage_flush {message : Message}
    (hmessage : ∀ content, message ≠ .tool content) :
    h.flushDanglingToolResults.extendMessage message = h.extendMessage message := by
  have hbefore : h.flushDanglingToolResults.beforeMessage message = h.beforeMessage message := by
    cases message with
    | tool content => exact absurd rfl (hmessage content)
    | _ => exact flush_flush h
  unfold extendMessage
  rw [hbefore]

/-- The events that a flush at the cut does not disturb. -/
theorem flush_extend_of_opensWithMessage (events : List EventData)
    (hopens : h.opensWithMessage events = true) :
    (h.flushDanglingToolResults.extend events).flushDanglingToolResults =
      (h.extend events).flushDanglingToolResults := by
  induction events with
  | nil => exact flush_flush h
  | cons event events ih =>
    -- Until the first message both histories stay where they are.
    have hquiet (hleft : h.flushDanglingToolResults.extendEvent event = h.flushDanglingToolResults)
        (hright : h.extendEvent event = h) (hrest : h.opensWithMessage events = true) :
        (h.flushDanglingToolResults.extend (event :: events)).flushDanglingToolResults =
          (h.extend (event :: events)).flushDanglingToolResults := by
      unfold extend at ih ⊢
      rw [List.foldl_cons, List.foldl_cons, hleft, hright]
      exact ih hrest
    have hsame (hevent : h.flushDanglingToolResults.extendEvent event = h.extendEvent event) :
        (h.flushDanglingToolResults.extend (event :: events)).flushDanglingToolResults =
          (h.extend (event :: events)).flushDanglingToolResults := by
      unfold extend
      rw [List.foldl_cons, List.foldl_cons, hevent]
    cases event with
    | messages messages =>
      cases messages with
      | nil => exact hquiet rfl rfl hopens
      | cons message messages =>
        have hmessage : ∀ content, message ≠ .tool content := by
          rintro content rfl
          cases hopens
        apply hsame
        simp only [extendEvent, List.foldl_cons]
        rw [extendMessage_flush h hmessage]
    | toolRequested call =>
      simp only [opensWithMessage, Bool.and_eq_true] at hopens
      refine hquiet ?_ ?_ hopens.2
      · simp only [extendEvent, flush_toolCallNames, hopens.1, if_true]
      · simp only [extendEvent, hopens.1, if_true]
    | toolResult toolCallId result =>
      simp only [opensWithMessage, Bool.and_eq_true, decide_eq_true_eq] at hopens
      refine hquiet ?_ ?_ hopens.2
      · simp [extendEvent]
      · simp [extendEvent, hopens.1]
    | _ => exact hquiet rfl rfl hopens

theorem extend_filter (events : List EventData) :
    h.extend (events.filter (fun event ↦ historyKinds.contains event.kind)) = h.extend events := by
  apply foldl_filter_of_skip
  intro value event hskip
  cases event with
  | messages | toolRequested | toolResult => cases hskip
  | _ => rfl

end

end History

end Exo.BasicExecutor
