import Exo.BasicExecutor.History
import Exo.Library.System

/-!
# What a history is made of

A history is read as a sequence of calls, results and boundaries: a boundary is a message other than
a tool message that was taken from a messages event.  The sequence is that of the messages, each
marked with whether it was taken from a messages event; what is not taken was made for a standalone
call or result.
-/

namespace Exo.BasicExecutor

open Library List

/-- What a history is extended with. -/
inductive HistoryItem where
  | message (message : Message)
  | toolRequested (call : ExecutableToolRequest)
  | toolResult (toolCallId : ToolCallId) (result : Value)

def EventData.historyItems : EventData → List HistoryItem
  | .messages batch => batch.map .message
  | .toolRequested call => [.toolRequested call]
  | .toolResult toolCallId result => [.toolResult toolCallId result]
  | _ => []

def historyItems (events : List EventData) : List HistoryItem :=
  events.flatMap EventData.historyItems

namespace History

def extendItem (h : History) : HistoryItem → History
  | .message message => h.extendMessage message
  | .toolRequested call => h.extendEvent (.toolRequested call)
  | .toolResult toolCallId result => h.extendEvent (.toolResult toolCallId result)

end History

/-- A history that grows item by item. -/
def histories : System History HistoryItem where
  enabled _ _ := True
  next := History.extendItem

namespace History

theorem exec_messages (h : History) (messages : List Message) :
    histories.exec h (messages.map .message) = messages.foldl extendMessage h := by
  induction messages generalizing h with
  | nil => rfl
  | cons message messages ih => exact ih (h.extendMessage message)

theorem extend_eq_exec (h : History) (events : List EventData) :
    h.extend events = histories.exec h (historyItems events) := by
  induction events generalizing h with
  | nil => rfl
  | cons event events ih =>
    have hevent : h.extendEvent event = histories.exec h event.historyItems := by
      cases event with
      | messages messages => exact (h.exec_messages messages).symm
      | _ => rfl
    rw [historyItems, flatMap_cons, System.exec_append, ← hevent]
    exact ih (h.extendEvent event)

/-- A message of a history, and whether it was taken from a messages event. -/
structure Marked where
  taken : Bool
  message : Message

section
variable (h : History)

/-- The results that a flush adds. -/
def danglingResults : List Message :=
  h.pending.filterMap fun toolCallId ↦
    (h.toolCallNames.lookup toolCallId).map (danglingResult toolCallId)

/-- The messages that an item adds. -/
def marks : HistoryItem → List Marked
  | .message (.tool content) => [⟨true, .tool content⟩]
  | .message message => h.danglingResults.map (⟨false, ·⟩) ++ [⟨true, message⟩]
  | .toolRequested call =>
    if (h.toolCallNames.lookup call.toolCallId).isSome then []
    else [⟨false, .assistant (.array [.toolCall call.toolCallId call.request.functionName
      (.valid call.request.arguments)]) none⟩]
  | .toolResult toolCallId result =>
    if toolCallId ∈ h.pending then
      ((h.toolCallNames.lookup toolCallId).map fun toolName ↦
        Marked.mk false (.tool [⟨toolCallId, toolName, result⟩])).toList
    else []

/-- The messages that items add, up to the last flush. -/
def markedItems (h : History) : List HistoryItem → List Marked
  | [] => h.danglingResults.map (⟨false, ·⟩)
  | item :: items => h.marks item ++ markedItems (h.extendItem item) items

@[simp]
theorem extendPart_messages (part : AssistantContentPart) :
    (h.extendPart part).messages = h.messages := by
  cases part <;> rfl

theorem foldl_extendPart_messages (parts : List AssistantContentPart) :
    (parts.foldl extendPart h).messages = h.messages := by
  induction parts generalizing h with
  | nil => rfl
  | cons part parts ih =>
    rw [foldl_cons, ih]
    exact h.extendPart_messages part

theorem flush_messages :
    h.flushDanglingToolResults.messages = h.messages ++ h.danglingResults := rfl

theorem marked_messages (message : Message) :
    (h.danglingResults.map (Marked.mk false) ++ [Marked.mk true message]).map Marked.message =
      h.danglingResults ++ [message] := by
  rw [map_append, map_map]
  simp [Function.comp_def]

theorem extendItem_messages (item : HistoryItem) :
    (h.extendItem item).messages = h.messages ++ (h.marks item).map Marked.message := by
  have hflushed (message : Message) :
      h.messages ++ h.danglingResults ++ [message] =
        h.messages ++ (h.danglingResults.map (Marked.mk false) ++
          [Marked.mk true message]).map Marked.message := by
    rw [marked_messages, append_assoc]
  cases item with
  | message message =>
    cases message with
    | tool content => rfl
    | assistant content id =>
      cases content with
      | string text => exact hflushed _
      | array parts =>
        calc (h.extendItem (.message (.assistant (.array parts) id))).messages
            = (parts.foldl extendPart h.flushDanglingToolResults).messages ++
                [.assistant (.array parts) id] := rfl
          _ = h.messages ++ h.danglingResults ++ [.assistant (.array parts) id] := by
              rw [foldl_extendPart_messages, flush_messages]
          _ = _ := hflushed _
    | system text | developer text | user text => exact hflushed _
  | toolRequested call =>
    rw [marks, extendItem, extendEvent]
    split_ifs
    · exact (append_nil _).symm
    · rfl
  | toolResult toolCallId result =>
    rw [marks, extendItem, extendEvent]
    split_ifs
    · cases hname : h.toolCallNames.lookup toolCallId with
      | none => exact (append_nil _).symm
      | some toolName => rfl
    · exact (append_nil _).symm

theorem markedItems_messages (items : List HistoryItem) :
    (histories.exec h items).flushDanglingToolResults.messages =
      h.messages ++ (h.markedItems items).map Marked.message := by
  induction items generalizing h with
  | nil =>
    rw [markedItems, map_map]
    simp [flush_messages, Function.comp_def]
  | cons item items ih =>
    rw [markedItems, map_append, ← append_assoc, ← extendItem_messages]
    exact ih (h.extendItem item)

end

end History

/-- The marks are those of the messages of `extend_message_history` from empty. -/
theorem extendMessageHistory_messages (events : List EventData) :
    (extendMessageHistory [] [] events).messages =
      (History.markedItems {} (historyItems events)).map History.Marked.message := by
  rw [extendMessageHistory, History.extend_eq_exec, History.markedItems_messages]
  rfl

inductive HistoryToken where
  | boundary
  | call (toolCallId : ToolCallId) (toolName : String)
  | result (result : ToolResultPart)
  deriving DecidableEq

def AssistantContentPart.token? : AssistantContentPart → Option HistoryToken
  | .toolCall toolCallId toolName _ => some (.call toolCallId toolName)
  | .toolResult result => some (.result result)
  | .other _ => none

def Message.tokens : Message → List HistoryToken
  | .assistant (.array parts) _ => parts.filterMap AssistantContentPart.token?
  | .tool content => content.map .result
  | _ => []

def Message.isTool : Message → Bool
  | .tool _ => true
  | _ => false

def History.Marked.tokens (marked : History.Marked) : List HistoryToken :=
  (if marked.taken && !marked.message.isTool then [.boundary] else []) ++ marked.message.tokens

namespace History

section
variable (h : History)

/-- The tokens that an item adds. -/
def itemTokens (item : HistoryItem) : List HistoryToken :=
  (h.marks item).flatMap Marked.tokens

/-- The results that a flush adds. -/
def flushTokens : List HistoryToken :=
  h.danglingResults.flatMap Message.tokens

/-- The tokens that items add before the last flush. -/
def runTokens (h : History) : List HistoryItem → List HistoryToken
  | [] => []
  | item :: items => h.itemTokens item ++ runTokens (h.extendItem item) items

/-- The tokens that items add. -/
def tokens (items : List HistoryItem) : List HistoryToken :=
  (h.markedItems items).flatMap Marked.tokens

theorem flatMap_unmarked (messages : List Message) :
    (messages.map (Marked.mk false)).flatMap Marked.tokens = messages.flatMap Message.tokens := by
  rw [flatMap_map]
  rfl

theorem tokens_nil : h.tokens [] = h.flushTokens := flatMap_unmarked _

theorem tokens_cons (item : HistoryItem) (items : List HistoryItem) :
    h.tokens (item :: items) = h.itemTokens item ++ (h.extendItem item).tokens items :=
  flatMap_append

theorem tokens_append (first second : List HistoryItem) :
    h.tokens (first ++ second) = h.runTokens first ++ (histories.exec h first).tokens second := by
  induction first generalizing h with
  | nil => rfl
  | cons item items ih =>
    rw [cons_append, tokens_cons, ih, runTokens, append_assoc]
    rfl

end

end History

end Exo.BasicExecutor
