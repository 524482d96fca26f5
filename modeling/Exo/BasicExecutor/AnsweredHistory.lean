import Exo.BasicExecutor.AnsweredCalls

/-!
# Histories that answer their calls

Along the items of a history the calls that are pending are the unanswered ones.  How many results a
call gets up to the next boundary is at least how often it is pending, and exactly that often if
tool messages answer pending calls and the items are separated.
-/

namespace Exo.BasicExecutor

open Library HistoryToken AssistantContentPart List Option

/-- Every result answers a call that is still pending. -/
def AnswersPending : List ToolCallId → List ToolResultPart → Prop
  | _, [] => True
  | pending, part :: content =>
    part.toolCallId ∈ pending ∧
      AnswersPending (History.removePendingToolCall pending part.toolCallId) content

instance decidableAnswersPending : ∀ pending content, Decidable (AnswersPending pending content)
  | _, [] => isTrue trivial
  | pending, part :: content =>
    @instDecidableAnd _ _ _ (decidableAnswersPending
      (History.removePendingToolCall pending part.toolCallId) content)

/-- The parts that can have calls. -/
def Message.parts : Message → List AssistantContentPart
  | .assistant (.array parts) _ => parts
  | _ => []

namespace History

/-- A tool message only answers calls that are pending. -/
def Answering (h : History) : HistoryItem → Prop
  | .message (.tool content) => AnswersPending h.pending content
  | _ => True

/-- The results of a tool message have the names of the calls; the parts of another message are
separated. -/
def Separated (h : History) : HistoryItem → Prop
  | .message (.tool content) =>
    ∀ result ∈ content, h.toolCallNames.lookup result.toolCallId = some result.toolName
  | .message message => AssistantContentPart.Separated h.toolCallNames [] message.parts
  | _ => True

instance (h : History) : ∀ item, Decidable (h.Answering item)
  | .message (.tool content) => decidableAnswersPending h.pending content
  | .message (.system _) | .message (.developer _) | .message (.user _)
  | .message (.assistant _ _) | .toolRequested _ | .toolResult _ _ => isTrue trivial

instance (h : History) : ∀ item, Decidable (h.Separated item)
  | .message (.tool _) => List.decidableBAll _ _
  | .message (.system _) | .message (.developer _) | .message (.user _)
  | .message (.assistant _ _) => decidableSeparated h.toolCallNames [] _
  | .toolRequested _ | .toolResult _ _ => isTrue trivial

/-- Every pending call has a name. -/
def Named (h : History) : Prop :=
  ∀ toolCallId ∈ h.pending, ∃ toolName, h.toolCallNames.lookup toolCallId = some toolName

/-- The pending calls that a tool message leaves. -/
def removeAll (pending : List ToolCallId) (content : List ToolResultPart) : List ToolCallId :=
  content.foldl (fun pending result ↦ removePendingToolCall pending result.toolCallId) pending

variable {h : History} {toolCallId : ToolCallId} {toolName : String}

theorem isTool_eq_false_or (message : Message) :
    message.isTool = false ∨ ∃ content, message = .tool content := by
  cases message with
  | tool content => exact .inr ⟨content, rfl⟩
  | _ => exact .inl rfl

theorem foldl_extendPart (h : History) (parts : List AssistantContentPart) :
    parts.foldl extendPart h =
      { h with
        toolCallNames := (calls parts).reverse ++ h.toolCallNames
        pending := h.pending ++ (calls parts).map Prod.fst } := by
  induction parts generalizing h with
  | nil => simp [calls]
  | cons part parts ih =>
    rw [foldl_cons, ih]
    cases part <;> simp [calls, call?, extendPart, filterMap_cons]

variable {message : Message} {item : HistoryItem}

section
variable (h : History) (hclosing : message.isTool = false)
include hclosing

theorem extendMessage_toolCallNames : (h.extendItem (.message message)).toolCallNames =
      (calls message.parts).reverse ++ h.toolCallNames := by
  cases message with
  | tool content => cases hclosing
  | assistant content id =>
    cases content with
    | string text => rfl
    | array parts =>
      exact congrArg toolCallNames (foldl_extendPart h.flushDanglingToolResults parts)
  | system | developer | user => rfl

theorem extendMessage_pending :
    (h.extendItem (.message message)).pending = (calls message.parts).map Prod.fst := by
  cases message with
  | tool content => cases hclosing
  | assistant content id =>
    cases content with
    | string text => rfl
    | array parts =>
      have hpending := congrArg pending (foldl_extendPart h.flushDanglingToolResults parts)
      exact hpending.trans (nil_append _)
  | system | developer | user => rfl

theorem itemTokens_message : h.itemTokens (.message message) =
      h.flushTokens ++ .boundary :: AssistantContentPart.tokens message.parts := by
  have htokens : message.tokens = AssistantContentPart.tokens message.parts := by
    cases message with
    | tool content => cases hclosing
    | assistant content id => cases content <;> rfl
    | system | developer | user => rfl
  have hmarks : h.marks (.message message) =
      h.danglingResults.map (Marked.mk false) ++ [⟨true, message⟩] := by
    cases message with
    | tool content => cases hclosing
    | _ => rfl
  have hmessage : Marked.tokens ⟨true, message⟩ = .boundary :: message.tokens := by
    unfold Marked.tokens
    rw [hclosing]
    rfl
  rw [itemTokens, hmarks, flatMap_append, flatMap_unmarked, flatMap_singleton, hmessage,
    htokens, flushTokens]

end

theorem separated_message (hclosing : message.isTool = false) : h.Separated (.message message) ↔
      AssistantContentPart.Separated h.toolCallNames [] message.parts := by
  cases message with
  | tool content => cases hclosing
  | _ => exact Iff.rfl

@[simp]
theorem itemTokens_tool (content : List ToolResultPart) :
    h.itemTokens (.message (.tool content)) = content.map .result := by
  simp [itemTokens, marks, Marked.tokens, Message.isTool, Message.tokens]

theorem itemTokens_toolRequested (h : History) (call : ExecutableToolRequest) :
    h.itemTokens (.toolRequested call) =
      if (h.toolCallNames.lookup call.toolCallId).isSome then []
      else [.call call.toolCallId call.request.functionName] := by
  rw [itemTokens, marks]
  split_ifs <;> rfl

theorem itemTokens_toolResult (h : History) (toolCallId : ToolCallId) (result : Value) :
    h.itemTokens (.toolResult toolCallId result) =
      if toolCallId ∈ h.pending then
        ((h.toolCallNames.lookup toolCallId).map fun toolName ↦
          HistoryToken.result ⟨toolCallId, toolName, result⟩).toList
      else [] := by
  rw [itemTokens, marks]
  split_ifs
  · cases h.toolCallNames.lookup toolCallId <;> rfl
  · rfl

/-- A flush answers a call as often as it is pending. -/
theorem filter_flushTokens (hname : h.toolCallNames.lookup toolCallId = some toolName) :
    h.flushTokens.filter (answers toolCallId) =
      List.replicate (h.pending.count toolCallId) (.result ⟨toolCallId, toolName,
        .failure "tool execution did not complete before the previous turn ended"⟩) := by
  unfold flushTokens danglingResults
  induction h.pending with
  | nil => rfl
  | cons pending rest ih =>
    by_cases heq : pending = toolCallId
    · subst heq
      simp [hname, ih, danglingResult, Message.tokens, answers, replicate_succ]
    · cases hother : h.toolCallNames.lookup pending with
      | none => simpa [hother, heq] using ih
      | some otherName => simpa [hother, heq, danglingResult, Message.tokens, answers] using ih

theorem mem_flushTokens {token : HistoryToken} (htoken : token ∈ h.flushTokens) :
    ∃ result, token = .result result ∧ result.toolCallId ∈ h.pending := by
  unfold flushTokens danglingResults at htoken
  obtain ⟨message, hmessage, htoken⟩ := mem_flatMap.mp htoken
  obtain ⟨pending, hpending, heq⟩ := mem_filterMap.mp hmessage
  obtain ⟨name, -, rfl⟩ := map_eq_some_iff.mp heq
  obtain rfl := mem_singleton.mp htoken
  exact ⟨_, rfl, hpending⟩

theorem boundary_notMem_flushTokens : .boundary ∉ h.flushTokens := by
  intro hmem
  obtain ⟨_, heq, -⟩ := mem_flushTokens hmem
  cases heq

theorem resultsFor_tokens_nil :
    resultsFor toolCallId (h.tokens []) = h.flushTokens.filter (answers toolCallId) := by
  rw [tokens_nil]
  exact resultsFor_eq_filter boundary_notMem_flushTokens

theorem resultsFor_tokens_message (hclosing : message.isTool = false) (items : List HistoryItem) :
    resultsFor toolCallId (h.tokens (.message message :: items)) =
      h.flushTokens.filter (answers toolCallId) := by
  rw [tokens_cons, itemTokens_message h hclosing, append_assoc]
  exact resultsFor_boundary _ _ boundary_notMem_flushTokens

/-- An item that is no such message. -/
def Quiet : HistoryItem → Prop
  | .message message => message.isTool = true
  | _ => True

theorem boundary_notMem_itemTokens (hquiet : Quiet item) : .boundary ∉ h.itemTokens item := by
  cases item with
  | message message =>
    rcases isTool_eq_false_or message with hclosing | ⟨content, rfl⟩
    · cases hclosing.symm.trans hquiet
    · simp
  | toolRequested call =>
    rw [itemTokens_toolRequested]
    split_ifs <;> simp
  | toolResult toolCallId result =>
    rw [itemTokens_toolResult]
    split_ifs
    · cases h.toolCallNames.lookup toolCallId <;> simp
    · simp

theorem resultsFor_tokens_quiet (hquiet : Quiet item) (items : List HistoryItem) :
    resultsFor toolCallId (h.tokens (item :: items)) =
      (h.itemTokens item).filter (answers toolCallId) ++
        resultsFor toolCallId ((h.extendItem item).tokens items) := by
  rw [tokens_cons]
  exact resultsFor_append _ _ (boundary_notMem_itemTokens hquiet)

theorem message_or_quiet (item : HistoryItem) :
    (∃ message : Message, item = .message message ∧ message.isTool = false) ∨ Quiet item := by
  cases item with
  | message message =>
    rcases isTool_eq_false_or message with hclosing | ⟨content, rfl⟩
    · exact .inl ⟨message, rfl, hclosing⟩
    · exact .inr rfl
  | toolRequested | toolResult => exact .inr trivial

section
variable (pending : List ToolCallId)

theorem count_removePendingToolCall (otherId : ToolCallId) :
    (removePendingToolCall pending otherId).count toolCallId =
      pending.count toolCallId - if otherId = toolCallId then 1 else 0 := by
  unfold removePendingToolCall
  rw [count_erase]
  simp

theorem lookup_cons_of_ne {names : List (ToolCallId × String)} {otherId : ToolCallId}
    {otherName : String} (hne : toolCallId ≠ otherId) :
    ((otherId, otherName) :: names).lookup toolCallId = names.lookup toolCallId := by
  rw [lookup_cons, beq_eq_false_iff_ne.mpr hne]

theorem count_removeAll_le (content : List ToolResultPart) : pending.count toolCallId ≤
      ((content.map .result).filter (answers toolCallId)).length +
        (removeAll pending content).count toolCallId := by
  induction content generalizing pending with
  | nil => exact Nat.le_add_left _ _
  | cons part content ih =>
    have hrest := ih (removePendingToolCall pending part.toolCallId)
    rw [count_removePendingToolCall] at hrest
    rw [map_cons, filter_cons, removeAll, foldl_cons, ← removeAll]
    by_cases heq : part.toolCallId = toolCallId
    · rw [if_pos (by simpa [answers] using heq), length_cons]
      rw [if_pos heq] at hrest
      omega
    · rw [if_neg (by simpa [answers] using heq)]
      rwa [if_neg heq, Nat.sub_zero] at hrest

theorem count_removeAll {pending : List ToolCallId} {content : List ToolResultPart}
    (hanswers : AnswersPending pending content) :
    ((content.map .result).filter (answers toolCallId)).length +
      (removeAll pending content).count toolCallId = pending.count toolCallId := by
  induction content generalizing pending with
  | nil => exact Nat.zero_add _
  | cons part content ih =>
    have hrest := ih hanswers.2
    rw [count_removePendingToolCall] at hrest
    rw [map_cons, filter_cons, removeAll, foldl_cons, ← removeAll]
    by_cases heq : part.toolCallId = toolCallId
    · have hpos := count_pos_iff.mpr (heq ▸ hanswers.1)
      rw [if_pos (by simpa [answers] using heq), length_cons]
      rw [if_pos heq] at hrest
      omega
    · rw [if_neg (by simpa [answers] using heq)]
      rwa [if_neg heq, Nat.sub_zero] at hrest

theorem removeAll_subset (content : List ToolResultPart) : removeAll pending content ⊆ pending := by
  induction content generalizing pending with
  | nil => exact List.Subset.refl _
  | cons part content ih => exact List.Subset.trans (ih _) erase_subset

end

theorem named_extendItem (hnamed : h.Named) (item : HistoryItem) : (h.extendItem item).Named := by
  rcases message_or_quiet item with ⟨message, rfl, hclosing⟩ | hquiet
  · intro id hid
    rw [extendMessage_pending h hclosing] at hid
    rw [extendMessage_toolCallNames h hclosing, ← isSome_iff_exists, lookup_isSome_iff]
    obtain ⟨call, hcall, rfl⟩ := mem_map.mp hid
    exact ⟨call, mem_append_left _ (mem_reverse.mpr hcall), beq_self_eq_true _⟩
  · cases item with
    | message message =>
      rcases isTool_eq_false_or message with hclosing | ⟨content, rfl⟩
      · cases hclosing.symm.trans hquiet
      · exact fun id hid ↦ hnamed id (removeAll_subset _ _ hid)
    | toolRequested call =>
      rw [extendItem, extendEvent]
      split_ifs
      · exact hnamed
      · intro id hid
        by_cases heq : id = call.toolCallId
        · exact ⟨call.request.functionName, by simp [heq]⟩
        · have hold : id ∈ h.pending := by simpa [heq] using hid
          obtain ⟨name, hname⟩ := hnamed id hold
          exact ⟨name, (lookup_cons_of_ne heq).trans hname⟩
    | toolResult toolCallId result =>
      rw [extendItem, extendEvent]
      split_ifs
      · cases hname : h.toolCallNames.lookup toolCallId with
        | none => exact hnamed
        | some toolName => exact fun id hid ↦ hnamed id (erase_subset hid)
      · exact hnamed

theorem lookup_extendItem (hquiet : Quiet item)
    (hname : h.toolCallNames.lookup toolCallId = some toolName) :
    (h.extendItem item).toolCallNames.lookup toolCallId = some toolName := by
  cases item with
  | message message =>
    rcases isTool_eq_false_or message with hclosing | ⟨content, rfl⟩
    · cases hclosing.symm.trans hquiet
    · exact hname
  | toolRequested call =>
    rw [extendItem, extendEvent]
    split_ifs with hknown
    · exact hname
    · have hne : toolCallId ≠ call.toolCallId := by
        rintro rfl
        exact hknown (by rw [hname]; rfl)
      exact (lookup_cons_of_ne hne).trans hname
  | toolResult otherId result =>
    rw [extendItem, extendEvent]
    split_ifs
    · cases h.toolCallNames.lookup otherId <;> exact hname
    · exact hname

/-- A quiet item takes a pending call away only if it answers it. -/
theorem count_le_quiet (h : History) (toolCallId : ToolCallId) (hquiet : Quiet item) :
    h.pending.count toolCallId ≤ ((h.itemTokens item).filter (answers toolCallId)).length +
      (h.extendItem item).pending.count toolCallId := by
  cases item with
  | message message =>
    rcases isTool_eq_false_or message with hclosing | ⟨content, rfl⟩
    · cases hclosing.symm.trans hquiet
    · rw [itemTokens_tool]
      exact count_removeAll_le h.pending content
  | toolRequested call =>
    rw [extendItem, extendEvent]
    split_ifs
    · exact Nat.le_add_left _ _
    · simp only [count_append]
      omega
  | toolResult otherId result =>
    rw [itemTokens_toolResult, extendItem, extendEvent]
    split_ifs
    · cases hname : h.toolCallNames.lookup otherId with
      | none => exact Nat.le_add_left _ _
      | some name =>
        have hcount : (removePendingToolCall h.pending otherId).count toolCallId = _ :=
          count_removePendingToolCall h.pending otherId
        by_cases heq : otherId = toolCallId
        · rw [if_pos heq] at hcount
          simp only [map_some, toList_some, filter_cons, answers, heq,
            decide_true, if_true, filter_nil, length_singleton]
          rw [heq] at hcount
          omega
        · rw [if_neg heq, Nat.sub_zero] at hcount
          exact Nat.le_trans (Nat.le_of_eq hcount.symm) (Nat.le_add_left _ _)
    · exact Nat.le_add_left _ _

/-- Up to the next boundary a call gets a result for every time it is pending. -/
theorem count_le_resultsFor (hnamed : h.Named) (items : List HistoryItem) :
    h.pending.count toolCallId ≤ (resultsFor toolCallId (h.tokens items)).length := by
  have hflush {h : History} (hnamed : h.Named) :
      h.pending.count toolCallId ≤ (h.flushTokens.filter (answers toolCallId)).length := by
    by_cases hmem : toolCallId ∈ h.pending
    · obtain ⟨name, hname⟩ := hnamed toolCallId hmem
      rw [filter_flushTokens hname]
      exact Nat.le_of_eq length_replicate.symm
    · rw [count_eq_zero.mpr hmem]
      exact Nat.zero_le _
  induction items generalizing h with
  | nil =>
    rw [resultsFor_tokens_nil]
    exact hflush hnamed
  | cons item items ih =>
    rcases message_or_quiet item with ⟨message, rfl, hclosing⟩ | hquiet
    · rw [resultsFor_tokens_message hclosing]
      exact hflush hnamed
    · rw [resultsFor_tokens_quiet hquiet, length_append]
      have hstep := h.count_le_quiet toolCallId hquiet
      have hrest := ih (named_extendItem hnamed item)
      omega

/-- The results are for this call, with its name. -/
def NamedResults (toolCallId : ToolCallId) (toolName : String) (results : List HistoryToken) :
    Prop :=
  ∀ token ∈ results, ∃ output, token = .result ⟨toolCallId, toolName, output⟩

/-- A separated quiet item that answers pending calls takes a pending call away for every answer
to it. -/
theorem count_quiet (hquiet : Quiet item) (hanswering : h.Answering item)
    (hseparated : h.Separated item) (hname : h.toolCallNames.lookup toolCallId = some toolName) :
    ((h.itemTokens item).filter (answers toolCallId)).length +
        (h.extendItem item).pending.count toolCallId = h.pending.count toolCallId ∧
      NamedResults toolCallId toolName ((h.itemTokens item).filter (answers toolCallId)) := by
  cases item with
  | message message =>
    rcases isTool_eq_false_or message with hclosing | ⟨content, rfl⟩
    · cases hclosing.symm.trans hquiet
    · rw [itemTokens_tool]
      refine ⟨count_removeAll hanswering, ?_⟩
      intro token htoken
      obtain ⟨hmem, hanswers⟩ := mem_filter.mp htoken
      obtain ⟨part, hpart, rfl⟩ := mem_map.mp hmem
      have hid : part.toolCallId = toolCallId := of_decide_eq_true hanswers
      have hsame : some part.toolName = some toolName :=
        (hseparated part hpart).symm.trans (hid ▸ hname)
      refine ⟨part.output, ?_⟩
      rw [← hid, ← some.inj hsame]
  | toolRequested call =>
    rw [itemTokens_toolRequested, extendItem, extendEvent]
    split_ifs with hknown
    · exact ⟨Nat.zero_add _, forall_mem_nil _⟩
    · have hne : call.toolCallId ≠ toolCallId := by
        rintro rfl
        exact hknown (by rw [hname]; rfl)
      refine ⟨?_, forall_mem_nil _⟩
      simp [answers, count_append, hne]
  | toolResult otherId result =>
    rw [itemTokens_toolResult, extendItem, extendEvent]
    split_ifs with hpending
    · cases hother : h.toolCallNames.lookup otherId with
      | none => exact ⟨Nat.zero_add _, forall_mem_nil _⟩
      | some otherName =>
        by_cases heq : otherId = toolCallId
        · subst heq
          obtain rfl := some.inj (hother.symm.trans hname)
          have hpos := count_pos_iff.mpr hpending
          refine ⟨?_, ?_⟩
          · simp [removePendingToolCall, answers, count_erase_self]
            omega
          · intro token htoken
            exact ⟨result, by simpa [answers] using htoken⟩
        · refine ⟨?_, ?_⟩
          · simp [removePendingToolCall, answers, heq, count_erase_of_ne (Ne.symm heq)]
          · simp [NamedResults, answers, heq]
    · exact ⟨Nat.zero_add _, forall_mem_nil _⟩

/-- Up to the next boundary a known call gets exactly as many results as it is pending, under
its name. -/
theorem resultsFor_tokens (hname : h.toolCallNames.lookup toolCallId = some toolName)
    {items : List HistoryItem} (hanswering : histories.Throughout Answering h items)
    (hseparated : histories.Throughout Separated h items) :
    (resultsFor toolCallId (h.tokens items)).length = h.pending.count toolCallId ∧
      NamedResults toolCallId toolName (resultsFor toolCallId (h.tokens items)) := by
  have hflush {h : History} (hname : h.toolCallNames.lookup toolCallId = some toolName) :
      (h.flushTokens.filter (answers toolCallId)).length = h.pending.count toolCallId ∧
        NamedResults toolCallId toolName (h.flushTokens.filter (answers toolCallId)) := by
    rw [filter_flushTokens hname]
    exact ⟨length_replicate, fun token htoken ↦ ⟨_, eq_of_mem_replicate htoken⟩⟩
  induction items generalizing h with
  | nil =>
    rw [resultsFor_tokens_nil]
    exact hflush hname
  | cons item items ih =>
    rcases message_or_quiet item with ⟨message, rfl, hclosing⟩ | hquiet
    · rw [resultsFor_tokens_message hclosing]
      exact hflush hname
    · have hstep := count_quiet hquiet hanswering.1 hseparated.1 hname
      have hrest := ih (lookup_extendItem hquiet hname) hanswering.2 hseparated.2
      rw [resultsFor_tokens_quiet hquiet]
      refine ⟨?_, ?_⟩
      · rw [length_append]
        have hcount : _ = count toolCallId (h.extendItem item).pending := hrest.1
        omega
      · intro token htoken
        exact (mem_append.mp htoken).elim (hstep.2 token) (hrest.2 token)

end History

end Exo.BasicExecutor
