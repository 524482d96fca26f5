import Exo.BasicExecutor.AnsweredLogs

/-!
# Histories that answer exactly

If the tool messages of a log only answer pending calls, the history of the log answers its calls
exactly if and only if the items of the log are separated.
-/

namespace Exo.BasicExecutor

open Library HistoryToken AssistantContentPart List

/-- Every call has exactly one result up to the next boundary, with its name; every result has a
call before it; and a result event for an unanswered call gives the result that comes next. -/
structure AnsweredExactly (items : List HistoryItem) : Prop where
  answered : ∀ before toolCallId toolName after,
    History.tokens {} items = before ++ .call toolCallId toolName :: after →
      ∃ output, resultsFor toolCallId after = [.result ⟨toolCallId, toolName, output⟩]
  called : ∀ before part after, History.tokens {} items = before ++ .result part :: after →
    ∃ toolName, .call part.toolCallId toolName ∈ before
  heard : ∀ first toolCallId output rest toolName,
    items = first ++ .toolResult toolCallId output :: rest →
      Unanswered toolCallId toolName (History.runTokens {} first) →
        ∃ after, History.tokens {} items =
          History.runTokens {} first ++ .result ⟨toolCallId, toolName, output⟩ :: after

namespace History

variable {h : History} {items : List HistoryItem} {toolCallId : ToolCallId} {toolName : String}

variable {part : ToolResultPart} {pre post : List HistoryToken} {item : HistoryItem}

theorem answersPending_subset {pending : List ToolCallId} {content : List ToolResultPart}
    (hanswers : AnswersPending pending content) (hpart : part ∈ content) :
    part.toolCallId ∈ pending := by
  induction content generalizing pending with
  | nil => cases hpart
  | cons head content ih =>
    rcases mem_cons.mp hpart with rfl | hrest
    · exact hanswers.1
    · exact mem_of_mem_erase (ih hanswers.2 hrest)

/-- A split of what such a message adds, at a call or a result of its parts, is a split of the
parts. -/
theorem split_message {message : Message} (hclosing : message.isTool = false) {token : HistoryToken}
    (hsplit : h.itemTokens (.message message) = pre ++ token :: post) :
    token ∈ h.flushTokens ∨ token = .boundary ∨
      ∃ start, AssistantContentPart.tokens message.parts = start ++ token :: post := by
  rw [itemTokens_message h hclosing] at hsplit
  rcases append_eq_append_iff.mp hsplit with ⟨middle, -, hrest⟩ | ⟨middle, hflush, hrest⟩
  · cases middle with
    | nil => exact .inr (.inl (cons.inj hrest).1.symm)
    | cons head middle => exact .inr (.inr ⟨middle, (cons.inj hrest).2⟩)
  · cases middle with
    | nil => exact .inr (.inl (cons.inj hrest).1)
    | cons head middle =>
      obtain ⟨rfl, -⟩ := cons.inj hrest
      exact .inl (by simp [hflush])

/-- After a call, a separated item adds no result for it and no boundary. -/
theorem quiet_of_item (hseparated : h.Separated item)
    (hsplit : h.itemTokens item = pre ++ .call toolCallId toolName :: post) :
    HistoryToken.Quiet toolCallId post := by
  have hmem : .call toolCallId toolName ∈ h.itemTokens item := by
    rw [hsplit]
    simp
  cases item with
  | message message =>
    rcases isTool_eq_false_or message with hclosing | ⟨content, rfl⟩
    · rcases split_message hclosing hsplit with hflush | heq | ⟨start, hparts⟩
      · obtain ⟨_, heq, -⟩ := mem_flushTokens hflush
        cases heq
      · cases heq
      · exact quiet_of_separated ((separated_message hclosing).mp hseparated) hparts
    · simp at hmem
  | toolRequested call =>
    rw [itemTokens_toolRequested] at hsplit
    split_ifs at hsplit
    · exact absurd hsplit.symm (by simp)
    · cases pre with
      | nil =>
        obtain ⟨-, rfl⟩ := cons.inj hsplit
        exact ⟨not_mem_nil, by simp⟩
      | cons head pre => exact absurd (cons.inj hsplit).2.symm (by simp)
  | toolResult otherId output =>
    rw [itemTokens_toolResult] at hmem
    split_ifs at hmem
    · cases hname : h.toolCallNames.lookup otherId <;> simp [hname] at hmem
    · cases hmem

/-- A result that such an item adds is for a call that is known. -/
theorem known_of_result (hnamed : h.Named) (hanswering : h.Answering item)
    (hseparated : h.Separated item) (hmem : .result part ∈ h.itemTokens item) :
    (h.toolCallNames.lookup part.toolCallId).isSome := by
  have hpending (hpart : part.toolCallId ∈ h.pending) :
      (h.toolCallNames.lookup part.toolCallId).isSome :=
    Option.isSome_iff_exists.mpr (hnamed _ hpart)
  cases item with
  | message message =>
    rcases isTool_eq_false_or message with hclosing | ⟨content, rfl⟩
    · rw [itemTokens_message h hclosing] at hmem
      rcases mem_append.mp hmem with hflush | hrest
      · obtain ⟨other, heq, hother⟩ := mem_flushTokens hflush
        obtain rfl := HistoryToken.result.inj heq
        exact hpending hother
      · have hparts := (mem_cons.mp hrest).resolve_left (by simp)
        exact (separated_results ((separated_message hclosing).mp hseparated)
          (result_mem_tokens.mp hparts)).2
    · rw [itemTokens_tool] at hmem
      obtain ⟨other, hother, heq⟩ := mem_map.mp hmem
      obtain rfl := HistoryToken.result.inj heq
      exact hpending (answersPending_subset hanswering hother)
  | toolRequested call =>
    rw [itemTokens_toolRequested] at hmem
    split_ifs at hmem <;> simp at hmem
  | toolResult otherId output =>
    rw [itemTokens_toolResult] at hmem
    split_ifs at hmem with hother
    · cases hname : h.toolCallNames.lookup otherId with
      | none => simp [hname] at hmem
      | some name =>
        simp only [hname, Option.map_some, Option.toList_some, mem_singleton] at hmem
        obtain rfl := HistoryToken.result.inj hmem
        exact hpending hother
    · cases hmem

theorem answeredExactly_of_separated (hanswering : histories.Throughout Answering {} items)
    (hseparated : histories.Throughout Separated {} items) : AnsweredExactly items := by
  constructor
  · intro before id name after hsplit
    rcases added_of_tokens hsplit with ⟨first, item, rest, pre, post, rfl, hitem, -, rfl⟩ |
      ⟨pre, hflush, -⟩
    · have hsep := (histories.throughout_append _ _ _ _).mp hseparated
      have hans := (histories.throughout_append _ _ _ _).mp hanswering
      have hquiet := quiet_of_item hsep.2.1 hitem
      have htold := told_item (told_runTokens hsep.1) hsep.2.1
      -- The call is pending once after the item.
      have hopen : Unanswered id name (runTokens {} first ++
          (histories.exec {} first).itemTokens item) :=
        ⟨runTokens {} first ++ pre, post, by rw [hitem, append_assoc], hquiet⟩
      have hpending := (htold.unanswered id name).mp hopen
      have hresults := resultsFor_tokens hpending.2 hans.2.2 hsep.2.2
      rw [count_eq_one_of_mem htold.nodup hpending.1] at hresults
      obtain ⟨token, htoken⟩ := length_eq_one_iff.mp hresults.1
      obtain ⟨output, rfl⟩ := hresults.2 token (htoken ▸ mem_singleton_self token)
      refine ⟨output, ?_⟩
      rw [resultsFor_append _ _ hquiet.1, filter_answers_of_quiet hquiet]
      exact htoken
    · have hmem : .call id name ∈ (histories.exec {} items).flushTokens := by
        rw [hflush]
        simp
      obtain ⟨_, heq, -⟩ := mem_flushTokens hmem
      cases heq
  · intro before part after hsplit
    rcases added_of_tokens hsplit with ⟨first, item, rest, pre, post, rfl, hitem, rfl, -⟩ |
      ⟨pre, hflush, rfl⟩
    · have hsep := (histories.throughout_append _ _ _ _).mp hseparated
      have hans := (histories.throughout_append _ _ _ _).mp hanswering
      have htold := told_runTokens hsep.1
      have hmem : .result part ∈ (histories.exec {} first).itemTokens item := by
        rw [hitem]
        simp
      have hknown := known_of_result htold.named hans.2.1 hsep.2.1 hmem
      obtain ⟨name, hcall⟩ := (htold.known _).mp hknown
      exact ⟨name, mem_append_left _ hcall⟩
    · have htold := told_runTokens hseparated
      have hmem : .result part ∈ (histories.exec {} items).flushTokens := by
        rw [hflush]
        simp
      obtain ⟨other, heq, hother⟩ := mem_flushTokens hmem
      obtain rfl := HistoryToken.result.inj heq
      obtain ⟨name, hcall⟩ := (htold.known _).mp
        (Option.isSome_iff_exists.mpr (htold.named _ hother))
      exact ⟨name, mem_append_left _ hcall⟩
  · rintro first id output rest name rfl hunanswered
    have hsep := (histories.throughout_append _ _ _ _).mp hseparated
    obtain ⟨hpending, hname⟩ := ((told_runTokens hsep.1).unanswered id name).mp hunanswered
    have hitem : (histories.exec {} first).itemTokens (.toolResult id output) =
        [.result ⟨id, name, output⟩] := by
      rw [itemTokens_toolResult, if_pos hpending, hname]
      rfl
    refine ⟨((histories.exec {} first).extendItem (.toolResult id output)).tokens rest, ?_⟩
    rw [tokens_append, tokens_cons, hitem]
    rfl

/-- What an item of a history that answers exactly adds is separated. -/
theorem separated_of_answered {first rest : List HistoryItem}
    (hexact : AnsweredExactly (first ++ item :: rest))
    (hanswering : (histories.exec {} first).Answering item)
    (hseparated : histories.Throughout Separated {} first) :
    (histories.exec {} first).Separated item := by
  have htold := told_runTokens hseparated
  cases item with
  | toolRequested | toolResult => trivial
  | message message =>
    rcases isTool_eq_false_or message with hclosing | ⟨content, rfl⟩
    · rw [separated_message hclosing]
      have hitem := itemTokens_message (histories.exec {} first) hclosing
      have hnext := extendMessage_pending (histories.exec {} first) hclosing
      -- The one result of a call comes later than the message.
      have honce (start : List HistoryToken) (id : ToolCallId) (name : String)
          (after : List HistoryToken)
          (hsplit : AssistantContentPart.tokens message.parts = start ++ .call id name :: after) :
          HistoryToken.Quiet id after ∧ ((calls message.parts).map Prod.fst).count id ≤ 1 := by
        have hboundary : .boundary ∉ after := by
          intro hmem
          have hparts : .boundary ∈ AssistantContentPart.tokens message.parts := by
            rw [hsplit]
            simp [hmem]
          exact boundary_notMem_tokens hparts
        have hpre : (histories.exec {} first).itemTokens (.message message) =
            ((histories.exec {} first).flushTokens ++ .boundary :: start) ++
              .call id name :: after := by
          rw [hitem, hsplit]
          simp
        obtain ⟨output, hone⟩ := hexact.answered _ id name _ (tokens_of_item hpre)
        have hlength := congrArg length hone
        have hcount : count id _ ≤ _ :=
          count_le_resultsFor (named_extendItem htold.named (.message message)) rest
        rw [hnext] at hcount
        rw [resultsFor_append _ _ hboundary, length_append, length_singleton] at hlength
        have hpos : 0 < ((calls message.parts).map Prod.fst).count id := by
          apply count_pos_iff.mpr
          have hcall : (id, name) ∈ calls message.parts :=
            call_mem_tokens.mp (by rw [hsplit]; simp)
          exact mem_map.mpr ⟨_, hcall, rfl⟩
        refine ⟨⟨hboundary, ?_⟩, by omega⟩
        intro part hpart heq
        have hnone : (after.filter (answers id)).length = 0 := by omega
        have hmem : .result part ∈ after.filter (answers id) :=
          mem_filter.mpr ⟨hpart, decide_eq_true heq⟩
        rw [length_eq_zero_iff.mp hnone] at hmem
        cases hmem
      apply separated_of
      · apply nodup_iff_count_le_one.mpr
        intro id
        by_cases hmem : id ∈ (calls message.parts).map Prod.fst
        · obtain ⟨⟨_, name⟩, hcall, rfl⟩ := mem_map.mp hmem
          obtain ⟨start, after, hsplit⟩ := append_of_mem (call_mem_tokens.mpr hcall)
          exact (honce start _ name after hsplit).2
        · rw [count_eq_zero.mpr hmem]
          exact Nat.zero_le _
      · exact fun _ _ ↦ not_mem_nil
      · intro part hpart
        refine ⟨not_mem_nil, ?_⟩
        obtain ⟨start, after, hsplit⟩ := append_of_mem (result_mem_tokens.mpr hpart)
        have hpre : (histories.exec {} first).itemTokens (.message message) =
            ((histories.exec {} first).flushTokens ++ .boundary :: start) ++
              .result part :: after := by
          rw [hitem, hsplit]
          simp
        obtain ⟨name, hcall⟩ := hexact.called _ part _ (tokens_of_item hpre)
        rcases mem_append.mp hcall with hbefore | hmessage
        · exact (htold.known _).mpr ⟨name, hbefore⟩
        · rcases mem_append.mp hmessage with hflush | hstart
          · obtain ⟨_, heq, -⟩ := mem_flushTokens hflush
            cases heq
          · have hparts := (mem_cons.mp hstart).resolve_left (by simp)
            obtain ⟨before, middle, rfl⟩ := append_of_mem hparts
            have hquiet := (honce before part.toolCallId name (middle ++ .result part :: after)
              (by rw [hsplit]; simp)).1
            exact absurd rfl (hquiet.2 part (by simp))
      · intro start id name after hsplit
        exact (honce start id name after hsplit).1
    · intro part hpart
      have hpending := answersPending_subset hanswering hpart
      obtain ⟨name, hname⟩ := htold.named _ hpending
      obtain ⟨before, after, hrun, hquiet⟩ := (htold.unanswered _ name).mpr ⟨hpending, hname⟩
      have hsplit : History.tokens {} (first ++ .message (.tool content) :: rest) =
          before ++ .call part.toolCallId name :: (after ++ (content.map .result ++
            ((histories.exec {} first).extendItem (.message (.tool content))).tokens rest)) := by
        rw [tokens_append, tokens_cons, itemTokens_tool, hrun]
        simp only [append_assoc, cons_append]
      obtain ⟨output, hone⟩ := hexact.answered _ _ name _ hsplit
      have hcontent : .boundary ∉ content.map HistoryToken.result := by simp
      have hmem : .result part ∈ (content.map HistoryToken.result).filter
          (answers part.toolCallId) :=
        mem_filter.mpr ⟨mem_map.mpr ⟨part, hpart, rfl⟩, decide_eq_true rfl⟩
      rw [resultsFor_append _ _ hquiet.1, resultsFor_append _ _ hcontent] at hone
      have hpart := hone ▸ mem_append_right _ (mem_append_left _ hmem)
      have heq := HistoryToken.result.inj (mem_singleton.mp hpart)
      rw [hname, heq]

theorem throughout_separated (hanswering : histories.Throughout Answering {} items)
    (hexact : AnsweredExactly items) : histories.Throughout Separated {} items := by
  have hprefix (first : List HistoryItem) : ∀ rest, items = first ++ rest →
      histories.Throughout Separated {} first := by
    induction first using reverseRecOn with
    | nil => exact fun _ _ ↦ trivial
    | append_singleton first item ih =>
      intro rest hitems
      have hsplit : items = first ++ item :: rest := by simpa using hitems
      have hfirst := ih (item :: rest) hsplit
      rw [hsplit] at hanswering hexact
      have hans := (histories.throughout_append _ _ _ _).mp hanswering
      exact (histories.throughout_append _ _ _ _).mpr
        ⟨hfirst, separated_of_answered hexact hans.2.1 hfirst, trivial⟩
  exact hprefix items [] (append_nil _).symm

end History

/-- The messages of the history of a log, and when they answer its calls exactly. -/
theorem history_answered_iff (events : List EventData)
    (hanswering : histories.Throughout History.Answering {} (historyItems events)) :
    (extendMessageHistory [] [] events).messages =
        (History.markedItems {} (historyItems events)).map History.Marked.message ∧
      (AnsweredExactly (historyItems events) ↔
        histories.Throughout History.Separated {} (historyItems events)) :=
  ⟨extendMessageHistory_messages events, History.throughout_separated hanswering,
    History.answeredExactly_of_separated hanswering⟩

/-- An embedded call that is requested again, a standalone one, and one that a tool message
answers. -/
def embeddedLog : List EventData :=
  [.messages [.user "find it"],
    .messages [.assistant (.array [.other "looking", .toolCall "a" "search" (.valid "{}"),
      .toolCall "b" "read" (.valid "{}")]) none],
    .toolRequested ⟨"a", ⟨"search", "{}", none⟩⟩,
    .toolRequested ⟨"c", ⟨"shell", "{}", none⟩⟩,
    .toolResult "a" (.json "[1]"),
    .toolResult "a" (.json "[2]"),
    .messages [.tool [⟨"b", "read", .json "text"⟩], .user "and now?"],
    .toolResult "c" (.json "late")]

theorem history_answered_iff_embeddedLog : (extendMessageHistory [] [] embeddedLog).messages =
        (History.markedItems {} (historyItems embeddedLog)).map History.Marked.message ∧
      AnsweredExactly (historyItems embeddedLog) :=
  have hanswered := history_answered_iff embeddedLog (by decide)
  ⟨hanswered.1, hanswered.2.mpr (by decide)⟩

/-- An assistant message with a call and the result that the provider has for it. -/
def providerLog : List EventData :=
  [.messages [.assistant (.array [.toolCall "a" "web_search" (.valid "{}"),
    .toolResult ⟨"a", "web_search", .json "[]"⟩]) none]]

/-- The call gets a second result. -/
theorem not_answeredExactly_providerLog :
    histories.Throughout History.Answering {} (historyItems providerLog) ∧
      ¬AnsweredExactly (historyItems providerLog) := by
  refine ⟨by decide, ?_⟩
  intro hexact
  obtain ⟨output, hone⟩ := hexact.answered [.boundary] "a" "web_search"
    [.result ⟨"a", "web_search", .json "[]"⟩, .result ⟨"a", "web_search",
      .failure "tool execution did not complete before the previous turn ended"⟩] rfl
  have htwo := congrArg length hone
  cases htwo

end Exo.BasicExecutor
