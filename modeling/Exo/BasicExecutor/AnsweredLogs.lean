import Exo.BasicExecutor.AnsweredHistory

/-!
# When a log is answered exactly

`extend_message_history` answers a call as often as its id is pending.  It counts the results of
tool messages and of result events, but not the results that a provider puts into the message of the
call itself: such a call stays pending and gets one more result.
-/

namespace Exo.BasicExecutor

open Library HistoryToken AssistantContentPart List

namespace History

variable {h : History} {toolCallId : ToolCallId} {toolName : String} {tokens : List HistoryToken}

/-- The tokens so far tell the state of the history. -/
structure Told (tokens : List HistoryToken) (h : History) : Prop where
  named : h.Named
  nodup : h.pending.Nodup
  unanswered : ∀ toolCallId toolName, Unanswered toolCallId toolName tokens ↔
    toolCallId ∈ h.pending ∧ h.toolCallNames.lookup toolCallId = some toolName
  known : ∀ toolCallId, (h.toolCallNames.lookup toolCallId).isSome ↔
    ∃ toolName, .call toolCallId toolName ∈ tokens

variable {names : List (ToolCallId × String)} {items : List HistoryItem}

theorem lookup_of_nodup {calls : List (ToolCallId × String)} (hnodup : (calls.map Prod.fst).Nodup)
    (hmem : (toolCallId, toolName) ∈ calls) :
    (calls ++ names).lookup toolCallId = some toolName := by
  induction calls with
  | nil => cases hmem
  | cons call calls ih =>
    have hcons := nodup_cons.mp hnodup
    rcases mem_cons.mp hmem with rfl | hrest
    · exact lookup_cons_self
    · have hne : toolCallId ≠ call.1 := by
        rintro rfl
        exact hcons.1 (mem_map.mpr ⟨_, hrest, rfl⟩)
      exact (lookup_cons_of_ne hne).trans (ih hcons.2 hrest)

variable {parts : List AssistantContentPart} {pending : List ToolCallId} {token : HistoryToken}

section
variable (hseparated : AssistantContentPart.Separated names [] parts)
include hseparated

/-- A call of separated parts is pending under its name. -/
theorem mem_calls_iff :
    (toolCallId, toolName) ∈ calls parts ↔ toolCallId ∈ (calls parts).map Prod.fst ∧
      ((calls parts).reverse ++ names).lookup toolCallId = some toolName := by
  have hnodup := (separated_calls hseparated).1
  have hreverse : ((calls parts).reverse.map Prod.fst).Nodup := by
    rw [map_reverse]
    exact nodup_reverse.mpr hnodup
  have hlookup {name : String} (hmem : (toolCallId, name) ∈ calls parts) :
      ((calls parts).reverse ++ names).lookup toolCallId = some name :=
    lookup_of_nodup hreverse (mem_reverse.mpr hmem)
  constructor
  · intro hmem
    exact ⟨mem_map.mpr ⟨_, hmem, rfl⟩, hlookup hmem⟩
  · intro hpending
    obtain ⟨call, hcall, rfl⟩ := mem_map.mp hpending.1
    have hname := Option.some.inj ((hlookup hcall).symm.trans hpending.2)
    rwa [← hname]

theorem unanswered_tokens_iff : Unanswered toolCallId toolName (AssistantContentPart.tokens parts) ↔
      (toolCallId, toolName) ∈ calls parts := by
  rw [← call_mem_tokens]
  constructor
  · intro hunanswered
    by_contra hnone
    exact not_unanswered hnone hunanswered
  · intro hmem
    obtain ⟨before, after, hsplit⟩ := append_of_mem hmem
    exact ⟨before, after, hsplit, quiet_of_separated hseparated hsplit⟩

end

section
variable (hnodup : pending.Nodup) (content : List ToolResultPart)
include hnodup

theorem mem_removeAll : toolCallId ∈ removeAll pending content ↔
      toolCallId ∈ pending ∧ ∀ part ∈ content, part.toolCallId ≠ toolCallId := by
  induction content generalizing pending with
  | nil => simp [removeAll]
  | cons part content ih =>
    calc toolCallId ∈ removeAll pending (part :: content)
        ↔ toolCallId ∈ removeAll (pending.erase part.toolCallId) content := Iff.rfl
      _ ↔ (toolCallId ≠ part.toolCallId ∧ toolCallId ∈ pending) ∧
            ∀ part ∈ content, part.toolCallId ≠ toolCallId := by
          rw [ih (hnodup.erase _), hnodup.mem_erase_iff]
      _ ↔ toolCallId ∈ pending ∧ ∀ other ∈ part :: content, other.toolCallId ≠ toolCallId := by
          rw [forall_mem_cons, ne_comm]
          tauto

theorem nodup_removeAll : (removeAll pending content).Nodup := by
  induction content generalizing pending with
  | nil => exact hnodup
  | cons part content ih => exact ih (hnodup.erase _)

end

section
variable (htold : Told tokens h)
include htold

theorem told_message {message : Message} (hclosing : message.isTool = false)
    (hseparated : h.Separated (.message message)) :
    Told (tokens ++ h.itemTokens (.message message)) (h.extendItem (.message message)) := by
  have hparts := (separated_message hclosing).mp hseparated
  have hnoCall (id : ToolCallId) (name : String) :
      .call id name ∉ h.flushTokens ++ [.boundary] := by
    intro hmem
    rcases mem_append.mp hmem with hflush | hboundary
    · obtain ⟨_, heq, -⟩ := mem_flushTokens hflush
      cases heq
    · cases mem_singleton.mp hboundary
  have hitem : h.itemTokens (.message message) =
      (h.flushTokens ++ [.boundary]) ++ AssistantContentPart.tokens message.parts := by
    rw [itemTokens_message h hclosing]
    simp
  constructor
  · exact named_extendItem htold.named _
  · rw [extendMessage_pending h hclosing]
    exact (separated_calls hparts).1
  · intro id name
    have hnotQuiet : ¬HistoryToken.Quiet id (h.itemTokens (.message message)) := by
      intro hquiet
      exact hquiet.1 (by simp [hitem])
    rw [unanswered_append, or_iff_left (fun hleft ↦ hnotQuiet hleft.2), hitem, unanswered_append,
      or_iff_left (fun hleft ↦ not_unanswered (hnoCall id name) hleft.1),
      unanswered_tokens_iff hparts, extendMessage_pending h hclosing,
      extendMessage_toolCallNames h hclosing, mem_calls_iff hparts]
  · intro id
    have hold := htold.known id
    have hcall (name : String) : .call id name ∈ tokens ++ h.itemTokens (.message message) ↔
        .call id name ∈ tokens ∨ (id, name) ∈ calls message.parts := by
      rw [hitem, mem_append, mem_append, or_iff_right (hnoCall id name), call_mem_tokens]
    simp only [hcall, exists_or, ← hold]
    rw [extendMessage_toolCallNames h hclosing, lookup_append, Option.isSome_or,
      Bool.or_eq_true, lookup_isSome_iff, or_comm]
    apply or_congr_right
    constructor
    · intro hmem
      obtain ⟨call, hmade, heq⟩ := hmem
      obtain rfl := eq_of_beq heq
      exact ⟨call.2, mem_reverse.mp hmade⟩
    · intro hmem
      obtain ⟨name, hmade⟩ := hmem
      exact ⟨(id, name), mem_reverse.mpr hmade, beq_self_eq_true _⟩

theorem told_tool (content : List ToolResultPart) :
    Told (tokens ++ h.itemTokens (.message (.tool content)))
      (h.extendItem (.message (.tool content))) := by
  rw [itemTokens_tool]
  have hnoCall (id : ToolCallId) (name : String) :
      .call id name ∉ content.map HistoryToken.result := by
    intro hmem
    obtain ⟨_, -, heq⟩ := mem_map.mp hmem
    cases heq
  constructor
  · exact named_extendItem htold.named _
  · exact nodup_removeAll htold.nodup content
  · intro id name
    have hquiet : HistoryToken.Quiet id (content.map .result) ↔
        ∀ part ∈ content, part.toolCallId ≠ id := by
      simp [HistoryToken.Quiet]
    calc Unanswered id name (tokens ++ content.map .result)
        ↔ (id ∈ h.pending ∧ h.toolCallNames.lookup id = some name) ∧
            ∀ part ∈ content, part.toolCallId ≠ id := by
          rw [unanswered_append, or_iff_right (not_unanswered (hnoCall id name)),
            htold.unanswered, hquiet]
      _ ↔ id ∈ removeAll h.pending content ∧ h.toolCallNames.lookup id = some name := by
          rw [mem_removeAll htold.nodup]
          tauto
  · intro id
    rw [show (h.extendItem (.message (.tool content))).toolCallNames = h.toolCallNames from rfl,
      htold.known id]
    apply exists_congr
    intro name
    rw [mem_append, or_iff_left (hnoCall id name)]

theorem told_toolRequested (call : ExecutableToolRequest) :
    Told (tokens ++ h.itemTokens (.toolRequested call)) (h.extendItem (.toolRequested call)) := by
  have hnamed := named_extendItem htold.named (.toolRequested call)
  rw [itemTokens_toolRequested, extendItem, extendEvent]
  rw [extendItem, extendEvent] at hnamed
  split_ifs at hnamed ⊢ with hknown
  · rwa [append_nil]
  · have hnew : call.toolCallId ∉ h.pending := by
      intro hmem
      obtain ⟨name, hname⟩ := htold.named _ hmem
      exact hknown (by rw [hname]; rfl)
    constructor
    · exact hnamed
    · simpa using htold.nodup.concat hnew
    · intro id name
      have hquiet : HistoryToken.Quiet id [.call call.toolCallId call.request.functionName] := by
        simp [HistoryToken.Quiet]
      have hself : Unanswered id name [.call call.toolCallId call.request.functionName] ↔
          id = call.toolCallId ∧ name = call.request.functionName := by
        constructor
        · intro hunanswered
          by_contra hother
          exact not_unanswered (by simpa using hother) hunanswered
        · rintro ⟨rfl, rfl⟩
          exact ⟨[], [], rfl, not_mem_nil, by simp⟩
      rw [unanswered_append, and_iff_left hquiet, hself, htold.unanswered]
      by_cases heq : id = call.toolCallId
      · subst heq
        simp [hnew, eq_comm]
      · rw [lookup_cons_of_ne heq]
        simp [heq]
    · intro id
      by_cases heq : id = call.toolCallId
      · subst heq
        simp
      · rw [lookup_cons_of_ne heq, htold.known id]
        simp [heq]

theorem told_toolResult (otherId : ToolCallId) (result : Value) :
    Told (tokens ++ h.itemTokens (.toolResult otherId result))
      (h.extendItem (.toolResult otherId result)) := by
  have hnamed := named_extendItem htold.named (.toolResult otherId result)
  rw [itemTokens_toolResult, extendItem, extendEvent]
  rw [extendItem, extendEvent] at hnamed
  split_ifs at hnamed ⊢ with hpending
  · obtain ⟨name, hname⟩ := htold.named otherId hpending
    simp only [hname] at hnamed ⊢
    constructor
    · exact hnamed
    · exact htold.nodup.erase _
    · intro id other
      have hquiet : HistoryToken.Quiet id [.result ⟨otherId, name, result⟩] ↔ id ≠ otherId := by
        simp [HistoryToken.Quiet, eq_comm]
      calc Unanswered id other (tokens ++ [.result ⟨otherId, name, result⟩])
          ↔ (id ∈ h.pending ∧ h.toolCallNames.lookup id = some other) ∧ id ≠ otherId := by
            rw [unanswered_append, or_iff_right (not_unanswered (by simp)), htold.unanswered,
              hquiet]
        _ ↔ id ∈ h.pending.erase otherId ∧ h.toolCallNames.lookup id = some other := by
            rw [htold.nodup.mem_erase_iff]
            tauto
    · intro id
      rw [htold.known id]
      simp
  · rwa [append_nil]

/-- Separated items leave exactly the unanswered calls pending. -/
theorem told_item {item : HistoryItem} (hseparated : h.Separated item) :
    Told (tokens ++ h.itemTokens item) (h.extendItem item) := by
  cases item with
  | message message =>
    rcases isTool_eq_false_or message with hclosing | ⟨content, rfl⟩
    · exact told_message htold hclosing hseparated
    · exact told_tool htold content
  | toolRequested call => exact told_toolRequested htold call
  | toolResult toolCallId result => exact told_toolResult htold toolCallId result

theorem told_items (hseparated : histories.Throughout Separated h items) :
    Told (tokens ++ h.runTokens items) (histories.exec h items) := by
  induction items generalizing h tokens with
  | nil =>
    rw [runTokens, append_nil]
    exact htold
  | cons item items ih =>
    rw [runTokens, ← append_assoc]
    exact ih (told_item htold hseparated.1) hseparated.2

end

theorem told_nil : Told [] {} where
  named := fun _ hid ↦ absurd hid not_mem_nil
  nodup := nodup_nil
  unanswered := fun id name ↦ by
    simp [Unanswered]
  known := fun id ↦ by simp

theorem told_runTokens (hseparated : histories.Throughout Separated {} items) :
    Told (runTokens {} items) (histories.exec {} items) :=
  told_items told_nil hseparated

section
variable (h : History) (items : List HistoryItem) (token : HistoryToken)
  (before after : List HistoryToken)

/-- The token is one of those that an item adds. -/
def AddedByItem : Prop :=
  ∃ first item rest pre post, items = first ++ item :: rest ∧
    (histories.exec h first).itemTokens item = pre ++ token :: post ∧
    before = h.runTokens first ++ pre ∧
    after = post ++ ((histories.exec h first).extendItem item).tokens rest

/-- The token is one of those that the last flush adds. -/
def AddedByFlush : Prop :=
  ∃ pre, (histories.exec h items).flushTokens = pre ++ token :: after ∧
    before = h.runTokens items ++ pre

end

theorem added_of_tokens {before after : List HistoryToken}
    (hsplit : h.tokens items = before ++ token :: after) :
    AddedByItem h items token before after ∨ AddedByFlush h items token before after := by
  induction items generalizing h before with
  | nil =>
    rw [tokens_nil] at hsplit
    exact .inr ⟨before, hsplit, rfl⟩
  | cons item items ih =>
    rw [tokens_cons] at hsplit
    -- If the token is in the rest, what the item adds comes before it.
    have hrest (start : List HistoryToken) (hbefore : before = h.itemTokens item ++ start)
        (htail : (h.extendItem item).tokens items = start ++ token :: after) :
        AddedByItem h (item :: items) token before after ∨
          AddedByFlush h (item :: items) token before after := by
      rcases ih htail with ⟨first, other, rest, pre, post, rfl, hitem, rfl, hafter⟩ |
        ⟨pre, hflush, rfl⟩
      · exact .inl ⟨item :: first, other, rest, pre, post, rfl, hitem,
          hbefore.trans (append_assoc ..).symm, hafter⟩
      · exact .inr ⟨pre, hflush, hbefore.trans (append_assoc ..).symm⟩
    rcases append_eq_append_iff.mp hsplit with ⟨middle, hbefore, htail⟩ |
      ⟨middle, hitem, hafter⟩
    · exact hrest middle hbefore htail
    · cases middle with
      | nil =>
        rw [append_nil] at hitem
        exact hrest [] (hitem ▸ (append_nil _).symm) hafter.symm
      | cons head middle =>
        obtain ⟨rfl, rfl⟩ := cons.inj hafter
        exact .inl ⟨[], item, items, before, middle, rfl, hitem, rfl, rfl⟩

/-- Where an item adds a token, so do the tokens of the history. -/
theorem tokens_of_item {first rest : List HistoryItem} {item : HistoryItem}
    {pre post : List HistoryToken}
    (hitem : (histories.exec h first).itemTokens item = pre ++ token :: post) :
    h.tokens (first ++ item :: rest) = (h.runTokens first ++ pre) ++
      token :: (post ++ ((histories.exec h first).extendItem item).tokens rest) := by
  rw [tokens_append, tokens_cons, hitem]
  simp only [append_assoc, cons_append]

end History

end Exo.BasicExecutor
