import Exo.Harness.Materialize

/-!
# When the two histories agree

Along a log the calls are followed that wait for a result, and those that were settled in the
message that makes them.  The first are what `materializeEventsToMessages` holds, in this order;
both together are what `extend_message_history` holds.
-/

namespace Exo.Harness

open Library BasicExecutor List

/-! ## The calls of a log -/

/-- The ids that were announced, the calls that wait for a result, and the calls that a result in
their own message has settled. -/
structure LogCalls where
  seen : List ToolCallId := []
  waiting : List ToolCallId := []
  settled : List ToolCallId := []

namespace LogCalls

section
variable (calls : LogCalls)

section
variable (toolCallId : ToolCallId)

def announce : LogCalls :=
  { calls with
    seen := toolCallId :: calls.seen
    waiting := calls.waiting ++ [toolCallId] }

/-- A result in an assistant message. -/
def settle : LogCalls :=
  if toolCallId ∈ calls.waiting then
    { calls with
      waiting := calls.waiting.filter (· ≠ toolCallId)
      settled := toolCallId :: calls.settled }
  else calls

/-- A result in a tool message or of its own. -/
def answer : LogCalls :=
  if toolCallId ∈ calls.waiting then
    { calls with waiting := calls.waiting.filter (· ≠ toolCallId) }
  else { calls with settled := calls.settled.erase toolCallId }

end

def answerAll (content : List ToolResultPart) : LogCalls :=
  content.foldl (fun calls result ↦ calls.answer result.toolCallId) calls

def extendPart : AssistantContentPart → LogCalls
  | .toolCall toolCallId _ _ => calls.announce toolCallId
  | .toolResult result => calls.settle result.toolCallId
  | .other _ => calls

/-- No call is left. -/
def cleared : LogCalls := { calls with waiting := [], settled := [] }

def extendItem : HistoryItem → LogCalls
  | .message (.tool content) => calls.answerAll content
  | .message message => message.parts.foldl extendPart calls.cleared
  | .toolRequested call =>
    if call.toolCallId ∈ calls.seen then calls else calls.announce call.toolCallId
  | .toolResult toolCallId _ => calls.answer toolCallId

/-- A call of an assistant message is not announced while it still waits, and it has a name. -/
def AnnouncesParts (calls : LogCalls) : List AssistantContentPart → Prop
  | [] => True
  | part :: parts =>
    (match part with
      | .toolCall toolCallId toolName _ => toolCallId ∉ calls.waiting ∧ toolName ≠ ""
      | _ => True) ∧ AnnouncesParts (calls.extendPart part) parts

/-- No id is announced while it still waits, and every tool has a name. -/
def Announces : HistoryItem → Prop
  | .message (.tool _) => True
  | .message message => AnnouncesParts calls.cleared message.parts
  | .toolRequested call => call.request.functionName ≠ ""
  | .toolResult _ _ => True

/-- A call that was settled in its own message is answered again by tool messages alone, before the
next message that flushes the pending calls. -/
def AnsweredAgain : HistoryItem → Prop
  | .message (.tool _) => True
  | .message _ => calls.settled = []
  | .toolRequested _ => True
  | .toolResult toolCallId _ => toolCallId ∈ calls.waiting ∨ toolCallId ∉ calls.settled

end

end LogCalls

/-- The calls of a log, item by item. -/
def logCalls : System LogCalls HistoryItem where
  enabled _ _ := True
  next := LogCalls.extendItem

/-! ## Lists of pending calls -/

section Lists
variable {α : Type*} [DecidableEq α] {value : α}

theorem dedup_concat (values : List α) (value : α) :
    (values ++ [value]).dedup = (values.filter (· ≠ value)).dedup ++ [value] := by
  induction values with
  | nil => rfl
  | cons head values ih =>
    by_cases hhead : head = value
    · subst hhead
      rw [cons_append, dedup_cons_of_mem (by simp), ih, filter_cons_of_neg (by simp)]
    · rw [cons_append, filter_cons_of_pos (by simpa using hhead)]
      by_cases hmem : head ∈ values
      · rw [dedup_cons_of_mem (by simp [hmem]), ih, dedup_cons_of_mem (by simp [hmem, hhead])]
      · rw [dedup_cons_of_notMem (by simp [hmem, hhead]), ih, dedup_cons_of_notMem (by simp [hmem])]
        rfl

theorem filter_dedup (keep : α → Bool) (values : List α) :
    (values.filter keep).dedup = values.dedup.filter keep := by
  induction values with
  | nil => rfl
  | cons head values ih =>
    by_cases hkeep : keep head = true
    · rw [filter_cons_of_pos hkeep]
      by_cases hmem : head ∈ values
      · rw [dedup_cons_of_mem (mem_filter.mpr ⟨hmem, hkeep⟩), ih, dedup_cons_of_mem hmem]
      · have hnot : head ∉ values.filter keep := fun hin ↦ hmem (mem_filter.mp hin).1
        rw [dedup_cons_of_notMem hnot, ih, dedup_cons_of_notMem hmem, filter_cons_of_pos hkeep]
    · rw [filter_cons_of_neg hkeep, ih]
      by_cases hmem : head ∈ values
      · rw [dedup_cons_of_mem hmem]
      · rw [dedup_cons_of_notMem hmem, filter_cons_of_neg hkeep]

theorem filter_erase_of_neg {keep : α → Bool} (hvalue : keep value = false) (values : List α) :
    (values.erase value).filter keep = values.filter keep := by
  induction values with
  | nil => rfl
  | cons head values ih =>
    by_cases hhead : head = value
    · subst hhead
      rw [erase_cons_head, filter_cons_of_neg (by simp [hvalue])]
    · rw [erase_cons_tail (by simpa using hhead), filter_cons, filter_cons, ih]

end Lists

/-! ## Both histories follow the calls -/

/-- What both states have to do with the calls of the log. -/
structure Tracks (calls : LogCalls) (h : History) (state : Materializing) : Prop where
  named : h.Named
  known : ∀ toolCallId, toolCallId ∈ calls.seen ↔ (h.toolCallNames.lookup toolCallId).isSome = true
  seen : state.seen = calls.seen
  waiting : state.pending.map Prod.fst = calls.waiting
  names : ∀ entry ∈ state.pending, h.toolCallNames.lookup entry.1 = some entry.2 ∧ entry.2 ≠ ""
  nodup : calls.waiting.Nodup
  order : (h.pending.filter (· ∈ calls.waiting)).dedup = calls.waiting
  pending : h.pending.Perm (calls.waiting ++ calls.settled)

namespace Tracks

variable {calls : LogCalls} {h : History} {state : Materializing} {toolCallId : ToolCallId}
  {toolName : String}

section
variable (htracks : Tracks calls h state)
include htracks

theorem withMessages (left right : List Message) :
    Tracks calls { h with messages := left } { state with messages := right } :=
  ⟨htracks.named, htracks.known, htracks.seen, htracks.waiting, htracks.names, htracks.nodup,
    htracks.order, htracks.pending⟩

theorem lookup_eq : state.pending.lookup toolCallId =
      if toolCallId ∈ calls.waiting then h.toolCallNames.lookup toolCallId else none := by
  split_ifs with hmem
  · rw [← htracks.waiting] at hmem
    obtain ⟨entry, hentry, rfl⟩ := mem_map.mp hmem
    rw [(htracks.names entry hentry).1]
    have hnodup : (state.pending.map Prod.fst).Nodup := htracks.waiting ▸ htracks.nodup
    have hlookup : (state.pending ++ []).lookup entry.1 = some entry.2 :=
      History.lookup_of_nodup hnodup hentry
    rwa [append_nil] at hlookup
  · rw [← htracks.waiting] at hmem
    apply lookup_eq_none_iff.mpr
    intro entry hentry
    rw [bne_iff_ne]
    rintro rfl
    exact hmem (mem_map.mpr ⟨entry, hentry, rfl⟩)

theorem name_ne (hlookup : state.pending.lookup toolCallId = some toolName) : toolName ≠ "" := by
  obtain ⟨first, rest, hsplit, -⟩ := lookup_eq_some_iff.mp hlookup
  exact (htracks.names (toolCallId, toolName) (hsplit ▸ by simp)).2

theorem announce (hfresh : toolCallId ∉ calls.waiting) (hname : toolName ≠ "") :
    Tracks (calls.announce toolCallId)
      { h with
        toolCallNames := (toolCallId, toolName) :: h.toolCallNames
        pending := h.pending ++ [toolCallId] } (state.call toolCallId toolName) := by
  have hset : setPending state.pending toolCallId toolName =
      state.pending ++ [(toolCallId, toolName)] := by
    unfold setPending
    rw [htracks.lookup_eq, if_neg hfresh]
    rfl
  have hother {id : ToolCallId} (hid : id ∈ calls.waiting) : id ≠ toolCallId :=
    fun heq ↦ hfresh (heq ▸ hid)
  constructor
  · intro id hid
    by_cases heq : id = toolCallId
    · exact ⟨toolName, by rw [heq]; exact lookup_cons_self⟩
    · have hold : id ∈ h.pending := by simpa [heq] using hid
      obtain ⟨name, hlookup⟩ := htracks.named id hold
      exact ⟨name, (History.lookup_cons_of_ne heq).trans hlookup⟩
  · intro id
    by_cases heq : id = toolCallId
    · subst heq
      simp [LogCalls.announce]
    · rw [History.lookup_cons_of_ne heq, ← htracks.known id]
      simp [LogCalls.announce, heq]
  · exact congrArg (toolCallId :: ·) htracks.seen
  · simp only [Materializing.call, hset, map_append, htracks.waiting]
    rfl
  · intro entry hentry
    simp only [Materializing.call, hset] at hentry
    rcases mem_append.mp hentry with hold | hnew
    · have hwaiting : entry.1 ∈ calls.waiting :=
        htracks.waiting ▸ mem_map.mpr ⟨entry, hold, rfl⟩
      rw [History.lookup_cons_of_ne (hother hwaiting)]
      exact htracks.names entry hold
    · obtain rfl := mem_singleton.mp hnew
      exact ⟨lookup_cons_self, hname⟩
  · have hnodup := htracks.nodup.concat fun hmem ↦ hother hmem rfl
    rwa [concat_eq_append] at hnodup
  · have hold : (h.pending.filter (· ∈ calls.waiting ++ [toolCallId])).filter (· ≠ toolCallId) =
        h.pending.filter (· ∈ calls.waiting) := by
      rw [filter_filter]
      apply filter_congr
      intro id _
      by_cases heq : id = toolCallId
      · simp [heq, hfresh]
      · simp [heq]
    show ((h.pending ++ [toolCallId]).filter (· ∈ calls.waiting ++ [toolCallId])).dedup = _
    rw [filter_append, filter_cons_of_pos (by simp), filter_nil, dedup_concat, hold, htracks.order]
    rfl
  · have hlast : (calls.waiting ++ calls.settled ++ [toolCallId]).Perm
        (calls.waiting ++ [toolCallId] ++ calls.settled) := by
      rw [append_assoc, append_assoc]
      exact perm_append_comm.append_left _
    exact (htracks.pending.append_right _).trans hlast

theorem erase_waiting : calls.waiting.erase toolCallId = calls.waiting.filter (· ≠ toolCallId) := by
  rw [htracks.nodup.erase_eq_filter]
  apply filter_congr
  intro id _
  by_cases heq : id = toolCallId <;> simp [heq]

theorem delete_waiting : (deletePending state.pending toolCallId).map Prod.fst =
      calls.waiting.filter (· ≠ toolCallId) := by
  rw [← htracks.waiting, filter_map]
  rfl

/-- A call stops waiting, and its place among the pending ones may go. -/
theorem order_filter {pending : List ToolCallId}
    (hpending : pending.filter (fun id ↦ id ∈ calls.waiting.filter (· ≠ toolCallId)) =
      h.pending.filter (fun id ↦ id ∈ calls.waiting.filter (· ≠ toolCallId))) :
    (pending.filter (fun id ↦ id ∈ calls.waiting.filter (· ≠ toolCallId))).dedup =
      calls.waiting.filter (· ≠ toolCallId) := by
  have hsplit : h.pending.filter (fun id ↦ id ∈ calls.waiting.filter (· ≠ toolCallId)) =
      (h.pending.filter (· ∈ calls.waiting)).filter (· ≠ toolCallId) := by
    rw [filter_filter]
    apply filter_congr
    intro id _
    simp [mem_filter, and_comm]
  rw [hpending, hsplit, filter_dedup, htracks.order]

theorem delete_of_notMem (hmem : toolCallId ∉ calls.waiting) : state.delete toolCallId = state := by
  have hnone : deletePending state.pending toolCallId = state.pending := by
    apply filter_eq_self.mpr
    intro entry hentry
    have hwaiting : entry.1 ∈ calls.waiting :=
      htracks.waiting ▸ mem_map.mpr ⟨entry, hentry, rfl⟩
    exact decide_eq_true (fun heq ↦ hmem (heq ▸ hwaiting))
  unfold Materializing.delete
  rw [hnone]

theorem settle (toolCallId : ToolCallId) :
    Tracks (calls.settle toolCallId) h (state.delete toolCallId) := by
  unfold LogCalls.settle
  split_ifs with hmem
  · refine ⟨htracks.named, htracks.known, htracks.seen, htracks.delete_waiting, ?_,
      htracks.nodup.filter _, htracks.order_filter rfl, ?_⟩
    · intro entry hentry
      exact htracks.names entry (mem_filter.mp hentry).1
    · have hmoved : (calls.waiting ++ calls.settled).Perm
          (calls.waiting.erase toolCallId ++ toolCallId :: calls.settled) :=
        ((perm_cons_erase hmem).append_right _).trans perm_middle.symm
      rw [htracks.erase_waiting] at hmoved
      exact htracks.pending.trans hmoved
  · rw [htracks.delete_of_notMem hmem]
    exact htracks

theorem answer (toolCallId : ToolCallId) : Tracks (calls.answer toolCallId)
      { h with pending := History.removePendingToolCall h.pending toolCallId }
      (state.delete toolCallId) := by
  have hnamed : History.Named
      { h with pending := History.removePendingToolCall h.pending toolCallId } :=
    fun id hid ↦ htracks.named id (erase_subset hid)
  unfold LogCalls.answer
  split_ifs with hmem
  · refine ⟨hnamed, htracks.known, htracks.seen, htracks.delete_waiting, ?_,
      htracks.nodup.filter _, htracks.order_filter (filter_erase_of_neg (by simp) _), ?_⟩
    · intro entry hentry
      exact htracks.names entry (mem_filter.mp hentry).1
    · have herase := htracks.pending.erase toolCallId
      rwa [erase_append_left _ hmem, htracks.erase_waiting] at herase
  · rw [htracks.delete_of_notMem hmem]
    refine ⟨hnamed, htracks.known, htracks.seen, htracks.waiting, htracks.names, htracks.nodup, ?_,
      ?_⟩
    · show ((h.pending.erase toolCallId).filter (· ∈ calls.waiting)).dedup = calls.waiting
      rw [filter_erase_of_neg (by simpa using hmem), htracks.order]
    · have herase := htracks.pending.erase toolCallId
      rwa [erase_append_right _ hmem] at herase

theorem answerAll (content : List ToolResultPart) : Tracks (calls.answerAll content)
      { h with pending := History.removeAll h.pending content } (state.deleteAll content) := by
  induction content generalizing calls h state with
  | nil => exact htracks
  | cons result content ih => exact ih (htracks.answer result.toolCallId)

theorem clear : Tracks calls.cleared h.flushDanglingToolResults state.flush where
  named := fun _ hid ↦ absurd hid not_mem_nil
  known := htracks.known
  seen := htracks.seen
  waiting := rfl
  names := fun _ hentry ↦ absurd hentry not_mem_nil
  nodup := nodup_nil
  order := rfl
  pending := List.Perm.refl _

theorem extendPart {part : AssistantContentPart} (hpart : match part with
      | .toolCall toolCallId toolName _ => toolCallId ∉ calls.waiting ∧ toolName ≠ ""
      | _ => True) :
    Tracks (calls.extendPart part) (h.extendPart part) (state.extendPart part) := by
  cases part with
  | toolCall toolCallId toolName arguments => exact htracks.announce hpart.1 hpart.2
  | toolResult result => exact htracks.settle result.toolCallId
  | other text => exact htracks

theorem extendParts {parts : List AssistantContentPart} (hparts : calls.AnnouncesParts parts) :
    Tracks (parts.foldl LogCalls.extendPart calls) (parts.foldl History.extendPart h)
      (parts.foldl Materializing.extendPart state) := by
  induction parts generalizing calls h state with
  | nil => exact htracks
  | cons part parts ih => exact ih (htracks.extendPart hparts.1) hparts.2

theorem extendItem {item : HistoryItem} (hannounces : calls.Announces item) :
    Tracks (calls.extendItem item) (h.extendItem item) (state.extendItem item) := by
  cases item with
  | message message =>
    cases message with
    | tool content => exact (htracks.answerAll content).withMessages _ _
    | assistant content id =>
      cases content with
      | string text => exact htracks.clear.withMessages _ _
      | array parts => exact (htracks.clear.extendParts hannounces).withMessages _ _
    | system text | developer text | user text => exact htracks.clear.withMessages _ _
  | toolRequested call =>
    have hknown := htracks.known call.toolCallId
    have hseen : call.toolCallId ∈ state.seen ↔ call.toolCallId ∈ calls.seen := by
      rw [htracks.seen]
    rw [LogCalls.extendItem, History.extendItem, History.extendEvent, Materializing.extendItem,
      Materializing.extendEvent]
    by_cases hmem : call.toolCallId ∈ calls.seen
    · rw [if_pos hmem, if_pos (hknown.mp hmem), if_pos (hseen.mpr hmem)]
      exact htracks
    · rw [if_neg hmem, if_neg (fun hsome ↦ hmem (hknown.mpr hsome)),
        if_neg (fun hin ↦ hmem (hseen.mp hin))]
      have hfresh : call.toolCallId ∉ calls.waiting := by
        intro hwaiting
        have hpending : call.toolCallId ∈ h.pending :=
          htracks.pending.mem_iff.mpr (mem_append_left _ hwaiting)
        exact hmem (hknown.mpr (Option.isSome_iff_exists.mpr (htracks.named _ hpending)))
      exact (htracks.announce hfresh hannounces).withMessages _ _
  | toolResult toolCallId result =>
    have hanswer := htracks.answer toolCallId
    rw [LogCalls.extendItem, History.extendItem, History.extendEvent, Materializing.extendItem]
    simp only [Materializing.extendEvent]
    rw [htracks.lookup_eq]
    by_cases hmem : toolCallId ∈ calls.waiting
    · have hpending : toolCallId ∈ h.pending :=
        htracks.pending.mem_iff.mpr (mem_append_left _ hmem)
      obtain ⟨toolName, hname⟩ := htracks.named toolCallId hpending
      have hlookup : state.pending.lookup toolCallId = some toolName := by
        rw [htracks.lookup_eq, if_pos hmem, hname]
      rw [if_pos hmem, if_pos hpending, hname]
      dsimp only
      rw [if_neg (htracks.name_ne hlookup)]
      exact hanswer.withMessages _ _
    · rw [htracks.delete_of_notMem hmem] at hanswer
      rw [if_neg hmem]
      by_cases hpending : toolCallId ∈ h.pending
      · obtain ⟨toolName, hname⟩ := htracks.named toolCallId hpending
        rw [if_pos hpending, hname]
        exact hanswer.withMessages _ _
      · rw [if_neg hpending]
        have hsame : History.removePendingToolCall h.pending toolCallId = h.pending :=
          erase_of_not_mem hpending
        rw [hsame] at hanswer
        exact hanswer

/-! ## What is added -/

theorem length_pending : h.pending.length = state.pending.length + calls.settled.length := by
  rw [htracks.pending.length_eq, length_append, ← htracks.waiting, length_map]

theorem length_danglingResults : h.danglingResults.length = h.pending.length := by
  unfold History.danglingResults
  have hall : ∀ id ∈ h.pending, ((h.toolCallNames.lookup id).map
      (History.danglingResult id)).isSome = true := by
    intro id hid
    obtain ⟨name, hname⟩ := htracks.named id hid
    rw [hname]
    rfl
  rw [length_filterMap_eq_countP]
  exact countP_eq_length.mpr hall

/-- Without settled calls both flush the same results in the same order. -/
theorem flushed_eq (hsettled : calls.settled = []) : h.danglingResults = state.flushed := by
  have hperm : h.pending.Perm calls.waiting := by
    have hpending := htracks.pending
    rwa [hsettled, append_nil] at hpending
  have hall : h.pending.filter (· ∈ calls.waiting) = h.pending := by
    apply filter_eq_self.mpr
    intro id hid
    exact decide_eq_true (hperm.mem_iff.mp hid)
  have hpending : h.pending = state.pending.map Prod.fst := by
    calc h.pending = h.pending.dedup := (hperm.nodup_iff.mpr htracks.nodup).dedup.symm
      _ = (h.pending.filter (· ∈ calls.waiting)).dedup := by rw [hall]
      _ = calls.waiting := htracks.order
      _ = state.pending.map Prod.fst := htracks.waiting.symm
  unfold History.danglingResults Materializing.flushed
  rw [hpending, filterMap_map, ← filterMap_eq_map]
  apply filterMap_congr
  intro entry hentry
  simp only [Function.comp_apply, (htracks.names entry hentry).1]
  rfl

theorem flushed_lt (hsettled : calls.settled ≠ []) :
    state.flushed.length < h.danglingResults.length := by
  have hpos := length_pos_of_ne_nil hsettled
  have hlength := htracks.length_pending
  rw [htracks.length_danglingResults, hlength, Materializing.flushed, length_map]
  omega

end

theorem marks_message (h : History) {message : Message} (hclosing : message.isTool = false) :
    (h.marks (.message message)).map History.Marked.message = h.danglingResults ++ [message] := by
  cases message with
  | tool content => cases hclosing
  | _ => exact h.marked_messages _

theorem added_message (state : Materializing) {message : Message}
    (hclosing : message.isTool = false) :
    state.added (.message message) = state.flushed ++ [message] := by
  cases message with
  | tool content => cases hclosing
  | _ => rfl

theorem answeredAgain_message {message : Message} (hclosing : message.isTool = false) :
    calls.AnsweredAgain (.message message) ↔ calls.settled = [] := by
  cases message with
  | tool content => cases hclosing
  | _ => exact Iff.rfl

/-- An item adds the same messages to both histories, or more to that of
`extend_message_history`. -/
theorem added (htracks : Tracks calls h state) (item : HistoryItem) :
    (calls.AnsweredAgain item → (h.marks item).map History.Marked.message = state.added item) ∧
      (¬calls.AnsweredAgain item → (state.added item).length < (h.marks item).length) := by
  cases item with
  | message message =>
    rcases History.isTool_eq_false_or message with hclosing | ⟨content, rfl⟩
    · rw [answeredAgain_message hclosing, ← length_map History.Marked.message,
        marks_message h hclosing, added_message state hclosing, length_append,
        length_append]
      constructor
      · exact fun hsettled ↦ by rw [htracks.flushed_eq hsettled]
      · exact fun hsettled ↦ Nat.add_lt_add_right (htracks.flushed_lt hsettled) _
    · exact ⟨fun _ ↦ rfl, fun hnot ↦ absurd trivial hnot⟩
  | toolRequested call =>
    refine ⟨fun _ ↦ ?_, fun hnot ↦ absurd trivial hnot⟩
    rw [History.marks, Materializing.added, htracks.seen]
    by_cases hmem : call.toolCallId ∈ calls.seen
    · rw [if_pos hmem, if_pos ((htracks.known _).mp hmem)]
      rfl
    · rw [if_neg hmem, if_neg (fun hsome ↦ hmem ((htracks.known _).mpr hsome))]
      rfl
  | toolResult toolCallId result =>
    rw [History.marks]
    simp only [Materializing.added]
    rw [htracks.lookup_eq]
    by_cases hmem : toolCallId ∈ calls.waiting
    · have hpending : toolCallId ∈ h.pending :=
        htracks.pending.mem_iff.mpr (mem_append_left _ hmem)
      obtain ⟨toolName, hname⟩ := htracks.named toolCallId hpending
      have hlookup : state.pending.lookup toolCallId = some toolName := by
        rw [htracks.lookup_eq, if_pos hmem, hname]
      refine ⟨fun _ ↦ ?_, fun hnot ↦ absurd (.inl hmem) hnot⟩
      rw [if_pos hmem, if_pos hpending, hname]
      dsimp only
      rw [if_neg (htracks.name_ne hlookup)]
      rfl
    · rw [if_neg hmem]
      have hiff : toolCallId ∈ h.pending ↔ toolCallId ∈ calls.settled := by
        rw [htracks.pending.mem_iff, mem_append, or_iff_right hmem]
      constructor
      · intro hagain
        rw [if_neg (fun hpending ↦ hagain.resolve_left hmem (hiff.mp hpending))]
        rfl
      · intro hnot
        have hsettled : toolCallId ∈ calls.settled := by
          by_contra hnone
          exact hnot (.inr hnone)
        obtain ⟨toolName, hname⟩ := htracks.named toolCallId (hiff.mpr hsettled)
        rw [if_pos (hiff.mpr hsettled), hname]
        exact Nat.zero_lt_one

/-- The rest of a log gives the same messages exactly if every settled call in it is answered
again. -/
theorem addedItems (htracks : Tracks calls h state) {items : List HistoryItem}
    (hannounces : logCalls.Throughout LogCalls.Announces calls items) :
    ((h.markedItems items).map History.Marked.message = state.addedItems items ↔
        logCalls.Throughout LogCalls.AnsweredAgain calls items ∧
          (logCalls.exec calls items).settled = []) ∧
      (state.addedItems items).length ≤ (h.markedItems items).length := by
  induction items generalizing calls h state with
  | nil =>
    have hmessages : (h.markedItems []).map History.Marked.message = h.danglingResults := by
      rw [History.markedItems, map_map]
      exact map_id _
    rw [← length_map History.Marked.message, hmessages]
    by_cases hsettled : calls.settled = []
    · have heq := htracks.flushed_eq hsettled
      exact ⟨⟨fun _ ↦ ⟨trivial, hsettled⟩, fun _ ↦ heq⟩, Nat.le_of_eq (congrArg length heq.symm)⟩
    · have hlt := htracks.flushed_lt hsettled
      refine ⟨⟨fun heq ↦ ?_, fun hrun ↦ absurd hrun.2 hsettled⟩, Nat.le_of_lt hlt⟩
      rw [heq] at hlt
      exact absurd hlt (Nat.lt_irrefl _)
  | cons item items ih =>
    have hnext := ih (htracks.extendItem hannounces.1) hannounces.2
    have hitem := htracks.added item
    have hsplit : (h.markedItems (item :: items)).map History.Marked.message =
        (h.marks item).map History.Marked.message ++
          ((h.extendItem item).markedItems items).map History.Marked.message := by
      rw [History.markedItems, map_append]
    rw [← length_map History.Marked.message] at hnext ⊢
    rw [hsplit, Materializing.addedItems]
    by_cases hagain : calls.AnsweredAgain item
    · rw [hitem.1 hagain, append_cancel_left_eq, hnext.1]
      refine ⟨⟨fun hrun ↦ ⟨⟨hagain, hrun.1⟩, hrun.2⟩, fun hrun ↦ ⟨hrun.1.2, hrun.2⟩⟩, ?_⟩
      rw [length_append, length_append]
      exact Nat.add_le_add_left hnext.2 _
    · have hlt := hitem.2 hagain
      rw [← length_map History.Marked.message] at hlt
      have hlength : (state.added item ++ (state.extendItem item).addedItems items).length <
          ((h.marks item).map History.Marked.message ++
            ((h.extendItem item).markedItems items).map History.Marked.message).length := by
        rw [length_append, length_append]
        exact Nat.add_lt_add_of_lt_of_le hlt hnext.2
      refine ⟨⟨fun heq ↦ ?_, fun hrun ↦ absurd hrun.1.1 hagain⟩, Nat.le_of_lt hlength⟩
      rw [heq] at hlength
      exact absurd hlength (Nat.lt_irrefl _)

theorem initial : Tracks {} {} {} where
  named := fun _ hid ↦ absurd hid not_mem_nil
  known := fun id ↦ by simp
  seen := rfl
  waiting := rfl
  names := fun _ hentry ↦ absurd hentry not_mem_nil
  nodup := nodup_nil
  order := rfl
  pending := List.Perm.refl _

end Tracks

/-- Both histories of a log have the same messages exactly if every call that was settled in its own
message is answered again before the pending calls are flushed. -/
theorem materialize_eq_iff (events : List EventData)
    (hannounces : logCalls.Throughout LogCalls.Announces {} (historyItems events)) :
    materializeEventsToMessages events = (extendMessageHistory [] [] events).messages ↔
      logCalls.Throughout LogCalls.AnsweredAgain {} (historyItems events) ∧
        (logCalls.exec {} (historyItems events)).settled = [] := by
  rw [materializeEventsToMessages_eq, extendMessageHistory_messages, eq_comm]
  exact (Tracks.initial.addedItems hannounces).1

/-- A reused id, a duplicated and a late result, and a call without a result. -/
def reusedLog : List EventData :=
  [.messages [.assistant (.array [.toolCall "a" "search" (.valid "{}"),
      .toolCall "b" "read" (.valid "{}")]) none],
    .toolRequested ⟨"a", ⟨"search", "{}", none⟩⟩,
    .toolResult "a" (.json "[1]"), .toolResult "a" (.json "[2]"),
    .messages [.user "again",
      .assistant (.array [.toolCall "a" "search" (.valid "{}")]) none,
      .tool [⟨"a", "search", .json "[3]"⟩]],
    .toolResult "b" (.json "late")]

theorem materialize_eq_iff_reusedLog :
    materializeEventsToMessages reusedLog = (extendMessageHistory [] [] reusedLog).messages := by
  have hannounces : logCalls.Throughout LogCalls.Announces {} (historyItems reusedLog) := by
    simp [reusedLog, historyItems, EventData.historyItems, System.Throughout, logCalls,
      LogCalls.Announces, LogCalls.AnnouncesParts, LogCalls.extendItem, LogCalls.extendPart,
      LogCalls.announce, LogCalls.answer, LogCalls.cleared, Message.parts]
  refine (materialize_eq_iff reusedLog hannounces).mpr ⟨?_, by decide⟩
  simp [reusedLog, historyItems, EventData.historyItems, System.Throughout, logCalls,
    LogCalls.AnsweredAgain, LogCalls.extendItem, LogCalls.extendPart, LogCalls.announce,
    LogCalls.answer, LogCalls.answerAll, LogCalls.cleared, Message.parts]

/-- The result of a tool that the provider runs stands in the message of its call. -/
def settledLog : List EventData :=
  [.messages [.assistant (.array [.toolCall "a" "web_search" (.valid "{}"),
    .toolResult ⟨"a", "web_search", .json "[]"⟩]) none]]

theorem materialize_ne_settledLog :
    logCalls.Throughout LogCalls.Announces {} (historyItems settledLog) ∧
      materializeEventsToMessages settledLog ≠
        (extendMessageHistory [] [] settledLog).messages := by
  refine ⟨⟨⟨⟨not_mem_nil, by decide⟩, trivial, trivial⟩, trivial⟩, by decide⟩

end Exo.Harness
