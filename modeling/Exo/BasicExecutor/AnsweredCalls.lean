import Exo.BasicExecutor.HistoryTokens

/-!
# Answered calls

What a history has for a call is read up to the next boundary.  A history answers its calls exactly
if every call has one result there, with its name, and every result has a call before it.

An item is separated if it makes no call twice, has no result for a call of its own, and names its
results as the calls they are for.  What separated items add is told by the calls that are pending:
those are the unanswered ones.
-/

namespace Exo.BasicExecutor

open Library List

namespace HistoryToken

section
variable (toolCallId : ToolCallId)

def answers : HistoryToken → Bool
  | .result part => part.toolCallId = toolCallId
  | _ => false

/-- The results for a call up to the next boundary. -/
def resultsFor (tokens : List HistoryToken) : List HistoryToken :=
  (tokens.takeWhile (· ≠ .boundary)).filter (answers toolCallId)

/-- No boundary, and no result for this call. -/
def Quiet (tokens : List HistoryToken) : Prop :=
  .boundary ∉ tokens ∧ ∀ result, .result result ∈ tokens → result.toolCallId ≠ toolCallId

/-- A call without a result so far, and without a boundary. -/
def Unanswered (toolName : String) (tokens : List HistoryToken) : Prop :=
  ∃ before after, tokens = before ++ .call toolCallId toolName :: after ∧ Quiet toolCallId after

end

variable {toolCallId : ToolCallId} {toolName : String} {tokens : List HistoryToken}

section
variable (first second : List HistoryToken)

theorem resultsFor_append (hfirst : .boundary ∉ first) : resultsFor toolCallId (first ++ second) =
      first.filter (answers toolCallId) ++ resultsFor toolCallId second := by
  unfold resultsFor
  rw [takeWhile_append_of_pos, filter_append]
  intro token htoken
  have hne : token ≠ .boundary := fun heq ↦ hfirst (heq ▸ htoken)
  exact decide_eq_true hne

theorem resultsFor_boundary (hfirst : .boundary ∉ first) :
    resultsFor toolCallId (first ++ .boundary :: second) = first.filter (answers toolCallId) := by
  rw [resultsFor_append _ _ hfirst]
  exact append_nil _

theorem resultsFor_eq_filter (hquiet : .boundary ∉ tokens) :
    resultsFor toolCallId tokens = tokens.filter (answers toolCallId) := by
  have happend : resultsFor toolCallId (tokens ++ []) = _ := resultsFor_append tokens [] hquiet
  rw [append_nil] at happend
  exact happend.trans (append_nil _)

theorem filter_answers_of_quiet (hquiet : Quiet toolCallId tokens) :
    tokens.filter (answers toolCallId) = [] := by
  apply filter_eq_nil_iff.mpr
  intro token htoken
  cases token with
  | result part => simpa [answers] using hquiet.2 part htoken
  | boundary | call => simp [answers]

theorem quiet_append :
    Quiet toolCallId (first ++ second) ↔ Quiet toolCallId first ∧ Quiet toolCallId second := by
  simp only [Quiet, mem_append, not_or, or_imp, forall_and]
  tauto

/-- What is unanswered was left so, or comes now. -/
theorem unanswered_append : Unanswered toolCallId toolName (first ++ second) ↔
      Unanswered toolCallId toolName second ∨
        (Unanswered toolCallId toolName first ∧ Quiet toolCallId second) := by
  constructor
  · intro hunanswered
    obtain ⟨before, after, heq, hquiet⟩ := hunanswered
    rcases append_eq_append_iff.mp heq with ⟨middle, hbefore, hsecond⟩ |
      ⟨middle, hfirst, hrest⟩
    · exact .inl ⟨middle, after, hsecond, hquiet⟩
    · cases middle with
      | nil => exact .inl ⟨[], after, hrest.symm, hquiet⟩
      | cons token middle =>
        obtain ⟨rfl, rfl⟩ := cons.inj hrest
        have hsplit := (quiet_append middle second).mp hquiet
        exact .inr ⟨⟨before, middle, hfirst, hsplit.1⟩, hsplit.2⟩
  · intro hunanswered
    rcases hunanswered with ⟨before, after, rfl, hquiet⟩ | ⟨⟨before, after, rfl, hquiet⟩, hsecond⟩
    · exact ⟨first ++ before, after, (append_assoc ..).symm, hquiet⟩
    · exact ⟨before, after ++ second, by simp, (quiet_append after second).mpr ⟨hquiet, hsecond⟩⟩

end

theorem not_unanswered (hnone : .call toolCallId toolName ∉ tokens) :
    ¬Unanswered toolCallId toolName tokens := by
  intro hunanswered
  obtain ⟨before, after, rfl, -⟩ := hunanswered
  exact hnone (by simp)

end HistoryToken

namespace AssistantContentPart

def call? : AssistantContentPart → Option (ToolCallId × String)
  | .toolCall toolCallId toolName _ => some (toolCallId, toolName)
  | _ => none

/-- The parts make no call twice and have no result for a call that they make; what they have
results for was called before. -/
def Separated (names : List (ToolCallId × String)) :
    List ToolCallId → List AssistantContentPart → Prop
  | _, [] => True
  | called, .toolCall toolCallId _ _ :: parts =>
    toolCallId ∉ called ∧ Separated names (toolCallId :: called) parts
  | called, .toolResult result :: parts =>
    result.toolCallId ∉ called ∧ (names.lookup result.toolCallId).isSome ∧
      Separated names called parts
  | called, .other _ :: parts => Separated names called parts

instance decidableSeparated (names : List (ToolCallId × String)) :
    ∀ called parts, Decidable (Separated names called parts)
  | _, [] => isTrue trivial
  | called, .toolCall toolCallId _ _ :: parts =>
    @instDecidableAnd _ _ _ (decidableSeparated names (toolCallId :: called) parts)
  | called, .toolResult _ :: parts =>
    @instDecidableAnd _ _ _ (@instDecidableAnd _ _ _ (decidableSeparated names called parts))
  | called, .other _ :: parts => decidableSeparated names called parts

section
variable (parts : List AssistantContentPart)

def calls : List (ToolCallId × String) :=
  parts.filterMap call?

def tokens : List HistoryToken := parts.filterMap token?

end

variable {names : List (ToolCallId × String)} {called : List ToolCallId}
  {parts : List AssistantContentPart} {toolCallId : ToolCallId} {toolName : String}

theorem boundary_notMem_tokens : .boundary ∉ tokens parts := by
  intro hmem
  obtain ⟨part, -, hpart⟩ := mem_filterMap.mp hmem
  cases part <;> cases hpart

theorem call_mem_tokens :
    .call toolCallId toolName ∈ tokens parts ↔ (toolCallId, toolName) ∈ calls parts := by
  unfold tokens calls
  rw [mem_filterMap, mem_filterMap]
  apply exists_congr
  intro part
  cases part <;> simp [token?, call?]

theorem result_mem_tokens {result : ToolResultPart} :
    .result result ∈ tokens parts ↔ .toolResult result ∈ parts := by
  unfold tokens
  rw [mem_filterMap]
  constructor
  · intro hmem
    obtain ⟨part, hpart, htoken⟩ := hmem
    cases part with
    | toolResult other =>
      obtain rfl : other = result := by simpa [token?] using htoken
      exact hpart
    | toolCall | other => cases htoken
  · intro hmem
    exact ⟨_, hmem, rfl⟩

section
variable (hseparated : Separated names called parts)
include hseparated

theorem separated_calls : ((calls parts).map Prod.fst).Nodup ∧
      ∀ call ∈ calls parts, call.1 ∉ called := by
  induction parts generalizing called with
  | nil => exact ⟨nodup_nil, forall_mem_nil _⟩
  | cons part parts ih =>
    cases part with
    | toolCall toolCallId toolName arguments =>
      have hrest := ih hseparated.2
      refine ⟨nodup_cons.mpr ⟨?_, hrest.1⟩, ?_⟩
      · intro hmem
        obtain ⟨call, hcall, heq⟩ := mem_map.mp hmem
        exact hrest.2 call hcall (heq ▸ mem_cons_self)
      · intro call hcall
        rcases mem_cons.mp hcall with rfl | hcall
        · exact hseparated.1
        · exact fun hmem ↦ hrest.2 call hcall (mem_cons_of_mem _ hmem)
    | toolResult result => exact ih hseparated.2.2
    | other text => exact ih hseparated

theorem separated_results {result : ToolResultPart}
    (hresult : .toolResult result ∈ parts) :
    result.toolCallId ∉ called ∧ (names.lookup result.toolCallId).isSome := by
  induction parts generalizing called with
  | nil => cases hresult
  | cons part parts ih =>
    rcases mem_cons.mp hresult with rfl | htail
    · exact ⟨hseparated.1, hseparated.2.1⟩
    · cases part with
      | toolCall toolCallId toolName arguments =>
        have hrest := ih hseparated.2 htail
        exact ⟨fun hmem ↦ hrest.1 (mem_cons_of_mem _ hmem), hrest.2⟩
      | toolResult other => exact ih hseparated.2.2 htail
      | other text => exact ih hseparated htail

theorem quiet_of_separated {before after : List HistoryToken}
    (hsplit : tokens parts = before ++ .call toolCallId toolName :: after) :
    HistoryToken.Quiet toolCallId after := by
  induction parts generalizing called before with
  | nil => exact absurd hsplit (by simp [tokens])
  | cons part parts ih =>
    cases part with
    | toolCall otherId otherName arguments =>
      cases before with
      | nil =>
        have hcons : .call otherId otherName :: tokens parts = .call toolCallId toolName :: after :=
          hsplit
        obtain ⟨hcall, rfl⟩ := cons.inj hcons
        obtain ⟨rfl, -⟩ := HistoryToken.call.inj hcall
        refine ⟨boundary_notMem_tokens, ?_⟩
        intro result hresult heq
        have hknown := separated_results hseparated.2 (result_mem_tokens.mp hresult)
        exact hknown.1 (heq ▸ mem_cons_self)
      | cons token before => exact ih hseparated.2 (cons.inj hsplit).2
    | toolResult result =>
      cases before with
      | nil => cases hsplit
      | cons token before => exact ih hseparated.2.2 (cons.inj hsplit).2
    | other text => exact ih hseparated hsplit

end

/-- Parts are separated if no call follows itself, no result follows its call, and every result is
for a call made before. -/
theorem separated_of (hnodup : ((calls parts).map Prod.fst).Nodup)
    (hcalled : ∀ call ∈ calls parts, call.1 ∉ called)
    (hresults : ∀ result, .toolResult result ∈ parts →
      result.toolCallId ∉ called ∧ (names.lookup result.toolCallId).isSome)
    (hquiet : ∀ before toolCallId toolName after,
      tokens parts = before ++ .call toolCallId toolName :: after →
        HistoryToken.Quiet toolCallId after) :
    Separated names called parts := by
  induction parts generalizing called with
  | nil => trivial
  | cons part parts ih =>
    have htail (toolCallId : ToolCallId) (toolName : String) (before after : List HistoryToken)
        (hsplit : tokens parts = before ++ .call toolCallId toolName :: after) :
        HistoryToken.Quiet toolCallId after := by
      cases part with
      | toolCall otherId otherName arguments =>
        exact hquiet (.call otherId otherName :: before) toolCallId toolName after
          (congrArg (HistoryToken.call otherId otherName :: ·) hsplit)
      | toolResult result =>
        exact hquiet (.result result :: before) toolCallId toolName after
          (congrArg (HistoryToken.result result :: ·) hsplit)
      | other text => exact hquiet before toolCallId toolName after hsplit
    have hrest (result : ToolResultPart) (hresult : .toolResult result ∈ parts) :=
      hresults result (mem_cons_of_mem _ hresult)
    cases part with
    | toolCall toolCallId toolName arguments =>
      have hcons := nodup_cons.mp hnodup
      refine ⟨hcalled _ mem_cons_self, ih hcons.2 ?_ ?_ (fun _ _ _ _ ↦ htail _ _ _ _)⟩
      · intro call hcall
        have hne : call.1 ≠ toolCallId := by
          intro heq
          exact hcons.1 (mem_map.mpr ⟨call, hcall, heq⟩)
        exact not_mem_cons_of_ne_of_not_mem hne (hcalled call (mem_cons_of_mem _ hcall))
      · intro result hresult
        have hne := (hquiet [] toolCallId toolName (tokens parts) rfl).2 result
          (result_mem_tokens.mpr hresult)
        exact ⟨not_mem_cons_of_ne_of_not_mem hne (hrest result hresult).1, (hrest result hresult).2⟩
    | toolResult result =>
      have hhead := hresults result mem_cons_self
      exact ⟨hhead.1, hhead.2, ih hnodup hcalled hrest (fun _ _ _ _ ↦ htail _ _ _ _)⟩
    | other text => exact ih hnodup hcalled hrest (fun _ _ _ _ ↦ htail _ _ _ _)

end AssistantContentPart

end Exo.BasicExecutor
