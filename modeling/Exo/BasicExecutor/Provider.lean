import Exo.BasicExecutor.ApprovalJournal

/-!
# The approval endpoint of a provider

`approval_response` holds the lock `approval_responses` while it reads the approvals of a turn and
appends its response.  The system below is the one of the executor with this lock; next to it, the
decisions `authorize` takes by a response, and how it lets a call through.
-/

namespace Exo.BasicExecutor.ApprovalDecisions

open Library TurnCoordinator Option

/-- A step at a provider: one of the conversation, or the end of the process whose
`approval_response` call holds the lock; nothing that the call has begun is written after it. -/
inductive ProviderLabel where
  | conversation (label : Label)
  | abandon

/-- The approvals are read only when no other call holds the lock, and an approval is asked for
under an id that is new to its turn, as `Uuid7::now` makes it. -/
def Serialised (s : Conversation) : Label → Prop
  | .respond _ _ => s.responders = []
  | .step (.ask approvalId) => ∀ execution ∈ s.execution,
      approvalId ∉ approvalIds (turnData s.log execution.turn)
  | _ => True

instance (s : Conversation) (label : Label) : Decidable (Serialised s label) :=
  match label with
  | .respond _ _ => inferInstanceAs (Decidable (s.responders = []))
  | .step (.ask _) => inferInstanceAs (Decidable (∀ execution ∈ s.execution, _))
  | .step .proceed | .step (.fail _) | .step (.complete _) | .step (.output _) | .begin _ _ _
  | .recover _ _ | .stop | .suspend | .crash | .deliver _ | .conclude _ _ | .note _ _ =>
    isTrue trivial

/-- A conversation and the approval endpoint of its provider. -/
def providerSystem : System Conversation ProviderLabel where
  enabled s
    | .conversation label => s.enabled label ∧ Serialised s label
    | .abandon => True
  next s
    | .conversation label => s.next label
    | .abandon => { s with responders := [] }

instance (s : Conversation) (label : ProviderLabel) : Decidable (providerSystem.enabled s label) :=
  match label with
  | .conversation label =>
    inferInstanceAs (Decidable (Conversation.system.enabled s label ∧ Serialised s label))
  | .abandon => isTrue trivial

/-- A decision `authorize` takes by a response: the call, as the one that comes after `index` calls
with a result, the approval, and whether the response was saved when `authorize` was resumed or came
while it was waiting. -/
structure ApprovalDecision where
  turn : TurnRecord
  index : ℕ
  round : ℕ
  call : ExecutableToolRequest
  approvalId : ApprovalId
  approved : Bool
  saved : Bool
  deriving DecidableEq

/-- What `authorize` does then. -/
def ApprovalDecision.outcome (decision : ApprovalDecision) : ToolPhase :=
  if decision.approved then .execute else .result (.failure (denied decision.call))

/-- The number of calls of the turn that have a result. -/
def resolved (log : Log) (turn : TurnRecord) : ℕ := (resultIds (turnData log turn)).length

/-- The decision an execution is about to take. -/
def decisionOf (log : Log) (execution : Execution) : Option ApprovalDecision :=
  let turn := execution.turn
  match execution.stage with
  | .tool round call _ (.authorize true) =>
    match existingApproval round call (turnApprovals log turn) with
    | .ok (some ⟨approval, some response⟩) => some
        ⟨turn, resolved log turn, round, call, approval.approvalId, response.approved, true⟩
    | _ => none
  | .tool round call _ (.wait approval after) =>
    match watchAnswer turn approval.approvalId (log.filter (fun event ↦ after < event.id)) with
    | .response approved => some
        ⟨turn, resolved log turn, round, call, approval.approvalId, approved, false⟩
    | _ => none
  | _ => none

/-- The decision taken in a step. -/
def taken (s : Conversation) : ProviderLabel → List ApprovalDecision
  | .conversation (.step .proceed) => (s.execution.bind (decisionOf s.log)).toList
  | _ => []

inductive Decides (log : Log) (execution : Execution) : ApprovalDecision → Prop where
  | saved {round : ℕ} {call : ExecutableToolRequest} {rest : List ExecutableToolRequest}
      {approval : ApprovalRequest} {response : ApprovalResponse}
      (hstage : execution.stage = .tool round call rest (.authorize true))
      (hfound : existingApproval round call (turnData log execution.turn) =
        .ok (some ⟨approval, some response⟩)) :
      Decides log execution ⟨execution.turn, resolved log execution.turn, round, call,
        approval.approvalId, response.approved, true⟩
  | live {round : ℕ} {call : ExecutableToolRequest} {rest : List ExecutableToolRequest}
      {approval : ApprovalRequest} {after : ℕ} {approved : Bool}
      (hstage : execution.stage = .tool round call rest (.wait approval after))
      (hanswer : watchAnswer execution.turn approval.approvalId
        (log.filter (fun event ↦ after < event.id)) = .response approved) :
      Decides log execution ⟨execution.turn, resolved log execution.turn, round, call,
        approval.approvalId, approved, false⟩

variable {log : Log} {execution : Execution} {decision : ApprovalDecision}

theorem decides_of_decisionOf (hdecision : decisionOf log execution = some decision) :
    Decides log execution decision := by
  unfold decisionOf at hdecision
  dsimp only at hdecision
  split at hdecision
  · rename_i hstage
    split at hdecision
    · rename_i hfound
      rw [existingApproval_turnApprovals] at hfound
      cases hdecision
      exact .saved hstage hfound
    · cases hdecision
  · rename_i hstage
    split at hdecision <;> cases hdecision
    rename_i hanswer
    exact .live hstage hanswer
  · cases hdecision

/-- A decision has its outcome, and nothing is appended. -/
theorem Decides.advance (hdecides : Decides log execution decision)
    (cache : Option HistoryCacheEntry) :
    ∃ rest, advance log cache execution .proceed =
      { stage := some (.tool decision.round decision.call rest decision.outcome) } := by
  cases hdecides with
  | @saved round call rest approval response hstage hfound =>
    refine ⟨rest, ?_⟩
    simp only [BasicExecutor.advance, hstage, advanceTool, authorize_saved _ hfound]
    rfl
  | @live round call rest approval after approved hstage hanswer =>
    refine ⟨rest, ?_⟩
    simp only [BasicExecutor.advance, hstage, advanceTool, authorizeAnswer, hanswer]
    cases approved <;> rfl

/-- A decision is taken only in a step of the execution that decides. -/
theorem mem_taken {s : Conversation} {label : ProviderLabel} {decision : ApprovalDecision}
    (hdecision : decision ∈ taken s label) :
    label = .conversation (.step .proceed) ∧ taken s label = [decision] ∧
      ∃ execution, s.execution = some execution ∧ Decides s.log execution decision := by
  unfold taken at hdecision ⊢
  split at hdecision
  · rw [mem_toList] at hdecision
    obtain ⟨execution, hexecution, hdecides⟩ := bind_eq_some_iff.mp hdecision
    exact ⟨rfl, by rw [hdecision]; rfl, execution, hexecution, decides_of_decisionOf hdecides⟩
  · cases hdecision

section
variable (s : Conversation) (label : ProviderLabel)

/-- A step of `authorize`: a denial fails the call, and a call that was not let through before is
let through by the response to its approval, by its policy or by the session. -/
structure Lawful : Prop where
  refused : ∀ decision ∈ taken s label, decision.approved = false →
    ∃ after rest, (providerSystem.next s label).execution = some after ∧
      after.stage = .tool decision.round decision.call rest
        (.result (.failure (denied decision.call)))
  permitted : ∀ after round call rest, (providerSystem.next s label).execution = some after →
    after.stage = .tool round call rest .execute →
      (∃ before, s.execution = some before ∧ before.turn = after.turn ∧
        before.stage = .tool round call rest .execute) ∨
      (∃ decision ∈ taken s label, decision.turn = after.turn ∧ decision.round = round ∧
        decision.call = call ∧ decision.approved = true) ∨
      after.config.policy call.request.functionName = .alwaysAllow ∨
      Allowed s.log after.turn.sessionId call.request.functionName

theorem lawful_refused
    (hdecision : decision ∈ taken s label) (hdenied : decision.approved = false) :
    ∃ after rest, (providerSystem.next s label).execution = some after ∧
      after.stage = .tool decision.round decision.call rest
        (.result (.failure (denied decision.call))) := by
  obtain ⟨rfl, -, execution, hexecution, hdecides⟩ := mem_taken hdecision
  obtain ⟨rest, hadvance⟩ := hdecides.advance s.cache
  simp only [providerSystem, Conversation.next, hexecution, hadvance, Conversation.apply]
  refine ⟨_, rest, rfl, ?_⟩
  simp [ApprovalDecision.outcome, hdenied]

end

variable {round : ℕ} {call : ExecutableToolRequest} {rest : List ExecutableToolRequest}
  {choice : Choice}

/-- How a step within a call comes to let it through. -/
theorem advanceTool_execute {phase : ToolPhase}
    (hstage : execution.stage = .tool round call rest phase) {round' : ℕ}
    {call' : ExecutableToolRequest} {rest' : List ExecutableToolRequest}
    (hmove : (advanceTool log execution.turn execution.config round call rest phase choice).stage =
      some (.tool round' call' rest' .execute)) :
    execution.stage = .tool round' call' rest' .execute ∨
      (choice = .proceed ∧ ∃ decision, decisionOf log execution = some decision ∧
        decision.turn = execution.turn ∧ decision.round = round' ∧ decision.call = call' ∧
        decision.approved = true) ∨
      execution.config.policy call'.request.functionName = .alwaysAllow ∨
      Allowed log execution.turn.sessionId call'.request.functionName := by
  have hphase {phase' : ToolPhase} (hsame : some (Stage.tool round call rest phase') =
      some (Stage.tool round' call' rest' .execute)) :
      round = round' ∧ call = call' ∧ phase' = .execute := by
    cases hsame
    exact ⟨rfl, rfl, rfl⟩
  unfold advanceTool at hmove
  split at hmove
  · rename_i resuming
    obtain ⟨rfl, rfl, hauthorize⟩ := hphase hmove
    right
    cases resuming with
    | false =>
      rcases authorize_first log execution.turn (execution.config.policy call.request.functionName)
        round call with ⟨-, hpolicy⟩ | hsession
      · exact .inr (.inl hpolicy)
      · rw [hsession] at hauthorize
        cases hauthorize
    | true =>
      left
      rcases authorize_resumed log execution.turn
        (execution.config.policy call.request.functionName) round call with
        ⟨approval, after, hwait, -⟩ | ⟨-, approval, response, hfound, happroved⟩ | ⟨value, hresult⟩
      · rw [hwait] at hauthorize
        cases hauthorize
      · refine ⟨rfl, ⟨execution.turn, resolved log execution.turn, round, call,
          approval.approvalId, response.approved, true⟩, ?_, rfl, rfl, rfl, happroved⟩
        simp only [decisionOf, hstage, existingApproval_turnApprovals, hfound]
      · rw [hresult] at hauthorize
        cases hauthorize
  · obtain ⟨rfl, rfl, hauthorize⟩ := hphase hmove
    rcases @authorizeSession_spec log call execution.turn.sessionId with ⟨-, hallowed⟩ | hask
    · exact .inr (.inr (.inr hallowed))
    · rw [hask] at hauthorize
      cases hauthorize
  · cases hmove
  · rename_i approval after
    obtain ⟨rfl, rfl, hauthorize⟩ := hphase hmove
    unfold authorizeAnswer at hauthorize
    split at hauthorize
    · rename_i hanswer
      refine .inr (.inl ⟨rfl, ⟨execution.turn, resolved log execution.turn, round, call,
        approval.approvalId, true, false⟩, ?_, rfl, rfl, rfl, rfl⟩)
      simp only [decisionOf, hstage, hanswer]
    · cases hauthorize
    · cases hauthorize
    · cases hauthorize
  · cases hmove
  · cases hmove
  · cases hmove
  · cases hmove
  · cases hmove
  · cases hmove
  · cases hmove
  · cases rest with
    | nil => cases hmove
    | cons next rest => cases hmove
  · left
    rw [hstage]
    exact some.inj hmove

/-- How a step of an execution comes to let a call through. -/
theorem advance_execute {cache : Option HistoryCacheEntry}
    (hexecute : (advance log cache execution choice).stage =
      some (.tool round call rest .execute)) :
    execution.stage = .tool round call rest .execute ∨
      (choice = .proceed ∧ ∃ decision, decisionOf log execution = some decision ∧
        decision.turn = execution.turn ∧ decision.round = round ∧ decision.call = call ∧
        decision.approved = true) ∨
      execution.config.policy call.request.functionName = .alwaysAllow ∨
      Allowed log execution.turn.sessionId call.request.functionName := by
  unfold advance at hexecute
  split at hexecute
  · split at hexecute <;> cases hexecute
  · split at hexecute <;> cases hexecute
  · split at hexecute <;> cases hexecute
  · split at hexecute <;> cases hexecute
  · dsimp only at hexecute
    split at hexecute <;> cases hexecute
  · rename_i hstage
    exact advanceTool_execute hstage hexecute
  · exact .inl (some.inj hexecute)

theorem lawful (s : Conversation) (label : ProviderLabel) : Lawful s label := by
  refine ⟨fun decision hdecision hdenied ↦ lawful_refused s label hdecision hdenied, ?_⟩
  intro after round call rest hafter hstage
  have hkept (hsame : s.execution = some after) : ∃ before, s.execution = some before ∧
      before.turn = after.turn ∧ before.stage = .tool round call rest .execute :=
    ⟨after, hsame, rfl, hstage⟩
  cases label with
  | abandon => exact .inl (hkept hafter)
  | conversation label =>
    simp only [providerSystem] at hafter
    cases label with
    | begin | recover =>
      cases hafter
      cases hstage
    | step choice =>
      simp only [Conversation.next] at hafter
      split at hafter
      · rename_i execution hexecution
        obtain ⟨stage, hmove, rfl⟩ := map_eq_some_iff.mp hafter
        subst hstage
        rcases advance_execute hmove with hbefore | ⟨rfl, decision, hdecision, hspec⟩ | hpermitted
        · exact .inl ⟨execution, hexecution, rfl, hbefore⟩
        · refine .inr (.inl ⟨decision, ?_, hspec⟩)
          simp [taken, hexecution, hdecision]
        · exact .inr (.inr hpermitted)
      · exact .inl (hkept hafter)
    | stop | suspend | crash => cases hafter
    | respond turn body | deliver index =>
      simp only [Conversation.next] at hafter
      split at hafter <;> exact .inl (hkept hafter)
    | conclude | note => exact .inl (hkept hafter)

end Exo.BasicExecutor.ApprovalDecisions
