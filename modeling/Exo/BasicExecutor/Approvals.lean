import Exo.BasicExecutor.Executor
import Exo.BasicExecutor.Rounds

/-!
# What the approvals of a log permit

The approvals a turn has asked for and the responses to them, and what each read of `authorize`
establishes about them when it lets a call through.
-/

namespace Exo.BasicExecutor

open Library TurnCoordinator List

/-- The approvals asked for, in order. -/
def asked (events : List EventData) : List ApprovalRequest :=
  events.filterMap (fun
    | .approvalRequested approval => some approval
    | _ => none)

/-- The approvals that have a response. -/
def answerIds (events : List EventData) : List ApprovalId :=
  events.filterMap (fun
    | .approvalResponse response => some response.approvalId
    | _ => none)

@[simp]
theorem asked_append (first second : List EventData) :
    asked (first ++ second) = asked first ++ asked second :=
  filterMap_append

@[simp]
theorem answerIds_append (first second : List EventData) :
    answerIds (first ++ second) = answerIds first ++ answerIds second :=
  filterMap_append

variable {events : List EventData} {round : ℕ} {call : ExecutableToolRequest}

theorem mem_asked {approval : ApprovalRequest} :
    approval ∈ asked events ↔ .approvalRequested approval ∈ events := by
  unfold asked
  rw [mem_filterMap]
  constructor
  · rintro ⟨event, hevent, hsome⟩
    cases event <;> simp_all
  · exact fun hmem ↦ ⟨_, hmem, rfl⟩

theorem mem_answerIds {response : ApprovalResponse} (hmem : .approvalResponse response ∈ events) :
    response.approvalId ∈ answerIds events :=
  mem_filterMap.mpr ⟨_, hmem, rfl⟩

variable {turn : TurnRecord} {event : EventData} {found : ExistingApproval}

theorem mem_turnData {log : Log} {data : EventData} :
    data ∈ turnData log turn ↔ ∃ event ∈ log, event.turn = some turn ∧ event.data = data := by
  simp [turnData, and_assoc]

/-- The recovery collects all approvals and responses. -/
theorem recovered_approvals (events : List EventData) (recovered : Recovered) :
    (events.foldl Recovered.step recovered).approvals = recovered.approvals ++ asked events ∧
      (events.foldl Recovered.step recovered).responses =
        recovered.responses ++ answerIds events := by
  induction events generalizing recovered with
  | nil => simp [asked, answerIds]
  | cons event events ih =>
    obtain ⟨happrovals, hresponses⟩ := ih (recovered.step event)
    rw [foldl_cons, happrovals, hresponses]
    cases event with
    | approvalRequested | approvalResponse => simp [Recovered.step, asked, answerIds]
    | _ => exact ⟨rfl, rfl⟩

/-- The approval is the one for this call of this round. -/
def ApprovalRequest.isFor (approval : ApprovalRequest) (round : ℕ) (call : ExecutableToolRequest) :
    Prop :=
  approval.toolCallId = some call.toolCallId ∧ approval.round = some round ∧
    approval.request = call.request

/-- The turn's log has an approval for the call and a response that approves it. -/
def Approved (log : Log) (turn : TurnRecord) (round : ℕ) (call : ExecutableToolRequest) : Prop :=
  ∃ approval response, .approvalRequested approval ∈ turnData log turn ∧
    approval.isFor round call ∧ .approvalResponse response ∈ turnData log turn ∧
    response.approvalId = approval.approvalId ∧ response.approved = true

/-- A response in the session's log approves a call and allows the tool for the session. -/
def Allowed (log : Log) (session : SessionId) (toolName : String) : Prop :=
  ∃ event ∈ log, event.turn.map (·.sessionId) = some session ∧ ∃ response,
    event.data = .approvalResponse response ∧ response.approved = true ∧
      response.allowedToolName = some toolName

/-- The loop over the saved approvals takes one event after the other. -/
theorem existingApproval_concat {found : Option ExistingApproval}
    (hfound : existingApproval round call (events ++ [event]) = .ok found) :
    ∃ before, existingApproval round call events = .ok before ∧
      existingStep round call before event = .ok found := by
  unfold existingApproval at hfound
  rw [foldlM_append] at hfound
  change existingApproval round call events >>= _ = _ at hfound
  cases hbefore : existingApproval round call events with
  | error message =>
    rw [hbefore] at hfound
    cases hfound
  | ok before =>
    rw [hbefore] at hfound
    refine ⟨before, rfl, ?_⟩
    change foldlM (existingStep round call) before [event] = _ at hfound
    simpa using hfound

/-- What one event does to the approval found so far. -/
inductive Found (round : ℕ) (call : ExecutableToolRequest) (before : Option ExistingApproval) :
    EventData → ExistingApproval → Prop where
  | requested {approval : ApprovalRequest} (hfor : approval.isFor round call) :
      Found round call before (.approvalRequested approval) { approval }
  | answered {found : ExistingApproval} {response : ApprovalResponse}
      (hbefore : before = some found) (hid : response.approvalId = found.approval.approvalId) :
      Found round call before (.approvalResponse response) { found with answer := some response }
  | kept {event : EventData} {found : ExistingApproval} (hbefore : before = some found)
      (hother : ∀ response, event = .approvalResponse response →
        response.approvalId ≠ found.approval.approvalId) : Found round call before event found

theorem existingStep_found {before : Option ExistingApproval}
    (hstep : existingStep round call before event = .ok (some found)) :
    Found round call before event found := by
  cases event with
  | approvalRequested approval =>
    simp only [existingStep] at hstep
    split at hstep
    · rename_i hmatches
      split at hstep <;> cases hstep
      rename_i hrequest
      exact .requested ⟨hmatches.1, hmatches.2, hrequest⟩
    · cases hstep
      exact .kept rfl (by simp)
  | approvalResponse response =>
    simp only [existingStep] at hstep
    split at hstep
    · split at hstep <;> cases hstep
      · rename_i hid
        exact .answered rfl hid
      · rename_i hid
        refine .kept rfl ?_
        rintro other ⟨⟩
        exact hid
    · cases hstep
  | _ =>
    cases hstep
    exact .kept rfl (by simp)

/-- What the loop over the saved approvals has found. -/
theorem existingApproval_spec (hfound : existingApproval round call events = .ok (some found)) :
    .approvalRequested found.approval ∈ events ∧ found.approval.isFor round call ∧
      ∀ response, found.answer = some response →
        .approvalResponse response ∈ events ∧ response.approvalId = found.approval.approvalId := by
  induction events using reverseRecOn generalizing found with
  | nil => cases hfound
  | append_singleton events event ih =>
    obtain ⟨before, hbefore, hstep⟩ := existingApproval_concat hfound
    cases existingStep_found hstep with
    | requested hfor => exact ⟨by simp, hfor, by simp⟩
    | answered hsome hid =>
      rw [hsome] at hbefore
      obtain ⟨hrequested, hfor, -⟩ := ih hbefore
      refine ⟨mem_append_left _ hrequested, hfor, ?_⟩
      rintro answer ⟨⟩
      exact ⟨by simp, hid⟩
    | kept hsome _ =>
      rw [hsome] at hbefore
      obtain ⟨hrequested, hfor, hanswer⟩ := ih hbefore
      refine ⟨mem_append_left _ hrequested, hfor, ?_⟩
      intro response hresponse
      obtain ⟨hmem, hid⟩ := hanswer response hresponse
      exact ⟨mem_append_left _ hmem, hid⟩

/-- The stream answers with a response it has yielded. -/
theorem watchAnswer_spec {approvalId : ApprovalId} {events : List Event} {approved : Bool}
    (hanswer : watchAnswer turn approvalId events = .response approved) :
    ∃ event ∈ events, event.turn = some turn ∧ ∃ response,
      event.data = .approvalResponse response ∧ response.approvalId = approvalId ∧
        response.approved = approved := by
  induction events with
  | nil => cases hanswer
  | cons event events ih =>
    have hlater (hrest : watchAnswer turn approvalId events = .response approved) :
        ∃ event' ∈ event :: events, event'.turn = some turn ∧ ∃ response,
          event'.data = .approvalResponse response ∧ response.approvalId = approvalId ∧
            response.approved = approved := by
      obtain ⟨found, hfound, hspec⟩ := ih hrest
      exact ⟨found, mem_cons_of_mem _ hfound, hspec⟩
    unfold watchAnswer at hanswer
    split at hanswer
    · rename_i hturn
      split at hanswer
      · rename_i response hdata
        split at hanswer
        · rename_i hid
          refine ⟨event, by simp, hturn, response, hdata, hid, ?_⟩
          simpa using hanswer
        · exact hlater hanswer
      · cases hanswer
      · exact hlater hanswer
    · exact hlater hanswer

section Authorize
variable {log : Log} {turn : TurnRecord} {round : ℕ} {call : ExecutableToolRequest}

theorem mem_turnData_of_mem_turnApprovals {data : EventData}
    (hmem : data ∈ turnApprovals log turn) : data ∈ turnData log turn := by
  rw [turnApprovals_eq] at hmem
  exact (mem_filter.mp hmem).1

variable (log : Log) (turn : TurnRecord) (policy : PermissionPolicy) (round : ℕ)
  (call : ExecutableToolRequest) (resuming : Bool) in
/-- The first decision: without resuming, only the policy lets a call through; a resumed call waits
for its saved approval, or goes through if that is approved. -/
inductive Decision : ToolPhase → Prop where
  | allowed (hresuming : resuming = false) (hpolicy : policy = .alwaysAllow) : Decision .execute
  | approved (hresuming : resuming = true) (happroved : Approved log turn round call) :
      Decision .execute
  | session (hresuming : resuming = false) : Decision .session
  | wait {approval : ApprovalRequest} {after : ℕ} (hresuming : resuming = true)
      (hrequested : .approvalRequested approval ∈ turnData log turn)
      (hfor : approval.isFor round call) :
      Decision (.wait approval after)
  | failed {value : Value} : Decision (.result value)

theorem authorize_spec (policy : PermissionPolicy) (resuming : Bool) :
    Decision log turn policy round call resuming
      (authorize log turn policy round call resuming) := by
  unfold authorize
  split
  · rename_i hallow
    exact .allowed hallow.1 hallow.2
  split
  · rename_i hresuming
    cases hexisting : existingApproval round call (turnApprovals log turn) with
    | error message => exact .failed
    | ok found =>
      cases found with
      | none => exact .failed
      | some found =>
        obtain ⟨hrequested, hfor, hanswer⟩ := existingApproval_spec hexisting
        obtain ⟨approval, answer⟩ := found
        have hmem := mem_turnData_of_mem_turnApprovals hrequested
        cases answer with
        | none =>
          dsimp only
          cases (approvalEvents log (turnQuery turn)).2 with
          | none => exact .failed
          | some after => exact .wait hresuming hmem hfor
        | some response =>
          dsimp only
          split
          · rename_i happroved
            obtain ⟨hresponse, hid⟩ := hanswer response rfl
            exact .approved hresuming ⟨approval, response, hmem, hfor,
              mem_turnData_of_mem_turnApprovals hresponse, hid, happroved⟩
          · exact .failed
  · rename_i hresuming
    exact .session (by simpa using hresuming)

theorem authorizeSession_spec {session : SessionId} :
    (authorizeSession log session call = .execute ∧
        Allowed log session call.request.functionName) ∨
      authorizeSession log session call = .ask := by
  unfold authorizeSession
  split
  · rename_i hallowed
    refine .inl ⟨rfl, ?_⟩
    obtain ⟨data, hdata, hallows⟩ := any_eq_true.mp hallowed
    obtain ⟨event, hevent, rfl⟩ := mem_map.mp hdata
    obtain ⟨hlog, haccepts⟩ := mem_filter.mp hevent
    refine ⟨event, hlog, ?_, ?_⟩
    · simp only [EventQuery.accepts, Bool.and_eq_true] at haccepts
      simpa using haccepts.1.1.1
    · unfold allowsTool at hallows
      split at hallows
      · rename_i response hresponse
        rw [Bool.and_eq_true, decide_eq_true_eq] at hallows
        exact ⟨response, hresponse, hallows⟩
      · cases hallows
  · exact .inr rfl

theorem authorizeAnswer_spec {approval : ApprovalRequest} {after : ℕ}
    (hrequested : .approvalRequested approval ∈ turnData log turn)
    (hfor : approval.isFor round call) :
    (authorizeAnswer log turn call approval after = .execute ∧ Approved log turn round call) ∨
      authorizeAnswer log turn call approval after = .wait approval after ∨
      ∃ value, authorizeAnswer log turn call approval after = .result value := by
  unfold authorizeAnswer
  split
  · rename_i hanswer
    obtain ⟨event, hevent, hturn, response, hdata, hid, happroved⟩ := watchAnswer_spec hanswer
    refine .inl ⟨rfl, approval, response, hrequested, hfor, ?_, hid, happroved⟩
    exact mem_turnData.mpr ⟨event, (mem_filter.mp hevent).1, hturn, hdata⟩
  · exact .inr (.inr ⟨_, rfl⟩)
  · exact .inr (.inr ⟨_, rfl⟩)
  · exact .inr (.inl rfl)

end Authorize

end Exo.BasicExecutor
