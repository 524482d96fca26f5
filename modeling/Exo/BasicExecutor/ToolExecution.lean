import Exo.BasicExecutor.Approvals
import Exo.BasicExecutor.Protocol

/-!
# Tools start at most once

Whether a tool has been started is not recorded.  A recovery resumes a round only if the first call
without a result has an approval without a response, and a call that has been started has no such
approval: it was let through by its policy or by the session without asking, or its approval is
answered.  So in every run in which the ids of a turn are distinct, no call is started twice, a call
is started only with permission, and only when exactly the calls before it have their results.
-/

namespace Exo.BasicExecutor.ToolExecution

open Library TurnCoordinator List

/-! ## One turn -/

/-- The ids the turn has asked approvals for. -/
def askedIds (data : List EventData) : List (Option ToolCallId) :=
  (asked data).map (·.toolCallId)

/-- The ids of the calls the executor has got to: those with a result and the next one. -/
def reached (rounds : Rounds) : List ToolCallId :=
  callIds (rounds.answered ++ rounds.pending.take 1)

/-- What holds between the log of a turn and the calls started for it. -/
structure TurnSafe (data : List EventData) (rounds : Rounds) (started : List ToolCallId) :
    Prop where
  distinct : (callIds rounds.calls).Nodup
  startedReached : ∀ toolCallId ∈ started, toolCallId ∈ reached rounds
  askedReached : ∀ approval ∈ asked data, ∃ toolCallId ∈ reached rounds,
    approval.toolCallId = some toolCallId
  askedOnce : (askedIds data).Nodup
  resolved : ∀ call rest, rounds.pending = call :: rest → call.toolCallId ∈ started →
    ∀ approval ∈ asked data, approval.toolCallId = some call.toolCallId →
      approval.approvalId ∈ answerIds data

section
variable (log : Log) (turn : TurnRecord)

/-- The call may start: its policy or the session allows it and nobody was asked, or it is
approved. -/
def Permitted (policy : PermissionPolicy) (round : ℕ)
    (call : ExecutableToolRequest) : Prop :=
  ((policy = .alwaysAllow ∨ Allowed log turn.sessionId call.request.functionName) ∧
      some call.toolCallId ∉ askedIds (turnData log turn)) ∨
    Approved log turn round call

/-- What is known of a call at a phase. -/
def PhaseClear (policy : PermissionPolicy)
    (started : List ToolCallId) (round : ℕ) (call : ExecutableToolRequest) : ToolPhase → Prop
  | .authorize resuming => call.toolCallId ∉ started ∧
      (resuming = false → some call.toolCallId ∉ askedIds (turnData log turn))
  | .session | .ask => call.toolCallId ∉ started ∧
      some call.toolCallId ∉ askedIds (turnData log turn)
  | .wait approval _ => call.toolCallId ∉ started ∧
      .approvalRequested approval ∈ turnData log turn ∧ approval.isFor round call
  | .execute => call.toolCallId ∉ started ∧ Permitted log turn policy round call
  | .running => True
  | .result _ => True

/-- What is known of the next call at a stage. -/
def StageClear (config : Config) (started : List ToolCallId)
    (pending : List ExecutableToolRequest) : Stage → Prop
  | .load | .approvals _ => ∀ call rest, pending = call :: rest → call.toolCallId ∉ started
  | .tool round call _ phase =>
    PhaseClear log turn (config.policy call.request.functionName) started round call phase
  | _ => True

end

variable {rounds : Rounds} {call : ExecutableToolRequest} {rest : List ExecutableToolRequest}
  {log : Log} {started : List ToolCallId} {execution : Execution} {other : TurnRecord}
  {s : Conversation}

theorem not_mem_answered (hdistinct : (callIds rounds.calls).Nodup)
    (hpending : rounds.pending = call :: rest) : call.toolCallId ∉ callIds rounds.answered := by
  intro hmem
  rw [Rounds.calls, ← Rounds.answered, hpending, callIds_append] at hdistinct
  exact (nodup_append.mp hdistinct).2.2 _ hmem _ (by simp [callIds]) rfl

theorem mem_askedIds {data : List EventData} {toolCallId : Option ToolCallId} :
    toolCallId ∈ askedIds data ↔ ∃ approval ∈ asked data, approval.toolCallId = toolCallId :=
  mem_map

section Turn
variable {data : List EventData} {rounds : Rounds} {started : List ToolCallId}
  (hsafe : TurnSafe data rounds started)
include hsafe

namespace TurnSafe

theorem approval_unique {first second : ApprovalRequest} (hfirst : first ∈ asked data)
    (hsecond : second ∈ asked data) (hid : second.toolCallId = first.toolCallId) :
    second = first :=
  inj_on_of_nodup_map hsafe.askedOnce hsecond hfirst hid

theorem fresh {toolCallId : ToolCallId} (hnew : toolCallId ∉ reached rounds) :
    toolCallId ∉ started ∧ some toolCallId ∉ askedIds data := by
  constructor
  · exact fun hstarted ↦ hnew (hsafe.startedReached toolCallId hstarted)
  · intro hasked
    obtain ⟨approval, happroval, hid⟩ := mem_askedIds.mp hasked
    obtain ⟨other, hmem, hsame⟩ := hsafe.askedReached approval happroval
    rw [hid] at hsame
    cases hsame
    exact hnew hmem

variable {call : ExecutableToolRequest} {rest : List ExecutableToolRequest}
  {approval : ApprovalRequest} {batch : List EventData}

/-- A call whose approval has no response has not been started. -/
theorem not_started (hpending : rounds.pending = call :: rest)
    (happroval : approval ∈ asked data) (hid : approval.toolCallId = some call.toolCallId)
    (hwaiting : approval.approvalId ∉ answerIds data) : call.toolCallId ∉ started :=
  fun hstarted ↦ hwaiting (hsafe.resolved call rest hpending hstarted approval happroval hid)

theorem extend (hasked : asked batch = []) : TurnSafe (data ++ batch) rounds started := by
  have hsame : asked (data ++ batch) = asked data := by
    rw [asked_append, hasked, append_nil]
  refine ⟨hsafe.distinct, hsafe.startedReached, ?_, ?_, ?_⟩
  · rw [hsame]
    exact hsafe.askedReached
  · unfold askedIds
    rw [hsame]
    exact hsafe.askedOnce
  · rw [hsame]
    intro call rest hpending hstarted approval happroval hid
    rw [answerIds_append]
    exact mem_append_left _ (hsafe.resolved call rest hpending hstarted approval happroval hid)

section
variable (hpending : rounds.pending = call :: rest)
include hpending

/-- The executor asks for the next call, which it has not started. -/
theorem ask (hstarted : call.toolCallId ∉ started) (hasked : some call.toolCallId ∉ askedIds data)
    (hid : approval.toolCallId = some call.toolCallId) :
    TurnSafe (data ++ [.approvalRequested approval]) rounds started := by
  have hafter : asked (data ++ [.approvalRequested approval]) =
      asked data ++ [approval] := asked_append ..
  refine ⟨hsafe.distinct, hsafe.startedReached, ?_, ?_, ?_⟩
  · intro other hother
    rw [hafter, mem_append, mem_singleton] at hother
    rcases hother with hold | rfl
    · exact hsafe.askedReached other hold
    · exact ⟨call.toolCallId, by simp [reached, hpending, callIds], hid⟩
  · unfold askedIds
    rw [hafter, map_append, map_singleton, hid]
    exact concat_eq_append ▸ hsafe.askedOnce.concat hasked
  · intro head tail hhead hmem
    rw [hpending] at hhead
    cases hhead
    exact absurd hmem hstarted

/-- The executor starts the next call, for which every approval is answered. -/
theorem start (hanswered : ∀ approval ∈ asked data,
      approval.toolCallId = some call.toolCallId → approval.approvalId ∈ answerIds data) :
    TurnSafe data rounds (started ++ [call.toolCallId]) := by
  refine ⟨hsafe.distinct, ?_, hsafe.askedReached, hsafe.askedOnce, ?_⟩
  · intro toolCallId hmem
    rcases mem_append.mp hmem with hold | hnew
    · exact hsafe.startedReached toolCallId hold
    · rw [mem_singleton.mp hnew]
      simp [reached, hpending, callIds]
  · intro head tail hhead _
    rw [hpending] at hhead
    cases hhead
    exact hanswered

theorem answer (value : Value) : TurnSafe (data ++ [.toolResult call.toolCallId value])
      { rounds with done := rounds.done ++ [call], pending := rest } started := by
  have hextended : TurnSafe (data ++ [.toolResult call.toolCallId value]) rounds started :=
    hsafe.extend rfl
  have hcalls : (⟨rounds.round, rounds.past, rounds.done ++ [call], rest⟩ : Rounds).calls =
      rounds.calls := by simp [Rounds.calls, hpending]
  have hreached {toolCallId : ToolCallId} (hmem : toolCallId ∈ reached rounds) :
      toolCallId ∈ callIds (rounds.past ++ (rounds.done ++ [call])) := by
    simpa [reached, hpending, Rounds.answered, callIds] using hmem
  have hlater {toolCallId : ToolCallId} (hmem : toolCallId ∈ reached rounds) :
      toolCallId ∈ reached { rounds with done := rounds.done ++ [call], pending := rest } := by
    unfold reached Rounds.answered
    rw [callIds_append]
    exact mem_append_left _ (hreached hmem)
  refine ⟨by rw [hcalls]; exact hsafe.distinct, ?_, ?_, hextended.askedOnce, ?_⟩
  · exact fun toolCallId hmem ↦ hlater (hsafe.startedReached toolCallId hmem)
  · intro approval happroval
    obtain ⟨toolCallId, hmem, hid⟩ := hextended.askedReached approval happroval
    exact ⟨toolCallId, hlater hmem, hid⟩
  · intro head tail hhead hstarted
    -- The next call is later than every call that has been started.
    have hnew := @not_mem_answered { rounds with done := rounds.done ++ [call], pending := rest }
      head tail (by rw [hcalls]; exact hsafe.distinct) hhead
    exact absurd (hreached (hsafe.startedReached _ hstarted)) hnew

end

/-- A round with calls whose ids are new. -/
theorem commit (hpending : rounds.pending = []) (hasked : asked batch = []) {round : ℕ}
    (hdistinct : (callIds (rounds.answered ++ call :: rest)).Nodup) :
    TurnSafe (data ++ batch) ⟨some round, rounds.answered, [], call :: rest⟩ started ∧
      call.toolCallId ∉ started ∧ some call.toolCallId ∉ askedIds data := by
  have hextended : TurnSafe (data ++ batch) rounds started := hsafe.extend hasked
  have hreached : reached rounds = callIds rounds.answered := by simp [reached, hpending]
  have hnew : call.toolCallId ∉ reached rounds := by
    rw [hreached]
    intro hmem
    rw [callIds_append] at hdistinct
    exact (nodup_append.mp hdistinct).2.2 _ hmem _ (by simp [callIds]) rfl
  have hlater {toolCallId : ToolCallId} (hmem : toolCallId ∈ reached rounds) :
      toolCallId ∈ reached ⟨some round, rounds.answered, [], call :: rest⟩ := by
    rw [hreached] at hmem
    rw [reached, callIds_append]
    exact mem_append_left _ (by simpa [Rounds.answered] using hmem)
  refine ⟨⟨?_, ?_, ?_, hextended.askedOnce, ?_⟩, hsafe.fresh hnew⟩
  · simpa [Rounds.calls] using hdistinct
  · exact fun toolCallId hmem ↦ hlater (hsafe.startedReached toolCallId hmem)
  · intro approval happroval
    obtain ⟨toolCallId, hmem, hid⟩ := hextended.askedReached approval happroval
    exact ⟨toolCallId, hlater hmem, hid⟩
  · intro head tail hhead hstarted
    cases hhead
    exact absurd hstarted (hsafe.fresh hnew).1

/-- The call behind the next one has not been got to. -/
theorem second_fresh {second : ExecutableToolRequest}
    (hpending : rounds.pending = call :: second :: rest) :
    second.toolCallId ∉ started ∧ some second.toolCallId ∉ askedIds data := by
  apply hsafe.fresh
  intro hmem
  have hcalls : rounds.calls = (rounds.answered ++ [call]) ++ second :: rest := by
    simp [Rounds.calls, Rounds.answered, hpending]
  have hdistinct := hsafe.distinct
  rw [hcalls, callIds_append] at hdistinct
  refine (nodup_append.mp hdistinct).2.2 second.toolCallId ?_ _ (by simp [callIds]) rfl
  simpa [reached, hpending] using hmem

end TurnSafe

end Turn

/-! ## Longer logs -/

section Longer
variable {log log' : Log} (hlog : ∀ event ∈ log, event ∈ log') {turn : TurnRecord}
include hlog

theorem mem_turnData_longer {data : EventData} (hmem : data ∈ turnData log turn) :
    data ∈ turnData log' turn := by
  obtain ⟨event, hevent, hspec⟩ := mem_turnData.mp hmem
  exact mem_turnData.mpr ⟨event, hlog event hevent, hspec⟩

variable {round : ℕ}

theorem approved_longer (happroved : Approved log turn round call) :
    Approved log' turn round call := by
  obtain ⟨approval, response, hrequested, hfor, hresponse, hid, hanswer⟩ := happroved
  exact ⟨approval, response, mem_turnData_longer hlog hrequested, hfor,
    mem_turnData_longer hlog hresponse, hid, hanswer⟩

theorem allowed_longer {session : SessionId} {toolName : String}
    (hallowed : Allowed log session toolName) : Allowed log' session toolName := by
  obtain ⟨event, hevent, hspec⟩ := hallowed
  exact ⟨event, hlog event hevent, hspec⟩

variable (hasked : asked (turnData log' turn) = asked (turnData log turn))
include hasked

theorem permitted_longer {policy : PermissionPolicy}
    (hpermitted : Permitted log turn policy round call) :
    Permitted log' turn policy round call := by
  rcases hpermitted with ⟨hallow, hnone⟩ | happroved
  · refine .inl ⟨hallow.imp_right (allowed_longer hlog), ?_⟩
    rw [askedIds, hasked]
    exact hnone
  · exact .inr (approved_longer hlog happroved)

/-- A longer log with the same requests for approval clears what it cleared before. -/
theorem stageClear_longer {config : Config} {pending : List ExecutableToolRequest} {stage : Stage}
    (hclear : StageClear log turn config started pending stage) :
    StageClear log' turn config started pending stage := by
  have hids : askedIds (turnData log' turn) = askedIds (turnData log turn) := by
    rw [askedIds, hasked, askedIds]
  cases stage with
  | tool round call rest phase =>
    cases phase with
    | authorize | session | ask =>
      simp only [StageClear, PhaseClear] at hclear ⊢
      rw [hids]
      exact hclear
    | wait approval after =>
      exact ⟨hclear.1, mem_turnData_longer hlog hclear.2.1, hclear.2.2⟩
    | execute => exact ⟨hclear.1, permitted_longer hlog hasked hclear.2⟩
    | running | result => trivial
  | _ => exact hclear

end Longer

/-! ## One step of an execution -/

variable {turn : TurnRecord} {round : ℕ} {move : Move} {start : Start}

/-- A recovery that goes on has not started the first call without a result. -/
theorem restored_not_started (hsole : SoleRecord log turn)
    (hrounds : roundsOf (turnData log turn) = some rounds)
    (hsafe : TurnSafe (turnData log turn) rounds started) {pending : Finset ToolCallId}
    (hrestore : restoreRecoveryTools log turn = .ok pending)
    (hpending : rounds.pending = call :: rest) : call.toolCallId ∉ started := by
  obtain ⟨-, hrecovered⟩ := recovered_of_roundsOf hrounds
  obtain ⟨happrovals, hresponses⟩ := recovered_approvals (turnData log turn) {}
  rw [← recoveredTools_eq hsole] at hrecovered happrovals hresponses
  -- With distinct ids the recovery looks at the first pending call, as the replay does.
  have hhead : rounds.retained = call :: rest.filter (fun other ↦
      other.toolCallId ∉ callIds rounds.done) := by
    rw [Rounds.retained, hpending, filter_cons_of_pos]
    have hnew := not_mem_answered hsafe.distinct hpending
    rw [Rounds.answered, callIds_append, mem_append, not_or] at hnew
    simpa using hnew.2
  rw [hhead, map_cons] at hrecovered
  unfold restoreRecoveryTools at hrestore
  dsimp only at hrestore
  rw [hrecovered] at hrestore
  dsimp only at hrestore
  split at hrestore
  · rename_i hawaits
    obtain ⟨approval, happroval, hspec⟩ := any_eq_true.mp hawaits
    obtain ⟨hid, -, -, -, hwaiting⟩ := of_decide_eq_true hspec
    rw [happrovals, nil_append] at happroval
    rw [hresponses, nil_append] at hwaiting
    exact hsafe.not_started hpending happroval hid hwaiting
  · cases hrestore

variable (log : Log) (execution : Execution) (rounds : Rounds) (started : List ToolCallId) in
/-- What a step of an execution does about starting tools and asking for them. -/
inductive Action : Move → Prop where
  | ended {batch : List EventData} (hneutral : ∀ event ∈ batch, event.neutral = true)
      (hasked : asked batch = []) :
      Action { batch := batch, stage := none }
  | quiet {stage : Stage} {restored : Option (Finset ToolCallId)} {cache : Option HistoryCacheEntry}
      (hclear : StageClear log execution.turn execution.config started rounds.pending stage) :
      Action { stage := some stage, restored := restored, cache := cache }
  | ask {round : ℕ} {call : ExecutableToolRequest} {rest : List ExecutableToolRequest}
      {approval : ApprovalRequest} {after : ℕ}
      (hstage : execution.stage = .tool round call rest .ask) (hfor : approval.isFor round call) :
      Action
        { batch := [.approvalRequested approval]
          stage := some (.tool round call rest (.wait approval after)) }
  | start {round : ℕ} {call : ExecutableToolRequest} {rest : List ExecutableToolRequest}
      (hstage : execution.stage = .tool round call rest .execute) :
      Action { stage := some (.tool round call rest .running), starts := true }
  | committed {round : ℕ} {response : ModelResponse} {call : ExecutableToolRequest}
      {rest : List ExecutableToolRequest} (hpending : rounds.pending = [])
      (hcalls : response.toolCalls = call :: rest) :
      Action
        { batch := .toolRound round :: modelResponseEvents response
          stage := some (.tool round call rest (.authorize false)) }
  | answered {round : ℕ} {call : ExecutableToolRequest} {rest : List ExecutableToolRequest}
      {value : Value} (hpending : rounds.pending = call :: rest) :
      Action { batch := [.toolResult call.toolCallId value], stage := some (nextCall round rest) }

theorem advanceTool_action {phase : ToolPhase}
    (hstage : execution.stage = .tool round call rest phase)
    (hpending : rounds.pending = call :: rest)
    (hclear : PhaseClear log execution.turn (execution.config.policy call.request.functionName)
      started round call phase) (choice : Choice) :
    Action log execution rounds started
      (advanceTool log execution.turn execution.config round call rest phase choice) := by
  have hquiet {phase' : ToolPhase} (hclear' : PhaseClear log execution.turn
      (execution.config.policy call.request.functionName) started round call phase') :
      Action log execution rounds started { stage := some (.tool round call rest phase') } :=
    .quiet hclear'
  have hfailed {value : Value} : Action log execution rounds started
      { stage := some (.tool round call rest (.result value)) } := hquiet trivial
  unfold advanceTool
  split
  · rename_i resuming
    apply hquiet
    obtain ⟨hstarted, hasked⟩ := hclear
    have hdecision := @authorize_spec log execution.turn round call
      (execution.config.policy call.request.functionName) resuming
    generalize authorize log execution.turn _ round call resuming = phase' at hdecision ⊢
    cases hdecision with
    | allowed hresuming hpolicy =>
      exact ⟨hstarted, .inl ⟨.inl hpolicy, hasked hresuming⟩⟩
    | approved hresuming happroved => exact ⟨hstarted, .inr happroved⟩
    | session hresuming => exact ⟨hstarted, hasked hresuming⟩
    | wait hresuming hrequested hfor => exact ⟨hstarted, hrequested, hfor⟩
    | failed => trivial
  · apply hquiet
    obtain ⟨hstarted, hasked⟩ := hclear
    rcases @authorizeSession_spec log call execution.turn.sessionId with
      ⟨hphase, hallowed⟩ | hphase
    · rw [hphase]
      exact ⟨hstarted, .inl ⟨.inr hallowed, hasked⟩⟩
    · rw [hphase]
      exact ⟨hstarted, hasked⟩
  · exact .ask hstage ⟨rfl, rfl, rfl⟩
  · rename_i approval after
    apply hquiet
    obtain ⟨hstarted, hrequested, hfor⟩ := hclear
    rcases @authorizeAnswer_spec log execution.turn round call approval after hrequested hfor with
      ⟨hphase, happroved⟩ | hphase | ⟨value, hphase⟩
    · rw [hphase]
      exact ⟨hstarted, .inr happroved⟩
    · rw [hphase]
      exact ⟨hstarted, hrequested, hfor⟩
    · rw [hphase]
      trivial
  · exact hfailed
  · exact hfailed
  · exact hfailed
  · exact hfailed
  · exact .start hstage
  · exact hfailed
  · exact hfailed
  · exact .answered hpending
  · exact hquiet hclear

theorem asked_modelResponseEvents (response : ModelResponse) :
    asked (modelResponseEvents response) = [] := by
  apply filterMap_eq_nil_iff.mpr
  intro event hevent
  rcases mem_modelResponseEvents hevent with rfl | ⟨call, -, rfl⟩ <;> rfl

theorem advance_action {cache : Option HistoryCacheEntry} (hsole : SoleRecord log execution.turn)
    (hrounds : roundsOf (turnData log execution.turn) = some rounds)
    (hat : execution.stage.At rounds)
    (hsafe : TurnSafe (turnData log execution.turn) rounds started)
    (hclear : StageClear log execution.turn execution.config started rounds.pending execution.stage)
    (choice : Choice) :
    Action log execution rounds started (advance log cache execution choice) := by
  have hnone : Action log execution rounds started { stage := none } := .ended (by simp) rfl
  unfold advance
  split
  · rename_i hstage
    split
    · rename_i pending hrestore
      apply Action.quiet
      exact fun call rest hpending ↦ restored_not_started hsole hrounds hsafe hrestore hpending
    · exact hnone
  · rename_i hstage
    rw [hstage] at hclear
    split
    · exact .quiet hclear
    · exact hnone
  · rename_i replay hstage
    rw [hstage] at hat hclear
    cases hat
    cases hresume : resumeProgress execution.turn ⟨rounds.round, rounds.pending⟩
        (turnApprovals log execution.turn) with
    | error message => exact hnone
    | ok progress =>
      rcases resumeProgress_ok hresume with
        ⟨hpending, rfl⟩ | ⟨first, rest, round, hpending, hround, rfl⟩
      · exact .quiet trivial
      · exact .quiet ⟨hclear first rest hpending, by simp⟩
  · split
    · exact hnone
    · exact .quiet trivial
  · rename_i round prompt response hstage
    rw [hstage] at hat
    dsimp only
    split
    · rename_i hcalls
      rw [collectToolRequests_modelResponseEvents] at hcalls
      refine .ended (neutral_of_no_calls hcalls) ?_
      rw [asked_append, asked_modelResponseEvents]
      rfl
    · rename_i call rest hcalls
      rw [collectToolRequests_modelResponseEvents] at hcalls
      exact .committed hat.1 hcalls
  · rename_i round call rest phase choice hstage
    rw [hstage] at hat hclear
    exact advanceTool_action hstage hat.2 hclear _
  · exact .quiet hclear

/-! ## Started tools -/

/-- What the log said when the tool was started: its policy, the answer to its approval or the
session lets it through, its round is the last one, and exactly the calls requested before it have
their results. -/
structure Justified (log : Log) (start : Start) : Prop where
  permitted : start.policy = .alwaysAllow ∨ Approved log start.turn start.round start.call ∨
    Allowed log start.turn.sessionId start.call.request.functionName
  lastRound : (roundNumbers (turnData log start.turn)).getLast? = some start.round
  ordered : ∃ before after,
    collectToolRequests (turnData log start.turn) = before ++ start.call :: after ∧
      resultIds (turnData log start.turn) = callIds before

/-- The ids of the calls of the turn that have been started, once for each start. -/
def startedIds (starts : List Start) (turn : TurnRecord) : List ToolCallId :=
  (starts.filter (fun start ↦ start.turn = turn)).map (·.call.toolCallId)

/-- The tool a step starts. -/
def newStarts (position : ℕ) (execution : Execution) (move : Move) : List Start :=
  match move.starts, execution.stage with
  | true, .tool round call _ _ => [⟨execution.turn, round, call,
      execution.config.policy call.request.functionName, position⟩]
  | _, _ => []

section
variable (s : Conversation)

theorem apply_starts (execution : Execution) (move : Move) :
    (s.apply execution move).starts = s.starts ++ newStarts s.log.length execution move := by
  simp only [Conversation.apply, newStarts]
  cases move.starts with
  | false => exact (append_nil _).symm
  | true =>
    cases execution.stage with
    | tool round call rest phase => rfl
    | _ => exact (append_nil _).symm

theorem turn_of_mem_newStarts {position : ℕ} (hstart : start ∈ newStarts position execution move) :
    start.turn = execution.turn := by
  unfold newStarts at hstart
  split at hstart
  · rw [mem_singleton.mp hstart]
  · cases hstart

theorem startedIds_apply_self (execution : Execution) (move : Move) :
    startedIds (s.apply execution move).starts execution.turn =
      startedIds s.starts execution.turn ++
        (newStarts s.log.length execution move).map (·.call.toolCallId) := by
  have hall : (newStarts s.log.length execution move).filter (fun start ↦
      start.turn = execution.turn) = newStarts s.log.length execution move := by
    apply filter_eq_self.mpr
    intro start hstart
    simpa using turn_of_mem_newStarts hstart
  rw [apply_starts, startedIds, filter_append, map_append, hall, startedIds]

theorem startedIds_apply_other (move : Move) (hother : execution.turn ≠ other) :
    startedIds (s.apply execution move).starts other = startedIds s.starts other := by
  have hnone : (newStarts s.log.length execution move).filter (fun start ↦
      start.turn = other) = [] := by
    apply filter_eq_nil_iff.mpr
    intro start hstart
    rw [turn_of_mem_newStarts hstart]
    simpa using hother
  rw [apply_starts, startedIds, filter_append, hnone, append_nil, startedIds]

end

/-- A permitted call has no approval without a response. -/
theorem answered_of_permitted (hsafe : TurnSafe (turnData log turn) rounds started)
    {policy : PermissionPolicy} (hpermitted : Permitted log turn policy round call) :
    ∀ approval ∈ asked (turnData log turn), approval.toolCallId = some call.toolCallId →
      approval.approvalId ∈ answerIds (turnData log turn) := by
  intro approval happroval hid
  rcases hpermitted with ⟨-, hnone⟩ | ⟨found, response, hrequested, hfor, hresponse, hsame, -⟩
  · exact absurd (mem_askedIds.mpr ⟨approval, happroval, hid⟩) hnone
  · have hunique := hsafe.approval_unique (mem_asked.mpr hrequested) happroval
      (hid.trans hfor.1.symm)
    rw [hunique, ← hsame]
    exact mem_answerIds hresponse

section Step
variable {log : Log} {execution : Execution} {rounds : Rounds} {started : List ToolCallId}
  (hat : execution.stage.At rounds)
  (hclear : StageClear log execution.turn execution.config started rounds.pending execution.stage)
include hat hclear

variable {move : Move}

/-- The tool a step starts has not been started before, and its start is justified. -/
theorem Action.justified (hrounds : roundsOf (turnData log execution.turn) = some rounds)
    (haction : Action log execution rounds started move) :
    ∀ start ∈ newStarts log.length execution move,
      start.call.toolCallId ∉ started ∧ start.position = log.length ∧ Justified log start := by
  cases haction with
  | ended | quiet | ask | committed | answered =>
    intro start hstart
    cases hstart
  | @start round call rest hstage =>
    intro start hstart
    simp only [newStarts, hstage, mem_singleton] at hstart
    rw [hstage] at hat hclear
    obtain ⟨hnew, hpermitted⟩ := hclear
    obtain ⟨hcalls, hresults, hround⟩ := lists_of_roundsOf hrounds
    rw [hstart]
    refine ⟨hnew, rfl, ⟨?_, ?_, rounds.answered, rest, ?_, hresults⟩⟩
    · rcases hpermitted with ⟨hpolicy | hallowed, -⟩ | happroved
      · exact .inl hpolicy
      · exact .inr (.inr hallowed)
      · exact .inr (.inl happroved)
    · exact hround.trans hat.1
    · rw [hcalls, Rounds.calls, ← Rounds.answered, hat.2]

/-- The turn stays safe, and what the next stage needs is known. -/
theorem Action.after (hsafe : TurnSafe (turnData log execution.turn) rounds started)
    (haction : Action log execution rounds started move) {after : Rounds}
    (hafter : move.batch.foldlM Rounds.step rounds = some after)
    (hdistinct : (callIds after.calls).Nodup) :
    let started' := started ++ (newStarts log.length execution move).map (·.call.toolCallId)
    let log' := append log (some execution.turn) move.batch
    TurnSafe (turnData log' execution.turn) after started' ∧
      ∀ stage, move.stage = some stage →
        StageClear log' execution.turn execution.config started' after.pending stage := by
  intro started' log'
  have hdata : turnData log' execution.turn = turnData log execution.turn ++ move.batch :=
    turnData_append_self ..
  have hlonger : ∀ event ∈ log, event ∈ log' := fun _ hevent ↦ mem_append_left _ hevent
  rw [hdata]
  cases haction with
  | ended hneutral hasked =>
    rw [rounds.foldlM_neutral hneutral] at hafter
    cases hafter
    refine ⟨?_, by simp⟩
    simpa [started', newStarts] using hsafe.extend hasked
  | quiet hclear' =>
    cases hafter
    simp only [started', newStarts, map_nil, append_nil]
    refine ⟨hsafe, ?_⟩
    rintro stage ⟨⟩
    refine stageClear_longer hlonger ?_ hclear'
    rw [hdata, append_nil]
  | @ask round call rest approval after hstage hfor =>
    cases hafter
    simp only [started', newStarts, map_nil, append_nil]
    rw [hstage] at hat hclear
    refine ⟨hsafe.ask hat.2 hclear.1 hclear.2 hfor.1, ?_⟩
    rintro stage ⟨⟩
    refine ⟨hclear.1, ?_, hfor⟩
    rw [hdata]
    simp
  | @start round call rest hstage =>
    cases hafter
    simp only [started', newStarts, hstage, map_cons, map_nil, append_nil]
    rw [hstage] at hat hclear
    refine ⟨hsafe.start hat.2 (answered_of_permitted hsafe hclear.2), ?_⟩
    rintro stage ⟨⟩
    trivial
  | @committed round response call rest hpending hcalls =>
    rw [foldlM_committed hpending, hcalls] at hafter
    cases hafter
    simp only [started', newStarts, map_nil, append_nil]
    have hasked : asked (.toolRound round :: modelResponseEvents response) = [] :=
      asked_modelResponseEvents response
    obtain ⟨hcommitted, hstarted, hnone⟩ := hsafe.commit hpending hasked
      (by simpa [Rounds.calls] using hdistinct)
    refine ⟨hcommitted, ?_⟩
    rintro stage ⟨⟩
    refine ⟨hstarted, fun _ ↦ ?_⟩
    rw [hdata, askedIds, asked_append, hasked, append_nil]
    exact hnone
  | @answered round call rest value hpending =>
    rw [foldlM_answered hpending] at hafter
    cases hafter
    simp only [started', newStarts, map_nil, append_nil]
    refine ⟨hsafe.answer hpending value, ?_⟩
    rintro stage ⟨⟩
    cases rest with
    | nil => trivial
    | cons second rest =>
      obtain ⟨hstarted, hnone⟩ := hsafe.second_fresh hpending
      refine ⟨hstarted, fun _ ↦ ?_⟩
      rw [hdata, askedIds, asked_append]
      simpa [asked, askedIds] using hnone

end Step

/-! ## Runs -/

/-- The tool calls of the turn have distinct ids. -/
def Distinct (log : Log) (turn : TurnRecord) : Prop :=
  (callIds (collectToolRequests (turnData log turn))).Nodup

instance (log : Log) (turn : TurnRecord) : Decidable (Distinct log turn) :=
  inferInstanceAs (Decidable (List.Nodup _))

theorem Distinct.of_append {turn : Option TurnRecord} {batch : List EventData}
    (hdistinct : Distinct (append log turn batch) other) : Distinct log other := by
  unfold Distinct at hdistinct ⊢
  rw [turnData_append] at hdistinct
  split at hdistinct
  · rw [collectToolRequests_append, callIds_append] at hdistinct
    exact (nodup_append.mp hdistinct).1
  · exact hdistinct

/-- A turn none of whose tools has been started twice, and what keeps it so. -/
structure Safe (s : Conversation) (turn : TurnRecord) : Prop where
  safe : ∀ rounds, roundsOf (turnData s.log turn) = some rounds →
    TurnSafe (turnData s.log turn) rounds (startedIds s.starts turn)
  clear : ∀ execution, s.execution = some execution → execution.turn = turn →
    ∀ rounds, roundsOf (turnData s.log turn) = some rounds →
      StageClear s.log turn execution.config (startedIds s.starts turn) rounds.pending
        execution.stage
  unique : (startedIds s.starts turn).Nodup
  justified : ∀ start ∈ s.starts, start.turn = turn →
    start.position ≤ s.log.length ∧ Justified (s.log.take start.position) start

/-- Every turn whose ids are distinct so far is safe. -/
structure Once (s : Conversation) : Prop where
  follows : Follows s
  safe : ∀ turn, Distinct s.log turn → Safe s turn

theorem justified_append (turn : Option TurnRecord) (batch : List EventData)
    (hjustified : start.position ≤ log.length ∧ Justified (log.take start.position) start) :
    start.position ≤ (append log turn batch).length ∧
      Justified ((append log turn batch).take start.position) start := by
  rw [take_append_log log turn batch hjustified.1]
  exact ⟨hjustified.1.trans (length_le_append log turn batch), hjustified.2⟩

/-- Steps that start and ask for nothing: the execution stays, ends or is a new one. -/
theorem Once.of_neutral {s' : Conversation} (hs : Once s) (hfollows : Follows s')
    {turn : Option TurnRecord} {batch : List EventData} (hlog : s'.log = append s.log turn batch)
    (hneutral : ∀ event ∈ batch, event.neutral = true) (hasked : asked batch = [])
    (hstarts : s'.starts = s.starts) (hexecution : ∀ execution, s'.execution = some execution →
      s.execution = some execution ∨ execution.stage = .restore ∨ execution.stage = .round 0) :
    Once s' := by
  refine ⟨hfollows, ?_⟩
  intro other hdistinct
  rw [hlog] at hdistinct
  have hsafe := hs.safe other hdistinct.of_append
  have hsame : asked (turnData (append s.log turn batch) other) = asked (turnData s.log other) := by
    rw [turnData_append]
    split
    · rw [asked_append, hasked, append_nil]
    · rfl
  refine ⟨?_, ?_, ?_, ?_⟩
  · intro rounds hrounds
    rw [hlog] at hrounds ⊢
    have hbefore := hsafe.safe rounds (roundsOf_before hs.follows hneutral hrounds)
    rw [hstarts, turnData_append]
    split
    · exact hbefore.extend hasked
    · exact hbefore
  · intro execution hrunning hturn rounds hrounds
    rw [hlog] at hrounds ⊢
    rw [hstarts]
    rcases hexecution execution hrunning with hkept | hnew | hnew
    · apply stageClear_longer (fun _ hevent ↦ mem_append_left _ hevent) hsame
      exact hsafe.clear execution hkept hturn rounds (roundsOf_before hs.follows hneutral hrounds)
    · rw [hnew]
      trivial
    · rw [hnew]
      trivial
  · rw [hstarts]
    exact hsafe.unique
  · intro start hstart hturn
    rw [hstarts] at hstart
    rw [hlog]
    exact justified_append turn batch (hsafe.justified start hstart hturn)

theorem Safe.apply_self (hsafe : Safe s execution.turn) (hexecution : s.execution = some execution)
    (hrounds : roundsOf (turnData s.log execution.turn) = some rounds)
    (hat : execution.stage.At rounds)
    (haction : Action s.log execution rounds (startedIds s.starts execution.turn) move)
    {after : Rounds} (hafter : move.batch.foldlM Rounds.step rounds = some after)
    (hdistinct : Distinct (s.apply execution move).log execution.turn) :
    Safe (s.apply execution move) execution.turn := by
  have hclear := hsafe.clear execution hexecution rfl rounds hrounds
  have hself := roundsOf_apply hrounds hafter
  have hcalls : (callIds after.calls).Nodup := by
    rw [← (lists_of_roundsOf hself).1]
    exact hdistinct
  have hjustified := haction.justified hat hclear hrounds
  obtain ⟨hsafe', hclear'⟩ := haction.after hat hclear (hsafe.safe rounds hrounds) hafter hcalls
  refine ⟨?_, ?_, ?_, ?_⟩
  · intro rounds' hrounds'
    cases hself.symm.trans hrounds'
    rw [startedIds_apply_self]
    exact hsafe'
  · intro execution' hrunning _ rounds' hrounds'
    cases hself.symm.trans hrounds'
    obtain ⟨stage, hstage, rfl⟩ := Option.map_eq_some_iff.mp hrunning
    rw [startedIds_apply_self]
    exact hclear' stage hstage
  · rw [startedIds_apply_self, nodup_append]
    refine ⟨hsafe.unique, ?_, ?_⟩
    · unfold newStarts
      split <;> simp
    · intro old hold new hnew heq
      obtain ⟨start, hstart, rfl⟩ := mem_map.mp hnew
      exact (hjustified start hstart).1 (heq ▸ hold)
  · intro start hstart hturn
    rw [apply_starts, mem_append] at hstart
    apply justified_append
    rcases hstart with hold | hnew
    · exact hsafe.justified start hold hturn
    · obtain ⟨-, hposition, hjust⟩ := hjustified start hnew
      rw [hposition, take_length]
      exact ⟨le_rfl, hjust⟩

theorem Safe.apply_other (hsafe : Safe s other) (hother : execution.turn ≠ other) (move : Move) :
    Safe (s.apply execution move) other := by
  have hdata : turnData (s.apply execution move).log other = turnData s.log other :=
    turnData_append_other s.log move.batch (by simpa using hother)
  refine ⟨?_, ?_, ?_, ?_⟩
  · rw [hdata, startedIds_apply_other s move hother]
    exact hsafe.safe
  · intro execution' hrunning hturn
    obtain ⟨stage, -, rfl⟩ := Option.map_eq_some_iff.mp hrunning
    exact absurd hturn hother
  · rw [startedIds_apply_other s move hother]
    exact hsafe.unique
  · intro start hstart hturn
    rw [apply_starts, mem_append] at hstart
    rcases hstart with hold | hnew
    · exact justified_append _ _ (hsafe.justified start hold hturn)
    · exact absurd ((turn_of_mem_newStarts hnew).symm.trans hturn) hother

theorem Once.advance (hs : Once s) (hexecution : s.execution = some execution) (choice : Choice) :
    Once (s.apply execution (advance s.log s.cache execution choice)) := by
  obtain ⟨rounds, hrounds⟩ := hs.follows.accepted execution.turn
  have hat := hs.follows.running execution hexecution rounds hrounds
  have heffect := @advance_effect s.log execution rounds s.cache hrounds hat choice
  obtain ⟨after, hafter, -⟩ := heffect.rounds_after
  refine ⟨hs.follows.apply hexecution hrounds heffect, ?_⟩
  intro other hdistinct
  have hsafe := hs.safe other hdistinct.of_append
  by_cases hturn : execution.turn = other
  · subst hturn
    have hsole := hs.follows.coherent.sole (hs.follows.begun execution hexecution)
    have haction := @advance_action rounds s.log _ execution s.cache hsole hrounds hat
      (hsafe.safe rounds hrounds) (hsafe.clear execution hexecution rfl rounds hrounds) choice
    exact hsafe.apply_self hexecution hrounds hat haction hafter hdistinct
  · exact hsafe.apply_other hturn _

theorem asked_beginEvents (input : List Message) : asked (beginEvents input) = [] := by
  unfold beginEvents
  split <;> rfl

theorem asked_concludes {data : EventData} (hconcludes : data.concludes = true) :
    asked [data] = [] := by
  cases data with
  | error | turnCompleted | turnEnded => rfl
  | _ => cases hconcludes

theorem Once.step (hs : Once s) {label : Label} (henabled : s.enabled label) :
    Once (s.next label) := by
  have hfollows := hs.follows.step henabled
  -- The steps that append nothing.
  have hquiet {s' : Conversation} (hfollows : Follows s') (hlog : s'.log = s.log)
      (hstarts : s'.starts = s.starts)
      (hexecution : ∀ execution, s'.execution = some execution →
        s.execution = some execution ∨ execution.stage = .restore ∨ execution.stage = .round 0) :
      Once s' :=
    @Once.of_neutral s s' hs hfollows none [] (by simp [hlog, append]) (by simp) rfl hstarts
      hexecution
  cases label with
  | begin turn input config =>
    refine hs.of_neutral hfollows rfl (beginEvents_neutral input) (asked_beginEvents input) rfl ?_
    rintro execution ⟨⟩
    exact .inr (.inr rfl)
  | recover turn config =>
    refine hquiet hfollows rfl rfl ?_
    rintro execution ⟨⟩
    exact .inr (.inl rfl)
  | step choice =>
    simp only [Conversation.next]
    split
    · rename_i execution hexecution
      exact hs.advance hexecution choice
    · exact hs
  | stop | suspend | crash => exact hquiet hfollows rfl rfl (by simp [Conversation.next])
  | respond turn body =>
    revert hfollows
    simp only [Conversation.next]
    split
    · exact fun hfollows ↦ hquiet hfollows rfl rfl (fun _ hexecution ↦ .inl hexecution)
    · exact fun _ ↦ hs
  | deliver index =>
    revert hfollows
    simp only [Conversation.next]
    split
    · exact fun hfollows ↦ hs.of_neutral hfollows rfl (by simp [EventData.neutral]) rfl rfl
        (fun _ hexecution ↦ .inl hexecution)
    · exact fun _ ↦ hs
  | conclude turn data =>
    have hneutral := concludes_neutral henabled.2.2.1
    exact hs.of_neutral hfollows rfl (by simpa using hneutral) (asked_concludes henabled.2.2.1) rfl
      (fun _ hexecution ↦ .inl hexecution)
  | note turn kind =>
    exact hs.of_neutral hfollows rfl (by simp [EventData.neutral]) rfl rfl
      (fun _ hexecution ↦ .inl hexecution)

theorem once_init : Once {} := by
  refine ⟨follows_init, ?_⟩
  intro turn _
  refine ⟨?_, by simp, nodup_nil, by simp⟩
  rintro rounds ⟨⟩
  exact ⟨nodup_nil, by simp [startedIds], by simp [asked, turnData], nodup_nil, by simp⟩

/-- **Tools start at most once.**  In every run, with any models, policies, approvals, crashes,
suspensions and recoveries, for every turn whose tool calls have distinct ids: no call is started
twice, and every start was permitted by the log at that point and found exactly the calls before it
with their results. -/
theorem tools_start_at_most_once (labels : List Label)
    (hrun : Conversation.system.Admits {} labels) :
    let s := Conversation.system.exec {} labels
    ∀ turn, Distinct s.log turn →
      (startedIds s.starts turn).Nodup ∧
      ∀ start ∈ s.starts, start.turn = turn →
        start.position ≤ s.log.length ∧ Justified (s.log.take start.position) start := by
  intro s turn hdistinct
  have honce : Once s :=
    System.invariant Once (fun state label hstate henabled ↦ hstate.step henabled) once_init hrun
  have hsafe := honce.safe turn hdistinct
  exact ⟨hsafe.unique, hsafe.justified⟩

/-- A crash while the first of two calls waits for its approval: the recovered turn starts it once
it is approved, and the second one after the result of the first. -/
theorem tools_start_at_most_once_after_crash :
    let config : Config := { policy := fun _ ↦ .alwaysAsk }
    let calls : List ExecutableToolRequest :=
      [⟨"a", ⟨"read", "", none⟩⟩, ⟨"b", ⟨"read", "", none⟩⟩]
    let labels : List Label := [
      .begin ⟨1, 9⟩ [.user "go"] config,
      .step .proceed,
      .step (.complete ⟨[], calls, false⟩),
      .step .proceed,
      .step .proceed,
      .step (.ask "x"),
      .crash,
      .recover ⟨1, 9⟩ config,
      .step .proceed,
      .step .proceed,
      .step .proceed,
      .step .proceed,
      .respond ⟨1, 9⟩ ⟨"x", true, true⟩,
      .deliver 0,
      .step .proceed,
      .step .proceed,
      .step (.output (.ok (.json "1"))),
      .step .proceed,
      .step .proceed,
      .step .proceed,
      .step .proceed]
    let s := Conversation.system.exec {} labels
    startedIds s.starts ⟨1, 9⟩ = ["a", "b"] ∧ (startedIds s.starts ⟨1, 9⟩).Nodup ∧
      ∀ start ∈ s.starts, Justified (s.log.take start.position) start := by
  intro config calls labels s
  obtain ⟨hunique, hjustified⟩ := tools_start_at_most_once labels (by decide +kernel) ⟨1, 9⟩
    (by decide +kernel)
  have hturns : ∀ start ∈ s.starts, start.turn = ⟨1, 9⟩ := by decide +kernel
  refine ⟨by decide +kernel, hunique, ?_⟩
  exact fun start hstart ↦ (hjustified start hstart (hturns start hstart)).2

end Exo.BasicExecutor.ToolExecution
