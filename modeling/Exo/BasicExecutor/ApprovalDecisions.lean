import Exo.BasicExecutor.OpenCalls
import Exo.BasicExecutor.PromptHistory

/-!
# An approval is decided once

With the lock, the journal of every turn is orderly in every interleaving of the endpoint with the
executor, crashes and recoveries.  So the one response to an approval is what the waiting
`authorize` and every resumed one decide by: the wait starts behind a point at which there was no
response, and a call asks only before anything has been decided about it.
-/

namespace Exo.BasicExecutor.ApprovalDecisions

open Library TurnCoordinator PromptHistory List

/-! ## Runs -/

/-- The journals are orderly, at most one response is on its way, and all that has been decided is
settled and agrees. -/
structure Decided (decisions : List ApprovalDecision) (s : Conversation) : Prop where
  follows : Follows s
  numbered : Numbered s.log
  orderly : ∀ turn, Orderly (turnData s.log turn)
  serial : s.responders.length ≤ 1
  responders : ∀ responder ∈ s.responders,
    Admissible (turnData s.log responder.1) (.approvalResponse responder.2)
  opened : ∀ execution, s.execution = some execution →
    StageOpen decisions s.log execution.turn execution.stage
  settled : ∀ decision ∈ decisions, Settled (turnData s.log decision.turn) decision
  agree : ∀ first ∈ decisions, ∀ second ∈ decisions, first.SameCall second →
    first.approvalId = second.approvalId ∧ first.approved = second.approved

section Steps
variable {decisions : List ApprovalDecision} {s s' : Conversation} (hs : Decided decisions s)
include hs

variable {batch : List EventData} {rounds : Rounds} {rest : List ExecutableToolRequest}

namespace Decided

theorem later (hfollows : Follows s') {turn : Option TurnRecord}
    (hlog : s'.log = append s.log turn batch)
    (horderly : ∀ record, turn = some record → Orderly (turnData s.log record ++ batch))
    (hsettled : ∀ decision ∈ decisions, turn = some decision.turn →
      Settled (turnData s.log decision.turn ++ batch) decision) (hserial : s'.responders.length ≤ 1)
    (hresponders : ∀ responder ∈ s'.responders,
      Admissible (turnData s'.log responder.1) (.approvalResponse responder.2))
    (hopened : ∀ execution, s'.execution = some execution →
      StageOpen decisions s'.log execution.turn execution.stage) : Decided decisions s' := by
  refine ⟨hfollows, ?_, ?_, hserial, hresponders, hopened, ?_, hs.agree⟩
  · rw [hlog]
    exact hs.numbered.append turn batch
  · intro other
    rw [hlog, turnData_append]
    split
    · rename_i hturn
      exact horderly other hturn
    · exact hs.orderly other
  · intro decision hdecision
    rw [hlog, turnData_append]
    split
    · rename_i hturn
      exact hsettled decision hdecision hturn
    · exact hs.settled decision hdecision

/-- What is on its way is still admissible when nothing has been answered. -/
theorem responders_later {turn : Option TurnRecord} (hbatch : answerIds batch = [])
    {responder : TurnRecord × ApprovalResponse} (hresponder : responder ∈ s.responders) :
    Admissible (turnData (append s.log turn batch) responder.1)
      (.approvalResponse responder.2) := by
  rw [turnData_append]
  split
  · exact (hs.responders responder hresponder).append hbatch
  · exact hs.responders responder hresponder

/-- A step that appends events which are neither tool events nor about approvals. -/
theorem silent (hfollows : Follows s') {turn : Option TurnRecord}
    {batch : List EventData} (hlog : s'.log = append s.log turn batch)
    (hneutral : ∀ event ∈ batch, event.neutral = true)
    (hsilent : ∀ event ∈ batch, event.silent = true) (hresponders : s'.responders = s.responders)
    (hopened : ∀ execution, s'.execution = some execution →
      StageOpen decisions s.log execution.turn execution.stage) : Decided decisions s' := by
  obtain ⟨hasked, hanswers⟩ := lists_of_silent hsilent
  refine hs.later hfollows hlog ?_ ?_ (by rw [hresponders]; exact hs.serial) ?_ ?_
  · exact fun record _ ↦ (hs.orderly record).append_silent hsilent
  · intro decision hdecision _
    obtain ⟨rounds, hrounds⟩ := hs.follows.accepted decision.turn
    exact (hs.settled decision hdecision).append_neutral hrounds hneutral hasked
  · rw [hresponders, hlog]
    exact fun responder hresponder ↦ hs.responders_later hanswers hresponder
  · rw [hlog]
    exact fun execution hexecution ↦ (hopened execution hexecution).append turn hneutral hasked

theorem quiet (hfollows : Follows s') (hlog : s'.log = s.log)
    (hresponders : s'.responders = s.responders)
    (hopened : ∀ execution, s'.execution = some execution →
      StageOpen decisions s.log execution.turn execution.stage) : Decided decisions s' :=
  @silent decisions s s' hs hfollows none [] (by simp [hlog, append]) (by simp) (by simp)
    hresponders hopened

variable {turn : TurnRecord} {round : ℕ} {call : ExecutableToolRequest} {approval : ApprovalRequest}

/-- The call of a decision is the one the execution works on, until it has a result. -/
theorem same_call {decision : ApprovalDecision} (hdecision : decision ∈ decisions)
    (hindex : decision.index = resolved s.log decision.turn)
    (hrounds : roundsOf (turnData s.log decision.turn) = some rounds)
    (hat : rounds.round = some round ∧ rounds.pending = call :: rest) :
    decision.round = round ∧ decision.call = call := by
  obtain ⟨hround, rest', hpending⟩ :=
    (hs.settled decision hdecision).current hindex.symm rounds hrounds
  rw [hat.1] at hround
  rw [hat.2] at hpending
  cases hround
  cases hpending
  exact ⟨rfl, rfl⟩

/-- Nothing has been decided about a call whose saved approval has no response. -/
theorem undecided_of_unanswered (hrounds : roundsOf (turnData s.log turn) = some rounds)
    (hat : rounds.round = some round ∧ rounds.pending = call :: rest)
    (hfound : existingApproval round call (turnData s.log turn) = .ok (some ⟨approval, none⟩)) :
    Undecided decisions s.log turn := by
  rintro decision hdecision rfl hindex
  obtain ⟨rfl, rfl⟩ := hs.same_call hdecision hindex hrounds hat
  have hsettled := hs.settled decision hdecision
  rcases hsettled.replayed hindex.symm with ⟨message, herror⟩ | ⟨approval', answer, hsame, hid⟩
  · rw [hfound] at herror
    cases herror
  · rw [hfound] at hsame
    cases hsame
    obtain ⟨-, response, -, -, -, hresponse, hanswers, -⟩ := hsettled.recorded
    apply (hs.orderly decision.turn).unanswered hfound
    rw [hid, ← hanswers]
    exact mem_answerIds hresponse

/-- A resumed call waits behind the last approval event of its turn. -/
theorem awaits_resumed {after : ℕ}
    (hfound : existingApproval round call (turnData s.log turn) = .ok (some ⟨approval, none⟩))
    (hafter : (approvalEvents s.log (turnQuery turn)).2 = some after) :
    Awaits s.log turn round call approval after := by
  obtain ⟨hrequested, hfor, -⟩ := existingApproval_spec hfound
  refine ⟨hrequested, hfor, .inr ⟨none, hfound⟩, ?_, ?_⟩
  · obtain ⟨event, hlast, rfl⟩ := Option.map_eq_some_iff.mp hafter
    exact hs.numbered.id_lt_length (mem_filter.mp (mem_of_getLast? hlast)).1
  · intro event hevent hturn response hdata hid
    apply absurd _ ((hs.orderly turn).unanswered hfound)
    rw [← hid]
    exact mem_answerIds (mem_turnData.mpr ⟨event, hevent, hturn, hdata⟩)

/-- A call that asks waits behind its request. -/
theorem awaits_asked (hfor : approval.isFor round call)
    (hfresh : approval.approvalId ∉ approvalIds (turnData s.log turn)) :
    Awaits (append s.log (some turn) [.approvalRequested approval]) turn round call approval
      s.log.length := by
  refine ⟨?_, hfor, ?_, by simp [append], ?_⟩
  · simp
  · rw [turnData_append_self]
    rcases existingApproval_ask hfor with herror | hfound
    · exact .inl herror
    · exact .inr ⟨none, hfound⟩
  · intro event hevent hturn response hdata hid
    rcases mem_append_log hevent with hold | ⟨-, hnew⟩
    · apply absurd _ hfresh
      rw [← hid]
      apply (hs.orderly turn).asked_of_answered
      exact mem_answerIds (mem_turnData.mpr ⟨event, hold, hturn, hdata⟩)
    · rw [hdata] at hnew
      cases mem_singleton.mp hnew

end Decided

end Steps

section Executions
variable {decisions : List ApprovalDecision} {s : Conversation} (hs : Decided decisions s)
  {execution : Execution}
include hs

variable {move : Move} {rounds : Rounds}

/-- A step of the execution behind which none of the decisions is about the next call. -/
theorem Decided.passed (hfollows : Follows (s.apply execution move))
    (horderly : Orderly (turnData s.log execution.turn ++ move.batch))
    (hanswers : answerIds move.batch = [])
    (hundecided : Undecided decisions (append s.log (some execution.turn) move.batch)
      execution.turn) (hopened : ∀ stage, move.stage = some stage →
      StageOpen decisions (append s.log (some execution.turn) move.batch) execution.turn stage) :
    Decided decisions (s.apply execution move) := by
  refine hs.later hfollows rfl ?_ ?_ hs.serial ?_ ?_
  · rintro record ⟨⟩
    exact horderly
  · intro decision hdecision hturn
    apply (hs.settled decision hdecision).append_passed
    have hother := hundecided decision hdecision (Option.some.inj hturn).symm
    unfold resolved at hother
    rwa [turnData_append_self, Option.some.inj hturn] at hother
  · exact fun responder hresponder ↦ hs.responders_later hanswers hresponder
  · intro execution' hmoved
    obtain ⟨stage, hstage, rfl⟩ := Option.map_eq_some_iff.mp hmoved
    exact hopened stage hstage

/-- Nothing has been decided about the first call of a new round. -/
theorem Decided.undecided_committed
    (hrounds : roundsOf (turnData s.log execution.turn) = some rounds)
    (hpending : rounds.pending = []) (round : ℕ) (response : ModelResponse) :
    Undecided decisions (append s.log (some execution.turn)
      (.toolRound round :: modelResponseEvents response)) execution.turn := by
  intro decision hdecision hturn hindex
  -- No result is among the events, so the decision would be about a pending call.
  rw [resolved, turnData_append_self, resultIds_append, resultIds_committed, append_nil] at hindex
  rw [← hturn] at hindex hrounds
  obtain ⟨-, rest, hhead⟩ := (hs.settled decision hdecision).current hindex.symm rounds hrounds
  rw [hpending] at hhead
  cases hhead

theorem Decided.undecided_answered (toolCallId : ToolCallId) (value : Value) :
    Undecided decisions (append s.log (some execution.turn) [.toolResult toolCallId value])
      execution.turn := by
  intro decision hdecision hturn
  have hreached := (hs.settled decision hdecision).reached
  have hnew : resultIds [.toolResult toolCallId value] = [toolCallId] := rfl
  rw [hturn] at hreached
  rw [resolved, turnData_append_self, resultIds_append, hnew, length_append, length_singleton]
  omega

theorem Decided.apply (hexecution : s.execution = some execution)
    (hrounds : roundsOf (turnData s.log execution.turn) = some rounds) {choice : Choice}
    (hfollows : Follows (s.apply execution move)) (hserialised : Serialised s (.step choice))
    (hstep : ApprovalStep s.log execution rounds choice move) :
    Decided decisions (s.apply execution move) := by
  have hopen := hs.opened execution hexecution
  have hunchanged : append s.log (some execution.turn) [] = s.log := by simp [append]
  cases hstep with
  | ended hneutral hsilent =>
    exact hs.silent hfollows rfl hneutral hsilent rfl (by simp [Conversation.apply])
  | moved hmoved =>
    refine hs.quiet hfollows hunchanged rfl ?_
    rintro execution' ⟨⟩
    exact hmoved decisions hopen
  | resumed hfound hafter hat =>
    refine hs.quiet hfollows hunchanged rfl ?_
    rintro execution' ⟨⟩
    exact ⟨hs.undecided_of_unanswered hrounds hat hfound, hs.awaits_resumed hfound hafter⟩
  | @ask round call rest approval hstage hchoice hfor =>
    rw [hstage] at hopen
    rw [hchoice] at hserialised
    have hfresh := hserialised execution hexecution
    have hundecided : Undecided decisions
        (append s.log (some execution.turn) [.approvalRequested approval]) execution.turn := by
      intro decision hdecision hturn
      rw [resolved_append_neutral _ _ (by simp [EventData.neutral])]
      exact hopen decision hdecision hturn
    refine hs.passed hfollows (.concat (hs.orderly _) hfresh) rfl hundecided ?_
    rintro stage ⟨⟩
    exact ⟨hundecided, hs.awaits_asked hfor hfresh⟩
  | @committed round response call rest hpending =>
    have hsilent : ∀ event ∈ .toolRound round :: modelResponseEvents response,
        event.silent = true := by
      intro event hevent
      rcases mem_cons.mp hevent with rfl | hresponse
      · rfl
      · exact silent_modelResponseEvents response event hresponse
    have hundecided := hs.undecided_committed hrounds hpending round response
    refine hs.passed hfollows ((hs.orderly _).append_silent hsilent)
      (lists_of_silent hsilent).2 hundecided ?_
    rintro stage ⟨⟩
    exact hundecided
  | @answered round toolCallId rest value =>
    have hundecided := @Decided.undecided_answered decisions s hs execution toolCallId value
    refine hs.passed hfollows ((hs.orderly _).append_silent (by simp [EventData.silent]))
      rfl hundecided ?_
    rintro stage ⟨⟩
    cases rest with
    | nil => trivial
    | cons call rest => exact hundecided

end Executions

theorem silent_beginEvents (input : List Message) :
    ∀ event ∈ beginEvents input, event.silent = true := by
  intro event hevent
  rcases mem_beginEvents hevent with rfl | rfl <;> rfl

theorem silent_of_concludes {data : EventData} (hconcludes : data.concludes = true) :
    data.silent = true := by
  cases data with
  | error | turnCompleted | turnEnded => rfl
  | _ => cases hconcludes

variable {decisions : List ApprovalDecision} {s : Conversation} {execution : Execution}
  {decision : ApprovalDecision}

section
variable (hs : Decided decisions s)
include hs

/-- The response that holds the lock is appended. -/
theorem Decided.deliver {s' : Conversation} (hfollows : Follows s') {turn : TurnRecord}
    {response : ApprovalResponse} (hresponder : (turn, response) ∈ s.responders)
    (hlog : s'.log = append s.log (some turn) [.approvalResponse response])
    (hresponders : s'.responders = []) (hexecution : s'.execution = s.execution) :
    Decided decisions s' := by
  have hneutral : ∀ event ∈ [EventData.approvalResponse response], event.neutral = true := by
    simp [EventData.neutral]
  have hadmissible := hs.responders _ hresponder
  refine hs.later hfollows hlog ?_ ?_ (by simp [hresponders]) (by simp [hresponders]) ?_
  · rintro record ⟨⟩
    exact .concat (hs.orderly turn) hadmissible
  · intro decision hdecision _
    obtain ⟨rounds, hrounds⟩ := hs.follows.accepted decision.turn
    exact (hs.settled decision hdecision).append_neutral hrounds hneutral rfl
  · intro execution hrunning
    rw [hexecution] at hrunning
    rw [hlog]
    exact (hs.opened execution hrunning).append _ hneutral rfl

theorem Decided.step {label : Label} (henabled : s.enabled label)
    (hserialised : Serialised s label) : Decided decisions (s.next label) := by
  have hfollows := hs.follows.step henabled
  cases label with
  | begin turn input config =>
    refine hs.silent hfollows rfl (beginEvents_neutral input) (silent_beginEvents input) rfl ?_
    rintro execution ⟨⟩
    trivial
  | recover turn config =>
    refine hs.quiet hfollows rfl rfl ?_
    rintro execution ⟨⟩
    trivial
  | step choice =>
    revert hfollows
    simp only [Conversation.next]
    split
    · rename_i execution hexecution
      intro hfollows
      obtain ⟨rounds, hrounds⟩ := hs.follows.accepted execution.turn
      have hat := hs.follows.running execution hexecution rounds hrounds
      exact hs.apply hexecution hrounds hfollows hserialised
        (advance_approvalStep s.cache hat choice)
    · exact fun _ ↦ hs
  | stop | suspend => exact hs.quiet hfollows rfl rfl (by simp [Conversation.next])
  | crash =>
    exact ⟨hfollows, hs.numbered, hs.orderly, by simp [Conversation.next],
      by simp [Conversation.next], by simp [Conversation.next], hs.settled, hs.agree⟩
  | respond turn body =>
    revert hfollows
    simp only [Conversation.next]
    split
    · rename_i response hrespond
      have hfree : s.responders = [] := hserialised
      rw [hfree, List.nil_append]
      intro hfollows
      refine ⟨hfollows, hs.numbered, hs.orderly, Nat.le_refl 1, ?_, hs.opened, hs.settled, hs.agree⟩
      intro responder hresponder
      rw [List.mem_singleton.mp hresponder]
      exact respond_admissible (hs.orderly turn) hrespond
    · exact fun _ ↦ hs
  | deliver index =>
    revert hfollows
    simp only [Conversation.next]
    split
    · rename_i turn response hresponder
      have hlast : s.responders.eraseIdx index = [] := by
        have hlt := (List.getElem?_eq_some_iff.mp hresponder).1
        have hserial := hs.serial
        apply List.eq_nil_of_length_eq_zero
        rw [List.length_eraseIdx_of_lt hlt]
        omega
      exact fun hfollows ↦ hs.deliver hfollows (List.mem_of_getElem? hresponder) rfl hlast rfl
    · exact fun _ ↦ hs
  | conclude turn data =>
    refine hs.silent hfollows rfl (by simpa using concludes_neutral henabled.2.2.1)
      (by simpa using silent_of_concludes henabled.2.2.1) rfl hs.opened
  | note turn kind =>
    exact hs.silent hfollows rfl (by simp [EventData.neutral]) (by simp [EventData.silent]) rfl
      hs.opened

section
variable (hexecution : s.execution = some execution) (hdecides : Decides s.log execution decision)
include hexecution hdecides

/-- What a decision finds in the journal. -/
theorem Decided.settles : Settled (turnData s.log decision.turn) decision := by
  have hat {round : ℕ} {call : ExecutableToolRequest} {rest : List ExecutableToolRequest}
      {phase : ToolPhase} (hstage : execution.stage = .tool round call rest phase)
      (rounds : Rounds) (hrounds : roundsOf (turnData s.log execution.turn) = some rounds) :
      rounds.round = some round ∧ ∃ rest, rounds.pending = call :: rest := by
    have hrunning := hs.follows.running execution hexecution rounds hrounds
    rw [hstage] at hrunning
    exact ⟨hrunning.1, rest, hrunning.2⟩
  cases hdecides with
  | saved hstage hfound =>
    obtain ⟨hrequested, hfor, hanswer⟩ := existingApproval_spec hfound
    obtain ⟨hresponse, hid⟩ := hanswer _ rfl
    exact ⟨⟨_, _, hrequested, hfor, rfl, hresponse, hid, rfl⟩, Nat.le_refl _,
      fun _ ↦ hat hstage, fun _ ↦ .inr ⟨_, _, hfound, rfl⟩⟩
  | live hstage hanswer =>
    have hopen := hs.opened execution hexecution
    rw [hstage] at hopen
    obtain ⟨event, hevent, hturn, response, hdata, hid, happroved⟩ := watchAnswer_spec hanswer
    have hresponse := mem_turnData.mpr ⟨event, (mem_filter.mp hevent).1, hturn, hdata⟩
    refine ⟨⟨_, response, hopen.2.requested, hopen.2.matched, rfl, hresponse, hid, happroved⟩,
      Nat.le_refl _, fun _ ↦ hat hstage, fun _ ↦ ?_⟩
    rcases hopen.2.current with herror | ⟨answer, hfound⟩
    · exact .inl herror
    · exact .inr ⟨_, answer, hfound, rfl⟩

/-- A decision agrees with an earlier one about its call, which only a resumed call can have. -/
theorem Decided.repeats {earlier : ApprovalDecision} (hearlier : earlier ∈ decisions)
    (hsame : earlier.SameCall decision) :
    earlier.approvalId = decision.approvalId ∧ earlier.approved = decision.approved := by
  obtain ⟨hturn, hindex⟩ := hsame
  have hopen := hs.opened execution hexecution
  cases hdecides with
  | @saved round call rest approval response hstage hfound =>
    simp only at hturn hindex
    have hsettled := hs.settled earlier hearlier
    obtain ⟨rounds, hrounds⟩ := hs.follows.accepted execution.turn
    have hat := hs.follows.running execution hexecution rounds hrounds
    rw [hstage] at hat
    rw [← hturn] at hindex hfound hrounds
    obtain ⟨rfl, rfl⟩ := hs.same_call hearlier hindex hrounds hat
    rcases hsettled.replayed hindex.symm with ⟨message, herror⟩ | ⟨approval', answer, hother, hid⟩
    · rw [hfound] at herror
      cases herror
    · rw [hfound] at hother
      cases hother
      obtain ⟨-, other, -, -, -, hresponse, hanswers, happroved⟩ := hsettled.recorded
      have hanswer := (hs.orderly earlier.turn).answer_eq hfound hresponse (hanswers.trans hid.symm)
      cases hanswer
      exact ⟨hid.symm, happroved.symm⟩
  | live hstage hanswer =>
    rw [hstage] at hopen
    exact absurd hindex (hopen.1 earlier hearlier hturn)

/-- The decision is added to those taken before, and the call is not open any more. -/
theorem Decided.record (hnext : Decided decisions (s.next (.step .proceed))) :
    Decided (decisions ++ [decision]) (s.next (.step .proceed)) := by
  obtain ⟨rest, hadvance⟩ := hdecides.advance s.cache
  have hstep : s.next (.step .proceed) = s.apply execution
      { stage := some (.tool decision.round decision.call rest decision.outcome) } := by
    simp only [Conversation.next, hexecution, hadvance]
  have hlog : (s.next (.step .proceed)).log = s.log := by
    rw [hstep]
    simp [Conversation.apply, append]
  refine ⟨hnext.follows, hnext.numbered, hnext.orderly, hnext.serial, hnext.responders, ?_, ?_, ?_⟩
  · rw [hstep]
    rintro execution' ⟨⟩
    unfold ApprovalDecision.outcome
    split <;> trivial
  · intro other hother
    rcases mem_append.mp hother with hold | hnew
    · exact hnext.settled other hold
    · rw [mem_singleton.mp hnew, hlog]
      exact hs.settles hexecution hdecides
  · intro first hfirst second hsecond hsame
    rcases mem_append.mp hfirst with hold | hnew
    · rcases mem_append.mp hsecond with hold' | hnew'
      · exact hs.agree first hold second hold' hsame
      · rw [mem_singleton.mp hnew'] at hsame ⊢
        exact hs.repeats hexecution hdecides hold hsame
    · rw [mem_singleton.mp hnew] at hsame ⊢
      rcases mem_append.mp hsecond with hold' | hnew'
      · obtain ⟨hid, happroved⟩ :=
          hs.repeats hexecution hdecides hold' ⟨hsame.1.symm, hsame.2.symm⟩
        exact ⟨hid.symm, happroved.symm⟩
      · rw [mem_singleton.mp hnew']
        exact ⟨rfl, rfl⟩

end

theorem Decided.next {label : ProviderLabel} (henabled : providerSystem.enabled s label) :
    Decided (decisions ++ taken s label) (providerSystem.next s label) := by
  cases label with
  | conversation label =>
    have hnext := hs.step henabled.1 henabled.2
    cases htaken : taken s (.conversation label) with
    | nil =>
      rw [append_nil]
      exact hnext
    | cons decision others =>
      obtain ⟨hlabel, hsingle, execution, hexecution, hdecides⟩ :=
        @mem_taken s (.conversation label) decision (by simp [htaken])
      rw [← htaken, hsingle]
      cases hlabel
      exact hs.record hexecution hdecides hnext
  | abandon =>
    have hnone : taken s .abandon = [] := rfl
    rw [hnone, append_nil]
    have hfollows : Follows { s with responders := [] } :=
      ⟨hs.follows.coherent, hs.follows.accepted, hs.follows.begun, hs.follows.running, by simp⟩
    exact ⟨hfollows, hs.numbered, hs.orderly, Nat.zero_le 1, by simp [providerSystem], hs.opened,
      hs.settled, hs.agree⟩

end

theorem decided_init : Decided [] {} :=
  ⟨follows_init, rfl, fun _ ↦ .nil, Nat.zero_le 1, by simp, by simp, by simp, by simp⟩

/-! ## The main result -/

/-- A waiting call hears the response its approval has, unless its turn ends. -/
theorem Decided.hears (hs : Decided decisions s) (hexecution : s.execution = some execution)
    {round : ℕ} {call : ExecutableToolRequest} {rest : List ExecutableToolRequest}
    {approval : ApprovalRequest} {after : ℕ}
    (hstage : execution.stage = .tool round call rest (.wait approval after))
    (hrunning : .turnEnded ∉ turnData s.log execution.turn) {response : ApprovalResponse}
    (hresponse : .approvalResponse response ∈ turnData s.log execution.turn)
    (hid : response.approvalId = approval.approvalId) :
    ∃ decision, decisionOf s.log execution = some decision ∧
      decision.approvalId = approval.approvalId ∧ decision.approved = response.approved := by
  have hopen := hs.opened execution hexecution
  rw [hstage] at hopen
  obtain ⟨event, hevent, hturn, hdata⟩ := mem_turnData.mp hresponse
  have hbehind := hopen.2.behind event hevent hturn response hdata hid
  obtain ⟨approved, hanswer⟩ := @exists_watchAnswer execution.turn approval.approvalId
    (s.log.filter (fun event ↦ after < event.id))
    (fun other hother hsame hended ↦ hrunning
      (mem_turnData.mpr ⟨other, (mem_filter.mp hother).1, hsame, hended⟩))
    ⟨event, mem_filter.mpr ⟨hevent, decide_eq_true hbehind⟩, hturn, response, hdata, hid⟩
  obtain ⟨other, hother, hsame, heard, hheard, hheardId, happroved⟩ := watchAnswer_spec hanswer
  have hunique : heard = response :=
    (hs.orderly execution.turn).response_unique
      (mem_turnData.mpr ⟨other, (mem_filter.mp hother).1, hsame, hheard⟩) hresponse
      (hheardId.trans hid.symm)
  refine ⟨⟨execution.turn, resolved s.log execution.turn, round, call, approval.approvalId,
    approved, false⟩, by simp only [decisionOf, hstage, hanswer], rfl, ?_⟩
  rw [← happroved, hunique]

/-- **Approvals are decided once.**  In every interleaving of the executor, crashes, recoveries and
calls of the approval endpoint:

* a turn has at most one response to an approval;
* every decision, by a waiting `authorize` or by a resumed one, is the one of the response to the
  approval of the call, and all decisions about one call are the same;
* as long as the call has no result, `authorize` would decide the same again if it was resumed;
* a call that waits hears the response, unless its turn has ended; and
* a denial fails the call, and without a response that approves it a call is let through only by its
  policy or by a response that allows the tool for the session. -/
theorem approvals_are_decided_once (labels : List ProviderLabel)
    (hrun : providerSystem.Admits {} labels) :
    let s := providerSystem.exec {} labels
    let decisions := providerSystem.collect taken {} labels
    (∀ turn, (answerIds (turnData s.log turn)).Nodup) ∧
    (∀ decision ∈ decisions, Recorded (turnData s.log decision.turn) decision ∧
      ∀ response, .approvalResponse response ∈ turnData s.log decision.turn →
        response.approvalId = decision.approvalId → response.approved = decision.approved) ∧
    (∀ first ∈ decisions, ∀ second ∈ decisions, first.SameCall second →
      first.approvalId = second.approvalId ∧ first.approved = second.approved) ∧
    (∀ decision ∈ decisions, resolved s.log decision.turn = decision.index →
      Replayed s.log decision) ∧
    (∀ execution round call rest approval after, s.execution = some execution →
      execution.stage = .tool round call rest (.wait approval after) →
      .turnEnded ∉ turnData s.log execution.turn →
      ∀ response, .approvalResponse response ∈ turnData s.log execution.turn →
        response.approvalId = approval.approvalId →
        ∃ decision, decisionOf s.log execution = some decision ∧
          decision.approvalId = approval.approvalId ∧ decision.approved = response.approved) ∧
    providerSystem.Throughout Lawful {} labels := by
  intro s decisions
  have hdecided : Decided decisions s := by
    refine System.traceInvariant (fun labels state ↦
      Decided (providerSystem.collect taken {} labels) state) {} decided_init ?_ hrun
    intro labels label _ hstate henabled
    rw [System.collect_snoc]
    exact hstate.next henabled
  refine ⟨?_, ?_, hdecided.agree, ?_, ?_, ?_⟩
  · exact fun turn ↦ (hdecided.orderly turn).answerIds_nodup
  · intro decision hdecision
    have hrecorded := (hdecided.settled decision hdecision).recorded
    refine ⟨hrecorded, ?_⟩
    intro response hresponse hid
    obtain ⟨-, other, -, -, -, hother, hsame, happroved⟩ := hrecorded
    have hunique := (hdecided.orderly decision.turn).response_unique hresponse hother
      (hid.trans hsame.symm)
    rw [hunique, happroved]
  · intro decision hdecision hindex
    exact (hdecided.settled decision hdecision).replays (hdecided.orderly decision.turn) hindex
  · intro execution round call rest approval after hexecution hstage hrunning response hresponse hid
    exact hdecided.hears hexecution hstage hrunning hresponse hid
  · exact System.throughout_of_invariant (fun _ ↦ True) (fun _ _ _ _ ↦ trivial)
      (fun state label _ _ ↦ lawful state label) trivial hrun

/-- Two calls: the response to the first is lost with its connection, the process crashes, and the
resumed call finds the second response saved; the second call is denied while it waits. -/
theorem approvals_are_decided_once_after_crash :
    let config : Config := { policy := fun _ ↦ .alwaysAsk }
    let first : ExecutableToolRequest := ⟨"a", ⟨"read", "", none⟩⟩
    let second : ExecutableToolRequest := ⟨"b", ⟨"write", "", none⟩⟩
    let labels : List ProviderLabel := [
      .conversation (.begin ⟨1, 9⟩ [.user "go"] config),
      .conversation (.step .proceed),
      .conversation (.step (.complete ⟨[], [first, second], false⟩)),
      .conversation (.step .proceed),
      .conversation (.step .proceed),
      .conversation (.step (.ask "x")),
      .conversation (.respond ⟨1, 9⟩ ⟨"x", false, false⟩),
      .abandon,
      .conversation .crash,
      .conversation (.recover ⟨1, 9⟩ config),
      .conversation (.step .proceed),
      .conversation (.step .proceed),
      .conversation (.step .proceed),
      .conversation (.respond ⟨1, 9⟩ ⟨"x", true, false⟩),
      .conversation (.deliver 0),
      .conversation (.step .proceed),
      .conversation (.step .proceed),
      .conversation (.step (.output (.ok (.json "1")))),
      .conversation (.step .proceed),
      .conversation (.step .proceed),
      .conversation (.step .proceed),
      .conversation (.step (.ask "y")),
      .conversation (.step .proceed),
      .conversation (.respond ⟨1, 9⟩ ⟨"y", false, false⟩),
      .conversation (.deliver 0),
      .conversation (.step .proceed)]
    let s := providerSystem.exec {} labels
    let approved : ApprovalDecision := ⟨⟨1, 9⟩, 0, 0, first, "x", true, true⟩
    let refused : ApprovalDecision := ⟨⟨1, 9⟩, 1, 0, second, "y", false, false⟩
    providerSystem.collect taken {} labels = [approved, refused] ∧
      (answerIds (turnData s.log ⟨1, 9⟩)).Nodup ∧
      Recorded (turnData s.log ⟨1, 9⟩) approved ∧ Recorded (turnData s.log ⟨1, 9⟩) refused ∧
      Replayed s.log refused ∧ providerSystem.Throughout Lawful {} labels := by
  intro config first second labels s approved refused
  have htaken : providerSystem.collect taken {} labels = [approved, refused] := by decide +kernel
  obtain ⟨hunique, hrecorded, -, hreplayed, -, hlawful⟩ :=
    approvals_are_decided_once labels (by decide +kernel)
  rw [htaken] at hrecorded hreplayed
  exact ⟨htaken, hunique ⟨1, 9⟩, (hrecorded approved (by simp)).1, (hrecorded refused (by simp)).1,
    hreplayed refused (by simp) (by decide +kernel), hlawful⟩

end Exo.BasicExecutor.ApprovalDecisions
