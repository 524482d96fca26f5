import Exo.BasicExecutor.Executor
import Exo.BasicExecutor.Rounds

/-!
# The executor follows the protocol of tool rounds

In every run, with any crashes, suspensions, recoveries, approvals and repeated ids, the events of
every turn follow the protocol of `Rounds`, and the running execution stands where its log is: it
works on the first call without a result and carries the others in order.
-/

namespace Exo.BasicExecutor

open Library TurnCoordinator List Option

/-- An execution stands where the log of its turn is. -/
def Stage.At (rounds : Rounds) : Stage → Prop
  | .restore => True
  | .load => True
  | .approvals replay => replay = ⟨rounds.round, rounds.pending⟩
  | .round number => rounds.pending = [] ∧ number = rounds.nextRound
  | .model number _ => rounds.pending = [] ∧ number = rounds.nextRound
  | .tool number call rest _ => rounds.round = some number ∧ rounds.pending = call :: rest

@[simp]
theorem collectToolRequests_modelResponseEvents (response : ModelResponse) :
    collectToolRequests (modelResponseEvents response) = response.toolCalls := by
  have hcalls (calls : List ExecutableToolRequest) :
      collectToolRequests (calls.map .toolRequested) = calls := by
    induction calls with
    | nil => rfl
    | cons call calls ih =>
      calc
        collectToolRequests ((call :: calls).map .toolRequested)
            = call :: collectToolRequests (calls.map .toolRequested) := rfl
        _ = call :: calls := by rw [ih]
  unfold modelResponseEvents
  rw [collectToolRequests_append, hcalls]
  split <;> rfl

variable (log : Log) (execution : Execution) (rounds : Rounds) (choice : Choice) in
/-- What a step of an execution does to the tool rounds of its turn. -/
inductive Effect :
    Move → Prop where
  | ended {batch : List EventData} (hneutral : ∀ event ∈ batch, event.neutral = true) :
      Effect { batch := batch, stage := none }
  | quiet {batch : List EventData} {stage : Stage} {cache : Option HistoryCacheEntry}
      {starts : Bool} (hneutral : ∀ event ∈ batch, event.neutral = true)
      (hrestored : execution.stage ≠ .restore ∨ stage = .restore) (hat : stage.At rounds) :
      Effect { batch := batch, stage := some stage, cache := cache, starts := starts }
  | restored {pending : Finset ToolCallId}
      (hrestore : restoreRecoveryTools log execution.turn = .ok pending) :
      Effect { stage := some .load, restored := some pending }
  | committed {round : ℕ} {prompt : List Message} {response : ModelResponse}
      {call : ExecutableToolRequest} {rest : List ExecutableToolRequest}
      (hstage : execution.stage = .model round prompt) (hchoice : choice = .complete response)
      (hpending : rounds.pending = []) (hcalls : response.toolCalls = call :: rest) :
      Effect
        { batch := .toolRound round :: modelResponseEvents response
          stage := some (.tool round call rest (.authorize false)) }
  | answered {round : ℕ} {call : ExecutableToolRequest} {rest : List ExecutableToolRequest}
      {value : Value} (hstage : execution.stage = .tool round call rest (.result value))
      (hround : rounds.round = some round) (hpending : rounds.pending = call :: rest) :
      Effect { batch := [.toolResult call.toolCallId value], stage := some (nextCall round rest) }

variable {log : Log} {execution : Execution} {rounds : Rounds} {move : Move} {turn : TurnRecord}
  {batch : List EventData} {s : Conversation}
  {round : ℕ} {call : ExecutableToolRequest} {rest : List ExecutableToolRequest}
  {response : ModelResponse} {choice : Choice}

theorem advanceTool_effect {phase : ToolPhase}
    (hstage : execution.stage = .tool round call rest phase) (hat : execution.stage.At rounds)
    (choice : Choice) :
    Effect log execution rounds choice
      (advanceTool log execution.turn execution.config round call rest phase choice) := by
  have hrestored : execution.stage ≠ .restore := by simp [hstage]
  rw [hstage] at hat
  have hquiet {phase : ToolPhase} {batch : List EventData} {starts : Bool}
      (hneutral : ∀ event ∈ batch, event.neutral = true) :
      Effect log execution rounds choice
        { batch := batch, stage := some (.tool round call rest phase), starts := starts } :=
    .quiet hneutral (.inl hrestored) hat
  have hsame {phase : ToolPhase} {starts : Bool} : Effect log execution rounds choice
        { stage := some (.tool round call rest phase), starts := starts } := hquiet (by simp)
  unfold advanceTool
  split
  · exact hsame
  · exact hsame
  · apply hquiet
    simp [EventData.neutral]
  · exact hsame
  · exact hsame
  · exact hsame
  · exact hsame
  · exact hsame
  · exact hsame
  · exact hsame
  · exact hsame
  · exact .answered hstage hat.1 hat.2
  · exact hsame

theorem neutral_of_no_calls (hcalls : response.toolCalls = []) :
    ∀ event ∈ modelResponseEvents response ++ [.turnCompleted], event.neutral = true := by
  intro event hevent
  rcases mem_append.mp hevent with hresponse | hlast
  · rcases mem_modelResponseEvents hresponse with rfl | ⟨call, hcall, -⟩
    · rfl
    · rw [hcalls] at hcall
      cases hcall
  · rw [mem_singleton.mp hlast]
    rfl

/-- The batch of a model response with tool calls opens a round with these calls. -/
theorem foldlM_committed (hpending : rounds.pending = []) :
    (EventData.toolRound round :: modelResponseEvents response).foldlM Rounds.step rounds =
      some ⟨some round, rounds.answered, [], response.toolCalls⟩ := by
  have hopen : rounds.step (.toolRound round) = some ⟨some round, rounds.answered, [], []⟩ :=
    if_pos hpending
  have hrequested := @Rounds.foldlM_requested ⟨some round, rounds.answered, [], []⟩ rfl rfl
    response.toolCalls
  rw [foldlM_cons, hopen]
  unfold modelResponseEvents
  rw [nil_append] at hrequested
  split
  · exact hrequested
  · exact hrequested

theorem resultIds_committed (round : ℕ) (response : ModelResponse) :
    resultIds (.toolRound round :: modelResponseEvents response) = [] := by
  apply filterMap_eq_nil_iff.mpr
  intro event hevent
  rcases mem_cons.mp hevent with rfl | hresponse
  · rfl
  · rcases mem_modelResponseEvents hresponse with rfl | ⟨call, -, rfl⟩ <;> rfl

theorem foldlM_answered (hpending : rounds.pending = call :: rest) (value : Value) :
    [EventData.toolResult call.toolCallId value].foldlM Rounds.step rounds =
      some { rounds with done := rounds.done ++ [call], pending := rest } := by
  simp [Rounds.step, hpending]

/-- Every step of an execution keeps to the protocol. -/
theorem advance_effect {cache : Option HistoryCacheEntry}
    (hrounds : roundsOf (turnData log execution.turn) = some rounds)
    (hat : execution.stage.At rounds) (choice : Choice) :
    Effect log execution rounds choice (advance log cache execution choice) := by
  unfold advance
  split
  · rename_i hstage
    split
    · rename_i pending hrestore
      exact .restored hrestore
    · exact .ended (by simp)
  · rename_i hstage
    split
    · rename_i replay hreplay
      refine .quiet (by simp) (.inl (by simp [hstage])) ?_
      rw [replayRounds_eq, replay_of_roundsOf hrounds] at hreplay
      cases hreplay
      rfl
    · exact .ended (by simp)
  · rename_i replay hstage
    rw [hstage] at hat
    cases hat
    have hrestored : execution.stage ≠ .restore := by simp [hstage]
    cases hresume : resumeProgress execution.turn ⟨rounds.round, rounds.pending⟩
        (turnApprovals log execution.turn) with
    | error message => exact .ended (by simp)
    | ok progress =>
      rcases resumeProgress_ok hresume with
        ⟨hpending, rfl⟩ | ⟨first, rest, round, hpending, hround, rfl⟩
      · exact .quiet (by simp) (.inl hrestored) ⟨hpending, rfl⟩
      · exact .quiet (by simp) (.inl hrestored) ⟨hround, hpending⟩
  · rename_i round hstage
    split
    · exact .ended (by simp)
    · rw [hstage] at hat
      exact .quiet (by simp) (.inl (by simp [hstage])) hat
  · rename_i round prompt response hstage
    rw [hstage] at hat
    dsimp only
    split
    · rename_i hcalls
      rw [collectToolRequests_modelResponseEvents] at hcalls
      exact .ended (neutral_of_no_calls hcalls)
    · rename_i call rest hcalls
      rw [collectToolRequests_modelResponseEvents] at hcalls
      exact .committed hstage rfl hat.1 hcalls
  · rename_i round call rest phase choice hstage
    exact advanceTool_effect hstage hat _
  · refine .quiet (by simp) ?_ hat
    exact (em (execution.stage = .restore)).symm

/-- The tool rounds after a step, and where the execution stands then. -/
theorem Effect.rounds_after (heffect : Effect log execution rounds choice move) :
    ∃ after, move.batch.foldlM Rounds.step rounds = some after ∧
      ∀ stage, move.stage = some stage → stage.At after := by
  cases heffect with
  | ended hneutral => exact ⟨rounds, rounds.foldlM_neutral hneutral, by simp⟩
  | quiet hneutral hrestored hat' =>
    refine ⟨rounds, rounds.foldlM_neutral hneutral, ?_⟩
    rintro stage ⟨⟩
    exact hat'
  | restored hrestore =>
    refine ⟨rounds, rfl, ?_⟩
    rintro stage ⟨⟩
    trivial
  | @committed round prompt response call rest hstage hchoice hpending hcalls =>
    refine ⟨⟨some round, rounds.answered, [], call :: rest⟩, ?_, ?_⟩
    · rw [foldlM_committed hpending, hcalls]
    · rintro stage ⟨⟩
      exact ⟨rfl, rfl⟩
  | @answered round call rest value hstage hround hpending =>
    refine ⟨_, foldlM_answered hpending value, ?_⟩
    rintro stage ⟨⟩
    cases rest with
    | nil => exact ⟨rfl, by simp [Rounds.nextRound, hround]⟩
    | cons next rest => exact ⟨hround, rfl⟩

/-- Every turn of the log has one record. -/
def Coherent (log : Log) : Prop :=
  ∀ event ∈ log, ∀ turn, event.turn = some turn → SoleRecord log turn

/-- The logs follow the protocol and the execution stands where its log is. -/
structure Follows (s : Conversation) : Prop where
  coherent : Coherent s.log
  accepted : ∀ turn, ∃ rounds, roundsOf (turnData s.log turn) = some rounds
  begun : ∀ execution, s.execution = some execution → s.Begun execution.turn
  running : ∀ execution, s.execution = some execution → ∀ rounds,
    roundsOf (turnData s.log execution.turn) = some rounds → execution.stage.At rounds
  responders : ∀ responder ∈ s.responders, s.Begun responder.1

theorem Coherent.append (hcoherent : Coherent log) {turn : Option TurnRecord}
    (hturn : ∀ record, turn = some record → SoleRecord log record) (batch : List EventData) :
    Coherent (append log turn batch) := by
  intro event hevent record hrecord other hother record' hrecord' hid
  rcases mem_append_log hevent with hold | ⟨hnew, -⟩
  · rcases mem_append_log hother with hold' | ⟨hnew', -⟩
    · exact hcoherent event hold record hrecord other hold' record' hrecord' hid
    · have hsole := hturn record' (by rw [← hnew', hrecord'])
      exact (hsole event hold record hrecord hid.symm).symm
  · have hsole := hturn record (by rw [← hnew, hrecord])
    rcases mem_append_log hother with hold' | ⟨hnew', -⟩
    · exact hsole other hold' record' hrecord' hid
    · rw [hnew, ← hnew', hrecord'] at hrecord
      exact some.inj hrecord

theorem Coherent.sole (hcoherent : Coherent log) (hbegun : ∃ event ∈ log, event.turn = some turn) :
    SoleRecord log turn := by
  obtain ⟨event, hevent, hturn⟩ := hbegun
  exact hcoherent event hevent turn hturn

theorem begun_append (hbegun : ∃ event ∈ log, event.turn = some turn) (other : Option TurnRecord)
    (batch : List EventData) : ∃ event ∈ append log other batch, event.turn = some turn := by
  obtain ⟨event, hevent, hturn⟩ := hbegun
  exact ⟨event, mem_append_left _ hevent, hturn⟩

/-- An append of neutral events changes the tool rounds of no turn. -/
theorem roundsOf_append_neutral (log : Log) (turn : Option TurnRecord)
    (hneutral : ∀ event ∈ batch, event.neutral = true) (other : TurnRecord)
    (hrounds : roundsOf (turnData log other) = some rounds) :
    roundsOf (turnData (append log turn batch) other) = some rounds := by
  rw [turnData_append]
  split
  · rw [roundsOf_append hrounds]
    exact rounds.foldlM_neutral hneutral
  · exact hrounds

/-- Neutral events change no tool rounds, so what was said of these stays. -/
theorem roundsOf_before (hs : Follows s) {turn : Option TurnRecord}
    (hneutral : ∀ event ∈ batch, event.neutral = true) {other : TurnRecord}
    (hrounds : roundsOf (turnData (append s.log turn batch) other) = some rounds) :
    roundsOf (turnData s.log other) = some rounds := by
  obtain ⟨before, hbefore⟩ := hs.accepted other
  have happended := roundsOf_append_neutral s.log turn hneutral other hbefore
  rw [hrounds] at happended
  rw [hbefore, happended]

/-- An append of neutral events by anyone. -/
theorem Follows.append_neutral (hs : Follows s) {turn : Option TurnRecord}
    (hturn : ∀ record, turn = some record → s.Begun record)
    (hneutral : ∀ event ∈ batch, event.neutral = true)
    {responders : List (TurnRecord × ApprovalResponse)}
    (hresponders : ∀ responder ∈ responders, responder ∈ s.responders) :
    Follows { s with log := append s.log turn batch, responders := responders } := by
  refine ⟨?_, ?_, ?_, ?_, ?_⟩
  · exact hs.coherent.append (fun record hrecord ↦ hs.coherent.sole (hturn record hrecord)) batch
  · intro other
    obtain ⟨rounds, hrounds⟩ := hs.accepted other
    exact ⟨rounds, roundsOf_append_neutral s.log turn hneutral other hrounds⟩
  · exact fun execution hexecution ↦ begun_append (hs.begun execution hexecution) turn batch
  · intro execution hexecution rounds hrounds
    obtain ⟨before, hbefore⟩ := hs.accepted execution.turn
    have hsame := roundsOf_append_neutral s.log turn hneutral execution.turn hbefore
    rw [← some.inj (hsame.symm.trans hrounds)]
    exact hs.running execution hexecution before hbefore
  · exact fun responder hresponder ↦
      begun_append (hs.responders responder (hresponders responder hresponder)) turn batch

theorem turnData_eq_nil (hfresh : ∀ event ∈ log, event.turn.map (·.id) ≠ some turn.id) :
    turnData log turn = [] := by
  unfold turnData
  rw [filter_eq_nil_iff.mpr, map_nil]
  intro event hevent hturn
  apply hfresh event hevent
  rw [of_decide_eq_true hturn]
  rfl

theorem begun_of_respond {body : ApprovalResponseBody} {response : ApprovalResponse}
    (hrespond : respond log turn body = .ok response) : ∃ event ∈ log, event.turn = some turn := by
  by_contra hnone
  have hdata : turnData log turn = [] := by
    unfold turnData
    rw [filter_eq_nil_iff.mpr, map_nil]
    intro event hevent hturn
    exact hnone ⟨event, hevent, of_decide_eq_true hturn⟩
  unfold respond at hrespond
  rw [turnApprovals_eq, hdata] at hrespond
  simp only [filter_nil, pendingFromEvents, find?_nil] at hrespond
  split at hrespond <;> cases hrespond

theorem mem_beginEvents {input : List Message} {event : EventData}
    (hevent : event ∈ beginEvents input) : event = .turnStarted ∨ event = .messages input := by
  rcases mem_cons.mp hevent with hstarted | hinput
  · exact .inl hstarted
  · split at hinput
    · cases hinput
    · exact .inr (mem_singleton.mp hinput)

theorem beginEvents_neutral (input : List Message) :
    ∀ event ∈ beginEvents input, event.neutral = true := by
  intro event hevent
  rcases mem_beginEvents hevent with rfl | rfl <;> rfl

theorem Follows.begin (hs : Follows s)
    (hfresh : ∀ event ∈ s.log, event.turn.map (·.id) ≠ some turn.id) (input : List Message)
    (config : Config) : Follows (s.next (.begin turn input config)) := by
  have hneutral := beginEvents_neutral input
  have hsole : SoleRecord s.log turn := by
    intro event hevent record hrecord hid
    exact absurd (by rw [hrecord, map_some, hid]) (hfresh event hevent)
  have hrounds : roundsOf (turnData (append s.log (some turn) (beginEvents input)) turn) =
      some {} := by
    apply roundsOf_append_neutral s.log (some turn) hneutral
    rw [turnData_eq_nil hfresh]
    rfl
  refine ⟨?_, ?_, ?_, ?_, ?_⟩
  · apply hs.coherent.append
    rintro record ⟨⟩
    exact hsole
  · intro other
    obtain ⟨rounds, hother⟩ := hs.accepted other
    exact ⟨rounds, roundsOf_append_neutral s.log (some turn) hneutral other hother⟩
  · rintro execution ⟨⟩
    refine ⟨⟨s.log.length, some turn, .turnStarted⟩, ?_, rfl⟩
    simp [Conversation.next, append, beginEvents]
  · rintro execution ⟨⟩ rounds hafter
    rw [← some.inj (hrounds.symm.trans hafter)]
    exact ⟨rfl, rfl⟩
  · exact fun responder hresponder ↦ begun_append (hs.responders responder hresponder) _ _

/-- The tool rounds of a turn after a step of its execution. -/
theorem roundsOf_apply (hrounds : roundsOf (turnData s.log execution.turn) = some rounds)
    {after : Rounds} (hafter : move.batch.foldlM Rounds.step rounds = some after) :
    roundsOf (turnData (s.apply execution move).log execution.turn) = some after := by
  simp only [Conversation.apply]
  rw [turnData_append_self, roundsOf_append hrounds]
  exact hafter

theorem Follows.apply (hs : Follows s) (hexecution : s.execution = some execution)
    (hrounds : roundsOf (turnData s.log execution.turn) = some rounds)
    (heffect : Effect s.log execution rounds choice move) : Follows (s.apply execution move) := by
  obtain ⟨after, hafter, hat⟩ := heffect.rounds_after
  have hbegun := hs.begun execution hexecution
  have hself := roundsOf_apply hrounds hafter
  refine ⟨?_, ?_, ?_, ?_, ?_⟩
  · apply hs.coherent.append
    rintro record ⟨⟩
    exact hs.coherent.sole hbegun
  · intro other
    by_cases hturn : some execution.turn = some other
    · cases hturn
      exact ⟨after, hself⟩
    · obtain ⟨rounds', hrounds'⟩ := hs.accepted other
      refine ⟨rounds', ?_⟩
      simp only [Conversation.apply]
      rw [turnData_append_other _ _ hturn]
      exact hrounds'
  · intro execution' hexecution'
    obtain ⟨stage, -, rfl⟩ := map_eq_some_iff.mp hexecution'
    exact begun_append hbegun _ _
  · intro execution' hexecution' rounds' hrounds'
    obtain ⟨stage, hstage, rfl⟩ := map_eq_some_iff.mp hexecution'
    rw [← some.inj (hself.symm.trans hrounds')]
    exact hat stage hstage
  · exact fun responder hresponder ↦ begun_append (hs.responders responder hresponder) _ _

/-- Dropping the execution, and whatever else but the log is lost with it. -/
theorem Follows.drop (hs : Follows s) (cache : Option HistoryCacheEntry)
    {responders : List (TurnRecord × ApprovalResponse)}
    (hresponders : ∀ responder ∈ responders, responder ∈ s.responders) :
    Follows { s with cache := cache, execution := none, responders := responders } := by
  refine ⟨hs.coherent, hs.accepted, by simp, by simp, ?_⟩
  exact fun responder hresponder ↦ hs.responders responder (hresponders responder hresponder)

theorem concludes_neutral {data : EventData} (hconcludes : data.concludes = true) :
    data.neutral = true := by
  cases data with
  | error | turnCompleted | turnEnded => rfl
  | _ => cases hconcludes

theorem Follows.step (hs : Follows s) {label : Label} (henabled : s.enabled label) :
    Follows (s.next label) := by
  cases label with
  | begin turn input config => exact hs.begin henabled.2 input config
  | recover turn config =>
    refine ⟨hs.coherent, hs.accepted, ?_, ?_, hs.responders⟩
    · rintro execution ⟨⟩
      exact henabled.2.1
    · rintro execution ⟨⟩ rounds hrounds
      trivial
  | step choice =>
    simp only [Conversation.next]
    split
    · rename_i execution hexecution
      obtain ⟨rounds, hrounds⟩ := hs.accepted execution.turn
      apply hs.apply hexecution hrounds
      exact advance_effect hrounds (hs.running execution hexecution rounds hrounds) choice
    · exact hs
  | stop => exact hs.drop s.cache (fun _ ↦ id)
  | suspend => exact hs.drop s.cache (fun _ ↦ id)
  | crash => exact hs.drop none (by simp)
  | respond turn body =>
    simp only [Conversation.next]
    split
    · rename_i response hrespond
      refine ⟨hs.coherent, hs.accepted, hs.begun, hs.running, ?_⟩
      intro responder hresponder
      rcases mem_append.mp hresponder with hold | hnew
      · exact hs.responders responder hold
      · rw [mem_singleton.mp hnew]
        exact begun_of_respond hrespond
    · exact hs
  | deliver index =>
    simp only [Conversation.next]
    split
    · rename_i turn response hresponder
      apply hs.append_neutral
      · rintro record ⟨⟩
        exact hs.responders _ (mem_of_getElem? hresponder)
      · simp [EventData.neutral]
      · exact fun responder hmem ↦ mem_of_mem_eraseIdx hmem
    · exact hs
  | conclude turn data =>
    apply hs.append_neutral
    · rintro record ⟨⟩
      exact henabled.2.1
    · simpa using concludes_neutral henabled.2.2.1
    · exact fun _ ↦ id
  | note turn kind =>
    apply hs.append_neutral
    · exact fun record hrecord ↦ henabled record hrecord
    · simp [EventData.neutral]
    · exact fun _ ↦ id

theorem follows_init : Follows {} :=
  ⟨by simp [Coherent], fun turn ↦ ⟨{}, rfl⟩, by simp, by simp, by simp⟩

end Exo.BasicExecutor
