import Exo.BasicExecutor.Protocol

/-!
# Suspension boundaries

A turn is suspended when the set of pending calls in memory is empty.  That set forgets all calls
with the id of a result, so it is the set of a finished round only if the last call of the round
cannot be forgotten early: its id must not occur before it in the round.  In the runs in which every
committed round is like that, the set is empty exactly when the log has no pending call, and the
suspended turn is resumed at the next round.

An execution that has not restored its set yet is taken at its boundary too.  What its log leaves
pending is then what the log left pending before.
-/

namespace Exo.BasicExecutor.Suspension

open Library TurnCoordinator List

/-- The id of the last call does not occur before it. -/
def lastFresh (calls : List ExecutableToolRequest) : Bool :=
  calls.getLast?.all (fun call ↦ call.toolCallId ∉ callIds calls.dropLast)

variable {calls : List ExecutableToolRequest} {pendingTools : Finset ToolCallId} {rounds : Rounds}
  {log : Log} {turn : TurnRecord} {toolCallId : ToolCallId} {s : Conversation}

theorem lastFresh_concat {last : ExecutableToolRequest} :
    lastFresh (calls ++ [last]) = true ↔ last.toolCallId ∉ callIds calls := by
  simp [lastFresh]

/-- The set in memory holds the last pending call, and nothing but pending calls. -/
def Tracks (pendingTools : Finset ToolCallId) (pending : List ExecutableToolRequest) : Prop :=
  (∀ toolCallId ∈ pendingTools, toolCallId ∈ callIds pending) ∧
    ∀ call, pending.getLast? = some call → call.toolCallId ∈ pendingTools

theorem Tracks.eq_empty_iff {pending : List ExecutableToolRequest}
    (htracks : Tracks pendingTools pending) : pendingTools = ∅ ↔ pending = [] := by
  constructor
  · intro hempty
    rcases eq_nil_or_concat pending with hnil | ⟨init, last, rfl⟩
    · exact hnil
    · have hmem := htracks.2 last (by simp)
      rw [hempty] at hmem
      simp at hmem
  · rintro rfl
    apply Finset.eq_empty_of_forall_notMem
    intro toolCallId hmem
    have hpending := htracks.1 toolCallId hmem
    simp [callIds] at hpending

/-- The retained calls are none only if no call is pending. -/
theorem retained_eq_nil_iff (hfresh : lastFresh (rounds.done ++ rounds.pending) = true) :
    rounds.retained = [] ↔ rounds.pending = [] := by
  unfold Rounds.retained
  constructor
  · intro hnil
    rcases eq_nil_or_concat rounds.pending with hpending | ⟨init, last, hpending⟩
    · exact hpending
    · rw [filter_eq_nil_iff] at hnil
      rw [concat_eq_append] at hpending
      rw [hpending, ← append_assoc, lastFresh_concat, callIds_append] at hfresh
      have hlast := hnil last (by simp [hpending])
      simp only [decide_eq_true_eq, not_not] at hlast
      exact absurd (mem_append_left _ hlast) hfresh
  · intro hpending
    rw [hpending]
    rfl

theorem Tracks.restored (hsole : SoleRecord log turn)
    (hrounds : roundsOf (turnData log turn) = some rounds)
    (hfresh : lastFresh (rounds.done ++ rounds.pending) = true) {pending : Finset ToolCallId}
    (hrestore : restoreRecoveryTools log turn = .ok pending) : Tracks pending rounds.pending := by
  obtain ⟨-, hrecovered⟩ := recovered_of_roundsOf hrounds
  rw [← recoveredTools_eq hsole] at hrecovered
  have hset : pending = (callIds rounds.retained).toFinset := by
    unfold restoreRecoveryTools at hrestore
    dsimp only at hrestore
    rw [hrecovered] at hrestore
    split at hrestore
    · rename_i hnil
      cases hrestore
      rw [map_eq_nil_iff.mp hnil]
      rfl
    · split at hrestore <;> cases hrestore
      simp [callIds, Function.comp_def]
  rw [hset]
  constructor
  · intro toolCallId hmem
    obtain ⟨call, hcall, rfl⟩ := mem_map.mp (mem_toFinset.mp hmem)
    exact mem_map_of_mem (mem_filter.mp hcall).1
  · intro call hlast
    obtain ⟨init, hpending⟩ := getLast?_eq_some_iff.mp hlast
    rw [hpending, ← append_assoc, lastFresh_concat, callIds_append, mem_append, not_or] at hfresh
    apply mem_toFinset.mpr
    apply mem_map_of_mem
    exact mem_filter.mpr ⟨by simp [hpending], by simpa using hfresh.1⟩

theorem foldl_neutral (pendingTools : Finset ToolCallId) {batch : List EventData}
    (hneutral : ∀ event ∈ batch, event.neutral = true) :
    batch.foldl updatePendingTools pendingTools = pendingTools := by
  induction batch with
  | nil => rfl
  | cons event batch ih =>
    have hevent : updatePendingTools pendingTools event = pendingTools := by
      have hself := hneutral event (by simp)
      cases event with
      | toolRound | toolRequested | toolResult => cases hself
      | _ => rfl
    rw [foldl_cons, hevent]
    exact ih (fun other hother ↦ hneutral other (mem_cons_of_mem _ hother))

theorem mem_foldl_requested :
    toolCallId ∈ (calls.map EventData.toolRequested).foldl updatePendingTools pendingTools ↔
      toolCallId ∈ pendingTools ∨ toolCallId ∈ callIds calls := by
  induction calls generalizing pendingTools with
  | nil => simp [callIds]
  | cons call calls ih =>
    rw [map_cons, foldl_cons, ih]
    simp only [updatePendingTools, Finset.mem_insert, callIds, map_cons, mem_cons]
    tauto

theorem mem_foldl_committed {round : ℕ} {response : ModelResponse} :
    toolCallId ∈ (EventData.toolRound round :: modelResponseEvents response).foldl
        updatePendingTools pendingTools ↔
      toolCallId ∈ pendingTools ∨ toolCallId ∈ callIds response.toolCalls := by
  rw [← mem_foldl_requested]
  unfold modelResponseEvents
  split <;> rfl

theorem Tracks.committed (htracks : Tracks pendingTools []) (round : ℕ) (response : ModelResponse) :
    Tracks ((EventData.toolRound round :: modelResponseEvents response).foldl updatePendingTools
      pendingTools) response.toolCalls := by
  constructor
  · intro toolCallId hmem
    rw [mem_foldl_committed] at hmem
    rcases hmem with hold | hnew
    · have hnone := htracks.1 toolCallId hold
      simp [callIds] at hnone
    · exact hnew
  · intro call hlast
    rw [mem_foldl_committed]
    exact .inr (mem_map_of_mem (mem_of_getLast? hlast))

theorem Tracks.answered {call : ExecutableToolRequest} {done rest : List ExecutableToolRequest}
    (htracks : Tracks pendingTools (call :: rest))
    (hfresh : lastFresh (done ++ call :: rest) = true) :
    Tracks (pendingTools.erase call.toolCallId) rest := by
  constructor
  · intro toolCallId hmem
    obtain ⟨hne, hold⟩ := Finset.mem_erase.mp hmem
    have hpending := htracks.1 toolCallId hold
    rw [callIds, map_cons, mem_cons] at hpending
    exact hpending.resolve_left hne
  · intro last hlast
    obtain ⟨init, rfl⟩ := getLast?_eq_some_iff.mp hlast
    have hwhole : done ++ call :: (init ++ [last]) = (done ++ call :: init) ++ [last] := by simp
    rw [hwhole, lastFresh_concat] at hfresh
    have hne : last.toolCallId ≠ call.toolCallId := by
      intro heq
      apply hfresh
      rw [heq]
      simp [callIds]
    refine Finset.mem_erase.mpr ⟨hne, htracks.2 last ?_⟩
    rw [← cons_append, getLast?_concat]

/-- As many results as requests: the log of the turn leaves no call open. -/
def balanced (log : Log) (turn : TurnRecord) : Bool :=
  (resultIds (turnData log turn)).length = (collectToolRequests (turnData log turn)).length

/-- The last call of a committed round is fresh, and an execution that has not restored its pending
set is taken at the boundary only if its log leaves no call open. -/
def Distinguished (s : Conversation) : Label → Prop
  | .step (.complete response) => lastFresh response.toolCalls = true
  | .suspend => ∀ execution ∈ s.execution, execution.stage = .restore →
      balanced s.log execution.turn = true
  | _ => True

instance (s : Conversation) (label : Label) : Decidable (Distinguished s label) :=
  match label with
  | .step (.complete response) => inferInstanceAs (Decidable (lastFresh response.toolCalls = true))
  | .suspend => inferInstanceAs (Decidable (∀ execution ∈ s.execution, _))
  | .step .proceed | .step (.fail _) | .step (.ask _) | .step (.output _) | .begin _ _ _
  | .recover _ _ | .stop | .crash | .respond _ _ | .deliver _ | .conclude _ _ | .note _ _ =>
    isTrue trivial

/-- The set in memory tracks the log, once it has been restored. -/
structure Tracked (s : Conversation) : Prop where
  follows : Follows s
  fresh : ∀ turn rounds, roundsOf (turnData s.log turn) = some rounds →
    lastFresh (rounds.done ++ rounds.pending) = true
  tracks : ∀ execution, s.execution = some execution → execution.stage ≠ .restore →
    ∀ rounds, roundsOf (turnData s.log execution.turn) = some rounds →
      Tracks execution.pendingTools rounds.pending

/-- What a step leaves in memory and in the log. -/
theorem Tracked.effect (hs : Tracked s) {execution : Execution}
    (hexecution : s.execution = some execution)
    (hrounds : roundsOf (turnData s.log execution.turn) = some rounds) {choice : Choice}
    {move : Move} (heffect : Effect s.log execution rounds choice move)
    (hlast : Distinguished s (.step choice)) {after : Rounds}
    (hafter : move.batch.foldlM Rounds.step rounds = some after) :
    lastFresh (after.done ++ after.pending) = true ∧ ∀ stage, move.stage = some stage →
      stage ≠ .restore → Tracks (move.batch.foldl updatePendingTools
        (move.restored.getD execution.pendingTools)) after.pending := by
  have hfresh := hs.fresh execution.turn rounds hrounds
  have htracks := hs.tracks execution hexecution
  cases heffect with
  | ended hneutral =>
    rw [rounds.foldlM_neutral hneutral] at hafter
    cases hafter
    exact ⟨hfresh, by simp⟩
  | quiet hneutral hrestored hat =>
    rw [rounds.foldlM_neutral hneutral] at hafter
    cases hafter
    refine ⟨hfresh, ?_⟩
    rintro stage ⟨⟩ hstage
    rw [foldl_neutral _ hneutral]
    exact htracks (hrestored.resolve_right hstage) rounds hrounds
  | restored hrestore =>
    cases hafter
    refine ⟨hfresh, fun _ _ _ ↦ ?_⟩
    exact Tracks.restored (hs.follows.coherent.sole (hs.follows.begun execution hexecution)) hrounds
      hfresh hrestore
  | @committed round prompt response call rest hstage hchoice hpending hcalls =>
    have hempty := htracks (by simp [hstage]) rounds hrounds
    rw [hpending] at hempty
    rw [foldlM_committed hpending] at hafter
    cases hafter
    rw [hchoice] at hlast
    exact ⟨hlast, fun _ _ _ ↦ hempty.committed round response⟩
  | @answered round call rest value hstage hround hpending =>
    have hcurrent := htracks (by simp [hstage]) rounds hrounds
    rw [hpending] at hcurrent hfresh
    rw [foldlM_answered hpending] at hafter
    cases hafter
    exact ⟨by simpa using hfresh, fun _ _ _ ↦ hcurrent.answered hfresh⟩

/-- Steps that append neutral events only and keep the execution. -/
theorem Tracked.of_neutral {s s' : Conversation} (hs : Tracked s) (hfollows : Follows s')
    (hexecution : s'.execution = s.execution) {turn : Option TurnRecord} {batch : List EventData}
    (hneutral : ∀ event ∈ batch, event.neutral = true) (hlog : s'.log = append s.log turn batch) :
    Tracked s' := by
  refine ⟨hfollows, ?_, ?_⟩
  · intro other rounds hrounds
    rw [hlog] at hrounds
    exact hs.fresh other rounds (roundsOf_before hs.follows hneutral hrounds)
  · intro execution hrunning hstage rounds hrounds
    rw [hexecution] at hrunning
    rw [hlog] at hrounds
    exact hs.tracks execution hrunning hstage rounds (roundsOf_before hs.follows hneutral hrounds)

theorem Tracked.step (hs : Tracked s) {label : Label} (henabled : s.enabled label)
    (hlabel : Distinguished s label) : Tracked (s.next label) := by
  have hfollows := hs.follows.step henabled
  cases label with
  | begin turn input config =>
    refine ⟨hfollows, ?_, ?_⟩
    · intro other rounds hrounds
      exact hs.fresh other rounds (roundsOf_before hs.follows (beginEvents_neutral input) hrounds)
    · rintro execution ⟨⟩ - rounds hrounds
      obtain ⟨hpending, -⟩ := hfollows.running _ rfl rounds hrounds
      rw [hpending]
      exact ⟨by simp, by simp⟩
  | recover turn config =>
    refine ⟨hfollows, hs.fresh, ?_⟩
    rintro execution ⟨⟩ hstage
    exact absurd rfl hstage
  | step choice =>
    revert hfollows
    simp only [Conversation.next]
    split
    · rename_i execution hexecution
      intro hfollows
      obtain ⟨rounds, hrounds⟩ := hs.follows.accepted execution.turn
      have heffect : Effect s.log execution rounds choice
          (advance s.log s.cache execution choice) :=
        advance_effect hrounds (hs.follows.running execution hexecution rounds hrounds) choice
      obtain ⟨after, hafter, -⟩ := heffect.rounds_after
      obtain ⟨hfresh, htracks⟩ := hs.effect hexecution hrounds heffect hlabel hafter
      have hself := roundsOf_apply hrounds hafter
      refine ⟨hfollows, ?_, ?_⟩
      · intro other rounds' hrounds'
        by_cases hturn : some execution.turn = some other
        · cases hturn
          rw [← Option.some.inj (hself.symm.trans hrounds')]
          exact hfresh
        · rw [Conversation.apply, turnData_append_other _ _ hturn] at hrounds'
          exact hs.fresh other rounds' hrounds'
      · intro execution' hrunning hstage rounds' hrounds'
        obtain ⟨stage, hmoved, rfl⟩ := Option.map_eq_some_iff.mp hrunning
        rw [← Option.some.inj (hself.symm.trans hrounds')]
        exact htracks stage hmoved hstage
    · exact fun _ ↦ hs
  | stop | suspend | crash => exact ⟨hfollows, hs.fresh, by simp [Conversation.next]⟩
  | respond turn body =>
    revert hfollows
    simp only [Conversation.next]
    split
    · exact fun hfollows ↦ ⟨hfollows, hs.fresh, hs.tracks⟩
    · exact fun _ ↦ hs
  | deliver index =>
    revert hfollows
    simp only [Conversation.next]
    split
    · exact fun hfollows ↦ hs.of_neutral hfollows rfl (by simp [EventData.neutral]) rfl
    · exact fun _ ↦ hs
  | conclude turn data =>
    exact hs.of_neutral hfollows rfl (by simpa using concludes_neutral henabled.2.2.1) rfl
  | note turn kind => exact hs.of_neutral hfollows rfl (by simp [EventData.neutral]) rfl

/-- The turn is resumed after its last round, with no call left to resolve. -/
structure Resumable (log : Log) (turn : TurnRecord) : Prop where
  restored : restoreRecoveryTools log turn = .ok ∅
  loaded : loadTurnProgress log turn =
    .ok ⟨((roundNumbers (turnData log turn)).getLast?.map (· + 1)).getD 0, none⟩

theorem resumable_of_pending_nil (hsole : SoleRecord log turn)
    (hrounds : roundsOf (turnData log turn) = some rounds) (hpending : rounds.pending = []) :
    Resumable log turn := by
  constructor
  · obtain ⟨-, hrecovered⟩ := recovered_of_roundsOf hrounds
    rw [← recoveredTools_eq hsole, Rounds.retained, hpending] at hrecovered
    unfold restoreRecoveryTools
    dsimp only
    rw [hrecovered]
    rfl
  · have hreplay : replayRounds log turn = .ok ⟨rounds.round, []⟩ := by
      rw [replayRounds_eq, replay_of_roundsOf hrounds, hpending]
    unfold loadTurnProgress
    rw [hreplay, (lists_of_roundsOf hrounds).2.2]
    cases rounds.round with
    | none => rfl
    | some round => rfl

theorem pending_nil_of_balanced (hrounds : roundsOf (turnData log turn) = some rounds)
    (hbalanced : balanced log turn = true) : rounds.pending = [] := by
  obtain ⟨hcalls, hresults, -⟩ := lists_of_roundsOf hrounds
  have hlengths := of_decide_eq_true hbalanced
  rw [hcalls, hresults] at hlengths
  simp only [Rounds.calls, Rounds.answered, callIds, length_map, length_append] at hlengths
  apply eq_nil_of_length_eq_zero
  omega

/-- **Suspension boundaries are resumable.**  In every run in which the last call of each committed
round is fresh, with any crashes and recoveries: at a boundary the turn is resumed after its last
round with no call to resolve, and in every state in which the execution is past its restoration,
the set in memory is empty exactly when either replay of the log finds no pending call. -/
theorem suspension_boundaries_are_resumable (labels : List Label)
    (hrun : (Conversation.system.restrict Distinguished).Admits {} labels) :
    let s := Conversation.system.exec {} labels
    ∀ execution, s.execution = some execution →
      ((Conversation.system.restrict Distinguished).enabled s .suspend →
        Resumable (s.next .suspend).log execution.turn) ∧
      (execution.stage ≠ .restore →
        (execution.pendingTools = ∅ ↔
          ∃ replay, replayRounds s.log execution.turn = .ok replay ∧ replay.pending = []) ∧
        (execution.pendingTools = ∅ ↔ (recoveredTools s.log execution.turn).pending = [])) := by
  intro s execution hexecution
  have htracked : Tracked s := by
    refine System.invariant_of_restrict Tracked ?_ ?_ hrun
    · exact fun state label hstate henabled hlabel ↦ hstate.step henabled hlabel
    · refine ⟨follows_init, ?_, by simp⟩
      rintro turn rounds ⟨⟩
      rfl
  obtain ⟨rounds, hrounds⟩ := htracked.follows.accepted execution.turn
  have hsole := htracked.follows.coherent.sole (htracked.follows.begun execution hexecution)
  constructor
  · rintro ⟨hboundary, hdistinguished⟩
    refine resumable_of_pending_nil hsole hrounds ?_
    by_cases hstage : execution.stage = .restore
    · exact pending_nil_of_balanced hrounds (hdistinguished execution hexecution hstage)
    · have hempty : execution.pendingTools = ∅ := by
        simpa [Conversation.system, Conversation.enabled, hexecution] using hboundary
      exact (htracked.tracks execution hexecution hstage rounds hrounds).eq_empty_iff.mp hempty
  · intro hstage
    have hiff := (htracked.tracks execution hexecution hstage rounds hrounds).eq_empty_iff
    constructor
    · rw [hiff, replayRounds_eq, replay_of_roundsOf hrounds]
      constructor
      · exact fun hpending ↦ ⟨_, rfl, hpending⟩
      · rintro ⟨replay, hreplay, hpending⟩
        cases hreplay
        exact hpending
    · rw [hiff, recoveredTools_eq hsole, (recovered_of_roundsOf hrounds).2, map_eq_nil_iff]
      exact (retained_eq_nil_iff (htracked.fresh execution.turn rounds hrounds)).symm

/-- A turn is suspended after a round of two calls, resumed, and suspended again once its pending
set is restored. -/
theorem suspension_boundaries_are_resumable_after_round :
    let read : ExecutableToolRequest := ⟨"a", ⟨"read", "", none⟩⟩
    let write : ExecutableToolRequest := ⟨"b", ⟨"write", "", none⟩⟩
    let labels : List Label := [
      .begin ⟨1, 9⟩ [.user "go"] {},
      .step .proceed,
      .step (.complete ⟨[], [read, write], false⟩),
      .step .proceed,
      .step .proceed,
      .step (.output (.ok (.json "1"))),
      .step .proceed,
      .step .proceed,
      .step .proceed,
      .step (.output (.error "disk full")),
      .step .proceed,
      .suspend,
      .recover ⟨1, 9⟩ {},
      .step .proceed]
    let s := Conversation.system.exec {} labels
    Resumable (s.next .suspend).log ⟨1, 9⟩ := by
  intro read write labels s
  have hturn : s.execution.map (·.turn) = some ⟨1, 9⟩ := by decide +kernel
  obtain ⟨execution, hexecution, hrecord⟩ := Option.map_eq_some_iff.mp hturn
  have hresumable := (suspension_boundaries_are_resumable labels (by decide +kernel) execution
    hexecution).1 (by decide +kernel)
  rw [hrecord] at hresumable
  exact hresumable

/-- With a repeated id the set in memory is empty after the first result.  The turn is taken there,
and `load_turn_progress` refuses the second call. -/
theorem suspension_boundary_is_not_resumable : ¬ ∀ labels, Conversation.system.Admits {} labels →
      let s := Conversation.system.exec {} labels
      ∀ execution, s.execution = some execution → execution.stage ≠ .restore →
        Conversation.system.enabled s .suspend →
          Resumable (s.next .suspend).log execution.turn := by
  intro hall
  let labels : List Label := [
    .begin ⟨1, 9⟩ [.user "go"] {},
    .step .proceed,
    .step (.complete ⟨[], [⟨"a", ⟨"read", "", none⟩⟩, ⟨"a", ⟨"write", "", none⟩⟩], false⟩),
    .step .proceed,
    .step .proceed,
    .step (.output (.ok (.json "1"))),
    .step .proceed]
  have hstage : (Conversation.system.exec {} labels).execution.map (fun execution ↦
      (execution.turn, decide (execution.stage = .restore))) = some (⟨1, 9⟩, false) := by
    decide +kernel
  obtain ⟨execution, hexecution, heq⟩ := Option.map_eq_some_iff.mp hstage
  obtain ⟨hturn, hactive⟩ := Prod.mk.inj heq
  have hresumable := hall labels (by decide +kernel) execution hexecution
    (of_decide_eq_false hactive) (by decide +kernel)
  rw [hturn] at hresumable
  exact absurd hresumable.loaded (by decide +kernel)

end Exo.BasicExecutor.Suspension
