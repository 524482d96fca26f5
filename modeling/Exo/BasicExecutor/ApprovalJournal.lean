import Exo.BasicExecutor.Approvals

/-!
# The approval events of one turn

The journal of a turn is orderly if every approval is asked for under an id that is new to the turn
and every response answers an approval that was asked for and has none.  Then a response is the only
one to its approval, the loop of `authorize`, which keeps the last response, and the stream, which
takes the first, find the same one, and what the endpoint regards as pending has no response yet.
-/

namespace Exo.BasicExecutor

open Library TurnCoordinator List

/-- The ids of the approvals asked for. -/
def approvalIds (events : List EventData) : List ApprovalId :=
  (asked events).map (·.approvalId)

/-- The event may follow the others: it asks under a new id, or gives the first response to an
approval. -/
def Admissible (events : List EventData) : EventData → Prop
  | .approvalRequested approval => approval.approvalId ∉ approvalIds events
  | .approvalResponse response =>
    response.approvalId ∈ approvalIds events ∧ response.approvalId ∉ answerIds events
  | _ => True

/-- A journal in which every event could follow the ones before it. -/
inductive Orderly : List EventData → Prop where
  | nil : Orderly []
  | concat {events : List EventData} {event : EventData} (hevents : Orderly events)
      (hevent : Admissible events event) : Orderly (events ++ [event])

/-- The event neither asks for an approval nor answers one. -/
def EventData.silent : EventData → Bool
  | .approvalRequested _ => false
  | .approvalResponse _ => false
  | _ => true

@[simp]
theorem approvalIds_append (first second : List EventData) :
    approvalIds (first ++ second) = approvalIds first ++ approvalIds second := by
  unfold approvalIds
  rw [asked_append, map_append]

variable {events : List EventData} {response : ApprovalResponse}
  {approval : ApprovalRequest} {batch : List EventData} {log : Log} {turn : TurnRecord}

theorem mem_approvalIds (hmem : .approvalRequested approval ∈ events) :
    approval.approvalId ∈ approvalIds events :=
  mem_map_of_mem (mem_asked.mpr hmem)

theorem exists_of_mem_answerIds {approvalId : ApprovalId} (hmem : approvalId ∈ answerIds events) :
    ∃ response, .approvalResponse response ∈ events ∧ response.approvalId = approvalId := by
  obtain ⟨event, hevent, hsome⟩ := mem_filterMap.mp hmem
  cases event with
  | approvalResponse response => exact ⟨response, hevent, Option.some.inj hsome⟩
  | _ => cases hsome

theorem lists_of_silent (hsilent : ∀ event ∈ batch, event.silent = true) :
    asked batch = [] ∧ answerIds batch = [] := by
  constructor
  · apply filterMap_eq_nil_iff.mpr
    intro event hevent
    cases event with
    | approvalRequested => cases hsilent _ hevent
    | _ => rfl
  · apply filterMap_eq_nil_iff.mpr
    intro event hevent
    cases event with
    | approvalResponse => cases hsilent _ hevent
    | _ => rfl

theorem silent_modelResponseEvents (response : ModelResponse) :
    ∀ event ∈ modelResponseEvents response, event.silent = true := by
  intro event hevent
  rcases mem_modelResponseEvents hevent with rfl | ⟨call, -, rfl⟩ <;> rfl

theorem Admissible.append (hadmissible : Admissible events (.approvalResponse response))
    (hbatch : answerIds batch = []) :
    Admissible (events ++ batch) (.approvalResponse response) := by
  refine ⟨?_, ?_⟩
  · rw [approvalIds_append]
    exact mem_append_left _ hadmissible.1
  · rw [answerIds_append, hbatch, append_nil]
    exact hadmissible.2

namespace Orderly

variable {events : List EventData}

section
variable (hevents : Orderly events)
include hevents

theorem append_silent {batch : List EventData} (hsilent : ∀ event ∈ batch, event.silent = true) :
    Orderly (events ++ batch) := by
  induction batch using reverseRecOn with
  | nil => rwa [append_nil]
  | append_singleton batch event ih =>
    rw [← append_assoc]
    refine .concat (ih (fun other hother ↦ hsilent other (mem_append_left _ hother))) ?_
    have hevent := hsilent event (by simp)
    cases event with
    | approvalRequested | approvalResponse => cases hevent
    | _ => trivial

theorem asked_of_answered {approvalId : ApprovalId} (hmem : approvalId ∈ answerIds events) :
    approvalId ∈ approvalIds events := by
  induction hevents with
  | nil => cases hmem
  | @concat events event _ hevent ih =>
    rw [answerIds_append, mem_append] at hmem
    rw [approvalIds_append]
    apply mem_append_left
    rcases hmem with hold | hnew
    · exact ih hold
    · obtain ⟨response, hresponse, rfl⟩ := exists_of_mem_answerIds hnew
      rw [← mem_singleton.mp hresponse] at hevent
      exact hevent.1

theorem answerIds_nodup : (answerIds events).Nodup := by
  induction hevents with
  | nil => exact nodup_nil
  | @concat events event _ hevent ih =>
    rw [answerIds_append]
    cases event with
    | approvalResponse response =>
      have hnew : (answerIds [.approvalResponse response]) = [response.approvalId] := rfl
      rw [hnew]
      exact concat_eq_append ▸ ih.concat hevent.2
    | _ =>
      rw [(rfl : answerIds [_] = []), append_nil]
      exact ih

theorem response_unique {first second : ApprovalResponse}
    (hfirst : .approvalResponse first ∈ events) (hsecond : .approvalResponse second ∈ events)
    (hid : first.approvalId = second.approvalId) : first = second := by
  induction hevents with
  | nil => cases hfirst
  | @concat events event _ hevent ih =>
    -- A response at the end is new, so it is both of them or neither.
    have hnew {response other : ApprovalResponse}
        (hresponse : EventData.approvalResponse response ∈ events)
        (hother : EventData.approvalResponse other ∈ [event])
        (hsame : response.approvalId = other.approvalId) : response = other := by
      rw [← mem_singleton.mp hother] at hevent
      exact absurd (hsame ▸ mem_answerIds hresponse) hevent.2
    rcases mem_append.mp hfirst with hold | hlast
    · rcases mem_append.mp hsecond with hold' | hlast'
      · exact ih hold hold'
      · exact hnew hold hlast' hid
    · rcases mem_append.mp hsecond with hold' | hlast'
      · exact (hnew hold' hlast hid.symm).symm
      · rw [← mem_singleton.mp hlast'] at hlast
        exact EventData.approvalResponse.inj (mem_singleton.mp hlast)

variable {round : ℕ} {call : ExecutableToolRequest}

/-- If the loop finds an approval and no response, there is none. -/
theorem unanswered {approval : ApprovalRequest}
    (hfound : existingApproval round call events = .ok (some ⟨approval, none⟩)) :
    approval.approvalId ∉ answerIds events := by
  generalize hsome : (⟨approval, none⟩ : ExistingApproval) = found at hfound
  induction hevents generalizing found with
  | nil => cases hfound
  | @concat events event hevents hevent ih =>
    obtain ⟨before, hbefore, hstep⟩ := existingApproval_concat hfound
    rw [answerIds_append, mem_append, not_or]
    cases existingStep_found hstep with
    | requested hfor =>
      cases hsome
      refine ⟨fun hmem ↦ ?_, by simp [answerIds]⟩
      exact hevent (hevents.asked_of_answered hmem)
    | answered hkept hid => cases hsome
    | kept hkept hother =>
      subst hkept
      refine ⟨ih found hsome hbefore, fun hmem ↦ ?_⟩
      obtain ⟨response, hresponse, hid⟩ := exists_of_mem_answerIds hmem
      refine hother response (mem_singleton.mp hresponse).symm ?_
      rw [hid, ← hsome]

/-- The loop finds the response to the approval it finds. -/
theorem answer_eq {found : ExistingApproval}
    (hfound : existingApproval round call events = .ok (some found))
    (hmem : .approvalResponse response ∈ events)
    (hid : response.approvalId = found.approval.approvalId) : found.answer = some response := by
  obtain ⟨approval, answer⟩ := found
  cases answer with
  | none => exact absurd (hid ▸ mem_answerIds hmem) (hevents.unanswered hfound)
  | some other =>
    obtain ⟨hother, hsame⟩ := (existingApproval_spec hfound).2.2 other rfl
    rw [hevents.response_unique hmem hother (hid.trans hsame.symm)]

end

end Orderly

/-- The loop reads the approval events only. -/
theorem existingApproval_turnApprovals (log : Log) (turn : TurnRecord) (round : ℕ)
    (call : ExecutableToolRequest) :
    existingApproval round call (turnApprovals log turn) =
      existingApproval round call (turnData log turn) := by
  rw [turnApprovals_eq]
  apply foldlM_filter_of_skip
  intro found event hskip
  cases event with
  | approvalRequested | approvalResponse | turnEnded => cases hskip
  | _ => rfl

section Later
variable {round : ℕ} {call : ExecutableToolRequest} {events : List EventData}

theorem existingApproval_append (round : ℕ) (call : ExecutableToolRequest)
    (events batch : List EventData) :
    existingApproval round call (events ++ batch) =
      existingApproval round call events >>= fun found ↦
        batch.foldlM (existingStep round call) found :=
  foldlM_append

variable {message : String}

theorem existingApproval_append_error (herror : existingApproval round call events = .error message)
    (batch : List EventData) : existingApproval round call (events ++ batch) = .error message := by
  rw [existingApproval_append, herror]
  rfl

/-- The loop finds the same approval while none is asked for. -/
theorem existingApproval_append_unasked {found : ExistingApproval}
    (hfound : existingApproval round call events = .ok (some found)) {batch : List EventData}
    (hasked : asked batch = []) :
    ∃ answer, existingApproval round call (events ++ batch) =
      .ok (some ⟨found.approval, answer⟩) := by
  induction batch using reverseRecOn with
  | nil =>
    rw [append_nil]
    exact ⟨found.answer, hfound⟩
  | append_singleton batch event ih =>
    rw [asked_append, append_eq_nil_iff] at hasked
    obtain ⟨answer, hbefore⟩ := ih hasked.1
    rw [← append_assoc, existingApproval_append, hbefore]
    change ∃ answer', foldlM (existingStep round call) _ [event] = _
    rw [foldlM_cons]
    cases event with
    | approvalRequested => cases hasked.2
    | approvalResponse response =>
      simp only [existingStep]
      split
      · exact ⟨some response, rfl⟩
      · exact ⟨answer, rfl⟩
    | _ => exact ⟨answer, rfl⟩

/-- The loop finds the approval that was asked for last, unless it fails. -/
theorem existingApproval_ask {approval : ApprovalRequest} (hfor : approval.isFor round call) :
    (∃ message, existingApproval round call (events ++ [.approvalRequested approval]) =
        .error message) ∨
      existingApproval round call (events ++ [.approvalRequested approval]) =
        .ok (some { approval }) := by
  cases hbefore : existingApproval round call events with
  | error message => exact .inl ⟨message, existingApproval_append_error hbefore _⟩
  | ok before =>
    right
    obtain ⟨hid, hround, hrequest⟩ := hfor
    rw [existingApproval_append, hbefore]
    change foldlM (existingStep round call) before [_] = _
    rw [foldlM_cons]
    simp only [existingStep]
    rw [if_pos ⟨hid, hround⟩, if_pos hrequest]
    rfl

/-- The loop fails only at an approval for the id and the round of the call with another request. -/
theorem existingApproval_error (herror : existingApproval round call events = .error message) :
    message = "saved approval has a different tool request" ∧
      ∃ approval ∈ asked events, approval.toolCallId = some call.toolCallId ∧
        approval.round = some round ∧ approval.request ≠ call.request := by
  induction events using reverseRecOn with
  | nil => cases herror
  | append_singleton events event ih =>
    rw [existingApproval_append] at herror
    rw [asked_append]
    cases hbefore : existingApproval round call events with
    | error message' =>
      rw [hbefore] at herror
      cases herror
      obtain ⟨hmessage, approval, hasked, hspec⟩ := ih hbefore
      exact ⟨hmessage, approval, mem_append_left _ hasked, hspec⟩
    | ok before =>
      rw [hbefore] at herror
      change foldlM (existingStep round call) before [event] = _ at herror
      rw [foldlM_cons] at herror
      cases event with
      | approvalRequested approval =>
        simp only [existingStep] at herror
        split at herror
        · rename_i hmatches
          split at herror <;> cases herror
          rename_i hrequest
          exact ⟨rfl, approval, by simp [asked], hmatches.1, hmatches.2, hrequest⟩
        · cases herror
      | approvalResponse response =>
        simp only [existingStep] at herror
        split at herror
        · split at herror <;> cases herror
        · cases herror
      | _ => cases herror

end Later

theorem authorize_saved {round : ℕ} {call : ExecutableToolRequest} (policy : PermissionPolicy)
    (hfound : existingApproval round call (turnData log turn) =
      .ok (some ⟨approval, some response⟩)) :
    authorize log turn policy round call true =
      if response.approved then .execute else .result (.failure (denied call)) := by
  unfold authorize
  rw [existingApproval_turnApprovals, hfound]
  simp

section
variable (log : Log) (turn : TurnRecord) (policy : PermissionPolicy) (round : ℕ)
  (call : ExecutableToolRequest)

/-- A resumed `authorize` waits for an approval without a response, and lets a call through if the
response approves it. -/
theorem authorize_resumed :
    (∃ approval after, authorize log turn policy round call true = .wait approval after ∧
        existingApproval round call (turnData log turn) = .ok (some ⟨approval, none⟩) ∧
        (approvalEvents log (turnQuery turn)).2 = some after) ∨
      (authorize log turn policy round call true = .execute ∧ ∃ approval response,
        existingApproval round call (turnData log turn) = .ok (some ⟨approval, some response⟩) ∧
          response.approved = true) ∨
      ∃ value, authorize log turn policy round call true = .result value := by
  unfold authorize
  rw [existingApproval_turnApprovals, if_neg (by simp), if_pos rfl]
  cases existingApproval round call (turnData log turn) with
  | error message => exact .inr (.inr ⟨_, rfl⟩)
  | ok found =>
    match found with
    | none => exact .inr (.inr ⟨_, rfl⟩)
    | some ⟨approval, none⟩ =>
      cases hafter : (approvalEvents log (turnQuery turn)).2 with
      | none => exact .inr (.inr ⟨_, rfl⟩)
      | some after => exact .inl ⟨approval, after, rfl, rfl, rfl⟩
    | some ⟨approval, some response⟩ =>
      right
      dsimp only
      split
      · rename_i happroved
        exact .inl ⟨rfl, approval, response, rfl, happroved⟩
      · exact .inr ⟨_, rfl⟩

theorem authorize_first :
    (authorize log turn policy round call false = .execute ∧ policy = .alwaysAllow) ∨
      authorize log turn policy round call false = .session := by
  unfold authorize
  split
  · rename_i hallow
    exact .inl ⟨rfl, hallow.2⟩
  · exact .inr rfl

end

theorem pendingFromEvents_filter (pending : List ApprovalRequest) (events : List EventData) :
    pendingFromEvents pending (events.filter (fun data ↦ approvalKinds.contains data.kind)) =
      pendingFromEvents pending events := by
  induction events generalizing pending with
  | nil => rfl
  | cons event events ih =>
    cases event with
    | approvalRequested | approvalResponse => exact ih _
    | turnEnded => rfl
    | _ => exact ih pending

/-- A pending approval was pending before, or is asked for, and has no response behind that. -/
theorem mem_pendingFromEvents {pending : List ApprovalRequest} {request : ApprovalRequest}
    (hmem : request ∈ pendingFromEvents pending events) :
    (request ∈ pending ∧ request.approvalId ∉ answerIds events) ∨
      ∃ before after, events = before ++ .approvalRequested request :: after ∧
        request.approvalId ∉ answerIds after := by
  induction events generalizing pending with
  | nil => exact .inl ⟨hmem, by simp [answerIds]⟩
  | cons event events ih =>
    have hlater {before after : List EventData}
        (hsplit : events = before ++ .approvalRequested request :: after)
        (hanswers : request.approvalId ∉ answerIds after) :
        ∃ before after, event :: events = before ++ .approvalRequested request :: after ∧
          request.approvalId ∉ answerIds after :=
      ⟨event :: before, after, by rw [hsplit, cons_append], hanswers⟩
    cases event with
    | approvalRequested approval =>
      rcases ih hmem with ⟨hpending, hanswers⟩ | ⟨before, after, hsplit, hanswers⟩
      · rcases mem_append.mp hpending with hold | hnew
        · exact .inl ⟨(mem_filter.mp hold).1, hanswers⟩
        · rw [mem_singleton.mp hnew] at hanswers ⊢
          exact .inr ⟨[], events, rfl, hanswers⟩
      · exact .inr (hlater hsplit hanswers)
    | approvalResponse response =>
      rcases ih hmem with ⟨hpending, hanswers⟩ | ⟨before, after, hsplit, hanswers⟩
      · obtain ⟨hold, hother⟩ := mem_filter.mp hpending
        refine .inl ⟨hold, fun hanswer ↦ ?_⟩
        rcases mem_cons.mp hanswer with hsame | hrest
        · exact of_decide_eq_true hother hsame
        · exact hanswers hrest
      · exact .inr (hlater hsplit hanswers)
    | turnEnded => cases hmem
    | _ =>
      rcases ih hmem with hold | ⟨before, after, hsplit, hanswers⟩
      · exact .inl hold
      · exact .inr (hlater hsplit hanswers)

theorem Orderly.at {before after : List EventData} {event : EventData}
    (hevents : Orderly (before ++ event :: after)) : Orderly before ∧ Admissible before event := by
  induction after using reverseRecOn with
  | nil =>
    generalize hsame : before ++ [event] = events at hevents
    cases hevents with
    | nil => simp at hsame
    | concat hevents hevent =>
      obtain ⟨rfl, hlast⟩ := append_inj' hsame rfl
      cases hlast
      exact ⟨hevents, hevent⟩
  | append_singleton after last ih =>
    apply ih
    rw [← cons_append, ← append_assoc] at hevents
    generalize hsame : before ++ event :: after ++ [last] = events at hevents
    cases hevents with
    | nil => simp at hsame
    | concat hevents _ =>
      obtain ⟨rfl, -⟩ := append_inj' hsame rfl
      exact hevents

/-- The endpoint makes the first response to an approval. -/
theorem respond_admissible {body : ApprovalResponseBody} (hjournal : Orderly (turnData log turn))
    (hrespond : respond log turn body = .ok response) :
    Admissible (turnData log turn) (.approvalResponse response) := by
  unfold respond at hrespond
  rw [turnApprovals_eq, pendingFromEvents_filter] at hrespond
  split at hrespond
  · cases hrespond
  · split at hrespond <;> cases hrespond
    rename_i request hfind
    have hid : request.approvalId = body.approvalId := by simpa using find?_some hfind
    rcases mem_pendingFromEvents (mem_of_find?_eq_some hfind) with
      ⟨hnone, -⟩ | ⟨before, after, hsplit, hanswers⟩
    · cases hnone
    · rw [hsplit] at hjournal ⊢
      obtain ⟨hbefore, hfresh⟩ := hjournal.at
      refine ⟨?_, ?_⟩
      · rw [← hid]
        exact mem_approvalIds (by simp)
      · rw [← hid, answerIds_append, mem_append, not_or]
        exact ⟨fun hmem ↦ hfresh (hbefore.asked_of_answered hmem), hanswers⟩

/-- A response in the stream is heard, if the turn does not end. -/
theorem exists_watchAnswer {turn : TurnRecord} {approvalId : ApprovalId} {events : List Event}
    (hended : ∀ event ∈ events, event.turn = some turn → event.data ≠ .turnEnded)
    (hresponse : ∃ event ∈ events, event.turn = some turn ∧ ∃ response,
      event.data = .approvalResponse response ∧ response.approvalId = approvalId) :
    ∃ approved, watchAnswer turn approvalId events = .response approved := by
  induction events with
  | nil => simp at hresponse
  | cons event events ih =>
    have hrest := ih (fun other hother ↦ hended other (mem_cons_of_mem _ hother))
    obtain ⟨found, hfound, hturn, response, hdata, hid⟩ := hresponse
    unfold watchAnswer
    rcases mem_cons.mp hfound with rfl | hlater
    · rw [if_pos hturn, hdata]
      simp only
      rw [if_pos hid]
      exact ⟨response.approved, rfl⟩
    · have hanswer := hrest ⟨found, hlater, hturn, response, hdata, hid⟩
      split
      · rename_i hhere
        split
        · split
          · exact ⟨_, rfl⟩
          · exact hanswer
        · rename_i hdone
          exact absurd hdone (hended event (by simp) hhere)
        · exact hanswer
      · exact hanswer

end Exo.BasicExecutor
