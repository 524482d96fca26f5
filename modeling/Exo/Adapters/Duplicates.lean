import Exo.Adapters.Inbound

/-!
# Duplicates of inbound messages

What a step does to the markers and to the wakeups is one of four things.  So a submitted message
has its marker and is not submitted again; and if no call is stopped between the two, every marker
is that of a message that is submitted, or of the one that is being handled.
-/

namespace Exo.Adapters

open Library Option List System

variable {adapter : InboundAdapter} {inbox inbox' : Inbox} {label : InboundLabel}

/-! ## What a step does -/

def Then.isOpen : Then → Bool
  | images | rest .. => true
  | finish => false

/-- The call is past the marker and before the submission. -/
def Stage.isOpen : Stage → Bool
  | writing | downloading .. | sending _ => true
  | recording _ _ following | touching following => following.isOpen
  | marking _ | awaiting | markingError _ => false

/-- At this stage a failure ends the call before the submission. -/
def Stage.isFragile : Stage → Bool
  | writing | sending _ | recording _ _ .images | touching .images => true
  | _ => false

def Stage.isMarking : Stage → Bool
  | marking _ => true
  | _ => false

/-- The marker that a message with the id would have. -/
def Inbox.marker (adapter : InboundAdapter) (inbox : Inbox) (target messageId : String) :
    Option AdapterInboundMessageRecord :=
  inbox.files.inboundSeen adapter.id (stableMessageKey target messageId)

variable (adapter : InboundAdapter) (inbox : Inbox) (call : Handling) in
/-- What a step of a call does to the markers, the wakeups and the call. -/
inductive Effect :
    Answer → Inbox → Prop
  /-- The call is at another stage, or over. -/
  | quiet {answer : Answer} (stage : Option Stage) (events : List AdapterEventRecord)
      (stored : Option AdapterRecord)
      (hmarking : ∀ after ∈ stage, after.isMarking = false)
      (hopen : ∀ after ∈ stage, after.isOpen = true → call.stage.isOpen = true)
      (hends : call.stage.isOpen = true → (∃ after ∈ stage, after.isOpen = true) ∨
        call.stage.isFragile = true ∧ ∃ error, answer = .failed error) :
      Effect answer ({ inbox with events, stored }.goTo call stage)
  /-- There is a marker already. -/
  | duplicate (messageId : String) (hstage : call.stage = .marking messageId) :
      Effect .done (inbox.goTo call none)
  /-- The marker is created. -/
  | marked (messageId : String) (nowMs : ℕ) (hstage : call.stage = .marking messageId)
      (hmarker : inbox.marker adapter call.message.target messageId = none) :
      Effect .done ({ inbox with
        files := (inbox.files.recordInboundMessageOnce adapter.id call.message.target messageId
          nowMs).2 }.goTo call (some .writing))
  /-- The wakeup is submitted. -/
  | submitted (parts : List UserContentPart) (hstage : call.stage = .sending parts) :
      Effect .done ({ inbox with
        wakeups := inbox.wakeups ++ [Wakeup.mk call.conversationId call.message
          (wakeupContent adapter call.message parts)] }.goTo call (some .awaiting))

@[simp]
theorem isOpen_recording (eventType : AdapterEventType) (summary : String) (next : Then) :
    (Stage.recording eventType summary next).isOpen = next.isOpen := rfl

@[simp]
theorem isOpen_touching (next : Then) : (Stage.touching next).isOpen = next.isOpen := rfl

section
variable (remaining : List AdapterAttachment)

@[simp]
theorem isOpen_images (parts : List UserContentPart) :
    (Stage.images remaining parts).isOpen = true := by
  cases remaining <;> rfl

@[simp]
theorem isMarking_images (parts : List UserContentPart) :
    (Stage.images remaining parts).isMarking = false := by
  cases remaining <;> rfl

end

theorem recordInboundMessageOnce_eq (files : KeyedFiles) (adapterId target messageId : String)
    (nowMs : ℕ) :
    (files.recordInboundMessageOnce adapterId target messageId nowMs).1 =
      (files.inboundSeen adapterId (stableMessageKey target messageId)).isNone := by
  simp only [KeyedFiles.recordInboundMessageOnce]
  cases files.inboundSeen adapterId (stableMessageKey target messageId) <;> rfl

variable {call : Handling} {answer : Answer}
  {eventId : String} {nowMs : ℕ} {labels : List InboundLabel}

/-- Each step of a call is one of the four. -/
theorem effect_of_resume (hresume : inbox.resume adapter call eventId nowMs answer = some inbox') :
    Effect adapter inbox call answer inbox' := by
  obtain ⟨conversationId, message, stage⟩ := call
  cases answer with
  | done =>
    cases stage with
    | marking messageId =>
      have hnew := recordInboundMessageOnce_eq inbox.files adapter.id message.target messageId nowMs
      cases hrecord : inbox.files.recordInboundMessageOnce adapter.id message.target messageId nowMs
        with
      | mk new files =>
        rw [hrecord] at hnew
        cases new with
        | false =>
          simp only [Inbox.resume, hrecord, some.injEq] at hresume
          subst hresume
          exact .duplicate messageId rfl
        | true =>
          simp only [Inbox.resume, hrecord, some.injEq] at hresume
          have hnone : inbox.marker adapter message.target messageId = none := by
            simpa [Inbox.marker] using hnew.symm
          have hmarked : Effect adapter inbox ⟨conversationId, message, .marking messageId⟩ .done
              _ := .marked messageId nowMs rfl hnone
          rw [hrecord] at hmarked
          exact hresume ▸ hmarked
    | writing | markingError error =>
      cases hresume
      exact .quiet _ _ _ (by simp [Stage.isMarking]) (by simp [Stage.isOpen, Then.isOpen])
        (by simp [Stage.isOpen, Then.isOpen])
    | recording eventType summary next =>
      cases hresume
      exact .quiet _ _ _ (by simp [Stage.isMarking]) (by simp) (by simp)
    | touching next =>
      cases hresume
      exact .quiet _ _ _ (by cases next <;> simp [Then.stage])
        (by cases next <;> simp [Then.isOpen, Then.stage])
        (by cases next <;> simp [Then.isOpen, Then.stage])
    | downloading image remaining parts => cases hresume
    | sending parts =>
      cases hresume
      exact .submitted parts rfl
    | awaiting =>
      cases hresume
      exact .quiet _ _ _ (by simp) (by simp) (by simp [Stage.isOpen])
  | downloaded bytes =>
    cases stage with
    | downloading image remaining parts =>
      cases hresume
      exact .quiet _ _ _ (by simp) (by simp [Stage.isOpen]) (by simp)
    | _ => cases hresume
  | failed error =>
    cases stage with
    | recording eventType summary next | touching next =>
      cases hresume
      exact .quiet _ _ _ (by cases next <;> simp [Then.stageOnError])
        (by cases next <;> simp [Then.isOpen, Then.stageOnError])
        (by cases next <;> simp [Then.isOpen, Stage.isFragile, Then.stageOnError])
    | downloading image remaining parts =>
      cases hresume
      exact .quiet _ _ _ (by simp [Stage.isMarking]) (by simp [Stage.isOpen, Then.isOpen])
        (by simp [Stage.isOpen, Then.isOpen])
    | sending parts | awaiting =>
      cases hresume
      exact .quiet _ _ _ (by simp [Stage.isMarking]) (by simp [Stage.isOpen])
        (by simp [Stage.isOpen, Stage.isFragile])
    | marking messageId | writing | markingError error' =>
      cases hresume
      exact .quiet _ _ _ (by simp) (by simp) (by simp [Stage.isOpen, Stage.isFragile])

/-! ## Nothing is submitted twice -/

/-- The message with an id in a target. -/
def WorkerMessage.Is (message : WorkerMessage) (target messageId : String) : Prop :=
  message.target = target ∧ message.messageId = some messageId

instance (message : WorkerMessage) (target messageId : String) :
    Decidable (message.Is target messageId) := inferInstanceAs (Decidable (_ ∧ _))

/-- What was submitted for a message. -/
def Inbox.submissions (inbox : Inbox) (target messageId : String) : List Wakeup :=
  inbox.wakeups.filter fun wakeup ↦ wakeup.message.Is target messageId

section
variable (adapter : InboundAdapter)

/-- A submitted message has its marker, a message between the two has one and is not submitted, and
no message is submitted twice. -/
structure Inbox.Sound (inbox : Inbox) : Prop where
  marking : ∀ call ∈ inbox.task, ∀ messageId, call.stage = .marking messageId →
    call.message.messageId = some messageId
  marked : ∀ target messageId, inbox.submissions target messageId ≠ [] →
    (inbox.marker adapter target messageId).isSome = true
  opened : ∀ call ∈ inbox.task, call.stage.isOpen = true → ∀ target messageId,
    call.message.Is target messageId → (inbox.marker adapter target messageId).isSome = true ∧
      inbox.submissions target messageId = []
  once : ∀ target messageId, (inbox.submissions target messageId).length ≤ 1

theorem sound_empty : Inbox.empty.Sound adapter where
  marking := by simp [Inbox.empty]
  marked := by simp [Inbox.empty, Inbox.submissions]
  opened := by simp [Inbox.empty]
  once := by simp [Inbox.empty, Inbox.submissions]

theorem first_eq_marking {message : WorkerMessage}
    {target messageId : String} (his : message.Is target messageId) :
    Stage.first adapter message = .marking messageId := by
  rw [Stage.first, his.2]

end

/-- The marker that was created, and those that were there. -/
theorem marker_mark (files : KeyedFiles) (adapterId target messageId : String) (nowMs : ℕ)
    (hmarker : files.inboundSeen adapterId (stableMessageKey target messageId) = none)
    (key : List Char) :
    (files.recordInboundMessageOnce adapterId target messageId nowMs).2.inboundSeen adapterId key =
      if key = stableMessageKey target messageId then some ⟨adapterId, target, messageId, nowMs⟩
      else files.inboundSeen adapterId key := by
  simp [KeyedFiles.recordInboundMessageOnce, hmarker]

section
variable (hsound : inbox.Sound adapter)
include hsound

theorem Inbox.Sound.deliver (conversationId : String)
    (message : WorkerMessage) :
    Sound adapter
      { inbox with task := some ⟨conversationId, message, .first adapter message⟩ } where
  marking := by
    intro call hcall messageId hstage
    cases hcall
    cases hid : message.messageId with
    | none => simp [Stage.first, hid] at hstage
    | some other =>
      simp only [Stage.first, hid, Stage.marking.injEq] at hstage
      rw [← hstage]
  marked := hsound.marked
  opened := by
    intro call hcall hopen target messageId his
    cases hcall
    rw [first_eq_marking adapter his] at hopen
    cases hopen
  once := hsound.once

theorem Inbox.Sound.stop : Sound adapter { inbox with task := none } where
  marking := by simp
  marked := hsound.marked
  opened := by simp
  once := hsound.once

theorem Inbox.Sound.effect (hcall : call ∈ inbox.task)
    (heffect : Effect adapter inbox call answer inbox') : inbox'.Sound adapter := by
  cases heffect with
  | quiet stage events stored hmarking hopen hends =>
    refine ⟨?_, hsound.marked, ?_, hsound.once⟩
    · intro call' hcall' messageId hstage
      obtain ⟨after, hafter, rfl⟩ := map_eq_some_iff.1 hcall'
      have hnot := hmarking after hafter
      rw [show after = .marking messageId from hstage] at hnot
      cases hnot
    · intro call' hcall' hopen' target messageId his
      obtain ⟨after, hafter, rfl⟩ := map_eq_some_iff.1 hcall'
      exact hsound.opened call hcall (hopen after hafter hopen') target messageId his
  | duplicate messageId hstage => exact hsound.stop
  | marked messageId nowMs hstage hmarker =>
    have hid : call.message.messageId = some messageId := hsound.marking call hcall messageId hstage
    have hnone : inbox.submissions call.message.target messageId = [] := by
      by_contra hne
      have hsome := hsound.marked _ _ hne
      rw [hmarker] at hsome
      cases hsome
    have hkeeps : ∀ target other, (inbox.marker adapter target other).isSome = true →
        ((inbox.files.recordInboundMessageOnce adapter.id call.message.target messageId
          nowMs).2.inboundSeen adapter.id (stableMessageKey target other)).isSome = true := by
      intro target other hsome
      rw [marker_mark _ _ _ _ _ hmarker]
      split
      · rfl
      · exact hsome
    refine ⟨by simp [Inbox.goTo], fun target other hne ↦ hkeeps _ _ (hsound.marked _ _ hne), ?_,
      hsound.once⟩
    intro call' hcall' _ target other his
    cases hcall'
    obtain ⟨rfl, hother⟩ := his
    obtain rfl : other = messageId := some.inj (hother.symm.trans hid)
    refine ⟨?_, hnone⟩
    show ((inbox.files.recordInboundMessageOnce _ _ _ _).2.inboundSeen _ _).isSome = true
    rw [marker_mark _ _ _ _ _ hmarker, if_pos rfl]
    rfl
  | submitted parts hstage =>
    have hopen : call.stage.isOpen = true := by rw [hstage]; rfl
    have hsubmissions : ∀ target messageId,
        (inbox.wakeups ++ [Wakeup.mk call.conversationId call.message
          (wakeupContent adapter call.message parts)]).filter
            (fun wakeup ↦ wakeup.message.Is target messageId) =
          inbox.submissions target messageId ++
            if call.message.Is target messageId then [Wakeup.mk call.conversationId call.message
              (wakeupContent adapter call.message parts)] else [] := by
      intro target messageId
      rw [filter_append, filter_singleton]
      simp [Inbox.submissions]
    refine ⟨by simp [Inbox.goTo], ?_, by simp [Inbox.goTo, Stage.isOpen], ?_⟩
    · intro target messageId hne
      by_cases his : call.message.Is target messageId
      · exact (hsound.opened call hcall hopen _ _ his).1
      · refine hsound.marked target messageId fun hnil ↦ hne ?_
        exact (hsubmissions target messageId).trans (by rw [hnil, if_neg his, append_nil])
    · intro target messageId
      refine (congrArg length (hsubmissions target messageId)).trans_le ?_
      by_cases his : call.message.Is target messageId
      · rw [(hsound.opened call hcall hopen _ _ his).2, if_pos his]
        rfl
      · rw [if_neg his, append_nil]
        exact hsound.once target messageId

end

/-! ## Runs -/

inductive Steps (adapter : InboundAdapter) (inbox : Inbox) : InboundLabel → Inbox → Prop
  | deliver (message : WorkerMessage) (conversationId : String) (hidle : inbox.task = none) :
      Steps adapter inbox (.deliver message conversationId)
        { inbox with task := some ⟨conversationId, message, .first adapter message⟩ }
  | step {call : Handling} {answer : Answer} {inbox' : Inbox} (eventId : String) (nowMs : ℕ)
      (hcall : call ∈ inbox.task) (heffect : Effect adapter inbox call answer inbox') :
      Steps adapter inbox (.step eventId nowMs answer) inbox'
  | crash : Steps adapter inbox .crash { inbox with task := none }

theorem steps_of_enabled (henabled : (inbound adapter).enabled inbox label) :
    Steps adapter inbox label ((inbound adapter).next inbox label) := by
  have hnext : inbox.next adapter label = some ((inbound adapter).next inbox label) :=
    (getD_of_ne_none (isSome_iff_ne_none.1 henabled) _).symm
  generalize (inbound adapter).next inbox label = inbox' at hnext ⊢
  cases label with
  | deliver message conversationId =>
    rw [Inbox.next] at hnext
    split at hnext <;> cases hnext
    exact .deliver message conversationId (isNone_iff_eq_none.1 ‹_›)
  | step eventId nowMs answer =>
    obtain ⟨call, hcall, hresume⟩ := bind_eq_some_iff.1 hnext
    exact .step eventId nowMs hcall (effect_of_resume hresume)
  | crash =>
    cases hnext
    exact .crash

theorem Inbox.Sound.next (hsound : inbox.Sound adapter)
    (henabled : (inbound adapter).enabled inbox label) :
    ((inbound adapter).next inbox label).Sound adapter := by
  have hstep := steps_of_enabled henabled
  revert hstep
  generalize (inbound adapter).next inbox label = inbox'
  rintro (⟨message, conversationId, -⟩ | ⟨eventId, nowMs, hcall, heffect⟩ | -)
  · exact hsound.deliver conversationId message
  · exact hsound.effect hcall heffect
  · exact hsound.stop

theorem sound_exec (hrun : (inbound adapter).Admits .empty labels) :
    ((inbound adapter).exec .empty labels).Sound adapter :=
  invariant (Inbox.Sound adapter) (fun _ _ hsound henabled ↦ hsound.next henabled)
    (sound_empty adapter) hrun

/-! ## A marker without a submission -/

section
variable (adapter : InboundAdapter) (inbox : Inbox)

/-- No call for a message with an id ends after the marker and before the submission, and a marker
that is found is that of the message itself. -/
def Carries : InboundLabel → Prop
  | .crash => ∀ call ∈ inbox.task, call.stage.isOpen = true → call.message.messageId = none
  | .step _ _ (.failed _) =>
    ∀ call ∈ inbox.task, call.stage.isFragile = true → call.message.messageId = none
  | .step _ _ .done =>
    ∀ call ∈ inbox.task, ∀ messageId ∈ call.message.messageId, call.stage = .marking messageId →
      ∀ marker ∈ inbox.marker adapter call.message.target messageId,
        marker.target = call.message.target ∧ marker.messageId = messageId
  | .step _ _ (.downloaded _) | .deliver .. => True

/-- Where `record_inbound_message_once` answers false, the message has been submitted. -/
def FalseIfSubmitted : InboundLabel → Prop
  | .step _ nowMs .done =>
    ∀ call ∈ inbox.task, ∀ messageId ∈ call.message.messageId, call.stage = .marking messageId →
      (inbox.files.recordInboundMessageOnce adapter.id call.message.target messageId nowMs).1 =
        false → inbox.submissions call.message.target messageId ≠ []
  | _ => True

instance (adapter : InboundAdapter) (inbox : Inbox) (label : InboundLabel) :
    Decidable (Carries adapter inbox label) := by
  unfold Carries
  split <;> infer_instance

instance (adapter : InboundAdapter) (inbox : Inbox) (label : InboundLabel) :
    Decidable (FalseIfSubmitted adapter inbox label) := by
  unfold FalseIfSubmitted
  split <;> infer_instance

/-- The message of every marker is submitted, or it is handled and will be. -/
def Inbox.Kept : Prop :=
  ∀ key, ∀ marker ∈ inbox.files.inboundSeen adapter.id key,
    inbox.submissions marker.target marker.messageId ≠ [] ∨
      ∃ call ∈ inbox.task, call.stage.isOpen = true ∧ call.message.Is marker.target marker.messageId

end

section
variable (hkept : inbox.Kept adapter)
include hkept

theorem Inbox.Kept.effect (hsound : inbox.Sound adapter)
    (hcall : call ∈ inbox.task) (heffect : Effect adapter inbox call answer inbox')
    (hcarries : Carries adapter inbox (.step eventId nowMs answer)) : inbox'.Kept adapter := by
  cases heffect with
  | quiet stage events stored hmarking hopen hends =>
    intro key marker hmarker
    refine (hkept key marker hmarker).imp_right ?_
    rintro ⟨call', hcall', hopen', his⟩
    obtain rfl : call' = call := mem_unique hcall' hcall
    rcases hends hopen' with ⟨after, hafter, hafterOpen⟩ | ⟨hfragile, error, rfl⟩
    · exact ⟨{ call' with stage := after }, mem_map_of_mem _ hafter, hafterOpen, his⟩
    · have hnone := hcarries call' hcall hfragile
      rw [his.2] at hnone
      cases hnone
  | duplicate messageId hstage =>
    intro key marker hmarker
    refine .inl ((hkept key marker hmarker).resolve_right ?_)
    rintro ⟨call', hcall', hopen', -⟩
    obtain rfl : call' = call := mem_unique hcall' hcall
    rw [hstage] at hopen'
    cases hopen'
  | marked messageId nowMs' hstage hnew =>
    intro key marker hmarker
    have hmarker : marker ∈ if key = stableMessageKey call.message.target messageId then
        some (AdapterInboundMessageRecord.mk adapter.id call.message.target messageId nowMs')
        else inbox.files.inboundSeen adapter.id key := by
      rw [← marker_mark _ _ _ _ _ hnew]
      exact hmarker
    split at hmarker
    · obtain rfl := some.inj hmarker
      exact .inr ⟨_, rfl, rfl, rfl, hsound.marking call hcall messageId hstage⟩
    · refine .inl ((hkept key marker hmarker).resolve_right ?_)
      rintro ⟨call', hcall', hopen', -⟩
      obtain rfl : call' = call := mem_unique hcall' hcall
      rw [hstage] at hopen'
      cases hopen'
  | submitted parts hstage =>
    intro key marker hmarker
    left
    show (inbox.wakeups ++ [_]).filter _ ≠ []
    rw [filter_append]
    rcases hkept key marker hmarker with hsubmitted | ⟨call', hcall', -, his⟩
    · exact append_ne_nil_of_left_ne_nil hsubmitted _
    · obtain rfl : call' = call := mem_unique hcall' hcall
      refine append_ne_nil_of_right_ne_nil _ ?_
      simp [his]

theorem Inbox.Kept.next (hsound : inbox.Sound adapter)
    (henabled : (inbound adapter).enabled inbox label) (hcarries : Carries adapter inbox label) :
    ((inbound adapter).next inbox label).Kept adapter := by
  have hstep := steps_of_enabled henabled
  revert hstep
  generalize (inbound adapter).next inbox label = inbox'
  rintro (⟨message, conversationId, hidle⟩ | ⟨eventId, nowMs, hcall, heffect⟩ | -)
  · intro key marker hmarker
    refine .inl ((hkept key marker hmarker).resolve_right ?_)
    rintro ⟨call, hcall, -⟩
    rw [hidle] at hcall
    cases hcall
  · exact hkept.effect hsound hcall heffect hcarries
  · intro key marker hmarker
    refine .inl ((hkept key marker hmarker).resolve_right ?_)
    rintro ⟨call, hcall, hopen, his⟩
    have hnone := hcarries call hcall hopen
    rw [his.2] at hnone
    cases hnone

theorem falseIfSubmitted_of_kept
    (hcarries : Carries adapter inbox label) : FalseIfSubmitted adapter inbox label := by
  unfold FalseIfSubmitted
  split
  case h_2 => trivial
  case h_1 eventId nowMs =>
    intro call hcall messageId hid hstage hfalse
    rw [recordInboundMessageOnce_eq, isNone_eq_false_iff] at hfalse
    obtain ⟨marker, hmarker⟩ := isSome_iff_exists.1 hfalse
    obtain ⟨htarget, hmessage⟩ := hcarries call hcall messageId hid hstage marker hmarker
    rw [← htarget, ← hmessage]
    refine (hkept _ marker hmarker).resolve_right ?_
    rintro ⟨call', hcall', hopen, -⟩
    obtain rfl : call' = call := mem_unique hcall' hcall
    rw [hstage] at hopen
    cases hopen

end

/-- A wakeup is that of a message that was delivered, to the conversation it was resolved to. -/
def Wakeup.Delivered (adapter : InboundAdapter) (labels : List InboundLabel) (wakeup : Wakeup) :
    Prop :=
  .deliver wakeup.message wakeup.conversationId ∈ labels ∧
    ∃ parts, wakeup.content = wakeupContent adapter wakeup.message parts

theorem delivered_exec (hrun : (inbound adapter).Admits .empty labels) :
    (∀ call ∈ ((inbound adapter).exec .empty labels).task,
      .deliver call.message call.conversationId ∈ labels) ∧
    ∀ wakeup ∈ ((inbound adapter).exec .empty labels).wakeups,
      wakeup.Delivered adapter labels := by
  refine traceInvariant (fun labels (inbox : Inbox) ↦
    (∀ call ∈ inbox.task, InboundLabel.deliver call.message call.conversationId ∈ labels) ∧
      ∀ wakeup ∈ inbox.wakeups, wakeup.Delivered adapter labels)
    .empty ⟨by simp [Inbox.empty], by simp [Inbox.empty]⟩ ?_ hrun
  intro labels label _ hbefore henabled
  have hstep := steps_of_enabled henabled
  revert hbefore hstep
  generalize (inbound adapter).exec .empty labels = inbox
  generalize (inbound adapter).next inbox label = inbox'
  rintro ⟨htask, hwakeups⟩ hstep
  have hgrow : ∀ wakeup ∈ inbox.wakeups, wakeup.Delivered adapter (labels ++ [label]) :=
    fun wakeup hwakeup ↦ (hwakeups wakeup hwakeup).imp_left (mem_append_left _)
  rcases hstep with
    ⟨message, conversationId, -⟩ | @⟨call, answer, _, eventId, nowMs, hcall, heffect⟩ | -
  · exact ⟨by simp, hgrow⟩
  · have hmem := mem_append_left [InboundLabel.step eventId nowMs answer] (htask call hcall)
    cases heffect with
    | quiet stage events stored hmarking hopen hends =>
      refine ⟨fun call' hcall' ↦ ?_, hgrow⟩
      obtain ⟨after, -, rfl⟩ := map_eq_some_iff.1 hcall'
      exact hmem
    | duplicate messageId hstage => exact ⟨by simp [Inbox.goTo], hgrow⟩
    | marked messageId nowMs' hstage hnew =>
      refine ⟨fun call' hcall' ↦ ?_, hgrow⟩
      cases hcall'
      exact hmem
    | submitted parts hstage =>
      refine ⟨fun call' hcall' ↦ ?_, fun wakeup hwakeup ↦ ?_⟩
      · cases hcall'
        exact hmem
      · rcases mem_append.1 hwakeup with hold | hnew
        · exact hgrow wakeup hold
        · obtain rfl := mem_singleton.1 hnew
          exact ⟨hmem, parts, rfl⟩
  · exact ⟨by simp, hgrow⟩

/-- In every run of deliveries to an adapter: if no call for a message with an id ends between its
marker and its submission and no marker is that of another message, then an answer of false is
given only for messages that were submitted.  No message with an id is submitted twice, and what is
submitted are the wakeups of delivered messages. -/
theorem inbound_submitted (adapter : InboundAdapter) {labels : List InboundLabel}
    (hrun : (inbound adapter).Admits .empty labels) :
    ((inbound adapter).Throughout (Carries adapter) .empty labels →
      (inbound adapter).Throughout (FalseIfSubmitted adapter) .empty labels) ∧
    (∀ target messageId,
      (((inbound adapter).exec .empty labels).submissions target messageId).length ≤ 1) ∧
    ∀ wakeup ∈ ((inbound adapter).exec .empty labels).wakeups,
      wakeup.Delivered adapter labels := by
  refine ⟨fun hcarries ↦ ?_, (sound_exec hrun).once, (delivered_exec hrun).2⟩
  have hrestrict := (admits_restrict_iff (Carries adapter) .empty labels).2 ⟨hrun, hcarries⟩
  rw [← throughout_restrict (Carries adapter)]
  refine throughout_of_invariant (fun inbox ↦ inbox.Sound adapter ∧ inbox.Kept adapter)
    ?_ ?_ ⟨sound_empty adapter, by simp [Inbox.Kept, Inbox.empty, KeyedFiles.empty]⟩ hrestrict
  · rintro inbox label ⟨hsound, hkept⟩ henabled
    exact ⟨hsound.next henabled.1, hkept.next hsound henabled.1 henabled.2⟩
  · intro inbox label hinv henabled
    exact falseIfSubmitted_of_kept hinv.2 henabled.2

def telegram : InboundAdapter := ⟨"telegram-1", "Telegram", "telegram"⟩

def greeting : WorkerMessage := ⟨"42", some "ada", "hello", some "7", none, none, []⟩

/-- A message is submitted and delivered again. -/
def redeliveredRun : List InboundLabel :=
  [.deliver greeting "conversation-1", .step "e" 1 .done, .step "e" 1 .done, .step "e" 1 .done,
    .step "e" 1 .done, .step "e" 1 .done, .step "e" 1 .done, .deliver greeting "conversation-1",
    .step "e" 2 .done]

theorem inbound_submitted_redelivered :
    (inbound telegram).Throughout (FalseIfSubmitted telegram) .empty redeliveredRun ∧
      (((inbound telegram).exec .empty redeliveredRun).submissions "42" "7").length ≤ 1 := by
  have hadmits : (inbound telegram).Admits .empty redeliveredRun := by decide +kernel
  obtain ⟨hfalse, honce, -⟩ := inbound_submitted telegram hadmits
  exact ⟨hfalse (by decide +kernel), honce "42" "7"⟩

/-- The event of the message cannot be recorded, and the message is delivered again. -/
def unrecordedRun : List InboundLabel :=
  [.deliver greeting "conversation-1", .step "e" 1 .done, .step "e" 1 .done,
    .step "e" 1 (.failed "No space left on device"), .deliver greeting "conversation-1",
    .step "e" 2 .done]

theorem unsubmitted_message_dropped : (inbound telegram).Admits .empty unrecordedRun ∧
      ¬ (inbound telegram).Throughout (FalseIfSubmitted telegram) .empty unrecordedRun := by
  decide +kernel

end Exo.Adapters
