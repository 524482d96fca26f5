import Exo.Sandbox.BridgeSteps

/-!
# What the process bridge carries

Over all runs the output pipes carry the decoded events in order, and nothing else: all of them when
the poller waits for the guest or has seen the exit, a first part if it was stopped before.
-/

namespace Exo.Sandbox.ProcessBridge

open Library List

variable {base64 : Base64} {provider : Provider} {bridge bridge' : Bridge} {label : Label}
  {labels alone : List Label} {events done : List Event}

section
variable (labels rest : List Label)

theorem reported_append : reported (labels ++ rest) = reported labels ++ reported rest := by
  simp [reported, recvAnswers]

theorem recvRefused_append :
    RecvRefused (labels ++ rest) ↔ RecvRefused labels ∨ RecvRefused rest := by
  simp [RecvRefused, recvAnswers, or_and_right, exists_or]

theorem stdinRefused_append :
    StdinRefused (labels ++ rest) ↔ StdinRefused labels ∨ StdinRefused rest := by
  simp [StdinRefused, stdinAnswers, or_and_right, exists_or]

end

section
variable (labels : List Label) (answer : Response)

theorem reported_answerRecv :
    reported (labels ++ [.answerRecv answer]) = reported labels ++ answer.events := by
  rw [reported_append]
  simp [reported, recvAnswers]

theorem recvRefused_answerRecv :
    RecvRefused (labels ++ [.answerRecv answer]) ↔ RecvRefused labels ∨ answer.ok = false := by
  rw [recvRefused_append]
  simp [RecvRefused, recvAnswers]

theorem stdinRefused_answerStdin :
    StdinRefused (labels ++ [.answerStdin answer]) ↔ StdinRefused labels ∨ answer.ok = false := by
  rw [stdinRefused_append]
  simp [StdinRefused, stdinAnswers]

end

/-- The label is no answer to `recv`. -/
def Label.keepsRecv : Label → Bool
  | .answerRecv _ => false
  | _ => true

/-- The label is no answer to `write` or `close_stdin`. -/
def Label.keepsStdin : Label → Bool
  | .answerStdin _ => false
  | _ => true

theorem recvAnswers_of_keepsRecv (halone : ∀ label ∈ alone, label.keepsRecv = true) :
    recvAnswers alone = [] := by
  rw [recvAnswers, filterMap_eq_nil_iff]
  intro label hlabel
  have hkeeps := halone label hlabel
  cases label <;> first | rfl | cases hkeeps

theorem stdinAnswers_of_keepsStdin (halone : ∀ label ∈ alone, label.keepsStdin = true) :
    stdinAnswers alone = [] := by
  rw [stdinAnswers, filterMap_eq_nil_iff]
  intro label hlabel
  have hkeeps := halone label hlabel
  cases label <;> first | rfl | cases hkeeps

theorem reported_snoc (hkeeps : label.keepsRecv = true) :
    reported (labels ++ [label]) = reported labels := by
  have hanswers : recvAnswers [label] = [] := recvAnswers_of_keepsRecv (by simpa)
  rw [reported_append]
  simp [reported, hanswers]

variable {answer : Response} {error : String}

/-- A client fails on refused answers only. -/
theorem Provider.refused_of_request (hanswer : provider.request answer = .error error) :
    provider.checksOk = true ∧ answer.ok = false := by
  cases hchecks : provider.checksOk with
  | false =>
    rw [Provider.request_of_not_checksOk hchecks] at hanswer
    cases hanswer
  | true =>
    cases hok : answer.ok with
    | false => exact ⟨rfl, rfl⟩
    | true =>
      rw [Provider.request_of_ok hok] at hanswer
      cases hanswer

/-- An answer that a checking client hands on is not refused. -/
theorem Provider.ok_of_request (hchecks : provider.checksOk = true)
    (hanswer : provider.request answer = .ok answer) : answer.ok = true := by
  cases hok : answer.ok with
  | true => rfl
  | false =>
    obtain ⟨error, herror⟩ := Provider.request_of_refused hchecks hok
    rw [herror] at hanswer
    cases hanswer

def NoExit (events : List Event) : Prop := ∀ event ∈ events, event.isExit = false

theorem NoExit.append {rest : List Event} (hevents : NoExit events) (hrest : NoExit rest) :
    NoExit (events ++ rest) := by
  intro event hevent
  exact (mem_append.1 hevent).elim (hevents event) (hrest event)

theorem NoExit.not_mem (hevents : NoExit events) (exitCode : ℤ) : .exit exitCode ∉ events := by
  intro hmem
  cases hevents _ hmem

/-- The events of an answer that are still to be handled. -/
def Poller.left : Poller → List Event
  | .handling events => events
  | .writing _ _ events => events
  | _ => []

/-- The data of the event that is being handled. -/
def Poller.held : Poller → OutputStream → Bytes
  | .writing target data _, stream => if target = stream then data else []
  | _, _ => []

/-- The poller is in its loop. -/
def Poller.isLive : Poller → Bool
  | .failed _ => false
  | .stopped => false
  | _ => true

/-- What is left of an answer of the script. -/
structure FromScript (base64 : Base64) (events : List Event) : Prop where
  decodes : ∀ event ∈ events, event.decodes base64 = true
  exitLast : NoExit events.dropLast

theorem FromScript.nil : FromScript base64 [] := ⟨by simp, by simp [NoExit]⟩

theorem FromScript.tail {event : Event} (hscript : FromScript base64 (event :: events)) :
    FromScript base64 events := by
  refine ⟨fun other hother ↦ hscript.decodes other (mem_cons_of_mem _ hother), ?_⟩
  cases events with
  | nil => simp [NoExit]
  | cons next events =>
    intro other hother
    exact hscript.exitLast other (by simpa using .inr hother)

/-- An exit is the last event of an answer. -/
theorem FromScript.exit_last {exitCode : ℤ}
    (hscript : FromScript base64 (.exit exitCode :: events)) : events = [] := by
  cases events with
  | nil => rfl
  | cons next events => cases hscript.exitLast (.exit exitCode) (by simp)

theorem fromScript_of_likeScript (hscript : answer.likeScript base64 = true) :
    FromScript base64 answer.events := by
  simp only [Response.likeScript, Bool.and_eq_true, all_eq_true, Bool.not_eq_true'] at hscript
  exact ⟨hscript.1.1, hscript.1.2⟩

/-- An answer without events: a timeout, or a refusal. -/
theorem events_eq_nil (hscript : answer.likeScript base64 = true)
    (hempty : answer.timeout = true ∨ answer.ok = false) : answer.events = [] := by
  simp only [Response.likeScript, Bool.and_eq_true, Bool.or_eq_true, List.isEmpty_iff,
    Bool.not_eq_true'] at hscript
  rcases hscript.2 with hnil | hevents
  · exact hnil
  · rcases hempty with htimeout | hok
    · rw [htimeout] at hevents
      cases hevents.2
    · rw [hok] at hevents
      cases hevents.1

theorem bytesOf_append (stream : OutputStream) (events rest : List Event) :
    bytesOf base64 stream (events ++ rest) =
      bytesOf base64 stream events ++ bytesOf base64 stream rest := by
  simp [bytesOf]

/-- What the pipes and the exit channel carry, by the place of the poller. -/
inductive Delivered (base64 : Base64) (events : List Event) (bridge : Bridge) : Prop where
  | live (done : List Event) (hlive : bridge.poller.isLive = true) (hexit : bridge.exit = .pending)
    (hevents : events = done ++ bridge.poller.left) (hdone : NoExit done)
    (hscript : FromScript base64 bridge.poller.left)
    (hwritten : ∀ stream,
      bridge.written stream ++ bridge.poller.held stream = bytesOf base64 stream done)
  | failed (error : String) (hpoller : bridge.poller = .failed error)
    (hexit : bridge.exit = .dropped)
    (hwritten : ∀ stream, bridge.written stream = bytesOf base64 stream events)
  | exited (exitCode : ℤ) (done : List Event) (hpoller : bridge.poller = .stopped)
    (hexit : bridge.exit = .sent exitCode) (hevents : events = done ++ [.exit exitCode])
    (hdone : NoExit done)
    (hwritten : ∀ stream, bridge.written stream = bytesOf base64 stream events)
  | halted (hpoller : bridge.poller = .stopped) (hexit : bridge.exit = .dropped)
    (hwritten : ∀ stream, bridge.written stream <+: bytesOf base64 stream events)

theorem delivered_start : Delivered base64 [] {} :=
  .live [] rfl rfl rfl (by simp [NoExit]) .nil fun _ ↦ rfl

section
variable (hdelivered : Delivered base64 events bridge)
include hdelivered

theorem Delivered.congr (hpoller : bridge'.poller = bridge.poller)
    (hexit : bridge'.exit = bridge.exit) (hwritten : bridge'.written = bridge.written) :
    Delivered base64 events bridge' := by
  cases hdelivered with
  | live done h₁ h₂ h₃ h₄ h₅ h₆ =>
    refine .live done ?_ ?_ ?_ h₄ ?_ ?_ <;> simpa only [hpoller, hexit, hwritten]
  | failed error h₁ h₂ h₃ => refine .failed error ?_ ?_ ?_ <;> simpa only [hpoller, hexit, hwritten]
  | exited exitCode done h₁ h₂ h₃ h₄ h₅ =>
    refine .exited exitCode done ?_ ?_ h₃ h₄ ?_ <;> simpa only [hpoller, hexit, hwritten]
  | halted h₁ h₂ h₃ => refine .halted ?_ ?_ ?_ <;> simpa only [hpoller, hexit, hwritten]

theorem Delivered.isPrefix (stream : OutputStream) :
    bridge.written stream <+: bytesOf base64 stream events := by
  cases hdelivered with
  | live done _ _ hevents _ _ hwritten =>
    rw [hevents, bytesOf_append, ← hwritten stream, append_assoc]
    exact prefix_append _ _
  | failed error _ _ hwritten | exited exitCode done _ _ _ _ hwritten =>
    exact (hwritten stream) ▸ prefix_rfl
  | halted _ _ hwritten => exact hwritten stream

theorem Delivered.of_isLive (hlive : bridge.poller.isLive = true) :
    ∃ done, bridge.exit = .pending ∧ events = done ++ bridge.poller.left ∧ NoExit done ∧
      FromScript base64 bridge.poller.left ∧ ∀ stream,
        bridge.written stream ++ bridge.poller.held stream = bytesOf base64 stream done := by
  cases hdelivered with
  | live done _ hexit hevents hdone hscript hwritten =>
    exact ⟨done, hexit, hevents, hdone, hscript, hwritten⟩
  | failed error hpoller | exited exitCode done hpoller | halted hpoller =>
    rw [hpoller] at hlive; cases hlive

/-- A poller between two requests has handled all events. -/
theorem Delivered.of_receiving (hpoller : bridge.poller = .receiving) :
    bridge.exit = .pending ∧ NoExit events ∧
      ∀ stream, bridge.written stream = bytesOf base64 stream events := by
  obtain ⟨done, hexit, hevents, hdone, -, hwritten⟩ :=
    hdelivered.of_isLive (by rw [hpoller]; rfl)
  rw [hpoller] at hevents hwritten
  simp only [Poller.left, Poller.held, append_nil] at hevents hwritten
  rw [hevents]
  exact ⟨hexit, hdone, hwritten⟩

/-- The data of an event of the script decodes. -/
theorem Delivered.not_garbage {event : Event} {rest : List Event} {stream : OutputStream}
    {data : String} (hpoller : bridge.poller = .handling (event :: rest))
    (hdata : event.data? = some (stream, data)) (hdecode : base64.decode data = .error error) :
    False := by
  obtain ⟨done, -, -, -, hscript, -⟩ := hdelivered.of_isLive (by rw [hpoller]; rfl)
  rw [hpoller] at hscript
  have hdecodes := hscript.decodes event (by simp [Poller.left])
  simp [Event.decodes, hdata, hdecode, Except.isOk, Except.toBool] at hdecodes

theorem Delivered.exit_of_failed (hpoller : bridge.poller = .failed error) :
    bridge.exit = .dropped := by
  cases hdelivered with
  | live done hlive => rw [hpoller] at hlive; cases hlive
  | failed _ _ hexit => exact hexit
  | exited exitCode done hstopped => rw [hpoller] at hstopped; cases hstopped
  | halted _ hexit => exact hexit

end

theorem Delivered.step (hdelivered : Delivered base64 (reported labels) bridge)
    (hstep : Steps base64 provider bridge label bridge') :
    Delivered base64 (reported (labels ++ [label])) bridge' := by
  cases hstep with
  | recvFailed hpoller hscript hanswer =>
    rename_i answer error
    obtain ⟨-, hok⟩ := Provider.refused_of_request hanswer
    obtain ⟨hexit, -, hwritten⟩ := hdelivered.of_receiving hpoller
    rw [reported_answerRecv, events_eq_nil hscript (.inr hok), append_nil]
    exact .failed error rfl (by simp [Bridge.failPoller, hexit, ExitChannel.drop]) hwritten
  | recvTimeout hpoller hscript hanswer htimeout =>
    obtain ⟨hexit, hdone, hwritten⟩ := hdelivered.of_receiving hpoller
    rw [reported_answerRecv, events_eq_nil hscript (.inl htimeout), append_nil]
    refine .live (reported labels) rfl hexit (append_nil _).symm hdone .nil fun stream ↦ ?_
    exact (append_nil _).trans (hwritten stream)
  | recvEvents hpoller hscript hanswer =>
    obtain ⟨hexit, hdone, hwritten⟩ := hdelivered.of_receiving hpoller
    rw [reported_answerRecv]
    refine .live (reported labels) rfl hexit rfl hdone (fromScript_of_likeScript hscript)
      fun stream ↦ ?_
    exact (append_nil _).trans (hwritten stream)
  | pollRecv hpoller | pollEnd hpoller =>
    rw [reported_snoc rfl]
    obtain ⟨done, hexit, hevents, hdone, hscript, hwritten⟩ :=
      hdelivered.of_isLive (by rw [hpoller]; rfl)
    rw [hpoller] at hevents hwritten
    exact .live done rfl hexit hevents hdone .nil hwritten
  | pollData hpoller hdata hdecode =>
    rename_i event events stream data decoded
    rw [reported_snoc rfl]
    obtain ⟨done, hexit, hevents, hdone, hscript, hwritten⟩ :=
      hdelivered.of_isLive (by rw [hpoller]; rfl)
    rw [hpoller] at hevents hscript hwritten
    have hexitEvent : event.isExit = false := by
      cases event <;> first | rfl | cases hdata
    refine .live (done ++ [event]) rfl hexit ?_ ?_ hscript.tail fun target ↦ ?_
    · rw [hevents]
      simp [Poller.left]
    · refine hdone.append fun other hother ↦ ?_
      rw [mem_singleton.1 hother]
      exact hexitEvent
    · have htarget := hwritten target
      simp only [Poller.held, append_nil] at htarget
      rw [bytesOf_append, ← htarget]
      simp [Poller.held, bytesOf, Event.bytes, hdata, hdecode, Except.toOption]
  | pollGarbage hpoller hdata hdecode =>
    exact (hdelivered.not_garbage hpoller hdata hdecode).elim
  | pollExit hpoller =>
    rename_i exitCode events
    rw [reported_snoc rfl]
    obtain ⟨done, hexit, hevents, hdone, hscript, hwritten⟩ :=
      hdelivered.of_isLive (by rw [hpoller]; rfl)
    rw [hpoller] at hevents hscript hwritten
    simp only [Poller.left, Poller.held, append_nil] at hevents hscript hwritten
    rw [hscript.exit_last] at hevents
    refine .exited exitCode done rfl rfl hevents hdone fun stream ↦ ?_
    rw [hevents, bytesOf_append, ← hwritten stream]
    simp [bytesOf, Event.bytes, Event.data?]
  | pollWritten hpoller =>
    rw [reported_snoc rfl]
    obtain ⟨done, hexit, hevents, hdone, hscript, hwritten⟩ :=
      hdelivered.of_isLive (by rw [hpoller]; rfl)
    rw [hpoller] at hevents hscript hwritten
    refine .live done rfl hexit hevents hdone hscript fun target ↦ ?_
    simpa [Poller.held] using hwritten target
  | write hpoller hpos hle =>
    rename_i stream data events length
    rw [reported_snoc rfl]
    obtain ⟨done, hexit, hevents, hdone, hscript, hwritten⟩ :=
      hdelivered.of_isLive (by rw [hpoller]; rfl)
    rw [hpoller] at hevents hscript hwritten
    refine .live done rfl hexit hevents hdone hscript fun target ↦ ?_
    have htarget := hwritten target
    by_cases hsame : stream = target
    · subst hsame
      simpa [Poller.held] using htarget
    · have hother : target ≠ stream := Ne.symm hsame
      simpa [Poller.held, hsame, hother] using htarget
  | reportPoller hpoller =>
    rw [reported_snoc rfl]
    cases hdelivered with
    | live done hlive => rw [hpoller] at hlive; cases hlive
    | failed error _ hexit hwritten =>
      exact .halted rfl hexit fun stream ↦ (hwritten stream) ▸ prefix_rfl
    | exited exitCode done hstopped | halted hstopped => rw [hpoller] at hstopped; cases hstopped
  | abortPoller hresult hpoller =>
    rw [reported_snoc rfl]
    refine .halted rfl ?_ hdelivered.isPrefix
    cases hdelivered with
    | live done _ hexit => simp [hexit, ExitChannel.drop]
    | failed error _ hexit => simp [hexit, ExitChannel.drop]
    | exited exitCode done hstopped => exact absurd hstopped hpoller
    | halted hstopped => exact absurd hstopped hpoller
  | _ =>
    rw [reported_snoc rfl]
    exact hdelivered.congr rfl rfl rfl

end Exo.Sandbox.ProcessBridge
