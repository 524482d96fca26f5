import Exo.Sandbox.BridgeRuns

/-!
# When the process bridge is faithful

What `wait` resolves to depends on who looks at a refused answer. The poller and the forwarder do
not, so a client that hands it on hides it: a refused `recv` is asked again, a refused `write` is
forgotten. A client that turns it into an error reports a `write` that came after the end of the
process, and that error may overtake the exit code. Otherwise the bridge is faithful.
-/

namespace Exo.Sandbox.ProcessBridge

open Library

variable {base64 : Base64} {provider : Provider} {bridge bridge' : Bridge} {label : Label}
  {labels alone : List Label} {events : List Event}

/-! ## The waiter -/

section
variable (provider : Provider) (labels : List Label)

/-- The client turns an answer of the guest into an error. -/
def Fails : Prop :=
  provider.checksOk = true ∧ (RecvRefused labels ∨ StdinRefused labels)

section
variable (bridge : Bridge)

/-- A `recv` on which the client failed ended the poller, before an exit was reported. -/
def RecvReported : Prop :=
  provider.checksOk = true → RecvRefused labels →
    bridge.poller.isLive = false ∧ bridge.exit = .dropped ∧ NoExit (reported labels)

/-- A `write` on which the client failed is on its way to the waiter, unless that has a result. -/
def StdinReported : Prop :=
  provider.checksOk = true → StdinRefused labels →
    (∃ error, bridge.forwarder = .failed error) ∨ bridge.errors ≠ [] ∨ bridge.result.isSome = true

/-- Without a failure of the client, no error is on its way. -/
def Calm : Prop :=
  ¬ Fails provider labels → bridge.errors = [] ∧ bridge.exit ≠ .dropped ∧
    (∀ error, bridge.forwarder ≠ .failed error) ∧ ∀ error, bridge.result ≠ some (.error error)

end

end

def ExitReported (bridge : Bridge) : Prop :=
  ∀ exitCode, bridge.result = some (.ok exitCode) → bridge.exit = .sent exitCode

def ErrorsClosed (bridge : Bridge) : Prop :=
  bridge.errorsOpen = false →
    bridge.errors = [] ∧ bridge.poller = .stopped ∧ bridge.forwarder = .stopped

theorem recvRefused_snoc (hkeeps : label.keepsRecv = true) :
    RecvRefused (labels ++ [label]) ↔ RecvRefused labels := by
  have hanswers : recvAnswers [label] = [] := recvAnswers_of_keepsRecv (by simpa)
  rw [recvRefused_append]
  simp [RecvRefused, hanswers]

theorem stdinRefused_snoc (hkeeps : label.keepsStdin = true) :
    StdinRefused (labels ++ [label]) ↔ StdinRefused labels := by
  have hanswers : stdinAnswers [label] = [] := stdinAnswers_of_keepsStdin (by simpa)
  rw [stdinRefused_append]
  simp [StdinRefused, hanswers]

theorem fails_mono (labels rest : List Label) (hfails : Fails provider labels) :
    Fails provider (labels ++ rest) := by
  rw [Fails, recvRefused_append, stdinRefused_append]
  exact ⟨hfails.1, hfails.2.imp .inl .inl⟩

theorem ExitReported.step (hdelivered : Delivered base64 events bridge)
    (hreported : ExitReported bridge) (hstep : Steps base64 provider bridge label bridge') :
    ExitReported bridge' := by
  have hdrop : ∀ exitCode, bridge.result = some (.ok exitCode) →
      bridge.exit.drop = .sent exitCode := by
    intro exitCode hresult
    rw [hreported exitCode hresult]
    rfl
  cases hstep with
  | recvFailed | pollGarbage | abortPoller => exact hdrop
  | pollExit hpoller =>
    intro exitCode hresult
    obtain ⟨done, hexit, -⟩ := hdelivered.of_isLive (by rw [hpoller]; rfl)
    rw [hreported exitCode hresult] at hexit
    cases hexit
  | waitExit _ hexit =>
    intro exitCode hresult
    cases hresult
    exact hexit
  | waitDropped | waitError =>
    intro exitCode hresult
    cases hresult
  | _ => exact hreported

theorem ErrorsClosed.step (hclosed : ErrorsClosed bridge)
    (hstep : Steps base64 provider bridge label bridge') : ErrorsClosed bridge' := by
  intro hopen
  cases hstep with
  | recvFailed hpoller | recvTimeout hpoller | recvEvents hpoller | pollRecv hpoller
  | pollEnd hpoller | pollData hpoller | pollGarbage hpoller | pollExit hpoller
  | pollWritten hpoller | write hpoller | reportPoller hpoller =>
    have hstopped := (hclosed hopen).2.1
    rw [hpoller] at hstopped
    cases hstopped
  | stdinAnswered hfrom | stdinFailed hfrom =>
    have hstopped := (hclosed hopen).2.2
    rw [hstopped] at hfrom
    rcases hfrom with hfrom | hfrom <;> cases hfrom
  | readEnd hforwarder | read hforwarder | reportForwarder hforwarder =>
    have hstopped := (hclosed hopen).2.2
    rw [hforwarder] at hstopped
    cases hstopped
  | waitError _ herrors =>
    have hnil := (hclosed hopen).1
    rw [herrors] at hnil
    cases hnil
  | waitClosed _ _ herrors hpoller hforwarder => exact ⟨herrors, hpoller, hforwarder⟩
  | abortPoller => exact ⟨(hclosed hopen).1, rfl, (hclosed hopen).2.2⟩
  | abortForwarder => exact ⟨(hclosed hopen).1, (hclosed hopen).2.1, rfl⟩
  | _ => exact hclosed hopen

section
variable (hdelivered : Delivered base64 (reported labels) bridge)
include hdelivered

theorem Calm.step (hreported : ExitReported bridge) (hcalm : Calm provider labels bridge)
    (hstep : Steps base64 provider bridge label bridge') :
    Calm provider (labels ++ [label]) bridge' := by
  intro hfails
  obtain ⟨herrors, hexit, hforwarder, hresult⟩ := hcalm fun hold ↦ hfails (fails_mono _ _ hold)
  cases hstep with
  | recvFailed hpoller hscript hanswer =>
    obtain ⟨hchecks, hok⟩ := Provider.refused_of_request hanswer
    exact absurd ⟨hchecks, .inl ((recvRefused_answerRecv _ _).2 (.inr hok))⟩ hfails
  | stdinFailed hfrom hanswer =>
    obtain ⟨hchecks, hok⟩ := Provider.refused_of_request hanswer
    exact absurd ⟨hchecks, .inr ((stdinRefused_answerStdin _ _).2 (.inr hok))⟩ hfails
  | stdinAnswered hfrom hanswer hto =>
    refine ⟨herrors, hexit, fun error hfailed ↦ ?_, hresult⟩
    simp only at hfailed
    rw [hfailed] at hto
    rcases hto with hto | hto <;> cases hto
  | pollGarbage hpoller hdata hdecode =>
    exact (hdelivered.not_garbage hpoller hdata hdecode).elim
  | pollExit => exact ⟨herrors, by simp, hforwarder, hresult⟩
  | reportPoller hpoller =>
    exact absurd (hdelivered.exit_of_failed hpoller) hexit
  | readEnd | read | abortForwarder => exact ⟨herrors, hexit, by simp, hresult⟩
  | reportForwarder hfailed => exact absurd hfailed (hforwarder _)
  | waitExit => exact ⟨herrors, hexit, hforwarder, by simp⟩
  | waitDropped _ hdropped => exact absurd hdropped hexit
  | waitError _ hcons =>
    rw [hcons] at herrors
    cases herrors
  | abortPoller hsome =>
    refine ⟨herrors, ?_, hforwarder, hresult⟩
    obtain ⟨result, hvalue⟩ := Option.isSome_iff_exists.1 hsome
    cases result with
    | error error => exact absurd hvalue (hresult error)
    | ok exitCode => simp [hreported exitCode hvalue, ExitChannel.drop]
  | _ => exact ⟨herrors, hexit, hforwarder, hresult⟩

theorem RecvReported.step (hreported : RecvReported provider labels bridge)
    (hstep : Steps base64 provider bridge label bridge') :
    RecvReported provider (labels ++ [label]) bridge' := by
  intro hchecks hrefused
  cases hstep with
  | recvFailed hpoller hscript hanswer =>
    obtain ⟨hexit, hnoExit, -⟩ := hdelivered.of_receiving hpoller
    obtain ⟨-, hok⟩ := Provider.refused_of_request hanswer
    rw [reported_answerRecv, events_eq_nil hscript (.inr hok), List.append_nil]
    exact ⟨rfl, by simp [Bridge.failPoller, hexit, ExitChannel.drop], hnoExit⟩
  | recvTimeout hpoller hscript hanswer | recvEvents hpoller hscript hanswer =>
    have hok := Provider.ok_of_request hchecks hanswer
    rw [recvRefused_answerRecv, hok] at hrefused
    have hlive := (hreported hchecks (hrefused.resolve_right (by simp))).1
    rw [hpoller] at hlive
    cases hlive
  | pollRecv hpoller | pollEnd hpoller | pollData hpoller | pollGarbage hpoller
  | pollExit hpoller | pollWritten hpoller | write hpoller =>
    rw [recvRefused_snoc rfl] at hrefused
    have hlive := (hreported hchecks hrefused).1
    rw [hpoller] at hlive
    cases hlive
  | reportPoller hpoller =>
    rw [recvRefused_snoc rfl] at hrefused
    rw [reported_snoc rfl]
    exact ⟨rfl, (hreported hchecks hrefused).2⟩
  | abortPoller =>
    rw [recvRefused_snoc rfl] at hrefused
    rw [reported_snoc rfl]
    obtain ⟨-, hexit, hnoExit⟩ := hreported hchecks hrefused
    exact ⟨rfl, by simp [hexit, ExitChannel.drop], hnoExit⟩
  | _ =>
    rw [recvRefused_snoc rfl] at hrefused
    rw [reported_snoc rfl]
    exact hreported hchecks hrefused

end

theorem StdinReported.step (hreported : StdinReported provider labels bridge)
    (hstep : Steps base64 provider bridge label bridge') :
    StdinReported provider (labels ++ [label]) bridge' := by
  intro hchecks hrefused
  cases hstep with
  | stdinFailed => exact .inl ⟨_, rfl⟩
  | stdinAnswered hfrom hanswer =>
    have hok := Provider.ok_of_request hchecks hanswer
    rw [stdinRefused_answerStdin, hok] at hrefused
    rcases hreported hchecks (hrefused.resolve_right (by simp)) with ⟨error, hfailed⟩ | hrest
    · rw [hfailed] at hfrom
      rcases hfrom with hfrom | hfrom <;> cases hfrom
    · exact .inr hrest
  | readEnd hforwarder | read hforwarder =>
    rw [stdinRefused_snoc rfl] at hrefused
    rcases hreported hchecks hrefused with ⟨error, hfailed⟩ | hrest
    · rw [hfailed] at hforwarder
      cases hforwarder
    · exact .inr hrest
  | reportPoller | reportForwarder => exact .inr (.inl (by simp))
  | waitExit | waitDropped | waitError => exact .inr (.inr rfl)
  | abortForwarder hsome => exact .inr (.inr hsome)
  | _ =>
    rw [stdinRefused_snoc rfl] at hrefused
    exact hreported hchecks hrefused

/-! ## Faithful bridges -/

/-- All that is known of a bridge after a run. -/
structure Sound (base64 : Base64) (provider : Provider) (labels : List Label) (bridge : Bridge) :
    Prop where
  delivered : Delivered base64 (reported labels) bridge
  exitReported : ExitReported bridge
  errorsClosed : ErrorsClosed bridge
  calm : Calm provider labels bridge
  recvReported : RecvReported provider labels bridge
  stdinReported : StdinReported provider labels bridge

theorem sound_start : Sound base64 provider [] {} where
  delivered := delivered_start
  exitReported := by simp [ExitReported]
  errorsClosed := by simp [ErrorsClosed]
  calm := by simp [Calm]
  recvReported := by simp [RecvReported, RecvRefused, recvAnswers]
  stdinReported := by simp [StdinReported, StdinRefused, stdinAnswers]

theorem sound_exec (hrun : (system base64 provider).Admits {} labels) :
    Sound base64 provider labels ((system base64 provider).exec {} labels) := by
  refine System.traceInvariant (Sound base64 provider) _ sound_start ?_ hrun
  intro labels label _ hsound henabled
  have hstep := steps_of_enabled henabled
  exact {
    delivered := hsound.delivered.step hstep
    exitReported := hsound.exitReported.step hsound.delivered hstep
    errorsClosed := hsound.errorsClosed.step hstep
    calm := hsound.calm.step hsound.delivered hsound.exitReported hstep
    recvReported := hsound.recvReported.step hsound.delivered hstep
    stdinReported := hsound.stdinReported.step hstep }

/-- What the process behind the bridge did, as its parts show it: the pipes carry the decoded
events, all of them unless `wait` resolved to an error; the exit code is what `wait` resolves to;
and after a refused answer it resolves to an error. -/
structure Faithful (base64 : Base64) (labels : List Label) (bridge : Bridge) : Prop where
  output : ∀ stream, bridge.written stream <+: bytesOf base64 stream (reported labels)
  whole : (∀ error, bridge.result ≠ some (.error error)) →
    ∀ stream, bridge.written stream = bytesOf base64 stream (reported labels)
  exit : ∀ exitCode, .exit exitCode ∈ reported labels → bridge.result = some (.ok exitCode)
  refused : RecvRefused labels ∨ StdinRefused labels →
    ∃ error, bridge.result = some (.error error)

/-- A refused answer is an error of the client, and no exit is reported beside a refused `write`. -/
def Undisturbed (provider : Provider) (labels : List Label) : Prop :=
  if provider.checksOk then
    ¬ (StdinRefused labels ∧ ∃ exitCode, .exit exitCode ∈ reported labels)
  else ¬ (RecvRefused labels ∨ StdinRefused labels)

/-- The tasks and the waiter left to themselves make the bridge faithful. -/
def SettlesFaithful (base64 : Base64) (provider : Provider) (labels : List Label)
    (bridge : Bridge) : Prop :=
  (system base64 provider).SettlesOn (fun label ↦ label.isOwn = true) (Faithful base64 labels)
    bridge

section Rest
variable (hsound : Sound base64 provider labels bridge) (hresting : Resting bridge)
include hsound

theorem Sound.not_error (hfails : ¬ Fails provider labels) (error : String) :
    bridge.result ≠ some (.error error) := (hsound.calm hfails).2.2.2 error

/-- The client failed on no answer of a run in which the exit was reported. -/
theorem Sound.not_fails (hundisturbed : Undisturbed provider labels) {exitCode : ℤ}
    (hexit : .exit exitCode ∈ reported labels) : ¬ Fails provider labels := by
  rintro ⟨hchecks, hrecv | hstdin⟩
  · exact (hsound.recvReported hchecks hrecv).2.2.not_mem exitCode hexit
  · rw [Undisturbed, if_pos hchecks] at hundisturbed
    exact hundisturbed ⟨hstdin, exitCode, hexit⟩

/-- `wait` gives an exit code that was reported, and after all output. -/
theorem Sound.exit_mem {exitCode : ℤ} (hresult : bridge.result = some (.ok exitCode)) :
    .exit exitCode ∈ reported labels ∧
      ∀ stream, bridge.written stream = bytesOf base64 stream (reported labels) := by
  have hexit := hsound.exitReported exitCode hresult
  cases hsound.delivered with
  | live done _ hpending => rw [hpending] at hexit; cases hexit
  | failed error _ hdropped => rw [hdropped] at hexit; cases hexit
  | exited code done _ hsent hevents _ hwritten =>
    rw [hsent] at hexit
    cases hexit
    refine ⟨?_, hwritten⟩
    rw [hevents]
    simp
  | halted _ hdropped => rw [hdropped] at hexit; cases hexit

include hresting

/-- A bridge at rest without a result waits for the guest, and all output is delivered. -/
theorem Sound.receiving_of_none (hresult : bridge.result = none) : bridge.poller = .receiving := by
  have hpending := hresting.exit hresult
  rcases hresting.poller with hpoller | hpoller
  · exact hpoller
  · cases hsound.delivered with
    | live done hlive => rw [hpoller] at hlive; cases hlive
    | failed error hfailed => rw [hpoller] at hfailed; cases hfailed
    | exited code done _ hsent => rw [hpending] at hsent; cases hsent
    | halted _ hdropped => rw [hpending] at hdropped; cases hdropped

theorem Sound.errors_eq_nil (hresult : bridge.result = none) : bridge.errors = [] := by
  cases hopen : bridge.errorsOpen with
  | true => exact hresting.errors hresult hopen
  | false => exact (hsound.errorsClosed hopen).1

section
variable (hundisturbed : Undisturbed provider labels)
include hundisturbed

theorem Sound.exit_of_undisturbed {exitCode : ℤ}
    (hexit : .exit exitCode ∈ reported labels) : bridge.result = some (.ok exitCode) := by
  have hnoError := hsound.not_error (hsound.not_fails hundisturbed hexit)
  cases hresult : bridge.result with
  | none =>
    have hpoller := hsound.receiving_of_none hresting hresult
    exact absurd hexit ((hsound.delivered.of_receiving hpoller).2.1.not_mem exitCode)
  | some result =>
    cases result with
    | error error => exact absurd hresult (hnoError error)
    | ok code =>
      have hsent := hsound.exitReported code hresult
      cases hsound.delivered with
      | live done _ hpending => rw [hpending] at hsent; cases hsent
      | failed error _ hdropped | halted _ hdropped => rw [hdropped] at hsent; cases hsent
      | exited other done _ hother hevents hdone =>
        rw [hother] at hsent
        cases hsent
        rw [hevents] at hexit
        rcases List.mem_append.1 hexit with hmem | hmem
        · exact absurd hmem (hdone.not_mem exitCode)
        · cases List.mem_singleton.1 hmem
          rfl

theorem Sound.error_of_fails
    (hfails : Fails provider labels) : ∃ error, bridge.result = some (.error error) := by
  obtain ⟨hchecks, hrefused⟩ := hfails
  cases hresult : bridge.result with
  | none =>
    exfalso
    rcases hrefused with hrecv | hstdin
    · have hdropped := (hsound.recvReported hchecks hrecv).2.1
      rw [hresting.exit hresult] at hdropped
      cases hdropped
    · rcases hsound.stdinReported hchecks hstdin with ⟨error, hfailed⟩ | herrors | hsome
      · exact hresting.forwarder error hfailed
      · exact herrors (hsound.errors_eq_nil hresting hresult)
      · rw [hresult] at hsome
        cases hsome
  | some result =>
    cases result with
    | error error => exact ⟨error, rfl⟩
    | ok exitCode =>
      have hexit := (hsound.exit_mem hresult).1
      exact absurd ⟨hchecks, hrefused⟩ (hsound.not_fails hundisturbed hexit)

theorem Sound.faithful : Faithful base64 labels bridge where
  output := hsound.delivered.isPrefix
  whole := by
    intro hnoError
    cases hresult : bridge.result with
    | none =>
      exact (hsound.delivered.of_receiving (hsound.receiving_of_none hresting hresult)).2.2
    | some result =>
      cases result with
      | error error => exact absurd hresult (hnoError error)
      | ok exitCode => exact (hsound.exit_mem hresult).2
  exit exitCode hexit := hsound.exit_of_undisturbed hresting hundisturbed hexit
  refused := by
    intro hrefused
    cases hchecks : provider.checksOk with
    | true => exact hsound.error_of_fails hresting hundisturbed ⟨hchecks, hrefused⟩
    | false =>
      rw [Undisturbed, hchecks] at hundisturbed
      exact absurd hrefused hundisturbed

end

omit hresting in
/-- A bridge that is faithful had an undisturbed run. -/
theorem Sound.undisturbed (hfaithful : Faithful base64 labels bridge) :
    Undisturbed provider labels := by
  unfold Undisturbed
  split
  · rintro ⟨hstdin, exitCode, hexit⟩
    obtain ⟨error, herror⟩ := hfaithful.refused (.inr hstdin)
    rw [hfaithful.exit exitCode hexit] at herror
    cases herror
  · rename_i hchecks
    intro hrefused
    obtain ⟨error, herror⟩ := hfaithful.refused hrefused
    exact hsound.not_error (fun hfails ↦ hchecks hfails.1) error herror

end Rest

/-! ## Runs left to themselves -/

section Alone
variable (halone : ∀ label ∈ alone, label.isOwn = true)
include halone

theorem recvAnswers_alone (labels : List Label) :
    recvAnswers (labels ++ alone) = recvAnswers labels := by
  have hanswers : recvAnswers alone = [] := by
    refine recvAnswers_of_keepsRecv fun label hlabel ↦ ?_
    have hown := halone label hlabel
    cases label <;> first | rfl | cases hown
  rw [recvAnswers, List.filterMap_append, ← recvAnswers, ← recvAnswers, hanswers, List.append_nil]

theorem stdinAnswers_alone (labels : List Label) :
    stdinAnswers (labels ++ alone) = stdinAnswers labels := by
  have hanswers : stdinAnswers alone = [] := by
    refine stdinAnswers_of_keepsStdin fun label hlabel ↦ ?_
    have hown := halone label hlabel
    cases label <;> first | rfl | cases hown
  rw [stdinAnswers, List.filterMap_append, ← stdinAnswers, ← stdinAnswers, hanswers,
    List.append_nil]

theorem faithful_alone :
    Faithful base64 (labels ++ alone) bridge ↔ Faithful base64 labels bridge := by
  have hreported : reported (labels ++ alone) = reported labels := by
    rw [reported, recvAnswers_alone halone, ← reported]
  have hrecv : RecvRefused (labels ++ alone) ↔ RecvRefused labels := by
    rw [RecvRefused, recvAnswers_alone halone, ← RecvRefused]
  have hstdin : StdinRefused (labels ++ alone) ↔ StdinRefused labels := by
    rw [StdinRefused, stdinAnswers_alone halone, ← StdinRefused]
  constructor
  · intro hfaithful
    exact ⟨hreported ▸ hfaithful.output, hreported ▸ hfaithful.whole, hreported ▸ hfaithful.exit,
      fun hrefused ↦ hfaithful.refused (by rwa [hrecv, hstdin])⟩
  · intro hfaithful
    exact ⟨hreported ▸ hfaithful.output, hreported ▸ hfaithful.whole, hreported ▸ hfaithful.exit,
      fun hrefused ↦ hfaithful.refused (by rwa [hrecv, hstdin] at hrefused)⟩

theorem undisturbed_alone :
    Undisturbed provider (labels ++ alone) ↔ Undisturbed provider labels := by
  rw [Undisturbed, Undisturbed, RecvRefused, RecvRefused, StdinRefused, StdinRefused, reported,
    reported, recvAnswers_alone halone, stdinAnswers_alone halone]

end Alone

theorem sound_alone (hrun : (system base64 provider).Admits {} labels)
    (halone : (system base64 provider).RunsAlone (fun label ↦ label.isOwn = true)
      ((system base64 provider).exec {} labels) alone) :
    Sound base64 provider (labels ++ alone)
      ((system base64 provider).exec ((system base64 provider).exec {} labels) alone) := by
  rw [← System.exec_append]
  exact sound_exec ((System.admits_append _ _ _ _).2 ⟨hrun, halone.1⟩)

theorem undisturbed_of_settles (hrun : (system base64 provider).Admits {} labels)
    (hsettles : SettlesFaithful base64 provider labels
      ((system base64 provider).exec {} labels)) : Undisturbed provider labels := by
  obtain ⟨alone, halone, hfaithful⟩ := hsettles.exists work_lt
  rw [← faithful_alone halone.2] at hfaithful
  exact (undisturbed_alone halone.2).1 ((sound_alone hrun halone).undisturbed hfaithful)

/-- In every run, the output pipes carry the decoded events in order, the tasks and the waiter come
to rest if the guest answers no more, and what they settle on is faithful exactly if the run was
undisturbed: the client turns a refused answer into an error, and no `write` or `close_stdin` is
refused in a run that reports the exit; or no answer is refused. -/
theorem bridge_faithful (hrun : (system base64 provider).Admits {} labels) :
    (∀ stream, ((system base64 provider).exec {} labels).written stream <+:
        bytesOf base64 stream (reported labels)) ∧
      (∀ alone, (system base64 provider).RunsAlone (fun label ↦ label.isOwn = true)
          ((system base64 provider).exec {} labels) alone →
        alone.length ≤ ((system base64 provider).exec {} labels).work base64) ∧
      (SettlesFaithful base64 provider labels ((system base64 provider).exec {} labels) ↔
        Undisturbed provider labels) := by
  refine ⟨(sound_exec hrun).delivered.isPrefix, fun alone halone ↦ halone.length_le work_lt,
    undisturbed_of_settles hrun, ?_⟩
  intro hundisturbed alone halone hrest
  rw [← faithful_alone halone.2]
  exact (sound_alone hrun halone).faithful (resting_of_atRest hrest)
    ((undisturbed_alone halone.2).2 hundisturbed)

/-- What the standard encoding says of the chunk below. -/
def sample : Base64 where
  encode data := if data = [104, 105, 10] then "aGkK" else ""
  decode data := if data = "aGkK" then .ok [104, 105, 10] else .error "Invalid input"

/-- The guest answers a poll with a chunk and the exit; the poller has not come to it yet. -/
def shortRun : List Label :=
  [.poll, .answerRecv { ok := true, events := [.stdout "aGkK", .exit 3] }]

theorem bridge_faithful_shortRun :
    SettlesFaithful sample .vercel shortRun ((system sample .vercel).exec {} shortRun) := by
  have hrun : (system sample .vercel).Admits {} shortRun := by decide +kernel
  refine (bridge_faithful hrun).2.2.2 ?_
  simp [Undisturbed, Provider.checksOk, shortRun, StdinRefused, stdinAnswers]

/-- The guest knows the process no more, and the poller asks again. -/
def refusedRun : List Label :=
  [.poll, .answerRecv { ok := false, error := some "unknown process: p" }]

/-- The process ended while a chunk of its input was on the way. -/
def lateRun : List Label :=
  [.writeStdin [104, 105, 10], .read 3, .poll,
    .answerRecv { ok := true, events := [.exit 0] },
    .answerStdin { ok := false, error := some "bridged process is not running: 0" }]

/-- Firecracker's client hands on the refusal of a `recv`, and after the bridge came to rest `wait`
has no result; Vercel's client makes the refusal of the late `write` an error, which `wait` takes
for the result of the process that exited with 0. -/
theorem refusals_misreported :
    (¬ ∀ base64 provider labels, (system base64 provider).Admits {} labels →
      SettlesFaithful base64 provider labels ((system base64 provider).exec {} labels)) ∧
    ((system sample .firecracker).Admits {} (refusedRun ++ [.poll, .poll]) ∧
      ((system sample .firecracker).exec {} (refusedRun ++ [.poll, .poll])).poller = .receiving ∧
      ((system sample .firecracker).exec {} (refusedRun ++ [.poll, .poll])).result = none) ∧
    (system sample .vercel).Admits {}
        (lateRun ++ [.poll, .reportForwarder, .waitError]) ∧
      ((system sample .vercel).exec {} (lateRun ++ [.poll, .reportForwarder, .waitError])).exit =
        .sent 0 ∧
      ((system sample .vercel).exec {} (lateRun ++ [.poll, .reportForwarder, .waitError])).result =
        some (.error ("writing process bridge stdin: process bridge request failed: " ++
          "bridged process is not running: 0")) := by
  refine ⟨fun hall ↦ ?_, by decide +kernel, by decide +kernel⟩
  have hsettles := hall sample .firecracker refusedRun (by decide +kernel)
  have hundisturbed := undisturbed_of_settles (by decide +kernel) hsettles
  simp [Undisturbed, Provider.checksOk, refusedRun, RecvRefused, recvAnswers] at hundisturbed

end Exo.Sandbox.ProcessBridge
