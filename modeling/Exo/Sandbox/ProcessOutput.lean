import Exo.Sandbox.ProcessEnd

/-!
# The output of a running process

The chunks in the list of a process are what its readers have read, up to the one that a reader still
holds; a stream whose end was seen is there as a whole.  The watcher waits for both readers, so when
the exit of the process is in the list, both streams have ended.
-/

namespace Exo.Sandbox

open Library Function

/-- What a reader has read, pushed and seen. -/
def TaskStage.Reads (status : SandboxProcessStatus) (read output : Bytes) (ended : Bool) :
    TaskStage → Prop
  | .reading => read = output ∧ ended = false
  | .holding data => read = output ++ data ∧ ended = false
  | .appending _ => read = output ∧ ended = false
  | .ending _ final => read = output ∧ ended = false ∧ ∀ exitCode, final ≠ .exited exitCode
  | .closing => read = output ∧ (ended = true ∨ status.isRunning = false)
  | .returned => read = output ∧ (ended = true ∨ status.isRunning = false)
  | .aborted => ended = true → read = output
  | _ => False

/-- The readers are done before the watcher looks at the status, and both streams have ended if it
goes on. -/
def TaskStage.Watches (readers : OutputStream → TaskStage) (ended : OutputStream → Bool) :
    TaskStage → Prop
  | .checking _ => ∀ stream, readers stream = .returned
  | .ending _ _ => ∀ stream, ended stream = true
  | _ => True

/-- How many readers have not returned. -/
def openReaders (stages : Writer → TaskStage) : ℕ :=
  (if stages (.reader .stdout) = .returned then 0 else 1) +
    if stages (.reader .stderr) = .returned then 0 else 1

/-- The output of a process, on the parts that it depends on. -/
structure OutputSound (events : List SandboxProcessEvent) (status : SandboxProcessStatus)
    (openOutputStreams : ℕ) (stages : Writer → TaskStage) (read : OutputStream → Bytes)
    (ended : OutputStream → Bool) : Prop where
  readers : ∀ stream,
    (stages (.reader stream)).Reads status (read stream) (outputOf stream events) (ended stream)
  watcher : (stages .watcher).Watches (fun stream ↦ stages (.reader stream)) ended
  calls : ∀ call step final, stages (.cancel call) = .ending step final → final = .cancelled
  count : openOutputStreams = openReaders stages
  exited : ∀ cursor exitCode, .exit cursor exitCode ∈ events → ∀ stream, ended stream = true

/-- The output of a process is sound. -/
def RunningSandboxProcess.OutputSound (process : RunningSandboxProcess) : Prop :=
  Sandbox.OutputSound process.events process.status process.openOutputStreams process.stages
    process.read process.ended

section Output
variable {events : List SandboxProcessEvent} {status : SandboxProcessStatus}
  {openOutputStreams : ℕ} {stages : Writer → TaskStage} {read : OutputStream → Bytes}
  {ended : OutputStream → Bool}
  {stage : TaskStage} {bytes output : Bytes} {seen : Bool} {status' : SandboxProcessStatus}
  {writer : Writer}

theorem TaskStage.Reads.read_eq_output (hreads : stage.Reads status bytes output true) :
    bytes = output := by
  cases stage with
  | closing | returned => exact hreads.1
  | aborted => exact hreads rfl
  | reading | holding | appending => cases hreads.2
  | ending => cases hreads.2.1
  | _ => cases hreads

/-- The status stays, or is terminal. -/
theorem TaskStage.Reads.setStatus (hreads : stage.Reads status bytes output seen)
    {later : SandboxProcessStatus} (hlater : later = status ∨ later.isRunning = false) :
    stage.Reads later bytes output seen := by
  rcases hlater with hsame | hterminal
  · rw [hsame]
    exact hreads
  · cases stage with
    | closing | returned => exact ⟨hreads.1, .inr hterminal⟩
    | _ => exact hreads

/-- A reader that has not returned moves on; the watcher has not looked at the status yet. -/
theorem OutputSound.moveReader
    (hsound : OutputSound events status openOutputStreams stages read ended)
    {events' : List SandboxProcessEvent} {openOutputStreams' : ℕ}
    {stream : OutputStream}
    (hstage : stages (.reader stream) ≠ .returned)
    (hstatus : status' = status ∨ status'.isRunning = false)
    (hreads : stage.Reads status' bytes (outputOf stream events') seen)
    (hseen : ended stream = true → seen = true)
    (hothers : ∀ other, other ≠ stream → outputOf other events' = outputOf other events)
    (hcount : openOutputStreams' = openReaders (Function.update stages (.reader stream) stage))
    (hexited : ∀ cursor exitCode, .exit cursor exitCode ∈ events' →
      .exit cursor exitCode ∈ events) :
    OutputSound events' status' openOutputStreams' (Function.update stages (.reader stream) stage)
      (Function.update read stream bytes) (Function.update ended stream seen) := by
  have hended : ∀ other, ended other = true → update ended stream seen other = true := by
    intro other hother
    by_cases hsame : other = stream
    · rw [hsame] at hother ⊢
      rw [update_self]
      exact hseen hother
    · rw [update_of_ne hsame]
      exact hother
  refine ⟨fun other ↦ ?_, ?_, fun call step final hcall ↦ ?_, hcount, ?_⟩
  · by_cases hsame : other = stream
    · rw [hsame, update_self, update_self, update_self]
      exact hreads
    · have hne : Writer.reader other ≠ .reader stream := by simpa using hsame
      rw [update_of_ne hne, update_of_ne hsame, update_of_ne hsame, hothers other hsame]
      exact (hsound.readers other).setStatus hstatus
  · rw [update_of_ne (by simp)]
    have hwatcher := hsound.watcher
    cases hwatch : stages .watcher with
    | checking final =>
      rw [hwatch] at hwatcher
      exact absurd (hwatcher stream) hstage
    | ending step final =>
      rw [hwatch] at hwatcher
      exact fun other ↦ hended other (hwatcher other)
    | _ => trivial
  · rw [update_of_ne (by simp)] at hcall
    exact hsound.calls call step final hcall
  · intro cursor exitCode hexit other
    exact hended other (hsound.exited cursor exitCode (hexited cursor exitCode hexit) other)

theorem openReaders_update_of_ne_reader (hwriter : ∀ stream, writer ≠ .reader stream)
    (stage : TaskStage) :
    openReaders (Function.update stages writer stage) = openReaders stages := by
  unfold openReaders
  rw [update_of_ne (hwriter .stdout).symm, update_of_ne (hwriter .stderr).symm]

/-- A reader that has not returned and does not return. -/
theorem openReaders_update_of_ne_returned {stream : OutputStream}
    (hbefore : stages (.reader stream) ≠ .returned) (hafter : stage ≠ .returned) :
    openReaders (Function.update stages (.reader stream) stage) = openReaders stages := by
  cases stream <;> simp [openReaders, hbefore, hafter]

theorem openReaders_update_returned {stream : OutputStream}
    (hbefore : stages (.reader stream) ≠ .returned) :
    openReaders (Function.update stages (.reader stream) .returned) = openReaders stages - 1 := by
  cases stream <;> simp [openReaders, hbefore]

section
variable (hsound : OutputSound events status openOutputStreams stages read ended)
include hsound

/-- A reader that neither reads nor returns. -/
theorem OutputSound.setReader {events' : List SandboxProcessEvent} {stream : OutputStream}
    (hactive : stages (.reader stream) ≠ .returned) (hstage : stage ≠ .returned) (hstatus : status' = status ∨ status'.isRunning = false)
    (hreads : stage.Reads status' (read stream) (outputOf stream events') (ended stream))
    (hothers : ∀ other, other ≠ stream → outputOf other events' = outputOf other events)
    (hexited : ∀ cursor exitCode, .exit cursor exitCode ∈ events' →
      .exit cursor exitCode ∈ events) :
    OutputSound events' status' openOutputStreams (Function.update stages (.reader stream) stage)
      read ended := by
  have hcount : openOutputStreams = openReaders (update stages (.reader stream) stage) := by
    rw [openReaders_update_of_ne_returned hactive hstage]
    exact hsound.count
  have hmoved := hsound.moveReader hactive hstatus hreads id hothers hcount hexited
  rwa [update_eq_self, update_eq_self] at hmoved

theorem OutputSound.moveWriter
    {events' : List SandboxProcessEvent} (hwriter : ∀ stream, writer ≠ .reader stream)
    (hstatus : status' = status ∨ status'.isRunning = false)
    (houtput : ∀ stream, outputOf stream events' = outputOf stream events)
    (hwatcher : writer = .watcher → stage.Watches (fun stream ↦ stages (.reader stream)) ended)
    (hcalls : ∀ call, writer = .cancel call → ∀ step final, stage = .ending step final →
      final = .cancelled) (hexited : ∀ cursor exitCode, .exit cursor exitCode ∈ events' →
      .exit cursor exitCode ∈ events ∨ ∀ stream, ended stream = true) :
    OutputSound events' status' openOutputStreams (Function.update stages writer stage) read
      ended := by
  have hreaders : (fun stream ↦ update stages writer stage (.reader stream)) =
      fun stream ↦ stages (.reader stream) := by
    funext stream
    rw [update_of_ne (hwriter stream).symm]
  refine ⟨fun stream ↦ ?_, ?_, fun call step final hcall ↦ ?_, ?_, ?_⟩
  · rw [update_of_ne (hwriter stream).symm, houtput stream]
    exact (hsound.readers stream).setStatus hstatus
  · rw [hreaders]
    by_cases hsame : writer = .watcher
    · rw [hsame, update_self]
      exact hwatcher hsame
    · rw [update_of_ne (Ne.symm hsame)]
      exact hsound.watcher
  · by_cases hsame : writer = .cancel call
    · rw [hsame, update_self] at hcall
      exact hcalls call hsame step final hcall
    · rw [update_of_ne (Ne.symm hsame)] at hcall
      exact hsound.calls call step final hcall
  · rw [openReaders_update_of_ne_reader hwriter]
    exact hsound.count
  · intro cursor exitCode hexit
    rcases hexited cursor exitCode hexit with hold | hended
    · exact hsound.exited cursor exitCode hold
    · exact hended

end

theorem outputOf_snoc_event (stream : OutputStream) (final : SandboxProcessStatus) (cursor : ℕ) :
    outputOf stream (events ++ [final.event cursor]) = outputOf stream events := by
  rw [outputOf_append]
  simp [outputOf, SandboxProcessEvent.bytes_of_isTerminal]

theorem exited_of_event {final : SandboxProcessStatus} {position cursor : ℕ} {exitCode : ℤ}
    (hevent : SandboxProcessEvent.exit cursor exitCode = final.event position) :
    final = .exited exitCode := by
  cases final <;> cases hevent
  rfl

end Output

section Steps
variable {process : RunningSandboxProcess}

section
variable (hsound : process.OutputSound)
include hsound

variable {step : Ending} {final : SandboxProcessStatus} {writer : Writer} {data : Bytes}

namespace RunningSandboxProcess

namespace OutputSound

theorem reads {stream : OutputStream} {stage : TaskStage}
    (hstage : process.stages (.reader stream) = stage) : stage.Reads process.status
      (process.read stream) (outputOf stream process.events) (process.ended stream) :=
  hstage ▸ Sandbox.OutputSound.readers hsound stream

theorem advance_reader {stream : OutputStream}
    (hstage : process.stages (.reader stream) = .ending step final)
    (hterminal : final.isRunning = false) :
    (process.advance (.reader stream) final step).OutputSound := by
  obtain ⟨hread, hended, hfinal⟩ := hsound.reads hstage
  have hactive : process.stages (.reader stream) ≠ .returned := by simp [hstage]
  cases step with
  | push =>
    refine Sandbox.OutputSound.setReader hsound hactive (by simp) (.inl rfl) ?_
      (fun other _ ↦ outputOf_snoc_event other final _) ?_
    · refine ⟨?_, hended, hfinal⟩
      rw [hread]
      exact (outputOf_snoc_event stream final _).symm
    · intro cursor exitCode hexit
      rcases List.mem_append.1 hexit with hold | hnew
      · exact hold
      · exact absurd (exited_of_event (List.mem_singleton.1 hnew)) (hfinal exitCode)
  | append event | update =>
    exact Sandbox.OutputSound.setReader hsound hactive (by simp) (.inl rfl) ⟨hread, hended, hfinal⟩
      (fun _ _ ↦ rfl) (fun _ _ ↦ id)
  | set =>
    exact Sandbox.OutputSound.setReader hsound hactive (by simp [Writer.afterEnding])
      (.inr hterminal) ⟨hread, .inr hterminal⟩ (fun _ _ ↦ rfl) (fun _ _ ↦ id)

/-- The watcher or a call that ends the process. -/
theorem advance_writer (hwriter : ∀ stream, writer ≠ .reader stream)
    (hstage : process.stages writer = .ending step final) (hterminal : final.isRunning = false) :
    (process.advance writer final step).OutputSound := by
  have hwatcher : writer = .watcher → ∀ stream, process.ended stream = true := by
    intro hsame
    have hwatches := Sandbox.OutputSound.watcher hsound
    rwa [← hsame, hstage] at hwatches
  have hcall : ∀ call, writer = .cancel call → final = .cancelled := by
    intro call hsame
    rw [hsame] at hstage
    exact Sandbox.OutputSound.calls hsound call step final hstage
  have hending : ∀ call, writer = .cancel call → ∀ (next step : Ending) (last : SandboxProcessStatus),
      TaskStage.ending next final = .ending step last → last = .cancelled := by
    intro call hsame next step last heq
    cases heq
    exact hcall call hsame
  cases step with
  | push =>
    refine Sandbox.OutputSound.moveWriter hsound hwriter (.inl rfl)
      (fun stream ↦ outputOf_snoc_event stream final _) hwatcher
      (fun call hsame ↦ hending call hsame _) ?_
    intro cursor exitCode hexit
    rcases List.mem_append.1 hexit with hold | hnew
    · exact .inl hold
    · have hexited := exited_of_event (List.mem_singleton.1 hnew)
      match writer with
      | .reader stream => exact absurd rfl (hwriter stream)
      | .watcher => exact .inr (hwatcher rfl)
      | .cancel call =>
        rw [hcall call rfl] at hexited
        cases hexited
  | append event | update =>
    exact Sandbox.OutputSound.moveWriter hsound hwriter (.inl rfl) (fun _ ↦ rfl) hwatcher
      (fun call hsame ↦ hending call hsame _) (fun _ _ h ↦ .inl h)
  | set =>
    have hreturned : writer.afterEnding = .returned := by
      match writer with
      | .reader stream => exact absurd rfl (hwriter stream)
      | .watcher => rfl
      | .cancel call => rfl
    unfold advance
    rw [hreturned]
    exact Sandbox.OutputSound.moveWriter hsound hwriter (.inr hterminal) (fun _ ↦ rfl)
      (fun _ ↦ trivial) nofun (fun _ _ h ↦ .inl h)

theorem push {stream : OutputStream}
    (hstage : process.stages (.reader stream) = .holding data) :
    (runningProcess.next process (.push stream data)).OutputSound := by
  obtain ⟨hread, hended⟩ := hsound.reads hstage
  refine Sandbox.OutputSound.setReader hsound (by simp [hstage]) (by simp) (.inl rfl) ?_ ?_ ?_
  · refine ⟨?_, hended⟩
    rw [hread]
    refine ((outputOf_append stream _ _).trans ?_).symm
    simp [outputOf]
  · intro other hother
    refine (outputOf_append other _ _).trans ?_
    simp [outputOf, SandboxProcessEvent.bytes_output_of_ne (Ne.symm hother)]
  · intro cursor exitCode hexit
    rcases List.mem_append.1 hexit with hold | hnew
    · exact hold
    · cases stream <;> cases List.mem_singleton.1 hnew

theorem returned_of_drained (hopen : process.openOutputStreams = 0) (stream : OutputStream) :
    process.stages (.reader stream) = .returned := by
  have hcount := Sandbox.OutputSound.count hsound
  rw [hopen, openReaders] at hcount
  by_contra hne
  cases stream with
  | stdout | stderr =>
    rw [if_neg hne] at hcount
    omega

theorem read {stream : OutputStream}
    (hstage : process.stages (.reader stream) = .reading) :
    (runningProcess.next process (.read stream data)).OutputSound := by
  obtain ⟨hread, hended⟩ := hsound.reads hstage
  have hactive : process.stages (.reader stream) ≠ .returned := by simp [hstage]
  have hcount : process.openOutputStreams =
      openReaders (update process.stages (.reader stream) (.holding data)) := by
    rw [openReaders_update_of_ne_returned hactive (by simp)]
    exact Sandbox.OutputSound.count hsound
  have hreads : (TaskStage.holding data).Reads process.status (process.read stream ++ data)
      (outputOf stream process.events) (process.ended stream) := by
    rw [hread]
    exact ⟨rfl, hended⟩
  have hmoved := Sandbox.OutputSound.moveReader hsound hactive (.inl rfl) hreads id
    (fun _ _ ↦ rfl) hcount (fun _ _ ↦ id)
  rwa [update_eq_self stream process.ended] at hmoved

theorem endOfFile {stream : OutputStream}
    (hstage : process.stages (.reader stream) = .reading) :
    (runningProcess.next process (.endOfFile stream)).OutputSound := by
  have hreads := hsound.reads hstage
  have hactive : process.stages (.reader stream) ≠ .returned := by simp [hstage]
  have hcount : process.openOutputStreams =
      openReaders (update process.stages (.reader stream) .closing) := by
    rw [openReaders_update_of_ne_returned hactive (by simp)]
    exact Sandbox.OutputSound.count hsound
  have hclosing : TaskStage.closing.Reads process.status (process.read stream)
      (outputOf stream process.events) true := ⟨hreads.1, .inl rfl⟩
  have hmoved := Sandbox.OutputSound.moveReader hsound hactive (.inl rfl) hclosing (fun _ ↦ rfl)
    (fun _ _ ↦ rfl) hcount (fun _ _ ↦ id)
  rwa [update_eq_self stream process.read] at hmoved

theorem close {stream : OutputStream}
    (hstage : process.stages (.reader stream) = .closing) :
    (runningProcess.next process (.close stream)).OutputSound := by
  have hreads := hsound.reads hstage
  have hactive : process.stages (.reader stream) ≠ .returned := by simp [hstage]
  have hcount : process.openOutputStreams - 1 =
      openReaders (update process.stages (.reader stream) .returned) := by
    rw [openReaders_update_returned hactive, ← Sandbox.OutputSound.count hsound]
  have hreturned : TaskStage.returned.Reads _ _ _ _ := hreads
  have hmoved := Sandbox.OutputSound.moveReader hsound hactive (.inl rfl) hreturned id
    (fun _ _ ↦ rfl) hcount (fun _ _ ↦ id)
  rwa [update_eq_self, update_eq_self] at hmoved

/-- The watcher goes on only if the process runs, and then both streams have ended. -/
theorem check (hstage : process.stages .watcher = .checking final) :
    (runningProcess.next process (.check final)).OutputSound := by
  have hreturned : ∀ stream, process.stages (.reader stream) = .returned := by
    have hwatches := Sandbox.OutputSound.watcher hsound
    rwa [hstage] at hwatches
  refine Sandbox.OutputSound.moveWriter hsound (by simp) (.inl rfl) (fun _ ↦ rfl) (fun _ ↦ ?_)
    nofun (fun _ _ h ↦ .inl h)
  cases hrunning : process.status.isRunning with
  | false => trivial
  | true =>
    intro stream
    rcases (hsound.reads (hreturned stream)).2 with hended | hterminal
    · exact hended
    · rw [hrunning] at hterminal
      cases hterminal

theorem abort (htask : writer.isTask = true)
    (hactive : process.stages writer ≠ .returned) :
    (runningProcess.next process (.abort writer)).OutputSound := by
  match writer with
  | .reader stream =>
    refine Sandbox.OutputSound.setReader hsound hactive (by simp) (.inl rfl) ?_ (fun _ _ ↦ rfl)
      (fun _ _ ↦ id)
    intro hended
    have hreads := Sandbox.OutputSound.readers hsound stream
    rw [hended] at hreads
    exact hreads.read_eq_output
  | .watcher =>
    exact Sandbox.OutputSound.moveWriter hsound (by simp) (.inl rfl) (fun _ ↦ rfl)
      (fun _ ↦ trivial) nofun (fun _ _ h ↦ .inl h)
  | .cancel call => cases htask

end OutputSound

end RunningSandboxProcess

end

theorem RunningSandboxProcess.OutputSound.next (houtput : process.OutputSound)
    (hsound : process.Sound) {label : RunningLabel}
    (henabled : runningProcess.enabled process label) :
    (runningProcess.next process label).OutputSound := by
  cases label with
  | read stream data => exact houtput.read henabled.1
  | endOfFile stream => exact houtput.endOfFile henabled
  | readError stream message =>
    have hreads := houtput.reads henabled
    refine Sandbox.OutputSound.setReader houtput ?_ (by simp) (.inl rfl)
      ⟨hreads.1, hreads.2, by simp⟩ (fun _ _ ↦ rfl) (fun _ _ ↦ id)
    rw [show process.stages (.reader stream) = .reading from henabled]
    simp
  | push stream data => exact houtput.push henabled
  | append stream event =>
    have hreads := houtput.reads henabled
    refine Sandbox.OutputSound.setReader houtput ?_ (by simp) (.inl rfl) hreads (fun _ _ ↦ rfl)
      (fun _ _ ↦ id)
    rw [show process.stages (.reader stream) = .appending event from henabled]
    simp
  | close stream => exact houtput.close henabled
  | exit terminal =>
    exact Sandbox.OutputSound.moveWriter houtput (by simp) (.inl rfl) (fun _ ↦ rfl)
      (fun _ ↦ trivial) nofun (fun _ _ h ↦ .inl h)
  | drain status =>
    exact Sandbox.OutputSound.moveWriter houtput (by simp) (.inl rfl) (fun _ ↦ rfl)
      (fun _ ↦ houtput.returned_of_drained henabled.2) nofun
      (fun _ _ h ↦ .inl h)
  | check status => exact houtput.check henabled
  | cancel | takeStdin call =>
    exact Sandbox.OutputSound.moveWriter houtput (by simp) (.inl rfl) (fun _ ↦ rfl)
      nofun nofun (fun _ _ h ↦ .inl h)
  | dropTasks call =>
    exact Sandbox.OutputSound.moveWriter houtput (by simp) (.inl rfl) (fun _ ↦ rfl)
      nofun (fun _ _ _ _ h ↦ by cases h; rfl) (fun _ _ h ↦ .inl h)
  | advance writer step status =>
    have hterminal : status.isRunning = false := by
      have hstage := WritersSound.terminal hsound writer
      rwa [show process.stages writer = .ending step status from henabled] at hstage
    match writer with
    | .reader stream => exact houtput.advance_reader henabled hterminal
    | .watcher | .cancel call => exact houtput.advance_writer (by simp) henabled hterminal
  | abort writer => exact houtput.abort henabled.1 henabled.2.2
  | closeInput | startPoll | snapshot index | look index => exact houtput

end Steps

end Exo.Sandbox
