import Exo.Library.UpdateFirst
import Exo.Sandbox.ProcessRegistry

/-!
# The event log of a registered process

In every interleaving of the tasks and clients of a process, its events are numbered without gaps,
the status is terminal exactly when the last event is, no output is recorded that was not read, and
none that was read before the end of its stream is missing.  Whoever polls gets every event once and
whoever waits is woken.
-/

namespace Exo.Sandbox

open Library List

/-- What clients see of a process. -/
structure Process.Protocol (process : Process) : Prop where
  numbered : Numbered process.events
  running : process.status.isRunning = true → ∀ event ∈ process.events, event.isTerminal = false
  terminal : process.status.isRunning = false → ∃ output event, process.events = output ++ [event] ∧
    (∀ earlier ∈ output, earlier.isTerminal = false) ∧ event.isTerminal = true ∧
    event.status = process.status
  output : ∀ stream, outputOf stream process.events <+: (process.readers stream).read
  wholeOutput : ∀ stream, (process.readers stream).ended = true →
    outputOf stream process.events = (process.readers stream).read
  pollers : ∀ poller ∈ process.pollers, poller.received <+: process.events ∧
    (process.poll poller).received = process.events
  waiters : ∀ waiter ∈ process.waiters, waiter.Sound process.outcome process.supervisor.isFinished
  cancelled : process.cancelledFirst = true → process.status.isRunning = false →
    process.status = .cancelled

/-- The events are numbered, and the status is terminal exactly when the last event is. -/
structure LogSound (events : List SandboxProcessEvent) (status : SandboxProcessStatus) : Prop where
  numbered : Numbered events
  running : status.isRunning = true → ∀ event ∈ events, event.isTerminal = false
  terminal : status.isRunning = false → ∃ output event, events = output ++ [event] ∧
    (∀ earlier ∈ output, earlier.isTerminal = false) ∧ event.isTerminal = true ∧
    event.status = status

/-- The supervisor records a terminal status once, and a cancellation before any other cause. -/
def Supervisor.Sound (status : SandboxProcessStatus) (cancel cancelledFirst : Bool) :
    Supervisor → Prop
  | .selecting => status = .running ∧ (cancelledFirst = true → cancel = true)
  | .selectingFailure | .selectingExit => status = .running ∧ cancelledFirst = false
  | .draining chosen => status = .running ∧ chosen.isRunning = false ∧
    (cancelledFirst = true → chosen = .cancelled ∧ cancel = true)
  | .drainingFailure chosen | .drainingReaders chosen =>
    status = .running ∧ chosen.isRunning = false ∧ cancelledFirst = false
  | .closing chosen => status = .running ∧ chosen.isRunning = false ∧
    (cancelledFirst = true → chosen = .cancelled)
  | .recording chosen => status = .running ∧ chosen.isRunning = false ∧
    (cancelledFirst = true → chosen = .cancelled)
  | .notifying => status.isRunning = false ∧ (cancelledFirst = true → status = .cancelled)
  | .finished => status.isRunning = false ∧ (cancelledFirst = true → status = .cancelled)

/-- What a reader has read and recorded. -/
def ReaderStage.Sound (read output : Bytes) : ReaderStage → Prop
  | .reading => read = output
  | .holding data => read = output ++ data
  | _ => output <+: read

def Reader.Sound (output : Bytes) (reader : Reader) : Prop :=
  reader.stage.Sound reader.read output ∧
    (reader.ended = true → reader.read = output ∧ reader.stage.isReturned = true)

/-- What a poller has received is the list up to its cursor. -/
def Poller.Sound (events : List SandboxProcessEvent) (poller : Poller) : Prop :=
  poller.received <+: events ∧ poller.after = poller.received.length

structure Process.Sound (process : Process) : Prop where
  log : LogSound process.events process.status
  phase : process.supervisor.Sound process.status process.cancel process.cancelledFirst
  readers : ∀ stream, (process.readers stream).Sound (outputOf stream process.events)
  pollers : ∀ poller ∈ process.pollers, poller.Sound process.events
  waiters : ∀ waiter ∈ process.waiters, waiter.Sound process.outcome process.supervisor.isFinished

section Parts
variable {events : List SandboxProcessEvent} {status : SandboxProcessStatus} {recorded : Bytes}
  {reader : Reader} {process : Process}

theorem LogSound.output (hlog : LogSound events status) (hrunning : status.isRunning = true)
    (stream : OutputStream) (data : Bytes) :
    LogSound (events ++ [.output stream (events.length + 1) data]) status := by
  refine ⟨hlog.numbered.snoc (by simp), fun _ event hevent ↦ ?_, fun hterminal ↦ ?_⟩
  · rcases mem_append.1 hevent with hold | hnew
    · exact hlog.running hrunning event hold
    · rw [mem_singleton.1 hnew]
      simp
  · rw [hrunning] at hterminal
    cases hterminal

theorem LogSound.terminate (hlog : LogSound events .running) (hstatus : status.isRunning = false) :
    LogSound (events ++ [status.event (events.length + 1)]) status := by
  refine ⟨hlog.numbered.snoc (by simp), fun hrunning ↦ ?_, fun _ ↦ ?_⟩
  · rw [hstatus] at hrunning
    cases hrunning
  · exact ⟨events, _, rfl, hlog.running rfl, by simp, status_event hstatus _⟩

theorem Reader.Sound.recorded_prefix_read (hreader : reader.Sound recorded) :
    recorded <+: reader.read := by
  obtain ⟨hstage, -⟩ := hreader
  cases hreaderStage : reader.stage with
  | reading =>
    rw [hreaderStage] at hstage
    have hread : reader.read = recorded := hstage
    exact ⟨[], by rw [hread, append_nil]⟩
  | holding data =>
    rw [hreaderStage] at hstage
    exact ⟨data, hstage.symm⟩
  | sending message | returned error =>
    rw [hreaderStage] at hstage
    exact hstage

theorem Poller.Sound.append {poller : Poller} (hpoller : poller.Sound events)
    (more : List SandboxProcessEvent) : poller.Sound (events ++ more) :=
  ⟨hpoller.1.trans (prefix_append _ _), hpoller.2⟩

theorem Poller.Sound.poll (hnumbered : Numbered process.events) {poller : Poller}
    (hpoller : poller.Sound process.events) :
    (process.poll poller).received = process.events ∧
      (process.poll poller).after = process.events.length := by
  obtain ⟨hprior, hafter⟩ := hpoller
  have hreceived : poller.received = process.events.take poller.after := by
    rw [hafter]
    exact prefix_iff_eq_take.1 hprior
  have hle : poller.after ≤ process.events.length := by
    rw [hafter]
    exact hprior.length_le
  simp only [Process.poll, Process.page, hnumbered.filter_eq_drop]
  refine ⟨?_, hnumbered.getLast?_drop hle⟩
  calc
    poller.received ++ process.events.drop poller.after =
        process.events.take poller.after ++ process.events.drop poller.after := by
      rw [← hreceived]
    _ = process.events := take_append_drop _ _

end Parts

section Steps
variable {process : Process} {stream : OutputStream}

section
variable (hsound : process.Sound)
include hsound

namespace Process

namespace Sound

theorem setReader {reader : Reader}
    (hreader : reader.Sound (outputOf stream process.events)) :
    (process.setReader stream reader).Sound := by
  refine ⟨hsound.log, hsound.phase, fun other ↦ ?_, hsound.pollers, hsound.waiters⟩
  by_cases hother : other = stream
  · subst hother
    simpa [Process.setReader] using hreader
  · simpa [Process.setReader, hother] using hsound.readers other

/-- A reader at a wait has recorded everything it has read, or is past that. -/
theorem returned (stream : OutputStream) (error : Option String) (ended : Bool)
    (hended : ended = true → (process.readers stream).read = outputOf stream process.events) :
    (process.setReader stream
      { process.readers stream with stage := .returned error, ended := ended }).Sound := by
  refine hsound.setReader ⟨(hsound.readers stream).recorded_prefix_read, fun h ↦ ⟨hended h, rfl⟩⟩

theorem push {data : Bytes}
    (hstage : (process.readers stream).stage = .holding data) :
    (process.push stream data).Sound := by
  have hreader := hsound.readers stream
  unfold Process.push
  split
  · rename_i hrunning
    have hread : (process.readers stream).read = outputOf stream process.events ++ data := by
      have h := hreader.1
      rw [hstage] at h
      exact h
    refine ⟨hsound.log.output hrunning stream data, hsound.phase, fun other ↦ ?_,
      fun poller hpoller ↦ (hsound.pollers poller hpoller).append _, hsound.waiters⟩
    by_cases hother : other = stream
    · subst hother
      simp only [Process.setReader, if_pos]
      refine ⟨?_, fun hended ↦ ?_⟩
      · rw [ReaderStage.Sound, hread, outputOf_append]
        simp [outputOf]
      · -- a reader that has seen the end of its stream holds no chunk
        have hreturned := (hreader.2 hended).2
        rw [hstage] at hreturned
        cases hreturned
    · have hsame : outputOf other (process.events ++
          [.output stream (process.events.length + 1) data]) = outputOf other process.events := by
        rw [outputOf_append]
        simp [outputOf, SandboxProcessEvent.bytes_output_of_ne (fun h ↦ hother h.symm)]
      simp only [Process.setReader, hother, if_false]
      rw [hsame]
      exact hsound.readers other
  · exact hsound.returned stream none _ fun hended ↦ (hreader.2 hended).1

/-- The supervisor goes on to another stage before it has recorded anything. -/
theorem move {supervisor : Supervisor} {exited cancelledFirst : Bool} {failures : List String}
    {readers : OutputStream → Reader} (hbusy : process.supervisor.isFinished = false)
    (hnext : supervisor.isFinished = false)
    (hphase : supervisor.Sound process.status process.cancel cancelledFirst)
    (hreaders : ∀ stream, (readers stream).Sound (outputOf stream process.events)) :
    Process.Sound { process with
      supervisor := supervisor, exited := exited, cancelledFirst := cancelledFirst
      failures := failures, readers := readers } := by
  refine ⟨hsound.log, hphase, hreaders, hsound.pollers, fun waiter hwaiter ↦ ?_⟩
  have hsame := hsound.waiters waiter hwaiter
  rw [hbusy] at hsame
  change waiter.Sound process.outcome supervisor.isFinished
  rwa [hnext]

/-- A look that finds nothing; the next one at the token is of another poll. -/
theorem pass (hpasses : process.Passes) : process.pass.Sound := by
  have hphase := hsound.phase
  unfold Process.Passes at hpasses
  unfold Process.pass
  cases hsupervisor : process.supervisor with
  | selecting =>
    rw [hsupervisor] at hphase hpasses
    refine hsound.move (by rw [hsupervisor]; rfl) rfl ⟨hphase.1, ?_⟩ hsound.readers
    refine Bool.eq_false_iff.2 fun hfirst ↦ ?_
    cases hpasses.symm.trans (hphase.2 hfirst)
  | selectingFailure =>
    rw [hsupervisor] at hphase
    exact hsound.move (by rw [hsupervisor]; rfl) rfl hphase hsound.readers
  | selectingExit =>
    rw [hsupervisor] at hphase
    exact hsound.move (by rw [hsupervisor]; rfl) rfl ⟨hphase.1, id⟩ hsound.readers
  | draining status =>
    rw [hsupervisor] at hphase hpasses
    refine hsound.move (by rw [hsupervisor]; rfl) rfl ⟨hphase.1, hphase.2.1, ?_⟩ hsound.readers
    refine Bool.eq_false_iff.2 fun hfirst ↦ ?_
    cases hpasses.2.symm.trans (hphase.2.2 hfirst).2
  | drainingFailure status =>
    rw [hsupervisor] at hphase
    exact hsound.move (by rw [hsupervisor]; rfl) rfl hphase hsound.readers
  | drainingReaders status =>
    rw [hsupervisor] at hphase
    refine hsound.move (by rw [hsupervisor]; rfl) rfl ⟨hphase.1, hphase.2.1, fun hfirst ↦ ?_⟩
      hsound.readers
    cases hphase.2.2.symm.trans hfirst
  | _ =>
    rw [hsupervisor] at hpasses
    exact hpasses.elim

theorem select {cause : Cause} (hcause : process.Selects cause) : (process.select cause).Sound := by
  have hphase := hsound.phase
  cases cause with
  | cancelled =>
    obtain ⟨hselecting, hcancel⟩ := hcause
    rw [hselecting] at hphase
    exact hsound.move (by rw [hselecting]; rfl) rfl ⟨hphase.1, rfl, fun _ ↦ ⟨rfl, hcancel⟩⟩
      hsound.readers
  | outputFailure =>
    rw [hcause.1] at hphase
    refine hsound.move (by rw [hcause.1]; rfl) rfl ⟨hphase.1, rfl, fun hfirst ↦ ?_⟩ hsound.readers
    cases hphase.2.symm.trans hfirst
  | exited exitCode | waitError message =>
    have hexit : process.supervisor = .selectingExit := hcause
    rw [hexit] at hphase
    refine hsound.move (by rw [hexit]; rfl) rfl ⟨hphase.1, rfl, fun hfirst ↦ ?_⟩ hsound.readers
    cases hphase.2.symm.trans hfirst

omit hsound in
theorem isRunning_joinedStatus {status : SandboxProcessStatus} (hstatus : status.isRunning = false) :
    (process.joinedStatus status).isRunning = false := by
  unfold Process.joinedStatus
  split
  · split
    · exact hstatus
    · rfl
  · exact hstatus

theorem drain {status : SandboxProcessStatus} {drained : Drained}
    (hdrained : process.Drains status drained) : (process.drain status drained).Sound := by
  have hphase := hsound.phase
  have hnot : ∀ {P : Prop}, process.cancelledFirst = false → process.cancelledFirst = true → P :=
    fun hno hyes ↦ nomatch hno.symm.trans hyes
  cases drained with
  | skipped | cancelled =>
    rw [hdrained.1] at hphase
    exact hsound.move (by rw [hdrained.1]; rfl) rfl
      ⟨hphase.1, hphase.2.1, fun hfirst ↦ (hphase.2.2 hfirst).1⟩ hsound.readers
  | outputFailure =>
    rw [hdrained.1] at hphase
    exact hsound.move (by rw [hdrained.1]; rfl) rfl ⟨hphase.1, rfl, hnot hphase.2.2⟩ hsound.readers
  | joined =>
    rw [hdrained.1] at hphase
    exact hsound.move (by rw [hdrained.1]; rfl) rfl
      ⟨hphase.1, isRunning_joinedStatus hphase.2.1, hnot hphase.2.2⟩ hsound.readers
  | timeout =>
    have hdraining : process.supervisor = .drainingReaders status := hdrained
    rw [hdraining] at hphase
    exact hsound.move (by rw [hdraining]; rfl) rfl ⟨hphase.1, hphase.2.1, hnot hphase.2.2⟩
      hsound.readers

theorem record {status : SandboxProcessStatus}
    (hrecording : process.supervisor = .recording status) : (process.record status).Sound := by
  obtain ⟨hrunning, hstatus, hfirst⟩ : process.status = .running ∧ status.isRunning = false ∧
      (process.cancelledFirst = true → status = .cancelled) := by
    have hphase := hsound.phase
    rw [hrecording] at hphase
    exact hphase
  have hlog := hsound.log
  rw [hrunning] at hlog
  refine ⟨hlog.terminate hstatus, ⟨hstatus, hfirst⟩, fun stream ↦ ?_,
    fun poller hpoller ↦ (hsound.pollers poller hpoller).append _, fun waiter hwaiter ↦ ?_⟩
  · have hsame : outputOf stream (process.record status).events =
        outputOf stream process.events := by
      rw [Process.record, outputOf_append]
      simp [outputOf, SandboxProcessEvent.bytes_of_isTerminal (isTerminal_event status _)]
    rw [hsame]
    exact hsound.readers stream
  · have hwaiters := hsound.waiters waiter hwaiter
    rw [hrecording] at hwaiters
    refine hwaiters.publish fun value hvalue ↦ ?_
    simp [Process.outcome, hrunning, SandboxProcessStatus.isRunning] at hvalue

theorem notify (hnotifying : process.supervisor = .notifying) : Process.Sound { process with
      supervisor := .finished, waiters := process.waiters.map Waiter.notify } := by
  have hphase := hsound.phase
  rw [hnotifying] at hphase
  refine ⟨hsound.log, hphase, hsound.readers, hsound.pollers, fun waiter hwaiter ↦ ?_⟩
  obtain ⟨before, hbefore, rfl⟩ := mem_map.1 hwaiter
  exact (hsound.waiters before hbefore).notify

/-- A look, a wake or a new waiter. -/
theorem setWaiters {waiters : List (Waiter SandboxProcessStatus)}
    (hwaiters : ∀ waiter ∈ waiters, waiter.Sound process.outcome process.supervisor.isFinished) :
    Process.Sound { process with waiters := waiters } :=
  ⟨hsound.log, hsound.phase, hsound.readers, hsound.pollers, hwaiters⟩

theorem outcome_isSome (hfinished : process.supervisor.isFinished = true) :
    process.outcome.isSome = true := by
  have hphase := hsound.phase
  cases hsupervisor : process.supervisor with
  | finished =>
    rw [hsupervisor] at hphase
    simp [Process.outcome, hphase.1]
  | _ =>
    rw [hsupervisor] at hfinished
    cases hfinished

theorem next {label : ProcessLabel} (henabled : registry.enabled process label) :
    (registry.next process label).Sound := by
  cases label with
  | read stream data =>
    obtain ⟨hstage, -, -⟩ := henabled
    obtain ⟨hread, hended⟩ := hsound.readers stream
    rw [hstage] at hread hended
    refine hsound.setReader ⟨?_, fun h ↦ ?_⟩
    · exact congrArg (· ++ data) hread
    · cases (hended h).2
  | endOfFile stream =>
    refine hsound.returned stream none true fun _ ↦ ?_
    have hread := (hsound.readers stream).1
    rw [show (process.readers stream).stage = .reading from henabled] at hread
    exact hread
  | readError stream message =>
    have hended := (hsound.readers stream).2
    rw [show (process.readers stream).stage = .reading from henabled] at hended
    refine hsound.setReader ⟨?_, fun h ↦ ?_⟩
    · exact (hsound.readers stream).recorded_prefix_read
    · cases (hended h).2
  | sendFailure stream message =>
    have hreturned := hsound.returned stream (some message) (process.readers stream).ended
      fun h ↦ ((hsound.readers stream).2 h).1
    exact ⟨hreturned.log, hreturned.phase, hreturned.readers, hreturned.pollers, hreturned.waiters⟩
  | push stream data => exact hsound.push henabled
  | abort stream => exact hsound.returned stream none _ fun h ↦ ((hsound.readers stream).2 h).1
  | cancel =>
    refine ⟨hsound.log, ?_, hsound.readers, hsound.pollers, hsound.waiters⟩
    have hphase := hsound.phase
    simp only [registry]
    cases hsupervisor : process.supervisor with
    | selecting =>
      rw [hsupervisor] at hphase
      exact ⟨hphase.1, fun _ ↦ rfl⟩
    | selectingFailure | selectingExit =>
      rw [hsupervisor] at hphase
      exact ⟨hphase.1, by simpa using hphase.2⟩
    | drainingFailure status | drainingReaders status =>
      rw [hsupervisor] at hphase
      exact ⟨hphase.1, hphase.2.1, by simpa using hphase.2.2⟩
    | draining status =>
      rw [hsupervisor] at hphase
      refine ⟨hphase.1, hphase.2.1, fun hfirst ↦ ⟨(hphase.2.2 ?_).1, rfl⟩⟩
      simpa using hfirst
    | notifying | finished =>
      rw [hsupervisor] at hphase
      refine ⟨hphase.1, fun hfirst ↦ hphase.2 ?_⟩
      simpa using hfirst
    | _ =>
      rw [hsupervisor] at hphase
      refine ⟨hphase.1, hphase.2.1, fun hfirst ↦ hphase.2.2 ?_⟩
      simpa using hfirst
  | pass => exact hsound.pass henabled
  | select cause => exact hsound.select henabled
  | drain status drained => exact hsound.drain henabled
  | takeStdin status =>
    have hphase := hsound.phase
    have hwaiters := hsound.waiters
    rw [henabled.1] at hphase hwaiters
    exact ⟨hsound.log, hphase, hsound.readers, hsound.pollers, hwaiters⟩
  | record status => exact hsound.record henabled
  | notify => exact hsound.notify henabled
  | lookCancel | lookExited | lockStdin | unlockStdin | closeInput =>
    exact ⟨hsound.log, hsound.phase, hsound.readers, hsound.pollers, hsound.waiters⟩
  | wait =>
    refine hsound.setWaiters fun waiter hwaiter ↦ ?_
    rcases mem_append.1 hwaiter with hold | hnew
    · exact hsound.waiters waiter hold
    · rw [mem_singleton.1 hnew]
      trivial
  | look index =>
    refine hsound.setWaiters (forall_mem_modify hsound.waiters index fun waiter _ hwaiter ↦ ?_)
    exact hwaiter.look hsound.outcome_isSome
  | wake index =>
    refine hsound.setWaiters (forall_mem_modify hsound.waiters index fun waiter _ hwaiter ↦ ?_)
    exact hwaiter.wake
  | startPoll =>
    refine ⟨hsound.log, hsound.phase, hsound.readers, fun poller hpoller ↦ ?_, hsound.waiters⟩
    rcases mem_append.1 hpoller with hold | hnew
    · exact hsound.pollers poller hold
    · rw [mem_singleton.1 hnew]
      exact ⟨process.events.nil_prefix, rfl⟩
  | poll index =>
    refine ⟨hsound.log, hsound.phase, hsound.readers, ?_, hsound.waiters⟩
    refine forall_mem_modify hsound.pollers index fun poller _ hpoller ↦ ?_
    obtain ⟨hreceived, hafter⟩ := hpoller.poll hsound.log.numbered
    rw [Poller.Sound, hreceived, hafter]
    exact ⟨prefix_rfl, rfl⟩

theorem protocol : process.Protocol where
  numbered := hsound.log.numbered
  running := hsound.log.running
  terminal := hsound.log.terminal
  output stream := (hsound.readers stream).recorded_prefix_read
  wholeOutput stream hended := ((hsound.readers stream).2 hended).1.symm
  pollers poller hpoller :=
    ⟨(hsound.pollers poller hpoller).1,
      ((hsound.pollers poller hpoller).poll hsound.log.numbered).1⟩
  waiters := hsound.waiters
  cancelled hfirst hterminal := by
    have hphase := hsound.phase
    cases hsupervisor : process.supervisor with
    | notifying | finished =>
      rw [hsupervisor] at hphase
      exact hphase.2 hfirst
    | _ =>
      rw [hsupervisor] at hphase
      rw [hphase.1] at hterminal
      cases hterminal

end Sound

end Process

end

end Steps

/-- **The process registry keeps its event log.**  In every interleaving of the readers, the
supervisor and the clients of a process: the cursors are `1, …, n`; there is no terminal event while
the status is running, and afterwards exactly one, the last one, which says what the status says; the
recorded output of a stream is a prefix of what was read from it, and all of it once its reader has
seen the end; a poller has received a prefix of the events and gets exactly the rest at its next poll;
`wait` returns only the terminal status and nobody waits without a notification after it was
published; and a cancellation before the poll that selected a cause gives the status cancelled. -/
theorem registry_protocol (stdin : Bool) {labels : List ProcessLabel}
    (hrun : registry.Admits (.start stdin) labels) :
    (registry.exec (.start stdin) labels).Protocol := by
  refine Process.Sound.protocol (System.invariant Process.Sound ?_ ?_ hrun)
  · exact fun process label hsound henabled ↦ hsound.next henabled
  · refine ⟨⟨numbered_nil, ?_, ?_⟩, ⟨rfl, ?_⟩, fun _ ↦ ⟨rfl, ?_⟩, ?_, ?_⟩ <;>
      simp [Process.start, SandboxProcessStatus.isRunning]

/-- Output on both streams, a poll in between, a client that waits, an exit and a cancellation while
the readers are drained. -/
theorem registry_protocol_run : (registry.exec (.start true)
      [.startPoll, .wait, .look 0, .pass, .read .stdout [104, 105], .push .stdout [104, 105], .poll 0,
        .lookCancel, .lookExited, .lockStdin, .pass, .pass, .read .stderr [33], .pass, .pass,
        .select (.exited 0), .endOfFile .stdout, .unlockStdin, .pass, .cancel, .pass, .pass,
        .drain (.exited 0) .cancelled, .push .stderr [33], .takeStdin (.exited 0),
        .read .stderr [63], .record (.exited 0), .push .stderr [63], .notify, .wake 0, .look 0,
        .poll 0]).Protocol :=
  registry_protocol true (by decide +kernel)

/-- A cancellation between the look at the token and the selection of the exit. -/
theorem exited_after_cancel :
    ¬ ∀ stdin before after, registry.Admits (.start stdin) (before ++ .cancel :: after) →
      (∀ cause, ProcessLabel.select cause ∉ before) →
      let process := registry.exec (.start stdin) (before ++ .cancel :: after)
      process.status.isRunning = false → process.status = .cancelled := by
  intro hall
  have hcancelled := hall true [.pass] [.pass, .select (.exited 0), .drain (.exited 0) .cancelled,
    .takeStdin (.exited 0), .record (.exited 0)] (by decide +kernel) (by simp) rfl
  cases hcancelled

end Exo.Sandbox
