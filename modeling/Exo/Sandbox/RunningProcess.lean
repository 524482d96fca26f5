import Mathlib.Algebra.Ring.Nat
import Mathlib.Logic.Function.Basic
import Exo.Library.System
import Exo.Sandbox.ProcessEvents

/-!
# Running sandbox processes

`BasicExoHarness` runs three tasks for a process: two readers of its output and a watcher of its exit.
The list of events, the status and the journal are written in separate steps: whoever ends the process
(a reader that fails, the watcher, a call of `cancel_sandbox_process`) pushes the terminal event to the
list, appends it to the journal, appends the new status to the journal and only then sets the status.
A call that cancels drops the tasks, and a task that is dropped stops the next time it waits.  Clients
take a page in two steps as well: the events first, then the status.  Journal appends succeed.
-/

namespace Exo.Sandbox

open Library

/-- Who writes to a process: its three tasks and the calls that cancel it, in the order in which they
come. -/
inductive Writer where
  | reader (stream : OutputStream)
  | watcher
  | cancel (call : ℕ)
  deriving DecidableEq

/-- The steps of `push_sandbox_process_event` for a terminal event and of the
`set_sandbox_process_status` after it. -/
inductive Ending where
  | push
  | append (event : SandboxProcessEvent)
  | update
  | set
  deriving DecidableEq

/-- Where a task or a call stands. -/
inductive TaskStage where
  | idle
  /-- A reader waits for bytes. -/
  | reading
  | holding (data : Bytes)
  | appending (event : SandboxProcessEvent)
  | closing
  /-- The watcher waits for the process, then for its readers, then looks at the status. -/
  | waiting
  | draining (status : SandboxProcessStatus)
  | checking (status : SandboxProcessStatus)
  /-- A call that cancels. -/
  | takingStdin
  | droppingTasks
  | ending (step : Ending) (status : SandboxProcessStatus)
  | returned
  | aborted
  deriving DecidableEq

inductive JournalEntry where
  | sandboxProcessEvent (event : SandboxProcessEvent)
  | sandboxProcessStateUpdated (status : SandboxProcessStatus)

/-- The status that an entry of the journal records. -/
def JournalEntry.status? : JournalEntry → Option SandboxProcessStatus
  | .sandboxProcessEvent _ => none
  | .sandboxProcessStateUpdated status => some status

/-- The watcher's status for what the process returned. -/
def terminalStatus : Except String ℤ → SandboxProcessStatus
  | .ok exitCode => .exited exitCode
  | .error message => .failed message

/-- What a writer does once the status is set. -/
def Writer.afterEnding : Writer → TaskStage
  | .reader _ => .closing
  | _ => .returned

/-- The writer is one of the tasks that are dropped together. -/
def Writer.isTask : Writer → Bool
  | .cancel _ => false
  | _ => true

/-- What the poller sends to whoever waits for the process; nothing while it runs. -/
def SandboxProcessStatus.waitResult : SandboxProcessStatus → Option (Except String ℤ)
  | .running => none
  | .exited exitCode => some (.ok exitCode)
  | .failed message => some (.error message)
  | .cancelled => some (.error "sandbox process was cancelled")

/-- Where the poller stands: it asks for a page, has the events of one, taken when the list had
`length` of them, or has sent its result. -/
inductive PollStage where
  | asking
  | holding (page : List SandboxProcessEvent) (length : ℕ)
  | stopped (result : Except String ℤ)

def PollStage.isStopped : PollStage → Bool
  | .stopped _ => true
  | _ => false

/-- `spawn_http_sandbox_process_event_poller`, with the events that it has handled; what it has written
to a stream are their bytes. -/
structure EventPoller where
  cursor : Option ℕ
  received : List SandboxProcessEvent
  stage : PollStage

/-- `limit.unwrap_or(u32::MAX)`. -/
def pageLimit : ℕ := 2 ^ 32 - 1

/-- The loop over the events of a page; it stops at the first one that ends the process. -/
def EventPoller.handle (poller : EventPoller) : List SandboxProcessEvent → EventPoller
  | [] => poller
  | event :: events =>
    let handled : EventPoller :=
      { poller with cursor := some event.cursor, received := poller.received ++ [event] }
    match event.status.waitResult with
    | some result => { handled with stage := .stopped result }
    | none => handled.handle events

/-- A page with its status. -/
def EventPoller.answer (poller : EventPoller) (page : List SandboxProcessEvent)
    (status : SandboxProcessStatus) : EventPoller :=
  let handled := EventPoller.handle { poller with stage := .asking } page
  match handled.stage, status.waitResult with
  | .asking, some result => { handled with stage := .stopped result }
  | _, _ => handled

/-- A process with its tasks and clients.  `read` holds what was read from a stream, and `ended` says
that its end was seen. -/
structure RunningSandboxProcess where
  eventLog : Bool
  stdin : Bool
  events : List SandboxProcessEvent
  status : SandboxProcessStatus
  journal : List JournalEntry
  openOutputStreams : ℕ
  /-- `tasks` is `Some`: nobody has dropped them. -/
  tasks : Bool
  /-- How many calls have come that cancel. -/
  calls : ℕ
  stages : Writer → TaskStage
  read : OutputStream → Bytes
  ended : OutputStream → Bool
  pollers : List EventPoller

/-- The steps of the tasks, calls and clients, with the data that they work on. -/
inductive RunningLabel where
  | read (stream : OutputStream) (data : Bytes)
  | endOfFile (stream : OutputStream)
  | readError (stream : OutputStream) (message : String)
  | push (stream : OutputStream) (data : Bytes)
  | append (stream : OutputStream) (event : SandboxProcessEvent)
  | close (stream : OutputStream)
  | exit (terminal : Except String ℤ)
  | drain (status : SandboxProcessStatus)
  | check (status : SandboxProcessStatus)
  | cancel
  | takeStdin (call : ℕ)
  | dropTasks (call : ℕ)
  | advance (writer : Writer) (step : Ending) (status : SandboxProcessStatus)
  | abort (writer : Writer)
  | closeInput
  | startPoll
  | snapshot (index : ℕ)
  | look (index : ℕ)

namespace RunningSandboxProcess

variable (process : RunningSandboxProcess)

def setStage (writer : Writer) (stage : TaskStage) : RunningSandboxProcess :=
  { process with stages := Function.update process.stages writer stage }

/-- `push_sandbox_process_event_memory_only`: the cursor is the new length of the list. -/
def pushEvent (event : ℕ → SandboxProcessEvent) : RunningSandboxProcess :=
  { process with events := process.events ++ [event (process.events.length + 1)] }

/-- `append_sandbox_process_data`: a process without an event log has no journal. -/
def appendData (entry : JournalEntry) : RunningSandboxProcess :=
  { process with
    journal := if process.eventLog then process.journal ++ [entry] else process.journal }

/-- One step of a writer that ends the process with a status. -/
def advance (writer : Writer) (status : SandboxProcessStatus) : Ending → RunningSandboxProcess
  | .push =>
    let event := status.event (process.events.length + 1)
    (process.pushEvent status.event).setStage writer (.ending (.append event) status)
  | .append event =>
    (process.appendData (.sandboxProcessEvent event)).setStage writer (.ending .update status)
  | .update =>
    (process.appendData (.sandboxProcessStateUpdated status)).setStage writer (.ending .set status)
  | .set => { process.setStage writer writer.afterEnding with status := status }

/-- `mark_sandbox_process_output_closed`. -/
def markOutputClosed : RunningSandboxProcess :=
  { process with openOutputStreams := process.openOutputStreams - 1 }

/-- The events of a page, in the critical section of the list. -/
def pageEvents (after : Option ℕ) : List SandboxProcessEvent :=
  (process.events.filter fun event ↦ after.getD 0 < event.cursor).take pageLimit

/-- The first half of `get_sandbox_process_events`. -/
def snapshot (poller : EventPoller) : EventPoller :=
  match poller.stage with
  | .asking =>
    { poller with stage := .holding (process.pageEvents poller.cursor) process.events.length }
  | _ => poller

/-- The second half, which reads the status, and what the poller makes of the page. -/
def look (poller : EventPoller) : EventPoller :=
  match poller.stage with
  | .holding page _ => poller.answer page process.status
  | _ => poller

/-- The tasks, and the calls that have come. -/
def writers : List Writer :=
  [.reader .stdout, .reader .stderr, .watcher] ++ (List.range process.calls).map .cancel

/-- The status changes recorded in the journal. -/
def stateUpdates : List SandboxProcessStatus :=
  process.journal.filterMap (·.status?)

end RunningSandboxProcess

/-- The tasks, calls and clients of one process. -/
def runningProcess : System RunningSandboxProcess RunningLabel where
  enabled process
    | .read stream data =>
      process.stages (.reader stream) = .reading ∧ data ≠ [] ∧ data.length ≤ bufferSize
    | .endOfFile stream => process.stages (.reader stream) = .reading
    | .readError stream _ => process.stages (.reader stream) = .reading
    | .push stream data => process.stages (.reader stream) = .holding data
    | .append stream event => process.stages (.reader stream) = .appending event
    | .close stream => process.stages (.reader stream) = .closing
    | .exit _ => process.stages .watcher = .waiting
    | .drain status =>
      process.stages .watcher = .draining status ∧ process.openOutputStreams = 0
    | .check status => process.stages .watcher = .checking status
    | .cancel => True
    | .takeStdin call => process.stages (.cancel call) = .takingStdin
    | .dropTasks call => process.stages (.cancel call) = .droppingTasks
    | .advance writer step status => process.stages writer = .ending step status
    | .abort writer =>
      writer.isTask = true ∧ process.tasks = false ∧ process.stages writer ≠ .returned
    | .closeInput => True
    | .startPoll => True
    | .snapshot index => index < process.pollers.length
    | .look index => index < process.pollers.length
  next process
    | .read stream data =>
      { process.setStage (.reader stream) (.holding data) with
        read := Function.update process.read stream (process.read stream ++ data) }
    | .endOfFile stream =>
      { process.setStage (.reader stream) .closing with
        ended := Function.update process.ended stream true }
    | .readError stream message =>
      process.setStage (.reader stream) (.ending .push (.failed message))
    | .push stream data =>
      (process.pushEvent (.output stream · data)).setStage (.reader stream)
        (.appending (.output stream (process.events.length + 1) data))
    | .append stream event =>
      (process.appendData (.sandboxProcessEvent event)).setStage (.reader stream) .reading
    | .close stream => process.markOutputClosed.setStage (.reader stream) .returned
    | .exit terminal => process.setStage .watcher (.draining (terminalStatus terminal))
    | .drain status => process.setStage .watcher (.checking status)
    | .check status =>
      process.setStage .watcher
        (if process.status.isRunning then .ending .push status else .returned)
    | .cancel =>
      { process.setStage (.cancel process.calls) .takingStdin with calls := process.calls + 1 }
    | .takeStdin call => { process.setStage (.cancel call) .droppingTasks with stdin := false }
    | .dropTasks call =>
      { process.setStage (.cancel call) (.ending .push .cancelled) with tasks := false }
    | .advance writer step status => process.advance writer status step
    | .abort writer => process.setStage writer .aborted
    | .closeInput => { process with stdin := false }
    | .startPoll => { process with pollers := process.pollers ++ [⟨none, [], .asking⟩] }
    | .snapshot index => { process with pollers := process.pollers.modify index process.snapshot }
    | .look index => { process with pollers := process.pollers.modify index process.look }

instance (process : RunningSandboxProcess) (label : RunningLabel) :
    Decidable (runningProcess.enabled process label) :=
  match label with
  | .read _ _ | .abort _ => inferInstanceAs (Decidable (_ ∧ _ ∧ _))
  | .endOfFile _ | .readError _ _ | .push _ _ | .append _ _ | .close _ | .exit _ | .check _
  | .takeStdin _ | .dropTasks _ | .advance _ _ _ => inferInstanceAs (Decidable (_ = _))
  | .drain _ => inferInstanceAs (Decidable (_ ∧ _))
  | .cancel | .closeInput | .startPoll => isTrue trivial
  | .snapshot _ | .look _ => inferInstanceAs (Decidable (_ < _))

/-- The tasks as they are spawned. -/
def startStage : Writer → TaskStage
  | .reader _ => .reading
  | .watcher => .waiting
  | .cancel _ => .idle

/-- `spawn_pending_sandbox_process`. -/
def RunningSandboxProcess.start (eventLog stdin : Bool) : RunningSandboxProcess :=
  ⟨eventLog, stdin, [], .running, [], 2, true, 0, startStage, fun _ ↦ [], fun _ ↦ false, []⟩

end Exo.Sandbox
