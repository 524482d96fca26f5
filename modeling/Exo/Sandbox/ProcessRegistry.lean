import Exo.Library.Notify
import Exo.Library.System
import Exo.Sandbox.ProcessEvents

/-!
# The process registry

`ProcessRegistry::start` runs three tasks for a process: two readers that append the chunks of its
output streams, and a supervisor that waits for the first cause to end, drains the readers for a
while and then records the terminal event and the status in one critical section.  The readers may
fail, may be aborted, and may still append after they were aborted; clients poll, wait, write input
and cancel at any time.  A poll of a `select!` looks at its branches one after another and takes the
first that is ready; clients and readers go on between two of these looks.
-/

namespace Exo.Sandbox

open Library

/-- Where a reader stands: it waits for bytes, has a chunk in its buffer, sends its error to the
supervisor, or is done. -/
inductive ReaderStage where
  | reading
  | holding (data : Bytes)
  | sending (message : String)
  | returned (error : Option String)
  deriving DecidableEq

/-- A reader, with all the bytes it has read and whether it has seen the end of its stream. -/
structure Reader where
  stage : ReaderStage
  aborted : Bool
  read : Bytes
  ended : Bool

/-- Where the supervisor stands: before a poll of the first `select!`, after its look at the token, and
after that at the failures; the same for the second `select!`, with a status in hand. -/
inductive Supervisor where
  | selecting
  | selectingFailure
  | selectingExit
  | draining (status : SandboxProcessStatus)
  | drainingFailure (status : SandboxProcessStatus)
  | drainingReaders (status : SandboxProcessStatus)
  | closing (status : SandboxProcessStatus)
  | recording (status : SandboxProcessStatus)
  | notifying
  | finished
  deriving DecidableEq

/-- The supervisor has notified the waiters. -/
def Supervisor.isFinished : Supervisor → Bool
  | .finished => true
  | _ => false

/-- A client that polls with the cursor of its last event. -/
structure Poller where
  after : ℕ
  received : List SandboxProcessEvent

/-- A process of the registry.  `cancelledFirst` says that `cancel` was requested before the poll that
selected a cause looked at the token.  Of the clients that write input, `callers` have found `cancel`
unset, and `writers` then `exited` as well. -/
structure Process where
  events : List SandboxProcessEvent
  status : SandboxProcessStatus
  cancel : Bool
  cancelledFirst : Bool
  exited : Bool
  stdin : Bool
  stdinLocked : Bool
  callers : ℕ
  writers : ℕ
  failures : List String
  readers : OutputStream → Reader
  supervisor : Supervisor
  waiters : List (Waiter SandboxProcessStatus)
  pollers : List Poller

/-- The branches of the first `select!`. -/
inductive Cause where
  | cancelled
  | outputFailure
  | exited (exitCode : ℤ)
  | waitError (message : String)

/-- The branches of the second one; `skipped` when the process has failed already. -/
inductive Drained where
  | cancelled
  | outputFailure
  | joined
  | timeout
  | skipped

/-- The steps of the tasks and clients.  A label names the data that the step works on, which its
guard compares with the state. -/
inductive ProcessLabel where
  | read (stream : OutputStream) (data : Bytes)
  | endOfFile (stream : OutputStream)
  | readError (stream : OutputStream) (message : String)
  | sendFailure (stream : OutputStream) (message : String)
  | push (stream : OutputStream) (data : Bytes)
  | abort (stream : OutputStream)
  | cancel
  | pass
  | select (cause : Cause)
  | drain (status : SandboxProcessStatus) (drained : Drained)
  | takeStdin (status : SandboxProcessStatus)
  | record (status : SandboxProcessStatus)
  | notify
  | lookCancel
  | lookExited
  | lockStdin
  | unlockStdin
  | closeInput
  | wait
  | look (index : ℕ)
  | wake (index : ℕ)
  | startPoll
  | poll (index : ℕ)

structure GetSandboxProcessEventsResult where
  events : List SandboxProcessEvent
  cursor : Option ℕ
  status : SandboxProcessStatus

def ReaderStage.isReturned : ReaderStage → Bool
  | .returned _ => true
  | _ => false

/-- The task is at a point where an abort takes effect. -/
def ReaderStage.awaits : ReaderStage → Bool
  | .reading => true
  | .sending _ => true
  | _ => false

/-- The error with which a reader returned. -/
def ReaderStage.error : ReaderStage → Option String
  | .returned error => error
  | _ => none

def SandboxProcessStatus.isFailed : SandboxProcessStatus → Bool
  | .failed _ => true
  | _ => false

namespace Process

variable (process : Process)

def setReader (stream : OutputStream) (reader : Reader) : Process :=
  { process with readers := fun other ↦ if other = stream then reader else process.readers other }

/-- The critical section of a reader that has a chunk. -/
def push (stream : OutputStream) (data : Bytes) : Process :=
  if process.status.isRunning then
    { process.setReader stream { process.readers stream with stage := .reading } with
      events := process.events ++ [.output stream (process.events.length + 1) data] }
  else process.setReader stream { process.readers stream with stage := .returned none }

/-- The cause that the first `select!` takes, and what it makes of the failures. -/
def select : Cause → Process
  | .cancelled => { process with exited := true, supervisor := .draining .cancelled }
  | .outputFailure =>
    { process with
      exited := true, failures := process.failures.tail
      supervisor := .draining (.failed (process.failures.headD "")) }
  | .exited exitCode => { process with exited := true, supervisor := .draining (.exited exitCode) }
  | .waitError message =>
    { process with exited := true, supervisor := .draining (.failed message) }

/-- Both readers are aborted; they notice it when they next wait. -/
def abortReaders : Process :=
  { process with readers := fun stream ↦ { process.readers stream with aborted := true } }

section
variable (status : SandboxProcessStatus)

/-- The status after both readers were joined. -/
def joinedStatus : SandboxProcessStatus :=
  match (process.readers .stdout).stage.error <|> (process.readers .stderr).stage.error with
  | some message => if status = .cancelled then status else .failed message
  | none => status

/-- The branch that the second `select!` takes. -/
def drain : Drained → Process
  | .cancelled => { process.abortReaders with supervisor := .closing status }
  | .outputFailure =>
    { process.abortReaders with
      failures := process.failures.tail
      supervisor := .closing (.failed (process.failures.headD "")) }
  | .joined => { process with supervisor := .closing (process.joinedStatus status) }
  | .timeout => { process.abortReaders with supervisor := .closing status }
  | .skipped => { process.abortReaders with supervisor := .closing status }

/-- The critical section of the supervisor. -/
def record : Process :=
  { process with
    events := process.events ++ [status.event (process.events.length + 1)]
    status := status
    supervisor := .notifying }

/-- `events`. -/
def page (after : ℕ) : GetSandboxProcessEventsResult :=
  let events := process.events.filter fun event ↦ after < event.cursor
  ⟨events, events.getLast?.map (·.cursor), process.status⟩

/-- A poll; an empty page has no cursor and the client keeps its own. -/
def poll (poller : Poller) : Poller :=
  let page := process.page poller.after
  ⟨page.cursor.getD poller.after, poller.received ++ page.events⟩

/-- What `wait` returns, once there is something to return. -/
def outcome : Option SandboxProcessStatus :=
  if process.status.isRunning then none else some process.status

/-- The branch that the supervisor looks at is ready. -/
def Selects (cause : Cause) : Prop :=
  match cause with
  | .cancelled => process.supervisor = .selecting ∧ process.cancel = true
  | .outputFailure => process.supervisor = .selectingFailure ∧ process.failures ≠ []
  | _ => process.supervisor = .selectingExit

instance (cause : Cause) : Decidable (process.Selects cause) :=
  match cause with
  | .cancelled | .outputFailure => inferInstanceAs (Decidable (_ ∧ _))
  | .exited _ | .waitError _ => inferInstanceAs (Decidable (_ = _))

/-- Both readers are done. -/
def joins : Bool :=
  (process.readers .stdout).stage.isReturned && (process.readers .stderr).stage.isReturned

/-- The branch of the second one, for the status that the first one gave.  The timeout has found the
readers at work before it looks at the clock. -/
def Drains (drained : Drained) : Prop :=
  match drained with
  | .skipped => process.supervisor = .draining status ∧ status.isFailed = true
  | .cancelled =>
    process.supervisor = .draining status ∧ status.isFailed = false ∧ process.cancel = true
  | .outputFailure => process.supervisor = .drainingFailure status ∧ process.failures ≠ []
  | .joined => process.supervisor = .drainingReaders status ∧ process.joins = true
  | .timeout => process.supervisor = .drainingReaders status

end

instance (status : SandboxProcessStatus) (drained : Drained) :
    Decidable (process.Drains status drained) :=
  match drained with
  | .cancelled | .outputFailure | .joined | .skipped => inferInstanceAs (Decidable (_ ∧ _))
  | .timeout => inferInstanceAs (Decidable (_ = _))

/-- The branch that the supervisor looks at is not ready. -/
def Passes : Prop :=
  match process.supervisor with
  | .selecting => process.cancel = false
  | .draining status => status.isFailed = false ∧ process.cancel = false
  | .selectingFailure | .drainingFailure _ => process.failures = []
  | .selectingExit | .drainingReaders _ => True
  | _ => False

instance : Decidable process.Passes := by
  unfold Passes
  split <;> infer_instance

/-- The look at the next branch, or the end of the poll. -/
def pass : Process :=
  match process.supervisor with
  | .selecting => { process with supervisor := .selectingFailure }
  | .selectingFailure => { process with supervisor := .selectingExit }
  | .selectingExit =>
    { process with supervisor := .selecting, cancelledFirst := process.cancel }
  | .draining status => { process with supervisor := .drainingFailure status }
  | .drainingFailure status => { process with supervisor := .drainingReaders status }
  | .drainingReaders status => { process with supervisor := .draining status }
  | _ => process

end Process

/-- The tasks and clients of one process. -/
def registry : System Process ProcessLabel where
  enabled process
    | .read stream data =>
      (process.readers stream).stage = .reading ∧ data ≠ [] ∧ data.length ≤ bufferSize
    | .endOfFile stream => (process.readers stream).stage = .reading
    | .readError stream _ => (process.readers stream).stage = .reading
    | .sendFailure stream message => (process.readers stream).stage = .sending message
    | .push stream data => (process.readers stream).stage = .holding data
    | .abort stream =>
      (process.readers stream).aborted = true ∧ (process.readers stream).stage.awaits = true
    | .cancel => True
    | .pass => process.Passes
    | .select cause => process.Selects cause
    | .drain status drained => process.Drains status drained
    | .takeStdin status => process.supervisor = .closing status ∧ process.stdinLocked = false
    | .record status => process.supervisor = .recording status
    | .notify => process.supervisor = .notifying
    | .lookCancel => process.cancel = false
    | .lookExited => 0 < process.callers ∧ process.exited = false
    | .lockStdin => 0 < process.writers ∧ process.stdinLocked = false
    | .unlockStdin => process.stdinLocked = true
    | .closeInput => process.stdinLocked = false
    | .wait => True
    | .look index => index < process.waiters.length
    | .wake index => index < process.waiters.length
    | .startPoll => True
    | .poll index => index < process.pollers.length
  next process
    | .read stream data =>
      let reader := process.readers stream
      process.setReader stream { reader with stage := .holding data, read := reader.read ++ data }
    | .endOfFile stream =>
      process.setReader stream
        { process.readers stream with stage := .returned none, ended := true }
    | .readError stream message =>
      process.setReader stream { process.readers stream with stage := .sending message }
    | .sendFailure stream message =>
      { process.setReader stream
          { process.readers stream with stage := .returned (some message) } with
        failures := process.failures ++ [message] }
    | .push stream data => process.push stream data
    | .abort stream =>
      process.setReader stream { process.readers stream with stage := .returned none }
    | .cancel =>
      { process with
        cancel := true
        cancelledFirst := process.cancelledFirst || process.supervisor = .selecting }
    | .pass => process.pass
    | .select cause => process.select cause
    | .drain status drained => process.drain status drained
    | .takeStdin status => { process with stdin := false, supervisor := .recording status }
    | .record status => process.record status
    | .notify =>
      { process with
        supervisor := .finished, waiters := process.waiters.map Waiter.notify }
    | .lookCancel => { process with callers := process.callers + 1 }
    | .lookExited =>
      { process with callers := process.callers - 1, writers := process.writers + 1 }
    | .lockStdin => { process with stdinLocked := true, writers := process.writers - 1 }
    | .unlockStdin => { process with stdinLocked := false }
    | .closeInput => { process with stdin := false }
    | .wait => { process with waiters := process.waiters ++ [.armed false] }
    | .look index =>
      { process with waiters := process.waiters.modify index (·.look process.outcome) }
    | .wake index => { process with waiters := process.waiters.modify index Waiter.wake }
    | .startPoll => { process with pollers := process.pollers ++ [⟨0, []⟩] }
    | .poll index => { process with pollers := process.pollers.modify index process.poll }

instance (process : Process) (label : ProcessLabel) : Decidable (registry.enabled process label) :=
  match label with
  | .read _ _ | .abort _ | .takeStdin _ | .lookExited | .lockStdin =>
    inferInstanceAs (Decidable (_ ∧ _))
  | .endOfFile _ | .readError _ _ | .sendFailure _ _ | .push _ _ | .record _ | .notify
  | .lookCancel | .unlockStdin | .closeInput => inferInstanceAs (Decidable (_ = _))
  | .pass => inferInstanceAs (Decidable process.Passes)
  | .select cause => inferInstanceAs (Decidable (process.Selects cause))
  | .drain status drained => inferInstanceAs (Decidable (process.Drains status drained))
  | .cancel | .wait | .startPoll => isTrue trivial
  | .look _ | .wake _ | .poll _ => inferInstanceAs (Decidable (_ < _))

/-- A process that was just started. -/
def Process.start (stdin : Bool) : Process :=
  ⟨[], .running, false, false, false, stdin, false, 0, 0, [],
    fun _ ↦ ⟨.reading, false, [], false⟩, .selecting, [], []⟩

end Exo.Sandbox
