import Mathlib.Logic.Function.Basic
import Exo.Library.Settling
import Exo.Sandbox.ProcessEvents

/-!
# The process bridge

`process_parts` runs a process behind a provider's request client. A poller asks for events and
writes them to the pipes of the two output streams; a forwarder sends what comes from the stdin
pipe. The poller reports the exit code over a oneshot channel, and both tasks report their errors
over another channel. Whoever waits takes what comes first from either of them, and drops the tasks
then.

The readers keep draining, so a write to a pipe ends, and the transport of every request succeeds:
what fails comes from the guest, which answers like the script, or from the client that looks at the
answer.
-/

namespace Exo.Sandbox

open Library

/-- `base64::engine::general_purpose::STANDARD`. -/
structure Base64 where
  encode : Bytes → String
  decode : String → Except String Bytes

/-- The names under which `write_bridge_output` reports the streams. -/
def OutputStream.label : OutputStream → String
  | .stdout => "stdout"
  | .stderr => "stderr"

namespace ProcessBridge

/-- `RECV_TIMEOUT`, in seconds. -/
def recvTimeout : ℕ := 30

/-- The buffer of `forward_stdin`. -/
def stdinBufferSize : ℕ := 16 * 1024

/-- The requests that the two tasks send. -/
inductive Request where
  | recv (timeoutSeconds : ℕ)
  | write (data : String)
  | closeStdin

inductive Event where
  | stdout (data : String)
  | stderr (data : String)
  | exit (exitCode : ℤ)
  deriving DecidableEq

structure Response where
  ok : Bool
  timeout : Bool := false
  events : List Event := []
  error : Option String := none

def Event.isExit : Event → Bool
  | .exit _ => true
  | _ => false

/-- The stream and the encoded data of an output event. -/
def Event.data? : Event → Option (OutputStream × String)
  | .stdout data => some (.stdout, data)
  | .stderr data => some (.stderr, data)
  | .exit _ => none

/-- The providers whose processes are behind the bridge. -/
inductive Provider where
  | vercel
  | awsAgentCore
  | firecracker

/-- What `Client::request` makes of an answer that arrived. -/
def Provider.request (provider : Provider) (answer : Response) : Except String Response :=
  match provider with
  | .vercel =>
    if answer.ok then .ok answer
    else .error ("process bridge request failed: " ++
      answer.error.getD "unknown process bridge error")
  | .awsAgentCore => .ok answer
  | .firecracker => .ok answer

/-- The client looks at `ok`. -/
def Provider.checksOk : Provider → Bool
  | .vercel => true
  | _ => false

variable {provider : Provider} {answer : Response}

theorem Provider.request_of_ok (hok : answer.ok = true) : provider.request answer = .ok answer := by
  cases provider with
  | vercel => exact if_pos hok
  | awsAgentCore => rfl
  | firecracker => rfl

theorem Provider.request_of_not_checksOk (hchecks : provider.checksOk = false) (answer : Response) :
    provider.request answer = .ok answer := by
  cases provider with
  | vercel => cases hchecks
  | awsAgentCore => rfl
  | firecracker => rfl

theorem Provider.request_of_refused (hchecks : provider.checksOk = true) (hok : answer.ok = false) :
    ∃ error, provider.request answer = .error error := by
  cases provider with
  | vercel => exact ⟨_, if_neg (by simp [hok])⟩
  | awsAgentCore => cases hchecks
  | firecracker => cases hchecks

/-- Where `poll_output` stands. -/
inductive Poller where
  | idle
  | receiving
  /-- The loop over the events of an answer. -/
  | handling (events : List Event)
  /-- `write_all` has data left. -/
  | writing (stream : OutputStream) (data : Bytes) (events : List Event)
  /-- It returned an error, which its task has not sent yet. -/
  | failed (error : String)
  | stopped
  deriving DecidableEq

/-- Where `forward_stdin` stands. -/
inductive Forwarder where
  | reading
  | writing
  | closing
  | failed (error : String)
  | stopped
  deriving DecidableEq

/-- The oneshot channel from the poller to the waiter. -/
inductive ExitChannel where
  | pending
  | sent (exitCode : ℤ)
  | dropped
  deriving DecidableEq

/-- `wait_tx` goes with the task that holds it. -/
def ExitChannel.drop : ExitChannel → ExitChannel
  | .pending => .dropped
  | channel => channel

/-- The bridge: the pipes, the tasks, the two channels and what `wait` resolved to.  `written` holds
what the readers of the output pipes get. -/
structure Bridge where
  stdin : Bytes := []
  stdinDropped : Bool := false
  written : OutputStream → Bytes := fun _ ↦ []
  requests : List Request := []
  poller : Poller := .idle
  forwarder : Forwarder := .reading
  exit : ExitChannel := .pending
  errors : List String := []
  errorsOpen : Bool := true
  result : Option (Except String ℤ) := none

inductive Label where
  /-- The owner of the stdin pipe. -/
  | writeStdin (data : Bytes)
  | dropStdin
  /-- The guest. -/
  | answerRecv (answer : Response)
  | answerStdin (answer : Response)
  /-- The poller, which writes `length` bytes at once. -/
  | poll
  | write (length : ℕ)
  | reportPoller
  /-- The forwarder, which reads `length` bytes at once. -/
  | read (length : ℕ)
  | reportForwarder
  /-- The branches of `select!`. -/
  | waitExit
  | waitError
  /-- What dropping the tasks does. -/
  | abortPoller
  | abortForwarder

/-- The steps that wait for neither the guest nor the owner of the stdin pipe. -/
def Label.isOwn : Label → Bool
  | .writeStdin _ | .dropStdin | .answerRecv _ | .answerStdin _ => false
  | _ => true

namespace Bridge

variable (base64 : Base64) (provider : Provider)

section
variable (bridge : Bridge)

/-- `poll_output` returns an error, and `wait_tx` is dropped. -/
def failPoller (error : String) : Bridge :=
  { bridge with poller := .failed error, exit := bridge.exit.drop }

/-- The start of `write_bridge_output`. -/
def startWrite (stream : OutputStream) (data : String) (events : List Event) : Bridge :=
  match base64.decode data with
  | .ok decoded => { bridge with poller := .writing stream decoded events }
  | .error error => bridge.failPoller ("decoding process bridge " ++ stream.label ++ ": " ++ error)

def handle (event : Event) (events : List Event) : Bridge :=
  match event with
  | .stdout data => bridge.startWrite base64 .stdout data events
  | .stderr data => bridge.startWrite base64 .stderr data events
  | .exit exitCode => { bridge with poller := .stopped, exit := .sent exitCode }

/-- The poller until it waits again. -/
def poll : Option Bridge :=
  match bridge.poller with
  | .idle => some { bridge with
      poller := .receiving, requests := bridge.requests ++ [.recv recvTimeout] }
  | .handling [] => some { bridge with poller := .idle }
  | .handling (event :: events) => some (bridge.handle base64 event events)
  | .writing _ [] events => some { bridge with poller := .handling events }
  | _ => none

def write (length : ℕ) : Option Bridge :=
  match bridge.poller with
  | .writing stream data events =>
    if 0 < length ∧ length ≤ data.length then
      some { bridge with
        poller := .writing stream (data.drop length) events
        written := Function.update bridge.written stream
          (bridge.written stream ++ data.take length) }
    else none
  | _ => none

/-- The answer to `Request::recv`. -/
def answerRecv (answer : Response) : Option Bridge :=
  match bridge.poller with
  | .receiving =>
    match provider.request answer with
    | .error error => some (bridge.failPoller error)
    | .ok response =>
      if response.timeout then some { bridge with poller := .idle }
      else some { bridge with poller := .handling response.events }
  | _ => none

def reportPoller : Option Bridge :=
  match bridge.poller with
  | .failed error => some { bridge with poller := .stopped, errors := bridge.errors ++ [error] }
  | _ => none

/-- The stdin pipe gives bytes, or none after its end. -/
def read (length : ℕ) : Option Bridge :=
  match bridge.forwarder, bridge.stdin with
  | .reading, [] =>
    if bridge.stdinDropped ∧ length = 0 then
      some { bridge with
        forwarder := .closing, requests := bridge.requests ++ [.closeStdin] }
    else none
  | .reading, _ :: _ =>
    if 0 < length ∧ length ≤ stdinBufferSize ∧ length ≤ bridge.stdin.length then
      some { bridge with
        forwarder := .writing
        stdin := bridge.stdin.drop length
        requests := bridge.requests ++ [.write (base64.encode (bridge.stdin.take length))] }
    else none
  | _, _ => none

/-- The answers to `Request::write` and `Request::close_stdin`; nothing of a response is used. -/
def answerStdin (answer : Response) : Option Bridge :=
  match bridge.forwarder with
  | .writing =>
    match provider.request answer with
    | .ok _ => some { bridge with forwarder := .reading }
    | .error error =>
      some { bridge with forwarder := .failed ("writing process bridge stdin: " ++ error) }
  | .closing =>
    match provider.request answer with
    | .ok _ => some { bridge with forwarder := .stopped }
    | .error error => some { bridge with forwarder := .failed error }
  | _ => none

def reportForwarder : Option Bridge :=
  match bridge.forwarder with
  | .failed error => some { bridge with forwarder := .stopped, errors := bridge.errors ++ [error] }
  | _ => none

/-- The branch of `select!` for the exit channel. -/
def waitExit : Option Bridge :=
  match bridge.result, bridge.exit with
  | none, .sent exitCode => some { bridge with result := some (.ok exitCode) }
  | none, .dropped =>
    some { bridge with result := some (.error "process bridge output poller stopped") }
  | _, _ => none

/-- The branch of `select!` for the error channel, which is closed when both tasks are gone. -/
def waitError : Option Bridge :=
  match bridge.result, bridge.errorsOpen, bridge.errors with
  | none, true, error :: errors =>
    some { bridge with result := some (.error error), errors := errors }
  | none, true, [] =>
    if bridge.poller = .stopped ∧ bridge.forwarder = .stopped then
      some { bridge with errorsOpen := false }
    else none
  | _, _, _ => none

/-- `AbortOnDropHandle`. -/
def abortPoller : Option Bridge :=
  if bridge.result.isSome ∧ bridge.poller ≠ .stopped then
    some { bridge with poller := .stopped, exit := bridge.exit.drop }
  else none

def abortForwarder : Option Bridge :=
  if bridge.result.isSome ∧ bridge.forwarder ≠ .stopped then
    some { bridge with forwarder := .stopped }
  else none

end

end Bridge

/-- An event's data is what the script encoded. -/
def Event.decodes (base64 : Base64) (event : Event) : Bool :=
  event.data?.all fun (_, data) ↦ (base64.decode data).isOk

/-- The guest answers `recv` like the script: with nothing, with events of which only the last may
be the exit, or with an error. -/
def Response.likeScript (base64 : Base64) (answer : Response) : Bool :=
  answer.events.all (·.decodes base64) && answer.events.dropLast.all (!·.isExit) &&
    (answer.events.isEmpty || answer.ok && !answer.timeout)

section Runs
variable (base64 : Base64) (provider : Provider)

def Bridge.step (bridge : Bridge) : Label → Option Bridge
  | .writeStdin data =>
    if bridge.stdinDropped then none else some { bridge with stdin := bridge.stdin ++ data }
  | .dropStdin =>
    if bridge.stdinDropped then none else some { bridge with stdinDropped := true }
  | .answerRecv answer =>
    if answer.likeScript base64 then bridge.answerRecv provider answer else none
  | .answerStdin answer => bridge.answerStdin provider answer
  | .poll => bridge.poll base64
  | .write length => bridge.write length
  | .reportPoller => bridge.reportPoller
  | .read length => bridge.read base64 length
  | .reportForwarder => bridge.reportForwarder
  | .waitExit => bridge.waitExit
  | .waitError => bridge.waitError
  | .abortPoller => bridge.abortPoller
  | .abortForwarder => bridge.abortForwarder

/-- All orders of the tasks, of the waiter, of the guest and of the owner of the stdin pipe. -/
def system : System Bridge Label where
  enabled bridge label := (bridge.step base64 provider label).isSome
  next bridge label := (bridge.step base64 provider label).getD bridge

instance (bridge : Bridge) (label : Label) :
    Decidable ((system base64 provider).enabled bridge label) :=
  inferInstanceAs (Decidable (_ = true))

end Runs

section
variable (labels : List Label)

/-- The answers to `recv`. -/
def recvAnswers : List Response :=
  labels.filterMap fun
    | .answerRecv answer => some answer
    | _ => none

def stdinAnswers : List Response :=
  labels.filterMap fun
    | .answerStdin answer => some answer
    | _ => none

/-- The events that the guest reported. -/
def reported : List Event :=
  (recvAnswers labels).flatMap (·.events)

/-- A `recv` was refused. -/
def RecvRefused : Prop := ∃ answer ∈ recvAnswers labels, answer.ok = false

/-- A `write` or a `close_stdin` was refused. -/
def StdinRefused : Prop := ∃ answer ∈ stdinAnswers labels, answer.ok = false

end

section
variable (base64 : Base64) (stream : OutputStream)

/-- What an event holds for a stream. -/
def Event.bytes (event : Event) : Bytes :=
  match event.data? with
  | some (target, data) =>
    if target = stream then (base64.decode data).toOption.getD [] else []
  | none => []

/-- The decoded events of a stream, in order. -/
def bytesOf (events : List Event) : Bytes :=
  events.flatMap (·.bytes base64 stream)

end

end ProcessBridge

end Exo.Sandbox
