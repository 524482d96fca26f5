import Mathlib.Logic.Function.Basic
import Exo.Library.Lines
import Exo.Library.System

/-!
# The client of the Codex app server

One loop reads messages from the stdout of the server, line by line, and answers the requests among
them; calls of `request` register, write and wait; a consumer takes the events.  The exit of the
process is told apart from all of these, and it ends the client whether or not stdout was read to
its end.  A step runs from one `await` to the next.

JSON is a parameter: a line parses to a message, to an incomplete one or to nothing, and `Number` is
what JavaScript makes of an identifier.
-/

namespace Exo.Codex

open Library

abbrev Text := List Char

/-- The fields of a message that the client looks at; `method` is there if it is a string. -/
structure Message (Value : Type) where
  id : Option Value := none
  method : Option String := none
  params : Option Value := none
  result : Option Value := none
  error : Option Value := none

inductive Parsed (Value : Type) where
  | message (message : Message Value)
  | incomplete
  | invalid

/-- What the code uses of JSON and of `Number`, which gives no natural number for most values. -/
structure Json (Value : Type) where
  parse : Text → Parsed Value
  toNumber : Value → Option ℕ
  ofNumber : ℕ → Value
  null : Value

/-- A notification, or a request of the server as the consumer sees it. -/
structure Notification (Value : Type) where
  method : String
  params : Value

namespace Message

variable {Value : Type}

def isResponse (message : Message Value) : Bool :=
  message.id.isSome && (message.result.isSome || message.error.isSome)

def isServerRequest (message : Message Value) : Bool :=
  !message.isResponse && message.id.isSome && message.method.isSome

/-- What a message that is not a response gives to the consumer. -/
def notification (json : Json Value) (message : Message Value) : Option (Notification Value) :=
  if message.isResponse then none
  else message.method.map fun method ↦ ⟨method, message.params.getD json.null⟩

/-- The response is an error. -/
def fails [DecidableEq Value] (json : Json Value) (message : Message Value) : Bool :=
  match message.error with
  | some error => error != json.null
  | none => false

end Message

/-- The first line, without its newline, and what follows it. -/
def firstLine (text : Text) : Option (Text × Text) :=
  match text.dropWhile (· != '\n') with
  | [] => none
  | _ :: rest => some (text.takeWhile (· != '\n'), rest)

/-- A carriage return at the end is dropped. -/
def dropReturn (line : Text) : Text :=
  if line.getLast? = some '\r' then line.dropLast else line

/-- What `trim` takes off: white space and line terminators. -/
def isTrimmed (c : Char) : Bool :=
  (9 ≤ c.toNat && c.toNat ≤ 13) || (0x2000 ≤ c.toNat && c.toNat ≤ 0x200A) ||
    c.toNat ∈ [0x20, 0xA0, 0x1680, 0x2028, 0x2029, 0x202F, 0x205F, 0x3000, 0xFEFF]

/-- `trim` leaves nothing. -/
def blank (text : Text) : Bool := text.all isTrimmed

inductive Consumer where
  | ready
  | waiting
  | ended
  | threw
  deriving DecidableEq

/-- `AsyncQueue` with its one consumer and what was yielded to it. -/
structure Events (Value : Type) where
  values : List (Notification Value) := []
  ended : Bool := false
  failed : Bool := false
  consumer : Consumer := .ready
  yielded : List (Notification Value) := []

namespace Events

variable {Value : Type}

section
variable (events : Events Value)

def push (value : Notification Value) : Events Value :=
  match events.consumer with
  | .waiting => { events with consumer := .ready, yielded := events.yielded ++ [value] }
  | _ => { events with values := events.values ++ [value] }

def finish : Events Value :=
  { events with
    ended := true
    consumer := if events.consumer = .waiting then .ended else events.consumer }

def fail : Events Value :=
  { events with
    failed := true
    consumer := if events.consumer = .waiting then .threw else events.consumer }

def next : Events Value :=
  if events.failed then { events with consumer := .threw }
  else
    match events.values with
    | value :: values => { events with values, yielded := events.yielded ++ [value] }
    | [] =>
      if events.ended then { events with consumer := .ended }
      else { events with consumer := .waiting }

end

end Events

/-- The promise of a response. -/
inductive Promise (Value : Type) where
  | unsettled
  | fulfilled (response : Message Value)
  | rejected

inductive Writing where
  | writing
  | written
  | failed

/-- A call of `request`: it waits for the write, and then for the promise, which has no handler
before.  `late` says that it was made after the end. -/
structure Call (Value : Type) where
  method : String
  params : Value
  late : Bool
  registered : Bool := true
  writing : Writing := .writing
  promise : Promise Value := .unsettled

namespace Call

variable {Value : Type}

def message (json : Json Value) (id : ℕ) (call : Call Value) : Message Value :=
  { id := some (json.ofNumber id), method := some call.method, params := some call.params }

/-- The end rejects what is registered. -/
def reject (call : Call Value) : Call Value :=
  if call.registered then { call with registered := false, promise := .rejected } else call

def respond [DecidableEq Value] (json : Json Value) (response : Message Value)
    (call : Call Value) : Call Value :=
  if call.registered then
    { call with
      registered := false
      promise := if response.fails json then .rejected else .fulfilled response }
  else call

end Call

/-- Where `readLoop` is; it may be over with a message that it did not handle. -/
inductive ReadLoop (Value : Type) where
  | reading
  | recording (message : Message Value)
  | answering (message : Message Value)
  | replying (message : Message Value)
  | stopped (lost : Option (Message Value))

/-- `rest` is what the server wrote and the client did not read yet; `handled` has the messages in
order, with those dropped as an echo marked; `replies` the requests of the server that were
answered. -/
structure AppServer (Value : Type) where
  rest : Text
  buffered : Text := []
  pendingLine : Text := []
  loop : ReadLoop Value := .reading
  events : Events Value := {}
  calls : ℕ → Option (Call Value) := fun _ ↦ none
  nextId : ℕ := 1
  closing : Bool := false
  finished : Bool := false
  handled : List (Message Value × Bool) := []
  replies : List (Message Value) := []

/-- A step of `readLoop`, which reads up to `count + 1` characters or gets on with a message; a call
of `request`, and the return of its write; `next` of the consumer; `close`; the exit of the process,
or an error of it. -/
inductive AppServerLabel (Value : Type) where
  | read (count : ℕ)
  | record (succeeds : Bool)
  | handle (succeeds : Bool)
  | reply (succeeds : Bool)
  | request (method : String) (params : Value)
  | write (id : ℕ) (succeeds : Bool)
  | next
  | close
  | exit (clean : Bool)
  | error

namespace AppServer

variable {Value : Type} [DecidableEq Value] (json : Json Value)

section
variable (state : AppServer Value)

def settle : AppServer Value :=
  { state with finished := true, calls := fun id ↦ (state.calls id).map Call.reject }

def finish : AppServer Value :=
  if state.finished then state
  else { state.settle with events := state.events.finish }

def fail : AppServer Value :=
  if state.finished then state
  else { state.settle with events := state.events.fail }

/-- The loop has caught an error. -/
def failLoop : AppServer Value :=
  { state.fail with
    loop := .stopped (match state.loop with
      | .recording message => some message
      | _ => none) }

def updateCall (id : ℕ) (update : Call Value → Call Value) : AppServer Value :=
  { state with calls := Function.update state.calls id ((state.calls id).map update) }

section
variable (message : Message Value)

/-- The registered request of an identifier. -/
def pending : Option (ℕ × Call Value) :=
  (message.id.bind json.toNumber).bind fun id ↦
    (state.calls id).bind fun call ↦ if call.registered then some (id, call) else none

def isEchoedClientRequest : Bool :=
  message.method.isSome &&
    (state.pending json message).any fun found ↦ message.method == some found.2.method

/-- `handleProtocolMessage` up to its first `await`. -/
def receive : AppServer Value :=
  if state.isEchoedClientRequest json message then
    { state with loop := .reading, handled := state.handled ++ [(message, true)] }
  else { state with loop := .recording message }

end

/-- A line, after the lines that were incomplete. -/
def takeLine (line : Text) : AppServer Value :=
  match json.parse (state.pendingLine ++ line) with
  | .message message => { state with pendingLine := [] }.receive json message
  | .incomplete => { state with pendingLine := state.pendingLine ++ line }
  | .invalid => state.failLoop

/-- The end of stdout, after its last line. -/
def endOfStream : AppServer Value :=
  if blank state.pendingLine then { state.finish with loop := .stopped none }
  else
    match json.parse state.pendingLine with
    | .message message => { state with pendingLine := [] }.receive json message
    | _ => state.failLoop

/-- `linesFromChunks` goes on: it has a line, or it gets a chunk, or stdout is at its end. -/
def read (count : ℕ) : AppServer Value :=
  match firstLine state.buffered with
  | some (line, buffered) =>
    if dropReturn line = [] then { state with buffered }
    else { state with buffered }.takeLine json (dropReturn line)
  | none =>
    if state.rest = [] then
      if blank state.buffered then state.endOfStream json
      else { state with buffered := [] }.takeLine json state.buffered
    else
      { state with
        buffered := state.buffered ++ state.rest.take (count + 1)
        rest := state.rest.drop (count + 1) }

/-- `handleProtocolMessage` after the message was recorded. -/
def dispatch (message : Message Value) : AppServer Value :=
  let state := { state with handled := state.handled ++ [(message, false)], loop := .reading }
  if message.isResponse then
    match state.pending json message with
    | some (id, _) => state.updateCall id (Call.respond json message)
    | none => state
  else
    match message.notification json with
    | none => state
    | some value =>
      { state with
        events := state.events.push value
        loop := if message.isServerRequest then .answering message else .reading }

def enabled : AppServerLabel Value → Prop
  | .read _ => state.loop = .reading
  | .record _ => ∃ message, state.loop = .recording message
  | .handle _ => ∃ message, state.loop = .answering message
  | .reply _ => ∃ message, state.loop = .replying message
  | .write id _ => ∃ call, state.calls id = some call ∧ call.writing = .writing
  | .next => state.events.consumer = .ready
  | .request _ _ | .close | .exit _ | .error => True

def next : AppServerLabel Value → AppServer Value
  | .read count => state.read json count
  | .record succeeds =>
    match state.loop with
    | .recording message => if succeeds then state.dispatch json message else state.failLoop
    | _ => state
  | .handle succeeds =>
    match state.loop with
    | .answering message =>
      if succeeds then { state with loop := .replying message } else state.failLoop
    | _ => state
  | .reply succeeds =>
    match state.loop with
    | .replying message =>
      if succeeds then { state with loop := .reading, replies := state.replies ++ [message] }
      else state.failLoop
    | _ => state
  | .request method params =>
    { state with
      nextId := state.nextId + 1
      calls := Function.update state.calls state.nextId
        (some { method, params, late := state.finished }) }
  | .write id succeeds =>
    state.updateCall id fun call ↦
      { call with writing := if succeeds then .written else .failed }
  | .next => { state with events := state.events.next }
  | .close => { state with closing := true }
  | .exit clean => if clean || state.closing then state.finish else state.fail
  | .error => state.fail

end

end AppServer

/-- The client of a server that writes some output. -/
def appServer {Value : Type} [DecidableEq Value] (json : Json Value) :
    System (AppServer Value) (AppServerLabel Value) where
  enabled := AppServer.enabled
  next := AppServer.next json

end Exo.Codex
