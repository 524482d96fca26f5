import Mathlib.Data.Int.Notation
import Mathlib.Data.List.Induction

/-!
# Sandbox process events

A running process is seen through a list of events with cursors from one on: chunks of its two output
streams and, at the end, one event that says how it ended.  A page holds the events after a cursor,
so with gapless cursors it is a suffix of the list.
-/

namespace Exo.Sandbox

open List

/-- The bytes of a chunk. -/
abbrev Bytes := List UInt8

/-- `vec![0; 8192]`, the buffer of a reader. -/
def bufferSize : ℕ := 8192

inductive SandboxProcessStatus where
  | running
  | exited (exitCode : ℤ)
  | failed (message : String)
  | cancelled
  deriving DecidableEq

def SandboxProcessStatus.isRunning : SandboxProcessStatus → Bool
  | .running => true
  | _ => false

inductive SandboxProcessEvent where
  | stdout (cursor : ℕ) (data : Bytes)
  | stderr (cursor : ℕ) (data : Bytes)
  | exit (cursor : ℕ) (exitCode : ℤ)
  | error (cursor : ℕ) (message : String)
  | cancelled (cursor : ℕ)
  deriving DecidableEq

/-- The two output streams of a process. -/
inductive OutputStream where
  | stdout
  | stderr
  deriving DecidableEq

namespace SandboxProcessEvent

def cursor : SandboxProcessEvent → ℕ
  | .stdout cursor _ => cursor
  | .stderr cursor _ => cursor
  | .exit cursor _ => cursor
  | .error cursor _ => cursor
  | .cancelled cursor => cursor

/-- The event ends the process. -/
def isTerminal : SandboxProcessEvent → Bool
  | .exit _ _ => true
  | .error _ _ => true
  | .cancelled _ => true
  | _ => false

/-- The status that a terminal event stands for. -/
def status : SandboxProcessEvent → SandboxProcessStatus
  | .exit _ exitCode => .exited exitCode
  | .error _ message => .failed message
  | .cancelled _ => .cancelled
  | _ => .running

section
variable (stream : OutputStream)

section
variable (cursor : ℕ)

/-- The chunk of a stream. -/
def output (data : Bytes) : SandboxProcessEvent :=
  match stream with
  | .stdout => .stdout cursor data
  | .stderr => .stderr cursor data

/-- The bytes of a stream that the event carries. -/
def bytes : SandboxProcessEvent → Bytes
  | .stdout _ data => if stream = .stdout then data else []
  | .stderr _ data => if stream = .stderr then data else []
  | _ => []

@[simp]
theorem cursor_output (data : Bytes) : (output stream cursor data).cursor = cursor := by
  cases stream <;> rfl

@[simp]
theorem isTerminal_output (data : Bytes) : (output stream cursor data).isTerminal = false := by
  cases stream <;> rfl

@[simp]
theorem bytes_output_self (data : Bytes) : (output stream cursor data).bytes stream = data := by
  cases stream <;> rfl

end

end

theorem bytes_output_of_ne {stream other : OutputStream} (hne : stream ≠ other) (cursor : ℕ)
    (data : Bytes) : (output stream cursor data).bytes other = [] := by
  cases stream <;> cases other <;> first | rfl | exact absurd rfl hne

theorem bytes_of_isTerminal {event : SandboxProcessEvent} (hterminal : event.isTerminal = true)
    (stream : OutputStream) : event.bytes stream = [] := by
  cases event <;> first | rfl | cases hterminal

end SandboxProcessEvent

/-- The event that a terminal status is recorded with. -/
def SandboxProcessStatus.event (cursor : ℕ) : SandboxProcessStatus → SandboxProcessEvent
  | .exited exitCode => .exit cursor exitCode
  | .failed message => .error cursor message
  | .cancelled => .cancelled cursor
  -- `unreachable!()` in the source
  | .running => .cancelled cursor

section
variable (status : SandboxProcessStatus) (cursor : ℕ)

@[simp]
theorem cursor_event : (status.event cursor).cursor = cursor := by
  cases status <;> rfl

@[simp]
theorem isTerminal_event : (status.event cursor).isTerminal = true := by
  cases status <;> rfl

end

theorem status_event {status : SandboxProcessStatus} (hstatus : status.isRunning = false)
    (cursor : ℕ) : (status.event cursor).status = status := by
  cases status <;> first | rfl | cases hstatus

/-- The bytes of a stream, from all its chunks. -/
def outputOf (stream : OutputStream) (events : List SandboxProcessEvent) : Bytes :=
  events.flatMap (·.bytes stream)

theorem outputOf_append (stream : OutputStream) (events more : List SandboxProcessEvent) :
    outputOf stream (events ++ more) = outputOf stream events ++ outputOf stream more := by
  simp [outputOf]

/-- The cursors are `1, 2, …, n` in the order of the list. -/
def Numbered (events : List SandboxProcessEvent) : Prop :=
  events.map (·.cursor) = List.range' 1 events.length

instance (events : List SandboxProcessEvent) : Decidable (Numbered events) :=
  inferInstanceAs (Decidable (_ = _))

theorem numbered_nil : Numbered [] := rfl

variable {events : List SandboxProcessEvent}

theorem Numbered.snoc (hevents : Numbered events) {event : SandboxProcessEvent}
    (hevent : event.cursor = events.length + 1) : Numbered (events ++ [event]) := by
  rw [Numbered, map_append, length_append, hevents]
  simp [range'_concat, hevent, Nat.add_comm]

theorem Numbered.of_append {more : List SandboxProcessEvent} (hevents : Numbered (events ++ more)) :
    Numbered events := by
  have htake := congrArg (take events.length) hevents
  rw [length_append, take_range'_of_length_ge (Nat.le_add_right _ _)] at htake
  simpa [Numbered] using htake

theorem Numbered.filter_eq_drop (hevents : Numbered events) (after : ℕ) :
    events.filter (fun event ↦ after < event.cursor) = events.drop after := by
  induction events using reverseRecOn with
  | nil => simp
  | append_singleton events event ih =>
    have hcursor : event.cursor = events.length + 1 := by
      have hlast := congrArg getLast? hevents
      simpa [range'_concat, Nat.add_comm] using hlast
    rw [filter_append, ih hevents.of_append, drop_append]
    by_cases hafter : after ≤ events.length
    · have hzero : after - events.length = 0 := by omega
      rw [hzero]
      simp [hcursor, Nat.lt_succ_of_le hafter]
    · have hpos : 1 ≤ after - events.length := by omega
      have hnil : [event].drop (after - events.length) = [] := drop_eq_nil_of_le hpos
      rw [hnil]
      simp [hcursor]
      omega

/-- The cursor of a page: the one of its last event. -/
theorem Numbered.getLast?_drop (hevents : Numbered events) {after : ℕ}
    (hafter : after ≤ events.length) :
    ((events.drop after).getLast?.map (·.cursor)).getD after = events.length := by
  have hcursors : (events.drop after).map (·.cursor) =
      range' (1 + after) (events.length - after) := by
    rw [map_drop, hevents, drop_range', Nat.mul_one]
  rw [← getLast?_map, hcursors, getLast?_range']
  split_ifs <;> simp <;> omega

end Exo.Sandbox
