import Mathlib.Algebra.Ring.Nat
import Exo.Library.System

/-!
# The event queue of a process in the guest

The threads that read a process push its events, and `recv` takes them out in batches.  A batch
ends at a limit or at an exit.  An error behind other events of a batch is returned instead of
them, and where the limit of the queue is hit it is emptied for an error that the byte counter
leaves out.  In every other run the batches and the queue together are what was pushed.
-/

namespace Exo.Guest

open Library List

def maxRecvEvents : ℕ := 64
def maxRecvBytes : ℕ := 1024 * 1024
def maxQueuedBytes : ℕ := 4 * 1024 * 1024

inductive ProcessEvent where
  | stdout (data : String)
  | stderr (data : String)
  | exit (exitCode : Int)
  | error (message : String)
  deriving DecidableEq

def ProcessEvent.payloadLen : ProcessEvent → ℕ
  | .stdout data | .stderr data => data.utf8ByteSize
  | .error message => message.utf8ByteSize
  | .exit _ => 0

def ProcessEvent.isExit : ProcessEvent → Bool
  | .exit _ => true
  | _ => false

def ProcessEvent.isError : ProcessEvent → Bool
  | .error _ => true
  | _ => false

structure EventQueueState where
  events : List ProcessEvent
  bytes : ℕ
  overflowed : Bool

def EventQueueState.init : EventQueueState := ⟨[], 0, false⟩

def overflowMessage : String := "process output exceeded the guest queue limit"

def EventQueueState.push (state : EventQueueState) (event : ProcessEvent) : EventQueueState :=
  if !event.isExit && state.overflowed then state
  else if !event.isExit && maxQueuedBytes < state.bytes + event.payloadLen then
    ⟨[.error overflowMessage], 0, true⟩
  else
    { state with events := state.events ++ [event], bytes := state.bytes + event.payloadLen }

/-- What `recv` returns. -/
abbrev Received := Except String (List ProcessEvent × Bool)

/-- The loop of `recv` over the events and the byte counter, with the batch so far and its size. -/
def recvLoop : List ProcessEvent → ℕ → List ProcessEvent → ℕ → Received × List ProcessEvent × ℕ
  | [], bytes, taken, _ => (.ok (taken, false), [], bytes)
  | event :: rest, bytes, taken, size =>
    if taken.length < maxRecvEvents ∧ size < maxRecvBytes then
      let left := bytes - event.payloadLen
      match event with
      | .error message => (.error message, rest, left)
      | .exit exitCode => (.ok (taken ++ [.exit exitCode], true), rest, left)
      | event => recvLoop rest left (taken ++ [event]) (size + event.payloadLen)
    else (.ok (taken, false), event :: rest, bytes)

def EventQueueState.recv (state : EventQueueState) : Received × EventQueueState :=
  let (result, events, bytes) := recvLoop state.events state.bytes [] 0
  (result, { state with events, bytes })

inductive QueueCall where
  | push (event : ProcessEvent)
  | recv

/-- Both calls hold the lock of the queue, `recv` from when it is done waiting. -/
def eventQueue : System EventQueueState QueueCall where
  enabled _ _ := True
  next
    | state, .push event => state.push event
    | state, .recv => state.recv.2

def QueueCall.pushed : QueueCall → List ProcessEvent
  | .push event => [event]
  | .recv => []

section
variable (state : EventQueueState)

/-- The events that a call returns, an error among them. -/
def QueueCall.handedOut : QueueCall → List ProcessEvent
  | .push _ => []
  | .recv =>
    match state.recv.1 with
    | .ok (events, _) => events
    | .error message => [.error message]

/-- What is queued before a call or pushed by it.  After an overflow only an exit is. -/
def QueueCall.due : QueueCall → List ProcessEvent
  | .push event =>
    if event.isExit = true ∨ state.overflowed = false ∧
        state.bytes + event.payloadLen ≤ maxQueuedBytes then state.events ++ [event]
    else if state.overflowed = true then state.events
    else [.error overflowMessage]
  | .recv => state.events

def payload (events : List ProcessEvent) : ℕ := (events.map (·.payloadLen)).sum

/-- A batch has no error and no exit before its end. -/
def WellCut : Received → Prop
  | .ok (events, exited) => events.length ≤ maxRecvEvents ∧ events.any (·.isError) = false ∧
      events.dropLast.any (·.isExit) = false ∧ exited = events.any (·.isExit)
  | .error _ => True

/-- The byte counter is exact and within the limit. -/
def Counted : Prop :=
  state.bytes = payload state.events ∧ state.bytes ≤ maxQueuedBytes

/-- A call hands out or keeps what is due, in order. -/
def Answers (call : QueueCall) : Prop :=
  call.handedOut state ++ (eventQueue.next state call).events = call.due state ∧
    Counted (eventQueue.next state call) ∧ (call = .recv → WellCut state.recv.1)

/-- Every call is answered, and without an overflow all that was pushed is handed out or queued. -/
def Faithful (calls : List QueueCall) : Prop :=
  eventQueue.Throughout Answers .init calls ∧
    ((eventQueue.exec .init calls).overflowed = false →
      eventQueue.collect QueueCall.handedOut .init calls ++ (eventQueue.exec .init calls).events =
        calls.flatMap (·.pushed))

/-- The events that a batch takes before the next one. -/
def Reached (taken size : ℕ) (batch : List ProcessEvent) : Prop :=
  taken + batch.length < maxRecvEvents ∧ size + payload batch < maxRecvBytes ∧
    ∀ event ∈ batch, event.isExit = false ∧ event.isError = false

/-- An error comes behind other events of the next batch. -/
def ErrorBehind : Prop :=
  ∃ batch message rest, state.events = batch ++ .error message :: rest ∧ batch ≠ [] ∧
    Reached 0 0 batch

/-- The event fits into the queue, or no event is before an error of the batch. -/
def Harmless : QueueCall → Prop
  | .push event => event.isExit = true ∨ state.bytes + event.payloadLen ≤ maxQueuedBytes
  | .recv => ¬ErrorBehind state

end

variable {state : EventQueueState} {call : QueueCall} {calls : List QueueCall}
  {event : ProcessEvent} {events rest batch taken : List ProcessEvent} {size : ℕ}

@[simp]
theorem payload_cons : payload (event :: events) = event.payloadLen + payload events := by
  simp [payload]

@[simp]
theorem payload_append : payload (events ++ rest) = payload events + payload rest := by
  simp [payload]

theorem Reached.cons (hreached : Reached (taken ++ [event]).length (size + event.payloadLen) batch)
    (hexit : event.isExit = false) (herror : event.isError = false) :
    Reached taken.length size (event :: batch) := by
  obtain ⟨hlength, hsize, hplain⟩ := hreached
  refine ⟨?_, ?_, ?_⟩
  · rw [length_append, length_singleton] at hlength
    rw [length_cons]
    omega
  · rw [payload_cons]
    omega
  · exact forall_mem_cons.2 ⟨⟨hexit, herror⟩, hplain⟩

/-- An error that is reached is returned, and the batch is given up. -/
theorem recvLoop_error (message : String) (rest : List ProcessEvent) :
    ∀ (batch : List ProcessEvent) (bytes size : ℕ) (taken : List ProcessEvent),
      Reached taken.length size batch →
      ∃ left, recvLoop (batch ++ .error message :: rest) bytes taken size =
        (.error message, rest, left)
  | [], bytes, size, taken, hreached => by
    have hroom : taken.length < maxRecvEvents ∧ size < maxRecvBytes := ⟨hreached.1, hreached.2.1⟩
    exact ⟨bytes - message.utf8ByteSize, by
      simp [recvLoop, hroom, ProcessEvent.payloadLen]⟩
  | event :: batch, bytes, size, taken, hreached => by
    obtain ⟨hlength, hsize, hplain⟩ := hreached
    rw [List.length_cons] at hlength
    rw [payload_cons] at hsize
    have hroom : taken.length < maxRecvEvents ∧ size < maxRecvBytes := by omega
    obtain ⟨⟨hexit, herror⟩, hplain⟩ := forall_mem_cons.1 hplain
    have hrest := recvLoop_error message rest batch (bytes - event.payloadLen)
      (size + event.payloadLen) (taken ++ [event])
      ⟨by rw [length_append, length_singleton]; omega, by omega, hplain⟩
    cases event with
    | stdout data | stderr data => simpa [recvLoop, hroom] using hrest
    | exit exitCode => cases hexit
    | error message => cases herror

theorem wellCut_plain (hlength : taken.length ≤ maxRecvEvents)
    (herror : taken.any (·.isError) = false) (hexit : taken.any (·.isExit) = false) :
    WellCut (.ok (taken, false)) := by
  refine ⟨hlength, herror, ?_, hexit.symm⟩
  simp only [any_eq_false] at hexit ⊢
  exact fun event hevent ↦ hexit event (dropLast_subset _ hevent)

/-- A batch takes the first events of the queue, unless it is given up for an error. -/
theorem recvLoop_spec (events : List ProcessEvent) : ∀ (taken : List ProcessEvent) (size : ℕ),
    taken.length ≤ maxRecvEvents → taken.any (·.isError) = false → taken.any (·.isExit) = false →
    let (result, rest, left) := recvLoop events (payload events) taken size
    left = payload rest ∧ WellCut result ∧
      match result with
      | .ok (received, _) => received ++ rest = taken ++ events
      | .error message => ∃ batch, events = batch ++ .error message :: rest ∧
          Reached taken.length size batch := by
  induction events with
  | nil => exact fun taken size hlength herror hexit ↦
      ⟨rfl, wellCut_plain hlength herror hexit, rfl⟩
  | cons event events ih =>
    intro taken size hlength herror hexit
    by_cases hroom : taken.length < maxRecvEvents ∧ size < maxRecvBytes
    swap
    · rw [recvLoop, if_neg hroom]
      exact ⟨rfl, wellCut_plain hlength herror hexit, rfl⟩
    have hleft : payload (event :: events) - event.payloadLen = payload events := by
      rw [payload_cons, Nat.add_sub_cancel_left]
    have hlonger : (taken ++ [event]).length ≤ maxRecvEvents := by
      rw [length_append, length_singleton]
      exact hroom.1
    have hrest := ih (taken ++ [event]) (size + event.payloadLen) hlonger
    cases event with
    | error message =>
      simp only [recvLoop, if_pos hroom, hleft]
      exact ⟨trivial, trivial, [], rfl, hroom.1, hroom.2, fun _ hevent ↦ (nomatch hevent)⟩
    | exit exitCode =>
      simp only [recvLoop, if_pos hroom, hleft]
      refine ⟨trivial, ⟨hlonger, ?_, ?_, ?_⟩, append_assoc ..⟩
      · simpa [ProcessEvent.isError] using herror
      · rwa [dropLast_concat]
      · simp [ProcessEvent.isExit]
    | stdout data | stderr data =>
      have hspec := hrest (by simpa [ProcessEvent.isError] using herror)
        (by simpa [ProcessEvent.isExit] using hexit)
      simp only [recvLoop, if_pos hroom, hleft]
      revert hspec
      rcases recvLoop events (payload events) _ _ with ⟨message | ⟨received, exited⟩, rest, left⟩
      · rintro ⟨hbytes, hcut, batch, rfl, hreached⟩
        exact ⟨hbytes, hcut, _ :: batch, rfl, hreached.cons rfl rfl⟩
      · rintro ⟨hbytes, hcut, hsame⟩
        exact ⟨hbytes, hcut, hsame.trans (append_assoc ..)⟩

theorem recv_spec (hcounted : state.bytes = payload state.events) :
    state.recv.2.bytes = payload state.recv.2.events ∧ WellCut state.recv.1 ∧
      match state.recv.1 with
      | .ok (received, _) => received ++ state.recv.2.events = state.events
      | .error message => ∃ batch, state.events = batch ++ .error message :: state.recv.2.events ∧
          Reached 0 0 batch := by
  have hspec := recvLoop_spec state.events [] 0 (Nat.zero_le _) rfl rfl
  rw [← hcounted] at hspec
  exact hspec

/-- Nothing has overflowed, and the counter is exact. -/
def Open (state : EventQueueState) : Prop := state.overflowed = false ∧ Counted state

section
variable (hopen : Open state)
include hopen

theorem Open.push (hfits : event.isExit = true ∨
    state.bytes + event.payloadLen ≤ maxQueuedBytes) :
    state.push event =
        ⟨state.events ++ [event], state.bytes + event.payloadLen, state.overflowed⟩ ∧
      Open (state.push event) := by
  have hlimit : state.bytes + event.payloadLen ≤ maxQueuedBytes := by
    rcases hfits with hexit | hfits
    · cases event with
      | exit exitCode => exact hopen.2.2
      | stdout data | stderr data | error message => cases hexit
    · exact hfits
  have hpush : state.push event =
      ⟨state.events ++ [event], state.bytes + event.payloadLen, state.overflowed⟩ := by
    simp [EventQueueState.push, hopen.1, hlimit]
  refine ⟨hpush, ?_⟩
  rw [hpush]
  refine ⟨hopen.1, ?_, hlimit⟩
  simp [hopen.2.1, payload]

theorem Open.recv (hfront : ¬ErrorBehind state) :
    QueueCall.handedOut state .recv ++ state.recv.2.events = state.events ∧
      Open state.recv.2 := by
  obtain ⟨hbytes, -, hresult⟩ := recv_spec hopen.2.1
  -- an error that is returned gives up nothing
  have hall : QueueCall.handedOut state .recv ++ state.recv.2.events = state.events := by
    rw [QueueCall.handedOut]
    cases hreceived : state.recv.1 with
    | ok result => rwa [hreceived] at hresult
    | error message =>
      rw [hreceived] at hresult
      obtain ⟨batch, hevents, hreached⟩ := hresult
      have hbatch : batch = [] := by
        by_contra hne
        exact hfront ⟨batch, message, _, hevents, hne, hreached⟩
      rw [hevents, hbatch]
      rfl
  refine ⟨hall, hopen.1, hbytes, ?_⟩
  calc state.recv.2.bytes = payload state.recv.2.events := hbytes
    _ ≤ payload state.events := by
        rw [← hall, payload_append]
        omega
    _ = state.bytes := hopen.2.1.symm
    _ ≤ maxQueuedBytes := hopen.2.2

theorem Open.next (hharmless : Harmless state call) :
    call.handedOut state ++ (eventQueue.next state call).events = state.events ++ call.pushed ∧
      Open (eventQueue.next state call) := by
  cases call with
  | push event =>
    obtain ⟨hpush, hnext⟩ := hopen.push hharmless
    exact ⟨congrArg EventQueueState.events hpush, hnext⟩
  | recv =>
    obtain ⟨hall, hnext⟩ := hopen.recv hharmless
    exact ⟨hall.trans (append_nil _).symm, hnext⟩

/-- A call is answered unless it overflows the queue or gives up a batch. -/
theorem Open.answers_iff : Answers state call ↔ Harmless state call := by
  constructor
  · intro hanswers
    cases call with
    | push event =>
      by_contra hfits
      simp only [Harmless, not_or, Bool.not_eq_true, Nat.not_le] at hfits
      have hpush : state.push event = ⟨[.error overflowMessage], 0, true⟩ := by
        simp [EventQueueState.push, hopen.1, hfits]
      have hcounted : (state.push event).bytes = payload (state.push event).events :=
        hanswers.2.1.1
      rw [hpush] at hcounted
      revert hcounted
      decide
    | recv =>
      rintro ⟨batch, message, rest, hevents, hne, hreached⟩
      obtain ⟨left, hloop⟩ := recvLoop_error message rest batch state.bytes 0 [] hreached
      have hrecv : state.recv = (.error message, { state with events := rest, bytes := left }) := by
        rw [EventQueueState.recv, hevents, hloop]
      have hlost : QueueCall.handedOut state .recv ++ state.recv.2.events = state.events :=
        hanswers.1
      rw [QueueCall.handedOut, hrecv, hevents] at hlost
      have hlength := congrArg length hlost
      simp at hlength
      exact hne hlength
  · intro hharmless
    obtain ⟨hall, hnext⟩ := hopen.next hharmless
    refine ⟨hall.trans ?_, hnext.2, fun _ ↦ (recv_spec hopen.2.1).2.1⟩
    cases call with
    | push event => exact (if_pos (hharmless.imp_right fun hfits ↦ ⟨hopen.1, hfits⟩)).symm
    | recv => exact append_nil _

theorem accounted (hharmless : eventQueue.Throughout Harmless state calls) :
    eventQueue.collect QueueCall.handedOut state calls ++ (eventQueue.exec state calls).events =
      state.events ++ calls.flatMap (·.pushed) := by
  induction calls generalizing state with
  | nil => exact (append_nil _).symm
  | cons call calls ih =>
    obtain ⟨hall, hnext⟩ := hopen.next hharmless.1
    rw [System.collect, System.exec_cons, append_assoc, ih hnext hharmless.2,
      ← append_assoc, hall, append_assoc, flatMap_cons]

end

/-- The queue is faithful in exactly the runs in which every push fits and no error comes behind
other events of a batch. -/
theorem event_queue_faithful_iff (calls : List QueueCall) :
    Faithful calls ↔ eventQueue.Throughout Harmless .init calls := by
  have hinit : Open .init := ⟨rfl, rfl, Nat.zero_le _⟩
  have hrun (state : EventQueueState) : eventQueue.Admits state calls := by
    induction calls generalizing state with
    | nil => trivial
    | cons call calls ih => exact ⟨trivial, ih _⟩
  have hsteps := System.throughout_congr Open (fun _ _ hopen _ ↦ hopen.answers_iff)
    (fun _ _ hopen _ hharmless ↦ (hopen.next hharmless).2) hinit (hrun .init)
  exact ⟨fun hfaithful ↦ hsteps.1 hfaithful.1, fun hharmless ↦
    ⟨hsteps.2 hharmless, fun _ ↦ accounted hinit hharmless⟩⟩

/-- Output before an error that is read with it is lost. -/
theorem not_event_queue_faithful :
    ¬Faithful [.push (.stdout "YQ=="), .push (.error "read failed"), .recv] := by
  intro hfaithful
  have hlost := hfaithful.2 (by decide)
  revert hlost
  decide

end Exo.Guest
