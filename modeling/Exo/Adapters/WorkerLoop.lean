import Exo.Library.System

/-!
# The loop of an adapter worker

`run_worker_loop` selects between the exit of the worker, its next line, a tick that asks whether to
stop, the task that handles events and the task that sends commands.  An event is counted and sent
to the handling task through a channel; the task hands one event after the other to `on_event`.

Every branch may be taken whenever its future is ready, and the steps of the handling task come
between any two steps of the loop.  Leaving the loop aborts both tasks and terminates the process
group of the worker; a failed `should_stop` returns at once.
-/

namespace Exo.Adapters

open Library List System

/-! ## The loop and its tasks -/

inductive WorkerLoopError where
  | exited
  | waitFailed
  | closedStdout
  | readFailed
  | parseFailed
  | eventHandlerStopped
  | eventHandler (error : String)
  | eventHandlerTask
  | commandSenderStopped
  | commandSender (error : String)
  | commandSenderTask
  | shouldStop (error : String)

inductive LoopResult where
  | ok
  | error (error : WorkerLoopError)

/-- What `next_line` and the parser make of the worker's output. -/
inductive WorkerLine (Event : Type*) where
  | event (event : Event)
  | malformed
  | closed
  | failed

/-- Where the loop stands: in its select, waiting for a place in the channel, waiting for
`should_stop`, left with both tasks aborted, and returned. -/
inductive LoopPhase (Event : Type*) where
  | selecting
  | sending (event : Event)
  | asking
  | closing (result : LoopResult)
  | returned (result : LoopResult)

/-- How a task can end. -/
inductive TaskEnd where
  | finished
  | failed (error : String)
  | panicked

/-- The handling task: waiting for an event, in `on_event`, ended, or cancelled. -/
inductive EventTask (Event : Type*) where
  | waiting
  | running (event : Event)
  | ended (how : TaskEnd)
  | cancelled

/-- A call of `on_event` failed. -/
def EventTask.hasFailed {Event : Type*} : EventTask Event → Bool
  | .ended (.failed _) | .ended .panicked => true
  | _ => false

/-- The capacity of the channel. -/
def eventCapacity : ℕ := 256

/-- The loop, with the events whose lines were read, those handed to `on_event`, and those whose
call has returned without an error. -/
structure WorkerLoop (Event : Type*) where
  phase : LoopPhase Event := .selecting
  stopping : Bool := false
  pendingEvents : ℕ := 0
  queue : List Event := []
  eventTask : EventTask Event := .waiting
  aborting : Bool := false
  terminated : Bool := false
  accepted : List Event := []
  handed : List Event := []
  completed : List Event := []

/-- The branches of the loop and what follows them, and the steps of the handling task. -/
inductive WorkerLoopLabel (Event : Type*) where
  | childWait (waited : Bool)
  | nextLine (line : WorkerLine Event)
  | send
  | tick
  | shouldStop (answer : Except String Bool)
  | eventTask
  | commandTask (how : TaskEnd)
  | terminate
  | receive
  | complete
  | fail (error : String)
  | panic
  | cancel
  | channelClosed

namespace WorkerLoop

variable {Event : Type*}

section
variable (state : WorkerLoop Event)

/-- `break`: both tasks are aborted. -/
def leave (result : LoopResult) : WorkerLoop Event :=
  { state with phase := .closing result, aborting := true }

def nextLine : WorkerLine Event → WorkerLoop Event
  | .event event =>
    { state with
      phase := .sending event
      pendingEvents := state.pendingEvents + 1
      accepted := state.accepted ++ [event] }
  | .malformed => state.leave (.error .parseFailed)
  | .closed => state.leave (.error .closedStdout)
  | .failed => state.leave (.error .readFailed)

/-- A send fails if the handling task has ended. -/
def send : WorkerLoop Event :=
  match state.phase with
  | .sending event =>
    if state.eventTask.hasFailed then state.leave (.error .eventHandlerStopped)
    else { state with phase := .selecting, queue := state.queue ++ [event] }
  | _ => state

/-- The end of a tick. -/
def leaveIfDone : WorkerLoop Event :=
  if state.stopping && state.pendingEvents == 0 then state.leave .ok
  else { state with phase := .selecting }

def tick : WorkerLoop Event :=
  if state.stopping then state.leaveIfDone else { state with phase := .asking }

def shouldStop : Except String Bool → WorkerLoop Event
  | .error error => { state with phase := .returned (.error (.shouldStop error)) }
  | .ok stop => leaveIfDone { state with stopping := stop }

def eventTaskError : EventTask Event → WorkerLoopError
  | .ended (.failed error) => .eventHandler error
  | .ended .panicked => .eventHandlerTask
  | _ => .eventHandlerStopped

def commandTaskError : TaskEnd → WorkerLoopError
  | .finished => .commandSenderStopped
  | .failed error => .commandSender error
  | .panicked => .commandSenderTask

/-- `terminate_worker_process_group`, and the return. -/
def terminate : WorkerLoop Event :=
  match state.phase with
  | .closing result => { state with phase := .returned result, terminated := true }
  | _ => state

def receive : WorkerLoop Event :=
  match state.queue with
  | [] => state
  | event :: queue =>
    { state with queue, eventTask := .running event, handed := state.handed ++ [event] }

def complete : WorkerLoop Event :=
  match state.eventTask with
  | .running event =>
    { state with
      eventTask := .waiting
      pendingEvents := state.pendingEvents - 1
      completed := state.completed ++ [event] }
  | _ => state

/-- The calls the handling task can be cancelled in. -/
def isAlive : EventTask Event → Bool
  | .waiting | .running _ => true
  | _ => false

def isRunning : EventTask Event → Bool
  | .running _ => true
  | _ => false

def isSending : LoopPhase Event → Bool
  | .sending _ => true
  | _ => false

def isClosing : LoopPhase Event → Bool
  | .closing _ => true
  | _ => false

def isReturned : LoopPhase Event → Bool
  | .returned _ => true
  | _ => false

/-- The branch of the loop or the task must be ready.  The sender of the channel is dropped when the
function returns. -/
def enabled : WorkerLoopLabel Event → Prop
  | .childWait _ | .tick | .commandTask _ => state.phase = .selecting
  | .nextLine _ => state.phase = .selecting ∧ state.stopping = false
  | .send => isSending state.phase = true ∧
      (state.eventTask.hasFailed = true ∨ state.queue.length < eventCapacity)
  | .shouldStop _ => state.phase = .asking
  | .eventTask => state.phase = .selecting ∧ state.eventTask.hasFailed = true
  | .terminate => isClosing state.phase = true
  | .receive => state.eventTask = .waiting ∧ state.queue ≠ []
  | .complete | .fail _ | .panic => isRunning state.eventTask = true
  | .cancel => state.aborting = true ∧ isAlive state.eventTask = true
  | .channelClosed => isReturned state.phase = true ∧ state.eventTask = .waiting ∧ state.queue = []

def next : WorkerLoopLabel Event → WorkerLoop Event
  | .childWait waited => state.leave (.error (if waited then .exited else .waitFailed))
  | .nextLine line => state.nextLine line
  | .send => state.send
  | .tick => state.tick
  | .shouldStop answer => state.shouldStop answer
  | .eventTask => state.leave (.error (eventTaskError state.eventTask))
  | .commandTask how => state.leave (.error (commandTaskError how))
  | .terminate => state.terminate
  | .receive => state.receive
  | .complete => state.complete
  | .fail error =>
    { state with
      eventTask := .ended (.failed error)
      pendingEvents := state.pendingEvents - 1 }
  | .panic => { state with eventTask := .ended .panicked }
  | .cancel => { state with eventTask := .cancelled }
  | .channelClosed => { state with eventTask := .ended .finished }

end

/-- `run_worker_loop` with its tasks. -/
def steps : System (WorkerLoop Event) (WorkerLoopLabel Event) where
  enabled := enabled
  next := next

/-! ## What the loop has to finish -/

section
variable (state : WorkerLoop Event)

/-- Events are handed over in the order in which they were read.  If the function has returned,
every accepted event was completed or a call of `on_event` failed; the process group is terminated;
and after a stop the result is `Ok`, which the next tick gives once nothing is pending. -/
structure Finishes : Prop where
  inOrder : state.handed <+: state.accepted
  beforeFailure : state.eventTask.hasFailed = true →
    ∃ event, state.handed = state.completed ++ [event]
  completed : isReturned state.phase = true →
    state.eventTask.hasFailed = true ∨ state.completed = state.accepted
  stopped : ∀ result, state.phase = .returned result → state.stopping = true →
    state.eventTask.hasFailed = true ∨ result = .ok
  drained : state.phase = .selecting → state.stopping = true → state.pendingEvents = 0 →
    state.tick.phase = .closing .ok
  terminated : isReturned state.phase = true → state.terminated = true

/-- No line is read after a stop. -/
def ReadsBeforeStop : WorkerLoopLabel Event → Prop
  | .nextLine _ => state.stopping = false
  | _ => True

/-- Nothing is pending and no stop was observed, or a call of `on_event` failed. -/
def Settled : Prop :=
  state.eventTask.hasFailed = true ∨ (state.pendingEvents = 0 ∧ state.stopping = false)

/-- The loop is left for another reason than a stop only once it is settled, and `should_stop` does
not fail. -/
def LeavesSettled : WorkerLoopLabel Event → Prop
  | .childWait _ | .commandTask _ | .nextLine .malformed | .nextLine .closed
  | .nextLine .failed => state.Settled
  | .shouldStop (.error _) => False
  | _ => True

end

/-! ## The invariant -/

/-- The event that is on its way into the channel. -/
def onTheWay : LoopPhase Event → List Event
  | .sending event => [event]
  | _ => []

/-- The event that `on_event` has. -/
def inHand : EventTask Event → List Event
  | .running event => [event]
  | _ => []

section
variable (state : WorkerLoop Event)

/-- While the loop runs, every accepted event is where it should be and is counted. -/
structure Open : Prop where
  kept : state.accepted = state.handed ++ state.queue ++ onTheWay state.phase
  running : state.aborting = false
  handling : state.eventTask.hasFailed = true ∨ isAlive state.eventTask = true
  counted : isAlive state.eventTask = true →
    state.handed = state.completed ++ inHand state.eventTask ∧
      state.pendingEvents = (inHand state.eventTask ++ state.queue ++ onTheWay state.phase).length
  failed : state.eventTask.hasFailed = true → ∃ event, state.handed = state.completed ++ [event]

/-- Once the loop is left, nothing is left to do, or a call of `on_event` failed. -/
structure Left (result : LoopResult) : Prop where
  inOrder : state.handed <+: state.accepted
  failed : state.eventTask.hasFailed = true → ∃ event, state.handed = state.completed ++ [event]
  done : state.eventTask.hasFailed = true ∨
    (state.completed = state.accepted ∧ state.queue = [] ∧ isRunning state.eventTask = false)
  stopped : state.stopping = true → state.eventTask.hasFailed = true ∨ result = .ok

/-- The invariant for each phase. -/
def Sound : Prop :=
  match state.phase with
  | .selecting | .sending _ | .asking => state.Open
  | .closing result => state.Left result
  | .returned result => state.Left result ∧ state.terminated = true

end

/-! ## Steps of the handling task -/

variable {state : WorkerLoop Event} {result : LoopResult}
  {task : EventTask Event} {how : TaskEnd} {label : WorkerLoopLabel Event}

theorem not_alive_of_failed (hfailed : task.hasFailed = true) : isAlive task = false := by
  cases task with
  | waiting | running | cancelled => cases hfailed
  | ended how => rfl

theorem Open.receive (hopen : state.Open) (hwaiting : state.eventTask = .waiting) :
    state.receive.Open := by
  unfold WorkerLoop.receive
  cases hqueue : state.queue with
  | nil => exact hopen
  | cons event queue =>
    have hcounted := hopen.counted (by rw [hwaiting]; rfl)
    rw [hwaiting, hqueue] at hcounted
    constructor
    · rw [hopen.kept, hqueue]
      simp
    · exact hopen.running
    · exact .inr rfl
    · intro _
      exact ⟨by rw [hcounted.1]; simp [inHand], by simpa [inHand] using hcounted.2⟩
    · exact nofun

theorem Open.complete (hopen : state.Open) : state.complete.Open := by
  unfold WorkerLoop.complete
  cases htask : state.eventTask with
  | waiting | ended how | cancelled => exact hopen
  | running event =>
    have hcounted := hopen.counted (by rw [htask]; rfl)
    rw [htask] at hcounted
    constructor
    · exact hopen.kept
    · exact hopen.running
    · exact .inr rfl
    · intro _
      refine ⟨by rw [hcounted.1]; simp [inHand], ?_⟩
      have hpending := hcounted.2
      simp only [inHand, cons_append, length_cons, nil_append] at hpending ⊢
      omega
    · exact nofun

/-- A failed call ends the handling task. -/
theorem Open.ended (hopen : state.Open) (hrunning : isRunning state.eventTask = true)
    (hfailed : (EventTask.ended how : EventTask Event).hasFailed = true) (pendingEvents : ℕ) :
    ({ state with eventTask := .ended how, pendingEvents } : WorkerLoop Event).Open := by
  cases htask : state.eventTask with
  | waiting | ended other | cancelled =>
    rw [htask] at hrunning
    cases hrunning
  | running event =>
    have hcounted := hopen.counted (by rw [htask]; rfl)
    rw [htask] at hcounted
    exact ⟨hopen.kept, hopen.running, .inl hfailed, nofun, fun _ ↦ ⟨event, hcounted.1⟩⟩

section
variable (hleft : state.Left result)
include hleft

theorem Left.ended (halive : isAlive state.eventTask = true)
    (htask : task.hasFailed = false) (hrunning : isRunning task = false) :
    ({ state with eventTask := task } : WorkerLoop Event).Left result := by
  have hnot : state.eventTask.hasFailed ≠ true := by
    intro hfailed
    rw [not_alive_of_failed hfailed] at halive
    cases halive
  constructor
  · exact hleft.inOrder
  · exact fun hfailed ↦ by cases htask.symm.trans hfailed
  · have hdone := hleft.done.resolve_left hnot
    exact .inr ⟨hdone.1, hdone.2.1, hrunning⟩
  · exact fun hstopping ↦ .inr ((hleft.stopped hstopping).resolve_left hnot)

theorem Left.not_running : isRunning state.eventTask ≠ true := by
  intro hrunning
  rcases hleft.done with hfailed | hdone
  · cases htask : state.eventTask with
    | running event =>
      rw [htask] at hfailed
      cases hfailed
    | waiting | ended | cancelled =>
      rw [htask] at hrunning
      cases hrunning
  · cases hdone.2.2.symm.trans hrunning

theorem Left.not_ready (hwaiting : state.eventTask = .waiting) : state.queue = [] := by
  rcases hleft.done with hfailed | hdone
  · rw [hwaiting] at hfailed
    cases hfailed
  · exact hdone.2.1

end

/-- A step that leaves the phase keeps the invariant if it keeps that of the open loop and that of
the loop that was left. -/
theorem Sound.of_phase {after : WorkerLoop Event} (hsound : state.Sound)
    (hphase : after.phase = state.phase) (hterminated : after.terminated = state.terminated)
    (hopen : state.Open → after.Open) (hleft : ∀ result, state.Left result → after.Left result) :
    after.Sound := by
  unfold Sound at hsound ⊢
  rw [hphase]
  cases hstate : state.phase with
  | selecting | sending | asking =>
    rw [hstate] at hsound
    exact hopen hsound
  | closing result =>
    rw [hstate] at hsound
    exact hleft result hsound
  | returned result =>
    rw [hstate] at hsound
    exact ⟨hleft result hsound.1, hterminated.trans hsound.2⟩

theorem receive_phase (state : WorkerLoop Event) :
    state.receive.phase = state.phase ∧ state.receive.terminated = state.terminated := by
  unfold WorkerLoop.receive
  cases state.queue <;> exact ⟨rfl, rfl⟩

theorem complete_phase (state : WorkerLoop Event) :
    state.complete.phase = state.phase ∧ state.complete.terminated = state.terminated := by
  unfold WorkerLoop.complete
  cases state.eventTask <;> exact ⟨rfl, rfl⟩

theorem Sound.receive (hsound : state.Sound) (hwaiting : state.eventTask = .waiting)
    (hqueue : state.queue ≠ []) : state.receive.Sound := by
  refine hsound.of_phase state.receive_phase.1 state.receive_phase.2
    (fun hopen ↦ hopen.receive hwaiting) ?_
  intro result hleft
  exact absurd (hleft.not_ready hwaiting) hqueue

section
variable (hsound : state.Sound) (hrunning : isRunning state.eventTask = true)
include hsound hrunning

theorem Sound.complete : state.complete.Sound := by
  refine hsound.of_phase state.complete_phase.1 state.complete_phase.2
    (fun hopen ↦ hopen.complete) ?_
  intro result hleft
  exact absurd hrunning hleft.not_running

theorem Sound.ended
    (hfailed : (EventTask.ended how : EventTask Event).hasFailed = true) (pendingEvents : ℕ) :
    ({ state with eventTask := .ended how, pendingEvents } : WorkerLoop Event).Sound := by
  refine hsound.of_phase rfl rfl (fun hopen ↦ hopen.ended hrunning hfailed pendingEvents) ?_
  intro result hleft
  exact absurd hrunning hleft.not_running

end

/-! ## Steps of the loop -/

theorem Sound.open_of_selecting (hsound : state.Sound) (hphase : state.phase = .selecting) :
    state.Open := by
  unfold Sound at hsound
  rwa [hphase] at hsound

/-- The loop is left with nothing to do, or after a failed call. -/
theorem Open.leave (hopen : state.Open)
    (hdone : state.eventTask.hasFailed = true ∨ state.pendingEvents = 0)
    (hstopped : state.stopping = true → state.eventTask.hasFailed = true ∨ result = .ok) :
    (state.leave result).Left result := by
  constructor
  · have hkept := hopen.kept
    rw [append_assoc] at hkept
    exact ⟨_, hkept.symm⟩
  · exact hopen.failed
  · rcases hopen.handling with hfailed | halive
    · exact .inl hfailed
    · have hzero := hdone.resolve_left (fun hfailed ↦ by
        rw [not_alive_of_failed hfailed] at halive
        cases halive)
      have hcounted := hopen.counted halive
      have hempty := length_eq_zero_iff.mp (hcounted.2.symm.trans hzero)
      simp only [append_eq_nil_iff] at hempty
      refine .inr ⟨?_, hempty.1.2, ?_⟩
      · calc state.completed
            = state.completed ++ inHand state.eventTask := by rw [hempty.1.1, append_nil]
          _ = state.handed := hcounted.1.symm
          _ = state.handed ++ state.queue ++ onTheWay state.phase := by
              rw [hempty.1.2, hempty.2, append_nil, append_nil]
          _ = state.accepted := hopen.kept.symm
      · show isRunning state.eventTask = false
        cases htask : state.eventTask with
        | running event =>
          have hnone := hempty.1.1
          rw [htask] at hnone
          cases hnone
        | waiting | ended | cancelled => rfl
  · exact hstopped

theorem Settled.leave (hsettled : state.Settled) (hopen : state.Open) (error : WorkerLoopError) :
    (state.leave (.error error)).Sound := by
  refine hopen.leave (hsettled.imp_right And.left) ?_
  intro hstopping
  refine hsettled.imp_right ?_
  intro hquiet
  cases hstopping.symm.trans hquiet.2

section
variable (hopen : state.Open) (hphase : onTheWay state.phase = [])
include hopen hphase

theorem Open.selecting {phase : LoopPhase Event} (hnext : onTheWay phase = []) (stopping : Bool) :
    ({ state with phase, stopping } : WorkerLoop Event).Open := by
  constructor
  · rw [hopen.kept, hphase, hnext]
  · exact hopen.running
  · exact hopen.handling
  · intro halive
    rw [hnext, ← hphase]
    exact hopen.counted halive
  · exact hopen.failed

theorem Open.leaveIfDone : state.leaveIfDone.Sound := by
  unfold WorkerLoop.leaveIfDone
  split_ifs with hdone
  · simp only [Bool.and_eq_true, beq_iff_eq] at hdone
    exact hopen.leave (.inr hdone.2) (fun _ ↦ .inr rfl)
  · exact hopen.selecting hphase rfl state.stopping

end

theorem Open.nextLine (hopen : state.Open) (hphase : state.phase = .selecting) (event : Event) :
    (state.nextLine (.event event)).Open := by
  have hkept := hopen.kept
  rw [hphase] at hkept
  constructor
  · simp [WorkerLoop.nextLine, hkept, onTheWay]
  · exact hopen.running
  · exact hopen.handling
  · intro halive
    have hcounted := hopen.counted halive
    rw [hphase] at hcounted
    refine ⟨hcounted.1, ?_⟩
    have hpending := hcounted.2
    simp only [WorkerLoop.nextLine, onTheWay, append_nil, length_append,
      length_singleton] at hpending ⊢
    omega
  · exact hopen.failed

theorem Sound.send (hsound : state.Sound) : state.send.Sound := by
  unfold WorkerLoop.send
  cases hphase : state.phase with
  | selecting | asking | closing | returned => exact hsound
  | sending event =>
    have hopen : state.Open := by
      unfold Sound at hsound
      rwa [hphase] at hsound
    dsimp only
    split_ifs with hfailed
    · exact hopen.leave (.inl hfailed) (fun _ ↦ .inl hfailed)
    · have hkept := hopen.kept
      rw [hphase] at hkept
      constructor
      · rw [hkept]
        simp [onTheWay]
      · exact hopen.running
      · exact hopen.handling
      · intro halive
        have hcounted := hopen.counted halive
        rw [hphase] at hcounted
        refine ⟨hcounted.1, ?_⟩
        have hpending := hcounted.2
        simpa [onTheWay, append_assoc] using hpending
      · exact hopen.failed

theorem Sound.next (hsound : state.Sound) (henabled : state.enabled label)
    (hsettled : state.LeavesSettled label) : (state.next label).Sound := by
  cases label with
  | childWait waited | commandTask how =>
    exact Settled.leave hsettled (hsound.open_of_selecting henabled) _
  | nextLine line =>
    have hopen := hsound.open_of_selecting henabled.1
    cases line with
    | event event => exact hopen.nextLine henabled.1 event
    | malformed | closed | failed => exact Settled.leave hsettled hopen _
  | send => exact hsound.send
  | tick =>
    have hopen := hsound.open_of_selecting henabled
    have hphase : onTheWay state.phase = [] := by
      rw [show state.phase = .selecting from henabled]
      rfl
    simp only [WorkerLoop.next, WorkerLoop.tick]
    split_ifs
    · exact hopen.leaveIfDone hphase
    · exact hopen.selecting hphase rfl state.stopping
  | shouldStop answer =>
    have hopen : state.Open := by
      unfold Sound at hsound
      rwa [show state.phase = .asking from henabled] at hsound
    have hphase : onTheWay state.phase = [] := by
      rw [show state.phase = .asking from henabled]
      rfl
    cases answer with
    | error error => exact absurd hsettled (by simp [LeavesSettled])
    | ok stop =>
      have hasked : ({ state with stopping := stop } : WorkerLoop Event).Open :=
        hopen.selecting hphase hphase stop
      exact hasked.leaveIfDone hphase
  | eventTask =>
    have hopen := hsound.open_of_selecting henabled.1
    exact hopen.leave (.inl henabled.2) (fun _ ↦ .inl henabled.2)
  | terminate =>
    simp only [WorkerLoop.next, WorkerLoop.terminate]
    unfold Sound at hsound
    cases hphase : state.phase with
    | closing result =>
      rw [hphase] at hsound
      exact ⟨⟨hsound.inOrder, hsound.failed, hsound.done, hsound.stopped⟩, rfl⟩
    | _ =>
      rw [enabled, hphase] at henabled
      cases henabled
  | receive => exact hsound.receive henabled.1 henabled.2
  | complete => exact hsound.complete henabled
  | fail error => exact hsound.ended henabled rfl _
  | panic => exact hsound.ended henabled rfl _
  | cancel =>
    refine hsound.of_phase rfl rfl ?_ ?_
    · intro hopen
      cases hopen.running.symm.trans henabled.1
    · exact fun result hleft ↦ hleft.ended henabled.2 rfl rfl
  | channelClosed =>
    have halive : isAlive state.eventTask = true := by
      rw [henabled.2.1]
      rfl
    have hreturned := henabled.1
    unfold Sound at hsound ⊢
    cases hphase : state.phase with
    | returned result =>
      have hnext : (state.next .channelClosed).phase = .returned result := hphase
      rw [hphase] at hsound
      rw [hnext]
      exact ⟨hsound.1.ended halive rfl rfl, hsound.2⟩
    | _ =>
      rw [hphase] at hreturned
      cases hreturned

/-! ## Runs -/

theorem Sound.finishes (hsound : state.Sound) : state.Finishes := by
  have hopen (hkept : state.Open) : state.handed <+: state.accepted := by
    have heq := hkept.kept
    rw [append_assoc] at heq
    exact ⟨_, heq.symm⟩
  unfold Sound at hsound
  constructor
  · cases hphase : state.phase with
    | selecting | sending | asking =>
      rw [hphase] at hsound
      exact hopen hsound
    | closing result =>
      rw [hphase] at hsound
      exact hsound.inOrder
    | returned result =>
      rw [hphase] at hsound
      exact hsound.1.inOrder
  · cases hphase : state.phase with
    | selecting | sending | asking =>
      rw [hphase] at hsound
      exact Open.failed hsound
    | closing result =>
      rw [hphase] at hsound
      exact hsound.failed
    | returned result =>
      rw [hphase] at hsound
      exact hsound.1.failed
  · intro hreturned
    cases hphase : state.phase with
    | returned result =>
      rw [hphase] at hsound
      exact hsound.1.done.imp_right And.left
    | _ =>
      rw [hphase] at hreturned
      cases hreturned
  · intro result hphase hstopping
    rw [hphase] at hsound
    exact hsound.1.stopped hstopping
  · intro hphase hstopping hpending
    unfold tick leaveIfDone
    simp [hstopping, hpending, leave]
  · intro hreturned
    cases hphase : state.phase with
    | returned result =>
      rw [hphase] at hsound
      exact hsound.2
    | _ =>
      rw [hphase] at hreturned
      cases hreturned

theorem readsBeforeStop_of_enabled (henabled : state.enabled label) :
    state.ReadsBeforeStop label := by
  cases label with
  | nextLine line => exact henabled.2
  | _ => trivial

end WorkerLoop

/-- In every run whose loop is left settled, the loop finishes what it accepted. -/
theorem worker_loop_finishes {Event : Type*} {labels : List (WorkerLoopLabel Event)}
    (hadmits : WorkerLoop.steps.Admits {} labels)
    (hsettled : WorkerLoop.steps.Throughout WorkerLoop.LeavesSettled {} labels) :
    WorkerLoop.steps.Throughout WorkerLoop.ReadsBeforeStop {} labels ∧
      WorkerLoop.steps.Throughout (fun state _ ↦ state.Finishes) {} labels ∧
      (WorkerLoop.steps.exec {} labels).Finishes := by
  have hrun := (admits_restrict_iff _ _ _).2 ⟨hadmits, hsettled⟩
  have hinit : WorkerLoop.Sound ({} : WorkerLoop Event) :=
    ⟨rfl, rfl, .inr rfl, fun _ ↦ ⟨rfl, rfl⟩, nofun⟩
  have hstep (state : WorkerLoop Event) (label : WorkerLoopLabel Event) (hsound : state.Sound)
      (henabled : WorkerLoop.steps.enabled state label) (hleaves : state.LeavesSettled label) :
      (WorkerLoop.steps.next state label).Sound := hsound.next henabled hleaves
  refine ⟨?_, ?_, (invariant_of_restrict _ hstep hinit hrun).finishes⟩
  · exact throughout_of_invariant (fun _ ↦ True) (fun _ _ _ _ ↦ trivial)
      (fun _ _ _ henabled ↦ WorkerLoop.readsBeforeStop_of_enabled henabled) trivial hadmits
  · refine (throughout_restrict WorkerLoop.LeavesSettled _ _ _).1
      (throughout_of_invariant WorkerLoop.Sound ?_ ?_ hinit hrun)
    · exact fun state label hsound hlabel ↦ hstep state label hsound hlabel.1 hlabel.2
    · exact fun state label hsound _ ↦ hsound.finishes

/-- A stop is observed while an event is handled. -/
def stoppedRun : List (WorkerLoopLabel String) :=
  [.nextLine (.event "hi"), .send, .receive, .tick, .shouldStop (.ok true), .tick, .complete, .tick,
    .terminate]

theorem worker_loop_finishes_stoppedRun : (WorkerLoop.steps.exec {} stoppedRun).Finishes ∧
      (WorkerLoop.steps.exec {} stoppedRun).phase = .returned .ok := by
  have hadmits : WorkerLoop.steps.Admits {} stoppedRun :=
    ⟨⟨rfl, rfl⟩, ⟨rfl, .inr (by decide)⟩, ⟨rfl, by decide⟩, rfl, rfl, rfl, rfl, rfl, rfl, trivial⟩
  have hsettled : WorkerLoop.steps.Throughout WorkerLoop.LeavesSettled {} stoppedRun :=
    ⟨trivial, trivial, trivial, trivial, trivial, trivial, trivial, trivial, trivial, trivial⟩
  exact ⟨(worker_loop_finishes hadmits hsettled).2.2, rfl⟩

/-- The worker exits while an event that it has sent is handled. -/
def exitedRun : List (WorkerLoopLabel String) :=
  [.nextLine (.event "ack"), .send, .receive, .childWait true, .cancel, .terminate]

/-- The question whether to stop fails. -/
def failedStopRun : List (WorkerLoopLabel String) := [.tick, .shouldStop (.error "database locked")]

/-- An accepted event is cut off, and a process group stays. -/
theorem not_worker_loop_finishes : (WorkerLoop.steps.Admits {} exitedRun ∧
        ¬(WorkerLoop.steps.exec {} exitedRun).Finishes) ∧
      WorkerLoop.steps.Admits {} failedStopRun ∧
        ¬(WorkerLoop.steps.exec {} failedStopRun).Finishes := by
  refine ⟨⟨⟨⟨rfl, rfl⟩, ⟨rfl, .inr (by decide)⟩, ⟨rfl, by decide⟩, rfl, ⟨rfl, rfl⟩, rfl, trivial⟩,
    ?_⟩, ⟨rfl, rfl, trivial⟩, ?_⟩
  · intro hfinishes
    rcases hfinishes.completed rfl with hfailed | hcompleted
    · cases hfailed
    · cases hcompleted
  · intro hfinishes
    cases hfinishes.terminated rfl

end Exo.Adapters
