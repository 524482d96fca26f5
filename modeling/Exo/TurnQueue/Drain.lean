import Exo.TurnCoordinator.Operations
import Exo.TurnQueue.Journal

/-!
# Draining a turn queue

`spawn_queue`, `run_queue`, `open_queue_head`, `persist_head_failure` and the finalizer of
`start_local_turn` as steps of one system: the coordinator, the durable journal, the clients that
are between their mutation and their claim, and the workers, each at a stage of its loop.  A step is
one coordinator operation, one durable append, or one decision on what was read.  Its inputs choose
how a storage call ends, what the executor does and how the harness stops.

A crash may come between any two steps and leaves the stored queue and the journal.
-/

namespace Exo.TurnQueue

open Library TurnCoordinator

inductive StopReason where
  | cancel
  | suspend
  | shutdown
  deriving DecidableEq

/-- How a harness execution ends. -/
inductive HarnessTurnOutcome where
  | completed
  | failed (message : String)
  | cancelled
  | suspended
  | interrupted
  deriving DecidableEq

/-- One execution of the head: the turn handle's `finished` flag, whether the harness took the turn,
the worker's `suspended` flag and the stop the harness was last sent. -/
structure Execution where
  head : QueuedTurn TurnWork
  watch : WatchId
  finished : Bool
  submitted : Bool := false
  suspended : Bool := false
  stop : Option StopReason := none
  deriving DecidableEq

/-- Where a worker stands between the claim of its lease and its drop. -/
inductive Stage where
  | peekInitial
  | loop (initialHead : Option (Option (QueuedTurn TurnWork)))
  | release
  | start (head : QueuedTurn TurnWork)
  | firstControl (head : QueuedTurn TurnWork) (wasStarted : Bool) (watch : WatchId)
  | openHead (head : QueuedTurn TurnWork) (wasStarted : Bool) (watch : WatchId)
  | finishHead (head : QueuedTurn TurnWork)
  | begin (head : QueuedTurn TurnWork) (recovering : Bool) (watch : WatchId)
  | submit (execution : Execution)
  | running (execution : Execution)
  | finalize (execution : Execution) (batches : List (List EventData)) (error : Option String)
  | settle (head : QueuedTurn TurnWork) (suspended : Bool) (error : Option String)
  | decide (head : QueuedTurn TurnWork) (suspended : Bool) (error : Option String)
      (status : JournalStatus)
  | persist (head : QueuedTurn TurnWork) (batches : List (List EventData))
  | acknowledge (head : QueuedTurn TurnWork)
  | stopped
  deriving DecidableEq

/-- How the call of a worker's step ends, or what its execution does. -/
inductive Choice where
  | call (store : StoreOutcome)
  | refuse (message : String)
  | write (data : EventData)
  | stop (outcome : HarnessTurnOutcome)

/-- What a worker's step does: the coordinator operation's effect, the batch it appends for a turn,
the next stage, and whether it hands the turn to the executor. -/
structure Move where
  coordinator : Coordinator TurnWork
  stage : Stage
  batch : Option (TurnRecord × List EventData) := none
  invoked : Option TurnId := none

/-- The branch of the loop on the head it got. -/
def examine (head : Option (QueuedTurn TurnWork)) : Stage :=
  match head with
  | none => .release
  | some head => if head.control = .suspend then .release else .start head

section
variable (journal : Journal)

/-- `open_queue_head` up to the choice between finishing, recovering and beginning. -/
def openQueueHead (head : QueuedTurn TurnWork) (wasStarted : Bool)
    (watch : WatchId) : Stage :=
  let events := if wasStarted then eventsOf journal head.turn.id else []
  match journalStatusFromEvents events with
  | .finished _ => .settle head false none
  | status =>
    if head.control = .cancel then .settle head false (some "turn cancelled")
    else if events.any (fun event ↦ event.data.settles) then .finishHead head
    else if status = .running then
      if (workFromEvents events).isSome then .begin head true watch
      else .settle head false (some "unfinished turn has no recorded work")
    else .begin head false watch

/-- Whether the marker of the turn is in the journal. -/
def marked (turn : TurnId) : Bool :=
  (eventsOf journal turn).any (fun event ↦ event.data = .turnCompleted)

/-- The appends of the finalizer for an outcome. -/
def finalizerBatches (execution : Execution) : HarnessTurnOutcome → List (List EventData)
  | .completed =>
    if marked journal execution.head.turn.id then [finishEvents execution.finished]
    else [[.turnCompleted], finishEvents execution.finished]
  | .failed message => [[.error message], finishEvents execution.finished]
  | .cancelled => [[.error "harness turn cancelled"], finishEvents execution.finished]
  | .suspended => []
  | .interrupted => []

/-- The error the finalizer sends to the stream. -/
def HarnessTurnOutcome.error : HarnessTurnOutcome → Option String
  | .completed => none
  | .failed message => some message
  | .cancelled => some "harness turn cancelled"
  | .suspended => some "turn suspended"
  | .interrupted => some "harness turn interrupted"

/-- The appends of `persist_head_failure`. -/
def persistBatches (head : QueuedTurn TurnWork) (error : Option String) :
    JournalStatus → List (List EventData)
  | .finished _ => []
  | .running =>
    [[.error (error.getD "turn execution stopped without completion")],
      finishEvents (handleFinished journal head.turn)]
  | .unstarted =>
    [beginEvents head.work, [.error (error.getD "turn execution stopped without completion")],
      [.turnEnded]]

end

/-- The harness side of `signal`: a cancellation or a shutdown is not taken back. -/
def sendStop (stop : Option StopReason) (control : TurnControl) : Option StopReason :=
  match stop with
  | some .cancel => some .cancel
  | some .shutdown => some .shutdown
  | _ =>
    match control with
    | .run => none
    | .cancel => some .cancel
    | .suspend => some .suspend

/-- One step of the task `spawn_queue` makes. -/
def advance (c : Coordinator TurnWork) (journal : Journal) (draining : Bool)
    (lease : LeaseIdentity) : Stage → Choice → Move
  | .peekInitial, .call store =>
    match c.peek store lease with
    | .ok head => ⟨c, .loop (some head), none, none⟩
    | .error _ => ⟨c, .stopped, none, none⟩
  | .loop initialHead, .call store =>
    if draining then ⟨c, .stopped, none, none⟩
    else
      match initialHead with
      | some head => ⟨c, examine head, none, none⟩
      | none =>
        match c.peek store lease with
        | .ok head => ⟨c, examine head, none, none⟩
        | .error _ => ⟨c, .stopped, none, none⟩
  | .release, .call store =>
    match c.releaseIfIdle store lease with
    | (.ok true, c') => ⟨c', .stopped, none, none⟩
    | (.ok false, c') => ⟨c', .loop none, none, none⟩
    | (.error _, c') => ⟨c', .stopped, none, none⟩
  | .start head, .call store =>
    match c.start store lease head.turn.id with
    | (.ok started, c') => ⟨c', .firstControl started.1 head.started started.2, none, none⟩
    | (.error _, c') => ⟨c', .stopped, none, none⟩
  | .firstControl head wasStarted watch, .call store =>
    -- The agent and the thread are loaded before the stream is read.
    if store ≠ .ok then ⟨c, .stopped, none, none⟩
    else
      match c.poll watch with
      | (.ready control, c') =>
        if control = .suspend then ⟨c', .loop none, none, none⟩
        else ⟨c', .openHead { head with control := control } wasStarted watch, none, none⟩
      | (.pending, c') => ⟨c', .firstControl head wasStarted watch, none, none⟩
      | (.ended, c') => ⟨c', .stopped, none, none⟩
  | .openHead head wasStarted watch, .call store =>
    if wasStarted ∧ store ≠ .ok then ⟨c, .settle head false (some "storage"), none, none⟩
    else ⟨c, openQueueHead journal head wasStarted watch, none, none⟩
  | .finishHead head, .call store =>
    if store ≠ .ok then ⟨c, .settle head false (some "storage"), none, none⟩
    else ⟨c, .settle head false none,
      some (head.turn, finishEvents (handleFinished journal head.turn)), none⟩
  | .begin head _ _, .refuse message => ⟨c, .settle head false (some message), none, none⟩
  | .begin head recovering watch, .call store =>
    if draining then ⟨c, .settle head false (some "runtime is shutting down"), none, none⟩
    else if store ≠ .ok then ⟨c, .settle head false (some "storage"), none, none⟩
    else if recovering then
      ⟨c, .submit { head, watch, finished := handleFinished journal head.turn }, none, none⟩
    else ⟨c, .submit { head, watch, finished := false }, some (head.turn, beginEvents head.work),
      none⟩
  | .submit execution, .refuse message =>
    ⟨c, .finalize execution [[.error message], finishEvents execution.finished] (some message),
      none, none⟩
  | .submit execution, .call _ =>
    ⟨c, .running { execution with submitted := true }, none, some execution.head.turn.id⟩
  | .running execution, .write data =>
    ⟨c, .running execution, some (execution.head.turn, [data]), none⟩
  | .running execution, .stop outcome =>
    ⟨c, .finalize { execution with suspended := execution.suspended || outcome = .suspended }
      (finalizerBatches journal execution outcome) outcome.error, none, none⟩
  | .finalize execution [] error, .call _ =>
    ⟨c, .settle execution.head execution.suspended error, none, none⟩
  | .finalize execution (batch :: batches) error, .call store =>
    if store = .ok then
      ⟨c, .finalize execution batches error, some (execution.head.turn, batch), none⟩
    else if batch = [.turnCompleted] then
      ⟨c, .finalize execution ([.error "storage"] :: batches) (some "storage"), none, none⟩
    else ⟨c, .finalize execution [] (some (error.getD "storage")), none, none⟩
  | .settle head suspended error, .call store =>
    if store ≠ .ok then ⟨c, .stopped, none, none⟩
    else
      match journalStatus journal head.turn.id with
      | .finished _ => ⟨c, .acknowledge head, none, none⟩
      | status =>
        if draining then ⟨c, .stopped, none, none⟩
        else ⟨c, .decide head suspended error status, none, none⟩
  | .decide head suspended error status, .call store =>
    match c.peek store lease with
    | .ok (some current) =>
      if current.control = .suspend then ⟨c, .loop none, none, none⟩
      else if current.control = .run ∧ suspended then ⟨c, .loop none, none, none⟩
      else ⟨c, .persist head (persistBatches journal head error status), none, none⟩
    | _ => ⟨c, .stopped, none, none⟩
  | .persist head [], .call _ => ⟨c, .acknowledge head, none, none⟩
  | .persist head (batch :: batches), .call store =>
    if store ≠ .ok then ⟨c, .stopped, none, none⟩
    else ⟨c, .persist head batches, some (head.turn, batch), none⟩
  | .acknowledge head, .call store =>
    match c.acknowledge store lease head.turn.id with
    | (.ok next, c') => ⟨c', .loop (some next), none, none⟩
    | (.error _, c') => ⟨c', .stopped, none, none⟩
  | stage, _ => ⟨c, stage, none, none⟩

/-- The worker's loop reads the next control of an execution and passes it to the harness. -/
def readControl (c : Coordinator TurnWork) : Stage → Coordinator TurnWork × Stage
  | .running execution =>
    match c.poll execution.watch with
    | (.ready control, c') => (c', .running { execution with
        suspended := execution.suspended || control = .suspend
        stop := sendStop execution.stop control })
    | (.pending, c') => (c', .running execution)
    | (.ended, c') => (c', .stopped)
  | .finalize execution batches error =>
    match c.poll execution.watch with
    | (.ready control, c') => (c', .finalize { execution with
        suspended := execution.suspended || control = .suspend } batches error)
    | (.pending, c') => (c', .finalize execution batches error)
    | (.ended, c') => (c', .stopped)
  | stage => (c, stage)

/-- A client that has changed the queue: it signals a live execution, then claims. -/
inductive Client where
  | signal (turn : TurnId) (control : TurnControl)
  | claim
  deriving DecidableEq

structure Worker where
  lease : LeaseIdentity
  stage : Stage

/-- The state of one thread's queue.  `accepted` lists the turns accepted so far and `invocations`
the turns handed to the executor with the length of the journal at that moment; no step reads
them. -/
structure Drain where
  coordinator : Coordinator TurnWork := {}
  journal : Journal := []
  clients : List Client := []
  workers : List Worker := []
  draining : Bool := false
  accepted : List TurnId := []
  invocations : List (TurnId × ℕ) := []

inductive Label where
  | request (op : Op TurnWork)
  | wake
  | signal (index : ℕ)
  | claim (index : ℕ) (identity : LeaseIdentity)
  | work (lease : LeaseIdentity) (choice : Choice)
  | control (lease : LeaseIdentity)
  | drop (lease : LeaseIdentity)
  | dropThreadState
  | shutdown
  | crash

/-- The mutations clients make. -/
def isRequest : Op TurnWork → Bool
  | .enqueue _ _ _ => true
  | .cancel _ _ _ => true
  | .setSuspended _ _ _ _ => true
  | _ => false

/-- What is left to do for the client of a mutation: `spawn_queue` after an acceptance, `signal` and
`spawn_queue` after a control change, nothing otherwise. -/
def clientsOf (op : Op TurnWork) (response : Response TurnWork) : List Client :=
  match op.controlRequest, response with
  | _, .accepted _ => [.claim]
  | some (turn, _, control), .outcome .queued => [.signal turn control]
  | some (turn, _, control), .outcome .running => [.signal turn control]
  | _, _ => []

/-- The turn a mutation adds to the queue. -/
def acceptedTurn : Response TurnWork → List TurnId
  | .accepted ⟨turn, false⟩ => [turn.id]
  | _ => []

/-- The events an executor writes on its own. -/
def EventData.byExecutor : EventData → Bool
  | .messages => true
  | .progress => true
  | .turnCompleted => true
  | _ => false

/-- What an execution may do: write its own events, and stop as it was told or by itself. -/
def Choice.allowed : Stage → Choice → Bool
  | .running _, .write data => data.byExecutor
  | .running execution, .stop outcome =>
    match outcome with
    | .completed => true
    | .failed _ => true
    | .cancelled => execution.stop = some .cancel
    | .suspended => execution.stop = some .suspend
    | .interrupted => execution.stop = some .shutdown
  | _, .write _ => false
  | _, .stop _ => false
  | _, _ => true

/-- Whether the worker's loop is reading the control stream. -/
def Stage.reads : Stage → Bool
  | .running _ => true
  | .finalize execution _ _ => execution.submitted
  | _ => false

/-- The harness receives `signal` for a turn. -/
def Stage.signal (turn : TurnId) (control : TurnControl) : Stage → Stage
  | .running execution =>
    if execution.head.turn.id = turn then
      .running { execution with stop := sendStop execution.stop control }
    else .running execution
  | stage => stage

/-- The harness is shut down. -/
def Stage.interrupt : Stage → Stage
  | .running execution => .running { execution with
      stop := if execution.stop = some .cancel then some .cancel else some .shutdown }
  | stage => stage

/-- The journal after a move. -/
def journalAfter (journal : Journal) (batch : Option (TurnRecord × List EventData)) : Journal :=
  match batch with
  | some (turn, batch) => append journal turn batch
  | none => journal

@[simp] theorem journalAfter_none (journal : Journal) : journalAfter journal none = journal := rfl

namespace Drain

section
variable (s : Drain)

def setStage (lease : LeaseIdentity) (stage : Stage) : List Worker :=
  s.workers.map (fun worker ↦
    if worker.lease = lease then { worker with stage := stage } else worker)

def enabled : Label → Prop
  | .request op => s.draining = false ∧ isRequest op = true
  | .wake => s.draining = false
  | .signal index => ∃ client ∈ s.clients[index]?, client ≠ .claim
  | .claim index identity =>
    s.clients[index]? = some .claim ∧ s.coordinator.enabled (.claim identity)
  | .work lease choice => ∃ worker ∈ s.workers, worker.lease = lease ∧ choice.allowed worker.stage
  | .control lease => ∃ worker ∈ s.workers, worker.lease = lease ∧ worker.stage.reads = true
  | .drop lease => ∃ worker ∈ s.workers, worker.lease = lease ∧ worker.stage = .stopped
  | .dropThreadState => s.coordinator.live = []
  | .shutdown => True
  | .crash => True

/-- Apply a worker's move. -/
def apply (lease : LeaseIdentity) (move : Move) : Drain :=
  { s with
    coordinator := move.coordinator
    journal := journalAfter s.journal move.batch
    workers := s.setStage lease move.stage
    invocations :=
      match move.invoked with
      | some turn => s.invocations ++ [(turn, s.journal.length)]
      | none => s.invocations }

def next : Label → Drain
  | .request op =>
    let result := s.coordinator.perform op
    { s with
      coordinator := result.2
      clients := s.clients ++ clientsOf op result.1
      accepted := s.accepted ++ acceptedTurn result.1 }
  | .wake => { s with clients := s.clients ++ [.claim] }
  | .signal index =>
    match s.clients[index]? with
    | some (.signal turn control) =>
      { s with
        clients := s.clients.set index .claim
        workers := s.workers.map (fun worker ↦
          { worker with stage := worker.stage.signal turn control }) }
    | _ => s
  | .claim index identity =>
    let result := s.coordinator.claim identity
    { s with
      coordinator := result.2
      clients := s.clients.eraseIdx index
      workers :=
        match result.1 with
        | some lease => s.workers ++ [⟨lease, .peekInitial⟩]
        | none => s.workers }
  | .work lease choice =>
    match s.workers.find? (fun worker ↦ worker.lease = lease) with
    | some worker =>
      s.apply lease (advance s.coordinator s.journal s.draining lease worker.stage choice)
    | none => s
  | .control lease =>
    match s.workers.find? (fun worker ↦ worker.lease = lease) with
    | some worker =>
      let result := readControl s.coordinator worker.stage
      { s with coordinator := result.1, workers := s.setStage lease result.2 }
    | none => s
  | .drop lease =>
    { s with
      coordinator := s.coordinator.dropLease lease
      workers := s.workers.filter (fun worker ↦ worker.lease ≠ lease) }
  | .dropThreadState => { s with coordinator := s.coordinator.dropThreadState }
  | .shutdown =>
    { s with
      draining := true
      workers := s.workers.map (fun worker ↦ { worker with stage := worker.stage.interrupt }) }
  | .crash =>
    { s with
      coordinator := { stored := s.coordinator.stored }
      clients := []
      workers := []
      draining := false }

end

/-- The drain of one thread's queue as a transition system. -/
def system : System Drain Label where
  enabled := enabled
  next := next

instance (s : Drain) (label : Label) : Decidable (system.enabled s label) :=
  match label with
  | .request _ => inferInstanceAs (Decidable (_ ∧ _))
  | .wake => inferInstanceAs (Decidable (s.draining = false))
  | .signal _ => inferInstanceAs (Decidable (∃ client ∈ _, _))
  | .claim index identity =>
    inferInstanceAs (Decidable (s.clients[index]? = some .claim ∧
      identity ∉ s.coordinator.live ∧ s.coordinator.mutation.owner ≠ some identity))
  | .work _ _ | .control _ | .drop _ => inferInstanceAs (Decidable (∃ worker ∈ s.workers, _))
  | .dropThreadState => inferInstanceAs (Decidable (s.coordinator.live = []))
  | .shutdown | .crash => isTrue trivial

end Drain

end Exo.TurnQueue
