import Exo.Egress.Proxy
import Exo.Library.System

/-!
# The egress runtime

The runtime keeps the running handles and proxies of the sandboxes.  Acquisitions and terminations of
one sandbox take turns by a lock of its id; the map of the locks holds weak references.  A step is one
access of what the tasks share: between any two of them other tasks may take theirs.  The map of the
sandboxes is behind a mutex, so that nobody looks at it while a task is between its check of the
runtime and its write to the map.
-/

namespace Exo.Egress

open Library

def EgressPolicy.requiresProxy (policy : EgressPolicy) : Bool :=
  !policy.credentials.isEmpty || policy.allowedTcpPorts.isSome ||
    match policy.networking with
    | .limited _ => true
    | _ => false

namespace Runtime

inductive ResourceScope where
  | global
  | agent (agentId : ℕ)
  | thread (agentId threadId : ℕ)
  deriving DecidableEq

/-- A specification: the policy, and the rest, which is only compared. -/
structure SandboxSpec (Rest : Type) where
  policy : EgressPolicy
  rest : Rest
  deriving DecidableEq

structure SandboxRequest (Rest : Type) where
  sandboxId : String
  scope : ResourceScope
  spec : SandboxSpec Rest
  idleTtl : Option ℕ
  deriving DecidableEq

abbrev ProxyId := ℕ

structure CachedSandbox (Rest : Type) where
  externalProxy : Option ExternalProxyConfig
  request : SandboxRequest Rest
  handle : Option ℕ
  egress : ProxyId
  deriving DecidableEq

structure Proxy where
  /-- It was closed, or its transport ended by itself. -/
  closed : Bool
  deriving DecidableEq

structure Shared (Rest : Type) where
  sandboxes : List (String × CachedSandbox Rest) := []
  closed : Bool := false
  proxies : List Proxy := []

namespace Shared

variable {Rest : Type} (s : Shared Rest)

def cached (id : String) : Option (CachedSandbox Rest) := s.sandboxes.lookup id

def insert (id : String) (cached : CachedSandbox Rest) : Shared Rest :=
  { s with sandboxes := (id, cached) :: s.sandboxes.filter (·.1 ≠ id) }

def remove (id : String) : Shared Rest :=
  { s with sandboxes := s.sandboxes.filter (·.1 ≠ id) }

/-- A new proxy; its token is a child of the one of the runtime. -/
def start : Shared Rest := { s with proxies := s.proxies ++ [⟨false⟩] }

def close (egress : ProxyId) : Shared Rest := { s with proxies := s.proxies.set egress ⟨true⟩ }

def isOpen (egress : ProxyId) : Bool := !s.closed && s.proxies[egress]? == some ⟨false⟩

end Shared

variable {Rest : Type}

inductive Op (Rest : Type) where
  | acquire (request : SandboxRequest Rest) (externalProxy : Option ExternalProxyConfig)
  | terminate (id : String)
  | shutdown
  deriving DecidableEq

/-- The sandbox of an operation that takes the lock of one. -/
def Op.sandboxId : Op Rest → Option String
  | acquire request _ => some request.sandboxId
  | terminate id => some id
  | shutdown => none

abbrev Outcome := Except String (Option ℕ)

/-- Where a task is. -/
inductive Stage (Rest : Type) where
  | start
  | waiting
  | locked
  /-- The entry of the sandbox was cloned. -/
  | found (cached : CachedSandbox Rest)
  /-- `is_running` is awaited. -/
  | running (cached : CachedSandbox Rest) (handle : ℕ)
  | removing
  | closing (egress : ProxyId)
  /-- The shutdown of a proxy that was removed is awaited. -/
  | draining (egress : ProxyId)
  | removed
  | creating
  | created (egress : ProxyId)
  /-- The runtime was open; the mutex of the map is held. -/
  | inserting (egress : ProxyId)
  | building (egress : Option ProxyId)
  | built (egress : ProxyId) (handle : ℕ)
  /-- The runtime was open; the mutex of the map is held. -/
  | registering (egress : ProxyId) (handle : ℕ)
  | failed (egress : ProxyId) (message : String)
  | failedRemoved (egress : ProxyId) (message : String)
  | failedClosed (egress : ProxyId) (message : String)
  | cleaning (egress : ProxyId) (message : String)
  | terminating
  | unlocking (outcome : Outcome)
  | dropping (outcome : Outcome)
  | cancelled
  | closingAll (rest : List ProxyId)
  | finished (outcome : Outcome)
  | panicked
  deriving DecidableEq

/-- The mutex of the map is held. -/
def Stage.inMap : Stage Rest → Bool
  | inserting _ => true
  | registering .. => true
  | _ => false

/-- The lock of the sandbox is held. -/
def Stage.holds : Stage Rest → Bool
  | start | waiting | dropping _ | cancelled | closingAll _ | finished _ | panicked => false
  | _ => true

/-- The proxy that the task alone answers for, as it is not in the map or about to leave it. -/
def Stage.owned : Stage Rest → Option ProxyId
  | closing egress => some egress
  | created egress => some egress
  | inserting egress => some egress
  | building egress => egress
  | built egress _ => some egress
  | registering egress _ => some egress
  | failed egress _ => some egress
  | failedRemoved egress _ => some egress
  | _ => none

/-- Calls of the callbacks that an acquisition was given, and of its proxy. -/
inductive Call where
  | create (egress : ProxyId)
  /-- The boot is begun. -/
  | build (egress : Option ProxyId)
  | shutdown (egress : ProxyId)
  | terminate
  deriving DecidableEq

/-- The calls of a task are kept for the statements only. -/
structure Task (Rest : Type) where
  op : Op Rest
  /-- The strong reference to the lock of the sandbox. -/
  lock : Option ℕ := none
  stage : Stage Rest := .start
  calls : List Call := []
  deriving DecidableEq

/-- What callbacks and awaited operations answer. -/
structure Env where
  ok : Bool := true
  message : String := ""
  running : Option Bool := some true
  handle : ℕ := 0

def shutDownMessage : String := "sandbox egress runtime is shut down"

variable [DecidableEq Rest]

def CachedSandbox.unchanged (cached : CachedSandbox Rest) (request : SandboxRequest Rest)
    (externalProxy : Option ExternalProxyConfig) : Bool :=
  cached.request.spec = request.spec && cached.request.scope = request.scope &&
    cached.externalProxy = externalProxy

/-- What a step leaves: the shared part, the stage, and the calls it made. -/
abbrev Advance (Rest : Type) := Shared Rest × Stage Rest × List Call

section
variable (s : Shared Rest) (free : Bool)

/-- `EgressRuntime::remove`, at `removing`, `closing` and `draining`. -/
def advanceRemove (env : Env) (id : String) : Stage Rest → Option (Advance Rest)
  | .removing =>
    if free then
      match s.cached id with
      | some cached => some (s.remove id, .closing cached.egress, [])
      | none => some (s, .removed, [])
    else none
  | .closing egress => some (s.close egress, .draining egress, [])
  | .draining _ =>
    if env.ok then some (s, .removed, []) else some (s, .unlocking (.error env.message), [])
  | _ => none

/-- `acquire_with_proxy`, under the lock of the sandbox. -/
def advanceAcquire (env : Env) (request : SandboxRequest Rest)
    (externalProxy : Option ExternalProxyConfig) : Stage Rest → Option (Advance Rest)
  | .locked =>
    if free then
      match s.cached request.sandboxId with
      | some cached => some (s, .found cached, [])
      | none => some (s, .removed, [])
    else none
  | .found cached =>
    match cached.handle with
    | some handle =>
      if s.isOpen cached.egress then some (s, .running cached handle, [])
      else some (s, .removing, [])
    | none => some (s, .removing, [])
  | .running cached handle =>
    if !env.ok then some (s, .unlocking (.error env.message), [])
    else if env.running = some true then
      if cached.unchanged request externalProxy then some (s, .unlocking (.ok (some handle)), [])
      else some (s, .unlocking
        (.error "stop the protected sandbox before changing its configuration"), [])
    else some (s, .removing, [])
  | .removed =>
    if !request.spec.policy.requiresProxy then some (s, .building none, [.build none])
    else if s.closed then some (s, .unlocking (.error shutDownMessage), [])
    else if request.idleTtl.isNone then
      some (s, .unlocking (.error "proxy egress requires a managed sandbox lifecycle"), [])
    -- `State::new`, or `State::with_external_proxy`
    else if env.ok then some (s, .creating, [])
    else some (s, .unlocking (.error env.message), [])
  | .creating =>
    if env.ok then some (s.start, .created s.proxies.length, [.create s.proxies.length])
    else some (s, .unlocking (.error env.message), [])
  | .created egress =>
    if !free then none
    else if s.closed then some (s, .unlocking (.error shutDownMessage), [])
    else some (s, .inserting egress, [])
  | .inserting egress =>
    some (s.insert request.sandboxId ⟨externalProxy, request, none, egress⟩,
      .building (some egress), [.build (some egress)])
  | .building none =>
    if env.ok then some (s, .unlocking (.ok (some env.handle)), [])
    else some (s, .unlocking (.error env.message), [])
  | .building (some egress) =>
    if env.ok then some (s, .built egress env.handle, [])
    else some (s, .failed egress env.message, [])
  | .built egress handle =>
    if !free then none
    else if s.closed then some (s, .failed egress shutDownMessage, [])
    else some (s, .registering egress handle, [])
  | .registering _ handle =>
    match s.cached request.sandboxId with
    | some cached =>
      some (s.insert request.sandboxId { cached with handle := some handle },
        .unlocking (.ok (some handle)), [])
    | none => some (s, .panicked, [])
  | .failed egress message =>
    if free then some (s.remove request.sandboxId, .failedRemoved egress message, []) else none
  | .failedRemoved egress message => some (s.close egress, .failedClosed egress message, [])
  -- what the shutdown and the termination answer is only logged
  | .failedClosed egress message => some (s, .cleaning egress message, [.shutdown egress])
  | .cleaning _ message => some (s, .unlocking (.error message), [.terminate])
  | stage => advanceRemove s free env request.sandboxId stage

/-- `terminate`, under the lock of the sandbox. -/
def advanceTerminate (env : Env) (id : String) : Stage Rest → Option (Advance Rest)
  | .locked => some (s, .removing, [])
  | .removed => some (s, .terminating, [])
  | .terminating =>
    some (s, .unlocking (if env.ok then .ok none else .error env.message), [])
  | stage => advanceRemove s free env id stage

def advanceShutdown : Stage Rest → Option (Advance Rest)
  | .start => some ({ s with closed := true }, .cancelled, [])
  | .cancelled =>
    if free then
      some ({ s with sandboxes := [] }, .closingAll (s.sandboxes.map (·.2.egress)), [])
    else none
  | .closingAll [] => some (s, .finished (.ok none), [])
  | .closingAll (egress :: rest) => some (s.close egress, .closingAll rest, [])
  | _ => none

end

def Op.advance (op : Op Rest) (s : Shared Rest) (free : Bool) (env : Env) (stage : Stage Rest) :
    Option (Advance Rest) :=
  match op with
  | .acquire request externalProxy => advanceAcquire s free env request externalProxy stage
  | .terminate id => advanceTerminate s free env id stage
  | .shutdown => advanceShutdown s free stage

structure EgressRuntime (Rest : Type) where
  shared : Shared Rest := {}
  /-- Weak references, by sandbox. -/
  locks : List (String × ℕ) := []
  allocated : ℕ := 0
  tasks : List (Task Rest) := []

namespace EgressRuntime

variable (r : EgressRuntime Rest)

/-- A task has a strong reference to the lock. -/
def alive (lock : ℕ) : Bool := r.tasks.any fun task ↦ task.lock == some lock

/-- Some task has locked it. -/
def held (lock : ℕ) : Bool :=
  r.tasks.any fun task ↦ task.lock == some lock && task.stage.holds

/-- Nobody holds the mutex of the map. -/
def free : Bool := r.tasks.all fun task ↦ !task.stage.inMap

def setTask (i : ℕ) (task : Task Rest) : EgressRuntime Rest :=
  { r with tasks := r.tasks.set i task }

/-- The map of the locks without the dead ones. -/
def retained : List (String × ℕ) := r.locks.filter fun entry ↦ r.alive entry.2

/-- The lock of a sandbox, one that is alive or a new one. -/
def lockFor (id : String) : ℕ := (r.retained.lookup id).getD r.allocated

def afterLookup (id : String) : EgressRuntime Rest :=
  match r.retained.lookup id with
  | some _ => { r with locks := r.retained }
  | none => { r with locks := (id, r.allocated) :: r.retained, allocated := r.allocated + 1 }

/-- A step of a task at a stage; `shutdown` takes no lock. -/
def stepTask (i : ℕ) (task : Task Rest) (env : Env) : Option (EgressRuntime Rest) :=
  match task.stage, task.op.sandboxId with
  | .start, some id => some
      ((r.afterLookup id).setTask i { task with lock := some (r.lockFor id), stage := .waiting })
  | .waiting, some _ =>
    if task.lock.any r.held then none else some (r.setTask i { task with stage := .locked })
  | .unlocking outcome, some _ => some (r.setTask i { task with stage := .dropping outcome })
  | .dropping outcome, some _ =>
    some (r.setTask i { task with lock := none, stage := .finished outcome })
  | stage, _ => (task.op.advance r.shared r.free env stage).map fun (shared, stage, calls) ↦
      { r with shared }.setTask i { task with stage, calls := task.calls ++ calls }

inductive Label (Rest : Type) where
  | call (op : Op Rest)
  | step (i : ℕ) (env : Env)
  /-- The transport of a proxy ends by itself. -/
  | die (egress : ProxyId)

def step : Label Rest → Option (EgressRuntime Rest)
  | .call op => some { r with tasks := r.tasks ++ [{ op }] }
  | .step i env => r.tasks[i]?.bind fun task ↦ r.stepTask i task env
  | .die egress => some { r with shared := r.shared.close egress }

/-- The runtime with its tasks, in any interleaving. -/
def system : System (EgressRuntime Rest) (Label Rest) where
  enabled r label := (r.step label).isSome = true
  next r label := (r.step label).getD r

instance (r : EgressRuntime Rest) (label : Label Rest) : Decidable (system.enabled r label) :=
  inferInstanceAs (Decidable (_ = true))

end EgressRuntime

end Runtime

end Exo.Egress
