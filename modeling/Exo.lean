import Exo.TurnCoordinator.Deduplication
import Exo.TurnCoordinator.Ownership
import Exo.TurnQueue.Wakeup
import Exo.TurnQueue.Completion
import Exo.BasicExecutor.Suspension
import Exo.BasicExecutor.ApprovalDecisions
import Exo.BasicExecutor.AnsweredExactly
import Exo.EventLog.Lookup
import Exo.EventLog.Scans
import Exo.EventLog.Watch
import Exo.EventLog.TurnHandles
import Exo.Artifacts.Histories
import Exo.Agents.SlugIndex
import Exo.Scheduler.Passes
import Exo.Scheduler.MissedFires
import Exo.Scheduler.WakeupLock
import Exo.Scheduler.Wakeups
import Exo.Adapters.Delivery
import Exo.Adapters.Duplicates
import Exo.Adapters.WorkerLoop
import Exo.Adapters.ClaimOrder
import Exo.Adapters.Conversations
import Exo.Harness.EventRouting
import Exo.Harness.MaterializeAgrees
import Exo.Sandbox.RegistryProtocol
import Exo.Sandbox.EventPoller
import Exo.Threads.DeletedThreads
import Exo.Egress.Confinement
import Exo.Vault.Rotation
import Exo.Migration.Retry
import Exo.Policy.Passes
import Exo.Egress.Orphans
import Exo.Sandbox.BridgeFidelity
import Exo.Http.EventStream
import Exo.Firecracker.Ceiling
import Exo.Firecracker.FirewallPolicy
import Exo.Firecracker.LaunchRuns
import Exo.Firecracker.LifecycleHandles
import Exo.Firecracker.SlotClaims
import Exo.Firecracker.Templates
import Exo.Sandboxes.AgentSandbox
import Exo.Remote.CallerIsolation
import Exo.Remote.TokenRuns
import Exo.Attachments.Dangling
import Exo.Resources.StoreSurvives
import Exo.Codex.AppServerRuns
import Exo.Codex.Replay
import Exo.Scheduler.Grammar
import Exo.Scheduler.ProcessOutput
import Exo.Threads.Listing
import Exo.Policy.Precedence
import Exo.Guest.EventQueue
import Exo.ManagedAgents.Creation
import Exo.Mcp.ToolNames
import Exo.Daytona.Sessions
