import Mathlib.Data.Finset.Basic
import Exo.Library.System
import Exo.Vault.Secrets

/-!
# Attached vaults

The records of agents and threads list vaults by id.  `new_agent`, `new_conversation` and
`attach_vaults` look up every vault that they are given, and `delete_vault` looks at every record;
all of them do so under the lock of the harness, with calls of other operations in between.  `fork`
looks at nothing: it copies the list of the handle, as it was when the handle was made.

`delete_conversation` is here too, since a handle may outlive its thread.
-/

namespace Exo.Attachments

open Library

export Exo.Vault (VaultId)

abbrev AgentId := ℕ

abbrev ConversationId := ℕ

structure AgentRecord where
  id : AgentId
  vaults : List VaultId

/-- The record of a thread; a handle has a copy of it. -/
structure ConversationRecord where
  agentId : AgentId
  id : ConversationId
  vaults : List VaultId
  deriving DecidableEq

/-- The two records are of the same thread. -/
def ConversationRecord.IsOf (record other : ConversationRecord) : Prop :=
  record.agentId = other.agentId ∧ record.id = other.id

instance (record other : ConversationRecord) : Decidable (record.IsOf other) :=
  inferInstanceAs (Decidable (_ ∧ _))

inductive Op where
  | newAgent (vaults : List VaultId)
  | newConversation (agentId : AgentId) (vaults : List VaultId)
  | attachVaults (handle : ConversationRecord) (vaults : List VaultId)
  | fork (handle : ConversationRecord)
  | deleteVault (id : VaultId)
  | deleteConversation (agentId : AgentId) (id : ConversationId)

/-- The record that an operation is about to put. -/
inductive Put where
  | agent (vaults : List VaultId)
  | conversation (agentId : AgentId) (vaults : List VaultId)
  /-- The record that was loaded, and the vaults to attach. -/
  | attached (record : ConversationRecord) (vaults : List VaultId)

/-- How far an operation got.  It has the lock from the second stage on. -/
inductive Stage where
  | waiting (op : Op)
  /-- `require_vaults` has these left; then the record is put. -/
  | requiring (put : Put) (left : List VaultId)
  /-- `delete_vault` is about to list the agents. -/
  | listing (id : VaultId)
  /-- `delete_vault` has these agents left; then the vault is deleted. -/
  | scanning (id : VaultId) (agents : List AgentRecord)
  | removing (agentId : AgentId) (id : ConversationId)

/-- What is stored, the handles that were given out, and the operations under way.  `drawn` has the
ids of all vaults that there ever were. -/
structure Harness where
  vaults : Finset VaultId
  drawn : Finset VaultId
  agents : List AgentRecord
  conversations : List ConversationRecord
  handles : List ConversationRecord
  writeLock : Option ℕ
  tasks : ℕ → Option Stage

inductive AttachLabel where
  | createVault (id : VaultId)
  /-- A handle of a thread is made from its record. -/
  | getConversation (record : ConversationRecord)
  /-- A call has made its checks before the lock. -/
  | start (task : ℕ) (op : Op)
  /-- The call gets the lock and loads what it starts from. -/
  | lock (task : ℕ)
  /-- The next storage call; `fresh` is the id of a record that is new. -/
  | step (task : ℕ) (fresh : ℕ)
  /-- A check of the caller refuses, or a slug is taken. -/
  | fail (task : ℕ)

/-- `attach_vaults` appends the vaults that are not there yet. -/
def ConversationRecord.attach (record : ConversationRecord) (vaults : List VaultId) :
    ConversationRecord :=
  { record with
    vaults := vaults.foldl (fun attached id ↦ if id ∈ attached then attached else attached ++ [id])
      record.vaults }

namespace Harness

def empty : Harness := ⟨∅, ∅, [], [], [], none, fun _ ↦ none⟩

section
variable (harness : Harness)

def setTask (task : ℕ) (stage : Option Stage) : Harness :=
  { harness with tasks := Function.update harness.tasks task stage }

/-- The call returns, and releases the lock if it has it. -/
def finish (task : ℕ) : Harness :=
  { harness with
    tasks := Function.update harness.tasks task none
    writeLock := harness.writeLock.filter (· ≠ task) }

def HasAgent (id : AgentId) : Prop := ∃ record ∈ harness.agents, record.id = id

instance (harness : Harness) (id : AgentId) : Decidable (harness.HasAgent id) :=
  inferInstanceAs (Decidable (∃ _ ∈ _, _))

/-- What a call checks before the lock. -/
def Starts : Op → Prop
  | .newAgent _ => True
  | .newConversation agentId _ => harness.HasAgent agentId
  | .attachVaults handle _ | .fork handle => handle ∈ harness.handles
  | .deleteVault id => id ∈ harness.vaults
  | .deleteConversation agentId id =>
    ∃ record ∈ harness.conversations, record.agentId = agentId ∧ record.id = id

instance (harness : Harness) (op : Op) : Decidable (harness.Starts op) :=
  match op with
  | .newAgent _ => isTrue trivial
  | .newConversation agentId _ => inferInstanceAs (Decidable (harness.HasAgent agentId))
  | .attachVaults handle _ | .fork handle => inferInstanceAs (Decidable (handle ∈ harness.handles))
  | .deleteVault id => inferInstanceAs (Decidable (id ∈ harness.vaults))
  | .deleteConversation _ _ => inferInstanceAs (Decidable (∃ _ ∈ _, _))

/-- What a call loads when it has the lock, or none if that fails. -/
def load : Op → Option Stage
  | .newAgent vaults => some (.requiring (.agent vaults) vaults)
  | .newConversation agentId vaults => some (.requiring (.conversation agentId vaults) vaults)
  | .attachVaults handle vaults =>
    (harness.conversations.find? fun record ↦ record.IsOf handle).map fun record ↦
      .requiring (.attached record vaults) vaults
  | .fork handle =>
    if harness.HasAgent handle.agentId then
      some (.requiring (.conversation handle.agentId handle.vaults) [])
    else none
  | .deleteVault id => some (.listing id)
  | .deleteConversation agentId id => some (.removing agentId id)

/-- The id is that of no record and no handle. -/
def FreshId (id : ℕ) : Prop :=
  (∀ record ∈ harness.agents, record.id ≠ id) ∧
    (∀ record ∈ harness.conversations, record.id ≠ id) ∧ ∀ handle ∈ harness.handles, handle.id ≠ id

instance (harness : Harness) (id : ℕ) : Decidable (harness.FreshId id) :=
  inferInstanceAs (Decidable (_ ∧ _))

/-- The record is put in the place of the one before. -/
def putConversation (record : ConversationRecord) : Harness :=
  { harness with
    conversations := record :: harness.conversations.filter fun other ↦ ¬ other.IsOf record
    handles := record :: harness.handles }

def put (fresh : ℕ) : Put → Harness
  | .agent vaults => { harness with agents := ⟨fresh, vaults⟩ :: harness.agents }
  | .conversation agentId vaults => harness.putConversation ⟨agentId, fresh, vaults⟩
  | .attached record vaults => harness.putConversation (record.attach vaults)

/-- A record of the agent, or of one of its threads, lists the vault. -/
def ListedIn (id : VaultId) (agent : AgentRecord) : Prop :=
  id ∈ agent.vaults ∨
    ∃ record ∈ harness.conversations, record.agentId = agent.id ∧ id ∈ record.vaults

instance (harness : Harness) (id : VaultId) (agent : AgentRecord) :
    Decidable (harness.ListedIn id agent) :=
  inferInstanceAs (Decidable (_ ∨ _))

/-- The next storage call of a call that has the lock. -/
def advance (task fresh : ℕ) : Stage → Option Harness
  | .waiting _ => none
  | .requiring put (id :: left) =>
    if id ∈ harness.vaults then some (harness.setTask task (some (.requiring put left)))
    else some (harness.finish task)
  | .requiring put [] =>
    if harness.FreshId fresh then some ((harness.put fresh put).finish task) else none
  | .listing id => some (harness.setTask task (some (.scanning id harness.agents)))
  | .scanning id (agent :: agents) =>
    if harness.ListedIn id agent then some (harness.finish task)
    else some (harness.setTask task (some (.scanning id agents)))
  | .scanning id [] => some ({ harness with vaults := harness.vaults.erase id }.finish task)
  | .removing agentId id =>
    some ({ harness with
      conversations := harness.conversations.filter fun record ↦
        ¬ (record.agentId = agentId ∧ record.id = id) }.finish task)

def step : AttachLabel → Option Harness
  | .createVault id =>
    if id ∈ harness.drawn then none
    else some { harness with
      vaults := insert id harness.vaults
      drawn := insert id harness.drawn }
  | .getConversation record =>
    if record ∈ harness.conversations then
      some { harness with handles := record :: harness.handles }
    else none
  | .start task op =>
    if harness.tasks task = none ∧ harness.Starts op then
      some (harness.setTask task (some (.waiting op)))
    else none
  | .lock task =>
    match harness.tasks task, harness.writeLock with
    | some (.waiting op), none =>
      match harness.load op with
      | some stage => some { harness.setTask task (some stage) with writeLock := some task }
      | none => some (harness.finish task)
    | _, _ => none
  | .step task fresh => (harness.tasks task).bind (harness.advance task fresh)
  | .fail task => (harness.tasks task).map fun _ ↦ harness.finish task

end

end Harness

/-- The harness, with any number of calls under way. -/
def attachments : System Harness AttachLabel where
  enabled harness label := (harness.step label).isSome
  next harness label := (harness.step label).getD harness

instance (harness : Harness) (label : AttachLabel) :
    Decidable (attachments.enabled harness label) :=
  inferInstanceAs (Decidable (_ = true))

end Exo.Attachments
