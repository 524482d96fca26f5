import Exo.Attachments.Attach

/-!
# No dangling vaults

Whatever changes a record or deletes a vault has the lock from its first look at what it relies on.
So the vaults that were looked up are still there when the record is put, and no record has come to
list the vault that is deleted.  A fork relies on the list of a handle, which is part of the list of
its thread for as long as the thread is stored.
-/

namespace Exo.Attachments

open Library List Finset System Option

variable {harness after : Harness} {label : AttachLabel} {task : ℕ}

/-! ## The steps -/

variable (harness : Harness) in
/-- The steps that are possible, and what they make of the harness. -/
inductive Harness.Steps : AttachLabel → Harness → Prop
  | createVault {id : VaultId} (hnew : id ∉ harness.drawn) : Steps (.createVault id)
        { harness with vaults := insert id harness.vaults, drawn := insert id harness.drawn }
  | getConversation {record : ConversationRecord} (hrecord : record ∈ harness.conversations) :
      Steps (.getConversation record) { harness with handles := record :: harness.handles }
  | start {task : ℕ} {op : Op} (htask : harness.tasks task = none) (hstarts : harness.Starts op) :
      Steps (.start task op) (harness.setTask task (some (.waiting op)))
  | lock {task : ℕ} {op : Op} {stage : Stage} (htask : harness.tasks task = some (.waiting op))
      (hlock : harness.writeLock = none) (hload : harness.load op = some stage) :
      Steps (.lock task) { harness.setTask task (some stage) with writeLock := some task }
  | stop {task : ℕ} {stage : Stage} (label : AttachLabel)
      (htask : harness.tasks task = some stage) :
      Steps label (harness.finish task)
  | require {task : ℕ} {put : Put} {id : VaultId} {left : List VaultId} (fresh : ℕ)
      (htask : harness.tasks task = some (.requiring put (id :: left)))
      (hid : id ∈ harness.vaults) :
      Steps (.step task fresh) (harness.setTask task (some (.requiring put left)))
  | put {task : ℕ} {put : Put} {fresh : ℕ} (htask : harness.tasks task = some (.requiring put []))
      (hfresh : harness.FreshId fresh) :
      Steps (.step task fresh) ((harness.put fresh put).finish task)
  | list {task : ℕ} {id : VaultId} (fresh : ℕ) (htask : harness.tasks task = some (.listing id)) :
      Steps (.step task fresh) (harness.setTask task (some (.scanning id harness.agents)))
  | scan {task : ℕ} {id : VaultId} {agent : AgentRecord} {agents : List AgentRecord} (fresh : ℕ)
      (htask : harness.tasks task = some (.scanning id (agent :: agents)))
      (hnot : ¬ harness.ListedIn id agent) :
      Steps (.step task fresh) (harness.setTask task (some (.scanning id agents)))
  | delete {task : ℕ} {id : VaultId} (fresh : ℕ)
      (htask : harness.tasks task = some (.scanning id [])) :
      Steps (.step task fresh) ({ harness with vaults := harness.vaults.erase id }.finish task)
  | remove {task : ℕ} {agentId : AgentId} {id : ConversationId} (fresh : ℕ)
      (htask : harness.tasks task = some (.removing agentId id)) :
      Steps (.step task fresh)
        ({ harness with
          conversations := harness.conversations.filter fun record ↦
            ¬ (record.agentId = agentId ∧ record.id = id) }.finish task)

theorem Harness.steps_of_step (hstep : harness.step label = some after) :
    harness.Steps label after := by
  revert hstep
  fun_cases Harness.step harness label <;> intro hstep <;>
    first
    | cases hstep
    | skip
  · exact .createVault ‹_›
  · exact .getConversation ‹_›
  · rename_i hstart
    exact .start hstart.1 hstart.2
  · exact .lock ‹_› ‹_› ‹_›
  · exact .stop _ ‹_›
  · obtain ⟨stage, htask, hadvance⟩ := bind_eq_some_iff.1 hstep
    revert hadvance
    fun_cases Harness.advance harness _ _ stage <;> intro hadvance <;> cases hadvance
    · exact .require _ htask ‹_›
    · exact .stop _ htask
    · exact .put htask ‹_›
    · exact .list _ htask
    · exact .stop _ htask
    · exact .scan _ htask ‹_›
    · exact .delete _ htask
    · exact .remove _ htask
  · obtain ⟨stage, htask, rfl⟩ := map_eq_some_iff.1 hstep
    exact .stop _ htask

theorem Harness.steps_of_enabled (henabled : attachments.enabled harness label) :
    harness.Steps label (attachments.next harness label) :=
  steps_of_step (getD_of_ne_none (isSome_iff_ne_none.1 henabled) _).symm

/-! ## The records -/

/-- The records list existing vaults, and the list of a handle is part of that of its thread. -/
structure Harness.Listed (harness : Harness) : Prop where
  agents : ∀ record ∈ harness.agents, ∀ id ∈ record.vaults, id ∈ harness.vaults
  conversations : ∀ record ∈ harness.conversations, ∀ id ∈ record.vaults, id ∈ harness.vaults
  parents : ∀ record ∈ harness.conversations, harness.HasAgent record.agentId
  handles : ∀ handle ∈ harness.handles, ∀ record ∈ harness.conversations, record.IsOf handle →
    ∀ id ∈ handle.vaults, id ∈ record.vaults
  unique : ∀ record ∈ harness.conversations, ∀ other ∈ harness.conversations,
    record.IsOf other → record = other

variable {record : ConversationRecord} {other : ℕ} {id : VaultId} {stage : Stage}

theorem ConversationRecord.IsOf.symm {other : ConversationRecord} (hof : record.IsOf other) :
    other.IsOf record := ⟨hof.1.symm, hof.2.symm⟩

theorem ConversationRecord.mem_attach {vaults : List VaultId} :
    id ∈ (record.attach vaults).vaults ↔ id ∈ record.vaults ∨ id ∈ vaults := by
  simp only [attach]
  generalize record.vaults = attached
  induction vaults generalizing attached with
  | nil => simp
  | cons vault vaults ih =>
    rw [foldl_cons, ih]
    by_cases hmem : vault ∈ attached
    · rw [if_pos hmem]
      grind
    · rw [if_neg hmem]
      grind

namespace Harness

theorem Listed.putConversation (hlisted : harness.Listed)
    (hvaults : ∀ id ∈ record.vaults, id ∈ harness.vaults)
    (hparent : harness.HasAgent record.agentId)
    (hhandles : ∀ handle ∈ harness.handles, record.IsOf handle →
      ∀ id ∈ handle.vaults, id ∈ record.vaults) : (harness.putConversation record).Listed where
  agents := hlisted.agents
  conversations := by
    intro other hother
    rcases mem_cons.1 hother with heq | hother
    · exact heq ▸ hvaults
    · exact hlisted.conversations other (mem_of_mem_filter hother)
  parents := by
    intro other hother
    rcases mem_cons.1 hother with heq | hother
    · exact heq ▸ hparent
    · exact hlisted.parents other (mem_of_mem_filter hother)
  handles := by
    intro handle hhandle other hother hof id hid
    rcases mem_cons.1 hhandle with heq | hold
    · subst heq
      rcases mem_cons.1 hother with heq | hother
      · exact heq ▸ hid
      · simp [hof] at hother
    · rcases mem_cons.1 hother with heq | hother
      · subst heq
        exact hhandles handle hold hof id hid
      · exact hlisted.handles handle hold other (mem_of_mem_filter hother) hof id hid
  unique := by
    intro first hfirst second hsecond hof
    rcases mem_cons.1 hfirst with heq | hfirst
    · rcases mem_cons.1 hsecond with heq' | hsecond
      · rw [heq, heq']
      · have hof' : second.IsOf record := heq ▸ hof.symm
        simp [hof'] at hsecond
    · rcases mem_cons.1 hsecond with heq | hsecond
      · have hof' : first.IsOf record := heq ▸ hof
        simp [hof'] at hfirst
      · exact hlisted.unique first (mem_of_mem_filter hfirst) second (mem_of_mem_filter hsecond) hof

/-- What a put relies on, when these vaults are still to be looked up. -/
def PutSound (harness : Harness) (left : List VaultId) : Put → Prop
  | .agent vaults => ∀ id ∈ vaults, id ∈ left ∨ id ∈ harness.vaults
  | .conversation agentId vaults =>
    harness.HasAgent agentId ∧ ∀ id ∈ vaults, id ∈ left ∨ id ∈ harness.vaults
  | .attached record vaults =>
    record ∈ harness.conversations ∧ ∀ id ∈ vaults, id ∈ left ∨ id ∈ harness.vaults

theorem Listed.put (hlisted : harness.Listed) {fresh : ℕ} (hfresh : harness.FreshId fresh)
    {put : Put} (hput : harness.PutSound [] put) : (harness.put fresh put).Listed := by
  cases put with
  | agent vaults =>
    have hvaults : ∀ id ∈ vaults, id ∈ harness.vaults := by simpa [PutSound] using hput
    refine ⟨?_, hlisted.conversations, ?_, hlisted.handles, hlisted.unique⟩
    · intro record hrecord
      rcases mem_cons.1 hrecord with heq | hrecord
      · exact heq ▸ hvaults
      · exact hlisted.agents record hrecord
    · intro record hrecord
      obtain ⟨agent, hagent, heq⟩ := hlisted.parents record hrecord
      exact ⟨agent, mem_cons_of_mem _ hagent, heq⟩
  | conversation agentId vaults =>
    obtain ⟨hparent, hvaults⟩ := hput
    refine hlisted.putConversation (by simpa using hvaults) hparent ?_
    intro handle hhandle hof
    exact absurd hof.2.symm (hfresh.2.2 handle hhandle)
  | attached record vaults =>
    obtain ⟨hrecord, hvaults⟩ := hput
    refine hlisted.putConversation ?_ (hlisted.parents record hrecord) ?_
    · intro id hid
      rcases ConversationRecord.mem_attach.1 hid with hid | hid
      · exact hlisted.conversations record hrecord id hid
      · simpa using hvaults id hid
    · intro handle hhandle hof id hid
      have hmem := hlisted.handles handle hhandle record hrecord hof id hid
      exact ConversationRecord.mem_attach.2 (.inl hmem)

/-! ## The calls under way -/

/-- What a call that has the lock has made sure of. -/
def StageSound (harness : Harness) (task : ℕ) : Stage → Prop
  | .waiting (.newConversation agentId _) => harness.HasAgent agentId
  | .waiting (.fork handle) => handle ∈ harness.handles
  | .waiting _ => True
  | .requiring put left => harness.writeLock = some task ∧ harness.PutSound left put
  | .listing _ | .removing _ _ => harness.writeLock = some task
  | .scanning id agents => harness.writeLock = some task ∧
    ∀ agent ∈ harness.agents, agent ∈ agents ∨ ¬ harness.ListedIn id agent

structure Sound (harness : Harness) : Prop where
  listed : harness.Listed
  drawn : ∀ id ∈ harness.vaults, id ∈ harness.drawn
  tasks : ∀ task stage, harness.tasks task = some stage → harness.StageSound task stage

theorem PutSound.mono {put : Put} {left : List VaultId} (hput : harness.PutSound left put)
    (hagents : after.agents = harness.agents)
    (hconversations : after.conversations = harness.conversations)
    (hvaults : harness.vaults ⊆ after.vaults) : after.PutSound left put := by
  cases put with
  | agent vaults => exact fun id hid ↦ (hput id hid).imp_right (@hvaults id)
  | conversation agentId vaults =>
    refine ⟨?_, fun id hid ↦ (hput.2 id hid).imp_right (@hvaults id)⟩
    simpa only [HasAgent, hagents] using hput.1
  | attached record vaults =>
    exact ⟨hconversations ▸ hput.1, fun id hid ↦ (hput.2 id hid).imp_right (@hvaults id)⟩

theorem PutSound.found {put : Put} {left : List VaultId}
    (hput : harness.PutSound (id :: left) put) (hid : id ∈ harness.vaults) :
    harness.PutSound left put := by
  have hleft : ∀ other, other ∈ id :: left ∨ other ∈ harness.vaults →
      other ∈ left ∨ other ∈ harness.vaults := by
    intro other hother
    rcases hother with hmem | hthere
    · rcases mem_cons.1 hmem with heq | hmem
      · exact .inr (heq ▸ hid)
      · exact .inl hmem
    · exact .inr hthere
  cases put with
  | agent vaults => exact fun other hother ↦ hleft other (hput other hother)
  | conversation agentId vaults | attached record vaults =>
    exact ⟨hput.1, fun other hother ↦ hleft other (hput.2 other hother)⟩

theorem StageSound.mono (hstage : harness.StageSound task stage)
    (hagents : after.agents = harness.agents)
    (hconversations : after.conversations = harness.conversations)
    (hvaults : harness.vaults ⊆ after.vaults) (hhandles : harness.handles ⊆ after.handles)
    (hlock : harness.writeLock = some task → after.writeLock = some task) :
    after.StageSound task stage := by
  unfold StageSound at hstage ⊢
  split at hstage
  · simpa only [HasAgent, hagents] using hstage
  · exact hhandles hstage
  · trivial
  · exact ⟨hlock hstage.1, hstage.2.mono hagents hconversations hvaults⟩
  · exact hlock hstage
  · exact hlock hstage
  · refine ⟨hlock hstage.1, ?_⟩
    simpa only [ListedIn, hagents, hconversations] using hstage.2

/-- A step of one call that leaves the records and what the others have. -/
theorem Sound.tasks_of_frame (hsound : harness.Sound)
    (hagents : after.agents = harness.agents)
    (hconversations : after.conversations = harness.conversations)
    (hvaults : harness.vaults ⊆ after.vaults) (hhandles : harness.handles ⊆ after.handles)
    (hlock : ∀ other, other ≠ task → harness.writeLock = some other → after.writeLock = some other)
    (htasks : ∀ other, other ≠ task → after.tasks other = harness.tasks other)
    (hself : ∀ stage, after.tasks task = some stage → after.StageSound task stage) :
    ∀ other stage, after.tasks other = some stage → after.StageSound other stage := by
  intro other stage hstage
  by_cases hother : other = task
  · subst hother
    exact hself stage hstage
  · rw [htasks other hother] at hstage
    exact (hsound.tasks other stage hstage).mono hagents hconversations hvaults hhandles
      (hlock other hother)

/-- A step of the call that has the lock; the others wait. -/
theorem Sound.tasks_of_lock (hsound : harness.Sound) (hlock : harness.writeLock = some task)
    (hagents : ∀ id, harness.HasAgent id → after.HasAgent id)
    (hhandles : harness.handles ⊆ after.handles)
    (htasks : ∀ other, other ≠ task → after.tasks other = harness.tasks other)
    (hself : after.tasks task = none) :
    ∀ other stage, after.tasks other = some stage → after.StageSound other stage := by
  intro other stage hstage
  have hother : other ≠ task := by
    intro heq
    rw [heq, hself] at hstage
    cases hstage
  have hholds : harness.writeLock ≠ some other := by
    rw [hlock]
    exact fun heq ↦ hother (some.inj heq).symm
  rw [htasks other hother] at hstage
  have hbefore := hsound.tasks other stage hstage
  unfold StageSound at hbefore ⊢
  split at hbefore
  · exact hagents _ hbefore
  · exact hhandles hbefore
  · trivial
  · exact absurd hbefore.1 hholds
  · exact absurd hbefore hholds
  · exact absurd hbefore hholds
  · exact absurd hbefore.1 hholds

end Harness

/-! ## The invariant -/

/-- A fork that gets the lock finds the thread of its handle. -/
def ForksLive (harness : Harness) (label : AttachLabel) : Prop :=
  ∀ task handle, label = .lock task → harness.tasks task = some (.waiting (.fork handle)) →
    ∃ record ∈ harness.conversations, record.IsOf handle

namespace Harness

section
variable (harness : Harness)

@[simp]
theorem tasks_setTask_self (task : ℕ) (stage : Option Stage) :
    (harness.setTask task stage).tasks task = stage := by
  simp [setTask]

theorem tasks_setTask_of_ne (stage : Option Stage)
    (hother : other ≠ task) : (harness.setTask task stage).tasks other = harness.tasks other := by
  simp [setTask, hother]

@[simp]
theorem tasks_finish_self (task : ℕ) : (harness.finish task).tasks task = none := by
  simp [finish]

theorem tasks_finish_of_ne (hother : other ≠ task) :
    (harness.finish task).tasks other = harness.tasks other := by
  simp [finish, hother]

theorem writeLock_finish (hother : other ≠ task)
    (hlock : harness.writeLock = some other) : (harness.finish task).writeLock = some other := by
  simp [finish, hlock, hother]

end

/-- What a call starts from when it has the lock. -/
theorem Sound.load (hsound : harness.Sound) {op : Op}
    (htask : harness.tasks task = some (.waiting op)) (hload : harness.load op = some stage)
    (hlive : ForksLive harness (.lock task)) :
    { harness.setTask task (some stage) with writeLock := some task }.StageSound task stage := by
  have hwaiting := hsound.tasks task _ htask
  cases op with
  | newAgent vaults =>
    cases hload
    exact ⟨rfl, fun _ ↦ .inl⟩
  | newConversation agentId vaults =>
    cases hload
    exact ⟨rfl, hwaiting, fun _ ↦ .inl⟩
  | attachVaults handle vaults =>
    obtain ⟨record, hrecord, rfl⟩ := map_eq_some_iff.1 hload
    exact ⟨rfl, mem_of_find?_eq_some hrecord, fun _ ↦ .inl⟩
  | fork handle =>
    obtain ⟨record, hrecord, hof⟩ := hlive task handle rfl htask
    simp only [Harness.load] at hload
    obtain ⟨hagent, hload⟩ := ite_none_right_eq_some.1 hload
    cases hload
    refine ⟨rfl, hagent, fun id hid ↦ .inr ?_⟩
    have hlisted := hsound.listed.handles handle hwaiting record hrecord hof id hid
    exact hsound.listed.conversations record hrecord id hlisted
  | deleteVault id =>
    cases hload
    exact rfl
  | deleteConversation agentId id =>
    cases hload
    exact rfl

/-- No record lists a vault that was not found in any. -/
theorem Listed.not_listed (hlisted : harness.Listed)
    (hscanned : ∀ agent ∈ harness.agents, ¬ harness.ListedIn id agent) :
    (∀ record ∈ harness.agents, id ∉ record.vaults) ∧
      ∀ record ∈ harness.conversations, id ∉ record.vaults := by
  refine ⟨fun record hrecord hid ↦ hscanned record hrecord (.inl hid), ?_⟩
  intro record hrecord hid
  obtain ⟨agent, hagent, heq⟩ := hlisted.parents record hrecord
  exact hscanned agent hagent (.inr ⟨record, hrecord, heq.symm, hid⟩)

theorem Sound.scanned (hsound : harness.Sound)
    (htask : harness.tasks task = some (.scanning id [])) :
    (∀ record ∈ harness.agents, id ∉ record.vaults) ∧
      ∀ record ∈ harness.conversations, id ∉ record.vaults := by
  refine hsound.listed.not_listed fun agent hagent ↦ ?_
  exact ((hsound.tasks task _ htask).2 agent hagent).resolve_left not_mem_nil

section
variable (put : Put) (fresh : ℕ)

theorem hasAgent_put {id : AgentId} (hagent : harness.HasAgent id) :
    (harness.put fresh put).HasAgent id := by
  cases put with
  | agent vaults =>
    obtain ⟨record, hrecord, heq⟩ := hagent
    exact ⟨record, mem_cons_of_mem _ hrecord, heq⟩
  | conversation | attached => exact hagent

theorem handles_put : harness.handles ⊆ (harness.put fresh put).handles := by
  cases put with
  | agent => exact List.Subset.refl _
  | conversation | attached => exact subset_cons_self _ _

@[simp]
theorem vaults_put : (harness.put fresh put).vaults = harness.vaults := by
  cases put <;> rfl

@[simp]
theorem drawn_put : (harness.put fresh put).drawn = harness.drawn := by
  cases put <;> rfl

@[simp]
theorem tasks_put : (harness.put fresh put).tasks = harness.tasks := by
  cases put <;> rfl

end

section
variable (hlisted : harness.Listed)
include hlisted

/-- The stages of the calls do not matter to the records. -/
theorem Listed.setTask (stage : Option Stage) : (harness.setTask task stage).Listed :=
  ⟨hlisted.agents, hlisted.conversations, hlisted.parents, hlisted.handles, hlisted.unique⟩

theorem Listed.finish : (harness.finish task).Listed :=
  ⟨hlisted.agents, hlisted.conversations, hlisted.parents, hlisted.handles, hlisted.unique⟩

theorem Listed.erase (hagents : ∀ record ∈ harness.agents, id ∉ record.vaults)
    (hconversations : ∀ record ∈ harness.conversations, id ∉ record.vaults) :
    { harness with vaults := harness.vaults.erase id }.Listed where
  agents := by
    intro record hrecord other hother
    refine mem_erase.2 ⟨fun heq ↦ ?_, hlisted.agents record hrecord other hother⟩
    exact hagents record hrecord (heq ▸ hother)
  conversations := by
    intro record hrecord other hother
    refine mem_erase.2 ⟨fun heq ↦ ?_, hlisted.conversations record hrecord other hother⟩
    exact hconversations record hrecord (heq ▸ hother)
  parents := hlisted.parents
  handles := hlisted.handles
  unique := hlisted.unique

end

theorem Sound.setTask (hsound : harness.Sound)
    (hstage : (harness.setTask task (some stage)).StageSound task stage) :
    (harness.setTask task (some stage)).Sound where
  listed := hsound.listed.setTask _
  drawn := hsound.drawn
  tasks := by
    refine hsound.tasks_of_frame rfl rfl (Finset.Subset.refl _) (List.Subset.refl _)
      (fun _ _ hlock ↦ hlock) (fun _ ↦ tasks_setTask_of_ne harness (some stage)) ?_
    intro other hother
    rw [tasks_setTask_self] at hother
    exact some.inj hother ▸ hstage

theorem Sound.steps (hsound : harness.Sound) (hlive : ForksLive harness label)
    (hstep : harness.Steps label after) : after.Sound := by
  have hlisted := hsound.listed
  cases hstep with
  | @createVault id hnew =>
    have hsubset : harness.vaults ⊆ insert id harness.vaults := subset_insert id _
    refine ⟨⟨?_, ?_, hlisted.parents, hlisted.handles, hlisted.unique⟩, ?_, ?_⟩
    · exact fun record hrecord other hother ↦ hsubset (hlisted.agents record hrecord other hother)
    · exact fun record hrecord other hother ↦
        hsubset (hlisted.conversations record hrecord other hother)
    · exact fun other hother ↦ insert_subset_insert id hsound.drawn hother
    · exact fun task stage hstage ↦ (hsound.tasks task stage hstage).mono rfl rfl hsubset
        (List.Subset.refl _) (fun hlock ↦ hlock)
  | @getConversation record hrecord =>
    refine ⟨⟨hlisted.agents, hlisted.conversations, hlisted.parents, ?_, hlisted.unique⟩,
      hsound.drawn, ?_⟩
    · intro handle hhandle other hother hof id hid
      rcases mem_cons.1 hhandle with heq | hhandle
      · subst heq
        rwa [hlisted.unique other hother handle hrecord hof]
      · exact hlisted.handles handle hhandle other hother hof id hid
    · exact fun task stage hstage ↦ (hsound.tasks task stage hstage).mono rfl rfl
        (Finset.Subset.refl _) (subset_cons_self _ _) (fun hlock ↦ hlock)
  | @start task op htask hstarts =>
    apply hsound.setTask
    cases op with
    | newConversation | fork => exact hstarts
    | _ => exact trivial
  | @lock task op stage htask hlock hload =>
    have hself := hsound.load htask hload hlive
    refine ⟨⟨hlisted.agents, hlisted.conversations, hlisted.parents, hlisted.handles,
      hlisted.unique⟩, hsound.drawn, ?_⟩
    refine hsound.tasks_of_frame rfl rfl (Finset.Subset.refl _) (List.Subset.refl _) ?_
      (fun _ ↦ tasks_setTask_of_ne harness (some stage)) ?_
    · intro other _ hheld
      rw [hlock] at hheld
      cases hheld
    · intro other hother
      have hstage : stage = other := by simpa [Harness.setTask] using hother
      exact hstage ▸ hself
  | stop _ htask =>
    refine ⟨hlisted.finish, hsound.drawn, ?_⟩
    refine hsound.tasks_of_frame rfl rfl (Finset.Subset.refl _) (List.Subset.refl _)
      (fun _ ↦ writeLock_finish harness) (fun _ ↦ tasks_finish_of_ne harness) ?_
    intro stage hstage
    rw [tasks_finish_self] at hstage
    cases hstage
  | @require task put id left fresh htask hid =>
    obtain ⟨hlock, hput⟩ := hsound.tasks _ _ htask
    apply hsound.setTask
    exact ⟨hlock, hput.found hid⟩
  | @put task put fresh htask hfresh =>
    obtain ⟨hlock, hput⟩ := hsound.tasks _ _ htask
    refine ⟨(hlisted.put hfresh hput).finish, ?_, ?_⟩
    · show ∀ id ∈ (harness.put fresh put).vaults, id ∈ (harness.put fresh put).drawn
      rw [vaults_put, drawn_put]
      exact hsound.drawn
    · refine hsound.tasks_of_lock hlock (fun _ ↦ hasAgent_put put fresh) (handles_put put fresh) ?_
        (tasks_finish_self _ _)
      intro other hother
      rw [tasks_finish_of_ne _ hother, tasks_put]
  | list fresh htask =>
    have hlock := hsound.tasks _ _ htask
    apply hsound.setTask
    exact ⟨hlock, fun agent hagent ↦ .inl hagent⟩
  | scan fresh htask hnot =>
    obtain ⟨hlock, hscanned⟩ := hsound.tasks _ _ htask
    apply hsound.setTask
    refine ⟨hlock, fun agent hagent ↦ ?_⟩
    rcases hscanned agent hagent with hmem | hnot
    · rcases mem_cons.1 hmem with heq | hmem
      · exact .inr (heq ▸ hnot)
      · exact .inl hmem
    · exact .inr hnot
  | @delete task id fresh htask =>
    obtain ⟨hagents, hconversations⟩ := hsound.scanned htask
    refine ⟨(hlisted.erase hagents hconversations).finish, ?_, ?_⟩
    · exact fun other hother ↦ hsound.drawn other (mem_of_mem_erase hother)
    · exact hsound.tasks_of_lock (hsound.tasks _ _ htask).1 (fun _ hagent ↦ hagent)
        (List.Subset.refl _) (fun _ ↦ tasks_finish_of_ne _) (tasks_finish_self _ _)
  | @remove task agentId id fresh htask =>
    refine ⟨⟨hlisted.agents, ?_, ?_, ?_, ?_⟩, hsound.drawn, ?_⟩
    · exact fun record hrecord ↦ hlisted.conversations record (mem_of_mem_filter hrecord)
    · exact fun record hrecord ↦ hlisted.parents record (mem_of_mem_filter hrecord)
    · exact fun handle hhandle record hrecord ↦
        hlisted.handles handle hhandle record (mem_of_mem_filter hrecord)
    · exact fun record hrecord other hother ↦ hlisted.unique record
        (mem_of_mem_filter hrecord) other (mem_of_mem_filter hother)
    · exact hsound.tasks_of_lock (hsound.tasks _ _ htask) (fun _ hagent ↦ hagent)
        (List.Subset.refl _) (fun _ ↦ tasks_finish_of_ne _) (tasks_finish_self _ _)

/-! ## Vaults that are gone -/

/-- No record lists the vault. -/
def Unlisted (harness : Harness) (id : VaultId) : Prop :=
  (∀ record ∈ harness.agents, id ∉ record.vaults) ∧
    ∀ record ∈ harness.conversations, id ∉ record.vaults

end Harness

instance (harness : Harness) (id : VaultId) : Decidable (harness.Unlisted id) :=
  inferInstanceAs (Decidable (_ ∧ _))

section
variable (harness : Harness)

/-- Every vault that a record lists exists. -/
def Harness.NoDangling : Prop :=
  (∀ record ∈ harness.agents, ∀ id ∈ record.vaults, id ∈ harness.vaults) ∧
    ∀ record ∈ harness.conversations, ∀ id ∈ record.vaults, id ∈ harness.vaults

instance (harness : Harness) : Decidable harness.NoDangling := inferInstanceAs (Decidable (_ ∧ _))

/-- A vault that the step deletes is in no record. -/
def DeletesUnlisted (label : AttachLabel) : Prop :=
  ∀ id ∈ harness.vaults, id ∉ (attachments.next harness label).vaults → harness.Unlisted id

/-- The vault was there once and is gone. -/
def Harness.Gone (id : VaultId) : Prop :=
  id ∈ harness.drawn ∧ id ∉ harness.vaults

end

theorem Harness.Sound.noDangling (hsound : harness.Sound) : harness.NoDangling :=
  ⟨hsound.listed.agents, hsound.listed.conversations⟩

theorem Harness.NoDangling.unlisted (hdangling : harness.NoDangling) (hgone : harness.Gone id) :
    harness.Unlisted id :=
  ⟨fun record hrecord hid ↦ hgone.2 (hdangling.1 record hrecord id hid),
    fun record hrecord hid ↦ hgone.2 (hdangling.2 record hrecord id hid)⟩

theorem Harness.Sound.deletesUnlisted (hsound : harness.Sound) (hstep : harness.Steps label after)
    (hid : id ∈ harness.vaults) (hgone : id ∉ after.vaults) : harness.Unlisted id := by
  cases hstep with
  | createVault => exact absurd (mem_insert_of_mem hid) hgone
  | @delete task other fresh htask =>
    by_cases heq : id = other
    · exact heq ▸ hsound.scanned htask
    · exact absurd (mem_erase.2 ⟨heq, hid⟩) hgone
  | @put task put fresh =>
    have hthere : id ∈ (harness.put fresh put).vaults := by rwa [vaults_put]
    exact absurd hthere hgone
  | _ => exact absurd hid hgone

theorem Harness.Gone.steps (hgone : harness.Gone id) (hstep : harness.Steps label after) :
    after.Gone id := by
  obtain ⟨hdrawn, hvaults⟩ := hgone
  cases hstep with
  | @createVault other hnew =>
    refine ⟨mem_insert_of_mem hdrawn, fun hmem ↦ ?_⟩
    rcases mem_insert.1 hmem with heq | hmem
    · exact hnew (heq ▸ hdrawn)
    · exact hvaults hmem
  | delete => exact ⟨hdrawn, fun hmem ↦ hvaults (mem_of_mem_erase hmem)⟩
  | @put task put fresh =>
    refine ⟨?_, ?_⟩
    · show id ∈ (harness.put fresh put).drawn
      rwa [drawn_put]
    · show id ∉ (harness.put fresh put).vaults
      rwa [vaults_put]
  | _ => exact ⟨hdrawn, hvaults⟩

/-! ## Runs in which threads stay -/

/-- No thread is deleted. -/
def AttachLabel.KeepsThreads : AttachLabel → Prop
  | .start _ (.deleteConversation _ _) => False
  | _ => True

instance : DecidablePred AttachLabel.KeepsThreads := fun label ↦ by
  unfold AttachLabel.KeepsThreads
  split <;> infer_instance

def Stage.KeepsThreads : Stage → Prop
  | .waiting (.deleteConversation _ _) | .removing _ _ => False
  | _ => True

/-- The thread of every handle is stored, and no call is about to delete one. -/
structure Harness.Kept (harness : Harness) : Prop where
  handles : ∀ handle ∈ harness.handles, ∃ record ∈ harness.conversations, record.IsOf handle
  tasks : ∀ task stage, harness.tasks task = some stage → stage.KeepsThreads

section
variable (hkept : harness.Kept)
include hkept

theorem Harness.Kept.setTask (hstage : stage.KeepsThreads) :
    (harness.setTask task (some stage)).Kept where
  handles := hkept.handles
  tasks := by
    intro other stage' hother
    by_cases heq : other = task
    · rw [heq, tasks_setTask_self] at hother
      exact some.inj hother ▸ hstage
    · rw [tasks_setTask_of_ne harness _ heq] at hother
      exact hkept.tasks other stage' hother

theorem Harness.Kept.finish : (harness.finish task).Kept where
  handles := hkept.handles
  tasks := by
    intro other stage hother
    by_cases heq : other = task
    · rw [heq, tasks_finish_self] at hother
      cases hother
    · rw [tasks_finish_of_ne harness heq] at hother
      exact hkept.tasks other stage hother

theorem Harness.Kept.putConversation (record : ConversationRecord) :
    (harness.putConversation record).Kept where
  handles := by
    intro handle hhandle
    rcases mem_cons.1 hhandle with heq | hhandle
    · exact ⟨record, mem_cons_self, heq ▸ ⟨rfl, rfl⟩⟩
    · obtain ⟨other, hother, hof⟩ := hkept.handles handle hhandle
      by_cases hsame : other.IsOf record
      · exact ⟨record, mem_cons_self, hsame.1.symm.trans hof.1, hsame.2.symm.trans hof.2⟩
      · have hstays : other ∈ harness.conversations.filter fun other ↦ ¬ other.IsOf record :=
          mem_filter.2 ⟨hother, by simpa using hsame⟩
        exact ⟨other, mem_cons_of_mem _ hstays, hof⟩
  tasks := hkept.tasks

theorem Harness.Kept.put (put : Put) (fresh : ℕ) : (harness.put fresh put).Kept := by
  cases put with
  | agent vaults => exact ⟨hkept.handles, hkept.tasks⟩
  | conversation agentId vaults => exact hkept.putConversation _
  | attached record vaults => exact hkept.putConversation _

theorem Harness.Kept.load {op : Op} (htask : harness.tasks task = some (.waiting op))
    (hload : harness.load op = some stage) : stage.KeepsThreads := by
  have hop := hkept.tasks task _ htask
  cases op with
  | newAgent | newConversation | deleteVault =>
    cases hload
    trivial
  | deleteConversation => exact absurd hop id
  | attachVaults handle vaults =>
    obtain ⟨record, -, rfl⟩ := map_eq_some_iff.1 hload
    trivial
  | fork handle =>
    simp only [Harness.load] at hload
    split at hload <;> cases hload
    trivial

theorem Harness.Kept.steps (hkeeps : label.KeepsThreads) (hstep : harness.Steps label after) :
    after.Kept := by
  cases hstep with
  | createVault => exact ⟨hkept.handles, hkept.tasks⟩
  | @getConversation record hrecord =>
    refine ⟨fun handle hhandle ↦ ?_, hkept.tasks⟩
    rcases mem_cons.1 hhandle with heq | hhandle
    · exact ⟨record, hrecord, heq ▸ ⟨rfl, rfl⟩⟩
    · exact hkept.handles handle hhandle
  | @start task op =>
    apply hkept.setTask
    cases op with
    | deleteConversation => exact hkeeps
    | _ => trivial
  | @lock task op stage htask _ hload =>
    have hnext : (harness.setTask task (some stage)).Kept :=
      hkept.setTask (hkept.load htask hload)
    exact ⟨hnext.handles, hnext.tasks⟩
  | stop => exact hkept.finish
  | require | list | scan => exact hkept.setTask trivial
  | put => exact (hkept.put _ _).finish
  | delete => exact Harness.Kept.finish ⟨hkept.handles, hkept.tasks⟩
  | remove _ htask => exact absurd (hkept.tasks _ _ htask) id

theorem Harness.Kept.forksLive (hsound : harness.Sound) : ForksLive harness label := by
  intro task handle _ htask
  exact hkept.handles handle (hsound.tasks task _ htask)

end

section Runs
variable {labels : List AttachLabel}

theorem Harness.sound_empty : Harness.empty.Sound where
  listed := by constructor <;> simp [empty]
  drawn := fun _ hid ↦ hid
  tasks := nofun

theorem Harness.kept_empty : Harness.empty.Kept where
  handles := by simp [empty]
  tasks := nofun

/-- The harness, with calls that keep the threads. -/
def keeping : System Harness AttachLabel := attachments.restrict fun _ label ↦ label.KeepsThreads

instance (harness : Harness) (label : AttachLabel) : Decidable (keeping.enabled harness label) :=
  inferInstanceAs (Decidable (_ ∧ _))

theorem Harness.keeping_next (hsound : harness.Sound ∧ harness.Kept)
    (henabled : keeping.enabled harness label) :
    (keeping.next harness label).Sound ∧ (keeping.next harness label).Kept := by
  have hstep := steps_of_enabled henabled.1
  exact ⟨hsound.1.steps (hsound.2.forksLive hsound.1) hstep, hsound.2.steps henabled.2 hstep⟩

theorem Harness.Gone.exec {id : VaultId} (hgone : harness.Gone id)
    (hrun : keeping.Admits harness labels) : (keeping.exec harness labels).Gone id := by
  refine invariant (fun harness ↦ harness.Gone id) ?_ hgone hrun
  exact fun harness label hgone henabled ↦ hgone.steps (steps_of_enabled henabled.1)

/-- In every run every vault that a record lists exists, a vault is deleted only if no record lists
it, and none lists it afterwards. -/
theorem no_dangling_vaults (hrun : keeping.Admits .empty labels) :
    (keeping.exec .empty labels).NoDangling ∧
      keeping.Throughout DeletesUnlisted .empty labels ∧
      ∀ before rest, labels = before ++ rest → ∀ id, (keeping.exec .empty before).Gone id →
        (keeping.exec .empty labels).Gone id ∧ (keeping.exec .empty labels).Unlisted id := by
  have hinit := And.intro Harness.sound_empty Harness.kept_empty
  have hsound := invariant (fun harness ↦ harness.Sound ∧ harness.Kept)
    (fun _ _ ↦ Harness.keeping_next) hinit hrun
  refine ⟨hsound.1.noDangling, ?_, ?_⟩
  · refine throughout_of_invariant (fun harness ↦ harness.Sound ∧ harness.Kept)
      (fun _ _ ↦ Harness.keeping_next) ?_ hinit hrun
    exact fun harness label hsound henabled id hid hgone ↦
      hsound.1.deletesUnlisted (Harness.steps_of_enabled henabled.1) hid hgone
  · intro before rest hlabels id hgone
    subst hlabels
    rw [admits_append] at hrun
    rw [exec_append] at hsound ⊢
    have hstill := hgone.exec hrun.2
    exact ⟨hstill, hsound.1.noDangling.unlisted hstill⟩

end Runs

/-- A thread is made with a vault, while a deletion of the vault waits for the lock. -/
def racingRun : List AttachLabel :=
  [.createVault 1, .start 0 (.newAgent []), .lock 0, .step 0 7, .start 1 (.newConversation 7 [1]),
    .lock 1, .start 2 (.deleteVault 1), .step 1 8, .step 1 8, .lock 2, .step 2 0, .step 2 0,
    .start 3 (.fork ⟨7, 8, [1]⟩), .lock 3, .step 3 9]

theorem no_dangling_vaults_racing :
    keeping.Admits .empty racingRun ∧ (keeping.exec .empty racingRun).NoDangling ∧
      (keeping.exec .empty racingRun).vaults = {1} ∧
      (keeping.exec .empty racingRun).conversations = [⟨7, 9, [1]⟩, ⟨7, 8, [1]⟩] := by
  have hrun : keeping.Admits .empty racingRun := by decide +kernel
  exact ⟨hrun, (no_dangling_vaults hrun).1, by decide +kernel, by decide +kernel⟩

end Exo.Attachments
