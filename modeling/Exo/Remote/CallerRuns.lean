import Exo.Remote.Isolation

/-!
# Runs with callers

What isolates callers holds of the state behind the lock and of the one that is saved, whatever
fails and whenever the server is restarted.
-/

namespace Exo.Remote

open Library Vault List
open Egress.Runtime (ResourceScope)

variable {server after : AccessServer} {label : AccessLabel} {base : Server}
  {policy : Policy} {state next : State}

/-! ## Accounts -/

/-- The two states have the same accounts. -/
structure State.SameAccounts (state next : State) : Prop where
  principals : next.principals = state.principals
  owner : next.owner = state.owner
  deployment : next.deployment = state.deployment

theorem State.SameAccounts.accounts (hsame : state.SameAccounts next) :
    next.accounts = state.accounts := congrArg values hsame.principals

theorem State.SameAccounts.bound {ownerEmail : String} (hsame : state.SameAccounts next)
    (hbound : state.Bound ownerEmail) : next.Bound ownerEmail := by
  obtain ⟨hkeyed, hlower, howner, hemail, hsubject, hvault⟩ := hbound
  constructor
  · rwa [hsame.principals]
  · rwa [hsame.accounts]
  · rwa [hsame.accounts, hsame.owner]
  · rwa [hsame.accounts]
  · rwa [hsame.accounts]
  · rwa [hsame.accounts]

theorem Task.isIdle_iff {task : Task} : task.isIdle = true ↔ task = .idle := by
  cases task <;> simp [isIdle]

/-- A save of other things than accounts. -/
theorem AccessServer.sound_commit (hsound : server.base.Sound)
    (hidle : server.base.task.isIdle = true) (hsame : server.state.SameAccounts next)
    (outcome : Outcome) : (server.commit outcome next).base.Sound := by
  obtain ⟨hstored, hsaved, hkept, howner, hdeployment, -⟩ := hsound
  have hnext := hsame.bound hstored
  have htask : server.base.task = .idle := Task.isIdle_iff.1 hidle
  have haccounts : next.accounts = server.base.stored.accounts := hsame.accounts
  have hdeployed : next.deployment = server.base.config.deployment :=
    hsame.deployment.trans hdeployment.2
  cases outcome with
  | done =>
    refine ⟨hnext, hnext, fun _ ↦ id, rfl, ⟨hdeployed, hdeployed⟩, ?_⟩
    simp [Server.TaskSound, commit, htask]
  | failed message written =>
    cases written with
    | false =>
      refine ⟨hstored, hsaved, hkept, howner, hdeployment, ?_⟩
      simp [Server.TaskSound, commit, htask]
    | true =>
      refine ⟨hstored, hnext, fun _ hp ↦ haccounts ▸ hp, hsame.owner,
        ⟨hdeployed, hdeployment.2⟩, ?_⟩
      simp [Server.TaskSound, commit, htask]

variable {config : AuthConfig} {call : ℕ} {stage : Option AccessCall} {principal name : String}
  {scope : ResourceScope} {id : VaultId} {catalog : Catalog Unit} {record : VaultRecord}

theorem openStore_checks (hopen : openStore config state = Except.ok next) :
    state.deployment = config.deployment ∧ ∀ account,
      state.principals[state.owner]? = some account →
        eqIgnoreAsciiCase config.ownerEmail account.email = true := by
  simp only [openStore, bind_eq_ok, ensure_eq_ok, beq_iff_eq] at hopen
  obtain ⟨_, hdeployment, _, howner, -⟩ := hopen
  refine ⟨hdeployment, fun account haccount ↦ ?_⟩
  rw [haccount, Option.all_some] at howner
  rwa [eqIgnoreAsciiCase_comm]

/-- The server is started with another configuration. -/
theorem Server.Sound.restart (hsound : base.Sound)
    (hopen : Remote.openStore config base.saved = Except.ok base.saved) :
    Server.Sound { base with config, stored := base.saved, task := .idle } := by
  obtain ⟨hdeployment, howner⟩ := openStore_checks hopen
  have hsaved := hsound.saved
  have hbound : base.saved.Bound config.ownerEmail := by
    refine ⟨hsaved.keyed, hsaved.lower, ?_, hsaved.email, hsaved.subject, hsaved.vault⟩
    intro account haccount hid
    apply howner account
    rw [← hid]
    exact hsaved.getElem? haccount
  exact ⟨hbound, hbound, fun _ ↦ id, rfl, ⟨hdeployment, hdeployment⟩, trivial⟩

/-! ## The invariant -/

/-- The account that an enrolment under way is to save or has tried to. -/
def Task.account : Task → Option Principal
  | .saving account | .rollingBack account _ => some account
  | _ => none

structure AccessServer.Sound (server : AccessServer) : Prop where
  base : server.base.Sound
  stored : server.base.stored.Isolates server.history server.calls
  saved : server.base.saved.Isolates server.history server.calls
  created : ∀ entry ∈ server.history.created, server.history.Knows entry.1
  once : (server.history.created.map Prod.fst).Nodup
  records : ∀ record ∈ server.records, record.scope ∈ server.history.created.map Prod.fst
  /-- A resource is claimed by one call, and its record is not there yet. -/
  claimed : ∀ call principal scope vaults,
    server.calls call = some (.claimed principal scope vaults) →
      server.history.Knows scope ∧ scope ∉ server.history.created.map Prod.fst ∧
        ∀ other principal' vaults',
          server.calls other = some (.claimed principal' scope vaults') → other = call
  vaults : ∀ record ∈ server.vaultRecords, record.id ∈ server.history.drawn
  made : ∀ call principal id name, server.calls call = some (.vaultMade principal id name) →
    id ∈ server.history.drawn ∧ ∀ account ∈ server.base.task.account, account.vault ≠ id
  task : ∀ account ∈ server.base.task.account,
    account.vault ∈ server.history.drawn ∧ account.vault ∉ server.base.stored.sharedVaults

theorem AccessServer.sound_new (config : AuthConfig) (multiplayer : Bool) (owner : String)
    (authVault : VaultId) : (AccessServer.new config multiplayer owner authVault).Sound := by
  refine ⟨Server.sound_new _ _ _, ?_, ?_, ?_, ?_, ?_, ?_, ?_, ?_, ?_⟩
  all_goals simp [new, Server.new, newState, vaultRecords, Task.account]
  all_goals constructor <;> simp [State.accounts, values]

theorem AccessServer.calls_setCall_eq {other : ℕ} {stage' : AccessCall}
    (hother : (server.setCall call stage).calls other = some stage') :
    other = call ∧ stage = some stage' ∨ other ≠ call ∧ server.calls other = some stage' := by
  by_cases heq : other = call
  · subst heq
    exact .inl ⟨rfl, by simpa [setCall] using hother⟩
  · exact .inr ⟨heq, by simpa [setCall, heq] using hother⟩

/-- The calls that something depends on are as before. -/
structure CallsFrom (before after : ℕ → Option AccessCall) : Prop where
  claimed : ∀ call principal scope vaults,
    after call = some (.claimed principal scope vaults) →
      before call = some (.claimed principal scope vaults)
  made : ∀ call principal id name, after call = some (.vaultMade principal id name) →
    before call = some (.vaultMade principal id name)

theorem CallsFrom.refl (calls : ℕ → Option AccessCall) : CallsFrom calls calls :=
  ⟨fun _ _ _ _ ↦ id, fun _ _ _ _ ↦ id⟩

theorem AccessServer.callsFrom_setCall
    (hclaimed : ∀ principal scope vaults, stage ≠ some (.claimed principal scope vaults))
    (hmade : ∀ principal id name, stage ≠ some (.vaultMade principal id name)) :
    CallsFrom server.calls (server.setCall call stage).calls := by
  constructor
  · intro other principal scope vaults hother
    rcases calls_setCall_eq hother with hnew | hold
    · exact absurd hnew.2 (hclaimed principal scope vaults)
    · exact hold.2
  · intro other principal id name hother
    rcases calls_setCall_eq hother with hnew | hold
    · exact absurd hnew.2 (hmade principal id name)
    · exact hold.2

/-- A step that leaves the states and what was created alone. -/
theorem AccessServer.Sound.mono (hsound : server.Sound) (hbase : after.base.Sound)
    (hstored : after.base.stored = server.base.stored)
    (hsaved : after.base.saved = server.base.saved)
    (htask : ∀ account ∈ after.base.task.account, account ∈ server.base.task.account)
    (hdrawn : server.history.drawn ⊆ after.history.drawn)
    (hcreated : after.history.created = server.history.created)
    (hcalls : CallsFrom server.calls after.calls)
    (hrecords : ∀ record ∈ after.records, ∃ other ∈ server.records, record.scope = other.scope)
    (hvaults : ∀ record ∈ after.vaultRecords,
      record.id ∈ after.history.drawn ∨ record ∈ server.vaultRecords) : after.Sound where
  base := hbase
  stored := by
    rw [hstored]
    exact hsound.stored.mono hdrawn hcreated hcalls.claimed hcalls.made
  saved := by
    rw [hsaved]
    exact hsound.saved.mono hdrawn hcreated hcalls.claimed hcalls.made
  created := by
    rw [hcreated]
    intro entry hentry
    have hknown := hsound.created entry hentry
    exact ⟨hknown.1, hdrawn hknown.2⟩
  once := by
    rw [hcreated]
    exact hsound.once
  records := by
    intro record hrecord
    obtain ⟨other, hother, heq⟩ := hrecords record hrecord
    rw [heq, hcreated]
    exact hsound.records other hother
  claimed := by
    intro call principal scope vaults hcall
    obtain ⟨hknown, hnew, hone⟩ :=
      hsound.claimed call principal scope vaults (hcalls.claimed _ _ _ _ hcall)
    rw [hcreated]
    exact ⟨⟨hknown.1, hdrawn hknown.2⟩, hnew,
      fun other _ _ hother ↦ hone other _ _ (hcalls.claimed _ _ _ _ hother)⟩
  vaults := by
    intro record hrecord
    exact (hvaults record hrecord).elim (fun hnew ↦ hnew)
      (fun hold ↦ hdrawn (hsound.vaults record hold))
  made := by
    intro call principal id name hcall
    obtain ⟨hmem, hothers⟩ := hsound.made call principal id name (hcalls.made _ _ _ _ hcall)
    exact ⟨hdrawn hmem, fun account haccount ↦ hothers account (htask account haccount)⟩
  task := by
    intro account haccount
    obtain ⟨hmem, hshared⟩ := hsound.task account (htask account haccount)
    exact ⟨hdrawn hmem, hstored ▸ hshared⟩

/-! ## The steps -/

theorem AccessServer.Sound.draw (hsound : server.Sound) (ids : List ℕ) : (server.draw ids).Sound :=
  hsound.mono hsound.base rfl rfl (fun _ ↦ id) (subset_append_right _ _) rfl
    (.refl _) (fun record hrecord ↦ ⟨record, hrecord, rfl⟩) (fun _ hrecord ↦ .inr hrecord)

theorem AccessServer.Sound.setCall (hsound : server.Sound)
    (hclaimed : ∀ principal scope vaults, stage ≠ some (.claimed principal scope vaults))
    (hmade : ∀ principal id name, stage ≠ some (.vaultMade principal id name)) :
    (server.setCall call stage).Sound :=
  hsound.mono hsound.base rfl rfl (fun _ ↦ id) (List.Subset.refl _) rfl
    (callsFrom_setCall hclaimed hmade) (fun record hrecord ↦ ⟨record, hrecord, rfl⟩)
    (fun _ hrecord ↦ .inr hrecord)

theorem AccessServer.Sound.commit (hsound : server.Sound)
    (hidle : server.base.task.isIdle = true) (hsame : server.state.SameAccounts next)
    (hnext : next.Isolates server.history server.calls) (outcome : Outcome) :
    (server.commit outcome next).Sound := by
  have htask : server.base.task.account = none := by
    rw [Task.isIdle_iff.1 hidle]
    rfl
  refine ⟨sound_commit hsound.base hidle hsame outcome, ?_, ?_, hsound.created, hsound.once,
    hsound.records, hsound.claimed, hsound.vaults, hsound.made, ?_⟩
  · cases outcome with
    | done => exact hnext
    | failed message written => exact hsound.stored
  · cases outcome with
    | done => exact hnext
    | failed message written =>
      cases written with
      | false => exact hsound.saved
      | true => exact hnext
  · intro account haccount
    have haccount : account ∈ server.base.task.account := haccount
    rw [htask] at haccount
    cases haccount

theorem Policy.created_same (hcreated : policy.created principal scope state = Except.ok next) :
    state.SameAccounts next := by
  obtain rfl := created_ok hcreated
  exact ⟨rfl, rfl, rfl⟩

theorem Policy.vaultCreated_same
    (hcreated : policy.vaultCreated principal id name state = Except.ok next) :
    state.SameAccounts next := by
  obtain rfl := vaultCreated_ok hcreated
  exact ⟨rfl, rfl, rfl⟩

theorem Policy.adopt_same {scopes : List ResourceScope} {vaults : List VaultRecord}
    (hadopt : policy.adopt scopes vaults state = Except.ok next) : state.SameAccounts next := by
  obtain ⟨_, _, rfl, -⟩ := adopt_ok hadopt
  exact ⟨rfl, rfl, rfl⟩

namespace AccessServer

/-- A resource of which nothing is known yet. -/
theorem Sound.isolates_created (hsound : server.Sound) (hvalid : ValidScope scope)
    (hfresh : scopeId scope ∉ server.history.drawn)
    (hcreated : server.policy.created principal scope server.state = Except.ok next) :
    next.Isolates (server.draw [scopeId scope]).history (server.draw [scopeId scope]).calls := by
  obtain rfl := Policy.created_ok hcreated
  have hne : ∀ other, server.history.Knows other → other ≠ scope := by
    intro other hknown heq
    exact hfresh (heq ▸ hknown.2)
  apply (hsound.draw [scopeId scope]).stored.created ⟨hvalid, mem_cons_self⟩
  · intro entry hentry
    have hknown := hsound.created entry hentry
    exact ⟨hknown.1, hne _ hknown⟩
  · intro call owner other vaults hcall
    have hknown := (hsound.claimed call owner other vaults hcall).1
    exact ⟨hknown.1, hne _ hknown⟩

theorem Sound.claim (hsound : server.Sound) {vaults : List VaultId}
    (hknown : server.history.Knows scope)
    (hstored : server.base.stored.owners[key scope]? = some principal)
    (hsaved : server.base.saved.owners[key scope]? = some principal)
    (hcreated : scope ∉ server.history.created.map Prod.fst) (hclaimed : ∀ other principal' vaults',
      server.calls other ≠ some (.claimed principal' scope vaults')) :
    (server.setCall call (some (.claimed principal scope vaults))).Sound := by
  -- a claimed resource is that of this call, or one that another call has
  have hcalls : ∀ other principal' scope' vaults',
      (server.setCall call (some (.claimed principal scope vaults))).calls other =
        some (.claimed principal' scope' vaults') →
      (other = call ∧ principal' = principal ∧ scope' = scope) ∨
        server.calls other = some (.claimed principal' scope' vaults') := by
    intro other principal' scope' vaults' hother
    rcases calls_setCall_eq hother with hnew | hold
    · obtain ⟨heq, hstage⟩ := hnew
      cases hstage
      exact .inl ⟨heq, rfl, rfl⟩
    · exact .inr hold.2
  have hmade : ∀ other principal' id name,
      (server.setCall call (some (.claimed principal scope vaults))).calls other =
        some (.vaultMade principal' id name) →
      server.calls other = some (.vaultMade principal' id name) := by
    intro other principal' id name hother
    rcases calls_setCall_eq hother with hnew | hold
    · cases hnew.2
    · exact hold.2
  have hisolates : ∀ state : State, state.Isolates server.history server.calls →
      state.owners[key scope]? = some principal →
      state.Isolates server.history
        (server.setCall call (some (.claimed principal scope vaults))).calls := by
    intro state hstate howner
    refine ⟨hstate.personal, hstate.shared, hstate.keyed, hstate.owned, hstate.unowned, ?_, ?_⟩
    · intro other principal' scope' vaults' hother
      rcases hcalls other principal' scope' vaults' hother with hnew | hold
      · obtain ⟨-, rfl, rfl⟩ := hnew
        exact howner
      · exact hstate.claimed other principal' scope' vaults' hold
    · exact fun other principal' id name hother ↦
        hstate.made other principal' id name (hmade _ _ _ _ hother)
  refine ⟨hsound.base, hisolates _ hsound.stored hstored, hisolates _ hsound.saved hsaved,
    hsound.created, hsound.once, hsound.records, ?_, hsound.vaults, ?_, hsound.task⟩
  · intro other principal' scope' vaults' hother
    rcases hcalls other principal' scope' vaults' hother with hnew | hold
    · obtain ⟨rfl, rfl, rfl⟩ := hnew
      refine ⟨hknown, hcreated, fun another principal' vaults' hanother ↦ ?_⟩
      rcases hcalls another principal' scope' vaults' hanother with hnew | hold
      · exact hnew.1
      · exact absurd hold (hclaimed _ _ _)
    · obtain ⟨hknows, hnew, hone⟩ := hsound.claimed other principal' scope' vaults' hold
      refine ⟨hknows, hnew, fun another principal'' vaults'' hanother ↦ ?_⟩
      rcases hcalls another principal'' scope' vaults'' hanother with hnew | hold'
      · obtain ⟨-, -, rfl⟩ := hnew
        exact absurd hold (hclaimed _ _ _)
      · exact hone another _ _ hold'
  · exact fun other principal' id name hother ↦
      hsound.made other principal' id name (hmade _ _ _ _ hother)

theorem Sound.put (hsound : server.Sound) {vaults : List VaultId} (outcome : Outcome)
    (hcall : server.calls call = some (.claimed principal scope vaults)) :
    Sound { server.setCall call none with
      records := outcome.leaves server.records (server.records ++ [⟨scope, vaults⟩])
      history := { server.history with
        created := outcome.leaves server.history.created
          ((scope, some principal) :: server.history.created) } } := by
  obtain ⟨hknown, hnew, hone⟩ := hsound.claimed call principal scope vaults hcall
  have hcalls : CallsFrom server.calls (server.setCall call none).calls :=
    callsFrom_setCall (by simp) (by simp)
  have hleft : Sound { server.setCall call none with
      records := server.records
      history := { server.history with created := server.history.created } } :=
    hsound.setCall (by simp) (by simp)
  have hput : Sound { server.setCall call none with
      records := server.records ++ [⟨scope, vaults⟩]
      history := { server.history with
        created := (scope, some principal) :: server.history.created } } := by
    refine ⟨hsound.base, hsound.stored.put hcall hcalls.claimed hcalls.made,
      hsound.saved.put hcall hcalls.claimed hcalls.made, ?_, ?_, ?_, ?_, hsound.vaults, ?_,
      hsound.task⟩
    · intro entry hentry
      rcases mem_cons.1 hentry with heq | hentry
      · subst heq
        exact hknown
      · exact hsound.created entry hentry
    · exact nodup_cons.2 ⟨hnew, hsound.once⟩
    · intro record hrecord
      rcases mem_append.1 hrecord with hold | hnew
      · exact mem_cons_of_mem _ (hsound.records record hold)
      · obtain rfl := mem_singleton.1 hnew
        exact mem_cons_self
    · intro other principal' scope' vaults' hother
      rcases calls_setCall_eq hother with hstage | hold
      · cases hstage.2
      · obtain ⟨hknows', hnew', hone'⟩ := hsound.claimed other principal' scope' vaults' hold.2
        refine ⟨hknows', fun hmem ↦ ?_, fun another _ _ hanother ↦
          hone' another _ _ (hcalls.claimed _ _ _ _ hanother)⟩
        rcases mem_cons.1 hmem with heq | hmem
        · obtain rfl : scope' = scope := heq
          exact hold.1 (hone other principal' vaults' hold.2)
        · exact hnew' hmem
    · exact fun other principal' id name hother ↦
        hsound.made other principal' id name (hcalls.made _ _ _ _ hother)
  cases outcome with
  | done => exact hput
  | failed message written =>
    cases written with
    | true => exact hput
    | false => exact hleft

end AccessServer

/-! ## Vaults -/

theorem mem_pushVault {vault : StoredVault Unit}
    (hrecord : record ∈ (catalog.pushVault vault).vaults.map (·.record)) :
    record = vault.record ∨ record ∈ catalog.vaults.map (·.record) := by
  rw [Catalog.pushVault, map_append, mem_append] at hrecord
  rcases hrecord with hold | hnew
  · exact .inr hold
  · exact .inl (mem_singleton.1 hnew)

theorem createVault_records {draw : Draw}
    (hrecord : record ∈ ((createVault draw name).runOn catalog).2.vaults.map (·.record)) :
    record.id = draw.id ∨ record ∈ catalog.vaults.map (·.record) := by
  simp only [createVault, create, InPlace.runOn_bind, InPlace.runOn_check, InPlace.runOn_look,
    InPlace.runOn_update, InPlace.runOn_pure] at hrecord
  split at hrecord
  case h_2 heq =>
    obtain ⟨-, rfl⟩ := Prod.mk.inj heq
    exact .inr hrecord
  case h_1 heq =>
    obtain ⟨-, rfl⟩ := Prod.mk.inj heq
    split at hrecord
    case h_2 heq =>
      obtain ⟨-, rfl⟩ := Prod.mk.inj heq
      exact .inr hrecord
    case h_1 heq =>
      obtain ⟨-, rfl⟩ := Prod.mk.inj heq
      exact (mem_pushVault hrecord).imp_left fun hnew ↦ congrArg VaultRecord.id hnew

theorem AccessServer.Sound.setVaults (hsound : server.Sound) {vaults : Catalog Unit}
    (hvaults : ∀ record ∈ vaults.vaults.map (·.record),
      record.id ∈ server.history.drawn ∨ record ∈ server.vaultRecords) :
    (server.setVaults vaults).Sound := by
  obtain ⟨hstored, hsaved, hkept, howner, hdeployment, htask⟩ := hsound.base
  exact hsound.mono ⟨hstored, hsaved, hkept, howner, hdeployment, htask⟩ rfl rfl
    (fun _ ↦ id) (List.Subset.refl _) rfl (.refl _)
    (fun record hrecord ↦ ⟨record, hrecord, rfl⟩) hvaults

theorem mem_removeVault (hrecord : record ∈ (catalog.removeVault id).vaults.map (·.record)) :
    record ∈ catalog.vaults.map (·.record) := by
  obtain ⟨vault, hvault, rfl⟩ := mem_map.1 hrecord
  exact mem_map.2 ⟨vault, (mem_filter.1 hvault).1, rfl⟩

theorem mem_leaves_removeVault {outcome : Outcome}
    (hrecord : record ∈ (outcome.leaves catalog (catalog.removeVault id)).vaults.map (·.record)) :
    record ∈ catalog.vaults.map (·.record) := by
  cases outcome with
  | done => exact mem_removeVault hrecord
  | failed message written =>
    cases written with
    | true => exact mem_removeVault hrecord
    | false => exact hrecord

theorem AccessServer.Sound.dropVault (hsound : server.Sound) (id : VaultId) (outcome : Outcome) :
    (server.dropVault id outcome).Sound := by
  unfold AccessServer.dropVault
  split
  case h_1 => exact hsound
  case h_2 vaults hrun =>
    obtain rfl := deleteVault_run hrun
    exact hsound.setVaults fun record hrecord ↦ .inr (mem_leaves_removeVault hrecord)

theorem AccessServer.Sound.make (hsound : server.Sound) (hdrawn : id ∈ server.history.drawn)
    (hstored : ∀ account ∈ server.base.stored.accounts, account.vault ≠ id)
    (hsaved : ∀ account ∈ server.base.saved.accounts, account.vault ≠ id)
    (htask : ∀ account ∈ server.base.task.account, account.vault ≠ id) :
    (server.setCall call (some (.vaultMade principal id name))).Sound := by
  have hcalls : ∀ other principal' id' name',
      (server.setCall call (some (.vaultMade principal id name))).calls other =
        some (.vaultMade principal' id' name') →
      id' = id ∨ server.calls other = some (.vaultMade principal' id' name') := by
    intro other principal' id' name' hother
    rcases calls_setCall_eq hother with hnew | hold
    · cases hnew.2
      exact .inl rfl
    · exact .inr hold.2
  have hclaimed : ∀ other principal' scope vaults,
      (server.setCall call (some (.vaultMade principal id name))).calls other =
        some (.claimed principal' scope vaults) →
      server.calls other = some (.claimed principal' scope vaults) := by
    intro other principal' scope vaults hother
    rcases calls_setCall_eq hother with hnew | hold
    · cases hnew.2
    · exact hold.2
  have hisolates : ∀ state : State, state.Isolates server.history server.calls →
      (∀ account ∈ state.accounts, account.vault ≠ id) →
      state.Isolates server.history
        (server.setCall call (some (.vaultMade principal id name))).calls := by
    intro state hstate haccounts
    refine ⟨hstate.personal, hstate.shared, hstate.keyed, hstate.owned, hstate.unowned, ?_, ?_⟩
    · exact fun other principal' scope vaults hother ↦
        hstate.claimed other principal' scope vaults (hclaimed _ _ _ _ hother)
    · intro other principal' id' name' hother
      rcases hcalls other principal' id' name' hother with heq | hold
      · exact heq ▸ haccounts
      · exact hstate.made other principal' id' name' hold
  refine ⟨hsound.base, hisolates _ hsound.stored hstored, hisolates _ hsound.saved hsaved,
    hsound.created, hsound.once, hsound.records, ?_, hsound.vaults, ?_, hsound.task⟩
  · intro other principal' scope vaults hother
    obtain ⟨hknown, hnew, hone⟩ :=
      hsound.claimed other principal' scope vaults (hclaimed _ _ _ _ hother)
    exact ⟨hknown, hnew, fun another _ _ hanother ↦
      hone another _ _ (hclaimed _ _ _ _ hanother)⟩
  · intro other principal' id' name' hother
    rcases hcalls other principal' id' name' hother with heq | hold
    · subst heq
      exact ⟨hdrawn, htask⟩
    · exact hsound.made other principal' id' name' hold

/-- A vault that is new is nobody's personal one. -/
theorem State.Isolates.vault_ne {history : AccessHistory} {calls : ℕ → Option AccessCall}
    (hstate : state.Isolates history calls) (hfresh : id ∉ history.drawn) :
    ∀ account ∈ state.accounts, account.vault ≠ id := by
  intro account haccount heq
  exact hfresh (heq ▸ (hstate.personal account haccount).2.2)

/-! ## Enrolment -/

section
variable (hsound : server.Sound)
include hsound

namespace AccessServer

/-- The step of an enrolment leaves calls and records alone. -/
theorem Sound.enrol {label : EnrolLabel} {after : Server}
    {answer : Option (Except String Principal)}
    (hlabel : ∀ allowedEmails, label ≠ .restart allowedEmails)
    (hfresh : ∀ id ∈ label.drawn, id ∉ server.history.drawn)
    (hstep : server.base.Steps label after answer) :
    Sound { server.draw label.drawn with base := after } := by
  have hbase := hsound.base.steps hstep
  have hdrawn : server.history.drawn ⊆ (server.draw label.drawn).history.drawn :=
    subset_append_right _ _
  have hrecords : ∀ record ∈ server.records, ∃ other ∈ server.records,
      record.scope = other.scope := fun record hrecord ↦ ⟨record, hrecord, rfl⟩
  cases hstep with
  | refuse | known =>
    exact hsound.mono hbase rfl rfl (fun _ ↦ id) hdrawn rfl (.refl _) hrecords
      (fun _ hrecord ↦ .inr hrecord)
  | begins | taken | unavailable =>
    exact hsound.mono hbase rfl rfl (fun _ hmem ↦ by cases hmem) hdrawn rfl (.refl _) hrecords
      (fun _ hrecord ↦ .inr hrecord)
  | createFails message written =>
    refine hsound.mono hbase rfl rfl (fun _ hmem ↦ by cases hmem) hdrawn rfl (.refl _) hrecords ?_
    intro record hrecord
    cases written with
    | false => exact .inr hrecord
    | true =>
      rcases mem_pushVault hrecord with hnew | hold
      · exact .inl (hnew ▸ mem_cons_self)
      · exact .inr hold
  | deletes outcome =>
    refine hsound.mono hbase rfl rfl (fun _ hmem ↦ by cases hmem) hdrawn rfl (.refl _) hrecords ?_
    exact fun record hrecord ↦ .inr (mem_leaves_removeVault hrecord)
  | @creates identity id draw htask hname hvault =>
    have hnew : draw.id ∉ server.history.drawn := hfresh draw.id mem_cons_self
    have hd := hsound.draw [draw.id]
    refine ⟨hbase, hd.stored, hd.saved, hd.created, hd.once, hd.records, hd.claimed, ?_, ?_, ?_⟩
    · intro record hrecord
      rcases mem_pushVault hrecord with hnew | hold
      · exact hnew ▸ mem_cons_self
      · exact hd.vaults record hold
    · intro call principal made name hcall
      refine ⟨(hd.made call principal made name hcall).1, fun account haccount ↦ ?_⟩
      cases haccount
      have hmade := (hsound.made call principal made name hcall).1
      intro heq
      obtain rfl : draw.id = made := heq
      exact hnew hmade
    · intro account haccount
      cases haccount
      exact ⟨mem_cons_self, fun hmem ↦ hnew (hsound.stored.shared _ hmem)⟩
  | @saves account htask =>
    have hpending : account ∈ server.base.task.account := by
      rw [htask]
      rfl
    have hjoins := hsound.base.task
    simp only [Server.TaskSound, htask] at hjoins
    obtain ⟨hmem, hshared⟩ := hsound.task account hpending
    have hnext := hsound.stored.enrol hmem hshared hjoins.vault fun call principal id name hcall ↦
      (hsound.made call principal id name hcall).2 account hpending
    refine ⟨hbase, hnext, hnext, hsound.created, hsound.once, hsound.records, hsound.claimed,
      hsound.vaults, ?_, fun _ hmem ↦ by cases hmem⟩
    intro call principal id name hcall
    exact ⟨(hsound.made call principal id name hcall).1, fun _ hmem ↦ by cases hmem⟩
  | @saveFails account message written htask =>
    have hpending : account ∈ server.base.task.account := by
      rw [htask]
      rfl
    have hjoins := hsound.base.task
    simp only [Server.TaskSound, htask] at hjoins
    obtain ⟨hmem, hshared⟩ := hsound.task account hpending
    have hnext := hsound.stored.enrol hmem hshared hjoins.vault fun call principal id name hcall ↦
      (hsound.made call principal id name hcall).2 account hpending
    refine ⟨hbase, hsound.stored, ?_, hsound.created, hsound.once, hsound.records, hsound.claimed,
      hsound.vaults, ?_, ?_⟩
    · cases written with
      | true => exact hnext
      | false => exact hsound.saved
    · intro call principal id name hcall
      refine ⟨(hsound.made call principal id name hcall).1, fun other hother ↦ ?_⟩
      cases hother
      exact (hsound.made call principal id name hcall).2 account hpending
    · intro other hother
      cases hother
      exact ⟨hmem, hshared⟩
  | restarts => exact absurd rfl (hlabel _)

/-! ## All steps -/

theorem Sound.knows {record : ResourceRecord} (hrecord : record ∈ server.records) :
    server.history.Knows record.scope := by
  obtain ⟨entry, hentry, heq⟩ := mem_map.1 (hsound.records record hrecord)
  exact heq ▸ hsound.created entry hentry

theorem Sound.scopes : ∀ scope ∈ server.scopes, server.history.Knows scope := by
  intro scope hscope
  obtain ⟨record, hrecord, hscope⟩ := mem_flatMap.1 hscope
  split at hscope
  case h_2 => cases hscope
  case h_1 agentId heq =>
    rcases mem_cons.1 hscope with hagent | hthread
    · exact hagent ▸ heq ▸ hsound.knows hrecord
    · obtain ⟨other, hother, rfl⟩ := mem_map.1 (mem_filter.1 hthread).1
      exact hsound.knows hother

theorem Sound.isolates_vaultCreated
    (hcall : server.calls call = some (.vaultMade principal id name))
    (hcreated : policy.vaultCreated principal id name server.state = Except.ok next) :
    next.Isolates server.history server.calls := by
  obtain rfl := Policy.vaultCreated_ok hcreated
  exact hsound.stored.vaultCreated (hsound.stored.made call principal id name hcall) _

theorem Sound.localPut (vaults : List VaultId) (hvalid : ValidScope scope)
    (hfresh : scopeId scope ∉ server.history.drawn) :
    Sound { server with
      records := server.records ++ [⟨scope, vaults⟩]
      history :=
        { drawn := scopeId scope :: server.history.drawn
          created := (scope, none) :: server.history.created } } := by
  have hknows : ∀ other, server.history.Knows other →
      ValidScope other ∧ scopeId other ∈ scopeId scope :: server.history.drawn :=
    fun other hknown ↦ ⟨hknown.1, mem_cons_of_mem _ hknown.2⟩
  have hne : ∀ other, server.history.Knows other → other ≠ scope :=
    fun other hknown heq ↦ hfresh (heq ▸ hknown.2)
  refine ⟨hsound.base, hsound.stored.localPut hvalid hfresh, hsound.saved.localPut hvalid hfresh,
    ?_, ?_, ?_, ?_, ?_, ?_, ?_⟩
  · intro entry hentry
    rcases mem_cons.1 hentry with heq | hentry
    · subst heq
      exact ⟨hvalid, mem_cons_self⟩
    · exact hknows _ (hsound.created entry hentry)
  · refine nodup_cons.2 ⟨fun hmem ↦ ?_, hsound.once⟩
    obtain ⟨entry, hentry, heq⟩ := mem_map.1 hmem
    exact hne _ (hsound.created entry hentry) heq
  · intro record hrecord
    rcases mem_append.1 hrecord with hold | hnew
    · exact mem_cons_of_mem _ (hsound.records record hold)
    · obtain rfl := mem_singleton.1 hnew
      exact mem_cons_self
  · intro call principal other vaults' hcall
    obtain ⟨hknown, hnew, hone⟩ := hsound.claimed call principal other vaults' hcall
    refine ⟨hknows _ hknown, fun hmem ↦ ?_, hone⟩
    rcases mem_cons.1 hmem with heq | hmem
    · exact hne other hknown heq
    · exact hnew hmem
  · exact fun record hrecord ↦ mem_cons_of_mem _ (hsound.vaults record hrecord)
  · intro call principal id name hcall
    obtain ⟨hmem, hothers⟩ := hsound.made call principal id name hcall
    exact ⟨mem_cons_of_mem _ hmem, hothers⟩
  · intro account haccount
    obtain ⟨hmem, hshared⟩ := hsound.task account haccount
    exact ⟨mem_cons_of_mem _ hmem, hshared⟩

theorem Sound.restart (multiplayer : Bool)
    (hopen : openStore config server.base.saved = Except.ok server.base.saved) :
    Sound { server with
      base := { server.base with config, stored := server.base.saved, task := .idle }
      multiplayer
      calls := fun _ ↦ none } := by
  have hsaved : server.base.saved.Isolates server.history fun _ ↦ none :=
    hsound.saved.mono (List.Subset.refl _) rfl (by simp) (by simp)
  refine ⟨hsound.base.restart hopen, hsaved, hsaved, hsound.created, hsound.once, hsound.records,
    ?_, hsound.vaults, ?_, ?_⟩
  · intro call principal scope vaults hcall
    cases hcall
  · intro call principal id name hcall
    cases hcall
  · intro account haccount
    cases haccount

theorem Sound.steps (hstep : server.Steps label after) : after.Sound := by
  cases hstep with
  | refuse => exact hsound
  | enrols hlabel hfresh hbase => exact hsound.enrol hlabel hfresh hbase
  | adopts outcome hidle hadopt =>
    have hnext := hsound.stored.adopt hsound.scopes hsound.vaults hadopt
    exact hsound.commit hidle (Policy.adopt_same hadopt) hnext outcome
  | moves hstage =>
    apply hsound.setCall
    · exact fun principal scope vaults heq ↦ hstage _ heq
    · exact fun principal id name heq ↦ hstage _ heq
  | draws call id => exact (hsound.draw [id]).setCall (by simp) (by simp)
  | @claims call principal record next hidle hvalid hfresh hcreated =>
    have hd := hsound.draw [scopeId record.scope]
    have hcommit := hd.commit hidle (Policy.created_same hcreated)
      (hsound.isolates_created hvalid hfresh hcreated) .done
    have howner : next.owners[key record.scope]? = some principal := by
      rw [Policy.created_ok hcreated]
      exact Std.TreeMap.getElem?_insert_self
    have hunknown : ¬ server.history.Knows record.scope := fun hknown ↦ hfresh hknown.2
    refine hcommit.claim ⟨hvalid, mem_cons_self⟩ howner howner ?_ ?_
    · intro hmem
      obtain ⟨entry, hentry, heq⟩ := mem_map.1 hmem
      exact hunknown (heq ▸ hsound.created entry hentry)
    · intro other principal' vaults' hother
      exact hunknown (hsound.claimed other principal' record.scope vaults' hother).1
  | claimFails message written hidle hvalid hfresh hcreated =>
    have hcommit := (hsound.draw _).commit hidle (Policy.created_same hcreated)
      (hsound.isolates_created hvalid hfresh hcreated) (.failed message written)
    exact hcommit.setCall (by simp) (by simp)
  | creates outcome hcall => exact hsound.put outcome hcall
  | attaches hrecords =>
    exact hsound.mono hsound.base rfl rfl (fun _ ↦ id) (List.Subset.refl _) rfl
      (callsFrom_setCall (by simp) (by simp)) hrecords (fun _ hrecord ↦ .inr hrecord)
  | @makes call principal name draw record vaults hfresh hrun =>
    have hvaults : ((createVault draw (principal ++ ":" ++ name)).runOn server.base.vaults).2 =
      vaults := congrArg Prod.snd hrun
    have hmade : ((server.draw [draw.id]).setVaults vaults).Sound := by
      refine (hsound.draw [draw.id]).setVaults fun other hother ↦ ?_
      rw [← hvaults] at hother
      exact (createVault_records hother).imp_left fun hnew ↦ mem_cons.2 (.inl hnew)
    obtain ⟨-, rfl, -⟩ := createVault_ok hrun
    refine hmade.make mem_cons_self (hsound.stored.vault_ne hfresh)
      (hsound.saved.vault_ne hfresh) ?_
    · intro account haccount (heq : account.vault = draw.id)
      exact hfresh (heq ▸ (hsound.task account haccount).1)
  | @makeFails call draw stored message written =>
    refine ((hsound.draw [draw.id]).setVaults fun other hother ↦ ?_).setCall (by simp) (by simp)
    have hmade : ∀ record ∈ ((createVault draw stored).runOn server.base.vaults).2.vaults.map
        (·.record), record.id ∈ draw.id :: server.history.drawn ∨ record ∈ server.vaultRecords :=
      fun record hrecord ↦
        (createVault_records hrecord).imp_left fun hnew ↦ mem_cons.2 (.inl hnew)
    cases written with
    | true => exact hmade other hother
    | false => exact .inr hother
  | owns hcall hidle hcreated =>
    have hnext := hsound.isolates_vaultCreated hcall hcreated
    exact (hsound.commit hidle (Policy.vaultCreated_same hcreated) hnext .done).setCall
      (by simp) (by simp)
  | ownFails hcall hidle hcreated =>
    have hnext := hsound.isolates_vaultCreated hcall hcreated
    exact (hsound.commit hidle (Policy.vaultCreated_same hcreated) hnext _).setCall
      (by simp) (by simp)
  | drops id outcome => exact (hsound.dropVault id outcome).setCall (by simp) (by simp)
  | lists => exact hsound.setCall (by simp) (by simp)
  | localPuts vaults hvalid hfresh => exact hsound.localPut vaults hvalid hfresh
  | localVaults name hfresh =>
    refine (hsound.draw _).setVaults fun other hother ↦ ?_
    exact (createVault_records hother).imp_left fun hnew ↦ mem_cons.2 (.inl hnew)
  | removes scope =>
    refine hsound.mono hsound.base rfl rfl (fun _ ↦ id) (List.Subset.refl _) rfl (.refl _)
      ?_ (fun _ hrecord ↦ .inr hrecord)
    exact fun record hrecord ↦ ⟨record, (mem_filter.1 hrecord).1, rfl⟩
  | restarts multiplayer hopen => exact hsound.restart multiplayer hopen

end AccessServer

end

end Exo.Remote
