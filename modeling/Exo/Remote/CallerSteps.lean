import Exo.Remote.Callers

/-!
# The steps of callers

What a step can do, as far as it matters to what belongs to whom.
-/

namespace Exo.Remote

open Library Vault
open Egress.Runtime (ResourceScope)

variable {server after : AccessServer} {label : AccessLabel}

/-- Nothing depends on the call yet. -/
def AccessCall.Free : AccessCall → Prop
  | .claimed _ _ _ | .vaultMade _ _ _ | .listing _ _ _ => False
  | _ => True

/-- The caller that the call lists vaults for. -/
def AccessCall.lister : AccessCall → Option String
  | .defaulting principal _ _ | .listing principal _ _ => some principal
  | _ => none

/-- The vaults that the call has found. -/
def AccessCall.found : AccessCall → List VaultId
  | .listing _ _ found => found
  | _ => []

variable (server : AccessServer) in
inductive AccessServer.Steps : AccessLabel → AccessServer → Prop
  | refuse (label : AccessLabel) : Steps label server
  | enrols {label : EnrolLabel} {base : Server} {answer : Option (Except String Principal)}
      (hlabel : ∀ allowedEmails, label ≠ .restart allowedEmails)
      (hfresh : ∀ id ∈ label.drawn, id ∉ server.history.drawn)
      (hstep : server.base.Steps label base answer) :
      Steps (.enrolment label) { server.draw label.drawn with base }
  | adopts {next : State} (outcome : Outcome) (hidle : server.base.task.isIdle = true)
      (hadopt : server.policy.adopt server.scopes server.vaultRecords server.state =
        Except.ok next) :
      Steps (.adopt outcome) (server.commit outcome next)
  | moves {call : ℕ} {step : CallStep} {stage : Option AccessCall}
      (hstage : ∀ stage' ∈ stage, stage'.Free) :
      Steps (.call call step) (server.setCall call stage)
  | draws (call id : ℕ) (step : CallStep) :
      Steps (.call call step) ((server.draw [id]).setCall call none)
  | claims {call : ℕ} {principal : String} {record : ResourceRecord} {next : State}
      (hidle : server.base.task.isIdle = true) (hvalid : ValidScope record.scope)
      (hfresh : scopeId record.scope ∉ server.history.drawn)
      (hcreated : server.policy.created principal record.scope server.state = Except.ok next) :
      Steps (.call call (.claim (scopeId record.scope) .done))
        (((server.draw [scopeId record.scope]).commit .done next).setCall call
          (some (.claimed principal record.scope record.vaults)))
  | claimFails {call : ℕ} {principal : String} {record : ResourceRecord} {next : State}
      (message : String) (written : Bool)
      (hidle : server.base.task.isIdle = true) (hvalid : ValidScope record.scope)
      (hfresh : scopeId record.scope ∉ server.history.drawn)
      (hcreated : server.policy.created principal record.scope server.state = Except.ok next) :
      Steps (.call call (.claim (scopeId record.scope) (.failed message written)))
        (((server.draw [scopeId record.scope]).commit (.failed message written) next).setCall
          call none)
  | creates {call : ℕ} {principal : String} {scope : ResourceScope} {vaults : List VaultId}
      (outcome : Outcome) (hcall : server.calls call = some (.claimed principal scope vaults)) :
      Steps (.call call (.put outcome))
        { server.setCall call none with
          records := outcome.leaves server.records (server.records ++ [⟨scope, vaults⟩])
          history := { server.history with
            created := outcome.leaves server.history.created
              ((scope, some principal) :: server.history.created) } }
  | attaches {call : ℕ} {outcome : Outcome} {records : List ResourceRecord}
      (hrecords : ∀ record ∈ records, ∃ other ∈ server.records, record.scope = other.scope) :
      Steps (.call call (.put outcome)) { server.setCall call none with records }
  | makes {call : ℕ} {principal name : String} {draw : Draw} {record : VaultRecord}
      {vaults : Catalog Unit} (hfresh : draw.id ∉ server.history.drawn)
      (hrun : (createVault draw (principal ++ ":" ++ name)).runOn server.base.vaults =
        (Except.ok record, vaults)) :
      Steps (.call call (.make draw .done)) (((server.draw [draw.id]).setVaults vaults).setCall call
          (some (.vaultMade principal record.id name)))
  | makeFails {call : ℕ} {draw : Draw} {stored message : String} {written : Bool} :
      Steps (.call call (.make draw (.failed message written))) (((server.draw [draw.id]).setVaults
          ((Outcome.failed message written).leaves server.base.vaults
            ((createVault draw stored).runOn server.base.vaults).2)).setCall call none)
  | owns {call : ℕ} {principal name : String} {id : VaultId} {next : State}
      (hcall : server.calls call = some (.vaultMade principal id name))
      (hidle : server.base.task.isIdle = true)
      (hcreated : server.policy.vaultCreated principal id name server.state = Except.ok next) :
      Steps (.call call (.vaultCreated .done)) ((server.commit .done next).setCall call none)
  | ownFails {call : ℕ} {principal name message : String} {written : Bool} {id : VaultId}
      {next : State} (hcall : server.calls call = some (.vaultMade principal id name))
      (hidle : server.base.task.isIdle = true)
      (hcreated : server.policy.vaultCreated principal id name server.state = Except.ok next) :
      Steps (.call call (.vaultCreated (.failed message written)))
        ((server.commit (.failed message written) next).setCall call (some (.rollingBack id)))
  | drops {call : ℕ} {step : CallStep} (id : VaultId) (outcome : Outcome) :
      Steps (.call call step) ((server.dropVault id outcome).setCall call none)
  | lists {call : ℕ} {stage : AccessCall} {principal : String} {rest found : List VaultId}
      (hcall : server.calls call = some stage) (hlister : stage.lister = some principal)
      (hfound : ∀ id ∈ found, id ∈ stage.found ∨
        ∃ record, server.getVault principal id = Except.ok (some record)) :
      Steps (.call call .look) (server.setCall call (some (.listing principal rest found)))
  | localPuts {scope : ResourceScope} (vaults : List VaultId) (hvalid : ValidScope scope)
      (hfresh : scopeId scope ∉ server.history.drawn) :
      Steps (.localPut scope vaults)
        { server with
          records := server.records ++ [⟨scope, vaults⟩]
          history :=
            { drawn := scopeId scope :: server.history.drawn
              created := (scope, none) :: server.history.created } }
  | localVaults {draw : Draw} (name : String) (hfresh : draw.id ∉ server.history.drawn) :
      Steps (.localVault draw name)
        ((server.draw [draw.id]).setVaults ((createVault draw name).runOn server.base.vaults).2)
  | removes (scope : ResourceScope) :
      Steps (.remove scope) { server with records := server.records.filter (·.scope != scope) }
  | restarts {config : AuthConfig} (multiplayer : Bool)
      (hopen : openStore config server.base.saved = Except.ok server.base.saved) :
      Steps (.restart config multiplayer)
        { server with
          base := { server.base with config, stored := server.base.saved, task := .idle }
          multiplayer
          calls := fun _ ↦ none }

variable {call : ℕ} {outcome : Outcome}

/-- A call that begins is one that nothing depends on. -/
theorem AccessServer.steps_start {α : Type} {allowed : Except String α} {stage : α → AccessCall}
    (hstage : ∀ value, (stage value).Free) (hstep : server.start call allowed stage = some after)
    (step : CallStep) : server.Steps (.call call step) after := by
  unfold start at hstep
  split at hstep
  case isFalse => cases hstep
  case isTrue =>
    split at hstep <;> cases hstep
    · exact .refuse _
    · rename_i value
      refine .moves fun stage' hmem ↦ ?_
      cases hmem
      exact hstage value

theorem AccessServer.steps_setCall_none (call : ℕ) (step : CallStep) :
    server.Steps (.call call step) (server.setCall call none) :=
  .moves nofun

theorem ResourcePut.scopeId_resource {id : ℕ} {put : ResourcePut} {record : ResourceRecord}
    (hput : put.resource id = some record) : scopeId record.scope = id := by
  cases put <;> cases hput <;> rfl

namespace AccessServer

theorem requireVault_ok {principal : String} {id : VaultId} {record : VaultRecord}
    (hrequire : server.requireVault principal id = Except.ok record) :
    server.getVault principal id = Except.ok (some record) := by
  simp only [requireVault, bind_eq_ok, context_eq_ok] at hrequire
  obtain ⟨found, hget, rfl⟩ := hrequire
  exact hget

theorem steps_of_callStep {step : CallStep}
    (hstep : server.callStep call step = some after) : server.Steps (.call call step) after := by
  revert hstep
  fun_cases AccessServer.callStep server call step <;> intro hstep <;>
    first
    | cases Option.some.inj hstep
    | cases hstep
    | exact steps_start (by exact fun _ ↦ trivial) hstep _
    | skip
  all_goals first | exact steps_setCall_none call _ | skip
  · exact .moves fun stage' hmem ↦ by cases hmem; trivial
  · exact .draws call _ _
  · rename_i hput hguard next hcreated _
    obtain rfl := ResourcePut.scopeId_resource hput
    exact .claims hguard.1 hguard.2.1 hguard.2.2 hcreated
  · rename_i hput hguard next hcreated message written _
    obtain rfl := ResourcePut.scopeId_resource hput
    exact .claimFails message written hguard.1 hguard.2.1 hguard.2.2 hcreated
  · exact .creates _ ‹_›
  · rename_i outcome principal scope vaults hcall attach
    refine .attaches fun record hrecord ↦ ?_
    have hattach : ∀ record ∈ server.records.map attach,
        ∃ other ∈ server.records, record.scope = other.scope := by
      intro record hrecord
      obtain ⟨other, hother, rfl⟩ := List.mem_map.1 hrecord
      refine ⟨other, hother, ?_⟩
      unfold attach
      split <;> rfl
    cases outcome with
    | done => exact hattach record hrecord
    | failed message written =>
      cases written with
      | true => exact hattach record hrecord
      | false => exact ⟨record, hrecord, rfl⟩
  · exact .draws call _ _
  · exact .makes ‹_› ‹_›
  · rename_i hrun message written _
    obtain rfl := congrArg Prod.snd hrun
    exact .makeFails
  · exact .moves fun stage' hmem ↦ by cases hmem; trivial
  · exact .owns ‹_› ‹_› ‹_›
  · exact .ownFails ‹_› ‹_› ‹_›
  · exact .drops _ _
  · split
    · exact steps_setCall_none call _
    · exact .drops _ _
  · rename_i record hrequire
    refine .lists ‹_› rfl fun other hother ↦ .inr ?_
    obtain rfl := List.mem_singleton.1 hother
    exact ⟨record, requireVault_ok hrequire⟩
  · rename_i hcall _
    exact .lists hcall rfl fun other hother ↦ .inl hother
  · rename_i record hget
    refine .lists ‹_› rfl fun other hother ↦ ?_
    split at hother
    · exact .inl hother
    · rcases List.mem_append.1 hother with hother | hother
      · exact .inl hother
      · obtain rfl := List.mem_singleton.1 hother
        exact .inr ⟨record, hget⟩
  · obtain ⟨_, -, rfl⟩ := Option.map_eq_some_iff.1 hstep
    exact steps_setCall_none call _

theorem steps_of_step (hstep : server.step label = some after) : server.Steps label after := by
  cases label with
  | enrolment label =>
    have hnot : ∀ allowedEmails, label ≠ .restart allowedEmails := by
      intro allowedEmails heq
      subst heq
      cases hstep
    have hstep : (if ∀ id ∈ label.drawn, id ∉ server.history.drawn then
        (server.base.step label).map fun result ↦
          { server.draw label.drawn with base := result.1 } else none) = some after := by
      cases label with
      | restart allowedEmails => exact absurd rfl (hnot allowedEmails)
      | _ => exact hstep
    obtain ⟨hfresh, hstep⟩ := Option.ite_none_right_eq_some.1 hstep
    obtain ⟨⟨base, answer⟩, hbase, rfl⟩ := Option.map_eq_some_iff.1 hstep
    exact .enrols hnot hfresh (Server.steps_of_step hbase)
  | adopt outcome =>
    obtain ⟨hidle, hstep⟩ := Option.ite_none_right_eq_some.1 hstep
    split at hstep <;> cases hstep
    · exact .refuse _
    · rename_i hadopt
      exact .adopts outcome hidle hadopt
  | call call step => exact steps_of_callStep hstep
  | localPut scope vaults =>
    obtain ⟨hguard, hstep⟩ := Option.ite_none_right_eq_some.1 hstep
    cases hstep
    exact .localPuts vaults hguard.1 hguard.2
  | localVault draw name =>
    obtain ⟨hfresh, hstep⟩ := Option.ite_none_right_eq_some.1 hstep
    cases hstep
    exact .localVaults name hfresh
  | remove scope =>
    cases hstep
    exact .removes scope
  | restart config multiplayer =>
    simp only [step] at hstep
    split at hstep
    case h_1 => cases hstep
    case h_2 state hopen =>
      obtain rfl := openStore_eq_ok hopen
      cases hstep
      exact .restarts multiplayer hopen

theorem steps_of_enabled (henabled : callers.enabled server label) :
    server.Steps label (callers.next server label) :=
  steps_of_step (Option.getD_of_ne_none (Option.isSome_iff_ne_none.1 henabled) _).symm

end AccessServer

end Exo.Remote
