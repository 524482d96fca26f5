import Exo.Remote.CallerRuns
import Exo.Remote.Recovery

/-!
# What callers can reach

The policy answers from the state behind the lock, so what it promises is said of every state that a
run comes to.  The owner of the server passes every check of admission; an account of the owner is
always admitted, since a server with another owner does not start.
-/

namespace Exo.Remote

open Library Vault
open Egress.Runtime (ResourceScope)

variable {server after : AccessServer} {label : AccessLabel} {start : AccessServer}
  {labels : List AccessLabel}

/-- What the policy promises. -/
structure AccessServer.Isolated (server : AccessServer) : Prop where
  /-- A vault that is returned is not the auth vault; it is the caller's, or read and shared. -/
  vaults : ∀ principal record write found,
    server.policy.vault principal record write server.state = Except.ok (some found) →
      found.id = record.id ∧ record.id ≠ server.authVault ∧
        server.state.Grants principal record.id write
  personal : ∀ principal record write found,
    server.policy.vault principal record write server.state = Except.ok (some found) →
      ∀ account ∈ server.state.accounts, account.vault = record.id → account.id = principal
  /-- Without multiplayer an agent or a thread is its creator's, or else the owner's. -/
  resources : server.multiplayer = false → ∀ principal scope creator,
    server.policy.check principal scope server.state = Except.ok () →
      (scope, creator) ∈ server.history.created →
        creator = some principal ∨ creator = none ∧ principal = server.state.owner
  created : ∀ record ∈ server.records, ∃ creator, (record.scope, creator) ∈ server.history.created
  once : (server.history.created.map Prod.fst).Nodup
  admitted : ∀ principal scope,
    server.policy.check principal scope server.state = Except.ok () →
      (∃ account, server.state.principals[principal]? = some account ∧
        server.base.config.admitted account.email = true) ∨
      server.state.principals[principal]? = none ∧ principal = server.state.owner

variable {principal : String} {record : VaultRecord} {scope : ResourceScope} {id : VaultId}

section
variable (hsound : server.Sound)
include hsound

theorem AccessServer.Sound.personal {found : VaultRecord} {write : Bool}
    (hvault : server.policy.vault principal record write server.state = Except.ok (some found)) :
    ∀ account ∈ server.state.accounts, account.vault = record.id → account.id = principal := by
  intro account haccount heq
  obtain ⟨-, -, -, hgrants⟩ := Policy.vault_ok hvault
  obtain ⟨howner, hshared, -⟩ := hsound.stored.personal account haccount
  rcases hgrants with howns | hreads
  · rw [← heq] at howns
    exact Option.some.inj (howner.symm.trans howns)
  · exact absurd (heq ▸ hreads.2) hshared

theorem AccessServer.Sound.resources (hsingle : server.multiplayer = false)
    {creator : Option String}
    (hcheck : server.policy.check principal scope server.state = Except.ok ())
    (hcreated : (scope, creator) ∈ server.history.created) :
    creator = some principal ∨ creator = none ∧ principal = server.state.owner := by
  have hvalid := (hsound.created _ hcreated).1
  obtain ⟨-, hscope⟩ := Policy.check_ok hcheck
  rcases hscope with rfl | ⟨hnone, howner⟩ | ⟨owner, hsome, howner⟩
  · exact hvalid.elim
  · cases creator with
    | none => exact .inr ⟨rfl, howner.symm⟩
    | some creator =>
      have hclaimed := hsound.stored.owned scope creator hcreated
      rw [state, hclaimed] at hnone
      cases hnone
  · have howner : owner = principal :=
      howner.resolve_right fun hmulti ↦ by simp [policy, hsingle] at hmulti
    subst howner
    cases creator with
    | none => exact .inr ⟨rfl, hsound.stored.unowned scope hcreated owner hsome⟩
    | some creator =>
      have hclaimed := hsound.stored.owned scope creator hcreated
      exact .inl (hclaimed.symm.trans hsome)

theorem AccessServer.Sound.admitted
    (hcheck : server.policy.check principal scope server.state = Except.ok ()) :
    (∃ account, server.state.principals[principal]? = some account ∧
      server.base.config.admitted account.email = true) ∨
    server.state.principals[principal]? = none ∧ principal = server.state.owner := by
  obtain ⟨hadmitted, -⟩ := Policy.check_ok hcheck
  rcases hadmitted with howner | haccount
  · subst howner
    cases haccount : server.state.principals[server.state.owner]? with
    | none => exact .inr ⟨rfl, rfl⟩
    | some account =>
      have hbound := hsound.base.stored
      have hemail := hbound.owner account (mem_values_of_getElem? haccount)
        (hbound.keyed _ _ haccount)
      exact .inl ⟨account, rfl, by rw [AuthConfig.admitted, hemail, Bool.true_or]⟩
  · exact .inl haccount

theorem AccessServer.Sound.isolated : server.Isolated where
  vaults := fun _ _ _ _ hvault ↦ (Policy.vault_ok hvault).2
  personal := fun _ _ _ _ hvault ↦ hsound.personal hvault
  resources := fun hsingle _ _ _ hcheck hcreated ↦ hsound.resources hsingle hcheck hcreated
  created := fun record hrecord ↦ by
    obtain ⟨⟨_, creator⟩, hentry, rfl⟩ := List.mem_map.1 (hsound.records record hrecord)
    exact ⟨creator, hentry⟩
  once := hsound.once
  admitted := fun _ _ hcheck ↦ hsound.admitted hcheck

end

/-- The call lists vaults for a caller. -/
def AccessServer.Lists (server : AccessServer) (call : ℕ) (principal : String) : Prop :=
  ∃ stage, server.calls call = some stage ∧ stage.lister = some principal

/-- The call has found the vault when it was the caller's or a shared one, and lists since. -/
def Seen (start : AccessServer) (labels : List AccessLabel) (call : ℕ) (principal : String)
    (id : VaultId) : Prop :=
  ∃ before rest, labels = before ++ rest ∧
    id ≠ (callers.exec start before).authVault ∧
    (callers.exec start before).state.Grants principal id false ∧
    callers.Throughout (fun server _ ↦ server.Lists call principal) (callers.exec start before) rest

theorem AccessServer.getVault_ok (hget : server.getVault principal id = Except.ok (some record)) :
    id ≠ server.authVault ∧ server.state.Grants principal id false := by
  simp only [getVault, bind_eq_ok] at hget
  obtain ⟨_, -, hget⟩ := hget
  split at hget
  case h_1 => cases hget
  case h_2 stored hfind =>
    obtain ⟨-, -, hauth, hgrants⟩ := Policy.vault_ok hget
    have hid : stored.id = id := by simpa using List.find?_some hfind
    exact ⟨hid ▸ hauth, hid ▸ hgrants⟩

/-- A call that lists vaults has found each of them now or before. -/
theorem AccessServer.found_of_steps {call : ℕ} {stage : AccessCall}
    (hcall : after.calls call = some stage) (hlister : stage.lister = some principal)
    (hstep : server.Steps label after) (hid : id ∈ stage.found) :
    (∃ stage', server.calls call = some stage' ∧ stage'.lister = some principal) ∧
      ((∃ stage', server.calls call = some stage' ∧ id ∈ stage'.found) ∨
        ∃ record, server.getVault principal id = Except.ok (some record)) := by
  have hkeep : server.calls call = some stage →
      (∃ stage', server.calls call = some stage' ∧ stage'.lister = some principal) ∧
        ((∃ stage', server.calls call = some stage' ∧ id ∈ stage'.found) ∨
          ∃ record, server.getVault principal id = Except.ok (some record)) :=
    fun hold ↦ ⟨⟨stage, hold, hlister⟩, .inl ⟨stage, hold, hid⟩⟩
  -- a stage that a step leads to has found nothing, unless the step lists
  have hother : ∀ (before : AccessServer) (call' : ℕ) (stage' : Option AccessCall),
      before.calls = server.calls → (∀ s ∈ stage', s.found = []) →
      (before.setCall call' stage').calls call = some stage → server.calls call = some stage := by
    intro before call' stage' hbefore hempty hset
    rcases calls_setCall_eq hset with hnew | hold
    · rw [hempty stage hnew.2] at hid
      cases hid
    · exact hbefore ▸ hold.2
  cases hstep with
  | lists hold hprincipal hfound =>
    rcases calls_setCall_eq hcall with hnew | hkept
    · obtain ⟨rfl, heq⟩ := hnew
      cases heq
      cases hlister
      refine ⟨⟨_, hold, hprincipal⟩, ?_⟩
      rcases hfound id hid with hbefore | hget
      · exact .inl ⟨_, hold, hbefore⟩
      · exact .inr hget
    · exact hkeep hkept.2
  | moves hstage =>
    refine hkeep (hother server _ _ rfl ?_ hcall)
    intro s hs
    have hfree := hstage s hs
    cases s <;> first | rfl | exact hfree.elim
  | draws | claimFails | makeFails | owns | creates | attaches =>
    exact hkeep (hother _ _ none rfl (by simp) hcall)
  | claims | makes | ownFails =>
    exact hkeep (hother _ _ (some _) rfl (by simp [AccessCall.found]) hcall)
  | drops other outcome =>
    refine hkeep (hother _ _ none ?_ (by simp) hcall)
    unfold dropVault
    split <;> rfl
  | restarts => cases hcall
  | _ => exact hkeep hcall

theorem sound_exec (hstart : start.Sound) (hrun : callers.Admits start labels) :
    (callers.exec start labels).Sound :=
  System.invariant AccessServer.Sound
    (fun _ _ hsound henabled ↦ hsound.steps (AccessServer.steps_of_enabled henabled)) hstart hrun

theorem seen_of_listing (hidle : start.calls = fun _ ↦ none) (hrun : callers.Admits start labels) :
    ∀ call stage principal, (callers.exec start labels).calls call = some stage →
      stage.lister = some principal → ∀ id ∈ stage.found, Seen start labels call principal id := by
  refine System.traceInvariant (fun labels (server : AccessServer) ↦ ∀ call stage principal,
    server.calls call = some stage → stage.lister = some principal →
      ∀ id ∈ stage.found, Seen start labels call principal id) start ?_ ?_ hrun
  · intro call stage principal hcall
    rw [hidle] at hcall
    cases hcall
  · intro labels label hrun ih henabled call stage principal hcall hlister id hid
    have hsteps := AccessServer.steps_of_enabled henabled
    obtain ⟨hlists, hfound⟩ := AccessServer.found_of_steps hcall hlister hsteps hid
    rcases hfound with hbefore | hget
    · obtain ⟨stage', hcall', hid'⟩ := hbefore
      obtain ⟨stage'', hcall'', hlister'⟩ := hlists
      obtain rfl := Option.some.inj (hcall'.symm.trans hcall'')
      obtain ⟨before, rest, rfl, hauth, hgrants, hwaits⟩ :=
        ih call stage' principal hcall' hlister' id hid'
      refine ⟨before, rest ++ [label], by simp, hauth, hgrants, ?_⟩
      rw [System.throughout_append, ← System.exec_append]
      exact ⟨hwaits, ⟨stage', hcall', hlister'⟩, trivial⟩
    · obtain ⟨record, hget⟩ := hget
      obtain ⟨hauth, hgrants⟩ := AccessServer.getVault_ok hget
      exact ⟨labels, [label], rfl, hauth, hgrants, hlists, trivial⟩

theorem callers_isolated (config : AuthConfig) (multiplayer : Bool) (owner : String)
    (authVault : VaultId) {labels : List AccessLabel}
    (hrun : callers.Admits (.new config multiplayer owner authVault) labels) :
    (callers.exec (.new config multiplayer owner authVault) labels).Isolated ∧
      ∀ call principal rest found,
        (callers.exec (.new config multiplayer owner authVault) labels).calls call =
          some (.listing principal rest found) →
        ∀ id ∈ found, Seen (.new config multiplayer owner authVault) labels call principal id := by
  constructor
  · exact (sound_exec (AccessServer.sound_new config multiplayer owner authVault) hrun).isolated
  · intro call principal rest found hcall
    exact seen_of_listing rfl hrun call _ principal hcall rfl

/-- Two people log in, and a vault that is there is shared after a restart; one of them makes an
agent with it, and the other lists the vaults of that agent. -/
def sharedRun : List AccessLabel :=
  (fullLogin ownerIdentity "p1" 2 ++ fullLogin aliceIdentity "p2" 3).map .enrolment ++
    [.localVault ⟨4, 0, 0⟩ "team", .localPut (.agent 5) [],
      .restart { twoConfig with sharedVaults := ["team"] } true, .adopt .done] ++
    [.newAgent "p2" [3, 4], .require, .require, .claim 6 .done, .put .done].map (.call 0) ++
    [.listAgent "p0" 6 [3, 4], .look, .look, .look].map (.call 1)

theorem callers_isolated_shared : (callers.exec (.new twoConfig false "p0" 1) sharedRun).Isolated ∧
      (callers.exec (.new twoConfig false "p0" 1) sharedRun).calls 1 =
        some (.listing "p0" [] [2, 4]) ∧
      Seen (.new twoConfig false "p0" 1) sharedRun 1 "p0" 4 := by
  have hrun : callers.Admits (.new twoConfig false "p0" 1) sharedRun := by decide +kernel
  obtain ⟨hisolated, hlists⟩ := callers_isolated twoConfig false "p0" 1 hrun
  have hlisting : (callers.exec (.new twoConfig false "p0" 1) sharedRun).calls 1 =
      some (.listing "p0" [] [2, 4]) := by decide +kernel
  exact ⟨hisolated, hlisting, hlists 1 "p0" [] [2, 4] hlisting 4 (by decide)⟩

end Exo.Remote
