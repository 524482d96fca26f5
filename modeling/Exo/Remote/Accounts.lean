import Exo.Remote.Enrolment

/-!
# What enrolment guarantees

The accounts that are stored and saved are distinct in every respect, and a stored account stays.
The name of the personal vault of the owner is the same at every attempt, so a vault that an attempt
has left behind stops all later ones; the vaults of the others have a new name every time.
-/

namespace Exo.Remote

open Library Vault Option

variable {config : AuthConfig} {state : State} {principal : Principal} {identity : Identity}
  {ownerEmail : String} {server after : Server} {label : EnrolLabel}
  {answer : Option (Except String Principal)}

section
variable (state : State) (principal : Principal)

@[simp]
theorem owner_enrol : (state.enrol principal).owner = state.owner := rfl

@[simp]
theorem deployment_enrol : (state.enrol principal).deployment = state.deployment := rfl

@[simp]
theorem principals_enrol :
    (state.enrol principal).principals = state.principals.insert principal.id principal := rfl

theorem mem_accounts_enrol_self :
    principal ∈ (state.enrol principal).accounts := mem_values_insert_self _ _

end

theorem mem_of_mem_accounts_enrol {other : Principal}
    (hmem : other ∈ (state.enrol principal).accounts) :
    other = principal ∨ other ∈ state.accounts := mem_of_mem_values_insert hmem

section
variable (ownerEmail : String) (state : State)

/-- No two accounts agree in anything, and the account of the owner has the email of the owner. -/
structure State.Bound : Prop where
  keyed : ∀ (id : String) (p : Principal), state.principals[id]? = some p → p.id = id
  lower : ∀ p ∈ state.accounts, p.email.toList.map Char.toLower = p.email.toList
  owner : ∀ p ∈ state.accounts, p.id = state.owner → eqIgnoreAsciiCase ownerEmail p.email = true
  email : ∀ p ∈ state.accounts, ∀ q ∈ state.accounts, p.email = q.email → p = q
  subject : ∀ p ∈ state.accounts, ∀ q ∈ state.accounts,
    p.issuer = q.issuer → p.subject = q.subject → p = q
  vault : ∀ p ∈ state.accounts, ∀ q ∈ state.accounts, p.vault = q.vault → p = q

/-- The principal can be a new account. -/
structure State.Joins (principal : Principal) : Prop where
  lower : principal.email.toList.map Char.toLower = principal.email.toList
  owner : principal.id = state.owner → eqIgnoreAsciiCase ownerEmail principal.email = true
  id : state.principals[principal.id]? = none
  email : ∀ q ∈ state.accounts, q.email ≠ principal.email
  subject : ∀ q ∈ state.accounts, ¬ (q.issuer = principal.issuer ∧ q.subject = principal.subject)
  vault : ∀ q ∈ state.accounts, q.vault ≠ principal.vault

end

theorem State.Bound.getElem? (hbound : state.Bound ownerEmail) (hmem : principal ∈ state.accounts) :
    state.principals[principal.id]? = some principal := by
  obtain ⟨id, hid⟩ := mem_values.1 hmem
  rwa [hbound.keyed id principal hid]

section
variable (config : AuthConfig) (owner : String)

@[simp]
theorem accounts_newState : (newState config owner).accounts = [] := rfl

theorem bound_newState : (newState config owner).Bound ownerEmail := by
  constructor
  case keyed => simp [newState]
  all_goals simp

end

/-- A relation between accounts that holds only of equal ones, also with the new account. -/
theorem eq_of_mem_accounts_enrol (R : Principal → Principal → Prop) (hsymm : ∀ p q, R p q → R q p)
    (hold : ∀ p ∈ state.accounts, ∀ q ∈ state.accounts, R p q → p = q)
    (hnew : ∀ q ∈ state.accounts, ¬ R q principal) :
    ∀ p ∈ (state.enrol principal).accounts, ∀ q ∈ (state.enrol principal).accounts,
      R p q → p = q := by
  intro p hp q hq hR
  rcases mem_of_mem_accounts_enrol hp with hp | hp
  · rcases mem_of_mem_accounts_enrol hq with hq | hq
    · rw [hp, hq]
    · exact absurd (hp ▸ hsymm p q hR) (hnew q hq)
  · rcases mem_of_mem_accounts_enrol hq with hq | hq
    · exact absurd (hq ▸ hR) (hnew p hp)
    · exact hold p hp q hq hR

theorem State.Bound.enrol (hbound : state.Bound ownerEmail)
    (hjoins : state.Joins ownerEmail principal) : (state.enrol principal).Bound ownerEmail where
  keyed := by
    intro id p hid
    simp only [principals_enrol, Std.TreeMap.getElem?_insert, Std.compare_eq_iff_eq] at hid
    split at hid
    case isTrue heq => exact some.inj hid ▸ heq
    case isFalse => exact hbound.keyed id p hid
  lower := by
    intro p hp
    rcases mem_of_mem_accounts_enrol hp with heq | hp
    · exact heq ▸ hjoins.lower
    · exact hbound.lower p hp
  owner := by
    intro p hp hid
    rcases mem_of_mem_accounts_enrol hp with heq | hp
    · subst heq
      exact hjoins.owner hid
    · exact hbound.owner p hp hid
  email := eq_of_mem_accounts_enrol (·.email = ·.email) (fun _ _ ↦ Eq.symm) hbound.email
    hjoins.email
  subject := by
    intro p hp q hq hissuer hsubject
    refine eq_of_mem_accounts_enrol (fun p q ↦ p.issuer = q.issuer ∧ p.subject = q.subject) ?_ ?_
      hjoins.subject p hp q hq ⟨hissuer, hsubject⟩
    · exact fun p q heq ↦ ⟨heq.1.symm, heq.2.symm⟩
    · exact fun p hp q hq heq ↦ hbound.subject p hp q hq heq.1 heq.2
  vault := eq_of_mem_accounts_enrol (·.vault = ·.vault) (fun _ _ ↦ Eq.symm) hbound.vault
    hjoins.vault

theorem State.Joins.keeps (hjoins : state.Joins ownerEmail principal) {other : Principal}
    (hmem : other ∈ state.accounts) : other ∈ (state.enrol principal).accounts :=
  mem_values_insert_of_mem hjoins.id hmem

theorem admitIdentity_eq_none (hadmission : admitIdentity config state identity = .ok none) :
    config.admitted identity.email = true ∧ (∀ q ∈ state.accounts, q.email ≠ identity.email) ∧
      ∀ q ∈ state.accounts, ¬ q.IsOf identity := by
  rw [admitIdentity, bind_eq_ok] at hadmission
  obtain ⟨_, hadmitted, hlookup⟩ := hadmission
  rw [ensure_eq_ok] at hadmitted
  split at hlookup
  case h_1 =>
    obtain ⟨_, -, hsome⟩ := bind_eq_ok.1 hlookup
    cases hsome
  case h_2 hemail =>
    split at hlookup
    case h_1 =>
      obtain ⟨_, -, hsome⟩ := bind_eq_ok.1 hlookup
      cases hsome
    case h_2 hsubject =>
      rw [List.find?_eq_none] at hemail hsubject
      exact ⟨hadmitted, by simpa using hemail, by simpa using hsubject⟩

theorem admitIdentity_eq_some
    (hadmission : admitIdentity config state identity = .ok (some principal)) :
    principal ∈ state.accounts ∧ principal.IsOf identity := by
  rw [admitIdentity, bind_eq_ok] at hadmission
  obtain ⟨_, -, hlookup⟩ := hadmission
  split at hlookup
  case h_1 hemail =>
    simp only [bind_eq_ok, ensure_eq_ok, pure_eq_ok, some.injEq, decide_eq_true_eq] at hlookup
    obtain ⟨_, hof, rfl⟩ := hlookup
    exact ⟨List.mem_of_find?_eq_some hemail, hof⟩
  case h_2 =>
    split at hlookup
    case h_2 => simp [pure_eq_ok] at hlookup
    case h_1 hsubject =>
      simp only [bind_eq_ok, ensure_eq_ok, pure_eq_ok, some.injEq] at hlookup
      obtain ⟨_, -, rfl⟩ := hlookup
      exact ⟨List.mem_of_find?_eq_some hsubject, by simpa using List.find?_some hsubject⟩

/-- Whoever has an account gets that one, or is turned away. -/
theorem admit_of_mem (hbound : state.Bound ownerEmail) (hmem : principal ∈ state.accounts)
    (hof : principal.IsOf identity) {result : Option Principal}
    (hadmission : admitIdentity config state identity = .ok result) : result = some principal := by
  cases result with
  | none => exact absurd hof ((admitIdentity_eq_none hadmission).2.2 principal hmem)
  | some other =>
    obtain ⟨hother, hof'⟩ := admitIdentity_eq_some hadmission
    rw [hbound.subject other hother principal hmem (hof'.1.trans hof.1.symm)
      (hof'.2.trans hof.2.symm)]

/-- The owner has no account yet, if the login of the owner finds none. -/
theorem State.Bound.owner_new (hbound : state.Bound config.ownerEmail)
    (hadmission : admitIdentity config state identity = .ok none)
    (howner : eqIgnoreAsciiCase config.ownerEmail identity.email = true) :
    state.principals[state.owner]? = none := by
  cases hentry : state.principals[state.owner]? with
  | none => rfl
  | some p =>
    have hmem : p ∈ state.accounts := mem_values_of_getElem? hentry
    have hbelongs := hbound.owner p hmem (hbound.keyed _ _ hentry)
    have hemail := eq_of_eqIgnoreAsciiCase (hbound.lower p hmem) identity.lower hbelongs howner
    exact absurd hemail ((admitIdentity_eq_none hadmission).2.1 p hmem)

/-- A login that is neither known nor turned away can make a new account. -/
theorem State.Bound.joins (hbound : state.Bound config.ownerEmail) {fresh : String}
    {vault : VaultId} (hadmission : admitIdentity config state identity = .ok none)
    (hfresh : fresh ≠ state.owner) (hnew : state.principals[fresh]? = none)
    (hvault : ∀ q ∈ state.accounts, q.vault ≠ vault) :
    state.Joins config.ownerEmail ⟨accountId config state identity fresh, identity.issuer,
      identity.subject, identity.email, vault⟩ := by
  obtain ⟨-, hemail, hsubject⟩ := admitIdentity_eq_none hadmission
  unfold accountId
  split
  case isTrue howner =>
    exact ⟨identity.lower, fun _ ↦ howner, hbound.owner_new hadmission howner, hemail, hsubject,
      hvault⟩
  case isFalse =>
    exact ⟨identity.lower, fun heq ↦ absurd heq hfresh, hnew, hemail, hsubject, hvault⟩

variable (server : Server) in
/-- The steps that are possible, and what they make of the server. -/
inductive Server.Steps :
    EnrolLabel → Server → Option (Except String Principal) → Prop
  | refuse {identity : Identity} {message : String} (fresh : String) (htask : server.task = .idle)
      (hadmission : admitIdentity server.config server.stored identity = .error message) :
      Steps (.enroll identity fresh) server (some (.error message))
  | known {identity : Identity} {principal : Principal} (fresh : String)
      (htask : server.task = .idle)
      (hadmission : admitIdentity server.config server.stored identity = .ok (some principal)) :
      Steps (.enroll identity fresh) server (some (.ok principal))
  | begins {identity : Identity} {fresh : String} (htask : server.task = .idle)
      (hfresh : server.FreshId fresh)
      (hadmission : admitIdentity server.config server.stored identity = .ok none) :
      Steps (.enroll identity fresh)
        { server with
          task := .creating identity (accountId server.config server.stored identity fresh) } none
  | taken {identity : Identity} {id : String} (draw : Draw) (outcome : Outcome)
      (htask : server.task = .creating identity id) (hname : personalVault id ∈ server.vaultNames) :
      Steps (.createVault draw outcome) { server with task := .idle }
        (some (.error ("vault already exists: " ++ personalVault id)))
  | creates {identity : Identity} {id : String} {draw : Draw}
      (htask : server.task = .creating identity id) (hname : personalVault id ∉ server.vaultNames)
      (hfresh : server.FreshVault draw.id) :
      Steps (.createVault draw .done)
        { server with
          vaults := server.vaults.pushVault ⟨⟨draw.id, personalVault id, draw.now⟩, []⟩
          task := .saving ⟨id, identity.issuer, identity.subject, identity.email, draw.id⟩ } none
  | createFails {identity : Identity} {id : String} {draw : Draw} (message : String)
      (written : Bool) (htask : server.task = .creating identity id)
      (hname : personalVault id ∉ server.vaultNames) :
      Steps (.createVault draw (.failed message written))
        { server with
          vaults := (Outcome.failed message written).leaves server.vaults
            (server.vaults.pushVault ⟨⟨draw.id, personalVault id, draw.now⟩, []⟩)
          task := .idle }
        (some (.error message))
  | saves {principal : Principal} (htask : server.task = .saving principal) : Steps (.save .done)
        { server with
          saved := server.stored.enrol principal
          stored := server.stored.enrol principal
          task := .idle }
        (some (.ok principal))
  | saveFails {principal : Principal} (message : String) (written : Bool)
      (htask : server.task = .saving principal) :
      Steps (.save (.failed message written))
        { server with
          saved := (Outcome.failed message written).leaves server.saved
            (server.stored.enrol principal)
          task := .rollingBack principal message } none
  | unavailable {principal : Principal} {message message' : String} (outcome : Outcome)
      (htask : server.task = .rollingBack principal message)
      (hvault : (deleteVault principal.vault).runOn server.vaults =
        (.error message', server.vaults)) :
      Steps (.deleteVault outcome) { server with task := .idle }
        (some (.error "rolling back personal vault after enrollment failed"))
  | deletes {principal : Principal} {message message' : String} (outcome : Outcome)
      (htask : server.task = .rollingBack principal message) :
      Steps (.deleteVault outcome)
        { server with
          vaults := outcome.leaves server.vaults (server.vaults.removeVault principal.vault)
          task := .idle }
        (some (.error message'))
  | restarts {allowedEmails : List String}
      (hopen : openStore { server.config with allowedEmails } server.saved = .ok server.saved) :
      Steps (.restart allowedEmails)
        { server with
          config := { server.config with allowedEmails }
          stored := server.saved
          task := .idle } none

theorem trim_personalVault (id : String) :
    (Scheduler.trim (personalVault id).toList).isEmpty = false := by
  rw [personalVault, String.toList_append]
  exact trim_cons (by decide) _

theorem openStore_eq_ok {state' : State} (hopen : openStore config state = .ok state') :
    state' = state := by
  simp only [openStore, bind_eq_ok, pure_eq_ok] at hopen
  obtain ⟨_, -, _, -, heq⟩ := hopen
  exact heq.symm

theorem deleteVault_run {vaultId : VaultId} {catalog catalog' : Catalog Unit}
    (hrun : (deleteVault vaultId).runOn catalog = (.ok (), catalog')) :
    catalog' = catalog.removeVault vaultId := by
  simp only [deleteVault, InPlace.bind_ok, InPlace.look_ok, InPlace.check_ok, InPlace.update_ok,
    InPlace.pure_ok] at hrun
  obtain ⟨_, _, ⟨-, rfl⟩, _, _, ⟨-, rfl⟩, _, _, rfl, -, rfl⟩ := hrun
  rfl

theorem createVault_ok {draw : Draw} {name : String} {catalog catalog' : Catalog Unit}
    {record : VaultRecord}
    (hrun : (createVault draw name).runOn catalog = (.ok record, catalog')) :
    name ∉ catalog.vaults.map (·.record.name) ∧ record = ⟨draw.id, name, draw.now⟩ ∧
      catalog' = catalog.pushVault ⟨⟨draw.id, name, draw.now⟩, []⟩ := by
  simp only [createVault, create, InPlace.bind_ok, InPlace.check_ok, InPlace.look_ok,
    InPlace.update_ok, InPlace.pure_ok, ensure_eq_ok] at hrun
  obtain ⟨_, _, ⟨-, rfl⟩, _, _, ⟨⟨⟩, rfl⟩, _, _, ⟨htaken, rfl⟩, _, _, rfl, rfl, rfl⟩ := hrun
  exact ⟨by simpa using htaken, rfl, rfl⟩

theorem Server.steps_of_step (hstep : server.step label = some (after, answer)) :
    server.Steps label after answer := by
  revert hstep
  fun_cases Server.step server label <;> intro hstep <;>
    first
    | obtain ⟨rfl, rfl⟩ := Prod.mk.inj (Option.some.inj hstep)
    | cases hstep
  · exact .refuse _ ‹_› ‹_›
  · exact .known _ ‹_› ‹_›
  · exact .begins ‹_› ‹_› ‹_›
  · rename_i draw outcome identity id htask hfresh message vaults hrun
    have hname : personalVault id ∈ server.vaultNames := by
      by_contra hname
      cases (createVault_run draw (trim_personalVault id) hname).symm.trans hrun
    cases (createVault_run_taken draw (trim_personalVault id) hname).symm.trans hrun
    exact .taken draw outcome htask hname
  · obtain ⟨hname, rfl, rfl⟩ := createVault_ok ‹_›
    exact .creates ‹_› hname ‹_›
  · obtain ⟨hname, rfl, rfl⟩ := createVault_ok ‹_›
    exact .createFails _ _ ‹_› hname
  · exact .saves ‹_›
  · exact .saveFails _ _ ‹_›
  · rename_i principal _ _ _ _ message' vaults hrun
    have hvaults := atomic_deleteVault principal.vault server.vaults message'
      (congrArg Prod.fst hrun)
    obtain rfl := (congrArg Prod.snd hrun).symm.trans hvaults
    exact .unavailable _ ‹_› hrun
  · obtain rfl := deleteVault_run ‹_›
    exact .deletes _ ‹_›
  · obtain rfl := deleteVault_run ‹_›
    exact .deletes _ ‹_›
  · rename_i hopen
    obtain rfl := openStore_eq_ok hopen
    exact .restarts hopen

theorem Server.steps_of_enabled (henabled : enrolments.enabled server label) :
    server.Steps label (enrolments.next server label) (server.answer label) := by
  obtain ⟨⟨after, answer⟩, hstep⟩ := isSome_iff_exists.1 henabled
  have hsteps := steps_of_step hstep
  simpa [enrolments, Server.answer, hstep] using hsteps

/-- What the enrolment under way will add can be added. -/
def Server.TaskSound (server : Server) : Prop :=
  match server.task with
  | .idle => True
  | .creating identity id => ∀ vault, (∀ q ∈ server.stored.accounts, q.vault ≠ vault) →
    server.stored.Joins server.config.ownerEmail
      ⟨id, identity.issuer, identity.subject, identity.email, vault⟩
  | .saving principal | .rollingBack principal _ =>
    server.stored.Joins server.config.ownerEmail principal

/-- The stored and the saved accounts are distinct, and all that is stored is saved. -/
structure Server.Sound (server : Server) : Prop where
  stored : server.stored.Bound server.config.ownerEmail
  saved : server.saved.Bound server.config.ownerEmail
  kept : ∀ p ∈ server.stored.accounts, p ∈ server.saved.accounts
  owner : server.saved.owner = server.stored.owner
  deployment : server.saved.deployment = server.config.deployment ∧
    server.stored.deployment = server.config.deployment
  task : server.TaskSound

theorem Server.sound_new (config : AuthConfig) (owner : String) (vaults : Catalog Unit) :
    (Server.new config owner vaults).Sound where
  stored := bound_newState config owner
  saved := bound_newState config owner
  kept := fun _ ↦ id
  owner := rfl
  deployment := ⟨rfl, rfl⟩
  task := trivial

section
variable (hsound : server.Sound) (hstep : server.Steps label after answer)
include hsound hstep

theorem Server.Sound.steps : after.Sound := by
  obtain ⟨hstored, hsaved, hkept, howner, hdeployment, htasksound⟩ := hsound
  cases hstep with
  | refuse | known => exact ⟨hstored, hsaved, hkept, howner, hdeployment, htasksound⟩
  | begins _ hfresh hadmission =>
    refine ⟨hstored, hsaved, hkept, howner, hdeployment, fun vault hvault ↦ ?_⟩
    exact hstored.joins hadmission hfresh.1 hfresh.2.1 hvault
  | taken | createFails | unavailable | deletes =>
    exact ⟨hstored, hsaved, hkept, howner, hdeployment, trivial⟩
  | creates htask _ hfresh =>
    simp only [TaskSound, htask] at htasksound
    exact ⟨hstored, hsaved, hkept, howner, hdeployment, htasksound _ hfresh.2.1⟩
  | saves htask =>
    simp only [TaskSound, htask] at htasksound
    have hbound := hstored.enrol htasksound
    exact ⟨hbound, hbound, fun _ ↦ id, rfl, ⟨hdeployment.2, hdeployment.2⟩, trivial⟩
  | saveFails message written htask =>
    simp only [TaskSound, htask] at htasksound
    cases written with
    | false => exact ⟨hstored, hsaved, hkept, howner, hdeployment, htasksound⟩
    | true =>
      exact ⟨hstored, hstored.enrol htasksound, fun _ ↦ htasksound.keeps, rfl,
        ⟨hdeployment.2, hdeployment.2⟩, htasksound⟩
  | restarts =>
    exact ⟨hsaved, hsaved, fun _ ↦ id, rfl, ⟨hdeployment.1, hdeployment.1⟩, trivial⟩

theorem Server.Sound.keeps
    (hmem : principal ∈ server.stored.accounts) : principal ∈ after.stored.accounts := by
  cases hstep with
  | saves htask =>
    have hjoins := hsound.task
    simp only [TaskSound, htask] at hjoins
    exact hjoins.keeps hmem
  | restarts => exact hsound.kept principal hmem
  | _ => exact hmem

end

/-- The server can be started again. -/
theorem Server.Sound.openStore (hsound : server.Sound) (allowedEmails : List String) :
    openStore { server.config with allowedEmails } server.saved = .ok server.saved := by
  have howner : server.saved.principals[server.saved.owner]?.all (fun principal ↦
      eqIgnoreAsciiCase principal.email server.config.ownerEmail) = true := by
    cases hentry : server.saved.principals[server.saved.owner]? with
    | none => rfl
    | some p =>
      rw [all_some, eqIgnoreAsciiCase_comm]
      exact hsound.saved.owner p (mem_values_of_getElem? hentry) (hsound.saved.keyed _ _ hentry)
  have hdeployment : (server.saved.deployment ==
      AuthConfig.deployment { server.config with allowedEmails }) = true :=
    beq_iff_eq.2 hsound.deployment.1
  simp only [Remote.openStore, hdeployment, howner, ensure, if_true]
  rfl

end Exo.Remote
