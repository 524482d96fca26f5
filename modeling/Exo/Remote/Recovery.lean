import Exo.Remote.Accounts

/-!
# Logins after a failure

After a failure or a crash the logins of all identities work again, unless it has left the personal
vault of the owner behind without an account.
-/

namespace Exo.Remote

open Library Vault List System

variable {config : AuthConfig} {state : State} {principal : Principal} {identity : Identity}
  {server after : Server} {label : EnrolLabel} {answer : Option (Except String Principal)}

/-! ## The vault of the owner -/

theorem personalVault_inj {id other : String} :
    personalVault id = personalVault other ↔ id = other := by
  constructor
  · intro heq
    have hlists := congrArg String.toList heq
    simp only [personalVault, String.toList_append] at hlists
    exact String.toList_inj.1 (append_cancel_left hlists)
  · exact congrArg personalVault

theorem personalVault_ne_global (id : String) : (personalVault id != "global") = true := by
  rw [bne_iff_ne]
  intro heq
  have hlists := congrArg (fun text ↦ text.toList.head?) heq
  simp [personalVault] at hlists

section
variable (server : Server)

/-- No vault stands in the way of the account of the owner. -/
def Server.OwnerFree : Prop :=
  server.stored.principals[server.stored.owner]? = none →
    personalVault server.stored.owner ∉ server.vaultNames

/-- The personal vault of the account is the one that was made for it. -/
def Server.Made (principal : Principal) : Prop :=
  ∀ vault ∈ server.vaults.vaults,
    vault.record.name = personalVault principal.id ↔ vault.record.id = principal.vault

def Server.Recoverable : Prop :=
  match server.task with
  | .idle | .creating _ _ => server.OwnerFree
  | .saving principal | .rollingBack principal _ =>
    if principal.id = server.stored.owner then server.Made principal else server.OwnerFree

/-- The step leaves no personal vault of the owner behind that no account has. -/
def Server.Completes (label : EnrolLabel) : Prop :=
  match server.task, label with
  | .creating _ id, .createVault _ (.failed _ true) => id ≠ server.stored.owner
  | .rollingBack principal _, .deleteVault (.failed _ false) => principal.id ≠ server.stored.owner
  | .saving principal, .restart _ | .rollingBack principal _, .restart _ =>
    principal.id ≠ server.stored.owner ∨ (server.saved.principals[server.stored.owner]?).isSome
  | _, _ => True

end

instance (server : Server) (label : EnrolLabel) : Decidable (server.Completes label) := by
  unfold Server.Completes
  split <;> infer_instance

namespace Server

theorem vaultNames_push (server : Server) (vault : StoredVault Unit) :
    (server.vaults.pushVault vault).vaults.map (·.record.name) =
      server.vaultNames ++ [vault.record.name] := by
  simp [Catalog.pushVault, vaultNames]

theorem ownerFree_of_subset (hfree : server.OwnerFree)
    (hstored : after.stored = server.stored)
    (hnames : ∀ name ∈ after.vaultNames, name ∈ server.vaultNames) : after.OwnerFree := by
  intro hnone hname
  rw [hstored] at hnone hname
  exact hfree hnone (hnames _ hname)

theorem vaultNames_remove (server : Server) (id : VaultId) :
    ∀ name ∈ (server.vaults.removeVault id).vaults.map (·.record.name),
      name ∈ server.vaultNames := by
  intro name hname
  obtain ⟨vault, hvault, rfl⟩ := mem_map.1 hname
  exact mem_map_of_mem (mem_of_mem_filter hvault)

theorem vaultNames_leaves (server : Server) (outcome : Outcome) (id : VaultId) :
    ∀ name ∈ (outcome.leaves server.vaults (server.vaults.removeVault id)).vaults.map
      (·.record.name), name ∈ server.vaultNames := by
  unfold Outcome.leaves
  split
  · exact server.vaultNames_remove id
  · exact server.vaultNames_remove id
  · exact fun _ hname ↦ hname

/-- The vaults with a new one, and the name of the owner's still free. -/
theorem ownerFree_push (hfree : server.OwnerFree) {vault : StoredVault Unit}
    (hstored : after.stored = server.stored)
    (hvaults : after.vaults = server.vaults.pushVault vault)
    (hname : vault.record.name ≠ personalVault server.stored.owner) : after.OwnerFree := by
  intro hnone hmem
  rw [hstored] at hnone hmem
  rw [vaultNames, hvaults, vaultNames_push, mem_append, mem_singleton] at hmem
  rcases hmem with hmem | heq
  · exact hfree hnone hmem
  · exact hname heq.symm

/-- Who is stored as the owner is saved as the owner. -/
theorem Sound.stored_none (hsound : server.Sound)
    (hnone : server.saved.principals[server.saved.owner]? = none) :
    server.stored.principals[server.stored.owner]? = none := by
  cases hentry : server.stored.principals[server.stored.owner]? with
  | none => rfl
  | some p =>
    have hsaved := hsound.saved.getElem? (hsound.kept p (mem_values_of_getElem? hentry))
    rw [hsound.stored.keyed _ _ hentry, ← hsound.owner, hnone] at hsaved
    cases hsaved

theorem made_push {draw : Draw} {principal : Principal}
    (hname : personalVault principal.id ∉ server.vaultNames)
    (hfresh : server.FreshVault principal.vault)
    (hvaults : after.vaults =
      server.vaults.pushVault ⟨⟨principal.vault, personalVault principal.id, draw.now⟩, []⟩) :
    after.Made principal := by
  intro vault hvault
  rw [hvaults, Catalog.pushVault, mem_append, mem_singleton] at hvault
  rcases hvault with hvault | heq
  · have hother : vault.record.name ≠ personalVault principal.id := by
      intro heq
      exact hname (heq ▸ mem_map_of_mem hvault)
    exact iff_of_false hother (hfresh.1 vault hvault)
  · simp [heq]

/-- The deletion of the vault that was made leaves none of its name. -/
theorem Made.removed (hmade : server.Made principal) : personalVault principal.id ∉
      (server.vaults.removeVault principal.vault).vaults.map (·.record.name) := by
  intro hmem
  obtain ⟨vault, hvault, hname⟩ := mem_map.1 hmem
  simp only [Catalog.removeVault, mem_filter, bne_iff_ne] at hvault
  exact hvault.2 ((hmade vault hvault.1).1 hname)

theorem Made.unavailable (hmade : server.Made principal) {message : String}
    (hrun : (deleteVault principal.vault).runOn server.vaults = (.error message, server.vaults)) :
    personalVault principal.id ∉ server.vaultNames := by
  intro hmem
  obtain ⟨vault, hvault, hname⟩ := mem_map.1 hmem
  have hexists : ∃ vault ∈ server.vaults.vaults, vault.record.id = principal.vault :=
    ⟨vault, hvault, (hmade vault hvault).1 hname⟩
  obtain ⟨found, hfound⟩ : ∃ found,
      server.vaults.vaults.find? (·.record.id = principal.vault) = some found :=
    Option.isSome_iff_exists.1 (by simpa using hexists)
  have hid : found.record.id = principal.vault := by simpa using find?_some hfound
  have hglobal : (found.record.name != "global") = true := by
    rw [(hmade found (mem_of_find?_eq_some hfound)).2 hid]
    exact personalVault_ne_global _
  simp only [deleteVault, InPlace.runOn_bind, InPlace.runOn_look, InPlace.runOn_check,
    Catalog.vault, hfound, context, ensure, hglobal, if_true] at hrun
  cases hrun

/-! ## The steps -/

theorem Recoverable.steps (hsound : server.Sound) (hrecoverable : server.Recoverable)
    (hcompletes : server.Completes label) (hstep : server.Steps label after answer) :
    after.Recoverable := by
  unfold Recoverable at hrecoverable
  cases hstep with
  | refuse | known => exact hrecoverable
  | begins htask | taken _ _ htask | saveFails message written htask =>
    simp only [htask] at hrecoverable
    exact hrecoverable
  | creates htask hname hfresh =>
    simp only [htask] at hrecoverable
    simp only [Recoverable]
    split
    · exact made_push hname hfresh rfl
    · refine ownerFree_push hrecoverable rfl rfl ?_
      exact fun heq ↦ ‹¬ _› (personalVault_inj.1 heq)
  | createFails message written htask =>
    simp only [htask] at hrecoverable
    cases written with
    | false => exact hrecoverable
    | true =>
      simp only [Completes, htask] at hcompletes
      refine ownerFree_push hrecoverable rfl rfl ?_
      exact fun heq ↦ hcompletes (personalVault_inj.1 heq)
  | @saves principal htask =>
    simp only [htask] at hrecoverable
    intro (hnone :
      (server.stored.principals.insert principal.id principal)[server.stored.owner]? = none)
    have hother : principal.id ≠ server.stored.owner := by
      intro heq
      rw [← heq, Std.TreeMap.getElem?_insert_self] at hnone
      cases hnone
    rw [if_neg hother] at hrecoverable
    rw [Std.TreeMap.getElem?_insert, if_neg (by simpa using hother)] at hnone
    exact hrecoverable hnone
  | unavailable outcome htask hrun =>
    simp only [htask] at hrecoverable
    split at hrecoverable
    case isTrue hid => exact fun _ ↦ hid ▸ hrecoverable.unavailable hrun
    case isFalse => exact hrecoverable
  | deletes outcome htask =>
    simp only [htask] at hrecoverable
    simp only [Completes, htask] at hcompletes
    split at hrecoverable
    case isTrue hid =>
      intro _
      show personalVault server.stored.owner ∉
        (outcome.leaves server.vaults (server.vaults.removeVault _)).vaults.map (·.record.name)
      cases outcome with
      | done => exact hid ▸ hrecoverable.removed
      | failed message written =>
        cases written with
        | true => exact hid ▸ hrecoverable.removed
        | false => exact absurd hid hcompletes
    case isFalse =>
      refine ownerFree_of_subset hrecoverable rfl fun name hname ↦ ?_
      exact vaultNames_leaves server outcome _ name hname
  | restarts =>
    intro (hnone : server.saved.principals[server.saved.owner]? = none)
    have hstored := hsound.stored_none hnone
    rw [hsound.owner] at hnone
    show personalVault server.saved.owner ∉ server.vaultNames
    rw [hsound.owner]
    simp only [Completes, hnone] at hcompletes
    split at hrecoverable
    case h_1 | h_2 => exact hrecoverable hstored
    case h_3 htask | h_4 htask =>
      simp only [htask, Option.isSome_none, Bool.false_eq_true, or_false] at hcompletes
      rw [if_neg hcompletes] at hrecoverable
      exact hrecoverable hstored

end Server

/-! ## A login that works -/

/-- The configuration lets the identity in: its email is admitted and that of no other account, and
if it has an account, the email of that one is admitted too. -/
def Welcome (config : AuthConfig) (state : State) (identity : Identity) : Prop :=
  config.admitted identity.email = true ∧
    ∀ p ∈ state.accounts, (p.email = identity.email → p.IsOf identity) ∧
      (p.IsOf identity → config.admitted p.email = true)

instance (config : AuthConfig) (state : State) (identity : Identity) :
    Decidable (Welcome config state identity) :=
  inferInstanceAs (Decidable (_ ∧ _))

/-- A login in which all calls succeed. -/
def Server.attempt (server : Server) (identity : Identity) (fresh : String) (draw : Draw) :
    List EnrolLabel :=
  match admitIdentity server.config server.stored identity with
  | .ok none => [.enroll identity fresh, .createVault draw .done, .save .done]
  | _ => [.enroll identity fresh]

/-- A login that is let in gets an account, if all calls succeed. -/
def Server.Recovers (server : Server) : Prop :=
  ∀ identity, Welcome server.config server.stored identity →
    ∀ fresh draw, server.FreshId fresh → server.FreshVault draw.id →
      enrolments.Admits server (server.attempt identity fresh draw) ∧
        ∃ p ∈ (enrolments.exec server (server.attempt identity fresh draw)).stored.accounts,
          p.IsOf identity

theorem admit_ne_error (hwelcome : Welcome config state identity) (message : String) :
    admitIdentity config state identity ≠ .error message := by
  obtain ⟨hadmitted, haccounts⟩ := hwelcome
  intro hadmission
  simp only [admitIdentity, hadmitted, ensure, if_true] at hadmission
  split at hadmission
  case h_1 p hemail =>
    have hmem := mem_of_find?_eq_some hemail
    have hof := (haccounts p hmem).1 (by simpa using find?_some hemail)
    simp [hof] at hadmission
    cases hadmission
  case h_2 =>
    split at hadmission
    case h_1 p hsubject =>
      have hmem := mem_of_find?_eq_some hsubject
      have hof := (haccounts p hmem).2 (by simpa using find?_some hsubject)
      simp [hof] at hadmission
      cases hadmission
    case h_2 => cases hadmission

theorem Server.next_of_step (hstep : server.step label = some (after, answer)) :
    enrolments.enabled server label ∧ enrolments.next server label = after := by
  simp [enrolments, hstep]

/-- The name of the personal vault of a login that makes a new account is free. -/
theorem Server.OwnerFree.accountId (hfree : server.OwnerFree) (hsound : server.Sound)
    (hadmission : admitIdentity server.config server.stored identity = .ok none) {fresh : String}
    (hfresh : server.FreshId fresh) :
    personalVault (accountId server.config server.stored identity fresh) ∉ server.vaultNames := by
  unfold Remote.accountId
  split
  case isTrue howner => exact hfree (hsound.stored.owner_new hadmission howner)
  case isFalse => exact hfresh.2.2.2

theorem Server.recovers_of_ownerFree (hsound : server.Sound) (hfree : server.OwnerFree)
    (htask : server.task = .idle) : server.Recovers := by
  intro identity hwelcome fresh draw hfresh hvault
  unfold attempt
  cases hadmission : admitIdentity server.config server.stored identity with
  | error message => exact absurd hadmission (admit_ne_error hwelcome message)
  | ok known =>
    cases known with
    | some p =>
      obtain ⟨hmem, hof⟩ := admitIdentity_eq_some hadmission
      have hstep : server.step (.enroll identity fresh) = some (server, some (.ok p)) := by
        simp only [step, htask, hfresh, if_true, hadmission]
      obtain ⟨henabled, hnext⟩ := next_of_step hstep
      refine ⟨⟨henabled, trivial⟩, p, ?_, hof⟩
      simp only [exec_cons, exec_nil, hnext]
      exact hmem
    | none =>
      have hname := hfree.accountId hsound hadmission hfresh
      let id := Remote.accountId server.config server.stored identity fresh
      let p : Principal := ⟨id, identity.issuer, identity.subject, identity.email, draw.id⟩
      let creating := { server with task := .creating identity id }
      let saving := { server with
        vaults := server.vaults.pushVault ⟨⟨draw.id, personalVault id, draw.now⟩, []⟩
        task := .saving p }
      let saved := { saving with
        saved := server.stored.enrol p
        stored := server.stored.enrol p
        task := .idle }
      have hbegins : server.step (.enroll identity fresh) = some (creating, none) := by
        simp only [step, htask, hfresh, if_true, hadmission, creating, id]
      have hcreates : creating.step (.createVault draw .done) = some (saving, none) := by
        have hrun := createVault_run draw (trim_personalVault id) hname
        have hvault : creating.FreshVault draw.id := hvault
        simp only [step, creating, hvault, if_true]
        rw [hrun]
        rfl
      have hsaves : saving.step (.save .done) = some (saved, some (.ok p)) := rfl
      obtain ⟨hbegins, hcreating⟩ := next_of_step hbegins
      obtain ⟨hcreates, hsaving⟩ := next_of_step hcreates
      obtain ⟨hsaves, hsaved⟩ := next_of_step hsaves
      simp only [admits_cons, exec_cons, hcreating, hsaving, hsaved]
      exact ⟨⟨hbegins, hcreates, hsaves, trivial⟩, p, mem_accounts_enrol_self _ _, rfl, rfl⟩

/-! ## Runs -/

section
variable (server : Server) (label : EnrolLabel)

/-- An account stays as it is, and the login of its identity gets it or is turned away. -/
def Server.Binds : Prop :=
  (∀ p ∈ server.stored.accounts, p ∈ (enrolments.next server label).stored.accounts) ∧
    ∀ identity fresh, label = .enroll identity fresh → ∀ p ∈ server.stored.accounts,
      p.IsOf identity → server.answer label = some (.ok p) ∨
        ∃ message, server.answer label = some (.error message)

/-- No save fails after it has written. -/
def SavesCleanly (_ : Server) (label : EnrolLabel) : Prop :=
  match label with
  | .save (.failed _ written) => written = false
  | _ => True

instance (server : Server) (label : EnrolLabel) : Decidable (SavesCleanly server label) := by
  unfold SavesCleanly
  split <;> infer_instance

/-- Nothing but a save that succeeds changes the accounts, or anything else that is stored. -/
def FailsCleanly : Prop :=
  label ≠ .save .done → (enrolments.next server label).stored = server.stored ∧
    (enrolments.next server label).saved = server.saved

end

/-- Whoever has an account gets it or is turned away. -/
theorem Server.Sound.answers (hsound : server.Sound) {fresh : String}
    (hstep : server.Steps (.enroll identity fresh) after answer)
    (hmem : principal ∈ server.stored.accounts) (hof : principal.IsOf identity) :
    answer = some (.ok principal) ∨ ∃ message, answer = some (.error message) := by
  cases hstep with
  | refuse => exact .inr ⟨_, rfl⟩
  | known _ _ hadmission =>
    have hself := admit_of_mem hsound.stored hmem hof hadmission
    exact .inl (congrArg (some ∘ Except.ok) (Option.some.inj hself))
  | begins _ _ hadmission => cases admit_of_mem hsound.stored hmem hof hadmission

theorem Server.Sound.binds (hsound : server.Sound) (henabled : enrolments.enabled server label) :
    server.Binds label := by
  have hstep := steps_of_enabled henabled
  refine ⟨fun p hp ↦ hsound.keeps hstep hp, fun identity fresh hlabel p hp hof ↦ ?_⟩
  subst hlabel
  exact hsound.answers hstep hp hof

theorem Server.Sound.restarts (hsound : server.Sound) (allowedEmails : List String) :
    enrolments.enabled server (.restart allowedEmails) := by
  show (server.step (.restart allowedEmails)).isSome
  simp only [step, hsound.openStore allowedEmails]
  rfl

/-- While all saves are clean the stored state is the saved one. -/
theorem failsCleanly_of_steps (hsame : server.saved = server.stored)
    (hclean : SavesCleanly server label) (hstep : server.Steps label after answer) :
    after.saved = after.stored ∧
      (label ≠ .save .done → after.stored = server.stored ∧ after.saved = server.saved) := by
  cases hstep with
  | saves => exact ⟨rfl, fun hne ↦ absurd rfl hne⟩
  | saveFails message written htask =>
    have hwritten : written = false := hclean
    subst hwritten
    exact ⟨hsame, fun _ ↦ ⟨rfl, rfl⟩⟩
  | restarts => exact ⟨rfl, fun _ ↦ ⟨hsame, rfl⟩⟩
  | _ => exact ⟨hsame, fun _ ↦ ⟨rfl, rfl⟩⟩

theorem failsCleanly_throughout {labels : List EnrolLabel} (hsame : server.saved = server.stored)
    (hrun : enrolments.Admits server labels)
    (hclean : enrolments.Throughout SavesCleanly server labels) :
    enrolments.Throughout FailsCleanly server labels := by
  have hrestrict := (admits_restrict_iff SavesCleanly server labels).2 ⟨hrun, hclean⟩
  rw [← throughout_restrict SavesCleanly]
  refine throughout_of_invariant (fun server ↦ server.saved = server.stored) ?_ ?_ hsame hrestrict
  · exact fun server label hsame henabled ↦
      (failsCleanly_of_steps hsame henabled.2 (Server.steps_of_enabled henabled.1)).1
  · exact fun server label hsame henabled ↦
      (failsCleanly_of_steps hsame henabled.2 (Server.steps_of_enabled henabled.1)).2

/-- The owner of the server, and what is configured of the owner, stay. -/
structure Server.OwnedBy (ownerEmail owner : String) (server : Server) : Prop where
  sound : server.Sound
  email : server.config.ownerEmail = ownerEmail
  owner : server.stored.owner = owner

theorem Server.OwnedBy.steps {ownerEmail owner : String} (howned : server.OwnedBy ownerEmail owner)
    (hstep : server.Steps label after answer) : after.OwnedBy ownerEmail owner := by
  have hsound := howned.sound.steps hstep
  cases hstep with
  | restarts => exact ⟨hsound, howned.email, howned.sound.owner.trans howned.owner⟩
  | _ => exact ⟨hsound, howned.email, howned.owner⟩

section Runs
variable {owner : String} {vaults : Catalog Unit} {labels : List EnrolLabel}

theorem ownedBy_run (hrun : enrolments.Admits (.new config owner vaults) labels) :
    (enrolments.exec (.new config owner vaults) labels).OwnedBy config.ownerEmail owner := by
  refine invariant (Server.OwnedBy config.ownerEmail owner) ?_ ?_ hrun
  · exact fun server label howned henabled ↦ howned.steps (Server.steps_of_enabled henabled)
  · exact ⟨Server.sound_new config owner vaults, rfl, rfl⟩

theorem recoverable_run (hvault : personalVault owner ∉ vaults.vaults.map (·.record.name))
    (hrun : enrolments.Admits (.new config owner vaults) labels)
    (hcompletes : enrolments.Throughout Server.Completes (.new config owner vaults) labels) :
    (enrolments.exec (.new config owner vaults) labels).Recoverable := by
  have hrestrict := (admits_restrict_iff Server.Completes _ labels).2 ⟨hrun, hcompletes⟩
  refine (invariant_of_restrict (fun server ↦ server.Sound ∧ server.Recoverable) ?_ ?_ hrestrict).2
  · intro server label hsound henabled hlabel
    have hstep := Server.steps_of_enabled henabled
    exact ⟨hsound.1.steps hstep, hsound.2.steps hsound.1 hlabel hstep⟩
  · exact ⟨Server.sound_new config owner vaults, fun _ ↦ hvault⟩

/-- In every run the accounts are distinct, the account of the owner has the email of the owner,
every account stays, and the server can be started again.  If no save fails after it has written,
only a login that succeeds adds an account.  If no step leaves a personal vault of the owner behind
without an account, everyone who is let in can log in. -/
theorem enrolment_sound (hvault : personalVault owner ∉ vaults.vaults.map (·.record.name))
    (hrun : enrolments.Admits (.new config owner vaults) labels) :
    ((enrolments.exec (.new config owner vaults) labels).stored.Bound config.ownerEmail ∧
      (enrolments.exec (.new config owner vaults) labels).saved.Bound config.ownerEmail ∧
      (enrolments.exec (.new config owner vaults) labels).stored.owner = owner) ∧
    enrolments.Throughout Server.Binds (.new config owner vaults) labels ∧
    (∀ allowedEmails, enrolments.enabled (enrolments.exec (.new config owner vaults) labels)
      (.restart allowedEmails)) ∧
    (enrolments.Throughout SavesCleanly (.new config owner vaults) labels →
      enrolments.Throughout FailsCleanly (.new config owner vaults) labels) ∧
    (enrolments.Throughout Server.Completes (.new config owner vaults) labels →
      (enrolments.exec (.new config owner vaults) labels).task = .idle →
        (enrolments.exec (.new config owner vaults) labels).Recovers) := by
  have howned := ownedBy_run hrun
  refine ⟨⟨howned.email ▸ howned.sound.stored, howned.email ▸ howned.sound.saved, howned.owner⟩, ?_,
    howned.sound.restarts, failsCleanly_throughout rfl hrun, fun hcompletes htask ↦ ?_⟩
  · refine throughout_of_invariant Server.Sound ?_ ?_ (Server.sound_new config owner vaults) hrun
    · exact fun server label hsound henabled ↦ hsound.steps (Server.steps_of_enabled henabled)
    · exact fun server label hsound henabled ↦ hsound.binds henabled
  · have hrecoverable := recoverable_run hvault hrun hcompletes
    simp only [Server.Recoverable, htask] at hrecoverable
    exact Server.recovers_of_ownerFree howned.sound hrecoverable htask

end Runs

/-- A server that admits two people. -/
def twoConfig : AuthConfig :=
  ⟨"https://exo.example", ⟨"https://id.example", "exo"⟩, "owner@example", ["alice@example"], []⟩

def ownerIdentity : Identity := ⟨"https://id.example", "1", "owner@example", by decide⟩

def aliceIdentity : Identity := ⟨"https://id.example", "2", "alice@example", by decide⟩

section
variable (identity : Identity) (fresh : String) (id : ℕ)

/-- A login whose save fails as given. -/
def failedLogin (written : Bool) : List EnrolLabel :=
  [.enroll identity fresh, .createVault ⟨id, 0, 0⟩ .done, .save (.failed "disk full" written),
    .deleteVault .done]

def fullLogin : List EnrolLabel :=
  [.enroll identity fresh, .createVault ⟨id, 0, 0⟩ .done, .save .done]

end

/-- A login fails, the server is restarted, and both log in. -/
def twoLogins : List EnrolLabel :=
  failedLogin aliceIdentity "p1" 1 false ++ [.restart ["alice@example"]] ++
    fullLogin ownerIdentity "p2" 2 ++ fullLogin aliceIdentity "p3" 3

theorem enrolment_sound_two :
    (enrolments.exec (.new twoConfig "p0" {}) twoLogins).stored.Bound "owner@example" ∧
      (enrolments.exec (.new twoConfig "p0" {}) twoLogins).stored.accounts.map (·.id) =
        ["p0", "p3"] ∧
      enrolments.Throughout FailsCleanly (.new twoConfig "p0" {}) twoLogins ∧
      (enrolments.exec (.new twoConfig "p0" {}) twoLogins).Recovers := by
  have hrun : enrolments.Admits (.new twoConfig "p0" {}) twoLogins := by decide +kernel
  obtain ⟨hbound, -, -, hfails, hrecovers⟩ := enrolment_sound (by decide +kernel) hrun
  exact ⟨hbound.1, by decide +kernel, hfails (by decide +kernel), hrecovers (by decide +kernel) rfl⟩

/-- The server crashes between the vault of the owner and the save. -/
def crashedLogin : List EnrolLabel :=
  [.enroll ownerIdentity "p1", .createVault ⟨1, 0, 0⟩ .done, .restart []]

/-- A save fails after it has written, and the server is restarted. -/
def phantomLogin : List EnrolLabel :=
  failedLogin aliceIdentity "p1" 1 true ++ [.restart ["alice@example"]]

/-- The owner cannot log in after a crash, and a login that has failed leaves an account. -/
theorem enrolment_unsound : (enrolments.Admits (.new twoConfig "p0" {}) crashedLogin ∧
      ¬ (enrolments.exec (.new twoConfig "p0" {}) crashedLogin).Recovers) ∧
    enrolments.Admits (.new twoConfig "p0" {}) phantomLogin ∧
      (enrolments.exec (.new twoConfig "p0" {})
        (failedLogin aliceIdentity "p1" 1 true)).stored.accounts = [] ∧
      (enrolments.exec (.new twoConfig "p0" {}) phantomLogin).stored.accounts.map (·.email) =
        ["alice@example"] := by
  refine ⟨⟨by decide +kernel, fun hrecovers ↦ ?_⟩, by decide +kernel,
    by decide +kernel, by decide +kernel⟩
  obtain ⟨-, p, hp, -⟩ := hrecovers ownerIdentity (by decide +kernel) "p2" ⟨2, 0, 0⟩
    (by decide +kernel) (by decide +kernel)
  revert p
  decide +kernel

end Exo.Remote
