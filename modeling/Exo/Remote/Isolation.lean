import Exo.Remote.CallerSteps

/-!
# Callers are isolated

An entry of the three maps is written before the resource is there or, for a vault, before anybody
sees it, and nothing that is adopted has an entry of a caller.  So what a caller has created stays
with the caller, and the personal vault of a principal is nobody else's.

The vaults that a call lists are looked up one after the other.  Each was the caller's own or a
shared one at the time of its lookup.
-/

namespace Exo.Remote

open Library Vault List
open Egress.Runtime (ResourceScope)
open Exo.Policy (idText)
open Storage (uuidText)

variable {server after : AccessServer} {label : AccessLabel} {policy : Policy} {state next : State}

theorem idText_injective {id other : ℕ} (hid : id < 2 ^ 128) (hother : other < 2 ^ 128)
    (heq : idText id = idText other) : id = other := by
  have htext : uuidText.text (Fin.ofNat (2 ^ 128) id) = uuidText.text (Fin.ofNat (2 ^ 128) other) :=
    String.ofList_inj.1 heq
  have hfin : id % 2 ^ 128 = other % 2 ^ 128 := congrArg Fin.val (uuidText.text_injective htext)
  rwa [Nat.mod_eq_of_lt hid, Nat.mod_eq_of_lt hother] at hfin

theorem slash_not_mem_idText (id : ℕ) : '/' ∉ (idText id).toList := by
  rw [idText, String.toList_ofList]
  exact uuidText.not_mem_text (by simp [Exo.Storage.Plain]) _

variable {id : VaultId} {scope : ResourceScope} {principal : String} {vaults : List VaultRecord}

theorem key_injective {other : ResourceScope} (hscope : ValidScope scope)
    (hother : ValidScope other) (heq : key scope = key other) : scope = other := by
  have hlists := congrArg String.toList heq
  cases scope with
  | global => exact hscope.elim
  | agent agentId =>
    cases other with
    | global => exact hother.elim
    | agent agentId' =>
      simp only [key, String.toList_append, append_cancel_left_eq] at hlists
      rw [idText_injective hscope hother (String.toList_inj.1 hlists)]
    | thread agentId' threadId' =>
      simp only [key, String.toList_append, append_assoc, append_cancel_left_eq] at hlists
      refine absurd ?_ (slash_not_mem_idText agentId)
      rw [hlists]
      simp
  | thread agentId threadId =>
    cases other with
    | global => exact hother.elim
    | agent agentId' =>
      simp only [key, String.toList_append, append_assoc, append_cancel_left_eq] at hlists
      refine absurd ?_ (slash_not_mem_idText agentId')
      rw [← hlists]
      simp
    | thread agentId' threadId' =>
      simp only [key, String.toList_append, append_assoc, append_cancel_left_eq] at hlists
      have hsplit := congrArg (Exo.Storage.splitOnce '/') hlists
      have hrest : "/thread/".toList = '/' :: "thread/".toList := by decide
      rw [hrest, cons_append, cons_append,
        Exo.Storage.splitOnce_append (slash_not_mem_idText agentId),
        Exo.Storage.splitOnce_append (slash_not_mem_idText agentId'), Option.some.injEq,
        Prod.mk.injEq, append_cancel_left_eq, String.toList_inj, String.toList_inj] at hsplit
      rw [idText_injective hscope.1 hother.1 hsplit.1, idText_injective hscope.2 hother.2 hsplit.2]

theorem Policy.check_ok (hcheck : policy.check principal scope state = Except.ok ()) :
    (state.owner = principal ∨
        ∃ account, state.principals[principal]? = some account ∧
          policy.config.admitted account.email = true) ∧
      (scope = .global ∨
        (state.owners[key scope]? = none ∧ state.owner = principal) ∨
          ∃ owner, state.owners[key scope]? = some owner ∧
            (owner = principal ∨ policy.multiplayer = true)) := by
  simp only [check, bind_eq_ok, ensure_eq_ok] at hcheck
  obtain ⟨_, hadmitted, hscope⟩ := hcheck
  constructor
  · rw [Bool.or_eq_true, beq_iff_eq, Option.any_eq_true] at hadmitted
    exact hadmitted
  · rw [Bool.or_eq_true, beq_iff_eq] at hscope
    rcases hscope with hglobal | hscope
    · exact .inl hglobal
    · split at hscope
      case h_1 hnone => exact .inr (.inl ⟨hnone, beq_iff_eq.1 hscope⟩)
      case h_2 owner hsome =>
        rw [Bool.or_eq_true, beq_iff_eq] at hscope
        exact .inr (.inr ⟨owner, hsome, hscope⟩)

theorem Policy.created_ok (hcreated : policy.created principal scope state = Except.ok next) :
    next = { state with owners := state.owners.insert (key scope) principal } := by
  simp only [created, bind_eq_ok, pure_eq_ok] at hcreated
  obtain ⟨_, -, _, -, rfl⟩ := hcreated
  rfl

theorem Policy.vaultCreated_ok {name : String}
    (hcreated : policy.vaultCreated principal id name state = Except.ok next) :
    next = { state with
      vaultOwners := state.vaultOwners.insert id principal
      vaultNames := state.vaultNames.insert id name } := by
  simp only [vaultCreated, bind_eq_ok, pure_eq_ok] at hcreated
  obtain ⟨_, -, rfl⟩ := hcreated
  rfl

/-- The caller owns the vault, or may read it because it is a shared one. -/
def State.Grants (state : State) (principal : String) (id : VaultId) (write : Bool) : Prop :=
  state.vaultOwners[id]? = some principal ∨ write = false ∧ id ∈ state.sharedVaults

theorem Policy.vault_ok {record found : VaultRecord} {write : Bool}
    (hvault : policy.vault principal record write state = Except.ok (some found)) :
    policy.check principal .global state = Except.ok () ∧ found.id = record.id ∧
      record.id ≠ policy.authVault ∧ state.Grants principal record.id write := by
  simp only [vault, bind_eq_ok] at hvault
  obtain ⟨_, hcheck, hvault⟩ := hvault
  split at hvault
  case isTrue => cases hvault
  case isFalse hgranted =>
    obtain rfl := Option.some.inj (pure_eq_ok.1 hvault)
    simp only [Bool.or_eq_true, Bool.and_eq_true, Bool.not_eq_true', beq_iff_eq, not_or, not_and,
      Bool.not_eq_false, contains_iff_mem] at hgranted
    refine ⟨hcheck, rfl, hgranted.1, ?_⟩
    by_cases howns : state.vaultOwners[record.id]? = some principal
    · exact .inl howns
    · have hshared := hgranted.2 (by simpa using howns)
      exact .inr ⟨by simpa using hshared.1, by simpa using hshared.2⟩

/-- A result of a loop is that of a round. -/
theorem exists_of_mem_mapM {α β : Type} {convert : α → Except String β} {items : List α}
    {results : List β} (hloop : items.mapM convert = Except.ok results) {result : β}
    (hmem : result ∈ results) : ∃ item, convert item = Except.ok result := by
  have hrounds := mapM_eq_ok.1 hloop
  induction hrounds with
  | nil => cases hmem
  | cons hround hrest ih =>
    rcases mem_cons.1 hmem with heq | hmem
    · exact ⟨_, heq ▸ hround⟩
    · exact ih (mapM_eq_ok.2 hrest) hmem

/-- Every shared vault is one there is, and neither the auth vault nor a personal one. -/
theorem Policy.sharedVault_ok {reference : String}
    (hshared : policy.sharedVault vaults state reference = Except.ok id) :
    (∃ record ∈ vaults, record.id = id) ∧ ∀ account ∈ state.accounts, account.vault ≠ id := by
  simp only [sharedVault, bind_eq_ok, context_eq_ok, ensure_eq_ok, pure_eq_ok] at hshared
  obtain ⟨record, hfind, _, hfree, rfl⟩ := hshared
  refine ⟨⟨record, mem_of_find?_eq_some hfind, rfl⟩, fun account haccount heq ↦ ?_⟩
  rw [Bool.and_eq_true, Bool.not_eq_true', any_eq_false] at hfree
  exact hfree.2 account haccount (beq_iff_eq.2 heq)

theorem Policy.adopt_ok {scopes : List ResourceScope}
    (hadopt : policy.adopt scopes vaults state = Except.ok next) :
    ∃ (sharedVaults : List VaultId) (others : List VaultRecord), next = { state with
        owners := insertAll key (fun _ ↦ state.owner) scopes state.owners
        sharedVaults
        vaultOwners := insertAll VaultRecord.id (fun _ ↦ state.owner) others state.vaultOwners
        vaultNames := insertAll VaultRecord.id VaultRecord.name others state.vaultNames } ∧
      ∀ id ∈ sharedVaults, (∃ record ∈ vaults, record.id = id) ∧
        ∀ account ∈ state.accounts, account.vault ≠ id := by
  simp only [adopt, bind_eq_ok, pure_eq_ok] at hadopt
  obtain ⟨sharedVaults, hshared, rfl⟩ := hadopt
  refine ⟨sharedVaults, _, rfl, fun id hid ↦ ?_⟩
  obtain ⟨reference, hreference⟩ := exists_of_mem_mapM hshared hid
  exact sharedVault_ok hreference

/-- The scope is one that there was. -/
def AccessHistory.Knows (history : AccessHistory) (scope : ResourceScope) : Prop :=
  ValidScope scope ∧ scopeId scope ∈ history.drawn

/-- The state agrees with what has happened and with what is under way. -/
structure State.Isolates (history : AccessHistory) (calls : ℕ → Option AccessCall)
    (state : State) : Prop where
  personal : ∀ account ∈ state.accounts,
    state.vaultOwners[account.vault]? = some account.id ∧ account.vault ∉ state.sharedVaults ∧
      account.vault ∈ history.drawn
  shared : ∀ id ∈ state.sharedVaults, id ∈ history.drawn
  keyed : ∀ (name owner : String), state.owners[name]? = some owner →
    ∃ scope, key scope = name ∧ history.Knows scope
  owned : ∀ scope principal, (scope, some principal) ∈ history.created →
    state.owners[key scope]? = some principal
  unowned : ∀ scope, (scope, none) ∈ history.created →
    ∀ principal, state.owners[key scope]? = some principal → principal = state.owner
  claimed : ∀ call principal scope vaults,
    calls call = some (.claimed principal scope vaults) → state.owners[key scope]? = some principal
  made : ∀ call principal id name, calls call = some (.vaultMade principal id name) →
    ∀ account ∈ state.accounts, account.vault ≠ id

variable {history history' : AccessHistory} {calls calls' : ℕ → Option AccessCall}

section
variable (hstate : state.Isolates history calls)
include hstate

/-- Other calls, and ids that were drawn. -/
theorem State.Isolates.mono (hdrawn : history.drawn ⊆ history'.drawn)
    (hcreated : history'.created = history.created) (hclaimed : ∀ call principal scope vaults,
      calls' call = some (.claimed principal scope vaults) →
        calls call = some (.claimed principal scope vaults))
    (hmade : ∀ call principal id name, calls' call = some (.vaultMade principal id name) →
      calls call = some (.vaultMade principal id name)) : state.Isolates history' calls' where
  personal := fun account haccount ↦ by
    obtain ⟨howner, hshared, hmem⟩ := hstate.personal account haccount
    exact ⟨howner, hshared, hdrawn hmem⟩
  shared := fun id hid ↦ hdrawn (hstate.shared id hid)
  keyed := fun name owner howner ↦ by
    obtain ⟨scope, hname, hvalid, hmem⟩ := hstate.keyed name owner howner
    exact ⟨scope, hname, hvalid, hdrawn hmem⟩
  owned := by
    rw [hcreated]
    exact hstate.owned
  unowned := by
    rw [hcreated]
    exact hstate.unowned
  claimed := fun call principal scope vaults hcall ↦
    hstate.claimed call principal scope vaults (hclaimed _ _ _ _ hcall)
  made := fun call principal id name hcall ↦
    hstate.made call principal id name (hmade _ _ _ _ hcall)

theorem State.Isolates.enrol {account : Principal} (hdrawn : account.vault ∈ history.drawn)
    (hshared : account.vault ∉ state.sharedVaults)
    (hothers : ∀ other ∈ state.accounts, other.vault ≠ account.vault)
    (hmade : ∀ call principal id name, calls call = some (.vaultMade principal id name) →
      account.vault ≠ id) : (state.enrol account).Isolates history calls where
  personal := by
    intro other hother
    rcases mem_of_mem_accounts_enrol hother with heq | hother
    · subst heq
      exact ⟨Std.TreeMap.getElem?_insert_self, hshared, hdrawn⟩
    · obtain ⟨howner, hrest⟩ := hstate.personal other hother
      have hkeep : (state.enrol account).vaultOwners[other.vault]? =
          state.vaultOwners[other.vault]? := getElem?_insert_of_ne (hothers other hother)
      exact ⟨hkeep ▸ howner, hrest⟩
  shared := hstate.shared
  keyed := hstate.keyed
  owned := hstate.owned
  unowned := hstate.unowned
  claimed := hstate.claimed
  made := by
    intro call principal id name hcall other hother
    rcases mem_of_mem_accounts_enrol hother with heq | hother
    · exact heq ▸ hmade call principal id name hcall
    · exact hstate.made call principal id name hcall other hother

/-- A new resource belongs to the caller; its name is that of no other one. -/
theorem State.Isolates.created (hscope : history.Knows scope)
    (hcreated : ∀ entry ∈ history.created, ValidScope entry.1 ∧ entry.1 ≠ scope)
    (hclaimed : ∀ call principal other vaults,
      calls call = some (.claimed principal other vaults) → ValidScope other ∧ other ≠ scope) :
    State.Isolates history calls
      { state with owners := state.owners.insert (key scope) principal } := by
  have hkeep : ∀ other, ValidScope other → other ≠ scope →
      (state.owners.insert (key scope) principal)[key other]? = state.owners[key other]? :=
    fun other hother hne ↦ getElem?_insert_of_ne fun heq ↦ hne (key_injective hother hscope.1 heq)
  refine ⟨hstate.personal, hstate.shared, ?_, ?_, ?_, ?_, hstate.made⟩
  · intro name owner howner
    rcases getElem?_insert_eq_some howner with hnew | hold
    · exact ⟨scope, hnew.1.symm, hscope⟩
    · exact hstate.keyed name owner hold.2
  · intro other owner hmem
    obtain ⟨hvalid, hne⟩ := hcreated _ hmem
    exact (hkeep other hvalid hne).trans (hstate.owned other owner hmem)
  · intro other hmem owner howner
    obtain ⟨hvalid, hne⟩ := hcreated _ hmem
    exact hstate.unowned other hmem owner ((hkeep other hvalid hne).symm.trans howner)
  · intro call owner other vaults hcall
    obtain ⟨hvalid, hne⟩ := hclaimed call owner other vaults hcall
    exact (hkeep other hvalid hne).trans (hstate.claimed call owner other vaults hcall)

theorem State.Isolates.vaultCreated (hid : ∀ account ∈ state.accounts, account.vault ≠ id)
    (names : Std.TreeMap VaultId String) :
    State.Isolates history calls
      { state with
        vaultOwners := state.vaultOwners.insert id principal
        vaultNames := names } where
  personal := by
    intro account haccount
    obtain ⟨howner, hrest⟩ := hstate.personal account haccount
    have hkeep : (state.vaultOwners.insert id principal)[account.vault]? =
        state.vaultOwners[account.vault]? := getElem?_insert_of_ne (hid account haccount)
    exact ⟨hkeep.trans howner, hrest⟩
  shared := hstate.shared
  keyed := hstate.keyed
  owned := hstate.owned
  unowned := hstate.unowned
  claimed := hstate.claimed
  made := hstate.made

theorem State.Isolates.adopt {scopes : List ResourceScope}
    (hscopes : ∀ scope ∈ scopes, history.Knows scope)
    (hvaults : ∀ record ∈ vaults, record.id ∈ history.drawn)
    (hadopt : policy.adopt scopes vaults state = Except.ok next) : next.Isolates history calls := by
  obtain ⟨sharedVaults, others, rfl, hshared⟩ := Policy.adopt_ok hadopt
  refine ⟨?_, ?_, ?_, ?_, ?_, ?_, hstate.made⟩
  · intro account haccount
    obtain ⟨howner, -, hdrawn⟩ := hstate.personal account haccount
    refine ⟨getElem?_insertAll_of_some howner, fun hmem ↦ ?_, hdrawn⟩
    exact (hshared _ hmem).2 account haccount rfl
  · intro id hid
    obtain ⟨⟨record, hrecord, rfl⟩, -⟩ := hshared id hid
    exact hvaults record hrecord
  · intro name owner howner
    rcases getElem?_insertAll_eq_some howner with hold | hnew
    · exact hstate.keyed name owner hold
    · obtain ⟨scope, hscope, hname, -⟩ := hnew
      exact ⟨scope, hname, hscopes scope hscope⟩
  · exact fun scope principal hmem ↦ getElem?_insertAll_of_some (hstate.owned scope principal hmem)
  · intro scope hmem principal howner
    rcases getElem?_insertAll_eq_some howner with hold | hnew
    · exact hstate.unowned scope hmem principal hold
    · obtain ⟨-, -, -, heq⟩ := hnew
      exact heq
  · exact fun call principal scope vaults hcall ↦
      getElem?_insertAll_of_some (hstate.claimed call principal scope vaults hcall)

/-- The record of a claimed resource is put. -/
theorem State.Isolates.put {call : ℕ} {vaults : List VaultId}
    (hcall : calls call = some (.claimed principal scope vaults))
    (hclaimed : ∀ call principal scope vaults,
      calls' call = some (.claimed principal scope vaults) →
        calls call = some (.claimed principal scope vaults))
    (hmade : ∀ call principal id name, calls' call = some (.vaultMade principal id name) →
      calls call = some (.vaultMade principal id name)) :
    state.Isolates { history with created := (scope, some principal) :: history.created }
      calls' where
  personal := hstate.personal
  shared := hstate.shared
  keyed := hstate.keyed
  owned := by
    intro other owner hmem
    rcases mem_cons.1 hmem with heq | hmem
    · obtain ⟨rfl, heq⟩ := Prod.mk.inj heq
      cases heq
      exact hstate.claimed call principal other vaults hcall
    · exact hstate.owned other owner hmem
  unowned := by
    intro other hmem
    rcases mem_cons.1 hmem with heq | hmem
    · cases (Prod.mk.inj heq).2
    · exact hstate.unowned other hmem
  claimed := fun call principal scope vaults hcall ↦
    hstate.claimed call principal scope vaults (hclaimed _ _ _ _ hcall)
  made := fun call principal id name hcall ↦
    hstate.made call principal id name (hmade _ _ _ _ hcall)

theorem State.Isolates.localPut (hvalid : ValidScope scope)
    (hfresh : scopeId scope ∉ history.drawn) :
    state.Isolates
      { drawn := scopeId scope :: history.drawn
        created := (scope, none) :: history.created } calls where
  personal := fun account haccount ↦ by
    obtain ⟨howner, hshared, hmem⟩ := hstate.personal account haccount
    exact ⟨howner, hshared, List.mem_cons_of_mem _ hmem⟩
  shared := fun id hid ↦ List.mem_cons_of_mem _ (hstate.shared id hid)
  keyed := fun name owner howner ↦ by
    obtain ⟨other, hname, hother, hmem⟩ := hstate.keyed name owner howner
    exact ⟨other, hname, hother, List.mem_cons_of_mem _ hmem⟩
  owned := by
    intro other owner hmem
    rcases mem_cons.1 hmem with heq | hmem
    · cases (Prod.mk.inj heq).2
    · exact hstate.owned other owner hmem
  unowned := by
    intro other hmem owner howner
    rcases mem_cons.1 hmem with heq | hmem
    · obtain ⟨rfl, -⟩ := Prod.mk.inj heq
      obtain ⟨known, hname, hknown, hdrawn⟩ := hstate.keyed _ owner howner
      exact absurd (key_injective hknown hvalid hname ▸ hdrawn) hfresh
    · exact hstate.unowned other hmem owner howner
  claimed := hstate.claimed
  made := hstate.made

end

end Exo.Remote
