import Exo.Vault.Runs

/-!
# Refreshing credentials

Calls that resolve, refresh, update and delete secrets interleave on one store.  Revisions only grow, so
a revision names one policy and one value; a refresh writes over nothing but the value it has read; and
once a refresh was stored, no other one asks the token endpoint for its revision.  An exchange whose
outcome is not stored keeps nobody from sending the same token again.
-/

namespace Exo.Vault

open Library Egress InPlace List System Option

variable {Encrypted Data : Type} {lib : Libraries} {cipher : SecretCipher Encrypted Data}

/-! ## Stored pairs -/

/-- The pair of a revision and a value is stored. -/
def Catalog.Stored (cipher : SecretCipher Encrypted Data) (catalog : Catalog Encrypted)
    (vaultId : VaultId) (id : SecretId) (resolved : ResolvedSecret) : Prop :=
  ∃ stored, catalog.Holds vaultId stored ∧ stored.metadata.id = id ∧
    stored.metadata.revision = resolved.revision ∧
      cipher.decrypt vaultId stored = .ok resolved.secret

variable {catalog : Catalog Encrypted} {vaultId : VaultId} {id : SecretId}
  {catalog' : Catalog Encrypted} {resolved : ResolvedSecret}

theorem stored_of_read {target : CredentialDestination}
    (hrun : (readForDestination lib cipher vaultId id target).runOn catalog =
      (.ok resolved, catalog')) : catalog.Stored cipher vaultId id resolved := by
  simp only [readForDestination, bind_ok, check_ok, look_ok, pure_ok, context_eq_ok] at hrun
  obtain ⟨_, _, ⟨_, rfl⟩, vault, _, ⟨hvault, rfl⟩, stored, _, ⟨hstored, rfl⟩, _, _, ⟨_, rfl⟩,
    secret, _, ⟨hsecret, rfl⟩, _, _, ⟨_, rfl⟩, rfl, rfl⟩ := hrun
  obtain ⟨hholds, hid⟩ := Catalog.holds_of_find hvault hstored
  exact ⟨stored, hholds, hid, rfl, hsecret⟩

theorem Catalog.vault_modifySecrets {vault : StoredVault Encrypted}
    (hvault : catalog.vault vaultId = .ok vault)
    (change : List (StoredSecret Encrypted) → List (StoredSecret Encrypted)) :
    (catalog.modifySecrets vaultId change).vault vaultId =
      .ok { vault with secrets := change vault.secrets } := by
  rw [vault_eq_ok] at hvault ⊢
  have hfind := find?_updateFirst (p := fun vault : StoredVault Encrypted ↦ vault.record.id = vaultId)
    (f := fun vault ↦ { vault with secrets := change vault.secrets }) (fun _ ↦ id) catalog.vaults
  exact hfind.trans (congrArg _ hvault)

theorem stored_of_storeRefreshed (hcipher : cipher.Lawful) {draw : Draw} {revision : ℕ}
    {secret : Secret}
    (hrun : (storeRefreshed lib cipher draw vaultId id revision secret).runOn catalog =
      (.ok resolved, catalog')) :
    (∃ stored, catalog.Holds vaultId stored ∧ stored.metadata.id = id ∧
      stored.metadata.revision = revision) ∧ resolved = ⟨revision + 1, secret⟩ ∧
        catalog'.Stored cipher vaultId id resolved := by
  simp only [storeRefreshed, bind_ok, look_ok, check_ok, ensure_eq_ok, update_ok, pure_ok,
    context_eq_ok, beq_iff_eq] at hrun
  obtain ⟨vault, _, ⟨hvault, rfl⟩, stored, _, ⟨hstored, rfl⟩, _, _, ⟨hrevision, rfl⟩, next, _,
    ⟨hnext, rfl⟩, encrypted, _, ⟨hencrypt, rfl⟩, _, _, rfl, rfl, rfl⟩ := hrun
  simp only [nextRevision, bind_eq_ok, pure_eq_ok] at hnext
  obtain ⟨_, _, rfl⟩ := hnext
  obtain ⟨hholds, hid⟩ := Catalog.holds_of_find hvault hstored
  refine ⟨⟨stored, hholds, hid, hrevision⟩, by rw [hrevision], ?_⟩
  let new : StoredSecret Encrypted :=
    ⟨{ stored.metadata with revision := stored.metadata.revision + 1 }, encrypted⟩
  have hnew := Catalog.vault_modifySecrets hvault (updateFirst (·.metadata.id = id) fun _ ↦ new)
  have hfind := find?_updateFirst (p := fun stored : StoredSecret Encrypted ↦ stored.metadata.id = id)
    (f := fun _ ↦ new) (fun _ _ ↦ by simpa using hid) vault.secrets
  have hmem := mem_of_find?_eq_some (hfind.trans (congrArg (Option.map _) hstored))
  exact ⟨new, ⟨_, (Catalog.mem_of_vault hnew).1, (Catalog.mem_of_vault hnew).2, hmem⟩, hid, rfl,
    (seals_encrypt hcipher hencrypt).decrypt⟩

/-! ## Revisions -/

namespace Vaults

/-- The secret with the id, if it is there, has a property that later revisions inherit. -/
def Keeps (vaultId : VaultId) (id : SecretId) (property : StoredSecret Encrypted → Prop)
    (vaults : Vaults Encrypted) : Prop :=
  id < vaults.nextId ∧ ∀ stored, vaults.storage.catalog.Holds vaultId stored →
    stored.metadata.id = id → property stored

/-- A property that a secret hands on to its next revision. -/
def Inherited (property : StoredSecret Encrypted → Prop) : Prop :=
  ∀ old new, property old → new.metadata.revision = old.metadata.revision + 1 → property new

variable {written : List Write} {vaults : Vaults Encrypted}
  {property : StoredSecret Encrypted → Prop} {storage : Storage Encrypted} {first : List Label}

/-- A step leaves the catalog alone or changes it. -/
theorem Sound.next_cases (lib : Libraries) (hcipher : cipher.Lawful)
    (hsound : vaults.Sound cipher written) (label : Label) :
    vaults.nextId ≤ (vaults.next lib cipher label).nextId ∧
      ((vaults.next lib cipher label).storage = vaults.storage ∨
        ∃ write, Change cipher vaults.nextId vaults.storage.catalog
          (vaults.next lib cipher label).storage.catalog write) := by
  cases label with
  | call process call => exact ⟨le_rfl, .inl rfl⟩
  | lockFails i message | abandon i =>
    rw [Vaults.next]
    cases vaults.tasks[i]? <;> exact ⟨le_rfl, .inl rfl⟩
  | step i env =>
    cases htask : vaults.tasks[i]? with
    | none =>
      rw [Vaults.next, htask]
      exact ⟨le_rfl, .inl rfl⟩
    | some task =>
      rw [next_step lib cipher htask]
      refine ⟨Nat.le_succ _, ?_⟩
      rcases hsound.run_cases lib hcipher task env with
        hsame | ⟨catalog, write, hchange, _, hplace, _⟩
      · exact .inl hsame
      · rw [step_storage, hplace, Storage.catalog_replaceCatalog]
        exact .inr ⟨write, hchange⟩

variable {vaultId : VaultId}

theorem Keeps.next (lib : Libraries) (hcipher : cipher.Lawful)
    (hsound : vaults.Sound cipher written) (hinherited : Inherited property)
    (hkeeps : vaults.Keeps vaultId id property) (label : Label) :
    (vaults.next lib cipher label).Keeps vaultId id property := by
  obtain ⟨hid, hproperty⟩ := hkeeps
  obtain ⟨hnextId, hchange⟩ := hsound.next_cases lib hcipher label
  refine ⟨hid.trans_le hnextId, fun stored hholds hsame ↦ ?_⟩
  rcases hchange with hstorage | ⟨write, hchange⟩
  · rw [hstorage] at hholds
    exact hproperty stored hholds hsame
  · rcases hchange.holds hsound.below hsound.valid hholds with
      ⟨hbefore, _⟩ | ⟨_, _, _, hnew | ⟨old, hold, hidOld, hrevision⟩⟩
    · exact hproperty stored hbefore hsame
    · exact absurd (hnew.symm.trans hsame) hid.ne'
    · exact hinherited old stored (hproperty old hold (hidOld.symm.trans hsame)) hrevision

theorem Keeps.exec [DecidableEq Encrypted] (lib : Libraries) (hcipher : cipher.Lawful)
    (hnew : storage.New) (hinherited : Inherited property)
    (hkeeps : ((system lib cipher).exec { storage } first).Keeps vaultId id property)
    (rest : List Label) :
    ((system lib cipher).exec { storage } (first ++ rest)).Keeps vaultId id property := by
  induction rest using reverseRecOn with
  | nil => rwa [append_nil]
  | append_singleton rest label ih =>
    rw [← append_assoc, exec_append]
    exact ih.next lib hcipher (sound_exec lib hcipher hnew _) hinherited label

theorem inherited_follows (former : StoredSecret Encrypted) :
    Inherited fun stored : StoredSecret Encrypted ↦
      stored = former ∨ former.metadata.revision < stored.metadata.revision := by
  rintro old new (rfl | hlater) hrevision
  · exact .inr (by omega)
  · exact .inr (by omega)

/-- A secret that is in the catalog is as it was, or it has a later revision. -/
theorem follows_exec [DecidableEq Encrypted] (lib : Libraries) (hcipher : cipher.Lawful)
    (hnew : storage.New) (rest : List Label) {former stored : StoredSecret Encrypted}
    (hformer : ((system lib cipher).exec { storage } first).storage.catalog.Holds vaultId former)
    (hholds : ((system lib cipher).exec { storage } (first ++ rest)).storage.catalog.Holds vaultId
      stored) (hid : stored.metadata.id = former.metadata.id) :
    stored = former ∨ former.metadata.revision < stored.metadata.revision := by
  have hsound := sound_exec lib hcipher hnew first
  refine (Keeps.exec lib hcipher hnew (inherited_follows former)
    ⟨hsound.below.holds hformer, fun other hother hsame ↦ .inl ?_⟩ rest).2 stored hholds hid
  exact hsound.valid.holds_inj hother hformer hsame

/-! ## What a call knows -/

end Vaults

/-- The secret that a call resolves. -/
def Call.reference : Call → Option (VaultId × SecretId)
  | .resolveSecret vaultId id _ => some (vaultId, id)
  | .refreshSecret vaultId id _ _ => some (vaultId, id)
  | _ => none

/-- The pair that a stage of a refresh goes by. -/
def Stage.pair : Stage → Option ResolvedSecret
  | .lock => none
  | .read => none
  | .exchange resolved _ => some resolved
  | .reread resolved => some resolved
  | .write resolved _ => some resolved
  | .remember resolved => some resolved

variable (vaultId : VaultId) (id : SecretId) (known : ResolvedSecret → Prop) in
/-- In this phase the call for a secret knows only pairs with the given property. -/
inductive Phase.Knows :
    Phase → Prop where
  | start : Knows .start
  | refresh (refresh : Refresh) (stage : Stage) (hvault : refresh.vaultId = vaultId)
      (hid : refresh.id = id) (hpair : ∀ resolved ∈ stage.pair, known resolved) :
      Knows (.refresh refresh stage)
  | returned (resolved : ResolvedSecret) (hresolved : known resolved) :
      Knows (.finished (.ok (.resolved resolved)))
  | failed (message : String) : Knows (.finished (.error message))
  | abandoned : Knows .abandoned

theorem Phase.Knows.mono {known known' : ResolvedSecret → Prop}
    (hmono : ∀ resolved, known resolved → known' resolved) {phase : Phase}
    (hphase : phase.Knows vaultId id known) : phase.Knows vaultId id known' := by
  cases hphase with
  | start => exact .start
  | refresh refresh stage hvault hid hpair =>
    exact .refresh refresh stage hvault hid fun resolved hresolved ↦ hmono _ (hpair _ hresolved)
  | returned resolved hresolved => exact .returned resolved (hmono _ hresolved)
  | failed message => exact .failed message
  | abandoned => exact .abandoned

section Knows
variable {known : ResolvedSecret → Prop} {refresh : Refresh} {resolved : ResolvedSecret}

theorem Refresh.knows_conclude (github : Bool) (hresolved : known resolved) :
    (refresh.conclude github resolved).Knows refresh.vaultId refresh.id known := by
  cases github with
  | false => exact .returned resolved hresolved
  | true =>
    refine .refresh refresh _ rfl rfl ?_
    rintro _ ⟨⟩
    exact hresolved

variable {result : Except String ResolvedSecret}

section
variable (env : Environment) (checked : List Checked)

theorem Refresh.knows_afterRead (hresult : ∀ resolved, result = .ok resolved → known resolved) :
    (refresh.afterRead lib env checked result).Knows refresh.vaultId refresh.id known := by
  cases result with
  | error message => exact .failed message
  | ok resolved =>
    rw [Refresh.afterRead]
    split
    · exact .returned resolved (hresult resolved rfl)
    · cases sendable lib resolved.secret with
      | error message => exact .failed message
      | ok =>
        refine .refresh refresh _ rfl rfl ?_
        rintro _ ⟨⟩
        exact hresult resolved rfl

theorem Refresh.knows_afterExchange (hresolved : known resolved) (result : Except String Secret) :
    (refresh.afterExchange resolved result).Knows refresh.vaultId refresh.id known := by
  cases result with
  | error message => exact .failed message
  | ok secret =>
    rw [Refresh.afterExchange]
    split
    · refine .refresh refresh _ rfl rfl ?_
      rintro _ ⟨⟩
      exact hresolved
    · refine .refresh refresh _ rfl rfl ?_
      rintro _ ⟨⟩
      exact hresolved

theorem Refresh.knows_afterReread (resolved : ResolvedSecret)
    (hresult : ∀ current, result = .ok current → known current) :
    (refresh.afterReread resolved result).Knows refresh.vaultId refresh.id known := by
  cases result with
  | error message => exact .failed message
  | ok current =>
    rw [Refresh.afterReread]
    split
    · exact .returned current (hresult current rfl)
    · exact refresh.knows_conclude _ (hresult current rfl)

theorem Refresh.knows_afterWrite (resolved : ResolvedSecret)
    (hresult : ∀ written, result = .ok written → known written) :
    (refresh.afterWrite resolved result).Knows refresh.vaultId refresh.id known := by
  cases result with
  | error message => exact .failed message
  | ok written => exact refresh.knows_conclude _ (hresult written rfl)

theorem knows_afterResolve (target : CredentialDestination)
    (hresult : ∀ resolved, result = .ok resolved → known resolved) :
    (afterResolve env checked vaultId id target result).Knows vaultId id known := by
  cases result with
  | error message => exact .failed message
  | ok resolved =>
    rw [afterResolve]
    split
    · exact .refresh _ _ rfl rfl nofun
    · exact .returned resolved (hresult resolved rfl)

end

end Knows

namespace Vaults

/-- The pair was known, or it is stored before the step or after it. -/
def Learns (cipher : SecretCipher Encrypted Data) (vaults : Vaults Encrypted)
    (storage : Storage Encrypted) (vaultId : VaultId) (id : SecretId)
    (known : ResolvedSecret → Prop) (resolved : ResolvedSecret) : Prop :=
  known resolved ∨ vaults.storage.catalog.Stored cipher vaultId id resolved ∨
    storage.catalog.Stored cipher vaultId id resolved

variable {storage : Storage Encrypted} {vaultId : VaultId} {id : SecretId}
  {resolved : ResolvedSecret} {i : ℕ} {task : Task}
  {fault : Option Fault} {nonce : ℕ} {vaults start : Vaults Encrypted} {task' : Task}
  {labels : List Label}

theorem stored_of_access_read (hcurrent : storage.Current) {target : CredentialDestination}
    (hresult : (access lib cipher fault nonce false
      (readForDestination lib cipher vaultId id target) storage).1 = .ok resolved) :
    storage.catalog.Stored cipher vaultId id resolved :=
  stored_of_read ((access_read lib cipher hcurrent (readOnly_readForDestination vaultId id target)
    fault nonce).2 resolved hresult)

/-- What is known when the write of a refresh has returned. -/
theorem stored_of_access_write (hcipher : cipher.Lawful) (hcurrent : storage.Current) {draw : Draw}
    {revision : ℕ} {secret : Secret} (hresult : (access lib cipher fault nonce true
      (storeRefreshed lib cipher draw vaultId id revision secret) storage).1 = .ok resolved) :
    (access lib cipher fault nonce true
      (storeRefreshed lib cipher draw vaultId id revision secret) storage).2.catalog.Stored cipher
        vaultId id resolved := by
  rcases access_write lib cipher hcurrent
    (atomic_storeRefreshed draw vaultId id revision secret) fault nonce with
    ⟨_, message, hmessage⟩ | ⟨result, catalog, hrun, hstorage, hok | ⟨_, message, hmessage⟩⟩
  · cases hresult.symm.trans hmessage
  · cases hresult.symm.trans hok
    rw [hstorage, Storage.catalog_replaceCatalog]
    exact (stored_of_storeRefreshed hcipher hrun).2.2
  · cases hresult.symm.trans hmessage

theorem run_knows (lib : Libraries) (hcipher : cipher.Lawful) {written : List Write}
    (hsound : vaults.Sound cipher written) (task : Task)
    (hreference : task.call.reference = some (vaultId, id)) {known : ResolvedSecret → Prop}
    (hphase : task.phase.Knows vaultId id known) (env : Environment) :
    (vaults.run lib cipher task env).1.Knows vaultId id
      (vaults.Learns cipher (vaults.run lib cipher task env).2 vaultId id known) := by
  have hkept : ∀ resolved, known resolved →
      vaults.Learns cipher (vaults.run lib cipher task env).2 vaultId id known resolved :=
    fun resolved hresolved ↦ .inl hresolved
  obtain ⟨process, call, phase⟩ := task
  cases hphase with
  | start =>
    cases call with
    | resolveSecret vaultId' id' target =>
      cases hreference
      exact knows_afterResolve env _ target fun resolved hresult ↦
        .inr (.inl (stored_of_access_read hsound.current hresult))
    | refreshSecret vaultId' id' target rejectedRevision =>
      cases hreference
      exact .refresh _ _ rfl rfl nofun
    | _ => cases hreference
  | returned resolved hresolved => exact .returned resolved (hkept resolved hresolved)
  | failed message => exact .failed message
  | abandoned => exact .abandoned
  | refresh refresh stage hvault hid hpair =>
    subst hvault hid
    cases stage with
    | lock => exact .refresh refresh _ rfl rfl nofun
    | read =>
      exact refresh.knows_afterRead env _ fun resolved hresult ↦
        .inr (.inl (stored_of_access_read hsound.current hresult))
    | exchange resolved sentAt =>
      exact refresh.knows_afterExchange (hkept resolved (hpair resolved rfl)) _
    | reread resolved =>
      exact refresh.knows_afterReread resolved fun current hresult ↦
        .inr (.inl (stored_of_access_read hsound.current hresult))
    | write resolved secret =>
      exact refresh.knows_afterWrite resolved fun written hresult ↦
        .inr (.inr (stored_of_access_write hcipher hsound.current hresult))
    | remember resolved => exact .returned resolved (hkept resolved (hpair resolved rfl))

/-! ## The tasks of a run -/

/-- A task comes from a task by a step, or its call was made just now. -/
theorem taskStep_inv (lib : Libraries) (cipher : SecretCipher Encrypted Data)
    (vaults : Vaults Encrypted) (label : Label)
    (htask' : (vaults.next lib cipher label).tasks[i]? = some task') :
    (∃ task, vaults.tasks[i]? = some task ∧ TaskStep lib cipher vaults i task label task') ∨
      task'.phase = .start ∧ vaults.tasks.length ≤ i := by
  cases htask : vaults.tasks[i]? with
  | some task =>
    obtain ⟨task'', htask'', hstep⟩ := taskStep lib cipher vaults label htask
    cases htask'.symm.trans htask''
    exact .inl ⟨task, rfl, hstep⟩
  | none =>
    have hlength := List.getElem?_eq_none_iff.1 htask
    cases label with
    | call process call =>
      rw [next, List.getElem?_append_right hlength] at htask'
      have hmem := List.mem_of_getElem? htask'
      rw [List.mem_singleton] at hmem
      exact .inr ⟨by rw [hmem], hlength⟩
    | step j env =>
      rw [next] at htask'
      cases hother : vaults.tasks[j]? <;> rw [hother] at htask'
      · cases htask.symm.trans htask'
      · have hset := (List.getElem?_eq_some_iff.1 htask').1
        simp only [step, proceed, List.length_set] at hset
        exact absurd hset (not_lt.2 hlength)
    | lockFails j message | abandon j =>
      rw [next] at htask'
      cases hother : vaults.tasks[j]? <;> rw [hother] at htask'
      · cases htask.symm.trans htask'
      · have hset := (List.getElem?_eq_some_iff.1 htask').1
        simp only [proceed, List.length_set] at hset
        exact absurd hset (not_lt.2 hlength)

theorem TaskStep.call_eq {label : Label} (hstep : TaskStep lib cipher vaults i task label task') :
    task'.call = task.call := by
  cases hstep <;> rfl

/-- The pair was stored at some moment after the call was made. -/
def Seen (lib : Libraries) (cipher : SecretCipher Encrypted Data) (start : Vaults Encrypted)
    (labels : List Label) (i : ℕ) (vaultId : VaultId) (id : SecretId)
    (resolved : ResolvedSecret) : Prop :=
  ∃ first rest, labels = first ++ rest ∧
    i < ((system lib cipher).exec start first).tasks.length ∧
      ((system lib cipher).exec start first).storage.catalog.Stored cipher vaultId id resolved

theorem Seen.snoc (hseen : Seen lib cipher start labels i vaultId id resolved) (label : Label) :
    Seen lib cipher start (labels ++ [label]) i vaultId id resolved := by
  obtain ⟨first, rest, rfl, hmade, hstored⟩ := hseen
  exact ⟨first, rest ++ [label], append_assoc .., hmade, hstored⟩

theorem seen_now (htask : ((system lib cipher).exec start labels).tasks[i]? = some task)
    (hstored : ((system lib cipher).exec start labels).storage.catalog.Stored cipher vaultId id
      resolved) : Seen lib cipher start labels i vaultId id resolved :=
  ⟨labels, [], (List.append_nil _).symm, (List.getElem?_eq_some_iff.1 htask).1, hstored⟩

/-- Every pair that a call goes by was stored after the call was made. -/
theorem knows_exec [DecidableEq Encrypted] (hcipher : cipher.Lawful) (hnew : storage.New)
    (labels : List Label)
    (htask : ((system lib cipher).exec { storage } labels).tasks[i]? = some task)
    (hreference : task.call.reference = some (vaultId, id)) :
    task.phase.Knows vaultId id (Seen lib cipher { storage } labels i vaultId id) := by
  induction labels using reverseRecOn generalizing task with
  | nil => cases htask
  | append_singleton labels label ih =>
    have hsound := sound_exec lib hcipher hnew labels
    have hexec : (system lib cipher).exec { storage } (labels ++ [label]) =
        ((system lib cipher).exec { storage } labels).next lib cipher label := exec_append ..
    have htask' := htask
    rw [hexec] at htask
    rcases taskStep_inv lib cipher _ label htask with ⟨former, hformer, hstep⟩ | ⟨hstart, _⟩
    · have hknows := ih hformer (hstep.call_eq ▸ hreference)
      cases hstep with
      | idle => exact hknows.mono fun resolved hseen ↦ hseen.snoc label
      | lockFails message => exact .failed message
      | abandon => exact .abandoned
      | step env =>
        have hrun := run_knows lib hcipher hsound former hreference hknows env
        refine hrun.mono ?_
        rintro resolved (hseen | hbefore | hafter)
        · exact hseen.snoc _
        · exact (seen_now hformer hbefore).snoc _
        · refine seen_now htask' ?_
          rwa [hexec, next_step lib cipher hformer, step_storage]
    · rw [hstart]
      exact .start

end Vaults

def Phase.isRefresh : Phase → Bool
  | .refresh _ _ => true
  | _ => false

theorem isRefresh_finishedWith {α : Type} (answer : α → Answer) (result : Except String α) :
    (finishedWith answer result).isRefresh = false := by
  cases result <;> rfl

theorem isRefresh_afterFind (result : Except String (Option VaultRecord)) :
    (afterFind result).isRefresh = false := by
  rcases result with message | _ | record <;> rfl

namespace Vaults

/-- Only a call for a secret gets to a refresh. -/
theorem isRefresh_run (vaults : Vaults Encrypted) (task : Task)
    (hreference : task.call.reference = none) (hphase : task.phase.isRefresh = false)
    (env : Environment) : (vaults.run lib cipher task env).1.isRefresh = false := by
  obtain ⟨process, call, phase⟩ := task
  cases phase with
  | create => simp [run, Task.action, Action.run, isRefresh_finishedWith]
  | finished result => rfl
  | abandoned => rfl
  | refresh refresh stage => cases hphase
  | start =>
    cases call with
    | resolveSecret vaultId id target => cases hreference
    | refreshSecret vaultId id target rejectedRevision => cases hreference
    | updateSecret vaultId id request =>
      simp only [run, Task.action, Call.start]
      split
      · simp [Action.run, isRefresh_finishedWith]
      · rfl
    | _ =>
      simp [run, Task.action, Call.start, Action.run, isRefresh_finishedWith, isRefresh_afterFind]

variable {i : ℕ} {task : Task}

theorem not_isRefresh_exec (labels : List Label) (storage : Storage Encrypted)
    (htask : ((system lib cipher).exec { storage } labels).tasks[i]? = some task)
    (hreference : task.call.reference = none) : task.phase.isRefresh = false := by
  induction labels using reverseRecOn generalizing task with
  | nil => cases htask
  | append_singleton labels label ih =>
    rw [exec_append] at htask
    rcases taskStep_inv lib cipher _ label htask with ⟨former, hformer, hstep⟩ | ⟨hstart, _⟩
    · have hbefore := ih hformer (hstep.call_eq ▸ hreference)
      cases hstep with
      | idle => exact hbefore
      | lockFails message => rfl
      | abandon => rfl
      | step env => exact isRefresh_run _ former hreference hbefore env
    · rw [hstart]
      rfl

/-- A refresh goes by what its call has seen. -/
theorem seen_of_refresh [DecidableEq Encrypted] (hcipher : cipher.Lawful)
    {storage : Storage Encrypted} (hnew : storage.New) {labels : List Label}
    (htask : ((system lib cipher).exec { storage } labels).tasks[i]? = some task)
    {refresh : Refresh} {stage : Stage} (hphase : task.phase = .refresh refresh stage)
    {resolved : ResolvedSecret} (hpair : resolved ∈ stage.pair) :
    Seen lib cipher { storage } labels i refresh.vaultId refresh.id resolved := by
  cases hreference : task.call.reference with
  | none =>
    have hnot := not_isRefresh_exec labels storage htask hreference
    rw [hphase] at hnot
    cases hnot
  | some reference =>
    have hknows := knows_exec hcipher hnew labels htask hreference
    rw [hphase] at hknows
    cases hknows with
    | refresh _ _ hvault hid hknown => exact hvault ▸ hid ▸ hknown resolved hpair

/-! ## The refresh lock -/

/-- The lock is held by the one call that is past it. -/
def LockHeld (vaults : Vaults Encrypted) : Prop :=
  ∀ i, vaults.lock = some i ↔ ∃ task, vaults.tasks[i]? = some task ∧ task.phase.isLocked

end Vaults

theorem isLocked_finishedWith {α : Type} (answer : α → Answer) (result : Except String α) :
    (finishedWith answer result).isLocked = false := by
  cases result <;> rfl

theorem isLocked_afterFind (result : Except String (Option VaultRecord)) :
    (afterFind result).isLocked = false := by
  rcases result with message | _ | record <;> rfl

theorem isLocked_afterResolve (env : Environment) (checked : List Checked) (vaultId : VaultId)
    (id : SecretId) (target : CredentialDestination) (result : Except String ResolvedSecret) :
    (afterResolve env checked vaultId id target result).isLocked = false := by
  cases result with
  | error message => rfl
  | ok resolved =>
    rw [afterResolve]
    split <;> rfl

namespace Vaults

variable {vaults : Vaults Encrypted} {task : Task}

/-- A call gets past the lock from waiting for it. -/
theorem isLocked_of_run {env : Environment}
    (hlocked : (vaults.run lib cipher task env).1.isLocked) :
    task.phase.isLocked ∨ task.phase.isWaiting := by
  obtain ⟨process, call, phase⟩ := task
  cases phase with
  | create => exact absurd hlocked (by simp [run, Task.action, Action.run, isLocked_finishedWith])
  | finished result => cases hlocked
  | abandoned => cases hlocked
  | refresh refresh stage =>
    cases stage with
    | lock => exact .inr rfl
    | _ => exact .inl rfl
  | start =>
    cases call with
    | updateSecret vaultId id request =>
      simp only [run, Task.action, Call.start] at hlocked
      split at hlocked
      · exact absurd hlocked (by simp [Action.run, isLocked_finishedWith])
      · cases hlocked
    | refreshSecret vaultId id target rejectedRevision => cases hlocked
    | _ =>
      exact absurd hlocked (by simp [run, Task.action, Call.start, Action.run,
        isLocked_finishedWith, isLocked_afterFind, isLocked_afterResolve])

theorem LockHeld.proceed (hheld : vaults.LockHeld) {i : ℕ} (htask : vaults.tasks[i]? = some task)
    (phase : Phase) (hphase : phase.isLocked → task.phase.isLocked ∨ vaults.lock = none) :
    (vaults.proceed i task phase).LockHeld := by
  intro j
  rw [getElem?_proceed vaults htask]
  have hown := hheld i
  simp only [htask, some.injEq, exists_eq_left'] at hown
  show vaults.lockAfter i phase = some j ↔ _
  rw [lockAfter]
  by_cases hj : i = j
  · subst hj
    simp only [if_true, some.injEq, exists_eq_left']
    cases hlocked : phase.isLocked with
    | true => simp
    | false => by_cases hlock : vaults.lock = some i <;> simp [hlock]
  · simp only [if_neg hj]
    cases hlocked : phase.isLocked with
    | true =>
      have hfree : vaults.lock ≠ some j := by
        intro hother
        rcases hphase hlocked with hbefore | hnone
        · exact hj (some.inj ((hown.2 hbefore).symm.trans hother))
        · cases hnone.symm.trans hother
      simp only [if_true, some.injEq, hj, false_iff]
      exact fun hex ↦ hfree ((hheld j).2 hex)
    | false =>
      rw [if_neg Bool.false_ne_true, ← hheld j]
      split
      · rename_i hlock
        rw [hlock, some.injEq]
        exact ⟨nofun, fun heq ↦ absurd heq hj⟩
      · exact Iff.rfl

theorem LockHeld.next (hheld : vaults.LockHeld) {label : Label} (henabled : vaults.enabled label) :
    (vaults.next lib cipher label).LockHeld := by
  cases label with
  | call process call =>
    intro j
    show vaults.lock = some j ↔ _
    rw [hheld j, Vaults.next]
    constructor
    · rintro ⟨task, htask, hlocked⟩
      have hlength : j < vaults.tasks.length := (List.getElem?_eq_some_iff.1 htask).1
      exact ⟨task, by rw [List.getElem?_append_left hlength, htask], hlocked⟩
    · rintro ⟨task, htask, hlocked⟩
      by_cases hlength : j < vaults.tasks.length
      · exact ⟨task, by rwa [List.getElem?_append_left hlength] at htask, hlocked⟩
      · rw [List.getElem?_append_right (not_lt.1 hlength)] at htask
        have hmem := List.mem_of_getElem? htask
        rw [List.mem_singleton] at hmem
        rw [hmem] at hlocked
        cases hlocked
  | step i env =>
    cases htask : vaults.tasks[i]? with
    | none => rwa [Vaults.next, htask]
    | some task =>
      rw [next_step lib cipher htask]
      refine hheld.proceed htask (vaults.run lib cipher task env).1 fun hlocked ↦ ?_
      rcases isLocked_of_run hlocked with hbefore | hwaiting
      · exact .inl hbefore
      · simp only [enabled, htask, any_some, hwaiting, Bool.not_true, Bool.false_or,
          Bool.and_eq_true, isNone_iff_eq_none] at henabled
        exact .inr henabled.2
  | lockFails i message | abandon i =>
    cases htask : vaults.tasks[i]? with
    | none => rwa [Vaults.next, htask]
    | some task =>
      rw [Vaults.next, htask]
      exact hheld.proceed htask _ fun hlocked ↦ by cases hlocked

theorem lockHeld_new (storage : Storage Encrypted) : LockHeld { storage } := by
  intro i
  simp

/-! ## Exchanges and rotations -/

/-- A refresh sends the token of a secret, or stores what came of it. -/
inductive RefreshEvent where
  | sent (vaultId : VaultId) (id : SecretId) (resolved : ResolvedSecret)
  | stored (vaultId : VaultId) (id : SecretId) (resolved : ResolvedSecret)
  deriving DecidableEq

end Vaults

/-- The secret of the event, and the revision that was read. -/
def Vaults.RefreshEvent.subject : Vaults.RefreshEvent → VaultId × SecretId × ℕ
  | .sent vaultId id resolved => (vaultId, id, resolved.revision)
  | .stored vaultId id resolved => (vaultId, id, resolved.revision)

namespace Vaults

/-- After a refresh was stored, the events are about later revisions of the secret. -/
def Supersedes (event later : RefreshEvent) : Prop :=
  ∀ vaultId id resolved, event = .stored vaultId id resolved →
    ∀ revision, later.subject = (vaultId, id, revision) → resolved.revision < revision

/-- What a step of a refresh does. -/
def refreshes [DecidableEq Encrypted] (lib : Libraries) (cipher : SecretCipher Encrypted Data)
    (vaults : Vaults Encrypted) : Label → List RefreshEvent
  | .step i env =>
    match vaults.tasks[i]? with
    | none => []
    | some task =>
      match task.phase, (vaults.run lib cipher task env).1 with
      | .refresh refresh .read, .refresh _ (.exchange resolved _) =>
        [.sent refresh.vaultId refresh.id resolved]
      | .refresh refresh (.write resolved _), _ =>
        if (vaults.run lib cipher task env).2 = vaults.storage then []
        else [.stored refresh.vaultId refresh.id resolved]
      | _, _ => []
  | _ => []

theorem pairwise_refreshes [DecidableEq Encrypted] (vaults : Vaults Encrypted) (label : Label) :
    (vaults.refreshes lib cipher label).Pairwise Supersedes := by
  cases label with
  | step i env =>
    rw [refreshes]
    cases vaults.tasks[i]? with
    | none => exact List.Pairwise.nil
    | some task =>
      dsimp only
      split
      · exact pairwise_singleton _ _
      · split
        · exact List.Pairwise.nil
        · exact pairwise_singleton _ _
      · exact List.Pairwise.nil
  | _ => exact List.Pairwise.nil

variable {written : List Write} {vaults : Vaults Encrypted} {refresh : Refresh}
  {resolved : ResolvedSecret} {task : Task} {secret : Secret} {env : Environment} {label : Label}
  {storage : Storage Encrypted}

/-- What happened when a refresh has changed the storage. -/
theorem Sound.rotated (hcipher : cipher.Lawful) (hsound : vaults.Sound cipher written)
    (hphase : task.phase = .refresh refresh (.write resolved secret))
    (hchanged : (vaults.run lib cipher task env).2 ≠ vaults.storage) :
    (∃ stored, vaults.storage.catalog.Holds refresh.vaultId stored ∧
      stored.metadata.id = refresh.id ∧ stored.metadata.revision = resolved.revision) ∧
        (vaults.run lib cipher task env).2.catalog.Stored cipher refresh.vaultId refresh.id
          ⟨resolved.revision + 1, secret⟩ := by
  rw [run, Task.action, hphase] at hchanged ⊢
  rcases access_write lib cipher hsound.current (atomic_storeRefreshed (vaults.draw env)
    refresh.vaultId refresh.id resolved.revision secret) env.fault env.nonce with
    ⟨hsame, _⟩ | ⟨result, catalog, hrun, hstorage, _⟩
  · exact absurd hsame hchanged
  · obtain ⟨hbefore, rfl, hafter⟩ := stored_of_storeRefreshed hcipher hrun
    refine ⟨hbefore, ?_⟩
    show (access lib cipher env.fault env.nonce true (storeRefreshed lib cipher (vaults.draw env)
      refresh.vaultId refresh.id resolved.revision secret) vaults.storage).2.catalog.Stored
        cipher _ _ _
    rw [hstorage, Storage.catalog_replaceCatalog]
    exact hafter

theorem sent_of_afterRead {refresh' : Refresh} {checked : List Checked}
    {result : Except String ResolvedSecret} {sentAt : ℕ}
    (hphase : refresh.afterRead lib env checked result =
      .refresh refresh' (.exchange resolved sentAt)) : result = .ok resolved := by
  cases result with
  | error message => cases hphase
  | ok value =>
    rw [Refresh.afterRead] at hphase
    split at hphase
    · cases hphase
    · cases hsendable : sendable lib value.secret <;> rw [hsendable] at hphase <;> cases hphase
      rfl

/-- An event is about a revision that is stored when it happens. -/
theorem Sound.event_stored [DecidableEq Encrypted] (hcipher : cipher.Lawful)
    (hsound : vaults.Sound cipher written) {event : RefreshEvent}
    (hevent : event ∈ vaults.refreshes lib cipher label) :
    ∃ stored, vaults.storage.catalog.Holds event.subject.1 stored ∧
      stored.metadata.id = event.subject.2.1 ∧ stored.metadata.revision = event.subject.2.2 := by
  cases label with
  | call process call => cases hevent
  | lockFails i message => cases hevent
  | abandon i => cases hevent
  | step i env =>
    rw [refreshes] at hevent
    cases htask : vaults.tasks[i]? with
    | none =>
      rw [htask] at hevent
      cases hevent
    | some task =>
      simp only [htask] at hevent
      split at hevent
      · rename_i refresh _ resolved sentAt hphase hnext
        rw [mem_singleton.1 hevent]
        rw [run, Task.action, hphase] at hnext
        obtain ⟨stored, hholds, hid, hrevision, _⟩ :=
          stored_of_access_read hsound.current (sent_of_afterRead hnext)
        exact ⟨stored, hholds, hid, hrevision⟩
      · rename_i refresh resolved secret hphase
        split at hevent
        · cases hevent
        · rename_i hchanged
          rw [mem_singleton.1 hevent]
          exact (hsound.rotated hcipher hphase hchanged).1
      · cases hevent

/-- After a refresh was stored, the secret has a later revision. -/
theorem Sound.event_superseded [DecidableEq Encrypted] (hcipher : cipher.Lawful)
    (hsound : vaults.Sound cipher written)
    (hevent : .stored vaultId id resolved ∈ vaults.refreshes lib cipher label) :
    (vaults.next lib cipher label).Keeps vaultId id fun stored ↦
      resolved.revision < stored.metadata.revision := by
  obtain ⟨before, hbefore, hid, _⟩ := hsound.event_stored hcipher hevent
  have hbelow := hsound.below.holds hbefore
  rw [hid] at hbelow
  have hnext := hsound.next_cases lib hcipher label
  refine ⟨hbelow.trans_le hnext.1, fun stored hholds hsame ↦ ?_⟩
  cases label with
  | call process call => cases hevent
  | lockFails i message => cases hevent
  | abandon i => cases hevent
  | step i env =>
    have hsoundNext : (vaults.next lib cipher (.step i env)).Sound cipher _ :=
      hsound.next hcipher (.step i env)
    rw [refreshes] at hevent
    cases htask : vaults.tasks[i]? with
    | none =>
      rw [htask] at hevent
      cases hevent
    | some task =>
      simp only [htask] at hevent
      split at hevent
      · cases mem_singleton.1 hevent
      · rename_i refresh read secret hphase
        split at hevent
        · cases hevent
        · rename_i hchanged
          cases mem_singleton.1 hevent
          rw [next_step lib cipher htask] at hholds hsoundNext
          obtain ⟨after, hafter, hidAfter, hrevision, _⟩ := (hsound.rotated hcipher hphase hchanged).2
          have heq := hsoundNext.valid.holds_inj hholds hafter (hsame.trans hidAfter.symm)
          rw [heq, hrevision]
          exact Nat.lt_succ_self _
      · cases hevent

/-- Of the refreshes of a revision at most one is stored, and no exchange follows it. -/
theorem refreshes_supersede [DecidableEq Encrypted] (hcipher : cipher.Lawful) (hnew : storage.New)
    (labels : List Label) :
    ((system lib cipher).collect (refreshes lib cipher) { storage } labels).Pairwise Supersedes ∧
      ∀ vaultId id resolved,
        .stored vaultId id resolved ∈
            (system lib cipher).collect (refreshes lib cipher) { storage } labels →
          ((system lib cipher).exec { storage } labels).Keeps vaultId id fun stored ↦
            resolved.revision < stored.metadata.revision := by
  induction labels using reverseRecOn with
  | nil => exact ⟨List.Pairwise.nil, nofun⟩
  | append_singleton labels label ih =>
    obtain ⟨hpairwise, hkeeps⟩ := ih
    have hsound := sound_exec lib hcipher hnew labels
    rw [collect_snoc, exec_append]
    refine ⟨pairwise_append.2 ⟨hpairwise, ?_, ?_⟩, ?_⟩
    · exact pairwise_refreshes _ label
    · rintro event hevent later hlater vaultId id resolved rfl revision hsubject
      obtain ⟨stored, hholds, hid, hrevision⟩ := hsound.event_stored hcipher hlater
      rw [hsubject] at hholds hid hrevision
      have hlater : resolved.revision < stored.metadata.revision :=
        (hkeeps vaultId id resolved hevent).2 stored hholds hid
      rwa [hrevision] at hlater
    · intro vaultId id resolved hmem
      rcases mem_append.1 hmem with hbefore | hnow
      · refine (hkeeps vaultId id resolved hbefore).next lib hcipher hsound ?_ label
        intro old new hold hrevision
        omega
      · exact hsound.event_superseded hcipher hnow

/-- What a refresh writes over is the value that it has read. -/
theorem stored_of_rotated [DecidableEq Encrypted] (hcipher : cipher.Lawful) (hnew : storage.New)
    {labels : List Label} {i : ℕ}
    (htask : ((system lib cipher).exec { storage } labels).tasks[i]? = some task)
    (hphase : task.phase = .refresh refresh (.write resolved secret)) (hrevision : ∃ stored,
      ((system lib cipher).exec { storage } labels).storage.catalog.Holds refresh.vaultId stored ∧
        stored.metadata.id = refresh.id ∧ stored.metadata.revision = resolved.revision) :
    ((system lib cipher).exec { storage } labels).storage.catalog.Stored cipher refresh.vaultId
      refresh.id resolved := by
  obtain ⟨stored, hholds, hid, hrevision⟩ := hrevision
  obtain ⟨first, rest, rfl, _, former, hformer, hidFormer, hrevisionFormer, hdecrypt⟩ :=
    seen_of_refresh hcipher hnew htask hphase rfl
  rcases follows_exec lib hcipher hnew rest hformer hholds (hid.trans hidFormer.symm) with
    rfl | hlater
  · exact ⟨stored, hholds, hid, hrevision, hdecrypt⟩
  · omega

end Vaults

/-- In every run of calls on one store: a secret that has changed has a later revision; a refresh writes
over nothing but the pair it has read, with the next revision; the refreshes hold the lock one at a
time, and once one was stored, neither an exchange nor a store of the same revision follows; and a call
for a secret that succeeds returns a pair that was stored after the call was made. -/
theorem credential_refresh [DecidableEq Encrypted] (hcipher : cipher.Lawful)
    {storage : Storage Encrypted} (hnew : storage.New) {labels : List Label}
    (hrun : (Vaults.system lib cipher).Admits { storage } labels) :
    let exec := (Vaults.system lib cipher).exec { storage }
    (∀ first rest, labels = first ++ rest → ∀ vaultId former stored,
      (exec first).storage.catalog.Holds vaultId former →
      (exec labels).storage.catalog.Holds vaultId stored →
      stored.metadata.id = former.metadata.id →
        stored = former ∨ former.metadata.revision < stored.metadata.revision) ∧
    (∀ first i env rest, labels = first ++ .step i env :: rest →
      ∀ (task : Task) refresh resolved secret, (exec first).tasks[i]? = some task →
        task.phase = .refresh refresh (.write resolved secret) →
          (exec (first ++ [.step i env])).storage ≠ (exec first).storage →
            (exec first).storage.catalog.Stored cipher refresh.vaultId refresh.id resolved ∧
            (exec (first ++ [.step i env])).storage.catalog.Stored cipher refresh.vaultId refresh.id
              ⟨resolved.revision + 1, secret⟩) ∧
    (∀ (i j : ℕ) (task other : Task), (exec labels).tasks[i]? = some task →
      (exec labels).tasks[j]? = some other →
        task.phase.isLocked → other.phase.isLocked → i = j) ∧
    ((Vaults.system lib cipher).collect (Vaults.refreshes lib cipher) { storage }
      labels).Pairwise Vaults.Supersedes ∧
    (∀ (i : ℕ) (task : Task) vaultId id answer, (exec labels).tasks[i]? = some task →
      task.call.reference = some (vaultId, id) → task.phase = .finished (.ok answer) →
        ∃ resolved, answer = .resolved resolved ∧
          Vaults.Seen lib cipher { storage } labels i vaultId id resolved) := by
  refine ⟨?_, ?_, ?_, (Vaults.refreshes_supersede hcipher hnew labels).1, ?_⟩
  · rintro first rest rfl vaultId former stored hformer hholds hid
    exact Vaults.follows_exec lib hcipher hnew rest hformer hholds hid
  · rintro first i env rest rfl task refresh resolved secret htask hphase hchanged
    rw [exec_append] at hchanged ⊢
    simp only [exec_cons, exec_nil] at hchanged ⊢
    have hnext : (Vaults.system lib cipher).next ((Vaults.system lib cipher).exec { storage } first)
        (.step i env) = _ := Vaults.next_step lib cipher htask env
    rw [hnext, Vaults.step_storage] at hchanged ⊢
    obtain ⟨hbefore, hafter⟩ :=
      (Vaults.sound_exec lib hcipher hnew first).rotated hcipher hphase hchanged
    exact ⟨Vaults.stored_of_rotated hcipher hnew htask hphase hbefore, hafter⟩
  · intro i j task other htask hother hlocked hlockedOther
    have hheld := invariant Vaults.LockHeld
      (fun _ _ hvaults henabled ↦ hvaults.next henabled) (Vaults.lockHeld_new storage) hrun
    have hi := (hheld i).2 ⟨task, htask, hlocked⟩
    have hj := (hheld j).2 ⟨other, hother, hlockedOther⟩
    exact some.inj (hi.symm.trans hj)
  · intro i task vaultId id answer htask hreference hphase
    have hknows := Vaults.knows_exec hcipher hnew labels htask hreference
    rw [hphase] at hknows
    cases hknows with
    | returned resolved hseen => exact ⟨resolved, rfl, hseen⟩

/-! ## Runs -/

/-- An OAuth credential that has expired. -/
def grant (accessToken refreshToken : String) : Secret :=
  .oauth accessToken (some refreshToken) (some 0)
    (some ⟨"https://auth.example/token", "client", none, false, none, []⟩)

/-- The endpoint answers with new tokens. -/
def rotation : Environment where
  tokenResponse := .ok ⟨"second", some "refresh-2", some 0, none⟩

/-- A vault with the credential; then a call resolves it, up to the exchange. -/
def resolveOnce : List Label :=
  [.call 0 (.createVault "team"), .step 0 {},
    .call 0 (.putSecret 0 ⟨some (.destinations [apiOrigin]), "token", grant "first" "refresh-1"⟩),
    .step 1 {}, .call 0 (.resolveSecret 0 1 apiOrigin), .step 2 {}, .step 2 {}, .step 2 {}]

def eventsOf (labels : List Label) : List Vaults.RefreshEvent :=
  (Vaults.system tokenLibraries pairCipher).collect (Vaults.refreshes tokenLibraries pairCipher)
    { storage := .file none } labels

/-- The call has failed with the message. -/
def Phase.failedWith (message : String) : Phase → Bool
  | .finished (.error text) => text == message
  | _ => false

def resolvedPair (revision : ℕ) (accessToken refreshToken : String) : ResolvedSecret :=
  ⟨revision, grant accessToken refreshToken⟩

theorem credential_refresh_resolve : eventsOf (resolveOnce ++ [.step 2 rotation, .step 2 {}]) =
        [.sent 0 1 (resolvedPair 1 "first" "refresh-1"),
          .stored 0 1 (resolvedPair 1 "first" "refresh-1")] ∧
      (eventsOf (resolveOnce ++ [.step 2 rotation, .step 2 {}])).Pairwise Vaults.Supersedes := by
  obtain ⟨hrun, hevents⟩ : (Vaults.system tokenLibraries pairCipher).Admits
      { storage := .file none } (resolveOnce ++ [.step 2 rotation, .step 2 {}]) ∧
        eventsOf (resolveOnce ++ [.step 2 rotation, .step 2 {}]) =
          [.sent 0 1 (resolvedPair 1 "first" "refresh-1"),
            .stored 0 1 (resolvedPair 1 "first" "refresh-1")] := by
    decide +kernel
  exact ⟨hevents, (credential_refresh lawful_pairCipher .file hrun).2.2.2.1⟩

/-- While the endpoint exchanges the token, another call changes the policy only, and a third one
resolves the credential. -/
def resolveTwice : List Label :=
  resolveOnce ++
    [.call 0 (.updateSecret 0 1 ⟨none, some (.destinations [apiOrigin, apiOrigin])⟩), .step 3 {},
      .call 0 (.resolveSecret 0 1 apiOrigin), .step 4 {}, .step 2 rotation, .step 2 {}, .step 4 {},
      .step 4 {}]

/-- The endpoint has replaced the token for the first call, whose write then fails; the other call,
which was waiting by then, sends the same token again. -/
theorem rotated_token_is_sent_twice :
    (Vaults.system tokenLibraries pairCipher).Admits { storage := .file none } resolveTwice ∧
      eventsOf resolveTwice = [.sent 0 1 (resolvedPair 1 "first" "refresh-1"),
        .sent 0 1 (resolvedPair 2 "first" "refresh-1")] ∧
      exchanged tokenLibraries rotation 0 (grant "first" "refresh-1") =
        .ok (grant "second" "refresh-2") ∧
      (((Vaults.system tokenLibraries pairCipher).exec { storage := .file none }
        (resolveTwice.take 14)).tasks[2]?).any
          (·.phase.failedWith "credential changed during refresh; retry the operation") := by
  obtain ⟨hrun, hevents, hfailed⟩ : (Vaults.system tokenLibraries pairCipher).Admits
      { storage := .file none } resolveTwice ∧
        eventsOf resolveTwice = [.sent 0 1 (resolvedPair 1 "first" "refresh-1"),
          .sent 0 1 (resolvedPair 2 "first" "refresh-1")] ∧
      (((Vaults.system tokenLibraries pairCipher).exec { storage := .file none }
        (resolveTwice.take 14)).tasks[2]?).any
          (·.phase.failedWith "credential changed during refresh; retry the operation") := by
    decide +kernel
  exact ⟨hrun, hevents, rfl, hfailed⟩

end Exo.Vault
