import Exo.Vault.Calls
import Exo.Vault.Invariants

/-!
# Runs of a vault store

What one step of a call does to the storage, and from it what holds in every state of every run: the
catalog is valid, every ciphertext is the value that was written last under its own metadata, the
global vault stays, and a call that has failed has changed nothing.
-/

namespace Exo.Vault

open Library Egress InPlace List System

variable {Encrypted Data : Type} {lib : Libraries} {cipher : SecretCipher Encrypted Data}

/-! ## One step -/

/-- The value that a step of the call puts into the catalog, if it gets that far. -/
def Task.value (task : Task) (nextId : ℕ) : Option Write :=
  match task.phase, task.call with
  | .start, .putSecret vaultId request => some ⟨vaultId, nextId, request.secret⟩
  | .start, .updateSecret vaultId id request => request.secret.map fun secret ↦ ⟨vaultId, id, secret⟩
  | .refresh refresh (.write _ secret), _ => some ⟨refresh.vaultId, refresh.id, secret⟩
  | _, _ => none

/-- The change seals the value that the step puts in, or a value that is there already. -/
def Seals (cipher : SecretCipher Encrypted Data) (catalog : Catalog Encrypted)
    (value write : Option Write) : Prop :=
  write = value ∨ value = none ∧ ∃ item, write = some item ∧ ∃ stored,
    catalog.Holds item.vaultId stored ∧ stored.metadata.id = item.id ∧
      cipher.decrypt item.vaultId stored = .ok item.secret

/-- A phase from which a call can only return what it promised. -/
def Phase.isCommitted : Phase → Bool
  | .finished (.ok _) => true
  | .refresh _ (.remember _) => true
  | .abandoned => true
  | _ => false

/-- What may be relied on for the access that a step makes. -/
inductive Action.Sound (cipher : SecretCipher Encrypted Data) (nextId : ℕ) (value : Option Write) :
    Action Encrypted → Prop where
  | none (phase : Phase) : Sound cipher nextId value (.none phase)
  | read {α : Type} {operation : InPlace (Catalog Encrypted) α} {next : Except String α → Phase}
      (hread : ReadOnly operation) : Sound cipher nextId value (.read operation next)
  | write {α : Type} {operation : InPlace (Catalog Encrypted) α} {next : Except String α → Phase}
      (hatomic : Atomic operation)
      (hchange : ∀ catalog result catalog', operation.runOn catalog = (.ok result, catalog') →
        ∃ write, Change cipher nextId catalog catalog' write ∧ Seals cipher catalog value write)
      (hnext : ∀ result, (next (.ok result)).isCommitted) :
      Sound cipher nextId value (.write operation next)

variable {vault : StoredVault Encrypted} {id : SecretId} {stored : StoredSecret Encrypted}
  {catalog : Catalog Encrypted}

theorem StoredVault.find_eq_some (hstored : vault.find id = some stored) :
    stored ∈ vault.secrets ∧ stored.metadata.id = id :=
  ⟨mem_of_find?_eq_some hstored, by simpa using find?_some hstored⟩

variable {vaultId : VaultId} {nextId : ℕ}

theorem Catalog.holds_of_find (hvault : catalog.vault vaultId = .ok vault)
    (hstored : vault.find id = some stored) :
    catalog.Holds vaultId stored ∧ stored.metadata.id = id := by
  obtain ⟨hmem, hid⟩ := Catalog.mem_of_vault hvault
  obtain ⟨hstored, hidStored⟩ := StoredVault.find_eq_some hstored
  exact ⟨⟨vault, hmem, hid, hstored⟩, hidStored⟩

theorem updateSecret_seals {request : UpdateSecretRequest} {secret : Secret}
    (hvault : catalog.vault vaultId = .ok vault) (hstored : vault.find id = some stored)
    (hsecret : updatedSecret cipher vaultId stored request.secret = .ok secret) :
    Seals cipher catalog (request.secret.map fun secret ↦ ⟨vaultId, id, secret⟩)
      (some ⟨vaultId, id, secret⟩) := by
  obtain ⟨hholds, hid⟩ := Catalog.holds_of_find hvault hstored
  cases hrequest : request.secret with
  | some value =>
    rw [hrequest] at hsecret
    exact .inl (by rw [Except.ok.inj hsecret]; rfl)
  | none =>
    rw [hrequest] at hsecret
    exact .inr ⟨rfl, _, rfl, stored, hholds, hid, hsecret⟩

theorem Refresh.isCommitted_conclude (refresh : Refresh) (github : Bool)
    (resolved : ResolvedSecret) : (refresh.conclude github resolved).isCommitted := by
  cases github <;> rfl

theorem Call.sound_start (hcipher : cipher.Lawful) (call : Call) (process : ℕ) (env : Environment)
    (draw : Draw) (checked : List Checked) :
    (call.start lib cipher env draw checked).Sound cipher draw.id
      (Task.value ⟨process, call, .start⟩ draw.id) := by
  cases call with
  | globalVault => exact .read readOnly_findGlobal
  | createVault name =>
    exact .write (atomic_createVault draw name)
      (fun _ _ _ hrun ↦ ⟨none, createVault_change hrun, .inl rfl⟩) fun _ ↦ rfl
  | deleteVault vaultId =>
    exact .write (atomic_deleteVault vaultId)
      (fun _ _ _ hrun ↦ ⟨none, deleteVault_change hrun, .inl rfl⟩) fun _ ↦ rfl
  | putSecret vaultId request =>
    exact .write (atomic_putSecret draw vaultId request)
      (fun _ _ _ hrun ↦ ⟨_, putSecret_change hcipher hrun, .inl rfl⟩) fun _ ↦ rfl
  | updateSecret vaultId id request =>
    rw [Call.start]
    by_cases hgiven : (request.secret.isSome || request.policy.isSome) = true
    · rw [if_pos hgiven]
      refine .write (atomic_updateSecret draw vaultId id request) ?_ fun _ ↦ rfl
      intro catalog result catalog' hrun
      obtain ⟨vault, stored, secret, hvault, hstored, hsecret, hchange⟩ :=
        updateSecret_change hcipher draw.id hrun
      exact ⟨_, hchange, updateSecret_seals hvault hstored hsecret⟩
    · rw [if_neg hgiven]
      exact .none _
  | deleteSecret vaultId id =>
    exact .write (atomic_deleteSecret vaultId id)
      (fun _ _ _ hrun ↦ ⟨none, deleteSecret_change hrun, .inl rfl⟩) fun _ ↦ rfl
  | resolveSecret vaultId id target => exact .read (readOnly_readForDestination vaultId id target)
  | refreshSecret vaultId id target rejectedRevision => exact .none _

theorem Task.sound_action (hcipher : cipher.Lawful) (task : Task) (env : Environment) (draw : Draw)
    (checked : List Checked) :
    (task.action lib cipher env draw checked).Sound cipher draw.id (task.value draw.id) := by
  obtain ⟨process, call, phase⟩ := task
  cases phase with
  | start => exact call.sound_start hcipher process env draw checked
  | create =>
    exact .write (atomic_createGlobal draw)
      (fun _ _ _ hrun ↦ ⟨none, createGlobal_change hrun, .inl rfl⟩) fun _ ↦ rfl
  | finished result => exact .none _
  | abandoned => exact .none _
  | refresh refresh stage =>
    cases stage with
    | lock => exact .none _
    | read | reread resolved => exact .read (readOnly_readForDestination _ _ _)
    | exchange resolved sentAt => exact .none _
    | write resolved secret =>
      refine .write (atomic_storeRefreshed _ _ _ _ _) ?_ fun written ↦ ?_
      · intro catalog result catalog' hrun
        exact ⟨_, (storeRefreshed_change hcipher hrun).2, .inl rfl⟩
      · exact refresh.isCommitted_conclude _ written
    | remember resolved => exact .none _

/-- A step leaves the storage alone, or it puts a change in place; then the call can no longer fail,
unless the directory could not be synchronized. -/
theorem Action.Sound.run {storage : Storage Encrypted} (hcurrent : storage.Current)
    {value : Option Write} {action : Action Encrypted} (haction : action.Sound cipher nextId value)
    (env : Environment) :
    (action.run lib cipher env storage).2 = storage ∨
      ∃ catalog write, Change cipher nextId storage.catalog catalog write ∧
        Seals cipher storage.catalog value write ∧
          (action.run lib cipher env storage).2 = storage.replaceCatalog catalog ∧
            ((action.run lib cipher env storage).1.isCommitted ∨
              env.fault = some .syncDirectory) := by
  cases haction with
  | none phase => exact .inl rfl
  | read hread => exact .inl (access_read lib cipher hcurrent hread env.fault env.nonce).1
  | @write α operation next hatomic hchange hnext =>
    rcases access_write lib cipher hcurrent hatomic env.fault env.nonce with
      ⟨hstorage, _⟩ | ⟨result, catalog, hrun, hstorage, hresult⟩
    · exact .inl hstorage
    · obtain ⟨write, hchange, hseals⟩ := hchange _ _ _ hrun
      refine .inr ⟨catalog, write, hchange, hseals, hstorage, ?_⟩
      rcases hresult with hresult | ⟨hfault, _⟩
      · refine .inl ?_
        show (next (access lib cipher env.fault env.nonce true operation storage).1).isCommitted
        rw [hresult]
        exact hnext result
      · exact .inr hfault

/-! ## Every state of a run -/

namespace Vaults

variable {vaults : Vaults Encrypted} {written : List Write}

theorem next_step (lib : Libraries) (cipher : SecretCipher Encrypted Data) {i : ℕ} {task : Task}
    (htask : vaults.tasks[i]? = some task) (env : Environment) :
    vaults.next lib cipher (.step i env) = vaults.step lib cipher i task env := by
  rw [next, htask]

theorem step_storage (vaults : Vaults Encrypted) (i : ℕ) (task : Task) (env : Environment) :
    (vaults.step lib cipher i task env).storage = (vaults.run lib cipher task env).2 := rfl

/-- The value that a step puts into the catalog. -/
def writes [DecidableEq Encrypted] (lib : Libraries) (cipher : SecretCipher Encrypted Data)
    (vaults : Vaults Encrypted) : Label → List Write
  | .call _ _ => []
  | .step i env =>
    match vaults.tasks[i]? with
    | some task =>
      if (vaults.run lib cipher task env).2 = vaults.storage then []
      else (task.value vaults.nextId).toList
    | none => []
  | .lockFails _ _ => []
  | .abandon _ => []

/-- What holds of the storage in every state. -/
structure Sound (cipher : SecretCipher Encrypted Data) (written : List Write)
    (vaults : Vaults Encrypted) : Prop where
  current : vaults.storage.Current
  below : vaults.storage.catalog.Below vaults.nextId
  valid : vaults.storage.catalog.Valid
  sealed : vaults.storage.catalog.Sealed cipher written

variable {storage : Storage Encrypted} {vaults' : Vaults Encrypted}

theorem sound_new (hnew : storage.New) : Sound cipher [] { storage } := by
  have hcatalog : storage.catalog = {} := by cases hnew <;> rfl
  have hcurrent : storage.Current := by cases hnew <;> trivial
  refine ⟨hcurrent, ?_, ?_, ?_⟩
  · exact hcatalog ▸ ⟨nofun, nofun⟩
  · exact hcatalog ▸ ⟨nodup_nil, nodup_nil, nofun⟩
  · rintro vaultId stored ⟨vault, hvault, _⟩
    simp only [hcatalog] at hvault
    cases hvault

/-- The storage keeps its properties through one access. -/
theorem Sound.change (hsound : vaults.Sound cipher written) {value write : Option Write}
    (hchange : Change cipher vaults.nextId vaults.storage.catalog catalog write)
    (hseals : Seals cipher vaults.storage.catalog value write)
    (hstorage : vaults'.storage = vaults.storage.replaceCatalog catalog)
    (hnextId : vaults'.nextId = vaults.nextId + 1) :
    vaults'.Sound cipher (written ++ value.toList) := by
  have hcatalog : vaults'.storage.catalog = catalog := by
    rw [hstorage, Storage.catalog_replaceCatalog]
  refine ⟨?_, ?_, ?_, ?_⟩
  · exact hstorage ▸ Storage.current_replaceCatalog catalog vaults.storage
  · exact hcatalog ▸ hnextId ▸ hchange.below hsound.below hsound.valid
  · exact hcatalog ▸ hchange.valid hsound.below hsound.valid
  · rw [hcatalog]
    have hwritten := hchange.seals hsound.below hsound.valid hsound.sealed
    rcases hseals with rfl | ⟨rfl, item, rfl, stored, hholds, hid, hdecrypt⟩
    · exact hwritten
    · intro vaultId other hother
      obtain ⟨secret, hlast, hsealsOther⟩ := hwritten vaultId other hother
      refine ⟨secret, ?_, hsealsOther⟩
      rw [Option.toList_some, lastWritten_snoc] at hlast
      rw [Option.toList_none, append_nil]
      split at hlast
      · rename_i hitem
        obtain ⟨rfl, hidOther⟩ := hitem
        obtain ⟨value, hvalue, hsealsStored⟩ := hsound.sealed _ stored hholds
        have hsecret : item.secret = value := hsealsStored.eq_of_decrypt hdecrypt
        rw [← hidOther, ← hid, hvalue, ← hsecret, Option.some.inj hlast]
      · exact hlast

theorem Sound.congr (hsound : vaults.Sound cipher written)
    (hstorage : vaults'.storage = vaults.storage) (hnextId : vaults.nextId ≤ vaults'.nextId) :
    vaults'.Sound cipher written := by
  refine ⟨hstorage ▸ hsound.current, ?_, hstorage ▸ hsound.valid, hstorage ▸ hsound.sealed⟩
  rw [hstorage]
  refine ⟨fun vault hvault ↦ ?_, fun vault hvault stored hstored ↦ ?_⟩
  · exact (hsound.below.vaults vault hvault).trans_le hnextId
  · exact (hsound.below.secrets vault hvault stored hstored).trans_le hnextId

/-- What a step of a task does to the storage. -/
theorem Sound.run_cases (lib : Libraries) (hcipher : cipher.Lawful)
    (hsound : vaults.Sound cipher written) (task : Task) (env : Environment) :
    (vaults.run lib cipher task env).2 = vaults.storage ∨
      ∃ catalog write, Change cipher vaults.nextId vaults.storage.catalog catalog write ∧
        Seals cipher vaults.storage.catalog (task.value vaults.nextId) write ∧
          (vaults.run lib cipher task env).2 = vaults.storage.replaceCatalog catalog ∧
            ((vaults.run lib cipher task env).1.isCommitted ∨ env.fault = some .syncDirectory) :=
  (task.sound_action hcipher env (vaults.draw env) _).run hsound.current env

theorem Sound.next [DecidableEq Encrypted] (hcipher : cipher.Lawful)
    (hsound : vaults.Sound cipher written) (label : Label) :
    (vaults.next lib cipher label).Sound cipher (written ++ vaults.writes lib cipher label) := by
  cases label with
  | call process call =>
    rw [writes, append_nil]
    exact hsound.congr rfl le_rfl
  | lockFails i message | abandon i =>
    rw [writes, append_nil]
    cases htask : vaults.tasks[i]? <;> simp only [Vaults.next, htask]
    · exact hsound
    · exact hsound.congr rfl le_rfl
  | step i env =>
    cases htask : vaults.tasks[i]? with
    | none => simpa [Vaults.next, writes, htask] using hsound
    | some task =>
      simp only [Vaults.next, writes, htask]
      split
      · rename_i hstorage
        rw [append_nil]
        exact hsound.congr hstorage (Nat.le_succ _)
      · rename_i hstorage
        rcases hsound.run_cases lib hcipher task env with
          hsame | ⟨catalog, write, hchange, hseals, hplace, _⟩
        · exact absurd hsame hstorage
        · exact hsound.change hchange hseals hplace rfl

theorem sound_exec [DecidableEq Encrypted] (lib : Libraries) (hcipher : cipher.Lawful)
    (hnew : storage.New) (labels : List Label) :
    ((system lib cipher).exec { storage } labels).Sound cipher
      ((system lib cipher).collect (writes lib cipher) { storage } labels) := by
  induction labels using reverseRecOn with
  | nil => exact sound_new hnew
  | append_singleton labels label ih =>
    rw [exec_append, collect_snoc]
    exact ih.next hcipher label

/-! ## The global vault -/

end Vaults

theorem Change.keeps_global {catalog' : Catalog Encrypted} {write : Option Write}
    (hchange : Change cipher nextId catalog catalog' write) (hvalid : catalog.Valid)
    {record : VaultRecord} (hname : record.name = "global")
    (hrecord : record ∈ catalog.vaults.map (·.record)) :
    record ∈ catalog'.vaults.map (·.record) := by
  cases hchange with
  | none => exact hrecord
  | create new hid hnew =>
    rw [Catalog.pushVault, map_append]
    exact mem_append_left _ hrecord
  | removeVault vaultId vault hvault hglobal =>
    obtain ⟨kept, hkept, rfl⟩ := mem_map.1 hrecord
    obtain ⟨hmem, hid⟩ := Catalog.mem_of_vault hvault
    refine mem_map.2 ⟨kept, mem_filter.2 ⟨hkept, ?_⟩, rfl⟩
    rw [bne_iff_ne]
    intro hsame
    have heq := inj_on_of_nodup_map hvalid.ids hkept hmem (hsame.trans hid.symm)
    exact hglobal (heq ▸ hname)
  | secrets vaultId vault change write hvault hchange =>
    rwa [Catalog.map_record_modifySecrets]

namespace Vaults

variable {vaults : Vaults Encrypted} {task : Task} {i : ℕ} {written : List Write}

theorem Sound.keeps_global (hcipher : cipher.Lawful) (hsound : vaults.Sound cipher written)
    (label : Label) {record : VaultRecord} (hname : record.name = "global")
    (hrecord : record ∈ vaults.storage.catalog.vaults.map (·.record)) :
    record ∈ (vaults.next lib cipher label).storage.catalog.vaults.map (·.record) := by
  cases label with
  | call process call => exact hrecord
  | lockFails i message | abandon i =>
    cases htask : vaults.tasks[i]? <;> simpa only [Vaults.next, htask]
  | step i env =>
    cases htask : vaults.tasks[i]? with
    | none => simpa only [Vaults.next, htask]
    | some task =>
      simp only [Vaults.next, htask, step]
      rcases hsound.run_cases lib hcipher task env with
        hsame | ⟨catalog, write, hchange, _, hplace, _⟩
      · rwa [hsame]
      · rw [hplace, Storage.catalog_replaceCatalog]
        exact hchange.keeps_global hsound.valid hname hrecord

/-! ## Failed calls -/

theorem isCommitted_run (vaults : Vaults Encrypted) (htask : task.phase.isCommitted)
    (env : Environment) : (vaults.run lib cipher task env).1.isCommitted := by
  obtain ⟨process, call, phase⟩ := task
  cases phase with
  | start => cases htask
  | create => cases htask
  | finished result => exact htask
  | abandoned => rfl
  | refresh refresh stage =>
    cases stage with
    | remember resolved => rfl
    | _ => cases htask

variable (lib : Libraries) (cipher : SecretCipher Encrypted Data) (vaults : Vaults Encrypted)
  (i : ℕ) (task : Task) in
/-- What a step does to a task. -/
inductive TaskStep : Label → Task → Prop where
  | idle (label : Label) : TaskStep label task
  | step (env : Environment) :
      TaskStep (.step i env) { task with phase := (vaults.run lib cipher task env).1 }
  | lockFails (message : String) :
      TaskStep (.lockFails i message) { task with phase := .finished (.error message) }
  | abandon : TaskStep (.abandon i) { task with phase := .abandoned }

theorem getElem?_proceed (vaults : Vaults Encrypted) (htask : vaults.tasks[i]? = some task)
    (phase : Phase) (j : ℕ) :
    (vaults.proceed i task phase).tasks[j]? =
      if i = j then some { task with phase } else vaults.tasks[j]? := by
  have hlength : i < vaults.tasks.length := (List.getElem?_eq_some_iff.1 htask).1
  simp only [proceed, List.getElem?_set, hlength, if_true]

theorem taskStep (lib : Libraries) (cipher : SecretCipher Encrypted Data)
    (vaults : Vaults Encrypted) (label : Label) (htask : vaults.tasks[i]? = some task) :
    ∃ task', (vaults.next lib cipher label).tasks[i]? = some task' ∧
      TaskStep lib cipher vaults i task label task' := by
  cases label with
  | call process call =>
    have hlength : i < vaults.tasks.length := (List.getElem?_eq_some_iff.1 htask).1
    refine ⟨task, ?_, .idle _⟩
    rw [next, List.getElem?_append_left hlength, htask]
  | step j env =>
    by_cases hj : j = i
    · subst hj
      refine ⟨{ task with phase := (vaults.run lib cipher task env).1 }, ?_, .step env⟩
      simp only [next, htask, step, getElem?_proceed vaults htask, if_true]
    · refine ⟨task, ?_, .idle _⟩
      cases hother : vaults.tasks[j]? with
      | none => simpa only [next, hother] using htask
      | some other =>
        simp only [next, hother, step, getElem?_proceed vaults hother, if_neg hj, htask]
  | lockFails j message =>
    by_cases hj : j = i
    · subst hj
      refine ⟨{ task with phase := .finished (.error message) }, ?_, .lockFails message⟩
      simp only [next, htask, getElem?_proceed vaults htask, if_true]
    · refine ⟨task, ?_, .idle _⟩
      cases hother : vaults.tasks[j]? with
      | none => simpa only [next, hother] using htask
      | some other => simp only [next, hother, getElem?_proceed vaults hother, if_neg hj, htask]
  | abandon j =>
    by_cases hj : j = i
    · subst hj
      refine ⟨{ task with phase := .abandoned }, ?_, .abandon⟩
      simp only [next, htask, getElem?_proceed vaults htask, if_true]
    · refine ⟨task, ?_, .idle _⟩
      cases hother : vaults.tasks[j]? with
      | none => simpa only [next, hother] using htask
      | some other => simp only [next, hother, getElem?_proceed vaults hother, if_neg hj, htask]

/-- The call can no longer fail. -/
def Committed (i : ℕ) (vaults : Vaults Encrypted) : Prop :=
  ∃ task, vaults.tasks[i]? = some task ∧ task.phase.isCommitted

theorem Committed.next (hcommitted : vaults.Committed i) {label : Label}
    (henabled : vaults.enabled label) : (vaults.next lib cipher label).Committed i := by
  obtain ⟨task, htask, hphase⟩ := hcommitted
  obtain ⟨task', htask', hstep⟩ := taskStep lib cipher vaults label htask
  refine ⟨task', htask', ?_⟩
  cases hstep with
  | idle => exact hphase
  | step env => exact isCommitted_run vaults hphase env
  | lockFails message =>
    simp only [enabled, htask, Option.any_some] at henabled
    obtain ⟨process, call, phase⟩ := task
    cases phase with
    | refresh refresh stage =>
      cases stage with
      | lock => cases hphase
      | _ => cases henabled
    | _ => cases henabled
  | abandon => rfl

/-- A step that changes the storage is the last that can fail, and fails only if the directory could
not be synchronized. -/
theorem Sound.committed_of_changed (hcipher : cipher.Lawful) (hsound : vaults.Sound cipher written)
    {env : Environment} (hfault : env.fault ≠ some .syncDirectory)
    (hchanged : (vaults.next lib cipher (.step i env)).storage ≠ vaults.storage) :
    (vaults.next lib cipher (.step i env)).Committed i := by
  cases htask : vaults.tasks[i]? with
  | none =>
    simp only [Vaults.next, htask] at hchanged
    exact absurd rfl hchanged
  | some task =>
    obtain ⟨task', htask', hstep⟩ := taskStep lib cipher vaults (.step i env) htask
    refine ⟨{ task with phase := (vaults.run lib cipher task env).1 }, ?_, ?_⟩
    · simp only [Vaults.next, htask, step, getElem?_proceed vaults htask, if_true]
    · simp only [Vaults.next, htask, step] at hchanged
      rcases hsound.run_cases lib hcipher task env with
        hsame | ⟨_, _, _, _, _, hcommitted | hsync⟩
      · exact absurd hsame hchanged
      · exact hcommitted
      · exact absurd hsync hfault

end Vaults

/-- In every run of calls on a new store, in any interleaving: the catalog is valid, and every
ciphertext is the value that was written last, sealed under its vault and its metadata; a global vault
is never deleted; and a call that returns an error has changed nothing, unless it was the
synchronization of the directory that failed. -/
theorem vault_catalog [DecidableEq Encrypted] (hcipher : cipher.Lawful)
    {storage : Storage Encrypted} (hnew : storage.New) {labels : List Label}
    (hrun : (Vaults.system lib cipher).Admits { storage } labels) :
    let exec := (Vaults.system lib cipher).exec { storage }
    let catalog := (exec labels).storage.catalog
    catalog.Valid ∧
    catalog.Sealed cipher
      ((Vaults.system lib cipher).collect (Vaults.writes lib cipher) { storage } labels) ∧
    (∀ first rest, labels = first ++ rest → ∀ record, record.name = "global" →
      record ∈ (exec first).storage.catalog.vaults.map (·.record) →
        record ∈ catalog.vaults.map (·.record)) ∧
    (∀ first i env rest, labels = first ++ .step i env :: rest →
      env.fault ≠ some .syncDirectory → ∀ task message, (exec labels).tasks[i]? = some task →
        task.phase = .finished (.error message) →
          (exec (first ++ [.step i env])).storage = (exec first).storage) := by
  have hsound := Vaults.sound_exec lib hcipher hnew
  refine ⟨(hsound labels).valid, (hsound labels).sealed, ?_, ?_⟩
  · rintro first rest rfl record hname hrecord
    clear hrun
    induction rest using reverseRecOn with
    | nil => simpa using hrecord
    | append_singleton rest label ih =>
      rw [← append_assoc, exec_append]
      exact (hsound (first ++ rest)).keeps_global hcipher label hname ih
  · rintro first i env rest rfl hfault task message htask hphase
    by_contra hchanged
    rw [exec_append] at hchanged htask
    rw [admits_append] at hrun
    have hcommitted := (hsound first).committed_of_changed hcipher hfault hchanged
    have hrest := hrun.2.2
    obtain ⟨task', htask', hphase'⟩ := invariant (Vaults.Committed i)
      (fun vaults label hvaults henabled ↦ hvaults.next henabled) hcommitted hrest
    cases htask.symm.trans htask'
    rw [hphase] at hphase'
    cases hphase'

/-! ## A cipher, and runs of it -/

/-- What is authenticated: a vault id with metadata of either kind. -/
abbrev Authenticated := VaultId × (SecretMetadata ⊕ LegacyMetadata)

/-- A cipher that keeps the authenticated data beside the secret. -/
def pairCipher : SecretCipher (Secret × Authenticated) Authenticated where
  encryptBound _ secret data := .ok (secret, data)
  decryptBound encrypted data :=
    if encrypted.2 = data then .ok encrypted.1 else .error "failed to decrypt secret payload"
  toVec vaultId metadata := (vaultId, .inl metadata)
  legacyToVec vaultId metadata := (vaultId, .inr metadata)

theorem lawful_pairCipher : pairCipher.Lawful := by
  constructor
  · intro nonce secret data encrypted hencrypt
    cases hencrypt
    exact if_pos rfl
  · intro nonce secret data encrypted other result hencrypt hdecrypt
    cases hencrypt
    by_contra hne
    simp [pairCipher, Ne.symm hne] at hdecrypt
  · intro vault vault' metadata metadata' heq
    cases heq
    exact ⟨rfl, rfl⟩

def tokenUrl (host path : String) : Url :=
  { scheme := "https", host := some (.domain host), hostStr := some host, port := some 443, path,
    origin := "https://" ++ host, text := "https://" ++ host ++ path }

/-- The libraries, as far as the runs below reach them. -/
def tokenLibraries : Libraries where
  parseUrl text :=
    if text == "https://api.example" then some (tokenUrl "api.example" "/")
    else if text == "https://auth.example/token" then some (tokenUrl "auth.example" "/token")
    else none
  toStr _ := true
  fromStr _ := true
  headerName _ := none
  encode value := value
  decode value := some value

def apiOrigin : CredentialDestination := .origin "https://api.example"

/-- A vault is created, and a secret put into it. -/
def putToken : List Label :=
  [.call 0 (.createVault "team"), .step 0 {},
    .call 0 (.putSecret 0 ⟨some (.destinations [apiOrigin]), "token", .key "alpha"⟩), .step 1 {}]

theorem vault_catalog_put :
    let catalog := ((Vaults.system tokenLibraries pairCipher).exec { storage := .memory {} }
      putToken).storage.catalog
    catalog.Valid ∧ catalog.Sealed pairCipher [⟨0, 1, .key "alpha"⟩] := by
  have hrun : (Vaults.system tokenLibraries pairCipher).Admits { storage := .memory {} } putToken :=
    by decide +kernel
  have hwrites : (Vaults.system tokenLibraries pairCipher).collect
      (Vaults.writes tokenLibraries pairCipher) { storage := .memory {} } putToken =
        [⟨0, 1, .key "alpha"⟩] := by
    decide +kernel
  have hspec := vault_catalog lawful_pairCipher .memory hrun
  rw [hwrites] at hspec
  exact ⟨hspec.1, hspec.2.1⟩

/-- The directory cannot be synchronized: the call fails, and the vault is there. -/
theorem failed_call_changes_catalog :
    let labels := [.call 0 (.createVault "team"), .step 0 { fault := some .syncDirectory }]
    let vaults := (Vaults.system tokenLibraries pairCipher).exec { storage := .file none } labels
    (Vaults.system tokenLibraries pairCipher).Admits { storage := .file none } labels ∧
      (vaults.tasks.map (·.phase) =
        [.finished (.error "cannot synchronize the directory")]) ∧
      vaults.storage.catalog.vaults.map (·.record) = [⟨0, "team", 0⟩] :=
  ⟨by decide +kernel, rfl, by decide +kernel⟩

end Exo.Vault
