import Exo.Policy.SandboxPolicy

/-!
# Which vault a secret comes from

An agent and a thread list the global vault, the vaults of the agent and those of the thread, and a
name is looked up from the end of the list.  Without a caller a vault that is attached again moves to
the end; with one it keeps its first place.  So the two paths find the same secret if and only if,
among the vaults that have the name, the last one by first place is the last one by last place.
For a server, the last vault with a secret that permits its URL decides.
-/

namespace Exo.Policy

open Library Vault List Except Egress

/-- The vaults that can be listed, with their secrets. -/
abbrev VaultCatalog := VaultId → Option (List SecretMetadata)

section Paths
variable (catalog : VaultCatalog)

/-- `get_vault`. -/
def getVault (id : VaultId) : Option VaultHandle :=
  (catalog id).map fun secrets ↦ ⟨id, .ok secrets⟩

/-- `compose_vaults`. -/
def composeVaults (inherited : List VaultHandle) (attached : List VaultId) :
    Except String (List VaultHandle) := do
  let vaults ← attached.mapM fun id ↦
    context (getVault catalog id) ("vault " ++ idText id ++ " is unavailable")
  return vaults.foldl
    (fun inherited vault ↦ inherited.filter (·.id != vault.id) ++ [vault]) inherited

/-- The loop of `list_vaults` for a caller. -/
def attachVaults (vaults : List VaultHandle) (attached : List VaultId) : List VaultHandle :=
  attached.foldl (fun vaults id ↦
    match getVault catalog id with
    | some vault => if vaults.any (·.id == id) then vaults else vaults ++ [vault]
    | none => vaults) vaults

/-- What `list_vaults` adds to the inherited vaults. -/
def withAttached (caller : Bool) (inherited : List VaultHandle) (attached : List VaultId) :
    Except String (List VaultHandle) :=
  if caller then .ok (attachVaults catalog inherited attached)
  else composeVaults catalog inherited attached

/-- `list_vaults` of an agent; the global vault is the default vault of the caller. -/
def agentContext (caller : Bool) (global : VaultId) (agent : List VaultId) : VaultContext where
  listVaults := do
    let global ← context (getVault catalog global) "global vault is unavailable"
    withAttached catalog caller [global] agent

/-- `list_vaults` of a thread. -/
def threadContext (caller : Bool) (global : VaultId) (agent thread : List VaultId) :
    VaultContext where
  listVaults := do
    withAttached catalog caller (← (agentContext catalog caller global agent).listVaults) thread

end Paths

section Order
variable (catalog : VaultCatalog) (reference : String)

/-- The secret that a reference means in a vault. -/
def secretOf (vault : VaultHandle) : Option SecretReference :=
  ((vault.listSecrets.toOption.getD []).find? fun secret ↦
    match parseId reference with
    | some id => secret.id == id
    | none => secret.name == reference).map fun secret ↦ ⟨vault.id, secret.id⟩

/-- The same for the identifier of a vault. -/
def secretIn (id : VaultId) : Option SecretReference :=
  (getVault catalog id).bind (secretOf reference)

section
variable (ids : List VaultId)

/-- The vaults that have the secret, in the order of a list. -/
def having : List VaultId :=
  ids.filter fun id ↦ (secretIn catalog reference id).isSome

/-- The vaults in the order of their first places. -/
def firstPlaces : List VaultId :=
  ids.foldl (fun seen id ↦ if id ∈ seen then seen else seen ++ [id]) []

/-- The secret from the vault whose last place is latest among those that have it. -/
def latest : Option SecretReference :=
  (having catalog reference ids).getLast?.bind (secretIn catalog reference)

/-- Agent and thread find the latest secret, with a caller and without one. -/
def FindsLatest (global : VaultId) (agent thread : List VaultId) : Prop :=
  ∀ caller, findSecret (agentContext catalog caller global agent) reference =
      .ok (latest catalog reference (global :: agent)) ∧
    findSecret (threadContext catalog caller global agent thread) reference =
      .ok (latest catalog reference (global :: (agent ++ thread)))

/-- The vault with the secret whose first place is last is the one whose last place is last. -/
def LastByFirstPlace : Prop :=
  (having catalog reference (firstPlaces ids)).getLast? = (having catalog reference ids).getLast?

end

instance (ids : List VaultId) : Decidable (LastByFirstPlace catalog reference ids) :=
  inferInstanceAs (Decidable (_ = _))

end Order

/-- The list of the vaults in a catalog. -/
def handles (catalog : VaultCatalog) (ids : List VaultId) : List VaultHandle :=
  ids.filterMap (getVault catalog)

section Lookup
variable {catalog : VaultCatalog} {reference : String} {ids : List VaultId}

theorem having_snoc (id : VaultId) :
    having catalog reference (ids ++ [id]) = having catalog reference ids ++
      if (secretIn catalog reference id).isSome then [id] else [] := by
  simp only [having, filter_append, filter_cons, filter_nil]

theorem secretIn_vaultId {id : VaultId} {found : SecretReference}
    (hfound : secretIn catalog reference id = some found) : found.vaultId = id := by
  obtain ⟨vault, hvault, hsecret⟩ := Option.bind_eq_some_iff.1 hfound
  obtain ⟨_, -, rfl⟩ := Option.map_eq_some_iff.1 hvault
  obtain ⟨_, -, rfl⟩ := Option.map_eq_some_iff.1 hsecret
  rfl

theorem latest_vaultId (ids : List VaultId) :
    (latest catalog reference ids).map (·.vaultId) = (having catalog reference ids).getLast? := by
  unfold latest
  cases hlast : (having catalog reference ids).getLast? with
  | none => rfl
  | some id =>
    have hhas := (mem_filter.1 (mem_of_getLast? hlast)).2
    obtain ⟨found, hfound⟩ := Option.isSome_iff_exists.1 hhas
    rw [Option.bind_some, hfound, Option.map_some, secretIn_vaultId hfound]

theorem findSecret_handles (ids : List VaultId) :
    findSecret ⟨.ok (handles catalog ids)⟩ reference = .ok (latest catalog reference ids) := by
  have hsecrets : (handles catalog ids).mapM (·.listSecrets) =
      .ok ((handles catalog ids).map (·.listSecrets.toOption.getD [])) := by
    rw [mapM_eq_ok, forall₂_map_right_iff, forall₂_same]
    intro vault hvault
    obtain ⟨id, -, hsome⟩ := mem_filterMap.1 hvault
    obtain ⟨_, -, rfl⟩ := Option.map_eq_some_iff.1 hsome
    rfl
  simp only [findSecret, hsecrets, Bind.bind, Except.bind, pure, Except.pure,
    ← map_prod_left_eq_zip, ← map_reverse, findSome?_map]
  congr 1
  clear hsecrets
  change (handles catalog ids).reverse.findSome? (secretOf reference) = _
  induction ids using reverseRecOn with
  | nil => rfl
  | append_singleton ids id ih =>
    rw [latest] at ih ⊢
    have hsplit : handles catalog (ids ++ [id]) = handles catalog ids ++ handles catalog [id] :=
      filterMap_append
    rw [having_snoc, hsplit, reverse_append, findSome?_append, ih]
    have hone : (handles catalog [id]).reverse.findSome? (secretOf reference) =
        secretIn catalog reference id := by
      cases hvault : getVault catalog id <;> simp [handles, secretIn, hvault]
    rw [hone]
    cases hsecret : secretIn catalog reference id <;> simp [hsecret]

end Lookup

section Orders
variable {catalog : VaultCatalog} {reference : String} {ids seen : List VaultId}

/-- The vaults can be seen. -/
def Visible (catalog : VaultCatalog) (ids : List VaultId) : Prop :=
  ∀ id ∈ ids, (catalog id).isSome = true

instance (ids : List VaultId) : Decidable (Visible catalog ids) :=
  inferInstanceAs (Decidable (∀ _ ∈ _, _))

theorem Visible.cons {id : VaultId} (hvisible : Visible catalog (id :: ids)) :
    getVault catalog id = some ⟨id, .ok ((catalog id).getD [])⟩ ∧ Visible catalog ids := by
  obtain ⟨secrets, hsecrets⟩ := Option.isSome_iff_exists.1 (hvisible id mem_cons_self)
  exact ⟨by simp [getVault, hsecrets], fun other hother ↦ hvisible other (.tail _ hother)⟩

theorem Visible.map_id (hvisible : Visible catalog ids) :
    (handles catalog ids).map (·.id) = ids := by
  induction ids with
  | nil => rfl
  | cons id ids ih =>
    obtain ⟨hvault, hrest⟩ := hvisible.cons
    rw [handles, filterMap_cons_some hvault, map_cons, ← handles, ih hrest]

theorem Visible.any_id (hvisible : Visible catalog ids) (id : VaultId) :
    (handles catalog ids).any (·.id == id) = decide (id ∈ ids) := by
  calc (handles catalog ids).any (·.id == id)
      = ((handles catalog ids).map (·.id)).any (· == id) := by rw [any_map]; rfl
    _ = decide (id ∈ ids) := by rw [hvisible.map_id, any_beq', contains_eq_mem]

theorem filter_handles (id : VaultId) (ids : List VaultId) :
    (handles catalog ids).filter (·.id != id) = handles catalog (ids.filter (· ≠ id)) := by
  induction ids with
  | nil => rfl
  | cons other ids ih =>
    cases hother : catalog other with
    | none | some secrets => by_cases hid : other = id <;> simp_all [handles, getVault]

/-- With a caller a vault keeps its first place. -/
theorem attachVaults_handles (hvisible : Visible catalog ids) (hseen : Visible catalog seen) :
    attachVaults catalog (handles catalog seen) ids =
      handles catalog (ids.foldl (fun seen id ↦ if id ∈ seen then seen else seen ++ [id]) seen) := by
  induction ids generalizing seen with
  | nil => rfl
  | cons id ids ih =>
    obtain ⟨hvault, hrest⟩ := hvisible.cons
    have hsnoc : handles catalog (seen ++ [id]) = handles catalog seen ++ handles catalog [id] :=
      filterMap_append
    have hone : handles catalog [id] = [⟨id, .ok ((catalog id).getD [])⟩] := by
      simp [handles, hvault]
    rw [attachVaults, foldl_cons, foldl_cons, hvault]
    by_cases hin : id ∈ seen
    · simp only [hseen.any_id, hin, decide_true, if_true, ← ih hrest hseen, attachVaults]
    · have hmore : Visible catalog (seen ++ [id]) := by
        intro other hother
        rcases mem_append.1 hother with hold | hnew
        · exact hseen other hold
        · exact hvisible other (mem_singleton.1 hnew ▸ mem_cons_self)
      simp only [hseen.any_id, hin, decide_false, Bool.false_eq_true, if_false, ← ih hrest hmore,
        hsnoc, hone, attachVaults]

/-- Without one it moves to the end. -/
theorem composeVaults_handles (hvisible : Visible catalog ids) (seen : List VaultId) :
    composeVaults catalog (handles catalog seen) ids =
      .ok (handles catalog (ids.foldl (fun seen id ↦ seen.filter (· ≠ id) ++ [id]) seen)) := by
  have hvaults : ids.mapM (fun id ↦
      context (getVault catalog id) ("vault " ++ idText id ++ " is unavailable")) =
        .ok (handles catalog ids) := by
    rw [mapM_eq_ok]
    induction ids with
    | nil => exact .nil
    | cons id ids ih =>
      obtain ⟨hvault, hrest⟩ := hvisible.cons
      rw [handles, filterMap_cons_some hvault]
      exact .cons (by rw [hvault]; rfl) (ih hrest)
  simp only [composeVaults, hvaults, Bind.bind, Except.bind, pure, Except.pure]
  clear hvaults
  induction ids generalizing seen with
  | nil => rfl
  | cons id ids ih =>
    obtain ⟨hvault, hrest⟩ := hvisible.cons
    have hmoved : (handles catalog seen).filter (·.id != id) ++ [⟨id, .ok ((catalog id).getD [])⟩] =
        handles catalog (seen.filter (· ≠ id) ++ [id]) := by
      have hsnoc : handles catalog (seen.filter (· ≠ id) ++ [id]) =
          handles catalog (seen.filter (· ≠ id)) ++ handles catalog [id] := filterMap_append
      rw [filter_handles, hsnoc]
      simp [handles, hvault]
    have hcons : handles catalog (id :: ids) = _ := filterMap_cons_some hvault
    rw [hcons, foldl_cons, foldl_cons, hmoved]
    exact ih hrest _

theorem latest_moved (seen ids : List VaultId) :
    latest catalog reference (ids.foldl (fun seen id ↦ seen.filter (· ≠ id) ++ [id]) seen) =
      latest catalog reference (seen ++ ids) := by
  induction ids using reverseRecOn with
  | nil => simp
  | append_singleton ids id ih =>
    rw [foldl_concat, ← append_assoc]
    simp only [latest, having_snoc] at ih ⊢
    cases hsecret : secretIn catalog reference id with
    | some found => simp
    | none =>
      have hkept : ∀ ids, having catalog reference (ids.filter (· ≠ id)) =
          having catalog reference ids := by
        intro ids
        rw [having, filter_filter]
        apply filter_congr
        intro other _
        by_cases hother : other = id <;> simp [hother, hsecret]
      simp only [hkept, Option.isSome_none, Bool.false_eq_true, if_false, append_nil]
      exact ih

section
variable (caller : Bool)

/-- The vaults of a context with a caller, or without one. -/
def placed (seen ids : List VaultId) : List VaultId :=
  if caller then ids.foldl (fun seen id ↦ if id ∈ seen then seen else seen ++ [id]) seen
  else ids.foldl (fun seen id ↦ seen.filter (· ≠ id) ++ [id]) seen

theorem withAttached_handles (hvisible : Visible catalog ids)
    (hseen : Visible catalog seen) :
    withAttached catalog caller (handles catalog seen) ids =
      .ok (handles catalog (placed caller seen ids)) := by
  cases caller with
  | true => exact congrArg ok (attachVaults_handles hvisible hseen)
  | false => exact composeVaults_handles hvisible seen

theorem placed_append (first second : List VaultId) :
    placed caller seen (first ++ second) = placed caller (placed caller seen first) second := by
  cases caller <;> exact foldl_append

theorem placed_subset (seen ids : List VaultId) : placed caller seen ids ⊆ seen ++ ids := by
  induction ids using reverseRecOn with
  | nil => cases caller <;> simp [placed]
  | append_singleton ids id ih =>
    rw [placed_append]
    generalize placed caller seen ids = before at ih
    cases caller <;> simp only [placed, foldl_cons, foldl_nil] <;> grind

/-- A search through the vaults of a context. -/
theorem findSecret_placed {global : VaultId} {agent thread : List VaultId}
    (hvisible : Visible catalog (global :: (agent ++ thread))) :
    findSecret (agentContext catalog caller global agent) reference =
        .ok (latest catalog reference (placed caller [global] agent)) ∧
      findSecret (threadContext catalog caller global agent thread) reference =
        .ok (latest catalog reference (placed caller [global] (agent ++ thread))) := by
  have hmono : ∀ fewer, fewer ⊆ global :: (agent ++ thread) → Visible catalog fewer :=
    fun fewer hsubset id hid ↦ hvisible id (hsubset hid)
  have hagent : (agentContext catalog caller global agent).listVaults =
      .ok (handles catalog (placed caller [global] agent)) := by
    have hone : handles catalog [global] = [⟨global, .ok ((catalog global).getD [])⟩] := by
      simp [handles, hvisible.cons.1]
    have hplaced := withAttached_handles caller (hmono agent (by simp)) (hmono [global] (by simp))
    rw [hone] at hplaced
    simp only [agentContext, hvisible.cons.1, context, Bind.bind, Except.bind]
    exact hplaced
  have hthread : (threadContext catalog caller global agent thread).listVaults =
      .ok (handles catalog (placed caller [global] (agent ++ thread))) := by
    have hseen : placed caller [global] agent ⊆ global :: (agent ++ thread) := by
      have hsubset := placed_subset caller [global] agent
      grind
    rw [placed_append, ← withAttached_handles caller (hmono thread (by simp)) (hmono _ hseen)]
    simp only [threadContext, hagent, Bind.bind, Except.bind]
  have hfind : ∀ context : VaultContext, ∀ ids, context.listVaults = .ok (handles catalog ids) →
      findSecret context reference = .ok (latest catalog reference ids) := by
    rintro ⟨_⟩ ids rfl
    exact findSecret_handles ids
  exact ⟨hfind _ _ hagent, hfind _ _ hthread⟩

end

/-- A caller finds the latest secret if and only if first and last places agree. -/
theorem latest_firstPlaces_iff (ids : List VaultId) :
    latest catalog reference (firstPlaces ids) = latest catalog reference ids ↔
      LastByFirstPlace catalog reference ids := by
  constructor
  · intro hlatest
    rw [LastByFirstPlace, ← latest_vaultId, hlatest, latest_vaultId]
  · intro hlast
    rw [latest, hlast, latest]

end Orders

/-- The paths agree, on the latest secret, if and only if the vault with the secret whose first place
is last is the one whose last place is last, for the agent and for the thread. -/
theorem finds_latest_iff {catalog : VaultCatalog} {reference : String} {global : VaultId}
    {agent thread : List VaultId} (hvisible : Visible catalog (global :: (agent ++ thread))) :
    FindsLatest catalog reference global agent thread ↔
      LastByFirstPlace catalog reference (global :: agent) ∧
        LastByFirstPlace catalog reference (global :: (agent ++ thread)) := by
  have hfirst : ∀ ids, placed true [global] ids = firstPlaces (global :: ids) := fun _ ↦ rfl
  have hmoved : ∀ ids, latest catalog reference (placed false [global] ids) =
      latest catalog reference (global :: ids) := latest_moved [global]
  simp only [FindsLatest, findSecret_placed _ hvisible, ok.injEq, Bool.forall_bool, hmoved,
    hfirst, latest_firstPlaces_iff, true_and]

/-- Two vaults with a secret of one name. -/
def sharedName : VaultCatalog :=
  fun id ↦ if id < 3 then some [⟨none, 1, 10 + id, .key, "token", 0⟩] else none

theorem finds_latest_iff_sharedName : Visible sharedName [0, 1, 2] ∧
    (FindsLatest sharedName "token" 0 [1] [2] ↔
      LastByFirstPlace sharedName "token" [0, 1] ∧ LastByFirstPlace sharedName "token" [0, 1, 2]) :=
  ⟨by decide, finds_latest_iff (by decide)⟩

/-- The thread attaches a vault of the agent again, after the other one. -/
theorem not_finds_latest : Visible sharedName [0, 1, 2, 1] ∧
    ¬FindsLatest sharedName "token" 0 [1, 2] [1] := by
  refine ⟨by decide, fun hlatest ↦ ?_⟩
  have hfound := (findSecret_placed true (by decide)).2.symm.trans (hlatest true).2
  revert hfound
  decide +kernel

section Selection

structure NamedVault extends VaultHandle where
  /-- `record().name`. -/
  name : String

structure McpServer where
  name : String
  url : String

variable (lib : Libraries) (target : CredentialDestination)

def listsTarget (policy : CredentialPolicy) : Bool :=
  match policy.networking with
  | .destinations allowedDestinations => allowedDestinations.contains target
  | .limited _ => false

/-- The secrets that permit the target, each with whether it lists it. -/
def candidates (secrets : List SecretMetadata) : List (Bool × SecretMetadata) :=
  secrets.filterMap fun secret ↦
    (secret.policy.filter (·.permits lib target)).map fun policy ↦ (listsTarget target policy, secret)

/-- The loop over the vaults and their secrets, the last one first. -/
def choose (url : String) :
    List (NamedVault × List SecretMetadata) → Except String (Option SecretReference)
  | [] => return none
  | (vault, secrets) :: earlier =>
    match (candidates lib target secrets).mergeSort fun first second ↦ second.1 ≤ first.1 with
    | [] => choose url earlier
    | (exact, selected) :: others => do
      ensure (others.head?.all (·.1 != exact)) ("multiple secrets in vault " ++ vault.name ++
        " permit " ++ url ++ "; narrow their policies to select one credential")
      return some ⟨vault.id, selected.id⟩

/-- `VaultSelection::from_vaults`. -/
def fromVaults (vaults : List NamedVault) (servers : List McpServer) :
    Except String (List McpCredentialBinding) := do
  let secrets ← vaults.mapM (·.listSecrets)
  servers.mapM fun server ↦ do
    let target ← CredentialDestination.ofUrl lib server.url
    let secret ← choose lib target server.url (vaults.zip secrets).reverse
    return ⟨server.name, target, secret⟩

/-- The last vault with candidates has a single one that lists the target, or a single one. -/
inductive Chooses : List (NamedVault × List SecretMetadata) → Option SecretReference → Prop where
  | none : Chooses [] none
  | earlier {vault secrets earlier choice} (hnone : candidates lib target secrets = [])
      (hearlier : Chooses earlier choice) : Chooses ((vault, secrets) :: earlier) choice
  | last {vault secrets earlier secret}
      (honly : (candidates lib target secrets).filter (·.1) = [(true, secret)] ∨
        candidates lib target secrets = [(false, secret)]) :
      Chooses ((vault, secrets) :: earlier) (some ⟨vault.id, secret.id⟩)

variable {lib target}

/-- Sorted, the first candidate is the only one of its kind if the next one is of another. -/
theorem only_iff {exact : Bool} {selected : SecretMetadata}
    {others : List (Bool × SecretMetadata)} (secret : SecretMetadata)
    (hsorted : ((exact, selected) :: others).Pairwise fun first second ↦ second.1 ≤ first.1) :
    others.head?.all (·.1 != exact) = true ∧ selected = secret ↔
      ((exact, selected) :: others).filter (·.1) = [(true, secret)] ∨
        (exact, selected) :: others = [(false, secret)] := by
  obtain ⟨hfirst, hothers⟩ := pairwise_cons.1 hsorted
  cases others with
  | nil => cases exact <;> simp
  | cons next others =>
    have hafter (hnext : next.1 = false) : others.filter (·.1) = [] := by
      refine filter_eq_nil_iff.2 fun candidate hmem ↦ ?_
      simpa [hnext] using Bool.le_iff_imp.1 (rel_of_pairwise_cons hothers hmem)
    cases exact with
    | false => simp [Bool.eq_false_of_le_false (hfirst next mem_cons_self), hafter]
    | true => cases hnext : next.1 <;> simp [hnext, hafter]

theorem choose_eq_ok_iff {url : String} {vaults : List (NamedVault × List SecretMetadata)}
    {choice : Option SecretReference} :
    choose lib target url vaults = .ok choice ↔ Chooses lib target vaults choice := by
  induction vaults with
  | nil => exact pure_eq_ok.trans ⟨fun hnone ↦ hnone ▸ .none, fun | .none => rfl⟩
  | cons entry earlier ih =>
    obtain ⟨vault, secrets⟩ := entry
    have hperm : ((candidates lib target secrets).mergeSort fun first second ↦
        decide (second.1 ≤ first.1)).Perm (candidates lib target secrets) := mergeSort_perm _ _
    have hsorted : ((candidates lib target secrets).mergeSort fun first second ↦
        decide (second.1 ≤ first.1)).Pairwise fun first second ↦ decide (second.1 ≤ first.1) = true :=
      pairwise_mergeSort (by simp) (by simp) _
    rw [choose]
    split
    case h_1 hsort =>
      rw [hsort, nil_perm] at hperm
      rw [ih]
      constructor
      · exact .earlier hperm
      · rintro (_ | ⟨-, hearlier⟩ | ⟨honly⟩)
        · exact hearlier
        · simp [hperm] at honly
    case h_2 exact selected others hsort =>
      rw [hsort] at hperm hsorted
      have honly (secret : SecretMetadata) := only_iff secret (hsorted.imp of_decide_eq_true)
      simp only [← perm_singleton, hperm.congr_left, (hperm.filter _).congr_left] at honly
      simp only [perm_singleton] at honly
      simp only [bind_eq_ok, ensure_eq_ok, pure_eq_ok, exists_and_left]
      constructor
      · rintro ⟨hall, -, rfl⟩
        exact .last ((honly selected).1 ⟨hall, rfl⟩)
      · rintro (_ | ⟨hnone, -⟩ | ⟨hlast⟩)
        · rw [hnone, perm_nil] at hperm
          cases hperm
        · obtain ⟨hall, rfl⟩ := (honly _).2 hlast
          exact ⟨hall, (), rfl⟩

/-- A selection is made if the secrets are listed and every server has a URL and a choice. -/
theorem fromVaults_eq_ok_iff (vaults : List NamedVault) (servers : List McpServer)
    (bindings : List McpCredentialBinding) :
    fromVaults lib vaults servers = .ok bindings ↔ ∃ secrets,
      vaults.mapM (·.listSecrets) = .ok secrets ∧ Forall₂ (fun server binding ↦
        binding.serverName = server.name ∧
          CredentialDestination.ofUrl lib server.url = .ok binding.target ∧
            Chooses lib binding.target (vaults.zip secrets).reverse binding.secret)
        servers bindings := by
  rw [fromVaults, bind_eq_ok]
  refine exists_congr fun secrets ↦ and_congr_right fun _ ↦ mapM_eq_ok.trans (iff_of_eq
    (congrArg (Forall₂ · servers bindings) (funext₂ fun server binding ↦ propext ?_)))
  simp only [bind_eq_ok, pure_eq_ok, choose_eq_ok_iff]
  constructor
  · rintro ⟨target, htarget, secret, hsecret, rfl⟩
    exact ⟨rfl, htarget, hsecret⟩
  · rintro ⟨hname, htarget, hsecret⟩
    exact ⟨_, htarget, _, hsecret, by rw [← hname]⟩

end Selection

end Exo.Policy
