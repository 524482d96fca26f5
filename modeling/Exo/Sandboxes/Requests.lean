import Exo.Policy.SandboxPolicy

/-!
# Sandboxes of an owner

An owner (an agent or a thread) stores its sandboxes.  A request with a name gets the newest stored
sandbox of that name that runs, if it was created by an equal request, and else a new sandbox; a
request that differs is refused.
-/

namespace Exo.Sandboxes

open Library Egress Policy

abbrev SandboxProvider := String

/-- The number of the uuid in `sandbox-{uuid}`; the order of the texts is that of the numbers. -/
abbrev SandboxId := ℕ

inductive FileSystemMountMode where
  | readOnly
  | readWrite
  deriving DecidableEq

structure FileSystemMount where
  hostPath : String
  mountPath : String
  mode : FileSystemMountMode
  isInternal : Option Bool
  deriving DecidableEq

structure DurableFileSystem where
  name : String
  mountPath : String
  mode : FileSystemMountMode
  deriving DecidableEq

structure SandboxResourceShape where
  vcpuCount : ℕ
  memoryMib : ℕ
  deriving DecidableEq

structure CreateSandboxRequest where
  name : Option String
  provider : SandboxProvider
  image : String
  resources : Option SandboxResourceShape
  defaultWorkdir : Option String
  fileSystemMounts : Option (List FileSystemMount)
  durableFileSystems : Option (List DurableFileSystem)
  policy : Option EgressPolicy
  enableNetworking : Option Bool
  idleSeconds : Option ℕ
  tcpPorts : List ℕ

structure PreparedSandboxRequest where
  name : Option String
  provider : SandboxProvider
  image : String
  resources : Option SandboxResourceShape
  defaultWorkdir : Option String
  fileSystemMounts : List FileSystemMount
  durableFileSystems : List DurableFileSystem
  policy : EgressPolicy
  /-- Sorted by name, one reference for each. -/
  credentials : List (String × SecretReference)
  idleSeconds : ℕ
  tcpPorts : List ℕ

/-- What the harness gives to a request that leaves it out: the image of the provider's binding, the
policy of the harness, and the vaults of the owner. -/
structure Settings where
  bindingDefaultImage : SandboxProvider → Option String
  sandboxPolicy : Option EgressPolicy
  findSecret : String → Except String (Option SecretReference)

/-- `BTreeMap::insert` on the sorted list of its entries. -/
def insertCredential (name : String) (reference : SecretReference) :
    List (String × SecretReference) → List (String × SecretReference)
  | [] => [(name, reference)]
  | entry :: rest =>
    if name < entry.1 then (name, reference) :: entry :: rest
    else if name = entry.1 then (name, reference) :: rest
    else entry :: insertCredential name reference rest

def prepareSandboxRequest (settings : Settings) (request : CreateSandboxRequest) :
    Except String PreparedSandboxRequest := do
  let image :=
    if request.image.toList.all Scheduler.isWhitespace then
      (settings.bindingDefaultImage request.provider).getD request.image
    else request.image
  let policy := (request.policy.or settings.sandboxPolicy).getD
    ⟨if request.enableNetworking.getD true then .unrestricted else .disabled, none, []⟩
  let credentials ← policy.credentials.mapM fun binding ↦ do
    let reference ← settings.findSecret binding.name
    let reference ← context reference ("egress credential not found: " ++ binding.name)
    return (binding.name, reference)
  return {
    name := request.name
    provider := request.provider
    image
    resources := request.resources
    defaultWorkdir := request.defaultWorkdir
    fileSystemMounts := request.fileSystemMounts.getD []
    durableFileSystems := request.durableFileSystems.getD []
    policy
    credentials := credentials.foldl (fun map entry ↦ insertCredential entry.1 entry.2 map) []
    idleSeconds := request.idleSeconds.getD 60
    tcpPorts := request.tcpPorts }

structure StoredSandbox where
  principal : Option String
  id : SandboxId
  name : Option String
  provider : SandboxProvider
  image : String
  resources : Option SandboxResourceShape
  requestedImage : Option String
  defaultWorkdir : Option String
  fileSystemMounts : List FileSystemMount
  durableFileSystems : List DurableFileSystem
  policy : EgressPolicy
  credentials : List (String × SecretReference)
  idleSeconds : ℕ
  tcpPorts : List ℕ
  running : Bool

/-- `PreparedSandboxRequest::stored_sandbox`, with the principal that it is persisted for. -/
def PreparedSandboxRequest.storedSandbox (request : PreparedSandboxRequest) (id : SandboxId)
    (principal : Option String) : StoredSandbox where
  principal := principal
  id := id
  name := request.name
  provider := request.provider
  image := request.image
  resources := request.resources
  requestedImage := none
  defaultWorkdir := request.defaultWorkdir
  fileSystemMounts := request.fileSystemMounts
  durableFileSystems := request.durableFileSystems
  policy := request.policy
  credentials := request.credentials
  idleSeconds := request.idleSeconds
  tcpPorts := request.tcpPorts
  running := true

/-- Whether a stored sandbox was created by an equal request.  After a snapshot restore `image` is
the restored tag, and the image that was asked for is compared. -/
def StoredSandbox.sameConfiguration (sandbox : StoredSandbox) (request : PreparedSandboxRequest) :
    Bool :=
  sandbox.provider == request.provider &&
  sandbox.requestedImage.getD sandbox.image == request.image &&
  sandbox.resources == request.resources &&
  sandbox.defaultWorkdir == request.defaultWorkdir &&
  sandbox.fileSystemMounts == request.fileSystemMounts &&
  sandbox.durableFileSystems == request.durableFileSystems &&
  sandbox.policy == request.policy &&
  sandbox.credentials == request.credentials &&
  sandbox.idleSeconds == request.idleSeconds &&
  sandbox.tcpPorts == request.tcpPorts

def findMatchingStoredSandbox (sandboxes : List StoredSandbox) (request : PreparedSandboxRequest)
    (principal : Option String) : Except String (Option StoredSandbox) :=
  match request.name with
  | none => .ok none
  | some name =>
    let newestFirst := (sandboxes.mergeSort fun sandbox other ↦ sandbox.id ≤ other.id).reverse
    match newestFirst.find? fun sandbox ↦
        principal.all (fun caller ↦ sandbox.principal == some caller) &&
          sandbox.name == some name && sandbox.running with
    | none => .ok none
    | some sandbox =>
      if sandbox.sameConfiguration request then .ok (some sandbox)
      else .error ("sandbox name " ++ reprStr name ++
        " already exists with a different configuration")

/-- `create_sandbox` for an agent: the id, and the sandboxes stored after it.  `backend` tells
whether the backend gave a handle. -/
def createSandbox (sandboxes : List StoredSandbox) (settings : Settings)
    (backend : Except String Unit) (principal : Option String) (request : CreateSandboxRequest)
    (newId : SandboxId) : Except String (SandboxId × List StoredSandbox) := do
  let prepared ← prepareSandboxRequest settings request
  let found ← findMatchingStoredSandbox sandboxes prepared principal
  backend
  match found with
  | some sandbox => return (sandbox.id, sandboxes)
  | none => return (newId, sandboxes ++ [prepared.storedSandbox newId principal])

section Requests
variable {settings : Settings} {backend : Except String Unit} {principal : Option String}
  {request : CreateSandboxRequest} {newId id : SandboxId} {sandbox : StoredSandbox}
  {sandboxes : List StoredSandbox}

theorem name_of_prepare {prepared : PreparedSandboxRequest}
    (hprepare : prepareSandboxRequest settings request = .ok prepared) :
    prepared.name = request.name := by
  obtain ⟨credentials, _, hprepared⟩ := bind_eq_ok.1 hprepare
  cases hprepared
  rfl

/-- The first request creates a sandbox of its name. -/
theorem createSandbox_nil
    (hcreate : createSandbox [] settings backend principal request newId = .ok (id, sandboxes)) :
    ∃ sandbox, sandboxes = [sandbox] ∧ sandbox.id = id ∧ sandbox.name = request.name ∧
      sandbox.running = true := by
  obtain ⟨prepared, hprepare, hcreate⟩ := bind_eq_ok.1 hcreate
  obtain ⟨found, hfound, hcreate⟩ := bind_eq_ok.1 hcreate
  obtain ⟨_, _, hcreate⟩ := bind_eq_ok.1 hcreate
  have hnone : found = none := by
    cases hname : prepared.name <;>
    · simp [findMatchingStoredSandbox, hname] at hfound
      exact hfound.symm
  subst hnone
  cases hcreate
  exact ⟨_, rfl, rfl, name_of_prepare hprepare, rfl⟩

/-- A request for the only sandbox by its name gets that sandbox or nothing. -/
theorem createSandbox_singleton {name : String} (hrequest : request.name = some name)
    (hname : sandbox.name = some name) (hrunning : sandbox.running = true)
    (hprincipal : principal = none ∨ sandbox.principal = principal)
    (hcreate : createSandbox [sandbox] settings backend principal request newId =
      .ok (id, sandboxes)) :
    id = sandbox.id ∧ sandboxes = [sandbox] := by
  obtain ⟨prepared, hprepare, hcreate⟩ := bind_eq_ok.1 hcreate
  obtain ⟨found, hfound, hcreate⟩ := bind_eq_ok.1 hcreate
  obtain ⟨_, _, hcreate⟩ := bind_eq_ok.1 hcreate
  have hprepared : prepared.name = some name := (name_of_prepare hprepare).trans hrequest
  have hvisible : principal.all (fun caller ↦ sandbox.principal == some caller) = true := by
    cases principal with
    | none => rfl
    | some caller => simpa using hprincipal
  have hsome : found = some sandbox := by
    simp only [findMatchingStoredSandbox, hprepared, List.mergeSort_singleton,
      List.reverse_singleton, List.find?_cons, hvisible, hname, hrunning, beq_self_eq_true,
      Bool.and_self] at hfound
    split at hfound <;> cases hfound
    rfl
  subst hsome
  cases hcreate
  exact ⟨rfl, rfl⟩

end Requests

end Exo.Sandboxes
