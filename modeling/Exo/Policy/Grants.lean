import Exo.Policy.SandboxPolicy

/-!
# What the passes grant

A pass grants a binding out of the stored policy of a secret, for one destination.  The binding
permits no well-formed destination that the stored policy does not, and its host is allowed by the
network policy, which no pass changes.
-/

namespace Exo.Policy

open Library Egress Storage Vault List

variable (lib : Libraries)

/-- The scheme is one that a destination may have, and there is a host. -/
def IsHttp (url : Url) : Prop :=
  (url.scheme = "http" ∨ url.scheme = "https") ∧ url.hostStr.isSome

instance (url : Url) : Decidable (IsHttp url) := inferInstanceAs (Decidable (_ ∧ _))

/-- What is relied on of URLs and their origins. -/
structure UrlLaws : Prop where
  parse_text : ∀ {value url}, lib.parseUrl value = some url → lib.parseUrl url.text = some url
  /-- The serialization of an origin is the URL of that origin. -/
  parse_origin : ∀ {value url}, lib.parseUrl value = some url → IsHttp url →
    ∃ root, CredentialDestination.parse lib url.origin = .ok root ∧ root.origin = url.origin
  /-- The origin is made of the scheme, the host and the port. -/
  origin_injective : ∀ {value value' url url'}, lib.parseUrl value = some url →
    lib.parseUrl value' = some url' → IsHttp url → IsHttp url' → url.origin = url'.origin →
      url.scheme = url'.scheme ∧ url.hostStr = url'.hostStr
  github_host : ∀ {url}, lib.parseUrl githubApi = some url → url.hostStr = some "api.github.com"

variable {value : String}

theorem parse_eq_ok {url : Url} :
    CredentialDestination.parse lib value = .ok url ↔ lib.parseUrl value = some url ∧ IsHttp url ∧
      url.username.isEmpty ∧ url.password = none ∧ url.fragment = none := by
  simp only [CredentialDestination.parse, bind_eq_ok, context_eq_ok, ensure_eq_ok, pure_eq_ok,
    IsHttp, Bool.and_eq_true, Bool.or_eq_true, beq_iff_eq, Option.isNone_iff_eq_none]
  constructor
  · rintro ⟨parsed, hparse, -, ⟨⟨⟨⟨hscheme, hhost⟩, husername⟩, hpassword⟩, hfragment⟩, rfl⟩
    exact ⟨hparse, ⟨hscheme, hhost⟩, husername, hpassword, hfragment⟩
  · rintro ⟨hparse, ⟨hscheme, hhost⟩, husername, hpassword, hfragment⟩
    exact ⟨url, hparse, (), ⟨⟨⟨⟨hscheme, hhost⟩, husername⟩, hpassword⟩, hfragment⟩, rfl⟩

/-- A destination that its own constructors accept. -/
def WellFormed (destination : CredentialDestination) : Prop :=
  ∃ url, CredentialDestination.parse lib destination.asStr = .ok url

/-- The host of a destination. -/
def HasHost (destination : CredentialDestination) (host : String) : Prop :=
  ∃ url, CredentialDestination.parse lib destination.asStr = .ok url ∧ url.hostStr = some host

variable {lib}

theorem ofOrigin_eq_ok {target : CredentialDestination}
    (htarget : CredentialDestination.ofOrigin lib value = .ok target) :
    ∃ url, lib.parseUrl value = some url ∧ IsHttp url ∧ target = .origin url.origin := by
  simp only [CredentialDestination.ofOrigin, bind_eq_ok, ensure_eq_ok, pure_eq_ok] at htarget
  obtain ⟨url, hurl, -, -, rfl⟩ := htarget
  obtain ⟨hparse, hhttp, -⟩ := (parse_eq_ok lib).1 hurl
  exact ⟨url, hparse, hhttp, rfl⟩

/-- What is known of the destination for the origin of a URL. -/
theorem root_of_url (laws : UrlLaws lib) {url : Url} (hparse : lib.parseUrl value = some url)
    (hhttp : IsHttp url) :
    ∃ root, CredentialDestination.parse lib url.origin = .ok root ∧
      lib.parseUrl url.origin = some root ∧ root.origin = url.origin ∧
      root.scheme = url.scheme ∧ root.hostStr = url.hostStr := by
  obtain ⟨root, hroot, horigin⟩ := laws.parse_origin hparse hhttp
  obtain ⟨hrootParse, hrootHttp, -⟩ := (parse_eq_ok lib).1 hroot
  obtain ⟨hscheme, hhost⟩ := laws.origin_injective hrootParse hparse hrootHttp hhttp horigin
  exact ⟨root, hroot, hrootParse, horigin, hscheme, hhost⟩

/-- The destination for the origin of a URL that was parsed before. -/
theorem ofOrigin_origin (laws : UrlLaws lib) {url : Url} {target : CredentialDestination}
    (hparse : lib.parseUrl value = some url) (hhttp : IsHttp url)
    (htarget : CredentialDestination.ofOrigin lib url.origin = .ok target) :
    target = .origin url.origin := by
  obtain ⟨other, hother, -, rfl⟩ := ofOrigin_eq_ok htarget
  obtain ⟨root, -, hroot, horigin, -⟩ := root_of_url laws hparse hhttp
  rw [Option.some.inj (hother.symm.trans hroot), horigin]

/-- A destination that the code makes: the origin of a URL, or a URL in its serialization. -/
inductive Canonical (lib : Libraries) : CredentialDestination → Url → Prop
  | origin {value : String} {url : Url} (hparse : lib.parseUrl value = some url)
      (hhttp : IsHttp url) : Canonical lib (.origin url.origin) url
  | url {value : String} {url : Url} (hparse : CredentialDestination.parse lib value = .ok url) :
      Canonical lib (.url url.text) url

variable {target destination : CredentialDestination} {url : Url} {host : String}

theorem Canonical.hasHost (laws : UrlLaws lib) (hcanonical : Canonical lib target url)
    (hhost : url.hostStr = some host) : HasHost lib target host := by
  cases hcanonical with
  | origin hparse hhttp =>
    obtain ⟨root, hroot, -, -, -, hsame⟩ := root_of_url laws hparse hhttp
    exact ⟨root, hroot, hsame.trans hhost⟩
  | url hparse =>
    obtain ⟨hvalue, hhttp, hrest⟩ := (parse_eq_ok lib).1 hparse
    exact ⟨url, (parse_eq_ok lib).2 ⟨laws.parse_text hvalue, hhttp, hrest⟩, hhost⟩

theorem Canonical.permits_self (laws : UrlLaws lib) (hcanonical : Canonical lib target url) :
    target.permits lib target = true := by
  cases hcanonical with
  | origin hparse hhttp =>
    obtain ⟨root, -, hroot, horigin, -⟩ := root_of_url laws hparse hhttp
    simp [CredentialDestination.permits, CredentialDestination.asStr, hroot, horigin]
  | url => simp [CredentialDestination.permits]

/-- What the destination permits is permitted by each policy that permits the destination. -/
theorem Canonical.permits_of_permits (laws : UrlLaws lib) (hcanonical : Canonical lib target url)
    {networking : CredentialNetworkPolicy} (hnetworking : networking.permits lib target = true)
    (hformed : WellFormed lib destination) (hpermits : target.permits lib destination = true) :
    networking.permits lib destination = true := by
  cases hcanonical with
  | url =>
    -- A URL permits itself and nothing else.
    cases destination with
    | origin => simp [CredentialDestination.permits] at hpermits
    | url requested =>
      simp only [CredentialDestination.permits, beq_iff_eq] at hpermits
      rwa [← hpermits]
  | origin hparse hhttp =>
    obtain ⟨root, -, hroot, horigin, hscheme, hhost⟩ := root_of_url laws hparse hhttp
    obtain ⟨other, hother⟩ := hformed
    obtain ⟨hotherParse, hotherHttp, -⟩ := (parse_eq_ok lib).1 hother
    have hsame : other.origin = url.origin := by
      simpa [CredentialDestination.permits, hotherParse] using hpermits
    obtain ⟨hotherScheme, hotherHost⟩ :=
      laws.origin_injective hotherParse hparse hotherHttp hhttp hsame
    cases networking with
    | limited allowedHosts =>
      simp only [CredentialNetworkPolicy.permits, CredentialDestination.asStr, hroot, hscheme, hhost,
        Option.any_some] at hnetworking
      simpa only [CredentialNetworkPolicy.permits, hotherParse, hotherScheme, hotherHost,
        Option.any_some] using hnetworking
    | destinations allowedDestinations =>
      simp only [CredentialNetworkPolicy.permits, any_eq_true] at hnetworking ⊢
      obtain ⟨allowed, hallowed, hpermitted⟩ := hnetworking
      refine ⟨allowed, hallowed, ?_⟩
      cases allowed with
      | url => simp [CredentialDestination.permits] at hpermitted
      | origin text =>
        have htext : root.origin = text := by
          simpa [CredentialDestination.permits, CredentialDestination.asStr, hroot] using hpermitted
        simp [CredentialDestination.permits, hotherParse, hsame, ← htext, horigin]

variable {conversation : VaultContext} {networking : SandboxNetworkPolicy}
  {reference : SecretReference} {stored granted : CredentialPolicy}
  {policy policy' policy'' : EgressPolicy} {added added' : List EgressCredentialBinding}
  {envVariable : String}

/-- A binding for one destination, out of the stored policy of the secret that it names. -/
structure GrantedFrom (lib : Libraries) (conversation : VaultContext)
    (networking : SandboxNetworkPolicy) (binding : EgressCredentialBinding)
    (reference : SecretReference) (stored : CredentialPolicy) : Prop where
  name : binding.name = idText reference.secretId
  found : credentialPolicy conversation reference = .ok stored
  permits : ∀ destination, WellFormed lib destination →
    (bindingPolicy binding).permits lib destination = true → stored.permits lib destination = true
  host : ∃ target host, binding.networking = .destinations [target] ∧ HasHost lib target host ∧
    hostAllowed networking host = true

def Granted (lib : Libraries) (conversation : VaultContext) (networking : SandboxNetworkPolicy)
    (binding : EgressCredentialBinding) : Prop :=
  ∃ reference stored, GrantedFrom lib conversation networking binding reference stored

/-- Some binding of the variable lets the secret travel to the destination. -/
def Selects (lib : Libraries) (policy : EgressPolicy) (envVariable : String)
    (reference : SecretReference) (destination : CredentialDestination) : Prop :=
  ∃ binding ∈ policy.credentials, binding.environmentVariable = envVariable ∧
    binding.name = idText reference.secretId ∧
    (bindingPolicy binding).permits lib destination = true

theorem forDestination_eq_ok : forDestination lib stored target = .ok granted ↔
    stored.permits lib target = true ∧ granted = .destinations [target] := by
  simp only [forDestination, bind_eq_ok, ensure_eq_ok, pure_eq_ok]
  constructor
  · rintro ⟨-, hpermits, rfl⟩
    exact ⟨hpermits, rfl⟩
  · rintro ⟨hpermits, rfl⟩
    exact ⟨(), hpermits, rfl⟩

theorem permits_destinations : (CredentialPolicy.destinations [target]).permits lib destination =
    target.permits lib destination := by
  simp [CredentialPolicy.permits, CredentialPolicy.destinations, CredentialNetworkPolicy.permits]

theorem granted_bind (envVariable : String) (laws : UrlLaws lib) (hcanonical : Canonical lib target url)
    (hhost : url.hostStr = some host) (hallowed : hostAllowed networking host = true)
    (hstored : credentialPolicy conversation reference = .ok stored)
    (hgranted : forDestination lib stored target = .ok granted) :
    Granted lib conversation networking (bind granted (idText reference.secretId) envVariable) := by
  obtain ⟨hpermits, rfl⟩ := forDestination_eq_ok.1 hgranted
  obtain ⟨hheader, hnetworking⟩ := Bool.and_eq_true_iff.1 hpermits
  refine ⟨reference, stored, rfl, hstored, fun destination hformed hpermitted ↦ ?_,
    target, host, rfl, hcanonical.hasHost laws hhost, hallowed⟩
  have htarget : target.permits lib destination = true :=
    permits_destinations.symm.trans hpermitted
  exact Bool.and_eq_true_iff.2
    ⟨hheader, hcanonical.permits_of_permits laws hnetworking hformed htarget⟩

theorem selects_push (laws : UrlLaws lib) (hcanonical : Canonical lib target url)
    (hgranted : forDestination lib stored target = .ok granted) :
    Selects lib (pushBinding policy (bind granted (idText reference.secretId) envVariable))
      envVariable reference target := by
  obtain ⟨-, rfl⟩ := forDestination_eq_ok.1 hgranted
  refine ⟨_, mem_append_right _ (mem_singleton_self _), rfl, rfl, ?_⟩
  exact permits_destinations.trans (hcanonical.permits_self laws)

/-- The policy has more bindings than before, each granted and with a variable that satisfies `P`. -/
structure Pushes (lib : Libraries) (conversation : VaultContext) (P : String → Prop)
    (policy policy' : EgressPolicy) (added : List EgressCredentialBinding) : Prop where
  networking : policy'.networking = policy.networking
  credentials : policy'.credentials = policy.credentials ++ added
  granted : ∀ binding ∈ added, Granted lib conversation policy.networking binding
  named : ∀ binding ∈ added, P binding.environmentVariable

variable {P : String → Prop}

theorem Pushes.refl : Pushes lib conversation P policy policy [] :=
  ⟨rfl, by simp, by simp, by simp⟩

theorem Pushes.push {binding : EgressCredentialBinding}
    (hgranted : Granted lib conversation policy.networking binding)
    (hnamed : P binding.environmentVariable) :
    Pushes lib conversation P policy (pushBinding policy binding) [binding] :=
  ⟨rfl, rfl, by simpa using hgranted, by simpa using hnamed⟩

theorem Pushes.trans (hfirst : Pushes lib conversation P policy policy' added)
    (hsecond : Pushes lib conversation P policy' policy'' added') :
    Pushes lib conversation P policy policy'' (added ++ added') where
  networking := hsecond.networking.trans hfirst.networking
  credentials := by rw [hsecond.credentials, hfirst.credentials, append_assoc]
  granted := by
    intro binding hbinding
    rcases mem_append.1 hbinding with hbinding | hbinding
    · exact hfirst.granted binding hbinding
    · exact hfirst.networking ▸ hsecond.granted binding hbinding
  named := by
    intro binding hbinding
    rcases mem_append.1 hbinding with hbinding | hbinding
    · exact hfirst.named binding hbinding
    · exact hsecond.named binding hbinding

theorem Pushes.selects (hpushes : Pushes lib conversation P policy policy' added)
    (hselects : Selects lib policy envVariable reference destination) :
    Selects lib policy' envVariable reference destination := by
  obtain ⟨binding, hbinding, hrest⟩ := hselects
  exact ⟨binding, hpushes.credentials ▸ mem_append_left _ hbinding, hrest⟩

def variableNames (policy : EgressPolicy) : List String :=
  policy.credentials.map (·.environmentVariable)

theorem findBinding_eq_none :
    findBinding policy envVariable = none ↔ envVariable ∉ variableNames policy := by
  simp [findBinding, variableNames]

/-- The variable is one that the pass for Git resources makes. -/
def IsGitVariable (envVariable : String) : Prop := "EXO_GIT_".toList <+: envVariable.toList

/-- Two lists of variables clash alike, also after more variables of Git resources. -/
def ClashAlike (names given : List String) : Prop :=
  ∀ more, (∀ name ∈ more, IsGitVariable name) → ((names ++ more).Nodup ↔ (given ++ more).Nodup)

variable {names given : List String} {name : String}

theorem ClashAlike.pushGit (hclash : ClashAlike names given) (hname : IsGitVariable name) :
    ClashAlike (names ++ [name]) (given ++ [name]) := by
  intro more hmore
  have hall : ∀ other ∈ name :: more, IsGitVariable other := forall_mem_cons.2 ⟨hname, hmore⟩
  simpa using hclash (name :: more) hall

theorem ClashAlike.pushFresh (hclash : ClashAlike names given) (hfresh : name ∉ names)
    (hname : ¬ IsGitVariable name) : ClashAlike (names ++ [name]) given := by
  intro more hmore
  have hnot : name ∉ names ++ more := by
    intro hmem
    rcases mem_append.1 hmem with hmem | hmem
    · exact hfresh hmem
    · exact hname (hmore name hmem)
  have hperm : (names ++ [name] ++ more).Perm (name :: (names ++ more)) := by
    rw [append_assoc]
    exact perm_middle
  rw [hperm.nodup_iff, nodup_cons, ← hclash more hmore]
  exact and_iff_right hnot

end Exo.Policy
