import Exo.Policy.Grants

/-!
# The passes over the policy of a sandbox

Each pass leaves the network policy as it is and pushes granted bindings, or uses one that is there.
Variables clash in the result exactly when those of the environment and of the Git resources do.
-/

namespace Exo.Policy

open Library Egress Storage Vault List

variable {lib : Libraries} {conversation : VaultContext} {target : CredentialDestination}
  {reference : SecretReference} {stored : CredentialPolicy}
  {policy policy' policy'' : EgressPolicy} {added added' : List EgressCredentialBinding}
  {envVariable : String} {P : String → Prop}

/-! ## Git resources -/

def IsPassVariable (envVariable : String) : Prop :=
  envVariable = "GH_TOKEN" ∨ IsGitVariable envVariable

theorem hostAllowed_of_ensure {what : String} {result : Unit}
    (hensure : ensureHostAllowed policy host what = .ok result) :
    hostAllowed policy.networking host = true := ensure_eq_ok.1 hensure

theorem isGitVariable_gitCredentialVariable (resource : PreparedResource) :
    IsGitVariable resource.gitCredentialVariable := by
  rw [IsGitVariable, PreparedResource.gitCredentialVariable, String.toList_append]
  exact prefix_append _ _

theorem not_isGitVariable_ghToken : ¬ IsGitVariable "GH_TOKEN" := by
  unfold IsGitVariable
  decide

/-- The automatic token is there afterwards, and was pushed if it was not there before. -/
theorem addGithubToken_cases (laws : UrlLaws lib) {githubTarget : CredentialDestination}
    (hstored : credentialPolicy conversation reference = .ok stored)
    (htarget : CredentialDestination.ofOrigin lib githubApi = .ok githubTarget)
    (hadd : addGithubToken lib stored githubTarget reference policy = .ok policy') :
    policy' = policy ∨ ∃ binding, binding.environmentVariable = "GH_TOKEN" ∧
      "GH_TOKEN" ∉ variableNames policy ∧ policy' = pushBinding policy binding ∧
      Granted lib conversation policy.networking binding := by
  simp only [addGithubToken, bind_eq_ok] at hadd
  obtain ⟨_, hallowed, hadd⟩ := hadd
  split at hadd
  · simp only [bind_eq_ok, pure_eq_ok] at hadd
    obtain ⟨-, -, rfl⟩ := hadd
    exact .inl rfl
  · rename_i hnone
    simp only [bind_eq_ok, pure_eq_ok] at hadd
    obtain ⟨granted, hgranted, rfl⟩ := hadd
    obtain ⟨url, hparse, hhttp, rfl⟩ := ofOrigin_eq_ok htarget
    exact .inr ⟨_, rfl, findBinding_eq_none.1 hnone, rfl,
      granted_bind "GH_TOKEN" laws (.origin hparse hhttp) (laws.github_host hparse)
        (hostAllowed_of_ensure hallowed) hstored hgranted⟩

/-- What the round for a resource leaves: its binding, and nothing that clashes but the binding. -/
structure GitRound (lib : Libraries) (conversation : VaultContext) (policy : EgressPolicy)
    (gitNames : List String) (policy' : EgressPolicy) : Prop where
  pushes : ∃ added, Pushes lib conversation IsPassVariable policy policy' added
  clash : ∀ {given}, ClashAlike (variableNames policy) given →
    ClashAlike (variableNames policy') (given ++ gitNames)

theorem variableNames_pushBinding (binding : EgressCredentialBinding) :
    variableNames (pushBinding policy binding) =
      variableNames policy ++ [binding.environmentVariable] := by
  simp [variableNames, pushBinding]

theorem GitRound.refl : GitRound lib conversation policy [] policy :=
  ⟨⟨[], .refl⟩, fun hclash ↦ by simpa using hclash⟩

variable {gitNames : List String} {value : String} {configured configured' : Option EgressPolicy}
  {agentConfig : AgentConfig}

theorem GitRound.trans {gitNames' : List String}
    (hfirst : GitRound lib conversation policy gitNames policy')
    (hsecond : GitRound lib conversation policy' gitNames' policy'') :
    GitRound lib conversation policy (gitNames ++ gitNames') policy'' := by
  obtain ⟨⟨added, hadded⟩, hclash⟩ := hfirst
  obtain ⟨⟨added', hadded'⟩, hclash'⟩ := hsecond
  refine ⟨⟨added ++ added', hadded.trans hadded'⟩, fun hgiven ↦ ?_⟩
  rw [← append_assoc]
  exact hclash' (hclash hgiven)

variable {binding : EgressCredentialBinding} {resource : PreparedResource}
  {config : ConversationConfig} {name : String}

theorem GitRound.github (hname : binding.environmentVariable = "GH_TOKEN")
    (hfresh : "GH_TOKEN" ∉ variableNames policy)
    (hgranted : Granted lib conversation policy.networking binding) :
    GitRound lib conversation policy [] (pushBinding policy binding) := by
  refine ⟨⟨[binding], .push hgranted (.inl hname)⟩, fun hclash ↦ ?_⟩
  rw [variableNames_pushBinding, hname, append_nil]
  exact hclash.pushFresh hfresh not_isGitVariable_ghToken

theorem GitRound.git (hname : IsGitVariable binding.environmentVariable)
    (hgranted : Granted lib conversation policy.networking binding) :
    GitRound lib conversation policy [binding.environmentVariable] (pushBinding policy binding) := by
  refine ⟨⟨[binding], .push hgranted (.inr hname)⟩, fun hclash ↦ ?_⟩
  rw [variableNames_pushBinding]
  exact hclash.pushGit hname

/-- The secret may travel to the origin of the resource. -/
def SelectsGit (lib : Libraries) (policy : EgressPolicy) (resource : PreparedResource)
    (url : String) (reference : SecretReference) : Prop :=
  ∃ endpoint, lib.parseUrl url = some endpoint ∧
    Selects lib policy resource.gitCredentialVariable reference (.origin endpoint.origin)

theorem addGitResource_round (laws : UrlLaws lib)
    (hadd : addGitResource lib conversation resource value reference policy = .ok policy') :
    GitRound lib conversation policy [resource.gitCredentialVariable] policy' ∧
      SelectsGit lib policy' resource value reference := by
  simp only [addGitResource, bind_eq_ok, context_eq_ok, pure_eq_ok] at hadd
  obtain ⟨endpoint, hparse, _, hensure, host, hhost, stored, hstored, target, htarget, granted,
    hgranted, githubTarget, hgithub, _, -, _, hallowed, middle, hmiddle, rfl⟩ := hadd
  have hhttps : endpoint.scheme = "https" ∧ endpoint.port = some 443 := by
    simpa [ensure_eq_ok] using hensure
  have hhttp : IsHttp endpoint := ⟨.inr hhttps.1, by simp [hhost]⟩
  obtain rfl := ofOrigin_origin laws hparse hhttp htarget
  have hround : GitRound lib conversation policy [] middle := by
    unfold addGithubAccess at hmiddle
    split at hmiddle
    · rcases addGithubToken_cases laws hstored hgithub hmiddle with
        rfl | ⟨binding, hname, hfresh, rfl, hbinding⟩
      · exact .refl
      · exact .github hname hfresh hbinding
    · cases hmiddle
      exact .refl
  have hnetworking : middle.networking = policy.networking := by
    obtain ⟨added, hadded⟩ := hround.pushes
    exact hadded.networking
  have hbinding := granted_bind resource.gitCredentialVariable laws
    (.origin hparse hhttp) hhost (hnetworking ▸ hostAllowed_of_ensure hallowed) hstored hgranted
  refine ⟨hround.trans (.git (isGitVariable_gitCredentialVariable resource) hbinding),
    endpoint, hparse, ?_⟩
  exact selects_push laws (.origin hparse hhttp) hgranted

/-- The variable of a resource that has a URL and a credential. -/
def gitName (resource : PreparedResource) : Option String :=
  match resource.source with
  | .gitRepository (some _) (some _) => some resource.gitCredentialVariable
  | _ => none

theorem resourceReference_eq_ok {url : Option String} {credential : String}
    {found : Option SecretReference}
    (hsource : resource.source = .gitRepository url (some credential))
    (hfound : resourceReference conversation resource = .ok found) :
    ∃ reference, found = some reference ∧
      findSecret conversation credential = .ok (some reference) := by
  simp only [resourceReference, hsource, bind_eq_ok, context_eq_ok, pure_eq_ok] at hfound
  obtain ⟨_, hsecret, reference, rfl, rfl⟩ := hfound
  exact ⟨reference, rfl, hsecret⟩

theorem addGitResources_round (laws : UrlLaws lib)
    {resources : List (PreparedResource × Option SecretReference)}
    (hreferences : ∀ pair ∈ resources, resourceReference conversation pair.1 = .ok pair.2)
    (hadd : addGitResources lib conversation resources policy = .ok policy') :
    GitRound lib conversation policy ((resources.map Prod.fst).filterMap gitName) policy' ∧
      ∀ pair ∈ resources, ∀ url credential,
        pair.1.source = .gitRepository (some url) (some credential) →
          ∃ reference, findSecret conversation credential = .ok (some reference) ∧
            SelectsGit lib policy' pair.1 url reference := by
  induction resources generalizing policy with
  | nil =>
    cases hadd
    exact ⟨.refl, by simp⟩
  | cons pair rest ih =>
    obtain ⟨resource, found⟩ := pair
    obtain ⟨hfound, hrest⟩ := forall_mem_cons.1 hreferences
    rw [forall_mem_cons]
    unfold addGitResources at hadd
    split at hadd
    · rename_i url credential reference hsource
      rw [bind_eq_ok] at hadd
      obtain ⟨middle, hmiddle, hadd⟩ := hadd
      obtain ⟨hround, hselects⟩ := addGitResource_round laws hmiddle
      obtain ⟨hrounds, hall⟩ := ih hrest hadd
      refine ⟨?_, ?_, hall⟩
      · have hname : gitName resource = some resource.gitCredentialVariable := by
          simp only [gitName, hsource]
        rw [map_cons, filterMap_cons_some hname]
        exact hround.trans hrounds
      · intro value credential' hvalue
        obtain ⟨reference', hsome, hsecret⟩ := resourceReference_eq_ok hvalue hfound
        obtain ⟨endpoint, hparse, hselects⟩ := hselects
        obtain ⟨added, hpushes⟩ := hrounds.pushes
        cases hsome
        cases hsource.symm.trans hvalue
        exact ⟨reference, hsecret, endpoint, hparse, hpushes.selects hselects⟩
    · rename_i hnone
      have hsource : ∀ url credential,
          resource.source ≠ .gitRepository (some url) (some credential) := by
        intro url credential hsource
        obtain ⟨reference, hsome, -⟩ := resourceReference_eq_ok hsource hfound
        exact hnone url credential reference hsource hsome
      obtain ⟨hrounds, hall⟩ := ih hrest hadd
      refine ⟨?_, fun url credential hvalue ↦ absurd hvalue (hsource url credential), hall⟩
      have hname : gitName resource = none := by
        unfold gitName
        split
        · rename_i url credential hvalue
          exact absurd hvalue (hsource url credential)
        · rfl
      rwa [map_cons, filterMap_cons_none hname]

theorem addGitResourceBindings_round (laws : UrlLaws lib) {defaultPolicy : EgressPolicy}
    (hadd : addGitResourceBindings lib conversation config configured defaultPolicy =
      .ok configured') :
    GitRound lib conversation (configured.getD defaultPolicy) (config.resources.filterMap gitName)
        (configured'.getD defaultPolicy) ∧
      ∀ resource ∈ config.resources, ∀ url credential,
        resource.source = .gitRepository (some url) (some credential) →
          ∃ reference, findSecret conversation credential = .ok (some reference) ∧
            SelectsGit lib (configured'.getD defaultPolicy) resource url reference := by
  simp only [addGitResourceBindings, bind_eq_ok] at hadd
  obtain ⟨references, hreferences, hadd⟩ := hadd
  rw [mapM_eq_ok] at hreferences
  split at hadd
  · simp only [bind_eq_ok, pure_eq_ok] at hadd
    obtain ⟨policy', hadd, rfl⟩ := hadd
    have hlength := hreferences.length_eq
    have hpairs : ∀ pair ∈ config.resources.zip references,
        resourceReference conversation pair.1 = .ok pair.2 := by
      rintro ⟨resource, found⟩ hpair
      exact (forall₂_iff_zip.1 hreferences).2 hpair
    have hfst : (config.resources.zip references).map Prod.fst = config.resources :=
      map_fst_zip hlength.le
    obtain ⟨hround, hall⟩ := addGitResources_round laws hpairs hadd
    rw [hfst] at hround
    refine ⟨hround, fun resource hresource ↦ ?_⟩
    rw [← hfst, mem_map] at hresource
    obtain ⟨pair, hpair, rfl⟩ := hresource
    exact hall pair hpair
  · rename_i hnone
    rw [pure_eq_ok] at hadd
    subst hadd
    have hsource : ∀ resource ∈ config.resources, ∀ url credential,
        resource.source ≠ .gitRepository url credential := by
      intro resource hresource url credential hsource
      exact hnone (any_eq_true.2 ⟨resource, hresource, by simp [PreparedResource.isGit, hsource]⟩)
    have hnames : config.resources.filterMap gitName = [] := by
      rw [filterMap_eq_nil_iff]
      intro resource hresource
      unfold gitName
      split
      · rename_i url credential hvalue
        exact absurd hvalue (hsource resource hresource _ _)
      · rfl
    rw [hnames]
    exact ⟨.refl, fun resource hresource url credential hvalue ↦
      absurd hvalue (hsource resource hresource _ _)⟩

/-! ## The model -/

/-- A binding of the environment is kept; its name may become the id of the secret it names. -/
def Kept (conversation : VaultContext) (binding binding' : EgressCredentialBinding) : Prop :=
  binding' = binding ∨ ∃ reference, findSecret conversation binding.name = .ok (some reference) ∧
    binding' = { binding with name := idText reference.secretId }

/-- Only the name of the first binding of the variable has changed, to the id of its secret. -/
def Renames (conversation : VaultContext) (envVariable : String) (policy policy' : EgressPolicy) :
    Prop :=
  ∃ existing reference, findBinding policy envVariable = some existing ∧
    findSecret conversation existing.name = .ok (some reference) ∧
    policy' = { policy with
      credentials := updateFirst (·.environmentVariable == envVariable)
        (fun binding ↦ { binding with name := idText reference.secretId }) policy.credentials }

/-- The secret of the model may travel to the model endpoint. -/
def SelectsModel (lib : Libraries) (conversation : VaultContext) (agentConfig : AgentConfig)
    (policy : EgressPolicy) (envVariable : String) : Prop :=
  ∃ reference endpoint, modelCredential conversation agentConfig = .ok reference ∧
    modelEndpoint lib agentConfig.baseUrl envVariable = .ok endpoint ∧
    Selects lib policy envVariable reference (.origin endpoint.origin)

theorem modelEndpoint_eq_ok {baseUrl : Option String} {endpoint : Url}
    (hendpoint : modelEndpoint lib baseUrl envVariable = .ok endpoint) :
    (∃ value, lib.parseUrl value = some endpoint) ∧ IsHttp endpoint ∧
      envVariable ∈ ["OPENAI_API_KEY", "ANTHROPIC_API_KEY", "GEMINI_API_KEY"] := by
  simp only [modelEndpoint, bind_eq_ok, context_eq_ok, ensure_eq_ok, pure_eq_ok] at hendpoint
  obtain ⟨defaultUrl, hdefault, url, hparse, -, hchecked, rfl⟩ := hendpoint
  simp only [Bool.and_eq_true, beq_iff_eq] at hchecked
  refine ⟨⟨_, hparse⟩, ⟨.inr hchecked.1.1.1.1.1.1, hchecked.1.1.1.1.1.2⟩, ?_⟩
  unfold defaultModelUrl at hdefault
  split at hdefault <;> simp_all

theorem not_isPassVariable_model
    (hmem : envVariable ∈ ["OPENAI_API_KEY", "ANTHROPIC_API_KEY", "GEMINI_API_KEY"]) :
    ¬ IsPassVariable envVariable := by
  simp only [mem_cons, not_mem_nil, or_false] at hmem
  unfold IsPassVariable IsGitVariable
  rcases hmem with rfl | rfl | rfl <;> decide

/-- The pass for the model pushes a binding or uses the one that is there. -/
theorem addModelBinding_cases (laws : UrlLaws lib) {defaultPolicy : EgressPolicy}
    (hadd : addModelBinding lib conversation agentConfig envVariable configured defaultPolicy =
      .ok policy') :
    SelectsModel lib conversation agentConfig policy' envVariable ∧
      ¬ IsPassVariable envVariable ∧
      (Renames conversation envVariable (configured.getD defaultPolicy) policy' ∨
        ∃ binding, binding.environmentVariable = envVariable ∧
          envVariable ∉ variableNames (configured.getD defaultPolicy) ∧
          policy' = pushBinding (configured.getD defaultPolicy) binding ∧
          Granted lib conversation (configured.getD defaultPolicy).networking binding) := by
  simp only [addModelBinding, bind_eq_ok, context_eq_ok] at hadd
  obtain ⟨reference, hreference, endpoint, hendpoint, host, hhost, target, htarget, stored, hstored,
    granted, hgranted, _, -, _, hallowed, hadd⟩ := hadd
  obtain ⟨⟨value, hparse⟩, hhttp, hmem⟩ := modelEndpoint_eq_ok hendpoint
  obtain rfl := ofOrigin_origin laws hparse hhttp htarget
  have hcanonical := Canonical.origin hparse hhttp
  split at hadd
  · rename_i existing hexisting
    simp only [useModelBinding, bind_eq_ok, ensure_eq_ok, pure_eq_ok, Bool.and_eq_true,
      beq_iff_eq] at hadd
    obtain ⟨selected, hselected, -, ⟨⟨rfl, hheader⟩, hpermits⟩, rfl⟩ := hadd
    refine ⟨⟨reference, endpoint, hreference, hendpoint, ?_⟩, not_isPassVariable_model hmem,
      .inl ⟨existing, reference, hexisting, hselected, rfl⟩⟩
    have hfound := find?_updateFirst (p := (·.environmentVariable == envVariable))
      (f := fun binding ↦ { binding with name := idText reference.secretId }) (fun _ ↦ id)
      (configured.getD defaultPolicy).credentials
    rw [show find? _ _ = some existing from hexisting] at hfound
    refine ⟨_, mem_of_find?_eq_some hfound, ?_, rfl, ?_⟩
    · simpa using find?_some hexisting
    · exact Bool.and_eq_true_iff.2 ⟨hheader, hpermits⟩
  · rename_i hnone
    rw [pure_eq_ok] at hadd
    subst hadd
    exact ⟨⟨reference, endpoint, hreference, hendpoint, selects_push laws hcanonical hgranted⟩,
      not_isPassVariable_model hmem, .inr ⟨_, rfl, findBinding_eq_none.1 hnone, rfl,
        granted_bind envVariable laws hcanonical hhost (hostAllowed_of_ensure hallowed) hstored hgranted⟩⟩

/-! ## Native MCP servers -/

def IsMcpVariable (envVariable : String) : Prop := ∃ id, envVariable = credentialVariable id

theorem IsMcpVariable.not_isPassVariable (hmcp : IsMcpVariable envVariable) :
    ¬ IsPassVariable envVariable := by
  obtain ⟨id, rfl⟩ := hmcp
  rintro (heq | hprefix)
  · have hchars := congrArg String.toList heq
    rw [credentialVariable, String.toList_append] at hchars
    simp at hchars
  · rw [IsGitVariable, credentialVariable, String.toList_append] at hprefix
    simp at hprefix

theorem IsMcpVariable.not_mem_model (hmcp : IsMcpVariable envVariable) :
    envVariable ∉ ["OPENAI_API_KEY", "ANTHROPIC_API_KEY", "GEMINI_API_KEY"] := by
  obtain ⟨id, rfl⟩ := hmcp
  intro hmem
  simp only [mem_cons, not_mem_nil, or_false] at hmem
  rcases hmem with heq | heq | heq
  all_goals
    have hchars := congrArg String.toList heq
    rw [credentialVariable, String.toList_append] at hchars
    simp at hchars

/-- A binding for the secret of the server, which may be one that was there. -/
def NamesServer (policy : EgressPolicy) (secret : SecretReference) : Prop :=
  ∃ binding ∈ policy.credentials, binding.environmentVariable = credentialVariable secret.secretId ∧
    binding.name = idText secret.secretId

/-- The secret may travel to the URL of the server. -/
def SelectsServer (lib : Libraries) (policy : EgressPolicy) (selected : McpCredentialBinding)
    (secret : SecretReference) : Prop :=
  ∃ serverUrl target, selected.target = .url serverUrl ∧
    CredentialDestination.ofUrl lib serverUrl = .ok target ∧
    Selects lib policy (credentialVariable secret.secretId) secret target

/-- What the round for a server leaves. -/
structure ServerRound (lib : Libraries) (conversation : VaultContext)
    (selected : McpCredentialBinding) (policy policy' : EgressPolicy) : Prop where
  pushes : ∃ added, Pushes lib conversation IsMcpVariable policy policy' added
  clash : ∀ {given}, ClashAlike (variableNames policy) given →
    ClashAlike (variableNames policy') given
  fresh : ∀ name ∈ variableNames policy', name ∈ variableNames policy ∨
    ∃ secret, selected.secret = some secret ∧ name = credentialVariable secret.secretId
  names : ∀ secret, selected.secret = some secret → NamesServer policy' secret
  selects : ∀ secret, selected.secret = some secret →
    credentialVariable secret.secretId ∉ variableNames policy →
      SelectsServer lib policy' selected secret

theorem ofUrl_eq_ok (htarget : CredentialDestination.ofUrl lib value = .ok target) :
    ∃ url, lib.parseUrl value = some url ∧ Canonical lib target url := by
  simp only [CredentialDestination.ofUrl, bind_eq_ok, pure_eq_ok] at htarget
  obtain ⟨url, hurl, rfl⟩ := htarget
  exact ⟨url, ((parse_eq_ok lib).1 hurl).1, .url hurl⟩

theorem addServer_round (laws : UrlLaws lib) {selected : McpCredentialBinding}
    (hadd : addServer lib conversation selected policy = .ok policy') :
    ServerRound lib conversation selected policy policy' := by
  unfold addServer at hadd
  split at hadd
  · cases hadd
  rename_i serverUrl htarget
  simp only [bind_eq_ok, context_eq_ok] at hadd
  obtain ⟨endpoint, hparse, host, hhost, _, hallowed, hadd⟩ := hadd
  split at hadd
  · -- The server has no secret.
    rename_i hsecret
    rw [pure_eq_ok] at hadd
    subst hadd
    exact ⟨⟨[], .refl⟩, id, fun name hname ↦ .inl hname, by simp [hsecret], by simp [hsecret]⟩
  rename_i secret hsecret
  simp only [addServerSecret, bind_eq_ok] at hadd
  obtain ⟨-, -, hadd⟩ := hadd
  split at hadd
  · -- There is a binding of the variable.
    rename_i existing hexisting
    simp only [bind_eq_ok, ensure_eq_ok, pure_eq_ok, beq_iff_eq] at hadd
    obtain ⟨-, hname, rfl⟩ := hadd
    have hmem := mem_of_find?_eq_some hexisting
    have hvariable : existing.environmentVariable = credentialVariable secret.secretId := by
      simpa using find?_some hexisting
    refine ⟨⟨[], .refl⟩, id, fun name hname ↦ .inl hname, ?_, ?_⟩
    · rintro secret' hsecret'
      cases hsecret.symm.trans hsecret'
      exact ⟨existing, hmem, hvariable, hname⟩
    · rintro secret' hsecret' hnot
      cases hsecret.symm.trans hsecret'
      exact absurd (mem_map.2 ⟨existing, hmem, hvariable⟩) hnot
  · rename_i hnone
    simp only [bind_eq_ok, pure_eq_ok] at hadd
    obtain ⟨stored, hstored, target, hofUrl, granted, hgranted, rfl⟩ := hadd
    obtain ⟨url, hurl, hcanonical⟩ := ofUrl_eq_ok hofUrl
    cases hparse.symm.trans hurl
    have hmcp : IsMcpVariable (credentialVariable secret.secretId) := ⟨_, rfl⟩
    have hbinding := granted_bind (credentialVariable secret.secretId) laws
      hcanonical hhost (hostAllowed_of_ensure hallowed) hstored hgranted
    refine ⟨⟨_, .push hbinding hmcp⟩, fun hclash ↦ ?_, fun name hname ↦ ?_, ?_, ?_⟩
    · rw [variableNames_pushBinding]
      exact hclash.pushFresh (findBinding_eq_none.1 hnone)
        fun hgit ↦ hmcp.not_isPassVariable (.inr hgit)
    · rw [variableNames_pushBinding, mem_append, mem_singleton] at hname
      exact hname.imp_right fun heq ↦ ⟨secret, hsecret, heq⟩
    · rintro secret' hsecret'
      cases hsecret.symm.trans hsecret'
      exact ⟨_, mem_append_right _ (mem_singleton_self _), rfl, rfl⟩
    · rintro secret' hsecret' -
      cases hsecret.symm.trans hsecret'
      exact ⟨serverUrl, target, htarget, hofUrl, selects_push laws hcanonical hgranted⟩

/-- What the pass for the selected servers leaves. -/
structure ServersPass (lib : Libraries) (conversation : VaultContext)
    (bindings : List McpCredentialBinding) (policy policy' : EgressPolicy) : Prop where
  pushes : ∃ added, Pushes lib conversation IsMcpVariable policy policy' added
  clash : ∀ {given}, ClashAlike (variableNames policy) given →
    ClashAlike (variableNames policy') given
  names : ∀ selected ∈ bindings, ∀ secret, selected.secret = some secret →
    NamesServer policy' secret
  /-- The first of the servers that share a variable decides. -/
  selects : ∀ before selected after, bindings = before ++ selected :: after →
    ∀ secret, selected.secret = some secret →
      credentialVariable secret.secretId ∉ variableNames policy →
      (∀ earlier ∈ before, ∀ other, earlier.secret = some other →
        credentialVariable other.secretId ≠ credentialVariable secret.secretId) →
      SelectsServer lib policy' selected secret

theorem Pushes.namesServer {secret : SecretReference}
    (hpushes : Pushes lib conversation P policy policy' added) (hnames : NamesServer policy secret) :
    NamesServer policy' secret := by
  obtain ⟨binding, hbinding, hrest⟩ := hnames
  exact ⟨binding, hpushes.credentials ▸ mem_append_left _ hbinding, hrest⟩

theorem addServers_pass (laws : UrlLaws lib) {bindings : List McpCredentialBinding}
    (hadd : addServers lib conversation bindings policy = .ok policy') :
    ServersPass lib conversation bindings policy policy' := by
  induction bindings generalizing policy with
  | nil =>
    cases hadd
    exact ⟨⟨[], .refl⟩, id, by simp, by simp⟩
  | cons selected rest ih =>
    rw [addServers, bind_eq_ok] at hadd
    obtain ⟨middle, hmiddle, hadd⟩ := hadd
    have hround := addServer_round laws hmiddle
    have hpass := ih hadd
    obtain ⟨added, hadded⟩ := hround.pushes
    obtain ⟨added', hadded'⟩ := hpass.pushes
    refine ⟨⟨_, hadded.trans hadded'⟩, fun hclash ↦ hpass.clash (hround.clash hclash), ?_, ?_⟩
    · rw [forall_mem_cons]
      exact ⟨fun secret hsecret ↦ hadded'.namesServer (hround.names secret hsecret), hpass.names⟩
    · intro before server after hsplit secret hsecret hfresh hearlier
      cases before with
      | nil =>
        obtain ⟨rfl, rfl⟩ := cons.inj hsplit
        obtain ⟨serverUrl, target, htarget, hofUrl, hselects⟩ :=
          hround.selects secret hsecret hfresh
        exact ⟨serverUrl, target, htarget, hofUrl, hadded'.selects hselects⟩
      | cons first before =>
        obtain ⟨rfl, htail⟩ := cons.inj hsplit
        obtain ⟨hfirst, hearlier⟩ := forall_mem_cons.1 hearlier
        refine hpass.selects before server after htail secret hsecret (fun hmem ↦ ?_) hearlier
        rcases hround.fresh _ hmem with hmem | ⟨other, hother, heq⟩
        · exact hfresh hmem
        · exact hfirst other hother heq.symm

/-! ## The policy -/

/-- The policy that the passes start from, with the default in the place of none. -/
def basePolicy (agentConfig : AgentConfig) (config : ConversationConfig) : EgressPolicy :=
  (configuredPolicy config).getD (defaultPolicy agentConfig config)

/-- What a run of all passes leaves of the policy it starts from. -/
structure Extends (lib : Libraries) (conversation : VaultContext) (gitNames : List String)
    (policy policy' : EgressPolicy) : Prop where
  networking : policy'.networking = policy.networking
  credentials : ∃ kept added, policy'.credentials = kept ++ added ∧
    List.Forall₂ (Kept conversation) policy.credentials kept ∧
    ∀ binding ∈ added, Granted lib conversation policy.networking binding
  clash : ClashAlike (variableNames policy') (variableNames policy ++ gitNames)

theorem GitRound.extends (hround : GitRound lib conversation policy gitNames policy') :
    Extends lib conversation gitNames policy policy' := by
  obtain ⟨added, hpushes⟩ := hround.pushes
  exact ⟨hpushes.networking, ⟨policy.credentials, added, hpushes.credentials,
    forall₂_same.2 fun _ _ ↦ .inl rfl, hpushes.granted⟩, hround.clash fun _ _ ↦ Iff.rfl⟩

theorem Extends.pushes (hextends : Extends lib conversation gitNames policy policy')
    (hpushes : Pushes lib conversation P policy' policy'' added)
    (hclash : ∀ {given}, ClashAlike (variableNames policy') given →
      ClashAlike (variableNames policy'') given) :
    Extends lib conversation gitNames policy policy'' := by
  obtain ⟨hnetworking, ⟨kept, earlier, hcredentials, hkept, hgranted⟩, hclashes⟩ := hextends
  refine ⟨hpushes.networking.trans hnetworking, ⟨kept, earlier ++ added, ?_, hkept, ?_⟩,
    hclash hclashes⟩
  · rw [hpushes.credentials, hcredentials, append_assoc]
  · intro binding hbinding
    rcases mem_append.1 hbinding with hbinding | hbinding
    · exact hgranted binding hbinding
    · exact hnetworking ▸ hpushes.granted binding hbinding

theorem Renames.names_eq (hrenames : Renames conversation envVariable policy policy') :
    variableNames policy' = variableNames policy := by
  obtain ⟨existing, reference, -, -, rfl⟩ := hrenames
  have hname : ∀ binding : EgressCredentialBinding,
      { binding with name := idText reference.secretId }.environmentVariable =
        binding.environmentVariable := fun _ ↦ rfl
  exact map_updateFirst _ _ EgressCredentialBinding.environmentVariable hname policy.credentials

/-- The binding of another variable is as before. -/
theorem Renames.selects {destination : CredentialDestination}
    (hrenames : Renames conversation envVariable policy policy') (hname : name ≠ envVariable)
    (hselects : Selects lib policy name reference destination) :
    Selects lib policy' name reference destination := by
  obtain ⟨existing, _, -, -, rfl⟩ := hrenames
  obtain ⟨binding, hbinding, hvariable, hrest⟩ := hselects
  have hother : ¬ (binding.environmentVariable == envVariable) = true := by
    rw [hvariable, beq_iff_eq]
    exact hname
  exact ⟨binding, mem_updateFirst_of_not hbinding hother, hvariable, hrest⟩

/-- The pass for the model after the pass for the Git resources. -/
theorem GitRound.renames (hround : GitRound lib conversation policy gitNames policy')
    (hvariable : ¬ IsPassVariable envVariable)
    (hrenames : Renames conversation envVariable policy' policy'') :
    Extends lib conversation gitNames policy policy'' := by
  have hnames := hrenames.names_eq
  obtain ⟨existing, reference, hexisting, hsecret, rfl⟩ := hrenames
  obtain ⟨added, hpushes⟩ := hround.pushes
  have hnot : ∀ binding ∈ added, ¬ (binding.environmentVariable == envVariable) = true := by
    intro binding hbinding heq
    exact hvariable (beq_iff_eq.1 heq ▸ hpushes.named binding hbinding)
  let kept := updateFirst (·.environmentVariable == envVariable)
    (fun binding ↦ { binding with name := idText reference.secretId }) policy.credentials
  refine ⟨hpushes.networking, ⟨kept, added, ?_, ?_, hpushes.granted⟩, ?_⟩
  · rw [hpushes.credentials]
    exact updateFirst_append_of_not hnot policy.credentials
  · refine (forall₂_updateFirst _ _ _).imp fun binding binding' hbinding ↦ ?_
    refine hbinding.imp_right fun ⟨hfind, heq⟩ ↦ ⟨reference, ?_, heq⟩
    -- The first match of all bindings is the first match of those of the environment.
    have hfirst : findBinding policy' envVariable = some binding := by
      rw [findBinding, hpushes.credentials, find?_append, hfind, Option.some_or]
    cases hfirst.symm.trans hexisting
    exact hsecret
  · rw [hnames]
    exact hround.clash fun _ _ ↦ Iff.rfl

/-! ## The final policy -/

/-- Each Git resource with a credential, the model and each server have their bindings. -/
structure Complete (lib : Libraries) (conversation : VaultContext)
    (selection : Except String (Option (List McpCredentialBinding))) (agentConfig : AgentConfig)
    (config : ConversationConfig) (policy : EgressPolicy) : Prop where
  git : ∀ resource ∈ config.resources, ∀ url credential,
    resource.source = .gitRepository (some url) (some credential) →
      ∃ reference, findSecret conversation credential = .ok (some reference) ∧
        SelectsGit lib policy resource url reference
  model : ∀ envVariable, sandboxModelCredentialVariable agentConfig = .ok (some envVariable) →
    SelectsModel lib conversation agentConfig policy envVariable
  servers : isNative agentConfig → ∀ bindings, selection = .ok (some bindings) →
    ∀ selected ∈ bindings, ∀ secret, selected.secret = some secret → NamesServer policy secret
  firstServers : isNative agentConfig → ∀ before selected after,
    selection = .ok (some (before ++ selected :: after)) →
    ∀ secret, selected.secret = some secret →
      credentialVariable secret.secretId ∉ variableNames (basePolicy agentConfig config) →
      (∀ earlier ∈ before, ∀ other, earlier.secret = some other →
        credentialVariable other.secretId ≠ credentialVariable secret.secretId) →
      SelectsServer lib policy selected secret

theorem GitRound.mem_of_mcp (hround : GitRound lib conversation policy gitNames policy')
    (hmcp : IsMcpVariable name) (hname : name ∈ variableNames policy') :
    name ∈ variableNames policy := by
  obtain ⟨added, hpushes⟩ := hround.pushes
  rw [variableNames, hpushes.credentials, map_append, mem_append] at hname
  refine hname.resolve_right fun hadded ↦ ?_
  obtain ⟨binding, hbinding, rfl⟩ := mem_map.1 hadded
  exact hmcp.not_isPassVariable (hpushes.named binding hbinding)

/-- What the pass for the model leaves after the one for the Git resources. -/
structure ModelPass (lib : Libraries) (conversation : VaultContext) (agentConfig : AgentConfig)
    (envVariable : Option String) (gitNames : List String)
    (policy policy' policy'' : EgressPolicy) : Prop where
  extends_base : Extends lib conversation gitNames policy policy''
  keeps : ∀ name reference destination, IsPassVariable name →
    Selects lib policy' name reference destination → Selects lib policy'' name reference destination
  model : ∀ name, envVariable = some name → SelectsModel lib conversation agentConfig policy'' name
  mcp : ∀ name, IsMcpVariable name → name ∈ variableNames policy'' → name ∈ variableNames policy

theorem addModel_pass (laws : UrlLaws lib) {defaultPolicy : EgressPolicy}
    {chosen : Option String}
    (hround : GitRound lib conversation policy gitNames (configured.getD defaultPolicy))
    (hadd : addModel lib conversation agentConfig configured defaultPolicy chosen =
      .ok configured') :
    ModelPass lib conversation agentConfig chosen gitNames policy (configured.getD defaultPolicy)
      (configured'.getD defaultPolicy) := by
  cases chosen with
  | none =>
    cases hadd
    exact ⟨hround.extends, fun _ _ _ _ ↦ id, by simp,
      fun _ hmcp hname ↦ hround.mem_of_mcp hmcp hname⟩
  | some envVariable =>
    simp only [addModel, bind_eq_ok, pure_eq_ok] at hadd
    obtain ⟨policy'', hadd, rfl⟩ := hadd
    have hnotModel : ∀ name, IsMcpVariable name → name ≠ envVariable := by
      simp only [addModelBinding, bind_eq_ok] at hadd
      obtain ⟨_, -, endpoint, hendpoint, -⟩ := hadd
      rintro name hmcp rfl
      exact hmcp.not_mem_model (modelEndpoint_eq_ok hendpoint).2.2
    obtain ⟨hmodel, hvariable, hcases⟩ := addModelBinding_cases laws hadd
    have hmodels : ∀ name, some envVariable = some name →
        SelectsModel lib conversation agentConfig policy'' name := by
      rintro name ⟨⟩
      exact hmodel
    rcases hcases with hrenames | ⟨binding, hname, hfresh, rfl, hgranted⟩
    · refine ⟨hround.renames hvariable hrenames, fun name reference destination hpass ↦ ?_,
        hmodels, fun name hmcp hname ↦ ?_⟩
      · exact hrenames.selects fun heq ↦ hvariable (heq ▸ hpass)
      · rw [Option.getD_some, hrenames.names_eq] at hname
        exact hround.mem_of_mcp hmcp hname
    · have hpushes := Pushes.push (P := fun _ ↦ True) hgranted trivial
      refine ⟨hround.extends.pushes hpushes fun hclash ↦ ?_,
        fun name reference destination _ ↦ hpushes.selects, hmodels, fun name hmcp hmem ↦ ?_⟩
      · rw [Option.getD_some, variableNames_pushBinding, hname]
        exact hclash.pushFresh hfresh fun hgit ↦ hvariable (.inr hgit)
      · rw [Option.getD_some, variableNames_pushBinding, mem_append, mem_singleton, hname] at hmem
        exact hround.mem_of_mcp hmcp (hmem.resolve_right (hnotModel name hmcp))

theorem addNativeMcpBindings_pass (laws : UrlLaws lib)
    {selection : Option (List McpCredentialBinding)} {defaultPolicy : EgressPolicy}
    (hadd : addNativeMcpBindings lib conversation selection configured defaultPolicy =
      .ok configured') :
    ServersPass lib conversation (selection.getD []) (configured.getD defaultPolicy)
      (configured'.getD defaultPolicy) := by
  unfold addNativeMcpBindings at hadd
  split at hadd
  · cases hadd
    exact ⟨⟨[], .refl⟩, id, by simp, by simp⟩
  · cases hadd
    exact ⟨⟨[], .refl⟩, id, by simp, by simp⟩
  · simp only [bind_eq_ok, pure_eq_ok] at hadd
    obtain ⟨-, -, policy', hservers, rfl⟩ := hadd
    exact addServers_pass laws hservers

theorem sandboxPolicy_passes (laws : UrlLaws lib)
    {selection : Except String (Option (List McpCredentialBinding))}
    (hpolicy : sandboxPolicy lib conversation selection agentConfig config = .ok (some policy)) :
    Extends lib conversation (config.resources.filterMap gitName)
        (basePolicy agentConfig config) policy ∧
      Complete lib conversation selection agentConfig config policy := by
  simp only [sandboxPolicy, bind_eq_ok] at hpolicy
  obtain ⟨first, hfirst, chosen, hchosen, second, hsecond, hpolicy⟩ := hpolicy
  obtain ⟨hround, hgit⟩ := addGitResourceBindings_round laws hfirst
  have hmodel := addModel_pass laws hround hsecond
  -- What the last pass does; without native servers it does nothing.
  obtain ⟨bindings, hbindings, hservers⟩ : ∃ bindings,
      (isNative agentConfig → selection = .ok bindings) ∧
        ServersPass lib conversation (if isNative agentConfig then bindings.getD [] else [])
          (second.getD (defaultPolicy agentConfig config)) policy := by
    split at hpolicy
    · rename_i hnative
      rw [bind_eq_ok] at hpolicy
      obtain ⟨bindings, hbindings, hnativeMcp⟩ := hpolicy
      refine ⟨bindings, fun _ ↦ hbindings, ?_⟩
      rw [if_pos hnative]
      exact addNativeMcpBindings_pass laws hnativeMcp
    · rename_i hnative
      cases hpolicy
      refine ⟨none, fun hnative' ↦ absurd hnative' hnative, ?_⟩
      rw [if_neg hnative]
      exact ⟨⟨[], .refl⟩, id, by simp, by simp⟩
  obtain ⟨added, hpushes⟩ := hservers.pushes
  refine ⟨hmodel.extends_base.pushes hpushes hservers.clash, ?_, ?_, ?_, ?_⟩
  · intro resource hresource url credential hsource
    obtain ⟨reference, hsecret, endpoint, hparse, hselects⟩ :=
      hgit resource hresource url credential hsource
    have hpass : IsPassVariable resource.gitCredentialVariable :=
      .inr (isGitVariable_gitCredentialVariable resource)
    exact ⟨reference, hsecret, endpoint, hparse,
      hpushes.selects (hmodel.keeps _ _ _ hpass hselects)⟩
  · intro envVariable henvVariable
    cases hchosen.symm.trans henvVariable
    obtain ⟨reference, endpoint, hreference, hendpoint, hselects⟩ := hmodel.model envVariable rfl
    exact ⟨reference, endpoint, hreference, hendpoint, hpushes.selects hselects⟩
  · intro hnative selected hselected
    cases (hbindings hnative).symm.trans hselected
    rw [if_pos hnative] at hservers
    exact hservers.names
  · intro hnative before selected after hselected secret hsecret hfresh
    cases (hbindings hnative).symm.trans hselected
    rw [if_pos hnative] at hservers
    exact hservers.selects before selected after rfl secret hsecret
      fun hmem ↦ hfresh (hmodel.mcp _ ⟨_, rfl⟩ hmem)

/-- The passes grant no more than the stored policies do, and what they were asked for. -/
theorem sandbox_policy_grants (laws : UrlLaws lib)
    {selection : Except String (Option (List McpCredentialBinding))} {agentConfig : AgentConfig}
    {config : ConversationConfig}
    (hpolicy : sandboxPolicy lib conversation selection agentConfig config = .ok (some policy)) :
    policy.networking = (basePolicy agentConfig config).networking ∧
      (∃ kept added, policy.credentials = kept ++ added ∧
        List.Forall₂ (Kept conversation) (basePolicy agentConfig config).credentials kept ∧
        ∀ binding ∈ added, Granted lib conversation policy.networking binding) ∧
      ((variableNames policy).Nodup ↔
        (variableNames (basePolicy agentConfig config) ++
          config.resources.filterMap gitName).Nodup) ∧
      Complete lib conversation selection agentConfig config policy := by
  obtain ⟨⟨hnetworking, hcredentials, hclash⟩, hcomplete⟩ := sandboxPolicy_passes laws hpolicy
  refine ⟨hnetworking, hnetworking ▸ hcredentials, ?_, hcomplete⟩
  simpa using hclash [] (by simp)

/-! ## A run -/

/-- An HTTPS URL on the standard port. -/
def siteUrl (host path : String) : Url where
  scheme := "https"
  host := some (.domain host)
  hostStr := some host
  port := some 443
  path := path
  origin := "https://" ++ host
  text := "https://" ++ host ++ path

def siteTable : List (String × Url) :=
  (["api.github.com", "git.example", "api.openai.com", "mcp.example"].flatMap fun host ↦
    [("https://" ++ host, siteUrl host "/"), ("https://" ++ host ++ "/", siteUrl host "/")]) ++
  [("https://git.example/r", siteUrl "git.example" "/r"),
    ("https://api.openai.com/v1", siteUrl "api.openai.com" "/v1"),
    ("https://mcp.example/a", siteUrl "mcp.example" "/a"),
    ("https://mcp.example/b", siteUrl "mcp.example" "/b"),
    -- The origin of a blob URL is that of the URL inside.
    ("blob:https://git.example/r", {
      scheme := "blob", host := none, hostStr := none, port := none,
      path := "https://git.example/r", origin := "https://git.example",
      text := "blob:https://git.example/r" })]

def siteLibraries : Libraries where
  parseUrl value := siteTable.lookup value
  toStr _ := true
  fromStr _ := true
  headerName _ := none
  encode value := value
  decode value := some value

theorem mem_siteTable {url : Url} (hparse : siteLibraries.parseUrl value = some url) :
    (value, url) ∈ siteTable := by
  obtain ⟨before, after, heq, -⟩ := lookup_eq_some_iff.1 hparse
  rw [heq]
  simp

theorem siteLaws : UrlLaws siteLibraries where
  parse_text hparse := by
    have hall : ∀ pair ∈ siteTable,
        siteLibraries.parseUrl pair.2.text = some pair.2 := by decide +kernel
    exact hall _ (mem_siteTable hparse)
  parse_origin hparse hhttp := by
    have hall : ∀ pair ∈ siteTable, IsHttp pair.2 →
        ((CredentialDestination.parse siteLibraries pair.2.origin).toOption.any
          fun root ↦ root.origin == pair.2.origin) = true := by decide +kernel
    obtain ⟨root, hroot, horigin⟩ :=
      (Option.any_eq_true _ _).1 (hall _ (mem_siteTable hparse) hhttp)
    exact ⟨root, eq_ok_of_toOption hroot, beq_iff_eq.1 horigin⟩
  origin_injective hparse hparse' hhttp hhttp' heq := by
    have hall : ∀ pair ∈ siteTable, ∀ pair' ∈ siteTable, IsHttp pair.2 → IsHttp pair'.2 →
        pair.2.origin = pair'.2.origin →
          pair.2.scheme = pair'.2.scheme ∧ pair.2.hostStr = pair'.2.hostStr := by decide +kernel
    exact hall _ (mem_siteTable hparse) _ (mem_siteTable hparse') hhttp hhttp' heq
  github_host hparse := by
    have hall : ∀ pair ∈ siteTable, pair.1 = githubApi →
        pair.2.hostStr = some "api.github.com" := by decide +kernel
    exact hall _ (mem_siteTable hparse) rfl

def exampleVault : VaultContext where
  listVaults := .ok [⟨10, .ok [
    ⟨some ⟨.limited ["git.example"], true⟩, 0, 1, .key, "git", 0⟩,
    ⟨some (.destinations [.origin "https://api.openai.com"]), 0, 2, .key, "model", 0⟩,
    ⟨some (.destinations [.origin "https://mcp.example"]), 0, 3, .key, "mcp", 0⟩]⟩]

def exampleAgent : AgentConfig :=
  ⟨some "dist/codex-harness.ts", "gpt", none, some "model", true⟩

/-- The environment has the variable of the Git resource already. -/
def exampleConfig : ConversationConfig where
  environment := some ⟨some ⟨.unrestricted, none,
    [⟨"git", "EXO_GIT_72", .limited ["git.example"], true⟩]⟩, none⟩
  egressPolicy := none
  resources := [⟨"r", .gitRepository (some "https://git.example/r") (some "git")⟩]

/-- Two servers that share a secret. -/
def exampleSelection : List McpCredentialBinding :=
  [⟨"a", .url "https://mcp.example/a", some ⟨10, 3⟩⟩,
    ⟨"b", .url "https://mcp.example/b", some ⟨10, 3⟩⟩]

def exampleGitBinding : EgressCredentialBinding :=
  bind (.destinations [.origin "https://git.example"]) (idText 1) "EXO_GIT_72"

def examplePolicy : EgressPolicy where
  networking := .unrestricted
  allowedTcpPorts := none
  credentials :=
    [⟨"git", "EXO_GIT_72", .limited ["git.example"], true⟩,
      exampleGitBinding,
      bind (.destinations [.origin "https://api.openai.com"]) (idText 2) "OPENAI_API_KEY",
      bind (.destinations [.url "https://mcp.example/a"]) (idText 3) (credentialVariable 3)]

theorem sandboxPolicy_example :
    sandboxPolicy siteLibraries exampleVault (.ok (some exampleSelection)) exampleAgent
      exampleConfig = .ok (some examplePolicy) := by
  apply eq_ok_of_toOption
  decide +kernel

theorem sandbox_policy_grants_example :
    examplePolicy.networking = (basePolicy exampleAgent exampleConfig).networking ∧
      (∃ kept added, examplePolicy.credentials = kept ++ added ∧
        List.Forall₂ (Kept exampleVault) (basePolicy exampleAgent exampleConfig).credentials kept ∧
        ∀ binding ∈ added,
          Granted siteLibraries exampleVault examplePolicy.networking binding) ∧
      ((variableNames examplePolicy).Nodup ↔
        (variableNames (basePolicy exampleAgent exampleConfig) ++
          exampleConfig.resources.filterMap gitName).Nodup) ∧
      Complete siteLibraries exampleVault (.ok (some exampleSelection)) exampleAgent exampleConfig
        examplePolicy :=
  sandbox_policy_grants siteLaws sandboxPolicy_example

/-- The variable of the Git resource is taken, the origin of a blob URL passes for the site, and the
second server goes without the secret. -/
theorem shared_secret_is_not_granted :
    sandboxPolicy siteLibraries exampleVault (.ok (some exampleSelection)) exampleAgent
        exampleConfig = .ok (some examplePolicy) ∧
      ¬ (variableNames examplePolicy).Nodup ∧
      (exampleGitBinding ∈ examplePolicy.credentials ∧
        (bindingPolicy exampleGitBinding).permits siteLibraries
          (.url "blob:https://git.example/r") = true ∧
        (⟨.limited ["git.example"], true⟩ : CredentialPolicy).permits siteLibraries
          (.url "blob:https://git.example/r") = false) ∧
      ∀ binding ∈ examplePolicy.credentials,
        binding.environmentVariable = credentialVariable 3 →
          (bindingPolicy binding).permits siteLibraries (.url "https://mcp.example/b") = false :=
  ⟨sandboxPolicy_example, by decide +kernel, by decide +kernel, by decide +kernel⟩

end Exo.Policy
