import Exo.Remote.Sessions

/-!
# Codes

A code is taken out of its map before it is looked at, so it is accepted at most once; the call that
has taken it issues at most once.
-/

namespace Exo.Remote

open Library Vault List

variable {crypto : Crypto} {server after : AuthServer} {label : AuthLabel}

/-- The request repeats what the code was granted for, in time. -/
structure Redemption.Fits (crypto : Crypto) (redemption : Redemption) (grant : Grant) : Prop where
  key : redemption.key = grant.key
  code : grant.key = crypto.digest redemption.request.code
  time : redemption.time < grant.created + 60
  clientId : redemption.request.clientId = grant.request.clientId
  redirectUri : redemption.request.redirectUri = grant.request.redirectUri
  resource : redemption.request.resource = grant.request.resource
  verifier : crypto.digest redemption.request.codeVerifier = grant.request.codeChallenge

/-- A code that is kept was granted, and not redeemed yet; what was redeemed is issued once. -/
structure AuthServer.CodesSound (crypto : Crypto) (server : AuthServer) : Prop where
  codes : ∀ (key : String) (code : Code), server.codes[key]? = some code →
    (∃ grant ∈ server.history.grants, grant.key = key ∧ grant.request = code.request ∧
      grant.principal = code.principal ∧ code.expires = grant.created + 60) ∧
    ∀ redemption ∈ server.history.redemptions, redemption.key ≠ key
  grants : ∀ grant ∈ server.history.grants, server.history.Drawn crypto grant.key
  unique : ∀ grant ∈ server.history.grants, ∀ other ∈ server.history.grants,
    grant.key = other.key → grant = other
  redemptions : ∀ redemption ∈ server.history.redemptions, ∃ grant ∈ server.history.grants,
    redemption.Fits crypto grant
  once : (server.history.redemptions.map Redemption.key).Nodup
  calls : ∀ call key principal client,
    server.calls call = some (.issuing (some key) principal client) →
      (∃ redemption ∈ server.history.redemptions, redemption.key = key) ∧
      (∃ grant ∈ server.history.grants, grant.key = key ∧ grant.principal = principal) ∧
      (∀ birth ∈ server.history.births, birth.code ≠ some key) ∧
      ∀ other principal' client',
        server.calls other = some (.issuing (some key) principal' client') → other = call
  births : ∀ birth ∈ server.history.births, ∀ key ∈ birth.code,
    (∃ redemption ∈ server.history.redemptions, redemption.key = key) ∧
      ∃ grant ∈ server.history.grants, grant.key = key ∧ grant.principal = birth.principal
  nodup : (server.history.births.filterMap Birth.code).Nodup

/-- Other steps draw values, drop codes, and change calls that do not issue for a code. -/
theorem AuthServer.CodesSound.mono (hsound : server.CodesSound crypto)
    (hcodes : EntriesFrom (fun _ _ ↦ False) server.codes after.codes)
    (hdrawn : server.history.drawn ⊆ after.history.drawn)
    (hgrants : after.history.grants = server.history.grants)
    (hredemptions : after.history.redemptions = server.history.redemptions)
    (hbirths : after.history.births = server.history.births)
    (hcalls : ∀ call key principal client,
      after.calls call = some (.issuing (some key) principal client) →
        server.calls call = some (.issuing (some key) principal client)) :
    after.CodesSound crypto where
  codes := by
    rw [hgrants, hredemptions]
    exact fun key code hcode ↦ hsound.codes key code ((hcodes key code hcode).resolve_left id)
  grants := by
    rw [hgrants]
    exact fun grant hgrant ↦ (hsound.grants grant hgrant).mono hdrawn
  unique := by
    rw [hgrants]
    exact hsound.unique
  redemptions := by
    rw [hgrants, hredemptions]
    exact hsound.redemptions
  once := by
    rw [hredemptions]
    exact hsound.once
  calls := by
    rw [hgrants, hredemptions, hbirths]
    intro call key principal client hcall
    obtain ⟨hredeemed, hgranted, hunborn, hone⟩ :=
      hsound.calls call key principal client (hcalls _ _ _ _ hcall)
    exact ⟨hredeemed, hgranted, hunborn,
      fun other principal' client' hother ↦ hone other _ _ (hcalls _ _ _ _ hother)⟩
  births := by
    rw [hbirths, hgrants, hredemptions]
    exact hsound.births
  nodup := by
    rw [hbirths]
    exact hsound.nodup

variable {call : ℕ} {stage : Option AuthCall} {code : Code} {principal : String}
  {request : CodeRequest}

theorem AuthServer.calls_setCall {other : ℕ} {stage' : AuthCall}
    (hother : (server.setCall call stage).calls other = some stage') :
    other = call ∧ stage = some stage' ∨ other ≠ call ∧ server.calls other = some stage' := by
  by_cases heq : other = call
  · subst heq
    exact .inl ⟨rfl, by simpa [setCall] using hother⟩
  · exact .inr ⟨heq, by simpa [setCall, heq] using hother⟩

/-- A call that comes to a stage other than issuing for a code. -/
theorem AuthServer.issuing_of_setCall
    (hstage : ∀ key principal client, stage ≠ some (.issuing (some key) principal client)) :
    ∀ other key principal client,
      (server.setCall call stage).calls other = some (.issuing (some key) principal client) →
        server.calls other = some (.issuing (some key) principal client) := by
  intro other key principal client hother
  rcases calls_setCall hother with hnew | hold
  · exact absurd hnew.2 (hstage key principal client)
  · exact hold.2

theorem EntriesFrom.refl {α : Type} (table : Std.TreeMap String α) :
    EntriesFrom (fun _ _ ↦ False) table table := fun _ _ hentry ↦ .inr hentry

theorem AuthServer.CodesSound.grant (hsound : server.CodesSound crypto) {code : String}
    {request : Authorization} {codes : Std.TreeMap String Code} (hfresh : server.Fresh [code])
    (hcodes : EntriesFrom (fun key grant ↦ key = crypto.digest code ∧
      grant = ⟨request, principal, server.clock + 60⟩) server.codes codes) :
    { (server.setCall call none).draw [code] with
      codes
      history := { ((server.setCall call none).draw [code]).history with
        grants := ⟨crypto.digest code, request, principal, server.clock⟩ ::
          server.history.grants } }.CodesSound crypto := by
  have hnew : ∀ grant ∈ server.history.grants, grant.key ≠ crypto.digest code := by
    intro grant hgrant heq
    exact hfresh.not_drawn (by simp) (heq ▸ hsound.grants grant hgrant)
  have hcalls : ∀ other key principal client,
      (server.setCall call none).calls other = some (.issuing (some key) principal client) →
        server.calls other = some (.issuing (some key) principal client) :=
    issuing_of_setCall (by simp)
  refine ⟨?_, ?_, ?_, ?_, hsound.once, ?_, ?_, hsound.nodup⟩
  · intro key grant hgrant
    rcases hcodes key grant hgrant with hentry | hentry
    · obtain ⟨rfl, rfl⟩ := hentry
      refine ⟨⟨_, mem_cons_self, rfl, rfl, rfl, rfl⟩, fun redemption hredemption heq ↦ ?_⟩
      obtain ⟨other, hother, hfits⟩ := hsound.redemptions redemption hredemption
      exact hnew other hother (hfits.key.symm.trans heq)
    · obtain ⟨⟨other, hother, hrest⟩, hunredeemed⟩ := hsound.codes key grant hentry
      exact ⟨⟨other, mem_cons_of_mem _ hother, hrest⟩, hunredeemed⟩
  · intro grant hgrant
    rcases mem_cons.1 hgrant with heq | hgrant
    · subst heq
      exact ⟨code, mem_cons_self, rfl⟩
    · exact (hsound.grants grant hgrant).mono (subset_cons_self _ _)
  · intro grant hgrant other hother heq
    rcases mem_cons.1 hgrant with hgrant | hgrant
    · rcases mem_cons.1 hother with hother | hother
      · rw [hgrant, hother]
      · subst hgrant
        exact absurd heq.symm (hnew other hother)
    · rcases mem_cons.1 hother with hother | hother
      · subst hother
        exact absurd heq (hnew grant hgrant)
      · exact hsound.unique grant hgrant other hother heq
  · intro redemption hredemption
    obtain ⟨grant, hgrant, hfits⟩ := hsound.redemptions redemption hredemption
    exact ⟨grant, mem_cons_of_mem _ hgrant, hfits⟩
  · intro other key principal' client hother
    obtain ⟨hredeemed, ⟨grant, hgrant, hrest⟩, hunborn, hone⟩ :=
      hsound.calls other key principal' client (hcalls _ _ _ _ hother)
    exact ⟨hredeemed, ⟨grant, mem_cons_of_mem _ hgrant, hrest⟩, hunborn,
      fun another _ _ hanother ↦ hone another _ _ (hcalls _ _ _ _ hanother)⟩
  · intro birth hbirth key hkey
    obtain ⟨hredeemed, grant, hgrant, hrest⟩ := hsound.births birth hbirth key hkey
    exact ⟨hredeemed, grant, mem_cons_of_mem _ hgrant, hrest⟩

theorem CodeRequest.fits_iff {now : ℤ} : request.fits crypto now code = true ↔ now < code.expires ∧
      code.request.clientId = request.clientId ∧
      code.request.redirectUri = request.redirectUri ∧
      code.request.resource = request.resource ∧ validVerifier request.codeVerifier = true ∧
      crypto.digest request.codeVerifier = code.request.codeChallenge := by
  simp [fits, and_assoc]

section
variable (hsound : server.CodesSound crypto)
include hsound

theorem AuthServer.CodesSound.redeem (hcode : server.codes[crypto.digest request.code]? = some code)
    (hfits : request.fits crypto server.clock code = true) :
    { server.setCall call (some (.issuing (some (crypto.digest request.code)) code.principal
        (some request.clientId))) with
      codes := server.codes.erase (crypto.digest request.code)
      history := { server.history with
        redemptions := ⟨crypto.digest request.code, request, server.clock⟩ ::
          server.history.redemptions } }.CodesSound crypto := by
  obtain ⟨⟨grant, hgrant, hkey, hrequest, hprincipal, hexpires⟩, hunredeemed⟩ :=
    hsound.codes _ code hcode
  rw [CodeRequest.fits_iff] at hfits
  obtain ⟨htime, hclient, hredirect, hresource, -, hverifier⟩ := hfits
  -- nothing was issued for the code, and no call is about to
  have hunborn : ∀ birth ∈ server.history.births,
      birth.code ≠ some (crypto.digest request.code) := by
    intro birth hbirth heq
    obtain ⟨⟨redemption, hredemption, hsame⟩, -⟩ := hsound.births birth hbirth _ heq
    exact hunredeemed redemption hredemption hsame
  have hnone : ∀ other principal client, server.calls other ≠
      some (.issuing (some (crypto.digest request.code)) principal client) := by
    intro other principal client hother
    obtain ⟨⟨redemption, hredemption, hsame⟩, -⟩ := hsound.calls other _ _ _ hother
    exact hunredeemed redemption hredemption hsame
  refine ⟨?_, hsound.grants, hsound.unique, ?_, ?_, ?_, ?_, hsound.nodup⟩
  · intro key other hother
    obtain ⟨hne, hother⟩ := getElem?_erase_eq_some hother
    obtain ⟨hgranted, hrest⟩ := hsound.codes key other hother
    refine ⟨hgranted, fun redemption hredemption ↦ ?_⟩
    rcases mem_cons.1 hredemption with heq | hredemption
    · subst heq
      exact hne.symm
    · exact hrest redemption hredemption
  · intro redemption hredemption
    rcases mem_cons.1 hredemption with heq | hredemption
    · subst heq
      refine ⟨grant, hgrant, hkey.symm, hkey, ?_, ?_, ?_, ?_, ?_⟩
      · show server.clock < grant.created + 60
        rwa [← hexpires]
      · rw [hrequest, hclient]
      · rw [hrequest, hredirect]
      · rw [hrequest, hresource]
      · rw [hrequest, hverifier]
    · exact hsound.redemptions redemption hredemption
  · refine nodup_cons.2 ⟨fun hmem ↦ ?_, hsound.once⟩
    obtain ⟨redemption, hredemption, hsame⟩ := mem_map.1 hmem
    exact hunredeemed redemption hredemption hsame
  · intro other key principal client hother
    rcases calls_setCall hother with hnew | hold
    · obtain ⟨rfl, hstage⟩ := hnew
      cases hstage
      refine ⟨⟨_, mem_cons_self, rfl⟩, ⟨grant, hgrant, hkey, hprincipal⟩, hunborn, ?_⟩
      intro another principal' client' hanother
      rcases calls_setCall hanother with hnew | hold
      · exact hnew.1
      · exact absurd hold.2 (hnone _ _ _)
    · obtain ⟨⟨redemption, hredemption, hsame⟩, hgranted, hborn, hone⟩ :=
        hsound.calls other key principal client hold.2
      refine ⟨⟨redemption, mem_cons_of_mem _ hredemption, hsame⟩, hgranted, hborn, ?_⟩
      intro another principal' client' hanother
      rcases calls_setCall hanother with hnew | hold'
      · cases hnew.2
        exact absurd hold.2 (hnone _ _ _)
      · exact hone another _ _ hold'.2
  · intro birth hbirth key hmem
    obtain ⟨⟨redemption, hredemption, hsame⟩, hgranted⟩ := hsound.births birth hbirth key hmem
    exact ⟨⟨redemption, mem_cons_of_mem _ hredemption, hsame⟩, hgranted⟩

theorem AuthServer.CodesSound.issue {id : String}
    {code client : Option String} {state : State} {values : List String}
    {tokens : List (String × String)}
    (hcall : server.calls call = some (.issuing code principal client)) :
    { (server.setCall call none).draw values with
      state
      history := { ((server.setCall call none).draw values).history with
        births := ⟨id, principal, code, server.clock⟩ :: server.history.births
        tokens } }.CodesSound crypto := by
  have hcalls : ∀ other key principal client,
      (server.setCall call none).calls other = some (.issuing (some key) principal client) →
        other ≠ call ∧ server.calls other = some (.issuing (some key) principal client) := by
    intro other key principal client hother
    rcases calls_setCall hother with hnew | hold
    · cases hnew.2
    · exact hold
  refine ⟨hsound.codes, ?_, hsound.unique, hsound.redemptions, hsound.once, ?_, ?_, ?_⟩
  · exact fun grant hgrant ↦ (hsound.grants grant hgrant).mono (subset_append_right _ _)
  · intro other key principal' client' hother
    obtain ⟨hne, hother⟩ := hcalls _ _ _ _ hother
    obtain ⟨hredeemed, hgranted, hunborn, hone⟩ := hsound.calls other key _ _ hother
    refine ⟨hredeemed, hgranted, fun birth hbirth heq ↦ ?_, ?_⟩
    · rcases mem_cons.1 hbirth with hnew | hbirth
      · subst hnew
        cases heq
        exact hne (hone call _ _ hcall).symm
      · exact hunborn birth hbirth heq
    · exact fun another _ _ hanother ↦ hone another _ _ (hcalls _ _ _ _ hanother).2
  · intro birth hbirth key hkey
    rcases mem_cons.1 hbirth with hnew | hbirth
    · subst hnew
      obtain rfl : code = some key := hkey
      obtain ⟨hredeemed, hgranted, -⟩ := hsound.calls call key _ _ hcall
      exact ⟨hredeemed, hgranted⟩
    · exact hsound.births birth hbirth key hkey
  · cases code with
    | none => exact hsound.nodup
    | some key =>
      obtain ⟨-, -, hunborn, -⟩ := hsound.calls call key _ _ hcall
      refine nodup_cons.2 ⟨fun hmem ↦ ?_, hsound.nodup⟩
      obtain ⟨birth, hbirth, heq⟩ := mem_filterMap.1 hmem
      exact hunborn birth hbirth heq

theorem AuthServer.CodesSound.steps
    (hstep : server.Steps crypto label after) : after.CodesSound crypto := by
  cases hstep with
  | grants _ hfresh hcodes => exact hsound.grant hfresh hcodes
  | redeems _ hcode hfits => exact hsound.redeem hcode hfits
  | issues hcall => exact hsound.issue hcall
  | misfits hcodes =>
    exact hsound.mono hcodes (List.Subset.refl _) rfl rfl rfl (fun _ _ _ _ ↦ id)
  | overflows _ hcodes =>
    exact hsound.mono hcodes (List.Subset.refl _) rfl rfl rfl (issuing_of_setCall (by simp))
  | restart =>
    refine hsound.mono ?_ (List.Subset.refl _) rfl rfl rfl ?_
    · intro key code hcode
      simp at hcode
    · intro call key principal client hcall
      cases hcall
  | exchanges | enrolls | stops | browses | finds | confirms | removes =>
    exact hsound.mono (.refl _) (List.Subset.refl _) rfl rfl rfl (issuing_of_setCall (by simp))
  | issueFails =>
    exact hsound.mono (.refl _) (subset_append_right _ _) rfl rfl rfl (issuing_of_setCall (by simp))
  | registers | starts | refreshes | refreshFails =>
    exact hsound.mono (.refl _) (subset_append_right _ _) rfl rfl rfl (fun _ _ _ _ ↦ id)
  | _ =>
    exact hsound.mono (.refl _) (List.Subset.refl _) rfl rfl rfl (fun _ _ _ _ ↦ id)

end

end Exo.Remote
