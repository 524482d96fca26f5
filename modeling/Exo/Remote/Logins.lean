import Exo.Remote.Codes

/-!
# Where the principals of sessions come from

A call carries a request that was accepted and a principal that has logged in from one lock to the
next, and codes and sessions are made from those.
-/

namespace Exo.Remote

open Library Vault List

variable {crypto : Crypto} {server after : AuthServer} {label : AuthLabel}

/-- What a call has is from requests that were accepted and from logins that were made. -/
def History.CallSound (crypto : Crypto) (history : History) : AuthCall → Prop
  | .exchanging request => ∀ query ∈ request, query ∈ history.requests
  | .enrolled request principal =>
    (∀ query ∈ request, query ∈ history.requests) ∧ principal ∈ history.logins
  | .issuing _ principal _ => principal ∈ history.logins
  | .authenticating token id _ => (crypto.digest token, id) ∈ history.tokens
  | .removing _ => True

structure AuthServer.LoginsSound (crypto : Crypto) (server : AuthServer) : Prop where
  pending : ∀ (key : String) (login : Pending), server.pending[key]? = some login →
    ∀ query ∈ login.request, query ∈ server.history.requests
  calls : ∀ call stage, server.calls call = some stage → server.history.CallSound crypto stage
  grants : ∀ grant ∈ server.history.grants,
    grant.request ∈ server.history.requests ∧ grant.principal ∈ server.history.logins
  births : ∀ birth ∈ server.history.births, birth.principal ∈ server.history.logins
  keyed : ∀ (id : String) (principal : Principal),
    server.state.principals[id]? = some principal → principal.id = id

/-- The history has grown in what calls rely on. -/
structure History.Grows (before after : History) : Prop where
  requests : before.requests ⊆ after.requests
  logins : before.logins ⊆ after.logins
  tokens : before.tokens ⊆ after.tokens

theorem History.Grows.of_eq {before after : History} (hrequests : after.requests = before.requests)
    (hlogins : after.logins = before.logins) (htokens : after.tokens = before.tokens) :
    before.Grows after := by
  constructor
  · rw [hrequests]
    exact List.Subset.refl _
  · rw [hlogins]
    exact List.Subset.refl _
  · rw [htokens]
    exact List.Subset.refl _

theorem History.Grows.of_cons {before after : History} {first second : String × String}
    (hrequests : after.requests = before.requests) (hlogins : after.logins = before.logins)
    (htokens : after.tokens = first :: second :: before.tokens) : before.Grows after := by
  constructor
  · rw [hrequests]
    exact List.Subset.refl _
  · rw [hlogins]
    exact List.Subset.refl _
  · rw [htokens]
    exact fun token htoken ↦ mem_cons_of_mem _ (mem_cons_of_mem _ htoken)

theorem History.CallSound.mono {before after : History} {stage : AuthCall}
    (hstage : before.CallSound crypto stage) (hgrows : before.Grows after) :
    after.CallSound crypto stage := by
  cases stage with
  | exchanging request => exact fun query hquery ↦ hgrows.requests (hstage query hquery)
  | enrolled request principal =>
    exact ⟨fun query hquery ↦ hgrows.requests (hstage.1 query hquery), hgrows.logins hstage.2⟩
  | issuing code principal client => exact hgrows.logins hstage
  | authenticating token id logout => exact hgrows.tokens hstage
  | removing cookie => trivial

/-- A step that adds neither grants nor births. -/
theorem AuthServer.LoginsSound.mono (hsound : server.LoginsSound crypto)
    (hgrows : server.history.Grows after.history)
    (hpending : EntriesFrom (fun _ login ↦ ∀ query ∈ login.request, query ∈ after.history.requests)
      server.pending after.pending)
    (hgrants : after.history.grants = server.history.grants)
    (hbirths : after.history.births = server.history.births)
    (hprincipals : ∀ (id : String) (principal : Principal),
      after.state.principals[id]? = some principal →
        principal.id = id ∨ server.state.principals[id]? = some principal)
    (hcalls : ∀ call stage, after.calls call = some stage →
      after.history.CallSound crypto stage ∨ server.calls call = some stage) :
    after.LoginsSound crypto where
  pending := by
    intro key login hlogin query hquery
    rcases hpending key login hlogin with hnew | hold
    · exact hnew query hquery
    · exact hgrows.requests (hsound.pending key login hold query hquery)
  calls := by
    intro call stage hstage
    rcases hcalls call stage hstage with hnew | hold
    · exact hnew
    · exact (hsound.calls call stage hold).mono hgrows
  grants := by
    rw [hgrants]
    exact fun grant hgrant ↦
      ⟨hgrows.requests (hsound.grants grant hgrant).1, hgrows.logins (hsound.grants grant hgrant).2⟩
  births := by
    rw [hbirths]
    exact fun birth hbirth ↦ hgrows.logins (hsound.births birth hbirth)
  keyed := by
    intro id principal hprincipal
    exact (hprincipals id principal hprincipal).elim (fun heq ↦ heq) (hsound.keyed id principal)

/-- A call that comes to a stage, and all others as they were. -/
theorem AuthServer.calls_setCall_sound {history : History} {call : ℕ} {stage : Option AuthCall}
    (hstage : ∀ stage' ∈ stage, history.CallSound crypto stage') :
    ∀ other stage', (server.setCall call stage).calls other = some stage' →
      history.CallSound crypto stage' ∨ server.calls other = some stage' := by
  intro other stage' hother
  rcases calls_setCall hother with hnew | hold
  · exact .inl (hstage stage' hnew.2)
  · exact .inr hold.2

theorem EntriesFrom.weaken {α : Type} {new : String → α → Prop}
    {before after : Std.TreeMap String α} (hentries : EntriesFrom (fun _ _ ↦ False) before after) :
    EntriesFrom new before after :=
  fun key value hentry ↦ .inr ((hentries key value hentry).resolve_left id)

theorem AuthServer.LoginsSound.steps (hsound : server.LoginsSound crypto)
    (hsessions : SessionsSound crypto server.state.sessions server.history)
    (hcodes : server.CodesSound crypto) (hstep : server.Steps crypto label after) :
    after.LoginsSound crypto := by
  have hkeep : ∀ (id : String) (principal : Principal),
      server.state.principals[id]? = some principal →
        principal.id = id ∨ server.state.principals[id]? = some principal := fun _ _ hp ↦ .inr hp
  have hcalls : ∀ (history : History) (call : ℕ) (stage : AuthCall),
      server.calls call = some stage →
        history.CallSound crypto stage ∨ server.calls call = some stage :=
    fun _ _ _ hstage ↦ .inr hstage
  have hleave : ∀ (history : History) (call other : ℕ) (stage : AuthCall),
      (server.setCall call none).calls other = some stage →
        history.CallSound crypto stage ∨ server.calls other = some stage :=
    fun _ _ ↦ calls_setCall_sound (by simp)
  cases hstep with
  | refuse => exact hsound
  | tick => exact ⟨hsound.pending, hsound.calls, hsound.grants, hsound.births, hsound.keyed⟩
  | @registers _ _ state saves _ hregister =>
    refine hsound.mono (.of_eq rfl rfl rfl) (EntriesFrom.refl _).weaken rfl rfl ?_ (hcalls _)
    cases saves with
    | true =>
      intro id principal hprincipal
      have hprincipal : state.principals[id]? = some principal := hprincipal
      exact .inr ((register_ok hregister).2 ▸ hprincipal)
    | false => exact hkeep
  | @starts _ state browser request =>
    have hentries := startLogin_entries crypto server.clock state browser request server.pending
    refine hsound.mono ⟨?_, List.Subset.refl _, List.Subset.refl _⟩ ?_ rfl rfl hkeep (hcalls _)
    · exact subset_append_right _ _
    · intro key login hlogin
      rcases hentries key login hlogin with hnew | hold
      · subst hnew
        exact .inl fun query hquery ↦ mem_append_left _ (Option.mem_toList.2 hquery)
      · exact .inr hold
  | rejects hpending =>
    exact hsound.mono (.of_eq rfl rfl rfl) hpending.weaken rfl rfl hkeep (hcalls _)
  | exchanges _ hlogin hpending =>
    obtain ⟨key, hlogin⟩ := hlogin
    refine hsound.mono (.of_eq rfl rfl rfl) hpending.weaken rfl rfl hkeep (calls_setCall_sound ?_)
    rintro _ ⟨⟩
    exact hsound.pending key _ hlogin
  | @enrolls _ _ _ _ _ request _ principal hcall henroll =>
    refine hsound.mono ⟨List.Subset.refl _, subset_cons_self _ _, List.Subset.refl _⟩
      (EntriesFrom.refl _).weaken rfl rfl (enrollIn_ok henroll).2 (calls_setCall_sound ?_)
    rintro _ ⟨⟩
    exact ⟨hsound.calls _ _ hcall, mem_cons_self⟩
  | @stops _ call | @overflows call | @issueFails call | @removes call =>
    exact hsound.mono (.of_eq rfl rfl rfl) (EntriesFrom.refl _).weaken rfl rfl hkeep (hleave _ call)
  | browses hcall =>
    refine hsound.mono (.of_eq rfl rfl rfl) (EntriesFrom.refl _).weaken rfl rfl hkeep
      (calls_setCall_sound ?_)
    rintro _ ⟨⟩
    exact (hsound.calls _ _ hcall).2
  | @grants call _ _ _ _ hcall =>
    obtain ⟨hrequest, hlogin⟩ := hsound.calls _ _ hcall
    refine ⟨hsound.pending, ?_, ?_, hsound.births, hsound.keyed⟩
    · intro other stage hstage
      exact (hleave server.history call other stage hstage).elim id (hsound.calls other stage)
    · intro grant hgrant
      rcases mem_cons.1 hgrant with heq | hgrant
      · subst heq
        exact ⟨hrequest _ rfl, hlogin⟩
      · exact hsound.grants grant hgrant
  | misfits | refreshFails | revokes =>
    exact hsound.mono (.of_eq rfl rfl rfl) (EntriesFrom.refl _).weaken rfl rfl hkeep (hcalls _)
  | redeems _ hcode =>
    refine hsound.mono (.of_eq rfl rfl rfl) (EntriesFrom.refl _).weaken rfl rfl hkeep
      (calls_setCall_sound ?_)
    rintro _ ⟨⟩
    obtain ⟨⟨grant, hgrant, -, -, hprincipal, -⟩, -⟩ := hcodes.codes _ _ hcode
    exact hprincipal ▸ (hsound.grants grant hgrant).2
  | @issues call _ _ _ _ _ _ hcall _ hissue =>
    refine ⟨hsound.pending, ?_, hsound.grants, ?_, ?_⟩
    · intro other stage hstage
      have hstage :=
        (hleave server.history call other stage hstage).elim id (hsound.calls other stage)
      exact hstage.mono (.of_cons rfl rfl rfl)
    · intro birth hbirth
      rcases mem_cons.1 hbirth with heq | hbirth
      · subst heq
        exact hsound.calls _ _ hcall
      · exact hsound.births birth hbirth
    · intro id principal hprincipal
      rw [(issue_ok hissue).1] at hprincipal
      exact hsound.keyed id principal hprincipal
  | refreshes =>
    exact hsound.mono (.of_cons rfl rfl rfl) (EntriesFrom.refl _).weaken rfl rfl hkeep (hcalls _)
  | finds _ _ _ _ hfind =>
    refine hsound.mono (.of_eq rfl rfl rfl) (EntriesFrom.refl _).weaken rfl rfl hkeep
      (calls_setCall_sound ?_)
    rintro _ ⟨⟩
    obtain ⟨session, hsession, haccess, -⟩ := findSession_ok hfind
    have haccess' := (hsessions.live _ session hsession).access.1
    rwa [haccess] at haccess'
  | confirms =>
    refine hsound.mono (.of_eq rfl rfl rfl) (EntriesFrom.refl _).weaken rfl rfl hkeep
      (calls_setCall_sound ?_)
    rintro _ ⟨⟩
    trivial
  | restart =>
    refine hsound.mono (.of_eq rfl rfl rfl) ?_ rfl rfl hkeep ?_
    · intro key login hlogin
      simp at hlogin
    · intro call stage hstage
      cases hstage

end Exo.Remote
