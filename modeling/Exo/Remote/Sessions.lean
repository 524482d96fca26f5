import Exo.Remote.TokenSteps

/-!
# Sessions and their tokens

A session has exactly one access token at a time, and the values of `random` tell all tokens apart.
So a token that was replaced belongs to no session, and a session that was removed does not come
back.
-/

namespace Exo.Remote

open Library Vault List

variable {crypto : Crypto} {server after : AuthServer} {label : AuthLabel}

variable {now : ℤ} {id : String} {state : State} {draw : TokenDraw} {history : History}
  {sessions : Std.TreeMap String Session}

theorem register_ok {registration : Registration} {after : State}
    (hregister : register crypto now id registration state = Except.ok after) :
    after.sessions = state.sessions ∧ after.principals = state.principals := by
  simp only [register, bind_eq_ok, pure_eq_ok] at hregister
  obtain ⟨_, -, _, -, rfl⟩ := hregister
  exact ⟨rfl, rfl⟩

theorem AuthServer.enrollIn_ok {identity : Identity} {vault : VaultId} {saves : Bool}
    {principal : Principal}
    (henroll : server.enrollIn identity id vault saves = Except.ok (state, principal)) :
    state.sessions = server.state.sessions ∧
      ∀ (key : String) (p : Principal), state.principals[key]? = some p →
        p.id = key ∨ server.state.principals[key]? = some p := by
  simp only [enrollIn, bind_eq_ok] at henroll
  obtain ⟨known, -, hknown⟩ := henroll
  cases known with
  | some p =>
    simp only [pure_eq_ok, Prod.mk.injEq] at hknown
    obtain ⟨rfl, -⟩ := hknown
    exact ⟨rfl, fun _ _ hp ↦ .inr hp⟩
  | none =>
    simp only [bind_eq_ok, pure_eq_ok, Prod.mk.injEq] at hknown
    obtain ⟨_, -, rfl, -⟩ := hknown
    refine ⟨rfl, fun key p hp ↦ ?_⟩
    rcases getElem?_insert_eq_some hp with hnew | hold
    · exact .inl (hnew.2 ▸ hnew.1.symm)
    · exact .inr hold.2

variable {principal : String} {config : AuthConfig} {session : Session} {history' : History}

/-- The new session, and the sessions that were kept. -/
theorem issue_ok {client : Option String} {after : State}
    (hissue : issue crypto now draw id principal client state = Except.ok after) :
    after.principals = state.principals ∧
      ∀ (key : String) (session : Session), after.sessions[key]? = some session →
        (key = id ∧ session.principal = principal ∧ session.expires = now + sessionSeconds ∧
          session.access = crypto.digest draw.access ∧
          ∀ refresh ∈ session.refresh, refresh = crypto.digest draw.refresh) ∨
        key ≠ id ∧ state.sessions[key]? = some session := by
  simp only [issue, bind_eq_ok, pure_eq_ok] at hissue
  obtain ⟨_, -, rfl⟩ := hissue
  refine ⟨rfl, fun key session hsession ↦ ?_⟩
  rcases getElem?_insert_eq_some hsession with hnew | hold
  · obtain ⟨rfl, rfl⟩ := hnew
    refine .inl ⟨rfl, rfl, rfl, rfl, fun refresh hrefresh ↦ ?_⟩
    obtain ⟨_, -, rfl⟩ := Option.map_eq_some_iff.1 hrefresh
    rfl
  · exact .inr ⟨hold.1, (getElem?_filter_eq_some.1 hold.2).1⟩

theorem refreshable_ok {resource : String} {request : RefreshRequest}
    (hfind : refreshable crypto resource config now request state = Except.ok (id, session)) :
    state.sessions[id]? = some session ∧
      session.refresh = some (crypto.digest request.refreshToken) ∧
      session.client = some request.clientId ∧ now < session.expires ∧
      ∃ p, state.principals[session.principal]? = some p ∧ config.admitted p.email = true := by
  simp only [refreshable, bind_eq_ok, context_eq_ok, ensure_eq_ok, pure_eq_ok] at hfind
  obtain ⟨_, -, ⟨id', session'⟩, hentry, p, hp, _, hadmitted, heq⟩ := hfind
  obtain ⟨rfl, rfl⟩ := Prod.mk.inj heq
  have hsession := Std.TreeMap.mem_toList_iff_getElem?_eq_some.1 (mem_of_find?_eq_some hentry)
  have hmatches := find?_some hentry
  simp only [Bool.and_eq_true, beq_iff_eq, decide_eq_true_eq] at hmatches
  exact ⟨hsession, hmatches.1.1, hmatches.1.2, hmatches.2, p, hp, hadmitted⟩

theorem findSession_ok {token : String}
    (hfind : findSession crypto now token state = Except.ok id) :
    ∃ session : Session, state.sessions[id]? = some session ∧
      session.access = crypto.digest token ∧ now < session.accessExpires := by
  rw [findSession, context_eq_ok, Option.map_eq_some_iff] at hfind
  obtain ⟨⟨id', session⟩, hentry, rfl⟩ := hfind
  have hsession := Std.TreeMap.mem_toList_iff_getElem?_eq_some.1 (mem_of_find?_eq_some hentry)
  have hmatches := find?_some hentry
  simp only [Bool.and_eq_true, beq_iff_eq, decide_eq_true_eq] at hmatches
  exact ⟨session, hsession, hmatches.1, hmatches.2⟩

theorem sessionPrincipal_ok (hfind : sessionPrincipal config now id state = Except.ok principal) :
    ∃ session : Session, state.sessions[id]? = some session ∧ now < session.expires ∧
      ∃ p : Principal, state.principals[session.principal]? = some p ∧
        config.admitted p.email = true ∧ p.id = principal := by
  simp only [sessionPrincipal, bind_eq_ok, context_eq_ok, ensure_eq_ok, pure_eq_ok,
    Option.filter_eq_some_iff, decide_eq_true_eq] at hfind
  obtain ⟨session, ⟨hsession, hexpires⟩, p, hp, _, hadmitted, hid⟩ := hfind
  exact ⟨session, hsession, hexpires, p, hp, hadmitted, hid⟩

/-- The digest is that of a value of `random`. -/
def History.Drawn (crypto : Crypto) (history : History) (digest : String) : Prop :=
  ∃ value ∈ history.drawn, digest = crypto.digest value

theorem AuthServer.Fresh.not_drawn {values : List String} (hfresh : server.Fresh values)
    {value : String} (hvalue : value ∈ values) :
    ¬ server.history.Drawn crypto (crypto.digest value) := by
  intro hdrawn
  obtain ⟨other, hother, heq⟩ := hdrawn
  exact hfresh.2 value hvalue (crypto.digest_injective heq ▸ hother)

theorem History.Drawn.mono {digest : String} (hdrawn : history.Drawn crypto digest)
    (hsubset : history.drawn ⊆ history'.drawn) : history'.Drawn crypto digest := by
  obtain ⟨value, hvalue, heq⟩ := hdrawn
  exact ⟨value, hsubset hvalue, heq⟩

/-- The session was born with its principal and not ended, and its tokens are its own. -/
structure History.Live (history : History) (id : String) (session : Session) : Prop where
  ended : id ∉ history.ended
  birth : ∃ birth ∈ history.births, birth.session = id ∧ birth.principal = session.principal ∧
    session.expires = birth.created + sessionSeconds
  access : (session.access, id) ∈ history.tokens ∧ session.access ∉ history.rotated
  refresh : ∀ refresh ∈ session.refresh, (refresh, id) ∈ history.tokens ∧ refresh ∉ history.rotated

/-- The sessions are live, and a token is that of one session. -/
structure SessionsSound (crypto : Crypto) (sessions : Std.TreeMap String Session)
    (history : History) : Prop where
  live : ∀ (id : String) (session : Session), sessions[id]? = some session → history.Live id session
  owner : ∀ token id id', (token, id) ∈ history.tokens → (token, id') ∈ history.tokens → id = id'
  tokens : ∀ token id, (token, id) ∈ history.tokens → history.Drawn crypto token
  rotated : ∀ token ∈ history.rotated, history.Drawn crypto token
  births : ∀ birth ∈ history.births, birth.session ∈ history.drawn
  once : (history.births.map Birth.session).Nodup
  ended : ∀ id ∈ history.ended, id ∈ history.drawn

theorem SessionsSound.mono (hsound : SessionsSound crypto sessions history)
    (hdrawn : history.drawn ⊆ history'.drawn) (htokens : history'.tokens = history.tokens)
    (hrotated : history'.rotated = history.rotated) (hbirths : history'.births = history.births)
    (hended : history'.ended = history.ended) : SessionsSound crypto sessions history' where
  live := by
    intro id session hsession
    obtain ⟨h₁, h₂, h₃, h₄⟩ := hsound.live id session hsession
    constructor
    · rwa [hended]
    · rwa [hbirths]
    · rwa [htokens, hrotated]
    · rwa [htokens, hrotated]
  owner := by
    rw [htokens]
    exact hsound.owner
  tokens := by
    rw [htokens]
    exact fun token id hmem ↦ (hsound.tokens token id hmem).mono hdrawn
  rotated := by
    rw [hrotated]
    exact fun token hmem ↦ (hsound.rotated token hmem).mono hdrawn
  births := by
    rw [hbirths]
    exact fun birth hmem ↦ hdrawn (hsound.births birth hmem)
  once := by
    rw [hbirths]
    exact hsound.once
  ended := by
    rw [hended]
    exact fun id hmem ↦ hdrawn (hsound.ended id hmem)

/-- New tokens of one session are told apart from all others. -/
theorem SessionsSound.owner_cons (hsound : SessionsSound crypto sessions history)
    {access refresh : String} (haccess : ¬ history.Drawn crypto access)
    (hrefresh : ¬ history.Drawn crypto refresh) :
    ∀ token first second, (token, first) ∈ (access, id) :: (refresh, id) :: history.tokens →
      (token, second) ∈ (access, id) :: (refresh, id) :: history.tokens → first = second := by
  have hnew : ∀ token other, (token, other) ∈ (access, id) :: (refresh, id) :: history.tokens →
      (token = access ∨ token = refresh) ∧ other = id ∨ (token, other) ∈ history.tokens := by
    intro token other hmem
    simp only [mem_cons, Prod.mk.injEq] at hmem
    tauto
  have hold : ∀ token other, (token, other) ∈ history.tokens →
      ¬ (token = access ∨ token = refresh) := by
    intro token other hmem heq
    have hdrawn := hsound.tokens token other hmem
    rcases heq with heq | heq
    · exact haccess (heq ▸ hdrawn)
    · exact hrefresh (heq ▸ hdrawn)
  intro token first second hfirst hsecond
  rcases hnew token first hfirst with hfirst | hfirst
  · rcases hnew token second hsecond with hsecond | hsecond
    · rw [hfirst.2, hsecond.2]
    · exact absurd hfirst.1 (hold token second hsecond)
  · rcases hnew token second hsecond with hsecond | hsecond
    · exact absurd hsecond.1 (hold token first hfirst)
    · exact hsound.owner token first second hfirst hsecond

/-- The history with new tokens, and what becomes of it by a birth or a rotation. -/
def History.withTokens (history : History) (values : List String) (access refresh id : String)
    (births : List Birth) (rotated : List String) : History :=
  { history with
    drawn := values ++ history.drawn
    births := births ++ history.births
    tokens := (access, id) :: (refresh, id) :: history.tokens
    rotated := rotated ++ history.rotated }

theorem SessionsSound.issue {sessions' : Std.TreeMap String Session}
    (hsound : SessionsSound crypto sessions history) (birth : Birth)
    (haccess : ¬ history.Drawn crypto (crypto.digest draw.access))
    (hrefresh : ¬ history.Drawn crypto (crypto.digest draw.refresh))
    (hid : birth.session ∉ history.drawn)
    (hsessions : ∀ (key : String) (session : Session), sessions'[key]? = some session →
      (key = birth.session ∧ session.principal = birth.principal ∧
        session.expires = birth.created + sessionSeconds ∧
        session.access = crypto.digest draw.access ∧
        ∀ refresh ∈ session.refresh, refresh = crypto.digest draw.refresh) ∨
      key ≠ birth.session ∧ sessions[key]? = some session) :
    SessionsSound crypto sessions' (history.withTokens [draw.access, draw.refresh, birth.session]
      (crypto.digest draw.access) (crypto.digest draw.refresh) birth.session [birth] []) where
  live := by
    intro key session hsession
    rcases hsessions key session hsession with hnew | hold
    · obtain ⟨rfl, hprincipal, hexpires, hsaccess, hsrefresh⟩ := hnew
      refine ⟨fun hended ↦ hid (hsound.ended _ hended), ?_, ?_, ?_⟩
      · exact ⟨birth, mem_cons_self, rfl, hprincipal.symm, hexpires⟩
      · rw [hsaccess]
        exact ⟨mem_cons_self, fun hrotated ↦ haccess (hsound.rotated _ hrotated)⟩
      · intro refresh hmem
        rw [hsrefresh refresh hmem]
        exact ⟨mem_cons_of_mem _ mem_cons_self, fun hrotated ↦ hrefresh (hsound.rotated _ hrotated)⟩
    · obtain ⟨hended, ⟨other, hother, hbirth⟩, hsaccess, hsrefresh⟩ :=
        hsound.live key session hold.2
      refine ⟨hended, ⟨other, mem_cons_of_mem _ hother, hbirth⟩, ?_, ?_⟩
      · exact ⟨mem_cons_of_mem _ (mem_cons_of_mem _ hsaccess.1), hsaccess.2⟩
      · exact fun refresh hmem ↦ ⟨mem_cons_of_mem _
          (mem_cons_of_mem _ (hsrefresh refresh hmem).1), (hsrefresh refresh hmem).2⟩
  owner := hsound.owner_cons haccess hrefresh
  tokens := by
    intro token id hmem
    simp only [History.withTokens, mem_cons, Prod.mk.injEq] at hmem
    rcases hmem with ⟨rfl, -⟩ | ⟨rfl, -⟩ | hmem
    · exact ⟨draw.access, by simp [History.withTokens], rfl⟩
    · exact ⟨draw.refresh, by simp [History.withTokens], rfl⟩
    · exact (hsound.tokens token id hmem).mono (subset_append_right _ _)
  rotated := fun token hmem ↦ (hsound.rotated token hmem).mono (subset_append_right _ _)
  births := by
    intro other hother
    rcases mem_cons.1 hother with heq | hother
    · subst heq
      simp [History.withTokens]
    · exact mem_append_right _ (hsound.births other hother)
  once := by
    refine nodup_cons.2 ⟨fun hmem ↦ ?_, hsound.once⟩
    obtain ⟨other, hother, heq⟩ := mem_map.1 hmem
    exact hid (heq ▸ hsound.births other hother)
  ended := fun id hmem ↦ mem_append_right _ (hsound.ended id hmem)

/-- A refresh replaces the tokens of one session. -/
theorem SessionsSound.refresh (hsound : SessionsSound crypto sessions history) {refresh : String}
    (haccess : ¬ history.Drawn crypto (crypto.digest draw.access))
    (hrefresh : ¬ history.Drawn crypto (crypto.digest draw.refresh))
    (hsession : sessions[id]? = some session) (htoken : session.refresh = some refresh) :
    SessionsSound crypto (sessions.insert id (session.rotate crypto now draw))
      (history.withTokens [draw.access, draw.refresh] (crypto.digest draw.access)
        (crypto.digest draw.refresh) id [] [session.access, refresh]) := by
  have hlive := hsound.live id session hsession
  have hdrawn : ∀ token ∈ session.access :: refresh :: history.rotated,
      history.Drawn crypto token := by
    intro token hmem
    simp only [mem_cons] at hmem
    rcases hmem with rfl | rfl | hmem
    · exact hsound.tokens _ _ hlive.access.1
    · exact hsound.tokens _ _ (hlive.refresh _ htoken).1
    · exact hsound.rotated token hmem
  refine ⟨?_, hsound.owner_cons haccess hrefresh, ?_, ?_, ?_, hsound.once, ?_⟩
  · intro key other hother
    rcases getElem?_insert_eq_some hother with hnew | hold
    · obtain ⟨rfl, rfl⟩ := hnew
      refine ⟨hlive.ended, hlive.birth, ?_, ?_⟩
      · exact ⟨mem_cons_self, fun hmem ↦ haccess (hdrawn _ hmem)⟩
      · intro token htoken'
        cases htoken'
        exact ⟨mem_cons_of_mem _ mem_cons_self, fun hmem ↦ hrefresh (hdrawn _ hmem)⟩
    · have hother := hsound.live key other hold.2
      -- a token of another session is neither of the two that are replaced
      have hstays : ∀ token, (token, key) ∈ history.tokens → token ∉ history.rotated →
          token ∉ session.access :: refresh :: history.rotated := by
        intro token hmem hnot hrotated
        simp only [mem_cons] at hrotated
        rcases hrotated with rfl | rfl | hrotated
        · exact hold.1 (hsound.owner _ _ _ hmem hlive.access.1)
        · exact hold.1 (hsound.owner _ _ _ hmem (hlive.refresh _ htoken).1)
        · exact hnot hrotated
      refine ⟨hother.ended, hother.birth, ?_, ?_⟩
      · exact ⟨mem_cons_of_mem _ (mem_cons_of_mem _ hother.access.1),
          hstays _ hother.access.1 hother.access.2⟩
      · intro token hmem
        obtain ⟨hown, hnot⟩ := hother.refresh token hmem
        exact ⟨mem_cons_of_mem _ (mem_cons_of_mem _ hown), hstays token hown hnot⟩
  · intro token other hmem
    simp only [History.withTokens, mem_cons, Prod.mk.injEq] at hmem
    rcases hmem with ⟨rfl, -⟩ | ⟨rfl, -⟩ | hmem
    · exact ⟨draw.access, by simp [History.withTokens], rfl⟩
    · exact ⟨draw.refresh, by simp [History.withTokens], rfl⟩
    · exact (hsound.tokens token other hmem).mono (subset_append_right _ _)
  · exact fun token hmem ↦ (hdrawn token hmem).mono (subset_append_right _ _)
  · exact fun birth hmem ↦ mem_append_right _ (hsound.births birth hmem)
  · exact fun other hmem ↦ mem_append_right _ (hsound.ended other hmem)

section
variable (hsound : SessionsSound crypto server.state.sessions server.history)
include hsound

/-- The sessions that stay are not among those that are ended. -/
theorem AuthServer.sessionsSound_endSessions (keep : Session → Bool) :
    SessionsSound crypto (server.endSessions keep).state.sessions
      (server.endSessions keep).history := by
  have hids : ∀ id, id ∈ (server.endSessions keep).history.ended →
      (∃ session, server.state.sessions[id]? = some session ∧ keep session = false) ∨
        id ∈ server.history.ended := by
    intro id hmem
    rcases mem_append.1 hmem with hmem | hmem
    · obtain ⟨⟨key, session⟩, hentry, rfl⟩ := mem_map.1 hmem
      obtain ⟨hentry, hkeep⟩ := mem_filter.1 hentry
      have hsession := Std.TreeMap.mem_toList_iff_getElem?_eq_some.1 hentry
      exact .inl ⟨session, hsession, by simpa using hkeep⟩
    · exact .inr hmem
  refine ⟨?_, hsound.owner, hsound.tokens, hsound.rotated, hsound.births, hsound.once, ?_⟩
  · intro id session hsession
    obtain ⟨hentry, hkeep⟩ := getElem?_filter_eq_some.1 hsession
    obtain ⟨hended, hbirth, haccess, hrefresh⟩ := hsound.live id session hentry
    refine ⟨fun hmem ↦ ?_, hbirth, haccess, hrefresh⟩
    rcases hids id hmem with hgone | hmem
    · obtain ⟨other, hother, hnot⟩ := hgone
      obtain rfl : session = other := Option.some.inj (hentry.symm.trans hother)
      rw [hkeep] at hnot
      cases hnot
    · exact hended hmem
  · intro id hmem
    rcases hids id hmem with hgone | hmem
    · obtain ⟨session, hsession, -⟩ := hgone
      obtain ⟨birth, hbirth, rfl, -⟩ := (hsound.live id session hsession).birth
      exact hsound.births birth hbirth
    · exact hsound.ended id hmem

theorem AuthServer.sessionsSound_steps (hstep : server.Steps crypto label after) :
    SessionsSound crypto after.state.sessions after.history := by
  have hdraw : ∀ values, SessionsSound crypto server.state.sessions (server.draw values).history :=
    fun values ↦ hsound.mono (subset_append_right _ _) rfl rfl rfl rfl
  cases hstep with
  | @registers _ id state saves _ hregister =>
    obtain ⟨hsessions, -⟩ := register_ok hregister
    cases saves with
    | true =>
      show SessionsSound crypto state.sessions _
      exact hsessions ▸ hdraw [id]
    | false => exact hdraw [id]
  | @starts _ state browser =>
    exact (hdraw [state, browser]).mono (List.Subset.refl _) rfl rfl rfl rfl
  | @enrolls _ _ _ _ _ _ state _ _ henroll =>
    obtain ⟨hsessions, -⟩ := enrollIn_ok henroll
    show SessionsSound crypto state.sessions _
    rw [hsessions]
    exact hsound.mono (List.Subset.refl _) rfl rfl rfl rfl
  | @grants _ code => exact (hdraw [code]).mono (List.Subset.refl _) rfl rfl rfl rfl
  | redeems => exact hsound.mono (List.Subset.refl _) rfl rfl rfl rfl
  | @issues _ draw id principal code _ _ _ hfresh hissue =>
    obtain ⟨-, hsessions⟩ := issue_ok hissue
    have hid : id ∉ server.history.drawn := hfresh.2 id (by simp)
    have haccess : ¬ server.history.Drawn crypto (crypto.digest draw.access) :=
      hfresh.not_drawn (by simp)
    have hrefresh : ¬ server.history.Drawn crypto (crypto.digest draw.refresh) :=
      hfresh.not_drawn (by simp)
    exact hsound.issue ⟨id, principal, code, server.clock⟩ haccess hrefresh hid hsessions
  | @issueFails _ draw id => exact hdraw [draw.access, draw.refresh, id]
  | @refreshes _ draw _ _ hfresh hfind =>
    obtain ⟨hsession, htoken, -⟩ := refreshable_ok hfind
    have haccess : ¬ server.history.Drawn crypto (crypto.digest draw.access) :=
      hfresh.not_drawn (by simp)
    have hrefresh : ¬ server.history.Drawn crypto (crypto.digest draw.refresh) :=
      hfresh.not_drawn (by simp)
    exact hsound.refresh haccess hrefresh hsession htoken
  | @refreshFails _ draw => exact hdraw [draw.access, draw.refresh]
  | revokes => exact sessionsSound_endSessions hsound _
  | @removes call => exact (server.setCall call none).sessionsSound_endSessions hsound _
  | _ => exact hsound

end

end Exo.Remote
