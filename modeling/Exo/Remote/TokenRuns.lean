import Mathlib.Logic.Equiv.Basic
import Exo.Remote.Logins
import Exo.Remote.Recovery

/-!
# Tokens are single-purpose and revocable

A request finds the session of its token and then reads the session again.  In between the token may
be replaced, so it is at the first of the two reads that the token is the current one.  In the same
way a code is accepted in time, and the tokens are issued when the lock of the state is free.
-/

namespace Exo.Remote

open Library Vault List System Except

variable {crypto : Crypto} {server after : AuthServer} {label : AuthLabel}

/-! ## One step -/

structure AuthServer.AuthSound (crypto : Crypto) (server : AuthServer) : Prop where
  sessions : SessionsSound crypto server.state.sessions server.history
  codes : server.CodesSound crypto
  logins : server.LoginsSound crypto

theorem AuthServer.AuthSound.steps (hsound : server.AuthSound crypto)
    (hstep : server.Steps crypto label after) : after.AuthSound crypto where
  sessions := sessionsSound_steps hsound.sessions hstep
  codes := hsound.codes.steps hstep
  logins := hsound.logins.steps hsound.sessions hsound.codes hstep

theorem authSound_new (crypto : Crypto) (origin : String) (config : AuthConfig) (owner : String) :
    (AuthServer.new origin config owner).AuthSound crypto := by
  constructor <;> constructor <;> simp [AuthServer.new, newState]

/-- What is past stays past. -/
structure History.Keeps (before after : History) : Prop where
  tokens : before.tokens ⊆ after.tokens
  rotated : before.rotated ⊆ after.rotated
  ended : before.ended ⊆ after.ended

theorem History.Keeps.of_eq {before after : History} (htokens : after.tokens = before.tokens)
    (hrotated : after.rotated = before.rotated) (hended : after.ended = before.ended) :
    before.Keeps after := by
  constructor
  · exact fun token htoken ↦ htokens ▸ htoken
  · exact fun token htoken ↦ hrotated ▸ htoken
  · exact fun id hid ↦ hended ▸ hid

theorem History.Keeps.trans {first second third : History} (hfirst : first.Keeps second)
    (hsecond : second.Keeps third) : first.Keeps third where
  tokens := fun _ htoken ↦ hsecond.tokens (hfirst.tokens htoken)
  rotated := fun _ htoken ↦ hsecond.rotated (hfirst.rotated htoken)
  ended := fun _ hid ↦ hsecond.ended (hfirst.ended hid)

variable {first second : List AuthLabel} {token id : String} {session : Session} {call : ℕ}

theorem History.Dead.mono {before after : History} (hdead : before.Dead token)
    (hkeeps : before.Keeps after) : after.Dead token := by
  rcases hdead with hrotated | hended
  · exact .inl (hkeeps.rotated hrotated)
  · obtain ⟨id, hid, htoken⟩ := hended
    exact .inr ⟨id, hkeeps.ended hid, hkeeps.tokens htoken⟩

theorem AuthServer.Steps.keeps (hstep : server.Steps crypto label after) :
    server.history.Keeps after.history := by
  cases hstep with
  | issues =>
    constructor
    · exact fun token htoken ↦ mem_cons_of_mem _ (mem_cons_of_mem _ htoken)
    · exact List.Subset.refl _
    · exact List.Subset.refl _
  | refreshes =>
    constructor
    · exact fun token htoken ↦ mem_cons_of_mem _ (mem_cons_of_mem _ htoken)
    · exact fun token htoken ↦ mem_cons_of_mem _ (mem_cons_of_mem _ htoken)
    · exact List.Subset.refl _
  | revokes | removes =>
    constructor
    · exact List.Subset.refl _
    · exact List.Subset.refl _
    · exact subset_append_right _ _
  | _ => exact .of_eq rfl rfl rfl

/-! ## What is accepted -/

section
variable (crypto : Crypto) (server : AuthServer)

/-- A request with the token finds a session, by its access token or by its refresh token. -/
def AuthServer.Accepts (token : String) : Prop :=
  (∃ id, findSession crypto server.clock token server.state = Except.ok id) ∨
    ∃ (request : RefreshRequest) (entry : String × Session), request.refreshToken = token ∧
      refreshable crypto server.resource server.config server.clock request server.state =
        Except.ok entry

/-- The token is that of a session that is kept, and it was not replaced. -/
structure AuthServer.Current (token id : String) :
    Prop where
  session : ∃ session : Session, server.state.sessions[id]? = some session ∧
    session.access = crypto.digest token ∧ server.clock < session.accessExpires
  alive : ¬ server.history.Dead (crypto.digest token)

end

/-- The session has not expired, it was made for the principal, who is admitted. -/
structure AuthServer.Entitled (server : AuthServer) (id principal : String) : Prop where
  session : ∃ session : Session, server.state.sessions[id]? = some session ∧
    session.principal = principal ∧ server.clock < session.expires
  ended : id ∉ server.history.ended
  birth : ∃ birth ∈ server.history.births, birth.session = id ∧ birth.principal = principal
  login : principal ∈ server.history.logins
  admitted : ∃ account : Principal, server.state.principals[principal]? = some account ∧
    server.config.admitted account.email = true

/-- The second half of `authenticate` is about to return the principal. -/
def AuthServer.Returns (server : AuthServer) (call : ℕ) (token id principal : String) : Prop :=
  (∃ logout, server.calls call = some (.authenticating token id logout)) ∧
    sessionPrincipal server.config server.clock id server.state = Except.ok principal

/-- A token of a session that is kept is not dead. -/
theorem SessionsSound.not_dead {sessions : Std.TreeMap String Session} {history : History}
    (hsound : SessionsSound crypto sessions history) (hsession : sessions[id]? = some session)
    (htoken : token = session.access ∨ session.refresh = some token) : ¬ history.Dead token := by
  have hlive := hsound.live id session hsession
  have howned : (token, id) ∈ history.tokens ∧ token ∉ history.rotated := by
    rcases htoken with haccess | hrefresh
    · exact haccess ▸ hlive.access
    · exact hlive.refresh token hrefresh
  intro hdead
  rcases hdead with hrotated | hended
  · exact howned.2 hrotated
  · obtain ⟨other, hother, htokens⟩ := hended
    have heq : id = other := hsound.owner token id other howned.1 htokens
    exact hlive.ended (heq ▸ hother)

section
variable (hsound : server.AuthSound crypto)
include hsound

theorem AuthServer.AuthSound.not_dead
    (haccepts : server.Accepts crypto token) : ¬ server.history.Dead (crypto.digest token) := by
  rcases haccepts with hfound | hfound
  · obtain ⟨id, hfind⟩ := hfound
    obtain ⟨session, hsession, haccess, -⟩ := findSession_ok hfind
    exact hsound.sessions.not_dead hsession (.inl haccess.symm)
  · obtain ⟨request, ⟨id, session⟩, rfl, hfind⟩ := hfound
    obtain ⟨hsession, hrefresh, -⟩ := refreshable_ok hfind
    exact hsound.sessions.not_dead hsession (.inr hrefresh)

theorem AuthServer.AuthSound.current
    (hfind : findSession crypto server.clock token server.state = Except.ok id) :
    server.Current crypto token id where
  session := findSession_ok hfind
  alive := hsound.not_dead (.inl ⟨id, hfind⟩)

theorem AuthServer.AuthSound.entitled {principal : String}
    (hreturns : server.Returns call token id principal) : server.Entitled id principal := by
  obtain ⟨session, hsession, hexpires, account, haccount, hadmitted, hid⟩ :=
    sessionPrincipal_ok hreturns.2
  have hlive := hsound.sessions.live id session hsession
  -- an account is stored under its id, so the session names the principal
  have hprincipal : session.principal = principal :=
    (hsound.logins.keyed _ _ haccount).symm.trans hid
  subst hprincipal
  obtain ⟨birth, hbirth, hsame, hborn, -⟩ := hlive.birth
  constructor
  · exact ⟨session, hsession, rfl, hexpires⟩
  · exact hlive.ended
  · exact ⟨birth, hbirth, hsame, hborn⟩
  · exact hborn ▸ hsound.logins.births birth hbirth
  · exact ⟨account, haccount, hadmitted⟩

end

/-- A code was accepted once, in time and for a request that fits, and its tokens issued once. -/
structure History.CodesOnce (crypto : Crypto) (history : History) : Prop where
  accepted : (history.redemptions.map Redemption.key).Nodup
  issued : (history.births.filterMap Birth.code).Nodup
  granted : ∀ birth ∈ history.births, ∀ key ∈ birth.code, ∃ redemption ∈ history.redemptions,
    ∃ grant ∈ history.grants, redemption.key = key ∧ redemption.Fits crypto grant ∧
      grant.principal = birth.principal ∧ grant.request ∈ history.requests ∧
      grant.principal ∈ history.logins

namespace AuthServer

theorem AuthSound.codesOnce (hsound : server.AuthSound crypto) :
    server.history.CodesOnce crypto where
  accepted := hsound.codes.once
  issued := hsound.codes.nodup
  granted := by
    intro birth hbirth key hkey
    obtain ⟨⟨redemption, hredemption, hsame⟩, grant, hgrant, hgranted, hprincipal⟩ :=
      hsound.codes.births birth hbirth key hkey
    obtain ⟨other, hother, hfits⟩ := hsound.codes.redemptions redemption hredemption
    have hkeys : other.key = grant.key := by
      calc other.key = redemption.key := hfits.key.symm
        _ = key := hsame
        _ = grant.key := hgranted.symm
    have heq : other = grant := hsound.codes.unique other hother grant hgrant hkeys
    subst heq
    obtain ⟨hrequest, hlogin⟩ := hsound.logins.grants other hother
    exact ⟨redemption, hredemption, other, hother, hsame, hfits, hprincipal, hrequest, hlogin⟩

/-- The session is not kept, and none of its tokens is accepted. -/
structure Over (crypto : Crypto) (server : AuthServer) (id : String) : Prop where
  session : server.state.sessions[id]? = none
  tokens : ∀ token, (crypto.digest token, id) ∈ server.history.tokens →
    ¬ server.Accepts crypto token

theorem AuthSound.stays_over (hsound : server.AuthSound crypto)
    (hended : id ∈ server.history.ended) : server.Over crypto id where
  session := by
    cases hsession : server.state.sessions[id]? with
    | none => rfl
    | some session => exact absurd hended (hsound.sessions.live id session hsession).ended
  tokens := by
    intro token htoken haccepts
    exact hsound.not_dead haccepts (.inr ⟨id, hended, htoken⟩)

/-! ## What a step makes past -/

theorem refresh_rotated {request : RefreshRequest} {draw : TokenDraw}
    (henabled : (authServer crypto).enabled server (.refresh request draw true))
    (hfind : refreshable crypto server.resource server.config server.clock request server.state =
      Except.ok (id, session)) :
    ((authServer crypto).next server (.refresh request draw true)).history.rotated =
      session.access :: crypto.digest request.refreshToken :: server.history.rotated := by
  have hfresh : server.Fresh [draw.access, draw.refresh] := by
    by_contra hnot
    simp [authServer, step, hnot] at henabled
  simp [authServer, step, hfresh, hfind, AuthServer.draw]

theorem mem_ended_endSessions {keep : Session → Bool}
    (hsession : server.state.sessions[id]? = some session) (hkeep : keep session = false) :
    id ∈ (server.endSessions keep).history.ended := by
  have hentry := Std.TreeMap.mem_toList_iff_getElem?_eq_some.2 hsession
  refine mem_append_left _ (mem_map.2 ⟨(id, session), ?_, rfl⟩)
  exact mem_filter.2 ⟨hentry, by simp [hkeep]⟩

theorem revoke_ended {revocation : Revocation}
    (hsession : server.state.sessions[id]? = some session)
    (hkeep : revocation.keeps crypto session = false) :
    id ∈ ((authServer crypto).next server (.revoke revocation true)).history.ended :=
  mem_ended_endSessions hsession hkeep

theorem remove_ended {cookie : String}
    (hcall : server.calls call = some (.removing cookie))
    (hsession : server.state.sessions[id]? = some session)
    (hcookie : session.access = crypto.digest cookie) :
    id ∈ ((authServer crypto).next server (.remove call true)).history.ended := by
  have hended : id ∈ ((server.setCall call none).endSessions fun session ↦
      session.access != crypto.digest cookie).history.ended :=
    mem_ended_endSessions hsession (by simp [hcookie])
  simpa [authServer, step, hcall] using hended

end AuthServer

/-! ## Runs -/

variable {start : AuthServer} {labels : List AuthLabel}

theorem authSound_exec (hstart : start.AuthSound crypto)
    (hrun : (authServer crypto).Admits start labels) :
    ((authServer crypto).exec start labels).AuthSound crypto :=
  invariant (AuthServer.AuthSound crypto)
    (fun _ _ hsound henabled ↦ hsound.steps (AuthServer.steps_of_enabled henabled)) hstart hrun

theorem keeps_exec (hrun : (authServer crypto).Admits start labels) :
    start.history.Keeps ((authServer crypto).exec start labels).history :=
  invariant (fun server ↦ start.history.Keeps server.history)
    (fun _ _ hkeeps henabled ↦ hkeeps.trans (AuthServer.steps_of_enabled henabled).keeps)
    (.of_eq rfl rfl rfl) hrun

theorem keeps_exec_append (hrun : (authServer crypto).Admits start (first ++ second)) :
    ((authServer crypto).exec start first).history.Keeps
      ((authServer crypto).exec start (first ++ second)).history := by
  rw [exec_append]
  exact keeps_exec (((authServer crypto).admits_append _ _ _).1 hrun).2

/-- The call is between the two halves of `authenticate`. -/
def AuthServer.Authenticating (server : AuthServer) (call : ℕ) (token id : String) : Prop :=
  ∃ logout, server.calls call = some (.authenticating token id logout)

theorem AuthServer.Authenticating.setCall {other : ℕ} {stage : Option AuthCall}
    (hcall : (server.setCall other stage).Authenticating call token id)
    (hstage : ∀ token id logout, stage ≠ some (.authenticating token id logout)) :
    server.Authenticating call token id := by
  obtain ⟨logout, hcall⟩ := hcall
  rcases calls_setCall hcall with hnew | hold
  · exact absurd hnew.2 (hstage token id logout)
  · exact ⟨logout, hold.2⟩

/-- A call that has found a session has either just done so, or had before. -/
theorem AuthServer.Authenticating.of_steps (hcall : after.Authenticating call token id)
    (hstep : server.Steps crypto label after) :
    server.Authenticating call token id ∨ ∃ request, label.Begins call request ∧
      request.token server.origin = Except.ok token ∧
      findSession crypto server.clock token server.state = Except.ok id := by
  cases hstep with
  | @finds _ other request token' id' logout hlabel _ htoken hfind =>
    obtain ⟨logout', hcall⟩ := hcall
    rcases calls_setCall hcall with hnew | hold
    · obtain ⟨rfl, hstage⟩ := hnew
      cases hstage
      exact .inr ⟨request, hlabel, htoken, hfind⟩
    · exact .inl ⟨logout', hold.2⟩
  | exchanges | enrolls | stops | browses | overflows | grants | redeems | issues | issueFails |
    confirms | removes => exact .inl (Authenticating.setCall hcall (by simp))
  | restart =>
    obtain ⟨_, hcall⟩ := hcall
    cases hcall
  | _ => exact .inl hcall

/-- The call has found the token to be the current one of the session, and waits since. -/
def LookedUp (crypto : Crypto) (start : AuthServer) (labels : List AuthLabel) (call : ℕ)
    (token id : String) : Prop :=
  ∃ (before : List AuthLabel) (label : AuthLabel) (rest : List AuthLabel) (request : HttpRequest),
    labels = before ++ label :: rest ∧ label.Begins call request ∧
      request.token ((authServer crypto).exec start before).origin = Except.ok token ∧
      ((authServer crypto).exec start before).Current crypto token id ∧
      (authServer crypto).Throughout (fun server _ ↦ server.Authenticating call token id)
        ((authServer crypto).exec start (before ++ [label])) rest

theorem lookedUp_of_authenticating (hstart : start.AuthSound crypto)
    (hrun : (authServer crypto).Admits start labels)
    (hcall : ((authServer crypto).exec start labels).Authenticating call token id)
    (hidle : start.calls = fun _ ↦ none) : LookedUp crypto start labels call token id := by
  revert call token id
  refine traceInvariant (fun labels (server : AuthServer) ↦ ∀ {call token id},
    server.Authenticating call token id → LookedUp crypto start labels call token id)
    start ?_ ?_ hrun
  · intro call token id hcall
    obtain ⟨logout, hcall⟩ := hcall
    rw [hidle] at hcall
    cases hcall
  · intro labels label hrun ih henabled call token id hcall
    rcases hcall.of_steps (AuthServer.steps_of_enabled henabled) with hold | hnew
    · obtain ⟨before, first, rest, request, rfl, hbegins, htoken, hcurrent, hwaits⟩ := ih hold
      refine ⟨before, first, rest ++ [label], request, by simp, hbegins, htoken, hcurrent, ?_⟩
      rw [throughout_append, ← exec_append]
      refine ⟨hwaits, ?_, trivial⟩
      simpa using hold
    · obtain ⟨request, hbegins, htoken, hfind⟩ := hnew
      have hcurrent := (authSound_exec hstart hrun).current hfind
      exact ⟨labels, label, [], request, rfl, hbegins, htoken, hcurrent, trivial⟩

/-- What holds of a run of the login server. -/
structure TokensHold (crypto : Crypto) (start : AuthServer) (labels : List AuthLabel) :
    Prop where
  codes : ((authServer crypto).exec start labels).history.CodesOnce crypto
  authenticates : ∀ before call rest token id principal,
    labels = before ++ .principal call :: rest →
      ((authServer crypto).exec start before).Returns call token id principal →
        LookedUp crypto start before call token id ∧
          ((authServer crypto).exec start before).Entitled id principal
  refreshes : ∀ before request draw rest id session,
    labels = before ++ .refresh request draw true :: rest →
      let server := (authServer crypto).exec start before
      refreshable crypto server.resource server.config server.clock request server.state =
        Except.ok (id, session) →
      ∀ token, crypto.digest token = session.access ∨ token = request.refreshToken →
        ¬ ((authServer crypto).exec start labels).Accepts crypto token
  revokes : ∀ before revocation rest id session,
    labels = before ++ .revoke revocation true :: rest →
      ((authServer crypto).exec start before).state.sessions[id]? = some session →
        revocation.keeps crypto session = false →
          ((authServer crypto).exec start labels).Over crypto id
  logsOut : ∀ before call cookie rest id session,
    labels = before ++ .remove call true :: rest →
      ((authServer crypto).exec start before).calls call = some (.removing cookie) →
        ((authServer crypto).exec start before).state.sessions[id]? = some session →
          session.access = crypto.digest cookie →
            ((authServer crypto).exec start labels).Over crypto id
  /-- A session expires thirty days after its only birth. -/
  sessions : ∀ id session,
    ((authServer crypto).exec start labels).state.sessions[id]? = some session →
      ((authServer crypto).exec start labels).history.Live id session
  once : (((authServer crypto).exec start labels).history.births.map Birth.session).Nodup

section
variable (hstart : start.AuthSound crypto) (hrun : (authServer crypto).Admits start
  (first ++ second))
include hstart hrun

theorem not_accepts_of_dead
    (hdead : ((authServer crypto).exec start first).history.Dead (crypto.digest token)) :
    ¬ ((authServer crypto).exec start (first ++ second)).Accepts crypto token := by
  intro haccepts
  exact (authSound_exec hstart hrun).not_dead haccepts (hdead.mono (keeps_exec_append hrun))

theorem over_of_ended (hended : id ∈ ((authServer crypto).exec start first).history.ended) :
    ((authServer crypto).exec start (first ++ second)).Over crypto id :=
  (authSound_exec hstart hrun).stays_over ((keeps_exec_append hrun).ended hended)

end

theorem tokens_sound (crypto : Crypto) (origin : String) (config : AuthConfig) (owner : String)
    {labels : List AuthLabel}
    (hrun : (authServer crypto).Admits (.new origin config owner) labels) :
    TokensHold crypto (.new origin config owner) labels := by
  have hstart := authSound_new crypto origin config owner
  have hsound := authSound_exec hstart hrun
  -- the run up to a step, with the step
  have hsplit : ∀ before label rest, labels = before ++ label :: rest →
      labels = (before ++ [label]) ++ rest ∧
        (authServer crypto).Admits (.new origin config owner) before ∧
        (authServer crypto).enabled
          ((authServer crypto).exec (.new origin config owner) before) label := by
    intro before label rest heq
    have hrun' := heq ▸ hrun
    rw [admits_append] at hrun'
    exact ⟨by simpa using heq, hrun'.1, hrun'.2.1⟩
  constructor
  · exact hsound.codesOnce
  · intro before call rest token id principal heq hreturns
    obtain ⟨-, hbefore, -⟩ := hsplit _ _ _ heq
    constructor
    · exact lookedUp_of_authenticating hstart hbefore hreturns.1 rfl
    · exact (authSound_exec hstart hbefore).entitled hreturns
  · intro before request draw rest id session heq server hfind token htoken
    obtain ⟨hlabels, -, henabled⟩ := hsplit _ _ _ heq
    subst hlabels
    refine not_accepts_of_dead hstart hrun (.inl ?_)
    rw [exec_append, exec_cons, exec_nil, AuthServer.refresh_rotated henabled hfind]
    rcases htoken with haccess | hrefresh
    · simp [haccess]
    · simp [hrefresh]
  · intro before revocation rest id session heq hsession hkeep
    obtain ⟨hlabels, -, -⟩ := hsplit _ _ _ heq
    subst hlabels
    refine over_of_ended hstart hrun ?_
    rw [exec_append]
    exact AuthServer.revoke_ended hsession hkeep
  · intro before call cookie rest id session heq hcall hsession hcookie
    obtain ⟨hlabels, -, -⟩ := hsplit _ _ _ heq
    subst hlabels
    refine over_of_ended hstart hrun ?_
    rw [exec_append]
    exact AuthServer.remove_ended hcall hsession hcookie
  · exact hsound.sessions.live
  · exact hsound.sessions.once

/-! ## A login -/

def loginVerifier : String := "dBjftJeZ4CVP-mB92K27uhbUJU1p1r_wW1gFWFOEjXk"

def loginChallenge : String := "E9Melhoa2OwvFrEMTJguCHaoeK1t8URWbuGJSstw-cM"

/-- The values of a login with their digests. -/
def loginDigests : List (String × String) :=
  [(loginVerifier, loginChallenge),
    ("s1", "6LwWPILu4YczKIx9SsY22zpt6wE-8tN7aDIr4g7cRcw"),
    ("b1", "fclvd2yEI-V6J4VImj-cQ_tudWh21q2anKxKpOcuwZM"),
    ("c1", "0PYxyh3bqNs7z8ueBXzcmNA3nxvuAOdaVFFHon2t2YI"),
    ("a1", "9V_xb2b0M2Ama5Xbb4_sAddgMQVDBq5KSzgFmPbP0RQ"),
    ("r1", "gvPpxpXca40bEYGNVwGRniht6NR_fD6zEAxIX3nleCg"),
    ("a2", "LDpCSddwcAWGSdvYItyveVdYb85CjPssqIuUdB7aiwc"),
    ("r2", "23f9Aa-VciGkmJtks3cKg6PFYGhAW58OlAj-rlf9F-Q")]

def loginRedirect : String := "http://127.0.0.1:8000/callback"

def loginDigest : Equiv.Perm String :=
  loginDigests.foldr (fun pair rest ↦ (Equiv.swap pair.1 pair.2).trans rest) (.refl String)

/-- The crates, on the values of a login. -/
def loginCrypto : Crypto where
  digest := loginDigest
  digest_injective := loginDigest.injective
  decode text :=
    if text == loginChallenge then
      some [19, 211, 30, 150, 26, 26, 216, 236, 47, 22, 177, 12, 76, 152, 46, 8,
        118, 168, 120, 173, 109, 241, 68, 86, 110, 225, 137, 74, 203, 112, 249, 195]
    else none
  loopbackRedirect address := address == loginRedirect

def loginQuery : Authorization :=
  { responseType := "code"
    clientId := "client"
    redirectUri := loginRedirect
    state := "xyz"
    codeChallenge := loginChallenge
    codeChallengeMethod := "S256"
    resource := "https://exo.example/exo"
    scope := "exo" }

def loginStart : AuthServer := .new "https://exo.example" twoConfig "p0"

/-- A client registers, and the owner logs in and is given a code. -/
def loginCode : List AuthLabel :=
  [.register ⟨[loginRedirect], none, none, none⟩ "client" true, .authorize loginQuery "s1" "b1",
    .callback 0 ⟨some "from the provider", "s1", none⟩ "b1",
    .enroll 0 ownerIdentity "p9" 1 true, .grant 0 "c1"]

def loginRedeem : AuthLabel :=
  .redeem 0 ⟨"c1", "client", loginRedirect, loginVerifier, "https://exo.example/exo"⟩

def loginIssue : AuthLabel := .issue 0 ⟨"a1", "r1"⟩ "session" true

def loginRefresh : AuthLabel :=
  .refresh ⟨"r1", "client", "https://exo.example/exo", none⟩ ⟨"a2", "r2"⟩ true

def loginRequest : AuthLabel := .authenticate 1 ⟨some "a1", none, false, none, none⟩

/-- A request with the new tokens, a refresh, and a revocation. -/
def loginRun : List AuthLabel :=
  loginCode ++ [loginRedeem, loginIssue, loginRequest, .principal 1, loginRefresh,
    .revoke ⟨"a2", "client"⟩ true]

theorem tokens_sound_login : TokensHold loginCrypto loginStart loginRun ∧
      ((authServer loginCrypto).exec loginStart (loginCode ++
        [loginRedeem, loginIssue, loginRequest])).Returns 1 "a1" "session" "p0" ∧
      ((authServer loginCrypto).exec loginStart loginRun).Over loginCrypto "session" := by
  have hrun : (authServer loginCrypto).Admits loginStart loginRun := by decide +kernel
  have hholds := tokens_sound loginCrypto "https://exo.example" twoConfig "p0" hrun
  have hreturns : ((authServer loginCrypto).exec loginStart (loginCode ++
      [loginRedeem, loginIssue, loginRequest])).Returns 1 "a1" "session" "p0" := by
    have heval : let server := (authServer loginCrypto).exec loginStart (loginCode ++
          [loginRedeem, loginIssue, loginRequest])
        server.calls 1 = some (.authenticating "a1" "session" none) ∧
          sessionPrincipal server.config server.clock "session" server.state = ok "p0" := by
      decide +kernel
    exact ⟨⟨none, heval.1⟩, heval.2⟩
  refine ⟨hholds, hreturns, ?_⟩
  exact hholds.revokes (loginCode ++ [loginRedeem, loginIssue, loginRequest, .principal 1,
    loginRefresh]) ⟨"a2", "client"⟩ [] "session"
      ⟨"p0", some "client", loginDigest "a2", some (loginDigest "r2"), 900, 2592000⟩ rfl
      (by decide +kernel) (by decide +kernel)

/-- A request has found its session when the tokens are replaced. -/
def overtakenRun : List AuthLabel :=
  loginCode ++ [loginRedeem, loginIssue, loginRequest, loginRefresh]

/-- A code is accepted in its last second, and the lock of the state is held by others. -/
def lateRun : List AuthLabel :=
  loginCode ++ [.tick 59, loginRedeem, .tick 5, loginIssue]

/-- A client revokes a token that it has replaced. -/
def replacedRun : List AuthLabel :=
  loginCode ++ [loginRedeem, loginIssue, loginRefresh, .revoke ⟨"a1", "client"⟩ true]

/-- A token that was replaced is answered, a code yields tokens after its minute, and a token of a
session that was to be revoked is accepted. -/
theorem tokens_unsound : ((authServer loginCrypto).Admits loginStart overtakenRun ∧
      ((authServer loginCrypto).exec loginStart overtakenRun).Returns 1 "a1" "session" "p0" ∧
      ((authServer loginCrypto).exec loginStart overtakenRun).history.Dead (loginDigest "a1")) ∧
    ((authServer loginCrypto).Admits loginStart lateRun ∧
      ((authServer loginCrypto).exec loginStart lateRun).history.births =
        [⟨"session", "p0", some (loginDigest "c1"), 64⟩] ∧
      ((authServer loginCrypto).exec loginStart lateRun).history.grants =
        [⟨loginDigest "c1", loginQuery, "p0", 0⟩]) ∧
    (authServer loginCrypto).Admits loginStart replacedRun ∧
      (loginDigest "a1", "session") ∈
        ((authServer loginCrypto).exec loginStart replacedRun).history.tokens ∧
      (loginDigest "a2", "session") ∈
        ((authServer loginCrypto).exec loginStart replacedRun).history.tokens ∧
      ((authServer loginCrypto).exec loginStart replacedRun).Accepts loginCrypto "a2" := by
  have hovertaken : let server := (authServer loginCrypto).exec loginStart overtakenRun
      (authServer loginCrypto).Admits loginStart overtakenRun ∧
        server.calls 1 = some (.authenticating "a1" "session" none) ∧
        sessionPrincipal server.config server.clock "session" server.state = ok "p0" ∧
        server.history.Dead (loginDigest "a1") := by decide +kernel
  have hreplaced : let server := (authServer loginCrypto).exec loginStart replacedRun
      (authServer loginCrypto).Admits loginStart replacedRun ∧
        (loginDigest "a1", "session") ∈ server.history.tokens ∧
        (loginDigest "a2", "session") ∈ server.history.tokens ∧
        findSession loginCrypto server.clock "a2" server.state = ok "session" := by
    decide +kernel
  obtain ⟨hadmits, hcall, hprincipal, hdead⟩ := hovertaken
  obtain ⟨hadmits', hfirst, hsecond, hfind⟩ := hreplaced
  exact ⟨⟨hadmits, ⟨⟨none, hcall⟩, hprincipal⟩, hdead⟩, by decide +kernel,
    hadmits', hfirst, hsecond, .inl ⟨"session", hfind⟩⟩

end Exo.Remote
