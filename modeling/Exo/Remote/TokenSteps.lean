import Exo.Remote.Tokens

/-!
# The steps of the login server

The steps that are possible, once and for all, and what each endpoint does to its map.
-/

namespace Exo.Remote

open Library Vault Option

variable {crypto : Crypto} {server after : AuthServer} {label : AuthLabel}

/-- The entries of one map are in the other, but for what is said of them. -/
def EntriesFrom {α : Type} (new : String → α → Prop) (before after : Std.TreeMap String α) : Prop :=
  ∀ (key : String) (value : α), after[key]? = some value → new key value ∨ before[key]? = some value

theorem startLogin_entries (crypto : Crypto) (now : ℤ) (state browser : String)
    (request : Option Authorization) (pending : Std.TreeMap String Pending) :
    EntriesFrom (fun _ login ↦ login.request = request) pending
      ((startLogin crypto now state browser request).runOn pending).2 := by
  intro key login hentry
  simp only [startLogin, InPlace.runOn_bind, InPlace.runOn_update, InPlace.runOn_look,
    InPlace.runOn_check] at hentry
  split at hentry
  case h_1 heq =>
    obtain ⟨-, rfl⟩ := Prod.mk.inj heq
    rcases getElem?_insert_eq_some hentry with hnew | hold
    · exact .inl (by rw [hnew.2])
    · exact .inr (getElem?_filter_eq_some.1 hold.2).1
  case h_2 heq =>
    obtain ⟨-, rfl⟩ := Prod.mk.inj heq
    exact .inr (getElem?_filter_eq_some.1 hentry).1

theorem takePending_entries (crypto : Crypto) (now : ℤ) (query : Callback) (browser : String)
    (pending : Std.TreeMap String Pending) :
    EntriesFrom (fun _ _ ↦ False) pending
      ((takePending crypto now query browser).runOn pending).2 := by
  intro key login hentry
  simp only [takePending, InPlace.runOn_bind, InPlace.runOn_update, InPlace.runOn_look,
    InPlace.runOn_check, InPlace.runOn_pure] at hentry
  split at hentry
  case h_2 heq =>
    obtain ⟨-, rfl⟩ := Prod.mk.inj heq
    exact .inr hentry
  case h_1 heq =>
    obtain ⟨-, rfl⟩ := Prod.mk.inj heq
    split at hentry
    case h_1 heq | h_2 heq =>
      obtain ⟨-, rfl⟩ := Prod.mk.inj heq
      exact .inr (getElem?_erase_eq_some hentry).2

theorem takePending_ok {now : ℤ} {query : Callback} {browser : String} {login : Pending}
    {pending after : Std.TreeMap String Pending}
    (htake : (takePending crypto now query browser).runOn pending = (Except.ok login, after)) :
    ∃ key : String, pending[key]? = some login := by
  simp only [takePending, InPlace.bind_ok, InPlace.look_ok, context_eq_ok, InPlace.pure_ok,
    Option.filter_eq_some_iff] at htake
  obtain ⟨_, _, ⟨⟨hentry, -⟩, -⟩, _, _, -, _, _, -, rfl, -⟩ := htake
  exact ⟨_, hentry⟩

theorem putCode_entries (crypto : Crypto) (now : ℤ) (code : String) (request : Authorization)
    (principal : String) (codes : Std.TreeMap String Code) :
    EntriesFrom (fun key grant ↦ key = crypto.digest code ∧ grant = ⟨request, principal, now + 60⟩)
      codes ((putCode crypto now code request principal).runOn codes).2 := by
  intro key grant hentry
  simp only [putCode, InPlace.runOn_bind, InPlace.runOn_update, InPlace.runOn_look,
    InPlace.runOn_check] at hentry
  split at hentry
  case h_1 heq =>
    obtain ⟨-, rfl⟩ := Prod.mk.inj heq
    rcases getElem?_insert_eq_some hentry with hnew | hold
    · exact .inl hnew
    · exact .inr (getElem?_filter_eq_some.1 hold.2).1
  case h_2 heq =>
    obtain ⟨-, rfl⟩ := Prod.mk.inj heq
    exact .inr (getElem?_filter_eq_some.1 hentry).1

theorem putCode_error {now : ℤ} {code principal message : String} {request : Authorization}
    {codes after : Std.TreeMap String Code}
    (hput : (putCode crypto now code request principal).runOn codes =
      (Except.error message, after)) :
    EntriesFrom (fun _ _ ↦ False) codes after := by
  intro key grant hentry
  simp only [putCode, InPlace.runOn_bind, InPlace.runOn_update, InPlace.runOn_look,
    InPlace.runOn_check] at hput
  split at hput
  case h_1 => cases hput
  case h_2 heq =>
    obtain ⟨-, rfl⟩ := Prod.mk.inj heq
    cases hput
    exact .inr (getElem?_filter_eq_some.1 hentry).1

/-- Whether the code is accepted or not, it is gone. -/
theorem takeCode_entries (crypto : Crypto) (now : ℤ) (request : CodeRequest)
    (codes : Std.TreeMap String Code) :
    EntriesFrom (fun _ _ ↦ False) codes ((takeCode crypto now request).runOn codes).2 := by
  intro key grant hentry
  simp only [takeCode, InPlace.runOn_bind, InPlace.runOn_update, InPlace.runOn_look,
    InPlace.runOn_check, InPlace.runOn_pure] at hentry
  split at hentry
  case h_2 heq =>
    obtain ⟨-, rfl⟩ := Prod.mk.inj heq
    exact .inr hentry
  case h_1 heq =>
    obtain ⟨-, rfl⟩ := Prod.mk.inj heq
    split at hentry
    case h_1 heq | h_2 heq =>
      obtain ⟨-, rfl⟩ := Prod.mk.inj heq
      exact .inr (getElem?_erase_eq_some hentry).2

theorem takeCode_ok {now : ℤ} {request : CodeRequest} {grant : Code}
    {codes after : Std.TreeMap String Code}
    (htake : (takeCode crypto now request).runOn codes = (Except.ok grant, after)) :
    codes[crypto.digest request.code]? = some grant ∧ request.fits crypto now grant = true ∧
      after = codes.erase (crypto.digest request.code) := by
  simp only [takeCode, InPlace.bind_ok, InPlace.look_ok, InPlace.check_ok, InPlace.update_ok,
    context_eq_ok, ensure_eq_ok, InPlace.pure_ok] at htake
  obtain ⟨_, _, ⟨hentry, rfl⟩, _, _, rfl, _, _, ⟨hfits, rfl⟩, rfl, rfl⟩ := htake
  exact ⟨hentry, hfits, rfl⟩

/-- The call looks for the session of the token of a request. -/
def AuthLabel.Begins (label : AuthLabel) (call : ℕ) (request : HttpRequest) : Prop :=
  label = .authenticate call request ∨ label = .logout call request

variable (crypto : Crypto) (server : AuthServer) in
inductive AuthServer.Steps : AuthLabel → AuthServer → Prop
  | refuse (label : AuthLabel) : Steps label server
  | tick (seconds : ℕ) : Steps (.tick seconds) { server with clock := server.clock + seconds }
  | registers {registration : Registration} {id : String} {state : State} (saves : Bool)
      (hfresh : server.Fresh [id])
      (hregister : Remote.register crypto server.clock id registration server.state =
        Except.ok state) :
      Steps (.register registration id saves)
        { server.draw [id] with state := if saves then state else server.state }
  | starts {label : AuthLabel} {state browser : String} (request : Option Authorization)
      (hfresh : server.Fresh [state, browser]) :
      Steps label
        { server.startLogin crypto state browser request with
          history := { (server.startLogin crypto state browser request).history with
            requests := request.toList ++ server.history.requests } }
  | rejects {call : ℕ} {query : Callback} {browser : String} {pending : Std.TreeMap String Pending}
      (hpending : EntriesFrom (fun _ _ ↦ False) server.pending pending) :
      Steps (.callback call query browser) { server with pending }
  | exchanges {call : ℕ} {query : Callback} {browser : String} {login : Pending}
      {pending : Std.TreeMap String Pending} (hcall : server.calls call = none)
      (hlogin : ∃ key : String, server.pending[key]? = some login)
      (hpending : EntriesFrom (fun _ _ ↦ False) server.pending pending) :
      Steps (.callback call query browser)
        { server.setCall call (some (.exchanging login.request)) with pending }
  | enrolls {call : ℕ} {identity : Identity} {id : String} {vault : VaultId} {saves : Bool}
      {request : Option Authorization} {state : State} {principal : Principal}
      (hcall : server.calls call = some (.exchanging request))
      (henroll : server.enrollIn identity id vault saves = Except.ok (state, principal)) :
      Steps (.enroll call identity id vault saves)
        { server.setCall call (some (.enrolled request principal.id)) with
          state
          history := { server.history with logins := principal.id :: server.history.logins } }
  | stops {label : AuthLabel} {call : ℕ} {stage : AuthCall}
      (hcall : server.calls call = some stage) :
      Steps label (server.setCall call none)
  | browses {call : ℕ} {code principal : String}
      (hcall : server.calls call = some (.enrolled none principal)) :
      Steps (.grant call code) (server.setCall call (some (.issuing none principal none)))
  | overflows {call : ℕ} {code principal : String} {request : Authorization}
      {codes : Std.TreeMap String Code}
      (hcall : server.calls call = some (.enrolled (some request) principal))
      (hcodes : EntriesFrom (fun _ _ ↦ False) server.codes codes) :
      Steps (.grant call code) { server.setCall call none with codes }
  | grants {call : ℕ} {code principal : String} {request : Authorization}
      {codes : Std.TreeMap String Code}
      (hcall : server.calls call = some (.enrolled (some request) principal))
      (hfresh : server.Fresh [code])
      (hcodes : EntriesFrom (fun key grant ↦ key = crypto.digest code ∧
        grant = ⟨request, principal, server.clock + 60⟩) server.codes codes) :
      Steps (.grant call code)
        { (server.setCall call none).draw [code] with
          codes
          history := { ((server.setCall call none).draw [code]).history with
            grants := ⟨crypto.digest code, request, principal, server.clock⟩ ::
              server.history.grants } }
  | misfits {call : ℕ} {request : CodeRequest} {codes : Std.TreeMap String Code}
      (hcodes : EntriesFrom (fun _ _ ↦ False) server.codes codes) :
      Steps (.redeem call request) { server with codes }
  | redeems {call : ℕ} {request : CodeRequest} {code : Code} (hcall : server.calls call = none)
      (hcode : server.codes[crypto.digest request.code]? = some code)
      (hfits : request.fits crypto server.clock code = true) :
      Steps (.redeem call request)
        { server.setCall call (some (.issuing (some (crypto.digest request.code)) code.principal
            (some request.clientId))) with
          codes := server.codes.erase (crypto.digest request.code)
          history := { server.history with
            redemptions := ⟨crypto.digest request.code, request, server.clock⟩ ::
              server.history.redemptions } }
  | issues {call : ℕ} {draw : TokenDraw} {id principal : String} {code client : Option String}
      {state : State} (hcall : server.calls call = some (.issuing code principal client))
      (hfresh : server.Fresh [draw.access, draw.refresh, id])
      (hissue : Remote.issue crypto server.clock draw id principal client server.state =
        Except.ok state) :
      Steps (.issue call draw id true)
        { (server.setCall call none).draw [draw.access, draw.refresh, id] with
          state
          history :=
            { ((server.setCall call none).draw [draw.access, draw.refresh, id]).history with
            births := ⟨id, principal, code, server.clock⟩ :: server.history.births
            tokens := (crypto.digest draw.access, id) :: (crypto.digest draw.refresh, id) ::
              server.history.tokens } }
  | issueFails {call : ℕ} {draw : TokenDraw} {id : String} {stage : AuthCall}
      (hcall : server.calls call = some stage) :
      Steps (.issue call draw id false)
        ((server.setCall call none).draw [draw.access, draw.refresh, id])
  | refreshes {request : RefreshRequest} {draw : TokenDraw} {id : String} {session : Session}
      (hfresh : server.Fresh [draw.access, draw.refresh])
      (hfind : refreshable crypto server.resource server.config server.clock request server.state =
        Except.ok (id, session)) :
      Steps (.refresh request draw true)
        { server.draw [draw.access, draw.refresh] with
          state := { server.state with
            sessions := server.state.sessions.insert id (session.rotate crypto server.clock draw) }
          history := { (server.draw [draw.access, draw.refresh]).history with
            tokens := (crypto.digest draw.access, id) :: (crypto.digest draw.refresh, id) ::
              server.history.tokens
            rotated := session.access :: crypto.digest request.refreshToken ::
              server.history.rotated } }
  | refreshFails {request : RefreshRequest} {draw : TokenDraw} :
      Steps (.refresh request draw false) (server.draw [draw.access, draw.refresh])
  | revokes {revocation : Revocation} :
      Steps (.revoke revocation true) (server.endSessions (revocation.keeps crypto))
  | finds {label : AuthLabel} {call : ℕ} {request : HttpRequest} {token id : String}
      (logout : Option (Option String)) (hlabel : label.Begins call request)
      (hcall : server.calls call = none) (htoken : request.token server.origin = Except.ok token)
      (hfind : findSession crypto server.clock token server.state = Except.ok id) :
      Steps label (server.setCall call (some (.authenticating token id logout)))
  | confirms {call : ℕ} {token id cookie : String}
      (hcall : server.calls call = some (.authenticating token id (some (some cookie)))) :
      Steps (.principal call) (server.setCall call (some (.removing cookie)))
  | removes {call : ℕ} {cookie : String} (hcall : server.calls call = some (.removing cookie)) :
      Steps (.remove call true) ((server.setCall call none).endSessions fun session ↦
          session.access != crypto.digest cookie)
  | restart (allowedEmails : List String) : Steps (.restart allowedEmails)
        { server with
          config := { server.config with allowedEmails }
          pending := ∅
          codes := ∅
          calls := fun _ ↦ none }

theorem AuthServer.steps_startAuthenticate {call : ℕ} {request : HttpRequest}
    (hlabel : label.Begins call request) (hcall : server.calls call = none)
    (logout : Option (Option String)) :
    server.Steps crypto label (server.startAuthenticate crypto call request logout) := by
  unfold startAuthenticate
  split
  case h_1 => exact .refuse label
  case h_2 htoken =>
    split
    case h_1 => exact .refuse label
    case h_2 hfind => exact .finds logout hlabel hcall htoken hfind

theorem AuthServer.steps_of_step (hstep : server.step crypto label = some after) :
    server.Steps crypto label after := by
  revert hstep
  fun_cases AuthServer.step crypto server label <;> intro hstep <;>
    first
    | cases Option.some.inj hstep
    | cases hstep
    | skip
  · exact .tick _
  · exact .refuse _
  · exact .registers _ ‹_› ‹_›
  · exact .refuse _
  · exact .starts (some _) ‹_›
  · exact .starts none ‹_›
  · rename_i query browser _ _ _ htake
    have hpending := takePending_entries crypto server.clock query browser server.pending
    rw [htake] at hpending
    exact .rejects hpending
  · rename_i query browser _ _ _ htake
    have hpending := takePending_entries crypto server.clock query browser server.pending
    rw [htake] at hpending
    exact .exchanges ‹_› (takePending_ok htake) hpending
  · exact .stops ‹_›
  · exact .enrolls ‹_› ‹_›
  · exact .browses ‹_›
  · rename_i hput
    exact .overflows ‹_› (putCode_error hput)
  · rename_i code request principal _ _ _ _ hput _ _
    have hcodes := putCode_entries crypto server.clock code request principal server.codes
    change (putCode crypto server.clock code request principal).runOn server.codes = _ at hput
    rw [hput] at hcodes
    exact .grants ‹_› ‹_› hcodes
  · rename_i request _ _ _ htake
    have hcodes := takeCode_entries crypto server.clock request server.codes
    rw [htake] at hcodes
    exact .misfits hcodes
  · rename_i htake _ _ _
    obtain ⟨hcode, hfits, rfl⟩ := takeCode_ok htake
    exact .redeems ‹_› hcode hfits
  · exact .stops ‹_›
  · exact .issues ‹_› ‹_› ‹_›
  · rename_i hsaves
    cases Bool.eq_false_of_not_eq_true hsaves
    exact Option.some.inj hstep ▸ .issueFails ‹_›
  · exact .refuse _
  · exact .refreshes ‹_› ‹_›
  · rename_i hsaves
    cases Bool.eq_false_of_not_eq_true hsaves
    exact Option.some.inj hstep ▸ .refreshFails
  · rename_i saves
    cases saves with
    | true => exact .revokes
    | false => exact .refuse _
  · exact steps_startAuthenticate (.inl rfl) ‹_› _
  · exact steps_startAuthenticate (.inr rfl) ‹_› _
  · exact .confirms ‹_›
  · exact .stops ‹_›
  · rename_i saves _ _ _
    cases saves with
    | true => exact .removes ‹_›
    | false => exact .stops ‹_›
  · obtain ⟨stage, hcall, rfl⟩ := Option.map_eq_some_iff.1 hstep
    exact .stops hcall
  · exact .restart _

theorem AuthServer.steps_of_enabled (henabled : (authServer crypto).enabled server label) :
    server.Steps crypto label ((authServer crypto).next server label) :=
  steps_of_step (Option.getD_of_ne_none (Option.isSome_iff_ne_none.1 henabled) _).symm

end Exo.Remote
