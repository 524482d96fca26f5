import Mathlib.Data.List.Dedup
import Exo.Egress.Connections
import Exo.Egress.Substitution

/-!
# A limited policy confines every connection

Under a policy that lists hosts, whatever reaches the network is for a host of the list, at the port
of its scheme, and every name by which the sandbox has addressed it is a spelling of that host.  An
external proxy is connected to at its own address, and is asked for such a host only.
-/

namespace Exo.Egress

open Library List Option

variable {lib : ProxyLibraries}

/-! ## What a path makes sure of -/

variable {host : String} {result : List Job} {bytes : Bytes} {chunks : List Bytes}
  {request : Request} {pool : Pool} {answers : Answers}
  {name : String} {sni connectHost : Option String} {text upgraded : Bytes}
  {destination : EgressDestination} {networkDns : Bool} {upstream : UpstreamResolver}
  {external : Option ExternalProxyConfig}

theorem ensureHost_eq_ok {message : String} {result : Unit} :
    ensureHost host message name = .ok result ↔ canonicalEgressHost name = .ok host := by
  simp only [ensureHost, bind_eq_ok, ensure_eq_ok, beq_iff_eq]
  constructor
  · intro ⟨canonical, hcanonical, heq⟩
    exact heq ▸ hcanonical
  · intro hcanonical
    exact ⟨host, hcanonical, rfl⟩

/-- What is known of a job under a policy that lists hosts. -/
def Job.Checked (lib : ProxyLibraries) (state : State) : Job → Prop
  | .forward _ sni connect => ∀ text ∈ connect, ∃ authority host name,
      lib.parseAuthority text = some authority ∧ authority.port = some 443 ∧
        canonicalEgressHost authority.host = .ok host ∧ sni = some name ∧
        canonicalEgressHost name = .ok host
  | .tunnel proxy sni host =>
    state.external = some proxy ∧ allowsTcpPort state.allowedTcpPorts 443 = true ∧
      host ∈ state.hosts ∧ canonicalEgressHost sni = .ok host
  | .direct _ => False
  | .tcp _ => False
  | .lookup host => toAsciiLowercase host ∈ state.hosts

variable {state : State} {job : Job}

theorem checked_httpConnection (hjob : job ∈ httpConnection lib sni none bytes) :
    job.Checked lib state := by
  obtain ⟨⟨request, following⟩, _, rfl⟩ := mem_map.1 hjob
  intro text htext
  cases htext

/-- The server name of an intercepted connection names the host it was opened for. -/
theorem httpsConnection_eq_ok {inside : Bytes} {sni : String}
    (hhttps : httpsConnection lib connectHost bytes = .ok (sni, inside)) :
    ∀ host ∈ connectHost, canonicalEgressHost sni = .ok host := by
  simp only [httpsConnection, bind_eq_ok, checkSome_eq_ok, pure_eq_ok, ensureHost_eq_ok] at hhttps
  obtain ⟨_, _, name, _, _, hname, heq⟩ := hhttps
  cases heq
  exact hname

theorem checked_interceptedTls {connect : Option Bytes}
    (htls : interceptedTls lib connectHost connect bytes = .ok result)
    (hconnect : ∀ text ∈ connect, ∃ authority, ∃ host ∈ connectHost,
      lib.parseAuthority text = some authority ∧ authority.port = some 443 ∧
        canonicalEgressHost authority.host = .ok host) : ∀ job ∈ result, job.Checked lib state := by
  simp only [interceptedTls, bind_eq_ok, pure_eq_ok] at htls
  obtain ⟨⟨sni, inside⟩, hhttps, rfl⟩ := htls
  intro job hjob
  obtain ⟨⟨request, following⟩, _, rfl⟩ := mem_map.1 hjob
  intro text htext
  obtain ⟨authority, host, hhost, hparse, hport, hcanonical⟩ := hconnect text htext
  exact ⟨authority, host, sni, hparse, hport, hcanonical, rfl, httpsConnection_eq_ok hhttps host hhost⟩

theorem peekClientHello_eq_ok {read : Bytes}
    (hpeek : peekClientHello lib read chunks = .ok (name, host)) :
    canonicalEgressHost name = .ok host := by
  induction chunks generalizing read with
  | nil => cases hpeek
  | cons chunk rest ih =>
    simp only [peekClientHello, bind_eq_ok] at hpeek
    obtain ⟨_, _, _, _, hello, _, hpeek⟩ := hpeek
    cases hello with
    | none => exact ih hpeek
    | some server =>
      simp only [bind_eq_ok, pure_eq_ok] at hpeek
      obtain ⟨_, _, _, hcanonical, heq⟩ := hpeek
      cases heq
      exact hcanonical

theorem mem_hosts_of_allowsHost (hlimited : state.unrestricted = false)
    (hallows : state.allowsHost host = true) : host ∈ state.hosts := by
  simpa [State.allowsHost, hlimited] using hallows

theorem checkPort_eq_ok {port : ℕ} {result : Unit} :
    state.checkPort port = .ok result ↔ allowsTcpPort state.allowedTcpPorts port = true := by
  rw [State.checkPort, ensure_eq_ok]

theorem checked_transparentHttpsConnection (hlimited : state.unrestricted = false)
    (hhttps : transparentHttpsConnection lib state chunks = .ok result) :
    ∀ job ∈ result, job.Checked lib state := by
  simp only [transparentHttpsConnection, bind_eq_ok, checkPort_eq_ok, hlimited, Bool.not_false,
    Bool.true_and] at hhttps
  obtain ⟨_, hport, hhttps⟩ := hhttps
  cases hexternal : state.external with
  | none =>
    simp only [hexternal, isNone_none, if_true] at hhttps
    exact checked_interceptedTls hhttps (by simp)
  | some proxy =>
    simp only [hexternal, isNone_some, Bool.false_eq_true, if_false, peekedTls, bind_eq_ok,
      ensure_eq_ok, Bool.and_false, pure_eq_ok] at hhttps
    obtain ⟨⟨name, host⟩, hpeek, _, hallows, rfl⟩ := hhttps
    intro job hjob
    rw [mem_singleton] at hjob
    rw [hjob]
    exact ⟨hexternal, hport, mem_hosts_of_allowsHost hlimited hallows, peekClientHello_eq_ok hpeek⟩

theorem connectHost_eq_ok (hconnect : state.connectHost lib text = .ok host) :
    state.allowsHost host = true ∧ ∃ authority, lib.parseAuthority text = some authority ∧
      authority.port = some 443 ∧ canonicalEgressHost authority.host = .ok host := by
  simp only [State.connectHost, bind_eq_ok, ensure_eq_ok, context_eq_ok, pure_eq_ok,
    beq_iff_eq] at hconnect
  obtain ⟨_, _, authority, hparse, _, hport, canonical, hcanonical, _, hallows, rfl⟩ := hconnect
  exact ⟨hallows, authority, hparse, hport, hcanonical⟩

/-- The tunnel of a CONNECT is intercepted for the host its authority names. -/
theorem checked_connected (hconnect : state.connectHost lib text = .ok host)
    (htls : interceptedTls lib (some host) (some text) bytes = .ok result) :
    ∀ job ∈ result, job.Checked lib state := by
  apply checked_interceptedTls htls
  intro other hother
  obtain ⟨_, authority, hauthority⟩ := connectHost_eq_ok hconnect
  cases hother
  exact ⟨authority, host, rfl, hauthority⟩

theorem checked_connect (hlimited : state.unrestricted = false)
    (hconnect : connect lib state request upgraded = .ok result) :
    ∀ job ∈ result, job.Checked lib state := by
  simp only [connect, bind_eq_ok] at hconnect
  obtain ⟨authority, _, host, hhost, hresult⟩ := hconnect
  have hmem := mem_hosts_of_allowsHost hlimited (connectHost_eq_ok hhost).1
  rw [if_pos (contains_iff_mem.2 hmem)] at hresult
  exact checked_connected hhost hresult

theorem checked_forwardHttp (hforward : forwardHttp lib request = .ok result) :
    ∀ job ∈ result, job.Checked lib state := by
  simp only [forwardHttp, bind_eq_ok, pure_eq_ok] at hforward
  obtain ⟨_, _, _, _, _, _, _, _, _, _, _, _, _, _, uri, _, rfl⟩ := hforward
  intro job hjob
  rw [mem_singleton] at hjob
  rw [hjob]
  intro text htext
  cases htext

variable {setup : Setup}

theorem checked_proxyRequest (hlimited : setup.state.unrestricted = false) {allowHttp : Bool}
    (hproxy : proxyRequest lib setup allowHttp request upgraded = .ok result) :
    ∀ job ∈ result, job.Checked lib setup.state := by
  simp only [proxyRequest, bind_eq_ok] at hproxy
  obtain ⟨_, _, _, _, _, _, _, _, _, _, hresult⟩ := hproxy
  split at hresult
  · exact checked_connect hlimited hresult
  · exact checked_forwardHttp hresult

theorem connectTcp_ne_ok (hlimited : state.unrestricted = false) {destination : SocketAddr} :
    state.connectTcp destination ≠ .ok result := by
  intro htcp
  simp only [State.connectTcp, bind_eq_ok, ensure_eq_ok, hlimited, Bool.false_eq_true, false_and,
    exists_const] at htcp

theorem checked_interceptedConnection (hlimited : setup.state.unrestricted = false) {header : Bytes}
    (hintercepted : interceptedConnection lib setup header chunks = .ok result) :
    ∀ job ∈ result, job.Checked lib setup.state := by
  simp only [interceptedConnection, bind_eq_ok] at hintercepted
  obtain ⟨_, _, _, _, hintercepted⟩ := hintercepted
  split at hintercepted
  · simp only [bind_eq_ok] at hintercepted
    obtain ⟨_, _, _, _, hresult⟩ := hintercepted
    split at hresult
    · exact checked_transparentHttpsConnection hlimited hresult
    · split at hresult
      · rw [pure_eq_ok] at hresult
        rw [← hresult]
        intro job hjob
        exact checked_httpConnection hjob
      · exact absurd hresult (connectTcp_ne_ok hlimited)
  · cases hintercepted

/-! ## DNS -/

/-- What is read back from an encoded message is the message. -/
def ReadsBack (lib : ProxyLibraries) : Prop :=
  ∀ message bytes, lib.serializeMessage message = some bytes → lib.parseMessage bytes = some message

theorem answers_answerQuestion {hosts : List String} {query : DnsMessage} {question : DnsQuestion}
    {record : DnsRecord} (hrecord : record ∈ (answerQuestion (some hosts) query question).answers) :
    toAsciiLowercase (trimEndDots record.name) ∈ hosts := by
  simp only [answerQuestion, any_some] at hrecord
  split at hrecord
  · cases hrecord
  · split at hrecord
    · cases hrecord
    · rename_i hlisted
      split at hrecord
      · rw [mem_singleton] at hrecord
        rw [hrecord]
        simpa using hlisted
      · cases hrecord

theorem checked_networkDnsResponse (hback : ReadsBack lib) {source : IpAddr}
    (hdns : networkDnsResponse lib (some state.hosts) networkDns source bytes = .ok result) :
    ∀ job ∈ result, job.Checked lib state := by
  simp only [networkDnsResponse, dnsResponse, bind_eq_ok] at hdns
  obtain ⟨encoded, ⟨query, _, _, _, hencoded⟩, hdns⟩ := hdns
  split at hencoded
  · rename_i question _
    rw [context_eq_ok] at hencoded
    split at hdns
    · simp only [bind_eq_ok, context_eq_ok, hback _ _ hencoded, some.injEq, exists_eq_left'] at hdns
      split at hdns
      · rw [pure_eq_ok] at hdns
        simp [← hdns]
      · rename_i record _ _ _ _ _ hanswers
        rw [pure_eq_ok] at hdns
        intro job hjob
        rw [← hdns, mem_singleton] at hjob
        rw [hjob]
        have hrecord : record ∈ (answerQuestion (some state.hosts) query question).answers := by
          rw [hanswers]
          exact mem_cons_self
        exact answers_answerQuestion hrecord
      · cases hdns
    · rw [pure_eq_ok] at hdns
      simp [← hdns]
  · cases hencoded

/-! ## Jobs of a connection -/

theorem forall_jobsOf {result : Except String (List Job)} {P : Job → Prop}
    (hresult : ∀ jobs, result = .ok jobs → ∀ job ∈ jobs, P job) : ∀ job ∈ jobsOf result, P job := by
  cases result with
  | error message => simp [jobsOf, Except.toOption]
  | ok jobs => exact hresult jobs rfl

/-- Every path makes its checks before it asks for anything. -/
theorem checked_of_mem_jobs (hback : ReadsBack lib) (hlimited : setup.state.unrestricted = false)
    (hdns : setup.dnsHosts = some setup.state.hosts) (entry : Entry) :
    ∀ job ∈ jobs lib setup entry, job.Checked lib setup.state := by
  cases entry with
  | http bytes => exact fun job hjob ↦ checked_httpConnection hjob
  | https chunks =>
    exact forall_jobsOf fun result hresult ↦ checked_transparentHttpsConnection hlimited hresult
  | explicit allowHttp bytes =>
    intro job hjob
    obtain ⟨⟨request, upgraded⟩, _, hjob⟩ := mem_flatMap.1 hjob
    exact forall_jobsOf (fun result hresult ↦ checked_proxyRequest hlimited hresult) job hjob
  | connectStream authority bytes =>
    apply forall_jobsOf
    intro result hresult
    simp only [serveHttpsConnect, bind_eq_ok] at hresult
    obtain ⟨host, hhost, htls⟩ := hresult
    exact checked_connected hhost htls
  | intercepted header chunks =>
    exact forall_jobsOf fun result hresult ↦ checked_interceptedConnection hlimited hresult
  | dns source bytes =>
    rw [jobs, hdns]
    exact forall_jobsOf fun result hresult ↦ checked_networkDnsResponse hback hresult

/-! ## Forwarding -/

/-- What the destination of a request says about its names. -/
structure Addressed (lib : ProxyLibraries) (state : State) (request : Request) (sni : Option String)
    (host : String) (port : ℕ) (url : Url) : Prop where
  listed : state.allowsHost host = true
  port_eq : port = if sni.isSome then 443 else 80
  allowed : allowsTcpPort state.allowedTcpPorts port = true
  header : ∃ authority, hostAuthority lib request.headers = .ok authority ∧
    canonicalEgressHost authority.host = .ok host ∧ authority.port.getD port = port
  server : ∀ name ∈ sni, canonicalEgressHost name = .ok host
  urlHost : url.hostStr = some host
  urlPort : url.port = some port

theorem addressed_of_destination {url : Url}
    (hdestination : state.destination lib request sni = .ok (destination, url)) :
    Addressed lib state request sni destination.host destination.port url := by
  simp only [State.destination, bind_eq_ok, ensure_eq_ok, checkPort_eq_ok, checkSome_eq_ok,
    ensureHost_eq_ok, context_eq_ok, pure_eq_ok, beq_iff_eq, Bool.and_eq_true] at hdestination
  obtain ⟨_, _, _, _, _, _, authority, hauthority, host, hhost, _, hlisted, _, hallowed, _, hport, _,
    hserver, path, _, _, _, parsed, _, _, ⟨hurlHost, hurlPort⟩, heq⟩ := hdestination
  cases heq
  exact
    { listed := hlisted
      port_eq := rfl
      allowed := hallowed
      header := ⟨authority, hauthority, hhost, hport⟩
      server := hserver
      urlHost := hurlHost
      urlPort := hurlPort }

/-- Every pooled client is bound to the addresses it is pooled for. -/
def Pool.Bound (pool : Pool) : Prop :=
  ∀ entry ∈ pool, entry.2.client = ⟨entry.1.1, entry.2.addresses⟩

theorem publicIpv4_of_resolve {answer : Except String (List SocketAddr)}
    {addresses : List SocketAddr} (hresolve : upstream.resolve answer = .ok addresses)
    (hpublic : upstream = .publicOnly) : ∀ address ∈ addresses, publicIpv4 address.ip = true := by
  rw [hpublic] at hresolve
  simp only [UpstreamResolver.resolve, bind_eq_ok, pure_eq_ok] at hresolve
  obtain ⟨found, _, _, _, rfl⟩ := hresolve
  intro address haddress
  exact (mem_filter.1 haddress).2

theorem mem_of_lookup {key : String × ℕ} {cached : PooledClient}
    (hlookup : pool.lookup key = some cached) : (key, cached) ∈ pool := by
  induction pool with
  | nil => cases hlookup
  | cons entry rest ih =>
    rw [lookup_cons] at hlookup
    split at hlookup
    · rename_i heq
      cases hlookup
      rw [eq_of_beq heq]
      exact mem_cons_self
    · exact mem_cons_of_mem _ (ih hlookup)

/-- Whether pooled or new, a client is bound to the addresses asked for. -/
theorem pooledClient_spec (hbound : pool.Bound) (key : String × ℕ) (addresses : List SocketAddr) :
    (pooledClient answers pool key addresses).1.Bound ∧
      ∀ client, (pooledClient answers pool key addresses).2 = .ok client →
        client = ⟨key.1, addresses⟩ := by
  rw [pooledClient]
  split
  · rename_i cached hcached
    rw [filter_eq_some_iff, beq_iff_eq] at hcached
    have hentry := hbound _ (mem_of_lookup hcached.1)
    refine ⟨hbound, ?_⟩
    intro client hok
    cases hok
    rw [hentry, hcached.2]
  · split
    · refine ⟨hbound, ?_⟩
      intro client hok
      cases hok
    · refine ⟨forall_mem_cons.2 ⟨rfl, hbound⟩, ?_⟩
      intro client hok
      cases hok
      rfl

theorem mem_sortAddresses {found : List SocketAddr} {address : SocketAddr} :
    address ∈ sortAddresses found ↔ address ∈ found := by
  rw [sortAddresses, mem_dedup, mem_insertionSort]

/-- A client connects to addresses that the host resolves to now. -/
theorem client_spec (hbound : pool.Bound) (host : String) (port : ℕ) :
    (state.client answers pool host port).1.Bound ∧
      ∀ client, (state.client answers pool host port).2 = .ok client → client.host = host ∧
        (state.upstream = .publicOnly →
          ∀ address ∈ client.addresses, publicIpv4 address.ip = true) := by
  rw [State.client]
  split
  · refine ⟨hbound, ?_⟩
    intro client hok
    cases hok
  · rename_i found hresolve
    obtain ⟨hlater, hclient⟩ := pooledClient_spec hbound (host, port) (sortAddresses found)
    refine ⟨hlater, ?_⟩
    intro client hok
    rw [hclient client hok]
    refine ⟨rfl, ?_⟩
    intro hpublic address haddress
    exact publicIpv4_of_resolve hresolve hpublic address (mem_sortAddresses.1 haddress)

/-- The client writes the Host header of a request by itself. -/
theorem name_ne_host_of_forwardTo {bindings : List Binding} {world : World} {headers : List Header}
    {tls : Bool} {requests : List Sent} {sent : Sent}
    (hforward : forwardTo lib.toLibraries bindings world headers destination tls = .ok requests)
    (hsent : sent ∈ requests) : ∀ header ∈ sent.headers, header.name ≠ "host" := by
  obtain ⟨_, stripped, n, _, hattempt⟩ := attempt_of_forwardTo hforward hsent
  simp only [attempt, bind_eq_ok, pure_eq_ok] at hattempt
  obtain ⟨_, _, rfl⟩ := hattempt
  intro header hheader
  have hkept := (mem_filter.1 hheader).2
  simp only [Bool.and_eq_true, bne_iff_ne, ne_eq] at hkept
  exact hkept.1

theorem forward_spec (hbound : pool.Bound) (request : Request) (sni : Option String) :
    (state.forward lib answers pool request sni).1.Bound ∧
      ∀ url client requests,
        (state.forward lib answers pool request sni).2 = .ok (url, client, requests) →
        ∃ host port, Addressed lib state request sni host port url ∧ client.host = host ∧
          (state.upstream = .publicOnly →
            ∀ address ∈ client.addresses, publicIpv4 address.ip = true) ∧
          ∀ sent ∈ requests, ∀ header ∈ sent.headers, header.name ≠ "host" := by
  rw [State.forward]
  split
  · refine ⟨hbound, ?_⟩
    intro url client requests hok
    cases hok
  · rename_i destination parsed haccept
    obtain ⟨hlater, hclient⟩ := client_spec hbound destination.host destination.port
    refine ⟨hlater, ?_⟩
    intro url client requests hok
    simp only [bind_eq_ok, pure_eq_ok] at hok
    obtain ⟨found, hfound, sends, hsends, heq⟩ := hok
    cases heq
    simp only [State.accept, bind_eq_ok, pure_eq_ok] at haccept
    obtain ⟨⟨checked, address⟩, hdestination, _, _, _, _, heq⟩ := haccept
    cases heq
    obtain ⟨hhost, hpublic⟩ := hclient client hfound
    exact ⟨_, _, addressed_of_destination hdestination, hhost, hpublic,
      fun sent hsent ↦ name_ne_host_of_forwardTo hsends hsent⟩

/-! ## Runs -/

/-- For a URL of its host, a client connects to addresses it is bound to, at the port of the URL. -/
def DialsBound (lib : ProxyLibraries) : Prop :=
  ∀ client url, url.hostStr = some client.host → ∀ address ∈ lib.dial client url,
    some address.port = url.port ∧ ∃ bound ∈ client.addresses, address.ip = bound.ip

/-- What reaches the network is for a listed host.  A request goes to the port of its scheme; the
Host header, the server name and the authority of a CONNECT that the sandbox has sent, and the URL,
all name the host; with the built-in resolver only public addresses are connected to.  A tunnel
through the external proxy is asked for by the server name.  A lookup may spell the host in other
cases. -/
def Confined (lib : ProxyLibraries) (hosts : List String) (ports : Option (List ℕ))
    (upstream : UpstreamResolver) (external : Option ExternalProxyConfig) : Upstream → Prop
  | .request request sni connect url sent addresses => ∃ host ∈ hosts, ∃ port,
      port = (if sni.isSome then 443 else 80) ∧ allowsTcpPort ports port = true ∧
      (∃ authority, hostAuthority lib request.headers = .ok authority ∧
        canonicalEgressHost authority.host = .ok host ∧ authority.port.getD port = port) ∧
      (∀ name ∈ sni, canonicalEgressHost name = .ok host) ∧
      (∀ text ∈ connect, ∃ authority, lib.parseAuthority text = some authority ∧
        authority.port = some port ∧ canonicalEgressHost authority.host = .ok host) ∧
      url.hostStr = some host ∧ url.port = some port ∧
      (∀ header ∈ sent.headers, header.name ≠ "host") ∧
      (upstream = .publicOnly → ∀ address ∈ addresses,
        publicIpv4 address.ip = true ∧ address.port = port)
  | .proxied proxy sni authority _ =>
    external = some proxy ∧ allowsTcpPort ports 443 = true ∧
      ∃ host ∈ hosts, canonicalEgressHost sni = .ok host ∧ authority = host ++ ":443"
  | .direct .. => False
  | .tcp .. => False
  | .lookup host => toAsciiLowercase host ∈ hosts

/-- A job that passed its checks reaches a listed host only, and leaves the pool in order. -/
theorem perform_spec (hdial : DialsBound lib) (hlimited : setup.state.unrestricted = false)
    (hbound : pool.Bound) (hjob : job.Checked lib setup.state) :
    (perform lib setup answers pool job).1.Bound ∧
      ∀ event ∈ (perform lib setup answers pool job).2,
        Confined lib setup.state.hosts setup.state.allowedTcpPorts setup.state.upstream
          setup.state.external event := by
  cases job with
  | forward request sni connect =>
    obtain ⟨hlater, hforward⟩ := forward_spec hbound request sni
    rw [perform]
    split
    · rename_i later message hresult
      rw [hresult] at hlater
      exact ⟨hlater, by simp⟩
    · rename_i later url client requests hresult
      rw [hresult] at hlater hforward
      refine ⟨hlater, ?_⟩
      intro event hevent
      obtain ⟨sent, hsent, rfl⟩ := mem_map.1 hevent
      obtain ⟨host, port, haddressed, hhost, hpublic, hnames⟩ := hforward url client requests rfl
      have hlisted := mem_hosts_of_allowsHost hlimited haddressed.listed
      refine ⟨host, hlisted, port, haddressed.port_eq, haddressed.allowed, haddressed.header,
        haddressed.server, ?_, haddressed.urlHost, haddressed.urlPort, hnames sent hsent, ?_⟩
      · -- Inside a tunnel the server name ties the authority of the CONNECT to the host.
        intro text htext
        obtain ⟨authority, named, name, hparse, hport, hcanonical, hsni, hname⟩ := hjob text htext
        have hsame : named = host := by
          have hserver := haddressed.server name hsni
          rw [hname] at hserver
          exact Except.ok.inj hserver
        have hsecure : port = 443 := by
          rw [haddressed.port_eq, hsni]
          rfl
        rw [hsecure, ← hsame]
        exact ⟨authority, hparse, hport, hcanonical⟩
      · intro hupstream address haddress
        have hurl : url.hostStr = some client.host := by rw [hhost, haddressed.urlHost]
        obtain ⟨hport, bound, hmem, hip⟩ := hdial client url hurl address haddress
        rw [haddressed.urlPort] at hport
        exact ⟨by rw [hip]; exact hpublic hupstream bound hmem, some.inj hport⟩
  | tunnel proxy sni host =>
    refine ⟨hbound, ?_⟩
    intro event hevent
    rw [perform, mem_singleton] at hevent
    rw [hevent]
    obtain ⟨hexternal, hport, hlisted, hsni⟩ := hjob
    exact ⟨hexternal, hport, host, hlisted, hsni, rfl⟩
  | direct host => exact hjob.elim
  | tcp destination => exact hjob.elim
  | lookup host =>
    refine ⟨hbound, ?_⟩
    intro event hevent
    rw [perform, mem_singleton] at hevent
    rw [hevent]
    exact hjob

section
variable (hdial : DialsBound lib) (hback : ReadsBack lib)
  (hlimited : setup.state.unrestricted = false) (hdns : setup.dnsHosts = some setup.state.hosts)
  (hbound : pool.Bound)
include hdial hback hlimited hdns hbound

theorem performLabel_spec (label : Label) : (performLabel lib setup pool label).1.Bound ∧
      ∀ event ∈ (performLabel lib setup pool label).2,
        Confined lib setup.state.hosts setup.state.allowedTcpPorts setup.state.upstream
          setup.state.external event := by
  rw [performLabel]
  split
  · rename_i job hjob
    have hchecked := checked_of_mem_jobs hback hlimited hdns label.entry job (mem_of_getElem? hjob)
    exact perform_spec hdial hlimited hbound hchecked
  · exact ⟨hbound, by simp⟩

/-- In every run, from any pool in order. -/
theorem confined_of_mem_collect (labels : List Label) : ∀ event ∈ (egressSystem lib setup).collect
        (fun pool label ↦ (performLabel lib setup pool label).2) pool labels,
      Confined lib setup.state.hosts setup.state.allowedTcpPorts setup.state.upstream
        setup.state.external event := by
  induction labels generalizing pool with
  | nil =>
    intro event hevent
    cases hevent
  | cons label labels ih =>
    obtain ⟨hlater, hevents⟩ := performLabel_spec hdial hback hlimited hdns hbound label
    intro event hevent
    rcases mem_append.1 hevent with hnow | hrest
    · exact hevents event hnow
    · exact ih hlater event hrest

end

/-! ## The policy -/

/-- What a policy that lists hosts is set up as. -/
theorem setup_of_limited {uuid : ℕ → Fin (2 ^ 128)} {sandboxId : String} {policy : EgressPolicy}
    {allowedHosts : List String} (hpolicy : policy.networking = .limited allowedHosts)
    {resolver : Bool} {placeholders : Option (List (String × Bytes))} {token : Bytes}
    {authorize : Bytes → Bytes → String → Except String Bool}
    (hsetup : Setup.new lib uuid sandboxId policy resolver upstream placeholders external networkDns
      token authorize = .ok setup) :
    canonicalEgressHosts allowedHosts = .ok setup.state.hosts ∧
      setup.state.unrestricted = false ∧ setup.dnsHosts = some setup.state.hosts ∧
      setup.state.allowedTcpPorts = policy.allowedTcpPorts ∧ setup.state.upstream = upstream ∧
      setup.state.external = external := by
  simp only [Setup.new, State.new, bind_eq_ok, pure_eq_ok, policyHosts, transportHosts,
    hpolicy] at hsetup
  obtain ⟨state, ⟨_, _, _, _, _, _, hosts, hhosts, _, _, _, _, bindings, _, rfl⟩, _,
    ⟨listed, hlisted, rfl⟩, rfl⟩ := hsetup
  rw [hhosts] at hlisted
  cases hlisted
  exact ⟨hhosts, rfl, rfl, rfl, rfl, rfl⟩

/-- A policy that lists hosts confines whatever the sandbox sends, on every path and in every order
of the connections. -/
theorem limited_policy_confines (lib : ProxyLibraries) (hdial : DialsBound lib)
    (hback : ReadsBack lib) (uuid : ℕ → Fin (2 ^ 128)) (sandboxId : String) (policy : EgressPolicy)
    (allowedHosts : List String) (hpolicy : policy.networking = .limited allowedHosts)
    (resolver : Bool) (upstream : UpstreamResolver)
    (placeholders : Option (List (String × Bytes))) (external : Option ExternalProxyConfig)
    (networkDns : Bool) (token : Bytes) (authorize : Bytes → Bytes → String → Except String Bool)
    (setup : Setup)
    (hsetup : Setup.new lib uuid sandboxId policy resolver upstream placeholders external networkDns
      token authorize = .ok setup) :
    ∃ hosts, canonicalEgressHosts allowedHosts = .ok hosts ∧
      ∀ labels, ∀ event ∈ upstreamOf lib setup labels,
        Confined lib hosts policy.allowedTcpPorts upstream external event := by
  obtain ⟨hhosts, hlimited, hdns, hports, hupstream, hexternal⟩ := setup_of_limited hpolicy hsetup
  refine ⟨setup.state.hosts, hhosts, ?_⟩
  intro labels event hevent
  have hempty : Pool.Bound [] := by simp [Pool.Bound]
  have hconfined :=
    confined_of_mem_collect hdial hback hlimited hdns hempty labels event hevent
  rwa [hports, hupstream, hexternal] at hconfined

/-! ## A policy that lists `api.example` -/

def apiPolicy : EgressPolicy := ⟨.limited ["API.example"], none, []⟩

/-- A ClientHello with the server name `api.example`. -/
def apiHello : Bytes :=
  [22, 3, 1, 0, 83, 1, 0, 0, 79, 3, 3] ++ (List.range 32).map UInt8.ofNat ++
    [0, 0, 2, 192, 47, 1, 0, 0, 36, 0, 0, 0, 16, 0, 14, 0, 0, 11] ++ bytesOf "api.example" ++
    [0, 10, 0, 4, 0, 2, 0, 29, 0, 13, 0, 4, 0, 2, 4, 3]

/-- A query for the address of `API.example`, the bytes it has, and those of the response. -/
def apiQuestion : DnsQuestion := ⟨"API.example.", true, true⟩

def apiQuery : DnsMessage :=
  { id := 1, query := true, recursionDesired := true, questions := [apiQuestion] }

def apiResponse : DnsMessage := answerQuestion (some ["api.example"]) apiQuery apiQuestion

def apiQuestionBytes : Bytes := 3 :: bytesOf "API" ++ 7 :: bytesOf "example" ++ [0, 0, 1, 0, 1]

def apiQueryBytes : Bytes := [0, 1, 1, 0, 0, 1, 0, 0, 0, 0, 0, 0] ++ apiQuestionBytes

def apiResponseBytes : Bytes :=
  [0, 1, 129, 0, 0, 1, 0, 1, 0, 0, 0, 0] ++ apiQuestionBytes ++
    [192, 12, 0, 1, 0, 1, 0, 0, 0, 0, 0, 4, 192, 0, 2, 1]

def plainUrl : Url :=
  { scheme := "http", host := some (.domain "api.example"), hostStr := some "api.example",
    port := some 80, path := "/", origin := "http://api.example", text := "http://api.example/" }

def plainBytes : Bytes := bytesOf "GET / HTTP/1.1\r\nHost: Api.example\r\n\r\n"

def plainRequest : Request :=
  ⟨"GET", ⟨none, none, "/", none, some "/"⟩, [⟨"host", bytesOf "Api.example"⟩]⟩

/-- The libraries, as far as the bytes below reach them. -/
def plainLibraries : ProxyLibraries where
  parseUrl text := if text == plainUrl.text then some plainUrl else none
  toStr := apiLibraries.toStr
  fromStr := apiLibraries.fromStr
  headerName := apiLibraries.headerName
  encode := apiLibraries.encode
  decode := apiLibraries.decode
  parseAuthority text :=
    if text == bytesOf "Api.example" then some ⟨text, "Api.example", none⟩ else none
  parseUri _ := none
  httpRequests bytes := if bytes == plainBytes then [(plainRequest, [])] else []
  tlsAccept _ := none
  clientHello bytes := .ok (if bytes == apiHello then some (some "api.example") else none)
  certificate _ := true
  dial client url := match url.port with
    | some port => if url.hostStr == some client.host then
        client.addresses.map fun address ↦ ⟨address.ip, port⟩ else []
    | none => []
  parseMessage bytes :=
    if bytes == apiResponseBytes then some apiResponse
    else if bytes == apiQueryBytes then some apiQuery else none
  serializeMessage message := if message == apiResponse then some apiResponseBytes else none

theorem dialsBound_plainLibraries : DialsBound plainLibraries := by
  intro client url hhost address haddress
  cases hport : url.port with
  | none => simp [plainLibraries, hport] at haddress
  | some port =>
    simp only [plainLibraries, hport, hhost, BEq.rfl, if_true] at haddress
    obtain ⟨bound, hbound, rfl⟩ := mem_map.1 haddress
    exact ⟨rfl, bound, hbound, rfl⟩

theorem readsBack_plainLibraries : ReadsBack plainLibraries := by
  intro message bytes hencoded
  simp only [plainLibraries] at hencoded ⊢
  split at hencoded <;> cases hencoded
  rename_i heq
  rw [if_pos BEq.rfl, eq_of_beq heq]

def localProxy : ExternalProxyConfig :=
  { url := { scheme := "http", host := some (.ip (.v4 127 0 0 1)), hostStr := some "127.0.0.1",
             port := some 3128, path := "/", origin := "http://127.0.0.1:3128",
             text := "http://127.0.0.1:3128/" },
    username := "exo", password := "secret", caPem := "", environment := [] }

section
variable (external : Option ExternalProxyConfig)

def apiState : State :=
  ⟨external, ["api.example"], false, none, [], .publicOnly⟩

def apiSetup : Setup :=
  ⟨apiState external, some ["api.example"], true, [], fun _ _ _ ↦ .ok false⟩

end

theorem apiSetup_eq
    (hstate : (State.new plainLibraries (fun _ ↦ 0) "sandbox" apiPolicy false .publicOnly none
      external).toOption = some (apiState external)) :
    Setup.new plainLibraries (fun _ ↦ 0) "sandbox" apiPolicy false .publicOnly none external true []
      (fun _ _ _ ↦ .ok false) = .ok (apiSetup external) := by
  have hhosts : (canonicalEgressHosts ["API.example"]).toOption = some ["api.example"] := by
    decide +kernel
  rw [Setup.new, eq_ok_of_toOption hstate]
  simp only [apiPolicy, transportHosts, eq_ok_of_toOption hhosts]
  rfl

def apiAnswers : Answers where
  lookup := .ok [⟨.v4 10 0 0 1, 80⟩, ⟨.v4 93 184 215 14, 80⟩]
  build := .ok ()
  proxy := .ok [⟨.v4 127 0 0 1, 3128⟩]
  world := apiWorld "alpha"

/-- One plain request is sent, to the public address of the two that were found. -/
theorem limited_policy_confines_plain :
    Upstream.request plainRequest none none plainUrl ⟨[], []⟩ [⟨.v4 93 184 215 14, 80⟩] ∈
        upstreamOf plainLibraries (apiSetup none) [⟨.http plainBytes, 0, apiAnswers⟩] ∧
      ∃ hosts, canonicalEgressHosts ["API.example"] = .ok hosts ∧
        Confined plainLibraries hosts none .publicOnly none
          (.request plainRequest none none plainUrl ⟨[], []⟩ [⟨.v4 93 184 215 14, 80⟩]) := by
  have hsent : Upstream.request plainRequest none none plainUrl ⟨[], []⟩
      [⟨.v4 93 184 215 14, 80⟩] ∈
        upstreamOf plainLibraries (apiSetup none) [⟨.http plainBytes, 0, apiAnswers⟩] := by
    decide +kernel
  obtain ⟨hosts, hhosts, hconfined⟩ := limited_policy_confines plainLibraries
    dialsBound_plainLibraries readsBack_plainLibraries (fun _ ↦ 0) "sandbox" apiPolicy
    ["API.example"] rfl false .publicOnly none none true [] (fun _ _ _ ↦ .ok false) (apiSetup none)
    (apiSetup_eq (by decide +kernel))
  exact ⟨hsent, hosts, hhosts, hconfined _ _ hsent⟩

/-- With the built-in resolver the external proxy is connected to at a loopback address and a port of
its own, and a host is looked up in the spelling of the query. -/
theorem external_proxy_is_not_confined :
    Setup.new plainLibraries (fun _ ↦ 0) "sandbox" apiPolicy false .publicOnly none (some localProxy)
        true [] (fun _ _ _ ↦ .ok false) = .ok (apiSetup (some localProxy)) ∧
      (∃ hosts, canonicalEgressHosts ["API.example"] = .ok hosts ∧
        Upstream.lookup "API.example" ∈ upstreamOf plainLibraries (apiSetup (some localProxy))
          [⟨.dns (.v4 10 0 0 2) apiQueryBytes, 0, apiAnswers⟩] ∧ "API.example" ∉ hosts) ∧
      Upstream.proxied localProxy "api.example" "api.example:443" [⟨.v4 127 0 0 1, 3128⟩] ∈
        upstreamOf plainLibraries (apiSetup (some localProxy))
          [⟨.https [apiHello], 0, apiAnswers⟩] ∧
      publicIpv4 (.v4 127 0 0 1) = false := by
  have hhosts : (canonicalEgressHosts ["API.example"]).toOption = some ["api.example"] := by
    decide +kernel
  refine ⟨apiSetup_eq (by decide +kernel), ⟨_, eq_ok_of_toOption hhosts, ?_, by decide +kernel⟩, ?_,
    by decide +kernel⟩
  · decide +kernel
  · decide +kernel

end Exo.Egress
