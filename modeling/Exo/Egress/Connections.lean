import Exo.Egress.Proxy
import Exo.Library.System

/-!
# Connections out of a sandbox

Bytes leave a sandbox over the transparent listeners for HTTP and TLS, over an explicit proxy, over a
stream that was taken off a network interface, and as DNS queries.  Every one of these paths makes
its own checks; what it then asks for upstream is a job.  The connections share the pool of clients
and nothing else, so a run takes the jobs of all connections in any order.
-/

namespace Exo.Egress

open Library

/-- What a connection asks for upstream. -/
inductive Job where
  /-- `State::forward`, with the server name of the connection and the authority of a CONNECT. -/
  | forward (request : Request) (sni : Option String) (connect : Option Bytes)
  /-- `ExternalProxyConfig::connect` for a host, with the server name it was read from. -/
  | tunnel (proxy : ExternalProxyConfig) (sni : String) (host : String)
  /-- Bytes are copied to the host at port 443. -/
  | direct (host : String)
  /-- Bytes are copied to an address. -/
  | tcp (destination : SocketAddr)
  /-- The addresses of a host are asked for. -/
  | lookup (host : String)

/-- A proxy with the services around it. -/
structure Setup where
  state : State
  /-- The hosts that DNS answers for. -/
  dnsHosts : Option (List String)
  /-- Whether DNS gives real addresses. -/
  networkDns : Bool
  /-- The token of the network interface. -/
  token : Bytes
  /-- `ProxyAuthorizer::authorize`: whether the session of this proxy is granted. -/
  authorize : Bytes → Bytes → String → Except String Bool

variable (lib : ProxyLibraries) (setup : Setup)

def httpConnection (sni : Option String) (connect : Option Bytes) (bytes : Bytes) : List Job :=
  (lib.httpRequests bytes).map fun (request, _) ↦ .forward request sni connect

/-- The server name of a TLS connection and the bytes inside it. -/
def httpsConnection (connectHost : Option String) (bytes : Bytes) : Except String (String × Bytes) := do
  let (name, inside) ← context (lib.tlsAccept bytes) "TLS handshake failed"
  let sni ← context name "TLS SNI is required"
  checkSome connectHost (ensureHost · "CONNECT host and TLS SNI must match" sni)
  return (sni, inside)

def maxClientHello : ℕ := 64 * 1024

/-- Reads until the ClientHello is complete; gives the server name and the host it names. -/
def peekClientHello (read : Bytes) : List Bytes → Except String (String × String)
  | [] => .error "TLS connection closed before ClientHello"
  | chunk :: rest => do
    ensure (! chunk.isEmpty) "TLS connection closed before ClientHello"
    ensure (read.length + chunk.length ≤ maxClientHello) "TLS ClientHello too large"
    match ← lib.clientHello (read ++ chunk) with
    | none => peekClientHello (read ++ chunk) rest
    | some name =>
      let name ← context name "TLS SNI is required"
      return (name, ← canonicalEgressHost name)

/-- The requests of a TLS connection; the tunnel of a CONNECT names its authority. -/
def interceptedTls (connectHost : Option String) (connect : Option Bytes) (bytes : Bytes) :
    Except String (List Job) := do
  let (sni, inside) ← httpsConnection lib connectHost bytes
  return httpConnection lib (some sni) connect inside

/-- TLS of which only the ClientHello is read, unless the host is one to intercept. -/
def peekedTls (state : State) (tls : Bool) (chunks : List Bytes) : Except String (List Job) := do
  let (name, host) ← peekClientHello lib [] chunks
  ensure (state.allowsHost host) "host is not allowed"
  if state.hosts.contains host && tls then interceptedTls lib (some host) none chunks.flatten
  else return [match state.external with
    | some proxy => .tunnel proxy name host
    | none => .direct host]

/-- The listener has a certificate unless an external proxy handles TLS. -/
def transparentHttpsConnection (state : State) (chunks : List Bytes) : Except String (List Job) := do
  let tls := state.external.isNone
  state.checkPort 443
  if ! state.unrestricted && tls then interceptedTls lib none none chunks.flatten
  else peekedTls lib state tls chunks

/-- `serve_https_connect`. -/
def serveHttpsConnect (state : State) (authority bytes : Bytes) : Except String (List Job) := do
  let host ← state.connectHost lib authority
  interceptedTls lib (some host) (some authority) bytes

section
variable (request : Request)

def connectTarget : Except String String := do
  let uri := request.uri
  ensure (uri.scheme.isNone && uri.path.isEmpty && uri.query.isNone) "CONNECT requires authority form"
  let authority ← context uri.authority "CONNECT authority is required"
  ensure (! authority.text.contains 64 && authority.port == some 443)
    "CONNECT requires a host and port 443"
  let host ← canonicalEgressHost authority.host
  let header ← hostAuthority lib request.headers
  let named ← canonicalEgressHost header.host
  ensure (! header.text.contains 64 && header.port.all (· == 443) && named == host)
    "Host must match CONNECT authority"
  ensure (request.headers.countP (·.name == "content-length") ≤ 1 &&
      ((request.headers.find? (·.name == "content-length")).all (·.value == bytesOf "0")) &&
      ! request.headers.any (·.name == "transfer-encoding"))
    "CONNECT body is not supported"
  return host

def maxProxyPasswordBytes : ℕ := 8 * 1024

def isAsciiGraphic (byte : UInt8) : Bool := 33 ≤ byte && byte ≤ 126

def basicCredentials (headers : List Header) : Except String (Bytes × Bytes) := do
  ensure (headers.countP (·.name == "proxy-authorization") == 1)
    "exactly one Proxy-Authorization header is required"
  let header ← context (headers.find? (·.name == "proxy-authorization"))
    "Proxy-Authorization is required"
  ensure (lib.toStr header.value) "failed to convert header to a str"
  match (header.value.splitOnP fun byte ↦ byte == 32 || byte == 9).filter (! ·.isEmpty) with
  | [scheme, encoded] => do
    ensure (eqIgnoreAsciiCase scheme (bytesOf "Basic")) "Basic proxy authentication is required"
    ensure (encoded.length ≤ maxProxyPasswordBytes * 2) "invalid Basic credentials"
    let decoded ← context (lib.decode encoded) "invalid Basic credentials"
    ensure (isUtf8 decoded) "invalid utf-8 sequence"
    let (username, password) ← context (splitOnce 58 decoded)
      "Basic credentials require username and password"
    ensure (! username.isEmpty && username.all isAsciiGraphic && ! password.isEmpty &&
        password.length ≤ maxProxyPasswordBytes && password.all isAsciiGraphic)
      "invalid Basic credentials"
    return (username, password)
  | _ => .error "invalid Basic credentials"

def forwardHttp : Except String (List Job) := do
  ensure (request.uri.scheme == some "http") "proxy requires an HTTP URL"
  let authority ← context request.uri.authority "missing request authority"
  ensure (request.headers.countP (·.name == "host") == 1) "URL and Host must match"
  let header ← context (request.headers.find? (·.name == "host")) "missing Host"
  ensure (lib.toStr header.value) "failed to convert header to a str"
  ensure (header.value == authority.text) "URL and Host must match"
  let path ← context request.uri.pathAndQuery "missing path"
  let uri ← context (lib.parseUri path) "invalid uri"
  return [.forward { request with uri } none none]

/-- The tunnel of a CONNECT: what is not intercepted is copied to the host. -/
def connect (state : State) (request : Request) (upgraded : Bytes) : Except String (List Job) := do
  let authority ← context request.uri.authority "CONNECT requires an authority"
  let host ← state.connectHost lib authority.text
  if state.hosts.contains host then
    interceptedTls lib (some host) (some authority.text) upgraded
  else return [.direct host]

/-- The host a session is asked for. -/
def requestHost : Except String String :=
  if request.method == "CONNECT" then connectTarget lib request
  else do
    let authority ← context request.uri.authority "bad request"
    canonicalEgressHost authority.host

end

def proxyRequest (allowHttp : Bool) (request : Request) (upgraded : Bytes) :
    Except String (List Job) := do
  let isConnect := request.method == "CONNECT"
  ensure (isConnect || allowHttp) "method not allowed"
  let host ← requestHost lib request
  let (username, password) ← basicCredentials lib request.headers
  let granted ← setup.authorize username password host
  ensure granted "proxy authentication required"
  if isConnect then connect lib setup.state request upgraded else forwardHttp lib request

/-- `State::connect_tcp`. -/
def State.connectTcp (state : State) (destination : SocketAddr) : Except String (List Job) := do
  ensure state.unrestricted "opaque TCP requires unrestricted networking"
  state.checkPort destination.port
  ensure (publicIpv4 destination.ip) "TCP destination is not permitted"
  return [.tcp destination]

def interceptorMagic : Bytes := bytesOf "SMOLICPT" ++ [1]

/-- A stream with the address it was meant for in front: protocol, token, address family, port and
an address of four bytes; one of sixteen is refused. -/
def interceptedConnection (header : Bytes) (chunks : List Bytes) : Except String (List Job) := do
  ensure (header.take 9 == interceptorMagic) "invalid interceptor protocol"
  ensure ((header.drop 9).take 32 == setup.token) "invalid interceptor token"
  match header.drop 41 with
  | [family, high, low, a, b, c, d] =>
    let port := high.toNat * 256 + low.toNat
    ensure (family == 4 && publicIpv4 (.v4 a b c d)) "intercepted destination is not permitted"
    setup.state.checkPort port
    if port = 443 then transparentHttpsConnection lib setup.state chunks
    else if port = 80 then return httpConnection lib none none chunks.flatten
    else setup.state.connectTcp ⟨.v4 a b c d, port⟩
  | _ => .error "intercepted destination is not permitted"

def syntheticIp : IpAddr := .v4 192 0 2 1

def trimEndDots (name : String) : String :=
  .ofList (name.toList.reverse.dropWhile (· == '.')).reverse

/-- `LocalEgressTransport::for_policy`: the hosts that DNS answers for. -/
def transportHosts : SandboxNetworkPolicy → Except String (Option (List String))
  | .limited allowedHosts => do return some (← canonicalEgressHosts allowedHosts)
  | .unrestricted => return none
  | .disabled => .error "disabled networking cannot use an egress proxy"

/-- The response to a query about one name. -/
def answerQuestion (hosts : Option (List String)) (query : DnsMessage) (question : DnsQuestion) :
    DnsMessage :=
  let response : DnsMessage :=
    { id := query.id, query := false, recursionDesired := query.recursionDesired,
      questions := [question] }
  let host := toAsciiLowercase (trimEndDots question.name)
  if ! question.classIn then { response with code := .refused }
  else if hosts.any fun hosts ↦ ! hosts.contains host then { response with code := .nxDomain }
  else if question.recordA then { response with answers := [⟨question.name, 0, syntheticIp⟩] }
  else response

def dnsResponse (hosts : Option (List String)) (bytes : Bytes) : Except String Bytes := do
  let query ← context (lib.parseMessage bytes) "invalid DNS message"
  ensure (query.query && query.opQuery) "unsupported DNS query"
  match query.questions with
  | [question] =>
    let response := answerQuestion hosts query question
    context (lib.serializeMessage response) "DNS message cannot be encoded"
  | _ => .error "unsupported DNS query"

/-- `network_dns_response` up to the point where a resolver is asked. -/
def networkDnsResponse (hosts : Option (List String)) (networkDns : Bool) (source : IpAddr)
    (bytes : Bytes) : Except String (List Job) := do
  let answer ← dnsResponse lib hosts bytes
  if networkDns then do
    let answer ← context (lib.parseMessage answer) "invalid DNS message"
    match answer.answers, source with
    | [], _ => return []
    | record :: _, .v4 .. => return [.lookup (trimEndDots record.name)]
    | _ :: _, .v6 _ => .error "DNS requires an IPv4 source"
  else return []

/-- A connection or a query, with all the bytes the sandbox sends on it. -/
inductive Entry where
  | http (bytes : Bytes)
  | https (chunks : List Bytes)
  | explicit (allowHttp : Bool) (bytes : Bytes)
  | connectStream (authority bytes : Bytes)
  | intercepted (header : Bytes) (chunks : List Bytes)
  | dns (source : IpAddr) (bytes : Bytes)

/-- A failed check ends a connection, or one request of an explicit proxy. -/
def jobsOf (result : Except String (List Job)) : List Job := result.toOption.getD []

def jobs : Entry → List Job
  | .http bytes => httpConnection lib none none bytes
  | .https chunks => jobsOf (transparentHttpsConnection lib setup.state chunks)
  | .explicit allowHttp bytes => (lib.httpRequests bytes).flatMap fun (request, upgraded) ↦
      jobsOf (proxyRequest lib setup allowHttp request upgraded)
  | .connectStream authority bytes => jobsOf (serveHttpsConnect lib setup.state authority bytes)
  | .intercepted header chunks => jobsOf (interceptedConnection lib setup header chunks)
  | .dns source bytes => jobsOf (networkDnsResponse lib setup.dnsHosts setup.networkDns source bytes)

/-- What reaches the network, with the addresses that are connected to. -/
inductive Upstream where
  | request (request : Request) (sni : Option String) (connect : Option Bytes) (url : Url)
      (sent : Sent) (addresses : List SocketAddr)
  | proxied (proxy : ExternalProxyConfig) (sni : String) (authority : String)
      (addresses : List SocketAddr)
  | direct (host : String) (addresses : List SocketAddr)
  | tcp (destination : SocketAddr) (addresses : List SocketAddr)
  | lookup (host : String)
  deriving DecidableEq

/-- The part of `State::forward` before a client is asked for. -/
def State.accept (state : State) (request : Request) (sni : Option String) :
    Except String (EgressDestination × Url) := do
  let (destination, url) ← state.destination lib request sni
  validateCredentials lib.toLibraries state.bindings request.headers destination sni.isSome
  let _ ← stripHopHeaders lib.toLibraries request.headers
  return (destination, url)

/-- `State::forward`: the URL, and the requests that are sent to it with the client. -/
def State.forward (state : State) (answers : Answers) (pool : Pool) (request : Request)
    (sni : Option String) : Pool × Except String (Url × Client × List Sent) :=
  match state.accept lib request sni with
  | .error message => (pool, .error message)
  | .ok (destination, url) =>
    let (later, client) := state.client answers pool destination.host destination.port
    (later, do
      let client ← client
      let requests ← forwardTo lib.toLibraries state.bindings
        { answers.world with client := .ok () } request.headers destination sni.isSome
      return (url, client, requests))

/-- A proxy set up for a policy, with the services around it. -/
def Setup.new (uuid : ℕ → Fin (2 ^ 128)) (sandboxId : String) (policy : EgressPolicy)
    (resolver : Bool) (upstream : UpstreamResolver) (placeholders : Option (List (String × Bytes)))
    (external : Option ExternalProxyConfig) (networkDns : Bool) (token : Bytes)
    (authorize : Bytes → Bytes → String → Except String Bool) : Except String Setup := do
  let state ← State.new lib uuid sandboxId policy resolver upstream placeholders external
  let dnsHosts ← transportHosts policy.networking
  return { state, dnsHosts, networkDns, token, authorize }

/-- Connecting to the addresses a host resolves to. -/
def State.dialled (state : State) (answers : Answers) : List SocketAddr :=
  (state.upstream.resolve answers.lookup).toOption.getD []

def perform (answers : Answers) (pool : Pool) : Job → Pool × List Upstream
  | .forward request sni connect =>
    match setup.state.forward lib answers pool request sni with
    | (pool, .error _) => (pool, [])
    | (pool, .ok (url, client, requests)) =>
      (pool, requests.map fun sent ↦ .request request sni connect url sent (lib.dial client url))
  | .tunnel proxy sni host =>
    (pool, [.proxied proxy sni (host ++ ":443") (answers.proxy.toOption.getD [])])
  | .direct host => (pool, [.direct host (setup.state.dialled answers)])
  | .tcp destination => (pool, [.tcp destination (setup.state.dialled answers)])
  | .lookup host => (pool, [.lookup host])

/-- One job of a connection is done now. -/
structure Label where
  entry : Entry
  index : ℕ
  answers : Answers

def performLabel (pool : Pool) (label : Label) : Pool × List Upstream :=
  match (jobs lib setup label.entry)[label.index]? with
  | some job => perform lib setup label.answers pool job
  | none => (pool, [])

def egressSystem : System Pool Label where
  enabled _ _ := True
  next pool label := (performLabel lib setup pool label).1

/-- What reaches the network in a run. -/
def upstreamOf (labels : List Label) : List Upstream :=
  (egressSystem lib setup).collect (fun pool label ↦ (performLabel lib setup pool label).2) [] labels

end Exo.Egress
