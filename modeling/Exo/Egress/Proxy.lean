import Exo.Egress.Credentials

/-!
# The state of a proxy and the requests it forwards

A proxy is set up from the network policy of a sandbox.  A request names its destination by its Host
header; the proxy checks it against the policy, looks the host up, and sends the request with a client
that is bound to the addresses it found.
-/

namespace Exo.Egress

open Library

structure SocketAddr where
  ip : IpAddr
  port : ℕ
  deriving DecidableEq

/-- Unicast addresses that are not reserved for a special purpose. -/
def publicIpv4 : IpAddr → Bool
  | .v6 _ => false
  | .v4 a b c _ =>
    ! (a == 0 || a == 10 || a == 127 || 224 ≤ a || (a == 100 && 64 ≤ b && b ≤ 127) ||
      (a == 169 && b == 254) || (a == 172 && 16 ≤ b && b ≤ 31) || (a == 192 && b == 168) ||
      (a == 192 && b == 0 && (c == 0 || c == 2)) || (a == 192 && b == 88 && c == 99) ||
      (a == 198 && (b == 18 || b == 19)) || (a == 198 && b == 51 && c == 100) ||
      (a == 203 && b == 0 && c == 113))

/-- `http::uri::Authority`. -/
structure Authority where
  text : Bytes
  host : String
  port : Option ℕ
  deriving DecidableEq

structure Uri where
  scheme : Option String
  authority : Option Authority
  path : String
  query : Option String
  pathAndQuery : Option String
  deriving DecidableEq

structure Request where
  method : String
  uri : Uri
  headers : List Header
  deriving DecidableEq

/-- A client bound to the addresses of one host. -/
structure Client where
  host : String
  addresses : List SocketAddr

inductive ResponseCode where
  | noError
  | servFail
  | nxDomain
  | refused
  deriving DecidableEq

structure DnsQuestion where
  name : String
  classIn : Bool
  recordA : Bool
  deriving DecidableEq

/-- An address record. -/
structure DnsRecord where
  name : String
  ttl : ℕ
  address : IpAddr
  deriving DecidableEq

structure DnsMessage where
  id : ℕ
  /-- `message_type() == MessageType::Query`. -/
  query : Bool
  /-- `op_code() == OpCode::Query`. -/
  opQuery : Bool := true
  recursionDesired : Bool
  questions : List DnsQuestion
  answers : List DnsRecord := []
  code : ResponseCode := .noError
  deriving DecidableEq

/-- What the proxy takes from other packages beside the handling of headers. -/
structure ProxyLibraries extends Libraries where
  parseAuthority : Bytes → Option Authority
  parseUri : String → Option Uri
  /-- The requests of an HTTP connection, each with the bytes that follow it. -/
  httpRequests : Bytes → List (Request × Bytes)
  /-- A TLS connection that was accepted: the server name and the bytes inside. -/
  tlsAccept : Bytes → Option (Option String × Bytes)
  /-- The server name of a ClientHello, once it is complete. -/
  clientHello : Bytes → Except String (Option (Option String))
  /-- `reqwest::Certificate::from_pem` succeeds. -/
  certificate : String → Bool
  /-- The addresses a client may connect to for a URL. -/
  dial : Client → Url → List SocketAddr
  parseMessage : Bytes → Option DnsMessage
  serializeMessage : DnsMessage → Option Bytes

inductive SandboxNetworkPolicy where
  | unrestricted
  | disabled
  | limited (allowedHosts : List String)
  deriving DecidableEq

structure EgressPolicy where
  networking : SandboxNetworkPolicy
  allowedTcpPorts : Option (List ℕ)
  credentials : List EgressCredentialBinding
  deriving DecidableEq

structure ExternalProxyConfig where
  url : Url
  username : String
  password : String
  caPem : String
  environment : List (String × Bytes)
  deriving DecidableEq

/-- The resolver that is built in, or one that was put in its place. -/
inductive UpstreamResolver where
  | publicOnly
  | other
  deriving DecidableEq

structure State where
  external : Option ExternalProxyConfig
  hosts : List String
  unrestricted : Bool
  allowedTcpPorts : Option (List ℕ)
  bindings : List Binding
  upstream : UpstreamResolver
  deriving DecidableEq

variable (lib : ProxyLibraries)

def ExternalProxyConfig.validate (proxy : ExternalProxyConfig) : Except String Unit := do
  let url := proxy.url
  ensure (url.scheme == "http" && url.hostStr.isSome && url.username.isEmpty &&
      url.password.isNone && url.path == "/" && url.query.isNone && url.fragment.isNone)
    "external proxy URL must be an HTTP origin"
  ensure (! proxy.username.isEmpty && ! proxy.username.toList.any [':', '\r', '\n'].contains &&
      ! proxy.password.isEmpty && ! proxy.password.toList.any ['\r', '\n'].contains &&
      proxy.username.utf8ByteSize + proxy.password.utf8ByteSize ≤ 8192)
    "invalid external proxy authorization"
  ensure (lib.certificate proxy.caPem) "invalid external proxy CA certificate"

/-- The hosts of a policy; without limits, those of the credentials. -/
def policyHosts (policy : EgressPolicy) : Except String (List String) :=
  match policy.networking with
  | .limited allowedHosts => canonicalEgressHosts allowedHosts
  | .unrestricted => policy.credentials.foldlM (fun hosts binding ↦ do
      return hosts ∪ (← binding.networking.hosts lib.toLibraries)) []
  | .disabled => .error "credential proxy requires networking"

/-- `State::new_with_placeholders`. -/
def State.new (uuid : ℕ → Fin (2 ^ 128)) (sandboxId : String) (policy : EgressPolicy)
    (resolver : Bool) (upstream : UpstreamResolver) (placeholders : Option (List (String × Bytes)))
    (external : Option ExternalProxyConfig) : Except String State := do
  checkSome external (·.validate lib)
  ensure (policy.allowedTcpPorts.all fun ports ↦ ports.all (· != 0))
    "policy.allowed_tcp_ports cannot contain port zero"
  ensure (! sandboxId.isEmpty) "egress identity is required"
  let hosts ← policyHosts lib policy
  ensure (policy.credentials.isEmpty || resolver || external.isSome)
    "credential substitution requires an egress credential resolver"
  ensure (external.isSome || placeholders.all fun placeholders ↦
      placeholders.length == policy.credentials.length)
    "placeholder map must match credential bindings"
  let bindings ← prepareBindings lib.toLibraries uuid policy.credentials
    ((external.map (·.environment)).or placeholders)
  return { external, hosts, unrestricted := policy.networking == .unrestricted,
           allowedTcpPorts := policy.allowedTcpPorts, bindings, upstream }

/-- `EgressPolicy::allows_tcp_port`. -/
def allowsTcpPort (allowedTcpPorts : Option (List ℕ)) (port : ℕ) : Bool :=
  port != 0 && allowedTcpPorts.all fun ports ↦ ports.contains port

namespace State

variable (state : State)

def checkPort (port : ℕ) : Except String Unit :=
  ensure (allowsTcpPort state.allowedTcpPorts port) "TCP port is not allowed"

/-- `self.unrestricted || self.hosts.contains(&host)`. -/
def allowsHost (host : String) : Bool := state.unrestricted || state.hosts.contains host

def connectHost (authority : Bytes) : Except String String := do
  state.checkPort 443
  let authority ← context (lib.parseAuthority authority) "invalid uri authority"
  ensure (authority.port == some 443) "CONNECT requires port 443"
  let host ← canonicalEgressHost authority.host
  ensure (state.allowsHost host) "host is not allowed"
  return host

end State

/-- The authority of the only Host header. -/
def hostAuthority (headers : List Header) : Except String Authority := do
  ensure (headers.countP (·.name == "host") == 1) "exactly one Host header is required"
  let header ← context (headers.find? (·.name == "host")) "missing Host"
  ensure (lib.toStr header.value) "failed to convert header to a str"
  context (lib.parseAuthority header.value) "invalid uri authority"

def State.destination (state : State) (request : Request) (sni : Option String) :
    Except String (EgressDestination × Url) := do
  ensure (request.method != "CONNECT") "CONNECT is not supported on the transparent listener"
  ensure (! request.headers.any (·.name == "upgrade")) "protocol upgrades are not supported"
  ensure (request.uri.scheme.isNone && request.uri.authority.isNone) "expected origin-form request"
  let authority ← hostAuthority lib request.headers
  let host ← canonicalEgressHost authority.host
  ensure (state.allowsHost host) "host is not allowed"
  let port := if sni.isSome then 443 else 80
  state.checkPort port
  ensure (authority.port.getD port == port) "only standard HTTP ports are supported"
  checkSome sni (ensureHost host "TLS SNI and HTTP Host must match")
  let path ← context request.uri.pathAndQuery "missing request path"
  ensure (path.toList.head? == some '/' && ! ['/', '/'].isPrefixOf path.toList)
    "invalid request path"
  let scheme := if sni.isSome then "https" else "http"
  let url ← context (lib.parseUrl (scheme ++ "://" ++ host ++ path)) "invalid URL"
  ensure (url.hostStr == some host && url.port == some port) "request changed the upstream authority"
  let path := match url.query with
    | some query => url.path ++ "?" ++ query
    | none => url.path
  return (⟨host, port, request.method, path⟩, url)

/-- `UpstreamResolver::resolve`, given what the lookup has answered. -/
def UpstreamResolver.resolve (answer : Except String (List SocketAddr)) :
    UpstreamResolver → Except String (List SocketAddr)
  | .publicOnly => do
    let addresses := (← answer).filter (publicIpv4 ·.ip)
    ensure (! addresses.isEmpty) "upstream has no permitted IPv4 address"
    return addresses
  | .other => answer

structure PooledClient where
  addresses : List SocketAddr
  client : Client

abbrev Pool := List ((String × ℕ) × PooledClient)

/-- The order of addresses: first by address, then by port. -/
def SocketAddr.rank (address : SocketAddr) : ℕ :=
  match address.ip with
  | .v4 a b c d =>
    (((a.toNat * 256 + b.toNat) * 256 + c.toNat) * 256 + d.toNat) * 65536 + address.port
  | .v6 bits => 2 ^ 128 * 65536 + bits.toNat * 65536 + address.port

/-- What the rest of the world answers to one thing a connection asks for. -/
structure Answers where
  /-- What a lookup of the destination gives. -/
  lookup : Except String (List SocketAddr)
  /-- Building a client. -/
  build : Except String Unit
  /-- The addresses of the external proxy. -/
  proxy : Except String (List SocketAddr)
  world : World

/-- Sorted and without repetitions. -/
def sortAddresses (found : List SocketAddr) : List SocketAddr :=
  (found.insertionSort fun left right ↦ left.rank ≤ right.rank).dedup

/-- The pooled client of a destination, if its addresses are still the same; else a new one. -/
def pooledClient (answers : Answers) (pool : Pool) (key : String × ℕ)
    (addresses : List SocketAddr) : Pool × Except String Client :=
  match (pool.lookup key).filter fun cached ↦ cached.addresses == addresses with
  | some cached => (pool, .ok cached.client)
  | none =>
    match answers.build with
    | .error message => (pool, .error message)
    | .ok _ => ((key, ⟨addresses, ⟨key.1, addresses⟩⟩) :: pool, .ok ⟨key.1, addresses⟩)

/-- `State::client`: a client bound to the present addresses of the host. -/
def State.client (state : State) (answers : Answers) (pool : Pool) (host : String) (port : ℕ) :
    Pool × Except String Client :=
  match state.upstream.resolve answers.lookup with
  | .error _ => (pool, .error "upstream address resolution failed")
  | .ok found => pooledClient answers pool (host, port) (sortAddresses found)

end Exo.Egress
