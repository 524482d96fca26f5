import Exo.Egress.Hosts
import Exo.Library.ReplaceEach
import Exo.Storage.Paths

/-!
# Credentials of outgoing requests

A sandbox holds placeholders in the place of its credentials.  The proxy looks for them in the headers
of a request, checks that each may travel to the destination, and puts the credential in.  The check
deletes the permitted placeholders one after another and looks for what is left; the substitution
replaces them one after another.
-/

namespace Exo.Egress

open Library Storage

abbrev Bytes := List UInt8

def bytesOf (text : String) : Bytes := text.toUTF8.toList

inductive UrlHost where
  | domain (name : String)
  | ip (address : IpAddr)
  deriving DecidableEq

/-- What is read of a parsed URL. -/
structure Url where
  scheme : String
  username : String := ""
  password : Option String := none
  host : Option UrlHost
  hostStr : Option String
  /-- `port_or_known_default`. -/
  port : Option ℕ
  path : String
  query : Option String := none
  fragment : Option String := none
  /-- `origin().ascii_serialization()`. -/
  origin : String
  /-- `to_string()`. -/
  text : String
  deriving DecidableEq

/-- What the proxy takes from other packages. -/
structure Libraries where
  /-- `url::Url::parse`. -/
  parseUrl : String → Option Url
  /-- `HeaderValue::to_str` succeeds; it gives the bytes of the value. -/
  toStr : Bytes → Bool
  /-- `HeaderValue::from_str` succeeds; the value has the bytes of the text. -/
  fromStr : Bytes → Bool
  /-- `HeaderName::from_bytes`; a name is kept in lower case. -/
  headerName : Bytes → Option String
  /-- `base64::engine::general_purpose::STANDARD`. -/
  encode : Bytes → Bytes
  decode : Bytes → Option Bytes

variable (lib : Libraries)

inductive CredentialDestination where
  | origin (origin : String)
  | url (url : String)
  deriving DecidableEq

inductive CredentialNetworkPolicy where
  | limited (allowedHosts : List String)
  | destinations (allowedDestinations : List CredentialDestination)
  deriving DecidableEq

structure EgressCredentialBinding where
  name : String
  environmentVariable : String
  networking : CredentialNetworkPolicy
  /-- `injection_location.header`. -/
  header : Bool
  deriving DecidableEq

structure EgressDestination where
  host : String
  port : ℕ
  method : String
  path : String

structure Binding where
  config : EgressCredentialBinding
  hosts : List String
  placeholder : Bytes
  deriving DecidableEq

def isLoopback (url : Url) : Bool :=
  match url.host with
  | some (.domain name) => name == "localhost"
  | some (.ip (.v4 a _ _ _)) => a == 127
  | some (.ip (.v6 bits)) => bits == 1
  | none => false

namespace CredentialDestination

def parse (value : String) : Except String Url := do
  let url ← context (lib.parseUrl value) "invalid credential destination"
  ensure ((url.scheme == "http" || url.scheme == "https") && url.hostStr.isSome &&
      url.username.isEmpty && url.password.isNone && url.fragment.isNone)
    "credential destinations require an HTTP(S) URL without embedded credentials or a fragment"
  return url

/-- `CredentialDestination::origin`. -/
def ofOrigin (origin : String) : Except String CredentialDestination := do
  let url ← parse lib origin
  ensure ((url.scheme == "https" || isLoopback url) && url.path == "/" && url.query.isNone)
    "credential origins require HTTPS (or loopback HTTP) without a path or query"
  return .origin url.origin

/-- `CredentialDestination::url`. -/
def ofUrl (value : String) : Except String CredentialDestination := do
  let url ← parse lib value
  return .url url.text

def normalized : CredentialDestination → Except String CredentialDestination
  | .origin text => ofOrigin lib text
  | .url text => ofUrl lib text

def asStr : CredentialDestination → String
  | .origin text => text
  | .url text => text

def permits : CredentialDestination → CredentialDestination → Bool
  | .origin text, other => (lib.parseUrl other.asStr).any fun parsed ↦ parsed.origin == text
  | .url text, .url requested => text == requested
  | .url _, .origin _ => false

end CredentialDestination

namespace CredentialNetworkPolicy

def normalized : CredentialNetworkPolicy → Except String CredentialNetworkPolicy
  | .limited allowedHosts => do
    let allowedHosts ← canonicalEgressHosts allowedHosts
    return .limited (allowedHosts.insertionSort (· ≤ ·))
  | .destinations allowedDestinations => do
    return .destinations (← allowedDestinations.mapM (CredentialDestination.normalized lib))

def permits (policy : CredentialNetworkPolicy) (destination : CredentialDestination) : Bool :=
  match policy with
  | .limited allowedHosts =>
    (lib.parseUrl destination.asStr).any fun url ↦
      url.scheme == "https" && url.hostStr.any fun host ↦
        allowedHosts.any fun allowed ↦ toAsciiLowercase allowed == toAsciiLowercase host
  | .destinations allowedDestinations =>
    allowedDestinations.any fun allowed ↦ allowed.permits lib destination

def hosts : CredentialNetworkPolicy → Except String (List String)
  | .limited allowedHosts => canonicalEgressHosts allowedHosts
  | .destinations allowedDestinations => do
    let hosts ← allowedDestinations.mapM fun destination ↦ do
      let url ← CredentialDestination.parse lib destination.asStr
      context url.hostStr "credential destination host"
    canonicalEgressHosts hosts

end CredentialNetworkPolicy

def Binding.permitsHeader (destination : EgressDestination) (binding : Binding) : Bool :=
  binding.config.header && binding.hosts.contains destination.host &&
    match CredentialDestination.ofUrl lib
        ("https://" ++ destination.host ++ ":" ++ toString destination.port ++ destination.path) with
    | .ok destination => binding.config.networking.permits lib destination
    | .error _ => false

def placeholderPrefix : Bytes := bytesOf "exo_egress_"

/-- `Uuid::simple`. -/
def simple (uuid : Fin (2 ^ 128)) : Bytes := (paddedHex 32 uuid).map fun c ↦ .ofNat c.toNat

def isVariable (name : String) : Bool :=
  ! name.isEmpty && name.toList.zipIdx.all fun (c, i) ↦
    c == '_' || c.isAlpha || (decide (0 < i) && c.isDigit)

def isHexDigit (byte : UInt8) : Bool := isRadixDigit 16 (Char.ofNat byte.toNat)

/-- The placeholder of a variable: the one supplied, or a new one. -/
def choosePlaceholder (uuid : Fin (2 ^ 128)) (placeholders : Option (List (String × Bytes)))
    (values : List Bytes) (name : String) : Except String Bytes :=
  match placeholders with
  | some placeholders => do
    let value ← context (placeholders.lookup name) "missing credential placeholder"
    ensure (value.length == placeholderPrefix.length + 32 && placeholderPrefix.isPrefixOf value &&
        (value.drop placeholderPrefix.length).all isHexDigit && ! values.contains value)
      "invalid or duplicate credential placeholder"
    return value
  | none => return placeholderPrefix ++ simple uuid

/-- The loop of `prepare_bindings` with the variables and the placeholders seen so far. -/
def prepareFrom (uuid : ℕ → Fin (2 ^ 128)) (placeholders : Option (List (String × Bytes)))
    (seen : List String) (values : List Bytes) :
    List EgressCredentialBinding → Except String (List Binding)
  | [] => return []
  | config :: rest => do
    let networking ← config.networking.normalized lib
    let hosts ← networking.hosts lib
    ensure (! config.name.isEmpty) "credential binding name is required"
    ensure (isVariable config.environmentVariable) "invalid credential environment variable"
    ensure (! seen.contains config.environmentVariable)
      "duplicate credential environment variable"
    let placeholder ←
      choosePlaceholder (uuid seen.length) placeholders values config.environmentVariable
    let bindings ← prepareFrom uuid placeholders (config.environmentVariable :: seen)
      (placeholder :: values) rest
    return { config := { config with networking }, hosts, placeholder } :: bindings

def prepareBindings (uuid : ℕ → Fin (2 ^ 128)) (credentials : List EgressCredentialBinding)
    (placeholders : Option (List (String × Bytes))) : Except String (List Binding) :=
  prepareFrom lib uuid placeholders [] [] credentials

/-- An entry of a header map. -/
structure Header where
  name : String
  value : Bytes
  deriving DecidableEq

/-- `contains_placeholder`: one of the windows is the prefix. -/
def containsPlaceholder (value : Bytes) : Bool := decide <| placeholderPrefix <:+: value

def hopHeader (name : String) : Bool :=
  ["connection", "keep-alive", "proxy-authenticate", "proxy-authorization", "proxy-connection", "te",
    "trailer", "transfer-encoding", "upgrade"].contains name

/-- `str::split_once`. -/
def splitOnce (separator : UInt8) (text : Bytes) : Option (Bytes × Bytes) :=
  if text.contains separator then
    some (text.takeWhile (· != separator), (text.dropWhile (· != separator)).tail)
  else none

def eqIgnoreAsciiCase (text other : Bytes) : Bool :=
  let lower := List.map fun byte : UInt8 ↦ if 65 ≤ byte && byte ≤ 90 then byte + 32 else byte
  lower text == lower other

def isUtf8 (value : Bytes) : Bool := (ByteArray.mk value.toArray).validateUTF8

/-- The credentials of Basic authorization, if they hold a placeholder. -/
def basicDecoded (header : Header) : Option Bytes := do
  guard (header.name == "authorization" && lib.toStr header.value)
  let (scheme, encoded) ← splitOnce 32 header.value
  guard (eqIgnoreAsciiCase scheme (bytesOf "basic"))
  let decoded ← lib.decode encoded
  guard (containsPlaceholder decoded)
  return decoded

def basicCredentialPlaceholder (header : Header) : Except String (Option Bytes) :=
  match basicDecoded lib header with
  | some decoded => do
    ensure (isUtf8 decoded) "invalid Basic credential"
    return some decoded
  | none => return none

/-- One round of `validate_credentials`. -/
def validateHeader (bindings : List Binding) (headers : List Header)
    (destination : EgressDestination) (tls : Bool) (header : Header) : Except String Unit := do
  let basic ← basicCredentialPlaceholder lib header
  let value := basic.getD header.value
  if ! containsPlaceholder value then return
  ensure tls "credential substitution requires HTTPS"
  ensure (! hopHeader header.name && header.name != "host" && header.name != "content-length")
    "credential cannot rewrite HTTP routing or framing"
  ensure (headers.countP (·.name == header.name) == 1) "duplicate credential header"
  ensure (isUtf8 value) "invalid utf-8 sequence"
  let unresolved := bindings.foldl (fun text binding ↦
    if binding.permitsHeader lib destination then replaceAll binding.placeholder [] text else text)
    value
  ensure (! containsPlaceholder unresolved) "credential placeholder does not match this request"

def validateCredentials (bindings : List Binding) (headers : List Header)
    (destination : EgressDestination) (tls : Bool) : Except String Unit :=
  headers.forM (validateHeader lib bindings headers destination tls)

/-- A call of the resolver and its answer. -/
structure Call where
  binding : Binding
  value : Bytes
  deriving DecidableEq

/-- The answers of the resolver, in the order of the calls, to the name of a binding. -/
abbrev Resolver := ℕ → String → Option Bytes

/-- The loop over the bindings for one header; `n` calls were made before. -/
def fillBindings (destination : EgressDestination) (resolver : Resolver) :
    ℕ → List Binding → Bytes → Except String (List Call × Bytes)
  | _, [], replacement => return ([], replacement)
  | n, binding :: rest, replacement =>
    if ! binding.permitsHeader lib destination || ! decide (binding.placeholder <:+: replacement) then
      fillBindings destination resolver n rest replacement
    else do
      let value ← context (resolver n binding.config.name)
        "credential is unavailable or not authorized"
      let (calls, replacement) ← fillBindings destination resolver (n + 1) rest
        (replaceAll binding.placeholder value replacement)
      return (⟨binding, value⟩ :: calls, replacement)

/-- What was done to a header: the text that was read, the calls, and the text put in its place. -/
structure Rewrite where
  header : Header
  basic : Bool
  text : Bytes
  calls : List Call
  replacement : Bytes
  deriving DecidableEq

def Rewrite.value (rewrite : Rewrite) : Bytes :=
  if rewrite.basic then bytesOf "Basic " ++ lib.encode rewrite.replacement
  else rewrite.replacement

/-- One round of `substitute_credentials`. -/
def substituteHeader (bindings : List Binding) (destination : EgressDestination)
    (resolver : Resolver) (n : ℕ) (header : Header) : Except String (Option Rewrite) := do
  let basic ← basicCredentialPlaceholder lib header
  if basic.isNone && ! containsPlaceholder header.value then return none
  ensure (basic.isSome || lib.toStr header.value) "failed to convert header to a str"
  let text := basic.getD header.value
  let (calls, replacement) ← fillBindings lib destination resolver n bindings text
  let rewrite : Rewrite := ⟨header, basic.isSome, text, calls, replacement⟩
  ensure (lib.fromStr (rewrite.value lib)) "credential cannot be used in an HTTP header"
  return some rewrite

/-- The headers with their new values, and what was done to them. -/
def substituteCredentials (bindings : List Binding) (destination : EgressDestination)
    (resolver : Resolver) : ℕ → List Header → Except String (List Header × List Rewrite)
  | _, [] => return ([], [])
  | n, header :: rest => do
    match ← substituteHeader lib bindings destination resolver n header with
    | none =>
      let (headers, rewrites) ← substituteCredentials bindings destination resolver n rest
      return (header :: headers, rewrites)
    | some rewrite =>
      let (headers, rewrites) ← substituteCredentials bindings destination resolver
        (n + rewrite.calls.length) rest
      return ({ header with value := rewrite.value lib } :: headers, rewrite :: rewrites)

/-- The names a value of `Connection` lists. -/
def connectionNames (value : Bytes) : List String :=
  (value.splitOn 44).filterMap fun name ↦ lib.headerName (trim name)
where
  /-- White space as `str::trim` knows it, among the bytes that `to_str` admits. -/
  trim (name : Bytes) : Bytes :=
    ((name.dropWhile isSpace).reverse.dropWhile isSpace).reverse
  isSpace (byte : UInt8) : Bool := byte == 32 || byte == 9

def stripHopHeaders (headers : List Header) : Except String (List Header) := do
  let connections := headers.filter (·.name == "connection")
  ensure (connections.all fun header ↦ lib.toStr header.value) "failed to convert header to a str"
  let remove := connections.flatMap fun header ↦ connectionNames lib header.value
  return headers.filter fun header ↦ ! remove.contains header.name && ! hopHeader header.name

/-- `State::substitute_credentials`. -/
def substituteFor (bindings : List Binding) (resolver : Option Resolver)
    (destination : EgressDestination) (n : ℕ) (headers : List Header) :
    Except String (List Header × List Rewrite) :=
  if bindings.isEmpty then return (headers, [])
  else do
    let resolver ← context resolver "credential resolver is unavailable"
    substituteCredentials lib bindings destination resolver n headers

/-- The headers `relay` takes away; the client writes its own. -/
def relayHeaders (headers : List Header) : List Header :=
  headers.filter fun header ↦ header.name != "host" && header.name != "content-length"

/-- A request that is sent upstream: its headers, and how they came about. -/
structure Sent where
  headers : List Header
  rewrites : List Rewrite
  deriving DecidableEq

def Sent.calls (sent : Sent) : List Call := sent.rewrites.flatMap (·.calls)

/-- What the rest of the world answers while a request is forwarded. -/
structure World where
  resolver : Option Resolver
  /-- A client for the destination. -/
  client : Except String Unit
  /-- The body of the request. -/
  body : Except String Unit
  /-- The status of the first response. -/
  status : Except String ℕ
  /-- Whether a rejected credential was renewed, for each of the calls. -/
  refresh : ℕ → Except String Bool

/-- Renewing the rejected credentials one after another; whether any was. -/
def refreshAll (refresh : ℕ → Except String Bool) (calls : List Call) : Except String Bool :=
  calls.zipIdx.foldlM (fun refreshed (_, i) ↦ return refreshed || (← refresh i)) false

section
variable (bindings : List Binding) (world : World)

/-- Puts the credentials in; `n` calls of the resolver were made before. -/
def attempt (destination : EgressDestination) (n : ℕ)
    (stripped : List Header) : Except String Sent := do
  let (headers, rewrites) ← substituteFor lib bindings world.resolver destination n stripped
  return ⟨relayHeaders headers, rewrites⟩

/-- The request that is sent when an upstream has refused the first one and a credential of it was
renewed. -/
def retry (destination : EgressDestination)
    (stripped : List Header) (first : Sent) : Except String Sent := do
  let status ← world.status
  ensure (status == 401 && ! first.calls.isEmpty) "the first response is passed on"
  let refreshed ← refreshAll world.refresh first.calls
  ensure refreshed "the first response is passed on"
  attempt lib bindings world destination first.calls.length stripped

/-- `State::forward` once the destination is known: the requests it sends. -/
def forwardTo (headers : List Header)
    (destination : EgressDestination) (tls : Bool) : Except String (List Sent) := do
  validateCredentials lib bindings headers destination tls
  let stripped ← stripHopHeaders lib headers
  world.client
  let first ← attempt lib bindings world destination 0 stripped
  world.body
  match retry lib bindings world destination stripped first with
  | .error _ => return [first]
  | .ok second => return [first, second]

end

end Exo.Egress
