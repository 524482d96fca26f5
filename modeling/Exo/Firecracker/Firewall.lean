import Exo.Egress.Proxy
import Exo.Firecracker.Network
import Exo.Library.InPlace

/-!
# The firewall of a Firecracker machine

The rules of a machine's table are written from its network, its egress policy, the blocks that the
operator admits and the proxy, if it has one.  With a proxy, web traffic and DNS are sent to it and
other TCP is filtered by port and address; without one the blocks alone decide.
-/

namespace Exo.Firecracker

open Library Library.Nft
open Egress (EgressPolicy SandboxNetworkPolicy)

structure SandboxEgressProxy where
  http : SocketAddr
  https : SocketAddr
  dns : SocketAddr

/-- The fields of `FirecrackerConfig` that the firewall reads. -/
structure FirewallConfig where
  allowedEgressCidrs : List Ipv4Net

section
variable (policy : EgressPolicy)

def allowsTcpPort (port : ℕ) : Bool :=
  port != 0 && policy.allowedTcpPorts.all (·.contains port)

/-- The addresses that a proxy endpoint must not have: unspecified, loopback, multicast and
broadcast. -/
def isConcrete (ip : Ipv4Addr) : Bool :=
  ip != 0 && !(⟨0x7f000000, 8⟩ : Ipv4Net).contains ip &&
    !(⟨0xe0000000, 4⟩ : Ipv4Net).contains ip && ip != 0xffffffff

/-- `SandboxEgressProxy::validate` -/
def SandboxEgressProxy.validate (proxy : SandboxEgressProxy) : Except String Unit :=
  ensure ([proxy.http, proxy.https, proxy.dns].all fun endpoint ↦
      endpoint.port != 0 && isConcrete endpoint.ip)
    "egress proxy requires concrete, host-reachable IPv4 endpoints"

/-- `EgressPolicy::validate_basic` -/
def validateBasic (provider : String) : Except String Unit := do
  ensure policy.allowedTcpPorts.isNone (provider ++ " does not support policy.allowed_tcp_ports")
  ensure policy.credentials.isEmpty (provider ++ " does not support policy.credentials")
  match policy.networking with
  | .limited _ => .error (provider ++ " does not support policy.networking.limited")
  | .unrestricted | .disabled => .ok ()

/-- What `prepare_request` checks of the policy and the proxy. -/
def prepareRequest (egressProxy : Option SandboxEgressProxy) : Except String Unit :=
  match egressProxy with
  | some proxy =>
    if policy.networking = .disabled then
      .error "disabled networking cannot use an egress proxy"
    else proxy.validate
  | none => validateBasic policy "Firecracker without a configured egress runtime"

end

def blockedEgressCidrs : List Ipv4Net :=
  [⟨0x00000000, 8⟩,
    ⟨0x0a000000, 8⟩,
    ⟨0x64400000, 10⟩,
    ⟨0x7f000000, 8⟩,
    ⟨0xa9fe0000, 16⟩,
    ⟨0xac100000, 12⟩,
    ⟨0xc0000000, 24⟩,
    ⟨0xc0a80000, 16⟩,
    ⟨0xc6120000, 15⟩,
    ⟨0xe0000000, 4⟩,
    ⟨0xf0000000, 4⟩]

/-- The chain of a hook. -/
def addChain (hook : Hook) : Command :=
  match hook with
  | .prerouting => .addChain hook "nat" "dstnat"
  | .input | .forward => .addChain hook "filter" "filter"
  | .postrouting => .addChain hook "nat" "srcnat"

/-- The redirections to a proxy: the port of the guest's packet and the endpoint. -/
def redirections (policy : EgressPolicy) (proxy : SandboxEgressProxy) :
    List (Protocol × ℕ × SocketAddr) :=
  [(.tcp, 80, proxy.http), (.tcp, 443, proxy.https), (.tcp, 53, proxy.dns),
    (.udp, 53, proxy.dns)].filter fun (_, port, _) ↦ port == 53 || allowsTcpPort policy port

def endpoints (proxy : SandboxEgressProxy) : List (Protocol × SocketAddr) :=
  [(.tcp, proxy.http), (.tcp, proxy.https), (.tcp, proxy.dns), (.udp, proxy.dns)]

section
variable (network : NetworkConfig)

section
variable (policy : EgressPolicy) (proxy : SandboxEgressProxy)

def redirectRules : List Rule :=
  (redirections policy proxy).map fun (protocol, port, destination) ↦
    ⟨[.iifname network.hostVeth, .saddr network.guestIp, .dport protocol port], .dnat destination⟩

section
variable (proxy : SandboxEgressProxy)

def endpointRules : List Rule :=
  (endpoints proxy).map fun (protocol, destination) ↦
    ⟨[.iifname network.hostVeth, .ctStatusDnat, .daddr destination.ip,
      .dport protocol destination.port], .accept⟩

/-- The beginning of the input chain and of the forward chain. -/
def guardRules : List Rule :=
  [⟨[.iifname network.hostVeth, .nfprotoIpv6], .drop⟩,
    ⟨[.iifname network.hostVeth, .saddrNot network.guestIp], .drop⟩] ++
  endpointRules network proxy ++
  [⟨[.iifname network.hostVeth, .ctDirectionReply, .ctState [.established, .related]], .accept⟩]

/-- The rules for TCP that does not go to the proxy. -/
def admittedRules (policy : EgressPolicy) : List Rule :=
  let hosts : List Selector :=
    if policy.networking = .unrestricted then [] else [.daddrInSet "allowed_hosts"]
  match policy.allowedTcpPorts with
  | none => [⟨.iifname network.hostVeth :: hosts ++ [.l4proto .tcp], .accept⟩]
  | some [] => []
  | some ports => [⟨.iifname network.hostVeth :: hosts ++ [.dportIn .tcp ports], .accept⟩]

def proxyInputRules : List Rule :=
  guardRules network proxy ++ [⟨[.iifname network.hostVeth], .reject⟩]

end

def proxyForwardRules : List Rule :=
  guardRules network proxy ++
  [⟨[.iifname network.hostVeth, .daddrInAny blockedEgressCidrs], .reject⟩] ++
  admittedRules network policy ++
  [⟨[.iifname network.hostVeth], .reject⟩]

/-- What the forward chain does with packets to the guest. -/
def towardsGuest : List Rule :=
  [⟨[.oifname network.hostVeth, .ctState [.established, .related]], .accept⟩,
    ⟨[.oifname network.hostVeth], .drop⟩]

/-- `proxy_network_firewall_rules` -/
def proxyNetworkFirewallRules : List Command :=
  [.addTable] ++ [.prerouting, .input, .forward, .postrouting].map addChain ++
  [.addSet "allowed_hosts" "type ipv4_addr; flags timeout; timeout 1h; size 4096;"] ++
  (redirectRules network policy proxy).map (.addRule .prerouting) ++
  (proxyInputRules network proxy).map (.addRule .input) ++
  (proxyForwardRules network policy proxy).map (.addRule .forward) ++
  (towardsGuest network).map (.addRule .forward) ++
  [.addRule .postrouting ⟨[.saddr network.guestIp], .masquerade⟩]

end

def inputRules : List Rule :=
  [⟨[.iifname network.hostVeth, .ctState [.established, .related]], .accept⟩,
    ⟨[.iifname network.hostVeth], .drop⟩]

end

section
variable (config : FirewallConfig) (network : NetworkConfig)

def allowedRules : List Rule :=
  config.allowedEgressCidrs.map fun cidr ↦
    ⟨[.iifname network.hostVeth, .daddrIn cidr], .accept⟩

section
variable (policy : EgressPolicy)

/-- The rules for the packets of the guest.  IPv6 is dropped first: it would pass the selectors on
IPv4 addresses and reach the last verdict. -/
def forwardRules : List Rule :=
  let finalEgressVerdict : Verdict :=
    if policy.networking = .unrestricted then .accept else .reject
  [⟨[.iifname network.hostVeth, .nfprotoIpv6], .drop⟩,
    ⟨[.iifname network.hostVeth, .saddrNotIn network.guestCidr], .drop⟩,
    ⟨[.iifname network.hostVeth, .daddrIn exoNetworkCidr], .reject⟩] ++
  allowedRules config network ++
  [⟨[.iifname network.hostVeth, .daddrInAny blockedEgressCidrs], .reject⟩,
    ⟨[.iifname network.hostVeth], finalEgressVerdict⟩]

/-- `network_firewall_rules` -/
def networkFirewallRules (egressProxy : Option SandboxEgressProxy) : List Command :=
  match egressProxy with
  | some proxy => proxyNetworkFirewallRules network policy proxy
  | none =>
    [.addTable] ++ [.input, .forward, .postrouting].map addChain ++
    (inputRules network).map (.addRule .input) ++
    (forwardRules config network policy).map (.addRule .forward) ++
    (towardsGuest network).map (.addRule .forward) ++
    [.addRule .postrouting ⟨[.saddrIn network.guestCidr], .masquerade⟩]

end

end

end Exo.Firecracker
