import Exo.Firecracker.Firewall

/-!
# The firewall implements the network policy

The rules of a machine's table are evaluated on the first packet of a connection that the guest
sends.  Without a proxy the chains decide by the addresses alone; with one a packet is redirected to
the proxy before them, and what is not redirected is decided by its port and its destination.
-/

namespace Exo.Firecracker

open Library Library.Nft List
open Egress (EgressPolicy)

/-! ## What the guest sends -/

/-- The first packet of a connection that the guest sends, as it comes from its veth. -/
structure SentByGuest (network : NetworkConfig) (packet : Packet) : Prop where
  iifname : packet.iifname = network.hostVeth
  ctState : packet.ctState = .new
  ctReply : packet.ctReply = false
  ctDnat : packet.ctDnat = false

section Evaluation
variable {config : FirewallConfig} {network : NetworkConfig} {policy : EgressPolicy}
  {proxy : SandboxEgressProxy} {sets : String → Ipv4Addr → Bool} {packet : Packet}
  {saddr daddr : Ipv4Addr}

/-- A rule on the veth of the guest holds of its packet when the other selectors do. -/
theorem holds_iifname (hiifname : packet.iifname = network.hostVeth) (rest : List Selector)
    (verdict : Verdict) :
    (⟨.iifname network.hostVeth :: rest, verdict⟩ : Rule).holds sets packet =
      rest.all (·.holds sets packet) := by
  simp [Rule.holds, Selector.holds, hiifname]

theorem evaluate_inputRules (hsent : SentByGuest network packet) :
    evaluate sets packet (inputRules network) = .drop := by
  simp [inputRules, evaluate, holds_iifname hsent.iifname, Selector.holds, hsent.ctState]

section
variable (hiifname : packet.iifname = network.hostVeth)
  (hnetwork : packet.network = .ipv4 saddr daddr)
include hiifname hnetwork

theorem any_allowedRules : (allowedRules config network).any (·.holds sets packet) =
      config.allowedEgressCidrs.any (·.contains daddr) := by
  simp [allowedRules, any_map, Function.comp_def, holds_iifname hiifname, Selector.holds,
    Packet.daddr?, hnetwork]

/-- The forward chain decides an IPv4 packet by its addresses. -/
theorem evaluate_forwardRules (rest : List Rule) :
    evaluate sets packet (forwardRules config network policy ++ rest) =
      if !network.guestCidr.contains saddr then .drop
      else if exoNetworkCidr.contains daddr then .reject
      else if config.allowedEgressCidrs.any (·.contains daddr) then .accept
      else if blockedEgressCidrs.any (·.contains daddr) then .reject
      else if policy.networking = .unrestricted then .accept else .reject := by
  have hverdict : ∀ rule ∈ allowedRules config network, rule.verdict = .accept := by
    simp [allowedRules]
  simp only [forwardRules, append_assoc, cons_append, nil_append, evaluate,
    holds_iifname hiifname, evaluate_append_of_verdict sets _ hverdict,
    any_allowedRules hiifname hnetwork]
  simp [Selector.holds, Packet.saddr?, Packet.daddr?, hnetwork]

end

variable {saddr6 daddr6 : BitVec 128} {protocol : Protocol} {port : ℕ} {destination : SocketAddr}

theorem evaluate_forwardRules_ipv6 (hiifname : packet.iifname = network.hostVeth)
    (hnetwork : packet.network = .ipv6 saddr6 daddr6) (rest : List Rule) :
    evaluate sets packet (forwardRules config network policy ++ rest) = .drop := by
  simp [forwardRules, evaluate, holds_iifname hiifname, Selector.holds, hnetwork]

/-! ## With a proxy -/

/-- Where a proxy takes the packets to a port. -/
def redirection (policy : EgressPolicy) (proxy : SandboxEgressProxy) (protocol : Protocol)
    (port : ℕ) : Option SocketAddr :=
  ((redirections policy proxy).find? fun (redirected, redirectedPort, _) ↦
    protocol == redirected && port == redirectedPort).map (·.2.2)

/-- The redirection that a packet meets: only TCP and UDP from the address of the guest are
redirected. -/
def redirectionOf (network : NetworkConfig) (policy : EgressPolicy) (proxy : SandboxEgressProxy)
    (packet : Packet) : Option SocketAddr :=
  match packet.network, packet.transport with
  | .ipv4 saddr _, .ports protocol _ port =>
    if saddr = network.guestIp then redirection policy proxy protocol port else none
  | _, _ => none

theorem evaluate_redirectRules (hiifname : packet.iifname = network.hostVeth) :
    evaluate sets packet (redirectRules network policy proxy) =
      ((redirectionOf network policy proxy packet).map .dnat).getD .accept := by
  rw [redirectRules, evaluate_map]
  simp only [holds_iifname hiifname]
  have hnone : (redirections policy proxy).find? (fun _ ↦ false) = none :=
    find?_eq_none.2 fun _ _ ↦ Bool.false_ne_true
  cases hnetwork : packet.network with
  | ipv6 saddr daddr => simp [Selector.holds, Packet.saddr?, redirectionOf, hnetwork, hnone]
  | ipv4 saddr daddr =>
    cases htransport : packet.transport with
    | other number => simp [Selector.holds, redirectionOf, hnetwork, htransport, hnone]
    | ports protocol sport port =>
      by_cases hsaddr : saddr = network.guestIp
      · simp [Selector.holds, Packet.saddr?, redirectionOf, redirection, hnetwork, htransport,
          hsaddr, Function.comp_def]
      · have hother : (saddr == network.guestIp) = false := beq_false_of_ne hsaddr
        simp [Selector.holds, Packet.saddr?, redirectionOf, hnetwork, htransport, hsaddr, hother,
          hnone]

section
variable (hredirection : redirection policy proxy protocol port = some destination)
include hredirection

theorem mem_redirections : (protocol, port, destination) ∈ redirections policy proxy := by
  obtain ⟨⟨redirected, redirectedPort, endpoint⟩, hfind, rfl⟩ :=
    Option.map_eq_some_iff.1 hredirection
  have hmem := mem_of_find?_eq_some hfind
  have hprotocol := find?_some hfind
  simp only [Bool.and_eq_true, beq_iff_eq] at hprotocol
  rw [hprotocol.1, hprotocol.2]
  exact hmem

/-- The endpoint of a redirection takes the protocol that was redirected to it. -/
theorem mem_endpoints_of_redirection : (protocol, destination) ∈ endpoints proxy := by
  have hmem := mem_of_mem_filter (mem_redirections hredirection)
  simp only [mem_cons, Prod.mk.injEq, not_mem_nil, or_false] at hmem
  rw [endpoints]
  obtain ⟨rfl, _, rfl⟩ | ⟨rfl, _, rfl⟩ | ⟨rfl, _, rfl⟩ | ⟨rfl, _, rfl⟩ := hmem <;> simp

end

/-- The ports of the proxy that the policy allows are redirected. -/
theorem redirection_ne_none (hport : port = 80 ∨ port = 443 ∨ port = 53)
    (hallowed : policy.allowedTcpPorts.all (·.contains port) = true) :
    redirection policy proxy .tcp port ≠ none := by
  have hallows : (port == 53 || allowsTcpPort policy port) = true := by
    rw [allowsTcpPort, hallowed]
    obtain rfl | rfl | rfl := hport <;> rfl
  intro hnone
  rw [redirection, Option.map_eq_none_iff, find?_eq_none] at hnone
  have hmem : ∃ destination, (Protocol.tcp, port, destination) ∈ redirections policy proxy := by
    obtain rfl | rfl | rfl := hport
    · exact ⟨proxy.http, mem_filter.2 ⟨by simp, hallows⟩⟩
    · exact ⟨proxy.https, mem_filter.2 ⟨by simp, hallows⟩⟩
    · exact ⟨proxy.dns, mem_filter.2 ⟨by simp, hallows⟩⟩
  obtain ⟨destination, hmem⟩ := hmem
  exact hnone _ hmem (by simp)

/-- Whether a packet is one to an endpoint of the proxy. -/
def toEndpoint (proxy : SandboxEgressProxy) (packet : Packet) : Bool :=
  (endpoints proxy).any fun (protocol, destination) ↦
    packet.daddr? == some destination.ip &&
      match packet.transport with
      | .ports carried _ port => carried == protocol && port == destination.port
      | .other _ => false

/-- The guard drops what the guest may not send and admits what was redirected. -/
theorem evaluate_guardRules (hiifname : packet.iifname = network.hostVeth)
    (hreply : packet.ctReply = false) (hnetwork : packet.network = .ipv4 saddr daddr)
    (rest : List Rule) :
    evaluate sets packet (guardRules network proxy ++ rest) =
      if saddr ≠ network.guestIp then .drop
      else if packet.ctDnat && toEndpoint proxy packet then .accept
      else evaluate sets packet rest := by
  have hverdict : ∀ rule ∈ endpointRules network proxy, rule.verdict = .accept := by
    intro rule hrule
    obtain ⟨endpoint, _, rfl⟩ := mem_map.1 hrule
    rfl
  have hany : (endpointRules network proxy).any (·.holds sets packet) =
      (packet.ctDnat && toEndpoint proxy packet) := by
    cases hdnat : packet.ctDnat <;>
    cases htransport : packet.transport <;>
    simp [endpointRules, toEndpoint, holds_iifname hiifname, Selector.holds, Packet.daddr?,
      hnetwork, hdnat, htransport, Function.comp_def]
  simp only [guardRules, append_assoc, cons_append, nil_append, evaluate,
    holds_iifname hiifname, evaluate_append_of_verdict sets _ hverdict, hany]
  simp [Selector.holds, Packet.saddr?, hnetwork, hreply]

theorem evaluate_guardRules_ipv6 (hiifname : packet.iifname = network.hostVeth)
    (hnetwork : packet.network = .ipv6 saddr6 daddr6) (rest : List Rule) :
    evaluate sets packet (guardRules network proxy ++ rest) = .drop := by
  simp [guardRules, evaluate, holds_iifname hiifname, Selector.holds, hnetwork]

/-- Whether a policy lets a packet go on its own way: TCP to a port it lists, and to an address of
the table's set unless networking is unrestricted. -/
def admits (policy : EgressPolicy) (sets : String → Ipv4Addr → Bool) (daddr : Ipv4Addr) :
    Transport → Bool
  | .ports .tcp _ port =>
    policy.allowedTcpPorts.all (·.contains port) &&
      (policy.networking = .unrestricted || sets "allowed_hosts" daddr)
  | _ => false

section
variable (hiifname : packet.iifname = network.hostVeth)
include hiifname

theorem any_admittedRules (hnetwork : packet.network = .ipv4 saddr daddr) :
    (admittedRules network policy).any (·.holds sets packet) =
      admits policy sets daddr packet.transport := by
  have hhosts : (if policy.networking = .unrestricted then []
        else [Selector.daddrInSet "allowed_hosts"]).all (·.holds sets packet) =
      (policy.networking = .unrestricted || sets "allowed_hosts" daddr) := by
    split_ifs with hnetworking <;> simp [Selector.holds, Packet.daddr?, hnetwork, hnetworking]
  cases hports : policy.allowedTcpPorts with
  | none =>
    simp only [admittedRules, hports, any_cons, any_nil, Bool.or_false, cons_append,
      holds_iifname hiifname, all_append, hhosts]
    rcases htransport : packet.transport with ⟨_ | _, sport, port⟩ | number <;>
    simp [Selector.holds, admits, htransport, hports]
  | some ports =>
    cases ports with
    | nil =>
      rcases packet.transport with ⟨_ | _, sport, port⟩ | number <;>
      simp [admittedRules, admits, hports]
    | cons first others =>
      simp only [admittedRules, hports, any_cons, any_nil, Bool.or_false,
        cons_append, holds_iifname hiifname, all_append, hhosts]
      rcases htransport : packet.transport with ⟨_ | _, sport, port⟩ | number <;>
      simp [Selector.holds, admits, htransport, hports, Bool.and_comm]

theorem evaluate_admittedRules (hnetwork : packet.network = .ipv4 saddr daddr) (rest : List Rule) :
    evaluate sets packet (admittedRules network policy ++ rest) =
      if admits policy sets daddr packet.transport then .accept
      else evaluate sets packet rest := by
  have hverdict : ∀ rule ∈ admittedRules network policy, rule.verdict = .accept := by
    intro rule hrule
    rw [admittedRules] at hrule
    split at hrule <;> simp_all
  rw [evaluate_append_of_verdict sets rest hverdict, any_admittedRules hiifname hnetwork]

section
variable (hreply : packet.ctReply = false) (hnetwork : packet.network = .ipv4 saddr daddr)
include hreply hnetwork

theorem passes_proxyInputRules : (evaluate sets packet (proxyInputRules network proxy)).passes =
      (decide (saddr = network.guestIp) && (packet.ctDnat && toEndpoint proxy packet)) := by
  rw [proxyInputRules, evaluate_guardRules hiifname hreply hnetwork]
  simp only [evaluate, holds_iifname hiifname, all_nil, if_true]
  split_ifs <;> simp_all [Verdict.passes]

theorem passes_proxyForwardRules (rest : List Rule) :
    (evaluate sets packet (proxyForwardRules network policy proxy ++ rest)).passes =
      (decide (saddr = network.guestIp) &&
        (packet.ctDnat && toEndpoint proxy packet ||
          !blockedEgressCidrs.any (·.contains daddr) &&
            admits policy sets daddr packet.transport)) := by
  have hblocked : Selector.holds sets packet (.daddrInAny blockedEgressCidrs) =
      blockedEgressCidrs.any (·.contains daddr) := by
    simp [Selector.holds, Packet.daddr?, hnetwork]
  simp only [proxyForwardRules, append_assoc, evaluate_guardRules hiifname hreply hnetwork,
    cons_append, nil_append, evaluate, holds_iifname hiifname, all_cons,
    all_nil, Bool.and_true, hblocked, evaluate_admittedRules hiifname hnetwork, if_true]
  split_ifs <;> simp_all [Verdict.passes]

end

/-- A redirected packet to an endpoint passes the forward chain. -/
theorem passes_of_toEndpoint (hreply : packet.ctReply = false)
    (hnetwork : packet.network = .ipv4 network.guestIp daddr) (hdnat : packet.ctDnat = true)
    (hendpoint : toEndpoint proxy packet = true) (rest : List Rule) :
    (evaluate sets packet (proxyForwardRules network policy proxy ++ rest)).passes = true := by
  rw [passes_proxyForwardRules hiifname hreply hnetwork, hdnat, hendpoint]
  simp

end

end Evaluation

/-! ## What leaves -/

section Deliveries
variable {config : FirewallConfig} {network : NetworkConfig} {policy : EgressPolicy}
  {proxy : SandboxEgressProxy} {around : Surroundings} {packet : Packet} {delivery : Delivery}
  {saddr daddr : Ipv4Addr}

/-- The rules of the four hooks, without a proxy. -/
theorem rulesOf_networkFirewallRules (hook : Hook) :
    rulesOf (networkFirewallRules config network policy none) hook =
      match hook with
      | .prerouting => []
      | .input => inputRules network
      | .forward => forwardRules config network policy ++ towardsGuest network
      | .postrouting => [⟨[.saddrIn network.guestCidr], .masquerade⟩] := by
  cases hook <;> simp [networkFirewallRules, addChain]

/-- The rules of the four hooks, with a proxy. -/
theorem rulesOf_proxyNetworkFirewallRules (hook : Hook) :
    rulesOf (proxyNetworkFirewallRules network policy proxy) hook =
      match hook with
      | .prerouting => redirectRules network policy proxy
      | .input => proxyInputRules network proxy
      | .forward => proxyForwardRules network policy proxy ++ towardsGuest network
      | .postrouting => [⟨[.saddr network.guestIp], .masquerade⟩] := by
  cases hook <;> simp [proxyNetworkFirewallRules, addChain]

/-- Whether the addresses of a packet let it out without a proxy. -/
def addressesAdmitted (config : FirewallConfig) (network : NetworkConfig) (policy : EgressPolicy)
    (saddr daddr : Ipv4Addr) : Bool :=
  network.guestCidr.contains saddr && !exoNetworkCidr.contains daddr &&
    (config.allowedEgressCidrs.any (·.contains daddr) ||
      (policy.networking = .unrestricted && !blockedEgressCidrs.any (·.contains daddr)))

variable {sets : String → Ipv4Addr → Bool} {destination : SocketAddr}

theorem passes_forwardRules (hiifname : packet.iifname = network.hostVeth)
    (hnetwork : packet.network = .ipv4 saddr daddr) (rest : List Rule) :
    (evaluate sets packet (forwardRules config network policy ++ rest)).passes =
      addressesAdmitted config network policy saddr daddr := by
  rw [evaluate_forwardRules hiifname hnetwork, addressesAdmitted]
  split_ifs <;> simp_all [Verdict.passes]

/-- Without a proxy, the packets that leave are those whose addresses are admitted. -/
theorem traverse_unproxied (hsent : SentByGuest network packet) :
    traverse (networkFirewallRules config network policy none) around packet =
      match packet.network with
      | .ipv4 saddr daddr =>
        if !around.isLocal packet.network &&
            addressesAdmitted config network policy saddr daddr then
          some ⟨.forward, packet.routed around, true⟩
        else none
      | .ipv6 _ _ => none := by
  have hiifname : (packet.routed around).iifname = network.hostVeth := hsent.iifname
  have hprerouted : prerouted (networkFirewallRules config network policy none) around packet =
      some packet :=
    prerouted_of_accept (by rw [rulesOf_networkFirewallRules]; rfl)
  have hinput : (evaluate around.sets packet
      (rulesOf (networkFirewallRules config network policy none) .input)).passes = false := by
    rw [rulesOf_networkFirewallRules, evaluate_inputRules hsent]
    rfl
  cases hnetwork : packet.network with
  | ipv6 saddr daddr =>
    rw [traverse_of_verdicts false false hprerouted hinput ?_ nofun]
    · simp
    · rw [rulesOf_networkFirewallRules, evaluate_forwardRules_ipv6 hiifname hnetwork]
      rfl
  | ipv4 saddr daddr =>
    rw [traverse_of_verdicts false (addressesAdmitted config network policy saddr daddr)
      hprerouted hinput ?_ fun hadmitted ↦ ?_, hnetwork]
    · cases around.isLocal (.ipv4 saddr daddr) <;> simp
    · rw [rulesOf_networkFirewallRules]
      exact passes_forwardRules hiifname hnetwork _
    · simp only [addressesAdmitted, Bool.and_eq_true] at hadmitted
      rw [rulesOf_networkFirewallRules]
      simp [evaluate, Rule.holds, Selector.holds, Packet.saddr?, hnetwork, hadmitted.1.1]

/-- A packet that is not redirected goes its own way or not at all. -/
def ownWay (network : NetworkConfig) (policy : EgressPolicy) (around : Surroundings)
    (packet : Packet) (saddr daddr : Ipv4Addr) : Bool :=
  !around.isLocal packet.network && decide (saddr = network.guestIp) &&
    !blockedEgressCidrs.any (·.contains daddr) &&
    admits policy around.sets daddr packet.transport

theorem evaluate_postrouting (hnetwork : packet.network = .ipv4 network.guestIp daddr) :
    evaluate sets packet (rulesOf (proxyNetworkFirewallRules network policy proxy) .postrouting) =
      .masquerade := by
  rw [rulesOf_proxyNetworkFirewallRules]
  simp [evaluate, Rule.holds, Selector.holds, Packet.saddr?, hnetwork]

/-- A packet to an endpoint of the proxy passes both chains once it was redirected. -/
theorem traverse_redirected (hsent : SentByGuest network packet)
    (hredirection : redirectionOf network policy proxy packet = some destination) :
    traverse (proxyNetworkFirewallRules network policy proxy) around packet =
      if around.isLocal (packet.redirected destination).network then
        some ⟨.input, packet.redirected destination, false⟩
      else some ⟨.forward, (packet.redirected destination).routed around, true⟩ := by
  have hprerouted : prerouted (proxyNetworkFirewallRules network policy proxy) around packet =
      some (packet.redirected destination) := by
    apply prerouted_of_dnat
    rw [rulesOf_proxyNetworkFirewallRules]
    exact (evaluate_redirectRules hsent.iifname).trans (by rw [hredirection]; rfl)
  rw [redirectionOf] at hredirection
  split at hredirection
  case h_2 => cases hredirection
  case h_1 saddr daddr protocol sport port hnetwork htransport =>
    obtain ⟨hsaddr, hredirection⟩ := Option.ite_none_right_eq_some.1 hredirection
    have hafter : (packet.redirected destination).network =
        .ipv4 network.guestIp destination.ip := by
      simp [Packet.redirected, hnetwork, hsaddr]
    have hendpoint : toEndpoint proxy (packet.redirected destination) = true := by
      rw [toEndpoint, any_eq_true]
      exact ⟨_, mem_endpoints_of_redirection hredirection,
        by simp [Packet.redirected, Packet.daddr?, hnetwork, htransport]⟩
    have hdnat : (packet.redirected destination).ctDnat = true := rfl
    have hiifname : (packet.redirected destination).iifname = network.hostVeth := hsent.iifname
    have hreply : (packet.redirected destination).ctReply = false := hsent.ctReply
    rw [traverse_of_verdicts true true hprerouted ?_ ?_ fun _ ↦ ?_, if_pos rfl, if_pos rfl]
    · rw [rulesOf_proxyNetworkFirewallRules]
      refine (passes_proxyInputRules hiifname hreply hafter).trans ?_
      simp [hdnat, hendpoint]
    · rw [rulesOf_proxyNetworkFirewallRules]
      apply passes_of_toEndpoint
      · exact hiifname
      · exact hreply
      · exact hafter
      · exact hdnat
      · exact hendpoint
    · exact evaluate_postrouting hafter

/-- A packet that is not redirected passes the forward chain or none. -/
theorem traverse_not_redirected (hsent : SentByGuest network packet)
    (hredirection : redirectionOf network policy proxy packet = none) :
    traverse (proxyNetworkFirewallRules network policy proxy) around packet =
      match packet.network with
      | .ipv4 saddr daddr =>
        if ownWay network policy around packet saddr daddr then
          some ⟨.forward, packet.routed around, true⟩
        else none
      | .ipv6 _ _ => none := by
  have hprerouted : prerouted (proxyNetworkFirewallRules network policy proxy) around packet =
      some packet := by
    apply prerouted_of_accept
    rw [rulesOf_proxyNetworkFirewallRules]
    exact (evaluate_redirectRules hsent.iifname).trans (by rw [hredirection]; rfl)
  have hiifname : (packet.routed around).iifname = network.hostVeth := hsent.iifname
  have hreply : (packet.routed around).ctReply = false := hsent.ctReply
  cases hnetwork : packet.network with
  | ipv6 saddr daddr =>
    rw [traverse_of_verdicts false false hprerouted ?_ ?_ nofun]
    · simp
    · rw [rulesOf_proxyNetworkFirewallRules]
      simp [proxyInputRules, evaluate_guardRules_ipv6 hsent.iifname hnetwork, Verdict.passes]
    · rw [rulesOf_proxyNetworkFirewallRules]
      simp [proxyForwardRules, evaluate_guardRules_ipv6 hiifname hnetwork, Verdict.passes]
  | ipv4 saddr daddr =>
    rw [traverse_of_verdicts false (decide (saddr = network.guestIp) &&
      (!blockedEgressCidrs.any (·.contains daddr) &&
        admits policy around.sets daddr packet.transport)) hprerouted ?_ ?_ fun hleaves ↦ ?_]
    · simp only [ownWay, hnetwork]
      cases around.isLocal (.ipv4 saddr daddr) <;> simp [and_assoc]
    · rw [rulesOf_proxyNetworkFirewallRules]
      refine (passes_proxyInputRules hsent.iifname hsent.ctReply hnetwork).trans ?_
      simp [hsent.ctDnat]
    · rw [rulesOf_proxyNetworkFirewallRules]
      refine (passes_proxyForwardRules hiifname hreply hnetwork _).trans ?_
      simp [hsent.ctDnat]
    · rw [Bool.and_eq_true, decide_eq_true_eq] at hleaves
      exact evaluate_postrouting (hleaves.1 ▸ hnetwork)

/-! ## The policy -/

/-- A packet to a port that the proxy takes was delivered to the proxy: web traffic and DNS go to
their endpoints, with the destination rewritten. -/
def ToProxy (proxy : SandboxEgressProxy) (packet : Packet) (delivery : Delivery) : Prop :=
  ∃ protocol sport port destination,
    packet.transport = .ports protocol sport port ∧
    (protocol, port, destination) ∈
      [(.tcp, 80, proxy.http), (.tcp, 443, proxy.https), (.tcp, 53, proxy.dns),
        (.udp, 53, proxy.dns)] ∧
    delivery.packet.ctDnat = true ∧ delivery.packet.daddr? = some destination.ip ∧
    delivery.packet.transport = .ports protocol sport destination.port

/-- A packet may leave on its own way: other TCP on a port of the policy, outside the blocked blocks
and, unless networking is unrestricted, to an address of the table's set. -/
structure Direct (policy : EgressPolicy) (around : Surroundings) (packet : Packet)
    (delivery : Delivery) : Prop where
  transport : ∃ sport port, packet.transport = .ports .tcp sport port ∧
    port ≠ 80 ∧ port ≠ 443 ∧ port ≠ 53 ∧
    ∀ ports, policy.allowedTcpPorts = some ports → port ∈ ports
  address : ∃ daddr, packet.daddr? = some daddr ∧
    (∀ cidr ∈ blockedEgressCidrs, cidr.contains daddr = false) ∧
    (policy.networking = .unrestricted ∨ around.sets "allowed_hosts" daddr = true)
  unchanged : delivery = ⟨.forward, packet.routed around, true⟩

/-- What a machine's rules do with the first packet of a connection that its guest sends. -/
structure ImplementsPolicy (config : FirewallConfig) (network : NetworkConfig)
    (policy : EgressPolicy) (egressProxy : Option SandboxEgressProxy) (around : Surroundings)
    (packet : Packet) : Prop where
  /-- Only IPv4 from the guest's own range passes. -/
  source : ∀ delivery,
    traverse (networkFirewallRules config network policy egressProxy) around packet =
      some delivery →
    ∃ saddr daddr, packet.network = .ipv4 saddr daddr ∧ network.guestCidr.contains saddr = true
  /-- The host and the machines' own block are reached only at an endpoint of the proxy. -/
  host : ∀ delivery,
    traverse (networkFirewallRules config network policy egressProxy) around packet =
      some delivery →
    delivery.hook = .input ∨ delivery.packet.daddr?.any exoNetworkCidr.contains = true →
    ∃ proxy, egressProxy = some proxy ∧ ToProxy proxy packet delivery
  /-- Without a proxy, a packet from the guest's range that is not for the host passes if and only
  if its destination is admitted by the operator, or networking is unrestricted and the destination
  is not blocked. -/
  unproxied : egressProxy = none → ∀ saddr daddr, packet.network = .ipv4 saddr daddr →
    network.guestCidr.contains saddr = true → around.isLocal packet.network = false →
    ((traverse (networkFirewallRules config network policy egressProxy) around packet).isSome ↔
      exoNetworkCidr.contains daddr = false ∧
      ((∃ cidr ∈ config.allowedEgressCidrs, cidr.contains daddr = true) ∨
        policy.networking = .unrestricted ∧
          ∀ cidr ∈ blockedEgressCidrs, cidr.contains daddr = false))
  /-- With a proxy, a packet goes to the proxy or its own admitted way. -/
  proxied : ∀ proxy, egressProxy = some proxy → ∀ delivery,
    traverse (networkFirewallRules config network policy egressProxy) around packet =
      some delivery →
    ToProxy proxy packet delivery ∨ Direct policy around packet delivery
  /-- A request for a machine without networking has no proxy, and nothing passes but what the
  operator admits. -/
  disabled : prepareRequest policy egressProxy = .ok () → policy.networking = .disabled →
    ∀ delivery,
      traverse (networkFirewallRules config network policy egressProxy) around packet =
        some delivery →
      ∃ daddr, packet.daddr? = some daddr ∧
        ∃ cidr ∈ config.allowedEgressCidrs, cidr.contains daddr = true

theorem blocked_of_exoNetworkCidr (hexo : exoNetworkCidr.contains daddr = true) :
    ∃ cidr ∈ blockedEgressCidrs, cidr.contains daddr = true := by
  refine ⟨⟨0x0a000000, 8⟩, by decide, ?_⟩
  simp only [Ipv4Net.contains, exoNetworkCidr, networkBase, beq_iff_eq] at hexo ⊢
  change daddr.toNat / 2 ^ 18 = 0x0af00000 / 2 ^ 18 at hexo
  change daddr.toNat / 2 ^ 24 = 0x0a000000 / 2 ^ 24
  omega

theorem toProxy_of_redirected
    (hredirection : redirectionOf network policy proxy packet = some destination)
    (hnetwork : delivery.packet.network = (packet.redirected destination).network)
    (htransport : delivery.packet.transport = (packet.redirected destination).transport)
    (hdnat : delivery.packet.ctDnat = true) : ToProxy proxy packet delivery := by
  rw [redirectionOf] at hredirection
  split at hredirection
  case h_2 => cases hredirection
  case h_1 saddr daddr protocol sport port hsource hcarried =>
    obtain ⟨_, hredirection⟩ := Option.ite_none_right_eq_some.1 hredirection
    refine ⟨protocol, sport, port, destination, hcarried,
      mem_of_mem_filter (mem_redirections hredirection), hdnat, ?_, ?_⟩
    · simp [Packet.daddr?, hnetwork, Packet.redirected, hsource]
    · simp [htransport, Packet.redirected, hcarried]

theorem direct_of_ownWay (hredirection : redirectionOf network policy proxy packet = none)
    (hnetwork : packet.network = .ipv4 saddr daddr)
    (hown : ownWay network policy around packet saddr daddr = true) :
    Direct policy around packet ⟨.forward, packet.routed around, true⟩ := by
  simp only [ownWay, Bool.and_eq_true, decide_eq_true_eq, Bool.not_eq_true'] at hown
  obtain ⟨⟨⟨_, hsaddr⟩, hblocked⟩, hadmits⟩ := hown
  cases htransport : packet.transport with
  | other number => simp [htransport, admits] at hadmits
  | ports protocol sport port =>
    cases protocol with
    | udp => simp [htransport, admits] at hadmits
    | tcp =>
      simp only [htransport, admits, Bool.and_eq_true, Bool.or_eq_true, decide_eq_true_eq]
        at hadmits
      have hport (taken : ℕ) (htaken : taken = 80 ∨ taken = 443 ∨ taken = 53) : port ≠ taken := by
        intro heq
        subst heq
        simp only [redirectionOf, hnetwork, htransport, hsaddr, if_true] at hredirection
        exact redirection_ne_none htaken hadmits.1 hredirection
      constructor
      · refine ⟨sport, port, htransport, hport 80 (by simp), hport 443 (by simp),
          hport 53 (by simp), ?_⟩
        intro ports hports
        simpa [hports] using hadmits.1
      · refine ⟨daddr, by simp [Packet.daddr?, hnetwork], ?_, hadmits.2⟩
        intro cidr hcidr
        simpa using any_eq_false.1 hblocked cidr hcidr
      · rfl

/-- What passes with a proxy was redirected to it or goes its own way. -/
theorem proxied_cases (hsent : SentByGuest network packet)
    (hdelivery : traverse (proxyNetworkFirewallRules network policy proxy) around packet =
      some delivery) :
    (∃ daddr, packet.network = .ipv4 network.guestIp daddr) ∧
      (ToProxy proxy packet delivery ∨
        delivery.hook = .forward ∧ delivery.packet.daddr?.any exoNetworkCidr.contains = false ∧
          Direct policy around packet delivery) := by
  cases hredirection : redirectionOf network policy proxy packet with
  | some destination =>
    rw [traverse_redirected hsent hredirection] at hdelivery
    have htoProxy : ToProxy proxy packet delivery := by
      split_ifs at hdelivery <;> cases hdelivery
      · exact toProxy_of_redirected hredirection rfl rfl rfl
      · exact toProxy_of_redirected hredirection rfl rfl rfl
    refine ⟨?_, .inl htoProxy⟩
    rw [redirectionOf] at hredirection
    split at hredirection
    case h_2 => cases hredirection
    case h_1 saddr daddr protocol sport port hnetwork _ =>
      exact ⟨daddr, (Option.ite_none_right_eq_some.1 hredirection).1 ▸ hnetwork⟩
  | none =>
    rw [traverse_not_redirected hsent hredirection] at hdelivery
    cases hnetwork : packet.network with
    | ipv6 saddr daddr => simp [hnetwork] at hdelivery
    | ipv4 saddr daddr =>
      simp only [hnetwork, Option.ite_none_right_eq_some, Option.some.injEq] at hdelivery
      obtain ⟨hown, rfl⟩ := hdelivery
      have hdirect := direct_of_ownWay hredirection hnetwork hown
      simp only [ownWay, Bool.and_eq_true, decide_eq_true_eq, Bool.not_eq_true'] at hown
      refine ⟨⟨daddr, by rw [hown.1.1.2]⟩, .inr ⟨rfl, ?_, hdirect⟩⟩
      have hdaddr : (packet.routed around).daddr? = some daddr := by
        rw [Packet.routed_daddr?, Packet.daddr?, hnetwork, Network.daddr?_ipv4]
      rw [hdaddr, Option.any_some]
      by_contra hexo
      rw [Bool.not_eq_false] at hexo
      have hblocked := any_eq_true.2 (blocked_of_exoNetworkCidr hexo)
      rw [hown.1.2] at hblocked
      cases hblocked

theorem guestCidr_contains_guestIp (slot : ℕ) :
    (networkConfig slot).guestCidr.contains (networkConfig slot).guestIp = true := by
  simp only [networkConfig, ipv4Add, networkBase, Ipv4Net.contains, beq_iff_eq]
  change _ / 2 ^ 2 = _ / 2 ^ 2
  have hbase : BitVec.toNat (183500800 : Ipv4Addr) = 183500800 := rfl
  simp only [BitVec.toNat_add, BitVec.toNat_ofNat, hbase]
  omega

/-- What passes without a proxy leaves by its admitted addresses. -/
theorem unproxied_cases (hsent : SentByGuest network packet)
    (hdelivery : traverse (networkFirewallRules config network policy none) around packet =
      some delivery) :
    ∃ saddr daddr, packet.network = .ipv4 saddr daddr ∧
      addressesAdmitted config network policy saddr daddr = true ∧
      delivery = ⟨.forward, packet.routed around, true⟩ := by
  rw [traverse_unproxied hsent] at hdelivery
  cases hnetwork : packet.network with
  | ipv6 saddr daddr => simp [hnetwork] at hdelivery
  | ipv4 saddr daddr =>
    simp only [hnetwork, Option.ite_none_right_eq_some, Option.some.injEq, Bool.and_eq_true]
      at hdelivery
    exact ⟨saddr, daddr, rfl, hdelivery.1.2, hdelivery.2.symm⟩

theorem addressesAdmitted_iff : addressesAdmitted config network policy saddr daddr = true ↔
      network.guestCidr.contains saddr = true ∧ exoNetworkCidr.contains daddr = false ∧
      ((∃ cidr ∈ config.allowedEgressCidrs, cidr.contains daddr = true) ∨
        policy.networking = .unrestricted ∧
          ∀ cidr ∈ blockedEgressCidrs, cidr.contains daddr = false) := by
  simp only [addressesAdmitted, Bool.and_eq_true, Bool.or_eq_true, Bool.not_eq_true',
    decide_eq_true_eq, any_eq_true, any_eq_false, Bool.not_eq_true, and_assoc]

theorem implementsPolicy_none (hsent : SentByGuest network packet) :
    ImplementsPolicy config network policy none around packet where
  source delivery hdelivery := by
    obtain ⟨saddr, daddr, hnetwork, hadmitted, _⟩ := unproxied_cases hsent hdelivery
    exact ⟨saddr, daddr, hnetwork, (addressesAdmitted_iff.1 hadmitted).1⟩
  host delivery hdelivery hhost := by
    obtain ⟨saddr, daddr, hnetwork, hadmitted, rfl⟩ := unproxied_cases hsent hdelivery
    have hexo := (addressesAdmitted_iff.1 hadmitted).2.1
    have hdaddr : (packet.routed around).daddr? = some daddr := by
      rw [Packet.routed_daddr?, Packet.daddr?, hnetwork, Network.daddr?_ipv4]
    simp [hdaddr, hexo] at hhost
  unproxied _ saddr daddr hnetwork hsaddr hlocal := by
    rw [traverse_unproxied hsent]
    simp only [hnetwork] at hlocal ⊢
    rw [hlocal, Bool.not_false, Bool.true_and, Option.isSome_ite, addressesAdmitted_iff]
    exact and_iff_right hsaddr
  proxied := nofun
  disabled _ hdisabled delivery hdelivery := by
    obtain ⟨saddr, daddr, hnetwork, hadmitted, _⟩ := unproxied_cases hsent hdelivery
    have hdaddr : packet.daddr? = some daddr := by rw [Packet.daddr?, hnetwork, Network.daddr?_ipv4]
    obtain hallowed | ⟨hunrestricted, _⟩ := (addressesAdmitted_iff.1 hadmitted).2.2
    · exact ⟨daddr, hdaddr, hallowed⟩
    · rw [hdisabled] at hunrestricted
      cases hunrestricted

theorem implementsPolicy_some (hsent : SentByGuest network packet)
    (hguest : network.guestCidr.contains network.guestIp = true) :
    ImplementsPolicy config network policy (some proxy) around packet where
  source delivery hdelivery := by
    obtain ⟨⟨daddr, hnetwork⟩, _⟩ := proxied_cases hsent hdelivery
    exact ⟨network.guestIp, daddr, hnetwork, hguest⟩
  host delivery hdelivery hhost := by
    obtain ⟨_, htoProxy | ⟨hhook, hexo, _⟩⟩ := proxied_cases hsent hdelivery
    · exact ⟨proxy, rfl, htoProxy⟩
    · simp [hhook, hexo] at hhost
  unproxied hnone := by cases hnone
  proxied other hother delivery hdelivery := by
    cases hother
    obtain ⟨_, htoProxy | ⟨_, _, hdirect⟩⟩ := proxied_cases hsent hdelivery
    · exact .inl htoProxy
    · exact .inr hdirect
  disabled hprepare hdisabled := by
    rw [prepareRequest, if_pos hdisabled] at hprepare
    cases hprepare

/-- The rules of every machine implement its policy. -/
theorem firewall_implements_policy (config : FirewallConfig) (slot : ℕ) (policy : EgressPolicy)
    (egressProxy : Option SandboxEgressProxy) (around : Surroundings) (packet : Packet)
    (hsent : SentByGuest (networkConfig slot) packet) :
    ImplementsPolicy config (networkConfig slot) policy egressProxy around packet := by
  cases egressProxy with
  | none => exact implementsPolicy_none hsent
  | some proxy => exact implementsPolicy_some hsent (guestCidr_contains_guestIp slot)

end Deliveries

/-! ## A machine whose networking is disabled -/

/-- A host with the address 192.168.0.2 whose only other route leads to `eth0`. -/
def plainHost : Surroundings where
  isLocal network := network.daddr? == some 0xc0a80002
  route _ := "eth0"
  sets _ _ := false

/-- TCP from the guest of slot 1 to port 443 of 192.0.2.1. -/
def testPacket : Packet where
  iifname := (networkConfig 1).hostVeth
  oifname := ""
  network := .ipv4 (networkConfig 1).guestIp 0xc0000201
  transport := .ports .tcp 50000 443
  ctState := .new
  ctReply := false
  ctDnat := false

/-- The operator admits 192.0.2.0/24. -/
def testConfig : FirewallConfig := ⟨[⟨0xc0000200, 24⟩]⟩

def disabledPolicy : EgressPolicy := ⟨.disabled, none, []⟩

theorem firewall_implements_policy_disabled : SentByGuest (networkConfig 1) testPacket ∧
      ImplementsPolicy testConfig (networkConfig 1) disabledPolicy none plainHost testPacket :=
  ⟨⟨rfl, rfl, rfl, rfl⟩,
    firewall_implements_policy testConfig 1 disabledPolicy none plainHost testPacket
      ⟨rfl, rfl, rfl, rfl⟩⟩

/-- A machine without networking reaches what the operator admits. -/
theorem disabled_reaches_allowed : SentByGuest (networkConfig 1) testPacket ∧
      prepareRequest disabledPolicy none = .ok () ∧ disabledPolicy.networking = .disabled ∧
      traverse (networkFirewallRules testConfig (networkConfig 1) disabledPolicy none) plainHost
        testPacket = some ⟨.forward, testPacket.routed plainHost, true⟩ := by
  refine ⟨⟨rfl, rfl, rfl, rfl⟩, rfl, rfl, ?_⟩
  decide +kernel

end Exo.Firecracker
