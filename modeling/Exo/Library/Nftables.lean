import Mathlib.Algebra.Ring.Nat
import Mathlib.Data.List.Basic
import Mathlib.Data.Nat.Notation

/-!
# Packet filters

A table has chains, each bound to one hook, and each chain is an ordered list of rules.  The first
rule whose selectors all match gives the verdict, and a chain without one accepts.  A packet that
reaches the host passes the prerouting hook, then the input hook when its destination is an address
of the host and the forward hook otherwise.
-/

namespace Exo.Library.Nft

abbrev Ipv4Addr := BitVec 32

instance neZero_prefixLens : NeZero 33 := inferInstance

/-- An address block; `prefixLen` bits of the address are fixed. -/
structure Ipv4Net where
  addr : Ipv4Addr
  prefixLen : Fin 33
  deriving DecidableEq

def Ipv4Net.contains (net : Ipv4Net) (addr : Ipv4Addr) : Bool :=
  addr.toNat / 2 ^ (32 - net.prefixLen.val) == net.addr.toNat / 2 ^ (32 - net.prefixLen.val)

/-- An address and a port. -/
structure SocketAddr where
  ip : Ipv4Addr
  port : ℕ

inductive Network where
  | ipv4 (saddr daddr : Ipv4Addr)
  | ipv6 (saddr daddr : BitVec 128)
  deriving DecidableEq

inductive Protocol where
  | tcp
  | udp
  deriving DecidableEq

/-- The transport header; other protocols have no port. -/
inductive Transport where
  | ports (protocol : Protocol) (sport dport : ℕ)
  | other (number : ℕ)
  deriving DecidableEq

inductive CtState where
  | new
  | established
  | related
  | invalid
  | untracked
  deriving DecidableEq

/-- A packet with what connection tracking knows of it; `ctDnat` says that its destination was
rewritten. -/
structure Packet where
  iifname : String
  oifname : String
  network : Network
  transport : Transport
  ctState : CtState
  ctReply : Bool
  ctDnat : Bool
  deriving DecidableEq

def Network.saddr? : Network → Option Ipv4Addr
  | ipv4 saddr _ => some saddr
  | ipv6 _ _ => none

def Network.daddr? : Network → Option Ipv4Addr
  | ipv4 _ daddr => some daddr
  | ipv6 _ _ => none

section Addresses
variable (saddr daddr : Ipv4Addr) (saddr6 daddr6 : BitVec 128)

@[simp] theorem Network.saddr?_ipv4 : (Network.ipv4 saddr daddr).saddr? = some saddr := rfl

@[simp] theorem Network.saddr?_ipv6 : (Network.ipv6 saddr6 daddr6).saddr? = none := rfl

@[simp] theorem Network.daddr?_ipv4 : (Network.ipv4 saddr daddr).daddr? = some daddr := rfl

@[simp] theorem Network.daddr?_ipv6 : (Network.ipv6 saddr6 daddr6).daddr? = none := rfl

end Addresses

def Packet.saddr? (packet : Packet) : Option Ipv4Addr := packet.network.saddr?

def Packet.daddr? (packet : Packet) : Option Ipv4Addr := packet.network.daddr?

inductive Hook where
  | prerouting
  | input
  | forward
  | postrouting
  deriving DecidableEq

/-- One selector of a rule.  A selector on IPv4 addresses matches IPv4 packets only. -/
inductive Selector where
  | iifname (name : String)
  | oifname (name : String)
  | nfprotoIpv6
  | saddr (addr : Ipv4Addr)
  | saddrNot (addr : Ipv4Addr)
  | saddrIn (net : Ipv4Net)
  | saddrNotIn (net : Ipv4Net)
  | daddr (addr : Ipv4Addr)
  | daddrIn (net : Ipv4Net)
  | daddrInAny (nets : List Ipv4Net)
  | daddrInSet (set : String)
  | l4proto (protocol : Protocol)
  | dport (protocol : Protocol) (port : ℕ)
  | dportIn (protocol : Protocol) (ports : List ℕ)
  | ctState (states : List CtState)
  | ctStatusDnat
  | ctDirectionReply

inductive Verdict where
  | accept
  | drop
  | reject
  | dnat (destination : SocketAddr)
  | masquerade

structure Rule where
  selectors : List Selector
  verdict : Verdict

/-- One line of a rule file; a chain is named after its hook. -/
inductive Command where
  | addTable
  | addChain (hook : Hook) (kind priority : String)
  | addSet (set elements : String)
  | addRule (hook : Hook) (rule : Rule)

/-- The rules that a file adds to the chain of a hook, in order. -/
def rulesOf (commands : List Command) (hook : Hook) : List Rule :=
  commands.filterMap fun
    | .addRule chain rule => if chain = hook then some rule else none
    | _ => none

@[simp] theorem rulesOf_nil (hook : Hook) : rulesOf [] hook = [] := rfl

@[simp] theorem rulesOf_append (first second : List Command) (hook : Hook) :
    rulesOf (first ++ second) hook = rulesOf first hook ++ rulesOf second hook :=
  List.filterMap_append

@[simp] theorem rulesOf_addTable (commands : List Command) (hook : Hook) :
    rulesOf (.addTable :: commands) hook = rulesOf commands hook := rfl

@[simp] theorem rulesOf_addChain (chain hook : Hook) (kind priority : String)
    (commands : List Command) :
    rulesOf (.addChain chain kind priority :: commands) hook = rulesOf commands hook := rfl

@[simp] theorem rulesOf_addSet (set elements : String) (commands : List Command) (hook : Hook) :
    rulesOf (.addSet set elements :: commands) hook = rulesOf commands hook := rfl

@[simp] theorem rulesOf_addRule (chain hook : Hook) (rule : Rule) (commands : List Command) :
    rulesOf (.addRule chain rule :: commands) hook =
      if chain = hook then rule :: rulesOf commands hook else rulesOf commands hook := by
  rw [rulesOf, List.filterMap_cons]
  split <;> split_ifs at * <;> simp_all [rulesOf]

/-- Rules added to one chain are rules of that chain only. -/
@[simp] theorem rulesOf_map_addRule (chain hook : Hook) (rules : List Rule) :
    rulesOf (rules.map (.addRule chain)) hook = if chain = hook then rules else [] := by
  induction rules with
  | nil => simp
  | cons rule rest ih =>
    rw [List.map_cons, rulesOf_addRule, ih]
    split_ifs <;> rfl

section Evaluation

-- The elements of the named sets.
variable (sets : String → Ipv4Addr → Bool)

def Selector.holds (packet : Packet) : Selector → Bool
  | iifname name => packet.iifname == name
  | oifname name => packet.oifname == name
  | nfprotoIpv6 =>
    match packet.network with
    | .ipv4 _ _ => false
    | .ipv6 _ _ => true
  | saddr addr => packet.saddr?.any (· == addr)
  | saddrNot addr => packet.saddr?.any (· != addr)
  | saddrIn net => packet.saddr?.any net.contains
  | saddrNotIn net => packet.saddr?.any fun saddr ↦ !net.contains saddr
  | daddr addr => packet.daddr?.any (· == addr)
  | daddrIn net => packet.daddr?.any net.contains
  | daddrInAny nets => packet.daddr?.any fun daddr ↦ nets.any (·.contains daddr)
  | daddrInSet set => packet.daddr?.any (sets set)
  | l4proto protocol =>
    match packet.transport with
    | .ports carried _ _ => carried == protocol
    | .other _ => false
  | dport protocol port =>
    match packet.transport with
    | .ports carried _ carriedPort => carried == protocol && carriedPort == port
    | .other _ => false
  | dportIn protocol ports =>
    match packet.transport with
    | .ports carried _ carriedPort => carried == protocol && ports.contains carriedPort
    | .other _ => false
  | ctState states => states.contains packet.ctState
  | ctStatusDnat => packet.ctDnat
  | ctDirectionReply => packet.ctReply

def Rule.holds (packet : Packet) (rule : Rule) : Bool :=
  rule.selectors.all (·.holds sets packet)

/-- The verdict of a chain: that of its first rule that holds. -/
def evaluate (packet : Packet) : List Rule → Verdict
  | [] => .accept
  | rule :: rest => if rule.holds sets packet then rule.verdict else evaluate packet rest

variable {packet : Packet} {rules : List Rule}

/-- The verdict of rules with one verdict, with the rules after them. -/
theorem evaluate_append_of_verdict {verdict : Verdict} (rest : List Rule)
    (hverdict : ∀ rule ∈ rules, rule.verdict = verdict) :
    evaluate sets packet (rules ++ rest) =
      if rules.any (·.holds sets packet) then verdict else evaluate sets packet rest := by
  induction rules with
  | nil => rfl
  | cons rule rules ih =>
    rw [List.cons_append, evaluate, List.any_cons]
    cases rule.holds sets packet with
    | true => exact hverdict rule List.mem_cons_self
    | false => exact ih fun other hother ↦ hverdict other (List.mem_cons_of_mem rule hother)

/-- The verdict of rules that are written from a list. -/
theorem evaluate_map {α : Type*} (packet : Packet) (rule : α → Rule) (items : List α) :
    evaluate sets packet (items.map rule) =
      ((items.find? fun item ↦ (rule item).holds sets packet).map fun item ↦
        (rule item).verdict).getD .accept := by
  induction items with
  | nil => rfl
  | cons item rest ih =>
    rw [List.map_cons, evaluate, List.find?_cons]
    cases (rule item).holds sets packet with
    | true => rfl
    | false => simpa using ih

end Evaluation

/-- The host around a table: its own addresses, its routes and the elements of the named sets. -/
structure Surroundings where
  isLocal : Network → Bool
  route : Network → String
  sets : String → Ipv4Addr → Bool

/-- A packet that passed the table: at `input` it reaches the host, at `forward` it leaves on an
interface, with the source replaced when `masqueraded`. -/
structure Delivery where
  hook : Hook
  packet : Packet
  masqueraded : Bool
  deriving DecidableEq

/-- The packet with its destination rewritten; ports other than those of TCP and UDP stay. -/
def Packet.redirected (packet : Packet) (destination : SocketAddr) : Packet :=
  { packet with
    network := match packet.network with
      | .ipv4 saddr _ => .ipv4 saddr destination.ip
      | .ipv6 saddr daddr => .ipv6 saddr daddr
    transport := match packet.transport with
      | .ports protocol sport _ => .ports protocol sport destination.port
      | .other number => .other number
    ctDnat := true }

def prerouted (commands : List Command) (around : Surroundings) (packet : Packet) : Option Packet :=
  match evaluate around.sets packet (rulesOf commands .prerouting) with
  | .drop | .reject => none
  | .dnat destination => some (packet.redirected destination)
  | .accept | .masquerade => some packet

/-- Whether a verdict of a filter chain lets the packet pass. -/
def Verdict.passes : Verdict → Bool
  | drop | reject => false
  | accept | dnat _ | masquerade => true

/-- The packet with the interface that the routes give it. -/
def Packet.routed (around : Surroundings) (packet : Packet) : Packet :=
  { packet with oifname := around.route packet.network }

section Routed
variable (around : Surroundings) (packet : Packet)

@[simp] theorem Packet.routed_iifname : (packet.routed around).iifname = packet.iifname := rfl

@[simp] theorem Packet.routed_network : (packet.routed around).network = packet.network := rfl

@[simp] theorem Packet.routed_transport : (packet.routed around).transport = packet.transport := rfl

@[simp] theorem Packet.routed_ctReply : (packet.routed around).ctReply = packet.ctReply := rfl

@[simp] theorem Packet.routed_ctDnat : (packet.routed around).ctDnat = packet.ctDnat := rfl

@[simp] theorem Packet.routed_daddr? : (packet.routed around).daddr? = packet.daddr? := rfl

end Routed

section
variable (commands : List Command) (around : Surroundings) (packet : Packet)

def received : Option Delivery :=
  if (evaluate around.sets packet (rulesOf commands .input)).passes then
    some ⟨.input, packet, false⟩
  else none

def forwarded : Option Delivery :=
  let packet := packet.routed around
  if (evaluate around.sets packet (rulesOf commands .forward)).passes then
    match evaluate around.sets packet (rulesOf commands .postrouting) with
    | .drop | .reject => none
    | .masquerade => some ⟨.forward, packet, true⟩
    | .accept | .dnat _ => some ⟨.forward, packet, false⟩
  else none

/-- What becomes of the first packet of a connection when it arrives at the host. -/
def traverse : Option Delivery :=
  (prerouted commands around packet).bind fun packet ↦
    if around.isLocal packet.network then received commands around packet
    else forwarded commands around packet

end

section Traverse
variable {commands : List Command} {around : Surroundings} {packet : Packet}

theorem prerouted_of_accept
    (haccept : evaluate around.sets packet (rulesOf commands .prerouting) = .accept) :
    prerouted commands around packet = some packet := by
  rw [prerouted, haccept]

theorem prerouted_of_dnat {destination : SocketAddr}
    (hdnat : evaluate around.sets packet (rulesOf commands .prerouting) = .dnat destination) :
    prerouted commands around packet = some (packet.redirected destination) := by
  rw [prerouted, hdnat]

/-- The verdicts of the chains decide, where what leaves gets the address of the host. -/
theorem traverse_of_verdicts {after : Packet} (enters leaves : Bool)
    (hprerouted : prerouted commands around packet = some after)
    (hinput : (evaluate around.sets after (rulesOf commands .input)).passes = enters)
    (hforward : (evaluate around.sets (after.routed around) (rulesOf commands .forward)).passes =
      leaves)
    (hpostrouting : leaves = true →
      evaluate around.sets (after.routed around) (rulesOf commands .postrouting) = .masquerade) :
    traverse commands around packet =
      if around.isLocal after.network then if enters then some ⟨.input, after, false⟩ else none
      else if leaves then some ⟨.forward, after.routed around, true⟩ else none := by
  rw [traverse, hprerouted, Option.bind_some, received, forwarded, hinput, hforward]
  cases leaves with
  | false => rfl
  | true => rw [hpostrouting rfl]

end Traverse

end Exo.Library.Nft
