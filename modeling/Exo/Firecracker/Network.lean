import Exo.Library.Nftables
import Exo.Storage.Paths

/-!
# The network of a slot

Every machine has a slot, and the slot gives it a transit block and a guest block of four addresses
each, with the names of its namespace, its interfaces and its table.
-/

namespace Exo.Firecracker

open Library.Nft Storage

def maxResourceSlots : ℕ := 32768

/-- 10.240.0.0 -/
def networkBase : Ipv4Addr := 0x0af00000

/-- 10.240.0.0/14 -/
def exoNetworkCidr : Ipv4Net := ⟨networkBase, 14⟩

structure NetworkConfig where
  namespaceName : String
  hostVeth : String
  namespaceVeth : String
  nftTable : String
  transitHost : Ipv4Addr
  transitNamespace : Ipv4Addr
  guestGateway : Ipv4Addr
  guestIp : Ipv4Addr
  guestCidr : Ipv4Net
  guestMac : String

def ipv4Add (address : Ipv4Addr) (offset : ℕ) : Ipv4Addr := address + BitVec.ofNat 32 offset

def networkConfig (slot : ℕ) : NetworkConfig :=
  let transitBlock := slot * 2
  let guestBlock := transitBlock + 1
  let transitBase := ipv4Add networkBase (transitBlock * 4)
  let guestBase := ipv4Add networkBase (guestBlock * 4)
  let short : String := .ofList (paddedHex 8 slot)
  let macHigh : String := .ofList (paddedHex 2 (slot / 256 % 256))
  let macLow : String := .ofList (paddedHex 2 (slot % 256))
  { namespaceName := "fc-" ++ short
    hostVeth := "fch" ++ short
    namespaceVeth := "fcn" ++ short
    nftTable := "exo_fc_" ++ short
    transitHost := ipv4Add transitBase 1
    transitNamespace := ipv4Add transitBase 2
    guestGateway := ipv4Add guestBase 1
    guestIp := ipv4Add guestBase 2
    guestCidr := ⟨guestBase, 30⟩
    guestMac := "06:00:fc:00:" ++ macHigh ++ ":" ++ macLow }

end Exo.Firecracker
