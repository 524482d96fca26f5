import Exo.Firecracker.Network
import Exo.Library.Checks

/-!
# The address range of the slots

The blocks of the slots partition 10.240.0.0/14: every address of the range is in the transit block
or the guest block of exactly one slot.  Everything else that is derived from a slot determines it.
-/

namespace Exo.Firecracker

open Library Library.Nft Storage

/-- The block of the two ends of the veth pair. -/
def transitCidr (slot : ℕ) : Ipv4Net := ⟨ipv4Add networkBase (slot * 2 * 4), 30⟩

/-- The context id of the guest's vsock. -/
def guestCid (slot : ℕ) : ℕ := slot + 3

/-- `jailer_uid` -/
def jailerUid (jailerUidBase slot : ℕ) : Except String ℕ :=
  if jailerUidBase + slot < 2 ^ 32 then .ok (jailerUidBase + slot)
  else .error "Firecracker jailer UID overflow"

/-- What `validate_host_blocking` checks of `jailer_uid_base`. -/
def validateJailerUidBase (jailerUidBase : ℕ) : Except String Unit :=
  if jailerUidBase < 65536 then .error "Firecracker jailer UID base must be at least 65536"
  else ensure (jailerUidBase + maxResourceSlots < 2 ^ 32)
    "Firecracker jailer UID range overflows u32"

/-- The table that `FirecrackerDns::resolve` admits the answers of a guest to. -/
def dnsTable (source : Ipv4Addr) : Except String String :=
  if networkBase.toNat ≤ source.toNat then
    let offset := source.toNat - networkBase.toNat
    if offset % 8 = 6 then .ok (networkConfig (offset / 8)).nftTable
    else .error "invalid Firecracker DNS source"
  else .error "invalid Firecracker DNS source"

section Blocks
variable {slot other : ℕ} {address : Ipv4Addr}

theorem toNat_ipv4Add {base : Ipv4Addr} {offset : ℕ} (hbound : base.toNat + offset < 2 ^ 32) :
    (ipv4Add base offset).toNat = base.toNat + offset := by
  rw [ipv4Add, BitVec.toNat_add, BitVec.toNat_ofNat, Nat.mod_eq_of_lt (by omega : offset < 2 ^ 32),
    Nat.mod_eq_of_lt hbound]

theorem toNat_networkBase : networkBase.toNat = 183500800 := rfl

section
variable (hslot : slot < maxResourceSlots)
include hslot

theorem toNat_transitBase : (ipv4Add networkBase (slot * 2 * 4)).toNat = 183500800 + slot * 8 := by
  rw [maxResourceSlots] at hslot
  rw [toNat_ipv4Add (by rw [toNat_networkBase]; omega), toNat_networkBase]
  omega

theorem toNat_guestBase :
    (ipv4Add networkBase ((slot * 2 + 1) * 4)).toNat = 183500800 + slot * 8 + 4 := by
  rw [maxResourceSlots] at hslot
  rw [toNat_ipv4Add (by rw [toNat_networkBase]; omega), toNat_networkBase]
  omega

theorem transitCidr_contains_iff :
    (transitCidr slot).contains address = true ↔ address.toNat / 4 = 45875200 + 2 * slot := by
  rw [transitCidr, Ipv4Net.contains, beq_iff_eq, toNat_transitBase hslot]
  show address.toNat / 2 ^ 2 = (183500800 + slot * 8) / 2 ^ 2 ↔ _
  omega

theorem guestCidr_contains_iff : (networkConfig slot).guestCidr.contains address = true ↔
      address.toNat / 4 = 45875200 + 2 * slot + 1 := by
  have hguest : (networkConfig slot).guestCidr =
      ⟨ipv4Add networkBase ((slot * 2 + 1) * 4), 30⟩ := rfl
  rw [hguest, Ipv4Net.contains, beq_iff_eq, toNat_guestBase hslot]
  show address.toNat / 2 ^ 2 = (183500800 + slot * 8 + 4) / 2 ^ 2 ↔ _
  omega

end

theorem exoNetworkCidr_contains_iff :
    exoNetworkCidr.contains address = true ↔ address.toNat / 262144 = 700 := by
  rw [exoNetworkCidr, Ipv4Net.contains, beq_iff_eq, toNat_networkBase]
  show address.toNat / 2 ^ 18 = 183500800 / 2 ^ 18 ↔ _
  omega

/-- The address is in a block of the slot. -/
def InSlot (slot : ℕ) (address : Ipv4Addr) : Prop :=
  (transitCidr slot).contains address = true ∨
    (networkConfig slot).guestCidr.contains address = true

theorem inSlot_iff (hslot : slot < maxResourceSlots) :
    InSlot slot address ↔ address.toNat / 8 = 22937600 + slot := by
  rw [InSlot, transitCidr_contains_iff hslot, guestCidr_contains_iff hslot]
  omega

theorem transit_guest_disjoint (hslot : slot < maxResourceSlots)
    (htransit : (transitCidr slot).contains address = true) :
    (networkConfig slot).guestCidr.contains address = false := by
  rw [transitCidr_contains_iff hslot] at htransit
  by_contra hguest
  rw [Bool.not_eq_false, guestCidr_contains_iff hslot] at hguest
  omega

theorem exoNetworkCidr_iff_exists_slot :
    exoNetworkCidr.contains address = true ↔ ∃ slot < maxResourceSlots, InSlot slot address := by
  rw [exoNetworkCidr_contains_iff]
  constructor
  · intro hrange
    have hslot : address.toNat / 8 - 22937600 < maxResourceSlots := by
      rw [maxResourceSlots]
      omega
    refine ⟨address.toNat / 8 - 22937600, hslot, ?_⟩
    rw [inSlot_iff hslot]
    omega
  · intro hexists
    obtain ⟨slot, hslot, hin⟩ := hexists
    rw [inSlot_iff hslot] at hin
    rw [maxResourceSlots] at hslot
    omega

theorem slot_eq_of_inSlot (hslot : slot < maxResourceSlots) (hother : other < maxResourceSlots)
    (hin : InSlot slot address) (hinOther : InSlot other address) : slot = other := by
  rw [inSlot_iff hslot] at hin
  rw [inSlot_iff hother] at hinOther
  omega

end Blocks

section Names
variable {slot other : ℕ}

theorem paddedHex_injective {width value other : ℕ} (hvalue : value < 16 ^ width)
    (hother : other < 16 ^ width) (heq : paddedHex width value = paddedHex width other) :
    value = other := by
  have hread := congrArg readHex heq
  rw [readHex_paddedHex, readHex_paddedHex, Nat.mod_eq_of_lt hvalue, Nat.mod_eq_of_lt hother]
    at hread
  exact Option.some.inj hread

/-- A name that ends in the digits of the slot determines it. -/
theorem slot_eq_of_name (start : String) (hslot : slot < maxResourceSlots)
    (hother : other < maxResourceSlots)
    (heq : start ++ String.ofList (paddedHex 8 slot) = start ++ String.ofList (paddedHex 8 other)) :
    slot = other := by
  have hdigits : paddedHex 8 slot = paddedHex 8 other := by
    have hlists := congrArg String.toList heq
    simpa using hlists
  rw [maxResourceSlots] at hslot hother
  exact paddedHex_injective (by omega) (by omega) hdigits

theorem slot_eq_of_mac (hslot : slot < maxResourceSlots) (hother : other < maxResourceSlots)
    (heq : (networkConfig slot).guestMac = (networkConfig other).guestMac) : slot = other := by
  have hlists := congrArg String.toList heq
  simp only [networkConfig, String.toList_append, String.toList_ofList, List.append_assoc,
    List.append_cancel_left_eq] at hlists
  have hhigh := List.append_inj_left hlists (by rw [length_paddedHex, length_paddedHex])
  have hrest := List.append_inj_right hlists (by rw [length_paddedHex, length_paddedHex])
  have hlow := List.append_cancel_left hrest
  have hhighEq := paddedHex_injective (by omega) (by omega) hhigh
  have hlowEq := paddedHex_injective (by omega) (by omega) hlow
  rw [maxResourceSlots] at hslot hother
  omega

end Names

/-- Everything derived from a slot is its own, and inside its range. -/
structure SlotNetworks (jailerUidBase : ℕ) : Prop where
  inRange : ∀ slot < maxResourceSlots, ∀ address, InSlot slot address →
    exoNetworkCidr.contains address = true
  blocks : ∀ slot < maxResourceSlots, ∀ other < maxResourceSlots, ∀ address,
    InSlot slot address → InSlot other address → slot = other
  halves : ∀ slot < maxResourceSlots, ∀ address, (transitCidr slot).contains address = true →
    (networkConfig slot).guestCidr.contains address = false
  namespaceName : ∀ slot < maxResourceSlots, ∀ other < maxResourceSlots,
    (networkConfig slot).namespaceName = (networkConfig other).namespaceName → slot = other
  hostVeth : ∀ slot < maxResourceSlots, ∀ other < maxResourceSlots,
    (networkConfig slot).hostVeth = (networkConfig other).hostVeth → slot = other
  namespaceVeth : ∀ slot < maxResourceSlots, ∀ other < maxResourceSlots,
    (networkConfig slot).namespaceVeth = (networkConfig other).namespaceVeth → slot = other
  nftTable : ∀ slot < maxResourceSlots, ∀ other < maxResourceSlots,
    (networkConfig slot).nftTable = (networkConfig other).nftTable → slot = other
  guestMac : ∀ slot < maxResourceSlots, ∀ other < maxResourceSlots,
    (networkConfig slot).guestMac = (networkConfig other).guestMac → slot = other
  guestCid : ∀ slot < maxResourceSlots, ∀ other < maxResourceSlots,
    guestCid slot = guestCid other → slot = other
  jailerUid : ∀ slot < maxResourceSlots, ∀ other < maxResourceSlots,
    jailerUid jailerUidBase slot = jailerUid jailerUidBase other → slot = other
  /-- No sum leaves 32 bits. -/
  bounds : ∀ slot < maxResourceSlots,
    networkBase.toNat + (slot * 2 + 1) * 4 + 2 < 2 ^ 32 ∧ Firecracker.guestCid slot < 2 ^ 32 ∧
      Firecracker.jailerUid jailerUidBase slot = .ok (jailerUidBase + slot)
  dns : ∀ slot < maxResourceSlots,
    dnsTable (networkConfig slot).guestIp = .ok (networkConfig slot).nftTable

theorem toNat_guestIp {slot : ℕ} (hslot : slot < maxResourceSlots) :
    (networkConfig slot).guestIp.toNat = 183500800 + slot * 8 + 6 := by
  have hguest : (networkConfig slot).guestIp =
      ipv4Add (ipv4Add networkBase ((slot * 2 + 1) * 4)) 2 := rfl
  have hbase := toNat_guestBase hslot
  rw [maxResourceSlots] at hslot
  rw [hguest, toNat_ipv4Add (by omega), hbase]

theorem jailerUid_eq {jailerUidBase slot : ℕ}
    (hbase : validateJailerUidBase jailerUidBase = .ok ()) (hslot : slot < maxResourceSlots) :
    jailerUid jailerUidBase slot = .ok (jailerUidBase + slot) := by
  rw [validateJailerUidBase] at hbase
  split_ifs at hbase
  have hbound := ensure_eq_ok.1 hbase
  rw [decide_eq_true_eq] at hbound
  exact if_pos (by omega)

/-- The networks of the slots of a host that was validated. -/
theorem slotNetworks {jailerUidBase : ℕ} (hbase : validateJailerUidBase jailerUidBase = .ok ()) :
    SlotNetworks jailerUidBase where
  inRange slot hslot address hin := exoNetworkCidr_iff_exists_slot.2 ⟨slot, hslot, hin⟩
  blocks slot hslot other hother address := slot_eq_of_inSlot hslot hother
  halves slot hslot address := transit_guest_disjoint hslot
  namespaceName slot hslot other hother := slot_eq_of_name "fc-" hslot hother
  hostVeth slot hslot other hother := slot_eq_of_name "fch" hslot hother
  namespaceVeth slot hslot other hother := slot_eq_of_name "fcn" hslot hother
  nftTable slot hslot other hother := slot_eq_of_name "exo_fc_" hslot hother
  guestMac slot hslot other hother := slot_eq_of_mac hslot hother
  guestCid slot _ other _ heq := Nat.add_right_cancel heq
  jailerUid slot hslot other hother heq := by
    rw [jailerUid_eq hbase hslot, jailerUid_eq hbase hother] at heq
    exact Nat.add_left_cancel (Except.ok.inj heq)
  bounds slot hslot := by
    refine ⟨?_, ?_, jailerUid_eq hbase hslot⟩
    · rw [maxResourceSlots] at hslot
      rw [toNat_networkBase]
      omega
    · rw [maxResourceSlots] at hslot
      rw [Firecracker.guestCid]
      omega
  dns slot hslot := by
    have hoffset : (networkConfig slot).guestIp.toNat - networkBase.toNat = slot * 8 + 6 := by
      rw [toNat_guestIp hslot, toNat_networkBase]
      omega
    have hle : networkBase.toNat ≤ (networkConfig slot).guestIp.toNat := by
      rw [toNat_guestIp hslot, toNat_networkBase]
      omega
    have hmod : (slot * 8 + 6) % 8 = 6 := by omega
    have hdiv : (slot * 8 + 6) / 8 = slot := by omega
    simp only [dnsTable, if_pos hle, hoffset, if_pos hmod, hdiv]

end Exo.Firecracker
