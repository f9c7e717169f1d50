import Vpp.Schemes.Prefix

/-! Security policies (`vnet/ipsec/ipsec_spd_policy.h`) and the packets they select.

    A policy selects packets by protocol, by a range of local and of remote addresses, and by ranges of
    ports. Addresses are numbers of 128 bits; an IPv4 address lies in the low 32 bits, as in the union
    `ip46_address_t`. The linear search (`vnet/ipsec/ipsec_output.h`) and the fast path
    (`vnet/ipsec/ipsec_spd_fp_lookup.h`) each have a test of their own; for IPv6 they even compare
    addresses differently. -/

namespace Vpp.Ipsec
open Vpp.Schemes

/-- `ipsec_policy_action_t`. -/
inductive PolicyAction where
  | bypass | discard | resolve | protect
  deriving DecidableEq

/-- `ipsec_spd_policy_type_t`. -/
inductive PolicyType where
  | ip4Outbound | ip6Outbound
  | ip4InboundProtect | ip6InboundProtect
  | ip4InboundBypass | ip6InboundBypass
  | ip4InboundDiscard | ip6InboundDiscard
  deriving DecidableEq

/-- The position in `foreach_ipsec_spd_policy_type`. -/
def PolicyType.toNat : PolicyType → ℕ
  | .ip4Outbound => 0
  | .ip6Outbound => 1
  | .ip4InboundProtect => 2
  | .ip6InboundProtect => 3
  | .ip4InboundBypass => 4
  | .ip6InboundBypass => 5
  | .ip4InboundDiscard => 6
  | .ip6InboundDiscard => 7

def PolicyType.isIpv6 : PolicyType → Bool
  | .ip6Outbound | .ip6InboundProtect | .ip6InboundBypass | .ip6InboundDiscard => true
  | _ => false

def ipsecPolicyMkType (isOutbound isIpv6 : Bool) (action : PolicyAction) : Option PolicyType :=
  if isOutbound then some (if isIpv6 then .ip6Outbound else .ip4Outbound)
  else
    match action with
    | .protect => some (if isIpv6 then .ip6InboundProtect else .ip4InboundProtect)
    | .bypass => some (if isIpv6 then .ip6InboundBypass else .ip4InboundBypass)
    | .discard => some (if isIpv6 then .ip6InboundDiscard else .ip4InboundDiscard)
    | .resolve => none

/-- `ip46_address_range_t`. -/
structure AddressRange where
  start : BitVec 128
  stop : BitVec 128
  deriving DecidableEq

structure PortRange where
  start : BitVec 16
  stop : BitVec 16
  deriving DecidableEq

/-- The IPv4 member of `ip46_address_t`. -/
def ip4Of (a : BitVec 128) : BitVec 32 := a.setWidth 32

/-- `ipsec_policy_t`. Every caller of `ipsec_add_del_policy` takes the type from
    `ipsec_policy_mk_type`. The priority is signed. -/
structure IpsecPolicy where
  id : BitVec 32
  priority : BitVec 32
  type : PolicyType
  isIpv6 : Bool
  laddr : AddressRange
  raddr : AddressRange
  protocol : BitVec 8
  lport : PortRange
  rport : PortRange
  policy : PolicyAction
  saId : BitVec 32
  saIndex : Option ℕ
  fpMaskTypeId : ℕ
  mk_type : ∃ isOutbound, ipsecPolicyMkType isOutbound isIpv6 policy = some type

theorem IpsecPolicy.type_isIpv6 (p : IpsecPolicy) : p.type.isIpv6 = p.isIpv6 := by
  obtain ⟨isOutbound, h⟩ := p.mk_type
  unfold ipsecPolicyMkType at h
  cases isOutbound <;> cases hv : p.isIpv6 <;> cases hp : p.policy <;> simp [hv, hp] at h <;>
    rw [← h] <;> rfl

/-- `ipsec_is_policy_inbound`. -/
def PolicyType.isInbound : PolicyType → Bool
  | .ip4Outbound | .ip6Outbound => false
  | _ => true

/-- `IP_PROTOCOL_RESERVED` -/
def ipsecPolicyProtocolAny : BitVec 8 := 255

/-- A policy of an SPD for all packets of a family, as it is given to an add. -/
def IpsecPolicy.forAll (spdId : BitVec 32) (isOutbound isIpv6 : Bool) (action : PolicyAction) (type : PolicyType)
    (mk_type : ipsecPolicyMkType isOutbound isIpv6 action = some type) : IpsecPolicy where
  id := spdId
  priority := 10
  type := type
  isIpv6 := isIpv6
  laddr := ⟨0, if isIpv6 then BitVec.allOnes 128 else 0xffffffff⟩
  raddr := ⟨0, if isIpv6 then BitVec.allOnes 128 else 0xffffffff⟩
  protocol := ipsecPolicyProtocolAny
  lport := ⟨0, 0xffff⟩
  rport := ⟨0, 0xffff⟩
  policy := action
  saId := 0
  saIndex := none
  fpMaskTypeId := 0
  mk_type := ⟨isOutbound, mk_type⟩

/-- TCP, UDP and SCTP: the protocols whose ports are compared. -/
def hasPorts (protocol : BitVec 8) : Bool := protocol == 6 || protocol == 17 || protocol == 132

/-- `ipsec_policy_is_equal`. The last IPv6 comparison repeats an earlier one: the low half of
    `raddr.stop` is never compared. -/
def ipsecPolicyIsEqual (p1 p2 : IpsecPolicy) : Bool :=
  p1.priority == p2.priority && p1.type == p2.type && p1.policy == p2.policy && p1.saId == p2.saId &&
  p1.protocol == p2.protocol && p1.lport == p2.lport && p1.rport == p2.rport &&
  p1.isIpv6 == p2.isIpv6 &&
  if p2.isIpv6 then
    p1.laddr.start == p2.laddr.start && p1.laddr.stop == p2.laddr.stop &&
    p1.raddr.start == p2.raddr.start &&
    p1.raddr.stop.extractLsb' 64 64 == p2.raddr.stop.extractLsb' 64 64 &&
    p1.laddr.stop.extractLsb' 0 64 == p2.laddr.stop.extractLsb' 0 64
  else
    ip4Of p1.laddr.start == ip4Of p2.laddr.start && ip4Of p1.laddr.stop == ip4Of p2.laddr.stop &&
    ip4Of p1.raddr.start == ip4Of p2.raddr.start && ip4Of p1.raddr.stop == ip4Of p2.raddr.stop

theorem type_eq_of_isEqual {p1 p2 : IpsecPolicy} (h : ipsecPolicyIsEqual p1 p2 = true) :
    p1.type = p2.type := by
  simp only [ipsecPolicyIsEqual, Bool.and_eq_true, beq_iff_eq] at h
  exact h.1.1.1.1.1.1.1.2

/-! ### The tests of the linear search -/

/-- The ports of a packet, where the protocol has them. -/
def portsMatch (p : IpsecPolicy) (pr : BitVec 8) (lp rp : BitVec 16) : Bool :=
  !hasPorts pr ||
    (p.lport.start ≤ lp && lp ≤ p.lport.stop && p.rport.start ≤ rp && rp ≤ p.rport.stop)

def protocolMatches (p : IpsecPolicy) (pr : BitVec 8) : Bool :=
  p.protocol == ipsecPolicyProtocolAny || p.protocol == pr

/-- The body of the loop of `ipsec_output_policy_match`. -/
def ip4OutputMatch (p : IpsecPolicy) (pr : BitVec 8) (la ra : BitVec 32) (lp rp : BitVec 16) : Bool :=
  protocolMatches p pr &&
  (ip4Of p.raddr.start ≤ ra && ra ≤ ip4Of p.raddr.stop) &&
  (ip4Of p.laddr.start ≤ la && la ≤ ip4Of p.laddr.stop) &&
  portsMatch p pr lp rp

/-- `memcmp` of two IPv6 addresses, which are stored most significant byte first. -/
def ip6Memcmp (a b : BitVec 128) : ℤ := lexDiff 8 16 a.toNat b.toNat

def ip6AddrMatchRange (a la ua : BitVec 128) : Bool := 0 ≤ ip6Memcmp a la && ip6Memcmp a ua ≤ 0

/-- The body of the loop of `ipsec6_output_policy_match`. -/
def ip6OutputMatch (p : IpsecPolicy) (la ra : BitVec 128) (lp rp : BitVec 16) (pr : BitVec 8) : Bool :=
  protocolMatches p pr &&
  ip6AddrMatchRange ra p.raddr.start p.raddr.stop &&
  ip6AddrMatchRange la p.laddr.start p.laddr.stop &&
  portsMatch p pr lp rp

/-- `ip6_address_compare`: by 16-bit words. -/
def ip6AddressCompare (a b : BitVec 128) : ℤ := lexDiff 16 8 a.toNat b.toNat

/-- Bytes or words, the comparison is that of the numbers. -/
theorem ip6AddrMatchRange_eq (a la ua : BitVec 128) :
    ip6AddrMatchRange a la ua = (decide (la ≤ a) && decide (a ≤ ua)) := by
  unfold ip6AddrMatchRange ip6Memcmp
  rw [decide_eq_decide.mpr (zero_le_lexDiff (w := 8) (n := 16) rfl a la),
    decide_eq_decide.mpr (lexDiff_le_zero (w := 8) (n := 16) rfl a ua)]

theorem ip6AddressCompare_lt_zero (a b : BitVec 128) : ip6AddressCompare a b < 0 ↔ a < b :=
  lexDiff_lt_zero (w := 16) (n := 8) rfl a b

end Vpp.Ipsec
