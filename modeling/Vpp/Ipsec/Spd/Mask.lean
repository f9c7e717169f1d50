import Vpp.Ipsec.Spd.Policy

/-! The masks and hash keys of the fast path (`vnet/ipsec/ipsec_spd_policy.c`).

    A policy is filed in a hash table under its own 5-tuple (the lower ends of its ranges), cut down by a
    mask that keeps the common prefix of each range:

        policy ──▶ 5-tuple ─┐
               ──▶ mask  ───┴─ & ──▶ key

    A packet that the policy selects has the same bits under that mask (`policyKey_of_ip4Match`,
    `policyKey_of_ip6Match`), so a lookup that masks the packet finds the policy's bucket. -/

namespace Vpp.Ipsec
open Vpp.Schemes BitVec Bool

/-- What the fast path reads of an SA (`ipsec_sa_t`), and `sa_index_by_sa_id`. No operation on policies
    changes an SA that its owner still holds. -/
structure SaTable where
  find : BitVec 32 → Option ℕ
  spi : ℕ → BitVec 32
  isTunnel : ℕ → Bool
  tunnelDst : ℕ → BitVec 128
  tunnelSrc : ℕ → BitVec 128

/-- `ipsec_fp_5tuple_t`. The union of the addresses is kept as the IPv6 member; the IPv4 addresses are the
    last eight of its bytes and the `l3_zero_pad` the rest. The hash value behind the key is never part
    of a comparison that could tell two masks apart. -/
structure IpsecFp5tuple where
  ip6Laddr : BitVec 128
  ip6Raddr : BitVec 128
  lport : BitVec 16
  rport : BitVec 16
  protocol : BitVec 8
  action : BitVec 8
  isIpv6 : BitVec 16
  deriving DecidableEq

namespace IpsecFp5tuple

/-- `memset (tuple, 0, ..)` and `clib_memset_u8 (mask, 0xff, ..)`. -/
def zero : IpsecFp5tuple := ⟨0, 0, 0, 0, 0, 0, 0⟩
def ones : IpsecFp5tuple := ⟨~~~0, ~~~0, ~~~0, ~~~0, ~~~0, ~~~0, ~~~0⟩

/-- The IPv4 addresses, with the padding cleared. -/
def setIp4 (t : IpsecFp5tuple) (laddr raddr : BitVec 32) : IpsecFp5tuple :=
  { t with ip6Laddr := 0, ip6Raddr := 0#64 ++ (laddr ++ raddr) }

/-- The member `spi` of the union with the ports, on a little-endian host. -/
def setSpi (t : IpsecFp5tuple) (spi : BitVec 32) : IpsecFp5tuple :=
  { t with lport := spi.extractLsb' 0 16, rport := spi.extractLsb' 16 16 }

/-- The two IPv4 addresses, read back. -/
def laddr (t : IpsecFp5tuple) : BitVec 32 := t.ip6Raddr.extractLsb' 32 32
def raddr (t : IpsecFp5tuple) : BitVec 32 := t.ip6Raddr.extractLsb' 0 32

/-- Word by word `&`. -/
def and (s t : IpsecFp5tuple) : IpsecFp5tuple :=
  ⟨s.ip6Laddr &&& t.ip6Laddr, s.ip6Raddr &&& t.ip6Raddr, s.lport &&& t.lport, s.rport &&& t.rport,
    s.protocol &&& t.protocol, s.action &&& t.action, s.isIpv6 &&& t.isIpv6⟩

/-- The bytes that are hashed: all of `kv_40_8.key`, or the last sixteen of them, `kv_16_8.key`. -/
def key (isIpv6 : Bool) (t : IpsecFp5tuple) : IpsecFp5tuple :=
  if isIpv6 then t else { t with ip6Laddr := 0, ip6Raddr := 0#64 ++ t.ip6Raddr.extractLsb' 0 64 }

/-- Two tuples that agree under a mask, part by part. -/
theorem and_congr {s t m : IpsecFp5tuple} (hl : s.ip6Laddr &&& m.ip6Laddr = t.ip6Laddr &&& m.ip6Laddr)
    (hr : s.ip6Raddr &&& m.ip6Raddr = t.ip6Raddr &&& m.ip6Raddr)
    (hlp : s.lport &&& m.lport = t.lport &&& m.lport) (hrp : s.rport &&& m.rport = t.rport &&& m.rport)
    (hpr : s.protocol &&& m.protocol = t.protocol &&& m.protocol)
    (hac : s.action &&& m.action = t.action &&& m.action)
    (hip : s.isIpv6 &&& m.isIpv6 = t.isIpv6 &&& m.isIpv6) : s.and m = t.and m := by
  rw [and, and, hl, hr, hlp, hrp, hpr, hac, hip]

end IpsecFp5tuple

open IpsecFp5tuple

/-- `fill_ip4_hash_policy_kv`, `fill_ip6_hash_policy_kv`. -/
def fillHashPolicyKv (isIpv6 : Bool) (tuple mask : IpsecFp5tuple) : IpsecFp5tuple :=
  (tuple.and mask).key isIpv6

/-! ### Masks -/

def maskOutHighestSetBitU16 (x : BitVec 16) : BitVec 16 :=
  let x := x ||| x >>> 8
  let x := x ||| x >>> 4
  let x := x ||| x >>> 2
  let x := x ||| x >>> 1
  ~~~x

def maskOutHighestSetBitU32 (x : BitVec 32) : BitVec 32 :=
  let x := x ||| x >>> 16
  let x := x ||| x >>> 8
  let x := x ||| x >>> 4
  let x := x ||| x >>> 2
  let x := x ||| x >>> 1
  ~~~x

def maskOutHighestSetBitU64 (x : BitVec 64) : BitVec 64 :=
  let x := x ||| x >>> 32
  let x := x ||| x >>> 16
  let x := x ||| x >>> 8
  let x := x ||| x >>> 4
  let x := x ||| x >>> 2
  let x := x ||| x >>> 1
  ~~~x

def ipsecFpGetPolicyPortsMask (policy : IpsecPolicy) (mask : IpsecFp5tuple) : IpsecFp5tuple :=
  { mask with
    lport :=
      if hasPorts policy.protocol then maskOutHighestSetBitU16 (policy.lport.start ^^^ policy.lport.stop)
      else 0
    rport :=
      if hasPorts policy.protocol then maskOutHighestSetBitU16 (policy.rport.start ^^^ policy.rport.stop)
      else 0
    protocol := if policy.protocol = ipsecPolicyProtocolAny then 0 else ~~~0 }

/-- An inbound PROTECT policy with a tunnel-mode SA is filed under the tunnel's addresses. -/
def byTunnel (sas : SaTable) (policy : IpsecPolicy) : Bool :=
  (policy.type == .ip4InboundProtect || policy.type == .ip6InboundProtect) &&
    policy.saIndex.any sas.isTunnel

/-- The end of both mask functions, from `set_spi_mask` on. -/
def setSpiMask (policy : IpsecPolicy) (inbound : Bool) (mask : IpsecFp5tuple) : IpsecFp5tuple :=
  if inbound then
    let mask :=
      if policy.type ≠ .ip4InboundProtect ∧ policy.type ≠ .ip6InboundProtect then mask.setSpi 0 else mask
    { mask with protocol := 0 }
  else ipsecFpGetPolicyPortsMask policy { mask with action := 0 }

/-- The mask of a range of IPv4 addresses. -/
def ip4RangeMask (r : AddressRange) : BitVec 32 :=
  maskOutHighestSetBitU32 (ip4Of r.start ^^^ ip4Of r.stop)

def ipsecFpIp4GetPolicyMask (sas : SaTable) (policy : IpsecPolicy) (inbound : Bool) : IpsecFp5tuple :=
  setSpiMask policy inbound <|
    if inbound && byTunnel sas policy then ones.setIp4 (~~~0) (~~~0)
    else ones.setIp4 (ip4RangeMask policy.laddr) (ip4RangeMask policy.raddr)

/-- The mask of a range of IPv6 addresses: the low half is only looked at where the high halves of both
    ends are the same. -/
def ip6RangeMask (r : AddressRange) : BitVec 128 :=
  let hi := maskOutHighestSetBitU64 (r.start.extractLsb' 64 64 ^^^ r.stop.extractLsb' 64 64)
  hi ++
    if hi &&& 1 ≠ 0 then
      maskOutHighestSetBitU64 (r.start.extractLsb' 0 64 ^^^ r.stop.extractLsb' 0 64)
    else 0

def ipsecFpIp6GetPolicyMask (sas : SaTable) (policy : IpsecPolicy) (inbound : Bool) : IpsecFp5tuple :=
  setSpiMask policy inbound <|
    if inbound && byTunnel sas policy then ones
    else
      { ones with
        ip6Laddr := ip6RangeMask policy.laddr, ip6Raddr := ip6RangeMask policy.raddr }

def ipsecFpGetPolicyMask (sas : SaTable) (policy : IpsecPolicy) : IpsecFp5tuple :=
  if policy.isIpv6 then ipsecFpIp6GetPolicyMask sas policy policy.type.isInbound
  else ipsecFpIp4GetPolicyMask sas policy policy.type.isInbound

/-! ### 5-tuples -/

/-- Addresses of either family, in the union. -/
def setAddresses (t : IpsecFp5tuple) (isIpv6 : Bool) (laddr raddr : BitVec 128) : IpsecFp5tuple :=
  if isIpv6 then { t with ip6Laddr := laddr, ip6Raddr := raddr } else t.setIp4 (ip4Of laddr) (ip4Of raddr)

def ipsecFpGetPolicy5tuple (sas : SaTable) (policy : IpsecPolicy) (inbound : Bool) : IpsecFp5tuple :=
  let tuple := { zero with isIpv6 := if policy.isIpv6 then 1 else 0 }
  let tuple := setAddresses tuple policy.isIpv6 policy.laddr.start policy.raddr.start
  if inbound then
    let tuple :=
      match policy.type, policy.saIndex with
      | .ip4InboundProtect, some s | .ip6InboundProtect, some s =>
        let tuple := tuple.setSpi (sas.spi s)
        if sas.isTunnel s then setAddresses tuple policy.isIpv6 (sas.tunnelDst s) (sas.tunnelSrc s)
        else tuple
      | _, _ => tuple.setSpi (~~~0)
    { tuple with action := BitVec.ofNat 8 policy.type.toNat }
  else
    { tuple with protocol := policy.protocol, lport := policy.lport.start, rport := policy.rport.start }

/-- The key of a policy in its hash table. -/
def policyKey (sas : SaTable) (policy : IpsecPolicy) : IpsecFp5tuple :=
  fillHashPolicyKv policy.isIpv6 (ipsecFpGetPolicy5tuple sas policy policy.type.isInbound)
    (ipsecFpGetPolicyMask sas policy)

/-- `ipsec_fp_5tuple_from_ip4_range`, into a tuple that holds anything. -/
def ipsecFp5tupleFromIp4Range (tuple : IpsecFp5tuple) (la ra : BitVec 32) (lp rp : BitVec 16)
    (pr : BitVec 8) : IpsecFp5tuple :=
  { tuple.setIp4 la ra with
    lport := if hasPorts pr then lp else 0
    rport := if hasPorts pr then rp else 0
    protocol := pr
    isIpv6 := 0 }

/-- `ipsec_fp_5tuple_from_ip6_range`, into a tuple that holds anything. -/
def ipsecFp5tupleFromIp6Range (tuple : IpsecFp5tuple) (la ra : BitVec 128) (lp rp : BitVec 16)
    (pr : BitVec 8) : IpsecFp5tuple :=
  { tuple with ip6Laddr := la, ip6Raddr := ra, lport := lp, rport := rp, protocol := pr, isIpv6 := 1 }

def singleRuleOutMatch5tuple (policy : IpsecPolicy) (m : IpsecFp5tuple) : Bool :=
  (if policy.isIpv6 then 1 else 0) == m.isIpv6 &&
  protocolMatches policy m.protocol &&
  (if policy.isIpv6 then
    !(ip6AddressCompare m.ip6Laddr policy.laddr.start < 0) &&
    !(ip6AddressCompare policy.laddr.stop m.ip6Laddr < 0) &&
    !(ip6AddressCompare m.ip6Raddr policy.raddr.start < 0) &&
    !(ip6AddressCompare policy.raddr.stop m.ip6Raddr < 0)
  else
    ip4Of policy.laddr.start ≤ m.laddr && m.laddr ≤ ip4Of policy.laddr.stop &&
    ip4Of policy.raddr.start ≤ m.raddr && m.raddr ≤ ip4Of policy.raddr.stop) &&
  portsMatch policy m.protocol m.lport m.rport

/-! ### The mask keeps a common prefix -/

theorem maskOutHighestSetBitU16_prefixMask (a b : BitVec 16) :
    PrefixMask (maskOutHighestSetBitU16 (a ^^^ b)) a b :=
  ((((Spread.self _).shift 8).shift 4).shift 2 |>.shift 1).prefixMask (by decide)

theorem maskOutHighestSetBitU32_prefixMask (a b : BitVec 32) :
    PrefixMask (maskOutHighestSetBitU32 (a ^^^ b)) a b :=
  (((((Spread.self _).shift 16).shift 8).shift 4).shift 2 |>.shift 1).prefixMask (by decide)

theorem maskOutHighestSetBitU64_prefixMask (a b : BitVec 64) :
    PrefixMask (maskOutHighestSetBitU64 (a ^^^ b)) a b :=
  ((((((Spread.self _).shift 32).shift 16).shift 8).shift 4).shift 2 |>.shift 1).prefixMask (by decide)

theorem ip6RangeMask_prefixMask (r : AddressRange) : PrefixMask (ip6RangeMask r) r.start r.stop := by
  have hhi := maskOutHighestSetBitU64_prefixMask (r.start.extractLsb' 64 64) (r.stop.extractLsb' 64 64)
  have hlo := maskOutHighestSetBitU64_prefixMask (r.start.extractLsb' 0 64) (r.stop.extractLsb' 0 64)
  -- from a kept bit of the high half on, the high halves agree
  have habove : ∀ i, (maskOutHighestSetBitU64
      (r.start.extractLsb' 64 64 ^^^ r.stop.extractLsb' 64 64)).getLsbD i = true →
      ∀ j, 64 + i ≤ j → r.start.getLsbD j = r.stop.getLsbD j := by
    intro i hi j hij
    by_cases hj : j < 128
    · have hbit := hhi i hi (j - 64) (by omega)
      rw [getLsbD_extractLsb', getLsbD_extractLsb', Nat.add_sub_cancel' (by omega)] at hbit
      simpa [show j - 64 < 64 by omega] using hbit
    · rw [getLsbD_of_ge _ _ (by omega), getLsbD_of_ge _ _ (by omega)]
  intro i hi j hij
  rw [ip6RangeMask, getLsbD_append] at hi
  split at hi
  · next hlt =>
    split at hi
    · next hone =>
      by_cases hj : 64 ≤ j
      · refine habove 0 ?_ j (by omega)
        by_contra hzero
        exact hone (by
          refine eq_of_getLsbD_eq fun k _ => ?_
          rcases eq_zero_or_pos k with rfl | hk
          · simpa using hzero
          · simp [getLsbD_one, show ¬ k = 0 by omega])
      · have hbit := hlo i hi j hij
        simpa [show j < 64 by omega] using hbit
    · simp at hi
  · next hge => exact habove (i - 64) hi j (by omega)

/-! ### A policy and the packets it selects -/

@[simp] theorem IpsecFp5tuple.laddr_setIp4 (t : IpsecFp5tuple) (la ra : BitVec 32) :
    (t.setIp4 la ra).laddr = la := by
  refine eq_of_getLsbD_eq fun i hi => ?_
  rw [laddr, getLsbD_extractLsb', setIp4, getLsbD_append, if_pos (by omega),
    getLsbD_append, if_neg (by omega), Nat.add_sub_cancel_left]
  simp [hi]

@[simp] theorem IpsecFp5tuple.raddr_setIp4 (t : IpsecFp5tuple) (la ra : BitVec 32) :
    (t.setIp4 la ra).raddr = ra := by
  refine eq_of_getLsbD_eq fun i hi => ?_
  rw [raddr, getLsbD_extractLsb', setIp4, getLsbD_append, if_pos (by omega),
    getLsbD_append, if_pos (by omega), zero_add]
  simp [hi]

section
variable {p : IpsecPolicy} {pr : BitVec 8} {lp rp : BitVec 16} (sas : SaTable)

theorem singleRuleOutMatch5tuple_ip4 (hp : p.isIpv6 = false) (t : IpsecFp5tuple) (la ra : BitVec 32) :
    singleRuleOutMatch5tuple p (ipsecFp5tupleFromIp4Range t la ra lp rp pr) =
      ip4OutputMatch p pr la ra lp rp := by
  have hports : portsMatch p pr (if hasPorts pr then lp else 0) (if hasPorts pr then rp else 0) =
      portsMatch p pr lp rp := by
    cases h : hasPorts pr <;> simp [portsMatch, h]
  have hla : (ipsecFp5tupleFromIp4Range t la ra lp rp pr).laddr = la := laddr_setIp4 t la ra
  have hra : (ipsecFp5tupleFromIp4Range t la ra lp rp pr).raddr = ra := raddr_setIp4 t la ra
  simp only [singleRuleOutMatch5tuple, ip4OutputMatch, hp, hla, hra]
  simp only [ipsecFp5tupleFromIp4Range, hports]
  rw [Bool.eq_iff_iff]
  simp only [and_eq_true, decide_eq_true_eq, beq_iff_eq, false_eq_true, if_false]
  tauto

theorem singleRuleOutMatch5tuple_ip6 (hp : p.isIpv6 = true) (t : IpsecFp5tuple) (la ra : BitVec 128) :
    singleRuleOutMatch5tuple p (ipsecFp5tupleFromIp6Range t la ra lp rp pr) =
      ip6OutputMatch p la ra lp rp pr := by
  simp only [singleRuleOutMatch5tuple, ip6OutputMatch, hp, ipsecFp5tupleFromIp6Range,
    ip6AddrMatchRange_eq, ip6AddressCompare_lt_zero]
  rw [Bool.eq_iff_iff]
  simp only [and_eq_true, decide_eq_true_eq, beq_iff_eq, if_true, not_eq_true',
    decide_eq_false_iff_not, BitVec.not_lt]
  tauto

/-- The ports mask keeps what the selected packets have in common. -/
theorem portsMask_and (m : IpsecFp5tuple) (hpr : protocolMatches p pr = true)
    (hports : portsMatch p pr lp rp = true) :
    lp &&& (ipsecFpGetPolicyPortsMask p m).lport =
        p.lport.start &&& (ipsecFpGetPolicyPortsMask p m).lport ∧
      rp &&& (ipsecFpGetPolicyPortsMask p m).rport =
        p.rport.start &&& (ipsecFpGetPolicyPortsMask p m).rport ∧
      pr &&& (ipsecFpGetPolicyPortsMask p m).protocol =
        p.protocol &&& (ipsecFpGetPolicyPortsMask p m).protocol := by
  simp only [ipsecFpGetPolicyPortsMask]
  have hproto : p.protocol = ipsecPolicyProtocolAny ∨ p.protocol = pr := by
    simpa [protocolMatches] using hpr
  by_cases hp : hasPorts p.protocol = true
  · -- such a policy is not one for any protocol, so the packet has its protocol
    have heq : p.protocol = pr := hproto.resolve_left (by rintro h; rw [h] at hp; revert hp; decide)
    rw [heq] at hp
    simp only [portsMatch, hp, Bool.not_true, Bool.false_or, Bool.and_eq_true, decide_eq_true_eq] at hports
    obtain ⟨⟨⟨hl1, hl2⟩, hr1⟩, hr2⟩ := hports
    rw [heq, if_pos hp, if_pos hp]
    exact ⟨(maskOutHighestSetBitU16_prefixMask _ _).and_eq hl1 hl2,
      (maskOutHighestSetBitU16_prefixMask _ _).and_eq hr1 hr2, rfl⟩
  · rw [if_neg hp, if_neg hp]
    refine ⟨by simp, by simp, ?_⟩
    rcases hproto with h | h
    · rw [if_pos h]; simp
    · rw [h]

/-- Addresses in two ranges of IPv4 addresses agree with the starts of the ranges under their masks. -/
theorem ip4Ranges_and {l r : AddressRange} {la ra : BitVec 32} (hl1 : ip4Of l.start ≤ la) (hl2 : la ≤ ip4Of l.stop)
    (hr1 : ip4Of r.start ≤ ra) (hr2 : ra ≤ ip4Of r.stop) :
    (0#64 ++ (la ++ ra)) &&& (0#64 ++ (ip4RangeMask l ++ ip4RangeMask r)) =
      (0#64 ++ (ip4Of l.start ++ ip4Of r.start)) &&& (0#64 ++ (ip4RangeMask l ++ ip4RangeMask r)) := by
  have hl : la &&& ip4RangeMask l = ip4Of l.start &&& ip4RangeMask l :=
    (maskOutHighestSetBitU32_prefixMask _ _).and_eq hl1 hl2
  have hr : ra &&& ip4RangeMask r = ip4Of r.start &&& ip4RangeMask r :=
    (maskOutHighestSetBitU32_prefixMask _ _).and_eq hr1 hr2
  rw [and_append, and_append, and_append, and_append, hl, hr]

theorem policyKey_of_ip4Match (htype : p.type = .ip4Outbound) (t : IpsecFp5tuple)
    {la ra : BitVec 32} (h : ip4OutputMatch p pr la ra lp rp = true) :
    fillHashPolicyKv false (ipsecFp5tupleFromIp4Range t la ra lp rp pr) (ipsecFpGetPolicyMask sas p) =
      policyKey sas p := by
  have hp : p.isIpv6 = false := by rw [← p.type_isIpv6, htype]; rfl
  simp only [ip4OutputMatch, and_eq_true, decide_eq_true_eq] at h
  obtain ⟨⟨⟨hpr, hr1, hr2⟩, hl1, hl2⟩, hports⟩ := h
  have hports' : portsMatch p pr (if hasPorts pr then lp else 0) (if hasPorts pr then rp else 0) = true := by
    cases hpr : hasPorts pr <;> simp_all [portsMatch]
  have hmask : ipsecFpGetPolicyMask sas p = ipsecFpGetPolicyPortsMask p
      { ones.setIp4 (ip4RangeMask p.laddr) (ip4RangeMask p.raddr) with action := 0 } := by
    rw [ipsecFpGetPolicyMask, if_neg (by rw [hp]; decide), htype]
    rfl
  have htuple : ipsecFpGetPolicy5tuple sas p false =
      { zero.setIp4 (ip4Of p.laddr.start) (ip4Of p.raddr.start) with
        protocol := p.protocol, lport := p.lport.start, rport := p.rport.start } := by
    simp [ipsecFpGetPolicy5tuple, setAddresses, hp, setIp4, zero]
  have hand := fun m => portsMask_and m hpr hports'
  rw [policyKey, hp, htype, show PolicyType.ip4Outbound.isInbound = false from rfl, htuple, hmask]
  refine congrArg (key false) (and_congr rfl ?_ (hand _).1 (hand _).2.1 (hand _).2.2 ?_ rfl)
  · exact ip4Ranges_and hl1 hl2 hr1 hr2
  · exact and_zero.trans and_zero.symm

theorem policyKey_of_ip6Match (htype : p.type = .ip6Outbound) (t : IpsecFp5tuple)
    {la ra : BitVec 128} (h : ip6OutputMatch p la ra lp rp pr = true) :
    fillHashPolicyKv true (ipsecFp5tupleFromIp6Range t la ra lp rp pr) (ipsecFpGetPolicyMask sas p) =
      policyKey sas p := by
  have hp : p.isIpv6 = true := by rw [← p.type_isIpv6, htype]; rfl
  simp only [ip6OutputMatch, ip6AddrMatchRange_eq, and_eq_true, decide_eq_true_eq] at h
  obtain ⟨⟨⟨hpr, hr1, hr2⟩, hl1, hl2⟩, hports⟩ := h
  have hmask : ipsecFpGetPolicyMask sas p = ipsecFpGetPolicyPortsMask p
      { ones with
        ip6Laddr := ip6RangeMask p.laddr, ip6Raddr := ip6RangeMask p.raddr, action := 0 } := by
    rw [ipsecFpGetPolicyMask, if_pos hp, htype]
    rfl
  have htuple : ipsecFpGetPolicy5tuple sas p false =
      { zero with
        ip6Laddr := p.laddr.start, ip6Raddr := p.raddr.start, isIpv6 := 1,
        protocol := p.protocol, lport := p.lport.start, rport := p.rport.start } := by
    simp [ipsecFpGetPolicy5tuple, setAddresses, hp]
  have hand := fun m => portsMask_and m hpr hports
  rw [policyKey, hp, htype, show PolicyType.ip6Outbound.isInbound = false from rfl, htuple, hmask]
  exact congrArg (key true) (and_congr
    ((ip6RangeMask_prefixMask _).and_eq hl1 hl2) ((ip6RangeMask_prefixMask _).and_eq hr1 hr2)
    (hand _).1 (hand _).2.1 (hand _).2.2 (and_zero.trans and_zero.symm) rfl)

/-- The lookup of outbound packets skips masks with an action byte; those of its policies have none. -/
theorem action_outboundMask (h : p.type.isInbound = false) :
    (ipsecFpGetPolicyMask sas p).action = 0 := by
  rw [ipsecFpGetPolicyMask, h]
  split <;> rfl

end

end Vpp.Ipsec
