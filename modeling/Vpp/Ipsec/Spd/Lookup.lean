import Vpp.Ipsec.Spd.Main

/-! The policy of a packet: the linear search of `vnet/ipsec/ipsec_output.h` and the fast path of
    `vnet/ipsec/ipsec_spd_fp_lookup.h`.

    The fast path masks the packet with every mask in use, takes the first policy that selects the packet
    from each bucket it finds, and keeps the best of them. It compares the signed priority of a policy
    with an unsigned number, so both are compared as unsigned numbers. -/

namespace Vpp.Ipsec
open Vpp.Schemes

/-- The loop over the policies of a vector: the first one that selects the packet. -/
def linearSearch (policies : Pool IpsecPolicy) (hit : IpsecPolicy → Bool) :
    List ℕ → Except Fault (Option (ℕ × IpsecPolicy))
  | [] => return none
  | i :: is => do
    let p ← deref (policies.get? i)
    if hit p then return some (i, p) else linearSearch policies hit is

/-- `last_priority[i]`, with `ids[i]` and `policies[i]`. -/
structure FpBest where
  lastPriority : BitVec 32 := 0
  found : Option (ℕ × IpsecPolicy) := none

/-- A policy that selects the packet. The comparison of `u32` with `i32` is unsigned. -/
def FpBest.offer (best : FpBest) (candidate : ℕ × IpsecPolicy) : FpBest :=
  if best.lastPriority < candidate.2.priority then ⟨candidate.2.priority, some candidate⟩ else best

/-- The body of the loop over the masks of a policy type, in both directions: masks that `skip` accepts are
    left out, and `hit` is the test of a policy. A bucket with one policy is read without the inner loop. -/
def lookupMask (isIpv6 : Bool) (skip : IpsecFp5tuple → Bool) (hit : IpsecPolicy → Bool) (im : IpsecMain)
    (table : Bihash) (m : IpsecFp5tuple) (best : FpBest) (mti : IpsecFpMaskId) : Except Fault FpBest := do
  let mte ← deref (im.fpMaskTypes.get? mti.maskTypeIdx)
  if skip mte.mask then return best
  else
    match table (fillHashPolicyKv isIpv6 m mte.mask) with
    | none => return best
    | some ids =>
      if 1 < ids.length then
        match ← linearSearch im.policies hit ids with
        | none => return best
        | some candidate => return best.offer candidate
      else
        let policyId ← deref ids.head?
        let policy ← deref (im.policies.get? policyId)
        if hit policy then return best.offer (policyId, policy) else return best

/-- `ipsec_fp_out_ip4_policy_match_n`, `ipsec_fp_out_ip6_policy_match_n`, `ipsec_fp_in_ip4_policy_match_n` and
    `ipsec_fp_in_ip6_policy_match_n`. -/
def fpPolicyMatchN (isIpv6 inbound : Bool) (skip : IpsecFp5tuple → Bool)
    (hit : IpsecPolicy → IpsecFp5tuple → Bool) (maskTypeIds : List IpsecFpMaskId) (im : IpsecMain)
    (fp : IpsecSpdFp) (tuples : List IpsecFp5tuple) : Except Fault (List (Option (ℕ × IpsecPolicy))) := do
  let hashIdx ← deref (fp.lookupHashIdx isIpv6 inbound)
  let table ← deref ((im.lookupHashes isIpv6).get? hashIdx)
  tuples.mapM fun m => do
    let best ← maskTypeIds.foldlM (lookupMask isIpv6 skip (hit · m) im table m) {}
    return best.found

/-- Outbound lookups skip the masks that have an action byte. -/
def ipsecFpOutIp4PolicyMatchN (im : IpsecMain) (fp : IpsecSpdFp) (tuples : List IpsecFp5tuple) :=
  fpPolicyMatchN false false (·.action != 0) singleRuleOutMatch5tuple (fp.fpMaskIds .ip4Outbound) im fp tuples

def ipsecFpOutIp6PolicyMatchN (im : IpsecMain) (fp : IpsecSpdFp) (tuples : List IpsecFp5tuple) :=
  fpPolicyMatchN true false (·.action != 0) singleRuleOutMatch5tuple (fp.fpMaskIds .ip6Outbound) im fp tuples

/-- `ipsec_output_policy_match`. The 5-tuple is built on the stack, over whatever lies there (`tuple`). -/
def ipsecOutputPolicyMatch (im : IpsecMain) (spd : Option IpsecSpd) (tuple : IpsecFp5tuple)
    (pr : BitVec 8) (la ra : BitVec 32) (lp rp : BitVec 16) : Except Fault (Option (ℕ × IpsecPolicy)) :=
  match spd with
  | none => return none
  | some spd =>
    if ipsecIsFpEnabled im spd .ip4Outbound then do
      let policies ← ipsecFpOutIp4PolicyMatchN im spd.fpSpd [ipsecFp5tupleFromIp4Range tuple la ra lp rp pr]
      return policies.head?.join
    else linearSearch im.policies (ip4OutputMatch · pr la ra lp rp) (spd.policies .ip4Outbound)

def ipsec6OutputPolicyMatch (im : IpsecMain) (spd : Option IpsecSpd) (tuple : IpsecFp5tuple)
    (la ra : BitVec 128) (lp rp : BitVec 16) (pr : BitVec 8) : Except Fault (Option (ℕ × IpsecPolicy)) :=
  match spd with
  | none => return none
  | some spd =>
    if ipsecIsFpEnabled im spd .ip6Outbound then do
      let policies ← ipsecFpOutIp6PolicyMatchN im spd.fpSpd [ipsecFp5tupleFromIp6Range tuple la ra lp rp pr]
      return policies.head?.join
    else linearSearch im.policies (ip6OutputMatch · la ra lp rp pr) (spd.policies .ip6Outbound)

end Vpp.Ipsec
