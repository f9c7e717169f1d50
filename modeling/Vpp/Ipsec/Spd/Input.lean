import Vpp.Ipsec.Spd.Agree

/-! The policy of an inbound packet: the linear search of `vnet/ipsec/ipsec_input.c` and the inbound fast path of
    `vnet/ipsec/ipsec_spd_fp_lookup.h`.

    The fast path has one test for both address families and all actions. It reads the addresses of the packet
    and of the tunnel as IPv4 addresses, and it leaves the addresses of a PROTECT policy with a transport-mode SA
    to the hash table, where a range counts as the shortest prefix around it:

        linear search      SPI,  tunnel: endpoints    transport: address ranges
        fast path          SPI,  tunnel: endpoints    transport: nothing         (endpoints as IPv4 addresses) -/

namespace Vpp.Ipsec
open Vpp.Schemes Vpp.Vppinfra BitVec List Option IpsecFp5tuple
open SpdHistory (step init)

/-! ### The linear search -/

/-- The body of the loop of `ipsec_input_policy_match`. -/
def ip4InputMatch (sa da : BitVec 32) (p : IpsecPolicy) : Bool :=
  ip4Of p.laddr.start ≤ da && da ≤ ip4Of p.laddr.stop && ip4Of p.raddr.start ≤ sa && sa ≤ ip4Of p.raddr.stop

/-- The body of the loop of `ipsec_input_protect_policy_match`. A PROTECT policy has an SA. -/
def ip4ProtectMatch (sas : SaTable) (sa da spi : BitVec 32) (p : IpsecPolicy) : Bool :=
  p.saIndex.any fun s => spi == sas.spi s &&
    if sas.isTunnel s then da == ip4Of (sas.tunnelDst s) && sa == ip4Of (sas.tunnelSrc s)
    else ip4InputMatch sa da p

/-- The body of the loop of `ipsec6_input_protect_policy_match`. -/
def ip6ProtectMatch (sas : SaTable) (sa da : BitVec 128) (spi : BitVec 32) (p : IpsecPolicy) : Bool :=
  p.saIndex.any fun s => spi == sas.spi s &&
    if sas.isTunnel s then sa == sas.tunnelSrc s && da == sas.tunnelDst s
    else ip6AddrMatchRange sa p.raddr.start p.raddr.stop && ip6AddrMatchRange da p.laddr.start p.laddr.stop

/-! ### The fast path -/

/-- The member `spi` of the union with the ports. -/
def IpsecFp5tuple.spi (t : IpsecFp5tuple) : BitVec 32 := t.rport ++ t.lport

/-- `ipsec_fp_in_5tuple_from_ip4_range`, into a tuple that holds anything. -/
def ipsecFpIn5tupleFromIp4Range (tuple : IpsecFp5tuple) (sa da spi : BitVec 32) (action : PolicyType) :
    IpsecFp5tuple :=
  { (tuple.setIp4 da sa).setSpi spi with action := BitVec.ofNat 8 action.toNat, isIpv6 := 0 }

/-- `ipsec_fp_in_5tuple_from_ip6_range`, into a tuple that holds anything. -/
def ipsecFpIn5tupleFromIp6Range (tuple : IpsecFp5tuple) (sa da : BitVec 128) (spi : BitVec 32)
    (action : PolicyType) : IpsecFp5tuple :=
  { { tuple with ip6Laddr := da, ip6Raddr := sa }.setSpi spi with
    action := BitVec.ofNat 8 action.toNat, isIpv6 := 1 }

def singleRuleInMatch5tuple (sas : SaTable) (policy : IpsecPolicy) (m : IpsecFp5tuple) : Bool :=
  let da := m.laddr
  let sa := m.raddr
  if policy.policy = .protect then
    policy.saIndex.any fun s => m.spi == sas.spi s &&
      (!sas.isTunnel s || (da == ip4Of (sas.tunnelDst s) && sa == ip4Of (sas.tunnelSrc s)))
  else
    ip4Of policy.raddr.start ≤ sa && sa ≤ ip4Of policy.raddr.stop &&
    ip4Of policy.laddr.start ≤ da && da ≤ ip4Of policy.laddr.stop

/-- The policy type with the given number. -/
def PolicyType.ofNat? (n : ℕ) : Option PolicyType :=
  [.ip4Outbound, .ip6Outbound, .ip4InboundProtect, .ip6InboundProtect, .ip4InboundBypass, .ip6InboundBypass,
    .ip4InboundDiscard, .ip6InboundDiscard][n]?

/-- `ipsec_fp_in_policy_match_n`: `ipsec_fp_in_ip4_policy_match_n` or `ipsec_fp_in_ip6_policy_match_n`, with the
    masks of the policy type that the first packet names. Masks without an action byte are skipped. -/
def ipsecFpInPolicyMatchN (sas : SaTable) (im : IpsecMain) (fp : IpsecSpdFp) (isIpv6 : Bool)
    (tuples : List IpsecFp5tuple) : Except Fault (List (Option (ℕ × IpsecPolicy))) := do
  let first ← deref tuples.head?
  let type ← deref (PolicyType.ofNat? first.action.toNat)
  fpPolicyMatchN isIpv6 true (·.action == 0) (singleRuleInMatch5tuple sas) (fp.fpMaskIds type) im fp tuples

/-! ### When the two agree -/

/-- Both searches return nothing, or policies of the same priority, and what the fast path returns passes the
    test of the linear search. -/
def SearchesAgree (test : IpsecPolicy → Bool) (r r₀ : Option (ℕ × IpsecPolicy)) : Prop :=
  r.map foundPriority = r₀.map foundPriority ∧ ∀ c, r = some c → test c.2 = true

/-- The leaders of the buckets that the fast path looks up. -/
def FastLeader (sas : SaTable) (s : SpdHistory) (spdId : BitVec 32) (t : PolicyType) (m : IpsecFp5tuple) :
    ℕ × IpsecPolicy → Prop :=
  Leader foundPriority (foundKey sas)
    (FastHit sas s spdId t (·.action == 0) (singleRuleInMatch5tuple sas · m) m)

/-- No live policy passes the test of the linear search and all leaders have priority zero; or the linear search
    has a hit of the highest priority, not zero, that no leader exceeds as an unsigned number and that the fast
    path reaches before any other of its priority. -/
def InboundAgree (sas : SaTable) (s : SpdHistory) (spd : IpsecSpd) (t : PolicyType) (test : IpsecPolicy → Bool)
    (m : IpsecFp5tuple) : Prop :=
  (∀ c, ¬ Hit s.im.policies test (s.live spd.id t) c) ∧
      (∀ c, FastLeader sas s spd.id t m c → foundPriority c = 0) ∨
    ∃ c, Hit s.im.policies test (s.live spd.id t) c ∧
      (∀ b, Hit s.im.policies test (s.live spd.id t) b → b.2.prio ≤ c.2.prio) ∧ foundPriority c ≠ 0 ∧
      (∀ b, FastLeader sas s spd.id t m b → foundPriority b ≤ foundPriority c) ∧
      ReachedFirst s.im spd t (·.action == 0) (singleRuleInMatch5tuple sas · m) m c

section
variable {sas : SaTable} {s : SpdHistory} {held : Finset ℕ} {k : ℕ} {spd : IpsecSpd} {t : PolicyType}
variable {m : IpsecFp5tuple}

theorem action_setSpiMask (p : IpsecPolicy) (mask : IpsecFp5tuple) :
    (setSpiMask p true mask).action = mask.action := by
  simp only [setSpiMask, if_true]
  split <;> rfl

/-- The masks of inbound policies keep the action byte. -/
theorem action_inboundMask (sas : SaTable) {p : IpsecPolicy} (h : p.type.isInbound = true) :
    (ipsecFpGetPolicyMask sas p).action = ~~~0 := by
  rw [ipsecFpGetPolicyMask, h]
  split
  · rw [ipsecFpIp6GetPolicyMask, action_setSpiMask]
    split <;> rfl
  · rw [ipsecFpIp4GetPolicyMask, action_setSpiMask]
    split <;> rfl

theorem action_key (v : Bool) (t : IpsecFp5tuple) : (t.key v).action = t.action := by
  cases v <;> rfl

theorem action_policyKey (sas : SaTable) {p : IpsecPolicy} (h : p.type.isInbound = true) :
    (policyKey sas p).action = BitVec.ofNat 8 p.type.toNat := by
  rw [policyKey, fillHashPolicyKv, action_key, IpsecFp5tuple.and]
  rw [action_inboundMask sas h, h]
  simp only [ipsecFpGetPolicy5tuple, if_true]
  exact and_allOnes

theorem PolicyType.toNat_inj {t t' : PolicyType} (h : BitVec.ofNat 8 t.toNat = BitVec.ofNat 8 t'.toNat) :
    t = t' := by
  revert h
  cases t <;> cases t' <;> decide

/-- Only policies of the type that the packet names are found. -/
theorem SpdInv.fastHit_live (hinv : SpdInv sas s held) (hk : s.im.spds.get? k = some spd)
    (ht : t.isInbound = true) (hm : m.action = BitVec.ofNat 8 t.toNat) {skip : IpsecFp5tuple → Bool}
    {hit : IpsecPolicy → Bool} {c : ℕ × IpsecPolicy} (hc : FastHit sas s spd.id t skip hit m c) :
    c.1 ∈ s.live spd.id t := by
  obtain ⟨⟨t', -, ht', hi⟩, hp, -, j, hj, q, hq, -, hkey⟩ := hc
  obtain ⟨p, hp', hptype, -⟩ := (hinv.rep k spd hk).listed t' c.1 hi
  obtain ⟨q', hq', hqtype, -⟩ := (hinv.rep k spd hk).listed t j hj
  rw [hp] at hp'
  rw [hq] at hq'
  cases hp'
  cases hq'
  have haction := congrArg action hkey
  rw [action_policyKey sas (by rw [hptype, ht', ht]), fillHashPolicyKv, action_key, IpsecFp5tuple.and] at haction
  rw [action_inboundMask sas (by rw [hqtype, ht]), hm, hptype] at haction
  rw [PolicyType.toNat_inj (and_allOnes.symm.trans haction)]
  exact hi

theorem PolicyType.ofNat?_toNat (t : PolicyType) :
    PolicyType.ofNat? (BitVec.ofNat 8 t.toNat).toNat = some t := by
  cases t <;> rfl

/-- The inbound lookup of one packet. -/
theorem ipsecFpInPolicyMatchN_eq {im : IpsecMain} (ht : t.isInbound = true)
    (hm : m.action = BitVec.ofNat 8 t.toNat) :
    ipsecFpInPolicyMatchN sas im spd.fpSpd t.isIpv6 [m] =
      fpPolicyMatchN t.isIpv6 t.isInbound (·.action == 0) (singleRuleInMatch5tuple sas)
        (spd.fpSpd.fpMaskIds t) im spd.fpSpd [m] := by
  simp only [ipsecFpInPolicyMatchN, head?_cons, deref_some, bind_ok, hm, PolicyType.ofNat?_toNat, ht]

section
variable (hinv : SpdInv sas s held) (hk : s.im.spds.get? k = some spd) (ht : t.isInbound = true)
variable (hfast : (spd.tableOf t).isSome) (hm : m.action = BitVec.ofNat 8 t.toNat) (test : IpsecPolicy → Bool)
variable {ids : List ℕ} (hids : ListsLive s.im.policies (s.live spd.id t) ids)
include hinv hk ht hfast hm hids

/-- The two searches of inbound policies of one type. -/
theorem SpdInv.inbound_agree :
    ∃ r r₀, ipsecFpInPolicyMatchN sas s.im spd.fpSpd t.isIpv6 [m] = .ok [r] ∧
      linearSearch s.im.policies test ids = .ok r₀ ∧
      (SearchesAgree test r r₀ ↔ InboundAgree sas s spd t test m) := by
  obtain ⟨r, hr, ⟨cand, hbest, hleads, hcand⟩, hfirst⟩ :=
    hinv.fastSearch hk hfast (·.action == 0) (singleRuleInMatch5tuple sas) m
  obtain ⟨r₀, hr₀, hlin⟩ : ∃ r₀, linearSearch s.im.policies test ids = .ok r₀ ∧ _ :=
    linearSearch_spec fun i hi => hinv.live_isSome hk ((hids.mem i).mp hi)
  have htop := hlin.topOf hids.descending hids.mem
  refine ⟨r, r₀, (ipsecFpInPolicyMatchN_eq ht hm).trans hr, hr₀, ?_⟩
  constructor
  · rintro ⟨hprio, htest⟩
    cases r with
    | none =>
      obtain rfl := map_eq_none_iff.mp hprio.symm
      exact Or.inl ⟨htop, (hleads.best_none hbest).mp rfl⟩
    | some c =>
      obtain ⟨q, rfl, hq⟩ := map_eq_some_iff.mp hprio.symm
      have hlead := hleads.leader c hbest.1
      have hcq : c.2.prio = q.2.prio := congrArg BitVec.toInt hq.symm
      obtain ⟨hne, -, hmax⟩ := (hleads.best_some hbest).mp rfl
      refine Or.inr ⟨c, ⟨hinv.fastHit_live hk ht hm hlead.1, hlead.1.2.1, htest c rfl⟩, ?_, hne, hmax,
        hfirst c rfl⟩
      intro b hb
      rw [hcq]
      exact htop.2 b hb
  · rintro (⟨hnone, hzero⟩ | ⟨c, hhit, hmax, hne, hlead, hreach⟩)
    · obtain rfl := (hleads.best_none hbest).mpr hzero
      refine ⟨?_, by simp⟩
      cases r₀ with
      | none => rfl
      | some q => exact absurd htop.1 (hnone q)
    · have hr' := (hleads.best_some hbest).mpr ⟨hne, ⟨c, hleads.leader c (hcand c hreach), rfl⟩, hlead⟩
      obtain ⟨c', rfl, hc'⟩ := map_eq_some_iff.mp hr'
      obtain rfl := hreach.unique (hfirst c' rfl) hc'.symm
      refine ⟨?_, ?_⟩
      · cases r₀ with
        | none => exact absurd hhit (htop c)
        | some q =>
          refine congrArg some (eq_of_toInt_eq (le_antisymm ?_ ?_))
          · exact htop.2 c hhit
          · exact hmax q htop.1
      · rintro c' ⟨⟩
        exact hhit.2.2

/-- Where the fast path finds exactly what passes the test, only the signs of the priorities matter. -/
theorem SpdInv.inbound_agree_signs
    (hhits : ∀ c, FastHit sas s spd.id t (·.action == 0) (singleRuleInMatch5tuple sas · m) m c ↔
      Hit s.im.policies test (s.live spd.id t) c) :
    ∃ r r₀, ipsecFpInPolicyMatchN sas s.im spd.fpSpd t.isIpv6 [m] = .ok [r] ∧
      linearSearch s.im.policies test ids = .ok r₀ ∧
      (SearchesAgree test r r₀ ↔ SignsAgree sas s.im.policies (s.live spd.id t) test) := by
  obtain ⟨r, r₀, hr, hr₀, htest, hsigns⟩ := hinv.agree_signs hk hfast hhits hids
  refine ⟨r, r₀, (ipsecFpInPolicyMatchN_eq ht hm).trans hr, hr₀, Iff.trans ?_ hsigns⟩
  exact ⟨And.left, fun hprio => ⟨hprio, htest⟩⟩

end

end

/-! ### BYPASS and DISCARD -/

section
variable {p : IpsecPolicy} {t : PolicyType} {sa da spi : BitVec 32}

/-- The IPv4 types without SA. -/
def PolicyType.IsPlain4 (t : PolicyType) : Prop := t = .ip4InboundBypass ∨ t = .ip4InboundDiscard

theorem IpsecPolicy.not_protect (ht : t.IsPlain4) (hp : p.type = t) : p.isIpv6 = false ∧ p.policy ≠ .protect := by
  obtain ⟨isOutbound, h⟩ := p.mk_type
  rw [hp] at h
  unfold ipsecPolicyMkType at h
  rcases ht with rfl | rfl <;> cases isOutbound <;> cases hv : p.isIpv6 <;> cases ha : p.policy <;>
    simp [hv, ha] at h ⊢

theorem singleRuleInMatch5tuple_plain (ht : t.IsPlain4) (hp : p.type = t) (sas : SaTable) (tuple : IpsecFp5tuple) :
    singleRuleInMatch5tuple sas p (ipsecFpIn5tupleFromIp4Range tuple sa da spi t) = ip4InputMatch sa da p := by
  have hla : (ipsecFpIn5tupleFromIp4Range tuple sa da spi t).laddr = da := laddr_setIp4 tuple da sa
  have hra : (ipsecFpIn5tupleFromIp4Range tuple sa da spi t).raddr = sa := raddr_setIp4 tuple da sa
  simp only [singleRuleInMatch5tuple, if_neg (p.not_protect ht hp).2, hla, hra, ip4InputMatch]
  rw [Bool.eq_iff_iff]
  simp only [Bool.and_eq_true, decide_eq_true_eq]
  tauto

theorem setSpi_zero (m : IpsecFp5tuple) : m.setSpi 0 = { m with lport := 0, rport := 0 } := by
  simp [setSpi]

theorem policyKey_of_inputMatch (ht : t.IsPlain4) (hp : p.type = t) (sas : SaTable) (tuple : IpsecFp5tuple)
    (h : ip4InputMatch sa da p = true) :
    fillHashPolicyKv false (ipsecFpIn5tupleFromIp4Range tuple sa da spi t) (ipsecFpGetPolicyMask sas p) =
      policyKey sas p := by
  have hv := (p.not_protect ht hp).1
  have hin : p.type.isInbound = true := by rw [hp]; rcases ht with rfl | rfl <;> rfl
  have hne : p.type ≠ .ip4InboundProtect ∧ p.type ≠ .ip6InboundProtect := by
    rw [hp]
    rcases ht with rfl | rfl <;> simp
  simp only [ip4InputMatch, Bool.and_eq_true, decide_eq_true_eq] at h
  obtain ⟨⟨⟨hl1, hl2⟩, hr1⟩, hr2⟩ := h
  have hmask : ipsecFpGetPolicyMask sas p =
      { ones.setIp4 (ip4RangeMask p.laddr) (ip4RangeMask p.raddr) with
        lport := 0, rport := 0, protocol := 0 } := by
    have htunnel : byTunnel sas p = false := by simp [byTunnel, hne]
    simp only [ipsecFpGetPolicyMask, hv, hin, ipsecFpIp4GetPolicyMask, htunnel, setSpiMask, if_pos hne,
      Bool.false_eq_true, if_false, if_true, Bool.and_false, setSpi_zero]
  have htuple : ipsecFpGetPolicy5tuple sas p true =
      { (zero.setIp4 (ip4Of p.laddr.start) (ip4Of p.raddr.start)).setSpi (~~~0) with
        action := BitVec.ofNat 8 p.type.toNat } := by
    rw [hp]
    simp only [ipsecFpGetPolicy5tuple, setAddresses, hv, hp]
    rcases ht with rfl | rfl <;> rfl
  rw [policyKey, hv, hin, htuple, hmask]
  refine congrArg (key false) ?_
  dsimp only [ipsecFpIn5tupleFromIp4Range, setIp4, setSpi, zero]
  refine and_congr ?_ ?_ ?_ ?_ ?_ ?_ ?_
  · rfl
  · exact ip4Ranges_and hl1 hl2 hr1 hr2
  · exact and_zero.trans and_zero.symm
  · exact and_zero.trans and_zero.symm
  · exact and_zero.trans and_zero.symm
  · rw [hp]
  · rfl

end

/-- After any run of operations, for inbound policies of one type, the fast path and the linear search over the
    same live policies agree exactly when the stated conditions on these policies hold. -/
theorem inboundFastPath_agrees_iff (sas : SaTable) (fpIsEnabled : Bool → Bool → Bool) (ops : List SpdOp) :
    ∃ s, runM (step sas) (init fpIsEnabled) ops = .ok s ∧
      ∀ spdId spd, s.im.spd? spdId = some spd →
        (∀ t : PolicyType, t.IsPlain4 → ipsecIsFpEnabled s.im spd t = true → ∀ ids,
          ListsLive s.im.policies (s.live spdId t) ids → ∀ tuple sa da spi, ∃ r r₀,
            ipsecFpInPolicyMatchN sas s.im spd.fpSpd false [ipsecFpIn5tupleFromIp4Range tuple sa da spi t] =
              .ok [r] ∧
            linearSearch s.im.policies (ip4InputMatch sa da) ids = .ok r₀ ∧
            (SearchesAgree (ip4InputMatch sa da) r r₀ ↔
              SignsAgree sas s.im.policies (s.live spdId t) (ip4InputMatch sa da))) ∧
        (ipsecIsFpEnabled s.im spd .ip4InboundProtect = true → ∀ ids,
          ListsLive s.im.policies (s.live spdId .ip4InboundProtect) ids → ∀ tuple sa da spi, ∃ r r₀,
            ipsecFpInPolicyMatchN sas s.im spd.fpSpd false
              [ipsecFpIn5tupleFromIp4Range tuple sa da spi .ip4InboundProtect] = .ok [r] ∧
            linearSearch s.im.policies (ip4ProtectMatch sas sa da spi) ids = .ok r₀ ∧
            (SearchesAgree (ip4ProtectMatch sas sa da spi) r r₀ ↔
              InboundAgree sas s spd .ip4InboundProtect (ip4ProtectMatch sas sa da spi)
                (ipsecFpIn5tupleFromIp4Range tuple sa da spi .ip4InboundProtect))) ∧
        (ipsecIsFpEnabled s.im spd .ip6InboundProtect = true → ∀ ids,
          ListsLive s.im.policies (s.live spdId .ip6InboundProtect) ids → ∀ tuple sa da spi, ∃ r r₀,
            ipsecFpInPolicyMatchN sas s.im spd.fpSpd true
              [ipsecFpIn5tupleFromIp6Range tuple sa da spi .ip6InboundProtect] = .ok [r] ∧
            linearSearch s.im.policies (ip6ProtectMatch sas sa da spi) ids = .ok r₀ ∧
            (SearchesAgree (ip6ProtectMatch sas sa da spi) r r₀ ↔
              InboundAgree sas s spd .ip6InboundProtect (ip6ProtectMatch sas sa da spi)
                (ipsecFpIn5tupleFromIp6Range tuple sa da spi .ip6InboundProtect))) := by
  obtain ⟨s, held, hrun, hinv⟩ := spdRun_inv (spdInv_init sas fpIsEnabled) ops
  refine ⟨s, hrun, fun spdId spd hspd => ?_⟩
  obtain ⟨k, hidx, hk⟩ := bind_eq_some_iff.mp hspd
  obtain rfl := hinv.indexed.key_eq hidx hk
  have hfast : ∀ t, ipsecIsFpEnabled s.im spd t = true → (spd.tableOf t).isSome := by
    intro t hfp
    rw [← hinv.fpEnabled hk]
    exact hfp
  refine ⟨fun t ht hfp ids hids tuple sa da spi => ?_, fun hfp ids hids tuple sa da spi => ?_,
    fun hfp ids hids tuple sa da spi => ?_⟩
  · have hin : t.isInbound = true := by rcases ht with rfl | rfl <;> rfl
    have hv : t.isIpv6 = false := by rcases ht with rfl | rfl <;> rfl
    rw [← hv]
    refine hinv.inbound_agree_signs hk hin (hfast t hfp) rfl _ hids fun c => ?_
    constructor
    · intro hc
      have hlive := hinv.fastHit_live hk hin rfl hc
      obtain ⟨p, hp, htype, -⟩ := (hinv.rep k spd hk).listed t c.1 hlive
      obtain ⟨-, hget, hrule, -⟩ := hc
      rw [hget] at hp
      cases hp
      exact ⟨hlive, hget, by rw [← singleRuleInMatch5tuple_plain ht htype sas tuple]; exact hrule⟩
    · rintro ⟨hlive, hget, htest⟩
      obtain ⟨p, hp, htype, -⟩ := (hinv.rep k spd hk).listed t c.1 hlive
      rw [hget] at hp
      cases hp
      refine ⟨⟨t, rfl, rfl, hlive⟩, hget, ?_, c.1, hlive, c.2, hget, ?_, ?_⟩
      · dsimp only
        rw [singleRuleInMatch5tuple_plain ht htype]
        exact htest
      · dsimp only
        rw [action_inboundMask sas (by rw [htype, hin])]
        rfl
      · rw [hv]
        exact policyKey_of_inputMatch ht htype sas tuple htest
  · exact hinv.inbound_agree hk rfl (hfast _ hfp) rfl _ hids
  · exact hinv.inbound_agree hk rfl (hfast _ hfp) rfl _ hids

/-- A PROTECT policy of priority 10 for the given remote addresses, with SA 7. -/
def protectFrom (raddr : AddressRange) : IpsecPolicy :=
  { IpsecPolicy.forAll 1 false false .protect .ip4InboundProtect rfl with raddr := raddr, saId := 7 }

/-- SA 7 at index 0, in transport mode with SPI 256. -/
def transportSa : SaTable :=
  ⟨fun id => if id = 7 then some 0 else none, fun _ => 256, fun _ => false, fun _ => 0, fun _ => 0⟩

/-- SPD 1 is created and gets the policy. -/
def protectOps (raddr : AddressRange) : List SpdOp :=
  [.addDelSpd 1 true, .addDelPolicy (protectFrom raddr) true]

/-- A packet from address 3. -/
def fromThree : IpsecFp5tuple := ipsecFpIn5tupleFromIp4Range zero 3 1 256 .ip4InboundProtect

def protectObserve : SpdHistory → SearchObserved (List (Option (BitVec 32))) :=
  searchObserve .ip4InboundProtect
    (fun im spd => ipsecFpInPolicyMatchN transportSa im spd.fpSpd false [fromThree]) (·.map (·.map foundPriority))
    (ip4ProtectMatch transportSa 3 1 256)

/-- A policy for all remote addresses: both searches return it. -/
theorem inboundFastPath_agrees_all : ∃ s spd r r₀,
    runM (step transportSa) (init fun _ _ => true) (protectOps ⟨0, 0xffffffff⟩) = .ok s ∧
    s.im.spd? 1 = some spd ∧ ipsecIsFpEnabled s.im spd .ip4InboundProtect = true ∧
    ListsLive s.im.policies (s.live 1 .ip4InboundProtect) [0] ∧
    ipsecFpInPolicyMatchN transportSa s.im spd.fpSpd false [fromThree] = .ok [r] ∧
    linearSearch s.im.policies (ip4ProtectMatch transportSa 3 1 256) [0] = .ok r₀ ∧
    r.map foundPriority = some 10 ∧ r₀.map foundPriority = some 10 ∧
    (SearchesAgree (ip4ProtectMatch transportSa 3 1 256) r r₀ ↔
      InboundAgree transportSa s spd .ip4InboundProtect (ip4ProtectMatch transportSa 3 1 256) fromThree) := by
  obtain ⟨s, hrun, hagree⟩ :=
    inboundFastPath_agrees_iff transportSa (fun _ _ => true) (protectOps ⟨0, 0xffffffff⟩)
  obtain ⟨s', hrun', hobs⟩ := exists_of_runM_map
    (show (runM (step transportSa) (init fun _ _ => true)
      (protectOps ⟨0, 0xffffffff⟩)).map protectObserve = .ok ⟨true, true, some [some 10], some (some 10)⟩ by
        decide +kernel)
  rw [hrun] at hrun'
  cases hrun'
  obtain ⟨spd, rs, r₀, hspd, hfp, hids, hr, hprs, hr₀, hpr₀⟩ := searchObserve_eq hobs
  obtain ⟨r, rfl, hpr⟩ := map_eq_singleton_iff.mp hprs
  obtain ⟨r', r₀', hr', hr₀', hiff⟩ := (hagree 1 spd hspd).2.1 hfp [0] hids zero 3 1 256
  rw [show [ipsecFpIn5tupleFromIp4Range _ _ _ _ _] = [fromThree] from rfl, hr] at hr'
  rw [hr₀] at hr₀'
  cases hr'
  cases hr₀'
  exact ⟨s, spd, r, r₀, hrun, hspd, hfp, hids, hr, hr₀, hpr, hpr₀, hiff⟩

/-- A policy for the remote addresses 1 and 2: the fast path returns it for a packet from address 3, the linear
    search returns nothing. -/
theorem inboundFastPath_ignores_range : ∃ s spd c,
    runM (step transportSa) (init fun _ _ => true) (protectOps ⟨1, 2⟩) = .ok s ∧
    s.im.spd? 1 = some spd ∧ ipsecIsFpEnabled s.im spd .ip4InboundProtect = true ∧
    ListsLive s.im.policies (s.live 1 .ip4InboundProtect) [0] ∧
    ipsecFpInPolicyMatchN transportSa s.im spd.fpSpd false [fromThree] = .ok [some c] ∧
    linearSearch s.im.policies (ip4ProtectMatch transportSa 3 1 256) [0] = .ok none := by
  obtain ⟨s, hrun, hobs⟩ := exists_of_runM_map
    (show (runM (step transportSa) (init fun _ _ => true)
      (protectOps ⟨1, 2⟩)).map protectObserve = .ok ⟨true, true, some [some 10], some none⟩ by decide +kernel)
  obtain ⟨spd, rs, r₀, hspd, hfp, hids, hr, hprs, hr₀, hpr₀⟩ := searchObserve_eq hobs
  obtain ⟨r, rfl, hpr⟩ := map_eq_singleton_iff.mp hprs
  obtain ⟨c, rfl, -⟩ := map_eq_some_iff.mp hpr
  obtain rfl := map_eq_none_iff.mp hpr₀
  exact ⟨s, spd, c, hrun, hspd, hfp, hids, hr, hr₀⟩

end Vpp.Ipsec
