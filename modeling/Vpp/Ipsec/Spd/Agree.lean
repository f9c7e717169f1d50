import Vpp.Ipsec.Spd.Search

/-! The fast path against the linear search for outbound packets.

    Both searches look at the live policies that select the packet: such a policy lies in a bucket that the
    fast path looks up, since its mask only drops what the packets it selects may differ in. But the leaders
    of the buckets are compared as unsigned numbers, starting from zero: a policy of priority zero is never
    returned, and a negative one wins over all that are not. -/

namespace Vpp.Ipsec
open Vpp.Schemes Vpp.Vppinfra Option IpsecFp5tuple
open SpdHistory (step init)

/-- The vector that the linear search would go through: the live policies by descending priority. -/
structure ListsLive (policies : Pool IpsecPolicy) (live : Finset ℕ) (ids : List ℕ) : Prop where
  nodup : ids.Nodup
  mem : ∀ i, i ∈ ids ↔ i ∈ live
  descending : Descending policies.get? IpsecPolicy.prio ids

/-- The policies that select the packet are all of negative priority; or one is positive, and none of negative
    priority is in a bucket of its own. -/
def SignsAgree (sas : SaTable) (policies : Pool IpsecPolicy) (live : Finset ℕ) (hit : IpsecPolicy → Bool) : Prop :=
  (∀ c, Hit policies hit live c → c.2.prio < 0) ∨
    (∃ c, Hit policies hit live c ∧ 0 < c.2.prio) ∧
      ∀ c, Hit policies hit live c → c.2.prio < 0 →
        ∃ b, Hit policies hit live b ∧ policyKey sas b.2 = policyKey sas c.2 ∧ 0 ≤ b.2.prio

section
variable {sas : SaTable} {s : SpdHistory} {held : Finset ℕ} {k : ℕ} {spd : IpsecSpd}

/-- The only live policies that share a hash table of outbound policies are those of its type. -/
theorem filed_outbound {live : PolicyType → Finset ℕ} {t : PolicyType} (ht : t.isInbound = false) {i : ℕ} :
    Filed live t.isIpv6 t.isInbound i ↔ i ∈ live t := by
  constructor
  · rintro ⟨t', hv, hd, hi⟩
    have heq : t' = t := by
      revert ht hv hd
      cases t <;> cases t' <;> decide
    rw [← heq]
    exact hi
  · intro hi
    exact ⟨t, rfl, rfl, hi⟩

section
variable (hinv : SpdInv sas s held) (hk : s.im.spds.get? k = some spd) {t : PolicyType} {hit : IpsecPolicy → Bool}
variable {m : IpsecFp5tuple}
include hinv hk

/-- Where the fast path finds exactly what selects the packet, only the signs of the priorities matter. -/
theorem SpdInv.agree_signs (hfast : (spd.tableOf t).isSome) {skip : IpsecFp5tuple → Bool}
    {rule : IpsecPolicy → IpsecFp5tuple → Bool}
    (hhits : ∀ c, FastHit sas s spd.id t skip (rule · m) m c ↔ Hit s.im.policies hit (s.live spd.id t) c)
    {ids : List ℕ} (hids : ListsLive s.im.policies (s.live spd.id t) ids) :
    ∃ r r₀, fpPolicyMatchN t.isIpv6 t.isInbound skip rule (spd.fpSpd.fpMaskIds t) s.im spd.fpSpd [m] = .ok [r] ∧
      linearSearch s.im.policies hit ids = .ok r₀ ∧ (∀ c, r = some c → hit c.2 = true) ∧
      (r.map foundPriority = r₀.map foundPriority ↔ SignsAgree sas s.im.policies (s.live spd.id t) hit) := by
  obtain ⟨r, hr, ⟨cand, hbest, hleads, -⟩, -⟩ := hinv.fastSearch hk hfast skip rule m
  obtain ⟨r₀, hr₀, hfirst⟩ : ∃ r₀, linearSearch s.im.policies hit ids = .ok r₀ ∧ _ :=
    linearSearch_spec fun i hi => hinv.live_isSome hk ((hids.mem i).mp hi)
  rw [show FastHit _ _ _ _ _ _ _ = _ from funext fun c => propext (hhits c)] at hleads
  refine ⟨r, r₀, hr, hr₀, ?_, hleads.agree_iff hbest (hfirst.topOf hids.descending hids.mem)⟩
  rintro c rfl
  exact (hleads.leader c hbest.1).1.2.2

/-- Where every packet a policy selects is filed under the policy's key, the fast path finds what selects it. -/
theorem SpdInv.fastHit_iff (ht : t.isInbound = false)
    (hrule : ∀ p : IpsecPolicy, p.type = t → singleRuleOutMatch5tuple p m = hit p)
    (hkey : ∀ p : IpsecPolicy, p.type = t → hit p = true →
      fillHashPolicyKv t.isIpv6 m (ipsecFpGetPolicyMask sas p) = policyKey sas p) (c : ℕ × IpsecPolicy) :
    FastHit sas s spd.id t (·.action != 0) (singleRuleOutMatch5tuple · m) m c ↔
      Hit s.im.policies hit (s.live spd.id t) c := by
  unfold FastHit Hit
  rw [filed_outbound ht]
  refine and_congr_right fun hi => and_congr_right fun hp => ?_
  obtain ⟨p, hp', htype, -⟩ := (hinv.rep k spd hk).listed t c.1 hi
  rw [hp] at hp'
  cases hp'
  dsimp only
  rw [hrule c.2 htype]
  refine and_iff_left_of_imp fun hhit => ⟨c.1, hi, c.2, hp, ?_, hkey c.2 htype hhit⟩
  dsimp only
  rw [action_outboundMask sas (by rw [htype]; exact ht)]
  rfl

end

end

/-- After any run of operations, the fast path and the linear search over the same live policies agree on the
    priority of what they return exactly when the signs of the priorities allow it. -/
theorem fastPath_agrees_iff (sas : SaTable) (fpIsEnabled : Bool → Bool → Bool) (ops : List SpdOp) :
    ∃ s, runM (step sas) (init fpIsEnabled) ops = .ok s ∧
      ∀ spdId spd, s.im.spd? spdId = some spd →
        (ipsecIsFpEnabled s.im spd .ip4Outbound = true → ∀ ids,
          ListsLive s.im.policies (s.live spdId .ip4Outbound) ids → ∀ tuple pr la ra lp rp, ∃ r r₀,
            ipsecOutputPolicyMatch s.im (some spd) tuple pr la ra lp rp = .ok r ∧
            linearSearch s.im.policies (ip4OutputMatch · pr la ra lp rp) ids = .ok r₀ ∧
            (r.map foundPriority = r₀.map foundPriority ↔ SignsAgree sas s.im.policies
              (s.live spdId .ip4Outbound) (ip4OutputMatch · pr la ra lp rp))) ∧
        (ipsecIsFpEnabled s.im spd .ip6Outbound = true → ∀ ids,
          ListsLive s.im.policies (s.live spdId .ip6Outbound) ids → ∀ tuple la ra lp rp pr, ∃ r r₀,
            ipsec6OutputPolicyMatch s.im (some spd) tuple la ra lp rp pr = .ok r ∧
            linearSearch s.im.policies (ip6OutputMatch · la ra lp rp pr) ids = .ok r₀ ∧
            (r.map foundPriority = r₀.map foundPriority ↔ SignsAgree sas s.im.policies
              (s.live spdId .ip6Outbound) (ip6OutputMatch · la ra lp rp pr))) := by
  obtain ⟨s, held, hrun, hinv⟩ := spdRun_inv (spdInv_init sas fpIsEnabled) ops
  refine ⟨s, hrun, fun spdId spd hspd => ?_⟩
  obtain ⟨k, hidx, hk⟩ := bind_eq_some_iff.mp hspd
  obtain rfl := hinv.indexed.key_eq hidx hk
  refine ⟨fun hfp ids hids tuple pr la ra lp rp => ?_, fun hfp ids hids tuple la ra lp rp pr => ?_⟩
  · have hhits := hinv.fastHit_iff hk rfl
      (fun p hp => singleRuleOutMatch5tuple_ip4 (by rw [← p.type_isIpv6, hp]; rfl) tuple la ra)
      fun p hp (hhit : ip4OutputMatch p pr la ra lp rp = true) => policyKey_of_ip4Match sas hp tuple hhit
    obtain ⟨r, r₀, hr, hr₀, -, hagree⟩ :=
      hinv.agree_signs hk (by rw [← hinv.fpEnabled hk]; exact hfp) hhits hids
    refine ⟨r, r₀, ?_, hr₀, hagree⟩
    simp only [ipsecOutputPolicyMatch, hfp, if_true]
    rw [show ipsecFpOutIp4PolicyMatchN s.im spd.fpSpd _ = .ok [r] from hr]
    rfl
  · have hhits := hinv.fastHit_iff hk rfl
      (fun p hp => singleRuleOutMatch5tuple_ip6 (by rw [← p.type_isIpv6, hp]; rfl) tuple la ra)
      fun p hp (hhit : ip6OutputMatch p la ra lp rp pr = true) => policyKey_of_ip6Match sas hp tuple hhit
    obtain ⟨r, r₀, hr, hr₀, -, hagree⟩ :=
      hinv.agree_signs hk (by rw [← hinv.fpEnabled hk]; exact hfp) hhits hids
    refine ⟨r, r₀, ?_, hr₀, hagree⟩
    simp only [ipsec6OutputPolicyMatch, hfp, if_true]
    rw [show ipsecFpOutIp6PolicyMatchN s.im spd.fpSpd _ = .ok [r] from hr]
    rfl

/-- A policy for all IPv4 packets, of the given priority. -/
def anyIp4Outbound (spdId priority : BitVec 32) : IpsecPolicy :=
  { IpsecPolicy.forAll spdId true false .bypass .ip4Outbound rfl with priority := priority }

/-- No SAs. -/
def noSas : SaTable := ⟨fun _ => none, fun _ => 0, fun _ => false, fun _ => 0, fun _ => 0⟩

/-- SPD 1 is created and gets one policy. -/
def oneSpdOps (priority : BitVec 32) : List SpdOp :=
  [.addDelSpd 1 true, .addDelPolicy (anyIp4Outbound 1 priority) true]

theorem eq_ok_of_toOption {ε α : Type} {x : Except ε α} {a : α} (h : x.toOption = some a) : x = .ok a := by
  cases x with
  | ok b => cases h; rfl
  | error e => cases h

/-- What is observed after the run: the live policies, whether the fast path is on, and the priorities that the
    fast path and the linear search over `[0]` return. -/
structure SearchObserved (α : Type) where
  live : Bool
  fpEnabled : Bool
  fast : Option α
  linear : Option (Option (BitVec 32))
  deriving DecidableEq

section
variable {α β : Type} (t : PolicyType) (fast : IpsecMain → IpsecSpd → Except Fault α) (prio : α → β)
  (test : IpsecPolicy → Bool) (s : SpdHistory)

def searchObserve : SearchObserved β where
  live := s.live 1 t = {0}
  fpEnabled := (s.im.spd? 1).any (ipsecIsFpEnabled s.im · t)
  fast := (s.im.spd? 1).bind fun spd => (fast s.im spd).toOption.map prio
  linear := (linearSearch s.im.policies test [0]).toOption.map (·.map foundPriority)

variable {t fast prio test s}

/-- What an observation says of the state. -/
theorem searchObserve_eq {f : β} {l : Option (BitVec 32)}
    (h : searchObserve t fast prio test s = ⟨true, true, some f, some l⟩) :
    ∃ spd r r₀, s.im.spd? 1 = some spd ∧ ipsecIsFpEnabled s.im spd t = true ∧
      ListsLive s.im.policies (s.live 1 t) [0] ∧ fast s.im spd = .ok r ∧ prio r = f ∧
      linearSearch s.im.policies test [0] = .ok r₀ ∧ r₀.map foundPriority = l := by
  simp only [searchObserve, SearchObserved.mk.injEq, decide_eq_true_eq] at h
  obtain ⟨hlive, hfp, hfast, hlin⟩ := h
  obtain ⟨spd, hspd, hfast⟩ := bind_eq_some_iff.mp hfast
  rw [hspd] at hfp
  obtain ⟨r, hr, rfl⟩ := map_eq_some_iff.mp hfast
  obtain ⟨r₀, hr₀, rfl⟩ := map_eq_some_iff.mp hlin
  refine ⟨spd, r, r₀, hspd, hfp, ⟨by simp, ?_, List.pairwise_singleton _ _⟩, ?_, rfl, ?_, rfl⟩
  · intro i
    rw [hlive, List.mem_singleton, Finset.mem_singleton]
  · exact eq_ok_of_toOption hr
  · exact eq_ok_of_toOption hr₀

end

def oneSpdObserve : SpdHistory → SearchObserved (Option (BitVec 32)) :=
  searchObserve .ip4Outbound (fun im spd => ipsecOutputPolicyMatch im (some spd) zero 17 1 2 3 4)
    (·.map foundPriority) (ip4OutputMatch · 17 1 2 3 4)

/-- A policy of priority 10: both searches return it. -/
theorem fastPath_agrees_ten : ∃ s spd r r₀,
    runM (step noSas) (init fun _ _ => true) (oneSpdOps 10) = .ok s ∧
    s.im.spd? 1 = some spd ∧ ipsecIsFpEnabled s.im spd .ip4Outbound = true ∧
    ListsLive s.im.policies (s.live 1 .ip4Outbound) [0] ∧
    ipsecOutputPolicyMatch s.im (some spd) zero 17 1 2 3 4 = .ok r ∧
    linearSearch s.im.policies (ip4OutputMatch · 17 1 2 3 4) [0] = .ok r₀ ∧ r.map foundPriority = some 10 ∧
    r.map foundPriority = r₀.map foundPriority ∧
    SignsAgree noSas s.im.policies (s.live 1 .ip4Outbound) (ip4OutputMatch · 17 1 2 3 4) := by
  obtain ⟨s, hrun, hagree⟩ := fastPath_agrees_iff noSas (fun _ _ => true) (oneSpdOps 10)
  obtain ⟨s', hrun', hobs⟩ := exists_of_runM_map
    (show (runM (step noSas) (init fun _ _ => true) (oneSpdOps 10)).map oneSpdObserve =
      .ok ⟨true, true, some (some 10), some (some 10)⟩ by decide +kernel)
  rw [hrun] at hrun'
  cases hrun'
  obtain ⟨spd, r, r₀, hspd, hfp, hids, hr, hpr, hr₀, hpr₀⟩ := searchObserve_eq hobs
  obtain ⟨r', r₀', hr', hr₀', hiff⟩ := (hagree 1 spd hspd).1 hfp [0] hids zero 17 1 2 3 4
  rw [hr] at hr'
  rw [hr₀] at hr₀'
  cases hr'
  cases hr₀'
  have heq : r.map foundPriority = r₀.map foundPriority := hpr.trans hpr₀.symm
  exact ⟨s, spd, r, r₀, hrun, hspd, hfp, hids, hr, hr₀, hpr, heq, hiff.mp heq⟩

/-- A policy of priority 0: the linear search returns it, the fast path returns nothing. -/
theorem fastPath_misses_priority_zero : ∃ s spd r₀,
    runM (step noSas) (init fun _ _ => true) (oneSpdOps 0) = .ok s ∧
    s.im.spd? 1 = some spd ∧ ipsecIsFpEnabled s.im spd .ip4Outbound = true ∧
    ListsLive s.im.policies (s.live 1 .ip4Outbound) [0] ∧
    ipsecOutputPolicyMatch s.im (some spd) zero 17 1 2 3 4 = .ok none ∧
    linearSearch s.im.policies (ip4OutputMatch · 17 1 2 3 4) [0] = .ok (some r₀) := by
  obtain ⟨s, hrun, hobs⟩ := exists_of_runM_map
    (show (runM (step noSas) (init fun _ _ => true) (oneSpdOps 0)).map oneSpdObserve =
      .ok ⟨true, true, some none, some (some 0)⟩ by decide +kernel)
  obtain ⟨spd, r, r₀, hspd, hfp, hids, hr, hpr, hr₀, hpr₀⟩ := searchObserve_eq hobs
  obtain rfl := map_eq_none_iff.mp hpr
  obtain ⟨c, rfl, -⟩ := map_eq_some_iff.mp hpr₀
  exact ⟨s, spd, c, hrun, hspd, hfp, hids, hr, hr₀⟩

end Vpp.Ipsec
