import Vpp.Ipsec.Spd.Agree

/-! What the fast paths of all SPDs hold together, as long as no SPD is deleted.

    Every policy of a fast path is counted in the pool of masks and in the masks of its SPD and type, and lies in
    one bucket: the one of its own key, in the hash table of its SPD, address family and direction. -/

namespace Vpp.Ipsec
open Vpp.Schemes Vpp.Vppinfra SpdHistory Option Function

/-- A live policy of a fast path. -/
def FastLive (s : SpdHistory) (spdId : BitVec 32) (t : PolicyType) (i : ℕ) : Prop :=
  ∃ spd, s.im.spd? spdId = some spd ∧ (spd.tableOf t).isSome ∧ i ∈ s.live spdId t

/-- The mask of the policy at an index. -/
def maskAt (sas : SaTable) (im : IpsecMain) (i : ℕ) : Option IpsecFp5tuple :=
  (im.policies.get? i).map (ipsecFpGetPolicyMask sas)

/-- A bucket of a hash table of an SPD. -/
def IsBucket (s : SpdHistory) (spdId : BitVec 32) (isIpv6 inbound : Bool) (key : IpsecFp5tuple) (ids : List ℕ) :
    Prop :=
  ∃ spd h table, s.im.spd? spdId = some spd ∧ spd.fpSpd.lookupHashIdx isIpv6 inbound = some h ∧
    (s.im.lookupHashes isIpv6).get? h = some table ∧ table key = some ids

/-- The representation invariant of the fast paths; `fast` are the live policies. -/
structure FastPathRep (sas : SaTable) (s : SpdHistory) (fast : Finset ℕ) : Prop where
  mem_fast : ∀ i, i ∈ fast ↔ ∃ spdId t, FastLive s spdId t i
  maskTypes : ∀ m e, s.im.fpMaskTypes.get? m = some e →
    e.refcount = uses fast (maskAt sas s.im) (some e.mask)
  maskIds_nodup : ∀ spdId spd t, s.im.spd? spdId = some spd → (spd.tableOf t).isSome →
    ((spd.fpSpd.fpMaskIds t).map (·.maskTypeIdx)).Nodup
  maskIds_count : ∀ spdId spd t, s.im.spd? spdId = some spd → (spd.tableOf t).isSome →
    ∀ e ∈ spd.fpSpd.fpMaskIds t, ∃ mte, s.im.fpMaskTypes.get? e.maskTypeIdx = some mte ∧
      e.refcount = uses (s.live spdId t) (maskAt sas s.im) (some mte.mask) ∧ 0 < e.refcount
  maskIds_listed : ∀ spdId spd t, s.im.spd? spdId = some spd → (spd.tableOf t).isSome →
    ∀ i ∈ s.live spdId t, ∃ e ∈ spd.fpSpd.fpMaskIds t, ∃ mte,
      s.im.fpMaskTypes.get? e.maskTypeIdx = some mte ∧ maskAt sas s.im i = some mte.mask
  one_bucket : ∀ spdId t i, FastLive s spdId t i → ∃ p, s.im.policies.get? i = some p ∧
    ∀ spdId' v d key, (∃ ids, IsBucket s spdId' v d key ids ∧ i ∈ ids) ↔
      spdId' = spdId ∧ v = t.isIpv6 ∧ d = t.isInbound ∧ key = policyKey sas p
  bucket_live : ∀ spdId v d key ids, IsBucket s spdId v d key ids →
    ∀ i ∈ ids, ∃ t, FastLive s spdId t i
  bucket_order : ∀ spdId v d key ids, IsBucket s spdId v d key ids →
    ids ≠ [] ∧ ids.Nodup ∧ Descending s.im.policies.get? IpsecPolicy.prio ids

section
variable {sas : SaTable} {s : SpdHistory} {held : Finset ℕ} {spdId : BitVec 32}

/-- All holders of masks are live. -/
def AllLive (s : SpdHistory) (held : Finset ℕ) : Prop :=
  ∀ i ∈ held, ∃ spdId t, (s.im.spdIndexBySpdId spdId).isSome ∧ i ∈ s.live spdId t

section

variable (hinv : SpdInv sas s held)
include hinv

theorem SpdInv.spd? {spd : IpsecSpd} (h : s.im.spd? spdId = some spd) : ∃ k, s.im.spds.get? k = some spd ∧
    spd.id = spdId := by
  obtain ⟨k, hidx, hk⟩ := bind_eq_some_iff.mp h
  exact ⟨k, hk, hinv.indexed.key_eq hidx hk⟩

/-- A policy refers to the entry of its mask. -/
theorem SpdInv.maskOf_iff {m i : ℕ} {e : IpsecFpMaskTypeEntry}
    (he : s.im.fpMaskTypes.get? m = some e) (hi : i ∈ held) :
    maskAt sas s.im i = some e.mask ↔ maskOf s.im.policies i = m := by
  obtain ⟨p, e', hp, he', hmask⟩ := hinv.masks.mask i hi
  rw [maskAt, hp, map_some, some.injEq, maskOf_eq hp, ← hmask]
  constructor
  · intro heq
    exact hinv.masks.distinct _ _ _ _ he' he heq
  · rintro rfl
    rw [he] at he'
    cases he'
    rfl

theorem SpdInv.fastLive_held {t : PolicyType} {i : ℕ} (h : FastLive s spdId t i) : i ∈ held := by
  obtain ⟨spd, hspd, hfast, hi⟩ := h
  obtain ⟨k, hk, rfl⟩ := hinv.spd? hspd
  exact (hinv.fast k spd hk t i hi).mpr hfast

theorem SpdInv.held_fastLive (hlive : AllLive s held) {i : ℕ} (hi : i ∈ held) :
    ∃ spdId t, FastLive s spdId t i := by
  obtain ⟨spdId, t, hspd, hmem⟩ := hlive i hi
  obtain ⟨k, hidx⟩ := isSome_iff_exists.mp hspd
  obtain ⟨spd, hk, rfl⟩ := hinv.indexed.live spdId k hidx
  refine ⟨spd.id, t, spd, ?_, (hinv.fast k spd hk t i hmem).mp hi, hmem⟩
  rw [IpsecMain.spd?, hidx]
  exact hk

/-- The contents of a bucket. -/
theorem SpdInv.bucket {v d : Bool} {key : IpsecFp5tuple} {ids : List ℕ}
    (h : IsBucket s spdId v d key ids) :
    (ids ≠ [] ∧ ids.Nodup ∧ Descending s.im.policies.get? IpsecPolicy.prio ids) ∧
      ∀ i ∈ ids, ∃ t p, t.isIpv6 = v ∧ t.isInbound = d ∧ FastLive s spdId t i ∧
        s.im.policies.get? i = some p ∧ p.type = t ∧ p.id = spdId ∧ policyKey sas p = key := by
  obtain ⟨spd, h, table, hspd, hidx, htable, hids⟩ := h
  obtain ⟨k, hk, rfl⟩ := hinv.spd? hspd
  obtain ⟨table', htable', hbuckets⟩ := (hinv.rep k spd hk).table v d h hidx
  rw [htable] at htable'
  cases htable'
  refine ⟨hbuckets.bucket key ids hids, fun i hi => ?_⟩
  obtain ⟨⟨t, hv, hd, hmem⟩, p, hp, hkey⟩ := hbuckets.sound key ids i hids hi
  obtain ⟨q, hq, hqt, hqid⟩ := (hinv.rep k spd hk).listed t i hmem
  rw [hp] at hq
  cases hq
  refine ⟨t, p, hv, hd, ⟨spd, hspd, ?_, hmem⟩, hp, hqt, hqid, hkey⟩
  rw [IpsecSpd.tableOf, hv, hd, hidx]
  rfl

/-- Every live policy of a fast path is in the bucket of its key. -/
theorem SpdInv.filed {t : PolicyType} {i : ℕ} (h : FastLive s spdId t i) :
    ∃ p, s.im.policies.get? i = some p ∧ p.type = t ∧ p.id = spdId ∧
      ∃ ids, IsBucket s spdId t.isIpv6 t.isInbound (policyKey sas p) ids ∧ i ∈ ids := by
  obtain ⟨spd, hspd, hfast, hi⟩ := h
  obtain ⟨k, hk, rfl⟩ := hinv.spd? hspd
  obtain ⟨hidx, hh⟩ := isSome_iff_exists.mp hfast
  obtain ⟨table, htable, hbuckets⟩ := (hinv.rep k spd hk).table _ _ _ hh
  obtain ⟨p, ids, hp, hids, hmem⟩ := hbuckets.complete i ⟨t, rfl, rfl, hi⟩
  obtain ⟨q, hq, hqt, hqid⟩ := (hinv.rep k spd hk).listed t i hi
  rw [hp] at hq
  cases hq
  exact ⟨p, hp, hqt, hqid, ids, ⟨spd, hidx, table, hspd, hh, htable, hids⟩, hmem⟩

theorem SpdInv.fastPathRep (hlive : AllLive s held) : FastPathRep sas s held := by
  constructor
  · intro i
    constructor
    · exact hinv.held_fastLive hlive
    · rintro ⟨spdId, t, hi⟩
      exact hinv.fastLive_held hi
  · intro m e he
    rw [(hinv.masks.count m e he).1]
    exact (uses_eq_of_iff fun i hi => hinv.maskOf_iff he hi).symm
  · intro spdId spd t hspd hfast
    obtain ⟨k, hk, rfl⟩ := hinv.spd? hspd
    exact ((hinv.rep k spd hk).maskIds t hfast).nodup
  · intro spdId spd t hspd hfast e he
    obtain ⟨k, hk, rfl⟩ := hinv.spd? hspd
    obtain ⟨hcount, hpos⟩ := ((hinv.rep k spd hk).maskIds t hfast).count e he
    -- somebody uses the mask, so it has an entry
    obtain ⟨i, hi, hmask⟩ := uses_pos_iff.mp (hcount ▸ hpos)
    obtain ⟨p, mte, hp, hmte, -⟩ := hinv.masks.mask i ((hinv.fast k spd hk t i hi).mpr hfast)
    rw [maskOf_eq hp] at hmask
    rw [hmask] at hmte
    refine ⟨mte, hmte, hcount.trans (uses_eq_of_iff fun j hj => ?_).symm, hpos⟩
    exact hinv.maskOf_iff hmte ((hinv.fast k spd hk t j hj).mpr hfast)
  · intro spdId spd t hspd hfast i hi
    obtain ⟨k, hk, rfl⟩ := hinv.spd? hspd
    obtain ⟨e, he, heq⟩ := ((hinv.rep k spd hk).maskIds t hfast).listed i hi
    obtain ⟨p, mte, hp, hmte, hmask⟩ := hinv.masks.mask i ((hinv.fast k spd hk t i hi).mpr hfast)
    rw [maskOf_eq hp] at heq
    exact ⟨e, he, mte, by rw [heq]; exact hmte, by rw [maskAt, hp, hmask]; rfl⟩
  · intro spdId t i hi
    obtain ⟨p, hp, hpt, hpid, ids, hbucket, hmem⟩ := hinv.filed hi
    refine ⟨p, hp, fun spdId' v d key => ?_⟩
    constructor
    · rintro ⟨ids', hbucket', hmem'⟩
      obtain ⟨t', p', hv, hd, -, hp', hpt', hpid', hkey⟩ := (hinv.bucket hbucket').2 i hmem'
      rw [hp] at hp'
      cases hp'
      rw [hpt] at hpt'
      cases hpt'
      exact ⟨hpid'.symm.trans hpid, hv.symm, hd.symm, hkey.symm⟩
    · rintro ⟨rfl, rfl, rfl, rfl⟩
      exact ⟨ids, hbucket, hmem⟩
  · intro spdId v d key ids hbucket i hi
    obtain ⟨t, -, -, -, hfast, -⟩ := (hinv.bucket hbucket).2 i hi
    exact ⟨t, hfast⟩
  · intro spdId v d key ids hbucket
    exact (hinv.bucket hbucket).1

end

/-! ### Runs without deletion of SPDs -/

/-- The operation does not delete an SPD. -/
def SpdOp.keepsSpds : SpdOp → Prop
  | .addDelSpd _ isAdd => isAdd = true
  | .addDelPolicy _ _ => True

/-- No operation but the deletion of an SPD leaves masks behind. -/
theorem SpdHistory.step_allLive (hinv : SpdInv sas s held) (hlive : AllLive s held) {op : SpdOp}
    (hop : op.keepsSpds) :
    ∃ s', s.step sas op = .ok s' ∧ ∃ held', SpdInv sas s' held' ∧ AllLive s' held' := by
  cases op with
  | addDelSpd spdId isAdd =>
    cases hop
    rcases ipsecAddDelSpd_spec hinv spdId true with ⟨error, hstep⟩ | ⟨im', hstep, -, hnew, hindex, hinv'⟩
    · exact ⟨s, by rw [step, hstep]; rfl, held, hinv, hlive⟩
    · refine ⟨s.afterSpd spdId im', by rw [step, hstep]; rfl, held, hinv', ?_⟩
      intro i hi
      obtain ⟨id, t, hid, hmem⟩ := hlive i hi
      have hne : id ≠ spdId := by
        rintro rfl
        rw [hnew rfl] at hid
        cases hid
      refine ⟨id, t, ?_, ?_⟩
      · rw [show (s.afterSpd spdId im').im.spdIndexBySpdId id = _ from hindex id hne]
        exact hid
      · rw [afterSpd]
        dsimp only
        rw [update_of_ne hne]
        exact hmem
  | addDelPolicy policy isAdd =>
    obtain ⟨im', reply, held', hstep, hout, hinv', hheld⟩ := ipsecAddDelPolicy_spec hinv policy isAdd
    refine ⟨s.afterPolicy policy im' reply, by rw [step, hstep]; rfl, held', hinv', ?_⟩
    intro i hi
    have hsome : (im'.policies.get? i).isSome := hinv'.held_isSome hi
    -- the live policies of the type of the request, and the others
    have hafter : i ∈ s.live policy.id policy.type ∨ reply.statIndex = some i →
        i ∈ (s.afterPolicy policy im' reply).live policy.id policy.type := by
      intro h
      rw [afterPolicy, withLive]
      dsimp only
      rw [update_self, update_self]
      exact (mem_liveAfter hsome).mpr h
    have hindex : (s.afterPolicy policy im' reply).im.spdIndexBySpdId = s.im.spdIndexBySpdId := hout.index
    rcases hheld i hi with hold | hnew
    · obtain ⟨id, t, hid, hmem⟩ := hlive i hold
      refine ⟨id, t, by rw [hindex]; exact hid, ?_⟩
      by_cases hsame : id = policy.id ∧ t = policy.type
      · obtain ⟨rfl, rfl⟩ := hsame
        exact hafter (Or.inl hmem)
      · rw [afterPolicy, s.live_withLive_of_ne hsame]
        exact hmem
    · refine ⟨policy.id, policy.type, ?_, hafter (Or.inr hnew)⟩
      rw [hindex]
      cases hout with
      | unchanged => cases hnew
      | added hspd _ _ => exact hspd
      | deleted => cases hnew

/-- What an operation on a policy reports is what it did: an add puts the policy in an empty slot of the pool, and the
    index that it returns is live; a deletion from a fast path takes a live policy equal to the request out of both. -/
structure PolicyTracked (sas : SaTable) (s s' : SpdHistory) (policy : IpsecPolicy) (isAdd : Bool) (reply : SpdReply) :
    Prop where
  added : isAdd = true → reply.error = none → ∃ i sa, reply.statIndex = some i ∧
    policySaIndex sas policy = some sa ∧
    Added s.im s'.im { policy with saIndex := sa } i ∧
    s'.live policy.id policy.type = insert i (s.live policy.id policy.type)
  deleted : isAdd = false → reply.error = none → ∀ spd, s.im.spd? policy.id = some spd →
    (spd.tableOf policy.type).isSome → ∃ i ∈ s.live policy.id policy.type, ∃ vp,
    s.im.policies.get? i = some vp ∧
      ipsecPolicyIsEqual vp policy = true ∧ Deleted s.im s'.im i ∧
      s'.live policy.id policy.type = (s.live policy.id policy.type).erase i
  failed : reply.error ≠ none → s'.im = s.im
  others : ∀ id t, ¬ (id = policy.id ∧ t = policy.type) → s'.live id t = s.live id t

theorem SpdInv.tracked (hinv : SpdInv sas s held) {policy : IpsecPolicy} {isAdd : Bool} {im' : IpsecMain}
    {reply : SpdReply} (hout : PolicyOutcome sas s policy isAdd im' reply) :
    PolicyTracked sas s (s.afterPolicy policy im' reply) policy isAdd reply := by
  have hothers : ∀ id t, ¬ (id = policy.id ∧ t = policy.type) →
      (s.afterPolicy policy im' reply).live id t = s.live id t := fun id t hne => s.live_withLive_of_ne hne
  have hlive (hspd : (s.im.spdIndexBySpdId policy.id).isSome) : LiveInPool s policy := by
    obtain ⟨k, hidx⟩ := isSome_iff_exists.mp hspd
    obtain ⟨spd, hk, hid⟩ := hinv.indexed.live policy.id k hidx
    exact fun i hi => hinv.live_isSome hk (by rw [hid]; exact hi)
  have hafter : (s.afterPolicy policy im' reply).live policy.id policy.type =
      liveAfter (s.live policy.id policy.type) im' reply := by simp [afterPolicy, withLive]
  cases hout with
  | unchanged error sa hsa hfail =>
    refine ⟨fun hadd herror => ?_, fun _ herror spd hspd hfast => ?_, fun _ => rfl, hothers⟩
    · obtain ⟨hdel, -⟩ := hfail herror
      rw [hadd] at hdel
      cases hdel
    · rw [(hfail herror).2 spd hspd] at hfast
      cases hfast
  | added hspd hsa hadd =>
    refine ⟨fun _ _ => ⟨_, _, rfl, hsa, hadd, ?_⟩, nofun, fun h => absurd rfl h, hothers⟩
    rw [hafter, liveAfter_added (hlive hspd) hadd rfl]
  | deleted hspd hsa hmem hvp heq hdel =>
    refine ⟨nofun, fun _ _ spd _ _ => ⟨_, hmem, _, hvp, heq, hdel, ?_⟩, fun h => absurd rfl h, hothers⟩
    rw [hafter, liveAfter_deleted (hlive hspd) hdel rfl]

/-- After every run of operations that deletes no SPD, the representation invariant of the fast paths holds, and the
    next operation on a policy does what it reports. -/
theorem fastPath_representation (sas : SaTable) (fpIsEnabled : Bool → Bool → Bool) (ops : List SpdOp)
    (hops : ∀ op ∈ ops, op.keepsSpds) :
    ∃ s, runM (SpdHistory.step sas) (SpdHistory.init fpIsEnabled) ops = .ok s ∧
      (∃ fast, FastPathRep sas s fast) ∧
      ∀ policy isAdd, ∃ im' reply s', ipsecAddDelPolicy sas s.im policy isAdd = .ok (im', reply) ∧
        s.step sas (.addDelPolicy policy isAdd) = .ok s' ∧ s'.im = im' ∧
        PolicyTracked sas s s' policy isAdd reply := by
  have hstep : ∀ (s : SpdHistory) (op : SpdOp), (∃ held, SpdInv sas s held ∧ AllLive s held) → op.keepsSpds →
      ∃ s', s.step sas op = .ok s' ∧ ∃ held', SpdInv sas s' held' ∧ AllLive s' held' := by
    rintro s op ⟨held, hinv, hlive⟩ hop
    exact s.step_allLive hinv hlive hop
  obtain ⟨s, hrun, held, hinv, hlive⟩ := runM_total hstep hops
    ⟨∅, spdInv_init sas fpIsEnabled, by simp [AllLive]⟩
  refine ⟨s, hrun, ⟨held, hinv.fastPathRep hlive⟩, fun policy isAdd => ?_⟩
  obtain ⟨im', reply, -, hop, hout, -⟩ := ipsecAddDelPolicy_spec hinv policy isAdd
  exact ⟨im', reply, s.afterPolicy policy im' reply, hop, by rw [step, hop]; rfl, rfl, hinv.tracked hout⟩

end

/-- Two SPDs get policies for all outbound packets, of both families, which have one mask, and one for inbound
    packets; then one of them is deleted. -/
def twoSpdsOps : List SpdOp :=
  [.addDelSpd 1 true, .addDelSpd 2 true, .addDelPolicy (anyIp4Outbound 1 10) true,
    .addDelPolicy (anyIp4Outbound 2 20) true, .addDelPolicy (.forAll 2 true true .bypass .ip6Outbound rfl) true,
    .addDelPolicy (.forAll 1 false true .discard .ip6InboundDiscard rfl) true,
    .addDelPolicy (anyIp4Outbound 1 10) false]

theorem fastPath_representation_two_spds : ∃ s,
    runM (SpdHistory.step noSas) (SpdHistory.init fun _ _ => true) twoSpdsOps = .ok s ∧
    (∃ fast, FastPathRep noSas s fast) ∧ s.im.fpMaskTypes.toList.map (·.2.refcount) = [2, 1] := by
  obtain ⟨s, hrun, hrep, -⟩ := fastPath_representation noSas (fun _ _ => true) twoSpdsOps
    (by simp [twoSpdsOps, SpdOp.keepsSpds])
  obtain ⟨s', hrun', hcount⟩ := exists_of_runM_map
    (show (runM (step noSas) (init fun _ _ => true) twoSpdsOps).map
        (fun s => s.im.fpMaskTypes.toList.map (·.2.refcount)) = .ok [2, 1] by decide +kernel)
  rw [hrun] at hrun'
  cases hrun'
  exact ⟨s, hrun, hrep, hcount⟩

end Vpp.Ipsec
