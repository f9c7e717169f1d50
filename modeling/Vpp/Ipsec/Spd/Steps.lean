import Vpp.Ipsec.Spd.Rep

/-! What the operations on SPDs and policies do, one lemma each.

    Started in a state that satisfies `SpdInv`, every operation returns (no index that it follows is dangling),
    keeps `SpdInv`, and changes the pool of policies in at most one place: an add fills an empty slot, a
    deletion empties the slot of a live policy that is equal to the one in the request. -/

namespace Vpp.Ipsec
open Vpp.Schemes Vpp.Vppinfra List Function Pool SpdHistory Option
open Finset (mem_insert mem_erase)

/-- The policy was put in an empty slot of the pool. -/
structure Added (im im' : IpsecMain) (policy : IpsecPolicy) (i : ℕ) : Prop where
  index : im'.spdIndexBySpdId = im.spdIndexBySpdId
  fresh : im.policies.get? i = none
  get : ∃ m, ∀ j, im'.policies.get? j =
    if j = i then some { policy with fpMaskTypeId := m } else im.policies.get? j

/-- The slot was emptied. -/
structure Deleted (im im' : IpsecMain) (i : ℕ) : Prop where
  index : im'.spdIndexBySpdId = im.spdIndexBySpdId
  get : ∀ j, im'.policies.get? j = if j = i then none else im.policies.get? j

section
variable {sas : SaTable} {s : SpdHistory} {held : Finset ℕ} {k h : ℕ} {spd : IpsecSpd} {policy : IpsecPolicy}

/-- The live policies with one type replaced. -/
def SpdHistory.withLive (s : SpdHistory) (im : IpsecMain) (policy : IpsecPolicy) (live : Finset ℕ) : SpdHistory :=
  ⟨im, update s.live policy.id (update (s.live policy.id) policy.type live)⟩

/-! ### The fast path -/

section
variable {im : IpsecMain} {fp : IpsecSpdFp} {table : Bihash}

section
variable (hidx : fp.lookupHashIdx policy.isIpv6 policy.type.isInbound = some h)
    (htable : (im.lookupHashes policy.isIpv6).get? h = some table)
include hidx htable

theorem fpAddPolicy_ok
    {maskTypes : Pool IpsecFpMaskTypeEntry} {m n : ℕ} {e : IpsecFpMaskTypeEntry}
    (hacq : acquireMaskType im.fpMaskTypes (ipsecFpGetPolicyMask sas policy) = (maskTypes, m))
    (he : maskTypes.get? m = some e)
    (hn : priorityPosition (im.policies.alloc { policy with fpMaskTypeId := m }).1 policy.priority
      ((table (policyKey sas policy)).getD []) = .ok n) :
    fpAddPolicy policy.isIpv6 sas im fp policy = .ok
      ({ im.setTable policy.isIpv6 h (update table (policyKey sas policy)
          (some (((table (policyKey sas policy)).getD []).insertIdx n
            (im.policies.alloc { policy with fpMaskTypeId := m }).2))) with
          policies := (im.policies.alloc { policy with fpMaskTypeId := m }).1
          fpMaskTypes := maskTypes.set m { e with refcount := e.refcount + 1 } },
        fp.setMaskIds policy.type (addMaskId (fp.fpMaskIds policy.type) m),
        (im.policies.alloc { policy with fpMaskTypeId := m }).2) := by
  have hmask : getPolicyMask policy.isIpv6 sas policy policy.type.isInbound =
      ipsecFpGetPolicyMask sas policy := rfl
  have hkey : ∀ m, fillHashPolicyKv policy.isIpv6
      (ipsecFpGetPolicy5tuple sas { policy with fpMaskTypeId := m } policy.type.isInbound)
      (ipsecFpGetPolicyMask sas policy) = policyKey sas policy := fun _ => rfl
  simp only [fpAddPolicy, hidx, htable, deref_some, bind_ok, hmask, hacq, he, hkey, hn]
  rfl

theorem fpDelPolicy_eq :
    fpDelPolicy policy.isIpv6 sas im fp policy =
      match table (policyKey sas policy) with
      | none => .ok none
      | some ids => findEqualPolicy im.policies policy ids >>= fun found =>
        match found with
        | none => .ok none
        | some (ii, index, vp) => ipsecFpReleaseMaskType im.fpMaskTypes vp.fpMaskTypeId >>= fun maskTypes =>
          .ok (some ({ im.setTable policy.isIpv6 h (update table (policyKey sas policy)
              (if ids.length = 1 then none else some (ids.eraseIdx ii))) with
              policies := im.policies.put index, fpMaskTypes := maskTypes },
            fp.setMaskIds policy.type (delMaskId (fp.fpMaskIds policy.type) vp.fpMaskTypeId), vp.saIndex)) := by
  have hkey : fillHashPolicyKv policy.isIpv6 (ipsecFpGetPolicy5tuple sas policy policy.type.isInbound)
      (getPolicyMask policy.isIpv6 sas policy policy.type.isInbound) = policyKey sas policy := rfl
  simp only [fpDelPolicy, hidx, htable, deref_some, bind_ok, hkey]
  rfl

end

end

theorem addToFastPath_eq (sas : SaTable) (im : IpsecMain) (k : ℕ) (spd : IpsecSpd) (policy : IpsecPolicy) :
    addToFastPath sas im k spd policy = fpAddPolicy policy.isIpv6 sas im spd.fpSpd policy >>= fun r =>
      .ok (r.1.setSpd k { spd with fpSpd := r.2.1 },
        { statIndex := some r.2.2, saLocks := lockSa policy.saIndex }) := by
  unfold addToFastPath
  cases hv : policy.isIpv6 <;> rfl

theorem delFromFastPath_eq (sas : SaTable) (im : IpsecMain) (k : ℕ) (spd : IpsecSpd) (policy : IpsecPolicy) :
    delFromFastPath sas im k spd policy = fpDelPolicy policy.isIpv6 sas im spd.fpSpd policy >>= fun r =>
      match r with
      | none => .ok (im, { error := some .notFound, saLocks := lockSa policy.saIndex ++ unlockSa policy.saIndex })
      | some (im, fp, saIndex) => .ok (im.setSpd k { spd with fpSpd := fp },
          { saLocks := lockSa policy.saIndex ++ unlockSa policy.saIndex ++ unlockSa saIndex }) := by
  unfold delFromFastPath
  cases hv : policy.isIpv6 <;> rfl

theorem delFromVector_eq (im : IpsecMain) (k : ℕ) (spd : IpsecSpd) (policy : IpsecPolicy) :
    delFromVector im k spd policy =
      findEqualPolicy im.policies policy (spd.policies policy.type) >>= fun found =>
        match found with
        | none => .ok (im, {})
        | some (ii, index, vp) =>
          let ids := (spd.policies policy.type).eraseIdx ii
          .ok ({ im with policies := im.policies.put index }.setSpd k
            { spd with policies := update spd.policies policy.type ids },
            { saLocks := unlockSa vp.saIndex }) := rfl

section
variable (hinv : SpdInv sas s held) (hk : s.im.spds.get? k = some spd) (hid : policy.id = spd.id)
include hinv hk hid

section
variable (hfast : spd.tableOf policy.type = some h)
include hfast

/-- The policies of one type change in a fast path. -/
theorem SpdInv.update_fast
    {policies' : Pool IpsecPolicy} {maskTypes' : Pool IpsecFpMaskTypeEntry} {table' : Bihash}
    {ids' : List IpsecFpMaskId} {live' held' : Finset ℕ}
    (hpol : ∀ i, i ∉ s.live spd.id policy.type → (s.im.policies.get? i).isSome →
      policies'.get? i = s.im.policies.get? i)
    (hlisted : ∀ i ∈ live', ∃ p, policies'.get? i = some p ∧ p.type = policy.type ∧ p.id = spd.id)
    (htable : Bucketed policies'.get? (policyKey sas) IpsecPolicy.prio table'
      (Filed (Function.update (s.live spd.id) policy.type live') policy.isIpv6 policy.type.isInbound))
    (hids : MaskIdsRep ids' live' (maskOf policies'))
    (hmasks : MaskTypesRep sas policies' maskTypes' held')
    (hheld : ∀ i, i ∉ s.live spd.id policy.type → (s.im.policies.get? i).isSome → (i ∈ held' ↔ i ∈ held))
    (hsub : live' ⊆ held') :
    SpdInv sas (s.withLive
      ({ s.im.setTable policy.isIpv6 h table' with policies := policies', fpMaskTypes := maskTypes' }.setSpd k
        { spd with fpSpd := spd.fpSpd.setMaskIds policy.type ids' }) policy live') held' := by
  have hrep := hinv.rep k spd hk
  obtain ⟨table, hget, -⟩ := hrep.table _ _ h hfast
  rw [policy.type_isIpv6] at hget
  have hnew : SpdRep sas policies' (Function.update s.im.lookupHashes policy.isIpv6
      ((s.im.lookupHashes policy.isIpv6).set h table'))
      { spd with fpSpd := spd.fpSpd.setMaskIds policy.type ids' }
      (Function.update (s.live spd.id) policy.type live') := by
    rw [← policy.type_isIpv6] at htable hget ⊢
    refine hrep.update rfl rfl (fun t ht => ?_) hpol ?_ hlisted (fun h' hh => ?_) (fun _ => ?_) fun hnone => ?_
    · simp [IpsecSpdFp.setMaskIds, ht]
    · intro v d h' hne hd
      refine get?_setTable hget ?_
      rintro ⟨rfl, rfl⟩
      exact hne ⟨rfl, (hinv.owner k k spd spd hk hk _ d _ h' hd hfast).2⟩
    · cases hfast.symm.trans hh
      exact ⟨table', by simp [get?_set hget], htable⟩
    · simpa [IpsecSpdFp.setMaskIds] using hids
    · cases hfast.symm.trans hnone
  unfold withLive
  rw [hid]
  refine hinv.update hk rfl rfl rfl rfl rfl hpol ?_ hnew hmasks hheld fun i hi => ?_
  · intro v h' hne
    refine get?_setTable hget ?_
    rintro ⟨rfl, rfl⟩
    refine hne policy.type.isInbound ?_
    rw [← policy.type_isIpv6]
    exact hfast
  · rw [hfast]
    exact iff_of_true (hsub hi) rfl

/-- Adding a policy to a fast path. -/
theorem addToFastPath_spec :
    ∃ im' i, addToFastPath sas s.im k spd policy =
        .ok (im', { statIndex := some i, saLocks := lockSa policy.saIndex }) ∧
      Added s.im im' policy i ∧
      SpdInv sas (s.withLive im' policy (insert i (s.live policy.id policy.type))) (insert i held) := by
  have hrep := hinv.rep k spd hk
  have hidx : spd.fpSpd.lookupHashIdx policy.isIpv6 policy.type.isInbound = some h := by
    rw [← policy.type_isIpv6]; exact hfast
  obtain ⟨table, htable, hbuckets⟩ := hrep.table _ _ h hidx
  obtain ⟨e, he, -, -, -⟩ := acquireMaskType_spec s.im.fpMaskTypes (ipsecFpGetPolicyMask sas policy)
  rcases hacq : acquireMaskType s.im.fpMaskTypes (ipsecFpGetPolicyMask sas policy) with ⟨maskTypes, m⟩
  rw [hacq] at he
  set p : IpsecPolicy := { policy with fpMaskTypeId := m } with hp
  set i := (s.im.policies.alloc p).2 with hi
  have hpi : (s.im.policies.alloc p).1.get? i = some p := by rw [get?_alloc, if_pos rfl]
  have hlive : ∀ {t j}, j ∈ s.live spd.id t →
    (s.im.policies.alloc p).1.get? j = s.im.policies.get? j ∧ j ≠ i :=
    fun hj => get?_alloc_of_isSome (hinv.live_isSome hk hj)
  have hheld : ∀ {j}, j ∈ held → (s.im.policies.alloc p).1.get? j = s.im.policies.get? j ∧ j ≠ i :=
    fun hj => get?_alloc_of_isSome (hinv.held_isSome hj)
  -- the place in the bucket
  have hbucket : ∀ j ∈ (table (policyKey sas policy)).getD [], ((s.im.policies.alloc p).1.get? j).isSome := by
    intro j hj
    cases hids : table (policyKey sas policy) with
    | none => rw [hids] at hj; cases hj
    | some ids =>
      rw [hids] at hj
      obtain ⟨t, -, -, hm⟩ := (hbuckets.sound _ ids j hids hj).1
      rw [(hlive hm).1]
      exact hinv.live_isSome hk hm
  obtain ⟨l₁, l₂, hsplit, hpos, hbefore, hhead⟩ := priorityPosition_spec policy.priority hbucket
  have hstep := addToFastPath_eq sas s.im k spd policy
  rw [fpAddPolicy_ok hidx htable hacq he hpos, bind_ok, ← hp, ← hi, hsplit, insertIdx_append] at hstep
  refine ⟨_, i, hstep, ⟨rfl, get?_alloc_index _ _, m, get?_alloc _ _⟩, ?_⟩
  rw [hid]
  refine hinv.update_fast hk hid hfast ?_ ?_ ?_ ?_ ?_ ?_ ?_
  · intro j _ hj
    exact (get?_alloc_of_isSome hj).1
  · intro j hj
    rcases mem_insert.mp hj with rfl | hmem
    · exact ⟨p, hpi, rfl, hid⟩
    · rw [(hlive hmem).1]
      exact hrep.listed _ j hmem
  · refine hbuckets.insert (a := p) ?_ hpi ?_ hsplit ?_ hhead ?_
    · rintro ⟨t, -, -, hmem⟩
      exact (hlive hmem).2 rfl
    · rintro j ⟨t, -, -, hmem⟩
      exact (hlive hmem).1
    · intro j hj b hb
      exact le_of_lt (hbefore j hj b hb)
    · intro j
      rw [← policy.type_isIpv6]
      exact filed_insert
  · have hm : maskOf (s.im.policies.alloc p).1 i = m := maskOf_eq hpi
    rw [← hm]
    refine (hrep.maskIds policy.type (by rw [hfast]; rfl)).add (fun hmem => (hlive hmem).2 rfl) fun j hj => ?_
    exact maskOf_congr (hlive hj).1
  · exact hinv.masks.add (p := p) (fun hmem => (hheld hmem).2 rfl) (fun j hj => (hheld hj).1) hacq he hpi rfl
  · intro j _ hj
    rw [mem_insert, or_iff_right (get?_alloc_of_isSome hj).2]
  · refine Finset.insert_subset_insert i fun j hj => ?_
    rw [hinv.fast k spd hk _ j hj, hfast]
    rfl

/-- Deleting a policy from a fast path. -/
theorem delFromFastPath_spec :
    delFromFastPath sas s.im k spd policy =
        .ok (s.im, { error := some .notFound, saLocks := lockSa policy.saIndex ++ unlockSa policy.saIndex }) ∨
      ∃ im' i vp, delFromFastPath sas s.im k spd policy =
          .ok (im', { saLocks := lockSa policy.saIndex ++ unlockSa policy.saIndex ++ unlockSa vp.saIndex }) ∧
        i ∈ s.live policy.id policy.type ∧ s.im.policies.get? i = some vp ∧
        ipsecPolicyIsEqual vp policy = true ∧ Deleted s.im im' i ∧
        SpdInv sas (s.withLive im' policy ((s.live policy.id policy.type).erase i)) (held.erase i) := by
  have hrep := hinv.rep k spd hk
  have hidx : spd.fpSpd.lookupHashIdx policy.isIpv6 policy.type.isInbound = some h := by
    rw [← policy.type_isIpv6]; exact hfast
  obtain ⟨table, htable, hbuckets⟩ := hrep.table _ _ h hidx
  have hstep := delFromFastPath_eq sas s.im k spd policy
  rw [fpDelPolicy_eq hidx htable] at hstep
  cases hids : table (policyKey sas policy) with
  | none =>
    rw [hids] at hstep
    exact .inl hstep
  | some ids =>
    have hsound := hbuckets.sound (policyKey sas policy) ids
    have hin : ∀ i ∈ ids, (s.im.policies.get? i).isSome := by
      intro i hi
      obtain ⟨-, p, hp, -⟩ := hsound i hids hi
      rw [hp]; rfl
    obtain ⟨r, hr⟩ := findEqualPolicy_returns policy hin
    have hfound := findEqualPolicy_found hr
    rw [hids] at hstep
    dsimp only at hstep
    rw [hr, bind_ok] at hstep
    rcases r with _ | ⟨n, i, vp⟩
    · exact .inl hstep
    · obtain ⟨l₁, l₂, rfl, rfl, hvp, heq, -⟩ := hfound
      -- the policy found is live, and of the type of the request
      have htype : vp.type = policy.type := type_eq_of_isEqual heq
      have hmem : i ∈ s.live spd.id policy.type := by
        obtain ⟨⟨t, -, -, hmem⟩, -⟩ := hsound i hids (by simp)
        obtain ⟨q, hq, hqt, -⟩ := hrep.listed t i hmem
        rw [hvp] at hq
        cases hq
        rw [← htype, hqt]
        exact hmem
      have hheld : i ∈ held := (hinv.fast k spd hk _ i hmem).mpr (by rw [hfast]; rfl)
      have hput (j : ℕ) := s.im.policies.get?_put_ne (i := i) (j := j)
      have herase : ∀ j ∈ held.erase i, (s.im.policies.put i).get? j = s.im.policies.get? j :=
        fun j hj => hput j (Finset.ne_of_mem_erase hj)
      obtain ⟨maskTypes', hrel, hmasks⟩ := hinv.masks.del hheld hvp herase
      dsimp only at hstep
      rw [hrel, bind_ok, bind_ok] at hstep
      rw [eraseIdx_append_cons] at hstep
      refine .inr ⟨_, i, vp, hstep, by rw [hid]; exact hmem, hvp, heq, ⟨rfl, get?_put hvp⟩, ?_⟩
      rw [hid]
      refine hinv.update_fast hk hid hfast ?_ ?_ ?_ ?_ hmasks ?_ ?_
      · rintro j hj -
        exact hput j (by rintro rfl; exact hj hmem)
      · intro j hj
        obtain ⟨hne, hj⟩ := mem_erase.mp hj
        rw [hput j hne]
        exact hrep.listed _ j hj
      · refine hbuckets.remove hids (fun j _ hne => hput j hne) fun j => ?_
        rw [← policy.type_isIpv6]
        exact filed_erase fun t ht => hrep.type_unique ht hmem
      · rw [← maskOf_eq hvp]
        exact (hrep.maskIds policy.type (by rw [hfast]; rfl)).del hmem
          fun j hj => maskOf_congr (hput j (Finset.ne_of_mem_erase hj))
      · rintro j hj -
        rw [mem_erase, and_iff_right]
        rintro rfl
        exact hj hmem
      · refine Finset.erase_subset_erase i fun j hj => ?_
        rw [hinv.fast k spd hk _ j hj, hfast]
        rfl

end

/-! ### The vectors -/

section
variable (hslow : spd.tableOf policy.type = none)
include hslow

/-- The policies of one type change in a vector. -/
theorem SpdInv.update_slow
    {policies' : Pool IpsecPolicy} {ids : List ℕ} {live' : Finset ℕ}
    (hpol : ∀ i, i ∉ s.live spd.id policy.type → (s.im.policies.get? i).isSome →
      policies'.get? i = s.im.policies.get? i)
    (hlisted : ∀ i ∈ live', ∃ p, policies'.get? i = some p ∧ p.type = policy.type ∧ p.id = spd.id)
    (hnodup : ids.Nodup) (hmem : ∀ i, i ∈ ids ↔ i ∈ live')
    (hdesc : Descending policies'.get? IpsecPolicy.prio ids) (hheld : ∀ i ∈ live', i ∉ held) :
    SpdInv sas (s.withLive ({ s.im with policies := policies' }.setSpd k
      { spd with policies := Function.update spd.policies policy.type ids }) policy live') held := by
  have hnew : SpdRep sas policies' s.im.lookupHashes
      { spd with policies := Function.update spd.policies policy.type ids }
      (Function.update (s.live spd.id) policy.type live') := by
    refine (hinv.rep k spd hk).update rfl rfl (fun t ht => ⟨rfl, update_of_ne ht _ _⟩) hpol
      (fun _ _ _ _ _ => rfl) hlisted ?_ ?_ fun _ => ?_
    · simp [hslow]
    · simp [hslow]
    · simpa using ⟨hnodup, hmem, hdesc⟩
  unfold withLive
  rw [hid]
  refine hinv.update hk rfl rfl rfl rfl rfl hpol (fun _ _ _ => rfl) hnew ?_ (fun _ _ _ => .rfl) fun i hi => ?_
  · refine hinv.masks.congr fun i hi => hpol i ?_ (hinv.held_isSome hi)
    intro hmem
    have hfast := (hinv.fast k spd hk _ i hmem).mp hi
    rw [hslow] at hfast
    cases hfast
  · rw [hslow]
    exact iff_of_false (hheld i hi) (by simp)

/-- Adding a policy to a vector. -/
theorem addToVector_spec :
    ∃ im' i, addToVector s.im k spd policy =
        .ok (im', { statIndex := some i, saLocks := lockSa policy.saIndex }) ∧
      Added s.im im' policy i ∧
      SpdInv sas (s.withLive im' policy (insert i (s.live policy.id policy.type))) held := by
  have hrep := hinv.rep k spd hk
  obtain ⟨hnodup, hmem, hdesc⟩ := hrep.vector policy.type hslow
  set i := (s.im.policies.alloc policy).2 with hi
  have hpi : (s.im.policies.alloc policy).1.get? i = some policy := by rw [get?_alloc, if_pos rfl]
  have hlive : ∀ {j}, j ∈ spd.policies policy.type →
      (s.im.policies.alloc policy).1.get? j = s.im.policies.get? j ∧ j ≠ i :=
    fun hj => get?_alloc_of_isSome (hinv.live_isSome hk ((hmem _).mp hj))
  have hsome : ∀ j ∈ spd.policies policy.type, ((s.im.policies.alloc policy).1.get? j).isSome := by
    intro j hj
    rw [(hlive hj).1]
    exact hinv.live_isSome hk ((hmem j).mp hj)
  obtain ⟨l₁, l₂, hsplit, hpos, hbefore, hhead⟩ := priorityPosition_spec policy.priority hsome
  have hstep : addToVector s.im k spd policy = .ok
      ({ s.im with policies := (s.im.policies.alloc policy).1 }.setSpd k
        { spd with policies := update spd.policies policy.type (l₁ ++ i :: l₂) },
        { statIndex := some i, saLocks := lockSa policy.saIndex }) := by
    simp only [addToVector, hpos, bind_ok]
    rw [hsplit, insertIdx_append]
    rfl
  refine ⟨_, i, hstep, ⟨rfl, get?_alloc_index _ _, policy.fpMaskTypeId, get?_alloc _ _⟩, ?_⟩
  have hperm : (l₁ ++ i :: l₂).Perm (i :: spd.policies policy.type) := by
    rw [hsplit]
    exact perm_middle
  rw [hid]
  refine hinv.update_slow hk hid hslow ?_ ?_ ?_ ?_ ?_ ?_
  · intro j _ hj
    exact (get?_alloc_of_isSome hj).1
  · intro j hj
    rcases mem_insert.mp hj with rfl | hin
    · exact ⟨policy, hpi, rfl, hid⟩
    · rw [(hlive ((hmem j).mpr hin)).1]
      exact hrep.listed _ j hin
  · exact hperm.nodup_iff.mpr (nodup_cons.mpr ⟨fun hin => (hlive hin).2 rfl, hnodup⟩)
  · intro j
    rw [hperm.mem_iff, mem_cons, mem_insert, hmem]
  · rw [hsplit] at hdesc hsome hlive
    refine (hdesc.congr fun j hj => (hlive hj).1).insert hsome hpi ?_ hhead
    intro j hj b hb
    exact le_of_lt (hbefore j hj b hb)
  · intro j hj hin
    rcases mem_insert.mp hj with rfl | hmem'
    · exact (get?_alloc_of_isSome (hinv.held_isSome hin)).2 rfl
    · have hfast := (hinv.fast k spd hk _ j hmem').mp hin
      rw [hslow] at hfast
      cases hfast

/-- Deleting a policy from a vector. -/
theorem delFromVector_spec :
    delFromVector s.im k spd policy = .ok (s.im, {}) ∨
      ∃ im' i vp, delFromVector s.im k spd policy = .ok (im', { saLocks := unlockSa vp.saIndex }) ∧
        i ∈ s.live policy.id policy.type ∧ s.im.policies.get? i = some vp ∧
        ipsecPolicyIsEqual vp policy = true ∧ Deleted s.im im' i ∧
        SpdInv sas (s.withLive im' policy ((s.live policy.id policy.type).erase i)) held := by
  have hrep := hinv.rep k spd hk
  obtain ⟨hnodup, hmem, hdesc⟩ := hrep.vector policy.type hslow
  obtain ⟨r, hr⟩ := findEqualPolicy_returns policy fun i hi => hinv.live_isSome hk ((hmem i).mp hi)
  have hfound := findEqualPolicy_found hr
  have hstep := delFromVector_eq s.im k spd policy
  rw [hr, bind_ok] at hstep
  rcases r with _ | ⟨n, i, vp⟩
  · exact .inl hstep
  · obtain ⟨l₁, l₂, hsplit, rfl, hvp, heq, -⟩ := hfound
    have hi : i ∈ s.live spd.id policy.type := (hmem i).mp (by rw [hsplit]; simp)
    have hput (j : ℕ) := s.im.policies.get?_put_ne (i := i) (j := j)
    dsimp only at hstep
    rw [hsplit, eraseIdx_append_cons] at hstep
    refine .inr ⟨_, i, vp, hstep, by rw [hid]; exact hi, hvp, heq, ⟨rfl, get?_put hvp⟩, ?_⟩
    rw [hsplit] at hnodup hmem hdesc
    rw [nodup_middle, nodup_cons] at hnodup
    have hne : ∀ j ∈ l₁ ++ l₂, j ≠ i := by rintro j hj rfl; exact hnodup.1 hj
    rw [hid]
    refine hinv.update_slow hk hid hslow ?_ ?_ hnodup.2 ?_ ?_ ?_
    · rintro j hj -
      exact hput j (by rintro rfl; exact hj hi)
    · intro j hj
      obtain ⟨hji, hj⟩ := mem_erase.mp hj
      rw [hput j hji]
      exact hrep.listed _ j hj
    · intro j
      rw [mem_erase, ← hmem j, perm_middle.mem_iff, mem_cons]
      constructor
      · intro hj
        exact ⟨hne j hj, .inr hj⟩
      · rintro ⟨hji, hj⟩
        exact hj.resolve_left hji
    · have hsub : (l₁ ++ l₂).Sublist (l₁ ++ i :: l₂) := (sublist_cons_self i l₂).append_left l₁
      exact (hdesc.sublist hsub).congr fun j hj => hput j (hne j hj)
    · intro j hj hin
      have hfast := (hinv.fast k spd hk _ j (Finset.mem_of_mem_erase hj)).mp hin
      rw [hslow] at hfast
      cases hfast

end

end

/-! ### `ipsec_add_del_policy` -/

/-- An SPD has a hash table exactly where the fast path is on. -/
theorem SpdInv.fpEnabled (hinv : SpdInv sas s held) (hk : s.im.spds.get? k = some spd) (t : PolicyType) :
    ipsecIsFpEnabled s.im spd t = (spd.tableOf t).isSome := by
  unfold ipsecIsFpEnabled
  cases htable : spd.tableOf t with
  | none =>
    rw [IpsecSpd.tableOf] at htable
    rw [htable, isSome_none, Bool.and_false]
  | some h =>
    have hon := hinv.enabled k spd hk t.isIpv6 t.isInbound (by
      rw [IpsecSpd.tableOf] at htable
      rw [htable]; rfl)
    rw [IpsecSpd.tableOf] at htable
    rw [hon, htable]; rfl

/-- What the operation can do to the policies and to the locks of the SAs: nothing, with a lock that is taken
    given back, and no error only for a deletion without fast path; or a policy is added; or a live policy is
    deleted. The SA that is locked and unlocked again is the one the request names. -/
inductive PolicyOutcome (sas : SaTable) (s : SpdHistory) (policy : IpsecPolicy) :
    Bool → IpsecMain → SpdReply → Prop
  | unchanged {isAdd : Bool} (error : Option SpdError) (sa : Option ℕ)
      (hsa : ∀ a ∈ sa, sas.find policy.saId = some a)
      (hfail : error = none → isAdd = false ∧
        ∀ spd, s.im.spd? policy.id = some spd → spd.tableOf policy.type = none) :
      PolicyOutcome sas s policy isAdd s.im { error := error, saLocks := lockSa sa ++ unlockSa sa }
  | added {im' : IpsecMain} {sa : Option ℕ} {i : ℕ} (hspd : (s.im.spdIndexBySpdId policy.id).isSome)
      (hsa : policySaIndex sas policy = some sa) (hadd : Added s.im im' { policy with saIndex := sa } i) :
      PolicyOutcome sas s policy true im' { statIndex := some i, saLocks := lockSa sa }
  | deleted {im' : IpsecMain} {sa : Option ℕ} {i : ℕ} {vp : IpsecPolicy}
      (hspd : (s.im.spdIndexBySpdId policy.id).isSome) (hsa : ∀ a ∈ sa, sas.find policy.saId = some a)
      (hmem : i ∈ s.live policy.id policy.type) (hvp : s.im.policies.get? i = some vp)
      (heq : ipsecPolicyIsEqual vp policy = true) (hdel : Deleted s.im im' i) :
      PolicyOutcome sas s policy false im' { saLocks := lockSa sa ++ unlockSa sa ++ unlockSa vp.saIndex }

variable {reply : SpdReply}

/-- An operation on a policy leaves the SPDs where they are. -/
theorem PolicyOutcome.index {isAdd : Bool} {im' : IpsecMain}
    (h : PolicyOutcome sas s policy isAdd im' reply) :
    im'.spdIndexBySpdId = s.im.spdIndexBySpdId := by
  cases h with
  | unchanged => rfl
  | added _ _ hadd => exact hadd.index
  | deleted _ _ _ _ _ hdel => exact hdel.index

/-- A lock is taken on the SA with the id that the policy names. -/
theorem policySaIndex_find {sa : Option ℕ} (h : policySaIndex sas policy = some sa) :
    ∀ a ∈ sa, sas.find policy.saId = some a := by
  rintro a rfl
  rw [policySaIndex] at h
  split at h
  · simpa using h
  · cases h

/-- Live policies are in the pool. -/
def LiveInPool (s : SpdHistory) (policy : IpsecPolicy) : Prop :=
  ∀ i ∈ s.live policy.id policy.type, (s.im.policies.get? i).isSome

/-- What is in the pool stays live, with the policy that was added. -/
theorem mem_liveAfter {live : Finset ℕ} {im : IpsecMain} {i : ℕ}
    (hsome : (im.policies.get? i).isSome) :
    i ∈ liveAfter live im reply ↔ i ∈ live ∨ reply.statIndex = some i := by
  unfold liveAfter
  rw [Finset.mem_filter, Finset.mem_union, mem_toFinset, and_iff_left hsome, or_comm]
  rfl

theorem liveAfter_unchanged (hlive : LiveInPool s policy) (hstat : reply.statIndex = none) :
    liveAfter (s.live policy.id policy.type) s.im reply = s.live policy.id policy.type := by
  unfold liveAfter
  rw [hstat, toFinset_none, Finset.empty_union]
  exact Finset.filter_true_of_mem hlive

theorem liveAfter_added (hlive : LiveInPool s policy) {im' : IpsecMain} {p : IpsecPolicy} {i : ℕ}
    (hadd : Added s.im im' p i) (hstat : reply.statIndex = some i) :
    liveAfter (s.live policy.id policy.type) im' reply = insert i (s.live policy.id policy.type) := by
  obtain ⟨m, hget⟩ := hadd.get
  unfold liveAfter
  rw [hstat, toFinset_some, Finset.singleton_union]
  refine Finset.filter_true_of_mem fun j hj => ?_
  rw [hget]
  split
  · rfl
  · next hne => exact hlive j ((mem_insert.mp hj).resolve_left hne)

theorem liveAfter_deleted (hlive : LiveInPool s policy) {im' : IpsecMain} {i : ℕ}
    (hdel : Deleted s.im im' i) (hstat : reply.statIndex = none) :
    liveAfter (s.live policy.id policy.type) im' reply = (s.live policy.id policy.type).erase i := by
  unfold liveAfter
  rw [hstat, toFinset_none, Finset.empty_union]
  ext j
  rw [Finset.mem_filter, mem_erase, hdel.get]
  constructor
  · rintro ⟨hmem, hsome⟩
    refine ⟨?_, hmem⟩
    rintro rfl
    simp at hsome
  · rintro ⟨hne, hmem⟩
    rw [if_neg hne]
    exact ⟨hmem, hlive j hmem⟩

/-- The state after an operation on a policy. -/
def SpdHistory.afterPolicy (s : SpdHistory) (policy : IpsecPolicy) (im : IpsecMain) (reply : SpdReply) :
    SpdHistory :=
  s.withLive im policy (liveAfter (s.live policy.id policy.type) im reply)

/-- An operation on a policy changes the live policies of its own SPD and type only. -/
theorem SpdHistory.live_withLive_of_ne (s : SpdHistory) {im : IpsecMain} {policy : IpsecPolicy} {live : Finset ℕ}
    {id : BitVec 32} {t : PolicyType} (hne : ¬ (id = policy.id ∧ t = policy.type)) :
    (s.withLive im policy live).live id t = s.live id t := by
  unfold withLive
  dsimp only
  by_cases hid : id = policy.id
  · subst hid
    rw [update_self, update_of_ne fun ht => hne ⟨rfl, ht⟩]
  · rw [update_of_ne hid]

/-- An operation that changes nothing. -/
theorem SpdInv.unchanged (hinv : SpdInv sas s held) (hstat : reply.statIndex = none) :
    SpdInv sas (s.afterPolicy policy s.im reply) held := by
  -- where there is no such SPD nothing is said of its live policies
  have hsame : ∀ k spd, s.im.spds.get? k = some spd →
      (s.afterPolicy policy s.im reply).live spd.id = s.live spd.id := by
    intro k spd hk
    unfold afterPolicy withLive
    dsimp only
    by_cases hid : spd.id = policy.id
    · have hlive : LiveInPool s policy := fun i hi => hinv.live_isSome hk (by rw [hid]; exact hi)
      rw [liveAfter_unchanged hlive hstat, hid, update_self, update_eq_self]
    · rw [update_of_ne hid]
  refine ⟨hinv.indexed, ?_, hinv.enabled, hinv.owner, hinv.masks, ?_⟩
  · intro k spd hk
    rw [hsame k spd hk]
    exact hinv.rep k spd hk
  · intro k spd hk t i hi
    rw [hsame k spd hk] at hi
    exact hinv.fast k spd hk t i hi

section
variable (hspd : s.im.spdIndexBySpdId policy.id = some k) (hk : s.im.spds.get? k = some spd)
include hspd hk

theorem ipsecAddDelPolicy_add :
    ipsecAddDelPolicy sas s.im policy true =
      match policySaIndex sas policy with
      | none => .ok (s.im, { error := some .syscallError1 })
      | some sa =>
        if ipsecIsFpEnabled s.im spd policy.type then
          addToFastPath sas s.im k spd { policy with saIndex := sa }
        else addToVector s.im k spd { policy with saIndex := sa } := by
  simp only [ipsecAddDelPolicy, hspd, hk, deref_some, bind_ok, if_true]
  rfl

theorem ipsecAddDelPolicy_del :
    ipsecAddDelPolicy sas s.im policy false =
      if ipsecIsFpEnabled s.im spd policy.type then
        match policySaIndex sas policy with
        | none => .ok (s.im, { error := some .syscallError1 })
        | some sa => delFromFastPath sas s.im k spd { policy with saIndex := sa }
      else delFromVector s.im k spd policy := by
  simp only [ipsecAddDelPolicy, hspd, hk, deref_some, bind_ok, Bool.false_eq_true, if_false]
  rfl

end

/-- The operation returns and keeps the invariant, with no new holder of a mask but the policy it adds. -/
def PolicyStepOk (sas : SaTable) (s : SpdHistory) (held : Finset ℕ) (policy : IpsecPolicy) (isAdd : Bool) : Prop :=
  ∃ im' reply held', ipsecAddDelPolicy sas s.im policy isAdd = .ok (im', reply) ∧
    PolicyOutcome sas s policy isAdd im' reply ∧ SpdInv sas (s.afterPolicy policy im' reply) held' ∧
    ∀ j ∈ held', j ∈ held ∨ reply.statIndex = some j

section
variable {isAdd : Bool} {held' : Finset ℕ} {im' : IpsecMain} {sa : Option ℕ} {i : ℕ} {vp : IpsecPolicy}

theorem PolicyStepOk.unchanged (hinv : SpdInv sas s held) (error : Option SpdError) (sa : Option ℕ)
    (hsa : ∀ a ∈ sa, sas.find policy.saId = some a)
    (hfail : error = none → isAdd = false ∧
      ∀ spd, s.im.spd? policy.id = some spd → spd.tableOf policy.type = none)
    (hstep : ipsecAddDelPolicy sas s.im policy isAdd =
      .ok (s.im, { error := error, saLocks := lockSa sa ++ unlockSa sa })) :
    PolicyStepOk sas s held policy isAdd :=
  ⟨_, _, held, hstep, .unchanged error sa hsa hfail, hinv.unchanged rfl, fun _ hj => .inl hj⟩

section
variable (hlive : LiveInPool s policy) (hspd : (s.im.spdIndexBySpdId policy.id).isSome)
include hlive hspd

theorem PolicyStepOk.added
    (hsa : policySaIndex sas policy = some sa)
    (hstep : ipsecAddDelPolicy sas s.im policy true =
      .ok (im', { statIndex := some i, saLocks := lockSa sa }))
    (hadd : Added s.im im' { policy with saIndex := sa } i)
    (hinv' : SpdInv sas (s.withLive im' policy (insert i (s.live policy.id policy.type))) held')
    (hheld : held' ⊆ insert i held) : PolicyStepOk sas s held policy true := by
  refine ⟨im', _, held', hstep, .added hspd hsa hadd, ?_, ?_⟩
  · unfold afterPolicy
    rw [liveAfter_added hlive hadd rfl]
    exact hinv'
  · intro j hj
    rcases mem_insert.mp (hheld hj) with rfl | hmem
    · exact .inr rfl
    · exact .inl hmem

theorem PolicyStepOk.deleted
    (hsa : ∀ a ∈ sa, sas.find policy.saId = some a)
    (hstep : ipsecAddDelPolicy sas s.im policy false =
      .ok (im', { saLocks := lockSa sa ++ unlockSa sa ++ unlockSa vp.saIndex }))
    (hmem : i ∈ s.live policy.id policy.type) (hvp : s.im.policies.get? i = some vp)
    (heq : ipsecPolicyIsEqual vp policy = true) (hdel : Deleted s.im im' i)
    (hinv' : SpdInv sas (s.withLive im' policy ((s.live policy.id policy.type).erase i)) held')
    (hheld : held' ⊆ held) : PolicyStepOk sas s held policy false := by
  refine ⟨im', _, held', hstep, .deleted hspd hsa hmem hvp heq hdel, ?_, fun j hj => .inl (hheld hj)⟩
  unfold afterPolicy
  rw [liveAfter_deleted hlive hdel rfl]
  exact hinv'

end

end

section
variable (hinv : SpdInv sas s held) (hspd : s.im.spdIndexBySpdId policy.id = some k)
variable (hk : s.im.spds.get? k = some spd) (hid : policy.id = spd.id)
include hinv hspd hk hid

theorem addPolicy_stepOk : PolicyStepOk sas s held policy true := by
  have hlive : LiveInPool s policy := fun i hi => hinv.live_isSome hk (by rw [← hid]; exact hi)
  have hstep : ipsecAddDelPolicy sas s.im policy true = _ := ipsecAddDelPolicy_add hspd hk
  cases hsa : policySaIndex sas policy with
  | none =>
    rw [hsa] at hstep
    exact .unchanged hinv (some .syscallError1) none (by simp) (by simp) hstep
  | some sa =>
    rw [hsa] at hstep
    dsimp only at hstep
    rw [hinv.fpEnabled hk policy.type] at hstep
    set policy' : IpsecPolicy := { policy with saIndex := sa }
    cases htable : spd.tableOf policy.type with
    | some h =>
      rw [htable, isSome_some, if_pos rfl] at hstep
      obtain ⟨im', i, hadd, hadded, hinv'⟩ :=
        (addToFastPath_spec hinv hk hid htable : ∃ im' i, addToFastPath sas s.im k spd policy' = _ ∧ _)
      exact .added hlive (by rw [hspd]; rfl) hsa (hstep.trans hadd) hadded hinv' (Finset.Subset.refl _)
    | none =>
      rw [htable, isSome_none, if_neg Bool.false_ne_true] at hstep
      obtain ⟨im', i, hadd, hadded, hinv'⟩ :=
        (addToVector_spec hinv hk hid htable : ∃ im' i, addToVector s.im k spd policy' = _ ∧ _)
      exact .added hlive (by rw [hspd]; rfl) hsa (hstep.trans hadd) hadded hinv' (Finset.subset_insert _ _)

theorem delPolicy_stepOk : PolicyStepOk sas s held policy false := by
  have hlive : LiveInPool s policy := fun i hi => hinv.live_isSome hk (by rw [← hid]; exact hi)
  have hstep : ipsecAddDelPolicy sas s.im policy false = _ := ipsecAddDelPolicy_del hspd hk
  rw [hinv.fpEnabled hk policy.type] at hstep
  cases htable : spd.tableOf policy.type with
  | some h =>
    rw [htable, isSome_some, if_pos rfl] at hstep
    cases hsa : policySaIndex sas policy with
    | none =>
      rw [hsa] at hstep
      exact .unchanged hinv (some .syscallError1) none (by simp) (by simp) hstep
    | some sa =>
      rw [hsa] at hstep
      set policy' : IpsecPolicy := { policy with saIndex := sa }
      rcases (delFromFastPath_spec hinv hk hid htable : delFromFastPath sas s.im k spd policy' = _ ∨ _) with
        hdel | ⟨im', i, vp, hdel, hmem, hvp, heq, hdeleted, hinv'⟩
      · exact .unchanged hinv (some .notFound) sa (policySaIndex_find hsa) (by simp) (hstep.trans hdel)
      · exact .deleted hlive (by rw [hspd]; rfl) (policySaIndex_find hsa) (hstep.trans hdel) hmem hvp heq
          hdeleted hinv' (Finset.erase_subset _ _)
  | none =>
    rw [htable, isSome_none, if_neg Bool.false_ne_true] at hstep
    rcases delFromVector_spec hinv hk hid htable with
      hdel | ⟨im', i, vp, hdel, hmem, hvp, heq, hdeleted, hinv'⟩
    · refine .unchanged hinv none none (by simp) (fun _ => ⟨rfl, fun spd' hspd' => ?_⟩) (hstep.trans hdel)
      rw [IpsecMain.spd?, hspd, bind_some, hk] at hspd'
      cases hspd'
      exact htable
    · have hstep' : ipsecAddDelPolicy sas s.im policy false =
          .ok (im', { saLocks := lockSa none ++ unlockSa none ++ unlockSa vp.saIndex }) := hstep.trans hdel
      exact .deleted hlive (by rw [hspd]; rfl) (by simp) hstep' hmem hvp heq hdeleted hinv'
        (Finset.Subset.refl _)

end

/-- `ipsec_add_del_policy` returns and keeps the invariant. -/
theorem ipsecAddDelPolicy_spec (hinv : SpdInv sas s held) (policy : IpsecPolicy) (isAdd : Bool) :
    PolicyStepOk sas s held policy isAdd := by
  cases hspd : s.im.spdIndexBySpdId policy.id with
  | none =>
    refine .unchanged hinv (some .syscallError1) none (by simp) (by simp) ?_
    unfold ipsecAddDelPolicy
    rw [hspd]
    rfl
  | some k =>
    obtain ⟨spd, hk, hid⟩ := hinv.indexed.live policy.id k hspd
    cases isAdd with
    | true => exact addPolicy_stepOk hinv hspd hk hid.symm
    | false => exact delPolicy_stepOk hinv hspd hk hid.symm

end

end Vpp.Ipsec
