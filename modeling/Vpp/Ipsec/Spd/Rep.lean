import Vpp.Schemes.Buckets
import Vpp.Ipsec.Spd.Masks

/-! What the SPDs hold: the representation of a live set of policies.

    `SpdRep` says how one SPD represents its live policies: for each type a vector by descending priority, or
    a hash table that files every policy under its key, with the masks of the type listed and counted.
    `SpdInv` adds what the SPDs share: the pool of policies, the pools of hash tables, of which no two SPDs
    own the same one, and the pool of masks with its reference counts. -/

namespace Vpp.Ipsec
open Vpp.Schemes Vpp.Vppinfra Function List Pool IpsecPolicy

/-- The priority as a signed number. -/
def IpsecPolicy.prio (p : IpsecPolicy) : ℤ := p.priority.toInt

/-! ### The loops over a vector of policies -/

section
variable {policies : Pool IpsecPolicy} {ids : List ℕ} {i : ℕ}

theorem forall_live_cons {P : IpsecPolicy → Prop} {p : IpsecPolicy} (hp : policies.get? i = some p)
    (h : P p) (hids : ∀ j ∈ ids, ∀ q, policies.get? j = some q → P q) :
    ∀ j ∈ i :: ids, ∀ q, policies.get? j = some q → P q := by
  refine forall_mem_cons.mpr ⟨fun q hq => ?_, hids⟩
  rw [hp] at hq
  cases hq
  exact h

theorem priorityPosition_spec (priority : BitVec 32) (hlive : ∀ i ∈ ids, (policies.get? i).isSome) :
    ∃ l₁ l₂, ids = l₁ ++ l₂ ∧ priorityPosition policies priority ids = .ok l₁.length ∧
      (∀ j ∈ l₁, ∀ b, policies.get? j = some b → priority.toInt < b.prio) ∧
      ∀ j ∈ l₂.head?, ∀ b, policies.get? j = some b → b.prio ≤ priority.toInt := by
  induction ids with
  | nil => exact ⟨[], [], rfl, rfl, by simp, by simp⟩
  | cons i is ih =>
    obtain ⟨p, hp⟩ := Option.isSome_iff_exists.mp (hlive i mem_cons_self)
    by_cases hle : p.priority.sle priority = true
    · refine ⟨[], i :: is, rfl, ?_, by simp, ?_⟩
      · rw [priorityPosition, hp, deref_some, bind_ok, if_pos hle]; rfl
      · rintro j ⟨⟩ b hb
        rw [hp] at hb
        cases hb
        exact BitVec.sle_iff_toInt_le.mp hle
    · obtain ⟨l₁, l₂, hsplit, hpos, hbefore, hhead⟩ := ih fun j hj => hlive j (mem_cons_of_mem i hj)
      have hlt : priority.toInt < p.prio := not_le.mp fun h => hle (BitVec.sle_iff_toInt_le.mpr h)
      refine ⟨i :: l₁, l₂, by rw [hsplit]; rfl, ?_, forall_live_cons hp hlt hbefore, hhead⟩
      rw [priorityPosition, hp, deref_some, bind_ok, if_neg hle, hpos, bind_ok]; rfl

/-- The first equal policy of the vector, if there is one. -/
def FoundEqual (policies : Pool IpsecPolicy) (policy : IpsecPolicy) (ids : List ℕ) :
    Option (ℕ × ℕ × IpsecPolicy) → Prop
  | none => ∀ i ∈ ids, ∀ p, policies.get? i = some p → ipsecPolicyIsEqual p policy = false
  | some (n, i, vp) => ∃ l₁ l₂, ids = l₁ ++ i :: l₂ ∧ n = l₁.length ∧ policies.get? i = some vp ∧
      ipsecPolicyIsEqual vp policy = true ∧
      ∀ j ∈ l₁, ∀ p, policies.get? j = some p → ipsecPolicyIsEqual p policy = false

theorem findEqualPolicy_returns (policy : IpsecPolicy) (hlive : ∀ i ∈ ids, (policies.get? i).isSome) :
    ∃ r, findEqualPolicy policies policy ids = .ok r := by
  induction ids with
  | nil => exact ⟨none, rfl⟩
  | cons i is ih =>
    obtain ⟨p, hp⟩ := Option.isSome_iff_exists.mp (hlive i mem_cons_self)
    obtain ⟨r, hr⟩ := ih fun j hj => hlive j (mem_cons_of_mem i hj)
    rw [findEqualPolicy, hp, deref_some, bind_ok, hr]
    split <;> exact ⟨_, rfl⟩

theorem findEqualPolicy_found {policy : IpsecPolicy} {r : Option (ℕ × ℕ × IpsecPolicy)}
    (h : findEqualPolicy policies policy ids = .ok r) : FoundEqual policies policy ids r := by
  induction ids generalizing r with
  | nil => cases h; simp [FoundEqual]
  | cons i is ih =>
    obtain ⟨p, hp, h⟩ := bind_eq_ok.mp h
    have hp := deref_eq_ok.mp hp
    split at h
    · next heq =>
      cases h
      exact ⟨[], is, rfl, rfl, hp, heq, by simp⟩
    · next hne =>
      obtain ⟨found, hfound, h⟩ := bind_eq_ok.mp h
      cases h
      have hmiss : ipsecPolicyIsEqual p policy = false := Bool.eq_false_iff.mpr hne
      rcases found with _ | ⟨n, k, vp⟩
      · exact forall_live_cons hp hmiss (ih hfound)
      · obtain ⟨l₁, l₂, hsplit, hn, hget, hk, hbefore⟩ := ih hfound
        exact ⟨i :: l₁, l₂, by rw [hsplit]; rfl, by rw [hn]; rfl, hget, hk, forall_live_cons hp hmiss hbefore⟩

end

theorem insertIdx_append {α : Type} (l₁ l₂ : List α) (a : α) :
    (l₁ ++ l₂).insertIdx l₁.length a = l₁ ++ a :: l₂ := by
  induction l₁ with
  | nil => rfl
  | cons b l ih => exact congrArg (b :: ·) ih

theorem eraseIdx_append_cons {α : Type} (l₁ l₂ : List α) (a : α) :
    (l₁ ++ a :: l₂).eraseIdx l₁.length = l₁ ++ l₂ := by
  induction l₁ with
  | nil => rfl
  | cons b l ih => exact congrArg (b :: ·) ih

/-! ### One SPD -/

/-- The hash table of a policy type, where the SPD has one. -/
def IpsecSpd.tableOf (spd : IpsecSpd) (t : PolicyType) : Option ℕ :=
  spd.fpSpd.lookupHashIdx t.isIpv6 t.isInbound

/-- The live policies that share a hash table: those of one address family and direction. -/
def Filed (live : PolicyType → Finset ℕ) (isIpv6 inbound : Bool) (i : ℕ) : Prop :=
  ∃ t, t.isIpv6 = isIpv6 ∧ t.isInbound = inbound ∧ i ∈ live t

variable {t : PolicyType}

section
variable {live : PolicyType → Finset ℕ} {j : ℕ}

theorem filed_update (live) (t : PolicyType) (ids : Finset ℕ) (j) :
    Filed (update live t ids) t.isIpv6 t.isInbound j ↔
    j ∈ ids ∨ ∃ t' ≠ t, t'.isIpv6 = t.isIpv6 ∧ t'.isInbound = t.isInbound ∧ j ∈ live t' := by
  constructor
  · rintro ⟨t', hv, hd, hmem⟩
    by_cases ht : t' = t
    · subst ht
      exact .inl (by rwa [update_self] at hmem)
    · exact .inr ⟨t', ht, hv, hd, by rwa [update_of_ne ht] at hmem⟩
  · rintro (hmem | ⟨t', ht, hv, hd, hmem⟩)
    · exact ⟨t, rfl, rfl, by rwa [update_self]⟩
    · exact ⟨t', hv, hd, by rwa [update_of_ne ht]⟩

theorem filed_insert : Filed (update live t (insert i (live t))) t.isIpv6 t.isInbound j ↔
    j = i ∨ Filed live t.isIpv6 t.isInbound j := by
  have hold := filed_update live t (live t) j
  rw [update_eq_self] at hold
  rw [filed_update, hold, Finset.mem_insert, or_assoc]

theorem filed_erase (hunique : ∀ t', i ∈ live t' → t' = t) :
    Filed (update live t ((live t).erase i)) t.isIpv6 t.isInbound j ↔
    Filed live t.isIpv6 t.isInbound j ∧ j ≠ i := by
  have hold := filed_update live t (live t) j
  rw [update_eq_self] at hold
  rw [filed_update, hold, Finset.mem_erase, and_comm, or_and_right]
  refine or_congr_right (iff_self_and.mpr ?_)
  rintro ⟨t', ht, -, -, hmem⟩ rfl
  exact ht (hunique t' hmem)

end

/-- The SPD represents the live policies. -/
structure SpdRep (sas : SaTable) (policies : Pool IpsecPolicy) (tables : Bool → Pool Bihash) (spd : IpsecSpd)
    (live : PolicyType → Finset ℕ) : Prop where
  listed : ∀ t, ∀ i ∈ live t, ∃ p, policies.get? i = some p ∧ p.type = t ∧ p.id = spd.id
  table : ∀ v d h, spd.fpSpd.lookupHashIdx v d = some h → ∃ table, (tables v).get? h = some table ∧
    Bucketed policies.get? (policyKey sas) prio table (Filed live v d)
  maskIds : ∀ t, (spd.tableOf t).isSome → MaskIdsRep (spd.fpSpd.fpMaskIds t) (live t) (maskOf policies)
  vector : ∀ t, spd.tableOf t = none → (spd.policies t).Nodup ∧ (∀ i, i ∈ spd.policies t ↔ i ∈ live t) ∧
    Descending policies.get? prio (spd.policies t)

section
variable {sas : SaTable} {policies policies' : Pool IpsecPolicy} {tables tables' : Bool → Pool Bihash}
variable {spd : IpsecSpd} {live : PolicyType → Finset ℕ}

/-- The tables of one family after one of them was written. -/
theorem get?_setTable {v v' : Bool} {h h' : ℕ} {table₀ table : Bihash} (hget : (tables v).get? h = some table₀)
    (hne : ¬ (v' = v ∧ h' = h)) : (update tables v ((tables v).set h table) v').get? h' = (tables v').get? h' := by
  by_cases hv : v' = v
  · subst hv
    rw [update_self, get?_set hget, if_neg fun heq => hne ⟨rfl, heq⟩]
  · rw [update_of_ne hv]

section

variable (h : SpdRep sas policies tables spd live)
include h

/-- What belongs to others may change. -/
theorem SpdRep.frame (hpol : ∀ t, ∀ i ∈ live t, policies'.get? i = policies.get? i)
    (htab : ∀ v d hi, spd.fpSpd.lookupHashIdx v d = some hi → (tables' v).get? hi = (tables v).get? hi) :
    SpdRep sas policies' tables' spd live := by
  constructor
  · intro t i hi
    rw [hpol t i hi]
    exact h.listed t i hi
  · intro v d hi hidx
    obtain ⟨table, hget, hb⟩ := h.table v d hi hidx
    refine ⟨table, by rw [htab v d hi hidx]; exact hget, hb.congr ?_ fun _ => Iff.rfl⟩
    rintro i ⟨t, -, -, hmem⟩
    exact hpol t i hmem
  · intro t ht
    exact (h.maskIds t ht).congr fun i hi => maskOf_congr (hpol t i hi)
  · intro t ht
    obtain ⟨hnodup, hmem, hdesc⟩ := h.vector t ht
    exact ⟨hnodup, hmem, hdesc.congr fun i hi => hpol t i ((hmem i).mp hi)⟩

/-- A live policy has one type. -/
theorem SpdRep.type_unique {t' : PolicyType} (hi : i ∈ live t) (hi' : i ∈ live t') : t = t' := by
  obtain ⟨p, hp, hpt, -⟩ := h.listed t i hi
  obtain ⟨q, hq, hqt, -⟩ := h.listed t' i hi'
  rw [hp] at hq
  cases hq
  rw [← hpt, hqt]

/-- One type of policies changes, with its hash table or its vector. -/
theorem SpdRep.update {spd' : IpsecSpd} {live' : Finset ℕ} (hid : spd'.id = spd.id)
    (hidx : spd'.fpSpd.lookupHashIdx = spd.fpSpd.lookupHashIdx)
    (hrest : ∀ t', t' ≠ t → spd'.fpSpd.fpMaskIds t' = spd.fpSpd.fpMaskIds t' ∧
      spd'.policies t' = spd.policies t')
    (hpol : ∀ i, i ∉ live t → (policies.get? i).isSome → policies'.get? i = policies.get? i)
    (htables : ∀ v d hi, ¬ (v = t.isIpv6 ∧ d = t.isInbound) → spd.fpSpd.lookupHashIdx v d = some hi →
      (tables' v).get? hi = (tables v).get? hi)
    (hlisted : ∀ i ∈ live', ∃ p, policies'.get? i = some p ∧ p.type = t ∧ p.id = spd.id)
    (htable : ∀ hi, spd.tableOf t = some hi → ∃ table, (tables' t.isIpv6).get? hi = some table ∧
      Bucketed policies'.get? (policyKey sas) prio table (Filed (update live t live') t.isIpv6 t.isInbound))
    (hids : (spd.tableOf t).isSome → MaskIdsRep (spd'.fpSpd.fpMaskIds t) live' (maskOf policies'))
    (hvector : spd.tableOf t = none → (spd'.policies t).Nodup ∧ (∀ i, i ∈ spd'.policies t ↔ i ∈ live') ∧
      Descending policies'.get? prio (spd'.policies t)) :
    SpdRep sas policies' tables' spd' (update live t live') := by
  have htab : spd'.tableOf = spd.tableOf := by
    funext t'
    rw [IpsecSpd.tableOf, IpsecSpd.tableOf, hidx]
  have hpol : ∀ t', t' ≠ t → ∀ i ∈ live t', policies'.get? i = policies.get? i := by
    intro t' htt i hi
    obtain ⟨p, hp, -⟩ := h.listed t' i hi
    exact hpol i (fun hmem => htt (h.type_unique hi hmem)) (by rw [hp]; rfl)
  constructor
  · intro t' i hmem
    rw [hid]
    by_cases htt : t' = t
    · subst htt
      rw [update_self] at hmem
      exact hlisted i hmem
    · rw [update_of_ne htt] at hmem
      rw [hpol t' htt i hmem]
      exact h.listed t' i hmem
  · intro v d hi hidx'
    rw [hidx] at hidx'
    by_cases hvd : v = t.isIpv6 ∧ d = t.isInbound
    · obtain ⟨rfl, rfl⟩ := hvd
      exact htable hi hidx'
    · have hne : ∀ t', t'.isIpv6 = v → t'.isInbound = d → t' ≠ t := by
        rintro t' rfl rfl rfl
        exact hvd ⟨rfl, rfl⟩
      obtain ⟨table, hget, hb⟩ := h.table v d hi hidx'
      refine ⟨table, (htables v d hi hvd hidx').trans hget, hb.congr ?_ ?_⟩
      · rintro i ⟨t', ht'v, ht'd, hmem⟩
        exact hpol t' (hne t' ht'v ht'd) i hmem
      · intro i
        refine exists_congr fun t' => and_congr_right fun ht'v => and_congr_right fun ht'd => ?_
        rw [update_of_ne (hne t' ht'v ht'd)]
  · intro t' ht'
    rw [htab] at ht'
    by_cases htt : t' = t
    · subst htt
      rw [update_self]
      exact hids ht'
    · rw [update_of_ne htt, (hrest t' htt).1]
      exact (h.maskIds t' ht').congr fun i hmem => maskOf_congr (hpol t' htt i hmem)
  · intro t' ht'
    rw [htab] at ht'
    by_cases htt : t' = t
    · subst htt
      rw [update_self]
      exact hvector ht'
    · obtain ⟨hnodup, hmem, hdesc⟩ := h.vector t' ht'
      rw [update_of_ne htt, (hrest t' htt).2]
      exact ⟨hnodup, hmem, hdesc.congr fun i hi => hpol t' htt i ((hmem i).mp hi)⟩

end

end

/-! ### All SPDs -/

/-- Every SPD represents its live policies, the hash tables have one owner each, and the masks are counted for
    the policies `held`, among them the live policies of the fast paths. -/
structure SpdInv (sas : SaTable) (s : SpdHistory) (held : Finset ℕ) : Prop where
  indexed : Indexed IpsecSpd.id s.im.spds s.im.spdIndexBySpdId
  rep : ∀ k spd, s.im.spds.get? k = some spd →
    SpdRep sas s.im.policies s.im.lookupHashes spd (s.live spd.id)
  enabled : ∀ k spd, s.im.spds.get? k = some spd → ∀ v d, (spd.fpSpd.lookupHashIdx v d).isSome →
    s.im.fpIsEnabled v d = true
  owner : ∀ k k' spd spd', s.im.spds.get? k = some spd → s.im.spds.get? k' = some spd' → ∀ v d d' h,
    spd.fpSpd.lookupHashIdx v d = some h → spd'.fpSpd.lookupHashIdx v d' = some h → k = k' ∧ d = d'
  masks : MaskTypesRep sas s.im.policies s.im.fpMaskTypes held
  fast : ∀ k spd, s.im.spds.get? k = some spd → ∀ t, ∀ i ∈ s.live spd.id t,
    (i ∈ held ↔ (spd.tableOf t).isSome)

section
variable {sas : SaTable} {s : SpdHistory} {held held' : Finset ℕ} {k : ℕ} {spd spd' : IpsecSpd}

theorem SpdInv.live_isSome (h : SpdInv sas s held) (hk : s.im.spds.get? k = some spd)
    (hi : i ∈ s.live spd.id t) : (s.im.policies.get? i).isSome := by
  obtain ⟨p, hp, -⟩ := (h.rep k spd hk).listed t i hi
  rw [hp]; rfl

theorem SpdInv.held_isSome (h : SpdInv sas s held) (hi : i ∈ held) :
    (s.im.policies.get? i).isSome := by
  obtain ⟨p, -, hp, -⟩ := h.masks.mask i hi
  rw [hp]; rfl

/-- One type of policies of one SPD changes, and what the SPD owns with it. -/
theorem SpdInv.update (h : SpdInv sas s held) (hk : s.im.spds.get? k = some spd) {im' : IpsecMain}
    {live' : Finset ℕ} (hspds : im'.spds = s.im.spds.set k spd') (hid : spd'.id = spd.id)
    (hidx : spd'.fpSpd.lookupHashIdx = spd.fpSpd.lookupHashIdx) (hby : im'.spdIndexBySpdId = s.im.spdIndexBySpdId)
    (hen : im'.fpIsEnabled = s.im.fpIsEnabled)
    (hpol : ∀ i, i ∉ s.live spd.id t → (s.im.policies.get? i).isSome →
      im'.policies.get? i = s.im.policies.get? i)
    (htab : ∀ v hi, (∀ d, spd.fpSpd.lookupHashIdx v d ≠ some hi) →
      (im'.lookupHashes v).get? hi = (s.im.lookupHashes v).get? hi)
    (hrep : SpdRep sas im'.policies im'.lookupHashes spd' (update (s.live spd.id) t live'))
    (hmasks : MaskTypesRep sas im'.policies im'.fpMaskTypes held')
    (hheld : ∀ i, i ∉ s.live spd.id t → (s.im.policies.get? i).isSome → (i ∈ held' ↔ i ∈ held))
    (hfast : ∀ i ∈ live', (i ∈ held' ↔ (spd.tableOf t).isSome)) :
    SpdInv sas ⟨im', update s.live spd.id (update (s.live spd.id) t live')⟩ held' := by
  have hget : ∀ j, im'.spds.get? j = if j = k then some spd' else s.im.spds.get? j := by
    intro j
    rw [hspds]
    exact get?_set hk spd' j
  -- the other SPDs have other ids, so their policies are none of the changed ones
  have hother : ∀ j spd₂, j ≠ k → s.im.spds.get? j = some spd₂ → spd₂.id ≠ spd.id := by
    intro j spd₂ hjk hj heq
    have hfound := h.indexed.found j spd₂ hj
    rw [heq, h.indexed.found k spd hk] at hfound
    exact hjk (Option.some.inj hfound).symm
  have hforeign : ∀ j spd₂, j ≠ k → s.im.spds.get? j = some spd₂ → ∀ t', ∀ i ∈ s.live spd₂.id t',
      i ∉ s.live spd.id t ∧ (s.im.policies.get? i).isSome := by
    intro j spd₂ hjk hj t' i hi
    obtain ⟨p, hp, -, hpid⟩ := (h.rep j spd₂ hj).listed t' i hi
    refine ⟨fun hi' => ?_, by rw [hp]; rfl⟩
    obtain ⟨q, hq, -, hqid⟩ := (h.rep k spd hk).listed t i hi'
    rw [hp] at hq
    cases hq
    exact hother j spd₂ hjk hj (hpid.symm.trans hqid)
  constructor
  · dsimp only
    rw [hspds, hby]
    exact h.indexed.modify hk hid
  · intro j spd₂ hj
    dsimp only at hj ⊢
    rw [hget] at hj
    split at hj
    · cases hj
      rw [hid, update_self]
      exact hrep
    · next hjk =>
      rw [update_of_ne (hother j spd₂ hjk hj)]
      refine (h.rep j spd₂ hj).frame ?_ ?_
      · intro t' i hi
        obtain ⟨hnot, hin⟩ := hforeign j spd₂ hjk hj t' i hi
        exact hpol i hnot hin
      · intro v d hi hidx₂
        refine htab v hi fun d' hd' => hjk ?_
        exact (h.owner j k spd₂ spd hj hk v d d' hi hidx₂ hd').1
  · intro j spd₂ hj v d hd
    rw [hen]
    rw [hget] at hj
    split at hj
    · cases hj
      rw [hidx] at hd
      exact h.enabled k spd hk v d hd
    · exact h.enabled j spd₂ hj v d hd
  · -- the indices of the hash tables are what they were
    have hback : ∀ j spd₂, im'.spds.get? j = some spd₂ →
        ∃ spd₀, s.im.spds.get? j = some spd₀ ∧ spd₂.fpSpd.lookupHashIdx = spd₀.fpSpd.lookupHashIdx := by
      intro j spd₂ hj
      rw [hget] at hj
      split at hj
      · next hjk => cases hj; exact ⟨spd, by rw [hjk]; exact hk, hidx⟩
      · exact ⟨spd₂, hj, rfl⟩
    intro j j' a b ha hb v d d' hi hd hd'
    obtain ⟨a₀, ha₀, hea⟩ := hback j a ha
    obtain ⟨b₀, hb₀, heb⟩ := hback j' b hb
    rw [hea] at hd
    rw [heb] at hd'
    exact h.owner j j' a₀ b₀ ha₀ hb₀ v d d' hi hd hd'
  · exact hmasks
  · intro j spd₂ hj t' i hi
    dsimp only at hj hi
    rw [hget] at hj
    split at hj
    · cases hj
      rw [hid, update_self] at hi
      rw [IpsecSpd.tableOf, hidx]
      by_cases htt : t' = t
      · subst htt
        rw [update_self] at hi
        exact hfast i hi
      · rw [update_of_ne htt] at hi
        rw [hheld i (fun hmem => htt ((h.rep k spd hk).type_unique hi hmem)) (h.live_isSome hk hi)]
        exact h.fast k spd hk t' i hi
    · next hjk =>
      rw [update_of_ne (hother j spd₂ hjk hj)] at hi
      obtain ⟨hnot, hin⟩ := hforeign j spd₂ hjk hj t' i hi
      rw [hheld i hnot hin]
      exact h.fast j spd₂ hj t' i hi

end

/-! ### SAs that no policy uses may change -/

/-- Both tables say the same of an SA. -/
structure SaTable.AgreeAt (sas sas' : SaTable) (a : ℕ) : Prop where
  spi : sas'.spi a = sas.spi a
  isTunnel : sas'.isTunnel a = sas.isTunnel a
  tunnelDst : sas'.tunnelDst a = sas.tunnelDst a
  tunnelSrc : sas'.tunnelSrc a = sas.tunnelSrc a

section
variable {sas sas' : SaTable} {p : IpsecPolicy}

theorem policyMask_congr (h : ∀ a ∈ p.saIndex, SaTable.AgreeAt sas sas' a) :
    ipsecFpGetPolicyMask sas' p = ipsecFpGetPolicyMask sas p := by
  have htunnel : byTunnel sas' p = byTunnel sas p := by
    cases hsa : p.saIndex with
    | none => simp [byTunnel, hsa]
    | some a => simp [byTunnel, hsa, (h a hsa).isTunnel]
  simp only [ipsecFpGetPolicyMask, ipsecFpIp4GetPolicyMask, ipsecFpIp6GetPolicyMask, htunnel]

theorem policyKey_congr (h : ∀ a ∈ p.saIndex, SaTable.AgreeAt sas sas' a) : policyKey sas' p = policyKey sas p := by
  have htuple : ipsecFpGetPolicy5tuple sas' p p.type.isInbound =
      ipsecFpGetPolicy5tuple sas p p.type.isInbound := by
    cases hsa : p.saIndex with
    | none => cases htype : p.type <;> simp only [ipsecFpGetPolicy5tuple, hsa, htype]
    | some a =>
      obtain ⟨hspi, htunnel, hdst, hsrc⟩ := h a hsa
      cases htype : p.type <;> simp only [ipsecFpGetPolicy5tuple, hsa, htype, hspi, htunnel, hdst, hsrc]
  rw [policyKey, policyKey, htuple, policyMask_congr h]

variable {s : SpdHistory} {held : Finset ℕ}

/-- The SPDs depend on the SAs of the policies in the pool only. -/
theorem SpdInv.frame_sas (hinv : SpdInv sas s held)
    (h : ∀ i p, s.im.policies.get? i = some p → ∀ a ∈ p.saIndex, SaTable.AgreeAt sas sas' a) :
    SpdInv sas' s held := by
  refine ⟨hinv.indexed, ?_, hinv.enabled, hinv.owner, ?_, hinv.fast⟩
  · intro k spd hk
    obtain ⟨hlisted, htable, hmasks, hvector⟩ := hinv.rep k spd hk
    refine ⟨hlisted, ?_, hmasks, hvector⟩
    intro v d hidx hh
    obtain ⟨table, hget, hbuckets⟩ := htable v d hidx hh
    exact ⟨table, hget, hbuckets.key_congr fun i p _ hp => policyKey_congr (h i p hp)⟩
  · obtain ⟨hcount, hmask, hdistinct⟩ := hinv.masks
    refine ⟨hcount, ?_, hdistinct⟩
    intro i hi
    obtain ⟨p, e, hp, he, heq⟩ := hmask i hi
    exact ⟨p, e, hp, he, heq.trans (policyMask_congr (h i p hp)).symm⟩

end

end Vpp.Ipsec
