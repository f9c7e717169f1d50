import Vpp.Schemes.RefCount
import Vpp.Ipsec.Spd.Main

/-! The masks in use, counted twice.

    Each SPD lists for a policy type the masks of its policies (`MaskIdsRep`), and all masks lie in one pool
    (`MaskTypesRep`). Both count users: the list the live policies of its SPD and type, the pool all holders.
    The policies of a deleted SPD are never given back, so the holders are more than the live policies. -/

namespace Vpp.Ipsec
open Vpp.Schemes Vpp.Vppinfra List Pool

theorem modify_append {α : Type} (l₁ l₂ : List α) (a : α) (f : α → α) :
    (l₁ ++ a :: l₂).modify l₁.length f = l₁ ++ f a :: l₂ := by
  induction l₁ with
  | nil => rfl
  | cons b l ih => exact congrArg (b :: ·) ih

/-! ### The masks a type uses -/

/-- The mask type recorded in a policy of the pool. -/
def maskOf (policies : Pool IpsecPolicy) (i : ℕ) : ℕ := ((policies.get? i).map (·.fpMaskTypeId)).getD 0

/-- `fp_mask_ids` lists the masks of the live policies, each once, with the number of policies that use it. -/
structure MaskIdsRep (ids : List IpsecFpMaskId) (live : Finset ℕ) (mask : ℕ → ℕ) : Prop where
  nodup : (ids.map (·.maskTypeIdx)).Nodup
  count : ∀ e ∈ ids, e.refcount = uses live mask e.maskTypeIdx ∧ 0 < e.refcount
  listed : ∀ i ∈ live, ∃ e ∈ ids, e.maskTypeIdx = mask i

section
variable {ids : List IpsecFpMaskId} {live : Finset ℕ} {mask mask' : ℕ → ℕ} {i : ℕ}

theorem MaskIdsRep.congr (h : MaskIdsRep ids live mask) (hmask : ∀ i ∈ live, mask' i = mask i) :
    MaskIdsRep ids live mask' := by
  refine ⟨h.nodup, ?_, ?_⟩
  · intro e he
    rw [uses_congr hmask]
    exact h.count e he
  · intro i hi
    rw [hmask i hi]
    exact h.listed i hi

theorem MaskIdsRep.perm {ids' : List IpsecFpMaskId} (h : MaskIdsRep ids live mask) (hp : ids'.Perm ids) :
    MaskIdsRep ids' live mask := by
  refine ⟨(hp.map _).nodup_iff.mpr h.nodup, fun e he => h.count e (hp.mem_iff.mp he), ?_⟩
  intro i hi
  obtain ⟨e, he, heq⟩ := h.listed i hi
  exact ⟨e, hp.mem_iff.mpr he, heq⟩

/-- The entry of a mask, or that there is none. -/
theorem findIdx?_maskTypeIdx (ids : List IpsecFpMaskId) (m : ℕ) :
    (ids.findIdx? (·.maskTypeIdx == m) = none ∧ ∀ e ∈ ids, e.maskTypeIdx ≠ m) ∨
      ∃ l₁ e l₂, ids = l₁ ++ e :: l₂ ∧ e.maskTypeIdx = m ∧
        ids.findIdx? (·.maskTypeIdx == m) = some l₁.length := by
  cases hfind : ids.findIdx? (·.maskTypeIdx == m) with
  | none =>
    refine .inl ⟨rfl, fun e he heq => ?_⟩
    have hnone := findIdx?_eq_none_iff.mp hfind e he
    simp [heq] at hnone
  | some k =>
    obtain ⟨hk, hm, -⟩ := findIdx?_eq_some_iff_getElem.mp hfind
    refine .inr ⟨ids.take k, ids[k], ids.drop (k + 1), ?_, by simpa using hm, ?_⟩
    · rw [← drop_eq_getElem_cons hk, take_append_drop]
    · rw [length_take, min_eq_left (le_of_lt hk)]

/-- The first user of a mask. -/
theorem MaskIdsRep.cons_new (h : MaskIdsRep ids live mask) (hi : i ∉ live)
    (hmask : ∀ j ∈ live, mask' j = mask j) (hnew : ∀ e ∈ ids, e.maskTypeIdx ≠ mask' i) :
    MaskIdsRep (⟨mask' i, 1⟩ :: ids) (insert i live) mask' := by
  have hzero : uses live mask (mask' i) = 0 := by
    by_contra hpos
    obtain ⟨j, hj, hji⟩ := uses_pos_iff.mp (Nat.pos_of_ne_zero hpos)
    obtain ⟨e, he, heq⟩ := h.listed j hj
    exact hnew e he (heq.trans hji)
  refine ⟨?_, ?_, ?_⟩
  · rw [map_cons, nodup_cons]
    refine ⟨fun hmem => ?_, h.nodup⟩
    obtain ⟨e, he, heq⟩ := mem_map.mp hmem
    exact hnew e he heq
  · intro e he
    rw [uses_insert hi hmask]
    rcases mem_cons.mp he with rfl | hmem
    · rw [if_pos rfl, hzero]
      exact ⟨rfl, one_pos⟩
    · rw [if_neg (Ne.symm (hnew e hmem))]
      exact h.count e hmem
  · intro j hj
    rcases Finset.mem_insert.mp hj with rfl | hmem
    · exact ⟨⟨mask' j, 1⟩, mem_cons_self, rfl⟩
    · obtain ⟨e, he, heq⟩ := h.listed j hmem
      exact ⟨e, mem_cons_of_mem _ he, by rw [hmask j hmem, heq]⟩

section
variable {e : IpsecFpMaskId}

section

variable (h : MaskIdsRep (e :: ids) live mask)
include h

/-- The masks in front and behind an entry are other ones. -/
theorem MaskIdsRep.ne_of_cons :
    ∀ e' ∈ ids, e'.maskTypeIdx ≠ e.maskTypeIdx := by
  intro e' he' heq
  have hnodup := h.nodup
  rw [map_cons, nodup_cons] at hnodup
  exact hnodup.1 (mem_map.mpr ⟨e', he', heq⟩)

/-- Another user of a mask that is listed. -/
theorem MaskIdsRep.cons_add (hi : i ∉ live) (hmask : ∀ j ∈ live, mask' j = mask j)
    (he : e.maskTypeIdx = mask' i) :
    MaskIdsRep ({ e with refcount := e.refcount + 1 } :: ids) (insert i live) mask' := by
  refine ⟨h.nodup, ?_, ?_⟩
  · intro e' he'
    rw [uses_insert hi hmask]
    rcases mem_cons.mp he' with rfl | hmem
    · obtain ⟨hcount, -⟩ := h.count e mem_cons_self
      rw [if_pos he.symm, ← hcount]
      exact ⟨rfl, Nat.succ_pos _⟩
    · rw [if_neg fun heq => h.ne_of_cons e' hmem (by rw [← heq, he])]
      exact h.count e' (mem_cons_of_mem e hmem)
  · intro j hj
    rcases Finset.mem_insert.mp hj with rfl | hmem
    · exact ⟨_, mem_cons_self, he⟩
    · obtain ⟨e', he', heq⟩ := h.listed j hmem
      rw [hmask j hmem]
      rcases mem_cons.mp he' with rfl | htail
      · exact ⟨_, mem_cons_self, heq⟩
      · exact ⟨e', mem_cons_of_mem _ htail, heq⟩

/-- One user less of a mask, of several or of one. -/
theorem MaskIdsRep.cons_del (hi : i ∈ live) (hmask : ∀ j ∈ live.erase i, mask' j = mask j)
    (he : e.maskTypeIdx = mask i) :
    MaskIdsRep (if e.refcount = 1 then ids else { e with refcount := e.refcount - 1 } :: ids)
      (live.erase i) mask' := by
  obtain ⟨hcount, hpos⟩ := h.count e mem_cons_self
  have htail : ∀ e' ∈ ids, e'.refcount = uses (live.erase i) mask' e'.maskTypeIdx ∧ 0 < e'.refcount := by
    intro e' he'
    rw [uses_erase hi hmask, if_neg fun heq => h.ne_of_cons e' he' (by rw [← heq, he])]
    exact h.count e' (mem_cons_of_mem e he')
  have hleft : uses (live.erase i) mask' e.maskTypeIdx = e.refcount - 1 := by
    rw [uses_erase hi hmask, if_pos he.symm, ← hcount]
  have hnodup := h.nodup
  rw [map_cons, nodup_cons] at hnodup
  split
  · next hone =>
    refine ⟨hnodup.2, htail, ?_⟩
    intro j hj
    obtain ⟨e', he', heq⟩ := h.listed j (Finset.mem_of_mem_erase hj)
    rw [hmask j hj]
    rcases mem_cons.mp he' with rfl | hmem
    · -- nobody is left to use the mask
      have hused := uses_pos_iff.mpr ⟨j, hj, (hmask j hj).trans heq.symm⟩
      omega
    · exact ⟨e', hmem, heq⟩
  · next hone =>
    refine ⟨h.nodup, ?_, ?_⟩
    · intro e' he'
      rcases mem_cons.mp he' with rfl | hmem
      · dsimp only
        rw [hleft]
        omega
      · exact htail e' hmem
    · intro j hj
      obtain ⟨e', he', heq⟩ := h.listed j (Finset.mem_of_mem_erase hj)
      rw [hmask j hj]
      rcases mem_cons.mp he' with rfl | hmem
      · exact ⟨_, mem_cons_self, heq⟩
      · exact ⟨e', mem_cons_of_mem _ hmem, heq⟩

end

end

theorem MaskIdsRep.add (h : MaskIdsRep ids live mask) (hi : i ∉ live) (hmask : ∀ j ∈ live, mask' j = mask j) :
    MaskIdsRep (addMaskId ids (mask' i)) (insert i live) mask' := by
  unfold addMaskId
  rcases findIdx?_maskTypeIdx ids (mask' i) with ⟨hnone, hne⟩ | ⟨l₁, e, l₂, rfl, heq, hfind⟩
  · rw [hnone]
    exact (h.cons_new hi hmask hne).perm (perm_append_singleton _ _)
  · rw [hfind]
    dsimp only
    rw [modify_append]
    exact ((h.perm perm_middle.symm).cons_add hi hmask heq).perm perm_middle

theorem MaskIdsRep.del (h : MaskIdsRep ids live mask) (hi : i ∈ live)
    (hmask : ∀ j ∈ live.erase i, mask' j = mask j) :
    MaskIdsRep (delMaskId ids (mask i)) (live.erase i) mask' := by
  unfold delMaskId
  rcases findIdx?_maskTypeIdx ids (mask i) with ⟨-, hne⟩ | ⟨l₁, e, l₂, rfl, heq, hfind⟩
  · obtain ⟨e, he, heq⟩ := h.listed i hi
    exact absurd heq (hne e he)
  · rw [hfind]
    have hdel := (h.perm perm_middle.symm).cons_del hi hmask heq
    have hget : (l₁ ++ e :: l₂)[l₁.length]? = some e := by simp
    dsimp only
    rw [hget, Option.any_some]
    by_cases hone : e.refcount = 1
    · rw [if_pos hone] at hdel
      rw [if_pos (decide_eq_true hone)]
      exact hdel.perm vecDel1_perm
    · rw [if_neg hone] at hdel
      rw [if_neg (by simpa using hone), modify_append]
      exact hdel.perm perm_middle

theorem MaskIdsRep.nil : MaskIdsRep [] ∅ mask :=
  ⟨nodup_nil, by simp, by simp⟩

end

/-! ### The masks all SPDs share -/

/-- The pool of masks counts for every mask the holders that use it, and has every mask once. -/
structure MaskTypesRep (sas : SaTable) (policies : Pool IpsecPolicy) (maskTypes : Pool IpsecFpMaskTypeEntry)
    (held : Finset ℕ) : Prop where
  count : ∀ m e, maskTypes.get? m = some e → e.refcount = uses held (maskOf policies) m ∧ 0 < e.refcount
  mask : ∀ i ∈ held, ∃ p e, policies.get? i = some p ∧ maskTypes.get? p.fpMaskTypeId = some e ∧
    e.mask = ipsecFpGetPolicyMask sas p
  distinct : ∀ m m' e e', maskTypes.get? m = some e → maskTypes.get? m' = some e' → e.mask = e'.mask → m = m'

section
variable {sas : SaTable} {policies policies' : Pool IpsecPolicy} {maskTypes : Pool IpsecFpMaskTypeEntry}
variable {held : Finset ℕ} {i : ℕ}

theorem maskOf_congr (h : policies'.get? i = policies.get? i) : maskOf policies' i = maskOf policies i := by
  unfold maskOf
  rw [h]

theorem maskOf_eq {p : IpsecPolicy} (h : policies.get? i = some p) : maskOf policies i = p.fpMaskTypeId := by
  rw [maskOf, h]; rfl

/-- Policies that hold no mask may change. -/
theorem MaskTypesRep.congr (h : MaskTypesRep sas policies maskTypes held)
    (hget : ∀ j ∈ held, policies'.get? j = policies.get? j) : MaskTypesRep sas policies' maskTypes held := by
  refine ⟨?_, ?_, h.distinct⟩
  · intro m e he
    rw [uses_congr fun j hj => maskOf_congr (hget j hj)]
    exact h.count m e he
  · intro j hj
    rw [hget j hj]
    exact h.mask j hj

/-- `find_mask_type_index` finds the mask where it is in the pool. -/
theorem findMaskTypeIndex_spec (maskTypes : Pool IpsecFpMaskTypeEntry) (mask : IpsecFp5tuple) :
    match findMaskTypeIndex maskTypes mask with
    | some m => ∃ e, maskTypes.get? m = some e ∧ e.mask = mask
    | none => ∀ m e, maskTypes.get? m = some e → e.mask ≠ mask := by
  unfold findMaskTypeIndex
  cases hfind : maskTypes.toList.find? (fun e => e.2.mask == mask) with
  | none =>
    intro m e he heq
    have hnot := find?_eq_none.mp hfind (m, e) (mem_toList.mpr he)
    simp [heq] at hnot
  | some r =>
    obtain ⟨m, e⟩ := r
    have hmask := find?_some hfind
    exact ⟨e, mem_toList.mp (mem_of_find?_eq_some hfind), by simpa using hmask⟩

/-- The entry a new policy gets: one that is there, or a new one for a mask that no entry has. -/
theorem acquireMaskType_spec (maskTypes : Pool IpsecFpMaskTypeEntry) (mask : IpsecFp5tuple) :
    ∃ e, (acquireMaskType maskTypes mask).1.get? (acquireMaskType maskTypes mask).2 = some e ∧ e.mask = mask ∧
      (∀ m, m ≠ (acquireMaskType maskTypes mask).2 →
        (acquireMaskType maskTypes mask).1.get? m = maskTypes.get? m) ∧
      (maskTypes.get? (acquireMaskType maskTypes mask).2 = some e ∨
        maskTypes.get? (acquireMaskType maskTypes mask).2 = none ∧ e.refcount = 0 ∧
          ∀ m e, maskTypes.get? m = some e → e.mask ≠ mask) := by
  have hspec := findMaskTypeIndex_spec maskTypes mask
  unfold acquireMaskType
  cases hfind : findMaskTypeIndex maskTypes mask with
  | some m =>
    rw [hfind] at hspec
    obtain ⟨e, he, hmask⟩ := hspec
    exact ⟨e, he, hmask, fun _ _ => rfl, .inl he⟩
  | none =>
    rw [hfind] at hspec
    refine ⟨⟨mask, 0⟩, by rw [get?_alloc, if_pos rfl], rfl, ?_, .inr ⟨?_, rfl, hspec⟩⟩
    · intro m hne
      rw [get?_alloc, if_neg hne]
    · exact get?_alloc_index _ _

/-- A new holder. -/
theorem MaskTypesRep.add {p : IpsecPolicy} (h : MaskTypesRep sas policies maskTypes held) (hi : i ∉ held)
    (hget : ∀ j ∈ held, policies'.get? j = policies.get? j) {maskTypes₁ : Pool IpsecFpMaskTypeEntry} {m : ℕ}
    {e : IpsecFpMaskTypeEntry} (hacq : acquireMaskType maskTypes (ipsecFpGetPolicyMask sas p) = (maskTypes₁, m))
    (he : maskTypes₁.get? m = some e) (hp : policies'.get? i = some p) (hm : p.fpMaskTypeId = m) :
    MaskTypesRep sas policies' (maskTypes₁.set m { e with refcount := e.refcount + 1 }) (insert i held) := by
  obtain ⟨e', he', hmask, hother, hold⟩ := acquireMaskType_spec maskTypes (ipsecFpGetPolicyMask sas p)
  rw [hacq] at he' hother hold
  rw [he] at he'
  cases he'
  have hset : ∀ m', (maskTypes₁.set m { e with refcount := e.refcount + 1 }).get? m' =
      if m' = m then some { e with refcount := e.refcount + 1 } else maskTypes.get? m' := by
    intro m'
    rw [get?_set he]
    split
    · rfl
    · next hne => exact hother m' hne
  have hmi : maskOf policies' i = m := (maskOf_eq hp).trans hm
  have hcongr : ∀ j ∈ held, maskOf policies' j = maskOf policies j := fun j hj => maskOf_congr (hget j hj)
  constructor
  · intro m' e' he'
    rw [hset] at he'
    rw [uses_insert hi hcongr, hmi]
    split at he'
    · next heq =>
      cases he'
      subst heq
      rw [if_pos rfl]
      rcases hold with hold | ⟨hnone, hzero, -⟩
      · rw [(h.count m' e hold).1]
        exact ⟨rfl, Nat.succ_pos _⟩
      · -- a new entry has no user yet
        have hunused : uses held (maskOf policies) m' = 0 := by
          by_contra hpos
          obtain ⟨j, hj, hjm⟩ := uses_pos_iff.mp (Nat.pos_of_ne_zero hpos)
          obtain ⟨q, e₀, hq, he₀, -⟩ := h.mask j hj
          rw [maskOf_eq hq] at hjm
          rw [hjm, hnone] at he₀
          cases he₀
        rw [hunused, hzero]
        exact ⟨rfl, one_pos⟩
    · next hne =>
      rw [if_neg (Ne.symm hne)]
      exact h.count m' e' he'
  · intro j hj
    rcases Finset.mem_insert.mp hj with rfl | hmem
    · exact ⟨p, { e with refcount := e.refcount + 1 }, hp, by rw [hset, if_pos hm], hmask⟩
    · obtain ⟨q, e', hq, he', heq⟩ := h.mask j hmem
      rw [hget j hmem]
      by_cases hqm : q.fpMaskTypeId = m
      · rw [hqm] at he'
        rcases hold with hold | ⟨hnone, -, -⟩
        · rw [he'] at hold
          cases hold
          exact ⟨q, { e with refcount := e.refcount + 1 }, hq, by rw [hset, if_pos hqm], heq⟩
        · rw [hnone] at he'
          cases he'
      · exact ⟨q, e', hq, by rw [hset, if_neg hqm]; exact he', heq⟩
  · -- the entry that is counted up keeps its mask
    have hsame : ∀ m' e', maskTypes.get? m' = some e' → e'.mask = e.mask → m' = m := by
      intro m' e' he' heq
      rcases hold with hold | ⟨-, -, hnew⟩
      · exact h.distinct m' m e' e he' hold heq
      · exact absurd (heq.trans hmask) (hnew m' e' he')
    intro m₁ m₂ e₁ e₂ h₁ h₂ heq
    rw [hset] at h₁ h₂
    split at h₁ <;> split at h₂
    · next hm₁ hm₂ => rw [hm₁, hm₂]
    · next hm₁ hm₂ => cases h₁; rw [hm₁]; exact (hsame m₂ e₂ h₂ heq.symm).symm
    · next hm₁ hm₂ => cases h₂; rw [hm₂]; exact hsame m₁ e₁ h₁ heq
    · exact h.distinct m₁ m₂ e₁ e₂ h₁ h₂ heq

/-- A holder leaves, and takes the mask with it where it was the last one. -/
theorem MaskTypesRep.del {p : IpsecPolicy} (h : MaskTypesRep sas policies maskTypes held) (hi : i ∈ held)
    (hp : policies.get? i = some p) (hget : ∀ j ∈ held.erase i, policies'.get? j = policies.get? j) :
    ∃ maskTypes', ipsecFpReleaseMaskType maskTypes p.fpMaskTypeId = .ok maskTypes' ∧
      MaskTypesRep sas policies' maskTypes' (held.erase i) := by
  obtain ⟨p', e, hp', he, hmask⟩ := h.mask i hi
  rw [hp] at hp'
  cases hp'
  obtain ⟨hcount, hpos⟩ := h.count p.fpMaskTypeId e he
  have hcongr : ∀ j ∈ held.erase i, maskOf policies' j = maskOf policies j :=
    fun j hj => maskOf_congr (hget j hj)
  have hleft : uses (held.erase i) (maskOf policies') p.fpMaskTypeId = e.refcount - 1 := by
    rw [uses_erase hi hcongr, if_pos (maskOf_eq hp), ← hcount]
  have hother : ∀ m, m ≠ p.fpMaskTypeId →
      uses (held.erase i) (maskOf policies') m = uses held (maskOf policies) m := by
    intro m hne
    rw [uses_erase hi hcongr, if_neg (by rw [maskOf_eq hp]; exact Ne.symm hne), Nat.sub_zero]
  by_cases hlast : e.refcount - 1 = 0
  · refine ⟨maskTypes.put p.fpMaskTypeId, ?_, ?_⟩
    · rw [ipsecFpReleaseMaskType, he, deref_some, bind_ok, if_pos hlast]; rfl
    · have hput : ∀ m e', (maskTypes.put p.fpMaskTypeId).get? m = some e' →
          m ≠ p.fpMaskTypeId ∧ maskTypes.get? m = some e' := by
        intro m e' he'
        rw [get?_put he] at he'
        split at he'
        · cases he'
        · next hne => exact ⟨hne, he'⟩
      refine ⟨?_, ?_, ?_⟩
      · intro m e' he'
        obtain ⟨hne, he'⟩ := hput m e' he'
        rw [hother m hne]
        exact h.count m e' he'
      · intro j hj
        obtain ⟨q, e', hq, he', heq⟩ := h.mask j (Finset.mem_of_mem_erase hj)
        refine ⟨q, e', by rw [hget j hj]; exact hq, ?_, heq⟩
        have hne : q.fpMaskTypeId ≠ p.fpMaskTypeId := by
          intro hqm
          have hused := uses_pos_iff.mpr ⟨j, hj, ((hcongr j hj).trans (maskOf_eq hq)).trans hqm⟩
          omega
        rw [get?_put he, if_neg hne]
        exact he'
      · intro m₁ m₂ e₁ e₂ h₁ h₂
        exact h.distinct m₁ m₂ e₁ e₂ (hput m₁ e₁ h₁).2 (hput m₂ e₂ h₂).2
  · refine ⟨maskTypes.set p.fpMaskTypeId { e with refcount := e.refcount - 1 }, ?_, ?_⟩
    · rw [ipsecFpReleaseMaskType, he, deref_some, bind_ok, if_neg hlast]; rfl
    · have hset := get?_set he { e with refcount := e.refcount - 1 }
      -- every entry stood in the pool with the same mask
      have hfrom : ∀ m e', (maskTypes.set p.fpMaskTypeId { e with refcount := e.refcount - 1 }).get? m =
          some e' → ∃ e₀, maskTypes.get? m = some e₀ ∧ e₀.mask = e'.mask := by
        intro m e' he'
        rw [hset] at he'
        split at he'
        · next heq => cases he'; exact ⟨e, by rw [heq]; exact he, rfl⟩
        · exact ⟨e', he', rfl⟩
      refine ⟨?_, ?_, ?_⟩
      · intro m e' he'
        rw [hset] at he'
        split at he'
        · next heq =>
          cases he'
          dsimp only
          rw [heq, hleft]
          omega
        · next hne =>
          rw [hother m hne]
          exact h.count m e' he'
      · intro j hj
        obtain ⟨q, e', hq, he', heq⟩ := h.mask j (Finset.mem_of_mem_erase hj)
        rw [hget j hj]
        by_cases hqm : q.fpMaskTypeId = p.fpMaskTypeId
        · rw [hqm, he] at he'
          cases he'
          exact ⟨q, { e with refcount := e.refcount - 1 }, hq, by rw [hset, if_pos hqm], heq⟩
        · exact ⟨q, e', hq, by rw [hset, if_neg hqm]; exact he', heq⟩
      · intro m₁ m₂ e₁ e₂ h₁ h₂ heq
        obtain ⟨f₁, hf₁, hm₁⟩ := hfrom m₁ e₁ h₁
        obtain ⟨f₂, hf₂, hm₂⟩ := hfrom m₂ e₂ h₂
        exact h.distinct m₁ m₂ f₁ f₂ hf₁ hf₂ (by rw [hm₁, heq, hm₂])

theorem MaskTypesRep.empty : MaskTypesRep sas policies empty ∅ :=
  ⟨by simp, by simp, by simp⟩

end

end Vpp.Ipsec
