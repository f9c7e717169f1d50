import Vpp.Ipsec.Spd.Steps

/-! Creating and deleting SPDs, and whole runs.

    A new SPD gets hash tables of its own, as long as there is room for them; a deleted one gives them back.
    With that every operation keeps `SpdInv`, and no run of operations ever follows a dangling index. -/

namespace Vpp.Ipsec
open Vpp.Schemes Vpp.Vppinfra Function SpdHistory Option Pool

/-! ### The hash tables of an SPD -/

section
variable {im₀ : IpsecMain}

/-- Hash tables were added to the pools of `im₀` for one SPD: they are empty, enabled and distinct. -/
structure NewTables (im₀ : IpsecMain) (s : IpsecMain × IpsecSpdFp) : Prop where
  same : ∃ tables, s.1 = { im₀ with lookupHashes := tables }
  maskIds : s.2.fpMaskIds = fun _ => []
  kept : ∀ v h, ((im₀.lookupHashes v).get? h).isSome → (s.1.lookupHashes v).get? h = (im₀.lookupHashes v).get? h
  fresh : ∀ v d h, s.2.lookupHashIdx v d = some h → im₀.fpIsEnabled v d = true ∧
    (im₀.lookupHashes v).get? h = none ∧ (s.1.lookupHashes v).get? h = some fun _ => none
  inj : ∀ v d d' h, s.2.lookupHashIdx v d = some h → s.2.lookupHashIdx v d' = some h → d = d'

theorem NewTables.start : NewTables im₀ (im₀, ⟨fun _ => [], fun _ _ => none⟩) :=
  ⟨⟨im₀.lookupHashes, rfl⟩, rfl, fun _ _ _ => rfl, by simp, by simp⟩

/-- One more table. -/
theorem NewTables.initTable {s : IpsecMain × IpsecSpdFp} (hs : NewTables im₀ s) (table : Bool × Bool) :
    NewTables im₀ (initTable s table) := by
  obtain ⟨v₀, d₀⟩ := table
  unfold Ipsec.initTable
  split
  · next hroom =>
    set pool := (s.1.lookupHashes v₀).alloc (fun _ => none : Bihash) with hpool
    have hindex : (s.1.lookupHashes v₀).get? pool.2 = none := get?_alloc_index _ _
    have hget : ∀ h, pool.1.get? h = if h = pool.2 then some (fun _ => none) else (s.1.lookupHashes v₀).get? h :=
      get?_alloc _ _
    obtain ⟨tables, hsame⟩ := hs.same
    have hen : im₀.fpIsEnabled = s.1.fpIsEnabled := by rw [hsame]
    -- what was in the pools is not at the new index
    have hkeep : ∀ v h, ((s.1.lookupHashes v).get? h).isSome →
        (update s.1.lookupHashes v₀ pool.1 v).get? h = (s.1.lookupHashes v).get? h := by
      intro v h hsome
      by_cases hv : v = v₀
      · subst hv
        rw [update_self, hget, if_neg]
        rintro rfl
        rw [hindex] at hsome
        cases hsome
      · rw [update_of_ne hv]
    constructor
    · exact ⟨update s.1.lookupHashes v₀ pool.1, by rw [hsame]⟩
    · exact hs.maskIds
    · intro v h hsome
      rw [hkeep v h (by rw [hs.kept v h hsome]; exact hsome), hs.kept v h hsome]
    · intro v d h hidx
      dsimp only at hidx ⊢
      split at hidx
      · next heq =>
        cases heq
        cases hidx
        refine ⟨by rw [hen]; exact hroom.1, ?_, by rw [update_self, hget, if_pos rfl]⟩
        by_contra hne
        have hsome := isSome_iff_ne_none.mpr hne
        rw [← hs.kept v₀ pool.2 hsome, hindex] at hsome
        cases hsome
      · obtain ⟨hon, hnone, hempty⟩ := hs.fresh v d h hidx
        exact ⟨hon, hnone, by rw [hkeep v h (by rw [hempty]; rfl), hempty]⟩
    · -- an index that the SPD had before is in use
      have hold : ∀ d, s.2.lookupHashIdx v₀ d ≠ some pool.2 := by
        intro d hd
        obtain ⟨-, -, hempty⟩ := hs.fresh v₀ d pool.2 hd
        rw [hindex] at hempty
        cases hempty
      intro v d d' h hd hd'
      dsimp only at hd hd'
      split at hd <;> split at hd'
      · next h1 h2 => cases h1; cases h2; rfl
      · next h1 h2 => cases h1; cases hd; exact absurd hd' (hold d')
      · next h1 h2 => cases h2; cases hd'; exact absurd hd (hold d)
      · exact hs.inj v d d' h hd hd'
  · exact hs

theorem NewTables.foldl {s : IpsecMain × IpsecSpdFp} (hs : NewTables im₀ s) (tables : List (Bool × Bool)) :
    NewTables im₀ (tables.foldl Ipsec.initTable s) := by
  induction tables generalizing s with
  | nil => exact hs
  | cons t ts ih => exact ih (hs.initTable t)

/-- Freeing the tables of an SPD touches no other table. -/
theorem foldl_freeTable (fp : IpsecSpdFp) (tables : List (Bool × Bool)) (im : IpsecMain) :
    (∃ hashes, tables.foldl (freeTable fp) im = { im with lookupHashes := hashes }) ∧
      ∀ v h, (∀ d, fp.lookupHashIdx v d ≠ some h) →
        ((tables.foldl (freeTable fp) im).lookupHashes v).get? h = (im.lookupHashes v).get? h := by
  induction tables generalizing im with
  | nil => exact ⟨⟨im.lookupHashes, rfl⟩, fun _ _ _ => rfl⟩
  | cons t ts ih =>
    obtain ⟨⟨hashes, hsame⟩, hkeep⟩ := ih (freeTable fp im t)
    have hone : (∃ hashes, freeTable fp im t = { im with lookupHashes := hashes }) ∧
        ∀ v h, (∀ d, fp.lookupHashIdx v d ≠ some h) →
          ((freeTable fp im t).lookupHashes v).get? h = (im.lookupHashes v).get? h := by
      unfold freeTable
      split
      · next h₀ hidx =>
        split
        · refine ⟨⟨_, rfl⟩, fun v h hne => ?_⟩
          dsimp only
          by_cases hv : v = t.1
          · subst hv
            rw [update_self, get?_put_ne]
            rintro rfl
            exact hne t.2 hidx
          · rw [update_of_ne hv]
        · exact ⟨⟨im.lookupHashes, rfl⟩, fun _ _ _ => rfl⟩
      · exact ⟨⟨im.lookupHashes, rfl⟩, fun _ _ _ => rfl⟩
    obtain ⟨⟨hashes₁, hsame₁⟩, hkeep₁⟩ := hone
    rw [List.foldl_cons]
    constructor
    · exact ⟨hashes, by rw [hsame, hsame₁]⟩
    · intro v h hne
      rw [hkeep v h hne, hkeep₁ v h hne]

end

/-! ### `ipsec_add_del_spd` -/

section
variable {sas : SaTable} {s : SpdHistory} {held : Finset ℕ}

/-- The state after an operation on an SPD. -/
def SpdHistory.afterSpd (s : SpdHistory) (spdId : BitVec 32) (im : IpsecMain) : SpdHistory :=
  ⟨im, update s.live spdId fun _ => ∅⟩

/-- An SPD without policies, whose tables are empty. -/
theorem SpdRep.empty {policies : Pool IpsecPolicy} {tables : Bool → Pool Bihash} {spd : IpsecSpd}
    (hmasks : spd.fpSpd.fpMaskIds = fun _ => []) (hpols : spd.policies = fun _ => [])
    (htables : ∀ v d h, spd.fpSpd.lookupHashIdx v d = some h → (tables v).get? h = some fun _ => none) :
    SpdRep sas policies tables spd fun _ => ∅ := by
  constructor
  · simp
  · intro v d h hidx
    refine ⟨_, htables v d h hidx, Bucketed.empty ?_⟩
    rintro i ⟨t, -, -, hmem⟩
    exact absurd hmem (Finset.notMem_empty i)
  · intro t _
    rw [hmasks]
    exact MaskIdsRep.nil
  · intro t _
    rw [hpols]
    exact ⟨List.nodup_nil, by simp, List.Pairwise.nil⟩

/-- Creating an SPD. -/
theorem addSpd_inv (hinv : SpdInv sas s held) {spdId : BitVec 32} (hnew : s.im.spdIndexBySpdId spdId = none)
    {im : IpsecMain} {fp : IpsecSpdFp} (htables : NewTables s.im (im, fp)) :
    SpdInv sas (s.afterSpd spdId { im with
      spds := (im.spds.alloc ⟨spdId, fun _ => [], fp⟩).1
      spdIndexBySpdId := update im.spdIndexBySpdId spdId
        (some (im.spds.alloc ⟨spdId, fun _ => [], fp⟩).2) }) held := by
  obtain ⟨hashes, hsame⟩ := htables.same
  have hkept := htables.kept
  have hfresh := htables.fresh
  have hinj := htables.inj
  subst hsame
  set spd₀ : IpsecSpd := ⟨spdId, fun _ => [], fp⟩ with hspd₀
  have hget : ∀ k, (s.im.spds.alloc spd₀).1.get? k =
      if k = (s.im.spds.alloc spd₀).2 then some spd₀ else s.im.spds.get? k := get?_alloc _ _
  have hother : ∀ k spd, s.im.spds.get? k = some spd → spd.id ≠ spdId := by
    rintro k spd hk rfl
    rw [hinv.indexed.found k spd hk] at hnew
    cases hnew
  -- a table of an older SPD is in its pool, so it is none of the new ones
  have hdisjoint : ∀ k spd, s.im.spds.get? k = some spd → ∀ v d d' h,
      spd.fpSpd.lookupHashIdx v d = some h → fp.lookupHashIdx v d' ≠ some h := by
    intro k spd hk v d d' h hd hd'
    obtain ⟨table, htable, -⟩ := (hinv.rep k spd hk).table v d h hd
    rw [(hfresh v d' h hd').2.1] at htable
    cases htable
  constructor
  · exact hinv.indexed.insert (a := spd₀) hnew
  · intro k spd hk
    unfold afterSpd at hk ⊢
    dsimp only at hk ⊢
    rw [hget] at hk
    split at hk
    · cases hk
      rw [hspd₀, update_self]
      exact SpdRep.empty htables.maskIds rfl fun v d h hidx => (hfresh v d h hidx).2.2
    · rw [update_of_ne (hother k spd hk)]
      refine (hinv.rep k spd hk).frame (fun _ _ _ => rfl) fun v d h hidx => hkept v h ?_
      obtain ⟨table, htable, -⟩ := (hinv.rep k spd hk).table v d h hidx
      rw [htable]; rfl
  · intro k spd hk v d hd
    change (s.im.spds.alloc spd₀).1.get? k = some spd at hk
    rw [hget] at hk
    split at hk
    · cases hk
      obtain ⟨h, hh⟩ := isSome_iff_exists.mp hd
      exact (hfresh v d h hh).1
    · exact hinv.enabled k spd hk v d hd
  · intro k k' a b ha hb v d d' h hd hd'
    change (s.im.spds.alloc spd₀).1.get? k = some a at ha
    change (s.im.spds.alloc spd₀).1.get? k' = some b at hb
    rw [hget] at ha hb
    split at ha <;> split at hb
    · next h1 h2 => cases ha; cases hb; exact ⟨h1.trans h2.symm, hinj v d d' h hd hd'⟩
    · cases ha; exact absurd hd (hdisjoint k' b hb v d' d h hd')
    · cases hb; exact absurd hd' (hdisjoint k a ha v d d' h hd)
    · exact hinv.owner k k' a b ha hb v d d' h hd hd'
  · exact hinv.masks
  · intro k spd hk t i hi
    unfold afterSpd at hk hi
    dsimp only at hk hi
    rw [hget] at hk
    split at hk
    · cases hk
      rw [hspd₀, update_self] at hi
      exact absurd hi (Finset.notMem_empty i)
    · rw [update_of_ne (hother k spd hk)] at hi
      exact hinv.fast k spd hk t i hi

/-- Deleting an SPD. -/
theorem delSpd_inv (hinv : SpdInv sas s held) {spdId : BitVec 32} {k : ℕ} {spd : IpsecSpd}
    (hspd : s.im.spdIndexBySpdId spdId = some k) (hk : s.im.spds.get? k = some spd) {im : IpsecMain}
    (hsame : ∃ hashes, im = { s.im with lookupHashes := hashes })
    (hkept : ∀ v h, (∀ d, spd.fpSpd.lookupHashIdx v d ≠ some h) →
      (im.lookupHashes v).get? h = (s.im.lookupHashes v).get? h) :
    SpdInv sas (s.afterSpd spdId { im with
      spds := im.spds.put k
      spdIndexBySpdId := update im.spdIndexBySpdId spdId none }) held := by
  obtain ⟨hashes, rfl⟩ := hsame
  obtain rfl := hinv.indexed.key_eq hspd hk
  have hleft : ∀ j spd₂, (s.im.spds.put k).get? j = some spd₂ →
      s.im.spds.get? j = some spd₂ ∧ j ≠ k ∧ spd₂.id ≠ spd.id := by
    intro j spd₂ hj
    rw [get?_put hk] at hj
    split at hj
    · cases hj
    · next hjk =>
      refine ⟨hj, hjk, fun heq => hjk ?_⟩
      have hfound := hinv.indexed.found j spd₂ hj
      rw [heq, hspd] at hfound
      exact (some.inj hfound).symm
  constructor
  · exact hinv.indexed.remove hk
  · intro j spd₂ hj
    obtain ⟨hj, hjk, hid⟩ := hleft j spd₂ hj
    unfold afterSpd
    dsimp only
    rw [update_of_ne hid]
    refine (hinv.rep j spd₂ hj).frame (fun _ _ _ => rfl) fun v d h hidx => hkept v h fun d' hd' => hjk ?_
    exact (hinv.owner j k spd₂ spd hj hk v d d' h hidx hd').1
  · intro j spd₂ hj
    exact hinv.enabled j spd₂ (hleft j spd₂ hj).1
  · intro j j' a b ha hb
    exact hinv.owner j j' a b (hleft j a ha).1 (hleft j' b hb).1
  · exact hinv.masks
  · intro j spd₂ hj t i hi
    obtain ⟨hj, -, hid⟩ := hleft j spd₂ hj
    unfold afterSpd at hi
    dsimp only at hi
    rw [update_of_ne hid] at hi
    exact hinv.fast j spd₂ hj t i hi

/-- `ipsec_add_del_spd` returns and keeps the invariant, and the policies stay in their pool. -/
theorem ipsecAddDelSpd_spec (hinv : SpdInv sas s held) (spdId : BitVec 32) (isAdd : Bool) :
    (∃ error, ipsecAddDelSpd s.im spdId isAdd = .ok (s.im, { error := some error })) ∨
      ∃ im', ipsecAddDelSpd s.im spdId isAdd = .ok (im', {}) ∧ im'.policies = s.im.policies ∧
        (isAdd = true → s.im.spdIndexBySpdId spdId = none) ∧
        (∀ id, id ≠ spdId → im'.spdIndexBySpdId id = s.im.spdIndexBySpdId id) ∧
        SpdInv sas (s.afterSpd spdId im') held := by
  cases hspd : s.im.spdIndexBySpdId spdId with
  | none =>
    cases isAdd with
    | false =>
      refine .inl ⟨.noSuchEntry, ?_⟩
      unfold ipsecAddDelSpd
      rw [hspd]
      rfl
    | true =>
      have htables : NewTables s.im _ := NewTables.start.foldl fpTables
      rcases hfold : fpTables.foldl initTable (s.im, ⟨fun _ => [], fun _ _ => none⟩) with ⟨im, fp⟩
      rw [hfold] at htables
      obtain ⟨hashes, hsame⟩ := htables.same
      refine .inr ⟨_, ?_, ?_, fun _ => rfl, ?_, addSpd_inv hinv hspd htables⟩
      · simp only [ipsecAddDelSpd, hspd, hfold]
        rfl
      · dsimp only at hsame ⊢
        rw [hsame]
      · intro id hne
        dsimp only at hsame ⊢
        rw [update_of_ne hne, hsame]
  | some k =>
    obtain ⟨spd, hk, -⟩ := hinv.indexed.live spdId k hspd
    cases isAdd with
    | true =>
      refine .inl ⟨.entryAlreadyExists, ?_⟩
      unfold ipsecAddDelSpd
      rw [hspd]
      rfl
    | false =>
      obtain ⟨hsame, hkept⟩ := foldl_freeTable spd.fpSpd fpTables s.im
      refine .inr ⟨_, ?_, ?_, by simp, ?_, delSpd_inv hinv hspd hk hsame hkept⟩
      · simp only [ipsecAddDelSpd, hspd, hk, deref_some, bind_ok]
        rfl
      · obtain ⟨hashes, hsame⟩ := hsame
        rw [hsame]
      · intro id hne
        obtain ⟨hashes, hsame⟩ := hsame
        dsimp only
        rw [update_of_ne hne, hsame]

/-! ### Runs -/

theorem spdInv_init (sas : SaTable) (fpIsEnabled : Bool → Bool → Bool) :
    SpdInv sas (SpdHistory.init fpIsEnabled) ∅ := by
  unfold init
  exact ⟨Indexed.empty, by simp, by simp, by simp, MaskTypesRep.empty, by simp⟩

/-- No operation faults, and each keeps the invariant. -/
theorem SpdHistory.step_inv (hinv : SpdInv sas s held) (op : SpdOp) :
    ∃ s' held', s.step sas op = .ok s' ∧ SpdInv sas s' held' := by
  cases op with
  | addDelSpd spdId isAdd =>
    rcases ipsecAddDelSpd_spec hinv spdId isAdd with ⟨error, hstep⟩ | ⟨im', hstep, -, -, -, hinv'⟩
    · refine ⟨s, held, ?_, hinv⟩
      rw [step, hstep]
      rfl
    · refine ⟨_, held, ?_, hinv'⟩
      rw [step, hstep]
      rfl
  | addDelPolicy policy isAdd =>
    obtain ⟨im', reply, held', hstep, -, hinv', -⟩ := ipsecAddDelPolicy_spec hinv policy isAdd
    refine ⟨_, held', ?_, hinv'⟩
    rw [step, hstep]
    rfl

/-- Every run of operations returns, in a state that satisfies the invariant. -/
theorem spdRun_inv (hinv : SpdInv sas s held) (ops : List SpdOp) :
    ∃ s' held', runM (SpdHistory.step sas) s ops = .ok s' ∧ SpdInv sas s' held' := by
  have hstep : ∀ s op, (∃ held, SpdInv sas s held) → True →
      ∃ s', step sas s op = .ok s' ∧ ∃ held', SpdInv sas s' held' := by
    rintro s op ⟨held, hinv⟩ -
    obtain ⟨s', held', hs', hinv'⟩ := s.step_inv hinv op
    exact ⟨s', hs', held', hinv'⟩
  obtain ⟨s', hrun, held', hinv'⟩ := runM_total hstep (fun op (_ : op ∈ ops) => trivial) ⟨held, hinv⟩
  exact ⟨s', held', hrun, hinv'⟩

end

end Vpp.Ipsec
