import Vpp.Ikev2.Proposal

/-! What `ikev2_select_proposal` chooses.

    The types of the transforms taken over from a proposal are kept in an 8-bit map, on which duplicates
    are found and the mandatory and allowed types checked. As long as every type of the table has its
    bit, the map says exactly which types of the proposal are supported, and the choice is that of the
    first proposal that qualifies, with the first supported transform of each type. A type like 9, whose
    bit is shifted out of the map, has none: its transforms are all taken over and never found to be
    outside the allowed types. -/

namespace Vpp.Ikev2
open Vpp.Schemes List

section
variable (table : List TransformData)

def supports (t : SaTransform) : Bool := (ikev2FindTransformData table t).isSome

/-- The first supported transform of a type. -/
def firstOfType (ts : List SaTransform) (type : Byte) : Option SaTransform :=
  ts.find? fun t => decide (t.type = type) && supports table t

/-- The types a proposal of a protocol must have, and those it may have. -/
def mandatoryTypes (protId : Byte) : List Byte :=
  if protId = protocolIke then [transformTypeEncr, transformTypePrf, transformTypeDh]
  else if protId = protocolEsp then [transformTypeEncr, transformTypeEsn]
  else [transformTypeInteg, transformTypeEsn]

def allowedTypes (protId : Byte) : List Byte :=
  mandatoryTypes protId ++
    if protId = protocolIke then [transformTypeInteg]
    else if protId = protocolEsp then [transformTypeInteg, transformTypeDh]
    else [transformTypeDh]

/-- A proposal of the requested protocol that can be satisfied. -/
def qualifies (protId : Byte) (p : SaProposal) : Bool :=
  decide (protId ∈ [protocolIke, protocolEsp, protocolAh]) && decide (p.protocolId = protId) &&
    (mandatoryTypes protId).all (fun type => (firstOfType table p.transforms type).isSome) &&
      p.transforms.all fun t => !supports table t || decide (t.type ∈ allowedTypes protId)

/-- The transforms chosen from a proposal. -/
structure Selection (protId : Byte) (p : SaProposal) (ts : List SaTransform) : Prop where
  sublist : ts.Sublist p.transforms
  first : ∀ type, ts.filter (fun t => decide (t.type = type)) = (firstOfType table p.transforms type).toList
  mandatory : ∀ type ∈ mandatoryTypes protId, ∃ t ∈ ts, t.type = type
  allowed : ∀ t ∈ ts, t.type ∈ allowedTypes protId

/-- The function returns the selection from the first proposal that qualifies, and nothing if there is
    none. -/
def SelectsFirst (spi : BitVec 64) (proposals : List SaProposal) (protId : Byte) : Prop :=
  match proposals.find? (qualifies table protId) with
  | none => ikev2SelectProposal table spi proposals protId = []
  | some p => ∃ chosen, ikev2SelectProposal table spi proposals protId = [chosen] ∧
      chosen.proposalNum = p.proposalNum ∧ chosen.protocolId = protId ∧
      Selection table protId p chosen.transforms

end

/-! ### Maps of types -/

theorem getLsbD_typeBit {type : Byte} (h : type.toNat < 8) (k : ℕ) :
    (typeBit type).getLsbD k = decide (type.toNat = k) := by
  have hpow : ∀ i : Fin 8, BitVec.ofNat 8 (2 ^ (i.1 % 32)) = BitVec.twoPow 8 i.1 := by decide
  rw [typeBit, hpow ⟨_, h⟩, BitVec.getLsbD_twoPow, decide_eq_true h, Bool.true_and]

theorem typeBit_and_ne_zero {type : Byte} (h : type.toNat < 8) (bitmap : BitVec 8) :
    typeBit type &&& bitmap ≠ 0 ↔ bitmap.getLsbD type.toNat = true := by
  rw [ne_eq, not_iff_comm, Bool.not_eq_true]
  constructor
  · intro hclear
    refine BitVec.eq_of_getLsbD_eq fun k _ => ?_
    rw [BitVec.getLsbD_and, getLsbD_typeBit h]
    by_cases hk : type.toNat = k
    · simp [← hk, hclear]
    · simp [hk]
  · intro hzero
    have := congrArg (·.getLsbD type.toNat) hzero
    simpa [BitVec.getLsbD_and, getLsbD_typeBit h] using this

theorem and_eq_right_iff {b mask : BitVec 8} :
    b &&& mask = mask ↔ ∀ k < 8, mask.getLsbD k = true → b.getLsbD k = true := by
  simp only [BitVec.eq_of_getLsbD_eq_iff, BitVec.getLsbD_and, Bool.and_eq_right_iff_imp]

theorem and_not_eq_zero_iff {b mask : BitVec 8} :
    b &&& ~~~mask = 0 ↔ ∀ k < 8, b.getLsbD k = true → mask.getLsbD k = true := by
  simp +contextual [BitVec.eq_of_getLsbD_eq_iff]

/-- The bitmaps of a protocol have the bits of its mandatory and of its allowed types. -/
theorem proposalBitmaps_bits {protId : Byte} (h : protId ∈ [protocolIke, protocolEsp, protocolAh]) :
    ∃ m o, proposalBitmaps protId = some (m, o) ∧ (∀ type ∈ allowedTypes protId, type.toNat < 8) ∧
      ∀ k < 8, (m.getLsbD k = true ↔ ∃ type ∈ mandatoryTypes protId, type.toNat = k) ∧
        (o.getLsbD k = true ↔ ∃ type ∈ allowedTypes protId, type.toNat = k) := by
  simp only [mem_cons, not_mem_nil, or_false] at h
  rcases h with rfl | rfl | rfl <;> exact ⟨_, _, rfl, by decide, by decide⟩

/-! ### One proposal -/

section
variable {table : List TransformData}

/-- A proposal's transforms, from a map with the types that are taken already. -/
structure Scanned (table : List TransformData) (ts : List SaTransform) (b : BitVec 8)
    (r : BitVec 8 × List SaTransform) : Prop where
  sublist : r.2.Sublist ts
  first : ∀ type, r.2.filter (fun t => decide (t.type = type))
    = if b.getLsbD type.toNat then [] else (firstOfType table ts type).toList
  bits : ∀ k, r.1.getLsbD k = (b.getLsbD k || ts.any fun t => supports table t && decide (t.type.toNat = k))

section

variable (htable : ∀ td ∈ table, td.type.toNat < 8)
include htable

theorem type_lt_of_supports {t : SaTransform} (h : supports table t = true) : t.type.toNat < 8 := by
  obtain ⟨td, htd⟩ := Option.isSome_iff_exists.mp h
  obtain ⟨hmem, htype, -⟩ := ikev2FindTransformData_eq_some htd
  exact htype ▸ htable td hmem

theorem selectTransforms_scanned (ts : List SaTransform) (b : BitVec 8) : Scanned table ts b
    (selectTransforms table ts b) := by
  have hsmall {t : SaTransform} := type_lt_of_supports htable (t := t)
  induction ts generalizing b with
  | nil => exact ⟨List.Sublist.refl _, fun _ => by simp [selectTransforms, firstOfType], by simp [selectTransforms]⟩
  | cons t ts ih =>
    -- a transform that is left out either is not supported or has its bit in the map
    have hskip (h : supports table t = true → b.getLsbD t.type.toNat = true) :
        Scanned table (t :: ts) b (selectTransforms table ts b) := by
      refine ⟨(ih b).sublist.cons t, fun type => ?_, fun k => ?_⟩
      · rw [(ih b).first]
        by_cases htype : t.type = type <;> cases hs : supports table t <;>
          simp_all [firstOfType]
      · rw [(ih b).bits, any_cons]
        by_cases hk : t.type.toNat = k <;> cases hs : supports table t <;> simp_all
    unfold selectTransforms
    split_ifs with hbit hfind
    · exact hskip fun hs => (typeBit_and_ne_zero (hsmall hs) b).mp hbit
    · have hs : supports table t = true := hfind
      have hclear : b.getLsbD t.type.toNat = false := by
        rw [← Bool.not_eq_true, ← typeBit_and_ne_zero (hsmall hs)]
        exact hbit
      have ih' := ih (b ||| typeBit t.type)
      refine ⟨ih'.sublist.cons_cons t, fun type => ?_, fun k => ?_⟩
      · rw [filter_cons, ih'.first, BitVec.getLsbD_or, getLsbD_typeBit (hsmall hs)]
        by_cases htype : t.type = type
        · subst htype
          simp [hclear, firstOfType, hs]
        · have hne : ¬ t.type.toNat = type.toNat := fun h => htype (BitVec.eq_of_toNat_eq h)
          simp [htype, hne, firstOfType]
      · rw [ih'.bits, BitVec.getLsbD_or, getLsbD_typeBit (hsmall hs), any_cons, hs, Bool.true_and,
          Bool.or_assoc]
    · exact hskip fun hs => absurd hs hfind

/-- The checks on the map are those that make a proposal qualify. -/
theorem acceptProposal_eq {protId : Byte} (hprot : protId ∈ [protocolIke, protocolEsp, protocolAh]) :
    ∃ bitmaps, proposalBitmaps protId = some bitmaps ∧ ∀ p, acceptProposal table protId bitmaps p
      = if qualifies table protId p then some (selectTransforms table p.transforms 0).2 else none := by
  obtain ⟨m, o, hmaps, hlt, hmask⟩ := proposalBitmaps_bits hprot
  refine ⟨(m, o), hmaps, fun p => ?_⟩
  have hbits := (selectTransforms_scanned htable p.transforms 0).bits
  have hqualifies : qualifies table protId p = true ↔ p.protocolId = protId ∧
      ((selectTransforms table p.transforms 0).1 &&& m = m ∧
      (selectTransforms table p.transforms 0).1 &&& ~~~o = 0) := by
    have hfirst (type : Byte) : (firstOfType table p.transforms type).isSome = true ↔
        (selectTransforms table p.transforms 0).1.getLsbD type.toNat = true := by
      rw [hbits]
      simp [firstOfType, BitVec.toNat_inj, and_comm]
    simp only [qualifies, hprot, decide_true, Bool.true_and, Bool.and_eq_true, decide_eq_true_eq,
      all_eq_true, and_assoc, and_eq_right_iff, and_not_eq_zero_iff]
    refine and_congr Iff.rfl (and_congr ⟨fun h k hk hm => ?_, fun h type hmem => ?_⟩
      ⟨fun h k hk hb => ?_, fun h t ht => ?_⟩)
    · obtain ⟨type, hmem, rfl⟩ := (hmask k hk).1.mp hm
      exact (hfirst type).mp (h type hmem)
    · have hk := hlt type (mem_append_left _ hmem)
      exact (hfirst type).mpr (h _ hk ((hmask _ hk).1.mpr ⟨type, hmem, rfl⟩))
    · rw [hbits] at hb
      obtain ⟨t, ht, hs, rfl⟩ : ∃ t ∈ p.transforms, supports table t = true ∧ t.type.toNat = k := by
        simpa using hb
      have hallowed : t.type ∈ allowedTypes protId := by simpa [hs] using h t ht
      exact (hmask _ hk).2.mpr ⟨_, hallowed, rfl⟩
    · cases hs : supports table t with
      | false => rfl
      | true =>
        have hk := type_lt_of_supports htable hs
        have hb : (selectTransforms table p.transforms 0).1.getLsbD t.type.toNat = true := by
          rw [hbits]
          simpa using ⟨t, ht, hs, rfl⟩
        obtain ⟨type, hmem, htype⟩ := (hmask _ hk).2.mp (h _ hk hb)
        simpa [← BitVec.eq_of_toNat_eq htype] using hmem
  unfold acceptProposal
  by_cases hid : p.protocolId = protId
  · simp only [hid, ne_eq, not_true_eq_false, if_false, hqualifies, true_and]
  · simp only [ne_eq, hid, not_false_eq_true, if_true, hqualifies, false_and, if_false]

theorem selection_of_qualifies {protId : Byte} {p : SaProposal}
    (h : qualifies table protId p = true) :
    Selection table protId p (selectTransforms table p.transforms 0).2 := by
  obtain ⟨hsub, hfirst, -⟩ := selectTransforms_scanned htable p.transforms 0
  replace hfirst := fun type => (hfirst type).trans (if_neg (by simp))
  simp only [qualifies, Bool.and_eq_true, all_eq_true, Bool.or_eq_true, Bool.not_eq_true'] at h
  refine ⟨hsub, hfirst, fun type hmem => ?_, fun t ht => ?_⟩
  · obtain ⟨t, ht⟩ := Option.isSome_iff_exists.mp (h.1.2 type hmem)
    have hmem := mem_filter.mp (by rw [hfirst, ht]; exact mem_singleton_self t)
    exact ⟨t, hmem.1, of_decide_eq_true hmem.2⟩
  · have hmem : t ∈ (firstOfType table p.transforms t.type).toList := by
      rw [← hfirst]
      exact mem_filter.mpr ⟨ht, decide_eq_true rfl⟩
    have hsupported := find?_some (Option.mem_toList.mp hmem)
    rw [Bool.and_eq_true] at hsupported
    rcases h.2 t (hsub.subset ht) with hno | hyes
    · rw [hsupported.2] at hno
      cases hno
    · exact of_decide_eq_true hyes

end

/-- With a bit for every type of the table, the first proposal that qualifies is chosen. -/
theorem ikev2SelectProposal_selectsFirst (htable : ∀ td ∈ table, td.type.toNat < 8) (spi : BitVec 64)
    (proposals : List SaProposal) (protId : Byte) : SelectsFirst table spi proposals protId := by
  unfold SelectsFirst ikev2SelectProposal
  by_cases hprot : protId ∈ [protocolIke, protocolEsp, protocolAh]
  · obtain ⟨bitmaps, hmaps, haccept⟩ := acceptProposal_eq htable hprot
    have hfind : (proposals.findSome? fun p => (acceptProposal table protId bitmaps p).map (p, ·))
        = (proposals.find? (qualifies table protId)).map fun p =>
          (p, (selectTransforms table p.transforms 0).2) := by
      simp only [haccept]
      induction proposals with
      | nil => rfl
      | cons p ps ih =>
        rw [findSome?_cons, find?_cons, ih]
        cases qualifies table protId p <;> rfl
    rw [hmaps]
    dsimp only
    rw [hfind]
    cases hp : proposals.find? (qualifies table protId) with
    | none => rfl
    | some p =>
      have hq := find?_some hp
      have hid : p.protocolId = protId := by
        simp only [qualifies, Bool.and_eq_true] at hq
        exact of_decide_eq_true hq.1.1.2
      exact ⟨_, rfl, rfl, hid, selection_of_qualifies htable hq⟩
  · have hnone : proposals.find? (qualifies table protId) = none :=
      find?_eq_none.mpr fun p _ => by simp only [qualifies, hprot, decide_false, Bool.false_and]; decide
    have hmaps : proposalBitmaps protId = none := by
      simp only [mem_cons, not_mem_nil, or_false, not_or] at hprot
      simp only [proposalBitmaps, hprot, if_false]
    rw [hnone, hmaps]

end

def espTwoCiphers : SaProposal :=
  ⟨2, protocolEsp, 8, [⟨transformTypeEncr, encrTypeAesCbc, [0x80, 14, 1, 0]⟩,
    ⟨transformTypeEncr, encrTypeAesGcm16, [0x80, 14, 1, 0]⟩, ⟨transformTypeEsn, 0, []⟩]⟩

/-- The table of the build has only types with a bit. A proposal without encryption is passed over. -/
theorem supportedTransforms_selectsFirst : ∃ chosen,
    ikev2SelectProposal supportedTransforms 5 [⟨1, protocolEsp, 7, [⟨transformTypeEsn, 0, []⟩]⟩, espTwoCiphers]
      protocolEsp = [chosen] ∧
    chosen.proposalNum = 2 ∧ chosen.protocolId = protocolEsp ∧
      Selection supportedTransforms protocolEsp espTwoCiphers chosen.transforms := by
  have htable : ∀ td ∈ supportedTransforms, td.type.toNat < 8 := by decide
  have hfind : [⟨1, protocolEsp, 7, [⟨transformTypeEsn, 0, []⟩]⟩, espTwoCiphers].find?
      (qualifies supportedTransforms protocolEsp) = some espTwoCiphers := by decide +kernel
  have h := ikev2SelectProposal_selectsFirst htable 5
    [⟨1, protocolEsp, 7, [⟨transformTypeEsn, 0, []⟩]⟩, espTwoCiphers] protocolEsp
  rw [SelectsFirst, hfind] at h
  exact h

/-- With a transform of type 9 in the table, two of them are taken over from a proposal in which no
    transform of such a type is allowed. -/
theorem selects_duplicates :
    ¬ SelectsFirst [⟨9, 1, 0, 0, 0⟩, ⟨transformTypeInteg, 2, 20, 12, 0⟩, ⟨transformTypeEsn, 0, 0, 0, 0⟩] 5
      [⟨1, protocolAh, 7, [⟨9, 1, []⟩, ⟨9, 1, []⟩, ⟨transformTypeInteg, 2, []⟩,
        ⟨transformTypeEsn, 0, []⟩]⟩]
      protocolAh := by
  intro h
  have hnone : ikev2SelectProposal _ _ _ _ = [] := h
  revert hnone
  decide

end Vpp.Ikev2
