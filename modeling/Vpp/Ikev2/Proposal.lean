import Vpp.Ikev2.Sa

/-! Choosing a proposal (`ikev2_select_proposal`) and looking up what a chosen transform stands for
    (`ikev2_sa_get_td_for_type`), against the table `km->supported_transforms`. -/

namespace Vpp.Ikev2
open Vpp.Schemes List

/-- One entry of the table: the key sizes in bytes, and the block size of a cipher. The type of a
    Diffie-Hellman group is its `transformId`. -/
structure TransformData where
  type : Byte
  transformId : BitVec 16
  keyLen : ℕ := 0
  keyTrunc : ℕ := 0
  blockSize : ℕ := 0
  deriving DecidableEq

abbrev encrTypeAesCbc : BitVec 16 := 12
abbrev encrTypeAesGcm16 : BitVec 16 := 20
abbrev integTypeHmacSha196 : BitVec 16 := 2
abbrev integTypeHmacSha2256128 : BitVec 16 := 12
abbrev integTypeHmacSha2384192 : BitVec 16 := 13
abbrev integTypeHmacSha2512256 : BitVec 16 := 14
abbrev dhTypeNone : BitVec 16 := 0
abbrev esnTypeEsn : BitVec 16 := 1

/-- `ikev2_crypto_init`: the transforms in order of preference, for the build without
    `OPENSSL_NO_CISCO_FECDH`. -/
def supportedTransforms : List TransformData :=
  [⟨transformTypeEncr, encrTypeAesCbc, 32, 0, 16⟩,
   ⟨transformTypeEncr, encrTypeAesCbc, 24, 0, 16⟩,
   ⟨transformTypeEncr, encrTypeAesCbc, 16, 0, 16⟩,
   ⟨transformTypeEncr, encrTypeAesGcm16, 32, 0, 16⟩,
   ⟨transformTypeEncr, encrTypeAesGcm16, 24, 0, 16⟩,
   ⟨transformTypeEncr, encrTypeAesGcm16, 16, 0, 16⟩,
   ⟨transformTypePrf, 5, 32, 32, 0⟩,
   ⟨transformTypePrf, 6, 48, 48, 0⟩,
   ⟨transformTypePrf, 7, 64, 64, 0⟩,
   ⟨transformTypePrf, 2, 20, 20, 0⟩,
   ⟨transformTypeInteg, integTypeHmacSha2256128, 32, 16, 0⟩,
   ⟨transformTypeInteg, integTypeHmacSha2384192, 48, 24, 0⟩,
   ⟨transformTypeInteg, integTypeHmacSha2512256, 64, 32, 0⟩,
   ⟨transformTypeInteg, 7, 20, 20, 0⟩,
   ⟨transformTypeInteg, integTypeHmacSha196, 20, 12, 0⟩,
   ⟨transformTypeDh, 21, 132, 0, 0⟩,
   ⟨transformTypeDh, 20, 96, 0, 0⟩,
   ⟨transformTypeDh, 19, 64, 0, 0⟩,
   ⟨transformTypeDh, 25, 48, 0, 0⟩,
   ⟨transformTypeDh, 24, 256, 0, 0⟩,
   ⟨transformTypeDh, 23, 256, 0, 0⟩,
   ⟨transformTypeDh, 22, 128, 0, 0⟩,
   ⟨transformTypeDh, 18, 1024, 0, 0⟩,
   ⟨transformTypeDh, 17, 768, 0, 0⟩,
   ⟨transformTypeDh, 16, 512, 0, 0⟩,
   ⟨transformTypeDh, 15, 384, 0, 0⟩,
   ⟨transformTypeDh, 14, 256, 0, 0⟩,
   ⟨transformTypeDh, 5, 192, 0, 0⟩,
   ⟨transformTypeDh, 2, 128, 0, 0⟩,
   ⟨transformTypeDh, 1, 96, 0, 0⟩,
   ⟨transformTypeEsn, esnTypeEsn, 0, 0, 0⟩,
   ⟨transformTypeEsn, 0, 0, 0, 0⟩]

section
variable (table : List TransformData)

/-- A table entry stands for a transform; a cipher is told apart by its key length attribute. -/
def TransformData.matches (td : TransformData) (t : SaTransform) : Bool :=
  decide (td.type = t.type) && decide (td.transformId = t.transformId) &&
    (decide (td.type ≠ transformTypeEncr) ||
      match t.attrs with
      | [a0, a1, a2, a3] =>
        decide (a0 = 0x80) && decide (a1 = 14) && decide ((a2.toNat * 256 + a3.toNat) / 8 = td.keyLen)
      | _ => false)

def ikev2FindTransformData (t : SaTransform) : Option TransformData := table.find? (·.matches t)

/-- `1 << type` in a `u8` bitmap. -/
def typeBit (type : Byte) : BitVec 8 := BitVec.ofNat 8 (2 ^ (type.toNat % 32))

/-- The transforms of one offered proposal that are taken over: the first supported one of each
    type. -/
def selectTransforms : List SaTransform → BitVec 8 → BitVec 8 × List SaTransform
  | [], bitmap => (bitmap, [])
  | t :: ts, bitmap =>
    if typeBit t.type &&& bitmap ≠ 0 then selectTransforms ts bitmap
    else if (ikev2FindTransformData table t).isSome then
      let rest := selectTransforms ts (bitmap ||| typeBit t.type)
      (rest.1, t :: rest.2)
    else selectTransforms ts bitmap

/-- The mandatory and the allowed transform types of a protocol. -/
def proposalBitmaps (protId : Byte) : Option (BitVec 8 × BitVec 8) :=
  if protId = protocolIke then
    let mandatory := typeBit transformTypeEncr ||| typeBit transformTypePrf ||| typeBit transformTypeDh
    some (mandatory, mandatory ||| typeBit transformTypeInteg)
  else if protId = protocolEsp then
    let mandatory := typeBit transformTypeEncr ||| typeBit transformTypeEsn
    some (mandatory, mandatory ||| typeBit transformTypeInteg ||| typeBit transformTypeDh)
  else if protId = protocolAh then
    let mandatory := typeBit transformTypeInteg ||| typeBit transformTypeEsn
    some (mandatory, mandatory ||| typeBit transformTypeDh)
  else none

/-- What the loop of `ikev2_select_proposal` makes of one offered proposal. -/
def acceptProposal (protId : Byte) (bitmaps : BitVec 8 × BitVec 8) (p : SaProposal) :
    Option (List SaTransform) :=
  if p.protocolId ≠ protId then none
  else
    let (bitmap, ts) := selectTransforms table p.transforms 0
    if bitmap &&& bitmaps.1 = bitmaps.1 ∧ bitmap &&& ~~~bitmaps.2 = 0 then some ts else none

/-- `ikev2_select_proposal`: the first acceptable proposal with the chosen transforms and a random
    SPI, 32 bits wide except for IKE. -/
def ikev2SelectProposal (spi : BitVec 64) (proposals : List SaProposal) (protId : Byte) :
    List SaProposal :=
  match proposalBitmaps protId with
  | none => []
  | some bitmaps =>
    match proposals.findSome? fun p => (acceptProposal table protId bitmaps p).map (p, ·) with
    | none => []
    | some (p, ts) =>
      [⟨p.proposalNum, p.protocolId, if p.protocolId ≠ protocolIke then spi &&& 0xffffffff else spi, ts⟩]

/-- `ikev2_sa_get_td_for_type`: the table entry of the first transform of a type, in the first
    proposal of a vector. -/
def ikev2SaGetTdForType (p : List SaProposal) (type : Byte) : Option TransformData :=
  match p with
  | [] => none
  | q :: _ => (q.transforms.find? fun t => t.type = type).bind (ikev2FindTransformData table)

/-- The search both `ikev2_generate_sa_init_data` and `ikev2_complete_sa_data` make for a group. -/
def findDhGroup (dhGroup : BitVec 16) : Option TransformData :=
  table.find? fun td => td.type = transformTypeDh && decide (dhGroup = td.transformId)

end

/-- `ikev2_sa_get_child`: the index of the child SA with an SPI of the initiator's or responder's
    first proposal. -/
def ikev2SaGetChild (sa : Sa) (spi : BitVec 32) (protId : Byte) (byInitiator : Bool) : Option ℕ :=
  sa.childs.findIdx? fun c =>
    match if byInitiator then c.iProposals else c.rProposals with
    | [] => false
    | p :: _ => decide (p.spi = spi.setWidth 64) && decide (p.protocolId = protId)

/-! ### What a chosen proposal is -/

/-- What was chosen from an offer for a child SA. -/
def Chosen (offered chosen : List SaProposal) : Prop :=
  ∃ spi, chosen = ikev2SelectProposal supportedTransforms spi offered protocolEsp

section
variable {table : List TransformData}

theorem TransformData.type_of_matches {td : TransformData} {t : SaTransform} (h : td.matches t = true) :
    td.type = t.type ∧ td.transformId = t.transformId := by
  simp only [TransformData.matches, Bool.and_eq_true, decide_eq_true_eq] at h
  exact h.1

/-- A table entry that was found has the type and the number of the transform. -/
theorem ikev2FindTransformData_eq_some {t : SaTransform} {td : TransformData}
    (h : ikev2FindTransformData table t = some td) :
    td ∈ table ∧ td.type = t.type ∧ td.transformId = t.transformId := by
  unfold ikev2FindTransformData at h
  have hmatch := find?_some h
  exact ⟨mem_of_find?_eq_some h, TransformData.type_of_matches hmatch⟩

theorem acceptProposal_eq_some {protId : Byte} {bitmaps : BitVec 8 × BitVec 8} {p : SaProposal}
    {ts : List SaTransform} (h : acceptProposal table protId bitmaps p = some ts) :
    p.protocolId = protId ∧ ts = (selectTransforms table p.transforms 0).2 ∧
      (selectTransforms table p.transforms 0).1 &&& bitmaps.1 = bitmaps.1 := by
  unfold acceptProposal at h
  split at h
  · cases h
  · next hprot =>
    dsimp only at h
    split at h
    · next hbits =>
      cases h
      exact ⟨not_not.mp hprot, rfl, hbits.1⟩
    · cases h

/-- A proposal chosen for IKE has the whole random SPI. -/
theorem spi_of_mem_select_ike {spi : BitVec 64} {offered : List SaProposal} {p : SaProposal}
    (h : p ∈ ikev2SelectProposal table spi offered protocolIke) : p.spi = spi := by
  unfold ikev2SelectProposal at h
  split at h
  · cases h
  · next bitmaps _ =>
    split at h
    · cases h
    · next q ts hfind =>
      obtain ⟨q', -, haccept⟩ := exists_of_findSome?_eq_some hfind
      obtain ⟨ts', hts, heq⟩ := Option.map_eq_some_iff.mp haccept
      cases heq
      have hprot := (acceptProposal_eq_some hts).1
      rw [mem_singleton.mp h]
      simp [hprot]

end

end Vpp.Ikev2
