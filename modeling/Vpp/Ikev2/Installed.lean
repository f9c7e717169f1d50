import Vpp.Ikev2.Frame

/-! What the responder installs for a child SA, against what it has chosen.

      offered   i_proposals   p0 p1 p2 …     cipher, integrity, ESN and SPI are read from p0
      chosen    r_proposals   r              keys are cut for r, which is sent to the peer

    `ikev2_select_proposal` may choose any of the offered proposals, and of each the first supported
    transform of a type, while `ikev2_create_tunnel_interface` looks at the first transform of a type in
    the first proposal. The two agree on the offers of
    `OfferAgrees` (`ReadFromOffer.installed`). -/

namespace Vpp.Ikev2
open Vpp.Schemes Option

/-! ### Algorithms and key lengths -/

def IpsecCryptoAlg.keyLen : IpsecCryptoAlg → ℕ
  | .aesCbc128 | .aesGcm128 => 16
  | .aesCbc192 | .aesGcm192 => 24
  | .aesCbc256 | .aesGcm256 => 32

def IpsecIntegAlg.keyLen : IpsecIntegAlg → ℕ
  | .none => 0
  | .sha196 => 20
  | .sha256128 => 32
  | .sha384192 => 48
  | .sha512256 => 64

variable {tr : TransformData} {encr : IpsecCryptoAlg} {integ : IpsecIntegAlg}

theorem ipsecEncr_keyLen (h : ipsecEncr tr = some encr) :
    tr.keyLen = encr.keyLen := by
  unfold ipsecEncr at h
  split at h
  · split at h <;> cases h <;> assumption
  · split at h
    · split at h <;> cases h <;> assumption
    · cases h

/-- The table has every integrity algorithm with the key length of the IPsec layer. -/
theorem ipsecInteg_keyLen (hmem : tr ∈ supportedTransforms) (htype : tr.type = transformTypeInteg)
    (h : ipsecInteg tr = some integ) :
    tr.keyLen = integ.keyLen ∧ integ ≠ .none := by
  have htable : ∀ tr ∈ supportedTransforms, tr.type = transformTypeInteg →
      ∀ integ ∈ ipsecInteg tr, tr.keyLen = integ.keyLen ∧ integ ≠ .none := by decide
  exact htable tr hmem htype integ h

/-- A table entry found for a type has that type. -/
theorem ikev2SaGetTdForType_eq_some {table : List TransformData} {p : List SaProposal} {type : Byte}
    (h : ikev2SaGetTdForType table p type = some tr) : tr ∈ table ∧ tr.type = type := by
  unfold ikev2SaGetTdForType at h
  split at h
  · cases h
  · obtain ⟨t, ht, hfind⟩ := bind_eq_some_iff.mp h
    have htype := List.find?_some ht
    obtain ⟨hmem, htr, -⟩ := ikev2FindTransformData_eq_some hfind
    exact ⟨hmem, htr.trans (of_decide_eq_true htype)⟩

/-- The algorithms a chosen proposal stands for: without an integrity transform, none. -/
def chosenAlgs (chosen : List SaProposal) : Option (IpsecCryptoAlg × IpsecIntegAlg) :=
  match (ikev2SaGetTdForType supportedTransforms chosen transformTypeEncr).bind ipsecEncr,
      ikev2SaGetTdForType supportedTransforms chosen transformTypeInteg with
  | some encr, none => some (encr, .none)
  | some encr, some tr => (ipsecInteg tr).map (encr, ·)
  | none, _ => none

/-! ### The choice -/

/-- The offers on which the first proposal and the chosen one say the same. -/
structure OfferAgrees (offered : List SaProposal) : Prop where
  algs : tunnelAlgs offered = chosenAlgs (ikev2SelectProposal supportedTransforms 0 offered protocolEsp)
  esn : tunnelEsn offered = tunnelEsn (ikev2SelectProposal supportedTransforms 0 offered protocolEsp)
  spi : ∃ p ∈ offered,
    (ikev2SelectProposal supportedTransforms 0 offered protocolEsp).head?.map (·.proposalNum) =
      some p.proposalNum ∧
    offered.head?.map (·.spi.setWidth 32) = some (p.spi.setWidth 32)

/-- What is installed is what was chosen: algorithms, ESN, the SPI of the offered proposal with the
    number of the chosen one; and the keys have the length the algorithms need. -/
structure InstallMatches (child : ChildSa) (a : AddTunnelArgs) : Prop where
  algs : chosenAlgs child.rProposals = some (a.encrType, a.integType)
  esn : a.useEsn = tunnelEsn child.rProposals
  outboundSpi : ∃ p ∈ child.iProposals,
    child.rProposals.head?.map (·.proposalNum) = some p.proposalNum ∧ a.localSpi = p.spi.setWidth 32
  ckey : a.locCkey.length = a.encrType.keyLen ∧ a.remCkey.length = a.encrType.keyLen
  ikey : a.locIkey.length = a.integType.keyLen ∧ a.remIkey.length = a.integType.keyLen
  salt : a.encrType.isAead = true → a.saltLocal.length = gcmSaltSize ∧ a.saltRemote.length = gcmSaltSize

/-- The random SPI does not matter for what a chosen proposal stands for. -/
theorem ikev2SelectProposal_congr (table : List TransformData) (spi spi' : BitVec 64)
    (offered : List SaProposal) (protId : Byte) :
    (ikev2SelectProposal table spi offered protId).head?.map (fun p => (p.proposalNum, p.transforms)) =
      (ikev2SelectProposal table spi' offered protId).head?.map fun p => (p.proposalNum, p.transforms) := by
  unfold ikev2SelectProposal
  split
  · rfl
  · split <;> rfl

theorem ikev2SaGetTdForType_congr {table : List TransformData} {p q : List SaProposal}
    (h : p.head?.map (·.transforms) = q.head?.map (·.transforms)) (type : Byte) :
    ikev2SaGetTdForType table p type = ikev2SaGetTdForType table q type := by
  cases p <;> cases q <;> simp_all [ikev2SaGetTdForType]

section
variable {offered chosen : List SaProposal} (h : Chosen offered chosen)
include h

theorem Chosen.getTd_eq (type : Byte) :
    ikev2SaGetTdForType supportedTransforms chosen type =
      ikev2SaGetTdForType supportedTransforms
        (ikev2SelectProposal supportedTransforms 0 offered protocolEsp) type := by
  obtain ⟨spi, rfl⟩ := h
  have hcongr := ikev2SelectProposal_congr supportedTransforms spi 0 offered protocolEsp
  refine ikev2SaGetTdForType_congr ?_ type
  have hts := congrArg (Option.map Prod.snd) hcongr
  rwa [map_map, map_map] at hts

theorem Chosen.chosenAlgs_eq :
    chosenAlgs chosen = chosenAlgs (ikev2SelectProposal supportedTransforms 0 offered protocolEsp) := by
  unfold chosenAlgs
  rw [h.getTd_eq, h.getTd_eq]

theorem Chosen.tunnelEsn_eq :
    tunnelEsn chosen = tunnelEsn (ikev2SelectProposal supportedTransforms 0 offered protocolEsp) := by
  unfold tunnelEsn
  rw [h.getTd_eq]

theorem Chosen.proposalNum_eq :
    chosen.head?.map (·.proposalNum) =
      (ikev2SelectProposal supportedTransforms 0 offered protocolEsp).head?.map (·.proposalNum) := by
  obtain ⟨spi, rfl⟩ := h
  have hcongr := ikev2SelectProposal_congr supportedTransforms spi 0 offered protocolEsp
  have hnum := congrArg (Option.map Prod.fst) hcongr
  rwa [map_map, map_map] at hnum

end

/-! ### The installed child SA -/

/-- A child SA before its keys are derived: what was offered, and what was chosen, if anything. -/
structure Offered (child : ChildSa) : Prop where
  chosen : child.rProposals = [] ∨ Chosen child.iProposals child.rProposals
  skAi : child.skAi = []
  skAr : child.skAr = []

/-- The keys of `child'` are those of `child`, cut for the chosen proposal. -/
structure KeysCut (child child' : ChildSa) : Prop where
  iProposals : child'.iProposals = child.iProposals
  rProposals : child'.rProposals = child.rProposals
  encr : ∃ tr, ikev2SaGetTdForType supportedTransforms child.rProposals transformTypeEncr = some tr ∧
    child'.skEi.length = tr.keyLen ∧ child'.skEr.length = tr.keyLen
  integ : ∀ tr, ikev2SaGetTdForType supportedTransforms child.rProposals transformTypeInteg = some tr →
    child'.skAi.length = tr.keyLen ∧ child'.skAr.length = tr.keyLen
  salt : ikev2SaGetTdForType supportedTransforms child.rProposals transformTypeInteg = none →
    (child'.skAi = child.skAi ∧ child'.skAr = child.skAr) ∧
      child'.saltEi.length = gcmSaltSize ∧ child'.saltEr.length = gcmSaltSize

theorem ikev2CalcChildKeys_keysCut {cr : Crypto} (sa : Sa) (child : ChildSa) (kex : Bool) :
    Ensures (ikev2CalcChildKeys cr sa child kex) (KeysCut child) := by
  refine .bind_any fun trPrf => ?_
  refine .bind (.deref _) fun ctrEncr hencr => ?_
  refine .bind (.slice _ _ _) fun skEi hskEi => ?_
  refine .bind (.slice _ _ _) fun skAi hskAi => ?_
  refine .bind (.slice _ _ _) fun saltEi hsaltEi => ?_
  refine .bind (.slice _ _ _) fun skEr hskEr => ?_
  refine .bind (.slice _ _ _) fun skAr hskAr => ?_
  refine .bind (.slice _ _ _) fun saltEr hsaltEr => ?_
  refine .pure ⟨rfl, rfl, ⟨ctrEncr, hencr, hskEi, hskEr⟩, ?_, ?_⟩
  · intro tr htr
    rw [htr] at hskAi hskAr
    simp only [htr, isSome_some, if_true]
    exact ⟨hskAi, hskAr⟩
  · intro hnone
    rw [hnone] at hsaltEi hsaltEr
    simp only [hnone, isSome_none]
    exact ⟨⟨rfl, rfl⟩, hsaltEi, hsaltEr⟩

/-- Where the responder takes the arguments from: the first offered proposal, and the keys. -/
structure ReadFromOffer (child : ChildSa) (a : AddTunnelArgs) : Prop where
  algs : tunnelAlgs child.iProposals = some (a.encrType, a.integType)
  esn : a.useEsn = tunnelEsn child.iProposals
  localSpi : child.iProposals.head?.map (·.spi.setWidth 32) = some a.localSpi
  ckey : a.locCkey = child.skEr ∧ a.remCkey = child.skEi
  ikey : a.locIkey = child.skAr ∧ a.remIkey = child.skAi
  salt : a.encrType.isAead = true → a.saltLocal = child.saltEr ∧ a.saltRemote = child.saltEi

theorem ikev2CreateTunnelInterface_readFromOffer {env : Env} {sa : Sa} {saIndex childIndex : BitVec 32}
    {isRekey kex : Bool} (hresp : sa.isInitiator = false) (child : ChildSa) :
    Ensures (ikev2CreateTunnelInterface env sa child saIndex childIndex isRekey kex) fun r =>
      ∀ a, r.2.2 = some a → child.rProposals ≠ [] ∧ KeysCut child r.2.1 ∧ ReadFromOffer r.2.1 a := by
  unfold ikev2CreateTunnelInterface
  split
  · exact .pure (by simp)
  · next rp rest hr =>
    refine .bind (.deref _) fun ip hip => ?_
    simp only [hresp, Bool.false_eq_true, if_false]
    split
    · exact .pure (by simp)
    · next encrType integType halgs =>
      refine .bind (ikev2CalcChildKeys_keysCut sa child kex) fun child' hkeys => ?_
      have hrole := congrArg (fun core => core.window.isInitiator)
        (rekeyRemoteSaId_core sa (ikev2MkRemoteSaId saIndex childIndex env.threadIndex) isRekey)
      have hresp' : (rekeyRemoteSaId sa (ikev2MkRemoteSaId saIndex childIndex env.threadIndex)
        isRekey).1.isInitiator = false := hrole.trans hresp
      refine .pure ?_
      rintro a ⟨⟩
      refine ⟨by rw [hr]; simp, { hkeys with }, ?_⟩
      simp only [AddTunnelArgs.setKeys, hresp', Bool.false_eq_true, if_false]
      refine ⟨?_, ?_, ?_, ⟨rfl, rfl⟩, ⟨rfl, rfl⟩, ?_⟩
      · rw [hkeys.iProposals]; exact halgs
      · rw [hkeys.iProposals]
      · rw [hkeys.iProposals, hip]; rfl
      · intro haead
        rw [if_pos haead, if_pos haead]
        exact ⟨rfl, rfl⟩

theorem tunnelAlgs_aead {proposals : List SaProposal}
    (h : tunnelAlgs proposals = some (encr, integ)) (haead : encr.isAead = true) : integ = .none := by
  unfold tunnelAlgs at h
  split at h
  · cases h
  · split at h
    · cases h; rfl
    · next hnot =>
      split at h
      · cases h
      · cases h; exact absurd haead hnot

theorem chosenAlgs_eq_some {chosen : List SaProposal} (h : chosenAlgs chosen = some (encr, integ)) :
    (ikev2SaGetTdForType supportedTransforms chosen transformTypeEncr).bind ipsecEncr = some encr ∧
      (ikev2SaGetTdForType supportedTransforms chosen transformTypeInteg = none ∧ integ = .none ∨
        ∃ tr, ikev2SaGetTdForType supportedTransforms chosen transformTypeInteg = some tr ∧
          tr.keyLen = integ.keyLen ∧ integ ≠ .none) := by
  unfold chosenAlgs at h
  split at h
  · next encr' hencr hinteg =>
    cases h
    exact ⟨hencr, .inl ⟨hinteg, rfl⟩⟩
  · next encr' tr hencr hinteg =>
    obtain ⟨integ', hinteg', heq⟩ := map_eq_some_iff.mp h
    cases heq
    obtain ⟨hmem, htype⟩ := ikev2SaGetTdForType_eq_some hinteg
    exact ⟨hencr, .inr ⟨tr, hinteg, ipsecInteg_keyLen hmem htype hinteg'⟩⟩
  · cases h

section
variable {child child' : ChildSa} {a : AddTunnelArgs} (hkeys : KeysCut child child')
  (halgs : chosenAlgs child.rProposals = some (a.encrType, a.integType))
include hkeys halgs

/-- Keys cut for the chosen proposal fit the installed cipher if it is the chosen one. -/
theorem KeysCut.ckey_length :
    child'.skEr.length = a.encrType.keyLen ∧ child'.skEi.length = a.encrType.keyLen := by
  obtain ⟨hencr, -⟩ := chosenAlgs_eq_some halgs
  obtain ⟨tr, htr, hi, hr⟩ := hkeys.encr
  rw [htr] at hencr
  rw [hi, hr]
  exact ⟨ipsecEncr_keyLen hencr, ipsecEncr_keyLen hencr⟩

theorem KeysCut.ikey_length (hoffer : Offered child) :
    child'.skAr.length = a.integType.keyLen ∧ child'.skAi.length = a.integType.keyLen := by
  rcases (chosenAlgs_eq_some halgs).2 with ⟨hnone, hinteg⟩ | ⟨tr, htr, hlen, -⟩
  · obtain ⟨⟨hi, hr⟩, -⟩ := hkeys.salt hnone
    rw [hi, hr, hoffer.skAi, hoffer.skAr, hinteg]
    exact ⟨rfl, rfl⟩
  · obtain ⟨hi, hr⟩ := hkeys.integ tr htr
    rw [hi, hr]
    exact ⟨hlen, hlen⟩

theorem KeysCut.salt_length (hinteg : a.integType = .none) :
    child'.saltEr.length = gcmSaltSize ∧ child'.saltEi.length = gcmSaltSize := by
  rcases (chosenAlgs_eq_some halgs).2 with ⟨hnone, -⟩ | ⟨tr, -, -, hne⟩
  · exact (hkeys.salt hnone).2.symm
  · exact absurd hinteg hne

end

/-- A child SA installed by the responder: it is as chosen exactly if the offer agrees with itself. -/
structure Installed (child : ChildSa) (a : AddTunnelArgs) : Prop where
  chosen : Chosen child.iProposals child.rProposals
  matches_iff : InstallMatches child a ↔ OfferAgrees child.iProposals

theorem ReadFromOffer.installed {child child' : ChildSa} {a : AddTunnelArgs} (hread : ReadFromOffer child' a)
    (hkeys : KeysCut child child') (hoffer : Offered child) (hne : child.rProposals ≠ []) :
    Installed child' a := by
  have hchosen : Chosen child'.iProposals child'.rProposals := by
    rw [hkeys.iProposals, hkeys.rProposals]
    exact hoffer.chosen.resolve_left hne
  refine ⟨hchosen, ?_⟩
  constructor
  · intro h
    refine ⟨?_, ?_, ?_⟩
    · rw [hread.algs, ← hchosen.chosenAlgs_eq, h.algs]
    · rw [← hread.esn, ← hchosen.tunnelEsn_eq, h.esn]
    · obtain ⟨p, hp, hnum, hspi⟩ := h.outboundSpi
      exact ⟨p, hp, hchosen.proposalNum_eq ▸ hnum, hspi ▸ hread.localSpi⟩
  · intro h
    have halgs : chosenAlgs child'.rProposals = some (a.encrType, a.integType) := by
      rw [hchosen.chosenAlgs_eq, ← h.algs, hread.algs]
    have halgs' := hkeys.rProposals ▸ halgs
    refine ⟨halgs, ?_, ?_, ?_, ?_, ?_⟩
    · rw [hread.esn, h.esn, hchosen.tunnelEsn_eq]
    · obtain ⟨p, hp, hnum, hspi⟩ := h.spi
      rw [hread.localSpi] at hspi
      exact ⟨p, hp, hchosen.proposalNum_eq.trans hnum, some.inj hspi⟩
    · rw [hread.ckey.1, hread.ckey.2]
      exact hkeys.ckey_length halgs'
    · rw [hread.ikey.1, hread.ikey.2]
      exact hkeys.ikey_length halgs' hoffer
    · intro haead
      rw [(hread.salt haead).1, (hread.salt haead).2]
      exact hkeys.salt_length halgs' (tunnelAlgs_aead hread.algs haead)

end Vpp.Ikev2
