import Vpp.Ikev2.Chain
import Vpp.Ikev2.Parse

/-! Reading back an SA payload that `ikev2_payload_add_sa` wrote.

    The transforms of a proposal and a single proposal are read back as written, whatever the
    `last_or_more` of the proposal says (`parseTransforms_data`, `parseProposal_data`). The loop over
    the proposals depends on it: the writer marks every one of two or more proposals, the last included,
    as followed by another, and the reader rejects a list whose last element is so marked. -/

namespace Vpp.Ikev2
open Vpp.Schemes List
open BitVec (ofNat)

/-! ### Transforms -/

/-- The fixed part of a transform substructure. -/
def transformHdr (t : SaTransform) (more : Bool) : Bytes :=
  [if more then 3 else 0, 0] ++ (toBe 2 (8 + t.attrs.length) ++ ([t.type, 0] ++ toBe 2 t.transformId.toNat))

variable (t : SaTransform)

theorem transformData_eq (more : Bool) :
    transformData t more = transformHdr t more ++ t.attrs := by
  simp [transformData, transformHdr]

theorem length_transformData (more : Bool) :
    (transformData t more).length = 8 + t.attrs.length := by
  simp [transformData]; omega

theorem transformHdr_fields (more : Bool) (h : 8 + t.attrs.length < 2 ^ 16) :
    fieldBe (transformHdr t more) 2 2 = 8 + t.attrs.length ∧ field8 (transformHdr t more) 4 = t.type ∧
      ofNat 16 (fieldBe (transformHdr t more) 6 2) = t.transformId := by
  refine ⟨fieldBe_toBe rfl (by omega), rfl, ?_⟩
  have hassoc : transformHdr t more =
      ([if more then 3 else 0, 0] ++ (toBe 2 (8 + t.attrs.length) ++ [t.type, 0])) ++
        (toBe 2 t.transformId.toNat ++ []) := by simp [transformHdr]
  rw [hassoc, fieldBe_toBe (by simp) (by have := t.transformId.isLt; omega), BitVec.ofNat_toNat,
    BitVec.setWidth_eq]

variable {mem : Bytes}

/-- The transforms are read back in order. -/
theorem parseTransforms_data {rlen : ℕ} (hml : 4 + rlen ≤ mem.length) :
    ∀ (ts : List SaTransform) (ptr : ℕ) (rest : Bytes),
      mem.drop (4 + ptr) = transformsData ts ++ rest → ptr + (transformsData ts).length ≤ rlen →
      (transformsData ts).length < 2 ^ 16 →
      parseTransforms mem rlen ts.length ptr = .ok (some ts)
  | [], _, _, _, _, _ => rfl
  | t :: ts, ptr, rest, hmem, hrlen, hshort => by
    have hlen := length_transformData t (decide (ts ≠ []))
    simp only [transformsData, length_append, hlen] at hmem hrlen hshort
    obtain ⟨htlen, htype, hid⟩ := transformHdr_fields t (decide (ts ≠ [])) (by omega)
    rw [transformData_eq, append_assoc, append_assoc] at hmem
    have hhdr : slice mem (4 + ptr) 8 = .ok (transformHdr t (decide (ts ≠ []))) :=
      slice_of_drop hmem (by simp [transformHdr]) (by omega)
    have hafter := drop_add_of_drop hmem (k := 8) (by simp [transformHdr])
    have hattrs : slice mem (4 + ptr + 8) (8 + t.attrs.length - 8) = .ok t.attrs :=
      slice_of_drop hafter (by omega) (by omega)
    have hnext := drop_add_of_drop hafter rfl
    have ih := parseTransforms_data hml ts (ptr + (8 + t.attrs.length)) rest
      (by rw [← hnext]; congr 1; omega) (by omega) (by omega)
    rw [length_cons, parseTransforms, if_neg (by omega), hhdr]
    simp only [bind_ok, htlen, htype, hid]
    rw [if_neg (by omega), if_neg (by omega), hattrs, bind_ok, ih]
    rfl

/-! ### Proposals -/

/-- What the SA payload can express: at most 255 transforms, and an SPI of the size that belongs to
    the protocol. -/
structure SaProposal.Encodable (p : SaProposal) (forceSpi : Bool) : Prop where
  transforms : p.transforms.length ≤ 255
  spi : (p.protocolId = protocolEsp ∧ p.spi.toNat < 2 ^ 32) ∨
    (p.protocolId = protocolIke ∧ (forceSpi = true ∨ p.spi = 0))

/-- One proposal as it is written. -/
def proposalBytes (forceSpi : Bool) (lastOrMore : Byte) (p : SaProposal) : Bytes :=
  (proposalData p forceSpi lastOrMore).1 ++ (proposalData p forceSpi lastOrMore).2

/-- The fixed part of a proposal substructure. -/
def proposalHdr (forceSpi : Bool) (lastOrMore : Byte) (p : SaProposal) : Bytes :=
  [lastOrMore, 0] ++ (toBe 2 ((transformsData p.transforms).length + (8 + spiSize p forceSpi)) ++
    [p.proposalNum, p.protocolId, ofNat 8 (spiSize p forceSpi),
      ofNat 8 p.transforms.length])

section
variable (forceSpi : Bool) (lastOrMore : Byte) (p : SaProposal)
include forceSpi lastOrMore p

theorem proposalBytes_eq :
    proposalBytes forceSpi lastOrMore p = proposalHdr forceSpi lastOrMore p ++
      (toBe (spiSize p forceSpi) p.spi.toNat ++ transformsData p.transforms) := by
  simp [proposalBytes, proposalData, proposalHdr]

@[simp] theorem length_proposalHdr :
    (proposalHdr forceSpi lastOrMore p).length = 8 := by
  simp [proposalHdr]

theorem length_proposalBytes :
    (proposalBytes forceSpi lastOrMore p).length =
      8 + spiSize p forceSpi + (transformsData p.transforms).length := by
  rw [proposalBytes_eq]; simp; omega

end

variable {forceSpi : Bool} {p : SaProposal}

/-- The SPI sizes that go with an encodable proposal, and the SPI they carry. -/
theorem spiSize_cases (h : p.Encodable forceSpi) :
    (spiSize p forceSpi = 4 ∧ p.protocolId = protocolEsp ∧ p.spi.toNat < 2 ^ 32) ∨
      (spiSize p forceSpi = 8 ∧ p.protocolId = protocolIke) ∨
      (spiSize p forceSpi = 0 ∧ p.protocolId = protocolIke ∧ p.spi = 0) := by
  rcases h.spi with ⟨hesp, hspi⟩ | ⟨hike, hforce⟩
  · exact .inl ⟨by simp [spiSize, hesp], hesp, hspi⟩
  · cases forceSpi with
    | true => exact .inr (.inl ⟨by simp [spiSize, hike], hike⟩)
    | false => exact .inr (.inr ⟨by simp [spiSize, hike], hike, by simpa using hforce⟩)

theorem proposalHdr_fields (h : p.Encodable forceSpi) (lastOrMore : Byte)
    (hlen : (proposalBytes forceSpi lastOrMore p).length < 2 ^ 16) :
    let sap := proposalHdr forceSpi lastOrMore p
    field8 sap 0 = lastOrMore ∧ fieldBe sap 2 2 = (proposalBytes forceSpi lastOrMore p).length ∧
      field8 sap 4 = p.proposalNum ∧ field8 sap 5 = p.protocolId ∧
      (field8 sap 6).toNat = spiSize p forceSpi ∧ (field8 sap 7).toNat = p.transforms.length := by
  have hspi : spiSize p forceSpi < 256 := by rcases spiSize_cases h with h | h | h <;> omega
  have htr := h.transforms
  rw [length_proposalBytes] at hlen ⊢
  refine ⟨rfl, ?_, rfl, rfl, ?_, ?_⟩
  · rw [add_comm (8 + spiSize p forceSpi)]
    exact fieldBe_toBe rfl (by omega)
  · show (ofNat 8 (spiSize p forceSpi)).toNat = _
    rw [BitVec.toNat_ofNat]; omega
  · show (ofNat 8 p.transforms.length).toNat = _
    rw [BitVec.toNat_ofNat]; omega

/-- One proposal is read back, with its header. -/
theorem parseProposal_data {rest : Bytes} {rlen ptr : ℕ} (hml : 4 + rlen ≤ mem.length)
    (h : p.Encodable forceSpi) (lastOrMore : Byte)
    (hmem : mem.drop (4 + ptr) = proposalBytes forceSpi lastOrMore p ++ rest)
    (hrlen : ptr + (proposalBytes forceSpi lastOrMore p).length ≤ rlen)
    (hshort : (proposalBytes forceSpi lastOrMore p).length < 2 ^ 16) :
    parseProposal mem rlen ptr = .ok (some (proposalHdr forceSpi lastOrMore p, p)) := by
  obtain ⟨-, -, hnum, hproto, hsize, hnt⟩ := proposalHdr_fields h lastOrMore hshort
  rw [length_proposalBytes] at hrlen hshort
  rw [proposalBytes_eq, append_assoc, append_assoc] at hmem
  have hhdr := slice_of_drop hmem (length_proposalHdr ..) (by omega)
  have hafter := drop_add_of_drop hmem (length_proposalHdr ..)
  have hspi := slice_of_drop hafter (length_toBe ..) (by omega)
  have htr := drop_add_of_drop hafter (length_toBe ..)
  have hts := parseTransforms_data hml p.transforms (ptr + 8 + spiSize p forceSpi) rest
    (by rw [← htr]; congr 1; omega) (by omega) (by omega)
  rw [parseProposal, if_neg (by omega), hhdr]
  simp only [bind_ok, hnum, hproto, hsize, hnt]
  rcases spiSize_cases h with ⟨hn, hp, hlt⟩ | ⟨hn, hp⟩ | ⟨hn, hp, h0⟩
  · have hval : ofNat 64 (ofBe (toBe 4 p.spi.toNat)) = p.spi := by
      rw [ofBe_toBe (by omega), BitVec.ofNat_toNat, BitVec.setWidth_eq]
    rw [hn] at hspi hts ⊢
    rw [if_neg (by simp [hp]), if_neg (by simp), if_neg (by omega), hspi, bind_ok, hts]
    simp only [bind_ok, true_or, if_true, hval]
    rfl
  · have hval : ofNat 64 (ofBe (toBe 8 p.spi.toNat)) = p.spi := by
      rw [ofBe_toBe (by have := p.spi.isLt; omega), BitVec.ofNat_toNat, BitVec.setWidth_eq]
    rw [hn] at hspi hts ⊢
    rw [if_neg (by simp), if_neg (by simp [hp]), if_neg (by omega), hspi, bind_ok, hts]
    simp only [bind_ok, or_true, if_true, hval]
    rfl
  · rw [hn] at hspi hts ⊢
    rw [if_neg (by simp), if_neg (by simp [hp]), if_neg (by omega), hspi, bind_ok, hts]
    obtain ⟨num, proto, spi, ts⟩ := p
    subst h0
    rfl

/-! ### The payload -/

/-- The proposals of an SA payload as they are written, each with the marker of its index. -/
def saBody (forceSpi : Bool) (proposals : List SaProposal) : Bytes :=
  proposals.zipIdx.flatMap fun pi =>
    proposalBytes forceSpi (proposalLastOrMore pi.2 proposals.length) pi.1

/-- The payload that `ikev2_payload_add_sa` adds to the chain. -/
def saPayload (c : PayloadChain) (proposals : List SaProposal) (forceSpi : Bool) : Bytes :=
  (ikev2PayloadAddSa c proposals forceSpi).data.drop c.data.length

theorem foldl_addData_holds {ι : Type} (d : ι → Bytes × Bytes) (is : List ι) {c : PayloadChain}
    {pre body : Bytes} (h : c.Holds pre body)
    (hlen : 4 + (body ++ is.flatMap fun i => (d i).1 ++ (d i).2).length < 2 ^ 16) :
    (is.foldl (fun c i => ikev2PayloadAddData (ikev2PayloadAddData c (d i).1) (d i).2) c).Holds pre
      (body ++ is.flatMap fun i => (d i).1 ++ (d i).2) := by
  induction is generalizing c body with
  | nil => simpa using h
  | cons i is ih =>
    simp only [flatMap_cons, length_append] at hlen
    have hstep := (h.addData (d i).1 (by omega)).addData (d i).2 (by rw [length_append]; omega)
    rw [foldl_cons, flatMap_cons, ← append_assoc, ← append_assoc]
    exact ih hstep (by simp only [length_append]; omega)

theorem saPayload_eq {c : PayloadChain} (hc : c.WF) {proposals : List SaProposal}
    (hfit : 4 + (saBody forceSpi proposals).length < 2 ^ 16) :
    saPayload c proposals forceSpi =
      [0, 0] ++ (toBe 2 (4 + (saBody forceSpi proposals).length) ++ saBody forceSpi proposals) := by
  obtain ⟨pre, hpre, hhdr⟩ := addHdr_holds hc payloadSa 0
  have hbody : replicate 0 0 ++ proposals.zipIdx.flatMap (fun pi =>
      (proposalData pi.1 forceSpi (proposalLastOrMore pi.2 proposals.length)).1 ++
        (proposalData pi.1 forceSpi (proposalLastOrMore pi.2 proposals.length)).2) =
      saBody forceSpi proposals := by
    rw [replicate_zero, nil_append]; rfl
  have hall := foldl_addData_holds
    (fun pi => proposalData pi.1 forceSpi (proposalLastOrMore pi.2 proposals.length)) proposals.zipIdx
    hhdr (by rw [hbody]; exact hfit)
  rw [saPayload, ← hpre]
  exact hall.drop_data

theorem payloadLength_hdr {body : Bytes} {n : ℕ} (hn : n < 2 ^ 16) :
    payloadLength ([0, 0] ++ (toBe 2 n ++ body)) = .ok n := by
  have hs : slice ([0, 0] ++ (toBe 2 n ++ body)) 2 2 = .ok (toBe 2 n) :=
    slice_of_drop (drop_left' rfl) (length_toBe _ _) (by simp)
  rw [payloadLength, hs, bind_ok]
  have hf : fieldBe ([] ++ (toBe 2 n ++ [])) 0 2 = n := fieldBe_toBe rfl (by omega)
  rw [nil_append, append_nil] at hf
  rw [hf]; rfl

/-- Reading the payload means running the proposal loop over its body. -/
theorem ikev2ParseSaPayload_body {body : Bytes} (hfit : 4 + body.length < 2 ^ 16) :
    ikev2ParseSaPayload ([0, 0] ++ (toBe 2 (4 + body.length) ++ body)) (4 + body.length) =
      parseProposals ([0, 0] ++ (toBe 2 (4 + body.length) ++ body)) body.length body.length
        (4 + body.length) 0 [] := by
  have hsub : (4 + body.length + (2 ^ 64 - 4)) % 2 ^ 64 = body.length := by omega
  rw [ikev2ParseSaPayload, payloadLength_hdr hfit, bind_ok, if_neg (by omega), hsub,
    Nat.add_sub_cancel_left]

theorem proposalLastOrMore_of_two_le {n : ℕ} (hn : 2 ≤ n) (i : ℕ) : proposalLastOrMore i n = 2 := by
  unfold proposalLastOrMore
  rw [if_pos (by omega)]

/-- A list whose last proposal is marked as followed by another is rejected. -/
theorem parseProposals_all_more {rlen : ℕ} (hml : 4 + rlen ≤ mem.length) (hshort : rlen < 2 ^ 16) :
    ∀ (ps : List SaProposal) (fuel ptr : ℕ) (v : List SaProposal), ps ≠ [] → ps.length ≤ fuel →
      (∀ p ∈ ps, p.Encodable forceSpi) →
      mem.drop (4 + ptr) = ps.flatMap (proposalBytes forceSpi 2) →
      ptr + (ps.flatMap (proposalBytes forceSpi 2)).length = rlen →
      parseProposals mem rlen rlen fuel ptr v = .ok []
  | [], _, _, _, hne, _, _, _, _ => absurd rfl hne
  | p :: ps, 0, _, _, _, hfuel, _, _, _ => by simp at hfuel
  | p :: ps, fuel + 1, ptr, v, _, hfuel, henc, hmem, hrlen => by
    rw [flatMap_cons] at hmem hrlen
    rw [length_append] at hrlen
    have hp := henc p mem_cons_self
    have hread := parseProposal_data hml hp 2 hmem (by omega) (by omega)
    obtain ⟨hmore, hplen, -⟩ := proposalHdr_fields hp 2 (by omega)
    have hnext := drop_add_of_drop hmem rfl
    rw [parseProposals, hread]
    simp only [bind_ok, hmore, hplen]
    cases ps with
    | nil =>
      simp only [flatMap_nil, length_nil] at hrlen
      rw [if_neg (by omega), if_pos (by simp)]; rfl
    | cons q qs =>
      have hq := length_proposalBytes forceSpi 2 q
      rw [if_pos ⟨by rw [flatMap_cons, length_append] at hrlen; omega, trivial⟩]
      exact parseProposals_all_more hml hshort (q :: qs) fuel _ _ (by simp)
        (by simpa using hfuel) (fun r hr => henc r (mem_cons_of_mem _ hr))
        (by rw [← hnext, add_assoc]) (by omega)

/-- A single proposal, marked as the last one, is accepted. -/
theorem parseProposals_single {rlen : ℕ} (hml : 4 + rlen ≤ mem.length) (hshort : rlen < 2 ^ 16)
    (henc : p.Encodable forceSpi) (fuel : ℕ) (hmem : mem.drop 4 = proposalBytes forceSpi 0 p)
    (hrlen : (proposalBytes forceSpi 0 p).length = rlen) :
    parseProposals mem rlen rlen (fuel + 1) 0 [] = .ok [p] := by
  have hmem' : mem.drop (4 + 0) = proposalBytes forceSpi 0 p ++ [] := by rw [append_nil]; exact hmem
  have hread := parseProposal_data hml henc 0 hmem' (by omega) (by omega)
  obtain ⟨hlast, hplen, -⟩ := proposalHdr_fields henc 0 (by omega)
  rw [parseProposals, hread]
  simp only [bind_ok, hlast, hplen]
  rw [if_neg (by omega), if_neg (by simp; omega)]; rfl

theorem length_le_flatMap_proposalBytes (forceSpi : Bool) (m : Byte) (ps : List SaProposal) :
    ps.length ≤ (ps.flatMap (proposalBytes forceSpi m)).length := by
  induction ps with
  | nil => simp
  | cons p ps ih =>
    have hp := length_proposalBytes forceSpi m p
    rw [length_cons, flatMap_cons, length_append]; omega

theorem saBody_of_two_le {proposals : List SaProposal} (h : 2 ≤ proposals.length) (forceSpi : Bool) :
    saBody forceSpi proposals = proposals.flatMap (proposalBytes forceSpi 2) := by
  simp only [saBody, proposalLastOrMore_of_two_le h]
  rw [← flatMap_map (f := Prod.fst), zipIdx_map_fst]

/-- The SA payload is read back as written exactly when it carries at most one proposal. -/
theorem ikev2ParseSaPayload_addSa_iff {c : PayloadChain} (hc : c.WF) {proposals : List SaProposal}
    {forceSpi : Bool} (henc : ∀ p ∈ proposals, p.Encodable forceSpi)
    (hfit : 4 + (saBody forceSpi proposals).length < 2 ^ 16) :
    ikev2ParseSaPayload (saPayload c proposals forceSpi) (saPayload c proposals forceSpi).length =
        .ok proposals ↔
      proposals.length ≤ 1 := by
  have hlen : (saPayload c proposals forceSpi).length = 4 + (saBody forceSpi proposals).length := by
    rw [saPayload_eq hc hfit]; simp; omega
  rw [hlen, saPayload_eq hc hfit, ikev2ParseSaPayload_body hfit]
  rcases lt_or_ge proposals.length 2 with hone | htwo
  · refine iff_of_true ?_ (by omega)
    match proposals, hone with
    | [], _ => rfl
    | [p], _ =>
      have hbody : saBody forceSpi [p] = proposalBytes forceSpi 0 p := append_nil _
      rw [hbody] at hfit ⊢
      rw [show 4 + (proposalBytes forceSpi 0 p).length = 3 + (proposalBytes forceSpi 0 p).length + 1 by omega]
      exact parseProposals_single (by simp; omega) (by omega) (henc p mem_cons_self) _ rfl rfl
  · refine iff_of_false ?_ (by omega)
    have hbody := saBody_of_two_le htwo forceSpi
    have hcount := length_le_flatMap_proposalBytes forceSpi 2 proposals
    rw [← hbody] at hcount
    rw [parseProposals_all_more (by simp; omega) (by omega) proposals _ 0 [] (by rintro rfl; simp at htwo)
      (by omega) henc (by rw [← hbody]; rfl) (by rw [← hbody]; omega)]
    rintro ⟨⟩
    simp at htwo

/-- An ESP proposal with AES-CBC-256 and extended sequence numbers. -/
def espProposal (num : Byte) (spi : BitVec 64) : SaProposal :=
  ⟨num, protocolEsp, spi, [⟨transformTypeEncr, 12, [0x80, 14, 1, 0]⟩, ⟨transformTypeEsn, 1, []⟩]⟩

theorem saPayload_single_espProposal :
    ikev2ParseSaPayload (saPayload {} [espProposal 1 0xdeadbeef] false)
      (saPayload {} [espProposal 1 0xdeadbeef] false).length = .ok [espProposal 1 0xdeadbeef] :=
  (ikev2ParseSaPayload_addSa_iff (c := {}) ⟨by decide, by decide⟩
    (by rintro p hp; rcases mem_singleton.mp hp with rfl; exact ⟨by decide, .inl ⟨rfl, by decide⟩⟩)
    (by decide)).mpr (by decide)

/-- Two proposals do not survive: the second one is written as if a third followed. -/
theorem saPayload_two_proposals_rejected :
    ikev2ParseSaPayload (saPayload {} [espProposal 1 1, espProposal 2 2] false)
      (saPayload {} [espProposal 1 1, espProposal 2 2] false).length ≠
      .ok [espProposal 1 1, espProposal 2 2] := by
  decide +kernel

end Vpp.Ikev2
